import Scriptlet.Proofs.Grammar.Names
import Scriptlet.Target.Lower

/-!
Names of the language keep apart in Python: two names are spelled alike only if they are the same,
and no spelling is one of the functions that generated code calls on its own.
-/

namespace Scriptlet

open Target

variable {x y : String}

theorem IsName.ne_underscore (named : IsName x) (rest : List Char) : x.toList ≠ '_' :: rest := by
  obtain ⟨c, cs, same, lower, -⟩ := named.starts
  rw [same]
  intro equal
  obtain ⟨rfl, -⟩ := List.cons.inj equal
  exact absurd lower (by decide)

theorem spell_reserved (reserved : reservedNames.contains x = true) : spell x = "_mn_" ++ x := by
  rw [spell, if_pos reserved]

theorem spell_plain (plain : ¬ reservedNames.contains x = true) : spell x = x := by
  rw [spell, if_neg plain]

theorem toList_marked (x : String) :
    ("_mn_" ++ x).toList = '_' :: 'm' :: 'n' :: '_' :: x.toList := by
  rw [String.toList_append]
  rfl

theorem spell_inj (left : IsName x) (right : IsName y) (same : spell x = spell y) : x = y := by
  by_cases reservedX : reservedNames.contains x = true
  · rw [spell_reserved reservedX] at same
    by_cases reservedY : reservedNames.contains y = true
    · rw [spell_reserved reservedY] at same
      have chars := congrArg String.toList same
      rw [toList_marked, toList_marked] at chars
      exact String.toList_inj.1 (by simpa using chars)
    · rw [spell_plain reservedY] at same
      have chars := congrArg String.toList same
      rw [toList_marked] at chars
      exact absurd chars.symm (right.ne_underscore _)
  · rw [spell_plain reservedX] at same
    by_cases reservedY : reservedNames.contains y = true
    · rw [spell_reserved reservedY] at same
      have chars := congrArg String.toList same
      rw [toList_marked] at chars
      exact absurd chars (left.ne_underscore _)
    · rwa [spell_plain reservedY] at same

-- The functions that generated code uses on its own.
def helperNames : List String :=
  ["bool", "str", "int", "float", "isinstance", "list", "print", showHelper]

theorem spell_ne_helper (named : IsName x) : spell x ∉ helperNames := by
  intro member
  by_cases reserved : reservedNames.contains x = true
  · rw [spell_reserved reserved] at member
    have marked : ∀ helper ∈ helperNames, helper.toList.take 4 ≠ ['_', 'm', 'n', '_'] := by
      decide +kernel
    refine marked _ member ?_
    rw [toList_marked]
    rfl
  · rw [spell_plain reserved] at member
    have taken : ∀ helper ∈ helperNames,
        reservedNames.contains helper = true ∨ helper.toList.head? = some '_' := by decide +kernel
    rcases taken _ member with listed | underscored
    · exact reserved listed
    · obtain ⟨c, cs, same, lower, -⟩ := named.starts
      rw [same] at underscored
      cases underscored
      exact absurd lower (by decide)

theorem mem_map_spell {xs : List String} (named : IsName x) (all : AllNames xs) :
    spell x ∈ xs.map spell ↔ x ∈ xs := by
  constructor
  · intro member
    obtain ⟨y, listed, same⟩ := List.mem_map.1 member
    rwa [spell_inj named (all y listed) same.symm]
  · exact List.mem_map_of_mem

end Scriptlet
