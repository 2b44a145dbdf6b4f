import Scriptlet.Proofs.Scope.Frames
import Scriptlet.Proofs.Simulation.Arithmetic

/-!
Types without values. The type of a result follows from the types of the operands wherever the
operation succeeds, and what a table knows about types changes with its operations in a way that
no value decides.
-/

namespace Scriptlet

namespace Tag

def ofArithmetic (op : Arithmetic) (left right : Tag) : Tag :=
  if left = list ∨ right = list then list
  else if left = text ∨ right = text then text
  else if op = .divide ∨ left = point ∨ right = point then point
  else integer

def ofBinary (op : BinaryOp) (left right : Tag) : Tag :=
  if left = unknown ∨ right = unknown then unknown
  else
    match op with
    | .logical _ | .comparison _ => state
    | .arithmetic op => ofArithmetic op left right

def ofUnary (op : UnaryOp) (operand : Tag) : Tag :=
  if operand = unknown then unknown
  else
    match op with
    | .not => state
    | .negate => if operand = point then point else integer

-- Lists, `empty` and what is not known pass through a cast.
def ofCast (target : CastTarget) (operand : Tag) : Tag :=
  if operand = list ∨ operand = empty ∨ operand = unknown then operand
  else
    match target with
    | .integer => integer
    | .point => point
    | .text => text
    | .state => state

theorem ofBinary_ne_empty (op : BinaryOp) (left right : Tag) : ofBinary op left right ≠ .empty := by
  unfold ofBinary
  split
  · simp
  · cases op with
    | logical | comparison => simp
    | arithmetic op =>
      simp only [ofArithmetic]
      grind

theorem ofUnary_ne_empty (op : UnaryOp) (operand : Tag) : ofUnary op operand ≠ .empty := by
  unfold ofUnary
  split
  · simp
  · cases op with
    | not => simp
    | negate =>
      simp only
      split <;> simp

theorem of_ofCast_empty {target : CastTarget} {operand : Tag}
    (empty : ofCast target operand = .empty) : operand = .empty := by
  unfold ofCast at empty
  split at empty
  · exact empty
  · cases target <;> cases empty

end Tag

namespace Value

variable {v w u : Value}

theorem isUnknown_iff : v.isUnknown = true ↔ v.tag = .unknown := by
  cases v <;> simp [isUnknown, tag]

theorem number_integer (whole : v.tag ≠ .point) : ∃ n, v.number .integer = .integer n := by
  cases v with
  | point x => exact absurd rfl whole
  | _ => exact ⟨_, rfl⟩

theorem numericArithmetic_tag {op : Arithmetic} (done : numericArithmetic op v w = .ok u) :
    u.tag = if op = .divide ∨ v.tag = .point ∨ w.tag = .point then .point else .integer := by
  unfold numericArithmetic at done
  dsimp only at done
  by_cases point : op = .divide ∨ v.tag = .point ∨ w.tag = .point
  · rw [arithmeticMode, if_pos point] at done
    obtain ⟨x, -, rfl⟩ := map_eq_ok done
    rw [if_pos point]
    rfl
  · rw [arithmeticMode, if_neg point] at done
    obtain ⟨n, left⟩ := number_integer fun same => point (.inr (.inl same))
    obtain ⟨m, right⟩ := number_integer fun same => point (.inr (.inr same))
    rw [left, right] at done
    obtain ⟨x, -, rfl⟩ := map_eq_ok done
    rw [if_neg point]
    rfl

theorem arithmetic_tag {op : Arithmetic} (done : arithmetic op v w = .ok u) :
    u.tag = Tag.ofArithmetic op v.tag w.tag := by
  unfold Tag.ofArithmetic
  cases computed done with
  | joined left right added result =>
    subst left result
    rw [if_pos (.inl rfl)]
    rfl
  | concatenated left right texts added result =>
    subst result
    rw [if_neg (not_or.2 ⟨left, right⟩), if_pos texts]
    rfl
  | counted left right result =>
    rw [if_neg (not_or.2 ⟨left.1, right.1⟩), if_neg (not_or.2 ⟨left.2, right.2⟩)]
    exact numericArithmetic_tag result

theorem applyBinary_tag {op : BinaryOp} (done : applyBinary op v w = .ok u) :
    u.tag = Tag.ofBinary op v.tag w.tag := by
  have unknown : (v.isUnknown || w.isUnknown) = true ↔ v.tag = .unknown ∨ w.tag = .unknown := by
    rw [Bool.or_eq_true, isUnknown_iff, isUnknown_iff]
  unfold applyBinary at done
  unfold Tag.ofBinary
  by_cases known : v.tag = .unknown ∨ w.tag = .unknown
  · rw [if_pos (unknown.2 known)] at done
    rw [if_pos known]
    cases done
    rfl
  · rw [if_neg (mt unknown.1 known)] at done
    rw [if_neg known]
    cases op with
    | logical op => cases op <;> cases done <;> rfl
    | comparison op => cases done; rfl
    | arithmetic op => exact arithmetic_tag done

theorem applyUnary_tag {op : UnaryOp} (done : applyUnary op v = .ok u) :
    u.tag = Tag.ofUnary op v.tag := by
  unfold applyUnary at done
  unfold Tag.ofUnary
  by_cases known : v.tag = .unknown
  · rw [if_pos (isUnknown_iff.2 known)] at done
    rw [if_pos known]
    cases done
    rfl
  · rw [if_neg (mt isUnknown_iff.1 known)] at done
    rw [if_neg known]
    cases op with
    | not => cases done; rfl
    | negate =>
      cases v with
      | integer n =>
        dsimp only [negate] at done
        split at done <;> cases done
        rfl
      | point x | state b => cases done; rfl
      | text | list | empty | unknown => cases done

theorem castTo_tag {target : CastTarget} (done : castTo target v = .ok u) :
    u.tag = Tag.ofCast target v.tag := by
  cases v with
  | list | empty | unknown => cases done; rfl
  | integer | point | text | state =>
    cases target with
    | integer | point =>
      simp only [castTo] at done
      split at done
      · rename_i result
        obtain ⟨x, -, rfl⟩ := Option.map_eq_some_iff.1 result
        cases done
        rfl
      · cases done
    | text | state => cases done; rfl

end Value

-- For each name, the type that it has in each open scope, innermost first.
abbrev Tags := String → List (Option Tag)

-- Gives the innermost variable a new type.
def retag (tag : Tag) : List (Option Tag) → List (Option Tag)
  | [] => []
  | none :: outer => none :: retag tag outer
  | some _ :: outer => some tag :: outer

namespace Tags

def find? (known : Tags) (name : String) : Option Tag := (known name).findSome? id

def declare (known : Tags) (name : String) (tag : Tag) : Tags :=
  fun x => if x = name then some tag :: (known x).tail else known x

def assign (known : Tags) (name : String) (tag : Tag) : Tags :=
  fun x => if x = name then retag tag (known x) else known x

def enter (known : Tags) : Tags := fun x => none :: known x

def exit (known : Tags) : Tags := fun x => (known x).tail

theorem assign_declare {known : Tags} {name : String} {first tag : Tag} :
    (known.declare name first).assign name tag = known.declare name tag := by
  funext x
  by_cases own : x = name <;> simp [assign, declare, own, retag]

end Tags

namespace SymbolTable

variable {t t' : SymbolTable} {name x : String} {value : Value} {frame : List Symbol}
  {frames : List (List Symbol)}

-- The type that a scope has for a name.
def tagIn? (name : String) (frame : List Symbol) : Option Tag :=
  (frame.find? (·.name = name)).map (·.value.tag)

def tags (t : SymbolTable) : Tags := fun name => t.frames.map (tagIn? name)

theorem lookup?_tag : (t.lookup? name).map (·.value.tag) = t.tags.find? name := by
  rw [lookup?_eq, List.map_findSome?, Tags.find?, tags, List.findSome?_map]
  rfl

theorem tagIn?_rebind : tagIn? x (frame.map (Symbol.rebind name value)) =
    if x = name then (tagIn? x frame).map fun _ => value.tag else tagIn? x frame := by
  rw [tagIn?, find?_rebind, Option.map_map, tagIn?]
  cases found : frame.find? (·.name = x) with
  | none => simp
  | some symbol =>
    have named : symbol.name = x := by simpa using List.find?_some found
    by_cases own : x = name
    · simp [Symbol.rebind, named, own]
    · simp [Symbol.rebind, named, own]

theorem rebindFirst_tags : (rebindFirst name value frames).map (tagIn? x) =
    if x = name then retag value.tag (frames.map (tagIn? x)) else frames.map (tagIn? x) := by
  induction frames with
  | nil => simp [rebindFirst, retag]
  | cons frame outer ih =>
    rw [rebindFirst]
    cases found : frame.find? (·.name = name) with
    | none =>
      have absent : tagIn? name frame = none := by rw [tagIn?, found]; rfl
      simp only [Option.isSome_none, Bool.false_eq_true, reduceIte, List.map_cons, ih]
      by_cases own : x = name
      · subst own
        simp [absent, retag]
      · simp [own]
    | some symbol =>
      have present : tagIn? name frame = some symbol.value.tag := by rw [tagIn?, found]; rfl
      simp only [Option.isSome_some, reduceIte, List.map_cons, tagIn?_rebind]
      by_cases own : x = name
      · subst own
        simp [present, retag]
      · simp [own]

theorem assign_tags (sound : t.Sound) :
    (t.assign name value).tags = t.tags.assign name value.tag := by
  funext x
  rw [tags, assign_frames sound, rebindFirst_tags]
  rfl

theorem declare?_tags (sound : t.Sound) {fixed : Bool} {position : Position}
    (declared : t.declare? name fixed position = some t') :
    (t'.assign name value).tags = t.tags.declare name value.tag := by
  obtain ⟨frames, -⟩ := declare?_frames sound declared
  have first : t'.tags = t.tags.declare name .empty := by
    funext x
    rw [tags, frames, Tags.declare, tags, frames_eq, List.map_cons, List.map_cons, List.tail_cons]
    by_cases own : x = name
    · subst own
      simp [tagIn?, declare?_new declared, Value.tag]
    · simp [tagIn?, own, Ne.symm own]
  rw [assign_tags (declare?_names sound declared).2, first, Tags.assign_declare]

theorem enter_tags (sound : t.Sound) : t.enter.tags = t.tags.enter := by
  funext x
  rw [tags, enter_frames sound]
  rfl

theorem exit_tags (nested : t.enclosing ≠ []) : t.exit.tags = t.tags.exit := by
  funext x
  rw [tags, exit_frames nested, List.map_tail]
  rfl

end SymbolTable

end Scriptlet
