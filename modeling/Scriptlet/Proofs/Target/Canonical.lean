import Scriptlet.Proofs.Target.Script
import Scriptlet.Proofs.Target.Semantics

/-!
A script as it is read means what it was written for: it has the same names in the same places, and
runs in the same way.
-/

namespace Scriptlet.Target

namespace Expr

variable {env : Env}

theorem names_signless {e : Expr} (number : e.names = [] ∧ e.opposite.names = []) :
    e.signless.names = [] := by
  unfold signless
  split
  · exact number.2
  · exact number.1

mutual

theorem names_canonical : ∀ e : Expr, e.canonical.names = e.names
  | .integer _ => names_signless ⟨rfl, rfl⟩
  | .float _ => names_signless ⟨rfl, rfl⟩
  | .name _ | .boolean _ | .null | .string _ => rfl
  | .call f arguments => congrArg (f :: ·) (namesAll_canonicalAll arguments)
  | .list items => namesAll_canonicalAll items
  | .binary _ left right => by
    rw [canonical, names, names, left.names_canonical, right.names_canonical]
  | .not operand => operand.names_canonical
  | .negate operand => operand.names_canonical
  | .grouped inner => by
    rw [canonical, names, ← inner.names_canonical]
    split <;> rfl
  | .falseAfter evaluated => namesAll_canonicalAll evaluated
  | .yesNo condition => condition.names_canonical

theorem namesAll_canonicalAll : ∀ es : List Expr, namesAll (canonicalAll es) = namesAll es
  | [] => rfl
  | e :: es => by rw [canonicalAll, namesAll, namesAll, e.names_canonical, namesAll_canonicalAll es]

end

theorem eval_integer {n : Int64} (readable : Readable (.integer n)) :
    (canonical (.integer n)).eval env = .ok (.int n.toInt) := by
  unfold canonical signless
  split
  · rw [opposite, eval, eval, toInt_opposite readable]
    exact congrArg (fun m => Except.ok (Object.int m)) (Int.neg_neg n.toInt)
  · rfl

theorem eval_float {x : Float} (readable : Readable (.float x)) :
    (canonical (.float x)).eval env = .ok (.float x) := by
  unfold canonical signless
  split
  · have twice := Point.neg_neg_of_isFinite readable
    exact congrArg (fun y => Except.ok (Object.float y)) twice
  · rfl

mutual

theorem eval_canonical : ∀ e : Expr, e.Readable → e.canonical.eval env = e.eval env
  | .integer _ => eval_integer
  | .float _ => eval_float
  | .name _ | .boolean _ | .null | .string _ => fun _ => rfl
  | .call _ arguments => by
    intro readable
    rw [canonical, eval, eval, evalAll_canonicalAll arguments readable.2]
  | .list items => by
    intro readable
    rw [canonical, eval, eval, evalAll_canonicalAll items readable]
  | .binary _ left right => by
    intro readable
    rw [canonical, eval, eval, left.eval_canonical readable.1, right.eval_canonical readable.2]
  | .not operand => by
    intro readable
    rw [canonical, eval, eval, operand.eval_canonical readable]
  | .negate operand => by
    intro readable
    rw [canonical, eval, eval, operand.eval_canonical readable]
  | .grouped inner => by
    intro readable
    rw [canonical, eval, ← inner.eval_canonical readable]
    split <;> rfl
  | .falseAfter evaluated => by
    intro readable
    rw [canonical, eval, eval, evalAll_canonicalAll evaluated readable.2]
  | .yesNo condition => by
    intro readable
    rw [canonical, eval, eval, condition.eval_canonical readable]

theorem evalAll_canonicalAll : ∀ es : List Expr, AllReadable es →
    evalAll env (canonicalAll es) = evalAll env es
  | [] => fun _ => rfl
  | e :: es => by
    intro readable
    rw [canonicalAll, evalAll, evalAll, e.eval_canonical readable.1,
      evalAll_canonicalAll es readable.2]

end

theorem printed?_canonical (e : Expr) : e.canonical.printed? = e.printed?.map canonical := by
  have number : ∀ e : Expr, e.printed? = none → e.signless.printed? = none := by
    intro e silent
    unfold signless
    split
    · rfl
    · exact silent
  cases e with
  | integer n => exact number _ rfl
  | float x => exact number _ rfl
  | call f arguments =>
    cases arguments with
    | nil => rfl
    | cons first rest =>
      cases rest with
      | nil =>
        unfold canonical printed?
        dsimp only [canonicalAll]
        split <;> rfl
      | cons => rfl
  | grouped inner =>
    cases signed : inner.signed with
    | true =>
      rw [canonical, if_pos signed, canonical_signed signed]
      rfl
    | false =>
      rw [canonical, if_neg (by simp [signed])]
      rfl
  | _ => rfl

theorem printed?_readable {e argument : Expr} (readable : e.Readable)
    (shown : e.printed? = some argument) : argument.Readable := by
  unfold printed? at shown
  split at shown
  · split at shown
    · cases shown
      exact readable.2.1
    · cases shown
  · cases shown

end Expr

namespace Stmt

variable {env : Env} {s : Stmt} {block : List Stmt}

theorem exec_canonical (readable : s.Readable) : s.canonical.exec env = s.exec env := by
  cases s with
  | assign name value => rw [canonical, exec, exec, value.eval_canonical readable.2]
  | augment name op value => rw [canonical, exec, exec, value.eval_canonical readable.2]
  | expression value =>
    rw [canonical, exec, exec, value.printed?_canonical, value.eval_canonical readable]
    cases shown : value.printed? with
    | none => rfl
    | some argument =>
      simp only [Option.map_some, argument.eval_canonical (value.printed?_readable readable shown)]
  | _ => rfl

theorem run_canonicalAll (readable : AllReadable block) :
    run env (canonicalAll block) = run env block := by
  induction block generalizing env with
  | nil => rfl
  | cons s block ih =>
    rw [canonicalAll, run, run, exec_canonical readable.1]
    simp only [ih readable.2]

theorem canonical_names (s : Stmt) : s.canonical.ownNames = s.ownNames ∧
    s.canonical.bound = s.bound ∧ s.canonical.globalNames = s.globalNames ∧
    s.canonical.nonlocalNames = s.nonlocalNames := by
  cases s with
  | assign name value | augment name op value =>
    exact ⟨congrArg (name :: ·) value.names_canonical, rfl, rfl, rfl⟩
  | expression value | ret value => exact ⟨value.names_canonical, rfl, rfl, rfl⟩
  | _ => exact ⟨rfl, rfl, rfl, rfl⟩

theorem canonical_eq_function {name : String} {parameters : List String} {body : List Stmt}
    (same : s.canonical = .function name parameters body) :
    ∃ inner, s = .function name parameters inner ∧ body = canonicalAll inner := by
  cases s with
  | function => cases same; exact ⟨_, rfl, rfl⟩
  | _ => cases same

end Stmt

theorem flatMap_canonicalAll {view : Stmt → List String} (block : List Stmt)
    (same : ∀ s : Stmt, view s.canonical = view s) :
    (Stmt.canonicalAll block).flatMap view = block.flatMap view := by
  rw [Stmt.canonicalAll_eq_map, List.flatMap_map]
  exact congrArg (block.flatMap ·) (funext same)

namespace Def

def canonical (d : Def) : Def := ⟨d.name, d.parameters, Stmt.canonicalAll d.body⟩

theorem globals_canonical (d : Def) : d.canonical.globals = d.globals :=
  flatMap_canonicalAll d.body fun s => s.canonical_names.2.2.1

theorem nonlocals_canonical (d : Def) : d.canonical.nonlocals = d.nonlocals :=
  flatMap_canonicalAll d.body fun s => s.canonical_names.2.2.2

theorem binds_canonical (d : Def) (name : String) : d.canonical.binds name = d.binds name := by
  have bound : d.canonical.body.flatMap Stmt.bound = d.body.flatMap Stmt.bound :=
    flatMap_canonicalAll d.body fun s => s.canonical_names.2.1
  unfold binds
  rw [globals_canonical, nonlocals_canonical, bound]
  rfl

end Def

theorem mem_canonicalAll {block : List Stmt} {d : Def}
    (defined : .function d.name d.parameters d.body ∈ Stmt.canonicalAll block) :
    ∃ written : Def, .function written.name written.parameters written.body ∈ block ∧
      d = written.canonical := by
  rw [Stmt.canonicalAll_eq_map] at defined
  obtain ⟨s, member, same⟩ := List.mem_map.1 defined
  obtain ⟨inner, rfl, body⟩ := Stmt.canonical_eq_function same
  refine ⟨⟨d.name, d.parameters, inner⟩, member, ?_⟩
  rw [Def.canonical, ← body]

-- The definitions that are read are those that were written, with the same ones around them.
theorem Nested.written {script : List Stmt} {around : List Def}
    (nested : Nested (Stmt.canonicalAll script) around) :
    ∃ written, Nested script written ∧ around = written.map Def.canonical := by
  induction nested with
  | outermost defined =>
    obtain ⟨d, member, rfl⟩ := mem_canonicalAll defined
    exact ⟨[d], .outermost member, rfl⟩
  | inner _ defined ih =>
    obtain ⟨written, inside, same⟩ := ih
    cases written with
    | nil => cases same
    | cons outer rest =>
      obtain ⟨rfl, rfl⟩ := List.cons.inj same
      obtain ⟨d, member, rfl⟩ := mem_canonicalAll defined
      exact ⟨d :: outer :: rest, .inner inside member, rfl⟩

theorem function_mem_canonicalAll {block : List Stmt} {d : Def}
    (defined : .function d.name d.parameters d.body ∈ block) :
    .function d.canonical.name d.canonical.parameters d.canonical.body ∈
      Stmt.canonicalAll block := by
  rw [Stmt.canonicalAll_eq_map]
  exact List.mem_map_of_mem defined

theorem Nested.canonical {script : List Stmt} {around : List Def} (nested : Nested script around) :
    Nested (Stmt.canonicalAll script) (around.map Def.canonical) := by
  induction nested with
  | outermost defined => exact .outermost (function_mem_canonicalAll defined)
  | inner _ defined ih => exact .inner ih (function_mem_canonicalAll defined)

end Scriptlet.Target
