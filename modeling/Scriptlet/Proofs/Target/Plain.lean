import Scriptlet.Target.Lower

/-!
Plain code: assignments and expressions in which no float is written or asked for. Lowering an
operator adds none, and a cast adds one only where it asks for a point.
-/

namespace Scriptlet.Target

mutual

def Expr.plain : Expr → Bool
  | .float _ => false
  | .name _ | .integer _ | .boolean _ | .null | .string _ => true
  | .call function arguments => function != castFunction .point && Expr.plainAll arguments
  | .list items | .falseAfter items => Expr.plainAll items
  | .binary _ left right => left.plain && right.plain
  | .not inner | .negate inner | .grouped inner | .yesNo inner => inner.plain

def Expr.plainAll : List Expr → Bool
  | [] => true
  | e :: es => e.plain && Expr.plainAll es

end

def Stmt.plain : Stmt → Bool
  | .assign _ value | .augment _ _ value | .expression value => value.plain
  | .ret _ | .globals _ | .nonlocals _ | .pass | .function .. => false

attribute [simp] Expr.plain Expr.plainAll Stmt.plain

section

variable {e left right : Expr} {tag whole leftTag rightTag : Option Tag}

theorem plain_call {function : String} (other : function ≠ castFunction .point) (plain : e.plain) :
    (Expr.call function [e]).plain := by
  simp [Expr.plain, Expr.plainAll, other, plain]

theorem textOf_plain (plain : e.plain) (tag : Tag) : (textOf e tag).plain := by
  cases tag with
  | text => exact plain
  | empty => rfl
  | state => exact plain
  | integer | point => exact plain_call (by decide) plain
  | list | unknown => simpa [textOf, shownText, Expr.plain, Expr.plainAll, plain] using by decide

theorem textOperand_plain (plain : e.plain) (tag : Option Tag) : (textOperand e tag).plain := by
  cases tag with
  | none => exact plain
  | some tag => exact textOf_plain plain tag

theorem numericOperand_plain (plain : e.plain) (tag : Option Tag) :
    (numericOperand e tag).plain := by
  unfold numericOperand
  split
  · rfl
  · exact plain

theorem condition_plain (plain : e.plain) (tag : Option Tag) : (condition e tag).plain := by
  unfold condition
  split
  · simp [Expr.plain, Expr.plainAll, plain]
  · exact plain

theorem plain_binary (op : Operator) (first : left.plain) (second : right.plain) :
    (Expr.binary op left right).plain := by
  simp [Expr.plain, first, second]

theorem binary_plain {op : BinaryOp} (first : left.plain) (second : right.plain) :
    (binary op whole leftTag rightTag left right).plain := by
  cases op with
  | logical op =>
    have first' := plain_call (by decide : "bool" ≠ castFunction .point)
      (condition_plain first leftTag)
    have second' := plain_call (by decide : "bool" ≠ castFunction .point)
      (condition_plain second rightTag)
    cases op <;> exact plain_binary _ first' second'
  | comparison op =>
    simp only [binary]
    split
    · simp [Expr.plain, Expr.plainAll, first, second]
    · exact plain_binary _ first second
  | arithmetic op =>
    simp only [binary]
    split
    · exact plain_binary _ (textOperand_plain first _) (textOperand_plain second _)
    · exact plain_binary _ (numericOperand_plain first _) (numericOperand_plain second _)

theorem cast_plain {target : CastTarget} (plain : e.plain)
    (allowed : target = .point → tag = some .list ∨ tag = some .empty) :
    (cast target tag e).plain := by
  unfold cast
  split
  · exact plain
  · exact plain
  · exact textOf_plain plain .state
  · exact textOf_plain plain .unknown
  · rename_i other other' _ _
    refine plain_call ?_ plain
    cases target with
    | point => exact absurd (allowed rfl) (not_or.2 ⟨by simpa using other, by simpa using other'⟩)
    | integer | text | state => decide

theorem compound_plain {name : String} {op : Arithmetic} (plain : e.plain) :
    (compound name op leftTag rightTag e).plain := by
  have counted := numericOperand_plain plain rightTag
  unfold compound
  dsimp only
  split
  · exact textOf_plain plain _
  · exact plain_binary (.arithmetic .add) (textOf_plain rfl _) plain
  · split
    · exact plain_binary (.arithmetic op) rfl counted
    · exact plain_binary (.arithmetic op) rfl counted
    · exact plain_binary (.arithmetic op) rfl counted
    · exact counted

end

end Scriptlet.Target
