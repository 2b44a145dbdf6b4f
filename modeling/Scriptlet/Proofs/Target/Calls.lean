import Mathlib.Data.List.Perm.Basic
import Scriptlet.Proofs.Analysis.Annotation
import Scriptlet.Proofs.Target.Lowered
import Scriptlet.Proofs.Typing.Tags

/-!
Calls in lowered code. An operand is left out of the code only where the check has found it to be
`empty`, and there is no call in such an operand; every other operand stands in the code once. So
the calls in lowered code are the calls of the program, each once and in the same order.
-/

namespace Scriptlet

open Target

mutual

-- The calls in an expression, in source order: a call comes before those in its arguments.
def Expr.calls : Expr → List Expr
  | .literal .. | .identifier .. => []
  | .call node callee calleeSpan arguments =>
    .call node callee calleeSpan arguments :: Expr.callsAll arguments
  | .list _ items => Expr.callsAll items
  | .binary _ _ left right => left.calls ++ right.calls
  | .unary _ _ inner | .cast _ _ inner | .grouping _ inner => inner.calls

def Expr.callsAll : List Expr → List Expr
  | [] => []
  | e :: es => e.calls ++ Expr.callsAll es

end

-- The name of the function that is called.
def Expr.callee : Expr → String
  | .call _ callee _ _ => callee
  | _ => ""

-- The calls in a statement; those in the body of a function count.
def Stmt.calls (s : Stmt) : List Expr := s.roots.flatMap Expr.calls

-- The call that an expression itself is.
def Expr.ownCall : Expr → List Expr
  | .call node callee calleeSpan arguments => [.call node callee calleeSpan arguments]
  | _ => []

namespace Expr

theorem callsAll_eq (es : List Expr) : callsAll es = es.flatMap calls := by
  induction es with
  | nil => rfl
  | cons e es ih => rw [callsAll, ih, List.flatMap_cons]

theorem calls_eq (e : Expr) : e.calls = e.ownCall ++ e.parts.flatMap calls := by
  cases e <;> simp [calls, parts, ownCall, callsAll_eq]

theorem calls_perm (e : Expr) : e.calls.Perm (e.nodes.filter isCall) := by
  induction e using induction_on_parts with
  | whole e ih =>
    have own : [e].filter isCall = e.ownCall := by cases e <;> rfl
    rw [calls_eq, nodes_eq, List.filter_append, own, List.filter_flatMap]
    exact List.perm_append_comm.trans
      ((List.Perm.flatMap_left e.parts ih).append_right e.ownCall)

theorem lowerAll_eq (a : Analysis) (es : List Expr) : lowerAll a es = es.map (lower a) := by
  induction es with
  | nil => rfl
  | cons e es ih => rw [lowerAll, ih, List.map_cons]

end Expr

theorem Stmt.calls_perm (s : Stmt) :
    s.calls.Perm ((s.roots.flatMap Expr.nodes).filter Expr.isCall) := by
  rw [Stmt.calls, List.filter_flatMap]
  exact List.Perm.flatMap_left s.roots fun root _ => root.calls_perm

namespace Expr

variable {t : SymbolTable} {known : Expr → Value} {e : Expr}

theorem tag_settled {outcome : Except ValueFailure Value}
    (tagged : (Value.settled outcome).tag = .empty) : ∃ v, outcome = .ok v ∧ v.tag = .empty := by
  cases outcome with
  | error => cases tagged
  | ok v => exact ⟨v, rfl, tagged⟩

-- A node that comes to `empty` calls nothing itself, and its operand comes to `empty` too.
theorem settled_empty (tagged : (e.settled t known).tag = .empty) :
    e.ownCall = [] ∧ ∀ part ∈ e.parts, (known part).tag = .empty := by
  cases e with
  | literal | identifier => exact ⟨rfl, List.forall_mem_nil _⟩
  | call | list => cases tagged
  | binary node op left right =>
    obtain ⟨v, done, empty⟩ := tag_settled tagged
    rw [Value.applyBinary_tag done] at empty
    exact absurd empty (Tag.ofBinary_ne_empty _ _ _)
  | unary node op operand =>
    obtain ⟨v, done, empty⟩ := tag_settled tagged
    rw [Value.applyUnary_tag done] at empty
    exact absurd empty (Tag.ofUnary_ne_empty _ _)
  | cast node target operand =>
    obtain ⟨v, done, empty⟩ := tag_settled tagged
    rw [Value.castTo_tag done] at empty
    exact ⟨rfl, List.forall_mem_singleton.2 (Tag.of_ofCast_empty empty)⟩
  | grouping node inner => exact ⟨rfl, List.forall_mem_singleton.2 tagged⟩

end Expr

theorem Evaluation.Recorded.calls_empty {v : Evaluation} {final : Analysis}
    (recorded : v.Recorded final) {n : Expr} (inside : n ∈ v.value.nodes)
    (tagged : final.tag? n.id = some .empty) : n.calls = [] := by
  induction n using Expr.induction_on_parts with
  | whole n ih =>
    rw [Analysis.tag?, recorded.values n inside] at tagged
    obtain ⟨own, parts⟩ := Expr.settled_empty (Option.some.inj tagged)
    rw [n.calls_eq, own, List.nil_append, List.flatMap_eq_nil_iff]
    intro part below
    have filed := recorded.values part (Expr.parts_mem_nodes inside below)
    refine ih part below (Expr.parts_mem_nodes inside below) ?_
    have found := parts part below
    rw [Analysis.recorded, filed] at found
    rw [Analysis.tag?, filed]
    exact congrArg some found

namespace Target

mutual

-- The calls of functions of the program, in the order in which they are written.
def Expr.calls : Expr → List Expr
  | .name _ | .integer _ | .float _ | .boolean _ | .null | .string _ => []
  | .call function arguments =>
    (if function ∈ helperNames then [] else [.call function arguments]) ++ Expr.callsAll arguments
  | .list items | .falseAfter items => Expr.callsAll items
  | .binary _ left right => left.calls ++ right.calls
  | .not inner | .negate inner | .grouped inner | .yesNo inner => inner.calls

def Expr.callsAll : List Expr → List Expr
  | [] => []
  | e :: es => e.calls ++ Expr.callsAll es

end

attribute [simp] Expr.calls Expr.callsAll

theorem Expr.callsAll_eq (es : List Expr) : callsAll es = es.flatMap calls := by
  induction es with
  | nil => rfl
  | cons e es ih => rw [callsAll, ih, List.flatMap_cons]

-- What lowering puts around operands: they stand in the expression, each once and in this order,
-- among operators, helpers, and constants that stand for `empty`.
inductive Woven : List Expr → Expr → Prop where
  | operand (e : Expr) : Woven [e] e
  | zero : Woven [] (.integer 0)
  | emptyText : Woven [] (.string "empty")
  | list (items : List Expr) : Woven items (.list items)
  | helper {f : String} {es : List Expr} {e : Expr} (helps : f ∈ helperNames) (inner : Woven es e) :
      Woven es (.call f [e])
  | shown {es : List Expr} {e : Expr} (inner : Woven es e) : Woven es (shownText e)
  | yesNo {es : List Expr} {e : Expr} (inner : Woven es e) : Woven es (.yesNo e)
  | not {es : List Expr} {e : Expr} (inner : Woven es e) : Woven es (.not e)
  | negate {es : List Expr} {e : Expr} (inner : Woven es e) : Woven es (.negate e)
  | grouped {es : List Expr} {e : Expr} (inner : Woven es e) : Woven es (.grouped e)
  | falseAfter {es : List Expr} {e : Expr} (inner : Woven es e) : Woven es (.falseAfter [e])
  | unordered {ls rs : List Expr} {l r : Expr} (left : Woven ls l) (right : Woven rs r) :
      Woven (ls ++ rs) (.falseAfter [l, r])
  | binary {ls rs : List Expr} {op : Operator} {l r : Expr} (left : Woven ls l)
      (right : Woven rs r) : Woven (ls ++ rs) (.binary op l r)

namespace Woven

variable {es : List Expr} {e l r : Expr}

theorem calls (woven : Woven es e) : e.calls = es.flatMap Expr.calls := by
  induction woven with
  | operand e => simp
  | zero | emptyText => rfl
  | list items => exact Expr.callsAll_eq items
  | helper helps inner ih => simp [helps, ih]
  | shown inner ih => simp [shownText, helperNames, ih]
  | yesNo inner ih | not inner ih | negate inner ih | grouped inner ih => exact ih
  | falseAfter inner ih => simp [ih]
  | unordered left right ihl ihr => simp [ihl, ihr]
  | binary left right ihl ihr => simp [ihl, ihr]

end Woven

-- Whether an operand stays. A place that drops operands drops those found to be `empty`.
def kept (drops : Bool) (tag : Option Tag) : Bool := !drops || tag != some .empty

-- The operand, unless it is dropped.
def spared (drops : Bool) (tag : Option Tag) (e : Expr) : List Expr :=
  if kept drops tag then [e] else []

theorem spared_sublist (drops : Bool) (tag : Option Tag) (e : Expr) :
    (spared drops tag e).Sublist [e] := by
  unfold spared
  split
  · exact .refl _
  · exact List.nil_sublist _

theorem textOf_woven (e : Expr) (tag : Tag) : Woven (spared true (some tag) e) (textOf e tag) := by
  cases tag with
  | text => exact .operand e
  | state => exact .yesNo (.operand e)
  | empty => exact .emptyText
  | integer | point => exact .helper (by decide) (.operand e)
  | list | unknown => exact .shown (.operand e)

theorem textOperand_woven (e : Expr) (tag : Option Tag) :
    Woven (spared true tag e) (textOperand e tag) := by
  cases tag with
  | none => exact .operand e
  | some tag => exact textOf_woven e tag

theorem numericOperand_woven (e : Expr) (tag : Option Tag) :
    Woven (spared true tag e) (numericOperand e tag) := by
  unfold numericOperand
  split
  · exact .zero
  · rename_i filled
    rw [spared, if_pos (by simpa [kept] using filled)]
    exact .operand e

theorem condition_woven (e : Expr) (tag : Option Tag) : Woven [e] (condition e tag) := by
  unfold condition
  split
  · exact .falseAfter (.operand e)
  · exact .operand e

theorem cast_woven (target : CastTarget) (tag : Option Tag) (e : Expr) :
    Woven [e] (cast target tag e) := by
  unfold cast
  split
  · exact .operand e
  · exact .operand e
  · exact textOf_woven e .state
  · exact textOf_woven e .unknown
  · exact .helper (by cases target <;> decide) (.operand e)

theorem binary_woven (op : BinaryOp) (whole left right : Option Tag) (l r : Expr) :
    ∃ drops, Woven (spared drops left l ++ spared drops right r)
      (Target.binary op whole left right l r) := by
  unfold Target.binary
  split
  · refine ⟨false, ?_⟩
    exact .binary (.helper (by decide) (condition_woven l left))
      (.helper (by decide) (condition_woven r right))
  · refine ⟨false, ?_⟩
    exact .binary (.helper (by decide) (condition_woven l left))
      (.helper (by decide) (condition_woven r right))
  · refine ⟨false, ?_⟩
    split
    · exact .unordered (.operand l) (.operand r)
    · exact .binary (.operand l) (.operand r)
  · refine ⟨true, ?_⟩
    split
    · exact .binary (textOperand_woven l left) (textOperand_woven r right)
    · exact .binary (numericOperand_woven l left) (numericOperand_woven r right)

theorem compound_woven (name : String) (op : Arithmetic) (target operand : Option Tag)
    (value : Expr) :
    ∃ own written, (compound name op target operand value).Writes name written ∧
      own.Sublist [.name name] ∧ Woven (own ++ spared true operand value) written := by
  unfold compound
  dsimp only
  split
  · exact ⟨[], _, .inr ⟨_, rfl⟩, List.nil_sublist _, textOf_woven value _⟩
  · rename_i tag _
    exact ⟨_, _, .inl rfl, spared_sublist true (some tag) _,
      .binary (textOf_woven _ tag) (.operand value)⟩
  · split
    · exact ⟨[], _, .inl rfl, List.nil_sublist _, .binary .zero (numericOperand_woven value _)⟩
    · exact ⟨[.name name], _, .inl rfl, .refl _,
        .binary (.operand _) (numericOperand_woven value _)⟩
    · exact ⟨[.name name], _, .inl rfl, .refl _,
        .binary (.operand _) (numericOperand_woven value _)⟩
    · exact ⟨[], _, .inr ⟨_, rfl⟩, List.nil_sublist _, numericOperand_woven value _⟩

-- A name or a constant.
def Expr.isAtom : Expr → Bool
  | .name _ | .integer _ | .float _ | .boolean _ | .null | .string _ => true
  | _ => false

-- An expression with these operands: a call of one of these functions, or something woven.
inductive Framed (functions : List String) : List Expr → Expr → Prop where
  | atom {e : Expr} (atomic : e.isAtom = true) : Framed functions [] e
  | call {f : String} (operands : List Expr) (known : f ∈ functions) :
      Framed functions operands (.call f operands)
  | woven {operands : List Expr} {e : Expr} (woven : Woven operands e) :
      Framed functions operands e

theorem Framed.calls {operands : List Expr} {e : Expr} (framed : Framed [] operands e) :
    e.calls = operands.flatMap Expr.calls := by
  cases framed with
  | atom atomic =>
    cases e with
    | name | integer | float | boolean | null | string => rfl
    | _ => cases atomic
  | call _ known => cases known
  | woven woven => exact woven.calls

end Target

namespace Expr

variable {a : Analysis} {e : Expr}

-- The function that an expression itself calls, as it is spelled.
def ownFunction (e : Expr) : List String := e.ownCall.map fun call => spell call.callee

-- The operands that the lowered form of an expression has.
def operands (a : Analysis) (drops : Bool) (e : Expr) : List Expr :=
  e.parts.filter fun part => kept drops (a.tag? part.id)

theorem operands_all : e.operands a false = e.parts := by simp [operands, kept]

theorem lower_framed (a : Analysis) (e : Expr) : ∃ drops,
    Framed e.ownFunction ((e.operands a drops).map (lower a)) (e.lower a) := by
  cases e with
  | literal node value => exact ⟨false, .atom (by cases value <;> rfl)⟩
  | identifier node name => exact ⟨false, .atom rfl⟩
  | call node callee calleeSpan arguments =>
    refine ⟨false, ?_⟩
    rw [operands_all, lower, lowerAll_eq]
    exact .call _ (List.mem_singleton.2 rfl)
  | list node items =>
    refine ⟨false, .woven ?_⟩
    rw [operands_all, lower, lowerAll_eq]
    exact .list _
  | binary node op left right =>
    obtain ⟨drops, woven⟩ := binary_woven op (a.tag? node.id) (a.tag? left.id) (a.tag? right.id)
      (left.lower a) (right.lower a)
    refine ⟨drops, .woven ?_⟩
    have spares : ((Expr.binary node op left right).operands a drops).map (lower a) =
        spared drops (a.tag? left.id) (left.lower a) ++
          spared drops (a.tag? right.id) (right.lower a) := by
      unfold operands parts spared
      rw [List.filter_cons, List.filter_cons]
      split <;> split <;> rfl
    rw [spares]
    exact woven
  | unary node op operand =>
    refine ⟨false, .woven ?_⟩
    cases op with
    | not => exact .not (condition_woven _ _)
    | negate => exact .negate (.operand _)
  | cast node target operand => exact ⟨false, .woven (cast_woven _ _ _)⟩
  | grouping node inner => exact ⟨false, .woven (.grouped (.operand _))⟩

-- What the calls of an expression need to stay: no function has the name of a helper, and nothing
-- that may be dropped has a call in it.
structure Callable (a : Analysis) (e : Expr) : Prop where
  apart : ∀ n ∈ e.nodes, ∀ f ∈ n.ownFunction, f ∉ helperNames
  silent : ∀ n ∈ e.nodes, a.tag? n.id = some .empty → n.calls = []

theorem Callable.part (callable : e.Callable a) {part : Expr} (below : part ∈ e.parts) :
    part.Callable a where
  apart n inside := callable.apart n (mem_nodes_of_part below inside)
  silent n inside := callable.silent n (mem_nodes_of_part below inside)

theorem Callable.dropped (callable : e.Callable a) {n part : Expr} {drops : Bool}
    (inside : n ∈ e.nodes) (below : part ∈ n.parts)
    (gone : kept drops (a.tag? part.id) = false) : part.calls = [] := by
  have tagged : a.tag? part.id = some .empty := by
    simp only [kept, Bool.or_eq_false_iff, bne_eq_false_iff_eq] at gone
    exact gone.2
  exact callable.silent part (parts_mem_nodes inside below) tagged

theorem calls_operands (callable : e.Callable a) (drops : Bool) :
    (e.operands a drops).flatMap calls = e.parts.flatMap calls := by
  have gone : ∀ part ∈ e.parts, kept drops (a.tag? part.id) = false → part.calls = [] :=
    fun part below => callable.dropped e.self_mem_nodes below
  unfold operands
  generalize e.parts = parts at gone
  induction parts with
  | nil => rfl
  | cons part parts ih =>
    obtain ⟨here, others⟩ := List.forall_mem_cons.1 gone
    rw [List.filter_cons, List.flatMap_cons]
    split
    · rw [List.flatMap_cons, ih others]
    · rename_i dropped
      rw [here (by simpa using dropped), ih others]
      rfl

theorem lower_calls (callable : e.Callable a) : (e.lower a).calls = e.calls.map (lower a) := by
  induction e using induction_on_parts with
  | whole e ih =>
    have kept : ∀ drops, ((e.operands a drops).map (lower a)).flatMap Target.Expr.calls =
        (e.parts.flatMap calls).map (lower a) := by
      intro drops
      have each : ∀ part ∈ e.operands a drops,
          (part.lower a).calls = part.calls.map (lower a) := by
        intro part member
        have below : part ∈ e.parts := List.mem_of_mem_filter member
        exact ih part below (callable.part below)
      rw [List.flatMap_map, List.flatMap_congr each, ← List.map_flatMap,
        calls_operands callable]
    obtain ⟨drops, framed⟩ := lower_framed a e
    rw [e.calls_eq, List.map_append, ← kept drops]
    cases e with
    | call node callee calleeSpan arguments =>
      have apart : spell callee ∉ helperNames := callable.apart _ (self_mem_nodes _) _
        (List.mem_singleton.2 rfl)
      rw [kept, ← kept false, operands_all, ownCall, lower, lowerAll_eq, Target.Expr.calls,
        if_neg apart, Target.Expr.callsAll_eq, List.map_singleton, lower, lowerAll_eq]
      rfl
    | _ => exact framed.calls

end Expr

namespace Target

mutual

def Stmt.calls : Stmt → List Expr
  | .assign _ value | .augment _ _ value | .expression value | .ret value => value.calls
  | .globals _ | .nonlocals _ | .pass => []
  | .function _ _ body => Stmt.callsAll body

def Stmt.callsAll : List Stmt → List Expr
  | [] => []
  | s :: rest => s.calls ++ Stmt.callsAll rest

end

theorem Stmt.callsAll_append (first second : List Stmt) :
    callsAll (first ++ second) = callsAll first ++ callsAll second := by
  induction first with
  | nil => rfl
  | cons s first ih => rw [List.cons_append, callsAll, callsAll, ih, List.append_assoc]

theorem Stmt.Writes.calls {line : Stmt} {name : String} {value : Expr}
    (writes : line.Writes name value) : line.calls = value.calls := by
  rcases writes with rfl | ⟨op, rfl⟩ <;> rfl

end Target

section Statements

variable {a : Analysis} {enclosing : List (List String)}

theorem bodyHeader_calls {locals : List String} {body : List Stmt} :
    Target.Stmt.callsAll (bodyHeader enclosing locals body) = [] := by
  have listing : ∀ (form : List String → Target.Stmt) (names : List String),
      (∀ names, (form names).calls = []) →
        Target.Stmt.callsAll (outerDeclaration form names) = [] := by
    intro form names silent
    unfold outerDeclaration
    split
    · rfl
    · rw [Target.Stmt.callsAll, silent]
      rfl
  rw [bodyHeader_eq, Target.Stmt.callsAll_append, Target.Stmt.callsAll_append,
    listing _ _ fun _ => rfl, listing _ _ fun _ => rfl]
  split <;> rfl

theorem Stmt.lower_function_calls {span nameSpan : Span} {name : String}
    {parameters : List Parameter} {body : List Stmt} :
    Target.Stmt.callsAll ((Stmt.function span name nameSpan parameters body).lower a enclosing) =
      Target.Stmt.callsAll (Stmt.lowerAll a (localNames parameters body :: enclosing) body) := by
  have inner : (definition a enclosing name parameters body).statement.calls =
      Target.Stmt.callsAll (Stmt.lowerAll a (localNames parameters body :: enclosing) body) := by
    rw [definition, Def.statement, Target.Stmt.calls, Target.Stmt.callsAll_append,
      bodyHeader_calls]
    rfl
  rw [lower_function, Target.Stmt.callsAll_append]
  split <;> simp [Target.Stmt.callsAll, Target.Stmt.calls, inner]

theorem compound_calls {name : String} {op : Arithmetic} {e : Expr} (target : Option Tag)
    (callable : e.Callable a) :
    (compound (spell name) op target (a.tag? e.id) (e.lower a)).calls =
      e.calls.map (Expr.lower a) := by
  obtain ⟨own, written, writes, read, woven⟩ :=
    compound_woven (spell name) op target (a.tag? e.id) (e.lower a)
  have silent : own.flatMap Target.Expr.calls = [] := by
    refine List.flatMap_eq_nil_iff.2 fun x member => ?_
    cases List.mem_singleton.1 (read.subset member)
    rfl
  rw [writes.calls, woven.calls, List.flatMap_append, silent, List.nil_append, spared]
  split
  · rw [List.flatMap_singleton, Expr.lower_calls callable]
  · rename_i dropped
    have tagged : a.tag? e.id = some .empty := by simpa [kept] using dropped
    rw [callable.silent e e.self_mem_nodes tagged]
    rfl

theorem declarator_calls {d : Declarator} (callable : ∀ e ∈ d.value, e.Callable a) :
    (declarator a d).calls = (d.value.toList.flatMap Expr.calls).map (Expr.lower a) := by
  cases value : d.value with
  | none => simp [declarator, value, Target.Stmt.calls]
  | some e =>
    have kept := Expr.lower_calls (callable e (by simp [value]))
    simp [declarator, value, Target.Stmt.calls, kept]

theorem declarators_calls {declarators : List Declarator}
    (callable : ∀ e ∈ declarators.filterMap (·.value), e.Callable a) :
    Target.Stmt.callsAll (declarators.map (declarator a)) =
      ((declarators.filterMap (·.value)).flatMap Expr.calls).map (Expr.lower a) := by
  induction declarators with
  | nil => rfl
  | cons d rest ih =>
    have split : (d :: rest).filterMap (·.value) = d.value.toList ++ rest.filterMap (·.value) := by
      cases value : d.value <;> simp [value]
    rw [split] at callable ⊢
    obtain ⟨here, others⟩ := List.forall_mem_append.1 callable
    rw [List.map_cons, Target.Stmt.callsAll, ih others,
      declarator_calls fun e held => here e (Option.mem_toList.2 held), List.flatMap_append,
      List.map_append]

theorem Stmt.lower_line_calls {s : Stmt} {e : Expr} {line : Target.Stmt} (roots : s.roots = [e])
    (lowered : s.lower a enclosing = [line]) (same : line.calls = e.calls.map (Expr.lower a)) :
    Target.Stmt.callsAll (s.lower a enclosing) = s.calls.map (Expr.lower a) := by
  rw [lowered, Stmt.calls, roots]
  simp [Target.Stmt.callsAll, same]

mutual

theorem Stmt.lower_calls : ∀ (s : Stmt) (enclosing : List (List String)),
    (∀ root ∈ s.roots, root.Callable a) →
      Target.Stmt.callsAll (s.lower a enclosing) = s.calls.map (Expr.lower a)
  | .declaration .., _, callable => declarators_calls callable
  | .assignment _ _ _ .assign _, _, callable =>
    lower_line_calls rfl rfl (Expr.lower_calls (callable _ (List.mem_singleton.2 rfl)))
  | .assignment _ _ _ (.compound _) _, _, callable =>
    lower_line_calls rfl rfl (compound_calls _ (callable _ (List.mem_singleton.2 rfl)))
  | .function _ _ _ parameters body, enclosing, callable => by
    rw [Stmt.lower_function_calls]
    exact Stmt.lowerAll_calls body _ callable
  | .output .., _, callable => by
    have kept := Expr.lower_calls (callable _ (List.mem_singleton.2 rfl))
    exact lower_line_calls rfl rfl (by simpa [Target.Stmt.calls, helperNames] using kept)
  | .throw .., _, callable =>
    lower_line_calls rfl rfl (Expr.lower_calls (callable _ (List.mem_singleton.2 rfl)))
  | .expression .., _, callable =>
    lower_line_calls rfl rfl (Expr.lower_calls (callable _ (List.mem_singleton.2 rfl)))

theorem Stmt.lowerAll_calls : ∀ (body : List Stmt) (enclosing : List (List String)),
    (∀ root ∈ Stmt.rootsAll body, root.Callable a) →
      Target.Stmt.callsAll (Stmt.lowerAll a enclosing body) =
        ((Stmt.rootsAll body).flatMap Expr.calls).map (Expr.lower a)
  | [], _, _ => rfl
  | s :: rest, enclosing, callable => by
    obtain ⟨here, others⟩ := List.forall_mem_append.1 callable
    rw [Stmt.lowerAll, Target.Stmt.callsAll_append, s.lower_calls enclosing here,
      Stmt.lowerAll_calls rest enclosing others, Stmt.rootsAll, List.flatMap_append,
      List.map_append]
    rfl

end

end Statements

namespace Expr

variable {e n part : Expr} {x : String}

theorem mem_namesAll {es : List Expr} : x ∈ namesAll es ↔ ∃ e ∈ es, x ∈ e.names := by
  induction es with
  | nil => simp [namesAll]
  | cons e es ih => simp [namesAll, ih]

theorem names_of_part (below : part ∈ e.parts) (named : x ∈ part.names) : x ∈ e.names := by
  cases e with
  | literal | identifier => cases below
  | call => exact List.mem_cons_of_mem _ (mem_namesAll.2 ⟨part, below, named⟩)
  | list => exact mem_namesAll.2 ⟨part, below, named⟩
  | binary =>
    rcases List.mem_cons.1 below with rfl | below
    · exact List.mem_append_left _ named
    · cases List.mem_singleton.1 below
      exact List.mem_append_right _ named
  | unary | cast | grouping =>
    cases List.mem_singleton.1 below
    exact named

theorem names_of_node (inside : n ∈ e.nodes) (named : x ∈ n.names) : x ∈ e.names := by
  induction e using induction_on_parts with
  | whole e ih =>
    rw [nodes_eq] at inside
    rcases List.mem_append.1 inside with deeper | here
    · obtain ⟨part, below, inside⟩ := List.mem_flatMap.1 deeper
      exact names_of_part below (ih part below inside)
    · cases List.mem_singleton.1 here
      exact named

theorem ownFunction_apart (named : AllNames n.names) : ∀ f ∈ n.ownFunction, f ∉ helperNames := by
  intro f member
  cases n with
  | call node callee calleeSpan arguments =>
    cases List.mem_singleton.1 member
    exact spell_ne_helper (named callee List.mem_cons_self)
  | _ => cases member

end Expr

mutual

theorem Stmt.names_of_root : ∀ {s : Stmt} {root : Expr} {x : String},
    root ∈ s.roots → x ∈ root.names → x ∈ s.allNames
  | .declaration _ _ declarators, root, x, stands, named => by
    obtain ⟨d, listed, value⟩ := List.mem_filterMap.1 stands
    refine List.mem_flatMap.2 ⟨d, listed, ?_⟩
    rw [Declarator.names, value]
    exact List.mem_cons_of_mem _ named
  | .assignment .., _, _, stands, named => by
    cases List.mem_singleton.1 stands
    exact List.mem_cons_of_mem _ named
  | .function .., _, _, stands, named =>
    List.mem_append_right _ (Stmt.names_of_rootsAll stands named)
  | .output .., _, _, stands, named => by
    cases List.mem_singleton.1 stands
    exact named
  | .throw .., _, _, stands, named => by
    cases List.mem_singleton.1 stands
    exact named
  | .expression .., _, _, stands, named => by
    cases List.mem_singleton.1 stands
    exact named

theorem Stmt.names_of_rootsAll : ∀ {body : List Stmt} {root : Expr} {x : String},
    root ∈ Stmt.rootsAll body → x ∈ root.names → x ∈ Stmt.allNamesAll body
  | [], _, _, stands, _ => nomatch stands
  | s :: rest, _, _, stands, named => by
    rcases List.mem_append.1 stands with here | later
    · exact List.mem_append_left _ (Stmt.names_of_root here named)
    · exact List.mem_append_right _ (Stmt.names_of_rootsAll later named)

end

theorem check_callable {source : String} {program : Program} {analysis : Analysis}
    (checked : check source = .ok (program, analysis)) :
    ∀ root ∈ Stmt.rootsAll program.body, root.Callable analysis := by
  obtain ⟨read, rfl⟩ := check_eq_ok.1 checked
  have distinct : (Stmt.idsAll program.body).Nodup := (ofSource_numbered read).imp Nat.ne_of_lt
  have roots : (Analysis.empty.evaluationsAll false program.body).map (·.value) =
      Stmt.rootsAll program.body := Analysis.evaluationsAll_roots
  intro root stands
  constructor
  · intro n inside
    refine Expr.ownFunction_apart fun x named => ?_
    exact ofSource_names read x (Stmt.names_of_rootsAll stands (Expr.names_of_node inside named))
  · intro n inside tagged
    rw [← roots] at stands
    obtain ⟨v, made, rfl⟩ := List.mem_map.1 stands
    have recorded : v.Recorded (.ofProgram program) :=
      Analysis.checkAll_recorded distinct .refl List.prefix_rfl v made
    exact recorded.calls_empty inside tagged

end Scriptlet
