import Scriptlet.Proofs.Target.Recovered

/-!
Back from generated expressions to the program. Code that was generated without an analysis shows
the expression that it comes from, so two expressions with the same text have the same shape.
-/

namespace Scriptlet

open Target

namespace Target

-- The name that is spelled like this.
def unspell (n : String) : String :=
  match n.toList with
  | '_' :: 'm' :: 'n' :: '_' :: rest => String.ofList rest
  | _ => n

def castTargets : List CastTarget := [.integer, .point, .text, .state]

-- The cast that a function stands for.
def castOf? (f : String) : Option CastTarget :=
  castTargets.find? fun target => castFunction target == f

-- What is called, or cast.
def sourceCall (f : String) (arguments : List Scriptlet.Expr) : Scriptlet.Expr :=
  match castOf? f, arguments with
  | some target, [operand] => .cast default target operand
  | _, _ => .call default (unspell f) default arguments

-- The operand of a cast.
def uncast : Scriptlet.Expr → Scriptlet.Expr
  | .cast _ _ operand => operand
  | e => e

-- Both sides of a logical operation are cast.
def sourceBinary : Operator → Scriptlet.Expr → Scriptlet.Expr → Scriptlet.Expr
  | .bitOr, left, right => .binary default (.logical .or) (uncast left) (uncast right)
  | .bitAnd, left, right => .binary default (.logical .and) (uncast left) (uncast right)
  | .comparison op, left, right => .binary default (.comparison op) left right
  | .arithmetic op, left, right => .binary default (.arithmetic op) left right

mutual

-- The expression that generated code comes from. The last two forms need an analysis.
def Expr.source : Expr → Scriptlet.Expr
  | .name n => .identifier default (unspell n)
  | .integer n => .literal default (.integer n)
  | .float x => .literal default (.point x)
  | .boolean b => .literal default (.state b)
  | .null => .literal default .empty
  | .string s => .literal default (.text s)
  | .call f arguments => sourceCall f (Expr.sourceAll arguments)
  | .list items => .list default (Expr.sourceAll items)
  | .binary op left right => sourceBinary op left.source right.source
  | .not operand => .unary default .not operand.source
  | .negate operand => .unary default .negate operand.source
  | .grouped inner => .grouping default inner.source
  | .falseAfter _ | .yesNo _ => .literal default .empty

def Expr.sourceAll : List Expr → List Scriptlet.Expr
  | [] => []
  | e :: es => e.source :: Expr.sourceAll es

end

attribute [simp] Expr.source Expr.sourceAll

end Target

theorem unspell_spell {x : String} (named : IsName x) : unspell (spell x) = x := by
  by_cases reserved : reservedNames.contains x = true
  · rw [spell_reserved reserved, unspell, toList_marked]
    exact String.ofList_toList
  · rw [spell_plain reserved, unspell]
    split
    · rename_i rest marked
      exact absurd marked (named.ne_underscore _)
    · rfl

theorem castOf?_spell {x : String} (named : IsName x) : castOf? (spell x) = none := by
  have helpers : ∀ target ∈ castTargets, castFunction target ∈ helperNames := by decide
  refine List.find?_eq_none.2 fun target listed same => spell_ne_helper named ?_
  rw [← beq_iff_eq.1 same]
  exact helpers target listed

theorem sourceCall_spell {x : String} (named : IsName x) (arguments : List Expr) :
    sourceCall (spell x) arguments = .call default x default arguments := by
  unfold sourceCall
  rw [castOf?_spell named, unspell_spell named]

theorem tag?_empty (id : NodeId) : Analysis.empty.tag? id = none := by
  simp [Analysis.tag?, Analysis.empty]

theorem source_literal (value : Literal) : (literal value).source = .literal default value := by
  cases value <;> rfl

theorem source_binary (op : BinaryOp) (left right : Target.Expr) :
    (Target.binary op none none none left right).source =
      .binary default op left.source right.source := by
  cases op with
  | logical op => cases op <;> rfl
  | comparison op => cases op <;> rfl
  | arithmetic op => cases op <;> rfl

theorem source_cast (target : CastTarget) (operand : Target.Expr) :
    (Target.cast target none operand).source = .cast default target operand.source := by
  cases target <;> rfl

mutual

theorem Expr.source_lower : ∀ e : Expr, AllNames e.names →
    (e.lower .empty).source = e.shape
  | .literal _ value, _ => source_literal value
  | .identifier _ x, names => by
    rw [Expr.lower, Target.Expr.source, unspell_spell (names x List.mem_cons_self), Expr.shape]
  | .call _ callee _ arguments, names => by
    obtain ⟨named, others⟩ := List.forall_mem_cons.1 names
    rw [Expr.lower, Target.Expr.source, sourceCall_spell named, Expr.shape,
      Expr.sourceAll_lower arguments others]
  | .list _ items, names => by
    rw [Expr.lower, Target.Expr.source, Expr.shape, Expr.sourceAll_lower items names]
  | .binary _ op left right, names => by
    obtain ⟨first, second⟩ := List.forall_mem_append.1 names
    rw [Expr.lower, tag?_empty, tag?_empty, tag?_empty, source_binary, Expr.shape,
      left.source_lower first, right.source_lower second]
  | .unary _ .not operand, names => by
    rw [Expr.lower, tag?_empty, condition, Target.Expr.source, Expr.shape,
      operand.source_lower names]
    simp
  | .unary _ .negate operand, names => by
    rw [Expr.lower, Target.Expr.source, Expr.shape, operand.source_lower names]
  | .cast _ target operand, names => by
    rw [Expr.lower, tag?_empty, source_cast, Expr.shape, operand.source_lower names]
  | .grouping _ inner, names => by
    rw [Expr.lower, Target.Expr.source, Expr.shape, inner.source_lower names]

theorem Expr.sourceAll_lower : ∀ es : List Expr, AllNames (Expr.namesAll es) →
    Target.Expr.sourceAll (Expr.lowerAll .empty es) = Expr.shapes es
  | [], _ => rfl
  | e :: es, names => by
    obtain ⟨first, others⟩ := List.forall_mem_append.1 names
    rw [Expr.lowerAll, Target.Expr.sourceAll, Expr.shapes, e.source_lower first,
      Expr.sourceAll_lower es others]

end

-- Numbers and places in the source do not matter.
mutual

theorem Expr.lower_shape : ∀ e : Expr, e.shape.lower .empty = e.lower .empty
  | .literal _ _ => rfl
  | .identifier _ _ => rfl
  | .call _ _ _ arguments => by
    rw [Expr.shape, Expr.lower, Expr.lower, Expr.lowerAll_shapes arguments]
  | .list _ items => by rw [Expr.shape, Expr.lower, Expr.lower, Expr.lowerAll_shapes items]
  | .binary _ _ left right => by
    simp only [Expr.shape, Expr.lower, tag?_empty, left.lower_shape, right.lower_shape]
  | .unary _ .not operand => by
    simp only [Expr.shape, Expr.lower, tag?_empty, operand.lower_shape]
  | .unary _ .negate operand => by rw [Expr.shape, Expr.lower, Expr.lower, operand.lower_shape]
  | .cast _ _ operand => by simp only [Expr.shape, Expr.lower, tag?_empty, operand.lower_shape]
  | .grouping _ inner => by rw [Expr.shape, Expr.lower, Expr.lower, inner.lower_shape]

theorem Expr.lowerAll_shapes : ∀ es : List Expr,
    Expr.lowerAll .empty (Expr.shapes es) = Expr.lowerAll .empty es
  | [] => rfl
  | e :: es => by
    rw [Expr.shapes, Expr.lowerAll, Expr.lowerAll, e.lower_shape, Expr.lowerAll_shapes es]

end

-- A literal that is written without a minus sign.
def Literal.Unsigned : Literal → Prop
  | .integer n => 0 ≤ n.toInt
  | .point x => Point.Unsigned x
  | .state _ | .text _ | .empty => True

-- No number in the expression is negative, not even a zero.
def Expr.Unsigned (e : Expr) : Prop := ∀ entry ∈ e.literals, entry.2.Unsigned

theorem Expr.Unsigned.part {e part : Expr} (unsigned : e.Unsigned) (below : part ∈ e.parts) :
    part.Unsigned := by
  intro entry listed
  apply unsigned
  rw [literals_eq]
  exact List.mem_append_left _ (List.mem_flatMap.2 ⟨part, below, listed⟩)

theorem Literal.Unsigned.readable {value : Literal} (unsigned : value.Unsigned) :
    (Target.literal value).Readable ∧ (Target.literal value).signed = false := by
  cases value with
  | integer n =>
    have positive : 0 ≤ n.toInt := unsigned
    have least : Integer.least < 0 := by decide
    exact ⟨Int.lt_of_lt_of_le least positive, decide_eq_false (Int.not_lt.2 positive)⟩
  | point x =>
    obtain ⟨m, e, taken⟩ := unsigned
    exact ⟨Point.isFinite_of_parts taken, Target.Expr.not_signed_of_unsigned ⟨m, e, taken⟩⟩
  | state b => exact ⟨trivial, rfl⟩
  | text s => exact ⟨trivial, rfl⟩
  | empty => exact ⟨trivial, rfl⟩

theorem Expr.Unsigned.writable {e : Expr} (unsigned : e.Unsigned) : e.Writable :=
  fun entry listed => (unsigned entry listed).readable.1

theorem canonical_literal {value : Literal} (unsigned : value.Unsigned) :
    (Target.literal value).canonical = Target.literal value := by
  have plain := Bool.eq_false_iff.1 unsigned.readable.2
  cases value with
  | integer n => exact if_neg plain
  | point x => exact if_neg plain
  | state | text | empty => rfl

theorem canonical_binary (op : BinaryOp) (left right : Target.Expr) :
    (Target.binary op none none none left right).canonical =
      Target.binary op none none none left.canonical right.canonical := by
  cases op with
  | logical op => cases op <;> rfl
  | comparison op => cases op <;> rfl
  | arithmetic op => cases op <;> rfl

theorem canonical_cast (target : CastTarget) (operand : Target.Expr) :
    (Target.cast target none operand).canonical = Target.cast target none operand.canonical := by
  cases target <;> rfl

theorem Expr.Unsigned.lower_signed {e : Expr} (unsigned : e.Unsigned) :
    (e.lower .empty).signed = false := by
  cases e with
  | literal node value => exact (unsigned (node.span, value) List.mem_cons_self).readable.2
  | binary node op left right =>
    rw [Expr.lower, tag?_empty, tag?_empty, tag?_empty]
    cases op with
    | logical op => cases op <;> rfl
    | comparison op => cases op <;> rfl
    | arithmetic op => cases op <;> rfl
  | unary node op operand => cases op <;> rfl
  | cast node target operand =>
    rw [Expr.lower, tag?_empty]
    cases target <;> rfl
  | identifier | call | list | grouping => rfl

mutual

-- Without signs there is one way only to read an expression.
theorem Expr.canonical_lower : ∀ e : Expr, e.Unsigned →
    (e.lower .empty).canonical = e.lower .empty
  | .literal node value => fun unsigned =>
    canonical_literal (unsigned (node.span, value) List.mem_cons_self)
  | .identifier _ _ => fun _ => rfl
  | .call _ _ _ arguments => by
    intro unsigned
    rw [Expr.lower, Target.Expr.canonical,
      Expr.canonicalAll_lower arguments fun _ => unsigned.part]
  | .list _ items => by
    intro unsigned
    rw [Expr.lower, Target.Expr.canonical, Expr.canonicalAll_lower items fun _ => unsigned.part]
  | .binary _ _ left right => by
    intro unsigned
    rw [Expr.lower, tag?_empty, tag?_empty, tag?_empty, canonical_binary,
      left.canonical_lower (unsigned.part List.mem_cons_self),
      right.canonical_lower (unsigned.part (List.mem_cons_of_mem _ List.mem_cons_self))]
  | .unary _ .not operand => by
    intro unsigned
    rw [Expr.lower, tag?_empty]
    exact congrArg Target.Expr.not (operand.canonical_lower (unsigned.part List.mem_cons_self))
  | .unary _ .negate operand => by
    intro unsigned
    exact congrArg Target.Expr.negate (operand.canonical_lower (unsigned.part List.mem_cons_self))
  | .cast _ _ operand => by
    intro unsigned
    rw [Expr.lower, tag?_empty, canonical_cast,
      operand.canonical_lower (unsigned.part List.mem_cons_self)]
  | .grouping _ inner => by
    intro unsigned
    have below : inner.Unsigned := unsigned.part List.mem_cons_self
    rw [Expr.lower, Target.Expr.canonical, if_neg (Bool.eq_false_iff.1 below.lower_signed),
      inner.canonical_lower below]

theorem Expr.canonicalAll_lower : ∀ es : List Expr, (∀ e ∈ es, e.Unsigned) →
    Target.Expr.canonicalAll (Expr.lowerAll .empty es) = Expr.lowerAll .empty es
  | [] => fun _ => rfl
  | e :: es => by
    intro unsigned
    obtain ⟨here, others⟩ := List.forall_mem_cons.1 unsigned
    rw [Expr.lowerAll, Target.Expr.canonicalAll, e.canonical_lower here,
      Expr.canonicalAll_lower es others]

end

theorem Expr.print_lower_eq_iff {e f : Expr} (names : AllNames e.names) (names' : AllNames f.names)
    (unsigned : e.Unsigned) (unsigned' : f.Unsigned) :
    (e.lower .empty).print = (f.lower .empty).print ↔ e.shape = f.shape := by
  constructor
  · intro same
    have trees := Target.Expr.canonical_eq_of_print (e.lower_readable names unsigned.writable)
      (f.lower_readable names' unsigned'.writable) same
    rw [e.canonical_lower unsigned, f.canonical_lower unsigned'] at trees
    rw [← e.source_lower names, ← f.source_lower names', trees]
  · intro same
    rw [← e.lower_shape, ← f.lower_shape, same]

-- A call with one text that is spelled like two texts, and a call with two.
def oneText : Expr :=
  .call default "lambda" default
    [.literal default (.text "a\", \"b"), .literal default (.point 2.5)]

def twoTexts : Expr :=
  .call default "lambda" default
    [.literal default (.text "a"), .literal default (.text "b"), .literal default (.point 2.5)]

theorem oneText_apart : (oneText.lower .empty).print ≠ (twoTexts.lower .empty).print := by
  have named : IsName "lambda" :=
    ⟨⟨_, _, rfl, by decide, List.all_eq_true.1 (by decide)⟩, by decide, by decide⟩
  have names : AllNames oneText.names := .cons named .nil
  have names' : AllNames twoTexts.names := .cons named .nil
  have half : Point.Unsigned 2.5 := ⟨5629499534213120, -51, by decide⟩
  have unsigned : oneText.Unsigned :=
    List.forall_mem_cons.2 ⟨trivial, List.forall_mem_singleton.2 half⟩
  have unsigned' : twoTexts.Unsigned :=
    List.forall_mem_cons.2 ⟨trivial, List.forall_mem_cons.2 ⟨trivial,
      List.forall_mem_singleton.2 half⟩⟩
  rw [ne_eq, Expr.print_lower_eq_iff names names' unsigned unsigned']
  simp [oneText, twoTexts, Expr.shape, Expr.shapes]

-- With a sign in a literal there is no such law.
example :
    (Expr.lower .empty (.grouping default (.literal default (.integer (-5))))).print =
      (Expr.lower .empty (.unary default .negate (.literal default (.integer 5)))).print := by
  decide

end Scriptlet
