import Scriptlet.Proofs.Grammar.Exact
import Scriptlet.Proofs.Tree.Nodes

/-!
The literals of a tree. They are, in order and at their places, what the literal tokens of the text
are read as.
-/

namespace Scriptlet

open Parse

-- The literal that an expression is, with its place.
def Expr.literal? : Expr → Option (Span × Literal)
  | .literal node value => some (node.span, value)
  | _ => none

def Expr.literals (e : Expr) : List (Span × Literal) := e.nodes.filterMap Expr.literal?

def TokenKind.isLiteral : TokenKind → Bool
  | .integerLiteral | .negIntegerLiteral | .pointLiteral | .negPointLiteral | .textLiteral
  | .stateLiteral | .emptyLiteral => true
  | _ => false

-- The literal that a token is read as, with the place of the token.
def Token.literal? (t : Token) : Option (Span × Literal) :=
  (leafOf t).toOption.bind fun build => (build ⟨0, t.span⟩).literal?

theorem Token.literal?_of_read {t : Token} {value : Literal}
    (read : leafOf t = .ok fun node => .literal node value) : t.literal? = some (t.span, value) := by
  rw [literal?, read]
  rfl

theorem Expr.literals_eq (e : Expr) :
    e.literals = e.parts.flatMap literals ++ e.literal?.toList := by
  unfold literals
  rw [nodes_eq, List.filterMap_append, List.filterMap_flatMap]
  cases found : e.literal? <;> simp [found]

-- The literals of the trees are those of the tokens.
def SameLiterals (es : List Expr) (ts : List Token) : Prop :=
  es.flatMap Expr.literals = ts.filterMap Token.literal?

namespace SameLiterals

variable {es fs : List Expr} {ts us : List Token} {e : Expr} {t : Token}

theorem nil : SameLiterals [] [] := rfl

theorem append (first : SameLiterals es ts) (second : SameLiterals fs us) :
    SameLiterals (es ++ fs) (ts ++ us) := by
  unfold SameLiterals at *
  rw [List.flatMap_append, List.filterMap_append, first, second]

theorem cons (other : t.literal? = none) (same : SameLiterals es ts) : SameLiterals es (t :: ts) := by
  rw [SameLiterals, List.filterMap_cons_none other]
  exact same

theorem concat (same : SameLiterals es ts) (other : t.literal? = none) :
    SameLiterals es (ts ++ [t]) := by
  simpa using same.append (nil.cons other)

theorem whole (same : SameLiterals e.parts ts) (other : e.literal? = none) :
    SameLiterals [e] ts := by
  unfold SameLiterals at *
  simp [Expr.literals_eq e, other, same]

theorem leaf {value : Literal} {node : Node} (here : node.span = t.span)
    (read : leafOf t = .ok fun node => .literal node value) :
    SameLiterals [.literal node value] [t] := by
  simp [SameLiterals, Expr.literals, Expr.nodes, Expr.literal?, Token.literal?_of_read read, here]

end SameLiterals

namespace Token

variable {t : Token} {kind : TokenKind}

theorem literal?_of_kind (same : t.kind = kind) (other : kind.isLiteral = false := by rfl) :
    t.literal? = none := by
  obtain ⟨own, word, span⟩ := t
  have other : own.isLiteral = false := by
    rw [← same] at other
    exact other
  cases own <;> first | rfl | cases other

theorem literal?_of_operator {layer : Layer} {op : BinaryOp}
    (operator : layer.operator? t.kind = some op) : t.literal? = none := by
  refine literal?_of_kind rfl ?_
  generalize t.kind = kind at operator
  cases kind <;> first | rfl | (cases layer <;> cases operator)

theorem literal?_of_sign {op : UnaryOp} (signed : t.kind.NamesSign op) : t.literal? = none := by
  refine literal?_of_kind rfl ?_
  generalize t.kind = kind at signed
  cases signed <;> rfl

theorem literal?_of_type {target : CastTarget} (named : t.kind.NamesType target) :
    t.literal? = none := by
  refine literal?_of_kind rfl ?_
  generalize t.kind = kind at named
  cases named <;> rfl

theorem literal?_of_assignment {op : AssignOp} (assigns : t.kind.NamesAssignment op) :
    t.literal? = none := by
  refine literal?_of_kind rfl ?_
  generalize t.kind = kind at assigns
  cases assigns <;> rfl

theorem literal?_of_declaration {fixed : Bool} (starts : t.kind.NamesDeclaration fixed) :
    t.literal? = none := by
  refine literal?_of_kind rfl ?_
  generalize t.kind = kind at starts
  cases starts <;> rfl

end Token

open Token SameLiterals

mutual

theorem Reads.literals : ∀ {layer n ts e m}, Reads layer n ts e m → SameLiterals [e] ts
  | _, _, _, _, _, .tighter _ inner => inner.literals
  | _, _, _, _, _, .binary left operator right =>
    whole (left.literals.append (right.literals.cons (literal?_of_operator operator))) rfl
  | _, _, _, _, _, .unary signed operand =>
    whole (operand.literals.cons (literal?_of_sign signed)) rfl
  | _, _, _, _, _, .castBefore opens named closes operand =>
    whole (((operand.literals.cons (literal?_of_kind closes)).cons (literal?_of_type named)).cons
      (literal?_of_kind opens)) rfl
  | _, _, _, _, _, .literal read => leaf rfl read
  | _, _, _, _, _, .name named => whole (nil.cons (literal?_of_kind named)) rfl
  | _, _, _, _, _, .call named opens closes arguments =>
    whole (((arguments.literals.concat (literal?_of_kind closes)).cons
      (literal?_of_kind opens)).cons (literal?_of_kind named)) rfl
  | _, _, _, _, _, .grouping opens closes inner =>
    whole ((inner.literals.concat (literal?_of_kind closes)).cons (literal?_of_kind opens)) rfl
  | _, _, _, _, _, .castAround named opens closes operand =>
    whole (((operand.literals.concat (literal?_of_kind closes)).cons
      (literal?_of_kind opens)).cons (literal?_of_type named)) rfl
  | _, _, _, _, _, .list opens closes items =>
    whole ((items.literals.concat (literal?_of_kind closes)).cons (literal?_of_kind opens)) rfl

theorem ReadsItems.literals : ∀ {n ts es m}, ReadsItems n ts es m → SameLiterals es ts
  | _, _, _, _, .none => nil
  | _, _, _, _, .last item => item.literals
  | _, _, _, _, .more item separated rest _ =>
    item.literals.append (rest.literals.cons (literal?_of_kind separated))

end

variable {n m : NodeId} {ts : List Token}

theorem ReadsDeclarator.literals {d : Declarator} (reads : ReadsDeclarator n ts d m) :
    SameLiterals d.value.toList ts := by
  cases reads with
  | bare named => exact nil.cons (literal?_of_kind named)
  | initialized named assigns value =>
    exact (value.literals.cons (literal?_of_kind assigns)).cons (literal?_of_kind named)

theorem ReadsDeclarators.literals {ds : List Declarator} (reads : ReadsDeclarators n ts ds m) :
    SameLiterals (ds.filterMap (·.value)) ts := by
  rw [List.filterMap_eq_flatMap_toList]
  induction reads with
  | last item => simpa using item.literals
  | more item separated _ ih =>
    rw [List.flatMap_cons]
    exact item.literals.append (ih.cons (literal?_of_kind separated))

theorem ReadsParameters.literals {ps : List Parameter} (reads : ReadsParameters ts ps) :
    SameLiterals [] ts := by
  induction reads with
  | none => exact nil
  | last named => exact nil.cons (literal?_of_kind named)
  | more named separated _ _ ih =>
    exact (ih.cons (literal?_of_kind separated)).cons (literal?_of_kind named)

mutual

theorem ReadsStatement.literals : ∀ {n ts stmt m}, ReadsStatement n ts stmt m →
    SameLiterals stmt.roots ts
  | _, _, _, _, .declaration starts names ends =>
    (names.literals.concat (literal?_of_kind ends)).cons (literal?_of_declaration starts)
  | _, _, _, _, .assignment named assigns value ends =>
    ((value.literals.concat (literal?_of_kind ends)).cons (literal?_of_assignment assigns)).cons
      (literal?_of_kind named)
  | _, _, _, _, .function starts named opens parameters closes begins statements ends =>
    ((((parameters.literals.cons (literal?_of_kind opens)).cons (literal?_of_kind named)).cons
      (literal?_of_kind starts)).append ((statements.literals.cons (literal?_of_kind begins)).cons
        (literal?_of_kind closes))).concat (literal?_of_kind ends)
  | _, _, _, _, .output starts value ends =>
    (value.literals.concat (literal?_of_kind ends)).cons (literal?_of_kind starts)
  | _, _, _, _, .throw starts value ends =>
    (value.literals.concat (literal?_of_kind ends)).cons (literal?_of_kind starts)
  | _, _, _, _, .expression value ends => value.literals.concat (literal?_of_kind ends)

theorem ReadsBody.literals : ∀ {n ts body m}, ReadsBody n ts body m →
    SameLiterals (Stmt.rootsAll body) ts
  | _, _, _, _, .none => nil
  | _, _, _, _, .more first rest => first.literals.append rest.literals

end

end Scriptlet
