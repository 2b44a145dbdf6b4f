import Scriptlet.Grammar.Statement
import Scriptlet.Proofs.Grammar.Rules
import Scriptlet.Proofs.Grammar.Steps

/-!
The rules of the grammar once more, with the node numbers and source stretches that reading gives
to each tree. `Reads layer n ts e m` says that the tokens `ts` are read as `e` when `n` is the
next free number, and that `m` is free afterwards. Nothing here depends on a budget, and the
tokens need not come from a source text.
-/

namespace Scriptlet

-- The stretch of source that a list of tokens covers.
def Token.hull (first : Token) (rest : List Token) : Span :=
  ⟨first.span.start, ((first :: rest).getLast (by simp)).span.stop⟩

mutual

inductive Reads : Layer → NodeId → List Token → Expr → NodeId → Prop where
  | tighter {layer n ts e m} (loose : layer ≠ .primary) (inner : Reads layer.next n ts e m) :
      Reads layer n ts e m
  | binary {layer sign op ls rs l r n m k} (left : Reads layer n ls l m)
      (operator : layer.operator? sign.kind = some op) (right : Reads layer.next m rs r k) :
      Reads layer n (ls ++ sign :: rs) (.binary ⟨k, l.span.to r.span⟩ op l r) (k + 1)
  | unary {sign op ts e n m} (signed : sign.kind.NamesSign op)
      (operand : Reads .prefixed n ts e m) :
      Reads .prefixed n (sign :: ts) (.unary ⟨m, sign.span.to e.span⟩ op e) (m + 1)
  | castBefore {opener type closer target ts e n m} (opens : opener.kind = .openParen)
      (named : type.kind.NamesType target) (closes : closer.kind = .closeParen)
      (operand : Reads .prefixed n ts e m) :
      Reads .prefixed n (opener :: type :: closer :: ts)
        (.cast ⟨m, ⟨opener.span.start, e.span.stop⟩⟩ target e) (m + 1)
  | literal {token value n}
      (read : Parse.leafOf token = .ok fun node => .literal node value) :
      Reads .primary n [token] (.literal ⟨n, token.span⟩ value) (n + 1)
  | name {token n} (named : token.kind = .identifier) :
      Reads .primary n [token] (.identifier ⟨n, token.span⟩ token.value) (n + 1)
  | call {callee opener closer ts es n m} (named : callee.kind = .identifier)
      (opens : opener.kind = .openParen) (closes : closer.kind = .closeParen)
      (arguments : ReadsItems (n + 1) ts es m) :
      Reads .primary n (callee :: opener :: ts ++ [closer])
        (.call ⟨m, ⟨callee.span.start, closer.span.stop⟩⟩ callee.value callee.span es) (m + 1)
  | grouping {opener closer ts e n m} (opens : opener.kind = .openParen)
      (closes : closer.kind = .closeParen) (inner : Reads .disjunction n ts e m) :
      Reads .primary n (opener :: ts ++ [closer])
        (.grouping ⟨m, ⟨opener.span.start, closer.span.stop⟩⟩ e) (m + 1)
  | castAround {type opener closer target ts e n m} (named : type.kind.NamesType target)
      (opens : opener.kind = .openParen) (closes : closer.kind = .closeParen)
      (operand : Reads .disjunction n ts e m) :
      Reads .primary n (type :: opener :: ts ++ [closer])
        (.cast ⟨m, ⟨type.span.start, closer.span.stop⟩⟩ target e) (m + 1)
  | list {opener closer ts es n m} (opens : opener.kind = .openBracket)
      (closes : closer.kind = .closeBracket) (items : ReadsItems n ts es m) :
      Reads .primary n (opener :: ts ++ [closer])
        (.list ⟨m, ⟨opener.span.start, closer.span.stop⟩⟩ es) (m + 1)

inductive ReadsItems : NodeId → List Token → List Expr → NodeId → Prop where
  | none {n} : ReadsItems n [] [] n
  | last {ts e n m} (item : Reads .disjunction n ts e m) : ReadsItems n ts [e] m
  | more {comma ts us e es n m k} (item : Reads .disjunction n ts e m)
      (separated : comma.kind = .comma) (rest : ReadsItems m us es k) (follows : es ≠ []) :
      ReadsItems n (ts ++ comma :: us) (e :: es) k

end

inductive ReadsDeclarator : NodeId → List Token → Declarator → NodeId → Prop where
  | bare {name n} (named : name.kind = .identifier) :
      ReadsDeclarator n [name] ⟨name.value, none, name.hull []⟩ n
  | initialized {name sign ts e n m} (named : name.kind = .identifier)
      (assigns : sign.kind = .assignment) (value : Reads .disjunction n ts e m) :
      ReadsDeclarator n (name :: sign :: ts) ⟨name.value, some e, name.hull (sign :: ts)⟩ m

inductive ReadsDeclarators : NodeId → List Token → List Declarator → NodeId → Prop where
  | last {ts d n m} (item : ReadsDeclarator n ts d m) : ReadsDeclarators n ts [d] m
  | more {comma ts us d ds n m k} (item : ReadsDeclarator n ts d m)
      (separated : comma.kind = .comma) (rest : ReadsDeclarators m us ds k) :
      ReadsDeclarators n (ts ++ comma :: us) (d :: ds) k

inductive ReadsParameters : List Token → List Parameter → Prop where
  | none : ReadsParameters [] []
  | last {name} (named : name.kind = .identifier) :
      ReadsParameters [name] [⟨name.value, name.span⟩]
  | more {name comma us ps} (named : name.kind = .identifier)
      (separated : comma.kind = .comma) (rest : ReadsParameters us ps) (follows : ps ≠ []) :
      ReadsParameters (name :: comma :: us) (⟨name.value, name.span⟩ :: ps)

mutual

inductive ReadsStatement : NodeId → List Token → Stmt → NodeId → Prop where
  | declaration {word ts stop fixed ds n m} (starts : word.kind.NamesDeclaration fixed)
      (names : ReadsDeclarators n ts ds m) (ends : stop.kind = .semicolon) :
      ReadsStatement n (word :: ts ++ [stop])
        (.declaration ⟨word.span.start, stop.span.stop⟩ fixed ds) m
  | assignment {name sign ts stop op e n m} (named : name.kind = .identifier)
      (assigns : sign.kind.NamesAssignment op) (value : Reads .disjunction n ts e m)
      (ends : stop.kind = .semicolon) :
      ReadsStatement n (name :: sign :: ts ++ [stop])
        (.assignment ⟨name.span.start, stop.span.stop⟩ name.value name.span op e) m
  | function {word name opener closer opening closing ts us ps body n m}
      (starts : word.kind = .funcKeyword) (named : name.kind = .identifier)
      (opens : opener.kind = .openParen) (parameters : ReadsParameters ts ps)
      (closes : closer.kind = .closeParen) (begins : opening.kind = .openCurly)
      (statements : ReadsBody n us body m) (ends : closing.kind = .closeCurly) :
      ReadsStatement n (word :: name :: opener :: ts ++ closer :: opening :: us ++ [closing])
        (.function ⟨word.span.start, closing.span.stop⟩ name.value name.span ps body) m
  | output {word ts stop e n m} (starts : word.kind = .showKeyword)
      (value : Reads .disjunction n ts e m) (ends : stop.kind = .semicolon) :
      ReadsStatement n (word :: ts ++ [stop]) (.output ⟨word.span.start, stop.span.stop⟩ e) m
  | throw {word ts stop e n m} (starts : word.kind = .throwKeyword)
      (value : Reads .disjunction n ts e m) (ends : stop.kind = .semicolon) :
      ReadsStatement n (word :: ts ++ [stop]) (.throw ⟨word.span.start, stop.span.stop⟩ e) m
  | expression {ts stop e n m} (value : Reads .disjunction n ts e m)
      (ends : stop.kind = .semicolon) :
      ReadsStatement n (ts ++ [stop]) (.expression ⟨e.span.start, stop.span.stop⟩ e) m

inductive ReadsBody : NodeId → List Token → List Stmt → NodeId → Prop where
  | none {n} : ReadsBody n [] [] n
  | more {ts us s body n m k} (first : ReadsStatement n ts s m) (rest : ReadsBody m us body k) :
      ReadsBody n (ts ++ us) (s :: body) k

end

namespace Layer

def rank : Layer → Nat
  | disjunction => 1
  | conjunction => 2
  | equality => 3
  | relation => 4
  | sum => 5
  | product => 6
  | prefixed => 7
  | primary => 8

theorem rank_next {layer : Layer} (loose : layer ≠ .primary) :
    layer.next.rank = layer.rank + 1 := by
  cases layer <;> first | rfl | exact absurd rfl loose

theorem loosen {holds : Layer → Prop} {layer inner : Layer}
    (step : ∀ layer, layer ≠ .primary → holds layer.next → holds layer)
    (looser : layer.rank ≤ inner.rank) (tight : holds inner) : holds layer := by
  obtain ⟨gap, same⟩ := Nat.exists_eq_add_of_le looser
  induction gap generalizing layer with
  | zero =>
    have equal : layer = inner := by
      revert same
      cases layer <;> cases inner <;> simp [Layer.rank]
    exact equal ▸ tight
  | succ gap ih =>
    have loose : layer ≠ .primary := by
      rintro rfl
      revert same
      cases inner <;> simp [Layer.rank] <;> omega
    have rank := Layer.rank_next loose
    exact step layer loose (ih (by omega) (by omega))

end Layer

-- The expressions whose operators all bind tighter than this power.
def Power.layer : Power → Layer
  | .default => .disjunction
  | .logicalOr => .conjunction
  | .logicalAnd => .equality
  | .equality => .relation
  | .relational => .sum
  | .additive => .product
  | .multiplicative | .unary | .call | .primary => .prefixed

theorem Reads.loosen {layer inner : Layer} {n m : NodeId} {ts : List Token} {e : Expr}
    (looser : layer.rank ≤ inner.rank) (reads : Reads inner n ts e m) : Reads layer n ts e m :=
  @Layer.loosen (fun layer => Reads layer n ts e m) _ _ (fun _ loose inner => .tighter loose inner)
    looser reads

end Scriptlet
