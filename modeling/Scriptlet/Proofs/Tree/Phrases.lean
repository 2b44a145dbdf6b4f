import Mathlib.Data.List.Forall2
import Scriptlet.Proofs.Grammar.Rules
import Scriptlet.Proofs.Tree.Nodes

/-!
The phrases of a program: everything that has a stretch of source. A phrase is read from a list of
tokens, and its parts from stretches of that list, as the rules of the grammar say. When the stretch
of source of every phrase is that of its tokens, the phrases nest as the tokens do.
-/

namespace Scriptlet

-- The name in a call, an assignment or a function is a phrase that has a stretch and nothing else.
inductive Phrase where
  | name (name : String) (span : Span)
  | expression (e : Expr)
  | declarator (d : Declarator)
  | parameter (p : Parameter)
  | statement (s : Stmt)

namespace Phrase

def span : Phrase → Span
  | name _ span => span
  | expression e => e.span
  | declarator d => d.span
  | parameter p => p.span
  | statement s => s.span

def ofExpr : Expr → List Phrase
  | .call _ callee calleeSpan arguments => name callee calleeSpan :: arguments.map expression
  | e => e.parts.map expression

def ofStmt : Stmt → List Phrase
  | .declaration _ _ declarators => declarators.map declarator
  | .assignment _ assigned nameSpan _ value => [name assigned nameSpan, expression value]
  | .function _ called nameSpan parameters body =>
    name called nameSpan :: parameters.map parameter ++ body.map statement
  | .output _ value | .throw _ value | .expression _ value => [expression value]

-- The phrases directly inside, in the order of the source.
def parts : Phrase → List Phrase
  | expression e => ofExpr e
  | declarator d => d.value.toList.map expression
  | statement s => ofStmt s
  | name _ _ | parameter _ => []

-- The first phrase is the second one, or somewhere inside it.
inductive Inside (inner : Phrase) : Phrase → Prop where
  | self : Inside inner inner
  | part {outer part} (listed : part ∈ outer.parts) (deeper : Inside inner part) :
      Inside inner outer

end Phrase

-- The tokens are these stretches, with a comma between any two.
inductive Separated : List Token → List (List Token) → Prop where
  | none : Separated [] []
  | last {ts} : Separated ts [ts]
  | more {ts us stretches} {comma : Token} (separates : comma.kind = TokenKind.comma)
      (rest : Separated us stretches) (follows : stretches ≠ []) :
      Separated (ts ++ comma :: us) (ts :: stretches)

namespace Phrase

-- A phrase that is read from the tokens has parts that are read from the stretches.
inductive Divides : List Token → Phrase → List (List Token) → Prop where
  | name {token : Token} {span} (named : token.kind = TokenKind.identifier) :
      Divides [token] (name token.value span) []
  | parameter {token : Token} {span} (named : token.kind = TokenKind.identifier) :
      Divides [token] (parameter ⟨token.value, span⟩) []
  | literal {token node value}
      (read : Parse.leafOf token = .ok fun node => Expr.literal node value) :
      Divides [token] (expression (.literal node value)) []
  | identifier {token : Token} {node} (named : token.kind = TokenKind.identifier) :
      Divides [token] (expression (.identifier node token.value)) []
  | binary {layer : Layer} {sign : Token} {ls rs node op l r}
      (operator : layer.operator? sign.kind = some op) :
      Divides (ls ++ sign :: rs) (expression (.binary node op l r)) [ls, rs]
  | unary {sign : Token} {ts node op e} (signed : sign.kind.NamesSign op) :
      Divides (sign :: ts) (expression (.unary node op e)) [ts]
  | castBefore {opener type closer : Token} {ts node target e}
      (opens : opener.kind = TokenKind.openParen) (named : type.kind.NamesType target)
      (closes : closer.kind = TokenKind.closeParen) :
      Divides (opener :: type :: closer :: ts) (expression (.cast node target e)) [ts]
  | castAround {type opener closer : Token} {ts node target e}
      (named : type.kind.NamesType target) (opens : opener.kind = TokenKind.openParen)
      (closes : closer.kind = TokenKind.closeParen) :
      Divides (type :: opener :: ts ++ [closer]) (expression (.cast node target e)) [ts]
  | grouping {opener closer : Token} {ts node e} (opens : opener.kind = TokenKind.openParen)
      (closes : closer.kind = TokenKind.closeParen) :
      Divides (opener :: ts ++ [closer]) (expression (.grouping node e)) [ts]
  | list {opener closer : Token} {ts node es stretches}
      (opens : opener.kind = TokenKind.openBracket) (items : Separated ts stretches)
      (closes : closer.kind = TokenKind.closeBracket) :
      Divides (opener :: ts ++ [closer]) (expression (.list node es)) stretches
  | call {callee opener closer : Token} {ts node span es stretches}
      (named : callee.kind = TokenKind.identifier) (opens : opener.kind = TokenKind.openParen)
      (arguments : Separated ts stretches) (closes : closer.kind = TokenKind.closeParen) :
      Divides (callee :: opener :: ts ++ [closer]) (expression (.call node callee.value span es))
        ([callee] :: stretches)
  | bare {token : Token} {span} (named : token.kind = TokenKind.identifier) :
      Divides [token] (declarator ⟨token.value, none, span⟩) []
  | initialized {token sign : Token} {ts e span} (named : token.kind = TokenKind.identifier)
      (assigns : sign.kind = TokenKind.assignment) :
      Divides (token :: sign :: ts) (declarator ⟨token.value, some e, span⟩) [ts]
  | declaration {word stop : Token} {ts span fixed ds stretches}
      (starts : word.kind.NamesDeclaration fixed) (names : Separated ts stretches)
      (ends : stop.kind = TokenKind.semicolon) :
      Divides (word :: ts ++ [stop]) (statement (.declaration span fixed ds)) stretches
  | assignment {token sign stop : Token} {ts span nameSpan op e}
      (named : token.kind = TokenKind.identifier) (assigns : sign.kind.NamesAssignment op)
      (ends : stop.kind = TokenKind.semicolon) :
      Divides (token :: sign :: ts ++ [stop])
        (statement (.assignment span token.value nameSpan op e)) [[token], ts]
  | function {word token opener closer opening closing : Token}
      {ts span nameSpan ps body stretches bodies}
      (starts : word.kind = TokenKind.funcKeyword) (named : token.kind = TokenKind.identifier)
      (opens : opener.kind = TokenKind.openParen) (names : Separated ts stretches)
      (counted : stretches.length = ps.length) (closes : closer.kind = TokenKind.closeParen)
      (begins : opening.kind = TokenKind.openCurly) (ends : closing.kind = TokenKind.closeCurly) :
      Divides (word :: token :: opener :: ts ++ closer :: opening :: bodies.flatten ++ [closing])
        (statement (.function span token.value nameSpan ps body)) ([token] :: stretches ++ bodies)
  | output {word stop : Token} {ts span e} (starts : word.kind = TokenKind.showKeyword)
      (ends : stop.kind = TokenKind.semicolon) :
      Divides (word :: ts ++ [stop]) (statement (.output span e)) [ts]
  | throw {word stop : Token} {ts span e} (starts : word.kind = TokenKind.throwKeyword)
      (ends : stop.kind = TokenKind.semicolon) :
      Divides (word :: ts ++ [stop]) (statement (.throw span e)) [ts]
  | expression {stop : Token} {ts span e} (ends : stop.kind = TokenKind.semicolon) :
      Divides (ts ++ [stop]) (statement (.expression span e)) [ts]

end Phrase

-- The stretch of source is that of the tokens: from where the first starts to where the last ends.
structure Span.Covers (span : Span) (ts : List Token) : Prop where
  start : ts.head?.map (·.span.start) = some span.start
  stop : ts.getLast?.map (·.span.stop) = some span.stop

-- The phrase was read from the tokens, and its stretch and those of everything inside are exact.
inductive Phrase.Hulled : List Token → Phrase → Prop where
  | intro {ts phrase stretches} (divides : Divides ts phrase stretches)
      (covers : phrase.span.Covers ts) (parts : List.Forall₂ Hulled stretches phrase.parts) :
      Hulled ts phrase

instance : LE Position := ⟨fun p q => p.line < q.line ∨ p.line = q.line ∧ p.column ≤ q.column⟩

namespace Position

theorem le_def {p q : Position} :
    p ≤ q ↔ p.line < q.line ∨ p.line = q.line ∧ p.column ≤ q.column := Iff.rfl

theorem le_refl (p : Position) : p ≤ p := .inr ⟨rfl, Nat.le_refl _⟩

theorem le_trans {p q r : Position} (first : p ≤ q) (second : q ≤ r) : p ≤ r := by
  rw [le_def] at *
  omega

end Position

-- Every token ends after its start, and before the next one starts.
structure InOrder (ts : List Token) : Prop where
  each : ∀ t ∈ ts, t.span.start ≤ t.span.stop
  between : ts.Pairwise fun t u => t.span.stop ≤ u.span.start

namespace InOrder

variable {ts us : List Token} {t : Token}

theorem sublist (ordered : InOrder ts) (part : us.Sublist ts) : InOrder us :=
  ⟨fun t listed => ordered.each t (part.mem listed), ordered.between.sublist part⟩

theorem start_le (ordered : InOrder ts) (first : ts.head? = some t) :
    ∀ u ∈ ts, t.span.start ≤ u.span.start := by
  obtain ⟨rest, rfl⟩ := List.head?_eq_some_iff.1 first
  intro u listed
  rcases List.mem_cons.1 listed with rfl | later
  · exact Position.le_refl _
  · exact Position.le_trans (ordered.each t List.mem_cons_self)
      ((List.pairwise_cons.1 ordered.between).1 u later)

theorem le_stop (ordered : InOrder ts) (last : ts.getLast? = some t) :
    ∀ u ∈ ts, u.span.stop ≤ t.span.stop := by
  obtain ⟨before, rfl⟩ := List.getLast?_eq_some_iff.1 last
  intro u listed
  rcases List.mem_append.1 listed with earlier | here
  · exact Position.le_trans
      ((List.pairwise_append.1 ordered.between).2.2 u earlier t List.mem_cons_self)
      (ordered.each t (by simp))
  · cases List.mem_singleton.1 here
    exact Position.le_refl _

end InOrder

namespace Span.Covers

variable {inner outer : Span} {ts us : List Token}

theorem ends (covers : outer.Covers ts) : ∃ first last, ts.head? = some first ∧
    ts.getLast? = some last ∧ first.span.start = outer.start ∧ last.span.stop = outer.stop := by
  obtain ⟨first, begins, start⟩ := Option.map_eq_some_iff.1 covers.start
  obtain ⟨last, finishes, stop⟩ := Option.map_eq_some_iff.1 covers.stop
  exact ⟨first, last, begins, finishes, start, stop⟩

theorem within (ordered : InOrder ts) (part : us.Sublist ts) (whole : outer.Covers ts)
    (covers : inner.Covers us) : outer.start ≤ inner.start ∧ inner.stop ≤ outer.stop := by
  obtain ⟨first, last, begins, finishes, start, stop⟩ := whole.ends
  obtain ⟨head, tail, starts, ends, same, alike⟩ := covers.ends
  rw [← start, ← stop, ← same, ← alike]
  exact ⟨ordered.start_le begins head (part.mem (List.mem_of_mem_head? starts)),
    ordered.le_stop finishes tail (part.mem (List.mem_of_getLast? ends))⟩

theorem before (ordered : InOrder (ts ++ us)) (earlier : outer.Covers ts)
    (later : inner.Covers us) : outer.stop ≤ inner.start := by
  obtain ⟨-, last, -, finishes, -, stop⟩ := earlier.ends
  obtain ⟨first, -, begins, -, start, -⟩ := later.ends
  rw [← stop, ← start]
  exact (List.pairwise_append.1 ordered.between).2.2 last (List.mem_of_getLast? finishes) first
    (List.mem_of_mem_head? begins)

end Span.Covers

theorem Separated.sublist {ts : List Token} {stretches : List (List Token)}
    (separated : Separated ts stretches) : stretches.flatten.Sublist ts := by
  induction separated with
  | none => exact .slnil
  | last => simp
  | more _ _ _ ih => exact (List.Sublist.refl _).append (ih.cons _)

namespace Phrase

variable {ts us : List Token} {p q : Phrase}

theorem Divides.sublist {stretches : List (List Token)} (divides : Divides ts p stretches) :
    stretches.flatten.Sublist ts := by
  have between {part whole : List Token} {first last : Token} (inner : part.Sublist whole) :
      part.Sublist (first :: whole ++ [last]) :=
    (inner.trans (List.sublist_append_left whole [last])).cons first
  cases divides with
  | name | parameter | literal | identifier | bare => exact List.nil_sublist _
  | binary | unary | grouping | initialized | output | throw | expression | assignment => simp
  | castBefore => simpa using (((List.Sublist.refl _).cons _).cons _).cons _
  | castAround => simpa using (between (.refl _)).cons _
  | list opens items closes => exact between items.sublist
  | declaration starts names ends => exact between names.sublist
  | call named opens arguments closes => exact (between arguments.sublist).cons_cons _
  | @function word token opener closer opening closing ts _ _ _ _ stretches bodies _ _ _ names =>
    have statements : bodies.flatten.Sublist (closer :: opening :: (bodies.flatten ++ [closing])) :=
      ((List.sublist_append_left _ _).cons opening).cons closer
    have later := ((names.sublist.append statements).cons opener).cons_cons token
    simpa using later.cons word

-- The parts are inside their phrase, and each ends before the next one starts.
structure Nested (p : Phrase) : Prop where
  within : ∀ part ∈ p.parts, p.span.start ≤ part.span.start ∧ part.span.stop ≤ p.span.stop
  apart : p.parts.Pairwise fun a b => a.span.stop ≤ b.span.start

theorem Hulled.covers (hulled : Hulled ts p) : p.span.Covers ts := by
  cases hulled with
  | intro _ covers _ => exact covers

theorem stretch_of_mem {stretches : List (List Token)} {phrases : List Phrase}
    (hulled : List.Forall₂ Hulled stretches phrases) (listed : p ∈ phrases) :
    ∃ us ∈ stretches, Hulled us p := by
  induction hulled with
  | nil => cases listed
  | cons first _ ih =>
    rcases List.mem_cons.1 listed with rfl | later
    · exact ⟨_, List.mem_cons_self, first⟩
    · obtain ⟨us, among, found⟩ := ih later
      exact ⟨us, List.mem_cons_of_mem _ among, found⟩

theorem apart_of_stretches {stretches : List (List Token)} {phrases : List Phrase}
    (hulled : List.Forall₂ Hulled stretches phrases) (ordered : InOrder stretches.flatten) :
    phrases.Pairwise fun a b => a.span.stop ≤ b.span.start := by
  induction hulled with
  | nil => exact .nil
  | @cons us p stretches phrases first others ih =>
    rw [List.flatten_cons] at ordered
    refine .cons (fun later listed => ?_) (ih (ordered.sublist (List.sublist_append_right _ _)))
    obtain ⟨vs, among, hulled⟩ := stretch_of_mem others listed
    have following : (us ++ vs).Sublist (us ++ stretches.flatten) :=
      (List.Sublist.refl us).append (List.sublist_flatten_of_mem among)
    exact Span.Covers.before (ordered.sublist following) first.covers hulled.covers

theorem Hulled.part (hulled : Hulled ts p) (listed : q ∈ p.parts) :
    ∃ us, us.Sublist ts ∧ Hulled us q := by
  cases hulled with
  | intro divides _ parts =>
    obtain ⟨us, among, hulled⟩ := stretch_of_mem parts listed
    exact ⟨us, (List.sublist_flatten_of_mem among).trans divides.sublist, hulled⟩

theorem Hulled.inside (hulled : Hulled ts p) (inside : q.Inside p) :
    ∃ us, us.Sublist ts ∧ Hulled us q := by
  induction inside generalizing ts with
  | self => exact ⟨ts, .refl ts, hulled⟩
  | part listed _ ih =>
    obtain ⟨us, among, hulled⟩ := hulled.part listed
    obtain ⟨vs, deeper, found⟩ := ih hulled
    exact ⟨vs, deeper.trans among, found⟩

theorem Hulled.nested (hulled : Hulled ts p) (ordered : InOrder ts) : p.Nested := by
  refine ⟨fun part listed => ?_, ?_⟩
  · obtain ⟨us, among, inner⟩ := hulled.part listed
    exact Span.Covers.within ordered among hulled.covers inner.covers
  · cases hulled with
    | intro divides _ parts => exact apart_of_stretches parts (ordered.sublist divides.sublist)

end Phrase

end Scriptlet
