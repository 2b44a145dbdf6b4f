import Scriptlet.Proofs.Grammar.Exact

/-!
Where a sentence breaks off. `Breaks least ts bad` says that the tokens `ts` start an expression
and that `bad` cannot come next, whatever may follow it; there is a rule for each place where an
expression can go wrong, and the same for all other parts of a program. Main statement: whatever
has been read before the break can be completed.
-/

namespace Scriptlet

open Parse
open Grammar (standard)

-- The token binds nothing that stands on its left.
def Token.Loose (t : Token) : Prop := (standard.powerOf t.kind).rank = 0

-- After an opening parenthesis, two tokens like these are a cast in front of its operand.
def StartsCast : List Token → Prop
  | type :: closer :: _ => castTarget? type.kind ≠ none ∧ closer.kind = .closeParen
  | _ => False

mutual

inductive Breaks : Power → List Token → Token → Prop where
  | start {least bad} (shut : standard.opening bad.kind = none) : Breaks least [] bad
  | operand {least layer sign op ls l us bad} (left : Spells layer ls l)
      (operator : layer.operator? sign.kind = some op) (loose : least.layer.rank ≤ layer.rank)
      (right : Breaks (standard.powerOf sign.kind) us bad) : Breaks least (ls ++ sign :: us) bad
  -- Only a name can be called.
  | call {least ts e bad} (left : Spells .primary ts e)
      (unnamed : ∀ callee : Token, ts = [callee] → callee.kind ≠ .identifier)
      (opens : bad.kind = .openParen) : Breaks least ts bad
  | arguments {least callee opener us bad} (named : callee.kind = .identifier)
      (opens : opener.kind = .openParen) (items : BreaksItems .closeParen us bad)
      (filled : (us.headD bad).kind ≠ .closeParen) : Breaks least (callee :: opener :: us) bad
  | unary {least sign op us bad} (signed : sign.kind.NamesSign op)
      (operand : Breaks .unary us bad) : Breaks least (sign :: us) bad
  | castBefore {least opener type closer target us bad} (opens : opener.kind = .openParen)
      (named : type.kind.NamesType target) (closes : closer.kind = .closeParen)
      (operand : Breaks .unary us bad) : Breaks least (opener :: type :: closer :: us) bad
  | grouping {least opener us bad} (opens : opener.kind = .openParen)
      (inner : BreaksBefore .closeParen us bad) (plain : ¬ StartsCast (us ++ [bad])) :
      Breaks least (opener :: us) bad
  | castOpener {least type target bad} (named : type.kind.NamesType target)
      (other : bad.kind ≠ .openParen) : Breaks least [type] bad
  | castAround {least type opener target us bad} (named : type.kind.NamesType target)
      (opens : opener.kind = .openParen) (operand : BreaksBefore .closeParen us bad) :
      Breaks least (type :: opener :: us) bad
  | list {least opener us bad} (opens : opener.kind = .openBracket)
      (items : BreaksItems .closeBracket us bad) (filled : (us.headD bad).kind ≠ .closeBracket) :
      Breaks least (opener :: us) bad

-- An expression with a token of this kind after it.
inductive BreaksBefore : TokenKind → List Token → Token → Prop where
  | value {close us bad} (value : Breaks .default us bad) : BreaksBefore close us bad
  | unclosed {close ts e bad} (value : Spells .disjunction ts e) (loose : bad.Loose)
      (other : bad.kind ≠ close) : BreaksBefore close ts bad

-- At least one expression, with commas between them and a token of this kind after them.
inductive BreaksItems : TokenKind → List Token → Token → Prop where
  | item {close us bad} (item : Breaks .default us bad) : BreaksItems close us bad
  | unclosed {close ts e bad} (item : Spells .disjunction ts e) (loose : bad.Loose)
      (separate : bad.kind ≠ .comma) (other : bad.kind ≠ close) : BreaksItems close ts bad
  | more {close comma ts e us bad} (item : Spells .disjunction ts e)
      (separated : comma.kind = .comma) (rest : BreaksItems close us bad) :
      BreaksItems close (ts ++ comma :: us) bad

end

-- Declarators with a semicolon after them.
inductive BreaksDeclarators : List Token → Token → Prop where
  | name {bad} (other : bad.kind ≠ .identifier) : BreaksDeclarators [] bad
  | bare {name bad} (named : name.kind = .identifier) (assigns : bad.kind ≠ .assignment)
      (separate : bad.kind ≠ .comma) (other : bad.kind ≠ .semicolon) : BreaksDeclarators [name] bad
  | value {name sign us bad} (named : name.kind = .identifier) (assigns : sign.kind = .assignment)
      (value : Breaks .default us bad) : BreaksDeclarators (name :: sign :: us) bad
  | unclosed {name sign ts e bad} (named : name.kind = .identifier)
      (assigns : sign.kind = .assignment) (value : Spells .disjunction ts e) (loose : bad.Loose)
      (separate : bad.kind ≠ .comma) (other : bad.kind ≠ .semicolon) :
      BreaksDeclarators (name :: sign :: ts) bad
  | more {comma ts d us bad} (item : SpellsDeclarator ts d) (separated : comma.kind = .comma)
      (rest : BreaksDeclarators us bad) : BreaksDeclarators (ts ++ comma :: us) bad

-- At least one parameter, with a closing parenthesis after the last one.
inductive BreaksParameters : List Token → Token → Prop where
  | name {bad} (other : bad.kind ≠ .identifier) : BreaksParameters [] bad
  | unclosed {name bad} (named : name.kind = .identifier) (separate : bad.kind ≠ .comma)
      (other : bad.kind ≠ .closeParen) : BreaksParameters [name] bad
  | more {name comma us bad} (named : name.kind = .identifier) (separated : comma.kind = .comma)
      (rest : BreaksParameters us bad) : BreaksParameters (name :: comma :: us) bad

-- What stands between the word `func` and the body.
inductive SpellsHeader : List Token → Prop where
  | intro {name opener closer opening ts ps} (named : name.kind = .identifier)
      (opens : opener.kind = .openParen) (parameters : SpellsParameters ts ps)
      (closes : closer.kind = .closeParen) (begins : opening.kind = .openCurly) :
      SpellsHeader (name :: opener :: ts ++ [closer, opening])

inductive BreaksHeader : List Token → Token → Prop where
  | name {bad} (other : bad.kind ≠ .identifier) : BreaksHeader [] bad
  | opener {name bad} (named : name.kind = .identifier) (other : bad.kind ≠ .openParen) :
      BreaksHeader [name] bad
  | parameters {name opener us bad} (named : name.kind = .identifier)
      (opens : opener.kind = .openParen) (parameters : BreaksParameters us bad)
      (filled : (us.headD bad).kind ≠ .closeParen) : BreaksHeader (name :: opener :: us) bad
  | opening {name opener ts ps closer bad} (named : name.kind = .identifier)
      (opens : opener.kind = .openParen) (parameters : SpellsParameters ts ps)
      (closes : closer.kind = .closeParen) (other : bad.kind ≠ .openCurly) :
      BreaksHeader (name :: opener :: ts ++ [closer]) bad

-- A name and a sign of assignment show an assignment.
def StartsAssignment : List Token → Prop
  | name :: sign :: _ => name.kind = .identifier ∧ sign.kind.isAssignment = true
  | _ => False

mutual

inductive BreaksStatement : List Token → Token → Prop where
  | declaration {word fixed us bad} (starts : word.kind.NamesDeclaration fixed)
      (names : BreaksDeclarators us bad) : BreaksStatement (word :: us) bad
  | assignment {name sign op us bad} (named : name.kind = .identifier)
      (assigns : sign.kind.NamesAssignment op) (value : BreaksBefore .semicolon us bad) :
      BreaksStatement (name :: sign :: us) bad
  | header {word us bad} (starts : word.kind = .funcKeyword) (header : BreaksHeader us bad) :
      BreaksStatement (word :: us) bad
  | body {word ts us bad} (starts : word.kind = .funcKeyword) (header : SpellsHeader ts)
      (statements : BreaksBody .closeCurly us bad) : BreaksStatement (word :: ts ++ us) bad
  | output {word us bad} (starts : word.kind = .showKeyword)
      (value : BreaksBefore .semicolon us bad) : BreaksStatement (word :: us) bad
  | throw {word us bad} (starts : word.kind = .throwKeyword)
      (value : BreaksBefore .semicolon us bad) : BreaksStatement (word :: us) bad
  | expression {us bad} (value : BreaksBefore .semicolon us bad)
      (unruled : standard.statement (us.headD bad).kind = none)
      (plain : ¬ StartsAssignment (us ++ [bad])) : BreaksStatement us bad

-- Statements with a token of this kind after them.
inductive BreaksBody : TokenKind → List Token → Token → Prop where
  | here {close us bad} (statement : BreaksStatement us bad)
      (unclosed : (us.headD bad).kind ≠ close) (more : (us.headD bad).kind ≠ .eof) :
      BreaksBody close us bad
  | later {close ts stmt us bad} (first : SpellsStatement ts stmt)
      (rest : BreaksBody close us bad) : BreaksBody close (ts ++ us) bad
  | unclosed {close bad} (ends : bad.kind = .eof) (other : close ≠ .eof) : BreaksBody close [] bad

end

theorem Spells.loosen {layer inner : Layer} {ts : List Token} {e : Expr}
    (looser : layer.rank ≤ inner.rank) (spells : Spells inner ts e) : Spells layer ts e :=
  @Layer.loosen (fun layer => Spells layer ts e) _ _ (fun _ loose inner => .tighter loose inner)
    looser spells

-- A name, and the brackets and signs that bring a sentence to its end.
def Token.filler (kind : TokenKind) : Token :=
  let value := match kind with
    | .openParen => "("
    | .closeParen => ")"
    | .closeBracket => "]"
    | .semicolon => ";"
    | .openCurly => "\x7b"
    | .closeCurly => "\x7d"
    | _ => "x"
  ⟨kind, value, default⟩

def fillerKinds : List TokenKind :=
  [.identifier, .openParen, .closeParen, .closeBracket, .semicolon, .openCurly, .closeCurly]

-- All these tokens are fillers.
def Filling (us : List Token) : Prop := ∀ t ∈ us, t ∈ fillerKinds.map Token.filler

namespace Filling

variable {us vs : List Token}

theorem nil : Filling [] := by
  intro t member
  cases member

theorem cons (kind : TokenKind) (filling : Filling us) (listed : kind ∈ fillerKinds := by decide) :
    Filling (Token.filler kind :: us) :=
  List.forall_mem_cons.2 ⟨List.mem_map_of_mem listed, filling⟩

theorem append (first : Filling us) (second : Filling vs) : Filling (us ++ vs) :=
  List.forall_mem_append.2 ⟨first, second⟩

theorem close (kind : TokenKind) (filling : Filling us)
    (listed : kind ∈ fillerKinds := by decide) : Filling (us ++ [Token.filler kind]) :=
  filling.append (nil.cons kind listed)

end Filling

theorem Token.filler_kind (kind : TokenKind) : (Token.filler kind).kind = kind := rfl

variable {layer inner : Layer} {ts us whole : List Token} {e : Expr} {bad : Token}

-- With some fillers after them the tokens are an expression of the layer.
def Completable (layer : Layer) (ts : List Token) : Prop :=
  ∃ us e, Filling us ∧ Spells layer (ts ++ us) e

theorem completable_by (filling : Filling us) (looser : layer.rank ≤ inner.rank)
    (spells : Spells inner whole e) (same : whole = ts ++ us) : Completable layer ts := by
  subst same
  exact ⟨us, e, filling, spells.loosen looser⟩

theorem Spells.completable (spells : Spells layer ts e) : Completable layer ts :=
  completable_by .nil (Nat.le_refl _) spells (List.append_nil ts).symm

theorem completable_nil (layer : Layer) : Completable layer [] :=
  completable_by (e := .identifier default "x") (Filling.nil.cons .identifier)
    (by cases layer <;> decide) (.name (Token.filler_kind .identifier)) rfl

theorem Power.layer_rank (least : Power) : least.layer.rank ≤ Layer.prefixed.rank := by
  cases least <;> decide

theorem Power.primary_rank (least : Power) : least.layer.rank ≤ Layer.primary.rank :=
  Nat.le_trans least.layer_rank (by decide)

mutual

theorem Breaks.completable : ∀ {least ts bad}, Breaks least ts bad → Completable least.layer ts
  | least, _, _, .start _ => completable_nil least.layer
  | _, _, _, .operand left operator loose right => by
    obtain ⟨us, r, filling, spells⟩ := right.completable
    rw [(operator_joining operator).2.2.2.1] at spells
    exact completable_by (e := .binary default _ _ _) filling loose
      (.binary left operator spells) (by simp)
  | least, _, _, .call left _ _ => Spells.completable (left.loosen least.primary_rank)
  | least, _, _, .arguments named opens items _ => by
    obtain ⟨us, es, filling, spells, -⟩ := items.completable
    exact completable_by (e := .call default _ default _) (filling.close .closeParen)
      least.primary_rank (.call named opens (Token.filler_kind .closeParen) spells) (by simp)
  | least, _, _, .unary signed operand => by
    obtain ⟨us, e, filling, spells⟩ := operand.completable
    exact completable_by (e := .unary default _ _) filling least.layer_rank
      (.unary signed spells) rfl
  | least, _, _, .castBefore opens named closes operand => by
    obtain ⟨us, e, filling, spells⟩ := operand.completable
    exact completable_by (e := .cast default _ _) filling least.layer_rank
      (.castBefore opens named closes spells) rfl
  | least, _, _, .grouping opens inner _ => by
    obtain ⟨us, e, filling, spells⟩ := inner.completable
    exact completable_by (e := .grouping default _) (filling.close .closeParen)
      least.primary_rank (.grouping opens (Token.filler_kind .closeParen) spells) (by simp)
  | least, _, _, .castOpener named _ => by
    obtain ⟨us, e, filling, spells⟩ := completable_nil .disjunction
    exact completable_by (e := .cast default _ _)
      ((filling.close .closeParen).cons .openParen) least.primary_rank
      (.castAround named (Token.filler_kind .openParen) (Token.filler_kind .closeParen) spells) rfl
  | least, _, _, .castAround named opens operand => by
    obtain ⟨us, e, filling, spells⟩ := operand.completable
    exact completable_by (e := .cast default _ _) (filling.close .closeParen) least.primary_rank
      (.castAround named opens (Token.filler_kind .closeParen) spells) (by simp)
  | least, _, _, .list opens items _ => by
    obtain ⟨us, es, filling, spells, -⟩ := items.completable
    exact completable_by (e := .list default _) (filling.close .closeBracket) least.primary_rank
      (.list opens (Token.filler_kind .closeBracket) spells) (by simp)

theorem BreaksBefore.completable : ∀ {close ts bad}, BreaksBefore close ts bad →
    Completable .disjunction ts
  | _, _, _, .value value => value.completable
  | _, _, _, .unclosed value _ _ => value.completable

theorem BreaksItems.completable : ∀ {close ts bad}, BreaksItems close ts bad →
    ∃ us es, Filling us ∧ SpellsItems (ts ++ us) es ∧ es ≠ []
  | _, _, _, .item item => by
    obtain ⟨us, e, filling, spells⟩ := item.completable
    exact ⟨us, [e], filling, .last spells, by simp⟩
  | _, _, _, .unclosed item _ _ _ => by
    obtain ⟨us, e, filling, spells⟩ := item.completable
    exact ⟨us, [e], filling, .last spells, by simp⟩
  | _, _, _, .more item separated rest => by
    obtain ⟨us, es, filling, spells, some⟩ := rest.completable
    have whole := SpellsItems.more item separated spells some
    exact ⟨us, _, filling, by simpa using whole, by simp⟩

end

theorem BreaksDeclarators.completable (breaks : BreaksDeclarators ts bad) :
    ∃ us ds, Filling us ∧ SpellsDeclarators (ts ++ us) ds := by
  induction breaks with
  | name =>
    exact ⟨_, [⟨"x", none, default⟩], Filling.nil.cons .identifier,
      .last (.bare (Token.filler_kind .identifier))⟩
  | bare named => exact ⟨[], [⟨_, none, default⟩], .nil, .last (.bare named)⟩
  | value named assigns value =>
    obtain ⟨us, e, filling, spells⟩ := value.completable
    exact ⟨us, [⟨_, some e, default⟩], filling, .last (.initialized named assigns spells)⟩
  | unclosed named assigns value =>
    obtain ⟨us, e, filling, spells⟩ := value.completable
    exact ⟨us, [⟨_, some e, default⟩], filling, .last (.initialized named assigns spells)⟩
  | more item separated _ ih =>
    obtain ⟨us, ds, filling, spells⟩ := ih
    have whole := SpellsDeclarators.more item separated spells
    exact ⟨us, _, filling, by simpa using whole⟩

theorem BreaksParameters.completable (breaks : BreaksParameters ts bad) :
    ∃ us ps, Filling us ∧ SpellsParameters (ts ++ us) ps ∧ ps ≠ [] := by
  induction breaks with
  | name =>
    exact ⟨_, [⟨"x", default⟩], Filling.nil.cons .identifier,
      .last (Token.filler_kind .identifier), by simp⟩
  | unclosed named => exact ⟨[], [⟨_, default⟩], .nil, .last named, by simp⟩
  | more named separated _ ih =>
    obtain ⟨us, ps, filling, spells, some⟩ := ih
    exact ⟨us, ⟨_, default⟩ :: ps, filling, .more named separated spells some, by simp⟩

theorem BreaksHeader.completable (breaks : BreaksHeader ts bad) :
    ∃ us, Filling us ∧ SpellsHeader (ts ++ us) := by
  have brace : Filling [.filler .openCurly] := Filling.nil.cons .openCurly
  have ending := brace.cons .closeParen
  cases breaks with
  | name =>
    exact ⟨_, (ending.cons .openParen).cons .identifier, .intro (Token.filler_kind .identifier)
      (Token.filler_kind .openParen) .none (Token.filler_kind .closeParen)
      (Token.filler_kind .openCurly)⟩
  | opener named =>
    exact ⟨_, ending.cons .openParen, .intro named (Token.filler_kind .openParen) .none
      (Token.filler_kind .closeParen) (Token.filler_kind .openCurly)⟩
  | parameters named opens parameters =>
    obtain ⟨us, ps, filling, spells, -⟩ := parameters.completable
    have whole := SpellsHeader.intro named opens spells (Token.filler_kind .closeParen)
      (Token.filler_kind .openCurly)
    exact ⟨_, filling.append ending, by simpa using whole⟩
  | opening named opens parameters closes =>
    have whole := SpellsHeader.intro named opens parameters closes (Token.filler_kind .openCurly)
    exact ⟨_, brace, by simpa using whole⟩

theorem SpellsHeader.function {word closing : Token} {body : List Stmt}
    (starts : word.kind = .funcKeyword) (header : SpellsHeader ts) (statements : SpellsBody us body)
    (ends : closing.kind = .closeCurly) :
    ∃ stmt, SpellsStatement (word :: ts ++ us ++ [closing]) stmt := by
  cases header with
  | @intro name _ _ _ _ ps named opens parameters closes begins =>
    refine ⟨.function default name.value default ps body, ?_⟩
    have whole := @SpellsStatement.function _ _ _ _ _ _ _ _ _ _ default default starts named opens
      parameters closes begins statements ends
    simpa using whole

-- With an expression and a semicolon after them, these tokens are a statement.
def TakesValue (front : List Token) : Prop :=
  ∀ ⦃ts e stop⦄, Spells .disjunction ts e → stop.kind = .semicolon →
    ∃ stmt, SpellsStatement (front ++ (ts ++ [stop])) stmt

theorem takesValue_output {word : Token} (starts : word.kind = .showKeyword) :
    TakesValue [word] := by
  intro ts e stop spells ends
  exact ⟨.output default e, .output starts spells ends⟩

theorem takesValue_throw {word : Token} (starts : word.kind = .throwKeyword) :
    TakesValue [word] := by
  intro ts e stop spells ends
  exact ⟨.throw default e, .throw starts spells ends⟩

theorem takesValue_assignment {name sign : Token} {op : AssignOp}
    (named : name.kind = .identifier) (assigns : sign.kind.NamesAssignment op) :
    TakesValue [name, sign] := by
  intro ts e stop spells ends
  exact ⟨.assignment default name.value default op e, .assignment named assigns spells ends⟩

theorem takesValue_nil : TakesValue [] := by
  intro ts e stop spells ends
  exact ⟨.expression default e, .expression spells ends⟩

theorem TakesValue.completable {front : List Token} (takes : TakesValue front)
    (value : BreaksBefore .semicolon ts bad) :
    ∃ us stmt, Filling us ∧ SpellsStatement (front ++ ts ++ us) stmt := by
  obtain ⟨us, e, filling, spells⟩ := value.completable
  obtain ⟨stmt, whole⟩ := takes spells (Token.filler_kind .semicolon)
  exact ⟨_, stmt, filling.close .semicolon, by simpa using whole⟩

mutual

theorem BreaksStatement.completable : ∀ {ts bad}, BreaksStatement ts bad →
    ∃ us stmt, Filling us ∧ SpellsStatement (ts ++ us) stmt
  | _, _, @BreaksStatement.declaration _ fixed _ _ starts names => by
    obtain ⟨us, ds, filling, spells⟩ := names.completable
    refine ⟨_, .declaration default fixed ds, filling.close .semicolon, ?_⟩
    rw [← List.append_assoc]
    exact .declaration starts spells (Token.filler_kind .semicolon)
  | _, _, .assignment named assigns value => (takesValue_assignment named assigns).completable value
  | _, _, .header starts header => by
    obtain ⟨us, filling, spells⟩ := header.completable
    obtain ⟨stmt, whole⟩ := spells.function starts .none (Token.filler_kind .closeCurly)
    exact ⟨_, stmt, filling.close .closeCurly, by simpa using whole⟩
  | _, _, .body starts header statements => by
    obtain ⟨us, body, filling, spells⟩ := statements.completable
    obtain ⟨stmt, whole⟩ := header.function starts spells (Token.filler_kind .closeCurly)
    exact ⟨_, stmt, filling.close .closeCurly, by simpa using whole⟩
  | _, _, .output starts value => (takesValue_output starts).completable value
  | _, _, .throw starts value => (takesValue_throw starts).completable value
  | _, _, .expression value _ _ => takesValue_nil.completable value

theorem BreaksBody.completable : ∀ {close ts bad}, BreaksBody close ts bad →
    ∃ us body, Filling us ∧ SpellsBody (ts ++ us) body
  | _, _, _, .here statement _ _ => by
    obtain ⟨us, stmt, filling, spells⟩ := statement.completable
    have whole := SpellsBody.more spells .none
    exact ⟨us, [stmt], filling, by simpa using whole⟩
  | _, _, _, .later first rest => by
    obtain ⟨us, body, filling, spells⟩ := rest.completable
    have whole := SpellsBody.more first spells
    exact ⟨us, _, filling, by simpa using whole⟩
  | _, _, _, .unclosed _ _ => ⟨[], [], .nil, .none⟩

end

end Scriptlet
