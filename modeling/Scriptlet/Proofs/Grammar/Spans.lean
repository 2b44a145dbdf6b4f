import Scriptlet.Proofs.Grammar.Sound.Statement
import Scriptlet.Proofs.Token.Tiling
import Scriptlet.Proofs.Tree.Phrases

/-!
The stretches of source that reading gives to the phrases of a program. Some are joined from those
of operands, some taken from brackets or from the cursor; all of them turn out to reach from the
first to the last token that the phrase was read from.
-/

namespace Scriptlet

open Phrase (Hulled)

namespace Span.Covers

variable {a b : Span} {ls rs : List Token}

theorem single (t : Token) : t.span.Covers [t] := ⟨rfl, rfl⟩

theorem join (left : a.Covers ls) (right : b.Covers rs) (middle : List Token) :
    (a.to b).Covers (ls ++ (middle ++ rs)) := by
  obtain ⟨first, -, begins, -, start, -⟩ := left.ends
  obtain ⟨-, last, -, finishes, -, stop⟩ := right.ends
  constructor
  · rw [List.head?_append, begins]
    exact congrArg some start
  · rw [List.getLast?_append, List.getLast?_append, finishes]
    exact congrArg some stop

theorem between (first last : Token) (middle : List Token) :
    (first.span.to last.span).Covers (first :: middle ++ [last]) :=
  (single first).join (single last) middle

theorem hull (first : Token) (rest : List Token) : (first.hull rest).Covers (first :: rest) :=
  ⟨rfl, by rw [List.getLast?_eq_some_getLast (by simp)]; rfl⟩

end Span.Covers

namespace Phrase

-- The phrases were read from the tokens, with commas between them.
def HulledList (ts : List Token) (phrases : List Phrase) : Prop :=
  ∃ stretches, Separated ts stretches ∧ List.Forall₂ Hulled stretches phrases

-- The phrases were read from the tokens, one after the other.
def HulledRow (ts : List Token) (phrases : List Phrase) : Prop :=
  ∃ stretches : List (List Token), ts = stretches.flatten ∧ List.Forall₂ Hulled stretches phrases

namespace HulledList

variable {ts us : List Token} {p : Phrase} {ps : List Phrase}

theorem none : HulledList [] [] := ⟨[], .none, .nil⟩

theorem last (item : Hulled ts p) : HulledList ts [p] := ⟨[ts], .last, .cons item .nil⟩

theorem more {comma : Token} (item : Hulled ts p) (separates : comma.kind = .comma)
    (rest : HulledList us ps) (follows : ps ≠ []) : HulledList (ts ++ comma :: us) (p :: ps) := by
  obtain ⟨stretches, separated, hulled⟩ := rest
  have filled : stretches ≠ [] := by
    rintro rfl
    cases hulled
    exact follows rfl
  exact ⟨ts :: stretches, .more separates separated filled, .cons item hulled⟩

end HulledList

namespace HulledRow

theorem nil : HulledRow [] [] := ⟨[], rfl, .nil⟩

theorem cons {ts us : List Token} {p : Phrase} {ps : List Phrase} (first : Hulled ts p)
    (others : HulledRow us ps) : HulledRow (ts ++ us) (p :: ps) := by
  obtain ⟨stretches, rfl, hulled⟩ := others
  exact ⟨ts :: stretches, rfl, .cons first hulled⟩

end HulledRow

end Phrase

namespace Phrase.Hulled

variable {ts us : List Token} {n : NodeId} {es : List Expr} {ds : List Declarator}
  {ps : List Parameter} {body : List Stmt}

theorem ofName {token : Token} (named : token.kind = .identifier) :
    Hulled [token] (.name token.value token.span) := .intro (.name named) (.single token) .nil

theorem ofParameter {token : Token} (named : token.kind = .identifier) :
    Hulled [token] (.parameter ⟨token.value, token.span⟩) :=
  .intro (.parameter named) (.single token) .nil

theorem ofList {opener closer : Token} (opens : opener.kind = .openBracket)
    (closes : closer.kind = .closeBracket) (items : HulledList ts (es.map .expression)) :
    Hulled (opener :: ts ++ [closer])
      (.expression (.list ⟨n, ⟨opener.span.start, closer.span.stop⟩⟩ es)) := by
  obtain ⟨stretches, separated, hulled⟩ := items
  exact .intro (.list opens separated closes) (.between _ _ _) hulled

theorem ofCall {callee opener closer : Token} (named : callee.kind = .identifier)
    (opens : opener.kind = .openParen) (closes : closer.kind = .closeParen)
    (arguments : HulledList ts (es.map .expression)) :
    Hulled (callee :: opener :: ts ++ [closer])
      (.expression
        (.call ⟨n, ⟨callee.span.start, closer.span.stop⟩⟩ callee.value callee.span es)) := by
  obtain ⟨stretches, separated, hulled⟩ := arguments
  exact .intro (.call named opens separated closes) (.between _ _ (_ :: _))
    (.cons (ofName named) hulled)

theorem ofDeclaration {word stop : Token} {fixed : Bool} (starts : word.kind.NamesDeclaration fixed)
    (names : HulledList ts (ds.map .declarator)) (ends : stop.kind = .semicolon) :
    Hulled (word :: ts ++ [stop])
      (.statement (.declaration ⟨word.span.start, stop.span.stop⟩ fixed ds)) := by
  obtain ⟨stretches, separated, hulled⟩ := names
  exact .intro (.declaration starts separated ends) (.between _ _ _) hulled

theorem ofFunction {word token opener closer opening closing : Token}
    (starts : word.kind = .funcKeyword) (named : token.kind = .identifier)
    (opens : opener.kind = .openParen) (names : HulledList ts (ps.map .parameter))
    (closes : closer.kind = .closeParen) (begins : opening.kind = .openCurly)
    (statements : HulledRow us (body.map .statement)) (ends : closing.kind = .closeCurly) :
    Hulled (word :: token :: opener :: ts ++ closer :: opening :: us ++ [closing])
      (.statement
        (.function ⟨word.span.start, closing.span.stop⟩ token.value token.span ps body)) := by
  obtain ⟨stretches, separated, named'⟩ := names
  obtain ⟨bodies, rfl, bodied⟩ := statements
  have counted : stretches.length = ps.length := by simpa using named'.length_eq
  refine .intro (.function starts named opens separated counted closes begins ends)
    (.between _ _ _) (.cons (ofName named) ?_)
  exact List.rel_append named' bodied

end Phrase.Hulled

mutual

theorem Reads.hulled : ∀ {layer n ts e m}, Reads layer n ts e m → Hulled ts (.expression e)
  | _, _, _, _, _, .tighter _ inner => inner.hulled
  | _, _, _, _, _, .binary left operator right =>
    .intro (.binary operator) (left.hulled.covers.join right.hulled.covers [_])
      (.cons left.hulled (.cons right.hulled .nil))
  | _, _, _, _, _, .unary signed operand =>
    .intro (.unary signed) ((Span.Covers.single _).join operand.hulled.covers [])
      (.cons operand.hulled .nil)
  | _, _, _, _, _, .castBefore opens named closes operand =>
    .intro (.castBefore opens named closes)
      ((Span.Covers.single _).join operand.hulled.covers [_, _]) (.cons operand.hulled .nil)
  | _, _, _, _, _, .literal read => .intro (.literal read) (.single _) .nil
  | _, _, _, _, _, .name named => .intro (.identifier named) (.single _) .nil
  | _, _, _, _, _, .call named opens closes arguments => .ofCall named opens closes arguments.hulled
  | _, _, _, _, _, .grouping opens closes inner =>
    .intro (.grouping opens closes) (.between _ _ _) (.cons inner.hulled .nil)
  | _, _, _, _, _, .castAround named opens closes operand =>
    .intro (.castAround named opens closes) (.between _ _ (_ :: _)) (.cons operand.hulled .nil)
  | _, _, _, _, _, .list opens closes items => .ofList opens closes items.hulled

theorem ReadsItems.hulled : ∀ {n ts es m}, ReadsItems n ts es m →
    Phrase.HulledList ts (es.map .expression)
  | _, _, _, _, .none => .none
  | _, _, _, _, .last item => .last item.hulled
  | _, _, _, _, .more item separated rest follows =>
    .more item.hulled separated rest.hulled (mt List.map_eq_nil_iff.1 follows)

end

theorem ReadsDeclarator.hulled {n m : NodeId} {ts : List Token} {d : Declarator}
    (reads : ReadsDeclarator n ts d m) : Hulled ts (.declarator d) := by
  cases reads with
  | bare named => exact .intro (.bare named) (.hull _ _) .nil
  | initialized named assigns value =>
    exact .intro (.initialized named assigns) (.hull _ _) (.cons value.hulled .nil)

theorem ReadsDeclarators.hulled {n m : NodeId} {ts : List Token} {ds : List Declarator}
    (reads : ReadsDeclarators n ts ds m) : Phrase.HulledList ts (ds.map .declarator) := by
  induction reads with
  | last item => exact .last item.hulled
  | more item separated rest ih =>
    refine .more item.hulled separated ih ?_
    cases rest <;> simp

theorem ReadsParameters.hulled {ts : List Token} {ps : List Parameter}
    (reads : ReadsParameters ts ps) : Phrase.HulledList ts (ps.map .parameter) := by
  induction reads with
  | none => exact .none
  | last named => exact .last (.ofParameter named)
  | more named separated _ follows ih =>
    exact .more (.ofParameter named) separated ih (mt List.map_eq_nil_iff.1 follows)

mutual

theorem ReadsStatement.hulled : ∀ {n ts s m}, ReadsStatement n ts s m → Hulled ts (.statement s)
  | _, _, _, _, .declaration starts names ends => .ofDeclaration starts names.hulled ends
  | _, _, _, _, .assignment named assigns value ends =>
    .intro (.assignment named assigns ends) (.between _ _ (_ :: _))
      (.cons (.ofName named) (.cons value.hulled .nil))
  | _, _, _, _, .function starts named opens parameters closes begins statements ends =>
    .ofFunction starts named opens parameters.hulled closes begins statements.hulled ends
  | _, _, _, _, .output starts value ends =>
    .intro (.output starts ends) (.between _ _ _) (.cons value.hulled .nil)
  | _, _, _, _, .throw starts value ends =>
    .intro (.throw starts ends) (.between _ _ _) (.cons value.hulled .nil)
  | _, _, _, _, .expression value ends =>
    .intro (.expression ends) (value.hulled.covers.join (.single _) []) (.cons value.hulled .nil)

theorem ReadsBody.hulled : ∀ {n ts body m}, ReadsBody n ts body m →
    Phrase.HulledRow ts (body.map .statement)
  | _, _, _, _, .none => .nil
  | _, _, _, _, .more first rest => .cons first.hulled rest.hulled

end

namespace Position

theorem le_step (p : Position) (c : Char) : p ≤ p.step c := by
  unfold step
  split
  · exact .inl (Nat.lt_succ_self _)
  · exact .inr ⟨rfl, Nat.le_succ _⟩

theorem le_advance (p : Position) (cs : List Char) : p ≤ p.advance cs := by
  induction cs generalizing p with
  | nil => exact le_refl p
  | cons c cs ih => exact le_trans (p.le_step c) (ih (p.step c))

end Position

namespace Token

-- The scanner only moves on, so the tokens that it finds come in order.
theorem scan_inOrder {r : Reader} {tokens : List Token} (ran : scan r = .ok tokens) :
    (∀ t ∈ tokens, r.position ≤ t.span.start) ∧ InOrder tokens := by
  fun_induction scan r generalizing tokens with
  | case1 r empty =>
    cases ran
    have here : ∀ t ∈ [eof r.position], t = eof r.position := fun t => List.mem_singleton.1
    refine ⟨fun t listed => ?_, fun t listed => ?_, List.pairwise_singleton _ _⟩
    · rw [here t listed]
      exact Position.le_refl _
    · rw [here t listed]
      exact Position.le_refl _
  | case2 => cases ran
  | case3 => cases ran
  | case4 r more token n found rest scanned ih =>
    cases ran
    obtain ⟨p, member, lexeme, fits, rfl, made⟩ := front_ok found
    obtain ⟨filled, text, split⟩ := Pattern.match?_takes member fits
    have next : (r.advance lexeme.length).position = r.position.advance lexeme := by
      rw [Reader.advance, ← split, List.take_left]
    obtain ⟨later, ordered⟩ := ih scanned
    rw [next] at later
    have onward : ∀ t ∈ rest, r.position ≤ t.span.start := fun t listed =>
      Position.le_trans (Position.le_advance _ _) (later t listed)
    cases token with
    | none => exact ⟨onward, ordered⟩
    | some token =>
      obtain ⟨span, -⟩ := Pattern.token?_written member fits made
      refine ⟨List.forall_mem_cons.2 ⟨?_, onward⟩, List.forall_mem_cons.2 ⟨?_, ordered.each⟩,
        List.pairwise_cons.2 ⟨fun t listed => ?_, ordered.between⟩⟩
      · rw [span]
        exact Position.le_refl _
      · rw [span]
        exact Position.le_advance _ _
      · rw [span]
        exact later t listed

end Token

-- Only tokens of the list are read, never the end mark that may have been added to it.
theorem Cursor.prefix_of_closed {tokens ts rest : List Token} {ender : Token}
    (split : closed tokens = ts ++ ender :: rest) : ts <+: tokens := by
  have added : ∃ mark, closed tokens = tokens ++ mark ∧ mark.length ≤ 1 := by
    unfold closed
    split
    · rename_i none
      rw [List.getLast?_eq_none_iff.1 none]
      exact ⟨[_], rfl, Nat.le_refl 1⟩
    · split
      · exact ⟨[], (List.append_nil _).symm, Nat.zero_le 1⟩
      · exact ⟨[_], rfl, Nat.le_refl 1⟩
  obtain ⟨mark, same, short⟩ := added
  have both := split.symm.trans same
  have length := congrArg List.length both
  simp only [List.length_append, List.length_cons] at length
  exact List.prefix_of_prefix_length_le ⟨_, both⟩ ⟨mark, rfl⟩ (by omega)

theorem Phrase.HulledRow.inside {ts : List Token} {phrases : List Phrase} {p q : Phrase}
    (row : HulledRow ts phrases) (listed : p ∈ phrases) (inside : q.Inside p) :
    ∃ us, us.Sublist ts ∧ Hulled us q := by
  obtain ⟨stretches, rfl, hulled⟩ := row
  obtain ⟨us, among, found⟩ := stretch_of_mem hulled listed
  obtain ⟨vs, deeper, found⟩ := found.inside inside
  exact ⟨vs, deeper.trans (List.sublist_flatten_of_mem among), found⟩

theorem Phrase.HulledRow.nested {ts : List Token} {phrases : List Phrase}
    (row : HulledRow ts phrases) (ordered : InOrder ts) :
    (∀ p ∈ phrases, ∀ phrase : Phrase, phrase.Inside p → phrase.Nested) ∧
      phrases.Pairwise fun a b => a.span.stop ≤ b.span.start := by
  refine ⟨fun p listed phrase inside => ?_, ?_⟩
  · obtain ⟨us, among, found⟩ := row.inside listed inside
    exact found.nested (ordered.sublist among)
  · obtain ⟨stretches, rfl, hulled⟩ := row
    exact apart_of_stretches hulled ordered

theorem ofTokens_spans {tokens : List Token} {program : Program}
    (read : Program.ofTokens tokens = .ok program) :
    let phrases := program.body.map Phrase.statement
    (∃ (ts : List Token) (ender : Token) (rest : List Token),
      Cursor.closed tokens = ts ++ ender :: rest ∧ ender.kind = .eof ∧
      Phrase.HulledRow ts phrases) ∧
    (InOrder tokens → (∀ p ∈ phrases, ∀ phrase : Phrase, phrase.Inside p → phrase.Nested) ∧
      phrases.Pairwise fun a b => a.span.stop ≤ b.span.start) ∧
    ∀ source, Token.ofSource source = .ok tokens → InOrder tokens := by
  obtain ⟨ts, ender, rest, m, split, ends, reads⟩ := Parse.ofTokens_reads read
  have row := reads.hulled
  refine ⟨⟨ts, ender, rest, split, ends, row⟩, fun ordered => ?_, fun source scanned => ?_⟩
  · exact row.nested (ordered.sublist (Cursor.prefix_of_closed split).sublist)
  · exact (Token.scan_inOrder scanned).2

-- Stretches from a callee, a prefix, brackets and the cursor, on two lines.
def phrasesSource : String := "f((text) 1);\nvar x, y = [2];"

def phrasesSpans : List Span := [⟨⟨1, 1⟩, ⟨1, 13⟩⟩, ⟨⟨2, 1⟩, ⟨2, 16⟩⟩]

theorem phrasesSource_spans : ∃ tokens program, Token.ofSource phrasesSource = .ok tokens ∧
    Program.ofTokens tokens = .ok program ∧ program.body.map Stmt.span = phrasesSpans ∧
    (∃ (ts : List Token) (ender : Token) (rest : List Token),
      Cursor.closed tokens = ts ++ ender :: rest ∧ ender.kind = .eof ∧
      Phrase.HulledRow ts (program.body.map .statement)) ∧
    ∀ p ∈ program.body.map Phrase.statement, ∀ phrase : Phrase, phrase.Inside p → phrase.Nested := by
  have found : ((Token.ofSource phrasesSource).toOption.any fun tokens =>
      (Program.ofTokens tokens).toOption.any fun program =>
        decide (program.body.map Stmt.span = phrasesSpans)) = true := by
    decide +kernel
  obtain ⟨tokens, scanned, found⟩ := ok_of_any found
  obtain ⟨program, read, spans⟩ := ok_of_any found
  obtain ⟨hulled, nested, ordered⟩ := ofTokens_spans read
  exact ⟨tokens, program, scanned, read, of_decide_eq_true spans, hulled,
    (nested (ordered phrasesSource scanned)).1⟩

end Scriptlet
