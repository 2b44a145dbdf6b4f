import Scriptlet.Proofs.Grammar.Complete.Statement
import Scriptlet.Proofs.Grammar.Literal
import Scriptlet.Proofs.Grammar.Sound.Statement

/-!
The parser accepts exactly the sentences of the grammar, and a sentence has one tree. The main
statement is about lists of lexical tokens with one end mark; `shape` forgets the numbers and the
source stretches of a tree, which the grammar leaves open.
-/

namespace Scriptlet

mutual

def Expr.shape : Expr → Expr
  | .literal _ value => .literal default value
  | .identifier _ name => .identifier default name
  | .call _ callee _ arguments => .call default callee default (Expr.shapes arguments)
  | .list _ items => .list default (Expr.shapes items)
  | .binary _ op left right => .binary default op left.shape right.shape
  | .unary _ op operand => .unary default op operand.shape
  | .cast _ target operand => .cast default target operand.shape
  | .grouping _ inner => .grouping default inner.shape

def Expr.shapes : List Expr → List Expr
  | [] => []
  | e :: es => e.shape :: Expr.shapes es

end

theorem Expr.shapes_eq_nil {es : List Expr} : Expr.shapes es = [] ↔ es = [] := by
  cases es <;> simp [Expr.shapes]

def Declarator.shape (d : Declarator) : Declarator := ⟨d.name, d.value.map Expr.shape, default⟩

def Parameter.shape (p : Parameter) : Parameter := ⟨p.name, default⟩

mutual

def Stmt.shape : Stmt → Stmt
  | .declaration _ fixed ds => .declaration default fixed (ds.map Declarator.shape)
  | .assignment _ name _ op value => .assignment default name default op value.shape
  | .function _ name _ ps body =>
    .function default name default (ps.map Parameter.shape) (Stmt.shapes body)
  | .output _ value => .output default value.shape
  | .throw _ value => .throw default value.shape
  | .expression _ value => .expression default value.shape

def Stmt.shapes : List Stmt → List Stmt
  | [] => []
  | s :: body => s.shape :: Stmt.shapes body

end

-- All tokens are lexical.
def AllLexical (ts : List Token) : Prop := ∀ t ∈ ts, t.Lexical

namespace AllLexical

variable {t : Token} {ts us : List Token}

theorem append (lexical : AllLexical (ts ++ us)) : AllLexical ts ∧ AllLexical us :=
  List.forall_mem_append.1 lexical

theorem cons (lexical : AllLexical (t :: ts)) : t.Lexical ∧ AllLexical ts :=
  List.forall_mem_cons.1 lexical

theorem inside {opener closer : Token} (lexical : AllLexical (opener :: ts ++ [closer])) :
    AllLexical ts := (append (cons lexical).2).1

end AllLexical

mutual

theorem Reads.spells : ∀ {layer n ts e m}, Reads layer n ts e m → AllLexical ts → Spells layer ts e
  | _, _, _, _, _, .tighter loose inner, lexical => .tighter loose (inner.spells lexical)
  | _, _, _, _, _, .binary left operator right, lexical =>
    .binary (left.spells lexical.append.1) operator (right.spells lexical.append.2.cons.2)
  | _, _, _, _, _, .unary signed operand, lexical => .unary signed (operand.spells lexical.cons.2)
  | _, _, _, _, _, .castBefore opens named closes operand, lexical =>
    .castBefore opens named closes (operand.spells lexical.cons.2.cons.2.cons.2)
  | _, _, _, _, _, .literal read, lexical =>
    .literal ((leafOf_iff_writes lexical.cons.1).1 read)
  | _, _, _, _, _, .name named, _ => .name named
  | _, _, _, _, _, .call named opens closes arguments, lexical =>
    .call named opens closes (arguments.spells lexical.cons.2.inside)
  | _, _, _, _, _, .grouping opens closes inner, lexical =>
    .grouping opens closes (inner.spells lexical.inside)
  | _, _, _, _, _, .castAround named opens closes operand, lexical =>
    .castAround named opens closes (operand.spells lexical.cons.2.inside)
  | _, _, _, _, _, .list opens closes items, lexical =>
    .list opens closes (items.spells lexical.inside)

theorem ReadsItems.spells : ∀ {n ts es m}, ReadsItems n ts es m → AllLexical ts → SpellsItems ts es
  | _, _, _, _, .none, _ => .none
  | _, _, _, _, .last item, lexical => .last (item.spells lexical)
  | _, _, _, _, .more item separated rest follows, lexical =>
    .more (item.spells lexical.append.1) separated (rest.spells lexical.append.2.cons.2) follows

end

theorem ReadsDeclarator.spells {n m : NodeId} {ts : List Token} {d : Declarator}
    (reads : ReadsDeclarator n ts d m) (lexical : AllLexical ts) : SpellsDeclarator ts d := by
  cases reads with
  | bare named => exact .bare named
  | initialized named assigns value =>
    exact .initialized named assigns (value.spells lexical.cons.2.cons.2)

theorem ReadsDeclarators.spells {n m : NodeId} {ts : List Token} {ds : List Declarator}
    (reads : ReadsDeclarators n ts ds m) (lexical : AllLexical ts) : SpellsDeclarators ts ds := by
  induction reads with
  | last item => exact .last (item.spells lexical)
  | more item separated _ ih =>
    exact .more (item.spells lexical.append.1) separated (ih lexical.append.2.cons.2)

theorem ReadsParameters.spells {ts : List Token} {ps : List Parameter}
    (reads : ReadsParameters ts ps) : SpellsParameters ts ps := by
  induction reads with
  | none => exact .none
  | last named => exact .last named
  | more named separated _ follows ih => exact .more named separated ih follows

mutual

theorem ReadsStatement.spells : ∀ {n ts stmt m}, ReadsStatement n ts stmt m → AllLexical ts →
    SpellsStatement ts stmt
  | _, _, _, _, .declaration starts names ends, lexical =>
    .declaration starts (names.spells lexical.inside) ends
  | _, _, _, _, .assignment named assigns value ends, lexical =>
    .assignment named assigns (value.spells lexical.cons.2.inside) ends
  | _, _, _, _, .function starts named opens parameters closes begins statements ends, lexical =>
    .function starts named opens parameters.spells closes begins
      (statements.spells lexical.append.1.append.2.cons.2.cons.2) ends
  | _, _, _, _, .output starts value ends, lexical =>
    .output starts (value.spells lexical.inside) ends
  | _, _, _, _, .throw starts value ends, lexical =>
    .throw starts (value.spells lexical.inside) ends
  | _, _, _, _, .expression value ends, lexical => .expression (value.spells lexical.append.1) ends

theorem ReadsBody.spells : ∀ {n ts body m}, ReadsBody n ts body m → AllLexical ts →
    SpellsBody ts body
  | _, _, _, _, .none, _ => .none
  | _, _, _, _, .more first rest, lexical =>
    .more (first.spells lexical.append.1) (rest.spells lexical.append.2)

end

mutual

theorem Spells.reads : ∀ {layer ts e}, Spells layer ts e → AllLexical ts →
    ∀ n, ∃ e' m, Reads layer n ts e' m ∧ e'.shape = e.shape
  | _, _, _, .tighter loose inner, lexical, n => by
    obtain ⟨e', m, reads, same⟩ := inner.reads lexical n
    exact ⟨e', m, .tighter loose reads, same⟩
  | _, _, _, .binary left operator right, lexical, n => by
    obtain ⟨l, m, readsLeft, sameLeft⟩ := left.reads lexical.append.1 n
    obtain ⟨r, k, readsRight, sameRight⟩ := right.reads lexical.append.2.cons.2 m
    exact ⟨_, _, .binary readsLeft operator readsRight, by simp [Expr.shape, sameLeft, sameRight]⟩
  | _, _, _, .unary signed operand, lexical, n => by
    obtain ⟨e, m, reads, same⟩ := operand.reads lexical.cons.2 n
    exact ⟨_, _, .unary signed reads, by simp [Expr.shape, same]⟩
  | _, _, _, .castBefore opens named closes operand, lexical, n => by
    obtain ⟨e, m, reads, same⟩ := operand.reads lexical.cons.2.cons.2.cons.2 n
    exact ⟨_, _, .castBefore opens named closes reads, by simp [Expr.shape, same]⟩
  | _, _, _, .literal written, lexical, _ =>
    ⟨_, _, .literal ((leafOf_iff_writes lexical.cons.1).2 written), rfl⟩
  | _, _, _, .name named, _, _ => ⟨_, _, .name named, rfl⟩
  | _, _, _, .call named opens closes arguments, lexical, n => by
    obtain ⟨es, m, reads, same⟩ := arguments.reads lexical.cons.2.inside (n + 1)
    exact ⟨_, _, .call named opens closes reads, by simp [Expr.shape, same]⟩
  | _, _, _, .grouping opens closes inner, lexical, n => by
    obtain ⟨e, m, reads, same⟩ := inner.reads lexical.inside n
    exact ⟨_, _, .grouping opens closes reads, by simp [Expr.shape, same]⟩
  | _, _, _, .castAround named opens closes operand, lexical, n => by
    obtain ⟨e, m, reads, same⟩ := operand.reads lexical.cons.2.inside n
    exact ⟨_, _, .castAround named opens closes reads, by simp [Expr.shape, same]⟩
  | _, _, _, .list opens closes items, lexical, n => by
    obtain ⟨es, m, reads, same⟩ := items.reads lexical.inside n
    exact ⟨_, _, .list opens closes reads, by simp [Expr.shape, same]⟩

theorem SpellsItems.reads : ∀ {ts es}, SpellsItems ts es → AllLexical ts →
    ∀ n, ∃ es' m, ReadsItems n ts es' m ∧ Expr.shapes es' = Expr.shapes es
  | _, _, .none, _, n => ⟨[], n, .none, rfl⟩
  | _, _, .last item, lexical, n => by
    obtain ⟨e, m, reads, same⟩ := item.reads lexical n
    exact ⟨[e], m, .last reads, by simp [Expr.shapes, same]⟩
  | _, _, .more item separated rest follows, lexical, n => by
    obtain ⟨e, m, reads, same⟩ := item.reads lexical.append.1 n
    obtain ⟨es, k, others, sameOthers⟩ := rest.reads lexical.append.2.cons.2 m
    have filled : es ≠ [] := by
      rintro rfl
      exact follows (Expr.shapes_eq_nil.1 sameOthers.symm)
    exact ⟨e :: es, k, .more reads separated others filled, by simp [Expr.shapes, same, sameOthers]⟩

end

theorem SpellsDeclarator.reads {ts : List Token} {d : Declarator} (spells : SpellsDeclarator ts d)
    (lexical : AllLexical ts) (n : NodeId) :
    ∃ d' m, ReadsDeclarator n ts d' m ∧ d'.shape = d.shape := by
  cases spells with
  | bare named => exact ⟨_, n, .bare named, rfl⟩
  | initialized named assigns value =>
    obtain ⟨e, m, reads, same⟩ := value.reads lexical.cons.2.cons.2 n
    exact ⟨_, m, .initialized named assigns reads, by simp [Declarator.shape, same]⟩

theorem SpellsDeclarators.reads {ts : List Token} {ds : List Declarator}
    (spells : SpellsDeclarators ts ds) (lexical : AllLexical ts) (n : NodeId) :
    ∃ ds' m, ReadsDeclarators n ts ds' m ∧ ds'.map Declarator.shape = ds.map Declarator.shape := by
  induction spells generalizing n with
  | last item =>
    obtain ⟨d, m, reads, same⟩ := item.reads lexical n
    exact ⟨[d], m, .last reads, by simp [same]⟩
  | more item separated _ ih =>
    obtain ⟨d, m, reads, same⟩ := item.reads lexical.append.1 n
    obtain ⟨ds, k, others, sameOthers⟩ := ih lexical.append.2.cons.2 m
    exact ⟨d :: ds, k, .more reads separated others, by simp [same, sameOthers]⟩

theorem SpellsParameters.reads {ts : List Token} {ps : List Parameter}
    (spells : SpellsParameters ts ps) :
    ∃ ps', ReadsParameters ts ps' ∧ ps'.map Parameter.shape = ps.map Parameter.shape := by
  induction spells with
  | none => exact ⟨[], .none, rfl⟩
  | last named => exact ⟨_, .last named, rfl⟩
  | @more name comma us ps span named separated _ follows ih =>
    obtain ⟨others, reads, same⟩ := ih
    have filled : others ≠ [] := by
      rintro rfl
      exact follows (List.map_eq_nil_iff.1 same.symm)
    exact ⟨_, .more named separated reads filled, by simp [Parameter.shape, same]⟩

mutual

theorem SpellsStatement.reads : ∀ {ts stmt}, SpellsStatement ts stmt → AllLexical ts →
    ∀ n, ∃ stmt' m, ReadsStatement n ts stmt' m ∧ stmt'.shape = stmt.shape
  | _, _, .declaration starts names ends, lexical, n => by
    obtain ⟨ds, m, reads, same⟩ := names.reads lexical.inside n
    exact ⟨_, m, .declaration starts reads ends, by simp [Stmt.shape, same]⟩
  | _, _, .assignment named assigns value ends, lexical, n => by
    obtain ⟨e, m, reads, same⟩ := value.reads lexical.cons.2.inside n
    exact ⟨_, m, .assignment named assigns reads ends, by simp [Stmt.shape, same]⟩
  | _, _, .function starts named opens parameters closes begins statements ends, lexical, n => by
    obtain ⟨ps, readsNames, sameNames⟩ := parameters.reads
    obtain ⟨body, m, reads, same⟩ :=
      statements.reads lexical.append.1.append.2.cons.2.cons.2 n
    exact ⟨_, m, .function starts named opens readsNames closes begins reads ends,
      by simp [Stmt.shape, same, sameNames]⟩
  | _, _, .output starts value ends, lexical, n => by
    obtain ⟨e, m, reads, same⟩ := value.reads lexical.inside n
    exact ⟨_, m, .output starts reads ends, by simp [Stmt.shape, same]⟩
  | _, _, .throw starts value ends, lexical, n => by
    obtain ⟨e, m, reads, same⟩ := value.reads lexical.inside n
    exact ⟨_, m, .throw starts reads ends, by simp [Stmt.shape, same]⟩
  | _, _, .expression value ends, lexical, n => by
    obtain ⟨e, m, reads, same⟩ := value.reads lexical.append.1 n
    exact ⟨_, m, .expression reads ends, by simp [Stmt.shape, same]⟩

theorem SpellsBody.reads : ∀ {ts body}, SpellsBody ts body → AllLexical ts →
    ∀ n, ∃ body' m, ReadsBody n ts body' m ∧ Stmt.shapes body' = Stmt.shapes body
  | _, _, .none, _, n => ⟨[], n, .none, rfl⟩
  | _, _, .more first rest, lexical, n => by
    obtain ⟨stmt, m, reads, same⟩ := first.reads lexical.append.1 n
    obtain ⟨body, k, others, sameOthers⟩ := rest.reads lexical.append.2 m
    exact ⟨stmt :: body, k, .more reads others, by simp [Stmt.shapes, same, sameOthers]⟩

end

theorem before_end {tokens ts rest : List Token} {stop ender : Token}
    (split : tokens ++ [stop] = ts ++ ender :: rest) (ends : ender.kind = .eof)
    (free : ∀ t ∈ tokens, t.kind ≠ .eof) : ts = tokens := by
  induction tokens generalizing ts with
  | nil =>
    cases ts with
    | nil => rfl
    | cons t ts => simp at split
  | cons t tokens ih =>
    cases ts with
    | nil =>
      obtain ⟨rfl, -⟩ := List.cons.inj split
      exact absurd ends (free t (by simp))
    | cons u ts =>
      obtain ⟨rfl, later⟩ := List.cons.inj split
      rw [ih later fun t member => free t (by simp [member])]

theorem ofTokens_readsBody {tokens : List Token} {stop : Token} {program : Program}
    (lexical : AllLexical tokens) (ends : stop.kind = .eof)
    (read : Program.ofTokens (tokens ++ [stop]) = .ok program) :
    ∃ m, ReadsBody 0 tokens program.body m := by
  obtain ⟨ts, ender, rest, m, split, ended, reads⟩ := Parse.ofTokens_reads read
  have closed : Closed (tokens ++ [stop]) := Closed.append (by simp [Closed, ends])
  obtain rfl := before_end (closed.closed_eq.symm.trans split) ended fun t member =>
    (lexical t member).kind_ne_eof
  exact ⟨m, reads⟩

theorem ofTokens_spells {tokens : List Token} {stop : Token} {program : Program}
    (lexical : AllLexical tokens) (ends : stop.kind = .eof)
    (read : Program.ofTokens (tokens ++ [stop]) = .ok program) :
    SpellsBody tokens program.body := by
  obtain ⟨m, reads⟩ := ofTokens_readsBody lexical ends read
  exact reads.spells lexical

theorem SpellsBody.ofTokens {tokens : List Token} {stop : Token} {body : List Stmt}
    (lexical : AllLexical tokens) (ends : stop.kind = .eof) (spells : SpellsBody tokens body) :
    ∃ program, Program.ofTokens (tokens ++ [stop]) = .ok program ∧
      Stmt.shapes body = Stmt.shapes program.body := by
  obtain ⟨read, m, reads, same⟩ := spells.reads lexical 0
  obtain ⟨span, ran⟩ := ofTokens_of_readsBody reads ends
  exact ⟨⟨read, span⟩, ran, same.symm⟩

theorem ofTokens_exact (tokens : List Token) (stop : Token) (lexical : AllLexical tokens)
    (ends : stop.kind = .eof) :
    ((∃ program, Program.ofTokens (tokens ++ [stop]) = .ok program) ↔
      ∃ body, SpellsBody tokens body) ∧
    ∀ program, Program.ofTokens (tokens ++ [stop]) = .ok program →
      SpellsBody tokens program.body ∧
      ∀ body, SpellsBody tokens body → Stmt.shapes body = Stmt.shapes program.body := by
  refine ⟨⟨?_, ?_⟩, ?_⟩
  · rintro ⟨program, read⟩
    exact ⟨program.body, ofTokens_spells lexical ends read⟩
  · rintro ⟨body, spells⟩
    obtain ⟨program, read, -⟩ := spells.ofTokens lexical ends
    exact ⟨program, read⟩
  · intro program read
    refine ⟨ofTokens_spells lexical ends read, fun body spells => ?_⟩
    obtain ⟨other, readOther, same⟩ := spells.ofTokens lexical ends
    cases read.symm.trans readOther
    exact same

-- The tokens of `show ~1 * x;`.
def productSentence : List Token :=
  [⟨.showKeyword, "show", default⟩, ⟨.negIntegerLiteral, "~1", default⟩, ⟨.star, "*", default⟩,
   ⟨.identifier, "x", default⟩, ⟨.semicolon, ";", default⟩]

theorem productSentence_lexical : AllLexical productSentence := by
  simp only [AllLexical, productSentence, List.forall_mem_cons]
  refine ⟨.reserved (by decide),
    @Token.Lexical.negative ['1'] _ ⟨by decide, List.forall_mem_singleton.2 rfl⟩ (by decide),
    @Token.Lexical.symbol _ ['*'] _ (by decide), @Token.Lexical.identifier ['x'] _ ?_,
    @Token.Lexical.symbol _ [';'] _ (by decide), by simp⟩
  exact ⟨⟨'x', [], rfl, by decide, by simp⟩, by decide, by decide⟩

theorem productSentence_spells :
    (Program.ofTokens (productSentence ++ [Token.eof .null])).isOk = true ∧
      ∃ body, SpellsBody productSentence body := by
  have accepted : (Program.ofTokens (productSentence ++ [Token.eof .null])).isOk = true := by
    decide +kernel
  refine ⟨accepted, (ofTokens_exact _ (Token.eof .null) productSentence_lexical rfl).1.1 ?_⟩
  cases read : Program.ofTokens (productSentence ++ [Token.eof .null]) with
  | ok program => exact ⟨program, rfl⟩
  | error fault => simp [read, Except.isOk, Except.toBool] at accepted

end Scriptlet
