import Scriptlet.Proofs.Analysis.Growth
import Scriptlet.Proofs.Analysis.Reduced
import Scriptlet.Proofs.Grammar.FirstFault
import Scriptlet.Proofs.Grammar.Spans
import Scriptlet.Proofs.Outcome

/-!
The order of the diagnostics and their places. A check goes through the statements in order and
adds at the end only, so a list of statements has the diagnostics of its statements one after the
other, at the top and in every function. Each is at the start of a phrase of the statement that is
checked, and so at the start of a token there.
-/

namespace Scriptlet

namespace Phrase

variable {p q r : Phrase}

theorem Inside.trans (inner : p.Inside q) (outer : q.Inside r) : p.Inside r := by
  induction outer with
  | self => exact inner
  | part listed _ ih => exact .part listed ih

theorem expression_mem_parts {e part : Expr} (below : part ∈ e.parts) :
    expression part ∈ (expression e).parts := by
  cases e with
  | call node callee calleeSpan arguments =>
    exact List.mem_cons_of_mem _ (List.mem_map_of_mem below)
  | _ => exact List.mem_map_of_mem below

theorem inside_of_node {e n : Expr} (listed : n ∈ e.nodes) :
    (expression n).Inside (expression e) := by
  induction e using Expr.induction_on_parts with
  | whole e ih =>
    rw [Expr.nodes_eq] at listed
    rcases List.mem_append.1 listed with below | here
    · obtain ⟨part, below, deeper⟩ := List.mem_flatMap.1 below
      exact .part (expression_mem_parts below) (ih part below deeper)
    · cases List.mem_singleton.1 here
      exact .self

end Phrase

-- The diagnostic is at the start of the phrase or of one inside it.
def Diagnostic.PointsInto (d : Diagnostic) (p : Phrase) : Prop :=
  ∃ q : Phrase, q.Inside p ∧ d.position = q.span.start

namespace Analysis

variable {a b c : Analysis} {d : Diagnostic} {p q : Phrase} {e : Expr} {s : Stmt}
  {inFunction : Bool} {name : String} {position : Position}

-- From the first analysis to the second there are new diagnostics at the end, all in the phrase.
def Adds (p : Phrase) (a b : Analysis) : Prop :=
  ∃ new, b.diagnostics = a.diagnostics ++ new ∧ ∀ d ∈ new, d.PointsInto p

namespace Adds

theorem nothing (same : b.diagnostics = a.diagnostics) : Adds p a b :=
  ⟨[], by simp [same], by simp⟩

theorem trans (first : Adds p a b) (second : Adds p b c) : Adds p a c := by
  obtain ⟨new, same, placed⟩ := first
  obtain ⟨more, also, alike⟩ := second
  refine ⟨new ++ more, ?_, List.forall_mem_append.2 ⟨placed, alike⟩⟩
  rw [also, same, List.append_assoc]

theorem part (listed : q ∈ p.parts) (adds : Adds q a b) : Adds p a b := by
  obtain ⟨new, same, placed⟩ := adds
  refine ⟨new, same, fun d found => ?_⟩
  obtain ⟨phrase, inside, start⟩ := placed d found
  exact ⟨phrase, inside.trans (.part listed .self), start⟩

theorem report (here : d.position = p.span.start) : Adds p a (a.report d) :=
  ⟨[d], rfl, List.forall_mem_singleton.2 ⟨p, .self, here⟩⟩

theorem foldl {α : Type} {step : Analysis → α → Analysis} {xs : List α}
    (each : ∀ a, ∀ x ∈ xs, Adds p a (step a x)) : Adds p a (xs.foldl step a) := by
  induction xs generalizing a with
  | nil => exact nothing rfl
  | cons x xs ih =>
    have first := each a x List.mem_cons_self
    exact first.trans (ih fun b y later => each b y (List.mem_cons_of_mem x later))

end Adds

theorem flaw_pointsInto {t : SymbolTable} {known : Expr → Value} {n : Expr}
    (found : n.flaw? t known = some d) : d.PointsInto (.expression n) := by
  have failed {position : Position} {outcome : Except ValueFailure Value}
      (found : ValueFailure.diagnostic? position outcome = some d) : d.position = position := by
    cases outcome with
    | ok value => cases found
    | error failure => cases found; rfl
  cases n with
  | literal node written | list node items | grouping node inner => cases found
  | identifier node name =>
    rw [Expr.flaw?] at found
    split at found
    · cases found
    · cases found
      exact ⟨_, .self, rfl⟩
  | call node callee calleeSpan arguments =>
    refine ⟨.name callee calleeSpan, .part List.mem_cons_self .self, ?_⟩
    rw [Expr.flaw?, SymbolTable.callFlaw?] at found
    split at found
    · cases found; rfl
    · split at found
      · cases found
      · cases found; rfl
  | binary node op left right | unary node op operand | cast node target operand =>
    exact ⟨_, .self, failed found⟩

theorem evaluate_adds : Adds (.expression e) a (a.evaluate e) := by
  refine ⟨_, rfl, fun d found => ?_⟩
  rw [Expr.reduce_diagnostics] at found
  obtain ⟨n, listed, flawed⟩ := List.mem_filterMap.1 found
  obtain ⟨phrase, inside, start⟩ := flaw_pointsInto flawed
  exact ⟨phrase, inside.trans (Phrase.inside_of_node listed), start⟩

theorem declare_adds {fixed : Bool} {repeated : Diagnostic} {value : Value}
    (here : position = p.span.start) (also : repeated.position = p.span.start) :
    Adds p a (a.declare name fixed position repeated value) := by
  unfold declare
  split
  · exact .report here
  · split
    · exact .report also
    · exact .nothing rfl

theorem checkDeclarator_adds {fixed : Bool} {d : Declarator} :
    Adds (.declarator d) a (checkDeclarator fixed a d) := by
  unfold checkDeclarator
  dsimp only
  split
  · exact declare_adds rfl rfl
  · rename_i e given
    have listed : Phrase.expression e ∈ (Phrase.declarator d).parts := by simp [Phrase.parts, given]
    exact (evaluate_adds.part listed).trans (declare_adds rfl rfl)

theorem checkAssignment_adds {span nameSpan : Span} {op : AssignOp} :
    Adds (.statement (.assignment span name nameSpan op e)) a
      (a.checkAssignment name nameSpan.start op e) := by
  let target := Phrase.name name nameSpan
  let whole := Phrase.statement (.assignment span name nameSpan op e)
  have named : target ∈ whole.parts := List.mem_cons_self
  have valued : Phrase.expression e ∈ whole.parts := List.mem_cons_of_mem _ List.mem_cons_self
  have evaluated : Adds whole a (a.evaluate e) := evaluate_adds.part valued
  refine evaluated.trans ?_
  unfold checkAssignment
  dsimp only
  split
  · exact .part named (.report rfl)
  · split
    · exact .part named (.report rfl)
    · cases op with
      | assign => exact .nothing rfl
      | compound op =>
        refine .part valued ⟨_, rfl, fun d found => ⟨.expression e, .self, ?_⟩⟩
        unfold combine at found
        split at found
        · cases found
        · cases List.mem_singleton.1 found
          rfl

theorem register_adds {nameSpan : Span} {parameters : List String} :
    Adds (.name name nameSpan) a (a.register name parameters nameSpan.start) := by
  unfold register
  split
  · exact .report rfl
  · split
    · exact .report rfl
    · split
      · exact .report rfl
      · exact .nothing rfl

theorem opened_adds {span nameSpan : Span} {parameters : List Parameter} {body : List Stmt} :
    Adds (.statement (.function span name nameSpan parameters body)) a
      (a.opened name nameSpan.start parameters) := by
  refine .trans (.part List.mem_cons_self register_adds) (.trans (.nothing rfl) (.foldl ?_))
  intro b parameter listed
  have inside : Phrase.parameter parameter ∈ parameters.map Phrase.parameter :=
    List.mem_map_of_mem listed
  exact .part (List.mem_cons_of_mem _ (List.mem_append_left _ inside)) (declare_adds rfl rfl)

mutual

theorem check_adds {inFunction : Bool} : ∀ {s : Stmt} {a : Analysis},
    Adds (.statement s) a (a.check inFunction s)
  | .declaration .., _ => .foldl fun _ _ listed =>
    .part (List.mem_map_of_mem listed) checkDeclarator_adds
  | .assignment .., _ => checkAssignment_adds
  | .function .., _ => by
    rw [check_function]
    refine opened_adds.trans (checkAll_adds fun s listed => ?_)
    exact List.mem_append_right _ (List.mem_map_of_mem listed)
  | .output .., _ | .expression .., _ => .part List.mem_cons_self evaluate_adds
  | .throw .., _ => by
    rw [check]
    split
    · exact .part List.mem_cons_self evaluate_adds
    · exact .trans (.part List.mem_cons_self evaluate_adds) (.report rfl)

theorem checkAll_adds {inFunction : Bool} : ∀ {body : List Stmt} {a : Analysis} {p : Phrase},
    (∀ s ∈ body, .statement s ∈ p.parts) → Adds p a (a.checkAll inFunction body)
  | [], _, _, _ => .nothing rfl
  | s :: _, _, _, listed =>
    .trans (.part (listed s List.mem_cons_self) check_adds)
      (checkAll_adds fun s later => listed s (List.mem_cons_of_mem _ later))

end

-- What the check of a statement adds.
def reported (inFunction : Bool) (a : Analysis) (s : Stmt) : List Diagnostic :=
  (a.check inFunction s).diagnostics.drop a.diagnostics.length

-- What the check of a list adds, each statement on its own.
def reports (inFunction : Bool) (a : Analysis) : List Stmt → List (List Diagnostic)
  | [] => []
  | s :: rest => a.reported inFunction s :: (a.check inFunction s).reports inFunction rest

theorem check_reported :
    (a.check inFunction s).diagnostics = a.diagnostics ++ a.reported inFunction s :=
  (List.prefix_iff_eq_append.1 check_grows).symm

theorem checkAll_reports (body : List Stmt) : (a.checkAll inFunction body).diagnostics =
    a.diagnostics ++ (a.reports inFunction body).flatten := by
  induction body generalizing a with
  | nil => simp [checkAll, reports]
  | cons s rest ih =>
    rw [checkAll, ih, check_reported, reports, List.flatten_cons, List.append_assoc]

theorem reported_pointsInto (found : d ∈ a.reported inFunction s) :
    d.PointsInto (.statement s) := by
  have adds : Adds (.statement s) a (a.check inFunction s) := check_adds
  obtain ⟨new, same, placed⟩ := adds
  rw [check_reported] at same
  exact placed d (List.append_cancel_left same ▸ found)

theorem exists_first {body : List Stmt} {rest : List Diagnostic}
    (found : (a.reports inFunction body).flatten = d :: rest) :
    ∃ before s after more, body = before ++ s :: after ∧
      (a.checkAll inFunction before).diagnostics = a.diagnostics ∧
      (a.checkAll inFunction before).reported inFunction s = d :: more := by
  induction body generalizing a with
  | nil => cases found
  | cons s after ih =>
    rw [reports, List.flatten_cons] at found
    cases here : a.reported inFunction s with
    | cons first more =>
      rw [here] at found
      obtain ⟨rfl, -⟩ := List.cons.inj found
      exact ⟨[], s, after, more, rfl, rfl, here⟩
    | nil =>
      rw [here] at found
      obtain ⟨before, t, after, more, rfl, clean, first⟩ := ih found
      have same : (a.check inFunction s).diagnostics = a.diagnostics := by
        simp [check_reported, here]
      exact ⟨s :: before, t, after, more, rfl, clean.trans same, first⟩

-- The check of the program comes to the list in this state.
inductive Reaches (program : List Stmt) : Bool → Analysis → List Stmt → Prop where
  | top : Reaches program false empty program
  | body {inFunction : Bool} {a : Analysis} {before after body : List Stmt} {span nameSpan : Span}
      {name : String} {parameters : List Parameter}
      (outer : Reaches program inFunction a
        (before ++ .function span name nameSpan parameters body :: after)) :
      Reaches program true
        ((a.checkAll inFunction before).opened name nameSpan.start parameters) body

namespace Reaches

variable {program body : List Stmt}

theorem grows (reached : Reaches program inFunction a body) :
    (a.checkAll inFunction body).diagnostics <+: (empty.checkAll false program).diagnostics := by
  induction reached with
  | top => exact List.prefix_rfl
  | body outer ih =>
    rw [checkAll_append, checkAll, check_function] at ih
    exact (checkAll_grows (a := exit _)).trans ih

theorem inside (reached : Reaches program inFunction a body) : ∀ s ∈ body, ∃ whole ∈ program,
    (Phrase.statement s).Inside (.statement whole) := by
  induction reached with
  | top => exact fun s listed => ⟨s, listed, .self⟩
  | @body _ _ before _ body span nameSpan name parameters outer ih =>
    intro s listed
    obtain ⟨whole, among, deeper⟩ := ih _ (List.mem_append_right before List.mem_cons_self)
    have part : Phrase.statement s ∈
        (Phrase.statement (.function span name nameSpan parameters body)).parts :=
      List.mem_append_right _ (List.mem_map_of_mem listed)
    exact ⟨whole, among, .trans (.part part .self) deeper⟩

end Reaches

end Analysis

-- A token of the source, other than its end, that is inside the stretch.
def Token.LiesIn (t : Token) (span : Span) : Prop :=
  t.kind ≠ .eof ∧ span.start ≤ t.span.start ∧ t.span.stop ≤ span.stop

theorem Phrase.Hulled.starts {ts : List Token} {p q : Phrase} (hulled : Hulled ts p)
    (ordered : InOrder ts) (inside : q.Inside p) :
    ∃ t ∈ ts, q.span.start = t.span.start ∧ p.span.start ≤ t.span.start ∧
      t.span.stop ≤ p.span.stop := by
  obtain ⟨us, among, inner⟩ := hulled.inside inside
  obtain ⟨t, -, first, -, start, -⟩ := inner.covers.ends
  have listed : t ∈ ts := among.mem (List.mem_of_mem_head? first)
  have single : [t].Sublist ts := List.singleton_sublist.2 listed
  exact ⟨t, listed, start.symm, Span.Covers.within ordered single hulled.covers (.single t)⟩

-- The statements are read from tokens of the source, in order, and never from its end.
theorem exists_row {source : String} {program : Program}
    (read : Program.ofSource source = .ok program) :
    ∃ tokens ts : List Token, Token.ofSource source = .ok tokens ∧
      (∀ t ∈ ts, t ∈ tokens ∧ t.kind ≠ .eof) ∧ InOrder ts ∧
      Phrase.HulledRow ts (program.body.map .statement) := by
  unfold Program.ofSource at read
  split at read
  · cases read
  · rename_i tokens scanned
    have ordered : InOrder tokens := (Token.scan_inOrder scanned).2
    obtain ⟨ts, stop, rfl, lexical⟩ := Token.ofSource_ended scanned
    obtain ⟨m, reads⟩ := ofTokens_readsBody lexical rfl read
    have proper : ∀ t ∈ ts, t ∈ ts ++ [Token.eof stop] ∧ t.kind ≠ .eof := fun t listed =>
      ⟨List.mem_append_left _ listed, (lexical t listed).kind_ne_eof⟩
    exact ⟨_, ts, scanned, proper, ordered.sublist (List.sublist_append_left ts _), reads.hulled⟩

theorem Analysis.Reaches.token {program before after : List Stmt} {inFunction : Bool}
    {a : Analysis} {s : Stmt} {d : Diagnostic} {ts : List Token}
    (reached : Reaches program inFunction a (before ++ s :: after))
    (found : d ∈ (a.checkAll inFunction before).reported inFunction s) (ordered : InOrder ts)
    (row : Phrase.HulledRow ts (program.map .statement)) :
    ∃ t ∈ ts, d.position = t.span.start ∧ s.span.start ≤ t.span.start ∧
      t.span.stop ≤ s.span.stop := by
  obtain ⟨whole, among, inside⟩ := reached.inside s (by simp)
  obtain ⟨us, part, hulled⟩ := row.inside (List.mem_map_of_mem among) inside
  obtain ⟨phrase, inner, start⟩ := reported_pointsInto found
  obtain ⟨t, listed, same, lies⟩ := hulled.starts (ordered.sublist part) inner
  exact ⟨t, part.mem listed, start.trans same, lies⟩

-- The diagnostics of a source are in the order of its statements, inside them, and a compilation
-- that does not allow them fails inside the first statement that has any.
structure Placed (source : String) (tokens : List Token) (program : Program)
    (analysis : Analysis) : Prop where
  whole : analysis.diagnostics = (Analysis.empty.reports false program.body).flatten
  ordered : ∀ inFunction a body, Analysis.Reaches program.body inFunction a body →
    ∃ later, analysis.diagnostics = a.diagnostics ++ (a.reports inFunction body).flatten ++ later
  within : ∀ inFunction a before s after,
    Analysis.Reaches program.body inFunction a (before ++ s :: after) →
    ∀ d ∈ (a.checkAll inFunction before).reported inFunction s,
      ∃ t ∈ tokens, d.position = t.span.start ∧ t.LiesIn s.span
  first : ∀ options fault, compile source options = .error fault →
    ∃ before s after d more, program.body = before ++ s :: after ∧
      (Analysis.empty.checkAll false before).diagnostics = [] ∧
      (Analysis.empty.checkAll false before).reported false s = d :: more ∧
      fault = ⟨.semanticErrors analysis.diagnostics.length, d.position⟩ ∧
      ∃ t ∈ tokens, fault.position = t.span.start ∧ t.LiesIn s.span

theorem compile_error {source : String} {options : CompileOptions} {program : Program}
    {analysis : Analysis} {fault : Fault} (checked : check source = .ok (program, analysis))
    (failed : compile source options = .error fault) :
    ∃ d rest, analysis.diagnostics = d :: rest ∧
      fault = ⟨.semanticErrors analysis.diagnostics.length, d.position⟩ := by
  simp only [compile, checked] at failed
  split at failed
  · rename_i d rest found _
    cases failed
    exact ⟨d, rest, found, by rw [found]; rfl⟩
  · cases failed

theorem check_placed {source : String} {program : Program} {analysis : Analysis}
    (checked : check source = .ok (program, analysis)) :
    ∃ tokens, Token.ofSource source = .ok tokens ∧ Placed source tokens program analysis := by
  obtain ⟨read, rfl⟩ := check_eq_ok.1 checked
  obtain ⟨tokens, ts, scanned, proper, inOrder, row⟩ := exists_row read
  have whole : (Analysis.ofProgram program).diagnostics =
      (Analysis.empty.reports false program.body).flatten := Analysis.checkAll_reports program.body
  have within : ∀ inFunction a before s after,
      Analysis.Reaches program.body inFunction a (before ++ s :: after) →
      ∀ d ∈ (a.checkAll inFunction before).reported inFunction s,
        ∃ t ∈ tokens, d.position = t.span.start ∧ t.LiesIn s.span := by
    intro inFunction a before s after reached d found
    obtain ⟨t, listed, start, lies⟩ := reached.token found inOrder row
    obtain ⟨known, notEnd⟩ := proper t listed
    exact ⟨t, known, start, notEnd, lies⟩
  refine ⟨tokens, scanned, whole, fun inFunction a body reached => ?_, within, ?_⟩
  · obtain ⟨later, same⟩ := reached.grows
    rw [Analysis.checkAll_reports] at same
    exact ⟨later, same.symm⟩
  · intro options fault failed
    obtain ⟨d, rest, found, rfl⟩ := compile_error checked failed
    obtain ⟨before, s, after, more, split, clean, first⟩ :=
      Analysis.exists_first (whole.symm.trans found)
    have reached : Analysis.Reaches program.body false .empty (before ++ s :: after) :=
      split ▸ .top
    have placed := within false .empty before s after reached d (first ▸ List.mem_cons_self)
    exact ⟨before, s, after, d, more, split, clean, first, rfl, placed⟩

-- Two flaws inside a function, and one in a statement after it.
def scatteredSource : String := "var x = 1;\nfunc f(x) \x7b show y; show 1 / 0; \x7d\nx = z + x;"

theorem scatteredSource_placed : ∃ tokens program analysis fault,
    check scatteredSource = .ok (program, analysis) ∧
    analysis.diagnostics.map (·.position) = [⟨2, 18⟩, ⟨2, 26⟩, ⟨3, 5⟩] ∧
    compile scatteredSource {} = .error fault ∧ fault.position = ⟨2, 18⟩ ∧
    Token.ofSource scatteredSource = .ok tokens ∧
    Placed scatteredSource tokens program analysis := by
  have found : ((check scatteredSource).toOption.any fun checked =>
      decide (checked.2.diagnostics.map (·.position) = [⟨2, 18⟩, ⟨2, 26⟩, ⟨3, 5⟩])) = true := by
    decide +kernel
  have faulty : faultOf? (compile scatteredSource {}) = some ⟨.semanticErrors 3, ⟨2, 18⟩⟩ := by
    decide +kernel
  obtain ⟨⟨program, analysis⟩, checked, positions⟩ := ok_of_any found
  obtain ⟨tokens, scanned, placed⟩ := check_placed checked
  exact ⟨tokens, program, analysis, _, checked, of_decide_eq_true positions,
    error_of_faultOf? faulty, rfl, scanned, placed⟩

end Scriptlet
