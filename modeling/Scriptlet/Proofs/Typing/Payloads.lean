import Scriptlet.Proofs.Target.Template
import Scriptlet.Proofs.Tree.Payloads
import Scriptlet.Proofs.Typing.Specialisation

/-!
Payloads do not matter. Two accepted programs that differ in payloads only have the same types on
file, node by node, and their scripts are one template, filled with the spellings of their own
literals: lowering looks at types only, writes every literal down, and writes it once.
-/

namespace Scriptlet

-- How a literal is written in a script.
def Literal.spelling (written : Literal) : String := (Target.literal written).print

def Expr.spellings (e : Expr) : List String := e.payloads.map Literal.spelling

section

variable {known : Tags}

theorem Literal.tag_of_blank {written written' : Literal} (same : written.blank = written'.blank) :
    written.value.tag = written'.value.tag := by
  cases written <;> cases written' <;> first | rfl | cases same

theorem Expr.spellings_eq (e : Expr) :
    e.spellings = e.parts.flatMap Expr.spellings ++ e.payload?.toList.map Literal.spelling := by
  unfold Expr.spellings
  rw [Expr.payloads_eq, List.map_append, List.map_flatMap]

theorem Expr.spellings_inner {e : Expr} (inner : e.payload? = none) :
    e.spellings = e.parts.flatMap Expr.spellings := by
  rw [Expr.spellings_eq, inner, Option.toList_none, List.map_nil, List.append_nil]

theorem Expr.spellings_single {e part : Expr} (inner : e.payload? = none)
    (only : e.parts = [part]) :
    e.spellings = part.spellings := by
  rw [Expr.spellings_inner inner, only, List.flatMap_singleton]

-- What has the type `empty` carries nothing: it is a name, or the literal `empty` in parentheses
-- and casts.
theorem Expr.spellings_of_empty {e : Expr} (empty : e.tag known = .empty) : e.spellings = [] := by
  induction e using induction_on_parts with
  | whole e ih =>
    cases e with
    | literal node written => cases written <;> first | rfl | cases empty
    | identifier node name => rfl
    | call | list => cases empty
    | binary node op left right => exact absurd empty (Tag.ofBinary_ne_empty _ _ _)
    | unary node op operand => exact absurd empty (Tag.ofUnary_ne_empty _ _)
    | cast node target operand =>
      rw [Expr.spellings_single rfl rfl]
      exact ih operand (by simp [Expr.parts]) (Tag.of_ofCast_empty empty)
    | grouping node inner =>
      rw [Expr.spellings_single rfl rfl]
      exact ih inner (by simp [Expr.parts]) empty

end

namespace Target

variable {x x' y y' : Expr} {spellings spellings' more more' : List String}
  {tag left right : Option Tag}

-- Where an operand is replaced by a constant, there is nothing in it to lose.
def Spared (tag : Option Tag) (spellings spellings' : List String) : Prop :=
  tag = some .empty → spellings = [] ∧ spellings' = []

theorem numericOperand_twin (twin : Expr.Twin x x' spellings spellings')
    (spared : Spared tag spellings spellings') :
    Expr.Twin (numericOperand x tag) (numericOperand x' tag) spellings spellings' := by
  unfold numericOperand
  split
  · obtain ⟨rfl, rfl⟩ := spared rfl
    exact .fixed _
  · exact twin

theorem textOf_twin {tag : Tag} (twin : Expr.Twin x x' spellings spellings')
    (spared : Spared (some tag) spellings spellings') :
    Expr.Twin (textOf x tag) (textOf x' tag) spellings spellings' := by
  cases tag with
  | text => exact twin
  | state => exact twin.around "(\"YES\" if " " else \"NO\")" rfl rfl
  | empty =>
    obtain ⟨rfl, rfl⟩ := spared rfl
    exact .fixed _
  | integer | point => exact .call (.single twin) _
  | list | unknown =>
    apply Expr.Twin.call
    simpa using Expr.TwinAll.cons twin (.single (.fixed (.boolean false)))

theorem textOperand_twin (twin : Expr.Twin x x' spellings spellings')
    (spared : Spared tag spellings spellings') :
    Expr.Twin (textOperand x tag) (textOperand x' tag) spellings spellings' := by
  cases tag with
  | none => exact twin
  | some tag => exact textOf_twin twin spared

theorem condition_twin (tag : Option Tag) (twin : Expr.Twin x x' spellings spellings') :
    Expr.Twin (condition x tag) (condition x' tag) spellings spellings' := by
  unfold condition
  split
  · exact .falseAfter (.single twin)
  · exact twin

theorem binary_twin (op : BinaryOp) (whole : Option Tag)
    (first : Expr.Twin x x' spellings spellings') (second : Expr.Twin y y' more more')
    (spared : Spared left spellings spellings') (spared' : Spared right more more') :
    Expr.Twin (binary op whole left right x y) (binary op whole left right x' y')
      (spellings ++ more) (spellings' ++ more') := by
  cases op with
  | logical op =>
    have left := Expr.Twin.call (.single (condition_twin left first)) "bool"
    have right := Expr.Twin.call (.single (condition_twin right second)) "bool"
    cases op with
    | or => exact left.binary right _
    | and => exact left.binary right _
  | comparison op =>
    simp only [binary]
    split
    · exact .falseAfter (.cons first (.single second))
    · exact first.binary second _
  | arithmetic op =>
    simp only [binary]
    split
    · exact (textOperand_twin first spared).binary (textOperand_twin second spared') _
    · exact (numericOperand_twin first spared).binary (numericOperand_twin second spared') _

theorem cast_twin (target : CastTarget) (twin : Expr.Twin x x' spellings spellings')
    (spared : Spared tag spellings spellings') :
    Expr.Twin (cast target tag x) (cast target tag x') spellings spellings' := by
  unfold cast
  split
  · exact twin
  · exact twin
  · exact textOf_twin twin (by rintro ⟨⟩)
  · exact textOf_twin twin (by rintro ⟨⟩)
  · exact .call (.single twin) _

theorem compound_twin (name : String) (op : Arithmetic) (target : Option Tag)
    (twin : Expr.Twin x x' spellings spellings') (spared : Spared tag spellings spellings') :
    Stmt.TwinAll [compound name op target tag x] [compound name op target tag x'] spellings
      spellings' := by
  have right := numericOperand_twin twin spared
  -- The ways to write it down without joining texts.
  have plain : ∀ s s' : Stmt,
      (s = .augment name op (numericOperand x tag) ∧
        s' = .augment name op (numericOperand x' tag)) ∨
      (∃ y, s = .assign name (.binary (.arithmetic op) y (numericOperand x tag)) ∧
        s' = .assign name (.binary (.arithmetic op) y (numericOperand x' tag))) →
      Stmt.TwinAll [s] [s'] spellings spellings' := by
    rintro s s' (⟨rfl, rfl⟩ | ⟨y, rfl, rfl⟩)
    · exact .line right _ (fun _ _ => rfl) fun _ _ => rfl
    · exact .line ((Expr.Twin.fixed y).binary right _) _ (fun _ _ => rfl) fun _ _ => rfl
  unfold compound
  dsimp only
  split
  · exact .line (textOf_twin twin spared) _ (fun _ _ => rfl) fun _ _ => rfl
  · exact .line ((Expr.Twin.fixed _).binary twin _) _ (fun _ _ => rfl) fun _ _ => rfl
  · apply plain
    split
    · exact .inr ⟨_, rfl, rfl⟩
    · exact .inr ⟨_, rfl, rfl⟩
    · exact .inr ⟨_, rfl, rfl⟩
    · exact .inl ⟨rfl, rfl⟩

end Target

section

variable {final final' : Analysis} {known : Tags}

-- Two expressions have the same types on file, and the code for them differs only in the spellings
-- of their literals.
structure Expr.Matched (final final' : Analysis) (known : Tags) (e e' : Expr) : Prop where
  tag : e.tag known = e'.tag known
  nodes : e.nodes.map (fun n => final.tag? n.id) = e'.nodes.map fun n => final'.tag? n.id
  code : Target.Expr.Twin (e.lower final) (e'.lower final') e.spellings e'.spellings

structure Expr.MatchedAll (final final' : Analysis) (es es' : List Expr) : Prop where
  nodes : (es.flatMap Expr.nodes).map (fun n => final.tag? n.id) =
    (es'.flatMap Expr.nodes).map fun n => final'.tag? n.id
  code : Target.Expr.TwinAll (Expr.lowerAll final es) (Expr.lowerAll final' es')
    (es.flatMap Expr.spellings) (es'.flatMap Expr.spellings)

namespace Expr

variable {e e' : Expr}

theorem Matched.filed (matched : Matched final final' known e e') (typed : e.Typed final known)
    (typed' : e'.Typed final' known) : final.tag? e.id = final'.tag? e'.id := by
  rw [typed.own, typed'.own, matched.tag]

theorem Matched.spared (matched : Matched final final' known e e')
    (typed' : e'.Typed final' known) :
    Target.Spared (final'.tag? e'.id) e.spellings e'.spellings := by
  rw [Target.Spared, typed'.own, Option.some.injEq]
  intro empty
  exact ⟨spellings_of_empty (matched.tag.trans empty), spellings_of_empty empty⟩

theorem lowerAll_matched {es es' : List Expr} (same : alikeAll (blankAll es) (blankAll es') = true)
    (each : ∀ e ∈ es, ∀ e' ∈ es', e.blank.alike e'.blank = true → Matched final final' known e e') :
    MatchedAll final final' es es' := by
  induction es generalizing es' with
  | nil =>
    cases es' with
    | nil => exact ⟨rfl, .nil⟩
    | cons => cases same
  | cons e es ih =>
    cases es' with
    | nil => cases same
    | cons e' es' =>
      rw [blankAll, blankAll, alikeAll, Bool.and_eq_true] at same
      have first := each e List.mem_cons_self e' List.mem_cons_self same.1
      have rest := ih same.2 fun e listed e' listed' =>
        each e (List.mem_cons_of_mem _ listed) e' (List.mem_cons_of_mem _ listed')
      refine ⟨?_, .cons first.code rest.code⟩
      rw [List.flatMap_cons, List.flatMap_cons, List.map_append, List.map_append, first.nodes,
        rest.nodes]

theorem twin_of_part {part part' : Expr} {x x' : Target.Expr} (inner : e.payload? = none)
    (only : e.parts = [part]) (inner' : e'.payload? = none) (only' : e'.parts = [part'])
    (twin : Target.Expr.Twin x x' part.spellings part'.spellings) :
    Target.Expr.Twin x x' e.spellings e'.spellings := by
  rwa [spellings_single inner only, spellings_single inner' only']

-- Both runs at once, by induction over one of the two trees.
theorem lower_matched (same : e.blank.alike e'.blank = true) (typed : e.Typed final known)
    (typed' : e'.Typed final' known) : Matched final final' known e e' := by
  induction e using induction_on_parts generalizing e' with
  | whole e ih =>
    have parts : ∀ part ∈ e.parts, ∀ part' ∈ e'.parts, part.blank.alike part'.blank = true →
        Matched final final' known part part' := by
      intro part below part' below' alike
      exact ih part below alike (typed.part below) (typed'.part below')
    -- The type of the whole follows from those of the parts, and it is on file in both runs.
    suffices e.tag known = e'.tag known ∧
        (e.parts.flatMap nodes).map (fun n => final.tag? n.id) =
          (e'.parts.flatMap nodes).map (fun n => final'.tag? n.id) ∧
        (final.tag? e.id = final'.tag? e'.id →
          Target.Expr.Twin (e.lower final) (e'.lower final') e.spellings e'.spellings) by
      obtain ⟨tag, inner, code⟩ := this
      have filed : final.tag? e.id = final'.tag? e'.id := by rw [typed.own, typed'.own, tag]
      refine ⟨tag, ?_, code filed⟩
      rw [nodes_eq, nodes_eq, List.map_append, List.map_append, inner, List.map_singleton,
        List.map_singleton, filed]
    cases e with
    | literal node written =>
      cases e' with
      | literal node' written' =>
        have same : written.blank = written'.blank := of_decide_eq_true same
        refine ⟨Literal.tag_of_blank same, rfl, fun _ => ?_⟩
        cases written with
        | empty =>
          cases written' with
          | empty => exact .fixed _
          | _ => cases same
        | integer | point | state | text =>
          cases written' with
          | empty => cases same
          | _ => exact Twins.hole _ _
      | _ => cases same
    | identifier node name =>
      cases e' with
      | identifier node' name' =>
        cases of_decide_eq_true same
        exact ⟨rfl, rfl, fun _ => .fixed _⟩
      | _ => cases same
    | call node callee span arguments =>
      cases e' with
      | call node' callee' span' arguments' =>
        rw [blank, blank, alike, Bool.and_eq_true, decide_eq_true_eq] at same
        obtain ⟨rfl, same⟩ := same
        have items := lowerAll_matched same parts
        refine ⟨rfl, items.nodes, fun _ => ?_⟩
        rw [spellings_inner rfl, spellings_inner rfl]
        exact .call items.code _
      | _ => cases same
    | list node elements =>
      cases e' with
      | list node' elements' =>
        have items := lowerAll_matched same parts
        refine ⟨rfl, items.nodes, fun _ => ?_⟩
        rw [spellings_inner rfl, spellings_inner rfl]
        exact .listed items.code "[" "]" rfl rfl
      | _ => cases same
    | binary node op left right =>
      cases e' with
      | binary node' op' left' right' =>
        rw [blank, blank, alike, Bool.and_eq_true, Bool.and_eq_true, decide_eq_true_eq] at same
        obtain ⟨⟨rfl, sameLeft⟩, sameRight⟩ := same
        have leftTyped : left'.Typed final' known := typed'.part (by simp [Expr.parts])
        have rightTyped : right'.Typed final' known := typed'.part (by simp [Expr.parts])
        have first := parts left (by simp [Expr.parts]) left' (by simp [Expr.parts]) sameLeft
        have second := parts right (by simp [Expr.parts]) right' (by simp [Expr.parts]) sameRight
        refine ⟨?_, ?_, fun filed => ?_⟩
        · rw [tag, tag, first.tag, second.tag]
        · simp [Expr.parts, first.nodes, second.nodes]
        · simp only [Expr.id, Expr.node] at filed
          rw [lower, lower, filed, first.filed (typed.part (by simp [Expr.parts])) leftTyped,
            second.filed (typed.part (by simp [Expr.parts])) rightTyped, spellings_inner rfl,
            spellings_inner rfl]
          simpa [Expr.parts] using Target.binary_twin op (final'.tag? node'.id) first.code
            second.code (first.spared leftTyped) (second.spared rightTyped)
      | _ => cases same
    | unary node op operand =>
      cases e' with
      | unary node' op' operand' =>
        rw [blank, blank, alike, Bool.and_eq_true, decide_eq_true_eq] at same
        obtain ⟨rfl, same⟩ := same
        have inner := parts operand (by simp [Expr.parts]) operand' (by simp [Expr.parts]) same
        refine ⟨?_, ?_, fun _ => ?_⟩
        · rw [tag, tag, inner.tag]
        · simpa [Expr.parts] using inner.nodes
        · refine twin_of_part rfl rfl rfl rfl ?_
          cases op with
          | not =>
            rw [lower, lower, inner.filed (typed.part (by simp [Expr.parts]))
              (typed'.part (by simp [Expr.parts]))]
            exact (Target.condition_twin _ inner.code).around "(not " ")" rfl rfl
          | negate => exact inner.code.around "(-" ")" rfl rfl
      | _ => cases same
    | cast node target operand =>
      cases e' with
      | cast node' target' operand' =>
        rw [blank, blank, alike, Bool.and_eq_true, decide_eq_true_eq] at same
        obtain ⟨rfl, same⟩ := same
        have inner := parts operand (by simp [Expr.parts]) operand' (by simp [Expr.parts]) same
        have typed' : operand'.Typed final' known := typed'.part (by simp [Expr.parts])
        refine ⟨?_, ?_, fun _ => ?_⟩
        · rw [tag, tag, inner.tag]
        · simpa [Expr.parts] using inner.nodes
        · refine twin_of_part rfl rfl rfl rfl ?_
          rw [lower, lower, inner.filed (typed.part (by simp [Expr.parts])) typed']
          exact Target.cast_twin target inner.code (inner.spared typed')
      | _ => cases same
    | grouping node inner =>
      cases e' with
      | grouping node' inner' =>
        rw [blank, blank, alike] at same
        have inside := parts inner (by simp [Expr.parts]) inner' (by simp [Expr.parts]) same
        refine ⟨?_, ?_, fun _ => ?_⟩
        · rw [tag, tag, inside.tag]
        · simpa [Expr.parts] using inside.nodes
        · exact twin_of_part rfl rfl rfl rfl (inside.code.around "(" ")" rfl rfl)
      | _ => cases same

end Expr

-- Two lists of expressions have the same types on file, two lists of right sides the same types of
-- targets, and the code for them differs only in the spellings of their literals.
structure Matched (final final' : Analysis) (roots roots' updates updates' : List Expr)
    (code code' : List Target.Stmt) : Prop where
  tags : (roots.flatMap Expr.nodes).map (fun n => final.tag? n.id) =
    (roots'.flatMap Expr.nodes).map fun n => final'.tag? n.id
  targets : updates.map (fun e => final.targetTag? e.id) =
    updates'.map fun e => final'.targetTag? e.id
  code : Target.Stmt.TwinAll code code' (roots.flatMap Expr.spellings)
    (roots'.flatMap Expr.spellings)

namespace Matched

variable {roots roots' updates updates' more more' : List Expr} {code code' : List Target.Stmt}

theorem fixed (code : List Target.Stmt) : Matched final final' [] [] [] [] code code :=
  ⟨rfl, rfl, .fixed code⟩

theorem append {later later' : List Expr} {next next' : List Target.Stmt}
    (first : Matched final final' roots roots' updates updates' code code')
    (second : Matched final final' more more' later later' next next') :
    Matched final final' (roots ++ more) (roots' ++ more') (updates ++ later) (updates' ++ later')
      (code ++ next) (code' ++ next') := by
  refine ⟨?_, ?_, ?_⟩
  · rw [List.flatMap_append, List.flatMap_append, List.map_append, List.map_append, first.tags,
      second.tags]
  · rw [List.map_append, List.map_append, first.targets, second.targets]
  · rw [List.flatMap_append, List.flatMap_append]
    exact first.code.append second.code

theorem single {e e' : Expr} (matched : e.Matched final final' known e')
    (targets : updates.map (fun e => final.targetTag? e.id) =
      updates'.map fun e => final'.targetTag? e.id)
    (twins : Target.Stmt.TwinAll code code' e.spellings e'.spellings) :
    Matched final final' [e] [e'] updates updates' code code' := by
  refine ⟨?_, targets, ?_⟩
  · simpa using matched.nodes
  · simpa using twins

end Matched

mutual

-- The right sides of the compound assignments, in order.
def Stmt.updates : Stmt → List Expr
  | .assignment _ _ _ (.compound _) value => [value]
  | .function _ _ _ _ body => Stmt.updatesAll body
  | _ => []

def Stmt.updatesAll : List Stmt → List Expr
  | [] => []
  | s :: rest => s.updates ++ Stmt.updatesAll rest

end

theorem Declarator.lower_matched {d d' : Declarator} (same : d.blank.alike d'.blank = true)
    (typed : ∀ e, d.value = some e → e.Typed final known)
    (typed' : ∀ e, d'.value = some e → e.Typed final' known) :
    d.tags known = d'.tags known ∧
      Matched final final' d.value.toList d'.value.toList [] [] [Target.declarator final d]
        [Target.declarator final' d'] := by
  obtain ⟨name, value, span⟩ := d
  obtain ⟨name', value', span'⟩ := d'
  simp only [Declarator.blank, Declarator.alike, Bool.and_eq_true] at same
  obtain ⟨named, same⟩ := same
  cases of_decide_eq_true named
  cases value with
  | none =>
    cases value' with
    | none => exact ⟨rfl, .fixed _⟩
    | some e' => cases same
  | some e =>
    cases value' with
    | none => cases same
    | some e' =>
      simp only [Option.map_some, Option.toList_some, Expr.alikeAll, Bool.and_true] at same
      have matched := Expr.lower_matched same (typed e rfl) (typed' e' rfl)
      refine ⟨?_, .single matched rfl (.line matched.code _ (fun _ _ => rfl) fun _ _ => rfl)⟩
      simp only [Declarator.tags, Option.elim_some, matched.tag]

theorem Declarator.lowerAll_matched {ds ds' : List Declarator}
    (same : Declarator.alikeAll (ds.map Declarator.blank) (ds'.map Declarator.blank) = true)
    (typed : Declarator.TypedAll final known ds) (typed' : Declarator.TypedAll final' known ds') :
    ds.foldl Declarator.tags known = ds'.foldl Declarator.tags known ∧
      Matched final final' (ds.filterMap (·.value)) (ds'.filterMap (·.value)) [] []
        (ds.map (Target.declarator final)) (ds'.map (Target.declarator final')) := by
  induction ds generalizing ds' known with
  | nil =>
    cases ds' with
    | nil => exact ⟨rfl, .fixed _⟩
    | cons => cases same
  | cons d ds ih =>
    cases ds' with
    | nil => cases same
    | cons d' ds' =>
      rw [List.map_cons, List.map_cons, Declarator.alikeAll, Bool.and_eq_true] at same
      obtain ⟨tags, first⟩ := Declarator.lower_matched same.1 typed.1 typed'.1
      obtain ⟨after, rest⟩ := ih same.2 typed.2 (tags ▸ typed'.2)
      refine ⟨?_, ?_⟩
      · rw [List.foldl_cons, List.foldl_cons, ← tags, after]
      · simp only [List.filterMap_eq_flatMap_toList, List.flatMap_cons] at rest ⊢
        exact first.append rest

theorem localNames_of_blank {parameters parameters' : List Parameter} {body body' : List Stmt}
    (names : parameters.map (·.name) = parameters'.map (·.name))
    (same : Stmt.alikeAll (Stmt.blankAll body) (Stmt.blankAll body') = true) :
    Target.localNames parameters body = Target.localNames parameters' body' := by
  have declared := (Stmt.alikeAll_scope same).1
  rw [(Stmt.blankAll_scope body).1, (Stmt.blankAll_scope body').1] at declared
  rw [localNames_eq, localNames_eq, names, declared]

theorem bodyHeader_of_blank {enclosing : List (List String)} {locals : List String}
    {body body' : List Stmt}
    (same : Stmt.alikeAll (Stmt.blankAll body) (Stmt.blankAll body') = true) :
    Target.bodyHeader enclosing locals body = Target.bodyHeader enclosing locals body' := by
  have kept : ∀ body : List Stmt, Target.bodyHeader enclosing locals (Stmt.blankAll body) =
      Target.bodyHeader enclosing locals body := by
    intro body
    obtain ⟨-, assigned, empty⟩ := Stmt.blankAll_scope body
    simp only [Target.bodyHeader, outerNames_eq, assigned, empty]
  rw [← kept body, bodyHeader_alike same, kept]

theorem Tags.opened_eq {parameters parameters' : List Parameter}
    (names : parameters.map (·.name) = parameters'.map (·.name)) :
    known.opened parameters = known.opened parameters' := by
  funext x
  exact Tags.opened_agree names rfl

mutual

theorem Stmt.lower_matched : ∀ {s s' : Stmt} {known : Tags} (enclosing : List (List String)),
    s.blank.alike s'.blank = true → s.Typed final known → s'.Typed final' known →
    s.tags known = s'.tags known ∧
      Matched final final' s.roots s'.roots s.updates s'.updates (s.lower final enclosing)
        (s'.lower final' enclosing)
  | .declaration span fixed declarators, s', known, enclosing, same, typed, typed' => by
    cases s' with
    | declaration span' fixed' declarators' =>
      rw [Stmt.blank, Stmt.blank, Stmt.alike, Bool.and_eq_true] at same
      exact Declarator.lowerAll_matched same.2 typed typed'
    | _ => cases same
  | .assignment span name nameSpan op value, s', known, enclosing, same, typed, typed' => by
    cases s' with
    | assignment span' name' nameSpan' op' value' =>
      simp only [Stmt.blank, Stmt.alike, Bool.and_eq_true, decide_eq_true_eq] at same
      obtain ⟨⟨rfl, rfl⟩, same⟩ := same
      cases op with
      | assign =>
        have matched := Expr.lower_matched same typed typed'
        refine ⟨?_, .single matched rfl (.line matched.code _ (fun _ _ => rfl) fun _ _ => rfl)⟩
        rw [Stmt.tags, Stmt.tags, matched.tag]
      | compound op =>
        obtain ⟨typed, filed⟩ := typed
        obtain ⟨typed', filed'⟩ := typed'
        have matched := Expr.lower_matched same typed typed'
        have targets : final.targetTag? value.id = final'.targetTag? value'.id :=
          filed.trans filed'.symm
        refine ⟨?_, .single matched (congrArg (fun tag => [tag]) targets) ?_⟩
        · rw [Stmt.tags, Stmt.tags, matched.tag]
        · rw [Stmt.lower, Stmt.lower, targets, matched.filed typed typed']
          exact Target.compound_twin _ _ _ matched.code (matched.spared typed')
    | _ => cases same
  | .function span name nameSpan parameters body, s', known, enclosing, same, typed, typed' => by
    cases s' with
    | function span' name' nameSpan' parameters' body' =>
      simp only [Stmt.blank, Stmt.alike, Bool.and_eq_true, decide_eq_true_eq] at same
      obtain ⟨⟨rfl, names⟩, same⟩ := same
      have typed' : Stmt.TypedAll final' (known.opened parameters') body' := typed'
      rw [← Tags.opened_eq names] at typed'
      have spelled : parameters.map (fun p => Target.spell p.name) =
          parameters'.map (fun p => Target.spell p.name) := by
        have mapped := congrArg (List.map Target.spell) names
        rw [List.map_map, List.map_map] at mapped
        exact mapped
      obtain ⟨after, inside⟩ := Stmt.lowerAll_matched
        (Target.localNames parameters' body' :: enclosing) same typed typed'
      have function := Target.Stmt.TwinAll.function ((Target.Stmt.TwinAll.fixed
        (Target.bodyHeader enclosing (Target.localNames parameters' body') body')).append
        inside.code) (Target.spell name) (parameters'.map fun p => Target.spell p.name)
      refine ⟨?_, inside.tags, inside.targets, ?_⟩
      · rw [Stmt.tags, Stmt.tags, after, Tags.opened_eq names]
      · rw [Stmt.lower, Stmt.lower, localNames_of_blank names same, spelled,
          bodyHeader_of_blank same]
        split
        · exact function
        · exact (Target.Stmt.TwinAll.fixed [.globals [Target.spell name]]).append function
    | _ => cases same
  | .output span value, s', known, enclosing, same, typed, typed' => by
    cases s' with
    | output span' value' =>
      rw [Stmt.blank, Stmt.blank, Stmt.alike] at same
      have matched := Expr.lower_matched same typed typed'
      have shown := Target.Expr.Twin.call (.single matched.code) Target.showHelper
      exact ⟨rfl, .single matched rfl (.bare shown)⟩
    | _ => cases same
  | .throw span value, s', known, enclosing, same, typed, typed' => by
    cases s' with
    | throw span' value' =>
      rw [Stmt.blank, Stmt.blank, Stmt.alike] at same
      have matched := Expr.lower_matched same typed typed'
      exact ⟨rfl, .single matched rfl (.line matched.code _ (fun _ _ => rfl) fun _ _ => rfl)⟩
    | _ => cases same
  | .expression span value, s', known, enclosing, same, typed, typed' => by
    cases s' with
    | expression span' value' =>
      rw [Stmt.blank, Stmt.blank, Stmt.alike] at same
      have matched := Expr.lower_matched same typed typed'
      exact ⟨rfl, .single matched rfl (.bare matched.code)⟩
    | _ => cases same

theorem Stmt.lowerAll_matched : ∀ {body body' : List Stmt} {known : Tags}
    (enclosing : List (List String)),
    Stmt.alikeAll (Stmt.blankAll body) (Stmt.blankAll body') = true →
    Stmt.TypedAll final known body → Stmt.TypedAll final' known body' →
    Stmt.tagsAll known body = Stmt.tagsAll known body' ∧
      Matched final final' (Stmt.rootsAll body) (Stmt.rootsAll body') (Stmt.updatesAll body)
        (Stmt.updatesAll body') (Stmt.lowerAll final enclosing body)
        (Stmt.lowerAll final' enclosing body')
  | [], [], _, _, _, _, _ => ⟨rfl, .fixed _⟩
  | s :: rest, s' :: rest', known, enclosing, same, typed, typed' => by
    rw [Stmt.blankAll, Stmt.blankAll, Stmt.alikeAll, Bool.and_eq_true] at same
    obtain ⟨tags, first⟩ := Stmt.lower_matched enclosing same.1 typed.1 typed'.1
    obtain ⟨after, later⟩ := Stmt.lowerAll_matched enclosing same.2 typed.2 (tags ▸ typed'.2)
    refine ⟨?_, first.append later⟩
    rw [Stmt.tagsAll, Stmt.tagsAll, ← tags, after]

end

end

namespace Analysis

mutual

theorem check_updated {inFunction : Bool} : ∀ {s : Stmt} {a : Analysis},
    (a.check inFunction s).accepted = true →
    ∀ e ∈ s.updates, e.id ∈ (a.check inFunction s).targets
  | .assignment _ _ _ (.compound _) value, a, accepted => by
    intro e listed
    cases List.mem_singleton.1 listed
    obtain ⟨symbol, -, ⟨different, -⟩ | ⟨_, combined, -, -, shape⟩⟩ :=
      checkAssignment_accepted accepted
    · cases different
    · rw [check, shape]
      exact Std.TreeMap.mem_insert_self
  | .function _ _ _ _ body, a, accepted => by
    rw [check_function] at accepted ⊢
    exact @checkAll_updated true body _ accepted
  | .declaration .., _, _ | .assignment _ _ _ .assign _, _, _ | .output .., _, _
  | .throw .., _, _ | .expression .., _, _ => fun _ listed => absurd listed List.not_mem_nil

theorem checkAll_updated {inFunction : Bool} : ∀ {body : List Stmt} {a : Analysis},
    (a.checkAll inFunction body).accepted = true →
    ∀ e ∈ Stmt.updatesAll body, e.id ∈ (a.checkAll inFunction body).targets
  | [], _, _ => fun _ listed => absurd listed List.not_mem_nil
  | s :: rest, a, accepted => by
    intro e listed
    rcases List.mem_append.1 listed with first | later
    · have here := check_updated (checkAll_before (s := rest) accepted) e first
      rw [checkAll]
      exact checkAll_targets.2 (.inl here)
    · exact @checkAll_updated inFunction rest _ accepted e later

end

end Analysis

theorem ofList_ne_empty {cs : List Char} (some : cs ≠ []) : String.ofList cs ≠ "" := by
  intro empty
  apply some
  rw [← String.toList_ofList (l := cs), empty]
  rfl

theorem Integer.text_ne_empty (n : Int64) : Integer.text n ≠ "" := by
  rw [Integer.text, Int.toString_eq_repr, Int.repr_eq_if]
  split
  · exact Nat.repr_ne_empty
  · simp

namespace Point.Layout

theorem magnitudeText_ne_nil (d : Decimal) : literal.magnitudeText d ≠ [] := by
  unfold magnitudeText
  split
  · unfold positionalText
    dsimp only
    split
    · simp [literal]
    · simp [withPoint]
  · simp [scientificText, exponentText]

theorem write_ne_empty (x : Float) : literal.write x ≠ "" := by
  unfold write
  dsimp only
  cases parts x with
  | notANumber => simp
  | infinite negative =>
    apply ofList_ne_empty
    simp
  | finite negative mantissa exponent =>
    apply ofList_ne_empty
    exact List.append_ne_nil_of_right_ne_nil _ (magnitudeText_ne_nil _)

end Point.Layout

theorem Literal.spelling_ne_empty (written : Literal) : written.spelling ≠ "" := by
  cases written with
  | integer n => exact Integer.text_ne_empty n
  | point x => exact Point.Layout.write_ne_empty x
  | state b => cases b <;> simp [Literal.spelling, Target.literal, Target.Expr.print]
  | text s => exact ofList_ne_empty (List.cons_ne_nil _ _)
  | empty => simp [Literal.spelling, Target.literal, Target.Expr.print]

namespace Program

def updates (p : Program) : List Expr := Stmt.updatesAll p.body

def spellings (p : Program) : List String := (Stmt.rootsAll p.body).flatMap Expr.spellings

-- Two programs read the same but for what their literals carry.
def alikeButPayloads (p p' : Program) : Bool :=
  Stmt.alikeAll (Stmt.blankAll p.body) (Stmt.blankAll p'.body)

theorem spellings_visible (p : Program) : ∀ s ∈ p.spellings, s ≠ "" := by
  intro s listed
  obtain ⟨e, -, inside⟩ := List.mem_flatMap.1 listed
  obtain ⟨written, -, rfl⟩ := List.mem_map.1 inside
  exact written.spelling_ne_empty

end Program

theorem Analysis.ofProgram_filed {source : String} {program : Program}
    (read : Program.ofSource source = .ok program) :
    ∀ n ∈ program.nodes, ((Analysis.ofProgram program).tag? n.id).isSome = true := by
  have distinct : (Stmt.idsAll program.body).Nodup := (ofSource_numbered read).imp Nat.ne_of_lt
  have recorded : ∀ v ∈ Analysis.empty.evaluationsAll false program.body,
      v.Recorded (.ofProgram program) := checkAll_recorded distinct .refl List.prefix_rfl
  intro n inside
  obtain ⟨root, stands, inside⟩ := List.mem_flatMap.1 inside
  have numbered : n.id ∈ Stmt.idsAll program.body := by
    rw [Stmt.idsAll_roots]
    refine List.mem_flatMap.2 ⟨root, stands, ?_⟩
    rw [← root.nodes_ids]
    exact List.mem_map_of_mem inside
  have filed := mem_values_of_root recorded numbered
  rwa [Std.TreeMap.mem_iff_isSome_getElem?, ← Option.isSome_map] at filed

theorem Analysis.ofProgram_typed {source : String} {program : Program}
    (read : Program.ofSource source = .ok program)
    (accepted : (Analysis.ofProgram program).accepted = true) :
    Stmt.TypedAll (.ofProgram program) Analysis.empty.symbols.tags program.body := by
  have distinct : (Stmt.idsAll program.body).Nodup := (ofSource_numbered read).imp Nat.ne_of_lt
  exact (checkAll_typed empty_orderly accepted distinct fun _ _ => ⟨rfl, rfl⟩).1

theorem payloads_independent {source source' : String} {program program' : Program}
    {analysis analysis' : Analysis} (checked : check source = .ok (program, analysis))
    (accepted : analysis.accepted = true) (checked' : check source' = .ok (program', analysis'))
    (accepted' : analysis'.accepted = true) (same : program.alikeButPayloads program' = true)
    (options : CompileOptions) :
    (program.nodes.map (fun n => analysis.tag? n.id) =
        program'.nodes.map (fun n => analysis'.tag? n.id) ∧
      ∀ n ∈ program.nodes, (analysis.tag? n.id).isSome = true) ∧
    (program.updates.map (fun e => analysis.targetTag? e.id) =
        program'.updates.map (fun e => analysis'.targetTag? e.id) ∧
      ∀ e ∈ program.updates, (analysis.targetTag? e.id).isSome = true) ∧
    ∃ template : Template,
      template.holes = program.spellings.length ∧ template.holes = program'.spellings.length ∧
      generate program analysis options = template.fill program.spellings ∧
      generate program' analysis' options = template.fill program'.spellings := by
  obtain ⟨read, rfl⟩ := check_eq_ok.1 checked
  obtain ⟨read', rfl⟩ := check_eq_ok.1 checked'
  have matched := (Stmt.lowerAll_matched [] same (Analysis.ofProgram_typed read accepted)
    (Analysis.ofProgram_typed read' accepted')).2
  refine ⟨⟨matched.tags, Analysis.ofProgram_filed read⟩, ⟨matched.targets, ?_⟩, ?_⟩
  · intro e listed
    have filed := Analysis.checkAll_updated accepted e listed
    rwa [Std.TreeMap.mem_iff_isSome_getElem?, ← Option.isSome_map] at filed
  · rw [generate_eq, generate_eq]
    exact Target.scriptText_twins matched.code program.spellings_visible
      program'.spellings_visible options

-- A program with literals of every kind, in and outside a function.
def priceSource (count price name flag : String) : String :=
  "var n = " ++ count ++ ", t = " ++ name ++ "; func f(x) \x7b n += " ++ count ++ " * x; throw " ++
    price ++ " < x; \x7d t += empty; show [t + " ++ count ++ ", !" ++ flag ++ "] == (text) " ++
    price ++ ";"

theorem priceSource_twins : ∃ one two : Program × Analysis,
    check (priceSource "1" "2.5" "\"a\"" "YES") = .ok one ∧
    check (priceSource "20" "0.25" "\"\"" "NO") = .ok two ∧
    one.2.accepted = true ∧ two.2.accepted = true ∧ one.1.alikeButPayloads two.1 = true ∧
    one.1.updates.length = 2 ∧
    one.1.updates.map (fun e => one.2.targetTag? e.id) =
      two.1.updates.map (fun e => two.2.targetTag? e.id) ∧
    ∃ template : Template, template.holes = 7 ∧
      generate one.1 one.2 {} =
        template.fill ["1", "\"a\"", "1", "2.5", "1", "True", "2.5"] ∧
      generate two.1 two.2 {} =
        template.fill ["20", "\"\"", "20", "0.25", "20", "False", "0.25"] := by
  have found : ((check (priceSource "1" "2.5" "\"a\"" "YES")).toOption.any fun one =>
      (check (priceSource "20" "0.25" "\"\"" "NO")).toOption.any fun two =>
        one.2.accepted && two.2.accepted && one.1.alikeButPayloads two.1 &&
        decide (one.1.updates.length = 2) &&
        decide (one.1.spellings = ["1", "\"a\"", "1", "2.5", "1", "True", "2.5"]) &&
        decide (two.1.spellings = ["20", "\"\"", "20", "0.25", "20", "False", "0.25"])) = true := by
    decide +kernel
  obtain ⟨one, first, found⟩ := ok_of_any found
  obtain ⟨two, second, found⟩ := ok_of_any found
  simp only [Bool.and_eq_true, decide_eq_true_eq] at found
  obtain ⟨⟨⟨⟨⟨accepted, accepted'⟩, same⟩, updates⟩, spelled⟩, spelled'⟩ := found
  obtain ⟨-, targets, template, holes, -, filled, filled'⟩ :=
    payloads_independent first accepted second accepted' same {}
  rw [spelled] at holes filled
  rw [spelled'] at filled'
  exact ⟨one, two, first, second, accepted, accepted', same, updates, targets.1, template, holes,
    filled, filled'⟩

end Scriptlet
