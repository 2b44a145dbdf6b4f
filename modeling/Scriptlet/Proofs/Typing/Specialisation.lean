import Scriptlet.Proofs.Target.Lowered
import Scriptlet.Proofs.Typing.Inference

/-!
What a lowered statement depends on. Lowering looks at types only, and the types that an accepted
check has on file can be inferred, so two statements that read the same are lowered in the same
way if the variables that they mention have the same types. The values of the variables do not
matter, but their types do.
-/

namespace Scriptlet

mutual

-- The same expression, but for the numbers of the nodes and where it stands.
def Expr.alike : Expr → Expr → Bool
  | .literal _ written, .literal _ written' => written = written'
  | .identifier _ name, .identifier _ name' => name = name'
  | .call _ callee _ arguments, .call _ callee' _ arguments' =>
    callee = callee' && Expr.alikeAll arguments arguments'
  | .list _ items, .list _ items' => Expr.alikeAll items items'
  | .binary _ op left right, .binary _ op' left' right' =>
    op = op' && left.alike left' && right.alike right'
  | .unary _ op operand, .unary _ op' operand' => op = op' && operand.alike operand'
  | .cast _ target operand, .cast _ target' operand' => target = target' && operand.alike operand'
  | .grouping _ inner, .grouping _ inner' => inner.alike inner'
  | _, _ => false

def Expr.alikeAll : List Expr → List Expr → Bool
  | [], [] => true
  | e :: es, e' :: es' => e.alike e' && Expr.alikeAll es es'
  | _, _ => false

end

def Declarator.alike (d d' : Declarator) : Bool :=
  d.name = d'.name && Expr.alikeAll d.value.toList d'.value.toList

def Declarator.alikeAll : List Declarator → List Declarator → Bool
  | [], [] => true
  | d :: ds, d' :: ds' => d.alike d' && Declarator.alikeAll ds ds'
  | _, _ => false

mutual

def Stmt.alike : Stmt → Stmt → Bool
  | .declaration _ fixed declarators, .declaration _ fixed' declarators' =>
    fixed = fixed' && Declarator.alikeAll declarators declarators'
  | .assignment _ name _ op value, .assignment _ name' _ op' value' =>
    name = name' && op = op' && value.alike value'
  | .function _ name _ parameters body, .function _ name' _ parameters' body' =>
    name = name' && parameters.map (·.name) = parameters'.map (·.name) &&
      Stmt.alikeAll body body'
  | .output _ value, .output _ value' => value.alike value'
  | .throw _ value, .throw _ value' => value.alike value'
  | .expression _ value, .expression _ value' => value.alike value'
  | _, _ => false

def Stmt.alikeAll : List Stmt → List Stmt → Bool
  | [], [] => true
  | s :: rest, s' :: rest' => s.alike s' && Stmt.alikeAll rest rest'
  | _, _ => false

end

section

variable {final final' : Analysis} {known known' : Tags}

theorem Expr.Typed.own {e : Expr} (typed : e.Typed final known) :
    final.tag? e.id = some (e.tag known) :=
  typed e e.self_mem_nodes

theorem Expr.Typed.part {e part : Expr} (typed : e.Typed final known) (below : part ∈ e.parts) :
    part.Typed final known :=
  fun n inside => typed n (Expr.mem_nodes_of_part below inside)

mutual

theorem Expr.lower_alike : ∀ {e e' : Expr}, e.alike e' = true →
    e.Typed final known → e'.Typed final' known' → (∀ x ∈ e.names, known x = known' x) →
    e.tag known = e'.tag known' ∧ e.lower final = e'.lower final'
  | .literal node written, e', same, typed, typed', agree => by
    cases e' with
    | literal node' written' =>
      cases of_decide_eq_true same
      exact ⟨rfl, rfl⟩
    | _ => cases same
  | .identifier node name, e', same, typed, typed', agree => by
    cases e' with
    | identifier node' name' =>
      cases of_decide_eq_true same
      refine ⟨?_, rfl⟩
      rw [Expr.tag, Expr.tag, Tags.find?, Tags.find?, agree name (List.mem_singleton.2 rfl)]
    | _ => cases same
  | .call node callee span arguments, e', same, typed, typed', agree => by
    cases e' with
    | call node' callee' span' arguments' =>
      rw [Expr.alike, Bool.and_eq_true, decide_eq_true_eq] at same
      obtain ⟨rfl, same⟩ := same
      have items := Expr.lowerAll_alike same (fun e listed => typed.part listed)
        (fun e listed => typed'.part listed) fun x used => agree x (List.mem_cons_of_mem _ used)
      exact ⟨rfl, by rw [Expr.lower, Expr.lower, items]⟩
    | _ => cases same
  | .list node items, e', same, typed, typed', agree => by
    cases e' with
    | list node' items' =>
      have items := Expr.lowerAll_alike same (fun e listed => typed.part listed)
        (fun e listed => typed'.part listed) agree
      exact ⟨rfl, by rw [Expr.lower, Expr.lower, items]⟩
    | _ => cases same
  | .binary node op left right, e', same, typed, typed', agree => by
    cases e' with
    | binary node' op' left' right' =>
      rw [Expr.alike, Bool.and_eq_true, Bool.and_eq_true, decide_eq_true_eq] at same
      obtain ⟨⟨rfl, sameLeft⟩, sameRight⟩ := same
      have first : left.Typed final known := typed.part (by simp [Expr.parts])
      have second : right.Typed final known := typed.part (by simp [Expr.parts])
      have first' : left'.Typed final' known' := typed'.part (by simp [Expr.parts])
      have second' : right'.Typed final' known' := typed'.part (by simp [Expr.parts])
      obtain ⟨tagLeft, lowerLeft⟩ := Expr.lower_alike sameLeft first first'
        fun x used => agree x (List.mem_append_left _ used)
      obtain ⟨tagRight, lowerRight⟩ := Expr.lower_alike sameRight second second'
        fun x used => agree x (List.mem_append_right _ used)
      have tags : (Expr.binary node op left right).tag known =
          (Expr.binary node' op left' right').tag known' := by
        rw [Expr.tag, Expr.tag, tagLeft, tagRight]
      have own := typed.own
      have own' := typed'.own
      refine ⟨tags, ?_⟩
      rw [← tags] at own'
      simp only [Expr.id, Expr.node] at own own'
      rw [Expr.lower, Expr.lower, own, own', first.own, second.own, first'.own, second'.own, tagLeft,
        tagRight, lowerLeft, lowerRight]
    | _ => cases same
  | .unary node op operand, e', same, typed, typed', agree => by
    cases e' with
    | unary node' op' operand' =>
      rw [Expr.alike, Bool.and_eq_true, decide_eq_true_eq] at same
      obtain ⟨rfl, same⟩ := same
      have inner : operand.Typed final known := typed.part (by simp [Expr.parts])
      have inner' : operand'.Typed final' known' := typed'.part (by simp [Expr.parts])
      obtain ⟨tag, lower⟩ := Expr.lower_alike same inner inner' agree
      refine ⟨by rw [Expr.tag, Expr.tag, tag], ?_⟩
      cases op with
      | not => rw [Expr.lower, Expr.lower, inner.own, inner'.own, tag, lower]
      | negate => rw [Expr.lower, Expr.lower, lower]
    | _ => cases same
  | .cast node target operand, e', same, typed, typed', agree => by
    cases e' with
    | cast node' target' operand' =>
      rw [Expr.alike, Bool.and_eq_true, decide_eq_true_eq] at same
      obtain ⟨rfl, same⟩ := same
      have inner : operand.Typed final known := typed.part (by simp [Expr.parts])
      have inner' : operand'.Typed final' known' := typed'.part (by simp [Expr.parts])
      obtain ⟨tag, lower⟩ := Expr.lower_alike same inner inner' agree
      refine ⟨by rw [Expr.tag, Expr.tag, tag], ?_⟩
      rw [Expr.lower, Expr.lower, inner.own, inner'.own, tag, lower]
    | _ => cases same
  | .grouping node inner, e', same, typed, typed', agree => by
    cases e' with
    | grouping node' inner' =>
      rw [Expr.alike] at same
      obtain ⟨tag, lower⟩ := Expr.lower_alike same (typed.part (by simp [Expr.parts]))
        (typed'.part (by simp [Expr.parts])) agree
      exact ⟨by rw [Expr.tag, Expr.tag, tag], by rw [Expr.lower, Expr.lower, lower]⟩
    | _ => cases same

theorem Expr.lowerAll_alike : ∀ {es es' : List Expr}, Expr.alikeAll es es' = true →
    (∀ e ∈ es, e.Typed final known) → (∀ e ∈ es', e.Typed final' known') →
    (∀ x ∈ Expr.namesAll es, known x = known' x) →
    Expr.lowerAll final es = Expr.lowerAll final' es'
  | [], [], _, _, _, _ => rfl
  | e :: es, e' :: es', same, typed, typed', agree => by
    rw [Expr.alikeAll, Bool.and_eq_true] at same
    rw [List.forall_mem_cons] at typed typed'
    have first := Expr.lower_alike same.1 typed.1 typed'.1
      fun x used => agree x (List.mem_append_left _ used)
    have rest := Expr.lowerAll_alike same.2 typed.2 typed'.2
      fun x used => agree x (List.mem_append_right _ used)
    rw [Expr.lowerAll, Expr.lowerAll, first.2, rest]

end

theorem Tags.declare_agree {name x : String} {tag : Tag} (same : known x = known' x) :
    known.declare name tag x = known'.declare name tag x := by
  simp only [Tags.declare, same]

theorem Tags.assign_agree {name x : String} {tag : Tag} (same : known x = known' x) :
    known.assign name tag x = known'.assign name tag x := by
  simp only [Tags.assign, same]

theorem Tags.opened_agree {parameters parameters' : List Parameter} {x : String}
    (names : parameters.map (·.name) = parameters'.map (·.name)) (same : known x = known' x) :
    known.opened parameters x = known'.opened parameters' x := by
  have opened : ∀ (known : Tags) (parameters : List Parameter), known.opened parameters =
      (parameters.map (·.name)).foldl (fun known name => known.declare name .unknown)
        known.enter := by
    intro known parameters
    rw [Tags.opened, List.foldl_map]
  have entered : known.enter x = known'.enter x := congrArg (none :: ·) same
  rw [opened, opened, ← names]
  generalize known.enter = known at entered ⊢
  generalize known'.enter = known' at entered ⊢
  induction parameters.map (·.name) generalizing known known' with
  | nil => exact entered
  | cons name rest ih => exact ih _ _ (Tags.declare_agree entered)

theorem Declarator.lower_alike {d d' : Declarator} (same : d.alike d' = true)
    (typed : ∀ e, d.value = some e → e.Typed final known)
    (typed' : ∀ e, d'.value = some e → e.Typed final' known')
    (agree : ∀ x ∈ d.names, known x = known' x) :
    Target.declarator final d = Target.declarator final' d' ∧
      ∀ x, known x = known' x → d.tags known x = d'.tags known' x := by
  obtain ⟨name, value, span⟩ := d
  obtain ⟨name', value', span'⟩ := d'
  rw [Declarator.alike, Bool.and_eq_true, decide_eq_true_eq] at same
  obtain ⟨rfl, same⟩ := same
  cases value with
  | none =>
    cases value' with
    | none => exact ⟨rfl, fun x => Tags.declare_agree⟩
    | some e' => cases same
  | some e =>
    cases value' with
    | none => cases same
    | some e' =>
      simp only [Option.toList_some, Expr.alikeAll, Bool.and_true] at same
      obtain ⟨tag, lower⟩ := Expr.lower_alike same (typed e rfl) (typed' e' rfl)
        fun x used => agree x (List.mem_cons_of_mem _ used)
      refine ⟨?_, fun x equal => ?_⟩
      · simp only [Target.declarator, Option.elim_some, lower]
      · simp only [Declarator.tags, Option.elim_some, tag]
        exact Tags.declare_agree equal

theorem Declarator.lowerAll_alike {ds ds' : List Declarator}
    (same : Declarator.alikeAll ds ds' = true) (typed : Declarator.TypedAll final known ds)
    (typed' : Declarator.TypedAll final' known' ds')
    (agree : ∀ x ∈ ds.flatMap Declarator.names, known x = known' x) :
    ds.map (Target.declarator final) = ds'.map (Target.declarator final') ∧
      ∀ x, known x = known' x →
        ds.foldl Declarator.tags known x = ds'.foldl Declarator.tags known' x := by
  induction ds generalizing ds' known known' with
  | nil =>
    cases ds' with
    | nil => exact ⟨rfl, fun _ equal => equal⟩
    | cons => cases same
  | cons d ds ih =>
    cases ds' with
    | nil => cases same
    | cons d' ds' =>
      rw [Declarator.alikeAll, Bool.and_eq_true] at same
      obtain ⟨first, after⟩ := Declarator.lower_alike same.1 typed.1 typed'.1
        fun x used => agree x (List.mem_append_left _ used)
      obtain ⟨rest, done⟩ := ih same.2 typed.2 typed'.2
        fun x used => after x (agree x (List.mem_append_right _ used))
      exact ⟨by rw [List.map_cons, List.map_cons, first, rest], fun x equal => done x (after x equal)⟩

theorem Declarator.alikeAll_names {ds ds' : List Declarator}
    (same : Declarator.alikeAll ds ds' = true) : ds.map (·.name) = ds'.map (·.name) := by
  induction ds generalizing ds' with
  | nil =>
    cases ds' with
    | nil => rfl
    | cons => cases same
  | cons d ds ih =>
    cases ds' with
    | nil => cases same
    | cons d' ds' =>
      simp only [Declarator.alikeAll, Declarator.alike, Bool.and_eq_true, decide_eq_true_eq] at same
      rw [List.map_cons, List.map_cons, same.1.1, ih same.2]

theorem Stmt.alike_scope {s s' : Stmt} (same : s.alike s' = true) :
    s.declared = s'.declared ∧ s.assigned = s'.assigned := by
  cases s with
  | declaration span fixed declarators =>
    cases s' with
    | declaration span' fixed' declarators' =>
      rw [Stmt.alike, Bool.and_eq_true] at same
      exact ⟨Declarator.alikeAll_names same.2, rfl⟩
    | _ => cases same
  | assignment span name nameSpan op value =>
    cases s' with
    | assignment span' name' nameSpan' op' value' =>
      simp only [Stmt.alike, Bool.and_eq_true, decide_eq_true_eq] at same
      rw [Stmt.assigned, Stmt.assigned, same.1.1]
      exact ⟨rfl, rfl⟩
    | _ => cases same
  | _ => cases s' <;> first | exact ⟨rfl, rfl⟩ | cases same

theorem Stmt.alikeAll_scope {body body' : List Stmt} (same : Stmt.alikeAll body body' = true) :
    body.flatMap Stmt.declared = body'.flatMap Stmt.declared ∧
      body.flatMap Stmt.assigned = body'.flatMap Stmt.assigned ∧ body.isEmpty = body'.isEmpty := by
  induction body generalizing body' with
  | nil =>
    cases body' with
    | nil => exact ⟨rfl, rfl, rfl⟩
    | cons => cases same
  | cons s body ih =>
    cases body' with
    | nil => cases same
    | cons s' body' =>
      rw [Stmt.alikeAll, Bool.and_eq_true] at same
      obtain ⟨declared, assigned⟩ := Stmt.alike_scope same.1
      obtain ⟨declaredRest, assignedRest, -⟩ := ih same.2
      simp only [List.flatMap_cons, declared, assigned, declaredRest, assignedRest]
      exact ⟨trivial, trivial, rfl⟩

theorem outerNames_eq {locals : List String} {body : List Stmt} :
    Target.outerNames locals body =
      ((body.flatMap Stmt.assigned).filter fun name => !locals.contains name).eraseDups := by
  unfold Target.outerNames
  dsimp only
  rw [List.filterMap_eq_flatMap_toList]
  congr 3
  funext s
  cases s <;> rfl

theorem bodyHeader_alike {enclosing : List (List String)} {locals : List String}
    {body body' : List Stmt} (same : Stmt.alikeAll body body' = true) :
    Target.bodyHeader enclosing locals body = Target.bodyHeader enclosing locals body' := by
  obtain ⟨-, assigned, empty⟩ := Stmt.alikeAll_scope same
  simp only [Target.bodyHeader, outerNames_eq, assigned, empty]

mutual

theorem Stmt.lower_alike : ∀ {s s' : Stmt} {known known' : Tags} {enclosing : List (List String)},
    s.alike s' = true → s.Typed final known → s'.Typed final' known' →
    (∀ x ∈ s.allNames, known x = known' x) →
    s.lower final enclosing = s'.lower final' enclosing ∧
      ∀ x, known x = known' x → s.tags known x = s'.tags known' x
  | .declaration span fixed declarators, s', known, known', enclosing, same, typed, typed', agree => by
    cases s' with
    | declaration span' fixed' declarators' =>
      rw [Stmt.alike, Bool.and_eq_true] at same
      exact Declarator.lowerAll_alike same.2 typed typed' agree
    | _ => cases same
  | .assignment span name nameSpan op value, s', known, known', enclosing, same, typed, typed',
      agree => by
    cases s' with
    | assignment span' name' nameSpan' op' value' =>
      simp only [Stmt.alike, Bool.and_eq_true, decide_eq_true_eq] at same
      obtain ⟨⟨rfl, rfl⟩, same⟩ := same
      have target : known.find? name = known'.find? name := by
        rw [Tags.find?, Tags.find?, agree name (List.mem_cons_self ..)]
      have used : ∀ x ∈ value.names, known x = known' x :=
        fun x used => agree x (List.mem_cons_of_mem _ used)
      cases op with
      | assign =>
        obtain ⟨tag, lower⟩ := Expr.lower_alike same typed typed' used
        refine ⟨by rw [Stmt.lower, Stmt.lower, lower], fun x equal => ?_⟩
        rw [Stmt.tags, Stmt.tags, tag]
        exact Tags.assign_agree equal
      | compound op =>
        obtain ⟨typed, filed⟩ := typed
        obtain ⟨typed', filed'⟩ := typed'
        obtain ⟨tag, lower⟩ := Expr.lower_alike same typed typed' used
        refine ⟨?_, fun x equal => ?_⟩
        · rw [Stmt.lower, Stmt.lower, filed, filed', target, typed.own, typed'.own, tag, lower]
        · rw [Stmt.tags, Stmt.tags, target, tag]
          exact Tags.assign_agree equal
    | _ => cases same
  | .function span name nameSpan parameters body, s', known, known', enclosing, same, typed, typed',
      agree => by
    cases s' with
    | function span' name' nameSpan' parameters' body' =>
      simp only [Stmt.alike, Bool.and_eq_true, decide_eq_true_eq] at same
      obtain ⟨⟨rfl, names⟩, same⟩ := same
      have locals : Target.localNames parameters body = Target.localNames parameters' body' := by
        rw [localNames_eq, localNames_eq, names, (Stmt.alikeAll_scope same).1]
      have spelled : parameters.map (fun p => Target.spell p.name) =
          parameters'.map (fun p => Target.spell p.name) := by
        have mapped := congrArg (List.map Target.spell) names
        rw [List.map_map, List.map_map] at mapped
        exact mapped
      obtain ⟨lower, after⟩ := Stmt.lowerAll_alike same typed typed' fun x used =>
        Tags.opened_agree names (agree x (List.mem_append_right _ used))
      refine ⟨?_, fun x equal => congrArg List.tail (after x (Tags.opened_agree names equal))⟩
      rw [Stmt.lower, Stmt.lower, locals, spelled, bodyHeader_alike same, lower]
    | _ => cases same
  | .output span value, s', known, known', enclosing, same, typed, typed', agree => by
    cases s' with
    | output span' value' =>
      rw [Stmt.alike] at same
      have lower := (Expr.lower_alike same typed typed' agree).2
      exact ⟨by rw [Stmt.lower, Stmt.lower, lower], fun _ equal => equal⟩
    | _ => cases same
  | .throw span value, s', known, known', enclosing, same, typed, typed', agree => by
    cases s' with
    | throw span' value' =>
      rw [Stmt.alike] at same
      have lower := (Expr.lower_alike same typed typed' agree).2
      exact ⟨by rw [Stmt.lower, Stmt.lower, lower], fun _ equal => equal⟩
    | _ => cases same
  | .expression span value, s', known, known', enclosing, same, typed, typed', agree => by
    cases s' with
    | expression span' value' =>
      rw [Stmt.alike] at same
      have lower := (Expr.lower_alike same typed typed' agree).2
      exact ⟨by rw [Stmt.lower, Stmt.lower, lower], fun _ equal => equal⟩
    | _ => cases same

theorem Stmt.lowerAll_alike : ∀ {body body' : List Stmt} {known known' : Tags}
    {enclosing : List (List String)}, Stmt.alikeAll body body' = true →
    Stmt.TypedAll final known body → Stmt.TypedAll final' known' body' →
    (∀ x ∈ Stmt.allNamesAll body, known x = known' x) →
    Stmt.lowerAll final enclosing body = Stmt.lowerAll final' enclosing body' ∧
      ∀ x, known x = known' x → Stmt.tagsAll known body x = Stmt.tagsAll known' body' x
  | [], [], _, _, _, _, _, _, _ => ⟨rfl, fun _ equal => equal⟩
  | s :: rest, s' :: rest', _, _, _, same, typed, typed', agree => by
    rw [Stmt.alikeAll, Bool.and_eq_true] at same
    obtain ⟨first, after⟩ := Stmt.lower_alike same.1 typed.1 typed'.1
      fun x used => agree x (List.mem_append_left _ used)
    obtain ⟨later, done⟩ := Stmt.lowerAll_alike same.2 typed.2 typed'.2
      fun x used => after x (agree x (List.mem_append_right _ used))
    refine ⟨?_, fun x equal => done x (after x equal)⟩
    rw [Stmt.lowerAll, Stmt.lowerAll, first, later]

end

end

-- The type that a global variable has after these statements.
def globalTag? (before : List Stmt) (name : String) : Option Tag :=
  ((Analysis.empty.checkAll false before).symbols.global? name).map (·.value.tag)

-- A statement of the top level of an accepted program, and what stands before it.
def StandsIn (source : String) (analysis : Analysis) (before : List Stmt) (s : Stmt) : Prop :=
  ∃ program after, check source = .ok (program, analysis) ∧ analysis.accepted = true ∧
    program.body = before ++ s :: after

theorem tags_global {t : SymbolTable} (sound : t.Sound) (outermost : t.enclosing = []) :
    t.tags = fun name => [(t.global? name).map (·.value.tag)] := by
  have current : t.current = SymbolTable.globalScope := by
    have rooted := sound.rooted
    rw [SymbolTable.path, outermost] at rooted
    exact Option.some.inj rooted
  funext name
  rw [SymbolTable.tags, SymbolTable.frames_eq, outermost, current, SymbolTable.global?,
    SymbolTable.variableIn?_eq]
  rfl

theorem Analysis.checkAll_global {body : List Stmt}
    (accepted : (empty.checkAll false body).accepted = true) :
    (empty.checkAll false body).symbols.tags = fun name => [globalTag? body name] := by
  have stepped := checkAll_stepped empty_orderly accepted
  have outermost : (empty.checkAll false body).symbols.enclosing = [] := by
    have outer := congrArg Names.outer stepped.names
    exact List.map_eq_nil_iff.1 outer
  exact tags_global stepped.orderly.sound outermost

theorem StandsIn.typed {source : String} {analysis : Analysis} {before : List Stmt} {s : Stmt}
    (stands : StandsIn source analysis before s) :
    s.Typed analysis fun name => [globalTag? before name] := by
  obtain ⟨program, after, checked, accepted, split⟩ := stands
  obtain ⟨read, rfl⟩ := check_eq_ok.1 checked
  have distinct : (Stmt.idsAll program.body).Nodup := (ofSource_numbered read).imp Nat.ne_of_lt
  rw [split, Stmt.idsAll_append, List.nodup_append, Stmt.idsAll, List.nodup_append] at distinct
  rw [Analysis.ofProgram, split] at accepted ⊢
  have reached := Analysis.checkAll_middle accepted
  have earlier := Analysis.check_before reached
  -- Nothing after the statement writes under its numbers.
  have same : Analysis.SameFiles (Analysis.empty.checkAll false (before ++ s :: after))
      ((Analysis.empty.checkAll false before).check false s) s.ids := by
    rw [Analysis.checkAll_append]
    intro id listed
    have later : id ∉ Stmt.idsAll after := fun later => distinct.2.1.2.2 id listed id later rfl
    obtain ⟨values, targets⟩ := Analysis.checkAll_untouched id later
    exact ⟨values.symm, targets.symm⟩
  rw [← Analysis.checkAll_global earlier]
  exact (Analysis.check_typed (Analysis.checkAll_stepped Analysis.empty_orderly earlier).orderly
    reached distinct.2.1.1 same).1

theorem lines_eq_of_global_types {source source' : String} {analysis analysis' : Analysis}
    {before before' : List Stmt} {s s' : Stmt} (stands : StandsIn source analysis before s)
    (stands' : StandsIn source' analysis' before' s') (same : s.alike s' = true)
    (types : ∀ x ∈ s.allNames, globalTag? before x = globalTag? before' x) (width : Nat) :
    Target.Stmt.allLines width 0 (s.lower analysis []) =
      Target.Stmt.allLines width 0 (s'.lower analysis' []) := by
  have agree : ∀ x ∈ s.allNames, [globalTag? before x] = [globalTag? before' x] :=
    fun x used => congrArg (fun tag => [tag]) (types x used)
  have lower : s.lower analysis [] = s'.lower analysis' [] :=
    (Stmt.lower_alike same stands.typed stands'.typed agree).1
  rw [lower]

-- Finds the statement at that position of an accepted program.
def standing? (source : String) (position : Nat) : Option (Analysis × List Stmt × Stmt) :=
  (check source).toOption.bind fun result =>
    if result.2.accepted then
      result.1.body[position]?.map fun s => (result.2, result.1.body.take position, s)
    else none

theorem standsIn_of_standing? {source : String} {position : Nat}
    {found : Analysis × List Stmt × Stmt} (stands : standing? source position = some found) :
    StandsIn source found.1 found.2.1 found.2.2 := by
  obtain ⟨⟨program, analysis⟩, checked, rest⟩ := Option.bind_eq_some_iff.1 stands
  split at rest
  · rename_i accepted
    obtain ⟨s, listed, rfl⟩ := Option.map_eq_some_iff.1 rest
    refine ⟨program, program.body.drop (position + 1), ?_, accepted, ?_⟩
    · cases outcome : check source with
      | error fault => rw [outcome] at checked; cases checked
      | ok result => rw [outcome] at checked; cases checked; rfl
    · obtain ⟨inside, rfl⟩ := List.getElem?_eq_some_iff.1 listed
      rw [List.getElem_cons_drop, List.take_append_drop]
  · cases rest

-- A function that adds one to a variable, which is changed before the function is called.
def incrementSource (first : String) : String :=
  "var x" ++ first ++ "; func f() { throw x + 1; } x = 5; show f();"

-- Two integers leave the same lines; a variable without a first value leaves others.
theorem incrementSource_lines : ∃ one two none,
    standing? (incrementSource " = 1") 1 = some one ∧
    standing? (incrementSource " = 20") 1 = some two ∧
    standing? (incrementSource "") 1 = some none ∧
    one.2.2.alike none.2.2 = true ∧
    (∀ width, Target.Stmt.allLines width 0 (one.2.2.lower one.1 []) =
      Target.Stmt.allLines width 0 (two.2.2.lower two.1 [])) ∧
    Target.Stmt.allLines 4 0 (one.2.2.lower one.1 []) ≠
      Target.Stmt.allLines 4 0 (none.2.2.lower none.1 []) := by
  have found : ((standing? (incrementSource " = 1") 1).any fun one =>
      (standing? (incrementSource " = 20") 1).any fun two =>
      (standing? (incrementSource "") 1).any fun none =>
        one.2.2.alike two.2.2 && one.2.2.alike none.2.2 &&
        decide (∀ x ∈ one.2.2.allNames, globalTag? one.2.1 x = globalTag? two.2.1 x) &&
        decide (Target.Stmt.allLines 4 0 (one.2.2.lower one.1 []) ≠
          Target.Stmt.allLines 4 0 (none.2.2.lower none.1 []))) = true := by
    decide +kernel
  obtain ⟨one, first, found⟩ := (Option.any_eq_true ..).1 found
  obtain ⟨two, second, found⟩ := (Option.any_eq_true ..).1 found
  obtain ⟨none, third, found⟩ := (Option.any_eq_true ..).1 found
  simp only [Bool.and_eq_true, decide_eq_true_eq] at found
  obtain ⟨⟨⟨same, alike⟩, types⟩, different⟩ := found
  refine ⟨one, two, none, first, second, third, alike, ?_, different⟩
  exact lines_eq_of_global_types (standsIn_of_standing? first) (standsIn_of_standing? second) same
    types

end Scriptlet
