import Scriptlet.Proofs.Target.Printed

/-!
Templates: texts with holes. Two texts are twins under two lists of spellings if they are one
template, filled with the one list and with the other. Whatever printing does to texts, it does to
twins, so two scripts are twins as soon as their expressions are.
-/

namespace Scriptlet

inductive Piece where
  | text (s : String)
  | hole
deriving DecidableEq

abbrev Template := List Piece

namespace Template

def holes : Template → Nat
  | [] => 0
  | .text _ :: rest => holes rest
  | .hole :: rest => holes rest + 1

-- The template with a spelling in each hole, in order.
def fill : Template → List String → String
  | [], _ => ""
  | .text s :: rest, spellings => s ++ fill rest spellings
  | .hole :: rest, spelling :: spellings => spelling ++ fill rest spellings
  | .hole :: rest, [] => fill rest []

attribute [simp] holes fill

theorem holes_append (first second : Template) :
    holes (first ++ second) = holes first + holes second := by
  induction first with
  | nil => simp [holes]
  | cons piece rest ih =>
    cases piece with
    | text s => simpa [holes] using ih
    | hole =>
      rw [List.cons_append, holes, holes, ih]
      omega

theorem fill_append {first second : Template} {spellings more : List String}
    (fits : first.holes = spellings.length) :
    fill (first ++ second) (spellings ++ more) = fill first spellings ++ fill second more := by
  induction first generalizing spellings with
  | nil =>
    have none : spellings = [] := List.length_eq_zero_iff.1 fits.symm
    simp [none, fill]
  | cons piece rest ih =>
    cases piece with
    | text s => rw [List.cons_append, fill, fill, ih fits, String.append_assoc]
    | hole =>
      cases spellings with
      | nil => cases fits
      | cons spelling spellings =>
        rw [List.cons_append, List.cons_append, fill, fill, ih (Nat.succ.inj fits),
          String.append_assoc]

-- Without empty spellings only a template without holes can give the empty text.
theorem holes_of_fill {template : Template} {spellings : List String}
    (fits : template.holes = spellings.length) (visible : ∀ s ∈ spellings, s ≠ "")
    (empty : template.fill spellings = "") : template.holes = 0 := by
  induction template generalizing spellings with
  | nil => rfl
  | cons piece rest ih =>
    cases piece with
    | text s =>
      rw [fill, String.append_eq_empty_iff] at empty
      exact ih fits visible empty.2
    | hole =>
      cases spellings with
      | nil => cases fits
      | cons spelling spellings =>
        rw [fill, String.append_eq_empty_iff] at empty
        exact absurd empty.1 (visible spelling List.mem_cons_self)

end Template

-- One template gives both texts, each with its own spellings, and has a hole for each of them.
def Twins (text text' : String) (spellings spellings' : List String) : Prop :=
  ∃ template : Template,
    template.holes = spellings.length ∧ template.holes = spellings'.length ∧
    text = template.fill spellings ∧ text' = template.fill spellings'

namespace Twins

variable {text text' next next' spelling spelling' : String}
  {spellings spellings' more more' : List String}

theorem fixed (text : String) : Twins text text [] [] :=
  ⟨[.text text], rfl, rfl, by simp [Template.fill], by simp [Template.fill]⟩

theorem hole (spelling spelling' : String) : Twins spelling spelling' [spelling] [spelling'] :=
  ⟨[.hole], rfl, rfl, by simp [Template.fill], by simp [Template.fill]⟩

theorem append (first : Twins text text' spellings spellings')
    (second : Twins next next' more more') :
    Twins (text ++ next) (text' ++ next') (spellings ++ more) (spellings' ++ more') := by
  obtain ⟨template, fits, fits', rfl, rfl⟩ := first
  obtain ⟨template', fits₂, fits₂', rfl, rfl⟩ := second
  refine ⟨template ++ template', ?_, ?_, ?_, ?_⟩
  · rw [Template.holes_append, fits, fits₂, List.length_append]
  · rw [Template.holes_append, fits', fits₂', List.length_append]
  · rw [Template.fill_append fits]
  · rw [Template.fill_append fits']

theorem before (twins : Twins text text' spellings spellings') (left : String) :
    Twins (left ++ text) (left ++ text') spellings spellings' :=
  (fixed left).append twins

theorem after (twins : Twins text text' spellings spellings') (right : String) :
    Twins (text ++ right) (text' ++ right) spellings spellings' := by
  simpa using twins.append (fixed right)

theorem symm (twins : Twins text text' spellings spellings') :
    Twins text' text spellings' spellings := by
  obtain ⟨template, fits, fits', filled, filled'⟩ := twins
  exact ⟨template, fits', fits, filled', filled⟩

theorem of_empty (twins : Twins "" text' spellings spellings') (visible : ∀ s ∈ spellings, s ≠ "") :
    text' = "" ∧ spellings = [] ∧ spellings' = [] := by
  obtain ⟨template, fits, fits', filled, rfl⟩ := twins
  have full := Template.holes_of_fill fits visible filled.symm
  have none : spellings = [] := List.length_eq_zero_iff.1 (by rw [← fits, full])
  have none' : spellings' = [] := List.length_eq_zero_iff.1 (by rw [← fits', full])
  refine ⟨?_, none, none'⟩
  rw [filled, none, none']

end Twins

-- Lists of texts that are twins one by one, with all their spellings.
inductive TwinLists : List String → List String → List String → List String → Prop
  | nil : TwinLists [] [] [] []
  | cons {text text' : String} {texts texts' spellings spellings' more more' : List String}
      (first : Twins text text' spellings spellings') (rest : TwinLists texts texts' more more') :
      TwinLists (text :: texts) (text' :: texts') (spellings ++ more) (spellings' ++ more')

namespace TwinLists

variable {text text' : String}
  {texts texts' next next' spellings spellings' more more' : List String}

theorem fixed (texts : List String) : TwinLists texts texts [] [] := by
  induction texts with
  | nil => exact .nil
  | cons text rest ih => exact .cons (.fixed text) ih

theorem single (twins : Twins text text' spellings spellings') :
    TwinLists [text] [text'] spellings spellings' := by
  simpa using TwinLists.cons twins .nil

theorem append (first : TwinLists texts texts' spellings spellings')
    (second : TwinLists next next' more more') :
    TwinLists (texts ++ next) (texts' ++ next') (spellings ++ more) (spellings' ++ more') := by
  induction first with
  | nil => exact second
  | cons twins rest ih =>
    simp only [List.cons_append, List.append_assoc]
    exact .cons twins ih

theorem nonempty (twins : Twins text text' spellings spellings')
    (visible : ∀ s ∈ spellings, s ≠ "") (visible' : ∀ s ∈ spellings', s ≠ "") :
    TwinLists ([text].filter (· != "")) ([text'].filter (· != "")) spellings spellings' := by
  by_cases empty : text = ""
  · subst empty
    obtain ⟨rfl, rfl, rfl⟩ := twins.of_empty visible
    exact .nil
  · have nonempty : text' ≠ "" := by
      rintro rfl
      exact empty (twins.symm.of_empty visible').1
    simpa [empty, nonempty] using TwinLists.single twins

theorem intercalate (twins : TwinLists texts texts' spellings spellings') (separator : String) :
    Twins (separator.intercalate texts) (separator.intercalate texts') spellings spellings' := by
  induction twins with
  | nil => exact .fixed _
  | cons first rest ih =>
    cases rest with
    | nil => simpa using first
    | cons second rest =>
      rw [String.intercalate_cons_cons, String.intercalate_cons_cons]
      exact (first.after separator).append ih

end TwinLists

namespace Target

namespace Expr

-- Expressions whose printed forms are twins.
def Twin (x x' : Expr) (spellings spellings' : List String) : Prop :=
  Twins x.print x'.print spellings spellings'

def TwinAll (xs xs' : List Expr) (spellings spellings' : List String) : Prop :=
  TwinLists (printAll xs) (printAll xs') spellings spellings'

namespace Twin

variable {x x' y y' : Expr} {xs xs' : List Expr} {spellings spellings' more more' : List String}

theorem fixed (x : Expr) : Twin x x [] [] := Twins.fixed x.print

theorem around (inner : Twin x x' spellings spellings') (left right : String)
    (same : y.print = left ++ x.print ++ right) (same' : y'.print = left ++ x'.print ++ right) :
    Twin y y' spellings spellings' := by
  rw [Twin, same, same']
  exact (inner.before left).after right

theorem listed (items : TwinAll xs xs' spellings spellings') (left right : String)
    (same : y.print = left ++ commaSeparated (printAll xs) ++ right)
    (same' : y'.print = left ++ commaSeparated (printAll xs') ++ right) :
    Twin y y' spellings spellings' := by
  rw [Twin, same, same']
  exact ((items.intercalate ", ").before left).after right

theorem call (items : TwinAll xs xs' spellings spellings') (function : String) :
    Twin (.call function xs) (.call function xs') spellings spellings' := by
  apply listed items (function ++ "(") ")"
  · rw [print]
  · rw [print]

theorem binary (left : Twin x x' spellings spellings') (right : Twin y y' more more')
    (op : Operator) :
    Twin (.binary op x y) (.binary op x' y') (spellings ++ more) (spellings' ++ more') := by
  rw [Twin, print, print]
  exact (((((left.before _).after _).after _).after _).append right).after _

theorem falseAfter (items : TwinAll xs xs' spellings spellings') :
    Twin (.falseAfter xs) (.falseAfter xs') spellings spellings' := by
  have listed := TwinLists.append items (.fixed ["False"])
  rw [List.append_nil, List.append_nil] at listed
  rw [Twin, print, print]
  exact ((listed.intercalate ", ").before _).after _

end Twin

namespace TwinAll

variable {x x' : Expr} {xs xs' : List Expr} {spellings spellings' more more' : List String}

theorem nil : TwinAll [] [] [] [] := TwinLists.nil

theorem cons (first : Twin x x' spellings spellings') (rest : TwinAll xs xs' more more') :
    TwinAll (x :: xs) (x' :: xs') (spellings ++ more) (spellings' ++ more') :=
  TwinLists.cons first rest

theorem single (only : Twin x x' spellings spellings') :
    TwinAll [x] [x'] spellings spellings' := TwinLists.single only

end TwinAll

end Expr

namespace Stmt

-- Statements whose lines are twins, however they are indented.
def TwinAll (body body' : List Stmt) (spellings spellings' : List String) : Prop :=
  ∀ width depth,
    TwinLists (allLines width depth body) (allLines width depth body') spellings spellings'

namespace TwinAll

variable {s s' : Stmt} {x x' : Expr} {body body' next next' : List Stmt}
  {spellings spellings' more more' : List String}

theorem fixed (body : List Stmt) : TwinAll body body [] [] := fun _ _ => .fixed _

theorem append (first : TwinAll body body' spellings spellings')
    (second : TwinAll next next' more more') :
    TwinAll (body ++ next) (body' ++ next') (spellings ++ more) (spellings' ++ more') := by
  intro width depth
  rw [allLines_append, allLines_append]
  exact (first width depth).append (second width depth)

theorem line (value : Expr.Twin x x' spellings spellings') (left : String)
    (same : ∀ width depth, s.lines width depth = [indented width depth (left ++ x.print)])
    (same' : ∀ width depth, s'.lines width depth = [indented width depth (left ++ x'.print)]) :
    TwinAll [s] [s'] spellings spellings' := by
  intro width depth
  simp only [allLines, same, same', List.append_nil]
  exact .single ((value.before left).before _)

theorem bare (value : Expr.Twin x x' spellings spellings') :
    TwinAll [.expression x] [.expression x'] spellings spellings' := by
  apply line value ""
  · intro width depth
    simp [lines]
  · intro width depth
    simp [lines]

theorem function (twins : TwinAll body body' spellings spellings') (name : String)
    (parameters : List String) :
    TwinAll [.function name parameters body] [.function name parameters body'] spellings
      spellings' := by
  intro width depth
  simp only [allLines, lines, List.append_nil]
  exact .cons (.fixed _) (twins width (depth + 1))

end TwinAll

end Stmt

-- A whole script. The section of the statements is left out of both or of none.
theorem scriptText_twins {body body' : List Stmt} {spellings spellings' : List String}
    (twins : Stmt.TwinAll body body' spellings spellings') (visible : ∀ s ∈ spellings, s ≠ "")
    (visible' : ∀ s ∈ spellings', s ≠ "") (options : CompileOptions) :
    Twins (scriptText options body) (scriptText options body') spellings spellings' := by
  unfold scriptText
  dsimp only
  generalize max options.indentWidth 1 = width
  have middle := (twins width 0).intercalate "\n"
  generalize "\n".intercalate (Stmt.allLines width 0 body) = text at middle
  generalize "\n".intercalate (Stmt.allLines width 0 body') = text' at middle
  have kept := TwinLists.nonempty middle visible visible'
  have whole := ((TwinLists.fixed ([Script.preamble width].filter (· != ""))).append kept).append
    (.fixed ((if options.entryGuard then [Script.entryGuard width] else []).filter (· != "")))
  simp only [← List.filter_append, List.nil_append, List.append_nil] at whole
  exact (whole.intercalate "\n\n").after "\n"

end Target

end Scriptlet
