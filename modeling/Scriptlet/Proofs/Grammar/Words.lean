import Scriptlet.Proofs.Grammar.PostOrder
import Scriptlet.Proofs.Grammar.Spans
import Scriptlet.Proofs.Token.Offence

/-!
Lines, columns and the numbers of nodes in words of 32 bits, which wrap around. With fewer than
`2 ^ 32 - 1` characters in the source text none of them does.
-/

namespace Scriptlet

theorem Position.step_le (p : Position) (c : Char) :
    (p.step c).line ≤ p.line + 1 ∧ (p.step c).column ≤ p.column + 1 := by
  unfold step
  split
  · exact ⟨Nat.le_refl _, Nat.le_add_left ..⟩
  · exact ⟨Nat.le_succ _, Nat.le_refl _⟩

structure WordPosition where
  line : UInt32
  column : UInt32

namespace WordPosition

variable {p : WordPosition} {cs : List Char} {c : Char}

def first : WordPosition := ⟨1, 1⟩

def step (p : WordPosition) (c : Char) : WordPosition :=
  if c = '\n' then ⟨p.line + 1, 1⟩ else ⟨p.line, p.column + 1⟩

def advance (p : WordPosition) (cs : List Char) : WordPosition := cs.foldl step p

def position (p : WordPosition) : Position := ⟨p.line.toNat, p.column.toNat⟩

theorem toNat_succ {w : UInt32} (room : w.toNat + 1 < UInt32.size) :
    (w + 1).toNat = w.toNat + 1 := by
  rw [UInt32.toNat_add]
  exact Nat.mod_eq_of_lt room

theorem step_position (lines : p.position.line + 1 < UInt32.size)
    (columns : p.position.column + 1 < UInt32.size) :
    (p.step c).position = p.position.step c := by
  unfold step Position.step
  split
  · rw [position, toNat_succ lines]
    rfl
  · rw [position, toNat_succ columns]
    rfl

-- A step adds at most one to the line and to the column, so what is left of the text bounds both.
theorem advance_position (lines : p.position.line + cs.length < UInt32.size)
    (columns : p.position.column + cs.length < UInt32.size) :
    (p.advance cs).position = p.position.advance cs := by
  induction cs generalizing p with
  | nil => rfl
  | cons c cs ih =>
    rw [List.length_cons] at lines columns
    have stepped : (p.step c).position = p.position.step c := step_position (by omega) (by omega)
    obtain ⟨line, column⟩ := p.position.step_le c
    have onward : ((p.step c).advance cs).position = (p.step c).position.advance cs := by
      apply ih
      · rw [stepped]
        omega
      · rw [stepped]
        omega
    rw [advance, List.foldl_cons, ← advance, onward, stepped]
    rfl

theorem advance_first (small : cs.length + 1 < UInt32.size) :
    (first.advance cs).position = .after cs := by
  have bound : 1 + cs.length < UInt32.size := Nat.add_comm 1 _ ▸ small
  rw [← Position.advance_first]
  exact advance_position bound bound

end WordPosition

-- The place is the end of some part at the front of the text, and the words come to it too.
def InWords (text : List Char) (p : Position) : Prop :=
  ∃ passed, passed <+: text ∧ p = .after passed ∧ (WordPosition.first.advance passed).position = p

theorem inWords {text passed : List Char} (part : passed <+: text)
    (small : text.length + 1 < UInt32.size) : InWords text (.after passed) :=
  ⟨passed, part, rfl, WordPosition.advance_first (Nat.lt_of_le_of_lt
    (Nat.succ_le_succ part.length_le) small)⟩

namespace Token

variable {source : String}

theorem ofSource_words {tokens : List Token} (small : source.toList.length + 1 < UInt32.size)
    (scanned : ofSource source = .ok tokens) : ∀ t ∈ tokens,
      InWords source.toList t.span.start ∧ InWords source.toList t.span.stop := by
  intro t listed
  obtain ⟨lead, tiles, tiling⟩ := ofSource_tiles scanned
  rw [tiling.ended, List.mem_append, List.mem_singleton] at listed
  rcases listed with inside | rfl
  · obtain ⟨tile, member, rfl⟩ := List.mem_map.1 inside
    obtain ⟨before, later, split⟩ := List.append_of_mem member
    have span := (tiling.fits before tile later split).span
    have text : source.toList =
        lead ++ before.flatMap Tile.text ++ tile.lexeme ++
          (tile.gap ++ later.flatMap Tile.text) := by
      rw [tiling.split, split]
      simp [Tile.text]
    rw [span]
    have front : lead ++ before.flatMap Tile.text <+: source.toList := by
      rw [text, List.append_assoc _ tile.lexeme]
      exact List.prefix_append ..
    exact ⟨inWords front small, inWords ⟨_, text.symm⟩ small⟩
  · exact ⟨inWords List.prefix_rfl small, inWords List.prefix_rfl small⟩

theorem ofSource_fault_words {fault : Fault} (small : source.toList.length + 1 < UInt32.size)
    (failed : ofSource source = .error fault) : InWords source.toList fault.position := by
  obtain ⟨before, rest, split, -, place, -⟩ := ofSource_offends failed
  rw [place]
  exact inWords ⟨rest, split.symm⟩ small

-- No lexeme is empty, so there are no more tokens than characters before the end mark.
theorem ofSource_length {tokens : List Token} (scanned : ofSource source = .ok tokens) :
    tokens.length ≤ source.toList.length + 1 := by
  obtain ⟨lead, tiles, tiling⟩ := ofSource_tiles scanned
  have each : ∀ tile ∈ tiles, 1 ≤ tile.text.length := by
    intro tile member
    obtain ⟨before, later, split⟩ := List.append_of_mem member
    have filled := (tiling.fits before tile later split).filled
    rw [Tile.text, List.length_append]
    exact Nat.le_add_right_of_le (List.length_pos_iff.2 filled)
  have tiled : tiles.length ≤ (tiles.flatMap Tile.text).length := by
    clear tiling
    induction tiles with
    | nil => exact Nat.zero_le _
    | cons tile tiles ih =>
      obtain ⟨first, others⟩ := List.forall_mem_cons.1 each
      have rest := ih others
      simp only [List.flatMap_cons, List.length_append, List.length_cons]
      omega
  rw [tiling.ended, tiling.split]
  simp only [List.length_append, List.length_map, List.length_singleton]
  omega

end Token

-- Between the numbers `n` and `m` there are no more than these tokens.
def Paced (n : Nat) (ts : List Token) (m : Nat) : Prop := m ≤ n + ts.length

namespace Paced

variable {n m k : Nat} {ts us : List Token} {t : Token}

theorem none (n : Nat) : Paced n [] n := Nat.le_refl n

theorem last (inside : Paced n ts m) : Paced n (t :: ts) (m + 1) := Nat.succ_le_succ inside

theorem first (inside : Paced (n + 1) ts m) : Paced n (t :: ts) m := by
  unfold Paced at inside ⊢
  rw [List.length_cons]
  omega

theorem append (left : Paced n ts m) (right : Paced m us k) : Paced n (ts ++ us) k := by
  unfold Paced at left right ⊢
  rw [List.length_append]
  omega

theorem before (inside : Paced n ts m) : Paced n (t :: ts) m := Nat.le_succ_of_le inside

theorem after (inside : Paced n ts m) : Paced n (ts ++ us) m :=
  inside.append (Nat.le_add_right m us.length)

end Paced

mutual

theorem Reads.paced : ∀ {layer n ts e m}, Reads layer n ts e m → Paced n ts m
  | _, _, _, _, _, .tighter _ inner => inner.paced
  | _, _, _, _, _, .binary left _ right => left.paced.append right.paced.last
  | _, _, _, _, _, .unary _ operand => operand.paced.last
  | _, _, _, _, _, .castBefore _ _ _ operand => operand.paced.last.before.before
  | _, _, _, _, _, .literal _ | _, _, _, _, _, .name _ => (Paced.none _).last
  | _, _, _, _, _, .call _ _ _ arguments => arguments.paced.last.first.after
  | _, _, _, _, _, .grouping _ _ inner => inner.paced.last.after
  | _, _, _, _, _, .castAround _ _ _ operand => operand.paced.last.before.after
  | _, _, _, _, _, .list _ _ items => items.paced.last.after

theorem ReadsItems.paced : ∀ {n ts es m}, ReadsItems n ts es m → Paced n ts m
  | _, _, _, _, .none => .none _
  | _, _, _, _, .last item => item.paced
  | _, _, _, _, .more item _ rest _ => item.paced.append rest.paced.before

end

theorem ReadsDeclarator.paced {n m : NodeId} {ts : List Token} {d : Declarator}
    (reads : ReadsDeclarator n ts d m) : Paced n ts m := by
  cases reads with
  | bare => exact (Paced.none n).before
  | initialized _ _ value => exact value.paced.before.before

theorem ReadsDeclarators.paced {n m : NodeId} {ts : List Token} {ds : List Declarator}
    (reads : ReadsDeclarators n ts ds m) : Paced n ts m := by
  induction reads with
  | last item => exact item.paced
  | more item _ _ ih => exact item.paced.append ih.before

mutual

theorem ReadsStatement.paced : ∀ {n ts s m}, ReadsStatement n ts s m → Paced n ts m
  | _, _, _, _, .declaration _ names _ => names.paced.before.after
  | _, _, _, _, .assignment _ _ value _ => value.paced.before.before.after
  | n, _, _, _, .function _ _ _ _ _ _ statements _ =>
    ((Paced.none n).after.append statements.paced.before.before).after
  | _, _, _, _, .output _ value _ | _, _, _, _, .throw _ value _ => value.paced.before.after
  | _, _, _, _, .expression value _ => value.paced.after

theorem ReadsBody.paced : ∀ {n ts body m}, ReadsBody n ts body m → Paced n ts m
  | _, _, _, _, .none => .none _
  | _, _, _, _, .more first rest => first.paced.append rest.paced

end

theorem ofTokens_numbers {tokens : List Token} {program : Program}
    (read : Program.ofTokens tokens = .ok program) :
    ∃ state, Parse.program.run (Parse.start tokens) = .ok program state ∧
      state.nextId ≤ tokens.length ∧ ∀ e ∈ program.nodes, e.id < state.nextId := by
  obtain ⟨state, ran⟩ := Parse.ofTokens_ok.1 read
  obtain ⟨ts, ender, rest, m, passed, -, reads⟩ := Parse.program_reads ran
  have next : state.nextId = m := by rw [passed.state]; rfl
  have paced : m ≤ ts.length := Nat.zero_add ts.length ▸ reads.paced
  refine ⟨state, ran, ?_, fun e inside => ?_⟩
  · rw [next]
    exact Nat.le_trans paced (Cursor.prefix_of_closed passed.split).length_le
  · have listed : e.id ∈ Stmt.idsAll program.body := by
      rw [← program.nodes_ids]
      exact List.mem_map_of_mem inside
    rw [next]
    exact (reads.numbered.within e.id listed).2

theorem ofSource_number_words {source : String} {program : Program}
    (small : source.toList.length + 1 < UInt32.size)
    (read : Program.ofSource source = .ok program) :
    ∀ e ∈ program.nodes, (UInt32.ofNat e.id).toNat = e.id := by
  intro e inside
  unfold Program.ofSource at read
  split at read
  · cases read
  · rename_i tokens scanned
    obtain ⟨state, -, few, below⟩ := ofTokens_numbers read
    have short := Token.ofSource_length scanned
    apply UInt32.toNat_ofNat_of_lt'
    calc
      e.id < state.nextId := below e inside
      _ ≤ tokens.length := few
      _ ≤ source.toList.length + 1 := short
      _ < UInt32.size := small

end Scriptlet
