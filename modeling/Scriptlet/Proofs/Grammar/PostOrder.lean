import Mathlib.Data.List.ReduceOption
import Scriptlet.Proofs.Outcome
import Scriptlet.Proofs.Tree.Nodes

/-!
The numbers of nodes, without gaps. Reading a call takes a number for its callee, which no node of
the tree keeps, before the first argument is read. With an empty slot for each of these, a node
stands in the list of all slots at the place that its number says.
-/

namespace Scriptlet

mutual

-- One slot for each number that is taken, in order: a node, or nothing for the callee of a call.
def Expr.slots : Expr → List (Option Expr)
  | .literal node value => [some (.literal node value)]
  | .identifier node name => [some (.identifier node name)]
  | .call node callee calleeSpan arguments =>
    none :: Expr.slotsAll arguments ++ [some (.call node callee calleeSpan arguments)]
  | .list node items => Expr.slotsAll items ++ [some (.list node items)]
  | .binary node op left right => left.slots ++ right.slots ++ [some (.binary node op left right)]
  | .unary node op operand => operand.slots ++ [some (.unary node op operand)]
  | .cast node target operand => operand.slots ++ [some (.cast node target operand)]
  | .grouping node inner => inner.slots ++ [some (.grouping node inner)]

def Expr.slotsAll : List Expr → List (Option Expr)
  | [] => []
  | e :: es => e.slots ++ Expr.slotsAll es

end

-- Everything inside an expression, itself left out.
def Expr.descendants (e : Expr) : List Expr := e.parts.flatMap Expr.nodes

def Program.slots (program : Program) : List (Option Expr) :=
  (Stmt.rootsAll program.body).flatMap Expr.slots

namespace Expr

theorem slotsAll_eq (es : List Expr) : slotsAll es = es.flatMap slots := by
  induction es with
  | nil => rfl
  | cons e es ih => rw [slotsAll, ih, List.flatMap_cons]

theorem slots_eq (e : Expr) :
    e.slots = (if e.isCall then [none] else []) ++ e.parts.flatMap slots ++ [some e] := by
  cases e <;> simp [slots, parts, slotsAll_eq, isCall]

theorem slots_filled (e : Expr) : e.slots.reduceOption = e.nodes := by
  induction e using induction_on_parts with
  | whole e ih =>
    have inside : (e.parts.flatMap slots).reduceOption = e.parts.flatMap nodes :=
      List.filterMap_flatMap.trans (List.flatMap_congr ih)
    rw [slots_eq, nodes_eq, List.reduceOption_append, List.reduceOption_append, inside]
    cases e.isCall <;> rfl

theorem length_flatMap_slots {es : List Expr}
    (each : ∀ e ∈ es, e.slots.length = e.nodes.length + e.nodes.countP isCall) :
    (es.flatMap slots).length =
      (es.flatMap nodes).length + (es.flatMap nodes).countP isCall := by
  induction es with
  | nil => rfl
  | cons e es ih =>
    obtain ⟨first, others⟩ := List.forall_mem_cons.1 each
    simp only [List.flatMap_cons, List.length_append, List.countP_append, first, ih others]
    omega

theorem length_slots (e : Expr) : e.slots.length = e.nodes.length + e.nodes.countP isCall := by
  induction e using induction_on_parts with
  | whole e ih =>
    have inside := length_flatMap_slots ih
    rw [slots_eq, nodes_eq]
    cases called : e.isCall <;>
      simp only [List.length_append, List.countP_append, List.countP_singleton, called, inside,
        List.length_singleton, List.length_nil, reduceIte, Bool.false_eq_true] <;> omega

theorem nodes_sublist {e n : Expr} (inside : n ∈ e.nodes) : n.nodes.Sublist e.nodes := by
  induction e using induction_on_parts with
  | whole e ih =>
    have whole := nodes_eq e
    rw [whole] at inside
    rcases List.mem_append.1 inside with deeper | here
    · obtain ⟨part, listed, inside⟩ := List.mem_flatMap.1 deeper
      have inPart := ih part listed inside
      have inParts : part.nodes.Sublist (e.parts.flatMap nodes) :=
        List.sublist_flatten_of_mem (List.mem_map_of_mem listed)
      exact whole ▸ (inPart.trans inParts).trans (List.sublist_append_left _ _)
    · cases List.mem_singleton.1 here
      exact .refl _

theorem descendants_lt {nodes : List Expr} {e d : Expr}
    (increasing : (nodes.map id).Pairwise (· < ·))
    (listed : e.nodes.Sublist nodes) (below : d ∈ e.descendants) : d.id < e.id := by
  have own : ((e.parts.flatMap Expr.nodes ++ [e]).map id).Pairwise (· < ·) := by
    rw [← nodes_eq]
    exact increasing.sublist (listed.map id)
  rw [List.map_append, List.pairwise_append] at own
  exact own.2.2 d.id (List.mem_map_of_mem below) e.id (by simp)

end Expr

-- The slots have the numbers from `n` on, in order, and `m` comes after them.
structure Enumerates (n : NodeId) (slots : List (Option Expr)) (m : NodeId) : Prop where
  next : m = n + slots.length
  numbered : ∀ (i : Nat) (e : Expr), slots[i]? = some (some e) → e.id = n + i

namespace Enumerates

theorem nil (n : NodeId) : Enumerates n [] n := ⟨rfl, by simp⟩

theorem dropped (n : NodeId) : Enumerates n [none] (n + 1) :=
  ⟨rfl, fun i e here => by cases i <;> simp at here⟩

theorem append {n m k : NodeId} {first second : List (Option Expr)} (left : Enumerates n first m)
    (right : Enumerates m second k) : Enumerates n (first ++ second) k := by
  obtain ⟨rfl, early⟩ := left
  obtain ⟨rfl, late⟩ := right
  refine ⟨by rw [List.length_append, Nat.add_assoc], fun i e here => ?_⟩
  rcases Nat.lt_or_ge i first.length with before | after
  · rw [List.getElem?_append_left before] at here
    exact early i e here
  · rw [List.getElem?_append_right after] at here
    rw [late _ e here, Nat.add_assoc, Nat.add_sub_cancel' after]

theorem parent {n m : NodeId} {slots : List (Option Expr)} {e : Expr}
    (children : Enumerates n slots m) (own : e.id = m) :
    Enumerates n (slots ++ [some e]) (m + 1) := by
  refine children.append ⟨rfl, fun i found here => ?_⟩
  cases i with
  | zero =>
    cases here
    exact own
  | succ i => simp at here

end Enumerates

mutual

theorem Reads.enumerates : ∀ {layer n ts e m}, Reads layer n ts e m → Enumerates n e.slots m
  | _, _, _, _, _, .tighter _ inner => inner.enumerates
  | _, _, _, _, _, .binary left _ right => (left.enumerates.append right.enumerates).parent rfl
  | _, _, _, _, _, .unary _ operand => operand.enumerates.parent rfl
  | _, _, _, _, _, .castBefore _ _ _ operand => operand.enumerates.parent rfl
  | _, _, _, _, _, .literal _ => (Enumerates.nil _).parent rfl
  | _, _, _, _, _, .name _ => (Enumerates.nil _).parent rfl
  | _, _, _, _, _, .call _ _ _ arguments =>
    ((Enumerates.dropped _).append arguments.enumerates).parent rfl
  | _, _, _, _, _, .grouping _ _ inner => inner.enumerates.parent rfl
  | _, _, _, _, _, .castAround _ _ _ operand => operand.enumerates.parent rfl
  | _, _, _, _, _, .list _ _ items => items.enumerates.parent rfl

theorem ReadsItems.enumerates : ∀ {n ts es m}, ReadsItems n ts es m →
    Enumerates n (Expr.slotsAll es) m
  | _, _, _, _, .none => .nil _
  | _, _, _, _, .last item => item.enumerates.append (.nil _)
  | _, _, _, _, .more item _ rest _ => item.enumerates.append rest.enumerates

end

theorem Reads.root {layer : Layer} {n m : NodeId} {ts : List Token} {e : Expr}
    (reads : Reads layer n ts e m) : Enumerates n ([e].flatMap Expr.slots) m := by
  simpa using reads.enumerates

theorem ReadsDeclarators.enumerates {n m : NodeId} {ts : List Token} {ds : List Declarator}
    (reads : ReadsDeclarators n ts ds m) :
    Enumerates n ((ds.filterMap (·.value)).flatMap Expr.slots) m := by
  induction reads with
  | last item =>
    cases item with
    | bare => exact .nil _
    | initialized _ _ value => exact value.root
  | more item _ _ ih =>
    cases item with
    | bare => exact ih
    | initialized _ _ value => exact value.enumerates.append ih

mutual

theorem ReadsStatement.enumerates : ∀ {n ts s m}, ReadsStatement n ts s m →
    Enumerates n (s.roots.flatMap Expr.slots) m
  | _, _, _, _, .declaration _ names _ => names.enumerates
  | _, _, _, _, .assignment _ _ value _ => value.root
  | _, _, _, _, .function _ _ _ _ _ _ statements _ => statements.enumerates
  | _, _, _, _, .output _ value _ => value.root
  | _, _, _, _, .throw _ value _ => value.root
  | _, _, _, _, .expression value _ => value.root

theorem ReadsBody.enumerates : ∀ {n ts body m}, ReadsBody n ts body m →
    Enumerates n ((Stmt.rootsAll body).flatMap Expr.slots) m
  | _, _, _, _, .none => .nil _
  | _, _, _, _, .more first rest => by
    rw [Stmt.rootsAll, List.flatMap_append]
    exact first.enumerates.append rest.enumerates

end

namespace Program

theorem slots_filled (program : Program) : program.slots.reduceOption = program.nodes :=
  List.filterMap_flatMap.trans (List.flatMap_congr fun e _ => e.slots_filled)

theorem length_slots (program : Program) :
    program.slots.length = program.nodes.length + program.nodes.countP Expr.isCall :=
  Expr.length_flatMap_slots fun e _ => e.length_slots

theorem nodes_ids (program : Program) : program.nodes.map Expr.id = Stmt.idsAll program.body := by
  rw [nodes, List.map_flatMap, Stmt.idsAll_roots]
  exact List.flatMap_congr fun e _ => e.nodes_ids

theorem nodes_sublist {program : Program} {e : Expr} (inside : e ∈ program.nodes) :
    e.nodes.Sublist program.nodes := by
  obtain ⟨root, listed, inside⟩ := List.mem_flatMap.1 inside
  exact (Expr.nodes_sublist inside).trans
    (List.sublist_flatten_of_mem (List.mem_map_of_mem listed))

end Program

theorem ofTokens_postorder {tokens : List Token} {program : Program}
    (read : Program.ofTokens tokens = .ok program) :
    ∃ state, Parse.program.run (Parse.start tokens) = .ok program state ∧
      program.slots.reduceOption = program.nodes ∧
      (∀ (i : Nat) (e : Expr), program.slots[i]? = some (some e) → e.id = i) ∧
      (program.nodes.map Expr.id).Nodup ∧
      (∀ e ∈ program.nodes, ∀ d ∈ e.descendants, d.id < e.id) ∧
      state.nextId = program.slots.length ∧
      state.nextId = program.nodes.length + program.nodes.countP Expr.isCall := by
  obtain ⟨state, ran⟩ := Parse.ofTokens_ok.1 read
  obtain ⟨ts, ender, rest, m, passed, -, reads⟩ := Parse.program_reads ran
  obtain ⟨counted, numbered⟩ := reads.enumerates
  have increasing : (program.nodes.map Expr.id).Pairwise (· < ·) := by
    rw [program.nodes_ids]
    exact reads.numbered.increasing
  have next : state.nextId = program.slots.length := by
    rw [passed.state]
    exact counted.trans (Nat.zero_add _)
  refine ⟨state, ran, program.slots_filled, fun i e here => ?_, increasing.imp Nat.ne_of_lt,
    fun e inside d below => ?_, next, next.trans program.length_slots⟩
  · exact (numbered i e here).trans (Nat.zero_add i)
  · exact Expr.descendants_lt increasing (Program.nodes_sublist inside) below

-- `f(1, g());`: the callees take the numbers 0 and 2.
def callTokens : List Token :=
  let contents : List (TokenKind × String) :=
    [(.identifier, "f"), (.openParen, "("), (.integerLiteral, "1"), (.comma, ","),
      (.identifier, "g"), (.openParen, "("), (.closeParen, ")"), (.closeParen, ")"),
      (.semicolon, ";")]
  contents.map fun content => ⟨content.1, content.2, default⟩

theorem callTokens_postorder : ∃ program state, Program.ofTokens callTokens = .ok program ∧
    Parse.program.run (Parse.start callTokens) = .ok program state ∧
    program.nodes.map Expr.id = [1, 3, 4] ∧ program.nodes.countP Expr.isCall = 2 ∧
    (∀ (i : Nat) (e : Expr), program.slots[i]? = some (some e) → e.id = i) ∧
    state.nextId = 5 := by
  have found : ((Program.ofTokens callTokens).toOption.any fun program =>
      decide (program.nodes.map Expr.id = [1, 3, 4] ∧ program.nodes.countP Expr.isCall = 2 ∧
        program.nodes.length = 3)) = true := by
    decide +kernel
  obtain ⟨program, read, holds⟩ := ok_of_any found
  obtain ⟨numbers, calls, length⟩ := of_decide_eq_true holds
  obtain ⟨state, ran, -, numbered, -, -, -, next⟩ := ofTokens_postorder read
  rw [length, calls] at next
  exact ⟨program, state, read, ran, numbers, calls, numbered, next⟩

end Scriptlet
