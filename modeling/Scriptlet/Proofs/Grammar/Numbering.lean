import Scriptlet.Proofs.Grammar.Names

/-!
The numbers of nodes. A tree is numbered from its leaves up and from left to right, so the nodes
of a program have different numbers.
-/

namespace Scriptlet

mutual

-- The numbers of the nodes, children before parents.
def Expr.ids : Expr → List NodeId
  | .literal node _ | .identifier node _ => [node.id]
  | .call node _ _ items | .list node items => Expr.idsAll items ++ [node.id]
  | .binary node _ left right => left.ids ++ right.ids ++ [node.id]
  | .unary node _ inner | .cast node _ inner | .grouping node inner => inner.ids ++ [node.id]

def Expr.idsAll : List Expr → List NodeId
  | [] => []
  | e :: es => e.ids ++ Expr.idsAll es

end

def Declarator.ids (d : Declarator) : List NodeId := d.value.elim [] Expr.ids

mutual

def Stmt.ids : Stmt → List NodeId
  | .declaration _ _ declarators => declarators.flatMap Declarator.ids
  | .function _ _ _ _ body => Stmt.idsAll body
  | .assignment _ _ _ _ value | .output _ value | .throw _ value | .expression _ value => value.ids

def Stmt.idsAll : List Stmt → List NodeId
  | [] => []
  | s :: rest => s.ids ++ Stmt.idsAll rest

end

-- The numbers increase, from `n` on and below `m`.
structure Numbered (n : NodeId) (ids : List NodeId) (m : NodeId) : Prop where
  forward : n ≤ m
  within : ∀ id ∈ ids, n ≤ id ∧ id < m
  increasing : ids.Pairwise (· < ·)

namespace Numbered

theorem gap {n m : NodeId} (forward : n ≤ m) : Numbered n [] m := ⟨forward, by simp, .nil⟩

theorem nil (n : NodeId) : Numbered n [] n := gap (Nat.le_refl n)

theorem append {n m k : NodeId} {first second : List NodeId} (left : Numbered n first m)
    (right : Numbered m second k) : Numbered n (first ++ second) k := by
  refine ⟨Nat.le_trans left.forward right.forward, fun id member => ?_, ?_⟩
  · rcases List.mem_append.1 member with early | late
    · exact ⟨(left.within id early).1, Nat.lt_of_lt_of_le (left.within id early).2 right.forward⟩
    · exact ⟨Nat.le_trans left.forward (right.within id late).1, (right.within id late).2⟩
  · refine List.pairwise_append.2 ⟨left.increasing, right.increasing, fun a early b late => ?_⟩
    exact Nat.lt_of_lt_of_le (left.within a early).2 (right.within b late).1

theorem parent {n m : NodeId} {ids : List NodeId} (children : Numbered n ids m) :
    Numbered n (ids ++ [m]) (m + 1) :=
  children.append ⟨Nat.le_succ m, by simp, List.pairwise_singleton ..⟩

end Numbered

mutual

theorem Reads.numbered : ∀ {layer n ts e m}, Reads layer n ts e m → Numbered n e.ids m
  | _, _, _, _, _, .tighter _ inner => inner.numbered
  | _, _, _, _, _, .binary left _ right => (left.numbered.append right.numbered).parent
  | _, _, _, _, _, .unary _ operand => operand.numbered.parent
  | _, _, _, _, _, .castBefore _ _ _ operand => operand.numbered.parent
  | _, _, _, _, _, .literal _ => (Numbered.nil _).parent
  | _, _, _, _, _, .name _ => (Numbered.nil _).parent
  | _, _, _, _, _, .call _ _ _ arguments =>
    ((Numbered.gap (Nat.le_succ _)).append arguments.numbered).parent
  | _, _, _, _, _, .grouping _ _ inner => inner.numbered.parent
  | _, _, _, _, _, .castAround _ _ _ operand => operand.numbered.parent
  | _, _, _, _, _, .list _ _ items => items.numbered.parent

theorem ReadsItems.numbered : ∀ {n ts es m}, ReadsItems n ts es m → Numbered n (Expr.idsAll es) m
  | _, _, _, _, .none => .nil _
  | _, _, _, _, .last item => item.numbered.append (.nil _)
  | _, _, _, _, .more item _ rest _ => item.numbered.append rest.numbered

end

theorem ReadsDeclarator.numbered {n m : NodeId} {ts : List Token} {d : Declarator}
    (reads : ReadsDeclarator n ts d m) : Numbered n d.ids m := by
  cases reads with
  | bare => exact .nil n
  | initialized _ _ value => exact value.numbered

theorem ReadsDeclarators.numbered {n m : NodeId} {ts : List Token} {ds : List Declarator}
    (reads : ReadsDeclarators n ts ds m) : Numbered n (ds.flatMap Declarator.ids) m := by
  induction reads with
  | last item => simpa using item.numbered
  | more item _ _ ih =>
    rw [List.flatMap_cons]
    exact item.numbered.append ih

mutual

theorem ReadsStatement.numbered : ∀ {n ts s m}, ReadsStatement n ts s m → Numbered n s.ids m
  | _, _, _, _, .declaration _ names _ => names.numbered
  | _, _, _, _, .assignment _ _ value _ => value.numbered
  | _, _, _, _, .function _ _ _ _ _ _ statements _ => statements.numbered
  | _, _, _, _, .output _ value _ => value.numbered
  | _, _, _, _, .throw _ value _ => value.numbered
  | _, _, _, _, .expression value _ => value.numbered

theorem ReadsBody.numbered : ∀ {n ts body m}, ReadsBody n ts body m →
    Numbered n (Stmt.idsAll body) m
  | _, _, _, _, .none => .nil _
  | _, _, _, _, .more first rest => first.numbered.append rest.numbered

end

theorem ofSource_numbered {source : String} {program : Program}
    (read : Program.ofSource source = .ok program) :
    (Stmt.idsAll program.body).Pairwise (· < ·) := by
  obtain ⟨ts, m, -, reads⟩ := ofSource_reads read
  exact reads.numbered.increasing

end Scriptlet
