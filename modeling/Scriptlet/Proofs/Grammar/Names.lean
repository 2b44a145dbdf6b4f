import Scriptlet.Compile
import Scriptlet.Proofs.Grammar.Exact
import Scriptlet.Proofs.Tree.Names

namespace Scriptlet

def IsName (name : String) : Prop := Pattern.IsIdentifier name.toList

-- All of these are names.
def AllNames (names : List String) : Prop := ∀ name ∈ names, IsName name

theorem Token.Lexical.isName {t : Token} (lexical : t.Lexical) (named : t.kind = .identifier) :
    IsName t.value := by
  have symbolic : ∀ row ∈ Pattern.symbols, row.1 ≠ .identifier := by decide
  have worded : ∀ row ∈ Pattern.reserved, row.2 ≠ .identifier := by decide
  cases lexical with
  | symbol listed => exact absurd named (symbolic _ listed)
  | reserved listed => exact absurd named (worded _ listed)
  | identifier isIdentifier => simpa [IsName] using isIdentifier
  | _ => cases named

namespace AllNames

variable {x : String} {xs ys : List String}

theorem nil : AllNames [] := by simp [AllNames]

theorem cons (first : IsName x) (others : AllNames xs) : AllNames (x :: xs) :=
  List.forall_mem_cons.2 ⟨first, others⟩

theorem append (left : AllNames xs) (right : AllNames ys) : AllNames (xs ++ ys) :=
  List.forall_mem_append.2 ⟨left, right⟩

end AllNames

mutual

theorem Reads.names : ∀ {layer n ts e m}, Reads layer n ts e m → AllLexical ts → AllNames e.names
  | _, _, _, _, _, .tighter _ inner, lexical => inner.names lexical
  | _, _, _, _, _, .binary left _ right, lexical =>
    (left.names lexical.append.1).append (right.names lexical.append.2.cons.2)
  | _, _, _, _, _, .unary _ operand, lexical => operand.names lexical.cons.2
  | _, _, _, _, _, .castBefore _ _ _ operand, lexical => operand.names lexical.cons.2.cons.2.cons.2
  | _, _, _, _, _, .literal _, _ => .nil
  | _, _, _, _, _, .name named, lexical => .cons (lexical.cons.1.isName named) .nil
  | _, _, _, _, _, .call named _ _ arguments, lexical =>
    .cons (lexical.cons.1.isName named) (arguments.names lexical.cons.2.inside)
  | _, _, _, _, _, .grouping _ _ inner, lexical => inner.names lexical.inside
  | _, _, _, _, _, .castAround _ _ _ operand, lexical => operand.names lexical.cons.2.inside
  | _, _, _, _, _, .list _ _ items, lexical => items.names lexical.inside

theorem ReadsItems.names : ∀ {n ts es m}, ReadsItems n ts es m → AllLexical ts →
    AllNames (Expr.namesAll es)
  | _, _, _, _, .none, _ => .nil
  | _, _, _, _, .last item, lexical => (item.names lexical).append .nil
  | _, _, _, _, .more item _ rest _, lexical =>
    (item.names lexical.append.1).append (rest.names lexical.append.2.cons.2)

end

theorem ReadsDeclarator.names {n m : NodeId} {ts : List Token} {d : Declarator}
    (reads : ReadsDeclarator n ts d m) (lexical : AllLexical ts) : AllNames d.names := by
  cases reads with
  | bare named => exact .cons (lexical.cons.1.isName named) .nil
  | initialized named _ value =>
    exact .cons (lexical.cons.1.isName named) (value.names lexical.cons.2.cons.2)

theorem ReadsDeclarators.names {n m : NodeId} {ts : List Token} {ds : List Declarator}
    (reads : ReadsDeclarators n ts ds m) (lexical : AllLexical ts) :
    AllNames (ds.flatMap Declarator.names) := by
  induction reads with
  | last item => simpa using item.names lexical
  | more item _ _ ih =>
    rw [List.flatMap_cons]
    exact (item.names lexical.append.1).append (ih lexical.append.2.cons.2)

theorem ReadsParameters.names {ts : List Token} {ps : List Parameter}
    (reads : ReadsParameters ts ps)
    (lexical : AllLexical ts) : AllNames (ps.map (·.name)) := by
  induction reads with
  | none => exact .nil
  | last named => exact .cons (lexical.cons.1.isName named) .nil
  | more named _ _ _ ih => exact .cons (lexical.cons.1.isName named) (ih lexical.cons.2.cons.2)

mutual

theorem ReadsStatement.names : ∀ {n ts stmt m}, ReadsStatement n ts stmt m → AllLexical ts →
    AllNames stmt.allNames
  | _, _, _, _, .declaration _ names _, lexical => names.names lexical.inside
  | _, _, _, _, .assignment named _ value _, lexical =>
    .cons (lexical.cons.1.isName named) (value.names lexical.cons.2.inside)
  | _, _, _, _, .function _ named _ parameters _ _ statements _, lexical =>
    .cons (lexical.append.1.append.1.cons.2.cons.1.isName named)
      ((parameters.names lexical.append.1.append.1.cons.2.cons.2.cons.2).append
        (statements.names lexical.append.1.append.2.cons.2.cons.2))
  | _, _, _, _, .output _ value _, lexical => value.names lexical.inside
  | _, _, _, _, .throw _ value _, lexical => value.names lexical.inside
  | _, _, _, _, .expression value _, lexical => value.names lexical.append.1

theorem ReadsBody.names : ∀ {n ts body m}, ReadsBody n ts body m → AllLexical ts →
    AllNames (Stmt.allNamesAll body)
  | _, _, _, _, .none, _ => .nil
  | _, _, _, _, .more first rest, lexical =>
    (first.names lexical.append.1).append (rest.names lexical.append.2)

end

theorem ofSource_reads {source : String} {program : Program}
    (read : Program.ofSource source = .ok program) :
    ∃ ts m, AllLexical ts ∧ ReadsBody 0 ts program.body m := by
  unfold Program.ofSource at read
  split at read
  · cases read
  · rename_i tokens scanned
    obtain ⟨body, stop, rfl, lexical⟩ := Token.ofSource_ended scanned
    obtain ⟨m, reads⟩ := ofTokens_readsBody lexical rfl read
    exact ⟨body, m, lexical, reads⟩

theorem ofSource_names {source : String} {program : Program}
    (read : Program.ofSource source = .ok program) : AllNames (Stmt.allNamesAll program.body) := by
  obtain ⟨ts, m, lexical, reads⟩ := ofSource_reads read
  exact reads.names lexical

end Scriptlet
