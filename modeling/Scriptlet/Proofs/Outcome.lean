import Scriptlet.Fault

namespace Scriptlet

theorem ok_of_any {ε α : Type} {outcome : Except ε α} {holds : α → Bool}
    (found : outcome.toOption.any holds = true) : ∃ a, outcome = .ok a ∧ holds a = true := by
  cases outcome with
  | error => cases found
  | ok a => exact ⟨a, rfl, found⟩

theorem map_eq_ok {ε α β : Type} {x : Except ε α} {f : α → β} {b : β} (mapped : x.map f = .ok b) :
    ∃ a, x = .ok a ∧ f a = b := by
  cases x with
  | error e => cases mapped
  | ok a => cases mapped; exact ⟨a, rfl, rfl⟩

def faultOf? {α : Type} : Except Fault α → Option Fault
  | .error fault => some fault
  | .ok _ => none

theorem error_of_faultOf? {α : Type} {outcome : Except Fault α} {fault : Fault}
    (found : faultOf? outcome = some fault) : outcome = .error fault := by
  cases outcome with
  | error other => rw [Option.some.inj found]
  | ok => cases found

end Scriptlet
