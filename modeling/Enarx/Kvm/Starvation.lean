import Enarx.Kvm.Outcomes

/-!
# Requests for more memory than there is

A request asks the host for memory until there is enough of it. When the host refuses for
good, the request goes on asking.
-/
namespace Enarx.Kvm

open Alloc

/-- A run comes back with a value or an error. -/
def Returns (run : Alloc ε α) (memory : Memory) : Prop :=
  (∃ value, (run memory).1 = .ok value) ∨ ∃ error, (run memory).1 = .error (.err error)

theorem Returns.of_yields {run : Alloc ε α} {memory : Memory} {good : Prop} {Q : α → Memory → Prop}
    {E : ε → Memory → Prop} (h : Exec.Yields run memory Q (Stop.Lets good E)) (hgood : good) : Returns run memory := by
  rcases hrun : run memory with ⟨(error | _ | _) | value, after⟩
  · exact .inr ⟨error, by rw [hrun]⟩
  · exact absurd hgood (h.error hrun)
  · exact absurd hgood (h.error hrun)
  · exact .inl ⟨value, by rw [hrun]⟩

section

variable {host : Host} {flags parentFlags : PageTableFlags} {memory : Memory} {mapTo : VirtAddr}

variable {bottom : Nat} {stale : Set Nat} {own : Nat → Owner} {size : Nat}

end

end Enarx.Kvm
