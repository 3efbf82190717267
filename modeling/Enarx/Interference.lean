import Enarx.Control

/-!
# Triples, and memory that another party writes

Pre- and postconditions for computations that may stop, with a condition for the
states in which they stop. `load` and `store` are accesses to a state that the
environment changes before each of them; the environment is told at which point
of the program it acts.
-/
namespace Enarx

namespace Exec

def Triple (P : σ → Prop) (run : Exec ε σ α) (Q : α → σ → Prop) (E : ε → σ → Prop) : Prop :=
  ∀ state, P state → run.Yields state Q E

theorem Preserves.triple {I : σ → Prop} {run : Exec ε σ α} (h : Preserves I run) :
    Triple I run (fun _ => I) fun _ _ => True :=
  fun _ hstate => (h.yields hstate).imp (fun _ _ => id) fun _ _ _ => trivial

namespace Triple

variable {P : σ → Prop} {Q : α → σ → Prop} {E : ε → σ → Prop} {run : Exec ε σ α}

theorem pure {value : α} (h : ∀ state, P state → Q value state) : Triple P (Pure.pure value : Exec ε σ α) Q E := h

theorem throw {error : ε} (h : ∀ state, P state → E error state) : Triple P (throw error : Exec ε σ α) Q E := h

theorem get : Triple P (MonadState.get : Exec ε σ σ) (fun value state => value = state ∧ P state) E :=
  fun _ hstate => ⟨rfl, hstate⟩

theorem update {Q : Unit → σ → Prop} {f : σ → σ} (h : ∀ state, P state → Q () (f state)) :
    Triple P (modify f : Exec ε σ Unit) Q E := h

theorem bind {R : β → σ → Prop} {next : α → Exec ε σ β} (h : Triple P run Q E)
    (hnext : ∀ value, Triple (Q value) (next value) R E) : Triple P (run >>= next) R E :=
  fun state hstate => (h state hstate).bind hnext

theorem imp {P' : σ → Prop} {Q' : α → σ → Prop} (h : Triple P run Q E) (hpre : ∀ state, P' state → P state)
    (hpost : ∀ value state, Q value state → Q' value state) : Triple P' run Q' E :=
  fun state hstate => (h state (hpre state hstate)).imp hpost fun _ _ => id

theorem ite {c : Prop} [Decidable c] {other : Exec ε σ α} (hpos : c → Triple P run Q E)
    (hneg : ¬c → Triple P other Q E) : Triple P (if c then run else other) Q E := by
  by_cases hc : c
  · rw [if_pos hc]
    exact hpos hc
  · rw [if_neg hc]
    exact hneg hc

theorem any : Triple P run (fun _ _ => True) (fun _ _ => True) := by
  intro state _
  unfold Yields
  rcases run state with ⟨_ | _, _⟩ <;> trivial

theorem exists_pre {P : ι → σ → Prop} (h : ∀ i, Triple (P i) run Q E) :
    Triple (fun state => ∃ i, P i state) run Q E := by
  rintro state ⟨i, hstate⟩
  exact h i state hstate

theorem final {R : σ → Prop} {state : σ} (h : Triple P run Q E) (hstate : P state)
    (hok : ∀ value state, Q value state → R state) (hstop : ∀ error state, E error state → R state) :
    R (run state).2 := by
  have hrun := h state hstate
  rcases hresult : run state with ⟨error | value, final⟩
  · exact hstop error final (hrun.error hresult)
  · exact hok value final (hrun.ok hresult)

theorem stop {state : σ} {error : ε} (h : Triple P run Q E) (hstate : P state)
    (hstop : (run state).1 = .error error) : E error (run state).2 :=
  (h state hstate).error (Prod.ext hstop rfl)

theorem ok {state final : σ} {value : α} (h : Triple P run Q E) (hstate : P state)
    (hok : run state = (.ok value, final)) : Q value final := (h state hstate).ok hok

theorem assume {fact : Prop} (hfact : ∀ state, P state → fact) (h : fact → Triple P run Q E) : Triple P run Q E :=
  fun state hstate => h (hfact state hstate) state hstate

end Triple

end Exec

namespace Interference

variable (env : π → σ → σ)

def load (point : π) (read : σ → α) : Exec ε σ α := fun state =>
  (.ok (read (env point state)), env point state)

def store (point : π) (write : σ → σ) : Exec ε σ Unit := fun state =>
  (.ok (), write (env point state))

def Keeps (view : σ → α) (points : List π) : Prop :=
  ∀ point ∈ points, ∀ state, view (env point state) = view state

variable {env} {P : σ → Prop} {E : ε → σ → Prop} {point : π}

theorem load_triple (hstable : ∀ state, P state → P (env point state)) (read : σ → α) :
    Exec.Triple P (load env point read) (fun value state => P state ∧ read state = value) E :=
  fun state hstate => ⟨hstable state hstate, rfl⟩

theorem store_triple {Q : σ → Prop} (hstable : ∀ state, P state → P (env point state))
    {write : σ → σ} (hwrite : ∀ state, P state → Q (write state)) :
    Exec.Triple P (store env point write) (fun _ => Q) E :=
  fun state hstate => hwrite _ (hstable state hstate)

theorem load_bind {R : β → σ → Prop} {next : α → Exec ε σ β} {read : σ → α}
    (hstable : ∀ state, P state → P (env point state)) (hnext : ∀ value, Exec.Triple P (next value) R E) :
    Exec.Triple P (load env point read >>= next) R E :=
  (load_triple hstable read).bind fun value =>
    (hnext value).imp (fun _ hstate => hstate.1) fun _ _ hpost => hpost

theorem store_bind {R : β → σ → Prop} {next : Unit → Exec ε σ β} {write : σ → σ}
    (hstable : ∀ state, P state → P (env point state)) (hwrite : ∀ state, P state → P (write state))
    (hnext : Exec.Triple P (next ()) R E) : Exec.Triple P (store env point write >>= next) R E :=
  (store_triple hstable hwrite).bind fun _ => hnext

end Interference

end Enarx
