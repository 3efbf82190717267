import Mathlib.Logic.Function.Basic

/-!
# Runs of a transition system

A system takes an event in a state if `step` gives a next state. Rules for what
holds in every state of a run, and for an object that one process at a time may
hold.
-/
namespace Enarx

namespace Runs

variable {σ ε : Type} (step : σ → ε → Option σ)

def exec : σ → List ε → Option σ
  | state, [] => some state
  | state, event :: events => (step state event).bind (exec · events)

def Always (P : σ → Prop) : σ → List ε → Prop
  | state, [] => P state
  | state, event :: events =>
    P state ∧ ∀ next, step state event = some next → Always P next events

/-- Every event of the run meets the condition in the state in which it happens. -/
def Each (C : σ → ε → Prop) : σ → List ε → Prop
  | _, [] => True
  | state, event :: events =>
    ∀ next, step state event = some next → C state event ∧ Each C next events

/-- Every event that the run comes to meets the condition there, also one that cannot happen. -/
def Meets (C : σ → ε → Prop) : σ → List ε → Prop
  | _, [] => True
  | state, event :: events =>
    C state event ∧ ∀ next, step state event = some next → Meets C next events

variable {step} {I P : σ → Prop} {C : σ → ε → Prop} {state : σ}

theorem Always.here {events : List ε} (h : Always step P state events) : P state := by
  cases events with
  | nil => exact h
  | cons event events => exact h.1

theorem Always.imp {Q : σ → Prop} {events : List ε} (h : Always step P state events)
    (himp : ∀ state, P state → Q state) : Always step Q state events := by
  induction events generalizing state with
  | nil => exact himp state h
  | cons event events ih => exact ⟨himp state h.1, fun next hnext => ih (h.2 next hnext)⟩

theorem Always.final {events : List ε} {last : σ} (h : Always step P state events)
    (hexec : exec step state events = some last) : P last := by
  induction events generalizing state with
  | nil =>
    cases hexec
    exact h
  | cons event events ih =>
    obtain ⟨next, hnext, hrest⟩ := Option.bind_eq_some_iff.mp hexec
    exact ih (h.2 next hnext) hrest

theorem always_of_invariant
    (hstep : ∀ state event next, P state → step state event = some next → P next) (h : P state)
    (events : List ε) : Always step P state events := by
  induction events generalizing state with
  | nil => exact h
  | cons event events ih => exact ⟨h, fun next hnext => ih (hstep state event next h hnext)⟩

theorem always_of_each
    (hstep : ∀ state event next, P state → C state event → step state event = some next → P next) (h : P state)
    {events : List ε} (hevents : Each step C state events) : Always step P state events := by
  induction events generalizing state with
  | nil => exact h
  | cons event events ih =>
    refine ⟨h, fun next hnext => ?_⟩
    obtain ⟨hmeets, hrest⟩ := hevents next hnext
    exact ih (hstep state event next h hmeets hnext) hrest

theorem always_iff_each (hinv : ∀ state event next, I state → step state event = some next → I next)
    (hstep : ∀ state event next, I state → P state → step state event = some next → (P next ↔ C state event))
    (hI : I state) (hP : P state) (events : List ε) :
    Always step P state events ↔ Each step C state events := by
  induction events generalizing state with
  | nil => exact ⟨fun _ => trivial, fun _ => hP⟩
  | cons event events ih =>
    constructor
    · intro h next hnext
      have hkept := (hstep state event next hI hP hnext).mp (h.2 next hnext).here
      have hnextP := (hstep state event next hI hP hnext).mpr hkept
      exact ⟨hkept, (ih (hinv state event next hI hnext) hnextP).mp (h.2 next hnext)⟩
    · intro h
      refine ⟨hP, fun next hnext => ?_⟩
      obtain ⟨hkept, hrest⟩ := h next hnext
      have hnextP := (hstep state event next hI hP hnext).mpr hkept
      exact (ih (hinv state event next hI hnext) hnextP).mpr hrest

theorem meets_iff_forall {D R : ε → Prop}
    (hinv : ∀ state event next, I state → R event → step state event = some next → I next)
    (hstep : ∀ state event, I state → R event → (C state event ↔ D event))
    (hgoes : ∀ state event, C state event → (step state event).isSome)
    (hI : I state) (events : List ε) (hR : ∀ event ∈ events, R event) :
    Meets step C state events ↔ ∀ event ∈ events, D event := by
  induction events generalizing state with
  | nil => simp [Meets]
  | cons event events ih =>
    rw [List.forall_mem_cons] at hR ⊢
    have hhere := hstep state event hI hR.1
    constructor
    · rintro ⟨hmeets, hrest⟩
      obtain ⟨next, hnext⟩ := Option.isSome_iff_exists.mp (hgoes state event hmeets)
      exact ⟨hhere.mp hmeets, (ih (hinv state event next hI hR.1 hnext) hR.2).mp (hrest next hnext)⟩
    · rintro ⟨hmeets, hrest⟩
      exact ⟨hhere.mpr hmeets, fun next hnext =>
        (ih (hinv state event next hI hR.1 hnext) hR.2).mpr hrest⟩

end Runs

/-- `taken` says that somebody holds the object, and nobody else does. -/
structure Token {ι : Type} (holds : ι → Prop) (taken : Prop) : Prop where
  taken_iff : taken ↔ ∃ i, holds i
  unique : ∀ {i j}, holds i → holds j → i = j

namespace Token

variable {ι α : Type} [DecidableEq ι] {P : α → Prop} {states : ι → α} {taken : Prop} {i : ι} {value : α}

theorem keep {taken' : Prop} (h : Token (fun j => P (states j)) taken) (hiff : P value ↔ P (states i))
    (htaken : taken' ↔ taken) : Token (fun j => P (Function.update states i value j)) taken' := by
  have hsame : (fun j => P (Function.update states i value j)) = fun j => P (states j) := by
    funext j
    by_cases hj : j = i
    · subst hj
      rw [Function.update_self]
      exact propext hiff
    · rw [Function.update_of_ne hj]
  rw [hsame, htaken]
  exact h

theorem acquire {taken' : Prop} (h : Token (fun j => P (states j)) taken) (hfree : ¬taken)
    (hvalue : P value) (htaken : taken') : Token (fun j => P (Function.update states i value j)) taken' := by
  have hnone : ∀ j, P (Function.update states i value j) → j = i := by
    intro j hj
    by_contra hne
    rw [Function.update_of_ne hne] at hj
    exact hfree (h.taken_iff.mpr ⟨j, hj⟩)
  refine ⟨⟨fun _ => ⟨i, ?_⟩, fun _ => htaken⟩, fun hj hk => (hnone _ hj).trans (hnone _ hk).symm⟩
  rw [Function.update_self]
  exact hvalue

theorem release {taken' : Prop} (h : Token (fun j => P (states j)) taken) (hholds : P (states i))
    (hvalue : ¬P value) (hfree : ¬taken') : Token (fun j => P (Function.update states i value j)) taken' := by
  have hnone : ∀ j, ¬P (Function.update states i value j) := by
    intro j hj
    by_cases hji : j = i
    · subst hji
      rw [Function.update_self] at hj
      exact hvalue hj
    · rw [Function.update_of_ne hji] at hj
      exact hji (h.unique hj hholds)
  exact ⟨⟨fun htaken => absurd htaken hfree, fun ⟨j, hj⟩ => absurd hj (hnone j)⟩, fun hj => absurd hj (hnone _)⟩

end Token

end Enarx
