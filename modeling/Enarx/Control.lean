import Mathlib.Control.Monad.Writer
import Mathlib.Data.List.Basic

/-!
# Computations that stop, computations that leave a trace

Rules for `Except`, for `Except` over an explicit state that survives an error,
and for computations that read an environment and log what they do.
-/
namespace Enarx

@[simp] theorem Except.ok_bind (value : α) (next : α → Except ε β) :
    ((Except.ok value : Except ε α) >>= next) = next value := rfl

@[simp] theorem Except.error_bind (error : ε) (next : α → Except ε β) :
    ((Except.error error : Except ε α) >>= next) = .error error := rfl

theorem Except.bind_eq_ok {run : Except ε α} {next : α → Except ε β} {result : β} :
    (run >>= next) = .ok result ↔ ∃ value, run = .ok value ∧ next value = .ok result := by
  cases run with
  | error error => simp
  | ok value => simp

theorem Except.bind_of_ok {run : Except ε α} {next : α → Except ε β} {value : α}
    {result : Except ε β} (h : run = .ok value) (hnext : next value = result) : (run >>= next) = result := by
  rw [h]
  exact hnext

theorem Except.exists_of_isOk {run : Except ε α} (h : run.isOk = true) : ∃ value, run = .ok value := by
  cases run with
  | error => cases h
  | ok value => exact ⟨value, rfl⟩

/-- What the computation returns, if it returns, has the property. -/
def Except.Ensures (P : α → Prop) (run : Except ε α) : Prop := ∀ value, run = .ok value → P value

namespace Except.Ensures

variable {P : α → Prop} {Q : β → Prop}

theorem any (run : Except ε α) : Ensures (fun _ => True) run := fun _ _ => trivial

theorem ok {value : α} (h : P value) : Ensures P (.ok value : Except ε α) := by
  intro result hresult
  cases hresult
  exact h

theorem error (error : ε) : Ensures P (.error error : Except ε α) := by
  intro result hresult
  cases hresult

theorem bind {run : Except ε β} {next : β → Except ε α} (h : Ensures Q run)
    (hnext : ∀ value, Q value → Ensures P (next value)) : Ensures P (run >>= next) := by
  intro result hresult
  obtain ⟨value, hrun, hvalue⟩ := Except.bind_eq_ok.mp hresult
  exact hnext value (h value hrun) result hvalue

theorem ite {p : Prop} [Decidable p] {left right : Except ε α} (hleft : p → Ensures P left)
    (hright : ¬p → Ensures P right) : Ensures P (if p then left else right) := by
  split
  · next h => exact hleft h
  · next h => exact hright h

end Except.Ensures

abbrev Exec (ε σ α : Type) := ExceptT ε (StateM σ) α

namespace Exec

theorem pure_apply (value : α) (state : σ) : (pure value : Exec ε σ α) state = (.ok value, state) := rfl

theorem lift_apply (run : Except ε α) (state : σ) : (liftM run : Exec ε σ α) state = (run, state) := rfl

theorem bind_apply (run : Exec ε σ α) (next : α → Exec ε σ β) (state : σ) :
    (run >>= next) state =
      match run state with
      | (.ok value, state) => next value state
      | (.error error, state) => (.error error, state) := by
  change (match run state with | (value, state) => ExceptT.bindCont next value state) = _
  rcases run state with ⟨_ | _, _⟩ <;> rfl

theorem tryCatch_apply (run : Exec ε σ α) (handle : ε → Exec ε σ α) (state : σ) :
    (tryCatch run handle) state =
      match run state with
      | (.ok value, state) => (.ok value, state)
      | (.error error, state) => handle error state := by
  change (match run state with | (value, state) => (match value with
    | .ok value => pure (.ok value)
    | .error error => handle error : StateM σ (Except ε α)) state) = _
  rcases run state with ⟨_ | _, _⟩ <;> rfl

variable {next : α → Exec ε σ β} {middle final : σ} {value : α}

theorem bind_of_ok {run : Exec ε σ α} {state : σ}
    (h : run state = (.ok value, middle)) : (run >>= next) state = next value middle := by
  rw [bind_apply, h]

theorem bind_of_error {run : Exec ε σ α} {state : σ} {error : ε}
    (h : run state = (.error error, middle)) : (run >>= next) state = (.error error, middle) := by
  rw [bind_apply, h]

theorem bind_ok {run : Exec ε σ α} {state : σ} {result : β} (h : (run >>= next) state = (.ok result, final)) :
    ∃ value middle, run state = (.ok value, middle) ∧ next value middle = (.ok result, final) := by
  rw [bind_apply] at h
  rcases hrun : run state with ⟨_ | value, middle⟩
  · rw [hrun] at h
    cases h
  · rw [hrun] at h
    exact ⟨value, middle, rfl, h⟩

theorem map_ok {run : Exec ε σ α} {state : σ} (f : α → β)
    (h : run state = (.ok value, final)) : (f <$> run) state = (.ok (f value), final) := by
  rw [map_eq_pure_bind, bind_apply, h]
  rfl

/-- A run from a state returns a value and a state in `Q` or stops in `E`. -/
def Yields (run : Exec ε σ α) (state : σ) (Q : α → σ → Prop) (E : ε → σ → Prop) : Prop :=
  match run state with
  | (.ok value, final) => Q value final
  | (.error error, final) => E error final

namespace Yields

variable {run : Exec ε σ α} {state : σ} {Q : α → σ → Prop} {E : ε → σ → Prop} {value : α}
  {final : σ} {R : β → σ → Prop} {next : α → Exec ε σ β} {E' : ε → σ → Prop} {Q' : α → σ → Prop}

theorem pure (h : Q value state) : Yields (Pure.pure value : Exec ε σ α) state Q E := h

theorem throw {error : ε} (h : E error state) : Yields (throw error : Exec ε σ α) state Q E := h

theorem ok (h : Yields run state Q E) (hrun : run state = (.ok value, final)) : Q value final := by
  rw [Yields, hrun] at h
  exact h

theorem error {error : ε} (h : Yields run state Q E)
    (hrun : run state = (.error error, final)) : E error final := by
  rw [Yields, hrun] at h
  exact h

theorem bind (h : Yields run state Q E)
    (hnext : ∀ value middle, Q value middle → Yields (next value) middle R E) :
    Yields (run >>= next) state R E := by
  rw [Yields] at h ⊢
  rw [bind_apply]
  rcases hrun : run state with ⟨_ | value, middle⟩ <;> rw [hrun] at h
  · exact h
  · exact hnext value middle h

theorem bind_of_ok {middle : σ}
    (hrun : run state = (.ok value, middle)) (hnext : Yields (next value) middle R E) :
    Yields (run >>= next) state R E := by
  rw [Yields, Exec.bind_of_ok hrun]
  exact hnext

theorem tryCatch {handle : ε → Exec ε σ α} (h : Yields run state Q E)
    (hhandle : ∀ error middle, E error middle → Yields (handle error) middle Q E') :
    Yields (tryCatch run handle) state Q E' := by
  rw [Yields] at h ⊢
  rw [tryCatch_apply]
  rcases hrun : run state with ⟨error | value, middle⟩ <;> rw [hrun] at h
  · exact hhandle error middle h
  · exact h

theorem bind_assoc {R : γ → σ → Prop} {last : β → Exec ε σ γ}
    (h : Yields ((run >>= next) >>= last) state R E) : Yields (run >>= fun value => next value >>= last) state R E := by
  rwa [LawfulMonad.bind_assoc] at h

theorem get_bind {next : σ → Exec ε σ α} (h : Yields (next state) state Q E) :
    Yields (get >>= next) state Q E := h

theorem modify_bind {next : PUnit → Exec ε σ α} {f : σ → σ} (h : Yields (next ()) (f state) Q E) :
    Yields (modify f >>= next) state Q E := h

theorem imp (h : Yields run state Q E) (hok : ∀ value final, Q value final → Q' value final)
    (hstop : ∀ error final, E error final → E' error final) : Yields run state Q' E' := by
  rw [Yields] at h ⊢
  rcases hrun : run state with ⟨_ | value, final⟩ <;> rw [hrun] at h
  · exact hstop _ _ h
  · exact hok _ _ h

theorem and (h : Yields run state Q E) (h' : Yields run state Q' E') :
    Yields run state (fun value final => Q value final ∧ Q' value final)
      fun error final => E error final ∧ E' error final := by
  rw [Yields] at h h' ⊢
  rcases hrun : run state with ⟨_ | value, final⟩ <;> rw [hrun] at h h'
  · exact ⟨h, h'⟩
  · exact ⟨h, h'⟩

end Yields

/-- The invariant survives a run, whether it returns or stops. -/
def Preserves (I : σ → Prop) (run : Exec ε σ α) : Prop := ∀ state, I state → I (run state).2

namespace Preserves

variable {I : σ → Prop} {run : Exec ε σ α}

theorem pure (value : α) : Preserves I (Pure.pure value : Exec ε σ α) := fun _ => id

theorem throw (error : ε) : Preserves I (throw error : Exec ε σ α) := fun _ => id

theorem get : Preserves I (MonadState.get : Exec ε σ σ) := fun _ => id

theorem yields (h : Preserves I run) {state : σ} (hstate : I state) : run.Yields state (fun _ => I) fun _ => I := by
  have hrun := h state hstate
  unfold Yields
  rcases hresult : run state with ⟨_ | _, after⟩ <;> rw [hresult] at hrun <;> exact hrun

theorem of_yields (h : ∀ state, I state → run.Yields state (fun _ => I) fun _ => I) : Preserves I run := by
  intro state hstate
  have hrun := h state hstate
  unfold Yields at hrun
  rcases hresult : run state with ⟨_ | _, after⟩ <;> rw [hresult] at hrun <;> exact hrun

theorem bind {next : α → Exec ε σ β} (h : Preserves I run) (hnext : ∀ value, Preserves I (next value)) :
    Preserves I (run >>= next) :=
  of_yields fun _ hstate => (h.yields hstate).bind fun value _ hmiddle => (hnext value).yields hmiddle

theorem ite {p : Prop} [Decidable p] {other : Exec ε σ α} (h : p → Preserves I run)
    (hother : ¬p → Preserves I other) : Preserves I (if p then run else other) := by
  split
  · next hp => exact h hp
  · next hp => exact hother hp

theorem tryCatch {handle : ε → Exec ε σ α} (h : Preserves I run) (hhandle : ∀ error, Preserves I (handle error)) :
    Preserves I (tryCatch run handle) :=
  of_yields fun _ hstate => (h.yields hstate).tryCatch fun error _ hmiddle => (hhandle error).yields hmiddle

end Preserves

def Keeps (view : σ → β) (run : Exec ε σ α) : Prop := ∀ state, view (run state).2 = view state

theorem keeps_iff {view : σ → γ} {run : Exec ε σ α} :
    Keeps view run ↔ ∀ value, Preserves (view · = value) run :=
  ⟨fun h _ state hstate => (h state).trans hstate, fun h state => h _ state rfl⟩

namespace Keeps

variable {view : σ → γ}

theorem pure (value : α) : Keeps view (Pure.pure value : Exec ε σ α) := fun _ => rfl

theorem throw (error : ε) : Keeps view (throw error : Exec ε σ α) := fun _ => rfl

theorem get : Keeps view (MonadState.get : Exec ε σ σ) := fun _ => rfl

theorem update {f : σ → σ} (h : ∀ state, view (f state) = view state) :
    Keeps view (modify f : Exec ε σ Unit) := h

theorem bind {run : Exec ε σ α} {next : α → Exec ε σ β} (h : Keeps view run)
    (hnext : ∀ value, Keeps view (next value)) : Keeps view (run >>= next) :=
  keeps_iff.mpr fun value => (keeps_iff.mp h value).bind fun result => keeps_iff.mp (hnext result) value

theorem ite {c : Prop} [Decidable c] {run other : Exec ε σ α} (h : Keeps view run)
    (hother : Keeps view other) : Keeps view (if c then run else other) := by
  split
  · exact h
  · exact hother

theorem comp {run : Exec ε σ α} (g : γ → δ) (h : Keeps view run) : Keeps (fun state => g (view state)) run :=
  fun state => congrArg g (h state)

end Keeps

/-- Two runs from the same state stop with the same error, or end in the same state
with related results. -/
def Related (R : α → β → Prop) (left : Exec ε σ α) (right : Exec ε σ β) : Prop :=
  ∀ state, match left state, right state with
    | (.ok a, after), (.ok b, after') => after = after' ∧ R a b
    | (.error error, after), (.error error', after') => after = after' ∧ error = error'
    | _, _ => False

namespace Related

variable {R : α → β → Prop} {left : Exec ε σ α} {right : Exec ε σ β}

theorem pure {a : α} {b : β} (h : R a b) :
    Related R (Pure.pure a : Exec ε σ α) (Pure.pure b) := fun _ => ⟨rfl, h⟩

theorem bind {S : γ → δ → Prop} {next : α → Exec ε σ γ} {next' : β → Exec ε σ δ} (h : Related R left right)
    (hnext : ∀ a b, R a b → Related S (next a) (next' b)) : Related S (left >>= next) (right >>= next') := by
  intro state
  have hfirst := h state
  rw [bind_apply, bind_apply]
  rcases hleft : left state with ⟨_ | a, after⟩ <;>
    rcases hright : right state with ⟨_ | b, after'⟩ <;> rw [hleft, hright] at hfirst
  · exact hfirst
  · exact hfirst.elim
  · exact hfirst.elim
  · obtain ⟨rfl, hrelated⟩ := hfirst
    exact hnext a b hrelated after

theorem of_map {R : γ → δ → Prop} {f : α → γ} {g : β → δ} (h : Related R (f <$> left) (g <$> right)) :
    Related (fun a b => R (f a) (g b)) left right := by
  intro state
  have hstate := h state
  rw [map_eq_pure_bind, map_eq_pure_bind, bind_apply, bind_apply] at hstate
  rcases hleft : left state with ⟨_ | a, after⟩ <;>
    rcases hright : right state with ⟨_ | b, after'⟩ <;> rw [hleft, hright] at hstate
  · exact hstate
  · exact hstate.elim
  · exact hstate.elim
  · exact hstate

theorem refl {R : α → α → Prop} (hR : ∀ a, R a a) (run : Exec ε σ α) : Related R run run := by
  intro state
  rcases run state with ⟨_ | a, after⟩
  · exact ⟨rfl, rfl⟩
  · exact ⟨rfl, hR a⟩

end Related

end Exec

abbrev Trace (ρ τ α : Type) := ReaderT ρ (WriterT (List τ) Id) α

namespace Trace

def result (run : Trace ρ τ α) (env : ρ) : α := (WriterT.run (run env)).1

def log (run : Trace ρ τ α) (env : ρ) : List τ := (WriterT.run (run env)).2

def ask : Trace ρ τ ρ := fun env => WriterT.mk (env, [])

def tell (events : List τ) : Trace ρ τ Unit := fun _ => WriterT.mk ((), events)

@[simp] theorem result_pure (value : α) (env : ρ) : result (pure value : Trace ρ τ α) env = value := rfl

@[simp] theorem log_pure (value : α) (env : ρ) : log (pure value : Trace ρ τ α) env = [] := rfl

@[simp] theorem result_bind (run : Trace ρ τ α) (next : α → Trace ρ τ β) (env : ρ) :
    result (run >>= next) env = result (next (result run env)) env := rfl

@[simp] theorem log_bind (run : Trace ρ τ α) (next : α → Trace ρ τ β) (env : ρ) :
    log (run >>= next) env = log run env ++ log (next (result run env)) env := rfl

@[simp] theorem result_map (f : α → β) (run : Trace ρ τ α) (env : ρ) :
    result (f <$> run) env = f (result run env) := rfl

@[simp] theorem log_map (f : α → β) (run : Trace ρ τ α) (env : ρ) : log (f <$> run) env = log run env := rfl

@[simp] theorem result_ask (env : ρ) : result (ask : Trace ρ τ ρ) env = env := rfl

@[simp] theorem log_ask (env : ρ) : log (ask : Trace ρ τ ρ) env = [] := rfl

@[simp] theorem log_tell (events : List τ) (env : ρ) : log (tell events) env = events := rfl

end Trace

end Enarx
