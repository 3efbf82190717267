import Enarx.Runs
import Enarx.Sallyport.Requests

/-!
# The actions of the signals

A workload makes one `rt_sigaction` request after another, with its memory as
it is at each of them. The table of the thread local storage is compared with the
actions that the accepted requests installed.
-/
namespace Enarx.Sallyport

open Libc

variable {σ : Type}

/-- The registers of an `rt_sigaction` and the memory of the workload at that time. -/
structure SignalRequest where
  mem : Mem
  argv : Argv

namespace SignalRequest

variable (request : SignalRequest)

def signum : CInt := usizeAsInt request.argv.a

def registers : Registers := ⟨Sysno.rtSigaction.toWord, request.argv⟩

def Readable (platform : Platform) : Prop :=
  ActionAccepted platform false request.argv.b ∧ ActionAccepted platform true request.argv.c

def installs : List (Int × List Byte) :=
  if request.argv.b = 0 then []
  else [(request.signum.toInt, request.mem.read request.argv.b.toNat 32)]

def reported : Option (List Byte) → Mem
  | some old => if request.argv.c = 0 then request.mem else request.mem.write request.argv.c.toNat old
  | none => request.mem

/-- `sigsetsize` is 8 only for the signals 1 to 63 and for those above 64. -/
def Proper : Prop := request.argv.d = 8 → 0 < request.signum.toInt ∧ request.signum.toInt ≠ 64

end SignalRequest

def Catchable (signum : Int) : Prop := (1 ≤ signum ∧ signum ≤ 64) ∧ signum ≠ 9 ∧ signum ≠ 19

structure SignalState (σ : Type) where
  guest : Guest σ
  installed : List (Int × List Byte)

namespace SignalState

variable (env : Env σ) (state : SignalState σ) (request : SignalRequest)

def outcome : Except Stop (Word × Word) × Guest σ :=
  syscall env request.registers { state.guest with mem := request.mem }

def take : Option (SignalState σ) :=
  match state.outcome env request with
  | (.ok _, guest) => some ⟨guest, request.installs ++ state.installed⟩
  | (.error (.err _), guest) => some ⟨guest, state.installed⟩
  | (.error _, _) => none

def Tracks : Prop :=
  ∀ index : Fin 64, state.guest.actions index = state.installed.lookup (index : Int)

/-- `rt_sigaction` as an update of a map from signals to actions. -/
structure ActsAsMap : Prop where
  answered : Answered (state.outcome env request).1
  refused : request.argv.d = 8 → ¬(1 ≤ request.signum.toInt ∧ request.signum.toInt ≤ 64) →
    (state.outcome env request).1 = .error (.err EINVAL)
  accepted : request.argv.d = 8 → Catchable request.signum.toInt →
    (state.outcome env request).1 = .ok (0, 0)
  old : ∀ ret, (state.outcome env request).1 = .ok ret →
    (state.outcome env request).2.mem =
      request.reported (state.installed.lookup request.signum.toInt)
  others : ∀ ret, (state.outcome env request).1 = .ok ret →
    ∀ index : Fin 64, (index : Int) ≠ request.signum.toInt →
      (state.outcome env request).2.actions index = state.guest.actions index

end SignalState

section

variable {env : Env σ} {state : SignalState σ} {request : SignalRequest}

theorem actionIndex_of_nonneg {signum : CInt} (hneg : ¬signum.toInt < 0)
    (hmax : ¬BitVec.sle SIGRTMAX signum) :
    ∃ index : Fin 64, (index : Int) = signum.toInt ∧
      (actionIndex signum : HandlerM σ (Fin 64)) = pure index := by
  have hlt := actionIndex_lt hneg hmax
  have hsign : (intAsUsize signum).toInt = signum.toInt := BitVec.toInt_signExtend_of_le (by decide)
  refine ⟨⟨_, hlt⟩, ?_, dif_pos hlt⟩
  rw [← hsign, BitVec.toInt_eq_toNat_of_lt (by omega)]

theorem SignalRequest.outcome_eq (hread : request.Readable env.platform) :
    state.outcome env request = invoke env (.rtSigaction request.signum
      (if request.argv.b = 0 then none else some ⟨request.argv.b.toNat⟩)
      (if request.argv.c = 0 then none else some ⟨request.argv.c.toNat⟩) request.argv.d)
      { state.guest with mem := request.mem } := by
  apply syscall_eq
  apply (decode_eq rfl).trans
  exact Except.bind_of_ok (orNone_of_accepted hread.1)
    (Except.bind_of_ok (orNone_of_accepted hread.2) rfl)

def SignalRequest.Checked (request : SignalRequest) : Prop :=
  request.argv.d = 8 ∧ request.signum.toInt < 64

theorem SignalRequest.checked_iff :
    request.Checked ↔ ¬(BitVec.sle SIGRTMAX request.signum ∨ request.argv.d ≠ 8) := by
  have hmax : SIGRTMAX.toInt = 64 := by decide
  rw [BitVec.sle_iff_toInt_le, hmax, Checked]
  simp only [ne_eq, not_or, not_le, not_not]
  exact And.comm

theorem SignalRequest.outcome_unchecked (hread : request.Readable env.platform) (hcheck : ¬request.Checked) :
    state.outcome env request = (.error (.err EINVAL), { state.guest with mem := request.mem }) := by
  rw [SignalRequest.checked_iff, not_not] at hcheck
  rw [outcome_eq hread, invoke, Exec.bind_apply, rtSigaction, if_pos hcheck]
  rfl

theorem rtSigaction_of_index {signum : CInt} {act : Option (Ref sigaction)} {oldact : Bool}
    {sigsetsize : Word} {index : Fin 64} (hvalid : ¬(BitVec.sle SIGRTMAX signum ∨ sigsetsize ≠ 8))
    (hindex : (actionIndex signum : HandlerM σ (Fin 64)) = pure index) (guest : Guest σ) :
    rtSigaction signum act oldact sigsetsize guest =
      (.ok (if oldact then guest.actions index else none), { guest with actions :=
        match act with
        | some act => Function.update guest.actions index (some (guest.mem.read act.addr 32))
        | none => guest.actions }) := by
  unfold rtSigaction
  rw [if_neg hvalid]
  cases oldact <;> cases act <;> simp only [readAction, writeAction, hindex] <;> rfl

def SignalRequest.update (request : SignalRequest) (index : Fin 64)
    (actions : Fin 64 → Option (List Byte)) : Fin 64 → Option (List Byte) :=
  if request.argv.b = 0 then actions
  else Function.update actions index (some (request.mem.read request.argv.b.toNat 32))

theorem SignalRequest.outcome_checked (hread : request.Readable env.platform)
    (hcheck : request.Checked) {index : Fin 64} (hindex : (index : Int) = request.signum.toInt) :
    state.outcome env request = (.ok (0, 0), { state.guest with
      mem := request.reported (state.guest.actions index)
      actions := request.update index state.guest.actions }) := by
  have hvalid := checked_iff.mp hcheck
  obtain ⟨same, hsame, haction⟩ := actionIndex_of_nonneg (σ := σ) (by omega) (not_or.mp hvalid).1
  obtain rfl : same = index := by omega
  rw [outcome_eq hread, invoke, Exec.bind_apply, rtSigaction_of_index hvalid haction]
  unfold reported update
  by_cases hb : request.argv.b = 0 <;> by_cases hc : request.argv.c = 0 <;>
    cases state.guest.actions same <;> simp only [hb, hc, if_true, if_false, Option.isSome] <;> rfl

theorem SignalRequest.outcome_unused (hread : request.Readable env.platform)
    (hcheck : request.Checked) (hb : request.argv.b = 0) (hc : request.argv.c = 0) :
    state.outcome env request = (.ok (0, 0), { state.guest with mem := request.mem }) := by
  rw [outcome_eq hread, hb, hc, invoke, Exec.bind_apply, rtSigaction, if_neg (checked_iff.mp hcheck)]
  rfl

theorem SignalRequest.outcome_panics (hread : request.Readable env.platform)
    (hsize : request.argv.d = 8) (hneg : request.signum.toInt < 0)
    (hsome : ¬(request.argv.b = 0 ∧ request.argv.c = 0)) :
    state.outcome env request = (.error .panic, { state.guest with mem := request.mem }) := by
  have hpanics : request.registers.Panics env request.mem :=
    Or.inl ⟨rfl, hneg, hsize, not_and_or.mp hsome, hread.1, hread.2⟩
  exact syscall_panics hpanics

variable (env state) in
theorem SignalRequest.cases (hread : request.Readable env.platform) :
    (¬request.Checked ∧ state.outcome env request =
      (.error (.err EINVAL), { state.guest with mem := request.mem })) ∨
    (request.Checked ∧ ∃ index : Fin 64, (index : Int) = request.signum.toInt ∧
      state.outcome env request = (.ok (0, 0), { state.guest with
        mem := request.reported (state.guest.actions index)
        actions := request.update index state.guest.actions })) ∨
    (request.argv.d = 8 ∧ request.signum.toInt < 0 ∧ request.argv.b = 0 ∧
      state.outcome env request = (.ok (0, 0), { state.guest with mem := request.mem })) ∨
    (request.argv.d = 8 ∧ request.signum.toInt < 0 ∧
      state.outcome env request = (.error .panic, { state.guest with mem := request.mem })) := by
  by_cases hcheck : request.Checked
  · have hmax := hcheck.2
    by_cases hneg : request.signum.toInt < 0
    · by_cases hnull : request.argv.b = 0 ∧ request.argv.c = 0
      · exact .inr (.inr (.inl ⟨hcheck.1, hneg, hnull.1, outcome_unused hread hcheck hnull.1 hnull.2⟩))
      · exact .inr (.inr (.inr ⟨hcheck.1, hneg, outcome_panics hread hcheck.1 hneg hnull⟩))
    · have hindex : ((⟨request.signum.toInt.toNat, by omega⟩ : Fin 64) : Int) =
          request.signum.toInt := Int.toNat_of_nonneg (not_lt.mp hneg)
      exact .inr (.inl ⟨hcheck, _, hindex, outcome_checked hread hcheck hindex⟩)
  · exact .inl ⟨hcheck, outcome_unchecked hread hcheck⟩

theorem SignalRequest.lookup_installs {index place : Fin 64}
    (hindex : (index : Int) = request.signum.toInt) (h : state.Tracks) :
    request.update index state.guest.actions place =
      (request.installs ++ state.installed).lookup (place : Int) := by
  unfold update installs
  split
  · exact h place
  · rw [List.singleton_append, List.lookup_cons, ← hindex, Function.update_apply]
    by_cases hplace : place = index
    · simp [hplace]
    · have hne : ((place : Int) == (index : Int)) = false := by
        rw [beq_eq_false_iff_ne]
        omega
      rw [if_neg hplace, hne]
      exact h place

theorem SignalRequest.update_of_ne {index place : Fin 64} (hplace : place ≠ index) :
    request.update index state.guest.actions place = state.guest.actions place := by
  unfold update
  split
  · rfl
  · exact Function.update_of_ne hplace _ _

namespace SignalState

theorem Tracks.take {next : SignalState σ} (h : state.Tracks)
    (hread : request.Readable env.platform) (hnext : state.take env request = some next) : next.Tracks := by
  unfold SignalState.take at hnext
  rcases SignalRequest.cases env state hread with
    ⟨_, hrun⟩ | ⟨_, index, hindex, hrun⟩ | ⟨_, _, hnull, hrun⟩ | ⟨_, _, hrun⟩
  · rw [hrun, Option.some.injEq] at hnext
    subst hnext
    exact h
  · rw [hrun, Option.some.injEq] at hnext
    subst hnext
    exact fun place => SignalRequest.lookup_installs hindex h
  · rw [hrun, Option.some.injEq, SignalRequest.installs, if_pos hnull] at hnext
    subst hnext
    exact h
  · rw [hrun] at hnext
    cases hnext

theorem ActsAsMap.proper (h : state.ActsAsMap env request)
    (hread : request.Readable env.platform) : request.Proper := by
  intro hsize
  rcases SignalRequest.cases env state hread with
    ⟨hcheck, hrun⟩ | ⟨hcheck, index, hindex, hrun⟩ | ⟨_, hneg, _, hrun⟩ | ⟨_, hneg, hrun⟩
  · have hmax : 64 ≤ request.signum.toInt := not_lt.mp fun hlt => hcheck ⟨hsize, hlt⟩
    refine ⟨lt_of_lt_of_le (by decide) hmax, fun hlast => ?_⟩
    -- the last signal is refused
    have haccepted := h.accepted hsize ⟨by omega, by omega, by omega⟩
    rw [hrun] at haccepted
    cases haccepted
  · have hmax := hcheck.2
    refine ⟨?_, by omega⟩
    -- signal 0 has a place in the table
    by_contra hzero
    have hrefused := h.refused hsize (by omega)
    rw [hrun] at hrefused
    cases hrefused
  · have hrefused := h.refused hsize (by omega)
    rw [hrun] at hrefused
    cases hrefused
  · obtain ⟨errno, herrno⟩ := h.answered .panic (by rw [hrun])
    cases herrno

theorem actsAsMap_of_proper (h : state.Tracks) (hread : request.Readable env.platform)
    (hproper : request.Proper) : state.ActsAsMap env request := by
  rcases SignalRequest.cases env state hread with
    ⟨hcheck, hrun⟩ | ⟨hcheck, index, hindex, hrun⟩ | ⟨hsize, hneg, _⟩ | ⟨hsize, hneg, _⟩
  · refine ⟨?_, ?_, ?_, ?_, ?_⟩
    all_goals rw [hrun]
    · rintro stop ⟨⟩
      exact ⟨EINVAL, rfl⟩
    · exact fun _ _ => rfl
    · intro hsize hcatch
      have hmax : 64 ≤ request.signum.toInt := not_lt.mp fun hlt => hcheck ⟨hsize, hlt⟩
      exact absurd (le_antisymm hcatch.1.2 hmax) (hproper hsize).2
    · exact nofun
    · exact nofun
  · refine ⟨?_, ?_, ?_, ?_, ?_⟩
    all_goals rw [hrun]
    · exact nofun
    · intro hsize hout
      have hpos := (hproper hsize).1
      have hmax := hcheck.2
      exact absurd ⟨hpos, by omega⟩ hout
    · exact fun _ _ => rfl
    · intro ret _
      rw [← hindex, ← h index]
    · intro ret _ place hplace
      exact SignalRequest.update_of_ne fun heq => hplace (heq ▸ hindex)
  · have hpos := (hproper hsize).1
    omega
  · have hpos := (hproper hsize).1
    omega

theorem ActsAsMap.goes (h : state.ActsAsMap env request) : (state.take env request).isSome := by
  unfold SignalState.take
  split
  · rfl
  · rfl
  · next hne hrun =>
    obtain ⟨errno, rfl⟩ := h.answered _ (congrArg Prod.fst hrun)
    exact (hne errno rfl).elim

end SignalState

end

/-- From an empty table, a sequence of requests acts on the map exactly when each of them has a
signal number that the check of `rt_sigaction` sorts out correctly. -/
theorem rt_sigaction_acts_as_map_iff (env : Env σ) (guest : Guest σ)
    (hnew : ∀ index, guest.actions index = none) (requests : List SignalRequest)
    (hread : ∀ request ∈ requests, request.Readable env.platform) :
    Runs.Meets (SignalState.take env) (SignalState.ActsAsMap env) ⟨guest, []⟩ requests ↔
      ∀ request ∈ requests, request.Proper := by
  apply Runs.meets_iff_forall (I := SignalState.Tracks) (R := (·.Readable env.platform))
  · exact fun state request next h hread hnext => h.take hread hnext
  · exact fun state request h hread =>
      ⟨fun hmap => hmap.proper hread, SignalState.actsAsMap_of_proper h hread⟩
  · exact fun state request h => h.goes
  · exact hnew
  · exact hread

def sampleSignal (signum : Word) : SignalRequest := ⟨fun _ => 0, ⟨signum, 4096, 8192, 8, 0, 0⟩⟩

theorem sampleSignal_readable (signum : Word) : (sampleSignal signum).Readable sampleEnv.platform :=
  ⟨.inr (show sampleEnv.platform.check sigaction false 4096 = .ok () by decide),
    .inr (show sampleEnv.platform.check sigaction true 8192 = .ok () by decide)⟩

theorem rt_sigaction_acts_as_map_sigint :
    Runs.Meets (SignalState.take sampleEnv) (SignalState.ActsAsMap sampleEnv) ⟨sampleGuest, []⟩
      [sampleSignal 2, sampleSignal 15, sampleSignal 2] := by
  apply (rt_sigaction_acts_as_map_iff sampleEnv sampleGuest (fun _ => rfl) _ _).mpr
  · simp only [List.forall_mem_cons, SignalRequest.Proper]
    exact ⟨by decide, by decide, by decide, nofun⟩
  · simp only [List.forall_mem_cons]
    exact ⟨sampleSignal_readable 2, sampleSignal_readable 15, sampleSignal_readable 2, nofun⟩

/-- Signal -1 makes the handler panic, signal 0 is accepted and signal 64 is refused. -/
theorem rt_sigaction_not_a_map :
    ¬(⟨sampleGuest, []⟩ : SignalState Unit).ActsAsMap sampleEnv (sampleSignal 0xffffffff) ∧
    ¬(⟨sampleGuest, []⟩ : SignalState Unit).ActsAsMap sampleEnv (sampleSignal 0) ∧
    ¬(⟨sampleGuest, []⟩ : SignalState Unit).ActsAsMap sampleEnv (sampleSignal 64) := by
  refine ⟨fun h => ?_, fun h => ?_, fun h => ?_⟩
  · exact absurd (h.proper (sampleSignal_readable _) rfl).1 (by decide)
  · exact absurd (h.proper (sampleSignal_readable _) rfl).1 (by decide)
  · exact absurd rfl (h.proper (sampleSignal_readable _) rfl).2

end Enarx.Sallyport
