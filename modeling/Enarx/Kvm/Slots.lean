import Enarx.Kvm.Balloon
import Enarx.Kvm.Supply

/-!
# How far the memory can grow

Every request takes a slot of the host. Requests double until the largest size, so that
the slots suffice for the target. The window in which the shim sees the memory is smaller.
The allocator counts in pages what `balloon` does here in bytes.
-/
namespace Enarx.Kvm.Balloon

def requestSizes (maxAlloc : Nat) : Nat → Nat → List Nat
  | 0, _ => []
  | n + 1, lastSize => newSize maxAlloc lastSize :: requestSizes maxAlloc n (newSize maxAlloc lastSize)

theorem le_sum_requestSizes (maxExp n exp : Nat) (hexp : exp < 63) (hmax : maxExp < 63) :
    (n - (maxExp - (exp + 1))) * 2 ^ maxExp ≤ (requestSizes (2 ^ maxExp) n (2 ^ exp)).sum := by
  induction n generalizing exp with
  | zero => simp
  | succ n ih =>
    rw [requestSizes, newSize_two_pow hexp, List.sum_cons]
    have hrest := ih (min (exp + 1) maxExp) (by omega)
    rcases Nat.lt_or_ge (exp + 1) maxExp with hlt | hge
    · rw [Nat.min_eq_left hlt.le] at hrest ⊢
      rw [show n + 1 - (maxExp - (exp + 1)) = n - (maxExp - (exp + 1 + 1)) by omega]
      exact hrest.trans (Nat.le_add_left _ _)
    · rw [Nat.min_eq_right hge] at hrest ⊢
      rw [show n - (maxExp - (maxExp + 1)) = n by omega] at hrest
      rw [show n + 1 - (maxExp - (exp + 1)) = n + 1 by omega, Nat.add_mul, Nat.one_mul]
      omega

theorem target_le_slots {meminfo target exp : Nat} (hmeminfo : target - MIN_EXP < meminfo)
    (h : maxExp meminfo target = some exp) : 2 ^ target ≤ (meminfo - (exp - MIN_EXP)) * 2 ^ exp := by
  obtain ⟨hmin, -, rfl⟩ := maxExp_eq_some.mp h
  have hrest : meminfo - (target - MIN_EXP) ≠ 0 := by omega
  have hlog := Nat.log2_self_le hrest
  generalize (meminfo - (target - MIN_EXP)).log2 = log at *
  have hsaved : 2 ^ min log (target - MIN_EXP) ≤ 2 ^ log := Nat.pow_le_pow_right (by decide) (Nat.min_le_left _ _)
  have hsplit : min log (target - MIN_EXP) + (target - min log (target - MIN_EXP)) = target := by omega
  calc 2 ^ target
      = 2 ^ min log (target - MIN_EXP) * 2 ^ (target - min log (target - MIN_EXP)) := by rw [← pow_add, hsplit]
    _ ≤ _ := by
      apply Nat.mul_le_mul_right
      omega

section

variable {machine : Machine} {state : State}

theorem balloon_granted {exp maxExp : Nat} (hexp : 12 ≤ exp) (hlt : exp < 62) (hmax : 13 ≤ maxExp)
    (hlast : state.self.lastAlloc = 2 ^ exp) (hmaxAlloc : state.self.maxAlloc = 2 ^ maxExp)
    (hgranted : machine.balloonMemory state.requests.length = true) : Exec.Yields (balloon machine) state
      (fun _ after =>
        machine.Takes state.self.endOfMem.raw (newSize state.self.maxAlloc state.self.lastAlloc) ∧
          after.requests.length = state.requests.length + 1 ∧
          Grew machine.cBitMask state.self (newSize state.self.maxAlloc state.self.lastAlloc) after.self)
      fun _ _ => ¬machine.Takes state.self.endOfMem.raw (newSize state.self.maxAlloc state.self.lastAlloc) := by
  have hsmall : 2 ^ min (exp + 1) maxExp < 2 ^ 63 := Nat.pow_lt_pow_right (by decide) (by omega)
  unfold balloon
  apply Exec.Yields.get_bind
  rw [hlast, balloonFrom]
  apply Exec.Yields.get_bind
  rw [hmaxAlloc, newSize_two_pow (by omega)]
  refine Exec.Yields.bind_of_ok (requestMemory_apply (by omega) state) ?_
  rw [if_pos hgranted]
  refine (grow_yields hsmall).bind ?_
  rintro _ after ⟨htakes, hrequests, hgrew⟩
  refine ⟨htakes, ?_, hgrew⟩
  rw [hrequests]
  simp [State.asked]

structure Machine.Answers (machine : Machine) (host : Host) : Prop where
  cBitMask : machine.cBitMask = host.cBit.mask
  snpActive : host.snpActive = true ↔ 0 < machine.cBitMask
  balloonMemory : machine.balloonMemory = host.balloonMemory
  pvalidate : ∀ (freeStart : VirtAddr) (numPages : Nat), host.pvalidate freeStart numPages = true ↔
    freeStart.raw + SIZE_4_KIB * numPages < 2 ^ 64 ∧
      ∀ i < numPages, machine.pvalidate (freeStart.raw + SIZE_4_KIB * i) = true

structure Counts (ledger : Ledger) (state : State) : Prop where
  lastAlloc : state.self.lastAlloc = 2 ^ (ledger.lastAlloc + 12)
  maxAlloc : state.self.maxAlloc = 2 ^ (ledger.maxAlloc + 12)
  endOfMem : state.self.endOfMem.raw = SIZE_4_KIB * ledger.endOfMem
  asked : state.requests.length = ledger.asked

section

variable {host : Host} {ledger : Ledger} (hanswers : machine.Answers host)
include hanswers

theorem newEnd_eq_some_iff {numPages newEnd : Nat}
    (hplain : machine.plain (SIZE_4_KIB * ledger.endOfMem) = SIZE_4_KIB * ledger.endOfMem) :
    ledger.newEnd host numPages = some newEnd ↔
      machine.Takes (SIZE_4_KIB * ledger.endOfMem) (SIZE_4_KIB * numPages) ∧ newEnd = ledger.endOfMem + numPages := by
  have hpages : SIZE_4_KIB * numPages / SIZE_4_KIB = numPages := Nat.mul_div_cancel_left _ (by decide)
  have hregion : ∀ freeStart : VirtAddr, freeStart.raw = SHIM_VIRT_OFFSET + SIZE_4_KIB * ledger.endOfMem →
      (¬(host.snpActive = true ∧ (!host.pvalidate freeStart numPages) = true) ↔
        (0 < machine.cBitMask → SIZE_4_KIB * ledger.endOfMem + SIZE_4_KIB * numPages < 2 ^ 39 ∧ ∀ i < numPages,
          machine.pvalidate (SIZE_4_KIB * ledger.endOfMem + SHIM_VIRT_OFFSET + SIZE_4_KIB * i) = true)) := by
    intro freeStart hraw
    rw [not_and, hanswers.snpActive, Bool.not_eq_true, Bool.not_eq_false', hanswers.pvalidate, hraw,
      Nat.add_comm SHIM_VIRT_OFFSET]
    refine forall_congr' fun _ => and_congr_left fun _ => ?_
    unfold SHIM_VIRT_OFFSET
    omega
  rw [Ledger.newEnd, Option.bind_eq_bind, Option.bind_eq_some_iff]
  constructor
  · rintro ⟨freeStart, hstart, hend⟩
    obtain ⟨hlt, hraw⟩ := shimVirt_spec hstart
    rw [Option.ite_none_right_eq_some, hregion freeStart hraw] at hend
    obtain ⟨⟨hphys, hvalid⟩, hend⟩ := hend
    refine ⟨⟨?_, ?_, ?_⟩, (Option.some.inj hend).symm⟩
    · rw [hplain]
      unfold SIZE_4_KIB
      omega
    · rwa [← Nat.mul_add]
    · rwa [hplain, hpages]
  · rintro ⟨⟨hwindow, hphys, hvalid⟩, rfl⟩
    rw [hplain] at hwindow hvalid
    rw [hpages] at hvalid
    have hlt : ledger.endOfMem < 2 ^ 27 := by
      unfold SIZE_4_KIB at hwindow
      omega
    refine ⟨_, dif_pos hlt, if_pos ⟨by rwa [Nat.mul_add], (hregion _ rfl).mpr hvalid⟩⟩

theorem round_simulates {n : Nat} (hn : n < 50) (hmax : 0 < ledger.maxAlloc) (hcounts : Counts ledger state)
    (hplain : machine.plain (SIZE_4_KIB * ledger.endOfMem) = SIZE_4_KIB * ledger.endOfMem)
    {Q : Bool → State → Prop} {E : Unit → State → Prop} (hE : ∀ after, ledger.round host n = none → E () after)
    (hQ : ∀ final after, ledger.round host n = some (true, final) → Counts final after → Q true after)
    (hrefused : ∀ next, ledger.round host n = some (false, { ledger with asked := ledger.asked + 1 }) →
      Counts { ledger with asked := ledger.asked + 1 } next →
        Exec.Yields (if 2 ^ (n + 12) / 2 < SIZE_4_KIB then pure false else balloonFrom machine (2 ^ (n + 12) / 2))
          next Q E) : Exec.Yields (balloonFrom machine (2 ^ (n + 12))) state Q E := by
  have hsize : newSize state.self.maxAlloc (2 ^ (n + 12)) = 2 ^ (min (n + 1) ledger.maxAlloc + 12) := by
    rw [hcounts.maxAlloc, newSize_two_pow (by omega)]
    congr 1
    omega
  rw [balloonFrom]
  apply Exec.Yields.get_bind
  rw [hsize]
  refine Exec.Yields.bind_of_ok (requestMemory_apply (by omega) state) ?_
  rw [hanswers.balloonMemory, hcounts.asked]
  generalize hasked : state.asked (Request.mk _ _ _) = next
  have hself : next.self = state.self := by
    rw [← hasked]
    rfl
  have hlength : next.requests.length = ledger.asked + 1 := by
    rw [← hasked]
    simp [State.asked, hcounts.asked]
  split
  · next hgranted =>
    have hsmall : 2 ^ (min (n + 1) ledger.maxAlloc + 12) < 2 ^ 63 := Nat.pow_lt_pow_right (by decide) (by omega)
    have hround : ledger.round host n = (ledger.newEnd host (2 ^ min (n + 1) ledger.maxAlloc)).map fun newEnd =>
        (true, { ledger with
          lastAlloc := min (n + 1) ledger.maxAlloc, endOfMem := newEnd, asked := ledger.asked + 1 }) := if_pos hgranted
    have hpages : 2 ^ (min (n + 1) ledger.maxAlloc + 12) = SIZE_4_KIB * 2 ^ min (n + 1) ledger.maxAlloc := by
      rw [pow_add, Nat.mul_comm]
      rfl
    have hend : next.self.endOfMem.raw = SIZE_4_KIB * ledger.endOfMem := hself ▸ hcounts.endOfMem
    refine ((grow_yields hsmall).imp (fun _ _ => id) fun _ after hnot => hE after ?_).bind ?_
    · rw [hround, Option.map_eq_none_iff, Option.eq_none_iff_forall_ne_some]
      intro newEnd hnewEnd
      rw [hend, hpages] at hnot
      exact hnot ((newEnd_eq_some_iff hanswers hplain).mp hnewEnd).1
    · rintro _ after ⟨hafter, hrequests, hgrew⟩
      rw [hend, hpages] at hafter
      refine hQ _ after (by rw [hround, (newEnd_eq_some_iff hanswers hplain).mpr ⟨hafter, rfl⟩, Option.map_some]) ?_
      refine ⟨hgrew.lastAlloc, hgrew.maxAlloc.trans (hself ▸ hcounts.maxAlloc), ?_, hrequests ▸ hlength⟩
      rw [hgrew.endOfMem, hend, hpages, ← Nat.mul_add]
  · next hnot =>
    have hrest := hrefused next (if_neg hnot)
      ⟨hself ▸ hcounts.lastAlloc, hself ▸ hcounts.maxAlloc, hself ▸ hcounts.endOfMem, hlength⟩
    split
    · next hsmall => rwa [if_pos hsmall] at hrest
    · next hlarge => rwa [if_neg hlarge] at hrest

theorem loop_simulates {n : Nat} (hn : n < 50) (hmax : 0 < ledger.maxAlloc) (hcounts : Counts ledger state)
    (hplain : machine.plain (SIZE_4_KIB * ledger.endOfMem) = SIZE_4_KIB * ledger.endOfMem) :
    Exec.Yields (balloonFrom machine (2 ^ (n + 12))) state
      (fun granted after => ∃ final, ledger.loop host n = some (granted, final) ∧ Counts final after)
      fun _ _ => ledger.loop host n = none := by
  induction n generalizing ledger state with
  | zero =>
    refine round_simulates hanswers hn hmax hcounts hplain (fun _ => id) (fun final _ hround h => ⟨final, hround, h⟩) ?_
    intro next hround h
    exact ⟨_, hround, h⟩
  | succ n ih =>
    have hhalf : 2 ^ (n + 1 + 12) / 2 = 2 ^ (n + 12) := by
      rw [Nat.add_right_comm, pow_succ, Nat.mul_div_cancel _ Nat.two_pos]
    refine round_simulates hanswers hn hmax hcounts hplain (fun _ hround => ?_) (fun final _ hround h => ?_) ?_
    · rw [Ledger.loop, hround]
      rfl
    · refine ⟨final, ?_, h⟩
      rw [Ledger.loop, hround]
      rfl
    · intro next hround h
      have hlarge : ¬2 ^ (n + 1 + 12) / 2 < SIZE_4_KIB := by
        rw [hhalf]
        exact Nat.not_lt.mpr (Nat.pow_le_pow_right Nat.two_pos (Nat.le_add_left 12 n))
      rw [if_neg hlarge, hhalf, Ledger.loop, hround]
      exact ih (by omega) hmax h hplain

/-- The allocator asks the host as `balloon` does. -/
theorem balloon_simulates (hlast : ledger.lastAlloc < 50) (hmax : 0 < ledger.maxAlloc) (hcounts : Counts ledger state)
    (hplain : machine.plain (SIZE_4_KIB * ledger.endOfMem) = SIZE_4_KIB * ledger.endOfMem) :
    Exec.Yields (balloon machine) state
      (fun granted after => ∃ final, ledger.balloon host = some (granted, final) ∧ Counts final after)
      fun _ _ => ledger.balloon host = none := by
  unfold balloon
  apply Exec.Yields.get_bind
  rw [hcounts.lastAlloc]
  exact loop_simulates hanswers hlast hmax hcounts hplain

end

/-- Memory for requests of these sizes, one behind the other, can be used. -/
def Machine.Holds (machine : Machine) (addr : Nat) (sizes : List Nat) : Prop :=
  ∀ k size, sizes[k]? = some size → machine.Takes (addr + (sizes.take k).sum) size

theorem Machine.holds_cons_iff {addr size : Nat} {rest : List Nat} :
    machine.Holds addr (size :: rest) ↔ machine.Takes addr size ∧ machine.Holds (addr + size) rest := by
  constructor
  · intro h
    refine ⟨by simpa using h 0 size rfl, fun k next hnext => ?_⟩
    have htakes := h (k + 1) next hnext
    rwa [List.take_succ_cons, List.sum_cons, ← Nat.add_assoc] at htakes
  · rintro ⟨hfirst, hrest⟩ (_ | k) next hnext
    · cases hnext
      simpa using hfirst
    · rw [List.take_succ_cons, List.sum_cons, ← Nat.add_assoc]
      exact hrest k next hnext

/-- Calls whose first requests are granted return exactly as long as the memory can be used. -/
theorem exec_called_granted {maxExp : Nat} (hmax : 13 ≤ maxExp) (hmax' : maxExp < 62) (n exp : Nat)
    (hexp : 12 ≤ exp) (hlt : exp < 62) (hlast : state.self.lastAlloc = 2 ^ exp)
    (hmaxAlloc : state.self.maxAlloc = 2 ^ maxExp)
    (hgranted : ∀ k, k < state.requests.length + n → machine.balloonMemory k = true) :
    (machine.Holds state.self.endOfMem.raw (requestSizes state.self.maxAlloc n state.self.lastAlloc) →
      ∃ final, Runs.exec (called machine) state (List.replicate n ()) = some final ∧
        final.self.endOfMem.raw = state.self.endOfMem.raw +
          (requestSizes state.self.maxAlloc n state.self.lastAlloc).sum) ∧
    (¬machine.Holds state.self.endOfMem.raw (requestSizes state.self.maxAlloc n state.self.lastAlloc) →
      Runs.exec (called machine) state (List.replicate n ()) = none) := by
  induction n generalizing state exp with
  | zero => exact ⟨fun _ => ⟨state, rfl, by simp [requestSizes]⟩, fun h => absurd (fun k size hk => by cases hk) h⟩
  | succ n ih =>
    rw [List.replicate_succ, Runs.exec, requestSizes, Machine.holds_cons_iff, List.sum_cons]
    have hcall := balloon_granted hexp hlt hmax hlast hmaxAlloc (hgranted _ (by omega))
    rcases hrun : balloon machine state with ⟨_ | _, next⟩
    · have hrefused := hcall.error hrun
      have hcalled : called machine state () = none := by rw [called, hrun]
      rw [hcalled]
      exact ⟨fun h => absurd h.1 hrefused, fun _ => rfl⟩
    · obtain ⟨htakes, hlength, hgrew⟩ := hcall.ok hrun
      have hcalled : called machine state () = some next := by rw [called, hrun]
      have hsize : newSize state.self.maxAlloc state.self.lastAlloc = 2 ^ min (exp + 1) maxExp := by
        rw [hmaxAlloc, hlast, newSize_two_pow (by omega)]
      have hrest := ih (min (exp + 1) maxExp) (by omega) (by omega) (hgrew.lastAlloc.trans hsize)
        (hgrew.maxAlloc.trans hmaxAlloc) fun k hk => hgranted k (by omega)
      rw [hgrew.endOfMem, hgrew.maxAlloc, hgrew.lastAlloc, Nat.add_assoc] at hrest
      rw [hcalled, Option.bind_some, and_iff_right htakes]
      exact hrest

/-- The exponent of the largest request is between the first one and the target, and the requests for all slots sum
up to the target. As many calls as there are slots reach it exactly if the memory can be used. -/
theorem slots_reach_target (machine : Machine) {target meminfo : Nat} (htarget : targetExp machine.cBitMask = some target)
    (hmin : MIN_EXP ≤ target) (hmeminfo : target - MIN_EXP < meminfo)
    (hgranted : ∀ k < meminfo, machine.balloonMemory k = true) (endOfMem : PhysAddr) :
    ∃ exp self, maxExp meminfo target = some exp ∧ MIN_EXP ≤ exp ∧ exp ≤ target ∧
      EnarxAllocator.new machine.cBitMask meminfo endOfMem = some self ∧ self.maxAlloc = 2 ^ exp ∧
      2 ^ target ≤ (requestSizes self.maxAlloc meminfo self.lastAlloc).sum ∧
      ((∃ final, Runs.exec (called machine) ⟨self, []⟩ (List.replicate meminfo ()) = some final ∧
          endOfMem.raw + 2 ^ target ≤ final.self.endOfMem.raw) ↔
        machine.Holds endOfMem.raw (requestSizes self.maxAlloc meminfo self.lastAlloc)) := by
  have hle := targetExp_le htarget
  obtain ⟨exp, hexp⟩ : ∃ exp, maxExp meminfo target = some exp := ⟨_, maxExp_eq_some.mpr ⟨hmin, hmeminfo.le, rfl⟩⟩
  have hbounds : MIN_EXP ≤ exp ∧ exp ≤ target := by
    obtain ⟨-, -, rfl⟩ := maxExp_eq_some.mp hexp
    omega
  unfold MIN_EXP at hbounds hmin
  have hfits : 2 ^ exp < 2 ^ 64 := Nat.pow_lt_pow_right (by decide) (by omega)
  have hsum : 2 ^ target ≤ (requestSizes (2 ^ exp) meminfo (2 ^ 23)).sum :=
    (target_le_slots hmeminfo hexp).trans (le_sum_requestSizes exp meminfo 23 (by decide) (by omega))
  refine ⟨exp, ⟨2 ^ 23, 2 ^ exp, endOfMem, .empty⟩, hexp, hbounds.1, hbounds.2, ?_, rfl, hsum, ?_⟩
  · have hpow : checkedPow exp = some (2 ^ exp) := if_pos hfits
    simp only [EnarxAllocator.new, htarget, hexp, hpow, Option.bind_eq_bind, Option.bind_some]
    rfl
  · obtain ⟨hreturns, hpanics⟩ := @exec_called_granted machine ⟨⟨2 ^ 23, 2 ^ exp, endOfMem, .empty⟩, []⟩ exp
      (by omega) (by omega) meminfo 23 (by decide) (by decide) rfl rfl (by simpa using hgranted)
    constructor
    · rintro ⟨final, hfinal, -⟩
      by_contra hnot
      rw [hpanics hnot] at hfinal
      cases hfinal
    · intro hholds
      obtain ⟨final, hfinal, hend⟩ := hreturns hholds
      refine ⟨final, hfinal, ?_⟩
      rw [hend]
      exact Nat.add_le_add_left hsum _

end

def generous (cBitMask : Nat) : Machine := ⟨cBitMask, fun _ => true, fun _ => true⟩

theorem slots_reach_target_one : ∃ final,
    Runs.exec (called (generous (2 ^ 25))) ⟨⟨2 ^ 23, 2 ^ 24, ⟨2 ^ 20, by decide⟩, .empty⟩, []⟩ [()] = some final ∧
      2 ^ 20 + 2 ^ 24 ≤ final.self.endOfMem.raw := by
  have htarget : targetExp (2 ^ 25) = some 24 := by
    rw [targetExp, if_pos (by decide), msb_eq]
    decide
  have hmax : maxExp 1 24 = some 24 := maxExp_eq_some.mpr ⟨by decide, by decide, by decide⟩
  have hself : EnarxAllocator.new (2 ^ 25) 1 ⟨2 ^ 20, by decide⟩ =
      some ⟨2 ^ 23, 2 ^ 24, ⟨2 ^ 20, by decide⟩, .empty⟩ := by
    simp only [EnarxAllocator.new, htarget, hmax, Option.bind_eq_bind, Option.bind_some]
    rfl
  obtain ⟨exp, self, -, -, -, hnew, -, -, hreaches⟩ := slots_reach_target (generous (2 ^ 25)) htarget (by decide)
    (show 24 - MIN_EXP < 1 by decide) (fun _ _ => rfl) ⟨2 ^ 20, by decide⟩
  cases hself.symm.trans hnew
  refine hreaches.mpr (Machine.holds_cons_iff.mpr ⟨⟨by decide, by decide, fun _ => ⟨by decide, fun _ _ => rfl⟩⟩, ?_⟩)
  exact fun k size hsize => by cases hsize

def firstState : State := ⟨⟨2 ^ 23, 2 ^ 39, ⟨2 ^ 24, by decide⟩, .empty⟩, []⟩

theorem new_firstState : targetExp 0 = some 47 ∧
    EnarxAllocator.new 0 509 firstState.self.endOfMem = some firstState.self := by
  have htarget : targetExp 0 = some 47 := rfl
  have hmax : maxExp 509 47 = some 39 := maxExp_eq_some.mpr ⟨by decide, by decide, by decide⟩
  refine ⟨htarget, ?_⟩
  simp only [EnarxAllocator.new, htarget, hmax, Option.bind_eq_bind, Option.bind_some]
  rfl

theorem firstState_granted (n : Nat) : ((generous 0).Holds (2 ^ 24) (requestSizes (2 ^ 39) n (2 ^ 23)) →
      ∃ final, Runs.exec (called (generous 0)) firstState (List.replicate n ()) = some final ∧
        final.self.endOfMem.raw = 2 ^ 24 + (requestSizes (2 ^ 39) n (2 ^ 23)).sum) ∧
    (¬(generous 0).Holds (2 ^ 24) (requestSizes (2 ^ 39) n (2 ^ 23)) →
      Runs.exec (called (generous 0)) firstState (List.replicate n ()) = none) :=
  @exec_called_granted (generous 0) firstState 39 (by decide) (by decide) n 23 (by decide) (by decide) rfl rfl
    fun _ _ => rfl

theorem exec_firstState {n : Nat} (hsize : (requestSizes (2 ^ 39) n (2 ^ 23))[15]? = some (2 ^ 39))
    (hsum : ((requestSizes (2 ^ 39) n (2 ^ 23)).take 15).sum = 2 ^ 39 - 2 ^ 24) :
    Runs.exec (called (generous 0)) firstState (List.replicate n ()) = none := by
  refine (firstState_granted n).2 fun hholds => ?_
  have hwindow := (hholds 15 _ hsize).window
  rw [hsum] at hwindow
  exact absurd hwindow (by decide)

/-- The sixteenth call panics. -/
theorem slots_miss_target : targetExp 0 = some 47 ∧
    EnarxAllocator.new 0 509 firstState.self.endOfMem = some firstState.self ∧
    Runs.exec (called (generous 0)) firstState (List.replicate 509 ()) = none :=
  ⟨new_firstState.1, new_firstState.2, exec_firstState (by decide +kernel) (by decide +kernel)⟩

def shimVirtToEncPhys (cBitMask virt : Nat) : Option PhysAddr := do
  let virt ← VirtAddr.new virt
  PhysAddr.new ((← checkedSub virt.raw SHIM_VIRT_OFFSET) ||| cBitMask)

/-- A possible mask of the C-bit: a bit of a physical address, or none. -/
def IsCBitMask (cBitMask : Nat) : Prop := cBitMask = 0 ∨ ∃ k < 52, cBitMask = 2 ^ k

/-- New memory can be used: every physical address of it has a virtual address of its own, which leads back to it. -/
def Addressable (cBitMask endOfMem size : Nat) : Prop :=
  (∀ addr : PhysAddr, endOfMem ≤ addr.raw → addr.raw < endOfMem + size → ∃ virt back,
    shimVirtAddr cBitMask addr = some virt ∧ shimVirtToEncPhys cBitMask virt = some back ∧
      back.raw = addr.raw ||| cBitMask) ∧
  ∀ addr other : PhysAddr, endOfMem ≤ addr.raw → addr.raw < endOfMem + size →
    endOfMem ≤ other.raw → other.raw < endOfMem + size →
      shimVirtAddr cBitMask addr = shimVirtAddr cBitMask other → addr = other

section

variable {cBitMask target : Nat}

theorem lt_cBitMask (hmask : IsCBitMask cBitMask) (htarget : targetExp cBitMask = some target) {pa : Nat}
    (hpa : pa < 2 * 2 ^ target) : ∀ i, cBitMask.testBit i = true → pa < 2 ^ i := by
  intro i hi
  rcases hmask with rfl | ⟨k, hk, rfl⟩
  · rw [Nat.zero_testBit] at hi
    cases hi
  · rw [Nat.testBit_two_pow, decide_eq_true_eq] at hi
    subst hi
    rw [targetExp, if_pos (Nat.two_pow_pos k), msb_eq, Nat.log2_two_pow, Option.map_eq_some_iff] at htarget
    obtain ⟨exp, hexp, rfl⟩ := htarget
    obtain ⟨hone, rfl⟩ := checkedSub_eq_some.mp hexp
    calc pa < 2 * 2 ^ min 47 (k - 1) := hpa
      _ = 2 ^ (min 47 (k - 1) + 1) := by rw [pow_succ, Nat.mul_comm]
      _ ≤ 2 ^ k := Nat.pow_le_pow_right (by decide) (by omega)

theorem IsCBitMask.lt (hmask : IsCBitMask cBitMask) : cBitMask < 2 ^ 52 := by
  rcases hmask with rfl | ⟨k, hk, rfl⟩
  · decide
  · exact Nat.pow_lt_pow_right (by decide) hk

theorem andNot_or (hmask : IsCBitMask cBitMask) {pa : Nat} (hpa : pa < 2 ^ 64)
    (hbelow : ∀ i, cBitMask.testBit i = true → pa < 2 ^ i) : andNot (pa ||| cBitMask) cBitMask = pa := by
  have hlt : cBitMask < 2 ^ 64 := hmask.lt.trans (by decide)
  apply Nat.eq_of_testBit_eq
  intro i
  rw [andNot, Nat.testBit_and, Nat.testBit_or, show 2 ^ 64 - 1 - cBitMask = 2 ^ 64 - (cBitMask + 1) by omega,
    Nat.testBit_two_pow_sub_succ hlt]
  by_cases hi : cBitMask.testBit i = true
  · simp [hi, Nat.testBit_lt_two_pow (hbelow i hi)]
  · by_cases h64 : i < 64
    · simp [hi, h64]
    · have hzero : pa.testBit i = false :=
        Nat.testBit_lt_two_pow (hpa.trans_le (Nat.pow_le_pow_right (by decide) (Nat.le_of_not_lt h64)))
      simp [hi, h64, hzero]

theorem shimVirtAddr_eq (hmask : IsCBitMask cBitMask) (htarget : targetExp cBitMask = some target)
    {addr : PhysAddr} (haddr : addr.raw < 2 * 2 ^ target) : shimVirtAddr cBitMask addr =
      if addr.raw < 2 ^ 39 then some (addr.raw + SHIM_VIRT_OFFSET) else none := by
  have hwindow : 2 ^ 64 - SHIM_VIRT_OFFSET = 2 ^ 39 := by decide
  rw [shimVirtAddr, andNot_or hmask (addr.valid.trans (by decide)) (lt_cBitMask hmask htarget haddr), hwindow]

theorem shimVirtToEncPhys_eq (hmask : IsCBitMask cBitMask) {addr : PhysAddr} (haddr : addr.raw < 2 ^ 39) :
    ∃ back, shimVirtToEncPhys cBitMask (addr.raw + SHIM_VIRT_OFFSET) = some back ∧
      back.raw = addr.raw ||| cBitMask := by
  have hvalid : addr.raw ||| cBitMask < 2 ^ 52 := Nat.or_lt_two_pow addr.valid hmask.lt
  have hcanonical : 2 ^ 64 - 2 ^ 47 ≤ addr.raw + SHIM_VIRT_OFFSET ∧ addr.raw + SHIM_VIRT_OFFSET < 2 ^ 64 := by
    unfold SHIM_VIRT_OFFSET
    omega
  obtain ⟨virt, hraw⟩ : ∃ virt : VirtAddr, virt.raw = addr.raw + SHIM_VIRT_OFFSET := ⟨⟨_, .inr hcanonical⟩, rfl⟩
  have hsub : checkedSub virt.raw SHIM_VIRT_OFFSET = some addr.raw := checkedSub_eq_some.mpr ⟨by omega, by omega⟩
  refine ⟨⟨_, hvalid⟩, ?_, rfl⟩
  rw [← hraw, shimVirtToEncPhys, VirtAddr.new_raw]
  simp only [hsub, Option.bind_eq_bind, Option.bind_some]
  exact dif_pos hvalid

/-- Memory up to the target is addressable iff it ends with the window. -/
theorem addressable_iff (hmask : IsCBitMask cBitMask) (htarget : targetExp cBitMask = some target)
    {first endOfMem size : Nat} (hfirst : first ≤ 2 ^ target) (hsize : 0 < size)
    (htotal : endOfMem + size ≤ first + 2 ^ target) :
    Addressable cBitMask endOfMem size ↔ endOfMem + size ≤ 2 ^ 39 := by
  have htarget' : 2 * 2 ^ target ≤ 2 ^ 48 := by
    have := Nat.pow_le_pow_right (by decide : 0 < 2) (targetExp_le htarget)
    omega
  constructor
  · rintro ⟨hback, -⟩
    by_contra hgt
    -- the last byte
    let last : PhysAddr := ⟨endOfMem + size - 1, by omega⟩
    obtain ⟨virt, back, hvirt, -⟩ := hback last (show endOfMem ≤ endOfMem + size - 1 by omega)
      (show endOfMem + size - 1 < endOfMem + size by omega)
    rw [shimVirtAddr_eq hmask htarget (show endOfMem + size - 1 < 2 * 2 ^ target by omega),
      if_neg (show ¬endOfMem + size - 1 < 2 ^ 39 by omega)] at hvirt
    cases hvirt
  · intro hle
    refine ⟨?_, ?_⟩
    · intro addr _ hlt
      obtain ⟨back, hback, hraw⟩ := shimVirtToEncPhys_eq hmask (show addr.raw < 2 ^ 39 by omega)
      refine ⟨_, back, ?_, hback, hraw⟩
      rw [shimVirtAddr_eq hmask htarget (by omega), if_pos (by omega)]
    · intro addr other _ hlt _ hlt' hsame
      rw [shimVirtAddr_eq hmask htarget (by omega), if_pos (by omega), shimVirtAddr_eq hmask htarget (by omega),
        if_pos (by omega), Option.some.injEq] at hsame
      exact PhysAddr.ext (Nat.add_right_cancel hsame)

end

theorem targetExp_51 : targetExp (2 ^ 51) = some 47 := by
  rw [targetExp, if_pos (by decide), msb_eq]
  decide

theorem addressable_second : Addressable (2 ^ 51) (2 ^ 24) (2 ^ 24) ↔ 2 ^ 24 + 2 ^ 24 ≤ 2 ^ 39 :=
  addressable_iff (.inr ⟨51, by decide, rfl⟩) targetExp_51 (Nat.zero_le _) (by decide) (by decide)

/-- Fifteen requests fill the window. The next one is within the target, but the call panics, and the memory has no
virtual addresses. -/
theorem memory_beyond_window :
    (targetExp 0 = some 47 ∧ EnarxAllocator.new 0 509 firstState.self.endOfMem = some firstState.self) ∧
    (∃ full, Runs.exec (called (generous 0)) firstState (List.replicate 15 ()) = some full ∧
      full.self.endOfMem.raw = 2 ^ 39) ∧
    Runs.exec (called (generous 0)) firstState (List.replicate 16 ()) = none ∧
    2 ^ 39 + 2 ^ 39 ≤ 2 ^ 47 ∧ ¬Addressable 0 (2 ^ 39) (2 ^ 39) := by
  refine ⟨new_firstState, ?_, exec_firstState (by decide) (by decide), by decide, ?_⟩
  · have hinside : ∀ k < 15, ∀ size ∈ (requestSizes (2 ^ 39) 15 (2 ^ 23))[k]?,
        2 ^ 24 + ((requestSizes (2 ^ 39) 15 (2 ^ 23)).take k).sum < 2 ^ 39 ∧ size < 2 ^ 39 := by decide
    have hholds : (generous 0).Holds (2 ^ 24) (requestSizes (2 ^ 39) 15 (2 ^ 23)) := by
      intro k size hsize
      obtain ⟨hk, -⟩ := List.getElem?_eq_some_iff.mp hsize
      obtain ⟨haddr, hlt⟩ := hinside k hk size hsize
      refine ⟨?_, by omega, fun hmask => absurd hmask (Nat.lt_irrefl 0)⟩
      rw [Machine.plain, generous, andNot_or (.inl rfl) (by omega) fun i hi => by simp at hi]
      exact haddr
    obtain ⟨full, hfull, hend⟩ := (firstState_granted 15).1 hholds
    exact ⟨full, hfull, hend.trans (by decide)⟩
  · rintro ⟨hback, -⟩
    obtain ⟨virt, back, hvirt, -⟩ := hback ⟨2 ^ 39, by decide⟩ le_rfl (by decide)
    cases hvirt

end Enarx.Kvm.Balloon
