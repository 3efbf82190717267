import Enarx.Kvm.Allocator

/-!
# What is in stock

The heap hands out pages, and it grows as the host grants memory. What `balloon` does
depends on the sizes of earlier requests, on where the memory ends and on the answers of
the host. So what is free and what the host will answer tell in advance whether there
will be a page, and whether asking for memory panics.
-/
namespace Enarx.Kvm

open Alloc

def Stop.Allows (E : ε → σ → Prop) : Stop ε → σ → Prop
  | .err error, state => E error state
  | _, _ => True

theorem Stop.Allows.imp {E E' : ε → σ → Prop} {stop : Stop ε} {state : σ} (h : Stop.Allows E stop state)
    (himp : ∀ error, E error state → E' error state) : Stop.Allows E' stop state := by
  cases stop with
  | err error => exact himp error h
  | panic => exact trivial
  | fuel => exact trivial

theorem unwrap_yields {E : ε → Memory → Prop} (value : Option α) (memory : Memory) :
    Exec.Yields (Alloc.unwrap value) memory (fun result after => value = some result ∧ memory = after)
      (Stop.Allows E) := by
  cases value with
  | none => exact trivial
  | some value => exact ⟨rfl, rfl⟩

def Attempted (Q : α → Memory → Prop) (E : δ → Memory → Prop) : Except δ α → Memory → Prop
  | .ok value, memory => Q value memory
  | .error error, memory => E error memory

theorem attempted_yields {run : Alloc δ α} {memory : Memory} {Q : α → Memory → Prop}
    {E : δ → Memory → Prop} {E' : ε → Memory → Prop} (h : Exec.Yields run memory Q (Stop.Allows E)) :
    Exec.Yields (attempt run) memory (Attempted Q E) (Stop.Allows E') := by
  unfold Exec.Yields attempt at *
  rcases hrun : run memory with ⟨(_ | _ | _) | _, after⟩ <;> rw [hrun] at h
  · exact h
  · exact trivial
  · exact trivial
  · exact h

theorem mapErr_yields {run : Alloc δ α} {f : δ → ε} {memory : Memory} {Q : α → Memory → Prop} {E : δ → Memory → Prop}
    {E' : ε → Memory → Prop} (h : Exec.Yields run memory Q (Stop.Allows E))
    (herror : ∀ error after, E error after → E' (f error) after) :
    Exec.Yields (mapErr f run) memory Q (Stop.Allows E') := by
  refine (attempted_yields h).bind ?_
  rintro (error | value) after hafter
  · exact herror error after hafter
  · exact hafter

/-- A run may stop with an error in `E`, and panics or runs out of fuel only if not `good`. -/
def Stop.Lets (good : Prop) (E : ε → σ → Prop) : Stop ε → σ → Prop
  | .err error, state => E error state
  | _, _ => ¬good

section

variable {good good' : Prop} {E E' : ε → σ → Prop}

theorem Stop.Lets.imp {stop : Stop ε} {state : σ} (h : stop.Lets good E state) (hgood : good' → good)
    (himp : ∀ error, E error state → E' error state) : stop.Lets good' E' state := by
  cases stop with
  | err error => exact himp error h
  | panic => exact fun hgood' => h (hgood hgood')
  | fuel => exact fun hgood' => h (hgood hgood')

theorem allows_of_lets {run : Exec (Stop ε) σ α} {state : σ} {Q : α → σ → Prop}
    (h : Exec.Yields run state Q (Stop.Lets good E)) : Exec.Yields run state Q (Stop.Allows E) := by
  refine h.imp (fun _ _ => id) ?_
  rintro (error | _ | _) final hstop
  · exact hstop
  · exact trivial
  · exact trivial

theorem attempted_lets {run : Alloc δ α} {memory : Memory} {Q : α → Memory → Prop} {E : δ → Memory → Prop}
    {E' : ε → Memory → Prop} (h : Exec.Yields run memory Q (Stop.Lets good E)) :
    Exec.Yields (attempt run) memory (Attempted Q E) (Stop.Lets good E') := by
  unfold Exec.Yields attempt at *
  rcases hrun : run memory with ⟨(_ | _ | _) | _, after⟩ <;> rw [hrun] at h <;> exact h

end

theorem unwrap_bind {memory : Memory} {value : Option α} {next : α → Alloc ε β} {Q : β → Memory → Prop}
    {E : Stop ε → Memory → Prop} (hsome : ∀ result, value = some result → Exec.Yields (next result) memory Q E)
    (hnone : value = none → E .panic memory) : Exec.Yields (unwrap value >>= next) memory Q E := by
  cases value with
  | none => exact hnone rfl
  | some value => exact hsome value rfl

theorem shimVirt_spec {n : Nat} {virt : VirtAddr} (h : shimVirt n = some virt) :
    n < 2 ^ 27 ∧ virt.raw = SHIM_VIRT_OFFSET + SIZE_4_KIB * n := by
  unfold shimVirt at h
  split at h
  · next hlt =>
    cases h
    exact ⟨hlt, rfl⟩
  · cases h

theorem shimVirtToEncPhys_spec {c : CBit} {n : Nat} {frame : PhysAddr}
    (h : shimVirtToEncPhys c n = some frame) : n < 2 ^ 27 ∧ frame.raw = SIZE_4_KIB * n + c.mask := by
  obtain ⟨virt, hvirt, h⟩ := Option.bind_eq_some_iff.mp h
  obtain ⟨hlt, hraw⟩ := shimVirt_spec hvirt
  refine ⟨hlt, ?_⟩
  have hphys : SIZE_4_KIB * n < 2 ^ 39 := by
    unfold SIZE_4_KIB
    omega
  rw [hraw, Nat.add_sub_cancel_left, c.or_mask hphys, PhysAddr.new] at h
  split at h
  · cases h
    rfl
  · cases h

namespace Ledger

variable (host : Host)

def drain : Nat → Ledger → Option Ledger
  | 0, ledger => some ledger
  | calls + 1, ledger => (ledger.balloon host).bind fun result => drain calls result.2

structure Asks (before : Ledger) (granted : Bool) (after : Ledger) : Prop where
  maxAlloc : after.maxAlloc = before.maxAlloc
  endOfMem : before.endOfMem ≤ after.endOfMem
  asked : before.asked < after.asked
  refused : granted = false → after = { before with asked := after.asked }
  grown : granted = true → before.endOfMem < after.endOfMem

variable {host} {ledger after : Ledger} {granted : Bool}

theorem round_asks {lastSize : Nat} (h : ledger.round host lastSize = some (granted, after)) :
    ledger.Asks granted after := by
  unfold round at h
  split at h
  · obtain ⟨newEnd, hnewEnd, heq⟩ := Option.map_eq_some_iff.mp h
    cases heq
    obtain ⟨freeStart, -, hnewEnd⟩ := Option.bind_eq_some_iff.mp hnewEnd
    rw [Option.ite_none_right_eq_some] at hnewEnd
    cases hnewEnd.2
    refine ⟨rfl, Nat.le_add_right _ _, Nat.lt_succ_self _, fun h => Bool.noConfusion h, fun _ => ?_⟩
    exact Nat.lt_add_of_pos_right (Nat.two_pow_pos _)
  · cases h
    exact ⟨rfl, le_rfl, Nat.lt_succ_self _, fun _ => rfl, fun h => Bool.noConfusion h⟩

theorem loop_asks {lastSize : Nat} (h : ledger.loop host lastSize = some (granted, after)) :
    ledger.Asks granted after := by
  induction lastSize generalizing ledger with
  | zero => exact round_asks h
  | succ lastSize ih =>
    rw [loop, Option.bind_eq_bind, Option.bind_eq_some_iff] at h
    obtain ⟨⟨first, middle⟩, hround, hrest⟩ := h
    have hfirst := round_asks hround
    cases first with
    | true =>
      cases hrest
      exact hfirst
    | false =>
      have hlater := ih hrest
      refine ⟨hlater.maxAlloc.trans hfirst.maxAlloc, hfirst.endOfMem.trans hlater.endOfMem,
        hfirst.asked.trans hlater.asked, fun hgranted => ?_, fun hgranted => ?_⟩
      · rw [hlater.refused hgranted, hfirst.refused rfl]
      · exact hfirst.endOfMem.trans_lt (hlater.grown hgranted)

theorem balloon_asks (h : ledger.balloon host = some (granted, after)) : ledger.Asks granted after := loop_asks h

theorem drain_le {calls : Nat} (h : ledger.drain host calls = some after) : ledger.endOfMem ≤ after.endOfMem := by
  induction calls generalizing ledger with
  | zero =>
    cases h
    exact le_rfl
  | succ calls ih =>
    rw [drain, Option.bind_eq_some_iff] at h
    obtain ⟨⟨granted, middle⟩, hballoon, hrest⟩ := h
    exact (balloon_asks hballoon).endOfMem.trans (ih hrest)

section

variable {limit : Nat} (hrefuses : ∀ n, limit ≤ n → host.balloonMemory n = false)
include hrefuses

end

end Ledger

section

variable {memory before middle after : Memory}

theorem Memory.ledger_granted {ledger : Ledger} (h : ledger.maxAlloc = memory.allocator.maxAlloc) :
    (memory.granted ledger).ledger = ledger := by
  cases ledger
  cases h
  rfl

theorem Memory.granted_granted {first second : Ledger} (hfirst : memory.allocator.endOfMem ≤ first.endOfMem)
    (hsecond : first.endOfMem ≤ second.endOfMem) :
    (memory.granted first).granted second = memory.granted second := by
  simp only [Memory.granted, Memory.mk.injEq, EnarxAllocator.mk.injEq, true_and, and_true]
  rw [Finset.union_assoc, Finset.Ico_union_Ico_eq_Ico hfirst hsecond]

theorem Memory.granted_asked (memory : Memory) (asked : Nat) :
    memory.granted { memory.ledger with asked } = { memory with asked } := by
  simp [Memory.granted, Memory.ledger]

def Memory.Bounded (memory : Memory) : Prop := ∀ n ∈ memory.allocator.free, n < memory.allocator.endOfMem

theorem Memory.Bounded.granted (h : memory.Bounded) {ledger : Ledger}
    (hend : memory.allocator.endOfMem ≤ ledger.endOfMem) : (memory.granted ledger).Bounded := by
  intro n hn
  rcases Finset.mem_union.mp hn with hold | hnew
  · exact (h n hold).trans_le hend
  · exact (Finset.mem_Ico.mp hnew).2

/-- The heap has grown by what the host has granted. -/
def Memory.Supplied (before after : Memory) : Prop :=
  ∃ ledger : Ledger, before.allocator.endOfMem ≤ ledger.endOfMem ∧ after = before.granted ledger

theorem Memory.Supplied.refl (memory : Memory) : memory.Supplied memory :=
  ⟨memory.ledger, le_rfl, (memory.granted_asked memory.asked).symm⟩

theorem Memory.Supplied.trans (h : before.Supplied middle) (h' : middle.Supplied after) : before.Supplied after := by
  obtain ⟨first, hfirst, rfl⟩ := h
  obtain ⟨second, hsecond, rfl⟩ := h'
  exact ⟨second, hfirst.trans hsecond, Memory.granted_granted hfirst hsecond⟩

def Memory.take (memory : Memory) (start npages : Nat) : Memory :=
  { memory with
    allocator := { memory.allocator with free := memory.allocator.free \ Finset.Ico start (start + npages) } }

def Memory.HandsOut (before : Memory) (start npages : Nat) (after : Memory) : Prop :=
  ∃ middle, before.Supplied middle ∧ Finset.Ico start (start + npages) ⊆ middle.allocator.free ∧
    after = middle.take start npages

def Memory.cleared (memory : Memory) (start npages : Nat) : Memory :=
  { memory with
    tables := { memory.tables with
      mem := fun table => if table.InWindow ∧ start ≤ table.memPage ∧ table.memPage < start + npages then
        fun _ => .unused else memory.tables.mem table } }

def Memory.SetsAside (before : Memory) (start npages : Nat) (after : Memory) : Prop :=
  start + npages ≤ 2 ^ 27 ∧ ∃ middle, before.HandsOut start npages middle ∧ after = middle.cleared start npages

end

/-- How many pages are free once the memory ends there. -/
def Memory.stock (memory : Memory) (endOfMem : Nat) : Nat :=
  (memory.allocator.free ∪ Finset.Ico memory.allocator.endOfMem endOfMem).card

/-- A heap that has a free page finds one. -/
def FirstFit.FindsPages (heap : FirstFit) : Prop := ∀ free : Finset Nat, free.Nonempty → (heap.find free 1).isSome

/-- So many pages are free and can be found, or will be when the ledger has come to one of `later`. -/
def Memory.Has (host : Host) (later : Ledger → Ledger → Prop) (memory : Memory) (demand : Nat) : Prop :=
  host.heap.FindsPages ∧ ∃ ledger, later memory.ledger ledger ∧ demand ≤ memory.stock ledger.endOfMem

/-- The ledger after so many calls of `balloon` that are all granted. -/
def Ledger.grants (host : Host) : Nat → Ledger → Option Ledger
  | 0, ledger => some ledger
  | calls + 1, ledger => (ledger.balloon host).bind fun result => if result.1 then grants host calls result.2 else none

/-- So many pages are free, or will be before the host refuses a call of `balloon`. -/
abbrev Memory.Provides (host : Host) : Memory → Nat → Prop :=
  Memory.Has host fun ledger after => ∃ calls, ledger.grants host calls = some after

/-- So many pages are free, or will be after at most so many calls of `balloon`. -/
abbrev Memory.Gets (host : Host) (limit : Nat) : Memory → Nat → Prop :=
  Memory.Has host fun ledger after => ∃ calls ≤ limit, ledger.drain host calls = some after

/-- Free pages can be found and are seen in the window, and until there are so many pages `balloon` does not
panic and the memory stays in the window. -/
structure Memory.Steady (host : Host) (memory : Memory) (demand : Nat) : Prop where
  heap : host.heap.FindsPages
  window : ∀ n ∈ memory.allocator.free, n < 2 ^ 27
  balloon : ∀ calls ledger, memory.ledger.drain host calls = some ledger → memory.stock ledger.endOfMem < demand →
    ∃ result, ledger.balloon host = some result ∧ result.2.endOfMem ≤ 2 ^ 27

/-- However often the host is asked, there will be fewer pages. -/
structure Memory.Starves (host : Host) (memory : Memory) (demand : Nat) : Prop where
  heap : host.heap.FindsPages
  bounded : memory.Bounded
  short : ∀ calls ledger, memory.ledger.drain host calls = some ledger → memory.stock ledger.endOfMem < demand

structure TakesBlock (before : Memory) (start npages : Nat) (after : Memory) : Prop where
  ledger : after.ledger = before.ledger
  subset : Finset.Ico start (start + npages) ⊆ before.allocator.free
  free : after.allocator.free = before.allocator.free \ Finset.Ico start (start + npages)

/-- What is said about a number of pages remains true when pages are taken, of those that are left, and when
the host is asked because there are fewer. -/
structure Forecast (host : Host) (P : Memory → Nat → Prop) : Prop where
  heap : ∀ {memory demand}, P memory demand → host.heap.FindsPages
  congr : ∀ {before after demand}, after.allocator = before.allocator → after.asked = before.asked →
    P before demand → P after demand
  take : ∀ {before after start npages demand}, TakesBlock before start npages after →
    P before (demand + npages) → P after demand
  grant : ∀ {memory demand granted ledger}, memory.ledger.balloon host = some (granted, ledger) →
    memory.allocator.free.card < demand → P memory demand → P (memory.granted ledger) demand

section

variable {host : Host} {memory before middle after : Memory} {demand start npages : Nat}

theorem Memory.stock_end : memory.stock memory.allocator.endOfMem = memory.allocator.free.card := by
  rw [Memory.stock, Finset.Ico_self, Finset.union_empty]

theorem Memory.stock_granted {ledger : Ledger} {endOfMem : Nat} (hledger : memory.allocator.endOfMem ≤ ledger.endOfMem)
    (hend : ledger.endOfMem ≤ endOfMem) : (memory.granted ledger).stock endOfMem = memory.stock endOfMem := by
  change (memory.allocator.free ∪ Finset.Ico memory.allocator.endOfMem ledger.endOfMem ∪
    Finset.Ico ledger.endOfMem endOfMem).card = _
  rw [Finset.union_assoc, Finset.Ico_union_Ico_eq_Ico hledger hend, Memory.stock]

theorem Memory.stock_mono {first second : Nat} (h : first ≤ second) : memory.stock first ≤ memory.stock second :=
  Finset.card_le_card (Finset.union_subset_union_right (Finset.Ico_subset_Ico_right h))

theorem TakesBlock.stock_le (h : TakesBlock before start npages after) (endOfMem : Nat) :
    before.stock endOfMem ≤ after.stock endOfMem + npages := by
  have hend : after.allocator.endOfMem = before.allocator.endOfMem := congrArg Ledger.endOfMem h.ledger
  have hsub : before.allocator.free ∪ Finset.Ico before.allocator.endOfMem endOfMem ⊆
      after.allocator.free ∪ Finset.Ico after.allocator.endOfMem endOfMem ∪ Finset.Ico start (start + npages) := by
    rw [hend, h.free]
    intro n hn
    by_cases hblock : n ∈ Finset.Ico start (start + npages)
    · exact Finset.mem_union_right _ hblock
    · simp only [Finset.mem_union, Finset.mem_sdiff] at hn ⊢
      exact .inl (hn.imp_left fun hfree => ⟨hfree, hblock⟩)
  calc before.stock endOfMem ≤ _ := Finset.card_le_card hsub
    _ ≤ after.stock endOfMem + (Finset.Ico start (start + npages)).card := Finset.card_union_le _ _
    _ = after.stock endOfMem + npages := by rw [Nat.card_Ico, Nat.add_sub_cancel_left]

theorem Ledger.grants_le {calls : Nat} {ledger final : Ledger} (h : ledger.grants host calls = some final) :
    ledger.endOfMem ≤ final.endOfMem := by
  induction calls generalizing ledger with
  | zero =>
    cases h
    exact le_rfl
  | succ calls ih =>
    rw [grants, Option.bind_eq_some_iff] at h
    obtain ⟨⟨granted, middle⟩, hballoon, hrest⟩ := h
    rw [Option.ite_none_right_eq_some] at hrest
    exact (balloon_asks hballoon).endOfMem.trans (ih hrest.2)

theorem Memory.stock_congr (h : after.allocator = before.allocator) (endOfMem : Nat) :
    after.stock endOfMem = before.stock endOfMem := by
  rw [Memory.stock, Memory.stock, h]

theorem Memory.ledger_congr (h : after.allocator = before.allocator) (hasked : after.asked = before.asked) :
    after.ledger = before.ledger := by
  rw [Memory.ledger, Memory.ledger, h, hasked]

theorem antitone_has (later : Ledger → Ledger → Prop) (memory : Memory) : Antitone (memory.Has host later) := by
  rintro less demand hle ⟨hheap, ledger, hlater, hdemand⟩
  exact ⟨hheap, ledger, hlater, hle.trans hdemand⟩

theorem has_forecast {later : Ledger → Ledger → Prop} (hrefl : ∀ ledger, later ledger ledger)
    (hle : ∀ {ledger final}, later ledger final → ledger.endOfMem ≤ final.endOfMem)
    (hstep : ∀ {ledger final result}, later ledger final → ledger.balloon host = some result →
      final = ledger ∨ later result.2 final) : Forecast host (Memory.Has host later) where
  heap h := h.1
  congr hallocator hasked := by
    rintro ⟨hheap, ledger, hlater, hdemand⟩
    refine ⟨hheap, ledger, ?_, hdemand.trans_eq (Memory.stock_congr hallocator _).symm⟩
    rwa [Memory.ledger_congr hallocator hasked]
  take htakes := by
    rintro ⟨hheap, ledger, hlater, hdemand⟩
    refine ⟨hheap, ledger, htakes.ledger ▸ hlater, ?_⟩
    exact Nat.le_of_add_le_add_right (hdemand.trans (htakes.stock_le _))
  grant {memory demand granted ledger} hballoon _ := by
    have hasks := Ledger.balloon_asks hballoon
    rintro ⟨hheap, final, hlater, hdemand⟩
    rcases hstep hlater hballoon with rfl | hafter
    · refine ⟨hheap, ledger, ?_, hdemand.trans ?_⟩
      · rw [Memory.ledger_granted hasks.maxAlloc]
        exact hrefl ledger
      · rw [Memory.stock_granted hasks.endOfMem le_rfl]
        exact Memory.stock_mono hasks.endOfMem
    · refine ⟨hheap, final, by rwa [Memory.ledger_granted hasks.maxAlloc], ?_⟩
      rwa [Memory.stock_granted hasks.endOfMem (hle hafter)]

theorem provides_forecast : Forecast host (Memory.Provides host) := by
  refine has_forecast (fun _ => ⟨0, rfl⟩) (fun ⟨_, h⟩ => Ledger.grants_le h) ?_
  rintro ledger final result ⟨_ | calls, hgrants⟩ hballoon
  · cases hgrants
    exact .inl rfl
  · rw [Ledger.grants, hballoon, Option.bind_some, Option.ite_none_right_eq_some] at hgrants
    exact .inr ⟨calls, hgrants.2⟩

theorem gets_forecast (limit : Nat) : Forecast host (Memory.Gets host limit) := by
  refine has_forecast (fun _ => ⟨0, Nat.zero_le _, rfl⟩) (fun ⟨_, _, h⟩ => Ledger.drain_le h) ?_
  rintro ledger final result ⟨_ | calls, hcalls, hdrain⟩ hballoon
  · cases hdrain
    exact .inl rfl
  · rw [Ledger.drain, hballoon, Option.bind_some] at hdrain
    exact .inr ⟨calls, Nat.le_of_succ_le hcalls, hdrain⟩

theorem antitone_steady (memory : Memory) : Antitone (memory.Steady host) := fun _ _ hle h =>
  ⟨h.heap, h.window, fun calls ledger hdrain hlt => h.balloon calls ledger hdrain (hlt.trans_le hle)⟩

theorem steady_forecast : Forecast host (Memory.Steady host) where
  heap h := h.heap
  congr hallocator hasked h := by
    refine ⟨h.heap, hallocator ▸ h.window, fun calls ledger hdrain hlt => ?_⟩
    rw [Memory.ledger_congr hallocator hasked] at hdrain
    exact h.balloon calls ledger hdrain ((Memory.stock_congr hallocator _).symm.trans_lt hlt)
  take htakes h := by
    refine ⟨h.heap, fun n hn => h.window n (Finset.sdiff_subset (htakes.free ▸ hn)), fun calls ledger hdrain hlt => ?_⟩
    apply h.balloon calls ledger (htakes.ledger ▸ hdrain)
    have hle := htakes.stock_le ledger.endOfMem
    omega
  grant {memory demand granted ledger} hballoon hlt h := by
    have hasks := Ledger.balloon_asks hballoon
    refine ⟨h.heap, fun n hn => ?_, fun calls final hdrain hless => ?_⟩
    · rcases Finset.mem_union.mp hn with hold | hnew
      · exact h.window n hold
      · obtain ⟨_, hresult, hend⟩ := h.balloon 0 memory.ledger rfl (Memory.stock_end.trans_lt hlt)
        cases hballoon.symm.trans hresult
        exact (Finset.mem_Ico.mp hnew).2.trans_le hend
    · rw [Memory.ledger_granted hasks.maxAlloc] at hdrain
      rw [Memory.stock_granted hasks.endOfMem (Ledger.drain_le hdrain)] at hless
      apply h.balloon (calls + 1) final _ hless
      rw [Ledger.drain, hballoon]
      exact hdrain

theorem TakesBlock.bounded (h : TakesBlock before start npages after) (hbounded : before.Bounded) : after.Bounded := by
  intro n hn
  rw [h.free] at hn
  exact (hbounded n (Finset.sdiff_subset hn)).trans_eq (congrArg Ledger.endOfMem h.ledger).symm

theorem TakesBlock.stock_eq (h : TakesBlock before start npages after) (hbounded : before.Bounded) (endOfMem : Nat) :
    after.stock endOfMem + npages = before.stock endOfMem := by
  have hend : after.allocator.endOfMem = before.allocator.endOfMem := congrArg Ledger.endOfMem h.ledger
  have hdisjoint : Disjoint (Finset.Ico before.allocator.endOfMem endOfMem) (Finset.Ico start (start + npages)) := by
    rw [Finset.disjoint_right]
    intro n hn hnew
    exact absurd (hbounded n (h.subset hn)) (Nat.not_lt.mpr (Finset.mem_Ico.mp hnew).1)
  have hafter : after.allocator.free ∪ Finset.Ico after.allocator.endOfMem endOfMem =
      (before.allocator.free ∪ Finset.Ico before.allocator.endOfMem endOfMem) \ Finset.Ico start (start + npages) := by
    rw [h.free, hend, Finset.union_sdiff_distrib, Finset.sdiff_eq_self_of_disjoint hdisjoint]
  have hsub : Finset.Ico start (start + npages) ⊆
      before.allocator.free ∪ Finset.Ico before.allocator.endOfMem endOfMem :=
    h.subset.trans Finset.subset_union_left
  have hle := Finset.card_le_card hsub
  rw [Nat.card_Ico, Nat.add_sub_cancel_left] at hle
  rw [Memory.stock, hafter, Finset.card_sdiff_of_subset hsub, Nat.card_Ico, Nat.add_sub_cancel_left,
    Nat.sub_add_cancel hle, Memory.stock]

theorem starves_forecast : Forecast host (Memory.Starves host) where
  heap h := h.heap
  congr hallocator hasked h := by
    refine ⟨h.heap, ?_, fun calls ledger hdrain => ?_⟩
    · unfold Memory.Bounded
      rw [hallocator]
      exact h.bounded
    · rw [Memory.ledger_congr hallocator hasked] at hdrain
      exact (Memory.stock_congr hallocator _).trans_lt (h.short calls ledger hdrain)
  take htakes h := by
    refine ⟨h.heap, htakes.bounded h.bounded, fun calls ledger hdrain => ?_⟩
    have hlt := h.short calls ledger (htakes.ledger ▸ hdrain)
    rw [← htakes.stock_eq h.bounded] at hlt
    exact Nat.lt_of_add_lt_add_right hlt
  grant {memory demand granted ledger} hballoon _ h := by
    have hasks := Ledger.balloon_asks hballoon
    refine ⟨h.heap, h.bounded.granted hasks.endOfMem, fun calls final hdrain => ?_⟩
    rw [Memory.ledger_granted hasks.maxAlloc] at hdrain
    rw [Memory.stock_granted hasks.endOfMem (Ledger.drain_le hdrain)]
    apply h.short (calls + 1)
    rw [Ledger.drain, hballoon]
    exact hdrain

theorem not_starves_zero : ¬memory.Starves host 0 :=
  fun h => Nat.not_lt_zero _ (h.short 0 memory.ledger rfl)

theorem gets_of_not_starves (h : ¬memory.Starves host demand) (hheap : host.heap.FindsPages)
    (hbounded : memory.Bounded) : ∃ limit, memory.Gets host limit demand := by
  by_contra hnone
  refine h ⟨hheap, hbounded, fun calls ledger hdrain => ?_⟩
  by_contra hle
  exact hnone ⟨calls, hheap, ledger, ⟨calls, le_rfl, hdrain⟩, Nat.le_of_not_lt hle⟩

def Spends (host : Host) (npages : Nat) (before after : Memory) : Prop :=
  ∀ P, Forecast host P → ∀ demand, P before (demand + npages) → P after demand

theorem Spends.congr (hallocator : after.allocator = before.allocator) (hasked : after.asked = before.asked) :
    Spends host 0 before after := fun _ hforecast _ => hforecast.congr hallocator hasked

theorem Spends.tables (h : Spends host npages before after) (tables : PageTables) :
    Spends host npages before { after with tables } :=
  fun P hforecast demand hbefore =>
    @Forecast.congr host P hforecast after { after with tables } demand rfl rfl (h P hforecast demand hbefore)

theorem TakesBlock.spends (h : TakesBlock before start npages after) : Spends host npages before after :=
  fun _ hforecast _ => hforecast.take h

theorem balloon_lets : Exec.Yields (balloon host : Alloc ε Bool) memory
    (fun granted after => ∃ ledger, memory.ledger.balloon host = some (granted, ledger) ∧ after = memory.granted ledger)
    (Stop.Lets (memory.Steady host (memory.allocator.free.card + 1)) fun _ _ => False) := by
  apply Exec.Yields.get_bind
  apply unwrap_bind
  · rintro ⟨granted, ledger⟩ hballoon
    exact ⟨ledger, hballoon, rfl⟩
  · intro hnone hsteady
    obtain ⟨result, hresult, -⟩ := hsteady.balloon 0 memory.ledger rfl (Memory.stock_end.trans_lt (Nat.lt_succ_self _))
    cases hnone.symm.trans hresult

theorem Memory.supplied_granted {granted : Bool} {ledger : Ledger}
    (h : memory.ledger.balloon host = some (granted, ledger)) : memory.Supplied (memory.granted ledger) :=
  ⟨ledger, (Ledger.balloon_asks h).endOfMem, rfl⟩

theorem allocPages_lets (npages : Nat) {good : Prop} :
    Exec.Yields (allocPages host npages : Alloc ε (Option Nat)) memory
      (fun result after => match result with
        | none => host.heap.find memory.allocator.free npages = none ∧ after = memory
        | some start => host.heap.find memory.allocator.free npages = some start ∧ after = memory.take start npages)
      (Stop.Lets good fun _ _ => False) := by
  unfold allocPages
  apply Exec.Yields.get_bind
  split
  · next hfind => exact ⟨hfind, rfl⟩
  · next start hfind => exact ⟨hfind, rfl⟩

theorem TakesBlock.take (h : host.heap.find memory.allocator.free npages = some start) :
    TakesBlock memory start npages (memory.take start npages) := ⟨rfl, host.heap.find_subset h, rfl⟩

theorem FirstFit.FindsPages.eq_empty (hheap : host.heap.FindsPages) {free : Finset Nat}
    (h : host.heap.find free 1 = none) : free = ∅ := by
  by_contra hne
  have hsome := hheap free (Finset.nonempty_iff_ne_empty.mpr hne)
  rw [h] at hsome
  cases hsome

theorem not_provides_one (hfree : memory.allocator.free = ∅) {ledger : Ledger}
    (hrefused : memory.ledger.balloon host = some (false, ledger)) : ¬memory.Provides host 1 := by
  rintro ⟨-, final, ⟨_ | calls, hgrants⟩, hle⟩
  · cases hgrants
    change 1 ≤ memory.stock memory.allocator.endOfMem at hle
    rw [Memory.stock_end, hfree] at hle
    cases hle
  · rw [Ledger.grants, hrefused] at hgrants
    cases hgrants

theorem tryAlloc_lets : Exec.Yields (tryAlloc host : Alloc ε (Option Nat)) memory
    (fun result after => match result with
      | none => ¬memory.Provides host 1 ∧ memory.Supplied after
      | some page => Spends host 1 memory after ∧ (memory.Steady host 1 → page < 2 ^ 27) ∧ memory.HandsOut page 1 after)
    (Stop.Lets (memory.Steady host 1) fun _ _ => False) := by
  have hmem : ∀ page : Nat, page ∈ Finset.Ico page (page + 1) :=
    fun page => Finset.mem_Ico.mpr ⟨le_rfl, Nat.lt_succ_self page⟩
  unfold tryAlloc
  refine (allocPages_lets 1).bind ?_
  rintro (_ | page) middle ⟨hfind, rfl⟩
  · have hlt : ∀ demand, host.heap.FindsPages → middle.allocator.free.card < demand + 1 := by
      intro demand hheap
      rw [hheap.eq_empty hfind]
      exact Nat.succ_pos demand
    refine Exec.Yields.bind (balloon_lets.imp (fun _ _ => id) ?_) ?_
    · intro stop _ hstop
      refine hstop.imp (fun hsteady => ?_) fun _ => id
      rwa [hsteady.heap.eq_empty hfind]
    rintro (_ | _) _ ⟨ledger, hballoon, rfl⟩
    · exact ⟨fun hprovides => not_provides_one (hprovides.1.eq_empty hfind) hballoon hprovides,
        Memory.supplied_granted hballoon⟩
    · refine (allocPages_lets 1).imp ?_ fun _ _ => id
      rintro (_ | page) after ⟨hafter, rfl⟩
      · refine ⟨fun hprovides => ?_, Memory.supplied_granted hballoon⟩
        have hempty := hprovides.1.eq_empty hafter
        have hgrown := (Ledger.balloon_asks hballoon).grown rfl
        have hnew : middle.allocator.endOfMem ∈ (middle.granted ledger).allocator.free :=
          Finset.mem_union_right _ (Finset.mem_Ico.mpr ⟨le_rfl, hgrown⟩)
        rw [hempty] at hnew
        cases hnew
      · have hsub := host.heap.find_subset hafter
        refine ⟨fun _ hforecast demand h => ?_, fun hsteady => ?_, _, Memory.supplied_granted hballoon, hsub, rfl⟩
        · exact hforecast.take (.take hafter) (hforecast.grant hballoon (hlt demand (hforecast.heap h)) h)
        · exact (steady_forecast.grant hballoon (hlt 0 hsteady.heap) hsteady).window page (hsub (hmem page))
  · have hsub := host.heap.find_subset hfind
    exact ⟨(TakesBlock.take hfind).spends, fun hsteady => hsteady.window page (hsub (hmem page)), memory, .refl memory,
      hsub, rfl⟩

theorem exists_shimVirtToEncPhys (c : CBit) {n : Nat} (h : n < 2 ^ 27) : ∃ frame, shimVirtToEncPhys c n = some frame := by
  have hphys : SIZE_4_KIB * n < 2 ^ 39 := by
    unfold SIZE_4_KIB
    omega
  have hlt := c.add_mask_lt hphys
  rw [← c.or_mask hphys] at hlt
  refine ⟨⟨SIZE_4_KIB * n ||| c.mask, hlt⟩, ?_⟩
  rw [shimVirtToEncPhys, shimVirt, dif_pos h, Option.bind_eq_bind, Option.bind_some, PhysAddr.new]
  simp only [Nat.add_sub_cancel_left]
  exact dif_pos hlt

theorem allocateFrame_lets : Exec.Yields (allocateFrame host : Alloc ε (Option PhysAddr)) memory
    (fun result after => match result with
      | none => ¬memory.Provides host 1 ∧ memory.Supplied after
      | some frame => Spends host 1 memory after ∧ ∃ page, page < 2 ^ 27 ∧
          frame.raw = SIZE_4_KIB * page + host.cBit.mask ∧ memory.HandsOut page 1 after)
    (Stop.Lets (memory.Steady host 1) fun _ _ => False) := by
  unfold allocateFrame
  refine tryAlloc_lets.bind ?_
  rintro (_ | page) middle hmiddle
  · exact hmiddle
  · apply unwrap_bind
    · intro frame hframe
      obtain ⟨hlt, hraw⟩ := shimVirtToEncPhys_spec hframe
      exact ⟨hmiddle.1, page, hlt, hraw, hmiddle.2.2⟩
    · intro hnone hsteady
      obtain ⟨frame, hframe⟩ := exists_shimVirtToEncPhys host.cBit (hmiddle.2.1 hsteady)
      cases hnone.symm.trans hframe

end

/-- The largest block for so many pages that the heap finds, as a power of two. -/
structure Cut (heap : FirstFit) (free : Finset Nat) (npages start exp : Nat) : Prop where
  find : heap.find free (2 ^ exp) = some start
  le : 2 ^ exp ≤ npages
  largest : ∀ larger, exp < larger → 2 ^ larger ≤ npages → heap.find free (2 ^ larger) = none

/-- A request for so many pages from `page` on may be served in pieces such that there is one of `2 ^ exp` pages
from `first` on. The heap may get more pages first if there are too few. -/
inductive IsPiece (heap : FirstFit) : Finset Nat → Nat → Nat → Nat → Nat → Prop where
  | front {free : Finset Nat} {page npages start exp : Nat} (cut : Cut heap free npages start exp) :
      IsPiece heap free page npages page exp
  | behind {free : Finset Nat} {page npages start exp first exp' : Nat} (cut : Cut heap free npages start exp)
      (rest : IsPiece heap (free \ Finset.Ico start (start + 2 ^ exp)) (page + 2 ^ exp) (npages - 2 ^ exp) first exp') :
      IsPiece heap free page npages first exp'
  | grown {free more : Finset Nat} {page npages first exp : Nat}
      (short : free.card < 2 ^ npages.log2 ∨ heap.find free 1 = none) (sub : free ⊆ more)
      (rest : IsPiece heap more page npages first exp) : IsPiece heap free page npages first exp

theorem IsPiece.range {heap : FirstFit} {free : Finset Nat} {page npages first exp : Nat}
    (h : IsPiece heap free page npages first exp) : page ≤ first ∧ first + 2 ^ exp ≤ page + npages := by
  induction h with
  | front cut => exact ⟨le_rfl, Nat.add_le_add_left cut.le _⟩
  | behind cut _ ih =>
    refine ⟨(Nat.le_add_right _ _).trans ih.1, ih.2.trans_eq ?_⟩
    rw [Nat.add_assoc, Nat.add_sub_cancel' cut.le]
  | grown _ _ _ ih => exact ih

/-- The host has been asked for memory because there are fewer pages free. -/
structure Ballooned (host : Host) (npages : Nat) (before after : Memory) : Prop where
  supplied : before.Supplied after
  forecast : ∀ P, Forecast host P → ∀ demand, npages ≤ demand → P before demand → P after demand
  piece : ∀ {page total first exp}, npages = 2 ^ total.log2 →
    IsPiece host.heap after.allocator.free page total first exp →
      IsPiece host.heap before.allocator.free page total first exp

/-- The first block of a request has been taken. -/
structure Drawn (host : Host) (npages exp : Nat) (before after : Memory) : Prop where
  le : 2 ^ exp ≤ npages
  forecast : ∀ P, Forecast host P → ∀ demand, P before (demand + npages) → P after (demand + (npages - 2 ^ exp))
  front : ∀ page, IsPiece host.heap before.allocator.free page npages page exp
  behind : ∀ {page first exp'},
    IsPiece host.heap after.allocator.free (page + 2 ^ exp) (npages - 2 ^ exp) first exp' →
      IsPiece host.heap before.allocator.free page npages first exp'

section

variable {host : Host} {memory before middle after : Memory} {npages : Nat}

theorem Ballooned.refl (memory : Memory) (npages : Nat) : Ballooned host npages memory memory :=
  ⟨.refl memory, fun _ _ _ _ => id, fun _ => id⟩

theorem Ballooned.trans (h : Ballooned host npages before middle) (h' : Ballooned host npages middle after) :
    Ballooned host npages before after where
  supplied := h.supplied.trans h'.supplied
  forecast P hforecast demand hle hbefore :=
    h'.forecast P hforecast demand hle (h.forecast P hforecast demand hle hbefore)
  piece htotal hpiece := h.piece htotal (h'.piece htotal hpiece)

theorem ballooned_granted {granted : Bool} {ledger : Ledger} (hpos : 0 < npages)
    (hshort : memory.allocator.free.card < npages ∨ host.heap.find memory.allocator.free 1 = none)
    (hballoon : memory.ledger.balloon host = some (granted, ledger)) :
    Ballooned host npages memory (memory.granted ledger) where
  supplied := Memory.supplied_granted hballoon
  forecast P hforecast demand hle h := by
    refine hforecast.grant hballoon ?_ h
    rcases hshort with hlt | hnone
    · exact hlt.trans_le hle
    · rw [(hforecast.heap h).eq_empty hnone]
      exact hpos.trans_le hle
  piece htotal := .grown (htotal ▸ hshort) Finset.subset_union_left

theorem Memory.Gets.granted {limit demand : Nat} {granted : Bool} {ledger : Ledger} (h : memory.Gets host limit demand)
    (hballoon : memory.ledger.balloon host = some (granted, ledger)) (hlt : memory.allocator.free.card < demand) :
    ∃ fewer < limit, (memory.granted ledger).Gets host fewer demand := by
  have hasks := Ledger.balloon_asks hballoon
  obtain ⟨hheap, final, ⟨_ | calls, hcalls, hdrain⟩, hdemand⟩ := h
  · cases hdrain
    have hle : demand ≤ memory.stock memory.allocator.endOfMem := hdemand
    rw [Memory.stock_end] at hle
    omega
  · rw [Ledger.drain, hballoon, Option.bind_some] at hdrain
    refine ⟨calls, hcalls, hheap, final, ⟨calls, le_rfl, by rwa [Memory.ledger_granted hasks.maxAlloc]⟩, ?_⟩
    rwa [Memory.stock_granted hasks.endOfMem (Ledger.drain_le hdrain)]

theorem balloonUntil_lets (hpos : 0 < npages) (fuel : Nat) :
    Exec.Yields (balloonUntil host npages fuel : Alloc ε Unit) memory
      (fun _ after => npages ≤ after.allocator.free.card ∧ Ballooned host npages memory after)
      (Stop.Lets (memory.Steady host npages ∧ ∃ limit < fuel, memory.Gets host limit npages) fun _ _ => False) := by
  induction fuel generalizing memory with
  | zero => exact fun ⟨_, _, hlt, _⟩ => absurd hlt (Nat.not_lt_zero _)
  | succ fuel ih =>
    rw [balloonUntil]
    apply Exec.Yields.get_bind
    split
    · next hlt =>
      refine Exec.Yields.bind (balloon_lets.imp (fun _ _ => id) fun _ _ hstop =>
        hstop.imp (fun hgood => antitone_steady memory hlt hgood.1) fun _ => id) ?_
      rintro granted _ ⟨ledger, hballoon, rfl⟩
      refine ih.imp ?_ ?_
      · rintro _ after ⟨hcard, hafter⟩
        exact ⟨hcard, (ballooned_granted hpos (.inl hlt) hballoon).trans hafter⟩
      · intro stop _ hstop
        refine hstop.imp ?_ fun _ => id
        rintro ⟨hsteady, limit, hlimit, hgets⟩
        obtain ⟨fewer, hfewer, hafter⟩ := hgets.granted hballoon hlt
        exact ⟨steady_forecast.grant hballoon hlt hsteady, fewer, by omega, hafter⟩
    · next hge => exact ⟨Nat.le_of_not_lt hge, .refl memory npages⟩

/-- The heap has found a block, the first of the sizes from `2 ^ size` down, and it has been cleared. -/
structure Found (heap : FirstFit) (memory : Memory) (size start exp : Nat) (after : Memory) : Prop where
  le : exp ≤ size
  window : start + 2 ^ exp ≤ 2 ^ 27
  find : heap.find memory.allocator.free (2 ^ exp) = some start
  larger : ∀ larger, exp < larger → larger ≤ size → heap.find memory.allocator.free (2 ^ larger) = none
  cleared : after = (memory.take start (2 ^ exp)).cleared start (2 ^ exp)

theorem takeBlock_lets {exp : Nat} {other : Alloc ε (Option (Nat × Nat))} {Q : Option (Nat × Nat) → Memory → Prop}
    (hsome : ∀ start after, Found host.heap memory exp start exp after → Q (some (start, exp)) after)
    (hnone : host.heap.find memory.allocator.free (2 ^ exp) = none →
      Exec.Yields other memory Q (Stop.Lets (∀ n ∈ memory.allocator.free, n < 2 ^ 27) fun _ _ => False)) :
    Exec.Yields (do
      match ← allocPages host (2 ^ exp) with
      | some p =>
        clearPages p (2 ^ exp)
        return some (p, exp)
      | none => other : Alloc ε (Option (Nat × Nat))) memory Q
        (Stop.Lets (∀ n ∈ memory.allocator.free, n < 2 ^ 27) fun _ _ => False) := by
  refine (allocPages_lets (2 ^ exp)).bind ?_
  rintro (_ | start) middle ⟨hfind, rfl⟩
  · exact hnone hfind
  · have hpos := Nat.two_pow_pos exp
    change Exec.Yields (clearPages start (2 ^ exp) >>= fun _ => pure (some (start, exp))) _ _ _
    unfold clearPages
    rw [bind_assoc]
    apply unwrap_bind
    · intro _ hbound
      rw [Option.ite_none_right_eq_some] at hbound
      exact hsome start _ ⟨le_rfl, hbound.1, hfind, fun larger hlt hle => absurd hlt (Nat.not_lt.mpr hle), rfl⟩
    · intro hpanic hwindow
      have hlast := hwindow (start + 2 ^ exp - 1) (host.heap.find_subset hfind (Finset.mem_Ico.mpr ⟨by omega, by omega⟩))
      rw [if_pos (by omega)] at hpanic
      cases hpanic

theorem tryAllocHalf_lets (size : Nat) : Exec.Yields (tryAllocHalf host size : Alloc ε (Option (Nat × Nat))) memory
    (fun result after => match result with
      | none => host.heap.find memory.allocator.free 1 = none ∧ after = memory
      | some (start, exp) => Found host.heap memory size start exp after)
    (Stop.Lets (∀ n ∈ memory.allocator.free, n < 2 ^ 27) fun _ _ => False) := by
  induction size with
  | zero =>
    rw [tryAllocHalf]
    apply @takeBlock_lets _ _ _ 0
    · exact fun start after hfound => hfound
    · exact fun hfind => ⟨hfind, rfl⟩
  | succ size ih =>
    rw [tryAllocHalf]
    apply takeBlock_lets
    · exact fun start after hfound => hfound
    · intro hfind
      refine ih.imp ?_ fun _ _ => id
      rintro (_ | ⟨start, exp⟩) after hafter
      · exact hafter
      · refine { hafter with le := Nat.le_succ_of_le hafter.le, larger := fun larger hlt hle => ?_ }
        rcases Nat.lt_or_eq_of_le hle with hless | rfl
        · exact hafter.larger larger hlt (Nat.lt_succ_iff.mp hless)
        · exact hfind

theorem msb_pages (hpos : npages ≠ 0) : msb (SIZE_4_KIB * npages) - 12 = npages.log2 := by
  have hne : SIZE_4_KIB * npages ≠ 0 := Nat.mul_ne_zero (by decide) hpos
  have hlog := (Nat.log2_eq_iff hpos).mp rfl
  have hmsb : msb (SIZE_4_KIB * npages) = npages.log2 + 12 := by
    rw [msb, Nat.log2_eq_iff hne, Nat.add_right_comm, pow_add, pow_add (m := npages.log2 + 1)]
    unfold SIZE_4_KIB
    omega
  rw [hmsb, Nat.add_sub_cancel]

/-- The start of a request: the host is asked for memory, and the heap for the first block. -/
def takeFirstHalf (host : Host) (fuel size : Nat) : Alloc AllocateError (Option (Nat × Nat)) := do
  balloonUntil host (2 ^ (msb size - 12)) fuel
  allocFirstHalf host (msb size - 12)

theorem Ballooned.drawn {start exp : Nat} (hpos : npages ≠ 0) (h : Ballooned host (2 ^ npages.log2) before middle)
    (hfound : Found host.heap middle npages.log2 start exp after) :
    Drawn host npages exp before after ∧ before.SetsAside start (2 ^ exp) after := by
  obtain ⟨hexp, hwindow, hfind, hlarger, rfl⟩ := hfound
  have hlog : 2 ^ npages.log2 ≤ npages := Nat.log2_self_le hpos
  have hle : 2 ^ exp ≤ npages := (Nat.pow_le_pow_right (by decide) hexp).trans hlog
  have hcut : Cut host.heap middle.allocator.free npages start exp :=
    ⟨hfind, hle, fun larger hlt hfits => hlarger larger hlt ((Nat.le_log2 hpos).mpr hfits)⟩
  have hsub := host.heap.find_subset hfind
  refine ⟨⟨hle, fun P hforecast demand hbefore => ?_, fun page => h.piece rfl (.front hcut), fun hpiece => ?_⟩,
    hwindow, _, ⟨middle, h.supplied, hsub, rfl⟩, rfl⟩
  · have hmiddle := h.forecast P hforecast (demand + npages) (by omega) hbefore
    have htakes : TakesBlock middle start (2 ^ exp) ((middle.take start (2 ^ exp)).cleared start (2 ^ exp)) :=
      ⟨rfl, hsub, rfl⟩
    apply hforecast.take htakes
    rwa [Nat.add_assoc, Nat.sub_add_cancel hle]
  · exact h.piece rfl (.behind hcut hpiece)

theorem takeFirstHalf_lets (fuel : Nat) (hpos : npages ≠ 0) :
    Exec.Yields (takeFirstHalf host fuel (SIZE_4_KIB * npages)) memory
      (fun result after => match result with
        | none => ¬host.heap.FindsPages ∧ memory.Supplied after
        | some (start, exp) => Drawn host npages exp memory after ∧ memory.SetsAside start (2 ^ exp) after)
      (Stop.Lets (memory.Steady host npages ∧ ∃ limit < fuel, memory.Gets host limit npages) fun _ _ => False) := by
  have hlog : 2 ^ npages.log2 ≤ npages := Nat.log2_self_le hpos
  have hone : 0 < 2 ^ npages.log2 := Nat.two_pow_pos _
  unfold takeFirstHalf allocFirstHalf
  rw [msb_pages hpos]
  refine Exec.Yields.bind ((balloonUntil_lets hone fuel).imp (fun _ _ => id) fun _ _ hstop => hstop.imp ?_ fun _ => id) ?_
  · rintro ⟨hsteady, limit, hlimit, hgets⟩
    exact ⟨antitone_steady memory hlog hsteady, limit, hlimit, antitone_has _ memory hlog hgets⟩
  rintro _ middle ⟨hcard, hballooned⟩
  have hsteady : memory.Steady host npages → middle.Steady host npages :=
    hballooned.forecast _ steady_forecast npages hlog
  refine Exec.Yields.bind ((tryAllocHalf_lets npages.log2).imp (fun _ _ => id) fun _ _ hstop =>
    hstop.imp (fun hgood => (hsteady hgood.1).window) fun _ => id) ?_
  rintro (_ | ⟨start, exp⟩) after hafter
  · -- there are free pages, so this is a heap that does not find them
    obtain ⟨hfind, rfl⟩ := hafter
    have hlost : ¬host.heap.FindsPages := by
      intro hheap
      rw [hheap.eq_empty hfind] at hcard
      exact absurd hcard (Nat.not_le.mpr hone)
    refine Exec.Yields.bind (balloon_lets.imp (fun _ _ => id) fun _ _ hstop =>
      hstop.imp (fun hgood => absurd hgood.1.heap hlost) fun _ => id) ?_
    rintro granted _ ⟨ledger, hballoon, rfl⟩
    have hagain := hballooned.trans (ballooned_granted hone (.inr hfind) hballoon)
    refine (tryAllocHalf_lets npages.log2).imp ?_ fun _ _ hstop =>
      hstop.imp (fun hgood => absurd hgood.1.heap hlost) fun _ => id
    rintro (_ | ⟨start, exp⟩) final hfinal
    · exact ⟨hlost, hfinal.2 ▸ hagain.supplied⟩
    · exact hagain.drawn hpos hfinal
  · exact hballooned.drawn hpos hafter

end

end Enarx.Kvm
