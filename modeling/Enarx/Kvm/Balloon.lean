import Enarx.Control
import Enarx.Kvm.Addr
import Enarx.Runs
import Mathlib.Algebra.Order.Ring.Nat
import Mathlib.Data.Nat.Log

/-!
# Memory from the host, byte by byte

`EnarxAllocator::balloon` asks the host for more memory, twice as much as the last time,
then half of that and so on. The heap grows with the memory.
-/
namespace Enarx.Kvm.Balloon

/-- The part of `linked_list_allocator::Heap` that `balloon` uses: where the heap is. -/
structure Heap where
  bottom : Nat
  size : Nat
  deriving DecidableEq, Repr

def Heap.empty : Heap := ⟨0, 0⟩

def Heap.init (start size : Nat) : Heap := ⟨start, size⟩

def Heap.extend (heap : Heap) (size : Nat) : Heap := { heap with size := heap.size + size }

structure EnarxAllocator where
  lastAlloc : Nat
  maxAlloc : Nat
  endOfMem : PhysAddr
  allocator : Heap
  deriving DecidableEq, Repr

structure Machine where
  /-- `get_cbit_mask`, zero without memory encryption. -/
  cBitMask : Nat
  balloonMemory : Nat → Bool
  /-- Whether `pvalidate` of a page succeeds. -/
  pvalidate : Nat → Bool

structure Request where
  size : Nat
  addr : Nat
  granted : Bool
  deriving DecidableEq, Repr

structure State where
  self : EnarxAllocator
  requests : List Request
  deriving DecidableEq, Repr

abbrev Ballooning (α : Type) := Exec Unit State α

def unwrap (value : Option α) : Ballooning α :=
  match value with
  | some value => pure value
  | none => throw ()

def checkedSub (a b : Nat) : Option Nat := if b ≤ a then some (a - b) else none

theorem checkedSub_eq_some {a b c : Nat} : checkedSub a b = some c ↔ b ≤ a ∧ c = a - b := by
  unfold checkedSub
  split
  · next hle => simp [hle, eq_comm]
  · next hnot => simp [hnot]

def checkedPow (exp : Nat) : Option Nat := if 2 ^ exp < 2 ^ 64 then some (2 ^ exp) else none

def msbFrom (val r : Nat) : Nat :=
  if _h : val >>> 1 = 0 then r
  else msbFrom (val >>> 1) (r + 1)
termination_by val
decreasing_by
  rw [Nat.shiftRight_eq_div_pow] at *
  omega

def msb (val : Nat) : Nat := msbFrom val 0

theorem msbFrom_eq (val r : Nat) : msbFrom val r = r + val.log2 := by
  induction val, r using msbFrom.induct with
  | case1 val r hzero =>
    rw [msbFrom, dif_pos hzero]
    rw [Nat.shiftRight_eq_div_pow] at hzero
    rw [Nat.log2_def, if_neg (by omega), Nat.add_zero]
  | case2 val r hne ih =>
    rw [msbFrom, dif_neg hne, ih, Nat.shiftRight_eq_div_pow, pow_one]
    rw [Nat.shiftRight_eq_div_pow] at hne
    rw [Nat.log2_def val, if_pos (by omega)]
    omega

@[simp] theorem msb_eq (val : Nat) : msb val = val.log2 := by rw [msb, msbFrom_eq, Nat.zero_add]

def MIN_EXP : Nat := 24

def targetExp (cBitMask : Nat) : Option Nat :=
  if 0 < cBitMask then (checkedSub (msb cBitMask) 1).map (min 47) else some 47

/-- How large a request may be, if so many slots are to suffice for the target. -/
def maxExp (meminfo targetExp : Nat) : Option Nat := do
  let rest ← checkedSub meminfo (← checkedSub targetExp MIN_EXP)
  checkedSub targetExp (min (msb rest) (← checkedSub targetExp MIN_EXP))

theorem targetExp_le {cBitMask target : Nat} (h : targetExp cBitMask = some target) : target ≤ 47 := by
  unfold targetExp at h
  split at h
  · obtain ⟨exp, -, rfl⟩ := Option.map_eq_some_iff.mp h
    exact Nat.min_le_left _ _
  · cases h
    exact le_rfl

theorem maxExp_eq_some {meminfo target exp : Nat} : maxExp meminfo target = some exp ↔
    MIN_EXP ≤ target ∧ target - MIN_EXP ≤ meminfo ∧
      exp = target - min (meminfo - (target - MIN_EXP)).log2 (target - MIN_EXP) := by
  unfold maxExp
  simp only [Option.bind_eq_bind, Option.bind_eq_some_iff, checkedSub_eq_some, msb_eq]
  constructor
  · rintro ⟨span, ⟨hmin, rfl⟩, rest, ⟨hrest, rfl⟩, _, ⟨-, rfl⟩, -, rfl⟩
    exact ⟨hmin, hrest, rfl⟩
  · rintro ⟨hmin, hrest, rfl⟩
    exact ⟨_, ⟨hmin, rfl⟩, _, ⟨hrest, rfl⟩, _, ⟨hmin, rfl⟩, by omega, rfl⟩

/-- `EnarxAllocator::new`, for a host with `meminfo` slots and an image that ends at `endOfMem`. -/
def EnarxAllocator.new (cBitMask meminfo : Nat) (endOfMem : PhysAddr) : Option EnarxAllocator := do
  let maxExp ← maxExp meminfo (← targetExp cBitMask)
  let nextAlloc ← checkedPow MIN_EXP
  let maxAlloc ← checkedPow maxExp
  return { lastAlloc := nextAlloc / 2, maxAlloc, endOfMem, allocator := .empty }

/-- `ShimVirtAddr::from` for a physical address; the sum is checked. -/
def shimVirtAddr (cBitMask : Nat) (addr : PhysAddr) : Option Nat :=
  let phys := andNot (addr.raw ||| cBitMask) cBitMask
  if phys < 2 ^ 64 - SHIM_VIRT_OFFSET then some (phys + SHIM_VIRT_OFFSET) else none

def newSize (maxAlloc lastSize : Nat) : Nat :=
  min (if 2 * lastSize < 2 ^ 64 then 2 * lastSize else lastSize) maxAlloc

def requestMemory (machine : Machine) (size : Nat) : Ballooning Bool := do
  let state ← get
  let numPages := size / SIZE_4_KIB
  let granted := machine.balloonMemory state.requests.length
  let request : Request := ⟨SIZE_4_KIB * numPages, state.self.endOfMem.raw, granted⟩
  set { state with requests := state.requests ++ [request] }
  return granted

def pvalidateRegion (machine : Machine) (start size : Nat) : Ballooning Unit :=
  unwrap
    (if start + size < 2 ^ 64 ∧
        (List.range (size / SIZE_4_KIB)).all fun i => machine.pvalidate (start + SIZE_4_KIB * i)
      then some () else none)

def grow (machine : Machine) (size : Nat) : Ballooning Unit := do
  let state ← get
  let freeStart ← unwrap (shimVirtAddr machine.cBitMask state.self.endOfMem)
  let endOfMem ← unwrap (state.self.endOfMem.add size)
  if 0 < machine.cBitMask then
    pvalidateRegion machine freeStart size
  let heap := state.self.allocator
  let allocator := if 0 < heap.size then heap.extend size else .init freeStart size
  set { state with self := { state.self with lastAlloc := size, endOfMem, allocator } }

def balloonFrom (machine : Machine) (lastSize : Nat) : Ballooning Bool := do
  let size := newSize (← get).self.maxAlloc lastSize
  if ← requestMemory machine size then
    grow machine size
    return true
  else if _h : lastSize / 2 < SIZE_4_KIB then
    return false
  else
    balloonFrom machine (lastSize / 2)
termination_by lastSize
decreasing_by
  unfold SIZE_4_KIB at _h
  omega

def balloon (machine : Machine) : Ballooning Bool := do
  balloonFrom machine (← get).self.lastAlloc

section

variable {machine : Machine} {state : State}

theorem unwrap_yields {value : Option α} {E : Unit → State → Prop} (hE : value = none → E () state) :
    Exec.Yields (unwrap value) state (fun result after => value = some result ∧ state = after) E := by
  cases value with
  | none => exact hE rfl
  | some value => exact ⟨rfl, rfl⟩

/-- A physical address as it is seen in the window, without the C-bit. -/
def Machine.plain (machine : Machine) (addr : Nat) : Nat := andNot (addr ||| machine.cBitMask) machine.cBitMask

/-- Memory that the host grants behind an address can be used: it begins in the window, its end is a physical
address, and if it is encrypted all of it is in the window and can be validated. -/
structure Machine.Takes (machine : Machine) (addr size : Nat) : Prop where
  window : machine.plain addr < 2 ^ 39
  phys : addr + size < 2 ^ 52
  validated : 0 < machine.cBitMask → machine.plain addr + size < 2 ^ 39 ∧
    ∀ i < size / SIZE_4_KIB, machine.pvalidate (machine.plain addr + SHIM_VIRT_OFFSET + SIZE_4_KIB * i) = true

structure Grew (cBitMask : Nat) (before : EnarxAllocator) (size : Nat) (after : EnarxAllocator) : Prop where
  lastAlloc : after.lastAlloc = size
  maxAlloc : after.maxAlloc = before.maxAlloc
  endOfMem : after.endOfMem.raw = before.endOfMem.raw + size
  heap : after.allocator.size = before.allocator.size + size
  bottom : if 0 < before.allocator.size then after.allocator.bottom = before.allocator.bottom
    else shimVirtAddr cBitMask before.endOfMem = some after.allocator.bottom

variable {addr first : PhysAddr} {maxExp exp cBitMask rounds : Nat} {c : CBit} {self : EnarxAllocator}

theorem shimVirtAddr_eq_some {virt : Nat} : shimVirtAddr machine.cBitMask addr = some virt ↔
    machine.plain addr.raw < 2 ^ 39 ∧ machine.plain addr.raw + SHIM_VIRT_OFFSET = virt := by
  have hwindow : 2 ^ 64 - SHIM_VIRT_OFFSET = 2 ^ 39 := by decide
  rw [shimVirtAddr, hwindow, Option.ite_none_right_eq_some, Option.some.injEq]
  rfl

theorem grow_yields {size : Nat} (hsize : size < 2 ^ 63) :
    Exec.Yields (grow machine size) state (fun _ after => machine.Takes state.self.endOfMem.raw size ∧
      after.requests = state.requests ∧ Grew machine.cBitMask state.self size after.self)
      fun _ _ => ¬machine.Takes state.self.endOfMem.raw size := by
  unfold grow
  apply Exec.Yields.get_bind
  refine Exec.Yields.bind (unwrap_yields fun hnone htakes => ?_) ?_
  · rw [shimVirtAddr_eq_some.mpr ⟨htakes.window, rfl⟩] at hnone
    cases hnone
  rintro freeStart _ ⟨hstart, rfl⟩
  obtain ⟨hwindow, hplain⟩ := shimVirtAddr_eq_some.mp hstart
  refine Exec.Yields.bind (unwrap_yields fun hnone htakes => ?_) ?_
  · have hsum : (PhysAddr.mk _ htakes.phys).raw = state.self.endOfMem.raw + size := rfl
    rw [PhysAddr.add_eq hsum.symm] at hnone
    cases hnone
  rintro endOfMem _ ⟨hend, rfl⟩
  have hraw := PhysAddr.raw_of_add hend hsize
  have hphys : state.self.endOfMem.raw + size < 2 ^ 52 := hraw ▸ endOfMem.valid
  have hgrew : Grew machine.cBitMask state.self size { state.self with
      lastAlloc := size, endOfMem
      allocator := if 0 < state.self.allocator.size then state.self.allocator.extend size
        else .init freeStart size } := by
    refine ⟨rfl, rfl, hraw, ?_, ?_⟩
    · split
      · rfl
      · next hempty =>
        have hzero : state.self.allocator.size = 0 := Nat.eq_zero_of_not_pos hempty
        rw [hzero, Nat.zero_add]
        rfl
    · split
      · next => simp [Heap.extend]
      · next hempty => simpa [hempty, Heap.init] using hstart
  have hregion : (freeStart + size < 2 ^ 64 ∧
      (List.range (size / SIZE_4_KIB)).all (fun i => machine.pvalidate (freeStart + SIZE_4_KIB * i)) = true) ↔
      machine.plain state.self.endOfMem.raw + size < 2 ^ 39 ∧ ∀ i < size / SIZE_4_KIB, machine.pvalidate
        (machine.plain state.self.endOfMem.raw + SHIM_VIRT_OFFSET + SIZE_4_KIB * i) = true := by
    rw [hplain, List.all_eq_true]
    simp only [List.mem_range]
    refine and_congr_left fun _ => ?_
    unfold SHIM_VIRT_OFFSET at hplain
    omega
  split
  · next hmask =>
    refine Exec.Yields.bind (unwrap_yields fun hnone htakes => ?_) ?_
    · rw [if_pos (hregion.mpr (htakes.validated hmask))] at hnone
      cases hnone
    rintro _ _ ⟨hvalid, rfl⟩
    rw [Option.ite_none_right_eq_some] at hvalid
    exact ⟨⟨hwindow, hphys, fun _ => hregion.mp hvalid.1⟩, rfl, hgrew⟩
  · next hmask => exact ⟨⟨hwindow, hphys, fun hpos => absurd hpos hmask⟩, rfl, hgrew⟩

theorem newSize_two_pow (hexp : exp < 63) : newSize (2 ^ maxExp) (2 ^ exp) = 2 ^ min (exp + 1) maxExp := by
  have hdouble : 2 * 2 ^ exp = 2 ^ (exp + 1) := by rw [pow_succ, Nat.mul_comm]
  have hlt : 2 ^ (exp + 1) < 2 ^ 64 := Nat.pow_lt_pow_right (by decide) (by omega)
  rw [newSize, hdouble, if_pos hlt]
  rcases Nat.le_total (exp + 1) maxExp with hle | hle
  · rw [Nat.min_eq_left hle, Nat.min_eq_left (Nat.pow_le_pow_right (by decide) hle)]
  · rw [Nat.min_eq_right hle, Nat.min_eq_right (Nat.pow_le_pow_right (by decide) hle)]

def State.asked (state : State) (request : Request) : State :=
  { state with requests := state.requests ++ [request] }

theorem requestMemory_apply (hexp : 12 ≤ exp) (state : State) :
    requestMemory machine (2 ^ exp) state = (.ok (machine.balloonMemory state.requests.length),
      state.asked ⟨2 ^ exp, state.self.endOfMem.raw, machine.balloonMemory state.requests.length⟩) := by
  have hpages : SIZE_4_KIB * (2 ^ exp / SIZE_4_KIB) = 2 ^ exp :=
    Nat.mul_div_cancel' (Nat.pow_dvd_pow 2 hexp)
  have hrun : requestMemory machine (2 ^ exp) state = (.ok (machine.balloonMemory state.requests.length),
      state.asked ⟨SIZE_4_KIB * (2 ^ exp / SIZE_4_KIB), state.self.endOfMem.raw,
        machine.balloonMemory state.requests.length⟩) := rfl
  rwa [hpages] at hrun

def Answered (cBitMask : Nat) (before : State) (rounds : Nat) (result : Bool) (after : State) : Prop :=
  ∃ refused : List Request, (∀ request ∈ refused, request.granted = false) ∧ refused.length ≤ rounds ∧
    if result then ∃ exp, 13 ≤ exp ∧ 2 ^ exp ≤ before.self.maxAlloc ∧
      after.requests = before.requests ++ refused ++ [⟨2 ^ exp, before.self.endOfMem.raw, true⟩] ∧
      Grew cBitMask before.self (2 ^ exp) after.self
    else after = { before with requests := before.requests ++ refused }

theorem Answered.cons {result : Bool} {after : State} {request : Request}
    (hrefused : request.granted = false) (h : Answered cBitMask (state.asked request) rounds result after) :
    Answered cBitMask state (rounds + 1) result after := by
  obtain ⟨refused, hall, hlength, hresult⟩ := h
  refine ⟨request :: refused, ?_, Nat.succ_le_succ hlength, ?_⟩
  · intro other hother
    rcases List.mem_cons.mp hother with rfl | hother
    · exact hrefused
    · exact hall other hother
  · simpa [State.asked] using hresult

theorem balloonFrom_round (hmax : 13 ≤ maxExp) (hexp : 12 ≤ exp) (hlt : exp < 62)
    (hstate : state.self.maxAlloc = 2 ^ maxExp)
    (hnext : ∀ next : State, next.self = state.self → ¬2 ^ exp / 2 < SIZE_4_KIB →
      Exec.Yields (balloonFrom machine (2 ^ exp / 2)) next (Answered machine.cBitMask next rounds) fun _ _ => True) :
    Exec.Yields (balloonFrom machine (2 ^ exp)) state (Answered machine.cBitMask state (rounds + 1))
      fun _ _ => True := by
  rw [balloonFrom]
  apply Exec.Yields.get_bind
  rw [hstate, newSize_two_pow (by omega)]
  have hnew : 13 ≤ min (exp + 1) maxExp := by omega
  generalize hsize : min (exp + 1) maxExp = newExp at *
  have hnewMax : newExp ≤ maxExp := by omega
  refine Exec.Yields.bind_of_ok (requestMemory_apply (by omega) state) ?_
  split
  · next hgranted =>
    have hsmall : 2 ^ newExp < 2 ^ 63 := Nat.pow_lt_pow_right (by decide) (by omega)
    refine ((grow_yields hsmall).imp (fun _ _ => id) fun _ _ _ => trivial).bind ?_
    rintro _ after ⟨-, hrequests, hgrew⟩
    refine ⟨[], by simp, Nat.zero_le _, ?_⟩
    rw [if_pos rfl]
    refine ⟨newExp, hnew, hstate ▸ Nat.pow_le_pow_right (by decide) hnewMax, ?_, hgrew⟩
    rw [hrequests, hgranted]
    simp [State.asked]
  · next hrefused =>
    rw [Bool.not_eq_true] at hrefused
    generalize hrequest : Request.mk (2 ^ newExp) state.self.endOfMem.raw _ = request
    have hnot : request.granted = false := hrequest ▸ hrefused
    suffices hlast : Exec.Yields _ (state.asked request)
        (Answered machine.cBitMask (state.asked request) rounds) fun _ _ => True from
      hlast.imp (fun _ _ => Answered.cons hnot) fun _ _ => id
    split
    · exact ⟨[], by simp, Nat.zero_le _, by simp⟩
    · next hlarge => exact hnext _ rfl hlarge

theorem balloonFrom_yields (hmax : 13 ≤ maxExp) (n : Nat) (hn : n < 50)
    (hstate : state.self.maxAlloc = 2 ^ maxExp) :
    Exec.Yields (balloonFrom machine (2 ^ (n + 12))) state (Answered machine.cBitMask state (n + 1))
      fun _ _ => True := by
  induction n generalizing state with
  | zero => exact balloonFrom_round hmax (by omega) (by omega) hstate fun _ _ hlarge => absurd hlarge (by decide)
  | succ n ih =>
    apply balloonFrom_round hmax (by omega) (by omega) hstate
    intro next hnext _
    rw [Nat.add_right_comm, pow_succ, Nat.mul_div_cancel _ (by decide)]
    exact ih (by omega) (hnext ▸ hstate)

/-- The heap is the image in the window of the memory from `first` on, and the last request was of a size that
`balloon` uses. -/
structure Contiguous (first : PhysAddr) (this : EnarxAllocator) : Prop where
  maxAlloc : ∃ exp, 24 ≤ exp ∧ exp ≤ 47 ∧ this.maxAlloc = 2 ^ exp
  lastAlloc : ∃ exp, 13 ≤ exp ∧ this.lastAlloc = 2 ^ exp
  le_max : this.lastAlloc ≤ this.maxAlloc
  endOfMem : this.endOfMem.raw = first.raw + this.allocator.size
  bottom : 0 < this.allocator.size → this.allocator.bottom = first.raw + SHIM_VIRT_OFFSET

theorem shimVirtAddr_low (h : addr.raw < 2 ^ 39) :
    shimVirtAddr c.mask addr = some (addr.raw + SHIM_VIRT_OFFSET) := by
  have hwindow : 2 ^ 64 - SHIM_VIRT_OFFSET = 2 ^ 39 := by decide
  rw [shimVirtAddr, c.or_mask h, c.andNot_add_mask h, hwindow, if_pos h]

theorem Contiguous.grow {after : EnarxAllocator}
    (h : Contiguous first self) (hfirst : first.raw < 2 ^ 39) (hexp : 13 ≤ exp) (hle : 2 ^ exp ≤ self.maxAlloc)
    (hgrew : Grew c.mask self (2 ^ exp) after) : Contiguous first after where
  maxAlloc := hgrew.maxAlloc ▸ h.maxAlloc
  lastAlloc := ⟨exp, hexp, hgrew.lastAlloc⟩
  le_max := by
    rw [hgrew.lastAlloc, hgrew.maxAlloc]
    exact hle
  endOfMem := by rw [hgrew.endOfMem, hgrew.heap, h.endOfMem, Nat.add_assoc]
  bottom := by
    intro _
    have hbottom := hgrew.bottom
    split at hbottom
    · next hpos => rw [hbottom, h.bottom hpos]
    · next hempty =>
      -- the heap starts where the memory has ended so far
      have hend : self.endOfMem = first := by
        apply PhysAddr.ext
        rw [h.endOfMem, Nat.eq_zero_of_not_pos hempty, Nat.add_zero]
      rw [hend, shimVirtAddr_low hfirst] at hbottom
      exact (Option.some.inj hbottom).symm

/-- What a call may do: it grows the memory and the heap by the one request that was granted, or leaves all as it
is. It makes a bounded number of requests. -/
def Lawful (before : State) (result : Bool) (after : State) : Prop :=
  ∃ refused : List Request, (∀ request ∈ refused, request.granted = false) ∧ refused.length ≤ 36 ∧
    if result then ∃ size,
      after.requests = before.requests ++ refused ++ [⟨size, before.self.endOfMem.raw, true⟩] ∧
      after.self.endOfMem.raw = before.self.endOfMem.raw + size ∧
      after.self.allocator.size = before.self.allocator.size + size
    else after = { before with requests := before.requests ++ refused }

theorem balloon_yields (hmask : machine.cBitMask = c.mask)
    (hfirst : first.raw < 2 ^ 39) (h : Contiguous first state.self) : Exec.Yields (balloon machine) state
      (fun result after => Contiguous first after.self ∧ Lawful state result after) fun _ _ => True := by
  obtain ⟨maxExp, hmin, hmax, hmaxAlloc⟩ := h.maxAlloc
  obtain ⟨exp, hexp, hlastAlloc⟩ := h.lastAlloc
  have hle : exp ≤ maxExp := by
    have hle := h.le_max
    rwa [hmaxAlloc, hlastAlloc, Nat.pow_le_pow_iff_right (by decide)] at hle
  obtain ⟨n, rfl⟩ := Nat.exists_eq_add_of_le' (Nat.le_trans (by decide : 12 ≤ 13) hexp)
  unfold balloon
  apply Exec.Yields.get_bind
  rw [hlastAlloc]
  refine (balloonFrom_yields (by omega) n (by omega) hmaxAlloc).imp ?_ fun _ _ => id
  rintro result after ⟨refused, hrefused, hlength, hresult⟩
  cases result with
  | true =>
    obtain ⟨newExp, hnew, hnewMax, hrequests, hgrew⟩ := hresult
    rw [hmask] at hgrew
    exact ⟨h.grow hfirst hnew hnewMax hgrew, refused, hrefused, by omega, 2 ^ newExp, hrequests,
      hgrew.endOfMem, hgrew.heap⟩
  | false =>
    rw [if_neg Bool.false_ne_true] at hresult
    subst hresult
    exact ⟨h, refused, hrefused, by omega, rfl⟩

def called (machine : Machine) (state : State) (_ : Unit) : Option State :=
  match balloon machine state with
  | (.ok _, after) => some after
  | (.error _, _) => none

theorem EnarxAllocator.new_contiguous {meminfo : Nat} {endOfMem : PhysAddr}
    (h : EnarxAllocator.new cBitMask meminfo endOfMem = some self) : Contiguous endOfMem self := by
  unfold EnarxAllocator.new at h
  simp only [Option.bind_eq_bind, Option.bind_eq_some_iff, Option.pure_def, Option.some.injEq] at h
  obtain ⟨target, htarget, maxExp, hmaxExp, nextAlloc, hnext, maxAlloc, hmaxAlloc, rfl⟩ := h
  have hle := targetExp_le htarget
  obtain ⟨hmin, -, hexp⟩ := maxExp_eq_some.mp hmaxExp
  have hbounds : 24 ≤ maxExp ∧ maxExp ≤ 47 := by
    unfold MIN_EXP at *
    omega
  have hmaxPow : maxAlloc = 2 ^ maxExp := by
    unfold checkedPow at hmaxAlloc
    split at hmaxAlloc
    · exact (Option.some.inj hmaxAlloc).symm
    · cases hmaxAlloc
  cases hnext
  have hstart : 2 ^ 23 ≤ 2 ^ maxExp := Nat.pow_le_pow_right (by decide) (by omega)
  refine ⟨⟨maxExp, hbounds.1, hbounds.2, hmaxPow⟩, ⟨23, by decide, rfl⟩, ?_, rfl, fun h => absurd h (Nat.lt_irrefl 0)⟩
  rw [hmaxPow]
  exact hstart

/-- Whatever the host answers, the heap stays contiguous. -/
theorem balloon_contiguous {c : CBit} (hmask : machine.cBitMask = c.mask) {meminfo : Nat} {endOfMem : PhysAddr}
    (hend : endOfMem.raw < 2 ^ 39) {self : EnarxAllocator}
    (hnew : EnarxAllocator.new machine.cBitMask meminfo endOfMem = some self) (calls : List Unit) :
    Runs.Always (called machine)
      (fun state => Contiguous endOfMem state.self ∧
        ∀ result after, balloon machine state = (.ok result, after) → Lawful state result after)
      ⟨self, []⟩ calls := by
  have hkept : Runs.Always (called machine) (fun state => Contiguous endOfMem state.self) ⟨self, []⟩ calls := by
    refine Runs.always_of_invariant (P := fun state : State => Contiguous endOfMem state.self) ?_
      (EnarxAllocator.new_contiguous hnew) calls
    intro state _ next h hcalled
    unfold called at hcalled
    split at hcalled
    · next hrun =>
      cases hcalled
      exact ((balloon_yields hmask hend h).ok hrun).1
    · cases hcalled
  apply hkept.imp
  intro state h
  exact ⟨h, fun result after hrun => ((balloon_yields hmask hend h).ok hrun).2⟩

end

def everyOther : Machine where
  cBitMask := 2 ^ 51
  balloonMemory n := n % 2 == 0
  pvalidate _ := true

def highCBit : CBit := .bit51

theorem new_everyOther : EnarxAllocator.new everyOther.cBitMask 509 ⟨2 ^ 24, by decide⟩ =
    some { lastAlloc := 2 ^ 23, maxAlloc := 2 ^ 39, endOfMem := ⟨2 ^ 24, by decide⟩, allocator := .empty } := by
  have htarget : targetExp everyOther.cBitMask = some 47 := by
    rw [targetExp, if_pos (by decide), msb_eq]
    decide
  have hmax : maxExp 509 47 = some 39 := maxExp_eq_some.mpr ⟨by decide, by decide, by decide⟩
  simp only [EnarxAllocator.new, htarget, hmax, Option.bind_eq_bind, Option.bind_some]
  rfl

theorem balloon_contiguous_everyOther :
    Runs.Always (called everyOther)
      (fun state => Contiguous ⟨2 ^ 24, by decide⟩ state.self ∧
        ∀ result after, balloon everyOther state = (.ok result, after) → Lawful state result after)
      ⟨{ lastAlloc := 2 ^ 23, maxAlloc := 2 ^ 39, endOfMem := ⟨2 ^ 24, by decide⟩, allocator := .empty }, []⟩
      [(), (), ()] :=
  balloon_contiguous (c := highCBit) rfl (by decide) new_everyOther _

end Enarx.Kvm.Balloon
