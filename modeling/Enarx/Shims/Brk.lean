import Enarx.Runs
import Enarx.Kvm.Lines
import Enarx.Sgx.Steps

/-!
# `brk` in both shims

What Linux promises about `brk`, as a law for sequences of calls to a shim, and
which calls of the two shims keep it.
-/
namespace Enarx.Shims

open Sallyport (CInt)

inductive MapCall where
  | mmap (addr : Option Nat) (length : Nat) (prot flags fd : CInt) (offset : BitVec 64)
  | munmap (addr length : Nat)
  deriving DecidableEq, Repr

inductive Call where
  | brk (addr : Option Nat)
  | map (call : MapCall)
  deriving DecidableEq, Repr

/-- A shim as the workload sees it. A call gives an address or an error, or it does not return. -/
structure BrkShim (σ : Type) where
  start : σ → Nat
  brk : Option Nat → σ → Option (Option Nat × σ)
  map : MapCall → σ → Option σ
  /-- The shim remembers the break that it returns for the address. -/
  remembers : σ → Nat → Bool
  /-- The address is below the area, but is taken for the start of it. -/
  below : σ → Nat → Bool

/-- A shim together with its break, which is the address that the last successful call returned. -/
structure Tracked (σ : Type) where
  state : σ
  current : Nat
  /-- The shim remembers the break: the last successful request was one for which it does, and none has since
  been taken for the start of the area. -/
  remembered : Bool
  right : Bool

namespace BrkShim

variable {σ : Type} (shim : BrkShim σ)

/-- The call is successful if the address is at least the one asked for, and that one is in the area. -/
def succeeds (tracked : Tracked σ) (addr : Nat) (reply : Option Nat) : Bool :=
  reply.any fun result => shim.start tracked.state ≤ addr ∧ addr ≤ result

def next (tracked : Tracked σ) (addr : Nat) (reply : Option Nat) : Nat :=
  if shim.succeeds tracked addr reply then reply.getD 0 else tracked.current

def remembered (tracked : Tracked σ) (addr : Nat) (reply : Option Nat) : Bool :=
  if shim.succeeds tracked addr reply then shim.remembers tracked.state addr
  else if shim.below tracked.state addr then tracked.current = shim.start tracked.state
  else tracked.remembered

variable {shim} {tracked : Tracked σ} {reply : Option Nat}

theorem remembered_of_succeeds {addr : Nat} (h : shim.succeeds tracked addr reply = true) :
    shim.next tracked addr reply = reply.getD 0 ∧
      shim.remembered tracked addr reply = shim.remembers tracked.state addr :=
  ⟨if_pos h, if_pos h⟩

theorem remembered_of_fails {addr : Nat} (h : ¬shim.succeeds tracked addr reply = true) :
    shim.next tracked addr reply = tracked.current ∧ shim.remembered tracked addr reply =
      if shim.below tracked.state addr then decide (tracked.current = shim.start tracked.state)
      else tracked.remembered :=
  ⟨if_neg h, if_neg h⟩

variable (shim)

def step (tracked : Tracked σ) : Call → Option (Tracked σ)
  | .brk none => (shim.brk none tracked.state).map fun (reply, state) =>
    ⟨state, tracked.current, tracked.remembered, reply = some tracked.current⟩
  | .brk (some addr) => (shim.brk (some addr) tracked.state).map fun (reply, state) =>
    ⟨state, shim.next tracked addr reply, shim.remembered tracked addr reply,
      addr = tracked.current → reply = some tracked.current⟩
  | .map call => (shim.map call tracked.state).map fun state => ⟨state, tracked.current, tracked.remembered, true⟩

/-- Every call of a sequence is answered as Linux does: a query gets the break, and so does who asks
for it again, whatever has been refused before. -/
def Lawful (state : σ) (calls : List Call) : Prop :=
  Runs.Always shim.step (fun tracked => tracked.right = true) ⟨state, shim.start state, true, true⟩ calls

end BrkShim

section

open Kvm

def kvmReply : Except (Kvm.Stop ε) α × Memory → Option (Option α × Memory)
  | (.ok value, memory) => some (some value, memory)
  | (.error (.err _), memory) => some (none, memory)
  | (.error _, _) => none

def kvmMap (host : Kvm.Host) (fuel : Nat) (memory : Memory) : MapCall → Option Memory
  | .mmap addr length prot flags fd offset =>
    (kvmReply (Kvm.mmap host fuel addr length prot flags fd offset memory)).map Prod.snd
  | .munmap addr length => (kvmReply (Kvm.munmap host addr length memory)).map Prod.snd

def kvmShim (host : Kvm.Host) (fuel : Nat) : BrkShim Memory where
  start memory := memory.brkStart.raw
  brk addr memory := kvmReply (Kvm.brk host fuel addr memory)
  map call memory := kvmMap host fuel memory call
  -- a multiple of the page size, but not the last page of the area, which stays
  remembers memory addr := SIZE_4_KIB ∣ addr ∧ (VirtAddr.new addr).map VirtAddr.raw = some addr ∧
    addr + SIZE_4_KIB ≠ memory.brkEnd.raw
  below _ _ := false

/-- The calls that the KVM shim answers rightly: a query when it remembers the break, a request for the break
when it does not. -/
def kvmRight (tracked : Tracked Memory) : Call → Prop
  | .brk none => tracked.remembered = true
  | .brk (some addr) => ¬(addr = tracked.current ∧ tracked.remembered = true)
  | .map _ => True

structure KvmInv (tracked : Tracked Memory) : Prop where
  page_le : SIZE_4_KIB ≤ tracked.state.brkStart.raw
  start_le : tracked.state.brkStart.raw ≤ tracked.current
  le_end : tracked.current ≤ tracked.state.brkEnd.raw
  aligned : SIZE_4_KIB ∣ tracked.state.brkEnd.raw
  remembered : tracked.remembered = true ↔ tracked.state.brkEnd.raw = tracked.current

variable {memory after : Memory} {before : Tracked Memory} {host : Kvm.Host} {fuel addr : Nat}
  {run : Alloc ε α}

theorem kvmReply_none
    (h : kvmReply (run memory) = some (none, after)) : ∃ error, run memory = (.error (.err error), after) := by
  unfold kvmReply at h
  split at h <;> cases h
  exact ⟨_, by assumption⟩

theorem kvmReply_some {value : α}
    (h : kvmReply (run memory) = some (some value, after)) : run memory = (.ok value, after) := by
  unfold kvmReply at h
  split at h <;> cases h
  assumption

theorem kvmReply_final {reply : Option α}
    (h : kvmReply (run memory) = some (reply, after)) : (run memory).2 = after := by
  cases reply with
  | none =>
    obtain ⟨error, hrun⟩ := kvmReply_none h
    rw [hrun]
  | some value => rw [kvmReply_some h]

theorem KvmInv.of_line {right : Bool} (h : KvmInv before)
    (hline : (memory.brkStart, memory.brkEnd) = (before.state.brkStart, before.state.brkEnd)) :
    KvmInv ⟨memory, before.current, before.remembered, right⟩ := by
  obtain ⟨hstart, hend⟩ := Prod.mk.inj hline
  exact ⟨hstart ▸ h.page_le, hstart ▸ h.start_le, hend ▸ h.le_end, hend ▸ h.aligned, hend ▸ h.remembered⟩

theorem kvm_query {after : Tracked Memory}
    (hinv : KvmInv before) (h : (kvmShim host fuel).step before (.brk none) = some after) :
    KvmInv after ∧ (after.right = true ↔ kvmRight before (.brk none)) := by
  cases h
  refine ⟨{ hinv with }, ?_⟩
  simp [kvmRight, hinv.remembered]

/-- After a request that has been granted, the area ends behind the page of the break, and ends with it exactly if
the shim remembers it. -/
theorem brkEnd_of_done (host : Kvm.Host) (fuel : Nat) {U : VirtAddr → Nat → Memory → Prop} {G : Nat → Memory → Prop}
    {before : Memory} (h : BrkDone U G before addr after) (haligned : SIZE_4_KIB ∣ before.brkEnd.raw) :
    addr ≤ after.brkEnd.raw ∧ SIZE_4_KIB ∣ after.brkEnd.raw ∧
      ((kvmShim host fuel).remembers before addr = true ↔ after.brkEnd.raw = addr) := by
  have hremembers : (kvmShim host fuel).remembers before addr = true ↔ SIZE_4_KIB ∣ addr ∧
      (VirtAddr.new addr).map VirtAddr.raw = some addr ∧ addr + SIZE_4_KIB ≠ before.brkEnd.raw := decide_eq_true_iff
  rw [hremembers]
  cases h with
  | inside hend hlast =>
    refine ⟨hend.le, haligned, ?_⟩
    unfold SIZE_4_KIB at *
    omega
  | shrunk hbelow hdvd hle hlt =>
    refine ⟨hle, hdvd, fun hexact => ?_, fun hraw : _ = _ => ?_⟩
    · have := hexact.1
      dsimp only
      unfold SIZE_4_KIB at *
      omega
    · subst hraw
      exact ⟨hdvd, by rw [VirtAddr.new_raw, Option.map_some], by omega⟩
  | @grown aligned newEnd _ hend hdvd hle hlt hnew =>
    have hraw := VirtAddr.raw_of_new hnew
    refine ⟨?_, ?_, fun hexact => ?_, fun heq : _ = _ => ?_⟩
    · dsimp only
      omega
    · dsimp only
      unfold SIZE_4_KIB at *
      omega
    · have hsame : aligned = addr := by
        have := hexact.1
        unfold SIZE_4_KIB at *
        omega
      rw [← hsame, hnew] at hexact
      exact (Option.some.inj hexact.2.1).trans hsame
    · subst heq
      have hsame : aligned = newEnd.raw := by
        have hnewLe : newEnd.raw ≤ aligned := hle
        omega
      refine ⟨hsame ▸ hdvd, by rw [VirtAddr.new_raw, Option.map_some], ?_⟩
      change newEnd.raw + SIZE_4_KIB ≠ before.brkEnd.raw
      unfold SIZE_4_KIB
      omega

theorem BrkDone.brkStart_eq {before : Memory}
    (h : BrkDone (fun _ _ after => after.lines = before.lines) (fun _ after => after.lines = before.lines)
      before addr after) : after.brkStart = before.brkStart := by
  cases h with
  | inside => rfl
  | shrunk _ _ _ _ _ _ hlines => exact congrArg Prod.fst hlines
  | grown _ _ _ _ _ hlines => exact congrArg Prod.fst hlines

theorem kvm_brk {after : Tracked Memory}
    (hinv : KvmInv before) (h : (kvmShim host (fuel + 1)).step before (.brk (some addr)) = some after) :
    KvmInv after ∧ (after.right = true ↔ kvmRight before (.brk (some addr))) := by
  obtain ⟨⟨reply, memory⟩, hreply, rfl⟩ := Option.map_eq_some_iff.mp h
  have hyields := brk_yields host (fuel + 1) addr before.state
  cases reply with
  | some result =>
    have hrun := kvmReply_some hreply
    obtain ⟨rfl, hstart, hdone⟩ := hyields.ok hrun
    obtain ⟨hle, haligned, hremembers⟩ := brkEnd_of_done host (fuel + 1) hdone hinv.aligned
    have hsame := BrkDone.brkStart_eq hdone
    have hsucceeds : (kvmShim host (fuel + 1)).succeeds before result (some result) = true :=
      decide_eq_true ⟨hstart, le_rfl⟩
    obtain ⟨hnext, hremembered⟩ := BrkShim.remembered_of_succeeds hsucceeds
    dsimp only
    rw [hnext, hremembered]
    refine ⟨⟨hsame ▸ hinv.page_le, hsame ▸ hstart, hle, haligned, hremembers⟩, ?_⟩
    simp only [decide_eq_true_eq, Option.some.injEq, imp_self, kvmRight, true_iff, hinv.remembered]
    rintro ⟨rfl, hend⟩
    have hpage := hinv.page_le.trans (hinv.start_le.trans hinv.le_end)
    rw [← hend, brk_brkEnd host fuel (hinv.start_le.trans hinv.le_end) hpage hinv.aligned] at hrun
    cases hrun
  | none =>
    obtain ⟨error, hrun⟩ := kvmReply_none hreply
    obtain ⟨hlines, haddr⟩ := hyields.error hrun
    have hline : (memory.brkStart, memory.brkEnd) = (before.state.brkStart, before.state.brkEnd) :=
      congrArg (fun lines => (lines.1, lines.2.1)) hlines
    refine ⟨hinv.of_line hline, ?_⟩
    have hend : addr = before.current → before.state.brkEnd.raw = before.current := by
      have := hinv.start_le
      have := hinv.le_end
      omega
    simp only [decide_eq_true_eq, reduceCtorEq, imp_false, kvmRight, not_and, hinv.remembered]
    tauto

theorem kvm_map {call : MapCall} {after : Tracked Memory}
    (hinv : KvmInv before) (h : (kvmShim host fuel).step before (.map call) = some after) :
    KvmInv after ∧ (after.right = true ↔ kvmRight before (.map call)) := by
  obtain ⟨memory, hmap, rfl⟩ := Option.map_eq_some_iff.mp h
  have hline : (memory.brkStart, memory.brkEnd) = (before.state.brkStart, before.state.brkEnd) := by
    cases call with
    | mmap addr length prot flags fd offset =>
      obtain ⟨⟨reply, final⟩, hreply, rfl⟩ := Option.map_eq_some_iff.mp hmap
      rw [← kvmReply_final hreply]
      exact mmap_keeps_brkLine host fuel addr length prot flags fd offset before.state
    | munmap addr length =>
      obtain ⟨⟨reply, final⟩, hreply, rfl⟩ := Option.map_eq_some_iff.mp hmap
      rw [← kvmReply_final hreply]
      exact congrArg (fun lines => (lines.1, lines.2.1)) (munmap_keepsLines host addr length before.state)
  exact ⟨hinv.of_line hline, by simp [kvmRight]⟩

theorem kvm_step {call : Call} {after : Tracked Memory}
    (hinv : KvmInv before) (h : (kvmShim host (fuel + 1)).step before call = some after) :
    KvmInv after ∧ (after.right = true ↔ kvmRight before call) := by
  match call with
  | .brk none => exact kvm_query hinv h
  | .brk (some addr) => exact kvm_brk hinv h
  | .map call => exact kvm_map hinv h

theorem kvm_lawful_iff (host : Kvm.Host) (fuel : Nat)
    (hpage : SIZE_4_KIB ≤ memory.brkStart.raw) (haligned : SIZE_4_KIB ∣ memory.brkStart.raw)
    (hempty : memory.brkEnd = memory.brkStart) (calls : List Call) :
    (kvmShim host (fuel + 1)).Lawful memory calls ↔
      Runs.Each (kvmShim host (fuel + 1)).step kvmRight ⟨memory, memory.brkStart.raw, true, true⟩ calls := by
  have hinv : KvmInv ⟨memory, memory.brkStart.raw, true, true⟩ :=
    ⟨hpage, le_rfl, hempty ▸ le_rfl, hempty ▸ haligned, iff_of_true rfl (congrArg VirtAddr.raw hempty)⟩
  exact Runs.always_iff_each (fun _ _ _ h hstep => (kvm_step h hstep).1)
    (fun _ _ _ h _ hstep => (kvm_step h hstep).2) hinv rfl calls

end

section

open Sgx

def sgxReply : Except (Sgx.Stop ε) α × Enclave → Option (Option α × Enclave)
  | (.ok value, enclave) => some (some value, enclave)
  | (.error (.err _), enclave) => some (none, enclave)
  | (.error _, _) => none

def sgxMap (host : Sgx.Host) (enclave : Enclave) : MapCall → Option Enclave
  | .mmap addr length prot flags fd offset =>
    (sgxReply (Sgx.mmap host addr length prot flags fd offset enclave)).map Prod.snd
  | .munmap addr length => (sgxReply (Sgx.munmap host addr length enclave)).map Prod.snd

def sgxShim (host : Sgx.Host) : BrkShim Enclave where
  start enclave := PAGE_SIZE * enclave.heap.start
  brk addr enclave := sgxReply (Sgx.brk host addr enclave)
  map call enclave := sgxMap host enclave call
  -- the area has been as large before
  remembers enclave addr := addr ≤ PAGE_SIZE * enclave.heap.brkMax
  below enclave addr := addr < PAGE_SIZE * enclave.heap.start ∧ PAGE_SIZE * enclave.heap.start < addr + PAGE_SIZE

theorem sgxShim_brk (host : Sgx.Host) (addr : Option Nat) (enclave : Enclave) :
    (sgxShim host).brk addr enclave = sgxReply (Sgx.brk host addr enclave) := by
  rw [sgxShim]

theorem sgxShim_mmap (host : Sgx.Host) (addr : Option Nat) (length : Nat) (prot flags fd : CInt)
    (offset : BitVec 64) (enclave : Enclave) :
    (sgxShim host).map (.mmap addr length prot flags fd offset) enclave =
      (sgxReply (Sgx.mmap host addr length prot flags fd offset enclave)).map Prod.snd := by
  simp only [sgxShim, sgxMap]

theorem sgxShim_munmap (host : Sgx.Host) (addr length : Nat) (enclave : Enclave) :
    (sgxShim host).map (.munmap addr length) enclave =
      (sgxReply (Sgx.munmap host addr length enclave)).map Prod.snd := by
  simp only [sgxShim, sgxMap]

/-- The calls that the SGX shim answers rightly: all but a query when it does not remember the break. -/
def sgxRight (tracked : Tracked Enclave) : Call → Prop
  | .brk none => tracked.remembered = true
  | _ => True

structure SgxInv (tracked : Tracked Enclave) : Prop where
  start_pos : 0 < tracked.state.heap.start
  finish_lt : PAGE_SIZE * tracked.state.heap.finish < 2 ^ 64
  brkAddr_lt : tracked.state.heap.brkAddr < tracked.state.heap.finish
  exists_page : ∃ page, tracked.current = PAGE_SIZE * page ∧ tracked.state.heap.start ≤ page ∧
    page ≤ tracked.state.heap.brkMax ∧ page < tracked.state.heap.finish
  remembered : tracked.remembered = true ↔ PAGE_SIZE * tracked.state.heap.brkAddr = tracked.current

variable {enclave after : Enclave} {host : Sgx.Host} {before : Tracked Enclave} {run : Sgx.Shim ε α}
  {reply : Option Nat}

theorem sgxReply_none (h : sgxReply (run enclave) = some (none, after)) :
    ∃ error, run enclave = (.error (.err error), after) := by
  unfold sgxReply at h
  split at h <;> cases h
  exact ⟨_, by assumption⟩

theorem sgxReply_some {value : α}
    (h : sgxReply (run enclave) = some (some value, after)) : run enclave = (.ok value, after) := by
  unfold sgxReply at h
  split at h <;> cases h
  assumption

theorem sgxReply_final {reply : Option α}
    (h : sgxReply (run enclave) = some (reply, after)) : (run enclave).2 = after := by
  cases reply with
  | none =>
    obtain ⟨error, hrun⟩ := sgxReply_none h
    rw [hrun]
  | some value => rw [sgxReply_some h]

theorem sgx_moved {addr : Option Nat} (h : sgxReply (Sgx.brk host addr enclave) = some (reply, after)) :
    ∃ page, BrkMoved host addr enclave page after ∧
      (reply = some (PAGE_SIZE * page) ∨ reply = none ∧ enclave.heap.brkMax < page) := by
  have hyields := Sgx.brk_yields host addr enclave
  cases reply with
  | some result =>
    obtain ⟨page, hmoved, rfl⟩ := hyields.ok (sgxReply_some h)
    exact ⟨page, hmoved, .inl rfl⟩
  | none =>
    obtain ⟨errno, hrun⟩ := sgxReply_none h
    obtain ⟨page, hmoved, hgrows⟩ := hyields.error hrun errno rfl
    exact ⟨page, hmoved, .inr ⟨rfl, hgrows⟩⟩

theorem SgxInv.of_area {right : Bool} (h : SgxInv before)
    (harea : enclave.area = before.state.area) : SgxInv ⟨enclave, before.current, before.remembered, right⟩ := by
  simp only [Enclave.area, Heap.area, Prod.mk.injEq] at harea
  obtain ⟨hstart, hfinish, hbrk, hmax⟩ := harea
  exact ⟨hstart ▸ h.start_pos, hfinish ▸ h.finish_lt, hfinish ▸ hbrk ▸ h.brkAddr_lt,
    by simpa only [hstart, hmax, hfinish] using h.exists_page, hbrk ▸ h.remembered⟩

theorem sgx_query {after : Tracked Enclave} (hinv : SgxInv before)
    (h : (sgxShim host).step before (.brk none) = some after) :
    SgxInv after ∧ (after.right = true ↔ sgxRight before (.brk none)) := by
  rw [BrkShim.step, Option.map_eq_some_iff] at h
  obtain ⟨⟨reply, enclave⟩, hreply, rfl⟩ := h
  obtain ⟨page, ⟨next, hnext, hbrk⟩, hresult⟩ := sgx_moved hreply
  cases hnext
  have hordered := before.state.heap.ordered
  have hpos := hinv.start_pos
  rcases before.state.heap.brk_cases host.ledger.toAccessBits (host.ledger.room before.state.clock) 0 with
    ⟨hsame, -⟩ | ⟨heap, -, hle, -⟩
  · obtain ⟨rfl, hheap⟩ := Prod.mk.inj (hsame.symm.trans hbrk)
    have harea : enclave.area = before.state.area := congrArg Heap.area hheap.symm
    refine ⟨hinv.of_area harea, ?_⟩
    rcases hresult with rfl | ⟨-, hgrows⟩
    · simp [sgxRight, hinv.remembered]
    · omega
  · omega

/-- After a request that the heap has taken, the break is that of the request or the one before, and the shim
remembers it exactly if the heap's own is the same. -/
theorem sgx_taken (host : Sgx.Host) {addr next current : Nat}
    (hinv : SgxInv before) (hcurrent : before.current = PAGE_SIZE * current) (hle : addr ≤ PAGE_SIZE * next)
    (hlt : PAGE_SIZE * next < addr + PAGE_SIZE) (hstart : before.state.heap.start ≤ next)
    (hreply : reply = some (PAGE_SIZE * next) ∨ reply = none ∧ before.state.heap.brkMax < next) :
    ∃ page, (page = next ∨ page = current) ∧ (sgxShim host).next before addr reply = PAGE_SIZE * page ∧
      ((sgxShim host).remembered before addr reply = true ↔
        PAGE_SIZE * (if next ≤ before.state.heap.brkMax then next else before.state.heap.brkAddr) =
          PAGE_SIZE * page) := by
  have hordered := before.state.heap.ordered
  by_cases hsucceeds : (sgxShim host).succeeds before addr reply = true
  · obtain ⟨hnext, hremembered⟩ := BrkShim.remembered_of_succeeds hsucceeds
    have hremembers : (sgxShim host).remembers before.state addr = true ↔
        addr ≤ PAGE_SIZE * before.state.heap.brkMax := decide_eq_true_iff
    rcases hreply with rfl | ⟨rfl, -⟩
    · refine ⟨next, .inl rfl, hnext, ?_⟩
      rw [hremembered, hremembers]
      unfold PAGE_SIZE at *
      split_ifs <;> omega
    · cases hsucceeds
  obtain ⟨hnext, hremembered⟩ := BrkShim.remembered_of_fails hsucceeds
  refine ⟨current, .inr rfl, hnext.trans hcurrent, ?_⟩
  have hbelow : (sgxShim host).below before.state addr = true ↔
      addr < PAGE_SIZE * before.state.heap.start ∧ PAGE_SIZE * before.state.heap.start < addr + PAGE_SIZE :=
    decide_eq_true_iff
  rw [hremembered]
  rcases hreply with rfl | ⟨-, hgrows⟩
  · -- the address is below the area, and the page is the first of it
    have hlow : ¬PAGE_SIZE * before.state.heap.start ≤ addr := fun hlow =>
      hsucceeds (decide_eq_true ⟨hlow, hle⟩)
    have hfirst : next = before.state.heap.start := by
      unfold PAGE_SIZE at *
      omega
    rw [if_pos (hbelow.mpr ⟨by omega, hfirst ▸ hlt⟩), if_pos (by omega), decide_eq_true_iff, hcurrent, hfirst]
    exact eq_comm
  · rw [if_neg, if_neg (by omega), hinv.remembered, hcurrent]
    rw [hbelow]
    unfold PAGE_SIZE at *
    omega

theorem sgx_brk {addr : Nat} {after : Tracked Enclave} (hinv : SgxInv before)
    (h : (sgxShim host).step before (.brk (some addr)) = some after) :
    SgxInv after ∧ (after.right = true ↔ sgxRight before (.brk (some addr))) := by
  rw [BrkShim.step, Option.map_eq_some_iff] at h
  obtain ⟨⟨reply, enclave⟩, hreply, rfl⟩ := h
  rw [sgxShim_brk] at hreply
  obtain ⟨page, ⟨next, hnext, hbrk⟩, hresult⟩ := sgx_moved hreply
  obtain ⟨current, hcurrent, hstart, hmax, hfinish⟩ := hinv.exists_page
  obtain ⟨hle, hlt⟩ := roundUp_spec hnext
  have hordered := before.state.heap.ordered
  dsimp only
  -- who asks for the break again asks the heap for the page of it
  have hagain : addr = before.current → next = current := by
    unfold PAGE_SIZE at *
    omega
  rcases before.state.heap.brk_cases host.ledger.toAccessBits (host.ledger.room before.state.clock) next with
    ⟨hsame, hrefused⟩ | ⟨heap, hmoved, hlo, hhi, harea⟩
  · obtain ⟨rfl, hheap⟩ := Prod.mk.inj (hsame.symm.trans hbrk)
    have harea : enclave.area = before.state.area := congrArg Heap.area hheap.symm
    have hother : addr ≠ before.current := by
      intro heq
      have := hagain heq
      omega
    have hbrkAddr := hinv.brkAddr_lt
    have hfails : ¬(sgxShim host).succeeds before addr reply = true := by
      rcases hresult with rfl | ⟨rfl, -⟩
      · intro hsucceeds
        obtain ⟨hlo, hhi⟩ := of_decide_eq_true hsucceeds
        change PAGE_SIZE * before.state.heap.start ≤ addr at hlo
        unfold PAGE_SIZE at *
        omega
      · exact Bool.false_ne_true
    have hbelow : (sgxShim host).below before.state addr = false := by
      apply decide_eq_false
      rintro ⟨hlo, hhi⟩
      unfold PAGE_SIZE at *
      omega
    obtain ⟨hnext, hremembered⟩ := BrkShim.remembered_of_fails hfails
    rw [hnext, hremembered, hbelow]
    exact ⟨hinv.of_area harea, by simp [sgxRight, hother]⟩
  · obtain ⟨rfl, rfl⟩ := Prod.mk.inj (hmoved.symm.trans hbrk)
    have hright : addr = before.current → reply = some before.current := by
      intro heq
      have hsame := hagain heq
      rcases hresult with rfl | ⟨-, hgrows⟩
      · rw [hcurrent, hsame]
      · omega
    refine ⟨?_, by simpa only [sgxRight, decide_eq_true_eq, iff_true] using hright⟩
    obtain ⟨page, hpage, hbreak, hremembered⟩ := sgx_taken host hinv hcurrent hle hlt hlo hresult
    rw [hbreak]
    rcases harea with ⟨hmove, harea, -⟩ | ⟨hgrow, harea, -⟩
    all_goals
      simp only [Heap.area, Prod.mk.injEq] at harea
      obtain ⟨hheapStart, hheapFinish, hheapBrk, hheapMax⟩ := harea
    · rw [if_pos hmove] at hremembered
      refine ⟨hheapStart ▸ hinv.start_pos, hheapFinish ▸ hinv.finish_lt, ?_, ⟨page, rfl, ?_⟩,
        hheapBrk ▸ hremembered⟩ <;> dsimp only <;> omega
    · rw [if_neg (by omega)] at hremembered
      have := hinv.brkAddr_lt
      refine ⟨hheapStart ▸ hinv.start_pos, hheapFinish ▸ hinv.finish_lt, ?_, ⟨page, rfl, ?_⟩,
        hheapBrk ▸ hremembered⟩ <;> dsimp only <;> omega

theorem sgx_map {call : MapCall} {after : Tracked Enclave} (hinv : SgxInv before)
    (h : (sgxShim host).step before (.map call) = some after) :
    SgxInv after ∧ (after.right = true ↔ sgxRight before (.map call)) := by
  rw [BrkShim.step, Option.map_eq_some_iff] at h
  obtain ⟨enclave, hmap, rfl⟩ := h
  have harea : enclave.area = before.state.area := by
    cases call with
    | mmap addr length prot flags fd offset =>
      rw [sgxShim_mmap] at hmap
      obtain ⟨⟨reply, final⟩, hreply, rfl⟩ := Option.map_eq_some_iff.mp hmap
      change final.area = _
      rw [← sgxReply_final hreply]
      exact mmap_keeps_area host addr length prot flags fd offset before.state
    | munmap addr length =>
      rw [sgxShim_munmap] at hmap
      obtain ⟨⟨reply, final⟩, hreply, rfl⟩ := Option.map_eq_some_iff.mp hmap
      change final.area = _
      rw [← sgxReply_final hreply]
      exact munmap_keeps_area host addr length before.state
  exact ⟨hinv.of_area harea, by simp [sgxRight]⟩

theorem sgx_step {call : Call} {after : Tracked Enclave} (hinv : SgxInv before)
    (h : (sgxShim host).step before call = some after) :
    SgxInv after ∧ (after.right = true ↔ sgxRight before call) := by
  cases call with
  | map call => exact sgx_map hinv h
  | brk addr =>
    cases addr with
    | none => exact sgx_query hinv h
    | some addr => exact sgx_brk hinv h

theorem sgx_lawful_iff (host : Sgx.Host) {start finish : Nat}
    (hheap : enclave.heap = Heap.new start finish) (hstart : 0 < start) (hlt : start < finish)
    (hfinish : PAGE_SIZE * finish < 2 ^ 64) (calls : List Call) : (sgxShim host).Lawful enclave calls ↔
      Runs.Each (sgxShim host).step sgxRight ⟨enclave, PAGE_SIZE * start, true, true⟩ calls := by
  have hinv : SgxInv ⟨enclave, PAGE_SIZE * start, true, true⟩ := by
    refine ⟨?_, ?_, ?_, ⟨start, rfl, ?_⟩, ?_⟩ <;> dsimp only <;> rw [hheap]
    · exact hstart
    · exact hfinish
    · exact hlt
    · exact ⟨le_rfl, le_rfl, hlt⟩
    · exact iff_of_true rfl rfl
  have hfirst : (sgxShim host).start enclave = PAGE_SIZE * start := by
    change PAGE_SIZE * enclave.heap.start = _
    rw [hheap]
    rfl
  rw [BrkShim.Lawful, hfirst]
  exact Runs.always_iff_each (fun _ _ _ h hstep => (sgx_step h hstep).1)
    (fun _ _ _ h _ hstep => (sgx_step h hstep).2) hinv rfl calls

end

/-- In both shims a sequence is lawful exactly if all of its calls are answered rightly. -/
theorem brk_lawful_iff (machine : Kvm.Host) (fuel : Nat) (memory : Kvm.Memory)
    (hpage : Kvm.SIZE_4_KIB ≤ memory.brkStart.raw) (haligned : Kvm.SIZE_4_KIB ∣ memory.brkStart.raw)
    (hempty : memory.brkEnd = memory.brkStart) (host : Sgx.Host) (enclave : Sgx.Enclave) (start finish : Nat)
    (hheap : enclave.heap = Sgx.Heap.new start finish) (hstart : 0 < start) (hlt : start < finish)
    (hfinish : Sgx.PAGE_SIZE * finish < 2 ^ 64) (calls : List Call) :
    ((kvmShim machine (fuel + 1)).Lawful memory calls ↔
      Runs.Each (kvmShim machine (fuel + 1)).step kvmRight ⟨memory, memory.brkStart.raw, true, true⟩ calls) ∧
    ((sgxShim host).Lawful enclave calls ↔
      Runs.Each (sgxShim host).step sgxRight ⟨enclave, Sgx.PAGE_SIZE * start, true, true⟩ calls) :=
  ⟨kvm_lawful_iff machine fuel hpage haligned hempty calls,
    sgx_lawful_iff host hheap hstart hlt hfinish calls⟩

/-- The start of the area in the KVM shim, less its random part. -/
def BRK_START : Kvm.VirtAddr := Kvm.EXEC_BRK_VIRT_ADDR_BASE

def freshMemory : Kvm.Memory where
  tables := ⟨BRK_START, fun _ _ => .unused⟩
  allocator := ⟨11, 20, 0x100000, ∅⟩
  brkStart := BRK_START
  brkEnd := BRK_START
  nextMmap := BRK_START
  asked := 0
  returned := []
  mapFailed := false

def freshEnclave : Sgx.Enclave := ⟨Sgx.Heap.new 1 4, fun _ => none, 0, []⟩

theorem brk_lawful_queries :
    (kvmShim Kvm.fullMachine 1).Lawful freshMemory [.brk none, .brk (some 4096), .brk none] ∧
      (sgxShim Sgx.obligingHost).Lawful freshEnclave [.brk none, .brk (some 4096), .brk none] := by
  have h := brk_lawful_iff Kvm.fullMachine 0 freshMemory (by decide) (by decide) rfl Sgx.obligingHost freshEnclave
    1 4 rfl (by decide) (by decide) (by decide) [.brk none, .brk (some 4096), .brk none]
  constructor
  · refine h.1.mpr fun _ hfirst => ⟨rfl, fun _ hsecond => ⟨?_, fun _ hthird => ⟨?_, trivial⟩⟩⟩
    · cases hfirst
      rintro ⟨heq, -⟩
      exact absurd heq (by decide)
    · cases hfirst
      cases hsecond
      rfl
  · refine h.2.mpr fun _ hfirst => ⟨rfl, fun _ hsecond => ⟨trivial, fun _ hthird => ⟨?_, trivial⟩⟩⟩
    cases hfirst
    cases hsecond
    rfl

/-- The KVM shim refuses who asks for the break again. The SGX shim forgets that the area has grown. -/
theorem brk_unlawful : ¬(kvmShim Kvm.fullMachine 1).Lawful freshMemory [.brk (some 0x555500000000)] ∧
    ¬(sgxShim Sgx.obligingHost).Lawful freshEnclave [.brk (some 8192), .brk none] := by
  constructor
  · intro h
    exact absurd (h.2 _ rfl).here (by decide)
  · intro h
    exact absurd ((h.2 _ rfl).2 _ rfl).here (by decide)

end Enarx.Shims
