import Enarx.Kvm.Contents
import Enarx.Kvm.Protection
import Enarx.Sallyport.Handler
import Enarx.Sgx.Agreement

/-!
# `mremap` in both shims

`mremap` is written once, in terms of `mmap` and `munmap` of the shim. A mapping that
shrinks should keep the bytes that are left of it, and one that grows should keep all
of them. On KVM the first fails unless whole pages are left; on SGX the second fails always.
-/
namespace Enarx.Shims

open Sallyport (CInt Errno MremapFlags)
open Sallyport.Libc (EINVAL ENOTSUP)

structure MremapShim (ε σ : Type) where
  err : Errno → ε
  /-- `let _ = ..`: an error is dropped. -/
  ignore : Exec ε σ Unit → Exec ε σ Unit
  mmap : (length : Nat) → (prot : CInt) → Exec ε σ Nat
  munmap : (addr length : Nat) → Exec ε σ Unit
  copyFromSlice : (dst src len : Nat) → Exec ε σ Unit

def PROT_ALL : CInt := 7

/-- `validate_slice::<u8>`, which accepts every address but null. -/
def validateSlice (shim : MremapShim ε σ) (addr : Nat) : Exec ε σ Unit :=
  if addr = 0 then throw (shim.err EINVAL) else pure ()

def mremap (shim : MremapShim ε σ) (oldAddress oldSize newSize : Nat) : Option MremapFlags → Exec ε σ Nat
  | none => if newSize = oldSize then pure oldAddress else throw (shim.err ENOTSUP)
  | some ⟨some _, _⟩ => throw (shim.err ENOTSUP)
  | some ⟨none, dontunmap⟩ => do
    if newSize = oldSize then
      return oldAddress
    else if newSize < oldSize ∧ dontunmap = false then
      validateSlice shim oldAddress
      -- the tail is unmapped
      shim.ignore (shim.munmap (oldAddress + newSize) (oldSize - newSize))
      return oldAddress
    else if oldSize < newSize then
      validateSlice shim oldAddress
      let newAddr ← shim.mmap newSize PROT_ALL
      shim.copyFromSlice newAddr oldAddress oldSize
      if dontunmap = false then
        shim.ignore (shim.munmap oldAddress oldSize)
      return newAddr
    else
      throw (shim.err ENOTSUP)

theorem validateSlice_ok (shim : MremapShim ε σ) {addr : Nat} (h : addr ≠ 0) (state : σ) :
    validateSlice shim addr state = (.ok (), state) := by
  rw [validateSlice, if_neg h]
  rfl

/-- A mapping that shrinks stays where it is, with the bytes that are left of it. One that grows has the old
bytes, followed by zeros. -/
def KeepsData (byte : σ → Nat → Option Byte) (before : σ) (old oldSize newSize : Nat) (dontunmap : Bool)
    (reply : Option Nat) (after : σ) : Prop :=
  if newSize < oldSize then
    reply = some old ∧ ∀ i < newSize, (byte after (old + i)).isSome ∧ byte after (old + i) = byte before (old + i)
  else
    ∃ new, reply = some new ∧ (∀ i < oldSize, byte after (new + i) = byte before (old + i)) ∧
      (∀ i < newSize, oldSize ≤ i → byte after (new + i) = some 0) ∧
      ∀ i < oldSize, byte after (old + i) = if dontunmap then byte before (old + i) else none

section

open Kvm

def kvmMremap (host : Kvm.Host) (fuel : Nat) : MremapShim (Kvm.Stop Errno) Memory where
  err := .err
  ignore run := do
    let _ ← Alloc.attempt run
  mmap length prot := Kvm.mmap host fuel none length prot PA (-1) 0
  munmap addr length := Kvm.munmap host addr length
  copyFromSlice dst src len := Kvm.copyFromSlice host.cBit dst src len

variable {host : Kvm.Host} {fuel bottom old oldSize newSize : Nat} {stale : Set Nat}
  {own : Nat → Owner} {memory : Memory} {addr length : Nat} {after : Memory}

theorem kvm_ignore_munmap (fuel : Nat) (h : Kvm.munmap host addr length memory = (.ok (), after)) :
    (kvmMremap host fuel).ignore ((kvmMremap host fuel).munmap addr length) memory = (.ok (), after) := by
  have hattempt : (Alloc.attempt (Kvm.munmap host addr length) : Alloc Errno (Except Errno Unit)) memory =
      (.ok (.ok ()), after) := by
    rw [Alloc.attempt, h]
  change ((Alloc.attempt (Kvm.munmap host addr length) : Alloc Errno (Except Errno Unit)) >>= fun _ => pure ()) memory = _
  rw [Exec.bind_of_ok hattempt]
  rfl

theorem touched_mapped (hmapped : MappedRange host.cBit stale memory old oldSize) (haligned : SIZE_4_KIB ∣ old)
    (hlo : old ≤ addr) (hpos : 0 < length) (hhi : addr + length ≤ old + oldSize) (virt : VirtAddr)
    (htouched : Touched addr length virt.page) : virt.page ∉ stale ∧ ∃ entry : PageTableEntry,
      memory.tables.leaf? host.cBit virt = some (entry, []) ∧ entry.IsPointer := by
  obtain ⟨k, rfl⟩ := haligned
  have hlow := hmapped.low
  unfold Touched at htouched
  have hstart : SIZE_4_KIB * k ≤ virt.page * SIZE_4_KIB ∧ virt.page * SIZE_4_KIB < SIZE_4_KIB * k + oldSize := by
    unfold SIZE_4_KIB at *
    omega
  -- the first address of the page is in the mapping
  obtain ⟨first, -, hfirst⟩ := VirtAddr.new_low (show virt.page * SIZE_4_KIB < 2 ^ 47 by omega)
  have hpage : virt.page = first.page := (VirtAddr.page_of_raw (by rw [hfirst, Nat.mul_comm])).symm
  obtain ⟨hfresh, entry, hleaf, hpointer⟩ := hmapped.page first (by omega) (by omega)
  rw [hpage]
  exact ⟨hfresh, entry, (leaf?_congr memory.tables hpage).trans hleaf, hpointer⟩

theorem kvm_mremap_shrinks (fuel : Nat) (h : memory.Owns host.cBit bottom stale own)
    (hmapped : MappedRange host.cBit stale memory old oldSize) (haligned : SIZE_4_KIB ∣ old) (hold : old ≠ 0)
    (hlow : old + oldSize + SIZE_4_KIB ≤ 2 ^ 47) (hpos : 0 < newSize) (hlt : newSize < oldSize) :
    ∃ after, mremap (kvmMremap host fuel) old oldSize newSize (some ⟨none, false⟩) memory = (.ok old, after) ∧
      (KeepsData (Memory.byteAt host.cBit) memory old oldSize newSize false (some old) after ↔
        SIZE_4_KIB ∣ newSize) := by
  obtain ⟨after, hafter, hunmapped⟩ := munmap_mapped h (show oldSize - newSize ≠ 0 by omega)
    (show old + newSize + (oldSize - newSize) + SIZE_4_KIB ≤ 2 ^ 47 by omega)
    (touched_mapped hmapped haligned (by omega) (by omega) (by omega))
  refine ⟨after, ?_, ?_⟩
  · rw [mremap, if_neg (by omega), if_pos ⟨hlt, rfl⟩, Exec.bind_of_ok (validateSlice_ok _ hold memory),
      Exec.bind_of_ok (kvm_ignore_munmap fuel hafter)]
    rfl
  · rw [KeepsData, if_pos hlt]
    obtain ⟨k, rfl⟩ := haligned
    constructor
    · rintro ⟨-, hkept⟩
      by_contra hnot
      -- the last byte that is left is in a page that has been unmapped
      obtain ⟨hsome, -⟩ := hkept (newSize - 1) (by omega)
      obtain ⟨addr, -, hraw⟩ := VirtAddr.new_low (show SIZE_4_KIB * k + (newSize - 1) < 2 ^ 47 by omega)
      rw [← hraw, Memory.byteAt_raw, hunmapped.gone addr] at hsome
      · cases hsome
      · rw [Touched, VirtAddr.page, hraw]
        unfold SIZE_4_KIB at *
        omega
    · intro hdvd
      obtain ⟨l, rfl⟩ := hdvd
      refine ⟨rfl, fun i hi => ?_⟩
      obtain ⟨addr, -, hraw⟩ := VirtAddr.new_low (show SIZE_4_KIB * k + i < 2 ^ 47 by omega)
      have hkept : after.byte host.cBit addr = memory.byte host.cBit addr := by
        refine hunmapped.byte addr ?_ (not_inWindow_of_low (by omega)) (hmapped.page addr (by omega) (by omega)).1
        rw [Touched, VirtAddr.page, hraw]
        unfold SIZE_4_KIB at *
        omega
      obtain ⟨value, hvalue⟩ := hmapped.byteAt h.tidy (show SIZE_4_KIB * k ≤ addr.raw by omega) (by omega)
      rw [← hraw, Memory.byteAt_raw, hkept, ← Memory.byteAt_raw, hvalue]
      exact ⟨rfl, rfl⟩

/-- There is room for a second mapping: `mmap` grants it, in the lower half of the address space. -/
def KvmGrants (host : Kvm.Host) (fuel newSize : Nat) (memory : Memory) : Prop :=
  memory.nextMmap.raw + newSize + SIZE_4_KIB ≤ 2 ^ 47 ∧
    ∃ new after, Kvm.mmap host fuel none newSize PROT_ALL PA (-1) 0 memory = (.ok new, after)

theorem mmappedRange_of_moves {prot : CInt} (h : memory.Owns host.cBit bottom stale own)
    (hmoves : MmapMoves host.cBit bottom stale own memory length prot after)
    (hroom : memory.nextMmap.raw + length + SIZE_4_KIB ≤ 2 ^ 47) :
    ∃ size, length ≤ size ∧ MmappedRange host.cBit bottom stale memory memory.nextMmap.raw size after := by
  cases hmoves with
  | @grown npages next granted hle hlt hnext hgranted =>
    have hrange : MmappedRange host.cBit bottom stale memory memory.nextMmap.raw (SIZE_4_KIB * npages) granted :=
      hgranted.mmappedRange h rfl rfl (by omega)
    obtain ⟨own', howns⟩ := hrange.owns
    exact ⟨SIZE_4_KIB * npages, hle, ⟨own', { howns with }⟩, hrange.unmapped, ⟨hrange.mapped.low, hrange.mapped.page⟩,
      hrange.zero, hrange.leaf?, hrange.byte⟩

theorem kvm_mmap_granted (h : memory.Owns host.cBit bottom stale own) (hgrants : KvmGrants host fuel newSize memory)
    (hmapped : MappedRange host.cBit stale memory old oldSize) :
    ∃ new middle, Kvm.mmap host fuel none newSize PROT_ALL PA (-1) 0 memory = (.ok new, middle) ∧
      ∃ size, newSize ≤ size ∧ MmappedRange host.cBit bottom stale memory new size middle ∧
        MappedRange host.cBit stale middle old oldSize ∧ ∀ i < oldSize, ¬(new ≤ old + i ∧ old + i < new + size) := by
  obtain ⟨hroom, new, middle, hmmap⟩ := hgrants
  obtain ⟨rfl, hmoves⟩ := (mmap_moves h fuel none newSize PROT_ALL PA (-1) 0).ok hmmap
  obtain ⟨size, hsize, hrange⟩ := mmappedRange_of_moves h hmoves hroom
  -- a byte of the old mapping is not in the new one, where nothing was mapped
  have houtside : ∀ i < oldSize, ¬(memory.nextMmap.raw ≤ old + i ∧ old + i < memory.nextMmap.raw + size) := by
    rintro i hi ⟨hlo, hhi⟩
    have hlow := hmapped.low
    obtain ⟨addr, -, hraw⟩ := VirtAddr.new_low (show old + i < 2 ^ 47 by omega)
    obtain ⟨-, entry, hleaf, -⟩ := hmapped.page addr (by omega) (by omega)
    rw [hrange.unmapped addr (by omega) (by omega)] at hleaf
    cases hleaf
  refine ⟨_, _, hmmap, size, hsize, hrange, hmapped.congr fun addr hlo hhi => hrange.leaf? addr ?_, houtside⟩
  have haddr := houtside (addr.raw - old) (by omega)
  rwa [Nat.add_sub_cancel' hlo] at haddr

structure KvmCopied (c : CBit) (before : Memory) (old oldSize new newSize : Nat) (after : Memory) : Prop where
  copied : ∀ i < oldSize, after.byteAt c (new + i) = before.byteAt c (old + i)
  zero : ∀ i < newSize, oldSize ≤ i → after.byteAt c (new + i) = some 0
  kept : ∀ i < oldSize, after.byteAt c (old + i) = before.byteAt c (old + i)

theorem kvm_copied {size new : Nat} {middle : Memory} (hlow : old + oldSize ≤ 2 ^ 47) (hlt : oldSize < newSize)
    (hmapped : MappedRange host.cBit stale memory old oldSize) (hsize : newSize ≤ size)
    (hrange : MmappedRange host.cBit bottom stale memory new size middle)
    (hmiddle : MappedRange host.cBit stale middle old oldSize)
    (houtside : ∀ i < oldSize, ¬(new ≤ old + i ∧ old + i < new + size)) :
    ∃ own filled, Kvm.copyFromSlice host.cBit new old oldSize middle = ((.ok () : Except (Kvm.Stop Errno) Unit), filled) ∧
      filled.Owns host.cBit bottom stale own ∧ (∀ addr, filled.tables.leaf? host.cBit addr =
        middle.tables.leaf? host.cBit addr) ∧ KvmCopied host.cBit memory old oldSize new newSize filled := by
  obtain ⟨own', howns⟩ := hrange.owns
  have hnewLow := hrange.mapped.low
  have hdisjoint : new + oldSize ≤ old ∨ old + oldSize ≤ new := by
    by_contra hboth
    by_cases hle : old ≤ new
    · have hpoint := houtside (new - old) (by omega)
      omega
    · have hpoint := houtside 0 (by omega)
      omega
  obtain ⟨filled, hfilled, hrewrites⟩ := copyFromSlice_ok (ε := Errno) howns
    (hrange.mapped.sub le_rfl (show new + oldSize ≤ new + size by omega)) hmiddle hdisjoint
  have hbyte : ∀ addr : VirtAddr, addr.raw < 2 ^ 47 → addr.page ∉ stale → filled.byteAt host.cBit addr.raw =
      if new ≤ addr.raw ∧ addr.raw < new + oldSize then middle.byteAt host.cBit (old + (addr.raw - new))
      else middle.byteAt host.cBit addr.raw := by
    intro addr hraw hfresh
    rw [Memory.byteAt_raw, Memory.byteAt_raw, hrewrites.byte addr (not_inWindow_of_low hraw) hfresh, copied]
  have hmiddleOld : ∀ i < oldSize, middle.byteAt host.cBit (old + i) = memory.byteAt host.cBit (old + i) := by
    intro i hi
    obtain ⟨addr, -, hraw⟩ := VirtAddr.new_low (show old + i < 2 ^ 47 by omega)
    rw [← hraw, Memory.byteAt_raw, Memory.byteAt_raw]
    exact hrange.byte addr (hraw ▸ houtside i hi) (not_inWindow_of_low (by omega))
      (hmapped.page addr (by omega) (by omega)).1
  have hnew : ∀ i < newSize, ∃ addr : VirtAddr, addr.raw = new + i ∧ addr.page ∉ stale := by
    intro i hi
    obtain ⟨addr, -, hraw⟩ := VirtAddr.new_low (show new + i < 2 ^ 47 by omega)
    exact ⟨addr, hraw, (hrange.mapped.page addr (by omega) (by omega)).1⟩
  refine ⟨own', filled, hfilled, hrewrites.owns, hrewrites.leaf?, fun i hi => ?_, fun i hi hle => ?_, fun i hi => ?_⟩
  · obtain ⟨addr, hraw, hfresh⟩ := hnew i (by omega)
    rw [← hraw, hbyte addr (by omega) hfresh, if_pos (by omega), hraw, Nat.add_sub_cancel_left, hmiddleOld i hi]
  · obtain ⟨addr, hraw, hfresh⟩ := hnew i hi
    rw [← hraw, hbyte addr (by omega) hfresh, if_neg (by omega), Memory.byteAt_raw,
      hrange.zero addr (by omega) (by omega)]
  · obtain ⟨addr, -, hraw⟩ := VirtAddr.new_low (show old + i < 2 ^ 47 by omega)
    have hpoint := houtside i hi
    rw [← hmiddleOld i hi, ← hraw, hbyte addr (by omega) (hmapped.page addr (by omega) (by omega)).1, if_neg (by omega)]

theorem kvm_mremap_grows (h : memory.Owns host.cBit bottom stale own)
    (hmapped : MappedRange host.cBit stale memory old oldSize) (haligned : SIZE_4_KIB ∣ old) (hold : old ≠ 0)
    (hlow : old + oldSize + SIZE_4_KIB ≤ 2 ^ 47) (hpos : 0 < oldSize) (hlt : oldSize < newSize)
    (hgrants : KvmGrants host fuel newSize memory) (dontunmap : Bool) :
    ∃ new after, mremap (kvmMremap host fuel) old oldSize newSize (some ⟨none, dontunmap⟩) memory = (.ok new, after) ∧
      KeepsData (Memory.byteAt host.cBit) memory old oldSize newSize dontunmap (some new) after := by
  obtain ⟨new, middle, hmmap, size, hsize, hrange, hmiddle, houtside⟩ := kvm_mmap_granted h hgrants hmapped
  obtain ⟨own', filled, hfilled, howns, hleaf, hcopied⟩ :=
    kvm_copied (by omega) hlt hmapped hsize hrange hmiddle houtside
  have hnewLow := hrange.mapped.low
  have hmmap' : (kvmMremap host fuel).mmap newSize PROT_ALL memory = (.ok new, middle) := hmmap
  have hfilled' : (kvmMremap host fuel).copyFromSlice new old oldSize middle = (.ok (), filled) := hfilled
  rw [mremap, if_neg (by omega), if_neg (by omega), if_pos hlt, Exec.bind_of_ok (validateSlice_ok _ hold memory),
    Exec.bind_of_ok hmmap', Exec.bind_of_ok hfilled']
  cases dontunmap with
  | true =>
    refine ⟨new, filled, rfl, ?_⟩
    rw [KeepsData, if_neg (by omega)]
    exact ⟨new, rfl, hcopied.copied, hcopied.zero, hcopied.kept⟩
  | false =>
    have hfilledMapped : MappedRange host.cBit stale filled old oldSize := hmiddle.congr fun addr _ _ => hleaf addr
    obtain ⟨after, hafter, hunmapped⟩ := munmap_mapped howns (show oldSize ≠ 0 by omega) hlow
      (touched_mapped hfilledMapped haligned le_rfl hpos le_rfl)
    -- no page of the new mapping is a page of the old one
    have hkept : ∀ i < newSize, after.byteAt host.cBit (new + i) = filled.byteAt host.cBit (new + i) := by
      intro i hi
      obtain ⟨addr, -, hraw⟩ := VirtAddr.new_low (show new + i < 2 ^ 47 by omega)
      rw [← hraw, Memory.byteAt_raw, Memory.byteAt_raw]
      refine hunmapped.byte addr (fun htouched => ?_) (not_inWindow_of_low (by omega))
        (hrange.mapped.page addr (by omega) (by omega)).1
      obtain ⟨-, entry, hentry, -⟩ := touched_mapped hmapped haligned le_rfl hpos le_rfl addr htouched
      rw [hrange.unmapped addr (by omega) (by omega)] at hentry
      cases hentry
    refine ⟨new, after, ?_, ?_⟩
    · rw [if_pos rfl, Exec.bind_of_ok (kvm_ignore_munmap fuel hafter)]
      rfl
    · rw [KeepsData, if_neg (by omega)]
      refine ⟨new, rfl, fun i hi => ?_, fun i hi hle => ?_, fun i hi => ?_⟩
      · rw [hkept i (by omega), hcopied.copied i hi]
      · rw [hkept i hi, hcopied.zero i hi hle]
      · obtain ⟨addr, -, hraw⟩ := VirtAddr.new_low (show old + i < 2 ^ 47 by omega)
        rw [← hraw, Memory.byteAt_raw]
        refine hunmapped.gone addr ?_
        rw [Touched, VirtAddr.page, hraw]
        exact ⟨Nat.div_le_div_right (by omega), Nat.div_le_div_right (by omega)⟩

end

section

open Sgx

def sgxByte (enclave : Enclave) (addr : Nat) : Option Byte := do
  let page ← enclave.epcm (addr / PAGE_SIZE)
  if page.info.Settled ∧ page.info.access.read then some (page.contents (addr % PAGE_SIZE)) else none

def sgxStoreByte (addr : Nat) (value : Byte) : Shim Errno Unit := fun enclave =>
  match enclave.epcm (addr / PAGE_SIZE) with
  | some page =>
    if page.info.Settled ∧ page.info.access.write then
      (.ok (), { enclave with
        epcm := Function.update enclave.epcm (addr / PAGE_SIZE)
          (some { page with contents := Function.update page.contents (addr % PAGE_SIZE) value }) })
    else (.error .panic, enclave)
  | none => (.error .panic, enclave)

def sgxCopyFromSlice (dst src : Nat) : Nat → Shim Errno Unit
  | 0 => pure ()
  | len + 1 => do
    sgxCopyFromSlice dst src len
    let value ← Sgx.orPanic (sgxByte (← get) (src + len))
    sgxStoreByte (dst + len) value

def sgxMremap (host : Sgx.Host) : MremapShim (Sgx.Stop Errno) Enclave where
  err := .err
  ignore run := tryCatch run fun
    | .err _ => pure ()
    | stop => throw stop
  mmap length prot := Sgx.mmap host none length prot MAP_PRIVATE_ANONYMOUS (-1) 0
  munmap addr length := Sgx.munmap host addr length
  copyFromSlice dst src len := sgxCopyFromSlice dst src len

variable {host : Sgx.Host} {enclave : Enclave} {after : Enclave} {reply : Option Nat} {addr : Nat}
  {list : List Nat}

theorem sgx_ignore_reply {run : Shim Errno Unit} {Q : Enclave → Prop} {value : Nat}
    (hrun : run.Yields enclave (fun _ => Q) fun stop after => stop.Ends ∨ Q after)
    (h : sgxReply ((do (sgxMremap host).ignore run; pure value : Shim Errno Nat) enclave) = some (reply, after)) :
    reply = some value ∧ Q after := by
  have hignore : ((sgxMremap host).ignore run).Yields enclave (fun _ => Q) fun stop _ => stop.Ends := by
    refine hrun.tryCatch ?_
    rintro (errno | _ | _) middle hmiddle
    · exact hmiddle.resolve_left id
    · trivial
    · trivial
  have hyields : (do (sgxMremap host).ignore run; pure value : Shim Errno Nat).Yields enclave
      (fun result after => result = value ∧ Q after) fun stop _ => stop.Ends :=
    hignore.bind fun _ _ hmiddle => Exec.Yields.pure ⟨rfl, hmiddle⟩
  cases reply with
  | none =>
    obtain ⟨errno, herror⟩ := sgxReply_none h
    exact (hyields.error herror).elim
  | some result =>
    obtain ⟨rfl, hafter⟩ := hyields.ok (sgxReply_some h)
    exact ⟨rfl, hafter⟩

theorem sgx_mremap_shrinks (hhonest : host.Honest) {old oldSize newSize : Nat} (hold : old ≠ 0)
    (hlt : newSize < oldSize) (hmapped : ∀ i < oldSize, (sgxByte enclave (old + i)).isSome)
    (h : sgxReply (mremap (sgxMremap host) old oldSize newSize (some ⟨none, false⟩) enclave) = some (reply, after)) :
    KeepsData sgxByte enclave old oldSize newSize false reply after := by
  rw [mremap, if_neg (by omega), if_pos ⟨hlt, rfl⟩, Exec.bind_of_ok (validateSlice_ok _ hold enclave)] at h
  obtain ⟨rfl, hreleased⟩ := sgx_ignore_reply (Sgx.munmapUnlocked_yields hhonest _ _) h
  rw [KeepsData, if_pos hlt]
  refine ⟨rfl, fun i hi => ?_⟩
  -- the page of a byte that is left is not in the range
  have hpage : after.epcm ((old + i) / PAGE_SIZE) = enclave.epcm ((old + i) / PAGE_SIZE) := by
    obtain ⟨npages, -, ⟨-, hsame⟩ | ⟨hgood, -, -, -, -, houtside⟩⟩ := hreleased
    · exact congrFun (congrArg Sgx.Snapshot.epcm hsame) _
    · refine houtside _ fun hmem => ?_
      rw [mem_pages] at hmem
      unfold PAGE_SIZE at *
      omega
  have hsame : sgxByte after (old + i) = sgxByte enclave (old + i) := by
    unfold sgxByte
    rw [hpage]
  rw [hsame]
  exact ⟨hmapped i (by omega), rfl⟩

def SettledEntry (entry : Option EpcPage) : Prop := ∃ page, entry = some page ∧ page.info.Settled

def TrimmedEntry (entry : Option EpcPage) : Prop :=
  ∃ page, entry = some page ∧ page.info = { access := {}, pageType := .trimmed, modified := true }

theorem settled_of_sgxByte (h : (sgxByte enclave addr).isSome) :
    SettledEntry (enclave.epcm (addr / PAGE_SIZE)) := by
  obtain ⟨value, hvalue⟩ := Option.isSome_iff_exists.mp h
  obtain ⟨page, hpage, hvalue⟩ := Option.bind_eq_some_iff.mp hvalue
  split at hvalue
  · next hreadable => exact ⟨page, hpage, hreadable.1⟩
  · cases hvalue

theorem applyAll_emodt (hnodup : list.Nodup) {epcm : Epcm} {page : Nat} (hpage : page ∈ list)
    (h : SettledEntry (epcm page)) : TrimmedEntry (applyAll (list.map .emodt) epcm page) := by
  induction list generalizing epcm with
  | nil => cases hpage
  | cons first rest ih =>
    obtain ⟨hfirst, hrest⟩ := List.nodup_cons.mp hnodup
    by_cases heq : page = first
    · subst heq
      obtain ⟨entry, hentry, hsettled⟩ := h
      have hout : ∀ op ∈ rest.map HostOp.emodt, op.page ≠ page := by
        intro op hop
        obtain ⟨other, hother, rfl⟩ := List.mem_map.mp hop
        exact fun hsame : other = page => hfirst (hsame ▸ hother)
      rw [List.map_cons, applyAll, List.foldl_cons]
      change TrimmedEntry (applyAll (rest.map .emodt) (HostOp.apply (.emodt page) epcm) page)
      rw [applyAll_of_not_mem hout, HostOp.apply]
      change TrimmedEntry (Function.update epcm page (HostOp.entry (.emodt page) (epcm page)) page)
      rw [Function.update_self, hentry, HostOp.entry, if_pos hsettled]
      exact ⟨_, rfl, rfl⟩
    · refine ih hrest ((List.mem_cons.mp hpage).resolve_left heq) ?_
      change SettledEntry (Function.update epcm first _ page)
      rwa [Function.update_of_ne heq]

theorem munmapGuest_returns (hhonest : host.Honest) (hnodup : list.Nodup)
    (h : ∀ page ∈ list, TrimmedEntry (enclave.epcm page)) :
    (munmapGuest host list : Shim ε Unit).Yields enclave (fun _ _ => True) fun _ _ => False := by
  induction list generalizing enclave with
  | nil => trivial
  | cons first rest ih =>
    obtain ⟨hfirst, hrest⟩ := List.nodup_cons.mp hnodup
    rw [List.forall_mem_cons] at h
    obtain ⟨⟨page, hpage, hinfo⟩, htrimmed⟩ := h
    have haccept : instruction host (accept first { access := {}, pageType := .trimmed, modified := true })
        (.attacked : Sgx.Stop ε) enclave = (.ok (), Enclave.tick { enclave with
          epcm := enclave.epcm.modify first fun entry =>
            { entry with info := { entry.info with pending := false, modified := false, restricted := false } } }) := by
      unfold instruction
      rw [hhonest.waits]
      simp [Enclave.hosted, statesDuring, applyAll, accept, hpage, hinfo]
    refine Exec.Yields.bind_of_ok haccept (ih hrest fun other hother => ?_)
    change TrimmedEntry (Function.update enclave.epcm first _ other)
    rw [Function.update_of_ne (by rintro rfl; exact hfirst hother)]
    exact htrimmed other hother

theorem sally_granted (hhonest : host.Honest) (hgrants : host.Grants) (request : Request) (enclave : Enclave) :
    sally host request enclave = (.ok (), (enclave.hosted (obligingHost.serve enclave.clock request)).tick) := by
  unfold sally
  rw [hgrants, hhonest.serves _ _ (hgrants _ _)]

theorem orAttacked_sally_granted (hhonest : host.Honest) (hgrants : host.Grants) (request : Request)
    (enclave : Enclave) : (orAttacked (sally host request) : Shim Errno Unit) enclave =
      (.ok (), (enclave.hosted (obligingHost.serve enclave.clock request)).tick) := by
  unfold orAttacked
  rw [sally_granted hhonest hgrants]

/-- With a host that grants everything, pages that are in use can be unmapped. -/
theorem munmapUnlocked_returns (hhonest : host.Honest) (hgrants : host.Grants) {length : Nat}
    (hlength : length < 2 ^ 64 - PAGE_SIZE)
    (hsettled : ∀ i < length, SettledEntry (enclave.epcm ((addr + i) / PAGE_SIZE))) :
    (munmapUnlocked host addr length).Yields enclave (fun _ _ => True) fun stop _ => ∃ errno, stop = .err errno := by
  have hroundUp : roundUp length = some ((length + PAGE_SIZE - 1) / PAGE_SIZE) := if_pos hlength
  have hspec := roundUp_spec hroundUp
  unfold munmapUnlocked
  rw [hroundUp]
  generalize (length + PAGE_SIZE - 1) / PAGE_SIZE = npages at *
  refine Exec.Yields.bind_of_ok rfl ?_
  by_cases hbad : addr % PAGE_SIZE ≠ 0 ∨ npages = 0
  · rw [if_pos hbad]
    exact ⟨_, rfl⟩
  rw [if_neg hbad]
  apply Exec.Yields.get_bind
  dsimp only
  by_cases hnone : (enclave.heap.contains (addr / PAGE_SIZE) npages).isNone
  · rw [if_pos hnone]
    trivial
  rw [if_neg hnone]
  have hpages : ∀ page ∈ pages (addr / PAGE_SIZE) npages, SettledEntry (enclave.epcm page) := by
    intro page hpage
    rw [mem_pages] at hpage
    have hbyte := hsettled (PAGE_SIZE * page - addr) (by unfold PAGE_SIZE at *; omega)
    rwa [show (addr + (PAGE_SIZE * page - addr)) / PAGE_SIZE = page by unfold PAGE_SIZE at *; omega] at hbyte
  cases hmunmap : enclave.heap.munmap (host.ledger.room enclave.clock) (host.ledger.kept enclave.clock)
      (addr / PAGE_SIZE) npages with
  | error error =>
    apply Exec.Yields.bind_of_ok (withHeap_apply (by rw [hmunmap]))
    exact ⟨_, rfl⟩
  | ok heap =>
    apply Exec.Yields.bind_of_ok (withHeap_apply (by rw [hmunmap]))
    refine Exec.Yields.bind_of_ok (orAttacked_sally_granted hhonest hgrants _ _) ?_
    refine ((munmapGuest_returns hhonest (nodup_pages _ _) fun page hpage => ?_).imp (fun _ _ => id)
      fun _ _ => False.elim).bind fun _ trimmed _ => ?_
    · exact applyAll_emodt (nodup_pages _ _) hpage (hpages page hpage)
    · unfold Exec.Yields
      rw [orAttacked_sally_granted hhonest hgrants]
      trivial

theorem sgx_mremap_returns (hhonest : host.Honest) (hgrants : host.Grants) {old oldSize newSize : Nat} (hold : old ≠ 0)
    (haligned : PAGE_SIZE ∣ old) (hlt : newSize < oldSize) (hfits : old + oldSize < 2 ^ 64)
    (hmapped : ∀ i < oldSize, (sgxByte enclave (old + i)).isSome) :
    ∃ reply after, sgxReply (mremap (sgxMremap host) old oldSize newSize (some ⟨none, false⟩) enclave) =
      some (reply, after) := by
  have hpage : PAGE_SIZE ≤ old := Nat.le_of_dvd (by omega) haligned
  have hreturns : (munmapUnlocked host (old + newSize) (oldSize - newSize)).Yields enclave (fun _ _ => True)
      fun stop _ => ∃ errno, stop = .err errno := by
    refine munmapUnlocked_returns hhonest hgrants (by unfold PAGE_SIZE at *; omega) fun i hi => ?_
    have hbyte := hmapped (newSize + i) (by omega)
    rw [← Nat.add_assoc] at hbyte
    exact settled_of_sgxByte hbyte
  rw [mremap, if_neg (by omega), if_pos ⟨hlt, rfl⟩, Exec.bind_of_ok (validateSlice_ok _ hold enclave)]
  have hignore : ((sgxMremap host).ignore ((sgxMremap host).munmap (old + newSize) (oldSize - newSize))).Yields enclave
      (fun _ _ => True) fun _ _ => False := by
    refine hreturns.tryCatch ?_
    rintro _ middle ⟨errno, rfl⟩
    trivial
  unfold Exec.Yields at hignore
  rcases hrun : (sgxMremap host).ignore ((sgxMremap host).munmap (old + newSize) (oldSize - newSize)) enclave with
    ⟨stop | value, after⟩
  · rw [hrun] at hignore
    exact hignore.elim
  · rw [Exec.bind_of_ok hrun]
    exact ⟨some old, after, rfl⟩

theorem sgx_mremap_refuses (host : Sgx.Host) {old oldSize newSize : Nat} (hold : old ≠ 0) (hpos : 0 < newSize) (hlt : oldSize < newSize)
    (dontunmap : Bool) (enclave : Enclave) :
    sgxReply (mremap (sgxMremap host) old oldSize newSize (some ⟨none, dontunmap⟩) enclave) = some (none, enclave) := by
  have hmmap : (sgxMremap host).mmap newSize PROT_ALL enclave = (.error (.err Sallyport.Libc.EACCES), enclave) := by
    change Sgx.mmap host none newSize PROT_ALL MAP_PRIVATE_ANONYMOUS (-1) 0 enclave = _
    rw [Sgx.mmap, if_neg (by simp; omega), if_pos (by decide)]
    rfl
  rw [mremap, if_neg (by omega), if_neg (by omega), if_pos hlt, Exec.bind_of_ok (validateSlice_ok _ hold enclave),
    Exec.bind_of_error hmmap]
  rfl

end

/-- On KVM `mremap` keeps the data unless the mapping shrinks to a size that is not a multiple of the page size.
On SGX it keeps the data if the mapping shrinks, and never if it grows. -/
theorem mremap_keeps_data_iff {old oldSize newSize : Nat} (dontunmap : Bool) (haligned : Kvm.SIZE_4_KIB ∣ old)
    (hold : old ≠ 0) (hpos : 0 < newSize ∧ 0 < oldSize) (hne : newSize ≠ oldSize)
    (hflags : newSize < oldSize → dontunmap = false) :
    (∀ (host : Kvm.Host) (fuel bottom : Nat) (stale : Set Nat) (own : Nat → Kvm.Owner) (memory : Kvm.Memory),
      memory.Owns host.cBit bottom stale own → Kvm.MappedRange host.cBit stale memory old oldSize →
      old + oldSize + Kvm.SIZE_4_KIB ≤ 2 ^ 47 → (oldSize < newSize → KvmGrants host fuel newSize memory) →
      ∃ reply after, kvmReply (mremap (kvmMremap host fuel) old oldSize newSize (some ⟨none, dontunmap⟩) memory) =
          some (reply, after) ∧
        (KeepsData (Kvm.Memory.byteAt host.cBit) memory old oldSize newSize dontunmap reply after ↔
          (newSize < oldSize → Kvm.SIZE_4_KIB ∣ newSize))) ∧
    ∀ (host : Sgx.Host) (enclave : Sgx.Enclave), host.Honest → old + oldSize < 2 ^ 64 →
      (∀ i < oldSize, (sgxByte enclave (old + i)).isSome) →
      (host.Grants → ∃ reply after, sgxReply (mremap (sgxMremap host) old oldSize newSize (some ⟨none, dontunmap⟩)
        enclave) = some (reply, after)) ∧
      ∀ reply after, sgxReply (mremap (sgxMremap host) old oldSize newSize (some ⟨none, dontunmap⟩) enclave) =
          some (reply, after) →
        (KeepsData sgxByte enclave old oldSize newSize dontunmap reply after ↔ newSize < oldSize) := by
  constructor
  · intro host fuel bottom stale own memory h hmapped hlow hgrants
    by_cases hlt : newSize < oldSize
    · obtain rfl := hflags hlt
      obtain ⟨after, hrun, hiff⟩ := kvm_mremap_shrinks fuel h hmapped haligned hold hlow hpos.1 hlt
      refine ⟨some old, after, by rw [hrun]; rfl, hiff.trans ?_⟩
      exact ⟨fun hdvd _ => hdvd, fun hdvd => hdvd hlt⟩
    · have hgt : oldSize < newSize := by omega
      obtain ⟨new, after, hrun, hkeeps⟩ :=
        kvm_mremap_grows h hmapped haligned hold hlow hpos.2 hgt (hgrants hgt) dontunmap
      exact ⟨some new, after, by rw [hrun]; rfl, fun _ hshrinks => absurd hshrinks hlt, fun _ => hkeeps⟩
  · intro host enclave hhonest hfits hmapped
    by_cases hlt : newSize < oldSize
    · obtain rfl := hflags hlt
      refine ⟨fun hgrants => sgx_mremap_returns hhonest hgrants hold haligned hlt hfits hmapped, ?_⟩
      exact fun reply after hreply => ⟨fun _ => hlt, fun _ => sgx_mremap_shrinks hhonest hold hlt hmapped hreply⟩
    · have hrefused := sgx_mremap_refuses host hold hpos.1 (by omega : oldSize < newSize) dontunmap enclave
      refine ⟨fun _ => ⟨_, _, hrefused⟩, fun reply after hreply => ⟨fun hkeeps => ?_, fun h => absurd h hlt⟩⟩
      rw [hrefused] at hreply
      cases hreply
      rw [KeepsData, if_neg hlt] at hkeeps
      obtain ⟨new, hnone, -⟩ := hkeeps
      cases hnone

def kvmMapped (size : Nat) : Kvm.Memory := (Kvm.mmap Kvm.smallHost 3 none size 3 Kvm.PA (-1) 0 Kvm.smallMemory).2

def sgxMapped (size : Nat) : Sgx.Enclave :=
  (Sgx.mmap Sgx.obligingHost none size 3 Sgx.MAP_PRIVATE_ANONYMOUS (-1) 0 Sgx.emptyEnclave).2

theorem kvmMapped_mapped {size result : Nat} (hsize : size ≤ 0x10000)
    (h : (Kvm.mmap Kvm.smallHost 3 none size 3 Kvm.PA (-1) 0 Kvm.smallMemory).1 = .ok result) :
    ∃ own, (kvmMapped size).Owns Kvm.smallHost.cBit 4 ∅ own ∧
      Kvm.MappedRange Kvm.smallHost.cBit ∅ (kvmMapped size) 0x7f0000000000 size := by
  obtain ⟨-, hmoves⟩ := (Kvm.mmap_moves Kvm.smallMemory_owns 3 none size 3 Kvm.PA (-1) 0).ok (Prod.ext h rfl)
  obtain ⟨larger, hle, hrange⟩ := mmappedRange_of_moves Kvm.smallMemory_owns hmoves (by
    change 0x7f0000000000 + size + 4096 ≤ 2 ^ 47
    omega)
  obtain ⟨own, howns⟩ := hrange.owns
  exact ⟨own, howns, hrange.mapped.sub le_rfl (Nat.add_le_add_left hle _)⟩

theorem sgxMapped_mapped : ∀ i < 0x2000, (sgxByte (sgxMapped 0x2000) (0x1e000 + i)).isSome := by
  intro i hi
  have hpage : (0x1e000 + i) / Sgx.PAGE_SIZE = 30 ∨ (0x1e000 + i) / Sgx.PAGE_SIZE = 31 := by
    unfold Sgx.PAGE_SIZE
    omega
  unfold sgxByte
  obtain hpage | hpage := hpage <;> rw [hpage] <;> rfl

theorem mremap_keeps_data_half :
    (∃ reply after, kvmReply (mremap (kvmMremap Kvm.smallHost 3) 0x7f0000000000 0x2000 0x1000 (some ⟨none, false⟩)
        (kvmMapped 0x2000)) = some (reply, after) ∧
      KeepsData (Kvm.Memory.byteAt Kvm.smallHost.cBit) (kvmMapped 0x2000) 0x7f0000000000 0x2000 0x1000 false reply after) ∧
    ∃ reply after, sgxReply (mremap (sgxMremap Sgx.obligingHost) 0x1e000 0x2000 0x1000 (some ⟨none, false⟩)
        (sgxMapped 0x2000)) = some (reply, after) ∧
      KeepsData sgxByte (sgxMapped 0x2000) 0x1e000 0x2000 0x1000 false reply after := by
  constructor
  · have hmmap : (Kvm.mmap Kvm.smallHost 3 none 0x2000 3 Kvm.PA (-1) 0 Kvm.smallMemory).1 = .ok 0x7f0000000000 := by
      decide +kernel
    obtain ⟨own, howns, hmapped⟩ := kvmMapped_mapped (by decide) hmmap
    obtain ⟨reply, after, hreply, hiff⟩ := (mremap_keeps_data_iff false (show Kvm.SIZE_4_KIB ∣ 0x7f0000000000 by decide)
      (by decide) (show 0 < 0x1000 ∧ 0 < 0x2000 by decide) (by decide) (fun _ => rfl)).1 _ 3 4 ∅ own _ howns hmapped
      (by decide) (fun hlt => absurd hlt (by decide))
    exact ⟨reply, after, hreply, hiff.mpr fun _ => by decide⟩
  · obtain ⟨hreturns, hkeeps⟩ := (mremap_keeps_data_iff false (show Kvm.SIZE_4_KIB ∣ 0x1e000 by decide) (by decide)
      (show 0 < 0x1000 ∧ 0 < 0x2000 by decide) (by decide) (fun _ => rfl)).2 Sgx.obligingHost (sgxMapped 0x2000)
      Sgx.obligingHost_honest (by decide) sgxMapped_mapped
    obtain ⟨reply, after, hreply⟩ := hreturns fun _ _ => rfl
    exact ⟨reply, after, hreply, (hkeeps reply after hreply).mpr (by decide)⟩

/-- On KVM a page of which one byte should be left is unmapped. On SGX a second page is refused, with room for it. -/
theorem mremap_loses_data : ((kvmMapped 0x1000).byteAt Kvm.smallHost.cBit 0x7f0000000000 = some 0 ∧
      ∃ after, kvmReply (mremap (kvmMremap Kvm.smallHost 3) 0x7f0000000000 0x1000 1 (some ⟨none, false⟩) (kvmMapped 0x1000)) =
          some (some 0x7f0000000000, after) ∧
        ¬KeepsData (Kvm.Memory.byteAt Kvm.smallHost.cBit) (kvmMapped 0x1000) 0x7f0000000000 0x1000 1 false
          (some 0x7f0000000000) after) ∧
    (Sgx.mmap Sgx.obligingHost none 0x2000 3 Sgx.MAP_PRIVATE_ANONYMOUS (-1) 0 (sgxMapped 0x1000)).1 = .ok 0x1d000 ∧
      ∃ after, sgxReply (mremap (sgxMremap Sgx.obligingHost) 0x1f000 0x1000 0x2000 (some ⟨none, false⟩) (sgxMapped 0x1000)) =
          some (none, after) ∧
        ¬KeepsData sgxByte (sgxMapped 0x1000) 0x1f000 0x1000 0x2000 false none after := by
  have hkvm : (kvmReply (mremap (kvmMremap Kvm.smallHost 3) 0x7f0000000000 0x1000 1 (some ⟨none, false⟩)
      (kvmMapped 0x1000))).map (fun result => (result.1, result.2.byteAt Kvm.smallHost.cBit 0x7f0000000000)) =
      some (some 0x7f0000000000, none) := by
    decide +kernel
  have hsgx : (sgxReply (mremap (sgxMremap Sgx.obligingHost) 0x1f000 0x1000 0x2000 (some ⟨none, false⟩)
      (sgxMapped 0x1000))).map Prod.fst = some none := by
    decide +kernel
  obtain ⟨⟨reply, after⟩, hreply, heq⟩ := Option.map_eq_some_iff.mp hkvm
  obtain ⟨⟨reply', after'⟩, hreply', heq'⟩ := Option.map_eq_some_iff.mp hsgx
  obtain ⟨rfl, hgone⟩ := Prod.mk.inj heq
  obtain rfl : reply' = none := heq'
  refine ⟨⟨by decide +kernel, after, hreply, fun hkeeps => ?_⟩, by decide +kernel, after', hreply', fun hkeeps => ?_⟩
  · have hsome := (hkeeps.2 0 (by decide)).1
    rw [Nat.add_zero, hgone] at hsome
    cases hsome
  · obtain ⟨new, hnone, -⟩ := hkeeps
    cases hnone

end Enarx.Shims
