import Enarx.Control
import Enarx.Sgx.Epcm

/-!
# `brk`, `mmap`, `mprotect` and `munmap` in the SGX shim

The calls that the shim answers with its heap. The host answers requests as it
likes and may change the pages of the enclave at every exit and before every
instruction of the enclave.
-/
namespace Enarx.Sgx

open Sallyport (CInt Errno)
open Sallyport.Libc (EACCES EINVAL ENOMEM ENOTSUP)

def PAGE_SIZE : Nat := 4096

def MAP_PRIVATE_ANONYMOUS : CInt := 0x22

inductive Request where
  | mmapHost (addr length : Nat) (prot : CInt)
  | mprotectHost (addr length : Nat) (prot : CInt)
  | munmapHost (addr length : Nat)
  | trimSgxPages (addr length : Nat)
  deriving DecidableEq, Repr

/-- What the enclave runs on; everything depends on how much has happened before. -/
structure Host where
  answer : Nat → Request → Except Errno Unit
  serve : Nat → Request → List HostOp
  /-- What the host does before an instruction of the enclave. -/
  between : Nat → List HostOp
  ledger : Mmledger

structure Snapshot where
  heap : Heap
  epcm : Epcm

/-- The enclave, with the states that it has been in. The shim does not look at them. -/
structure Enclave where
  heap : Heap
  epcm : Epcm
  clock : Nat
  seen : List Snapshot

inductive Stop (ε : Type) where
  | err (error : ε)
  | panic
  /-- The shim keeps trying to exit. -/
  | attacked
  deriving DecidableEq, Repr

abbrev Shim (ε α : Type) := Exec (Stop ε) Enclave α

def applyAll (ops : List HostOp) (epcm : Epcm) : Epcm := ops.foldl (fun epcm op => op.apply epcm) epcm

/-- The states while the host carries out its instructions. -/
def statesDuring : List HostOp → Snapshot → List Snapshot
  | [], _ => []
  | op :: ops, state =>
    let next := { state with epcm := op.apply state.epcm }
    next :: statesDuring ops next

namespace Enclave

def snapshot (enclave : Enclave) : Snapshot := ⟨enclave.heap, enclave.epcm⟩

def hosted (ops : List HostOp) (enclave : Enclave) : Enclave := { enclave with
  epcm := applyAll ops enclave.epcm
  seen := statesDuring ops enclave.snapshot ++ enclave.seen }

def tick (enclave : Enclave) : Enclave := { enclave with
  clock := enclave.clock + 1
  seen := enclave.snapshot :: enclave.seen }

end Enclave

section

variable (host : Host)

def sally (request : Request) : Shim Errno Unit := fun enclave =>
  let after := (enclave.hosted (host.serve enclave.clock request)).tick
  match host.answer enclave.clock request with
  | .ok () => (.ok (), after)
  | .error errno => (.error (.err errno), after)

/-- An instruction of the enclave; `none` is an error or a fault. -/
def instruction (run : Epcm → Option Epcm) (failed : Stop ε) : Shim ε Unit := fun enclave =>
  let enclave := enclave.hosted (host.between enclave.clock)
  match run enclave.epcm with
  | some epcm => (.ok (), Enclave.tick { enclave with epcm })
  | none => (.error failed, enclave.tick)

def orAttacked (run : Shim Errno Unit) : Shim ε Unit := fun enclave =>
  match run enclave with
  | (.ok (), after) => (.ok (), after)
  | (.error .panic, after) => (.error .panic, after)
  | (.error _, after) => (.error .attacked, after)

/-- An edit of the heap, which is given the time. -/
def withHeap (edit : Nat → Heap → α × Heap) : Shim ε α := fun enclave =>
  let (result, heap) := edit enclave.clock enclave.heap
  (.ok result, Enclave.tick { enclave with heap })

def orPanic (value : Option α) : Shim ε α :=
  match value with
  | some value => pure value
  | none => throw .panic

def roundUp (length : Nat) : Option Nat :=
  if length < 2 ^ 64 - PAGE_SIZE then some ((length + PAGE_SIZE - 1) / PAGE_SIZE) else none

def isProtAllowed (prot : CInt) : Bool :=
  prot = PROT_READ ∨ prot = PROT_READ ||| PROT_WRITE ∨ prot = PROT_READ ||| PROT_EXEC

/-- `mmap_guest`: the pages that the host has added are filled with zeros. -/
def mmapGuest (prot : CInt) : List Nat → Shim ε Unit
  | [] => pure ()
  | page :: rest => do
    instruction host (acceptCopy page (.ofProt prot) fun _ => 0) .attacked
    mmapGuest prot rest

/-- The loop of `mprotect_unlocked`: the restriction is accepted and the rights are extended. -/
def mprotectGuest (prot : CInt) : List Nat → Shim ε Unit
  | [] => pure ()
  | page :: rest => do
    instruction host
      (accept page { access := { read := true }, pageType := .regular, restricted := true }) .attacked
    instruction host (extend page (.ofProt prot)) .panic
    mprotectGuest prot rest

def mprotectUnlocked (addrIn lengthIn : Nat) (prot : CInt) : Shim Errno Unit := do
  let length ← orPanic (roundUp lengthIn)
  if addrIn % PAGE_SIZE ≠ 0 ∨ length = 0 then
    throw (.err EINVAL)
  else if !isProtAllowed prot then
    throw (.err EACCES)
  else
    let addr := addrIn / PAGE_SIZE
    if ((← get).heap.contains addr length).isNone then
      throw (.err ENOMEM)
    sally host (.mprotectHost addr length prot)
    mprotectGuest host prot (pages addr length)
    -- what comes of the new record is not looked at
    withHeap fun clock heap =>
      match heap.mmap (host.ledger.room clock) (some addr) length (host.ledger.ofProt prot) with
      | some (_, heap) => ((), heap)
      | none => ((), heap)

def munmapGuest : List Nat → Shim ε Unit
  | [] => pure ()
  | page :: rest => do
    instruction host (accept page { access := {}, pageType := .trimmed, modified := true }) .attacked
    munmapGuest rest

def munmapUnlocked (addrIn lengthIn : Nat) : Shim Errno Unit := do
  let length ← orPanic (roundUp lengthIn)
  if addrIn % PAGE_SIZE ≠ 0 ∨ length = 0 then
    throw (.err EINVAL)
  else
    let addr := addrIn / PAGE_SIZE
    if ((← get).heap.contains addr length).isNone then
      return
    let released ← withHeap fun clock heap =>
      match heap.munmap (host.ledger.room clock) (host.ledger.kept clock) addr length with
      | .ok heap => (true, heap)
      | .error _ => (false, heap)
    if !released then
      throw (.err ENOMEM)
    orAttacked (sally host (.trimSgxPages addr length))
    munmapGuest host (pages addr length)
    orAttacked (sally host (.munmapHost addr length))

def brkNext : Option Nat → Option Nat
  | none => some 0
  | some addr => roundUp addr

def brk (addr : Option Nat) : Shim Errno Nat := do
  let next ← orPanic (brkNext addr)
  let max := (← get).heap.brkMax
  let addr ← withHeap fun clock heap => heap.brk host.ledger.toAccessBits (host.ledger.room clock) next
  if max < addr then
    sally host (.mmapHost max (addr - max) (PROT_READ ||| PROT_WRITE))
    mmapGuest host (PROT_READ ||| PROT_WRITE) (pages max (addr - max))
  orPanic (if addr = 0 then none else some (PAGE_SIZE * addr))

def mprotect (addr length : Nat) (prot : CInt) : Shim Errno Unit := mprotectUnlocked host addr length prot

def mmap (addr : Option Nat) (len : Nat) (prot flags fd : CInt) (offset : BitVec 64) : Shim Errno Nat := do
  let prot := prot ||| PROT_READ
  if addr ≠ none ∨ len = 0 ∨ fd ≠ -1 ∨ offset ≠ 0 ∨ flags ≠ MAP_PRIVATE_ANONYMOUS then
    throw (.err ENOTSUP)
  else if prot ≠ 0 ∧ !isProtAllowed prot then
    throw (.err EACCES)
  else
    let length ← orPanic (roundUp len)
    let reserved ← withHeap fun clock heap =>
      match heap.mmap (host.ledger.room clock) none length (host.ledger.ofProt prot) with
      | some (addr, heap) => (some addr, heap)
      | none => (none, heap)
    match reserved with
    | none => throw (.err ENOMEM)
    | some addr =>
      let ret ← orPanic (if addr = 0 then none else some (PAGE_SIZE * addr))
      sally host (.mmapHost addr length (PROT_READ ||| PROT_WRITE))
      mmapGuest host prot (pages addr length)
      -- the memory of the host is mapped for reading and writing already
      if prot ≠ PROT_READ ||| PROT_WRITE then
        tryCatch (mprotectUnlocked host ret (PAGE_SIZE * length) prot) fun
          | .err errno => do
            munmapUnlocked host ret (PAGE_SIZE * length)
            throw (.err errno)
          | stop => throw stop
      return ret

def munmap (addr length : Nat) : Shim Errno Unit := munmapUnlocked host addr length

end

def sampleLedger : Mmledger := ⟨⟨1, 2, 4⟩, fun _ => true, fun _ _ => true⟩

def obligingHost : Host where
  answer _ _ := .ok ()
  serve _
    | .mmapHost addr length _ => (pages addr length).map .eaug
    | .mprotectHost addr length _ => (pages addr length).map (.emodpr · { read := true })
    | .munmapHost addr length => (pages addr length).map .eremove
    | .trimSgxPages addr length => (pages addr length).map .emodt
  between _ := []
  ledger := sampleLedger

end Enarx.Sgx
