import Enarx.Kvm.Allocator
import Enarx.Kvm.Boot
import Enarx.Sallyport.Libc

/-!
# `brk`, `mmap` and `munmap` in the KVM shim

The calls that the shim answers with its own allocator, and sequences of them from
the moment on at which the shim starts the workload.
-/
namespace Enarx.Kvm

open Alloc
open Sallyport (CInt Errno)
open Sallyport.Libc (EINVAL ENOMEM)

def PROT_WRITE : CInt := 2
def PROT_EXEC : CInt := 4

def PA : CInt := 0x22

def USER_TABLE_FLAGS : PageTableFlags := { present := true, writable := true, userAccessible := true }

def alignUp (addr : Nat) : Option Nat :=
  if addr % SIZE_4_KIB = 0 then some addr
  else
    let aligned := (addr / SIZE_4_KIB + 1) * SIZE_4_KIB
    if aligned < 2 ^ 64 then some aligned else none

def brk (host : Host) (fuel : Nat) (addr : Option Nat) : Alloc Errno Nat := do
  let memory ← get
  let brkEnd := memory.brkEnd.raw
  match addr with
  | none => return brkEnd
  | some addr =>
    -- out of range
    if addr < memory.brkStart.raw then
      throw (.err EINVAL)
    -- below the last mapped page
    else if addr < (← unwrap (if SIZE_4_KIB ≤ brkEnd then some (brkEnd - SIZE_4_KIB) else none)) then
      let aligned ← unwrap (alignUp addr)
      let len := (← unwrap (memory.brkEnd.sub aligned)).raw
      let start ← unwrap (VirtAddr.new aligned)
      match ← attempt (unmapMemory host.cBit start len) with
      | .ok () => pure ()
      | .error _ => throw .panic
      modify fun memory => { memory with brkEnd := start }
      return addr
    -- inside the last mapped page
    else if addr < brkEnd then
      return addr
    -- above the last mapped page
    else
      let aligned ← unwrap (alignUp addr)
      let len := aligned - brkEnd
      mapErr (fun _ => ENOMEM)
        (allocateAndMapMemory host USER_TABLE_FLAGS USER_TABLE_FLAGS fuel memory.brkEnd len)
      let newEnd ← unwrap (VirtAddr.new aligned)
      modify fun memory => { memory with brkEnd := newEnd }
      return addr

/-- `mmap`, which serves private anonymous memory and nothing else. -/
def mmap (host : Host) (fuel : Nat) (addr : Option Nat) (length : Nat) (prot flags fd : CInt)
    (offset : BitVec 64) : Alloc Errno Nat := do
  if addr = none ∧ flags = PA ∧ fd = -1 ∧ offset = 0 then
    let pageFlags : PageTableFlags :=
      { present := true
        userAccessible := true
        writable := prot &&& PROT_WRITE ≠ 0
        noExecute := prot &&& PROT_EXEC = 0 }
    let virtAddr := (← get).nextMmap
    let lenAligned ← unwrap (alignUp length)
    mapErr (fun _ => ENOMEM)
      (allocateAndMapMemory host pageFlags USER_TABLE_FLAGS fuel virtAddr lenAligned)
    let next ← unwrap (virtAddr.add lenAligned)
    modify fun memory => { memory with nextMmap := next }
    return virtAddr.raw
  else
    -- `unimplemented!()`
    throw .panic

/-- `munmap`; the address is not null, and `validate_slice` accepts every other one. -/
def munmap (host : Host) (addr length : Nat) : Alloc Errno Unit := do
  let virtAddr ← unwrap (VirtAddr.new addr)
  let _ ← attempt (unmapMemory host.cBit virtAddr length)

def fullMachine : Host where
  cBit := ⟨0, .inl rfl⟩
  snpActive := false
  balloonMemory _ := false
  pvalidate _ _ := true
  heap := ⟨fun _ _ => none, nofun⟩

end Enarx.Kvm
