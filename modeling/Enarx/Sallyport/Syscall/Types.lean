import Enarx.Sallyport.Alloc

/-!
# Types shared by the calls

Argument vectors, return words, socket addresses and options, and the collection
of calls that return a count.
-/
namespace Enarx.Sallyport

open Libc

/-- `From<Argv<N>> for [usize; M]`: unused arguments are `NULL`. -/
def argvInto (count : Nat) (argv : List Word) : List Word :=
  argv ++ List.replicate (count - argv.length) NULL

def ERRNO_START : Nat := 2 ^ 64 - 1 - 4096

def errnoOf (word : Word) : Errno := -(usizeAsInt word)

def decodeUnit (ret : Word) : Except Errno Unit :=
  if ERRNO_START ≤ ret.toNat then .error (errnoOf ret) else .ok ()

def decodeInt (ret : Word) : Except Errno CInt :=
  if ERRNO_START ≤ ret.toNat then .error (errnoOf ret)
  else if ret.toNat ≤ 2 ^ 31 - 1 then .ok (usizeAsInt ret)
  else .error EOVERFLOW

def decodeSize (ret : Word) : Except Errno Nat :=
  if ERRNO_START ≤ ret.toNat then .error (errnoOf ret) else .ok ret.toNat

def decodeByte (ret : Word) : Except Errno Byte :=
  if ERRNO_START ≤ ret.toNat then .error (errnoOf ret)
  else if ret.toNat ≤ 255 then .ok (ret.setWidth 8)
  else .error EOVERFLOW

/-- `NULL` means that there is no byte, although it lies in the range of error numbers. -/
def decodeOptionByte (ret : Word) : Except Errno (Option Byte) :=
  if ret = NULL then .ok none
  else if ERRNO_START ≤ ret.toNat then .error (errnoOf ret)
  else if ret.toNat ≤ 255 then .ok (some (ret.setWidth 8))
  else .error EOVERFLOW

class Count (ρ : Type) where
  count : ρ → Nat

instance : Count Nat := ⟨id⟩

instance : Count CInt := ⟨fun ret => (intAsUsize ret).toNat⟩

/-- A count larger than what was staged is an attack, reported as `none`. -/
def collectCount [Count ρ] (buf : Output T) : Except Errno ρ → CollectM (Option (Except Errno ρ))
  | .ok ret =>
    if h : buf.val.len < Count.count ret then
      pure none
    else do
      buf.collectRange (Count.count ret) (Nat.not_lt.mp h)
      return some (.ok ret)
  | .error errno => pure (some (.error errno))

section

variable [Count ρ] {buf : Output T} {ret : ρ}

theorem collectCount_large (h : buf.val.len < Count.count ret) : collectCount buf (.ok ret) = pure none := dif_pos h

theorem collectCount_ok (h : ¬buf.val.len < Count.count ret) : collectCount buf (.ok ret) = (do
    buf.collectRange (Count.count ret) (Nat.not_lt.mp h)
    return some (.ok ret)) := dif_neg h

end

/-- The same for a call that only sends: `len` elements were staged. -/
def checkCount [Count ρ] (len : Nat) : Except Errno ρ → CollectM (Option (Except Errno ρ))
  | .ok ret => pure (if len < Count.count ret then none else some (.ok ret))
  | .error errno => pure (some (.error errno))

def collectOk (res : Output T) : Except Errno ρ → CollectM (Except Errno ρ)
  | .ok ret => do
    let _ ← res.collect
    return .ok ret
  | .error errno => pure (.error errno)

def sockaddrBytes : Layout := ⟨1, sockaddrStorage.align, sockaddrStorage.align_pow⟩

def sockoptBytes : Layout := ⟨1, usizeLayout.align, usizeLayout.align_pow⟩

abbrev SockaddrInput := Slice sockaddrBytes

def SockaddrInput.stage (addr : SockaddrInput) : StageM (Input sockaddrBytes) :=
  Input.stageSlice addr

abbrev SockoptInput := Slice sockoptBytes

def SockoptInput.stage (opt : SockoptInput) : StageM (Input sockoptBytes) :=
  Input.stageSlice opt

structure SockaddrOutput where
  addr : Slice sockaddrBytes
  addrlen : Ref socklen

structure StagedSockaddrOutput where
  addr : Output sockaddrBytes
  addrlen : InOut socklen

structure CommittedSockaddrOutput where
  addr : Output sockaddrBytes
  addrlen : Output socklen

def SockaddrOutput.stage (self : SockaddrOutput) : StageM StagedSockaddrOutput := do
  let addr ← Output.stageSlice self.addr
  let addrlen ← InOut.stage self.addrlen
  return { addr, addrlen }

def StagedSockaddrOutput.commit (self : StagedSockaddrOutput) :
    CommitM CommittedSockaddrOutput := do
  return { addr := self.addr, addrlen := ← self.addrlen.commit }

def CommittedSockaddrOutput.collect (self : CommittedSockaddrOutput) : CollectM Unit := do
  let addrlen := leNat (← self.addrlen.collect)
  self.addr.collectRange (min self.addr.val.len addrlen) (Nat.min_le_left _ _)

def stageOption (stage : α → StageM β) : Option α → StageM (Option β)
  | none => pure none
  | some value => do return some (← stage value)

def commitOption (commit : α → CommitM β) : Option α → CommitM (Option β)
  | none => pure none
  | some value => do return some (← commit value)

def collectOption (collect : α → CollectM β) : Option α → CollectM Unit
  | none => pure ()
  | some value => do
    let _ ← collect value

end Enarx.Sallyport
