import Enarx.Sallyport.Syscall.Types

/-!
# Validation of workload pointers

A platform decides which pointers of the workload are acceptable. The compound
checks for strings, I/O vectors and socket addresses are built on its four
primitive ones.
-/
namespace Enarx.Sallyport

open Libc

/-- The primitive checks, for a value and for `count` values of a type. A null
pointer is refused with `EINVAL`. -/
structure Platform where
  check : (T : Layout) → (writable : Bool) → (ptr : Word) → Except Errno Unit
  checkSlice : (T : Layout) → (writable : Bool) → (ptr count : Word) → Except Errno Unit
  check_null : ∀ T writable, check T writable 0 = .error EINVAL

def isAlignedNonNull (T : Layout) (ptr : Word) : Except Errno Unit :=
  if ptr = 0 ∨ ptr.toNat % T.align ≠ 0 then .error EINVAL else .ok ()

/-- `UserMemScope` of both shims: alignment is all that is checked. -/
def userMemScope : Platform where
  check T _ ptr := isAlignedNonNull T ptr
  checkSlice T _ ptr _ := isAlignedNonNull T ptr
  check_null _ _ := if_pos (.inl rfl)

namespace Platform

variable (platform : Platform) (mem : Mem)

def validateMut (T : Layout) (ptr : Word) : Except Abort (Ref T) := do
  orAbort (platform.check T true ptr)
  return ⟨ptr.toNat⟩

def validate (T : Layout) (ptr : Word) : Except Abort (Ref T) := do
  orAbort (platform.check T false ptr)
  return ⟨ptr.toNat⟩

def validateSliceMut (T : Layout) (ptr count : Word) : Except Abort (Slice T) := do
  orAbort (platform.checkSlice T true ptr count)
  return ⟨ptr.toNat, count.toNat⟩

def validateSlice (T : Layout) (ptr count : Word) : Except Abort (Slice T) := do
  orAbort (platform.checkSlice T false ptr count)
  return ⟨ptr.toNat, count.toNat⟩

def iovecAt (addr : Nat) : Word × Word :=
  (wordOfBytes (mem.read addr 8), wordOfBytes (mem.read (addr + 8) 8))

def validateIovecs (writable : Bool) : (count addr : Nat) → Except Abort (List Span)
  | 0, _ => .ok []
  | count + 1, addr => do
    let (base, len) := iovecAt mem addr
    orAbort (platform.checkSlice .u8 writable base len)
    let rest ← validateIovecs writable count (addr + 16)
    return ⟨base.toNat, len.toNat⟩ :: rest

def validateIovecSliceMut (iov iovcnt : Word) : Except Abort (List Span) := do
  orAbort (platform.checkSlice iovec false iov iovcnt)
  platform.validateIovecs mem true iovcnt.toNat iov.toNat

def validateIovecSlice (iov iovcnt : Word) : Except Abort (List Span) := do
  orAbort (platform.checkSlice iovec false iov iovcnt)
  platform.validateIovecs mem false iovcnt.toNat iov.toNat

/-- The address behind the terminator of the string that goes on at `ptr`, which can be incremented
`left` times. -/
def scanStr : (left ptr : Nat) → Except Abort Nat
  | 0, ptr => do
    orAbort (platform.check .u8 false (usize ptr))
    throw .panic
  | left + 1, ptr => do
    orAbort (platform.check .u8 false (usize ptr))
    if mem ptr = 0 then return ptr + 1 else scanStr left (ptr + 1)

def validateStr (ptr : Word) : Except Abort (Slice .u8) := do
  let finish ← platform.scanStr mem (2 ^ 64 - 1 - ptr.toNat) ptr.toNat
  return ⟨ptr.toNat, finish - ptr.toNat⟩

def validateSockaddrOutput (addr addrlen : Word) : Except Abort SockaddrOutput := do
  let addrlen ← platform.validateMut socklen addrlen
  let len := usize (leNat (mem.read addrlen.addr 4))
  -- a `&mut [u8]`; its alignment in the block is that of an address
  orAbort (platform.checkSlice .u8 true addr len)
  return { addr := ⟨addr.toNat, len.toNat⟩, addrlen }

def validateSockaddrInput (addr addrlen : Word) : Except Abort SockaddrInput := do
  orAbort (platform.checkSlice .u8 false addr addrlen)
  return ⟨addr.toNat, addrlen.toNat⟩

def validateSockoptInput (optval optlen : Word) : Except Abort SockoptInput := do
  orAbort (platform.checkSlice .u8 false optval optlen)
  return ⟨optval.toNat, optlen.toNat⟩

def orNone (ptr : Word) (validated : Except Abort α) : Except Abort (Option α) :=
  if ptr = 0 then .ok none else some <$> validated

end Platform

end Enarx.Sallyport
