import Enarx.Control
import Enarx.Sallyport.Libc

/-!
# The phase allocator

Staging hands out regions of the block from the front, committing copies input
into them, and collecting copies output back. Block addresses and addresses of
the workload are kept apart: the stores of a commit go to the block, the stores
of a collection go to the workload.
-/
namespace Enarx.Sallyport

open Libc

structure Slice (T : Layout) where
  addr : Nat
  len : Nat
  deriving DecidableEq, Repr

namespace Slice

def span (slice : Slice T) : Span := ⟨slice.addr, T.size * slice.len⟩

def splitAt (slice : Slice T) (mid : Nat) : Slice T × Slice T :=
  (⟨slice.addr, mid⟩, ⟨slice.addr + T.size * mid, slice.len - mid⟩)

end Slice

/-- The first `capacity` bytes of a list of byte slices: the `map_while` of `readv`
and `writev`. -/
def takeSpans : Nat → List Span → List Span
  | _, [] => []
  | capacity, span :: rest =>
    if capacity = 0 then []
    else if span.len ≤ capacity then span :: takeSpans (capacity - span.len) rest
    else [⟨span.addr, capacity⟩]

structure Ref (T : Layout) where
  addr : Nat
  deriving DecidableEq, Repr

def Ref.slice (ref : Ref T) : Slice T := ⟨ref.addr, 1⟩

/-- `Alloc<Stage>`: the free memory and the offset of its start. -/
structure Alloc where
  ptr : Nat
  len : Nat
  offset : Nat
  deriving DecidableEq, Repr

inductive Abort where
  | err (errno : Errno)
  | panic
  deriving DecidableEq, Repr

def orAbort (result : Except Errno α) : Except Abort α := result.mapError .err

@[simp] theorem orAbort_eq_ok {result : Except Errno α} {value : α} :
    orAbort result = .ok value ↔ result = .ok value := by
  cases result <;> simp [orAbort, Except.mapError]

/-- The sum of the lengths; the addition is checked. -/
def iovLen (iovs : List Span) : Except Abort Nat :=
  if (iovs.map Span.len).sum < 2 ^ 64 then .ok (iovs.map Span.len).sum else .error .panic

abbrev StageM := Exec Abort Alloc

structure Region where
  ptr : Nat
  offset : Nat
  deriving DecidableEq, Repr

def allocateLayout (layout : Layout) : StageM Region := fun alloc =>
  let padSize := alignOffset alloc.ptr layout.align
  if 2 ^ 64 ≤ padSize + layout.size then
    (.error (.err EOVERFLOW), alloc)
  else if alloc.len < padSize + layout.size then
    (.error (.err ENOMEM), alloc)
  else
    (.ok ⟨alloc.ptr + padSize, alloc.offset + padSize⟩,
      ⟨alloc.ptr + padSize + layout.size, alloc.len - (padSize + layout.size),
        alloc.offset + padSize + layout.size⟩)

/-- Run `f` with room for `layout` kept aside, then allocate `layout`. An error
leaves the allocator as it was. -/
def reserveLayout (layout : Layout) (f : StageM α) : StageM (α × Region) := fun self =>
  if self.len < layout.size then
    (.error (.err ENOMEM), self)
  else
    let free := self.len - layout.size
    -- `align_offset` goes to the next aligned address
    let padSize := alignOffset (self.ptr + free) layout.align % layout.align
    if free < padSize then
      (.error (.err ENOMEM), self)
    else
      match f { self with len := free - padSize } with
      | (.error abort, _) => (.error abort, self)
      | (.ok data, alloc) =>
        match allocateLayout layout { alloc with len := alloc.len + padSize + layout.size } with
        | (.error abort, _) => (.error abort, self)
        | (.ok region, alloc) => (.ok (data, region), alloc)

/-- Run `f` with offsets that start at zero; returns the bytes it used as well. -/
def «section» (f : StageM α) : StageM (α × Nat) := fun self =>
  match f { self with offset := 0 } with
  | (.error abort, _) => (.error abort, self)
  | (.ok data, alloc) =>
    (.ok (data, alloc.offset), { alloc with offset := self.offset + alloc.offset })

def Alloc.free (T : Layout) (alloc : Alloc) : Nat :=
  let padSize := alignOffset alloc.ptr T.align
  if alloc.len < padSize then 0 else (alloc.len - padSize) / T.size

/-- `Layout::array`, which fails beyond `isize::MAX`. -/
def arrayLayout (T : Layout) (len : Nat) : Except Abort Layout :=
  if 2 ^ 63 - 1 - (T.align - 1) < T.size * len then .error (.err EOVERFLOW) else .ok (T.array len)

/-- `InRef`, `OutRef` and `InOutRef`: a segment of `len` elements. -/
structure BlockRef (T : Layout) (len : Nat) where
  ptr : Nat
  offset : Nat
  deriving DecidableEq, Repr

def allocate (T : Layout) : StageM (BlockRef T 1) := do
  let region ← allocateLayout T
  return ⟨region.ptr, region.offset⟩

def allocateSlice (T : Layout) (len : Nat) : StageM (BlockRef T len) := do
  let layout ← arrayLayout T len
  let region ← allocateLayout layout
  return ⟨region.ptr, region.offset⟩

def allocateSliceMax (T : Layout) (len : Nat) : StageM ((len : Nat) × BlockRef T len) := do
  let alloc ← get
  let dataRef ← allocateSlice T (min len (alloc.free T))
  return ⟨_, dataRef⟩

/-- A copy into the block; `src` is the workload memory it came from. -/
structure Store where
  put : Put
  src : Option Span

abbrev CommitM := Trace Mem Store

def copyFrom (ptr : Nat) (bytes : List Byte) : CommitM Unit :=
  .tell [⟨⟨ptr, bytes⟩, none⟩]

def copyFromSpan (ptr : Nat) (src : Span) : CommitM Unit := do
  let mem ← .ask
  .tell [⟨⟨ptr, mem.read src.addr src.len⟩, some src⟩]

def copyFromIter (ptr : Nat) : List Span → CommitM Unit
  | [] => pure ()
  | src :: rest => do
    copyFromSpan ptr src
    copyFromIter (ptr + src.len) rest

/-- What collecting does: it reads the block and writes workload memory. -/
inductive Access where
  | fetch (span : Span)
  | store (put : Put)

abbrev CollectM := Trace Mem Access

def fetch (ptr len : Nat) : CollectM (List Byte) := do
  let block ← .ask
  .tell [.fetch ⟨ptr, len⟩]
  return block.read ptr len

def copyTo (ptr : Nat) (dst : Span) : CollectM (List Byte) := do
  let bytes ← fetch ptr dst.len
  .tell [.store ⟨dst.addr, bytes⟩]
  return bytes

def copyToIter (ptr : Nat) : List Span → CollectM Unit
  | [] => pure ()
  | dst :: rest => do
    let _ ← copyTo ptr dst
    copyToIter (ptr + dst.len) rest

structure Input (T : Layout) where
  val : Slice T
  dataRef : BlockRef T val.len

structure Output (T : Layout) where
  val : Slice T
  dataRef : BlockRef T val.len

structure InOut (T : Layout) where
  val : Slice T
  dataRef : BlockRef T val.len

namespace Input

def offset (input : Input T) : Word := usize input.dataRef.offset

def len (input : Input T) : Word := usize input.val.len

def stage (val : Ref T) : StageM (Input T) := do
  return ⟨val.slice, ← allocate T⟩

def stageSlice (val : Slice T) : StageM (Input T) := do
  return ⟨val, ← allocateSlice T val.len⟩

def stageSliceMax (val : Slice T) : StageM (Input T × Slice T) := do
  let (head, tail) := val.splitAt (min val.len ((← get).free T))
  return (← stageSlice head, tail)

def commit (input : Input T) : CommitM Unit :=
  copyFromIter input.dataRef.ptr [input.val.span]

end Input

namespace Output

def offset (output : Output T) : Word := usize output.dataRef.offset

def len (output : Output T) : Word := usize output.val.len

def stage (val : Ref T) : StageM (Output T) := do
  return ⟨val.slice, ← allocate T⟩

def stageSlice (val : Slice T) : StageM (Output T) := do
  return ⟨val, ← allocateSlice T val.len⟩

def stageSliceMax (val : Slice T) : StageM (Output T × Slice T) := do
  let (head, tail) := val.splitAt (min val.len ((← get).free T))
  return (← stageSlice head, tail)

def commit (output : Output T) : CommitM (Output T) := pure output

def collect (output : Output T) : CollectM (List Byte) :=
  copyTo output.dataRef.ptr output.val.span

/-- `collect_range` over `0..count`; slicing the buffer panics unless `count` is in range. -/
def collectRange (output : Output T) (count : Nat) (_h : count ≤ output.val.len) : CollectM Unit :=
  copyToIter output.dataRef.ptr [⟨output.val.addr, T.size * count⟩]

end Output

namespace InOut

def offset (inout : InOut T) : Word := usize inout.dataRef.offset

def len (inout : InOut T) : Word := usize inout.val.len

def stage (val : Ref T) : StageM (InOut T) := do
  return ⟨val.slice, ← allocate T⟩

def stageSlice (val : Slice T) : StageM (InOut T) := do
  return ⟨val, ← allocateSlice T val.len⟩

def commit (inout : InOut T) : CommitM (Output T) := do
  copyFromIter inout.dataRef.ptr [inout.val.span]
  return ⟨inout.val, inout.dataRef⟩

end InOut

end Enarx.Sallyport
