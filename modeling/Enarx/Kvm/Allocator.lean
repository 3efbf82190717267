import Mathlib.Order.Interval.Finset.Nat
import Enarx.Kvm.Sharing

/-!
# The allocator of the KVM shim

`EnarxAllocator` takes memory from the host, hands it out in blocks of pages and
maps it for the workload. The heap is a parameter: all that is known of
`linked_list_allocator` is that a block consists of free pages. Pages of memory
are numbered; the shim sees page `n` at `SHIM_VIRT_OFFSET + 4096 * n`.
-/
namespace Enarx.Kvm

namespace PageTableFlags

def union (flags other : PageTableFlags) : PageTableFlags where
  present := flags.present || other.present
  writable := flags.writable || other.writable
  userAccessible := flags.userAccessible || other.userAccessible
  hugePage := flags.hugePage || other.hugePage
  noExecute := flags.noExecute || other.noExecute
  other := flags.other ||| other.other

def contains (flags other : PageTableFlags) : Bool := flags.union other = flags

end PageTableFlags

/-- `Heap::allocate_first_fit`: where a block of so many pages is found among the free ones. -/
structure FirstFit where
  find : Finset Nat → Nat → Option Nat
  find_subset : ∀ {free npages start}, find free npages = some start →
    Finset.Ico start (start + npages) ⊆ free

/-- `EnarxAllocator`. The sizes of the last and the largest request to the host are powers of
two, `4096 * 2 ^ exp` bytes. -/
structure EnarxAllocator where
  lastAlloc : Nat
  maxAlloc : Nat
  /-- `end_of_mem`, in pages. -/
  endOfMem : Nat
  /-- The pages that the heap can hand out. -/
  free : Finset Nat

structure Host where
  cBit : CBit
  snpActive : Bool
  balloonMemory : Nat → Bool
  /-- `pvalidate` of so many pages from an address on reports no error. -/
  pvalidate : VirtAddr → Nat → Bool
  heap : FirstFit

structure Memory where
  tables : PageTables
  allocator : EnarxAllocator
  /-- `BRK_LINE`. -/
  brkStart : VirtAddr
  brkEnd : VirtAddr
  /-- `NEXT_MMAP_RWLOCK`. -/
  nextMmap : VirtAddr
  asked : Nat
  /-- The pages given back to the heap so far. -/
  returned : List Nat
  /-- Mapping a page has failed. -/
  mapFailed : Bool

abbrev Alloc (ε α : Type) := Exec (Stop ε) Memory α

namespace Alloc

def unwrap (value : Option α) : Alloc ε α :=
  match value with
  | some value => pure value
  | none => throw .panic

def attempt (run : Alloc δ α) : Alloc ε (Except δ α) := fun memory =>
  match run memory with
  | (.ok value, memory) => (.ok (.ok value), memory)
  | (.error (.err error), memory) => (.ok (.error error), memory)
  | (.error .panic, memory) => (.error .panic, memory)
  | (.error .fuel, memory) => (.error .fuel, memory)

def mapErr (f : δ → ε) (run : Alloc δ α) : Alloc ε α := do
  match ← attempt run with
  | .ok value => return value
  | .error error => throw (.err (f error))

def modifyMem (f : (VirtAddr → PageTable) → VirtAddr → PageTable) : Alloc ε Unit :=
  modify fun memory => { memory with tables := { memory.tables with mem := f memory.tables.mem } }

def modifyAllocator (f : EnarxAllocator → EnarxAllocator) : Alloc ε Unit :=
  modify fun memory => { memory with allocator := f memory.allocator }

end Alloc

open Alloc

def shimVirt (n : Nat) : Option VirtAddr :=
  if h : n < 2 ^ 27 then
    some ⟨SHIM_VIRT_OFFSET + SIZE_4_KIB * n, .inr (by unfold SHIM_VIRT_OFFSET SIZE_4_KIB; omega)⟩
  else none

/-- The page of the memory that is seen at an address of the window. -/
def VirtAddr.memPage (addr : VirtAddr) : Nat := (addr.raw - SHIM_VIRT_OFFSET) / SIZE_4_KIB

/-- What `balloon` reads and writes besides the heap. -/
structure Ledger where
  lastAlloc : Nat
  maxAlloc : Nat
  endOfMem : Nat
  asked : Nat
  deriving DecidableEq, Repr

namespace Ledger

variable (host : Host)

/-- The end of the memory when so many pages are granted, unless this panics. -/
def newEnd (ledger : Ledger) (numPages : Nat) : Option Nat := do
  let freeStart ← shimVirt ledger.endOfMem
  -- the end is a physical address
  if SIZE_4_KIB * (ledger.endOfMem + numPages) < 2 ^ 52 ∧ ¬(host.snpActive ∧ !host.pvalidate freeStart numPages) then
    return ledger.endOfMem + numPages
  else none

/-- One round of `balloon`, for a last size of `4096 * 2 ^ lastSize`. -/
def round (lastSize : Nat) (ledger : Ledger) : Option (Bool × Ledger) :=
  let newSize := min (lastSize + 1) ledger.maxAlloc
  if host.balloonMemory ledger.asked then
    (ledger.newEnd host (2 ^ newSize)).map fun newEnd =>
      (true, { ledger with lastAlloc := newSize, endOfMem := newEnd, asked := ledger.asked + 1 })
  else some (false, { ledger with asked := ledger.asked + 1 })

/-- The loop of `balloon`: half the size, until it is less than a page. -/
def loop : Nat → Ledger → Option (Bool × Ledger)
  | 0, ledger => ledger.round host 0
  | lastSize + 1, ledger => do
    let (granted, ledger) ← ledger.round host (lastSize + 1)
    if granted then return (true, ledger) else loop lastSize ledger

def balloon (ledger : Ledger) : Option (Bool × Ledger) := ledger.loop host ledger.lastAlloc

end Ledger

namespace Memory

variable (memory : Memory)

def ledger : Ledger :=
  ⟨memory.allocator.lastAlloc, memory.allocator.maxAlloc, memory.allocator.endOfMem, memory.asked⟩

/-- The heap has the memory up to a new end: `init` the first time, `extend` later. -/
def granted (ledger : Ledger) : Memory :=
  { memory with
    asked := ledger.asked
    allocator := { memory.allocator with
      lastAlloc := ledger.lastAlloc
      endOfMem := ledger.endOfMem
      free := memory.allocator.free ∪ Finset.Ico memory.allocator.endOfMem ledger.endOfMem } }

end Memory

def balloon (host : Host) : Alloc ε Bool := do
  let memory ← get
  let (granted, ledger) ← unwrap (memory.ledger.balloon host)
  set (memory.granted ledger)
  return granted

def balloonUntil (host : Host) (npages : Nat) : Nat → Alloc ε Unit
  | 0 => throw .fuel
  | fuel + 1 => do
    if (← get).allocator.free.card < npages then
      let _ ← balloon host
      balloonUntil host npages fuel

def allocPages (host : Host) (npages : Nat) : Alloc ε (Option Nat) := do
  match host.heap.find (← get).allocator.free npages with
  | none => return none
  | some start =>
    modifyAllocator fun allocator =>
      { allocator with free := allocator.free \ Finset.Ico start (start + npages) }
    return some start

def deallocPages (start npages : Nat) : Alloc ε Unit :=
  modify fun memory =>
    { memory with
      allocator := { memory.allocator with
        free := memory.allocator.free ∪ Finset.Ico start (start + npages) }
      returned := memory.returned ++ List.range' start npages }

def clearPages (start npages : Nat) : Alloc ε Unit := do
  unwrap (if start + npages ≤ 2 ^ 27 then some () else none)
  modifyMem fun mem table =>
    if table.InWindow ∧ start ≤ table.memPage ∧ table.memPage < start + npages then
      fun _ => .unused
    else mem table

def tryAllocHalf (host : Host) : Nat → Alloc ε (Option (Nat × Nat))
  | 0 => do
    match ← allocPages host 1 with
    | some p =>
      clearPages p 1
      return some (p, 0)
    | none => return none
  | size + 1 => do
    match ← allocPages host (2 ^ (size + 1)) with
    | some p =>
      clearPages p (2 ^ (size + 1))
      return some (p, size + 1)
    | none => tryAllocHalf host size

def tryAlloc (host : Host) : Alloc ε (Option Nat) := do
  match ← allocPages host 1 with
  | some page => return some page
  | none =>
    if ← balloon host then
      allocPages host 1
    else
      return none

inductive MapToError where
  | frameAllocationFailed
  | parentEntryHugePage
  | pageAlreadyMapped
  deriving DecidableEq, Repr

/-- `shim_virt_to_enc_phys`, for the page that the shim sees at an address of its window. -/
def shimVirtToEncPhys (c : CBit) (n : Nat) : Option PhysAddr := do
  let virt ← shimVirt n
  PhysAddr.new ((virt.raw - SHIM_VIRT_OFFSET) ||| c.mask)

def allocateFrame (host : Host) : Alloc ε (Option PhysAddr) := do
  match ← tryAlloc host with
  | some page => return some (← unwrap (shimVirtToEncPhys host.cBit page))
  | none => return none

def setFrame (frame : PhysAddr) (flags : PageTableFlags) : Option PageTableEntry :=
  if flags.hugePage then none else PageTableEntry.setAddr frame flags

def storeEntry (table : VirtAddr) (index : Fin 512) (entry : PageTableEntry) : Alloc ε Unit :=
  modifyMem fun mem => Radix.set mem table index entry

/-- `PageTable::zero`, for a table that has just been created. -/
def zeroTable (created : Bool) (table : VirtAddr) : Alloc ε Unit :=
  modifyMem fun mem => if created then Function.update mem table fun _ => .unused else mem

/-- The first half of `create_next_table`: the entry points to a new table if it is unused. -/
def insertTable (host : Host) (table : VirtAddr) (index : Fin 512) (insertFlags : PageTableFlags) :
    Alloc MapToError Bool := do
  let entry := (← get).tables.entry table index
  if entry.isUnused then
    match ← allocateFrame host with
    | some frame =>
      storeEntry table index (← unwrap (setFrame frame insertFlags))
      return true
    | none => throw (.err .frameAllocationFailed)
  else if insertFlags ≠ {} ∧ !entry.flags.contains insertFlags then
    storeEntry table index { entry with flags := entry.flags.union insertFlags }
    return false
  else
    return false

/-- `PageTableWalker::create_next_table`. -/
def createNextTable (host : Host) (table : VirtAddr) (index : Fin 512) (insertFlags : PageTableFlags) :
    Alloc MapToError VirtAddr := do
  let created ← insertTable host table index insertFlags
  match ← unwrap (nextTable host.cBit ((← get).tables.entry table index)) with
  | .mappedToHugePage => throw (.err .parentEntryHugePage)
  | .notMapped => throw .panic
  | .table below =>
    zeroTable created below
    return below

/-- `Mapper::map_to_with_table_flags`, for a page of 4 KiB. -/
def mapToWithTableFlags (host : Host) (page : VirtAddr) (frame : PhysAddr)
    (flags parentTableFlags : PageTableFlags) : Alloc MapToError Unit := do
  let p3 ← createNextTable host (← get).tables.level4 page.p4Index parentTableFlags
  let p2 ← createNextTable host p3 page.p3Index parentTableFlags
  let p1 ← createNextTable host p2 page.p2Index parentTableFlags
  if ((← get).tables.entry p1 page.p1Index).isUnused then
    storeEntry p1 page.p1Index (← unwrap (setFrame frame flags))
  else
    throw (.err .pageAlreadyMapped)

inductive UnmapError where
  | parentEntryHugePage
  | pageNotMapped
  deriving DecidableEq, Repr

/-- `PageTableWalker::next_table_mut`, with the error of `unmap`. -/
def nextTableMut (c : CBit) (table : VirtAddr) (index : Fin 512) : Alloc UnmapError VirtAddr := do
  match ← unwrap (nextTable c ((← get).tables.entry table index)) with
  | .mappedToHugePage => throw (.err .parentEntryHugePage)
  | .notMapped => throw (.err .pageNotMapped)
  | .table below => return below

/-- `Mapper::unmap`, for a page of 4 KiB. -/
def unmap (c : CBit) (page : VirtAddr) : Alloc UnmapError PhysAddr := do
  let p3 ← nextTableMut c (← get).tables.level4 page.p4Index
  let p2 ← nextTableMut c p3 page.p3Index
  let p1 ← nextTableMut c p2 page.p2Index
  match ((← get).tables.entry p1 page.p1Index).frame with
  | .error .frameNotPresent => throw (.err .pageNotMapped)
  | .error .hugeFrame => throw (.err .parentEntryHugePage)
  | .ok frame =>
    storeEntry p1 page.p1Index .unused
    return frame

inductive AllocateError where
  | notAligned
  | outOfMemory
  | zeroSize
  | pageAlreadyMapped
  | parentEntryHugePage
  deriving DecidableEq, Repr

def AllocateError.ofMapToError : MapToError → AllocateError
  | .frameAllocationFailed => .outOfMemory
  | .parentEntryHugePage => .parentEntryHugePage
  | .pageAlreadyMapped => .pageAlreadyMapped

def VirtAddr.containingPage (addr : VirtAddr) : Option VirtAddr :=
  VirtAddr.new (addr.raw / SIZE_4_KIB * SIZE_4_KIB)

def pageRange (start : VirtAddr) (size : Nat) : Option (VirtAddr × VirtAddr) := do
  let last ← (← start.add size).sub 1
  return (← start.containingPage, ← last.containingPage)

def mapPage (host : Host) (page : VirtAddr) (frame : PhysAddr) (flags parentFlags : PageTableFlags) :
    Alloc AllocateError Unit := do
  match ← attempt (mapToWithTableFlags host page frame flags parentFlags) with
  | .ok () => return
  | .error error =>
    modify fun memory => { memory with mapFailed := true }
    throw (.err (.ofMapToError error))

def mapPages (host : Host) (flags parentFlags : PageTableFlags) (last : VirtAddr) :
    Nat → PhysAddr → VirtAddr → Alloc AllocateError Unit
  | 0, _, _ => pure ()
  | nframes + 1, frame, page => do
    let nextFrame ← unwrap (frame.add SIZE_4_KIB)
    if page.raw ≤ last.raw then
      let nextPage ← unwrap (page.add SIZE_4_KIB)
      mapPage host page frame flags parentFlags
      mapPages host flags parentFlags last nframes nextFrame nextPage

/-- `map_memory`, for whole pages at the physical address of a page. -/
def mapMemory (host : Host) (mapFrom : PhysAddr) (mapTo : VirtAddr) (size : Nat)
    (flags parentFlags : PageTableFlags) : Alloc AllocateError Unit := do
  if size = 0 then
    throw (.err .zeroSize)
  else
    let endFrom ← unwrap (mapFrom.add size)
    let nframes := (endFrom.raw - 1) / SIZE_4_KIB + 1 - mapFrom.raw / SIZE_4_KIB
    let range ← unwrap (pageRange mapTo size)
    mapPages host flags parentFlags range.2 nframes mapFrom range.1

/-- The page that `ShimVirtAddr::from` finds for the physical address of a frame. -/
def frameToPage (c : CBit) (frame : PhysAddr) : Option Nat :=
  let phys := andNot (frame.raw ||| c.mask) c.mask
  if phys < 2 ^ 64 - SHIM_VIRT_OFFSET then some (phys / SIZE_4_KIB) else none

/-- The loop of `unmap_memory` over the pages up to `last`; their number bounds it. -/
def unmapPages (c : CBit) (last : VirtAddr) : Nat → VirtAddr → Alloc UnmapError Unit
  | npages, page => do
    if page.raw ≤ last.raw then
      match npages with
      | 0 => throw .fuel
      | npages + 1 =>
        let nextPage ← unwrap (page.add SIZE_4_KIB)
        let frame ← unmap c page
        let shimPage ← unwrap (frameToPage c frame)
        deallocPages shimPage 1
        unmapPages c last npages nextPage

def unmapMemory (c : CBit) (virtAddr : VirtAddr) (size : Nat) : Alloc UnmapError Unit := do
  if size = 0 then
    return
  else
    let range ← unwrap (pageRange virtAddr size)
    unmapPages c range.2 ((range.2.raw - range.1.raw) / SIZE_4_KIB + 1) range.1

/-- `msb`: how often a value can be halved before it is zero, less one. -/
def msb (value : Nat) : Nat := value.log2

/-- The first block of a request, with the exponent of its size. -/
def allocFirstHalf (host : Host) (currSize : Nat) : Alloc ε (Option (Nat × Nat)) := do
  match ← tryAllocHalf host currSize with
  | some chunk => return some chunk
  | none =>
    let _ ← balloon host
    tryAllocHalf host currSize

/-- What follows the first block of a request, which is given back when this fails. -/
def mapSecondHalf (next : VirtAddr → Nat → Alloc AllocateError Unit) (mapTo : VirtAddr)
    (page exp secondHalfSize : Nat) : Alloc AllocateError Unit := do
  if 0 < secondHalfSize then
    let second ← unwrap (mapTo.add (SIZE_4_KIB * 2 ^ exp))
    match ← attempt (next second secondHalfSize) with
    | .ok () => return
    | .error error =>
      deallocPages page (2 ^ exp)
      throw (.err error)

def mapFirstHalf (host : Host) (flags parentFlags : PageTableFlags) (mapTo : VirtAddr)
    (page exp secondHalfSize : Nat) : Alloc AllocateError Unit := do
  let phys ← unwrap (shimVirtToEncPhys host.cBit page)
  match ← attempt (mapMemory host phys mapTo (SIZE_4_KIB * 2 ^ exp) flags parentFlags) with
  | .ok () => return
  | .error error =>
    deallocPages page (2 ^ exp)
    let second ← unwrap (mapTo.add (SIZE_4_KIB * 2 ^ exp))
    let _ ← attempt (ε := AllocateError) (unmapMemory host.cBit second secondHalfSize)
    throw (.err error)

/-- `allocate_and_map_memory`; `fuel` bounds the recursion and the requests for memory. -/
def allocateAndMapMemory (host : Host) (flags parentFlags : PageTableFlags) :
    Nat → VirtAddr → Nat → Alloc AllocateError Unit
  | 0, _, _ => throw .fuel
  | fuel + 1, mapTo, size => do
    if size = 0 then
      throw (.err .zeroSize)
    else if mapTo.raw % SIZE_4_KIB ≠ 0 ∨ size % SIZE_4_KIB ≠ 0 then
      throw (.err .notAligned)
    else
      -- `4096 * 2 ^ currSize` is the largest power of two that fits
      let currSize := msb size - 12
      balloonUntil host (2 ^ currSize) fuel
      match ← allocFirstHalf host currSize with
      | none => throw (.err .outOfMemory)
      | some (page, exp) =>
        let secondHalfSize ← unwrap
          (if SIZE_4_KIB * 2 ^ exp ≤ size then some (size - SIZE_4_KIB * 2 ^ exp) else none)
        mapSecondHalf (allocateAndMapMemory host flags parentFlags fuel) mapTo page exp secondHalfSize
        mapFirstHalf host flags parentFlags mapTo page exp secondHalfSize

end Enarx.Kvm
