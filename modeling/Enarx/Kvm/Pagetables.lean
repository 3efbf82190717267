import Enarx.Kvm.PageTable

/-!
# Splitting pages and sharing them with the host

The boot page tables, `smash` and `clear_c_bit_address_range`. Page tables come
from the allocator one after the other; flushing the TLB does not change them.
-/
namespace Enarx.Kvm

def HUGE_PAGE_TABLE_FLAGS : PageTableFlags := { hugePage := true, writable := true, present := true }

def PAGE_TABLE_FLAGS : PageTableFlags := { writable := true, present := true }

/-- Where the linker puts the tables: four pages in the window. -/
structure BootTables where
  pml4t : VirtAddr
  pdpt : VirtAddr
  pdtC0000000 : VirtAddr
  ptFfe00000 : VirtAddr
  inWindow : ∀ table ∈ [pml4t, pdpt, pdtC0000000, ptFfe00000],
    table.InWindow ∧ SIZE_4_KIB ∣ table.raw
  nodup : [pml4t, pdpt, pdtC0000000, ptFfe00000].Nodup

section

variable (c : CBit)

def encrypted (pa : Nat) (flags : PageTableFlags) (hpa : pa < 2 ^ 39) (halign : SIZE_4_KIB ∣ pa) :
    PageTableEntry :=
  ⟨⟨pa + c.mask, c.add_mask_lt hpa⟩, flags, (c.dvd_add_mask (by decide)).mpr halign⟩

def pointerTo (table : VirtAddr) (htable : table.InWindow ∧ SIZE_4_KIB ∣ table.raw) :
    PageTableEntry :=
  encrypted c (table.raw - SHIM_VIRT_OFFSET) PAGE_TABLE_FLAGS table.sub_offset_lt
    (Nat.dvd_sub htable.2 (by decide))

def gen1gbPdptEntries (i : Fin 512) : PageTableEntry :=
  encrypted c (i * BYTES_1_GIB) HUGE_PAGE_TABLE_FLAGS (by unfold BYTES_1_GIB; omega)
    (Nat.dvd_mul_left_of_dvd (by decide) i)

def gen2mbPdtEntriesC0000000 (i : Fin 512) : PageTableEntry :=
  encrypted c (0xC0000000 + i * BYTES_2_MIB) HUGE_PAGE_TABLE_FLAGS (by unfold BYTES_2_MIB; omega)
    (Nat.dvd_add (by decide) (Nat.dvd_mul_left_of_dvd (by decide) i))

def gen4kPtEntriesFfe00000 (i : Fin 512) : PageTableEntry :=
  encrypted c (0xFFE00000 + i * SIZE_4_KIB) PAGE_TABLE_FLAGS (by unfold SIZE_4_KIB; omega)
    (Nat.dvd_add (by decide) (Nat.dvd_mul_left_of_dvd (by decide) i))

/-- The tables after `_start` and `unmap_identity`; the other memory holds anything. -/
def BootTables.tables (boot : BootTables) (rest : VirtAddr → PageTable) : PageTables where
  level4 := boot.pml4t
  mem table index :=
    if table = boot.pml4t then
      if index = 511 then pointerTo c boot.pdpt (boot.inWindow _ (by simp)) else .unused
    else if table = boot.pdpt then
      if index = 3 then pointerTo c boot.pdtC0000000 (boot.inWindow _ (by simp))
      else gen1gbPdptEntries c index
    else if table = boot.pdtC0000000 then
      if index = 511 then pointerTo c boot.ptFfe00000 (boot.inWindow _ (by simp))
      else gen2mbPdtEntriesC0000000 c index
    else if table = boot.ptFfe00000 then gen4kPtEntriesFfe00000 c index
    else rest table index

end

structure Machine where
  cBit : CBit
  /-- The page that the allocator returns at its `n`-th request. -/
  tryAlloc : Nat → Option VirtAddr
  pvalidate : VirtAddr → Bool
  /-- The host grants the page state changes it is asked for. -/
  pageStateChange : List Nat → Bool

structure State where
  tables : PageTables
  taken : Nat

abbrev Shim (ε α : Type) := Exec (Stop ε) State α

namespace Shim

def unwrap (value : Option α) : Shim ε α :=
  match value with
  | some value => pure value
  | none => throw .panic

def unwrapResult (run : Shim δ α) : Shim ε α := fun state =>
  match run state with
  | (.ok value, state) => (.ok value, state)
  | (.error .fuel, state) => (.error .fuel, state)
  | (.error _, state) => (.error .panic, state)

def entry (table : VirtAddr) (index : Fin 512) : Shim ε PageTableEntry := do
  return (← get).tables.entry table index

def store (table : VirtAddr) (index : Fin 512) (entry : PageTableEntry) : Shim ε Unit :=
  modify fun state =>
    { state with tables := { state.tables with mem := Radix.set state.tables.mem table index entry } }

def tryAlloc (machine : Machine) : Shim ε VirtAddr := do
  let state ← get
  set { state with taken := state.taken + 1 }
  unwrap (machine.tryAlloc state.taken)

/-- `enc_phys_offset.frame_to_pointer(page_table[index].frame().unwrap())`. -/
def tableBelow (c : CBit) (table : VirtAddr) (index : Fin 512) : Shim ε VirtAddr := do
  match (← entry table index).frame with
  | .ok frame => unwrap (frameToPointer c frame)
  | .error _ => throw .panic

end Shim

open Shim

inductive PagetablesError where
  | notMapped
  | invalidFrameAddress (addr : PhysAddr)
  | notAligned
  deriving DecidableEq, Repr

/-- Fills entries of a new table with successive pages of `step` bytes. -/
def fillTable (table : VirtAddr) (oldAddr : PhysAddr) (step : Nat) (flags : PageTableFlags) :
    List (Fin 512) → Shim ε Unit
  | [] => pure ()
  | i :: rest => do
    let addr ← unwrap (oldAddr.add (i * step))
    store table i (← unwrap (PageTableEntry.setAddr addr flags))
    fillTable table oldAddr step flags rest

/-- Replaces the entry of a page by a pointer to a table of smaller pages. -/
def splitEntry (c : CBit) (table : VirtAddr) (index : Fin 512) (newPagetable : VirtAddr) (step : Nat)
    (pageFlags pointerFlags : PageTableFlags) : Shim ε Unit := do
  let oldAddr := (← entry table index).addr
  fillTable newPagetable oldAddr step pageFlags (List.finRange 512)
  let virt ← unwrap (newPagetable.sub SHIM_VIRT_OFFSET)
  let newPagetablePa ← unwrap (PhysAddr.new virt.raw)
  let addr ← unwrap (PhysAddr.new (newPagetablePa.raw ||| (oldAddr.raw &&& c.mask)))
  store table index (← unwrap (PageTableEntry.setAddr addr pointerFlags))

def smash (machine : Machine) (addr : VirtAddr) : Shim PagetablesError Unit := do
  match ← unwrap ((← get).tables.translate machine.cBit addr) with
  | .mapped (.size4KiB _) _ _ => return
  | .mapped (.size2MiB _) _ _ =>
    let newPagetable ← tryAlloc machine
    let p3 ← tableBelow machine.cBit (← get).tables.level4 addr.p4Index
    let p2 ← tableBelow machine.cBit p3 addr.p3Index
    let oldFlags := (← entry p2 addr.p2Index).flags.withoutHuge
    splitEntry machine.cBit p2 addr.p2Index newPagetable SIZE_4_KIB oldFlags oldFlags
  | .mapped (.size1GiB _) _ _ =>
    let newPagetable ← tryAlloc machine
    let p3 ← tableBelow machine.cBit (← get).tables.level4 addr.p4Index
    let oldFlags := (← entry p3 addr.p3Index).flags
    splitEntry machine.cBit p3 addr.p3Index newPagetable BYTES_2_MIB oldFlags oldFlags.withoutHuge
  | .notMapped => throw (.err .notMapped)
  | .invalidFrameAddress addr => throw (.err (.invalidFrameAddress addr))

def clearEntry (c : CBit) (table : VirtAddr) (index : Fin 512) : Shim ε Unit := do
  let old ← entry table index
  let addr ← unwrap (PhysAddr.new (andNot old.addr.raw c.mask))
  store table index (← unwrap (PageTableEntry.setAddr addr old.flags))

def exceeds (current finish : VirtAddr) (offset size : Nat) : Shim ε Bool := do
  if offset ≠ 0 then return true
  return (← unwrap (current.add size)).raw > finish.raw

def clearCBitAddressRange (machine : Machine) :
    Nat → VirtAddr → VirtAddr → Shim PagetablesError Unit
  | 0, _, _ => throw .fuel
  | fuel + 1, current, finish => do
    if finish.raw ≤ current.raw then
      return
    match ← unwrap ((← get).tables.translate machine.cBit current) with
    | .mapped (.size4KiB _) offset _ =>
      if ← exceeds current finish offset SIZE_4_KIB then
        throw (.err .notAligned)
      let p3 ← tableBelow machine.cBit (← get).tables.level4 current.p4Index
      let p2 ← tableBelow machine.cBit p3 current.p3Index
      let p1 ← tableBelow machine.cBit p2 current.p2Index
      clearEntry machine.cBit p1 current.p1Index
      clearCBitAddressRange machine fuel (← unwrap (current.add SIZE_4_KIB)) finish
    | .mapped (.size2MiB _) offset _ =>
      if ← exceeds current finish offset BYTES_2_MIB then
        smash machine current
        clearCBitAddressRange machine fuel current finish
      else
        let p3 ← tableBelow machine.cBit (← get).tables.level4 current.p4Index
        let p2 ← tableBelow machine.cBit p3 current.p3Index
        clearEntry machine.cBit p2 current.p2Index
        clearCBitAddressRange machine fuel (← unwrap (current.add BYTES_2_MIB)) finish
    | .mapped (.size1GiB _) offset _ =>
      if ← exceeds current finish offset BYTES_1_GIB then
        smash machine current
        clearCBitAddressRange machine fuel current finish
      else
        let p3 ← tableBelow machine.cBit (← get).tables.level4 current.p4Index
        clearEntry machine.cBit p3 current.p3Index
        clearCBitAddressRange machine fuel (← unwrap (current.add BYTES_1_GIB)) finish
    | .notMapped => clearCBitAddressRange machine fuel (← unwrap (current.add SIZE_4_KIB)) finish
    | .invalidFrameAddress addr => throw (.err (.invalidFrameAddress addr))

/-- `SNP_PAGE_STATE_SHARED` in a request for a page state change. -/
def SHARED_BIT : Nat := 2 <<< 52

/-- `ghcb_msr_make_page_shared`; `fuel` bounds the loop over the range. -/
def ghcbMsrMakePageShared (machine : Machine) (fuel : Nat) (pageVirt : VirtAddr) : Shim ε Unit := do
  unwrapResult (smash machine pageVirt)
  unwrap (if machine.pvalidate pageVirt then some () else none)
  unwrapResult do
    clearCBitAddressRange machine fuel pageVirt (← unwrap (pageVirt.add SIZE_4_KIB))
  let gpa ← unwrap (pageVirt.sub SHIM_VIRT_OFFSET)
  unwrap (if machine.pageStateChange [gpa.raw ||| SHARED_BIT] then some () else none)

/-- The loop of `set_memory_shared` over the addresses of the range, one page after the other. -/
def smashPages (machine : Machine) : List Nat → Shim ε Unit
  | [] => pure ()
  | a :: rest => do
    let virt ← unwrap (VirtAddr.new a)
    unwrapResult (smash machine virt)
    unwrap (if machine.pvalidate virt then some () else none)
    smashPages machine rest

def stepBy (start finish size : Nat) : List Nat :=
  (List.range ((finish - start + (size - 1)) / size)).map fun i => start + size * i

def pscEntries : Nat → PhysAddr → Shim ε (List Nat)
  | 0, _ => pure []
  | npages + 1, paAddr => do
    let rest ← pscEntries npages (← unwrap (paAddr.add SIZE_4_KIB))
    return (paAddr.raw ||| SHARED_BIT) :: rest

/-- `set_memory_shared`; the exchange with the host is one request. -/
def setMemoryShared (machine : Machine) (fuel : Nat) (virtAddr : VirtAddr) (npages : Nat) :
    Shim ε Unit := do
  let size ← unwrap (if SIZE_4_KIB * npages < 2 ^ 64 then some (SIZE_4_KIB * npages) else none)
  let finish ← unwrap (virtAddr.add size)
  smashPages machine (stepBy virtAddr.raw finish.raw SIZE_4_KIB)
  unwrapResult (clearCBitAddressRange machine fuel virtAddr finish)
  -- the descriptor has 253 entries and counts them from zero
  unwrap (if 1 ≤ npages ∧ npages ≤ 253 then some () else none)
  let paAddr ← unwrap ((← unwrap (virtAddr.sub SHIM_VIRT_OFFSET)).raw |> PhysAddr.new)
  let entries ← pscEntries npages paAddr
  unwrap (if machine.pageStateChange entries then some () else none)

inductive Share where
  | ghcbMsrMakePageShared (page : VirtAddr)
  | setMemoryShared (virtAddr : VirtAddr) (npages : Nat)
  deriving DecidableEq, Repr

namespace Share

def execute (machine : Machine) (fuel : Nat) : Share → Shim ε Unit
  | .ghcbMsrMakePageShared page => Kvm.ghcbMsrMakePageShared machine fuel page
  | .setMemoryShared virtAddr npages => Kvm.setMemoryShared machine fuel virtAddr npages

def executeAll (machine : Machine) (fuel : Nat) : List Share → Shim ε Unit
  | [] => pure ()
  | share :: rest => do
    share.execute machine fuel
    executeAll machine fuel rest

def start : Share → VirtAddr
  | .ghcbMsrMakePageShared page => page
  | .setMemoryShared virtAddr _ => virtAddr

def npages : Share → Nat
  | .ghcbMsrMakePageShared _ => 1
  | .setMemoryShared _ npages => npages

def Requests (share : Share) (addr : VirtAddr) : Prop :=
  share.start.page ≤ addr.page ∧ addr.page < share.start.page + share.npages

instance (share : Share) (addr : VirtAddr) : Decidable (share.Requests addr) :=
  inferInstanceAs (Decidable (_ ∧ _))

end Share

end Enarx.Kvm
