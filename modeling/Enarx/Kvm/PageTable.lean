import Enarx.Control
import Enarx.Radix
import Enarx.Kvm.Addr

/-!
# Page tables

The entries, the tables and the translation of `x86_64`, for tables that the shim
reaches through its window. A virtual address selects one entry a level; an entry
of level 3 or 2 may map a page of 1 GiB or 2 MiB.
-/
namespace Enarx.Kvm

inductive Stop (ε : Type) where
  | err (error : ε)
  | panic
  | fuel
  deriving DecidableEq, Repr

structure PageTableFlags where
  present : Bool := false
  writable : Bool := false
  userAccessible : Bool := false
  hugePage : Bool := false
  noExecute : Bool := false
  /-- Flags that the shim neither sets nor reads. -/
  other : BitVec 19 := 0
  deriving DecidableEq, Repr

def PageTableFlags.withoutHuge (flags : PageTableFlags) : PageTableFlags :=
  { flags with hugePage := false }

/-- The 64 bits of an entry: bits 12 to 51 are an address, the others are flags. -/
@[ext] structure PageTableEntry where
  addr : PhysAddr
  flags : PageTableFlags
  aligned : SIZE_4_KIB ∣ addr.raw
  deriving DecidableEq, Repr

namespace PageTableEntry

/-- `PageTableEntry::new`. -/
def unused : PageTableEntry := ⟨⟨0, by decide⟩, {}, Nat.dvd_zero _⟩

def isUnused (entry : PageTableEntry) : Bool := entry = unused

def setAddr (addr : PhysAddr) (flags : PageTableFlags) : Option PageTableEntry :=
  if h : SIZE_4_KIB ∣ addr.raw then some ⟨addr, flags, h⟩ else none

@[simp] theorem setAddr_self (entry : PageTableEntry) :
    setAddr entry.addr entry.flags = some entry := dif_pos entry.aligned

inductive FrameError where
  | frameNotPresent | hugeFrame
  deriving DecidableEq, Repr

def frame (entry : PageTableEntry) : Except FrameError PhysAddr :=
  if !entry.flags.present then .error .frameNotPresent
  else if entry.flags.hugePage then .error .hugeFrame
  else .ok entry.addr

/-- The entry of a table above the last level points to another one. -/
def IsPointer (entry : PageTableEntry) : Prop :=
  entry.flags.present = true ∧ entry.flags.hugePage = false

instance (entry : PageTableEntry) : Decidable entry.IsPointer :=
  inferInstanceAs (Decidable (_ ∧ _))

def follow (c : CBit) (entry : PageTableEntry) : Option VirtAddr :=
  if entry.IsPointer then frameToPointer c entry.addr else none

variable {entry : PageTableEntry}

theorem frame_pointer (h : entry.IsPointer) : entry.frame = .ok entry.addr := by
  simp [frame, h.1, h.2]

theorem follow_of_not_pointer (c : CBit) (h : ¬entry.IsPointer) : entry.follow c = none := if_neg h

theorem follow_of_absent (c : CBit) (h : entry.flags.present = false) : entry.follow c = none :=
  follow_of_not_pointer c fun hpointer => Bool.false_ne_true (h.symm.trans hpointer.1)

theorem follow_of_huge (c : CBit) (h : entry.flags.hugePage = true) : entry.follow c = none :=
  follow_of_not_pointer c fun hpointer => Bool.false_ne_true (hpointer.2.symm.trans h)

end PageTableEntry

abbrev PageTable := Fin 512 → PageTableEntry

/-- `SHIM_PAGETABLE`: the level 4 table, and every table in memory by its address. -/
structure PageTables where
  level4 : VirtAddr
  mem : VirtAddr → PageTable

inductive MappedFrame where
  | size4KiB (start : Nat)
  | size2MiB (start : Nat)
  | size1GiB (start : Nat)
  deriving DecidableEq, Repr

inductive TranslateResult where
  | mapped (frame : MappedFrame) (offset : Nat) (flags : PageTableFlags)
  | notMapped
  | invalidFrameAddress (addr : PhysAddr)
  deriving DecidableEq, Repr

inductive NextTable where
  | table (ptr : VirtAddr)
  | notMapped
  | mappedToHugePage
  deriving DecidableEq, Repr

/-- `PageTableWalker::next_table`. -/
def nextTable (c : CBit) (entry : PageTableEntry) : Option NextTable :=
  match entry.frame with
  | .ok frame => (frameToPointer c frame).map .table
  | .error .frameNotPresent => some .notMapped
  | .error .hugeFrame => some .mappedToHugePage

namespace PageTables

def entry (tables : PageTables) (table : VirtAddr) (index : Fin 512) : PageTableEntry :=
  tables.mem table index

/-- `PhysFrame::containing_address`, for a frame of `size` bytes. -/
def frameStart (addr : PhysAddr) (size : Nat) : Nat := addr.raw / size * size

def translate (c : CBit) (tables : PageTables) (addr : VirtAddr) : Option TranslateResult := do
  match ← nextTable c (tables.entry tables.level4 addr.p4Index) with
  | .notMapped => return .notMapped
  | .mappedToHugePage => none
  | .table p3 =>
    let entry3 := tables.entry p3 addr.p3Index
    match ← nextTable c entry3 with
    | .notMapped => return .notMapped
    | .mappedToHugePage =>
      return .mapped (.size1GiB (frameStart entry3.addr BYTES_1_GIB)) (addr.raw % BYTES_1_GIB)
        entry3.flags
    | .table p2 =>
      let entry2 := tables.entry p2 addr.p2Index
      match ← nextTable c entry2 with
      | .notMapped => return .notMapped
      | .mappedToHugePage =>
        return .mapped (.size2MiB (frameStart entry2.addr BYTES_2_MIB)) (addr.raw % BYTES_2_MIB)
          entry2.flags
      | .table p1 =>
        let entry1 := tables.entry p1 addr.p1Index
        if entry1.isUnused then return .notMapped
        else if entry1.addr.raw % SIZE_4_KIB = 0 then
          return .mapped (.size4KiB entry1.addr.raw) (addr.raw % SIZE_4_KIB) entry1.flags
        else return .invalidFrameAddress entry1.addr

end PageTables

/-- Where an address leads and what may be done there. -/
structure Mapping where
  /-- The physical address, with the C-bit. -/
  phys : Nat
  /-- The flags of the entry that maps the page, whatever the size of the page is. -/
  flags : PageTableFlags
  writable : Bool
  userAccessible : Bool
  noExecute : Bool
  deriving DecidableEq, Repr

namespace Mapping

/-- A mapping in the page that `entry` maps; `rest` are the indices that were not needed. -/
def leaf (offset : Nat) (entry : PageTableEntry) (rest : List (Fin 512)) : Option Mapping :=
  if entry.flags.present then
    some {
      phys := entry.addr.raw + SIZE_4_KIB * digits rest + offset
      flags := entry.flags.withoutHuge
      writable := entry.flags.writable
      userAccessible := entry.flags.userAccessible
      noExecute := entry.flags.noExecute }
  else none
where
  digits : List (Fin 512) → Nat
    | [] => 0
    | index :: rest => index * 512 ^ rest.length + digits rest

/-- The rights of a pointer restrict those of the mapping behind it. -/
def restrict (entry : PageTableEntry) (mapping : Mapping) : Mapping :=
  { mapping with
    writable := entry.flags.writable && mapping.writable
    userAccessible := entry.flags.userAccessible && mapping.userAccessible
    noExecute := entry.flags.noExecute || mapping.noExecute }

end Mapping

namespace PageTables

variable (c : CBit) (tables : PageTables)

def tableAt (path : List (Fin 512)) : Option VirtAddr :=
  Radix.tableAt (PageTableEntry.follow c) tables.mem tables.level4 path

def access (addr : VirtAddr) : Option Mapping :=
  Radix.lookup (PageTableEntry.follow c) tables.mem (fun entry => Option.map (Mapping.restrict entry))
    (Mapping.leaf (addr.raw % SIZE_4_KIB)) tables.level4 addr.path

/-- The indices that the translation of an address does not need: none for a page of 4 KiB,
one for 2 MiB, two for 1 GiB. -/
def level (addr : VirtAddr) : Nat :=
  Radix.lookup (PageTableEntry.follow c) tables.mem (fun _ level => level)
    (fun _ rest => rest.length) tables.level4 addr.path

def IsTree : Prop := Radix.Tree (PageTableEntry.follow c) tables.mem 3 tables.level4

end PageTables

end Enarx.Kvm
