import Enarx.Bytes
import Enarx.Kvm.SmashOnce
import Enarx.Sgx.Handler

/-!
# Memory access of the debugger

`read_addrs` and `write_addrs` of both shims look at some points of a range before
they copy it. The law compares what they let pass with the memory that is
accessible byte by byte.
-/
namespace Enarx.Shims

inductive TargetError where
  | nonFatal
  | writeMemoryOutOfRange (addr : Nat)
  deriving DecidableEq, Repr

inductive Refusal where
  | err (error : TargetError)
  | panic
  deriving DecidableEq, Repr

def AllOf (accessible : Nat → Prop) (start len : Nat) : Prop :=
  ∀ addr, start ≤ addr → addr < start + len → accessible addr

section

variable {accessible : Nat → Prop} {check : Except Refusal Unit} {mem : Mem} {start len : Nat}

end

/-- The accessible memory that begins at an address: so many bytes and no more. -/
def Region (accessible : Nat → Prop) (start run : Nat) : Prop :=
  AllOf accessible start run ∧ ¬accessible (start + run)

theorem Region.allOf_iff {accessible : Nat → Prop} {start run : Nat} (h : Region accessible start run) (len : Nat) :
    AllOf accessible start len ↔ len ≤ run := by
  constructor
  · intro hall
    by_contra hlonger
    exact h.2 (hall _ (by omega) (by omega))
  · exact fun hle addr hlow hhigh => h.1 addr hlow (by omega)

theorem Region.unique {accessible : Nat → Prop} {start run other : Nat} (h : Region accessible start run)
    (hother : Region accessible start other) : other = run :=
  le_antisymm ((h.allOf_iff other).mp hother.1) ((hother.allOf_iff run).mp h.1)

namespace KvmGdb

open Kvm

/-- `translate_addr(VirtAddr::from_ptr(ptr))`; both may panic. -/
def translateAddr (c : CBit) (tables : PageTables) (ptr : Nat) : Except Refusal (Option Nat) :=
  match (VirtAddr.new (ptr % 2 ^ 64)).bind (tables.translate c) with
  | some (.mapped (.size4KiB start) offset _) => .ok (some (start + offset))
  | some (.mapped (.size2MiB start) offset _) => .ok (some (start + offset))
  | some (.mapped (.size1GiB start) offset _) => .ok (some (start + offset))
  | some .notMapped | some (.invalidFrameAddress _) => .ok none
  | none => .error .panic

def okOr (error : TargetError) : Option α → Except Refusal α
  | some value => .ok value
  | none => .error (.err error)

def check (c : CBit) (tables : PageTables) (error : TargetError) (start len : Nat) :
    Except Refusal Unit := do
  let _ ← okOr error (← translateAddr c tables start)
  let _ ← okOr error (← translateAddr c tables (start + len))

def Covered (c : CBit) (tables : PageTables) (addr : Nat) : Prop :=
  ∃ virt : VirtAddr, virt.raw = addr ∧
    ∃ frame offset flags, tables.translate c virt = some (.mapped frame offset flags)

/-- The address that the shim looks at, `VirtAddr::new` of the one that is meant, and what it finds there. -/
def Looks (c : CBit) (tables : PageTables) (P : TranslateResult → Prop) (addr : Nat) : Prop :=
  ∃ virt result, VirtAddr.new (addr % 2 ^ 64) = some virt ∧ tables.translate c virt = some result ∧ P result

def Walks (c : CBit) (tables : PageTables) : Nat → Prop := Looks c tables fun _ => True

def Mapped (c : CBit) (tables : PageTables) : Nat → Prop :=
  Looks c tables fun result => ∃ frame offset flags, result = .mapped frame offset flags

variable {c : CBit} {tables : PageTables} {error : TargetError} {start len : Nat}

theorem Covered.lt {addr : Nat} (h : Covered c tables addr) : addr < 2 ^ 64 := by
  obtain ⟨virt, rfl, -⟩ := h
  exact virt.raw_lt

theorem Covered.mapped {addr : Nat} (h : Covered c tables addr) : Mapped c tables addr := by
  obtain ⟨virt, rfl, frame, offset, flags, htranslate⟩ := h
  refine ⟨virt, _, ?_, htranslate, frame, offset, flags, rfl⟩
  rw [Nat.mod_eq_of_lt virt.raw_lt, VirtAddr.new_raw]

theorem Mapped.walks {addr : Nat} (h : Mapped c tables addr) : Walks c tables addr := by
  obtain ⟨virt, result, hvirt, hresult, -⟩ := h
  exact ⟨virt, result, hvirt, hresult, trivial⟩

end KvmGdb

namespace SgxGdb

open Sgx

structure Range where
  start : Nat
  finish : Nat
  finish_lt : finish < 2 ^ 64

def Range.contains (range : Range) (addr : Nat) : Bool := range.start ≤ addr && addr < range.finish

/-- What the target of the debugger knows: the heap, the ranges of the block and of the state save
area. Of `mmledger` it also needs the bits of the rights and the answer for a region without pages. -/
structure Target where
  heap : Heap
  block : Range
  ssa : Range
  bits : AccessBits
  empty : Nat → Option Access
  record_lt : ∀ page access, heap.ledger.record page = some access → PAGE_SIZE * (page + 1) < 2 ^ 64

def allows (right : Access) (access : Option Access) : Bool := access.any fun access => access.has right

/-- `heap.contains(addr, Offset::from_items(count))`, for a page of the heap. -/
def Target.contains (target : Target) (page count : Nat) : Option Access :=
  if count = 0 then target.empty page else target.heap.contains page count

/-- The whole pages of the range in the ledger, or both ends of it in the block or the state save
area. -/
def check (target : Target) (right : Access) (error : TargetError) (start len : Nat) :
    Except Refusal Unit :=
  if 2 ^ 64 ≤ start + len then .error (.err error)
  -- `Address::new`
  else if start % PAGE_SIZE ≠ 0 then .error .panic
  else if allows right (target.contains (start / PAGE_SIZE) (len / PAGE_SIZE)) ||
      (target.block.contains start && target.block.contains (start + len)) ||
      (target.ssa.contains start && target.ssa.contains (start + len)) then
    .ok ()
  else .error (.err error)

def Recorded (target : Target) (right : Access) (page : Nat) : Prop :=
  allows right (target.heap.ledger.record page) = true

/-- The byte is in a record with the right, in the block or in the state save area. -/
def Accessible (target : Target) (right : Access) (addr : Nat) : Prop :=
  Recorded target right (addr / PAGE_SIZE) ∨ target.block.contains addr ∨ target.ssa.contains addr

section

variable {target : Target} {right : Access} {error : TargetError} {start len : Nat}

theorem Range.contains_iff {range : Range} {addr : Nat} :
    range.contains addr = true ↔ range.start ≤ addr ∧ addr < range.finish := by
  rw [Range.contains, Bool.and_eq_true, decide_eq_true_eq, decide_eq_true_eq]

theorem Recorded.lt {page : Nat} (h : Recorded target right page) : PAGE_SIZE * (page + 1) < 2 ^ 64 := by
  unfold Recorded at h
  cases hrecord : target.heap.ledger.record page with
  | none =>
    rw [hrecord] at h
    cases h
  | some access => exact target.record_lt page access hrecord

theorem Recorded.page_lt {page : Nat} (h : Recorded target right page) : page < 2 ^ 64 := by
  have := h.lt
  unfold PAGE_SIZE at this
  omega

theorem Accessible.lt {addr : Nat} (h : Accessible target right addr) : addr + 1 < 2 ^ 64 := by
  obtain hrecorded | hblock | hssa := h
  · have := hrecorded.lt
    unfold PAGE_SIZE at this
    omega
  · have := Range.contains_iff.mp hblock
    have := target.block.finish_lt
    omega
  · have := Range.contains_iff.mp hssa
    have := target.ssa.finish_lt
    omega

end

end SgxGdb

end Enarx.Shims
