import Enarx.Sallyport.Libc

/-!
# The heap of the SGX shim

`Heap` keeps the break and a ledger of the memory that is handed out. The ledger
is the one of `mmledger`: a record for every page in use, changed as a whole or
not at all, and an edit may fail because there is no room for another record.
`Mmledger` is what is left open of that crate. Addresses are those of pages,
counted in pages.
-/
namespace Enarx.Sgx

open Sallyport (CInt)

def PROT_READ : CInt := 1
def PROT_WRITE : CInt := 2
def PROT_EXEC : CInt := 4

/-- `mmledger::Access`, a set of bits. -/
abbrev Access := BitVec 64

namespace Access

def has (access right : Access) : Bool := access &&& right = right

end Access

/-- The bits that `mmledger` has for the rights. -/
structure AccessBits where
  READ : Access
  WRITE : Access
  EXECUTE : Access

namespace AccessBits

variable (bits : AccessBits)

/-- `Access::from_bits_truncate(prot as usize)`. -/
def ofProt (prot : CInt) : Access := prot.signExtend 64 &&& (bits.READ ||| bits.WRITE ||| bits.EXECUTE)

def readWrite : Access := bits.READ ||| bits.WRITE

end AccessBits

/-- What is left open of `mmledger`: its bits, whether an edit finds room for its records, and which
pages keep their rights when others are unmapped. A page that does not is left with an empty
`Access`. The last two depend on how much has happened before. -/
structure Mmledger extends AccessBits where
  room : Nat → Bool
  kept : Nat → Nat → Bool

theorem Access.has_zero (access : Access) : access.has 0 = true := decide_eq_true BitVec.and_zero

theorem Access.zero_has {right : Access} (h : Access.has 0 right = true) : right = 0 :=
  (of_decide_eq_true h).symm.trans BitVec.zero_and

def pages (addr length : Nat) : List Nat := List.range' addr length

theorem mem_pages {addr length page : Nat} :
    page ∈ pages addr length ↔ addr ≤ page ∧ page < addr + length := List.mem_range'_1

inductive LedgerError where
  | noCapacity
  | invalidRegion
  deriving DecidableEq, Repr

structure Ledger where
  start : Nat
  finish : Nat
  record : Nat → Option Access

namespace Ledger

def new (start finish : Nat) : Ledger := ⟨start, finish, fun _ => none⟩

variable (ledger : Ledger)

def overlaps (addr length : Nat) : Bool :=
  (pages addr length).any fun page => (ledger.record page).isSome

/-- The rights that are common to all pages of a range, if all of them are in use. -/
def contains (addr length : Nat) : Option Access :=
  (pages addr length).foldr (fun page rest => do return (← ledger.record page) &&& (← rest))
    (some (BitVec.allOnes 64))

def findFreeBack (length : Nat) : Option Nat :=
  (pages ledger.start (ledger.finish - ledger.start)).reverse.find? fun addr =>
    addr + length ≤ ledger.finish && !ledger.overlaps addr length

/-- New records because of a range; `room` is whether they find room. -/
def edit (room : Bool) (addr length : Nat) (record : Nat → Option Access) : Except LedgerError Ledger :=
  if length = 0 ∨ addr < ledger.start ∨ ledger.finish < addr + length then .error .invalidRegion
  else if room then .ok { ledger with record }
  else .error .noCapacity

def mapped (addr length : Nat) (access : Access) (page : Nat) : Option Access :=
  if addr ≤ page ∧ page < addr + length then some access else ledger.record page

def unmapped (kept : Nat → Bool) (addr length : Nat) (page : Nat) : Option Access :=
  if addr ≤ page ∧ page < addr + length then none
  else (ledger.record page).map fun access => if kept page then access else 0

def map (room : Bool) (addr length : Nat) (access : Access) : Except LedgerError Ledger :=
  ledger.edit room addr length (ledger.mapped addr length access)

def unmap (room : Bool) (kept : Nat → Bool) (addr length : Nat) : Except LedgerError Ledger :=
  ledger.edit room addr length (ledger.unmapped kept addr length)

variable {ledger}

theorem contains_isSome {addr length : Nat} : (ledger.contains addr length).isSome ↔
    ∀ page, addr ≤ page → page < addr + length → (ledger.record page).isSome := by
  have hall : ∀ list : List Nat, (list.foldr
      (fun page rest => do return (← ledger.record page) &&& (← rest))
      (some (BitVec.allOnes 64))).isSome ↔ ∀ page ∈ list, (ledger.record page).isSome := by
    intro list
    induction list with
    | nil => simp
    | cons page rest ih =>
      rw [List.foldr_cons, List.forall_mem_cons, ← ih]
      cases ledger.record page with
      | none => simp
      | some access =>
        cases List.foldr _ (some (BitVec.allOnes 64)) rest <;> simp
  rw [contains, hall]
  simp only [mem_pages, and_imp]

theorem edit_ok {room : Bool} {addr length : Nat} {record : Nat → Option Access} {after : Ledger}
    (h : ledger.edit room addr length record = .ok after) : after = { ledger with record } := by
  unfold edit at h
  split_ifs at h
  cases h
  rfl

end Ledger

structure Heap where
  start : Nat
  finish : Nat
  brkAddr : Nat
  brkMax : Nat
  ledger : Ledger
  ordered : start ≤ brkAddr ∧ brkAddr ≤ brkMax

namespace Heap

def new (start finish : Nat) : Heap :=
  ⟨start, finish, start, start, Ledger.new start finish, le_rfl, le_rfl⟩

variable (heap : Heap)

def contains (addr length : Nat) : Option Access := heap.ledger.contains addr length

/-- `Heap::brk`, with the address that it returns. -/
def brk (bits : AccessBits) (room : Bool) (next : Nat) : Nat × Heap :=
  if hrange : next < heap.start ∨ heap.finish ≤ next then (heap.brkAddr, heap)
  else if hle : next ≤ heap.brkMax then
    (next, { heap with brkAddr := next, ordered := ⟨by omega, hle⟩ })
  else
    let length := next - heap.brkMax
    if heap.ledger.overlaps heap.brkMax length then (heap.brkAddr, heap)
    else
      match heap.ledger.map room heap.brkMax length bits.readWrite with
      | .ok ledger =>
        (next, { heap with
          brkMax := next
          ledger
          ordered := ⟨heap.ordered.1, heap.ordered.2.trans (Nat.le_of_not_le hle)⟩ })
      | .error _ => (heap.brkAddr, heap)

def mmap (room : Bool) (addr : Option Nat) (length : Nat) (access : Access) : Option (Nat × Heap) := do
  let addr ← addr <|> heap.ledger.findFreeBack length
  match heap.ledger.map room addr length access with
  | .ok ledger => some (addr, { heap with ledger })
  | .error _ => none

def munmap (room : Bool) (kept : Nat → Bool) (addr length : Nat) : Except LedgerError Heap :=
  match heap.ledger.unmap room kept addr length with
  | .ok ledger => .ok { heap with ledger }
  | .error error => .error error

end Heap

end Enarx.Sgx
