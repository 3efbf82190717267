import Enarx.Sgx.Steps

/-!
# No page is writable and executable

The states that the enclave goes through: after every instruction of the host, after
every instruction of the enclave and after every edit of the heap. Whatever the host does, no page of the heap allows both writing
and executing in any of them. Whether the same can be said of the records depends
on the bits that the ledger has for the rights.
-/
namespace Enarx.Sgx

open Exec (Preserves)
open Sallyport (CInt Errno)

variable {epcm epcm' : Epcm} {page : Nat} {access : Flags} {entry : Option EpcPage}

theorem Epcm.modify_of_some {entry : EpcPage} (f : EpcPage → EpcPage)
    (h : epcm page = some entry) : epcm.modify page f = Function.update epcm page (some (f entry)) := by
  rw [Epcm.modify, h]
  rfl

theorem accept_eq_some {info : SecInfo} (h : accept page info epcm = some epcm') :
    ∃ contents, epcm page = some ⟨info, contents⟩ ∧ epcm' = Function.update epcm page
      (some ⟨{ info with pending := false, modified := false, restricted := false }, contents⟩) := by
  unfold accept at h
  split at h
  · cases h
  · next entry hentry =>
    split at h <;> cases h
    next hinfo =>
    subst hinfo
    exact ⟨entry.contents, hentry, Epcm.modify_of_some _ hentry⟩

theorem acceptCopy_eq_some {source : Nat → Byte} (h : acceptCopy page access source epcm = some epcm') :
    epcm' = Function.update epcm page (some ⟨{ access, pageType := .regular }, source⟩) := by
  unfold acceptCopy at h
  split at h
  · cases h
  · next entry hentry =>
    split at h <;> cases h
    exact Epcm.modify_of_some _ hentry

theorem extend_eq_some (h : extend page access epcm = some epcm') :
    ∃ entry, epcm page = some entry ∧ entry.info.Settled ∧ epcm' = Function.update epcm page
      (some { entry with info := { entry.info with access := entry.info.access.union access } }) := by
  unfold extend at h
  split at h
  · cases h
  · next entry hentry =>
    split at h <;> cases h
    next hsettled => exact ⟨entry, hentry, hsettled, Epcm.modify_of_some _ hentry⟩

def Flags.Exclusive (access : Flags) : Prop := ¬(access.write = true ∧ access.execute = true)

instance (access : Flags) : Decidable access.Exclusive := inferInstanceAs (Decidable (¬_))

def Flags.AtMostRead (access : Flags) : Prop := access.write = false ∧ access.execute = false

def ExclusiveEntry (entry : Option EpcPage) : Prop := ∀ page, entry = some page → page.info.access.Exclusive

def ReadOnlyEntry (entry : Option EpcPage) : Prop :=
  ∀ page, entry = some page → page.info.Settled → page.info.access.AtMostRead

variable {prot : CInt} {length index : Nat} {bits : AccessBits}

theorem isProtAllowed_exclusive (h : isProtAllowed prot = true) : (Flags.ofProt prot).Exclusive := by
  unfold isProtAllowed at h
  rw [decide_eq_true_eq] at h
  obtain rfl | rfl | rfl := h <;> decide

theorem Flags.Exclusive.inter (h : access.Exclusive) (other : Flags) : (access.inter other).Exclusive := by
  intro hboth
  simp only [Flags.inter, Bool.and_eq_true] at hboth
  exact h ⟨hboth.1.1, hboth.2.1⟩

theorem Flags.AtMostRead.inter (h : access.AtMostRead) (other : Flags) : (access.inter other).AtMostRead := by
  simp [AtMostRead, Flags.inter, h.1, h.2]

theorem Flags.AtMostRead.union {other : Flags} (h : access.AtMostRead) (hother : other.Exclusive) :
    (access.union other).Exclusive := by
  simpa [Exclusive, Flags.union, h.1, h.2] using hother

theorem HostOp.entry_eq_some {op : HostOp} {page : EpcPage}
    (h : op.entry entry = some page) : page.info.access.Exclusive ∧ ¬page.info.Settled ∨
      ∃ before, entry = some before ∧ (page = before ∨
        ∃ access, page.info = { before.info with access := before.info.access.inter access, restricted := true }) := by
  cases op with
  | eaug index =>
    cases entry with
    | none =>
      cases h
      exact .inl (by decide)
    | some before =>
      cases h
      exact .inr ⟨page, rfl, .inl rfl⟩
  | emodpr index access =>
    cases entry with
    | none => cases h
    | some before =>
      refine .inr ⟨before, rfl, ?_⟩
      unfold HostOp.entry at h
      dsimp only at h
      split at h <;> cases h
      · exact .inr ⟨access, rfl⟩
      · exact .inl rfl
  | emodt index =>
    cases entry with
    | none => cases h
    | some before =>
      unfold HostOp.entry at h
      dsimp only at h
      split at h <;> cases h
      · exact .inl ⟨fun hboth => (nomatch hboth.1), fun hsettled => (nomatch hsettled.1)⟩
      · exact .inr ⟨page, rfl, .inl rfl⟩
  | eremove index => cases h

theorem HostOp.entry_exclusive (op : HostOp) (h : ExclusiveEntry entry) :
    ExclusiveEntry (op.entry entry) := by
  intro page hpage
  obtain ⟨hexclusive, -⟩ | ⟨before, hbefore, rfl | ⟨access, hinfo⟩⟩ := HostOp.entry_eq_some hpage
  · exact hexclusive
  · exact h page hbefore
  · rw [hinfo]
    exact (h before hbefore).inter access

theorem HostOp.entry_readOnly (op : HostOp) (h : ReadOnlyEntry entry) : ReadOnlyEntry (op.entry entry) := by
  intro page hpage hsettled
  obtain ⟨-, hpending⟩ | ⟨before, hbefore, rfl | ⟨access, hinfo⟩⟩ := HostOp.entry_eq_some hpage
  · exact absurd hsettled hpending
  · exact h page hbefore hsettled
  · rw [hinfo] at hsettled ⊢
    exact (h before hbefore hsettled).inter access

/-- The rights that the shim has recorded satisfy a predicate, and so do no rights. -/
structure AccessBits.Meets (bits : AccessBits) (R : Access → Prop) : Prop where
  readWrite : R bits.readWrite
  ofProt : ∀ prot, isProtAllowed prot = true → R (bits.ofProt prot)
  empty : R 0

/-- A heap in its old place, with records that are old or satisfy a predicate. -/
structure Heap.Edited (R : Access → Prop) (after before : Heap) : Prop where
  bounds : after.start = before.start ∧ after.finish = before.finish
  record : ∀ page access, after.ledger.record page = some access →
    before.ledger.record page = some access ∨ R access

theorem Heap.bounds_of_area {heap heap' : Heap} (h : heap'.area = heap.area) :
    heap'.start = heap.start ∧ heap'.finish = heap.finish := by
  simp only [Heap.area, Prod.mk.injEq] at h
  exact ⟨h.1, h.2.1⟩

theorem Heap.brk_bounds (heap : Heap) (bits : AccessBits) (room : Bool) (next : Nat) :
    (heap.brk bits room next).2.start = heap.start ∧ (heap.brk bits room next).2.finish = heap.finish := by
  obtain ⟨heq, -⟩ | ⟨heap', heq, -, -, ⟨-, harea, -⟩ | ⟨-, harea, -⟩⟩ := Heap.brk_cases heap bits room next
  · rw [heq]
    exact ⟨rfl, rfl⟩
  all_goals
    rw [heq]
    simp only [Heap.area, Prod.mk.injEq] at harea
    exact ⟨harea.1, harea.2.1⟩

theorem Heap.brk_ledger (heap : Heap) (bits : AccessBits) (room : Bool) (next : Nat) :
    ((heap.brk bits room next).1 ≤ heap.brkMax ∧ (heap.brk bits room next).2.ledger = heap.ledger) ∨
      (heap.brkMax < (heap.brk bits room next).1 ∧
        heap.ledger.map room heap.brkMax ((heap.brk bits room next).1 - heap.brkMax) bits.readWrite =
          .ok (heap.brk bits room next).2.ledger) := by
  obtain ⟨heq, -⟩ | ⟨heap', heq, -, -, ⟨hle, -, hsame⟩ | ⟨hlt, -, hmap⟩⟩ := Heap.brk_cases heap bits room next
  · rw [heq]
    exact .inl ⟨heap.ordered.2, rfl⟩
  · rw [heq]
    exact .inl ⟨hle, hsame⟩
  · rw [heq]
    exact .inr ⟨hlt, hmap⟩

theorem Heap.mmap_ledger {heap heap' : Heap} {room : Bool} {addr : Option Nat} {access : Access}
    {found : Nat} (h : heap.mmap room addr length access = some (found, heap')) :
    (addr <|> heap.ledger.findFreeBack length) = some found ∧
      heap.ledger.map room found length access = .ok heap'.ledger := by
  obtain ⟨place, hplace, h⟩ := Option.bind_eq_some_iff.mp h
  split at h
  · next ledger hmap =>
    cases h
    exact ⟨hplace, hmap⟩
  · cases h

theorem Heap.munmap_ledger {heap heap' : Heap} {room : Bool} {kept : Nat → Bool} {addr : Nat}
    (h : heap.munmap room kept addr length = .ok heap') :
    heap.ledger.unmap room kept addr length = .ok heap'.ledger := by
  unfold Heap.munmap at h
  split at h <;> cases h
  assumption

namespace Heap.Edited

variable {R : Access → Prop} {heap heap' : Heap} {room : Bool}

theorem refl (heap : Heap) : heap.Edited R heap := ⟨⟨rfl, rfl⟩, fun _ _ => .inl⟩

variable {addr length : Nat}

theorem of_map {access : Access} (hbounds : heap'.start = heap.start ∧ heap'.finish = heap.finish)
    (h : heap.ledger.map room addr length access = .ok heap'.ledger) (haccess : R access) :
    heap'.Edited R heap := by
  refine ⟨hbounds, fun page found hpage => ?_⟩
  rw [Ledger.edit_ok h] at hpage
  unfold Ledger.mapped at hpage
  dsimp only at hpage
  split at hpage
  · cases hpage
    exact .inr haccess
  · exact .inl hpage

theorem mmap {addr : Option Nat} {access : Access} {found : Nat}
    (h : heap.mmap room addr length access = some (found, heap')) (haccess : R access) : heap'.Edited R heap :=
  .of_map (Heap.bounds_of_area (Heap.mmap_area h)) (Heap.mmap_ledger h).2 haccess

theorem munmap {kept : Nat → Bool} (h : heap.munmap room kept addr length = .ok heap')
    (hempty : R 0) : heap'.Edited R heap := by
  refine ⟨Heap.bounds_of_area (Heap.munmap_area h), fun page found hpage => ?_⟩
  rw [Ledger.edit_ok (Heap.munmap_ledger h)] at hpage
  unfold Ledger.unmapped at hpage
  dsimp only at hpage
  split at hpage
  · cases hpage
  · obtain ⟨access, haccess, hfound⟩ := Option.map_eq_some_iff.mp hpage
    split at hfound <;> subst hfound
    · exact .inl haccess
    · exact .inr hempty

theorem brk (heap : Heap) {bits : AccessBits} (room : Bool) (next : Nat) (hreadWrite : R bits.readWrite) :
    (heap.brk bits room next).2.Edited R heap := by
  obtain ⟨-, hsame⟩ | ⟨-, hmap⟩ := Heap.brk_ledger heap bits room next
  · refine ⟨Heap.brk_bounds heap bits room next, fun page access hpage => .inl ?_⟩
    rwa [hsame] at hpage
  · exact .of_map (Heap.brk_bounds heap bits room next) hmap hreadWrite

end Heap.Edited

theorem Heap.Edits.edited {R : Access → Prop} (hbits : bits.Meets R) {before after : Heap}
    (h : before.Edits bits after) : after.Edited R before := by
  cases h with
  | refl => exact .refl before
  | mmap hprot h => exact .mmap h (hbits.ofProt _ hprot)
  | munmap h => exact .munmap h hbits.empty

/-- No page of the heap allows both writing and executing, and all records satisfy a predicate. -/
structure Snapshot.Guarded (R : Access → Prop) (state : Snapshot) : Prop where
  page : ∀ page, state.heap.start ≤ page → page < state.heap.finish → ExclusiveEntry (state.epcm page)
  record : ∀ page access, state.heap.ledger.record page = some access → R access

theorem Epcm.update_rule {C : Option EpcPage → Prop}
    (h : C (epcm page)) (hentry : page = index → C entry) : C (Function.update epcm index entry page) := by
  by_cases heq : page = index
  · subst heq
    rw [Function.update_self]
    exact hentry rfl
  · rw [Function.update_of_ne heq]
    exact h

theorem Snapshot.Guarded.update {R : Access → Prop} {heap : Heap} (h : Snapshot.Guarded R ⟨heap, epcm⟩)
    (hentry : ExclusiveEntry (epcm index) → ExclusiveEntry entry) :
    Snapshot.Guarded R ⟨heap, Function.update epcm index entry⟩ where
  page page hlo hhi := Epcm.update_rule (h.page page hlo hhi) fun heq => hentry (heq ▸ h.page page hlo hhi)
  record := h.record

/-- What the host does leaves a page that can at most be read so. -/
def KeepsReadOnly (before after : Epcm) : Prop := ∀ page, ReadOnlyEntry (before page) → ReadOnlyEntry (after page)

theorem applyAll_guarded {R : Access → Prop} {heap : Heap} (ops : List HostOp)
    (h : Snapshot.Guarded R ⟨heap, epcm⟩) : (∀ state ∈ statesDuring ops ⟨heap, epcm⟩, state.Guarded R) ∧
      Snapshot.Guarded R ⟨heap, applyAll ops epcm⟩ ∧ KeepsReadOnly epcm (applyAll ops epcm) := by
  induction ops generalizing epcm with
  | nil => exact ⟨nofun, h, fun _ => id⟩
  | cons op ops ih =>
    have hnext : Snapshot.Guarded R ⟨heap, op.apply epcm⟩ := h.update op.entry_exclusive
    obtain ⟨hstates, hlast, hkeeps⟩ := ih hnext
    refine ⟨List.forall_mem_cons.mpr ⟨hnext, hstates⟩, hlast, fun page hpage => hkeeps page ?_⟩
    exact Epcm.update_rule hpage fun heq => op.entry_readOnly (heq ▸ hpage)

/-- The enclave is guarded, and it has been so in all its states. -/
structure Enclave.Guarded (R : Access → Prop) (enclave : Enclave) : Prop where
  now : enclave.snapshot.Guarded R
  before : ∀ state ∈ enclave.seen, state.Guarded R

namespace Enclave.Guarded

variable {R : Access → Prop} {enclave : Enclave}

theorem tick (h : enclave.Guarded R) : enclave.tick.Guarded R :=
  ⟨h.now, List.forall_mem_cons.mpr ⟨h.now, h.before⟩⟩

theorem hosted (h : enclave.Guarded R) (ops : List HostOp) : (enclave.hosted ops).Guarded R := by
  obtain ⟨hstates, hlast, -⟩ := applyAll_guarded ops h.now
  exact ⟨hlast, List.forall_mem_append.mpr ⟨hstates, h.before⟩⟩

end Enclave.Guarded

section

variable (host : Host) {R : Access → Prop}

theorem sally_guarded (request : Request) : Preserves (Enclave.Guarded R) (sally host request) := by
  intro enclave h
  have hafter := (h.hosted (host.serve enclave.clock request)).tick
  unfold sally
  cases host.answer enclave.clock request <;> exact hafter

theorem instruction_guarded {run : Epcm → Option Epcm} {failed : Stop ε} {Q : Epcm → Prop} {enclave : Enclave}
    (h : enclave.Guarded R) (hrun : ∀ middle epcm, Snapshot.Guarded R ⟨enclave.heap, middle⟩ →
      KeepsReadOnly enclave.epcm middle → run middle = some epcm → Snapshot.Guarded R ⟨enclave.heap, epcm⟩ ∧ Q epcm) :
    (instruction host run failed).Yields enclave (fun _ after => after.Guarded R ∧ Q after.epcm)
      fun _ after => after.Guarded R := by
  have hmiddle := h.hosted (host.between enclave.clock)
  obtain ⟨-, -, hkeeps⟩ := applyAll_guarded (host.between enclave.clock) h.now
  unfold Exec.Yields instruction
  dsimp only
  cases hepcm : run (enclave.hosted (host.between enclave.clock)).epcm with
  | none => exact hmiddle.tick
  | some epcm =>
    obtain ⟨hafter, hresult⟩ := hrun _ epcm hmiddle.now hkeeps hepcm
    exact ⟨Enclave.Guarded.tick ⟨hafter, hmiddle.before⟩, hresult⟩

theorem accept_guarded (page : Nat) (info : SecInfo) (failed : Stop ε) {enclave : Enclave} (h : enclave.Guarded R) :
    (instruction host (accept page info) failed).Yields enclave
      (fun _ after => after.Guarded R ∧ (info.access.AtMostRead → ReadOnlyEntry (after.epcm page)))
      fun _ after => after.Guarded R := by
  refine instruction_guarded (Q := fun epcm => info.access.AtMostRead → ReadOnlyEntry (epcm page)) host h ?_
  intro middle epcm hmiddle _ haccept
  obtain ⟨contents, hentry, rfl⟩ := accept_eq_some haccept
  refine ⟨hmiddle.update ?_, ?_⟩
  · rintro hexclusive _ ⟨⟩
    exact hexclusive ⟨info, contents⟩ hentry
  · rintro hread _ hpage -
    rw [Function.update_self] at hpage
    cases hpage
    exact hread

theorem mmapGuest_guarded {prot : CInt} (hprot : (Flags.ofProt prot).Exclusive) (list : List Nat) :
    Preserves (Enclave.Guarded R) (mmapGuest host prot list : Shim ε Unit) := by
  induction list with
  | nil => exact .pure _
  | cons page rest ih =>
    refine Preserves.bind (.of_yields fun enclave h => ?_) fun _ => ih
    refine (instruction_guarded (Q := fun _ => True) host h ?_).imp (fun _ _ => And.left) fun _ _ => id
    intro middle epcm hmiddle _ hcopy
    obtain rfl := acceptCopy_eq_some hcopy
    refine ⟨hmiddle.update ?_, trivial⟩
    rintro - _ ⟨⟩
    exact hprot

theorem mprotectGuest_guarded {prot : CInt} (hprot : (Flags.ofProt prot).Exclusive) (list : List Nat) :
    Preserves (Enclave.Guarded R) (mprotectGuest host prot list : Shim ε Unit) := by
  induction list with
  | nil => exact .pure _
  | cons page rest ih =>
    refine .of_yields fun enclave h => (accept_guarded host page _ _ h).bind ?_
    rintro _ accepted ⟨haccepted, hread⟩
    refine Exec.Yields.bind (Q := fun _ after => after.Guarded R) ?_ fun _ after hafter => ih.yields hafter
    refine (instruction_guarded (Q := fun _ => True) host haccepted ?_).imp (fun _ _ => And.left) fun _ _ => id
    intro middle epcm hmiddle hkeeps hextend
    obtain ⟨entry, hentry, hsettled, rfl⟩ := extend_eq_some hextend
    refine ⟨hmiddle.update ?_, trivial⟩
    rintro - _ ⟨⟩
    exact (hkeeps page (hread ⟨rfl, rfl⟩) entry hentry hsettled).union hprot

theorem munmapGuest_guarded (list : List Nat) :
    Preserves (Enclave.Guarded R) (munmapGuest host list : Shim ε Unit) := by
  induction list with
  | nil => exact .pure _
  | cons page rest ih =>
    refine Preserves.bind (.of_yields fun enclave h => ?_) fun _ => ih
    exact (accept_guarded host page _ _ h).imp (fun _ _ => And.left) fun _ _ => id

theorem withHeap_guarded {edit : Nat → Heap → α × Heap} (h : ∀ clock heap, (edit clock heap).2.Edited R heap) :
    Preserves (Enclave.Guarded R) (withHeap edit : Shim ε α) := by
  intro enclave hguarded
  have hedited := h enclave.clock enclave.heap
  refine Enclave.Guarded.tick ⟨⟨fun page hlo hhi => ?_, fun page access haccess => ?_⟩, hguarded.before⟩
  · exact hguarded.now.page page (hedited.bounds.1 ▸ hlo) (hedited.bounds.2 ▸ hhi)
  · exact (hedited.record page access haccess).elim (hguarded.now.record page access) id

variable {host} (hbits : host.ledger.Meets R)

include hbits

theorem invariant_guarded : Invariant host (Enclave.Guarded R) where
  sally := sally_guarded host
  mmapGuest hprot := mmapGuest_guarded host (isProtAllowed_exclusive hprot)
  mprotectGuest hprot := mprotectGuest_guarded host (isProtAllowed_exclusive hprot)
  munmapGuest := munmapGuest_guarded host
  withHeap h := withHeap_guarded fun clock heap => (h clock heap).edited hbits

theorem brk_guarded (addr : Option Nat) : Preserves (Enclave.Guarded R) (brk host addr) := by
  refine (orPanic_preserves _).bind fun next => Preserves.get.bind fun enclave => ?_
  refine (withHeap_guarded fun clock heap => .brk heap _ next hbits.readWrite).bind fun page =>
    .ite (fun _ => ?_) fun _ => orPanic_preserves _
  exact (sally_guarded host _).bind fun _ => (mmapGuest_guarded host (by decide) _).bind fun _ => orPanic_preserves _

end

inductive MemCall where
  | brk (addr : Option Nat)
  | mmap (addr : Option Nat) (len : Nat) (prot flags fd : CInt) (offset : BitVec 64)
  | mprotect (addr length : Nat) (prot : CInt)
  | munmap (addr length : Nat)
  deriving DecidableEq, Repr

section

variable (host : Host)

def MemCall.run : MemCall → Shim Errno Nat
  | .brk addr => Sgx.brk host addr
  | .mmap addr len prot flags fd offset => Sgx.mmap host addr len prot flags fd offset
  | .mprotect addr length prot => do
    Sgx.mprotect host addr length prot
    return 0
  | .munmap addr length => do
    Sgx.munmap host addr length
    return 0

theorem MemCall.guarded {R : Access → Prop} {host : Host} (hbits : host.ledger.Meets R) (call : MemCall) :
    Preserves (Enclave.Guarded R) (call.run host) := by
  have hinv := invariant_guarded hbits
  cases call with
  | brk addr => exact brk_guarded hbits addr
  | mmap addr len prot flags fd offset => exact hinv.mmap addr len prot flags fd offset
  | mprotect addr length prot => exact (hinv.mprotectUnlocked addr length prot).bind fun _ => .pure 0
  | munmap addr length => exact (hinv.munmapUnlocked addr length).bind fun _ => .pure 0

/-- The states of an enclave that is given one call after the other. It ends when the shim panics or
finds that it is attacked. -/
def statesOf : Enclave → List MemCall → List Snapshot
  | enclave, [] => enclave.snapshot :: enclave.seen
  | enclave, call :: calls =>
    match call.run host enclave with
    | (.ok _, after) | (.error (.err _), after) => statesOf after calls
    | (.error _, after) => after.snapshot :: after.seen

theorem states_guarded {R : Access → Prop} {host : Host} (hbits : host.ledger.Meets R) {enclave : Enclave}
    (h : enclave.Guarded R) (calls : List MemCall) : ∀ state ∈ statesOf host enclave calls, state.Guarded R := by
  induction calls generalizing enclave with
  | nil => exact List.forall_mem_cons.mpr ⟨h.now, h.before⟩
  | cons call calls ih =>
    have hafter := call.guarded hbits enclave h
    rw [statesOf]
    rcases hrun : call.run host enclave with ⟨(_ | _ | _) | _, after⟩ <;> rw [hrun] at hafter
    · exact ih hafter
    · exact List.forall_mem_cons.mpr ⟨hafter.now, hafter.before⟩
    · exact List.forall_mem_cons.mpr ⟨hafter.now, hafter.before⟩
    · exact ih hafter

end

def Snapshot.PagesExclusive (state : Snapshot) : Prop :=
  ∀ page, state.heap.start ≤ page → page < state.heap.finish → ExclusiveEntry (state.epcm page)

def AccessBits.Both (bits : AccessBits) (access : Access) : Bool :=
  access.has bits.WRITE && access.has bits.EXECUTE

def Snapshot.RecordsExclusive (bits : AccessBits) (state : Snapshot) : Prop :=
  ∀ page access, state.heap.ledger.record page = some access → bits.Both access = false

/-- The bits tell writing and executing apart in the rights that the shim has recorded. -/
structure AccessBits.Separate (bits : AccessBits) : Prop where
  readWrite : bits.Both bits.readWrite = false
  ofProt : ∀ prot, isProtAllowed prot = true → bits.Both (bits.ofProt prot) = false

theorem AccessBits.Separate.meets (h : bits.Separate) :
    bits.Meets fun access => bits.Both access = false := by
  refine ⟨h.readWrite, h.ofProt, ?_⟩
  by_contra hempty
  rw [Bool.not_eq_false, Both, Bool.and_eq_true] at hempty
  -- bits that no rights at all have are in all of them
  have hreadWrite := h.readWrite
  rw [Both, Access.zero_has hempty.1, Access.zero_has hempty.2, Access.has_zero] at hreadWrite
  cases hreadWrite

def emptyHeap : Snapshot := ⟨Heap.new 16 32, fun _ => none⟩

def Snapshot.start (state : Snapshot) : Enclave := ⟨state.heap, state.epcm, 0, []⟩

def emptyEnclave : Enclave := emptyHeap.start

def hostWith (bits : AccessBits) : Host := { obligingHost with ledger := { sampleLedger with toAccessBits := bits } }

theorem emptyHeap_exclusive (bits : AccessBits) : emptyHeap.PagesExclusive ∧ emptyHeap.RecordsExclusive bits :=
  ⟨fun _ _ _ _ hentry => (nomatch hentry), fun _ _ hrecord => (nomatch hrecord)⟩

theorem run_mem_statesOf (host : Host) {call : MemCall} {enclave : Enclave} {value : Nat}
    (h : (call.run host enclave).1 = .ok value) :
    (call.run host enclave).2.snapshot ∈ statesOf host enclave [call] := by
  rw [statesOf]
  rcases hrun : call.run host enclave with ⟨result, after⟩
  rw [hrun] at h
  dsimp only at h
  subst h
  exact List.mem_cons_self

def mapPage (prot : CInt) : MemCall := .mmap none 1 prot MAP_PRIVATE_ANONYMOUS (-1) 0

set_option maxRecDepth 20000 in
theorem run_mapPage (bits : AccessBits) (h : isProtAllowed prot = true) :
    ((mapPage prot).run (hostWith bits) emptyEnclave).1 = .ok 0x1f000 ∧
      ((mapPage prot).run (hostWith bits) emptyEnclave).2.heap.ledger.record 31 = some (bits.ofProt prot) := by
  unfold isProtAllowed at h
  rw [decide_eq_true_eq] at h
  obtain rfl | rfl | rfl := h <;> exact ⟨rfl, rfl⟩

/-- Whatever the host does, no page of the heap is ever writable and executable. For the records of
the ledger this is so exactly if its bits tell the two apart. -/
theorem states_exclusive_iff (bits : AccessBits) :
    (∀ (host : Host) (start : Snapshot) (calls : List MemCall), start.PagesExclusive →
      ∀ state ∈ statesOf host start.start calls, state.PagesExclusive) ∧
    ((∀ (host : Host) (start : Snapshot) (calls : List MemCall), host.ledger.toAccessBits = bits →
      start.PagesExclusive ∧ start.RecordsExclusive bits →
      ∀ state ∈ statesOf host start.start calls, state.PagesExclusive ∧ state.RecordsExclusive bits) ↔
      bits.Separate) := by
  refine ⟨fun host start calls hstart state hstate => ?_, fun h => ⟨?_, fun prot hprot => ?_⟩, ?_⟩
  · have htrue : host.ledger.Meets fun _ => True := ⟨trivial, fun _ _ => trivial, trivial⟩
    have hguarded : start.start.Guarded fun _ => True := ⟨⟨hstart, fun _ _ _ => trivial⟩, by intro _ h; cases h⟩
    exact (states_guarded htrue hguarded calls state hstate).page
  · have hstates := h (hostWith bits) emptyHeap [.brk (some 0x11000)] rfl (emptyHeap_exclusive bits)
    exact (hstates _ (run_mem_statesOf (hostWith bits) rfl)).2 16 _ rfl
  · have hstates := h (hostWith bits) emptyHeap [mapPage prot] rfl (emptyHeap_exclusive bits)
    obtain ⟨hvalue, hrecord⟩ := run_mapPage bits hprot
    exact (hstates _ (run_mem_statesOf _ hvalue)).2 31 _ hrecord
  · rintro hseparate host start calls rfl ⟨hpages, hrecords⟩ state hstate
    have hguarded : start.start.Guarded _ := ⟨⟨hpages, hrecords⟩, by intro _ h; cases h⟩
    have hafter := states_guarded hseparate.meets hguarded calls state hstate
    exact ⟨hafter.page, hafter.record⟩

/-- The bits of `mmledger` 0.3.0, the same for all rights. -/
def sameBits : AccessBits := ⟨1, 1, 1⟩

/-- A page that is mapped for reading and writing has a record that allows executing. -/
theorem records_not_exclusive :
    emptyHeap.PagesExclusive ∧ emptyHeap.RecordsExclusive sameBits ∧
      ∃ state ∈ statesOf (hostWith sameBits) emptyHeap.start [mapPage (PROT_READ ||| PROT_WRITE)],
        ¬state.RecordsExclusive sameBits := by
  obtain ⟨hpages, hrecords⟩ := emptyHeap_exclusive sameBits
  obtain ⟨hvalue, hrecord⟩ := run_mapPage sameBits (by decide : isProtAllowed (PROT_READ ||| PROT_WRITE) = true)
  refine ⟨hpages, hrecords, _, run_mem_statesOf _ hvalue, fun hexclusive => ?_⟩
  exact absurd (hexclusive 31 _ hrecord) (by decide)

end Enarx.Sgx
