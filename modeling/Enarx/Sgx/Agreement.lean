import Enarx.Sgx.Exclusive
import Enarx.Shims.Brk

/-!
# The ledger and the pages

With a host that does what it says and a ledger that tells the rights apart, the
records describe the pages of the heap as long as the host refuses no request for
new pages, the ledger finds room for the rights that `mprotect` has changed, and
`unmap` leaves the rights of the other pages alone.
-/
namespace Enarx.Sgx

open Sallyport (CInt Errno)
open Sallyport.Libc (ENOMEM)

/-- The host may refuse a request. It does what it acknowledges, and nothing else. -/
structure Host.Honest (host : Host) : Prop where
  serves : ∀ clock request, host.answer clock request = .ok () →
    host.serve clock request = obligingHost.serve clock request
  refuses : ∀ clock request errno, host.answer clock request = .error errno → host.serve clock request = []
  waits : ∀ clock, host.between clock = []

def Host.Grants (host : Host) : Prop := ∀ clock request, host.answer clock request = .ok ()

def Request.pages : Request → List Nat
  | .mmapHost addr length _ | .mprotectHost addr length _ | .munmapHost addr length | .trimSgxPages addr length =>
    Sgx.pages addr length

variable {page addr length : Nat} {ledger : Ledger} {room : Bool} {after : Enclave}

theorem applyAll_of_not_mem {ops : List HostOp} (h : ∀ op ∈ ops, op.page ≠ page) (epcm : Epcm) :
    applyAll ops epcm page = epcm page := by
  induction ops generalizing epcm with
  | nil => rfl
  | cons op ops ih =>
    rw [List.forall_mem_cons] at h
    exact (ih h.2 _).trans (Function.update_of_ne h.1.symm _ _)

theorem serve_page {clock : Nat} {request : Request} {op : HostOp} (h : op ∈ obligingHost.serve clock request) :
    op.page ∈ request.pages := by
  cases request <;> obtain ⟨page, hpage, rfl⟩ := List.mem_map.mp h <;> exact hpage

theorem applyAll_serve {clock : Nat} {request : Request} (h : page ∉ request.pages) (epcm : Epcm) :
    applyAll (obligingHost.serve clock request) epcm page = epcm page :=
  applyAll_of_not_mem (fun op hop (heq : op.page = page) => h (heq ▸ serve_page hop)) epcm

theorem applyAll_eremove {list : List Nat} {epcm : Epcm} (h : page ∈ list ∨ epcm page = none) :
    applyAll (list.map .eremove) epcm page = none := by
  induction list generalizing epcm with
  | nil => exact h.resolve_left List.not_mem_nil
  | cons first rest ih =>
    refine ih ?_
    by_cases heq : page = first
    · subst heq
      right
      change Function.update epcm page none page = none
      rw [Function.update_self]
    · refine h.imp (fun hmem => (List.mem_cons.mp hmem).resolve_left heq) fun hnone => ?_
      change Function.update epcm first none page = none
      rw [Function.update_of_ne heq, hnone]

section

variable {host : Host} {enclave : Enclave}

def GrantedRequest (host : Host) (request : Request) (before after : Enclave) : Prop :=
  host.answer before.clock request = .ok () ∧
    after = (before.hosted (obligingHost.serve before.clock request)).tick

def RefusedRequest (host : Host) (request : Request) (before : Enclave) (stop : Stop Errno) (after : Enclave) : Prop :=
  ∃ errno, stop = .err errno ∧ host.answer before.clock request = .error errno ∧ after = before.tick

theorem sally_yields (hhonest : host.Honest) (request : Request) :
    (sally host request).Yields enclave (fun _ after => GrantedRequest host request enclave after)
      (RefusedRequest host request enclave) := by
  unfold Exec.Yields sally
  dsimp only
  cases hanswer : host.answer enclave.clock request with
  | ok value =>
    rw [hhonest.serves _ _ hanswer]
    exact ⟨hanswer, rfl⟩
  | error errno =>
    rw [hhonest.refuses _ _ errno hanswer]
    exact ⟨errno, rfl, hanswer, rfl⟩

def Stop.Ends : Stop ε → Prop
  | .err _ => False
  | .panic | .attacked => True

theorem orAttacked_sally_yields (hhonest : host.Honest) (request : Request) :
    (orAttacked (sally host request) : Shim Errno Unit).Yields enclave
      (fun _ after => GrantedRequest host request enclave after) fun stop _ => stop.Ends := by
  have hsally : (sally host request).Yields enclave (fun _ after => GrantedRequest host request enclave after)
      (RefusedRequest host request enclave) := sally_yields hhonest request
  unfold Exec.Yields orAttacked at *
  rcases hrun : sally host request enclave with ⟨(_ | _ | _) | _, after⟩ <;> rw [hrun] at hsally
  · trivial
  · trivial
  · trivial
  · exact hsally

theorem instruction_yields (hhonest : host.Honest) (run : Epcm → Option Epcm) {failed : Stop ε} (hfailed : failed.Ends) :
    (instruction host run failed).Yields enclave
      (fun _ after => ∃ epcm, run enclave.epcm = some epcm ∧
        after = Enclave.tick { enclave with epcm }) fun stop _ => stop.Ends := by
  unfold Exec.Yields instruction
  rw [hhonest.waits]
  dsimp only [Enclave.hosted, applyAll, List.foldl_nil, statesDuring, List.nil_append]
  cases hrun : run enclave.epcm with
  | none => exact hfailed
  | some epcm => exact ⟨epcm, rfl, rfl⟩

structure Retyped (before : Enclave) (list : List Nat) (P : Option EpcPage → Prop) (after : Enclave) : Prop where
  heap : after.heap = before.heap
  inside : ∀ page ∈ list, P (after.epcm page)
  outside : ∀ page, page ∉ list → after.epcm page = before.epcm page

theorem Retyped.nil (enclave : Enclave) (P : Option EpcPage → Prop) : Retyped enclave [] P enclave :=
  ⟨rfl, by simp, fun _ _ => rfl⟩

theorem Retyped.cons {P : Option EpcPage → Prop} {before middle after : Enclave} {page : Nat} {rest : List Nat}
    {entry : Option EpcPage} (hpage : page ∉ rest) (hentry : P entry) (h : Retyped middle rest P after)
    (hheap : middle.heap = before.heap) (hepcm : middle.epcm = Function.update before.epcm page entry) :
    Retyped before (page :: rest) P after where
  heap := h.heap.trans hheap
  inside := by
    refine List.forall_mem_cons.mpr ⟨?_, h.inside⟩
    rwa [h.outside page hpage, hepcm, Function.update_self]
  outside other hother := by
    rw [List.mem_cons, not_or] at hother
    rw [h.outside other hother.2, hepcm, Function.update_of_ne hother.1]

def Accepted (access : Flags) (entry : Option EpcPage) : Prop :=
  ∃ contents, entry = some ⟨{ access, pageType := .regular }, contents⟩

theorem mmapGuest_yields (hhonest : host.Honest) (prot : CInt) {list : List Nat} (hnodup : list.Nodup) :
    (mmapGuest host prot list : Shim ε Unit).Yields enclave
      (fun _ after => Retyped enclave list (Accepted (.ofProt prot)) after ∧
        after.clock = enclave.clock + list.length) fun stop _ => stop.Ends := by
  induction list generalizing enclave with
  | nil => exact ⟨.nil _ _, rfl⟩
  | cons page rest ih =>
    obtain ⟨hpage, hrest⟩ := List.nodup_cons.mp hnodup
    refine (instruction_yields hhonest _ (by trivial)).bind ?_
    rintro _ _ ⟨epcm, hcopy, rfl⟩
    rw [acceptCopy_eq_some hcopy]
    refine (ih hrest).imp ?_ fun _ _ => id
    rintro _ after ⟨hafter, hclock⟩
    refine ⟨.cons hpage ⟨_, rfl⟩ hafter rfl rfl, ?_⟩
    rw [hclock, List.length_cons]
    dsimp only [Enclave.tick]
    omega

theorem mprotectGuest_yields (hhonest : host.Honest) (prot : CInt) {list : List Nat} (hnodup : list.Nodup) :
    (mprotectGuest host prot list : Shim ε Unit).Yields enclave
      (fun _ after => Retyped enclave list (Accepted (Flags.union { read := true } (.ofProt prot))) after ∧
        after.clock = enclave.clock + 2 * list.length) fun stop _ => stop.Ends := by
  induction list generalizing enclave with
  | nil => exact ⟨.nil _ _, rfl⟩
  | cons page rest ih =>
    obtain ⟨hpage, hrest⟩ := List.nodup_cons.mp hnodup
    refine (instruction_yields hhonest _ (by trivial)).bind ?_
    rintro _ _ ⟨accepted, haccept, rfl⟩
    refine (instruction_yields hhonest _ (by trivial)).bind ?_
    rintro _ _ ⟨extended, hextend, rfl⟩
    obtain ⟨contents, -, rfl⟩ := accept_eq_some haccept
    obtain ⟨entry, hentry, -, rfl⟩ := extend_eq_some hextend
    dsimp only [Enclave.tick] at hentry
    rw [Function.update_self, Option.some.injEq] at hentry
    subst hentry
    dsimp only [Enclave.tick]
    rw [Function.update_idem]
    refine (ih hrest).imp ?_ fun _ _ => id
    rintro _ after ⟨hafter, hclock⟩
    refine ⟨.cons hpage ⟨contents, rfl⟩ hafter rfl rfl, ?_⟩
    rw [hclock, List.length_cons]
    dsimp only [Enclave.tick]
    omega

theorem munmapGuest_yields (hhonest : host.Honest) {list : List Nat} (hnodup : list.Nodup) :
    (munmapGuest host list : Shim ε Unit).Yields enclave
      (fun _ after => Retyped enclave list (fun _ => True) after) fun stop _ => stop.Ends := by
  induction list generalizing enclave with
  | nil => exact .nil _ _
  | cons page rest ih =>
    obtain ⟨hpage, hrest⟩ := List.nodup_cons.mp hnodup
    refine (instruction_yields hhonest _ (by trivial)).bind ?_
    rintro _ _ ⟨epcm, haccept, rfl⟩
    obtain ⟨contents, -, rfl⟩ := accept_eq_some haccept
    exact (ih hrest).imp (fun _ _ h => .cons hpage trivial h rfl rfl) fun _ _ => id

theorem nodup_pages (addr length : Nat) : (pages addr length).Nodup := List.nodup_range'

end

theorem Ledger.edit_region {ledger' : Ledger} {record : Nat → Option Access}
    (h : ledger.edit room addr length record = .ok ledger') :
    0 < length ∧ ledger.start ≤ addr ∧ addr + length ≤ ledger.finish := by
  unfold Ledger.edit at h
  split at h
  · cases h
  · omega

def AccessBits.flags (bits : AccessBits) (access : Access) : Flags :=
  ⟨access.has bits.READ, access.has bits.WRITE, access.has bits.EXECUTE⟩

/-- What the shim has recorded allows what it has asked for. -/
structure AccessBits.Faithful (bits : AccessBits) : Prop where
  readWrite : bits.flags bits.readWrite = .readWrite
  ofProt : ∀ prot, isProtAllowed prot = true → bits.flags (bits.ofProt prot) = .ofProt prot

def AccessBits.Matches (bits : AccessBits) : Option Access → Option EpcPage → Prop
  | some access, entry => Accepted (bits.flags access) entry
  | none, entry => entry = none

/-- The recorded pages are the pages that have been accepted, with the rights in their records. -/
def Enclave.Described (bits : AccessBits) (enclave : Enclave) : Prop :=
  ∀ page, enclave.heap.start ≤ page → page < enclave.heap.finish → ∀ flags,
    (enclave.heap.ledger.record page).map bits.flags = some flags ↔ Accepted flags (enclave.epcm page)

/-- Every page of the heap is as its record says, and nothing else has a record. -/
structure Enclave.Agrees (bits : AccessBits) (enclave : Enclave) : Prop where
  page : ∀ page, enclave.heap.start ≤ page → page < enclave.heap.finish →
    bits.Matches (enclave.heap.ledger.record page) (enclave.epcm page)
  inside : ∀ page access, enclave.heap.ledger.record page = some access →
    enclave.heap.start ≤ page ∧ page < enclave.heap.finish
  region : enclave.heap.ledger.start = enclave.heap.start ∧ enclave.heap.ledger.finish = enclave.heap.finish

theorem Accepted.unique {flags other : Flags} {entry : Option EpcPage} (h : Accepted flags entry)
    (hother : Accepted other entry) : flags = other := by
  obtain ⟨contents, rfl⟩ := h
  obtain ⟨contents', heq⟩ := hother
  cases heq
  rfl

theorem Enclave.Agrees.described {bits : AccessBits} {enclave : Enclave} (h : enclave.Agrees bits) :
    enclave.Described bits := by
  intro page hlo hhi flags
  have hpage := h.page page hlo hhi
  cases hrecord : enclave.heap.ledger.record page with
  | none =>
    rw [hrecord] at hpage
    refine ⟨nofun, ?_⟩
    rintro ⟨contents, hentry⟩
    exact nomatch hpage.symm.trans hentry
  | some recorded =>
    rw [hrecord] at hpage
    constructor
    · rintro ⟨⟩
      exact hpage
    · intro haccepted
      rw [Option.map_some, hpage.unique haccepted]

/-- An edit of the ledger because of a range: what it says outside is about pages that have not changed. -/
theorem Enclave.Agrees.edit {bits : AccessBits} {before : Enclave} (h : before.Agrees bits)
    {record : Nat → Option Access}
    (hedit : before.heap.ledger.edit room addr length record = .ok after.heap.ledger)
    (hbounds : after.heap.start = before.heap.start ∧ after.heap.finish = before.heap.finish)
    (hinside : ∀ page ∈ pages addr length, bits.Matches (record page) (after.epcm page))
    (houtside : ∀ page, page ∉ pages addr length → after.epcm page = before.epcm page)
    (hrecord : ∀ page, page ∉ pages addr length →
      (record page).map bits.flags = (before.heap.ledger.record page).map bits.flags) : after.Agrees bits := by
  have hrange : before.heap.start ≤ addr ∧ addr + length ≤ before.heap.finish := by
    rw [← h.region.1, ← h.region.2]
    exact (Ledger.edit_region hedit).2
  have hledger := Ledger.edit_ok hedit
  refine ⟨fun page hlo hhi => ?_, fun page access haccess => ?_, ?_⟩
  · rw [hledger]
    by_cases hpage : page ∈ pages addr length
    · exact hinside page hpage
    · have hkept := h.page page (hbounds.1 ▸ hlo) (hbounds.2 ▸ hhi)
      have hflags := hrecord page hpage
      rw [houtside page hpage]
      dsimp only
      cases hbefore : before.heap.ledger.record page <;> cases hafter : record page <;>
        rw [hbefore, hafter] at hflags <;> rw [hbefore] at hkept
      · exact hkept
      · cases hflags
      · cases hflags
      · rw [Option.map_some, Option.map_some, Option.some.injEq] at hflags
        rw [AccessBits.Matches, hflags]
        exact hkept
  · rw [hbounds.1, hbounds.2]
    replace haccess : record page = some access := by rwa [hledger] at haccess
    by_cases hpage : page ∈ pages addr length
    · have := mem_pages.mp hpage
      omega
    · have hflags := hrecord page hpage
      rw [haccess] at hflags
      obtain ⟨recorded, hrecorded, -⟩ := Option.map_eq_some_iff.mp hflags.symm
      exact h.inside page recorded hrecorded
  · rw [hledger, hbounds.1, hbounds.2]
    exact h.region

theorem Ledger.mapped_of_mem (h : page ∈ pages addr length) (access : Access) :
    ledger.mapped addr length access page = some access := if_pos (mem_pages.mp h)

theorem Ledger.mapped_of_not_mem (h : page ∉ pages addr length)
    (access : Access) : ledger.mapped addr length access page = ledger.record page :=
  if_neg fun hmem => h (mem_pages.mpr hmem)

theorem Ledger.unmapped_of_mem (h : page ∈ pages addr length)
    (kept : Nat → Bool) : ledger.unmapped kept addr length page = none := if_pos (mem_pages.mp h)

theorem Ledger.unmapped_of_not_mem (h : page ∉ pages addr length)
    (kept : Nat → Bool) : ledger.unmapped kept addr length page =
      (ledger.record page).map fun access => if kept page then access else 0 :=
  if_neg fun hmem => h (mem_pages.mpr hmem)

theorem Enclave.Agrees.map {bits : AccessBits} {before : Enclave} (h : before.Agrees bits) {access : Access}
    (hmap : before.heap.ledger.map room addr length access = .ok after.heap.ledger)
    (hbounds : after.heap.start = before.heap.start ∧ after.heap.finish = before.heap.finish)
    (hinside : ∀ page ∈ pages addr length, Accepted (bits.flags access) (after.epcm page))
    (houtside : ∀ page, page ∉ pages addr length → after.epcm page = before.epcm page) : after.Agrees bits := by
  refine h.edit hmap hbounds (fun page hpage => ?_) houtside fun page hpage => ?_
  · rw [Ledger.mapped_of_mem hpage]
    exact hinside page hpage
  · rw [Ledger.mapped_of_not_mem hpage]

theorem Enclave.Agrees.congr {bits : AccessBits} {enclave : Enclave} (h : enclave.Agrees bits)
    (hledger : after.heap.ledger = enclave.heap.ledger)
    (hbounds : after.heap.start = enclave.heap.start ∧ after.heap.finish = enclave.heap.finish)
    (hepcm : after.epcm = enclave.epcm) : after.Agrees bits where
  page page hlo hhi := by
    rw [hledger, hepcm]
    exact h.page page (hbounds.1 ▸ hlo) (hbounds.2 ▸ hhi)
  inside page access := by
    rw [hledger, hbounds.1, hbounds.2]
    exact h.inside page access
  region := by
    rw [hledger, hbounds.1, hbounds.2]
    exact h.region

/-- A call has been refused with everything in agreement, or the shim has stopped. -/
def Settled (bits : AccessBits) (stop : Stop Errno) (after : Enclave) : Prop := stop.Ends ∨ after.Agrees bits

abbrev Host.bits (host : Host) : AccessBits := host.ledger.toAccessBits

section

variable {host : Host} {enclave : Enclave} {addr length addrIn lengthIn : Nat} {prot : CInt}

/-- `mmap_host` and `mmap_guest` for a range that has its records already. -/
theorem request_agrees (hhonest : host.Honest) {bits : AccessBits} {heap : Heap} {middle : Enclave} {room : Bool}
    {hostProt : CInt} {access : Access} (h : enclave.Agrees bits)
    (hmap : enclave.heap.ledger.map room addr length access = .ok heap.ledger)
    (hflags : bits.flags access = .ofProt prot)
    (hbounds : heap.start = enclave.heap.start ∧ heap.finish = enclave.heap.finish)
    (hmiddle : middle = Enclave.tick { enclave with heap })
    (hanswer : host.answer (enclave.clock + 1) (.mmapHost addr length hostProt) = .ok ()) :
    Exec.Yields (do
        sally host (.mmapHost addr length hostProt)
        mmapGuest host prot (pages addr length) : Shim Errno Unit) middle
      (fun _ after => after.heap = heap ∧ after.Agrees bits ∧ after.clock = enclave.clock + 2 + length)
      fun stop _ => stop.Ends := by
  subst hmiddle
  refine ((sally_yields hhonest _).imp (fun _ _ => id) ?_).bind ?_
  · rintro _ _ ⟨errno, -, hrefused, rfl⟩
    cases hanswer.symm.trans hrefused
  · rintro _ _ ⟨-, rfl⟩
    refine (mmapGuest_yields hhonest prot (nodup_pages _ _)).imp ?_ fun _ _ => id
    rintro _ after ⟨hretyped, hclock⟩
    have hheap : after.heap = heap := hretyped.heap
    subst hheap
    refine ⟨rfl, h.map hmap hbounds (hflags ▸ hretyped.inside) ?_, ?_⟩
    · intro page hpage
      rw [hretyped.outside page hpage]
      exact applyAll_serve hpage _
    · simpa [pages, Enclave.tick, Enclave.hosted] using hclock

def BrkGranted (host : Host) (enclave : Enclave) (addr : Option Nat) : Prop :=
  ∀ next page, brkNext addr = some next →
    (enclave.heap.brk host.bits (host.ledger.room enclave.clock) next).1 = page → enclave.heap.brkMax < page →
    host.answer (enclave.clock + 1)
      (.mmapHost enclave.heap.brkMax (page - enclave.heap.brkMax) (PROT_READ ||| PROT_WRITE)) = .ok ()

theorem brk_agrees (hhonest : host.Honest) (hbits : host.bits.Faithful) (h : enclave.Agrees host.bits)
    {addr : Option Nat} (hgranted : BrkGranted host enclave addr) :
    (brk host addr).Yields enclave (fun _ => Enclave.Agrees host.bits) (Settled host.bits) := by
  refine (orPanic_yields _ _ (.inl trivial)).bind ?_
  rintro next _ ⟨hnext, rfl⟩
  apply Exec.Yields.get_bind
  rcases hbrk : enclave.heap.brk host.bits (host.ledger.room enclave.clock) next with ⟨page, heap⟩
  have hledger := Heap.brk_ledger enclave.heap host.bits (host.ledger.room enclave.clock) next
  have hbounds := Heap.brk_bounds enclave.heap host.bits (host.ledger.room enclave.clock) next
  rw [hbrk] at hledger hbounds
  have hreturn : ∀ after : Enclave, after.Agrees host.bits →
      Exec.Yields (orPanic (if page = 0 then none else some (PAGE_SIZE * page)) : Shim Errno Nat) after
        (fun _ => Enclave.Agrees host.bits) (Settled host.bits) := by
    intro after hafter
    refine (orPanic_yields _ _ (.inl trivial)).imp ?_ fun _ _ => id
    rintro _ _ ⟨-, rfl⟩
    exact hafter
  apply Exec.Yields.bind_of_ok (withHeap_apply hbrk)
  dsimp only at hledger ⊢
  by_cases hgrows : enclave.heap.brkMax < page
  · rw [if_pos hgrows]
    obtain ⟨hle, -⟩ | ⟨-, hmap⟩ := hledger
    · omega
    have hflags : host.bits.flags host.bits.readWrite = .ofProt (PROT_READ ||| PROT_WRITE) :=
      hbits.readWrite.trans (by decide)
    have hrequest := request_agrees hhonest h hmap hflags hbounds rfl (hgranted next page hnext (by rw [hbrk]) hgrows)
    refine Exec.Yields.bind_assoc ((hrequest.imp (fun _ _ => id) fun _ _ => .inl).bind ?_)
    exact fun _ after hafter => hreturn after hafter.2.1
  · rw [if_neg hgrows]
    obtain ⟨-, hsame⟩ | ⟨hlt, -⟩ := hledger
    · exact hreturn _ (h.congr hsame hbounds rfl)
    · exact absurd hlt hgrows

/-- `munmap` has changed nothing, or the pages of the range and their records are gone. -/
def Released (host : Host) (before : Enclave) (addr length : Nat) (after : Enclave) : Prop :=
  ∃ npages, roundUp length = some npages ∧
    ((((addr % PAGE_SIZE ≠ 0 ∨ npages = 0) ∨ (before.heap.contains (addr / PAGE_SIZE) npages).isNone ∨
        ∃ error, before.heap.munmap (host.ledger.room before.clock) (host.ledger.kept before.clock)
          (addr / PAGE_SIZE) npages = .error error) ∧ after.snapshot = before.snapshot) ∨
      (¬(addr % PAGE_SIZE ≠ 0 ∨ npages = 0) ∧ (before.heap.contains (addr / PAGE_SIZE) npages).isSome ∧
        before.heap.ledger.unmap (host.ledger.room before.clock) (host.ledger.kept before.clock)
          (addr / PAGE_SIZE) npages = .ok after.heap.ledger ∧
        (after.heap.start = before.heap.start ∧ after.heap.finish = before.heap.finish) ∧
        (∀ page ∈ pages (addr / PAGE_SIZE) npages, after.epcm page = none) ∧
        ∀ page, page ∉ pages (addr / PAGE_SIZE) npages → after.epcm page = before.epcm page))

theorem munmapUnlocked_yields (hhonest : host.Honest) (addrIn lengthIn : Nat) :
    (munmapUnlocked host addrIn lengthIn).Yields enclave (fun _ after => Released host enclave addrIn lengthIn after)
      fun stop after => stop.Ends ∨ Released host enclave addrIn lengthIn after := by
  refine (orPanic_yields _ _ (.inl trivial)).bind ?_
  rintro length _ ⟨hlength, rfl⟩
  by_cases hbad : addrIn % PAGE_SIZE ≠ 0 ∨ length = 0
  · rw [if_pos hbad]
    exact .inr ⟨length, hlength, .inl ⟨.inl hbad, rfl⟩⟩
  rw [if_neg hbad]
  apply Exec.Yields.get_bind
  dsimp only
  by_cases hnone : (enclave.heap.contains (addrIn / PAGE_SIZE) length).isNone
  · rw [if_pos hnone]
    exact ⟨length, hlength, .inl ⟨.inr (.inl hnone), rfl⟩⟩
  rw [if_neg hnone]
  cases hmunmap : enclave.heap.munmap (host.ledger.room enclave.clock) (host.ledger.kept enclave.clock)
      (addrIn / PAGE_SIZE) length with
  | error error =>
    apply Exec.Yields.bind_of_ok (withHeap_apply (by rw [hmunmap]))
    exact .inr ⟨length, hlength, .inl ⟨.inr (.inr ⟨error, hmunmap⟩), rfl⟩⟩
  | ok heap =>
    apply Exec.Yields.bind_of_ok (withHeap_apply (by rw [hmunmap]))
    refine ((orAttacked_sally_yields hhonest _).imp (fun _ _ => id) fun _ _ => .inl).bind ?_
    rintro _ _ ⟨-, rfl⟩
    refine ((munmapGuest_yields hhonest (nodup_pages _ _)).imp (fun _ _ => id) fun _ _ => .inl).bind ?_
    intro _ trimmed htrimmed
    refine (orAttacked_sally_yields hhonest _).imp ?_ fun _ _ => .inl
    rintro _ _ ⟨-, rfl⟩
    have hheap : trimmed.heap = heap := htrimmed.heap
    subst hheap
    have hsome : (enclave.heap.contains (addrIn / PAGE_SIZE) length).isSome := by
      simpa [Option.isSome_iff_ne_none] using hnone
    refine ⟨length, hlength, .inr ⟨hbad, hsome, Heap.munmap_ledger hmunmap,
      Heap.bounds_of_area (Heap.munmap_area hmunmap), fun page hpage => applyAll_eremove (.inl hpage), ?_⟩⟩
    intro page hpage
    exact (applyAll_serve hpage _).trans ((htrimmed.outside page hpage).trans (applyAll_serve hpage _))

/-- The pages outside a range that are recorded keep their rights, or have none to lose. -/
def Mmledger.Keeps (crate : Mmledger) (clock : Nat) (record : Nat → Option Access) (addr length : Nat) : Prop :=
  ∀ page, page ∉ pages addr length → ∀ access, record page = some access →
    crate.kept clock page = true ∨ crate.flags access = crate.flags 0

def MunmapKept (host : Host) (enclave : Enclave) (addrIn lengthIn : Nat) : Prop :=
  ∀ length, roundUp lengthIn = some length → ¬(addrIn % PAGE_SIZE ≠ 0 ∨ length = 0) →
    (enclave.heap.contains (addrIn / PAGE_SIZE) length).isSome → host.ledger.room enclave.clock = true →
    host.ledger.Keeps enclave.clock enclave.heap.ledger.record (addrIn / PAGE_SIZE) length

theorem Ledger.edit_of_room (ledger : Ledger) (addr : Nat) (record : Nat → Option Access)
    (hlength : 0 < length) (hlo : ledger.start ≤ addr) (hhi : addr + length ≤ ledger.finish) :
    ledger.edit true addr length record = .ok { ledger with record } := by
  unfold Ledger.edit
  rw [if_neg (by omega), if_pos rfl]

theorem Ledger.room_of_edit {ledger after : Ledger} {room : Bool} {record : Nat → Option Access}
    (h : ledger.edit room addr length record = .ok after) : room = true := by
  unfold Ledger.edit at h
  split_ifs at h with _ hroom
  exact hroom

theorem Enclave.Agrees.range {bits : AccessBits} (h : enclave.Agrees bits) (hpos : 0 < length)
    (hsome : (enclave.heap.contains addr length).isSome) :
    enclave.heap.start ≤ addr ∧ addr + length ≤ enclave.heap.finish := by
  have hrecorded := Ledger.contains_isSome.mp hsome
  obtain ⟨first, hfirst⟩ := Option.isSome_iff_exists.mp (hrecorded addr le_rfl (by omega))
  obtain ⟨last, hlast⟩ := Option.isSome_iff_exists.mp (hrecorded (addr + length - 1) (by omega) (by omega))
  have hbounds := h.inside _ _ hfirst
  have hbounds' := h.inside _ _ hlast
  omega

theorem Enclave.Agrees.released (h : enclave.Agrees host.bits) {after : Enclave}
    (hkept : MunmapKept host enclave addrIn lengthIn) (hreleased : Released host enclave addrIn lengthIn after) :
    after.Agrees host.bits := by
  obtain ⟨length, hlength, ⟨-, hsame⟩ | ⟨hgood, hsome, hunmap, hbounds, hinside, houtside⟩⟩ := hreleased
  · have hheap : after.heap = enclave.heap := congrArg Snapshot.heap hsame
    exact h.congr (by rw [hheap]) (by rw [hheap]; exact ⟨rfl, rfl⟩) (congrArg Snapshot.epcm hsame)
  refine h.edit hunmap hbounds (fun page hpage => ?_) houtside fun page hpage => ?_
  · rw [Ledger.unmapped_of_mem hpage]
    exact hinside page hpage
  · rw [Ledger.unmapped_of_not_mem hpage, Option.map_map]
    cases hrecord : enclave.heap.ledger.record page with
    | none => rfl
    | some access =>
      rw [Option.map_some, Option.map_some, Function.comp_apply]
      obtain hkeeps | hsame := hkept length hlength hgood hsome (Ledger.room_of_edit hunmap) page hpage access hrecord
      · rw [if_pos hkeeps]
      · split
        · rfl
        · rw [hsame]

theorem munmapUnlocked_agrees (hhonest : host.Honest) (h : enclave.Agrees host.bits)
    (hkept : MunmapKept host enclave addrIn lengthIn) :
    (munmapUnlocked host addrIn lengthIn).Yields enclave (fun _ => Enclave.Agrees host.bits) (Settled host.bits) :=
  (munmapUnlocked_yields hhonest addrIn lengthIn).imp (fun _ _ => h.released hkept)
    fun _ _ => .imp id (h.released hkept)

/-- The ledger finds room for the rights that `mprotect` has changed, or has them already. -/
def MprotectRecorded (host : Host) (enclave : Enclave) (addrIn lengthIn : Nat) (prot : CInt) : Prop :=
  ∀ length, roundUp lengthIn = some length → ¬(addrIn % PAGE_SIZE ≠ 0 ∨ length = 0) → isProtAllowed prot = true →
    (enclave.heap.contains (addrIn / PAGE_SIZE) length).isSome →
    host.answer enclave.clock (.mprotectHost (addrIn / PAGE_SIZE) length prot) = .ok () →
    host.ledger.room (enclave.clock + 1 + 2 * length) = true ∨
      ∀ page ∈ pages (addrIn / PAGE_SIZE) length,
        (enclave.heap.ledger.record page).map host.ledger.flags = some (.ofProt prot)

theorem union_ofProt (h : isProtAllowed prot = true) :
    Flags.union { read := true } (.ofProt prot) = .ofProt prot := by
  unfold isProtAllowed at h
  rw [decide_eq_true_eq] at h
  obtain rfl | rfl | rfl := h <;> decide

theorem remapped_eq (heap : Heap) (room : Bool) (addr length : Nat) (access : Access) :
    (match heap.mmap room (some addr) length access with
      | some (_, heap) => ((), heap)
      | none => ((), heap)).2 = match heap.ledger.map room addr length access with
      | .ok ledger => { heap with ledger }
      | .error _ => heap := by
  unfold Heap.mmap
  cases hmap : heap.ledger.map room addr length access with
  | error error => simp [hmap]
  | ok ledger => simp [hmap]

theorem remapped_agrees (hbits : host.bits.Faithful) (h : enclave.Agrees host.bits)
    {guest : Enclave} (hpos : 0 < length) (hprot : isProtAllowed prot = true)
    (hsome : (enclave.heap.contains addr length).isSome)
    (hinside : ∀ page ∈ pages addr length, Accepted (.ofProt prot) (guest.epcm page))
    (houtside : ∀ page, page ∉ pages addr length → guest.epcm page = enclave.epcm page)
    (hheap : guest.heap = enclave.heap)
    (hrecorded : host.ledger.room guest.clock = true ∨ ∀ page ∈ pages addr length,
      (enclave.heap.ledger.record page).map host.bits.flags = some (.ofProt prot)) :
    Exec.Yields (withHeap fun clock heap =>
        match heap.mmap (host.ledger.room clock) (some addr) length (host.ledger.ofProt prot) with
        | some (_, heap) => ((), heap) | none => ((), heap) : Shim Errno Unit) guest
      (fun _ => Enclave.Agrees host.bits) fun stop _ => stop.Ends := by
  change Enclave.Agrees host.bits (Enclave.tick { guest with heap := _ })
  rw [remapped_eq, hheap]
  cases hmap : enclave.heap.ledger.map (host.ledger.room guest.clock) addr length (host.ledger.ofProt prot) with
  | ok ledger =>
    refine h.map hmap ⟨rfl, rfl⟩ ?_ houtside
    rw [hbits.ofProt prot hprot]
    exact hinside
  | error error =>
    have hsame := hrecorded.resolve_left fun hroom => by
      obtain ⟨hlo, hhi⟩ := h.range hpos hsome
      rw [Ledger.map, hroom, Ledger.edit_of_room _ _ _ hpos (by rw [h.region.1]; exact hlo)
        (by rw [h.region.2]; exact hhi)] at hmap
      cases hmap
    refine ⟨fun page hpagelo hpagehi => ?_, h.inside, h.region⟩
    dsimp only [Enclave.tick] at *
    by_cases hpage : page ∈ pages addr length
    · obtain ⟨access, haccess, hflags⟩ := Option.map_eq_some_iff.mp (hsame page hpage)
      rw [haccess, AccessBits.Matches, hflags]
      exact hinside page hpage
    · rw [houtside page hpage]
      exact h.page page hpagelo hpagehi

/-- `mprotect` has been refused before it has done anything: the arguments are bad, or the host says no. -/
def MprotectRefused (host : Host) (enclave : Enclave) (addrIn lengthIn : Nat) (prot : CInt) (after : Enclave) : Prop :=
  ∃ length, roundUp lengthIn = some length ∧
    (((addrIn % PAGE_SIZE ≠ 0 ∨ length = 0) ∨ isProtAllowed prot = false ∨
        (enclave.heap.contains (addrIn / PAGE_SIZE) length).isNone) ∧ after = enclave ∨
      (∃ errno, host.answer enclave.clock (.mprotectHost (addrIn / PAGE_SIZE) length prot) = .error errno) ∧
        after = enclave.tick)

theorem MprotectRefused.agrees {bits : AccessBits} {after : Enclave}
    (h : MprotectRefused host enclave addrIn lengthIn prot after) (hagrees : enclave.Agrees bits) :
    after.Agrees bits := by
  obtain ⟨length, -, ⟨-, rfl⟩ | ⟨-, rfl⟩⟩ := h
  · exact hagrees
  · exact hagrees.congr rfl ⟨rfl, rfl⟩ rfl

theorem mprotectUnlocked_agrees (hhonest : host.Honest) (hbits : host.bits.Faithful) (h : enclave.Agrees host.bits)
    (hrecorded : MprotectRecorded host enclave addrIn lengthIn prot) :
    (mprotectUnlocked host addrIn lengthIn prot).Yields enclave (fun _ => Enclave.Agrees host.bits)
      fun stop after => stop.Ends ∨ MprotectRefused host enclave addrIn lengthIn prot after := by
  refine (orPanic_yields _ _ (.inl trivial)).bind ?_
  rintro length _ ⟨hlength, rfl⟩
  by_cases hbad : addrIn % PAGE_SIZE ≠ 0 ∨ length = 0
  · rw [if_pos hbad]
    exact .inr ⟨length, hlength, .inl ⟨.inl hbad, rfl⟩⟩
  rw [if_neg hbad]
  cases hprot : isProtAllowed prot with
  | false => exact .inr ⟨length, hlength, .inl ⟨.inr (.inl hprot), rfl⟩⟩
  | true =>
    rw [if_neg (by simp)]
    apply Exec.Yields.get_bind
    dsimp only
    by_cases hnone : (enclave.heap.contains (addrIn / PAGE_SIZE) length).isNone
    · rw [if_pos hnone]
      exact .inr ⟨length, hlength, .inl ⟨.inr (.inr hnone), rfl⟩⟩
    rw [if_neg hnone]
    have hsome : (enclave.heap.contains (addrIn / PAGE_SIZE) length).isSome := by
      simpa [Option.isSome_iff_ne_none] using hnone
    refine ((sally_yields hhonest _).imp (fun _ _ => id) ?_).bind ?_
    · rintro _ _ ⟨errno, -, hanswer, rfl⟩
      exact .inr ⟨length, hlength, .inr ⟨⟨errno, hanswer⟩, rfl⟩⟩
    · rintro _ _ ⟨hanswer, rfl⟩
      refine ((mprotectGuest_yields hhonest prot (nodup_pages _ _)).imp (fun _ _ => id) fun _ _ => .inl).bind ?_
      rintro _ guest ⟨hguest, hclock⟩
      rw [union_ofProt hprot] at hguest
      have hguestClock : guest.clock = enclave.clock + 1 + 2 * length := by
        simpa [pages, Enclave.tick, Enclave.hosted] using hclock
      refine (remapped_agrees hbits h (by omega) hprot hsome hguest.inside
        (fun page hpage => (hguest.outside page hpage).trans (applyAll_serve hpage _)) hguest.heap ?_).imp
        (fun _ _ => id) fun _ _ => .inl
      rw [hguestClock]
      exact hrecorded length hlength hbad hprot hsome hanswer

/-- The host grants the new pages. If it then refuses to protect them, they are unmapped again, and the others keep
their rights. -/
def MmapGranted (host : Host) (enclave : Enclave) (addr : Option Nat) (len : Nat) (prot flags fd : CInt)
    (offset : BitVec 64) : Prop :=
  ¬(addr ≠ none ∨ len = 0 ∨ fd ≠ -1 ∨ offset ≠ 0 ∨ flags ≠ MAP_PRIVATE_ANONYMOUS) →
    isProtAllowed (prot ||| PROT_READ) = true → ∀ length found heap, roundUp len = some length →
    enclave.heap.mmap (host.ledger.room enclave.clock) none length (host.ledger.ofProt (prot ||| PROT_READ)) =
      some (found, heap) →
    host.answer (enclave.clock + 1) (.mmapHost found length (PROT_READ ||| PROT_WRITE)) = .ok () ∧
      (prot ||| PROT_READ ≠ PROT_READ ||| PROT_WRITE → ∀ errno,
        host.answer (enclave.clock + 2 + length) (.mprotectHost found length (prot ||| PROT_READ)) = .error errno →
        host.ledger.room (enclave.clock + 3 + length) = true →
        host.ledger.Keeps (enclave.clock + 3 + length) enclave.heap.ledger.record found length)

theorem roundUp_pages {length' : Nat} (h : roundUp (PAGE_SIZE * length) = some length') : length' = length := by
  have hspec := roundUp_spec h
  unfold PAGE_SIZE at hspec
  omega

theorem reprotected_agrees (hhonest : host.Honest) (hbits : host.bits.Faithful) {middle : Enclave} {found ret : Nat}
    (h : middle.Agrees host.bits) (hret : ret = PAGE_SIZE * found)
    (hpos : 0 < length) (hprot : isProtAllowed prot = true)
    (hrecord : ∀ page ∈ pages found length, middle.heap.ledger.record page = some (host.ledger.ofProt prot))
    (hkept : ∀ errno, host.answer middle.clock (.mprotectHost found length prot) = .error errno →
      host.ledger.room (middle.clock + 1) = true →
      host.ledger.Keeps (middle.clock + 1) middle.heap.ledger.record found length) :
    Exec.Yields (tryCatch (mprotectUnlocked host ret (PAGE_SIZE * length) prot) fun
        | .err errno => do
          munmapUnlocked host ret (PAGE_SIZE * length)
          throw (.err errno)
        | stop => throw stop) middle (fun _ => Enclave.Agrees host.bits) (Settled host.bits) := by
  have haddr : ret / PAGE_SIZE = found := by rw [hret, Nat.mul_div_cancel_left found (by decide)]
  have haligned : ret % PAGE_SIZE = 0 := by rw [hret, Nat.mul_mod_right]
  have hrecorded : MprotectRecorded host middle ret (PAGE_SIZE * length) prot := by
    intro length' hlength' _ _ _ _
    rw [haddr, roundUp_pages hlength']
    refine .inr fun page hpage => ?_
    rw [hrecord page hpage, Option.map_some, hbits.ofProt prot hprot]
  refine (mprotectUnlocked_agrees hhonest hbits h hrecorded).tryCatch ?_
  rintro (errno | _ | _) failed hfailed
  · obtain ⟨length', hlength', hcases⟩ := hfailed.resolve_left id
    obtain rfl := roundUp_pages hlength'
    rw [haddr] at hcases
    obtain ⟨hbad | hbad | hnone, -⟩ | ⟨⟨errno', hanswer⟩, rfl⟩ := hcases
    · omega
    · cases hprot.symm.trans hbad
    · have hsome : (middle.heap.contains found length').isSome := Ledger.contains_isSome.mpr fun page hlo hhi => by
        rw [hrecord page (mem_pages.mpr ⟨hlo, hhi⟩), Option.isSome_some]
      rw [Option.isNone_iff_eq_none] at hnone
      rw [hnone] at hsome
      cases hsome
    have hmiddle : middle.tick.Agrees host.bits := h.congr rfl ⟨rfl, rfl⟩ rfl
    refine (munmapUnlocked_agrees hhonest hmiddle fun length'' hlength'' _ _ hroom => ?_).bind fun _ _ => .inr
    rw [haddr, roundUp_pages hlength'']
    exact hkept errno' hanswer hroom
  · exact .inl trivial
  · exact .inl trivial

theorem mmap_agrees (hhonest : host.Honest) (hbits : host.bits.Faithful) (h : enclave.Agrees host.bits)
    {addr : Option Nat} {len : Nat} {flags fd : CInt} {offset : BitVec 64}
    (hgranted : MmapGranted host enclave addr len prot flags fd offset) :
    (mmap host addr len prot flags fd offset).Yields enclave (fun _ => Enclave.Agrees host.bits)
      (Settled host.bits) := by
  unfold mmap
  by_cases hbad : addr ≠ none ∨ len = 0 ∨ fd ≠ -1 ∨ offset ≠ 0 ∨ flags ≠ MAP_PRIVATE_ANONYMOUS
  · rw [if_pos hbad]
    exact .inr h
  rw [if_neg hbad]
  cases hprot : isProtAllowed (prot ||| PROT_READ) with
  | false =>
    rw [if_pos ⟨or_read_ne_zero prot, rfl⟩]
    exact .inr h
  | true =>
    rw [if_neg (by simp)]
    refine (orPanic_yields _ _ (.inl trivial)).bind ?_
    rintro length _ ⟨hlength, rfl⟩
    cases hmmap : enclave.heap.mmap (host.ledger.room enclave.clock) none length
        (host.ledger.ofProt (prot ||| PROT_READ)) with
    | none =>
      apply Exec.Yields.bind_of_ok (withHeap_apply (by rw [hmmap]))
      exact .inr (h.congr rfl ⟨rfl, rfl⟩ rfl)
    | some result =>
      obtain ⟨found, heap⟩ := result
      obtain ⟨-, hmap⟩ := Heap.mmap_ledger hmmap
      obtain ⟨hanswer, hkept⟩ := hgranted hbad hprot length found heap hlength hmmap
      apply Exec.Yields.bind_of_ok (withHeap_apply (by rw [hmmap]))
      refine (orPanic_yields _ _ (.inl trivial)).bind ?_
      rintro ret _ ⟨hret, rfl⟩
      have hrequest := request_agrees hhonest h hmap (hbits.ofProt _ hprot)
        (Heap.bounds_of_area (Heap.mmap_area hmmap)) rfl hanswer
      refine Exec.Yields.bind_assoc ((hrequest.imp (fun _ _ => id) fun _ _ => .inl).bind ?_)
      rintro _ middle ⟨hheap, hmiddle, hclock⟩
      by_cases hwritable : prot ||| PROT_READ ≠ PROT_READ ||| PROT_WRITE
      · rw [if_pos hwritable]
        have hret' : ret = PAGE_SIZE * found := by
          split at hret <;> cases hret
          rfl
        have hrecord : middle.heap.ledger.record =
            enclave.heap.ledger.mapped found length (host.ledger.ofProt (prot ||| PROT_READ)) := by
          rw [hheap, Ledger.edit_ok hmap]
        refine (reprotected_agrees hhonest hbits hmiddle hret' (Ledger.edit_region hmap).1 hprot ?_ ?_).bind
          fun _ _ => id
        · intro page hpage
          rw [hrecord, Ledger.mapped_of_mem hpage]
        · intro errno herrno hroom page hpage access haccess
          rw [hclock] at herrno hroom ⊢
          rw [hrecord, Ledger.mapped_of_not_mem hpage] at haccess
          rw [show enclave.clock + 2 + length + 1 = enclave.clock + 3 + length by omega] at hroom ⊢
          exact hkept hwritable errno herrno hroom page hpage access haccess
      · rw [if_neg hwritable]
        exact hmiddle

end

section

variable {host : Host}

def memStep (host : Host) (enclave : Enclave) (call : MemCall) : Option Enclave :=
  (Shims.sgxReply (call.run host enclave)).map Prod.snd

def Recorded (host : Host) (enclave : Enclave) : MemCall → Prop
  | .brk addr => BrkGranted host enclave addr
  | .mmap addr len prot flags fd offset => MmapGranted host enclave addr len prot flags fd offset
  | .mprotect addr length prot => MprotectRecorded host enclave addr length prot
  | .munmap addr length => MunmapKept host enclave addr length

theorem MemCall.agrees (hhonest : host.Honest) (hbits : host.bits.Faithful) {enclave : Enclave}
    (h : enclave.Agrees host.bits) {call : MemCall} (hcall : Recorded host enclave call) :
    (call.run host).Yields enclave (fun _ => Enclave.Agrees host.bits) (Settled host.bits) := by
  cases call with
  | brk addr => exact brk_agrees hhonest hbits h hcall
  | mmap addr len prot flags fd offset => exact mmap_agrees hhonest hbits h hcall
  | mprotect addr length prot =>
    refine Exec.Yields.bind ((mprotectUnlocked_agrees hhonest hbits h hcall).imp (fun _ _ => id) ?_) fun _ _ => id
    exact fun _ _ => .imp id fun hrefused => hrefused.agrees h
  | munmap addr length => exact (munmapUnlocked_agrees hhonest h hcall).bind fun _ _ => id

theorem memStep_agrees (hhonest : host.Honest) (hbits : host.bits.Faithful) {enclave after : Enclave}
    (h : enclave.Agrees host.bits) {call : MemCall} (hcall : Recorded host enclave call)
    (hstep : memStep host enclave call = some after) : after.Agrees host.bits := by
  obtain ⟨⟨reply, _⟩, hreply, rfl⟩ := Option.map_eq_some_iff.mp hstep
  have hagrees := MemCall.agrees hhonest hbits h hcall
  cases reply with
  | none =>
    obtain ⟨errno, hrun⟩ := Shims.sgxReply_none hreply
    exact (hagrees.error hrun).resolve_left id
  | some value => exact hagrees.ok (Shims.sgxReply_some hreply)

/-- If the ledger tells the rights apart, it describes the pages of the heap as long as the host grants new pages,
the rights that have been changed are recorded and the other pages keep theirs. -/
theorem ledger_describes (hhonest : host.Honest) (hbits : host.bits.Faithful) {start : Enclave}
    (hstart : start.Agrees host.bits) {calls : List MemCall}
    (hcalls : Runs.Each (memStep host) (Recorded host) start calls) :
    Runs.Always (memStep host) (Enclave.Described host.bits) start calls := by
  have hinv : Runs.Always (memStep host) (Enclave.Agrees host.bits) start calls :=
    Runs.always_of_each (fun _ _ _ h hcall hstep => memStep_agrees hhonest hbits h hcall hstep) hstart hcalls
  exact hinv.imp fun _ => Enclave.Agrees.described

end

theorem obligingHost_honest : obligingHost.Honest where
  serves _ _ _ := rfl
  refuses _ _ _ := nofun
  waits _ := rfl

theorem hostWith_honest (bits : AccessBits) : (hostWith bits).Honest :=
  ⟨obligingHost_honest.serves, obligingHost_honest.refuses, obligingHost_honest.waits⟩

theorem emptyEnclave_agrees (bits : AccessBits) : emptyEnclave.Agrees bits where
  page _ _ _ := rfl
  inside _ _ := nofun
  region := ⟨rfl, rfl⟩

theorem hostWith_recorded (bits : AccessBits) (enclave : Enclave) (call : MemCall) :
    Recorded (hostWith bits) enclave call := by
  cases call with
  | brk addr => exact fun _ _ _ _ _ => rfl
  | mmap addr len prot flags fd offset =>
    exact fun _ _ _ _ _ _ _ => ⟨rfl, fun _ _ _ _ _ _ _ _ => .inl rfl⟩
  | mprotect addr length prot => exact fun _ _ _ _ _ _ => .inl rfl
  | munmap addr length => exact fun _ _ _ _ _ _ _ _ _ => .inl rfl

def rewriteCode : List MemCall := [mapPage (PROT_READ ||| PROT_EXEC), .mprotect 0x1f000 1 (PROT_READ ||| PROT_WRITE)]

theorem sampleLedger_faithful : sampleLedger.Faithful := by
  refine ⟨by decide, fun prot hprot => ?_⟩
  unfold isProtAllowed at hprot
  rw [decide_eq_true_eq] at hprot
  obtain rfl | rfl | rfl := hprot <;> decide

theorem ledger_describes_rewriteCode :
    (Runs.exec (memStep obligingHost) emptyEnclave rewriteCode).map (fun enclave => enclave.heap.ledger.record 31) =
      some (some sampleLedger.readWrite) ∧
    Runs.Always (memStep obligingHost) (Enclave.Described sampleLedger.toAccessBits) emptyEnclave rewriteCode := by
  refine ⟨by decide +kernel, ledger_describes obligingHost_honest sampleLedger_faithful (emptyEnclave_agrees _) ?_⟩
  exact fun _ _ => ⟨hostWith_recorded sampleLedger.toAccessBits _ _,
    fun _ _ => ⟨hostWith_recorded sampleLedger.toAccessBits _ _, trivial⟩⟩

def refusingHost : Host where
  answer _
    | .mmapHost _ _ _ => .error ENOMEM
    | _ => .ok ()
  serve clock
    | .mmapHost _ _ _ => []
    | request => obligingHost.serve clock request
  between _ := []
  ledger := sampleLedger

def fullHost : Host := { obligingHost with ledger := { sampleLedger with room := fun clock => clock = 0 } }

def forgetfulHost : Host := { obligingHost with ledger := { sampleLedger with kept := fun _ _ => false } }

theorem refusingHost_honest : refusingHost.Honest where
  serves _ request h := by
    cases request with
    | mmapHost addr length prot => cases h
    | _ => rfl
  refuses _ request errno h := by
    cases request with
    | mmapHost addr length prot => rfl
    | _ => cases h
  waits _ := rfl

theorem fullHost_honest : fullHost.Honest := ⟨obligingHost_honest.serves, obligingHost_honest.refuses, fun _ => rfl⟩

theorem forgetfulHost_honest : forgetfulHost.Honest :=
  ⟨obligingHost_honest.serves, obligingHost_honest.refuses, fun _ => rfl⟩

theorem not_always_described {host : Host} {calls : List MemCall} (page : Nat) (access : Access) (info : Option SecInfo)
    (hview : (Runs.exec (memStep host) emptyEnclave calls).map (fun enclave =>
      (enclave.heap.start, enclave.heap.finish, enclave.heap.ledger.record page,
        (enclave.epcm page).map EpcPage.info)) = some (16, 32, some access, info))
    (hbounds : 16 ≤ page ∧ page < 32)
    (hne : info ≠ some { access := host.ledger.flags access, pageType := .regular }) :
    ¬Runs.Always (memStep host) (Enclave.Described host.ledger.toAccessBits) emptyEnclave calls := by
  intro h
  obtain ⟨last, hlast, hsame⟩ := Option.map_eq_some_iff.mp hview
  simp only [Prod.mk.injEq] at hsame
  obtain ⟨hstart, hfinish, hrecord, hinfo⟩ := hsame
  obtain ⟨contents, hentry⟩ := (h.final hlast page (by omega) (by omega) (host.ledger.flags access)).mp
    (by rw [hrecord, Option.map_some])
  rw [hentry] at hinfo
  exact hne hinfo.symm

/-- The ledger keeps pages that the host has refused and rights that are no longer those of the page, and it loses
those of the pages beside the unmapped ones. With the bits of `mmledger` 0.3.0 no record says what the page allows. -/
theorem ledger_not_described :
    refusingHost.Honest ∧ fullHost.Honest ∧ forgetfulHost.Honest ∧ (hostWith sameBits).Honest ∧
      (∀ bits, emptyEnclave.Agrees bits) ∧
      ¬Runs.Always (memStep refusingHost) (Enclave.Described sampleLedger.toAccessBits) emptyEnclave
        [.brk (some 0x11000)] ∧
      ¬Runs.Always (memStep refusingHost) (Enclave.Described sampleLedger.toAccessBits) emptyEnclave [mapPage 3] ∧
      ¬Runs.Always (memStep fullHost) (Enclave.Described sampleLedger.toAccessBits) emptyEnclave
        [mapPage 3, .mprotect 0x1f000 1 1] ∧
      ¬Runs.Always (memStep forgetfulHost) (Enclave.Described sampleLedger.toAccessBits) emptyEnclave
        [.mmap none 0x2000 3 MAP_PRIVATE_ANONYMOUS (-1) 0, .munmap 0x1f000 1] ∧
      ¬Runs.Always (memStep (hostWith sameBits)) (Enclave.Described sameBits) emptyEnclave [mapPage 3] := by
  refine ⟨refusingHost_honest, fullHost_honest, forgetfulHost_honest, hostWith_honest _, emptyEnclave_agrees,
    ?_, ?_, ?_, ?_, ?_⟩
  · exact not_always_described 16 3 none (by decide +kernel) (by decide) nofun
  · exact not_always_described 31 3 none (by decide +kernel) (by decide) nofun
  · exact not_always_described 31 3 (some { access := { read := true }, pageType := .regular })
      (by decide +kernel) (by decide) (by decide)
  · exact not_always_described 30 0 (some { access := .readWrite, pageType := .regular })
      (by decide +kernel) (by decide) (by decide)
  · exact not_always_described 31 1 (some { access := .readWrite, pageType := .regular })
      (by decide +kernel) (by decide) (by decide)

end Enarx.Sgx
