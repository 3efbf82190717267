import Enarx.Sgx.Handler

/-!
# What the calls do to the heap

Requests to the host and instructions leave the heap alone, and only `brk` moves
the break.
-/
namespace Enarx.Sgx

open Exec (Keeps Preserves)
open Sallyport (CInt Errno)

def Heap.area (heap : Heap) : Nat × Nat × Nat × Nat :=
  (heap.start, heap.finish, heap.brkAddr, heap.brkMax)

theorem Heap.mmap_area {heap heap' : Heap} {room : Bool} {addr : Option Nat} {length : Nat}
    {access : Access} {result : Nat} (h : heap.mmap room addr length access = some (result, heap')) :
    heap'.area = heap.area := by
  obtain ⟨found, -, h⟩ := Option.bind_eq_some_iff.mp h
  split at h <;> cases h
  rfl

theorem Heap.munmap_area {heap heap' : Heap} {room : Bool} {kept : Nat → Bool} {addr length : Nat}
    (h : heap.munmap room kept addr length = .ok heap') : heap'.area = heap.area := by
  unfold Heap.munmap at h
  split at h <;> cases h
  rfl

theorem Heap.brk_cases (heap : Heap) (bits : AccessBits) (room : Bool) (next : Nat) :
    (heap.brk bits room next = (heap.brkAddr, heap) ∧
      (next < heap.start ∨ heap.finish ≤ next ∨ heap.brkMax < next)) ∨
    (∃ heap', heap.brk bits room next = (next, heap') ∧ heap.start ≤ next ∧ next < heap.finish ∧
      ((next ≤ heap.brkMax ∧ heap'.area = (heap.start, heap.finish, next, heap.brkMax) ∧
          heap'.ledger = heap.ledger) ∨
        (heap.brkMax < next ∧ heap'.area = (heap.start, heap.finish, heap.brkAddr, next) ∧
          heap.ledger.map room heap.brkMax (next - heap.brkMax) bits.readWrite = .ok heap'.ledger))) := by
  unfold Heap.brk
  by_cases hrange : next < heap.start ∨ heap.finish ≤ next
  · exact .inl ⟨dif_pos hrange, hrange.imp id .inl⟩
  rw [dif_neg hrange]
  obtain ⟨hlo, hhi⟩ : heap.start ≤ next ∧ next < heap.finish := by omega
  by_cases hle : next ≤ heap.brkMax
  · rw [dif_pos hle]
    exact .inr ⟨_, rfl, hlo, hhi, .inl ⟨hle, rfl, rfl⟩⟩
  rw [dif_neg hle]
  dsimp only
  by_cases hoverlaps : heap.ledger.overlaps heap.brkMax (next - heap.brkMax) = true
  · rw [if_pos hoverlaps]
    exact .inl ⟨rfl, .inr (.inr (by omega))⟩
  rw [if_neg hoverlaps]
  cases hmap : heap.ledger.map room heap.brkMax (next - heap.brkMax) bits.readWrite with
  | error error => exact .inl ⟨rfl, .inr (.inr (by omega))⟩
  | ok ledger => exact .inr ⟨_, rfl, hlo, hhi, .inr ⟨by omega, rfl, rfl⟩⟩

section

variable (host : Host)

theorem sally_keeps_heap (request : Request) : Keeps Enclave.heap (sally host request) := by
  intro enclave
  unfold sally
  cases host.answer enclave.clock request <;> rfl

theorem instruction_keeps_heap (run : Epcm → Option Epcm) (failed : Stop ε) :
    Keeps Enclave.heap (instruction host run failed) := by
  intro enclave
  unfold instruction
  dsimp only
  cases run (enclave.hosted (host.between enclave.clock)).epcm <;> rfl

theorem orAttacked_preserves {I : Enclave → Prop} {run : Shim Errno Unit} (h : Preserves I run) :
    Preserves I (orAttacked run : Shim ε Unit) := by
  intro enclave henclave
  have hrun := h enclave henclave
  unfold orAttacked
  rcases hresult : run enclave with ⟨(_ | _ | _) | _, after⟩ <;> rw [hresult] at hrun <;> exact hrun

theorem orPanic_preserves {I : Enclave → Prop} (value : Option α) : Preserves I (orPanic value : Shim ε α) := by
  cases value with
  | none => exact .throw _
  | some value => exact .pure value

theorem mmapGuest_keeps_heap (prot : CInt) (list : List Nat) :
    Keeps Enclave.heap (mmapGuest host prot list : Shim ε Unit) := by
  induction list with
  | nil => exact .pure _
  | cons page rest ih => exact (instruction_keeps_heap host _ _).bind fun _ => ih

theorem mprotectGuest_keeps_heap (prot : CInt) (list : List Nat) :
    Keeps Enclave.heap (mprotectGuest host prot list : Shim ε Unit) := by
  induction list with
  | nil => exact .pure _
  | cons page rest ih =>
    exact (instruction_keeps_heap host _ _).bind fun _ => (instruction_keeps_heap host _ _).bind fun _ => ih

theorem munmapGuest_keeps_heap (list : List Nat) :
    Keeps Enclave.heap (munmapGuest host list : Shim ε Unit) := by
  induction list with
  | nil => exact .pure _
  | cons page rest ih => exact (instruction_keeps_heap host _ _).bind fun _ => ih

theorem withHeap_apply {edit : Nat → Heap → α × Heap} {enclave : Enclave} {result : α} {heap : Heap}
    (h : edit enclave.clock enclave.heap = (result, heap)) :
    (withHeap edit : Shim ε α) enclave = (.ok result, Enclave.tick { enclave with heap }) := by
  unfold withHeap
  rw [h]

inductive Heap.Edits (bits : AccessBits) (heap : Heap) : Heap → Prop where
  | refl : Edits bits heap heap
  | mmap {room : Bool} {place : Option Nat} {length : Nat} {prot : CInt} {found : Nat} {after : Heap}
      (hprot : isProtAllowed prot = true)
      (h : heap.mmap room place length (bits.ofProt prot) = some (found, after)) : Edits bits heap after
  | munmap {room : Bool} {kept : Nat → Bool} {addr length : Nat} {after : Heap}
      (h : heap.munmap room kept addr length = .ok after) : Edits bits heap after

/-- An invariant of `mmap`, `mprotect` and `munmap`: the parts that they are made of preserve it. -/
structure Invariant (I : Enclave → Prop) : Prop where
  sally : ∀ request, Preserves I (sally host request)
  mmapGuest : ∀ {prot}, isProtAllowed prot = true → ∀ list, Preserves I (mmapGuest host prot list : Shim Errno Unit)
  mprotectGuest : ∀ {prot}, isProtAllowed prot = true → ∀ list,
    Preserves I (mprotectGuest host prot list : Shim Errno Unit)
  munmapGuest : ∀ list, Preserves I (munmapGuest host list : Shim Errno Unit)
  withHeap : ∀ {α : Type} {edit : Nat → Heap → α × Heap},
    (∀ clock heap, Heap.Edits host.ledger.toAccessBits heap (edit clock heap).2) →
      Preserves I (withHeap edit : Shim Errno α)

theorem or_read_ne_zero (prot : CInt) : prot ||| PROT_READ ≠ 0 := by
  intro h
  have hbit := congrArg (·.getLsbD 0) h
  simp [PROT_READ] at hbit

namespace Invariant

variable {host} {I : Enclave → Prop} (hI : Invariant host I)

include hI

theorem mprotectUnlocked (addr length : Nat) (prot : CInt) : Preserves I (mprotectUnlocked host addr length prot) := by
  refine (orPanic_preserves _).bind fun npages => .ite (fun _ => .throw _) fun _ => .ite (fun _ => .throw _) fun hprot => ?_
  have hallowed : isProtAllowed prot = true := by simpa using hprot
  refine Preserves.get.bind fun enclave => .ite (fun _ => .throw _) fun _ => ?_
  refine (hI.sally _).bind fun _ => (hI.mprotectGuest hallowed _).bind fun _ => hI.withHeap fun clock heap => ?_
  cases hmmap : heap.mmap (host.ledger.room clock) (some (addr / PAGE_SIZE)) npages (host.ledger.ofProt prot) with
  | none => exact .refl
  | some result => exact .mmap hallowed hmmap

theorem munmapUnlocked (addr length : Nat) : Preserves I (munmapUnlocked host addr length) := by
  refine (orPanic_preserves _).bind fun npages => .ite (fun _ => .throw _) fun _ => ?_
  refine Preserves.get.bind fun enclave => .ite (fun _ => .pure _) fun _ => ?_
  refine (hI.withHeap fun clock heap => ?_).bind fun released => .ite (fun _ => .throw _) fun _ => ?_
  · cases hmunmap : heap.munmap (host.ledger.room clock) (host.ledger.kept clock) (addr / PAGE_SIZE) npages with
    | error error => exact .refl
    | ok heap' => exact .munmap hmunmap
  · refine (orAttacked_preserves (hI.sally _)).bind fun _ => (hI.munmapGuest _).bind fun _ => ?_
    exact orAttacked_preserves (hI.sally _)

theorem mmap (addr : Option Nat) (len : Nat) (prot flags fd : CInt) (offset : BitVec 64) :
    Preserves I (mmap host addr len prot flags fd offset) := by
  refine .ite (fun _ => .throw _) fun _ => .ite (fun _ => .throw _) fun hprot => ?_
  have hallowed : isProtAllowed (prot ||| PROT_READ) = true := by
    by_contra hnot
    exact hprot ⟨or_read_ne_zero prot, by simpa using hnot⟩
  refine (orPanic_preserves _).bind fun length => (hI.withHeap fun clock heap => ?_).bind ?_
  · cases hmmap : heap.mmap (host.ledger.room clock) none length (host.ledger.ofProt (prot ||| PROT_READ)) with
    | none => exact .refl
    | some result => exact .mmap hallowed hmmap
  rintro (_ | found)
  · exact .throw _
  refine (orPanic_preserves _).bind fun ret => (hI.sally _).bind fun _ => ?_
  refine (hI.mmapGuest hallowed _).bind fun _ => .ite (fun _ => ?_) fun _ => .pure _
  refine Preserves.bind (.tryCatch (hI.mprotectUnlocked _ _ _) ?_) fun _ => .pure _
  intro stop
  cases stop with
  | err errno => exact (hI.munmapUnlocked _ _).bind fun _ => .throw _
  | _ => exact .throw _

end Invariant

def Enclave.area (enclave : Enclave) : Nat × Nat × Nat × Nat := enclave.heap.area

theorem invariant_area (area : Nat × Nat × Nat × Nat) : Invariant host (Enclave.area · = area) := by
  have hkeeps : ∀ {α : Type} {run : Shim Errno α}, Keeps Enclave.heap run → Preserves (Enclave.area · = area) run :=
    fun h => Exec.keeps_iff.mp (h.comp Heap.area) area
  refine ⟨fun _ => hkeeps (sally_keeps_heap host _), fun _ _ => hkeeps (mmapGuest_keeps_heap host _ _),
    fun _ _ => hkeeps (mprotectGuest_keeps_heap host _ _), fun _ => hkeeps (munmapGuest_keeps_heap host _), ?_⟩
  intro α edit hedit enclave harea
  refine Eq.trans ?_ harea
  have hedits := hedit enclave.clock enclave.heap
  change Heap.area (edit enclave.clock enclave.heap).2 = enclave.heap.area
  generalize (edit enclave.clock enclave.heap).2 = after at hedits ⊢
  cases hedits with
  | refl => rfl
  | mmap _ h => exact Heap.mmap_area h
  | munmap h => exact Heap.munmap_area h

theorem munmap_keeps_area (addr length : Nat) : Keeps Enclave.area (munmap host addr length) :=
  Exec.keeps_iff.mpr fun area => (invariant_area host area).munmapUnlocked addr length

theorem mmap_keeps_area (addr : Option Nat) (len : Nat) (prot flags fd : CInt) (offset : BitVec 64) :
    Keeps Enclave.area (mmap host addr len prot flags fd offset) :=
  Exec.keeps_iff.mpr fun area => (invariant_area host area).mmap addr len prot flags fd offset

theorem orPanic_yields {E : Stop ε → Enclave → Prop} (value : Option α) (enclave : Enclave)
    (hpanic : E .panic enclave) :
    Exec.Yields (orPanic value) enclave (fun result after => value = some result ∧ enclave = after) E := by
  cases value with
  | none => exact hpanic
  | some value => exact ⟨rfl, rfl⟩

theorem keeps_heap_yields {run : Shim ε α} (h : Keeps Enclave.heap run) (enclave : Enclave) :
    run.Yields enclave (fun _ after => after.heap = enclave.heap)
      (fun _ after => after.heap = enclave.heap) := by
  have hkeep := h enclave
  unfold Exec.Yields
  rcases hrun : run enclave with ⟨_ | _, after⟩ <;> rw [hrun] at hkeep <;> exact hkeep

theorem roundUp_spec {addr next : Nat} (h : roundUp addr = some next) :
    addr ≤ PAGE_SIZE * next ∧ PAGE_SIZE * next < addr + PAGE_SIZE := by
  unfold roundUp at h
  split at h
  · cases h
    unfold PAGE_SIZE
    omega
  · cases h

/-- A range of pages is released, or the call has passed over it because it is not in use as a whole. -/
def MunmapDone (addr length : Nat) (before after : Enclave) : Prop :=
  ∃ npages, (length ≤ PAGE_SIZE * npages ∧ PAGE_SIZE * npages < length + PAGE_SIZE) ∧
    addr % PAGE_SIZE = 0 ∧ ((before.heap.contains (addr / PAGE_SIZE) npages).isNone ∧ after = before ∨
      (before.heap.contains (addr / PAGE_SIZE) npages).isSome ∧
        before.heap.munmap (host.ledger.room before.clock) (host.ledger.kept before.clock) (addr / PAGE_SIZE) npages =
          .ok after.heap)

theorem munmap_yields (addr length : Nat) (enclave : Enclave) :
    (munmap host addr length).Yields enclave (fun _ after => MunmapDone host addr length enclave after)
      (fun _ _ => True) := by
  unfold munmap munmapUnlocked
  generalize hroundUp : roundUp length = npages?
  refine (orPanic_yields _ _ trivial).bind ?_
  rintro npages _ ⟨rfl, rfl⟩
  have hnpages := roundUp_spec hroundUp
  by_cases hbad : addr % PAGE_SIZE ≠ 0 ∨ npages = 0
  · rw [if_pos hbad]
    exact trivial
  rw [if_neg hbad]
  have haligned : addr % PAGE_SIZE = 0 := by
    by_contra hne
    exact hbad (.inl hne)
  apply Exec.Yields.get_bind
  dsimp only
  by_cases hnone : (enclave.heap.contains (addr / PAGE_SIZE) npages).isNone
  · rw [if_pos hnone]
    exact ⟨npages, hnpages, haligned, .inl ⟨hnone, rfl⟩⟩
  rw [if_neg hnone]
  have hsome : (enclave.heap.contains (addr / PAGE_SIZE) npages).isSome := by
    simpa [Option.isSome_iff_ne_none] using hnone
  cases hmunmap : enclave.heap.munmap (host.ledger.room enclave.clock) (host.ledger.kept enclave.clock)
      (addr / PAGE_SIZE) npages with
  | error error =>
    apply Exec.Yields.bind_of_ok (withHeap_apply (by rw [hmunmap]))
    exact trivial
  | ok heap =>
    apply Exec.Yields.bind_of_ok (withHeap_apply (by rw [hmunmap]))
    have hsally : ∀ request, Keeps Enclave.heap (orAttacked (sally host request) : Shim Errno Unit) := fun request =>
      Exec.keeps_iff.mpr fun heap => orAttacked_preserves (Exec.keeps_iff.mp (sally_keeps_heap host request) heap)
    have hkeeps : Keeps Enclave.heap (do
        orAttacked (sally host (.trimSgxPages (addr / PAGE_SIZE) npages))
        munmapGuest host (pages (addr / PAGE_SIZE) npages)
        orAttacked (sally host (.munmapHost (addr / PAGE_SIZE) npages)) : Shim Errno Unit) :=
      (hsally _).bind fun _ => (munmapGuest_keeps_heap host _).bind fun _ => hsally _
    refine (keeps_heap_yields hkeeps _).imp ?_ fun _ _ _ => trivial
    intro _ after hheap
    exact ⟨npages, hnpages, haligned, .inr ⟨hsome, hmunmap.trans (congrArg _ hheap.symm)⟩⟩

def BrkMoved (addr : Option Nat) (before : Enclave) (page : Nat) (after : Enclave) : Prop :=
  ∃ next, brkNext addr = some next ∧
    before.heap.brk host.ledger.toAccessBits (host.ledger.room before.clock) next = (page, after.heap)

theorem brk_yields (addr : Option Nat) (enclave : Enclave) : (brk host addr).Yields enclave
      (fun result after => ∃ page, BrkMoved host addr enclave page after ∧ result = PAGE_SIZE * page)
      (fun stop after => ∀ errno, stop = .err errno → ∃ page, BrkMoved host addr enclave page after ∧
        enclave.heap.brkMax < page) := by
  refine (orPanic_yields _ _ (fun _ h => nomatch h)).bind ?_
  rintro next _ ⟨hnext, rfl⟩
  apply Exec.Yields.get_bind
  rcases hbrk : enclave.heap.brk host.ledger.toAccessBits (host.ledger.room enclave.clock) next with ⟨page, heap⟩
  have hmoved : ∀ after : Enclave, after.heap = heap → BrkMoved host addr enclave page after := by
    rintro after rfl
    exact ⟨next, hnext, hbrk⟩
  have hreturn : ∀ after : Enclave, after.heap = heap →
      Exec.Yields (orPanic (if page = 0 then none else some (PAGE_SIZE * page)) :
          Shim Errno Nat) after
        (fun result after => ∃ page, BrkMoved host addr enclave page after ∧ result = PAGE_SIZE * page)
        (fun stop after => ∀ errno, stop = .err errno → ∃ page,
          BrkMoved host addr enclave page after ∧ enclave.heap.brkMax < page) := by
    intro after hafter
    refine (orPanic_yields _ _ (fun _ h => nomatch h)).imp ?_ fun _ _ => id
    rintro result _ ⟨hresult, rfl⟩
    split at hresult
    · cases hresult
    · exact ⟨page, hmoved after hafter, (Option.some.inj hresult).symm⟩
  apply Exec.Yields.bind_of_ok (withHeap_apply hbrk)
  dsimp only
  by_cases hgrows : enclave.heap.brkMax < page
  · rw [if_pos hgrows]
    refine Exec.Yields.bind ((keeps_heap_yields (sally_keeps_heap host _) _).imp (fun _ _ => id) ?_) ?_
    · intro stop after hheap errno _
      exact ⟨page, hmoved after hheap, hgrows⟩
    · intro _ middle hmiddle
      refine Exec.Yields.bind
        ((keeps_heap_yields (mmapGuest_keeps_heap host _ _) _).imp (fun _ _ => id) ?_) ?_
      · intro stop after hheap errno _
        exact ⟨page, hmoved after (hheap.trans hmiddle), hgrows⟩
      · intro _ after hafter
        exact hreturn after (hafter.trans hmiddle)
  · rw [if_neg hgrows]
    exact hreturn _ rfl

end

end Enarx.Sgx
