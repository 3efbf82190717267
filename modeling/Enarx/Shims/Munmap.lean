import Enarx.Kvm.Unmapped
import Enarx.Sgx.Agreement

/-!
# `munmap` in both shims

After `munmap` nothing is mapped in its range, and everything else is as it was. Both
shims give up too early when the range has gaps, and report success.
-/
namespace Enarx.Shims

def Unmaps (inRange : ι → Prop) (before after : ι → Option α) : Prop :=
  (∀ i, inRange i → after i = none) ∧ ∀ i, ¬inRange i → after i = before i

theorem unmaps_iff {inRange removed : ι → Prop} [DecidablePred removed] {before after : ι → Option α}
    (hafter : ∀ i, after i = if removed i then none else before i)
    (hsome : ∀ i, removed i → (before i).isSome) :
    Unmaps inRange before after ↔ ∀ i, inRange i ∧ (before i).isSome ↔ removed i := by
  constructor
  · intro h i
    have hi := hafter i
    constructor
    · rintro ⟨hrange, hmapped⟩
      by_contra hkept
      rw [if_neg hkept, h.1 i hrange] at hi
      rw [← hi] at hmapped
      cases hmapped
    · intro hremoved
      refine ⟨?_, hsome i hremoved⟩
      by_contra hout
      have hmapped := hsome i hremoved
      rw [← h.2 i hout, hi, if_pos hremoved] at hmapped
      cases hmapped
  · intro h
    constructor
    · intro i hrange
      rw [hafter i]
      split
      · rfl
      · next hkept =>
        rw [← Option.not_isSome_iff_eq_none]
        intro hmapped
        exact hkept ((h i).mp ⟨hrange, hmapped⟩)
    · intro i hout
      rw [hafter i, if_neg]
      intro hremoved
      exact hout ((h i).mpr hremoved).1

/-- The addresses of a range, which is rounded up to whole pages. -/
def InRange (addr length raw : Nat) : Prop := addr ≤ raw ∧ raw < addr + (length + 4095) / 4096 * 4096

section

open Kvm

/-- The pages of the range that are mapped are those in front of the first page that is not mapped
with 4 KiB. -/
def KvmGapless (c : CBit) (tables : PageTables) (addr length : Nat) : Prop :=
  ∀ virt : VirtAddr, InRange addr length virt.raw ∧ (tables.access c virt).isSome ↔
    virt.page ∈ (reached (tables.mapsSmall c)
      ((VirtAddr.new addr).elim [] (unmapWalk · length))).map VirtAddr.page

theorem kvm_unmaps_iff {host : Kvm.Host} {memory after : Memory} {addr length : Nat}
    (htree : memory.tables.IsTree host.cBit) (hlength : length ≠ 0)
    (h : Kvm.munmap host addr length memory = (.ok (), after)) :
    Unmaps (fun virt : VirtAddr => InRange addr length virt.raw) (memory.tables.access host.cBit)
        (after.tables.access host.cBit) ↔ KvmGapless host.cBit memory.tables addr length := by
  obtain ⟨start, hstart, huntil⟩ := (Kvm.munmap_moves host addr length _).ok h
  rw [if_neg hlength] at huntil
  rw [KvmGapless, hstart]
  apply unmaps_iff (huntil.access htree)
  intro virt hreached
  obtain ⟨page, hpage, heq⟩ := List.mem_map.mp hreached
  exact access_of_mapsSmall (small_of_mem_reached hpage) heq.symm

end

section

open Sgx

/-- All pages of the range are recorded and the others keep their rights, if they have any, or none of them is. -/
def SgxGapless (crate : Mmledger) (clock : Nat) (ledger : Ledger) (addr length : Nat) : Prop :=
  ((∀ page, InRange addr length (PAGE_SIZE * page) → (ledger.record page).isSome) ∧
      ∀ page, ¬InRange addr length (PAGE_SIZE * page) → ∀ access, ledger.record page = some access →
        crate.kept clock page = true ∨ access = 0) ∨
    ∀ page, InRange addr length (PAGE_SIZE * page) → ledger.record page = none

theorem sgx_unmaps_iff {host : Sgx.Host} {enclave after : Enclave} {addr length : Nat} (hlength : length ≠ 0)
    (h : Sgx.munmap host addr length enclave = (.ok (), after)) :
    Unmaps (fun page => InRange addr length (PAGE_SIZE * page)) enclave.heap.ledger.record
        after.heap.ledger.record ↔ SgxGapless host.ledger enclave.clock enclave.heap.ledger addr length := by
  obtain ⟨npages, ⟨hle, hlt⟩, haligned, hdone⟩ := (Sgx.munmap_yields host addr length enclave).ok h
  have hrange : ∀ page, InRange addr length (PAGE_SIZE * page) ↔
      addr / PAGE_SIZE ≤ page ∧ page < addr / PAGE_SIZE + npages := by
    intro page
    unfold InRange PAGE_SIZE at *
    omega
  have hcontains : (enclave.heap.contains (addr / PAGE_SIZE) npages).isSome ↔
      ∀ page, InRange addr length (PAGE_SIZE * page) → (enclave.heap.ledger.record page).isSome := by
    rw [Heap.contains, Ledger.contains_isSome]
    simp only [hrange, and_imp]
  rcases hdone with ⟨hnone, hsame⟩ | ⟨hsome, hmunmap⟩
  · have hgap : ¬∀ page, InRange addr length (PAGE_SIZE * page) → (enclave.heap.ledger.record page).isSome := by
      rw [← hcontains]
      simpa using hnone
    have hkept : ∀ page, enclave.heap.ledger.record page =
        if False then none else enclave.heap.ledger.record page := fun page => (if_neg id).symm
    rw [hsame, unmaps_iff hkept (fun _ => False.elim), SgxGapless, or_iff_right (mt And.left hgap)]
    simp
  · have hall := hcontains.mp hsome
    have hledger : after.heap.ledger.record =
        enclave.heap.ledger.unmapped (host.ledger.kept enclave.clock) (addr / PAGE_SIZE) npages := by
      rw [Heap.munmap] at hmunmap
      split at hmunmap
      · next ledger hunmap => rw [← Except.ok.inj hmunmap, Ledger.edit_ok hunmap]
      · cases hmunmap
    have hfirst : InRange addr length (PAGE_SIZE * (addr / PAGE_SIZE)) := by
      rw [hrange]
      unfold PAGE_SIZE at *
      omega
    have hused : ¬∀ page, InRange addr length (PAGE_SIZE * page) → enclave.heap.ledger.record page = none := by
      intro hnone
      have hrecorded := hall _ hfirst
      rw [hnone _ hfirst] at hrecorded
      cases hrecorded
    rw [SgxGapless, or_iff_left hused, and_iff_right hall, hledger]
    have hinside : ∀ page, InRange addr length (PAGE_SIZE * page) →
        enclave.heap.ledger.unmapped (host.ledger.kept enclave.clock) (addr / PAGE_SIZE) npages page = none :=
      fun page hpage => if_pos ((hrange page).mp hpage)
    rw [Unmaps, and_iff_right hinside]
    refine forall₂_congr fun page hpage => ?_
    rw [Ledger.unmapped, if_neg (mt (hrange page).mpr hpage)]
    cases enclave.heap.ledger.record page with
    | none => simp
    | some access =>
      rw [Option.map_some, Option.some.injEq]
      constructor
      · rintro hsame _ ⟨⟩
        by_cases hkept : host.ledger.kept enclave.clock page = true
        · exact .inl hkept
        · rw [if_neg hkept] at hsame
          exact .inr hsame.symm
      · intro hkept
        obtain hkept | hempty := hkept access rfl
        · exact if_pos hkept
        · rw [hempty, ite_self]

end

/-- `munmap` does what it should exactly if the range has no gap that makes it give up, and the ledger of
the SGX shim spares the pages around it. -/
theorem munmap_unmaps_iff (addr length : Nat) (hlength : length ≠ 0) :
    (∀ (machine : Kvm.Host) (memory after : Kvm.Memory), memory.tables.IsTree machine.cBit →
      Kvm.munmap machine addr length memory = (.ok (), after) →
      (Unmaps (fun virt : Kvm.VirtAddr => InRange addr length virt.raw)
          (memory.tables.access machine.cBit) (after.tables.access machine.cBit) ↔
        KvmGapless machine.cBit memory.tables addr length)) ∧
    ∀ (host : Sgx.Host) (enclave after : Sgx.Enclave), Sgx.munmap host addr length enclave = (.ok (), after) →
      (Unmaps (fun page => InRange addr length (Sgx.PAGE_SIZE * page)) enclave.heap.ledger.record
          after.heap.ledger.record ↔ SgxGapless host.ledger enclave.clock enclave.heap.ledger addr length) :=
  ⟨fun _ _ _ htree h => kvm_unmaps_iff htree hlength h, fun _ _ _ h => sgx_unmaps_iff hlength h⟩

section

open Kvm

def entryFor (n : Nat) : PageTableEntry :=
  ⟨⟨SIZE_4_KIB * (n % 512), by unfold SIZE_4_KIB; omega⟩, USER_TABLE_FLAGS, Nat.dvd_mul_right _ _⟩

def onePage : PageTables where
  level4 := windowPage 0 windowPage_zero_lt
  mem table index :=
    if table.memPage ≤ 3 ∧ index = if table.memPage = 3 then 2 else 0 then entryFor (table.memPage + 1)
    else .unused

def onePageMemory : Memory where
  tables := onePage
  allocator := ⟨11, 20, 0x100000, ∅⟩
  brkStart := windowPage 0 windowPage_zero_lt
  brkEnd := windowPage 0 windowPage_zero_lt
  nextMmap := windowPage 0 windowPage_zero_lt
  asked := 0
  returned := []
  mapFailed := false

theorem follow_onePage {n : Nat} (hn : n < 3) {index : Fin 512} {below : VirtAddr}
    (h : (onePage.mem (windowPage n (by omega)) index).follow fullMachine.cBit = some below) :
    index = 0 ∧ below = windowPage (n + 1) (by omega) := by
  have hmemPage : (windowPage n (by omega)).memPage = n := by
    rw [VirtAddr.memPage, windowPage, Nat.add_sub_cancel_left, Nat.mul_div_cancel_left _ (by decide)]
  rw [onePage] at h
  dsimp only at h
  rw [hmemPage, if_neg (by omega : ¬n = 3)] at h
  split at h
  · next hindex =>
    refine ⟨hindex.2, ?_⟩
    have hpointer : frameToPointer fullMachine.cBit (entryFor (n + 1)).addr =
        some (windowPage (n + 1) (by omega)) := by
      apply frameToPointer_eq _ (windowPage_spec _).1
      rw [windowPage, Nat.add_sub_cancel_left]
      change SIZE_4_KIB * ((n + 1) % 512) = SIZE_4_KIB * (n + 1)
      rw [Nat.mod_eq_of_lt (by omega)]
    exact Option.some.inj ((follow_some h).2.symm.trans hpointer)
  · cases h

theorem tableAt_onePage {n : Nat} {path : List (Fin 512)} {table : VirtAddr} (hn : n + path.length ≤ 3)
    (h : Radix.tableAt (PageTableEntry.follow fullMachine.cBit) onePage.mem
      (windowPage n (by omega)) path = some table) :
    path = List.replicate path.length 0 ∧ table = windowPage (n + path.length) (by omega) := by
  induction path generalizing n with
  | nil =>
    cases h
    exact ⟨rfl, rfl⟩
  | cons index path ih =>
    rw [List.length_cons] at hn
    rw [Radix.tableAt, Option.bind_eq_some_iff] at h
    obtain ⟨below, hfollow, hbelow⟩ := h
    obtain ⟨rfl, rfl⟩ := follow_onePage (by omega) hfollow
    obtain ⟨hpath, htable⟩ := ih (by omega) hbelow
    constructor
    · rw [List.length_cons, List.replicate_succ, ← hpath]
    · rw [htable]
      congr 1
      rw [List.length_cons]
      omega

theorem onePage_isTree : onePage.IsTree fullMachine.cBit := by
  intro p q table hp hq hpTable hqTable
  obtain ⟨hpZeros, hpLast⟩ := tableAt_onePage (n := 0) (by omega) hpTable
  obtain ⟨hqZeros, hqLast⟩ := tableAt_onePage (n := 0) (by omega) hqTable
  have hlength : p.length = q.length := by
    have hsame := windowPage_inj (hpLast.symm.trans hqLast)
    omega
  rw [hpZeros, hqZeros, hlength]

end

def enclaveWith (used : Nat → Bool) : Sgx.Enclave where
  heap := { Sgx.Heap.new 1 8 with ledger := ⟨1, 8, fun page => if used page then some 3 else none⟩ }
  epcm page := if used page then some ⟨{ access := .readWrite, pageType := .regular }, fun _ => 0⟩ else none
  clock := 0
  seen := []

def onePageEnclave : Sgx.Enclave := enclaveWith fun page => page = 2

def twoPageEnclave : Sgx.Enclave := enclaveWith fun page => page = 2 ∨ page = 3

theorem munmap_unmaps_onePage : (Unmaps (fun virt : Kvm.VirtAddr => InRange 0x2000 0x1000 virt.raw)
        (onePage.access Kvm.fullMachine.cBit)
        ((Kvm.munmap Kvm.fullMachine 0x2000 0x1000 onePageMemory).2.tables.access Kvm.fullMachine.cBit) ↔
      KvmGapless Kvm.fullMachine.cBit onePage 0x2000 0x1000) ∧
    (Unmaps (fun page => InRange 0x2000 0x1000 (Sgx.PAGE_SIZE * page)) onePageEnclave.heap.ledger.record
        (Sgx.munmap Sgx.obligingHost 0x2000 0x1000 onePageEnclave).2.heap.ledger.record ↔
      SgxGapless Sgx.sampleLedger 0 onePageEnclave.heap.ledger 0x2000 0x1000) :=
  have h := munmap_unmaps_iff 0x2000 0x1000 (by decide)
  ⟨h.1 Kvm.fullMachine onePageMemory _ onePage_isTree rfl, h.2 Sgx.obligingHost onePageEnclave _ rfl⟩

/-- The page behind one that is not mapped stays. A ledger that cuts a record forgets the rights of what is left. -/
theorem munmap_gives_up : (Kvm.munmap Kvm.fullMachine 0x1000 0x2000 onePageMemory = (.ok (), onePageMemory) ∧
      ¬Unmaps (fun virt : Kvm.VirtAddr => InRange 0x1000 0x2000 virt.raw)
        (onePage.access Kvm.fullMachine.cBit) (onePage.access Kvm.fullMachine.cBit)) ∧
    (Sgx.munmap Sgx.obligingHost 0x1000 0x2000 onePageEnclave = (.ok (), onePageEnclave) ∧
      ¬Unmaps (fun page => InRange 0x1000 0x2000 (Sgx.PAGE_SIZE * page)) onePageEnclave.heap.ledger.record
        onePageEnclave.heap.ledger.record) ∧
    ∃ after, Sgx.munmap Sgx.forgetfulHost 0x2000 0x1000 twoPageEnclave = (.ok (), after) ∧
      ¬Unmaps (fun page => InRange 0x2000 0x1000 (Sgx.PAGE_SIZE * page)) twoPageEnclave.heap.ledger.record
        after.heap.ledger.record := by
  refine ⟨⟨rfl, fun h => ?_⟩, ⟨rfl, fun h => ?_⟩, _, rfl, fun h => ?_⟩
  · have hmapped : (onePage.access Kvm.fullMachine.cBit ⟨0x2000, .inl (by decide)⟩).isSome := rfl
    rw [h.1 _ ⟨by decide, by decide⟩] at hmapped
    cases hmapped
  · exact absurd (h.1 2 ⟨by decide, by decide⟩) (by decide)
  · exact absurd (h.2 3 fun hrange => absurd hrange.2 (by decide)) (by decide)

end Enarx.Shims
