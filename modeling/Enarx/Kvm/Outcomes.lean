import Mathlib.Data.Finset.Max
import Enarx.Kvm.Rollback
import Enarx.Kvm.Start

/-!
# What a request for memory promises

A request that is served maps every page of its range to memory of its own. A request
that fails should leave no trace, and does so unless it gets stuck inside a block.
-/
namespace Enarx.Kvm

open PageTables

theorem VirtAddr.Spans.isRange {mapTo : VirtAddr} {size : Nat} (h : mapTo.Spans size) :
    IsRange mapTo.page (size / SIZE_4_KIB) := by
  unfold VirtAddr.Spans at h
  unfold IsRange VirtAddr.page SIZE_4_KIB
  omega

theorem mem_range_iff {mapTo addr : VirtAddr} {size : Nat} (haligned : SIZE_4_KIB ∣ mapTo.raw)
    (hsize : SIZE_4_KIB ∣ size) : addr.page ∈ Set.Ico mapTo.page (mapTo.page + size / SIZE_4_KIB) ↔
      mapTo.raw ≤ addr.raw ∧ addr.raw < mapTo.raw + size := by
  obtain ⟨k, hk⟩ := haligned
  obtain ⟨npages, rfl⟩ := hsize
  rw [Set.mem_Ico, VirtAddr.page_of_raw hk, hk, VirtAddr.page, Nat.mul_div_cancel_left _ (by decide)]
  unfold SIZE_4_KIB
  omega

section

variable {host : Host} {c : CBit} {flags parentFlags : PageTableFlags} {fuel size bottom : Nat} {mapTo : VirtAddr}
  {memory after : Memory} {stale : Set Nat} {own : Nat → Owner}

/-- A page of the memory that was free, or that the host has granted since. -/
def Fresh (before after : Memory) (n : Nat) : Prop :=
  n ∈ before.allocator.free ∨ before.allocator.endOfMem ≤ n ∧ n < after.allocator.endOfMem

/-- An address is mapped by a page of 4 KiB with these flags, encrypted, to page `n` of the memory. -/
def PageTables.MapsTo (c : CBit) (tables : PageTables) (flags : PageTableFlags) (addr : VirtAddr) (n : Nat) : Prop :=
  ∃ entry, tables.leaf? c addr = some (entry, []) ∧ Leads c flags entry n

theorem Serves.fresh {own' : Nat → Owner} {pages : Set Nat}
    (h : Serves c bottom stale flags own memory own' pages after) (howns : memory.Owns c bottom stale own)
    {page n : Nat} (hloose : (own n).Loose) (hn : own' n = .user page) : Fresh memory after n := by
  rcases hloose with hout | hfree
  · have hbottom := h.owns.bottom_le_block (ownsBlock_one.mpr hn) (by simp) Nat.one_pos
    refine .inr ⟨?_, h.owns.lt_end (by simp [hn])⟩
    by_contra hlt
    exact howns.born n hbottom (Nat.lt_of_not_le hlt) hout
  · exact .inl ((howns.free_iff n).mpr hfree)

def Requested (mapTo : VirtAddr) (size : Nat) (addr : VirtAddr) : Prop :=
  mapTo.raw ≤ addr.raw ∧ addr.raw < mapTo.raw + size

/-- Every page of the range is mapped, to zeroed memory that is its own and was nobody's before, and nothing
else has changed. -/
theorem allocateAndMapMemory_maps (howns : memory.Owns host.cBit bottom stale own)
    (hpresent : flags.present = true) (hparent : parentFlags.hugePage = false) (hspans : mapTo.Spans size)
    (hrun : allocateAndMapMemory host flags parentFlags fuel mapTo size memory = (.ok (), after)) :
    (∀ addr, Requested mapTo size addr →
      ∃ n, after.tables.MapsTo host.cBit flags addr n ∧ Fresh memory after n ∧ after.Zero n 1) ∧
    (∀ addr other n, Requested mapTo size addr → Requested mapTo size other →
      after.tables.MapsTo host.cBit flags addr n → after.tables.MapsTo host.cBit flags other n →
        addr.page = other.page) ∧
    ∀ addr, ¬Requested mapTo size addr →
      after.tables.leaf? host.cBit addr = memory.tables.leaf? host.cBit addr := by
  obtain ⟨haligned, hsize, -, ⟨own', pages, hserves, -, hpages⟩, -⟩ :=
    (allocateAndMapMemory_yields hpresent hparent fuel howns mapTo size).ok hrun
  have hmem : ∀ addr : VirtAddr, addr.page ∈ pages ↔ Requested mapTo size addr := by
    intro addr
    rw [hpages hspans.isRange]
    exact mem_range_iff haligned hsize
  refine ⟨?_, ?_, ?_⟩
  · intro addr haddr
    rw [← hmem] at haddr
    obtain ⟨entry, n, hleaf, hleads, hloose, hzero⟩ := hserves.maps.mapped addr haddr
    have howner := hserves.owner howns hpresent haddr hleaf hleads
    exact ⟨n, ⟨entry, hleaf, hleads⟩, hserves.fresh howns hloose howner, hzero⟩
  · rintro addr other n haddr hother ⟨entry, hleaf, hleads⟩ ⟨entry', hleaf', hleads'⟩
    -- a page of the memory has one owner
    have howner := hserves.owner howns hpresent ((hmem addr).mpr haddr) hleaf hleads
    have howner' := hserves.owner howns hpresent ((hmem other).mpr hother) hleaf' hleads'
    rw [howner, Owner.user.injEq] at howner'
    exact howner'
  · intro addr haddr
    rw [← hmem] at haddr
    exact hserves.maps.other addr haddr

end

def smallHeap : FirstFit where
  find free npages := (List.range (free.max.unbotD 0 + 1)).find? fun start =>
    decide (Finset.Ico start (start + npages) ⊆ free)
  find_subset h := of_decide_eq_true (List.find?_some h :)

def smallHost : Host where
  cBit := .bit51
  snpActive := true
  balloonMemory _ := false
  pvalidate _ _ := true
  heap := smallHeap

def smallMemory : Memory where
  tables := firstPages.tables smallHost.cBit noTables
  allocator := { lastAlloc := 0, maxAlloc := 0, endOfMem := 12, free := Finset.Ico 4 12 }
  brkStart := EXEC_BRK_VIRT_ADDR_BASE
  brkEnd := EXEC_BRK_VIRT_ADDR_BASE
  nextMmap := EXEC_ELF_VIRT_ADDR_BASE
  asked := 0
  returned := []
  mapFailed := false

theorem smallMemory_owns : smallMemory.Owns smallHost.cBit 4 ∅ (firstPages.owner smallMemory.allocator.free) := by
  apply firstPages.owns smallHost.cBit noTables rfl rfl (by decide)
  simp only [BootTables.list, List.mem_cons, List.not_mem_nil, or_false]
  rintro table (rfl | rfl | rfl | rfl) <;> decide

def userFlags : PageTableFlags := { present := true, writable := true, userAccessible := true }

def smallRequest (mapTo : VirtAddr) (size : Nat) (memory : Memory) : Except (Stop AllocateError) Unit × Memory :=
  allocateAndMapMemory smallHost userFlags userFlags 3 mapTo size memory

def page1 : VirtAddr := ⟨0x1000, .inl (by decide)⟩

theorem smallRequest_eq {mapTo : VirtAddr} {size : Nat} {memory : Memory} {result : Except (Stop AllocateError) Unit}
    (h : (smallRequest mapTo size memory).1 = result) :
    allocateAndMapMemory smallHost userFlags userFlags 3 mapTo size memory =
      (result, (smallRequest mapTo size memory).2) := Prod.ext h rfl

theorem allocateAndMapMemory_maps_page :
    ∃ n, (smallRequest page1 0x1000 smallMemory).2.tables.MapsTo smallHost.cBit userFlags page1 n ∧
      Fresh smallMemory (smallRequest page1 0x1000 smallMemory).2 n ∧
      (smallRequest page1 0x1000 smallMemory).2.Zero n 1 := by
  have hrun : (smallRequest page1 0x1000 smallMemory).1 = .ok () := by decide +kernel
  have hspans : page1.Spans 0x1000 := .inl (by decide)
  exact (allocateAndMapMemory_maps smallMemory_owns rfl rfl hspans (smallRequest_eq hrun)).1 page1
    ⟨by decide, by decide⟩

end Enarx.Kvm
