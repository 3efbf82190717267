import Enarx.Kvm.Boot
import Enarx.Kvm.Smash

/-!
# How far one call of `smash` goes

`smash` is meant to leave an address in a page of 4 KiB. It goes one level down, and
takes the C-bit of the page for that of the pointer.
-/
namespace Enarx.Kvm

open Shim PageTables

namespace PageTables

variable {c : CBit} {tables : PageTables} {addr : VirtAddr}

theorem Linked.translate_isSome (h : tables.Linked c) (addr : VirtAddr) :
    (tables.translate c addr).isSome := by
  have hroot : tables.tableAt c [] = some tables.level4 := rfl
  have h4 := h.entries addr.p4Index (by decide) hroot
  rw [translate]
  rcases h4.cases (by decide) with habsent | ⟨hpresent, hhuge⟩ | ⟨p3, h4⟩
  · simp [nextTable_of_absent habsent]
  · exact absurd (h4.level4 rfl hpresent) (by rw [hhuge]; decide)
  have hp3 := (tableAt_snoc hroot addr.p4Index).trans h4
  rcases (h.entries addr.p3Index (by simp) hp3).cases (by simp) with habsent | ⟨hpresent, hhuge⟩ | ⟨p2, h3⟩
  · simp [nextTable_of_follow h4, nextTable_of_absent habsent]
  · simp [nextTable_of_follow h4, nextTable_of_huge hpresent hhuge]
  have hp2 := (tableAt_snoc hp3 addr.p3Index).trans h3
  rcases (h.entries addr.p2Index (by simp) hp2).cases (by simp) with habsent | ⟨hpresent, hhuge⟩ | ⟨p1, h2⟩
  · simp [nextTable_of_follow h4, nextTable_of_follow h3, nextTable_of_absent habsent]
  · simp [nextTable_of_follow h4, nextTable_of_follow h3, nextTable_of_huge hpresent hhuge]
  · simp only [nextTable_of_follow h4, nextTable_of_follow h3, nextTable_of_follow h2, Option.bind_eq_bind,
      Option.bind_some]
    split
    · rfl
    · split <;> rfl

namespace Large

variable {path : List (Fin 512)} {table new : VirtAddr} {index : Fin 512}
  (hs : Large c tables path table index new)
include hs

theorem dvd_pages (j : Fin 512) : pageSize (path.length + 1) ∣ (hs.pages j).addr.raw := by
  have hdvd := hs.dvd
  rw [pageSize_succ hs.le_two] at hdvd
  exact Nat.dvd_add (Nat.dvd_trans (Nat.dvd_mul_left _ _) hdvd) (Nat.dvd_mul_left _ _)

theorem linked (hcarries : (tables.entry table index).addr.raw &&& c.mask = c.mask) (h : tables.Linked c) :
    hs.after.Linked c := by
  refine (hs.grafts hcarries).made h ⟨fun _ _ => ⟨new, hs.follow_pointer hcarries⟩, fun _ _ => rfl, ?_⟩
    fun j => ⟨?_, fun hdepth => absurd hdepth (Nat.succ_ne_zero _), fun _ _ _ _ => hs.dvd_pages j⟩
  · intro _ _ _ hhuge
    cases hhuge
  · intro hdepth hpointer
    have hhuge := hs.pages_huge (by have := hs.one_le; omega) j
    rw [hpointer.2] at hhuge
    cases hhuge

theorem nextTable_pointer (hbare : (tables.entry table index).addr.raw &&& c.mask ≠ c.mask) :
    nextTable c hs.pointer = none := by
  have hzero := (c.and_mask_cases (tables.entry table index).addr.raw).resolve_right hbare
  have haddr : hs.pointer.addr.raw = new.raw - SHIM_VIRT_OFFSET :=
    (congrArg (new.raw - SHIM_VIRT_OFFSET + ·) hzero).trans (Nat.add_zero _)
  have hmask : 0 ≠ c.mask := hzero ▸ hbare
  have hpointer : hs.pointer.IsPointer := ⟨hs.present, rfl⟩
  rw [nextTable, PageTableEntry.frame_pointer hpointer]
  simp only [frameToPointer, haddr, c.and_mask new.sub_offset_lt, if_neg hmask, Option.map_none]

end Large

end PageTables

/-- The address is in a page of 4 KiB, and nothing else has changed for the processor or for later walks. -/
structure SplitDown (machine : Machine) (addr : VirtAddr) (before after : State) : Prop where
  small : ∃ start offset flags,
    after.tables.translate machine.cBit addr = some (.mapped (.size4KiB start) offset flags)
  access_eq : ∀ other, after.tables.access machine.cBit other = before.tables.access machine.cBit other
  pointers : after.tables.PointersEncrypted machine.cBit
  walks : ∀ other, (after.tables.translate machine.cBit other).isSome
  again : smash machine addr after = (.ok (), after)

/-- The pages that `smash` splits as it should: those of 4 KiB, and those of 2 MiB with the C-bit. -/
def MappedFrame.Splittable (c : CBit) : MappedFrame → Prop
  | .size4KiB _ => True
  | .size2MiB start => start &&& c.mask = c.mask
  | .size1GiB _ => False

theorem SplitDown.of_linked {machine : Machine} {addr : VirtAddr} {before after : State}
    (h : after.tables.Linked machine.cBit)
    (haccess : ∀ other, after.tables.access machine.cBit other = before.tables.access machine.cBit other)
    (hsmall : ∃ start offset flags,
      after.tables.translate machine.cBit addr = some (.mapped (.size4KiB start) offset flags)) :
    SplitDown machine addr before after where
  small := hsmall
  access_eq := haccess
  pointers := h.pointersEncrypted
  walks := h.translate_isSome
  again := by
    obtain ⟨start, offset, flags, htranslate⟩ := hsmall
    exact smash_size4KiB htranslate

section

variable {machine : Machine} {state after : State} {addr : VirtAddr}

def Machine.Fresh (machine : Machine) (state : State) : Prop :=
  ∀ new, machine.tryAlloc state.taken = some new → new.InWindow ∧ SIZE_4_KIB ∣ new.raw ∧
    ∀ path, path.length ≤ 3 → state.tables.tableAt machine.cBit path ≠ some new

/-- `smash` keeps its promise for these pages and for no other ones. -/
theorem smash_splits_down_iff (h : state.tables.Linked machine.cBit) (hfresh : machine.Fresh state)
    {frame : MappedFrame} {offset : Nat} {flags : PageTableFlags}
    (hmapped : state.tables.translate machine.cBit addr = some (.mapped frame offset flags))
    (hrun : smash machine addr state = (.ok (), after)) :
    SplitDown machine addr state after ↔ frame.Splittable machine.cBit := by
  have hreaches := reaches_of_translate hmapped
  cases frame with
  | size4KiB start =>
    cases (smash_size4KiB hmapped).symm.trans hrun
    exact iff_of_true (.of_linked h (fun _ => rfl) ⟨start, offset, flags, hmapped⟩) trivial
  | size2MiB start =>
    obtain ⟨p2, hp2, hnext, rfl⟩ := hreaches
    obtain ⟨hpresent, hhuge⟩ := of_nextTable_huge hnext
    obtain ⟨new, hnew⟩ := exists_tryAlloc hmapped (by rintro _ ⟨⟩) hrun
    obtain ⟨hwindow, haligned, hnone⟩ := hfresh new hnew
    have hdvd := (h.entries addr.p2Index (by simp) hp2).large (by simp) (by simp) hpresent hhuge
    have hs : Large machine.cBit state.tables [addr.p4Index, addr.p3Index] p2 addr.p2Index new :=
      ⟨by simp, by simp, hp2, hpresent, hhuge, hdvd, hwindow, haligned, hnone⟩
    cases (smash_size2MiB hmapped hnew hs).symm.trans hrun
    have hstart : frameStart (state.tables.entry p2 addr.p2Index).addr BYTES_2_MIB =
        (state.tables.entry p2 addr.p2Index).addr.raw := by
      rw [← pageSize_two]
      exact Nat.div_mul_cancel hdvd
    have hpath := hs.tableAt_path h.tree
    rw [MappedFrame.Splittable, hstart]
    by_cases hcarries : (state.tables.entry p2 addr.p2Index).addr.raw &&& machine.cBit.mask = machine.cBit.mask
    · refine iff_of_true (.of_linked (hs.linked hcarries h) (hs.access_after hcarries h.tree) ?_) hcarries
      have hfollow : (hs.after.entry p2 addr.p2Index).follow machine.cBit = some new := by
        rw [hs.entry_path]
        exact hs.follow_pointer hcarries
      apply translate_of_p1 hpath hfollow
      rw [PageTables.Large.after, (hs.grafts hcarries).entry_new]
      exact hs.pages_present _
    · refine iff_of_false ?_ hcarries
      rintro ⟨⟨start, offset, flags, hsmall⟩, -⟩
      have hpanic := (translate_of_p2 hpath).1 (by rw [hs.entry_path]; exact hs.nextTable_pointer hcarries)
      cases hpanic.symm.trans hsmall
  | size1GiB start =>
    obtain ⟨p3, hp3, hnext, rfl⟩ := hreaches
    obtain ⟨hpresent, hhuge⟩ := of_nextTable_huge hnext
    obtain ⟨new, hnew⟩ := exists_tryAlloc hmapped (by rintro _ ⟨⟩) hrun
    obtain ⟨hwindow, haligned, hnone⟩ := hfresh new hnew
    have hdvd := (h.entries addr.p3Index (by simp) hp3).large (by simp) (by simp) hpresent hhuge
    have hs : Large machine.cBit state.tables [addr.p4Index] p3 addr.p3Index new :=
      ⟨by simp, by simp, hp3, hpresent, hhuge, hdvd, hwindow, haligned, hnone⟩
    cases (smash_size1GiB hmapped hnew hs).symm.trans hrun
    have hpath := hs.tableAt_path h.tree
    refine iff_of_false ?_ id
    rintro ⟨⟨start, offset, flags, hsmall⟩, -⟩
    by_cases hcarries : (state.tables.entry p3 addr.p3Index).addr.raw &&& machine.cBit.mask = machine.cBit.mask
    · have hp2 : hs.after.tableAt machine.cBit [addr.p4Index, addr.p3Index] = some new := by
        refine (tableAt_snoc hpath addr.p3Index).trans ?_
        rw [hs.entry_path]
        exact hs.follow_pointer hcarries
      have hlarge : nextTable machine.cBit (hs.after.entry new addr.p2Index) = some .mappedToHugePage := by
        rw [PageTables.Large.after, (hs.grafts hcarries).entry_new]
        exact nextTable_of_huge (hs.pages_present _) (hs.pages_huge rfl _)
      obtain ⟨_, _, _, htranslate⟩ := (translate_of_p2 hp2).2 hlarge
      cases htranslate.symm.trans hsmall
    · have hpanic := translate_of_p3 hpath (by rw [hs.entry_path]; exact hs.nextTable_pointer hcarries)
      cases hpanic.symm.trans hsmall

end

def bootState : State := firstPages.state nextPages.cBit noTables

def firstGiB : VirtAddr := windowPage 0 windowPage_zero_lt

def first2MiB : VirtAddr := windowPage 786432 (by decide)

def second2MiB : VirtAddr := windowPage 786944 (by decide)

theorem smash_splits_down_boot :
    SplitDown nextPages first2MiB bootState (smash nextPages first2MiB bootState).2 := by
  have hlinked : bootState.tables.Linked nextPages.cBit := (firstPages.tidy nextPages.cBit noTables).linked
  have hfresh : nextPages.Fresh bootState := by
    intro new hnew
    obtain ⟨page, hpage, hwindow, haligned, hnot⟩ := nextPages_works.alloc 0 (by decide)
    cases hpage.symm.trans hnew
    refine ⟨hwindow, haligned, fun path hpath htable => ?_⟩
    rcases (firstPages.inv noTables nextPages).owned hpath htable with hboot | ⟨n, hn, -⟩
    · exact hnot hboot
    · exact absurd hn (Nat.not_lt_zero n)
  have hmapped : bootState.tables.translate nextPages.cBit first2MiB =
      some (.mapped (.size2MiB (0xC0000000 + 2 ^ 51)) 0 HUGE_PAGE_TABLE_FLAGS) := by decide +kernel
  have hrun : (smash nextPages first2MiB bootState).1 = .ok () := by decide +kernel
  have hresult : smash nextPages first2MiB bootState = (.ok (), (smash nextPages first2MiB bootState).2) := by
    rw [← hrun, Prod.eta]
  apply (smash_splits_down_iff hlinked hfresh hmapped hresult).mpr
  change (0xC0000000 + 2 ^ 51) &&& 2 ^ 51 = 2 ^ 51
  decide +kernel

/-- A page of 1 GiB becomes one of 2 MiB. After a page of 2 MiB has lost its C-bit, splitting it leaves an
address whose walk panics. -/
theorem smash_stops_short : ((smash nextPages firstGiB bootState).1 = .ok () ∧
      (smash nextPages firstGiB bootState).2.tables.translate nextPages.cBit firstGiB =
        some (.mapped (.size2MiB (2 ^ 51)) 0 HUGE_PAGE_TABLE_FLAGS)) ∧
    (clearCBitAddressRange nextPages 2 first2MiB second2MiB bootState).1 = .ok () ∧
    (smash nextPages first2MiB (clearCBitAddressRange nextPages 2 first2MiB second2MiB bootState).2).1 = .ok () ∧
    (smash nextPages first2MiB
      (clearCBitAddressRange nextPages 2 first2MiB second2MiB bootState).2).2.tables.translate
        nextPages.cBit first2MiB = none := by
  decide +kernel

end Enarx.Kvm
