import Enarx.Backend.Malformed

/-!
# The image of a keep

What an accepted pair of files puts into memory: the parts of the files that the
headers name, at the addresses that they name, zeros around them, and nothing
twice.
-/
namespace Enarx.Backend

def Passed.byteAt (entry : Passed) (addr : Nat) : Option Byte :=
  if entry.segment.range.start.toNat ≤ addr then
    entry.pages[addr - entry.segment.range.start.toNat]?
  else none

theorem Passed.byteAt_of_le {segment : Segment} {addr : Nat} (pages : List Byte)
    (h : segment.range.start.toNat ≤ addr) :
    (Passed.mk segment pages).byteAt addr = pages[addr - segment.range.start.toNat]? := if_pos h

def Range.span (range : Range) : Span := ⟨range.start.toNat, range.stop.toNat - range.start.toNat⟩

def ProgramHeader.NoOverflow (phdr : ProgramHeader) (relocate : Word) : Prop :=
  phdr.pVaddr.toNat + phdr.pMemsz.toNat + relocate.toNat + 4095 < 2 ^ 64

instance (phdr : ProgramHeader) (relocate : Word) : Decidable (phdr.NoOverflow relocate) := by
  unfold ProgramHeader.NoOverflow; infer_instance

structure ProgramHeader.Placed (phdr : ProgramHeader) (file : List Byte) (relocate : Word)
    (entry : Passed) : Prop where
  start : entry.segment.range.start.toNat = (phdr.pVaddr.toNat + relocate.toNat) / 4096 * 4096
  stop : entry.segment.range.stop.toNat =
    (phdr.pVaddr.toNat + relocate.toNat + phdr.pMemsz.toNat + 4095) / 4096 * 4096
  pages : entry.pages.length = entry.segment.range.span.len
  contents : ∀ i < phdr.pFilesz.toNat, ∃ byte, file[phdr.pOffset.toNat + i]? = some byte ∧
    entry.byteAt (phdr.pVaddr.toNat + relocate.toNat + i) = some byte
  zeros : ∀ addr, entry.segment.range.span.Contains addr →
    ¬ Span.Contains ⟨phdr.pVaddr.toNat + relocate.toNat, phdr.pFilesz.toNat⟩ addr →
      entry.byteAt addr = some 0

structure IsImage (shim exec : List Byte) (sbin ebin : Binary) (slot : ProgramHeader)
    (passed : List Passed) : Prop where
  segments : ∃ ssegs esegs, passed = ssegs ++ esegs ∧
    List.Forall₂ (fun phdr => phdr.Placed shim 0) (sbin.headers PT_LOAD) ssegs ∧
      List.Forall₂ (fun phdr => phdr.Placed exec slot.pVaddr) (ebin.headers PT_LOAD) esegs
  disjoint : passed.Pairwise fun left right =>
    left.segment.range.span.Disjoint right.segment.range.span
  inSlot : ∀ phdr ∈ ebin.headers PT_LOAD,
    Span.Within ⟨phdr.pVaddr.toNat + slot.pVaddr.toNat, phdr.pMemsz.toNat⟩
      ⟨slot.pVaddr.toNat, slot.pMemsz.toNat⟩

structure NoOverflow (sbin ebin : Binary) (slot : ProgramHeader) : Prop where
  shim : ∀ phdr ∈ sbin.headers PT_LOAD, phdr.NoOverflow 0
  exec : ∀ phdr ∈ ebin.headers PT_LOAD, phdr.NoOverflow slot.pVaddr
  slot : slot.pVaddr.toNat + slot.pMemsz.toNat < 2 ^ 64

namespace ProgramHeader

variable {phdr : ProgramHeader} {relocate : Word}

theorem NoOverflow.stopAt_eq (h : phdr.NoOverflow relocate) :
    phdr.stopAt relocate = phdr.pVaddr.toNat + phdr.pMemsz.toNat + relocate.toNat := by
  unfold NoOverflow at h
  unfold stopAt
  omega

theorem NoOverflow.start (h : phdr.NoOverflow relocate) : (phdr.pageRange relocate).start.toNat =
    (phdr.pVaddr.toNat + relocate.toNat) / 4096 * 4096 := by
  have hstop := h.stopAt_eq
  unfold NoOverflow at h
  exact pageRange_start (by omega)

theorem NoOverflow.stop (h : phdr.NoOverflow relocate) : (phdr.pageRange relocate).stop.toNat =
    (phdr.pVaddr.toNat + relocate.toNat + phdr.pMemsz.toNat + 4095) / 4096 * 4096 := by
  have hstop := h.stopAt_eq
  unfold NoOverflow at h
  rw [pageRange_stop (by omega), if_pos (by omega), hstop, Nat.add_right_comm phdr.pVaddr.toNat]

theorem NoOverflow.forward (h : phdr.NoOverflow relocate) (bytes : List Byte) :
    (phdr.segment relocate bytes).Forward := by
  have hstart := h.start
  have hstop := h.stop
  rw [Segment.Forward, BitVec.le_def]
  simp only [segment]
  omega

end ProgramHeader

namespace Segment

variable {segment : Segment}

theorem Forward.toNat_size (h : segment.Forward) :
    segment.size.toNat = segment.range.span.len := BitVec.toNat_sub_of_le h

theorem Fits.length_image (h : segment.Fits) : segment.image.length = segment.size.toNat := by
  unfold Fits at h
  simp only [image, List.length_append, List.length_replicate]
  omega

theorem image_inside {i : Nat} (h : i < segment.bytes.length) :
    segment.image[segment.skipb + i]? = segment.bytes[i]? := by
  rw [image, List.append_assoc, List.getElem?_append_right (by simp), List.length_replicate,
    Nat.add_sub_cancel_left, List.getElem?_append_left h]

theorem image_outside {i : Nat} (hsize : i < segment.image.length)
    (h : i < segment.skipb ∨ segment.skipb + segment.bytes.length ≤ i) : segment.image[i]? = some 0 := by
  rcases h with hbefore | hafter
  · rw [image, List.append_assoc, List.getElem?_append_left (by simpa using hbefore),
      List.getElem?_replicate_of_lt hbefore]
  · have hlength : (List.replicate segment.skipb 0 ++ segment.bytes).length ≤ i := by
      simpa using hafter
    rw [image, List.getElem?_append_right hlength, List.getElem?_replicate_of_lt]
    simp only [image, List.length_append, List.length_replicate] at hsize ⊢
    omega

end Segment

theorem ProgramHeader.placed_of_fits {phdr : ProgramHeader} {file : List Byte} {relocate : Word}
    (haligned : relocate % PAGE_SIZE = 0) (hover : phdr.NoOverflow relocate)
    (hfile : phdr.InFile file) (hfits : (phdr.segment relocate (phdr.contents file)).Fits) :
    phdr.Placed file relocate ⟨phdr.segment relocate (phdr.contents file),
        (phdr.segment relocate (phdr.contents file)).image⟩ := by
  have hlength := hfits.length_image.trans (hover.forward (phdr.contents file)).toNat_size
  have hstart : (phdr.segment relocate (phdr.contents file)).range.start.toNat +
      (phdr.segment relocate (phdr.contents file)).skipb = phdr.pVaddr.toNat + relocate.toNat := by
    have hmod : relocate.toNat % 4096 = 0 := congrArg BitVec.toNat haligned
    have hskip : (phdr.pVaddr % PAGE_SIZE).toNat = phdr.pVaddr.toNat % 4096 := rfl
    simp only [segment, hover.start, hskip]
    omega
  have hbytes : (phdr.segment relocate (phdr.contents file)).bytes.length = phdr.pFilesz.toNat :=
    hfile.length_contents
  generalize hsegment : phdr.segment relocate (phdr.contents file) = segment at *
  have hrange : segment.range = phdr.pageRange relocate := by rw [← hsegment]; rfl
  constructor
  case start => rw [hrange, hover.start]
  case stop => rw [hrange, hover.stop]
  case pages => exact hlength
  case contents =>
    intro i hi
    have hindex : phdr.pVaddr.toNat + relocate.toNat + i - segment.range.start.toNat =
        segment.skipb + i := by omega
    have hcontents : segment.bytes[i]? = file[phdr.pOffset.toNat + i]? := by
      rw [← hsegment]
      simp only [ProgramHeader.segment, ProgramHeader.contents]
      rw [List.getElem?_take_of_lt hi, List.getElem?_drop]
    refine ⟨segment.bytes[i], ?_, ?_⟩
    · rw [← hcontents, List.getElem?_eq_getElem]
    · rw [Passed.byteAt_of_le segment.image (by omega), hindex, Segment.image_inside (hbytes ▸ hi),
        List.getElem?_eq_getElem]
  case zeros =>
    intro addr hin hout
    have hlow : segment.range.start.toNat ≤ addr := hin.1
    have hhigh : addr < segment.range.start.toNat + segment.range.span.len := hin.2
    simp only [Span.Contains, not_and, not_lt] at hout
    rw [Passed.byteAt_of_le segment.image hlow]
    apply Segment.image_outside
    · rw [hlength]
      omega
    · rw [hbytes]
      omega

variable {passed final : List Passed} {segments : List Segment}

theorem orErr_ok {result : Except String α} {value : α}
    (h : orErr result passed = (.ok value, final)) : result = .ok value ∧ final = passed := by
  cases result <;> cases h
  exact ⟨rfl, rfl⟩

theorem orPanic_ok {result : Option α} {value : α}
    (h : orPanic result passed = (.ok value, final)) : result = some value ∧ final = passed := by
  cases result <;> cases h
  exact ⟨rfl, rfl⟩

variable {κ φ τ ρ : Type}

theorem loadSegments_ok {env : LoaderEnv} {mapper : Mapper κ φ τ ρ} {loader next : τ}
   
    (h : loadSegments env mapper loader segments passed = (.ok next, final)) :
    (∀ segment ∈ segments, segment.Fits) ∧
      final = passed ++ segments.map fun segment => ⟨segment, segment.image⟩ := by
  induction segments generalizing loader passed with
  | nil =>
    cases h
    simp
  | cons segment rest ih =>
    obtain ⟨_, _, hmmap, hcopied⟩ := Exec.bind_ok h
    obtain ⟨-, rfl⟩ := orErr_ok hmmap
    obtain ⟨pages, _, hcopy, hpushed⟩ := Exec.bind_ok hcopied
    obtain ⟨hpages, rfl⟩ := orPanic_ok hcopy
    obtain ⟨_, _, hpush, hmapped⟩ := Exec.bind_ok hpushed
    cases hpush
    obtain ⟨_, _, hmap, hrest⟩ := Exec.bind_ok hmapped
    obtain ⟨-, rfl⟩ := orErr_ok hmap
    obtain ⟨hfits, rfl⟩ := ih hrest
    rw [segment.copyAt_eq, Option.ite_none_right_eq_some, Option.some.injEq] at hpages
    obtain ⟨hsegment, rfl⟩ := hpages
    exact ⟨List.forall_mem_cons.mpr ⟨hsegment, hfits⟩, by simp⟩

theorem pairwise_of_overlap_eq_false (h : overlap segments = false)
    (hforward : ∀ segment ∈ segments, segment.Forward) :
    segments.Pairwise fun left right => left.range.stop ≤ right.range.start := by
  induction segments with
  | nil => exact .nil
  | cons first rest ih =>
    cases rest with
    | nil => exact List.pairwise_singleton _ _
    | cons second rest =>
      simp only [overlap, Bool.or_eq_false_iff, decide_eq_false_iff_not, gt_iff_lt,
        BitVec.not_lt] at h
      have hrest := ih h.2 fun segment hmem => hforward segment (.tail _ hmem)
      refine List.pairwise_cons.mpr ⟨fun segment hmem => ?_, hrest⟩
      rcases List.mem_cons.mp hmem with rfl | hmem
      · exact h.1
      · have hsecond := hforward second (.tail _ (.head _))
        have hlater := (List.pairwise_cons.mp hrest).1 segment hmem
        exact BitVec.le_trans h.1 (BitVec.le_trans hsecond hlater)

theorem span_disjoint_of_le {left right : Range} (hleft : left.start ≤ left.stop)
    (h : left.stop ≤ right.start) : left.span.Disjoint right.span := by
  apply Span.disjoint_of_le
  rw [BitVec.le_def] at hleft h
  simp only [Range.span]
  omega

theorem LoaderEnv.disjoint_of_not_overlap (env : LoaderEnv)
    (h : overlap (env.sortUnstableByStart segments) = false)
    (hforward : ∀ segment ∈ segments, segment.Forward) :
    segments.Pairwise fun left right => left.range.span.Disjoint right.range.span := by
  have hperm := env.sort_perm segments
  have hsorted := pairwise_of_overlap_eq_false h fun segment hmem =>
    hforward segment (hperm.mem_iff.mp hmem)
  refine (hperm.pairwise_iff Span.Disjoint.symm).mp ?_
  refine hsorted.imp_of_mem fun hleft _ hle => ?_
  exact span_disjoint_of_le (hforward _ (hperm.mem_iff.mp hleft)) hle

theorem load_ok {env : LoaderEnv} {mapper : Mapper κ φ τ ρ} {shim exec : List Byte} {output : ρ}
    (h : load env mapper shim exec [] = (.ok output, passed)) :
    ∃ sbin ebin slot, Checked env shim exec sbin ebin slot ∧
      (slot.pVaddr % PAGE_SIZE = 0 ∧ sbin.Complete ∧ ebin.Complete) ∧
      overlap (env.sortUnstableByStart (sbin.layout 0 ++ ebin.layout slot.pVaddr)) = false ∧
      (∀ segment ∈ sbin.layout 0 ++ ebin.layout slot.pVaddr, segment.Fits) ∧
      passed = (sbin.layout 0 ++ ebin.layout slot.pVaddr).map fun segment => ⟨segment, segment.image⟩ := by
  obtain ⟨ready, _, hprepare, hsegments⟩ := Exec.bind_ok h
  obtain ⟨hready, rfl⟩ := orErr_ok hprepare
  obtain ⟨ssegs, _, hshim, hexec⟩ := Exec.bind_ok hsegments
  obtain ⟨hssegs, rfl⟩ := orPanic_ok hshim
  obtain ⟨esegs, _, hexec, hload⟩ := Exec.bind_ok hexec
  obtain ⟨hesegs, rfl⟩ := orPanic_ok hexec
  obtain ⟨slot, config, hchecked, hrange, -, -⟩ := prepare_eq_ok_iff.mp hready
  have hstart : ready.slot.start = slot.pVaddr := congrArg Range.start hrange
  rw [hstart] at hesegs
  obtain ⟨⟨-, hsbin⟩, rfl⟩ := (Binary.segments_eq_some_iff hchecked.shim.length_lt _ _).mp hssegs
  obtain ⟨⟨hslot, hebin⟩, rfl⟩ := (Binary.segments_eq_some_iff hchecked.exec.length_lt _ _).mp hesegs
  refine ⟨ready.sbin, ready.ebin, slot, hchecked, ⟨hslot, hsbin, hebin⟩, ?_⟩
  cases hoverlap : overlap (env.sortUnstableByStart (ready.sbin.layout 0 ++ ready.ebin.layout slot.pVaddr)) with
  | true =>
    rw [hoverlap] at hload
    cases hload
  | false =>
    rw [hoverlap] at hload
    obtain ⟨loader, _, hloop, hfinish⟩ := Exec.bind_ok hload
    obtain ⟨-, rfl⟩ := orErr_ok hfinish
    obtain ⟨hfits, rfl⟩ := loadSegments_ok hloop
    exact ⟨rfl, hfits, rfl⟩

theorem Binary.layout_forward {binary : Binary} {relocate : Word}
    (h : ∀ phdr ∈ binary.headers PT_LOAD, phdr.NoOverflow relocate) :
    ∀ segment ∈ binary.layout relocate, segment.Forward := by
  rw [Binary.layout, Binary.placements, List.map_map]
  refine List.forall_mem_map.mpr fun phdr hphdr => ?_
  exact (h phdr hphdr).forward _

theorem Binary.layout_placed {binary : Binary} {relocate : Word}
    (haligned : relocate % PAGE_SIZE = 0) (hcomplete : binary.Complete)
    (hover : ∀ phdr ∈ binary.headers PT_LOAD, phdr.NoOverflow relocate)
    (hfits : ∀ segment ∈ binary.layout relocate, segment.Fits) :
    List.Forall₂ (fun phdr => phdr.Placed binary.bytes relocate) (binary.headers PT_LOAD)
      ((binary.layout relocate).map fun segment => ⟨segment, segment.image⟩) := by
  rw [Binary.layout, Binary.placements, List.map_map] at hfits ⊢
  rw [List.map_map, List.forall₂_map_right_iff, List.forall₂_same]
  intro phdr hphdr
  exact ProgramHeader.placed_of_fits haligned (hover phdr hphdr) (hcomplete phdr hphdr)
    (hfits _ (List.mem_map_of_mem hphdr))

theorem within_slot {ebin : Binary} {slot phdr : ProgramHeader}
    (hslot : slot.pVaddr.toNat + slot.pMemsz.toNat < 2 ^ 64)
    (hfits : ebin.range.stop ≤ slot.vmRange.stop - slot.vmRange.start)
    (hover : phdr.NoOverflow slot.pVaddr) (hmem : phdr ∈ ebin.headers PT_LOAD) :
    Span.Within ⟨phdr.pVaddr.toNat + slot.pVaddr.toNat, phdr.pMemsz.toNat⟩
      ⟨slot.pVaddr.toNat, slot.pMemsz.toNat⟩ := by
  have hle := BitVec.le_def.mp (BitVec.le_trans (Binary.vmRange_stop_le hmem) hfits)
  simp only [ProgramHeader.vmRange] at hle
  have hslotStop := toNat_saturatingAdd slot.pVaddr slot.pMemsz
  rw [BitVec.toNat_sub_of_le (BitVec.le_def.mpr (by omega)), hslotStop, toNat_saturatingAdd] at hle
  unfold ProgramHeader.NoOverflow at hover
  apply Span.within_of_le
  · exact Nat.le_add_left _ _
  · simp only
    omega

/-- The keep that is loaded is the image of the two files. -/
theorem load_image {env : LoaderEnv} {mapper : Mapper κ φ τ ρ} {shim exec : List Byte} {output : ρ}
    {passed : List Passed} (h : load env mapper shim exec [] = (.ok output, passed)) :
    ∃ sbin ebin slot, Binary.new env shim = .ok sbin ∧ Binary.new env exec = .ok ebin ∧
      (sbin.headers EXEC).head? = some slot ∧
        (NoOverflow sbin ebin slot → IsImage shim exec sbin ebin slot passed) := by
  obtain ⟨sbin, ebin, slot, hchecked, ⟨haligned, hsbin, hebin⟩, hoverlap, hfits, rfl⟩ := load_ok h
  refine ⟨sbin, ebin, slot, Binary.new_eq_ok_iff.mpr hchecked.shim, Binary.new_eq_ok_iff.mpr hchecked.exec,
    hchecked.head, fun hover => ?_⟩
  rw [List.forall_mem_append] at hfits
  constructor
  case segments =>
    refine ⟨_, _, List.map_append, ?_, ?_⟩
    · rw [← hchecked.shim.bytes_eq]
      exact Binary.layout_placed rfl hsbin hover.shim hfits.1
    · rw [← hchecked.exec.bytes_eq]
      exact Binary.layout_placed haligned hebin hover.exec hfits.2
  case disjoint =>
    rw [List.pairwise_map]
    apply env.disjoint_of_not_overlap hoverlap
    exact List.forall_mem_append.mpr
      ⟨Binary.layout_forward hover.shim, Binary.layout_forward hover.exec⟩
  case inSlot => exact fun phdr hphdr => within_slot hover.slot hchecked.stop (hover.exec phdr hphdr) hphdr

def sampleData : ProgramHeader := ⟨PT_LOAD, 6, 0, 0x1234, 2, 0x1000⟩

theorem load_image_sample : ∃ sbin ebin slot, NoOverflow sbin ebin slot ∧
      IsImage [0] [1, 2] sbin ebin slot (loadSample 0x1000 sampleData).2 := by
  have hok : (loadSample 0x1000 sampleData).1 = .ok () := by decide +kernel
  have hload : loadSample 0x1000 sampleData = (.ok (), (loadSample 0x1000 sampleData).2) := by
    rw [← hok]
  obtain ⟨sbin, ebin, slot, hshim, hexec, hslot, himage⟩ :=
    load_image (show load _ takingMapper [0] [1, 2] [] = _ from hload)
  have hsbin : sbin = ⟨[0], sampleShim 0x1000⟩ := Except.ok.inj (hshim.symm.trans rfl)
  have hebin : ebin = ⟨[1, 2], sampleExec sampleData⟩ := Except.ok.inj (hexec.symm.trans rfl)
  subst hsbin hebin
  cases hslot
  exact ⟨_, _, _, ⟨by decide, by decide, by decide⟩, himage ⟨by decide, by decide, by decide⟩⟩

end Enarx.Backend
