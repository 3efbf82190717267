import Enarx.Sallyport.Call

/-!
# Items laid out in the block

The items of a staged call, nested calls included, lie back to back from the
start of the block: header, payload, data section, padding. Committing the call
writes exactly their headers, payloads and input segments.
-/
namespace Enarx.Sallyport

open Libc

variable {before after : Alloc} {call : AllocCall}

theorem allocate_ok {T : Layout} {dataRef : BlockRef T 1}
    (h : allocate T before = (.ok dataRef, after)) (haligned : T.align ∣ before.ptr) :
    dataRef.ptr = before.ptr ∧ after.ptr = before.ptr + T.size ∧
      after.offset = before.offset + T.size ∧ after.ptr + after.len = before.ptr + before.len := by
  obtain ⟨region, middle, hregion, h⟩ := Exec.bind_ok h
  cases h
  obtain ⟨hptr, hoffset, hafter, hoff, hlen⟩ := allocateLayout_ok hregion
  rw [alignOffset_eq_zero_of_dvd haligned] at hptr hoffset
  refine ⟨hptr, ?_, ?_, hlen⟩
  · rw [hafter, hptr]; rfl
  · rw [hoff, hoffset]; rfl

theorem Describes.stage_ok {spec : CallSpec} {segs : α → List Seg}
    {stage : StageM (List Word × α)} (h : Describes spec segs stage)
    {argv : List Word} {staged : α} (hstage : stage before = (.ok (argv, staged), after)) :
    argv = spec.args.map (Arg.encode (segs staged)) ∧ Allocs before (segs staged) after ∧
      List.Forall₂ Seg.Holds (segs staged) spec.buffers := by
  have hspec : spec.stage before = (.ok (argv, segs staged), after) := by
    rw [← h]
    exact Exec.map_ok _ hstage
  obtain ⟨found, middle, hbuffers, hpure⟩ := Exec.bind_ok hspec
  cases hpure
  obtain ⟨hallocs, hholds⟩ := stageBuffers_ok hbuffers
  exact ⟨rfl, hallocs, hholds⟩

def padded (size : Nat) : Nat := size + (8 - size % 8) % 8

def sectionSize (segs : List Seg) : Nat :=
  (segs.getLast?.map fun seg => seg.offset + seg.size).getD 0

theorem Allocs.offset_eq {segs : List Seg} (h : Allocs before segs after) : after.offset =
      (segs.getLast?.map fun seg => seg.offset + seg.size).getD before.offset := by
  induction h with
  | nil => rfl
  | cons head tail ih =>
    rw [ih]
    cases tail with
    | nil => exact head.after_offset
    | cons => simp [List.getLast?_cons]

structure Leaf where
  call : AllocCall
  staged : StagedCall call

namespace Leaf

def segs (leaf : Leaf) : List Seg := leaf.call.segs leaf.staged.staged.staged

def dataStart (leaf : Leaf) (start : Nat) : Nat := start + 16 + 8 * leaf.call.kind.usizeCount

def finish (leaf : Leaf) (start : Nat) : Nat := start + 16 + leaf.staged.size

structure Laid (leaf : Leaf) (start : Nat) : Prop where
  header_ptr : leaf.staged.headerRef.ptr = start
  num_ptr : leaf.staged.staged.numRef.ptr = start + 16
  argv_ptr : leaf.staged.staged.argvRef.ptr = start + 24
  ret_ptr : leaf.staged.staged.retRef.ptr = start + 24 + 8 * leaf.call.kind.argc
  argv_eq : leaf.staged.staged.argv =
    argvInto leaf.call.kind.argc (leaf.call.spec.args.map (Arg.encode leaf.segs))
  holds : List.Forall₂ Seg.Holds leaf.segs leaf.call.spec.buffers
  size_eq : leaf.staged.size =
    8 * leaf.call.kind.usizeCount + padded (sectionSize leaf.segs)
  section_allocs : ∃ before after, Allocs before leaf.segs after ∧
    before.ptr = leaf.dataStart start ∧ before.offset = 0

end Leaf

@[simp] theorem array_usize_size (count : Nat) : (usizeLayout.array count).size = 8 * count := rfl

@[simp] theorem array_usize_align (count : Nat) : (usizeLayout.array count).align = 8 := rfl

theorem StagedAlloc.stage_ok {staged : StagedAlloc call}
    (h : StagedAlloc.stage call before = (.ok staged, after)) (haligned : 8 ∣ before.ptr) :
    staged.numRef.ptr = before.ptr ∧ staged.argvRef.ptr = before.ptr + 8 ∧
      staged.retRef.ptr = before.ptr + 8 + 8 * call.kind.argc ∧
      staged.argv = argvInto call.kind.argc
        (call.spec.args.map (Arg.encode (call.segs staged.staged))) ∧
      List.Forall₂ Seg.Holds (call.segs staged.staged) call.spec.buffers ∧
      ∃ first last, Allocs first (call.segs staged.staged) last ∧
        first.ptr = before.ptr + 8 * call.kind.usizeCount ∧ first.offset = 0 ∧
        after.ptr = last.ptr ∧ after.ptr + after.len = before.ptr + before.len ∧
        after.offset = before.offset + 8 * call.kind.usizeCount + last.offset := by
  obtain ⟨numRef, afterNum, hnum, h⟩ := Exec.bind_ok h
  obtain ⟨argvRef, afterArgv, hargv, h⟩ := Exec.bind_ok h
  obtain ⟨retRef, afterRet, hret, h⟩ := Exec.bind_ok h
  obtain ⟨⟨⟨argv, data⟩, size⟩, afterData, hdata, h⟩ := Exec.bind_ok h
  obtain ⟨last, hstage, hsize, hafter⟩ := section_ok hdata
  cases h
  obtain ⟨hargvEq, hallocs, hholds⟩ := call.stage_spec.stage_ok hstage
  obtain ⟨hnumPtr, hnumEnd, hnumOff, hnumLen⟩ := allocate_ok hnum haligned
  have hnumSize : usizeLayout.size = 8 := rfl
  obtain ⟨hargvPtr, hargvEnd, hargvOff, hargvLen⟩ := allocate_ok hargv
    (by rw [array_usize_align]; omega)
  obtain ⟨hretPtr, hretEnd, hretOff, hretLen⟩ := allocate_ok hret
    (by rw [array_usize_align]; rw [array_usize_size] at hargvEnd; omega)
  rw [array_usize_size] at hargvEnd hargvOff hretEnd hretOff
  have hbounds := hallocs.bounds
  have hcount : call.kind.usizeCount = 1 + call.kind.argc + call.kind.rets := rfl
  refine ⟨hnumPtr, hargvPtr.trans (by omega), hretPtr.trans (by omega), by rw [hargvEq], hholds,
    _, last, hallocs, ?_, rfl, ?_, ?_, ?_⟩
  · simp only
    omega
  · rw [hafter]
  · rw [hafter]
    simp only at hbounds ⊢
    omega
  · rw [hafter]
    simp only
    omega

theorem padded_mod (size : Nat) : padded size % 8 = 0 := by
  unfold padded
  omega

theorem le_padded (size : Nat) : size ≤ padded size := Nat.le_add_right _ _

theorem stagePadding_ok {padSize : Nat} {region : Region}
    (hpad : allocateLayout ⟨padSize, 1, 0, rfl⟩ before = (.ok region, after)) :
    after.ptr = before.ptr + padSize ∧ after.offset = before.offset + padSize ∧
      after.ptr + after.len = before.ptr + before.len := by
  obtain ⟨hptr, hoffset, hafter, hoff, hlen⟩ := allocateLayout_ok hpad
  have hzero : alignOffset before.ptr 1 = 0 := alignOffset_eq_zero_of_dvd (Nat.one_dvd _)
  simp only [hzero] at hptr hoffset hafter hoff
  omega

theorem StagedCall.stage_laid {staged : StagedCall call}
    (h : StagedCall.stage call before = (.ok staged, after)) (haligned : 8 ∣ before.ptr) :
    Leaf.Laid ⟨call, staged⟩ before.ptr ∧ after.ptr = Leaf.finish ⟨call, staged⟩ before.ptr ∧
      after.ptr + after.len = before.ptr + before.len ∧
      after.offset + before.ptr = before.offset + after.ptr := by
  obtain ⟨headerRef, afterHeader, hheader, h⟩ := Exec.bind_ok h
  obtain ⟨⟨inner, size⟩, afterSection, hsection, h⟩ := Exec.bind_ok h
  obtain ⟨last, hinner, hsize, hafter⟩ := section_ok hsection
  obtain ⟨hheaderPtr, hheaderEnd, hheaderOff, hheaderLen⟩ := allocate_ok hheader haligned
  have hheaderSize : headerLayout.size = 16 := rfl
  obtain ⟨hnum, hargv, hret, hargvEq, hholds, first, data, hallocs, hfirst, hzero, hend, hlen,
    hoff⟩ := StagedAlloc.stage_ok hinner (by simp only; omega)
  have hdata := hallocs.offset_eq
  have hbounds := hallocs.bounds
  rw [hzero] at hdata
  change data.offset = sectionSize _ at hdata
  simp only at hnum hargv hret hfirst hlen hoff
  have hle := le_padded size
  -- the padding brings the size to the next multiple of a word
  have hfinal : staged.headerRef = headerRef ∧ staged.staged = inner ∧
      staged.size = padded size ∧ after.ptr = afterSection.ptr + (padded size - size) ∧
      after.offset = afterSection.offset + (padded size - size) ∧
      after.ptr + after.len = afterSection.ptr + afterSection.len := by
    simp only at h
    split at h
    · next hreminder =>
      obtain ⟨region, middle, hpad, h⟩ := Exec.bind_ok h
      cases h
      have hpadded : padded size = size + (8 - size % 8) := by unfold padded; omega
      obtain ⟨hptr, hoffset, hpadLen⟩ := stagePadding_ok hpad
      refine ⟨rfl, rfl, hpadded.symm, ?_, ?_, hpadLen⟩ <;> omega
    · next hreminder =>
      cases h
      have hpadded : padded size = size := by unfold padded; omega
      refine ⟨rfl, rfl, hpadded.symm, ?_, ?_, rfl⟩ <;> omega
  obtain ⟨rfl, rfl, hstagedSize, hptr, hoffset, hfinalLen⟩ := hfinal
  have hpadded : padded size = 8 * call.kind.usizeCount + padded data.offset := by
    unfold padded
    omega
  have hsectionPtr : afterSection.ptr = last.ptr := by rw [hafter]
  have hsectionLen : afterSection.len = last.len := by rw [hafter]
  have hsectionOff : afterSection.offset = afterHeader.offset + last.offset := by rw [hafter]
  refine ⟨⟨hheaderPtr, ?_, ?_, ?_, hargvEq, hholds, ?_, first, data, hallocs, ?_, hzero⟩, ?_, ?_, ?_⟩
  · exact hnum.trans (by omega)
  · exact hargv.trans (by omega)
  · change staged.staged.retRef.ptr = before.ptr + 24 + 8 * call.kind.argc
    omega
  · rw [hstagedSize, hpadded, hdata]
    rfl
  · simp only [Leaf.dataStart]
    omega
  · simp only [Leaf.finish, hstagedSize]
    omega
  · omega
  · omega

namespace Call

def leaves : (call : Call) → call.Staged → List Leaf
  | .alloc call, staged => [⟨call, staged⟩]
  | .maybeAlloc call, .inl staged => [⟨.syscall call.toAlloc, staged⟩]
  | .maybeAlloc _, .inr _ => []
  | .stub _, _ => []
  | .pair a b, (stagedA, stagedB) => a.leaves stagedA ++ b.leaves stagedB

def allocated (mem : Mem) : Call → List AllocCall
  | .alloc call => [call]
  | .maybeAlloc call =>
    match call.unstaged mem with
    | .ok .alloc => [.syscall call.toAlloc]
    | _ => []
  | .stub _ => []
  | .pair a b => a.allocated mem ++ b.allocated mem

theorem leaves_call {mem : Mem} {call : Call} {before after : Alloc} {staged : call.Staged}
    (h : call.stage mem before = (.ok staged, after)) :
    (call.leaves staged).map Leaf.call = call.allocated mem := by
  induction call generalizing before after with
  | alloc call => rfl
  | maybeAlloc call =>
    obtain ⟨unstaged, middle, hunstaged, h⟩ := Exec.bind_ok h
    rw [Exec.lift_apply, Prod.mk.injEq, orAbort_eq_ok] at hunstaged
    rw [allocated, hunstaged.1]
    cases unstaged with
    | alloc =>
      obtain ⟨stagedCall, last, hstage, h⟩ := Exec.bind_ok h
      cases h
      rfl
    | stub val =>
      cases h
      rfl
  | stub call => rfl
  | pair a b iha ihb =>
    obtain ⟨stagedA, middle, ha, h⟩ := Exec.bind_ok h
    obtain ⟨stagedB, last, hb, h⟩ := Exec.bind_ok h
    cases h
    rw [leaves, List.map_append, iha ha, ihb hb, allocated]

end Call

theorem MaybeAlloc.unstaged_of_allocated {mem : Mem} {call : MaybeAlloc}
    (h : (Call.maybeAlloc call).allocated mem ≠ []) : call.unstaged mem = .ok .alloc := by
  unfold Call.allocated at h
  split at h
  · next hunstaged => exact hunstaged
  · exact absurd rfl h

inductive LaidOut : Nat → List Leaf → Nat → Prop where
  | nil (start : Nat) : LaidOut start [] start
  | cons {start finish : Nat} {leaf : Leaf} {leaves : List Leaf} (head : leaf.Laid start)
      (tail : LaidOut (leaf.finish start) leaves finish) : LaidOut start (leaf :: leaves) finish

namespace LaidOut

variable {start finish : Nat} {leaves : List Leaf}

theorem append {middle : Nat} {left right : List Leaf}
    (h : LaidOut start left middle) (h' : LaidOut middle right finish) :
    LaidOut start (left ++ right) finish := by
  induction h with
  | nil => exact h'
  | cons head _ ih => exact .cons head (ih h')

theorem dvd_finish (h : LaidOut start leaves finish) (haligned : 8 ∣ start) : 8 ∣ finish := by
  induction h with
  | nil => exact haligned
  | @cons start finish leaf leaves head _ ih =>
    apply ih
    have := padded_mod (sectionSize leaf.segs)
    unfold Leaf.finish
    rw [head.size_eq]
    omega

theorem le (h : LaidOut start leaves finish) : start ≤ finish := by
  induction h with
  | nil => exact Nat.le_refl _
  | cons _ _ ih =>
    unfold Leaf.finish at ih
    omega

theorem mem_laid (h : LaidOut start leaves finish) {leaf : Leaf} (hleaf : leaf ∈ leaves) :
    ∃ pos, leaf.Laid pos ∧ start ≤ pos ∧ leaf.finish pos ≤ finish := by
  induction h with
  | nil => cases hleaf
  | @cons start finish first leaves head tail ih =>
    rcases List.mem_cons.mp hleaf with rfl | hleaf
    · exact ⟨start, head, Nat.le_refl _, tail.le⟩
    · obtain ⟨pos, hlaid, hpos, hfinish⟩ := ih hleaf
      refine ⟨pos, hlaid, ?_, hfinish⟩
      unfold Leaf.finish at hpos
      omega

end LaidOut

structure Advance (before after : Alloc) (leaves : List Leaf) : Prop where
  laidOut : LaidOut before.ptr leaves after.ptr
  finish_eq : after.ptr + after.len = before.ptr + before.len
  offset_eq : after.offset + before.ptr = before.offset + after.ptr

theorem Advance.trans {middle : Alloc} {left right : List Leaf}
    (h : Advance before middle left) (h' : Advance middle after right) :
    Advance before after (left ++ right) where
  laidOut := h.laidOut.append h'.laidOut
  finish_eq := by rw [h'.finish_eq, h.finish_eq]
  offset_eq := by
    have := h.offset_eq
    have := h'.offset_eq
    omega

theorem StagedCall.stage_advance
    {staged : StagedCall call} (h : StagedCall.stage call before = (.ok staged, after))
    (haligned : 8 ∣ before.ptr) : Advance before after [⟨call, staged⟩] := by
  obtain ⟨hlaid, hptr, hfinish, hoffset⟩ := StagedCall.stage_laid h haligned
  refine ⟨.cons hlaid ?_, hfinish, hoffset⟩
  rw [hptr]
  exact .nil _

theorem Call.stage_advance {mem : Mem} {call : Call} {staged : call.Staged}
    (h : call.stage mem before = (.ok staged, after)) (haligned : 8 ∣ before.ptr) :
    Advance before after (call.leaves staged) := by
  induction call generalizing before after with
  | alloc call => exact StagedCall.stage_advance h haligned
  | maybeAlloc call =>
    obtain ⟨unstaged, middle, hunstaged, h⟩ := Exec.bind_ok h
    rw [Exec.lift_apply, Prod.mk.injEq] at hunstaged
    obtain ⟨_, rfl⟩ := hunstaged
    cases unstaged with
    | alloc =>
      obtain ⟨stagedCall, last, hstage, h⟩ := Exec.bind_ok h
      cases h
      exact StagedCall.stage_advance hstage haligned
    | stub val =>
      cases h
      exact ⟨.nil _, rfl, rfl⟩
  | stub call =>
    cases h
    exact ⟨.nil _, rfl, rfl⟩
  | pair a b iha ihb =>
    obtain ⟨stagedA, middle, ha, h⟩ := Exec.bind_ok h
    obtain ⟨stagedB, last, hb, h⟩ := Exec.bind_ok h
    cases h
    have hadvance := iha ha haligned
    exact hadvance.trans (ihb hb (hadvance.laidOut.dvd_finish haligned))

def Leaf.stores (mem : Mem) (leaf : Leaf) : List Store :=
  [⟨⟨leaf.staged.headerRef.ptr, headerBytes leaf.staged.size (.item leaf.call.kind)⟩, none⟩,
    ⟨⟨leaf.staged.staged.numRef.ptr, wordBytes leaf.call.num⟩, none⟩,
    ⟨⟨leaf.staged.staged.argvRef.ptr, wordsBytes leaf.staged.staged.argv⟩, none⟩,
    ⟨⟨leaf.staged.staged.retRef.ptr, wordsBytes leaf.call.kind.initialRet⟩, none⟩] ++
    leaf.segs.flatMap (Seg.stores mem)

theorem StagedCall.log_commit (staged : StagedCall call) (mem : Mem) :
    staged.commit.log mem = Leaf.stores mem ⟨call, staged⟩ := by
  have hdata := call.commit_spec staged.staged.staged mem
  simp only [StagedCall.commit, StagedAlloc.commit, Trace.log_bind, Trace.log_pure, hdata,
    List.append_nil]
  rfl

theorem Call.log_commit (call : Call) (staged : call.Staged) (mem : Mem) :
    (call.commit staged).log mem = (call.leaves staged).flatMap (Leaf.stores mem) := by
  induction call with
  | alloc call =>
    refine (StagedCall.log_commit staged mem).trans ?_
    simp [leaves]
  | maybeAlloc call =>
    cases staged with
    | inl staged =>
      change (StagedCall.commit staged).log mem ++ [] = _
      rw [StagedCall.log_commit]
      simp [leaves]
    | inr val => rfl
  | stub call => rfl
  | pair a b iha ihb =>
    obtain ⟨stagedA, stagedB⟩ := staged
    change (a.commit stagedA).log mem ++ ((b.commit stagedB).log mem ++ []) = _
    rw [iha, ihb, List.append_nil, leaves, List.flatMap_append]

end Enarx.Sallyport
