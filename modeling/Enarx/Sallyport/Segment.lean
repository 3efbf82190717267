import Enarx.Sallyport.Alloc

/-!
# Segments

The abstract side of staging. A call is described by the buffers it stages, in
order, and by how its argument words are made from them; staging the buffers
gives segments that lie one after the other in the block.
-/
namespace Enarx.Sallyport

variable {capacity count : Nat} {span : Span} {region : Region} {f : StageM α} {data : α} {T : Layout}

theorem takeSpans_whole (hpos : 0 < capacity) (hle : span.len ≤ capacity) (rest : List Span) :
    takeSpans capacity (span :: rest) = span :: takeSpans (capacity - span.len) rest := by
  rw [takeSpans, if_neg (by omega), if_pos hle]

theorem takeSpans_part (hpos : 0 < capacity) (hlt : capacity < span.len) (rest : List Span) :
    takeSpans capacity (span :: rest) = [⟨span.addr, capacity⟩] := by
  rw [takeSpans, if_neg (by omega), if_neg (by omega)]

theorem takeSpans_zero (spans : List Span) : takeSpans 0 spans = [] := by
  cases spans <;> rfl

theorem sum_takeSpans_le (capacity : Nat) (spans : List Span) :
    ((takeSpans capacity spans).map Span.len).sum ≤ capacity := by
  induction spans generalizing capacity with
  | nil => exact Nat.zero_le _
  | cons span rest ih =>
    rcases Nat.eq_zero_or_pos capacity with rfl | hpos
    · exact Nat.le_refl _
    rcases Nat.lt_or_ge capacity span.len with hlt | hle
    · rw [takeSpans_part hpos hlt]
      simp
    · rw [takeSpans_whole hpos hle, List.map_cons, List.sum_cons]
      have := ih (capacity - span.len)
      omega

variable {len : Nat} {layout : Layout} {before after : Alloc}

theorem takeSpans_takeSpans (h : count ≤ len) (spans : List Span) :
    takeSpans count (takeSpans len spans) = takeSpans count spans := by
  induction spans generalizing count len with
  | nil => rfl
  | cons span rest ih =>
    rcases Nat.eq_zero_or_pos count with rfl | hpos
    · rw [takeSpans_zero, takeSpans_zero]
    rcases Nat.lt_or_ge len span.len with hlen | hlen
    · have hwhole : count < span.len := by omega
      rw [takeSpans_part (by omega) hlen, takeSpans_part hpos hwhole rest]
      rcases Nat.lt_or_ge count len with hcount | hcount
      · exact takeSpans_part hpos hcount []
      · rw [Nat.le_antisymm h hcount]
        exact takeSpans_whole (show 0 < len by omega) (Nat.le_refl _) []
    · rw [takeSpans_whole (by omega) hlen]
      rcases Nat.lt_or_ge count span.len with hcount | hcount
      · rw [takeSpans_part hpos hcount, takeSpans_part hpos hcount]
      · rw [takeSpans_whole hpos hcount, takeSpans_whole hpos hcount, ih (by omega)]

inductive Dir where
  | input | output | inout
  deriving DecidableEq, Repr

/-- The memory of a buffer: one slice, or a list of slices used as one. -/
inductive Place where
  | slice (addr : Nat)
  | iovs (spans : List Span)
  deriving DecidableEq, Repr

namespace Place

def spans : Place → Nat → List Span
  | .slice addr, size => [⟨addr, size⟩]
  | .iovs spans, size => takeSpans size spans

def measure : Place → Except Abort Unit
  | .slice _ => .ok ()
  | .iovs spans => do
    let _ ← iovLen spans

/-- There are `size` bytes; a slice is as long as its buffer says. -/
def Covers : Place → Nat → Prop
  | .slice _, _ => True
  | .iovs spans, size => size ≤ (spans.map Span.len).sum

theorem Covers.mono {place : Place} {size size' : Nat} (h : place.Covers size)
    (hle : size' ≤ size) : place.Covers size' := by
  cases place with
  | slice addr => trivial
  | iovs spans => exact Nat.le_trans hle h

theorem sum_takeSpans {capacity : Nat} {spans : List Span} (h : capacity ≤ (spans.map Span.len).sum) :
    ((takeSpans capacity spans).map Span.len).sum = capacity := by
  induction spans generalizing capacity with
  | nil =>
    rw [List.map_nil, List.sum_nil] at h
    exact (Nat.le_zero.mp h).symm
  | cons span rest ih =>
    rw [List.map_cons, List.sum_cons] at h
    rw [takeSpans]
    split
    · next hzero => exact hzero.symm
    · split
      · have hrest : capacity - span.len ≤ (rest.map Span.len).sum := by omega
        rw [List.map_cons, List.sum_cons, ih hrest]
        omega
      · simp

theorem sum_spans {place : Place} {size : Nat} (h : place.Covers size) :
    ((place.spans size).map Span.len).sum = size := by
  cases place with
  | slice addr => simp [spans]
  | iovs spans => exact sum_takeSpans h

end Place

/-- A buffer as the caller passes it. With `max` as many elements are staged as fit. -/
structure Buffer where
  elem : Layout
  len : Nat
  place : Place
  dir : Dir
  max : Bool
  covers : place.Covers (elem.size * len)

def Buffer.spans (buffer : Buffer) (count : Nat) : List Span :=
  buffer.place.spans (buffer.elem.size * count)

theorem Buffer.sum_spans (buffer : Buffer) (h : count ≤ buffer.len) :
    ((buffer.spans count).map Span.len).sum = buffer.elem.size * count :=
  Place.sum_spans (buffer.covers.mono (Nat.mul_le_mul_left _ h))

/-- A staged buffer: where it is in the block, the memory that is copied there and
the memory it is copied back to. -/
structure Seg where
  ptr : Nat
  offset : Nat
  elem : Layout
  len : Nat
  src : List Span
  dst : List Span

namespace Seg

def size (seg : Seg) : Nat := seg.elem.size * seg.len

def finish (seg : Seg) : Nat := seg.ptr + seg.size

end Seg

def Buffer.seg (buffer : Buffer) (count : Nat) (ptr offset : Nat) : Seg where
  ptr := ptr
  offset := offset
  elem := buffer.elem
  len := count
  src := if buffer.dir = .output then [] else buffer.spans count
  dst := if buffer.dir = .input then [] else buffer.spans count

def stageBuffer (buffer : Buffer) : StageM Seg := do
  buffer.place.measure
  let alloc ← get
  let count := if buffer.max then min buffer.len (alloc.free buffer.elem) else buffer.len
  let dataRef ← allocateSlice buffer.elem count
  return buffer.seg count dataRef.ptr dataRef.offset

def stageBuffers : List Buffer → StageM (List Seg)
  | [] => pure []
  | buffer :: rest => do
    let seg ← stageBuffer buffer
    return seg :: (← stageBuffers rest)

/-- An argument word: a scalar, or the offset or the length of a staged buffer. -/
inductive Arg where
  | word (value : Word)
  | offset (index : Nat)
  | len (index : Nat)
  deriving DecidableEq, Repr

def Arg.encode (segs : List Seg) : Arg → Word
  | .word value => value
  | .offset index => (segs[index]?.map fun seg => usize seg.offset).getD NULL
  | .len index => (segs[index]?.map fun seg => usize seg.len).getD NULL

/-- What a call puts into the block, apart from where. -/
structure CallSpec where
  num : Word
  buffers : List Buffer
  args : List Arg

def CallSpec.stage (spec : CallSpec) : StageM (List Word × List Seg) := do
  let segs ← stageBuffers spec.buffers
  return (spec.args.map (Arg.encode segs), segs)

def scatter (mem : Mem) (ptr : Nat) : List Span → List Store
  | [] => []
  | src :: rest =>
    ⟨⟨ptr, mem.read src.addr src.len⟩, some src⟩ :: scatter mem (ptr + src.len) rest

theorem log_copyFromIter (mem : Mem) (ptr : Nat) (spans : List Span) :
    (copyFromIter ptr spans).log mem = scatter mem ptr spans := by
  induction spans generalizing ptr with
  | nil => rfl
  | cons span spans ih =>
    rw [copyFromIter, Trace.log_bind, ih]
    rfl

def Seg.stores (mem : Mem) (seg : Seg) : List Store := scatter mem seg.ptr seg.src

structure Seg.Placed (seg : Seg) (before after : Alloc) : Prop where
  ptr_eq : seg.ptr = before.ptr + alignOffset before.ptr seg.elem.align
  offset_eq : seg.offset = before.offset + alignOffset before.ptr seg.elem.align
  after_ptr : after.ptr = seg.finish
  after_offset : after.offset = seg.offset + seg.size
  after_len : after.ptr + after.len = before.ptr + before.len

inductive Allocs : Alloc → List Seg → Alloc → Prop where
  | nil (alloc : Alloc) : Allocs alloc [] alloc
  | cons {before middle after : Alloc} {seg : Seg} {segs : List Seg}
      (head : seg.Placed before middle) (tail : Allocs middle segs after) :
      Allocs before (seg :: segs) after

namespace Allocs

variable {before after : Alloc} {segs : List Seg}

theorem bounds (h : Allocs before segs after) :
    before.ptr ≤ after.ptr ∧ after.ptr + after.len = before.ptr + before.len ∧
      after.offset + before.ptr = before.offset + after.ptr := by
  induction h with
  | nil => omega
  | cons head _ ih =>
    obtain ⟨hptr, hoffset, hafter, hoff, hlen⟩ := head
    unfold Seg.finish at hafter
    omega

theorem mem_bounds (h : Allocs before segs after) {seg : Seg} (hseg : seg ∈ segs) :
    before.ptr ≤ seg.ptr ∧ seg.finish ≤ after.ptr ∧
      seg.offset + before.ptr = before.offset + seg.ptr ∧ seg.elem.align ∣ seg.ptr := by
  induction h with
  | nil => cases hseg
  | @cons before middle after first rest head tail ih =>
    obtain ⟨hptr, hoffset, hafter, hoff, hlen⟩ := head
    rcases List.mem_cons.mp hseg with rfl | hseg
    · have := tail.bounds
      refine ⟨by omega, by omega, by omega, ?_⟩
      rw [hptr]
      exact align_dvd_add_alignOffset _ seg.elem.align_pos
    · obtain ⟨hle, hfinish, hdiff, halign⟩ := ih hseg
      unfold Seg.finish at hafter
      exact ⟨by omega, hfinish, by omega, halign⟩

theorem pairwise (h : Allocs before segs after) :
    segs.Pairwise fun left right => left.finish ≤ right.ptr := by
  induction h with
  | nil => exact .nil
  | cons head tail ih =>
    refine List.Pairwise.cons (fun later hlater => ?_) ih
    have := (tail.mem_bounds hlater).1
    have := head.after_ptr
    omega

end Allocs

theorem allocateLayout_ok (h : allocateLayout layout before = (.ok region, after)) :
    region.ptr = before.ptr + alignOffset before.ptr layout.align ∧
      region.offset = before.offset + alignOffset before.ptr layout.align ∧
      after.ptr = region.ptr + layout.size ∧ after.offset = region.offset + layout.size ∧
      after.ptr + after.len = before.ptr + before.len := by
  unfold allocateLayout at h
  simp only at h
  split at h
  · cases h
  · split at h
    · cases h
    · cases h
      refine ⟨rfl, rfl, rfl, rfl, ?_⟩
      simp only
      omega

theorem reserveLayout_ok (h : reserveLayout layout f before = (.ok (data, region), after)) :
    ∃ pad last, f { before with len := before.len - layout.size - pad } = (.ok data, last) ∧
      pad ≤ before.len - layout.size ∧ layout.size ≤ before.len ∧
      allocateLayout layout { last with len := last.len + pad + layout.size } =
        (.ok region, after) := by
  unfold reserveLayout at h
  split at h
  · cases h
  · next hroom =>
    simp only at h
    split at h
    · cases h
    · next hpad =>
      split at h
      · cases h
      · next last hf =>
        split at h
        · cases h
        · next hregion =>
          cases h
          exact ⟨_, last, hf, Nat.not_lt.mp hpad, Nat.not_lt.mp hroom, hregion⟩

theorem section_ok {size : Nat} (h : «section» f before = (.ok (data, size), after)) :
    ∃ last, f { before with offset := 0 } = (.ok data, last) ∧ size = last.offset ∧
      after = { last with offset := before.offset + last.offset } := by
  unfold «section» at h
  split at h
  · cases h
  · next last hrun =>
    cases h
    exact ⟨last, hrun, rfl, rfl⟩

theorem arrayLayout_ok (h : arrayLayout T len = .ok layout) : layout = T.array len := by
  unfold arrayLayout at h
  split at h
  · cases h
  · cases h
    rfl

theorem allocateSlice_ok {dataRef : BlockRef T len} (h : allocateSlice T len before = (.ok dataRef, after)) :
    allocateLayout (T.array len) before = (.ok ⟨dataRef.ptr, dataRef.offset⟩, after) := by
  obtain ⟨layout, middle, hlayout, h⟩ := Exec.bind_ok h
  rw [Exec.lift_apply, Prod.mk.injEq] at hlayout
  obtain ⟨region, last, hregion, h⟩ := Exec.bind_ok h
  cases h
  rw [hlayout.2, ← arrayLayout_ok hlayout.1]
  exact hregion

theorem stageBuffer_ok {buffer : Buffer} {seg : Seg} (h : stageBuffer buffer before = (.ok seg, after)) :
    seg.Placed before after ∧ ∃ count, seg = buffer.seg count seg.ptr seg.offset ∧
      count ≤ buffer.len ∧ (buffer.max = false → count = buffer.len) := by
  unfold stageBuffer at h
  obtain ⟨_, _, hmeasure, h⟩ := Exec.bind_ok h
  rw [Exec.lift_apply, Prod.mk.injEq] at hmeasure
  obtain ⟨-, rfl⟩ := hmeasure
  obtain ⟨alloc, middle, hget, h⟩ := Exec.bind_ok h
  cases hget
  obtain ⟨dataRef, last, hslice, h⟩ := Exec.bind_ok h
  cases h
  obtain ⟨hptr, hoffset, hafter, hoff, hlen⟩ := allocateLayout_ok (allocateSlice_ok hslice)
  refine ⟨⟨hptr, hoffset, hafter, hoff, hlen⟩, _, rfl, ?_, ?_⟩
  · split
    · exact Nat.min_le_left _ _
    · exact Nat.le_refl _
  · intro hmax
    rw [hmax]
    rfl

def Seg.Holds (seg : Seg) (buffer : Buffer) : Prop :=
  ∃ count, seg = buffer.seg count seg.ptr seg.offset ∧
    count ≤ buffer.len ∧ (buffer.max = false → count = buffer.len)

theorem stageBuffers_ok {buffers : List Buffer} {segs : List Seg}
    (h : stageBuffers buffers before = (.ok segs, after)) :
    Allocs before segs after ∧ List.Forall₂ Seg.Holds segs buffers := by
  induction buffers generalizing before segs with
  | nil =>
    cases h
    exact ⟨.nil _, .nil⟩
  | cons buffer rest ih =>
    obtain ⟨seg, middle, hseg, h⟩ := Exec.bind_ok h
    obtain ⟨later, last, hlater, h⟩ := Exec.bind_ok h
    cases h
    obtain ⟨hplaced, hholds⟩ := stageBuffer_ok hseg
    obtain ⟨hallocs, hall⟩ := ih hlater
    exact ⟨.cons hplaced hallocs, .cons hholds hall⟩

end Enarx.Sallyport
