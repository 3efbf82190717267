import Enarx.Sallyport.Call

/-!
# Programs of the stage phase

Anything that can be done with `Alloc<Stage>`: operations in any order and
nesting, where a callback sees the results of the operations before it and
returns what it likes. The regions that are handed out lie in the buffer one
after the other.
-/
namespace Enarx.Sallyport

open Libc

/-- A program over the allocator. `andThen` goes on after an error as well. -/
inductive Program : Type → Type 1 where
  | done {α : Type} (result : Except Abort α) : Program α
  | free (T : Layout) : Program Nat
  | allocate (layout : Layout) : Program Region
  | reserve {α : Type} (layout : Layout) (callback : Program α) : Program (α × Region)
  | «section» {α : Type} (callback : Program α) : Program (α × Nat)
  | andThen {α β : Type} (first : Program α) (next : Except Abort α → Program β) : Program β

/-- A region that was handed out for `layout`, in a section that starts at `start`. -/
structure Handed where
  region : Region
  layout : Layout
  start : Nat

def Handed.finish (handed : Handed) : Nat := handed.region.ptr + handed.layout.size

structure Run (α : Type) where
  result : Except Abort α
  alloc : Alloc
  handed : List Handed

/-- A program as a callback. What it held is lost with an error. -/
def Run.callback (run : Alloc → Run α) : StageM (α × List Handed) := fun alloc =>
  ((run alloc).result.map fun value => (value, (run alloc).handed), (run alloc).alloc)

namespace Program

def run : Program α → Nat → Alloc → Run α
  | .done result, _, alloc => ⟨result, alloc, []⟩
  | .free T, _, alloc => ⟨.ok (alloc.free T), alloc, []⟩
  | .allocate layout, start, alloc =>
    match allocateLayout layout alloc with
    | (.ok region, alloc) => ⟨.ok region, alloc, [⟨region, layout, start⟩]⟩
    | (.error abort, alloc) => ⟨.error abort, alloc, []⟩
  | .reserve layout callback, start, alloc =>
    match reserveLayout layout (Run.callback (callback.run start)) alloc with
    | (.ok ((data, handed), region), alloc) =>
      ⟨.ok (data, region), alloc, handed ++ [⟨region, layout, start⟩]⟩
    | (.error abort, alloc) => ⟨.error abort, alloc, []⟩
  | .section callback, _, alloc =>
    match Sallyport.«section» (Run.callback (callback.run alloc.ptr)) alloc with
    | (.ok ((data, handed), size), alloc) => ⟨.ok (data, size), alloc, handed⟩
    | (.error abort, alloc) => ⟨.error abort, alloc, []⟩
  | .andThen first next, start, alloc =>
    let before := first.run start alloc
    let after := (next before.result).run start before.alloc
    ⟨after.result, after.alloc, before.handed ++ after.handed⟩

def allocateSlice (T : Layout) (len : Nat) : Program Region :=
  match arrayLayout T len with
  | .ok layout => .allocate layout
  | .error abort => .done (.error abort)

def allocateSliceMax (T : Layout) (len : Nat) : Program Region :=
  .andThen (.free T) fun
    | .ok count => allocateSlice T (min len count)
    | .error abort => .done (.error abort)

inductive Operation : {α : Type} → Program α → Prop where
  | allocate (layout : Layout) : Operation (.allocate layout)
  | allocateSlice (T : Layout) (len : Nat) : Operation (.allocateSlice T len)
  | allocateSliceMax (T : Layout) (len : Nat) : Operation (.allocateSliceMax T len)
  | reserve {α : Type} (layout : Layout) (callback : Program α) :
      Operation (.reserve layout callback)
  | «section» {α : Type} (callback : Program α) : Operation (.section callback)

end Program

namespace Handed

/-- Inside the memory from `lower` to `upper`, aligned, at the distance from the start of the
section that was reported. -/
structure Fits (lower upper : Nat) (handed : Handed) : Prop where
  lower_le : lower ≤ handed.region.ptr
  finish_le : handed.finish ≤ upper
  aligned : handed.layout.align ∣ handed.region.ptr
  offset_eq : handed.start + handed.region.offset = handed.region.ptr

theorem Fits.mono {lower lower' upper upper' : Nat} {handed : Handed}
    (h : handed.Fits lower upper) (hlower : lower' ≤ lower) (hupper : upper ≤ upper') :
    handed.Fits lower' upper' where
  lower_le := hlower.trans h.lower_le
  finish_le := h.finish_le.trans hupper
  aligned := h.aligned
  offset_eq := h.offset_eq

def Apart (left right : Handed) : Prop :=
  left.finish ≤ right.region.ptr ∨ right.finish ≤ left.region.ptr

end Handed

/-- The allocator has moved over the regions of the run, and over nothing behind them. -/
structure Run.Sound (start : Nat) (before : Alloc) (run : Run α) : Prop where
  ptr_le : before.ptr ≤ run.alloc.ptr
  finish_eq : run.alloc.ptr + run.alloc.len = before.ptr + before.len
  offset_eq : start + run.alloc.offset = run.alloc.ptr
  fits : ∀ handed ∈ run.handed, handed.Fits before.ptr run.alloc.ptr
  ordered : run.handed.Pairwise fun left right => left.finish ≤ right.region.ptr

namespace Run

variable {start : Nat} {before : Alloc}

theorem Sound.unchanged (h : start + before.offset = before.ptr) (result : Except Abort α) :
    Sound start before ⟨result, before, []⟩ where
  ptr_le := le_rfl
  finish_eq := rfl
  offset_eq := h
  fits := by simp
  ordered := .nil

theorem Sound.append {first : Run α} {next : Run β} (hfirst : first.Sound start before)
    (hnext : next.Sound start first.alloc) :
    Sound start before (⟨next.result, next.alloc, first.handed ++ next.handed⟩ : Run β) where
  ptr_le := hfirst.ptr_le.trans hnext.ptr_le
  finish_eq := hnext.finish_eq.trans hfirst.finish_eq
  offset_eq := hnext.offset_eq
  fits := by
    intro handed hhanded
    rcases List.mem_append.mp hhanded with hhanded | hhanded
    · exact (hfirst.fits handed hhanded).mono le_rfl hnext.ptr_le
    · exact (hnext.fits handed hhanded).mono hfirst.ptr_le le_rfl
  ordered := by
    rw [List.pairwise_append]
    refine ⟨hfirst.ordered, hnext.ordered, fun left hleft right hright => ?_⟩
    exact (hfirst.fits left hleft).finish_le.trans (hnext.fits right hright).lower_le

theorem sound_allocateLayout {layout : Layout} {region : Region} {after : Alloc}
    (h : start + before.offset = before.ptr)
    (hregion : allocateLayout layout before = (.ok region, after)) (result : Except Abort α) :
    Sound start before ⟨result, after, [⟨region, layout, start⟩]⟩ := by
  obtain ⟨hptr, hoffset, hafter, hafterOffset, hlen⟩ := allocateLayout_ok hregion
  constructor
  · simp only
    omega
  · exact hlen
  · simp only
    omega
  · intro handed hhanded
    cases List.mem_singleton.mp hhanded
    constructor
    · simp only
      omega
    · exact hafter.ge
    · rw [hptr]
      exact align_dvd_add_alignOffset _ layout.align_pos
    · simp only
      omega
  · exact List.pairwise_singleton _ _

theorem callback_ok {run : Alloc → Run α} {alloc after : Alloc} {value : α} {handed : List Handed}
    (h : callback run alloc = (.ok (value, handed), after)) : run alloc = ⟨.ok value, after, handed⟩ := by
  unfold callback at h
  rcases hrun : run alloc with ⟨abort | found, last, held⟩
  · rw [hrun] at h
    cases h
  · rw [hrun] at h
    cases h
    rfl

theorem Sound.widen {run : Run α} {room : Nat} (h : run.Sound start { before with len := room })
    (len : Nat)
    (hlen : run.alloc.len + before.len = room + len) (result : Except Abort β) :
    Sound start before ⟨result, { run.alloc with len }, run.handed⟩ where
  ptr_le := h.ptr_le
  finish_eq := by
    have := h.finish_eq
    simp only at this ⊢
    omega
  offset_eq := h.offset_eq
  fits := h.fits
  ordered := h.ordered

theorem Sound.rebase {run : Run α} (hstart : start + before.offset = before.ptr)
    (h : run.Sound before.ptr { before with offset := 0 }) (result : Except Abort β) :
    Sound start before
      ⟨result, { run.alloc with offset := before.offset + run.alloc.offset }, run.handed⟩ where
  ptr_le := h.ptr_le
  finish_eq := h.finish_eq
  offset_eq := by
    have := h.offset_eq
    simp only
    omega
  fits := h.fits
  ordered := h.ordered

end Run

variable {layout : Layout} {after : Alloc} {abort : Abort} {f : StageM α}

theorem allocateLayout_error {before : Alloc}
    (h : allocateLayout layout before = (.error abort, after)) : after = before := by
  unfold allocateLayout at h
  simp only at h
  split at h
  · cases h
    rfl
  · split at h
    · cases h
      rfl
    · cases h

theorem reserveLayout_error {before : Alloc}
    (h : reserveLayout layout f before = (.error abort, after)) : after = before := by
  unfold reserveLayout at h
  simp only at h
  repeat' split at h
  all_goals cases h
  all_goals rfl

theorem section_error {before : Alloc} (h : «section» f before = (.error abort, after)) : after = before := by
  unfold «section» at h
  split at h
  · cases h
    rfl
  · cases h

namespace Program

theorem run_sound (program : Program α) (start : Nat) (before : Alloc)
    (h : start + before.offset = before.ptr) : (program.run start before).Sound start before := by
  induction program generalizing start before with
  | done result => exact .unchanged h result
  | free T => exact .unchanged h _
  | allocate layout =>
    rw [run]
    rcases hregion : allocateLayout layout before with ⟨abort | region, after⟩
    · rw [allocateLayout_error hregion]
      exact .unchanged h _
    · exact Run.sound_allocateLayout h hregion _
  | reserve layout callback ih =>
    rw [run]
    rcases hreserve : reserveLayout layout (Run.callback (callback.run start)) before with
      ⟨abort | ⟨⟨data, handed⟩, region⟩, after⟩
    · rw [reserveLayout_error hreserve]
      exact .unchanged h _
    · obtain ⟨pad, last, hcallback, hpad, hroom, hregion⟩ := reserveLayout_ok hreserve
      have hinner := ih start { before with len := before.len - layout.size - pad } h
      rw [Run.callback_ok hcallback] at hinner
      -- the callback left the memory that was kept aside alone
      have hwide := hinner.widen (last.len + pad + layout.size)
        (by simp only; omega) (.ok data)
      exact hwide.append (Run.sound_allocateLayout hwide.offset_eq hregion (.ok (data, region)))
  | «section» callback ih =>
    rw [run]
    rcases hsection : Sallyport.«section» (Run.callback (callback.run before.ptr)) before with
      ⟨abort | ⟨⟨data, handed⟩, size⟩, after⟩
    · rw [section_error hsection]
      exact .unchanged h _
    · obtain ⟨last, hcallback, _, hafter⟩ := section_ok hsection
      have hinner := ih before.ptr { before with offset := 0 } (Nat.add_zero _)
      rw [Run.callback_ok hcallback] at hinner
      rw [hafter]
      exact hinner.rebase h (.ok (data, size))
  | andThen first next ihfirst ihnext =>
    have hfirst := ihfirst start before h
    exact hfirst.append (ihnext _ _ _ hfirst.offset_eq)

variable {abort : Abort}

theorem run_allocate_error {layout : Layout} {start : Nat} {before : Alloc}
    (h : ((Program.allocate layout).run start before).result = .error abort) :
    ((Program.allocate layout).run start before).alloc = before := by
  rw [run] at h ⊢
  rcases hregion : allocateLayout layout before with ⟨_ | region, after⟩
  · exact allocateLayout_error hregion
  · rw [hregion] at h
    cases h

theorem run_allocateSlice_error {T : Layout} {len start : Nat} {before : Alloc}
    (h : ((allocateSlice T len).run start before).result = .error abort) :
    ((allocateSlice T len).run start before).alloc = before := by
  unfold allocateSlice at h ⊢
  rcases hlayout : arrayLayout T len with _ | layout
  · rfl
  · rw [hlayout] at h
    exact run_allocate_error h

theorem Operation.alloc_eq {operation : Program α} (hoperation : operation.Operation)
    {start : Nat} {before : Alloc} (h : (operation.run start before).result = .error abort) :
    (operation.run start before).alloc = before := by
  cases hoperation with
  | allocate layout => exact run_allocate_error h
  | allocateSlice T len => exact run_allocateSlice_error h
  | allocateSliceMax T len => exact run_allocateSlice_error h
  | reserve layout callback =>
    rw [run] at h ⊢
    rcases hreserve : reserveLayout layout (Run.callback (callback.run start)) before with
      ⟨_ | _, after⟩
    · exact reserveLayout_error hreserve
    · rw [hreserve] at h
      cases h
  | «section» callback =>
    rw [run] at h ⊢
    rcases hsection : Sallyport.«section» (Run.callback (callback.run before.ptr)) before with
      ⟨_ | _, after⟩
    · exact section_error hsection
    · rw [hsection] at h
      cases h

theorem run_section_size {callback : Program α} {start : Nat} {before : Alloc} {value : α}
    {size : Nat} (h : ((Program.section callback).run start before).result = .ok (value, size)) :
    before.ptr + size = ((Program.section callback).run start before).alloc.ptr := by
  rw [run] at h ⊢
  rcases hsection : Sallyport.«section» (Run.callback (callback.run before.ptr)) before with
    ⟨_ | ⟨⟨data, handed⟩, found⟩, after⟩
  · rw [hsection] at h
    cases h
  · rw [hsection] at h
    cases h
    obtain ⟨last, hcallback, hsize, hafter⟩ := section_ok hsection
    have hinner := callback.run_sound before.ptr { before with offset := 0 } (Nat.add_zero _)
    rw [Run.callback_ok hcallback] at hinner
    rw [hafter, hsize]
    exact hinner.offset_eq

end Program

/-- The regions that any program holds are inside the buffer, aligned, apart and at the
offsets that were reported; operations that fail change nothing, a section reports what it
used, and the block passes the check when it comes back from the host. -/
theorem allocator_invariant (buf : BlockBuf) {α : Type} (program : Program α) :
    (∀ handed ∈ (program.run buf.base ⟨buf.base, 8 * buf.count, 0⟩).handed,
        handed.Fits buf.base (buf.base + 8 * buf.count)) ∧
      (program.run buf.base ⟨buf.base, 8 * buf.count, 0⟩).handed.Pairwise Handed.Apart ∧
      (∀ (β : Type) (operation : Program β), operation.Operation → ∀ start before abort,
        (operation.run start before).result = .error abort →
          (operation.run start before).alloc = before) ∧
      (∀ (β : Type) (callback : Program β) start before value size,
        ((Program.section callback).run start before).result = .ok (value, size) →
          before.ptr + size = ((Program.section callback).run start before).alloc.ptr) ∧
      ∃ alloc, (program.run buf.base ⟨buf.base, 8 * buf.count, 0⟩).alloc.sally buf = .ok alloc := by
  have hsound := program.run_sound buf.base ⟨buf.base, 8 * buf.count, 0⟩ (Nat.add_zero _)
  have hfinish := hsound.finish_eq
  have hoffset := hsound.offset_eq
  refine ⟨fun handed hhanded => ?_, ?_, fun β operation hoperation start before abort h => ?_,
    fun β callback start before value size h => ?_, ?_⟩
  · apply (hsound.fits handed hhanded).mono le_rfl
    simp only at hfinish
    omega
  · exact hsound.ordered.imp fun hleft => .inl hleft
  · exact hoperation.alloc_eq h
  · exact Program.run_section_size h
  · refine ⟨_, if_neg ?_⟩
    simp only at hfinish
    omega

def nestedProgram : Program ((Region × Region) × Nat) :=
  .andThen (.allocate headerLayout) fun _ =>
    .section (.reserve .u64 (.andThen (.allocate .u8) fun _ => .allocate .u32))

theorem allocator_invariant_nested : (nestedProgram.run 4096 ⟨4096, 64, 0⟩).handed.map
        (fun handed => (handed.start, handed.region.offset, handed.layout.size)) =
        [(4096, 0, 16), (4112, 0, 1), (4112, 4, 4), (4112, 8, 8)] ∧
      (nestedProgram.run 4096 ⟨4096, 64, 0⟩).handed.Pairwise Handed.Apart :=
  ⟨by decide, (allocator_invariant ⟨4096, 8, by decide, by decide⟩ nestedProgram).2.1⟩

end Enarx.Sallyport
