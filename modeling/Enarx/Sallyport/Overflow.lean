import Enarx.Sallyport.Leaf

/-!
# Panics while a call is staged

The lengths of the slices of a vectored call are summed up with a checked addition, and
nothing else that staging does can panic.
-/
namespace Enarx.Sallyport

open Libc

def PanicsAt (run : StageM α) (alloc : Alloc) : Prop := (run alloc).1 = .error .panic

namespace PanicsAt

variable {alloc : Alloc}

theorem not_pure (value : α) : ¬PanicsAt (pure value : StageM α) alloc := by
  intro h
  cases h

theorem bind_iff {run : StageM α} {next : α → StageM β} : PanicsAt (run >>= next) alloc ↔ PanicsAt run alloc ∨
      ∃ value middle, run alloc = (.ok value, middle) ∧ PanicsAt (next value) middle := by
  unfold PanicsAt
  rw [Exec.bind_apply]
  rcases run alloc with ⟨abort | value, middle⟩
  · constructor
    · intro h
      cases h
      exact .inl rfl
    · rintro (h | ⟨_, _, h, -⟩)
      · cases h
        rfl
      · cases h
  · constructor
    · exact fun h => .inr ⟨value, middle, rfl, h⟩
    · rintro (h | ⟨_, _, h, hnext⟩)
      · cases h
      · cases h
        exact hnext

theorem map_iff {run : StageM α} (f : α → β) : PanicsAt (f <$> run) alloc ↔ PanicsAt run alloc := by
  rw [map_eq_pure_bind, bind_iff]
  constructor
  · rintro (h | ⟨value, middle, -, h⟩)
    · exact h
    · exact absurd h (not_pure _)
  · exact .inl

theorem section_iff {run : StageM α} :
    PanicsAt («section» run) alloc ↔ PanicsAt run { alloc with offset := 0 } := by
  unfold PanicsAt «section»
  rcases run { alloc with offset := 0 } with ⟨abort | value, middle⟩
  · simp
  · simp

theorem not_allocateLayout (layout : Layout) : ¬PanicsAt (allocateLayout layout) alloc := by
  unfold PanicsAt allocateLayout
  dsimp only
  split
  · simp
  · split <;> simp

theorem reserve_iff {layout : Layout} {run : StageM α} :
    PanicsAt (reserveLayout layout run) alloc ↔ layout.size ≤ alloc.len ∧
      alignOffset (alloc.ptr + (alloc.len - layout.size)) layout.align % layout.align ≤ alloc.len - layout.size ∧
      PanicsAt run ⟨alloc.ptr, alloc.len - layout.size -
        alignOffset (alloc.ptr + (alloc.len - layout.size)) layout.align % layout.align, alloc.offset⟩ := by
  unfold PanicsAt reserveLayout
  dsimp only
  split
  · next hroom => simp [hroom]
  · next hroom =>
    split
    · next hpad => simp [hpad]
    · next hpad =>
      rw [Nat.not_lt] at hroom hpad
      simp only [hroom, hpad, true_and]
      rcases run _ with ⟨abort | value, middle⟩
      · simp
      · simp only [reduceCtorEq, iff_false]
        split
        · next abort _ hlayout =>
          intro hpanic
          cases hpanic
          exact not_allocateLayout layout (congrArg Prod.fst hlayout)
        · simp

theorem not_allocate (T : Layout) : ¬PanicsAt (allocate T) alloc := by
  unfold allocate
  rw [bind_iff]
  rintro (h | ⟨_, _, -, h⟩)
  · exact not_allocateLayout T h
  · exact not_pure _ h

theorem not_allocateSlice (T : Layout) (len : Nat) : ¬PanicsAt (allocateSlice T len) alloc := by
  unfold allocateSlice
  rw [bind_iff]
  rintro (h | ⟨layout, middle, -, h⟩)
  · unfold PanicsAt at h
    rw [Exec.lift_apply, arrayLayout] at h
    dsimp only at h
    split at h <;> cases h
  · rcases bind_iff.mp h with h | ⟨_, _, -, h⟩
    · exact not_allocateLayout layout h
    · exact not_pure _ h

/-- An aligned allocation needs just its size. -/
theorem allocate_bind_iff {T : Layout} (haligned : T.align ∣ alloc.ptr) (hsize : T.size < 2 ^ 64)
    {next : BlockRef T 1 → StageM β} :
    PanicsAt (allocate T >>= next) alloc ↔ T.size ≤ alloc.len ∧ PanicsAt (next ⟨alloc.ptr, alloc.offset⟩)
      ⟨alloc.ptr + T.size, alloc.len - T.size, alloc.offset + T.size⟩ := by
  have hrun : allocate T alloc = if alloc.len < T.size then (.error (.err ENOMEM), alloc) else
      (.ok ⟨alloc.ptr, alloc.offset⟩, ⟨alloc.ptr + T.size, alloc.len - T.size, alloc.offset + T.size⟩) := by
    have hlayout : allocateLayout T alloc = if alloc.len < T.size then (.error (.err ENOMEM), alloc) else
        (.ok ⟨alloc.ptr, alloc.offset⟩, ⟨alloc.ptr + T.size, alloc.len - T.size, alloc.offset + T.size⟩) := by
      unfold allocateLayout
      simp only [alignOffset_eq_zero_of_dvd haligned, Nat.zero_add, Nat.add_zero, if_neg (Nat.not_le.mpr hsize)]
    unfold allocate
    rw [Exec.bind_apply, hlayout]
    by_cases hlong : alloc.len < T.size
    · rw [if_pos hlong, if_pos hlong]
    · rw [if_neg hlong, if_neg hlong]
      rfl
  rw [bind_iff]
  constructor
  · rintro (h | ⟨value, middle, hvalue, h⟩)
    · exact absurd h (not_allocate T)
    · rw [hrun] at hvalue
      split at hvalue
      · cases hvalue
      · next hroom =>
        cases hvalue
        exact ⟨Nat.not_lt.mp hroom, h⟩
  · rintro ⟨hroom, h⟩
    rw [if_neg (Nat.not_lt.mpr hroom)] at hrun
    exact .inr ⟨_, _, hrun, h⟩

theorem stageBuffers_iff {buffers : List Buffer} (h : ∀ buffer ∈ buffers, buffer.place.measure = .ok ()) :
    ¬PanicsAt (stageBuffers buffers) alloc := by
  induction buffers generalizing alloc with
  | nil => exact not_pure _
  | cons buffer rest ih =>
    obtain ⟨hbuffer, hrest⟩ := List.forall_mem_cons.mp h
    rw [stageBuffers, bind_iff]
    rintro (h | ⟨seg, middle, -, h⟩)
    · rw [stageBuffer, hbuffer] at h
      change PanicsAt (allocateSlice _ _ >>= _) alloc at h
      rcases bind_iff.mp h with h | ⟨_, _, -, h⟩
      · exact not_allocateSlice _ _ h
      · exact not_pure _ h
    · rcases bind_iff.mp h with h | ⟨_, _, -, h⟩
      · exact ih hrest h
      · exact not_pure _ h

theorem of_describes {spec : CallSpec} {segs : α → List Seg} {stage : StageM (List Word × α)}
    (h : Describes spec segs stage) : PanicsAt stage alloc ↔ PanicsAt (stageBuffers spec.buffers) alloc := by
  rw [← map_iff (fun staged => (staged.1, segs staged.2)), h, CallSpec.stage, bind_iff]
  constructor
  · rintro (h | ⟨_, _, -, h⟩)
    · exact h
    · exact absurd h (not_pure _)
  · exact .inl

end PanicsAt

/-- The slices of a vectored call are longer than any address. -/
def Syscall.Overflows : Syscall → Prop
  | .readv call => 2 ^ 64 ≤ (call.iovs.map Span.len).sum
  | .writev call => 2 ^ 64 ≤ (call.iovs.map Span.len).sum
  | _ => False

theorem measure_iovs {iovs : List Span} (h : (iovs.map Span.len).sum < 2 ^ 64) :
    (Place.iovs iovs).measure = .ok () := by
  rw [Place.measure, iovLen, if_pos h]
  rfl

theorem Syscall.measured {call : Syscall} (h : ¬call.Overflows) :
    ∀ buffer ∈ call.spec.buffers, buffer.place.measure = .ok () := by
  change ∀ buffer ∈ call.buffers, _
  cases call with
  | readv call | writev call =>
    intro buffer hbuffer
    cases List.mem_singleton.mp hbuffer
    exact measure_iovs (Nat.not_le.mp h)
  | accept call | accept4 call | clockGetres call | allocIoctl call | setsockopt call | nanosleep call =>
    simp only [buffers, buffersOption]
    split <;> simp [SockaddrOutput.buffers, Slice.buffer, Ref.buffer, Place.measure]
  | _ =>
    simp [buffers, SockaddrOutput.buffers, Slice.buffer, Slice.bufferMax, Ref.buffer, Place.measure]

theorem Syscall.stage_panics_iff (call : Syscall) (alloc : Alloc) :
    PanicsAt call.stage alloc ↔ call.Overflows := by
  constructor
  · intro h
    by_contra hnot
    exact PanicsAt.stageBuffers_iff (Syscall.measured hnot) ((PanicsAt.of_describes call.stage_spec).mp h)
  · have hlen : ∀ iovs : List Span, 2 ^ 64 ≤ (iovs.map Span.len).sum → iovLen iovs = .error .panic :=
      fun iovs h => if_neg (Nat.not_lt.mpr h)
    intro h
    cases call with
    | readv call =>
      rw [Syscall.stage, Readv.stage, hlen _ h]
      rfl
    | writev call =>
      rw [Syscall.stage, Writev.stage, hlen _ h]
      rfl
    | _ => exact h.elim

theorem StagedAlloc.stage_panics_iff {call : AllocCall} {P : Prop} (h : ∀ alloc, PanicsAt call.stage alloc ↔ P)
    {alloc : Alloc} (haligned : 8 ∣ alloc.ptr) (hcount : call.kind.usizeCount < 2 ^ 60) :
    PanicsAt (StagedAlloc.stage call) alloc ↔ 8 * call.kind.usizeCount ≤ alloc.len ∧ P := by
  unfold ItemKind.usizeCount at hcount ⊢
  have hlayout : usizeLayout.size = 8 := rfl
  unfold StagedAlloc.stage
  rw [PanicsAt.allocate_bind_iff haligned (by decide),
    PanicsAt.allocate_bind_iff (by rw [array_usize_align]; simp only [hlayout]; omega)
      (by rw [array_usize_size]; omega),
    PanicsAt.allocate_bind_iff (by rw [array_usize_align, array_usize_size]; simp only [hlayout]; omega)
      (by rw [array_usize_size]; omega),
    PanicsAt.bind_iff, PanicsAt.section_iff, h]
  simp only [array_usize_size, hlayout]
  constructor
  · rintro ⟨hnum, hargv, hret, hstage | ⟨_, _, -, hpure⟩⟩
    · exact ⟨by omega, hstage⟩
    · exact absurd hpure (PanicsAt.not_pure _)
  · rintro ⟨hroom, hstage⟩
    exact ⟨by omega, by omega, by omega, .inl hstage⟩

theorem StagedCall.stage_panics_iff {call : AllocCall} {P : Prop} (h : ∀ alloc, PanicsAt call.stage alloc ↔ P)
    {alloc : Alloc} (haligned : 8 ∣ alloc.ptr) (hcount : call.kind.usizeCount < 2 ^ 60) :
    PanicsAt (StagedCall.stage call) alloc ↔ 16 + 8 * call.kind.usizeCount ≤ alloc.len ∧ P := by
  have hlayout : headerLayout.size = 16 := rfl
  unfold StagedCall.stage
  rw [PanicsAt.allocate_bind_iff haligned (by decide), PanicsAt.bind_iff, PanicsAt.section_iff,
    StagedAlloc.stage_panics_iff h (by simp only [hlayout]; omega) hcount]
  simp only [hlayout]
  constructor
  · rintro ⟨hheader, ⟨hroom, hstage⟩ | ⟨⟨staged, size⟩, middle, -, hrest⟩⟩
    · exact ⟨by omega, hstage⟩
    · -- the padding
      split at hrest
      · rcases PanicsAt.bind_iff.mp hrest with hpad | ⟨_, _, -, hpure⟩
        · exact absurd hpad (PanicsAt.not_allocateLayout _)
        · exact absurd hpure (PanicsAt.not_pure _)
      · exact absurd hrest (PanicsAt.not_pure _)
  · rintro ⟨hroom, hstage⟩
    exact ⟨by omega, .inl ⟨by omega, hstage⟩⟩

theorem Syscall.stagedCall_panics_iff (call : Syscall) {alloc : Alloc} (haligned : 8 ∣ alloc.ptr) :
    PanicsAt (StagedCall.stage (.syscall call)) alloc ↔ 16 + 8 * 9 ≤ alloc.len ∧ call.Overflows := by
  have hstage : ∀ alloc, PanicsAt (AllocCall.stage (.syscall call)) alloc ↔ call.Overflows := call.stage_panics_iff
  have hkind : (AllocCall.syscall call).kind.usizeCount = 9 := rfl
  rw [StagedCall.stage_panics_iff hstage haligned (by rw [hkind]; decide), hkind]

theorem Call.request_eq_panic {buf : BlockBuf} {mem : Mem} {call : Call} :
    call.request buf mem = .error .panic ↔
      2 ≤ buf.count ∧ PanicsAt (call.stage mem) ⟨buf.base, 8 * buf.count - 16, 0⟩ := by
  have hpanics : call.request buf mem = .error .panic ↔
      PanicsAt (reserveLayout headerLayout («section» (call.stage mem))) ⟨buf.base, 8 * buf.count, 0⟩ := by
    unfold Call.request PanicsAt
    rcases reserveLayout headerLayout («section» (call.stage mem)) ⟨buf.base, 8 * buf.count, 0⟩ with
      ⟨abort | ⟨⟨staged, len⟩, endRef⟩, final⟩
    · simp
    · simp
  have hlayout : headerLayout.size = 16 := rfl
  have hpad : 2 ≤ buf.count → alignOffset (buf.base + (8 * buf.count - 16)) headerLayout.align = 0 := by
    intro hcount
    have haligned := buf.aligned
    exact alignOffset_eq_zero_of_dvd (show 8 ∣ _ by omega)
  rw [hpanics, PanicsAt.reserve_iff, PanicsAt.section_iff]
  simp only [hlayout]
  constructor
  · rintro ⟨hroom, -, hstage⟩
    rw [hpad (by omega)] at hstage
    exact ⟨by omega, hstage⟩
  · rintro ⟨hroom, hstage⟩
    rw [hpad hroom]
    exact ⟨by omega, Nat.zero_le _, hstage⟩

/-- A call panics when it has room for its header and its registers and the slices are too long. -/
theorem Call.request_panics_iff (buf : BlockBuf) (mem : Mem) (call : Syscall) :
    (Call.alloc (.syscall call)).request buf mem = .error .panic ↔ 13 ≤ buf.count ∧ call.Overflows := by
  have hstage : ∀ alloc, PanicsAt (StagedCall.stage (.syscall call)) ⟨buf.base, alloc, 0⟩ ↔
      16 + 8 * 9 ≤ alloc ∧ call.Overflows := fun _ => call.stagedCall_panics_iff buf.aligned
  rw [Call.request_eq_panic]
  change _ ∧ PanicsAt (StagedCall.stage (.syscall call)) _ ↔ _
  rw [hstage]
  constructor
  · rintro ⟨hcount, hroom, hover⟩
    exact ⟨by omega, hover⟩
  · rintro ⟨hcount, hover⟩
    exact ⟨by omega, by omega, hover⟩

theorem MaybeAlloc.request_ne_panic (buf : BlockBuf) (mem : Mem) (call : MaybeAlloc) :
    (Call.maybeAlloc call).request buf mem ≠ .error .panic := by
  rw [ne_eq, Call.request_eq_panic]
  rintro ⟨-, h⟩
  rcases PanicsAt.bind_iff.mp h with h | ⟨unstaged, middle, hunstaged, h⟩
  · cases hunstaged : call.unstaged mem with
    | error errno =>
      rw [hunstaged] at h
      cases h
    | ok unstaged =>
      rw [hunstaged] at h
      cases h
  · rw [Exec.lift_apply, Prod.mk.injEq] at hunstaged
    obtain ⟨-, rfl⟩ := hunstaged
    cases unstaged with
    | stub val => exact PanicsAt.not_pure _ h
    | alloc =>
      have hover : ¬call.toAlloc.Overflows := by cases call <;> exact id
      rcases PanicsAt.bind_iff.mp h with h | ⟨_, _, -, h⟩
      · exact hover ((call.toAlloc.stagedCall_panics_iff buf.aligned).mp h).2
      · exact PanicsAt.not_pure _ h

theorem Stub.request_ne_panic (buf : BlockBuf) (mem : Mem) (stub : Stub) :
    (Call.stub stub).request buf mem ≠ .error .panic := by
  rw [ne_eq, Call.request_eq_panic]
  rintro ⟨-, h⟩
  exact PanicsAt.not_pure _ h

end Enarx.Sallyport
