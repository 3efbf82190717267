import Enarx.Sallyport.Allocation

/-!
# Reservations

`reserve_layout` keeps room for a layout aside while a callback allocates. The
room is measured from the end of the buffer, the layout is placed where the
callback stopped.
-/
namespace Enarx.Sallyport

open Libc

variable {α : Type}

/-- Where the last object of the layout can end up, if there is room for one. -/
def lastPlace (layout : Layout) (alloc : Alloc) : Nat :=
  (alloc.ptr + (alloc.len - layout.size)) / layout.align * layout.align

def HasRoom (layout : Layout) (alloc : Alloc) : Prop :=
  layout.size ≤ alloc.len ∧ alloc.ptr ≤ lastPlace layout alloc

/-- `pad_size` in `reserve_layout`: the way from the last possible start to the next aligned
address. -/
def reservePad (layout : Layout) (alloc : Alloc) : Nat :=
  alignOffset (alloc.ptr + (alloc.len - layout.size)) layout.align % layout.align

/-- The allocator that `reserve_layout` gives to the callback, if it gets that far. -/
def reduced (layout : Layout) (alloc : Alloc) : Option Alloc :=
  if alloc.len < layout.size then none
  else if alloc.len - layout.size < reservePad layout alloc then none
  else some { alloc with len := alloc.len - layout.size - reservePad layout alloc }

/-- If there is room and the callback succeeds in what it is given, then it is called and the
layout is placed in the buffer. -/
def KeepsPromise (start : Nat) (alloc : Alloc) (layout : Layout) (callback : Program α) : Prop :=
  HasRoom layout alloc →
  (∀ given ∈ reduced layout alloc, ∃ value, (callback.run start given).result = .ok value) →
  ∃ given ∈ reduced layout alloc, ∃ value region,
    (callback.run start given).result = .ok value ∧
    ((Program.reserve layout callback).run start alloc).result = .ok (value, region) ∧
    layout.align ∣ region.ptr ∧ region.ptr + layout.size ≤ alloc.ptr + alloc.len

/-- The pad fits, and it is not shorter than the way back to the last place. -/
def PadsBack (layout : Layout) (alloc : Alloc) : Prop :=
  reservePad layout alloc ≤ alloc.len - layout.size ∧
    2 * ((alloc.ptr + (alloc.len - layout.size)) % layout.align) ≤ layout.align

variable {start : Nat} {alloc : Alloc} {layout : Layout}

theorem reduced_eq_some {given : Alloc} (h : given ∈ reduced layout alloc) :
    layout.size ≤ alloc.len ∧ reservePad layout alloc ≤ alloc.len - layout.size ∧
      given = { alloc with len := alloc.len - layout.size - reservePad layout alloc } := by
  unfold reduced at h
  split at h
  · cases h
  · split at h
    · cases h
    · cases h
      exact ⟨by omega, by omega, rfl⟩

theorem reduced_of_le (hsize : layout.size ≤ alloc.len)
    (hpad : reservePad layout alloc ≤ alloc.len - layout.size) : reduced layout alloc =
      some { alloc with len := alloc.len - layout.size - reservePad layout alloc } := by
  rw [reduced, if_neg (by omega), if_neg (by omega)]

theorem run_reserve {callback : Program α} {given : Alloc} {value : α}
    (hgiven : given ∈ reduced layout alloc) (hrun : (callback.run start given).result = .ok value) :
    ((Program.reserve layout callback).run start alloc).result =
      (allocateLayout layout { (callback.run start given).alloc with
        len := (callback.run start given).alloc.len + reservePad layout alloc + layout.size }).1.map
        (value, ·) := by
  obtain ⟨hsize, hpad, heq⟩ := reduced_eq_some hgiven
  have hcallback : Run.callback (callback.run start) given =
      (.ok (value, (callback.run start given).handed), (callback.run start given).alloc) := by
    rw [Run.callback, hrun]
    rfl
  have hpadSize : alignOffset (alloc.ptr + (alloc.len - layout.size)) layout.align % layout.align =
      reservePad layout alloc := rfl
  rw [Program.run, reserveLayout, if_neg (by omega)]
  simp only [hpadSize]
  rw [if_neg (by omega), ← heq, hcallback]
  dsimp only
  rcases allocateLayout layout _ with ⟨abort | region, after⟩ <;> rfl

theorem allocateLayout_of_le (hlen : alloc.len < 2 ^ 64)
    (h : alignOffset alloc.ptr layout.align + layout.size ≤ alloc.len) : (allocateLayout layout alloc).1 =
      .ok ⟨alloc.ptr + alignOffset alloc.ptr layout.align,
        alloc.offset + alignOffset alloc.ptr layout.align⟩ := by
  unfold allocateLayout
  rw [if_neg (by omega), if_neg (by omega)]

theorem le_of_allocateLayout {region : Region} (h : (allocateLayout layout alloc).1 = .ok region) :
    alignOffset alloc.ptr layout.align + layout.size ≤ alloc.len := by
  unfold allocateLayout at h
  simp only at h
  split at h
  · cases h
  · split at h
    · cases h
    · omega

theorem keepsPromise_iff (hstart : start + alloc.offset = alloc.ptr) (hlen : alloc.len < 2 ^ 63)
    (callback : Program α) : KeepsPromise start alloc layout callback ↔ (HasRoom layout alloc →
        (∀ given ∈ reduced layout alloc, ∃ value, (callback.run start given).result = .ok value) →
        ∃ given ∈ reduced layout alloc, (callback.run start given).alloc.ptr ≤ lastPlace layout alloc) := by
  unfold KeepsPromise
  apply imp_congr_right
  intro hroom
  apply imp_congr_right
  intro hok
  apply exists_congr
  intro given
  apply and_congr_right
  intro hgiven
  obtain ⟨value, hvalue⟩ := hok given hgiven
  obtain ⟨hsize, hpad, heq⟩ := reduced_eq_some hgiven
  have hsound := callback.run_sound start given (by rw [heq]; exact hstart)
  have hfinish := hsound.finish_eq
  have hptr := hsound.ptr_le
  have hgivenLen : given.ptr + given.len =
      alloc.ptr + (alloc.len - layout.size - reservePad layout alloc) := by rw [heq]
  have hgivenPtr : given.ptr = alloc.ptr := by rw [heq]
  generalize hlast : (callback.run start given).alloc = last at hfinish hptr
  -- the layout fits behind the callback exactly if its start does not pass the last possible one
  have hiff : alignOffset last.ptr layout.align + layout.size ≤
      last.len + reservePad layout alloc + layout.size ↔ last.ptr ≤ lastPlace layout alloc := by
    rw [lastPlace, ← add_alignOffset_le_iff layout.align_pos]
    omega
  have hreserve := run_reserve hgiven hvalue
  rw [hlast] at hreserve
  rw [← hiff]
  constructor
  · rintro ⟨value', region, -, hresult, -⟩
    rw [hreserve] at hresult
    rcases hplaced : (allocateLayout layout
        { last with len := last.len + reservePad layout alloc + layout.size }).1 with abort | placed
    · rw [hplaced] at hresult
      cases hresult
    · exact le_of_allocateLayout hplaced
  · intro hle
    have hlarge : ({ last with len := last.len + reservePad layout alloc + layout.size } : Alloc).len <
        2 ^ 64 := by
      simp only
      omega
    have hplaced := allocateLayout_of_le hlarge hle
    rw [hplaced] at hreserve
    refine ⟨value, _, hvalue, hreserve, align_dvd_add_alignOffset _ layout.align_pos, ?_⟩
    simp only
    omega

theorem mod_le_reservePad (h : PadsBack layout alloc) :
    (alloc.ptr + (alloc.len - layout.size)) % layout.align ≤ reservePad layout alloc := by
  have hpos := layout.align_pos
  have hhalf := h.2
  unfold reservePad alignOffset
  generalize (alloc.ptr + (alloc.len - layout.size)) % layout.align = back at hhalf ⊢
  rcases Nat.eq_zero_or_pos back with rfl | hback
  · exact Nat.zero_le _
  · rw [Nat.mod_mod, Nat.mod_eq_of_lt (by omega)]
    omega

theorem padsBack_of_le (hpad : reservePad layout alloc ≤ alloc.len - layout.size)
    (h : (alloc.ptr + (alloc.len - layout.size)) % layout.align ≤ reservePad layout alloc) :
    PadsBack layout alloc := by
  refine ⟨hpad, ?_⟩
  have hpos := layout.align_pos
  have hlt := Nat.mod_lt (alloc.ptr + (alloc.len - layout.size)) hpos
  unfold reservePad alignOffset at h
  generalize (alloc.ptr + (alloc.len - layout.size)) % layout.align = back at h hlt ⊢
  rcases Nat.eq_zero_or_pos back with rfl | hback
  · omega
  · rw [Nat.mod_mod, Nat.mod_eq_of_lt (by omega)] at h
    omega

theorem lastPlace_add_mod (layout : Layout) (alloc : Alloc) :
    lastPlace layout alloc + (alloc.ptr + (alloc.len - layout.size)) % layout.align =
      alloc.ptr + (alloc.len - layout.size) :=
  Nat.div_add_mod' _ _

def fill (given : Alloc) : Program Region := .allocate ⟨given.len, 1, Layout.empty.align_pow⟩

theorem run_fill (start : Nat) (given : Alloc) (hlen : given.len < 2 ^ 64) :
    (∃ region, ((fill given).run start given).result = .ok region) ∧
      ((fill given).run start given).alloc.ptr = given.ptr + given.len := by
  have hpad : alignOffset given.ptr 1 = 0 := alignOffset_eq_zero_of_dvd (one_dvd _)
  rw [fill, Program.run, allocateLayout]
  simp only [hpad]
  rw [if_neg (by omega), if_neg (by omega)]
  exact ⟨⟨_, rfl⟩, rfl⟩

/-- The promise is kept for a callback exactly if it is called and stops at or before the last
place; it is kept for every callback exactly if the pad reaches back to the last place. -/
theorem reserve_keeps_promise_iff (start : Nat) (alloc : Alloc) (layout : Layout)
    (hstart : start + alloc.offset = alloc.ptr) (hlen : alloc.len < 2 ^ 63) :
    (∀ (α : Type) (callback : Program α), KeepsPromise start alloc layout callback ↔ (HasRoom layout alloc →
        (∀ given ∈ reduced layout alloc, ∃ value, (callback.run start given).result = .ok value) →
        ∃ given ∈ reduced layout alloc,
          (callback.run start given).alloc.ptr ≤ lastPlace layout alloc)) ∧
    ((∀ (α : Type) (callback : Program α), KeepsPromise start alloc layout callback) ↔
      (HasRoom layout alloc → PadsBack layout alloc)) := by
  have hone (α : Type) (callback : Program α) :
      KeepsPromise start alloc layout callback ↔ _ := keepsPromise_iff hstart hlen callback
  refine ⟨hone, ?_, ?_⟩
  · intro hall hroom
    obtain ⟨given, hgiven, -⟩ := hall Unit (.done (.ok ())) hroom fun _ _ => ⟨(), rfl⟩
    obtain ⟨-, hpad, heq⟩ := reduced_eq_some hgiven
    have hgivenLen : given.len = alloc.len - layout.size - reservePad layout alloc := by rw [heq]
    have hgivenPtr : given.ptr = alloc.ptr := by rw [heq]
    obtain ⟨hok, hstop⟩ := run_fill start given (by omega)
    obtain ⟨same, hsame, hle⟩ := (hone Region (fill given)).mp (hall Region (fill given)) hroom
      fun other hother => Option.mem_unique hgiven hother ▸ hok
    cases Option.mem_unique hgiven hsame
    have hlast := lastPlace_add_mod layout alloc
    exact padsBack_of_le hpad (by omega)
  · intro hpads α callback
    rw [hone]
    intro hroom hok
    have hback := hpads hroom
    have hreduced := reduced_of_le hroom.1 hback.1
    refine ⟨_, hreduced, ?_⟩
    have hsound := callback.run_sound start
      { alloc with len := alloc.len - layout.size - reservePad layout alloc } hstart
    have hfinish := hsound.finish_eq
    have hpad := mod_le_reservePad hback
    have hlast := lastPlace_add_mod layout alloc
    have hle := hback.1
    simp only at hfinish
    omega

theorem reserve_keeps_promise_word : PadsBack .u64 ⟨4096, 24, 0⟩ ∧
      ∀ callback : Program Region, KeepsPromise 4096 ⟨4096, 24, 0⟩ .u64 callback := by
  have hback : PadsBack .u64 ⟨4096, 24, 0⟩ := by
    unfold PadsBack
    decide
  exact ⟨hback, (reserve_keeps_promise_iff 4096 ⟨4096, 24, 0⟩ .u64 rfl (by decide)).2.mpr
    (fun _ => hback) Region⟩

/-- In a buffer of 21 bytes a word has room, but not behind a callback that uses the 10 bytes it is
given; in one of 9 bytes it has room and the callback is not even called. -/
theorem reserve_breaks_promise : ¬KeepsPromise 4096 ⟨4096, 21, 0⟩ .u64 (.allocate ⟨10, 1, 0, rfl⟩) ∧
    ¬KeepsPromise 4096 ⟨4096, 9, 0⟩ .u64 (.done (.ok ())) := by
  constructor
  · intro h
    have hroom : HasRoom .u64 ⟨4096, 21, 0⟩ := by
      unfold HasRoom
      decide
    obtain ⟨_, _, _, _, _, hresult, _⟩ := h hroom fun given hgiven => by
      cases hgiven
      exact ⟨⟨4096, 0⟩, rfl⟩
    have hfails : ((Program.reserve .u64 (.allocate ⟨10, 1, 0, rfl⟩)).run 4096 ⟨4096, 21, 0⟩).result =
      .error (.err ENOMEM) := rfl
    cases hfails.symm.trans hresult
  · intro h
    have hroom : HasRoom .u64 ⟨4096, 9, 0⟩ := by
      unfold HasRoom
      decide
    obtain ⟨given, hgiven, _⟩ := h hroom fun _ _ => ⟨(), rfl⟩
    cases hgiven

end Enarx.Sallyport
