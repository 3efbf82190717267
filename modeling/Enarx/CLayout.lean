import Mathlib.Data.List.Basic
import Mathlib.Tactic.Ring

/-!
# Layouts of C objects

Size and alignment arithmetic: the offset to the next aligned address, and the
layout of arrays and of `repr(C)` structures.
-/
namespace Enarx

def alignOffset (addr align : Nat) : Nat := (align - addr % align) % align

theorem alignOffset_lt (addr : Nat) {align : Nat} (h : 0 < align) : alignOffset addr align < align :=
  Nat.mod_lt _ h

theorem align_dvd_add_alignOffset (addr : Nat) {align : Nat} (h : 0 < align) :
    align ∣ addr + alignOffset addr align := by
  have hlt := Nat.mod_lt addr h
  have hdiv := Nat.mod_add_div addr align
  unfold alignOffset
  rcases Nat.eq_zero_or_pos (addr % align) with hzero | hpos
  · rw [hzero, Nat.sub_zero, Nat.mod_self, Nat.add_zero]
    exact Nat.dvd_of_mod_eq_zero hzero
  · rw [Nat.mod_eq_of_lt (by omega)]
    exact ⟨addr / align + 1, by rw [Nat.mul_add]; omega⟩

theorem alignOffset_eq_zero_of_dvd {addr align : Nat} (h : align ∣ addr) : alignOffset addr align = 0 := by
  unfold alignOffset
  rw [Nat.mod_eq_zero_of_dvd h, Nat.sub_zero, Nat.mod_self]

theorem add_alignOffset_le_iff {addr bound align : Nat} (hpos : 0 < align) :
    addr + alignOffset addr align ≤ bound ↔ addr ≤ bound / align * align := by
  have hlt := alignOffset_lt addr hpos
  obtain ⟨next, hnext⟩ := align_dvd_add_alignOffset addr hpos
  rw [hnext]
  constructor
  · intro hle
    have hquot : next ≤ bound / align := (Nat.le_div_iff_mul_le hpos).mpr (Nat.mul_comm align next ▸ hle)
    have hmul := Nat.mul_le_mul_right align hquot
    rw [Nat.mul_comm next] at hmul
    omega
  · intro hle
    -- the next multiple after `addr` is not after a multiple that is not before `addr`
    have hquot : next ≤ bound / align := by
      by_contra hmore
      have hmul := Nat.mul_le_mul_right align (Nat.not_le.mp hmore)
      rw [Nat.succ_mul, Nat.mul_comm next] at hmul
      omega
    exact (Nat.mul_comm align next ▸ Nat.mul_le_mul_right align hquot).trans (Nat.div_mul_le_self _ _)

/-- A block of memory requested from an allocator; alignments are powers of two. -/
structure Layout where
  size : Nat
  align : Nat
  align_pow : ∃ k, align = 2 ^ k

namespace Layout

theorem align_pos (layout : Layout) : 0 < layout.align := by
  obtain ⟨k, hk⟩ := layout.align_pow
  rw [hk]
  exact Nat.two_pow_pos k

theorem align_dvd_two_pow (layout : Layout) {n : Nat} (h : layout.align ≤ 2 ^ n) : layout.align ∣ 2 ^ n := by
  obtain ⟨k, hk⟩ := layout.align_pow
  rw [hk] at h ⊢
  exact Nat.pow_dvd_pow 2 ((Nat.pow_le_pow_iff_right (by decide)).mp h)

def array (element : Layout) (len : Nat) : Layout where
  size := element.size * len
  align := element.align
  align_pow := element.align_pow

@[simp] theorem array_one (element : Layout) : element.array 1 = element := by
  cases element
  simp only [array, Nat.mul_one]

def extend (fields next : Layout) : Layout where
  size := fields.size + alignOffset fields.size next.align + next.size
  align := max fields.align next.align
  align_pow := by
    rcases Nat.le_total fields.align next.align with h | h
    · rw [Nat.max_eq_right h]; exact next.align_pow
    · rw [Nat.max_eq_left h]; exact fields.align_pow

def padToAlign (fields : Layout) : Layout where
  size := fields.size + alignOffset fields.size fields.align
  align := fields.align
  align_pow := fields.align_pow

def empty : Layout := ⟨0, 1, 0, rfl⟩

def reprC (fields : List Layout) : Layout := (fields.foldl extend empty).padToAlign

def u8 : Layout := ⟨1, 1, 0, rfl⟩
def u16 : Layout := ⟨2, 2, 1, rfl⟩
def u32 : Layout := ⟨4, 4, 2, rfl⟩
def u64 : Layout := ⟨8, 8, 3, rfl⟩

end Layout

end Enarx
