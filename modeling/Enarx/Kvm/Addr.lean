import Mathlib.Data.List.Basic
import Mathlib.Data.Nat.Bitwise
import Mathlib.Tactic.Ring

/-!
# Addresses in the KVM shim

Virtual and physical addresses with the checks that `x86_64` makes when one is
built, the C-bit that marks encrypted memory, and the window at the end of the
address space in which the shim sees all physical memory. `none` is a panic.
-/
namespace Enarx.Kvm

instance neZero512 : NeZero 512 := ⟨by decide⟩

/-- Physical address + `SHIM_VIRT_OFFSET` = shim virtual address. -/
def SHIM_VIRT_OFFSET : Nat := 0xFFFFFF8000000000

def SIZE_4_KIB : Nat := 0x1000

def BYTES_2_MIB : Nat := 0x200000

def BYTES_1_GIB : Nat := 0x40000000

@[ext] structure VirtAddr where
  raw : Nat
  canonical : raw < 2 ^ 47 ∨ 2 ^ 64 - 2 ^ 47 ≤ raw ∧ raw < 2 ^ 64
  deriving DecidableEq, Repr

def EXEC_BRK_VIRT_ADDR_BASE : VirtAddr := ⟨0x555500000000, .inl (by decide)⟩

def EXEC_ELF_VIRT_ADDR_BASE : VirtAddr := ⟨0x7f0000000000, .inl (by decide)⟩

namespace VirtAddr

theorem raw_lt (addr : VirtAddr) : addr.raw < 2 ^ 64 := by
  have := addr.canonical
  omega

/-- `VirtAddr::new`. Bit 47 is extended when no bit above it is set. -/
def new (raw : Nat) : Option VirtAddr :=
  if h : raw < 2 ^ 47 then some ⟨raw, .inl h⟩
  else if h : raw < 2 ^ 48 then some ⟨raw + (2 ^ 64 - 2 ^ 48), .inr (by omega)⟩
  else if h : 2 ^ 64 - 2 ^ 47 ≤ raw ∧ raw < 2 ^ 64 then some ⟨raw, .inr h⟩
  else none

@[simp] theorem new_raw (addr : VirtAddr) : new addr.raw = some addr := by
  have := addr.canonical
  unfold new
  split
  · rfl
  · rw [dif_neg (by omega), dif_pos (by omega)]

variable {addr : VirtAddr} {offset : Nat}

theorem raw_of_new {raw : Nat} (h : new raw = some addr) :
    addr.raw = raw ∨ (2 ^ 47 ≤ raw ∧ raw < 2 ^ 48) ∧ addr.raw = raw + (2 ^ 64 - 2 ^ 48) := by
  rw [new] at h
  split at h
  · cases h
    exact .inl rfl
  · next hlow =>
    split at h
    · next hlt =>
      cases h
      exact .inr ⟨⟨Nat.le_of_not_lt hlow, hlt⟩, rfl⟩
    · split at h
      · cases h
        exact .inl rfl
      · cases h

/-- `VirtAddr + u64`. The addition wraps, as `x86_64` is built without overflow checks. -/
def add (addr : VirtAddr) (offset : Nat) : Option VirtAddr := new ((addr.raw + offset) % 2 ^ 64)

def sub (addr : VirtAddr) (offset : Nat) : Option VirtAddr :=
  if offset ≤ addr.raw then new (addr.raw - offset) else none

def p4Index (addr : VirtAddr) : Fin 512 := ⟨addr.raw / 2 ^ 39 % 512, Nat.mod_lt _ (by decide)⟩

def p3Index (addr : VirtAddr) : Fin 512 := ⟨addr.raw / 2 ^ 30 % 512, Nat.mod_lt _ (by decide)⟩

def p2Index (addr : VirtAddr) : Fin 512 := ⟨addr.raw / 2 ^ 21 % 512, Nat.mod_lt _ (by decide)⟩

def p1Index (addr : VirtAddr) : Fin 512 := ⟨addr.raw / 2 ^ 12 % 512, Nat.mod_lt _ (by decide)⟩

def path (addr : VirtAddr) : List (Fin 512) :=
  [addr.p4Index, addr.p3Index, addr.p2Index, addr.p1Index]

def page (addr : VirtAddr) : Nat := addr.raw / SIZE_4_KIB

theorem length_path (addr : VirtAddr) : addr.path.length = 4 := rfl

theorem path_eq_iff {a b : VirtAddr} : a.path = b.path ↔ a.page = b.page := by
  have ha := a.canonical
  have hb := b.canonical
  simp only [path, p4Index, p3Index, p2Index, p1Index, page, SIZE_4_KIB, List.cons.injEq,
    Fin.mk.injEq, and_true]
  omega

theorem sub_offset_lt (addr : VirtAddr) : addr.raw - SHIM_VIRT_OFFSET < 2 ^ 39 := by
  have := addr.raw_lt
  unfold SHIM_VIRT_OFFSET
  omega

/-- Addresses of the window in which the shim sees physical memory. -/
def InWindow (addr : VirtAddr) : Prop := SHIM_VIRT_OFFSET ≤ addr.raw

instance (addr : VirtAddr) : Decidable addr.InWindow := inferInstanceAs (Decidable (_ ≤ _))

theorem inWindow_iff : addr.InWindow ↔ addr.p4Index = 511 := by
  have hcanonical := addr.canonical
  rw [InWindow, SHIM_VIRT_OFFSET, p4Index, Fin.ext_iff]
  change _ ↔ addr.raw / 2 ^ 39 % 512 = 511
  omega

theorem add_eq {sum : VirtAddr} (h : addr.raw + offset = sum.raw) : addr.add offset = some sum := by
  have := sum.raw_lt
  rw [add, Nat.mod_eq_of_lt (by omega), h, new_raw]

theorem exists_add (h : addr.InWindow) (hlt : addr.raw + offset < 2 ^ 64) :
    ∃ sum : VirtAddr, sum.raw = addr.raw + offset ∧ addr.add offset = some sum ∧ sum.InWindow := by
  have hwindow : SHIM_VIRT_OFFSET = 2 ^ 64 - 2 ^ 39 := by decide
  unfold InWindow at h
  exact ⟨⟨addr.raw + offset, .inr (by omega)⟩, rfl, add_eq rfl,
    Nat.le_trans h (Nat.le_add_right _ _)⟩

theorem exists_sub_offset (h : addr.InWindow) : ∃ virt : VirtAddr, virt.raw = addr.raw - SHIM_VIRT_OFFSET ∧
      addr.sub SHIM_VIRT_OFFSET = some virt := by
  have hlt := addr.sub_offset_lt
  let virt : VirtAddr := ⟨addr.raw - SHIM_VIRT_OFFSET, .inl (by omega)⟩
  refine ⟨virt, rfl, (if_pos h).trans ?_⟩
  exact new_raw virt

end VirtAddr

@[ext] structure PhysAddr where
  raw : Nat
  valid : raw < 2 ^ 52
  deriving DecidableEq, Repr

namespace PhysAddr

/-- `PhysAddr::new`. -/
def new (raw : Nat) : Option PhysAddr := if h : raw < 2 ^ 52 then some ⟨raw, h⟩ else none

@[simp] theorem new_raw (addr : PhysAddr) : new addr.raw = some addr := dif_pos addr.valid

def add (addr : PhysAddr) (offset : Nat) : Option PhysAddr := new ((addr.raw + offset) % 2 ^ 64)

variable {addr sum : PhysAddr} {offset : Nat}

theorem add_eq (h : addr.raw + offset = sum.raw) : addr.add offset = some sum := by
  have := sum.valid
  rw [add, Nat.mod_eq_of_lt (by omega), h, new_raw]

theorem raw_of_new {raw : Nat} (h : PhysAddr.new raw = some addr) : addr.raw = raw := by
  rw [PhysAddr.new] at h
  split at h
  · cases h
    rfl
  · cases h

theorem raw_of_add (h : addr.add offset = some sum)
    (hoffset : offset < 2 ^ 63) : sum.raw = addr.raw + offset := by
  have hvalid := addr.valid
  have hraw := raw_of_new h
  omega

end PhysAddr

def andNot (value mask : Nat) : Nat := value &&& (2 ^ 64 - 1 - mask)

/-- The mask of the C-bit, zero without memory encryption. The bit is above the memory that
fits in the window of the shim. -/
structure CBit where
  mask : Nat
  position : mask = 0 ∨ ∃ k, 39 ≤ k ∧ k < 52 ∧ mask = 2 ^ k

namespace CBit

def bit51 : CBit := ⟨2 ^ 51, .inr ⟨51, by decide, by decide, rfl⟩⟩

variable (c : CBit) {pa : Nat}

theorem mask_lt : c.mask < 2 ^ 52 := by
  rcases c.position with h | ⟨k, -, hk, h⟩
  · rw [h]
    decide
  · rw [h]
    exact Nat.pow_lt_pow_right (by decide) hk

theorem dvd_mask : 2 ^ 39 ∣ c.mask := by
  rcases c.position with h | ⟨k, hk, -, h⟩
  · rw [h]
    exact Nat.dvd_zero _
  · rw [h]
    exact Nat.pow_dvd_pow 2 hk

theorem add_mask_lt (h : pa < 2 ^ 39) : pa + c.mask < 2 ^ 52 := by
  rcases c.position with hc | ⟨k, -, hk, hc⟩
  · omega
  · have : 2 ^ k ≤ 2 ^ 51 := Nat.pow_le_pow_right (by decide) (by omega)
    omega

theorem dvd_add_mask {size : Nat} (hsize : size ∣ 2 ^ 39) : size ∣ pa + c.mask ↔ size ∣ pa :=
  Nat.dvd_add_iff_left (Nat.dvd_trans hsize c.dvd_mask) |>.symm

theorem or_mask (h : pa < 2 ^ 39) : pa ||| c.mask = pa + c.mask := by
  rcases c.position with hc | ⟨k, hk, -, hc⟩
  · rw [hc, Nat.or_zero, Nat.add_zero]
  · have hlt : pa < 2 ^ k := Nat.lt_of_lt_of_le h (Nat.pow_le_pow_right (by decide) hk)
    have hor := Nat.two_pow_add_eq_or_of_lt hlt 1
    rw [Nat.mul_one] at hor
    rw [hc, Nat.or_comm, Nat.add_comm, hor]

theorem testBit_mask (i : Nat) (h : c.mask.testBit i = true) : 39 ≤ i ∧ i < 52 := by
  rcases c.position with hc | ⟨k, hk, hk', hc⟩
  · rw [hc, Nat.zero_testBit] at h
    cases h
  · rw [hc, Nat.testBit_two_pow] at h
    have : k = i := by simpa using h
    omega

theorem and_mask (h : pa < 2 ^ 39) : pa &&& c.mask = 0 := by
  apply Nat.eq_of_testBit_eq
  intro i
  rw [Nat.testBit_and, Nat.zero_testBit]
  by_cases hi : c.mask.testBit i = true
  · rw [Nat.testBit_lt_two_pow (Nat.lt_of_lt_of_le h
      (Nat.pow_le_pow_right (by decide) (c.testBit_mask i hi).1)), Bool.false_and]
  · simp [hi]

theorem add_mask_and (h : pa < 2 ^ 39) : (pa + c.mask) &&& c.mask = c.mask := by
  rw [← c.or_mask h, Nat.and_or_distrib_right, c.and_mask h, Nat.zero_or, Nat.and_self]

theorem testBit_not_mask (i : Nat) :
    (2 ^ 64 - 1 - c.mask).testBit i = (decide (i < 64) && !c.mask.testBit i) := by
  have hlt : c.mask < 2 ^ 64 := Nat.lt_trans c.mask_lt (by decide)
  rw [show 2 ^ 64 - 1 - c.mask = 2 ^ 64 - (c.mask + 1) by omega, Nat.testBit_two_pow_sub_succ hlt]

theorem andNot_mask (h : pa < 2 ^ 39) : andNot pa c.mask = pa := by
  apply Nat.eq_of_testBit_eq
  intro i
  rw [andNot, Nat.testBit_and, testBit_not_mask]
  by_cases hi : i < 39
  · have hmask : c.mask.testBit i = false := by
      by_contra hset
      have := (c.testBit_mask i (by simpa using hset)).1
      omega
    simp [hmask, show i < 64 by omega]
  · rw [Nat.testBit_lt_two_pow (Nat.lt_of_lt_of_le h (Nat.pow_le_pow_right (by decide) (by omega))),
      Bool.false_and]

theorem andNot_add_mask (h : pa < 2 ^ 39) : andNot (pa + c.mask) c.mask = pa := by
  rw [← c.or_mask h, andNot, Nat.and_or_distrib_right]
  have hself : c.mask &&& (2 ^ 64 - 1 - c.mask) = 0 := by
    apply Nat.eq_of_testBit_eq
    intro i
    rw [Nat.testBit_and, testBit_not_mask, Nat.zero_testBit]
    cases c.mask.testBit i <;> simp
  rw [hself, Nat.or_zero]
  exact c.andNot_mask h

end CBit

/-- `EncPhysOffset::frame_to_pointer`: the C-bit has to be set. -/
def frameToPointer (c : CBit) (frame : PhysAddr) : Option VirtAddr :=
  if frame.raw &&& c.mask = c.mask then
    VirtAddr.new ((SHIM_VIRT_OFFSET + andNot frame.raw c.mask) % 2 ^ 64)
  else
    none

theorem frameToPointer_eq (c : CBit) {frame : PhysAddr} {ptr : VirtAddr} (hptr : ptr.InWindow)
    (h : frame.raw = ptr.raw - SHIM_VIRT_OFFSET + c.mask) : frameToPointer c frame = some ptr := by
  have hwindow : SHIM_VIRT_OFFSET = 2 ^ 64 - 2 ^ 39 := by decide
  have hlt := ptr.raw_lt
  unfold VirtAddr.InWindow at hptr
  have hpa : ptr.raw - SHIM_VIRT_OFFSET < 2 ^ 39 := by omega
  rw [frameToPointer, h, if_pos (c.add_mask_and hpa), c.andNot_add_mask hpa,
    Nat.add_sub_cancel' hptr, Nat.mod_eq_of_lt hlt, VirtAddr.new_raw]

end Enarx.Kvm
