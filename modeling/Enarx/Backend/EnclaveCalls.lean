import Enarx.Backend.Replies

/-!
# What the host does to the memory of an enclave

The guest asks the host to change the mapping and the pages of the enclave. The
words come from the untrusted block; the checks of `sgx_enarxcall` are made with
wrapping arithmetic.
-/
namespace Enarx.Backend

open Sallyport Sallyport.Libc Sallyport.Host

inductive KernelAction where
  | mprotect (addr len : Word) (prot : CInt)
  | munmap (addr len : Word)
  | restrictPermissions (offset len permissions : Word)
  | removePages (offset len : Word)
  | modifyTypes (offset len pageType : Word)
  deriving DecidableEq, Repr

def PROT_READ : Word := 1

def pageTypeTrim : Word := 4

namespace SgxHost

variable (host : SgxHost)

def actions (num : EnarxNumber) (addr len prot : Word) : List KernelAction :=
  match num with
  | .mprotectHost =>
    if host.outOfRange addr len then []
    else
      match host.mprotect with
      | .error _ => [.mprotect addr len (usizeAsInt prot)]
      | .ok () => [.mprotect addr len (usizeAsInt prot),
          .restrictPermissions (addr - host.memAddr) len PROT_READ]
  | .munmapHost =>
    if host.outOfRange addr len then []
    else [.munmap addr len, .removePages (addr - host.memAddr) len]
  | .trimSgxPages => [.modifyTypes (addr - host.memAddr) len pageTypeTrim]
  | _ => []

def InEnclave (addr len : Word) : Prop :=
  host.memAddr.toNat ≤ addr.toNat ∧
    addr.toNat + len.toNat ≤ host.memAddr.toNat + host.memSize.toNat

def Confined (addr : Word) : KernelAction → Prop
  | .mprotect start len _ | .munmap start len => start = addr ∧ host.InEnclave start len
  | .restrictPermissions offset len _ | .removePages offset len | .modifyTypes offset len _ =>
    host.memAddr.toNat + offset.toNat = addr.toNat ∧ host.InEnclave addr len

/-- The check refuses a range whose end wraps; pages to trim would pass the check, and their end
does not wrap. -/
def Covers (num : EnarxNumber) (addr len : Word) : Prop :=
  match num with
  | .mprotectHost | .munmapHost =>
    2 ^ 64 ≤ addr.toNat + len.toNat → host.outOfRange addr len = true
  -- there is no check
  | .trimSgxPages => host.outOfRange addr len = false ∧ addr.toNat + len.toNat < 2 ^ 64
  | _ => True

variable {host} {addr len prot : Word}

theorem outOfRange_eq_false_iff (hmem : host.memAddr.toNat + host.memSize.toNat < 2 ^ 64) :
    host.outOfRange addr len = false ↔ host.memAddr.toNat ≤ addr.toNat ∧
      (addr.toNat + len.toNat) % 2 ^ 64 ≤ host.memAddr.toNat + host.memSize.toNat := by
  have hend : (host.memAddr + host.memSize).toNat = host.memAddr.toNat + host.memSize.toNat := by
    rw [BitVec.toNat_add, Nat.mod_eq_of_lt hmem]
  simp only [outOfRange, decide_eq_false_iff_not, not_or, BitVec.lt_def, hend, BitVec.toNat_add,
    Nat.not_lt]

theorem inEnclave_iff (hmem : host.memAddr.toNat + host.memSize.toNat < 2 ^ 64) : host.InEnclave addr len ↔
      host.outOfRange addr len = false ∧ addr.toNat + len.toNat < 2 ^ 64 := by
  rw [outOfRange_eq_false_iff hmem]
  constructor
  · intro h
    have hlt := lt_of_le_of_lt h.2 hmem
    rw [Nat.mod_eq_of_lt hlt]
    exact ⟨h, hlt⟩
  · rintro ⟨h, hlt⟩
    rwa [Nat.mod_eq_of_lt hlt] at h

theorem offset_exact (h : host.memAddr.toNat ≤ addr.toNat) :
    host.memAddr.toNat + (addr - host.memAddr).toNat = addr.toNat := by
  rw [BitVec.toNat_sub_of_le (BitVec.le_def.mpr h)]
  omega

theorem confined_mprotectHost_iff (hrange : host.outOfRange addr len = false) :
    (∀ action ∈ host.actions .mprotectHost addr len prot, host.Confined addr action) ↔
      host.InEnclave addr len := by
  have hactions : KernelAction.mprotect addr len (usizeAsInt prot) ∈
      host.actions .mprotectHost addr len prot := by
    cases hmprotect : host.mprotect <;> simp [actions, hrange, hmprotect]
  constructor
  · intro h
    exact (h _ hactions).2
  · intro h
    have hoffset := offset_exact h.1
    cases hmprotect : host.mprotect <;>
      simp [actions, hrange, hmprotect, Confined, h, hoffset, -BitVec.toNat_sub]

theorem confined_munmapHost_iff (hrange : host.outOfRange addr len = false) :
    (∀ action ∈ host.actions .munmapHost addr len prot, host.Confined addr action) ↔
      host.InEnclave addr len := by
  simp only [actions, hrange, Bool.false_eq_true, if_false, List.forall_mem_cons, Confined,
    true_and, List.not_mem_nil, false_imp_iff, implies_true, and_true]
  constructor
  · exact And.left
  · intro h
    exact ⟨h, offset_exact h.1, h⟩

theorem confined_trimSgxPages_iff :
    (∀ action ∈ host.actions .trimSgxPages addr len prot, host.Confined addr action) ↔
      host.InEnclave addr len := by
  simp only [actions, List.forall_mem_cons, Confined, List.not_mem_nil, false_imp_iff,
    implies_true, and_true]
  constructor
  · exact And.right
  · intro h
    exact ⟨offset_exact h.1, h⟩

end SgxHost

/-- The host acts on memory of the enclave alone exactly if a range whose end wraps is refused, and
pages to trim would pass the check that the other calls make. -/
theorem enclave_calls_confined_iff (host : SgxHost)
    (hmem : host.memAddr.toNat + host.memSize.toNat < 2 ^ 64) (num : EnarxNumber) (addr len prot : Word) :
    (∀ action ∈ host.actions num addr len prot, host.Confined addr action) ↔ host.Covers num addr len := by
  cases num
  case mprotectHost =>
    cases hrange : host.outOfRange addr len
    · rw [SgxHost.confined_mprotectHost_iff hrange, SgxHost.inEnclave_iff hmem]
      simp [SgxHost.Covers, hrange]
    · simp [SgxHost.actions, SgxHost.Covers, hrange]
  case munmapHost =>
    cases hrange : host.outOfRange addr len
    · rw [SgxHost.confined_munmapHost_iff hrange, SgxHost.inEnclave_iff hmem]
      simp [SgxHost.Covers, hrange]
    · simp [SgxHost.actions, SgxHost.Covers, hrange]
  case trimSgxPages => rw [SgxHost.confined_trimSgxPages_iff, SgxHost.inEnclave_iff hmem]; rfl
  all_goals simp [SgxHost.actions, SgxHost.Covers]

def grantingHost : SgxHost where
  memAddr := 0x100000
  memSize := 0x2000
  targetInfo := true
  quote := true
  quoteSize := none
  mmap := .ok ()
  mprotect := .ok ()
  restrictPermissions := true
  removePages := true
  modifyTypes := true

theorem enclave_calls_confined_page : grantingHost.outOfRange 0x101000 0x1000 = false ∧
      ∀ action ∈ grantingHost.actions .munmapHost 0x101000 0x1000 0, grantingHost.Confined 0x101000 action :=
  ⟨by decide, (enclave_calls_confined_iff grantingHost (by decide) .munmapHost 0x101000 0x1000 0).mpr
    fun h => absurd h (by decide)⟩

/-- The end of the range wraps to a page below the enclave's start, and `mprotect` and `munmap` get a
range that leaves the enclave; pages below the enclave are trimmed at an offset that wraps. -/
theorem enclave_calls_unconfined : ¬ (∀ action ∈ grantingHost.actions .mprotectHost 0x100000 (-0x1000) 3,
        grantingHost.Confined 0x100000 action) ∧
      ¬ (∀ action ∈ grantingHost.actions .munmapHost 0x100000 (-0x1000) 0,
        grantingHost.Confined 0x100000 action) ∧
      grantingHost.actions .trimSgxPages 0xff000 0x1000 0 =
        [.modifyTypes (-0x1000) 0x1000 pageTypeTrim] ∧
      ¬ grantingHost.Confined 0xff000 (.modifyTypes (-0x1000) 0x1000 pageTypeTrim) := by
  have hout : ¬ grantingHost.InEnclave 0x100000 (-0x1000) := fun h => absurd h.2 (by decide)
  refine ⟨fun h => hout (h (.mprotect 0x100000 (-0x1000) 3) (by decide)).2,
    fun h => hout (h (.munmap 0x100000 (-0x1000)) (by decide)).2, by decide, ?_⟩
  exact fun h => absurd h.1 (by decide)

end Enarx.Backend
