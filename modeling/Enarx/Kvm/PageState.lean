import Enarx.Interference
import Enarx.Kvm.Boot

/-!
# Page state changes

The exchange with the host by which a page becomes shared: one MSR for a single
page, a descriptor in the GHCB for a list of pages. The host chooses what the MSR
holds afterwards, and it may rewrite the GHCB before every access to it.
-/
namespace Enarx.Kvm

open Interference (load store)

def PSC_REQ : BitVec 64 := 0x14

def PSC_RESP : BitVec 64 := 0x15

def PSC_ERROR_POS : Nat := 32

def PSC_ERROR_MASK : BitVec 64 := BitVec.allOnes 64 >>> PSC_ERROR_POS

def vmgexitMsr (msr : BitVec 64 → BitVec 64) (requestCode value expectedResponse : BitVec 64) :
    Option (BitVec 64) :=
  let retcode := msr (requestCode ||| value)
  if expectedResponse ≠ retcode &&& 0xFFF then none else some (retcode &&& ~~~0xFFF)

/-- The end of `ghcb_msr_make_page_shared`: the host is asked, and its answer is no error. -/
def msrPageShared (msr : BitVec 64 → BitVec 64) (val : BitVec 64) : Bool :=
  match vmgexitMsr msr PSC_REQ val PSC_RESP with
  | none => false
  | some ret => ret &&& PSC_ERROR_MASK = 0

theorem and_low_iff (reply : BitVec 64) : reply &&& 0xFFFFFFFF = 0x15 ↔ reply.setWidth 32 = 0x15 := by
  rw [← BitVec.toNat_inj, ← BitVec.toNat_inj, BitVec.toNat_and, BitVec.toNat_setWidth,
    show (0xFFFFFFFF : BitVec 64).toNat = 2 ^ 32 - 1 from rfl, Nat.and_two_pow_sub_one_eq_mod]
  rfl

theorem msrPageShared_iff (msr : BitVec 64 → BitVec 64) (val : BitVec 64) :
    msrPageShared msr val = true ↔ (msr (PSC_REQ ||| val)).setWidth 32 = 0x15 := by
  have hsplit : (0xFFFFFFFF : BitVec 64) = 0xFFF ||| (~~~0xFFF &&& PSC_ERROR_MASK) := by decide
  rw [← and_low_iff, msrPageShared, vmgexitMsr, PSC_RESP]
  generalize msr (PSC_REQ ||| val) = reply
  constructor
  · intro h
    by_cases hcode : 0x15 = reply &&& 0xFFF
    · rw [if_neg (not_not_intro hcode)] at h
      rw [hsplit, BitVec.and_or_distrib_left, ← BitVec.and_assoc, ← hcode, of_decide_eq_true h]
      decide
    · rw [if_pos hcode] at h
      cases h
  · intro h
    have hcode : reply &&& 0xFFF = 0x15 := by
      calc reply &&& 0xFFF = reply &&& 0xFFFFFFFF &&& 0xFFF := by rw [BitVec.and_assoc]; rfl
        _ = 0x15 := by rw [h]; decide
    have hrest : reply &&& ~~~0xFFF &&& PSC_ERROR_MASK = 0 := by
      calc reply &&& ~~~0xFFF &&& PSC_ERROR_MASK
          = reply &&& 0xFFFFFFFF &&& (~~~0xFFF &&& PSC_ERROR_MASK) := by
            rw [BitVec.and_assoc, BitVec.and_assoc]; rfl
        _ = 0 := by rw [h]; decide
    rw [if_neg (not_not_intro hcode.symm)]
    exact decide_eq_true hrest

structure SnpPscDesc where
  curEntry : BitVec 16
  endEntry : BitVec 16
  reserved : BitVec 32
  entries : List (BitVec 64)
  deriving DecidableEq, Repr

/-- The fields of the GHCB that the guest reads back, and the descriptor in its shared buffer. -/
structure Ghcb where
  swExitInfo1 : BitVec 64
  swExitInfo2 : BitVec 64
  pscDesc : SnpPscDesc
  deriving DecidableEq, Repr

structure Exchange where
  ghcb : Ghcb
  accesses : Nat
  /-- The descriptors that the guest has found when it read something, the last one first. -/
  seen : List SnpPscDesc
  deriving DecidableEq, Repr

inductive Access where
  | read
  | write
  deriving DecidableEq, Repr

def interfere (host : Nat → Ghcb → Ghcb) (access : Access) (exchange : Exchange) : Exchange where
  ghcb := host exchange.accesses exchange.ghcb
  accesses := exchange.accesses + 1
  seen := match access with
    | .read => (host exchange.accesses exchange.ghcb).pscDesc :: exchange.seen
    | .write => exchange.seen

abbrev Psc (α : Type) := Exec (Stop Empty) Exchange α

inductive GhcbError where
  | vmmError
  | exception
  deriving DecidableEq, Repr

section

variable (host : Nat → Ghcb → Ghcb)

def readGhcb (field : Ghcb → α) : Psc α := load (interfere host) .read fun exchange => field exchange.ghcb

def writeGhcb (update : Ghcb → Ghcb) : Psc Unit :=
  store (interfere host) .write fun exchange => { exchange with ghcb := update exchange.ghcb }

def writeDesc (update : SnpPscDesc → SnpPscDesc) : Psc Unit :=
  writeGhcb host fun ghcb => { ghcb with pscDesc := update ghcb.pscDesc }

def SVM_EVTINJ_VALID : BitVec 64 := 1 <<< 31

def SVM_EVTINJ_TYPE_MASK : BitVec 64 := 7 <<< 8

def SVM_EVTINJ_TYPE_EXEPT : BitVec 64 := 3 <<< 8

def vmgexit (exitInfo1 exitInfo2 : BitVec 64) : Psc (Except GhcbError Unit) := do
  writeGhcb host fun ghcb => { ghcb with swExitInfo1 := exitInfo1 }
  writeGhcb host fun ghcb => { ghcb with swExitInfo2 := exitInfo2 }
  let swExitInfo1 ← readGhcb host Ghcb.swExitInfo1
  if swExitInfo1 &&& 0xffffffff = 1 then
    let exitInfo2 ← readGhcb host Ghcb.swExitInfo2
    let vector := exitInfo2 &&& 0xff
    if exitInfo2 &&& SVM_EVTINJ_VALID ≠ 0 ∧
        exitInfo2 &&& SVM_EVTINJ_TYPE_MASK = SVM_EVTINJ_TYPE_EXEPT ∧ (vector = 13 ∨ vector = 6) then
      return .error .exception
    return .error .vmmError
  return .ok ()

def orPanic (cond : Prop) [Decidable cond] : Psc Unit :=
  if cond then pure () else throw .panic

def setEntries : Nat → List Nat → Psc Unit
  | _, [] => pure ()
  | i, entry :: rest => do
    writeDesc host fun desc => { desc with entries := desc.entries.set i (BitVec.ofNat 64 entry) }
    setEntries (i + 1) rest

def fillDesc (entries : List Nat) : Psc Unit := do
  writeDesc host fun _ => ⟨0, 0, 0, List.replicate 253 0⟩
  writeDesc host fun desc => { desc with curEntry := 0 }
  writeDesc host fun desc => { desc with endEntry := BitVec.ofNat 16 (entries.length - 1) }
  setEntries host 0 entries

def pscLoop : Nat → Psc Unit
  | 0 => throw .fuel
  | fuel + 1 => do
    let curEntry ← readGhcb host fun ghcb => ghcb.pscDesc.curEntry
    let endEntry ← readGhcb host fun ghcb => ghcb.pscDesc.endEntry
    if endEntry < curEntry then
      return
    match ← vmgexit host 0 0 with
    | .error _ => throw .panic
    | .ok _ =>
      orPanic ((← readGhcb host Ghcb.swExitInfo2) = 0)
      orPanic ((← readGhcb host fun ghcb => ghcb.pscDesc.reserved) = 0)
      orPanic ((← readGhcb host fun ghcb => ghcb.pscDesc.endEntry) ≤ endEntry)
      orPanic (curEntry ≤ (← readGhcb host fun ghcb => ghcb.pscDesc.curEntry))
      pscLoop fuel

end

/-- The list is cut short: neither the last entry nor the current one is behind so many pages. -/
def SnpPscDesc.Cut (npages : Nat) (desc : SnpPscDesc) : Prop :=
  desc.endEntry.toNat + 1 < npages ∧ desc.curEntry.toNat < npages

/-- The current entry is behind all pages. -/
def Exchange.Done (npages : Nat) (exchange : Exchange) : Prop :=
  ∃ desc ∈ exchange.seen, npages ≤ desc.curEntry.toNat

section

variable {host : Nat → Ghcb → Ghcb} {npages : Nat}
  (hhost : ∀ n ghcb, (host n ghcb).pscDesc.Cut npages → ghcb.pscDesc.Cut npages)

def Exchange.Whole (npages : Nat) (exchange : Exchange) : Prop := ¬exchange.ghcb.pscDesc.Cut npages

theorem orPanic_whole (cond : Prop) [Decidable cond] : Exec.Preserves (Exchange.Whole npages) (orPanic cond) :=
  .ite (fun _ => .pure _) fun _ => .throw _

include hhost

theorem readGhcb_whole (field : Ghcb → α) : Exec.Preserves (Exchange.Whole npages) (readGhcb host field) :=
  fun _ hwhole hcut => hwhole (hhost _ _ hcut)

theorem writeGhcb_whole {update : Ghcb → Ghcb}
    (hupdate : ∀ ghcb, (update ghcb).pscDesc.Cut npages → ghcb.pscDesc.Cut npages) :
    Exec.Preserves (Exchange.Whole npages) (writeGhcb host update) :=
  fun _ hwhole hcut => hwhole (hhost _ _ (hupdate _ hcut))

theorem vmgexit_whole (exitInfo1 exitInfo2 : BitVec 64) :
    Exec.Preserves (Exchange.Whole npages) (vmgexit host exitInfo1 exitInfo2) := by
  refine .bind (writeGhcb_whole hhost fun _ => id) fun _ => .bind (writeGhcb_whole hhost fun _ => id) fun _ => ?_
  refine .bind (readGhcb_whole hhost _) fun _ => .ite (fun _ => ?_) fun _ => .pure _
  exact .bind (readGhcb_whole hhost _) fun _ => .ite (fun _ => .pure _) fun _ => .pure _

theorem setEntries_whole (i : Nat) (entries : List Nat) :
    Exec.Preserves (Exchange.Whole npages) (setEntries host i entries) := by
  induction entries generalizing i with
  | nil => exact .pure _
  | cons entry rest ih => exact .bind (writeGhcb_whole hhost fun _ => id) fun _ => ih (i + 1)

theorem fillDesc_whole {entries : List Nat} (hlength : entries.length = npages) (hle : npages ≤ 253) :
    Exec.Triple (fun _ => True) (fillDesc host entries) (fun _ => Exchange.Whole npages) fun _ _ => True := by
  refine Exec.Triple.any.bind fun _ => Exec.Triple.any.bind fun _ => ?_
  refine Exec.Triple.bind (Q := fun _ => Exchange.Whole npages) ?_ fun _ =>
    (setEntries_whole hhost 0 entries).triple
  rintro exchange - ⟨hend, -⟩
  change (BitVec.ofNat 16 (entries.length - 1)).toNat + 1 < npages at hend
  rw [BitVec.toNat_ofNat, Nat.mod_eq_of_lt (by omega)] at hend
  omega

theorem pscLoop_done (fuel : Nat) :
    Exec.Triple (Exchange.Whole npages) (pscLoop host fuel) (fun _ => Exchange.Done npages) (fun _ _ => True) := by
  induction fuel with
  | zero => exact .throw fun _ _ => trivial
  | succ fuel ih =>
    refine Exec.Triple.bind (Q := fun curEntry exchange => exchange.Whole npages ∧
      ∃ desc ∈ exchange.seen, desc.curEntry = curEntry) ?_ fun curEntry => ?_
    · exact fun exchange hwhole => ⟨fun hcut => hwhole (hhost _ _ hcut), _, List.mem_cons_self, rfl⟩
    refine Exec.Triple.bind (Q := fun endEntry exchange => exchange.Whole npages ∧
      (endEntry < curEntry → exchange.Done npages)) ?_ fun endEntry => ?_
    · rintro exchange ⟨hwhole, desc, hdesc, rfl⟩
      have hnext : ¬(host exchange.accesses exchange.ghcb).pscDesc.Cut npages := fun hcut => hwhole (hhost _ _ hcut)
      refine ⟨hnext, fun hlt => ?_⟩
      -- the last entry is behind all pages, and so is the current one, or the host has just said so
      by_cases hcur : npages ≤ (host exchange.accesses exchange.ghcb).pscDesc.curEntry.toNat
      · exact ⟨_, List.mem_cons_self, hcur⟩
      · refine ⟨desc, List.mem_cons_of_mem _ hdesc, ?_⟩
        by_contra hdone
        have hlt : (host exchange.accesses exchange.ghcb).pscDesc.endEntry.toNat < desc.curEntry.toNat :=
          BitVec.lt_def.mp hlt
        exact hnext ⟨by omega, Nat.lt_of_not_le hcur⟩
    refine .ite (fun hlt => .pure fun _ h => h.2 hlt) fun _ => ?_
    refine Exec.Triple.imp (P := Exchange.Whole npages) ?_ (fun _ => And.left) fun _ _ => id
    refine (vmgexit_whole hhost 0 0).triple.bind ?_
    rintro (_ | _)
    · exact .throw fun _ _ => trivial
    · iterate 4 refine (readGhcb_whole hhost _).triple.bind fun _ => (orPanic_whole _).triple.bind fun _ => ?_
      exact ih

end

structure Answers where
  msr : BitVec 64 → BitVec 64
  ghcb : Ghcb
  /-- The GHCB before the next access, for every access. -/
  rewrite : Nat → Ghcb → Ghcb
  fuel : Nat

namespace Answers

variable (answers : Answers)

def pscRun (entries : List Nat) : Except (Stop Empty) Unit × Exchange :=
  (do fillDesc answers.rewrite entries; pscLoop answers.rewrite answers.fuel : Psc Unit)
    ⟨answers.ghcb, 0, []⟩

def grants : Share → List Nat → Bool
  | .ghcbMsrMakePageShared _, entries =>
    entries.all fun val => msrPageShared answers.msr (BitVec.ofNat 64 val)
  | .setMemoryShared _ _, entries => (answers.pscRun entries).1.isOk

/-- The host reports every page as done: no error code in the bits 63:32 of the MSR, or a current
entry behind all those of the request. -/
def Acknowledges : Share → List Nat → Prop
  | .ghcbMsrMakePageShared _, entries =>
    ∀ val ∈ entries, answers.msr (PSC_REQ ||| BitVec.ofNat 64 val) >>> PSC_ERROR_POS = 0
  | .setMemoryShared _ npages, entries => (answers.pscRun entries).2.Done npages

/-- The host never puts an error code beside a proper response, and never cuts the list short. -/
def Honest : Share → List Nat → Prop
  | .ghcbMsrMakePageShared _, entries => ∀ val ∈ entries,
    (answers.msr (PSC_REQ ||| BitVec.ofNat 64 val)).setWidth 32 = 0x15 →
      answers.msr (PSC_REQ ||| BitVec.ofNat 64 val) >>> PSC_ERROR_POS = 0
  | .setMemoryShared _ npages, _ => ∀ n ghcb,
    (answers.rewrite n ghcb).pscDesc.Cut npages → ghcb.pscDesc.Cut npages

variable {answers}

theorem pscRun_done {npages : Nat} {entries : List Nat} (h : (answers.pscRun entries).1.isOk)
    (hhonest : ∀ n ghcb, (answers.rewrite n ghcb).pscDesc.Cut npages → ghcb.pscDesc.Cut npages)
    (hlength : entries.length = npages) (hle : npages ≤ 253) : (answers.pscRun entries).2.Done npages := by
  rcases hresult : answers.pscRun entries with ⟨_ | _, final⟩
  · rw [hresult] at h
    cases h
  · have hrun := (fillDesc_whole hhonest hlength hle).bind fun _ => pscLoop_done hhonest answers.fuel
    exact hrun.ok trivial hresult

theorem acknowledges_msr_iff {page : VirtAddr} {entries : List Nat}
    (h : answers.grants (.ghcbMsrMakePageShared page) entries = true) :
    answers.Acknowledges (.ghcbMsrMakePageShared page) entries ↔
      answers.Honest (.ghcbMsrMakePageShared page) entries := by
  refine forall₂_congr fun val hval => ?_
  rw [(msrPageShared_iff ..).mp (List.all_eq_true.mp h val hval)]
  exact ⟨fun hzero _ => hzero, fun hzero => hzero rfl⟩

end Answers

def Machine.over (machine : Machine) (answers : Answers) (share : Share) : Machine :=
  { machine with pageStateChange := answers.grants share }

def Share.entries (share : Share) : List Nat :=
  (List.range share.npages).map fun i =>
    share.start.raw - SHIM_VIRT_OFFSET + SIZE_4_KIB * i ||| SHARED_BIT

theorem VirtAddr.raw_of_sub_offset {addr virt : VirtAddr} (h : addr.sub SHIM_VIRT_OFFSET = some virt) :
    virt.raw = addr.raw - SHIM_VIRT_OFFSET := by
  rw [VirtAddr.sub] at h
  split at h
  case isFalse => cases h
  case isTrue hle =>
    obtain ⟨other, hother, hsub⟩ := VirtAddr.exists_sub_offset (show addr.InWindow from hle)
    rw [VirtAddr.sub, if_pos hle] at hsub
    cases hsub.symm.trans h
    exact hother

variable {state after : State} {share : Share}

theorem unwrap_ok {value : Option α} {result : α}
    (h : (Shim.unwrap value : Shim ε α) state = (.ok result, after)) : value = some result := by
  cases value with
  | none => cases h
  | some other =>
    cases h
    rfl

theorem pscEntries_eq (n : Nat) {paAddr : PhysAddr} {entries : List Nat}
    (h : (pscEntries n paAddr : Shim ε (List Nat)) state = (.ok entries, after)) :
    entries = (List.range n).map fun i => paAddr.raw + SIZE_4_KIB * i ||| SHARED_BIT := by
  induction n generalizing paAddr entries state after with
  | zero =>
    cases h
    rfl
  | succ n ih =>
    obtain ⟨next, middle, hadd, h⟩ := Exec.bind_ok h
    obtain ⟨rest, middle', hrest, h⟩ := Exec.bind_ok h
    cases h
    have hnext := PhysAddr.raw_of_add (unwrap_ok hadd) (by decide)
    rw [ih hrest, List.range_succ_eq_map, List.map_cons, List.map_map, hnext]
    simp only [Nat.mul_zero, Nat.add_zero, List.cons.injEq, true_and]
    apply List.map_congr_left
    intro i _
    simp only [Function.comp_apply, Nat.succ_eq_add_one]
    ring_nf

theorem Share.granted {machine : Machine} {fuel : Nat}
    (h : (share.execute machine fuel : Shim ε Unit) state = (.ok (), after)) :
    machine.pageStateChange share.entries = true ∧ share.npages ≤ 253 := by
  have hgrant : ∀ {cond : Bool} {before : State},
      (Shim.unwrap (if cond then some () else none) : Shim ε Unit) before = (.ok (), after) →
        cond = true := by
    intro cond before hrun
    cases cond with
    | true => rfl
    | false => cases hrun
  cases share with
  | ghcbMsrMakePageShared page =>
    obtain ⟨-, s1, -, h⟩ := Exec.bind_ok h
    obtain ⟨-, s2, -, h⟩ := Exec.bind_ok h
    obtain ⟨-, s3, -, h⟩ := Exec.bind_ok h
    obtain ⟨gpa, s4, hgpa, h⟩ := Exec.bind_ok h
    have hentries : entries (.ghcbMsrMakePageShared page) = [gpa.raw ||| SHARED_BIT] := by
      simp [entries, npages, start, VirtAddr.raw_of_sub_offset (unwrap_ok hgpa)]
    rw [hentries]
    exact ⟨hgrant h, show 1 ≤ 253 by decide⟩
  | setMemoryShared virtAddr npages =>
    obtain ⟨size, s1, -, h⟩ := Exec.bind_ok h
    obtain ⟨finish, s2, -, h⟩ := Exec.bind_ok h
    obtain ⟨-, s3, -, h⟩ := Exec.bind_ok h
    obtain ⟨-, s4, -, h⟩ := Exec.bind_ok h
    obtain ⟨_, s5, hcount, h⟩ := Exec.bind_ok h
    obtain ⟨virt, s6, hvirt, h⟩ := Exec.bind_ok h
    obtain ⟨paAddr, s7, hpa, h⟩ := Exec.bind_ok h
    obtain ⟨psc, s8, hpsc, h⟩ := Exec.bind_ok h
    have hentries : entries (.setMemoryShared virtAddr npages) = psc := by
      rw [pscEntries_eq npages hpsc, PhysAddr.raw_of_new (unwrap_ok hpa),
        VirtAddr.raw_of_sub_offset (unwrap_ok hvirt)]
      rfl
    have hbounds := unwrap_ok hcount
    rw [Option.ite_none_right_eq_some] at hbounds
    rw [hentries]
    exact ⟨hgrant h, hbounds.1.2⟩

/-- A request that returns has been acknowledged if the host is honest. -/
theorem share_acknowledged {machine : Machine} {answers : Answers} {share : Share} {fuel : Nat} {state after : State}
    (h : (share.execute (machine.over answers share) fuel : Shim Empty Unit) state = (.ok (), after)) :
    (answers.Honest share share.entries → answers.Acknowledges share share.entries) ∧
      ∀ page, share = .ghcbMsrMakePageShared page →
        answers.Acknowledges share share.entries → answers.Honest share share.entries := by
  obtain ⟨hgrants, hle⟩ := Share.granted h
  cases share with
  | ghcbMsrMakePageShared page =>
    have hiff := @Answers.acknowledges_msr_iff answers page _ hgrants
    exact ⟨hiff.mpr, fun _ _ => hiff.mp⟩
  | setMemoryShared virtAddr npages =>
    refine ⟨fun hhonest => Answers.pscRun_done hgrants hhonest ?_ hle, fun _ hshare => by cases hshare⟩
    simp [Share.entries, Share.npages]

theorem setEntries_ok (host : Nat → Ghcb → Ghcb) (i : Nat) (entries : List Nat) (exchange : Exchange) :
    ∃ final, setEntries host i entries exchange = (.ok (), final) ∧ final.seen = exchange.seen := by
  induction entries generalizing i exchange with
  | nil => exact ⟨exchange, rfl, rfl⟩
  | cons entry rest ih => exact ih (i + 1) _

theorem fillDesc_ok (host : Nat → Ghcb → Ghcb) (entries : List Nat) (exchange : Exchange) :
    ∃ final, fillDesc host entries exchange = (.ok (), final) ∧ final.seen = exchange.seen :=
  setEntries_ok host 0 entries _

/-- The host leaves one word in the MSR, and in the descriptor one current entry behind entry zero. -/
def Answers.always (reply : BitVec 64) (curEntry : BitVec 16) : Answers where
  msr _ := reply
  ghcb := ⟨0, 0, ⟨curEntry, 0, 0, []⟩⟩
  rewrite _ _ := ⟨0, 0, ⟨curEntry, 0, 0, []⟩⟩
  fuel := 1

theorem Answers.always_pscRun (reply : BitVec 64) {curEntry : BitVec 16} (hcur : 0 < curEntry)
    (entries : List Nat) : ∃ final, (always reply curEntry).pscRun entries = (.ok (), final) ∧
      final.seen = [⟨curEntry, 0, 0, []⟩, ⟨curEntry, 0, 0, []⟩] := by
  obtain ⟨filled, hfilled, hseen⟩ := fillDesc_ok (always reply curEntry).rewrite entries
    ⟨(always reply curEntry).ghcb, 0, []⟩
  refine ⟨⟨⟨0, 0, ⟨curEntry, 0, 0, []⟩⟩, filled.accesses + 2,
    ⟨curEntry, 0, 0, []⟩ :: ⟨curEntry, 0, 0, []⟩ :: filled.seen⟩, ?_, ?_⟩
  · refine (Exec.bind_of_ok hfilled).trans ?_
    change (if (0 : BitVec 16) < curEntry then pure () else _ : Psc Unit) _ = _
    rw [if_pos hcur]
    rfl
  · rw [hseen]

theorem Answers.always_grants {reply : BitVec 64} {curEntry : BitVec 16}
    (hreply : reply.setWidth 32 = 0x15) (hcur : 0 < curEntry) (share : Share) (entries : List Nat) :
    (always reply curEntry).grants share entries = true := by
  cases share with
  | ghcbMsrMakePageShared page =>
    apply List.all_eq_true.mpr
    intro val _
    exact (msrPageShared_iff ..).mpr hreply
  | setMemoryShared virtAddr npages =>
    obtain ⟨final, hrun, -⟩ := always_pscRun reply hcur entries
    simp only [grants, hrun]
    rfl

theorem Machine.Works.over {machine : Machine} {boot : List VirtAddr} (h : machine.Works boot)
    {answers : Answers} (hgrants : ∀ entries, answers.grants share entries = true) :
    (machine.over answers share).Works boot :=
  { h with pageStateChange := hgrants }

theorem execute_windowPage {answers : Answers} {n : Nat} (hn : n < 262400)
    (hstart : share.start = windowPage n (windowPage_second_lt hn)) (hone : 1 ≤ share.npages)
    (hmax : share.npages ≤ 253) (hgrants : ∀ entries, answers.grants share entries = true) :
    ∃ after, (share.execute (nextPages.over answers share) 507 : Shim Empty Unit)
      (firstPages.state nextPages.cBit noTables) = (.ok (), after) := by
  obtain ⟨after, hrun, -⟩ := Share.execute_spec (nextPages_works.over hgrants)
    (firstPages.inv noTables (nextPages.over answers share))
    (share.proper_windowPage (by omega) hstart hone hmax) (share.fits_windowPage hn hstart hmax)
    (fun _ => firstPages.inWindow_of_mapped _ noTables) le_rfl
  exact ⟨after, hrun⟩

def someShares : List Share :=
  [.setMemoryShared (windowPage 262150 windowPage_shared_lt) 3,
    .ghcbMsrMakePageShared (windowPage 262150 windowPage_shared_lt)]

theorem execute_someShares (reply : BitVec 64) (curEntry : BitVec 16)
    (hreply : reply.setWidth 32 = 0x15) (hcur : 0 < curEntry) : ∀ share ∈ someShares, ∃ after,
      (share.execute (nextPages.over (.always reply curEntry) share) 507 : Shim Empty Unit)
        (firstPages.state nextPages.cBit noTables) = (.ok (), after) := by
  intro share hshare
  have hgrants := Answers.always_grants hreply hcur share
  simp only [someShares, List.mem_cons, List.not_mem_nil, or_false] at hshare
  rcases hshare with rfl | rfl
  · exact execute_windowPage (n := 262150) (by decide) rfl (by decide) (by decide) hgrants
  · exact execute_windowPage (n := 262150) (by decide) rfl (by decide) (by decide) hgrants

theorem share_acknowledged_someShares : someShares.Forall fun share => ∃ after,
    (share.execute (nextPages.over (.always 0x15 3) share) 507 : Shim Empty Unit)
      (firstPages.state nextPages.cBit noTables) = (.ok (), after) ∧
    (Answers.always 0x15 3).Acknowledges share share.entries := by
  refine List.forall_iff_forall_mem.mpr fun share hshare => ?_
  obtain ⟨after, hrun⟩ := execute_someShares 0x15 3 rfl (by decide) share hshare
  refine ⟨after, hrun, (share_acknowledged hrun).1 ?_⟩
  simp only [someShares, List.mem_cons, List.not_mem_nil, or_false] at hshare
  rcases hshare with rfl | rfl
  · exact fun n ghcb hcut => absurd hcut.2 (show ¬3 < 3 by decide)
  · exact fun val hval _ => show (0x15 : BitVec 64) >>> PSC_ERROR_POS = 0 by decide

/-- An error code in the upper half of the MSR, or a list that the host cuts off after its first entry:
the guest takes the pages for shared. -/
theorem shared_without_acknowledgement : someShares.Forall fun share => ∃ after,
    (share.execute (nextPages.over (.always 0x100000015 1) share) 507 : Shim Empty Unit)
      (firstPages.state nextPages.cBit noTables) = (.ok (), after) ∧
    ¬(Answers.always 0x100000015 1).Acknowledges share share.entries := by
  refine List.forall_iff_forall_mem.mpr fun share hshare => ?_
  obtain ⟨after, hrun⟩ := execute_someShares 0x100000015 1 (by decide) (by decide) share hshare
  refine ⟨after, hrun, ?_⟩
  simp only [someShares, List.mem_cons, List.not_mem_nil, or_false] at hshare
  rcases hshare with rfl | rfl
  · rintro ⟨desc, hdesc, hle⟩
    obtain ⟨final, hpsc, hfinal⟩ := Answers.always_pscRun 0x100000015
      (show 0 < (1 : BitVec 16) by decide)
      (Share.entries (.setMemoryShared (windowPage 262150 (by decide)) 3))
    rw [hpsc, hfinal] at hdesc
    simp only [List.mem_cons, List.not_mem_nil, or_false, or_self] at hdesc
    rw [hdesc] at hle
    exact absurd hle (by decide)
  · intro hack
    exact absurd (hack _ (List.mem_cons_self ..)) (by decide)

end Enarx.Kvm
