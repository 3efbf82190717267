import Mathlib.Data.List.Pairwise
import Enarx.Control

/-!
# The CPUID page

The host fills a page with the CPUID entries that KVM reports, the firmware checks
it, and the guest answers `cpuid` from it. An entry of KVM says whether it depends
on ECX; an entry of the page has no place for that.
-/
namespace Enarx.Snp

structure KvmCpuidEntry where
  function : BitVec 32
  index : BitVec 32
  flags : BitVec 32
  eax : BitVec 32
  ebx : BitVec 32
  ecx : BitVec 32
  edx : BitVec 32
  deriving DecidableEq, Repr

def KVM_CPUID_FLAG_SIGNIFCANT_INDEX : BitVec 32 := 1

structure CpuidFunctionEntry where
  eaxIn : BitVec 32
  ecxIn : BitVec 32
  xcr0In : BitVec 64
  xssIn : BitVec 64
  eax : BitVec 32
  ebx : BitVec 32
  ecx : BitVec 32
  edx : BitVec 32
  reserved : BitVec 64
  deriving DecidableEq, Repr

def COUNT_MAX : Nat := 64

/-- `CpuidPage`: the first `count` of its entries; the others are zero. -/
structure CpuidPage where
  functions : List CpuidFunctionEntry
  count_le : functions.length ≤ COUNT_MAX
  deriving DecidableEq, Repr

inductive CpuidError where
  | full
  | kvm
  deriving DecidableEq, Repr

namespace CpuidPage

def default : CpuidPage := ⟨[], Nat.zero_le _⟩

def count (page : CpuidPage) : Nat := page.functions.length

def addEntry (page : CpuidPage) (entry : CpuidFunctionEntry) : Except CpuidError CpuidPage :=
  if h : COUNT_MAX ≤ page.count then .error .full
  else .ok ⟨page.functions ++ [entry], by
    rw [List.length_append]
    exact Nat.lt_of_not_le h⟩

end CpuidPage

namespace KvmCpuidEntry

def isSignificant (entry : KvmCpuidEntry) : Bool :=
  entry.flags &&& KVM_CPUID_FLAG_SIGNIFCANT_INDEX ≠ 0

/-- The range check of the firmware, PAGE_TYPE_CPUID. Both ranges are half open. -/
def inRange (entry : KvmCpuidEntry) : Bool :=
  entry.function < 0xFFFF ∨ 0x80000000 ≤ entry.function ∧ entry.function < 0x8000FFFF

def ecxIn (entry : KvmCpuidEntry) : BitVec 32 := if entry.isSignificant then entry.index else 0

/-- The entry of the page. For leaf 0xD EBX is the size of the save area for the features that are
enabled at boot. -/
def snpCpuidEntry (entry : KvmCpuidEntry) : CpuidFunctionEntry where
  eaxIn := entry.function
  ecxIn := entry.ecxIn
  xcr0In := 0
  xssIn := 0
  eax := entry.eax
  ebx := if entry.function = 0xD ∧ (entry.ecxIn = 0 ∨ entry.ecxIn = 1) then 0x240 else entry.ebx
  ecx := entry.ecx
  edx := entry.edx
  reserved := 0

/-- GET_CPUID2 returns bogus entries at the end with all zero set. -/
def isBogus (entry : KvmCpuidEntry) : Bool := entry.function = 0 ∧ entry.index = 0

end KvmCpuidEntry

namespace CpuidPage

def importEntries : List KvmCpuidEntry → CpuidPage → Except CpuidError CpuidPage
  | [], page => .ok page
  | entry :: rest, page =>
    if entry.isBogus ∧ 0 < page.count then .ok page
    else if entry.function = 0xFFFFFFFF then .ok page
    else if !entry.inRange then importEntries rest page
    else do importEntries rest (← page.addEntry entry.snpCpuidEntry)

def importFromKvm (page : CpuidPage) (supported : Except CpuidError (List KvmCpuidEntry)) :
    Except CpuidError CpuidPage := do
  importEntries (← supported) page

end CpuidPage

structure CpuidResult where
  eax : BitVec 32
  ebx : BitVec 32
  ecx : BitVec 32
  edx : BitVec 32
  deriving DecidableEq, Repr

def CpuidResult.zero : CpuidResult := ⟨0, 0, 0, 0⟩

namespace CpuidPage

/-- `cpuid_count` of the shim; without SNP the processor answers. -/
def cpuidCount (page : CpuidPage) (snpActive : Bool) (native : BitVec 32 → BitVec 32 → CpuidResult)
    (leaf subLeaf : BitVec 32) : CpuidResult :=
  if !snpActive then native leaf subLeaf
  else (page.functions.findSome? fun e =>
    if e.eaxIn = leaf ∧ e.ecxIn = subLeaf then some ⟨e.eax, e.ebx, e.ecx, e.edx⟩ else none).getD
      .zero

end CpuidPage

namespace KvmCpuidEntry

def Applies (entry : KvmCpuidEntry) (leaf ecx : BitVec 32) : Prop :=
  leaf = entry.function ∧ (entry.isSignificant → ecx = entry.index)

def reported (entry : KvmCpuidEntry) (ecx : BitVec 32) : CpuidResult where
  eax := entry.eax
  ebx := if entry.function = 0xD ∧ (ecx = 0 ∨ ecx = 1) then 0x240 else entry.ebx
  ecx := entry.ecx
  edx := entry.edx

def Apart (a b : KvmCpuidEntry) : Prop := ∀ leaf ecx, ¬(a.Applies leaf ecx ∧ b.Applies leaf ecx)

instance : Std.Symm Apart where
  symm _ _ h leaf ecx hboth := h leaf ecx hboth.symm

def UniqueKeys (entries : List KvmCpuidEntry) : Prop := entries.Pairwise Apart

theorem apart_of_function_ne {a b : KvmCpuidEntry} (h : a.function ≠ b.function) : a.Apart b :=
  fun _ _ hboth => h (hboth.1.1.symm.trans hboth.2.1)

theorem applies_ecxIn (entry : KvmCpuidEntry) : entry.Applies entry.function entry.ecxIn :=
  ⟨rfl, fun h => if_pos h⟩

end KvmCpuidEntry

/-- The entries that the loop adds to a page that is empty or not. -/
def imported : Bool → List KvmCpuidEntry → List KvmCpuidEntry
  | _, [] => []
  | nonempty, entry :: rest =>
    if entry.isBogus ∧ nonempty then []
    else if entry.function = 0xFFFFFFFF then []
    else if !entry.inRange then imported nonempty rest
    else entry :: imported true rest

namespace CpuidPage

theorem addEntry_ok {page after : CpuidPage} {entry : CpuidFunctionEntry}
    (h : page.addEntry entry = .ok after) : after.functions = page.functions ++ [entry] := by
  unfold addEntry at h
  split at h
  · cases h
  · cases h
    rfl

theorem importEntries_ok {entries : List KvmCpuidEntry} {page after : CpuidPage}
    (h : importEntries entries page = .ok after) : after.functions =
      page.functions ++ (imported (0 < page.count) entries).map KvmCpuidEntry.snpCpuidEntry := by
  induction entries generalizing page with
  | nil =>
    cases h
    simp [imported]
  | cons entry rest ih =>
    unfold importEntries at h
    unfold imported
    simp only [decide_eq_true_eq] at h ⊢
    split at h
    · next hbogus =>
      cases h
      simp [hbogus]
    · next hbogus =>
      rw [if_neg hbogus]
      split at h
      · next hlast =>
        cases h
        simp [hlast]
      · next hlast =>
        rw [if_neg hlast]
        split at h
        · next hrange =>
          rw [if_pos hrange]
          exact ih h
        · next hrange =>
          rw [if_neg hrange]
          obtain ⟨added, hadded, hrest⟩ := Except.bind_eq_ok.mp h
          have hcount : 0 < added.count := by simp [count, addEntry_ok hadded]
          have hafter := ih hrest
          rw [addEntry_ok hadded] at hafter
          simpa [hcount] using hafter

end CpuidPage

namespace KvmCpuidEntry

variable {entries : List KvmCpuidEntry} {entry : KvmCpuidEntry}

theorem UniqueKeys.eq_of_applies (h : UniqueKeys entries) (hentry : entry ∈ entries)
    {other : KvmCpuidEntry} (hother : other ∈ entries) {leaf ecx : BitVec 32}
    (happlies : entry.Applies leaf ecx) (happlies' : other.Applies leaf ecx) : entry = other := by
  by_contra hne
  exact List.Pairwise.forall h hentry hother hne leaf ecx ⟨happlies, happlies'⟩

theorem findSome?_eq (leaf ecx : BitVec 32) : ((entries.map snpCpuidEntry).findSome? fun e =>
      if e.eaxIn = leaf ∧ e.ecxIn = ecx then some (CpuidResult.mk e.eax e.ebx e.ecx e.edx) else none) =
    (entries.find? fun entry => entry.function = leaf ∧ entry.ecxIn = ecx).map (·.reported ecx) := by
  induction entries with
  | nil => rfl
  | cons entry rest ih =>
    rw [List.map_cons, List.findSome?_cons, List.find?_cons]
    by_cases hkey : entry.function = leaf ∧ entry.ecxIn = ecx
    · simp [snpCpuidEntry, reported, hkey]
    · simp only [hkey, decide_false]
      rw [← ih]
      simp [snpCpuidEntry, hkey]

theorem UniqueKeys.find?_eq (h : UniqueKeys entries) (hentry : entry ∈ entries) {ecx : BitVec 32}
    (happlies : entry.Applies entry.function ecx) :
    (entries.find? fun other => other.function = entry.function ∧ other.ecxIn = ecx) =
      if entry.isSignificant ∨ ecx = 0 then some entry else none := by
  split
  · next hstored =>
    have hecx : entry.ecxIn = ecx := by
      rcases hstored with hsig | rfl
      · rw [ecxIn, if_pos hsig, happlies.2 hsig]
      · unfold ecxIn
        split
        · next hsig => exact (happlies.2 hsig).symm
        · rfl
    cases hfind : entries.find? fun other => other.function = entry.function ∧ other.ecxIn = ecx with
    | none =>
      have hnone := List.find?_eq_none.mp hfind entry hentry
      simp [hecx] at hnone
    | some other =>
      have hkey : other.function = entry.function ∧ other.ecxIn = ecx := by
        simpa using List.find?_some hfind
      have hother : other.Applies entry.function ecx := by
        rw [← hkey.1, ← hkey.2]
        exact other.applies_ecxIn
      rw [h.eq_of_applies hentry (List.mem_of_find?_eq_some hfind) happlies hother]
  · next hstored =>
    rw [not_or] at hstored
    rw [List.find?_eq_none]
    intro other hother hkey
    simp only [decide_eq_true_eq] at hkey
    have happlies' : other.Applies entry.function ecx := by
      rw [← hkey.1, ← hkey.2]
      exact other.applies_ecxIn
    have heq := h.eq_of_applies hentry hother happlies happlies'
    subst heq
    rw [ecxIn, if_neg hstored.1] at hkey
    exact hstored.2 hkey.2.symm

end KvmCpuidEntry

section

variable (native : BitVec 32 → BitVec 32 → CpuidResult) {entries : List KvmCpuidEntry} {page : CpuidPage}
  (hpage : CpuidPage.default.importFromKvm (.ok entries) = .ok page)
  (hkeys : KvmCpuidEntry.UniqueKeys (imported false entries)) {entry : KvmCpuidEntry}
  (hentry : entry ∈ imported false entries)
include hpage hkeys hentry

theorem cpuidCount_eq {ecx : BitVec 32} (happlies : entry.Applies entry.function ecx) :
    page.cpuidCount true native entry.function ecx =
      if entry.isSignificant ∨ ecx = 0 then entry.reported ecx else .zero := by
  have hfunctions : page.functions = (imported false entries).map KvmCpuidEntry.snpCpuidEntry :=
    CpuidPage.importEntries_ok hpage
  rw [CpuidPage.cpuidCount, if_neg (by decide), hfunctions, KvmCpuidEntry.findSome?_eq,
    hkeys.find?_eq hentry happlies, apply_ite (Option.map _), apply_ite (Option.getD · _)]
  rfl

/-- The guest answers with the registers of an entry if ECX matters for it, if ECX is zero, or if
all the registers are zero. -/
theorem cpuidCount_eq_reported_iff {ecx : BitVec 32} (happlies : entry.Applies entry.function ecx) :
    page.cpuidCount true native entry.function ecx = entry.reported ecx ↔
      entry.isSignificant ∨ ecx = 0 ∨ entry.reported ecx = .zero := by
  rw [cpuidCount_eq native hpage hkeys hentry happlies, ← or_assoc]
  by_cases hstored : entry.isSignificant ∨ ecx = 0
  · rw [if_pos hstored]
    exact ⟨fun _ => .inl hstored, fun _ => rfl⟩
  · rw [if_neg hstored]
    exact ⟨fun hzero => .inr hzero.symm, fun hor => (hor.resolve_left hstored).symm⟩

end

def leafZero : KvmCpuidEntry := ⟨0, 0, 0, 1, 0x68747541, 0x444D4163, 0x69746E65⟩

def leafOne : KvmCpuidEntry := ⟨1, 0, 0, 0xA00F11, 0x800, 0x7EF8320B, 0x178BFBFF⟩

theorem uniqueKeys_leaves : KvmCpuidEntry.UniqueKeys (imported false [leafZero, leafOne]) :=
  .cons (by
    intro entry hentry
    cases List.mem_singleton.mp hentry
    exact KvmCpuidEntry.apart_of_function_ne (by decide)) (List.pairwise_singleton _ _)

theorem cpuidCount_eq_reported_leafOne : ∃ page,
    CpuidPage.default.importFromKvm (.ok [leafZero, leafOne]) = .ok page ∧
    (page.cpuidCount true (fun _ _ => .zero) leafOne.function 0 = leafOne.reported 0 ↔
      leafOne.isSignificant ∨ (0 : BitVec 32) = 0 ∨ leafOne.reported 0 = .zero) :=
  ⟨_, rfl, cpuidCount_eq_reported_iff _ rfl uniqueKeys_leaves
    (show leafOne ∈ imported false [leafZero, leafOne] by decide) ⟨rfl, by decide⟩⟩

/-- `cpuid` for leaf 1 with anything else than zero in ECX. -/
theorem signature_lost : ∃ page ecx, CpuidPage.default.importFromKvm (.ok [leafZero, leafOne]) = .ok page ∧
    KvmCpuidEntry.UniqueKeys (imported false [leafZero, leafOne]) ∧
    leafOne ∈ imported false [leafZero, leafOne] ∧ leafOne.Applies leafOne.function ecx ∧
    page.cpuidCount true (fun _ _ => .zero) leafOne.function ecx ≠ leafOne.reported ecx :=
  ⟨_, 1, rfl, uniqueKeys_leaves, by decide, ⟨rfl, by decide⟩, by decide⟩

end Enarx.Snp
