import Enarx.Backend.Loader
import Mathlib.Algebra.Order.BigOperators.Group.List
import Mathlib.Tactic.Common

/-!
# The launch measurement of SEV-SNP

`Hasher` predicts the digest that the firmware will have after `Builder` has
issued its commands for the same segments. The hash function is a parameter.
-/
namespace Enarx.Backend

inductive PageType where
  | normal
  | vmsa
  | zero
  | unmeasured
  | secrets
  | cpuid
  deriving DecidableEq, Repr

def PageType.code : PageType → Byte
  | .normal => 1
  | .vmsa => 2
  | .zero => 3
  | .unmeasured => 4
  | .secrets => 5
  | .cpuid => 6

structure PageInfo where
  digestCur : List Byte := List.replicate 48 0
  contents : List Byte := List.replicate 48 0
  length : BitVec 16 := 112
  pageType : Byte := 0
  imiPage : Byte := 0
  vmpl3Perms : Byte := 0
  vmpl2Perms : Byte := 0
  vmpl1Perms : Byte := 0
  rsvd : Byte := 0
  gpa : Word := 0
  deriving DecidableEq, Repr

def PageInfo.asBytes (info : PageInfo) : List Byte :=
  info.digestCur ++ info.contents ++ leBytes 2 info.length.toNat ++
    [info.pageType, info.imiPage, info.vmpl3Perms, info.vmpl2Perms, info.vmpl1Perms, info.rsvd] ++
    wordBytes info.gpa

/-- The digest of the initial state that KVM gives to a processor. -/
def SEV_SNP_VMSA_SHA384 : List Byte :=
  [242, 150, 129, 234, 78, 108, 210, 8, 181, 220, 115, 97, 177, 151, 18, 182, 194, 113, 247, 187,
    250, 103, 79, 153, 66, 190, 175, 127, 71, 49, 98, 212, 142, 95, 100, 3, 17, 10, 72, 80, 61, 36,
    68, 55, 240, 160, 163, 53]

def CPUID : BitVec 32 := 1 <<< 23

def SECRETS : BitVec 32 := 1 <<< 24

/-- A segment as the loader passes it: whole pages at a page, and a single page for the processor's
identification and for secrets. -/
structure Region where
  pages : List Byte
  toAddr : Word
  flags : BitVec 32
  whole : 4096 ∣ pages.length
  aligned : toAddr % PAGE_SIZE = 0
  single : flags &&& (CPUID ||| SECRETS) ≠ 0 → pages = [] ∨ pages.length = 4096

def chunk (pages : List Byte) (i : Nat) : List Byte := (pages.drop (i * 4096)).take 4096

section Prediction

variable (sha384 : List Byte → List Byte)

namespace Hasher

def update (digest : List Byte) (pageType : PageType) (toAddr : Word) (src : Option (List Byte)) :
    Option (List Byte) := do
  let info : PageInfo := { digestCur := digest, pageType := pageType.code, gpa := toAddr }
  match src with
  | none => return sha384 info.asBytes
  | some src =>
    guard (src.length = 4096)
    return sha384 { info with contents := sha384 src }.asBytes

def updateFinish (digest : List Byte) : List Byte :=
  sha384 (PageInfo.asBytes
    { digestCur := digest, pageType := PageType.vmsa.code, gpa := 0xFFFFFFFFF000,
      contents := SEV_SNP_VMSA_SHA384 })

def hash (digest pages : List Byte) (toAddr : Word) (flags : BitVec 32) : Option (List Byte) :=
  -- regions with no pages are ignored
  if pages.isEmpty then some digest
  else if flags &&& CPUID ≠ 0 then do
    guard (pages.length = 4096)
    update sha384 digest .cpuid toAddr none
  else if flags &&& SECRETS ≠ 0 then do
    guard (pages.length = 4096)
    update sha384 digest .secrets toAddr none
  else
    (List.range ((pages.length + 4095) / 4096)).foldlM (fun digest i =>
      update sha384 digest .normal (toAddr + BitVec.ofNat 64 i * PAGE_SIZE) (some (chunk pages i))) digest

def predict (regions : List Region) : Option (List Byte) :=
  (regions.foldlM (fun digest region => hash sha384 digest region.pages region.toAddr region.flags)
    (List.replicate 48 0)).map (updateFinish sha384)

end Hasher

structure Update where
  startGfn : Word
  uaddr : List Byte
  imiPage : Bool
  pageType : PageType
  vmpl3Perms : Byte
  vmpl2Perms : Byte
  vmpl1Perms : Byte

structure LaunchUpdate where
  startGfn : Word
  uaddr : List Byte
  len : BitVec 32
  imiPage : Byte
  pageType : PageType
  vmpl3Perms : Byte
  vmpl2Perms : Byte
  vmpl1Perms : Byte

def LaunchUpdate.ofUpdate (update : Update) : LaunchUpdate where
  startGfn := update.startGfn
  uaddr := update.uaddr
  len := BitVec.ofNat 32 update.uaddr.length
  imiPage := if update.imiPage then 1 else 0
  pageType := update.pageType
  vmpl3Perms := update.vmpl3Perms
  vmpl2Perms := update.vmpl2Perms
  vmpl1Perms := update.vmpl1Perms

namespace Firmware

def pageInfo (digest contents : List Byte) (pageType imiPage vmpl3 vmpl2 vmpl1 : Byte) (gpa : Word) :
    List Byte :=
  digest ++ contents ++ [0x70, 0, pageType, imiPage, vmpl3, vmpl2, vmpl1, 0] ++ wordBytes gpa

def contents (pageType : PageType) (page : List Byte) : List Byte :=
  match pageType with
  | .normal | .vmsa => sha384 page
  | .zero | .unmeasured | .secrets | .cpuid => List.replicate 48 0

def measurePage (command : LaunchUpdate) (digest : List Byte) (i : Nat) : List Byte :=
  sha384 (pageInfo digest (contents sha384 command.pageType (chunk command.uaddr i))
    command.pageType.code command.imiPage command.vmpl3Perms command.vmpl2Perms command.vmpl1Perms
    ((command.startGfn + BitVec.ofNat 64 i) <<< 12))

def measure (digest : List Byte) (command : LaunchUpdate) : List Byte :=
  (List.range (command.len.toNat / 4096)).foldl (measurePage sha384 command) digest

def finish (digest : List Byte) : List Byte :=
  sha384 (pageInfo digest SEV_SNP_VMSA_SHA384 2 0 0 0 0 0xFFFFFFFFF000)

end Firmware

/-- What the builder asks of the kernel and the firmware. -/
structure LaunchEnv where
  kvmBuilderMap : Region → Except String Unit
  cpuidPage : Except String { page : List Byte // page.length = 4096 }
  /-- The answer to each of the commands, in the order in which they are issued. -/
  accepts : Nat → Bool

/-- The digest of the firmware and the number of commands that have been issued. -/
structure Launcher where
  digest : List Byte
  issued : Nat

namespace Builder

variable (env : LaunchEnv)

def updateData (update : Update) (message : String) : Exec Stop Launcher Unit := do
  let launcher ← get
  if env.accepts launcher.issued then
    set (Launcher.mk (Firmware.measure sha384 launcher.digest (.ofUpdate update)) (launcher.issued + 1))
  else
    set { launcher with issued := launcher.issued + 1 }
    throw (.error message)

def orStop (result : Except String α) : Exec Stop Launcher α :=
  match result with
  | .ok value => pure value
  | .error message => throw (.error message)

def assertPage (pages : List Byte) : Exec Stop Launcher Unit :=
  if pages.length = 4096 then pure () else throw .panic

def newUpdate (toAddr : Word) (pages : List Byte) (pageType : PageType) : Update :=
  ⟨toAddr >>> 12, pages, false, pageType, 0, 0, 0⟩

def map (region : Region) : Exec Stop Launcher Unit := do
  -- regions with no pages are ignored
  if region.pages.isEmpty then return
  orStop (env.kvmBuilderMap region)
  if region.flags &&& CPUID ≠ 0 then
    assertPage region.pages
    let cpuidPage ← orStop (env.cpuidPage)
    let update := newUpdate region.toAddr cpuidPage.1 .cpuid
    -- try again with the values that the firmware has corrected
    tryCatch (updateData sha384 env update "")
      fun _ => updateData sha384 env update "launcher.update_data for CPUID failed"
  else if region.flags &&& SECRETS ≠ 0 then
    assertPage region.pages
    updateData sha384 env (newUpdate region.toAddr region.pages .secrets)
      "SNP Launcher update_data failed"
  else
    updateData sha384 env (newUpdate region.toAddr region.pages .normal)
      "SNP Launcher update_data failed"

def mapAll : List Region → Exec Stop Launcher Unit
  | [] => pure ()
  | region :: rest => do
    map sha384 env region
    mapAll rest

end Builder

def Region.pageType (region : Region) : PageType :=
  if region.flags &&& CPUID ≠ 0 then .cpuid
  else if region.flags &&& SECRETS ≠ 0 then .secrets
  else .normal

def Region.command (region : Region) : LaunchUpdate :=
  .ofUpdate (Builder.newUpdate region.toAddr region.pages region.pageType)

variable {sha384}

theorem PageInfo.asBytes_eq (digest contents : List Byte) (pageType : Byte) (gpa : Word) :
    PageInfo.asBytes { digestCur := digest, contents, pageType, gpa } =
      Firmware.pageInfo digest contents pageType 0 0 0 0 gpa := by
  simp [PageInfo.asBytes, Firmware.pageInfo, leBytes]

theorem Hasher.update_none (digest : List Byte) (pageType : PageType) (toAddr : Word) :
    Hasher.update sha384 digest pageType toAddr none = some (sha384
      (Firmware.pageInfo digest (List.replicate 48 0) pageType.code 0 0 0 0 toAddr)) := by
  rw [← PageInfo.asBytes_eq]
  rfl

theorem Hasher.update_some (digest : List Byte) (pageType : PageType) (toAddr : Word)
    {src : List Byte} (h : src.length = 4096) :
    Hasher.update sha384 digest pageType toAddr (some src) = some (sha384
      (Firmware.pageInfo digest (sha384 src) pageType.code 0 0 0 0 toAddr)) := by
  rw [← PageInfo.asBytes_eq]
  simp [Hasher.update, h]

theorem Hasher.updateFinish_eq (digest : List Byte) :
    Hasher.updateFinish sha384 digest = Firmware.finish sha384 digest := by
  rw [Hasher.updateFinish, PageInfo.asBytes_eq]
  rfl

theorem frame_shift {toAddr : Word} (h : toAddr % PAGE_SIZE = 0) (i : Word) :
    (toAddr >>> 12 + i) <<< 12 = toAddr + i * PAGE_SIZE := by
  have haligned : toAddr.toNat % 4096 = 0 := congrArg BitVec.toNat h
  have hto := toAddr.isLt
  apply BitVec.eq_of_toNat_eq
  simp only [BitVec.toNat_shiftLeft, BitVec.toNat_add, BitVec.toNat_ushiftRight, BitVec.toNat_mul,
    Nat.shiftLeft_eq, Nat.shiftRight_eq_div_pow]
  have hpage : PAGE_SIZE.toNat = 4096 := rfl
  rw [hpage]
  omega

theorem length_chunk {pages : List Byte} {i : Nat} (h : (i + 1) * 4096 ≤ pages.length) :
    (chunk pages i).length = 4096 := by
  rw [chunk, List.length_take, List.length_drop]
  omega

theorem foldlM_eq_some {f : β → α → Option β} {g : β → α → β} {l : List α}
    (h : ∀ a ∈ l, ∀ b, f b a = some (g b a)) (b : β) : l.foldlM f b = some (l.foldl g b) := by
  induction l generalizing b with
  | nil => rfl
  | cons a l ih =>
    rw [List.foldlM_cons, h a (.head _), Option.bind_eq_bind, Option.bind_some,
      ih fun a ha => h a (.tail _ ha)]
    rfl

theorem Region.pageType_eq_normal_iff (region : Region) :
    region.pageType = .normal ↔ region.flags &&& (CPUID ||| SECRETS) = 0 := by
  rw [BitVec.and_or_distrib_left]
  refine Iff.trans ?_ BitVec.or_eq_zero_iff.symm
  unfold Region.pageType
  split
  · next h => exact iff_of_false nofun fun hboth => h hboth.1
  · next h =>
    split
    · next h' => exact iff_of_false nofun fun hboth => h' hboth.2
    · next h' => exact iff_of_true rfl ⟨not_not.mp h, not_not.mp h'⟩

theorem Region.length_of_special {region : Region} {flag : BitVec 32}
    (hflag : flag = CPUID ∨ flag = SECRETS) (h : region.flags &&& flag ≠ 0)
    (hpages : region.pages ≠ []) : region.pages.length = 4096 := by
  refine (region.single fun hnone => h ?_).resolve_left hpages
  have hboth := BitVec.or_eq_zero_iff.mp (BitVec.and_or_distrib_left.symm.trans hnone)
  rcases hflag with rfl | rfl
  · exact hboth.1
  · exact hboth.2

theorem Region.measurePage_eq (region : Region) (digest : List Byte) (i : Nat) :
    Firmware.measurePage sha384 region.command digest i = sha384 (Firmware.pageInfo digest
        (Firmware.contents sha384 region.pageType (chunk region.pages i)) region.pageType.code 0 0 0 0
        (region.toAddr + BitVec.ofNat 64 i * PAGE_SIZE)) := by
  rw [← frame_shift region.aligned]
  rfl

theorem Hasher.hash_eq (digest : List Byte) (region : Region) :
    Hasher.hash sha384 digest region.pages region.toAddr region.flags =
      some ((List.range (region.pages.length / 4096)).foldl
        (Firmware.measurePage sha384 region.command) digest) := by
  obtain ⟨count, hcount⟩ := region.whole
  by_cases hpages : region.pages = []
  · simp [Hasher.hash, hpages]
  · rw [Hasher.hash, if_neg (by simpa using hpages)]
    by_cases hcpuid : region.flags &&& CPUID ≠ 0
    · have hlength := Region.length_of_special (.inl rfl) hcpuid hpages
      have htype : region.pageType = .cpuid := if_pos hcpuid
      rw [if_pos hcpuid, hlength, Hasher.update_none]
      simp [Region.measurePage_eq, htype, Firmware.contents]
    · by_cases hsecrets : region.flags &&& SECRETS ≠ 0
      · have hlength := Region.length_of_special (.inr rfl) hsecrets hpages
        have htype : region.pageType = .secrets := (if_neg hcpuid).trans (if_pos hsecrets)
        rw [if_neg hcpuid, if_pos hsecrets, hlength, Hasher.update_none]
        simp [Region.measurePage_eq, htype, Firmware.contents]
      · have htype : region.pageType = .normal := (if_neg hcpuid).trans (if_neg hsecrets)
        have hchunks : (region.pages.length + 4095) / 4096 = region.pages.length / 4096 := by omega
        rw [if_neg hcpuid, if_neg hsecrets, hchunks]
        apply foldlM_eq_some
        intro i hi digest
        have hlength : (chunk region.pages i).length = 4096 :=
          length_chunk (by have := List.mem_range.mp hi; omega)
        rw [Hasher.update_some _ _ _ hlength, Region.measurePage_eq, htype]
        rfl

theorem Builder.updateData_apply (env : LaunchEnv) (update : Update) (message : String)
    (launcher : Launcher) : Builder.updateData sha384 env update message launcher =
      if env.accepts launcher.issued then
        (.ok (), ⟨Firmware.measure sha384 launcher.digest (.ofUpdate update), launcher.issued + 1⟩)
      else (.error (.error message), ⟨launcher.digest, launcher.issued + 1⟩) := by
  change (if env.accepts launcher.issued then set _ else _ : Exec Stop Launcher Unit) launcher = _
  split
  · rfl
  · rfl

variable {launcher next : Launcher}

theorem Builder.updateData_ok {env : LaunchEnv} {update : Update} {message : String}
   
    (h : Builder.updateData sha384 env update message launcher = (.ok (), next)) :
    next.digest = Firmware.measure sha384 launcher.digest (.ofUpdate update) := by
  rw [Builder.updateData_apply] at h
  split at h
  · cases h
    rfl
  · cases h

theorem Builder.updateData_retry_ok {env : LaunchEnv} {update : Update} {first second : String}
   
    (h : (tryCatch (Builder.updateData sha384 env update first)
      fun _ => Builder.updateData sha384 env update second) launcher = (.ok (), next)) :
    next.digest = Firmware.measure sha384 launcher.digest (.ofUpdate update) := by
  rw [Exec.tryCatch_apply, Builder.updateData_apply] at h
  split at h
  · next hfirst =>
    split at hfirst
    · cases hfirst
      cases h
      rfl
    · cases hfirst
  · next hfirst =>
    split at hfirst
    · cases hfirst
    · cases hfirst
      have hsecond := Builder.updateData_ok h
      exact hsecond

theorem Builder.orStop_ok {result : Except String α} {value : α}
    (h : Builder.orStop result launcher = (.ok value, next)) : next = launcher := by
  cases result <;> cases h
  rfl

theorem Builder.assertPage_ok {pages : List Byte} (h : Builder.assertPage pages launcher = (.ok (), next)) :
    pages.length = 4096 ∧ next = launcher := by
  unfold Builder.assertPage at h
  split at h
  · next hlength =>
    cases h
    exact ⟨hlength, rfl⟩
  · cases h

theorem Firmware.measure_cpuid (digest : List Byte) (toAddr : Word) {left right : List Byte}
    (h : left.length = right.length) :
    Firmware.measure sha384 digest (.ofUpdate (Builder.newUpdate toAddr left .cpuid)) =
      Firmware.measure sha384 digest (.ofUpdate (Builder.newUpdate toAddr right .cpuid)) := by
  simp only [Firmware.measure, LaunchUpdate.ofUpdate, Builder.newUpdate, h]
  rfl

theorem Builder.map_ok {env : LaunchEnv} {region : Region}
    (h : Builder.map sha384 env region launcher = (.ok (), next)) :
    next.digest = Firmware.measure sha384 launcher.digest region.command := by
  unfold Builder.map at h
  split at h
  · next hempty =>
    cases h
    simp [Firmware.measure, Region.command, LaunchUpdate.ofUpdate, Builder.newUpdate,
      List.isEmpty_iff.mp hempty]
  · obtain ⟨_, _, hregion, hrun⟩ := Exec.bind_ok h
    cases Builder.orStop_ok hregion
    split at hrun
    · next hcpuid =>
      have htype : region.pageType = .cpuid := if_pos hcpuid
      obtain ⟨_, _, hassert, hpage⟩ := Exec.bind_ok hrun
      obtain ⟨hlength, rfl⟩ := Builder.assertPage_ok hassert
      obtain ⟨cpuidPage, _, himport, hupdate⟩ := Exec.bind_ok hpage
      cases Builder.orStop_ok himport
      rw [Builder.updateData_retry_ok hupdate, Region.command, htype]
      exact Firmware.measure_cpuid _ _ (cpuidPage.2.trans hlength.symm)
    · next hcpuid =>
      split at hrun
      · next hsecrets =>
        have htype : region.pageType = .secrets := (if_neg hcpuid).trans (if_pos hsecrets)
        obtain ⟨_, _, hassert, hupdate⟩ := Exec.bind_ok hrun
        obtain ⟨-, rfl⟩ := Builder.assertPage_ok hassert
        rw [Builder.updateData_ok hupdate, Region.command, htype]
      · next hsecrets =>
        have htype : region.pageType = .normal := (if_neg hcpuid).trans (if_neg hsecrets)
        rw [Builder.updateData_ok hrun, Region.command, htype]

theorem Builder.mapAll_ok {env : LaunchEnv} {regions : List Region}
    (h : Builder.mapAll sha384 env regions launcher = (.ok (), next)) :
    next.digest = regions.foldl (fun digest region =>
      Firmware.measure sha384 digest region.command) launcher.digest := by
  induction regions generalizing launcher with
  | nil =>
    cases h
    rfl
  | cons region rest ih =>
    obtain ⟨_, middle, hmap, hrest⟩ := Exec.bind_ok h
    rw [List.foldl_cons, ← Builder.map_ok hmap]
    exact ih hrest

end Prediction

def Region.Short (region : Region) : Prop :=
  region.pageType = .normal → region.pages.length < 2 ^ 32

theorem Region.short_iff (region : Region) :
    region.Short ↔ region.command.len.toNat = region.pages.length := by
  have hlen : region.command.len.toNat = region.pages.length % 2 ^ 32 := BitVec.toNat_ofNat _ _
  rw [hlen]
  constructor
  · intro h
    by_cases htype : region.pageType = .normal
    · exact Nat.mod_eq_of_lt (h htype)
    · rw [Region.pageType_eq_normal_iff] at htype
      rcases region.single htype with hpages | hpages
      · rw [hpages]
        rfl
      · rw [hpages]
        rfl
  · intro h _
    omega

section Sizes

def LaunchUpdate.growth (command : LaunchUpdate) : Nat → Nat
  | 0 => 0
  | i + 1 => command.growth i +
    ((Firmware.contents id command.pageType (chunk command.uaddr i)).length + 16)

theorem LaunchUpdate.growth_strictMono (command : LaunchUpdate) : StrictMono command.growth :=
  strictMono_nat_of_lt_succ fun i => by simp only [LaunchUpdate.growth]; omega

theorem LaunchUpdate.length_pages (command : LaunchUpdate) (digest : List Byte) (count : Nat) :
    ((List.range count).foldl (Firmware.measurePage id command) digest).length =
      digest.length + command.growth count := by
  induction count with
  | zero => rfl
  | succ i ih =>
    rw [List.range_succ, List.foldl_append, List.foldl_cons, List.foldl_nil]
    simp only [Firmware.measurePage, Firmware.pageInfo, id_eq, List.length_append, ih,
      length_wordBytes, List.length_cons, List.length_nil, LaunchUpdate.growth]
    omega

theorem length_foldl {f : List Byte → α → List Byte} {size : α → Nat}
    (h : ∀ digest a, (f digest a).length = digest.length + size a) (l : List α)
    (digest : List Byte) : (l.foldl f digest).length = digest.length + (l.map size).sum := by
  induction l generalizing digest with
  | nil => rfl
  | cons a l ih =>
    rw [List.foldl_cons, ih, h, List.map_cons, List.sum_cons, Nat.add_assoc]

theorem eq_of_sum_eq {f g : α → Nat} {l : List α} (hle : ∀ a ∈ l, f a ≤ g a)
    (hsum : (l.map f).sum = (l.map g).sum) : ∀ a ∈ l, f a = g a := by
  induction l with
  | nil => simp
  | cons a l ih =>
    rw [List.forall_mem_cons] at hle ⊢
    simp only [List.map_cons, List.sum_cons] at hsum
    have hrest : (l.map f).sum ≤ (l.map g).sum := List.sum_le_sum hle.2
    have ha := hle.1
    exact ⟨by omega, ih hle.2 (by omega)⟩

end Sizes

theorem Hasher.predict_eq (sha384 : List Byte → List Byte) (regions : List Region) :
    Hasher.predict sha384 regions = some (Firmware.finish sha384
      (regions.foldl (fun digest region => (List.range (region.pages.length / 4096)).foldl
        (Firmware.measurePage sha384 region.command) digest) (List.replicate 48 0))) := by
  rw [Hasher.predict, foldlM_eq_some fun region _ digest => Hasher.hash_eq digest region,
    Option.map_some, Hasher.updateFinish_eq]

def grantingEnv : LaunchEnv where
  kvmBuilderMap _ := .ok ()
  cpuidPage := .ok ⟨List.replicate 4096 0, List.length_replicate⟩
  accepts _ := true

theorem Builder.map_granting (sha384 : List Byte → List Byte) (region : Region) (launcher : Launcher) :
    ∃ next, Builder.map sha384 grantingEnv region launcher = (.ok (), next) := by
  have hassert {pages : List Byte} (h : pages.length = 4096) (launcher : Launcher) :
      Builder.assertPage pages launcher = (.ok (), launcher) := by
    rw [Builder.assertPage, if_pos h]
    rfl
  unfold Builder.map
  split
  · exact ⟨launcher, rfl⟩
  · next hpages =>
    rw [List.isEmpty_iff] at hpages
    rw [Exec.bind_of_ok (show Builder.orStop _ launcher = (.ok (), launcher) from rfl)]
    split
    · next hcpuid =>
      rw [Exec.bind_of_ok (hassert (Region.length_of_special (.inl rfl) hcpuid hpages) launcher)]
      exact ⟨_, rfl⟩
    · split
      · next hsecrets =>
        rw [Exec.bind_of_ok (hassert (Region.length_of_special (.inr rfl) hsecrets hpages) launcher)]
        exact ⟨_, rfl⟩
      · exact ⟨_, rfl⟩

theorem Builder.mapAll_granting (sha384 : List Byte → List Byte) (regions : List Region)
    (launcher : Launcher) : ∃ next, Builder.mapAll sha384 grantingEnv regions launcher = (.ok (), next) := by
  induction regions generalizing launcher with
  | nil => exact ⟨launcher, rfl⟩
  | cons region rest ih =>
    obtain ⟨middle, hmap⟩ := Builder.map_granting sha384 region launcher
    obtain ⟨next, hrest⟩ := ih middle
    exact ⟨next, (Exec.bind_of_ok hmap).trans hrest⟩

theorem short_of_finish_eq {regions : List Region} (digest : List Byte)
    (h : Firmware.finish id (regions.foldl (fun digest region =>
        (List.range (region.pages.length / 4096)).foldl
          (Firmware.measurePage id region.command) digest) digest) =
      Firmware.finish id (regions.foldl (fun digest region =>
        Firmware.measure id digest region.command) digest)) : ∀ region ∈ regions, region.Short := by
  have hlength := congrArg List.length h
  simp only [Firmware.finish, Firmware.pageInfo, id_eq, List.length_append, length_wordBytes,
    Nat.add_right_cancel_iff] at hlength
  rw [length_foldl fun digest region => region.command.length_pages digest _,
    length_foldl fun digest region => region.command.length_pages digest _,
    Nat.add_left_cancel_iff] at hlength
  have hle : ∀ region ∈ regions, region.command.growth (region.command.len.toNat / 4096) ≤
      region.command.growth (region.pages.length / 4096) := by
    intro region _
    have hlen : region.command.len.toNat = region.pages.length % 2 ^ 32 := BitVec.toNat_ofNat _ _
    apply region.command.growth_strictMono.monotone
    exact Nat.div_le_div_right (hlen ▸ Nat.mod_le _ _)
  intro region hregion
  have hgrowth := eq_of_sum_eq hle hlength.symm region hregion
  have hpages := region.command.growth_strictMono.injective hgrowth
  have hlen : region.command.len.toNat = region.pages.length % 2 ^ 32 := BitVec.toNat_ofNat _ _
  have hwhole := region.whole
  rw [Region.short_iff]
  omega

/-- The prediction is what is launched, for every hash function and every kernel, exactly if no
region of normal pages has 4 GiB or more. -/
theorem predicted_measurement_iff (regions : List Region) : (∀ sha384 env launcher,
      Builder.mapAll sha384 env regions ⟨List.replicate 48 0, 0⟩ = (.ok (), launcher) →
        Hasher.predict sha384 regions = some (Firmware.finish sha384 launcher.digest)) ↔
      ∀ region ∈ regions, region.pageType = .normal → region.pages.length < 2 ^ 32 := by
  constructor
  · intro h
    obtain ⟨launcher, hlaunch⟩ := Builder.mapAll_granting id regions ⟨List.replicate 48 0, 0⟩
    have hdigest := h id grantingEnv launcher hlaunch
    rw [Hasher.predict_eq, Builder.mapAll_ok hlaunch] at hdigest
    exact short_of_finish_eq _ (Option.some.inj hdigest)
  · intro h sha384 env launcher hlaunch
    rw [Hasher.predict_eq, Builder.mapAll_ok hlaunch]
    congr 2
    apply List.foldl_ext
    intro digest region hregion
    rw [Firmware.measure, (Region.short_iff region).mp (h region hregion)]

def hugeRegion : Region where
  pages := List.replicate (2 ^ 32) 0
  toAddr := 0
  flags := 0
  whole := ⟨2 ^ 20, List.length_replicate⟩
  aligned := rfl
  single h := absurd rfl h

/-- The length of the command wraps to zero, and the firmware measures nothing of the region. -/
theorem predicted_measurement_differs :
    ∃ launcher, Builder.mapAll id grantingEnv [hugeRegion] ⟨List.replicate 48 0, 0⟩ =
        (.ok (), launcher) ∧ launcher.digest = List.replicate 48 0 ∧
      Hasher.predict id [hugeRegion] ≠ some (Firmware.finish id launcher.digest) := by
  obtain ⟨launcher, hlaunch⟩ := Builder.mapAll_granting id [hugeRegion] ⟨List.replicate 48 0, 0⟩
  have hdigest := Builder.mapAll_ok hlaunch
  have hlength : hugeRegion.pages.length = 2 ^ 32 := List.length_replicate
  have hlen : hugeRegion.command.len = 0 :=
    (congrArg (BitVec.ofNat 32) hlength).trans (by decide)
  refine ⟨launcher, hlaunch, ?_, fun h => ?_⟩
  · rw [hdigest, List.foldl_cons, List.foldl_nil, Firmware.measure, hlen]
    rfl
  · rw [Hasher.predict_eq, hdigest] at h
    have hshort := short_of_finish_eq _ (Option.some.inj h) hugeRegion (.head _)
      ((Region.pageType_eq_normal_iff _).mpr rfl)
    omega

end Enarx.Backend
