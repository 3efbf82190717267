import Mathlib.Data.Finset.Card
import Enarx.Kvm.Lines
import Enarx.Kvm.Rollback

/-!
# What the calls of the workload do

For `brk`, `mmap` and `munmap` once: what has become of the mapped pages, of their
owners and of the lines.
-/
namespace Enarx.Kvm

open Alloc PageTables

def release (own : Nat → Owner) (frames : List Nat) : Nat → Owner := fun n =>
  if n ∈ frames then .free else own n

section

variable {c : CBit} {bottom : Nat} {stale : Set Nat} {own own' : Nat → Owner} {memory before after : Memory}
  {walk : List VirtAddr}

theorem release_nil (own : Nat → Owner) : release own [] = own := by
  funext n
  simp [release]

theorem release_assign (own : Nat → Owner) (n : Nat) (frames : List Nat) :
    release (assign own n 1 .free) frames = release own (n :: frames) := by
  funext k
  by_cases hk : k = n
  · simp [release, assign, hk]
  · have hassign : assign own n 1 .free k = own k := assign_outside (by omega)
    simp [release, hassign, hk]

theorem room_release (bottom : Nat) (own : Nat → Owner) (frames : List Nat) :
    room bottom (release own frames) ≤ room bottom own + frames.length := by
  have hsub : { n | bottom ≤ n ∧ n < 2 ^ 27 ∧ (release own frames n).Loose } ⊆
      { n | bottom ≤ n ∧ n < 2 ^ 27 ∧ (own n).Loose } ∪ (frames.toFinset : Set Nat) := by
    rintro n ⟨hlo, hhi, hloose⟩
    by_cases hn : n ∈ frames
    · exact .inr (by simpa using hn)
    · rw [release, if_neg hn] at hloose
      exact .inl ⟨hlo, hhi, hloose⟩
  calc room bottom (release own frames)
      ≤ ({ n | bottom ≤ n ∧ n < 2 ^ 27 ∧ (own n).Loose } ∪ (frames.toFinset : Set Nat)).ncard :=
        Set.ncard_le_ncard hsub ((finite_room bottom own).union (Finset.finite_toSet _))
    _ ≤ room bottom own + (frames.toFinset : Set Nat).ncard := Set.ncard_union_le _ _
    _ ≤ room bottom own + frames.length := by
        rw [Set.ncard_coe_finset]
        exact Nat.add_le_add_left (List.toFinset_card_le frames) _

theorem room_le_pages (bottom : Nat) (own : Nat → Owner) : room bottom own ≤ 2 ^ 27 - bottom := by
  have hsub : { n | bottom ≤ n ∧ n < 2 ^ 27 ∧ (own n).Loose } ⊆ (Finset.Ico bottom (2 ^ 27) : Set Nat) := by
    rintro n ⟨hlo, hhi, -⟩
    simpa using ⟨hlo, hhi⟩
  have hcard := Set.ncard_le_ncard hsub (Finset.finite_toSet _)
  rwa [Set.ncard_coe_finset, Nat.card_Ico] at hcard

variable {addr page : VirtAddr} {n : Nat} {frames : List Nat}

theorem frame?_congr_page {tables : PageTables} (htidy : tables.Tidy c)
    (hsmall : tables.mapsSmall c page = true) (hpage : addr.page = page.page) :
    tables.frame? c addr = tables.frame? c page := by
  rw [mapsSmall, lastEntry?] at hsmall
  cases htable : tables.tableAt c page.stem with
  | none =>
    rw [htable] at hsmall
    cases hsmall
  | some table =>
    rw [htable, Option.map_some, Option.any_some, decide_eq_true_eq] at hsmall
    obtain ⟨pa, hpa, hraw⟩ := (htidy.entries page.p1Index page.length_stem.le htable).small page.length_stem hsmall.1
    have hleaf : ∀ other : VirtAddr, other.page = page.page → tables.frame? c other = some (pa / SIZE_4_KIB) := by
      intro other hother
      have hpath : other.path = page.stem ++ [page.p1Index] := VirtAddr.path_eq_iff.mpr hother
      have hentry : tables.leaf? c other = some (tables.entry table page.p1Index, []) := by
        rw [leaf?_of_path htable hpath, asLeaf, if_pos hsmall.1]
      rw [frame?_of_leaf? hentry, leafFrame_small c (Nat.mod_lt _ (by decide)) hsmall.1 hpa hraw]
    rw [hleaf addr hpage, hleaf page rfl]

structure Releases (c : CBit) (bottom : Nat) (stale : Set Nat) (own : Nat → Owner) (before : Memory)
    (walk : List VirtAddr) (frames : List Nat) (after : Memory) : Prop where
  owns : after.Owns c bottom stale (release own frames)
  leaf? : ∀ addr : VirtAddr, after.tables.leaf? c addr =
    if addr.page ∈ walk.map VirtAddr.page then none else before.tables.leaf? c addr
  memory : List.Forall₂ (fun page n => ∀ addr : VirtAddr, addr.page = page.page →
    before.tables.frame? c addr = some n) walk frames
  nodup : frames.Nodup
  owner : ∀ n ∈ frames, ∃ page, own n = .user page
  returned : after.returned = before.returned ++ frames
  kept : Kept (release own frames) before after
  lines : after.lines = before.lines
  mapFailed : after.mapFailed = before.mapFailed

theorem Releases.nil (h : memory.Owns c bottom stale own) : Releases c bottom stale own memory [] [] memory where
  owns := (release_nil own).symm ▸ h
  leaf? _ := rfl
  memory := .nil
  nodup := .nil
  owner := nofun
  returned := (List.append_nil _).symm
  kept _ _ _ := rfl
  lines := rfl
  mapFailed := rfl

theorem Releases.cons {middle : Memory}
    (htidy : before.tables.Tidy c) (hstep : UnmapStep c before page middle)
    (hfrees : Frees c own before page n middle) (hframe : before.tables.frame? c page = some n)
    (h : Releases c bottom stale (assign own n 1 .free) middle walk frames after) :
    Releases c bottom stale own before (page :: walk) (n :: frames) after := by
  have howner : ∀ k ∈ frames, k ≠ n ∧ ∃ page, own k = .user page := by
    intro k hk
    obtain ⟨other, hother⟩ := h.owner k hk
    by_cases hkn : n ≤ k ∧ k < n + 1
    · rw [assign_inside hkn] at hother
      cases hother
    · rw [assign_outside hkn] at hother
      exact ⟨by omega, other, hother⟩
  -- what is mapped after the step was mapped before
  have hstill : ∀ (addr : VirtAddr) (k : Nat), middle.tables.frame? c addr = some k →
      before.tables.frame? c addr = some k := by
    intro addr k hk
    have hleaf := hfrees.leaf? addr
    split at hleaf
    · rw [frame?_of_none hleaf] at hk
      cases hk
    · rwa [frame?_congr hleaf] at hk
  exact {
    owns := release_assign own n frames ▸ h.owns
    leaf? := by
      intro addr
      rw [h.leaf? addr, hfrees.leaf? addr, List.map_cons]
      by_cases hpage : addr.page = page.page
      · simp [hpage]
      · simp [hpage]
    memory := by
      refine .cons (fun addr haddr => ?_) (h.memory.imp fun page k hk addr haddr => hstill addr k (hk addr haddr))
      rw [frame?_congr_page htidy hstep.mapsSmall_before haddr, hframe]
    nodup := List.nodup_cons.mpr ⟨fun hmem => (howner n hmem).1 rfl, h.nodup⟩
    owner := by
      rintro k (_ | ⟨_, hk⟩)
      · exact ⟨page.page, hfrees.owner⟩
      · exact (howner k hk).2
    returned := by rw [h.returned, hfrees.returned, List.append_assoc, List.singleton_append]
    kept := by
      intro virt hvirt hinUse
      have hbefore : (own virt.memPage).InUse := by
        rw [release] at hinUse
        split at hinUse
        · simp [Owner.InUse] at hinUse
        · exact hinUse
      rw [h.kept virt hvirt (release_assign own n frames ▸ hinUse), hfrees.kept virt hvirt hbefore]
    lines := by
      obtain ⟨table, shimPage, -, -, -, rfl⟩ := hstep
      exact h.lines
    mapFailed := by
      obtain ⟨table, shimPage, -, -, -, rfl⟩ := hstep
      exact h.mapFailed }

theorem Memory.Owns.unmapSteps (h : memory.Owns c bottom stale own) (hsteps : UnmapSteps c memory walk after)
    (hwalk : ∀ page ∈ walk, ¬page.InWindow ∧ page.page ∉ stale) :
    ∃ frames, Releases c bottom stale own memory walk frames after := by
  induction hsteps generalizing own with
  | nil => exact ⟨[], .nil h⟩
  | cons step steps ih =>
    obtain ⟨hout, hfresh⟩ := hwalk _ List.mem_cons_self
    obtain ⟨n, howns, hfrees, hframe⟩ := h.unmapStep step hout hfresh
    obtain ⟨frames, hrest⟩ := ih howns fun page hpage => hwalk page (List.mem_cons_of_mem _ hpage)
    exact ⟨n :: frames, .cons h.tidy step hfrees hframe hrest⟩

theorem Releases.room_le (h : Releases c bottom stale own before walk frames after) :
    room bottom (release own frames) ≤ room bottom own + walk.length :=
  h.memory.length_eq ▸ room_release bottom own frames

theorem Releases.count (h : Releases c bottom stale own before walk frames after)
    (hframe : before.tables.frame? c addr = some n)
    (hnone : after.tables.leaf? c addr = none) : frames.count n = 1 := by
  have hmem : addr.page ∈ walk.map VirtAddr.page := by
    by_contra hnot
    have hleaf := h.leaf? addr
    rw [if_neg hnot, hnone] at hleaf
    rw [frame?_of_none hleaf.symm] at hframe
    cases hframe
  obtain ⟨page, hpage, heq⟩ := List.mem_map.mp hmem
  have hframes : ∀ {walk : List VirtAddr} {frames : List Nat}, List.Forall₂ (fun page n =>
      ∀ addr : VirtAddr, addr.page = page.page → before.tables.frame? c addr = some n) walk frames →
      page ∈ walk → n ∈ frames := by
    intro walk frames hall hpage
    induction hall with
    | nil => cases hpage
    | cons hhead _ ih =>
      rcases List.mem_cons.mp hpage with rfl | hrest
      · rw [hhead addr heq.symm, Option.some.injEq] at hframe
        exact hframe ▸ List.mem_cons_self
      · exact List.mem_cons_of_mem _ (ih hrest)
  exact List.count_eq_one_of_mem h.nodup (hframes h.memory hpage)

end

/-- A request has been declined. The lines are where they were, and if no page could not be mapped, so is
everything else. -/
structure Declined (c : CBit) (bottom : Nat) (stale : Set Nat) (own : Nat → Owner) (before after : Memory) : Prop where
  lines : after.lines = before.lines
  untouched : after.mapFailed = false → Untouched c bottom stale own before after

structure Unserved (host : Host) (bottom : Nat) (stale : Set Nat) (flags : PageTableFlags) (own : Nat → Owner)
    (before : Memory) (mapTo : VirtAddr) (npages : Nat) (after : Memory) : Prop where
  lines : after.lines = before.lines
  stopped : Stopped host bottom stale flags USER_TABLE_FLAGS own before mapTo.page npages after

structure Granted (c : CBit) (bottom : Nat) (stale : Set Nat) (flags : PageTableFlags) (own : Nat → Owner)
    (before : Memory) (mapTo : VirtAddr) (npages : Nat) (after : Memory) : Prop where
  aligned : SIZE_4_KIB ∣ mapTo.raw
  pos : 0 < npages
  lines : after.lines = before.lines
  served : Served c bottom stale flags own before mapTo.page npages (IsRange mapTo.page npages) after

section

variable {host : Host} {bottom : Nat} {stale : Set Nat} {own : Nat → Owner} {memory after : Memory}

theorem Unserved.declined {flags : PageTableFlags} {mapTo : VirtAddr} {npages : Nat}
    (h : Unserved host bottom stale flags own memory mapTo npages after) :
    Declined host.cBit bottom stale own memory after := by
  refine ⟨h.lines, fun hok => ?_⟩
  rcases h.stopped with huntouched | ⟨hfailed, -⟩
  · exact huntouched
  · rw [hok] at hfailed
    cases hfailed

theorem request_yields (h : memory.Owns host.cBit bottom stale own) {flags : PageTableFlags}
    (hpresent : flags.present = true) (f : AllocateError → ε) (fuel : Nat) (mapTo : VirtAddr) (size : Nat) :
    Exec.Yields (mapErr f (allocateAndMapMemory host flags USER_TABLE_FLAGS fuel mapTo size)) memory
      (fun _ after => ∃ npages, size = SIZE_4_KIB * npages ∧
        Granted host.cBit bottom stale flags own memory mapTo npages after)
      (Stop.Allows fun _ => Unserved host bottom stale flags own memory mapTo (size / SIZE_4_KIB)) := by
  have hparent : USER_TABLE_FLAGS.hugePage = false := rfl
  have hyields := (allocateAndMapMemory_yields hpresent hparent fuel h mapTo size).and
    ((KeepsLines.allocateAndMapMemory host flags USER_TABLE_FLAGS fuel mapTo size).yields memory)
  refine mapErr_yields (E := fun _ => Unserved host bottom stale flags own memory mapTo (size / SIZE_4_KIB))
    (hyields.imp ?_ ?_) fun _ _ => id
  · rintro _ after ⟨⟨haligned, ⟨npages, rfl⟩, hpos, hserved, -⟩, hlines⟩
    rw [Nat.mul_div_cancel_left _ (by decide)] at hserved
    exact ⟨npages, rfl, haligned, Nat.pos_of_mul_pos_left hpos, hlines, hserved⟩
  · rintro (error | _ | _) after ⟨hstopped, hlines⟩
    · exact ⟨hlines, hstopped⟩
    · exact trivial
    · exact trivial

/-- The pages are those that are mapped, or that have been granted. -/
abbrev BrkMoves (c : CBit) (bottom : Nat) (stale : Set Nat) (own : Nat → Owner) (before : Memory) (addr : Nat) :
    Memory → Prop :=
  BrkDone (fun start len => UnmapSteps c before (unmapWalk start len))
    (fun size middle => ∃ npages, size = SIZE_4_KIB * npages ∧
      Granted c bottom stale USER_TABLE_FLAGS own before before.brkEnd npages middle) before addr

theorem brk_moves (h : memory.Owns host.cBit bottom stale own) (fuel addr : Nat) :
    Exec.Yields (brk host fuel (some addr)) memory
      (fun result after => result = addr ∧ memory.brkStart.raw ≤ addr ∧
        BrkMoves host.cBit bottom stale own memory addr after)
      (Stop.Allows fun _ => Declined host.cBit bottom stale own memory) := by
  apply brk_done
  · exact fun _ => ⟨rfl, fun _ => h.calm.untouched⟩
  · exact fun start len hlen => allows_of_lets (unmapMemory_yields start hlen)
  · intro _ size
    exact (request_yields h rfl _ fuel _ _).imp (fun _ _ => id) fun _ _ hstop => hstop.imp fun _ => Unserved.declined

def protFlags (prot : Sallyport.CInt) : PageTableFlags where
  present := true
  userAccessible := true
  writable := prot &&& PROT_WRITE ≠ 0
  noExecute := prot &&& PROT_EXEC = 0

/-- `mmap` has mapped so many pages at the next address. -/
inductive MmapMoves (c : CBit) (bottom : Nat) (stale : Set Nat) (own : Nat → Owner) (before : Memory)
    (length : Nat) (prot : Sallyport.CInt) : Memory → Prop where
  | grown {npages : Nat} {next : VirtAddr} {middle : Memory} (hle : length ≤ SIZE_4_KIB * npages)
      (hlt : SIZE_4_KIB * npages < length + SIZE_4_KIB)
      (hnext : before.nextMmap.add (SIZE_4_KIB * npages) = some next)
      (hgranted : Granted c bottom stale (protFlags prot) own before before.nextMmap npages middle) :
      MmapMoves c bottom stale own before length prot { middle with nextMmap := next }

theorem mmap_moves (h : memory.Owns host.cBit bottom stale own) (fuel : Nat) (addr : Option Nat) (length : Nat)
    (prot flags fd : Sallyport.CInt) (offset : BitVec 64) :
    Exec.Yields (mmap host fuel addr length prot flags fd offset) memory
      (fun result after => result = memory.nextMmap.raw ∧
        MmapMoves host.cBit bottom stale own memory length prot after)
      (Stop.Allows fun _ after => ∃ npages, length ≤ SIZE_4_KIB * npages ∧
        SIZE_4_KIB * npages < length + SIZE_4_KIB ∧
        Unserved host bottom stale (protFlags prot) own memory memory.nextMmap npages after) := by
  unfold mmap
  split
  case isFalse => exact trivial
  case isTrue =>
    apply Exec.Yields.get_bind
    refine (unwrap_yields _ _).bind ?_
    rintro lenAligned _ ⟨haligned, rfl⟩
    obtain ⟨hle, pages, rfl⟩ := alignUp_spec haligned
    have hlt := alignUp_lt haligned
    have hpresent : (protFlags prot).present = true := rfl
    refine Exec.Yields.bind ((request_yields h hpresent _ fuel _ _).imp (fun _ _ => id) fun _ _ hstop =>
      hstop.imp fun _ hunserved => ?_) ?_
    · rw [Nat.mul_div_cancel_left _ (by decide)] at hunserved
      exact ⟨pages, hle, hlt, hunserved⟩
    rintro _ middle ⟨npages, hsize, hgranted⟩
    rw [hsize] at hle hlt ⊢
    refine (unwrap_yields _ _).bind ?_
    rintro next _ ⟨hnext, rfl⟩
    exact ⟨rfl, .grown hle hlt hnext hgranted⟩

end

end Enarx.Kvm
