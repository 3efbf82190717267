import Enarx.Runs
import Enarx.Kvm.Calls
import Enarx.Kvm.Outcomes
import Mathlib.Order.CompletePartialOrder

/-!
# The address space of the workload

`BRK_LINE` and `NEXT_MMAP_RWLOCK` say what `brk` and `mmap` have mapped: the area of
`brk` and the ranges of `mmap`, one behind the other, and no page besides.
-/
namespace Enarx.Kvm

open PageTables
open Sallyport (CInt Errno)

def brkLineStart (random : Nat) : Option VirtAddr := EXEC_BRK_VIRT_ADDR_BASE.add (random &&& 0xFFFFF000)

def execVirtAddr (random : Nat) : Option VirtAddr := EXEC_ELF_VIRT_ADDR_BASE.add (random &&& 0x7FFFFFF000)

/-- `NEXT_MMAP_RWLOCK` once the allocator exists: behind the code of the workload. -/
def nextMmapStart (random codeSize : Nat) : Option VirtAddr := do
  let next ← (← execVirtAddr random).add codeSize
  VirtAddr.new (← alignUp next.raw)

/-- The memory when the workload starts. The heap starts behind the image of the shim, which holds the code
of the workload. -/
structure Launched (c : CBit) (bottom : Nat) (stale : Set Nat) (own : Nat → Owner) (memory : Memory) : Prop where
  owns : memory.Owns c bottom stale own
  image : bottom ≤ 2 ^ 27
  brkLine : ∃ random, brkLineStart random = some memory.brkStart
  brkEnd : memory.brkEnd = memory.brkStart
  nextMmap : ∃ random codeSize, codeSize ≤ SIZE_4_KIB * bottom ∧ nextMmapStart random codeSize = some memory.nextMmap
  mapFailed : memory.mapFailed = false

theorem dvd_and_mask {mask : Nat} (random : Nat) (h : SIZE_4_KIB ∣ mask) : SIZE_4_KIB ∣ random &&& mask := by
  have hmask : mask % 2 ^ 12 = 0 := Nat.mod_eq_zero_of_dvd h
  apply Nat.dvd_of_mod_eq_zero
  change (random &&& mask) % 2 ^ 12 = 0
  rw [Nat.and_mod_two_pow, hmask, Nat.and_zero]

theorem brkLineStart_le {random : Nat} {start : VirtAddr} (h : brkLineStart random = some start) :
    start.raw ≤ 0x5555FFFFF000 ∧ SIZE_4_KIB ∣ start.raw := by
  have hle : random &&& 0xFFFFF000 ≤ 0xFFFFF000 := Nat.and_le_right
  have hdvd := dvd_and_mask random (by decide : SIZE_4_KIB ∣ 0xFFFFF000)
  have hbase : EXEC_BRK_VIRT_ADDR_BASE.raw = 0x555500000000 := rfl
  have hraw := VirtAddr.raw_of_new h
  rw [hbase] at hraw
  generalize random &&& 0xFFFFF000 = offset at *
  unfold SIZE_4_KIB at *
  omega

section

variable {c : CBit} {bottom : Nat} {stale : Set Nat} {own : Nat → Owner} {memory : Memory}

theorem Launched.brkStart_le (h : Launched c bottom stale own memory) :
    memory.brkStart.raw ≤ 0x5555FFFFF000 ∧ SIZE_4_KIB ∣ memory.brkStart.raw := by
  obtain ⟨random, hrandom⟩ := h.brkLine
  exact brkLineStart_le hrandom

theorem Launched.page_le_brkStart (h : Launched c bottom stale own memory) : SIZE_4_KIB ≤ memory.brkStart.raw := by
  obtain ⟨random, hrandom⟩ := h.brkLine
  have hle : random &&& 0xFFFFF000 ≤ 0xFFFFF000 := Nat.and_le_right
  have hbase : EXEC_BRK_VIRT_ADDR_BASE.raw = 0x555500000000 := rfl
  have hraw := VirtAddr.raw_of_new hrandom
  rw [hbase] at hraw
  unfold SIZE_4_KIB
  omega

theorem Launched.nextMmap_le (h : Launched c bottom stale own memory) :
    0x7f0000000000 ≤ memory.nextMmap.raw ∧ SIZE_4_KIB ∣ memory.nextMmap.raw ∧
      memory.nextMmap.raw + SIZE_4_KIB * (2 ^ 27 - bottom) < 2 ^ 47 := by
  obtain ⟨random, codeSize, hcode, hnext⟩ := h.nextMmap
  have himage := h.image
  obtain ⟨exec, hexec, hnext⟩ := Option.bind_eq_some_iff.mp hnext
  obtain ⟨behind, hbehind, hnext⟩ := Option.bind_eq_some_iff.mp hnext
  obtain ⟨aligned, haligned, hnext⟩ := Option.bind_eq_some_iff.mp hnext
  have hle : random &&& 0x7FFFFFF000 ≤ 0x7FFFFFF000 := Nat.and_le_right
  have hdvd := dvd_and_mask random (by decide : SIZE_4_KIB ∣ 0x7FFFFFF000)
  have hbase : EXEC_ELF_VIRT_ADDR_BASE.raw = 0x7f0000000000 := rfl
  have hexecRaw := VirtAddr.raw_of_new hexec
  rw [hbase] at hexecRaw
  generalize random &&& 0x7FFFFFF000 = offset at *
  have hbehindRaw := VirtAddr.raw_of_new hbehind
  obtain ⟨hup, hdvd'⟩ := alignUp_spec haligned
  have hlt := alignUp_lt haligned
  have hraw := VirtAddr.raw_of_new hnext
  unfold SIZE_4_KIB at *
  omega

end

inductive LineCall where
  | brk (fuel : Nat) (addr : Option Nat)
  | mmap (fuel : Nat) (addr : Option Nat) (length : Nat) (prot flags fd : CInt) (offset : BitVec 64)
  deriving DecidableEq, Repr

def LineCall.run (host : Host) : LineCall → Alloc Errno Nat
  | .brk fuel addr => Kvm.brk host fuel addr
  | .mmap fuel addr length prot flags fd offset => Kvm.mmap host fuel addr length prot flags fd offset

/-- What a call gives that returns, with a value or an error, if no page failed to be mapped. -/
def returns (run : Alloc ε α) (memory : Memory) : Option (Option α × Memory) :=
  match run memory with
  | (.ok value, after) => if after.mapFailed then none else some (some value, after)
  | (.error (.err _), after) => if after.mapFailed then none else some (none, after)
  | (.error _, _) => none

theorem returns_some {run : Alloc ε α} {memory after : Memory} {value : α}
    (h : returns run memory = some (some value, after)) :
    run memory = (.ok value, after) ∧ after.mapFailed = false := by
  unfold returns at h
  split at h
  · split at h
    · cases h
    · next hok =>
      cases h
      exact ⟨by assumption, Bool.eq_false_of_not_eq_true hok⟩
  · split at h <;> cases h
  · cases h

theorem returns_none {run : Alloc ε α} {memory after : Memory} (h : returns run memory = some (none, after)) :
    (∃ error, run memory = (.error (.err error), after)) ∧ after.mapFailed = false := by
  unfold returns at h
  split at h
  · split at h <;> cases h
  · split at h
    · cases h
    · next hok =>
      cases h
      exact ⟨⟨_, by assumption⟩, Bool.eq_false_of_not_eq_true hok⟩
  · cases h

structure MmapRange where
  addr : Nat
  length : Nat
  deriving DecidableEq, Repr

def MmapRange.pages (range : MmapRange) : Set Nat :=
  Set.Ico (range.addr / SIZE_4_KIB) ((range.addr + range.length + (SIZE_4_KIB - 1)) / SIZE_4_KIB)

structure Session where
  memory : Memory
  ranges : List MmapRange

def LineCall.granted : LineCall → Option Nat → List MmapRange
  | .mmap _ _ length _ _ _ _, some addr => [⟨addr, length⟩]
  | _, _ => []

def lineStep (host : Host) (session : Session) (call : LineCall) : Option Session :=
  (returns (call.run host) session.memory).map fun (reply, memory) =>
    ⟨memory, call.granted reply ++ session.ranges⟩

/-- Since the start the pages of `area` have been mapped, and no other page. -/
structure Covers (c : CBit) (start memory : Memory) (area : Set Nat) : Prop where
  fresh : ∀ addr : VirtAddr, addr.page ∈ area → start.tables.leaf? c addr = none
  mapped : ∀ addr : VirtAddr, addr.page ∈ area → ∃ entry : PageTableEntry,
    memory.tables.leaf? c addr = some (entry, []) ∧ entry.IsPointer
  other : ∀ addr : VirtAddr, addr.page ∉ area → memory.tables.leaf? c addr = start.tables.leaf? c addr

namespace Covers

variable {c : CBit} {bottom : Nat} {stale : Set Nat} {own own' : Nat → Owner} {start before after : Memory}
  {area pages : Set Nat}

theorem refl (c : CBit) (start : Memory) : Covers c start start ∅ :=
  ⟨fun _ => False.elim, fun _ => False.elim, fun _ _ => rfl⟩

theorem congr (h : Covers c start before area)
    (hleaf : ∀ addr, after.tables.leaf? c addr = before.tables.leaf? c addr) : Covers c start after area where
  fresh := h.fresh
  mapped addr haddr := hleaf addr ▸ h.mapped addr haddr
  other addr haddr := (hleaf addr).trans (h.other addr haddr)

theorem grow (h : Covers c start before area) {flags : PageTableFlags} (hpresent : flags.present = true)
    (hsmall : flags.hugePage = false) (hserves : Serves c bottom stale flags own before own' pages after) :
    Covers c start after (area ∪ pages) := by
  have hnew : ∀ addr : VirtAddr, addr.page ∈ pages → addr.page ∉ area := by
    intro addr haddr harea
    obtain ⟨entry, hleaf, -⟩ := h.mapped addr harea
    rw [hserves.maps.unmapped addr haddr] at hleaf
    cases hleaf
  refine ⟨?_, ?_, ?_⟩
  · rintro addr (haddr | haddr)
    · exact h.fresh addr haddr
    · rw [← h.other addr (hnew addr haddr)]
      exact hserves.maps.unmapped addr haddr
  · intro addr haddr
    by_cases hpage : addr.page ∈ pages
    · obtain ⟨entry, n, hleaf, hleads, -⟩ := hserves.maps.mapped addr hpage
      exact ⟨entry, hleaf, hleads.flags ▸ hpresent, hleads.flags ▸ hsmall⟩
    · rw [hserves.maps.other addr hpage]
      exact h.mapped addr (haddr.resolve_right hpage)
  · intro addr haddr
    rw [Set.mem_union, not_or] at haddr
    rw [hserves.maps.other addr haddr.2, h.other addr haddr.1]

theorem shrink (h : Covers c start before area) {walk : List VirtAddr} {frames : List Nat}
    (hreleases : Releases c bottom stale own before walk frames after) (hwalk : visited walk ⊆ area) :
    Covers c start after (area \ visited walk) := by
  refine ⟨fun addr haddr => h.fresh addr haddr.1, ?_, ?_⟩
  · rintro addr ⟨haddr, hnot⟩
    have hkept : addr.page ∉ walk.map VirtAddr.page := hnot
    rw [hreleases.leaf? addr, if_neg hkept]
    exact h.mapped addr haddr
  · intro addr haddr
    rw [hreleases.leaf? addr]
    split
    · next hmem => exact (h.fresh addr (hwalk hmem)).symm
    · next hmem =>
      apply h.other
      intro harea
      exact haddr ⟨harea, hmem⟩

theorem mapped_iff (h : Covers c start after area) (addr : VirtAddr) :
    (after.tables.leaf? c addr).isSome ∧ start.tables.leaf? c addr = none ↔ addr.page ∈ area := by
  constructor
  · rintro ⟨hsome, hnone⟩
    by_contra hnot
    rw [h.other addr hnot, hnone] at hsome
    cases hsome
  · intro harea
    obtain ⟨entry, hleaf, -⟩ := h.mapped addr harea
    exact ⟨by rw [hleaf]; rfl, h.fresh addr harea⟩

theorem kept (h : Covers c start after area) {addr : VirtAddr} (hsome : (start.tables.leaf? c addr).isSome) :
    after.tables.leaf? c addr = start.tables.leaf? c addr := by
  apply h.other
  intro harea
  rw [h.fresh addr harea] at hsome
  cases hsome

theorem not_inWindow (h : Covers c start after area) (howns : start.Owns c bottom stale own) {addr : VirtAddr}
    (haddr : addr.page ∈ area) : ¬addr.InWindow ∧ addr.page ∉ stale := by
  have hnone := h.fresh addr haddr
  constructor
  · intro hin
    have hsome := howns.window addr hin
    rw [hnone] at hsome
    cases hsome
  · intro hin
    have hsome := howns.stale addr hin
    rw [hnone] at hsome
    cases hsome

end Covers

def Memory.brkPages (memory : Memory) : Set Nat := Set.Ico memory.brkStart.page memory.brkEnd.page

def Memory.mmapPages (start memory : Memory) : Set Nat := Set.Ico start.nextMmap.page memory.nextMmap.page

/-- What holds of the lines, the tables and the ranges of `mmap` after any calls. -/
structure LaidOut (c : CBit) (bottom : Nat) (stale : Set Nat) (start : Memory) (own : Nat → Owner) (memory : Memory)
    (ranges : List MmapRange) : Prop where
  owns : memory.Owns c bottom stale own
  mapFailed : memory.mapFailed = false
  brkStart : memory.brkStart = start.brkStart
  brkEnd_dvd : SIZE_4_KIB ∣ memory.brkEnd.raw
  start_le_end : memory.brkStart.raw ≤ memory.brkEnd.raw
  nextMmap_dvd : SIZE_4_KIB ∣ memory.nextMmap.raw
  start_le_next : start.nextMmap.raw ≤ memory.nextMmap.raw
  /-- What the lines have moved is memory that cannot be handed out again. -/
  budget : SIZE_4_KIB * room bottom own + (memory.brkEnd.raw - memory.brkStart.raw) +
    (memory.nextMmap.raw - start.nextMmap.raw) ≤ SIZE_4_KIB * (2 ^ 27 - bottom)
  covers : Covers c start memory (memory.brkPages ∪ start.mmapPages memory)
  aligned : ∀ range ∈ ranges, SIZE_4_KIB ∣ range.addr
  disjoint : ranges.Pairwise fun range other => Disjoint range.pages other.pages
  pages_iff : ∀ page, (∃ range ∈ ranges, page ∈ range.pages) ↔ page ∈ start.mmapPages memory

section

variable {host : Host} {c : CBit} {bottom : Nat} {stale : Set Nat} {own0 own : Nat → Owner}
  {start memory after : Memory}
  {ranges : List MmapRange}

theorem Memory.lines_eq (h : after.lines = memory.lines) :
    after.brkStart = memory.brkStart ∧ after.brkEnd = memory.brkEnd ∧ after.nextMmap = memory.nextMmap := by
  obtain ⟨hstart, hrest⟩ := Prod.mk.inj h
  obtain ⟨hend, hnext⟩ := Prod.mk.inj hrest
  exact ⟨hstart, hend, hnext⟩

theorem Launched.laidOut (h : Launched c bottom stale own0 start) : LaidOut c bottom stale start own0 start [] where
  owns := h.owns
  mapFailed := h.mapFailed
  brkStart := rfl
  brkEnd_dvd := h.brkEnd ▸ h.brkStart_le.2
  start_le_end := (congrArg VirtAddr.raw h.brkEnd).ge
  nextMmap_dvd := h.nextMmap_le.2.1
  start_le_next := le_rfl
  budget := by
    rw [h.brkEnd, Nat.sub_self, Nat.sub_self]
    exact Nat.mul_le_mul_left _ (room_le_pages bottom own0)
  covers := by
    rw [Memory.brkPages, Memory.mmapPages, h.brkEnd, Set.Ico_self, Set.Ico_self, Set.union_self]
    exact .refl c start
  aligned := nofun
  disjoint := .nil
  pages_iff page := by simp [Memory.mmapPages]

theorem LaidOut.moveEnd {own' : Nat → Owner} (h : LaidOut c bottom stale start own memory ranges)
    (howns : after.Owns c bottom stale own') (hok : after.mapFailed = false)
    (hstart : after.brkStart = memory.brkStart) (hnext : after.nextMmap = memory.nextMmap)
    (hdvd : SIZE_4_KIB ∣ after.brkEnd.raw) (hle : memory.brkStart.raw ≤ after.brkEnd.raw)
    (hbudget : SIZE_4_KIB * room bottom own' + after.brkEnd.raw ≤ SIZE_4_KIB * room bottom own + memory.brkEnd.raw)
    (hcovers : Covers c start after
      (Set.Ico memory.brkStart.page after.brkEnd.page ∪ start.mmapPages memory)) :
    LaidOut c bottom stale start own' after ranges := by
  have hbefore := h.budget
  have hends := h.start_le_end
  exact {
    owns := howns
    mapFailed := hok
    brkStart := hstart.trans h.brkStart
    brkEnd_dvd := hdvd
    start_le_end := hstart ▸ hle
    nextMmap_dvd := hnext ▸ h.nextMmap_dvd
    start_le_next := hnext ▸ h.start_le_next
    budget := by
      rw [hstart, hnext]
      omega
    covers := by rwa [Memory.brkPages, Memory.mmapPages, hstart, hnext]
    aligned := h.aligned
    disjoint := h.disjoint
    pages_iff := by
      rw [Memory.mmapPages, hnext]
      exact h.pages_iff }

theorem LaidOut.declined (h : LaidOut c bottom stale start own memory ranges)
    (hdeclined : Declined c bottom stale own memory after) (hok : after.mapFailed = false) :
    ∃ own', LaidOut c bottom stale start own' after ranges := by
  obtain ⟨own', howns, hmoves, hsame⟩ := hdeclined.untouched hok
  obtain ⟨hstart, hend, hnext⟩ := Memory.lines_eq hdeclined.lines
  have hroom := Nat.mul_le_mul_left SIZE_4_KIB (hmoves.room_le : room bottom own' ≤ room bottom own)
  refine ⟨own', h.moveEnd howns hok hstart hnext (hend ▸ h.brkEnd_dvd) (hend ▸ h.start_le_end) ?_ ?_⟩
  · rw [hend]
    exact Nat.add_le_add_right hroom _
  · rw [hend]
    exact h.covers.congr hsame.leaf?

theorem LaidOut.bounds (h : LaidOut c bottom stale start own memory ranges)
    (hlaunched : Launched c bottom stale own0 start) :
    memory.brkEnd.raw + SIZE_4_KIB * room bottom own < 0x7f0000000000 ∧
      memory.nextMmap.raw + SIZE_4_KIB * room bottom own < 2 ^ 47 := by
  have hbudget := h.budget
  have hend := h.start_le_end
  have hnext := h.start_le_next
  obtain ⟨hbrk, -⟩ := hlaunched.brkStart_le
  obtain ⟨-, -, hmmap⟩ := hlaunched.nextMmap_le
  rw [← h.brkStart] at hbrk
  unfold SIZE_4_KIB at *
  omega

variable {npages : Nat} {newEnd : VirtAddr} {middle : Memory}

theorem LaidOut.grown (h : LaidOut c bottom stale start own memory ranges)
    (hlaunched : Launched c bottom stale own0 start)
    (hnew : VirtAddr.new (memory.brkEnd.raw + SIZE_4_KIB * npages) = some newEnd)
    (hgranted : Granted c bottom stale USER_TABLE_FLAGS own memory memory.brkEnd npages middle)
    (hok : middle.mapFailed = false) :
    ∃ own', LaidOut c bottom stale start own' { middle with brkEnd := newEnd } ranges := by
  obtain ⟨own', pages, hserves, hroom, hpages⟩ := hgranted.served
  obtain ⟨hstart, -, hnext⟩ := Memory.lines_eq hgranted.lines
  obtain ⟨hlt, -⟩ := h.bounds hlaunched
  have hle := h.start_le_end
  have hroom' := Nat.mul_le_mul_left SIZE_4_KIB hroom
  rw [Nat.mul_add] at hroom'
  have hraw : newEnd.raw = memory.brkEnd.raw + SIZE_4_KIB * npages := by
    have := VirtAddr.raw_of_new hnew
    omega
  obtain ⟨k, hk⟩ := h.brkEnd_dvd
  have hrange : IsRange memory.brkEnd.page npages := by
    rw [← spans_iff ⟨k, hk⟩]
    exact .inl (by omega)
  have hendPage : memory.brkEnd.page = k := VirtAddr.page_of_raw hk
  have hnewPage : newEnd.page = k + npages := VirtAddr.page_of_raw (by rw [hraw, hk, Nat.mul_add])
  have hstartPage : memory.brkStart.page ≤ k := hendPage ▸ Nat.div_le_div_right hle
  have harea : memory.brkPages ∪ start.mmapPages memory ∪ pages =
      Set.Ico memory.brkStart.page newEnd.page ∪ start.mmapPages memory := by
    rw [hpages hrange, Set.union_right_comm, Memory.brkPages, hendPage, hnewPage,
      Set.Ico_union_Ico_eq_Ico hstartPage (Nat.le_add_right _ _)]
  have hdvd : SIZE_4_KIB ∣ newEnd.raw := hraw ▸ Nat.dvd_add h.brkEnd_dvd (Nat.dvd_mul_right _ _)
  refine ⟨own', h.moveEnd { hserves.owns with } hok hstart hnext hdvd ?_ ?_ ?_⟩
  · exact hle.trans (hraw ▸ Nat.le_add_right _ _)
  · change _ + newEnd.raw ≤ _
    omega
  · exact (harea ▸ h.covers.grow rfl rfl hserves).congr fun _ => rfl

theorem LaidOut.visited_walk (h : LaidOut c bottom stale start own memory ranges)
    (hlaunched : Launched c bottom stale own0 start) {len : Nat} (hdvd : SIZE_4_KIB ∣ newEnd.raw)
    (hlen : newEnd.raw + len = memory.brkEnd.raw) (hpos : 0 < len) :
    visited (unmapWalk newEnd len) = Set.Ico newEnd.page memory.brkEnd.page ∧
      SIZE_4_KIB * (unmapWalk newEnd len).length = len := by
  obtain ⟨hlt, -⟩ := h.bounds hlaunched
  obtain ⟨k, hk⟩ := h.brkEnd_dvd
  obtain ⟨first, hfirst⟩ := hdvd
  have hlow : newEnd.raw + len < 2 ^ 47 := by omega
  have hwalk := map_page_unmapWalk_low (Nat.pos_iff_ne_zero.mp hpos) hlow
  have hcount : (newEnd.raw + len - 1) / SIZE_4_KIB + 1 - newEnd.page = k - first := by
    rw [VirtAddr.page_of_raw hfirst, hlen, hk]
    unfold SIZE_4_KIB at *
    omega
  rw [hcount] at hwalk
  have hle : first ≤ k := by
    unfold SIZE_4_KIB at *
    omega
  constructor
  · ext page
    rw [visited, Set.mem_ofPred_eq, hwalk, List.mem_range'_1, Set.mem_Ico, VirtAddr.page_of_raw hfirst,
      VirtAddr.page_of_raw hk, Nat.add_sub_cancel' hle]
  · have hlength := congrArg List.length hwalk
    rw [List.length_map, List.length_range'] at hlength
    rw [hlength, Nat.mul_sub]
    omega

theorem LaidOut.shrunk (h : LaidOut c bottom stale start own memory ranges)
    (hlaunched : Launched c bottom stale own0 start) {len : Nat}
    (hstart : memory.brkStart.raw ≤ newEnd.raw) (hdvd : SIZE_4_KIB ∣ newEnd.raw)
    (hlen : newEnd.raw + len = memory.brkEnd.raw) (hpos : 0 < len)
    (hsteps : UnmapSteps c memory (unmapWalk newEnd len) middle) :
    ∃ own', LaidOut c bottom stale start own' { middle with brkEnd := newEnd } ranges := by
  obtain ⟨hlt, -⟩ := h.bounds hlaunched
  obtain ⟨hmmap, -⟩ := hlaunched.nextMmap_le
  obtain ⟨hvisited, hlength⟩ := h.visited_walk hlaunched hdvd hlen hpos
  have hstartPage : memory.brkStart.page ≤ newEnd.page := Nat.div_le_div_right hstart
  have hendPage : newEnd.page ≤ memory.brkEnd.page := Nat.div_le_div_right (by omega)
  have hnextPage : memory.brkEnd.page ≤ start.nextMmap.page := Nat.div_le_div_right (by omega)
  have hsub : visited (unmapWalk newEnd len) ⊆ memory.brkPages ∪ start.mmapPages memory := by
    rw [hvisited]
    exact (Set.Ico_subset_Ico_left hstartPage).trans Set.subset_union_left
  obtain ⟨frames, hreleases⟩ := h.owns.unmapSteps hsteps fun page hpage =>
    h.covers.not_inWindow hlaunched.owns (hsub (List.mem_map_of_mem hpage))
  have hroom := Nat.mul_le_mul_left SIZE_4_KIB hreleases.room_le
  rw [Nat.mul_add, hlength] at hroom
  obtain ⟨hsame, -, hnext⟩ := Memory.lines_eq hreleases.lines
  have harea : (memory.brkPages ∪ start.mmapPages memory) \ visited (unmapWalk newEnd len) =
      Set.Ico memory.brkStart.page newEnd.page ∪ start.mmapPages memory := by
    rw [hvisited]
    ext page
    simp only [Memory.brkPages, Memory.mmapPages, Set.mem_sdiff, Set.mem_union, Set.mem_Ico]
    omega
  have hok : middle.mapFailed = false := hreleases.mapFailed.trans h.mapFailed
  refine ⟨_, h.moveEnd { hreleases.owns with } hok hsame hnext hdvd hstart ?_ ?_⟩
  · change _ + newEnd.raw ≤ _
    omega
  · exact (harea ▸ h.covers.shrink hreleases hsub).congr fun _ => rfl

theorem MmapRange.pages_eq {addr : VirtAddr} {first length : Nat} (hraw : addr.raw = SIZE_4_KIB * first)
    (hle : length ≤ SIZE_4_KIB * npages) (hlt : SIZE_4_KIB * npages < length + SIZE_4_KIB) :
    MmapRange.pages ⟨addr.raw, length⟩ = Set.Ico first (first + npages) := by
  have hstart : addr.raw / SIZE_4_KIB = first := by rw [hraw, Nat.mul_div_cancel_left _ (by decide)]
  have hend : (addr.raw + length + (SIZE_4_KIB - 1)) / SIZE_4_KIB = first + npages := by
    rw [hraw]
    unfold SIZE_4_KIB at *
    omega
  rw [MmapRange.pages, hstart, hend]

theorem LaidOut.mmapped (h : LaidOut c bottom stale start own memory ranges)
    (hlaunched : Launched c bottom stale own0 start) {length : Nat} {next : VirtAddr} {flags : PageTableFlags}
    (hpresent : flags.present = true) (hsmall : flags.hugePage = false)
    (hle : length ≤ SIZE_4_KIB * npages) (hlt : SIZE_4_KIB * npages < length + SIZE_4_KIB)
    (hnext : memory.nextMmap.add (SIZE_4_KIB * npages) = some next)
    (hgranted : Granted c bottom stale flags own memory memory.nextMmap npages middle)
    (hok : middle.mapFailed = false) :
    ∃ own', LaidOut c bottom stale start own' { middle with nextMmap := next }
      (⟨memory.nextMmap.raw, length⟩ :: ranges) := by
  obtain ⟨own', pages, hserves, hroom, hpages⟩ := hgranted.served
  obtain ⟨hstart, hend, -⟩ := Memory.lines_eq hgranted.lines
  obtain ⟨-, hlow⟩ := h.bounds hlaunched
  have hbudget := h.budget
  have hfirst := h.start_le_next
  have hroom' := Nat.mul_le_mul_left SIZE_4_KIB hroom
  rw [Nat.mul_add] at hroom'
  have hraw : next.raw = memory.nextMmap.raw + SIZE_4_KIB * npages := by
    have := VirtAddr.raw_of_new hnext
    omega
  obtain ⟨k, hk⟩ := h.nextMmap_dvd
  have hrange : IsRange memory.nextMmap.page npages := by
    rw [← spans_iff ⟨k, hk⟩]
    exact .inl (by omega)
  have hpage : memory.nextMmap.page = k := VirtAddr.page_of_raw hk
  have hnextPage : next.page = k + npages := VirtAddr.page_of_raw (by rw [hraw, hk, Nat.mul_add])
  have hfirstPage : start.nextMmap.page ≤ k := hpage ▸ Nat.div_le_div_right hfirst
  have hnew := MmapRange.pages_eq hk hle hlt
  have hmmap : start.mmapPages memory ∪ Set.Ico k (k + npages) = Set.Ico start.nextMmap.page next.page := by
    rw [Memory.mmapPages, hpage, hnextPage, Set.Ico_union_Ico_eq_Ico hfirstPage (Nat.le_add_right _ _)]
  refine ⟨own', ?_⟩
  exact {
    owns := { hserves.owns with }
    mapFailed := hok
    brkStart := hstart.trans h.brkStart
    brkEnd_dvd := hend ▸ h.brkEnd_dvd
    start_le_end := hstart ▸ hend ▸ h.start_le_end
    nextMmap_dvd := hraw ▸ Nat.dvd_add h.nextMmap_dvd (Nat.dvd_mul_right _ _)
    start_le_next := hfirst.trans (hraw ▸ Nat.le_add_right _ _)
    budget := by
      change _ + (middle.brkEnd.raw - middle.brkStart.raw) + (next.raw - _) ≤ _
      rw [hstart, hend]
      omega
    covers := by
      have hcovers := h.covers.grow hpresent hsmall hserves
      rw [hpages hrange, hpage, Set.union_assoc, hmmap, Memory.brkPages, ← hstart, ← hend] at hcovers
      exact hcovers.congr fun _ => rfl
    aligned := List.forall_mem_cons.mpr ⟨h.nextMmap_dvd, h.aligned⟩
    disjoint := by
      refine List.pairwise_cons.mpr ⟨fun range hrange => ?_, h.disjoint⟩
      rw [hnew, Set.disjoint_left]
      intro page hmem hother
      have hbelow := (h.pages_iff page).mp ⟨range, hrange, hother⟩
      rw [Memory.mmapPages, hpage, Set.mem_Ico] at hbelow
      exact absurd hmem.1 (Nat.not_le.mpr hbelow.2)
    pages_iff := by
      intro page
      change _ ↔ page ∈ Set.Ico start.nextMmap.page next.page
      rw [← hmmap, Set.mem_union, ← h.pages_iff, ← hnew]
      simp [or_comm] }

theorem LaidOut.brk (h : LaidOut host.cBit bottom stale start own memory ranges)
    (hlaunched : Launched host.cBit bottom stale own0 start) {fuel addr : Nat} {reply : Option Nat}
    (hreturns : returns (Kvm.brk host fuel (some addr)) memory = some (reply, after)) :
    ∃ own', LaidOut host.cBit bottom stale start own' after ranges := by
  cases reply with
  | none =>
    obtain ⟨⟨error, hrun⟩, hok⟩ := returns_none hreturns
    exact h.declined ((brk_moves h.owns fuel addr).error hrun) hok
  | some result =>
    obtain ⟨hrun, hok⟩ := returns_some hreturns
    obtain ⟨-, hstart, hmoves⟩ := (brk_moves h.owns fuel addr).ok hrun
    cases hmoves with
    | inside => exact ⟨own, h⟩
    | shrunk _ hdvd hle _ hlen hpos hsteps => exact h.shrunk hlaunched (hstart.trans hle) hdvd hlen hpos hsteps
    | grown hend _ hle _ hnew hgranted =>
      obtain ⟨npages, hsize, hgranted⟩ := hgranted
      obtain rfl := Nat.eq_add_of_sub_eq (hend.trans hle) hsize
      exact h.grown hlaunched (Nat.add_comm _ _ ▸ hnew) hgranted hok

theorem LaidOut.step {session next : Session} {call : LineCall}
    (h : LaidOut host.cBit bottom stale start own session.memory session.ranges)
    (hlaunched : Launched host.cBit bottom stale own0 start) (hstep : lineStep host session call = some next) :
    ∃ own', LaidOut host.cBit bottom stale start own' next.memory next.ranges := by
  obtain ⟨⟨reply, memory⟩, hreturns, rfl⟩ := Option.map_eq_some_iff.mp hstep
  cases call with
  | brk fuel addr =>
    cases addr with
    | none =>
      cases reply with
      | none =>
        obtain ⟨⟨error, hrun⟩, -⟩ := returns_none hreturns
        cases hrun
      | some result =>
        obtain ⟨hrun, -⟩ := returns_some hreturns
        cases hrun
        exact ⟨own, h⟩
    | some addr => exact h.brk hlaunched hreturns
  | mmap fuel addr length prot flags fd offset =>
    have hmoves := mmap_moves h.owns fuel addr length prot flags fd offset
    cases reply with
    | none =>
      obtain ⟨⟨error, hrun⟩, hok⟩ := returns_none hreturns
      obtain ⟨_, -, -, hunserved⟩ := hmoves.error hrun
      exact h.declined hunserved.declined hok
    | some result =>
      obtain ⟨hrun, hok⟩ := returns_some hreturns
      obtain ⟨rfl, hmoves⟩ := hmoves.ok hrun
      cases hmoves with
      | grown hle hlt hnext hgranted => exact h.mmapped hlaunched rfl rfl hle hlt hnext hgranted hok

theorem brk_shrinks (htidy : memory.tables.Tidy host.cBit) (hdvd : SIZE_4_KIB ∣ memory.brkEnd.raw)
    (hlow : memory.brkEnd.raw < 2 ^ 47) (hsmall : ∀ addr : VirtAddr, addr.page ∈ memory.brkPages →
      memory.tables.mapsSmall host.cBit addr = true) (fuel : Nat) {addr : Nat}
    (hstart : memory.brkStart.raw ≤ addr) (hend : addr < memory.brkEnd.raw) :
    ∃ after, brk host fuel (some addr) memory = (.ok addr, after) := by
  have hget : (get : Alloc Errno Memory) memory = (.ok memory, memory) := rfl
  have hunwrap : ∀ {α : Type} (value : α), (Alloc.unwrap (some value) : Alloc Errno α) memory =
      (.ok value, memory) := fun _ => rfl
  obtain ⟨k, hk⟩ := hdvd
  have hpage : SIZE_4_KIB ≤ memory.brkEnd.raw := by
    unfold SIZE_4_KIB at *
    omega
  rw [brk, Exec.bind_of_ok hget]
  dsimp only
  rw [if_neg (Nat.not_lt.mpr hstart), if_pos hpage, Exec.bind_of_ok (hunwrap _)]
  by_cases hbelow : addr < memory.brkEnd.raw - SIZE_4_KIB
  · obtain ⟨first, hfirst, hle, hlt⟩ : ∃ first, alignUp addr = some (SIZE_4_KIB * first) ∧
        addr ≤ SIZE_4_KIB * first ∧ SIZE_4_KIB * first < memory.brkEnd.raw := by
      have hup : addr + SIZE_4_KIB ≤ 2 ^ 64 := by omega
      obtain ⟨aligned, haligned⟩ := exists_alignUp hup
      obtain ⟨hle, first, rfl⟩ := alignUp_spec haligned
      have := alignUp_lt haligned
      exact ⟨first, haligned, hle, by omega⟩
    obtain ⟨newEnd, hnew, hraw⟩ := VirtAddr.new_low (hlt.trans hlow)
    have hlenLow : memory.brkEnd.raw - SIZE_4_KIB * first < 2 ^ 47 := by omega
    obtain ⟨len, hlen, hlenRaw⟩ := VirtAddr.new_low hlenLow
    have hsub : memory.brkEnd.sub (SIZE_4_KIB * first) = some len := by rw [VirtAddr.sub, if_pos hlt.le, hlen]
    have hendPage : memory.brkEnd.page = k := VirtAddr.page_of_raw hk
    have hpos : len.raw ≠ 0 := by omega
    have hrangeLow : newEnd.raw + len.raw + SIZE_4_KIB ≤ 2 ^ 47 := by
      unfold SIZE_4_KIB at *
      omega
    have hrest : ∀ other : VirtAddr, newEnd.page ≤ other.page →
        other.page ≤ (newEnd.raw + len.raw - 1) / SIZE_4_KIB → memory.tables.mapsSmall host.cBit other = true := by
      intro other hlo hhi
      have hstartPage : memory.brkStart.page ≤ newEnd.page := Nat.div_le_div_right (by omega)
      apply hsmall
      rw [Memory.brkPages, Set.mem_Ico, hendPage]
      unfold SIZE_4_KIB at *
      omega
    obtain ⟨after, hafter, -⟩ := unmapMemory_ok htidy hpos hrangeLow hrest
    have hattempt : (Alloc.attempt (unmapMemory host.cBit newEnd len.raw) : Alloc Errno _) memory =
        (.ok (.ok ()), after) := by
      rw [Alloc.attempt, hafter]
    rw [if_pos hbelow, hfirst, Exec.bind_of_ok (hunwrap _), hsub, Exec.bind_of_ok (hunwrap _), hnew,
      Exec.bind_of_ok (hunwrap _), Exec.bind_of_ok hattempt]
    exact ⟨_, rfl⟩
  · rw [if_neg hbelow, if_pos hend]
    exact ⟨memory, rfl⟩

structure Layout (host : Host) (start : Memory) (session : Session) : Prop where
  brkStart : session.memory.brkStart = start.brkStart
  brkEnd_dvd : SIZE_4_KIB ∣ session.memory.brkEnd.raw
  start_le_end : session.memory.brkStart.raw ≤ session.memory.brkEnd.raw
  /-- The pages that are mapped now and were not at the start. -/
  mapped_iff : ∀ addr : VirtAddr,
    (session.memory.tables.leaf? host.cBit addr).isSome ∧ start.tables.leaf? host.cBit addr = none ↔
      addr.page ∈ session.memory.brkPages ∨ ∃ range ∈ session.ranges, addr.page ∈ range.pages
  kept : ∀ addr : VirtAddr, (start.tables.leaf? host.cBit addr).isSome →
    session.memory.tables.leaf? host.cBit addr = start.tables.leaf? host.cBit addr
  aligned : ∀ range ∈ session.ranges, SIZE_4_KIB ∣ range.addr
  disjoint : session.ranges.Pairwise fun range other => Disjoint range.pages other.pages
  failed : ∀ (call : LineCall) error after, call.run host session.memory = (.error (.err error), after) →
    after.lines = session.memory.lines
  shrinks : ∀ fuel addr, session.memory.brkStart.raw ≤ addr → addr < session.memory.brkEnd.raw →
    ∃ after, brk host fuel (some addr) session.memory = (.ok addr, after)

theorem LaidOut.layout {session : Session}
    (h : LaidOut host.cBit bottom stale start own session.memory session.ranges)
    (hlaunched : Launched host.cBit bottom stale own0 start) : Layout host start session where
  brkStart := h.brkStart
  brkEnd_dvd := h.brkEnd_dvd
  start_le_end := h.start_le_end
  mapped_iff addr := by rw [h.covers.mapped_iff, Set.mem_union, h.pages_iff]
  kept _ := h.covers.kept
  aligned := h.aligned
  disjoint := h.disjoint
  failed := by
    intro call error after hrun
    cases call with
    | brk fuel addr =>
      cases addr with
      | none => cases hrun
      | some addr => exact ((brk_moves h.owns fuel addr).error hrun).lines
    | mmap fuel addr length prot flags fd offset =>
      obtain ⟨_, -, -, hunserved⟩ := (mmap_moves h.owns fuel addr length prot flags fd offset).error hrun
      exact hunserved.lines
  shrinks := by
    intro fuel addr hlo hhi
    obtain ⟨hlt, -⟩ := h.bounds hlaunched
    refine brk_shrinks h.owns.tidy h.brkEnd_dvd (by omega) (fun other hother => ?_) fuel hlo hhi
    obtain ⟨entry, hleaf, hpointer⟩ := h.covers.mapped other (.inl hother)
    exact mapsSmall_of_leaf? hleaf hpointer

/-- Whatever `brk` and `mmap` are called with, the lines describe what they have mapped. -/
theorem layout_of_calls (hlaunched : Launched host.cBit bottom stale own0 start) (calls : List LineCall) :
    Runs.Always (lineStep host) (Layout host start) ⟨start, []⟩ calls := by
  have hinv : Runs.Always (lineStep host)
      (fun session => ∃ own, LaidOut host.cBit bottom stale start own session.memory session.ranges) ⟨start, []⟩ calls :=
    Runs.always_of_invariant (fun _ _ _ ⟨_, h⟩ hstep => h.step hlaunched hstep) ⟨own0, hlaunched.laidOut⟩ calls
  exact hinv.imp fun session ⟨_, h⟩ => h.layout hlaunched

end

theorem smallMemory_launched :
    Launched smallHost.cBit 4 ∅ (firstPages.owner smallMemory.allocator.free) smallMemory where
  owns := smallMemory_owns
  image := by decide
  brkLine := ⟨0, rfl⟩
  brkEnd := rfl
  nextMmap := ⟨0, 0, Nat.zero_le _, rfl⟩
  mapFailed := rfl

def smallCalls : List LineCall :=
  [.brk 3 (some 0x555500001000), .mmap 3 none 1 3 PA (-1) 0, .brk 3 (some 0x555500000000)]

theorem layout_of_smallCalls :
    ((Runs.exec (lineStep smallHost) ⟨smallMemory, []⟩ smallCalls).map Session.ranges =
      some [⟨0x7f0000000000, 1⟩]) ∧
    Runs.Always (lineStep smallHost) (Layout smallHost smallMemory) ⟨smallMemory, []⟩ smallCalls :=
  ⟨by decide +kernel, layout_of_calls smallMemory_launched smallCalls⟩

end Enarx.Kvm
