import Enarx.Kvm.Requests

/-!
# Whole requests

A request for memory is served in blocks, each half of the one before at most, and
the last block is mapped first. When this fails, blocks go back to the heap.
-/
namespace Enarx.Kvm

open Alloc PageTables

section

variable {host : Host} {c : CBit} {bottom : Nat} {stale : Set Nat} {flags parentFlags : PageTableFlags}
  {own own' : Nat → Owner} {memory before after : Memory} {block pages : Set Nat} {start npages : Nat}

def mappedTo (c : CBit) (memory : Memory) (block : Set Nat) : Set Nat :=
  { page | ∃ addr : VirtAddr, addr.page = page ∧ ¬addr.InWindow ∧
    ∃ n ∈ block, memory.tables.frame? c addr = some n }

def Memory.deallocated (memory : Memory) (start npages : Nat) : Memory :=
  { memory with
    allocator := { memory.allocator with
      free := memory.allocator.free ∪ Finset.Ico start (start + npages) }
    returned := memory.returned ++ List.range' start npages }

theorem Memory.Owns.giveBack (h : memory.Owns c bottom stale own)
    (hblock : ∀ n ∈ Set.Ico start (start + npages), (own n).InUse) :
    (memory.deallocated start npages).Owns c bottom
      (stale ∪ mappedTo c memory (Set.Ico start (start + npages))) (assign own start npages .free) where
  tidy := h.tidy
  window := h.window
  table := by
    intro path table hpath hat
    rw [assign_outside]
    · exact h.table hpath hat
    · intro hin
      have hinUse := hblock _ hin
      rw [h.table hpath hat] at hinUse
      simp [Owner.InUse] at hinUse
  user := by
    intro addr n haddr hfresh hframe
    rw [Set.mem_union, not_or] at hfresh
    rw [assign_outside]
    · exact h.user haddr hfresh.1 hframe
    · exact fun hin => hfresh.2 ⟨addr, rfl, haddr, n, hin, hframe⟩
  stale := by
    rintro addr (haddr | ⟨other, hpage, -, n, -, hframe⟩)
    · exact h.stale addr haddr
    · rw [← Option.ne_none_iff_isSome]
      intro hnone
      change memory.tables.leaf? c addr = none at hnone
      rw [frame?_of_none ((leaf?_congr _ hpage).trans hnone)] at hframe
      cases hframe
  free_iff := by
    intro n
    change n ∈ memory.allocator.free ∪ Finset.Ico start (start + npages) ↔ _
    rw [Finset.mem_union, Finset.mem_Ico, h.free_iff]
    by_cases hn : start ≤ n ∧ n < start + npages
    · rw [assign_inside hn]
      exact iff_of_true (.inr hn) rfl
    · rw [assign_outside hn, or_iff_left hn]
  unborn := by
    intro n hn
    rw [assign_outside]
    · exact h.unborn n hn
    · intro hin
      have hinUse := hblock n hin
      rw [h.unborn n hn] at hinUse
      simp [Owner.InUse] at hinUse
  born n hlo hhi := assign_ne (h.born n hlo hhi) (by simp)
  bottom_le := by
    intro n
    by_cases hn : start ≤ n ∧ n < start + npages
    · rcases h.bottom_le n with hle | hout | htable
      · exact .inl hle
      · exact absurd (hout ▸ hblock n hn) (by simp [Owner.InUse])
      · exact absurd (htable ▸ hblock n hn) (by simp [Owner.InUse])
    · rw [assign_outside hn]
      exact h.bottom_le n
  bottom_le_end := h.bottom_le_end

theorem Memory.Owns.union_mappedTo (h : memory.Owns c bottom stale own)
    (hheld : OwnsBlock own start npages .held) :
    stale ∪ mappedTo c memory (Set.Ico start (start + npages)) = stale := by
  apply Set.union_eq_left.mpr
  rintro page ⟨addr, rfl, hout, n, hn, hframe⟩
  by_contra hfresh
  have howner := h.user hout hfresh hframe
  rw [hheld n hn.1 hn.2] at howner
  cases howner

/-- What a failed request may leave: pages that are mapped, with or without memory of their own. -/
structure Spoilt (c : CBit) (bottom : Nat) (stale : Set Nat) (flags : PageTableFlags) (own : Nat → Owner)
    (before : Memory) (range : Set Nat) (own' : Nat → Owner) (stale' : Set Nat) (after : Memory) : Prop where
  owns : after.Owns c bottom stale' own'
  stale : stale' ⊆ stale ∪ range
  moves : Moves range own own'
  leaf? : ∀ addr : VirtAddr, after.tables.leaf? c addr = before.tables.leaf? c addr ∨
    addr.page ∈ range ∧ before.tables.leaf? c addr = none ∧ ∃ (entry : PageTableEntry) (n : Nat),
      after.tables.leaf? c addr = some (entry, []) ∧ Leads c flags entry n ∧ (own n).Loose
  kept : Kept own before after

variable {range stale' : Set Nat}

theorem Serves.spoilt (h : Serves c bottom stale flags own before own' pages after) (hsub : pages ⊆ range) :
    Spoilt c bottom stale flags own before range own' stale after where
  owns := h.owns
  stale := Set.subset_union_left
  moves := h.moves.mono hsub
  leaf? := by
    intro addr
    by_cases haddr : addr.page ∈ pages
    · obtain ⟨entry, n, hleaf, hleads, hn, -⟩ := h.maps.mapped addr haddr
      exact .inr ⟨hsub haddr, h.maps.unmapped addr haddr, entry, n, hleaf, hleads, hn⟩
    · exact .inl (h.maps.other addr haddr)
  kept := h.kept

theorem Spoilt.giveBack (h : Spoilt c bottom stale flags own before range own' stale' after)
    (hloose : ∀ n ∈ Set.Ico start (start + npages), (own n).Loose)
    (hblock : ∀ n ∈ Set.Ico start (start + npages), (own' n).InUse) :
    Spoilt c bottom stale flags own before range (assign own' start npages .free)
      (stale' ∪ mappedTo c after (Set.Ico start (start + npages))) (after.deallocated start npages) where
  owns := h.owns.giveBack hblock
  stale := by
    rintro page (hpage | ⟨addr, rfl, hout, n, hn, hframe⟩)
    · exact h.stale hpage
    · by_cases hfresh : addr.page ∈ stale'
      · exact h.stale hfresh
      · have howner := h.owns.user hout hfresh hframe
        rcases h.moves n with heq | ⟨-, -, hpages⟩
        · exact absurd (heq ▸ hblock n hn) (hloose n hn).not_inUse
        · exact .inr (hpages _ howner)
  moves := h.moves.hold hloose (.inr rfl)
  leaf? := h.leaf?
  kept := h.kept

theorem Spoilt.unmapStep {page : VirtAddr} {final : Memory} (hpresent : flags.present = true)
    (h : Spoilt c bottom stale flags own before range own' stale' after) (hstep : UnmapStep c after page final)
    (hout : ¬page.InWindow) (hfresh : page.page ∉ stale') (hnone : before.tables.leaf? c page = none) :
    ∃ own'', Spoilt c bottom stale flags own before range own'' stale' final := by
  obtain ⟨n, howns, hfrees, hframe⟩ := h.owns.unmapStep hstep hout hfresh
  have hloose : (own n).Loose := by
    rcases h.leaf? page with hsame | ⟨-, -, entry, m, hleaf, hleads, hm⟩
    · rw [frame?_of_none (hsame.trans hnone)] at hframe
      cases hframe
    · cases hframe.symm.trans (hleads.frame? hpresent hleaf)
      exact hm
  refine ⟨_, howns, h.stale, h.moves.hold ?_ (.inr rfl), ?_, ?_⟩
  · rintro k ⟨hlo, hhi⟩
    rwa [show k = n by omega]
  · intro addr
    rw [hfrees.leaf? addr]
    split
    · next hpage =>
      rw [leaf?_congr before.tables hpage, hnone]
      exact .inl rfl
    · exact h.leaf? addr
  · apply h.kept.trans hfrees.kept
    intro k hk
    rwa [h.moves.inUse hk]

theorem Spoilt.unmapSteps {walk : List VirtAddr} {final : Memory} (hpresent : flags.present = true)
    (h : Spoilt c bottom stale flags own before range own' stale' after) (hsteps : UnmapSteps c after walk final)
    (hwalk : ∀ page ∈ walk, ¬page.InWindow ∧ page.page ∉ stale' ∧ before.tables.leaf? c page = none) :
    ∃ own'', Spoilt c bottom stale flags own before range own'' stale' final := by
  induction hsteps generalizing own' with
  | nil => exact ⟨own', h⟩
  | cons step steps ih =>
    obtain ⟨hout, hfresh, hnone⟩ := hwalk _ List.mem_cons_self
    obtain ⟨own'', hmiddle⟩ := h.unmapStep hpresent step hout hfresh hnone
    exact ih hmiddle fun page hpage => hwalk page (List.mem_cons_of_mem _ hpage)

theorem Spoilt.mono {range' : Set Nat} (h : Spoilt c bottom stale flags own before range own' stale' after)
    (hsub : range ⊆ range') : Spoilt c bottom stale flags own before range' own' stale' after where
  owns := h.owns
  stale := h.stale.trans (Set.union_subset_union_right stale hsub)
  moves := h.moves.mono hsub
  leaf? addr := (h.leaf? addr).imp_right fun ⟨haddr, hnew⟩ => ⟨hsub haddr, hnew⟩
  kept := h.kept

theorem Spoilt.untouched (h : Spoilt c bottom stale flags own before range own' stale after)
    (hleaf : ∀ addr, after.tables.leaf? c addr = before.tables.leaf? c addr) :
    Untouched c bottom stale own before after :=
  ⟨own', h.owns, h.moves.mono (Set.subset_univ _), hleaf, h.kept⟩

/-- The pages of a request that are mapped before a page of one of its pieces: those in front of it in the piece and
those behind the piece. -/
def mappedBefore (page npages first exp stop : Nat) : Set Nat :=
  Set.Ico first stop ∪ Set.Ico (first + 2 ^ exp) (page + npages)

/-- A page of a piece cannot be mapped, while the pages before it can: it is mapped already, or it needs another page
table than they do and there are too few pages for it. -/
structure Sticks (host : Host) (memory : Memory) (page npages first exp : Nat) (stop : VirtAddr) : Prop where
  mem : stop.page ∈ Set.Ico first (first + 2 ^ exp)
  unmapped : ∀ addr : VirtAddr, addr.page ∈ mappedBefore page npages first exp stop.page →
    memory.tables.leaf? host.cBit addr = none
  enough : host.heap.FindsPages → ∃ limit, memory.Gets host limit
    (npages + memory.tables.missing host.cBit (tablePaths (mappedBefore page npages first exp stop.page)))
  reason : memory.tables.leaf? host.cBit stop ≠ none ∨
    memory.tables.tableAt host.cBit stop.stem = none ∧
      (∀ addr : VirtAddr, addr.page ∈ mappedBefore page npages first exp stop.page → addr.stem ≠ stop.stem) ∧
      ¬memory.Provides host (npages + memory.tables.missing host.cBit
        (tablePaths (mappedBefore page npages first exp stop.page) ∪ tablePaths {stop.page}))

/-- However the request is served in pieces, it can get stuck only at the first page of one, and not because of a
huge page that lacks flags. -/
def Harmless (host : Host) (parentFlags : PageTableFlags) (memory : Memory) (page npages : Nat) : Prop :=
  ∀ first exp, IsPiece host.heap memory.allocator.free page npages first exp → ∀ stop,
    Sticks host memory page npages first exp stop →
      stop.page = first ∧ memory.tables.lacks host.cBit parentFlags stop = false

/-- A request has failed: before a page was to be mapped, or because a page could not be mapped. -/
def Stopped (host : Host) (bottom : Nat) (stale : Set Nat) (flags parentFlags : PageTableFlags) (own : Nat → Owner)
    (before : Memory) (page npages : Nat) (after : Memory) : Prop :=
  Untouched host.cBit bottom stale own before after ∨
    after.mapFailed = true ∧ npages ≤ room bottom own ∧ (IsRange page npages →
      (flags.hugePage = false → Harmless host parentFlags before page npages →
        Untouched host.cBit bottom stale own before after) ∧
      ((∀ addr : VirtAddr, addr.page ∈ Set.Ico page (page + npages) →
          before.tables.lacks host.cBit parentFlags addr = false) → ∃ own' stale',
        Spoilt host.cBit bottom stale flags own before (Set.Ico page (page + npages)) own' stale' after))

/-- So many pages have got memory, and the tables that they need. -/
def Filled (host : Host) (bottom : Nat) (stale : Set Nat) (flags : PageTableFlags) (own : Nat → Owner)
    (before : Memory) (page npages : Nat) (range : Prop) (after : Memory) : Prop :=
  Served host.cBit bottom stale flags own before page npages range after ∧
    (range → Stocks host (tablePaths (Set.Ico page (page + npages))) npages before after)

structure SetAside (c : CBit) (bottom : Nat) (stale : Set Nat) (own : Nat → Owner) (before : Memory)
    (start npages : Nat) (own' : Nat → Owner) (after : Memory) : Prop where
  owns : after.Owns c bottom stale own'
  moves : Moves ∅ own own'
  loose : ∀ n ∈ Set.Ico start (start + npages), (own n).Loose
  held : OwnsBlock own' start npages .held
  same : Same c own before after
  tables : before.tables.Extends c ∅ after.tables
  zero : after.Zero start npages
  le : start + npages ≤ 2 ^ 27
  room : room bottom own' + npages ≤ room bottom own

theorem Memory.Owns.setAside (h : before.Owns c bottom stale own) (hpos : 0 < npages)
    (haside : before.SetsAside start npages after) : ∃ own', SetAside c bottom stale own before start npages own' after := by
  obtain ⟨hle, middle, hout, rfl⟩ := haside
  obtain ⟨own', hgrows, hfree, howns, hstill⟩ := h.handsOut hpos hout
  obtain ⟨hcleared, hsame, htables⟩ := howns.cleared hfree
  have hheld : OwnsBlock (assign own' start npages .held) start npages .held :=
    fun n hlo hhi => assign_inside ⟨hlo, hhi⟩
  have hfree' : ∀ n ∈ Set.Ico start (start + npages), (own' n).Loose := fun n hn => .inr (hfree n hn.1 hn.2)
  have hloose : ∀ n ∈ Set.Ico start (start + npages), (own n).Loose := fun n hn => hgrows.moves.loose (hfree' n hn)
  have hbottom : bottom ≤ start := howns.bottom_le_block hheld (by simp) hpos
  refine ⟨_, hcleared, hgrows.moves.hold hloose (.inl rfl), hloose, hheld,
    (Same.of_tables hstill c own).trans hgrows hsame, hstill ▸ htables, middle.cleared_zero start npages, hle, ?_⟩
  exact (room_hold hbottom hle hfree').trans hgrows.moves.room_le

section

variable {own1 own2 : Nat → Owner} {memory1 memory2 : Memory} {mapTo : VirtAddr} {npages2 exp : Nat}
  (haside : SetAside c bottom stale own memory start (2 ^ exp) own1 memory1)
include haside

theorem SetAside.untouched (h : Untouched c bottom stale own1 memory1 after) :
    Untouched c bottom stale own memory (after.deallocated start (2 ^ exp)) := by
  obtain ⟨own', howns, hmoves, hsame⟩ := h
  have hheld : OwnsBlock own' start (2 ^ exp) .held := by
    intro n hlo hhi
    have hn := haside.held n hlo hhi
    rw [hmoves.inUse (.inl hn), hn]
  have hback := howns.giveBack fun n hn => .inl (hheld n hn.1 hn.2)
  rw [howns.union_mappedTo hheld] at hback
  refine ⟨_, hback, ((haside.moves.trans hmoves).mono (by simp)).hold haside.loose (.inr rfl), ?_, ?_⟩
  · exact fun addr => (hsame.leaf? addr).trans (haside.same.leaf? addr)
  · apply Kept.trans haside.same.mem hsame.mem
    intro n hn
    rwa [haside.moves.inUse hn]

theorem SetAside.spoilt (h : Spoilt c bottom stale flags own1 memory1 range own' stale' after) :
    ∃ own'' stale'', Spoilt c bottom stale flags own memory range own'' stale'' (after.deallocated start (2 ^ exp)) := by
  have hspoilt : Spoilt c bottom stale flags own memory range own' stale' after := {
    owns := h.owns
    stale := h.stale
    moves := (haside.moves.trans h.moves).mono (by simp)
    leaf? := by
      intro addr
      rw [← haside.same.leaf? addr]
      rcases h.leaf? addr with hsame | ⟨haddr, hnone, entry, n, hleaf, hleads, hn⟩
      · exact .inl hsame
      · exact .inr ⟨haddr, hnone, entry, n, hleaf, hleads, haside.moves.loose hn⟩
    kept := by
      apply Kept.trans haside.same.mem h.kept
      intro n hn
      rwa [haside.moves.inUse hn] }
  refine ⟨_, _, hspoilt.giveBack haside.loose fun n hn => ?_⟩
  have hheld := haside.held n hn.1 hn.2
  rw [h.moves.inUse (.inl hheld), hheld]
  exact .inl rfl

theorem SetAside.retreat {pages2 done : Set Nat} (hpresent : flags.present = true)
    (h : Serves c bottom stale flags own1 memory1 own2 pages2 memory2)
    (hplaced : Placed c bottom stale flags own2 memory2 (Set.Ico start (start + 2 ^ exp)) done after)
    (hsub : pages2 ∪ done ⊆ range) : ∃ own', Spoilt c bottom stale flags own memory range own'
        (stale ∪ mappedTo c after (Set.Ico start (start + 2 ^ exp))) (after.deallocated start (2 ^ exp)) ∧
      ∀ addr : VirtAddr, addr.page ∈ pages2 → ¬addr.InWindow ∧
        addr.page ∉ stale ∪ mappedTo c after (Set.Ico start (start + 2 ^ exp)) ∧
        memory.tables.leaf? c addr = none := by
  obtain ⟨own3, howns3, hsettles, hmaps, hkept⟩ := hplaced
  have hserves := Serves.place hpresent haside.loose haside.moves haside.same haside.owns h howns3 hsettles
    hmaps hkept
  have hinUse : ∀ n ∈ Set.Ico start (start + 2 ^ exp), (own3 n).InUse := by
    intro n hn
    have hheld := haside.held n hn.1 hn.2
    apply hsettles.inUse
    rw [h.moves.inUse (.inl hheld), hheld]
    exact .inl rfl
  refine ⟨_, (hserves.spoilt hsub).giveBack haside.loose hinUse, ?_⟩
  intro addr haddr
  have hnone := h.maps.unmapped addr haddr
  refine ⟨fun hin => ?_, ?_, (haside.same.leaf? addr).symm.trans hnone⟩
  · have hmapped := haside.owns.window addr hin
    rw [hnone] at hmapped
    cases hmapped
  rintro (hstale | ⟨other, hpage, -, n, hn, hframe⟩)
  · have hmapped := haside.owns.stale addr hstale
    rw [hnone] at hmapped
    cases hmapped
  · -- it has been mapped to a page that was not set aside
    obtain ⟨entry, k, hleaf, hleads, hk, -⟩ := h.maps.mapped addr haddr
    have hother : addr.page ∉ done := by
      intro hdone
      rw [hmaps.unmapped addr hdone] at hleaf
      cases hleaf
    have hafter : after.tables.leaf? c other = some (entry, []) := by
      rw [leaf?_congr _ hpage, hmaps.other addr hother, hleaf]
    cases hframe.symm.trans (hleads.frame? hpresent hafter)
    have hheld := haside.held n hn.1 hn.2
    rw [Set.mem_ofPred_eq, hheld] at hk
    simp [Owner.Loose] at hk

end

variable {mapTo : VirtAddr}

theorem second_spec {second : VirtAddr} {npages npages2 : Nat} (h : mapTo.add (SIZE_4_KIB * npages) = some second)
    (haligned : SIZE_4_KIB ∣ mapTo.raw) (hpos : 0 < npages2) (hrange : IsRange mapTo.page (npages + npages2)) :
    second.page = mapTo.page + npages ∧ SIZE_4_KIB ∣ second.raw ∧ second.Spans (SIZE_4_KIB * npages2) := by
  rw [← spans_iff haligned, Nat.mul_add] at hrange
  have hlt : SIZE_4_KIB * npages < SIZE_4_KIB * npages + SIZE_4_KIB * npages2 :=
    Nat.lt_add_of_pos_right (Nat.mul_pos (by decide) hpos)
  obtain ⟨sum, hsum, hraw⟩ := VirtAddr.add_spans hrange hlt
  cases h.symm.trans hsum
  obtain ⟨k, hk⟩ := haligned
  rw [hk, ← Nat.mul_add] at hraw
  refine ⟨?_, hraw ▸ Nat.dvd_mul_right _ _, hrange.advance (by rw [hraw, hk, Nat.mul_add])⟩
  rw [VirtAddr.page_of_raw hraw, VirtAddr.page_of_raw hk]

theorem second_good {npages2 exp : Nat} (haligned : SIZE_4_KIB ∣ mapTo.raw)
    (hspans : mapTo.Spans (SIZE_4_KIB * (2 ^ exp + npages2) + 1)) :
    ∃ second, mapTo.add (SIZE_4_KIB * 2 ^ exp) = some second ∧ SIZE_4_KIB ∣ second.raw ∧
      second.Spans (SIZE_4_KIB * npages2 + 1) := by
  rw [Nat.mul_add, Nat.add_assoc] at hspans
  obtain ⟨second, hsecond, hraw⟩ :=
    VirtAddr.add_spans hspans (Nat.lt_add_of_pos_right (Nat.succ_pos (SIZE_4_KIB * npages2)))
  exact ⟨second, hsecond, hraw ▸ Nat.dvd_add haligned (Nat.dvd_mul_right _ _), hspans.advance hraw⟩

section

variable {own1 own2 : Nat → Owner} {memory1 memory2 : Memory} {npages2 exp : Nat}
  (haside : SetAside host.cBit bottom stale own memory start (2 ^ exp) own1 memory1)
  (hdrawn : Drawn host (2 ^ exp + npages2) exp memory memory1) (hbounded : memory.Bounded)

include haside hdrawn

omit hdrawn in
theorem SetAside.missing (paths : Set (List (Fin 512))) (hlength : ∀ path ∈ paths, path.length ≤ 3) :
    memory1.tables.missing host.cBit paths = memory.tables.missing host.cBit paths := by
  have hunion := haside.tables.missing_union hlength
  rw [Set.empty_union, missing_empty, Nat.zero_add] at hunion
  exact hunion.symm

theorem SetAside.forecast {P : Memory → Nat → Prop} (hforecast : Forecast host P) {paths : Set (List (Fin 512))}
    (hlength : ∀ path ∈ paths, path.length ≤ 3)
    (h : P memory (2 ^ exp + npages2 + memory.tables.missing host.cBit paths)) :
    P memory1 (npages2 + memory1.tables.missing host.cBit paths) := by
  rw [Nat.add_comm] at h
  have hafter := hdrawn.forecast P hforecast _ h
  rwa [Nat.add_sub_cancel_left, Nat.add_comm, ← haside.missing paths hlength] at hafter

include hbounded

theorem SetAside.harmless {page : Nat} (h : Harmless host parentFlags memory page (2 ^ exp + npages2)) :
    Harmless host parentFlags memory1 (page + 2 ^ exp) npages2 := by
  intro first exp' hpiece stop hsticks
  have hbefore : mappedBefore (page + 2 ^ exp) npages2 first exp' stop.page =
      mappedBefore page (2 ^ exp + npages2) first exp' stop.page := by
    rw [mappedBefore, mappedBefore, Nat.add_assoc page]
  obtain ⟨hmem, hunmapped, henough, hreason⟩ := hsticks
  rw [hbefore] at hunmapped henough hreason
  have hwhole := h first exp' (hdrawn.behind (by rwa [Nat.add_sub_cancel_left])) stop ⟨hmem, ?_, ?_, ?_⟩
  · rwa [lacks_congr (haside.same.leaf? stop)]
  · exact fun addr haddr => (haside.same.leaf? addr).symm.trans (hunmapped addr haddr)
  · intro hheap
    apply gets_of_not_starves _ hheap hbounded
    intro hstarves
    obtain ⟨limit, -, ledger, ⟨calls, -, hdrain⟩, hle⟩ := henough hheap
    have hshort := (haside.forecast hdrawn starves_forecast (fun _ => length_of_mem_tablePaths) hstarves).short
    exact absurd (hshort calls ledger hdrain) (Nat.not_lt.mpr hle)
  · rw [haside.same.leaf? stop] at hreason
    refine hreason.imp_right fun ⟨hnone, hstems, hshort⟩ => ⟨haside.tables.tableAt_eq_none stop.length_stem.le hnone,
      hstems, fun hprovides => hshort (haside.forecast hdrawn provides_forecast ?_ hprovides)⟩
    exact fun _ hpath => hpath.elim length_of_mem_tablePaths length_of_mem_tablePaths

theorem SetAside.stopped {page2 : Nat} (h : Stopped host bottom stale flags parentFlags own1 memory1 page2 npages2
    after) (hpage : IsRange mapTo.page (2 ^ exp + npages2) → page2 = mapTo.page + 2 ^ exp) :
    Stopped host bottom stale flags parentFlags own memory mapTo.page (2 ^ exp + npages2)
      (after.deallocated start (2 ^ exp)) := by
  have hsub : Set.Ico (mapTo.page + 2 ^ exp) (mapTo.page + 2 ^ exp + npages2) ⊆
      Set.Ico mapTo.page (mapTo.page + (2 ^ exp + npages2)) :=
    Set.Ico_subset_Ico (Nat.le_add_right _ _) (Nat.add_assoc _ _ _).le
  have hroom := haside.room
  rcases h with huntouched | ⟨hfailed, hle, hexact⟩
  · exact .inl (haside.untouched huntouched)
  · refine .inr ⟨hfailed, by omega, fun hrange => ?_⟩
    rw [hpage hrange] at hexact
    obtain ⟨huntouched, hspoilt⟩ := hexact hrange.right
    refine ⟨fun hsmall hharmless => haside.untouched (huntouched hsmall (haside.harmless hdrawn hbounded hharmless)), ?_⟩
    intro hlacks
    obtain ⟨own', stale', hafter⟩ := hspoilt fun addr haddr => by
      rw [lacks_congr (haside.same.leaf? addr)]
      exact hlacks addr (hsub haddr)
    exact haside.spoilt (hafter.mono hsub)

theorem mapSecondHalf_yields {next : VirtAddr → Nat → Alloc AllocateError Unit} {good : Prop}
    (haligned : SIZE_4_KIB ∣ mapTo.raw) (hspans : good → mapTo.Spans (SIZE_4_KIB * (2 ^ exp + npages2) + 1))
    (hnext : ∀ second, mapTo.add (SIZE_4_KIB * 2 ^ exp) = some second → 0 < npages2 →
      Exec.Yields (next second (SIZE_4_KIB * npages2)) memory1
        (fun _ => Filled host bottom stale flags own1 memory1 second.page npages2 (IsRange second.page npages2))
        (Stop.Lets good fun _ => Stopped host bottom stale flags parentFlags own1 memory1 second.page npages2)) :
    Exec.Yields (mapSecondHalf next mapTo start exp (SIZE_4_KIB * npages2)) memory1
      (fun _ => Filled host bottom stale flags own1 memory1 (mapTo.page + 2 ^ exp) npages2
        (IsRange mapTo.page (2 ^ exp + npages2))) (Stop.Lets good fun _ =>
        Stopped host bottom stale flags parentFlags own memory mapTo.page (2 ^ exp + npages2)) := by
  unfold mapSecondHalf
  split
  case isFalse hzero =>
    have hnpages : npages2 = 0 := by
      unfold SIZE_4_KIB at hzero
      omega
    subst hnpages
    refine ⟨⟨own1, ∅, .refl haside.owns, le_rfl, fun _ => ?_⟩, fun _ => ?_⟩
    · rw [Nat.add_zero, Set.Ico_self]
    · rw [Nat.add_zero, Set.Ico_self, tablePaths_empty]
      exact .refl memory1
  case isTrue hpos =>
    have hpos2 : 0 < npages2 := Nat.pos_of_mul_pos_left hpos
    generalize hsecond : mapTo.add (SIZE_4_KIB * 2 ^ exp) = second? at hnext
    apply unwrap_bind
    · rintro second rfl
      have hpage : IsRange mapTo.page (2 ^ exp + npages2) → second.page = mapTo.page + 2 ^ exp :=
        fun hrange => (second_spec hsecond haligned hpos2 hrange).1
      refine (attempted_lets (hnext second rfl hpos2)).bind ?_
      rintro (error | _) middle hmiddle
      · apply Exec.Yields.modify_bind
        exact haside.stopped hdrawn hbounded hmiddle hpage
      · obtain ⟨⟨own', served, hserves, hroom, hserved⟩, hstocks⟩ := hmiddle
        refine ⟨⟨own', served, hserves, hroom, fun hrange => ?_⟩, fun hrange => ?_⟩
        · rw [hpage hrange] at hserved
          exact hserved hrange.right
        · rw [hpage hrange] at hstocks
          exact hstocks hrange.right
    · rintro rfl hgood
      obtain ⟨_, hsum, -⟩ := second_good haligned (hspans hgood)
      cases hsecond.symm.trans hsum

end

section

variable {own1 own2 : Nat → Owner} {memory1 memory2 middle : Memory} {npages2 exp : Nat} {pages2 : Set Nat}
  {stop : VirtAddr} {unmapped : List VirtAddr}
  (haside : SetAside host.cBit bottom stale own memory start (2 ^ exp) own1 memory1)
  (hserves : Serves host.cBit bottom stale flags own1 memory1 own2 pages2 memory2)
  (hpages : pages2 = Set.Ico (mapTo.page + 2 ^ exp) (mapTo.page + 2 ^ exp + npages2))

section

include haside hserves hpages

theorem SetAside.leaf?_second {addr : VirtAddr} (haddr : addr.page ∈ Set.Ico mapTo.page (mapTo.page + 2 ^ exp)) :
    memory2.tables.leaf? host.cBit addr = memory.tables.leaf? host.cBit addr := by
  refine (hserves.maps.other addr ?_).trans (haside.same.leaf? addr)
  rw [hpages]
  rw [Set.mem_Ico] at haddr ⊢
  omega

theorem SetAside.sticks (hbounded : memory.Bounded)
    (hstocks : Stocks host (tablePaths pages2) (2 ^ exp + npages2) memory memory2)
    (hmem : stop.page ∈ Set.Ico mapTo.page (mapTo.page + 2 ^ exp))
    (hstuck : Stuck host bottom stale flags parentFlags own2 memory2 block (Set.Ico mapTo.page stop.page) stop
      middle) : Sticks host memory mapTo.page (2 ^ exp + npages2) mapTo.page exp stop := by
  have hbefore : mappedBefore mapTo.page (2 ^ exp + npages2) mapTo.page exp stop.page =
      pages2 ∪ Set.Ico mapTo.page stop.page := by
    rw [mappedBefore, Set.union_comm, hpages, Nat.add_assoc]
  obtain ⟨-, hunmapped, ⟨final, hfinal, hreason⟩, -⟩ := hstuck
  replace hfinal := hstocks.trans hfinal
  rw [← tablePaths_union, ← hbefore, Nat.add_zero] at hfinal
  refine ⟨hmem, ?_, fun hheap => ?_, ?_⟩
  · rw [hbefore]
    rintro addr (haddr | haddr)
    · exact (haside.same.leaf? addr).symm.trans (hserves.maps.unmapped addr haddr)
    · rw [← haside.leaf?_second hserves hpages ⟨haddr.1, haddr.2.trans hmem.2⟩]
      exact hunmapped addr haddr
  · refine gets_of_not_starves (fun hstarves => ?_) hheap hbounded
    exact not_starves_zero (hfinal.forecast _ starves_forecast 0 (by rwa [Nat.zero_add]))
  · rcases hreason with hleaf | hdone | ⟨hnone, hshort⟩
    · exact .inl (haside.leaf?_second hserves hpages hmem ▸ hleaf)
    · exact absurd hdone.2 (Nat.lt_irrefl _)
    · refine .inr ⟨hfinal.tables.tableAt_eq_none stop.length_stem.le hnone, fun addr haddr heq => ?_,
        fun hprovides => hshort (hfinal.afford provides_forecast (antitone_has _) Set.subset_union_left
          Set.subset_union_right (fun _ hpath => hpath.elim length_of_mem_tablePaths length_of_mem_tablePaths)
            hprovides)⟩
      exact (hfinal.tables.there _ (heq ▸ stem_mem_tablePaths haddr)).2 hnone

end

variable (hunmapped : unmapped.map VirtAddr.page = List.range' (mapTo.page + 2 ^ exp) npages2)
include haside hserves hpages hunmapped

omit haside hserves in
theorem mem_unmapped {addr : VirtAddr} : addr.page ∈ unmapped.map VirtAddr.page ↔ addr.page ∈ pages2 := by
  rw [hunmapped, hpages, List.mem_range'_1, Set.mem_Ico]

theorem SetAside.restored (hpresent : flags.present = true) (hsmall : flags.hugePage = false)
    (hplaced : Placed host.cBit bottom stale flags own2 memory2 (Set.Ico start (start + 2 ^ exp)) ∅ middle)
    (huntil : UnmapsUntil host.cBit unmapped (middle.deallocated start (2 ^ exp)) after) :
    Untouched host.cBit bottom stale own memory after := by
  obtain ⟨own', hspoilt, hfresh⟩ := haside.retreat hpresent hserves hplaced subset_rfl
  obtain ⟨own3, howns3, hsettles, hmaps, -⟩ := hplaced
  have hother : ∀ addr, middle.tables.leaf? host.cBit addr = memory2.tables.leaf? host.cBit addr :=
    fun addr => hmaps.other addr (Set.notMem_empty _)
  have hheld : OwnsBlock own3 start (2 ^ exp) .held := by
    intro n hlo hhi
    have hn := haside.held n hlo hhi
    have hn2 : own2 n = .held := (hserves.moves.inUse (.inl hn)).trans hn
    rcases hsettles n with heq | ⟨hloose, -⟩ | ⟨-, page, hpage, -⟩
    · rw [heq, hn2]
    · rw [hn2] at hloose
      simp [Owner.Loose] at hloose
    · exact hpage.elim
  rw [howns3.union_mappedTo hheld] at hspoilt hfresh
  have hsteps : UnmapSteps host.cBit (middle.deallocated start (2 ^ exp)) unmapped after := by
    apply huntil.complete howns3.tidy.tree (hunmapped ▸ List.nodup_range')
    intro page hpage
    obtain ⟨entry, n, hleaf, hleads, -⟩ :=
      hserves.maps.mapped page ((mem_unmapped hpages hunmapped).mp (List.mem_map_of_mem hpage))
    apply mapsSmall_of_leaf? ((hother page).trans hleaf)
    rw [PageTableEntry.IsPointer, hleads.flags]
    exact ⟨hpresent, hsmall⟩
  obtain ⟨own'', hafter⟩ := hspoilt.unmapSteps hpresent hsteps fun page hpage =>
    hfresh page ((mem_unmapped hpages hunmapped).mp (List.mem_map_of_mem hpage))
  apply hafter.untouched
  intro addr
  rw [(hsteps.leaf? howns3.tidy).2 addr]
  split
  · next haddr => exact (hfresh addr ((mem_unmapped hpages hunmapped).mp haddr)).2.2.symm
  · next haddr =>
    rw [mem_unmapped hpages hunmapped] at haddr
    rw [← haside.same.leaf? addr, ← hserves.maps.other addr haddr]
    exact hother addr

theorem SetAside.backOut (hpresent : flags.present = true) (hbounded : memory.Bounded)
    (hdrawn : Drawn host (2 ^ exp + npages2) exp memory memory1)
    (hstocks : Stocks host (tablePaths pages2) (2 ^ exp + npages2) memory memory2)
    (hmem : stop.page ∈ Set.Ico mapTo.page (mapTo.page + 2 ^ exp))
    (hstuck : Stuck host bottom stale flags parentFlags own2 memory2 (Set.Ico start (start + 2 ^ exp))
      (Set.Ico mapTo.page stop.page) stop middle)
    (huntil : UnmapsUntil host.cBit unmapped (middle.deallocated start (2 ^ exp)) after) :
    (flags.hugePage = false → Harmless host parentFlags memory mapTo.page (2 ^ exp + npages2) →
      Untouched host.cBit bottom stale own memory after) ∧
    ((∀ addr : VirtAddr, addr.page ∈ Set.Ico mapTo.page (mapTo.page + (2 ^ exp + npages2)) →
        memory.tables.lacks host.cBit parentFlags addr = false) → ∃ own' stale',
      Spoilt host.cBit bottom stale flags own memory (Set.Ico mapTo.page (mapTo.page + (2 ^ exp + npages2))) own'
        stale' after) := by
  have hlacks2 := lacks_congr (haside.leaf?_second hserves hpages hmem) parentFlags
  constructor
  · intro hsmall hharmless
    obtain ⟨hfirst, hlacks⟩ := hharmless _ _ (hdrawn.front _) stop
      (haside.sticks hserves hpages hbounded hstocks hmem hstuck)
    have hplaced := hstuck.placed (hlacks2.trans hlacks)
    rw [hfirst, Set.Ico_self] at hplaced
    exact haside.restored hserves hpages hunmapped hpresent hsmall hplaced huntil
  · intro hlacks
    have hplaced := hstuck.placed (hlacks2.trans (hlacks stop (Set.Ico_subset_Ico_right (by omega) hmem)))
    have hsub : pages2 ∪ Set.Ico mapTo.page stop.page ⊆ Set.Ico mapTo.page (mapTo.page + (2 ^ exp + npages2)) := by
      rw [hpages]
      rw [Set.mem_Ico] at hmem
      exact Set.union_subset (Set.Ico_subset_Ico (Nat.le_add_right _ _) (Nat.add_assoc _ _ _).le)
        (Set.Ico_subset_Ico_right (by omega))
    obtain ⟨own', hspoilt, hfresh⟩ := haside.retreat hpresent hserves hplaced hsub
    obtain ⟨before, rest', rfl, hsteps, -⟩ := huntil
    obtain ⟨own'', hafter⟩ := hspoilt.unmapSteps hpresent hsteps fun page hpage =>
      hfresh page ((mem_unmapped hpages hunmapped).mp (List.mem_map_of_mem (List.mem_append_left _ hpage)))
    exact ⟨own'', _, hafter⟩

end

theorem Calm.untouched (h : Calm c bottom stale own before after) : Untouched c bottom stale own before after := by
  obtain ⟨own', howns, hgrows, hstill⟩ := h
  exact ⟨own', howns, hgrows.moves.mono (Set.empty_subset _), .of_tables hstill c own⟩

variable {own1 own2 : Nat → Owner} {memory1 memory2 : Memory} {npages2 exp : Nat}

theorem mapFirstHalf_yields {good : Prop} (hpresent : flags.present = true)
    (hparent : parentFlags.hugePage = false) (haligned : SIZE_4_KIB ∣ mapTo.raw)
    (haside : SetAside host.cBit bottom stale own memory start (2 ^ exp) own1 memory1)
    (hdrawn : Drawn host (2 ^ exp + npages2) exp memory memory1)
    (hbounded : memory.Bounded) (hstocks : IsRange mapTo.page (2 ^ exp + npages2) → Stocks host
      (tablePaths (Set.Ico (mapTo.page + 2 ^ exp) (mapTo.page + 2 ^ exp + npages2))) (2 ^ exp + npages2) memory memory2)
    (hgood : good → Sound flags parentFlags ∧ mapTo.Spans (SIZE_4_KIB * (2 ^ exp + npages2) + 1) ∧
      memory.Steady host (2 ^ exp + npages2 + memory.tables.missing host.cBit
        (tablePaths (Set.Ico mapTo.page (mapTo.page + (2 ^ exp + npages2))))))
    (h : Served host.cBit bottom stale flags own1 memory1 (mapTo.page + 2 ^ exp) npages2
      (IsRange mapTo.page (2 ^ exp + npages2)) memory2) :
    Exec.Yields (mapFirstHalf host flags parentFlags mapTo start exp (SIZE_4_KIB * npages2)) memory2
      (fun _ => Filled host bottom stale flags own memory mapTo.page (2 ^ exp + npages2)
        (IsRange mapTo.page (2 ^ exp + npages2))) (Stop.Lets good fun _ =>
        Stopped host bottom stale flags parentFlags own memory mapTo.page (2 ^ exp + npages2)) := by
  obtain ⟨own2, pages2, hserves, hroom, hpages2⟩ := h
  have hroom1 := haside.room
  have hheld2 : OwnsBlock own2 start (2 ^ exp) .held := by
    intro n hlo hhi
    have hheld := haside.held n hlo hhi
    rw [hserves.moves.inUse (.inl hheld), hheld]
  have hzero2 : memory2.Zero start (2 ^ exp) :=
    hserves.kept.zero (fun n hlo hhi => .inl (haside.held n hlo hhi)) haside.zero
  have hwhole : Set.Ico (mapTo.page + 2 ^ exp) (mapTo.page + 2 ^ exp + npages2) ∪
      Set.Ico mapTo.page (mapTo.page + 2 ^ exp) = Set.Ico mapTo.page (mapTo.page + (2 ^ exp + npages2)) := by
    rw [Set.union_comm, Set.Ico_union_Ico_eq_Ico (Nat.le_add_right _ _) (Nat.le_add_right _ _), Nat.add_assoc]
  have hgood' : good → Sound flags parentFlags ∧ mapTo.Spans (SIZE_4_KIB * 2 ^ exp + 1) ∧ memory2.Steady host
      (memory2.tables.missing host.cBit (tablePaths (Set.Ico mapTo.page (mapTo.page + 2 ^ exp)))) := by
    intro hall
    obtain ⟨hsound, hspans, hsteady⟩ := hgood hall
    have hrange := (spans_iff haligned).mp (hspans.mono (Nat.le_succ _))
    refine ⟨hsound, hspans.mono (Nat.succ_le_succ (Nat.mul_le_mul_left _ (Nat.le_add_right _ _))), ?_⟩
    rw [← hwhole] at hsteady
    exact (hstocks hrange).afford steady_forecast antitone_steady (tablePaths_mono Set.subset_union_left)
      (tablePaths_mono Set.subset_union_right) (fun _ => length_of_mem_tablePaths) hsteady
  obtain ⟨phys, hphys⟩ := exists_shimVirtToEncPhys host.cBit
    (Nat.lt_of_lt_of_le (Nat.lt_add_of_pos_right (Nat.two_pow_pos exp)) haside.le)
  unfold mapFirstHalf
  rw [hphys]
  refine unwrap_bind (fun _ heq => ?_) fun hnone => by cases hnone
  cases heq
  refine (attempted_lets ((mapMemory_yields hserves.owns hpresent hparent haligned (Nat.two_pow_pos exp) hheld2
    haside.le hzero2 (shimVirtToEncPhys_spec hphys).2).imp (fun _ _ => id) fun _ _ hstop =>
      hstop.imp hgood' fun _ => id)).bind ?_
  rintro (error | _) middle hmiddle
  · obtain ⟨hfailed, hstuck⟩ := hmiddle
    apply Exec.Yields.modify_bind
    change Exec.Yields _ (middle.deallocated start (2 ^ exp)) _ _
    generalize hsecond : mapTo.add (SIZE_4_KIB * 2 ^ exp) = second?
    refine unwrap_bind ?_ ?_
    · rintro second rfl
      refine (attempted_lets ((unmapMemory_range second npages2).imp (fun _ _ => id) fun _ _ hstop =>
        hstop.imp (fun hall => ?_) fun _ => id)).bind ?_
      · obtain ⟨-, hspans, -⟩ := hgood hall
        obtain ⟨_, hsum, haligned2, hspans2⟩ := second_good haligned hspans
        cases hsecond.symm.trans hsum
        obtain ⟨stop, -, hstop⟩ := hstuck (hspans.mono (Nat.le_succ_of_le (Nat.mul_le_mul_left _ (Nat.le_add_right _ _))))
        exact ⟨hstop.tidy, hspans2.whole haligned2⟩
      intro result final hfinal
      obtain ⟨unmapped, hunmapped, huntil⟩ : UnmapsRange host.cBit second npages2
          (middle.deallocated start (2 ^ exp)) final := by
        cases result with
        | ok _ => exact hfinal
        | error _ => exact hfinal
      refine .inr ⟨?_, by omega, fun hrange => ?_⟩
      · obtain ⟨done, rest, -, hsteps, -⟩ := huntil
        exact hsteps.mapFailed.trans hfailed
      · obtain ⟨stop, hmem, hstop⟩ := hstuck ((spans_iff haligned).mpr hrange.left)
        have hbehind : unmapped.map VirtAddr.page = List.range' (mapTo.page + 2 ^ exp) npages2 := by
          by_cases hzero : npages2 = 0
          · rw [hunmapped (absurd hzero), hzero]
            rfl
          · obtain ⟨hpage, hsecondAligned, hspans⟩ :=
              second_spec hsecond haligned (Nat.pos_of_ne_zero hzero) hrange
            rw [hunmapped fun _ => ⟨hsecondAligned, hspans⟩, hpage]
        exact haside.backOut hserves (hpages2 hrange) hbehind hpresent hbounded hdrawn (hpages2 hrange ▸ hstocks hrange)
          hmem hstop huntil
    · rintro rfl hall
      obtain ⟨_, hsum, -⟩ := second_good haligned (hgood hall).2.1
      cases hsecond.symm.trans hsum
  · obtain ⟨hstocks3, pages1, hpages1, own3, howns3, hsettles, hmaps, hkept⟩ := hmiddle
    have hserves3 := Serves.place hpresent haside.loose haside.moves haside.same haside.owns hserves howns3
      hsettles hmaps hkept
    refine ⟨⟨own3, pages2 ∪ pages1, hserves3, ?_, ?_⟩, ?_⟩
    · have hroom3 : room bottom own3 ≤ room bottom own2 := hsettles.room_le
      omega
    · intro hrange
      rw [hpages2 hrange, hpages1 ((spans_iff haligned).mpr hrange.left), hwhole]
    · intro hrange
      have hall := (hstocks hrange).trans (hstocks3 ((spans_iff haligned).mpr hrange.left))
      rwa [← tablePaths_union, hwhole] at hall

theorem SetAside.stocks {paths : Set (List (Fin 512))}
    (haside : SetAside host.cBit bottom stale own memory start (2 ^ exp) own1 memory1)
    (hdrawn : Drawn host (2 ^ exp + npages2) exp memory memory1) (h : Stocks host paths npages2 memory1 memory2) :
    Stocks host paths (2 ^ exp + npages2) memory memory2 where
  tables := by
    have hall := haside.tables.trans h.tables
    rwa [Set.empty_union] at hall
  forecast P hforecast demand hbefore := by
    apply h.forecast P hforecast
    rw [Nat.add_right_comm] at hbefore
    have hafter := hdrawn.forecast P hforecast _ hbefore
    rwa [Nat.add_sub_cancel_left, Nat.add_right_comm,
      ← haside.missing paths fun path hpath => (h.tables.there path hpath).1] at hafter

theorem allocateAndMapMemory_succ {npages : Nat} (haligned : SIZE_4_KIB ∣ mapTo.raw) (hpos : npages ≠ 0) (fuel : Nat) :
    allocateAndMapMemory host flags parentFlags (fuel + 1) mapTo (SIZE_4_KIB * npages) = (do
      match ← takeFirstHalf host fuel (SIZE_4_KIB * npages) with
      | none => throw (.err .outOfMemory)
      | some (page, exp) =>
        let secondHalfSize ← unwrap (if SIZE_4_KIB * 2 ^ exp ≤ SIZE_4_KIB * npages then
          some (SIZE_4_KIB * npages - SIZE_4_KIB * 2 ^ exp) else none)
        mapSecondHalf (allocateAndMapMemory host flags parentFlags fuel) mapTo page exp secondHalfSize
        mapFirstHalf host flags parentFlags mapTo page exp secondHalfSize) := by
  have hne : SIZE_4_KIB * npages ≠ 0 := Nat.mul_ne_zero (by decide) hpos
  have hmod : ¬(mapTo.raw % SIZE_4_KIB ≠ 0 ∨ SIZE_4_KIB * npages % SIZE_4_KIB ≠ 0) := by
    rw [Nat.mod_eq_zero_of_dvd haligned, Nat.mul_mod_right]
    simp
  rw [allocateAndMapMemory, if_neg hne, if_neg hmod, takeFirstHalf]
  exact (bind_assoc _ _ _).symm

theorem Memory.Owns.bounded (h : memory.Owns c bottom stale own) : memory.Bounded := by
  intro n hn
  apply h.lt_end
  rw [(h.free_iff n).mp hn]
  simp

/-- A request that does not panic, and that asks for memory only so often. -/
structure Viable (host : Host) (flags parentFlags : PageTableFlags) (fuel : Nat) (memory : Memory) (mapTo : VirtAddr)
    (npages : Nat) : Prop where
  sound : Sound flags parentFlags
  spans : mapTo.Spans (SIZE_4_KIB * npages + 1)
  steady : memory.Steady host
    (npages + memory.tables.missing host.cBit (tablePaths (Set.Ico mapTo.page (mapTo.page + npages))))
  gets : ∃ limit, npages + limit < fuel ∧ memory.Gets host limit npages

theorem Viable.behind {fuel : Nat} {second : VirtAddr} (hbehind : 0 < npages2)
    (h : Viable host flags parentFlags (fuel + 1) memory mapTo (2 ^ exp + npages2))
    (haside : SetAside host.cBit bottom stale own memory start (2 ^ exp) own1 memory1)
    (hdrawn : Drawn host (2 ^ exp + npages2) exp memory memory1) (haligned : SIZE_4_KIB ∣ mapTo.raw)
    (hsecond : mapTo.add (SIZE_4_KIB * 2 ^ exp) = some second) :
    Viable host flags parentFlags fuel memory1 second npages2 := by
  obtain ⟨limit, hlimit, hgets⟩ := h.gets
  obtain ⟨_, hsum, -, hspans⟩ := second_good haligned h.spans
  cases hsecond.symm.trans hsum
  obtain ⟨hpage, -⟩ := second_spec hsecond haligned hbehind ((spans_iff haligned).mp (h.spans.mono (Nat.le_succ _)))
  have hsub : Set.Ico second.page (second.page + npages2) ⊆
      Set.Ico mapTo.page (mapTo.page + (2 ^ exp + npages2)) := by
    rw [hpage]
    exact Set.Ico_subset_Ico (Nat.le_add_right _ _) (Nat.add_assoc _ _ _).le
  have hsteady := haside.forecast hdrawn steady_forecast (fun _ => length_of_mem_tablePaths) h.steady
  have hgets' := hdrawn.forecast _ (gets_forecast limit) 0 (by rwa [Nat.zero_add])
  rw [Nat.add_sub_cancel_left, Nat.zero_add] at hgets'
  refine ⟨h.sound, hspans, antitone_steady _ (Nat.add_le_add_left ?_ _) hsteady, limit, ?_, hgets'⟩
  · exact missing_mono _ (tablePaths_mono hsub) fun _ => length_of_mem_tablePaths
  · have hpos := Nat.two_pow_pos exp
    omega

theorem allocateAndMapMemory_yields (hpresent : flags.present = true) (hparent : parentFlags.hugePage = false)
    (fuel : Nat) (h : memory.Owns host.cBit bottom stale own) (mapTo : VirtAddr) (size : Nat) :
    Exec.Yields (allocateAndMapMemory host flags parentFlags fuel mapTo size) memory
      (fun _ after => SIZE_4_KIB ∣ mapTo.raw ∧ SIZE_4_KIB ∣ size ∧ 0 < size ∧
        Filled host bottom stale flags own memory mapTo.page (size / SIZE_4_KIB)
          (IsRange mapTo.page (size / SIZE_4_KIB)) after)
      (Stop.Lets (Viable host flags parentFlags fuel memory mapTo (size / SIZE_4_KIB)) fun _ =>
        Stopped host bottom stale flags parentFlags own memory mapTo.page (size / SIZE_4_KIB)) := by
  induction fuel generalizing mapTo size own memory with
  | zero =>
    rintro ⟨-, -, -, limit, hlimit, -⟩
    exact absurd hlimit (Nat.not_lt_zero _)
  | succ fuel ih =>
    by_cases hsize : size = 0
    · rw [allocateAndMapMemory, if_pos hsize]
      exact .inl h.calm.untouched
    by_cases haligned : mapTo.raw % SIZE_4_KIB ≠ 0 ∨ size % SIZE_4_KIB ≠ 0
    · rw [allocateAndMapMemory, if_neg hsize, if_pos haligned]
      exact .inl h.calm.untouched
    rw [not_or, not_ne_iff, not_ne_iff, ← Nat.dvd_iff_mod_eq_zero, ← Nat.dvd_iff_mod_eq_zero] at haligned
    obtain ⟨haligned, npages, rfl⟩ := haligned
    have hpos : npages ≠ 0 := right_ne_zero_of_mul hsize
    rw [Nat.mul_div_cancel_left _ (by decide), allocateAndMapMemory_succ haligned hpos]
    refine Exec.Yields.bind ((takeFirstHalf_lets fuel hpos).imp (fun _ _ => id)
      fun _ _ hstop => hstop.imp ?_ fun _ => False.elim) ?_
    · rintro ⟨-, -, hsteady, limit, hlimit, hgets⟩
      exact ⟨antitone_steady memory (Nat.le_add_right _ _) hsteady, limit, by omega, hgets⟩
    rintro (_ | ⟨start, exp⟩) middle hmiddle
    · exact .inl (h.supplied hmiddle.2).untouched
    · obtain ⟨hdrawn, haside⟩ : Drawn host npages exp memory middle ∧ memory.SetsAside start (2 ^ exp) middle := hmiddle
      obtain ⟨own1, haside⟩ := h.setAside (Nat.two_pow_pos exp) haside
      apply unwrap_bind
      case hnone =>
        rw [if_pos (Nat.mul_le_mul_left _ hdrawn.le)]
        intro hnone
        cases hnone
      intro secondHalfSize hhalf
      rw [if_pos (Nat.mul_le_mul_left _ hdrawn.le), Option.some.injEq] at hhalf
      subst hhalf
      obtain ⟨behind, rfl⟩ := Nat.exists_eq_add_of_le hdrawn.le
      rw [← Nat.mul_sub, Nat.add_sub_cancel_left]
      have hnext : ∀ second, mapTo.add (SIZE_4_KIB * 2 ^ exp) = some second → 0 < behind →
          Exec.Yields (allocateAndMapMemory host flags parentFlags fuel second (SIZE_4_KIB * behind)) middle
            (fun _ => Filled host bottom stale flags own1 middle second.page behind (IsRange second.page behind))
            (Stop.Lets (Viable host flags parentFlags (fuel + 1) memory mapTo (2 ^ exp + behind)) fun _ =>
              Stopped host bottom stale flags parentFlags own1 middle second.page behind) := by
        intro second hsecond hbehind
        have hyields := ih haside.owns second (SIZE_4_KIB * behind)
        rw [Nat.mul_div_cancel_left _ (by decide)] at hyields
        exact hyields.imp (fun _ _ hafter => hafter.2.2.2) fun _ _ hstop =>
          hstop.imp (fun hviable => hviable.behind hbehind haside hdrawn haligned hsecond) fun _ => id
      refine (mapSecondHalf_yields haside hdrawn h.bounded haligned Viable.spans hnext).bind ?_
      rintro _ memory2 ⟨hserved, hstocks⟩
      refine (mapFirstHalf_yields hpresent hparent haligned haside hdrawn h.bounded
        (fun hrange => haside.stocks hdrawn (hstocks hrange))
        (fun hviable => ⟨hviable.sound, hviable.spans, hviable.steady⟩) hserved).imp ?_ fun _ _ => id
      intro _ after hafter
      exact ⟨haligned, Nat.dvd_mul_right _ _, Nat.pos_of_ne_zero hsize, hafter⟩

end

end Enarx.Kvm
