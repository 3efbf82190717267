import Enarx.Kvm.Allocation

/-!
# Requests that are served

What a request for memory does to the owners of the pages, and what unmapping a page
does to them.
-/
namespace Enarx.Kvm

open Alloc PageTables

/-- Pages that could be handed out have been, for pages of the workload or for tables. -/
def Moves (pages : Set Nat) (own own' : Nat → Owner) : Prop :=
  ∀ n, own' n = own n ∨ (own n).Loose ∧ own' n ≠ .outside ∧ ∀ page, own' n = .user page → page ∈ pages

noncomputable def room (bottom : Nat) (own : Nat → Owner) : Nat :=
  { n | bottom ≤ n ∧ n < 2 ^ 27 ∧ (own n).Loose }.ncard

section

variable {bottom : Nat} {own own' own'' : Nat → Owner} {pages pages' block : Set Nat} {start npages : Nat}

theorem Grows.moves (h : Grows own own') : Moves ∅ own own' := by
  intro n
  rcases h n with heq | ⟨hloose, hafter⟩
  · exact .inl heq
  · rcases hafter with hafter | hafter
    · exact .inr ⟨hloose, by simp [hafter], by simp [hafter]⟩
    · exact .inr ⟨hloose, by simp [hafter], by simp [hafter]⟩

theorem Moves.mono (h : Moves pages own own') (hsub : pages ⊆ pages') : Moves pages' own own' := by
  intro n
  rcases h n with heq | ⟨hloose, hout, hpages⟩
  · exact .inl heq
  · exact .inr ⟨hloose, hout, fun page hpage => hsub (hpages page hpage)⟩

theorem Moves.loose (h : Moves pages own own') {n : Nat} (hn : (own' n).Loose) : (own n).Loose := by
  rcases h n with heq | ⟨hloose, -⟩
  · rwa [← heq]
  · exact hloose

theorem Moves.inUse (h : Moves pages own own') {n : Nat} (hn : (own n).InUse) : own' n = own n := by
  rcases h n with heq | ⟨hloose, -⟩
  · exact heq
  · exact absurd hn hloose.not_inUse

theorem Moves.trans (h : Moves pages own own') (h' : Moves pages' own' own'') :
    Moves (pages ∪ pages') own own'' := by
  intro n
  rcases h' n with heq | ⟨hloose, hout, hpages⟩
  · rw [heq]
    exact h.mono Set.subset_union_left n
  · exact .inr ⟨h.loose hloose, hout, fun page hpage => .inr (hpages page hpage)⟩

theorem Moves.hold (h : Moves pages own own') (hloose : ∀ n ∈ Set.Ico start (start + npages), (own n).Loose)
    {owner : Owner} (howner : owner = .held ∨ owner = .free) :
    Moves pages own (assign own' start npages owner) := by
  intro n
  by_cases hn : start ≤ n ∧ n < start + npages
  · rw [assign_inside hn]
    refine .inr ⟨hloose n hn, ?_⟩
    rcases howner with rfl | rfl <;> simp
  · rw [assign_outside hn]
    exact h n

theorem Moves.settle (h : Moves pages own own') (hsettles : Settles block pages' own' own'')
    (hblock : ∀ n ∈ block, (own n).Loose) : Moves (pages ∪ pages') own own'' := by
  intro n
  rcases hsettles n with heq | ⟨hloose, hafter⟩ | ⟨hn, page, hpage, hafter⟩
  · rw [heq]
    exact h.mono Set.subset_union_left n
  · refine .inr ⟨h.loose hloose, ?_⟩
    rcases hafter with hafter | hafter <;> simp [hafter]
  · refine .inr ⟨hblock n hn, by simp [hafter], fun other hother => .inr ?_⟩
    rw [hafter, Owner.user.injEq] at hother
    exact hother ▸ hpage

theorem Settles.inUse (h : Settles block pages own own') {n : Nat} (hn : (own n).InUse) : (own' n).InUse := by
  rcases h n with heq | ⟨hloose, -⟩ | ⟨-, page, -, hafter⟩
  · rwa [heq]
  · exact absurd hn hloose.not_inUse
  · exact .inr ⟨page, hafter⟩

theorem finite_room (bottom : Nat) (own : Nat → Owner) :
    { n | bottom ≤ n ∧ n < 2 ^ 27 ∧ (own n).Loose }.Finite :=
  (Set.finite_lt_nat (2 ^ 27)).subset fun _ h => h.2.1

theorem room_le (h : ∀ n, (own' n).Loose → (own n).Loose) : room bottom own' ≤ room bottom own := by
  apply Set.ncard_le_ncard _ (finite_room bottom own)
  intro n hn
  exact ⟨hn.1, hn.2.1, h n hn.2.2⟩

theorem Moves.room_le (h : Moves pages own own') : room bottom own' ≤ room bottom own :=
  Kvm.room_le fun _ => h.loose

theorem Settles.room_le (h : Settles block pages own own') : room bottom own' ≤ room bottom own := by
  apply Kvm.room_le
  intro n hn
  rcases h n with heq | ⟨hloose, -⟩ | ⟨-, page, -, hafter⟩
  · rwa [← heq]
  · exact hloose
  · rw [hafter] at hn
    simp [Owner.Loose] at hn

theorem room_hold (hbottom : bottom ≤ start) (hle : start + npages ≤ 2 ^ 27)
    (hloose : ∀ n ∈ Set.Ico start (start + npages), (own n).Loose) :
    room bottom (assign own start npages .held) + npages ≤ room bottom own := by
  have hdisjoint : Disjoint { n | bottom ≤ n ∧ n < 2 ^ 27 ∧ (assign own start npages .held n).Loose }
      (Set.Ico start (start + npages)) := by
    rw [Set.disjoint_left]
    rintro n ⟨-, -, hn⟩ hblock
    rw [assign_inside hblock] at hn
    simp [Owner.Loose] at hn
  have hcard : (Set.Ico start (start + npages)).ncard = npages := by
    rw [← Finset.coe_Ico, Set.ncard_coe_finset, Nat.card_Ico, Nat.add_sub_cancel_left]
  calc room bottom (assign own start npages .held) + npages
      = ({ n | bottom ≤ n ∧ n < 2 ^ 27 ∧ (assign own start npages .held n).Loose } ∪
          Set.Ico start (start + npages)).ncard := by
        rw [Set.ncard_union_eq hdisjoint (finite_room _ _) (Set.finite_Ico _ _), hcard, room]
    _ ≤ room bottom own := by
        apply Set.ncard_le_ncard _ (finite_room bottom own)
        rintro n (⟨hlo, hhi, hn⟩ | hblock)
        · by_cases hin : start ≤ n ∧ n < start + npages
          · exact ⟨hlo, hhi, hloose n hin⟩
          · rw [assign_outside hin] at hn
            exact ⟨hlo, hhi, hn⟩
        · exact ⟨hbottom.trans hblock.1, hblock.2.trans_le hle, hloose n hblock⟩

end

structure Serves (c : CBit) (bottom : Nat) (stale : Set Nat) (flags : PageTableFlags) (own : Nat → Owner)
    (before : Memory) (own' : Nat → Owner) (pages : Set Nat) (after : Memory) : Prop where
  owns : after.Owns c bottom stale own'
  moves : Moves pages own own'
  maps : Maps c flags { n | (own n).Loose } pages before after
  kept : Kept own before after

section

variable {host : Host} {c : CBit} {bottom : Nat} {stale : Set Nat} {flags parentFlags : PageTableFlags}
  {own own' : Nat → Owner} {memory before after : Memory} {block pages : Set Nat} {start npages : Nat}

theorem Serves.refl (h : memory.Owns c bottom stale own) : Serves c bottom stale flags own memory own ∅ memory where
  owns := h
  moves := (Grows.refl own).moves
  maps := .empty fun _ => rfl
  kept _ _ _ := rfl

theorem Serves.owner (h : Serves c bottom stale flags own before own' pages after)
    (hbefore : before.Owns c bottom stale own) (hpresent : flags.present = true) {addr : VirtAddr}
    (haddr : addr.page ∈ pages) {entry : PageTableEntry} {n : Nat}
    (hleaf : after.tables.leaf? c addr = some (entry, [])) (hleads : Leads c flags entry n) :
    own' n = .user addr.page := by
  have hnone := h.maps.unmapped addr haddr
  apply h.owns.user _ _ (hleads.frame? hpresent hleaf)
  · intro hin
    have hmapped := hbefore.window addr hin
    rw [hnone] at hmapped
    cases hmapped
  · intro hin
    have hmapped := hbefore.stale addr hin
    rw [hnone] at hmapped
    cases hmapped

theorem Serves.place {own1 own2 own3 : Nat → Owner} {memory1 memory2 : Memory} {pages1 pages2 : Set Nat}
    (hpresent : flags.present = true) (hloose : ∀ n ∈ block, (own n).Loose) (hmoves : Moves ∅ own own1)
    (hsame : Same c own memory memory1) (howns : memory1.Owns c bottom stale own1)
    (h : Serves c bottom stale flags own1 memory1 own2 pages2 memory2)
    (howns3 : after.Owns c bottom stale own3) (hsettles : Settles block pages1 own2 own3)
    (hmaps : Maps c flags block pages1 memory2 after) (hkept : Kept own2 memory2 after) :
    Serves c bottom stale flags own memory own3 (pages2 ∪ pages1) after := by
  have hmoves2 : Moves pages2 own own2 := (hmoves.trans h.moves).mono (by simp)
  have hkept2 : Kept own memory memory2 := by
    apply Kept.trans hsame.mem h.kept
    intro n hn
    rwa [hmoves.inUse hn]
  -- what the second half has mapped stays
  have hfresh : ∀ addr : VirtAddr, addr.page ∈ pages2 → addr.page ∉ pages1 := by
    intro addr h2 h1
    obtain ⟨entry, n, hleaf, -⟩ := h.maps.mapped addr h2
    rw [hmaps.unmapped addr h1] at hleaf
    cases hleaf
  refine ⟨howns3, hmoves2.settle hsettles hloose, ⟨?_, ?_, ?_⟩, ?_⟩
  · rintro addr (haddr | haddr)
    · rw [← hsame.leaf? addr]
      exact h.maps.unmapped addr haddr
    · have hother : addr.page ∉ pages2 := fun h2 => hfresh addr h2 haddr
      rw [← hsame.leaf? addr, ← h.maps.other addr hother]
      exact hmaps.unmapped addr haddr
  · intro addr haddr
    by_cases h2 : addr.page ∈ pages2
    · obtain ⟨entry, n, hleaf, hleads, hn, hzero⟩ := h.maps.mapped addr h2
      have hother := hmaps.other addr (hfresh addr h2)
      refine ⟨entry, n, hother.trans hleaf, hleads, hmoves.loose hn, ?_⟩
      apply hkept.zero _ hzero
      intro k hlo hhi
      rw [show k = n by omega, h.owner howns hpresent h2 hleaf hleads]
      exact .inr ⟨_, rfl⟩
    · obtain ⟨entry, n, hleaf, hleads, hn, hzero⟩ := hmaps.mapped addr (haddr.resolve_left h2)
      exact ⟨entry, n, hleaf, hleads, hloose n hn, hzero⟩
  · intro addr haddr
    rw [Set.mem_union, not_or] at haddr
    rw [hmaps.other addr haddr.2, h.maps.other addr haddr.1, hsame.leaf? addr]
  · apply hkept2.trans hkept
    intro n hn
    rwa [hmoves2.inUse hn]

/-- So many pages from `page` on are pages of the same half of the address space. -/
def IsRange (page npages : Nat) : Prop :=
  page + npages ≤ 2 ^ 35 ∨ 2 ^ 52 - 2 ^ 35 ≤ page ∧ page + npages ≤ 2 ^ 52

theorem IsRange.left {page first second : Nat} (h : IsRange page (first + second)) : IsRange page first := by
  unfold IsRange at *
  omega

theorem IsRange.right {page first second : Nat} (h : IsRange page (first + second)) :
    IsRange (page + first) second := by
  unfold IsRange at *
  omega

theorem spans_iff {mapTo : VirtAddr} {npages : Nat} (haligned : SIZE_4_KIB ∣ mapTo.raw) :
    mapTo.Spans (SIZE_4_KIB * npages) ↔ IsRange mapTo.page npages := by
  obtain ⟨k, hk⟩ := haligned
  rw [VirtAddr.Spans, IsRange, VirtAddr.page_of_raw hk, hk]
  unfold SIZE_4_KIB
  omega

/-- So many pages have got memory: those from `page` on, if these are a range. -/
def Served (c : CBit) (bottom : Nat) (stale : Set Nat) (flags : PageTableFlags) (own : Nat → Owner)
    (before : Memory) (page npages : Nat) (isRange : Prop) (after : Memory) : Prop :=
  ∃ own' pages, Serves c bottom stale flags own before own' pages after ∧
    room bottom own' + npages ≤ room bottom own ∧ (isRange → pages = Set.Ico page (page + npages))

def Untouched (c : CBit) (bottom : Nat) (stale : Set Nat) (own : Nat → Owner) (before after : Memory) : Prop :=
  ∃ own', after.Owns c bottom stale own' ∧ Moves Set.univ own own' ∧ Same c own before after

theorem VirtAddr.inWindow_congr {a b : VirtAddr} (h : a.page = b.page) : a.InWindow ↔ b.InWindow := by
  unfold VirtAddr.page VirtAddr.InWindow SHIM_VIRT_OFFSET SIZE_4_KIB at *
  omega

structure Frees (c : CBit) (own : Nat → Owner) (before : Memory) (page : VirtAddr) (n : Nat) (after : Memory) :
    Prop where
  owner : own n = .user page.page
  leaf? : ∀ addr : VirtAddr, after.tables.leaf? c addr =
    if addr.page = page.page then none else before.tables.leaf? c addr
  returned : after.returned = before.returned ++ [n]
  kept : Kept own before after

theorem Memory.Owns.unmapStep (h : memory.Owns c bottom stale own) {page : VirtAddr}
    (hstep : UnmapStep c memory page after) (hout : ¬page.InWindow) (hfresh : page.page ∉ stale) :
    ∃ n, after.Owns c bottom stale (assign own n 1 .free) ∧ Frees c own memory page n after ∧
      memory.tables.frame? c page = some n := by
  obtain ⟨table, shimPage, htable, hpointer, hshimPage, rfl⟩ := hstep
  have hlength := page.length_stem
  obtain ⟨pa, hpa, haddr⟩ := (h.tidy.entries page.p1Index hlength.le htable).small hlength hpointer.1
  have hleaf : memory.tables.leaf? c page = some (memory.tables.entry table page.p1Index, []) := by
    rw [leaf?_of_path htable page.path_eq_stem, asLeaf, if_pos hpointer.1]
  have hframe : memory.tables.frame? c page = some (pa / SIZE_4_KIB) := by
    rw [frame?_of_leaf? hleaf, leafFrame_small c (Nat.mod_lt _ (by decide)) hpointer.1 hpa haddr]
  cases hshimPage.symm.trans (frameToPage_eq hpa haddr)
  generalize hn : pa / SIZE_4_KIB = n at *
  have howner : own n = .user page.page := h.user hout hfresh hframe
  have hblock := ownsBlock_one.mpr howner
  have hstore : ∀ addr : VirtAddr, (memory.tables.store table page.p1Index .unused).leaf? c addr =
      if addr.page = page.page then none else memory.tables.leaf? c addr := by
    intro addr
    rw [leaf?_store h.tidy hlength htable, asLeaf_unused, ← VirtAddr.path_eq_stem]
    exact if_congr VirtAddr.path_eq_iff rfl rfl
  have hother : ∀ {addr : VirtAddr}, ((memory.tables.store table page.p1Index .unused).leaf? c addr).isSome →
      addr.page ≠ page.page ∧ (memory.tables.store table page.p1Index .unused).leaf? c addr =
        memory.tables.leaf? c addr := by
    intro addr hsome
    rw [hstore] at hsome ⊢
    split at hsome
    · cases hsome
    · next hne => exact ⟨hne, if_neg hne⟩
  refine ⟨n, ?_, ⟨howner, hstore, rfl, ?_⟩, hframe⟩
  · exact {
      tidy := h.tidy.store hlength htable (.unused c 3)
      window := by
        intro addr hin
        have hne : addr.page ≠ page.page := fun heq => hout ((VirtAddr.inWindow_congr heq).mp hin)
        rw [hstore, if_neg hne]
        exact h.window addr hin
      table := by
        intro path other hpath hat
        rw [tableAt_store h.tidy hlength htable hpath] at hat
        exact assign_keep hblock (h.table hpath hat) (by simp)
      user := by
        intro addr k haddr hnew hmapped
        have hsome : ((memory.tables.store table page.p1Index .unused).leaf? c addr).isSome := by
          by_contra hnone
          rw [Option.not_isSome_iff_eq_none] at hnone
          rw [frame?_of_none hnone] at hmapped
          cases hmapped
        obtain ⟨hne, hsame⟩ := hother hsome
        exact assign_keep hblock (h.user haddr hnew ((frame?_congr hsame).symm.trans hmapped)) (by simpa using hne)
      stale := by
        intro addr haddr
        have hne : addr.page ≠ page.page := fun heq => hfresh (heq ▸ haddr)
        rw [hstore, if_neg hne]
        exact h.stale addr haddr
      free_iff := by
        intro k
        rw [Finset.mem_union, Finset.mem_Ico, h.free_iff]
        by_cases hk : n ≤ k ∧ k < n + 1
        · rw [assign_inside hk]
          exact iff_of_true (.inr hk) rfl
        · rw [assign_outside hk, or_iff_left hk]
      unborn := fun k hk => assign_keep hblock (h.unborn k hk) (by simp)
      born := fun k hlo hhi => assign_ne (h.born k hlo hhi) (by simp)
      bottom_le := by
        intro k
        by_cases hk : n ≤ k ∧ k < n + 1
        · exact .inl ((h.bottom_le_block hblock (by simp) Nat.one_pos).trans hk.1)
        · rw [assign_outside hk]
          exact h.bottom_le k
      bottom_le_end := h.bottom_le_end }
  · intro virt _ hinUse
    exact Radix.set_table_ne _ _ _ (h.ne_table hlength.le htable hinUse)

end

end Enarx.Kvm
