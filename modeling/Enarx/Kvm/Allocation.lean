import Enarx.Kvm.Stock
import Enarx.Kvm.Unmapped
import Mathlib.Order.Interval.Set.LinearOrder

/-!
# Requests for memory

What `map_memory` and `allocate_and_map_memory` do to the owners of the pages and to
what the workload sees.
-/
namespace Enarx.Kvm

open Alloc PageTables

/-- The page may be handed out, now or once the host has granted it. -/
def Owner.Loose (owner : Owner) : Prop := owner = .outside ∨ owner = .free

theorem Owner.Loose.not_inUse {owner : Owner} (h : owner.Loose) : ¬owner.InUse := by
  rcases h with rfl | rfl <;> simp [Owner.InUse]

/-- Pages of a block have been mapped, and pages of the heap have become tables. -/
def Settles (block pages : Set Nat) (own own' : Nat → Owner) : Prop :=
  ∀ n, own' n = own n ∨ (own n).Loose ∧ (own' n = .free ∨ own' n = .table) ∨
    n ∈ block ∧ ∃ page ∈ pages, own' n = .user page

theorem Grows.settles {own own' : Nat → Owner} (h : Grows own own') (block pages : Set Nat) :
    Settles block pages own own' := by
  intro n
  rcases h n with heq | hgrows
  · exact .inl heq
  · exact .inr (.inl hgrows)

theorem Settles.cons {own own' own'' : Nat → Owner} {start npages page : Nat} {pages : Set Nat}
    (hgrows : Grows own own')
    (h : Settles (Set.Ico (start + 1) (start + 1 + npages)) pages (assign own' start 1 (.user page)) own'') :
    Settles (Set.Ico start (start + (npages + 1))) (insert page pages) own own'' := by
  intro n
  by_cases hn : n = start
  · subst hn
    have hblock : n ∈ Set.Ico n (n + (npages + 1)) := by simp
    rcases h n with heq | ⟨hloose, -⟩ | ⟨hlater, -⟩
    · rw [assign_inside (by omega)] at heq
      exact .inr (.inr ⟨hblock, page, Set.mem_insert page pages, heq⟩)
    · rw [assign_inside (by omega)] at hloose
      simp [Owner.Loose] at hloose
    · rw [Set.mem_Ico] at hlater
      omega
  · have hother : assign own' start 1 (.user page) n = own' n := assign_outside (by omega)
    rcases h n with heq | ⟨hloose, hafter⟩ | ⟨hblock, other, hmem, hafter⟩
    · rw [heq, hother]
      exact hgrows.settles _ _ n
    · rw [hother] at hloose
      rcases hgrows n with heq | ⟨hbefore, -⟩
      · exact .inr (.inl ⟨heq ▸ hloose, hafter⟩)
      · exact .inr (.inl ⟨hbefore, hafter⟩)
    · rw [Set.mem_Ico] at hblock
      exact .inr (.inr ⟨⟨by omega, by omega⟩, other, Set.mem_insert_of_mem page hmem, hafter⟩)

def Kept (own : Nat → Owner) (before after : Memory) : Prop :=
  ∀ virt : VirtAddr, virt.InWindow → (own virt.memPage).InUse →
    after.tables.mem virt = before.tables.mem virt

theorem Kept.trans {own own' : Nat → Owner} {before middle after : Memory} (h : Kept own before middle)
    (h' : Kept own' middle after) (hinUse : ∀ n, (own n).InUse → (own' n).InUse) : Kept own before after := by
  intro virt hvirt hown
  rw [h' virt hvirt (hinUse _ hown), h virt hvirt hown]

theorem Kept.zero {own : Nat → Owner} {before after : Memory} (h : Kept own before after)
    {start npages : Nat} (hinUse : ∀ n, start ≤ n → n < start + npages → (own n).InUse)
    (hzero : before.Zero start npages) : after.Zero start npages := by
  intro virt hvirt hlo hhi
  rw [h virt hvirt (hinUse _ hlo hhi), hzero virt hvirt hlo hhi]

structure Leads (c : CBit) (flags : PageTableFlags) (entry : PageTableEntry) (n : Nat) : Prop where
  flags : entry.flags = flags
  addr : entry.addr.raw = SIZE_4_KIB * n + c.mask
  lt : n < 2 ^ 27

theorem Leads.frame? {c : CBit} {flags : PageTableFlags} {entry : PageTableEntry} {n : Nat}
    (h : Leads c flags entry n) (hpresent : flags.present = true) {tables : PageTables} {addr : VirtAddr}
    (hleaf : tables.leaf? c addr = some (entry, [])) : tables.frame? c addr = some n := by
  have hphys : SIZE_4_KIB * n < 2 ^ 39 := by
    have hlt := h.lt
    unfold SIZE_4_KIB
    omega
  rw [frame?_of_leaf? hleaf, leafFrame_small c (Nat.mod_lt _ (by decide)) (h.flags ▸ hpresent) hphys (.inl h.addr),
    Nat.mul_div_cancel_left _ (by decide)]

/-- Pages of the workload get pages of a block that hold zeros. -/
structure Maps (c : CBit) (flags : PageTableFlags) (block pages : Set Nat) (before after : Memory) : Prop where
  unmapped : ∀ addr : VirtAddr, addr.page ∈ pages → before.tables.leaf? c addr = none
  mapped : ∀ addr : VirtAddr, addr.page ∈ pages → ∃ (entry : PageTableEntry) (n : Nat),
    after.tables.leaf? c addr = some (entry, []) ∧ Leads c flags entry n ∧ n ∈ block ∧ after.Zero n 1
  other : ∀ addr : VirtAddr, addr.page ∉ pages → after.tables.leaf? c addr = before.tables.leaf? c addr

section

variable {host : Host} {bottom : Nat} {stale : Set Nat} {own : Nat → Owner} {memory : Memory}
  {flags parentFlags : PageTableFlags} {page : VirtAddr} {frame : PhysAddr} {n : Nat}

def Places (c : CBit) (bottom : Nat) (stale : Set Nat) (flags : PageTableFlags) (own : Nat → Owner)
    (before : Memory) (page : VirtAddr) (n : Nat) (after : Memory) : Prop :=
  ∃ own', Grows own own' ∧ after.Owns c bottom stale (assign own' n 1 (.user page.page)) ∧
    MapsPage c flags before page n after ∧ Kept own before after

variable {middle after : Memory} {npages : Nat} {c : CBit} {before : Memory} {k : Nat}
  {own' : Nat → Owner} {stop mapTo : VirtAddr}

theorem MapsPage.of_same (hsame : Same c own before middle)
    (h : MapsPage c flags middle page n after) : MapsPage c flags before page n after where
  unmapped := (hsame.leaf? page).symm.trans h.unmapped
  mapped := h.mapped
  other addr haddr := (h.other addr haddr).trans (hsame.leaf? addr)

theorem PhysAddr.exists_add (hframe : frame.raw = SIZE_4_KIB * n + c.mask)
    (hle : n + k ≤ 2 ^ 27) : ∃ sum, frame.add (SIZE_4_KIB * k) = some sum := by
  have hlt : frame.raw + SIZE_4_KIB * k < 2 ^ 52 := by
    rw [hframe]
    unfold SIZE_4_KIB
    rcases c.position with hmask | ⟨bit, -, hbit, hmask⟩
    · omega
    · have : 2 ^ bit ≤ 2 ^ 51 := Nat.pow_le_pow_right (by decide) (by omega)
      omega
  exact ⟨⟨_, hlt⟩, PhysAddr.add_eq rfl⟩

/-- The flags are those of a page of 4 KiB, and those of a table that can be entered. -/
def Sound (flags parentFlags : PageTableFlags) : Prop := flags.hugePage = false ∧ parentFlags.present = true

theorem setFrame_some {frame : PhysAddr} {n : Nat} (hframe : frame.raw = SIZE_4_KIB * n + c.mask)
    (hflags : flags.hugePage = false) : ∃ entry, setFrame frame flags = some entry := by
  have hdvd : SIZE_4_KIB ∣ frame.raw := by
    rw [hframe]
    exact Nat.dvd_add (Nat.dvd_mul_right _ _) (Nat.dvd_trans (by decide) c.dvd_mask)
  refine ⟨⟨frame, flags, hdvd⟩, ?_⟩
  rw [setFrame, hflags, if_neg Bool.false_ne_true, PageTableEntry.setAddr, dif_pos hdvd]

theorem tablePaths_page (page : VirtAddr) : tablePaths {page.page} = {[page.p4Index]} ∪
    {[page.p4Index, page.p3Index]} ∪ {[page.p4Index, page.p3Index, page.p2Index]} := by
  ext path
  constructor
  · rintro ⟨hne, addr, haddr, hprefix⟩
    rw [(VirtAddr.stem_eq_iff.mpr haddr).1, VirtAddr.stem] at hprefix
    simp only [List.prefix_cons_iff, List.prefix_nil, hne, false_or] at hprefix
    obtain ⟨_, rfl, rfl | ⟨_, rfl, rfl | ⟨_, rfl, rfl⟩⟩⟩ := hprefix <;> simp
  · have hmem : ∀ k, page.stem.take (k + 1) ∈ tablePaths {page.page} :=
      fun k => ⟨by simp [VirtAddr.stem], page, rfl, List.take_prefix _ _⟩
    rintro ((rfl | rfl) | rfl)
    · exact hmem 0
    · exact hmem 1
    · exact hmem 2

section

variable (h : memory.Owns host.cBit bottom stale own) (hheld : own n = .held)
  (hn : n < 2 ^ 27) (hframe : frame.raw = SIZE_4_KIB * n + host.cBit.mask) (hpresent : flags.present = true)
  (hparent : parentFlags.hugePage = false)
include h hheld hn hframe hpresent hparent

theorem mapToWithTableFlags_yields :
    Exec.Yields (mapToWithTableFlags host page frame flags parentFlags) memory
      (fun _ after => Places host.cBit bottom stale flags own memory page n after ∧
        Stocks host (tablePaths {page.page}) 0 memory after)
      (Stop.Lets (Sound flags parentFlags ∧
          memory.Steady host (memory.tables.missing host.cBit (tablePaths {page.page}))) fun _ after =>
        Refused host.cBit bottom stale parentFlags own memory page after ∧
          Balks host (tablePaths {page.page}) memory page) := by
  have hpaths := tablePaths_page page
  have hlength : ∀ path ∈ tablePaths {page.page}, path.length ≤ 3 := fun _ => length_of_mem_tablePaths
  have hsteady : ∀ {after : Memory} {done : Set (List (Fin 512))} {path : List (Fin 512)},
      Stocks host done 0 memory after → done ⊆ tablePaths {page.page} → path ∈ tablePaths {page.page} →
      Sound flags parentFlags ∧ memory.Steady host (memory.tables.missing host.cBit (tablePaths {page.page})) →
      parentFlags.present = true ∧ after.Steady host (after.tables.missing host.cBit {path}) :=
    fun hstocks hdone hpath hgood => ⟨hgood.1.2, hstocks.afford steady_forecast antitone_steady hdone
      (Set.singleton_subset_iff.mpr hpath) hlength (by rw [Nat.zero_add]; exact hgood.2)⟩
  have hstem3 : page.stem = [] ++ page.p4Index :: [page.p3Index, page.p2Index] := rfl
  have hstem2 : page.stem = [page.p4Index] ++ page.p3Index :: [page.p2Index] := rfl
  have hstem1 : page.stem = [page.p4Index, page.p3Index] ++ page.p2Index :: [] := rfl
  have hmem3 : [page.p4Index] ∈ tablePaths {page.page} := by simp [hpaths]
  have hmem2 : [page.p4Index, page.p3Index] ∈ tablePaths {page.page} := by simp [hpaths]
  have hmem1 : [page.p4Index, page.p3Index, page.p2Index] ∈ tablePaths {page.page} := by simp [hpaths]
  have hsub2 := Set.singleton_subset_iff.mpr hmem3
  have hsub1 := Set.union_subset hsub2 (Set.singleton_subset_iff.mpr hmem2)
  unfold mapToWithTableFlags
  apply Exec.Yields.get_bind
  apply createNextTable_bind hparent h hstem3 rfl (hsteady (.refl _) (Set.empty_subset _) hmem3)
  · exact fun _ hrefused hbalks => ⟨hrefused,
      (Stocks.refl memory).balks rfl (Set.empty_subset _) (Set.singleton_subset_iff.mpr hmem3) hlength hbalks⟩
  intro p3 own1 memory1 howns1 hgrows1 hsame1 hstocks1 htable1
  apply createNextTable_bind hparent howns1 hstem2 htable1 (hsteady hstocks1 hsub2 hmem2)
  · exact fun _ hrefused hbalks => ⟨hrefused.trans hgrows1 hsame1,
      hstocks1.balks (hsame1.leaf? page) hsub2 (Set.singleton_subset_iff.mpr hmem2) hlength hbalks⟩
  intro p2 own2 memory2 howns2 hgrows2 hsame2 hstocks2 htable2
  replace hsame2 := hsame1.trans hgrows1 hsame2
  replace hgrows2 := hgrows1.trans hgrows2
  replace hstocks2 := hstocks1.trans hstocks2
  apply createNextTable_bind hparent howns2 hstem1 htable2 (hsteady hstocks2 hsub1 hmem1)
  · exact fun _ hrefused hbalks => ⟨hrefused.trans hgrows2 hsame2,
      hstocks2.balks (hsame2.leaf? page) hsub1 (Set.singleton_subset_iff.mpr hmem1) hlength hbalks⟩
  intro p1 own3 memory3 howns3 hgrows3 hsame3 hstocks3 htable3
  replace hsame3 := hsame2.trans hgrows2 hsame3
  replace hgrows3 := hgrows2.trans hgrows3
  replace hstocks3 : Stocks host (tablePaths {page.page}) 0 memory memory3 := hpaths ▸ hstocks2.trans hstocks3
  apply Exec.Yields.get_bind
  split
  · next hunused =>
    apply unwrap_bind
    · intro entry hentry
      obtain ⟨rfl, rfl⟩ := setFrame_spec hentry
      have hheld3 : own3 n = .held := (hgrows3.inUse (.inl hheld)).trans hheld
      obtain ⟨howns, hmaps⟩ :=
        howns3.storeLast hheld3 hn htable3 (of_decide_eq_true hunused) hpresent hframe
      refine ⟨⟨own3, hgrows3, howns, hmaps.of_same hsame3, ?_⟩, ?_⟩
      · intro virt hvirt hinUse
        have hne : virt ≠ p1 := howns3.ne_table (page.length_stem.le) htable3 (by rwa [hgrows3.inUse hinUse])
        exact (Radix.set_table_ne _ _ _ hne).trans (hsame3.mem virt hvirt hinUse)
      · have hstored : Stocks host ∅ 0 memory3
            { memory3 with tables := memory3.tables.store p1 page.p1Index entry } :=
          .of_allocator rfl rfl (.of_same fun _ hpath => tableAt_store howns3.tidy page.length_stem htable3 hpath)
        have hall := hstocks3.trans hstored
        rwa [Set.union_empty] at hall
    · intro hnone hgood
      obtain ⟨entry, hentry⟩ := setFrame_some hframe hgood.1.1
      cases hnone.symm.trans hentry
  · next hused =>
    refine ⟨Quiet.refused ⟨own3, howns3, hgrows3, hsame3⟩ _ _, .inl (hsame3.leaf? page ▸ ?_)⟩
    have hentry := (howns3.tidy.entries page.p1Index page.length_stem.le htable3).present.resolve_left
      (by simpa [PageTableEntry.isUnused] using hused)
    rw [leaf?_of_path htable3 page.path_eq_stem, asLeaf, if_pos hentry]
    simp

theorem mapPage_yields : Exec.Yields (mapPage host page frame flags parentFlags) memory
      (fun _ after => Places host.cBit bottom stale flags own memory page n after ∧
        Stocks host (tablePaths {page.page}) 0 memory after)
      (Stop.Lets (Sound flags parentFlags ∧
          memory.Steady host (memory.tables.missing host.cBit (tablePaths {page.page}))) fun _ after =>
        after.mapFailed = true ∧ Refused host.cBit bottom stale parentFlags own memory page after ∧
          Balks host (tablePaths {page.page}) memory page) := by
  unfold mapPage
  refine (attempted_lets (mapToWithTableFlags_yields h hheld hn hframe hpresent hparent)).bind ?_
  rintro (error | _) middle hmiddle
  · apply Exec.Yields.modify_bind
    obtain ⟨⟨htidy, hquiet⟩, hbalks⟩ := hmiddle
    refine ⟨rfl, ⟨htidy, fun hlacks => ?_⟩, hbalks⟩
    obtain ⟨own', howns, hgrows, hsame⟩ := hquiet hlacks
    exact ⟨own', { howns with }, hgrows, ⟨hsame.leaf?, hsame.mem⟩⟩
  · exact hmiddle

end

def Placed (c : CBit) (bottom : Nat) (stale : Set Nat) (flags : PageTableFlags) (own : Nat → Owner)
    (before : Memory) (block pages : Set Nat) (after : Memory) : Prop :=
  ∃ own', after.Owns c bottom stale own' ∧ Settles block pages own own' ∧
    Maps c flags block pages before after ∧ Kept own before after

theorem Maps.empty {block : Set Nat}
    (h : ∀ addr, after.tables.leaf? c addr = before.tables.leaf? c addr) :
    Maps c flags block ∅ before after where
  unmapped _ haddr := haddr.elim
  mapped _ haddr := haddr.elim
  other addr _ := h addr

theorem Quiet.placed (h : Quiet c bottom stale own memory after)
    (block : Set Nat) : Placed c bottom stale flags own memory block ∅ after := by
  obtain ⟨own', howns, hgrows, hsame⟩ := h
  exact ⟨own', howns, hgrows.settles _ _, .empty hsame.leaf?, hsame.mem⟩

theorem Placed.cons {pages : Set Nat}
    (hheld : own n = .held) (hn : n < 2 ^ 27) (hzero : memory.Zero n 1) (hgrows : Grows own own')
    (hmaps : MapsPage c flags memory page n middle) (hkept : Kept own memory middle)
    (h : Placed c bottom stale flags (assign own' n 1 (.user page.page)) middle
      (Set.Ico (n + 1) (n + 1 + npages)) pages after) :
    Placed c bottom stale flags own memory (Set.Ico n (n + (npages + 1))) (insert page.page pages) after := by
  obtain ⟨own'', howns, hsettles, hrest, hkept'⟩ := h
  obtain ⟨entry, hflags, hraw, hentry⟩ := hmaps.mapped
  have hinUse : ∀ k, (own k).InUse → (assign own' n 1 (.user page.page) k).InUse := by
    intro k hk
    by_cases hkn : k = n
    · rw [hkn, assign_inside (by omega)]
      exact .inr ⟨_, rfl⟩
    · rwa [assign_outside (by omega), hgrows.inUse hk]
  have hall : Kept own memory after := hkept.trans hkept' hinUse
  -- a page that is mapped is not mapped again
  have hfresh : page.page ∉ pages := by
    intro hmem
    have hnone := hrest.unmapped page hmem
    rw [hentry page rfl] at hnone
    cases hnone
  refine ⟨own'', howns, .cons hgrows hsettles, ?_, hall⟩
  constructor
  · intro addr haddr
    by_cases hpage : addr.page = page.page
    · rw [leaf?_congr _ hpage]
      exact hmaps.unmapped
    · rw [← hmaps.other addr hpage]
      exact hrest.unmapped addr (Set.mem_of_mem_insert_of_ne haddr hpage)
  · intro addr haddr
    by_cases hpage : addr.page = page.page
    · refine ⟨entry, n, ?_, ⟨hflags, hraw, hn⟩, by simp, ?_⟩
      · rw [hrest.other addr (hpage ▸ hfresh), hentry addr hpage]
      · exact hall.zero (fun k hlo hhi => .inl (by rwa [show k = n by omega])) hzero
    · obtain ⟨entry', k, hleaf, hleads, hblock, hzero'⟩ :=
        hrest.mapped addr (Set.mem_of_mem_insert_of_ne haddr hpage)
      rw [Set.mem_Ico] at hblock
      exact ⟨entry', k, hleaf, hleads, ⟨by omega, by omega⟩, hzero'⟩
  · intro addr haddr
    rw [Set.mem_insert_iff, not_or] at haddr
    rw [hrest.other addr haddr.2, hmaps.other addr haddr.1]

def visited (walk : List VirtAddr) : Set Nat := { page | page ∈ walk.map VirtAddr.page }

@[simp] theorem visited_nil : visited [] = ∅ := by
  ext
  simp [visited]

@[simp] theorem visited_cons (page : VirtAddr) (walk : List VirtAddr) :
    visited (page :: walk) = insert page.page (visited walk) := by
  ext
  simp [visited]

/-- Mapping pages has stopped at a page, behind the pages `done`. -/
structure Stuck (host : Host) (bottom : Nat) (stale : Set Nat) (flags parentFlags : PageTableFlags)
    (own : Nat → Owner) (before : Memory) (block done : Set Nat) (page : VirtAddr) (after : Memory) : Prop where
  tidy : after.tables.Tidy host.cBit
  unmapped : ∀ addr : VirtAddr, addr.page ∈ done → before.tables.leaf? host.cBit addr = none
  reason : ∃ middle, Stocks host (tablePaths done) 0 before middle ∧
    (before.tables.leaf? host.cBit page ≠ none ∨ page.page ∈ done ∨
      middle.tables.tableAt host.cBit page.stem = none ∧
        ¬middle.Provides host (middle.tables.missing host.cBit (tablePaths {page.page})))
  placed : before.tables.lacks host.cBit parentFlags page = false →
    Placed host.cBit bottom stale flags own before block done after

theorem tablePaths_empty : tablePaths ∅ = ∅ :=
  Set.subset_empty_iff.mp fun _ hpath => hpath.2.elim fun _ haddr => haddr.1.elim

theorem Stuck.start (h : Refused host.cBit bottom stale parentFlags own memory page after)
    (hbalks : Balks host (tablePaths {page.page}) memory page) (block : Set Nat) :
    Stuck host bottom stale flags parentFlags own memory block ∅ page after where
  tidy := h.1
  unmapped _ haddr := haddr.elim
  reason := ⟨memory, tablePaths_empty ▸ .refl memory, hbalks.imp_right .inr⟩
  placed hlacks := (h.2 hlacks).placed block

theorem tablePaths_insert (page : Nat) (pages : Set Nat) :
    tablePaths (insert page pages) = tablePaths {page} ∪ tablePaths pages := by
  rw [Set.insert_eq, tablePaths_union]

theorem Stuck.cons {done : Set Nat} (hheld : own n = .held) (hn : n < 2 ^ 27) (hzero : memory.Zero n 1)
    (hgrows : Grows own own') (hmaps : MapsPage host.cBit flags memory page n middle) (hkept : Kept own memory middle)
    (hstocks : Stocks host (tablePaths {page.page}) 0 memory middle)
    (h : Stuck host bottom stale flags parentFlags (assign own' n 1 (.user page.page)) middle
      (Set.Ico (n + 1) (n + 1 + npages)) done stop after) :
    Stuck host bottom stale flags parentFlags own memory (Set.Ico n (n + (npages + 1))) (insert page.page done) stop
      after := by
  obtain ⟨entry, -, -, hentry⟩ := hmaps.mapped
  obtain ⟨htidy, hunmapped, ⟨final, hfinal, hreason⟩, hplaced⟩ := h
  refine ⟨htidy, fun addr haddr => ?_, ⟨final, tablePaths_insert .. ▸ hstocks.trans hfinal, ?_⟩, fun hlacks => ?_⟩
  · by_cases hpage : addr.page = page.page
    · rw [leaf?_congr _ hpage, hmaps.unmapped]
    · rw [← hmaps.other addr hpage]
      exact hunmapped addr (Set.mem_of_mem_insert_of_ne haddr hpage)
  · by_cases hpage : stop.page = page.page
    · exact .inr (.inl (.inl hpage))
    · rw [← hmaps.other stop hpage]
      exact hreason.imp_right (Or.imp_left .inr)
  · refine (hplaced ?_).cons hheld hn hzero hgrows hmaps hkept
    by_cases hpage : stop.page = page.page
    · exact lacks_of_small (hentry stop hpage) _
    · rwa [lacks_congr (hmaps.other stop hpage)]

theorem mapPages_yields (hpresent : flags.present = true) (hparent : parentFlags.hugePage = false)
    (last : VirtAddr) (npages : Nat) (h : memory.Owns host.cBit bottom stale own)
    (hheld : OwnsBlock own n npages .held) (hle : n + npages ≤ 2 ^ 27) (hzero : memory.Zero n npages)
    (hframe : frame.raw = SIZE_4_KIB * n + host.cBit.mask) :
    Exec.Yields (mapPages host flags parentFlags last npages frame page) memory
      (fun _ after => Placed host.cBit bottom stale flags own memory (Set.Ico n (n + npages))
        (visited (pageWalk last npages page)) after ∧
          Stocks host (tablePaths (visited (pageWalk last npages page))) 0 memory after)
      (Stop.Lets (Sound flags parentFlags ∧ memory.Steady host
          (memory.tables.missing host.cBit (tablePaths (visited (pageWalk last npages page))))) fun _ after =>
        after.mapFailed = true ∧ ∃ done stop rest, pageWalk last npages page = done ++ stop :: rest ∧
          Stuck host bottom stale flags parentFlags own memory (Set.Ico n (n + npages)) (visited done) stop
            after) := by
  induction npages generalizing memory own frame page n with
  | zero =>
    have hplaced : Placed host.cBit bottom stale flags own memory (Set.Ico n (n + 0)) ∅ memory :=
      h.calm.quiet.placed _
    rw [pageWalk, visited_nil, tablePaths_empty]
    exact ⟨hplaced, .refl memory⟩
  | succ npages ih =>
    rw [mapPages]
    -- kept from being evaluated
    generalize hnextFrame : frame.add SIZE_4_KIB = nextFrame?
    apply unwrap_bind
    · rintro nextFrame rfl
      split
      case isFalse hgt =>
        rw [pageWalk, if_neg hgt, visited_nil, tablePaths_empty]
        exact ⟨h.calm.quiet.placed _, .refl memory⟩
      case isTrue hpage =>
        have hsome := page.add_page_ne_none
        generalize hnextPage : page.add SIZE_4_KIB = nextPage? at hsome
        refine unwrap_bind (fun nextPage hnext => ?_) fun hnone => absurd hnone hsome
        subst hnext
        have hraw : nextFrame.raw = SIZE_4_KIB * (n + 1) + host.cBit.mask := by
          rw [PhysAddr.raw_of_add hnextFrame (by decide), hframe]
          ring
        have hfirst : own n = .held := hheld n le_rfl (by omega)
        have hzeroFirst : memory.Zero n 1 := fun virt hvirt hlo hhi => hzero virt hvirt hlo (by omega)
        rw [pageWalk, if_pos hpage, hnextPage, Option.elim_some, visited_cons, tablePaths_insert]
        have hlength : ∀ path ∈ tablePaths {page.page} ∪ tablePaths (visited (pageWalk last npages nextPage)),
            path.length ≤ 3 := fun _ hpath => hpath.elim length_of_mem_tablePaths length_of_mem_tablePaths
        have hrun : Exec.Yields (mapPage host page frame flags parentFlags) memory _ _ :=
          mapPage_yields h hfirst (by omega) hframe hpresent hparent
        refine Exec.Yields.bind (hrun.imp (fun _ _ => id) ?_) ?_
        · intro stop after hstop
          refine hstop.imp (fun hgood => ⟨hgood.1, ?_⟩) fun _ hfailed => ⟨hfailed.1, [], page, _, rfl, ?_⟩
          · exact antitone_steady memory (missing_mono _ Set.subset_union_left hlength) hgood.2
          · rw [visited_nil]
            exact .start hfailed.2.1 hfailed.2.2 _
        · rintro _ middle ⟨⟨own', hgrows, howns, hmaps, hkept⟩, hstocks⟩
          have hrest : OwnsBlock (assign own' n 1 (.user page.page)) (n + 1) npages .held := by
            intro k hlo hhi
            have hk : own k = .held := hheld k (by omega) (by omega)
            rw [assign_outside (by omega), hgrows.inUse (.inl hk), hk]
          have hzeroRest : middle.Zero (n + 1) npages :=
            hkept.zero (fun k hlo hhi => .inl (hheld k (by omega) (by omega)))
              fun virt hvirt hlo hhi => hzero virt hvirt (by omega) (by omega)
          refine (ih howns hrest (by omega) hzeroRest hraw).imp ?_ ?_
          · rintro _ after ⟨hplaced, hafter⟩
            exact ⟨hplaced.cons hfirst (by omega) hzeroFirst hgrows hmaps hkept, hstocks.trans hafter⟩
          · intro _ after hstop
            refine hstop.imp (fun hgood => ⟨hgood.1, hstocks.afford steady_forecast antitone_steady
              Set.subset_union_left Set.subset_union_right hlength (by rw [Nat.zero_add]; exact hgood.2)⟩) ?_
            rintro _ ⟨hfailed, done, stop, rest, hwalk, hstuck⟩
            refine ⟨hfailed, page :: done, stop, rest, congrArg (page :: ·) hwalk, ?_⟩
            rw [visited_cons]
            exact hstuck.cons hfirst (by omega) hzeroFirst hgrows hmaps hkept hstocks
    · rintro rfl _
      obtain ⟨sum, hsum⟩ := PhysAddr.exists_add hframe (k := 1) (by omega)
      cases hnextFrame.symm.trans hsum

theorem VirtAddr.page_of_raw {addr : VirtAddr} (h : addr.raw = SIZE_4_KIB * k) : addr.page = k := by
  rw [VirtAddr.page, h, Nat.mul_div_cancel_left _ (by decide)]

theorem pageWalk_block {first last : VirtAddr} (haligned : SIZE_4_KIB ∣ mapTo.raw)
    (hspans : mapTo.Spans (SIZE_4_KIB * npages)) (hpos : 0 < npages)
    (hrange : pageRange mapTo (SIZE_4_KIB * npages) = some (first, last)) :
    (pageWalk last npages first).map VirtAddr.page = List.range' mapTo.page npages := by
  obtain ⟨k, hk⟩ := haligned
  obtain ⟨hfirst, hlast⟩ := pageRange_spec hspans hrange
  have hsame : first = mapTo := by
    apply VirtAddr.ext
    rw [hfirst, VirtAddr.page_of_raw hk, hk, Nat.mul_comm]
  subst hsame
  apply map_page_pageWalk hspans
  rw [hlast, hk]
  unfold SIZE_4_KIB
  omega

theorem visited_of_map {walk : List VirtAddr} {page : Nat}
    (h : walk.map VirtAddr.page = List.range' page npages) : visited walk = Set.Ico page (page + npages) := by
  ext n
  rw [visited, Set.mem_ofPred_eq, h, List.mem_range'_1, Set.mem_Ico]

theorem visited_of_split {done rest : List VirtAddr} {start : Nat}
    (h : (done ++ stop :: rest).map VirtAddr.page = List.range' start npages) :
    stop.page ∈ Set.Ico start (start + npages) ∧ visited done = Set.Ico start stop.page := by
  have hlength := congrArg List.length h
  rw [List.length_map, List.length_append, List.length_cons, List.length_range'] at hlength
  obtain rfl : npages = done.length + (rest.length + 1) := hlength.symm
  rw [← List.range'_append_1, List.map_append] at h
  obtain ⟨hdone, hstop⟩ := List.append_inj h (by simp)
  rw [List.map_cons, List.range'_succ, List.cons.injEq] at hstop
  rw [visited_of_map hdone, hstop.1, Set.mem_Ico]
  exact ⟨by omega, rfl⟩

theorem mapMemory_yields (h : memory.Owns host.cBit bottom stale own)
    (hpresent : flags.present = true) (hparent : parentFlags.hugePage = false)
    (haligned : SIZE_4_KIB ∣ mapTo.raw) (hpos : 0 < npages) (hheld : OwnsBlock own n npages .held)
    (hle : n + npages ≤ 2 ^ 27) (hzero : memory.Zero n npages)
    (hframe : frame.raw = SIZE_4_KIB * n + host.cBit.mask) :
    Exec.Yields (mapMemory host frame mapTo (SIZE_4_KIB * npages) flags parentFlags) memory
      (fun _ after => (mapTo.Spans (SIZE_4_KIB * npages) →
          Stocks host (tablePaths (Set.Ico mapTo.page (mapTo.page + npages))) 0 memory after) ∧ ∃ placed,
        (mapTo.Spans (SIZE_4_KIB * npages) → placed = Set.Ico mapTo.page (mapTo.page + npages)) ∧
        Placed host.cBit bottom stale flags own memory (Set.Ico n (n + npages)) placed after)
      (Stop.Lets (Sound flags parentFlags ∧ mapTo.Spans (SIZE_4_KIB * npages + 1) ∧ memory.Steady host
          (memory.tables.missing host.cBit (tablePaths (Set.Ico mapTo.page (mapTo.page + npages)))))
        fun _ after => after.mapFailed = true ∧ (mapTo.Spans (SIZE_4_KIB * npages) →
          ∃ stop : VirtAddr, stop.page ∈ Set.Ico mapTo.page (mapTo.page + npages) ∧
            Stuck host bottom stale flags parentFlags own memory (Set.Ico n (n + npages))
              (Set.Ico mapTo.page stop.page) stop after)) := by
  have hsize : SIZE_4_KIB * npages ≠ 0 := Nat.mul_ne_zero (by decide) hpos.ne'
  unfold mapMemory
  rw [if_neg hsize]
  obtain ⟨endFrom, hendFrom⟩ := PhysAddr.exists_add hframe hle
  rw [hendFrom]
  refine unwrap_bind (fun _ h => ?_) (fun hnone => by cases hnone)
  cases h
  have hnframes : (endFrom.raw - 1) / SIZE_4_KIB + 1 - frame.raw / SIZE_4_KIB = npages := by
    obtain ⟨k, hk⟩ : SIZE_4_KIB ∣ frame.raw := by
      rw [hframe]
      exact Nat.dvd_add (Nat.dvd_mul_right _ _) (Nat.dvd_trans (by decide) host.cBit.dvd_mask)
    have hlt : SIZE_4_KIB * npages < 2 ^ 63 := by
      unfold SIZE_4_KIB
      omega
    rw [PhysAddr.raw_of_add hendFrom hlt, hk]
    unfold SIZE_4_KIB
    omega
  generalize hrange : pageRange mapTo (SIZE_4_KIB * npages) = range?
  apply unwrap_bind
  · rintro ⟨first, last⟩ rfl
    rw [hnframes]
    have hwalk : mapTo.Spans (SIZE_4_KIB * npages) →
        (pageWalk last npages first).map VirtAddr.page = List.range' mapTo.page npages :=
      fun hspans => pageWalk_block haligned hspans hpos hrange
    refine (mapPages_yields hpresent hparent last npages h hheld hle hzero hframe).imp ?_ ?_
    · rintro _ after ⟨hplaced, hstocks⟩
      exact ⟨fun hspans => visited_of_map (hwalk hspans) ▸ hstocks, _, fun hspans => visited_of_map (hwalk hspans),
        hplaced⟩
    · intro _ after hstop
      refine hstop.imp (fun hgood => ⟨hgood.1, ?_⟩) fun _ hfailed => ⟨hfailed.1, fun hspans => ?_⟩
      · rw [visited_of_map (hwalk (hgood.2.1.mono (Nat.le_succ _)))]
        exact hgood.2.2
      · obtain ⟨-, done, stop, rest, hsplit, hstuck⟩ := hfailed
        obtain ⟨hmem, hdone⟩ := visited_of_split (hsplit ▸ hwalk hspans)
        exact ⟨stop, hmem, hdone ▸ hstuck⟩
  · rintro rfl ⟨-, hspans, -⟩
    obtain ⟨first, last, hsome⟩ := exists_pageRange hsize hspans
    cases hrange.symm.trans hsome

end

end Enarx.Kvm
