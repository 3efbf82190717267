import Enarx.Kvm.Mapped
import Mathlib.Data.Set.Card
import Mathlib.Data.Set.Finite.List

/-!
# Pages for tables

Mapping a page takes a page from the heap for every table that is missing on the way to its
entry. Which tables are missing and what is in stock tell whether this can fail.
-/
namespace Enarx.Kvm

open Alloc PageTables

/-- The tables that the pages need, by the indices that lead to them. -/
def tablePaths (pages : Set Nat) : Set (List (Fin 512)) :=
  { path | path ≠ [] ∧ ∃ addr : VirtAddr, addr.page ∈ pages ∧ path <+: addr.stem }

/-- How many of these tables are not there. -/
noncomputable def PageTables.missing (c : CBit) (tables : PageTables) (paths : Set (List (Fin 512))) : Nat :=
  { path ∈ paths | tables.tableAt c path = none }.ncard

section

variable {c : CBit} {paths paths' : Set (List (Fin 512))} {path : List (Fin 512)}
  {before middle after : PageTables}

theorem length_of_mem_tablePaths {pages : Set Nat} (h : path ∈ tablePaths pages) : path.length ≤ 3 := by
  obtain ⟨-, addr, -, hprefix⟩ := h
  exact hprefix.length_le.trans addr.length_stem.le

theorem stem_mem_tablePaths {pages : Set Nat} {addr : VirtAddr} (h : addr.page ∈ pages) :
    addr.stem ∈ tablePaths pages :=
  ⟨List.cons_ne_nil _ _, addr, h, List.prefix_refl _⟩

theorem tablePaths_mono {pages pages' : Set Nat} (h : pages ⊆ pages') : tablePaths pages ⊆ tablePaths pages' := by
  rintro path ⟨hne, addr, haddr, hprefix⟩
  exact ⟨hne, addr, h haddr, hprefix⟩

theorem tablePaths_union (pages pages' : Set Nat) :
    tablePaths (pages ∪ pages') = tablePaths pages ∪ tablePaths pages' := by
  apply Set.Subset.antisymm
  · rintro path ⟨hne, addr, haddr | haddr, hprefix⟩
    · exact .inl ⟨hne, addr, haddr, hprefix⟩
    · exact .inr ⟨hne, addr, haddr, hprefix⟩
  · exact Set.union_subset (tablePaths_mono Set.subset_union_left) (tablePaths_mono Set.subset_union_right)

theorem finite_of_length (h : ∀ path ∈ paths, path.length ≤ 3) : paths.Finite :=
  (List.finite_length_le (Fin 512) 3).subset h

theorem missing_mono (tables : PageTables) (hsub : paths ⊆ paths') (hlength : ∀ path ∈ paths', path.length ≤ 3) :
    tables.missing c paths ≤ tables.missing c paths' :=
  Set.ncard_le_ncard (fun _ hpath => ⟨hsub hpath.1, hpath.2⟩) ((finite_of_length hlength).sep _)

theorem missing_empty (c : CBit) (tables : PageTables) : tables.missing c ∅ = 0 := by
  rw [PageTables.missing, Set.sep_empty, Set.ncard_empty]

theorem missing_singleton (hnone : before.tableAt c path = none) : before.missing c {path} = 1 := by
  rw [PageTables.missing, Set.sep_eq_self_iff_mem_true.mpr, Set.ncard_singleton]
  rintro _ rfl
  exact hnone

theorem missing_singleton_of_some (hsome : before.tableAt c path ≠ none) : before.missing c {path} = 0 := by
  rw [PageTables.missing, Set.sep_eq_empty_iff_mem_false.mpr, Set.ncard_empty]
  rintro _ rfl
  exact hsome

theorem PageTables.Extends.tableAt_eq_none (h : before.Extends c paths after) (hpath : path.length ≤ 3)
    (hnone : after.tableAt c path = none) : before.tableAt c path = none := by
  by_contra hsome
  exact hsome ((h.same path hpath (.inl hsome)).symm.trans hnone)

theorem PageTables.Extends.trans (h : before.Extends c paths middle) (h' : middle.Extends c paths' after) :
    before.Extends c (paths ∪ paths') after where
  there path hpath := by
    by_cases hmem : path ∈ paths'
    · exact h'.there path hmem
    · obtain ⟨hlength, hsome⟩ := h.there path (hpath.resolve_right hmem)
      exact ⟨hlength, h'.same path hlength (.inr hmem) ▸ hsome⟩
  same path hlength hold := by
    have hmiddle : middle.tableAt c path = before.tableAt c path :=
      h.same path hlength (hold.imp_right fun hmem hpath => hmem (.inl hpath))
    rw [← hmiddle] at hold ⊢
    exact h'.same path hlength (hold.imp_right fun hmem hpath => hmem (.inr hpath))

/-- Tables that are there are not missing any more. -/
theorem PageTables.Extends.missing_union (h : before.Extends c paths middle)
    (hlength : ∀ path ∈ paths', path.length ≤ 3) :
    before.missing c (paths ∪ paths') = before.missing c paths + middle.missing c paths' := by
  have hmiddle : { path ∈ paths ∪ paths' | before.tableAt c path = none } =
      { path ∈ paths | before.tableAt c path = none } ∪ { path ∈ paths' | middle.tableAt c path = none } := by
    ext path
    constructor
    · rintro ⟨hmem, hnone⟩
      by_cases hpath : path ∈ paths
      · exact .inl ⟨hpath, hnone⟩
      · have hother := hmem.resolve_left hpath
        exact .inr ⟨hother, (h.same path (hlength path hother) (.inr hpath)).trans hnone⟩
    · rintro (⟨hpath, hnone⟩ | ⟨hpath, hnone⟩)
      · exact ⟨.inl hpath, hnone⟩
      · exact ⟨.inr hpath, h.tableAt_eq_none (hlength path hpath) hnone⟩
  have hdisjoint : Disjoint { path ∈ paths | before.tableAt c path = none }
      { path ∈ paths' | middle.tableAt c path = none } := by
    rw [Set.disjoint_left]
    rintro path ⟨hpath, -⟩ ⟨-, hnone⟩
    exact (h.there path hpath).2 hnone
  rw [PageTables.missing, hmiddle, Set.ncard_union_eq hdisjoint
    ((finite_of_length fun path hpath => (h.there path hpath).1).sep _) ((finite_of_length hlength).sep _)]
  rfl

end

/-- There are tables at these paths. So many pages have been taken, and one for every table that was not there. -/
structure Stocks (host : Host) (paths : Set (List (Fin 512))) (npages : Nat) (before after : Memory) : Prop where
  tables : before.tables.Extends host.cBit paths after.tables
  forecast : ∀ P, Forecast host P → ∀ demand, P before (demand + npages + before.tables.missing host.cBit paths) →
    P after demand

/-- Why a page cannot be mapped: it is mapped, or there is no page for a table. -/
def Balks (host : Host) (paths : Set (List (Fin 512))) (memory : Memory) (page : VirtAddr) : Prop :=
  memory.tables.leaf? host.cBit page ≠ none ∨ memory.tables.tableAt host.cBit page.stem = none ∧
    ¬memory.Provides host (memory.tables.missing host.cBit paths)

section

variable {host : Host} {paths paths' done : Set (List (Fin 512))} {memory before middle after : Memory}
  {own : Nat → Owner} {npages : Nat}

theorem Stocks.of_allocator (hallocator : after.allocator = before.allocator) (hasked : after.asked = before.asked)
    (htables : before.tables.Extends host.cBit ∅ after.tables) : Stocks host ∅ 0 before after where
  tables := htables
  forecast _ hforecast _ hbefore := by
    rw [missing_empty] at hbefore
    exact hforecast.congr hallocator hasked hbefore

theorem Stocks.refl (memory : Memory) : Stocks host ∅ 0 memory memory :=
  .of_allocator rfl rfl (.of_same fun _ _ => rfl)

theorem Stocks.trans {first second : Nat} (h : Stocks host paths first before middle)
    (h' : Stocks host paths' second middle after) : Stocks host (paths ∪ paths') (first + second) before after where
  tables := h.tables.trans h'.tables
  forecast P hforecast demand hbefore := by
    rw [h.tables.missing_union fun path hpath => (h'.tables.there path hpath).1] at hbefore
    refine h'.forecast P hforecast demand (h.forecast P hforecast _ ?_)
    rwa [show demand + second + middle.tables.missing host.cBit paths' + first +
      before.tables.missing host.cBit paths = demand + (first + second) +
        (before.tables.missing host.cBit paths + middle.tables.missing host.cBit paths') by omega]

/-- What is true of all tables that are missing is true, later, of those that are missing then. -/
theorem Stocks.afford (h : Stocks host done npages before after) {P : Memory → Nat → Prop}
    (hforecast : Forecast host P) (hanti : ∀ memory, Antitone (P memory)) (hdone : done ⊆ paths) (hsub : paths' ⊆ paths)
    (hlength : ∀ path ∈ paths, path.length ≤ 3) (hbefore : P before (npages + before.tables.missing host.cBit paths)) :
    P after (after.tables.missing host.cBit paths') := by
  refine h.forecast P hforecast _ (hanti before ?_ hbefore)
  have hunion := h.tables.missing_union fun path hpath => hlength path (hsub hpath)
  have hle := missing_mono (c := host.cBit) before.tables (Set.union_subset hdone hsub) hlength
  omega

theorem Stocks.balks (h : Stocks host done 0 before after) {page : VirtAddr}
    (hleaf : after.tables.leaf? host.cBit page = before.tables.leaf? host.cBit page) (hdone : done ⊆ paths)
    (hsub : paths' ⊆ paths) (hlength : ∀ path ∈ paths, path.length ≤ 3) (hafter : Balks host paths' after page) :
    Balks host paths before page := by
  rcases hafter with hused | ⟨hnone, hshort⟩
  · exact .inl (hleaf ▸ hused)
  · exact .inr ⟨h.tables.tableAt_eq_none page.length_stem.le hnone, fun hbefore =>
      hshort (h.afford provides_forecast (antitone_has _) hdone hsub hlength (by rwa [Nat.zero_add]))⟩

variable {bottom : Nat} {stale : Set Nat} {flags : PageTableFlags} {path rest : List (Fin 512)}
  {table page : VirtAddr}
  {index : Fin 512}

theorem enterTable_lets {c : CBit} (entry : PageTableEntry) (created : Bool) {Q : VirtAddr → Memory → Prop}
    {E : MapToError → Memory → Prop} {good : Prop} (hentry : memory.tables.entry table index = entry)
    (hpoints : entry.Points c) (hgood : good → entry.flags.present = true)
    (h : ∀ below, entry.follow c = some below → Q below { memory with
      tables := memory.tables.withMem (if created then
        Function.update memory.tables.mem below fun _ => .unused else memory.tables.mem) })
    (hhuge : entry.flags.hugePage = true → E .parentEntryHugePage memory) :
    Exec.Yields (do
      match ← unwrap (nextTable c ((← get).tables.entry table index)) with
      | .mappedToHugePage => throw (.err MapToError.parentEntryHugePage)
      | .notMapped => throw .panic
      | .table below =>
        zeroTable created below
        return below) memory Q (Stop.Lets good E) := by
  apply Exec.Yields.get_bind
  rw [hentry]
  apply unwrap_bind
  · intro next hnext
    cases next with
    | notMapped =>
      intro hall
      unfold nextTable at hnext
      split at hnext
      · simp at hnext
      · next hframe =>
        rw [PageTableEntry.frame, if_neg (by simp [hgood hall])] at hframe
        split at hframe <;> cases hframe
      · cases hnext
    | table below => exact h below (nextTable_table hnext)
    | mappedToHugePage => exact hhuge (of_nextTable_huge hnext).2
  · exact fun hnone _ => hpoints.nextTable_ne_none hnone

section

variable (hflags : flags.hugePage = false) (h : memory.Owns host.cBit bottom stale own)
  (hpath : page.path = path ++ index :: rest) (hrest : rest ≠ [])
  (htable : memory.tables.tableAt host.cBit path = some table)
include hflags h hpath hrest htable

theorem createNextTable_unused (hunused : memory.tables.entry table index = .unused) :
    Exec.Yields (createNextTable host table index flags) memory
      (fun below after => Reaches host.cBit bottom stale own memory (path ++ [index]) below after ∧
        Spends host 1 memory after)
      (Stop.Lets (flags.present = true ∧ memory.Steady host 1) fun _ after =>
        Refused host.cBit bottom stale flags own memory page after ∧ ¬memory.Provides host 1) := by
  have hlength := length_le_two hpath hrest
  unfold createNextTable insertTable
  rw [bind_assoc]
  apply Exec.Yields.get_bind
  rw [hunused, if_pos (by decide), bind_assoc]
  refine Exec.Yields.bind (allocateFrame_lets.imp (fun _ _ => id) fun _ _ hstop =>
    hstop.imp And.right fun _ => False.elim) ?_
  rintro (_ | frame) middle hmiddle
  · exact ⟨(h.supplied hmiddle.2).quiet.refused flags page, hmiddle.1⟩
  obtain ⟨hspends, newPage, hlt, hraw, hout⟩ := hmiddle
  obtain ⟨own', hgrows, hfree, howns, hstill⟩ := h.handsOut Nat.one_pos hout
  obtain ⟨new, hwindow, -, -, hoffset⟩ := exists_shimVirt hlt
  have hdvd : SIZE_4_KIB ∣ frame.raw := by
    rw [hraw]
    exact Nat.dvd_add (Nat.dvd_mul_right _ _) (Nat.dvd_trans (by decide) host.cBit.dvd_mask)
  have hpointer : setFrame frame flags = some ⟨frame, flags, hdvd⟩ := by
    rw [setFrame, hflags, if_neg Bool.false_ne_true, PageTableEntry.setAddr, dif_pos hdvd]
  rw [bind_assoc, hpointer]
  refine unwrap_bind ?_ fun hnone => by cases hnone
  rintro _ ⟨⟩
  rw [bind_assoc]
  apply Exec.Yields.modify_bind
  rw [pure_bind]
  apply enterTable_lets ⟨frame, flags, hdvd⟩ true
  · exact Radix.set_same middle.tables.mem table index _
  · exact fun _ => ⟨new, frameToPointer_eq host.cBit hwindow (hoffset ▸ hraw)⟩
  · exact And.left
  · intro below hfollow
    rw [← hstill] at htable hunused
    exact ⟨.trans hgrows hstill (howns.newTable hfree hlength htable hunused hlt hraw hfollow), Spends.tables hspends _⟩
  · exact fun hhuge => absurd (hflags.symm.trans hhuge) Bool.false_ne_true

theorem createNextTable_used (hused : memory.tables.entry table index ≠ .unused) :
    Exec.Yields (createNextTable host table index flags) memory
      (fun below after => Reaches host.cBit bottom stale own memory (path ++ [index]) below after ∧
        (memory.tables.entry table index).follow host.cBit = some below ∧ Spends host 0 memory after)
      (Stop.Lets True fun _ after => Refused host.cBit bottom stale flags own memory page after ∧
        memory.tables.leaf? host.cBit page ≠ none) := by
  have hlength := length_le_two hpath hrest
  have hentry := h.tidy.entries index (by omega) htable
  have hpresent := hentry.present.resolve_left hused
  -- the leaf of the page, if the entry is none of a table
  have hleaf : (memory.tables.entry table index).flags.hugePage = true →
      memory.tables.leaf? host.cBit page = some (memory.tables.entry table index, rest) := by
    intro hhuge
    rw [leaf?_of_stop hpath htable (PageTableEntry.follow_of_huge _ hhuge), asLeaf, if_pos hpresent]
  unfold createNextTable insertTable
  rw [bind_assoc]
  apply Exec.Yields.get_bind
  rw [if_neg (by simpa [PageTableEntry.isUnused] using hused)]
  split
  · next hlacks =>
    obtain ⟨-, hlacks⟩ := hlacks
    rw [Bool.not_eq_true', PageTableFlags.contains] at hlacks
    have hpresent' : ((memory.tables.entry table index).flags.union flags).present = true := by
      rw [PageTableFlags.union, hpresent, Bool.true_or]
    have hunion : ((memory.tables.entry table index).flags.union flags).hugePage =
        (memory.tables.entry table index).flags.hugePage := by
      rw [PageTableFlags.union, hflags, Bool.or_false]
    rw [bind_assoc]
    apply Exec.Yields.modify_bind
    rw [pure_bind]
    apply enterTable_lets { memory.tables.entry table index with
      flags := (memory.tables.entry table index).flags.union flags } false
    · exact Radix.set_same memory.tables.mem table index _
    · exact fun hpointer => hentry.points hlength ⟨hpresent, hunion ▸ hpointer.2⟩
    · exact fun _ => hpresent'
    · intro below hfollow
      have hold := follow_of_union hpresent hfollow
      exact ⟨h.repoint hlength htable hold hfollow rfl, hold, Spends.congr rfl rfl⟩
    · intro hhuge
      have hold := hunion.symm.trans hhuge
      refine ⟨⟨h.tidy.disturb _ hlength htable hold hpresent' hhuge rfl hpresent, fun hnot => ?_⟩, ?_⟩
      · rw [lacks_of_huge (hleaf hold) hrest, PageTableFlags.contains, hlacks] at hnot
        cases hnot
      · exact hleaf hold ▸ Option.some_ne_none _
  · rw [pure_bind]
    apply enterTable_lets _ false rfl (hentry.points hlength) fun _ => hpresent
    · intro below hfollow
      have hbelow := (tableAt_snoc htable index).trans hfollow
      exact ⟨⟨own, h, .refl own, .of_tables rfl _ own,
        .singleton (length_snoc_le hlength index) hbelow fun _ _ _ => rfl, hbelow⟩, hfollow, Spends.congr rfl rfl⟩
    · exact fun hhuge => ⟨h.calm.quiet.refused flags page, hleaf hhuge ▸ Option.some_ne_none _⟩

end

theorem createNextTable_stocks (hflags : flags.hugePage = false) (h : memory.Owns host.cBit bottom stale own)
    (hstem : page.stem = path ++ index :: rest) (htable : memory.tables.tableAt host.cBit path = some table) :
    Exec.Yields (createNextTable host table index flags) memory
      (fun below after => Reaches host.cBit bottom stale own memory (path ++ [index]) below after ∧
        Stocks host {path ++ [index]} 0 memory after)
      (Stop.Lets (flags.present = true ∧ memory.Steady host (memory.tables.missing host.cBit {path ++ [index]}))
        fun _ after => Refused host.cBit bottom stale flags own memory page after ∧
          Balks host {path ++ [index]} memory page) := by
  have hpath : page.path = path ++ index :: (rest ++ [page.p1Index]) := by
    rw [page.path_eq_stem, hstem, List.append_assoc, List.cons_append]
  have hbelow := tableAt_snoc htable index
  by_cases hunused : memory.tables.entry table index = .unused
  · have hnone : memory.tables.tableAt host.cBit (path ++ [index]) = none := by
      rw [hbelow, hunused]
      rfl
    have hone := missing_singleton hnone
    refine (createNextTable_unused hflags h hpath (by simp) htable hunused).imp ?_ ?_
    · rintro below after ⟨hreaches, hspends⟩
      refine ⟨hreaches, ?_, fun P hforecast demand hdemand => hspends P hforecast demand (by rwa [hone] at hdemand)⟩
      obtain ⟨own', -, -, -, hextends, -⟩ := hreaches
      exact hextends
    · intro stop after hstop
      refine hstop.imp (fun hgood => ⟨hgood.1, hone ▸ hgood.2⟩) fun _ hafter => ⟨hafter.1, .inr ⟨?_, hone ▸ hafter.2⟩⟩
      rw [hstem, ← List.singleton_append, ← List.append_assoc, PageTables.tableAt, Radix.tableAt_append]
      exact congrArg (Option.bind · _) hnone
  · refine (createNextTable_used hflags h hpath (by simp) htable hunused).imp ?_ fun _ _ hstop =>
      hstop.imp (fun _ => trivial) fun _ hafter => ⟨hafter.1, .inl hafter.2⟩
    rintro below after ⟨hreaches, hfollow, hspends⟩
    refine ⟨hreaches, ?_, fun P hforecast demand hdemand => hspends P hforecast demand ?_⟩
    · obtain ⟨own', -, -, -, hextends, -⟩ := hreaches
      exact hextends
    · rwa [missing_singleton_of_some (hbelow.trans hfollow ▸ Option.some_ne_none below)] at hdemand

theorem createNextTable_bind {next : VirtAddr → Alloc MapToError Unit} {Q : Unit → Memory → Prop} {E : Memory → Prop}
    {good : Prop} (hflags : flags.hugePage = false) (h : memory.Owns host.cBit bottom stale own)
    (hstem : page.stem = path ++ index :: rest) (htable : memory.tables.tableAt host.cBit path = some table)
    (hgood : good → flags.present = true ∧
      memory.Steady host (memory.tables.missing host.cBit {path ++ [index]}))
    (hrefused : ∀ after, Refused host.cBit bottom stale flags own memory page after →
      Balks host {path ++ [index]} memory page → E after)
    (hnext : ∀ below own' after, after.Owns host.cBit bottom stale own' → Grows own own' →
      Same host.cBit own memory after → Stocks host {path ++ [index]} 0 memory after →
      after.tables.tableAt host.cBit (path ++ [index]) = some below →
      Exec.Yields (next below) after Q (Stop.Lets good fun _ => E)) :
    Exec.Yields (createNextTable host table index flags >>= next) memory Q (Stop.Lets good fun _ => E) := by
  refine Exec.Yields.bind ((createNextTable_stocks hflags h hstem htable).imp (fun _ _ => id) ?_) ?_
  · exact fun stop after hstop => hstop.imp hgood fun _ hafter => hrefused after hafter.1 hafter.2
  · rintro below after ⟨⟨own', howns, hgrows, hsame, -, hat⟩, hstocks⟩
    exact hnext below own' after howns hgrows hsame hstocks hat

end

end Enarx.Kvm
