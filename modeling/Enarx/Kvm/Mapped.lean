import Enarx.Kvm.Ownership

/-!
# Mapping and unmapping memory

Mapping a page hands a page of the memory from the allocator to the workload and
may turn free pages into tables; unmapping hands it back to the heap.
-/
namespace Enarx.Kvm

open Alloc PageTables

section

variable {host : Host} {c : CBit} {bottom : Nat} {stale : Set Nat} {own : Nat → Owner}
  {memory : Memory} {E : ε → Memory → Prop} {tables : PageTables} {after middle : Memory}
  {below : VirtAddr} {entry : PageTableEntry} {flags : PageTableFlags} {own' : Nat → Owner}

theorem Memory.Owns.handOver {page : Nat} {new : Owner}
    (h : memory.Owns c bottom stale own) (hheld : own page = .held) (hnew : new ≠ .free ∧ new ≠ .outside)
    (htidy : tables.Tidy c) (htable : ∀ {path table}, path.length ≤ 3 → tables.tableAt c path = some table →
      memory.tables.tableAt c path = some table ∨ table.memPage = page ∧ new = .table)
    (hleaf : ∀ addr, tables.leaf? c addr = memory.tables.leaf? c addr ∨
      ¬addr.InWindow ∧ new = .user addr.page ∧ tables.frame? c addr = some page ∧
        ∃ entry, tables.leaf? c addr = some (entry, [])) :
    Memory.Owns c bottom stale (assign own page 1 new) { memory with tables } := by
  have hblock := ownsBlock_one.mpr hheld
  have hpage : assign own page 1 new page = new := assign_inside ⟨le_rfl, Nat.lt_succ_self page⟩
  exact {
    tidy := htidy
    window := by
      intro addr haddr
      rcases hleaf addr with hsame | ⟨hout, -⟩
      · rw [hsame]
        exact h.window addr haddr
      · exact absurd haddr hout
    table := by
      intro path table hpath hat
      rcases htable hpath hat with hold | ⟨hpage', rfl⟩
      · exact assign_keep hblock (h.table hpath hold) (by simp)
      · rw [hpage', hpage]
    user := by
      intro addr n haddr hfresh hframe
      rcases hleaf addr with hsame | ⟨-, rfl, hnewFrame, -⟩
      · exact assign_keep hblock (h.user haddr hfresh ((frame?_congr hsame).symm.trans hframe)) (by simp)
      · rw [Option.some.inj (hframe.symm.trans hnewFrame), hpage]
    stale := by
      intro addr haddr
      rcases hleaf addr with hsame | ⟨-, -, -, entry, hentry⟩
      · rw [hsame]
        exact h.stale addr haddr
      · rw [hentry]
        rfl
    free_iff := by
      intro n
      rw [show n ∈ memory.allocator.free ↔ _ from h.free_iff n]
      by_cases hn : n = page
      · subst hn
        simp [hheld, hpage, hnew.1]
      · rw [assign_outside (by omega)]
    unborn := fun n hn => assign_keep hblock (h.unborn n hn) (by simp)
    born := fun n hlo hhi => assign_ne (h.born n hlo hhi) hnew.2
    bottom_le := by
      intro n
      by_cases hn : n = page
      · subst hn
        exact .inl (h.bottom_le_block hblock (by simp) Nat.one_pos)
      · rw [assign_outside (by omega)]
        exact h.bottom_le n
    bottom_le_end := h.bottom_le_end }

/-- Nothing has changed for the workload, but tables may have been added. -/
def Quiet (c : CBit) (bottom : Nat) (stale : Set Nat) (own : Nat → Owner) (before after : Memory) : Prop :=
  ∃ own', after.Owns c bottom stale own' ∧ Grows own own' ∧ Same c own before after

theorem Calm.quiet (h : Calm c bottom stale own memory after) : Quiet c bottom stale own memory after := by
  obtain ⟨own', howns, hgrows, hstill⟩ := h
  exact ⟨own', howns, hgrows, .of_tables hstill c own⟩

/-- A step that may add tables, and the table at the end of a path after it. -/
def Reaches (c : CBit) (bottom : Nat) (stale : Set Nat) (own : Nat → Owner) (before : Memory)
    (path : List (Fin 512)) (below : VirtAddr) (after : Memory) : Prop :=
  ∃ own', after.Owns c bottom stale own' ∧ Grows own own' ∧ Same c own before after ∧
    before.tables.Extends c {path} after.tables ∧ after.tables.tableAt c path = some below

theorem length_snoc_le {path : List (Fin 512)} (h : path.length ≤ 2) (index : Fin 512) :
    (path ++ [index]).length ≤ 3 := by
  rw [List.length_append, List.length_singleton]
  omega

theorem PageTables.Extends.singleton {before after : PageTables} {path : List (Fin 512)}
    (hpath : path.length ≤ 3) (hat : after.tableAt c path = some below)
    (hsame : ∀ p : List (Fin 512), p.length ≤ 3 → before.tableAt c p ≠ none ∨ p ≠ path →
      after.tableAt c p = before.tableAt c p) : before.Extends c {path} after := by
  refine ⟨?_, hsame⟩
  rintro _ rfl
  exact ⟨hpath, hat ▸ Option.some_ne_none below⟩

theorem Memory.Owns.ne_table (h : memory.Owns c bottom stale own) {path : List (Fin 512)}
    {table virt : VirtAddr} (hpath : path.length ≤ 3) (htable : memory.tables.tableAt c path = some table)
    (hinUse : (own virt.memPage).InUse) : virt ≠ table := by
  rintro rfl
  rw [h.table hpath htable] at hinUse
  simp [Owner.InUse] at hinUse

theorem Memory.Owns.repoint {path : List (Fin 512)} {table : VirtAddr} {index : Fin 512}
    (h : memory.Owns c bottom stale own) (hpath : path.length ≤ 2)
    (htable : memory.tables.tableAt c path = some table)
    (hold : (memory.tables.entry table index).follow c = some below) (hnew : entry.follow c = some below)
    (haddr : entry.addr = (memory.tables.entry table index).addr) :
    Reaches c bottom stale own memory (path ++ [index]) below
      { memory with tables := memory.tables.store table index entry } := by
  have hfollow : entry.follow c = (memory.tables.entry table index).follow c := hnew.trans hold.symm
  have htableAt : ∀ p : List (Fin 512), p.length ≤ 3 →
      (memory.tables.store table index entry).tableAt c p = memory.tables.tableAt c p :=
    fun p hp => tableAt_repoint h.tidy hpath htable hfollow hp
  have hleaf : ∀ addr, (memory.tables.store table index entry).leaf? c addr =
      memory.tables.leaf? c addr :=
    leaf?_repoint h.tidy hpath htable hfollow (by rw [hold]; rfl)
  have hpointer := (follow_some hnew).1
  have htidy : entry.Tidy c path.length := {
    pointer := by
      intro _ _
      rw [haddr]
      exact (h.tidy.entries index (by omega) htable).pointer hpath (follow_some hold).1
    level4 := fun _ _ => hpointer.2
    huge := fun _ _ _ hhuge => absurd (hpointer.2.symm.trans hhuge) Bool.false_ne_true
    present := .inr hpointer.1
    small := fun hdepth _ => by omega }
  have hlength := length_snoc_le hpath index
  have hbelow := (htableAt _ hlength).trans ((tableAt_snoc htable index).trans hold)
  refine ⟨own, ?_, .refl own, ⟨hleaf, ?_⟩, .singleton hlength hbelow fun p hp _ => htableAt p hp, hbelow⟩
  · exact h.retable (h.tidy.store_entries (by omega) htable htidy htableAt) hleaf
      fun hp hother => (htableAt _ hp).symm.trans hother
  · intro virt _ hinUse
    exact Radix.set_table_ne _ _ _ (h.ne_table (by omega) htable hinUse)

theorem setFrame_spec {frame : PhysAddr}
    (h : setFrame frame flags = some entry) : entry.addr = frame ∧ entry.flags = flags := by
  unfold setFrame PageTableEntry.setAddr at h
  split at h
  · cases h
  · split at h
    · cases h
      exact ⟨rfl, rfl⟩
    · cases h

theorem exists_shimVirt {page : Nat} (h : page < 2 ^ 27) : ∃ new : VirtAddr, new.InWindow ∧
    SIZE_4_KIB ∣ new.raw ∧ new.memPage = page ∧ new.raw - SHIM_VIRT_OFFSET = SIZE_4_KIB * page := by
  let new : VirtAddr := ⟨SHIM_VIRT_OFFSET + SIZE_4_KIB * page, .inr (by
    unfold SHIM_VIRT_OFFSET SIZE_4_KIB
    omega)⟩
  have hoffset : new.raw - SHIM_VIRT_OFFSET = SIZE_4_KIB * page := Nat.add_sub_cancel_left _ _
  refine ⟨new, Nat.le_add_right _ _, ?_, ?_, hoffset⟩
  · exact Nat.dvd_add (by decide) (Nat.dvd_mul_right _ _)
  · rw [VirtAddr.memPage, hoffset, Nat.mul_div_cancel_left _ (by decide)]

theorem zero_store (tables : PageTables) {table new : VirtAddr} (index : Fin 512)
    (pointer : PageTableEntry) (hne : new ≠ table) : (tables.store table index pointer).withMem
      (Function.update (tables.store table index pointer).mem new fun _ => .unused) =
      tables.addTable table index new pointer := by
  have hmem : Function.update (Radix.set tables.mem table index pointer) new (fun _ => .unused) =
      Radix.graft tables.mem table index pointer new fun _ => .unused := by
    rw [Radix.graft, Radix.set, Radix.set, Function.update_of_ne hne.symm,
      Function.update_comm hne]
  exact congrArg tables.withMem hmem

theorem Memory.Owns.newTable {path : List (Fin 512)} {table : VirtAddr} {index : Fin 512}
    {pointer : PageTableEntry} {page : Nat} (h : memory.Owns c bottom stale (assign own page 1 .held))
    (hfree : OwnsBlock own page 1 .free) (hpath : path.length ≤ 2)
    (htable : memory.tables.tableAt c path = some table)
    (hunused : memory.tables.entry table index = .unused) (hpage : page < 2 ^ 27)
    (haddr : pointer.addr.raw = SIZE_4_KIB * page + c.mask) (hfollow : pointer.follow c = some below) :
    Reaches c bottom stale own memory (path ++ [index]) below { memory with
        tables := (memory.tables.store table index pointer).withMem
          (Function.update (memory.tables.store table index pointer).mem below fun _ => .unused) } := by
  obtain ⟨new, hwindow, haligned, hmemPage, hoffset⟩ := exists_shimVirt hpage
  have hnew : below = new := by
    have hnew := frameToPointer_eq c hwindow (hoffset ▸ haddr)
    exact Option.some.inj ((follow_some hfollow).2.symm.trans hnew)
  subst hnew
  have hfresh : ∀ p : List (Fin 512), p.length ≤ 3 → memory.tables.tableAt c p ≠ some below := by
    intro p hp hp'
    have howner := h.table hp hp'
    rw [hmemPage, assign_inside (by omega)] at howner
    cases howner
  have ha : Adds c memory.tables path table index below pointer :=
    ⟨hpath, htable, hunused, hwindow, haligned, hfresh, (follow_some hfollow).1, hoffset ▸ haddr⟩
  have hne : below ≠ table := fun heq => hfresh path (by omega) (heq ▸ htable)
  have hkeep : ∀ virt : VirtAddr, (own virt.memPage).InUse → virt ≠ below ∧ virt ≠ table := by
    intro virt hinUse
    have hother : virt.memPage ≠ page := by
      intro heq
      rw [heq, ownsBlock_one.mp hfree] at hinUse
      simp [Owner.InUse] at hinUse
    refine ⟨fun heq => hother (heq ▸ hmemPage), h.ne_table (by omega) htable ?_⟩
    rwa [assign_outside (by omega)]
  have hlength := length_snoc_le hpath index
  have hbelow := (ha.grafts.tableAt_after h.tidy.tree hlength).mpr (.inr ⟨rfl, rfl⟩)
  rw [zero_store _ _ _ hne]
  refine ⟨assign own page 1 .table, ?_, ?_, ⟨ha.leaf?_after h.tidy, ?_⟩, .singleton hlength hbelow ?_, hbelow⟩
  · rw [← assign_assign own page 1 .held]
    apply h.handOver (assign_inside (by omega)) (by simp) (ha.tidy h.tidy)
    · intro p other hp hother
      rcases (ha.grafts.tableAt_after h.tidy.tree hp).mp hother with hold | ⟨-, rfl⟩
      · exact .inl hold
      · exact .inr ⟨hmemPage, rfl⟩
    · intro addr
      exact .inl (ha.leaf?_after h.tidy addr)
  · intro n
    by_cases hin : page ≤ n ∧ n < page + 1
    · exact .inr ⟨.inr (hfree n hin.1 hin.2), .inr (assign_inside hin)⟩
    · exact .inl (assign_outside hin)
  · intro virt _ hinUse
    obtain ⟨hbelow, htable⟩ := hkeep virt hinUse
    exact (Radix.set_table_ne _ _ _ htable).trans (Function.update_of_ne hbelow _ _)
  · intro p hp hold
    ext other
    refine (ha.grafts.tableAt_after h.tidy.tree hp).trans (or_iff_left_iff_imp.mpr ?_)
    rintro ⟨rfl, -⟩
    rw [tableAt_snoc htable index, hunused] at hold
    exact absurd rfl (hold.resolve_right (absurd rfl))

theorem Reaches.trans {path : List (Fin 512)}
    (hgrows : Grows own own') (hstill : middle.tables = memory.tables)
    (h : Reaches c bottom stale own' middle path below after) :
    Reaches c bottom stale own memory path below after := by
  obtain ⟨own'', howns, hgrows', hsame, hextends, htable⟩ := h
  exact ⟨own'', howns, hgrows.trans hgrows', (Same.of_tables hstill c own).trans hgrows hsame, hstill ▸ hextends, htable⟩

theorem Quiet.trans (hgrows : Grows own own')
    (hsame : Same c own memory middle) (h : Quiet c bottom stale own' middle after) :
    Quiet c bottom stale own memory after := by
  obtain ⟨own'', howns, hgrows', hsame'⟩ := h
  exact ⟨own'', howns, hgrows.trans hgrows', hsame.trans hgrows hsame'⟩

def PageTables.lacks (c : CBit) (tables : PageTables) (flags : PageTableFlags) (page : VirtAddr) : Bool :=
  match tables.leaf? c page with
  | some (entry, _ :: _) => !entry.flags.contains flags
  | _ => false

theorem lacks_congr {tables' : PageTables} {page : VirtAddr}
    (h : tables'.leaf? c page = tables.leaf? c page) (flags : PageTableFlags) :
    tables'.lacks c flags page = tables.lacks c flags page := by
  rw [PageTables.lacks, PageTables.lacks, h]

theorem lacks_of_none {page : VirtAddr} (h : tables.leaf? c page = none)
    (flags : PageTableFlags) : tables.lacks c flags page = false := by
  rw [PageTables.lacks, h]

theorem lacks_of_small {page : VirtAddr}
    (h : tables.leaf? c page = some (entry, [])) (flags : PageTableFlags) :
    tables.lacks c flags page = false := by
  rw [PageTables.lacks, h]

theorem lacks_of_huge {page : VirtAddr} {rest : List (Fin 512)}
    (h : tables.leaf? c page = some (entry, rest)) (hrest : rest ≠ []) (flags : PageTableFlags) :
    tables.lacks c flags page = !entry.flags.contains flags := by
  obtain ⟨index, rest, rfl⟩ := List.exists_cons_of_ne_nil hrest
  rw [PageTables.lacks, h]

/-- A page could not be mapped. Nothing has changed for the workload unless the page lies in a huge page that
has got other flags. -/
def Refused (c : CBit) (bottom : Nat) (stale : Set Nat) (flags : PageTableFlags) (own : Nat → Owner)
    (before : Memory) (page : VirtAddr) (after : Memory) : Prop :=
  after.tables.Tidy c ∧ (before.tables.lacks c flags page = false → Quiet c bottom stale own before after)

theorem Quiet.refused (h : Quiet c bottom stale own memory after) (flags : PageTableFlags)
    (page : VirtAddr) : Refused c bottom stale flags own memory page after := by
  obtain ⟨own', howns, hquiet⟩ := h
  exact ⟨howns.tidy, fun _ => ⟨own', howns, hquiet⟩⟩

theorem Refused.trans {page : VirtAddr} (hgrows : Grows own own') (hsame : Same c own memory middle)
    (h : Refused c bottom stale flags own' middle page after) :
    Refused c bottom stale flags own memory page after := by
  refine ⟨h.1, fun hlacks => (h.2 ?_).trans hgrows hsame⟩
  rwa [lacks_congr (hsame.leaf? page)]

theorem PageTables.Tidy.disturb {path : List (Fin 512)} {table : VirtAddr}
    {index : Fin 512} (entry : PageTableEntry) (h : tables.Tidy c) (hlength : path.length ≤ 2)
    (htable : tables.tableAt c path = some table)
    (hold : (tables.entry table index).flags.hugePage = true) (hpresent : entry.flags.present = true)
    (hhuge : entry.flags.hugePage = true) (haddr : entry.addr = (tables.entry table index).addr)
    (hused : (tables.entry table index).flags.present = true) : (tables.store table index entry).Tidy c := by
  have hfollow : entry.follow c = (tables.entry table index).follow c := by
    rw [PageTableEntry.follow_of_huge _ hhuge, PageTableEntry.follow_of_huge _ hold]
  have hentry := h.entries index (by omega) htable
  have htidy : entry.Tidy c path.length := {
    pointer := fun _ hpointer => absurd (hpointer.2.symm.trans hhuge) Bool.false_ne_true
    level4 := fun hdepth _ => absurd ((hentry.level4 hdepth hused).symm.trans hold) Bool.false_ne_true
    huge := fun hlo hhi _ _ => haddr ▸ hentry.huge hlo hhi hused hold
    present := .inr hpresent
    small := fun hdepth _ => by omega }
  exact h.store_entries (by omega) htable htidy fun p hp => tableAt_repoint h hlength htable hfollow hp

theorem follow_of_union (hpresent : entry.flags.present = true)
    (h : PageTableEntry.follow c { entry with flags := entry.flags.union flags } = some below) :
    entry.follow c = some below := by
  obtain ⟨hpointer, hbelow⟩ := follow_some h
  have hhuge : (entry.flags.hugePage || flags.hugePage) = false := hpointer.2
  rw [Bool.or_eq_false_iff] at hhuge
  exact (if_pos ⟨hpresent, hhuge.1⟩).trans hbelow

section

variable {path rest : List (Fin 512)} {table : VirtAddr} {index : Fin 512} {page : VirtAddr}
  (hpath : page.path = path ++ index :: rest)
include hpath

theorem length_le_two (hrest : rest ≠ []) : path.length ≤ 2 := by
  have hlength := congrArg List.length hpath
  have hpos := List.length_pos_iff.mpr hrest
  rw [VirtAddr.length_path, List.length_append, List.length_cons] at hlength
  omega

theorem leaf?_of_stop (htable : memory.tables.tableAt c path = some table)
    (hstop : (memory.tables.entry table index).follow c = none) :
    memory.tables.leaf? c page = asLeaf (memory.tables.entry table index) rest := by
  rw [leaf?, hpath, Radix.lookup_append htable (List.cons_ne_nil _ _), Radix.along_id]
  exact Radix.lookup_leaf hstop

end

structure MapsPage (c : CBit) (flags : PageTableFlags) (before : Memory) (page : VirtAddr) (n : Nat)
    (after : Memory) : Prop where
  unmapped : before.tables.leaf? c page = none
  mapped : ∃ entry : PageTableEntry, entry.flags = flags ∧ entry.addr.raw = SIZE_4_KIB * n + c.mask ∧
    ∀ addr : VirtAddr, addr.page = page.page → after.tables.leaf? c addr = some (entry, [])
  other : ∀ addr : VirtAddr, addr.page ≠ page.page → after.tables.leaf? c addr = before.tables.leaf? c addr

theorem leaf?_congr (tables : PageTables) {a b : VirtAddr} (h : a.page = b.page) :
    tables.leaf? c a = tables.leaf? c b := by
  rw [leaf?, leaf?, VirtAddr.path_eq_iff.mpr h]

theorem Memory.Owns.storeLast {page table : VirtAddr} {n : Nat}
    (h : memory.Owns c bottom stale own) (hheld : own n = .held) (hn : n < 2 ^ 27)
    (htable : memory.tables.tableAt c page.stem = some table)
    (hunused : memory.tables.entry table page.p1Index = .unused)
    (hpresent : entry.flags.present = true) (haddr : entry.addr.raw = SIZE_4_KIB * n + c.mask) :
    Memory.Owns c bottom stale (assign own n 1 (.user page.page))
        { memory with tables := memory.tables.store table page.p1Index entry } ∧
      MapsPage c entry.flags memory page n
        { memory with tables := memory.tables.store table page.p1Index entry } := by
  have hlength := page.length_stem
  have hphys : SIZE_4_KIB * n < 2 ^ 39 := by
    unfold SIZE_4_KIB
    omega
  have hunmapped : memory.tables.leaf? c page = none := by
    rw [leaf?_of_path htable page.path_eq_stem, hunused, asLeaf_unused]
  have hout : ¬page.InWindow := by
    intro hin
    have hmapped := h.window page hin
    rw [hunmapped] at hmapped
    cases hmapped
  have hstore : ∀ addr : VirtAddr, (memory.tables.store table page.p1Index entry).leaf? c addr =
      if addr.page = page.page then some (entry, []) else memory.tables.leaf? c addr := by
    intro addr
    rw [leaf?_store h.tidy hlength htable, asLeaf, if_pos hpresent, ← VirtAddr.path_eq_stem]
    exact if_congr VirtAddr.path_eq_iff rfl rfl
  have htidy : entry.Tidy c 3 := {
    pointer := fun hdepth => by omega
    level4 := fun hdepth => by omega
    huge := fun _ hdepth => by omega
    present := .inr hpresent
    small := fun _ _ => ⟨SIZE_4_KIB * n, hphys, .inl haddr⟩ }
  constructor
  · apply h.handOver hheld (by simp) (h.tidy.store hlength htable htidy)
    · intro path other hpath hother
      exact .inl ((tableAt_store h.tidy hlength htable hpath).symm.trans hother)
    · intro addr
      by_cases hpage : addr.page = page.page
      · refine .inr ⟨?_, by rw [hpage], ?_, entry, by rw [hstore, if_pos hpage]⟩
        · intro hin
          have hmapped := h.window addr hin
          rw [leaf?_congr _ hpage, hunmapped] at hmapped
          cases hmapped
        · rw [frame?_of_leaf? (by rw [hstore, if_pos hpage]),
            leafFrame_small c (Nat.mod_lt _ (by decide)) hpresent hphys (.inl haddr),
            Nat.mul_div_cancel_left _ (by decide)]
      · exact .inl (by rw [hstore, if_neg hpage])
  · exact ⟨hunmapped, ⟨entry, rfl, haddr, fun addr hpage => by rw [hstore, if_pos hpage]⟩,
      fun addr hpage => by rw [hstore, if_neg hpage]⟩

end

end Enarx.Kvm
