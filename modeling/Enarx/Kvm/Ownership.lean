import Enarx.Kvm.Edits
import Enarx.Kvm.Hostcall
import Enarx.Kvm.Supply

/-!
# Who owns a page of the memory

Every page of the memory has one owner: the image of the shim, the page tables, the
heap, the allocator while it serves a request, or one page of the workload. All
operations of the allocator move pages between owners.
-/
namespace Enarx.Kvm

open Alloc

/-- An entry that is a pointer points to a page of the window. -/
def PageTableEntry.Points (c : CBit) (entry : PageTableEntry) : Prop :=
  entry.IsPointer → ∃ below, frameToPointer c entry.addr = some below

theorem PageTableEntry.Tidy.points {c : CBit} {depth : Nat} {entry : PageTableEntry} (h : entry.Tidy c depth)
    (hdepth : depth ≤ 2) : entry.Points c := by
  intro hpointer
  obtain ⟨below, hwindow, -, haddr⟩ := h.pointer hdepth hpointer
  exact ⟨below, frameToPointer_eq c hwindow haddr⟩

theorem PageTableEntry.Points.nextTable_ne_none {c : CBit} {entry : PageTableEntry} (h : entry.Points c) :
    nextTable c entry ≠ none := by
  intro hnone
  unfold nextTable at hnone
  split at hnone
  · next frame hframe =>
    obtain ⟨hpointer, rfl⟩ := PageTableEntry.of_frame hframe
    obtain ⟨below, hbelow⟩ := h hpointer
    rw [hbelow] at hnone
    cases hnone
  · cases hnone
  · cases hnone

inductive Owner where
  /-- The image of the shim, and memory that the host has not granted. -/
  | outside
  | table
  | free
  /-- Handed out, and neither mapped nor a table. -/
  | held
  | user (page : Nat)
  deriving DecidableEq, Repr

def Owner.InUse (owner : Owner) : Prop := owner = .held ∨ ∃ page, owner = .user page

/-- The owners agree with the tables and the heap; the heap starts at page `bottom`. The pages in
`stale` are mapped to memory that is not theirs. -/
structure Memory.Owns (c : CBit) (bottom : Nat) (stale : Set Nat) (own : Nat → Owner) (memory : Memory) :
    Prop where
  tidy : memory.tables.Tidy c
  window : ∀ addr : VirtAddr, addr.InWindow → (memory.tables.leaf? c addr).isSome
  table : ∀ {path table}, path.length ≤ 3 → memory.tables.tableAt c path = some table →
    own table.memPage = .table
  user : ∀ {addr n}, ¬addr.InWindow → addr.page ∉ stale → memory.tables.frame? c addr = some n →
    own n = .user addr.page
  stale : ∀ addr : VirtAddr, addr.page ∈ stale → (memory.tables.leaf? c addr).isSome
  free_iff : ∀ n, n ∈ memory.allocator.free ↔ own n = .free
  unborn : ∀ n, memory.allocator.endOfMem ≤ n → own n = .outside
  born : ∀ n, bottom ≤ n → n < memory.allocator.endOfMem → own n ≠ .outside
  bottom_le : ∀ n, bottom ≤ n ∨ own n = .outside ∨ own n = .table
  bottom_le_end : bottom ≤ memory.allocator.endOfMem

def Grows (own own' : Nat → Owner) : Prop :=
  ∀ n, own' n = own n ∨ (own n = .outside ∨ own n = .free) ∧ (own' n = .free ∨ own' n = .table)

theorem Grows.refl (own : Nat → Owner) : Grows own own := fun _ => .inl rfl

theorem Grows.trans {own own' own'' : Nat → Owner} (h : Grows own own') (h' : Grows own' own'') :
    Grows own own'' := by
  intro n
  rcases h n with heq | ⟨hbefore, hafter⟩
  · rcases h' n with heq' | ⟨hbefore', hafter'⟩
    · exact .inl (heq'.trans heq)
    · exact .inr ⟨heq ▸ hbefore', hafter'⟩
  · rcases h' n with heq' | ⟨-, hafter'⟩
    · exact .inr ⟨hbefore, heq' ▸ hafter⟩
    · exact .inr ⟨hbefore, hafter'⟩

theorem Grows.inUse {own own' : Nat → Owner} (h : Grows own own') {n : Nat} (hn : (own n).InUse) :
    own' n = own n := by
  rcases h n with heq | ⟨hloose, -⟩
  · exact heq
  · rcases hn with hheld | ⟨page, huser⟩
    · rw [hheld] at hloose
      simp at hloose
    · rw [huser] at hloose
      simp at hloose

structure Same (c : CBit) (own : Nat → Owner) (before after : Memory) : Prop where
  leaf? : ∀ addr, after.tables.leaf? c addr = before.tables.leaf? c addr
  mem : ∀ virt : VirtAddr, virt.InWindow → (own virt.memPage).InUse →
    after.tables.mem virt = before.tables.mem virt

theorem Same.of_tables {before after : Memory} (h : after.tables = before.tables) (c : CBit)
    (own : Nat → Owner) : Same c own before after :=
  ⟨fun _ => by rw [h], fun _ _ _ => by rw [h]⟩

theorem Same.trans {c : CBit} {own own' : Nat → Owner} {before middle after : Memory}
    (h : Same c own before middle) (hgrows : Grows own own') (h' : Same c own' middle after) :
    Same c own before after where
  leaf? addr := (h'.leaf? addr).trans (h.leaf? addr)
  mem virt hvirt hinUse := by
    rw [h'.mem virt hvirt (by rwa [hgrows.inUse hinUse]), h.mem virt hvirt hinUse]

def Calm (c : CBit) (bottom : Nat) (stale : Set Nat) (own : Nat → Owner) (before after : Memory) : Prop :=
  ∃ own', after.Owns c bottom stale own' ∧ Grows own own' ∧ after.tables = before.tables

section

variable {host : Host} {c : CBit} {bottom : Nat} {stale : Set Nat} {own : Nat → Owner} {memory : Memory}
  {E : ε → Memory → Prop}

theorem Memory.Owns.calm (h : memory.Owns c bottom stale own) : Calm c bottom stale own memory memory :=
  ⟨own, h, .refl own, rfl⟩

def assign (own : Nat → Owner) (start npages : Nat) (owner : Owner) : Nat → Owner := fun n =>
  if start ≤ n ∧ n < start + npages then owner else own n

variable {start npages : Nat} {owner : Owner} {after : Memory}

theorem assign_inside {n : Nat} (h : start ≤ n ∧ n < start + npages) :
    assign own start npages owner n = owner := if_pos h

theorem assign_outside {n : Nat} (h : ¬(start ≤ n ∧ n < start + npages)) :
    assign own start npages owner n = own n := if_neg h

def OwnsBlock (own : Nat → Owner) (start npages : Nat) (owner : Owner) : Prop :=
  ∀ n, start ≤ n → n < start + npages → own n = owner

theorem assign_keep {n : Nat} {old new : Owner} (hold : OwnsBlock own start npages old)
    (hn : own n = owner) (hne : owner ≠ old) : assign own start npages new n = owner := by
  rw [assign_outside, hn]
  rintro ⟨hlo, hhi⟩
  exact hne (hn.symm.trans (hold n hlo hhi))

@[simp] theorem assign_assign (own : Nat → Owner) (start npages : Nat) (owner owner' : Owner) :
    assign (assign own start npages owner) start npages owner' = assign own start npages owner' := by
  funext n
  by_cases hn : start ≤ n ∧ n < start + npages
  · rw [assign_inside hn, assign_inside hn]
  · rw [assign_outside hn, assign_outside hn, assign_outside hn]

theorem ownsBlock_one {page : Nat} : OwnsBlock own page 1 owner ↔ own page = owner := by
  constructor
  · intro h
    exact h page le_rfl (Nat.lt_succ_self page)
  · intro h n hlo hhi
    rwa [show n = page by omega]

theorem assign_ne {n : Nat} {other : Owner} (hn : own n ≠ other) (hother : owner ≠ other) :
    assign own start npages owner n ≠ other := by
  unfold assign
  split
  · exact hother
  · exact hn

theorem Memory.Owns.reassign (h : memory.Owns c bottom stale own)
    {old new : Owner} (hold : OwnsBlock own start npages old)
    (hloose : old ≠ .table ∧ ∀ page, old ≠ .user page) (htables : after.tables = memory.tables)
    (hfree : ∀ n, n ∈ after.allocator.free ↔ assign own start npages new n = .free)
    (hunborn : ∀ n, after.allocator.endOfMem ≤ n →
      ¬(start ≤ n ∧ n < start + npages) ∧ memory.allocator.endOfMem ≤ n)
    (hnew : new ≠ .outside) (hborn : ∀ n, memory.allocator.endOfMem ≤ n → n < after.allocator.endOfMem →
      start ≤ n ∧ n < start + npages)
    (hbottom : bottom ≤ start) (hend : bottom ≤ after.allocator.endOfMem) :
    after.Owns c bottom stale (assign own start npages new) where
  tidy := htables ▸ h.tidy
  window := htables ▸ h.window
  table hpath htable := assign_keep hold (h.table hpath (htables ▸ htable)) hloose.1.symm
  user haddr hfresh hframe := assign_keep hold (h.user haddr hfresh (htables ▸ hframe)) (hloose.2 _).symm
  stale := htables ▸ h.stale
  free_iff := hfree
  unborn n hn := by
    obtain ⟨hnot, hbefore⟩ := hunborn n hn
    rw [assign_outside hnot, h.unborn n hbefore]
  born n hlo hhi := by
    by_cases hn : n < memory.allocator.endOfMem
    · exact assign_ne (h.born n hlo hn) hnew
    · rw [assign_inside (hborn n (Nat.le_of_not_lt hn) hhi)]
      exact hnew
  bottom_le n := by
    by_cases hblock : start ≤ n ∧ n < start + npages
    · exact .inl (hbottom.trans hblock.1)
    · rw [assign_outside hblock]
      exact h.bottom_le n
  bottom_le_end := hend

theorem Memory.Owns.lt_end (h : memory.Owns c bottom stale own) {n : Nat} (hn : own n ≠ .outside) :
    n < memory.allocator.endOfMem := by
  by_contra hge
  exact hn (h.unborn n (Nat.le_of_not_lt hge))

theorem Memory.Owns.supplied (h : memory.Owns c bottom stale own) (hsupplied : memory.Supplied after) :
    Calm c bottom stale own memory after := by
  obtain ⟨ledger, hle, rfl⟩ := hsupplied
  obtain ⟨npages, hnpages⟩ := Nat.exists_eq_add_of_le hle
  have hborn : OwnsBlock own memory.allocator.endOfMem npages .outside := fun n hn _ => h.unborn n hn
  have hend : (memory.granted ledger).allocator.endOfMem = memory.allocator.endOfMem + npages := hnpages
  refine ⟨assign own memory.allocator.endOfMem npages .free, ?_, ?_, rfl⟩
  · refine h.reassign hborn (by simp) rfl ?_ ?_ (by simp) ?_ h.bottom_le_end (h.bottom_le_end.trans hle)
    · intro n
      change n ∈ memory.allocator.free ∪ Finset.Ico memory.allocator.endOfMem ledger.endOfMem ↔ _
      rw [Finset.mem_union, Finset.mem_Ico, h.free_iff, hnpages]
      by_cases hnew : memory.allocator.endOfMem ≤ n ∧ n < memory.allocator.endOfMem + npages
      · simp [assign_inside hnew, hnew]
      · simp [assign_outside hnew, hnew]
    · intro n hn
      omega
    · exact fun n hlo hhi => ⟨hlo, hend ▸ hhi⟩
  · intro n
    by_cases hnew : memory.allocator.endOfMem ≤ n ∧ n < memory.allocator.endOfMem + npages
    · rw [assign_inside hnew]
      exact .inr ⟨.inl (hborn n hnew.1 hnew.2), .inl rfl⟩
    · exact .inl (assign_outside hnew)

def Taken (c : CBit) (bottom : Nat) (stale : Set Nat) (own : Nat → Owner) (before : Memory) (start npages : Nat)
    (after : Memory) : Prop :=
  ∃ own', Grows own own' ∧ OwnsBlock own' start npages .free ∧
    after.Owns c bottom stale (assign own' start npages .held) ∧ after.tables = before.tables

theorem Memory.Owns.bottom_le_block (h : memory.Owns c bottom stale own)
    (hblock : OwnsBlock own start npages owner) (howner : owner ≠ .outside ∧ owner ≠ .table)
    (hpos : 0 < npages) : bottom ≤ start := by
  have hstart := hblock start le_rfl (Nat.lt_add_of_pos_right hpos)
  rcases h.bottom_le start with hle | hout | htable
  · exact hle
  · exact absurd (hstart.symm.trans hout) howner.1
  · exact absurd (hstart.symm.trans htable) howner.2

theorem Memory.Owns.handsOut (h : memory.Owns c bottom stale own) (hpos : 0 < npages)
    (hout : memory.HandsOut start npages after) : Taken c bottom stale own memory start npages after := by
  obtain ⟨middle, hsupplied, hsub, rfl⟩ := hout
  obtain ⟨own', howns, hgrows, hstill⟩ := h.supplied hsupplied
  have hblock : OwnsBlock own' start npages .free :=
    fun n hlo hhi => (howns.free_iff n).mp (hsub (Finset.mem_Ico.mpr ⟨hlo, hhi⟩))
  refine ⟨own', hgrows, hblock, ?_, hstill⟩
  refine howns.reassign hblock (by simp) rfl ?_ ?_ (by simp) (fun n hlo hhi => absurd hhi (Nat.not_lt.mpr hlo))
    (howns.bottom_le_block hblock (by simp) hpos) howns.bottom_le_end
  · intro n
    change n ∈ middle.allocator.free \ Finset.Ico start (start + npages) ↔ _
    rw [Finset.mem_sdiff, Finset.mem_Ico, howns.free_iff]
    by_cases hn : start ≤ n ∧ n < start + npages
    · simp [assign_inside hn, hn]
    · simp [assign_outside hn, hn]
  · intro n hn
    refine ⟨fun ⟨hlo, hhi⟩ => ?_, hn⟩
    have hlt := howns.lt_end (n := n) (by rw [hblock n hlo hhi]; simp)
    exact absurd hn (Nat.not_le.mpr hlt)

theorem Memory.Owns.not_block (h : memory.Owns c bottom stale own)
    (hblock : OwnsBlock own start npages owner) (howner : owner ≠ .table) {path : List (Fin 512)}
    {table : VirtAddr} (hpath : path.length ≤ 3) (htable : memory.tables.tableAt c path = some table) :
    ¬(start ≤ table.memPage ∧ table.memPage < start + npages) := by
  rintro ⟨hlo, hhi⟩
  exact howner ((hblock _ hlo hhi).symm.trans (h.table hpath htable))

theorem Memory.Owns.retable (h : memory.Owns c bottom stale own) {tables : PageTables} (htidy : tables.Tidy c)
    (hleaf : ∀ addr, tables.leaf? c addr = memory.tables.leaf? c addr)
    (htable : ∀ {path table}, path.length ≤ 3 → tables.tableAt c path = some table →
      memory.tables.tableAt c path = some table) :
    Memory.Owns c bottom stale own { memory with tables } where
  tidy := htidy
  window addr haddr := hleaf addr ▸ h.window addr haddr
  table hpath hat := h.table hpath (htable hpath hat)
  user haddr hfresh hframe := h.user haddr hfresh ((PageTables.frame?_congr (hleaf _)).symm.trans hframe)
  stale addr haddr := hleaf addr ▸ h.stale addr haddr
  free_iff := h.free_iff
  unborn := h.unborn
  born := h.born
  bottom_le := h.bottom_le
  bottom_le_end := h.bottom_le_end

/-- There are tables at these paths. The others are where they were. -/
structure PageTables.Extends (c : CBit) (paths : Set (List (Fin 512))) (before after : PageTables) : Prop where
  there : ∀ path ∈ paths, path.length ≤ 3 ∧ after.tableAt c path ≠ none
  same : ∀ path, path.length ≤ 3 → before.tableAt c path ≠ none ∨ path ∉ paths →
    after.tableAt c path = before.tableAt c path

theorem PageTables.Extends.of_same {before after : PageTables}
    (h : ∀ path : List (Fin 512), path.length ≤ 3 → after.tableAt c path = before.tableAt c path) :
    before.Extends c ∅ after := ⟨fun _ hpath => hpath.elim, fun path hpath _ => h path hpath⟩

def Memory.Zero (memory : Memory) (start npages : Nat) : Prop :=
  ∀ virt : VirtAddr, virt.InWindow → start ≤ virt.memPage → virt.memPage < start + npages →
    memory.tables.mem virt = fun _ => .unused

theorem Memory.Owns.cleared (h : memory.Owns c bottom stale (assign own start npages .held))
    (hfree : OwnsBlock own start npages .free) :
    (memory.cleared start npages).Owns c bottom stale (assign own start npages .held) ∧
      Same c own memory (memory.cleared start npages) ∧
      memory.tables.Extends c ∅ (memory.cleared start npages).tables := by
  have hheld : OwnsBlock (assign own start npages .held) start npages .held :=
    fun n hlo hhi => assign_inside ⟨hlo, hhi⟩
  have hmem : ∀ {path table}, path.length ≤ 3 → memory.tables.tableAt c path = some table →
      (if table.InWindow ∧ start ≤ table.memPage ∧ table.memPage < start + npages then
        fun _ => PageTableEntry.unused else memory.tables.mem table) = memory.tables.mem table :=
    fun hpath htable => if_neg fun hin => h.not_block hheld (by simp) hpath htable hin.2
  refine ⟨h.retable (h.tidy.outside hmem) (PageTables.leaf?_outside hmem) fun hpath htable => ?_,
    ⟨PageTables.leaf?_outside hmem, fun virt _ hinUse => if_neg ?_⟩,
    .of_same fun _ hpath => PageTables.tableAt_outside hmem hpath⟩
  · exact (PageTables.tableAt_outside hmem hpath).symm.trans htable
  · rintro ⟨-, hlo, hhi⟩
    rw [hfree _ hlo hhi] at hinUse
    simp [Owner.InUse] at hinUse

theorem Memory.cleared_zero (memory : Memory) (start npages : Nat) : (memory.cleared start npages).Zero start npages :=
  fun _ hvirt hlo hhi => if_pos ⟨hvirt, hlo, hhi⟩

end

end Enarx.Kvm
