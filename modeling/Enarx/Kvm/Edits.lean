import Enarx.Kvm.Split

/-!
# Edits of page tables

What an edit of the tables does to the pages that the processor finds: a new empty
table or another flag in a pointer changes nothing, an entry of the last level
changes one page.
-/
namespace Enarx.Kvm

namespace VirtAddr

def stem (addr : VirtAddr) : List (Fin 512) := [addr.p4Index, addr.p3Index, addr.p2Index]

theorem length_stem (addr : VirtAddr) : addr.stem.length = 3 := rfl

theorem path_eq_stem (addr : VirtAddr) : addr.path = addr.stem ++ [addr.p1Index] := rfl

theorem stem_eq_iff {a b : VirtAddr} : a.stem = b.stem ∧ a.p1Index = b.p1Index ↔ a.page = b.page := by
  rw [← path_eq_iff]
  simp only [path, stem, List.cons.injEq, and_true, and_assoc]

end VirtAddr

def Mapping.frame (c : CBit) (mapping : Mapping) : Nat := andNot mapping.phys c.mask / SIZE_4_KIB

def leafFrame (c : CBit) (offset : Nat) (entry : PageTableEntry) (rest : List (Fin 512)) : Option Nat :=
  (Mapping.leaf offset entry rest).map (Mapping.frame c)

theorem leafFrame_small (c : CBit) {offset pa : Nat} {entry : PageTableEntry}
    (hoffset : offset < SIZE_4_KIB) (hpresent : entry.flags.present = true) (hpa : pa < 2 ^ 39)
    (haddr : entry.addr.raw = pa + c.mask ∨ entry.addr.raw = pa) :
    leafFrame c offset entry [] = some (pa / SIZE_4_KIB) := by
  have hdvd : SIZE_4_KIB ∣ pa := by
    have haligned := entry.aligned
    rcases haddr with haddr | haddr <;> rw [haddr] at haligned
    · exact (c.dvd_add_mask (by decide)).mp haligned
    · exact haligned
  have hlt : pa + offset < 2 ^ 39 := by
    obtain ⟨k, rfl⟩ := hdvd
    unfold SIZE_4_KIB at hoffset hpa ⊢
    omega
  have hphys : andNot (entry.addr.raw + offset) c.mask = pa + offset := by
    rcases haddr with haddr | haddr <;> rw [haddr]
    · rw [Nat.add_right_comm, c.andNot_add_mask hlt]
    · exact c.andNot_mask hlt
  have hdiv : (pa + offset) / SIZE_4_KIB = pa / SIZE_4_KIB := by
    obtain ⟨k, rfl⟩ := hdvd
    rw [Nat.mul_add_div (by decide), Nat.div_eq_of_lt hoffset, Nat.mul_div_cancel_left _ (by decide),
      Nat.add_zero]
  rw [leafFrame, Mapping.leaf, if_pos hpresent, Option.map_some, Mapping.frame]
  simp only [Mapping.leaf.digits, Nat.mul_zero, Nat.add_zero, hphys, hdiv]

def asLeaf (entry : PageTableEntry) (rest : List (Fin 512)) : Option (PageTableEntry × List (Fin 512)) :=
  if entry.flags.present then some (entry, rest) else none

theorem asLeaf_unused (rest : List (Fin 512)) : asLeaf .unused rest = none := rfl

namespace PageTables

variable (c : CBit) (tables : PageTables)

/-- The page of the memory that the processor finds at an address. -/
def frame? (addr : VirtAddr) : Option Nat := (tables.access c addr).map (Mapping.frame c)

/-- The entry that maps an address, with the indices that it leaves over: none if it maps 4 KiB. -/
def leaf? (addr : VirtAddr) : Option (PageTableEntry × List (Fin 512)) :=
  Radix.lookup (PageTableEntry.follow c) tables.mem (fun _ leaf => leaf) asLeaf tables.level4 addr.path

variable {c tables} {tables' : PageTables}

theorem frame?_eq (addr : VirtAddr) : tables.frame? c addr =
    (tables.leaf? c addr).bind fun leaf => leafFrame c (addr.raw % SIZE_4_KIB) leaf.1 leaf.2 := by
  have hframe : tables.frame? c addr = Radix.lookup (PageTableEntry.follow c) tables.mem
      (fun _ frame => frame) (leafFrame c (addr.raw % SIZE_4_KIB)) tables.level4 addr.path := by
    apply Radix.lookup_map (g := Option.map (Mapping.frame c)) rfl
    · intro entry mapping
      cases mapping <;> rfl
    · intro entry rest
      rfl
  rw [hframe]
  symm
  apply Radix.lookup_map (g := fun leaf : Option (PageTableEntry × List (Fin 512)) =>
    leaf.bind fun leaf => leafFrame c (addr.raw % SIZE_4_KIB) leaf.1 leaf.2) rfl
  · intro entry leaf
    rfl
  · intro entry rest
    by_cases hpresent : entry.flags.present = true
    · rw [asLeaf, if_pos hpresent, Option.bind_some]
    · rw [asLeaf, if_neg hpresent, Option.bind_none, leafFrame, Mapping.leaf, if_neg hpresent, Option.map_none]

theorem frame?_congr {addr : VirtAddr} (h : tables'.leaf? c addr = tables.leaf? c addr) :
    tables'.frame? c addr = tables.frame? c addr := by
  rw [frame?_eq, frame?_eq, h]

theorem frame?_of_leaf? {addr : VirtAddr} {entry : PageTableEntry} {rest : List (Fin 512)}
    (h : tables.leaf? c addr = some (entry, rest)) :
    tables.frame? c addr = leafFrame c (addr.raw % SIZE_4_KIB) entry rest := by
  rw [frame?_eq, h, Option.bind_some]

theorem frame?_of_none {addr : VirtAddr} (h : tables.leaf? c addr = none) : tables.frame? c addr = none := by
  rw [frame?_eq, h, Option.bind_none]

end PageTables

/-- What an entry of a table at the end of `depth` pointers may be. -/
structure PageTableEntry.Tidy (c : CBit) (depth : Nat) (entry : PageTableEntry) : Prop where
  pointer : depth ≤ 2 → entry.IsPointer → ∃ below : VirtAddr, below.InWindow ∧
    SIZE_4_KIB ∣ below.raw ∧ entry.addr.raw = below.raw - SHIM_VIRT_OFFSET + c.mask
  level4 : depth = 0 → entry.flags.present = true → entry.flags.hugePage = false
  huge : 1 ≤ depth → depth ≤ 2 → entry.flags.present = true → entry.flags.hugePage = true →
    ∃ pa, pa < 2 ^ 39 ∧ pageSize depth ∣ pa ∧ entry.addr.raw = pa + c.mask
  present : entry = .unused ∨ entry.flags.present = true
  small : depth = 3 → entry.flags.present = true →
    ∃ pa, pa < 2 ^ 39 ∧ (entry.addr.raw = pa + c.mask ∨ entry.addr.raw = pa)

theorem PageTableEntry.Tidy.unused (c : CBit) (depth : Nat) : PageTableEntry.unused.Tidy c depth where
  pointer _ h := absurd h.1 Bool.false_ne_true
  level4 _ _ := rfl
  huge _ _ h := absurd h Bool.false_ne_true
  present := .inl rfl
  small _ h := absurd h Bool.false_ne_true

theorem PageTableEntry.IsPointer.tidy {c : CBit} {depth : Nat} {entry : PageTableEntry} (h : entry.IsPointer)
    (hdepth : depth ≤ 2) {below : VirtAddr} (hwindow : below.InWindow) (haligned : SIZE_4_KIB ∣ below.raw)
    (haddr : entry.addr.raw = below.raw - SHIM_VIRT_OFFSET + c.mask) : entry.Tidy c depth where
  pointer _ _ := ⟨below, hwindow, haligned, haddr⟩
  level4 _ _ := h.2
  huge _ _ _ hhuge := absurd (h.2.symm.trans hhuge) Bool.false_ne_true
  present := .inr h.1
  small hlast := absurd hlast (by omega)

namespace PageTables

structure Tidy (c : CBit) (tables : PageTables) : Prop extends tables.Made c (PageTableEntry.Tidy c) where
  level4 : tables.level4.InWindow ∧ SIZE_4_KIB ∣ tables.level4.raw

section

variable {c : CBit} {tables : PageTables} {mem : VirtAddr → PageTable}
  (hmem : ∀ {path table}, path.length ≤ 3 → tables.tableAt c path = some table →
    mem table = tables.mem table)
include hmem

theorem tableAt_outside {path : List (Fin 512)} (hpath : path.length ≤ 3) :
    (tables.withMem mem).tableAt c path = tables.tableAt c path := by
  apply Radix.tableAt_congr
  rintro p i q rfl table htable
  rw [List.length_append, List.length_cons] at hpath
  exact congrFun (hmem (by omega) htable) i

theorem leaf?_outside (addr : VirtAddr) : (tables.withMem mem).leaf? c addr = tables.leaf? c addr := by
  apply Radix.lookup_congr
  intro p i q hpath table htable
  have hlength := congrArg List.length hpath
  rw [VirtAddr.length_path, List.length_append, List.length_cons] at hlength
  exact congrFun (hmem (by omega) htable) i

theorem Tidy.outside (h : tables.Tidy c) : (tables.withMem mem).Tidy c where
  tree := by
    intro p q table hp hq hptable hqtable
    exact h.tree p q table hp hq ((tableAt_outside hmem hp).symm.trans hptable)
      ((tableAt_outside hmem hq).symm.trans hqtable)
  level4 := h.level4
  entries := by
    intro path table index hpath htable
    rw [tableAt_outside hmem hpath] at htable
    have hentry : (tables.withMem mem).entry table index = tables.entry table index :=
      congrFun (hmem hpath htable) index
    rw [hentry]
    exact h.entries index hpath htable

end

section

variable {c : CBit} {tables : PageTables} {path : List (Fin 512)} {table : VirtAddr}
  {index : Fin 512} {entry : PageTableEntry}

def store (tables : PageTables) (table : VirtAddr) (index : Fin 512) (entry : PageTableEntry) :
    PageTables := tables.withMem (Radix.set tables.mem table index entry)

theorem Tidy.store_entries (h : tables.Tidy c) (hpath : path.length ≤ 3)
    (htable : tables.tableAt c path = some table) (hentry : entry.Tidy c path.length)
    (htableAt : ∀ p : List (Fin 512), p.length ≤ 3 →
      (tables.store table index entry).tableAt c p = tables.tableAt c p) :
    (tables.store table index entry).Tidy c where
  tree := by
    intro p q other hp hq hpother hqother
    exact h.tree p q other hp hq ((htableAt p hp).symm.trans hpother) ((htableAt q hq).symm.trans hqother)
  level4 := h.level4
  entries := by
    intro p other j hp hother
    rw [htableAt p hp] at hother
    by_cases hsame : p = path ∧ j = index
    · obtain ⟨rfl, rfl⟩ := hsame
      cases hother.symm.trans htable
      have hnew : (tables.store table j entry).entry table j = entry :=
        Radix.set_same tables.mem table j entry
      rw [hnew]
      exact hentry
    · have hold : (tables.store table index entry).entry other j = tables.entry other j :=
        h.tree.set_ne htable hpath hp hother hsame
      rw [hold]
      exact h.entries j hp hother

section

variable (h : tables.Tidy c) (hpath : path.length ≤ 2) (htable : tables.tableAt c path = some table)
  (hfollow : entry.follow c = (tables.entry table index).follow c)
include h hpath htable hfollow

theorem follow_store {p : List (Fin 512)} {other : VirtAddr} (j : Fin 512) (hp : p.length ≤ 3)
    (hother : tables.tableAt c p = some other) :
    (Radix.set tables.mem table index entry other j).follow c = (tables.mem other j).follow c := by
  by_cases hsame : p = path ∧ j = index
  · obtain ⟨rfl, rfl⟩ := hsame
    cases hother.symm.trans htable
    rw [Radix.set_same]
    exact hfollow
  · rw [h.tree.set_ne htable (by omega) hp hother hsame]

theorem tableAt_repoint {p : List (Fin 512)} (hp : p.length ≤ 3) :
    (tables.store table index entry).tableAt c p = tables.tableAt c p := by
  apply Radix.tableAt_congr_follow
  rintro p' j q rfl other hother
  rw [List.length_append, List.length_cons] at hp
  exact follow_store h hpath htable hfollow j (by omega) hother

theorem leaf?_repoint (hsome : ((tables.entry table index).follow c).isSome) (addr : VirtAddr) :
    (tables.store table index entry).leaf? c addr = tables.leaf? c addr := by
  apply Radix.lookup_congr_follow
  intro p j q hsplit other hother
  have hlength := congrArg List.length hsplit
  rw [VirtAddr.length_path, List.length_append, List.length_cons] at hlength
  refine ⟨follow_store h hpath htable hfollow j (by omega) hother, rfl, fun hleaf => ?_⟩
  by_cases hsame : p = path ∧ j = index
  · obtain ⟨rfl, rfl⟩ := hsame
    cases hother.symm.trans htable
    rcases hleaf with rfl | hnone
    · simp only [List.length_nil] at hlength
      omega
    · rw [PageTables.entry, hnone] at hsome
      cases hsome
  · exact congrArg (asLeaf · q) (h.tree.set_ne htable (by omega) (by omega) hother hsame)

end

section

variable (h : tables.Tidy c) (hpath : path.length = 3) (htable : tables.tableAt c path = some table)
include h hpath htable

theorem tableAt_store {p : List (Fin 512)} (hp : p.length ≤ 3) :
    (tables.store table index entry).tableAt c p = tables.tableAt c p :=
  h.tree.tableAt_set htable hpath hp

theorem Tidy.store (hentry : entry.Tidy c 3) : (tables.store table index entry).Tidy c :=
  h.store_entries hpath.le htable (hpath ▸ hentry) fun _ hp => tableAt_store h hpath htable hp

theorem leaf?_store (addr : VirtAddr) : (tables.store table index entry).leaf? c addr =
      if addr.path = path ++ [index] then asLeaf entry [] else tables.leaf? c addr := by
  split
  · next haddr =>
    rw [leaf?, haddr]
    refine (h.tree.lookup_set_same htable hpath).trans ?_
    exact Radix.along_id _
  · next haddr => exact h.tree.lookup_set_ne htable hpath addr.length_path haddr

omit h hpath in
theorem leaf?_of_path {addr : VirtAddr} (haddr : addr.path = path ++ [index]) :
    tables.leaf? c addr = asLeaf (tables.entry table index) [] := by
  rw [leaf?, haddr, Radix.lookup_append htable (List.cons_ne_nil index []), Radix.lookup_singleton,
    Radix.along_id]
  rfl

end

end

def addTable (tables : PageTables) (table : VirtAddr) (index : Fin 512) (new : VirtAddr)
    (pointer : PageTableEntry) : PageTables := tables.graft table index new pointer fun _ => .unused

structure Adds (c : CBit) (tables : PageTables) (path : List (Fin 512)) (table : VirtAddr)
    (index : Fin 512) (new : VirtAddr) (pointer : PageTableEntry) : Prop where
  length_le : path.length ≤ 2
  tableAt_eq : tables.tableAt c path = some table
  unused : tables.entry table index = .unused
  inWindow : new.InWindow
  aligned : SIZE_4_KIB ∣ new.raw
  fresh : ∀ p, p.length ≤ 3 → tables.tableAt c p ≠ some new
  isPointer : pointer.IsPointer
  addr_eq : pointer.addr.raw = new.raw - SHIM_VIRT_OFFSET + c.mask

namespace Adds

variable {c : CBit} {tables : PageTables} {path : List (Fin 512)} {table new : VirtAddr}
  {index : Fin 512} {pointer : PageTableEntry} (ha : Adds c tables path table index new pointer)
include ha

theorem grafts : Grafts c tables path table index new pointer fun _ => .unused where
  path_lt := Nat.lt_succ_of_le ha.length_le
  tableAt_eq := ha.tableAt_eq
  fresh := ha.fresh
  follow_entry := by
    have hunused := ha.unused
    rw [entry] at hunused
    rw [hunused]
    exact PageTableEntry.follow_of_absent c rfl
  follow_pointer := by
    rw [PageTableEntry.follow, if_pos ha.isPointer]
    exact frameToPointer_eq c ha.inWindow ha.addr_eq
  follow_pages _ _ := PageTableEntry.follow_of_absent c rfl

theorem tidy (h : tables.Tidy c) : (tables.addTable table index new pointer).Tidy c where
  toMade := ha.grafts.made h.toMade (ha.isPointer.tidy ha.length_le ha.inWindow ha.aligned ha.addr_eq)
    fun _ => .unused c _
  level4 := h.level4

theorem leaf?_after (h : tables.Tidy c) (addr : VirtAddr) :
    (tables.addTable table index new pointer).leaf? c addr = tables.leaf? c addr := by
  refine ha.grafts.lookup_eq h.tree (fun j rest _ => ?_) addr
  have hunused := ha.unused
  rw [entry] at hunused
  rw [hunused, asLeaf_unused, asLeaf_unused]

end Adds

theorem exists_asLeaf (c : CBit) (tables : PageTables) (addr : VirtAddr) : ∃ path index rest table,
    addr.path = path ++ index :: rest ∧ tables.tableAt c path = some table ∧
      tables.leaf? c addr = asLeaf (tables.entry table index) rest := by
  have hne : addr.path ≠ [] := List.cons_ne_nil _ _
  obtain ⟨path, index, rest, table, hpath, htable, hstop⟩ :=
    Radix.exists_leaf (PageTableEntry.follow c) tables.mem tables.level4 hne
  refine ⟨path, index, rest, table, hpath, htable, ?_⟩
  rw [PageTables.leaf?, hpath, Radix.lookup_append htable (List.cons_ne_nil _ _), Radix.along_id]
  by_cases hrest : rest = []
  · rw [hrest, Radix.lookup_singleton]
    rfl
  · exact Radix.lookup_leaf (hstop hrest)

theorem lastTable_of_leaf? {c : CBit} {tables : PageTables} {addr : VirtAddr} {entry : PageTableEntry}
    (h : tables.leaf? c addr = some (entry, [])) :
    ∃ table, tables.tableAt c addr.stem = some table ∧ tables.entry table addr.p1Index = entry := by
  obtain ⟨path, index, rest, table, hpath, htable, hleaf⟩ := exists_asLeaf c tables addr
  rw [hleaf, asLeaf] at h
  split at h
  · cases h
    obtain ⟨rfl, hindex⟩ := List.append_inj' (addr.path_eq_stem.symm.trans hpath) rfl
    obtain ⟨rfl, -⟩ := List.cons.inj hindex
    exact ⟨table, htable, rfl⟩
  · cases h

end PageTables

end Enarx.Kvm
