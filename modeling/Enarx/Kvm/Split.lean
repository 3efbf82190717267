import Enarx.Kvm.Pagetables
import Mathlib.Order.Fin.Basic

/-!
# Splitting a large page

What `smash` writes: a table of smaller pages that lead where the page led, and a
pointer to it that has the C-bit of the page. With the C-bit the processor sees no
difference.
-/
namespace Enarx.Kvm

open Shim

section

variable {state : State} {table below : VirtAddr} {index : Fin 512} {c : CBit}

theorem unwrap_some (value : α) : (unwrap (some value) : Shim ε α) state = (.ok value, state) := rfl

theorem get_apply : (get : Shim ε State) state = (.ok state, state) := rfl

theorem entry_apply : (entry table index : Shim ε PageTableEntry) state =
    (.ok (state.tables.entry table index), state) := rfl

variable {entry : PageTableEntry}

theorem follow_some (h : entry.follow c = some below) :
    entry.IsPointer ∧ frameToPointer c entry.addr = some below := by
  unfold PageTableEntry.follow at h
  split at h
  · next hpointer => exact ⟨hpointer, h⟩
  · cases h

theorem nextTable_of_follow (h : entry.follow c = some below) : nextTable c entry = some (.table below) := by
  obtain ⟨hpointer, hframe⟩ := follow_some h
  rw [nextTable, PageTableEntry.frame_pointer hpointer]
  simp [hframe]

theorem nextTable_of_absent (h : entry.flags.present = false) : nextTable c entry = some .notMapped := by
  simp [nextTable, PageTableEntry.frame, h]

theorem nextTable_of_huge (h : entry.flags.present = true)
    (hhuge : entry.flags.hugePage = true) : nextTable c entry = some .mappedToHugePage := by
  simp [nextTable, PageTableEntry.frame, h, hhuge]

theorem tableBelow_eq (h : (state.tables.entry table index).follow c = some below) :
    (tableBelow c table index : Shim ε VirtAddr) state = (.ok below, state) := by
  obtain ⟨hpointer, hframe⟩ := follow_some h
  rw [tableBelow, Exec.bind_of_ok entry_apply, PageTableEntry.frame_pointer hpointer]
  simp only [hframe, unwrap_some]

def State.withMem (state : State) (mem : VirtAddr → PageTable) : State :=
  { state with tables := { state.tables with mem } }

@[simp] theorem State.withMem_mem (mem : VirtAddr → PageTable) : (state.withMem mem).tables.mem = mem := rfl

@[simp] theorem State.withMem_withMem (mem mem' : VirtAddr → PageTable) :
    (state.withMem mem).withMem mem' = state.withMem mem' := rfl

theorem store_apply (entry : PageTableEntry) : (store table index entry : Shim ε Unit) state =
    (.ok (), state.withMem (Radix.set state.tables.mem table index entry)) := rfl

theorem fillTable_eq {oldAddr : PhysAddr} {step : Nat} {flags : PageTableFlags} {entries : PageTable}
    (h : ∀ i : Fin 512, (oldAddr.add (i * step)).bind (PageTableEntry.setAddr · flags) =
      some (entries i)) (indices : List (Fin 512)) :
    (fillTable table oldAddr step flags indices : Shim ε Unit) state =
      (.ok (), state.withMem (Function.update state.tables.mem table fun i =>
        if i ∈ indices then entries i else state.tables.mem table i)) := by
  induction indices generalizing state with
  | nil => simp [fillTable, State.withMem, Exec.pure_apply]
  | cons i rest ih =>
    obtain ⟨addr, haddr, hentry⟩ := Option.bind_eq_some_iff.mp (h i)
    rw [fillTable, haddr, Exec.bind_of_ok (unwrap_some addr), hentry,
      Exec.bind_of_ok (unwrap_some (entries i)), Exec.bind_of_ok (store_apply (entries i)), ih]
    rw [State.withMem_withMem, State.withMem_mem]
    congr 2
    funext other j
    by_cases hother : other = table
    · subst hother
      by_cases hj : j = i
      · subst hj
        simp [Radix.set]
      · simp [Radix.set, hj]
    · simp [Radix.set, hother]

end

/-- The bytes that an entry maps in a table that `depth` pointers lead to. -/
def pageSize (depth : Nat) : Nat := SIZE_4_KIB * 512 ^ (3 - depth)

theorem pageSize_succ {depth : Nat} (h : depth ≤ 2) : pageSize depth = 512 * pageSize (depth + 1) := by
  rw [pageSize, pageSize, show 3 - depth = 3 - (depth + 1) + 1 by omega, pow_succ]
  ring

theorem pageSize_two : pageSize 2 = BYTES_2_MIB := by decide

theorem pageSize_three : pageSize 3 = SIZE_4_KIB := by decide

theorem pageSize_pos (depth : Nat) : 0 < pageSize depth :=
  Nat.mul_pos (by decide) (Nat.pow_pos (by decide))

theorem dvd_pageSize (depth : Nat) : SIZE_4_KIB ∣ pageSize depth := Nat.dvd_mul_right _ _

theorem pageSize_dvd (depth : Nat) : pageSize depth ∣ 2 ^ 39 := by
  rw [show 2 ^ 39 = SIZE_4_KIB * 512 ^ 3 by decide]
  exact Nat.mul_dvd_mul_left _ (Nat.pow_dvd_pow 512 (Nat.sub_le 3 depth))

theorem add_le_of_dvd {size start total : Nat} (hstart : size ∣ start) (htotal : size ∣ total)
    (h : start < total) : start + size ≤ total := by
  have hle := Nat.le_of_dvd (Nat.sub_pos_of_lt h) (Nat.dvd_sub htotal hstart)
  omega

namespace CBit

variable (c : CBit)

theorem and_mask_cases (raw : Nat) : raw &&& c.mask = 0 ∨ raw &&& c.mask = c.mask := by
  rcases c.position with h | ⟨k, -, -, h⟩ <;> rw [h]
  · exact .inl (Nat.and_zero raw)
  · rw [Nat.and_two_pow]
    cases raw.testBit k <;> simp

theorem or_and_mask {pa : Nat} (h : pa < 2 ^ 39) (raw : Nat) :
    pa ||| (raw &&& c.mask) = pa + (raw &&& c.mask) := by
  rcases c.and_mask_cases raw with hnone | hall
  · rw [hnone, Nat.or_zero, Nat.add_zero]
  · rw [hall, c.or_mask h]

theorem add_and_mask_lt {pa : Nat} (h : pa < 2 ^ 39) (raw : Nat) : pa + (raw &&& c.mask) < 2 ^ 52 :=
  Nat.lt_of_le_of_lt (Nat.add_le_add_left Nat.and_le_right pa) (c.add_mask_lt h)

theorem dvd_and_mask {size : Nat} (hsize : size ∣ 2 ^ 39) (raw : Nat) : size ∣ raw &&& c.mask := by
  rcases c.and_mask_cases raw with hnone | hall
  · rw [hnone]
    exact Nat.dvd_zero size
  · rw [hall]
    exact Nat.dvd_trans hsize c.dvd_mask

end CBit

namespace PageTables

theorem tableAt_snoc {c : CBit} {tables : PageTables} {path : List (Fin 512)} {table : VirtAddr}
    (h : tables.tableAt c path = some table) (index : Fin 512) :
    tables.tableAt c (path ++ [index]) = (tables.entry table index).follow c :=
  Radix.tableAt_snoc h index

/-- The tables form a tree, and every entry is what it may be at the end of so many pointers. -/
structure Made (c : CBit) (P : Nat → PageTableEntry → Prop) (tables : PageTables) : Prop where
  tree : tables.IsTree c
  entries : ∀ {path table} (index : Fin 512), path.length ≤ 3 → tables.tableAt c path = some table →
    P path.length (tables.entry table index)

def withMem (tables : PageTables) (mem : VirtAddr → PageTable) : PageTables := { tables with mem }

def graft (tables : PageTables) (table : VirtAddr) (index : Fin 512) (new : VirtAddr)
    (pointer : PageTableEntry) (pages : PageTable) : PageTables :=
  tables.withMem (Radix.graft tables.mem table index pointer new pages)

structure Grafts (c : CBit) (tables : PageTables) (path : List (Fin 512)) (table : VirtAddr)
    (index : Fin 512) (new : VirtAddr) (pointer : PageTableEntry) (pages : PageTable) : Prop where
  path_lt : path.length < 3
  tableAt_eq : tables.tableAt c path = some table
  fresh : ∀ p, p.length ≤ 3 → tables.tableAt c p ≠ some new
  follow_entry : (tables.mem table index).follow c = none
  follow_pointer : pointer.follow c = some new
  follow_pages : path.length + 2 ≤ 3 → ∀ j, (pages j).follow c = none

namespace Grafts

variable {c : CBit} {tables : PageTables} {path : List (Fin 512)} {table new : VirtAddr}
  {index : Fin 512} {pointer : PageTableEntry} {pages : PageTable}
  (hg : Grafts c tables path table index new pointer pages)
include hg

variable {addr : VirtAddr} {β : Type} {node : PageTableEntry → β → β} {leaf : PageTableEntry → List (Fin 512) → β}

theorem exists_rest (hstem : path ++ [index] <+: addr.path) :
    ∃ j rest, addr.path = path ++ index :: j :: rest ∧ path.length + rest.length = 2 := by
  obtain ⟨q, hq⟩ := hstem
  have hlen := congrArg List.length hq
  have := hg.path_lt
  rw [VirtAddr.length_path, List.length_append, List.length_append, List.length_singleton] at hlen
  rcases q with _ | ⟨j, rest⟩
  · simp only [List.length_nil] at hlen
    omega
  · refine ⟨j, rest, by rw [← hq]; simp, ?_⟩
    rw [List.length_cons] at hlen
    omega

theorem entry_new (j : Fin 512) : (tables.graft table index new pointer pages).entry new j = pages j := by
  have hne : new ≠ table := fun heq => hg.fresh path hg.path_lt.le (heq ▸ hg.tableAt_eq)
  exact congrFun (Radix.graft_new tables.mem index pointer pages hne) j

variable (htree : tables.IsTree c)
include htree

theorem tableAt_after {p : List (Fin 512)} (hp : p.length ≤ 3) {other : VirtAddr} :
    (tables.graft table index new pointer pages).tableAt c p = some other ↔
      tables.tableAt c p = some other ∨ p = path ++ [index] ∧ other = new :=
  htree.tableAt_graft hg.tableAt_eq hg.path_lt hg.fresh hg.follow_entry hg.follow_pointer
    hg.follow_pages hp

omit htree in
theorem made {P : Nat → PageTableEntry → Prop} (h : tables.Made c P) (hpointer : P path.length pointer)
    (hpages : ∀ j, P (path.length + 1) (pages j)) :
    (tables.graft table index new pointer pages).Made c P where
  tree := h.tree.graft hg.tableAt_eq hg.path_lt hg.fresh hg.follow_entry hg.follow_pointer hg.follow_pages
  entries := by
    intro p other j hp hother
    rcases (hg.tableAt_after h.tree hp).mp hother with hold | ⟨rfl, rfl⟩
    · by_cases hsame : p = path ∧ j = index
      · obtain ⟨rfl, rfl⟩ := hsame
        cases hold.symm.trans hg.tableAt_eq
        have hentry : (tables.graft table j new pointer pages).entry table j = pointer :=
          Radix.graft_same tables.mem table j pointer new pages
        rw [hentry]
        exact hpointer
      · have hkeep : (tables.graft table index new pointer pages).entry other j = tables.entry other j :=
          h.tree.graft_ne hg.tableAt_eq hg.path_lt hg.fresh hp hold hsame
        rw [hkeep]
        exact h.entries j hp hold
    · rw [hg.entry_new, List.length_append]
      exact hpages j

theorem lookup_below [Inhabited β] (node : PageTableEntry → β → β)
    (leaf : PageTableEntry → List (Fin 512) → β) {j : Fin 512} {rest : List (Fin 512)}
    (hrest : path.length + rest.length = 2) :
    Radix.lookup (PageTableEntry.follow c) (tables.graft table index new pointer pages).mem node leaf
        tables.level4 (path ++ index :: j :: rest) =
      Radix.along (PageTableEntry.follow c) tables.mem node tables.level4 path
        (node pointer (leaf (pages j) rest)) ∧
    Radix.lookup (PageTableEntry.follow c) tables.mem node leaf tables.level4 (path ++ index :: j :: rest) =
      Radix.along (PageTableEntry.follow c) tables.mem node tables.level4 path
        (leaf (tables.mem table index) (j :: rest)) := by
  refine ⟨htree.lookup_graft_below hg.tableAt_eq hg.path_lt hg.fresh hg.follow_pointer
    hg.follow_pages j (by omega), ?_⟩
  rw [Radix.lookup_append hg.tableAt_eq (List.cons_ne_nil index (j :: rest)),
    Radix.lookup_leaf hg.follow_entry]

theorem lookup_ne [Inhabited β] (h : ¬path ++ [index] <+: addr.path) :
    Radix.lookup (PageTableEntry.follow c) (tables.graft table index new pointer pages).mem node leaf
        tables.level4 addr.path =
      Radix.lookup (PageTableEntry.follow c) tables.mem node leaf tables.level4 addr.path :=
  htree.lookup_graft_ne hg.tableAt_eq hg.path_lt hg.fresh addr.length_path h

/-- Nothing changes for a lookup that finds the same in the new table. -/
theorem lookup_eq [Inhabited β]
   
    (h : ∀ j rest, path.length + rest.length = 2 →
      node pointer (leaf (pages j) rest) = leaf (tables.mem table index) (j :: rest)) (addr : VirtAddr) :
    Radix.lookup (PageTableEntry.follow c) (tables.graft table index new pointer pages).mem node leaf
        tables.level4 addr.path =
      Radix.lookup (PageTableEntry.follow c) tables.mem node leaf tables.level4 addr.path := by
  by_cases hstem : path ++ [index] <+: addr.path
  · obtain ⟨j, rest, hpath, hrest⟩ := hg.exists_rest hstem
    obtain ⟨hnew, hold⟩ := hg.lookup_below htree node leaf (j := j) hrest
    rw [hpath, hnew, hold, h j rest hrest]
  · exact hg.lookup_ne htree hstem

end Grafts

/-- The flags of the pages of a new table: those of 2 MiB are large pages themselves. -/
def splitFlags (depth : Nat) (flags : PageTableFlags) : PageTableFlags :=
  if depth = 1 then flags else flags.withoutHuge

structure Large (c : CBit) (tables : PageTables) (path : List (Fin 512)) (table : VirtAddr)
    (index : Fin 512) (new : VirtAddr) : Prop where
  one_le : 1 ≤ path.length
  le_two : path.length ≤ 2
  tableAt_eq : tables.tableAt c path = some table
  present : (tables.entry table index).flags.present = true
  huge : (tables.entry table index).flags.hugePage = true
  dvd : pageSize path.length ∣ (tables.entry table index).addr.raw
  inWindow : new.InWindow
  aligned : SIZE_4_KIB ∣ new.raw
  fresh : ∀ p, p.length ≤ 3 → tables.tableAt c p ≠ some new

namespace Large

variable {c : CBit} {tables : PageTables} {path : List (Fin 512)} {table new : VirtAddr}
  {index : Fin 512} (hs : Large c tables path table index new)
include hs

theorem path_lt : path.length < 3 := Nat.lt_succ_of_le hs.le_two

theorem page_lt (i : Fin 512) :
    (tables.entry table index).addr.raw + i * pageSize (path.length + 1) < 2 ^ 52 := by
  have hi : i * pageSize (path.length + 1) < 512 * pageSize (path.length + 1) :=
    Nat.mul_lt_mul_of_pos_right i.isLt (pageSize_pos _)
  rw [← pageSize_succ hs.le_two] at hi
  have hle : (tables.entry table index).addr.raw + pageSize path.length ≤ 2 ^ 52 := by
    have hdvd : pageSize path.length ∣ 2 ^ 52 := Nat.dvd_trans (pageSize_dvd _) (by decide)
    exact add_le_of_dvd hs.dvd hdvd (tables.entry table index).addr.valid
  omega

def pages : PageTable := fun i =>
  ⟨⟨_, hs.page_lt i⟩, splitFlags path.length (tables.entry table index).flags,
    Nat.dvd_add (Nat.dvd_trans (dvd_pageSize _) hs.dvd) (Nat.dvd_mul_left_of_dvd (dvd_pageSize _) i)⟩

def pointer : PageTableEntry :=
  ⟨⟨_, c.add_and_mask_lt new.sub_offset_lt (tables.entry table index).addr.raw⟩,
    (tables.entry table index).flags.withoutHuge,
    Nat.dvd_add (Nat.dvd_sub hs.aligned (by decide)) (c.dvd_and_mask (by decide) _)⟩

def after : PageTables := tables.graft table index new hs.pointer hs.pages

theorem follow_entry : (tables.mem table index).follow c = none :=
  PageTableEntry.follow_of_huge c hs.huge

theorem pages_huge (hlast : path.length = 1) (j : Fin 512) : (hs.pages j).flags.hugePage = true := by
  change (splitFlags path.length (tables.entry table index).flags).hugePage = true
  rw [splitFlags, if_pos hlast, hs.huge]

theorem pages_present (j : Fin 512) : (hs.pages j).flags.present = true := by
  change (splitFlags path.length (tables.entry table index).flags).present = true
  rw [splitFlags]
  split <;> exact hs.present

theorem follow_pages (hlast : path.length + 2 ≤ 3) (j : Fin 512) : (hs.pages j).follow c = none :=
  PageTableEntry.follow_of_huge c (hs.pages_huge (by have := hs.one_le; omega) j)

theorem leaf_pages (offset : Nat) (j : Fin 512) {rest : List (Fin 512)}
    (hrest : path.length + rest.length = 2) :
    (Mapping.leaf offset (hs.pages j) rest).map (Mapping.restrict hs.pointer) =
      Mapping.leaf offset (tables.mem table index) (j :: rest) := by
  have hsize : pageSize (path.length + 1) = SIZE_4_KIB * 512 ^ rest.length := by
    rw [pageSize, show 3 - (path.length + 1) = rest.length by omega]
  have haddr : (hs.pages j).addr.raw = (tables.mem table index).addr.raw + j * pageSize (path.length + 1) := rfl
  have hflags : (hs.pages j).flags = splitFlags path.length (tables.mem table index).flags := rfl
  have hpointer : hs.pointer.flags = (tables.mem table index).flags.withoutHuge := rfl
  have hpresent : (tables.mem table index).flags.present = true := hs.present
  rw [Mapping.leaf, Mapping.leaf, if_pos (hs.pages_present j), if_pos hpresent, Option.map_some]
  simp only [Mapping.restrict, hflags, hpointer, haddr, Mapping.leaf.digits, hsize, Option.some.injEq,
    Mapping.mk.injEq]
  refine ⟨by ring, ?_⟩
  rw [splitFlags]
  split <;> simp [PageTableFlags.withoutHuge]

theorem tableAt_path (htree : tables.IsTree c) : hs.after.tableAt c path = some table :=
  htree.tableAt_graft_path hs.tableAt_eq hs.path_lt hs.fresh

theorem entry_path : hs.after.entry table index = hs.pointer :=
  Radix.graft_same tables.mem table index hs.pointer new hs.pages

section

variable (hcarries : (tables.entry table index).addr.raw &&& c.mask = c.mask)
include hcarries

theorem pointer_addr : hs.pointer.addr.raw = new.raw - SHIM_VIRT_OFFSET + c.mask :=
  congrArg (new.raw - SHIM_VIRT_OFFSET + ·) hcarries

theorem follow_pointer : hs.pointer.follow c = some new := by
  rw [PageTableEntry.follow, if_pos ⟨hs.present, rfl⟩]
  exact frameToPointer_eq c hs.inWindow (hs.pointer_addr hcarries)

theorem grafts : Grafts c tables path table index new hs.pointer hs.pages where
  path_lt := hs.path_lt
  tableAt_eq := hs.tableAt_eq
  fresh := hs.fresh
  follow_entry := hs.follow_entry
  follow_pointer := hs.follow_pointer hcarries
  follow_pages := hs.follow_pages

variable (htree : tables.IsTree c)
include htree

theorem access_after (addr : VirtAddr) : hs.after.access c addr = tables.access c addr :=
  (hs.grafts hcarries).lookup_eq htree (fun j _ hrest => hs.leaf_pages _ j hrest) addr

theorem level_after (addr : VirtAddr) : hs.after.level c addr =
      if path ++ [index] <+: addr.path then tables.level c addr - 1 else tables.level c addr := by
  have hg := hs.grafts hcarries
  split
  · next hstem =>
    obtain ⟨j, rest, hpath, hrest⟩ := hg.exists_rest hstem
    obtain ⟨hnew, hold⟩ := hg.lookup_below htree (fun _ level => level) (fun _ rest => rest.length)
      (j := j) hrest
    rw [Radix.along_id] at hnew hold
    rw [level, level, hpath, hold]
    exact hnew
  · next hstem => exact hg.lookup_ne htree hstem

end

end Large

end PageTables

theorem PageTables.Large.splitEntry {c : CBit} {state : State} {path : List (Fin 512)}
    {table new : VirtAddr} {index : Fin 512} {step : Nat} {pageFlags : PageTableFlags}
    (hs : Large c state.tables path table index new) (hstep : step = pageSize (path.length + 1))
    (hflags : pageFlags = splitFlags path.length (state.tables.entry table index).flags) :
    (Kvm.splitEntry c table index new step pageFlags
      (state.tables.entry table index).flags.withoutHuge : Shim ε Unit) state =
        (.ok (), state.withMem hs.after.mem) := by
  subst hstep hflags
  have hfill : ∀ i : Fin 512, ((state.tables.entry table index).addr.add
      (i * pageSize (path.length + 1))).bind
        (PageTableEntry.setAddr · (splitFlags path.length (state.tables.entry table index).flags)) =
        some (hs.pages i) := by
    intro i
    rw [PhysAddr.add_eq (show _ = (hs.pages i).addr.raw from rfl), Option.bind_some]
    exact PageTableEntry.setAddr_self _
  obtain ⟨virt, hvirt, hsub⟩ := VirtAddr.exists_sub_offset hs.inWindow
  have hphys : virt.raw < 2 ^ 39 := hvirt ▸ new.sub_offset_lt
  have hpointer : virt.raw ||| ((state.tables.entry table index).addr.raw &&& c.mask) =
      hs.pointer.addr.raw := by
    rw [c.or_and_mask hphys, hvirt]
    rfl
  rw [Kvm.splitEntry, Exec.bind_of_ok entry_apply, Exec.bind_of_ok (fillTable_eq hfill _), hsub,
    Exec.bind_of_ok (unwrap_some virt), PhysAddr.new, dif_pos (by omega),
    Exec.bind_of_ok (unwrap_some _), hpointer, PhysAddr.new_raw, Exec.bind_of_ok (unwrap_some _)]
  have hset := hs.pointer.setAddr_self
  rw [show hs.pointer.flags = (state.tables.entry table index).flags.withoutHuge from rfl] at hset
  rw [hset, Exec.bind_of_ok (unwrap_some _), store_apply]
  simp [after, graft, PageTables.withMem, Radix.graft]

end Enarx.Kvm
