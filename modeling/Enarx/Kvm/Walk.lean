import Enarx.Kvm.Edits
import Enarx.Kvm.Smash

/-!
# The walk to a page

How an address is translated by tidy tables, by the size of its page. `smash` and the
clearing of a small page keep the tables tidy, and change the mappings of the processor
exactly as they should.
-/
namespace Enarx.Kvm

open Shim

structure PageTableEntry.Linked (c : CBit) (depth : Nat) (entry : PageTableEntry) : Prop where
  pointer : depth ≤ 2 → entry.IsPointer → ∃ below, entry.follow c = some below
  level4 : depth = 0 → entry.flags.present = true → entry.flags.hugePage = false
  large : 1 ≤ depth → depth ≤ 2 → entry.flags.present = true → entry.flags.hugePage = true →
    pageSize depth ∣ entry.addr.raw

theorem PageTableEntry.Linked.cases {c : CBit} {depth : Nat} {entry : PageTableEntry} (h : entry.Linked c depth)
    (hdepth : depth ≤ 2) :
    entry.flags.present = false ∨ (entry.flags.present = true ∧ entry.flags.hugePage = true) ∨
      ∃ below, entry.follow c = some below := by
  cases hpresent : entry.flags.present with
  | false => exact .inl rfl
  | true =>
    cases hhuge : entry.flags.hugePage with
    | true => exact .inr (.inl ⟨rfl, rfl⟩)
    | false => exact .inr (.inr (h.pointer hdepth ⟨hpresent, hhuge⟩))

theorem PageTableEntry.Tidy.linked {c : CBit} {depth : Nat} {entry : PageTableEntry} (h : entry.Tidy c depth) :
    entry.Linked c depth where
  pointer hdepth hpointer := by
    obtain ⟨below, hwindow, -, haddr⟩ := h.pointer hdepth hpointer
    exact ⟨below, by rw [PageTableEntry.follow, if_pos hpointer, frameToPointer_eq c hwindow haddr]⟩
  level4 := h.level4
  large hlo hhi hpresent hhuge := by
    obtain ⟨pa, -, hdvd, haddr⟩ := h.huge hlo hhi hpresent hhuge
    rw [haddr]
    exact (c.dvd_add_mask (pageSize_dvd _)).mpr hdvd

namespace PageTables

/-- The tables form a tree whose pointers can be followed, and large pages are aligned. -/
def Linked (c : CBit) (tables : PageTables) : Prop := tables.Made c (PageTableEntry.Linked c)

theorem Tidy.linked {c : CBit} {tables : PageTables} (h : tables.Tidy c) : tables.Linked c :=
  ⟨h.tree, fun index hpath htable => (h.entries index hpath htable).linked⟩

theorem level_eq {c : CBit} {tables : PageTables} {addr : VirtAddr} (path : List (Fin 512)) {index : Fin 512}
    {rest : List (Fin 512)} {table : VirtAddr} (hpath : addr.path = path ++ index :: rest)
    (htable : tables.tableAt c path = some table)
    (hleaf : rest ≠ [] → (tables.mem table index).follow c = none) : tables.level c addr = rest.length := by
  rw [level, hpath, Radix.lookup_append htable (List.cons_ne_nil index rest), Radix.along_id]
  rcases rest with _ | ⟨j, rest⟩
  · rfl
  · exact Radix.lookup_leaf (hleaf (List.cons_ne_nil j rest))

/-- How an address is translated, by the size of its page. -/
inductive Walk (c : CBit) (tables : PageTables) (addr : VirtAddr) : Prop where
  | absent (haccess : tables.access c addr = none)
  | page1GiB {p3 : VirtAddr} (htable : tables.tableAt c [addr.p4Index] = some p3)
      (hpresent : (tables.entry p3 addr.p3Index).flags.present = true)
      (hhuge : (tables.entry p3 addr.p3Index).flags.hugePage = true)
      (hlevel : tables.level c addr = 2)
      (htranslate : tables.translate c addr = some (.mapped
        (.size1GiB (frameStart (tables.entry p3 addr.p3Index).addr BYTES_1_GIB))
        (addr.raw % BYTES_1_GIB) (tables.entry p3 addr.p3Index).flags))
  | page2MiB {p2 : VirtAddr} (htable : tables.tableAt c [addr.p4Index, addr.p3Index] = some p2)
      (hpresent : (tables.entry p2 addr.p2Index).flags.present = true)
      (hhuge : (tables.entry p2 addr.p2Index).flags.hugePage = true)
      (hlevel : tables.level c addr = 1)
      (htranslate : tables.translate c addr = some (.mapped
        (.size2MiB (frameStart (tables.entry p2 addr.p2Index).addr BYTES_2_MIB))
        (addr.raw % BYTES_2_MIB) (tables.entry p2 addr.p2Index).flags))
  | page4KiB {p1 : VirtAddr} (htable : tables.tableAt c addr.stem = some p1)
      (hpresent : (tables.entry p1 addr.p1Index).flags.present = true)
      (hlevel : tables.level c addr = 0)
      (htranslate : tables.translate c addr = some (.mapped
        (.size4KiB (tables.entry p1 addr.p1Index).addr.raw)
        (addr.raw % SIZE_4_KIB) (tables.entry p1 addr.p1Index).flags))

theorem access_of_absent {c : CBit} {tables : PageTables} {addr : VirtAddr}
    (path : List (Fin 512)) {rest : List (Fin 512)} {index : Fin 512} {table : VirtAddr}
    (hpath : addr.path = path ++ index :: rest) (htable : tables.tableAt c path = some table)
    (h : (tables.entry table index).flags.present = false) : tables.access c addr = none := by
  have hfollow : (tables.mem table index).follow c = none := PageTableEntry.follow_of_absent c h
  have hleaf : Mapping.leaf (addr.raw % SIZE_4_KIB) (tables.mem table index) rest = none := by
    rw [Mapping.leaf, if_neg]
    exact fun hpresent => Bool.false_ne_true (h.symm.trans hpresent)
  rw [access, hpath, Radix.lookup_append htable (List.cons_ne_nil index rest),
    Radix.lookup_leaf hfollow, hleaf]
  exact Radix.along_comm (g := fun _ => none) (fun _ _ => rfl) none

theorem Tidy.walk {c : CBit} {tables : PageTables} (h : tables.Tidy c) (addr : VirtAddr) : Walk c tables addr := by
  have hroot : tables.tableAt c [] = some tables.level4 := rfl
  have h4 := (h.entries addr.p4Index (by decide) hroot).linked
  rcases h4.cases (by decide) with habsent | ⟨hpresent, hhuge⟩ | ⟨p3, h4⟩
  · exact .absent (access_of_absent [] rfl hroot habsent)
  · exact absurd (h4.level4 rfl hpresent) (by rw [hhuge]; decide)
  have hp3 : tables.tableAt c [addr.p4Index] = some p3 := (tableAt_snoc hroot _).trans h4
  rcases (h.entries addr.p3Index (by simp) hp3).linked.cases (by simp) with habsent | ⟨hpresent, hhuge⟩ | ⟨p2, h3⟩
  · exact .absent (access_of_absent [_] rfl hp3 habsent)
  · apply Walk.page1GiB hp3 hpresent hhuge (level_eq [_] rfl hp3 fun _ => PageTableEntry.follow_of_huge c hhuge)
    simp [translate, nextTable_of_follow h4, nextTable_of_huge hpresent hhuge]
  have hp2 : tables.tableAt c [addr.p4Index, addr.p3Index] = some p2 := (tableAt_snoc hp3 _).trans h3
  rcases (h.entries addr.p2Index (by simp) hp2).linked.cases (by simp) with habsent | ⟨hpresent, hhuge⟩ | ⟨p1, h2⟩
  · exact .absent (access_of_absent [_, _] rfl hp2 habsent)
  · apply Walk.page2MiB hp2 hpresent hhuge (level_eq [_, _] rfl hp2 fun _ => PageTableEntry.follow_of_huge c hhuge)
    simp [translate, nextTable_of_follow h4, nextTable_of_follow h3, nextTable_of_huge hpresent hhuge]
  have hp1 : tables.tableAt c addr.stem = some p1 := (tableAt_snoc hp2 _).trans h2
  have haligned := Nat.mod_eq_zero_of_dvd (tables.entry p1 addr.p1Index).aligned
  rcases (h.entries addr.p1Index addr.length_stem.le hp1).present with hunused | hpresent
  · exact .absent (access_of_absent [_, _, _] rfl hp1 (by rw [hunused]; rfl))
  · have hused : tables.entry p1 addr.p1Index ≠ .unused := by
      intro hunused
      rw [hunused] at hpresent
      cases hpresent
    apply Walk.page4KiB hp1 hpresent (level_eq addr.stem rfl hp1 fun hne => absurd rfl hne)
    simp [translate, nextTable_of_follow h4, nextTable_of_follow h3, nextTable_of_follow h2, hused,
      PageTableEntry.isUnused, haligned]

namespace Large

variable {c : CBit} {tables : PageTables} {path : List (Fin 512)} {table new : VirtAddr}
  {index : Fin 512} (hs : Large c tables path table index new) (h : tables.Tidy c)
include hs h

theorem exists_addr : ∃ pa, pa < 2 ^ 39 ∧ pageSize path.length ∣ pa ∧
    (tables.entry table index).addr.raw = pa + c.mask :=
  (h.entries index hs.path_lt.le hs.tableAt_eq).huge hs.one_le hs.le_two hs.present hs.huge

theorem carries : (tables.entry table index).addr.raw &&& c.mask = c.mask := by
  obtain ⟨pa, hpa, -, haddr⟩ := hs.exists_addr h
  rw [haddr, c.add_mask_and hpa]

theorem tidy_pages (j : Fin 512) : (hs.pages j).Tidy c (path.length + 1) := by
  obtain ⟨pa, hpa, hdvd, haddr⟩ := hs.exists_addr h
  have hle := add_le_of_dvd hdvd (pageSize_dvd _) hpa
  have hlt : j * pageSize (path.length + 1) < 512 * pageSize (path.length + 1) :=
    Nat.mul_lt_mul_of_pos_right j.isLt (pageSize_pos _)
  rw [pageSize_succ hs.le_two] at hdvd hle
  have hpage : (hs.pages j).addr.raw = pa + j * pageSize (path.length + 1) + c.mask := by
    change (tables.entry table index).addr.raw + _ = _
    rw [haddr, Nat.add_right_comm]
  exact {
    pointer := fun hdepth hpointer => by
      have hhuge := hs.pages_huge (by have := hs.one_le; omega) j
      rw [hpointer.2] at hhuge
      cases hhuge
    level4 := fun hdepth => absurd hdepth (Nat.succ_ne_zero _)
    huge := fun _ _ _ _ => ⟨_, by omega,
      Nat.dvd_add (Nat.dvd_trans (Nat.dvd_mul_left _ _) hdvd) (Nat.dvd_mul_left _ _), hpage⟩
    present := .inr (hs.pages_present j)
    small := fun _ _ => ⟨_, by omega, .inl hpage⟩ }

theorem tidy : hs.after.Tidy c where
  toMade := by
    have hpointer : hs.pointer.IsPointer := ⟨hs.present, rfl⟩
    exact (hs.grafts (hs.carries h)).made h.toMade
      (hpointer.tidy hs.le_two hs.inWindow hs.aligned (hs.pointer_addr (hs.carries h))) (hs.tidy_pages h)
  level4 := h.level4

end Large

end PageTables

def Mapping.strip (c : CBit) (mapping : Mapping) : Mapping :=
  { mapping with phys := andNot mapping.phys c.mask }

namespace PageTables

structure Small (c : CBit) (tables : PageTables) (path : List (Fin 512)) (table : VirtAddr)
    (index : Fin 512) (pa : Nat) : Prop where
  length_eq : path.length = 3
  tableAt_eq : tables.tableAt c path = some table
  present : (tables.entry table index).flags.present = true
  pa_lt : pa < 2 ^ 39
  addr_eq : (tables.entry table index).addr.raw = pa + c.mask ∨
    (tables.entry table index).addr.raw = pa

namespace Small

variable {c : CBit} {tables : PageTables} {path : List (Fin 512)} {table : VirtAddr}
  {index : Fin 512} {pa : Nat} (hs : Small c tables path table index pa)
include hs

theorem dvd_pa : SIZE_4_KIB ∣ pa := by
  have haligned := (tables.entry table index).aligned
  rcases hs.addr_eq with haddr | haddr <;> rw [haddr] at haligned
  · exact (c.dvd_add_mask (by decide)).mp haligned
  · exact haligned

def cleared : PageTableEntry :=
  ⟨⟨pa, Nat.lt_trans hs.pa_lt (by decide)⟩, (tables.entry table index).flags, hs.dvd_pa⟩

def after : PageTables := tables.store table index hs.cleared

theorem andNot_addr : andNot (tables.entry table index).addr.raw c.mask = pa := by
  rcases hs.addr_eq with haddr | haddr <;> rw [haddr]
  · exact c.andNot_add_mask hs.pa_lt
  · exact c.andNot_mask hs.pa_lt

theorem tidy (h : tables.Tidy c) : hs.after.Tidy c :=
  h.store hs.length_eq hs.tableAt_eq {
    pointer := fun hdepth => absurd hdepth (by decide)
    level4 := fun hdepth => absurd hdepth (by decide)
    huge := fun _ hdepth => absurd hdepth (by decide)
    present := .inr hs.present
    small := fun _ _ => ⟨pa, hs.pa_lt, .inr rfl⟩ }

theorem leaf_cleared {offset : Nat} (hoffset : offset < SIZE_4_KIB) : Mapping.leaf offset hs.cleared [] =
      (Mapping.leaf offset (tables.mem table index) []).map (Mapping.strip c) := by
  have hpresent := hs.present
  have haddr := hs.addr_eq
  obtain ⟨k, hk⟩ := hs.dvd_pa
  have hlt : pa + offset < 2 ^ 39 := by
    have := hs.pa_lt
    unfold SIZE_4_KIB at hk hoffset
    omega
  have hphys : andNot ((tables.mem table index).addr.raw + offset) c.mask = pa + offset := by
    unfold entry at haddr
    rcases haddr with haddr | haddr <;> rw [haddr]
    · rw [Nat.add_right_comm, c.andNot_add_mask hlt]
    · exact c.andNot_mask hlt
  have hcleared : hs.cleared.flags.present = true := hpresent
  unfold entry at hpresent
  rw [Mapping.leaf, Mapping.leaf, if_pos hpresent, if_pos hcleared, Option.map_some]
  simp only [Mapping.strip, Mapping.leaf.digits, Nat.mul_zero, Nat.add_zero, hphys]
  rfl

theorem access_after (h : tables.Tidy c) (addr : VirtAddr) : hs.after.access c addr =
      if addr.path = path ++ [index] then (tables.access c addr).map (Mapping.strip c)
      else tables.access c addr := by
  split
  · next hpath =>
    have hoffset : addr.raw % SIZE_4_KIB < SIZE_4_KIB := Nat.mod_lt _ (by decide)
    rw [access, access, hpath, Radix.lookup_append hs.tableAt_eq (List.cons_ne_nil index []),
      Radix.lookup_singleton, ← Radix.along_comm (g := Option.map (Mapping.strip c)),
      ← hs.leaf_cleared hoffset]
    · exact h.tree.lookup_set_same hs.tableAt_eq hs.length_eq
    · intro entry mapping
      cases mapping <;> rfl
  · next hpath =>
    exact h.tree.lookup_set_ne hs.tableAt_eq hs.length_eq (VirtAddr.length_path addr) hpath

theorem level_after (h : tables.Tidy c) (addr : VirtAddr) : hs.after.level c addr = tables.level c addr := by
  by_cases hpath : addr.path = path ++ [index]
  · have hnew : Radix.lookup (PageTableEntry.follow c) hs.after.mem (fun _ level => level)
        (fun _ rest => rest.length) tables.level4 (path ++ [index]) = 0 :=
      (h.tree.lookup_set_same hs.tableAt_eq hs.length_eq).trans (Radix.along_id 0)
    rw [level, level, hpath, Radix.lookup_append hs.tableAt_eq (List.cons_ne_nil index []),
      Radix.lookup_singleton, Radix.along_id]
    exact hnew
  · exact h.tree.lookup_set_ne hs.tableAt_eq hs.length_eq (VirtAddr.length_path addr) hpath

end Small

end PageTables

end Enarx.Kvm
