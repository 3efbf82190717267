import Mathlib.Data.Fintype.Prod
import Enarx.Kvm.Walk

/-!
# Sharing memory with the host

Any sequence of requests to share pages changes the mappings of these pages and
of no other ones, as long as no request comes too close to the end of the
address space, where the arithmetic on addresses wraps.
-/
namespace Enarx.Kvm

open Shim PageTables

section

variable {ι : Type} [Fintype ι] [DecidableEq ι]

def pathsBelow (root : ι) : Finset (List ι) :=
  Finset.univ.image (fun i => [root, i]) ∪ Finset.univ.image fun ij : ι × ι => [root, ij.1, ij.2]

theorem card_pathsBelow_le (root : ι) :
    (pathsBelow root).card ≤ Fintype.card ι + Fintype.card ι * Fintype.card ι := by
  refine (Finset.card_union_le _ _).trans (Nat.add_le_add Finset.card_image_le ?_)
  exact Finset.card_image_le.trans (Fintype.card_prod ι ι).le

theorem mem_pathsBelow_iff {root : ι} {path : List ι} :
    path ∈ pathsBelow root ↔ (∃ i, [root, i] = path) ∨ ∃ i j, [root, i, j] = path := by
  simp [pathsBelow]

end

def TABLES : Nat := 512 + 512 * 512

@[irreducible] def splitPaths : Finset (List (Fin 512)) := pathsBelow 511

theorem card_splitPaths_le : splitPaths.card ≤ TABLES := by
  have hcard := card_pathsBelow_le (511 : Fin 512)
  unfold splitPaths
  rwa [Fintype.card_fin] at hcard

theorem mem_splitPaths_iff {path : List (Fin 512)} :
    path ∈ splitPaths ↔ (∃ i, [511, i] = path) ∨ ∃ i j, [511, i, j] = path := by
  unfold splitPaths
  exact mem_pathsBelow_iff

theorem length_of_mem_splitPaths {path : List (Fin 512)} (h : path ∈ splitPaths) : path.length ≤ 3 := by
  rcases mem_splitPaths_iff.mp h with ⟨i, rfl⟩ | ⟨i, j, rfl⟩ <;> simp

theorem mem_splitPaths {addr : VirtAddr} (h : addr.InWindow) : [addr.p4Index, addr.p3Index] ∈ splitPaths ∧
      [addr.p4Index, addr.p3Index, addr.p2Index] ∈ splitPaths := by
  rw [VirtAddr.inWindow_iff.mp h]
  exact ⟨mem_splitPaths_iff.mpr (.inl ⟨_, rfl⟩), mem_splitPaths_iff.mpr (.inr ⟨_, _, rfl⟩)⟩

def PageTables.usedPaths (c : CBit) (tables : PageTables) : Finset (List (Fin 512)) :=
  splitPaths.filter fun path => (tables.tableAt c path).isSome

/-- The allocator hands out pages that are not in use, as many as there can be tables; the
processor and the host do what they are asked for. -/
structure Machine.Works (machine : Machine) (boot : List VirtAddr) : Prop where
  alloc : ∀ n < TABLES, ∃ page, machine.tryAlloc n = some page ∧ page.InWindow ∧
    SIZE_4_KIB ∣ page.raw ∧ page ∉ boot
  distinct : ∀ m n page, machine.tryAlloc m = some page → machine.tryAlloc n = some page → m = n
  pvalidate : ∀ addr, machine.pvalidate addr = true
  pageStateChange : ∀ entries, machine.pageStateChange entries = true

/-- The tables are tidy, and every table is from the boot or from the allocator. -/
structure State.Inv (machine : Machine) (boot : List VirtAddr) (state : State) : Prop where
  tidy : state.tables.Tidy machine.cBit
  owned : ∀ {path table}, path.length ≤ 3 → state.tables.tableAt machine.cBit path = some table →
    table ∈ boot ∨ ∃ n, n < state.taken ∧ machine.tryAlloc n = some table
  /-- Every request to the allocator was for a table that is in use. -/
  taken_le : state.taken ≤ (state.tables.usedPaths machine.cBit).card

section

variable {machine : Machine} {boot : List VirtAddr} {state : State}

theorem State.Inv.exists_fresh (hm : machine.Works boot) (h : state.Inv machine boot)
    {missing : List (Fin 512)} (hmissing : missing ∈ splitPaths)
    (hnone : state.tables.tableAt machine.cBit missing = none) :
    ∃ page, machine.tryAlloc state.taken = some page ∧ page.InWindow ∧ SIZE_4_KIB ∣ page.raw ∧
      ∀ path, path.length ≤ 3 → state.tables.tableAt machine.cBit path ≠ some page := by
  have hlt : state.taken < TABLES := by
    refine Nat.lt_of_le_of_lt h.taken_le (Nat.lt_of_lt_of_le ?_ card_splitPaths_le)
    apply Finset.card_lt_card
    refine ⟨Finset.filter_subset _ _, fun hsubset => ?_⟩
    have hmem := (Finset.mem_filter.mp (hsubset hmissing)).2
    rw [hnone] at hmem
    cases hmem
  obtain ⟨page, hpage, hwindow, haligned, hnot⟩ := hm.alloc state.taken hlt
  refine ⟨page, hpage, hwindow, haligned, fun path hpath htable => ?_⟩
  rcases h.owned hpath htable with hboot | ⟨n, hn, hn'⟩
  · exact hnot hboot
  · exact absurd (hm.distinct _ _ page hn' hpage) (Nat.ne_of_lt hn)

variable {addr table current finish last : VirtAddr} {path : List (Fin 512)} {index : Fin 512}
  {after : State} {fuel : Nat} {c : CBit} {other new next : VirtAddr} {pa m : Nat}

theorem PageTables.level_congr {tables : PageTables}
    (h : other.path.take (4 - tables.level c addr) = addr.path.take (4 - tables.level c addr)) :
    tables.level c other = tables.level c addr := by
  obtain ⟨path, index, rest, table, hpath, htable, hleaf⟩ :=
    Radix.exists_leaf (PageTableEntry.follow c) tables.mem tables.level4
      (List.cons_ne_nil addr.p4Index [addr.p3Index, addr.p2Index, addr.p1Index])
  have hlevel : tables.level c addr = rest.length := level_eq path hpath htable hleaf
  have hlen : path.length + 1 + rest.length = 4 := by
    have := congrArg List.length hpath
    simp only [List.length_cons, List.length_nil, List.length_append] at this
    omega
  have htake : addr.path.take (4 - rest.length) = path ++ [index] := by
    have hpath' : addr.path = path ++ [index] ++ rest := by rw [List.append_assoc]; exact hpath
    rw [hpath', List.take_left' (by simp only [List.length_append, List.length_singleton]; omega)]
  rw [hlevel, htake] at h
  have hother : other.path = path ++ index :: other.path.drop (4 - rest.length) := by
    have hsplit := List.take_append_drop (4 - rest.length) other.path
    rw [h, List.append_assoc] at hsplit
    exact hsplit.symm
  have hdrop : (other.path.drop (4 - rest.length)).length = rest.length := by
    rw [List.length_drop, VirtAddr.length_path]
    omega
  rw [hlevel, ← hdrop]
  apply level_eq path hother htable
  intro hne
  apply hleaf
  intro hnil
  exact hne (List.eq_nil_of_length_eq_zero (hdrop.trans (congrArg List.length hnil)))

theorem State.Inv.split (h : state.Inv machine boot) (hnew : machine.tryAlloc state.taken = some new)
    (hs : Large machine.cBit state.tables path table index new) (hpath : path ++ [index] ∈ splitPaths) :
    (state.took.withMem hs.after.mem).Inv machine boot := by
  have hg := hs.grafts (hs.carries h.tidy)
  refine ⟨hs.tidy h.tidy, fun hp hother => ?_, ?_⟩
  · rcases (hg.tableAt_after h.tidy.tree hp).mp hother with hold | ⟨-, rfl⟩
    · rcases h.owned hp hold with hboot | ⟨n, hn, hpage⟩
      · exact .inl hboot
      · exact .inr ⟨n, Nat.lt_succ_of_lt hn, hpage⟩
    · exact .inr ⟨state.taken, Nat.lt_succ_self _, hnew⟩
  · have hnot : path ++ [index] ∉ state.tables.usedPaths machine.cBit := by
      intro hmem
      have hsome := (Finset.mem_filter.mp hmem).2
      rw [tableAt_snoc hs.tableAt_eq, PageTables.entry, hs.follow_entry] at hsome
      cases hsome
    have hsubset : insert (path ++ [index]) (state.tables.usedPaths machine.cBit) ⊆
        hs.after.usedPaths machine.cBit := by
      intro p hp
      rcases Finset.mem_insert.mp hp with rfl | hp
      · exact Finset.mem_filter.mpr ⟨hpath, Option.isSome_iff_exists.mpr
          ⟨new, (hg.tableAt_after h.tidy.tree (length_of_mem_splitPaths hpath)).mpr (.inr ⟨rfl, rfl⟩)⟩⟩
      · obtain ⟨hp, hsome⟩ := Finset.mem_filter.mp hp
        obtain ⟨other, hother⟩ := Option.isSome_iff_exists.mp hsome
        exact Finset.mem_filter.mpr ⟨hp, Option.isSome_iff_exists.mpr
          ⟨other, (hg.tableAt_after h.tidy.tree (length_of_mem_splitPaths hp)).mpr (.inl hother)⟩⟩
    have hcard := Finset.card_le_card hsubset
    rw [Finset.card_insert_of_notMem hnot] at hcard
    exact (Nat.add_le_add_right h.taken_le 1).trans hcard

/-- What `smash` does: every mapping stays, and the page of the address gets smaller. -/
structure Smashed (machine : Machine) (boot : List VirtAddr) (addr : VirtAddr)
    (before after : State) : Prop where
  inv : after.Inv machine boot
  access_eq : ∀ other, after.tables.access machine.cBit other =
    before.tables.access machine.cBit other
  level_le : ∀ other, after.tables.level machine.cBit other ≤
    before.tables.level machine.cBit other
  level_page : ∀ other : VirtAddr,
    other.path.take (4 - before.tables.level machine.cBit addr) =
        addr.path.take (4 - before.tables.level machine.cBit addr) →
      after.tables.level machine.cBit other ≤ before.tables.level machine.cBit other - 1

theorem Smashed.level_lt (h : Smashed machine boot addr state after) :
    after.tables.level machine.cBit addr ≤ state.tables.level machine.cBit addr - 1 :=
  h.level_page addr rfl

theorem Smashed.of_large (h : state.Inv machine boot) (hnew : machine.tryAlloc state.taken = some new)
    (hs : Large machine.cBit state.tables path table index new)
    (hpath : path ++ [index] ∈ splitPaths) (haddr : path ++ [index] <+: addr.path) :
    Smashed machine boot addr state (state.took.withMem hs.after.mem) := by
  have hlevels := hs.level_after (hs.carries h.tidy) h.tidy.tree
  refine ⟨h.split hnew hs hpath, hs.access_after (hs.carries h.tidy) h.tidy.tree, fun other => ?_,
    fun other hother => ?_⟩
  · refine (hlevels other).trans_le ?_
    split
    · exact Nat.sub_le _ _
    · exact le_rfl
  · have hlevel : state.tables.level machine.cBit addr + (path.length + 1) = 4 := by
      obtain ⟨rest, hrest⟩ := haddr
      have hlen := congrArg List.length hrest
      rw [List.append_assoc, List.singleton_append] at hrest
      rw [level_eq path hrest.symm hs.tableAt_eq fun _ => hs.follow_entry]
      simp only [List.length_append, List.length_singleton, VirtAddr.length_path] at hlen
      omega
    refine ((hlevels other).trans (if_pos ?_)).le
    rw [show 4 - state.tables.level machine.cBit addr = (path ++ [index]).length by
      simp only [List.length_append, List.length_singleton]; omega] at hother
    rw [List.prefix_iff_eq_take.mp haddr, ← hother]
    exact List.take_prefix _ _

/-- There is a page for the table that is to replace a large page. -/
theorem State.Inv.exists_large (hm : machine.Works boot) (h : state.Inv machine boot)
    (hpath : path ++ [index] ∈ splitPaths) (hlo : 1 ≤ path.length)
    (hhi : path.length ≤ 2) (htable : state.tables.tableAt machine.cBit path = some table)
    (hpresent : (state.tables.entry table index).flags.present = true)
    (hhuge : (state.tables.entry table index).flags.hugePage = true) :
    ∃ new, machine.tryAlloc state.taken = some new ∧ Large machine.cBit state.tables path table index new := by
  obtain ⟨new, hnew, hwindow, haligned, hfresh⟩ := h.exists_fresh hm hpath
    ((tableAt_snoc htable _).trans (PageTableEntry.follow_of_huge _ hhuge))
  have hdvd := (h.tidy.entries index (by omega) htable).linked.large hlo hhi hpresent hhuge
  exact ⟨new, hnew, hlo, hhi, htable, hpresent, hhuge, hdvd, hwindow, haligned, hfresh⟩

theorem smash_spec (hm : machine.Works boot) (h : state.Inv machine boot)
    (hwindow : addr.InWindow) (hmapped : (state.tables.access machine.cBit addr).isSome) :
    ∃ after, smash machine addr state = (.ok (), after) ∧ Smashed machine boot addr state after := by
  cases h.tidy.walk addr with
  | absent haccess =>
    rw [haccess] at hmapped
    cases hmapped
  | page4KiB _ _ hlevel htranslate =>
    refine ⟨state, smash_size4KiB htranslate, h, fun _ => rfl, fun _ => le_rfl, fun other hother => ?_⟩
    rw [level_congr hother, hlevel]
  | page2MiB htable hpresent hhuge _ htranslate =>
    obtain ⟨new, hnew, hs⟩ := h.exists_large hm (mem_splitPaths hwindow).2 (by simp) (by simp) htable hpresent hhuge
    exact ⟨_, smash_size2MiB htranslate hnew hs,
      .of_large h hnew hs (mem_splitPaths hwindow).2 ⟨[addr.p1Index], rfl⟩⟩
  | page1GiB htable hpresent hhuge _ htranslate =>
    obtain ⟨new, hnew, hs⟩ := h.exists_large hm (mem_splitPaths hwindow).1 (by simp) (by simp) htable hpresent hhuge
    exact ⟨_, smash_size1GiB htranslate hnew hs,
      .of_large h hnew hs (mem_splitPaths hwindow).1 ⟨[addr.p2Index, addr.p1Index], rfl⟩⟩

theorem clearEntry_eq (hs : Small c state.tables path table index pa) :
    (clearEntry c table index : Shim ε Unit) state = (.ok (), state.withMem hs.after.mem) := by
  have hphys : PhysAddr.new pa = some hs.cleared.addr := hs.cleared.addr.new_raw
  rw [clearEntry, Exec.bind_of_ok entry_apply, hs.andNot_addr, hphys,
    Exec.bind_of_ok (unwrap_some _)]
  have hset : PageTableEntry.setAddr hs.cleared.addr (state.tables.entry table index).flags =
      some hs.cleared := hs.cleared.setAddr_self
  rw [hset, Exec.bind_of_ok (unwrap_some _)]
  exact store_apply hs.cleared

theorem State.Inv.clear
    (h : state.Inv machine boot) (hs : Small machine.cBit state.tables path table index pa) :
    (state.withMem hs.after.mem).Inv machine boot where
  tidy := hs.tidy h.tidy
  owned := by
    intro p other hp hother
    have hold := (tableAt_store h.tidy hs.length_eq hs.tableAt_eq hp).symm.trans hother
    exact h.owned hp hold
  taken_le := by
    refine h.taken_le.trans (Finset.card_le_card fun p hp => ?_)
    obtain ⟨hp, hsome⟩ := Finset.mem_filter.mp hp
    refine Finset.mem_filter.mpr ⟨hp, ?_⟩
    have hsame : hs.after.tableAt machine.cBit p = state.tables.tableAt machine.cBit p :=
      tableAt_store h.tidy hs.length_eq hs.tableAt_eq (length_of_mem_splitPaths hp)
    exact (congrArg Option.isSome hsame).trans hsome

theorem exceeds_eq {offset size : Nat} (hnext : current.raw + size = next.raw) :
    (exceeds current finish offset size : Shim ε Bool) state =
      (.ok (decide (offset ≠ 0 ∨ next.raw > finish.raw)), state) := by
  unfold exceeds
  by_cases hoffset : offset = 0
  · rw [if_neg (by simp [hoffset]), VirtAddr.add_eq hnext, Exec.bind_of_ok (unwrap_some next)]
    simp [hoffset, Exec.pure_apply]
  · rw [if_pos hoffset]
    simp [hoffset, Exec.pure_apply]

theorem clear_small_step (h : state.Inv machine boot)
    (hmapped : (state.tables.access machine.cBit current).isSome)
    (hlevel : state.tables.level machine.cBit current = 0)
    (haligned : current.raw % SIZE_4_KIB = 0) (hnext : current.raw + SIZE_4_KIB = next.raw)
    (hfinish : next.raw ≤ finish.raw) :
    ∃ after, (∀ fuel, clearCBitAddressRange machine (fuel + 1) current finish state =
        clearCBitAddressRange machine fuel next finish after) ∧ after.Inv machine boot ∧
      (∀ other, after.tables.access machine.cBit other = if other.page = current.page then
          (state.tables.access machine.cBit other).map (Mapping.strip machine.cBit)
        else state.tables.access machine.cBit other) ∧
      ∀ other, after.tables.level machine.cBit other = state.tables.level machine.cBit other := by
  have hlt : ¬finish.raw ≤ current.raw := by
    unfold SIZE_4_KIB at hnext
    omega
  cases h.tidy.walk current with
  | absent haccess =>
    rw [haccess] at hmapped
    cases hmapped
  | page1GiB _ _ _ htwo => cases hlevel.symm.trans htwo
  | page2MiB _ _ _ hone => cases hlevel.symm.trans hone
  | page4KiB htable hpresent _ htranslate =>
    obtain ⟨pa, hlt, haddr⟩ := (h.tidy.entries current.p1Index current.length_stem.le htable).small rfl hpresent
    have hs : Small machine.cBit state.tables current.stem _ current.p1Index pa :=
      ⟨rfl, htable, hpresent, hlt, haddr⟩
    obtain ⟨p2, hp2, h2⟩ := exists_follow_last [_, _] htable
    obtain ⟨p3, h4, h3⟩ := exists_follow hp2
    refine ⟨state.withMem hs.after.mem, fun fuel => ?_, h.clear hs, fun other => ?_, hs.level_after h.tidy⟩
    · rw [clearCBitAddressRange, if_neg (by omega)]
      refine (Exec.bind_of_ok get_apply).trans ?_
      rw [htranslate, Exec.bind_of_ok (unwrap_some _)]
      dsimp only
      rw [Exec.bind_of_ok (exceeds_eq hnext), if_neg (by simp [haligned, hfinish]),
        Exec.bind_of_ok get_apply, Exec.bind_of_ok (tableBelow_eq h4),
        Exec.bind_of_ok (tableBelow_eq h3), Exec.bind_of_ok (tableBelow_eq h2),
        Exec.bind_of_ok (clearEntry_eq hs), VirtAddr.add_eq hnext, Exec.bind_of_ok (unwrap_some next)]
    · refine (hs.access_after h.tidy other).trans ?_
      simp only [← VirtAddr.path_eq_iff]
      rfl

/-- The first address of the last 2 MiB: the addition of 2 MiB wraps. -/
def LAST_2_MIB : Nat := 2 ^ 64 - BYTES_2_MIB

theorem clear_large_step (hm : machine.Works boot) (h : state.Inv machine boot)
    (hmapped : (state.tables.access machine.cBit current).isSome)
    (hlevel : state.tables.level machine.cBit current = 1) (hlt : current.raw < finish.raw)
    (hfinish : finish.raw < current.raw + BYTES_2_MIB) (hlast : current.raw ≠ LAST_2_MIB)
    (hwindow : current.InWindow) :
    ∃ after, (∀ fuel, clearCBitAddressRange machine (fuel + 1) current finish state =
        clearCBitAddressRange machine fuel current finish after) ∧
      Smashed machine boot current state after := by
  obtain ⟨after, hsmash, hsmashed⟩ := smash_spec hm h hwindow hmapped
  refine ⟨after, fun fuel => ?_, hsmashed⟩
  have hexceeds : (exceeds current finish (current.raw % BYTES_2_MIB) BYTES_2_MIB :
      Shim PagetablesError Bool) state = (.ok true, state) := by
    by_cases hoffset : current.raw % BYTES_2_MIB = 0
    · have hsum : current.raw + BYTES_2_MIB < 2 ^ 64 := by
        have := current.raw_lt
        unfold LAST_2_MIB at hlast
        unfold BYTES_2_MIB at hoffset hlast ⊢
        omega
      obtain ⟨next, hnext, -, -⟩ := VirtAddr.exists_add hwindow hsum
      rw [exceeds_eq hnext.symm, hnext]
      simp [hfinish]
    · rw [exceeds, if_pos hoffset]
      rfl
  cases h.tidy.walk current with
  | absent haccess =>
    rw [haccess] at hmapped
    cases hmapped
  | page1GiB _ _ _ htwo => cases hlevel.symm.trans htwo
  | page4KiB _ _ hzero => cases hlevel.symm.trans hzero
  | page2MiB _ _ _ _ htranslate =>
    rw [clearCBitAddressRange, if_neg (by omega)]
    refine (Exec.bind_of_ok get_apply).trans ?_
    rw [htranslate, Exec.bind_of_ok (unwrap_some _)]
    dsimp only
    rw [Exec.bind_of_ok hexceeds, if_pos rfl, Exec.bind_of_ok hsmash]

theorem clear_spec (hm : machine.Works boot) (n : Nat)
    (h : state.Inv machine boot) (hn : n ≤ 253) (hfuel : 2 * n + 1 ≤ fuel)
    (hfinish : current.raw + SIZE_4_KIB * n = finish.raw) (haligned : current.raw % SIZE_4_KIB = 0)
    (hwindow : current.InWindow)
    (hrange : ∀ other : VirtAddr, current.raw ≤ other.raw → other.raw < finish.raw →
      (state.tables.access machine.cBit other).isSome ∧ state.tables.level machine.cBit other ≤ 1 ∧
        (other.raw = LAST_2_MIB → state.tables.level machine.cBit other = 0)) :
    ∃ after, clearCBitAddressRange machine fuel current finish state = (.ok (), after) ∧
      after.Inv machine boot ∧ ∀ other, after.tables.access machine.cBit other =
        if current.page ≤ other.page ∧ other.page < current.page + n then
          (state.tables.access machine.cBit other).map (Mapping.strip machine.cBit)
        else state.tables.access machine.cBit other := by
  induction n generalizing fuel current state with
  | zero =>
    obtain ⟨fuel, rfl⟩ : ∃ f, fuel = f + 1 := ⟨fuel - 1, by omega⟩
    refine ⟨state, ?_, h, fun other => ?_⟩
    · rw [clearCBitAddressRange, if_pos (by omega)]
      rfl
    · rw [if_neg (by omega)]
  | succ n ih =>
    obtain ⟨fuel, rfl⟩ : ∃ f, fuel = f + 2 := ⟨fuel - 2, by omega⟩
    have hlt : current.raw + SIZE_4_KIB ≤ finish.raw := by
      unfold SIZE_4_KIB at hfinish ⊢
      omega
    have hcurrent : current.raw < finish.raw := Nat.lt_of_lt_of_le (Nat.lt_add_of_pos_right (by decide)) hlt
    obtain ⟨hmapped, hlevel, hlast⟩ := hrange current le_rfl hcurrent
    -- a page of 2 MiB is split first
    obtain ⟨middle, fuel', hfirst, hmiddle, haccess, hlevels, hzero, hfuel'⟩ : ∃ middle fuel',
        clearCBitAddressRange machine (fuel + 2) current finish state =
          clearCBitAddressRange machine (fuel' + 1) current finish middle ∧
        middle.Inv machine boot ∧
        (∀ other, middle.tables.access machine.cBit other = state.tables.access machine.cBit other) ∧
        (∀ other, middle.tables.level machine.cBit other ≤ state.tables.level machine.cBit other) ∧
        middle.tables.level machine.cBit current = 0 ∧ 2 * n + 1 ≤ fuel' := by
      rcases Nat.le_one_iff_eq_zero_or_eq_one.mp hlevel with hzero | hone
      · exact ⟨state, fuel + 1, rfl, h, fun _ => rfl, fun _ => le_rfl, hzero, by omega⟩
      · have hshort : finish.raw < current.raw + BYTES_2_MIB := by
          unfold SIZE_4_KIB at hfinish
          unfold BYTES_2_MIB
          omega
        have hne : current.raw ≠ LAST_2_MIB := fun heq => by
          rw [hlast heq] at hone
          cases hone
        obtain ⟨middle, hstep, hsmashed⟩ :=
          clear_large_step hm h hmapped hone hcurrent hshort hne hwindow
        have hzero := hsmashed.level_lt
        rw [hone] at hzero
        exact ⟨middle, fuel, hstep (fuel + 1), hsmashed.inv, hsmashed.access_eq, hsmashed.level_le,
          Nat.le_zero.mp hzero, by omega⟩
    obtain ⟨next, hnext, -, hnextWindow⟩ := VirtAddr.exists_add hwindow
      (Nat.lt_of_le_of_lt hlt finish.raw_lt)
    have hpage : next.page = current.page + 1 := by
      unfold VirtAddr.page
      unfold SIZE_4_KIB at hnext ⊢
      omega
    obtain ⟨cleared, hsecond, hcleared, hclearedAccess, hclearedLevel⟩ :=
      clear_small_step hmiddle (by rw [haccess]; exact hmapped) hzero haligned hnext.symm
        (hnext.trans_le hlt)
    have hnextFinish : next.raw + SIZE_4_KIB * n = finish.raw := by
      unfold SIZE_4_KIB at hfinish hnext ⊢
      omega
    have hnextAligned : next.raw % SIZE_4_KIB = 0 := by
      rw [hnext, Nat.add_mod_right, haligned]
    have hnextRange : ∀ other : VirtAddr, next.raw ≤ other.raw → other.raw < finish.raw →
        (cleared.tables.access machine.cBit other).isSome ∧
          cleared.tables.level machine.cBit other ≤ 1 ∧
          (other.raw = LAST_2_MIB → cleared.tables.level machine.cBit other = 0) := by
      intro other hlo hhi
      obtain ⟨hother, hotherLevel, hotherLast⟩ := hrange other (by omega) hhi
      have hle := hlevels other
      rw [hclearedAccess, hclearedLevel]
      refine ⟨?_, by omega, fun heq => ?_⟩
      · split <;> simp [haccess, hother]
      · rw [hotherLast heq] at hle
        exact Nat.le_zero.mp hle
    obtain ⟨after, hrest, hafter, hafterAccess⟩ :=
      ih hcleared (by omega) hfuel' hnextFinish hnextAligned hnextWindow hnextRange
    refine ⟨after, hfirst.trans ((hsecond fuel').trans hrest), hafter, fun other => ?_⟩
    rw [hafterAccess, hclearedAccess, haccess, hpage]
    by_cases hsame : other.page = current.page
    · rw [if_neg (by omega), if_pos hsame, if_pos (by omega)]
    · rw [if_neg hsame]
      have hiff : current.page + 1 ≤ other.page ∧ other.page < current.page + 1 + n ↔
          current.page ≤ other.page ∧ other.page < current.page + (n + 1) := by omega
      simp only [hiff]

def pageList : Nat → Nat → List Nat
  | _, 0 => []
  | start, n + 1 => start :: pageList (start + SIZE_4_KIB) n

theorem pageList_append (start m n : Nat) :
    pageList start (m + n) = pageList start m ++ pageList (start + SIZE_4_KIB * m) n := by
  induction m generalizing start with
  | zero => simp [pageList]
  | succ m ih =>
    rw [Nat.succ_add, pageList, pageList, ih, List.cons_append]
    congr 3
    ring

theorem stepBy_eq (start n : Nat) : stepBy start (start + SIZE_4_KIB * n) SIZE_4_KIB = pageList start n := by
  have hcount : (start + SIZE_4_KIB * n - start + (SIZE_4_KIB - 1)) / SIZE_4_KIB = n := by
    unfold SIZE_4_KIB
    omega
  rw [stepBy, hcount]
  clear hcount
  induction n generalizing start with
  | zero => rfl
  | succ n ih =>
    rw [List.range_succ_eq_map, List.map_cons, List.map_map, pageList, ← ih]
    congr 1
    apply List.map_congr_left
    intro i _
    rw [Function.comp, Nat.mul_succ]
    ring

theorem smashPages_append (first second : List Nat) :
    (smashPages machine (first ++ second) : Shim ε Unit) =
      (do smashPages machine first; smashPages machine second) := by
  induction first with
  | nil => rfl
  | cons a first ih => simp only [List.cons_append, smashPages, ih, bind_assoc]

theorem unwrapResult_ok {run : Shim δ α} {value : α} (h : run state = (.ok value, after)) :
    (unwrapResult run : Shim ε α) state = (.ok value, after) := by
  rw [unwrapResult, h]

theorem smashPages_cons (hm : machine.Works boot) {start : VirtAddr} {rest : List Nat}
    (h : smash machine start state = (.ok (), after)) :
    (smashPages machine (start.raw :: rest) : Shim ε Unit) state = smashPages machine rest after := by
  rw [smashPages, VirtAddr.new_raw, Exec.bind_of_ok (unwrap_some start),
    Exec.bind_of_ok (unwrapResult_ok h), hm.pvalidate]
  exact Exec.bind_of_ok (unwrap_some ())

structure SmashedPages (machine : Machine) (boot : List VirtAddr) (start : VirtAddr) (n : Nat)
    (before after : State) : Prop where
  inv : after.Inv machine boot
  access_eq : ∀ other, after.tables.access machine.cBit other =
    before.tables.access machine.cBit other
  level_le : ∀ other, after.tables.level machine.cBit other ≤
    before.tables.level machine.cBit other
  level_lt : ∀ other : VirtAddr, start.page ≤ other.page → other.page < start.page + n →
    after.tables.level machine.cBit other ≤ before.tables.level machine.cBit other - 1

structure Range (machine : Machine) (state : State) (start : VirtAddr) (n : Nat) : Prop where
  inWindow : start.InWindow
  end_lt : start.raw + SIZE_4_KIB * n < 2 ^ 64
  mapped : ∀ other : VirtAddr, start.raw ≤ other.raw → other.raw < start.raw + SIZE_4_KIB * n →
    (state.tables.access machine.cBit other).isSome

namespace Range

variable {start : VirtAddr} {n : Nat}

theorem mapped_start (hrange : Range machine state start (n + 1)) :
    (state.tables.access machine.cBit start).isSome :=
  hrange.mapped start le_rfl (Nat.lt_add_of_pos_right (Nat.mul_pos (by decide) n.succ_pos))

theorem drop {m : Nat} (hrange : Range machine state start (m + n)) {after : State}
    (haccess : ∀ other, after.tables.access machine.cBit other = state.tables.access machine.cBit other) :
    ∃ next : VirtAddr, next.raw = start.raw + SIZE_4_KIB * m ∧ next.page = start.page + m ∧
      Range machine after next n := by
  have hsize : SIZE_4_KIB * (m + n) = SIZE_4_KIB * m + SIZE_4_KIB * n := by ring
  have hend := hrange.end_lt
  obtain ⟨next, hnext, -, hwindow⟩ := VirtAddr.exists_add hrange.inWindow
    (show start.raw + SIZE_4_KIB * m < 2 ^ 64 by omega)
  refine ⟨next, hnext, ?_, hwindow, by omega, fun other hlo hhi => ?_⟩
  · rw [VirtAddr.page, hnext, Nat.add_mul_div_left _ _ (by decide), VirtAddr.page]
  · rw [haccess]
    exact hrange.mapped other (by omega) (by omega)

theorem take {m : Nat} (hrange : Range machine state start (m + n)) : Range machine state start m := by
  have hsize : SIZE_4_KIB * (m + n) = SIZE_4_KIB * m + SIZE_4_KIB * n := by ring
  have hend := hrange.end_lt
  exact ⟨hrange.inWindow, by omega, fun other hlo hhi => hrange.mapped other hlo (by omega)⟩

end Range

theorem smashPages_spec (hm : machine.Works boot) (n : Nat) {start : VirtAddr}
    (h : state.Inv machine boot) (hrange : Range machine state start n) :
    ∃ after, (smashPages machine (pageList start.raw n) : Shim ε Unit) state = (.ok (), after) ∧
      SmashedPages machine boot start n state after := by
  induction n generalizing state start with
  | zero => exact ⟨state, rfl, h, fun _ => rfl, fun _ => le_rfl, fun _ _ _ => by omega⟩
  | succ n ih =>
    obtain ⟨middle, hsmash, hsmashed⟩ := smash_spec hm h hrange.inWindow hrange.mapped_start
    rw [Nat.add_comm] at hrange
    obtain ⟨next, hnext, hpage, hnextRange⟩ := hrange.drop hsmashed.access_eq
    rw [Nat.mul_one] at hnext
    obtain ⟨after, hrest, hafter⟩ := ih hsmashed.inv hnextRange
    refine ⟨after, ?_, hafter.inv, fun other => (hafter.access_eq other).trans (hsmashed.access_eq other),
      fun other => (hafter.level_le other).trans (hsmashed.level_le other), fun other hlo hhi => ?_⟩
    · rw [pageList, smashPages_cons hm hsmash, ← hnext, hrest]
    · have hle := hafter.level_le other
      by_cases hsame : other.page = start.page
      · exact hle.trans (hsmashed.level_page other (by rw [VirtAddr.path_eq_iff.mpr hsame]))
      · have hlt := hafter.level_lt other (by omega) (by omega)
        have := hsmashed.level_le other
        omega

theorem State.Inv.level_le_two (h : state.Inv machine boot)
    (hmapped : (state.tables.access machine.cBit addr).isSome) :
    state.tables.level machine.cBit addr ≤ 2 := by
  cases h.tidy.walk addr with
  | absent haccess =>
    rw [haccess] at hmapped
    cases hmapped
  | page1GiB _ _ _ hlevel => exact hlevel.le
  | page2MiB _ _ _ hlevel => exact hlevel.le.trans (by decide)
  | page4KiB _ _ hlevel => exact hlevel.le.trans (by decide)

theorem State.Inv.level_le_one (h : state.Inv machine boot)
    (hmapped : (state.tables.access machine.cBit addr).isSome) (hsame : other.path.take 2 = addr.path.take 2)
    (hother : state.tables.level machine.cBit other ≤ 1) : state.tables.level machine.cBit addr ≤ 1 := by
  have hle := h.level_le_two hmapped
  by_contra hgt
  have htwo : state.tables.level machine.cBit addr = 2 := by omega
  have heq : state.tables.level machine.cBit other = state.tables.level machine.cBit addr :=
    level_congr (by rw [htwo]; exact hsame)
  omega

theorem smashPages_last_first (hm : machine.Works boot) (h : state.Inv machine boot)
    (hlast : last.raw = LAST_2_MIB) (hrange : Range machine state last (m + 2))
   
    (hrun : (smashPages machine (pageList last.raw (m + 2)) : Shim ε Unit) state = (.ok (), after)) :
    after.tables.level machine.cBit last = 0 := by
  obtain ⟨first, hfirst, hsmashed⟩ := smash_spec hm h hrange.inWindow hrange.mapped_start
  have hone : first.tables.level machine.cBit last ≤ 1 := by
    have := hsmashed.level_lt
    have := h.level_le_two hrange.mapped_start
    omega
  rw [show m + 2 = 1 + (m + 1) by omega] at hrange
  obtain ⟨next, hnext, -, hnextRange⟩ := hrange.drop hsmashed.access_eq
  rw [Nat.mul_one] at hnext
  obtain ⟨second, hsecond, hsmashed'⟩ := smash_spec hm hsmashed.inv hnextRange.inWindow
    hnextRange.mapped_start
  have hzero : second.tables.level machine.cBit last = 0 := by
    rcases Nat.le_one_iff_eq_zero_or_eq_one.mp hone with hzero | hone
    · exact Nat.le_zero.mp (hzero ▸ hsmashed'.level_le last)
    · have hpath : next.path.take 3 = last.path.take 3 := by
        have hlastRaw : last.raw = 18446744073707454464 := hlast
        have hnextRaw : next.raw = 18446744073707458560 := by rw [hnext, hlastRaw]; rfl
        simp [VirtAddr.path, VirtAddr.p4Index, VirtAddr.p3Index, VirtAddr.p2Index, hlastRaw, hnextRaw]
      have hlevel : first.tables.level machine.cBit next = 1 :=
        (level_congr (by rw [hone]; exact hpath)).trans hone
      have hle := hsmashed'.level_page last (by rw [hlevel]; exact hpath.symm)
      omega
  rw [Nat.add_comm m 1] at hnextRange
  obtain ⟨third, hthird, -, hthirdRange⟩ := hnextRange.drop hsmashed'.access_eq
  rw [Nat.mul_one] at hthird
  obtain ⟨final, hfinal, hspec⟩ := smashPages_spec (ε := ε) hm m hsmashed'.inv hthirdRange
  rw [pageList, smashPages_cons hm hfirst, ← hnext, pageList, smashPages_cons hm hsecond, ← hthird,
    hfinal] at hrun
  cases hrun
  exact Nat.le_zero.mp (hzero ▸ hspec.level_le last)

theorem smashPages_last_later (hm : machine.Works boot) (h : state.Inv machine boot) {k : Nat}
    {start : VirtAddr} (hlast : last.raw = LAST_2_MIB) (hstart : last.raw = start.raw + SIZE_4_KIB * (k + 1))
    (hrange : Range machine state start (k + 1 + (m + 1)))
    (hrun : (smashPages machine (pageList start.raw (k + 1 + (m + 1))) : Shim ε Unit) state =
      (.ok (), after)) : after.tables.level machine.cBit last = 0 := by
  obtain ⟨middle, hfirst, hspec⟩ := smashPages_spec (ε := ε) hm (k + 1) h hrange.take
  obtain ⟨next, hnext, hpage, hnextRange⟩ := hrange.drop hspec.access_eq
  have heq : next = last := VirtAddr.ext (hnext.trans hstart.symm)
  subst heq
  have hlastRaw : next.raw = 18446744073707454464 := hlast
  -- the page before it, in the same 1 GiB
  obtain ⟨before, hbeforeRaw⟩ : ∃ before : VirtAddr, before.raw = 18446744073707450368 :=
    ⟨⟨18446744073707450368, .inr (by decide)⟩, rfl⟩
  have hbefore : before.page + 1 = next.page := by
    simp [VirtAddr.page, SIZE_4_KIB, hlastRaw, hbeforeRaw]
  have hmapped : (state.tables.access machine.cBit before).isSome := by
    unfold SIZE_4_KIB at hnext
    apply hrange.mapped
    · omega
    · unfold SIZE_4_KIB
      omega
  have hone : middle.tables.level machine.cBit before ≤ 1 := by
    have := hspec.level_lt before (by omega) (by omega)
    have := h.level_le_two hmapped
    omega
  have hpath : before.path.take 2 = next.path.take 2 := by
    simp [VirtAddr.path, VirtAddr.p4Index, VirtAddr.p3Index, hlastRaw, hbeforeRaw]
  have hle := hspec.inv.level_le_one hnextRange.mapped_start hpath hone
  obtain ⟨final, hsecond, hspec'⟩ := smashPages_spec (ε := ε) hm (m + 1) hspec.inv hnextRange
  rw [pageList_append, smashPages_append, Exec.bind_of_ok hfirst, ← hnext, hsecond] at hrun
  cases hrun
  have := hspec'.level_lt next le_rfl (Nat.lt_add_of_pos_right m.succ_pos)
  omega

theorem smashPages_last (hm : machine.Works boot) {n : Nat} {start : VirtAddr}
    (h : state.Inv machine boot) (haligned : start.raw % SIZE_4_KIB = 0)
    (hrange : Range machine state start n)
    (hrun : (smashPages machine (pageList start.raw n) : Shim ε Unit) state = (.ok (), after))
    (hlast : last.raw = LAST_2_MIB) (hlo : start.raw ≤ last.raw) (hhi : last.raw < start.raw + SIZE_4_KIB * n)
    (hn : 2 ≤ n ∨ state.tables.level machine.cBit last ≤ 1) : after.tables.level machine.cBit last = 0 := by
  have hlastRaw : last.raw = 18446744073707454464 := hlast
  have hsize : SIZE_4_KIB = 4096 := rfl
  rcases hn with hn | hone
  · obtain ⟨k, hk⟩ : ∃ k, last.raw = start.raw + SIZE_4_KIB * k :=
      ⟨(last.raw - start.raw) / 4096, by rw [hsize] at haligned ⊢; omega⟩
    rcases k with _ | k
    · have heq : last = start := VirtAddr.ext (by rw [hk, Nat.mul_zero, Nat.add_zero])
      subst heq
      obtain ⟨m, rfl⟩ : ∃ m, n = m + 2 := ⟨n - 2, by omega⟩
      exact smashPages_last_first hm h hlast hrange hrun
    · obtain ⟨m, rfl⟩ : ∃ m, n = k + 1 + (m + 1) :=
        ⟨n - (k + 2), by rw [hsize] at hk hhi; omega⟩
      exact smashPages_last_later hm h hlast hk hrange hrun
  · obtain ⟨found, hfound, hspec⟩ := smashPages_spec (ε := ε) hm n h hrange
    cases hrun.symm.trans hfound
    have := hspec.level_lt last (Nat.div_le_div_right hlo) (by
      unfold VirtAddr.page
      rw [hsize] at hhi haligned ⊢
      omega)
    omega

theorem pscEntries_ok (n : Nat) {paAddr : PhysAddr} (h : paAddr.raw + SIZE_4_KIB * n < 2 ^ 52) :
    ∃ entries, (pscEntries n paAddr : Shim ε (List Nat)) state = (.ok entries, state) := by
  induction n generalizing paAddr with
  | zero => exact ⟨[], rfl⟩
  | succ n ih =>
    have hsize : SIZE_4_KIB * (n + 1) = SIZE_4_KIB + SIZE_4_KIB * n := by ring
    rw [hsize] at h
    let next : PhysAddr := ⟨paAddr.raw + SIZE_4_KIB, by omega⟩
    have hnext : paAddr.raw + SIZE_4_KIB = next.raw := rfl
    obtain ⟨entries, hentries⟩ := @ih next (by omega)
    refine ⟨(paAddr.raw ||| SHARED_BIT) :: entries, ?_⟩
    rw [pscEntries, PhysAddr.add_eq hnext, Exec.bind_of_ok (unwrap_some next),
      Exec.bind_of_ok hentries]
    rfl

theorem ghcbMsrMakePageShared_eq (hm : machine.Works boot) {page : VirtAddr}
    {split : State} (hwindow : page.InWindow) (hfinish : finish.raw = page.raw + SIZE_4_KIB)
    (hsmash : smash machine page state = (.ok (), split))
    (hclear : clearCBitAddressRange machine fuel page finish split = (.ok (), after)) :
    (ghcbMsrMakePageShared machine fuel page : Shim ε Unit) state = (.ok (), after) := by
  obtain ⟨virt, -, hsub⟩ := VirtAddr.exists_sub_offset hwindow
  have hloop : (do clearCBitAddressRange machine fuel page (← unwrap (page.add SIZE_4_KIB)) :
      Shim PagetablesError Unit) split = (.ok (), after) := by
    rw [VirtAddr.add_eq hfinish.symm, Exec.bind_of_ok (unwrap_some finish), hclear]
  rw [ghcbMsrMakePageShared, Exec.bind_of_ok (unwrapResult_ok hsmash), hm.pvalidate]
  refine (Exec.bind_of_ok (unwrap_some ())).trans ?_
  rw [Exec.bind_of_ok (unwrapResult_ok hloop), hsub, Exec.bind_of_ok (unwrap_some virt),
    hm.pageStateChange]
  rfl

theorem setMemoryShared_eq (hm : machine.Works boot) {virtAddr : VirtAddr} {npages : Nat}
    {split : State} (hwindow : virtAddr.InWindow) (hnpages : 1 ≤ npages ∧ npages ≤ 253)
    (hfinish : virtAddr.add (SIZE_4_KIB * npages) = some finish)
    (hsplit : (smashPages machine (stepBy virtAddr.raw finish.raw SIZE_4_KIB) : Shim ε Unit) state =
      (.ok (), split)) (hclear : clearCBitAddressRange machine fuel virtAddr finish split = (.ok (), after)) :
    (setMemoryShared machine fuel virtAddr npages : Shim ε Unit) state = (.ok (), after) := by
  have hsize : SIZE_4_KIB * npages < 2 ^ 64 := by
    unfold SIZE_4_KIB
    omega
  obtain ⟨virt, hvirt, hsub⟩ := VirtAddr.exists_sub_offset hwindow
  have hphys : virt.raw < 2 ^ 39 := hvirt ▸ virtAddr.sub_offset_lt
  obtain ⟨phys, hnew⟩ : ∃ phys : PhysAddr, virt.raw = phys.raw := ⟨⟨virt.raw, by omega⟩, rfl⟩
  have hend : phys.raw + SIZE_4_KIB * npages < 2 ^ 52 := by
    unfold SIZE_4_KIB
    omega
  obtain ⟨entries, hentries⟩ := pscEntries_ok npages hend
  rw [setMemoryShared, if_pos hsize, Exec.bind_of_ok (unwrap_some _), hfinish,
    Exec.bind_of_ok (unwrap_some finish), Exec.bind_of_ok hsplit,
    Exec.bind_of_ok (unwrapResult_ok hclear), if_pos hnpages, Exec.bind_of_ok (unwrap_some ()), hsub,
    Exec.bind_of_ok (unwrap_some virt), hnew, PhysAddr.new_raw, Exec.bind_of_ok (unwrap_some phys),
    Exec.bind_of_ok hentries, hm.pageStateChange]
  rfl

namespace Share

/-- The requests that the shim makes: whole pages, mapped, as many as the descriptor holds. -/
structure Proper (machine : Machine) (state : State) (share : Share) : Prop where
  aligned : share.start.raw % SIZE_4_KIB = 0
  one_le : 1 ≤ share.npages
  le_max : share.npages ≤ 253
  mapped : ∀ addr, share.Requests addr → (state.tables.access machine.cBit addr).isSome

/-- The arithmetic on addresses does not wrap: the range ends before the address space does, and
a request for the first page of the last 2 MiB alone finds it in a page of at most 2 MiB. -/
def Fits (machine : Machine) (state : State) (share : Share) : Prop :=
  share.start.raw + SIZE_4_KIB * share.npages < 2 ^ 64 ∧
    (share.start.raw = LAST_2_MIB → share.npages = 1 →
      state.tables.level machine.cBit share.start ≠ 2)

variable {share : Share}

theorem Proper.range (hproper : share.Proper machine state) (hfits : share.Fits machine state)
    (hwindow : ∀ addr, (state.tables.access machine.cBit addr).isSome → addr.InWindow) :
    Range machine state share.start share.npages := by
  have haligned := hproper.aligned
  refine ⟨hwindow _ (hproper.mapped _ ⟨le_rfl, Nat.lt_add_of_pos_right hproper.one_le⟩), hfits.1,
    fun other hlo hhi => hproper.mapped other ⟨Nat.div_le_div_right hlo, ?_⟩⟩
  unfold VirtAddr.page
  unfold SIZE_4_KIB at haligned hhi ⊢
  omega

theorem Proper.levels (hm : machine.Works boot) (h : state.Inv machine boot)
    (hproper : share.Proper machine state) (hfits : share.Fits machine state)
    (hrange : Range machine state share.start share.npages) {after : State}
    (hrun : (smashPages machine (pageList share.start.raw share.npages) : Shim ε Unit) state =
      (.ok (), after)) (hspec : SmashedPages machine boot share.start share.npages state after)
    (other : VirtAddr) (hlo : share.start.raw ≤ other.raw)
    (hhi : other.raw < share.start.raw + SIZE_4_KIB * share.npages) :
    (after.tables.access machine.cBit other).isSome ∧ after.tables.level machine.cBit other ≤ 1 ∧
      (other.raw = LAST_2_MIB → after.tables.level machine.cBit other = 0) := by
  have haligned := hproper.aligned
  have hmapped := hrange.mapped other hlo hhi
  have hle := h.level_le_two hmapped
  have hpage : other.page < share.start.page + share.npages := by
    unfold VirtAddr.page
    unfold SIZE_4_KIB at haligned hhi ⊢
    omega
  have hlt := hspec.level_lt other (Nat.div_le_div_right hlo) hpage
  refine ⟨by rw [hspec.access_eq]; exact hmapped, by omega, fun hlast => ?_⟩
  apply smashPages_last hm h haligned hrange hrun hlast hlo hhi
  by_cases hone : share.npages = 1
  · have heq : other = share.start := by
      apply VirtAddr.ext
      have hlastRaw : other.raw = 18446744073707454464 := hlast
      rw [hone] at hhi
      unfold SIZE_4_KIB at haligned hhi
      omega
    have hne := hfits.2 (heq ▸ hlast) hone
    rw [← heq] at hne
    exact .inr (by omega)
  · have := hproper.one_le
    exact .inl (by omega)

theorem execute_spec (hm : machine.Works boot) (h : state.Inv machine boot)
    (hproper : share.Proper machine state) (hfits : share.Fits machine state)
    (hwindow : ∀ addr, (state.tables.access machine.cBit addr).isSome → addr.InWindow) {fuel : Nat}
    (hfuel : 507 ≤ fuel) :
    ∃ after, (share.execute machine fuel : Shim ε Unit) state = (.ok (), after) ∧
      after.Inv machine boot ∧ ∀ addr, after.tables.access machine.cBit addr = if share.Requests addr then
          (state.tables.access machine.cBit addr).map (Mapping.strip machine.cBit)
        else state.tables.access machine.cBit addr := by
  have hrange := hproper.range hfits hwindow
  obtain ⟨split, hsplit, hspec⟩ := smashPages_spec (ε := ε) hm share.npages h hrange
  obtain ⟨finish, hfinish, -, -⟩ := VirtAddr.exists_add hrange.inWindow hrange.end_lt
  have hfuel' : 2 * share.npages + 1 ≤ fuel := by
    have := hproper.le_max
    omega
  obtain ⟨after, hclear, hafter, haccess⟩ := clear_spec hm share.npages hspec.inv hproper.le_max
    hfuel' hfinish.symm hproper.aligned hrange.inWindow
    (by rw [hfinish]; exact hproper.levels hm h hfits hrange hsplit hspec)
  refine ⟨after, ?_, hafter, fun addr => ?_⟩
  · cases share with
    | ghcbMsrMakePageShared page =>
      obtain ⟨found, hsmash, -⟩ := smash_spec hm h hrange.inWindow hrange.mapped_start
      cases (smashPages_cons (ε := ε) hm hsmash).symm.trans hsplit
      exact ghcbMsrMakePageShared_eq hm hrange.inWindow hfinish hsmash hclear
    | setMemoryShared virtAddr npages =>
      apply setMemoryShared_eq hm hrange.inWindow ⟨hproper.one_le, hproper.le_max⟩
        (VirtAddr.add_eq hfinish.symm) ?_ hclear
      rw [hfinish, stepBy_eq]
      exact hsplit
  · rw [haccess, hspec.access_eq]
    rfl

end Share

end

end Enarx.Kvm
