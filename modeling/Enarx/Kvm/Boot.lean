import Enarx.Kvm.Sharing

/-!
# Sharing memory from the boot on

The boot page tables map the whole window, encrypted, in pages of three sizes.
Any sequence of requests to share pages of it leaves exactly these pages
unencrypted.
-/
namespace Enarx.Kvm

open Shim PageTables

section

variable {c : CBit} {pa depth : Nat} (hpa : pa < 2 ^ 39) (halign : SIZE_4_KIB ∣ pa)

theorem encrypted_tidy_huge (hlo : 1 ≤ depth) (hhi : depth ≤ 2) (hdvd : pageSize depth ∣ pa) :
    (encrypted c pa HUGE_PAGE_TABLE_FLAGS hpa halign).Tidy c depth where
  pointer _ h := absurd h.2 Bool.noConfusion
  level4 h := absurd h (by omega)
  huge _ _ _ _ := ⟨pa, hpa, hdvd, rfl⟩
  present := .inr rfl
  small h := absurd h (by omega)

theorem encrypted_tidy_small : (encrypted c pa PAGE_TABLE_FLAGS hpa halign).Tidy c 3 where
  pointer h := absurd h (by omega)
  level4 h := absurd h (by omega)
  huge _ h := absurd h (by omega)
  present := .inr rfl
  small _ _ := ⟨pa, hpa, .inl rfl⟩

theorem pointerTo_tidy {table : VirtAddr} (htable : table.InWindow ∧ SIZE_4_KIB ∣ table.raw) (hdepth : depth ≤ 2) :
    (pointerTo c table htable).Tidy c depth :=
  PageTableEntry.IsPointer.tidy ⟨rfl, rfl⟩ hdepth htable.1 htable.2 rfl

end

namespace BootTables

variable (c : CBit) (boot : BootTables) (rest : VirtAddr → PageTable)

def list : List VirtAddr := [boot.pml4t, boot.pdpt, boot.pdtC0000000, boot.ptFfe00000]

section

variable {c} {table : VirtAddr}

theorem follow_pointerTo (htable : table.InWindow ∧ SIZE_4_KIB ∣ table.raw) :
    (pointerTo c table htable).follow c = some table := by
  rw [PageTableEntry.follow, if_pos ⟨rfl, rfl⟩]
  exact frameToPointer_eq c htable.1 rfl

theorem follow_page {pa : Nat} (hpa : pa < 2 ^ 39) (halign : SIZE_4_KIB ∣ pa) :
    (encrypted c pa HUGE_PAGE_TABLE_FLAGS hpa halign).follow c = none :=
  PageTableEntry.follow_of_huge c rfl

theorem follow_unused : PageTableEntry.unused.follow c = none :=
  PageTableEntry.follow_of_absent c rfl

end

theorem ne : boot.pdpt ≠ boot.pml4t ∧ boot.pdtC0000000 ≠ boot.pml4t ∧
    boot.pdtC0000000 ≠ boot.pdpt ∧ boot.ptFfe00000 ≠ boot.pml4t ∧ boot.ptFfe00000 ≠ boot.pdpt ∧
    boot.ptFfe00000 ≠ boot.pdtC0000000 := by
  have h := boot.nodup
  simp only [List.nodup_cons, List.mem_cons, List.not_mem_nil, or_false, not_or] at h
  obtain ⟨⟨h43, h42, h41⟩, ⟨h32, h31⟩, h21, -⟩ := h
  exact ⟨Ne.symm h43, Ne.symm h42, Ne.symm h32, Ne.symm h41, Ne.symm h31, Ne.symm h21⟩

theorem entry_pml4t (i : Fin 512) : (boot.tables c rest).mem boot.pml4t i =
    if i = 511 then pointerTo c boot.pdpt (boot.inWindow _ (by simp)) else .unused := by
  simp [tables]

theorem entry_pdpt (i : Fin 512) : (boot.tables c rest).mem boot.pdpt i =
    if i = 3 then pointerTo c boot.pdtC0000000 (boot.inWindow _ (by simp))
    else gen1gbPdptEntries c i := by
  simp [tables, boot.ne]

theorem entry_pdt (i : Fin 512) : (boot.tables c rest).mem boot.pdtC0000000 i =
    if i = 511 then pointerTo c boot.ptFfe00000 (boot.inWindow _ (by simp))
    else gen2mbPdtEntriesC0000000 c i := by
  simp [tables, boot.ne]

theorem entry_pt (i : Fin 512) : (boot.tables c rest).mem boot.ptFfe00000 i = gen4kPtEntriesFfe00000 c i := by
  simp [tables, boot.ne]

theorem follow_pml4t (i : Fin 512) : ((boot.tables c rest).mem boot.pml4t i).follow c =
    if i = 511 then some boot.pdpt else none := by
  rw [entry_pml4t]
  split
  · exact follow_pointerTo _
  · exact follow_unused

theorem follow_pdpt (i : Fin 512) : ((boot.tables c rest).mem boot.pdpt i).follow c =
    if i = 3 then some boot.pdtC0000000 else none := by
  rw [entry_pdpt]
  split
  · exact follow_pointerTo _
  · exact follow_page _ _

theorem follow_pdt (i : Fin 512) : ((boot.tables c rest).mem boot.pdtC0000000 i).follow c =
    if i = 511 then some boot.ptFfe00000 else none := by
  rw [entry_pdt]
  split
  · exact follow_pointerTo _
  · exact follow_page _ _

theorem tableAt_cases {path : List (Fin 512)} (hpath : path.length ≤ 3) {table : VirtAddr}
    (h : (boot.tables c rest).tableAt c path = some table) :
    path = [] ∧ table = boot.pml4t ∨ path = [511] ∧ table = boot.pdpt ∨
      path = [511, 3] ∧ table = boot.pdtC0000000 ∨
      path = [511, 3, 511] ∧ table = boot.ptFfe00000 := by
  have hlevel4 : (boot.tables c rest).level4 = boot.pml4t := rfl
  rw [PageTables.tableAt, hlevel4] at h
  rcases path with _ | ⟨i, _ | ⟨j, _ | ⟨k, _ | ⟨l, path⟩⟩⟩⟩
  · exact .inl ⟨rfl, (Option.some.inj h).symm⟩
  all_goals
    simp only [Radix.tableAt, follow_pml4t] at h
    by_cases hi : i = 511 <;> simp only [hi, if_true, if_false, Option.bind_some, Option.bind_none,
      reduceCtorEq] at h
  · exact .inr (.inl ⟨by rw [hi], (Option.some.inj h).symm⟩)
  all_goals
    simp only [follow_pdpt] at h
    by_cases hj : j = 3 <;> simp only [hj, if_true, if_false, Option.bind_some, Option.bind_none,
      reduceCtorEq] at h
  · exact .inr (.inr (.inl ⟨by rw [hi, hj], (Option.some.inj h).symm⟩))
  all_goals
    simp only [follow_pdt] at h
    by_cases hk : k = 511 <;> simp only [hk, if_true, if_false, Option.bind_some, Option.bind_none,
      reduceCtorEq] at h
  · exact .inr (.inr (.inr ⟨by rw [hi, hj, hk], (Option.some.inj h).symm⟩))
  · simp only [List.length_cons] at hpath
    omega

theorem tidy : (boot.tables c rest).Tidy c where
  tree := by
    intro p q table hp hq hptable hqtable
    obtain ⟨h43, h42, h32, h41, h31, h21⟩ := boot.ne
    rcases boot.tableAt_cases c rest hp hptable with ⟨rfl, ht⟩ | ⟨rfl, ht⟩ | ⟨rfl, ht⟩ | ⟨rfl, ht⟩ <;>
      rcases boot.tableAt_cases c rest hq hqtable with ⟨rfl, ht'⟩ | ⟨rfl, ht'⟩ | ⟨rfl, ht'⟩ | ⟨rfl, ht'⟩ <;>
      first | rfl | exact absurd (ht.symm.trans ht') (by simp_all [eq_comm])
  level4 := boot.inWindow boot.pml4t (by simp)
  entries := by
    intro path table index hpath htable
    rcases boot.tableAt_cases c rest hpath htable with ⟨rfl, rfl⟩ | ⟨rfl, rfl⟩ | ⟨rfl, rfl⟩ | ⟨rfl, rfl⟩
    · rw [PageTables.entry, entry_pml4t]
      split
      · exact pointerTo_tidy _ (by simp)
      · exact .unused c _
    · rw [PageTables.entry, entry_pdpt]
      split
      · exact pointerTo_tidy _ (by simp)
      · exact encrypted_tidy_huge _ _ (by simp) (by simp) (Nat.dvd_mul_left_of_dvd (by decide) _)
    · rw [PageTables.entry, entry_pdt]
      split
      · exact pointerTo_tidy _ (by simp)
      · exact encrypted_tidy_huge _ _ (by simp) (by simp)
          (Nat.dvd_add (by decide) (Nat.dvd_mul_left_of_dvd (by decide) _))
    · rw [PageTables.entry, entry_pt]
      exact encrypted_tidy_small _ _

theorem leaf_encrypted {c : CBit} {offset pa : Nat} {flags : PageTableFlags} (hpa : pa < 2 ^ 39)
    (halign : SIZE_4_KIB ∣ pa) (rest : List (Fin 512)) (hflags : flags.withoutHuge = PAGE_TABLE_FLAGS) :
    Mapping.leaf offset (encrypted c pa flags hpa halign) rest =
      some ⟨pa + SIZE_4_KIB * Mapping.leaf.digits rest + offset + c.mask, PAGE_TABLE_FLAGS, true, false,
        false⟩ := by
  have hpresent : flags.present = true := congrArg PageTableFlags.present hflags
  have hwritable : flags.writable = true := congrArg PageTableFlags.writable hflags
  have huser : flags.userAccessible = false := congrArg PageTableFlags.userAccessible hflags
  have hexecute : flags.noExecute = false := congrArg PageTableFlags.noExecute hflags
  rw [Mapping.leaf, encrypted, if_pos hpresent]
  simp only [hflags, hwritable, huser, hexecute, Option.some.injEq, Mapping.mk.injEq, and_true]
  omega

theorem lookup_pointerTo {c : CBit} {mem : VirtAddr → PageTable} {table below : VirtAddr}
    {i : Fin 512} {path : List (Fin 512)} {offset phys : Nat}
    (hbelow : below.InWindow ∧ SIZE_4_KIB ∣ below.raw) (hentry : mem table i = pointerTo c below hbelow)
    (hpath : path ≠ [])
    (h : Radix.lookup (PageTableEntry.follow c) mem (fun entry => Option.map (Mapping.restrict entry))
      (Mapping.leaf offset) below path = some ⟨phys, PAGE_TABLE_FLAGS, true, false, false⟩) :
    Radix.lookup (PageTableEntry.follow c) mem (fun entry => Option.map (Mapping.restrict entry))
      (Mapping.leaf offset) table (i :: path) = some ⟨phys, PAGE_TABLE_FLAGS, true, false, false⟩ := by
  rw [Radix.lookup_pointer (by rw [hentry, follow_pointerTo]) hpath, h, hentry]
  rfl

theorem access_eq (addr : VirtAddr) : (boot.tables c rest).access c addr = if addr.p4Index = 511 then
      some ⟨addr.raw - SHIM_VIRT_OFFSET + c.mask, PAGE_TABLE_FLAGS, true, false, false⟩ else none := by
  have hlevel4 : (boot.tables c rest).level4 = boot.pml4t := rfl
  rw [access, hlevel4, VirtAddr.path]
  by_cases h4 : addr.p4Index = 511
  · have hwindow := VirtAddr.inWindow_iff.mpr h4
    have hcanonical := addr.raw_lt
    rw [VirtAddr.InWindow, SHIM_VIRT_OFFSET] at hwindow
    rw [if_pos h4]
    refine lookup_pointerTo (boot.inWindow boot.pdpt (by simp)) (by rw [entry_pml4t, if_pos h4])
      (List.cons_ne_nil _ _) ?_
    by_cases h3 : addr.p3Index = 3
    · have h3' : addr.raw / 2 ^ 30 % 512 = 3 := congrArg Fin.val h3
      refine lookup_pointerTo (boot.inWindow boot.pdtC0000000 (by simp))
        (by rw [entry_pdpt, if_pos h3]) (List.cons_ne_nil _ _) ?_
      by_cases h2 : addr.p2Index = 511
      · have h2' : addr.raw / 2 ^ 21 % 512 = 511 := congrArg Fin.val h2
        refine lookup_pointerTo (boot.inWindow boot.ptFfe00000 (by simp))
          (by rw [entry_pdt, if_pos h2]) (List.cons_ne_nil _ _) ?_
        rw [Radix.lookup_singleton, entry_pt, gen4kPtEntriesFfe00000, leaf_encrypted _ _ _ rfl]
        simp only [Mapping.leaf.digits, VirtAddr.p1Index, SIZE_4_KIB, SHIM_VIRT_OFFSET,
          Option.some.injEq, Mapping.mk.injEq, and_true]
        omega
      · rw [Radix.lookup_leaf (by rw [follow_pdt, if_neg h2]), entry_pdt, if_neg h2,
          gen2mbPdtEntriesC0000000, leaf_encrypted _ _ _ rfl]
        simp only [Mapping.leaf.digits, VirtAddr.p1Index, VirtAddr.p2Index, SIZE_4_KIB, BYTES_2_MIB,
          SHIM_VIRT_OFFSET, List.length_nil, pow_zero, Option.some.injEq, Mapping.mk.injEq, and_true]
        omega
    · rw [Radix.lookup_leaf (by rw [follow_pdpt, if_neg h3]), entry_pdpt, if_neg h3, gen1gbPdptEntries,
        leaf_encrypted _ _ _ rfl]
      simp only [Mapping.leaf.digits, VirtAddr.p1Index, VirtAddr.p2Index, VirtAddr.p3Index, SIZE_4_KIB,
        BYTES_1_GIB, SHIM_VIRT_OFFSET, List.length_nil, List.length_cons, pow_zero, zero_add, pow_one,
        Option.some.injEq, Mapping.mk.injEq, and_true]
      omega
  · rw [if_neg h4, Radix.lookup_leaf (by rw [follow_pml4t, if_neg h4]), entry_pml4t, if_neg h4]
    rfl

theorem inWindow_of_mapped {addr : VirtAddr} (h : ((boot.tables c rest).access c addr).isSome) :
    addr.InWindow := by
  rw [access_eq] at h
  split at h
  · next h4 => exact VirtAddr.inWindow_iff.mpr h4
  · cases h

def state (c : CBit) (boot : BootTables) (rest : VirtAddr → PageTable) : State :=
  ⟨boot.tables c rest, 0⟩

theorem inv (machine : Machine) : (boot.state machine.cBit rest).Inv machine boot.list where
  tidy := boot.tidy machine.cBit rest
  owned := by
    intro path table hpath htable
    left
    rcases boot.tableAt_cases machine.cBit rest hpath htable with
      ⟨-, rfl⟩ | ⟨-, rfl⟩ | ⟨-, rfl⟩ | ⟨-, rfl⟩ <;> simp [list]
  taken_le := Nat.zero_le _

end BootTables

theorem Mapping.strip_strip (c : CBit) (mapping : Mapping) : (mapping.strip c).strip c = mapping.strip c := by
  simp only [strip, andNot, Nat.and_assoc, Nat.and_self]

namespace Share

variable {machine : Machine} {tables : List VirtAddr} {fuel : Nat} {before : State}

def AllFit (machine : Machine) (fuel : Nat) : List Share → State → Prop
  | [], _ => True
  | share :: rest, state => share.Fits machine state ∧
    AllFit machine fuel rest ((share.execute machine fuel : Shim Empty Unit) state).2

def expected (machine : Machine) (state : State) (shares : List Share) (addr : VirtAddr) :
    Option Mapping :=
  if ∃ share ∈ shares, share.Requests addr then
    (state.tables.access machine.cBit addr).map (Mapping.strip machine.cBit)
  else state.tables.access machine.cBit addr

theorem isSome_expected {shares : List Share} {addr : VirtAddr} :
    (expected machine before shares addr).isSome = (before.tables.access machine.cBit addr).isSome := by
  rw [expected]
  split <;> simp

theorem expected_cons {share : Share} {rest : List Share} {after : State}
    (h : ∀ addr, after.tables.access machine.cBit addr = expected machine before [share] addr)
    (addr : VirtAddr) : expected machine after rest addr = expected machine before (share :: rest) addr := by
  rw [expected, h, expected, expected]
  by_cases hshare : share.Requests addr <;> by_cases hrest : ∃ share ∈ rest, share.Requests addr <;>
    simp [hshare, hrest, Function.comp_def, Mapping.strip_strip]

theorem executeAll_spec (hm : machine.Works tables) (hfuel : 507 ≤ fuel) (shares : List Share)
    (h : before.Inv machine tables)
    (hwindow : ∀ addr, (before.tables.access machine.cBit addr).isSome → addr.InWindow)
    (hproper : ∀ share ∈ shares, share.Proper machine before) (hfits : AllFit machine fuel shares before) :
    ∃ after, (executeAll machine fuel shares : Shim Empty Unit) before = (.ok (), after) ∧
      after.Inv machine tables ∧
      ∀ addr, after.tables.access machine.cBit addr = expected machine before shares addr := by
  induction shares generalizing before with
  | nil => exact ⟨before, rfl, h, fun addr => by simp [expected]⟩
  | cons share rest ih =>
    obtain ⟨hfit, hrestFits⟩ := hfits
    obtain ⟨middle, hrun, hmiddle, haccess⟩ := execute_spec (ε := Empty) hm h
      (hproper share (List.mem_cons_self ..)) hfit hwindow hfuel
    rw [hrun] at hrestFits
    replace haccess : ∀ addr, middle.tables.access machine.cBit addr =
        expected machine before [share] addr := by
      intro addr
      rw [haccess]
      simp [expected]
    have hmapped : ∀ addr, (middle.tables.access machine.cBit addr).isSome =
        (before.tables.access machine.cBit addr).isSome := by
      intro addr
      rw [haccess, isSome_expected]
    obtain ⟨after, hrest, hafter, hexpected⟩ := ih hmiddle
      (fun addr haddr => hwindow addr (hmapped addr ▸ haddr))
      (fun other hother =>
        { hproper other (List.mem_cons_of_mem _ hother) with
          mapped := fun addr haddr => by
            rw [hmapped]
            exact (hproper other (List.mem_cons_of_mem _ hother)).mapped addr haddr })
      hrestFits
    refine ⟨after, ?_, hafter, fun addr => ?_⟩
    · rw [executeAll, Exec.bind_of_ok hrun, hrest]
    · rw [hexpected, expected_cons haccess]

end Share

def PageTables.PointersEncrypted (c : CBit) (tables : PageTables) : Prop :=
  ∀ path table index, path.length ≤ 2 → tables.tableAt c path = some table →
    (tables.entry table index).IsPointer → (tables.entry table index).addr.raw &&& c.mask = c.mask

theorem PageTables.Linked.pointersEncrypted {c : CBit} {tables : PageTables} (h : tables.Linked c) :
    tables.PointersEncrypted c := by
  intro path table index hpath htable hpointer
  obtain ⟨below, hbelow⟩ := (h.entries index (by omega) htable).pointer hpath hpointer
  have hframe := (follow_some hbelow).2
  rw [frameToPointer] at hframe
  split at hframe
  · next hcarries => exact hcarries
  · cases hframe

/-- Requests that stay away from the end of the address space share their pages, change no other
mapping and leave every pointer encrypted. -/
theorem executeAll_shares_exactly {machine : Machine} {boot : BootTables} {rest : VirtAddr → PageTable}
    {fuel : Nat} {shares : List Share} (hm : machine.Works boot.list) (hfuel : 507 ≤ fuel)
    (hproper : ∀ share ∈ shares, share.Proper machine (boot.state machine.cBit rest))
    (hfits : Share.AllFit machine fuel shares (boot.state machine.cBit rest)) :
    ∃ after, (Share.executeAll machine fuel shares : Shim Empty Unit) (boot.state machine.cBit rest) =
        (.ok (), after) ∧
      (∀ addr, after.tables.access machine.cBit addr = if ∃ share ∈ shares, share.Requests addr then
          ((boot.tables machine.cBit rest).access machine.cBit addr).map (Mapping.strip machine.cBit)
        else (boot.tables machine.cBit rest).access machine.cBit addr) ∧
      after.tables.PointersEncrypted machine.cBit := by
  obtain ⟨after, hrun, hafter, haccess⟩ := Share.executeAll_spec hm hfuel shares (boot.inv rest machine)
    (fun _ => boot.inWindow_of_mapped machine.cBit rest) hproper hfits
  exact ⟨after, hrun, haccess, hafter.tidy.linked.pointersEncrypted⟩

theorem setMemoryShared_last_page {machine : Machine} {tables : List VirtAddr} {state : State}
    (hm : machine.Works tables) {page : VirtAddr} (hpage : page.raw + SIZE_4_KIB = 2 ^ 64) (fuel : Nat) :
    (setMemoryShared machine (fuel + 1) page 1 : Shim ε Unit) state = (.ok (), state) := by
  obtain ⟨zero, hzero⟩ : ∃ zero : VirtAddr, zero.raw = 0 := ⟨⟨0, .inl (by decide)⟩, rfl⟩
  have hwindow : page.InWindow := by
    unfold VirtAddr.InWindow SHIM_VIRT_OFFSET
    unfold SIZE_4_KIB at hpage
    omega
  have hfinish : page.add (SIZE_4_KIB * 1) = some zero := by
    rw [VirtAddr.add, Nat.mul_one, hpage, Nat.mod_self, ← hzero, VirtAddr.new_raw]
  have hempty : stepBy page.raw zero.raw SIZE_4_KIB = [] := by
    rw [stepBy, hzero, Nat.zero_sub]
    rfl
  have hclear : clearCBitAddressRange machine (fuel + 1) page zero state = (.ok (), state) := by
    rw [clearCBitAddressRange, if_pos (by omega)]
    rfl
  refine setMemoryShared_eq hm hwindow ⟨le_rfl, by decide⟩ hfinish ?_ hclear
  rw [hempty]
  rfl

theorem windowPage_canonical {n : Nat} (h : n < 2 ^ 27) : SHIM_VIRT_OFFSET + SIZE_4_KIB * n < 2 ^ 47 ∨
    2 ^ 64 - 2 ^ 47 ≤ SHIM_VIRT_OFFSET + SIZE_4_KIB * n ∧ SHIM_VIRT_OFFSET + SIZE_4_KIB * n < 2 ^ 64 := by
  unfold SHIM_VIRT_OFFSET SIZE_4_KIB
  omega

def windowPage (n : Nat) (h : n < 2 ^ 27) : VirtAddr := ⟨SHIM_VIRT_OFFSET + SIZE_4_KIB * n, windowPage_canonical h⟩

theorem windowPage_spec {n : Nat} (h : n < 2 ^ 27) :
    (windowPage n h).InWindow ∧ SIZE_4_KIB ∣ (windowPage n h).raw :=
  ⟨Nat.le_add_right _ _, Nat.dvd_add (by decide) (Nat.dvd_mul_right _ _)⟩

theorem windowPage_inj {m n : Nat} {hm : m < 2 ^ 27} {hn : n < 2 ^ 27}
    (h : windowPage m hm = windowPage n hn) : m = n := by
  have hraw := congrArg VirtAddr.raw h
  simp only [windowPage, SIZE_4_KIB] at hraw
  omega

theorem windowPage_zero_lt : 0 < 2 ^ 27 := by decide

theorem windowPage_shared_lt : 262150 < 2 ^ 27 := by decide

theorem windowPage_second_lt {n : Nat} (h : n < 262400) : n < 2 ^ 27 := by omega

def firstPages : BootTables where
  pml4t := windowPage 0 (by decide)
  pdpt := windowPage 1 (by decide)
  pdtC0000000 := windowPage 2 (by decide)
  ptFfe00000 := windowPage 3 (by decide)
  inWindow := by
    simp only [List.mem_cons, List.not_mem_nil, or_false]
    rintro table (rfl | rfl | rfl | rfl) <;> exact windowPage_spec _
  nodup := by
    simp only [List.nodup_cons, List.mem_cons, List.not_mem_nil, or_false, not_or, not_false_eq_true,
      List.nodup_nil, and_true]
    refine ⟨⟨?_, ?_, ?_⟩, ⟨?_, ?_⟩, ?_⟩ <;> exact fun h => absurd (windowPage_inj h) (by decide)

def nextPages : Machine where
  cBit := .bit51
  tryAlloc n := if h : n < TABLES then some (windowPage (n + 4) (by unfold TABLES at h; omega)) else none
  pvalidate _ := true
  pageStateChange _ := true

theorem nextPages_works : nextPages.Works firstPages.list where
  alloc := by
    intro n hn
    refine ⟨_, dif_pos hn, (windowPage_spec _).1, (windowPage_spec _).2, ?_⟩
    simp only [BootTables.list, firstPages, List.mem_cons, List.not_mem_nil, or_false, not_or]
    refine ⟨?_, ?_, ?_, ?_⟩ <;> exact fun h => absurd (windowPage_inj h) (by omega)
  distinct := by
    intro m n page hm hn
    simp only [nextPages] at hm hn
    split at hm
    · split at hn
      · have := windowPage_inj (Option.some.inj (hm.trans hn.symm))
        omega
      · cases hn
    · cases hm
  pvalidate _ := rfl
  pageStateChange _ := rfl

theorem BootTables.proper (boot : BootTables) (rest : VirtAddr → PageTable) {machine : Machine}
    {share : Share} (hstart : share.start.InWindow) (haligned : share.start.raw % SIZE_4_KIB = 0)
    (hone : 1 ≤ share.npages) (hmax : share.npages ≤ 253) :
    share.Proper machine (boot.state machine.cBit rest) where
  aligned := haligned
  one_le := hone
  le_max := hmax
  mapped := by
    rintro addr ⟨hlo, -⟩
    have hwindow : addr.InWindow := by
      unfold VirtAddr.page at hlo
      unfold VirtAddr.InWindow SHIM_VIRT_OFFSET at hstart ⊢
      unfold SIZE_4_KIB at hlo haligned
      omega
    change ((boot.tables machine.cBit rest).access machine.cBit addr).isSome
    rw [boot.access_eq, if_pos (VirtAddr.inWindow_iff.mp hwindow)]
    rfl

def noTables : VirtAddr → PageTable := fun _ _ => .unused

theorem Share.fits_windowPage {machine : Machine} {state : State} {n : Nat} (hn : n < 262400)
    (share : Share) (hstart : share.start = windowPage n (by omega)) (hmax : share.npages ≤ 253) :
    share.Fits machine state := by
  have hraw : share.start.raw = SHIM_VIRT_OFFSET + SIZE_4_KIB * n := by rw [hstart]; rfl
  unfold SHIM_VIRT_OFFSET SIZE_4_KIB at hraw
  refine ⟨by unfold SIZE_4_KIB; omega, fun hlast => ?_⟩
  unfold LAST_2_MIB BYTES_2_MIB at hlast
  omega

theorem Share.proper_windowPage {machine : Machine} {n : Nat} (hn : n < 2 ^ 27) (share : Share)
    (hstart : share.start = windowPage n hn) (hone : 1 ≤ share.npages) (hmax : share.npages ≤ 253) :
    share.Proper machine (firstPages.state machine.cBit noTables) := by
  obtain ⟨hwindow, haligned⟩ := windowPage_spec hn
  rw [← hstart] at hwindow haligned
  exact firstPages.proper noTables hwindow (Nat.mod_eq_zero_of_dvd haligned) hone hmax

def sharedTwice : List Share :=
  [.setMemoryShared (windowPage 262150 (by decide)) 3,
    .ghcbMsrMakePageShared (windowPage 262151 (by decide))]

theorem executeAll_shares_exactly_twice :
    ∃ after, (Share.executeAll nextPages 507 sharedTwice : Shim Empty Unit)
        (firstPages.state nextPages.cBit noTables) = (.ok (), after) ∧
      (∀ addr, after.tables.access nextPages.cBit addr = if ∃ share ∈ sharedTwice, share.Requests addr then
          ((firstPages.tables nextPages.cBit noTables).access nextPages.cBit addr).map
            (Mapping.strip nextPages.cBit)
        else (firstPages.tables nextPages.cBit noTables).access nextPages.cBit addr) ∧
      after.tables.PointersEncrypted nextPages.cBit := by
  apply executeAll_shares_exactly nextPages_works le_rfl
  · simp only [sharedTwice, List.mem_cons, List.not_mem_nil, or_false]
    rintro share (rfl | rfl)
    · exact Share.proper_windowPage (by decide) _ rfl (by decide) (by decide)
    · exact Share.proper_windowPage (by decide) _ rfl (by decide) (by decide)
  · exact ⟨Share.fits_windowPage (n := 262150) (by decide) _ rfl (by decide),
      Share.fits_windowPage (n := 262151) (by decide) _ rfl (by decide), trivial⟩

/-- The last page of the window stays encrypted, although it is to be shared. -/
theorem last_page_stays_encrypted : ∃ page : VirtAddr,
    (Share.setMemoryShared page 1).Proper nextPages (firstPages.state nextPages.cBit noTables) ∧
    (∀ fuel, 507 ≤ fuel → (Share.executeAll nextPages fuel [.setMemoryShared page 1] : Shim Empty Unit)
      (firstPages.state nextPages.cBit noTables) =
        (.ok (), firstPages.state nextPages.cBit noTables)) ∧
    (firstPages.tables nextPages.cBit noTables).access nextPages.cBit page ≠
      ((firstPages.tables nextPages.cBit noTables).access nextPages.cBit page).map
        (Mapping.strip nextPages.cBit) := by
  obtain ⟨page, hpage⟩ : ∃ page : VirtAddr, page.raw + SIZE_4_KIB = 2 ^ 64 :=
    ⟨windowPage (2 ^ 27 - 1) (by decide), by decide⟩
  have hwindow : page.InWindow := by
    unfold VirtAddr.InWindow SHIM_VIRT_OFFSET
    unfold SIZE_4_KIB at hpage
    omega
  refine ⟨page, firstPages.proper noTables hwindow ?_ le_rfl (Nat.le_add_left 1 252), fun fuel hfuel => ?_, ?_⟩
  · change page.raw % SIZE_4_KIB = 0
    unfold SIZE_4_KIB at hpage ⊢
    omega
  · obtain ⟨fuel, rfl⟩ : ∃ f, fuel = f + 1 := ⟨fuel - 1, by omega⟩
    exact Exec.bind_of_ok (setMemoryShared_last_page nextPages_works hpage fuel)
  · rw [firstPages.access_eq, if_pos (VirtAddr.inWindow_iff.mp hwindow), Option.map_some]
    intro h
    have hphys := congrArg Mapping.phys (Option.some.inj h)
    rw [Mapping.strip, CBit.andNot_add_mask _ page.sub_offset_lt] at hphys
    have hmask : nextPages.cBit.mask = 2 ^ 51 := rfl
    dsimp only at hphys
    omega

end Enarx.Kvm
