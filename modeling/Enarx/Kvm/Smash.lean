import Enarx.Kvm.Split

/-!
# One call of `smash`

What `smash` does to the tables, by the size of the page that maps the address.
-/
namespace Enarx.Kvm

open Shim

theorem PageTableEntry.of_frame {entry : PageTableEntry} {frame : PhysAddr} (h : entry.frame = .ok frame) :
    entry.IsPointer ∧ entry.addr = frame := by
  unfold PageTableEntry.frame at h
  split at h
  · cases h
  · next hpresent =>
    split at h
    · cases h
    · next hhuge =>
      cases h
      exact ⟨⟨by simpa using hpresent, by simpa using hhuge⟩, rfl⟩

theorem nextTable_table {c : CBit} {entry : PageTableEntry} {below : VirtAddr}
    (h : nextTable c entry = some (.table below)) : entry.follow c = some below := by
  unfold nextTable at h
  split at h
  · next frame hframe =>
    obtain ⟨ptr, hptr, hbelow⟩ := Option.map_eq_some_iff.mp h
    cases hbelow
    obtain ⟨hpointer, haddr⟩ := PageTableEntry.of_frame hframe
    rw [PageTableEntry.follow, if_pos hpointer, haddr, hptr]
  · cases h
  · cases h

theorem of_nextTable_huge {c : CBit} {entry : PageTableEntry}
    (h : nextTable c entry = some .mappedToHugePage) :
    entry.flags.present = true ∧ entry.flags.hugePage = true := by
  cases hpresent : entry.flags.present with
  | false =>
    rw [nextTable_of_absent hpresent] at h
    cases h
  | true =>
    cases hhuge : entry.flags.hugePage with
    | true => exact ⟨rfl, rfl⟩
    | false =>
      rw [nextTable, PageTableEntry.frame_pointer ⟨hpresent, hhuge⟩] at h
      obtain ⟨ptr, -, hptr⟩ := Option.map_eq_some_iff.mp h
      cases hptr

namespace PageTables

variable {c : CBit} {tables : PageTables} {addr : VirtAddr}

theorem exists_follow_last (path : List (Fin 512)) {i : Fin 512} {below : VirtAddr}
    (h : tables.tableAt c (path ++ [i]) = some below) :
    ∃ table, tables.tableAt c path = some table ∧ (tables.entry table i).follow c = some below := by
  obtain ⟨table, htable, -⟩ := Option.bind_eq_some_iff.mp ((Radix.tableAt_append path [i]).symm.trans h)
  exact ⟨table, htable, (tableAt_snoc htable i).symm.trans h⟩

theorem exists_follow {i j : Fin 512} {p2 : VirtAddr} (h : tables.tableAt c [i, j] = some p2) :
    ∃ p3, (tables.entry tables.level4 i).follow c = some p3 ∧ (tables.entry p3 j).follow c = some p2 := by
  obtain ⟨p3, h4, hbelow⟩ := Option.bind_eq_some_iff.mp h
  obtain ⟨p2, h3, hp2⟩ := Option.bind_eq_some_iff.mp hbelow
  cases hp2
  exact ⟨p3, h4, h3⟩

def Reaches (c : CBit) (tables : PageTables) (addr : VirtAddr) : MappedFrame → Prop
  | .size4KiB start => ∃ p1, tables.tableAt c [addr.p4Index, addr.p3Index, addr.p2Index] = some p1 ∧
      start = (tables.entry p1 addr.p1Index).addr.raw
  | .size2MiB start => ∃ p2, tables.tableAt c [addr.p4Index, addr.p3Index] = some p2 ∧
      nextTable c (tables.entry p2 addr.p2Index) = some .mappedToHugePage ∧
      start = frameStart (tables.entry p2 addr.p2Index).addr BYTES_2_MIB
  | .size1GiB start => ∃ p3, tables.tableAt c [addr.p4Index] = some p3 ∧
      nextTable c (tables.entry p3 addr.p3Index) = some .mappedToHugePage ∧
      start = frameStart (tables.entry p3 addr.p3Index).addr BYTES_1_GIB

theorem reaches_of_translate {frame : MappedFrame} {offset : Nat} {flags : PageTableFlags}
    (h : tables.translate c addr = some (.mapped frame offset flags)) : tables.Reaches c addr frame := by
  have hroot : tables.tableAt c [] = some tables.level4 := rfl
  rw [translate] at h
  simp only [Option.bind_eq_bind] at h
  obtain ⟨next4, h4, h⟩ := Option.bind_eq_some_iff.mp h
  cases next4 with
  | notMapped => cases h
  | mappedToHugePage => cases h
  | table p3 =>
    have hp3 := (tableAt_snoc hroot addr.p4Index).trans (nextTable_table h4)
    obtain ⟨next3, h3, h⟩ := Option.bind_eq_some_iff.mp h
    cases next3 with
    | notMapped => cases h
    | mappedToHugePage =>
      cases h
      exact ⟨p3, hp3, h3, rfl⟩
    | table p2 =>
      have hp2 := (tableAt_snoc hp3 addr.p3Index).trans (nextTable_table h3)
      obtain ⟨next2, h2, h⟩ := Option.bind_eq_some_iff.mp h
      cases next2 with
      | notMapped => cases h
      | mappedToHugePage =>
        cases h
        exact ⟨p2, hp2, h2, rfl⟩
      | table p1 =>
        have hp1 := (tableAt_snoc hp2 addr.p2Index).trans (nextTable_table h2)
        dsimp only at h
        split at h
        · cases h
        · split at h
          · cases h
            exact ⟨p1, hp1, rfl⟩
          · cases h

theorem translate_of_p3 {p3 : VirtAddr} (hp3 : tables.tableAt c [addr.p4Index] = some p3)
    (hnext : nextTable c (tables.entry p3 addr.p3Index) = none) : tables.translate c addr = none := by
  have hroot : tables.tableAt c [] = some tables.level4 := rfl
  have h4 := (tableAt_snoc hroot addr.p4Index).symm.trans hp3
  simp [translate, nextTable_of_follow h4, hnext]

theorem translate_of_p2 {p2 : VirtAddr} (hp2 : tables.tableAt c [addr.p4Index, addr.p3Index] = some p2) :
    (nextTable c (tables.entry p2 addr.p2Index) = none → tables.translate c addr = none) ∧
    (nextTable c (tables.entry p2 addr.p2Index) = some .mappedToHugePage →
      ∃ start offset flags, tables.translate c addr = some (.mapped (.size2MiB start) offset flags)) := by
  obtain ⟨p3, h4, h3⟩ := exists_follow hp2
  constructor
  · intro hnext
    simp [translate, nextTable_of_follow h4, nextTable_of_follow h3, hnext]
  · intro hnext
    simp [translate, nextTable_of_follow h4, nextTable_of_follow h3, hnext]

theorem translate_of_p1 {p2 p1 : VirtAddr} (hp2 : tables.tableAt c [addr.p4Index, addr.p3Index] = some p2)
    (h2 : (tables.entry p2 addr.p2Index).follow c = some p1)
    (hpresent : (tables.entry p1 addr.p1Index).flags.present = true) :
    ∃ start offset flags, tables.translate c addr = some (.mapped (.size4KiB start) offset flags) := by
  obtain ⟨p3, h4, h3⟩ := exists_follow hp2
  have hused : tables.entry p1 addr.p1Index ≠ .unused := by
    intro hunused
    rw [hunused] at hpresent
    cases hpresent
  have haligned := Nat.mod_eq_zero_of_dvd (tables.entry p1 addr.p1Index).aligned
  simp [translate, nextTable_of_follow h4, nextTable_of_follow h3, nextTable_of_follow h2, hused,
    PageTableEntry.isUnused, haligned]

end PageTables

def State.took (state : State) : State := { state with taken := state.taken + 1 }

section

variable {machine : Machine} {state : State} {addr new : VirtAddr} {start offset : Nat} {flags : PageTableFlags}

theorem tryAlloc_apply (h : machine.tryAlloc state.taken = some new) :
    (tryAlloc machine : Shim ε VirtAddr) state = (.ok new, state.took) := by
  rw [tryAlloc, Exec.bind_of_ok get_apply]
  change (unwrap (machine.tryAlloc state.taken) : Shim ε VirtAddr) state.took = _
  rw [h, unwrap_some]

theorem exists_tryAlloc {frame : MappedFrame} {after : State}
    (h : state.tables.translate machine.cBit addr = some (.mapped frame offset flags))
    (hlarge : ∀ start, frame ≠ .size4KiB start) (hrun : smash machine addr state = (.ok (), after)) :
    ∃ new, machine.tryAlloc state.taken = some new := by
  rw [smash, Exec.bind_of_ok get_apply, h, Exec.bind_of_ok (unwrap_some _)] at hrun
  obtain ⟨new, middle, halloc⟩ : ∃ new middle,
      (tryAlloc machine : Shim PagetablesError VirtAddr) state = (.ok new, middle) := by
    cases frame with
    | size4KiB start => exact absurd rfl (hlarge start)
    | size2MiB start =>
      obtain ⟨new, middle, halloc, -⟩ := Exec.bind_ok hrun
      exact ⟨new, middle, halloc⟩
    | size1GiB start =>
      obtain ⟨new, middle, halloc, -⟩ := Exec.bind_ok hrun
      exact ⟨new, middle, halloc⟩
  rw [tryAlloc, Exec.bind_of_ok get_apply] at halloc
  change (unwrap (machine.tryAlloc state.taken) : Shim PagetablesError VirtAddr) state.took = _ at halloc
  cases hnew : machine.tryAlloc state.taken with
  | some new => exact ⟨new, rfl⟩
  | none =>
    rw [hnew] at halloc
    cases halloc

theorem smash_size4KiB
    (h : state.tables.translate machine.cBit addr = some (.mapped (.size4KiB start) offset flags)) :
    smash machine addr state = (.ok (), state) := by
  rw [smash, Exec.bind_of_ok get_apply, h, Exec.bind_of_ok (unwrap_some _)]
  rfl

theorem smash_size2MiB {p2 : VirtAddr}
    (h : state.tables.translate machine.cBit addr = some (.mapped (.size2MiB start) offset flags))
    (hnew : machine.tryAlloc state.taken = some new)
    (hs : PageTables.Large machine.cBit state.tables [addr.p4Index, addr.p3Index] p2 addr.p2Index new) :
    smash machine addr state = (.ok (), state.took.withMem hs.after.mem) := by
  obtain ⟨p3, h4, h3⟩ := PageTables.exists_follow hs.tableAt_eq
  have hbelow4 : (tableBelow machine.cBit state.took.tables.level4 addr.p4Index :
    Shim PagetablesError VirtAddr) state.took = (.ok p3, state.took) := tableBelow_eq h4
  have hbelow3 : (tableBelow machine.cBit p3 addr.p3Index :
    Shim PagetablesError VirtAddr) state.took = (.ok p2, state.took) := tableBelow_eq h3
  have hs' : PageTables.Large machine.cBit state.took.tables [addr.p4Index, addr.p3Index] p2 addr.p2Index
    new := hs
  rw [smash, Exec.bind_of_ok get_apply, h, Exec.bind_of_ok (unwrap_some _)]
  change (tryAlloc machine >>= _ : Shim PagetablesError Unit) state = _
  rw [Exec.bind_of_ok (tryAlloc_apply hnew), Exec.bind_of_ok get_apply]
  refine (Exec.bind_of_ok hbelow4).trans ((Exec.bind_of_ok hbelow3).trans ?_)
  exact (Exec.bind_of_ok entry_apply).trans (hs'.splitEntry pageSize_three.symm rfl)

theorem smash_size1GiB {p3 : VirtAddr}
    (h : state.tables.translate machine.cBit addr = some (.mapped (.size1GiB start) offset flags))
    (hnew : machine.tryAlloc state.taken = some new)
    (hs : PageTables.Large machine.cBit state.tables [addr.p4Index] p3 addr.p3Index new) :
    smash machine addr state = (.ok (), state.took.withMem hs.after.mem) := by
  obtain ⟨p3, h4, hp3⟩ := Option.bind_eq_some_iff.mp hs.tableAt_eq
  cases hp3
  have hbelow4 : (tableBelow machine.cBit state.took.tables.level4 addr.p4Index :
    Shim PagetablesError VirtAddr) state.took = (.ok p3, state.took) := tableBelow_eq h4
  have hs' : PageTables.Large machine.cBit state.took.tables [addr.p4Index] p3 addr.p3Index new := hs
  rw [smash, Exec.bind_of_ok get_apply, h, Exec.bind_of_ok (unwrap_some _)]
  change (tryAlloc machine >>= _ : Shim PagetablesError Unit) state = _
  rw [Exec.bind_of_ok (tryAlloc_apply hnew), Exec.bind_of_ok get_apply]
  refine (Exec.bind_of_ok hbelow4).trans ?_
  exact (Exec.bind_of_ok entry_apply).trans (hs'.splitEntry pageSize_two.symm rfl)

end

end Enarx.Kvm
