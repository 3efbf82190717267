import Enarx.Kvm.Ownership

/-!
# Unmapping memory

`unmap_memory` goes from page to page. It stops at the first one that is not mapped
by an entry of the last level.
-/
namespace Enarx.Kvm

open Alloc PageTables

namespace PageTables

variable (c : CBit) (tables : PageTables)

def lastEntry? (addr : VirtAddr) : Option PageTableEntry :=
  (tables.tableAt c addr.stem).map (tables.entry · addr.p1Index)

def mapsSmall (addr : VirtAddr) : Bool := (tables.lastEntry? c addr).any fun entry => entry.IsPointer

end PageTables

section

variable {c : CBit} {memory : Memory} {addr last start : VirtAddr} {walked : List VirtAddr}
  {npages size : Nat}

theorem mapsSmall_eq_false {p q : List (Fin 512)} (hstem : addr.stem = p ++ q)
    (h : memory.tables.tableAt c p = none) : memory.tables.mapsSmall c addr = false := by
  rw [tableAt] at h
  rw [mapsSmall, lastEntry?, hstem, tableAt, Radix.tableAt_append, h]
  rfl

theorem nextTableMut_yields {table : VirtAddr} {path : List (Fin 512)} (index : Fin 512) (hlength : path.length ≤ 2)
    (htable : memory.tables.tableAt c path = some table) : Exec.Yields (nextTableMut c table index) memory
      (fun below after => memory = after ∧ memory.tables.tableAt c (path ++ [index]) = some below)
      (Stop.Lets (memory.tables.Tidy c)
        fun _ after => memory = after ∧ memory.tables.tableAt c (path ++ [index]) = none) := by
  have hbelow := tableAt_snoc htable index
  have hmissing : ∀ step, nextTable c (memory.tables.entry table index) = some step →
      (∀ below, step ≠ .table below) → memory.tables.tableAt c (path ++ [index]) = none := by
    intro step hstep hne
    rw [hbelow]
    cases hfollow : (memory.tables.entry table index).follow c with
    | none => rfl
    | some below =>
      rw [nextTable_of_follow hfollow] at hstep
      exact absurd (Option.some.inj hstep).symm (hne below)
  apply Exec.Yields.get_bind
  apply unwrap_bind
  · intro step hstep
    cases step with
    | table below => exact ⟨rfl, hbelow.trans (nextTable_table hstep)⟩
    | notMapped => exact ⟨rfl, hmissing _ hstep nofun⟩
    | mappedToHugePage => exact ⟨rfl, hmissing _ hstep nofun⟩
  · intro hnone htidy
    exact ((htidy.entries index (by omega) htable).points hlength).nextTable_ne_none hnone

theorem unmap_yields (page : VirtAddr) : Exec.Yields (unmap c page) memory
      (fun frame after => ∃ table, memory.tables.tableAt c page.stem = some table ∧
        (memory.tables.entry table page.p1Index).IsPointer ∧
        frame = (memory.tables.entry table page.p1Index).addr ∧
        after = { memory with tables := memory.tables.store table page.p1Index .unused })
      (Stop.Lets (memory.tables.Tidy c) fun _ after => after = memory ∧ memory.tables.mapsSmall c page = false) := by
  have hstopped : ∀ {p q : List (Fin 512)}, page.stem = p ++ q → ∀ (stop : Stop UnmapError) (after : Memory),
      stop.Lets (memory.tables.Tidy c) (fun _ after => memory = after ∧ memory.tables.tableAt c p = none) after →
      stop.Lets (memory.tables.Tidy c) (fun _ after => after = memory ∧ memory.tables.mapsSmall c page = false) after :=
    fun hstem _ _ hstop => hstop.imp id fun _ ⟨hsame, hnone⟩ => ⟨hsame.symm, mapsSmall_eq_false hstem hnone⟩
  unfold unmap
  apply Exec.Yields.get_bind
  refine ((@nextTableMut_yields c memory _ [] page.p4Index (by decide) rfl).imp (fun _ _ => id) (hstopped rfl)).bind ?_
  rintro p3 _ ⟨rfl, hp3⟩
  refine ((nextTableMut_yields page.p3Index (by simp) hp3).imp (fun _ _ => id) (hstopped rfl)).bind ?_
  rintro p2 _ ⟨rfl, hp2⟩
  refine ((nextTableMut_yields page.p2Index (by simp) hp2).imp (fun _ _ => id) (hstopped rfl)).bind ?_
  rintro p1 _ ⟨rfl, hp1⟩
  apply Exec.Yields.get_bind
  have hlast : memory.tables.mapsSmall c page = decide (memory.tables.entry p1 page.p1Index).IsPointer := by
    have hp1' : memory.tables.tableAt c page.stem = some p1 := hp1
    rw [mapsSmall, lastEntry?, hp1']
    rfl
  cases hframe : (memory.tables.entry p1 page.p1Index).frame with
  | ok frame =>
    obtain ⟨hpointer, rfl⟩ := PageTableEntry.of_frame hframe
    exact ⟨p1, hp1, hpointer, rfl, rfl⟩
  | error error =>
    have hnot : ¬(memory.tables.entry p1 page.p1Index).IsPointer := by
      intro hpointer
      rw [PageTableEntry.frame_pointer hpointer] at hframe
      cases hframe
    cases error with
    | frameNotPresent => exact ⟨rfl, hlast.trans (decide_eq_false hnot)⟩
    | hugeFrame => exact ⟨rfl, hlast.trans (decide_eq_false hnot)⟩

theorem VirtAddr.add_page_ne_none (page : VirtAddr) : page.add SIZE_4_KIB ≠ none := by
  have hcanonical := page.canonical
  unfold VirtAddr.add VirtAddr.new SIZE_4_KIB
  split_ifs
  · exact Option.some_ne_none _
  · exact Option.some_ne_none _
  · exact Option.some_ne_none _
  · omega

theorem frameToPage_eq {frame : PhysAddr} {pa : Nat} (hpa : pa < 2 ^ 39)
    (haddr : frame.raw = pa + c.mask ∨ frame.raw = pa) : frameToPage c frame = some (pa / SIZE_4_KIB) := by
  have hor : frame.raw ||| c.mask = pa + c.mask := by
    rcases haddr with haddr | haddr
    · rw [haddr, ← c.or_mask hpa, Nat.or_assoc, Nat.or_self]
    · rw [haddr, c.or_mask hpa]
  have hphys : andNot (frame.raw ||| c.mask) c.mask = pa := by rw [hor, c.andNot_add_mask hpa]
  have hwindow : 2 ^ 64 - SHIM_VIRT_OFFSET = 2 ^ 39 := by decide
  rw [frameToPage]
  simp only [hphys, hwindow, if_pos hpa]

def UnmapStep (c : CBit) (before : Memory) (page : VirtAddr) (after : Memory) : Prop :=
  ∃ table shimPage, before.tables.tableAt c page.stem = some table ∧
    (before.tables.entry table page.p1Index).IsPointer ∧
    frameToPage c (before.tables.entry table page.p1Index).addr = some shimPage ∧
    after = { before with
      tables := before.tables.store table page.p1Index .unused
      allocator := { before.allocator with
        free := before.allocator.free ∪ Finset.Ico shimPage (shimPage + 1) }
      returned := before.returned ++ [shimPage] }

namespace UnmapStep

variable {before after : Memory} {page : VirtAddr}

theorem mapsSmall_before (h : UnmapStep c before page after) : before.tables.mapsSmall c page = true := by
  obtain ⟨table, shimPage, htable, hpointer, -⟩ := h
  rw [mapsSmall, lastEntry?, htable]
  exact decide_eq_true hpointer

theorem isTree (h : UnmapStep c before page after) (htree : before.tables.IsTree c) :
    after.tables.IsTree c := by
  obtain ⟨table, shimPage, htable, -, -, rfl⟩ := h
  exact htree.set htable page.length_stem

theorem access (h : UnmapStep c before page after) (htree : before.tables.IsTree c) (addr : VirtAddr) :
    after.tables.access c addr = if addr.page = page.page then none else before.tables.access c addr := by
  obtain ⟨table, shimPage, htable, -, -, rfl⟩ := h
  split
  · next hpage =>
    rw [PageTables.access, VirtAddr.path_eq_iff.mpr hpage, VirtAddr.path_eq_stem]
    refine (htree.lookup_set_same htable page.length_stem).trans ?_
    exact Radix.along_comm (g := fun _ => none) (fun _ _ => rfl) none
  · next hpage =>
    apply htree.lookup_set_ne htable page.length_stem addr.length_path
    intro hpath
    exact hpage (VirtAddr.path_eq_iff.mp (hpath.trans page.path_eq_stem.symm))

theorem leaf? (h : UnmapStep c before page after) (htidy : before.tables.Tidy c) :
    after.tables.Tidy c ∧ ∀ addr : VirtAddr, after.tables.leaf? c addr =
      if addr.page = page.page then none else before.tables.leaf? c addr := by
  obtain ⟨table, shimPage, htable, -, -, rfl⟩ := h
  refine ⟨htidy.store page.length_stem htable (.unused c 3), fun addr => ?_⟩
  refine (leaf?_store htidy page.length_stem htable addr).trans ?_
  rw [asLeaf_unused, ← VirtAddr.path_eq_stem]
  exact if_congr VirtAddr.path_eq_iff rfl rfl

theorem mapsSmall (h : UnmapStep c before page after) (htree : before.tables.IsTree c) (addr : VirtAddr) :
    after.tables.mapsSmall c addr = (before.tables.mapsSmall c addr && addr.page != page.page) := by
  obtain ⟨table, shimPage, htable, -, -, rfl⟩ := h
  have htableAt : (before.tables.store table page.p1Index .unused).tableAt c addr.stem =
      before.tables.tableAt c addr.stem := htree.tableAt_set htable page.length_stem addr.length_stem.le
  rw [PageTables.mapsSmall, PageTables.mapsSmall, lastEntry?, lastEntry?, htableAt]
  cases hother : before.tables.tableAt c addr.stem with
  | none => rfl
  | some other =>
    simp only [Option.map_some, Option.any_some]
    by_cases hpage : addr.page = page.page
    · obtain ⟨hstem, hindex⟩ := VirtAddr.stem_eq_iff.mpr hpage
      have hsame : other = table := Option.some.inj (hother.symm.trans (hstem ▸ htable))
      have hentry : (before.tables.store table page.p1Index .unused).entry other addr.p1Index = .unused := by
        rw [hsame, hindex]
        exact Radix.set_same before.tables.mem table page.p1Index .unused
      rw [hentry]
      simp [hpage, PageTableEntry.IsPointer, PageTableEntry.unused]
    · have hentry : (before.tables.store table page.p1Index .unused).entry other addr.p1Index =
          before.tables.entry other addr.p1Index := by
        apply htree.set_ne htable page.length_stem.le addr.length_stem.le hother
        intro hsame
        exact hpage (VirtAddr.stem_eq_iff.mp hsame)
      rw [hentry]
      simp [hpage]

end UnmapStep

theorem unmapRound_yields (page : VirtAddr) {rest : Alloc UnmapError Unit} {Q : Unit → Memory → Prop}
    {E : UnmapError → Memory → Prop} {good : Prop} (hgood : good → memory.tables.Tidy c)
    (hstep : ∀ after, UnmapStep c memory page after → Exec.Yields rest after Q (Stop.Lets good E))
    (hstop : memory.tables.mapsSmall c page = false → ∀ error, E error memory) :
    Exec.Yields (do
      let frame ← unmap c page
      let shimPage ← unwrap (frameToPage c frame)
      deallocPages shimPage 1
      rest) memory Q (Stop.Lets good E) := by
  generalize hframeToPage : frameToPage c = toPage
  refine Exec.Yields.bind ((unmap_yields page).imp (fun _ _ h => h) ?_) ?_
  · intro stop after hstopped
    refine hstopped.imp hgood fun error ⟨hsame, hsmall⟩ => ?_
    rw [hsame]
    exact hstop hsmall error
  · rintro frame middle ⟨table, htable, hpointer, rfl, rfl⟩
    rw [← hframeToPage]
    apply unwrap_bind
    · intro shimPage hshimPage
      apply Exec.Yields.modify_bind
      exact hstep _ ⟨table, shimPage, htable, hpointer, hshimPage, rfl⟩
    · intro hnone hall
      obtain ⟨pa, hpa, haddr⟩ :=
        ((hgood hall).entries page.p1Index page.length_stem.le htable).small page.length_stem hpointer.1
      cases hnone.symm.trans (frameToPage_eq hpa haddr)

inductive UnmapSteps (c : CBit) : Memory → List VirtAddr → Memory → Prop where
  | nil {memory : Memory} : UnmapSteps c memory [] memory
  | cons {before middle after : Memory} {page : VirtAddr} {rest : List VirtAddr}
      (step : UnmapStep c before page middle) (steps : UnmapSteps c middle rest after) :
      UnmapSteps c before (page :: rest) after

/-- The pages that `Page::range_inclusive` gives; their number bounds it. -/
def pageWalk (last : VirtAddr) : Nat → VirtAddr → List VirtAddr
  | 0, _ => []
  | npages + 1, page =>
    if page.raw ≤ last.raw then page :: (page.add SIZE_4_KIB).elim [] (pageWalk last npages) else []

/-- The pages of a walk are unmapped up to the first one that is not mapped with 4 KiB. -/
def UnmapsUntil (c : CBit) (walked : List VirtAddr) (before after : Memory) : Prop :=
  ∃ done rest, walked = done ++ rest ∧ UnmapSteps c before done after ∧
    ∀ page ∈ rest.head?, after.tables.mapsSmall c page = false

/-- A page of the walk is not mapped with 4 KiB, and so those behind it have been left as they were. -/
def UnmapsShort (c : CBit) (walked : List VirtAddr) (before after : Memory) : Prop :=
  ∃ done page rest, walked = done ++ page :: rest ∧ UnmapSteps c before done after ∧
    after.tables.mapsSmall c page = false

theorem UnmapSteps.until {before after : Memory} (h : UnmapSteps c before walked after) :
    UnmapsUntil c walked before after := ⟨walked, [], (List.append_nil _).symm, h, nofun⟩

theorem UnmapsShort.until {before after : Memory} (h : UnmapsShort c walked before after) :
    UnmapsUntil c walked before after := by
  obtain ⟨done, page, rest, hwalk, hsteps, hsmall⟩ := h
  refine ⟨done, page :: rest, hwalk, hsteps, ?_⟩
  rintro _ ⟨⟩
  exact hsmall

theorem unmapPages_yields (npages : Nat) (page : VirtAddr) :
    Exec.Yields (unmapPages c last npages page) memory
      (fun _ after => UnmapSteps c memory (pageWalk last npages page) after)
      (Stop.Lets (memory.tables.Tidy c ∧ last.raw + 2 * SIZE_4_KIB ≤ 2 ^ 64 ∧
          (page.raw ≤ last.raw → last.raw - page.raw < SIZE_4_KIB * npages))
        fun _ after => UnmapsShort c (pageWalk last npages page) memory after) := by
  induction npages generalizing memory page with
  | zero =>
    unfold unmapPages
    rw [pageWalk]
    split
    · next hle => exact fun hgood => absurd (hgood.2.2 hle) (Nat.not_lt_zero _)
    · exact Exec.Yields.pure .nil
  | succ npages ih =>
    have hsome := page.add_page_ne_none
    unfold unmapPages
    rw [pageWalk]
    generalize hnext : page.add SIZE_4_KIB = next? at hsome
    split
    · next hle =>
      refine unwrap_bind ?_ fun hnone => absurd hnone hsome
      rintro next rfl
      apply unmapRound_yields page And.left
      · intro middle hstep
        refine (ih next).imp ?_ ?_
        · intro _ after hsteps
          exact .cons hstep hsteps
        · intro stop after hstop
          refine hstop.imp ?_ fun _ ⟨done, stopped, rest, hwalk, hsteps, hsmall⟩ => ?_
          · rintro ⟨htidy, hlast, hnpages⟩
            refine ⟨(hstep.leaf? htidy).1, hlast, fun hnextLe => ?_⟩
            have hrest := hnpages hle
            have hnew := VirtAddr.raw_of_new hnext
            unfold SIZE_4_KIB at *
            omega
          · exact ⟨page :: done, stopped, rest, congrArg (page :: ·) hwalk, .cons hstep hsteps, hsmall⟩
      · exact fun hsmall _ => ⟨[], page, _, rfl, .nil, hsmall⟩
    · exact Exec.Yields.pure .nil

/-- The pages of a walk up to the first one that is not mapped with 4 KiB, or not any more. -/
def reached (small : VirtAddr → Bool) : List VirtAddr → List VirtAddr
  | [] => []
  | page :: rest =>
    if small page then page :: reached (fun other => small other && other.page != page.page) rest else []

theorem small_of_mem_reached {small : VirtAddr → Bool} {page : VirtAddr}
    (h : page ∈ reached small walked) : small page = true := by
  induction walked generalizing small with
  | nil => cases h
  | cons first rest ih =>
    rw [reached] at h
    split at h
    · next hfirst =>
      rcases List.mem_cons.mp h with rfl | hrest
      · exact hfirst
      · have hboth := ih hrest
        rw [Bool.and_eq_true] at hboth
        exact hboth.1
    · cases h

namespace UnmapSteps

variable {before after : Memory} {done : List VirtAddr}

theorem done_eq (h : UnmapSteps c before done after) (htree : before.tables.IsTree c) {rest : List VirtAddr}
    (hrest : ∀ page ∈ rest.head?, after.tables.mapsSmall c page = false) :
    done = reached (before.tables.mapsSmall c) (done ++ rest) := by
  induction h with
  | nil =>
    cases rest with
    | nil => rfl
    | cons page rest =>
      have hsmall := hrest page rfl
      rw [List.nil_append, reached, hsmall]
      rfl
  | cons step steps ih =>
    have hmiddle := ih (step.isTree htree) hrest
    rw [funext (step.mapsSmall htree)] at hmiddle
    rw [List.cons_append, reached, if_pos step.mapsSmall_before, ← hmiddle]

theorem access (h : UnmapSteps c before done after) (htree : before.tables.IsTree c) (addr : VirtAddr) :
    after.tables.access c addr =
      if addr.page ∈ done.map VirtAddr.page then none else before.tables.access c addr := by
  induction h with
  | nil => rfl
  | @cons _ _ _ page rest step steps ih =>
    rw [ih (step.isTree htree), step.access htree, List.map_cons]
    by_cases hpage : addr.page = page.page
    · simp [hpage]
    · simp [hpage]

theorem leaf? (h : UnmapSteps c before done after) (htidy : before.tables.Tidy c) :
    after.tables.Tidy c ∧ ∀ addr : VirtAddr, after.tables.leaf? c addr =
      if addr.page ∈ done.map VirtAddr.page then none else before.tables.leaf? c addr := by
  induction h with
  | nil => exact ⟨htidy, fun _ => rfl⟩
  | @cons _ _ _ page rest step steps ih =>
    obtain ⟨hmiddle, hleaf⟩ := step.leaf? htidy
    obtain ⟨hafter, hrest⟩ := ih hmiddle
    refine ⟨hafter, fun addr => ?_⟩
    rw [hrest, hleaf, List.map_cons]
    by_cases hpage : addr.page = page.page
    · simp [hpage]
    · simp [hpage]

theorem mapsSmall (h : UnmapSteps c before done after) (htree : before.tables.IsTree c) {addr : VirtAddr}
    (hfresh : addr.page ∉ done.map VirtAddr.page) :
    after.tables.mapsSmall c addr = before.tables.mapsSmall c addr := by
  induction h with
  | nil => rfl
  | cons step steps ih =>
    rw [List.map_cons, List.mem_cons, not_or] at hfresh
    rw [ih (step.isTree htree) hfresh.2, step.mapsSmall htree, bne_iff_ne.mpr hfresh.1, Bool.and_true]

/-- The page behind those of a walk that has none twice is mapped as before. -/
theorem mapsSmall_next (h : UnmapSteps c before done after) (htree : before.tables.IsTree c) {page : VirtAddr}
    {rest : List VirtAddr} (hnodup : ((done ++ page :: rest).map VirtAddr.page).Nodup) :
    after.tables.mapsSmall c page = before.tables.mapsSmall c page := by
  apply h.mapsSmall htree
  rw [List.map_append, List.map_cons] at hnodup
  intro hmem
  exact (List.nodup_append.mp hnodup).2.2 _ hmem _ List.mem_cons_self rfl

theorem mapFailed (h : UnmapSteps c before done after) : after.mapFailed = before.mapFailed := by
  induction h with
  | nil => rfl
  | cons step steps ih =>
    obtain ⟨table, shimPage, -, -, -, rfl⟩ := step
    exact ih

end UnmapSteps

theorem UnmapsUntil.access {before after : Memory}
    (h : UnmapsUntil c walked before after) (htree : before.tables.IsTree c) (addr : VirtAddr) :
    after.tables.access c addr =
      if addr.page ∈ (reached (before.tables.mapsSmall c) walked).map VirtAddr.page then none
      else before.tables.access c addr := by
  obtain ⟨done, rest, rfl, hsteps, hrest⟩ := h
  rw [← hsteps.done_eq htree hrest]
  exact hsteps.access htree addr

def unmapWalk (virtAddr : VirtAddr) (size : Nat) : List VirtAddr :=
  (pageRange virtAddr size).elim [] fun range =>
    pageWalk range.2 ((range.2.raw - range.1.raw) / SIZE_4_KIB + 1) range.1

theorem VirtAddr.new_low {raw : Nat} (h : raw < 2 ^ 47) : ∃ addr : VirtAddr, new raw = some addr ∧ addr.raw = raw :=
  ⟨⟨raw, .inl h⟩, dif_pos h, rfl⟩

/-- The addresses from one on, for so many bytes, are addresses of the same half of the address space. -/
def VirtAddr.Spans (start : VirtAddr) (size : Nat) : Prop :=
  start.raw + size ≤ 2 ^ 47 ∨ 2 ^ 64 - 2 ^ 47 ≤ start.raw ∧ start.raw + size ≤ 2 ^ 64

theorem VirtAddr.add_spans {offset : Nat} (h : addr.Spans size) (hlt : offset < size) :
    ∃ sum : VirtAddr, addr.add offset = some sum ∧ sum.raw = addr.raw + offset := by
  have hcanonical : addr.raw + offset < 2 ^ 47 ∨ 2 ^ 64 - 2 ^ 47 ≤ addr.raw + offset ∧
      addr.raw + offset < 2 ^ 64 := by
    unfold VirtAddr.Spans at h
    omega
  exact ⟨⟨addr.raw + offset, hcanonical⟩, VirtAddr.add_eq rfl, rfl⟩

theorem VirtAddr.Spans.mono {size' : Nat} (h : start.Spans size) (hle : size' ≤ size) :
    start.Spans size' := by
  unfold VirtAddr.Spans at *
  omega

theorem VirtAddr.Spans.whole (h : start.Spans (SIZE_4_KIB * npages + 1))
    (haligned : SIZE_4_KIB ∣ start.raw) : start.Spans (SIZE_4_KIB * npages + SIZE_4_KIB) := by
  obtain ⟨k, hk⟩ := haligned
  unfold VirtAddr.Spans SIZE_4_KIB at *
  omega

theorem VirtAddr.Spans.advance {next : VirtAddr} {offset : Nat} (h : start.Spans (offset + size))
    (hraw : next.raw = start.raw + offset) : next.Spans size := by
  unfold VirtAddr.Spans at *
  omega

theorem map_page_pageWalk {page : VirtAddr} (hspans : page.Spans (SIZE_4_KIB * npages))
    (hnpages : last.raw + SIZE_4_KIB = page.raw + SIZE_4_KIB * npages) :
    (pageWalk last npages page).map VirtAddr.page = List.range' page.page npages := by
  induction npages generalizing page with
  | zero => rfl
  | succ npages ih =>
    have hle : page.raw ≤ last.raw := by
      unfold SIZE_4_KIB at hnpages
      omega
    have hrest : ((page.add SIZE_4_KIB).elim [] (pageWalk last npages)).map VirtAddr.page =
        List.range' (page.page + 1) npages := by
      cases npages with
      | zero => cases page.add SIZE_4_KIB <;> rfl
      | succ npages =>
        have hlt : SIZE_4_KIB < SIZE_4_KIB * (npages + 1 + 1) := by
          unfold SIZE_4_KIB
          omega
        obtain ⟨next, hnext, hraw⟩ := VirtAddr.add_spans hspans hlt
        have hpage : next.page = page.page + 1 := by
          rw [VirtAddr.page, hraw, Nat.add_div_right _ (by decide)]
          rfl
        have hmore : last.raw + SIZE_4_KIB = next.raw + SIZE_4_KIB * (npages + 1) := by
          rw [hraw, hnpages]
          ring
        rw [Nat.mul_succ, Nat.add_comm] at hspans
        rw [hnext, Option.elim_some, ih (hspans.advance hraw) hmore, hpage]
    rw [pageWalk, if_pos hle, List.map_cons, hrest, List.range'_succ]

theorem VirtAddr.raw_of_containingPage {page : VirtAddr} (h : addr.containingPage = some page) :
    page.raw = addr.page * SIZE_4_KIB := by
  have hcanonical := addr.canonical
  have hraw := VirtAddr.raw_of_new h
  unfold VirtAddr.page SIZE_4_KIB at *
  omega

theorem VirtAddr.raw_of_last {sum : VirtAddr} (hspans : start.Spans size)
    (hsum : start.add size = some sum) (hlast : sum.sub 1 = some last) : last.raw = start.raw + size - 1 := by
  have hcanonical := last.canonical
  have hstart := start.canonical
  have hraw := VirtAddr.raw_of_new hsum
  rw [VirtAddr.sub] at hlast
  split at hlast
  case isFalse => cases hlast
  case isTrue hle =>
    have hraw' := VirtAddr.raw_of_new hlast
    unfold VirtAddr.Spans at hspans
    omega

theorem pageRange_spec {first : VirtAddr} (hspans : start.Spans size)
    (h : pageRange start size = some (first, last)) :
    first.raw = start.page * SIZE_4_KIB ∧ last.raw = (start.raw + size - 1) / SIZE_4_KIB * SIZE_4_KIB := by
  obtain ⟨sum, hsum, h⟩ := Option.bind_eq_some_iff.mp h
  obtain ⟨final, hfinal, h⟩ := Option.bind_eq_some_iff.mp h
  obtain ⟨first', hfirst, h⟩ := Option.bind_eq_some_iff.mp h
  obtain ⟨last', hlast, h⟩ := Option.bind_eq_some_iff.mp h
  cases h
  refine ⟨VirtAddr.raw_of_containingPage hfirst, ?_⟩
  rw [VirtAddr.raw_of_containingPage hlast, VirtAddr.page, VirtAddr.raw_of_last hspans hsum hfinal]

theorem VirtAddr.exists_containingPage (addr : VirtAddr) : ∃ page, addr.containingPage = some page := by
  have hcanonical : addr.raw / SIZE_4_KIB * SIZE_4_KIB < 2 ^ 47 ∨
      2 ^ 64 - 2 ^ 47 ≤ addr.raw / SIZE_4_KIB * SIZE_4_KIB ∧ addr.raw / SIZE_4_KIB * SIZE_4_KIB < 2 ^ 64 := by
    have := addr.canonical
    unfold SIZE_4_KIB
    omega
  exact ⟨⟨_, hcanonical⟩, VirtAddr.new_raw ⟨_, hcanonical⟩⟩

theorem exists_pageRange (hsize : size ≠ 0) (hspans : start.Spans (size + 1)) :
    ∃ first last : VirtAddr, pageRange start size = some (first, last) := by
  obtain ⟨finish, hfinish, hfinishRaw⟩ := VirtAddr.add_spans hspans (Nat.lt_succ_self size)
  obtain ⟨final, -, hfinalRaw⟩ := VirtAddr.add_spans hspans (by omega : size - 1 < size + 1)
  have hsub : finish.sub 1 = some final := by
    rw [VirtAddr.sub, if_pos (by omega), show finish.raw - 1 = final.raw by omega, VirtAddr.new_raw]
  obtain ⟨first, hfirst⟩ := start.exists_containingPage
  obtain ⟨last, hlast⟩ := final.exists_containingPage
  exact ⟨first, last, by simp [pageRange, hfinish, hsub, hfirst, hlast]⟩

theorem map_page_unmapWalk {first : VirtAddr} (hsize : size ≠ 0)
    (hspans : start.Spans size) (hrange : pageRange start size = some (first, last)) :
    (unmapWalk start size).map VirtAddr.page =
      List.range' start.page ((start.raw + size - 1) / SIZE_4_KIB + 1 - start.page) := by
  obtain ⟨hfirst, hlast⟩ := pageRange_spec hspans hrange
  have hpage : first.page = start.page := by
    rw [VirtAddr.page, hfirst, Nat.mul_div_cancel _ (by decide)]
  have hle : start.page ≤ (start.raw + size - 1) / SIZE_4_KIB := Nat.div_le_div_right (by omega)
  obtain ⟨k, hk⟩ := Nat.exists_eq_add_of_le hle
  have hcount : (last.raw - first.raw) / SIZE_4_KIB + 1 = k + 1 := by
    rw [hlast, hfirst, ← Nat.sub_mul, Nat.mul_div_cancel _ (by decide), hk, Nat.add_sub_cancel_left]
  have hspans' : first.Spans (SIZE_4_KIB * (k + 1)) := by
    have hstart := start.canonical
    rw [VirtAddr.Spans, hfirst]
    unfold VirtAddr.Spans VirtAddr.page SIZE_4_KIB at *
    omega
  have hend : last.raw + SIZE_4_KIB = first.raw + SIZE_4_KIB * (k + 1) := by
    rw [hlast, hfirst, hk]
    ring
  rw [unmapWalk, hrange, Option.elim_some, hcount, map_page_pageWalk hspans' hend, hpage, hk,
    show start.page + k + 1 - start.page = k + 1 by omega]

theorem map_page_unmapWalk_low (hsize : size ≠ 0) (hlt : start.raw + size < 2 ^ 47) :
    (unmapWalk start size).map VirtAddr.page =
      List.range' start.page ((start.raw + size - 1) / SIZE_4_KIB + 1 - start.page) := by
  obtain ⟨first, last, hrange⟩ := exists_pageRange hsize (.inl hlt)
  exact map_page_unmapWalk hsize (.inl hlt.le) hrange

theorem exists_lastPage (hsize : size ≠ 0) (hspans : start.Spans (size + SIZE_4_KIB)) :
    ∃ first last : VirtAddr, pageRange start size = some (first, last) ∧ last.raw + 2 * SIZE_4_KIB ≤ 2 ^ 64 := by
  obtain ⟨first, last, hrange⟩ := exists_pageRange hsize (hspans.mono (Nat.add_le_add_left (by decide) size))
  obtain ⟨-, hlast⟩ := pageRange_spec (hspans.mono (Nat.le_add_right _ _)) hrange
  refine ⟨first, last, hrange, ?_⟩
  unfold VirtAddr.Spans SIZE_4_KIB at *
  omega

theorem unmapMemory_yields (virtAddr : VirtAddr) (hsize : size ≠ 0) :
    Exec.Yields (unmapMemory c virtAddr size) memory
      (fun _ after => UnmapSteps c memory (unmapWalk virtAddr size) after)
      (Stop.Lets (memory.tables.Tidy c ∧ virtAddr.Spans (size + SIZE_4_KIB))
        fun _ after => UnmapsShort c (unmapWalk virtAddr size) memory after) := by
  unfold unmapMemory
  rw [if_neg hsize, unmapWalk]
  generalize hrange : pageRange virtAddr size = range?
  apply unwrap_bind
  · rintro ⟨first, last⟩ rfl
    refine (unmapPages_yields _ first).imp (fun _ _ => id) fun _ _ hstop => hstop.imp ?_ fun _ => id
    rintro ⟨htidy, hspans⟩
    obtain ⟨_, _, hrange', hlast⟩ := exists_lastPage hsize hspans
    cases hrange.symm.trans hrange'
    exact ⟨htidy, hlast, fun _ => Nat.lt_mul_div_succ _ (by decide)⟩
  · rintro rfl ⟨-, hspans⟩
    obtain ⟨_, _, hrange', -⟩ := exists_lastPage hsize hspans
    cases hrange.symm.trans hrange'

/-- Whatever the outcome, the pages of the range have been unmapped up to the first one that is not small. -/
def UnmapsRange (c : CBit) (virtAddr : VirtAddr) (npages : Nat) (before after : Memory) : Prop :=
  ∃ walk, ((npages ≠ 0 → SIZE_4_KIB ∣ virtAddr.raw ∧ virtAddr.Spans (SIZE_4_KIB * npages)) →
      walk.map VirtAddr.page = List.range' virtAddr.page npages) ∧ UnmapsUntil c walk before after

theorem unmapMemory_range (virtAddr : VirtAddr) (npages : Nat) :
    Exec.Yields (unmapMemory c virtAddr (SIZE_4_KIB * npages)) memory
      (fun _ => UnmapsRange c virtAddr npages memory)
      (Stop.Lets (memory.tables.Tidy c ∧ virtAddr.Spans (SIZE_4_KIB * npages + SIZE_4_KIB))
        fun _ => UnmapsRange c virtAddr npages memory) := by
  by_cases hsize : SIZE_4_KIB * npages = 0
  · have hnpages : npages = 0 := (Nat.mul_eq_zero.mp hsize).resolve_left (by decide)
    rw [unmapMemory, if_pos hsize, hnpages]
    exact ⟨[], fun _ => rfl, UnmapSteps.nil.until⟩
  cases hrange : pageRange virtAddr (SIZE_4_KIB * npages) with
  | none =>
    rw [unmapMemory, if_neg hsize, hrange]
    rintro ⟨-, hspans⟩
    obtain ⟨_, _, hrange', -⟩ := exists_lastPage hsize hspans
    cases hrange.symm.trans hrange'
  | some range =>
    have hwalk : (npages ≠ 0 → SIZE_4_KIB ∣ virtAddr.raw ∧ virtAddr.Spans (SIZE_4_KIB * npages)) →
        (unmapWalk virtAddr (SIZE_4_KIB * npages)).map VirtAddr.page = List.range' virtAddr.page npages := by
      intro hwhole
      obtain ⟨⟨k, hk⟩, hspans⟩ := hwhole fun hzero => hsize (by rw [hzero, Nat.mul_zero])
      rw [map_page_unmapWalk hsize hspans hrange, VirtAddr.page, hk, Nat.mul_div_cancel_left _ (by decide)]
      congr 1
      unfold SIZE_4_KIB at *
      omega
    refine (unmapMemory_yields virtAddr hsize).imp ?_ ?_
    · exact fun _ after hsteps => ⟨_, hwalk, hsteps.until⟩
    · exact fun stop after hstop => hstop.imp id fun _ hshort => ⟨_, hwalk, hshort.until⟩

theorem munmap_moves (host : Host) (addr length : Nat) (memory : Memory) :
    Exec.Yields (munmap host addr length) memory
      (fun _ after => ∃ start, VirtAddr.new addr = some start ∧ if length = 0 then after = memory
        else UnmapsUntil host.cBit (unmapWalk start length) memory after) (Stop.Allows fun _ _ => False) := by
  refine (unwrap_yields _ _).bind ?_
  rintro start _ ⟨hstart, rfl⟩
  by_cases hlength : length = 0
  · subst hlength
    exact ⟨start, hstart, rfl⟩
  · refine (attempted_yields (allows_of_lets (unmapMemory_yields start hlength))).bind ?_
    rintro (_ | _) after hafter
    · exact ⟨start, hstart, by rw [if_neg hlength]; exact hafter.until⟩
    · exact ⟨start, hstart, by rw [if_neg hlength]; exact hafter.until⟩

theorem mapsSmall_of_leaf? {tables : PageTables} {entry : PageTableEntry}
    (h : tables.leaf? c addr = some (entry, [])) (hpointer : entry.IsPointer) : tables.mapsSmall c addr = true := by
  obtain ⟨table, htable, rfl⟩ := lastTable_of_leaf? h
  rw [mapsSmall, lastEntry?, htable]
  exact decide_eq_true hpointer

theorem access_of_mapsSmall {tables : PageTables} {page : VirtAddr} (h : tables.mapsSmall c page = true)
    (hpage : addr.page = page.page) : (tables.access c addr).isSome := by
  rw [mapsSmall, lastEntry?] at h
  cases htable : tables.tableAt c page.stem with
  | none =>
    rw [htable] at h
    cases h
  | some table =>
    rw [htable, Option.map_some, Option.any_some, decide_eq_true_eq] at h
    have hpath : addr.path = page.stem ++ [page.p1Index] := VirtAddr.path_eq_iff.mpr hpage
    have hframe : tables.frame? c addr = _ := frame?_eq addr
    rw [leaf?_of_path htable hpath, asLeaf, if_pos h.1, Option.bind_some, leafFrame, Mapping.leaf, if_pos h.1,
      Option.map_some] at hframe
    have hsome : (tables.frame? c addr).isSome := by rw [hframe, Option.isSome_some]
    rwa [frame?, Option.isSome_map] at hsome

theorem UnmapsUntil.complete {walk : List VirtAddr} {before after : Memory} (h : UnmapsUntil c walk before after)
    (htree : before.tables.IsTree c) (hnodup : (walk.map VirtAddr.page).Nodup)
    (hsmall : ∀ page ∈ walk, before.tables.mapsSmall c page = true) : UnmapSteps c before walk after := by
  obtain ⟨done, rest, rfl, hsteps, hrest⟩ := h
  cases rest with
  | nil => rwa [List.append_nil]
  | cons stop rest =>
    -- the page at which it stopped is mapped, and has not been unmapped before
    have hstop := hrest stop rfl
    rw [hsteps.mapsSmall_next htree hnodup, hsmall stop (by simp)] at hstop
    cases hstop

/-- Pages that are mapped with 4 KiB are all unmapped. -/
theorem unmapMemory_ok (htidy : memory.tables.Tidy c) (hsize : size ≠ 0)
    (hlow : start.raw + size + SIZE_4_KIB ≤ 2 ^ 47)
    (hsmall : ∀ addr : VirtAddr, start.page ≤ addr.page → addr.page ≤ (start.raw + size - 1) / SIZE_4_KIB →
      memory.tables.mapsSmall c addr = true) :
    ∃ after, unmapMemory c start size memory = (.ok (), after) ∧
      UnmapSteps c memory (unmapWalk start size) after := by
  have hwalk := map_page_unmapWalk_low hsize (show start.raw + size < 2 ^ 47 by unfold SIZE_4_KIB at hlow; omega)
  have hyields := @unmapMemory_yields c memory size start hsize
  have hgood : memory.tables.Tidy c ∧ start.Spans (size + SIZE_4_KIB) := ⟨htidy, .inl (by omega)⟩
  rcases hrun : unmapMemory c start size memory with ⟨(error | _ | _) | _, after⟩
  · obtain ⟨done, page, rest, hdone, hsteps, hstop⟩ := hyields.error hrun
    have hmem : page.page ∈ (unmapWalk start size).map VirtAddr.page := List.mem_map_of_mem (by simp [hdone])
    rw [hwalk, List.mem_range'_1] at hmem
    rw [hsteps.mapsSmall_next htidy.tree (by rw [← hdone, hwalk]; exact List.nodup_range'),
      hsmall page hmem.1 (by omega)] at hstop
    cases hstop
  · exact absurd hgood (hyields.error hrun)
  · exact absurd hgood (hyields.error hrun)
  · exact ⟨after, rfl, hyields.ok hrun⟩

end

end Enarx.Kvm
