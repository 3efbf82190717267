import Enarx.Kvm.Layout

/-!
# Who owns the memory of the workload

Along any calls of `brk`, `mmap` and `munmap` a page of the memory has one owner: a
page of the workload, the page tables or the heap.
-/
namespace Enarx.Kvm

open PageTables

inductive MemCall where
  | line (call : LineCall)
  | munmap (addr length : Nat)
  deriving DecidableEq, Repr

def memStep (host : Host) (memory : Memory) : MemCall → Option Memory
  | .line call => (returns (call.run host) memory).map Prod.snd
  | .munmap addr length => (returns (munmap host addr length) memory).map Prod.snd

def Memory.MapsUser (c : CBit) (memory : Memory) (addr : VirtAddr) : Prop :=
  ¬addr.InWindow ∧ (memory.tables.leaf? c addr).isSome

/-- `munmap` is called for whole pages, all of which are mapped for the workload. -/
def MemCall.Fits (c : CBit) (memory : Memory) : MemCall → Prop
  | .line _ => True
  | .munmap addr length => SIZE_4_KIB ∣ addr ∧ SIZE_4_KIB ∣ length ∧
      ∀ raw, addr ≤ raw → raw < addr + length → ∃ virt : VirtAddr, virt.raw = raw ∧ memory.MapsUser c virt

/-- A page of the memory that is mapped for the workload is mapped once, and it is neither free nor a table. -/
structure FramesOwned (c : CBit) (memory : Memory) : Prop where
  once : ∀ (addr other : VirtAddr) (n : Nat), ¬addr.InWindow → ¬other.InWindow →
    memory.tables.frame? c addr = some n → memory.tables.frame? c other = some n → addr.page = other.page
  not_free : ∀ (addr : VirtAddr) (n : Nat), ¬addr.InWindow → memory.tables.frame? c addr = some n →
    n ∉ memory.allocator.free
  not_table : ∀ (addr : VirtAddr) (n : Nat) (path : List (Fin 512)) (table : VirtAddr), ¬addr.InWindow →
    memory.tables.frame? c addr = some n → path.length ≤ 3 → memory.tables.tableAt c path = some table →
    table.memPage ≠ n

/-- What has been unmapped is in the heap, and has been given back once. -/
def GivesBack (c : CBit) (before after : Memory) : Prop :=
  ∀ (addr : VirtAddr) (n : Nat), ¬addr.InWindow → before.tables.frame? c addr = some n →
    after.tables.leaf? c addr = none →
    n ∈ after.allocator.free ∧ (after.returned.drop before.returned.length).count n = 1

section

variable {host : Host} {c : CBit} {bottom : Nat} {own own' : Nat → Owner} {memory before after : Memory}

theorem Memory.Owns.framesOwned (h : memory.Owns c bottom ∅ own) : FramesOwned c memory where
  once addr other n haddr hother hframe hframe' := by
    have howner := h.user haddr (Set.notMem_empty _) hframe
    have howner' := h.user hother (Set.notMem_empty _) hframe'
    rw [howner, Owner.user.injEq] at howner'
    exact howner'
  not_free addr n haddr hframe hfree := by
    have howner := h.user haddr (Set.notMem_empty _) hframe
    rw [(h.free_iff n).mp hfree] at howner
    cases howner
  not_table addr n path table haddr hframe hpath htable hsame := by
    have howner := h.user haddr (Set.notMem_empty _) hframe
    rw [← hsame, h.table hpath htable] at howner
    cases howner

theorem GivesBack.of_mapped (h : ∀ addr : VirtAddr, (before.tables.leaf? c addr).isSome →
    (after.tables.leaf? c addr).isSome) : GivesBack c before after := by
  intro addr n _ hframe hnone
  have hsome : (before.tables.leaf? c addr).isSome := by
    by_contra hleaf
    rw [Option.not_isSome_iff_eq_none] at hleaf
    rw [frame?_of_none hleaf] at hframe
    cases hframe
  have hafter := h addr hsome
  rw [hnone] at hafter
  cases hafter

theorem GivesBack.of_leaf? (h : ∀ addr : VirtAddr, after.tables.leaf? c addr = before.tables.leaf? c addr) :
    GivesBack c before after := .of_mapped fun addr hsome => h addr ▸ hsome

theorem Serves.givesBack {stale pages : Set Nat} {flags : PageTableFlags}
    (h : Serves c bottom stale flags own before own' pages after) : GivesBack c before after := by
  apply GivesBack.of_mapped
  intro addr hsome
  by_cases hpage : addr.page ∈ pages
  · rw [h.maps.unmapped addr hpage] at hsome
    cases hsome
  · rwa [h.maps.other addr hpage]

theorem Releases.givesBack {stale : Set Nat} {walk : List VirtAddr} {frames : List Nat}
    (h : Releases c bottom stale own before walk frames after) : GivesBack c before after := by
  intro addr n _ hframe hnone
  have hcount := h.count hframe hnone
  have hmem : n ∈ frames := List.count_pos_iff.mp (by omega)
  refine ⟨(h.owns.free_iff n).mpr (if_pos hmem), ?_⟩
  rw [h.returned, List.drop_left, hcount]

variable {page start finish : VirtAddr} {addr length : Nat}

theorem raw_le_of_mem_pageWalk {last first : VirtAddr} {npages : Nat} (h : page ∈ pageWalk last npages first) :
    page.raw ≤ last.raw := by
  induction npages generalizing first with
  | zero => cases h
  | succ npages ih =>
    rw [pageWalk] at h
    split at h
    · next hle =>
      rcases List.mem_cons.mp h with rfl | hrest
      · exact hle
      · cases hnext : first.add SIZE_4_KIB with
        | none =>
          rw [hnext] at hrest
          cases hrest
        | some next =>
          rw [hnext] at hrest
          exact ih hrest
    · cases h

theorem raw_lt_of_mem_unmapWalk {size : Nat} (hfinish : start.add size = some finish)
    (h : page ∈ unmapWalk start size) : page.raw < finish.raw := by
  rw [unmapWalk] at h
  cases hrange : pageRange start size with
  | none =>
    rw [hrange] at h
    cases h
  | some range =>
    rw [hrange] at h
    have hle := raw_le_of_mem_pageWalk h
    obtain ⟨sum, hsum, hrange⟩ := Option.bind_eq_some_iff.mp hrange
    obtain ⟨final, hfinal, hrange⟩ := Option.bind_eq_some_iff.mp hrange
    obtain ⟨first, -, hrange⟩ := Option.bind_eq_some_iff.mp hrange
    obtain ⟨last, hlast, hrange⟩ := Option.bind_eq_some_iff.mp hrange
    cases hrange
    obtain rfl : sum = finish := Option.some.inj (hsum.symm.trans hfinish)
    have hlastRaw := VirtAddr.raw_of_containingPage hlast
    have hpageLe : final.page * SIZE_4_KIB ≤ final.raw := Nat.div_mul_le_self _ _
    rw [VirtAddr.sub] at hfinal
    split at hfinal
    · have hfinalRaw := VirtAddr.raw_of_new hfinal
      have hcanonical := sum.canonical
      dsimp only at hle
      omega
    · cases hfinal

theorem not_inWindow_of_mem_unmapWalk {size : Nat}
    (hfinish : start.add size = some finish) (hle : finish.raw ≤ SHIM_VIRT_OFFSET) (h : page ∈ unmapWalk start size) :
    ¬page.InWindow ∧ page.page ∉ (∅ : Set Nat) := by
  have hlt := raw_lt_of_mem_unmapWalk hfinish h
  exact ⟨Nat.not_le.mpr (hlt.trans_le hle), Set.notMem_empty _⟩

/-- All pages have their owners, and the area of `brk` ends in front of the window. -/
structure Tended (c : CBit) (bottom : Nat) (own : Nat → Owner) (memory : Memory) : Prop where
  owns : memory.Owns c bottom ∅ own
  brkEnd_le : memory.brkEnd.raw ≤ SHIM_VIRT_OFFSET

def Tends (c : CBit) (bottom : Nat) (before after : Memory) : Prop :=
  (∃ own, Tended c bottom own after) ∧ GivesBack c before after

theorem Tended.refl (h : Tended c bottom own memory) : Tends c bottom memory memory :=
  ⟨⟨own, h⟩, .of_leaf? fun _ => rfl⟩

theorem Tended.declined (h : Tended c bottom own memory) (hdeclined : Declined c bottom ∅ own memory after)
    (hok : after.mapFailed = false) : Tends c bottom memory after := by
  obtain ⟨own', howns, -, hsame⟩ := hdeclined.untouched hok
  obtain ⟨-, hend, -⟩ := Memory.lines_eq hdeclined.lines
  exact ⟨⟨own', howns, hend ▸ h.brkEnd_le⟩, .of_leaf? hsame.leaf?⟩

theorem Tended.newEnd_le (h : Tended c bottom own memory) {npages : Nat} {newEnd : VirtAddr} {middle : Memory}
    (hnew : VirtAddr.new (memory.brkEnd.raw + SIZE_4_KIB * npages) = some newEnd)
    (hgranted : Granted c bottom ∅ USER_TABLE_FLAGS own memory memory.brkEnd npages middle) :
    newEnd.raw ≤ SHIM_VIRT_OFFSET := by
  obtain ⟨own', pages, hserves, hroom, hpages⟩ := hgranted.served
  have hle := h.brkEnd_le
  have hbound := room_le_pages bottom own
  have hraw := VirtAddr.raw_of_new hnew
  have hcanonical := memory.brkEnd.canonical
  by_contra hwindow
  obtain ⟨k, hk⟩ := hgranted.aligned
  have hrange : IsRange memory.brkEnd.page npages := by
    rw [VirtAddr.page_of_raw hk, IsRange]
    have := newEnd.raw_lt
    unfold SIZE_4_KIB SHIM_VIRT_OFFSET at *
    omega
  -- the first page of the window would have been mapped
  let first : VirtAddr := ⟨SHIM_VIRT_OFFSET, .inr (by decide)⟩
  have hfirst : first.page ∈ pages := by
    have hpage : first.page = SHIM_VIRT_OFFSET / SIZE_4_KIB := rfl
    rw [hpages hrange, VirtAddr.page_of_raw hk, hpage, Set.mem_Ico]
    unfold SIZE_4_KIB SHIM_VIRT_OFFSET at *
    omega
  have hsome := h.owns.window first le_rfl
  rw [hserves.maps.unmapped first hfirst] at hsome
  cases hsome

theorem Tended.brk (h : Tended host.cBit bottom own memory) {fuel : Nat} {reply : Option Nat}
    (hreturns : returns (Kvm.brk host fuel (some addr)) memory = some (reply, after)) :
    Tends host.cBit bottom memory after := by
  cases reply with
  | none =>
    obtain ⟨⟨error, hrun⟩, hok⟩ := returns_none hreturns
    exact h.declined ((brk_moves h.owns fuel addr).error hrun) hok
  | some result =>
    obtain ⟨hrun, -⟩ := returns_some hreturns
    obtain ⟨-, -, hmoves⟩ := (brk_moves h.owns fuel addr).ok hrun
    cases hmoves with
    | inside => exact h.refl
    | shrunk _ _ _ _ hlen _ hsteps =>
      obtain ⟨frames, hreleases⟩ := h.owns.unmapSteps hsteps fun page hpage =>
        not_inWindow_of_mem_unmapWalk (VirtAddr.add_eq hlen) h.brkEnd_le hpage
      refine ⟨⟨_, { hreleases.owns with }, ?_⟩, hreleases.givesBack⟩
      have hle := h.brkEnd_le
      dsimp only
      omega
    | grown hend _ hle _ hnew hgranted =>
      obtain ⟨npages, hsize, hgranted⟩ := hgranted
      obtain rfl := Nat.eq_add_of_sub_eq (hend.trans hle) hsize
      rw [Nat.add_comm] at hnew
      obtain ⟨own', pages, hserves, -⟩ := hgranted.served
      exact ⟨⟨own', { hserves.owns with }, h.newEnd_le hnew hgranted⟩, hserves.givesBack⟩

theorem Tended.mmap (h : Tended host.cBit bottom own memory) {fuel : Nat} {addr : Option Nat}
    {prot flags fd : Sallyport.CInt} {offset : BitVec 64} {reply : Option Nat}
    (hreturns : returns (Kvm.mmap host fuel addr length prot flags fd offset) memory = some (reply, after)) :
    Tends host.cBit bottom memory after := by
  have hmoves := mmap_moves h.owns fuel addr length prot flags fd offset
  cases reply with
  | none =>
    obtain ⟨⟨error, hrun⟩, hok⟩ := returns_none hreturns
    obtain ⟨_, -, -, hunserved⟩ := hmoves.error hrun
    exact h.declined hunserved.declined hok
  | some result =>
    obtain ⟨hrun, -⟩ := returns_some hreturns
    obtain ⟨-, hmoves⟩ := hmoves.ok hrun
    cases hmoves with
    | grown _ _ _ hgranted =>
      obtain ⟨own', pages, hserves, -⟩ := hgranted.served
      obtain ⟨-, hend, -⟩ := Memory.lines_eq hgranted.lines
      exact ⟨⟨own', { hserves.owns with }, hend ▸ h.brkEnd_le⟩, hserves.givesBack⟩

theorem MemCall.Fits.finish_le (h : (MemCall.munmap addr length).Fits c memory)
    (hlength : length ≠ 0) (hstart : VirtAddr.new addr = some start)
    (hfinish : start.add length = some finish) : finish.raw ≤ SHIM_VIRT_OFFSET := by
  obtain ⟨first, hfirst, -⟩ := h.2.2 addr le_rfl (by omega)
  obtain ⟨last, hlast, hout, -⟩ := h.2.2 (addr + length - 1) (by omega) (by omega)
  rw [← hfirst, VirtAddr.new_raw, Option.some.injEq] at hstart
  subst hstart
  have hfinishRaw := VirtAddr.raw_of_new hfinish
  have hcanonical := last.canonical
  unfold VirtAddr.InWindow SHIM_VIRT_OFFSET at *
  omega

theorem Tended.munmap (h : Tended host.cBit bottom own memory)
    (hfits : (MemCall.munmap addr length).Fits host.cBit memory) {reply : Option Unit}
    (hreturns : returns (Kvm.munmap host addr length) memory = some (reply, after)) :
    Tends host.cBit bottom memory after := by
  have hmoves := munmap_moves host addr length memory
  cases reply with
  | none =>
    obtain ⟨⟨error, hrun⟩, -⟩ := returns_none hreturns
    exact (hmoves.error hrun).elim
  | some _ =>
    obtain ⟨hrun, -⟩ := returns_some hreturns
    obtain ⟨start, hstart, hafter⟩ := hmoves.ok hrun
    split at hafter
    · rw [hafter]
      exact h.refl
    · next hlength =>
      obtain ⟨done, rest, hwalk, hsteps, -⟩ := hafter
      have hout : ∀ page ∈ done, ¬page.InWindow ∧ page.page ∉ (∅ : Set Nat) := by
        intro page hpage
        have hmem : page ∈ unmapWalk start length := hwalk ▸ List.mem_append_left rest hpage
        cases hfinish : start.add length with
        | none =>
          rw [unmapWalk, pageRange, hfinish] at hmem
          cases hmem
        | some finish =>
          exact not_inWindow_of_mem_unmapWalk hfinish (hfits.finish_le hlength hstart hfinish) hmem
      obtain ⟨frames, hreleases⟩ := h.owns.unmapSteps hsteps hout
      obtain ⟨-, hend, -⟩ := Memory.lines_eq hreleases.lines
      exact ⟨⟨_, hreleases.owns, hend ▸ h.brkEnd_le⟩, hreleases.givesBack⟩

theorem Tended.step (h : Tended host.cBit bottom own memory) {call : MemCall} (hfits : call.Fits host.cBit memory)
    (hstep : memStep host memory call = some after) : Tends host.cBit bottom memory after := by
  cases call with
  | line call =>
    obtain ⟨⟨reply, final⟩, hreturns, rfl⟩ := Option.map_eq_some_iff.mp hstep
    match call with
    | .brk fuel none =>
      cases reply with
      | none =>
        obtain ⟨⟨error, hrun⟩, -⟩ := returns_none hreturns
        cases hrun
      | some result =>
        obtain ⟨hrun, -⟩ := returns_some hreturns
        cases hrun
        exact h.refl
    | .brk fuel (some addr) => exact h.brk hreturns
    | .mmap fuel addr length prot flags fd offset => exact h.mmap hreturns
  | munmap addr length =>
    obtain ⟨⟨reply, final⟩, hreturns, rfl⟩ := Option.map_eq_some_iff.mp hstep
    exact h.munmap hfits hreturns

structure Booted (c : CBit) (boot : BootTables) (rest : VirtAddr → PageTable) (memory : Memory) : Prop where
  tables : memory.tables = boot.tables c rest
  free : memory.allocator.free = ∅
  image : ∀ table ∈ boot.list, table.memPage < memory.allocator.endOfMem
  brkLine : ∃ random, brkLineStart random = some memory.brkStart
  brkEnd : memory.brkEnd = memory.brkStart

theorem Booted.tended {boot : BootTables} {rest : VirtAddr → PageTable} (h : Booted c boot rest memory) :
    Tended c memory.allocator.endOfMem (boot.owner memory.allocator.free) memory where
  owns := boot.owns c rest h.tables (by rw [h.free, Finset.Ico_self]) le_rfl h.image
  brkEnd_le := by
    obtain ⟨random, hrandom⟩ := h.brkLine
    rw [h.brkEnd]
    have hle := brkLineStart_le hrandom
    unfold SHIM_VIRT_OFFSET
    omega

/-- From an empty heap on, whatever the calls are and whatever the host answers: a page of the memory has one
owner, and what is unmapped is given back once. -/
theorem frames_owned {boot : BootTables} {rest : VirtAddr → PageTable} (hbooted : Booted host.cBit boot rest memory)
    {calls : List MemCall} (hcalls : Runs.Each (memStep host) (MemCall.Fits host.cBit) memory calls) :
    Runs.Always (memStep host) (fun memory => FramesOwned host.cBit memory ∧
      ∀ call after, MemCall.Fits host.cBit memory call → memStep host memory call = some after →
        GivesBack host.cBit memory after) memory calls := by
  have hinv : Runs.Always (memStep host) (fun memory' => ∃ own, Tended host.cBit memory.allocator.endOfMem own memory')
      memory calls :=
    Runs.always_of_each (fun _ _ _ ⟨_, h⟩ hfits hstep => (h.step hfits hstep).1) ⟨_, hbooted.tended⟩ hcalls
  exact hinv.imp fun memory' ⟨_, h⟩ => ⟨h.owns.framesOwned, fun call after hfits hstep => (h.step hfits hstep).2⟩

end

def grantingHost : Host := { smallHost with balloonMemory _ := true }

def emptyMemory : Memory :=
  { smallMemory with allocator := { lastAlloc := 3, maxAlloc := 3, endOfMem := 4, free := ∅ } }

theorem emptyMemory_booted : Booted grantingHost.cBit firstPages noTables emptyMemory where
  tables := rfl
  free := rfl
  image := by
    simp only [BootTables.list, List.mem_cons, List.not_mem_nil, or_false]
    rintro table (rfl | rfl | rfl | rfl) <;> decide
  brkLine := ⟨0, rfl⟩
  brkEnd := rfl

def pageThere : List MemCall := [.line (.brk 3 (some 0x555500001000)), .munmap 0x555500000000 0x1000]

theorem pageThere_fits : Runs.Each (memStep grantingHost) (MemCall.Fits grantingHost.cBit) emptyMemory pageThere := by
  have hmapped : (memStep grantingHost emptyMemory (.line (.brk 3 (some 0x555500001000)))).map
      (fun memory => (memory.tables.leaf? grantingHost.cBit EXEC_BRK_VIRT_ADDR_BASE).isSome) = some true := by
    decide +kernel
  intro middle hmiddle
  rw [hmiddle, Option.map_some, Option.some.injEq] at hmapped
  refine ⟨trivial, fun _ _ => ⟨⟨by decide, by decide, fun raw hlo hhi => ?_⟩, trivial⟩⟩
  have hlow : raw < 2 ^ 47 := by omega
  have hpage : (⟨raw, .inl hlow⟩ : VirtAddr).path = EXEC_BRK_VIRT_ADDR_BASE.path := by
    rw [VirtAddr.path_eq_iff]
    change raw / 0x1000 = 0x555500000000 / 0x1000
    omega
  refine ⟨⟨raw, .inl hlow⟩, rfl, ?_, ?_⟩
  · change ¬0xFFFFFF8000000000 ≤ raw
    omega
  · rwa [leaf?, hpage]

theorem frames_owned_pageThere :
    (Runs.exec (memStep grantingHost) emptyMemory pageThere).map Memory.returned = some [4] ∧
    Runs.Always (memStep grantingHost) (fun memory => FramesOwned grantingHost.cBit memory ∧
      ∀ call after, MemCall.Fits grantingHost.cBit memory call → memStep grantingHost memory call = some after →
        GivesBack grantingHost.cBit memory after) emptyMemory pageThere :=
  ⟨by decide +kernel, frames_owned emptyMemory_booted pageThere_fits⟩

end Enarx.Kvm
