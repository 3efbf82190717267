import Enarx.Kvm.Frames
import Enarx.Shims.Brk

/-!
# Protections

`mprotect` gives pages other flags, one after the other. What a page permits should be
what the workload has asked for last.
-/
namespace Enarx.Kvm

open Alloc PageTables
open Sallyport (CInt Errno)
open Sallyport.Libc (EINVAL)

inductive FlagUpdateError where
  | pageNotMapped
  | parentEntryHugePage
  deriving DecidableEq, Repr

def FlagUpdateError.ofUnmapError : UnmapError → FlagUpdateError
  | .pageNotMapped => .pageNotMapped
  | .parentEntryHugePage => .parentEntryHugePage

/-- `PageTableWalker::next_table_mut`, with the error of `update_flags`. -/
def nextTableForFlags (c : CBit) (table : VirtAddr) (index : Fin 512) : Alloc FlagUpdateError VirtAddr :=
  mapErr .ofUnmapError (nextTableMut c table index)

/-- `Mapper::update_flags`, for a page of 4 KiB. -/
def updateFlags (c : CBit) (page : VirtAddr) (flags : PageTableFlags) : Alloc FlagUpdateError Unit := do
  let p3 ← nextTableForFlags c (← get).tables.level4 page.p4Index
  let p2 ← nextTableForFlags c p3 page.p3Index
  let p1 ← nextTableForFlags c p2 page.p2Index
  let entry := (← get).tables.entry p1 page.p1Index
  if entry.isUnused then
    throw (.err .pageNotMapped)
  else
    -- `PageTableEntry::set_flags`
    storeEntry p1 page.p1Index { entry with flags }

/-- The loop of `mprotect` over the pages up to `last`; their number bounds it. -/
def protectPages (c : CBit) (flags : PageTableFlags) (last : VirtAddr) : Nat → VirtAddr → Alloc Errno Unit
  | npages, page => do
    if page.raw ≤ last.raw then
      match npages with
      | 0 => throw .fuel
      | npages + 1 =>
        let nextPage ← unwrap (page.add SIZE_4_KIB)
        mapErr (fun _ => EINVAL) (updateFlags c page flags)
        protectPages c flags last npages nextPage

def mprotect (host : Host) (addr len : Nat) (prot : CInt) : Alloc Errno Unit := do
  let start ← unwrap (VirtAddr.new addr)
  let range ← unwrap (pageRange start len)
  protectPages host.cBit (protFlags prot) range.2 ((range.2.raw - range.1.raw) / SIZE_4_KIB + 1) range.1

/-- There is an entry of the last level for an address, and it is in use. -/
def PageTables.hasEntry (c : CBit) (tables : PageTables) (addr : VirtAddr) : Bool :=
  (tables.lastEntry? c addr).any fun entry => !entry.isUnused

def FlagStep (c : CBit) (flags : PageTableFlags) (before : Memory) (page : VirtAddr) (after : Memory) : Prop :=
  ∃ table, before.tables.tableAt c page.stem = some table ∧
    before.tables.entry table page.p1Index ≠ .unused ∧
    after = { before with
      tables := before.tables.store table page.p1Index { before.tables.entry table page.p1Index with flags } }

section

variable {c : CBit} {bottom : Nat} {stale : Set Nat} {own : Nat → Owner} {memory before after : Memory}
  {flags : PageTableFlags} {page : VirtAddr}

theorem nextTableForFlags_yields {table : VirtAddr} {path : List (Fin 512)} (index : Fin 512)
    (hlength : path.length ≤ 2) (htable : memory.tables.tableAt c path = some table) :
    Exec.Yields (nextTableForFlags c table index) memory
      (fun below after => memory = after ∧ memory.tables.tableAt c (path ++ [index]) = some below)
      (Stop.Allows fun _ after => memory = after ∧ memory.tables.tableAt c (path ++ [index]) = none) :=
  mapErr_yields (allows_of_lets (nextTableMut_yields index hlength htable)) fun _ _ => id

theorem hasEntry_eq_false {p q : List (Fin 512)} (hstem : page.stem = p ++ q)
    (h : memory.tables.tableAt c p = none) : memory.tables.hasEntry c page = false := by
  rw [tableAt] at h
  rw [hasEntry, lastEntry?, hstem, tableAt, Radix.tableAt_append, h]
  rfl

theorem updateFlags_yields (page : VirtAddr) (flags : PageTableFlags) :
    Exec.Yields (updateFlags c page flags) memory (fun _ => FlagStep c flags memory page)
      (Stop.Allows fun _ after => after = memory ∧ memory.tables.hasEntry c page = false) := by
  have hroot : memory.tables.tableAt c [] = some memory.tables.level4 := rfl
  have hstopped : ∀ {p q : List (Fin 512)}, page.stem = p ++ q → ∀ (stop : Stop FlagUpdateError) (after : Memory),
      Stop.Allows (fun _ after => memory = after ∧ memory.tables.tableAt c p = none) stop after →
      Stop.Allows (fun _ after => after = memory ∧ memory.tables.hasEntry c page = false) stop after := by
    intro p q hstem stop after hstop
    exact hstop.imp fun _ ⟨hsame, hnone⟩ => ⟨hsame.symm, hasEntry_eq_false hstem hnone⟩
  apply Exec.Yields.get_bind
  refine ((nextTableForFlags_yields page.p4Index (by decide) hroot).imp (fun _ _ => id) (hstopped rfl)).bind ?_
  rintro p3 _ ⟨rfl, hp3⟩
  refine ((nextTableForFlags_yields page.p3Index (by simp) hp3).imp (fun _ _ => id) (hstopped rfl)).bind ?_
  rintro p2 _ ⟨rfl, hp2⟩
  refine ((nextTableForFlags_yields page.p2Index (by simp) hp2).imp (fun _ _ => id) (hstopped rfl)).bind ?_
  rintro p1 _ ⟨rfl, hp1⟩
  have htable : memory.tables.tableAt c page.stem = some p1 := hp1
  apply Exec.Yields.get_bind
  dsimp only
  split
  · next hunused =>
    refine ⟨rfl, ?_⟩
    rw [hasEntry, lastEntry?, htable, Option.map_some, Option.any_some, hunused]
    rfl
  · next hused => exact ⟨p1, htable, of_decide_eq_false (Bool.eq_false_of_not_eq_true hused), rfl⟩

variable {entry : PageTableEntry} {tables : PageTables} {addr : VirtAddr}

theorem tidy_of_flags (h : entry.Tidy c 3) (hused : entry ≠ .unused)
    (hpresent : flags.present = true) :
    ({ entry with flags } : PageTableEntry).Tidy c 3 where
  pointer hdepth := absurd hdepth (by decide)
  level4 hdepth := absurd hdepth (by decide)
  huge _ hdepth := absurd hdepth (by decide)
  present := .inr hpresent
  small _ _ := h.small rfl (h.present.resolve_left hused)

namespace FlagStep

theorem leaf? (h : FlagStep c flags before page after) (htidy : before.tables.Tidy c)
    (hpresent : flags.present = true) (addr : VirtAddr) : after.tables.leaf? c addr = if addr.page = page.page
      then (before.tables.leaf? c addr).map fun leaf => ({ leaf.1 with flags }, leaf.2)
      else before.tables.leaf? c addr := by
  obtain ⟨table, htable, hused, rfl⟩ := h
  have hbefore := ((htidy.entries page.p1Index page.length_stem.le htable).present).resolve_left hused
  refine (leaf?_store htidy page.length_stem htable addr).trans ?_
  rw [← VirtAddr.path_eq_stem]
  refine if_ctx_congr VirtAddr.path_eq_iff (fun hpage => ?_) fun _ => rfl
  have hpath : addr.path = page.stem ++ [page.p1Index] := VirtAddr.path_eq_iff.mpr hpage
  rw [leaf?_of_path htable hpath, asLeaf, asLeaf, if_pos hpresent, if_pos hbefore]
  rfl

end FlagStep

theorem leafFrame_flags {offset : Nat} {rest : List (Fin 512)}
    (hentry : entry.flags.present = true) (hpresent : flags.present = true) :
    leafFrame c offset { entry with flags } rest = leafFrame c offset entry rest := by
  rw [leafFrame, leafFrame, Mapping.leaf, Mapping.leaf, if_pos hpresent, if_pos hentry]
  rfl

theorem present_of_leaf? {leaf : PageTableEntry × List (Fin 512)}
    (h : tables.leaf? c addr = some leaf) : leaf.1.flags.present = true := by
  obtain ⟨path, index, rest, table, -, -, hleaf⟩ := exists_asLeaf c tables addr
  rw [hleaf, asLeaf] at h
  split at h
  · next hpresent =>
    cases h
    exact hpresent
  · cases h

theorem hasEntry_of_leaf? (h : tables.leaf? c addr = some (entry, [])) : tables.hasEntry c addr = true := by
  have hpresent := present_of_leaf? h
  obtain ⟨table, htable, rfl⟩ := lastTable_of_leaf? h
  have hused : tables.entry table addr.p1Index ≠ .unused := by
    intro hunused
    rw [hunused] at hpresent
    cases hpresent
  rw [hasEntry, lastEntry?, htable]
  simpa [PageTableEntry.isUnused] using hused

theorem frame?_of_flags {tables' : PageTables} {p : Prop} [Decidable p] (hleaf : tables'.leaf? c addr = if p
      then (tables.leaf? c addr).map fun leaf => ({ leaf.1 with flags }, leaf.2) else tables.leaf? c addr)
    (hpresent : flags.present = true) : tables'.frame? c addr = tables.frame? c addr := by
  rw [frame?_eq, frame?_eq, hleaf]
  split
  · cases hbefore : tables.leaf? c addr with
    | none => rfl
    | some leaf =>
      rw [Option.map_some, Option.bind_some, Option.bind_some]
      exact leafFrame_flags (present_of_leaf? hbefore) hpresent
  · rfl

/-- Pages have got other flags; everything else is as it was. -/
structure Reflags (c : CBit) (bottom : Nat) (stale : Set Nat) (own : Nat → Owner) (flags : PageTableFlags)
    (before : Memory) (walk : List VirtAddr) (after : Memory) : Prop where
  owns : after.Owns c bottom stale own
  leaf? : ∀ addr : VirtAddr, after.tables.leaf? c addr = if addr.page ∈ walk.map VirtAddr.page
    then (before.tables.leaf? c addr).map fun leaf => ({ leaf.1 with flags }, leaf.2)
    else before.tables.leaf? c addr
  tableAt : ∀ {path : List (Fin 512)}, path.length ≤ 3 → after.tables.tableAt c path = before.tables.tableAt c path
  mem : ∀ virt : VirtAddr, (∀ path : List (Fin 512), path.length ≤ 3 → before.tables.tableAt c path ≠ some virt) →
    after.tables.mem virt = before.tables.mem virt
  lines : after.lines = before.lines
  mapFailed : after.mapFailed = before.mapFailed

theorem Reflags.nil (h : memory.Owns c bottom stale own) : Reflags c bottom stale own flags memory [] memory where
  owns := h
  leaf? _ := rfl
  tableAt _ := rfl
  mem _ _ := rfl
  lines := rfl
  mapFailed := rfl

theorem FlagStep.owns (h : FlagStep c flags before page after) (howns : before.Owns c bottom stale own)
    (hpresent : flags.present = true) : after.Owns c bottom stale own := by
  have hleaf := h.leaf? howns.tidy hpresent
  have hsome : ∀ addr, (after.tables.leaf? c addr).isSome = (before.tables.leaf? c addr).isSome := by
    intro addr
    rw [hleaf addr]
    split
    · rw [Option.isSome_map]
    · rfl
  have hframe := fun addr => frame?_of_flags (hleaf addr) hpresent
  obtain ⟨table, htable, hused, rfl⟩ := h
  have hentry := howns.tidy.entries page.p1Index page.length_stem.le htable
  exact {
    tidy := howns.tidy.store page.length_stem htable (tidy_of_flags hentry hused hpresent)
    window := fun addr haddr => (hsome addr).trans (howns.window addr haddr)
    table := by
      intro path other hpath hother
      exact howns.table hpath ((tableAt_store howns.tidy page.length_stem htable hpath).symm.trans hother)
    user := fun haddr hfresh hmapped => howns.user haddr hfresh ((hframe _).symm.trans hmapped)
    stale := fun addr haddr => (hsome addr).trans (howns.stale addr haddr)
    free_iff := howns.free_iff
    unborn := howns.unborn
    born := howns.born
    bottom_le := howns.bottom_le
    bottom_le_end := howns.bottom_le_end }

theorem FlagStep.tableAt (h : FlagStep c flags before page after) (htidy : before.tables.Tidy c)
    {path : List (Fin 512)} (hpath : path.length ≤ 3) :
    after.tables.tableAt c path = before.tables.tableAt c path := by
  obtain ⟨table, htable, -, rfl⟩ := h
  exact tableAt_store htidy page.length_stem htable hpath

theorem Reflags.cons {middle : Memory} {walk : List VirtAddr} (hstep : FlagStep c flags before page middle)
    (howns : before.Owns c bottom stale own) (hpresent : flags.present = true)
    (h : Reflags c bottom stale own flags middle walk after) :
    Reflags c bottom stale own flags before (page :: walk) after := by
  have hleaf := hstep.leaf? howns.tidy hpresent
  have htableAt : ∀ {path : List (Fin 512)}, path.length ≤ 3 →
      middle.tables.tableAt c path = before.tables.tableAt c path := hstep.tableAt howns.tidy
  obtain ⟨table, htable, -, rfl⟩ := hstep
  exact {
    owns := h.owns
    leaf? := by
      intro addr
      rw [h.leaf? addr, hleaf addr, List.map_cons]
      by_cases hpage : addr.page = page.page
      · by_cases hrest : addr.page ∈ walk.map VirtAddr.page
        · rw [if_pos hrest, if_pos hpage, if_pos (hpage ▸ List.mem_cons_self), Option.map_map]
          rfl
        · rw [if_neg hrest, if_pos hpage, if_pos (hpage ▸ List.mem_cons_self)]
      · rw [if_neg hpage]
        exact if_congr (by simp [hpage]) rfl rfl
    tableAt := fun hpath => (h.tableAt hpath).trans (htableAt hpath)
    mem := by
      intro virt hvirt
      have hne : virt ≠ table := fun heq => hvirt _ page.length_stem.le (heq ▸ htable)
      refine (h.mem virt fun path hpath => ?_).trans (Radix.set_table_ne _ _ _ hne)
      rw [htableAt hpath]
      exact hvirt path hpath
    lines := h.lines
    mapFailed := h.mapFailed }

theorem protectPages_yields (hpresent : flags.present = true) (last : VirtAddr) (npages : Nat) (page : VirtAddr)
    (h : memory.Owns c bottom stale own) : Exec.Yields (protectPages c flags last npages page) memory
      (fun _ => Reflags c bottom stale own flags memory (pageWalk last npages page))
      (Stop.Allows fun _ after => ∃ done stop rest, pageWalk last npages page = done ++ stop :: rest ∧
        (∀ entry, memory.tables.leaf? c stop ≠ some (entry, [])) ∧ Reflags c bottom stale own flags memory done after) := by
  induction npages generalizing memory page with
  | zero =>
    unfold protectPages
    rw [pageWalk]
    split
    · exact trivial
    · exact Exec.Yields.pure (.nil h)
  | succ npages ih =>
    unfold protectPages
    rw [pageWalk]
    generalize page.add SIZE_4_KIB = next?
    split
    · refine (unwrap_yields _ _).bind ?_
      rintro next _ ⟨rfl, rfl⟩
      have hupdate : Exec.Yields (mapErr (fun _ => EINVAL) (updateFlags c page flags)) memory
          (fun _ => FlagStep c flags memory page)
          (Stop.Allows fun _ after => ∃ done stop rest,
            page :: (some next).elim [] (pageWalk last npages) = done ++ stop :: rest ∧
            (∀ entry, memory.tables.leaf? c stop ≠ some (entry, [])) ∧ Reflags c bottom stale own flags memory done after) := by
        apply mapErr_yields (updateFlags_yields page flags)
        rintro error after ⟨rfl, hnone⟩
        refine ⟨[], page, _, rfl, fun entry hleaf => ?_, .nil h⟩
        rw [hasEntry_of_leaf? hleaf] at hnone
        cases hnone
      refine hupdate.bind ?_
      intro _ middle hstep
      refine (ih next (hstep.owns h hpresent)).imp ?_ ?_
      · intro _ after hrest
        exact .cons hstep h hpresent hrest
      · intro stop after hstopped
        refine hstopped.imp ?_
        rintro _ ⟨done, stop, rest, hwalk, hnone, hrest⟩
        refine ⟨page :: done, stop, rest, congrArg (page :: ·) hwalk, fun entry hleaf => ?_,
          .cons hstep h hpresent hrest⟩
        have hmiddle := hstep.leaf? h.tidy hpresent stop
        rw [hleaf] at hmiddle
        split at hmiddle <;> exact hnone _ hmiddle
    · exact Exec.Yields.pure (.nil h)

def Protects (c : CBit) (bottom : Nat) (stale : Set Nat) (own : Nat → Owner) (before : Memory) (addr len : Nat)
    (prot : CInt) (after : Memory) : Prop :=
  ∃ start range, VirtAddr.new addr = some start ∧ pageRange start len = some range ∧
    Reflags c bottom stale own (protFlags prot) before (unmapWalk start len) after

/-- The pages in front of one that is not mapped have got their flags. -/
def ProtectsSome (c : CBit) (bottom : Nat) (stale : Set Nat) (own : Nat → Owner) (before : Memory) (addr len : Nat)
    (prot : CInt) (after : Memory) : Prop :=
  ∃ start range done stop rest, VirtAddr.new addr = some start ∧ pageRange start len = some range ∧
    unmapWalk start len = done ++ stop :: rest ∧ (∀ entry, before.tables.leaf? c stop ≠ some (entry, [])) ∧
    Reflags c bottom stale own (protFlags prot) before done after

theorem mprotect_yields {host : Host} (h : memory.Owns host.cBit bottom stale own) (addr len : Nat) (prot : CInt) :
    Exec.Yields (mprotect host addr len prot) memory
      (fun _ => Protects host.cBit bottom stale own memory addr len prot)
      (Stop.Allows fun _ => ProtectsSome host.cBit bottom stale own memory addr len prot) := by
  have hpresent : (protFlags prot).present = true := rfl
  refine (unwrap_yields _ _).bind ?_
  rintro start _ ⟨hstart, rfl⟩
  generalize hrange : pageRange start len = range?
  refine (unwrap_yields _ _).bind ?_
  rintro range _ ⟨rfl, rfl⟩
  have hwalk : unmapWalk start len = pageWalk range.2 ((range.2.raw - range.1.raw) / SIZE_4_KIB + 1) range.1 := by
    rw [unmapWalk, hrange, Option.elim_some]
  refine (protectPages_yields hpresent range.2 _ range.1 h).imp ?_ ?_
  · intro _ after hafter
    exact ⟨start, range, hstart, hrange, hwalk ▸ hafter⟩
  · intro stop after hstopped
    refine hstopped.imp ?_
    rintro _ ⟨done, stop, rest, hsplit, hnone, hafter⟩
    exact ⟨start, range, done, stop, rest, hstart, hrange, hwalk.trans hsplit, hnone, hafter⟩

end

def PROT_READ : CInt := 1

/-- An entry permits no more than what has been asked for. -/
structure PageTableEntry.Permits (entry : PageTableEntry) (prot : CInt) : Prop where
  write : entry.flags.writable = true → prot &&& PROT_WRITE ≠ 0
  exec : entry.flags.noExecute = false → prot &&& PROT_EXEC ≠ 0
  read : entry.flags.present = true → entry.flags.userAccessible = true →
    prot &&& (PROT_READ ||| PROT_WRITE ||| PROT_EXEC) ≠ 0

inductive ProtCall where
  | line (call : LineCall)
  | mprotect (addr len : Nat) (prot : CInt)
  deriving DecidableEq, Repr

def ProtCall.run (host : Host) : ProtCall → Alloc Errno Nat
  | .line call => call.run host
  | .mprotect addr len prot => do
    Kvm.mprotect host addr len prot
    return 0

/-- The bytes that a call is about, and the protection that it asks for. -/
def ProtCall.request (memory : Memory) : ProtCall → Option (Nat × Nat × CInt)
  | .line (.brk _ none) => none
  | .line (.brk _ (some addr)) =>
    some (memory.brkEnd.raw, addr - memory.brkEnd.raw, PROT_READ ||| PROT_WRITE)
  | .line (.mmap _ _ length prot _ _ _) => some (memory.nextMmap.raw, length, prot)
  | .mprotect addr len prot => some (addr, len, prot)

def covers (addr len page : Nat) : Bool :=
  0 < len ∧ addr / SIZE_4_KIB ≤ page ∧ page ≤ (addr + len - 1) / SIZE_4_KIB

/-- The memory, and for each page what the last request for it has asked for. -/
structure Guarded where
  memory : Memory
  asked : Nat → Option CInt

def Guarded.note (state : Guarded) : Option (Nat × Nat × CInt) → Nat → Option CInt
  | none, page => state.asked page
  | some (addr, len, prot), page => if covers addr len page then some prot else state.asked page

theorem Guarded.note_some (state : Guarded) (addr len : Nat) (prot : CInt) (page : Nat) :
    state.note (some (addr, len, prot)) page = if covers addr len page then some prot else state.asked page := rfl

def protStep (host : Host) (state : Guarded) (call : ProtCall) : Option Guarded :=
  (Shims.kvmReply (call.run host state.memory)).map fun (_, memory) =>
    ⟨memory, state.note (call.request state.memory)⟩

/-- Every page is mapped as at the start, or permits no more than its last request has asked for. -/
def Enforced (c : CBit) (start : Memory) (state : Guarded) : Prop :=
  ∀ (addr : VirtAddr) (leaf : PageTableEntry × List (Fin 512)), ¬addr.InWindow →
    state.memory.tables.leaf? c addr = some leaf →
    match state.asked addr.page with
    | none => start.tables.leaf? c addr = some leaf
    | some prot => leaf.1.Permits prot

structure KeepsPages (c : CBit) (before after : Memory) : Prop where
  addr : ∀ virt : VirtAddr, (after.tables.leaf? c virt).map (fun leaf => (leaf.1.addr, leaf.2)) =
    (before.tables.leaf? c virt).map fun leaf => (leaf.1.addr, leaf.2)
  frame? : ∀ virt : VirtAddr, after.tables.frame? c virt = before.tables.frame? c virt
  mem : ∀ virt : VirtAddr, (∀ path : List (Fin 512), path.length ≤ 3 → before.tables.tableAt c path ≠ some virt) →
    after.tables.mem virt = before.tables.mem virt

/-- The calls that are answered rightly: `brk` does not grow the area, `mmap` and `mprotect` are asked for some
access, no page that `mmap` is about is mapped, and all pages that `mprotect` is about are. -/
def Honoured (host : Host) (state : Guarded) : ProtCall → Prop
  | .line (.brk _ none) => True
  | .line (.brk _ (some addr)) => addr ≤ state.memory.brkEnd.raw
  | .line (.mmap _ _ length prot _ _ _) =>
    prot &&& (PROT_READ ||| PROT_WRITE ||| PROT_EXEC) ≠ 0 ∧
      ∀ virt : VirtAddr, covers state.memory.nextMmap.raw length virt.page = true →
        state.memory.tables.leaf? host.cBit virt = none
  | .mprotect addr len prot =>
    prot &&& (PROT_READ ||| PROT_WRITE ||| PROT_EXEC) ≠ 0 ∧
      (∃ start : VirtAddr, start.raw = addr ∧ start.Spans len) ∧ (len = 0 → SIZE_4_KIB ∣ addr) ∧
      ∀ virt : VirtAddr, covers addr len virt.page = true →
        ∃ entry, state.memory.tables.leaf? host.cBit virt = some (entry, [])

section

variable {host : Host} {c : CBit} {bottom : Nat} {stale stale0 : Set Nat} {own own0 : Nat → Owner}
  {start memory before after : Memory} {state next : Guarded} {flags : PageTableFlags} {prot : CInt}

theorem permits_of_flags {entry : PageTableEntry} (h : entry.flags = protFlags prot)
    (hprot : prot &&& (PROT_READ ||| PROT_WRITE ||| PROT_EXEC) ≠ 0) : entry.Permits prot := by
  constructor
  · intro hwritable
    rw [h] at hwritable
    exact of_decide_eq_true hwritable
  · intro hexec
    rw [h] at hexec
    exact of_decide_eq_false hexec
  · intro _ _
    exact hprot

theorem Reflags.keepsPages {walk : List VirtAddr} (h : Reflags c bottom stale own flags before walk after)
    (hpresent : flags.present = true) : KeepsPages c before after where
  addr virt := by
    rw [h.leaf? virt]
    split
    · rw [Option.map_map]
      rfl
    · rfl
  frame? virt := frame?_of_flags (h.leaf? virt) hpresent
  mem := h.mem

variable {addr len npages length : Nat} {first : VirtAddr}

theorem mprotect_keepsPages (h : memory.Owns host.cBit bottom stale own) {reply : Option Unit}
    (hreply : Shims.kvmReply (mprotect host addr len prot memory) = some (reply, after)) :
    KeepsPages host.cBit memory after := by
  have hyields := mprotect_yields h addr len prot
  cases reply with
  | none =>
    obtain ⟨error, hrun⟩ := Shims.kvmReply_none hreply
    obtain ⟨_, _, done, _, _, _, _, _, _, hreflags⟩ := hyields.error hrun
    exact hreflags.keepsPages rfl
  | some value =>
    obtain ⟨_, _, _, _, hreflags⟩ := hyields.ok (Shims.kvmReply_some hreply)
    exact hreflags.keepsPages rfl

theorem unmapWalk_zero (haligned : SIZE_4_KIB ∣ first.raw) : unmapWalk first 0 = [] := by
  have hadd : first.add 0 = some first := VirtAddr.add_eq rfl
  cases hrange : pageRange first 0 with
  | none => rw [unmapWalk, hrange, Option.elim_none]
  | some range =>
    obtain ⟨sum, hsum, hbounds⟩ := Option.bind_eq_some_iff.mp hrange
    obtain rfl : sum = first := Option.some.inj (hsum.symm.trans hadd)
    obtain ⟨final, hfinal, hfirst⟩ := Option.bind_eq_some_iff.mp hbounds
    obtain ⟨head, hhead, hsecond⟩ := Option.bind_eq_some_iff.mp hfirst
    obtain ⟨last, hlast, hpair⟩ := Option.bind_eq_some_iff.mp hsecond
    obtain rfl : (head, last) = range := Option.some.inj hpair
    obtain ⟨k, hk⟩ := haligned
    have hheadRaw : head.raw = sum.raw := by
      rw [VirtAddr.raw_of_containingPage hhead, VirtAddr.page_of_raw hk, hk, Nat.mul_comm]
    have hlastLe : last.raw ≤ final.raw := by
      rw [VirtAddr.raw_of_containingPage hlast]
      exact Nat.div_mul_le_self _ _
    have hfinalLt : final.raw < sum.raw := by
      rw [VirtAddr.sub] at hfinal
      split at hfinal
      · have hraw := VirtAddr.raw_of_new hfinal
        have hcanonical := sum.canonical
        omega
      · cases hfinal
    have hnot : ¬head.raw ≤ last.raw := by omega
    rw [unmapWalk, hrange, Option.elim_some, pageWalk, if_neg hnot]

theorem mem_unmapWalk_iff (hspans : first.Spans len)
    (hzero : len = 0 → SIZE_4_KIB ∣ first.raw) {range : VirtAddr × VirtAddr}
    (hrange : pageRange first len = some range) (page : Nat) :
    page ∈ (unmapWalk first len).map VirtAddr.page ↔ covers first.raw len page = true := by
  rw [covers, decide_eq_true_eq]
  by_cases hlen : len = 0
  · subst hlen
    rw [unmapWalk_zero (hzero rfl)]
    simp
  · rw [map_page_unmapWalk hlen hspans hrange, List.mem_range'_1, VirtAddr.page]
    have hle : first.raw / SIZE_4_KIB ≤ (first.raw + len - 1) / SIZE_4_KIB := Nat.div_le_div_right (by omega)
    omega

theorem mem_Ico_iff_covers {first : Nat} (haddr : addr = SIZE_4_KIB * first)
    (hle : length ≤ SIZE_4_KIB * npages) (hlt : SIZE_4_KIB * npages < length + SIZE_4_KIB) (page : Nat) :
    page ∈ Set.Ico first (first + npages) ↔ covers addr length page = true := by
  rw [covers, decide_eq_true_eq, Set.mem_Ico, haddr]
  unfold SIZE_4_KIB at *
  omega

/-- What holds as long as the calls are answered rightly: the area of `brk` stays empty. -/
structure Guards (c : CBit) (bottom : Nat) (stale : Set Nat) (start : Memory) (own : Nat → Owner)
    (state : Guarded) : Prop where
  owns : state.memory.Owns c bottom stale own
  brkLine : state.memory.brkStart = start.brkStart ∧ state.memory.brkEnd = start.brkEnd
  aligned : SIZE_4_KIB ∣ state.memory.nextMmap.raw
  low : state.memory.nextMmap.raw + SIZE_4_KIB * room bottom own < 2 ^ 47
  enforced : Enforced c start state

theorem Launched.guards (h : Launched c bottom stale own start) :
    Guards c bottom stale start own ⟨start, fun _ => none⟩ where
  owns := h.owns
  brkLine := ⟨rfl, rfl⟩
  aligned := h.nextMmap_le.2.1
  low := by
    have hroom := Nat.mul_le_mul_left SIZE_4_KIB (room_le_pages bottom own)
    have hnext := h.nextMmap_le.2.2
    dsimp only
    omega
  enforced _ _ _ hleaf := hleaf

theorem Enforced.moved {pages : Set Nat} (h : Enforced c start state)
    (hprot : prot &&& (PROT_READ ||| PROT_WRITE ||| PROT_EXEC) ≠ 0)
    (hcovers : ∀ page, page ∈ pages ↔ covers addr length page = true)
    (hpages : ∀ virt : VirtAddr, virt.page ∈ pages → ∀ leaf, after.tables.leaf? c virt = some leaf →
      leaf.1.flags = protFlags prot)
    (hother : ∀ virt : VirtAddr, virt.page ∉ pages →
      after.tables.leaf? c virt = state.memory.tables.leaf? c virt) :
    Enforced c start ⟨after, state.note (some (addr, length, prot))⟩ := by
  intro virt leaf hvirt hleaf
  dsimp only
  rw [Guarded.note_some]
  by_cases hpage : virt.page ∈ pages
  · rw [if_pos ((hcovers _).mp hpage)]
    exact permits_of_flags (hpages virt hpage leaf hleaf) hprot
  · rw [if_neg (mt (hcovers _).mpr hpage)]
    exact h virt leaf hvirt ((hother virt hpage).symm.trans hleaf)

theorem Guards.mmapFails (h : Guards host.cBit bottom stale start own state)
    (hprot : prot &&& (PROT_READ ||| PROT_WRITE ||| PROT_EXEC) ≠ 0)
    (hunmapped : ∀ virt : VirtAddr, covers state.memory.nextMmap.raw length virt.page = true →
      state.memory.tables.leaf? host.cBit virt = none)
    (hle : length ≤ SIZE_4_KIB * npages) (hlt : SIZE_4_KIB * npages < length + SIZE_4_KIB)
    (hunserved : Unserved host bottom stale (protFlags prot) own state.memory state.memory.nextMmap npages after) :
    ∃ own' stale', Guards host.cBit bottom stale' start own'
      ⟨after, state.note (some (state.memory.nextMmap.raw, length, prot))⟩ := by
  obtain ⟨hstart, hend, hnext⟩ := Memory.lines_eq hunserved.lines
  obtain ⟨k, hk⟩ := h.aligned
  have hlow := h.low
  have hcovers : ∀ page, page ∈ Set.Ico state.memory.nextMmap.page (state.memory.nextMmap.page + npages) ↔
      covers state.memory.nextMmap.raw length page = true := by
    intro page
    rw [VirtAddr.page_of_raw hk]
    exact mem_Ico_iff_covers hk hle hlt page
  have hguards : ∀ {own' : Nat → Owner} {stale' range : Set Nat}, after.Owns host.cBit bottom stale' own' →
      Moves range own own' → Enforced host.cBit start ⟨after, state.note (some (state.memory.nextMmap.raw, length, prot))⟩ →
      Guards host.cBit bottom stale' start own'
        ⟨after, state.note (some (state.memory.nextMmap.raw, length, prot))⟩ := by
    intro own' stale' range howns hmoves henforced
    have hroom := Nat.mul_le_mul_left SIZE_4_KIB (hmoves.room_le : room bottom own' ≤ room bottom own)
    refine ⟨howns, ⟨hstart.trans h.brkLine.1, hend.trans h.brkLine.2⟩, hnext ▸ h.aligned, ?_, henforced⟩
    dsimp only
    rw [hnext]
    omega
  rcases hunserved.stopped with ⟨own', howns, hmoves, hsame⟩ | ⟨-, hroom, hexact⟩
  · refine ⟨own', stale, hguards howns hmoves (h.enforced.moved hprot hcovers ?_ fun virt _ => hsame.leaf? virt)⟩
    intro virt hpage leaf hleaf
    rw [hsame.leaf? virt, hunmapped virt ((hcovers _).mp hpage)] at hleaf
    cases hleaf
  · have hrange : IsRange state.memory.nextMmap.page npages := by
      rw [← spans_iff h.aligned]
      have hroom' := Nat.mul_le_mul_left SIZE_4_KIB hroom
      exact .inl (by omega)
    obtain ⟨own', stale', hspoilt⟩ := (hexact hrange).2 fun virt hpage =>
      lacks_of_none (hunmapped virt ((hcovers _).mp hpage)) _
    refine ⟨own', stale', hguards hspoilt.owns hspoilt.moves (h.enforced.moved hprot hcovers ?_ ?_)⟩
    · intro virt hpage leaf hleaf
      rcases hspoilt.leaf? virt with hsame | ⟨-, -, entry, n, hentry, hleads, -⟩
      · rw [hsame, hunmapped virt ((hcovers _).mp hpage)] at hleaf
        cases hleaf
      · cases hentry.symm.trans hleaf
        exact hleads.flags
    · exact fun virt hpage => (hspoilt.leaf? virt).resolve_right fun hnew => hpage hnew.1

theorem brk_of_empty (hlaunched : Launched c bottom stale own0 start)
    (hline : memory.brkStart = start.brkStart ∧ memory.brkEnd = start.brkEnd) {fuel : Nat} {reply : Option Nat}
    (haddr : addr ≤ memory.brkEnd.raw)
    (hreply : Shims.kvmReply (brk host fuel (some addr) memory) = some (reply, after)) :
    reply = none ∧ after = memory := by
  have hempty : memory.brkEnd = memory.brkStart := by rw [hline.1, hline.2, hlaunched.brkEnd]
  obtain ⟨-, hdvd⟩ := hlaunched.brkStart_le
  have hpage := hlaunched.page_le_brkStart
  rw [← hline.1, ← hempty] at hdvd hpage
  have hget : (get : Alloc Errno Memory) memory = (.ok memory, memory) := rfl
  by_cases hlow : addr < memory.brkStart.raw
  · rw [brk, Exec.bind_of_ok hget] at hreply
    dsimp only at hreply
    rw [if_pos hlow] at hreply
    cases hreply
    exact ⟨rfl, rfl⟩
  · obtain rfl : addr = memory.brkEnd.raw := by
      rw [hempty] at haddr ⊢
      omega
    cases fuel with
    | zero =>
      have hunwrap : ∀ value : Nat, (unwrap (some value) : Alloc Errno Nat) memory = (.ok value, memory) := fun _ => rfl
      have halign : alignUp memory.brkEnd.raw = some memory.brkEnd.raw := if_pos (Nat.mod_eq_zero_of_dvd hdvd)
      rw [brk, Exec.bind_of_ok hget] at hreply
      dsimp only at hreply
      rw [if_neg hlow, if_pos hpage, Exec.bind_of_ok (hunwrap _), if_neg (Nat.not_lt.mpr (Nat.sub_le _ _)),
        if_neg (Nat.lt_irrefl _), halign, Exec.bind_of_ok (hunwrap _)] at hreply
      cases hreply
    | succ fuel =>
      rw [brk_brkEnd host fuel (Nat.le_of_not_lt hlow) hpage hdvd] at hreply
      cases hreply
      exact ⟨rfl, rfl⟩

theorem Guards.mmapped (h : Guards c bottom stale start own state) {next : VirtAddr}
    {middle : Memory} (hprot : prot &&& (PROT_READ ||| PROT_WRITE ||| PROT_EXEC) ≠ 0)
    (hle : length ≤ SIZE_4_KIB * npages) (hlt : SIZE_4_KIB * npages < length + SIZE_4_KIB)
    (hnext : state.memory.nextMmap.add (SIZE_4_KIB * npages) = some next)
    (hgranted : Granted c bottom stale (protFlags prot) own state.memory state.memory.nextMmap npages middle) :
    ∃ own', Guards c bottom stale start own' ⟨{ middle with nextMmap := next },
      state.note (some (state.memory.nextMmap.raw, length, prot))⟩ := by
  obtain ⟨own', pages, hserves, hroom, hpages⟩ := hgranted.served
  obtain ⟨hstart, hend, -⟩ := Memory.lines_eq hgranted.lines
  have hlow := h.low
  have hroom' := Nat.mul_le_mul_left SIZE_4_KIB hroom
  rw [Nat.mul_add] at hroom'
  obtain ⟨k, hk⟩ := hgranted.aligned
  have hrange : IsRange state.memory.nextMmap.page npages := by
    rw [← spans_iff ⟨k, hk⟩]
    exact .inl (by omega)
  have hcovers : ∀ page, page ∈ pages ↔ covers state.memory.nextMmap.raw length page = true := by
    intro page
    rw [hpages hrange, VirtAddr.page_of_raw hk]
    exact mem_Ico_iff_covers hk hle hlt page
  have hraw : next.raw = SIZE_4_KIB * (k + npages) := by
    have hnew := VirtAddr.raw_of_new hnext
    rw [Nat.mul_add]
    omega
  refine ⟨own', { hserves.owns with }, ⟨hstart.trans h.brkLine.1, hend.trans h.brkLine.2⟩, ⟨_, hraw⟩, ?_,
    h.enforced.moved hprot hcovers ?_ hserves.maps.other⟩
  · dsimp only
    rw [hraw, Nat.mul_add]
    omega
  · intro addr hpage leaf hleaf
    obtain ⟨entry, n, hentry, hleads, -⟩ := hserves.maps.mapped addr hpage
    cases hentry.symm.trans hleaf
    exact hleads.flags

theorem Guards.reflagged (h : Guards c bottom stale start own state)
    (hprot : prot &&& (PROT_READ ||| PROT_WRITE ||| PROT_EXEC) ≠ 0) {walk : List VirtAddr}
    (hwalk : ∀ page, page ∈ walk.map VirtAddr.page ↔ covers first.raw len page = true)
    (hreflags : Reflags c bottom stale own (protFlags prot) state.memory walk after) :
    Guards c bottom stale start own ⟨after, state.note (some (first.raw, len, prot))⟩ := by
  obtain ⟨hstart, hend, hnext⟩ := Memory.lines_eq hreflags.lines
  refine ⟨hreflags.owns, ⟨hstart.trans h.brkLine.1, hend.trans h.brkLine.2⟩, hnext ▸ h.aligned, hnext ▸ h.low,
    @Enforced.moved _ _ _ _ _ _ _ { page | page ∈ walk.map VirtAddr.page } h.enforced hprot hwalk ?_ ?_⟩
  · intro virt hpage leaf hleaf
    rw [hreflags.leaf? virt, if_pos (show virt.page ∈ walk.map VirtAddr.page from hpage)] at hleaf
    obtain ⟨before, -, rfl⟩ := Option.map_eq_some_iff.mp hleaf
    rfl
  · exact fun virt hpage => (hreflags.leaf? virt).trans (if_neg hpage)

theorem Guards.mprotect (h : Guards host.cBit bottom stale start own state)
    (hcall : Honoured host state (.mprotect addr len prot))
    (hstep : protStep host state (.mprotect addr len prot) = some next) :
    Guards host.cBit bottom stale start own next := by
  obtain ⟨hprot, ⟨first, rfl, hspans⟩, hzero, hmapped⟩ := hcall
  have hyields : Exec.Yields (ProtCall.run host (.mprotect first.raw len prot)) state.memory
      (fun _ => Protects host.cBit bottom stale own state.memory first.raw len prot)
      (Stop.Allows fun _ => ProtectsSome host.cBit bottom stale own state.memory first.raw len prot) :=
    (mprotect_yields h.owns first.raw len prot).bind fun _ _ hafter => hafter
  obtain ⟨⟨reply, after⟩, hreply, rfl⟩ := Option.map_eq_some_iff.mp hstep
  cases reply with
  | none =>
    obtain ⟨error, hrun⟩ := Shims.kvmReply_none hreply
    obtain ⟨start', range, done, stop, rest, hnew, hrange, hsplit, hnone, -⟩ := hyields.error hrun
    obtain rfl : first = start' := Option.some.inj ((VirtAddr.new_raw first).symm.trans hnew)
    have hstop : stop.page ∈ (unmapWalk first len).map VirtAddr.page :=
      List.mem_map_of_mem (hsplit ▸ List.mem_append_right done List.mem_cons_self)
    obtain ⟨entry, hentry⟩ := hmapped stop ((mem_unmapWalk_iff hspans hzero hrange _).mp hstop)
    exact absurd hentry (hnone entry)
  | some result =>
    obtain ⟨start', range, hnew, hrange, hreflags⟩ := hyields.ok (Shims.kvmReply_some hreply)
    obtain rfl : first = start' := Option.some.inj ((VirtAddr.new_raw first).symm.trans hnew)
    exact h.reflagged hprot (mem_unmapWalk_iff hspans hzero hrange) hreflags

theorem note_of_zero (state : Guarded) (addr : Nat) (prot : CInt) :
    state.note (some (addr, 0, prot)) = state.asked := by
  funext page
  rw [Guarded.note_some, if_neg]
  simp [covers]

theorem Guards.step (h : Guards host.cBit bottom stale start own state)
    (hlaunched : Launched host.cBit bottom stale0 own0 start) {call : ProtCall} (hcall : Honoured host state call)
    (hstep : protStep host state call = some next) :
    ∃ own' stale', Guards host.cBit bottom stale' start own' next := by
  match call with
  | .mprotect addr len prot => exact ⟨own, stale, h.mprotect hcall hstep⟩
  | .line (.brk fuel none) =>
    cases hstep
    exact ⟨own, stale, h⟩
  | .line (.brk fuel (some addr)) =>
    obtain ⟨⟨reply, after⟩, hreply, rfl⟩ := Option.map_eq_some_iff.mp hstep
    obtain ⟨rfl, rfl⟩ := brk_of_empty hlaunched h.brkLine hcall hreply
    have hasked : state.note ((ProtCall.line (.brk fuel (some addr))).request state.memory) = state.asked := by
      rw [ProtCall.request, Nat.sub_eq_zero_of_le hcall, note_of_zero]
    dsimp only
    rw [hasked]
    exact ⟨own, stale, h⟩
  | .line (.mmap fuel addr length prot flags fd offset) =>
    obtain ⟨hprot, hunmapped⟩ := hcall
    have hmoves := mmap_moves h.owns fuel addr length prot flags fd offset
    obtain ⟨⟨reply, after⟩, hreply, rfl⟩ := Option.map_eq_some_iff.mp hstep
    cases reply with
    | none =>
      obtain ⟨error, hrun⟩ := Shims.kvmReply_none hreply
      obtain ⟨npages, hle, hlt, hunserved⟩ := hmoves.error hrun
      exact h.mmapFails hprot hunmapped hle hlt hunserved
    | some result =>
      obtain ⟨-, hmoved⟩ := hmoves.ok (Shims.kvmReply_some hreply)
      cases hmoved with
      | grown hle hlt hnext hgranted =>
        obtain ⟨own', hafter⟩ := h.mmapped hprot hle hlt hnext hgranted
        exact ⟨own', stale, hafter⟩

/-- As long as the calls are answered rightly, a page permits no more than its last request has asked for, and
`mprotect` moves nothing. -/
theorem protections_enforced (hlaunched : Launched host.cBit bottom stale own0 start) {calls : List ProtCall}
    (hcalls : Runs.Each (protStep host) (Honoured host) ⟨start, fun _ => none⟩ calls) :
    Runs.Always (protStep host) (fun state => Enforced host.cBit start state ∧
      ∀ addr len prot reply after,
        Shims.kvmReply (mprotect host addr len prot state.memory) = some (reply, after) →
        KeepsPages host.cBit state.memory after) ⟨start, fun _ => none⟩ calls := by
  have hinv : Runs.Always (protStep host) (fun state => ∃ own stale, Guards host.cBit bottom stale start own state)
      ⟨start, fun _ => none⟩ calls :=
    Runs.always_of_each (fun _ _ _ ⟨_, _, h⟩ hcall hstep => h.step hlaunched hcall hstep)
      ⟨own0, stale, hlaunched.guards⟩ hcalls
  refine hinv.imp ?_
  rintro state ⟨own, stale, h⟩
  exact ⟨h.enforced, fun _ _ _ _ _ hreply => mprotect_keepsPages h.owns hreply⟩

end

def smallGuarded : Guarded := ⟨smallMemory, fun _ => none⟩

def readOnly : List ProtCall := [.line (.mmap 3 none 1 3 PA (-1) 0), .mprotect 0x7f0000000000 0x1000 1]

theorem readOnly_honoured : Runs.Each (protStep smallHost) (Honoured smallHost) smallGuarded readOnly := by
  have hpage : ∀ {len : Nat} {virt : VirtAddr}, len ≤ 0x1000 → covers 0x7f0000000000 len virt.page = true →
      virt.page = EXEC_ELF_VIRT_ADDR_BASE.page := by
    intro len virt hlen hvirt
    rw [covers, decide_eq_true_eq] at hvirt
    obtain ⟨hpos, hlo, hhi⟩ := hvirt
    change virt.page = 0x7f0000000000 / SIZE_4_KIB
    unfold SIZE_4_KIB at *
    omega
  have hunmapped : smallMemory.tables.leaf? smallHost.cBit EXEC_ELF_VIRT_ADDR_BASE = none := by decide +kernel
  have hmapped : (protStep smallHost smallGuarded (.line (.mmap 3 none 1 3 PA (-1) 0))).map (fun state =>
      (state.memory.tables.leaf? smallHost.cBit EXEC_ELF_VIRT_ADDR_BASE).map Prod.snd) = some (some []) := by
    decide +kernel
  intro middle hmiddle
  rw [hmiddle, Option.map_some, Option.some.injEq] at hmapped
  obtain ⟨⟨entry, _⟩, hleaf, rfl⟩ := Option.map_eq_some_iff.mp hmapped
  refine ⟨⟨by decide, fun virt hvirt => ?_⟩, fun _ _ =>
    ⟨⟨by decide, ?_, by decide, fun virt hvirt => ⟨entry, ?_⟩⟩, trivial⟩⟩
  · exact (leaf?_congr _ (hpage (by decide) hvirt)).trans hunmapped
  · exact ⟨EXEC_ELF_VIRT_ADDR_BASE, rfl, .inl (by decide)⟩
  · exact (leaf?_congr _ (hpage le_rfl hvirt)).trans hleaf

theorem protections_enforced_readOnly :
    (Runs.exec (protStep smallHost) smallGuarded readOnly).map (fun state =>
      (state.memory.tables.leaf? smallHost.cBit EXEC_ELF_VIRT_ADDR_BASE).map fun leaf => leaf.1.flags) =
        some (some (protFlags 1)) ∧
    Runs.Always (protStep smallHost) (fun state => Enforced smallHost.cBit smallMemory state ∧
      ∀ addr len prot reply after,
        Shims.kvmReply (mprotect smallHost addr len prot state.memory) = some (reply, after) →
        KeepsPages smallHost.cBit state.memory after) smallGuarded readOnly :=
  ⟨by decide +kernel, protections_enforced smallMemory_launched readOnly_honoured⟩

theorem not_enforced {calls : List ProtCall} (addr : VirtAddr) (flags : PageTableFlags) (prot : CInt)
    (hview : (Runs.exec (protStep smallHost) smallGuarded calls).map (fun state =>
      ((state.memory.tables.leaf? smallHost.cBit addr).map fun leaf => leaf.1.flags, state.asked addr.page)) =
        some (some flags, some prot)) (hout : ¬addr.InWindow)
    (hpermits : ∀ entry : PageTableEntry, entry.flags = flags → ¬entry.Permits prot) :
    ¬Runs.Always (protStep smallHost) (Enforced smallHost.cBit smallMemory) smallGuarded calls := by
  intro h
  obtain ⟨last, hlast, hsame⟩ := Option.map_eq_some_iff.mp hview
  obtain ⟨hflags, hasked⟩ := Prod.mk.inj hsame
  obtain ⟨leaf, hleaf, hentry⟩ := Option.map_eq_some_iff.mp hflags
  have henforced := h.final hlast addr leaf hout hleaf
  rw [hasked] at henforced
  exact hpermits leaf.1 hentry henforced

/-- A page of `brk` can be executed, a page that is not to be accessed can be read, and a page stays writable behind
one at which `mprotect` fails. -/
theorem protections_not_enforced :
    ¬Runs.Always (protStep smallHost) (Enforced smallHost.cBit smallMemory) smallGuarded
        [.line (.brk 3 (some 0x555500001000))] ∧
      ¬Runs.Always (protStep smallHost) (Enforced smallHost.cBit smallMemory) smallGuarded
        [.line (.mmap 3 none 1 0 PA (-1) 0)] ∧
      ¬Runs.Always (protStep smallHost) (Enforced smallHost.cBit smallMemory) smallGuarded
        [.line (.mmap 3 none 1 3 PA (-1) 0), .mprotect 0x7efffffff000 0x2000 1] := by
  refine ⟨?_, ?_, ?_⟩
  · refine not_enforced EXEC_BRK_VIRT_ADDR_BASE USER_TABLE_FLAGS 3 (by decide +kernel)
      (by decide) fun entry hflags hpermits => ?_
    exact hpermits.exec (hflags ▸ rfl) (by decide)
  · refine not_enforced EXEC_ELF_VIRT_ADDR_BASE (protFlags 0) 0 (by decide +kernel)
      (by decide) fun entry hflags hpermits => ?_
    exact hpermits.read (hflags ▸ rfl) (hflags ▸ rfl) (by decide)
  · refine not_enforced EXEC_ELF_VIRT_ADDR_BASE (protFlags 3) 1 (by decide +kernel)
      (by decide) fun entry hflags hpermits => ?_
    exact hpermits.write (hflags ▸ rfl) (by decide)

end Enarx.Kvm
