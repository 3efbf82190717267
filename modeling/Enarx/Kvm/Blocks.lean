import Enarx.Bytes
import Enarx.Kvm.Addr
import Enarx.Runs

/-!
# The blocks of the sallyport

The guest cuts the memory of the sallyport into chunks of words and hands them out
under an index. The host cuts the segment into blocks of bytes and takes the block
of the index that a thread of the guest sends.
-/
namespace Enarx.Kvm

/-- The sallyport of a keep: the blocks of the guest are at the beginning of a segment, which the
host has mapped at `ptr`. -/
structure SallyportLayout where
  blockSize : Nat
  numBlocks : Nat
  ptr : VirtAddr
  size : Nat
  blockSize_pos : 0 < blockSize
  blockSize_dvd : 8 ∣ blockSize
  numBlocks_lt : numBlocks < 65536
  blocks_le : blockSize * numBlocks ≤ size
  ptr_dvd : 8 ∣ ptr.raw
  /-- The host maps memory in the lower half of its address space. -/
  end_lt : ptr.raw + size < 2 ^ 47

structure Chunk where
  start : Nat
  len : Nat
  deriving DecidableEq, Repr

def chunksMut (len chunkSize : Nat) : List Chunk :=
  (List.range ((len + chunkSize - 1) / chunkSize)).map fun k =>
    ⟨chunkSize * k, min chunkSize (len - chunkSize * k)⟩

structure BlockGuard where
  blockIndex : BitVec 16
  block : Option Chunk
  deriving DecidableEq, Repr

abbrev Slots (n : Nat) := Fin n → Option Chunk

namespace SallyportLayout

variable (layout : SallyportLayout)

def blockWords : Nat := layout.blockSize / 8

/-- `HOST_CALL_ALLOC`: the slots, zipped with the chunks of the memory. -/
def slots : Slots layout.numBlocks := fun i =>
  (chunksMut (layout.blockWords * layout.numBlocks) layout.blockWords)[i.val]?

end SallyportLayout

def Slots.tryAlloc {n : Nat} (slots : Slots n) : Option (BlockGuard × Slots n) := do
  let i ← (List.finRange n).find? fun i => (slots i).isSome
  return (⟨BitVec.ofNat 16 i, slots i⟩, Function.update slots i none)

def BlockGuard.drop {n : Nat} (guard : BlockGuard) (slots : Slots n) : Option (Slots n) :=
  if h : guard.blockIndex.toNat < n then some (Function.update slots ⟨_, h⟩ guard.block) else none

def portBytes (index : BitVec 16) : Byte × Byte := (index.setWidth 8, (index >>> 8).setWidth 8)

/-- `align_up(start, align_of::<usize>())`. -/
def alignUp8 (start : Nat) : Nat := if start % 8 = 0 then start else (start / 8 + 1) * 8

namespace SallyportLayout

variable (layout : SallyportLayout)

def pushBlock (sallyports : List (Option VirtAddr)) (start : Nat) : Option (List (Option VirtAddr)) :=
  let start := alignUp8 start
  if start + layout.blockSize ≤ layout.size then do
    let virt ← layout.ptr.add start
    return sallyports ++ [some virt]
  else some sallyports

def starts : List Nat :=
  (List.range ((layout.size + layout.blockSize - 1) / layout.blockSize)).map (layout.blockSize * ·)

/-- `kvm_builder_map` for the segment of the sallyport; `none` is a panic. -/
def kvmBuilderMap : Option (List (Option VirtAddr)) := layout.starts.foldlM layout.pushBlock []

end SallyportLayout

def blockNr (data : Byte × Byte) : Nat := data.1.toNat + data.2.toNat <<< 8

inductive BlockThread where
  | idle
  | holding (guard : BlockGuard)
  /-- The thread has left the guest, and the host has taken a block for it. -/
  | inHost (guard : BlockGuard) (blockVirt : VirtAddr)
  deriving DecidableEq, Repr

def BlockThread.guard? : BlockThread → Option BlockGuard
  | .idle => none
  | .holding guard | .inHost guard _ => some guard

structure BlockState (n : Nat) where
  slots : Slots n
  sallyports : List (Option VirtAddr)
  threads : Nat → BlockThread
  panicked : Bool

inductive BlockEvent where
  | tryAlloc (t : Nat)
  /-- `sally`: the processor leaves the guest. -/
  | sally (t : Nat)
  /-- The host has processed the block. -/
  | resume (t : Nat)
  | drop (t : Nat)
  deriving DecidableEq, Repr

namespace BlockState

variable {n : Nat} (state : BlockState n)

def setThread (t : Nat) (thread : BlockThread) : BlockState n :=
  { state with threads := Function.update state.threads t thread }

def step (state : BlockState n) : BlockEvent → Option (BlockState n)
  | .tryAlloc t =>
    match state.threads t with
    | .idle =>
      match Slots.tryAlloc state.slots with
      | none => some state
      | some (guard, slots) => some { state.setThread t (.holding guard) with slots }
    | _ => none
  | .sally t =>
    match state.threads t with
    | .holding guard =>
      let nr := blockNr (portBytes guard.blockIndex)
      -- `sallyports[block_nr].take().unwrap()`
      match state.sallyports[nr]? with
      | some (some blockVirt) =>
        some { state.setThread t (.inHost guard blockVirt) with
          sallyports := state.sallyports.set nr none }
      | _ => some { state with panicked := true }
    | _ => none
  | .resume t =>
    match state.threads t with
    | .inHost guard blockVirt =>
      some { state.setThread t (.holding guard) with
        sallyports := state.sallyports.set (blockNr (portBytes guard.blockIndex)) (some blockVirt) }
    | _ => none
  | .drop t =>
    match state.threads t with
    | .holding guard =>
      match guard.drop state.slots with
      | some slots => some { state.setThread t .idle with slots }
      | none => some { state with panicked := true }
    | _ => none

end BlockState

def SallyportLayout.init (layout : SallyportLayout) (sallyports : List (Option VirtAddr)) :
    BlockState layout.numBlocks := ⟨layout.slots, sallyports, fun _ => .idle, false⟩

namespace SallyportLayout

variable (layout : SallyportLayout)

def chunk (i : Nat) : Chunk := ⟨layout.blockWords * i, layout.blockWords⟩

theorem mul_blockWords : 8 * layout.blockWords = layout.blockSize :=
  Nat.mul_div_cancel' layout.blockSize_dvd

theorem blockWords_pos : 0 < layout.blockWords := by
  have hpos := layout.blockSize_pos
  have hmul := layout.mul_blockWords
  omega

theorem slots_eq (i : Fin layout.numBlocks) : layout.slots i = some (layout.chunk i) := by
  have hpos := layout.blockWords_pos
  have hcount : (layout.blockWords * layout.numBlocks + layout.blockWords - 1) / layout.blockWords =
      layout.numBlocks := by
    rw [Nat.add_sub_assoc hpos, Nat.mul_add_div hpos, Nat.div_eq_of_lt (by omega), Nat.add_zero]
  have hle : layout.blockWords * i + layout.blockWords ≤ layout.blockWords * layout.numBlocks := by
    rw [← Nat.mul_succ]
    exact Nat.mul_le_mul_left _ i.isLt
  rw [slots, chunksMut, hcount, List.getElem?_map, List.getElem?_range i.isLt, Option.map_some, chunk,
    Nat.min_eq_left (by omega)]

theorem foldlM_pushBlock (m : Nat) : ∃ sallyports,
    ((List.range m).map (layout.blockSize * ·)).foldlM layout.pushBlock [] = some sallyports ∧
    sallyports.length = min m (layout.size / layout.blockSize) ∧
    ∀ k < sallyports.length, ∃ virt : VirtAddr, sallyports[k]? = some (some virt) ∧
      virt.raw = layout.ptr.raw + layout.blockSize * k := by
  have hpos := layout.blockSize_pos
  induction m with
  | zero => exact ⟨[], rfl, (Nat.zero_min _).symm, fun k hk => absurd hk (Nat.not_lt_zero k)⟩
  | succ m ih =>
    obtain ⟨sallyports, hfold, hlength, hblocks⟩ := ih
    have haligned : alignUp8 (layout.blockSize * m) = layout.blockSize * m :=
      if_pos (Nat.mod_eq_zero_of_dvd (Dvd.dvd.mul_right layout.blockSize_dvd m))
    have hfits : layout.blockSize * m + layout.blockSize ≤ layout.size ↔
        m + 1 ≤ layout.size / layout.blockSize := by
      rw [Nat.le_div_iff_mul_le hpos, Nat.mul_comm (m + 1), Nat.mul_succ]
    rw [List.range_succ, List.map_append, List.foldlM_append, hfold]
    change ∃ _, (layout.pushBlock sallyports (layout.blockSize * m) >>= pure) = _ ∧ _
    rw [bind_pure, pushBlock]
    simp only [haligned]
    split
    · next hle =>
      have hlt := layout.end_lt
      let virt : VirtAddr := ⟨layout.ptr.raw + layout.blockSize * m, .inl (by omega)⟩
      rw [show layout.ptr.add (layout.blockSize * m) = some virt from VirtAddr.add_eq rfl]
      rw [hfits] at hle
      have hm : sallyports.length = m := by rw [hlength, Nat.min_eq_left (by omega)]
      refine ⟨sallyports ++ [some virt], rfl, ?_, ?_⟩
      · rw [List.length_append, hm, Nat.min_eq_left hle]
        rfl
      · intro k hk
        rw [List.length_append, List.length_singleton, hm] at hk
        by_cases hkm : k = m
        · subst hkm
          exact ⟨virt, by rw [← hm, List.getElem?_concat_length], rfl⟩
        · rw [List.getElem?_append_left (by omega)]
          exact hblocks k (by omega)
    · next hle =>
      rw [hfits] at hle
      refine ⟨sallyports, rfl, ?_, hblocks⟩
      rw [hlength]
      omega

theorem kvmBuilderMap_eq : ∃ sallyports, layout.kvmBuilderMap = some sallyports ∧
    sallyports.length = layout.size / layout.blockSize ∧
    ∀ k < sallyports.length, ∃ virt : VirtAddr, sallyports[k]? = some (some virt) ∧
      virt.raw = layout.ptr.raw + layout.blockSize * k := by
  obtain ⟨sallyports, hfold, hlength, hblocks⟩ :=
    layout.foldlM_pushBlock ((layout.size + layout.blockSize - 1) / layout.blockSize)
  refine ⟨sallyports, hfold, ?_, hblocks⟩
  rw [hlength, Nat.min_eq_right]
  exact Nat.div_le_div_right (by have := layout.blockSize_pos; omega)

end SallyportLayout

theorem blockNr_portBytes (index : BitVec 16) : blockNr (portBytes index) = index.toNat := by
  have hlt := index.isLt
  simp only [blockNr, portBytes, BitVec.toNat_setWidth, BitVec.toNat_ushiftRight, Nat.shiftRight_eq_div_pow,
    Nat.shiftLeft_eq]
  omega

namespace BlockThread

def Holds (i : Nat) (thread : BlockThread) : Prop :=
  ∃ guard, thread.guard? = some guard ∧ guard.blockIndex.toNat = i

def InHostAt (i : Nat) (thread : BlockThread) : Prop :=
  ∃ guard virt, thread = .inHost guard virt ∧ guard.blockIndex.toNat = i

variable {i : Nat} {guard : BlockGuard} {virt : VirtAddr}

@[simp] theorem holds_idle : ¬Holds i .idle := by
  rintro ⟨guard, hguard, -⟩
  cases hguard

@[simp] theorem holds_holding : Holds i (.holding guard) ↔ guard.blockIndex.toNat = i := by
  simp [Holds, guard?]

@[simp] theorem holds_inHost : Holds i (.inHost guard virt) ↔ guard.blockIndex.toNat = i := by
  simp [Holds, guard?]

@[simp] theorem inHostAt_idle : ¬InHostAt i .idle := by simp [InHostAt]

@[simp] theorem inHostAt_holding : ¬InHostAt i (.holding guard) := by simp [InHostAt]

@[simp] theorem inHostAt_inHost : InHostAt i (.inHost guard virt) ↔ guard.blockIndex.toNat = i := by
  simp [InHostAt]

theorem InHostAt.holds {thread : BlockThread} (h : thread.InHostAt i) : thread.Holds i := by
  obtain ⟨guard, virt, rfl, hi⟩ := h
  exact holds_inHost.mpr hi

end BlockThread

structure BlockThread.Sound (layout : SallyportLayout) (thread : BlockThread) : Prop where
  guard : ∀ {guard}, thread.guard? = some guard → guard.blockIndex.toNat < layout.numBlocks ∧
    guard.block = some (layout.chunk guard.blockIndex.toNat)
  virt : ∀ {guard virt}, thread = .inHost guard virt →
    virt.raw = layout.ptr.raw + layout.blockSize * guard.blockIndex.toNat

theorem BlockThread.Sound.idle (layout : SallyportLayout) : BlockThread.idle.Sound layout where
  guard h := by cases h
  virt h := by cases h

structure BlockState.Inv (layout : SallyportLayout) (state : BlockState layout.numBlocks) : Prop where
  panicked : state.panicked = false
  slot : ∀ {i chunk}, state.slots i = some chunk → chunk = layout.chunk i
  threads : ∀ t, (state.threads t).Sound layout
  held : ∀ i, Token (fun t => (state.threads t).Holds i.val) (state.slots i = none)
  length : layout.numBlocks ≤ state.sallyports.length
  virt : ∀ {k virt}, state.sallyports[k]? = some (some virt) →
    virt.raw = layout.ptr.raw + layout.blockSize * k
  host : ∀ k, Token (fun t => (state.threads t).InHostAt k) (state.sallyports[k]? = some none)

namespace BlockState.Inv

variable {layout : SallyportLayout} {state : BlockState layout.numBlocks} {t : Nat} {guard : BlockGuard}

theorem init {sallyports : List (Option VirtAddr)} (hlength : layout.numBlocks ≤ sallyports.length)
    (hblocks : ∀ k < sallyports.length, ∃ virt : VirtAddr, sallyports[k]? = some (some virt) ∧
      virt.raw = layout.ptr.raw + layout.blockSize * k) : Inv layout (layout.init sallyports) where
  panicked := rfl
  slot hslot := (Option.some.inj ((layout.slots_eq _).symm.trans hslot)).symm
  threads _ := .idle layout
  held i := by
    refine ⟨⟨fun hnone => ?_, fun ⟨_, hholds⟩ => absurd hholds BlockThread.holds_idle⟩,
      fun hholds => absurd hholds BlockThread.holds_idle⟩
    cases (layout.slots_eq i).symm.trans hnone
  length := hlength
  virt {k virt} hvirt := by
    have hk : k < sallyports.length := (List.getElem?_eq_some_iff.mp hvirt).1
    obtain ⟨other, hother, hraw⟩ := hblocks k hk
    cases hother.symm.trans hvirt
    exact hraw
  host k := by
    refine ⟨⟨fun hnone => ?_, fun ⟨_, hin⟩ => absurd hin BlockThread.inHostAt_idle⟩,
      fun hin => absurd hin BlockThread.inHostAt_idle⟩
    have hk : k < sallyports.length := (List.getElem?_eq_some_iff.mp hnone).1
    obtain ⟨virt, hvirt, -⟩ := hblocks k hk
    cases hvirt.symm.trans hnone

theorem update_threads (h : Inv layout state) {thread : BlockThread} (hthread : thread.Sound layout)
    (j : Nat) : (Function.update state.threads t thread j).Sound layout := by
  revert j
  rw [Function.forall_update_iff state.threads fun _ thread => thread.Sound layout]
  exact ⟨hthread, fun j _ => h.threads j⟩

theorem tryAlloc (h : Inv layout state) (hidle : state.threads t = .idle)
    {slots : Slots layout.numBlocks} (halloc : Slots.tryAlloc state.slots = some (guard, slots)) :
    Inv layout ⟨slots, state.sallyports, Function.update state.threads t (.holding guard),
      state.panicked⟩ := by
  obtain ⟨i, hfind, halloc⟩ := Option.bind_eq_some_iff.mp halloc
  cases halloc
  have hsome := List.find?_some hfind
  obtain ⟨chunk, hchunk⟩ := Option.isSome_iff_exists.mp hsome
  have hindex : (BitVec.ofNat 16 i.val).toNat = i := by
    have := layout.numBlocks_lt
    rw [BitVec.toNat_ofNat, Nat.mod_eq_of_lt (by omega)]
  exact {
    panicked := h.panicked
    slot := by
      intro k other hother
      by_cases hki : k = i
      · subst hki
        cases (Function.update_self k none state.slots).symm.trans hother
      · exact h.slot ((Function.update_of_ne hki none state.slots).symm.trans hother)
    threads := by
      refine h.update_threads ⟨fun hguard => ?_, fun hin => by cases hin⟩
      cases hguard
      rw [hindex, hchunk, h.slot hchunk]
      exact ⟨i.isLt, rfl⟩
    held := by
      intro k
      by_cases hki : k = i
      · subst hki
        refine (h.held k).acquire (by rw [hchunk]; exact Option.some_ne_none _) ?_ ?_
        · exact BlockThread.holds_holding.mpr hindex
        · exact Function.update_self k none state.slots
      · refine (h.held k).keep ?_ ?_
        · rw [hidle, BlockThread.holds_holding, hindex]
          simp [Fin.val_inj, Ne.symm hki]
        · dsimp only
          rw [Function.update_of_ne hki]
    length := h.length
    virt := h.virt
    host := by
      intro k
      refine (h.host k).keep ?_ .rfl
      rw [hidle]
      simp }

theorem sallyports_eq (h : Inv layout state) (hholding : state.threads t = .holding guard) :
    ∃ virt, state.sallyports[guard.blockIndex.toNat]? = some (some virt) := by
  have hlt : guard.blockIndex.toNat < layout.numBlocks := ((h.threads t).guard (by rw [hholding]; rfl)).1
  have hlength := h.length
  cases hblock : state.sallyports[guard.blockIndex.toNat]? with
  | none =>
    rw [List.getElem?_eq_none_iff] at hblock
    omega
  | some block =>
    cases block with
    | some virt => exact ⟨virt, rfl⟩
    | none =>
      obtain ⟨other, hother⟩ := (h.host _).taken_iff.mp hblock
      have hholds : (state.threads t).Holds guard.blockIndex.toNat := by
        rw [hholding]
        exact BlockThread.holds_holding.mpr rfl
      cases (h.held ⟨_, hlt⟩).unique hother.holds hholds
      rw [hholding] at hother
      exact absurd hother BlockThread.inHostAt_holding

theorem sally (h : Inv layout state) (hholding : state.threads t = .holding guard) {virt : VirtAddr}
    (hvirt : state.sallyports[guard.blockIndex.toNat]? = some (some virt)) :
    Inv layout ⟨state.slots, state.sallyports.set guard.blockIndex.toNat none,
      Function.update state.threads t (.inHost guard virt), state.panicked⟩ := by
  have hlt := (List.getElem?_eq_some_iff.mp hvirt).1
  exact {
    panicked := h.panicked
    slot := h.slot
    threads := by
      refine h.update_threads ⟨fun hguard => (h.threads t).guard ?_, fun hin => ?_⟩
      · rw [hholding]
        exact hguard
      · cases hin
        exact h.virt hvirt
    held := by
      intro k
      refine (h.held k).keep ?_ .rfl
      rw [hholding]
      simp
    length := by
      rw [List.length_set]
      exact h.length
    virt := by
      intro k other hother
      rw [List.getElem?_set] at hother
      split at hother
      · cases hother
      · exact h.virt hother
    host := by
      intro k
      by_cases hk : guard.blockIndex.toNat = k
      · subst hk
        refine (h.host _).acquire (by rw [hvirt]; simp) (BlockThread.inHostAt_inHost.mpr rfl) ?_
        rw [List.getElem?_set_self hlt]
      · refine (h.host k).keep ?_ ?_
        · rw [hholding]
          simp [hk]
        · dsimp only
          rw [List.getElem?_set_ne hk] }

theorem resume (h : Inv layout state) {virt : VirtAddr} (hinHost : state.threads t = .inHost guard virt) :
    Inv layout ⟨state.slots, state.sallyports.set guard.blockIndex.toNat (some virt),
      Function.update state.threads t (.holding guard), state.panicked⟩ := by
  have hvirt := (h.threads t).virt hinHost
  exact {
    panicked := h.panicked
    slot := h.slot
    threads := by
      refine h.update_threads ⟨fun hguard => (h.threads t).guard ?_, fun hin => by cases hin⟩
      rw [hinHost]
      exact hguard
    held := by
      intro k
      refine (h.held k).keep ?_ .rfl
      rw [hinHost]
      simp
    length := by
      rw [List.length_set]
      exact h.length
    virt := by
      intro k other hother
      rw [List.getElem?_set] at hother
      split at hother
      · next hk =>
        subst hk
        split at hother
        · cases hother
          exact hvirt
        · cases hother
      · exact h.virt hother
    host := by
      intro k
      by_cases hk : guard.blockIndex.toNat = k
      · subst hk
        refine (h.host _).release ?_ BlockThread.inHostAt_holding ?_
        · rw [hinHost]
          exact BlockThread.inHostAt_inHost.mpr rfl
        · rw [List.getElem?_set, if_pos rfl]
          split <;> simp
      · refine (h.host k).keep ?_ ?_
        · rw [hinHost]
          simp [hk]
        · dsimp only
          rw [List.getElem?_set_ne hk] }

theorem drop (h : Inv layout state) (hholding : state.threads t = .holding guard) :
    ∃ slots, guard.drop state.slots = some slots ∧
      Inv layout ⟨slots, state.sallyports, Function.update state.threads t .idle, state.panicked⟩ := by
  obtain ⟨hlt, hblock⟩ : guard.blockIndex.toNat < layout.numBlocks ∧
      guard.block = some (layout.chunk guard.blockIndex.toNat) :=
    (h.threads t).guard (by rw [hholding]; rfl)
  refine ⟨Function.update state.slots ⟨_, hlt⟩ guard.block, dif_pos hlt, ?_⟩
  exact {
    panicked := h.panicked
    slot := by
      intro k other hother
      by_cases hk : k = ⟨_, hlt⟩
      · subst hk
        have hself := (Function.update_self (⟨_, hlt⟩ : Fin layout.numBlocks) guard.block state.slots).symm.trans hother
        exact (Option.some.inj (hblock.symm.trans hself)).symm
      · exact h.slot ((Function.update_of_ne hk guard.block state.slots).symm.trans hother)
    threads := h.update_threads (.idle layout)
    held := by
      intro k
      by_cases hk : k = ⟨_, hlt⟩
      · subst hk
        refine (h.held _).release ?_ BlockThread.holds_idle ?_
        · rw [hholding]
          exact BlockThread.holds_holding.mpr rfl
        · dsimp only
          rw [Function.update_self, hblock]
          exact Option.some_ne_none _
      · refine (h.held k).keep ?_ ?_
        · rw [hholding, BlockThread.holds_holding]
          simp only [BlockThread.holds_idle, false_iff]
          exact fun heq => hk (Fin.ext heq.symm)
        · dsimp only
          rw [Function.update_of_ne hk]
    length := h.length
    virt := h.virt
    host := by
      intro k
      refine (h.host k).keep ?_ .rfl
      rw [hholding]
      simp }

theorem step (h : Inv layout state) {event : BlockEvent} {next : BlockState layout.numBlocks}
    (hnext : state.step event = some next) : Inv layout next := by
  unfold BlockState.step at hnext
  split at hnext
  case h_1 t =>
    split at hnext
    · next hidle =>
      split at hnext
      · cases hnext
        exact h
      · next guard slots halloc =>
        cases hnext
        exact h.tryAlloc hidle halloc
    · cases hnext
  case h_2 t =>
    split at hnext
    · next guard hholding =>
      obtain ⟨virt, hvirt⟩ := h.sallyports_eq hholding
      simp only [blockNr_portBytes, hvirt] at hnext
      cases hnext
      exact h.sally hholding hvirt
    · cases hnext
  case h_3 t =>
    split at hnext
    · next guard virt hinHost =>
      simp only [blockNr_portBytes] at hnext
      cases hnext
      exact h.resume hinHost
    · cases hnext
  case h_4 t =>
    split at hnext
    · next guard hholding =>
      obtain ⟨slots, hdrop, hinv⟩ := h.drop hholding
      simp only [hdrop] at hnext
      cases hnext
      exact hinv
    · cases hnext

end BlockState.Inv

/-- The blocks of the host are the chunks of the guest, in memory of the segment that they do not
share. -/
structure SallyportLayout.Maps (layout : SallyportLayout) (sallyports : List (Option VirtAddr)) : Prop where
  guest : ∀ i, layout.slots i = some (layout.chunk i)
  host : ∀ i < layout.numBlocks, ∃ virt, sallyports[i]? = some (some virt) ∧
    virt.raw = layout.ptr.raw + 8 * (layout.chunk i).start ∧ 8 * (layout.chunk i).len = layout.blockSize ∧
    8 ∣ virt.raw ∧ virt.raw + layout.blockSize ≤ layout.ptr.raw + layout.size
  disjoint : ∀ {i j : Nat} {virt other : VirtAddr}, i ≠ j → sallyports[i]? = some (some virt) →
    sallyports[j]? = some (some other) →
    virt.raw + layout.blockSize ≤ other.raw ∨ other.raw + layout.blockSize ≤ virt.raw

structure BlockState.Agrees (layout : SallyportLayout) (sallyports : List (Option VirtAddr))
    (state : BlockState layout.numBlocks) : Prop where
  panicked : state.panicked = false
  exclusive : ∀ {t other guard guard'}, (state.threads t).guard? = some guard →
    (state.threads other).guard? = some guard' → guard.blockIndex = guard'.blockIndex → t = other
  slot : ∀ {i chunk}, state.slots i = some chunk → chunk = layout.chunk i
  free_or_held : ∀ i, (state.slots i).isSome ↔ ¬∃ t, (state.threads t).Holds i
  guard : ∀ {t guard}, (state.threads t).guard? = some guard →
    guard.blockIndex.toNat < layout.numBlocks ∧ guard.block = some (layout.chunk guard.blockIndex.toNat)
  host : ∀ {t guard virt}, state.threads t = .inHost guard virt →
    sallyports[guard.blockIndex.toNat]? = some (some virt)

section

variable {layout : SallyportLayout} {sallyports : List (Option VirtAddr)}
  (hlength : sallyports.length = layout.size / layout.blockSize)
  (hblocks : ∀ k < sallyports.length, ∃ virt : VirtAddr, sallyports[k]? = some (some virt) ∧
    virt.raw = layout.ptr.raw + layout.blockSize * k)

theorem SallyportLayout.numBlocks_le (layout : SallyportLayout) :
    layout.numBlocks ≤ layout.size / layout.blockSize := by
  rw [Nat.le_div_iff_mul_le layout.blockSize_pos, Nat.mul_comm]
  exact layout.blocks_le

include hblocks

theorem SallyportLayout.raw_eq {k : Nat} {virt : VirtAddr} (hvirt : sallyports[k]? = some (some virt)) :
    virt.raw = layout.ptr.raw + layout.blockSize * k := by
  obtain ⟨other, hother, hraw⟩ := hblocks k (List.getElem?_eq_some_iff.mp hvirt).1
  cases hother.symm.trans hvirt
  exact hraw

include hlength

theorem SallyportLayout.maps : layout.Maps sallyports where
  guest := layout.slots_eq
  host i hi := by
    have hfit := layout.numBlocks_le
    obtain ⟨virt, hvirt, hraw⟩ := hblocks i (by omega)
    have hwords := layout.mul_blockWords
    have hend : layout.blockSize * i + layout.blockSize ≤ layout.size := by
      rw [← Nat.mul_succ]
      exact (Nat.mul_le_mul_left _ hi).trans layout.blocks_le
    refine ⟨virt, hvirt, ?_, hwords, ?_, ?_⟩
    · rw [hraw, chunk, ← Nat.mul_assoc, hwords]
    · rw [hraw]
      exact Nat.dvd_add layout.ptr_dvd (Dvd.dvd.mul_right layout.blockSize_dvd i)
    · omega
  disjoint {i j virt other} hne hvirt hother := by
    rw [raw_eq hblocks hvirt, raw_eq hblocks hother]
    rcases Nat.lt_or_gt_of_ne hne with hlt | hlt
    · have hle := Nat.mul_le_mul_left layout.blockSize hlt
      rw [Nat.mul_succ] at hle
      omega
    · have hle := Nat.mul_le_mul_left layout.blockSize hlt
      rw [Nat.mul_succ] at hle
      omega

theorem BlockState.Inv.agrees {state : BlockState layout.numBlocks} (h : state.Inv layout) :
    state.Agrees layout sallyports where
  panicked := h.panicked
  exclusive {t other guard guard'} hguard hguard' heq := by
    have hlt := ((h.threads t).guard hguard).1
    exact (h.held ⟨_, hlt⟩).unique ⟨guard, hguard, rfl⟩ ⟨guard', hguard', congrArg BitVec.toNat heq.symm⟩
  slot := h.slot
  free_or_held i := by
    rw [← (h.held i).taken_iff, Option.isSome_iff_ne_none]
  guard hguard := (h.threads _).guard hguard
  host {t guard virt} hthread := by
    have hlt := ((h.threads t).guard (by rw [hthread]; rfl)).1
    have hfit := layout.numBlocks_le
    obtain ⟨other, hother, hraw⟩ := hblocks _ (hlength ▸ hlt.trans_le hfit)
    have heq : virt = other := VirtAddr.ext (((h.threads t).virt hthread).trans hraw.symm)
    rw [heq, hother]

end

/-- Guest and host mean the same memory by an index, in every interleaving of the threads. -/
theorem blocks_agree (layout : SallyportLayout) : ∃ sallyports,
    layout.kvmBuilderMap = some sallyports ∧ layout.Maps sallyports ∧
    ∀ events, Runs.Always BlockState.step (BlockState.Agrees layout sallyports)
      (layout.init sallyports) events := by
  obtain ⟨sallyports, hmap, hlength, hblocks⟩ := layout.kvmBuilderMap_eq
  refine ⟨sallyports, hmap, SallyportLayout.maps hlength hblocks, fun events => ?_⟩
  have hfit : layout.numBlocks ≤ sallyports.length := hlength ▸ layout.numBlocks_le
  have hinv : Runs.Always BlockState.step (BlockState.Inv layout) (layout.init sallyports) events :=
    Runs.always_of_invariant (fun _ _ _ h hnext => h.step hnext) (.init hfit hblocks) events
  exact hinv.imp fun _ h => h.agrees hlength hblocks

def shimSallyport : SallyportLayout where
  blockSize := 69632
  numBlocks := 2
  ptr := ⟨0x7F0000000000, EXEC_ELF_VIRT_ADDR_BASE.canonical⟩
  size := 139264
  blockSize_pos := by decide
  blockSize_dvd := by decide
  numBlocks_lt := by decide
  blocks_le := by decide
  ptr_dvd := by decide
  end_lt := by decide

example : shimSallyport.kvmBuilderMap.map (List.map (Option.map VirtAddr.raw)) =
    some [some 0x7F0000000000, some 0x7F0000011000] := by decide

end Enarx.Kvm
