import Enarx.Bytes
import Enarx.Kvm.Calls

/-!
# The contents of memory

A page of memory is 512 words, whatever it is used for, so that a word of data has
the form of an entry. The workload sees the bytes of the pages that are mapped for it.
-/
namespace Enarx

def byteOfWord (word : Word) (i : Nat) : Byte := (wordBytes word).getD i 0

def setByteOfWord (word : Word) (i : Nat) (value : Byte) : Word := wordOfBytes ((wordBytes word).set i value)

theorem byteOfWord_setByteOfWord (word : Word) {i : Nat} (hi : i < 8) (j : Nat) (value : Byte) :
    byteOfWord (setByteOfWord word i value) j = if j = i then value else byteOfWord word j := by
  unfold byteOfWord setByteOfWord
  rw [wordBytes_wordOfBytes _ (by simp), List.getD_eq_getElem?_getD, List.getD_eq_getElem?_getD, List.getElem?_set]
  by_cases hj : j = i
  · subst hj
    simp [hi]
  · rw [if_neg (Ne.symm hj), if_neg hj]

theorem byteOfWord_zero (i : Nat) : byteOfWord 0 i = 0 := by
  have hbytes : wordBytes 0 = List.replicate 8 0 := by decide
  rw [byteOfWord, hbytes, List.getD_eq_getElem?_getD, List.getElem?_replicate]
  split <;> rfl

namespace Kvm

open Alloc PageTables

namespace PageTableEntry

/-- Bits 3 to 6, 8 to 11 and 52 to 62 are the flags that the shim does not use. -/
def bit (entry : PageTableEntry) (i : Nat) : Bool :=
  if i = 0 then entry.flags.present
  else if i = 1 then entry.flags.writable
  else if i = 2 then entry.flags.userAccessible
  else if i = 7 then entry.flags.hugePage
  else if i = 63 then entry.flags.noExecute
  else if 12 ≤ i ∧ i < 52 then entry.addr.raw.testBit i
  else entry.flags.other.getLsbD (if i < 7 then i - 3 else if i < 12 then i - 4 else i - 44)

def word (entry : PageTableEntry) : Word := BitVec.ofNat 64 (Nat.ofBits fun i : Fin 64 => entry.bit i)

def ofWord (word : Word) : PageTableEntry where
  addr := ⟨word.toNat / 4096 % 2 ^ 40 * 4096, by omega⟩
  flags := {
    present := word.getLsbD 0
    writable := word.getLsbD 1
    userAccessible := word.getLsbD 2
    hugePage := word.getLsbD 7
    noExecute := word.getLsbD 63
    other := BitVec.ofNat 19 (Nat.ofBits fun i : Fin 19 =>
      word.getLsbD (if i.val < 4 then i + 3 else if i.val < 8 then i + 4 else i + 44)) }
  aligned := Nat.dvd_mul_left _ _

theorem getLsbD_ofBits {w : Nat} (f : Fin w → Bool) {i : Nat} (hi : i < w) :
    (BitVec.ofNat w (Nat.ofBits f)).getLsbD i = f ⟨i, hi⟩ := by
  rw [BitVec.getLsbD_ofNat, Nat.testBit_ofBits_lt f i hi]
  simp [hi]

theorem testBit_ofWord_addr (word : Word) {i : Nat} (hlo : 12 ≤ i) (hhi : i < 52) :
    (ofWord word).addr.raw.testBit i = word.getLsbD i := by
  have hpow : (4096 : Nat) = 2 ^ 12 := by decide
  change (word.toNat / 4096 % 2 ^ 40 * 4096).testBit i = _
  rw [hpow, Nat.testBit_mul_two_pow, Nat.testBit_mod_two_pow, Nat.testBit_div_two_pow]
  simp [hlo, show i - 12 < 40 by omega, BitVec.getLsbD]

theorem word_ofWord (word : Word) : (ofWord word).word = word := by
  apply BitVec.eq_of_getLsbD_eq
  intro i hi
  rw [PageTableEntry.word, getLsbD_ofBits _ hi]
  unfold bit
  dsimp only
  split_ifs with h0 h1 h2 h7 h63 haddr hlow hmid
  · rw [h0]
    rfl
  · rw [h1]
    rfl
  · rw [h2]
    rfl
  · rw [h7]
    rfl
  · rw [h63]
    rfl
  · exact testBit_ofWord_addr word haddr.1 haddr.2
  · have hlt : i - 3 < 19 := by omega
    refine (getLsbD_ofBits _ hlt).trans ?_
    rw [if_pos (show i - 3 < 4 by omega), show i - 3 + 3 = i by omega]
  · have hlt : i - 4 < 19 := by omega
    refine (getLsbD_ofBits _ hlt).trans ?_
    rw [if_neg (show ¬i - 4 < 4 by omega), if_pos (show i - 4 < 8 by omega), show i - 4 + 4 = i by omega]
  · have hlt : i - 44 < 19 := by omega
    refine (getLsbD_ofBits _ hlt).trans ?_
    rw [if_neg (show ¬i - 44 < 4 by omega), if_neg (show ¬i - 44 < 8 by omega), show i - 44 + 44 = i by omega]

theorem word_unused : unused.word = 0 := by decide

end PageTableEntry

def VirtAddr.wordIndex (addr : VirtAddr) : Fin 512 := ⟨addr.raw % 4096 / 8, by omega⟩

def Memory.byte (c : CBit) (memory : Memory) (addr : VirtAddr) : Option Byte := do
  let n ← memory.tables.frame? c addr
  let page ← shimVirt n
  return byteOfWord (memory.tables.entry page addr.wordIndex).word (addr.raw % 8)

def Memory.byteAt (c : CBit) (memory : Memory) (addr : Nat) : Option Byte :=
  (VirtAddr.new addr).bind (memory.byte c)

def storeByte (c : CBit) (addr : VirtAddr) (value : Byte) : Alloc ε Unit := do
  let tables := (← get).tables
  let n ← unwrap (tables.frame? c addr)
  let page ← unwrap (shimVirt n)
  storeEntry page addr.wordIndex
    (.ofWord (setByteOfWord (tables.entry page addr.wordIndex).word (addr.raw % 8) value))

def copyFromSlice (c : CBit) (dst src : Nat) : Nat → Alloc ε Unit
  | 0 => pure ()
  | len + 1 => do
    copyFromSlice c dst src len
    let value ← unwrap ((← get).byteAt c (src + len))
    storeByte c (← unwrap (VirtAddr.new (dst + len))) value

/-- The addresses of a range in the lower half are in pages of 4 KiB of the workload. -/
structure MappedRange (c : CBit) (stale : Set Nat) (memory : Memory) (start size : Nat) : Prop where
  low : start + size ≤ 2 ^ 47
  page : ∀ addr : VirtAddr, start ≤ addr.raw → addr.raw < start + size → addr.page ∉ stale ∧
    ∃ entry : PageTableEntry, memory.tables.leaf? c addr = some (entry, []) ∧ entry.IsPointer

/-- The bytes of the workload have other values; everything is still mapped where it was. -/
structure Rewrites (c : CBit) (bottom : Nat) (stale : Set Nat) (own : Nat → Owner) (before : Memory)
    (value : VirtAddr → Option Byte) (after : Memory) : Prop where
  owns : after.Owns c bottom stale own
  leaf? : ∀ addr, after.tables.leaf? c addr = before.tables.leaf? c addr
  lines : after.lines = before.lines
  byte : ∀ addr : VirtAddr, ¬addr.InWindow → addr.page ∉ stale → after.byte c addr = value addr

section

variable {c : CBit} {bottom start size : Nat} {stale : Set Nat} {own : Nat → Owner}
  {memory before after : Memory} {addr : VirtAddr}

theorem not_inWindow_of_low (h : addr.raw < 2 ^ 47) : ¬addr.InWindow := by
  unfold VirtAddr.InWindow SHIM_VIRT_OFFSET
  omega

theorem memPage_of_shimVirt {n : Nat} {virt : VirtAddr} (h : shimVirt n = some virt) :
    virt.InWindow ∧ virt.memPage = n := by
  obtain ⟨-, hraw⟩ := shimVirt_spec h
  refine ⟨?_, ?_⟩
  · rw [VirtAddr.InWindow, hraw]
    exact Nat.le_add_right _ _
  · rw [VirtAddr.memPage, hraw, Nat.add_sub_cancel_left, Nat.mul_div_cancel_left _ (by decide)]

theorem exists_frame? (htidy : memory.tables.Tidy c) {entry : PageTableEntry}
    (hleaf : memory.tables.leaf? c addr = some (entry, [])) (hpointer : entry.IsPointer) :
    ∃ n virt, memory.tables.frame? c addr = some n ∧ shimVirt n = some virt := by
  have hsmall := mapsSmall_of_leaf? hleaf hpointer
  rw [mapsSmall, lastEntry?] at hsmall
  cases htable : memory.tables.tableAt c addr.stem with
  | none =>
    rw [htable] at hsmall
    cases hsmall
  | some table =>
    rw [htable, Option.map_some, Option.any_some, decide_eq_true_eq] at hsmall
    obtain ⟨pa, hpa, hraw⟩ := (htidy.entries addr.p1Index addr.length_stem.le htable).small addr.length_stem hsmall.1
    have hentry : memory.tables.leaf? c addr = some (memory.tables.entry table addr.p1Index, []) := by
      rw [leaf?_of_path htable addr.path_eq_stem, asLeaf, if_pos hsmall.1]
    have hlt : pa / SIZE_4_KIB < 2 ^ 27 := by
      unfold SIZE_4_KIB
      omega
    refine ⟨pa / SIZE_4_KIB, _, ?_, dif_pos hlt⟩
    rw [frame?_of_leaf? hentry, leafFrame_small c (Nat.mod_lt _ (by decide)) hsmall.1 hpa hraw]

theorem VirtAddr.raw_eq_of_wordIndex {a b : VirtAddr} (hpage : a.page = b.page) (hindex : a.wordIndex = b.wordIndex)
    (hbyte : a.raw % 8 = b.raw % 8) : a.raw = b.raw := by
  have hword := congrArg Fin.val hindex
  simp only [wordIndex] at hword
  unfold VirtAddr.page SIZE_4_KIB at hpage
  omega

theorem Memory.byte_of_frame? (memory : Memory) {n : Nat} {virt : VirtAddr}
    (hframe : memory.tables.frame? c addr = some n) (hvirt : shimVirt n = some virt) :
    memory.byte c addr = some (byteOfWord (memory.tables.entry virt addr.wordIndex).word (addr.raw % 8)) := by
  simp [Memory.byte, hframe, hvirt]

theorem Memory.byte_of_none (h : memory.tables.leaf? c addr = none) : memory.byte c addr = none := by
  simp [Memory.byte, frame?_of_none h]

theorem Memory.byte_congr (hleaf : after.tables.leaf? c addr = before.tables.leaf? c addr)
    (hmem : ∀ n virt, before.tables.frame? c addr = some n → shimVirt n = some virt →
      after.tables.mem virt = before.tables.mem virt) : after.byte c addr = before.byte c addr := by
  unfold Memory.byte
  rw [frame?_congr hleaf]
  refine Option.bind_congr fun n hframe => Option.bind_congr fun virt hvirt => ?_
  rw [PageTables.entry, PageTables.entry, hmem n virt hframe hvirt]

theorem storeByte_ok (h : memory.Owns c bottom stale own) (hlow : addr.raw < 2 ^ 47)
    (hfresh : addr.page ∉ stale) {entry : PageTableEntry} (hleaf : memory.tables.leaf? c addr = some (entry, []))
    (hpointer : entry.IsPointer) (value : Byte) :
    ∃ after, (storeByte c addr value : Alloc ε Unit) memory = (.ok (), after) ∧
      Rewrites c bottom stale own memory
        (fun other => if other.raw = addr.raw then some value else memory.byte c other) after := by
  obtain ⟨n, virt, hframe, hvirt⟩ := exists_frame? h.tidy hleaf hpointer
  obtain ⟨-, hpage⟩ := memPage_of_shimVirt hvirt
  have hout := not_inWindow_of_low hlow
  have hown := h.user hout hfresh hframe
  let word := PageTableEntry.ofWord
    (setByteOfWord (memory.tables.entry virt addr.wordIndex).word (addr.raw % 8) value)
  let mem := Radix.set memory.tables.mem virt addr.wordIndex word
  have hmem : ∀ {path table}, path.length ≤ 3 → memory.tables.tableAt c path = some table →
      mem table = memory.tables.mem table := by
    intro path table hpath htable
    apply Radix.set_table_ne
    rintro rfl
    have htableOwn := h.table hpath htable
    rw [hpage, hown] at htableOwn
    cases htableOwn
  have hsame := leaf?_outside hmem
  refine ⟨{ memory with tables := memory.tables.withMem mem }, ?_, ?_⟩
  · have hget : (get : Alloc ε Memory) memory = (.ok memory, memory) := rfl
    rw [storeByte, Exec.bind_of_ok hget, hframe]
    change ((unwrap (shimVirt n) : Alloc ε VirtAddr) >>= _) memory = _
    rw [hvirt]
    rfl
  · refine ⟨h.retable (h.tidy.outside hmem) hsame fun hpath htable => ?_, hsame, rfl, fun other hother hotherFresh => ?_⟩
    · exact (tableAt_outside hmem hpath).symm.trans htable
    -- a byte of another page is in another page of the memory
    · by_cases hotherPage : other.page = addr.page
      · have hotherFrame : memory.tables.frame? c other = some n := by
          rw [frame?_congr_page h.tidy (mapsSmall_of_leaf? hleaf hpointer) hotherPage, hframe]
        have hotherFrame' : (memory.tables.withMem mem).frame? c other = some n :=
          (frame?_congr (hsame other)).trans hotherFrame
        rw [Memory.byte_of_frame? { memory with tables := memory.tables.withMem mem } hotherFrame' hvirt,
          Memory.byte_of_frame? memory hotherFrame hvirt]
        have hbyte : addr.raw % 8 < 8 := Nat.mod_lt _ (by decide)
        by_cases hindex : other.wordIndex = addr.wordIndex
        · have hentry : (memory.tables.withMem mem).entry virt other.wordIndex = word := by
            rw [hindex]
            exact Radix.set_same _ _ _ _
          rw [hentry, PageTableEntry.word_ofWord, byteOfWord_setByteOfWord _ hbyte, hindex]
          by_cases hplace : other.raw % 8 = addr.raw % 8
          · rw [if_pos hplace, if_pos (VirtAddr.raw_eq_of_wordIndex hotherPage hindex hplace)]
          · rw [if_neg hplace, if_neg fun heq => hplace (by rw [heq])]
        · have hentry : (memory.tables.withMem mem).entry virt other.wordIndex =
              memory.tables.entry virt other.wordIndex := Radix.set_index_ne _ _ _ hindex
          rw [hentry, if_neg]
          intro heq
          exact hindex (congrArg VirtAddr.wordIndex (VirtAddr.ext heq))
      · rw [if_neg fun heq => hotherPage (by rw [VirtAddr.page, heq]; rfl)]
        apply Memory.byte_congr (hsame other)
        intro k page hk hkpage
        apply Radix.set_table_ne
        rintro rfl
        obtain ⟨-, hkn⟩ := memPage_of_shimVirt hkpage
        have hotherOwn := h.user hother hotherFresh hk
        rw [← hkn, hpage, hown, Owner.user.injEq] at hotherOwn
        exact hotherPage hotherOwn.symm

theorem Memory.byteAt_raw (memory : Memory) (addr : VirtAddr) : memory.byteAt c addr.raw = memory.byte c addr := by
  rw [Memory.byteAt, VirtAddr.new_raw, Option.bind_some]

theorem MappedRange.byteAt (h : MappedRange c stale memory start size) (htidy : memory.tables.Tidy c) {raw : Nat}
    (hlo : start ≤ raw) (hhi : raw < start + size) : ∃ value, memory.byteAt c raw = some value := by
  have hlow := h.low
  obtain ⟨addr, -, rfl⟩ := VirtAddr.new_low (show raw < 2 ^ 47 by omega)
  obtain ⟨-, entry, hleaf, hpointer⟩ := h.page addr hlo hhi
  obtain ⟨n, virt, hframe, hvirt⟩ := exists_frame? htidy hleaf hpointer
  exact ⟨_, (memory.byteAt_raw addr).trans (Memory.byte_of_frame? memory hframe hvirt)⟩

theorem MappedRange.sub (h : MappedRange c stale memory start size) {start' size' : Nat} (hlo : start ≤ start')
    (hhi : start' + size' ≤ start + size) : MappedRange c stale memory start' size' :=
  ⟨hhi.trans h.low, fun addr hle hlt => h.page addr (hlo.trans hle) (hlt.trans_le hhi)⟩

theorem MappedRange.congr (h : MappedRange c stale before start size)
    (hleaf : ∀ addr : VirtAddr, start ≤ addr.raw → addr.raw < start + size →
      after.tables.leaf? c addr = before.tables.leaf? c addr) : MappedRange c stale after start size :=
  ⟨h.low, fun addr hlo hhi => hleaf addr hlo hhi ▸ h.page addr hlo hhi⟩

def copied (c : CBit) (memory : Memory) (dst src len : Nat) (addr : VirtAddr) : Option Byte :=
  if dst ≤ addr.raw ∧ addr.raw < dst + len then memory.byteAt c (src + (addr.raw - dst)) else memory.byte c addr

theorem copyFromSlice_ok (h : memory.Owns c bottom stale own) {dst src len : Nat}
    (hdst : MappedRange c stale memory dst len) (hsrc : MappedRange c stale memory src len)
    (hdisjoint : dst + len ≤ src ∨ src + len ≤ dst) :
    ∃ after, (copyFromSlice c dst src len : Alloc ε Unit) memory = (.ok (), after) ∧
      Rewrites c bottom stale own memory (copied c memory dst src len) after := by
  induction len with
  | zero =>
    refine ⟨memory, rfl, h, fun _ => rfl, rfl, fun addr _ _ => ?_⟩
    rw [copied, if_neg (by omega)]
  | succ len ih =>
    obtain ⟨middle, hmiddle, hrewrites⟩ := ih (hdst.sub le_rfl (by omega)) (hsrc.sub le_rfl (by omega)) (by omega)
    have hdstLow := hdst.low
    have hsrcLow := hsrc.low
    obtain ⟨source, -, hfrom⟩ := VirtAddr.new_low (show src + len < 2 ^ 47 by omega)
    obtain ⟨target, htarget, htargetRaw⟩ := VirtAddr.new_low (show dst + len < 2 ^ 47 by omega)
    obtain ⟨hfromFresh, -⟩ := hsrc.page source (by omega) (by omega)
    obtain ⟨htargetFresh, entry, hleaf, hpointer⟩ := hdst.page target (by omega) (by omega)
    obtain ⟨value, hvalue⟩ := hsrc.byteAt h.tidy (show src ≤ src + len by omega) (by omega)
    -- the source has not been written to so far
    have hread : middle.byteAt c (src + len) = some value := by
      rw [← hvalue, ← hfrom, Memory.byteAt_raw, Memory.byteAt_raw,
        hrewrites.byte source (not_inWindow_of_low (by omega)) hfromFresh, copied, if_neg (by omega)]
    obtain ⟨after, hafter, hstored⟩ := storeByte_ok (ε := ε) hrewrites.owns (show target.raw < 2 ^ 47 by omega) htargetFresh
      ((hrewrites.leaf? target).trans hleaf) hpointer value
    refine ⟨after, ?_, hstored.owns, fun addr => (hstored.leaf? addr).trans (hrewrites.leaf? addr),
      hstored.lines.trans hrewrites.lines, fun addr hout hfresh => ?_⟩
    · have hget : (get : Alloc ε Memory) middle = (.ok middle, middle) := rfl
      have hvalueOk : (unwrap (middle.byteAt c (src + len)) : Alloc ε Byte) middle = (.ok value, middle) := by
        rw [hread]
        rfl
      have htargetOk : (unwrap (VirtAddr.new (dst + len)) : Alloc ε VirtAddr) middle = (.ok target, middle) := by
        rw [htarget]
        rfl
      rw [copyFromSlice, Exec.bind_of_ok hmiddle, Exec.bind_of_ok hget, Exec.bind_of_ok hvalueOk,
        Exec.bind_of_ok htargetOk, hafter]
    · rw [hstored.byte addr hout hfresh]
      by_cases hlast : addr.raw = target.raw
      · rw [if_pos hlast, copied, if_pos (by omega), hlast, htargetRaw, Nat.add_sub_cancel_left, hvalue]
      · rw [if_neg hlast, hrewrites.byte addr hout hfresh, copied, copied]
        by_cases hin : dst ≤ addr.raw ∧ addr.raw < dst + len
        · rw [if_pos hin, if_pos (by omega)]
        · rw [if_neg hin, if_neg (by omega)]

def Touched (start size page : Nat) : Prop := start / SIZE_4_KIB ≤ page ∧ page ≤ (start + size - 1) / SIZE_4_KIB

structure Unmapped (c : CBit) (bottom : Nat) (stale : Set Nat) (before : Memory) (start size : Nat) (after : Memory) :
    Prop where
  owns : ∃ own, after.Owns c bottom stale own
  gone : ∀ addr : VirtAddr, Touched start size addr.page → after.byte c addr = none
  leaf? : ∀ addr : VirtAddr, ¬Touched start size addr.page → after.tables.leaf? c addr = before.tables.leaf? c addr
  byte : ∀ addr : VirtAddr, ¬Touched start size addr.page → ¬addr.InWindow → addr.page ∉ stale →
    after.byte c addr = before.byte c addr

theorem Releases.unmapped {walk : List VirtAddr} {frames : List Nat}
    (h : Releases c bottom stale own before walk frames after) (hbefore : before.Owns c bottom stale own)
    (hout : ∀ page ∈ walk, ¬page.InWindow ∧ page.page ∉ stale)
    (hwalk : ∀ page, page ∈ walk.map VirtAddr.page ↔ Touched start size page) :
    Unmapped c bottom stale before start size after where
  owns := ⟨_, h.owns⟩
  gone addr haddr := by
    apply Memory.byte_of_none
    rw [h.leaf? addr, if_pos ((hwalk _).mpr haddr)]
  leaf? addr haddr := by rw [h.leaf? addr, if_neg fun hmem => haddr ((hwalk _).mp hmem)]
  byte addr haddr hwindow hfresh := by
    have hleaf : after.tables.leaf? c addr = before.tables.leaf? c addr := by
      rw [h.leaf? addr, if_neg fun hmem => haddr ((hwalk _).mp hmem)]
    refine Memory.byte_congr hleaf fun n virt hframe hvirt => ?_
    obtain ⟨hinWindow, hpage⟩ := memPage_of_shimVirt hvirt
    have hown := hbefore.user hwindow hfresh hframe
    -- the memory that went back belonged to other pages
    have hkeep : n ∉ frames := by
      intro hmem
      obtain ⟨page, hpageMem, hpageFrame⟩ := exists_of_mem_right h.memory hmem
      obtain ⟨hpageOut, hpageFresh⟩ := hout page hpageMem
      have hpageOwn := hbefore.user hpageOut hpageFresh (hpageFrame page rfl)
      rw [hown, Owner.user.injEq] at hpageOwn
      exact haddr ((hwalk _).mp (hpageOwn ▸ List.mem_map_of_mem hpageMem))
    refine h.kept virt hinWindow (.inr ⟨addr.page, ?_⟩)
    rw [hpage, release, if_neg hkeep, hown]

theorem munmap_mapped {host : Host} (h : memory.Owns host.cBit bottom stale own) {addr length : Nat}
    (hlength : length ≠ 0) (hlow : addr + length + SIZE_4_KIB ≤ 2 ^ 47)
    (hmapped : ∀ virt : VirtAddr, Touched addr length virt.page → virt.page ∉ stale ∧
      ∃ entry : PageTableEntry, memory.tables.leaf? host.cBit virt = some (entry, []) ∧ entry.IsPointer) :
    ∃ after, munmap host addr length memory = (.ok (), after) ∧
      Unmapped host.cBit bottom stale memory addr length after := by
  obtain ⟨start, hstart, rfl⟩ := VirtAddr.new_low (show addr < 2 ^ 47 by unfold SIZE_4_KIB at hlow; omega)
  obtain ⟨after, hafter, hsteps⟩ := unmapMemory_ok h.tidy hlength hlow fun virt hlo hhi => by
    obtain ⟨-, entry, hleaf, hpointer⟩ := hmapped virt ⟨hlo, hhi⟩
    exact mapsSmall_of_leaf? hleaf hpointer
  have hwalk := map_page_unmapWalk_low hlength (show start.raw + length < 2 ^ 47 by unfold SIZE_4_KIB at hlow; omega)
  have hmem : ∀ page, page ∈ (unmapWalk start length).map VirtAddr.page ↔ Touched start.raw length page := by
    intro page
    have hle : start.raw / SIZE_4_KIB ≤ (start.raw + length - 1) / SIZE_4_KIB := Nat.div_le_div_right (by omega)
    rw [hwalk, List.mem_range'_1, Touched, VirtAddr.page]
    omega
  have hout : ∀ page ∈ unmapWalk start length, ¬page.InWindow ∧ page.page ∉ stale := by
    intro page hpage
    have htouched := (hmem page.page).mp (List.mem_map_of_mem hpage)
    refine ⟨?_, (hmapped page htouched).1⟩
    have hhi := htouched.2
    unfold VirtAddr.InWindow SHIM_VIRT_OFFSET
    unfold VirtAddr.page SIZE_4_KIB at *
    omega
  obtain ⟨frames, hreleases⟩ := h.unmapSteps hsteps hout
  refine ⟨after, ?_, hreleases.unmapped h hout hmem⟩
  rw [munmap, hstart]
  change ((attempt (unmapMemory host.cBit start length) : Alloc Sallyport.Errno _) >>= fun _ => pure ()) memory = _
  have hattempt : (attempt (unmapMemory host.cBit start length) : Alloc Sallyport.Errno (Except UnmapError Unit)) memory =
      (.ok (.ok ()), after) := by
    rw [attempt, hafter]
  rw [Exec.bind_of_ok hattempt]
  rfl

structure MmappedRange (c : CBit) (bottom : Nat) (stale : Set Nat) (before : Memory) (start size : Nat)
    (after : Memory) : Prop where
  owns : ∃ own, after.Owns c bottom stale own
  unmapped : ∀ addr : VirtAddr, start ≤ addr.raw → addr.raw < start + size → before.tables.leaf? c addr = none
  mapped : MappedRange c stale after start size
  zero : ∀ addr : VirtAddr, start ≤ addr.raw → addr.raw < start + size → after.byte c addr = some 0
  leaf? : ∀ addr : VirtAddr, ¬(start ≤ addr.raw ∧ addr.raw < start + size) →
    after.tables.leaf? c addr = before.tables.leaf? c addr
  byte : ∀ addr : VirtAddr, ¬(start ≤ addr.raw ∧ addr.raw < start + size) → ¬addr.InWindow → addr.page ∉ stale →
    after.byte c addr = before.byte c addr

theorem Granted.mmappedRange {flags : PageTableFlags} {mapTo : VirtAddr} {npages : Nat}
    (h : Granted c bottom stale flags own before mapTo npages after) (hbefore : before.Owns c bottom stale own)
    (hpresent : flags.present = true) (hhuge : flags.hugePage = false)
    (hlow : mapTo.raw + SIZE_4_KIB * npages ≤ 2 ^ 47) :
    MmappedRange c bottom stale before mapTo.raw (SIZE_4_KIB * npages) after := by
  obtain ⟨own', pages, hserves, -, hpages⟩ := h.served
  rw [← spans_iff h.aligned] at hpages
  obtain rfl := hpages (.inl hlow)
  obtain ⟨k, hk⟩ := h.aligned
  have hmem : ∀ addr : VirtAddr, addr.page ∈ Set.Ico mapTo.page (mapTo.page + npages) ↔
      mapTo.raw ≤ addr.raw ∧ addr.raw < mapTo.raw + SIZE_4_KIB * npages := by
    intro addr
    rw [VirtAddr.page_of_raw hk, hk, Set.mem_Ico]
    unfold VirtAddr.page SIZE_4_KIB
    omega
  have hsmall : ∀ addr : VirtAddr, mapTo.raw ≤ addr.raw → addr.raw < mapTo.raw + SIZE_4_KIB * npages →
      addr.page ∉ stale ∧ ∃ entry n, after.tables.leaf? c addr = some (entry, []) ∧ entry.IsPointer ∧
        after.tables.frame? c addr = some n ∧ after.Zero n 1 := by
    intro addr hlo hhi
    have hpage := (hmem addr).mpr ⟨hlo, hhi⟩
    obtain ⟨entry, n, hleaf, hleads, -, hzero⟩ := hserves.maps.mapped addr hpage
    refine ⟨fun hstale => ?_, entry, n, hleaf, ?_, hleads.frame? hpresent hleaf, hzero⟩
    · have hthere := hbefore.stale addr hstale
      rw [hserves.maps.unmapped addr hpage] at hthere
      cases hthere
    · rw [PageTableEntry.IsPointer, hleads.flags]
      exact ⟨hpresent, hhuge⟩
  have hleaf : ∀ addr : VirtAddr, ¬(mapTo.raw ≤ addr.raw ∧ addr.raw < mapTo.raw + SIZE_4_KIB * npages) →
      after.tables.leaf? c addr = before.tables.leaf? c addr :=
    fun addr haddr => hserves.maps.other addr fun hpage => haddr ((hmem addr).mp hpage)
  refine ⟨⟨own', hserves.owns⟩, ?_, ⟨hlow, fun addr hlo hhi => ?_⟩, fun addr hlo hhi => ?_, hleaf, ?_⟩
  · exact fun addr hlo hhi => hserves.maps.unmapped addr ((hmem addr).mpr ⟨hlo, hhi⟩)
  · obtain ⟨hfresh, entry, n, hentry, hpointer, -⟩ := hsmall addr hlo hhi
    exact ⟨hfresh, entry, hentry, hpointer⟩
  · obtain ⟨-, entry, n, hentry, hpointer, hframe, hzero⟩ := hsmall addr hlo hhi
    obtain ⟨n', virt, hframe', hvirt⟩ := exists_frame? hserves.owns.tidy hentry hpointer
    cases hframe.symm.trans hframe'
    obtain ⟨hwindow, hpage⟩ := memPage_of_shimVirt hvirt
    rw [Memory.byte_of_frame? after hframe hvirt, PageTables.entry, hzero virt hwindow (by omega) (by omega),
      PageTableEntry.word_unused, byteOfWord_zero]
  · intro addr haddr hwindow hfresh
    refine Memory.byte_congr (hleaf addr haddr) fun n virt hframe hvirt => ?_
    obtain ⟨hinWindow, hpage⟩ := memPage_of_shimVirt hvirt
    exact hserves.kept virt hinWindow (.inr ⟨addr.page, by rw [hpage, hbefore.user hwindow hfresh hframe]⟩)

end

end Kvm

end Enarx
