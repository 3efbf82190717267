import Enarx.Backend.Loader
import Mathlib.Data.List.Sort
import Mathlib.Tactic.Common

/-!
# Malformed files

Which header fields make the loader panic, and which make it pass a segment that
ends before it starts.
-/
namespace Enarx.Backend

def ProgramHeader.InFile (phdr : ProgramHeader) (bytes : List Byte) : Prop :=
  phdr.pOffset.toNat + phdr.pFilesz.toNat ≤ bytes.length

instance (phdr : ProgramHeader) (bytes : List Byte) : Decidable (phdr.InFile bytes) := by
  unfold ProgramHeader.InFile; infer_instance

def ProgramHeader.contents (phdr : ProgramHeader) (bytes : List Byte) : List Byte :=
  (bytes.drop phdr.pOffset.toNat).take phdr.pFilesz.toNat

variable {bytes : List Byte} {binary : Binary}

theorem slice_fileRange (phdr : ProgramHeader) (hlength : bytes.length < 2 ^ 63) :
    slice bytes phdr.fileRange = if phdr.InFile bytes then some (phdr.contents bytes) else none := by
  have hstop := toNat_saturatingAdd phdr.pOffset phdr.pFilesz
  have hoffset := phdr.pOffset.isLt
  simp only [slice, ProgramHeader.fileRange, BitVec.le_def, hstop]
  by_cases hin : phdr.InFile bytes
  · have hle : phdr.pOffset.toNat + phdr.pFilesz.toNat ≤ bytes.length := hin
    rw [if_pos hin, if_pos (by omega), Nat.min_eq_left (by omega), Nat.add_sub_cancel_left]
    rfl
  · have hgt : ¬phdr.pOffset.toNat + phdr.pFilesz.toNat ≤ bytes.length := hin
    rw [if_neg hin, if_neg (by omega)]

/-- A header of a file, and where its memory is moved to. -/
structure Placement where
  phdr : ProgramHeader
  relocate : Word
  file : List Byte

def Placement.segment (placement : Placement) : Segment :=
  placement.phdr.segment placement.relocate (placement.phdr.contents placement.file)

def Binary.placements (binary : Binary) (relocate : Word) : List Placement :=
  (binary.headers PT_LOAD).map (⟨·, relocate, binary.bytes⟩)

def Binary.layout (binary : Binary) (relocate : Word) : List Segment :=
  (binary.placements relocate).map Placement.segment

def Binary.Complete (binary : Binary) : Prop :=
  ∀ phdr ∈ binary.headers PT_LOAD, phdr.InFile binary.bytes

theorem ProgramHeader.InFile.length_contents {phdr : ProgramHeader} (h : phdr.InFile bytes) :
    (phdr.contents bytes).length = phdr.pFilesz.toNat := by
  rw [contents, List.length_take, List.length_drop]
  unfold InFile at h
  omega

theorem List.mapM_option_eq_some_iff {f : α → Option β} {g : α → β} {p : α → Prop} {l : List α}
    (hf : ∀ a result, f a = some result ↔ p a ∧ result = g a) (results : List β) :
    l.mapM f = some results ↔ (∀ a ∈ l, p a) ∧ results = l.map g := by
  induction l generalizing results with
  | nil => simp [eq_comm]
  | cons a l ih =>
    simp only [List.mapM_cons, Option.bind_eq_bind, Option.bind_eq_some_iff, hf, ih, Option.pure_def,
      Option.some.injEq, List.forall_mem_cons, List.map_cons]
    constructor
    · rintro ⟨_, ⟨ha, rfl⟩, _, ⟨hl, rfl⟩, rfl⟩
      exact ⟨⟨ha, hl⟩, rfl⟩
    · rintro ⟨⟨ha, hl⟩, rfl⟩
      exact ⟨_, ⟨ha, rfl⟩, _, ⟨hl, rfl⟩, rfl⟩

theorem Binary.segments_eq_some_iff (hlength : binary.bytes.length < 2 ^ 63) (relocate : Word)
    (segments : List Segment) : binary.segments relocate = some segments ↔
      (relocate % PAGE_SIZE = 0 ∧ binary.Complete) ∧ segments = binary.layout relocate := by
  unfold Binary.segments
  split
  · next haligned =>
    rw [List.mapM_option_eq_some_iff (p := fun phdr => phdr.InFile binary.bytes)
      (g := fun phdr => phdr.segment relocate (phdr.contents binary.bytes))]
    · simp [haligned, Binary.Complete, Binary.layout, Binary.placements, Placement.segment, Function.comp_def]
    · intro phdr result
      rw [slice_fileRange phdr hlength]
      split
      · next h => simp [h, eq_comm]
      · next h => simp [h]
  · next haligned => simp only [haligned, false_and, reduceCtorEq]

namespace Segment

variable (segment : Segment)

def Fits : Prop := segment.skipb + segment.bytes.length ≤ segment.size.toNat

instance : Decidable segment.Fits := by unfold Fits; infer_instance

def Forward : Prop := segment.range.start ≤ segment.range.stop

instance : Decidable segment.Forward := by unfold Forward; infer_instance

/-- The pages of a segment that fits: the bytes, and zeros around them. -/
def image : List Byte :=
  List.replicate segment.skipb 0 ++ segment.bytes ++
    List.replicate (segment.size.toNat - (segment.skipb + segment.bytes.length)) 0

theorem copyAt_eq : copyAt segment.skipb segment.bytes (List.replicate segment.size.toNat 0) =
    if segment.Fits then some segment.image else none := by
  simp only [copyAt, List.length_replicate, List.take_replicate, List.drop_replicate]
  by_cases h : segment.Fits
  · have h' : segment.skipb + segment.bytes.length ≤ segment.size.toNat := h
    rw [if_pos h, if_pos (by omega), Nat.min_eq_left (by omega)]
    rfl
  · have h' : ¬ segment.skipb + segment.bytes.length ≤ segment.size.toNat := h
    rw [if_neg h, if_neg (by omega)]

end Segment

section

variable {phdr : ProgramHeader} {relocate : Word}

def ProgramHeader.stopAt (phdr : ProgramHeader) (relocate : Word) : Nat :=
  min (phdr.pVaddr.toNat + phdr.pMemsz.toNat) (2 ^ 64 - 1) + relocate.toNat

def ProgramHeader.mapped (phdr : ProgramHeader) (relocate : Word) : Nat :=
  (phdr.stopAt relocate + 4095) / 4096 * 4096 - (phdr.pVaddr.toNat + relocate.toNat) / 4096 * 4096

/-- The end of the last page is an address, and the bytes from the file end before it. -/
structure ProgramHeader.Sound (phdr : ProgramHeader) (relocate : Word) : Prop where
  noWrap : phdr.stopAt relocate + 4095 < 2 ^ 64
  room : phdr.pVaddr.toNat % 4096 + phdr.pFilesz.toNat ≤ phdr.mapped relocate

theorem toNat_roundDown (a : Word) : (a / PAGE_SIZE * PAGE_SIZE).toNat = a.toNat / 4096 * 4096 := by
  have ha := a.isLt
  have hpage : PAGE_SIZE.toNat = 4096 := rfl
  rw [BitVec.toNat_mul, BitVec.toNat_udiv, hpage]
  exact Nat.mod_eq_of_lt (by omega)

theorem ProgramHeader.pageRange_start (h : phdr.stopAt relocate < 2 ^ 64) : (phdr.pageRange relocate).start.toNat =
    (phdr.pVaddr.toNat + relocate.toNat) / 4096 * 4096 := by
  have hvaddr := phdr.pVaddr.isLt
  unfold stopAt at h
  simp only [pageRange, vmRange, toNat_roundDown]
  rw [BitVec.toNat_add, Nat.mod_eq_of_lt (by omega)]

/-- Beyond the last page of the address space the end wraps to zero. -/
theorem ProgramHeader.pageRange_stop (h : phdr.stopAt relocate < 2 ^ 64) : (phdr.pageRange relocate).stop.toNat =
    if phdr.stopAt relocate + 4095 < 2 ^ 64 then (phdr.stopAt relocate + 4095) / 4096 * 4096 else 0 := by
  have hsum : (saturatingAdd phdr.pVaddr phdr.pMemsz + relocate + PAGE_SIZE - 1).toNat =
      (phdr.stopAt relocate + 4095) % 2 ^ 64 := by
    have hstop := toNat_saturatingAdd phdr.pVaddr phdr.pMemsz
    have hpage : ∀ word : Word, word + PAGE_SIZE - 1 = word + 4095#64 := by
      intro word
      unfold PAGE_SIZE
      bv_omega
    rw [hpage, BitVec.toNat_add, BitVec.toNat_add, hstop, Nat.mod_add_mod]
    rfl
  simp only [pageRange, vmRange, toNat_roundDown, hsum]
  split_ifs with hwraps
  · rw [Nat.mod_eq_of_lt hwraps]
  · omega

theorem Placement.size_eq {placement : Placement} (h : placement.phdr.stopAt placement.relocate < 2 ^ 64) :
    placement.segment.size = BitVec.ofNat 64 (placement.phdr.mapped placement.relocate) := by
  have hstart := ProgramHeader.pageRange_start h
  have hstop := ProgramHeader.pageRange_stop h
  apply BitVec.eq_of_toNat_eq
  simp only [Segment.size, segment, ProgramHeader.segment]
  rw [BitVec.toNat_sub, BitVec.toNat_ofNat, hstart, hstop, ProgramHeader.mapped]
  unfold ProgramHeader.stopAt at *
  split_ifs <;> omega

end

theorem le_best {words : List Word} {word : Word} (h : word ∈ words) :
    ∃ most, best (· > ·) words = some most ∧ word ≤ most := by
  induction words generalizing word with
  | nil => cases h
  | cons first rest ih =>
    cases hrest : best (· > ·) rest with
    | none =>
      rcases List.mem_cons.mp h with rfl | hmem
      · exact ⟨word, by rw [best, hrest], BitVec.le_refl word⟩
      · obtain ⟨most, hmost, -⟩ := ih hmem
        rw [hmost] at hrest
        cases hrest
    | some other =>
      refine ⟨_, by rw [best, hrest], ?_⟩
      simp only [gt_iff_lt, decide_eq_true_eq]
      rcases List.mem_cons.mp h with rfl | hmem
      · split
        · next hlt => exact BitVec.le_of_lt hlt
        · exact BitVec.le_refl word
      · obtain ⟨most, hmost, hle⟩ := ih hmem
        rw [hrest] at hmost
        cases hmost
        split
        · exact hle
        · next hlt => exact BitVec.le_trans hle (BitVec.not_lt.mp hlt)

theorem Binary.vmRange_stop_le {phdr : ProgramHeader}
    (h : phdr ∈ binary.headers PT_LOAD) : phdr.vmRange.stop ≤ binary.range.stop := by
  obtain ⟨most, hmost, hle⟩ := le_best (List.mem_map_of_mem (f := (·.vmRange.stop)) h)
  simp only [Binary.range, hmost]
  exact hle

/-- What `Binary::new` asks of a file that has been parsed. -/
structure Elf.Supported (elf : Elf) : Prop where
  eiClass : elf.header.eiClass = ELFCLASS64
  eiData : elf.header.eiData = ELFDATA2LSB
  eiVersion : elf.header.eiVersion = EV_CURRENT
  eMachine : elf.header.eMachine = EM_X86_64
  eVersion : elf.header.eVersion = EV_CURRENT.setWidth 32
  noInterp : ∀ phdr ∈ elf.programHeaders, phdr.pType ≠ PT_INTERP
  eEntry : ∃ phdr ∈ elf.programHeaders, phdr.pType = PT_LOAD ∧ phdr.pVaddr ≤ elf.header.eEntry ∧
    elf.header.eEntry < phdr.pVaddr + phdr.pMemsz

structure Binary.Accepted (env : LoaderEnv) (bytes : List Byte) (binary : Binary) : Prop where
  bytes_eq : binary.bytes = bytes
  parsed : env.parse bytes = .ok binary.elf
  supported : binary.elf.Supported

theorem Except.ite_throw_eq_ok {c : Prop} [Decidable c] {e : ε} {next : β → Except ε α} {run : Except ε α}
    {value : α} : (if c then throw e >>= next else run) = .ok value ↔ ¬c ∧ run = .ok value := by
  by_cases h : c
  · rw [if_pos h]
    exact iff_of_false (fun hok => by cases hok) fun hok => hok.1 h
  · rw [if_neg h, and_iff_right h]

theorem Binary.new_eq_ok_iff {env : LoaderEnv} :
    Binary.new env bytes = .ok binary ↔ binary.Accepted env bytes := by
  simp only [Binary.new, Except.bind_eq_ok, Except.ite_throw_eq_ok, ne_eq, not_not]
  constructor
  · rintro ⟨elf, hparsed, hclass, hdata, hversion, hmachine, heversion, hinterp, hentry, hok⟩
    cases hok
    exact ⟨rfl, hparsed, hclass, hdata, hversion, hmachine, heversion, by simpa using hinterp,
      by simpa using hentry⟩
  · rintro ⟨rfl, hparsed, hclass, hdata, hversion, hmachine, heversion, hinterp, hentry⟩
    exact ⟨_, hparsed, hclass, hdata, hversion, hmachine, heversion, by simpa using hinterp,
      by simpa using hentry, rfl⟩

/-- What the two files have to meet before their segments are looked at. -/
structure Checked (env : LoaderEnv) (shim exec : List Byte) (sbin ebin : Binary) (slot : ProgramHeader) : Prop where
  shim : sbin.Accepted env shim
  exec : ebin.Accepted env exec
  head : (sbin.headers EXEC).head? = some slot
  start : ebin.range.start = 0
  stop : ebin.range.stop ≤ slot.vmRange.stop - slot.vmRange.start
  requires : (sbin.notes NAME REQUIRES).any env.satisfied = true

section

variable {κ φ τ ρ : Type} {env : LoaderEnv} {mapper : Mapper κ φ τ ρ} {shim exec : List Byte}

theorem prepare_eq_ok_iff {ready : Prepared τ} : prepare env mapper shim exec = .ok ready ↔
    ∃ slot config, Checked env shim exec ready.sbin ready.ebin slot ∧ ready.slot = slot.vmRange ∧
      mapper.new ready.sbin ready.ebin = .ok config ∧ mapper.tryFrom config = .ok ready.loader := by
  simp only [prepare, Except.bind_eq_ok, Binary.new_eq_ok_iff]
  constructor
  · rintro ⟨sbin, hshim, ebin, hexec, hslot⟩
    cases hphdr : (sbin.headers EXEC).head? with
    | none =>
      rw [hphdr] at hslot
      cases hslot
    | some slot =>
      rw [hphdr] at hslot
      simp only [Except.ite_throw_eq_ok, Except.bind_eq_ok, ne_eq, not_or, not_not, gt_iff_lt, BitVec.not_lt] at hslot
      obtain ⟨⟨hstart, hstop⟩, hrequires, config, hconfig, loader, hloader, hready⟩ := hslot
      cases hready
      exact ⟨slot, config, ⟨hshim, hexec, hphdr, hstart, hstop, by simpa using hrequires⟩, rfl, hconfig, hloader⟩
  · rintro ⟨slot, config, hchecked, hslot, hconfig, hloader⟩
    refine ⟨_, hchecked.shim, _, hchecked.exec, ?_⟩
    rw [hchecked.head]
    simp only [Except.ite_throw_eq_ok, Except.bind_eq_ok, ne_eq, not_or, not_not, gt_iff_lt, BitVec.not_lt]
    refine ⟨⟨hchecked.start, hchecked.stop⟩, by simpa using hchecked.requires, _, hconfig, _, hloader, ?_⟩
    rw [← hslot]
    rfl

end

/-- The run does not panic, and no segment that ends before it starts has been passed. -/
def Safe (run : Load α) (passed : List Passed) : Prop :=
  (run passed).1 ≠ .error .panic ∧ ∀ entry ∈ (run passed).2, entry.segment.Forward

namespace Safe

variable {passed : List Passed}

end Safe

section

variable {κ φ τ ρ : Type} {env : LoaderEnv} {mapper : Mapper κ φ τ ρ}

def takingMapper : Mapper Unit (BitVec 32) Unit Unit where
  new _ _ := .ok ()
  flags := id
  tryFrom := .ok
  map _ _ _ _ := .ok ()
  tryInto := .ok

theorem Binary.Accepted.length_lt {bytes : List Byte} {binary : Binary} (h : binary.Accepted env bytes) :
    binary.bytes.length < 2 ^ 63 := h.bytes_eq ▸ env.parse_length bytes _ h.parsed

end

def StartsBefore (left right : Segment) : Prop := left.range.start ≤ right.range.start

instance : DecidableRel StartsBefore := fun left right => by unfold StartsBefore; infer_instance

instance : Std.Total StartsBefore where
  total left right := BitVec.le_total left.range.start right.range.start

instance : IsTrans Segment StartsBefore where
  trans _ _ _ hleft hright := BitVec.le_trans hleft hright

def sampleEnv (shim exec : Elf) : LoaderEnv where
  parse bytes :=
    if bytes.length < 2 ^ 63 then .ok (if bytes.head? = some 0 then shim else exec) else .error "Too large"
  parse_length bytes elf h := by
    by_contra hlarge
    rw [if_neg hlarge] at h
    cases h
  satisfied _ := true
  sortUnstableByStart := List.insertionSort StartsBefore
  sort_perm := List.perm_insertionSort StartsBefore
  sort_sorted := List.pairwise_insertionSort StartsBefore
  mmap size :=
    if size = 0 then .error "Invalid argument"
    else if size ≤ 0x100000 then .ok () else .error "Cannot allocate memory"
  mmap_zero := by decide

def sampleHeader : Header := ⟨ELFCLASS64, ELFDATA2LSB, EV_CURRENT, EM_X86_64, 1, 0⟩

def sampleShim (slot : Word) : Elf where
  header := { sampleHeader with eEntry := 0x100000 }
  programHeaders := [⟨PT_LOAD, 5, 0, 0x100000, 1, 0x1000⟩, ⟨EXEC, 0, 0, slot, 0, 0x10000⟩]
  notes := [⟨REQUIRES, NAME, []⟩]

def sampleExec (phdr : ProgramHeader) : Elf where
  header := sampleHeader
  programHeaders := [⟨PT_LOAD, 5, 0, 0, 1, 0x1000⟩, phdr]
  notes := []

def loadSample (slot : Word) (phdr : ProgramHeader) : Except Stop Unit × List Passed :=
  load (sampleEnv (sampleShim slot) (sampleExec phdr)) takingMapper [0] [1, 2] []

end Enarx.Backend
