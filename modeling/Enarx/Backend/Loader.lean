import Enarx.Bytes
import Enarx.Control

/-!
# The loader of a keep

`Loader::load` parses the shim and the executable, checks them and passes their
segments to a builder. Header fields are words of the files; sums of them wrap in
a release build, but the ranges that `goblin` makes of them saturate. Parsing, semantic versions, sorting, the kernel and the builder
are parameters.
-/
namespace Enarx.Backend

def PAGE_SIZE : Word := 4096

structure Range where
  start : Word
  stop : Word
  deriving DecidableEq, Repr

structure ProgramHeader where
  pType : BitVec 32
  pFlags : BitVec 32
  pOffset : Word
  pVaddr : Word
  pFilesz : Word
  pMemsz : Word
  deriving DecidableEq, Repr

def saturatingAdd (a b : Word) : Word := BitVec.ofNat 64 (min (a.toNat + b.toNat) (2 ^ 64 - 1))

theorem toNat_saturatingAdd (a b : Word) : (saturatingAdd a b).toNat = min (a.toNat + b.toNat) (2 ^ 64 - 1) := by
  rw [saturatingAdd, BitVec.toNat_ofNat]
  exact Nat.mod_eq_of_lt (by omega)

def ProgramHeader.vmRange (phdr : ProgramHeader) : Range :=
  ⟨phdr.pVaddr, saturatingAdd phdr.pVaddr phdr.pMemsz⟩

def ProgramHeader.fileRange (phdr : ProgramHeader) : Range :=
  ⟨phdr.pOffset, saturatingAdd phdr.pOffset phdr.pFilesz⟩

def PT_LOAD : BitVec 32 := 1

def PT_INTERP : BitVec 32 := 3

def PT_LOOS : BitVec 32 := 0x60000000

/-- The slot for the executable, `elf::pt::EXEC`. -/
def EXEC : BitVec 32 := PT_LOOS + 0x3400000

def ELFCLASS64 : Byte := 2

def ELFDATA2LSB : Byte := 1

def EV_CURRENT : Byte := 1

def EM_X86_64 : BitVec 16 := 62

structure Header where
  eiClass : Byte
  eiData : Byte
  eiVersion : Byte
  eMachine : BitVec 16
  eVersion : BitVec 32
  eEntry : Word
  deriving DecidableEq, Repr

structure Note where
  nType : BitVec 32
  name : String
  desc : List Byte
  deriving DecidableEq, Repr

/-- What the parser finds; the notes are those that it can read. -/
structure Elf where
  header : Header
  programHeaders : List ProgramHeader
  notes : List Note
  deriving DecidableEq, Repr

structure Segment where
  bytes : List Byte
  range : Range
  skipb : Nat
  flags : BitVec 32
  deriving DecidableEq, Repr

/-- What the loader uses of other crates and of the kernel. -/
structure LoaderEnv where
  parse : List Byte → Except String Elf
  /-- A slice has at most `isize::MAX` bytes. -/
  parse_length : ∀ bytes elf, parse bytes = .ok elf → bytes.length < 2 ^ 63
  /-- The text is a requirement that the version of sallyport meets. -/
  satisfied : List Byte → Bool
  sortUnstableByStart : List Segment → List Segment
  sort_perm : ∀ segments, (sortUnstableByStart segments).Perm segments
  sort_sorted : ∀ segments,
    (sortUnstableByStart segments).Pairwise fun left right => left.range.start ≤ right.range.start
  mmap : Word → Except String Unit
  mmap_zero : mmap 0 ≠ .ok ()

structure Binary where
  bytes : List Byte
  elf : Elf
  deriving DecidableEq, Repr

structure Mapper (κ φ τ ρ : Type) where
  new : Binary → Binary → Except String κ
  flags : BitVec 32 → φ
  tryFrom : κ → Except String τ
  map : τ → List Byte → Word → φ → Except String τ
  tryInto : τ → Except String ρ

/-- The first element that no other is better than, `Iterator::min` and `Iterator::max`. -/
def best (better : Word → Word → Bool) : List Word → Option Word
  | [] => none
  | word :: rest =>
    match best better rest with
    | none => some word
    | some other => some (if better other word then other else word)

namespace Binary

def new (env : LoaderEnv) (bytes : List Byte) : Except String Binary := do
  let elf ← env.parse bytes
  if elf.header.eiClass ≠ ELFCLASS64 then
    throw "unsupported ELF header: e_ident[EI_CLASS]"
  if elf.header.eiData ≠ ELFDATA2LSB then
    throw "unsupported ELF header: e_ident[EI_DATA]"
  if elf.header.eiVersion ≠ EV_CURRENT then
    throw "unsupported ELF header: e_ident[EI_VERSION]"
  if elf.header.eMachine ≠ EM_X86_64 then
    throw "unsupported ELF header: e_machine"
  if elf.header.eVersion ≠ EV_CURRENT.setWidth 32 then
    throw "unsupported ELF header: e_version"
  if elf.programHeaders.any (·.pType = PT_INTERP) then
    throw "unsupported ELF header: p_type == PT_INTERP"
  if !elf.programHeaders.any (fun phdr => phdr.pType = PT_LOAD ∧ phdr.pVaddr ≤ elf.header.eEntry ∧
      elf.header.eEntry < phdr.pVaddr + phdr.pMemsz) then
    throw "unsupported ELF header: e_entry"
  return ⟨bytes, elf⟩

variable (binary : Binary)

def headers (kind : BitVec 32) : List ProgramHeader :=
  binary.elf.programHeaders.filter (·.pType = kind)

def range : Range where
  start := (best (· < ·) ((binary.headers PT_LOAD).map (·.vmRange.start))).getD 0
  stop := (best (· > ·) ((binary.headers PT_LOAD).map (·.vmRange.stop))).getD 0

def notes (name : String) (kind : BitVec 32) : List (List Byte) :=
  ((binary.elf.notes.filter (·.nType = kind)).filter (·.name = name)).map (·.desc)

end Binary

inductive Stop where
  | error (message : String)
  | panic
  deriving DecidableEq, Repr

structure Passed where
  segment : Segment
  pages : List Byte
  deriving DecidableEq, Repr

/-- The state is the segments that have been passed to the builder. -/
abbrev Load := Exec Stop (List Passed)

def orErr : Except String α → Load α
  | .ok value => pure value
  | .error message => throw (.error message)

def orPanic : Option α → Load α
  | some value => pure value
  | none => throw .panic

def slice (bytes : List Byte) (range : Range) : Option (List Byte) :=
  if range.start ≤ range.stop ∧ range.stop.toNat ≤ bytes.length then
    some ((bytes.drop range.start.toNat).take (range.stop.toNat - range.start.toNat))
  else none

def ProgramHeader.pageRange (phdr : ProgramHeader) (relocate : Word) : Range where
  start := (phdr.vmRange.start + relocate) / PAGE_SIZE * PAGE_SIZE
  stop := (phdr.vmRange.stop + relocate + PAGE_SIZE - 1) / PAGE_SIZE * PAGE_SIZE

def ProgramHeader.segment (phdr : ProgramHeader) (relocate : Word) (bytes : List Byte) : Segment where
  bytes := bytes
  skipb := (phdr.pVaddr % PAGE_SIZE).toNat
  flags := phdr.pFlags
  range := phdr.pageRange relocate

def Binary.segments (binary : Binary) (relocate : Word) : Option (List Segment) :=
  if relocate % PAGE_SIZE = 0 then
    (binary.headers PT_LOAD).mapM fun phdr =>
      (slice binary.bytes phdr.fileRange).map (phdr.segment relocate)
  else none

def overlap : List Segment → Bool
  | first :: second :: rest =>
    first.range.stop > second.range.start || overlap (second :: rest)
  | _ => false

def copyAt (skip : Nat) (bytes pages : List Byte) : Option (List Byte) :=
  if skip ≤ pages.length ∧ bytes.length ≤ pages.length - skip then
    some (pages.take skip ++ bytes ++ pages.drop (skip + bytes.length))
  else none

def NAME : String := "sallyport"

def REQUIRES : BitVec 32 := 0

structure Prepared (τ : Type) where
  sbin : Binary
  ebin : Binary
  slot : Range
  loader : τ

variable {κ φ τ ρ : Type} (env : LoaderEnv) (mapper : Mapper κ φ τ ρ)

def prepare (shim exec : List Byte) : Except String (Prepared τ) := do
  let sbin ← Binary.new env shim
  let ebin ← Binary.new env exec
  let some phdr := (sbin.headers EXEC).head?
    | throw "Shim is missing the executable slot!"
  let slot := phdr.vmRange
  let range := ebin.range
  if range.start ≠ 0 ∨ range.stop > slot.stop - slot.start then
    throw "The executable doesn't fit in the slot!"
  if !(sbin.notes NAME REQUIRES).any env.satisfied then
    throw "Unable to satisfy sallyport version requirement!"
  let config ← mapper.new sbin ebin
  let loader ← mapper.tryFrom config
  return ⟨sbin, ebin, slot, loader⟩

def Segment.size (segment : Segment) : Word := segment.range.stop - segment.range.start

def loadSegments : τ → List Segment → Load τ
  | loader, [] => pure loader
  | loader, segment :: rest => do
    orErr (env.mmap segment.size)
    let pages ← orPanic (copyAt segment.skipb segment.bytes (List.replicate segment.size.toNat 0))
    modify (· ++ [⟨segment, pages⟩])
    let loader ← orErr (mapper.map loader pages segment.range.start (mapper.flags segment.flags))
    loadSegments loader rest

def load (shim exec : List Byte) : Load ρ := do
  let ready ← orErr (prepare env mapper shim exec)
  let ssegs ← orPanic (ready.sbin.segments 0)
  let esegs ← orPanic (ready.ebin.segments ready.slot.start)
  if overlap (env.sortUnstableByStart (ssegs ++ esegs)) then
    throw (.error "Segments overlap!")
  let loader ← loadSegments env mapper ready.loader (ssegs ++ esegs)
  orErr (mapper.tryInto loader)

end Enarx.Backend
