import Enarx.Control
import Enarx.Sallyport.Libc

/-!
# Items and the block parser

The host sees the untrusted block as a slice of machine words. `Block.split`
decodes one item, `BlockIterator.next` skips items of unknown kind, and
`Block.items` drains the iterator. A release build is modelled: debug
assertions are absent and a failed slice bound is a panic.
-/
namespace Enarx.Sallyport

inductive ItemKind where
  | syscall | gdbcall | enarxcall
  deriving DecidableEq, Repr

namespace ItemKind

def argc : ItemKind → Nat
  | .syscall => 6
  | .gdbcall => 4
  | .enarxcall => 4

def rets : ItemKind → Nat
  | .syscall => 2
  | .gdbcall => 1
  | .enarxcall => 1

def usizeCount (kind : ItemKind) : Nat := 1 + kind.argc + kind.rets

end ItemKind

inductive Kind where
  | done
  | item (kind : ItemKind)
  deriving DecidableEq, Repr

namespace Kind

def toWord : Kind → Word
  | .done => 0
  | .item .syscall => 1
  | .item .gdbcall => 2
  | .item .enarxcall => 3

/-- `Kind::try_from`; `none` stands for `Err(EINVAL)`. -/
def tryFrom (word : Word) : Option Kind :=
  [Kind.done, .item .syscall, .item .gdbcall, .item .enarxcall].find? fun kind =>
    kind.toWord == word

@[simp] theorem tryFrom_toWord (kind : Kind) : tryFrom kind.toWord = some kind := by
  cases kind with
  | done => decide
  | item kind => cases kind <;> decide

end Kind

/-- `item::Payload`: number, arguments and return words. -/
structure Payload where
  num : Word
  argv : List Word
  ret : List Word
  deriving DecidableEq, Repr

def Payload.ofWords (kind : ItemKind) (words : List Word) : Payload where
  num := words.headD 0
  argv := (words.drop 1).take kind.argc
  ret := (words.drop (1 + kind.argc)).take kind.rets

/-- `Item`. The references into the block are kept as the word index of the
payload; the data follows the payload. -/
structure Item where
  kind : ItemKind
  pos : Nat
  payload : Payload
  data : List Byte
  deriving DecidableEq, Repr

def Item.finish (item : Item) : Nat := item.pos + item.kind.usizeCount + item.data.length / 8

/-- `Block`: the part of the slice from word `pos` on. -/
structure Block where
  pos : Nat
  words : List Word
  deriving DecidableEq, Repr

/-- What stops the host: a slice index out of range, or a loop that does not end. -/
inductive Fault where
  | splitAt | fuel
  deriving DecidableEq, Repr

/-- `slice::split_at_mut`, which panics when `mid` is out of range. -/
def splitAtMut (words : List Word) (mid : Nat) : Except Fault (List Word × List Word) :=
  if mid ≤ words.length then .ok (words.take mid, words.drop mid) else .error .splitAt

/-- `decode_item`, for a header at word `pos - 2` with the given size. -/
def decodeItem (kind : ItemKind) (size pos : Nat) (tail : List Word) :
    Except Fault (Option (Item × Block)) := do
  let (payload, tail) ← splitAtMut tail (size / 8)
  -- `size.checked_sub(size_of::<T>())?`
  if size < 8 * kind.usizeCount then
    return none
  let dataSize := size - 8 * kind.usizeCount
  let (itemPayload, data) ← splitAtMut payload kind.usizeCount
  let data := wordsBytes data
  if data.length ≠ dataSize then
    return none
  return some (⟨kind, pos, .ofWords kind itemPayload, data⟩, ⟨pos + size / 8, tail⟩)

namespace Block

def split (block : Block) : Except Fault (Option (Option Item × Block)) :=
  match block.words with
  | size :: kind :: tail =>
    if size.toNat % 8 ≠ 0 then
      .ok none
    else
      match Kind.tryFrom kind with
      | some .done => .ok none
      | some (.item kind) => do
        let decoded ← decodeItem kind size.toNat (block.pos + 2) tail
        return decoded.map fun (item, tail) => (some item, tail)
      | none => do
        let (_, tail) ← splitAtMut tail (size.toNat / 8)
        return some (none, ⟨block.pos + 2 + size.toNat / 8, tail⟩)
  | _ => .ok none

end Block

abbrev BlockIterator := Option Block

namespace BlockIterator

def nextLoop : Nat → Block → Except Fault (Option (Item × Block))
  | 0, _ => .error .fuel
  | fuel + 1, block => do
    match ← block.split with
    | some (some item, tail) => return some (item, tail)
    | some (none, tail) => nextLoop fuel tail
    | none => return none

def next (fuel : Nat) : BlockIterator → Except Fault (Option Item × BlockIterator)
  | some block => do
    match ← nextLoop fuel block with
    | some (item, tail) => return (some item, some tail)
    | none => return (none, none)
  | none => .ok (none, none)

def drain : Nat → BlockIterator → Except Fault (List Item)
  | 0, _ => .error .fuel
  | fuel + 1, iterator => do
    match ← next (fuel + 1) iterator with
    | (some item, iterator) => return item :: (← drain fuel iterator)
    | (none, _) => return []

end BlockIterator

def Block.items (words : List Word) : Except Fault (List Item) :=
  BlockIterator.drain (words.length + 1) (some ⟨0, words⟩)

/-- A header the parser acts on: its size is a multiple of a word and it is not
the end marker. The kind is `none` when it is unknown. -/
structure Header where
  size : Nat
  kind : Option ItemKind
  deriving DecidableEq, Repr

namespace Header

def finish (header : Header) (pos : Nat) : Nat := pos + 2 + header.size / 8

def Covers (header : Header) : Prop :=
  ∀ kind ∈ header.kind, 8 * kind.usizeCount ≤ header.size

instance (header : Header) : Decidable header.Covers := by
  unfold Covers; infer_instance

def itemAt (header : Header) (words : List Word) (pos : Nat) : Option Item :=
  header.kind.map fun kind =>
    { kind, pos := pos + 2
      payload := .ofWords kind ((words.drop (pos + 2)).take kind.usizeCount)
      data := wordsBytes
        (((words.drop (pos + 2)).take (header.size / 8)).drop kind.usizeCount) }

end Header

def headerAt (words : List Word) (pos : Nat) : Option Header :=
  match words.drop pos with
  | size :: kind :: _ =>
    if size.toNat % 8 ≠ 0 then
      none
    else
      match Kind.tryFrom kind with
      | some .done => none
      | some (.item kind) => some ⟨size.toNat, some kind⟩
      | none => some ⟨size.toNat, none⟩
  | _ => none

/-- The headers the parser gets to, one after the other. -/
inductive Reaches (words : List Word) : Nat → Nat → Prop where
  | refl (pos : Nat) : Reaches words pos pos
  | step {pos last : Nat} {header : Header} (found : headerAt words pos = some header)
      (fits : header.finish pos ≤ words.length) (covers : header.Covers)
      (rest : Reaches words (header.finish pos) last) : Reaches words pos last

def Block.from (words : List Word) (pos : Nat) : Block := ⟨pos, words.drop pos⟩

theorem decodeItem_eq {kind : ItemKind} {size pos : Nat} {tail : List Word} (hsize : size % 8 = 0) :
    decodeItem kind size pos tail = if tail.length < size / 8 then .error .splitAt
      else if size < 8 * kind.usizeCount then .ok none else .ok (some
        (⟨kind, pos, .ofWords kind (tail.take kind.usizeCount),
          wordsBytes ((tail.take (size / 8)).drop kind.usizeCount)⟩,
        ⟨pos + size / 8, tail.drop (size / 8)⟩)) := by
  unfold decodeItem splitAtMut
  by_cases hfit : size / 8 ≤ tail.length
  · rw [if_pos hfit, if_neg (by omega)]
    by_cases hcover : size < 8 * kind.usizeCount
    · simp only [Except.ok_bind, hcover, if_true]
      rfl
    · have hcount : kind.usizeCount ≤ (tail.take (size / 8)).length := by
        rw [List.length_take]; omega
      have hdata : (wordsBytes ((tail.take (size / 8)).drop kind.usizeCount)).length =
          size - 8 * kind.usizeCount := by
        rw [length_wordsBytes, List.length_drop, List.length_take]; omega
      have htake : (tail.take (size / 8)).take kind.usizeCount = tail.take kind.usizeCount := by
        rw [List.take_take, Nat.min_eq_left (by omega)]
      simp only [Except.ok_bind, hcover, if_false, hcount, if_true, hdata, ne_eq,
        not_true_eq_false, htake]
      rfl
  · rw [if_neg hfit, if_pos (by omega)]
    rfl

theorem split_from (words : List Word) (pos : Nat) :
    (Block.from words pos).split =
      match headerAt words pos with
      | none => .ok none
      | some header =>
        if words.length < header.finish pos then .error .splitAt
        else if header.Covers then
          .ok (some (header.itemAt words pos, Block.from words (header.finish pos)))
        else .ok none := by
  unfold Block.split headerAt Block.from
  rcases hdrop : words.drop pos with _ | ⟨size, _ | ⟨kind, tail⟩⟩
  · rfl
  · rfl
  have hlen : tail.length + (pos + 2) = words.length := by
    have := congrArg List.length hdrop
    simp only [List.length_drop, List.length_cons] at this
    omega
  have htail : tail = words.drop (pos + 2) := by
    rw [← List.drop_drop, hdrop]
    rfl
  subst htail
  by_cases hsize : size.toNat % 8 ≠ 0
  · simp [hsize]
  simp only [hsize, if_false]
  rcases hkind : Kind.tryFrom kind with _ | _ | kind
  · by_cases hfit : size.toNat / 8 ≤ (words.drop (pos + 2)).length
    · have hover : ¬ words.length < Header.finish ⟨size.toNat, none⟩ pos := by
        simp only [Header.finish]; omega
      simp only [splitAtMut, hfit, if_true, Except.ok_bind, hover, if_false, Header.Covers,
        Option.mem_def, reduceCtorEq, false_implies, implies_true, List.drop_drop]
      rfl
    · have hover : words.length < Header.finish ⟨size.toNat, none⟩ pos := by
        simp only [Header.finish]; omega
      simp only [splitAtMut, hfit, if_false, Except.error_bind, hover, if_true]
  · rfl
  · have hover : words.length < Header.finish ⟨size.toNat, some kind⟩ pos ↔
        (words.drop (pos + 2)).length < size.toNat / 8 := by
      simp only [Header.finish]; omega
    simp only [decodeItem_eq (not_not.mp hsize), hover, Header.Covers, Option.mem_def,
      Option.some.injEq, forall_eq']
    by_cases hfit : (words.drop (pos + 2)).length < size.toNat / 8
    · simp only [hfit, if_true, Except.error_bind]
    · by_cases hcover : size.toNat < 8 * kind.usizeCount
      · simp only [hfit, if_false, hcover, if_true, Except.ok_bind, if_neg (Nat.not_le.mpr hcover)]
        rfl
      · simp only [hfit, if_false, hcover, Except.ok_bind, if_pos (Nat.not_lt.mp hcover),
          List.drop_drop]
        rfl

end Enarx.Sallyport
