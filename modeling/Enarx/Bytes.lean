import Mathlib.Data.List.Basic
import Mathlib.Data.List.Forall2
import Mathlib.Data.List.GetD
import Mathlib.Tactic.Ring

/-!
# Bytes, machine words and little-endian memory

Byte-addressed memory as a total function, with the read and write laws the
rest of the development uses. Nothing here knows about a particular program.
-/
namespace Enarx

abbrev Byte := BitVec 8
abbrev Word := BitVec 64

def leBytes : Nat → Nat → List Byte
  | 0, _ => []
  | n + 1, value => BitVec.ofNat 8 value :: leBytes n (value / 256)

def leNat : List Byte → Nat
  | [] => 0
  | byte :: rest => byte.toNat + 256 * leNat rest

@[simp] theorem length_leBytes (n value : Nat) : (leBytes n value).length = n := by
  induction n generalizing value with
  | zero => rfl
  | succ n ih => simp only [leBytes, List.length_cons, ih]

theorem leNat_leBytes (n value : Nat) : leNat (leBytes n value) = value % 256 ^ n := by
  induction n generalizing value with
  | zero => simp [leBytes, leNat, Nat.mod_one]
  | succ n ih =>
    rw [leBytes, leNat, ih, BitVec.toNat_ofNat, pow_succ' 256 n, Nat.mod_mul]

theorem leBytes_leNat (bytes : List Byte) : leBytes bytes.length (leNat bytes) = bytes := by
  induction bytes with
  | nil => rfl
  | cons byte rest ih =>
    have hbyte : byte.toNat < 256 := byte.isLt
    simp only [List.length_cons, leBytes, leNat]
    congr 1
    · apply BitVec.eq_of_toNat_eq
      rw [BitVec.toNat_ofNat]
      omega
    · rw [show (byte.toNat + 256 * leNat rest) / 256 = leNat rest by omega]
      exact ih

theorem leNat_lt (bytes : List Byte) : leNat bytes < 256 ^ bytes.length := by
  induction bytes with
  | nil => simp [leNat]
  | cons byte rest ih =>
    have hbyte : byte.toNat < 256 := byte.isLt
    rw [leNat, List.length_cons, pow_succ]
    omega

def wordBytes (word : Word) : List Byte := leBytes 8 word.toNat

def wordOfBytes (bytes : List Byte) : Word := BitVec.ofNat 64 (leNat bytes)

@[simp] theorem length_wordBytes (word : Word) : (wordBytes word).length = 8 := by
  simp [wordBytes]

@[simp] theorem wordOfBytes_wordBytes (word : Word) : wordOfBytes (wordBytes word) = word := by
  unfold wordOfBytes wordBytes
  rw [leNat_leBytes, Nat.mod_eq_of_lt (by have := word.isLt; omega)]
  simp

theorem wordBytes_wordOfBytes (bytes : List Byte) (hlen : bytes.length = 8) :
    wordBytes (wordOfBytes bytes) = bytes := by
  have hlt := leNat_lt bytes
  rw [hlen] at hlt
  unfold wordOfBytes wordBytes
  rw [BitVec.toNat_ofNat, Nat.mod_eq_of_lt (by omega), ← hlen]
  exact leBytes_leNat bytes

def wordsBytes (words : List Word) : List Byte := words.flatMap wordBytes

@[simp] theorem wordsBytes_nil : wordsBytes [] = [] := rfl

@[simp] theorem wordsBytes_cons (word : Word) (words : List Word) :
    wordsBytes (word :: words) = wordBytes word ++ wordsBytes words := rfl

@[simp] theorem length_wordsBytes (words : List Word) : (wordsBytes words).length = 8 * words.length := by
  induction words with
  | nil => rfl
  | cons word words ih =>
    rw [wordsBytes_cons, List.length_append, length_wordBytes, ih, List.length_cons]
    omega

abbrev Mem := Nat → Byte

structure Span where
  addr : Nat
  len : Nat
  deriving DecidableEq, Repr

namespace Span

def Contains (span : Span) (addr : Nat) : Prop :=
  span.addr ≤ addr ∧ addr < span.addr + span.len

instance (span : Span) (addr : Nat) : Decidable (span.Contains addr) := by
  unfold Contains; infer_instance

def Disjoint (left right : Span) : Prop :=
  ∀ addr, left.Contains addr → ¬ right.Contains addr

def Within (inner outer : Span) : Prop :=
  ∀ addr, inner.Contains addr → outer.Contains addr

def Covered (span : Span) (spans : List Span) : Prop :=
  ∀ addr, span.Contains addr → ∃ other ∈ spans, other.Contains addr

theorem Within.covered {inner outer : Span} {spans : List Span} (h : inner.Within outer)
    (hmem : outer ∈ spans) : inner.Covered spans :=
  fun addr haddr => ⟨outer, hmem, h addr haddr⟩

theorem within_of_le {inner outer : Span} (hstart : outer.addr ≤ inner.addr)
    (hend : inner.addr + inner.len ≤ outer.addr + outer.len) : inner.Within outer := by
  rintro addr ⟨hlow, hhigh⟩
  exact ⟨by omega, by omega⟩

theorem covered_of_mem {span : Span} {spans : List Span} (h : span ∈ spans) :
    span.Covered spans := fun _ haddr => ⟨span, h, haddr⟩

theorem Covered.trans {span : Span} {spans spans' : List Span} (h : span.Covered spans)
    (h' : ∀ other ∈ spans, other.Covered spans') : span.Covered spans' := by
  intro addr haddr
  obtain ⟨other, hother, hcontains⟩ := h addr haddr
  exact h' other hother addr hcontains

theorem Disjoint.symm {left right : Span} (h : left.Disjoint right) : right.Disjoint left :=
  fun addr hright hleft => h addr hleft hright

theorem disjoint_of_le (left right : Span) (h : left.addr + left.len ≤ right.addr) : left.Disjoint right := by
  rintro addr ⟨_, hleft⟩ ⟨hright, _⟩
  omega

end Span

namespace Mem

def read (mem : Mem) (addr len : Nat) : List Byte :=
  (List.range len).map fun i => mem (addr + i)

def write (mem : Mem) (addr : Nat) (bytes : List Byte) : Mem := fun x =>
  if addr ≤ x ∧ x < addr + bytes.length then bytes.getD (x - addr) 0 else mem x

@[simp] theorem length_read (mem : Mem) (addr len : Nat) : (mem.read addr len).length = len := by
  simp [read]

@[simp] theorem read_zero (mem : Mem) (addr : Nat) : mem.read addr 0 = [] := rfl

@[simp] theorem getElem_read (mem : Mem) (addr len i : Nat)
    (hi : i < (mem.read addr len).length) : (mem.read addr len)[i] = mem (addr + i) := by
  simp [read]

variable {addr len count : Nat} {bytes : List Byte}

theorem read_congr {left right : Mem} (h : ∀ x, addr ≤ x → x < addr + len → left x = right x) :
    left.read addr len = right.read addr len := by
  apply List.ext_getElem (by simp)
  intro i hi _
  rw [length_read] at hi
  simp only [getElem_read]
  exact h _ (by omega) (by omega)

theorem read_add (mem : Mem) (addr m n : Nat) :
    mem.read addr (m + n) = mem.read addr m ++ mem.read (addr + m) n := by
  simp only [read, List.range_add, List.map_append, List.map_map]
  congr 1
  apply List.map_congr_left
  intro i _
  simp only [Function.comp, Nat.add_assoc]

theorem take_drop_read (mem : Mem) {skip : Nat} (h : skip + count ≤ len) :
    ((mem.read addr len).drop skip).take count = mem.read (addr + skip) count := by
  obtain ⟨rest, rfl⟩ := Nat.exists_eq_add_of_le h
  rw [Nat.add_assoc, read_add, List.drop_left' (by simp), read_add, List.take_left' (by simp)]

theorem take_read (mem : Mem) (addr : Nat) (h : count ≤ len) :
    (mem.read addr len).take count = mem.read addr count := by
  obtain ⟨rest, rfl⟩ := Nat.exists_eq_add_of_le h
  rw [read_add, List.take_left' (by simp)]

theorem write_outside (mem : Mem) {x : Nat}
    (h : x < addr ∨ addr + bytes.length ≤ x) : mem.write addr bytes x = mem x := by
  unfold write
  rw [if_neg (by omega)]

theorem write_inside (mem : Mem) {i : Nat} (h : i < bytes.length) :
    mem.write addr bytes (addr + i) = bytes[i] := by
  unfold write
  rw [if_pos (by omega), Nat.add_sub_cancel_left]
  simp [h]

@[simp] theorem read_write (mem : Mem) (addr : Nat) (bytes : List Byte) :
    (mem.write addr bytes).read addr bytes.length = bytes := by
  apply List.ext_getElem (by simp)
  intro i _ hi
  rw [getElem_read, write_inside _ hi]

theorem write_append (mem : Mem) (addr : Nat) (left right : List Byte) :
    (mem.write addr left).write (addr + left.length) right = mem.write addr (left ++ right) := by
  funext x
  simp only [write, List.length_append]
  by_cases hlow : addr ≤ x
  · by_cases hleft : x < addr + left.length
    · rw [if_neg (by omega), if_pos ⟨hlow, hleft⟩, if_pos (by omega),
        List.getD_append _ _ _ _ (by omega)]
    · by_cases hright : x < addr + left.length + right.length
      · rw [if_pos (by omega), if_pos (by omega), List.getD_append_right _ _ _ _ (by omega),
          Nat.sub_sub]
      · rw [if_neg (by omega), if_neg (by omega), if_neg (by omega)]
  · rw [if_neg (by omega), if_neg (by omega), if_neg (by omega)]

theorem read_write_front (mem : Mem) (h : bytes.length ≤ len) :
    (mem.write addr bytes).read addr len = bytes ++ (mem.read addr len).drop bytes.length := by
  obtain ⟨rest, rfl⟩ := Nat.exists_eq_add_of_le h
  rw [read_add, read_write, read_add, List.drop_left' (length_read ..)]
  congr 1
  exact read_congr fun x hx _ => write_outside mem (.inr hx)

theorem read_write_frame (mem : Mem) {dst : Nat} (h : addr + len ≤ dst ∨ dst + bytes.length ≤ addr) :
    (mem.write dst bytes).read addr len = mem.read addr len :=
  read_congr fun x hx hx' => write_outside mem (by omega)

def words (mem : Mem) (addr count : Nat) : List Word :=
  (List.range count).map fun i => wordOfBytes (mem.read (addr + 8 * i) 8)

@[simp] theorem length_words (mem : Mem) (addr count : Nat) : (mem.words addr count).length = count := by
  simp [words]

theorem getElem?_words (mem : Mem) (addr : Nat) {i : Nat} (h : i < count) :
    (mem.words addr count)[i]? = some (wordOfBytes (mem.read (addr + 8 * i) 8)) := by
  simp [words, h]

theorem words_add (mem : Mem) (addr m n : Nat) :
    mem.words addr (m + n) = mem.words addr m ++ mem.words (addr + 8 * m) n := by
  simp only [words, List.range_add, List.map_append, List.map_map]
  refine congrArg (_ ++ ·) (List.map_congr_left fun i _ => ?_)
  simp only [Function.comp, Nat.mul_add, Nat.add_assoc]

theorem words_succ (mem : Mem) (addr n : Nat) :
    mem.words addr (n + 1) = wordOfBytes (mem.read addr 8) :: mem.words (addr + 8) n := by
  rw [Nat.add_comm n 1, words_add mem addr 1 n]
  simp only [words, List.range_one, List.map_cons, List.map_nil, Nat.mul_zero, Nat.add_zero,
    Nat.mul_one, List.singleton_append]

theorem words_eq_of_read (mem : Mem) {words : List Word}
    (h : mem.read addr (8 * words.length) = wordsBytes words) : mem.words addr words.length = words := by
  induction words generalizing addr with
  | nil => rfl
  | cons word words ih =>
    rw [List.length_cons, Nat.mul_add, Nat.mul_one, Nat.add_comm, read_add, wordsBytes_cons] at h
    obtain ⟨hhead, htail⟩ := List.append_inj h (by simp)
    rw [List.length_cons, words_succ, hhead, wordOfBytes_wordBytes, ih htail]

theorem wordsBytes_words (mem : Mem) (addr count : Nat) :
    wordsBytes (mem.words addr count) = mem.read addr (8 * count) := by
  induction count generalizing addr with
  | zero => rfl
  | succ n ih =>
    rw [words_succ, wordsBytes_cons, wordBytes_wordOfBytes _ (by simp), ih,
      Nat.mul_add, Nat.mul_one, Nat.add_comm (8 * n) 8, read_add]

theorem drop_words (mem : Mem) (addr count n : Nat) :
    (mem.words addr count).drop n = mem.words (addr + 8 * n) (count - n) := by
  rcases Nat.le_total n count with hle | hle
  · obtain ⟨rest, rfl⟩ := Nat.exists_eq_add_of_le hle
    rw [words_add, List.drop_left' (by simp), Nat.add_sub_cancel_left]
  · rw [List.drop_eq_nil_of_le (by simp [hle]), Nat.sub_eq_zero_of_le hle]
    rfl

theorem take_words (mem : Mem) {n : Nat} (h : n ≤ count) :
    (mem.words addr count).take n = mem.words addr n := by
  obtain ⟨rest, rfl⟩ := Nat.exists_eq_add_of_le h
  rw [words_add, List.take_left' (by simp)]

end Mem

structure Put where
  ptr : Nat
  bytes : List Byte

namespace Put

def finish (put : Put) : Nat := put.ptr + put.bytes.length

def span (put : Put) : Span := ⟨put.ptr, put.bytes.length⟩

def Ascending (puts : List Put) : Prop :=
  puts.Pairwise fun left right => left.finish ≤ right.ptr

inductive Chain : Nat → List Put → Nat → Prop where
  | nil {start finish : Nat} (h : start ≤ finish) : Chain start [] finish
  | cons {start finish : Nat} {put : Put} {puts : List Put} (head : start ≤ put.ptr)
      (tail : Chain put.finish puts finish) : Chain start (put :: puts) finish

namespace Chain

variable {start finish : Nat} {puts : List Put}

theorem le (h : Chain start puts finish) : start ≤ finish := by
  induction h with
  | nil h => exact h
  | cons head _ ih =>
    unfold Put.finish at ih
    omega

theorem widen {start' : Nat} (h : Chain start puts finish)
    (hle : start' ≤ start) : Chain start' puts finish := by
  cases h with
  | nil h => exact .nil (Nat.le_trans hle h)
  | cons head tail => exact .cons (Nat.le_trans hle head) tail

theorem append {middle : Nat} {left right : List Put}
    (h : Chain start left middle) (h' : Chain middle right finish) : Chain start (left ++ right) finish := by
  induction h with
  | nil h => exact h'.widen h
  | cons head _ ih => exact .cons head (ih h')

theorem bounds (h : Chain start puts finish) {put : Put}
    (hput : put ∈ puts) : start ≤ put.ptr ∧ put.finish ≤ finish := by
  induction h with
  | nil => cases hput
  | cons head tail ih =>
    rcases List.mem_cons.mp hput with rfl | hput
    · exact ⟨head, tail.le⟩
    · have := ih hput
      unfold Put.finish at this ⊢
      omega

theorem ascending (h : Chain start puts finish) : Ascending puts := by
  induction h with
  | nil => exact .nil
  | cons _ tail ih => exact List.Pairwise.cons (fun _ hlater => (tail.bounds hlater).1) ih

end Chain

end Put

namespace Mem

def gather (mem : Mem) (spans : List Span) : List Byte :=
  spans.flatMap fun span => mem.read span.addr span.len

theorem gather_cons (mem : Mem) (span : Span) (spans : List Span) :
    mem.gather (span :: spans) = mem.read span.addr span.len ++ mem.gather spans := rfl

def putAll (mem : Mem) (puts : List Put) : Mem :=
  puts.foldl (fun mem put => mem.write put.ptr put.bytes) mem

@[simp] theorem putAll_nil (mem : Mem) : mem.putAll [] = mem := rfl

@[simp] theorem putAll_cons (mem : Mem) (put : Put) (puts : List Put) :
    mem.putAll (put :: puts) = (mem.write put.ptr put.bytes).putAll puts := rfl

theorem putAll_outside (mem : Mem) (puts : List Put) (x : Nat)
    (h : ∀ put ∈ puts, x < put.ptr ∨ put.finish ≤ x) : mem.putAll puts x = mem x := by
  induction puts generalizing mem with
  | nil => rfl
  | cons put puts ih =>
    rw [putAll_cons, ih _ fun put hput => h put (List.mem_cons_of_mem _ hput)]
    exact write_outside mem (h put List.mem_cons_self)

theorem read_putAll (mem : Mem) {puts : List Put} (hasc : Put.Ascending puts) {put : Put}
    (hput : put ∈ puts) : (mem.putAll puts).read put.ptr put.bytes.length = put.bytes := by
  induction puts generalizing mem with
  | nil => cases hput
  | cons first rest ih =>
    obtain ⟨hfirst, hrest⟩ := List.pairwise_cons.mp hasc
    rw [putAll_cons]
    rcases List.mem_cons.mp hput with rfl | hput
    · have hkeep : ∀ x, put.ptr ≤ x → x < put.ptr + put.bytes.length →
          (mem.write put.ptr put.bytes).putAll rest x = mem.write put.ptr put.bytes x := by
        intro x _ hx
        apply putAll_outside
        intro other hother
        have := hfirst other hother
        unfold Put.finish at this
        exact Or.inl (by omega)
      rw [read_congr hkeep, read_write]
    · exact ih _ hrest hput

end Mem

section

variable {R : α → β → Prop} {left : List α} {right : List β}

theorem exists_of_mem_right (h : List.Forall₂ R left right) {b : β} (hb : b ∈ right) : ∃ a ∈ left, R a b := by
  induction h with
  | nil => cases hb
  | cons hhead _ ih =>
    rcases List.mem_cons.mp hb with rfl | hrest
    · exact ⟨_, List.mem_cons_self, hhead⟩
    · obtain ⟨a, ha, hR⟩ := ih hrest
      exact ⟨a, List.mem_cons_of_mem _ ha, hR⟩

theorem exists_of_mem_left (h : List.Forall₂ R left right) {a : α} (ha : a ∈ left) : ∃ b ∈ right, R a b :=
  exists_of_mem_right h.flip ha

end

end Enarx
