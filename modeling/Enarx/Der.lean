import Enarx.Bytes

/-!
# Tags, lengths and contents

The Distinguished Encoding Rules of X.690 as far as nested strings of bytes need
them: a length has the least number of octets, and a decoder takes nothing else.
-/
namespace Enarx.Der

def beNat (octets : List Byte) : Nat := octets.foldl (fun value octet => 256 * value + octet.toNat) 0

@[simp] theorem beNat_append (octets : List Byte) (octet : Byte) :
    beNat (octets ++ [octet]) = 256 * beNat octets + octet.toNat := by
  simp [beNat]

def minOctets (n : Nat) : List Byte :=
  if n = 0 then [] else minOctets (n / 256) ++ [BitVec.ofNat 8 n]

theorem minOctets_zero : minOctets 0 = [] := by
  rw [minOctets, if_pos rfl]

theorem minOctets_of_pos {n : Nat} (h : 0 < n) : minOctets n = minOctets (n / 256) ++ [BitVec.ofNat 8 n] := by
  rw [minOctets, if_neg (Nat.ne_of_gt h)]

theorem minOctets_of_lt {n : Nat} (hpos : 0 < n) (h : n < 256) : minOctets n = [BitVec.ofNat 8 n] := by
  rw [minOctets_of_pos hpos, Nat.div_eq_of_lt h, minOctets_zero, List.nil_append]

theorem beNat_minOctets (n : Nat) : beNat (minOctets n) = n := by
  induction n using Nat.strong_induction_on with
  | _ n ih =>
    rcases Nat.eq_zero_or_pos n with rfl | hpos
    · rw [minOctets_zero]
      rfl
    · rw [minOctets_of_pos hpos, beNat_append, ih _ (Nat.div_lt_self hpos (by decide)),
        BitVec.toNat_ofNat]
      omega

theorem length_minOctets_le {k n : Nat} (h : n < 256 ^ k) : (minOctets n).length ≤ k := by
  induction k generalizing n with
  | zero =>
    have hzero : n = 0 := by simpa using h
    rw [hzero, minOctets_zero]
    exact Nat.le_refl 0
  | succ k ih =>
    rcases Nat.eq_zero_or_pos n with rfl | hpos
    · rw [minOctets_zero]
      exact Nat.zero_le _
    · rw [minOctets_of_pos hpos, List.length_append]
      exact Nat.succ_le_succ (ih (Nat.div_lt_of_lt_mul (by rwa [Nat.pow_succ'] at h)))

theorem head?_minOctets (n : Nat) : (minOctets n).head? ≠ some 0 := by
  induction n using Nat.strong_induction_on with
  | _ n ih =>
    rcases Nat.eq_zero_or_pos n with rfl | hpos
    · rw [minOctets_zero]
      exact nofun
    · rw [minOctets_of_pos hpos]
      rcases Nat.eq_zero_or_pos (n / 256) with hsmall | hlarge
      · rw [hsmall, minOctets_zero]
        intro h
        have hzero : n % 256 = 0 := by simpa using congrArg BitVec.toNat (Option.some.inj h)
        omega
      · have hne : minOctets (n / 256) ≠ [] := by
          rw [minOctets_of_pos hlarge]
          exact List.append_ne_nil_of_right_ne_nil _ (List.cons_ne_nil _ _)
        rw [List.head?_append_of_ne_nil _ hne]
        exact ih _ (Nat.div_lt_self hpos (by decide))

def lengthOctets (n : Nat) : List Byte :=
  if n < 128 then [BitVec.ofNat 8 n]
  else BitVec.ofNat 8 (128 + (minOctets n).length) :: minOctets n

def header (tag : Byte) (n : Nat) : List Byte := tag :: lengthOctets n

theorem length_header_le (tag : Byte) {k n : Nat} (h : n < 256 ^ k) : (header tag n).length ≤ k + 2 := by
  unfold header lengthOctets
  split
  · exact Nat.le_add_left 2 k
  · exact Nat.succ_le_succ (Nat.succ_le_succ (length_minOctets_le h))

def tlv (tag : Byte) (contents : List Byte) : List Byte := header tag contents.length ++ contents

/-- A length in the long form must need it, and must not start with a zero. -/
def decodeLength : List Byte → Option (Nat × List Byte)
  | [] => none
  | first :: rest =>
    if first.toNat < 128 then some (first.toNat, rest)
    else
      let octets := rest.take (first.toNat - 128)
      if octets.length = first.toNat - 128 ∧ first ≠ 0xff ∧ octets.head? ≠ some 0 ∧
          128 ≤ beNat octets then
        some (beNat octets, rest.drop (first.toNat - 128))
      else none

def decode : List Byte → Option (Byte × List Byte × List Byte)
  | [] => none
  | tag :: rest =>
    match decodeLength rest with
    | none => none
    | some (n, rest) => if n ≤ rest.length then some (tag, rest.take n, rest.drop n) else none

theorem decodeLength_lengthOctets {n : Nat} (h : n < 2 ^ 64) (rest : List Byte) :
    decodeLength (lengthOctets n ++ rest) = some (n, rest) := by
  unfold lengthOctets
  split
  · next hshort =>
    have hfirst : (BitVec.ofNat 8 n).toNat = n := by
      rw [BitVec.toNat_ofNat, Nat.mod_eq_of_lt (by omega)]
    rw [List.singleton_append, decodeLength, hfirst, if_pos hshort]
  · next hlong =>
    have hlength : (minOctets n).length ≤ 8 := length_minOctets_le (by simpa using h)
    have hfirst : (BitVec.ofNat 8 (128 + (minOctets n).length)).toNat =
        128 + (minOctets n).length := by
      rw [BitVec.toNat_ofNat, Nat.mod_eq_of_lt (by omega)]
    have hreserved : BitVec.ofNat 8 (128 + (minOctets n).length) ≠ 0xff := by
      intro heq
      have hnat := congrArg BitVec.toNat heq
      rw [hfirst] at hnat
      change 128 + (minOctets n).length = 255 at hnat
      omega
    rw [List.cons_append, decodeLength, hfirst, if_neg (by omega), Nat.add_sub_cancel_left]
    simp only [List.take_left', List.drop_left', beNat_minOctets]
    rw [if_pos ⟨trivial, hreserved, head?_minOctets n, by omega⟩]

theorem decode_tlv (tag : Byte) {contents : List Byte} (h : contents.length < 2 ^ 64)
    (rest : List Byte) : decode (tlv tag contents ++ rest) = some (tag, contents, rest) := by
  rw [tlv, header, List.append_assoc, List.cons_append, decode, decodeLength_lengthOctets h]
  simp

end Enarx.Der
