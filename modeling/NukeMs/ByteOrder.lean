import Mathlib.Tactic.Common
import Mathlib.Tactic.IntervalCases
import Mathlib.Tactic.NormNum
import NukeMs.OutputIterator

/-!
`bytes.hpp`: fixed width integers, their object representation on a host of
either byte order, and the conversion to the network byte order, which for
nuke-ms is least significant byte first.
-/

namespace NukeMs

abbrev Byte := BitVec 8

abbrev Word (n : ℕ) := BitVec (8 * n)

abbrev Uint2b := Word 2
abbrev Uint4b := Word 4
abbrev Uint8b := Word 8

/-- The build: `bigEndian` is `NUKE_MS_BIG_ENDIAN`, set on the hosts that store the most
significant byte first. -/
class Host where
  bigEndian : Bool

abbrev littleEndianHost : Host := ⟨false⟩

def littleEndian : ℕ → ℕ → List Byte
  | 0, _ => []
  | n + 1, x => BitVec.ofNat 8 x :: littleEndian n (x / 256)

def ofLittleEndian : List Byte → ℕ
  | [] => 0
  | b :: bs => b.toNat + 256 * ofLittleEndian bs

section
variable [Host] {n : ℕ}

def objectBytes (x : Word n) : List Byte :=
  if Host.bigEndian then (littleEndian n x.toNat).reverse else littleEndian n x.toNat

def ofObjectBytes (n : ℕ) (bs : List Byte) : Word n :=
  BitVec.ofNat (8 * n) (ofLittleEndian (if Host.bigEndian then bs.reverse else bs))

/-- The generic template reverses the object representation; the widths two and four have
specializations that shift and mask. -/
def reversebytes : {n : ℕ} → Word n → Word n
  | 2, x => (x <<< 8) ||| (x >>> 8)
  | 4, x => (x <<< 24) ||| ((x <<< 8) &&& 0xff0000) ||| ((x >>> 8) &&& 0xff00) ||| (x >>> 24)
  | n, x => ofObjectBytes n (objectBytes x).reverse

def writebytes (it : OutputIterator Byte) (value : Word n) : OutputIterator Byte :=
  it.copy (objectBytes value)

def readbytes (n : ℕ) (block : List Byte) (it : ℕ) : Word n :=
  ofObjectBytes n ((block.drop it).take n)

def toNetbo (x : Word n) : Word n := if Host.bigEndian then reversebytes x else x

def toHostbo (x : Word n) : Word n := if Host.bigEndian then reversebytes x else x

end

@[simp] theorem littleEndian_length (n x : ℕ) : (littleEndian n x).length = n := by
  induction n generalizing x with
  | zero => rfl
  | succ n ih => rw [littleEndian, List.length_cons, ih]

theorem ofLittleEndian_lt (bs : List Byte) : ofLittleEndian bs < 2 ^ (8 * bs.length) := by
  induction bs with
  | nil => simp [ofLittleEndian]
  | cons b bs ih =>
    have hb : b.toNat < 256 := b.isLt
    rw [ofLittleEndian, List.length_cons, Nat.mul_succ, Nat.pow_add]
    omega

theorem ofLittleEndian_littleEndian (n x : ℕ) :
    ofLittleEndian (littleEndian n x) = x % 2 ^ (8 * n) := by
  induction n generalizing x with
  | zero => simp [littleEndian, ofLittleEndian, Nat.mod_one]
  | succ n ih =>
    rw [littleEndian, ofLittleEndian, ih, BitVec.toNat_ofNat]
    have hpow : 2 ^ (8 * (n + 1)) = 256 * 2 ^ (8 * n) := by rw [Nat.mul_succ, Nat.pow_add]; omega
    rw [hpow, Nat.mod_mul]

theorem littleEndian_ofLittleEndian (bs : List Byte) :
    littleEndian bs.length (ofLittleEndian bs) = bs := by
  induction bs with
  | nil => rfl
  | cons b bs ih =>
    have hb : b.toNat < 256 := b.isLt
    have hhead : BitVec.ofNat 8 (b.toNat + 256 * ofLittleEndian bs) = b := by
      apply BitVec.eq_of_toNat_eq
      rw [BitVec.toNat_ofNat]
      omega
    have htail : (b.toNat + 256 * ofLittleEndian bs) / 256 = ofLittleEndian bs := by omega
    rw [List.length_cons, ofLittleEndian, littleEndian, hhead, htail, ih]

theorem toNat_append_add {m n : ℕ} (x : BitVec m) (y : BitVec n) :
    (x ++ y).toNat = x.toNat * 2 ^ n + y.toNat := by
  rw [BitVec.toNat_append, ← Nat.shiftLeft_add_eq_or_of_lt y.isLt, Nat.shiftLeft_eq]

theorem reverse_two (x : BitVec 16) :
    ((x <<< 8) ||| (x >>> 8)).toNat = x.toNat % 256 * 256 + x.toNat / 256 := by
  have hx := x.isLt
  have h : (x <<< 8) ||| (x >>> 8) = x.extractLsb' 0 8 ++ x.extractLsb' 8 8 := by
    apply BitVec.eq_of_getLsbD_eq
    intro i hi
    simp only [BitVec.getLsbD_or, BitVec.getLsbD_shiftLeft, BitVec.getLsbD_ushiftRight,
      BitVec.getLsbD_append, BitVec.getLsbD_extractLsb']
    interval_cases i <;> simp
  rw [h, toNat_append_add]
  simp only [BitVec.extractLsb'_toNat, Nat.shiftRight_eq_div_pow]
  omega

theorem reverse_four (x : BitVec 32) :
    ((x <<< 24) ||| ((x <<< 8) &&& 0xff0000#32) ||| ((x >>> 8) &&& 0xff00#32) ||| (x >>> 24)).toNat =
      x.toNat % 256 * 16777216 + x.toNat / 256 % 256 * 65536 + x.toNat / 65536 % 256 * 256 +
        x.toNat / 16777216 := by
  have hx := x.isLt
  have h : (x <<< 24) ||| ((x <<< 8) &&& 0xff0000#32) ||| ((x >>> 8) &&& 0xff00#32) ||| (x >>> 24) =
      x.extractLsb' 0 8 ++ (x.extractLsb' 8 8 ++ (x.extractLsb' 16 8 ++ x.extractLsb' 24 8)) := by
    apply BitVec.eq_of_getLsbD_eq
    intro i hi
    simp only [BitVec.getLsbD_or, BitVec.getLsbD_and, BitVec.getLsbD_shiftLeft,
      BitVec.getLsbD_ushiftRight, BitVec.getLsbD_append, BitVec.getLsbD_extractLsb']
    interval_cases i <;> simp
  rw [h, toNat_append_add, toNat_append_add, toNat_append_add]
  simp only [BitVec.extractLsb'_toNat, Nat.shiftRight_eq_div_pow]
  omega

section
variable [Host] {n : ℕ}

theorem objectBytes_ofObjectBytes (bs : List Byte) :
    objectBytes (ofObjectBytes bs.length bs) = bs := by
  have hrev : littleEndian bs.length (ofLittleEndian bs.reverse) = bs.reverse := by
    simpa only [List.length_reverse] using littleEndian_ofLittleEndian bs.reverse
  have hlt := ofLittleEndian_lt bs.reverse
  rw [List.length_reverse] at hlt
  unfold ofObjectBytes objectBytes
  split
  · rw [BitVec.toNat_ofNat, Nat.mod_eq_of_lt hlt, hrev, List.reverse_reverse]
  · rw [BitVec.toNat_ofNat, Nat.mod_eq_of_lt (ofLittleEndian_lt bs), littleEndian_ofLittleEndian]


theorem ofObjectBytes_reverse (x : Word n) :
    ofObjectBytes n (objectBytes x).reverse =
      BitVec.ofNat (8 * n) (ofLittleEndian (littleEndian n x.toNat).reverse) := by
  unfold ofObjectBytes objectBytes
  split <;> simp

theorem reversebytes_eq (x : Word n) :
    reversebytes x =
      BitVec.ofNat (8 * n) (ofLittleEndian (littleEndian n x.toNat).reverse) := by
  unfold reversebytes
  split
  next x =>
    have hx : x.toNat < 65536 := x.isLt
    apply BitVec.eq_of_toNat_eq
    apply (reverse_two x).trans
    simp only [littleEndian, ofLittleEndian, BitVec.toNat_ofNat, List.reverse_cons,
      List.reverse_nil, List.nil_append, List.cons_append]
    refine ((Nat.mod_eq_of_lt ?_).trans ?_).symm <;> omega
  next x =>
    have hx : x.toNat < 4294967296 := x.isLt
    apply BitVec.eq_of_toNat_eq
    apply (reverse_four x).trans
    simp only [littleEndian, ofLittleEndian, BitVec.toNat_ofNat, List.reverse_cons,
      List.reverse_nil, List.nil_append, List.cons_append, Nat.div_div_eq_div_mul, Nat.reduceMul]
    refine ((Nat.mod_eq_of_lt ?_).trans ?_).symm <;> omega
  next => exact ofObjectBytes_reverse x

theorem objectBytes_toNetbo (x : Word n) : objectBytes (toNetbo x) = littleEndian n x.toNat := by
  unfold toNetbo
  split
  next h =>
    have hlt := ofLittleEndian_lt (littleEndian n x.toNat).reverse
    have hinv := littleEndian_ofLittleEndian (littleEndian n x.toNat).reverse
    rw [List.length_reverse, littleEndian_length] at hlt hinv
    rw [reversebytes_eq, objectBytes, if_pos h, BitVec.toNat_ofNat, Nat.mod_eq_of_lt hlt, hinv,
      List.reverse_reverse]
  next h => rw [objectBytes, if_neg h]

theorem toHostbo_ofObjectBytes (bs : List Byte) (hn : bs.length = n) :
    toHostbo (ofObjectBytes n bs) = BitVec.ofNat (8 * n) (ofLittleEndian bs) := by
  subst hn
  unfold toHostbo
  split
  next h =>
    have hb := objectBytes_ofObjectBytes bs
    have hl : littleEndian bs.length (ofObjectBytes bs.length bs).toNat = bs.reverse := by
      rw [objectBytes, if_pos h] at hb
      rw [← hb, List.reverse_reverse, hb]
    rw [reversebytes_eq, hl, List.reverse_reverse]
  next h => rw [ofObjectBytes, if_neg h]

theorem toHostbo_readbytes (block : List Byte) (it : ℕ) (h : it + n ≤ block.length) :
    toHostbo (readbytes n block it) =
      BitVec.ofNat (8 * n) (ofLittleEndian ((block.drop it).take n)) := by
  apply toHostbo_ofObjectBytes
  rw [List.length_take, List.length_drop]
  omega

end

end NukeMs
