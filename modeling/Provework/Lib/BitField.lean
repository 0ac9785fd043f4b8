import Mathlib.Tactic.IntervalCases
import Mathlib.Tactic.Positivity
import Mathlib.Tactic.NormNum
import Provework.Lib.Bytes

/-!
# Bit fields and sign extension

What a decoder does with its word: cut a field out with a shift, put the
pieces of an immediate together, and sign-extend — either with the pair
"shift left to the top, shift back arithmetically" or with one arithmetic
shift that drops the low fields. The lemmas here turn both idioms into
`BitVec.signExtend` of the plain field, and shifted fields into multiples.

The second half states the word operations as exact integer operations
followed by one reduction, `BitVec.ofInt`.
-/

namespace Provework.Lib

/-- `(v << k) >> k` on an `iN` sign-extends a value of `N - k` bits. -/
theorem shl_sshr_eq_signExtend {w k n : Nat} (hn : n = w + k) (hw : 0 < w) {v : BitVec n}
    {x : BitVec w} (hv : v = x.setWidth n) : (v <<< k).sshiftRight k = x.signExtend n := by
  subst hv
  ext i hi
  simp only [BitVec.getElem_sshiftRight, BitVec.getElem_signExtend, BitVec.getLsbD_shiftLeft,
    BitVec.msb_eq_getLsbD_last, BitVec.getElem_shiftLeft, BitVec.getLsbD_setWidth]
  by_cases hiw : i < w
  · rw [dif_pos (by omega), dif_pos hiw]
    simp [BitVec.getLsbD_eq_getElem hiw]
  · rw [dif_neg (by omega), dif_neg hiw]
    simp only [show n - 1 < n by omega, show ¬(n - 1 < k) by omega,
      show n - 1 - k = w - 1 by omega]
    simp
    intro
    omega

/-- An arithmetic right shift keeps the top field, sign-extended. -/
theorem sshiftRight_eq_signExtend {n : Nat} (v : BitVec n) (k : Nat) (hk : k < n) :
    v.sshiftRight k = (v.extractLsb' k (n - k)).signExtend n := by
  ext i hi
  simp only [BitVec.getElem_signExtend, BitVec.getElem_sshiftRight, BitVec.msb_eq_getLsbD_last,
    BitVec.getElem_extractLsb', BitVec.getLsbD_extractLsb']
  by_cases h : i < n - k
  · rw [dif_pos (by omega), dif_pos h, BitVec.getLsbD_eq_getElem (by omega)]
  · rw [dif_neg (by omega), dif_neg h, show k + (n - k - 1) = n - 1 by omega]
    simp [show n - k - 1 < n - k by omega]

/-- Sign extension in two stages. -/
theorem signExtend_signExtend {w n : Nat} (x : BitVec w) (m : Nat) (h : w ≤ n) :
    (x.signExtend n).signExtend m = x.signExtend m := by
  show BitVec.ofInt m (x.signExtend n).toInt = BitVec.ofInt m x.toInt
  rw [BitVec.toInt_signExtend_of_le h]

/-- The decoder's "assemble, align at the top, shift back, widen". -/
theorem shl_sshr_signExtend {w k n : Nat} (m : Nat) (hn : n = w + k) (hw : 0 < w) {v : BitVec n}
    {x : BitVec w} (hv : v = x.setWidth n) :
    ((v <<< k).sshiftRight k).signExtend m = x.signExtend m := by
  rw [shl_sshr_eq_signExtend hn hw hv, signExtend_signExtend x m (by omega)]

/-- A field moved up by `k` bits is its multiple by `2 ^ k`. -/
theorem toInt_setWidth_shiftLeft {w k n : Nat} (hn : n = w + k) (x : BitVec w) :
    (x.setWidth n <<< k).toInt = x.toInt * 2 ^ k := by
  subst hn
  have happ : x.setWidth (w + k) <<< k = x ++ 0#k := by
    ext i hi
    simp only [BitVec.getElem_shiftLeft, BitVec.getElem_append, BitVec.getElem_zero]
    grind
  rw [happ, BitVec.toInt_append_zero, Int.mul_comm]

theorem signExtend_shiftLeft {w k n : Nat} (m : Nat) (hn : n = w + k) (x : BitVec w) :
    (x.setWidth n <<< k).signExtend m = BitVec.ofInt m (x.toInt * 2 ^ k) := by
  show BitVec.ofInt m (x.setWidth n <<< k).toInt = _
  rw [toInt_setWidth_shiftLeft hn]

/-! ## Word operations as exact integer operations -/

section

variable {w : Nat} (a b : BitVec w)

theorem add_eq_ofInt : a + b = BitVec.ofInt w (a.toInt + b.toInt) := by
  rw [BitVec.ofInt_add, BitVec.ofInt_toInt, BitVec.ofInt_toInt]

theorem add_ofInt (n : Int) : a + BitVec.ofInt w n = BitVec.ofInt w (a.toNat + n) := by
  rw [BitVec.ofInt_add, BitVec.ofInt_natCast, BitVec.ofNat_toNat, BitVec.setWidth_eq]

theorem add_signExtend {v : Nat} (x : BitVec v) :
    a + x.signExtend w = BitVec.ofInt w (a.toInt + x.toInt) := by
  rw [BitVec.ofInt_add, BitVec.ofInt_toInt]
  rfl

theorem sub_eq_ofInt : a - b = BitVec.ofInt w (a.toInt - b.toInt) := by
  rw [Int.sub_eq_add_neg, BitVec.ofInt_add, BitVec.ofInt_neg, BitVec.ofInt_toInt,
    BitVec.ofInt_toInt, BitVec.sub_eq_add_neg]

theorem mul_eq_ofInt : a * b = BitVec.ofInt w (a.toInt * b.toInt) := by
  rw [BitVec.ofInt_mul, BitVec.ofInt_toInt, BitVec.ofInt_toInt]

theorem shiftLeft_eq_ofNat (k : Nat) : a <<< k = BitVec.ofNat w (a.toNat * 2 ^ k) := by
  apply BitVec.eq_of_toNat_eq
  rw [BitVec.toNat_shiftLeft, BitVec.toNat_ofNat, Nat.shiftLeft_eq]

theorem ushiftRight_eq_ofNat (k : Nat) : a >>> k = BitVec.ofNat w (a.toNat / 2 ^ k) := by
  apply BitVec.eq_of_toNat_eq
  rw [BitVec.toNat_ushiftRight, BitVec.toNat_ofNat, Nat.shiftRight_eq_div_pow,
    Nat.mod_eq_of_lt (Nat.lt_of_le_of_lt (Nat.div_le_self _ _) a.isLt)]

theorem sshiftRight_eq_ofInt (k : Nat) : a.sshiftRight k = BitVec.ofInt w (a.toInt / 2 ^ k) := by
  unfold BitVec.sshiftRight
  rw [Int.shiftRight_eq_div_pow]
  norm_cast

end

theorem setWidth_ofInt {m w : Nat} (h : w ≤ m) (n : Int) :
    (BitVec.ofInt m n).setWidth w = BitVec.ofInt w n := by
  apply BitVec.eq_of_toNat_eq
  rw [BitVec.toNat_setWidth, BitVec.toNat_ofInt, BitVec.toNat_ofInt]
  have hdvd : ((2 ^ w : Nat) : Int) ∣ ((2 ^ m : Nat) : Int) := by
    exact_mod_cast Nat.pow_dvd_pow 2 h
  have hpos : (0 : Int) ≤ n % ((2 ^ m : Nat) : Int) := Int.emod_nonneg _ (by positivity)
  rw [← Int.emod_emod_of_dvd n hdvd, Int.toNat_emod hpos (by positivity), Int.toNat_natCast]

/-- The low `k` bits of a number, as a sign-extended word. -/
theorem signExtend_setWidth_ofNat {k m : Nat} (n : Nat) (hk : k ≤ m) :
    ((BitVec.ofNat m n).setWidth k).signExtend m = BitVec.ofInt m (Int.bmod n (2 ^ k)) := by
  rw [← BitVec.ofInt_natCast, setWidth_ofInt hk]
  show BitVec.ofInt m (BitVec.ofInt k n).toInt = _
  rw [BitVec.toInt_ofInt]

/-- Clearing bit 0 rounds down to an even number. -/
theorem and_not_one_eq_ofInt (n : Int) :
    BitVec.ofInt 64 n &&& ~~~1#64 = BitVec.ofInt 64 (n / 2 * 2) := by
  have hand : ∀ v : BitVec 64, v &&& ~~~1#64 = (v >>> 1) <<< 1 := by
    intro v
    ext i hi
    simp only [BitVec.getElem_and, BitVec.getElem_not, BitVec.getElem_shiftLeft]
    rcases i with _ | i
    · simp
    · simp [BitVec.getElem_one, Nat.add_comm 1 i, BitVec.getLsbD_eq_getElem hi]
  rw [hand]
  apply BitVec.eq_of_toNat_eq
  rw [BitVec.toNat_shiftLeft, BitVec.toNat_ushiftRight, BitVec.toNat_ofInt, BitVec.toNat_ofInt,
    Nat.shiftLeft_eq, Nat.shiftRight_eq_div_pow]
  norm_num
  omega

/-- The high half of a product that fits the double width. -/
theorem high_mul_eq_ofInt {n : Nat} {p q : BitVec (n + n)} {x y : Int} (hp : p.toInt = x)
    (hq : q.toInt = y) (hlo : -2 ^ (n + n - 1) ≤ x * y) (hhi : x * y < 2 ^ (n + n - 1)) :
    ((p * q).sshiftRight n).setWidth n = BitVec.ofInt n (x * y / 2 ^ n) := by
  rw [sshiftRight_eq_ofInt, BitVec.toInt_mul, hp, hq, setWidth_ofInt (by omega)]
  rcases n with _ | n
  · exact Subsingleton.elim _ _
  have hpow : 2 ^ (n + 1 + (n + 1)) = 2 * 2 ^ (n + 1 + (n + 1) - 1) := by
    rw [show n + 1 + (n + 1) = (n + 1 + (n + 1) - 1) + 1 by omega, Nat.pow_succ]; simp; omega
  rw [Int.bmod_eq_of_le (by rw [hpow]; push_cast; omega) (by rw [hpow]; push_cast; omega)]

end Provework.Lib
