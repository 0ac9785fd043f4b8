import Provework.Lib.Loop
import Provework.Wire

/-!
# Admission proof-of-work (`mine_pow`, `verify_pow` of `crates/wire/src/lib.rs`)

`leading_zero_bits` walks over the digest byte by byte and stops in the first that
is not zero. `le_leadingZeroBits_iff` says that this compares numbers: a digest has
`k` leading zero bits exactly if, read big-endian, it is below the power of two that
`k` bits fewer leave. So a difficulty is a threshold, and the miner, which tries one
counter after the other, finds the least below it (`mines_iff`).
-/

namespace Provework.Wire

open Provework.Lib

/-! ## Zero bits and thresholds -/

/-- One byte. -/
theorem le_clz_iff : ∀ b : U8, ∀ k ≤ 8, (k ≤ b.clz.toNat ↔ b.toNat < 2 ^ (8 - k)) := by
  decide +kernel

/-- Only the leading byte decides a comparison with a multiple of its weight. -/
theorem beNat_cons_lt_iff (b : U8) (bs : List U8) (c : Nat) :
    beNat (b :: bs) < c * 256 ^ bs.length ↔ b.toNat < c := by
  have hpos : 0 < 256 ^ bs.length := Nat.pow_pos (by decide)
  rw [beNat, ← Nat.div_lt_iff_lt_mul hpos, Nat.mul_comm, Nat.mul_add_div hpos,
    Nat.div_eq_of_lt (beNat_lt bs), Nat.add_zero]

/-- Up to eight bits, the first byte decides. -/
theorem le_leadingZeroBits_first (b : U8) (bs : List U8) {k : Nat} (hk : k ≤ 8) :
    k ≤ leadingZeroBits (b :: bs) ↔ beNat (b :: bs) < 2 ^ (8 * (bs.length + 1) - k) := by
  have hpow : 2 ^ (8 * (bs.length + 1) - k) = 2 ^ (8 - k) * 256 ^ bs.length := by
    rw [show 8 * (bs.length + 1) - k = (8 - k) + 8 * bs.length by omega, Nat.pow_add, Nat.pow_mul]
  rw [hpow, beNat_cons_lt_iff, leadingZeroBits]
  by_cases hb : b = 0
  · rw [if_pos hb, hb]
    exact iff_of_true (by omega) (Nat.pow_pos (by decide))
  · rw [if_neg hb]
    exact le_clz_iff b k hk

/-- For more of them it has to be zero, and then the rest decides. -/
theorem le_leadingZeroBits_rest (b : U8) (bs : List U8) {k : Nat}
    (ih : k ≤ leadingZeroBits bs ↔ beNat bs < 2 ^ (8 * bs.length - k)) :
    8 + k ≤ leadingZeroBits (b :: bs) ↔ beNat (b :: bs) < 2 ^ (8 * bs.length - k) := by
  by_cases hb : b = 0
  · rw [leadingZeroBits, if_pos hb, beNat, hb, show (0 : U8).toNat = 0 from rfl, Nat.zero_mul,
      Nat.zero_add, ← ih]
    omega
  · have hbyte : b.toNat ≠ 0 := fun h => hb (BitVec.eq_of_toNat_eq h)
    have hzeros : ¬8 ≤ leadingZeroBits (b :: bs) := by
      rw [leadingZeroBits, if_neg hb, le_clz_iff b 8 (Nat.le_refl 8)]
      omega
    have hlarge : 2 ^ (8 * (bs.length + 1) - 8) ≤ beNat (b :: bs) :=
      Nat.le_of_not_lt fun h => hzeros ((le_leadingZeroBits_first b bs (Nat.le_refl 8)).mpr h)
    have hpow : 2 ^ (8 * bs.length - k) ≤ 2 ^ (8 * (bs.length + 1) - 8) :=
      Nat.pow_le_pow_right (by decide) (by omega)
    exact iff_of_false (by omega) (by omega)

theorem le_leadingZeroBits_iff : ∀ (bs : List U8) (k : Nat), k ≤ 8 * bs.length →
    (k ≤ leadingZeroBits bs ↔ beNat bs < 2 ^ (8 * bs.length - k)) := by
  intro bs
  induction bs with
  | nil =>
    intro k hk
    obtain rfl : k = 0 := Nat.le_zero.mp hk
    simp [leadingZeroBits, beNat]
  | cons b bs ih =>
    intro k hk
    rw [List.length_cons] at hk ⊢
    by_cases hfirst : k ≤ 8
    · exact le_leadingZeroBits_first b bs hfirst
    · obtain ⟨j, rfl⟩ := Nat.exists_eq_add_of_le (Nat.le_of_not_le hfirst)
      rw [show 8 * (bs.length + 1) - (8 + j) = 8 * bs.length - j by omega]
      exact le_leadingZeroBits_rest b bs (ih j (by omega))

section

variable (blake3 : List U8 → Hash) (nonce : List U8)

theorem verifyPow_iff (counter : U64) (bits : Nat) :
    verifyPow blake3 nonce counter bits = true ↔
      beNat (List.ofFn (blake3 (nonce ++ leBytes 8 counter.toNat))) < 2 ^ (256 - min bits 256) := by
  have hiff := le_leadingZeroBits_iff (List.ofFn (blake3 (nonce ++ leBytes 8 counter.toNat)))
    (min bits 256) (by rw [List.length_ofFn]; exact Nat.min_le_right _ _)
  rw [List.length_ofFn] at hiff
  rw [verifyPow, decide_eq_true_eq, hiff]

/-- A solution solves every easier challenge. -/
theorem verifyPow_antitone (counter : U64) {bits harder : Nat} (hle : bits ≤ harder)
    (h : verifyPow blake3 nonce counter harder = true) :
    verifyPow blake3 nonce counter bits = true := by
  rw [verifyPow_iff] at h ⊢
  exact Nat.lt_of_lt_of_le h (Nat.pow_le_pow_right (by decide) (by omega))

/-! ## The miner -/

variable (checked : Bool) (bits : Nat)

/-- One turn of the loop. Behind the last counter a build with overflow checks
panics, which is `none`; one without them starts over. -/
def minePowBody (counter : U64) : Iter U64 (Option U64) :=
  if verifyPow blake3 nonce counter bits then .stop (some counter)
  else if checked && counter = BitVec.allOnes 64 then .stop none
  else .again (counter + 1)

/-- `mine_pow` returns `counter`. -/
def Mines (counter : U64) : Prop :=
  ∃ turns, iterate (minePowBody blake3 nonce checked bits) turns 0 = .stop (some counter)

/-- The least solution. -/
structure Least (counter : U64) : Prop where
  solves : verifyPow blake3 nonce counter bits = true
  first : ∀ c < counter, verifyPow blake3 nonce c bits = false

variable {blake3 nonce checked bits}

/-- The loop has no solution behind it, also where it starts over: there is nothing
behind zero. -/
theorem minePowBody_holds (counter : U64)
    (h : ∀ c < counter, verifyPow blake3 nonce c bits = false) :
    (minePowBody blake3 nonce checked bits counter).Holds
      (fun counter => ∀ c < counter, verifyPow blake3 nonce c bits = false)
      (fun r => ∀ c ∈ r, Least blake3 nonce bits c) := by
  unfold minePowBody
  split
  next hsolves =>
    intro c hc
    obtain rfl := Option.some.inj hc
    exact ⟨hsolves, h⟩
  next hfails =>
    split
    next =>
      intro c hc
      cases hc
    next =>
      intro c hc
      rcases (show c < counter ∨ c = counter by bv_omega) with hlt | rfl
      · exact h c hlt
      · exact Bool.not_eq_true _ ▸ hfails

/-- Counters that are not solutions are passed over one by one. -/
theorem iterate_minePowBody : ∀ n : Nat, n < 2 ^ 64 →
    (∀ c : U64, c.toNat < n → verifyPow blake3 nonce c bits = false) →
    iterate (minePowBody blake3 nonce checked bits) n 0 = .again (BitVec.ofNat 64 n) := by
  intro n
  induction n with
  | zero =>
    intro _ _
    rfl
  | succ n ih =>
    intro hlt hfails
    have hn : (BitVec.ofNat 64 n).toNat = n := by
      rw [BitVec.toNat_ofNat]
      omega
    rw [iterate_add 1 (ih (by omega) fun c hc => hfails c (by omega))]
    have hlast : BitVec.ofNat 64 n ≠ BitVec.allOnes 64 := by
      intro h
      have hval := congrArg BitVec.toNat h
      rw [hn, BitVec.toNat_allOnes] at hval
      omega
    have hstep : minePowBody blake3 nonce checked bits (BitVec.ofNat 64 n)
        = .again (BitVec.ofNat 64 (n + 1)) := by
      rw [minePowBody, hfails _ (by omega), decide_eq_false hlast, Bool.and_false, BitVec.ofNat_add]
      rfl
    exact iterate_succ_again hstep

/-- The miner returns exactly the least solution; it returns if there is one. -/
theorem mines_iff (counter : U64) :
    Mines blake3 nonce checked bits counter ↔ Least blake3 nonce bits counter := by
  constructor
  · rintro ⟨turns, hturns⟩
    have hholds : (iterate (minePowBody blake3 nonce checked bits) turns 0).Holds _ _ :=
      iterate_holds minePowBody_holds turns fun c hc => absurd hc BitVec.not_lt_zero
    rw [hturns] at hholds
    exact hholds counter rfl
  · intro h
    have hpassed : iterate (minePowBody blake3 nonce checked bits) counter.toNat 0
        = .again (BitVec.ofNat 64 counter.toNat) :=
      iterate_minePowBody counter.toNat counter.isLt fun c hc => h.first c hc
    rw [BitVec.ofNat_toNat, BitVec.setWidth_eq] at hpassed
    have hstop : minePowBody blake3 nonce checked bits counter = .stop (some counter) := by
      rw [minePowBody, h.solves, if_pos rfl]
    refine ⟨counter.toNat + 1, ?_⟩
    rw [iterate_add 1 hpassed]
    exact iterate_succ_stop hstop

end

/-- A proof of work is a digest below a threshold, which falls with the difficulty;
and the miner returns the least counter that has one. -/
theorem verifyPow_threshold (blake3 : List U8 → Hash) (nonce : List U8) :
    (∀ counter bits, verifyPow blake3 nonce counter bits = true ↔
      beNat (List.ofFn (blake3 (nonce ++ leBytes 8 counter.toNat))) < 2 ^ (256 - min bits 256)) ∧
    (∀ counter bits harder, bits ≤ harder → verifyPow blake3 nonce counter harder = true →
      verifyPow blake3 nonce counter bits = true) ∧
    ∀ checked bits counter, Mines blake3 nonce checked bits counter ↔
      verifyPow blake3 nonce counter bits = true ∧
        ∀ c < counter, verifyPow blake3 nonce c bits = false := by
  refine ⟨fun counter bits => verifyPow_iff blake3 nonce counter bits, ?_, ?_⟩
  · intro counter bits harder hle h
    exact verifyPow_antitone blake3 nonce counter hle h
  · intro checked bits counter
    rw [mines_iff]
    exact ⟨fun h => ⟨h.solves, h.first⟩, fun ⟨hsolves, hfirst⟩ => ⟨hsolves, hfirst⟩⟩

end Provework.Wire
