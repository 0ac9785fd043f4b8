import Mathlib.Tactic.Linarith
import Provework.Lib.BitField
import Provework.Isa.Rv64
import Provework.Rvcore.Interp

/-!
# The arithmetic tables compute the ISA's integers

The interpreter works with casts and wrapping operations on machine words; the
reference works with exact integers and one final reduction. This file
identifies the two, operation by operation, so that the conformance proofs can
stay above the arithmetic.
-/

namespace Provework.Rvcore

open Provework.Lib Provework.Isa

/-! ## Casts -/

theorem ofBool_decide (p : Prop) [Decidable p] : ofBool (decide p) = flag p := by
  unfold ofBool flag
  by_cases h : p <;> simp [h]

/-- The low word, signed and unsigned. -/
theorem toInt_low32 (a : U64) : (low32 a).toInt = sword a := by
  unfold low32 sword
  exact BitVec.toInt_setWidth a

theorem toNat_low32 (a : U64) : (low32 a).toNat = uword a := by
  rw [low32, BitVec.toNat_setWidth, uword]

/-- A 32-bit result computed exactly and cut back to 32 bits. -/
theorem sext32_ofInt (n : Int) : sext32 (BitVec.ofInt 32 n) = wres n := by
  show BitVec.ofInt 64 (BitVec.ofInt 32 n).toInt = _
  rw [BitVec.toInt_ofInt, wres]

theorem sext32_ofNat (n : Nat) : sext32 (BitVec.ofNat 32 n) = wres n := by
  rw [← sext32_ofInt, BitVec.ofInt_natCast]

/-! ## Shifts -/

theorem wrappingShl_eq (a : U64) {k : Nat} (hk : k < 64) :
    wrappingShl a k = ShiftOp.sll.eval a k := by
  rw [wrappingShl, Nat.mod_eq_of_lt hk, shiftLeft_eq_ofNat, ShiftOp.eval]

theorem wrappingShr_eq (a : U64) {k : Nat} (hk : k < 64) :
    wrappingShr a k = ShiftOp.srl.eval a k := by
  rw [wrappingShr, Nat.mod_eq_of_lt hk, ushiftRight_eq_ofNat, ShiftOp.eval]

theorem sshiftRight_eq (a : U64) (k : Nat) : a.sshiftRight k = ShiftOp.sra.eval a k := by
  rw [sshiftRight_eq_ofInt, ShiftOp.eval]

theorem wrappingShl32_eq (a : U64) {k : Nat} (hk : k < 32) :
    sext32 (wrappingShl (low32 a) k) = ShiftOp.sll.evalW a k := by
  rw [wrappingShl, Nat.mod_eq_of_lt hk, shiftLeft_eq_ofNat, sext32_ofNat, toNat_low32]
  push_cast
  rfl

theorem ushiftRight32_eq (a : U64) (k : Nat) :
    sext32 (low32 a >>> k) = ShiftOp.srl.evalW a k := by
  rw [ushiftRight_eq_ofNat, sext32_ofNat, toNat_low32]
  push_cast
  rfl

theorem wrappingShr32_eq (a : U64) {k : Nat} (hk : k < 32) :
    sext32 (wrappingShr (low32 a) k) = ShiftOp.srl.evalW a k := by
  rw [wrappingShr, Nat.mod_eq_of_lt hk, ushiftRight32_eq]

theorem sshiftRight32_eq (a : U64) (k : Nat) :
    sext32 ((low32 a).sshiftRight k) = ShiftOp.sra.evalW a k := by
  rw [sshiftRight_eq_ofInt, sext32_ofInt, toInt_low32, ShiftOp.evalW]

/-- Register shift amounts are masked to the width. -/
theorem toNat_and_63 (b : U64) : (b &&& 63#64).toNat = b.toNat % 64 := by
  rw [BitVec.toNat_and]
  exact Nat.and_two_pow_sub_one_eq_mod b.toNat 6

theorem toNat_and_31 (b : U64) : (b &&& 31#64).toNat = b.toNat % 32 := by
  rw [BitVec.toNat_and]
  exact Nat.and_two_pow_sub_one_eq_mod b.toNat 5

/-! ## High products -/

theorem toInt_signExtend_128 (a : U64) : (a.signExtend 128).toInt = a.toInt :=
  BitVec.toInt_signExtend_of_le (by decide)

theorem toInt_setWidth_128 (a : U64) : (a.setWidth 128).toInt = a.toNat := by
  have := a.isLt
  rw [BitVec.toInt_setWidth]
  exact Int.bmod_eq_of_le (by norm_num) (by norm_num; omega)

theorem toInt_bounds (a : U64) : -2 ^ 63 ≤ a.toInt ∧ a.toInt < 2 ^ 63 :=
  ⟨BitVec.le_toInt a, BitVec.toInt_lt⟩

theorem mulh_eq (a b : U64) :
    ((a.signExtend 128 * b.signExtend 128).sshiftRight 64).setWidth 64 = RegOp.mulh.eval a b := by
  obtain ⟨ha, ha'⟩ := toInt_bounds a
  obtain ⟨hb, hb'⟩ := toInt_bounds b
  refine high_mul_eq_ofInt (n := 64) (toInt_signExtend_128 a) (toInt_signExtend_128 b) ?_ ?_
  · norm_num at *; nlinarith
  · norm_num at *; nlinarith

theorem mulhsu_eq (a b : U64) :
    ((a.signExtend 128 * b.setWidth 128).sshiftRight 64).setWidth 64 = RegOp.mulhsu.eval a b := by
  obtain ⟨ha, ha'⟩ := toInt_bounds a
  have hb := b.isLt
  refine high_mul_eq_ofInt (n := 64) (toInt_signExtend_128 a) (toInt_setWidth_128 b) ?_ ?_
  · norm_num at *; nlinarith
  · norm_num at *; nlinarith

theorem mulhu_eq (a b : U64) :
    ((a.setWidth 128 * b.setWidth 128) >>> 64).setWidth 64 = RegOp.mulhu.eval a b := by
  have hprod : a.toNat * b.toNat < 2 ^ 128 :=
    Nat.lt_of_lt_of_le (Nat.mul_lt_mul'' a.isLt b.isLt) (by norm_num)
  apply BitVec.eq_of_toNat_eq
  rw [BitVec.toNat_setWidth, BitVec.toNat_ushiftRight, BitVec.toNat_mul, BitVec.toNat_setWidth,
    BitVec.toNat_setWidth, RegOp.eval, BitVec.toNat_ofNat, Nat.shiftRight_eq_div_pow]
  have ha := a.isLt
  have hb := b.isLt
  rw [Nat.mod_eq_of_lt (show a.toNat < 2 ^ 128 by omega),
    Nat.mod_eq_of_lt (show b.toNat < 2 ^ 128 by omega), Nat.mod_eq_of_lt hprod]

/-! ## The tables on assigned function codes -/

theorem branchTaken_eq (o : BranchOp) (a b : U64) :
    branchTaken o.f3 a b = some (decide (o.Taken a b)) := by
  cases o <;> rfl

theorem opImm_eq (o : ImmOp) (inst : U32) (a imm : U64) :
    opImm inst o.f3 a imm = .value (o.eval a imm) := by
  cases o with
  | addi => exact congrArg Alu.value (add_eq_ofInt a imm)
  | slti => exact congrArg Alu.value (ofBool_decide _)
  | sltiu => exact congrArg Alu.value (ofBool_decide _)
  | xori => rfl
  | ori => rfl
  | andi => rfl

/-- The six function bits above a 64-bit shamt. -/
def shiftFunct (o : ShiftOp) : BitVec 6 := o.f7.extractLsb' 1 6

theorem opImm_shift (o : ShiftOp) {inst : U32} {shamt : BitVec 6} (a imm : U64)
    (hf : field inst 26 6 = shiftFunct o) (hs : field inst 20 6 = shamt) :
    opImm inst o.f3 a imm = .value (o.eval a shamt.toNat) := by
  have hk : shamt.toNat < 64 := shamt.isLt
  cases o with
  | sll =>
    simp only [opImm, ShiftOp.f3, hf, hs, wrappingShl_eq a hk]
    rfl
  | srl =>
    simp only [opImm, ShiftOp.f3, hf, hs, wrappingShr_eq a hk]
    rfl
  | sra =>
    simp only [opImm, ShiftOp.f3, hf, hs, sshiftRight_eq]
    rfl

theorem opImm32_addiw (inst : U32) (f7 : BitVec 7) (a : U64) (imm : BitVec 12) :
    opImm32 inst f7 0 a (imm.signExtend 64) = .value (wres (sword a + imm.toInt)) := by
  refine congrArg Alu.value ?_
  have himm : (low32 (imm.signExtend 64)).toInt = imm.toInt := by
    have h12 : low32 (imm.signExtend 64) = imm.signExtend 32 := setWidth_ofInt (by decide) _
    rw [h12, BitVec.toInt_signExtend_of_le (by decide)]
  rw [add_eq_ofInt, sext32_ofInt, toInt_low32, himm]

theorem opImm32_shift (o : ShiftOp) {inst : U32} {shamt : BitVec 5} (a imm : U64)
    (hs : field inst 20 5 = shamt) :
    opImm32 inst o.f7 o.f3 a imm = .value (o.evalW a shamt.toNat) := by
  have hk : shamt.toNat < 32 := shamt.isLt
  cases o with
  | sll =>
    simp only [opImm32, ShiftOp.f3, hs, wrappingShl32_eq a hk]
    rfl
  | srl =>
    simp only [opImm32, ShiftOp.f3, hs, wrappingShr32_eq a hk]
    rfl
  | sra =>
    simp only [opImm32, ShiftOp.f3, hs, sshiftRight32_eq]
    rfl

theorem op_eq (o : RegOp) (a b : U64) : op o.f7 o.f3 a b = .value (o.eval a b) := by
  have hmod : b.toNat % 64 < 64 := Nat.mod_lt _ (by decide)
  cases o with
  | add => exact congrArg Alu.value (add_eq_ofInt a b)
  | sub => exact congrArg Alu.value (sub_eq_ofInt a b)
  | sll =>
    refine congrArg Alu.value ?_
    rw [toNat_and_63, wrappingShl_eq a hmod]
    rfl
  | slt => exact congrArg Alu.value (ofBool_decide _)
  | sltu => exact congrArg Alu.value (ofBool_decide _)
  | xor => rfl
  | srl =>
    refine congrArg Alu.value ?_
    rw [toNat_and_63, wrappingShr_eq a hmod]
    rfl
  | sra =>
    refine congrArg Alu.value ?_
    rw [toNat_and_63, sshiftRight_eq]
    rfl
  | or => rfl
  | and => rfl
  | mul => exact congrArg Alu.value (mul_eq_ofInt a b)
  | mulh => exact congrArg Alu.value (mulh_eq a b)
  | mulhsu => exact congrArg Alu.value (mulhsu_eq a b)
  | mulhu => exact congrArg Alu.value (mulhu_eq a b)

theorem op32_eq (o : RegWOp) (a b : U64) : op32 o.f7 o.f3 a b = .value (o.eval a b) := by
  have hmod : b.toNat % 32 < 32 := Nat.mod_lt _ (by decide)
  cases o with
  | addw =>
    refine congrArg Alu.value ?_
    rw [add_eq_ofInt, sext32_ofInt, toInt_low32, toInt_low32]
    rfl
  | subw =>
    refine congrArg Alu.value ?_
    rw [sub_eq_ofInt, sext32_ofInt, toInt_low32, toInt_low32]
    rfl
  | sllw =>
    refine congrArg Alu.value ?_
    rw [toNat_and_31, wrappingShl32_eq a hmod]
    rfl
  | srlw =>
    refine congrArg Alu.value ?_
    rw [toNat_and_31, ushiftRight32_eq]
    rfl
  | sraw =>
    refine congrArg Alu.value ?_
    rw [toNat_and_31, sshiftRight32_eq]
    rfl
  | mulw =>
    refine congrArg Alu.value ?_
    rw [mul_eq_ofInt, sext32_ofInt, toInt_low32, toInt_low32]
    rfl

/-! ## Every other function code is illegal

Each table either meets an assigned code or falls through to its last arm. -/

theorem branchTaken_cases (f3 : BitVec 3) :
    (∃ o : BranchOp, o.f3 = f3) ∨ ∀ a b, branchTaken f3 a b = none := by
  unfold branchTaken
  split
  · exact Or.inl ⟨.beq, rfl⟩
  · exact Or.inl ⟨.bne, rfl⟩
  · exact Or.inl ⟨.blt, rfl⟩
  · exact Or.inl ⟨.bge, rfl⟩
  · exact Or.inl ⟨.bltu, rfl⟩
  · exact Or.inl ⟨.bgeu, rfl⟩
  · exact Or.inr fun _ _ => rfl

theorem loadKind_cases (f3 : BitVec 3) : (∃ o : LoadOp, o.f3 = f3) ∨ loadKind f3 = none := by
  unfold loadKind
  split
  · exact Or.inl ⟨.lb, rfl⟩
  · exact Or.inl ⟨.lh, rfl⟩
  · exact Or.inl ⟨.lw, rfl⟩
  · exact Or.inl ⟨.ld, rfl⟩
  · exact Or.inl ⟨.lbu, rfl⟩
  · exact Or.inl ⟨.lhu, rfl⟩
  · exact Or.inl ⟨.lwu, rfl⟩
  · exact Or.inr rfl

theorem storeLen_cases (f3 : BitVec 3) : (∃ o : StoreOp, o.f3 = f3) ∨ storeLen f3 = none := by
  unfold storeLen
  split
  · exact Or.inl ⟨.sb, rfl⟩
  · exact Or.inl ⟨.sh, rfl⟩
  · exact Or.inl ⟨.sw, rfl⟩
  · exact Or.inl ⟨.sd, rfl⟩
  · exact Or.inr rfl

theorem opImm_cases (inst : U32) (f3 : BitVec 3) :
    (∃ o : ImmOp, o.f3 = f3) ∨ (∃ o : ShiftOp, o.f3 = f3 ∧ shiftFunct o = field inst 26 6) ∨
      ∀ a imm, opImm inst f3 a imm = .illegal := by
  unfold opImm
  split
  · exact Or.inl ⟨.addi, rfl⟩
  · exact Or.inl ⟨.slti, rfl⟩
  · exact Or.inl ⟨.sltiu, rfl⟩
  · exact Or.inl ⟨.xori, rfl⟩
  · exact Or.inl ⟨.ori, rfl⟩
  · exact Or.inl ⟨.andi, rfl⟩
  · by_cases h : field inst 26 6 = 0
    · exact Or.inr (Or.inl ⟨.sll, rfl, h.symm⟩)
    · exact Or.inr (Or.inr fun _ _ => if_pos h)
  · split
    next h => exact Or.inr (Or.inl ⟨.srl, rfl, h.symm⟩)
    next h => exact Or.inr (Or.inl ⟨.sra, rfl, h.symm⟩)
    next => exact Or.inr (Or.inr fun _ _ => rfl)

theorem opImm32_cases (inst : U32) (f7 : BitVec 7) (f3 : BitVec 3) :
    f3 = 0 ∨ (∃ o : ShiftOp, o.f7 = f7 ∧ o.f3 = f3) ∨
      ∀ a imm, opImm32 inst f7 f3 a imm = .illegal := by
  unfold opImm32
  split
  · exact Or.inl rfl
  · by_cases h : f7 = 0
    · exact Or.inr (Or.inl ⟨.sll, h.symm, rfl⟩)
    · exact Or.inr (Or.inr fun _ _ => if_pos h)
  · split
    · exact Or.inr (Or.inl ⟨.srl, rfl, rfl⟩)
    · exact Or.inr (Or.inl ⟨.sra, rfl, rfl⟩)
    · exact Or.inr (Or.inr fun _ _ => rfl)
  · exact Or.inr (Or.inr fun _ _ => rfl)

theorem op_cases (f7 : BitVec 7) (f3 : BitVec 3) :
    (∃ o : RegOp, o.f7 = f7 ∧ o.f3 = f3) ∨
      (∃ o : DivOp, o.isW = false ∧ 0b0000001 = f7 ∧ o.f3 = f3) ∨
      ∀ a b, op f7 f3 a b = .illegal := by
  unfold op
  split
  · exact Or.inl ⟨.add, rfl, rfl⟩
  · exact Or.inl ⟨.sub, rfl, rfl⟩
  · exact Or.inl ⟨.sll, rfl, rfl⟩
  · exact Or.inl ⟨.slt, rfl, rfl⟩
  · exact Or.inl ⟨.sltu, rfl, rfl⟩
  · exact Or.inl ⟨.xor, rfl, rfl⟩
  · exact Or.inl ⟨.srl, rfl, rfl⟩
  · exact Or.inl ⟨.sra, rfl, rfl⟩
  · exact Or.inl ⟨.or, rfl, rfl⟩
  · exact Or.inl ⟨.and, rfl, rfl⟩
  · exact Or.inl ⟨.mul, rfl, rfl⟩
  · exact Or.inl ⟨.mulh, rfl, rfl⟩
  · exact Or.inl ⟨.mulhsu, rfl, rfl⟩
  · exact Or.inl ⟨.mulhu, rfl, rfl⟩
  · exact Or.inr (Or.inl ⟨.div, rfl, rfl, rfl⟩)
  · exact Or.inr (Or.inl ⟨.divu, rfl, rfl, rfl⟩)
  · exact Or.inr (Or.inl ⟨.rem, rfl, rfl, rfl⟩)
  · exact Or.inr (Or.inl ⟨.remu, rfl, rfl, rfl⟩)
  · exact Or.inr (Or.inr fun _ _ => rfl)

theorem op32_cases (f7 : BitVec 7) (f3 : BitVec 3) :
    (∃ o : RegWOp, o.f7 = f7 ∧ o.f3 = f3) ∨
      (∃ o : DivOp, o.isW = true ∧ 0b0000001 = f7 ∧ o.f3 = f3) ∨
      ∀ a b, op32 f7 f3 a b = .illegal := by
  unfold op32
  split
  · exact Or.inl ⟨.addw, rfl, rfl⟩
  · exact Or.inl ⟨.subw, rfl, rfl⟩
  · exact Or.inl ⟨.sllw, rfl, rfl⟩
  · exact Or.inl ⟨.srlw, rfl, rfl⟩
  · exact Or.inl ⟨.sraw, rfl, rfl⟩
  · exact Or.inl ⟨.mulw, rfl, rfl⟩
  · exact Or.inr (Or.inl ⟨.divw, rfl, rfl, rfl⟩)
  · exact Or.inr (Or.inl ⟨.divuw, rfl, rfl, rfl⟩)
  · exact Or.inr (Or.inl ⟨.remw, rfl, rfl, rfl⟩)
  · exact Or.inr (Or.inl ⟨.remuw, rfl, rfl, rfl⟩)
  · exact Or.inr (Or.inr fun _ _ => rfl)

end Provework.Rvcore
