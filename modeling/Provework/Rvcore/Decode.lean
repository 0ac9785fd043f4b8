import Provework.Lib.BitField
import Provework.Isa.Rv64
import Provework.Rvcore.Interp

/-!
# Decoding undoes encoding

The interpreter cuts its operands out of the instruction word with shifts and
masks. Here that is compared with the standard formats, both ways: a field of
an encoded word is the operand it was encoded from, and every word *is* the
encoding of its own fields. The second direction is what makes "any other word
of these opcodes" a statement about fields.
-/

namespace Provework.Rvcore

open Provework.Lib Provework.Isa

/-! ## Fields -/

section

variable (f7 : BitVec 7) (rs2 rs1 : BitVec 5) (f3 : BitVec 3) (rd : BitVec 5) (op : BitVec 7)

theorem fields_rType :
    field (rType f7 rs2 rs1 f3 rd op) 0 7 = op ∧ field (rType f7 rs2 rs1 f3 rd op) 7 5 = rd ∧
    field (rType f7 rs2 rs1 f3 rd op) 12 3 = f3 ∧ field (rType f7 rs2 rs1 f3 rd op) 15 5 = rs1 ∧
    field (rType f7 rs2 rs1 f3 rd op) 20 5 = rs2 ∧ field (rType f7 rs2 rs1 f3 rd op) 25 7 = f7 := by
  unfold field rType
  -- push the bit index through shifts and ors once, then look at each bit
  refine ⟨?_, ?_, ?_, ?_, ?_, ?_⟩ <;>
    (ext i hi
     simp only [BitVec.getElem_setWidth, BitVec.getLsbD_ushiftRight, BitVec.getLsbD_or,
      BitVec.getLsbD_shiftLeft, BitVec.getLsbD_setWidth]
     interval_cases i <;> simp)

@[simp] theorem opcode_rType : field (rType f7 rs2 rs1 f3 rd op) 0 7 = op :=
  (fields_rType f7 rs2 rs1 f3 rd op).1
@[simp] theorem rd_rType : field (rType f7 rs2 rs1 f3 rd op) 7 5 = rd :=
  (fields_rType f7 rs2 rs1 f3 rd op).2.1
@[simp] theorem f3_rType : field (rType f7 rs2 rs1 f3 rd op) 12 3 = f3 :=
  (fields_rType f7 rs2 rs1 f3 rd op).2.2.1
@[simp] theorem rs1_rType : field (rType f7 rs2 rs1 f3 rd op) 15 5 = rs1 :=
  (fields_rType f7 rs2 rs1 f3 rd op).2.2.2.1
@[simp] theorem rs2_rType : field (rType f7 rs2 rs1 f3 rd op) 20 5 = rs2 :=
  (fields_rType f7 rs2 rs1 f3 rd op).2.2.2.2.1
@[simp] theorem f7_rType : field (rType f7 rs2 rs1 f3 rd op) 25 7 = f7 :=
  (fields_rType f7 rs2 rs1 f3 rd op).2.2.2.2.2

end

theorem rType_fields (w : U32) :
    rType (field w 25 7) (field w 20 5) (field w 15 5) (field w 12 3) (field w 7 5) (field w 0 7)
      = w := by
  unfold field rType
  ext i hi
  simp only [BitVec.getElem_or, BitVec.getElem_shiftLeft, BitVec.getElem_setWidth,
    BitVec.getLsbD_ushiftRight, BitVec.getLsbD_setWidth]
  interval_cases i <;> simp

/-- A field of a field. -/
theorem extract_field (w : U32) {lo n : Nat} (a b : Nat) (h : a + b ≤ n) :
    (field w lo n).extractLsb' a b = field w (lo + a) b := by
  unfold field
  ext i hi
  simp only [BitVec.getElem_extractLsb', BitVec.getLsbD_setWidth, BitVec.getLsbD_ushiftRight,
    BitVec.getElem_setWidth]
  rw [show lo + (a + i) = lo + a + i by omega]
  simp
  omega

/-! ## Immediates, as bits of the word -/

/-- The S-format immediate. -/
def sImm (w : U32) : BitVec 12 := ((field w 25 7).setWidth 12 <<< 5) ||| (field w 7 5).setWidth 12

/-- Bits 12 to 1 of the B-format offset. -/
def bOff (w : U32) : BitVec 12 :=
  ((field w 31 1).setWidth 12 <<< 11) ||| ((field w 7 1).setWidth 12 <<< 10)
    ||| ((field w 25 6).setWidth 12 <<< 4) ||| (field w 8 4).setWidth 12

/-- Bits 20 to 1 of the J-format offset. -/
def jOff (w : U32) : BitVec 20 :=
  ((field w 31 1).setWidth 20 <<< 19) ||| ((field w 12 8).setWidth 20 <<< 11)
    ||| ((field w 20 1).setWidth 20 <<< 10) ||| (field w 21 10).setWidth 20

theorem immI_eq (w : U32) : immI w = (field w 20 12).signExtend 64 := by
  unfold immI
  rw [sshiftRight_eq_signExtend w 20 (by decide), signExtend_signExtend _ _ (by decide)]
  rfl

theorem immS_eq (w : U32) : immS w = (sImm w).signExtend 64 := by
  have hlow : ((w >>> 7) &&& 0x1f#32).setWidth 64 = ((w >>> 7) &&& 0x1f#32).signExtend 64 := by
    rw [BitVec.signExtend_eq_setWidth_of_msb_false]
    simp [BitVec.msb_eq_getLsbD_last]
  unfold immS
  rw [hlow, ← BitVec.signExtend_or, ← signExtend_signExtend (sImm w) 64 (show 12 ≤ 32 by decide)]
  congr 1
  unfold sImm field
  ext i hi
  simp only [BitVec.getElem_or, BitVec.getElem_and, BitVec.getElem_not, BitVec.getElem_sshiftRight,
    BitVec.getElem_signExtend, BitVec.msb_eq_getLsbD_last, BitVec.getElem_shiftLeft,
    BitVec.getElem_setWidth, BitVec.getLsbD_or, BitVec.getLsbD_shiftLeft,
    BitVec.getLsbD_ushiftRight, BitVec.getLsbD_setWidth]
  interval_cases i <;> simp

theorem immB_eq (w : U32) : immB w = ((bOff w).setWidth 13 <<< 1).signExtend 64 := by
  refine shl_sshr_signExtend 64 (by decide) (by decide) ?_
  unfold bOff field
  ext i hi
  simp only [BitVec.getElem_or, BitVec.getElem_shiftLeft, BitVec.getElem_setWidth,
    BitVec.getLsbD_or, BitVec.getLsbD_shiftLeft, BitVec.getLsbD_ushiftRight,
    BitVec.getLsbD_setWidth]
  interval_cases i <;> simp

theorem immU_eq (w : U32) : immU w = ((field w 12 20).setWidth 32 <<< 12).signExtend 64 := by
  unfold immU field
  congr 1
  ext i hi
  simp only [BitVec.getElem_and, BitVec.getElem_shiftLeft]
  interval_cases i <;> simp

theorem immJ_eq (w : U32) : immJ w = ((jOff w).setWidth 21 <<< 1).signExtend 64 := by
  refine shl_sshr_signExtend 64 (by decide) (by decide) ?_
  unfold jOff field
  ext i hi
  simp only [BitVec.getElem_or, BitVec.getElem_shiftLeft, BitVec.getElem_setWidth,
    BitVec.getLsbD_or, BitVec.getLsbD_shiftLeft, BitVec.getLsbD_ushiftRight,
    BitVec.getLsbD_setWidth]
  interval_cases i <;> simp

/-! ## Immediates of encoded words -/

@[simp] theorem imm_iType (imm : BitVec 12) (rs1 : BitVec 5) (f3 : BitVec 3) (rd : BitVec 5)
    (op : BitVec 7) : field (iType imm rs1 f3 rd op) 20 12 = imm := by
  unfold field iType rType
  ext i hi
  simp only [BitVec.getElem_setWidth, BitVec.getLsbD_ushiftRight, BitVec.getLsbD_or,
    BitVec.getLsbD_shiftLeft, BitVec.getLsbD_setWidth, BitVec.getLsbD_extractLsb']
  interval_cases i <;> simp

@[simp] theorem sImm_sType (imm : BitVec 12) (rs2 rs1 : BitVec 5) (f3 : BitVec 3)
    (op : BitVec 7) : sImm (sType imm rs2 rs1 f3 op) = imm := by
  unfold sImm sType
  rw [f7_rType, rd_rType]
  ext i hi
  simp only [BitVec.getElem_or, BitVec.getElem_shiftLeft, BitVec.getElem_setWidth,
    BitVec.getLsbD_extractLsb']
  interval_cases i <;> simp

/-- The B offset in terms of the two fields that hold it. -/
theorem bOff_eq (w : U32) :
    bOff w = (((field w 25 7).extractLsb' 6 1).setWidth 12 <<< 11)
      ||| (((field w 7 5).extractLsb' 0 1).setWidth 12 <<< 10)
      ||| (((field w 25 7).extractLsb' 0 6).setWidth 12 <<< 4)
      ||| ((field w 7 5).extractLsb' 1 4).setWidth 12 := by
  rw [extract_field w 6 1 (by decide), extract_field w 0 1 (by decide),
    extract_field w 0 6 (by decide), extract_field w 1 4 (by decide)]
  rfl

@[simp] theorem bOff_bType (off : BitVec 12) (rs2 rs1 : BitVec 5) (f3 : BitVec 3)
    (op : BitVec 7) : bOff (bType off rs2 rs1 f3 op) = off := by
  rw [bOff_eq]
  unfold bType
  rw [f7_rType, rd_rType]
  ext i hi
  simp only [BitVec.getElem_or, BitVec.getElem_shiftLeft, BitVec.getElem_setWidth,
    BitVec.getLsbD_append, BitVec.getLsbD_extractLsb']
  interval_cases i <;> simp

theorem fields_uType (imm : BitVec 20) (rd : BitVec 5) (op : BitVec 7) :
    field (uType imm rd op) 0 7 = op ∧ field (uType imm rd op) 7 5 = rd ∧
      field (uType imm rd op) 12 20 = imm := by
  unfold field uType
  refine ⟨?_, ?_, ?_⟩ <;>
    (ext i hi
     simp only [BitVec.getElem_setWidth, BitVec.getLsbD_ushiftRight, BitVec.getLsbD_or,
      BitVec.getLsbD_shiftLeft, BitVec.getLsbD_setWidth]
     interval_cases i <;> simp)

@[simp] theorem opcode_uType (imm : BitVec 20) (rd : BitVec 5) (op : BitVec 7) :
    field (uType imm rd op) 0 7 = op := (fields_uType imm rd op).1
@[simp] theorem rd_uType (imm : BitVec 20) (rd : BitVec 5) (op : BitVec 7) :
    field (uType imm rd op) 7 5 = rd := (fields_uType imm rd op).2.1
@[simp] theorem imm_uType (imm : BitVec 20) (rd : BitVec 5) (op : BitVec 7) :
    field (uType imm rd op) 12 20 = imm := (fields_uType imm rd op).2.2

/-- The J offset in terms of the field that holds it. -/
theorem jOff_eq (w : U32) :
    jOff w = (((field w 12 20).extractLsb' 19 1).setWidth 20 <<< 19)
      ||| (((field w 12 20).extractLsb' 0 8).setWidth 20 <<< 11)
      ||| (((field w 12 20).extractLsb' 8 1).setWidth 20 <<< 10)
      ||| ((field w 12 20).extractLsb' 9 10).setWidth 20 := by
  rw [extract_field w 19 1 (by decide), extract_field w 0 8 (by decide),
    extract_field w 8 1 (by decide), extract_field w 9 10 (by decide)]
  rfl

@[simp] theorem jOff_jType (off : BitVec 20) (rd : BitVec 5) (op : BitVec 7) :
    jOff (jType off rd op) = off := by
  rw [jOff_eq]
  unfold jType
  rw [imm_uType]
  ext i hi
  simp only [BitVec.getElem_or, BitVec.getElem_shiftLeft, BitVec.getElem_setWidth,
    BitVec.getLsbD_or, BitVec.getLsbD_shiftLeft, BitVec.getLsbD_setWidth,
    BitVec.getLsbD_extractLsb']
  interval_cases i <;> simp

/-! ## Every word encodes its fields -/

theorem iType_fields (w : U32) :
    iType (field w 20 12) (field w 15 5) (field w 12 3) (field w 7 5) (field w 0 7) = w := by
  unfold iType
  rw [extract_field w 5 7 (by decide), extract_field w 0 5 (by decide)]
  exact rType_fields w

theorem sType_fields (w : U32) :
    sType (sImm w) (field w 20 5) (field w 15 5) (field w 12 3) (field w 0 7) = w := by
  have hhi : (sImm w).extractLsb' 5 7 = field w 25 7 := by
    unfold sImm
    ext i hi
    simp only [BitVec.getElem_extractLsb', BitVec.getLsbD_or, BitVec.getLsbD_shiftLeft,
      BitVec.getLsbD_setWidth]
    interval_cases i <;> simp
  have hlo : (sImm w).extractLsb' 0 5 = field w 7 5 := by
    unfold sImm
    ext i hi
    simp only [BitVec.getElem_extractLsb', BitVec.getLsbD_or, BitVec.getLsbD_shiftLeft,
      BitVec.getLsbD_setWidth]
    interval_cases i <;> simp
  unfold sType
  rw [hhi, hlo]
  exact rType_fields w

theorem bType_fields (w : U32) :
    bType (bOff w) (field w 20 5) (field w 15 5) (field w 12 3) (field w 0 7) = w := by
  have hhi : (bOff w).extractLsb' 11 1 ++ (bOff w).extractLsb' 4 6 = field w 25 7 := by
    rw [bOff_eq]
    ext i hi
    simp only [BitVec.getElem_append, BitVec.getElem_extractLsb', BitVec.getLsbD_or,
      BitVec.getLsbD_shiftLeft, BitVec.getLsbD_setWidth, BitVec.getLsbD_extractLsb']
    interval_cases i <;> simp
  have hlo : (bOff w).extractLsb' 0 4 ++ (bOff w).extractLsb' 10 1 = field w 7 5 := by
    rw [bOff_eq]
    ext i hi
    simp only [BitVec.getElem_append, BitVec.getElem_extractLsb', BitVec.getLsbD_or,
      BitVec.getLsbD_shiftLeft, BitVec.getLsbD_setWidth, BitVec.getLsbD_extractLsb']
    interval_cases i <;> simp
  unfold bType
  rw [hhi, hlo]
  exact rType_fields w

theorem uType_fields (w : U32) : uType (field w 12 20) (field w 7 5) (field w 0 7) = w := by
  unfold field uType
  ext i hi
  simp only [BitVec.getElem_or, BitVec.getElem_shiftLeft, BitVec.getElem_setWidth,
    BitVec.getLsbD_ushiftRight, BitVec.getLsbD_setWidth]
  interval_cases i <;> simp

theorem jType_fields (w : U32) : jType (jOff w) (field w 7 5) (field w 0 7) = w := by
  unfold jType
  refine Eq.trans (congrArg (uType · (field w 7 5) (field w 0 7)) ?_) (uType_fields w)
  rw [jOff_eq]
  ext i hi
  simp only [BitVec.getElem_or, BitVec.getElem_shiftLeft, BitVec.getElem_setWidth,
    BitVec.getLsbD_or, BitVec.getLsbD_shiftLeft, BitVec.getLsbD_setWidth,
    BitVec.getLsbD_extractLsb']
  interval_cases i <;> simp

end Provework.Rvcore
