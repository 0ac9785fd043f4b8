import Mathlib.Tactic.IntervalCases
import Provework.Isa.Rv64C
import Provework.Rvcore.Conform

/-!
# Compressed instructions mean their expansion

`step_c` re-implements some thirty instructions with its own scrambled
immediates and register fields. `stepC_expands` shows that on every assigned
encoding it does what the 32-bit interpreter does on the expansion, with the
next pc — and so the link value — two bytes on instead of four.

Both sides are brought to one `Machine.perform`: the expansion by
`execute_encode`, the halfword by the decoding lemmas here. Those follow the
source in two steps. First each immediate is rewritten from masked shifts in a
machine word to fields in a word just wide enough (`mask_shl`); then the
fields of an encoded halfword are put back in order.
-/

namespace Provework.Rvcore

open Provework.Lib Provework.Isa

/-! ## Fields of a halfword -/

section

variable (f3 : BitVec 3) (hi : BitVec 1) (r lo : BitVec 5) (op : BitVec 2)

theorem fields_ciType :
    cfield (ciType f3 hi r lo op) 0 2 = op ∧ cfield (ciType f3 hi r lo op) 13 3 = f3 ∧
    cfield (ciType f3 hi r lo op) 12 1 = hi ∧ cfield (ciType f3 hi r lo op) 7 5 = r ∧
    cfield (ciType f3 hi r lo op) 2 5 = lo := by
  unfold cfield ciType
  refine ⟨?_, ?_, ?_, ?_, ?_⟩ <;>
    (ext i hi
     simp only [BitVec.getElem_setWidth, BitVec.getLsbD_ushiftRight, BitVec.getLsbD_or,
      BitVec.getLsbD_shiftLeft, BitVec.getLsbD_setWidth]
     interval_cases i <;> simp)

@[simp] theorem op_ciType : cfield (ciType f3 hi r lo op) 0 2 = op :=
  (fields_ciType f3 hi r lo op).1
@[simp] theorem f3_ciType : cfield (ciType f3 hi r lo op) 13 3 = f3 :=
  (fields_ciType f3 hi r lo op).2.1
@[simp] theorem hi_ciType : cfield (ciType f3 hi r lo op) 12 1 = hi :=
  (fields_ciType f3 hi r lo op).2.2.1
@[simp] theorem rd_ciType : cfield (ciType f3 hi r lo op) 7 5 = r :=
  (fields_ciType f3 hi r lo op).2.2.2.1
@[simp] theorem rs2_ciType : cfield (ciType f3 hi r lo op) 2 5 = lo :=
  (fields_ciType f3 hi r lo op).2.2.2.2

end

section

variable (f3 hi r1 : BitVec 3) (mid : BitVec 2) (r2 : BitVec 3) (op : BitVec 2)

theorem fields_clType :
    cfield (clType f3 hi r1 mid r2 op) 0 2 = op ∧ cfield (clType f3 hi r1 mid r2 op) 13 3 = f3 ∧
    cfield (clType f3 hi r1 mid r2 op) 10 3 = hi ∧ cfield (clType f3 hi r1 mid r2 op) 7 3 = r1 ∧
    cfield (clType f3 hi r1 mid r2 op) 5 2 = mid ∧
    cfield (clType f3 hi r1 mid r2 op) 2 3 = r2 := by
  unfold cfield clType
  refine ⟨?_, ?_, ?_, ?_, ?_, ?_⟩ <;>
    (ext i hi
     simp only [BitVec.getElem_setWidth, BitVec.getLsbD_ushiftRight, BitVec.getLsbD_or,
      BitVec.getLsbD_shiftLeft, BitVec.getLsbD_setWidth]
     interval_cases i <;> simp)

@[simp] theorem op_clType : cfield (clType f3 hi r1 mid r2 op) 0 2 = op :=
  (fields_clType f3 hi r1 mid r2 op).1
@[simp] theorem f3_clType : cfield (clType f3 hi r1 mid r2 op) 13 3 = f3 :=
  (fields_clType f3 hi r1 mid r2 op).2.1
@[simp] theorem hi_clType : cfield (clType f3 hi r1 mid r2 op) 10 3 = hi :=
  (fields_clType f3 hi r1 mid r2 op).2.2.1
@[simp] theorem rs1_clType : cfield (clType f3 hi r1 mid r2 op) 7 3 = r1 :=
  (fields_clType f3 hi r1 mid r2 op).2.2.2.1
@[simp] theorem mid_clType : cfield (clType f3 hi r1 mid r2 op) 5 2 = mid :=
  (fields_clType f3 hi r1 mid r2 op).2.2.2.2.1
@[simp] theorem rs2_clType : cfield (clType f3 hi r1 mid r2 op) 2 3 = r2 :=
  (fields_clType f3 hi r1 mid r2 op).2.2.2.2.2

end

theorem fields_cjType (f3 : BitVec 3) (target : BitVec 11) (op : BitVec 2) :
    cfield (cjType f3 target op) 0 2 = op ∧ cfield (cjType f3 target op) 13 3 = f3 ∧
    cfield (cjType f3 target op) 2 11 = target := by
  unfold cfield cjType
  refine ⟨?_, ?_, ?_⟩ <;>
    (ext i hi
     simp only [BitVec.getElem_setWidth, BitVec.getLsbD_ushiftRight, BitVec.getLsbD_or,
      BitVec.getLsbD_shiftLeft, BitVec.getLsbD_setWidth]
     interval_cases i <;> simp)

/-- A field of a field. -/
theorem extract_cfield (hw : U16) {l n : Nat} (a b : Nat) (h : a + b ≤ n) :
    (cfield hw l n).extractLsb' a b = cfield hw (l + a) b := by
  unfold cfield
  ext i hi
  simp only [BitVec.getElem_extractLsb', BitVec.getLsbD_setWidth, BitVec.getLsbD_ushiftRight,
    BitVec.getElem_setWidth]
  rw [show l + (a + i) = l + a + i by omega]
  simp
  omega

/-- Two adjacent fields are one. -/
theorem append_cfield (hw : U16) (lo m n : Nat) :
    cfield hw (lo + n) m ++ cfield hw lo n = cfield hw lo (m + n) := by
  unfold cfield
  ext i hi
  simp only [BitVec.getElem_append, BitVec.getElem_setWidth, BitVec.getLsbD_ushiftRight]
  split
  · rfl
  · congr 1; omega

theorem creg_eq (r : BitVec 3) : creg r = cr r := by
  revert r
  decide

/-! ## Immediates, as fields -/

theorem mask_eq {n : Nat} {mask : U16} (hm : mask.toNat = 2 ^ n - 1) (hw : U16) (lo : Nat) :
    (hw >>> lo) &&& mask = (cfield hw lo n).setWidth 16 := by
  apply BitVec.eq_of_toNat_eq
  rw [BitVec.toNat_and, hm, Nat.and_two_pow_sub_one_eq_mod, cfield, BitVec.toNat_setWidth,
    BitVec.toNat_setWidth, Nat.mod_eq_of_lt (b := 2 ^ 16)]
  exact Nat.lt_of_le_of_lt (Nat.mod_le _ _) (BitVec.isLt _)

/-- A masked shift moved into place in a wide word is a field moved into place
in a word just wide enough. -/
theorem mask_shl {n : Nat} {m : U16} (hm : m.toNat = 2 ^ n - 1) {w W : Nat} (hw : U16)
    (lo k : Nat) (h : n + k ≤ w) :
    ((hw >>> lo) &&& m).setWidth W <<< k
      = ((cfield hw lo n).setWidth w <<< k).setWidth W := by
  rw [mask_eq hm]
  unfold cfield
  ext i hi
  simp only [BitVec.getElem_shiftLeft, BitVec.getElem_setWidth, BitVec.getLsbD_setWidth,
    BitVec.getLsbD_shiftLeft]
  grind

theorem mask_shl16 {n : Nat} {m : U16} (hm : m.toNat = 2 ^ n - 1) {w : Nat} (hw : U16)
    (lo k : Nat) (h : n + k ≤ w) :
    ((hw >>> lo) &&& m) <<< k = ((cfield hw lo n).setWidth w <<< k).setWidth 16 := by
  rw [← mask_shl hm hw lo k h, BitVec.setWidth_eq]

/-! The offsets as fields, in the source's order of the pieces. -/

/-- `nzuimm[9:2]` of c.addi4spn. -/
def ciwOff (hw : U16) : BitVec 12 :=
  ((cfield hw 11 2).setWidth 12 <<< 4) ||| ((cfield hw 7 4).setWidth 12 <<< 6)
    ||| ((cfield hw 6 1).setWidth 12 <<< 2) ||| ((cfield hw 5 1).setWidth 12 <<< 3)

theorem ciwImm_eq (hw : U16) : ciwImm hw = (ciwOff hw).setWidth 16 := by
  unfold ciwImm ciwOff
  simp (disch := decide) only [mask_shl16 (n := 1) (m := 0x1#16) (w := 12) rfl,
    mask_shl16 (n := 2) (m := 0x3#16) (w := 12) rfl,
    mask_shl16 (n := 4) (m := 0xf#16) (w := 12) rfl, BitVec.setWidth_or]

/-- `uimm[6:2]` of c.lw and c.sw. -/
def clwOff (hw : U16) : BitVec 12 :=
  ((cfield hw 10 3).setWidth 12 <<< 3) ||| ((cfield hw 6 1).setWidth 12 <<< 2)
    ||| ((cfield hw 5 1).setWidth 12 <<< 6)

theorem clwImm_eq (hw : U16) : clwImm hw = (clwOff hw).setWidth 16 := by
  unfold clwImm clwOff
  simp (disch := decide) only [mask_shl16 (n := 1) (m := 0x1#16) (w := 12) rfl,
    mask_shl16 (n := 3) (m := 0x7#16) (w := 12) rfl, BitVec.setWidth_or]

/-- `uimm[7:3]` of c.ld and c.sd. -/
def cldOff (hw : U16) : BitVec 12 :=
  ((cfield hw 10 3).setWidth 12 <<< 3) ||| ((cfield hw 5 2).setWidth 12 <<< 6)

theorem cldImm_eq (hw : U16) : cldImm hw = (cldOff hw).setWidth 16 := by
  unfold cldImm cldOff
  simp (disch := decide) only [mask_shl16 (n := 2) (m := 0x3#16) (w := 12) rfl,
    mask_shl16 (n := 3) (m := 0x7#16) (w := 12) rfl, BitVec.setWidth_or]

/-- `uimm[7:2]` of c.lwsp. -/
def clwspOff (hw : U16) : BitVec 12 :=
  ((cfield hw 12 1).setWidth 12 <<< 5) ||| ((cfield hw 4 3).setWidth 12 <<< 2)
    ||| ((cfield hw 2 2).setWidth 12 <<< 6)

theorem clwspImm_eq (hw : U16) : clwspImm hw = (clwspOff hw).setWidth 16 := by
  unfold clwspImm clwspOff
  simp (disch := decide) only [mask_shl16 (n := 1) (m := 0x1#16) (w := 12) rfl,
    mask_shl16 (n := 2) (m := 0x3#16) (w := 12) rfl,
    mask_shl16 (n := 3) (m := 0x7#16) (w := 12) rfl, BitVec.setWidth_or]

/-- `uimm[8:3]` of c.ldsp. -/
def cldspOff (hw : U16) : BitVec 12 :=
  ((cfield hw 12 1).setWidth 12 <<< 5) ||| ((cfield hw 5 2).setWidth 12 <<< 3)
    ||| ((cfield hw 2 3).setWidth 12 <<< 6)

theorem cldspImm_eq (hw : U16) : cldspImm hw = (cldspOff hw).setWidth 16 := by
  unfold cldspImm cldspOff
  simp (disch := decide) only [mask_shl16 (n := 1) (m := 0x1#16) (w := 12) rfl,
    mask_shl16 (n := 2) (m := 0x3#16) (w := 12) rfl,
    mask_shl16 (n := 3) (m := 0x7#16) (w := 12) rfl, BitVec.setWidth_or]

/-- `uimm[7:2]` of c.swsp. -/
def cswspOff (hw : U16) : BitVec 12 :=
  ((cfield hw 9 4).setWidth 12 <<< 2) ||| ((cfield hw 7 2).setWidth 12 <<< 6)

theorem cswspImm_eq (hw : U16) : cswspImm hw = (cswspOff hw).setWidth 16 := by
  unfold cswspImm cswspOff
  simp (disch := decide) only [mask_shl16 (n := 2) (m := 0x3#16) (w := 12) rfl,
    mask_shl16 (n := 4) (m := 0xf#16) (w := 12) rfl, BitVec.setWidth_or]

/-- `uimm[8:3]` of c.sdsp. -/
def csdspOff (hw : U16) : BitVec 12 :=
  ((cfield hw 10 3).setWidth 12 <<< 3) ||| ((cfield hw 7 3).setWidth 12 <<< 6)

theorem csdspImm_eq (hw : U16) : csdspImm hw = (csdspOff hw).setWidth 16 := by
  unfold csdspImm csdspOff
  simp (disch := decide) only [mask_shl16 (n := 3) (m := 0x7#16) (w := 12) rfl,
    BitVec.setWidth_or]

/-- `off[11:1]` of c.j, with its zero bit. -/
def cjOff (hw : U16) : BitVec 12 :=
  ((cfield hw 12 1).setWidth 12 <<< 11) ||| ((cfield hw 8 1).setWidth 12 <<< 10)
    ||| ((cfield hw 9 2).setWidth 12 <<< 8) ||| ((cfield hw 6 1).setWidth 12 <<< 7)
    ||| ((cfield hw 7 1).setWidth 12 <<< 6) ||| ((cfield hw 2 1).setWidth 12 <<< 5)
    ||| ((cfield hw 11 1).setWidth 12 <<< 4) ||| ((cfield hw 3 3).setWidth 12 <<< 1)

theorem cjImm_eq (hw : U16) : cjImm hw = (cjOff hw).signExtend 64 := by
  refine shl_sshr_eq_signExtend (by decide) (by decide) ?_
  unfold cjOff
  simp (disch := decide) only [mask_shl (n := 1) (m := 0x1#16) (w := 12) rfl,
    mask_shl (n := 2) (m := 0x3#16) (w := 12) rfl,
    mask_shl (n := 3) (m := 0x7#16) (w := 12) rfl, BitVec.setWidth_or]

/-- `off[8:1]` of the branches, with its zero bit. -/
def cbOff (hw : U16) : BitVec 9 :=
  ((cfield hw 12 1).setWidth 9 <<< 8) ||| ((cfield hw 5 2).setWidth 9 <<< 6)
    ||| ((cfield hw 2 1).setWidth 9 <<< 5) ||| ((cfield hw 10 2).setWidth 9 <<< 3)
    ||| ((cfield hw 3 2).setWidth 9 <<< 1)

theorem cbImm_eq (hw : U16) : cbImm hw = (cbOff hw).signExtend 64 := by
  refine shl_sshr_eq_signExtend (by decide) (by decide) ?_
  unfold cbOff
  simp (disch := decide) only [mask_shl (n := 1) (m := 0x1#16) (w := 9) rfl,
    mask_shl (n := 2) (m := 0x3#16) (w := 9) rfl, BitVec.setWidth_or]

/-- `nzimm[9:4]` of c.addi16sp, with its zero bits. -/
def spOff (hw : U16) : BitVec 10 :=
  ((cfield hw 12 1).setWidth 10 <<< 9) ||| ((cfield hw 6 1).setWidth 10 <<< 4)
    ||| ((cfield hw 5 1).setWidth 10 <<< 6) ||| ((cfield hw 3 2).setWidth 10 <<< 7)
    ||| ((cfield hw 2 1).setWidth 10 <<< 5)

theorem addi16spImm_eq (hw : U16) : addi16spImm hw = (spOff hw).signExtend 64 := by
  refine shl_sshr_eq_signExtend (by decide) (by decide) ?_
  unfold spOff
  simp (disch := decide) only [mask_shl (n := 1) (m := 0x1#16) (w := 10) rfl,
    mask_shl (n := 2) (m := 0x3#16) (w := 10) rfl, BitVec.setWidth_or]

/-- `nzimm[17:12]` of c.lui, with its zero bits. -/
def cluiOff (hw : U16) : BitVec 18 :=
  ((cfield hw 12 1).setWidth 18 <<< 17) ||| ((cfield hw 2 5).setWidth 18 <<< 12)

theorem cluiImm_eq (hw : U16) : cluiImm hw = (cluiOff hw).signExtend 64 := by
  refine shl_sshr_eq_signExtend (by decide) (by decide) ?_
  unfold cluiOff
  simp (disch := decide) only [mask_shl (n := 1) (m := 0x1#16) (w := 18) rfl,
    mask_shl (n := 5) (m := 0x1f#16) (w := 18) rfl, BitVec.setWidth_or]

/-- The 6-bit immediate of the CI format. -/
def ci6 (hw : U16) : BitVec 6 := cfield hw 12 1 ++ cfield hw 2 5

theorem imm6_eq (hw : U16) : imm6 hw = (ci6 hw).signExtend 64 := by
  have h : ∀ (a : BitVec 1) (b : BitVec 5),
      (a.setWidth 16).setWidth 64 * (-32#64) + (b.setWidth 16).setWidth 64
        = (a ++ b).signExtend 64 := by decide
  unfold imm6
  rw [mask_eq (n := 1) rfl, mask_eq (n := 5) rfl]
  exact h _ _

theorem cshamt_eq (hw : U16) : cshamt hw = (ci6 hw).setWidth 16 := by
  have h : ∀ (a : BitVec 1) (b : BitVec 5),
      (a.setWidth 16 <<< 5) ||| b.setWidth 16 = (a ++ b).setWidth 16 := by decide
  unfold cshamt
  rw [mask_eq (n := 1) rfl, mask_eq (n := 5) rfl]
  exact h _ _

/-! ## Immediates of encoded halfwords -/

theorem ci6_ciImm (f3 : BitVec 3) (r : BitVec 5) (imm : BitVec 6) (op : BitVec 2) :
    ci6 (ciImm f3 r imm op) = imm := by
  unfold ci6 ciImm
  rw [hi_ciType, rs2_ciType]
  revert imm
  decide

theorem ci6_cbImmType (f2 : BitVec 2) (rd : BitVec 3) (imm : BitVec 6) :
    ci6 (cbImmType f2 rd imm) = imm := by
  unfold ci6 cbImmType
  rw [← extract_cfield _ (l := 10) (n := 3) 2 1 (by decide), hi_clType,
    ← append_cfield _ 2 2 3, mid_clType, rs2_clType]
  revert f2 imm
  decide

theorem ciwOff_addi4spn (rd : BitVec 3) (uimm : BitVec 8) :
    ciwOff (CInstr.addi4spn rd uimm).encode = scaled uimm 2 := by
  unfold ciwOff cfield CInstr.encode clType scaled
  ext i hi
  simp only [BitVec.getElem_or, BitVec.getElem_shiftLeft, BitVec.getElem_setWidth,
    BitVec.getLsbD_or, BitVec.getLsbD_shiftLeft, BitVec.getLsbD_ushiftRight,
    BitVec.getLsbD_setWidth, BitVec.getLsbD_append, BitVec.getLsbD_extractLsb']
  interval_cases i <;> simp

theorem clwOff_clWord (f3 r2 r1 : BitVec 3) (uimm : BitVec 5) :
    clwOff (clWord f3 r2 r1 uimm) = scaled uimm 2 := by
  unfold clwOff clWord
  rw [hi_clType, ← extract_cfield _ (l := 5) (n := 2) 1 1 (by decide),
    ← extract_cfield _ (l := 5) (n := 2) 0 1 (by decide), mid_clType]
  revert uimm
  decide

theorem cldOff_clDouble (f3 r2 r1 : BitVec 3) (uimm : BitVec 5) :
    cldOff (clDouble f3 r2 r1 uimm) = scaled uimm 3 := by
  unfold cldOff clDouble
  rw [hi_clType, mid_clType]
  revert uimm
  decide

theorem clwspOff_lwsp (rd : BitVec 5) (uimm : BitVec 6) :
    clwspOff (CInstr.lwsp rd uimm).encode = scaled uimm 2 := by
  unfold clwspOff CInstr.encode
  rw [hi_ciType, ← extract_cfield _ (l := 2) (n := 5) 2 3 (by decide),
    ← extract_cfield _ (l := 2) (n := 5) 0 2 (by decide), rs2_ciType]
  revert uimm
  decide

theorem cldspOff_ldsp (rd : BitVec 5) (uimm : BitVec 6) :
    cldspOff (CInstr.ldsp rd uimm).encode = scaled uimm 3 := by
  unfold cldspOff CInstr.encode
  rw [hi_ciType, ← extract_cfield _ (l := 2) (n := 5) 3 2 (by decide),
    ← extract_cfield _ (l := 2) (n := 5) 0 3 (by decide), rs2_ciType]
  revert uimm
  decide

theorem cswspOff_swsp (rs2 : BitVec 5) (uimm : BitVec 6) :
    cswspOff (CInstr.swsp rs2 uimm).encode = scaled uimm 2 := by
  unfold cswspOff CInstr.encode
  rw [← append_cfield _ 9 1 3, hi_ciType, ← extract_cfield _ (l := 7) (n := 5) 2 3 (by decide),
    ← extract_cfield _ (l := 7) (n := 5) 0 2 (by decide), rd_ciType]
  revert uimm
  decide

theorem csdspOff_sdsp (rs2 : BitVec 5) (uimm : BitVec 6) :
    csdspOff (CInstr.sdsp rs2 uimm).encode = scaled uimm 3 := by
  unfold csdspOff CInstr.encode
  rw [← append_cfield _ 10 1 2, hi_ciType, ← extract_cfield _ (l := 7) (n := 5) 3 2 (by decide),
    ← extract_cfield _ (l := 7) (n := 5) 0 3 (by decide), rd_ciType]
  revert uimm
  decide

theorem spOff_addi16sp (imm : BitVec 6) :
    spOff (CInstr.addi16sp imm).encode = imm.setWidth 10 <<< 4 := by
  revert imm
  decide

theorem cluiOff_ciImm (f3 : BitVec 3) (rd : BitVec 5) (imm : BitVec 6) (op : BitVec 2) :
    cluiOff (ciImm f3 rd imm op) = imm.setWidth 18 <<< 12 := by
  unfold cluiOff ciImm
  rw [hi_ciType, rs2_ciType]
  revert imm
  decide

theorem cbOff_cbType (f3 rs1 : BitVec 3) (off : BitVec 8) :
    cbOff (cbType f3 rs1 off) = off.setWidth 9 <<< 1 := by
  unfold cbOff cbType
  rw [← extract_cfield _ (l := 10) (n := 3) 2 1 (by decide),
    ← extract_cfield _ (l := 10) (n := 3) 0 2 (by decide), hi_clType, mid_clType,
    ← extract_cfield _ (l := 2) (n := 3) 0 1 (by decide),
    ← extract_cfield _ (l := 2) (n := 3) 1 2 (by decide), rs2_clType]
  revert off
  decide

theorem cjOff_cjType (f3 : BitVec 3) (off : BitVec 11) (op : BitVec 2) :
    cjOff (cjType f3 (cjTarget off) op) = off.setWidth 12 <<< 1 := by
  unfold cjOff
  rw [← extract_cfield _ (l := 2) (n := 11) 10 1 (by decide),
    ← extract_cfield _ (l := 2) (n := 11) 6 1 (by decide),
    ← extract_cfield _ (l := 2) (n := 11) 7 2 (by decide),
    ← extract_cfield _ (l := 2) (n := 11) 4 1 (by decide),
    ← extract_cfield _ (l := 2) (n := 11) 5 1 (by decide),
    ← extract_cfield _ (l := 2) (n := 11) 0 1 (by decide),
    ← extract_cfield _ (l := 2) (n := 11) 9 1 (by decide),
    ← extract_cfield _ (l := 2) (n := 11) 1 3 (by decide), (fields_cjType _ _ _).2.2]
  unfold cjTarget
  ext i hi
  simp only [BitVec.getElem_or, BitVec.getElem_shiftLeft, BitVec.getElem_setWidth,
    BitVec.getLsbD_or, BitVec.getLsbD_shiftLeft, BitVec.getLsbD_setWidth,
    BitVec.getLsbD_extractLsb']
  interval_cases i <;> simp

/-! ## Values -/

/-- An unsigned offset below `2 ^ 11` is the same zero- and sign-extended. -/
theorem offset_eq {w k : Nat} {uimm : BitVec w} {v : U16} {x : BitVec 12} (hv : v = x.setWidth 16)
    (hx : x = scaled uimm k) (h : w + k < 12) :
    v.setWidth 64 = (scaled uimm k).signExtend 64 := by
  have hmsb : (scaled uimm k).msb = false := by
    rw [scaled, BitVec.msb_eq_getLsbD_last]
    simp only [BitVec.getLsbD_shiftLeft, BitVec.getLsbD_setWidth]
    rw [BitVec.getLsbD_of_ge uimm _ (by omega)]
    simp
  rw [hv, hx, BitVec.signExtend_eq_setWidth_of_msb_false hmsb]
  apply BitVec.eq_of_toNat_eq
  have := (scaled uimm k).isLt
  simp only [BitVec.toNat_setWidth]
  omega

theorem addi_eval (a : U64) (imm : BitVec 12) :
    ImmOp.addi.eval a (sx imm) = a + imm.signExtend 64 :=
  (add_eq_ofInt a _).symm

theorem imm6_ciImm (f3 : BitVec 3) (r : BitVec 5) (imm : BitVec 6) (op : BitVec 2) :
    imm6 (ciImm f3 r imm op) = (imm.signExtend 12).signExtend 64 := by
  rw [imm6_eq, ci6_ciImm, signExtend_signExtend imm 64 (by decide)]

theorem imm6_cbImmType (f2 : BitVec 2) (rd : BitVec 3) (imm : BitVec 6) :
    imm6 (cbImmType f2 rd imm) = (imm.signExtend 12).signExtend 64 := by
  rw [imm6_eq, ci6_cbImmType, signExtend_signExtend imm 64 (by decide)]

theorem toNat_cshamt {hw : U16} {shamt : BitVec 6} (h : ci6 hw = shamt) :
    (cshamt hw).toNat = shamt.toNat := by
  have := shamt.isLt
  rw [cshamt_eq, h, BitVec.toNat_setWidth]
  omega

theorem cshamt_ne_zero {hw : U16} {shamt : BitVec 6} (h : ci6 hw = shamt) (hs : shamt ≠ 0) :
    cshamt hw ≠ 0 := by
  intro h0
  apply hs
  apply BitVec.eq_of_toNat_eq
  rw [← toNat_cshamt h, h0]
  rfl

theorem cshamt_eq_zero {hw : U16} (h : ci6 hw = 0) : cshamt hw = 0 := by
  apply BitVec.eq_of_toNat_eq
  rw [toNat_cshamt h]
  rfl

/-- `jalr` with a zero offset. -/
theorem jalr_zero (a : U64) :
    a &&& ~~~1#64 = BitVec.ofInt 64 ((a.toInt + (0 : BitVec 12).toInt) / 2 * 2) := by
  rw [← and_not_one_eq_ofInt]
  simp

section

variable (m : Machine) (pc : U64)

/-- The expansion `i` at `pc`, two bytes long. -/
def Machine.expanded (m : Machine) (pc : U64) (i : Instr) : Outcome :=
  m.perform (i.effect m.cpu.x pc (pc + 2))

/-! ## Quadrant 0 -/

theorem stepC_addi4spn (rd : BitVec 3) (uimm : BitVec 8) (h : uimm ≠ 0) :
    stepC m pc (CInstr.addi4spn rd uimm).encode
      = m.expanded pc (.opImm .addi (cr rd) 2 (scaled uimm 2)) := by
  have himm := ciwImm_eq (CInstr.addi4spn rd uimm).encode
  have hoff := offset_eq himm (ciwOff_addi4spn rd uimm) (by decide)
  have hall : ∀ u : BitVec 8, u ≠ 0 → (scaled u 2).setWidth 16 ≠ 0 := by decide
  have hne : ciwImm (CInstr.addi4spn rd uimm).encode ≠ 0 := by
    rw [himm, ciwOff_addi4spn]
    exact hall uimm h
  simp only [CInstr.encode] at hoff hne ⊢
  simp only [stepC, stepC0, op_clType, f3_clType, rs2_clType, creg_eq, hoff, hne, if_false,
    Machine.expanded, Instr.effect, addi_eval]
  rfl

theorem stepC_lw (rd rs1 : BitVec 3) (uimm : BitVec 5) :
    stepC m pc (CInstr.lw rd rs1 uimm).encode
      = m.expanded pc (.load .lw (cr rd) (cr rs1) (scaled uimm 2)) := by
  have hoff := offset_eq (clwImm_eq _) (clwOff_clWord 0b010 rd rs1 uimm) (by decide)
  simp only [CInstr.encode, clWord] at hoff ⊢
  simp only [stepC, stepC0, op_clType, f3_clType, rs2_clType, rs1_clType, creg_eq, hoff,
    Machine.expanded, Instr.effect, add_signExtend]
  rfl

theorem stepC_ld (rd rs1 : BitVec 3) (uimm : BitVec 5) :
    stepC m pc (CInstr.ld rd rs1 uimm).encode
      = m.expanded pc (.load .ld (cr rd) (cr rs1) (scaled uimm 3)) := by
  have hoff := offset_eq (cldImm_eq _) (cldOff_clDouble 0b011 rd rs1 uimm) (by decide)
  simp only [CInstr.encode, clDouble] at hoff ⊢
  simp only [stepC, stepC0, op_clType, f3_clType, rs2_clType, rs1_clType, creg_eq, hoff,
    Machine.expanded, Instr.effect, add_signExtend]
  rfl

theorem stepC_sw (rs2 rs1 : BitVec 3) (uimm : BitVec 5) :
    stepC m pc (CInstr.sw rs2 rs1 uimm).encode
      = m.expanded pc (.store .sw (cr rs2) (cr rs1) (scaled uimm 2)) := by
  have hoff := offset_eq (clwImm_eq _) (clwOff_clWord 0b110 rs2 rs1 uimm) (by decide)
  simp only [CInstr.encode, clWord] at hoff ⊢
  simp only [stepC, stepC0, op_clType, f3_clType, rs2_clType, rs1_clType, creg_eq, hoff,
    Machine.expanded, Instr.effect, add_signExtend]
  rfl

theorem stepC_sd (rs2 rs1 : BitVec 3) (uimm : BitVec 5) :
    stepC m pc (CInstr.sd rs2 rs1 uimm).encode
      = m.expanded pc (.store .sd (cr rs2) (cr rs1) (scaled uimm 3)) := by
  have hoff := offset_eq (cldImm_eq _) (cldOff_clDouble 0b111 rs2 rs1 uimm) (by decide)
  simp only [CInstr.encode, clDouble] at hoff ⊢
  simp only [stepC, stepC0, op_clType, f3_clType, rs2_clType, rs1_clType, creg_eq, hoff,
    Machine.expanded, Instr.effect, add_signExtend]
  rfl

/-! ## Quadrant 1 -/

theorem stepC_addi (rd : BitVec 5) (imm : BitVec 6) (hrd : rd ≠ 0) :
    stepC m pc (CInstr.addi rd imm).encode
      = m.expanded pc (.opImm .addi rd rd (imm.signExtend 12)) := by
  have himm := imm6_ciImm 0b000 rd imm 0b01
  simp only [CInstr.encode, ciImm] at himm ⊢
  simp only [stepC, stepC1, op_ciType, f3_ciType, rd_ciType, himm, Machine.expanded,
    Instr.effect, addi_eval, hrd, ne_eq, not_false_eq_true, if_true]
  rfl

theorem stepC_addiw (rd : BitVec 5) (imm : BitVec 6) (hrd : rd ≠ 0) :
    stepC m pc (CInstr.addiw rd imm).encode
      = m.expanded pc (.addiw rd rd (imm.signExtend 12)) := by
  have himm := imm6_ciImm 0b001 rd imm 0b01
  have hval := Alu.value.inj (opImm32_addiw 0 0 (m.cpu.x rd) (imm.signExtend 12))
  simp only [CInstr.encode, ciImm] at himm ⊢
  simp only [stepC, stepC1, op_ciType, f3_ciType, rd_ciType, himm, Machine.expanded,
    Instr.effect, hrd, if_false, ← hval]
  rfl

theorem stepC_li (hx0 : m.cpu.x 0 = 0) (rd : BitVec 5) (imm : BitVec 6) :
    stepC m pc (CInstr.li rd imm).encode
      = m.expanded pc (.opImm .addi rd 0 (imm.signExtend 12)) := by
  have himm := imm6_ciImm 0b010 rd imm 0b01
  simp only [CInstr.encode, ciImm] at himm ⊢
  simp only [stepC, stepC1, op_ciType, f3_ciType, rd_ciType, himm, Machine.expanded,
    Instr.effect, addi_eval, hx0]
  rw [show (0 : U64) + _ = _ from BitVec.zero_add _]
  rfl

theorem stepC_addi16sp (imm : BitVec 6) (h : imm ≠ 0) :
    stepC m pc (CInstr.addi16sp imm).encode
      = m.expanded pc (.opImm .addi 2 2 (imm.signExtend 12 <<< 4)) := by
  have hall : ∀ i : BitVec 6, (i.setWidth 10 <<< 4).signExtend 64
      = (i.signExtend 12 <<< 4).signExtend 64 ∧
      (i ≠ 0 → (i.setWidth 10 <<< 4).signExtend 64 ≠ 0) := by decide
  have himm := addi16spImm_eq (CInstr.addi16sp imm).encode
  rw [spOff_addi16sp] at himm
  have hne : addi16spImm (CInstr.addi16sp imm).encode ≠ 0 := himm ▸ (hall imm).2 h
  rw [(hall imm).1] at himm
  simp only [CInstr.encode] at himm hne ⊢
  simp only [stepC, stepC1, op_ciType, f3_ciType, rd_ciType, hne, if_false, if_true]
  simp only [himm, Machine.expanded, Instr.effect, addi_eval]
  rfl

theorem stepC_lui (rd : BitVec 5) (imm : BitVec 6) (hrd : rd ≠ 0) (hsp : rd ≠ 2) (h : imm ≠ 0) :
    stepC m pc (CInstr.lui rd imm).encode = m.expanded pc (.lui rd (imm.signExtend 20)) := by
  have hall : ∀ i : BitVec 6, i ≠ 0 → (i.setWidth 18 <<< 12).signExtend 64 ≠ 0 := by decide
  have himm := cluiImm_eq (ciImm 0b011 rd imm 0b01)
  rw [cluiOff_ciImm] at himm
  have hne : cluiImm (ciImm 0b011 rd imm 0b01) ≠ 0 := himm ▸ hall imm h
  rw [signExtend_shiftLeft 64 (by decide)] at himm
  simp only [CInstr.encode, ciImm] at himm hne ⊢
  simp only [stepC, stepC1, op_ciType, f3_ciType, rd_ciType, hrd, hsp, hne, if_false]
  simp only [himm, Machine.expanded, Instr.effect,
    BitVec.toInt_signExtend_of_le (show 6 ≤ 20 by decide)]
  rfl

/-- Bits 11:10 pick within the arithmetic group, bit 12 is the immediate's. -/
theorem f2_clType (f3 : BitVec 3) (b : BitVec 1) (f2 : BitVec 2) (r1 : BitVec 3) (mid : BitVec 2)
    (r2 : BitVec 3) (op : BitVec 2) :
    cfield (clType f3 (b ++ f2) r1 mid r2 op) 10 2 = f2 ∧
      cfield (clType f3 (b ++ f2) r1 mid r2 op) 12 1 = b := by
  rw [← extract_cfield _ (l := 10) (n := 3) 0 2 (by decide),
    ← extract_cfield _ (l := 10) (n := 3) 2 1 (by decide), hi_clType]
  revert b f2
  decide

theorem stepC_srli (rd : BitVec 3) (shamt : BitVec 6) (h : shamt ≠ 0) :
    stepC m pc (CInstr.srli rd shamt).encode
      = m.expanded pc (.shiftImm .srl (cr rd) (cr rd) shamt) := by
  have h6 := ci6_cbImmType 0b00 rd shamt
  have hk := toNat_cshamt h6
  have hne := cshamt_ne_zero h6 h
  simp only [CInstr.encode, cbImmType] at hk hne ⊢
  simp only [stepC, stepC1, stepC1Arith, op_clType, f3_clType, (f2_clType _ _ _ _ _ _ _).1,
    rs1_clType, creg_eq, hne, if_false, hk, wrappingShr_eq _ shamt.isLt]
  rfl

theorem stepC_srai (rd : BitVec 3) (shamt : BitVec 6) (h : shamt ≠ 0) :
    stepC m pc (CInstr.srai rd shamt).encode
      = m.expanded pc (.shiftImm .sra (cr rd) (cr rd) shamt) := by
  have h6 := ci6_cbImmType 0b01 rd shamt
  have hk := toNat_cshamt h6
  have hne := cshamt_ne_zero h6 h
  simp only [CInstr.encode, cbImmType] at hk hne ⊢
  simp only [stepC, stepC1, stepC1Arith, op_clType, f3_clType, (f2_clType _ _ _ _ _ _ _).1,
    rs1_clType, creg_eq, hne, if_false, hk, sshiftRight_eq]
  rfl

theorem stepC_andi (rd : BitVec 3) (imm : BitVec 6) :
    stepC m pc (CInstr.andi rd imm).encode
      = m.expanded pc (.opImm .andi (cr rd) (cr rd) (imm.signExtend 12)) := by
  have himm := imm6_cbImmType 0b10 rd imm
  simp only [CInstr.encode, cbImmType] at himm ⊢
  simp only [stepC, stepC1, stepC1Arith, op_clType, f3_clType, (f2_clType _ _ _ _ _ _ _).1,
    rs1_clType, creg_eq, himm]
  rfl

theorem stepC_arith (op : CArithOp) (rd rs2 : BitVec 3) :
    stepC m pc (CInstr.arith op rd rs2).encode = m.expanded pc (op.instr (cr rd) (cr rs2)) := by
  simp only [CInstr.encode, stepC, stepC1, stepC1Arith, op_clType, f3_clType,
    f2_clType, rs1_clType, mid_clType, rs2_clType, creg_eq]
  cases op with
  | sub => exact congrArg (m.retire _ · _) (Alu.value.inj (op_eq .sub _ _))
  | xor => rfl
  | or => rfl
  | and => rfl
  | subw => exact congrArg (m.retire _ · _) (Alu.value.inj (op32_eq .subw _ _))
  | addw => exact congrArg (m.retire _ · _) (Alu.value.inj (op32_eq .addw _ _))

theorem stepC_j (off : BitVec 11) :
    stepC m pc (CInstr.j off).encode = m.expanded pc (.jal 0 (off.signExtend 20)) := by
  have himm := cjImm_eq (cjType 0b101 (cjTarget off) 0b01)
  rw [cjOff_cjType, signExtend_shiftLeft 64 (by decide)] at himm
  obtain ⟨hop, hf3, _⟩ := fields_cjType 0b101 (cjTarget off) 0b01
  simp only [CInstr.encode, stepC, stepC1, hop, hf3, himm, add_ofInt, Machine.expanded,
    Instr.effect, BitVec.toInt_signExtend_of_le (show 11 ≤ 20 by decide)]
  rfl

/-- The offset of a branch, back from its encoding. -/
theorem cbImm_cbType (f3 rs1 : BitVec 3) (off : BitVec 8) :
    cbImm (cbType f3 rs1 off) = BitVec.ofInt 64 (off.toInt * 2 ^ 1) := by
  rw [cbImm_eq, cbOff_cbType, signExtend_shiftLeft 64 (by decide)]

theorem stepC_beqz (hx0 : m.cpu.x 0 = 0) (rs1 : BitVec 3) (off : BitVec 8) :
    stepC m pc (CInstr.beqz rs1 off).encode
      = m.expanded pc (.branch .beq (cr rs1) 0 (off.signExtend 12)) := by
  have himm := cbImm_cbType 0b110 rs1 off
  simp only [CInstr.encode, cbType] at himm ⊢
  simp only [stepC, stepC1, op_clType, f3_clType, rs1_clType, creg_eq, himm, add_ofInt,
    Machine.expanded, Instr.effect, BranchOp.Taken, hx0,
    BitVec.toInt_signExtend_of_le (show 8 ≤ 12 by decide)]
  rfl

theorem stepC_bnez (hx0 : m.cpu.x 0 = 0) (rs1 : BitVec 3) (off : BitVec 8) :
    stepC m pc (CInstr.bnez rs1 off).encode
      = m.expanded pc (.branch .bne (cr rs1) 0 (off.signExtend 12)) := by
  have himm := cbImm_cbType 0b111 rs1 off
  simp only [CInstr.encode, cbType] at himm ⊢
  simp only [stepC, stepC1, op_clType, f3_clType, rs1_clType, creg_eq, himm, add_ofInt,
    Machine.expanded, Instr.effect, BranchOp.Taken, hx0,
    BitVec.toInt_signExtend_of_le (show 8 ≤ 12 by decide)]
  rfl

/-! ## Quadrant 2 -/

theorem stepC_slli (rd : BitVec 5) (shamt : BitVec 6) (hrd : rd ≠ 0) :
    stepC m pc (CInstr.slli rd shamt).encode = m.expanded pc (.shiftImm .sll rd rd shamt) := by
  have hk := toNat_cshamt (ci6_ciImm 0b000 rd shamt 0b10)
  simp only [CInstr.encode, ciImm] at hk ⊢
  simp only [stepC, stepC2, op_ciType, f3_ciType, rd_ciType, hk, wrappingShl_eq _ shamt.isLt,
    hrd, ne_eq, not_false_eq_true, if_true]
  rfl

theorem stepC_lwsp (rd : BitVec 5) (uimm : BitVec 6) (hrd : rd ≠ 0) :
    stepC m pc (CInstr.lwsp rd uimm).encode
      = m.expanded pc (.load .lw rd 2 (scaled uimm 2)) := by
  have hoff := offset_eq (clwspImm_eq _) (clwspOff_lwsp rd uimm) (by decide)
  simp only [CInstr.encode] at hoff ⊢
  simp only [stepC, stepC2, op_ciType, f3_ciType, rd_ciType, hrd, if_false, hoff,
    Machine.expanded, Instr.effect, add_signExtend]
  rfl

theorem stepC_ldsp (rd : BitVec 5) (uimm : BitVec 6) (hrd : rd ≠ 0) :
    stepC m pc (CInstr.ldsp rd uimm).encode
      = m.expanded pc (.load .ld rd 2 (scaled uimm 3)) := by
  have hoff := offset_eq (cldspImm_eq _) (cldspOff_ldsp rd uimm) (by decide)
  simp only [CInstr.encode] at hoff ⊢
  simp only [stepC, stepC2, op_ciType, f3_ciType, rd_ciType, hrd, if_false, hoff,
    Machine.expanded, Instr.effect, add_signExtend]
  rfl

theorem stepC_jr (rs1 : BitVec 5) (h : rs1 ≠ 0) :
    stepC m pc (CInstr.jr rs1).encode = m.expanded pc (.jalr 0 rs1 0) := by
  simp only [CInstr.encode, stepC, stepC2, op_ciType, f3_ciType, rd_ciType, hi_ciType,
    rs2_ciType, h, if_false, if_true, jalr_zero]
  rfl

theorem stepC_mv (hx0 : m.cpu.x 0 = 0) (rd rs2 : BitVec 5) (hrd : rd ≠ 0) (hrs2 : rs2 ≠ 0) :
    stepC m pc (CInstr.mv rd rs2).encode = m.expanded pc (.reg .add rd 0 rs2) := by
  have hval : RegOp.add.eval 0 (m.cpu.x rs2) = m.cpu.x rs2 :=
    (Alu.value.inj (op_eq .add 0 (m.cpu.x rs2))).symm.trans (BitVec.zero_add _)
  simp only [CInstr.encode, stepC, stepC2, op_ciType, f3_ciType, rd_ciType, hi_ciType,
    rs2_ciType, hrd, hrs2, if_false, if_true, ne_eq, not_false_eq_true, Machine.expanded,
    Instr.effect, hx0, hval]
  rfl

theorem stepC_jalr (rs1 : BitVec 5) (h : rs1 ≠ 0) :
    stepC m pc (CInstr.jalr rs1).encode = m.expanded pc (.jalr 1 rs1 0) := by
  simp only [CInstr.encode, stepC, stepC2, op_ciType, f3_ciType, rd_ciType, hi_ciType,
    rs2_ciType, h, if_false, if_true, jalr_zero]
  rfl

theorem stepC_add (rd rs2 : BitVec 5) (hrd : rd ≠ 0) (hrs2 : rs2 ≠ 0) :
    stepC m pc (CInstr.add rd rs2).encode = m.expanded pc (.reg .add rd rd rs2) := by
  have hval := Alu.value.inj (op_eq .add (m.cpu.x rd) (m.cpu.x rs2))
  simp only [CInstr.encode, stepC, stepC2, op_ciType, f3_ciType, rd_ciType, hi_ciType,
    rs2_ciType, hrd, hrs2, if_false, ne_eq, not_false_eq_true, if_true, Machine.expanded,
    Instr.effect, ← hval]
  rfl

theorem stepC_swsp (rs2 : BitVec 5) (uimm : BitVec 6) :
    stepC m pc (CInstr.swsp rs2 uimm).encode
      = m.expanded pc (.store .sw rs2 2 (scaled uimm 2)) := by
  have hoff := offset_eq (cswspImm_eq _) (cswspOff_swsp rs2 uimm) (by decide)
  simp only [CInstr.encode] at hoff ⊢
  simp only [stepC, stepC2, op_ciType, f3_ciType, rs2_ciType, hoff, Machine.expanded,
    Instr.effect, add_signExtend]
  rfl

theorem stepC_sdsp (rs2 : BitVec 5) (uimm : BitVec 6) :
    stepC m pc (CInstr.sdsp rs2 uimm).encode
      = m.expanded pc (.store .sd rs2 2 (scaled uimm 3)) := by
  have hoff := offset_eq (csdspImm_eq _) (csdspOff_sdsp rs2 uimm) (by decide)
  simp only [CInstr.encode] at hoff ⊢
  simp only [stepC, stepC2, op_ciType, f3_ciType, rs2_ciType, hoff, Machine.expanded,
    Instr.effect, add_signExtend]
  rfl

end

/-! ## All of them -/

/-- A compressed instruction has the effect of what it stands for, or halts. -/
theorem stepC_performs (m : Machine) (hx0 : m.cpu.x 0 = 0) (pc : U64) {c : CInstr} (hc : c.Legal) :
    stepC m pc c.encode = c.instr.elim (some (m, .ok true)) (m.expanded pc) := by
  cases c with
  | addi4spn rd uimm => exact stepC_addi4spn m pc rd uimm hc
  | lw rd rs1 uimm => exact stepC_lw m pc rd rs1 uimm
  | ld rd rs1 uimm => exact stepC_ld m pc rd rs1 uimm
  | sw rs2 rs1 uimm => exact stepC_sw m pc rs2 rs1 uimm
  | sd rs2 rs1 uimm => exact stepC_sd m pc rs2 rs1 uimm
  | addi rd imm => exact stepC_addi m pc rd imm hc.1
  | addiw rd imm => exact stepC_addiw m pc rd imm hc
  | li rd imm => exact stepC_li m pc hx0 rd imm
  | addi16sp imm => exact stepC_addi16sp m pc imm hc
  | lui rd imm => exact stepC_lui m pc rd imm hc.1 hc.2.1 hc.2.2
  | srli rd shamt => exact stepC_srli m pc rd shamt hc
  | srai rd shamt => exact stepC_srai m pc rd shamt hc
  | andi rd imm => exact stepC_andi m pc rd imm
  | arith op rd rs2 => exact stepC_arith m pc op rd rs2
  | j off => exact stepC_j m pc off
  | beqz rs1 off => exact stepC_beqz m pc hx0 rs1 off
  | bnez rs1 off => exact stepC_bnez m pc hx0 rs1 off
  | slli rd shamt => exact stepC_slli m pc rd shamt hc.1
  | lwsp rd uimm => exact stepC_lwsp m pc rd uimm hc
  | ldsp rd uimm => exact stepC_ldsp m pc rd uimm hc
  | jr rs1 => exact stepC_jr m pc rs1 hc
  | mv rd rs2 => exact stepC_mv m pc hx0 rd rs2 hc.1 hc.2
  | ebreak => rfl
  | jalr rs1 => exact stepC_jalr m pc rs1 hc
  | add rd rs2 => exact stepC_add m pc rd rs2 hc.1 hc.2
  | swsp rs2 uimm => exact stepC_swsp m pc rs2 uimm
  | sdsp rs2 uimm => exact stepC_sdsp m pc rs2 uimm

theorem execute_ebreak (m : Machine) (pc next : U64) (syscalls : Bool) :
    execute m pc next ebreakWord syscalls none = some (m, .ok true) := by
  have hcsr : field ebreakWord 20 12 = 1 := imm_iType _ _ _ _ _
  unfold execute system
  rw [hcsr]
  rfl

/-- **Compressed instructions mean their expansion**: on every assigned
encoding, `step_c` is the 32-bit interpreter on the expansion with the next
instruction two bytes on. -/
theorem stepC_expands (m : Machine) (hx0 : m.cpu.x 0 = 0) (pc : U64) (c : CInstr) (hc : c.Legal)
    (syscalls : Bool) :
    stepC m pc c.encode = execute m pc (pc + 2) c.expand syscalls none := by
  rw [stepC_performs m hx0 pc hc, CInstr.expand]
  cases c.instr with
  -- not an instruction of the syntax: both sides halt
  | none => exact (execute_ebreak m pc (pc + 2) syscalls).symm
  | some i => exact (execute_encode m pc (pc + 2) i syscalls).symm

/-- `c.jr x1` is `0x8082`, and `jalr x0, 0(x1)` is `0x00008067`. -/
theorem stepC_expands_ret :
    (CInstr.jr 1).encode = 0x8082 ∧ (CInstr.jr 1).expand = 0x00008067 ∧
    stepC (.holding 0x8082 fun _ => 0) 0 0x8082
      = execute (.holding 0x8082 fun _ => 0) 0 2 0x00008067 false none :=
  ⟨by decide, by decide,
    stepC_expands (.holding 0x8082 fun _ => 0) rfl 0 (.jr 1) (by decide) false⟩

end Provework.Rvcore
