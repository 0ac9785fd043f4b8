import Provework.Isa.Rv64

/-!
# RV64C, integer part

The compressed instructions with the operand constraints that make an encoding
theirs: HINTs and reserved code points are not `Legal`. Each one expands to a
32-bit word; only `c.ebreak` expands outside `Instr`.

The code points left over are HINTs (`CInstr.Hint`), reserved (`Reserved`), or
belong to the floating-point part (`FloatingPoint`).

As in `Instr`, immediates are the bits the format stores, so a word offset
`uimm[6:2]` has five bits and stands for the offset four times as large.
-/

namespace Provework.Isa

open Provework.Lib

/-- The registers a 3-bit field can name: `x8` to `x15`. -/
def cr (r : BitVec 3) : BitVec 5 := BitVec.ofNat 5 (8 + r.toNat)

inductive CArithOp where
  | sub | xor | or | and | subw | addw

inductive CInstr where
  | addi4spn (rd : BitVec 3) (uimm : BitVec 8)
  | lw (rd rs1 : BitVec 3) (uimm : BitVec 5)
  | ld (rd rs1 : BitVec 3) (uimm : BitVec 5)
  | sw (rs2 rs1 : BitVec 3) (uimm : BitVec 5)
  | sd (rs2 rs1 : BitVec 3) (uimm : BitVec 5)
  | addi (rd : BitVec 5) (imm : BitVec 6)
  | addiw (rd : BitVec 5) (imm : BitVec 6)
  | li (rd : BitVec 5) (imm : BitVec 6)
  | addi16sp (imm : BitVec 6)
  | lui (rd : BitVec 5) (imm : BitVec 6)
  | srli (rd : BitVec 3) (shamt : BitVec 6)
  | srai (rd : BitVec 3) (shamt : BitVec 6)
  | andi (rd : BitVec 3) (imm : BitVec 6)
  | arith (op : CArithOp) (rd rs2 : BitVec 3)
  | j (off : BitVec 11)
  | beqz (rs1 : BitVec 3) (off : BitVec 8)
  | bnez (rs1 : BitVec 3) (off : BitVec 8)
  | slli (rd : BitVec 5) (shamt : BitVec 6)
  | lwsp (rd : BitVec 5) (uimm : BitVec 6)
  | ldsp (rd : BitVec 5) (uimm : BitVec 6)
  | jr (rs1 : BitVec 5)
  | mv (rd rs2 : BitVec 5)
  | ebreak
  | jalr (rs1 : BitVec 5)
  | add (rd rs2 : BitVec 5)
  | swsp (rs2 : BitVec 5) (uimm : BitVec 6)
  | sdsp (rs2 : BitVec 5) (uimm : BitVec 6)

/-- The operand constraints: what they exclude is a HINT, reserved, or another
instruction's encoding. -/
def CInstr.Legal : CInstr → Prop
  | .addi4spn _ uimm => uimm ≠ 0
  | .addi rd imm => rd ≠ 0 ∧ imm ≠ 0
  | .addiw rd _ | .li rd _ => rd ≠ 0
  | .addi16sp imm => imm ≠ 0
  | .lui rd imm => rd ≠ 0 ∧ rd ≠ 2 ∧ imm ≠ 0
  | .srli _ shamt | .srai _ shamt => shamt ≠ 0
  | .slli rd shamt => rd ≠ 0 ∧ shamt ≠ 0
  | .lwsp rd _ | .ldsp rd _ => rd ≠ 0
  | .jr rs1 | .jalr rs1 => rs1 ≠ 0
  | .mv rd rs2 | .add rd rs2 => rd ≠ 0 ∧ rs2 ≠ 0
  | _ => True

instance (c : CInstr) : Decidable c.Legal := by
  cases c <;> (unfold CInstr.Legal; infer_instance)

/-! ## Formats -/

/-- `f3 hi[12] r[11:7] lo[6:2] op`: CI, CR and CSS. -/
def ciType (f3 : BitVec 3) (hi : BitVec 1) (r lo : BitVec 5) (op : BitVec 2) : U16 :=
  (f3.setWidth 16 <<< 13) ||| (hi.setWidth 16 <<< 12) ||| (r.setWidth 16 <<< 7)
    ||| (lo.setWidth 16 <<< 2) ||| op.setWidth 16

/-- `f3 hi[12:10] r1[9:7] mid[6:5] r2[4:2] op`: CL, CS, CA, CB and CIW. -/
def clType (f3 hi r1 : BitVec 3) (mid : BitVec 2) (r2 : BitVec 3) (op : BitVec 2) : U16 :=
  (f3.setWidth 16 <<< 13) ||| (hi.setWidth 16 <<< 10) ||| (r1.setWidth 16 <<< 7)
    ||| (mid.setWidth 16 <<< 5) ||| (r2.setWidth 16 <<< 2) ||| op.setWidth 16

/-- `f3 target[12:2] op`: CJ. -/
def cjType (f3 : BitVec 3) (target : BitVec 11) (op : BitVec 2) : U16 :=
  (f3.setWidth 16 <<< 13) ||| (target.setWidth 16 <<< 2) ||| op.setWidth 16

/-- `off[11|4|9:8|10|6|7|3:1|5]`; `off` holds bits 11 to 1. -/
def cjTarget (off : BitVec 11) : BitVec 11 :=
  ((off.extractLsb' 10 1).setWidth 11 <<< 10) ||| ((off.extractLsb' 3 1).setWidth 11 <<< 9)
    ||| ((off.extractLsb' 7 2).setWidth 11 <<< 7) ||| ((off.extractLsb' 9 1).setWidth 11 <<< 6)
    ||| ((off.extractLsb' 5 1).setWidth 11 <<< 5) ||| ((off.extractLsb' 6 1).setWidth 11 <<< 4)
    ||| ((off.extractLsb' 0 3).setWidth 11 <<< 1) ||| (off.extractLsb' 4 1).setWidth 11

/-! ## Encoding -/

/-- `imm[5]` and `imm[4:0]` of a CI immediate. -/
def ciImm (f3 : BitVec 3) (r : BitVec 5) (imm : BitVec 6) (op : BitVec 2) : U16 :=
  ciType f3 (imm.extractLsb' 5 1) r (imm.extractLsb' 0 5) op

/-- `uimm[5:3|2|6]`. -/
def clWord (f3 : BitVec 3) (r2 r1 : BitVec 3) (uimm : BitVec 5) : U16 :=
  clType f3 (uimm.extractLsb' 1 3) r1 (uimm.extractLsb' 0 1 ++ uimm.extractLsb' 4 1) r2 0b00

/-- `uimm[5:3|7:6]`. -/
def clDouble (f3 : BitVec 3) (r2 r1 : BitVec 3) (uimm : BitVec 5) : U16 :=
  clType f3 (uimm.extractLsb' 0 3) r1 (uimm.extractLsb' 3 2) r2 0b00

/-- `f2` and a 6-bit immediate on `rd'`. -/
def cbImmType (f2 : BitVec 2) (rd : BitVec 3) (imm : BitVec 6) : U16 :=
  clType 0b100 (imm.extractLsb' 5 1 ++ f2) rd (imm.extractLsb' 3 2) (imm.extractLsb' 0 3) 0b01

/-- `off[8|4:3]`, `off[7:6]`, `off[2:1|5]`; `off` holds bits 8 to 1. -/
def cbType (f3 rs1 : BitVec 3) (off : BitVec 8) : U16 :=
  clType f3 (off.extractLsb' 7 1 ++ off.extractLsb' 2 2) rs1 (off.extractLsb' 5 2)
    (off.extractLsb' 0 2 ++ off.extractLsb' 4 1) 0b01

/-- Bits 12 and 6:5 of the register-register group. -/
def CArithOp.bits : CArithOp → BitVec 1 × BitVec 2
  | .sub => (0, 0b00) | .xor => (0, 0b01) | .or => (0, 0b10) | .and => (0, 0b11)
  | .subw => (1, 0b00) | .addw => (1, 0b01)

def CInstr.encode : CInstr → U16
  | .addi4spn rd uimm =>
    clType 0b000 (uimm.extractLsb' 2 2 ++ uimm.extractLsb' 7 1) (uimm.extractLsb' 4 3)
      (uimm.extractLsb' 0 1 ++ uimm.extractLsb' 1 1) rd 0b00
  | .lw rd rs1 uimm => clWord 0b010 rd rs1 uimm
  | .ld rd rs1 uimm => clDouble 0b011 rd rs1 uimm
  | .sw rs2 rs1 uimm => clWord 0b110 rs2 rs1 uimm
  | .sd rs2 rs1 uimm => clDouble 0b111 rs2 rs1 uimm
  | .addi rd imm => ciImm 0b000 rd imm 0b01
  | .addiw rd imm => ciImm 0b001 rd imm 0b01
  | .li rd imm => ciImm 0b010 rd imm 0b01
  | .addi16sp imm =>
    ciType 0b011 (imm.extractLsb' 5 1) 2
      (((imm.extractLsb' 0 1).setWidth 5 <<< 4) ||| ((imm.extractLsb' 2 1).setWidth 5 <<< 3)
        ||| ((imm.extractLsb' 3 2).setWidth 5 <<< 1) ||| (imm.extractLsb' 1 1).setWidth 5) 0b01
  | .lui rd imm => ciImm 0b011 rd imm 0b01
  | .srli rd shamt => cbImmType 0b00 rd shamt
  | .srai rd shamt => cbImmType 0b01 rd shamt
  | .andi rd imm => cbImmType 0b10 rd imm
  | .arith op rd rs2 => clType 0b100 (op.bits.1 ++ 0b11#2) rd op.bits.2 rs2 0b01
  | .j off => cjType 0b101 (cjTarget off) 0b01
  | .beqz rs1 off => cbType 0b110 rs1 off
  | .bnez rs1 off => cbType 0b111 rs1 off
  | .slli rd shamt => ciImm 0b000 rd shamt 0b10
  | .lwsp rd uimm =>
    ciType 0b010 (uimm.extractLsb' 3 1) rd (uimm.extractLsb' 0 3 ++ uimm.extractLsb' 4 2) 0b10
  | .ldsp rd uimm =>
    ciType 0b011 (uimm.extractLsb' 2 1) rd (uimm.extractLsb' 0 2 ++ uimm.extractLsb' 3 3) 0b10
  | .jr rs1 => ciType 0b100 0 rs1 0 0b10
  | .mv rd rs2 => ciType 0b100 0 rd rs2 0b10
  | .ebreak => ciType 0b100 1 0 0 0b10
  | .jalr rs1 => ciType 0b100 1 rs1 0 0b10
  | .add rd rs2 => ciType 0b100 1 rd rs2 0b10
  | .swsp rs2 uimm =>
    ciType 0b110 (uimm.extractLsb' 3 1) (uimm.extractLsb' 0 3 ++ uimm.extractLsb' 4 2) rs2 0b10
  | .sdsp rs2 uimm =>
    ciType 0b111 (uimm.extractLsb' 2 1) (uimm.extractLsb' 0 2 ++ uimm.extractLsb' 3 3) rs2 0b10

/-! ## Special code points -/

/-- The operands that make an encoding a HINT. `c.nop` itself is none: it is
`c.addi` with both operands zero. -/
def CInstr.Hint : CInstr → Prop
  | .addi rd imm => (rd = 0 ∧ imm ≠ 0) ∨ (rd ≠ 0 ∧ imm = 0)
  | .li rd _ => rd = 0
  | .lui rd imm => rd = 0 ∧ imm ≠ 0
  | .slli rd shamt => rd = 0 ∨ shamt = 0
  | .srli _ shamt | .srai _ shamt => shamt = 0
  | .mv rd rs2 | .add rd rs2 => rd = 0 ∧ rs2 ≠ 0
  | _ => False

/-- The operands that make an encoding a reserved one. -/
def CInstr.Reserved : CInstr → Prop
  | .addi4spn _ uimm => uimm = 0
  | .addiw rd _ => rd = 0
  | .addi16sp imm => imm = 0
  | .lui _ imm => imm = 0
  | .lwsp rd _ | .ldsp rd _ => rd = 0
  | .jr rs1 => rs1 = 0
  | _ => False

/-- The reserved code points, with those that are no instruction's: two siblings of
`c.subw` and `c.addw`, and funct3 100 of quadrant 0. -/
inductive Reserved : U16 → Prop
  | instr {c : CInstr} : c.Reserved → Reserved c.encode
  | arith (rd : BitVec 3) (mid : BitVec 2) (rs2 : BitVec 3) : mid = 0b10 ∨ mid = 0b11 →
    Reserved (clType 0b100 (1#1 ++ 0b11#2) rd mid rs2 0b01)
  | quadrant0 (hi r1 : BitVec 3) (mid : BitVec 2) (r2 : BitVec 3) :
    Reserved (clType 0b100 hi r1 mid r2 0b00)

/-- `c.fld`, `c.fsd`, `c.fldsp` and `c.fsdsp`. -/
inductive FloatingPoint : U16 → Prop
  | register (f3 hi r1 : BitVec 3) (mid : BitVec 2) (r2 : BitVec 3) : f3 = 0b001 ∨ f3 = 0b101 →
    FloatingPoint (clType f3 hi r1 mid r2 0b00)
  | stack (f3 : BitVec 3) (hi : BitVec 1) (r lo : BitVec 5) : f3 = 0b001 ∨ f3 = 0b101 →
    FloatingPoint (ciType f3 hi r lo 0b10)

/-! ## Expansion -/

/-- An unsigned offset in units of `2 ^ k` bytes, as an I or S immediate. -/
def scaled {w : Nat} (uimm : BitVec w) (k : Nat) : BitVec 12 := uimm.setWidth 12 <<< k

def CArithOp.instr (op : CArithOp) (rd rs2 : BitVec 5) : Instr :=
  match op with
  | .sub => .reg .sub rd rd rs2
  | .xor => .reg .xor rd rd rs2
  | .or => .reg .or rd rd rs2
  | .and => .reg .and rd rd rs2
  | .subw => .regW .subw rd rd rs2
  | .addw => .regW .addw rd rd rs2

/-- The instruction a compressed one stands for; `none` is EBREAK. -/
def CInstr.instr : CInstr → Option Instr
  | .addi4spn rd uimm => some (.opImm .addi (cr rd) 2 (scaled uimm 2))
  | .lw rd rs1 uimm => some (.load .lw (cr rd) (cr rs1) (scaled uimm 2))
  | .ld rd rs1 uimm => some (.load .ld (cr rd) (cr rs1) (scaled uimm 3))
  | .sw rs2 rs1 uimm => some (.store .sw (cr rs2) (cr rs1) (scaled uimm 2))
  | .sd rs2 rs1 uimm => some (.store .sd (cr rs2) (cr rs1) (scaled uimm 3))
  | .addi rd imm => some (.opImm .addi rd rd (imm.signExtend 12))
  | .addiw rd imm => some (.addiw rd rd (imm.signExtend 12))
  | .li rd imm => some (.opImm .addi rd 0 (imm.signExtend 12))
  | .addi16sp imm => some (.opImm .addi 2 2 (imm.signExtend 12 <<< 4))
  | .lui rd imm => some (.lui rd (imm.signExtend 20))
  | .srli rd shamt => some (.shiftImm .srl (cr rd) (cr rd) shamt)
  | .srai rd shamt => some (.shiftImm .sra (cr rd) (cr rd) shamt)
  | .andi rd imm => some (.opImm .andi (cr rd) (cr rd) (imm.signExtend 12))
  | .arith op rd rs2 => some (op.instr (cr rd) (cr rs2))
  | .j off => some (.jal 0 (off.signExtend 20))
  | .beqz rs1 off => some (.branch .beq (cr rs1) 0 (off.signExtend 12))
  | .bnez rs1 off => some (.branch .bne (cr rs1) 0 (off.signExtend 12))
  | .slli rd shamt => some (.shiftImm .sll rd rd shamt)
  | .lwsp rd uimm => some (.load .lw rd 2 (scaled uimm 2))
  | .ldsp rd uimm => some (.load .ld rd 2 (scaled uimm 3))
  | .jr rs1 => some (.jalr 0 rs1 0)
  | .mv rd rs2 => some (.reg .add rd 0 rs2)
  | .ebreak => none
  | .jalr rs1 => some (.jalr 1 rs1 0)
  | .add rd rs2 => some (.reg .add rd rd rs2)
  | .swsp rs2 uimm => some (.store .sw rs2 2 (scaled uimm 2))
  | .sdsp rs2 uimm => some (.store .sd rs2 2 (scaled uimm 3))

def ebreakWord : U32 := iType 1 0 0b000 0 0b1110011

/-- The 32-bit word a compressed instruction expands to. -/
def CInstr.expand (c : CInstr) : U32 :=
  match c.instr with
  | some i => i.encode
  | none => ebreakWord

end Provework.Isa
