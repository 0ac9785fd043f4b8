import Mathlib.Data.Int.Basic
import Provework.Lib.Bytes

/-!
# RV64IM: syntax, encoding, meaning

The reference the interpreter is compared with, written from the instruction
formats and the prose of the ISA and independent of any implementation.
`Instr` is the abstract syntax of RV64I and the multiply instructions,
`DivOp` the eight divisions; `encode` lays the fields out in the standard
formats; `effect` says in integer arithmetic what an instruction does.

Registers and memory words are bit patterns, so a result is stated as
`BitVec.ofInt 64 n` for the exact integer `n` — reduction modulo `2^64` happens
there and nowhere else. `wres` is the same for the 32-bit forms: keep the low
32 bits, sign-extend.
-/

namespace Provework.Isa

open Provework.Lib

/-! ## Abstract syntax -/

inductive BranchOp where
  | beq | bne | blt | bge | bltu | bgeu

inductive LoadOp where
  | lb | lh | lw | ld | lbu | lhu | lwu

inductive StoreOp where
  | sb | sh | sw | sd

inductive ImmOp where
  | addi | slti | sltiu | xori | ori | andi

inductive ShiftOp where
  | sll | srl | sra

inductive RegOp where
  | add | sub | sll | slt | sltu | xor | srl | sra | or | and
  | mul | mulh | mulhsu | mulhu

inductive RegWOp where
  | addw | subw | sllw | srlw | sraw | mulw

inductive DivOp where
  | div | divu | rem | remu | divw | divuw | remw | remuw
  deriving DecidableEq

/-- Immediates are the bits the format stores: jump and branch offsets come in
units of two bytes, `lui`/`auipc` immediates in units of 4 KiB. -/
inductive Instr where
  | lui (rd : BitVec 5) (imm : BitVec 20)
  | auipc (rd : BitVec 5) (imm : BitVec 20)
  | jal (rd : BitVec 5) (off : BitVec 20)
  | jalr (rd rs1 : BitVec 5) (imm : BitVec 12)
  | branch (op : BranchOp) (rs1 rs2 : BitVec 5) (off : BitVec 12)
  | load (op : LoadOp) (rd rs1 : BitVec 5) (imm : BitVec 12)
  | store (op : StoreOp) (rs2 rs1 : BitVec 5) (imm : BitVec 12)
  | opImm (op : ImmOp) (rd rs1 : BitVec 5) (imm : BitVec 12)
  | shiftImm (op : ShiftOp) (rd rs1 : BitVec 5) (shamt : BitVec 6)
  | addiw (rd rs1 : BitVec 5) (imm : BitVec 12)
  | shiftImmW (op : ShiftOp) (rd rs1 : BitVec 5) (shamt : BitVec 5)
  | reg (op : RegOp) (rd rs1 rs2 : BitVec 5)
  | regW (op : RegWOp) (rd rs1 rs2 : BitVec 5)
  | fence (imm : BitVec 12) (rs1 rd : BitVec 5)
  | fenceI (imm : BitVec 12) (rs1 rd : BitVec 5)

/-! ## Formats -/

def rType (f7 : BitVec 7) (rs2 rs1 : BitVec 5) (f3 : BitVec 3) (rd : BitVec 5)
    (op : BitVec 7) : U32 :=
  (f7.setWidth 32 <<< 25) ||| (rs2.setWidth 32 <<< 20) ||| (rs1.setWidth 32 <<< 15)
    ||| (f3.setWidth 32 <<< 12) ||| (rd.setWidth 32 <<< 7) ||| op.setWidth 32

/-- `imm[11:0] rs1 f3 rd op`. -/
def iType (imm : BitVec 12) (rs1 : BitVec 5) (f3 : BitVec 3) (rd : BitVec 5)
    (op : BitVec 7) : U32 :=
  rType (imm.extractLsb' 5 7) (imm.extractLsb' 0 5) rs1 f3 rd op

/-- `imm[11:5] rs2 rs1 f3 imm[4:0] op`. -/
def sType (imm : BitVec 12) (rs2 rs1 : BitVec 5) (f3 : BitVec 3) (op : BitVec 7) : U32 :=
  rType (imm.extractLsb' 5 7) rs2 rs1 f3 (imm.extractLsb' 0 5) op

/-- `off[12|10:5] rs2 rs1 f3 off[4:1|11] op`; `off` holds bits 12 to 1. -/
def bType (off : BitVec 12) (rs2 rs1 : BitVec 5) (f3 : BitVec 3) (op : BitVec 7) : U32 :=
  rType (off.extractLsb' 11 1 ++ off.extractLsb' 4 6) rs2 rs1 f3
    (off.extractLsb' 0 4 ++ off.extractLsb' 10 1) op

def uType (imm : BitVec 20) (rd : BitVec 5) (op : BitVec 7) : U32 :=
  (imm.setWidth 32 <<< 12) ||| (rd.setWidth 32 <<< 7) ||| op.setWidth 32

/-- `off[20|10:1|11|19:12] rd op`; `off` holds bits 20 to 1. -/
def jType (off : BitVec 20) (rd : BitVec 5) (op : BitVec 7) : U32 :=
  uType (((off.extractLsb' 19 1).setWidth 20 <<< 19) ||| ((off.extractLsb' 0 10).setWidth 20 <<< 9)
    ||| ((off.extractLsb' 10 1).setWidth 20 <<< 8) ||| (off.extractLsb' 11 8).setWidth 20) rd op

/-! ## Encoding -/

def BranchOp.f3 : BranchOp → BitVec 3
  | .beq => 0b000 | .bne => 0b001 | .blt => 0b100 | .bge => 0b101 | .bltu => 0b110
  | .bgeu => 0b111

def LoadOp.f3 : LoadOp → BitVec 3
  | .lb => 0b000 | .lh => 0b001 | .lw => 0b010 | .ld => 0b011 | .lbu => 0b100 | .lhu => 0b101
  | .lwu => 0b110

def StoreOp.f3 : StoreOp → BitVec 3
  | .sb => 0b000 | .sh => 0b001 | .sw => 0b010 | .sd => 0b011

def ImmOp.f3 : ImmOp → BitVec 3
  | .addi => 0b000 | .slti => 0b010 | .sltiu => 0b011 | .xori => 0b100 | .ori => 0b110
  | .andi => 0b111

def ShiftOp.f3 : ShiftOp → BitVec 3
  | .sll => 0b001 | .srl => 0b101 | .sra => 0b101

/-- Bit 30 tells the arithmetic right shift from the logical one. -/
def ShiftOp.f7 : ShiftOp → BitVec 7
  | .sll => 0b0000000 | .srl => 0b0000000 | .sra => 0b0100000

def RegOp.f7 : RegOp → BitVec 7
  | .sub | .sra => 0b0100000
  | .mul | .mulh | .mulhsu | .mulhu => 0b0000001
  | _ => 0b0000000

def RegOp.f3 : RegOp → BitVec 3
  | .add | .sub | .mul => 0b000
  | .sll | .mulh => 0b001
  | .slt | .mulhsu => 0b010
  | .sltu | .mulhu => 0b011
  | .xor => 0b100
  | .srl | .sra => 0b101
  | .or => 0b110
  | .and => 0b111

def RegWOp.f7 : RegWOp → BitVec 7
  | .subw | .sraw => 0b0100000
  | .mulw => 0b0000001
  | _ => 0b0000000

def RegWOp.f3 : RegWOp → BitVec 3
  | .addw | .subw | .mulw => 0b000
  | .sllw => 0b001
  | .srlw | .sraw => 0b101

def DivOp.f3 : DivOp → BitVec 3
  | .div | .divw => 0b100 | .divu | .divuw => 0b101 | .rem | .remw => 0b110
  | .remu | .remuw => 0b111

/-- The W forms live under OP-32, the others under OP. -/
def DivOp.isW : DivOp → Bool
  | .divw | .divuw | .remw | .remuw => true
  | _ => false

def DivOp.opcode (op : DivOp) : BitVec 7 := if op.isW then 0b0111011 else 0b0110011

theorem DivOp.opcode_word (op : DivOp) (h : op.isW = true) : op.opcode = 0b0111011 := if_pos h

theorem DivOp.opcode_dword (op : DivOp) (h : op.isW = false) : op.opcode = 0b0110011 := by
  rw [DivOp.opcode, h]
  rfl

def DivOp.encode (op : DivOp) (rd rs1 rs2 : BitVec 5) : U32 :=
  rType 0b0000001 rs2 rs1 op.f3 rd op.opcode

def Instr.encode : Instr → U32
  | .lui rd imm => uType imm rd 0b0110111
  | .auipc rd imm => uType imm rd 0b0010111
  | .jal rd off => jType off rd 0b1101111
  | .jalr rd rs1 imm => iType imm rs1 0b000 rd 0b1100111
  | .branch op rs1 rs2 off => bType off rs2 rs1 op.f3 0b1100011
  | .load op rd rs1 imm => iType imm rs1 op.f3 rd 0b0000011
  | .store op rs2 rs1 imm => sType imm rs2 rs1 op.f3 0b0100011
  | .opImm op rd rs1 imm => iType imm rs1 op.f3 rd 0b0010011
  | .shiftImm op rd rs1 shamt =>
    -- RV64 shamts have six bits; only the top six bits of `f7` stay a funct
    iType ((op.f7.setWidth 12 <<< 5) ||| shamt.setWidth 12) rs1 op.f3 rd 0b0010011
  | .addiw rd rs1 imm => iType imm rs1 0b000 rd 0b0011011
  | .shiftImmW op rd rs1 shamt => rType op.f7 shamt rs1 op.f3 rd 0b0011011
  | .reg op rd rs1 rs2 => rType op.f7 rs2 rs1 op.f3 rd 0b0110011
  | .regW op rd rs1 rs2 => rType op.f7 rs2 rs1 op.f3 rd 0b0111011
  | .fence imm rs1 rd => iType imm rs1 0b000 rd 0b0001111
  | .fenceI imm rs1 rd => iType imm rs1 0b001 rd 0b0001111

def opcode (w : U32) : BitVec 7 := w.setWidth 7

/-- The major opcodes of `Instr` and `DivOp`. -/
def opcodes : List (BitVec 7) :=
  [0b0110111, 0b0010111, 0b1101111, 0b1100111, 0b1100011, 0b0000011, 0b0100011, 0b0010011,
    0b0011011, 0b0110011, 0b0111011, 0b0001111]

/-! ## Meaning -/

/-- An immediate sign-extended to 64 bits. -/
def sx {w : Nat} (imm : BitVec w) : U64 := BitVec.ofInt 64 imm.toInt

/-- The result of a 32-bit form: low 32 bits of the exact result, sign-extended. -/
def wres (n : Int) : U64 := BitVec.ofInt 64 (Int.bmod n (2 ^ 32))

/-- The low word of a register, unsigned and signed. -/
def uword (a : U64) : Nat := a.toNat % 2 ^ 32

def sword (a : U64) : Int := Int.bmod a.toNat (2 ^ 32)

def flag (p : Prop) [Decidable p] : U64 := if p then 1 else 0

def BranchOp.Taken (op : BranchOp) (a b : U64) : Prop :=
  match op with
  | .beq => a = b
  | .bne => a ≠ b
  | .blt => a.toInt < b.toInt
  | .bge => b.toInt ≤ a.toInt
  | .bltu => a.toNat < b.toNat
  | .bgeu => b.toNat ≤ a.toNat

instance (op : BranchOp) (a b : U64) : Decidable (op.Taken a b) := by
  cases op <;> (unfold BranchOp.Taken; infer_instance)

def ImmOp.eval (op : ImmOp) (a imm : U64) : U64 :=
  match op with
  | .addi => BitVec.ofInt 64 (a.toInt + imm.toInt)
  | .slti => flag (a.toInt < imm.toInt)
  | .sltiu => flag (a.toNat < imm.toNat)
  | .xori => a ^^^ imm
  | .ori => a ||| imm
  | .andi => a &&& imm

def ShiftOp.eval (op : ShiftOp) (a : U64) (k : Nat) : U64 :=
  match op with
  | .sll => BitVec.ofNat 64 (a.toNat * 2 ^ k)
  | .srl => BitVec.ofNat 64 (a.toNat / 2 ^ k)
  | .sra => BitVec.ofInt 64 (a.toInt / 2 ^ k)

def ShiftOp.evalW (op : ShiftOp) (a : U64) (k : Nat) : U64 :=
  match op with
  | .sll => wres (uword a * 2 ^ k)
  | .srl => wres (uword a / 2 ^ k)
  | .sra => wres (sword a / 2 ^ k)

def RegOp.eval (op : RegOp) (a b : U64) : U64 :=
  match op with
  | .add => BitVec.ofInt 64 (a.toInt + b.toInt)
  | .sub => BitVec.ofInt 64 (a.toInt - b.toInt)
  | .sll => ShiftOp.sll.eval a (b.toNat % 64)
  | .slt => flag (a.toInt < b.toInt)
  | .sltu => flag (a.toNat < b.toNat)
  | .xor => a ^^^ b
  | .srl => ShiftOp.srl.eval a (b.toNat % 64)
  | .sra => ShiftOp.sra.eval a (b.toNat % 64)
  | .or => a ||| b
  | .and => a &&& b
  | .mul => BitVec.ofInt 64 (a.toInt * b.toInt)
  | .mulh => BitVec.ofInt 64 (a.toInt * b.toInt / 2 ^ 64)
  | .mulhsu => BitVec.ofInt 64 (a.toInt * b.toNat / 2 ^ 64)
  | .mulhu => BitVec.ofNat 64 (a.toNat * b.toNat / 2 ^ 64)

def RegWOp.eval (op : RegWOp) (a b : U64) : U64 :=
  match op with
  | .addw => wres (sword a + sword b)
  | .subw => wres (sword a - sword b)
  | .sllw => ShiftOp.sll.evalW a (b.toNat % 32)
  | .srlw => ShiftOp.srl.evalW a (b.toNat % 32)
  | .sraw => ShiftOp.sra.evalW a (b.toNat % 32)
  | .mulw => wres (sword a * sword b)

/-- Quotients truncate toward zero, remainders take the dividend's sign. A zero
divisor gives all ones and the dividend, signed overflow `MIN` and `0`. -/
def DivOp.eval (op : DivOp) (a b : U64) : U64 :=
  match op with
  | .div =>
    if b.toInt = 0 then BitVec.ofInt 64 (-1)
    else if a.toInt = -2 ^ 63 ∧ b.toInt = -1 then BitVec.ofInt 64 (-2 ^ 63)
    else BitVec.ofInt 64 (a.toInt.tdiv b.toInt)
  | .divu => if b.toNat = 0 then BitVec.ofInt 64 (-1) else BitVec.ofNat 64 (a.toNat / b.toNat)
  | .rem =>
    if b.toInt = 0 then a
    else if a.toInt = -2 ^ 63 ∧ b.toInt = -1 then 0
    else BitVec.ofInt 64 (a.toInt.tmod b.toInt)
  | .remu => if b.toNat = 0 then a else BitVec.ofNat 64 (a.toNat % b.toNat)
  | .divw =>
    if sword b = 0 then wres (-1)
    else if sword a = -2 ^ 31 ∧ sword b = -1 then wres (-2 ^ 31)
    else wres ((sword a).tdiv (sword b))
  | .divuw => if uword b = 0 then wres (-1) else wres (uword a / uword b : Nat)
  | .remw =>
    if sword b = 0 then wres (sword a)
    else if sword a = -2 ^ 31 ∧ sword b = -1 then 0
    else wres ((sword a).tmod (sword b))
  | .remuw => if uword b = 0 then wres (uword a) else wres (uword a % uword b : Nat)

def LoadOp.len : LoadOp → Nat
  | .lb | .lbu => 1
  | .lh | .lhu => 2
  | .lw | .lwu => 4
  | .ld => 8

def LoadOp.signed : LoadOp → Bool
  | .lb | .lh | .lw => true
  | _ => false

/-- The register value of the loaded bytes. -/
def LoadOp.value (op : LoadOp) (bytes : List U8) : U64 :=
  if op.signed then BitVec.ofInt 64 (Int.bmod (leNat bytes) (2 ^ (8 * op.len)))
  else BitVec.ofNat 64 (leNat bytes)

def StoreOp.len : StoreOp → Nat
  | .sb => 1 | .sh => 2 | .sw => 4 | .sd => 8

/-- The bytes stored, as a number. -/
def StoreOp.stored (op : StoreOp) (val : U64) : U64 :=
  BitVec.ofNat 64 (val.toNat % 2 ^ (8 * op.len))

/-- What an instruction does, given the register file and its own address. -/
inductive Effect where
  /-- `x[rd] := val` (dropped for `x0`) and go to `pc`. -/
  | write (rd : BitVec 5) (val pc : U64)
  /-- Go to `pc`. -/
  | goto (pc : U64)
  /-- Load from `addr` into `rd`, then go to `pc`. -/
  | load (op : LoadOp) (rd : BitVec 5) (addr pc : U64)
  /-- Store the low bytes of `val` at `addr`, then go to `pc`. -/
  | store (op : StoreOp) (addr val pc : U64)

/-- `next` is the address of the following instruction. -/
def Instr.effect (x : BitVec 5 → U64) (pc next : U64) : Instr → Effect
  | .lui rd imm => .write rd (BitVec.ofInt 64 (imm.toInt * 2 ^ 12)) next
  | .auipc rd imm => .write rd (BitVec.ofInt 64 (pc.toNat + imm.toInt * 2 ^ 12)) next
  | .jal rd off => .write rd next (BitVec.ofInt 64 (pc.toNat + off.toInt * 2))
  | .jalr rd rs1 imm =>
    -- clear bit 0 of the target
    .write rd next (BitVec.ofInt 64 (((x rs1).toInt + imm.toInt) / 2 * 2))
  | .branch op rs1 rs2 off =>
    .goto (if op.Taken (x rs1) (x rs2) then BitVec.ofInt 64 (pc.toNat + off.toInt * 2) else next)
  | .load op rd rs1 imm => .load op rd (BitVec.ofInt 64 ((x rs1).toInt + imm.toInt)) next
  | .store op rs2 rs1 imm =>
    .store op (BitVec.ofInt 64 ((x rs1).toInt + imm.toInt)) (x rs2) next
  | .opImm op rd rs1 imm => .write rd (op.eval (x rs1) (sx imm)) next
  | .shiftImm op rd rs1 shamt => .write rd (op.eval (x rs1) shamt.toNat) next
  | .addiw rd rs1 imm => .write rd (wres (sword (x rs1) + imm.toInt)) next
  | .shiftImmW op rd rs1 shamt => .write rd (op.evalW (x rs1) shamt.toNat) next
  | .reg op rd rs1 rs2 => .write rd (op.eval (x rs1) (x rs2)) next
  | .regW op rd rs1 rs2 => .write rd (op.eval (x rs1) (x rs2)) next
  | .fence _ _ _ => .goto next
  | .fenceI _ _ _ => .goto next

end Provework.Isa
