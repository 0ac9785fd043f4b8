import Mathlib.Logic.Function.Basic
import Provework.Isa.Rv64

/-!
# Zicsr over four machine CSRs

The six CSR instructions: three operations, each with a register or an immediate
source. The CSRs are those of a minimal trap model; any other number reads as zero
and ignores writes. `mtvec` holds a direct-mode base, so its two low bits are zero.
-/

namespace Provework.Isa

open Provework.Lib

inductive Csr where
  | mstatus | mtvec | mepc | mcause
  deriving DecidableEq

def Csr.num : Csr → BitVec 12
  | .mstatus => 0x300 | .mtvec => 0x305 | .mepc => 0x341 | .mcause => 0x342

/-- What a CSR holds after `v` is written to it. -/
def Csr.legal : Csr → U64 → U64
  | .mtvec, v => BitVec.ofNat 64 (v.toNat / 4 * 4)
  | _, v => v

inductive CsrOp where
  | rw | rs | rc

def CsrOp.eval (op : CsrOp) (old src : U64) : U64 :=
  match op with
  | .rw => src
  | .rs => old ||| src
  | .rc => old &&& ~~~src

inductive CsrSrc where
  | reg (rs1 : BitVec 5)
  | imm (zimm : BitVec 5)

/-- The whole register, or the immediate zero-extended. -/
def CsrSrc.value (x : BitVec 5 → U64) : CsrSrc → U64
  | .reg rs1 => x rs1
  | .imm zimm => BitVec.ofNat 64 zimm.toNat

structure CsrInstr where
  op : CsrOp
  csr : BitVec 12
  rd : BitVec 5
  src : CsrSrc

namespace CsrInstr

def f3 (i : CsrInstr) : BitVec 3 :=
  match i.op, i.src with
  | .rw, .reg _ => 0b001 | .rs, .reg _ => 0b010 | .rc, .reg _ => 0b011
  | .rw, .imm _ => 0b101 | .rs, .imm _ => 0b110 | .rc, .imm _ => 0b111

/-- The rs1 field: a register number or the immediate. -/
def rs1 (i : CsrInstr) : BitVec 5 :=
  match i.src with
  | .reg r => r
  | .imm z => z

def encode (i : CsrInstr) : U32 := iType i.csr i.rs1 i.f3 i.rd 0b1110011

/-- The value read: that of the CSR with this number, if there is one. -/
def old (i : CsrInstr) (csr : Csr → U64) : U64 :=
  if i.csr = Csr.mstatus.num then csr .mstatus
  else if i.csr = Csr.mtvec.num then csr .mtvec
  else if i.csr = Csr.mepc.num then csr .mepc
  else if i.csr = Csr.mcause.num then csr .mcause
  else 0

/-- What becomes of the registers and the CSRs. -/
def effect (i : CsrInstr) (x : BitVec 5 → U64) (csr : Csr → U64) :
    (BitVec 5 → U64) × (Csr → U64) :=
  (if i.rd = 0 then x else Function.update x i.rd (i.old csr),
    fun c => if c.num = i.csr then c.legal (i.op.eval (i.old csr) (i.src.value x)) else csr c)

end CsrInstr

end Provework.Isa
