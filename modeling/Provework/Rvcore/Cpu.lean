import Mathlib.Logic.Function.Basic
import Provework.Rvcore.Mem

/-!
# Hart state and Rust integer operations (`crates/rvcore/src/cpu.rs`)

The registers, the machine CSRs and the tohost latch, plus the handful of
Rust integer primitives the interpreter is written with: casts, wrapping
shifts, and the checked and unchecked divisions. An `iN` is the `BitVec N` of
the same bits; whether an operation is signed is in the operation.
-/

namespace Provework.Rvcore

open Provework.Lib

/-- A register number. The source keeps a `u32` masked with `0x1f`. -/
abbrev Reg := BitVec 5

structure Cpu where
  x : Reg → U64
  pc : U64
  mtvec : U64
  mepc : U64
  mcause : U64
  mstatus : U64
  tohost : Option U64

namespace Cpu

def new (pc sp : U64) : Cpu :=
  { x := Function.update (fun _ => 0) 2 sp
    pc, mtvec := 0, mepc := 0, mcause := 0, mstatus := 0, tohost := none }

def set (c : Cpu) (reg : Reg) (val : U64) : Cpu :=
  if reg ≠ 0 then { c with x := Function.update c.x reg val } else c

def get (c : Cpu) (reg : Reg) : U64 := c.x reg

@[simp] theorem set_pc (c : Cpu) (r : Reg) (v : U64) : (c.set r v).pc = c.pc := by
  unfold set; split <;> rfl
@[simp] theorem set_mtvec (c : Cpu) (r : Reg) (v : U64) : (c.set r v).mtvec = c.mtvec := by
  unfold set; split <;> rfl
@[simp] theorem set_mepc (c : Cpu) (r : Reg) (v : U64) : (c.set r v).mepc = c.mepc := by
  unfold set; split <;> rfl
@[simp] theorem set_mcause (c : Cpu) (r : Reg) (v : U64) : (c.set r v).mcause = c.mcause := by
  unfold set; split <;> rfl
@[simp] theorem set_mstatus (c : Cpu) (r : Reg) (v : U64) : (c.set r v).mstatus = c.mstatus := by
  unfold set; split <;> rfl

end Cpu

/-- Everything a step may read or write. -/
structure Machine where
  cpu : Cpu
  mem : Mem

inductive Trap where
  | fetchUnaligned
  | fetchOutOfRange
  | illegalInstruction (pc : U64) (inst : U32)
  | loadOutOfRange (addr : U64)
  | storeOutOfRange (addr : U64)
  | ecall
  | outputTooLarge
  deriving DecidableEq, Repr

/-! ## Rust integer primitives -/

/-- `v as u32`. -/
def low32 (v : U64) : U32 := v.setWidth 32

/-- `v as i32 as u64`. -/
def sext32 (v : U32) : U64 := v.signExtend 64

/-- `wrapping_shl`: the shift amount is taken modulo the width. -/
def wrappingShl {w : Nat} (a : BitVec w) (k : Nat) : BitVec w := a <<< (k % w)

def wrappingShr {w : Nat} (a : BitVec w) (k : Nat) : BitVec w := a >>> (k % w)

/-- `iN::checked_div`: `None` on a zero divisor and on `MIN / -1`. -/
def checkedDiv {w : Nat} (a b : BitVec w) : Option (BitVec w) :=
  if b = 0 ∨ (a = BitVec.intMin w ∧ b = BitVec.allOnes w) then none else some (a.sdiv b)

/-- `iN::checked_rem`, with the same two failures. -/
def checkedRem {w : Nat} (a b : BitVec w) : Option (BitVec w) :=
  if b = 0 ∨ (a = BitVec.intMin w ∧ b = BitVec.allOnes w) then none else some (a.srem b)

/-- `uN::checked_div`. -/
def checkedUdiv {w : Nat} (a b : BitVec w) : Option (BitVec w) :=
  if b = 0 then none else some (a / b)

/-- The bare operator `a / b` on `uN`: the host panics on zero. -/
def hostUdiv {w : Nat} (a b : BitVec w) : Option (BitVec w) :=
  if b = 0 then none else some (a / b)

/-- The bare operator `a % b` on `uN`: the host panics on zero. -/
def hostUrem {w : Nat} (a b : BitVec w) : Option (BitVec w) :=
  if b = 0 then none else some (a % b)

end Provework.Rvcore
