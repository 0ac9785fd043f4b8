import Provework.Rvcore.Cpu

/-!
# One instruction (`step_mode` and `step_c` of `crates/rvcore/src/interp.rs`)

`stepMode` fetches and dispatches: a halfword whose low bits are not `11` goes
to `stepC`, anything else to `execute`, the big `match opcode` of the source.
`execute` takes `next_pc` as an argument — the source computes it right after
the fetch — and its arithmetic tables (`opImm`, `op`, …) are separate
definitions so that each can be read against its arm of the source.

An `Outcome` of `none` is a host panic (the one place it can arise is the bare
division of `DIVUW`/`REMUW`). Otherwise it carries the machine as the call
leaves it, also when the call returns a trap: the tohost latch and the
lookaside are written before the trap is known.
-/

namespace Provework.Rvcore

open Provework.Lib

/-- The machine after the call and `Ok(halted)` or `Err(trap)`; `none` if the
host panicked. -/
abbrev Outcome := Option (Machine × Except Trap Bool)

namespace Machine

def trap (m : Machine) (t : Trap) : Outcome := some (m, .error t)

/-- `cpu.pc = target; Ok(false)`. -/
def jump (m : Machine) (target : U64) : Outcome :=
  some ({ m with cpu := { m.cpu with pc := target } }, .ok false)

/-- `cpu.set(rd, val); cpu.pc = target; Ok(false)`. -/
def retire (m : Machine) (rd : Reg) (val target : U64) : Outcome :=
  jump { m with cpu := m.cpu.set rd val } target

end Machine

def illegal (pc : U64) (inst : U32) : Trap := .illegalInstruction pc inst

def trapLoad : MemError → U64 → Trap
  | .outOfRange, addr => .loadOutOfRange addr

def trapStore : MemError → U64 → Trap
  | .outOfRange, addr => .storeOutOfRange addr

/-! ## Fields and immediates of a 32-bit word -/

/-- A field `(inst >> lo) & mask`, the mask being the width of the result. -/
def field (inst : U32) (lo w : Nat) : BitVec w := (inst >>> lo).setWidth w

def immI (inst : U32) : U64 := (inst.sshiftRight 20).signExtend 64

def immS (inst : U32) : U64 :=
  ((inst.sshiftRight 20) &&& ~~~0x1f#32).signExtend 64 |||
    ((inst >>> 7) &&& 0x1f#32).setWidth 64

def immB (inst : U32) : U64 :=
  let v := (((inst >>> 31) &&& 1#32) <<< 12)
    ||| (((inst >>> 7) &&& 1#32) <<< 11)
    ||| (((inst >>> 25) &&& 0x3f#32) <<< 5)
    ||| (((inst >>> 8) &&& 0xf#32) <<< 1)
  ((v <<< 19).sshiftRight 19).signExtend 64

def immU (inst : U32) : U64 := (inst &&& 0xfffff000#32).signExtend 64

def immJ (inst : U32) : U64 :=
  let v := (((inst >>> 31) &&& 1#32) <<< 20)
    ||| (((inst >>> 12) &&& 0xff#32) <<< 12)
    ||| (((inst >>> 20) &&& 1#32) <<< 11)
    ||| (((inst >>> 21) &&& 0x3ff#32) <<< 1)
  ((v <<< 11).sshiftRight 11).signExtend 64

/-! ## The arithmetic tables -/

/-- What an arithmetic arm comes to. -/
inductive Alu where
  | value (v : U64)
  | illegal
  | panic

/-- `cond as u64`. -/
def ofBool (b : Bool) : U64 := if b then 1 else 0

/-- `taken` of the branch arm; `none` for an unassigned `f3`. -/
def branchTaken (f3 : BitVec 3) (a b : U64) : Option Bool :=
  match f3 with
  | 0b000#3 => some (a = b)
  | 0b001#3 => some (a ≠ b)
  | 0b100#3 => some (a.slt b)
  | 0b101#3 => some (b.sle a)
  | 0b110#3 => some (a < b)
  | 0b111#3 => some (a ≥ b)
  | _ => none

/-- `(len, sign_ext)` of the load arm. -/
def loadKind (f3 : BitVec 3) : Option (Nat × Bool) :=
  match f3 with
  | 0b000#3 => some (1, true)
  | 0b001#3 => some (2, true)
  | 0b010#3 => some (4, true)
  | 0b011#3 => some (8, false)
  | 0b100#3 => some (1, false)
  | 0b101#3 => some (2, false)
  | 0b110#3 => some (4, false)
  | _ => none

/-- The sign extension of a loaded value. -/
def loadExt (len : Nat) (signExt : Bool) (val : U64) : U64 :=
  if signExt then
    match len with
    | 1 => (val.setWidth 8).signExtend 64
    | 2 => (val.setWidth 16).signExtend 64
    | _ => (val.setWidth 32).signExtend 64
  else val

def storeLen (f3 : BitVec 3) : Option Nat :=
  match f3 with
  | 0b000#3 => some 1
  | 0b001#3 => some 2
  | 0b010#3 => some 4
  | 0b011#3 => some 8
  | _ => none

/-- OP-IMM. The shifts carry a 6-bit shamt at `[25:20]` and a 6-bit funct above it. -/
def opImm (inst : U32) (f3 : BitVec 3) (a imm : U64) : Alu :=
  match f3 with
  | 0b000#3 => .value (a + imm)
  | 0b010#3 => .value (ofBool (a.slt imm))
  | 0b011#3 => .value (ofBool (a < imm))
  | 0b100#3 => .value (a ^^^ imm)
  | 0b110#3 => .value (a ||| imm)
  | 0b111#3 => .value (a &&& imm)
  | 0b001#3 =>
    if field inst 26 6 ≠ 0 then .illegal
    else .value (wrappingShl a (field inst 20 6).toNat)
  | 0b101#3 =>
    match field inst 26 6 with
    | 0b000000#6 => .value (wrappingShr a (field inst 20 6).toNat)
    | 0b010000#6 => .value (a.sshiftRight (field inst 20 6).toNat)
    | _ => .illegal

/-- OP-IMM-32. -/
def opImm32 (inst : U32) (f7 : BitVec 7) (f3 : BitVec 3) (a imm : U64) : Alu :=
  match f3 with
  | 0b000#3 => .value (sext32 (low32 a + low32 imm))
  | 0b001#3 =>
    if f7 ≠ 0 then .illegal
    else .value (sext32 (wrappingShl (low32 a) (field inst 20 5).toNat))
  | 0b101#3 =>
    match f7 with
    | 0b0000000#7 => .value (sext32 (wrappingShr (low32 a) (field inst 20 5).toNat))
    | 0b0100000#7 => .value (sext32 ((low32 a).sshiftRight (field inst 20 5).toNat))
    | _ => .illegal
  | _ => .illegal

/-- OP. -/
def op (f7 : BitVec 7) (f3 : BitVec 3) (a b : U64) : Alu :=
  match f7, f3 with
  | 0b0000000#7, 0b000#3 => .value (a + b)
  | 0b0100000#7, 0b000#3 => .value (a - b)
  | 0b0000000#7, 0b001#3 => .value (wrappingShl a (b &&& 63#64).toNat)
  | 0b0000000#7, 0b010#3 => .value (ofBool (a.slt b))
  | 0b0000000#7, 0b011#3 => .value (ofBool (a < b))
  | 0b0000000#7, 0b100#3 => .value (a ^^^ b)
  | 0b0000000#7, 0b101#3 => .value (wrappingShr a (b &&& 63#64).toNat)
  | 0b0100000#7, 0b101#3 => .value (a.sshiftRight (b &&& 63#64).toNat)
  | 0b0000000#7, 0b110#3 => .value (a ||| b)
  | 0b0000000#7, 0b111#3 => .value (a &&& b)
  -- the M extension; the upper halves through a 128-bit product
  | 0b0000001#7, 0b000#3 => .value (a * b)
  | 0b0000001#7, 0b001#3 =>
    .value (((a.signExtend 128 * b.signExtend 128).sshiftRight 64).setWidth 64)
  | 0b0000001#7, 0b010#3 =>
    .value (((a.signExtend 128 * b.setWidth 128).sshiftRight 64).setWidth 64)
  | 0b0000001#7, 0b011#3 =>
    .value (((a.setWidth 128 * b.setWidth 128) >>> 64).setWidth 64)
  | 0b0000001#7, 0b100#3 =>
    .value (match checkedDiv a b with
      | some q => q
      | none => if b = 0 then BitVec.allOnes 64 else BitVec.intMin 64)
  | 0b0000001#7, 0b101#3 => .value ((checkedUdiv a b).getD (BitVec.allOnes 64))
  | 0b0000001#7, 0b110#3 =>
    .value (match checkedRem a b with
      | some r => r
      | none => if b = 0 then a else 0)
  | 0b0000001#7, 0b111#3 => .value (if b = 0 then a else a % b)
  | _, _ => .illegal

/-- OP-32. The zero tests of the four divisions are on the 64-bit register. -/
def op32 (f7 : BitVec 7) (f3 : BitVec 3) (a b : U64) : Alu :=
  match f7, f3 with
  | 0b0000000#7, 0b000#3 => .value (sext32 (low32 a + low32 b))
  | 0b0100000#7, 0b000#3 => .value (sext32 (low32 a - low32 b))
  | 0b0000000#7, 0b001#3 => .value (sext32 (wrappingShl (low32 a) (b &&& 31#64).toNat))
  | 0b0000000#7, 0b101#3 => .value (sext32 (low32 a >>> (b &&& 31#64).toNat))
  | 0b0100000#7, 0b101#3 => .value (sext32 ((low32 a).sshiftRight (b &&& 31#64).toNat))
  | 0b0000001#7, 0b000#3 => .value (sext32 (low32 a * low32 b))
  | 0b0000001#7, 0b100#3 =>
    .value (match checkedDiv (low32 a) (low32 b) with
      | some q => sext32 q
      | none => if b = 0 then BitVec.allOnes 64 else sext32 (BitVec.intMin 32))
  | 0b0000001#7, 0b101#3 =>
    -- a plain `/` on the low words: the host checks the divisor again
    if b = 0 then .value (BitVec.allOnes 64)
    else
      match hostUdiv (low32 a) (low32 b) with
      | some q => .value (sext32 q)
      | none => .panic
  | 0b0000001#7, 0b110#3 =>
    .value (match checkedRem (low32 a) (low32 b) with
      | some r => sext32 r
      | none => if b = 0 then sext32 (low32 a) else 0)
  | 0b0000001#7, 0b111#3 =>
    if b = 0 then .value (sext32 (low32 a))
    else
      match hostUrem (low32 a) (low32 b) with
      | some r => .value (sext32 r)
      | none => .panic
  | _, _ => .illegal

/-- Finish an arithmetic arm: write `rd` and fall through, or trap. -/
def Machine.finish (m : Machine) (pc nextPc : U64) (inst : U32) (rd : Reg) : Alu → Outcome
  | .value v => m.retire rd v nextPc
  | .illegal => m.trap (illegal pc inst)
  | .panic => none

/-! ## System instructions -/

/-- Linux `write(64)` and `exit(93)`; anything else traps. -/
def doSyscall (m : Machine) : Outcome :=
  let cpu := m.cpu
  if cpu.get 17 = 64 then
    let fd := cpu.get 10
    let buf := cpu.get 11
    let len := cpu.get 12
    if fd ≠ 1 ∨ len.toNat > 2 ^ 20 then m.trap .ecall
    else
      match m.mem.readRegion buf len.toNat with
      | .error _ => m.trap .ecall
      | .ok bytes =>
        Machine.retire { m with mem := { m.mem with syscallLog := m.mem.syscallLog ++ bytes } }
          10 len (cpu.pc + 4)
  else if cpu.get 17 = 93 then some (m, .ok true)
  else m.trap .ecall

/-- The CSR read: unknown CSRs read as zero. -/
def readCsr (c : Cpu) (num : BitVec 12) : U64 :=
  match num with
  | 0x300#12 => c.mstatus
  | 0x305#12 => c.mtvec
  | 0x341#12 => c.mepc
  | 0x342#12 => c.mcause
  | _ => 0

/-- The CSR write-back: unknown CSRs ignore it, `mtvec` keeps a direct-mode base. -/
def writeCsr (c : Cpu) (num : BitVec 12) (new : U64) : Cpu :=
  match num with
  | 0x300#12 => { c with mstatus := new }
  | 0x305#12 => { c with mtvec := new &&& ~~~3#64 }
  | 0x341#12 => { c with mepc := new }
  | 0x342#12 => { c with mcause := new }
  | _ => c

/-- The source operand of a CSR instruction: `rs1`, or the 5-bit immediate
with the source's own treatment of its top bit. -/
def csrSrc (f3 : BitVec 3) (zimm : BitVec 5) (a : U64) : U64 :=
  match f3 with
  | 0b001#3 | 0b010#3 | 0b011#3 => a
  | _ => if zimm &&& 0x10#5 ≠ 0 then zimm.setWidth 64 - 0x10#64 else zimm.setWidth 64

def csrNew (f3 : BitVec 3) (old src : U64) : U64 :=
  match f3 with
  | 0b001#3 | 0b101#3 => src
  | 0b010#3 | 0b110#3 => old ||| src
  | _ => old &&& ~~~src

/-- The SYSTEM arm: ecall, ebreak, mret and Zicsr. -/
def system (m : Machine) (pc nextPc : U64) (inst : U32) (syscalls : Bool) : Outcome :=
  let rd : Reg := field inst 7 5
  let f3 : BitVec 3 := field inst 12 3
  let csrNum : BitVec 12 := field inst 20 12
  if f3 = 0 then
    if csrNum = 0 then
      if syscalls then doSyscall m else m.trap .ecall
    else if csrNum = 1 then some (m, .ok true)
    else if csrNum = 0x302#12 then
      some ({ m with cpu :=
        { m.cpu with pc := m.cpu.mepc, mstatus := m.cpu.mstatus &&& ~~~0x1800#64 } }, .ok false)
    else m.trap (illegal pc inst)
  else if f3 = 4 then m.trap (illegal pc inst)
  else
    let src := csrSrc f3 (field inst 15 5) (m.cpu.get (field inst 15 5))
    let old := readCsr m.cpu csrNum
    let cpu := writeCsr m.cpu csrNum (csrNew f3 old src)
    -- `if rd != 0` repeats the guard inside `set`
    let cpu := if rd ≠ 0 then cpu.set rd old else cpu
    Machine.jump { m with cpu } nextPc

/-! ## Post-fetch execution of a 32-bit word -/

/-- The load arm. -/
def execLoad (m : Machine) (pc nextPc : U64) (inst : U32) (rd : Reg) (f3 : BitVec 3)
    (addr : U64) : Outcome :=
  match loadKind f3 with
  | none => m.trap (illegal pc inst)
  | some (len, signExt) =>
    match m.mem.read addr len with
    | (.error e, mem) => Machine.trap { m with mem } (trapLoad e addr)
    | (.ok val, mem) => Machine.retire { m with mem } rd (loadExt len signExt val) nextPc

/-- The store arm. The tohost latch is set before the write is attempted. -/
def execStore (m : Machine) (pc nextPc : U64) (inst : U32) (f3 : BitVec 3) (addr b : U64)
    (tohostAddr : Option U64) : Outcome :=
  match storeLen f3 with
  | none => m.trap (illegal pc inst)
  | some len =>
    let cpu :=
      if some addr = tohostAddr ∧ (len = 8 ∨ len = 4) then
        { m.cpu with tohost := some (if len = 8 then b else b &&& 0xffffffff#64) }
      else m.cpu
    match m.mem.write addr ((leBytes 8 b.toNat).take len) with
    | (.error e, mem) => Machine.trap { cpu, mem } (trapStore e addr)
    | (.ok (), mem) => Machine.jump { cpu, mem } nextPc

/-- `match opcode { … }`, with the operands read before it. -/
def execute (m : Machine) (pc nextPc : U64) (inst : U32) (syscalls : Bool)
    (tohostAddr : Option U64) : Outcome :=
  let rd : Reg := field inst 7 5
  let f3 : BitVec 3 := field inst 12 3
  let f7 : BitVec 7 := field inst 25 7
  let a := m.cpu.get (field inst 15 5)
  let b := m.cpu.get (field inst 20 5)
  match (field inst 0 7 : BitVec 7) with
  -- LUI, AUIPC, JAL, JALR
  | 0b0110111#7 => m.retire rd (immU inst) nextPc
  | 0b0010111#7 => m.retire rd (pc + immU inst) nextPc
  | 0b1101111#7 => m.retire rd nextPc (pc + immJ inst)
  | 0b1100111#7 =>
    if f3 ≠ 0 then m.trap (illegal pc inst)
    else m.retire rd nextPc ((a + immI inst) &&& ~~~1#64)
  -- BRANCH, LOAD, STORE
  | 0b1100011#7 =>
    match branchTaken f3 a b with
    | none => m.trap (illegal pc inst)
    | some taken => m.jump (if taken then pc + immB inst else nextPc)
  | 0b0000011#7 => execLoad m pc nextPc inst rd f3 (a + immI inst)
  | 0b0100011#7 => execStore m pc nextPc inst f3 (a + immS inst) b tohostAddr
  -- OP-IMM, OP-IMM-32, OP, OP-32
  | 0b0010011#7 => m.finish pc nextPc inst rd (opImm inst f3 a (immI inst))
  | 0b0011011#7 => m.finish pc nextPc inst rd (opImm32 inst f7 f3 a (immI inst))
  | 0b0110011#7 => m.finish pc nextPc inst rd (op f7 f3 a b)
  | 0b0111011#7 => m.finish pc nextPc inst rd (op32 f7 f3 a b)
  -- MISC-MEM: both fences are no-ops
  | 0b0001111#7 => if f3 = 0 ∨ f3 = 1 then m.jump nextPc else m.trap (illegal pc inst)
  | 0b1110011#7 => system m pc nextPc inst syscalls
  | _ => m.trap (illegal pc inst)

/-! ## Compressed instructions -/

/-- A field `(hw >> lo) & mask` of a halfword. -/
def cfield (hw : U16) (lo w : Nat) : BitVec w := (hw >>> lo).setWidth w

/-- Compressed register fields name `x8..x15`. -/
def creg (i : BitVec 3) : Reg := 8#5 + i.setWidth 5

/-- CJ-format immediate (c.j). -/
def cjImm (hw : U16) : U64 :=
  let v := (((hw >>> 12) &&& 0x1#16).setWidth 64 <<< 11)
    ||| (((hw >>> 8) &&& 0x1#16).setWidth 64 <<< 10)
    ||| (((hw >>> 9) &&& 0x3#16).setWidth 64 <<< 8)
    ||| (((hw >>> 6) &&& 0x1#16).setWidth 64 <<< 7)
    ||| (((hw >>> 7) &&& 0x1#16).setWidth 64 <<< 6)
    ||| (((hw >>> 2) &&& 0x1#16).setWidth 64 <<< 5)
    ||| (((hw >>> 11) &&& 0x1#16).setWidth 64 <<< 4)
    ||| (((hw >>> 3) &&& 0x7#16).setWidth 64 <<< 1)
  (v <<< 52 : U64).sshiftRight 52

/-- CB-format immediate (c.beqz/c.bnez). -/
def cbImm (hw : U16) : U64 :=
  let v := (((hw >>> 12) &&& 0x1#16).setWidth 64 <<< 8)
    ||| (((hw >>> 5) &&& 0x3#16).setWidth 64 <<< 6)
    ||| (((hw >>> 2) &&& 0x1#16).setWidth 64 <<< 5)
    ||| (((hw >>> 10) &&& 0x3#16).setWidth 64 <<< 3)
    ||| (((hw >>> 3) &&& 0x3#16).setWidth 64 <<< 1)
  (v <<< 55 : U64).sshiftRight 55

/-- `nzimm[5] = inst[12], nzimm[4:0] = inst[6:2]`, sign-extended. -/
def imm6 (hw : U16) : U64 :=
  ((hw >>> 12) &&& 0x1#16).setWidth 64 * (-32#64) + ((hw >>> 2) &&& 0x1f#16).setWidth 64

/-- `nzuimm[5:4|9:6|2|3]` of c.addi4spn. -/
def ciwImm (hw : U16) : U16 :=
  (((hw >>> 11) &&& 0x3#16) <<< 4) ||| (((hw >>> 7) &&& 0xf#16) <<< 6)
    ||| (((hw >>> 6) &&& 0x1#16) <<< 2) ||| (((hw >>> 5) &&& 0x1#16) <<< 3)

/-- `uimm[5:3|2|6]` of c.lw and c.sw. -/
def clwImm (hw : U16) : U16 :=
  (((hw >>> 10) &&& 0x7#16) <<< 3) ||| (((hw >>> 6) &&& 0x1#16) <<< 2)
    ||| (((hw >>> 5) &&& 0x1#16) <<< 6)

/-- `uimm[5:3|7:6]` of c.ld and c.sd. -/
def cldImm (hw : U16) : U16 :=
  (((hw >>> 10) &&& 0x7#16) <<< 3) ||| (((hw >>> 5) &&& 0x3#16) <<< 6)

/-- `nzimm[9|4|6|8:7|5]` of c.addi16sp, sign-extended from 10 bits. -/
def addi16spImm (hw : U16) : U64 :=
  let imm := (((hw >>> 12) &&& 0x1#16).setWidth 64 <<< 9)
    ||| (((hw >>> 6) &&& 0x1#16).setWidth 64 <<< 4)
    ||| (((hw >>> 5) &&& 0x1#16).setWidth 64 <<< 6)
    ||| (((hw >>> 3) &&& 0x3#16).setWidth 64 <<< 7)
    ||| (((hw >>> 2) &&& 0x1#16).setWidth 64 <<< 5)
  (imm <<< 54 : U64).sshiftRight 54

/-- `nzimm[17|16:12]` of c.lui, sign-extended from 18 bits. -/
def cluiImm (hw : U16) : U64 :=
  let imm := (((hw >>> 12) &&& 0x1#16).setWidth 64 <<< 17)
    ||| (((hw >>> 2) &&& 0x1f#16).setWidth 64 <<< 12)
  (imm <<< 46 : U64).sshiftRight 46

/-- The 6-bit shift amount `inst[12] : inst[6:2]`. -/
def cshamt (hw : U16) : U16 :=
  (((hw >>> 12) &&& 0x1#16) <<< 5) ||| ((hw >>> 2) &&& 0x1f#16)

/-- `uimm[5|4:2|7:6]` of c.lwsp. -/
def clwspImm (hw : U16) : U16 :=
  (((hw >>> 12) &&& 0x1#16) <<< 5) ||| (((hw >>> 4) &&& 0x7#16) <<< 2)
    ||| (((hw >>> 2) &&& 0x3#16) <<< 6)

/-- `uimm[5|4:3|8:6]` of c.ldsp. -/
def cldspImm (hw : U16) : U16 :=
  (((hw >>> 12) &&& 0x1#16) <<< 5) ||| (((hw >>> 5) &&& 0x3#16) <<< 3)
    ||| (((hw >>> 2) &&& 0x7#16) <<< 6)

/-- `uimm[5:2|7:6]` of c.swsp. -/
def cswspImm (hw : U16) : U16 :=
  (((hw >>> 9) &&& 0xf#16) <<< 2) ||| (((hw >>> 7) &&& 0x3#16) <<< 6)

/-- `uimm[5:3|8:6]` of c.sdsp. -/
def csdspImm (hw : U16) : U16 :=
  (((hw >>> 10) &&& 0x7#16) <<< 3) ||| (((hw >>> 7) &&& 0x7#16) <<< 6)

/-- The four compressed loads: `mem.read(addr, len)`, then write `rd`. -/
def cload (m : Machine) (nextPc : U64) (rd : Reg) (addr : U64) (len : Nat) : Outcome :=
  match m.mem.read addr len with
  | (.error e, mem) => Machine.trap { m with mem } (trapLoad e addr)
  | (.ok v, mem) => Machine.retire { m with mem } rd (loadExt len (len = 4) v) nextPc

/-- The four compressed stores: no tohost check here. -/
def cstore (m : Machine) (nextPc : U64) (addr b : U64) (len : Nat) : Outcome :=
  match m.mem.write addr ((leBytes 8 b.toNat).take len) with
  | (.error e, mem) => Machine.trap { m with mem } (trapStore e addr)
  | (.ok (), mem) => Machine.jump { m with mem } nextPc

/-- Quadrant 0. -/
def stepC0 (m : Machine) (pc nextPc : U64) (hw : U16) : Outcome :=
  let bad := Trap.illegalInstruction pc (hw.setWidth 32)
  let rdC := creg (cfield hw 2 3)
  let rs1C := creg (cfield hw 7 3)
  let rs2C := creg (cfield hw 2 3)
  match (cfield hw 13 3 : BitVec 3) with
  | 0b000#3 =>
    if ciwImm hw = 0 then m.trap bad
    else m.retire rdC (m.cpu.get 2 + (ciwImm hw).setWidth 64) nextPc
  | 0b010#3 => cload m nextPc rdC (m.cpu.get rs1C + (clwImm hw).setWidth 64) 4
  | 0b011#3 => cload m nextPc rdC (m.cpu.get rs1C + (cldImm hw).setWidth 64) 8
  | 0b110#3 => cstore m nextPc (m.cpu.get rs1C + (clwImm hw).setWidth 64) (m.cpu.get rs2C) 4
  | 0b111#3 => cstore m nextPc (m.cpu.get rs1C + (cldImm hw).setWidth 64) (m.cpu.get rs2C) 8
  | _ => m.trap bad

/-- The arithmetic group of quadrant 1 (`f3 = 100`). The destination is `rs1'`. -/
def stepC1Arith (m : Machine) (pc nextPc : U64) (hw : U16) : Outcome :=
  let bad := Trap.illegalInstruction pc (hw.setWidth 32)
  let dest := creg (cfield hw 7 3)
  let a := m.cpu.get dest
  let b := m.cpu.get (creg (cfield hw 2 3))
  match (cfield hw 10 2 : BitVec 2) with
  | 0b00#2 =>
    if cshamt hw = 0 then m.trap bad
    else m.retire dest (wrappingShr a (cshamt hw).toNat) nextPc
  | 0b01#2 =>
    if cshamt hw = 0 then m.trap bad
    else m.retire dest (a.sshiftRight (cshamt hw).toNat) nextPc
  | 0b10#2 => m.retire dest (a &&& imm6 hw) nextPc
  | 0b11#2 =>
    -- SUB, XOR, OR, AND; then the two word forms
    match (cfield hw 12 1 : BitVec 1), (cfield hw 5 2 : BitVec 2) with
    | 0b0#1, 0b00#2 => m.retire dest (a - b) nextPc
    | 0b0#1, 0b01#2 => m.retire dest (a ^^^ b) nextPc
    | 0b0#1, 0b10#2 => m.retire dest (a ||| b) nextPc
    | 0b0#1, 0b11#2 => m.retire dest (a &&& b) nextPc
    | 0b1#1, 0b00#2 => m.retire dest (sext32 (low32 a - low32 b)) nextPc
    | 0b1#1, 0b01#2 => m.retire dest (sext32 (low32 a + low32 b)) nextPc
    | _, _ => m.trap bad

/-- Quadrant 1. -/
def stepC1 (m : Machine) (pc nextPc : U64) (hw : U16) : Outcome :=
  let bad := Trap.illegalInstruction pc (hw.setWidth 32)
  let rd : Reg := cfield hw 7 5
  let rs1C := creg (cfield hw 7 3)
  match (cfield hw 13 3 : BitVec 3) with
  | 0b001#3 =>
    if rd = 0 then m.jump nextPc -- hint
    else m.retire rd (sext32 (low32 (m.cpu.get rd) + low32 (imm6 hw))) nextPc
  | 0b010#3 => m.retire rd (imm6 hw) nextPc
  | 0b011#3 =>
    if rd = 2 then
      if addi16spImm hw = 0 then m.trap bad
      else m.retire 2 (m.cpu.get 2 + addi16spImm hw) nextPc
    else if rd = 0 then m.jump nextPc -- hint
    else if cluiImm hw = 0 then m.trap bad
    else m.retire rd (cluiImm hw) nextPc
  | 0b100#3 => stepC1Arith m pc nextPc hw
  | 0b101#3 => m.jump (pc + cjImm hw)
  | 0b110#3 => m.jump (if m.cpu.get rs1C = 0 then pc + cbImm hw else nextPc)
  | 0b111#3 => m.jump (if m.cpu.get rs1C ≠ 0 then pc + cbImm hw else nextPc)
  | 0b000#3 =>
    if rd ≠ 0 then m.retire rd (m.cpu.get rd + imm6 hw) nextPc else m.jump nextPc

/-- Quadrant 2. -/
def stepC2 (m : Machine) (pc nextPc : U64) (hw : U16) : Outcome :=
  let bad := Trap.illegalInstruction pc (hw.setWidth 32)
  let rd : Reg := cfield hw 7 5
  let rs2 : Reg := cfield hw 2 5
  let sp := m.cpu.get 2
  match (cfield hw 13 3 : BitVec 3) with
  | 0b000#3 =>
    if rd ≠ 0 then m.retire rd (wrappingShl (m.cpu.get rd) (cshamt hw).toNat) nextPc
    else m.jump nextPc
  | 0b010#3 =>
    if rd = 0 then m.trap bad else cload m nextPc rd (sp + (clwspImm hw).setWidth 64) 4
  | 0b011#3 =>
    if rd = 0 then m.trap bad else cload m nextPc rd (sp + (cldspImm hw).setWidth 64) 8
  | 0b100#3 =>
    -- C.JR and C.MV, then C.EBREAK, C.JALR and C.ADD
    if (cfield hw 12 1 : BitVec 1) = 0 then
      if rs2 = 0 then
        if rd = 0 then m.trap bad else m.jump (m.cpu.get rd &&& ~~~1#64)
      else if rd ≠ 0 then m.retire rd (m.cpu.get rs2) nextPc
      else m.jump nextPc
    else if rs2 = 0 then
      if rd = 0 then some (m, .ok true)
      else m.retire 1 nextPc (m.cpu.get rd &&& ~~~1#64)
    else if rd ≠ 0 then m.retire rd (m.cpu.get rd + m.cpu.get rs2) nextPc
    else m.jump nextPc
  | 0b110#3 => cstore m nextPc (sp + (cswspImm hw).setWidth 64) (m.cpu.get rs2) 4
  | 0b111#3 => cstore m nextPc (sp + (csdspImm hw).setWidth 64) (m.cpu.get rs2) 8
  | _ => m.trap bad

/-- `step_c`: dispatch on the quadrant. Called only when the low bits are not `11`. -/
def stepC (m : Machine) (pc : U64) (hw : U16) : Outcome :=
  match (cfield hw 0 2 : BitVec 2) with
  | 0b00#2 => stepC0 m pc (pc + 2) hw
  | 0b01#2 => stepC1 m pc (pc + 2) hw
  | _ => stepC2 m pc (pc + 2) hw

/-! ## Fetch and dispatch -/

def stepMode (m : Machine) (syscalls : Bool) (tohostAddr : Option U64) : Outcome :=
  let pc := m.cpu.pc
  if pc.toNat ≥ addrSpace then m.trap .fetchOutOfRange
  else if pc.toNat % 2 ≠ 0 then m.trap .fetchUnaligned
  else
    match m.mem.read pc 2 with
    | (.error _, mem) => Machine.trap { m with mem } .fetchOutOfRange
    | (.ok v, mem) =>
      let m := { m with mem }
      let hw : U16 := v.setWidth 16
      if hw &&& 0b11#16 ≠ 0b11#16 then stepC m pc hw
      else
        match m.mem.read (pc + 2) 2 with
        | (.error _, mem) => Machine.trap { m with mem } .fetchOutOfRange
        | (.ok v, mem) =>
          let inst : U32 := (v.setWidth 32 <<< 16) ||| hw.setWidth 32
          execute { m with mem } pc (pc + 4) inst syscalls tohostAddr

def step (m : Machine) : Outcome := stepMode m false none

end Provework.Rvcore
