import Provework.Rvcore.Hash
import Provework.Rvcore.Interp

/-!
# Execution depends on the hashed state only

Two machines with valid memories that agree on everything the state hash covers
are `Twin`s: they may differ in slot order, in cache lines, in the tohost latch
and in the syscall log. In every mode a step takes twins to twins with the same
result (`Machine.Twin.stepMode`), so a machine restored from a snapshot runs
like the one the snapshot was taken from.

The proof follows the interpreter: once the register reads of the two sides are
identified, both sides branch on the same terms.
-/

namespace Provework.Rvcore

open Provework.Lib

/-- Equal in everything a step can see. -/
structure Machine.Twin (m m' : Machine) : Prop extends m.SameHashed m' where
  valid : m.mem.Valid
  valid' : m'.mem.Valid

/-- Both panic, or both return the same result and leave twins. -/
inductive Outcome.Same : Outcome → Outcome → Prop
  | panic : Same none none
  | done {m m' : Machine} (res : Except Trap Bool) : m.Twin m' →
    Same (some (m, res)) (some (m', res))

theorem Machine.SameHashed.refl (m : Machine) : m.SameHashed m :=
  ⟨rfl, rfl, rfl, rfl, rfl, rfl, rfl⟩

theorem Machine.SameHashed.symm {m m' : Machine} (h : m.SameHashed m') : m'.SameHashed m :=
  ⟨h.x.symm, h.pc.symm, h.mtvec.symm, h.mepc.symm, h.mcause.symm, h.mstatus.symm, h.pages.symm⟩

/-- Reads see the abstract pages only. -/
theorem Mem.read_congr {m m' : Mem} (hv : m.Valid) (hv' : m'.Valid) (hp : m.pages = m'.pages)
    (addr : U64) (len : Nat) : (m.read addr len).1 = (m'.read addr len).1 := by
  by_cases hlen : Mem.ReadLen len
  · rw [Mem.read_eq hv addr hlen, Mem.read_eq hv' addr hlen, hp]
  · have hbad : len ≠ 1 ∧ len ≠ 2 ∧ len ≠ 4 ∧ len ≠ 8 := by
      unfold Mem.ReadLen at hlen
      omega
    unfold Mem.read
    rw [if_pos hbad, if_pos hbad]

namespace Machine.Twin

variable {m m' : Machine}

theorem refl (hv : m.mem.Valid) : m.Twin m := ⟨SameHashed.refl m, hv, hv⟩

theorem symm (h : m.Twin m') : m'.Twin m := ⟨h.toSameHashed.symm, h.valid', h.valid⟩

theorem get (h : m.Twin m') (r : Reg) : m.cpu.get r = m'.cpu.get r := congrFun h.x r

/-! ## The ways an instruction ends -/

theorem trap (h : m.Twin m') (t : Trap) : Outcome.Same (m.trap t) (m'.trap t) := .done _ h

theorem halt (h : m.Twin m') : Outcome.Same (some (m, .ok true)) (some (m', .ok true)) := .done _ h

theorem jump (h : m.Twin m') (target : U64) : Outcome.Same (m.jump target) (m'.jump target) :=
  .done _ { h with pc := rfl }

theorem set (h : m.Twin m') (r : Reg) (v : U64) :
    Machine.Twin { m with cpu := m.cpu.set r v } { m' with cpu := m'.cpu.set r v } := by
  refine { h with x := ?_, pc := ?_, mtvec := ?_, mepc := ?_, mcause := ?_, mstatus := ?_ }
  · by_cases hr : r = 0
    · subst hr
      exact h.x
    · simp only [Cpu.set, ne_eq, hr, not_false_eq_true, if_true, h.x]
  · rw [Cpu.set_pc, Cpu.set_pc, h.pc]
  · rw [Cpu.set_mtvec, Cpu.set_mtvec, h.mtvec]
  · rw [Cpu.set_mepc, Cpu.set_mepc, h.mepc]
  · rw [Cpu.set_mcause, Cpu.set_mcause, h.mcause]
  · rw [Cpu.set_mstatus, Cpu.set_mstatus, h.mstatus]

theorem retire (h : m.Twin m') (rd : Reg) (v target : U64) :
    Outcome.Same (m.retire rd v target) (m'.retire rd v target) := (h.set rd v).jump target

theorem finish (h : m.Twin m') (pc nextPc : U64) (inst : U32) (rd : Reg) (r : Alu) :
    Outcome.Same (m.finish pc nextPc inst rd r) (m'.finish pc nextPc inst rd r) := by
  cases r with
  | value v => exact h.retire rd v nextPc
  | illegal => exact h.trap _
  | panic => exact .panic

/-! ## Memory -/

/-- A read returns the same on both sides and leaves twins. -/
theorem read (h : m.Twin m') (addr : U64) (len : Nat) :
    ∃ r mem mem', m.mem.read addr len = (r, mem) ∧ m'.mem.read addr len = (r, mem') ∧
      Machine.Twin { m with mem } { m' with mem := mem' } := by
  have hu := Mem.read_unchanged h.valid addr len
  have hu' := Mem.read_unchanged h.valid' addr len
  refine ⟨(m.mem.read addr len).1, (m.mem.read addr len).2, (m'.mem.read addr len).2, rfl,
    Prod.ext (Mem.read_congr h.valid h.valid' h.pages addr len).symm rfl, ?_⟩
  exact { h with
    pages := hu.pages.trans (h.pages.trans hu'.pages.symm), valid := hu.valid, valid' := hu'.valid }

/-- So does a write. -/
theorem write (h : m.Twin m') (addr : U64) (bytes : List U8) :
    ∃ r mem mem', m.mem.write addr bytes = (r, mem) ∧ m'.mem.write addr bytes = (r, mem') ∧
      Machine.Twin { m with mem } { m' with mem := mem' } := by
  rcases Mem.write_spec h.valid addr bytes with ⟨hr, hok, hval, hpages, -⟩ | ⟨hr, hw⟩
  · rcases Mem.write_spec h.valid' addr bytes with ⟨-, hok', hval', hpages', -⟩ | ⟨hr', -⟩
    · refine ⟨.ok (), _, _, Prod.ext hok rfl, Prod.ext hok' rfl, ?_⟩
      exact { h with
        pages := by rw [hpages, hpages', h.pages], valid := hval, valid' := hval' }
    · exact absurd hr hr'
  · rcases Mem.write_spec h.valid' addr bytes with ⟨hr', -⟩ | ⟨-, hw'⟩
    · exact absurd hr' hr
    · exact ⟨_, _, _, hw, hw', h⟩

theorem cload (h : m.Twin m') (nextPc : U64) (rd : Reg) (addr : U64) (len : Nat) :
    Outcome.Same (cload m nextPc rd addr len) (cload m' nextPc rd addr len) := by
  obtain ⟨r, mem, mem', hr, hr', hm⟩ := h.read addr len
  unfold Rvcore.cload
  rw [hr, hr']
  cases r with
  | error e => exact hm.trap _
  | ok v => exact hm.retire rd _ nextPc

theorem cstore (h : m.Twin m') (nextPc addr b : U64) (len : Nat) :
    Outcome.Same (cstore m nextPc addr b len) (cstore m' nextPc addr b len) := by
  obtain ⟨r, mem, mem', hr, hr', hm⟩ := h.write addr ((leBytes 8 b.toNat).take len)
  unfold Rvcore.cstore
  rw [hr, hr']
  cases r with
  | error e => exact hm.trap _
  | ok v => exact hm.jump nextPc

theorem execLoad (h : m.Twin m') (pc nextPc : U64) (inst : U32) (rd : Reg) (f3 : BitVec 3)
    (addr : U64) :
    Outcome.Same (execLoad m pc nextPc inst rd f3 addr)
      (execLoad m' pc nextPc inst rd f3 addr) := by
  unfold Rvcore.execLoad
  cases loadKind f3 with
  | none => exact h.trap _
  | some k =>
    obtain ⟨len, signExt⟩ := k
    obtain ⟨r, mem, mem', hr, hr', hm⟩ := h.read addr len
    simp only [hr, hr']
    cases r with
    | error e => exact hm.trap _
    | ok v => exact hm.retire rd _ nextPc

/-- The latch is no part of the hashed state. -/
theorem latch (h : m.Twin m') (p : Prop) [Decidable p] (v : U64) :
    Machine.Twin { m with cpu := if p then { m.cpu with tohost := some v } else m.cpu }
      { m' with cpu := if p then { m'.cpu with tohost := some v } else m'.cpu } := by
  by_cases hp : p
  · simp only [if_pos hp]
    exact { h with }
  · simp only [if_neg hp]
    exact h

theorem execStore (h : m.Twin m') (pc nextPc : U64) (inst : U32) (f3 : BitVec 3) (addr b : U64)
    (tohostAddr : Option U64) :
    Outcome.Same (execStore m pc nextPc inst f3 addr b tohostAddr)
      (execStore m' pc nextPc inst f3 addr b tohostAddr) := by
  unfold Rvcore.execStore
  cases storeLen f3 with
  | none => exact h.trap _
  | some len =>
    obtain ⟨r, mem, mem', hr, hr', hm⟩ := h.write addr ((leBytes 8 b.toNat).take len)
    have hl := hm.latch (some addr = tohostAddr ∧ (len = 8 ∨ len = 4))
      (if len = 8 then b else b &&& 0xffffffff#64)
    simp only [hr, hr']
    cases r with
    | error e => exact hl.trap _
    | ok v => exact hl.jump nextPc

/-! ## The arms of the interpreter -/

theorem readCsr (h : m.Twin m') (num : BitVec 12) : readCsr m.cpu num = readCsr m'.cpu num := by
  unfold Rvcore.readCsr
  rw [h.mstatus, h.mtvec, h.mepc, h.mcause]

theorem writeCsr (h : m.Twin m') (num : BitVec 12) (new : U64) :
    Machine.Twin { m with cpu := writeCsr m.cpu num new }
      { m' with cpu := writeCsr m'.cpu num new } := by
  unfold Rvcore.writeCsr
  split
  · exact { h with mstatus := rfl }
  · exact { h with mtvec := rfl }
  · exact { h with mepc := rfl }
  · exact { h with mcause := rfl }
  · exact h

/-- A syscall reads the guest's buffer and appends to the log, which no step reads. -/
theorem doSyscall (h : m.Twin m') : Outcome.Same (doSyscall m) (doSyscall m') := by
  unfold Rvcore.doSyscall
  simp only [h.get, h.pc]
  split
  · split
    · exact h.trap _
    · rw [Mem.readRegion_eq h.valid, Mem.readRegion_eq h.valid', h.pages]
      split
      · exact h.trap _
      · next bytes _ =>
        have hlog : Machine.Twin
            { m with mem := { m.mem with syscallLog := m.mem.syscallLog ++ bytes } }
            { m' with mem := { m'.mem with syscallLog := m'.mem.syscallLog ++ bytes } } :=
          { h with valid := h.valid.setLog _, valid' := h.valid'.setLog _ }
        exact hlog.retire _ _ _
  · split
    · exact h.halt
    · exact h.trap _

theorem system (h : m.Twin m') (pc nextPc : U64) (inst : U32) (syscalls : Bool) :
    Outcome.Same (system m pc nextPc inst syscalls) (system m' pc nextPc inst syscalls) := by
  unfold Rvcore.system
  simp only [h.get, h.readCsr]
  split
  · split
    · split
      · exact h.doSyscall
      · exact h.trap _
    · split
      · exact h.halt
      · split
        · exact .done _ { h with
            pc := h.mepc, mstatus := congrArg (· &&& ~~~0x1800#64) h.mstatus }
        · exact h.trap _
  · split
    · exact h.trap _
    · split
      · exact ((h.writeCsr _ _).set _ _).jump nextPc
      · exact (h.writeCsr _ _).jump nextPc

theorem execute (h : m.Twin m') (pc nextPc : U64) (inst : U32) (syscalls : Bool)
    (tohostAddr : Option U64) :
    Outcome.Same (execute m pc nextPc inst syscalls tohostAddr)
      (execute m' pc nextPc inst syscalls tohostAddr) := by
  unfold Rvcore.execute
  -- the operands are equal, so both sides take the same arm
  simp only [h.get]
  split
  · exact h.retire _ _ _
  · exact h.retire _ _ _
  · exact h.retire _ _ _
  · split
    · exact h.trap _
    · exact h.retire _ _ _
  · split
    · exact h.trap _
    · exact h.jump _
  · exact h.execLoad ..
  · exact h.execStore ..
  · exact h.finish ..
  · exact h.finish ..
  · exact h.finish ..
  · exact h.finish ..
  · split
    · exact h.jump _
    · exact h.trap _
  · exact h.system ..
  · exact h.trap _

theorem stepC0 (h : m.Twin m') (pc nextPc : U64) (hw : U16) :
    Outcome.Same (stepC0 m pc nextPc hw) (stepC0 m' pc nextPc hw) := by
  unfold Rvcore.stepC0
  simp only [h.get]
  split
  · split
    · exact h.trap _
    · exact h.retire _ _ _
  · exact h.cload ..
  · exact h.cload ..
  · exact h.cstore ..
  · exact h.cstore ..
  · exact h.trap _

theorem stepC1Arith (h : m.Twin m') (pc nextPc : U64) (hw : U16) :
    Outcome.Same (stepC1Arith m pc nextPc hw) (stepC1Arith m' pc nextPc hw) := by
  unfold Rvcore.stepC1Arith
  simp only [h.get]
  split
  · split
    · exact h.trap _
    · exact h.retire _ _ _
  · split
    · exact h.trap _
    · exact h.retire _ _ _
  · exact h.retire _ _ _
  · split
    all_goals first
      | exact h.retire _ _ _
      | exact h.trap _

theorem stepC1 (h : m.Twin m') (pc nextPc : U64) (hw : U16) :
    Outcome.Same (stepC1 m pc nextPc hw) (stepC1 m' pc nextPc hw) := by
  unfold Rvcore.stepC1
  simp only [h.get]
  split
  · split
    · exact h.jump _
    · exact h.retire _ _ _
  · exact h.retire _ _ _
  · split
    · split
      · exact h.trap _
      · exact h.retire _ _ _
    · split
      · exact h.jump _
      · split
        · exact h.trap _
        · exact h.retire _ _ _
  · exact h.stepC1Arith pc nextPc hw
  · exact h.jump _
  · exact h.jump _
  · exact h.jump _
  · split
    · exact h.retire _ _ _
    · exact h.jump _

theorem stepC2 (h : m.Twin m') (pc nextPc : U64) (hw : U16) :
    Outcome.Same (stepC2 m pc nextPc hw) (stepC2 m' pc nextPc hw) := by
  unfold Rvcore.stepC2
  simp only [h.get]
  split
  · split
    · exact h.retire _ _ _
    · exact h.jump _
  · split
    · exact h.trap _
    · exact h.cload ..
  · split
    · exact h.trap _
    · exact h.cload ..
  · split
    · split
      · split
        · exact h.trap _
        · exact h.jump _
      · split
        · exact h.retire _ _ _
        · exact h.jump _
    · split
      · split
        · exact h.halt
        · exact h.retire _ _ _
      · split
        · exact h.retire _ _ _
        · exact h.jump _
  · exact h.cstore ..
  · exact h.cstore ..
  · exact h.trap _

theorem stepC (h : m.Twin m') (pc : U64) (hw : U16) :
    Outcome.Same (stepC m pc hw) (stepC m' pc hw) := by
  unfold Rvcore.stepC
  split
  · exact h.stepC0 pc _ hw
  · exact h.stepC1 pc _ hw
  · exact h.stepC2 pc _ hw

/-- **Twins step alike**, in every mode. -/
theorem stepMode (h : m.Twin m') (syscalls : Bool) (tohostAddr : Option U64) :
    Outcome.Same (stepMode m syscalls tohostAddr) (stepMode m' syscalls tohostAddr) := by
  unfold Rvcore.stepMode
  simp only [h.pc]
  -- both fetches, whether or not the second is reached
  obtain ⟨r, mem, mem', hr, hr', h₁⟩ := h.read m'.cpu.pc 2
  obtain ⟨r₂, mem₂, mem₂', hr₂, hr₂', h₂⟩ := h₁.read (m'.cpu.pc + 2) 2
  simp only at hr₂ hr₂'
  simp only [hr, hr']
  split
  · exact h.trap _
  · split
    · exact h.trap _
    · cases r with
      | error e => exact h₁.trap _
      | ok v =>
        simp only [hr₂, hr₂']
        split
        · exact h₁.stepC _ _
        · cases r₂ with
          | error e => exact h₂.trap _
          | ok v₂ => exact h₂.execute _ _ _ _ _

theorem step (h : m.Twin m') : Outcome.Same (step m) (step m') := h.stepMode false none

end Machine.Twin

/-- Steps keep memories valid. -/
theorem stepMode_valid {m m' : Machine} {syscalls : Bool} {tohostAddr : Option U64}
    {res : Except Trap Bool} (hv : m.mem.Valid)
    (h : stepMode m syscalls tohostAddr = some (m', res)) : m'.mem.Valid := by
  have hsame := (Machine.Twin.refl hv).stepMode syscalls tohostAddr
  rw [h] at hsame
  cases hsame with
  | done _ ht => exact ht.valid

end Provework.Rvcore
