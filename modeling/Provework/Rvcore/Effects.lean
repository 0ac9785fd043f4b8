import Provework.Rvcore.Elf
import Provework.Rvcore.Resume

/-!
# What a step can touch

One case analysis of the interpreter, and what follows from it in every mode and
for every machine. A trap leaves the registers and the contents of memory alone; a
completed instruction leaves `x0` alone, leaves `mtvec` alone or aligned, and
leaves the tohost latch alone (`Outcome.Regular`). The one arm that does more is
the 32-bit store, which sets the latch before it attempts the write
(`execute_regular`, `stepMode_contained`).

Two results rest on it: a trapping instruction has no architectural effect
(`trap_has_no_effect`), and every state a run passes is well formed
(`visited_wellFormed`).
-/

namespace Provework.Rvcore

open Provework.Lib

/-! ## Reads touch the lookaside only -/

namespace Mem

/-- The same contents: only cache lines may differ. -/
structure Probed (m m' : Mem) : Prop where
  slots : m'.pageSlots = m.pageSlots
  dir : m'.pageDir = m.pageDir
  log : m'.syscallLog = m.syscallLog

theorem Probed.refl (m : Mem) : Probed m m := ⟨rfl, rfl, rfl⟩

theorem Probed.trans {a b c : Mem} (h : Probed a b) (h' : Probed b c) : Probed a c :=
  ⟨h'.slots.trans h.slots, h'.dir.trans h.dir, h'.log.trans h.log⟩

theorem Probed.pages {m m' : Mem} (h : Probed m m') : m'.pages = m.pages := by
  unfold Mem.pages Mem.page
  rw [h.dir, h.slots]

theorem slotOf_probed (m : Mem) (page : U32) : Probed m (m.slotOf page).2 := by
  rcases slotOf_mem m page with h | ⟨s, -, h⟩
  · rw [h]
    exact .refl m
  · rw [h]
    exact ⟨rfl, rfl, rfl⟩

theorem readByte_probed (m : Mem) (a : Nat) : Probed m (m.readByte a).2 := by
  have h := slotOf_probed m (pageOf a)
  unfold readByte
  generalize m.slotOf (pageOf a) = r at h
  obtain ⟨_ | s, m'⟩ := r
  · exact h
  · exact h

theorem readLoop_probed (addr : Nat) : ∀ (left : Nat) (m : Mem) (i : Nat) (val : U64),
    Probed m (m.readLoop addr i left val).2 := by
  intro left
  induction left with
  | zero =>
    intro m i val
    exact .refl m
  | succ left ih =>
    intro m i val
    rw [readLoop]
    exact (readByte_probed m (addr + i)).trans (ih _ _ _)

theorem read_probed (m : Mem) (addr : U64) (len : Nat) : Probed m (m.read addr len).2 := by
  unfold read
  split
  · exact .refl m
  · split
    · exact readLoop_probed addr.toNat len m 0 0
    · exact .refl m

/-- The range is checked before the first byte is written. -/
theorem write_failed {m mem : Mem} {addr : U64} {bytes : List U8} {e : MemError}
    (h : m.write addr bytes = (.error e, mem)) : mem = m := by
  unfold write at h
  split at h
  · cases h
  · exact (Prod.mk.inj h).2.symm

end Mem

/-! ## Ordinary outcomes -/

/-- What an instruction does to the registers when it completes. -/
structure Cpu.Moves (c c' : Cpu) : Prop where
  x0 : c'.x 0 = c.x 0
  mtvec : c'.mtvec = c.mtvec ∨ c'.mtvec.toNat % 4 = 0
  tohost : c'.tohost = c.tohost

/-- A panic; a trap that leaves registers and contents alone; or a completed
instruction. -/
inductive Outcome.Regular (m : Machine) : Outcome → Prop
  | panic : Regular m none
  | trap {mem : Mem} (t : Trap) : m.mem.Probed mem → Regular m (some (⟨m.cpu, mem⟩, .error t))
  | done {cpu : Cpu} (mem : Mem) (halted : Bool) : m.cpu.Moves cpu →
    Regular m (some (⟨cpu, mem⟩, .ok halted))

theorem Cpu.Moves.refl (c : Cpu) : c.Moves c := ⟨rfl, Or.inl rfl, rfl⟩

/-- The pc is nobody's business. -/
theorem Cpu.Moves.goto {c c' : Cpu} (h : c.Moves c') (pc : U64) : c.Moves { c' with pc } :=
  ⟨h.x0, h.mtvec, h.tohost⟩

theorem Cpu.Moves.set {c c' : Cpu} (h : c.Moves c') (r : Reg) (v : U64) : c.Moves (c'.set r v) := by
  refine ⟨?_, by rw [Cpu.set_mtvec]; exact h.mtvec, ?_⟩
  · unfold Cpu.set
    split
    next hr =>
      exact (Function.update_of_ne (Ne.symm hr) _ _).trans h.x0
    next => exact h.x0
  · unfold Cpu.set
    split <;> exact h.tohost

/-- Bits cleared are cleared. -/
theorem and_not_three_mod (v : U64) : (v &&& ~~~3#64).toNat % 4 = 0 := by
  have h : (v &&& ~~~3#64) &&& 3#64 = 0 := by
    rw [BitVec.and_assoc, BitVec.not_and_self]
    exact BitVec.and_zero
  have h' := congrArg BitVec.toNat h
  rw [BitVec.toNat_and] at h'
  have hmod : (v &&& ~~~3#64).toNat &&& (2 ^ 2 - 1) = 0 := h'
  rwa [Nat.and_two_pow_sub_one_eq_mod] at hmod

theorem Cpu.moves_writeCsr (c : Cpu) (num : BitVec 12) (new : U64) :
    c.Moves (writeCsr c num new) := by
  unfold writeCsr
  split
  · exact ⟨rfl, Or.inl rfl, rfl⟩
  · exact ⟨rfl, Or.inr (and_not_three_mod new), rfl⟩
  · exact ⟨rfl, Or.inl rfl, rfl⟩
  · exact ⟨rfl, Or.inl rfl, rfl⟩
  · exact .refl c

section

variable {m : Machine} {mem : Mem}

/-- What is regular after a read is regular before it. -/
theorem Outcome.Regular.probed {o : Outcome} (h : m.mem.Probed mem)
    (ho : Outcome.Regular ⟨m.cpu, mem⟩ o) : Outcome.Regular m o := by
  cases ho with
  | panic => exact .panic
  | trap t h' => exact .trap t (h.trans h')
  | done mem' halted hc => exact .done mem' halted hc

theorem regular_trap (m : Machine) (t : Trap) : Outcome.Regular m (m.trap t) := .trap t (.refl _)

theorem regular_halt (m : Machine) : Outcome.Regular m (some (m, .ok true)) :=
  .done _ true (.refl _)

theorem regular_jump (m : Machine) (target : U64) : Outcome.Regular m (m.jump target) :=
  .done _ false ((Cpu.Moves.refl _).goto target)

theorem regular_retire (m : Machine) (rd : Reg) (v target : U64) :
    Outcome.Regular m (m.retire rd v target) :=
  .done _ false (((Cpu.Moves.refl _).set rd v).goto target)

theorem regular_finish (m : Machine) (pc nextPc : U64) (inst : U32) (rd : Reg) (r : Alu) :
    Outcome.Regular m (m.finish pc nextPc inst rd r) := by
  cases r with
  | value v => exact regular_retire m rd v nextPc
  | illegal => exact regular_trap m _
  | panic => exact .panic

theorem regular_cload (m : Machine) (nextPc : U64) (rd : Reg) (addr : U64) (len : Nat) :
    Outcome.Regular m (cload m nextPc rd addr len) := by
  have h := Mem.read_probed m.mem addr len
  unfold cload
  generalize m.mem.read addr len = r at h
  obtain ⟨e | v, mem⟩ := r
  · exact .probed h (regular_trap ⟨m.cpu, mem⟩ _)
  · exact .probed h (regular_retire ⟨m.cpu, mem⟩ rd _ nextPc)

theorem regular_execLoad (m : Machine) (pc nextPc : U64) (inst : U32) (rd : Reg) (f3 : BitVec 3)
    (addr : U64) : Outcome.Regular m (execLoad m pc nextPc inst rd f3 addr) := by
  unfold execLoad
  cases loadKind f3 with
  | none => exact regular_trap m _
  | some k =>
    obtain ⟨len, signExt⟩ := k
    have h := Mem.read_probed m.mem addr len
    dsimp only
    generalize m.mem.read addr len = r at h
    obtain ⟨e | v, mem⟩ := r
    · exact .probed h (regular_trap ⟨m.cpu, mem⟩ _)
    · exact .probed h (regular_retire ⟨m.cpu, mem⟩ rd _ nextPc)

theorem regular_cstore (m : Machine) (nextPc addr b : U64) (len : Nat) :
    Outcome.Regular m (cstore m nextPc addr b len) := by
  unfold cstore
  rcases hw : m.mem.write addr ((leBytes 8 b.toNat).take len) with ⟨e | _, mem⟩
  · rw [Mem.write_failed hw]
    exact regular_trap m _
  · exact .done mem false ((Cpu.Moves.refl _).goto nextPc)

theorem regular_doSyscall (m : Machine) : Outcome.Regular m (doSyscall m) := by
  unfold doSyscall
  dsimp only
  split
  · split
    · exact regular_trap m _
    · split
      · exact regular_trap m _
      · exact .done _ false (((Cpu.Moves.refl _).set _ _).goto _)
  · split
    · exact regular_halt m
    · exact regular_trap m _

theorem regular_system (m : Machine) (pc nextPc : U64) (inst : U32) (syscalls : Bool) :
    Outcome.Regular m (system m pc nextPc inst syscalls) := by
  unfold system
  dsimp only
  split
  · split
    · split
      · exact regular_doSyscall m
      · exact regular_trap m _
    · split
      · exact regular_halt m
      · split
        · exact .done _ false ⟨rfl, Or.inl rfl, rfl⟩
        · exact regular_trap m _
  · split
    · exact regular_trap m _
    · have hcsr := Cpu.moves_writeCsr m.cpu (field inst 20 12)
        (csrNew (field inst 12 3) (readCsr m.cpu (field inst 20 12))
          (csrSrc (field inst 12 3) (field inst 15 5) (m.cpu.get (field inst 15 5))))
      split
      · exact .done _ false ((hcsr.set _ _).goto nextPc)
      · exact .done _ false (hcsr.goto nextPc)

/-! ## The compressed half -/

theorem regular_stepC0 (m : Machine) (pc nextPc : U64) (hw : U16) :
    Outcome.Regular m (stepC0 m pc nextPc hw) := by
  unfold stepC0
  dsimp only
  split
  · split
    · exact regular_trap m _
    · exact regular_retire m _ _ _
  · exact regular_cload ..
  · exact regular_cload ..
  · exact regular_cstore ..
  · exact regular_cstore ..
  · exact regular_trap m _

theorem regular_stepC1Arith (m : Machine) (pc nextPc : U64) (hw : U16) :
    Outcome.Regular m (stepC1Arith m pc nextPc hw) := by
  unfold stepC1Arith
  dsimp only
  split
  · split
    · exact regular_trap m _
    · exact regular_retire m _ _ _
  · split
    · exact regular_trap m _
    · exact regular_retire m _ _ _
  · exact regular_retire m _ _ _
  · split
    all_goals first
      | exact regular_retire m _ _ _
      | exact regular_trap m _

theorem regular_stepC1 (m : Machine) (pc nextPc : U64) (hw : U16) :
    Outcome.Regular m (stepC1 m pc nextPc hw) := by
  unfold stepC1
  dsimp only
  split
  · split
    · exact regular_jump m _
    · exact regular_retire m _ _ _
  · exact regular_retire m _ _ _
  · split
    · split
      · exact regular_trap m _
      · exact regular_retire m _ _ _
    · split
      · exact regular_jump m _
      · split
        · exact regular_trap m _
        · exact regular_retire m _ _ _
  · exact regular_stepC1Arith m pc nextPc hw
  · exact regular_jump m _
  · exact regular_jump m _
  · exact regular_jump m _
  · split
    · exact regular_retire m _ _ _
    · exact regular_jump m _

theorem regular_stepC2 (m : Machine) (pc nextPc : U64) (hw : U16) :
    Outcome.Regular m (stepC2 m pc nextPc hw) := by
  unfold stepC2
  dsimp only
  split
  · split
    · exact regular_retire m _ _ _
    · exact regular_jump m _
  · split
    · exact regular_trap m _
    · exact regular_cload ..
  · split
    · exact regular_trap m _
    · exact regular_cload ..
  · split
    · split
      · split
        · exact regular_trap m _
        · exact regular_jump m _
      · split
        · exact regular_retire m _ _ _
        · exact regular_jump m _
    · split
      · split
        · exact regular_halt m
        · exact regular_retire m _ _ _
      · split
        · exact regular_retire m _ _ _
        · exact regular_jump m _
  · exact regular_cstore ..
  · exact regular_cstore ..
  · exact regular_trap m _

theorem regular_stepC (m : Machine) (pc : U64) (hw : U16) : Outcome.Regular m (stepC m pc hw) := by
  unfold stepC
  split
  · exact regular_stepC0 m pc _ hw
  · exact regular_stepC1 m pc _ hw
  · exact regular_stepC2 m pc _ hw

/-! ## The 32-bit half -/

/-- Every arm but the store. -/
theorem execute_regular (m : Machine) (pc nextPc : U64) (inst : U32) (syscalls : Bool)
    (tohostAddr : Option U64) (hop : field inst 0 7 ≠ 0b0100011#7) :
    Outcome.Regular m (execute m pc nextPc inst syscalls tohostAddr) := by
  unfold execute
  dsimp only
  split
  · exact regular_retire m _ _ _
  · exact regular_retire m _ _ _
  · exact regular_retire m _ _ _
  · split
    · exact regular_trap m _
    · exact regular_retire m _ _ _
  · split
    · exact regular_trap m _
    · exact regular_jump m _
  · exact regular_execLoad ..
  next h => exact absurd h hop
  · exact regular_finish ..
  · exact regular_finish ..
  · exact regular_finish ..
  · exact regular_finish ..
  · split
    · exact regular_jump m _
    · exact regular_trap m _
  · exact regular_system ..
  · exact regular_trap m _

end

/-! ## A whole step -/

/-- An instruction as `step_mode` finds it. -/
inductive Code where
  | half (hw : U16)
  | word (inst : U32)
  deriving DecidableEq

/-- The fetch at the head of `step_mode`. -/
def Machine.fetch (m : Machine) : Option Code :=
  let pc := m.cpu.pc
  if pc.toNat ≥ addrSpace then none
  else if pc.toNat % 2 ≠ 0 then none
  else
    match m.mem.read pc 2 with
    | (.error _, _) => none
    | (.ok v, mem) =>
      let hw : U16 := v.setWidth 16
      if hw &&& 0b11#16 ≠ 0b11#16 then some (.half hw)
      else
        match mem.read (pc + 2) 2 with
        | (.error _, _) => none
        | (.ok v, _) => some (.word ((v.setWidth 32 <<< 16) ||| hw.setWidth 32))

/-- A call of `step_mode`, by what it fetched. The fetch itself moves cache lines
at most. -/
inductive Machine.Fetched (m : Machine) (syscalls : Bool) (tohostAddr : Option U64) :
    Option Code → Outcome → Prop
  | fails {mem : Mem} (t : Trap) : m.mem.Probed mem →
    Fetched m syscalls tohostAddr none (Machine.trap ⟨m.cpu, mem⟩ t)
  | half {mem : Mem} (hw : U16) : m.mem.Probed mem →
    Fetched m syscalls tohostAddr (some (.half hw)) (stepC ⟨m.cpu, mem⟩ m.cpu.pc hw)
  | word {mem : Mem} (inst : U32) : m.mem.Probed mem →
    Fetched m syscalls tohostAddr (some (.word inst))
      (execute ⟨m.cpu, mem⟩ m.cpu.pc (m.cpu.pc + 4) inst syscalls tohostAddr)

theorem stepMode_fetched (m : Machine) (syscalls : Bool) (tohostAddr : Option U64) :
    m.Fetched syscalls tohostAddr m.fetch (stepMode m syscalls tohostAddr) := by
  unfold Machine.fetch stepMode
  dsimp only
  by_cases hrange : m.cpu.pc.toNat ≥ addrSpace
  · rw [if_pos hrange, if_pos hrange]
    exact .fails _ (.refl _)
  rw [if_neg hrange, if_neg hrange]
  by_cases hodd : m.cpu.pc.toNat % 2 ≠ 0
  · rw [if_pos hodd, if_pos hodd]
    exact .fails _ (.refl _)
  rw [if_neg hodd, if_neg hodd]
  have h := Mem.read_probed m.mem m.cpu.pc 2
  generalize m.mem.read m.cpu.pc 2 = r at h
  obtain ⟨e | v, mem⟩ := r
  · exact .fails _ h
  dsimp only
  by_cases hhalf : v.setWidth 16 &&& 0b11#16 ≠ 0b11#16
  · rw [if_pos hhalf, if_pos hhalf]
    exact .half _ h
  rw [if_neg hhalf, if_neg hhalf]
  have h' := Mem.read_probed mem (m.cpu.pc + 2) 2
  generalize mem.read (m.cpu.pc + 2) 2 = r at h'
  obtain ⟨e | w, mem'⟩ := r
  · exact .fails _ (h.trans h')
  · exact .word _ (h.trans h')

/-- What is left alone by a trap: all but cache lines and the tohost latch. -/
structure Machine.Untouched (m m' : Machine) : Prop where
  cpu : ∃ latch, m'.cpu = { m.cpu with tohost := latch }
  mem : m.mem.Probed m'.mem

/-- What every step keeps to, the 32-bit store included. -/
inductive Outcome.Contained (m : Machine) : Outcome → Prop
  | panic : Contained m none
  | trap {m' : Machine} (t : Trap) : m.Untouched m' → Contained m (some (m', .error t))
  | done {m' : Machine} (halted : Bool) : m'.cpu.x 0 = m.cpu.x 0 →
    (m'.cpu.mtvec = m.cpu.mtvec ∨ m'.cpu.mtvec.toNat % 4 = 0) →
    Contained m (some (m', .ok halted))

theorem Outcome.Regular.contained {m : Machine} {o : Outcome} (h : Outcome.Regular m o) :
    Outcome.Contained m o := by
  cases h with
  | panic => exact .panic
  | trap t hp => exact .trap t ⟨⟨_, rfl⟩, hp⟩
  | done mem halted hc => exact .done halted hc.x0 hc.mtvec

/-- The store may have set the latch when its write fails. -/
theorem execStore_contained (m : Machine) (pc nextPc : U64) (inst : U32) (f3 : BitVec 3)
    (addr b : U64) (tohostAddr : Option U64) :
    Outcome.Contained m (execStore m pc nextPc inst f3 addr b tohostAddr) := by
  unfold execStore
  cases storeLen f3 with
  | none => exact (regular_trap m _).contained
  | some len =>
    dsimp only
    generalize hcpu : (if some addr = tohostAddr ∧ (len = 8 ∨ len = 4) then
      { m.cpu with tohost := some (if len = 8 then b else b &&& 0xffffffff#64) } else m.cpu) = cpu
    have hlatch : ∃ latch, cpu = { m.cpu with tohost := latch } := by
      rw [← hcpu]
      split
      · exact ⟨_, rfl⟩
      · exact ⟨_, rfl⟩
    rcases hw : m.mem.write addr ((leBytes 8 b.toNat).take len) with ⟨e | _, mem⟩
    · rw [Mem.write_failed hw]
      exact .trap _ ⟨hlatch, .refl _⟩
    · obtain ⟨latch, rfl⟩ := hlatch
      exact .done false rfl (Or.inl rfl)

/-- The store arm. -/
theorem execute_storeOp (m : Machine) (pc nextPc : U64) {inst : U32} (syscalls : Bool)
    (tohostAddr : Option U64) (hop : field inst 0 7 = 0b0100011#7) :
    execute m pc nextPc inst syscalls tohostAddr =
      execStore m pc nextPc inst (field inst 12 3) (m.cpu.get (field inst 15 5) + immS inst)
        (m.cpu.get (field inst 20 5)) tohostAddr := by
  unfold execute
  simp only [hop]

theorem execute_contained (m : Machine) (pc nextPc : U64) (inst : U32) (syscalls : Bool)
    (tohostAddr : Option U64) :
    Outcome.Contained m (execute m pc nextPc inst syscalls tohostAddr) := by
  by_cases hop : field inst 0 7 = 0b0100011#7
  · rw [execute_storeOp m pc nextPc syscalls tohostAddr hop]
    exact execStore_contained ..
  · exact (execute_regular m pc nextPc inst syscalls tohostAddr hop).contained

theorem Outcome.Contained.probed {m : Machine} {mem : Mem} (h : m.mem.Probed mem) {o : Outcome}
    (ho : Outcome.Contained ⟨m.cpu, mem⟩ o) : Outcome.Contained m o := by
  cases ho with
  | panic => exact .panic
  | trap t hu => exact .trap t ⟨hu.cpu, h.trans hu.mem⟩
  | done halted hx hmtvec => exact .done halted hx hmtvec

/-- **What a step keeps to**, in every mode and from every machine. -/
theorem stepMode_contained (m : Machine) (syscalls : Bool) (tohostAddr : Option U64) :
    Outcome.Contained m (stepMode m syscalls tohostAddr) := by
  have hfetch := stepMode_fetched m syscalls tohostAddr
  generalize m.fetch = code at hfetch
  generalize stepMode m syscalls tohostAddr = o at hfetch
  cases hfetch with
  | fails t h => exact .probed h (regular_trap ⟨m.cpu, _⟩ t).contained
  | half hw h => exact .probed h (regular_stepC ⟨m.cpu, _⟩ m.cpu.pc hw).contained
  | word inst h =>
    exact .probed h (execute_contained ⟨m.cpu, _⟩ m.cpu.pc _ inst syscalls tohostAddr)

/-! ## Traps -/

theorem Machine.Untouched.sameHashed {m m' : Machine} (h : m.Untouched m') : m'.SameHashed m := by
  obtain ⟨latch, hcpu⟩ := h.cpu
  constructor
  case pages => exact h.mem.pages
  all_goals rw [hcpu]

theorem stepMode_untouched {m m' : Machine} {syscalls : Bool} {tohostAddr : Option U64} {t : Trap}
    (h : stepMode m syscalls tohostAddr = some (m', .error t)) : m.Untouched m' := by
  have hstep := stepMode_contained m syscalls tohostAddr
  rw [h] at hstep
  cases hstep with
  | trap _ hu => exact hu

/-- **A trapping instruction has no architectural effect.** For every machine,
syscall mode and tohost address: if `step_mode` returns an error, registers, pc,
CSRs, the map of pages and the syscall log are as before the call. So a hash of
the trapped state is a hash of the state before, and a handler finds the address
of the faulting instruction in `mepc`. -/
theorem trap_has_no_effect (m : Machine) (syscalls : Bool) (tohostAddr : Option U64)
    {m' : Machine} {t : Trap} (h : stepMode m syscalls tohostAddr = some (m', .error t)) :
    m'.SameHashed m ∧ m'.mem.syscallLog = m.mem.syscallLog ∧
      (∀ (blake3 : List U8 → Hash) (prev : Hash),
        stateHash blake3 prev m' = stateHash blake3 prev m) ∧
      (routeTrap m' t).cpu.mepc = m.cpu.pc := by
  have hu := stepMode_untouched h
  have hsame := hu.sameHashed
  exact ⟨hsame, hu.mem.log, fun _ _ => hsame.stateHash_eq, hsame.pc⟩

/-- `sd x0, -4(x0)`: the write is out of range, after the latch of a device at
that address was set. -/
theorem trap_has_no_effect_store :
    ∃ m', stepMode (started (image 0x1000 [0x23, 0x3e, 0x00, 0xfe]) 0x1000 []) false
        (some 0xFFFFFFFFFFFFFFFC) = some (m', .error (.storeOutOfRange 0xFFFFFFFFFFFFFFFC)) ∧
      m'.cpu.tohost = some 0 ∧
      m'.SameHashed (started (image 0x1000 [0x23, 0x3e, 0x00, 0xfe]) 0x1000 []) := by
  have hres : (stepMode (started (image 0x1000 [0x23, 0x3e, 0x00, 0xfe]) 0x1000 []) false
      (some 0xFFFFFFFFFFFFFFFC)).map (fun r => (r.1.cpu.tohost, r.2))
        = some (some 0, .error (.storeOutOfRange 0xFFFFFFFFFFFFFFFC)) := by decide +kernel
  obtain ⟨⟨m', res⟩, hstep, hout⟩ := Option.map_eq_some_iff.mp hres
  obtain ⟨hlatch, rfl⟩ := Prod.mk.inj hout
  exact ⟨m', hstep, hlatch, (trap_has_no_effect _ _ _ hstep).1⟩

/-! ## Well-formed machines -/

/-- Register zero is zero, the handler's address is aligned, pages lie in the
4 GiB space and each has a slot of its own. -/
structure Machine.WellFormed (m : Machine) : Prop where
  x0 : m.cpu.x 0 = 0
  mtvec : m.cpu.mtvec.toNat % 4 = 0
  page_lt : ∀ (p : U32) (s : Nat), m.mem.pageDir[p]? = some s → p.toNat < 2 ^ 20
  slot_lt : ∀ (p : U32) (s : Nat), m.mem.pageDir[p]? = some s → s < m.mem.pageSlots.length
  slot_inj : ∀ (p q : U32) (s : Nat), m.mem.pageDir[p]? = some s → m.mem.pageDir[q]? = some s →
    p = q

/-- What carries it: the lookaside has to be coherent too. -/
structure Machine.Sound (m : Machine) : Prop where
  x0 : m.cpu.x 0 = 0
  mtvec : m.cpu.mtvec.toNat % 4 = 0
  valid : m.mem.Valid

theorem Machine.Sound.wellFormed {m : Machine} (h : m.Sound) : m.WellFormed :=
  ⟨h.x0, h.mtvec, h.valid.pages_lt, h.valid.dir_lt, h.valid.dir_inj⟩

theorem Machine.Sound.stepMode {m m' : Machine} {syscalls : Bool} {tohostAddr : Option U64}
    {res : Except Trap Bool} (h : m.Sound)
    (hstep : Rvcore.stepMode m syscalls tohostAddr = some (m', res)) : m'.Sound := by
  have hvalid := stepMode_valid h.valid hstep
  have hcont := stepMode_contained m syscalls tohostAddr
  rw [hstep] at hcont
  cases hcont with
  | trap t hu =>
    have hsame := hu.sameHashed
    exact ⟨hsame.x ▸ h.x0, hsame.mtvec ▸ h.mtvec, hvalid⟩
  | done halted hx hmtvec =>
    refine ⟨hx.trans h.x0, ?_, hvalid⟩
    rcases hmtvec with hkept | haligned
    · rw [hkept]
      exact h.mtvec
    · exact haligned

theorem Machine.Sound.routeTrap {m : Machine} (t : Trap) (h : m.Sound) :
    (Rvcore.routeTrap m t).Sound := ⟨h.x0, h.mtvec, h.valid⟩

theorem started_sound {mem : Mem} (hv : mem.Valid) (entry : U64) (input : List U8) :
    (started mem entry input).Sound := by
  have hx : (Cpu.new entry stackTop).x 0 = 0 := by simp [Cpu.new]
  exact ⟨hx, rfl, started_valid hv entry input⟩

/-- An image: segments loaded over whatever calls of `Mem` built. -/
def loaded (ops : List MemOp) (elf : ElfImage) : Mem := (Elf.load (Mem.new.execAll ops).2 elf).2

/-- **Machines stay well formed.** For every image, entry, input and configuration,
in every state `run` passes, routed traps included. -/
theorem visited_wellFormed (ops : List MemOp) (elf : ElfImage) (entry : U64) (input : List U8)
    (cfg : Config) :
    ∀ m ∈ visited cfg cfg.maxInstructions.toNat (started (loaded ops elf) entry input),
      m.WellFormed := by
  intro m hm
  have himage : (loaded ops elf).Valid :=
    Elf.load_valid (Mem.execAll_spec ops Mem.new_valid).2.2 elf
  have hsound : m.Sound := visited_inv (I := Machine.Sound) (fun h hstep => h.stepMode hstep)
    (fun t h => h.routeTrap t) _ (started_sound himage entry input) hm
  exact hsound.wellFormed

/-- `csrrwi x0, mtvec, 5`, whose handler at 4 starts with an illegal halfword:
the routed states are visited too. -/
theorem visited_wellFormed_handler :
    ∃ m ∈ visited { maxInstructions := 3 } 3
        (started (loaded [] ⟨0x1000, [(0x1000, [0x73, 0xd0, 0x52, 0x30])], none⟩) 0x1000 []),
      m.cpu.pc = 4 ∧ m.cpu.mcause = 2 ∧ m.WellFormed := by
  have hpc : (visited { maxInstructions := 3 } 3
      (started (loaded [] ⟨0x1000, [(0x1000, [0x73, 0xd0, 0x52, 0x30])], none⟩) 0x1000 []))[4]?.map
        (fun m => (m.cpu.pc, m.cpu.mcause)) = some (4, 2) := by decide +kernel
  obtain ⟨m, hm, hat⟩ := Option.map_eq_some_iff.mp hpc
  obtain ⟨hpc, hcause⟩ := Prod.mk.inj hat
  have hmem := List.mem_of_getElem? hm
  exact ⟨m, hmem, hpc, hcause, visited_wellFormed _ _ _ _ { maxInstructions := 3 } m hmem⟩

end Provework.Rvcore
