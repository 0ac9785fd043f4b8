import Provework.Rvcore.Budget
import Provework.Rvcore.Compressed
import Provework.Rvcore.Effects

/-!
# The tohost device

`run` polls a latch after every step and ends with `Tohost(v)` when it is set. It
is set by the 32-bit store alone, and before the store attempts its write. So the
runs that end that way are those that execute a 4- or 8-byte store to the device
address in its 32-bit form, whether or not the write succeeds
(`turn_latches`, `turn_tohost`).

What the device is meant to do is to answer the first completed store in either
form. The two agree when every store to the device that the run executes is a
32-bit one and completes (`tohost_first_store`). They differ on a compressed store,
which goes unnoticed, and on a device address outside the 4 GiB space, where the
store traps and the device answers nevertheless (`tohost_differs`).
-/

namespace Provework.Rvcore

open Provework.Lib Provework.Isa

/-! ## Stores, as instructions -/

/-- `code` is an encoding of `i`, 32-bit or compressed. -/
def Code.Is (i : Instr) : Code → Prop
  | .word inst => i.encode = inst
  | .half hw => ∃ c : CInstr, c.Legal ∧ c.encode = hw ∧ c.instr = some i

/-- The next instruction is a 4- or 8-byte store of `v` at address `t`. -/
def Machine.StoresTo (m : Machine) (t v : U64) : Prop :=
  ∃ (code : Code) (i : Instr) (op : StoreOp) (val next : U64), m.fetch = some code ∧ code.Is i ∧
    i.effect m.cpu.x m.cpu.pc next = .store op t val next ∧ (op = .sw ∨ op = .sd) ∧
    v = op.stored val

/-- The next instruction is a 32-bit one. -/
def Machine.Wide (m : Machine) : Prop := ∃ inst, m.fetch = some (.word inst)

/-- The next instruction does not trap. -/
def Machine.Completes (cfg : Config) (m : Machine) : Prop :=
  ∃ m' halted, stepMode m cfg.syscalls cfg.tohostAddr = some (m', .ok halted)

/-- The states a run executes an instruction in, in order. -/
def runSources (cfg : Config) (mem : Mem) (entry : U64) (input : List U8) : List Machine :=
  match installInput mem input with
  | none => []
  | some mem => sources (turn cfg) cfg.maxInstructions.toNat (boot mem entry)

/-! ## The latch -/

/-- The value latched is the value stored. -/
theorem latched_eq {op : StoreOp} (h : op = .sw ∨ op = .sd) (b : U64) :
    (if op.len = 8 then b else b &&& 0xffffffff#64) = op.stored b := by
  rcases h with rfl | rfl
  · show b &&& 0xffffffff#64 = BitVec.ofNat 64 (b.toNat % 2 ^ 32)
    apply BitVec.eq_of_toNat_eq
    rw [BitVec.toNat_and, show (0xffffffff#64).toNat = 2 ^ 32 - 1 from rfl,
      Nat.and_two_pow_sub_one_eq_mod, BitVec.toNat_ofNat]
    omega
  · show b = BitVec.ofNat 64 (b.toNat % 2 ^ 64)
    rw [Nat.mod_eq_of_lt b.isLt, BitVec.ofNat_toNat, BitVec.setWidth_eq]

/-- A 32-bit store at its effective address. -/
theorem execute_store (m : Machine) (pc next : U64) (op : StoreOp) (rs2 rs1 : BitVec 5)
    (imm : BitVec 12) (syscalls : Bool) (tohostAddr : Option U64) :
    execute m pc next (Instr.store op rs2 rs1 imm).encode syscalls tohostAddr =
      execStore m pc next (Instr.store op rs2 rs1 imm).encode op.f3
        (BitVec.ofInt 64 ((m.cpu.x rs1).toInt + imm.toInt)) (m.cpu.x rs2) tohostAddr := by
  have hop : field (Instr.store op rs2 rs1 imm).encode 0 7 = 0b0100011#7 := opcode_rType ..
  rw [execute_storeOp m pc next syscalls tohostAddr hop]
  simp only [Instr.encode, immS_eq, sImm_sType]
  simp only [sType, f3_rType, rs1_rType, rs2_rType]
  rw [add_signExtend]
  rfl

/-- The latch after a store, whatever becomes of its write. -/
theorem execStore_tohost (m : Machine) (pc next : U64) (inst : U32) (op : StoreOp)
    (addr b t : U64) :
    ∃ m' res, execStore m pc next inst op.f3 addr b (some t) = some (m', res) ∧
      (addr = t ∧ (op = .sw ∨ op = .sd) → m'.cpu.tohost = some (op.stored b)) ∧
      (¬(addr = t ∧ (op = .sw ∨ op = .sd)) → m'.cpu.tohost = m.cpu.tohost) := by
  have hlen : storeLen op.f3 = some op.len := by cases op <;> rfl
  have hwide : (op.len = 8 ∨ op.len = 4) ↔ (op = .sw ∨ op = .sd) := by
    cases op <;> simp [StoreOp.len]
  unfold execStore
  simp only [hlen, Option.some.injEq]
  generalize hcpu : (if addr = t ∧ (op.len = 8 ∨ op.len = 4) then
    { m.cpu with tohost := some (if op.len = 8 then b else b &&& 0xffffffff#64) } else m.cpu) = cpu
  rw [← hwide]
  have hset : addr = t ∧ (op.len = 8 ∨ op.len = 4) → cpu.tohost = some (op.stored b) := by
    intro h
    rw [← hcpu, if_pos h, latched_eq (hwide.mp h.2)]
  have hkeep : ¬(addr = t ∧ (op.len = 8 ∨ op.len = 4)) → cpu.tohost = m.cpu.tohost := by
    intro h
    rw [← hcpu, if_neg h]
  generalize m.mem.write addr ((leBytes 8 b.toNat).take op.len) = r
  obtain ⟨e | _, mem⟩ := r
  · exact ⟨_, _, rfl, hset, hkeep⟩
  · exact ⟨_, _, rfl, hset, hkeep⟩

theorem Outcome.Regular.tohost {m m' : Machine} {res : Except Trap Bool}
    (h : Outcome.Regular m (some (m', res))) : m'.cpu.tohost = m.cpu.tohost := by
  cases h with
  | trap t hp => rfl
  | done mem halted hc => exact hc.tohost

/-- A 32-bit store to the device sets the latch. -/
theorem stepMode_latches {m : Machine} {t v : U64} (hwide : m.Wide) (hst : m.StoresTo t v)
    (syscalls : Bool) :
    ∃ m' res, stepMode m syscalls (some t) = some (m', res) ∧ m'.cpu.tohost = some v := by
  obtain ⟨inst, hword⟩ := hwide
  obtain ⟨code, i, op, val, next, hcode, his, heff, hop, rfl⟩ := hst
  obtain rfl := Option.some.inj (hcode.symm.trans hword)
  have his : i.encode = inst := his
  have hfetch := stepMode_fetched m syscalls (some t)
  rw [hword] at hfetch
  generalize stepMode m syscalls (some t) = o at hfetch
  -- only stores have such an effect
  cases i with
  | store op' rs2 rs1 imm =>
    simp only [Instr.effect, Effect.store.injEq] at heff
    obtain ⟨rfl, haddr, rfl, -⟩ := heff
    cases hfetch with
    | @word mem _ h =>
      rw [← his, execute_store]
      obtain ⟨m', res, hexec, hset, -⟩ := execStore_tohost ⟨m.cpu, mem⟩ m.cpu.pc (m.cpu.pc + 4)
        (Instr.store op' rs2 rs1 imm).encode op'
        (BitVec.ofInt 64 ((m.cpu.x rs1).toInt + imm.toInt)) (m.cpu.x rs2) t
      exact ⟨m', res, hexec, hset ⟨haddr, hop⟩⟩
  | _ => simp only [Instr.effect, reduceCtorEq] at heff

/-- Nothing else does. -/
theorem stepMode_tohost {m m' : Machine} {t v : U64} {syscalls : Bool} {res : Except Trap Bool}
    (hnone : m.cpu.tohost = none) (hstep : stepMode m syscalls (some t) = some (m', res))
    (hlatch : m'.cpu.tohost = some v) : m.Wide ∧ m.StoresTo t v := by
  have hregular : ∀ mem, ¬Outcome.Regular ⟨m.cpu, mem⟩ (some (m', res)) := by
    intro mem h
    rw [h.tohost, hnone] at hlatch
    cases hlatch
  have hfetch := stepMode_fetched m syscalls (some t)
  rw [hstep] at hfetch
  generalize hcode : m.fetch = code at hfetch
  generalize ho : some (m', res) = o at hfetch
  cases hfetch with
  | @fails mem t' _ => exact absurd (ho ▸ regular_trap ⟨m.cpu, mem⟩ t') (hregular mem)
  | @half mem hw _ => exact absurd (ho ▸ regular_stepC ⟨m.cpu, mem⟩ m.cpu.pc hw) (hregular mem)
  | @word mem inst _ =>
    by_cases hop : field inst 0 7 = 0b0100011#7
    · have henc := sType_fields inst
      rcases storeLen_cases (field inst 12 3) with ⟨op, h3⟩ | hbad
      · -- the word is this store, and it has to be the one to the device
        rw [hop, ← h3] at henc
        have hinst : (Instr.store op (field inst 20 5) (field inst 15 5) (sImm inst)).encode
            = inst :=
          henc
        rw [← hinst, execute_store] at ho
        obtain ⟨m'', res', hexec, hset, hkeep⟩ := execStore_tohost ⟨m.cpu, mem⟩ m.cpu.pc
          (m.cpu.pc + 4) _ op
          (BitVec.ofInt 64 ((m.cpu.x (field inst 15 5)).toInt + (sImm inst).toInt))
          (m.cpu.x (field inst 20 5)) t
        obtain ⟨rfl, -⟩ := Prod.mk.inj (Option.some.inj (ho.trans hexec))
        have hdev : BitVec.ofInt 64 ((m.cpu.x (field inst 15 5)).toInt + (sImm inst).toInt) = t ∧
            (op = .sw ∨ op = .sd) := by
          by_contra h
          rw [hkeep h, hnone] at hlatch
          cases hlatch
        refine ⟨⟨inst, hcode⟩, .word inst, _, op, m.cpu.x (field inst 20 5), 0, hcode, hinst, ?_,
          hdev.2, ?_⟩
        · rw [Instr.effect, hdev.1]
        · exact Option.some.inj (hlatch.symm.trans (hset hdev))
      · have hill : execStore ⟨m.cpu, mem⟩ m.cpu.pc (m.cpu.pc + 4) inst (field inst 12 3)
            (m.cpu.get (field inst 15 5) + immS inst) (m.cpu.get (field inst 20 5)) (some t)
            = Machine.trap ⟨m.cpu, mem⟩ (illegal m.cpu.pc inst) := by
          unfold execStore
          rw [hbad]
        rw [execute_storeOp _ _ _ _ _ hop, hill] at ho
        exact absurd (ho ▸ regular_trap ⟨m.cpu, mem⟩ _) (hregular mem)
    · exact absurd (ho ▸ execute_regular ⟨m.cpu, mem⟩ m.cpu.pc _ inst syscalls (some t) hop)
        (hregular mem)

/-! ## Turns -/

section

variable {cfg : Config} {t : U64}

theorem turn_latches (hcfg : cfg.tohostAddr = some t) {m : Machine} {v : U64} (hwide : m.Wide)
    (hst : m.StoresTo t v) : ∃ m', turn cfg m = .exit m' (.tohost v) := by
  obtain ⟨m', res, hstep, hlatch⟩ := stepMode_latches hwide hst cfg.syscalls
  refine ⟨m', ?_⟩
  unfold turn
  simp only [hcfg, hstep, hlatch, Option.isSome_some, and_self, if_true, Option.getD_some]

theorem turn_tohost (hcfg : cfg.tohostAddr = some t) {m m' : Machine} {v : U64}
    (hnone : m.cpu.tohost = none) (hturn : turn cfg m = .exit m' (.tohost v)) :
    m.Wide ∧ m.StoresTo t v := by
  have hturned := turn_turned cfg m
  rw [hturn] at hturned
  cases hturned with
  | tohost hstep _ hlatch =>
    rw [hcfg] at hstep
    exact stepMode_tohost hnone hstep hlatch

/-- The loop goes on with the latch clear. -/
theorem turn_clear (hcfg : cfg.tohostAddr = some t) {m m' : Machine} {routed : Bool}
    (hturn : turn cfg m = .next m' routed) : m'.cpu.tohost = none := by
  have hclear : ∀ {stepped : Machine}, ¬(cfg.tohostAddr.isSome ∧ stepped.cpu.tohost.isSome) →
      stepped.cpu.tohost = none := by
    intro stepped h
    simpa [hcfg] using h
  have hturned := turn_turned cfg m
  rw [hturn] at hturned
  cases hturned with
  | next _ hto => exact hclear hto
  | routed _ hto => exact hclear hto

end

/-! ## Runs -/

theorem runSources_eq (cfg : Config) (mem : Mem) (entry : U64) (input : List U8) :
    runSources cfg mem entry input =
      if inputDataAddr.toNat + input.length ≤ addrSpace then
        sources (turn cfg) cfg.maxInstructions.toNat (started mem entry input)
      else [] := by
  unfold runSources
  rw [installInput_eq mem entry input]
  by_cases hfit : inputDataAddr.toNat + input.length ≤ addrSpace
  · simp only [if_pos hfit]
    rfl
  · simp only [if_neg hfit]

/-- A run ends at the device exactly when it executes a 32-bit store to it. -/
theorem run_tohost_iff (blake3 : List U8 → Hash) {cfg : Config} {t : U64}
    (hcfg : cfg.tohostAddr = some t) (mem : Mem) (entry : U64) (input : List U8) (v : U64) :
    (run blake3 cfg mem entry input).map (·.status) = some (.tohost v) ↔
      ∃ m ∈ runSources cfg mem entry input, m.Wide ∧ m.StoresTo t v := by
  rw [run_status, runSources_eq]
  by_cases hfit : inputDataAddr.toNat + input.length ≤ addrSpace
  · simp only [if_pos hfit]
    constructor
    · intro h
      obtain ⟨⟨m', status⟩, hexit, hst⟩ := Option.map_eq_some_iff.mp h
      have hstatus : status = .tohost v := by
        dsimp only at hst
        split at hst
        · cases hst
        · exact hst
      subst hstatus
      obtain ⟨m, hm, hturn⟩ := exists_source _ hexit ExitStatus.noConfusion
      have hnone : m.cpu.tohost = none :=
        sources_inv (I := fun m => m.cpu.tohost = none) (fun _ h => turn_clear hcfg h) _ rfl m hm
      exact ⟨m, hm, turn_tohost hcfg hnone hturn⟩
    · rintro ⟨m, hm, hwide, hst⟩
      obtain ⟨m', hturn⟩ := turn_latches hcfg hwide hst
      rw [runExit, exitOf_source .instructionLimit _ hm hturn]
      simp [Oversized]
  · simp [hfit]

/-- **The tohost device fires on the first completed store to it**, for every
device address, image, entry, input and configuration, provided that of the 4- and
8-byte stores to the device that the run executes exactly the 32-bit ones complete:
no compressed one completes and no 32-bit one traps. Then the run ends with
`Tohost(v)` just when it executes such a store that completes, and `v` is the value
of the first one. -/
theorem tohost_first_store (blake3 : List U8 → Hash) (cfg : Config) (t : U64)
    (hcfg : cfg.tohostAddr = some t) (mem : Mem) (entry : U64) (input : List U8)
    (hplain : ∀ m ∈ runSources cfg mem entry input, ∀ v, m.StoresTo t v →
      (m.Wide ↔ m.Completes cfg)) (v : U64) :
    (∃ out, run blake3 cfg mem entry input = some out ∧ out.status = .tohost v) ↔
      ∃ (i : Nat) (m : Machine), (runSources cfg mem entry input)[i]? = some m ∧ m.StoresTo t v ∧
        m.Completes cfg ∧
        ∀ j < i, ∀ m' : Machine, (runSources cfg mem entry input)[j]? = some m' →
          ∀ v', ¬(m'.StoresTo t v' ∧ m'.Completes cfg) := by
  have hends := run_tohost_iff blake3 hcfg mem entry input v
  rw [Option.map_eq_some_iff] at hends
  rw [hends]
  constructor
  · rintro ⟨m, hm, hwide, hst⟩
    obtain ⟨i, hi⟩ := List.mem_iff_getElem?.mp hm
    refine ⟨i, m, hi, hst, (hplain m hm v hst).mp hwide, ?_⟩
    rintro j hj m' hm' v' ⟨hst', hdone'⟩
    -- an earlier one would have ended the run
    have hwide' := (hplain m' (List.mem_of_getElem? hm') v' hst').mpr hdone'
    obtain ⟨e, hturn⟩ := turn_latches hcfg hwide' hst'
    have hlt := (List.getElem?_eq_some_iff.mp hi).1
    rw [runSources_eq] at hm' hlt
    split at hm'
    next hfit =>
      rw [if_pos hfit, length_sources_exit _ hm' hturn] at hlt
      omega
    next => simp only [List.getElem?_nil, reduceCtorEq] at hm'
  · rintro ⟨i, m, hi, hst, hdone, -⟩
    have hm := List.mem_of_getElem? hi
    exact ⟨m, hm, (hplain m hm v hst).mpr hdone, hst⟩

/-- A run of one instruction executes it in its start state. -/
theorem runSources_single {cfg : Config} {mem : Mem} {entry : U64} {input : List U8}
    (hlen : (runSources cfg mem entry input).length = 1) :
    runSources cfg mem entry input = [started mem entry input] := by
  rw [runSources_eq] at hlen ⊢
  split at hlen
  next hfit =>
    rw [if_pos hfit]
    generalize cfg.maxInstructions.toNat = left at hlen ⊢
    cases left with
    | zero => simp [sources] at hlen
    | succ left =>
      rw [sources, List.length_cons] at hlen
      rw [sources, List.length_eq_zero_iff.mp (Nat.succ.inj hlen)]
  next => simp at hlen

/-- A store of `x0` through the stack pointer, at the start of a run. -/
theorem started_storesTo {mem : Mem} {entry : U64} {input : List U8} {code : Code} (op : StoreOp)
    (hfetch : (started mem entry input).fetch = some code) (his : code.Is (.store op 0 2 0))
    (hop : op = .sw ∨ op = .sd) :
    (started mem entry input).StoresTo stackTop 0 := by
  refine ⟨code, _, op, 0, 0, hfetch, his, ?_, hop, by rcases hop with rfl | rfl <;> rfl⟩
  have haddr : BitVec.ofInt 64 (((Cpu.new entry stackTop).x 2).toInt + (0 : BitVec 12).toInt)
      = stackTop := by
    rw [show (Cpu.new entry stackTop).x 2 = stackTop by simp [Cpu.new]]
    decide
  have hval : (Cpu.new entry stackTop).x 0 = 0 := by simp [Cpu.new]
  show Effect.store op (BitVec.ofInt 64 (((Cpu.new entry stackTop).x 2).toInt + _))
    ((Cpu.new entry stackTop).x 0) 0 = _
  rw [haddr, hval]

/-- `sw x0, 0(sp)`, with the device where the stack starts. -/
theorem tohost_first_store_sw :
    ∃ out, run lengthHash { tohostAddr := some stackTop } (image 0x1000 [0x23, 0x20, 0x01, 0x00])
        0x1000 [] = some out ∧ out.status = .tohost 0 := by
  have hone : runSources { tohostAddr := some stackTop } (image 0x1000 [0x23, 0x20, 0x01, 0x00])
      0x1000 [] = [started (image 0x1000 [0x23, 0x20, 0x01, 0x00]) 0x1000 []] :=
    runSources_single (by decide +kernel)
  have hfetch : (started (image 0x1000 [0x23, 0x20, 0x01, 0x00]) 0x1000 []).fetch
      = some (.word 0x00012023) := by decide +kernel
  have hst := started_storesTo .sw hfetch (by show _ = _; decide) (Or.inl rfl)
  have hres : (stepMode (started (image 0x1000 [0x23, 0x20, 0x01, 0x00]) 0x1000 []) false
      (some stackTop)).map (·.2) = some (.ok false) := by decide +kernel
  obtain ⟨⟨m', res⟩, hstep, rfl⟩ := Option.map_eq_some_iff.mp hres
  have hdone : (started (image 0x1000 [0x23, 0x20, 0x01, 0x00]) 0x1000 []).Completes
      { tohostAddr := some stackTop } := ⟨m', false, hstep⟩
  refine (tohost_first_store lengthHash { tohostAddr := some stackTop } stackTop rfl _ _ _ ?_ 0).mpr
    ⟨0, _, by rw [hone]; rfl, hst, hdone, fun j hj => absurd hj (Nat.not_lt_zero j)⟩
  intro m hm v _
  obtain rfl := List.mem_singleton.mp (hone ▸ hm)
  exact ⟨fun _ => hdone, fun _ => ⟨_, hfetch⟩⟩

/-- Both ways the device goes wrong. `c.sdsp x0, 0(sp); c.ebreak` completes its store
to the device and halts without an answer. `sd x0, -4(x0)` to a device at
`0xFFFFFFFFFFFFFFFC` traps, no store to the device completes, and the run ends with
`Tohost(0)`. -/
theorem tohost_differs :
    (∃ out m, run lengthHash { tohostAddr := some stackTop } (image 0x1000 [0x02, 0xe0, 0x02, 0x90])
        0x1000 [] = some out ∧ out.status = .halted ∧
      (runSources { tohostAddr := some stackTop } (image 0x1000 [0x02, 0xe0, 0x02, 0x90])
        0x1000 [])[0]? = some m ∧ m.StoresTo stackTop 0 ∧
          m.Completes { tohostAddr := some stackTop }) ∧
    ∃ out, run lengthHash { tohostAddr := some 0xFFFFFFFFFFFFFFFC }
        (image 0x1000 [0x23, 0x3e, 0x00, 0xfe]) 0x1000 [] = some out ∧ out.status = .tohost 0 ∧
      ∀ m ∈ runSources { tohostAddr := some 0xFFFFFFFFFFFFFFFC }
          (image 0x1000 [0x23, 0x3e, 0x00, 0xfe]) 0x1000 [],
        ¬m.Completes { tohostAddr := some 0xFFFFFFFFFFFFFFFC } := by
  constructor
  · have hstatus : (run lengthHash { tohostAddr := some stackTop }
        (image 0x1000 [0x02, 0xe0, 0x02, 0x90]) 0x1000 []).map (·.status) = some .halted := by
      decide +kernel
    obtain ⟨out, hrun, hst⟩ := Option.map_eq_some_iff.mp hstatus
    have hfetch : (started (image 0x1000 [0x02, 0xe0, 0x02, 0x90]) 0x1000 []).fetch
        = some (.half 0xe002) := by decide +kernel
    have hres : (stepMode (started (image 0x1000 [0x02, 0xe0, 0x02, 0x90]) 0x1000 []) false
        (some stackTop)).map (·.2) = some (.ok false) := by decide +kernel
    obtain ⟨⟨m', res⟩, hstep, rfl⟩ := Option.map_eq_some_iff.mp hres
    refine ⟨out, started (image 0x1000 [0x02, 0xe0, 0x02, 0x90]) 0x1000 [], hrun, hst, ?_, ?_,
      m', false, hstep⟩
    · rw [runSources_eq, if_pos (by decide)]
      rfl
    · exact started_storesTo .sd hfetch ⟨.sdsp 0 0, trivial, by decide, rfl⟩ (Or.inr rfl)
  · have hstatus : (run lengthHash { tohostAddr := some 0xFFFFFFFFFFFFFFFC }
        (image 0x1000 [0x23, 0x3e, 0x00, 0xfe]) 0x1000 []).map (·.status) = some (.tohost 0) := by
      decide +kernel
    obtain ⟨out, hrun, hst⟩ := Option.map_eq_some_iff.mp hstatus
    have hone : runSources { tohostAddr := some 0xFFFFFFFFFFFFFFFC }
        (image 0x1000 [0x23, 0x3e, 0x00, 0xfe]) 0x1000 []
          = [started (image 0x1000 [0x23, 0x3e, 0x00, 0xfe]) 0x1000 []] :=
      runSources_single (by decide +kernel)
    have hres : (stepMode (started (image 0x1000 [0x23, 0x3e, 0x00, 0xfe]) 0x1000 []) false
        (some 0xFFFFFFFFFFFFFFFC)).map (·.2)
          = some (.error (.storeOutOfRange 0xFFFFFFFFFFFFFFFC)) := by decide +kernel
    refine ⟨out, hrun, hst, ?_⟩
    rintro m hm ⟨m', halted, hstep⟩
    obtain rfl := List.mem_singleton.mp (hone ▸ hm)
    have hstep' : stepMode (started (image 0x1000 [0x23, 0x3e, 0x00, 0xfe]) 0x1000 []) false
        (some 0xFFFFFFFFFFFFFFFC) = some (m', .ok halted) := hstep
    rw [hstep'] at hres
    cases hres

end Provework.Rvcore
