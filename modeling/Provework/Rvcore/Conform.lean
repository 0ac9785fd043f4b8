import Mathlib.Tactic.IntervalCases
import Provework.Rvcore.Alu
import Provework.Rvcore.Decode
import Provework.Rvcore.Hash

/-!
# The interpreter conforms to RV64I with multiply

`Machine.perform` carries out an ISA effect with the interpreter's own
primitives, and `execute_encode` shows that executing an encoded instruction is
performing its effect — for any next pc, which is what lets the compressed
instructions share it. On a valid memory performing an effect is the ISA's
effect on the architectural state (`perform_yields`), and a fetch at an even pc
inside the space hands over the word stored there (`step_fetch`). Together:
`step_conforms`.
-/

namespace Provework.Rvcore

open Provework.Lib Provework.Isa

/-! ## The architectural state -/

/-- What the machine is to a program: registers and CSRs, the sparse memory,
and what it has written so far. -/
structure Arch where
  cpu : Cpu
  pages : PageMap
  log : List U8

def Machine.arch (m : Machine) : Arch := ⟨m.cpu, m.mem.pages, m.mem.syscallLog⟩

/-- A state hash covers no more than the architectural state. -/
theorem sameHashed_of_arch {m m' : Machine} (h : m.arch = m'.arch) : m.SameHashed m' := by
  have hcpu : m.cpu = m'.cpu := congrArg Arch.cpu h
  have hpages : m.mem.pages = m'.mem.pages := congrArg Arch.pages h
  exact ⟨by rw [hcpu], by rw [hcpu], by rw [hcpu], by rw [hcpu], by rw [hcpu], by rw [hcpu], hpages⟩

/-- The register file as the ISA has it: `x0` reads as zero. -/
def Arch.regs (s : Arch) : BitVec 5 → U64 := fun r => if r = 0 then 0 else s.cpu.x r

theorem Arch.regs_eq {s : Arch} (h : s.cpu.x 0 = 0) : s.regs = s.cpu.x := by
  funext r
  unfold regs
  split
  next hr => rw [hr, h]
  next => rfl

/-- The ISA's register write: `x0` takes none. -/
def writeReg (x : BitVec 5 → U64) (rd : BitVec 5) (val : U64) : BitVec 5 → U64 :=
  if rd = 0 then x else Function.update x rd val

theorem writeReg_x0 (x : BitVec 5 → U64) (rd : BitVec 5) (val : U64) :
    writeReg x rd val 0 = x 0 := by
  unfold writeReg
  split
  next => rfl
  next h => exact Function.update_of_ne (Ne.symm h) _ _

theorem writeReg_self (x : BitVec 5 → U64) {rd : BitVec 5} (h : rd ≠ 0) (val : U64) :
    writeReg x rd val rd = val := by
  rw [writeReg, if_neg h, Function.update_self]

/-- `Cpu::set` is that write. -/
theorem set_eq (c : Cpu) (rd : Reg) (val : U64) :
    c.set rd val = { c with x := writeReg c.x rd val } := by
  unfold Cpu.set writeReg
  by_cases h : rd = 0
  · rw [if_neg (not_not.mpr h), if_pos h]
  · rw [if_pos h, if_neg h]

/-- An instruction that writes `rd` and goes on at `pc`. -/
def Arch.retire (s : Arch) (rd : BitVec 5) (val pc : U64) : Arch × Except Trap Bool :=
  ({ s with cpu := { s.cpu with x := writeReg s.cpu.x rd val, pc } }, .ok false)

/-- The ISA's effect on the architectural state. An access that is not inside
the 4 GiB space traps and changes nothing. -/
def Arch.apply (s : Arch) : Effect → Arch × Except Trap Bool
  | .write rd val pc => s.retire rd val pc
  | .goto pc => ({ s with cpu := { s.cpu with pc } }, .ok false)
  | .load op rd addr pc =>
    if addr.toNat + op.len ≤ 2 ^ 32 then
      s.retire rd (op.value (s.pages.bytes addr.toNat op.len)) pc
    else (s, .error (.loadOutOfRange addr))
  | .store op addr val pc =>
    if addr.toNat + op.len ≤ 2 ^ 32 then
      ({ s with
          cpu := { s.cpu with pc }
          pages := s.pages.setBytes addr.toNat (leBytes op.len val.toNat) }, .ok false)
    else (s, .error (.storeOutOfRange addr))

/-- A call that returned `r.2` and left the architectural state `r.1`. -/
def Outcome.Yields (o : Outcome) (r : Arch × Except Trap Bool) : Prop :=
  ∃ m, o = some (m, r.2) ∧ m.arch = r.1 ∧ m.mem.Valid

/-! ## Effects on the machine -/

/-- An effect, carried out with the interpreter's own primitives. -/
def Machine.perform (m : Machine) : Effect → Outcome
  | .write rd val pc => m.retire rd val pc
  | .goto pc => m.jump pc
  | .load op rd addr pc =>
    match m.mem.read addr op.len with
    | (.error e, mem) => Machine.trap { m with mem } (trapLoad e addr)
    | (.ok val, mem) => Machine.retire { m with mem } rd (loadExt op.len op.signed val) pc
  | .store op addr val pc =>
    match m.mem.write addr ((leBytes 8 val.toNat).take op.len) with
    | (.error e, mem) => Machine.trap { m with mem } (trapStore e addr)
    | (.ok (), mem) => Machine.jump { m with mem } pc

/-- The loaded word, cut and sign-extended, is the ISA's register value. -/
theorem loadExt_eq (op : LoadOp) (bytes : List U8) :
    loadExt op.len op.signed (BitVec.ofNat 64 (leNat bytes)) = op.value bytes := by
  unfold LoadOp.value loadExt
  cases op <;> simp only [LoadOp.len, LoadOp.signed, if_true, Bool.false_eq_true, if_false]
  · exact signExtend_setWidth_ofNat _ (by decide)
  · exact signExtend_setWidth_ofNat _ (by decide)
  · exact signExtend_setWidth_ofNat _ (by decide)

/-- Only the registers tell two machines with equal memories apart. -/
theorem arch_unchanged {m : Machine} {mem : Mem} (h : m.mem.Unchanged mem) (c : Cpu) :
    Machine.arch ⟨c, mem⟩ = { m.arch with cpu := c } := by
  unfold Machine.arch
  rw [h.pages, h.log]

theorem retire_yields {m : Machine} {mem : Mem} (h : m.mem.Unchanged mem) (rd : Reg)
    (val pc : U64) : (Machine.retire ⟨m.cpu, mem⟩ rd val pc).Yields (m.arch.retire rd val pc) := by
  refine ⟨_, rfl, ?_, h.valid⟩
  rw [arch_unchanged h, set_eq]
  rfl

theorem perform_yields {m : Machine} (hv : m.mem.Valid) (e : Effect) :
    (m.perform e).Yields (m.arch.apply e) := by
  cases e with
  | write rd val pc => exact retire_yields (.refl hv) rd val pc
  | goto pc => exact ⟨_, rfl, rfl, hv⟩
  | load op rd addr pc =>
    have hread := Mem.read_eq hv addr (show Mem.ReadLen op.len by cases op <;> decide)
    have hun := Mem.read_unchanged hv addr op.len
    simp only [Machine.perform, Arch.apply]
    generalize m.mem.read addr op.len = r at hread hun
    obtain ⟨res, mem⟩ := r
    -- a read may move the lookaside, so the memory is a new one with the same contents
    have hun : m.mem.Unchanged mem := hun
    by_cases hr : addr.toNat + op.len ≤ 2 ^ 32
    · rw [addrSpace, if_pos hr] at hread
      subst hread
      rw [if_pos hr]
      show (Machine.retire ⟨m.cpu, mem⟩ rd _ pc).Yields _
      rw [loadExt_eq]
      exact retire_yields hun rd _ pc
    · rw [addrSpace, if_neg hr] at hread
      subst hread
      rw [if_neg hr]
      exact ⟨_, rfl, arch_unchanged hun _, hun.valid⟩
  | store op addr val pc =>
    have htake : (leBytes 8 val.toNat).take op.len = leBytes op.len val.toNat :=
      take_leBytes _ _ _ (by cases op <;> decide)
    simp only [Machine.perform, Arch.apply]
    rw [htake]
    rcases Mem.write_spec hv addr (leBytes op.len val.toNat) with
      ⟨hr, hok, hval, hpages, hlog⟩ | ⟨hr, he⟩
    · rw [length_leBytes, addrSpace] at hr
      rw [if_pos hr]
      generalize m.mem.write addr (leBytes op.len val.toNat) = r at hok hval hpages hlog
      obtain ⟨res, mem⟩ := r
      subst hok
      refine ⟨_, rfl, ?_, hval⟩
      exact congrArg₂ (Arch.mk _) hpages hlog
    · rw [length_leBytes, addrSpace] at hr
      rw [if_neg hr, he]
      exact ⟨m, rfl, rfl, hv⟩

/-! ## Executing an encoded instruction -/

/-- A 64-bit shift immediate splits into its function bits and the shamt. -/
theorem fields_shiftImm (o : ShiftOp) (rs1 : BitVec 5) (f3 : BitVec 3) (rd : BitVec 5)
    (op : BitVec 7) (shamt : BitVec 6) {w : U32}
    (hw : w = iType ((o.f7.setWidth 12 <<< 5) ||| shamt.setWidth 12) rs1 f3 rd op) :
    field w 26 6 = shiftFunct o ∧ field w 20 6 = shamt := by
  have hbits : ∀ s : BitVec 6,
      ((o.f7.setWidth 12 <<< 5) ||| s.setWidth 12).extractLsb' 6 6 = shiftFunct o ∧
      ((o.f7.setWidth 12 <<< 5) ||| s.setWidth 12).extractLsb' 0 6 = s := by
    cases o <;> decide
  have himm : field w 20 12 = (o.f7.setWidth 12 <<< 5) ||| shamt.setWidth 12 := by
    rw [hw, imm_iType]
  have h := hbits shamt
  rw [← himm, extract_field w 6 6 (by decide), extract_field w 0 6 (by decide)] at h
  exact h

/-- Conversely an immediate with those function bits is such an immediate. -/
theorem shiftImm_of_funct (o : ShiftOp) (imm : BitVec 12)
    (h : shiftFunct o = imm.extractLsb' 6 6) :
    imm = (o.f7.setWidth 12 <<< 5) ||| (imm.extractLsb' 0 6).setWidth 12 := by
  have hf : o.f7.setWidth 12 <<< 5 = (shiftFunct o).setWidth 12 <<< 6 := by
    cases o <;> rfl
  rw [hf, h]
  ext i hi
  simp only [BitVec.getElem_or, BitVec.getElem_shiftLeft, BitVec.getElem_setWidth,
    BitVec.getLsbD_extractLsb']
  interval_cases i <;> simp

/-- Executing a word is performing the effect of the instruction it encodes,
whatever the address of the next one. -/
theorem execute_encode (m : Machine) (pc next : U64) (i : Instr) (syscalls : Bool) :
    execute m pc next i.encode syscalls none = m.perform (i.effect m.cpu.x pc next) := by
  unfold execute
  -- each case: read the fields back from the encoding, then match the arithmetic
  cases i with
  | lui rd imm =>
    simp only [Instr.encode, opcode_uType, rd_uType, immU_eq, imm_uType]
    rw [signExtend_shiftLeft 64 (by decide)]
    rfl
  | auipc rd imm =>
    simp only [Instr.encode, opcode_uType, rd_uType, immU_eq, imm_uType]
    rw [signExtend_shiftLeft 64 (by decide), add_ofInt]
    rfl
  | jal rd off =>
    simp only [Instr.encode, immJ_eq, jOff_jType]
    simp only [jType, opcode_uType, rd_uType]
    rw [signExtend_shiftLeft 64 (by decide), add_ofInt]
    rfl
  | jalr rd rs1 imm =>
    simp only [Instr.encode, immI_eq, imm_iType]
    simp only [iType, opcode_rType, rd_rType, f3_rType, rs1_rType]
    rw [add_signExtend, and_not_one_eq_ofInt]
    rfl
  | branch op rs1 rs2 off =>
    simp only [Instr.encode, immB_eq, bOff_bType]
    simp only [bType, opcode_rType, f3_rType, rs1_rType, rs2_rType, branchTaken_eq]
    rw [signExtend_shiftLeft 64 (by decide), add_ofInt]
    simp only [decide_eq_true_eq]
    rfl
  | load op rd rs1 imm =>
    simp only [Instr.encode, immI_eq, imm_iType]
    simp only [iType, opcode_rType, rd_rType, f3_rType, rs1_rType]
    rw [add_signExtend]
    cases op <;> rfl
  | store op rs2 rs1 imm =>
    simp only [Instr.encode, immS_eq, sImm_sType]
    simp only [sType, opcode_rType, f3_rType, rs1_rType, rs2_rType]
    rw [add_signExtend]
    cases op <;> rfl
  | opImm op rd rs1 imm =>
    simp only [Instr.encode, immI_eq, imm_iType]
    simp only [iType, opcode_rType, rd_rType, f3_rType, rs1_rType, opImm_eq]
    rfl
  | shiftImm op rd rs1 shamt =>
    obtain ⟨hf, hs⟩ := fields_shiftImm op rs1 op.f3 rd 0b0010011 shamt rfl
    simp only [Instr.encode]
    simp only [iType, opcode_rType, rd_rType, f3_rType, rs1_rType]
    exact congrArg (m.finish pc next _ rd) (opImm_shift op _ _ hf hs)
  | addiw rd rs1 imm =>
    simp only [Instr.encode, immI_eq, imm_iType]
    simp only [iType, opcode_rType, rd_rType, f3_rType, rs1_rType]
    exact congrArg (m.finish pc next _ rd) (opImm32_addiw _ _ _ imm)
  | shiftImmW op rd rs1 shamt =>
    simp only [Instr.encode, opcode_rType, rd_rType, f3_rType, f7_rType, rs1_rType]
    rw [opImm32_shift op _ _ (rs2_rType _ _ _ _ _ _)]
    rfl
  | reg op rd rs1 rs2 =>
    simp only [Instr.encode, opcode_rType, rd_rType, f3_rType, rs1_rType, rs2_rType, f7_rType,
      op_eq]
    rfl
  | regW op rd rs1 rs2 =>
    simp only [Instr.encode, opcode_rType, rd_rType, f3_rType, rs1_rType, rs2_rType, f7_rType,
      op32_eq]
    rfl
  | fence imm rs1 rd =>
    simp only [Instr.encode, iType, opcode_rType, f3_rType]
    rfl
  | fenceI imm rs1 rd =>
    simp only [Instr.encode, iType, opcode_rType, f3_rType]
    rfl

theorem field_opcode (w : U32) : field w 0 7 = opcode w := by
  unfold field opcode
  simp

/-- `execute` on any other word of the opcodes. -/
theorem execute_other (m : Machine) (pc next : U64) (w : U32) (syscalls : Bool)
    (tohostAddr : Option U64) (hop : opcode w ∈ opcodes) (hi : ∀ i : Instr, i.encode ≠ w)
    (hd : ∀ (o : DivOp) (rd rs1 rs2 : BitVec 5), o.encode rd rs1 rs2 ≠ w) :
    execute m pc next w syscalls tohostAddr = m.trap (illegal pc w) := by
  have hfield := field_opcode w
  -- every word is each format applied to its own fields
  have hU := uType_fields w
  have hJ := jType_fields w
  have hI := iType_fields w
  have hS := sType_fields w
  have hB := bType_fields w
  have hR := rType_fields w
  rw [hfield] at hU hJ hI hS hB hR
  unfold execute
  simp only [hfield]
  generalize opcode w = o at hop hU hJ hI hS hB hR
  simp only [opcodes, List.mem_cons, List.not_mem_nil, or_false] at hop
  -- opcode by opcode: function codes of an instruction contradict `hi` or `hd`, the others trap
  rcases hop with rfl | rfl | rfl | rfl | rfl | rfl | rfl | rfl | rfl | rfl | rfl | rfl
  · exact absurd hU (hi (.lui _ _))
  · exact absurd hU (hi (.auipc _ _))
  · exact absurd hJ (hi (.jal _ _))
  · by_cases h3 : field w 12 3 = 0
    · rw [h3] at hI
      exact absurd hI (hi (.jalr _ _ _))
    · exact if_pos h3
  · rcases branchTaken_cases (field w 12 3) with ⟨op, h3⟩ | hnone
    · rw [← h3] at hB
      exact absurd hB (hi (.branch op _ _ _))
    · simp only [hnone]
      rfl
  · rcases loadKind_cases (field w 12 3) with ⟨op, h3⟩ | hnone
    · rw [← h3] at hI
      exact absurd hI (hi (.load op _ _ _))
    · simp only [execLoad, hnone]
      rfl
  · rcases storeLen_cases (field w 12 3) with ⟨op, h3⟩ | hnone
    · rw [← h3] at hS
      exact absurd hS (hi (.store op _ _ _))
    · simp only [execStore, hnone]
      rfl
  · rcases opImm_cases w (field w 12 3) with ⟨op, h3⟩ | ⟨op, h3, hf⟩ | hill
    · rw [← h3] at hI
      exact absurd hI (hi (.opImm op _ _ _))
    · rw [← h3, shiftImm_of_funct op (field w 20 12) (by rw [hf, extract_field w 6 6 (by decide)])]
        at hI
      exact absurd hI (hi (.shiftImm op _ _ _))
    · simp only [hill]
      rfl
  · rcases opImm32_cases w (field w 25 7) (field w 12 3) with h3 | ⟨op, h7, h3⟩ | hill
    · rw [h3] at hI
      exact absurd hI (hi (.addiw _ _ _))
    · rw [← h7, ← h3] at hR
      exact absurd hR (hi (.shiftImmW op _ _ _))
    · simp only [hill]
      rfl
  · rcases op_cases (field w 25 7) (field w 12 3) with ⟨op, h7, h3⟩ | ⟨op, hw, h7, h3⟩ | hill
    · rw [← h7, ← h3] at hR
      exact absurd hR (hi (.reg op _ _ _))
    · rw [← h7, ← h3, ← op.opcode_dword hw] at hR
      exact absurd hR (hd op _ _ _)
    · simp only [hill]
      rfl
  · rcases op32_cases (field w 25 7) (field w 12 3) with ⟨op, h7, h3⟩ | ⟨op, hw, h7, h3⟩ | hill
    · rw [← h7, ← h3] at hR
      exact absurd hR (hi (.regW op _ _ _))
    · rw [← h7, ← h3, ← op.opcode_word hw] at hR
      exact absurd hR (hd op _ _ _)
    · simp only [hill]
      rfl
  · by_cases h3 : field w 12 3 = 0
    · rw [h3] at hI
      exact absurd hI (hi (.fence _ _ _))
    · by_cases h3' : field w 12 3 = 1
      · rw [h3'] at hI
        exact absurd hI (hi (.fenceI _ _ _))
      · exact if_neg (not_or.mpr ⟨h3, h3'⟩)

/-- The two halfwords of a fetch, put back together. -/
theorem fetch_word {M : PageMap} {a : Nat} {w : U32} (hw : M.bytes a 4 = leBytes 4 w.toNat) :
    leNat (M.bytes a 2) = w.toNat % 2 ^ 16 ∧ leNat (M.bytes (a + 2) 2) = w.toNat / 2 ^ 16 := by
  have hlt : w.toNat < 2 ^ 32 := w.isLt
  simp only [PageMap.bytes_succ, leBytes, List.cons.injEq] at hw ⊢
  obtain ⟨h0, h1, h2, h3, _⟩ := hw
  simp only [leNat, h0, h1, Nat.add_assoc, h2, h3, BitVec.toNat_ofNat, PageMap.bytes,
    List.range_zero, List.map_nil]
  omega

theorem fetch_inst (w : U32) :
    ((BitVec.ofNat 64 (w.toNat / 2 ^ 16)).setWidth 32 <<< 16) |||
      ((BitVec.ofNat 64 (w.toNat % 2 ^ 16)).setWidth 16).setWidth 32 = w := by
  have hlt : w.toNat < 2 ^ 32 := w.isLt
  apply BitVec.eq_of_toNat_eq
  rw [BitVec.toNat_or, BitVec.toNat_shiftLeft]
  simp only [BitVec.toNat_setWidth, BitVec.toNat_ofNat]
  rw [Nat.mod_eq_of_lt (show w.toNat / 2 ^ 16 < 2 ^ 64 by omega),
    Nat.mod_eq_of_lt (show w.toNat / 2 ^ 16 < 2 ^ 32 by omega),
    Nat.mod_eq_of_lt (show w.toNat % 2 ^ 16 < 2 ^ 64 by omega), Nat.mod_mod,
    Nat.mod_eq_of_lt (show w.toNat % 2 ^ 16 < 2 ^ 32 by omega), Nat.shiftLeft_eq,
    Nat.mod_eq_of_lt (show w.toNat / 2 ^ 16 * 2 ^ 16 < 2 ^ 32 by omega),
    ← Nat.shiftLeft_eq, ← Nat.shiftLeft_add_eq_or_of_lt (by omega), Nat.shiftLeft_eq]
  omega

theorem fetch_low (w : U32) (h32 : w.toNat % 4 = 3) :
    (BitVec.ofNat 64 (w.toNat % 2 ^ 16)).setWidth 16 &&& 0b11#16 = 0b11#16 := by
  apply BitVec.eq_of_toNat_eq
  rw [BitVec.toNat_and]
  simp only [BitVec.toNat_setWidth, BitVec.toNat_ofNat]
  show _ &&& (2 ^ 2 - 1) = 3
  rw [Nat.and_two_pow_sub_one_eq_mod]
  omega

theorem step_fetch {m : Machine} (hv : m.mem.Valid) (heven : m.cpu.pc.toNat % 2 = 0)
    (hpc : m.cpu.pc.toNat ≤ 2 ^ 32 - 4) {w : U32}
    (hw : m.mem.pages.bytes m.cpu.pc.toNat 4 = leBytes 4 w.toNat) (h32 : w.toNat % 4 = 3)
    (syscalls : Bool) (tohostAddr : Option U64) :
    ∃ mem, m.mem.Unchanged mem ∧ stepMode m syscalls tohostAddr
      = execute { m with mem } m.cpu.pc (m.cpu.pc + 4) w syscalls tohostAddr := by
  obtain ⟨hlo, hhi⟩ := fetch_word hw
  have hpc2 : (m.cpu.pc + 2).toNat = m.cpu.pc.toNat + 2 := by
    rw [BitVec.toNat_add]
    exact Nat.mod_eq_of_lt (by simp; omega)
  have hread := Mem.read_eq hv m.cpu.pc (show Mem.ReadLen 2 by decide)
  have hun := Mem.read_unchanged hv m.cpu.pc 2
  rw [addrSpace, if_pos (by omega), hlo] at hread
  unfold stepMode
  simp only
  rw [if_neg (by rw [addrSpace]; omega), if_neg (by omega)]
  generalize m.mem.read m.cpu.pc 2 = r at hread hun
  obtain ⟨res, mem⟩ := r
  subst hread
  have hun : m.mem.Unchanged mem := hun
  -- the second halfword is read from the memory the first read left
  have hread := Mem.read_eq hun.valid (m.cpu.pc + 2) (show Mem.ReadLen 2 by decide)
  have hun' := Mem.read_unchanged hun.valid (m.cpu.pc + 2) 2
  rw [addrSpace, hpc2, if_pos (by omega), hun.pages, hhi] at hread
  simp only
  rw [if_neg (not_not.mpr (fetch_low w h32))]
  generalize mem.read (m.cpu.pc + 2) 2 = r at hread hun'
  obtain ⟨res, mem'⟩ := r
  subst hread
  refine ⟨mem', hun.trans hun', ?_⟩
  simp only [fetch_inst]

theorem opcode_encode (i : Instr) : opcode i.encode ∈ opcodes := by
  rw [← field_opcode]
  cases i <;> simp [Instr.encode, iType, sType, bType, jType, opcodes]

/-- All of them mark a 32-bit instruction. -/
theorem low_of_opcode {w : U32} (h : opcode w ∈ opcodes) : w.toNat % 4 = 3 := by
  have hmod : (opcode w).toNat % 4 = w.toNat % 4 := by
    rw [opcode, BitVec.toNat_setWidth]
    omega
  have hall : ∀ o ∈ opcodes, o.toNat % 4 = 3 := by decide
  rw [← hmod, hall _ h]

theorem apply_x0 (s : Arch) (e : Effect) : (s.apply e).1.cpu.x 0 = s.cpu.x 0 := by
  cases e with
  | write rd val pc => exact writeReg_x0 _ rd val
  | goto pc => rfl
  | load op rd addr pc =>
    simp only [Arch.apply]
    split
    · exact writeReg_x0 _ _ _
    · rfl
  | store op addr val pc =>
    simp only [Arch.apply]
    split <;> rfl

/-! ## Conformance -/

/-- **RV64I with multiply.** Let the word at an even `pc` be `w`. If `w` encodes
an instruction of the abstract syntax, `step` has exactly the ISA's effect, and
`x0` stays zero; if `w` has one of these opcodes but encodes neither such an
instruction nor a division, `step` is an illegal-instruction trap that changes
nothing. -/
theorem step_conforms (m : Machine) (hv : m.mem.Valid) (hx0 : m.cpu.x 0 = 0)
    (heven : m.cpu.pc.toNat % 2 = 0) (hpc : m.cpu.pc.toNat ≤ 2 ^ 32 - 4) (w : U32)
    (hw : m.mem.pages.bytes m.cpu.pc.toNat 4 = leBytes 4 w.toNat) :
    (∀ i : Instr, i.encode = w →
      (step m).Yields (m.arch.apply (i.effect m.arch.regs m.cpu.pc (m.cpu.pc + 4))) ∧
      (m.arch.apply (i.effect m.arch.regs m.cpu.pc (m.cpu.pc + 4))).1.cpu.x 0 = 0) ∧
    (opcode w ∈ opcodes → (∀ i : Instr, i.encode ≠ w) →
      (∀ (o : DivOp) (rd rs1 rs2 : BitVec 5), o.encode rd rs1 rs2 ≠ w) →
      (step m).Yields (m.arch, .error (.illegalInstruction m.cpu.pc w))) := by
  constructor
  · rintro i rfl
    refine ⟨?_, by rw [apply_x0]; exact hx0⟩
    obtain ⟨mem, hun, hstep⟩ :=
      step_fetch hv heven hpc hw (low_of_opcode (opcode_encode i)) false none
    have hperf := perform_yields (m := ⟨m.cpu, mem⟩) hun.valid
      (i.effect m.cpu.x m.cpu.pc (m.cpu.pc + 4))
    rw [arch_unchanged hun m.cpu] at hperf
    rw [step, hstep, execute_encode, Arch.regs_eq hx0]
    exact hperf
  · intro hop hi hd
    obtain ⟨mem, hun, hstep⟩ := step_fetch hv heven hpc hw (low_of_opcode hop) false none
    rw [step, hstep, execute_other _ _ _ _ _ _ hop hi hd]
    exact ⟨_, rfl, arch_unchanged hun m.cpu, hun.valid⟩

/-- A hart at address 0 of a fresh memory that holds one word. -/
def Machine.holding (w : U32) (x : Reg → U64) : Machine :=
  ⟨{ Cpu.new 0 0 with x }, (Mem.new.write 0 (leBytes 4 w.toNat)).2⟩

theorem holding_valid (w : U32) (x : Reg → U64) : (Machine.holding w x).mem.Valid := by
  rcases Mem.write_spec Mem.new_valid 0 (leBytes 4 w.toNat) with ⟨_, _, hval, _⟩ | ⟨hr, _⟩
  · exact hval
  · exact absurd (by rw [length_leBytes]; decide) hr

/-- `addi x1, x0, 5`. -/
theorem step_conforms_addi :
    ∃ m, step (.holding 0x00500093 fun _ => 0) = some (m, .ok false) ∧ m.cpu.pc = 4 ∧
      m.cpu.x = Function.update (fun _ => 0) 1 5 := by
  obtain ⟨⟨m, hstep, harch, -⟩, -⟩ := (step_conforms (.holding 0x00500093 fun _ => 0)
    (holding_valid _ _) rfl (by decide) (by decide) 0x00500093 (by decide +kernel)).1
    (.opImm .addi 1 0 5) (by decide)
  exact ⟨m, hstep, congrArg (·.cpu.pc) harch, congrArg (·.cpu.x) harch⟩

end Provework.Rvcore
