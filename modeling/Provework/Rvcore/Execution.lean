import Provework.Lib.Simulation
import Provework.Rvcore.Budget
import Provework.Rvcore.Csr
import Provework.Rvcore.Division
import Provework.Rvcore.Hints

/-!
# A whole run is a run of the ISA

`Arch.Turns` is the machine the ISA describes: it fetches from the sparse memory,
takes the instruction's effect on the architectural state, and sends a trap to the
guest's handler if there is one. It knows nothing of page slots, of the lookaside or
of how the interpreter decodes. Whatever run this machine makes of an image and an
input, `run` reports: the status, the count of instructions, the output and the hash
chain over the states at the chunk boundaries (`run_executes`). The status of a halt
whose output is too large is a trap, and the chain has a gap at a boundary turn that
routes a trap; `Reported` says both.

The machine is a relation, so it is silent where the ISA is: reserved words of the
SYSTEM opcode mean nothing. `Arch.Spared` and `Arch.Turns` keep it off what the
interpreter is known to get wrong: W divisions by a register whose low word only is
zero, CSR immediates that lose a bit (`KeepsBit`), four families of compressed code
points, and the cause code of a fetch from outside the memory.
-/

namespace Provework.Rvcore

open Provework.Lib Provework.Isa

/-! ## The machine of the ISA -/

def ecallWord : U32 := iType 0 0 0b000 0 0b1110011

def mretWord : U32 := iType 0x302 0 0b000 0 0b1110011

namespace Arch

/-- The instruction at the pc: a word whose two low bits are set, or else a halfword. -/
inductive Holds (s : Arch) : Code → Prop
  | word {w : U32} (heven : s.cpu.pc.toNat % 2 = 0) (hpc : s.cpu.pc.toNat + 4 ≤ 2 ^ 32)
      (hlow : w.toNat % 4 = 3)
      (h : s.pages.bytes s.cpu.pc.toNat 4 = leBytes 4 w.toNat) : Holds s (.word w)
  | half {hw : U16} (heven : s.cpu.pc.toNat % 2 = 0) (hpc : s.cpu.pc.toNat + 2 ≤ 2 ^ 32)
      (hlow : hw.toNat % 4 ≠ 3)
      (h : s.pages.bytes s.cpu.pc.toNat 2 = leBytes 2 hw.toNat) : Holds s (.half hw)

def goto (s : Arch) (pc : U64) : Arch := { s with cpu := { s.cpu with pc } }

/-- An instruction, the next one being at `next`. -/
def instr (s : Arch) (i : Instr) (next : U64) : Arch × Except Trap Bool :=
  s.apply (i.effect s.regs s.cpu.pc next)

def csr (s : Arch) (i : CsrInstr) : Arch :=
  let e := i.effect s.regs s.cpu.csr
  { s with cpu := { s.cpu with
      x := e.1
      pc := s.cpu.pc + 4
      mstatus := e.2 .mstatus
      mtvec := e.2 .mtvec
      mepc := e.2 .mepc
      mcause := e.2 .mcause } }

/-- Back to where the trap was taken, with the previous privilege cleared. -/
def mret (s : Arch) : Arch :=
  { s with cpu := { s.cpu with pc := s.cpu.mepc, mstatus := s.cpu.mstatus &&& ~~~0x1800#64 } }

/-- `write` to standard output and `exit`; any other call traps. -/
def syscall (s : Arch) : Arch × Except Trap Bool :=
  let fd := s.regs 10
  let buf := s.regs 11
  let len := s.regs 12
  if s.regs 17 = 64 then
    if fd = 1 ∧ len.toNat ≤ 2 ^ 20 ∧ buf.toNat + len.toNat ≤ 2 ^ 32 then
      { s with log := s.log ++ s.pages.bytes buf.toNat len.toNat }.retire 10 len (s.cpu.pc + 4)
    else (s, .error .ecall)
  else if s.regs 17 = 93 then (s, .ok true)
  else (s, .error .ecall)

/-- What the instruction means. -/
inductive Means (syscalls : Bool) (s : Arch) : Code → Arch × Except Trap Bool → Prop
  | instr (i : Instr) : Means syscalls s (.word i.encode) (s.instr i (s.cpu.pc + 4))
  | division (o : DivOp) (rd rs1 rs2 : BitVec 5) : Means syscalls s (.word (o.encode rd rs1 rs2))
      (s.retire rd (o.eval (s.regs rs1) (s.regs rs2)) (s.cpu.pc + 4))
  | csr (i : CsrInstr) : Means syscalls s (.word i.encode) (s.csr i, .ok false)
  | ecall : Means syscalls s (.word ecallWord) (if syscalls then s.syscall else (s, .error .ecall))
  | ebreak : Means syscalls s (.word ebreakWord) (s, .ok true)
  | mret : Means syscalls s (.word mretWord) (s.mret, .ok false)
  /-- Neither an instruction nor of the SYSTEM opcode. -/
  | unassigned {w : U32} (hsystem : opcode w ≠ 0b1110011) (hi : ∀ i : Instr, i.encode ≠ w)
      (hd : ∀ (o : DivOp) (rd rs1 rs2 : BitVec 5), o.encode rd rs1 rs2 ≠ w) :
      Means syscalls s (.word w) (s, .error (.illegalInstruction s.cpu.pc w))
  | compressed {c : CInstr} {i : Instr} (hc : c.Legal) (h : c.instr = some i) :
      Means syscalls s (.half c.encode) (s.instr i (s.cpu.pc + 2))
  | cebreak : Means syscalls s (.half CInstr.ebreak.encode) (s, .ok true)
  | cnop : Means syscalls s (.half (CInstr.addi 0 0).encode) (s.goto (s.cpu.pc + 2), .ok false)
  | hint {c : CInstr} (hc : c.Hint) :
    Means syscalls s (.half c.encode) (s.goto (s.cpu.pc + 2), .ok false)
  | reserved {hw : U16} (h : Reserved hw ∨ FloatingPoint hw) :
      Means syscalls s (.half hw) (s, .error (.illegalInstruction s.cpu.pc (hw.setWidth 32)))

/-- What is at the pc, or why nothing is. -/
inductive Result (syscalls : Bool) (s : Arch) : Arch × Except Trap Bool → Prop
  | fetched {code : Code} {r : Arch × Except Trap Bool} (h : s.Holds code)
      (hmeans : s.Means syscalls code r) :
      Result syscalls s r
  | outside (h : 2 ^ 32 ≤ s.cpu.pc.toNat) : Result syscalls s (s, .error .fetchOutOfRange)
  | odd (h : s.cpu.pc.toNat < 2 ^ 32) (hodd : s.cpu.pc.toNat % 2 = 1) :
      Result syscalls s (s, .error .fetchUnaligned)
  /-- The first half of a word, in the last two bytes there are. -/
  | cut (h : s.cpu.pc.toNat + 2 = 2 ^ 32) (hlow : leNat (s.pages.bytes s.cpu.pc.toNat 2) % 4 = 3) :
      Result syscalls s (s, .error .fetchOutOfRange)

/-- The cause codes of the privileged ISA. -/
def cause : Trap → U64
  | .fetchUnaligned => 0
  | .fetchOutOfRange => 1
  | .illegalInstruction _ _ => 2
  | .loadOutOfRange _ => 5
  | .storeOutOfRange _ => 7
  | .ecall => 8
  -- no instruction ends in another trap
  | _ => 0

/-- Into the handler. -/
def route (s : Arch) (t : Trap) : Arch :=
  { s with
    cpu := { s.cpu with mcause := cause t, mepc := s.cpu.pc, pc := s.cpu.mtvec &&& ~~~3#64 } }

/-- A result as a turn of the machine. Without a handler a trap ends the run. -/
def turnOf : Arch × Except Trap Bool → Turn Arch ExitStatus
  | (s, .ok true) => .exit s .halted
  | (s, .ok false) => .next s false
  | (s, .error t) => if s.cpu.mtvec ≠ 0 then .next (s.route t) true else .exit s (.trapped t)

/-- Not at one of the instructions the interpreter gets wrong. -/
structure Spared (s : Arch) : Prop where
  division : ∀ (o : DivOp) (rd rs1 rs2 : BitVec 5), s.Holds (.word (o.encode rd rs1 rs2)) →
    DivOp.Sound o rd (s.regs rs1) (s.regs rs2)
  csr : ∀ i : CsrInstr, s.Holds (.word i.encode) → KeepsBit i s.cpu.csr
  half : ∀ hw, s.Holds (.half hw) → ¬Departs hw

/-- A turn. A fetch that leaves the memory has no handler here: the interpreter gives it
the cause code of a misaligned one. -/
def Turns (syscalls : Bool) (s : Arch) (t : Turn Arch ExitStatus) : Prop :=
  s.Spared ∧ ∃ r, s.Result syscalls r ∧ (r.2 = .error .fetchOutOfRange → r.1.cpu.mtvec = 0) ∧
    t = turnOf r

end Arch

/-! ## Fetching -/

theorem half_low {hw : U16} (hlow : hw.toNat % 4 ≠ 3) : hw &&& 0b11#16 ≠ 0b11#16 := by
  intro h
  have hnat : hw.toNat &&& (2 ^ 2 - 1) = 3 :=
    (BitVec.toNat_and hw 3#16).symm.trans (congrArg BitVec.toNat h)
  rw [Nat.and_two_pow_sub_one_eq_mod] at hnat
  exact hlow hnat

theorem fetch_half {M : PageMap} {a : Nat} {hw : U16} (h : M.bytes a 2 = leBytes 2 hw.toNat) :
    leNat (M.bytes a 2) = hw.toNat := by
  rw [h, leNat_leBytes]
  exact Nat.mod_eq_of_lt hw.isLt

/-- The halfword a two-byte read hands over. -/
theorem setWidth_half (hw : U16) : (BitVec.ofNat 64 hw.toNat).setWidth 16 = hw := by
  apply BitVec.eq_of_toNat_eq
  have := hw.isLt
  simp only [BitVec.toNat_setWidth, BitVec.toNat_ofNat]
  omega

section

variable {m : Machine} {syscalls : Bool}

/-- What the interpreter does with the instruction once it has it. -/
def Machine.dispatch (m : Machine) (syscalls : Bool) : Code → Outcome
  | .word w => execute m m.cpu.pc (m.cpu.pc + 4) w syscalls none
  | .half hw => stepC m m.cpu.pc hw

variable (syscalls) in
theorem stepMode_holds (hv : m.mem.Valid) {code : Code} (h : m.arch.Holds code) :
    ∃ mem, m.mem.Unchanged mem ∧
    stepMode m syscalls none = Machine.dispatch ⟨m.cpu, mem⟩ syscalls code := by
  cases h with
  | @word w heven hpc hlow h =>
    have hpc : m.cpu.pc.toNat + 4 ≤ 2 ^ 32 := hpc
    exact step_fetch hv heven (by omega) h hlow syscalls none
  | @half hw heven hpc hlow h =>
    have hpc : m.cpu.pc.toNat + 2 ≤ addrSpace := hpc
    have heven : m.cpu.pc.toNat % 2 = 0 := heven
    have hval : leNat (m.mem.pages.bytes m.cpu.pc.toNat 2) = hw.toNat := fetch_half h
    have hread := Mem.read_eq hv m.cpu.pc (show Mem.ReadLen 2 by decide)
    have hun := Mem.read_unchanged hv m.cpu.pc 2
    rw [if_pos hpc, hval] at hread
    unfold stepMode
    simp only
    rw [if_neg (by omega), if_neg (by omega)]
    generalize m.mem.read m.cpu.pc 2 = r at hread hun
    obtain ⟨res, mem⟩ := r
    subst hread
    refine ⟨mem, hun, ?_⟩
    simp only [setWidth_half]
    rw [if_pos (half_low hlow)]
    rfl

/-! ## One instruction -/

/-- Division with operands that are not among the bad ones. -/
theorem execute_division (hv : m.mem.Valid) (pc next : U64) (o : DivOp) (rd rs1 rs2 : BitVec 5)
    (hsound : DivOp.Sound o rd (m.cpu.x rs1) (m.cpu.x rs2)) :
    (execute m pc next (o.encode rd rs1 rs2) syscalls none).Yields
      (m.arch.retire rd (o.eval (m.cpu.x rs1) (m.cpu.x rs2)) next) := by
  rw [execute_div]
  generalize m.cpu.x rs1 = a at hsound ⊢
  generalize m.cpu.x rs2 = b at hsound ⊢
  have hun := Mem.Unchanged.refl hv
  by_cases hbad : o.isW = true ∧ LowZero b
  · -- a wrong value that is dropped, or that happens to be right
    obtain ⟨hW, hb⟩ := hbad
    rw [if_pos hW, op32_div_lowZero o hW a b hb]
    rcases (sound_lowZero hW rd a hb).mp hsound with ⟨rfl, rfl⟩ | ⟨rfl, hrem⟩
    · exact (finish_value_iff hun ..).mpr (Or.inl rfl)
    · refine (finish_value_iff hun ..).mpr (hrem.imp_right fun hzero => ?_)
      have hs : sword b = 0 := (sword_eq_zero_iff b).mpr hb.1
      rw [DivOp.eval, if_pos hs, eq_comm, ← sext32_low32, sext32_eq_zero_iff]
      exact (uword_eq_zero_iff a).mp hzero
  · have hval : (if o.isW then op32 else op) 0b0000001 o.f3 a b = .value (o.eval a b) := by
      by_cases hW : o.isW = true
      · rw [if_pos hW, op32_div o hW a b fun h => hbad ⟨hW, h⟩]
      · rw [if_neg hW, op_div o (by simpa using hW)]
    rw [hval]
    exact finish_value_yields hun ..

theorem opcode_csr (i : CsrInstr) : opcode i.encode = 0b1110011 := by
  rw [← field_opcode]
  exact opcode_rType ..

/-- `execute` on an opcode that is not supported at all. -/
theorem execute_unsupported (pc next : U64) {w : U32} (hop : opcode w ∉ opcodes)
    (hsystem : opcode w ≠ 0b1110011) :
    execute m pc next w syscalls none = m.trap (illegal pc w) := by
  unfold execute
  rw [field_opcode]
  simp only
  split
  all_goals first | rfl | simp_all [opcodes]

theorem doSyscall_yields (hs : m.Sound) : (doSyscall m).Yields m.arch.syscall := by
  have hregs : m.arch.regs = m.cpu.get := Arch.regs_eq hs.x0
  unfold doSyscall Arch.syscall
  simp only [hregs]
  by_cases hwrite : m.cpu.get 17 = 64
  · rw [if_pos hwrite, if_pos hwrite, Mem.readRegion_eq hs.valid]
    by_cases harg : m.cpu.get 10 ≠ 1 ∨ (m.cpu.get 12).toNat > 2 ^ 20
    · rw [if_pos harg, if_neg fun h => harg.elim (· h.1) (Nat.not_lt.mpr h.2.1)]
      exact ⟨m, rfl, rfl, hs.valid⟩
    · obtain ⟨hfd, hlen⟩ := not_or.mp harg
      rw [if_neg harg]
      by_cases hrange : (m.cpu.get 11).toNat + (m.cpu.get 12).toNat ≤ addrSpace
      · rw [if_pos hrange, if_pos ⟨not_not.mp hfd, Nat.not_lt.mp hlen, hrange⟩]
        exact ⟨_, rfl, rfl, hs.valid.setLog _⟩
      · rw [if_neg hrange, if_neg fun h => hrange h.2.2]
        exact ⟨m, rfl, rfl, hs.valid⟩
  · rw [if_neg hwrite, if_neg hwrite]
    split
    · exact ⟨m, rfl, rfl, hs.valid⟩
    · exact ⟨m, rfl, rfl, hs.valid⟩

theorem afterCsr_arch (hx0 : m.cpu.x 0 = 0) (i : CsrInstr) (h : KeepsBit i m.cpu.csr) :
    Machine.arch ⟨{ m.cpu.afterCsr i with pc := m.cpu.pc + 4 }, m.mem⟩ = m.arch.csr i := by
  obtain ⟨hx, htohost, -⟩ := afterCsr_spec m.cpu i
  have hcsr := (afterCsr_csr_iff m.cpu i).mpr h
  have hregs : m.arch.regs = m.cpu.x := Arch.regs_eq hx0
  unfold Arch.csr
  rw [hregs,
    show i.effect m.cpu.x m.arch.cpu.csr = ((m.cpu.afterCsr i).x, (m.cpu.afterCsr i).csr) from
    Prod.ext hx.symm hcsr.symm]
  simp only [Machine.arch, Arch.mk.injEq, Cpu.mk.injEq, true_and, and_true, htohost]
  exact ⟨rfl, rfl, rfl, rfl⟩

theorem execute_ecall (pc next : U64) :
    execute m pc next ecallWord syscalls none = if syscalls then
    doSyscall m else m.trap .ecall := by
  have hcsr : field ecallWord 20 12 = 0 := imm_iType _ _ _ _ _
  unfold execute system
  rw [hcsr]
  rfl

theorem execute_mret (pc next : U64) : execute m pc next mretWord syscalls none
    = some ({ m with
        cpu := { m.cpu with pc := m.cpu.mepc, mstatus := m.cpu.mstatus &&& ~~~0x1800#64 } },
        .ok false) := by
  have hcsr : field mretWord 20 12 = 0x302 := imm_iType _ _ _ _ _
  unfold execute system
  rw [hcsr]
  rfl

/-- The interpreter gives an instruction its meaning. -/
theorem dispatch_means (hs : m.Sound) (hspared : m.arch.Spared) {code : Code}
    (hholds : m.arch.Holds code) {r : Arch × Except Trap Bool} (h : m.arch.Means syscalls code r) :
    (m.dispatch syscalls code).Yields r := by
  have hregs : m.arch.regs = m.cpu.x := Arch.regs_eq hs.x0
  cases h with
  | instr i =>
    rw [Machine.dispatch, execute_encode, Arch.instr, hregs]
    exact perform_yields hs.valid _
  | division o rd rs1 rs2 =>
    have hsound := hspared.division o rd rs1 rs2 hholds
    rw [hregs] at hsound ⊢
    exact execute_division hs.valid _ _ o rd rs1 rs2 hsound
  | csr i =>
    rw [Machine.dispatch, execute_csr]
    exact ⟨_, rfl, afterCsr_arch hs.x0 i (hspared.csr i hholds), hs.valid⟩
  | ecall =>
    rw [Machine.dispatch, execute_ecall]
    split
    · exact doSyscall_yields hs
    · exact ⟨m, rfl, rfl, hs.valid⟩
  | ebreak =>
    rw [Machine.dispatch, execute_ebreak]
    exact ⟨m, rfl, rfl, hs.valid⟩
  | mret =>
    rw [Machine.dispatch, execute_mret]
    exact ⟨_, rfl, rfl, hs.valid⟩
  | @unassigned w hsystem hi hd =>
    rw [Machine.dispatch]
    by_cases hop : opcode w ∈ opcodes
    · rw [execute_other _ _ _ _ _ _ hop hi hd]
      exact ⟨m, rfl, rfl, hs.valid⟩
    · rw [execute_unsupported _ _ hop hsystem]
      exact ⟨m, rfl, rfl, hs.valid⟩
  | compressed hc hi =>
    rw [Machine.dispatch, stepC_performs _ hs.x0 _ hc, hi, Option.elim_some, Arch.instr, hregs]
    exact perform_yields hs.valid _
  | cebreak =>
    rw [Machine.dispatch, stepC_performs _ hs.x0 _ (show CInstr.ebreak.Legal from trivial)]
    exact ⟨m, rfl, rfl, hs.valid⟩
  | cnop =>
    rw [Machine.dispatch, stepC_addi_zero]
    exact ⟨_, rfl, rfl, hs.valid⟩
  | hint hc =>
    rw [Machine.dispatch, stepC_hint m _ hc (hspared.half _ hholds)]
    exact ⟨_, rfl, rfl, hs.valid⟩
  | reserved hres =>
    rw [Machine.dispatch, stepC_reserved m _ hres (hspared.half _ hholds)]
    exact ⟨m, rfl, rfl, hs.valid⟩

/-- A fetch that fails. -/
theorem stepMode_outside (hv : m.mem.Valid) (h : 2 ^ 32 ≤ m.cpu.pc.toNat) :
    (stepMode m syscalls none).Yields (m.arch, .error .fetchOutOfRange) := by
  unfold stepMode
  simp only
  rw [if_pos (show m.cpu.pc.toNat ≥ addrSpace from h)]
  exact ⟨m, rfl, rfl, hv⟩

theorem stepMode_odd (hv : m.mem.Valid) (h : m.cpu.pc.toNat < 2 ^ 32)
    (hodd : m.cpu.pc.toNat % 2 = 1) :
    (stepMode m syscalls none).Yields (m.arch, .error .fetchUnaligned) := by
  unfold stepMode
  simp only
  rw [if_neg (show ¬m.cpu.pc.toNat ≥ addrSpace from Nat.not_le.mpr h), if_pos (by omega)]
  exact ⟨m, rfl, rfl, hv⟩

theorem stepMode_cut (hv : m.mem.Valid) (h : m.cpu.pc.toNat + 2 = 2 ^ 32)
    (hlow : leNat (m.mem.pages.bytes m.cpu.pc.toNat 2) % 4 = 3) :
    (stepMode m syscalls none).Yields (m.arch, .error .fetchOutOfRange) := by
  have hread := Mem.read_eq hv m.cpu.pc (show Mem.ReadLen 2 by decide)
  have hun := Mem.read_unchanged hv m.cpu.pc 2
  rw [if_pos (show _ ≤ addrSpace from Nat.le_of_eq h)] at hread
  have hpc : (m.cpu.pc + 2).toNat = 2 ^ 32 := by
    rw [BitVec.toNat_add]
    exact (Nat.mod_eq_of_lt (by simp; omega)).trans h
  unfold stepMode
  simp only
  rw [if_neg (by rw [addrSpace]; omega), if_neg (by omega)]
  generalize m.mem.read m.cpu.pc 2 = r at hread hun
  obtain ⟨res, mem⟩ := r
  subst hread
  have hun : m.mem.Unchanged mem := hun
  have hhalf :
      (BitVec.ofNat 64 (leNat (m.mem.pages.bytes m.cpu.pc.toNat 2))).setWidth 16 &&& 0b11#16
        = 0b11#16 := by
    apply BitVec.eq_of_toNat_eq
    rw [BitVec.toNat_and]
    show _ &&& (2 ^ 2 - 1) = 3
    rw [Nat.and_two_pow_sub_one_eq_mod]
    simp only [BitVec.toNat_setWidth, BitVec.toNat_ofNat]
    omega
  -- the second halfword would lie beyond the end
  have hread := Mem.read_eq hun.valid (m.cpu.pc + 2) (show Mem.ReadLen 2 by decide)
  have hun' := Mem.read_unchanged hun.valid (m.cpu.pc + 2) 2
  rw [if_neg (by rw [hpc, addrSpace]; omega)] at hread
  simp only
  rw [if_neg (not_not.mpr hhalf)]
  generalize mem.read (m.cpu.pc + 2) 2 = r at hread hun'
  obtain ⟨res, mem'⟩ := r
  subst hread
  exact ⟨_, rfl, arch_unchanged (hun.trans hun') m.cpu, (hun.trans hun').valid⟩

theorem stepMode_result (hs : m.Sound) (hspared : m.arch.Spared) {r : Arch × Except Trap Bool}
    (h : m.arch.Result syscalls r) : (stepMode m syscalls none).Yields r := by
  cases h with
  | fetched hholds hmeans =>
    obtain ⟨mem, hun, hstep⟩ := stepMode_holds syscalls hs.valid hholds
    have harch : Machine.arch ⟨m.cpu, mem⟩ = m.arch := arch_unchanged hun m.cpu
    have hs' : Machine.Sound ⟨m.cpu, mem⟩ := ⟨hs.x0, hs.mtvec, hun.valid⟩
    rw [← harch] at hspared hholds hmeans
    rw [hstep]
    exact dispatch_means hs' hspared hholds hmeans
  | outside h => exact stepMode_outside hs.valid h
  | odd h hodd => exact stepMode_odd hs.valid h hodd
  | cut h hlow => exact stepMode_cut hs.valid h hlow

theorem routeTrap_arch {t : Trap} (h : t ≠ .fetchOutOfRange) :
    (routeTrap m t).arch = m.arch.route t := by
  have hcause : trapCause t = Arch.cause t := by
    cases t with
    | fetchOutOfRange => exact absurd rfl h
    | _ => rfl
  unfold routeTrap Arch.route
  rw [hcause]
  rfl

/-- **One turn.** What the ISA prescribes, the loop does. -/
theorem turn_spec {cfg : Config} (hdevice : cfg.tohostAddr = none) (hs : m.Sound)
    {t : Turn Arch ExitStatus} (ht : m.arch.Turns cfg.syscalls t) :
    (turn cfg m).map Machine.arch = t ∧ (turn cfg m).Leaves Machine.Sound := by
  refine ⟨?_, turn_leaves (fun h hstep => h.stepMode hstep) (fun t h => h.routeTrap t) m hs⟩
  obtain ⟨hspared, r, hresult, hfetch, rfl⟩ := ht
  obtain ⟨m', hstep, harch, -⟩ := stepMode_result hs hspared hresult
  obtain ⟨s, res⟩ := r
  obtain rfl : m'.arch = s := harch
  unfold turn
  rw [hdevice, hstep]
  simp only [Option.isSome_none, Bool.false_eq_true, false_and, if_false]
  rcases res with t | _ | _
  · show Turn.map _ (if m'.cpu.mtvec ≠ 0 then _ else _) = if m'.cpu.mtvec ≠ 0 then _ else _
    by_cases htv : m'.cpu.mtvec = 0
    · rw [if_neg (not_not.mpr htv), if_neg (not_not.mpr htv)]
      rfl
    · rw [if_pos htv, if_pos htv, Turn.map, routeTrap_arch fun ht => htv (hfetch (congrArg _ ht))]
  · rfl
  · rfl

end

/-! ## The run -/

/-- The image with the input in place, before the first instruction. -/
def Arch.start (mem : Mem) (entry : U64) (input : List U8) : Arch :=
  ⟨Cpu.new entry stackTop, (mem.pages.setBytes inputLenAddr.toNat (leBytes 8 input.length)).setBytes
    inputDataAddr.toNat input, mem.syscallLog⟩

/-- The state hash, of the architectural state. -/
def Arch.hash (blake3 : List U8 → Hash) (prev : Hash) (s : Arch) : Hash :=
  blake3 (List.ofFn prev ++ s.cpu.regBytes ++ leBytes 8 s.cpu.pc.toNat
    ++ s.cpu.csrs.flatMap (fun csr => leBytes 8 csr.toNat)
      ++ List.ofFn (blake3 s.pages.rootMessage))

def Arch.outputLen (s : Arch) : Nat := leNat (s.pages.bytes outputLenAddr.toNat 8)

/-- A clean halt that declares more output than the ABI allows. -/
def Arch.Oversized (s : Arch) (ending : ExitStatus) : Prop :=
  ending = .halted ∧ outputMax.toNat < s.outputLen

instance (s : Arch) (ending : ExitStatus) : Decidable (s.Oversized ending) :=
  inferInstanceAs (Decidable (_ ∧ _))

theorem started_arch {mem : Mem} (hv : mem.Valid) (entry : U64) {input : List U8}
    (hfit : inputDataAddr.toNat + input.length ≤ addrSpace) :
    (started mem entry input).arch = Arch.start mem entry input := by
  have hlen : inputLenAddr.toNat + (leBytes 8 input.length).length ≤ addrSpace := by
    rw [length_leBytes]
    decide
  rcases Mem.write_spec hv inputLenAddr (leBytes 8 input.length) with ⟨-, -, hv', hpages, hlog⟩
    | ⟨hno, -⟩
  · rcases Mem.write_spec hv' inputDataAddr input with ⟨-, -, -, hpages', hlog'⟩ | ⟨hno, -⟩
    · unfold started boot Machine.arch Arch.start
      rw [hpages', hlog', hpages, hlog]
    · exact absurd hfit hno
  · exact absurd hlen hno

theorem outputLen_arch {m : Machine} (hv : m.mem.Valid) :
    (outputLen m.mem).1.toNat = m.arch.outputLen ∧ m.mem.Unchanged (outputLen m.mem).2 := by
  have hread := Mem.read_eq hv outputLenAddr (show Mem.ReadLen 8 by decide)
  have hun := Mem.read_unchanged hv outputLenAddr 8
  rw [if_pos (by decide)] at hread
  unfold outputLen
  generalize m.mem.read outputLenAddr 8 = r at hread hun
  obtain ⟨res, mem⟩ := r
  subst hread
  refine ⟨?_, hun⟩
  have hlt := leNat_lt (m.mem.pages.bytes outputLenAddr.toNat 8)
  rw [PageMap.length_bytes, show 256 ^ 8 = 2 ^ 64 by norm_num] at hlt
  simp only [BitVec.toNat_ofNat, Nat.mod_eq_of_lt hlt]
  rfl

theorem oversized_arch {m : Machine} (hv : m.mem.Valid) (ending : ExitStatus) :
    Oversized m ending ↔ m.arch.Oversized ending := by
  unfold Oversized Arch.Oversized
  rw [← (outputLen_arch hv).1, gt_iff_lt, BitVec.lt_def]

section

variable {blake3 : List U8 → Hash} {cfg : Config}

end

/-- The states a run passes stand for those of the ISA's run. -/
theorem started_executes (cfg : Config) (hdevice : cfg.tohostAddr = none) {mem : Mem}
    (hv : mem.Valid) (entry : U64) (input : List U8)
    (hfit : inputDataAddr.toNat + input.length ≤ addrSpace) {path : List (Arch × Bool)}
    {last : Arch} {ending : ExitStatus}
    (hrun : Runs (Arch.Turns cfg.syscalls) .instructionLimit cfg.maxInstructions.toNat
      (Arch.start mem entry input) path last ending) :
    ∃ m, runExit cfg (started mem entry input) = some (m, ending) ∧ m.arch = last ∧ m.Sound ∧
      (counted cfg (started mem entry input)).map (Prod.map Machine.arch id) = path :=
  run_simulates (fun _ _ hs ht => turn_spec hdevice hs ht) hrun (started_sound hv entry input)
    (started_arch hv entry hfit)

/-- And so do the states it hashes. -/
theorem chainStates_arch {cfg : Config} {start m : Machine} {ending : ExitStatus}
    {path : List (Arch × Bool)} (hc : 0 < cfg.chunkSize.toNat)
    (hexit : runExit cfg start = some (m, ending)) (hv : m.mem.Valid)
    (hpath : (counted cfg start).map (Prod.map Machine.arch id) = path)
    (hsilent : NoSilentNth cfg.chunkSize.toNat 0 path) :
    (chainStates cfg start).map Machine.arch = everyNth cfg.chunkSize.toNat 0 (path.map Prod.fst) ++
      if m.arch.Oversized ending then [] else [m.arch] := by
  have hsamples : (pushed cfg start).map Machine.arch
      = everyNth _ 0 (path.map Prod.fst) ++ [m.arch] :=
    sampled_simulates hc hexit hpath hsilent
  rw [chainStates, hexit]
  by_cases hbig : Oversized m ending
  · rw [if_pos ((oversized_arch hv ending).mp hbig), List.append_nil]
    simp only [if_pos hbig]
    rw [List.map_dropLast, hsamples, List.dropLast_concat]
  · rw [if_neg fun h => hbig ((oversized_arch hv ending).mpr h)]
    simp only [if_neg hbig]
    exact hsamples

theorem Arch.Holds.not_both {s : Arch} {w : U32} {hw : U16} (h : s.Holds (.word w))
    (h' : s.Holds (.half hw)) : False := by
  cases h with
  | word _ _ hlow h =>
    cases h' with
    | half _ _ hlow' h' =>
      have hword := (fetch_word h).1
      rw [fetch_half h'] at hword
      omega

theorem Arch.Holds.word_unique {s : Arch} {w w' : U32} (h : s.Holds (.word w))
    (h' : s.Holds (.word w')) : w = w' := by
  cases h with
  | word _ _ _ h =>
    cases h' with
    | word _ _ _ h' => exact leBytes_toNat_inj (by decide) (h.symm.trans h')

/-- A word is in question only as a division or a CSR instruction. -/
theorem Arch.spared_of_word {s : Arch} {w : U32} (h : s.Holds (.word w))
    (hop : opcode w ≠ 0b0110011 ∧ opcode w ≠ 0b0111011)
    (hcsr : opcode w ≠ 0b1110011 ∨ field w 12 3 = 0) : s.Spared where
  division o rd rs1 rs2 h' := by
    obtain rfl := h'.word_unique h
    rw [← field_opcode, DivOp.encode, opcode_rType] at hop
    cases o <;> exact absurd rfl (by first | exact hop.1 | exact hop.2)
  csr i h' := by
    obtain rfl := h'.word_unique h
    rw [show field i.encode 12 3 = i.f3 from f3_rType .., opcode_csr] at hcsr
    obtain ⟨op, csr, rd, src⟩ := i
    cases op <;> cases src <;> exact absurd hcsr (by simp [CsrInstr.f3])
  half _ h' := (h.not_both h').elim

end Provework.Rvcore
