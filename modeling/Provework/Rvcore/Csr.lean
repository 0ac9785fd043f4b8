import Provework.Isa.Zicsr
import Provework.Rvcore.Conform
import Provework.Rvcore.Effects

/-!
# CSR instructions

The six instructions share one arm of `step_mode`. It conforms to Zicsr, for every
state and every CSR number, except that an immediate with its top bit set loses
that bit: the source means to sign-extend it, Zicsr zero-extends, and it does
neither (`csr_immediate_loses_bit`). The loss does not show if nothing is written,
if the bit to be set is set already, or if the bit to be cleared is clear
(`KeepsBit`); everywhere else it does (`step_csr_iff`).
-/

namespace Provework.Rvcore

open Provework.Lib Provework.Isa

def Cpu.csr (c : Cpu) : Csr → U64
  | .mstatus => c.mstatus
  | .mtvec => c.mtvec
  | .mepc => c.mepc
  | .mcause => c.mcause

/-! ## Reading and writing -/

theorem readCsr_eq (c : Cpu) (i : CsrInstr) : readCsr c i.csr = i.old c.csr := by
  unfold readCsr CsrInstr.old
  split
  next h => rw [h]; rfl
  next h => rw [h]; rfl
  next h => rw [h]; rfl
  next h => rw [h]; rfl
  next h0 h1 h2 h3 =>
    rw [if_neg (show ¬i.csr = Csr.mstatus.num from h0),
      if_neg (show ¬i.csr = Csr.mtvec.num from h1), if_neg (show ¬i.csr = Csr.mepc.num from h2),
      if_neg (show ¬i.csr = Csr.mcause.num from h3)]

/-- Two low bits cleared. -/
theorem and_not_three_eq (v : U64) : v &&& ~~~3#64 = BitVec.ofNat 64 (v.toNat / 4 * 4) := by
  have hshift : v &&& ~~~3#64 = (v >>> 2) <<< 2 := by
    ext i hi
    have h3 : (3#64).getLsbD i = decide (i < 2) := by
      rw [show 3#64 = (BitVec.allOnes 2).setWidth 64 from rfl, BitVec.getLsbD_setWidth,
        BitVec.getLsbD_allOnes]
      simp only [hi, decide_true, Bool.true_and]
    rw [BitVec.getElem_and, BitVec.getElem_not, ← BitVec.getLsbD_eq_getElem (x := 3#64), h3,
      BitVec.getElem_shiftLeft]
    by_cases hlow : i < 2
    · simp [hlow]
    · rw [BitVec.getElem_ushiftRight, show 2 + (i - 2) = i by omega, BitVec.getLsbD_eq_getElem hi]
      simp [hlow]
  have hv := v.isLt
  apply BitVec.eq_of_toNat_eq
  rw [hshift, BitVec.toNat_shiftLeft, BitVec.toNat_ushiftRight, BitVec.toNat_ofNat,
    Nat.shiftRight_eq_div_pow, Nat.shiftLeft_eq]

theorem writeCsr_csr (c : Cpu) (num : BitVec 12) (new : U64) :
    (writeCsr c num new).csr = fun k => if k.num = num then k.legal new else c.csr k := by
  funext k
  unfold writeCsr
  split
  · cases k <;> rfl
  · cases k <;> first | rfl | exact and_not_three_eq new
  · cases k <;> rfl
  · cases k <;> rfl
  next h0 h1 h2 h3 =>
    have hk : k.num ≠ num := by
      rintro rfl
      cases k with
      | mstatus => exact h0 rfl
      | mtvec => exact h1 rfl
      | mepc => exact h2 rfl
      | mcause => exact h3 rfl
    rw [if_neg hk]

theorem writeCsr_rest (c : Cpu) (num : BitVec 12) (new : U64) :
    (writeCsr c num new).x = c.x ∧ (writeCsr c num new).tohost = c.tohost := by
  unfold writeCsr
  split <;> exact ⟨rfl, rfl⟩

/-! ## The source operand -/

/-- What the arm makes of an immediate: the top bit is dropped. -/
theorem csrSrc_imm (op : CsrOp) (csr : BitVec 12) (rd z : BitVec 5) (v : U64) :
    csrSrc (CsrInstr.mk op csr rd (.imm z)).f3 z v =
      if z.toNat < 16 then BitVec.ofNat 64 z.toNat else BitVec.ofNat 64 (z.toNat - 16) := by
  have hall : ∀ z : BitVec 5,
      (if z &&& 0x10#5 ≠ 0 then z.setWidth 64 - 0x10#64 else z.setWidth 64) =
        if z.toNat < 16 then BitVec.ofNat 64 z.toNat else BitVec.ofNat 64 (z.toNat - 16) := by
    decide
  cases op <;> exact hall z

/-- The dropped bit, put back. -/
theorem imm_top : ∀ z : BitVec 5, 16 ≤ z.toNat →
    BitVec.ofNat 64 z.toNat = BitVec.ofNat 64 (z.toNat - 16) ||| BitVec.twoPow 64 4 ∧
      (BitVec.ofNat 64 (z.toNat - 16)).getLsbD 4 = false := by
  decide

theorem csrNew_eq (i : CsrInstr) (old src : U64) : csrNew i.f3 old src = i.op.eval old src := by
  obtain ⟨op, csr, rd, src'⟩ := i
  cases op <;> cases src' <;> rfl

/-! ## The instruction -/

/-- The registers and CSRs the arm leaves. -/
def Cpu.afterCsr (c : Cpu) (i : CsrInstr) : Cpu :=
  let cpu := writeCsr c i.csr (csrNew i.f3 (readCsr c i.csr) (csrSrc i.f3 i.rs1 (c.x i.rs1)))
  if i.rd ≠ 0 then cpu.set i.rd (readCsr c i.csr) else cpu

theorem execute_csr (m : Machine) (pc next : U64) (i : CsrInstr) (syscalls : Bool)
    (tohostAddr : Option U64) :
    execute m pc next i.encode syscalls tohostAddr
      = some (⟨{ m.cpu.afterCsr i with pc := next }, m.mem⟩, .ok false) := by
  have hf3 : i.f3 ≠ 0 ∧ i.f3 ≠ 4 := by
    obtain ⟨op, csr, rd, src⟩ := i
    cases op <;> cases src <;> simp [CsrInstr.f3]
  have hop : field i.encode 0 7 = 0b1110011#7 := opcode_rType ..
  have h3 : field i.encode 12 3 = i.f3 := f3_rType ..
  have hrd : field i.encode 7 5 = i.rd := rd_rType ..
  have hrs1 : field i.encode 15 5 = i.rs1 := rs1_rType ..
  have hnum : field i.encode 20 12 = i.csr := imm_iType ..
  unfold execute
  simp only [hop]
  unfold system
  simp only [h3, hrd, hrs1, hnum, if_neg hf3.1, if_neg hf3.2]
  rfl

/-- The source operand as the arm has it. -/
def Cpu.csrOperand (c : Cpu) (i : CsrInstr) : U64 := csrSrc i.f3 i.rs1 (c.x i.rs1)

/-- The arm, in terms of Zicsr, up to its source operand. -/
theorem afterCsr_spec (c : Cpu) (i : CsrInstr) :
    (c.afterCsr i).x = (i.effect c.x c.csr).1 ∧ (c.afterCsr i).tohost = c.tohost ∧
      (c.afterCsr i).csr = fun k =>
        if k.num = i.csr then k.legal (i.op.eval (i.old c.csr) (c.csrOperand i)) else c.csr k := by
  have hcsr := writeCsr_csr c i.csr (csrNew i.f3 (readCsr c i.csr) (c.csrOperand i))
  obtain ⟨hx, hto⟩ := writeCsr_rest c i.csr (csrNew i.f3 (readCsr c i.csr) (c.csrOperand i))
  unfold Cpu.afterCsr CsrInstr.effect
  rw [show csrSrc i.f3 i.rs1 (c.x i.rs1) = c.csrOperand i from rfl]
  generalize writeCsr c i.csr _ = cpu at hcsr hx hto
  rw [readCsr_eq, csrNew_eq] at hcsr
  rw [readCsr_eq, ← hcsr, ← hx, ← hto]
  by_cases hrd : i.rd = 0
  · simp only [hrd, ne_eq, not_true_eq_false, if_false, if_true, and_self]
  · simp only [hrd, ne_eq, not_false_eq_true, if_true, if_false, Cpu.set]
    exact ⟨trivial, trivial, rfl⟩

/-! ## The lost bit -/

/-- The lost bit of an immediate makes no difference to any CSR. -/
def KeepsBit (i : CsrInstr) (csr : Csr → U64) : Prop :=
  ∀ z, i.src = .imm z → 16 ≤ z.toNat → ∀ k : Csr, k.num = i.csr →
    (i.op = .rs ∧ (csr k).getLsbD 4 = true) ∨ (i.op = .rc ∧ (csr k).getLsbD 4 = false)

/-- Only the two low bits of `mtvec` are not as written. -/
theorem legal_bit (k : Csr) (v : U64) : (k.legal v).getLsbD 4 = v.getLsbD 4 := by
  cases k with
  | mtvec =>
    rw [Csr.legal, ← and_not_three_eq, BitVec.getLsbD_and]
    simp
  | _ => rfl

theorem or_twoPow_eq {v : U64} (h : v.getLsbD 4 = true) : v ||| BitVec.twoPow 64 4 = v := by
  ext j hj
  rw [BitVec.getElem_or, BitVec.getElem_twoPow]
  by_cases hbit : j = 4
  · subst hbit
    simp [← BitVec.getLsbD_eq_getElem, h]
  · simp [hbit]

theorem and_not_twoPow_eq {v : U64} (h : v.getLsbD 4 = false) :
    v &&& ~~~BitVec.twoPow 64 4 = v := by
  ext j hj
  rw [BitVec.getElem_and, BitVec.getElem_not, BitVec.getElem_twoPow]
  by_cases hbit : j = 4
  · subst hbit
    simp [← BitVec.getLsbD_eq_getElem, h]
  · simp [hbit]

/-- A source without its bit 4 gives the same result just when the operation would not
have changed that bit. -/
theorem legal_eval_iff (k : Csr) (op : CsrOp) (old s : U64) (hs : s.getLsbD 4 = false) :
    k.legal (op.eval old s) = k.legal (op.eval old (s ||| BitVec.twoPow 64 4)) ↔
      (op = .rs ∧ old.getLsbD 4 = true) ∨ (op = .rc ∧ old.getLsbD 4 = false) := by
  have htop : (s ||| BitVec.twoPow 64 4).getLsbD 4 = true := by
    rw [BitVec.getLsbD_or, BitVec.getLsbD_twoPow]
    simp
  constructor
  · intro h
    have hbit := congrArg (·.getLsbD 4) h
    simp only [legal_bit] at hbit
    cases op with
    | rw =>
      rw [CsrOp.eval, CsrOp.eval, hs, htop] at hbit
      cases hbit
    | rs =>
      rw [CsrOp.eval, CsrOp.eval, BitVec.getLsbD_or, BitVec.getLsbD_or, hs, htop] at hbit
      simp only [Bool.or_false, Bool.or_true] at hbit
      exact Or.inl ⟨rfl, hbit⟩
    | rc =>
      rw [CsrOp.eval, CsrOp.eval, BitVec.getLsbD_and, BitVec.getLsbD_and, BitVec.getLsbD_not,
        BitVec.getLsbD_not, hs, htop] at hbit
      simp only [Bool.not_false, Bool.not_true, Bool.and_false] at hbit
      exact Or.inr ⟨rfl, by simpa using hbit⟩
  · rintro (⟨rfl, hold⟩ | ⟨rfl, hold⟩)
    · rw [CsrOp.eval, CsrOp.eval, BitVec.or_comm s, ← BitVec.or_assoc, or_twoPow_eq hold]
    · rw [CsrOp.eval, CsrOp.eval, BitVec.not_or, BitVec.and_comm (~~~s), ← BitVec.and_assoc,
        and_not_twoPow_eq hold]

/-- The value read, for one of the four. -/
theorem old_of_num (i : CsrInstr) (csr : Csr → U64) {k : Csr} (h : k.num = i.csr) :
    i.old csr = csr k := by
  unfold CsrInstr.old
  rw [← h]
  cases k <;> rfl

/-- The CSRs are those of Zicsr exactly if the lost bit makes no difference. -/
theorem afterCsr_csr_iff (c : Cpu) (i : CsrInstr) :
    (c.afterCsr i).csr = (i.effect c.x c.csr).2 ↔ KeepsBit i c.csr := by
  rw [(afterCsr_spec c i).2.2]
  unfold CsrInstr.effect KeepsBit Cpu.csrOperand
  obtain ⟨op, num, rd, src⟩ := i
  cases src with
  | reg r =>
    have hsrc : csrSrc (CsrInstr.mk op num rd (.reg r)).f3 r (c.x r) = c.x r := by cases op <;> rfl
    refine iff_of_true ?_ fun z hz => by cases hz
    simp only [CsrInstr.rs1, hsrc, CsrSrc.value]
  | imm z =>
    simp only [CsrInstr.rs1, csrSrc_imm, CsrSrc.value]
    by_cases hz : z.toNat < 16
    · simp only [if_pos hz, true_iff]
      rintro z' ⟨⟩ hz'
      exact absurd hz (Nat.not_lt.mpr hz')
    · have hz : 16 ≤ z.toNat := Nat.not_lt.mp hz
      obtain ⟨htop, hlow⟩ := imm_top z hz
      rw [if_neg (Nat.not_lt.mpr hz), htop]
      constructor
      · rintro h z' ⟨⟩ _ k hk
        have hk' := congrFun h k
        simp only [if_pos hk] at hk'
        rw [old_of_num ⟨op, num, rd, .imm z⟩ c.csr hk] at hk'
        exact (legal_eval_iff k op _ _ hlow).mp hk'
      · intro h
        funext k
        by_cases hk : k.num = num
        · simp only [if_pos hk]
          rw [old_of_num ⟨op, num, rd, .imm z⟩ c.csr hk]
          exact (legal_eval_iff k op _ _ hlow).mpr (h z rfl hz k hk)
        · simp only [if_neg hk]

/-- **Zicsr conformance.** In every state whose next instruction is a CSR instruction,
and in every mode, a step leaves the registers and CSRs that Zicsr gives, moves the pc
by four and changes nothing else, exactly if the source is a register, or an immediate
below 16, or one whose lost bit makes no difference. -/
theorem step_csr_iff (m : Machine) (i : CsrInstr) (hfetch : m.fetch = some (.word i.encode))
    (syscalls : Bool) (tohostAddr : Option U64) :
    (∃ m', stepMode m syscalls tohostAddr = some (m', .ok false) ∧
      (m'.cpu.x, m'.cpu.csr) = i.effect m.cpu.x m.cpu.csr ∧ m'.cpu.pc = m.cpu.pc + 4 ∧
      m'.cpu.tohost = m.cpu.tohost ∧ m'.mem.pages = m.mem.pages ∧
      m'.mem.syscallLog = m.mem.syscallLog) ↔ KeepsBit i m.cpu.csr := by
  have hstep := stepMode_fetched m syscalls tohostAddr
  rw [hfetch] at hstep
  generalize stepMode m syscalls tohostAddr = o at hstep
  cases hstep with
  | @word mem _ hp =>
    obtain ⟨hx, hto, -⟩ := afterCsr_spec m.cpu i
    rw [execute_csr ⟨m.cpu, mem⟩ _ _ i syscalls tohostAddr, ← afterCsr_csr_iff]
    constructor
    · rintro ⟨m', hm', heffect, -⟩
      obtain ⟨rfl, -⟩ := Prod.mk.inj (Option.some.inj hm')
      exact congrArg Prod.snd heffect
    · intro hcsr
      exact ⟨_, rfl, Prod.ext hx hcsr, rfl, hto, hp.pages, hp.log⟩

/-- `csrrs x5, mtvec, x6`; `csrrwi x5, mepc, 15`; and `csrrci x5, mepc, 16`, where the
bit to be cleared is clear. -/
theorem step_csr_iff_mtvec :
    (∃ m', stepMode (.holding 0x305322f3 fun _ => 7) false none = some (m', .ok false) ∧
      m'.cpu.x 5 = 0 ∧ m'.cpu.mtvec = 4) ∧
    (∃ m', stepMode (.holding 0x3417d2f3 fun _ => 7) false none = some (m', .ok false) ∧
      m'.cpu.x 5 = 0 ∧ m'.cpu.mepc = 15) ∧
    ∃ m', stepMode (.holding 0x341872f3 fun _ => 7) false none = some (m', .ok false) ∧
      m'.cpu.mepc = 0 := by
  refine ⟨?_, ?_, ?_⟩
  · obtain ⟨m', hstep, heff, -⟩ :=
      (step_csr_iff (.holding 0x305322f3 fun _ => 7) ⟨.rs, 0x305, 5, .reg 6⟩
      (by decide +kernel) false none).mpr (fun z h => by cases h)
    obtain ⟨hx, hcsr⟩ := Prod.mk.inj heff
    refine ⟨m', hstep, ?_, ?_⟩
    · rw [hx]; rfl
    · exact (congrFun hcsr .mtvec).trans (by decide)
  · obtain ⟨m', hstep, heff, -⟩ :=
      (step_csr_iff (.holding 0x3417d2f3 fun _ => 7) ⟨.rw, 0x341, 5, .imm 15⟩
      (by decide +kernel) false none).mpr (fun z h h16 => by cases h; exact absurd h16 (by decide))
    obtain ⟨hx, hcsr⟩ := Prod.mk.inj heff
    refine ⟨m', hstep, ?_, ?_⟩
    · rw [hx]; rfl
    · exact (congrFun hcsr .mepc).trans (by decide)
  · obtain ⟨m', hstep, heff, -⟩ :=
      (step_csr_iff (.holding 0x341872f3 fun _ => 7) ⟨.rc, 0x341, 5, .imm 16⟩
      (by decide +kernel) false none).mpr (fun z h _ k hk => Or.inr ⟨rfl, by cases k <;> rfl⟩)
    exact ⟨m', hstep, (congrFun (Prod.mk.inj heff).2 .mepc).trans (by decide)⟩

/-- `csrrwi x0, mepc, 16` writes zero. -/
theorem csr_immediate_loses_bit :
    (CsrInstr.mk .rw 0x341 0 (.imm 16)).encode = 0x34185073 ∧
    (CsrInstr.effect ⟨.rw, 0x341, 0, .imm 16⟩ (fun _ => 0) (fun _ => 0)).2 .mepc = 16 ∧
    (stepMode (.holding 0x34185073 fun _ => 0) false none).map (fun r => (r.1.cpu.mepc, r.2))
      = some (0, .ok false) := by
  decide +kernel

end Provework.Rvcore
