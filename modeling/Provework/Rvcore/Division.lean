import Provework.Rvcore.Conform

/-!
# Division and remainder

The 64-bit divisions are exact on all operands. The W forms divide the low
words but test the *whole* register for zero, so a divisor whose low word is
zero and whose high word is not slips past the test: `DIVUW` and `REMUW` then
divide by zero on the host, `DIVW` and `REMW` take the overflow arm of
`checked_div` and `checked_rem`. `step_division_iff` is the exact boundary:
those operands are the only ones that go wrong, less the cases where the wrong
value cannot be seen.
-/

namespace Provework.Rvcore

open Provework.Lib Provework.Isa

/-! ## The checked operators, in integers -/

section

variable {w : Nat} (a b : BitVec w)

theorem sdiv_eq_ofInt : a.sdiv b = BitVec.ofInt w (a.toInt.tdiv b.toInt) := by
  apply BitVec.eq_of_toInt_eq
  rw [BitVec.toInt_sdiv, BitVec.toInt_ofInt]

theorem srem_eq_ofInt : a.srem b = BitVec.ofInt w (a.toInt.tmod b.toInt) := by
  rw [← BitVec.toInt_srem, BitVec.ofInt_toInt]

theorem toInt_eq_iff {c : BitVec w} {k : Int} (h : c.toInt = k) : a.toInt = k ↔ a = c := by
  rw [← h, BitVec.toInt_inj]

theorem toNat_eq_zero_iff : a.toNat = 0 ↔ a = 0 := by
  rw [← BitVec.toNat_inj]
  simp

/-- `checked_div` fails exactly on a zero divisor and on overflow. -/
theorem checkedDiv_eq {k : Int} (hmin : (BitVec.intMin w).toInt = k)
    (hones : (BitVec.allOnes w).toInt = -1) :
    checkedDiv a b = if b = 0 then none else if a.toInt = k ∧ b.toInt = -1 then none
      else some (BitVec.ofInt w (a.toInt.tdiv b.toInt)) := by
  simp only [checkedDiv, sdiv_eq_ofInt, toInt_eq_iff a hmin, toInt_eq_iff b hones]
  by_cases hb : b = 0
  · simp only [hb, true_or, if_true]
  · simp only [hb, false_or, if_false]

theorem checkedRem_eq {k : Int} (hmin : (BitVec.intMin w).toInt = k)
    (hones : (BitVec.allOnes w).toInt = -1) :
    checkedRem a b = if b = 0 then none else if a.toInt = k ∧ b.toInt = -1 then none
      else some (BitVec.ofInt w (a.toInt.tmod b.toInt)) := by
  simp only [checkedRem, srem_eq_ofInt, toInt_eq_iff a hmin, toInt_eq_iff b hones]
  by_cases hb : b = 0
  · simp only [hb, true_or, if_true]
  · simp only [hb, false_or, if_false]

theorem udiv_eq_ofNat : a / b = BitVec.ofNat w (a.toNat / b.toNat) := by
  apply BitVec.eq_of_toNat_eq
  rw [BitVec.toNat_udiv, BitVec.toNat_ofNat,
    Nat.mod_eq_of_lt (Nat.lt_of_le_of_lt (Nat.div_le_self _ _) a.isLt)]

theorem umod_eq_ofNat : a % b = BitVec.ofNat w (a.toNat % b.toNat) := by
  apply BitVec.eq_of_toNat_eq
  rw [BitVec.toNat_umod, BitVec.toNat_ofNat,
    Nat.mod_eq_of_lt (Nat.lt_of_le_of_lt (Nat.mod_le _ _) a.isLt)]

end

/-! ## The 64-bit forms -/

theorem op_div (o : DivOp) (ho : o.isW = false) (a b : U64) :
    op 0b0000001 o.f3 a b = .value (o.eval a b) := by
  have hzero : b.toInt = 0 ↔ b = 0 := toInt_eq_iff b (by decide)
  -- the signed forms split three ways: by zero, overflow, and the quotient
  cases o with
  | div =>
    refine congrArg Alu.value ?_
    rw [checkedDiv_eq a b (k := -2 ^ 63) (by decide) (by decide)]
    simp only [DivOp.eval, hzero]
    by_cases hb : b = 0
    · simp only [hb, if_true]; decide
    · by_cases ho : a.toInt = -2 ^ 63 ∧ b.toInt = -1
      · simp only [hb, ho, and_self, if_true, if_false]
        rfl
      · simp only [hb, ho, if_false]
  | divu =>
    refine congrArg Alu.value ?_
    simp only [checkedUdiv, DivOp.eval, toNat_eq_zero_iff, udiv_eq_ofNat]
    split <;> rfl
  | rem =>
    refine congrArg Alu.value ?_
    rw [checkedRem_eq a b (k := -2 ^ 63) (by decide) (by decide)]
    simp only [DivOp.eval, hzero]
    by_cases hb : b = 0
    · simp only [hb, if_true]
    · by_cases ho : a.toInt = -2 ^ 63 ∧ b.toInt = -1
      · simp only [hb, ho, and_self, if_true, if_false]
      · simp only [hb, ho, if_false]
  | remu =>
    refine congrArg Alu.value ?_
    simp only [DivOp.eval, toNat_eq_zero_iff, umod_eq_ofNat]
  | divw => cases ho
  | divuw => cases ho
  | remw => cases ho
  | remuw => cases ho

/-! ## The W forms -/

theorem sword_eq_zero_iff (b : U64) : sword b = 0 ↔ low32 b = 0 := by
  rw [← toInt_low32]
  exact toInt_eq_iff _ (by decide)

theorem uword_eq_zero_iff (b : U64) : uword b = 0 ↔ low32 b = 0 := by
  rw [← toNat_low32]
  exact toNat_eq_zero_iff _

/-- A register cut to its low word is that word as a 32-bit result, read
either way. -/
theorem sext32_low32 (a : U64) : sext32 (low32 a) = wres (sword a) := by
  rw [← toInt_low32, ← sext32_ofInt, BitVec.ofInt_toInt]

theorem sext32_low32_unsigned (a : U64) : sext32 (low32 a) = wres (uword a) := by
  rw [← toNat_low32, ← sext32_ofNat, BitVec.ofNat_toNat, BitVec.setWidth_eq]

theorem sext32_eq_zero_iff (v : U32) : sext32 v = 0 ↔ v = 0 := by
  rw [← BitVec.toInt_inj, ← BitVec.toInt_inj, sext32, BitVec.toInt_signExtend_of_le (by decide)]
  rfl

/-- The low word of the divisor is zero, the register is not. -/
def LowZero (b : U64) : Prop := low32 b = 0 ∧ b ≠ 0

/-- Away from such divisors the W forms are exact: the register is zero just
when its low word is. -/
theorem op32_div (o : DivOp) (ho : o.isW = true) (a b : U64) (hb : ¬LowZero b) :
    op32 0b0000001 o.f3 a b = .value (o.eval a b) := by
  -- the code tests the register, the ISA the word
  have hiff : b = 0 ↔ low32 b = 0 := by
    constructor
    · rintro rfl; rfl
    · intro h
      by_contra h'
      exact hb ⟨h, h'⟩
  cases o with
  | divw =>
    refine congrArg Alu.value ?_
    rw [checkedDiv_eq _ _ (k := -2 ^ 31) (by decide) (by decide)]
    simp only [DivOp.eval, sword_eq_zero_iff, hiff, toInt_low32]
    by_cases h : low32 b = 0
    · simp only [h, if_true]; decide
    · by_cases ho : sword a = -2 ^ 31 ∧ sword b = -1
      · simp only [h, ho, and_self, if_true, if_false]
        rfl
      · simp only [h, ho, if_false, sext32_ofInt]
  | divuw =>
    show (if b = 0 then _ else _) = _
    simp only [hostUdiv, DivOp.eval, uword_eq_zero_iff, hiff]
    by_cases h : low32 b = 0
    · simp only [h, if_true]
      exact congrArg Alu.value (by decide)
    · simp only [h, if_false, udiv_eq_ofNat, sext32_ofNat, toNat_low32]
  | remw =>
    refine congrArg Alu.value ?_
    rw [checkedRem_eq _ _ (k := -2 ^ 31) (by decide) (by decide)]
    simp only [DivOp.eval, sword_eq_zero_iff, hiff, toInt_low32]
    by_cases h : low32 b = 0
    · simp only [h, if_true]
      exact sext32_low32 a
    · by_cases ho : sword a = -2 ^ 31 ∧ sword b = -1
      · simp only [h, ho, and_self, if_true, if_false]
      · simp only [h, ho, if_false, sext32_ofInt]
  | remuw =>
    show (if b = 0 then _ else _) = _
    simp only [hostUrem, DivOp.eval, uword_eq_zero_iff, hiff]
    by_cases h : low32 b = 0
    · simp only [h, if_true]
      exact congrArg Alu.value (sext32_low32_unsigned a)
    · simp only [h, if_false, umod_eq_ofNat, sext32_ofNat, toNat_low32]
  | div => cases ho
  | divu => cases ho
  | rem => cases ho
  | remu => cases ho

/-- On them, `DIVUW` and `REMUW` divide by zero on the host, and the other two
take the overflow arm. -/
theorem op32_div_lowZero (o : DivOp) (ho : o.isW = true) (a b : U64) (hb : LowZero b) :
    op32 0b0000001 o.f3 a b = match o with
      | .divw => .value (wres (-2 ^ 31))
      | .remw => .value 0
      | _ => .panic := by
  obtain ⟨hlow, hne⟩ := hb
  cases o with
  | divw =>
    refine congrArg Alu.value ?_
    simp only [checkedDiv, hlow, hne, true_or, if_true, if_false]
    decide
  | remw =>
    refine congrArg Alu.value ?_
    simp only [checkedRem, hlow, hne, true_or, if_true, if_false]
  | divuw =>
    show (if b = 0 then _ else _) = _
    simp only [hostUdiv, hlow, hne, if_true, if_false]
  | remuw =>
    show (if b = 0 then _ else _) = _
    simp only [hostUrem, hlow, hne, if_true, if_false]
  | div => cases ho
  | divu => cases ho
  | rem => cases ho
  | remu => cases ho

/-! ## The step -/

theorem execute_div (m : Machine) (pc next : U64) (o : DivOp) (rd rs1 rs2 : BitVec 5)
    (syscalls : Bool) (tohostAddr : Option U64) :
    execute m pc next (o.encode rd rs1 rs2) syscalls tohostAddr
      = m.finish pc next (o.encode rd rs1 rs2) rd
          ((if o.isW then op32 else op) 0b0000001 o.f3 (m.cpu.x rs1) (m.cpu.x rs2)) := by
  unfold execute
  simp only [DivOp.encode, opcode_rType, rd_rType, f3_rType, rs1_rType, rs2_rType, f7_rType]
  cases o <;> rfl

theorem opcode_div (o : DivOp) (rd rs1 rs2 : BitVec 5) :
    opcode (o.encode rd rs1 rs2) ∈ opcodes := by
  rw [← field_opcode, DivOp.encode, opcode_rType]
  cases o <;> decide

/-- What the operands have to meet for the result to be right. -/
def DivOp.Sound (o : DivOp) (rd : BitVec 5) (a b : U64) : Prop :=
  o.isW = true → uword b = 0 →
    b = 0 ∨ (o = .divw ∧ rd = 0) ∨ (o = .remw ∧ (rd = 0 ∨ uword a = 0))

instance (o : DivOp) (rd : BitVec 5) (a b : U64) : Decidable (DivOp.Sound o rd a b) := by
  unfold DivOp.Sound; infer_instance

theorem sound_lowZero {o : DivOp} (hW : o.isW = true) (rd : BitVec 5) (a : U64) {b : U64}
    (hb : LowZero b) :
    DivOp.Sound o rd a b ↔
      (o = .divw ∧ rd = 0) ∨ (o = .remw ∧ (rd = 0 ∨ uword a = 0)) := by
  have hu : uword b = 0 := (uword_eq_zero_iff b).mpr hb.1
  simp only [DivOp.Sound, hW, hu, hb.2, true_imp_iff, false_or]

/-- A call yields one thing. -/
theorem Outcome.Yields.unique {o : Outcome} {r r' : Arch × Except Trap Bool} (h : o.Yields r)
    (h' : o.Yields r') : r = r' := by
  obtain ⟨m, he, ha, _⟩ := h
  obtain ⟨m', he', ha', _⟩ := h'
  rw [he] at he'
  obtain ⟨rfl, hr⟩ := Prod.mk.inj (Option.some.inj he')
  exact Prod.ext (ha.symm.trans ha') hr

/-- Two results of one instruction look the same just when they are the same
or are dropped. -/
theorem retire_inj (s : Arch) (rd : BitVec 5) (v v' pc : U64) :
    s.retire rd v pc = s.retire rd v' pc ↔ rd = 0 ∨ v = v' := by
  constructor
  · intro h
    by_cases hrd : rd = 0
    · exact Or.inl hrd
    · right
      have hx : writeReg s.cpu.x rd v rd = writeReg s.cpu.x rd v' rd :=
        congrArg (fun r => r.1.cpu.x rd) h
      rwa [writeReg_self _ hrd, writeReg_self _ hrd] at hx
  · rintro (rfl | rfl) <;> rfl

theorem finish_value_yields {m : Machine} {mem : Mem} (hun : m.mem.Unchanged mem) (pc next : U64)
    (w : U32) (rd : BitVec 5) (v : U64) :
    (Machine.finish ⟨m.cpu, mem⟩ pc next w rd (.value v)).Yields (m.arch.retire rd v next) :=
  retire_yields hun rd v next

/-- The outcome is right for a result `v` in place of `v'` just when the two
cannot be told apart. -/
theorem finish_value_iff {m : Machine} {mem : Mem} (hun : m.mem.Unchanged mem) (pc next : U64)
    (w : U32) (rd : BitVec 5) (v v' : U64) :
    (Machine.finish ⟨m.cpu, mem⟩ pc next w rd (.value v)).Yields (m.arch.retire rd v' next) ↔
      rd = 0 ∨ v = v' := by
  have hy := finish_value_yields hun pc next w rd v
  constructor
  · intro h
    exact (retire_inj _ _ _ _ _).mp (hy.unique h)
  · intro h
    rwa [← (retire_inj m.arch rd v v' next).mpr h]

/-- **Division and remainder.** `step` on any of the eight leaves exactly the
ISA's result — and in particular does not panic — if and only if the operands
are `Sound`: always for the 64-bit forms, and for the W forms unless the low
word of the divisor is zero while the register is not (and the wrong value
would show). -/
theorem step_division_iff (m : Machine) (hv : m.mem.Valid) (hx0 : m.cpu.x 0 = 0)
    (heven : m.cpu.pc.toNat % 2 = 0) (hpc : m.cpu.pc.toNat ≤ 2 ^ 32 - 4) (o : DivOp)
    (rd rs1 rs2 : BitVec 5)
    (hw : m.mem.pages.bytes m.cpu.pc.toNat 4 = leBytes 4 (o.encode rd rs1 rs2).toNat) :
    (step m).Yields (m.arch.retire rd (o.eval (m.arch.regs rs1) (m.arch.regs rs2)) (m.cpu.pc + 4)) ↔
      DivOp.Sound o rd (m.arch.regs rs1) (m.arch.regs rs2) := by
  rw [Arch.regs_eq hx0]
  show (step m).Yields (m.arch.retire rd (o.eval (m.cpu.x rs1) (m.cpu.x rs2)) (m.cpu.pc + 4)) ↔
      DivOp.Sound o rd (m.cpu.x rs1) (m.cpu.x rs2)
  obtain ⟨mem, hun, hstep⟩ :=
    step_fetch hv heven hpc hw (low_of_opcode (opcode_div o rd rs1 rs2)) false none
  rw [step, hstep, execute_div]
  generalize m.cpu.x rs1 = a
  generalize m.cpu.x rs2 = b
  by_cases hbad : o.isW = true ∧ LowZero b
  · -- the bad divisors: the two signed forms go wrong by value, the others panic
    obtain ⟨hW, hb⟩ := hbad
    have hs : sword b = 0 := (sword_eq_zero_iff b).mpr hb.1
    rw [if_pos hW, op32_div_lowZero o hW a b hb, sound_lowZero hW rd a hb]
    cases o with
    | divw =>
      have hne : wres (-2 ^ 31) ≠ wres (-1) := by decide
      rw [finish_value_iff hun, DivOp.eval, if_pos hs]
      simp only [hne, or_false, true_and, reduceCtorEq, false_and]
    | remw =>
      have hzero : (0 = wres (sword a)) ↔ uword a = 0 := by
        rw [eq_comm, ← sext32_low32, sext32_eq_zero_iff, uword_eq_zero_iff]
      rw [finish_value_iff hun, DivOp.eval, if_pos hs, hzero]
      simp only [true_and, reduceCtorEq, false_and, false_or]
    | divuw => simp [Machine.finish, Outcome.Yields]
    | remuw => simp [Machine.finish, Outcome.Yields]
    | div => cases hW
    | divu => cases hW
    | rem => cases hW
    | remu => cases hW
  · have hval : (if o.isW then op32 else op) 0b0000001 o.f3 a b = .value (o.eval a b) := by
      by_cases hW : o.isW = true
      · rw [if_pos hW, op32_div o hW a b fun h => hbad ⟨hW, h⟩]
      · rw [if_neg hW, op_div o (by simpa using hW)]
    rw [hval, finish_value_iff hun]
    refine iff_of_true (Or.inr rfl) fun hW hu => Or.inl ?_
    by_contra hne
    exact hbad ⟨hW, (uword_eq_zero_iff b).mp hu, hne⟩

/-- `div x3, x1, x2` of `-7` by `2` is `-3`. -/
theorem step_division_neg_seven :
    (step (.holding (DivOp.div.encode 3 1 2)
        (Function.update (Function.update (fun _ => 0) 1 (-7)) 2 2))).Yields
      ((Machine.holding (DivOp.div.encode 3 1 2)
        (Function.update (Function.update (fun _ => 0) 1 (-7)) 2 2)).arch.retire 3 (-3) 4) :=
  (step_division_iff (.holding (DivOp.div.encode 3 1 2)
      (Function.update (Function.update (fun _ => 0) 1 (-7)) 2 2)) (holding_valid _ _) rfl
    (by decide) (by decide) .div 3 1 2 (by decide +kernel)).mpr (by decide)

/-- `x1 = 1`, `x2 = 2^32`, an instruction `x3 := x1 op x2`: the low word of the
divisor is zero, its register is not. `DIVUW` takes the host down, and `DIVW`
writes `i32::MIN` where all ones are due. -/
theorem divw_low_zero_divisor :
    step (.holding (DivOp.divuw.encode 3 1 2)
        (Function.update (Function.update (fun _ => 0) 1 1) 2 0x100000000)) = none ∧
    (step (.holding (DivOp.divw.encode 3 1 2)
        (Function.update (Function.update (fun _ => 0) 1 1) 2 0x100000000))).map (·.1.cpu.x 3)
      = some 0xffffffff80000000 ∧
    DivOp.divw.eval 1 0x100000000 = 0xffffffffffffffff := by
  refine ⟨Option.isNone_iff_eq_none.mp ?_, ?_, ?_⟩ <;> decide +kernel

end Provework.Rvcore
