import Provework.Rvcore.Compressed

/-!
# HINTs and reserved compressed encodings

The rule `step_c` states for itself: a HINT executes as a no-op, a reserved or
floating-point encoding traps. It is kept but for four families of code points
(`Departs`), each of which gets the other treatment in every state: the rule holds of a
halfword exactly if it is in none of them (`special_encodings_iff`).
-/

namespace Provework.Rvcore

open Provework.Lib Provework.Isa

/-- The code points treated against the rule: `c.srli` and `c.srai` by zero, `c.addiw`
to `x0`, and `c.lui` of zero to `x0`. -/
inductive Departs : U16 → Prop
  | srli (rd : BitVec 3) : Departs (CInstr.srli rd 0).encode
  | srai (rd : BitVec 3) : Departs (CInstr.srai rd 0).encode
  | addiw (imm : BitVec 6) : Departs (CInstr.addiw 0 imm).encode
  | lui : Departs (CInstr.lui 0 0).encode

section

variable (m : Machine) (pc : U64)

/-- The trap `bad()` of `step_c`. -/
def Machine.bad (m : Machine) (pc : U64) (hw : U16) : Outcome :=
  m.trap (.illegalInstruction pc (hw.setWidth 32))

/-! ## HINTs -/

/-- Writing a register its own value is no write. -/
theorem retire_self (rd : Reg) (next : U64) : m.retire rd (m.cpu.x rd) next = m.jump next := by
  unfold Machine.retire Machine.jump Cpu.set
  split
  · rw [Function.update_eq_self]
  · rfl

theorem stepC_addi_zero (imm : BitVec 6) :
    stepC m pc (CInstr.addi 0 imm).encode = m.jump (pc + 2) := by
  simp only [CInstr.encode, ciImm, stepC, stepC1, op_ciType, f3_ciType, rd_ciType, ne_eq,
    not_true_eq_false, if_false]
  rfl

theorem stepC_addi_imm_zero (rd : BitVec 5) (hrd : rd ≠ 0) :
    stepC m pc (CInstr.addi rd 0).encode = m.jump (pc + 2) := by
  have himm := imm6_ciImm 0b000 rd 0 0b01
  simp only [CInstr.encode, ciImm] at himm ⊢
  simp only [stepC, stepC1, op_ciType, f3_ciType, rd_ciType, himm, hrd, ne_eq, not_false_eq_true,
    if_true]
  rw [show (((0 : BitVec 6).signExtend 12).signExtend 64 : U64) = 0 by decide,
    show m.cpu.get rd + (0 : U64) = m.cpu.x rd from BitVec.add_zero _, retire_self]
  rfl

theorem stepC_li_zero (imm : BitVec 6) : stepC m pc (CInstr.li 0 imm).encode = m.jump (pc + 2) := by
  simp only [CInstr.encode, ciImm, stepC, stepC1, op_ciType, f3_ciType, rd_ciType]
  rfl

theorem stepC_lui_zero (imm : BitVec 6) :
    stepC m pc (CInstr.lui 0 imm).encode = m.jump (pc + 2) := by
  simp only [CInstr.encode, ciImm, stepC, stepC1, op_ciType, f3_ciType, rd_ciType, if_true]
  rfl

theorem stepC_slli_zero (shamt : BitVec 6) :
    stepC m pc (CInstr.slli 0 shamt).encode = m.jump (pc + 2) := by
  simp only [CInstr.encode, ciImm, stepC, stepC2, op_ciType, f3_ciType, rd_ciType, ne_eq,
    not_true_eq_false, if_false]
  rfl

theorem stepC_slli_shamt_zero (rd : BitVec 5) (hrd : rd ≠ 0) :
    stepC m pc (CInstr.slli rd 0).encode = m.jump (pc + 2) := by
  have hk := toNat_cshamt (ci6_ciImm 0b000 rd 0 0b10)
  simp only [CInstr.encode, ciImm] at hk ⊢
  simp only [stepC, stepC2, op_ciType, f3_ciType, rd_ciType, hk, hrd, ne_eq, not_false_eq_true,
    if_true]
  rw [show wrappingShl (m.cpu.get rd) (0 : BitVec 6).toNat
    = m.cpu.x rd from BitVec.shiftLeft_zero _, retire_self]
  rfl

theorem stepC_mv_zero (rs2 : BitVec 5) (h : rs2 ≠ 0) :
    stepC m pc (CInstr.mv 0 rs2).encode = m.jump (pc + 2) := by
  simp only [CInstr.encode, stepC, stepC2, op_ciType, f3_ciType, rd_ciType, hi_ciType, rs2_ciType,
    h, if_false, if_true, ne_eq, not_true_eq_false]
  rfl

theorem stepC_add_zero (rs2 : BitVec 5) (h : rs2 ≠ 0) :
    stepC m pc (CInstr.add 0 rs2).encode = m.jump (pc + 2) := by
  have h1 : (1 : BitVec 1) ≠ 0 := by decide
  simp only [CInstr.encode, stepC, stepC2, op_ciType, f3_ciType, rd_ciType, hi_ciType, rs2_ciType,
    h, h1, if_false, ne_eq, not_true_eq_false]
  rfl

/-- A zero shift is a HINT, and traps. -/
theorem stepC_shift_zero (rd : BitVec 3) :
    stepC m pc (CInstr.srli rd 0).encode = m.bad pc (CInstr.srli rd 0).encode ∧
      stepC m pc (CInstr.srai rd 0).encode = m.bad pc (CInstr.srai rd 0).encode := by
  have hsrli := cshamt_eq_zero (ci6_cbImmType 0b00 rd 0)
  have hsrai := cshamt_eq_zero (ci6_cbImmType 0b01 rd 0)
  simp only [CInstr.encode, cbImmType] at hsrli hsrai ⊢
  simp only [stepC, stepC1, stepC1Arith, op_clType, f3_clType, (f2_clType _ _ _ _ _ _ _).1, hsrli,
    hsrai, if_true]
  exact ⟨rfl, rfl⟩

/-! ## Reserved and floating-point encodings -/

/-- Reserved, and executes. -/
theorem stepC_addiw_zero (imm : BitVec 6) :
    stepC m pc (CInstr.addiw 0 imm).encode = m.jump (pc + 2) := by
  simp only [CInstr.encode, ciImm, stepC, stepC1, op_ciType, f3_ciType, rd_ciType, if_true]
  rfl

theorem stepC_addi4spn_zero (rd : BitVec 3) :
    stepC m pc (CInstr.addi4spn rd 0).encode = m.bad pc (CInstr.addi4spn rd 0).encode := by
  have himm : ciwImm (CInstr.addi4spn rd 0).encode = 0 := by
    rw [ciwImm_eq, ciwOff_addi4spn]
    decide
  simp only [CInstr.encode] at himm ⊢
  simp only [stepC, stepC0, op_clType, f3_clType, himm, if_true]
  rfl

theorem stepC_addi16sp_zero :
    stepC m pc (CInstr.addi16sp 0).encode = m.bad pc (CInstr.addi16sp 0).encode := rfl

theorem stepC_lui_imm_zero (rd : BitVec 5) (hrd : rd ≠ 0) :
    stepC m pc (CInstr.lui rd 0).encode = m.bad pc (CInstr.lui rd 0).encode := by
  by_cases hsp : rd = 2
  · -- the same halfword as `c.addi16sp` by zero
    subst hsp
    rfl
  have himm : cluiImm (ciImm 0b011 rd 0 0b01) = 0 := by
    rw [cluiImm_eq, cluiOff_ciImm]
    decide
  simp only [CInstr.encode, ciImm] at himm ⊢
  simp only [stepC, stepC1, op_ciType, f3_ciType, rd_ciType, hrd, hsp, himm, if_false, if_true]
  rfl

theorem stepC_lwsp_zero (uimm : BitVec 6) :
    stepC m pc (CInstr.lwsp 0 uimm).encode = m.bad pc (CInstr.lwsp 0 uimm).encode := by
  simp only [CInstr.encode, stepC, stepC2, op_ciType, f3_ciType, rd_ciType, if_true]
  rfl

theorem stepC_ldsp_zero (uimm : BitVec 6) :
    stepC m pc (CInstr.ldsp 0 uimm).encode = m.bad pc (CInstr.ldsp 0 uimm).encode := by
  simp only [CInstr.encode, stepC, stepC2, op_ciType, f3_ciType, rd_ciType, if_true]
  rfl

theorem stepC_jr_zero : stepC m pc (CInstr.jr 0).encode = m.bad pc (CInstr.jr 0).encode := rfl

theorem stepC_arith_reserved (rd : BitVec 3) {mid : BitVec 2} (h : mid = 0b10 ∨ mid = 0b11)
    (rs2 : BitVec 3) :
    stepC m pc (clType 0b100 (1#1 ++ 0b11#2) rd mid rs2 0b01)
      = m.bad pc (clType 0b100 (1#1 ++ 0b11#2) rd mid rs2 0b01) := by
  simp only [stepC, stepC1, stepC1Arith, op_clType, f3_clType, f2_clType, mid_clType]
  rcases h with rfl | rfl <;> rfl

/-- Functs of quadrant 0 that no arm matches. -/
theorem stepC_quadrant0 {f3 : BitVec 3} (h : f3 = 0b100 ∨ f3 = 0b001 ∨ f3 = 0b101)
    (hi r1 : BitVec 3) (mid : BitVec 2) (r2 : BitVec 3) :
    stepC m pc (clType f3 hi r1 mid r2 0b00) = m.bad pc (clType f3 hi r1 mid r2 0b00) := by
  simp only [stepC, stepC0, op_clType, f3_clType]
  rcases h with rfl | rfl | rfl <;> rfl

theorem stepC_quadrant2 {f3 : BitVec 3} (h : f3 = 0b001 ∨ f3 = 0b101) (hi : BitVec 1)
    (r lo : BitVec 5) :
    stepC m pc (ciType f3 hi r lo 0b10) = m.bad pc (ciType f3 hi r lo 0b10) := by
  simp only [stepC, stepC2, op_ciType, f3_ciType]
  rcases h with rfl | rfl <;> rfl

end

/-! ## The rule -/

theorem stepC_hint (m : Machine) (pc : U64) {c : CInstr} (hc : c.Hint) (hrule : ¬Departs c.encode) :
    stepC m pc c.encode = m.jump (pc + 2) := by
  cases c with
  | addi rd imm =>
    rcases hc with ⟨rfl, -⟩ | ⟨hrd, rfl⟩
    · exact stepC_addi_zero m pc imm
    · exact stepC_addi_imm_zero m pc rd hrd
  | li rd imm =>
    obtain rfl : rd = 0 := hc
    exact stepC_li_zero m pc imm
  | lui rd imm =>
    obtain ⟨rfl, -⟩ := hc
    exact stepC_lui_zero m pc imm
  | slli rd shamt =>
    by_cases hrd : rd = 0
    · subst hrd
      exact stepC_slli_zero m pc shamt
    · obtain rfl : shamt = 0 := hc.resolve_left hrd
      exact stepC_slli_shamt_zero m pc rd hrd
  | srli rd shamt =>
    obtain rfl : shamt = 0 := hc
    exact absurd (.srli rd) hrule
  | srai rd shamt =>
    obtain rfl : shamt = 0 := hc
    exact absurd (.srai rd) hrule
  | mv rd rs2 =>
    obtain ⟨rfl, hrs2⟩ := hc
    exact stepC_mv_zero m pc rs2 hrs2
  | add rd rs2 =>
    obtain ⟨rfl, hrs2⟩ := hc
    exact stepC_add_zero m pc rs2 hrs2
  | _ => exact absurd hc id

theorem stepC_reserved_instr (m : Machine) (pc : U64) {c : CInstr} (hc : c.Reserved)
    (hrule : ¬Departs c.encode) : stepC m pc c.encode = m.bad pc c.encode := by
  cases c with
  | addi4spn rd uimm =>
    obtain rfl : uimm = 0 := hc
    exact stepC_addi4spn_zero m pc rd
  | addiw rd imm =>
    obtain rfl : rd = 0 := hc
    exact absurd (.addiw imm) hrule
  | addi16sp imm =>
    obtain rfl : imm = 0 := hc
    exact stepC_addi16sp_zero m pc
  | lui rd imm =>
    obtain rfl : imm = 0 := hc
    by_cases hrd : rd = 0
    · subst hrd
      exact absurd .lui hrule
    · exact stepC_lui_imm_zero m pc rd hrd
  | lwsp rd uimm =>
    obtain rfl : rd = 0 := hc
    exact stepC_lwsp_zero m pc uimm
  | ldsp rd uimm =>
    obtain rfl : rd = 0 := hc
    exact stepC_ldsp_zero m pc uimm
  | jr rs1 =>
    obtain rfl : rs1 = 0 := hc
    exact stepC_jr_zero m pc
  | _ => exact absurd hc id

theorem stepC_reserved (m : Machine) (pc : U64) {hw : U16} (h : Reserved hw ∨ FloatingPoint hw)
    (hrule : ¬Departs hw) : stepC m pc hw = m.bad pc hw := by
  rcases h with hres | hfloat
  · cases hres with
    | instr hc => exact stepC_reserved_instr m pc hc hrule
    | arith rd mid rs2 h => exact stepC_arith_reserved m pc rd h rs2
    | quadrant0 hi r1 mid r2 => exact stepC_quadrant0 m pc (Or.inl rfl) hi r1 mid r2
  · cases hfloat with
    | register f3 hi r1 mid r2 h => exact stepC_quadrant0 m pc (Or.inr h) hi r1 mid r2
    | stack f3 hi r lo h => exact stepC_quadrant2 m pc h hi r lo

/-- The other treatment, in every state: a HINT that traps or a reserved encoding that executes. -/
theorem Departs.treated {hw : U16} (h : Departs hw) (m : Machine) (pc : U64) :
    ((∃ c : CInstr, c.Hint ∧ c.encode = hw) ∧ stepC m pc hw = m.bad pc hw) ∨
      (Reserved hw ∧ stepC m pc hw = m.jump (pc + 2)) := by
  cases h with
  | srli rd => exact Or.inl ⟨⟨.srli rd 0, rfl, rfl⟩, (stepC_shift_zero m pc rd).1⟩
  | srai rd => exact Or.inl ⟨⟨.srai rd 0, rfl, rfl⟩, (stepC_shift_zero m pc rd).2⟩
  | addiw imm =>
    exact Or.inr ⟨.instr (show (CInstr.addiw 0 imm).Reserved from rfl), stepC_addiw_zero m pc imm⟩
  | lui => exact Or.inr ⟨.instr (show (CInstr.lui 0 0).Reserved from rfl), stepC_lui_zero m pc 0⟩

theorem bad_ne_jump (m : Machine) (pc next : U64) (hw : U16) : m.bad pc hw ≠ m.jump next := by
  intro h
  cases congrArg (Option.map Prod.snd) h

/-- **HINTs are no-ops, reserved and floating-point encodings trap**, in any given
machine state, exactly on the halfwords that are not of `Departs`: on a HINT `step_c`
moves the pc by two and changes nothing else; on a reserved or floating-point encoding
it returns an illegal-instruction trap and changes nothing. -/
theorem special_encodings_iff (m : Machine) (pc : U64) (hw : U16) :
    ((∀ c : CInstr, c.Hint → c.encode = hw →
        stepC m pc hw = some ({ m with cpu := { m.cpu with pc := pc + 2 } }, .ok false)) ∧
      (Reserved hw ∨ FloatingPoint hw →
        stepC m pc hw = some (m, .error (.illegalInstruction pc (hw.setWidth 32))))) ↔
    ¬Departs hw := by
  constructor
  · rintro ⟨hhint, hres⟩ hdeparts
    rcases hdeparts.treated m pc with ⟨⟨c, hc, henc⟩, hbad⟩ | ⟨hreserved, hjump⟩
    · exact bad_ne_jump m pc (pc + 2) hw (hbad.symm.trans (hhint c hc henc))
    · exact bad_ne_jump m pc (pc + 2) hw ((hres (Or.inl hreserved)).symm.trans hjump)
  · intro hrule
    refine ⟨?_, fun h => stepC_reserved m pc h hrule⟩
    rintro c hc rfl
    exact stepC_hint m pc hc hrule

/-- All of them have one of three function codes. -/
theorem Departs.funct3 {hw : U16} (h : Departs hw) :
    cfield hw 13 3 = 0b100#3 ∨ cfield hw 13 3 = 0b001#3 ∨ cfield hw 13 3 = 0b011#3 := by
  cases h with
  | srli rd => exact Or.inl (f3_clType ..)
  | srai rd => exact Or.inl (f3_clType ..)
  | addiw imm => exact Or.inr (Or.inl (f3_ciType ..))
  | lui => exact Or.inr (Or.inr (f3_ciType ..))

/-- `c.li x0, 0` is `0x4001`; the all-zero halfword is `c.addi4spn x8, 0`. -/
theorem special_encodings_iff_li :
    (stepC (.holding 0x4001 fun _ => 7) 0 0x4001).map (fun r => (r.1.cpu.pc, r.1.cpu.x 0))
        = some (2, 7) ∧
    stepC (.holding 0 fun _ => 7) 0 0
      = some (.holding 0 fun _ => 7, .error (.illegalInstruction 0 0)) := by
  have hli : ¬Departs 0x4001 := fun h => absurd h.funct3 (by decide)
  have hzero : ¬Departs 0 := fun h => absurd h.funct3 (by decide)
  constructor
  · rw [((special_encodings_iff _ 0 0x4001).mpr hli).1 (.li 0 0) rfl (by decide)]
    rfl
  · exact ((special_encodings_iff _ 0 0).mpr hzero).2
      (Or.inl (.instr (show (CInstr.addi4spn 0 0).Reserved from rfl)))

/-- One of each family: `c.srli x8, 0` and `c.srai x8, 0` are HINTs and trap,
`c.addiw x0, 0` and `c.lui x0, 0` are reserved and execute. -/
theorem special_departures :
    ((CInstr.srli 0 0).Hint ∧ (CInstr.srli 0 0).encode = 0x8001 ∧
      (stepC (.holding 0x8001 fun _ => 0) 0 0x8001).map (·.2)
        = some (.error (.illegalInstruction 0 0x8001))) ∧
    ((CInstr.srai 0 0).Hint ∧ (CInstr.srai 0 0).encode = 0x8401 ∧
      (stepC (.holding 0x8401 fun _ => 0) 0 0x8401).map (·.2)
        = some (.error (.illegalInstruction 0 0x8401))) ∧
    (Reserved 0x2001 ∧
      (stepC (.holding 0x2001 fun _ => 0) 0 0x2001).map (·.2) = some (.ok false)) ∧
    (Reserved 0x6001 ∧
      (stepC (.holding 0x6001 fun _ => 0) 0 0x6001).map (·.2) = some (.ok false)) := by
  refine ⟨⟨rfl, by decide, rfl⟩, ⟨rfl, by decide, rfl⟩, ⟨?_, rfl⟩, ?_, rfl⟩
  · exact .instr (show (CInstr.addiw 0 0).Reserved from rfl)
  · exact .instr (show (CInstr.lui 0 0).Reserved from rfl)

end Provework.Rvcore
