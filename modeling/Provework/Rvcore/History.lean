import Provework.Rvcore.Execution

/-!
# What the chain binds

Every link of the chain hashes the one before it, so a hash stands for everything up
to it: `chain_binds_history`. The two runs that are compared may be of different
programs, inputs and configurations; what they share is only the hasher, and only the
messages it sees in the two runs have to be told apart.
-/

namespace Provework.Rvcore

open Provework.Lib Provework.Isa

/-- **The chain binds the whole history.** If the messages of two state hashes
do not collide, equal hashes mean equal previous hashes and equal hashed states;
and if the messages of two runs, of any images, inputs and configurations, do
not collide, an equal entry at `i` means that all entries up to `i` are equal,
and so are the states hashed there. -/
theorem chain_binds_history (blake3 : List U8 → Hash) :
    (∀ (p p' : Hash) (m m' : Machine),
      Set.InjOn blake3 (hashedMessages blake3 p m ∪ hashedMessages blake3 p' m') →
      stateHash blake3 p m = stateHash blake3 p' m' → p = p' ∧ m.SameHashed m') ∧
    (∀ (cfg cfg' : Config) (mem mem' : Mem) (entry entry' : U64) (input input' : List U8)
      (out out' : RunOutcome),
      run blake3 cfg mem entry input = some out →
      run blake3 cfg' mem' entry' input' = some out' →
      Set.InjOn blake3 (chainMessages blake3 cfg (started mem entry input)
        ∪ chainMessages blake3 cfg' (started mem' entry' input')) →
      ∀ (i : Nat) (h : Hash), out.chunkHashes[i]? = some h → out'.chunkHashes[i]? = some h →
      ∀ j ≤ i, out.chunkHashes[j]? = out'.chunkHashes[j]? ∧
        ∃ s s', (chainStates cfg (started mem entry input))[j]? = some s ∧
          (chainStates cfg' (started mem' entry' input'))[j]? = some s' ∧ s.SameHashed s') := by
  refine ⟨fun p p' m m' hinj h => stateHash_binds hinj h, ?_⟩
  intro cfg cfg' mem mem' entry entry' input input' out out' hrun hrun' hinj i h hi hi'
  rw [(run_spec blake3 cfg mem entry input).1 out hrun] at hi ⊢
  rw [(run_spec blake3 cfg' mem' entry' input').1 out' hrun'] at hi' ⊢
  refine chain_binds (stateHash blake3) ?_ hi hi'
  -- only the messages of the links on the two chains have to be told apart
  intro a ha b hb hab
  refine stateHash_binds (hinj.mono ?_) hab
  exact Set.union_subset_union (fun msg hmsg => ⟨a, ha, hmsg⟩) (fun msg hmsg => ⟨b, hb, hmsg⟩)

/-! ### Two inputs, one history -/

theorem setByte_setByte (M : PageMap) (a : Nat) (v w : U8) :
    (M.setByte a v).setByte a w = M.setByte a w := by
  apply Std.ExtTreeMap.ext_getElem?
  intro p
  unfold PageMap.setByte
  rw [Mem.getElem?_insert_pages, Mem.getElem?_insert_pages, Mem.getElem?_insert_pages,
    Mem.getElem?_insert_pages, if_pos rfl, Option.getD_some, Function.update_idem]
  split <;> rfl

/-- `sb x0, 8(x5)`, where `x5` is the address of the input. -/
theorem store_wipes (s : Arch) (h : s.regs 5 = inputLenAddr) (next : U64) :
    s.instr (.store .sb 0 5 8) next
      = ({ s.goto next with pages := s.pages.setByte inputDataAddr.toNat 0 }, .ok false) := by
  have haddr : BitVec.ofInt 64 (inputLenAddr.toInt + (8 : BitVec 12).toInt) = inputDataAddr := by
    decide
  have hzero : s.regs 0 = 0 := rfl
  unfold Arch.instr Instr.effect
  simp only [h, haddr, hzero, Arch.apply]
  rw [if_pos (show inputDataAddr.toNat + StoreOp.sb.len ≤ 2 ^ 32 by decide)]
  rfl

section

variable (mem : Mem) (input : U8)

def wipeBase : Arch := ((Arch.start mem 0x1000 [input]).instr (.lui 5 0x10000) 0x1004).1

def wipeStored : Arch :=
  { (wipeBase mem input).goto 0x1008 with
    pages := (wipeBase mem input).pages.setByte inputDataAddr.toNat 0 }

def wipeValue : Arch := ((wipeStored mem input).instr (.opImm .addi 6 0 1) 0x100c).1

/-- What the store leaves does not depend on the byte it overwrites. -/
theorem wipeStored_eq (input' : U8) : wipeStored mem input = wipeStored mem input' := by
  have hcpu : ∀ v, (wipeBase mem v).cpu =
      { Cpu.new 0x1000 stackTop with
        x := writeReg (Cpu.new 0x1000 stackTop).x 5 inputLenAddr, pc := 0x1004 } :=
    fun _ => rfl
  have hlog : ∀ v, (wipeBase mem v).log = mem.syscallLog := fun _ => rfl
  have hpages : ∀ v, (wipeBase mem v).pages =
      (mem.pages.setBytes inputLenAddr.toNat (leBytes 8 1)).setByte inputDataAddr.toNat v :=
    fun _ => rfl
  unfold wipeStored Arch.goto
  rw [hcpu input, hcpu input', hlog input, hlog input', hpages input, hpages input',
    setByte_setByte, setByte_setByte]

end

/-- `lui x5, 0x10000; sb x0, 8(x5); addi x6, x0, 1; ebreak`: the input byte is erased. -/
def wipe : Mem :=
  image 0x1000 ([0x100002b7, 0x00028423, 0x00100313, 0x00100073].flatMap (leBytes 4))

theorem wipe_runs {input : U8} (h : input = 1 ∨ input = 2) (left : Nat) :
    Runs (Arch.Turns false) .instructionLimit (left + 4) (Arch.start wipe 0x1000 [input])
      [(wipeBase wipe input, false), (wipeStored wipe input, false), (wipeValue wipe input, false)]
      (wipeValue wipe input) .halted := by
  have hlui : (Arch.start wipe 0x1000 [input]).Holds (.word (Instr.lui 5 0x10000).encode) := by
    rcases h with rfl | rfl <;> exact .word (by decide) (by decide) (by decide) (by decide +kernel)
  have hsb : (wipeBase wipe input).Holds (.word (Instr.store .sb 0 5 8).encode) := by
    rcases h with rfl | rfl <;> exact .word (by decide) (by decide) (by decide) (by decide +kernel)
  have haddi : (wipeStored wipe input).Holds (.word (Instr.opImm .addi 6 0 1).encode) := by
    rcases h with rfl | rfl <;> exact .word (by decide) (by decide) (by decide) (by decide +kernel)
  have hebreak : (wipeValue wipe input).Holds (.word ebreakWord) := by
    rcases h with rfl | rfl <;> exact .word (by decide) (by decide) (by decide) (by decide +kernel)
  have hstore := store_wipes (wipeBase wipe input) rfl ((wipeBase wipe input).cpu.pc + 4)
  refine .next ⟨Arch.spared_of_word hlui (by decide) (by decide), _, .fetched hlui (.instr _),
    (fun h => by cases h), rfl⟩ ?_
  refine .next ⟨Arch.spared_of_word hsb (by decide) (by decide), _, .fetched hsb (.instr _), ?_,
    ?_⟩ ?_
  · rw [hstore]
    exact fun h => by cases h
  · rw [hstore]
    rfl
  refine .next ⟨Arch.spared_of_word haddi (by decide) (by decide), _, .fetched haddi (.instr _),
    (fun h => by cases h), rfl⟩ ?_
  exact .exit ⟨Arch.spared_of_word hebreak (by decide) (by decide), _, .fetched hebreak .ebreak,
    (fun h => by cases h), rfl⟩

def wipeConfig (budget : U64) : Config := { chunkSize := 2, maxInstructions := budget }

/-- In chunks of two, with whatever budget: the boundary after the store, and the exit. -/
theorem wipe_states (input : U8) (h : input = 1 ∨ input = 2) (budget : U64) (left : Nat)
    (hbudget : budget.toNat = left + 4) :
    ∃ out s t, run toyHash (wipeConfig budget) wipe 0x1000 [input] = some out ∧
      chainStates (wipeConfig budget) (started wipe 0x1000 [input]) = [s, t] ∧
      s.arch = wipeStored wipe 1 ∧ t.arch = wipeValue wipe 1 := by
  have hv : wipe.Valid := Mem.write_valid Mem.new_valid _ _
  have hrun := wipe_runs h left
  rw [← hbudget] at hrun
  obtain ⟨m, hexit, harch, hsound, hpath⟩ :=
    started_executes (wipeConfig budget) rfl hv 0x1000 [input]
    (show inputDataAddr.toNat + 1 ≤ addrSpace by decide) hrun
  have hsize : ¬(wipeValue wipe input).Oversized .halted := by
    rcases h with rfl | rfl <;> decide +kernel
  have hstates : (chainStates (wipeConfig budget) (started wipe 0x1000 [input])).map
      Machine.arch = [wipeStored wipe input, wipeValue wipe input] := by
    have hc : (wipeConfig budget).chunkSize.toNat = 2 := rfl
    rw [chainStates_arch (by rw [hc]; decide) hexit hsound.valid hpath (noSilentNth_of_all rfl), hc,
      harch, if_neg hsize]
    simp [everyNth]
  have hstored := wipeStored_eq wipe input 1
  have hvalue : wipeValue wipe input = wipeValue wipe 1 := by
    unfold wipeValue
    rw [hstored]
  obtain ⟨s, t, hst⟩ :=
    List.length_eq_two.mp ((List.length_map _).symm.trans (congrArg List.length hstates))
  rw [hst] at hstates
  simp only [List.map_cons, List.map_nil] at hstates
  have hret := (run_spec toyHash (wipeConfig budget) wipe 0x1000 [input]).2.mpr
    ⟨show inputDataAddr.toNat + 1 ≤ addrSpace by decide, by rw [hexit]; rfl⟩
  obtain ⟨out, hout⟩ := Option.isSome_iff_exists.mp hret
  refine ⟨out, s, t, hout, hst, ?_, ?_⟩
  · exact (List.head_eq_of_cons_eq hstates).trans hstored
  · exact (List.head_eq_of_cons_eq (List.tail_eq_of_cons_eq hstates)).trans hvalue

/-- The two runs hash three messages, that of the memory and those of the two links,
and the toy hasher tells them apart. -/
theorem wipe_injOn {s t s' t' : Machine}
    (hst : chainStates (wipeConfig 10) (started wipe 0x1000 [1]) = [s, t])
    (hst' : chainStates (wipeConfig 20) (started wipe 0x1000 [2]) = [s', t'])
    (hs : s.arch = wipeStored wipe 1) (ht : t.arch = wipeValue wipe 1)
    (hs' : s'.arch = wipeStored wipe 1) (ht' : t'.arch = wipeValue wipe 1) :
    Set.InjOn toyHash (chainMessages toyHash (wipeConfig 10) (started wipe 0x1000 [1]) ∪
      chainMessages toyHash (wipeConfig 20) (started wipe 0x1000 [2])) := by
  have hmsgs := chainMessages_pair toyHash hst
  have hmsgs' := chainMessages_pair toyHash hst'
  rw [stateHash_toyHash] at hmsgs hmsgs'
  rw [(sameHashed_of_arch (hs'.trans hs.symm)).hashedMessages_eq,
    (sameHashed_of_arch (ht'.trans ht.symm)).hashedMessages_eq] at hmsgs'
  have hroot : t.mem.rootMessage = s.mem.rootMessage := by
    rw [Mem.rootMessage_eq, Mem.rootMessage_eq, show t.mem.pages = _ from congrArg Arch.pages ht,
      show s.mem.pages = _ from congrArg Arch.pages hs]
    rfl
  have hmemory : toyHash s.mem.rootMessage = fun _ => 9 := by
    have hfacts : (chainStates (wipeConfig 10) (started wipe 0x1000 [1])).map
        (fun m => (m.mem.allocatedPages, m.mem.rootMessage.headD 0)) = [(2, 1), (2, 1)] := by
          decide +kernel
    rw [hst] at hfacts
    obtain ⟨hpages, hhead⟩ := Prod.mk.inj (List.head_eq_of_cons_eq hfacts)
    funext _
    rw [toyHash, length_rootMessage, hpages, hhead]
    rfl
  have hnodup : ([s.mem.rootMessage, stateMessage toyHash genesis s,
      stateMessage toyHash (fun _ => 104) t].map toyHash).Nodup := by
    simp only [List.map_cons, List.map_nil, hmemory]
    rw [show toyHash (stateMessage toyHash genesis s) = _ from stateHash_toyHash genesis s,
      show toyHash (stateMessage toyHash (fun _ => 104) t) = _ from stateHash_toyHash _ t]
    decide
  have hmem : ∀ msg ∈ chainMessages toyHash (wipeConfig 10) (started wipe 0x1000 [1]) ∪
      chainMessages toyHash (wipeConfig 20) (started wipe 0x1000 [2]),
      msg ∈ [s.mem.rootMessage, stateMessage toyHash genesis s,
        stateMessage toyHash (fun _ => 104) t] := by
    intro msg hmsg
    rcases hmsg.elim (hmsgs ·) (hmsgs' ·) with (rfl | rfl) | (rfl | rfl)
    · exact List.mem_cons_self
    · simp
    · rw [hroot]
      exact List.mem_cons_self
    · exact List.mem_of_mem_tail (List.mem_of_mem_tail List.mem_cons_self)
  intro x hx y hy hxy
  exact List.inj_on_of_nodup_map hnodup (hmem x hx) (hmem y hy) hxy

/-- The program on the input `1` with a budget of 10, and on the input `2` with one of 20:
the exit hashes are equal, so the states at the boundary before it are. -/
theorem chain_binds_history_wipe :
    ∃ out out' h s s', run toyHash (wipeConfig 10) wipe 0x1000 [1] = some out ∧
      run toyHash (wipeConfig 20) wipe 0x1000 [2] = some out' ∧
      out.chunkHashes[1]? = some h ∧ out'.chunkHashes[1]? = some h ∧
      (chainStates (wipeConfig 10) (started wipe 0x1000 [1]))[0]? = some s ∧
      (chainStates (wipeConfig 20) (started wipe 0x1000 [2]))[0]? = some s' ∧
      s.SameHashed s' := by
  obtain ⟨out, s, t, hrun, hst, hs, ht⟩ := wipe_states 1 (Or.inl rfl) 10 6 rfl
  obtain ⟨out', s', t', hrun', hst', hs', ht'⟩ := wipe_states 2 (Or.inr rfl) 20 16 rfl
  have hexit : ∀ {cfg : Config} {input : U8} {out : RunOutcome} {s t : Machine},
      run toyHash cfg wipe 0x1000 [input] = some out →
      chainStates cfg (started wipe 0x1000 [input]) = [s, t] →
      out.chunkHashes[1]? = some fun _ => 208 := by
    intro cfg input out s t hrun hst
    rw [(run_spec toyHash cfg wipe 0x1000 [input]).1 out hrun, hst, chainFrom, chainFrom,
      stateHash_toyHash, stateHash_toyHash]
    rfl
  obtain ⟨-, u, u', hu, hu', hsame⟩ :=
    (chain_binds_history toyHash).2 (wipeConfig 10) (wipeConfig 20)
    wipe wipe 0x1000 0x1000 [1] [2] out out' hrun hrun' (wipe_injOn hst hst' hs ht hs' ht') 1 _
    (hexit hrun hst) (hexit hrun' hst') 0 (Nat.zero_le 1)
  exact ⟨out, out', _, u, u', hrun, hrun', hexit hrun hst, hexit hrun' hst', hu, hu', hsame⟩

end Provework.Rvcore
