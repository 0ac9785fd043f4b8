import Provework.Lib.Loop
import Provework.Rvcore.Chain

/-!
# The loop of `run`, iteration by iteration

`runLoop` counts the budget down. Here the loop is taken as the source has it:
`loopBody` is what follows the budget test and `iteration` the body with the
test in front, so that "the loop ends" is a statement about iterations
(`iterate_iteration`) and not a feature of how the model recurses.

Three things follow from what one iteration does. The chunk size and the
snapshot directory touch the chain and the files and nothing else
(`run_computed`). A larger budget repeats the smaller run and then goes on
(`run_budget_truncates`). And each iteration that goes round again has counted
one instruction, which bounds the iterations, the count and the chain
(`run_bounded`).
-/

namespace Provework.Rvcore

open Provework.Lib

/-! ## One iteration -/

/-- How the loop ends: `none` is a host panic. -/
abbrev LoopEnd := Option (RunState × ExitStatus)

section

variable (blake3 : List U8 → Hash) (cfg : Config)

/-- The body of the loop after the budget test. -/
def loopBody (s : RunState) : Iter RunState LoopEnd :=
  match stepMode s.m cfg.syscalls cfg.tohostAddr with
  | none => .stop none
  | some (m, stepRes) =>
    let atBoundary := !isContinue stepRes || s.inChunk + 1 = cfg.chunkSize.toNat
    let snap := if cfg.snapshotDir ∧ atBoundary then some (capture m) else none
    let s := { s with m }
    if cfg.tohostAddr.isSome ∧ m.cpu.tohost.isSome then
      .stop (some (s.pushHash blake3, .tohost (m.cpu.tohost.getD 0)))
    else
      match stepRes with
      | .ok true =>
        .stop (some (({ s with n := s.n + 1 }.writeSnapshot snap).pushHash blake3, .halted))
      | .ok false =>
        let s := { s with n := s.n + 1, inChunk := s.inChunk + 1 }
        if s.inChunk = cfg.chunkSize.toNat then
          .again { (s.writeSnapshot snap).pushHash blake3 with inChunk := 0 }
        else .again s
      | .error t =>
        if m.cpu.mtvec ≠ 0 then
          .again { s with m := routeTrap m t, n := s.n + 1, inChunk := s.inChunk + 1 }
        else .stop (some ((s.writeSnapshot snap).pushHash blake3, .trapped t))

/-- One iteration, `n >= max_instructions` first. -/
def iteration (s : RunState) : Iter RunState LoopEnd :=
  if s.n ≥ cfg.maxInstructions.toNat then .stop (some (s.pushHash blake3, .instructionLimit))
  else loopBody blake3 cfg s

end

section

variable {blake3 : List U8 → Hash} {cfg : Config}

variable (blake3 cfg) in
/-- The model's loop, through the body. -/
theorem runLoop_succ (left : Nat) (s : RunState) :
    (loopBody blake3 cfg s).Holds
      (fun s' => runLoop blake3 cfg (left + 1) s = runLoop blake3 cfg left s')
      (fun r => runLoop blake3 cfg (left + 1) s = r) := by
  unfold loopBody
  rw [runLoop]
  rcases stepMode s.m cfg.syscalls cfg.tohostAddr with _ | ⟨m, res⟩
  · exact rfl
  by_cases hto : cfg.tohostAddr.isSome ∧ m.cpu.tohost.isSome
  · simp only [if_pos hto]
    exact rfl
  simp only [if_neg hto]
  rcases res with t | _ | _
  · by_cases htv : m.cpu.mtvec ≠ 0
    · simp only [if_pos htv]
      exact rfl
    · simp only [if_neg htv]
      exact rfl
  · by_cases hb : s.inChunk + 1 = cfg.chunkSize.toNat
    · simp only [if_pos hb]
      exact rfl
    · simp only [if_neg hb]
      exact rfl
  · exact rfl

/-- What an iteration does that goes round again: one more instruction, and a
hash only where the counter meets the chunk size `c`. -/
structure RunState.Advances (c : Nat) (s s' : RunState) : Prop where
  n : s'.n = s.n + 1
  chain : (s'.chain = s.chain ∧ s'.inChunk = s.inChunk + 1) ∨
    ∃ h, s'.chain = s.chain ++ [h] ∧ s.inChunk + 1 = c ∧ s'.inChunk = 0

/-- What one does that ends the run: the exit hash, and the halting instruction
is counted. -/
structure RunState.Ends (s s' : RunState) (status : ExitStatus) : Prop where
  ended : status ≠ .instructionLimit
  n : s'.n = s.n + if status = .halted then 1 else 0
  chain : ∃ h, s'.chain = s.chain ++ [h]

variable (blake3 cfg) in
theorem loopBody_spec (s : RunState) :
    (loopBody blake3 cfg s).Holds (s.Advances cfg.chunkSize.toNat)
      (fun r => ∀ s' status, r = some (s', status) → s.Ends s' status) := by
  have hends : ∀ {s' : RunState} {status : ExitStatus}, s.Ends s' status →
      ∀ t st, some (s', status) = some (t, st) → s.Ends t st := by
    rintro s' status h t st ⟨⟩
    exact h
  unfold loopBody
  rcases stepMode s.m cfg.syscalls cfg.tohostAddr with _ | ⟨m, res⟩
  · intro t st h
    cases h
  by_cases hto : cfg.tohostAddr.isSome ∧ m.cpu.tohost.isSome
  · simp only [if_pos hto]
    exact hends ⟨ExitStatus.noConfusion, rfl, _, rfl⟩
  simp only [if_neg hto]
  rcases res with t | _ | _
  · by_cases htv : m.cpu.mtvec ≠ 0
    · simp only [if_pos htv]
      exact ⟨rfl, Or.inl ⟨rfl, rfl⟩⟩
    · simp only [if_neg htv]
      exact hends ⟨ExitStatus.noConfusion, by simp, stateHash blake3 s.prev m, by simp⟩
  · by_cases hb : s.inChunk + 1 = cfg.chunkSize.toNat
    · simp only [if_pos hb]
      refine ⟨?_, Or.inr ⟨stateHash blake3 s.prev m, by simp, hb, rfl⟩⟩
      rw [pushHash_n, writeSnapshot_n]
    · simp only [if_neg hb]
      exact ⟨rfl, Or.inl ⟨rfl, rfl⟩⟩
  · refine hends ⟨ExitStatus.noConfusion, ?_, stateHash blake3 s.prev m, by simp⟩
    rw [pushHash_n, writeSnapshot_n, if_pos rfl]

variable (blake3 cfg) in
/-- The model's loop is the body, iterated as long as the budget lasts. -/
theorem runLoop_iterate : ∀ (left : Nat) (s : RunState),
    (iterate (loopBody blake3 cfg) left s).Holds
      (fun s' => runLoop blake3 cfg left s = some (s'.pushHash blake3, .instructionLimit))
      (fun r => runLoop blake3 cfg left s = r) := by
  intro left
  induction left with
  | zero =>
    intro s
    exact rfl
  | succ left ih =>
    intro s
    have hstep := runLoop_succ blake3 cfg left s
    cases hb : loopBody blake3 cfg s with
    | stop r =>
      rw [hb] at hstep
      rw [iterate_succ_stop hb]
      exact hstep
    | again t =>
      rw [hb] at hstep
      rw [iterate_succ_again hb, show runLoop blake3 cfg (left + 1) s = _ from hstep]
      exact ih t

/-- And it is the source's loop, which tests the budget before the body. -/
theorem iterate_iteration : ∀ (left : Nat) {s : RunState}, s.n + left = cfg.maxInstructions.toNat →
    iterate (iteration blake3 cfg) (left + 1) s = .stop (runLoop blake3 cfg left s) := by
  intro left
  induction left with
  | zero =>
    intro s hn
    refine iterate_succ_stop ?_
    rw [iteration, if_pos (show s.n ≥ cfg.maxInstructions.toNat by omega)]
    rfl
  | succ left ih =>
    intro s hn
    have hbody : iteration blake3 cfg s = loopBody blake3 cfg s := by
      rw [iteration, if_neg (show ¬s.n ≥ cfg.maxInstructions.toNat by omega)]
    have hstep := runLoop_succ blake3 cfg left s
    have hspec := loopBody_spec blake3 cfg s
    cases hb : loopBody blake3 cfg s with
    | stop r =>
      rw [hb] at hstep hbody
      rw [iterate_succ_stop hbody, show runLoop blake3 cfg (left + 1) s = _ from hstep]
    | again t =>
      rw [hb] at hstep hspec hbody
      have hcount := hspec.n
      rw [iterate_succ_again hbody, show runLoop blake3 cfg (left + 1) s = _ from hstep]
      exact ih (by omega)

end

/-! ## After the loop -/

/-- How a run ends is how its turns end, an oversized output apart. -/
theorem run_status (blake3 : List U8 → Hash) (cfg : Config) (mem : Mem) (entry : U64)
    (input : List U8) :
    (run blake3 cfg mem entry input).map (·.status) =
      if inputDataAddr.toNat + input.length ≤ addrSpace then
        (runExit cfg (started mem entry input)).map
          fun r => if Oversized r.1 r.2 then .trapped .outputTooLarge else r.2
      else none := by
  rw [run_eq]
  by_cases hfit : inputDataAddr.toNat + input.length ≤ addrSpace
  · simp only [if_pos hfit, Option.map_map]
    have hspec := runLoop_spec blake3 cfg cfg.maxInstructions.toNat (loopStart mem entry input)
    rw [show (loopStart mem entry input).m = started mem entry input from rfl] at hspec
    unfold runExit
    generalize exitOf (turn cfg) .instructionLimit cfg.maxInstructions.toNat
      (started mem entry input) = r at hspec
    rcases r with _ | ⟨m, status⟩
    · rw [show runLoop blake3 cfg _ _ = none from hspec]
      rfl
    · obtain ⟨s, hloop, rfl, -⟩ := hspec
      rw [hloop]
      exact congrArg some (collect_status s status)
  · simp only [if_neg hfit, Option.map_none]

/-- What a run returns and leaves, apart from its chain and its snapshots. -/
structure Computed where
  status : ExitStatus
  instructions : Nat
  output : Option (List U8)
  syscallLog : List U8
  mem : Mem

def RunOutcome.computed (out : RunOutcome) : Computed :=
  ⟨out.status, out.instructions, out.output, out.syscallLog, out.mem⟩

/-- What is collected: the count of the loop, its chain less the exit hash at
most, and an output the ABI allows. -/
structure Collected (s : RunState) (status : ExitStatus) (out : RunOutcome) : Prop where
  limit : out.status = .instructionLimit ↔ status = .instructionLimit
  instructions : out.instructions = s.n
  chain : out.chunkHashes = s.chain ∨ status = .halted ∧ out.chunkHashes = s.chain.dropLast
  output : ∀ bytes, out.output = some bytes → bytes.length ≤ outputMax.toNat

/-- A region that could be read, as an option. -/
theorem readRegion_toOption {mem : Mem} {addr : U64} {len : Nat} {bytes : List U8}
    (h : (mem.readRegion addr len).toOption = some bytes) :
    mem.readRegion addr len = .ok bytes := by
  cases hr : mem.readRegion addr len with
  | error e =>
    rw [hr] at h
    cases h
  | ok b =>
    rw [hr] at h
    exact congrArg Except.ok (Option.some.inj h)

theorem collect_output {s : RunState} {status : ExitStatus} {bytes : List U8}
    (h : (collect s status).output = some bytes) : bytes.length ≤ outputMax.toNat := by
  unfold collect at h
  by_cases hhalt : status = .halted
  · simp only [if_pos hhalt] at h
    generalize outputLen s.m.mem = r at h
    obtain ⟨len, mem⟩ := r
    by_cases hbig : len > outputMax
    · simp only [if_pos hbig, reduceCtorEq] at h
    · simp only [if_neg hbig] at h
      rw [Mem.length_readRegion (readRegion_toOption h)]
      exact BitVec.not_lt.mp hbig
  · simp only [if_neg hhalt, reduceCtorEq] at h

theorem collect_collected (s : RunState) (status : ExitStatus) :
    Collected s status (collect s status) := by
  refine ⟨?_, rfl, ?_, fun _ => collect_output⟩
  · rw [collect_status]
    split
    next hbig => simp only [hbig.1, reduceCtorEq]
    next => exact Iff.rfl
  · rw [collect_hashes]
    split
    next hbig => exact Or.inr ⟨hbig.1, rfl⟩
    next => exact Or.inl rfl

/-! ## Chunking and snapshotting do not compute -/

/-- Equal but for the chain and the files. -/
structure RunState.Alike (s t : RunState) : Prop where
  m : s.m = t.m
  n : s.n = t.n

/-- The machine, the count and the status a loop ends with. -/
def LoopEnd.exit (r : LoopEnd) : Option (Machine × Nat × ExitStatus) :=
  r.map fun r => (r.1.m, r.1.n, r.2)

section

variable {blake3 : List U8 → Hash} {cfg cfg' : Config}

variable (blake3) in
theorem loopBody_alike (hsys : cfg.syscalls = cfg'.syscalls)
    (hdev : cfg.tohostAddr = cfg'.tohostAddr) {s t : RunState} (h : s.Alike t) :
    Iter.Related RunState.Alike (fun r r' : LoopEnd => r.exit = r'.exit)
      (loopBody blake3 cfg s) (loopBody blake3 cfg' t) := by
  unfold loopBody
  rw [h.m, hsys, hdev]
  rcases stepMode t.m cfg'.syscalls cfg'.tohostAddr with _ | ⟨m, res⟩
  · exact .stop rfl
  by_cases hto : cfg'.tohostAddr.isSome ∧ m.cpu.tohost.isSome
  · simp only [if_pos hto]
    exact .stop (by simp [LoopEnd.exit, h.n])
  simp only [if_neg hto]
  rcases res with t' | _ | _
  · by_cases htv : m.cpu.mtvec ≠ 0
    · simp only [if_pos htv]
      exact .again ⟨rfl, by simp [h.n]⟩
    · simp only [if_neg htv]
      exact .stop (by simp [LoopEnd.exit, h.n])
  · -- each side may be at a boundary of its own: a hash is pushed, or not
    by_cases hb : s.inChunk + 1 = cfg.chunkSize.toNat <;>
      by_cases hb' : t.inChunk + 1 = cfg'.chunkSize.toNat <;>
      simp only [hb, hb', if_true, if_false] <;>
      exact .again ⟨by simp, by simp [h.n]⟩
  · exact .stop (by simp [LoopEnd.exit, h.n])

variable (blake3 cfg cfg') in
/-- Loops of two configurations that agree on what a step sees, and on the budget. -/
theorem runLoop_alike (hsys : cfg.syscalls = cfg'.syscalls)
    (hdev : cfg.tohostAddr = cfg'.tohostAddr) (left : Nat) {s t : RunState} (h : s.Alike t) :
    LoopEnd.exit (runLoop blake3 cfg left s) = LoopEnd.exit (runLoop blake3 cfg' left t) := by
  have hrel := iterate_related (fun _ _ => loopBody_alike blake3 hsys hdev) left h
  have hs := runLoop_iterate blake3 cfg left s
  have ht := runLoop_iterate blake3 cfg' left t
  generalize iterate (loopBody blake3 cfg) left s = r at hrel hs
  generalize iterate (loopBody blake3 cfg') left t = r' at hrel ht
  cases hrel with
  | again h' =>
    rw [show runLoop blake3 cfg left s = _ from hs, show runLoop blake3 cfg' left t = _ from ht]
    simp [LoopEnd.exit, h'.m, h'.n]
  | stop h' =>
    rw [show runLoop blake3 cfg left s = _ from hs, show runLoop blake3 cfg' left t = _ from ht]
    exact h'

end

/-- What is collected from the machine and the count, with any chain. -/
theorem collect_computed {s t : RunState} (h : s.Alike t) (status : ExitStatus) :
    (collect s status).computed = (collect t status).computed := by
  obtain ⟨m, prev, chain, n, inChunk, snapshots⟩ := s
  obtain ⟨m', prev', chain', n', inChunk', snapshots'⟩ := t
  obtain ⟨rfl, rfl⟩ := h
  unfold collect RunOutcome.computed
  by_cases hhalt : status = .halted
  · simp only [if_pos hhalt]
    by_cases hbig : (outputLen m.mem).1 > outputMax
    · simp only [if_pos hbig]
    · simp only [if_neg hbig]
  · simp only [if_neg hhalt]

/-- **Chunking and snapshotting do not compute.** Whatever the chunk size and the
snapshot directory, a run panics or returns the same status, count, output and
syscall log, and leaves the same memory. -/
theorem run_computed (blake3 : List U8 → Hash) (cfg : Config) (chunkSize : U64) (snapshotDir : Bool)
    (mem : Mem) (entry : U64) (input : List U8) :
    (run blake3 { cfg with chunkSize, snapshotDir } mem entry input).map RunOutcome.computed
      = (run blake3 cfg mem entry input).map RunOutcome.computed := by
  rw [run_eq, run_eq]
  by_cases hfit : inputDataAddr.toNat + input.length ≤ addrSpace
  · simp only [if_pos hfit]
    have hexit := runLoop_alike blake3 { cfg with chunkSize, snapshotDir } cfg rfl rfl
      cfg.maxInstructions.toNat (⟨rfl, rfl⟩ :
        (loopStart mem entry input).Alike (loopStart mem entry input))
    generalize runLoop blake3 { cfg with chunkSize, snapshotDir } cfg.maxInstructions.toNat
      (loopStart mem entry input) = r at hexit
    generalize runLoop blake3 cfg cfg.maxInstructions.toNat (loopStart mem entry input)
      = r' at hexit
    cases r with
    | none =>
      cases r' with
      | none => rfl
      | some b => cases hexit
    | some a =>
      cases r' with
      | none => cases hexit
      | some b =>
        obtain ⟨hm, hn, hst⟩ : a.1.m = b.1.m ∧ a.1.n = b.1.n ∧ a.2 = b.2 := by
          simpa [LoopEnd.exit] using hexit
        simp only [Option.map_some, hst, collect_computed ⟨hm, hn⟩ b.2]
  · simp only [if_neg hfit]

/-! ## The budget only truncates -/

section

variable {blake3 : List U8 → Hash} {cfg : Config}

/-- Later in the same loop: more instructions, and more hashes after the same ones. -/
structure RunState.After (s t : RunState) : Prop where
  n : s.n ≤ t.n
  chain : s.chain <+: t.chain

/-- The loop ended in `t`, after `s`: one hash was pushed last. -/
def RunState.EndsAfter (s t : RunState) : Prop := s.n ≤ t.n ∧ s.chain <+: t.chain.dropLast

theorem RunState.After.ends {s t u : RunState} (h : s.After t) (hn : t.n ≤ u.n)
    (hchain : ∃ x, u.chain = t.chain ++ [x]) : s.EndsAfter u := by
  obtain ⟨x, hx⟩ := hchain
  refine ⟨Nat.le_trans h.n hn, ?_⟩
  rw [hx, List.dropLast_concat]
  exact h.chain

/-- Whatever is left of the budget, the loop ends after the state it is in; and
unless it ends with the limit, no budget beyond that matters. -/
theorem runLoop_after (left : Nat) {s t : RunState} {status : ExitStatus}
    (h : runLoop blake3 cfg left s = some (t, status)) :
    s.EndsAfter t ∧
      (status ≠ .instructionLimit →
        iterate (loopBody blake3 cfg) left s = .stop (some (t, status))) ∧
      (status = .instructionLimit → ∃ u, iterate (loopBody blake3 cfg) left s = .again u ∧
        t = u.pushHash blake3) := by
  have hbody : ∀ u, s.After u → (loopBody blake3 cfg u).Holds s.After
      (fun r => ∀ t status, r = some (t, status) → s.EndsAfter t ∧ status ≠ .instructionLimit) := by
    intro u hu
    have hspec := loopBody_spec blake3 cfg u
    cases hb : loopBody blake3 cfg u with
    | again v =>
      rw [hb] at hspec
      have hcount := hspec.n
      refine ⟨Nat.le_trans hu.n (by omega), hu.chain.trans ?_⟩
      rcases hspec.chain with ⟨hc, -⟩ | ⟨x, hc, -⟩
      · rw [hc]
      · rw [hc]
        exact List.prefix_append _ _
    | stop r =>
      rw [hb] at hspec
      intro t status hr
      have hend := hspec t status hr
      have hcount := hend.n
      exact ⟨hu.ends (by omega) hend.chain, hend.ended⟩
  have hrun := runLoop_iterate blake3 cfg left s
  have hholds := iterate_holds hbody left (⟨Nat.le_refl _, List.prefix_rfl⟩ : s.After s)
  cases hit : iterate (loopBody blake3 cfg) left s with
  | again u =>
    rw [hit] at hrun hholds
    obtain ⟨rfl, rfl⟩ := Prod.mk.inj (Option.some.inj (hrun.symm.trans h))
    refine ⟨hholds.ends (Nat.le_refl _) ⟨_, pushHash_chain u⟩, fun hne => absurd rfl hne,
      fun _ => ?_⟩
    exact ⟨u, rfl, rfl⟩
  | stop r =>
    rw [hit] at hrun hholds
    have hr : r = some (t, status) := hrun.symm.trans h
    obtain ⟨hend, hne⟩ := hholds t status hr
    exact ⟨hend, fun _ => by rw [hr], fun heq => absurd heq hne⟩

/-- The body does not read the budget. -/
theorem loopBody_budget (larger : U64) :
    loopBody blake3 { cfg with maxInstructions := larger } = loopBody blake3 cfg := rfl

variable (blake3 cfg) in
/-- A loop that has gone round `k` times goes on with the rest of its budget. -/
theorem runLoop_add {k : Nat} (l : Nat) {s u : RunState}
    (h : iterate (loopBody blake3 cfg) k s = .again u) :
    runLoop blake3 cfg (k + l) s = runLoop blake3 cfg l u := by
  have hs := runLoop_iterate blake3 cfg (k + l) s
  have hu := runLoop_iterate blake3 cfg l u
  rw [iterate_add l h] at hs
  cases hit : iterate (loopBody blake3 cfg) l u with
  | again v =>
    rw [hit] at hs hu
    exact hs.trans hu.symm
  | stop r =>
    rw [hit] at hs hu
    exact hs.trans hu.symm

/-- Each time round is one instruction. -/
theorem iterate_count : ∀ (k : Nat) {s u : RunState},
    iterate (loopBody blake3 cfg) k s = .again u → u.n = s.n + k := by
  intro k
  induction k with
  | zero =>
    intro s u h
    cases h
    rfl
  | succ k ih =>
    intro s u h
    have hspec := loopBody_spec blake3 cfg s
    cases hb : loopBody blake3 cfg s with
    | stop r =>
      rw [iterate_succ_stop hb] at h
      cases h
    | again v =>
      rw [iterate_succ_again hb] at h
      rw [hb] at hspec
      have hcount := hspec.n
      have hrest := ih h
      omega

/-- As long as the budget lasts, its test changes nothing. -/
theorem iterate_within : ∀ (k : Nat) {s : RunState}, s.n + k ≤ cfg.maxInstructions.toNat →
    iterate (iteration blake3 cfg) k s = iterate (loopBody blake3 cfg) k s := by
  intro k
  induction k with
  | zero =>
    intro s _
    rfl
  | succ k ih =>
    intro s hn
    have hspec := loopBody_spec blake3 cfg s
    have hbody : iteration blake3 cfg s = loopBody blake3 cfg s := by
      rw [iteration, if_neg (show ¬s.n ≥ cfg.maxInstructions.toNat by omega)]
    cases hb : loopBody blake3 cfg s with
    | stop r => rw [iterate_succ_stop (hbody.trans hb), iterate_succ_stop hb]
    | again v =>
      rw [hb] at hspec
      have hcount := hspec.n
      rw [iterate_succ_again (hbody.trans hb), iterate_succ_again hb]
      exact ih (by omega)

end

/-- **The budget only truncates.** Take a run that returns, and a larger budget. If
the run ended in anything but the limit, the larger budget returns the same
outcome. If it ended in the limit, the loop of the larger run is still going after
as many instructions, and if that run returns, it has executed at least as many
and its chain starts with the chain of the smaller run less the last entry. -/
theorem run_budget_truncates (blake3 : List U8 → Hash) (cfg : Config) (larger : U64)
    (hle : cfg.maxInstructions ≤ larger) (mem : Mem) (entry : U64) (input : List U8)
    (out : RunOutcome) (hrun : run blake3 cfg mem entry input = some out) :
    (out.status ≠ .instructionLimit →
      run blake3 { cfg with maxInstructions := larger } mem entry input = some out) ∧
    (out.status = .instructionLimit →
      (∃ s, iterate (iteration blake3 { cfg with maxInstructions := larger })
          cfg.maxInstructions.toNat (loopStart mem entry input) = .again s ∧
        s.n = cfg.maxInstructions.toNat) ∧
      ∀ out', run blake3 { cfg with maxInstructions := larger } mem entry input = some out' →
        out.chunkHashes.dropLast <+: out'.chunkHashes ∧
          cfg.maxInstructions.toNat ≤ out'.instructions) := by
  have hle : cfg.maxInstructions.toNat ≤ larger.toNat := hle
  rw [run_eq] at hrun ⊢
  by_cases hfit : inputDataAddr.toNat + input.length ≤ addrSpace
  · simp only [if_pos hfit] at hrun ⊢
    obtain ⟨⟨t, status⟩, hloop, rfl⟩ := Option.map_eq_some_iff.mp hrun
    obtain ⟨-, hstop, hlimit⟩ := runLoop_after _ hloop
    have hcol := collect_collected t status
    have hlarger := runLoop_iterate blake3 { cfg with maxInstructions := larger }
      larger.toNat (loopStart mem entry input)
    rw [loopBody_budget] at hlarger
    constructor
    · intro hne
      have hst : status ≠ .instructionLimit := fun h => hne (hcol.limit.mpr h)
      rw [iterate_of_le (hstop hst) hle] at hlarger
      rw [show runLoop blake3 _ larger.toNat _ = _ from hlarger]
      rfl
    · intro heq
      have hst := hcol.limit.mp heq
      obtain ⟨u, hu, rfl⟩ := hlimit hst
      have hn : u.n = cfg.maxInstructions.toNat := by
        rw [iterate_count _ hu]
        exact Nat.zero_add _
      refine ⟨⟨u, ?_, hn⟩, ?_⟩
      · rw [iterate_within, loopBody_budget]
        · exact hu
        · show 0 + cfg.maxInstructions.toNat ≤ larger.toNat
          omega
      · intro out' hrun'
        obtain ⟨⟨t', status'⟩, hloop', rfl⟩ := Option.map_eq_some_iff.mp hrun'
        -- the larger run, from where the smaller one stopped
        have hrest : runLoop blake3 { cfg with maxInstructions := larger }
            (larger.toNat - cfg.maxInstructions.toNat) u = some (t', status') := by
          have hadd := runLoop_add blake3 { cfg with maxInstructions := larger }
            (larger.toNat - cfg.maxInstructions.toNat) hu
          rw [Nat.add_sub_cancel' hle] at hadd
          exact hadd.symm.trans hloop'
        obtain ⟨⟨hcount, hgrown⟩, -⟩ := runLoop_after _ hrest
        have hcol' := collect_collected t' status'
        refine ⟨?_, by rw [hcol'.instructions]; omega⟩
        have hshort : (collect (u.pushHash blake3) status).chunkHashes.dropLast = u.chain := by
          rcases hcol.chain with hc | ⟨hhalt, -⟩
          · rw [hc, pushHash_chain, List.dropLast_concat]
          · rw [hhalt] at hst
            cases hst
        rw [hshort]
        rcases hcol'.chain with hc | ⟨-, hc⟩
        · rw [hc]
          exact hgrown.trans (List.dropLast_prefix _)
        · rw [hc]
          exact hgrown
  · simp only [if_neg hfit] at hrun
    cases hrun

/-- `c.nop; c.ebreak` in chunks of one instruction, with a budget of one, two and ten. -/
theorem run_budget_truncates_nop :
    (∃ out out', run lengthHash { chunkSize := 1, maxInstructions := 1 }
        (image 0x1000 [0x01, 0x00, 0x02, 0x90]) 0x1000 [] = some out ∧
      out.status = .instructionLimit ∧
      run lengthHash { chunkSize := 1, maxInstructions := 10 }
        (image 0x1000 [0x01, 0x00, 0x02, 0x90]) 0x1000 [] = some out' ∧
      out.chunkHashes.dropLast <+: out'.chunkHashes ∧ 1 ≤ out'.instructions) ∧
    ∃ out, run lengthHash { chunkSize := 1, maxInstructions := 2 }
        (image 0x1000 [0x01, 0x00, 0x02, 0x90]) 0x1000 [] = some out ∧ out.status = .halted ∧
      run lengthHash { chunkSize := 1, maxInstructions := 10 }
        (image 0x1000 [0x01, 0x00, 0x02, 0x90]) 0x1000 [] = some out := by
  have h1 : (run lengthHash { chunkSize := 1, maxInstructions := 1 }
      (image 0x1000 [0x01, 0x00, 0x02, 0x90]) 0x1000 []).map (·.status)
        = some .instructionLimit := by
    decide +kernel
  have h2 : (run lengthHash { chunkSize := 1, maxInstructions := 2 }
      (image 0x1000 [0x01, 0x00, 0x02, 0x90]) 0x1000 []).map (·.status) = some .halted := by
    decide +kernel
  obtain ⟨out1, hrun1, hst1⟩ := Option.map_eq_some_iff.mp h1
  obtain ⟨out2, hrun2, hst2⟩ := Option.map_eq_some_iff.mp h2
  have htrunc :=
    run_budget_truncates lengthHash { chunkSize := 1, maxInstructions := 1 } 10 (by decide)
    _ _ _ out1 hrun1
  have hsame :=
    run_budget_truncates lengthHash { chunkSize := 1, maxInstructions := 2 } 10 (by decide)
    _ _ _ out2 hrun2
  have hrun10 := hsame.1 (by rw [hst2]; exact ExitStatus.noConfusion)
  exact ⟨⟨out1, out2, hrun1, hst1, hrun10, (htrunc.2 hst1).2 out2 hrun10⟩, out2, hrun2, hst2,
    hrun10⟩

/-! ## Everything about a run is bounded -/

section

variable {blake3 : List U8 → Hash} {cfg : Config}

/-- The hashes pushed so far took a chunk of `c` instructions each, and those of the
current chunk come on top. -/
def RunState.Paced (c : Nat) (s : RunState) : Prop := s.chain.length * c + s.inChunk ≤ s.n

/-- With the exit hash there is one more. -/
def RunState.PacedExit (c : Nat) (s : RunState) : Prop := ∃ k, s.chain.length = k + 1 ∧ k * c ≤ s.n

theorem RunState.Paced.exit {c : Nat} {s t : RunState} (h : s.Paced c) (hn : s.n ≤ t.n)
    (hchain : ∃ x, t.chain = s.chain ++ [x]) : t.PacedExit c := by
  obtain ⟨x, hx⟩ := hchain
  have hpace : s.chain.length * c + s.inChunk ≤ s.n := h
  exact ⟨s.chain.length, by rw [hx, List.length_append, List.length_singleton], by omega⟩

theorem RunState.Advances.paced {c : Nat} {s t : RunState} (h : s.Advances c t) (hs : s.Paced c) :
    t.Paced c := by
  have hpace : s.chain.length * c + s.inChunk ≤ s.n := hs
  have hn := h.n
  show t.chain.length * c + t.inChunk ≤ t.n
  rcases h.chain with ⟨hc, hin⟩ | ⟨x, hc, hat, hin⟩
  · rw [hc, hin]
    omega
  · -- the hash pays for the chunk that is full now
    rw [hc, hin, List.length_append, List.length_singleton, Nat.add_mul, Nat.one_mul]
    omega

variable (blake3 cfg) in
/-- Every iteration keeps within the budget and the pace. -/
theorem iteration_holds (s : RunState)
    (h : s.n ≤ cfg.maxInstructions.toNat ∧ s.Paced cfg.chunkSize.toNat) :
    (iteration blake3 cfg s).Holds
      (fun t => t.n ≤ cfg.maxInstructions.toNat ∧ t.Paced cfg.chunkSize.toNat)
      (fun r => ∀ t status, r = some (t, status) →
        t.n ≤ cfg.maxInstructions.toNat ∧ t.PacedExit cfg.chunkSize.toNat) := by
  unfold iteration
  by_cases hlimit : s.n ≥ cfg.maxInstructions.toNat
  · rw [if_pos hlimit]
    intro t status ht
    obtain ⟨rfl, -⟩ := Prod.mk.inj (Option.some.inj ht)
    exact ⟨h.1, h.2.exit (Nat.le_refl _) ⟨_, pushHash_chain s⟩⟩
  · rw [if_neg hlimit]
    have hspec := loopBody_spec blake3 cfg s
    cases hb : loopBody blake3 cfg s with
    | again t =>
      rw [hb] at hspec
      have hcount := hspec.n
      exact ⟨by omega, hspec.paced h.2⟩
    | stop r =>
      rw [hb] at hspec
      intro t status ht
      have hend := hspec t status ht
      have hcount := hend.n
      refine ⟨?_, h.2.exit (by omega) hend.chain⟩
      split at hcount <;> omega

end

/-- **Everything about a run is bounded.** For every memory, entry, configuration
and input the ABI allows, the loop has stopped after `max_instructions + 1`
iterations, with the end the run is collected from (`none` if a step panicked the
host); and what a run returns counts at most `max_instructions` instructions, has
at most one hash more than full chunks, and an output of at most `OUTPUT_MAX`
bytes. -/
theorem run_bounded (blake3 : List U8 → Hash) (cfg : Config) (mem : Mem) (entry : U64)
    (input : List U8) (hinput : input.length ≤ inputMax.toNat) :
    (∃ r, iterate (iteration blake3 cfg) (cfg.maxInstructions.toNat + 1)
        (loopStart mem entry input) = .stop r ∧
      run blake3 cfg mem entry input = r.map fun e => collect e.1 e.2) ∧
    ∀ out, run blake3 cfg mem entry input = some out →
      out.instructions ≤ cfg.maxInstructions.toNat ∧
      (0 < cfg.chunkSize.toNat →
        out.chunkHashes.length ≤ out.instructions / cfg.chunkSize.toNat + 1) ∧
      ∀ bytes, out.output = some bytes → bytes.length ≤ outputMax.toNat := by
  have hmax : inputDataAddr.toNat + inputMax.toNat ≤ addrSpace := by decide
  have hfit : inputDataAddr.toNat + input.length ≤ addrSpace := by omega
  have hloop : iterate (iteration blake3 cfg) (cfg.maxInstructions.toNat + 1)
      (loopStart mem entry input) = _ := iterate_iteration _ (Nat.zero_add _)
  rw [run_eq, if_pos hfit]
  refine ⟨⟨_, hloop, rfl⟩, ?_⟩
  intro out hrun
  obtain ⟨⟨t, status⟩, hend, rfl⟩ := Option.map_eq_some_iff.mp hrun
  have hholds := iterate_holds (iteration_holds blake3 cfg)
    (cfg.maxInstructions.toNat + 1)
    (⟨Nat.zero_le _, Nat.le_of_eq (by simp [loopStart])⟩ :
      (loopStart mem entry input).n ≤ _ ∧ (loopStart mem entry input).Paced cfg.chunkSize.toNat)
  rw [hloop] at hholds
  obtain ⟨hn, k, hlen, hpace⟩ := hholds t status hend
  have hcol := collect_collected t status
  refine ⟨by rw [hcol.instructions]; exact hn, ?_, hcol.output⟩
  intro hc
  have hk : k ≤ t.n / cfg.chunkSize.toNat := (Nat.le_div_iff_mul_le hc).mpr hpace
  have hshort : (collect t status).chunkHashes.length ≤ t.chain.length := by
    rcases hcol.chain with h | ⟨-, h⟩
    · rw [h]
    · rw [h]
      exact (List.dropLast_prefix _).length_le
  show (collect t status).chunkHashes.length ≤ (collect t status).instructions / _ + 1
  rw [hcol.instructions]
  omega

/-- `csrrwi x0, mtvec, 4`, then nothing but illegal instructions: the handler at 4
traps into itself until the budget ends. -/
theorem run_bounded_handler :
    ∃ out, run lengthHash { chunkSize := 2, maxInstructions := 20 }
        (image 0x1000 [0x73, 0x50, 0x52, 0x30]) 0x1000 [] = some out ∧
      out.status = .instructionLimit ∧ out.instructions ≤ 20 ∧
      out.chunkHashes.length ≤ out.instructions / 2 + 1 := by
  have hstatus : (run lengthHash { chunkSize := 2, maxInstructions := 20 }
      (image 0x1000 [0x73, 0x50, 0x52, 0x30]) 0x1000 []).map (·.status)
        = some .instructionLimit := by
    decide +kernel
  obtain ⟨out, hrun, hst⟩ := Option.map_eq_some_iff.mp hstatus
  obtain ⟨-, hbound⟩ := run_bounded lengthHash { chunkSize := 2, maxInstructions := 20 }
    (image 0x1000 [0x73, 0x50, 0x52, 0x30]) 0x1000 [] (Nat.zero_le _)
  obtain ⟨hn, hchain, -⟩ := hbound out hrun
  exact ⟨out, hrun, hst, hn, hchain (by decide)⟩

end Provework.Rvcore
