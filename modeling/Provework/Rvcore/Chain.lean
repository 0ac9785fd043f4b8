import Provework.Lib.Sampling
import Provework.Rvcore.Run

/-!
# The chunk-hash chain of a run

`turn` is one iteration of the loop with the bookkeeping taken off: what it
does to the machine and whether the run goes on. The states whose hashes `run`
pushes are the samples of that system (`runLoop_spec`), so the shape of the
chain is a question about sampling, settled in `Lib.Sampling`, and what the
chain binds is a question about hash chains, settled in `Lib.HashChain`.

A trap routed to the guest's handler is a counted turn on which the source does
not look at the chunk counter; an oversized output pops the exit hash. Those
are the two ways the chain comes out short.
-/

namespace Provework.Rvcore

open Provework.Lib

/-- One iteration of the loop. A routed trap is silent. -/
def turn (cfg : Config) (m : Machine) : Turn Machine ExitStatus :=
  match stepMode m cfg.syscalls cfg.tohostAddr with
  | none => .panic
  | some (m, res) =>
    if cfg.tohostAddr.isSome ∧ m.cpu.tohost.isSome then
      .exit m (.tohost (m.cpu.tohost.getD 0))
    else
      match res with
      | .ok true => .exit m .halted
      | .ok false => .next m false
      | .error t =>
        if m.cpu.mtvec ≠ 0 then .next (routeTrap m t) true else .exit m (.trapped t)

section

variable (cfg : Config)

/-- The states `run` pushes a hash of, from the start of the loop on. -/
def pushed (start : Machine) : List Machine :=
  sampled (turn cfg) cfg.chunkSize.toNat cfg.maxInstructions.toNat 0 start

/-- The counted turns of a run: the state after each, and whether it was a routed trap. -/
def counted (start : Machine) : List (Machine × Bool) :=
  steps (turn cfg) cfg.maxInstructions.toNat start

/-- Where the run ends and how; `none` if the host panics on the way. -/
def runExit (start : Machine) : Option (Machine × ExitStatus) :=
  exitOf (turn cfg) .instructionLimit cfg.maxInstructions.toNat start

/-- A clean halt that declares more output than the ABI allows. -/
def Oversized (m : Machine) (status : ExitStatus) : Prop :=
  status = .halted ∧ (outputLen m.mem).1 > outputMax

instance (m : Machine) (status : ExitStatus) : Decidable (Oversized m status) :=
  inferInstanceAs (Decidable (_ ∧ _))

/-- The states whose hashes are in `chunk_hashes`. -/
def chainStates (start : Machine) : List Machine :=
  match runExit cfg start with
  | some (m, status) => if Oversized m status then (pushed cfg start).dropLast else pushed cfg start
  | none => pushed cfg start

end

/-- The machine at the start of the loop, both input writes done. -/
def started (mem : Mem) (entry : U64) (input : List U8) : Machine :=
  boot ((mem.write inputLenAddr (leBytes 8 input.length)).2.write inputDataAddr input).2 entry

/-- The variables before the loop. -/
def loopStart (mem : Mem) (entry : U64) (input : List U8) : RunState :=
  { m := started mem entry input, prev := genesis, chain := [], n := 0, inChunk := 0
    snapshots := [] }

/-! ## The cases of a turn -/

/-- A turn, by what `step_mode` returned. The latch is looked at before the result. -/
inductive Turned (cfg : Config) (m : Machine) : Turn Machine ExitStatus → Prop
  | panic : stepMode m cfg.syscalls cfg.tohostAddr = none → Turned cfg m .panic
  | tohost {m' : Machine} {res : Except Trap Bool} {v : U64} :
    stepMode m cfg.syscalls cfg.tohostAddr = some (m', res) → cfg.tohostAddr.isSome →
    m'.cpu.tohost = some v → Turned cfg m (.exit m' (.tohost v))
  | halted {m' : Machine} : stepMode m cfg.syscalls cfg.tohostAddr = some (m', .ok true) →
    ¬(cfg.tohostAddr.isSome ∧ m'.cpu.tohost.isSome) → Turned cfg m (.exit m' .halted)
  | next {m' : Machine} : stepMode m cfg.syscalls cfg.tohostAddr = some (m', .ok false) →
    ¬(cfg.tohostAddr.isSome ∧ m'.cpu.tohost.isSome) → Turned cfg m (.next m' false)
  | routed {m' : Machine} {t : Trap} :
    stepMode m cfg.syscalls cfg.tohostAddr = some (m', .error t) →
    ¬(cfg.tohostAddr.isSome ∧ m'.cpu.tohost.isSome) → m'.cpu.mtvec ≠ 0 →
    Turned cfg m (.next (routeTrap m' t) true)
  | trapped {m' : Machine} {t : Trap} :
    stepMode m cfg.syscalls cfg.tohostAddr = some (m', .error t) →
    ¬(cfg.tohostAddr.isSome ∧ m'.cpu.tohost.isSome) → m'.cpu.mtvec = 0 →
    Turned cfg m (.exit m' (.trapped t))

theorem turn_turned (cfg : Config) (m : Machine) : Turned cfg m (turn cfg m) := by
  unfold turn
  rcases hstep : stepMode m cfg.syscalls cfg.tohostAddr with _ | ⟨m', res⟩
  · exact .panic hstep
  by_cases hto : cfg.tohostAddr.isSome ∧ m'.cpu.tohost.isSome
  · obtain ⟨v, hv⟩ := Option.isSome_iff_exists.mp hto.2
    simp only [if_pos hto]
    rw [hv, Option.getD_some]
    exact .tohost hstep hto.1 hv
  simp only [if_neg hto]
  rcases res with t | _ | _
  · by_cases htv : m'.cpu.mtvec ≠ 0
    · simp only [if_pos htv]
      exact .routed hstep hto htv
    · simp only [if_neg htv]
      exact .trapped hstep hto (not_not.mp htv)
  · exact .next hstep hto
  · exact .halted hstep hto

/-! ## The loop pushes the samples -/

section

variable {blake3 : List U8 → Hash} {cfg : Config}

@[simp] theorem writeSnapshot_m (s : RunState) (snap : Option (List U8)) :
    (s.writeSnapshot snap).m = s.m := by
  cases snap <;> rfl

@[simp] theorem writeSnapshot_chain (s : RunState) (snap : Option (List U8)) :
    (s.writeSnapshot snap).chain = s.chain := by
  cases snap <;> rfl

@[simp] theorem writeSnapshot_prev (s : RunState) (snap : Option (List U8)) :
    (s.writeSnapshot snap).prev = s.prev := by
  cases snap <;> rfl

@[simp] theorem writeSnapshot_n (s : RunState) (snap : Option (List U8)) :
    (s.writeSnapshot snap).n = s.n := by
  cases snap <;> rfl

@[simp] theorem pushHash_n (s : RunState) : (s.pushHash blake3).n = s.n := rfl

@[simp] theorem pushHash_m (s : RunState) : (s.pushHash blake3).m = s.m := rfl

@[simp] theorem pushHash_chain (s : RunState) :
    (s.pushHash blake3).chain = s.chain ++ [stateHash blake3 s.prev s.m] := rfl

@[simp] theorem pushHash_prev (s : RunState) :
    (s.pushHash blake3).prev = stateHash blake3 s.prev s.m := rfl

variable (blake3 cfg) in
/-- What one iteration of the loop does, in terms of the turn. -/
theorem runLoop_step (left : Nat) (s : RunState) :
    match turn cfg s.m with
    | .panic => runLoop blake3 cfg (left + 1) s = none
    | .exit m status => ∃ s', runLoop blake3 cfg (left + 1) s = some (s', status) ∧ s'.m = m ∧
        s'.chain = s.chain ++ [stateHash blake3 s.prev m]
    | .next m routed => ∃ s', runLoop blake3 cfg (left + 1) s = runLoop blake3 cfg left s' ∧
        s'.m = m ∧
        if routed = false ∧ s.inChunk + 1 = cfg.chunkSize.toNat then
          s'.chain = s.chain ++ [stateHash blake3 s.prev m] ∧
            s'.prev = stateHash blake3 s.prev m ∧ s'.inChunk = 0
        else s'.chain = s.chain ∧ s'.prev = s.prev ∧ s'.inChunk = s.inChunk + 1 := by
  simp only [turn, runLoop]
  cases stepMode s.m cfg.syscalls cfg.tohostAddr with
  | none => rfl
  | some r =>
    obtain ⟨m, res⟩ := r
    by_cases hto : cfg.tohostAddr.isSome ∧ m.cpu.tohost.isSome
    · simp only [if_pos hto]
      exact ⟨_, rfl, rfl, rfl⟩
    · simp only [if_neg hto]
      -- a trap, an ordinary step, a halt
      rcases res with t | _ | _
      · by_cases htv : m.cpu.mtvec ≠ 0
        · simp only [if_pos htv]
          exact ⟨_, rfl, rfl, by simp⟩
        · simp only [if_neg htv]
          exact ⟨_, rfl, by simp, by simp⟩
      · by_cases hb : s.inChunk + 1 = cfg.chunkSize.toNat
        · simp only [hb, if_true]
          exact ⟨_, rfl, by simp, by simp⟩
        · simp only [hb, if_false, and_false]
          exact ⟨_, rfl, rfl, rfl, rfl, rfl⟩
      · exact ⟨_, rfl, by simp, by simp⟩

variable (blake3 cfg) in
/-- The loop ends where the turns end, having appended the chain over the samples. -/
theorem runLoop_spec : ∀ (left : Nat) (s : RunState),
    match exitOf (turn cfg) .instructionLimit left s.m with
    | none => runLoop blake3 cfg left s = none
    | some (m, status) => ∃ s', runLoop blake3 cfg left s = some (s', status) ∧ s'.m = m ∧
        s'.chain = s.chain ++ chainFrom (stateHash blake3) s.prev
          (sampled (turn cfg) cfg.chunkSize.toNat left s.inChunk s.m)
  | 0, s => ⟨_, rfl, rfl, rfl⟩
  | left + 1, s => by
    have hstep := runLoop_step blake3 cfg left s
    simp only [exitOf, sampled]
    cases hturn : turn cfg s.m with
    | panic =>
      simp only [hturn] at hstep
      exact hstep
    | exit m status =>
      simp only [hturn] at hstep
      exact hstep
    | next m routed =>
      simp only [hturn] at hstep
      obtain ⟨s', hloop, rfl, hs'⟩ := hstep
      have ih := runLoop_spec left s'
      rw [hloop]
      by_cases hb : routed = false ∧ s.inChunk + 1 = cfg.chunkSize.toNat
      · -- the turn pushed a hash: it is the first of the rest of the chain
        simp only [if_pos hb] at hs' ⊢
        obtain ⟨hchain, hprev, hin⟩ := hs'
        rw [hchain, hprev, hin] at ih
        simpa only [chainFrom, List.append_assoc, List.singleton_append] using ih
      · simp only [if_neg hb] at hs' ⊢
        obtain ⟨hchain, hprev, hin⟩ := hs'
        rwa [hchain, hprev, hin] at ih

/-! ## The run -/

theorem installInput_eq (mem : Mem) (entry : U64) (input : List U8) :
    installInput mem input =
      if inputDataAddr.toNat + input.length ≤ addrSpace then some (started mem entry input).mem
      else none := by
  have hlen : Mem.inRange inputLenAddr (leBytes 8 input.length).length = true := by
    rw [length_leBytes]
    decide
  unfold installInput started boot Mem.write
  simp only [hlen, if_true]
  by_cases hfit : inputDataAddr.toNat + input.length ≤ addrSpace
  · rw [if_pos ((Mem.inRange_iff _ _).mpr hfit), if_pos hfit]
  · simp only [if_neg fun h => hfit ((Mem.inRange_iff _ _).mp h), if_neg hfit]

variable (blake3 cfg) in
/-- The run is its loop, once the input is installed. -/
theorem run_eq (mem : Mem) (entry : U64) (input : List U8) :
    run blake3 cfg mem entry input =
      if inputDataAddr.toNat + input.length ≤ addrSpace then
        (runLoop blake3 cfg cfg.maxInstructions.toNat (loopStart mem entry input)).map
          fun r => collect r.1 r.2
      else none := by
  unfold run
  rw [installInput_eq mem entry input]
  by_cases hfit : inputDataAddr.toNat + input.length ≤ addrSpace
  · simp only [if_pos hfit]
    rw [show boot (started mem entry input).mem entry = started mem entry input from rfl]
    unfold loopStart
    cases runLoop blake3 cfg cfg.maxInstructions.toNat _ <;> rfl
  · simp only [if_neg hfit]

/-- After the loop only an oversized output changes the status, and then the exit
hash is popped off the chain. -/
theorem collect_ends (s : RunState) (status : ExitStatus) :
    ((collect s status).status, (collect s status).chunkHashes) =
      if Oversized s.m status then
      (.trapped .outputTooLarge, s.chain.dropLast) else (status, s.chain) := by
  unfold collect Oversized
  by_cases hhalt : status = .halted
  · by_cases hbig : (outputLen s.m.mem).1 > outputMax
    · simp only [hhalt, hbig, if_true, and_self]
    · simp only [hhalt, hbig, if_true, if_false, and_false]
  · simp only [hhalt, if_false, false_and]

theorem collect_status (s : RunState) (status : ExitStatus) :
    (collect s status).status =
      if Oversized s.m status then .trapped .outputTooLarge else status := by
  have hends := congrArg Prod.fst (collect_ends s status)
  rwa [apply_ite Prod.fst] at hends

theorem collect_hashes (s : RunState) (status : ExitStatus) :
    (collect s status).chunkHashes = if Oversized s.m status then
    s.chain.dropLast else s.chain := by
  have hends := congrArg Prod.snd (collect_ends s status)
  rwa [apply_ite Prod.snd] at hends

/-- The run, through its turns: it returns unless the input does not fit or a
step panics, and its chain is the one over `chainStates`. -/
theorem run_spec (blake3 : List U8 → Hash) (cfg : Config) (mem : Mem) (entry : U64)
    (input : List U8) :
    (∀ out, run blake3 cfg mem entry input = some out →
      out.chunkHashes = chainFrom (stateHash blake3) genesis
        (chainStates cfg (started mem entry input))) ∧
    ((run blake3 cfg mem entry input).isSome ↔
      inputDataAddr.toNat + input.length ≤ addrSpace ∧
        (runExit cfg (started mem entry input)).isSome) := by
  rw [run_eq]
  by_cases hfit : inputDataAddr.toNat + input.length ≤ addrSpace
  · have hspec := runLoop_spec blake3 cfg cfg.maxInstructions.toNat (loopStart mem entry input)
    simp only [if_pos hfit, chainStates, runExit, pushed]
    rw [show (loopStart mem entry input).m = started mem entry input from rfl] at hspec
    generalize exitOf (turn cfg) .instructionLimit cfg.maxInstructions.toNat
      (started mem entry input) = r at hspec
    rcases r with _ | ⟨m, status⟩
    · rw [show runLoop blake3 cfg _ _ = none from hspec]
      simp
    · obtain ⟨s, hloop, rfl, hchain⟩ := hspec
      rw [show (loopStart mem entry input).chain = [] from rfl, List.nil_append] at hchain
      rw [hloop]
      refine ⟨?_, by simp [hfit]⟩
      rintro out ⟨⟩
      rw [collect_hashes, hchain]
      by_cases hbig : Oversized s.m status
      · simp only [if_pos hbig]
        exact chainFrom_dropLast ..
      · simp only [if_neg hbig]
        rfl
  · simp [hfit]

/-! ## The shape of the chain -/

/-- The chain of a run that exits in `m`, as it is meant to be: a hash after
every `chunk_size` counted turns, then one of the exit. -/
def fullChain (blake3 : List U8 → Hash) (cfg : Config) (start m : Machine) : List Hash :=
  chainFrom (stateHash blake3) genesis
    (samples (turn cfg) cfg.chunkSize.toNat cfg.maxInstructions.toNat start m)

/-- `run` returns, and its chain is the full one. -/
def ChainIsFull (blake3 : List U8 → Hash) (cfg : Config) (mem : Mem) (entry : U64)
    (input : List U8) : Prop :=
  ∃ out m status, run blake3 cfg mem entry input = some out ∧
    runExit cfg (started mem entry input) = some (m, status) ∧
    out.chunkHashes = fullChain blake3 cfg (started mem entry input) m

/-- How many counted turns are chunk boundaries. -/
def boundaryCount (cfg : Config) (start : Machine) : Nat :=
  (everyNth cfg.chunkSize.toNat 0 ((counted cfg start).map Prod.fst)).length

theorem ChainIsFull.length {mem : Mem} {entry : U64} {input : List U8}
    (h : ChainIsFull blake3 cfg mem entry input) :
    (chainStates cfg (started mem entry input)).length
      = boundaryCount cfg (started mem entry input) + 1 := by
  obtain ⟨out, m, status, hrun, -, hfull⟩ := h
  have hlen :=
    congrArg List.length (((run_spec blake3 cfg mem entry input).1 out hrun).symm.trans hfull)
  simpa [fullChain, samples, boundaryCount, counted] using hlen

/-- Popping the exit hash, or missing a boundary, leaves too few states. -/
theorem length_chainStates_iff (hc : 0 < cfg.chunkSize.toNat) {start m : Machine}
    {status : ExitStatus} (hexit : runExit cfg start = some (m, status)) :
    (chainStates cfg start).length = boundaryCount cfg start + 1 ↔
      NoSilentNth cfg.chunkSize.toNat 0 (counted cfg start) ∧ ¬Oversized m status := by
  have hle := length_sampled_le hc hexit
  rw [samples, List.length_append, List.length_singleton] at hle
  have hne := sampled_ne_nil (c := cfg.chunkSize.toNat) _ (k := 0) hexit
  have hpos := List.length_pos_of_ne_nil hne
  simp only [chainStates, hexit, pushed, counted, boundaryCount]
  by_cases hbig : Oversized m status
  · simp only [hbig, if_true, not_true, and_false, iff_false, List.length_dropLast]
    omega
  · simp only [hbig, if_false, not_false_eq_true, and_true]
    constructor
    · intro hlen
      by_contra hsil
      have hlt := length_sampled_lt hc _ hsil
      rw [Nat.zero_mod, hlen] at hlt
      exact Nat.lt_irrefl _ hlt
    · intro hsil
      rw [(sampled_eq_iff hc hexit).mpr hsil, samples, List.length_append, List.length_singleton]

/-- **The shape of the chain.** For every image, entry, input and configuration
with a positive chunk size, `run` returns the full chain exactly when the input
fits the address space, no step panics the host, no trap is routed to the
guest's handler on a turn whose ordinal is a multiple of `chunk_size`, and the
run is not a halt with an oversized output. -/
theorem run_chain_full_iff (blake3 : List U8 → Hash) (cfg : Config)
    (hc : 0 < cfg.chunkSize.toNat) (mem : Mem) (entry : U64) (input : List U8) :
    ChainIsFull blake3 cfg mem entry input ↔
      inputDataAddr.toNat + input.length ≤ addrSpace ∧
      ∃ m status, runExit cfg (started mem entry input) = some (m, status) ∧
        NoSilentNth cfg.chunkSize.toNat 0 (counted cfg (started mem entry input)) ∧
        ¬Oversized m status := by
  obtain ⟨hchain, hsome⟩ := run_spec blake3 cfg mem entry input
  constructor
  · intro hfull
    have hlen := hfull.length
    obtain ⟨out, m, status, hrun, hexit, -⟩ := hfull
    exact ⟨(hsome.mp (by rw [hrun]; rfl)).1, m, status, hexit,
      (length_chainStates_iff hc hexit).mp hlen⟩
  · rintro ⟨hfit, m, status, hexit, hsil, hbig⟩
    have hret := hsome.mpr ⟨hfit, by rw [hexit]; rfl⟩
    obtain ⟨out, hrun⟩ := Option.isSome_iff_exists.mp hret
    refine ⟨out, m, status, hrun, hexit, ?_⟩
    rw [hchain out hrun, fullChain, ← (sampled_eq_iff hc hexit).mpr hsil]
    simp only [chainStates, hexit, if_neg hbig, pushed]

/-- A memory holding `bytes` at `base` and nothing else. -/
def image (base : U64) (bytes : List U8) : Mem := (Mem.new.write base bytes).2

/-- `c.nop; c.ebreak` in chunks of one instruction. -/
theorem run_chain_full_nop :
    ChainIsFull (fun _ => genesis) { chunkSize := 1 } (image 0x1000 [0x01, 0x00, 0x02, 0x90])
      0x1000 [] := by
  have hexit : (runExit { chunkSize := 1 }
      (started (image 0x1000 [0x01, 0x00, 0x02, 0x90]) 0x1000 [])).any
        (fun r => ¬Oversized r.1 r.2) = true := by decide +kernel
  obtain ⟨⟨m, status⟩, hr, hbig⟩ := (Option.any_eq_true _ _).mp hexit
  exact (run_chain_full_iff _ _ (by decide) _ _ _).mpr
    ⟨by decide, m, status, hr, noSilentNth_of_all (by decide +kernel), of_decide_eq_true hbig⟩

/-- Both ways to come out short, whatever the hasher. First
`csrrwi x0, mtvec, 4` and then an illegal instruction, whose routing is the
second counted turn with `chunk_size = 2`: one hash instead of two. Then
`c.ebreak` with a declared output of 1 MiB and one byte: no hash at all. -/
theorem chain_short (blake3 : List U8 → Hash) :
    ¬ChainIsFull blake3 { chunkSize := 2, maxInstructions := 3 }
        (image 0x1000 [0x73, 0x50, 0x52, 0x30]) 0x1000 [] ∧
      ¬ChainIsFull blake3 {} ((image 0x1000 [0x02, 0x90]).write outputLenAddr [1, 0, 16]).2
        0x1000 [] := by
  constructor
  · intro hfull
    exact absurd hfull.length (by decide +kernel)
  · intro hfull
    exact absurd hfull.length (by decide +kernel)

/-- A toy hasher: the message's length, in every byte. -/
def lengthHash (msg : List U8) : Hash := fun _ => BitVec.ofNat 8 msg.length

theorem run_chain_short :
    ¬ChainIsFull lengthHash { chunkSize := 2, maxInstructions := 3 }
        (image 0x1000 [0x73, 0x50, 0x52, 0x30]) 0x1000 [] ∧
      ¬ChainIsFull lengthHash {} ((image 0x1000 [0x02, 0x90]).write outputLenAddr [1, 0, 16]).2
        0x1000 [] :=
  chain_short lengthHash

/-! ## What is hashed -/

/-- The messages the hasher sees for the hashes of a run's chain. -/
def chainMessages (blake3 : List U8 → Hash) (cfg : Config) (start : Machine) : Set (List U8) :=
  {msg | ∃ a ∈ linkArgs (stateHash blake3) genesis (chainStates cfg start),
    msg ∈ hashedMessages blake3 a.1 a.2}

/-- The messages of a chain of two. -/
theorem chainMessages_pair (blake3 : List U8 → Hash) {cfg : Config} {start s t : Machine}
    (h : chainStates cfg start = [s, t]) :
    chainMessages blake3 cfg start ⊆
      hashedMessages blake3 genesis s ∪ hashedMessages blake3 (stateHash blake3 genesis s) t := by
  rintro msg ⟨a, ha, hmsg⟩
  rw [h] at ha
  simp only [linkArgs, List.mem_cons, List.not_mem_nil, or_false] at ha
  rcases ha with rfl | rfl
  · exact Or.inl hmsg
  · exact Or.inr hmsg

/-- A toy hasher: length plus first byte, which in a link is that of the hash before. -/
def toyHash (msg : List U8) : Hash := fun _ => BitVec.ofNat 8 (msg.length + (msg.headD 0).toNat)

theorem stateHash_toyHash (p : Hash) (m : Machine) :
    stateHash toyHash p m = fun _ => BitVec.ofNat 8 (360 + (p 0).toNat) := by
  funext _
  rw [stateHash, toyHash, length_stateMessage]
  rfl

end

end Provework.Rvcore
