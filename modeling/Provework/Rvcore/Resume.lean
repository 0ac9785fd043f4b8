import Provework.Rvcore.Chunk

/-!
# Snapshots of a run

Two facts about the snapshots `run` publishes. A machine restored from a capture
of any state a run passes steps like the machine captured
(`resume_from_snapshot`), and every snapshot file that has an entry in the chain
restores to the state hashed there (`snapshots_verify`).

The second is an invariant of the loop: the snapshot is captured before the hash
is pushed and written under the length of the chain, so what the file holds, the
index it is filed under and the entry pushed next belong to the same state.
-/

namespace Provework.Rvcore

open Provework.Lib

/-! ## Resuming -/

/-- The machine states a run passes, with `left` turns of its budget to go: the
state at the head of the loop and the one `step_mode` leaves, which differ from
the next head only when a trap is routed. -/
def visited (cfg : Config) : Nat → Machine → List Machine
  | 0, m => [m]
  | left + 1, m =>
    m :: match stepMode m cfg.syscalls cfg.tohostAddr with
      | none => []
      | some (stepped, _) =>
        stepped :: match turn cfg m with
          | .next m' _ => visited cfg left m'
          | _ => []

/-- `n` calls of `step`, each with the state it leaves and what it returns, up
to a host panic. A call after a halt or a trap executes the same place again. -/
def stepCalls : Nat → Machine → List (Machine × Except Trap Bool)
  | 0, _ => []
  | n + 1, m =>
    match step m with
    | none => []
    | some (m', res) => (m', res) :: stepCalls n m'

/-- Two calls that nobody can tell apart by the result or by the hashed state. -/
structure SameCall (a b : Machine × Except Trap Bool) : Prop where
  result : a.2 = b.2
  state : a.1.SameHashed b.1
  hash : ∀ (blake3 : List U8 → Hash) (prev : Hash),
    stateHash blake3 prev a.1 = stateHash blake3 prev b.1

/-- What calls of `step_mode` and trap routing keep, every visited state has. -/
theorem visited_inv {cfg : Config} {I : Machine → Prop}
    (hstep : ∀ {m m' : Machine} {res : Except Trap Bool}, I m →
      stepMode m cfg.syscalls cfg.tohostAddr = some (m', res) → I m')
    (hroute : ∀ {m : Machine} (t : Trap), I m → I (routeTrap m t)) :
    ∀ (left : Nat) {start m : Machine}, I start → m ∈ visited cfg left start → I m := by
  intro left
  induction left with
  | zero =>
    intro start m hi hm
    rw [visited, List.mem_singleton] at hm
    exact hm ▸ hi
  | succ left ih =>
    intro start m hi hm
    rw [visited] at hm
    rcases List.mem_cons.mp hm with rfl | hm
    · exact hi
    rcases hs : stepMode start cfg.syscalls cfg.tohostAddr with _ | ⟨stepped, res⟩
    · simp only [hs, List.not_mem_nil] at hm
    simp only [hs] at hm
    rcases List.mem_cons.mp hm with rfl | hm
    · exact hstep hi hs
    have hturn : (turn cfg start).Leaves I := turn_leaves hstep hroute start hi
    cases ht : turn cfg start with
    | panic => simp only [ht, List.not_mem_nil] at hm
    | exit m' status => simp only [ht, List.not_mem_nil] at hm
    | next m' routed =>
      rw [ht] at hturn
      simp only [ht] at hm
      exact ih hturn hm

theorem visited_valid {cfg : Config} (left : Nat) {start m : Machine} (hv : start.mem.Valid)
    (hm : m ∈ visited cfg left start) : m.mem.Valid :=
  visited_inv (I := fun m => m.mem.Valid) stepMode_valid (fun _ h => h) left hv hm

/-- Twins answer every series of calls alike. -/
theorem stepCalls_twin : ∀ (n : Nat) {m m' : Machine}, m.Twin m' →
    List.Forall₂ SameCall (stepCalls n m) (stepCalls n m') := by
  intro n
  induction n with
  | zero =>
    intro m m' _
    exact List.Forall₂.nil
  | succ n ih =>
    intro m m' h
    have hsame := h.step
    simp only [stepCalls]
    generalize step m = o at hsame
    generalize step m' = o' at hsame
    cases hsame with
    | panic => exact List.Forall₂.nil
    | done res ht =>
      have hhashed := ht.toSameHashed
      exact List.Forall₂.cons ⟨rfl, hhashed, fun _ _ => hhashed.stateHash_eq⟩ (ih ht)

/-- **Resuming is indistinguishable from continuing.** Take any state a run
passes, of any valid memory (every memory that `Mem`'s calls build is one, so
every loaded image is), entry, input and configuration. Its capture restores,
to a machine with the same registers, pc, CSRs and pages, and any number of
`step` calls on the two return the same results and leave equal hashed states
after every call. -/
theorem resume_from_snapshot {mem : Mem} (hv : mem.Valid) (entry : U64) (input : List U8)
    (cfg : Config) {m : Machine}
    (hm : m ∈ visited cfg cfg.maxInstructions.toNat (started mem entry input)) :
    ∃ m', restore (capture m) = .ok m' ∧ m'.SameHashed m ∧
      ∀ n, List.Forall₂ SameCall (stepCalls n m) (stepCalls n m') := by
  have hvalid := visited_valid _ (started_valid hv entry input) hm
  obtain ⟨m', hrestore, hsame⟩ := restore_capture hvalid
  have htwin := restore_twin hrestore hvalid hsame
  exact ⟨m', hrestore, hsame, fun n => stepCalls_twin n htwin.symm⟩

/-- `c.nop; c.ebreak`, captured between the two instructions. -/
theorem resume_after_nop :
    ∃ m m', (visited { maxInstructions := 2 } 2
        (started (image 0x1000 [0x01, 0x00, 0x02, 0x90]) 0x1000 []))[1]? = some m ∧
      m.cpu.pc = 0x1002 ∧ restore (capture m) = .ok m' ∧
      List.Forall₂ SameCall (stepCalls 3 m) (stepCalls 3 m') := by
  have hpc : ((visited { maxInstructions := 2 } 2
      (started (image 0x1000 [0x01, 0x00, 0x02, 0x90]) 0x1000 []))[1]?).map (·.cpu.pc)
        = some 0x1002 := by decide +kernel
  obtain ⟨m, hm, hat⟩ := Option.map_eq_some_iff.mp hpc
  obtain ⟨m', hrestore, -, hcalls⟩ := resume_from_snapshot
    (Mem.write_valid Mem.new_valid 0x1000 [0x01, 0x00, 0x02, 0x90]) 0x1000 []
    { maxInstructions := 2 } (List.mem_of_getElem? hm)
  exact ⟨m, m', hm, hat, hrestore, hcalls 3⟩

/-! ## The published snapshots -/

/-- The hash entry `i` of a chain is linked to. -/
def prevHash (chain : List Hash) (i : Nat) : Hash :=
  if i = 0 then genesis else chain.getD (i - 1) genesis

/-- What the loop keeps: `prev` is the last link, and every snapshot written so
far is a capture of the state hashed under its index. -/
structure RunState.Published (blake3 : List U8 → Hash) (s : RunState) : Prop where
  valid : s.m.mem.Valid
  prev : s.prev = prevHash s.chain s.chain.length
  filed : ∀ p ∈ s.snapshots, ∃ m : Machine, m.mem.Valid ∧ p.2 = capture m ∧
    s.chain[p.1]? = some (stateHash blake3 (prevHash s.chain p.1) m)

section

variable {blake3 : List U8 → Hash} {cfg : Config} {s : RunState}

theorem prevHash_append {chain : List Hash} {i : Nat} (hi : i ≤ chain.length) (rest : List Hash) :
    prevHash (chain ++ rest) i = prevHash chain i := by
  unfold prevHash
  by_cases h0 : i = 0
  · rw [if_pos h0, if_pos h0]
  · rw [if_neg h0, if_neg h0, List.getD_eq_getElem?_getD, List.getD_eq_getElem?_getD,
      List.getElem?_append_left (by omega)]

theorem prevHash_concat (chain : List Hash) (h : Hash) :
    prevHash (chain ++ [h]) (chain ++ [h]).length = h := by
  rw [prevHash, if_neg (by simp)]
  simp

/-- The loop moves on without touching the chain. -/
theorem RunState.Published.advance (h : s.Published blake3) {m : Machine} (hv : m.mem.Valid)
    (n inChunk : Nat) : RunState.Published blake3 { s with m, n, inChunk } :=
  ⟨hv, h.prev, h.filed⟩

/-- A push keeps every filed snapshot with its entry. -/
theorem RunState.Published.pushHash (h : s.Published blake3) :
    (s.pushHash blake3).Published blake3 := by
  refine ⟨h.valid, (prevHash_concat _ _).symm, fun p hp => ?_⟩
  obtain ⟨m, hv, hbytes, hentry⟩ := h.filed p hp
  have hlt : p.1 < s.chain.length := (List.getElem?_eq_some_iff.mp hentry).1
  refine ⟨m, hv, hbytes, ?_⟩
  rw [pushHash_chain, List.getElem?_append_left hlt, prevHash_append (Nat.le_of_lt hlt), hentry]

/-- So does a push right after the current state was captured, which the new
entry is then filed with. -/
theorem RunState.Published.publish (h : s.Published blake3) {snap : Option (List U8)}
    (hsnap : ∀ bytes, snap = some bytes → bytes = capture s.m) :
    ((s.writeSnapshot snap).pushHash blake3).Published blake3 := by
  cases snap with
  | none => exact h.pushHash
  | some bytes =>
    have hpush := h.pushHash
    refine ⟨hpush.valid, hpush.prev, fun p hp => ?_⟩
    rcases List.mem_append.mp hp with hp | hp
    · exact hpush.filed p hp
    · -- the file written now: its index is the length of the chain before the push
      obtain rfl := List.mem_singleton.mp hp
      refine ⟨s.m, h.valid, hsnap bytes rfl, ?_⟩
      show (s.chain ++ [stateHash blake3 s.prev s.m])[s.chain.length]? = some _
      rw [List.getElem?_concat_length, pushHash_chain, writeSnapshot_chain,
        prevHash_append (Nat.le_refl _), ← h.prev]

/-- The loop ends with every snapshot filed under the entry of its state. -/
theorem runLoop_published : ∀ (left : Nat) {s s' : RunState} {status : ExitStatus},
    s.Published blake3 → runLoop blake3 cfg left s = some (s', status) → s'.Published blake3 := by
  intro left
  induction left with
  | zero =>
    intro s s' status h hrun
    obtain ⟨rfl, -⟩ := Prod.mk.inj (Option.some.inj hrun)
    exact h.pushHash
  | succ left ih =>
    intro s s' status h hrun
    rw [runLoop] at hrun
    rcases hstep : stepMode s.m cfg.syscalls cfg.tohostAddr with _ | ⟨m, res⟩
    · simp only [hstep, reduceCtorEq] at hrun
    have hv := stepMode_valid h.valid hstep
    simp only [hstep] at hrun
    -- whatever the boundary test says, what it captures is the state just reached
    generalize hcap : (if cfg.snapshotDir = true ∧
        (!isContinue res || decide (s.inChunk + 1 = cfg.chunkSize.toNat)) = true
      then some (capture m) else none) = snap at hrun
    have hsnap : ∀ bytes, snap = some bytes → bytes = capture m := by
      rintro bytes rfl
      split at hcap
      · exact (Option.some.inj hcap).symm
      · cases hcap
    split at hrun
    · obtain ⟨rfl, -⟩ := Prod.mk.inj (Option.some.inj hrun)
      exact (h.advance hv _ _).pushHash
    rcases res with t | _ | _
    · simp only at hrun
      split at hrun
      · exact ih (h.advance (m := routeTrap m t) hv _ _) hrun
      · obtain ⟨rfl, -⟩ := Prod.mk.inj (Option.some.inj hrun)
        exact (h.advance hv _ _).publish hsnap
    · simp only at hrun
      split at hrun
      · have hpub := (h.advance hv (s.n + 1) (s.inChunk + 1)).publish hsnap
        exact ih (hpub.advance hpub.valid _ 0) hrun
      · exact ih (h.advance hv _ _) hrun
    · simp only at hrun
      obtain ⟨rfl, -⟩ := Prod.mk.inj (Option.some.inj hrun)
      exact (h.advance hv _ _).publish hsnap

/-- Whatever is taken off the chain is taken off its end. -/
theorem collect_chain (s : RunState) (status : ExitStatus) :
    (collect s status).chunkHashes <+: s.chain ∧ (collect s status).snapshots = s.snapshots := by
  refine ⟨?_, rfl⟩
  rw [collect_hashes]
  split
  · exact List.dropLast_prefix _
  · exact List.prefix_rfl

theorem run_published {mem : Mem} (hv : mem.Valid) {entry : U64} {input : List U8}
    {out : RunOutcome} (hrun : run blake3 cfg mem entry input = some out) :
    ∃ s : RunState, s.Published blake3 ∧ out.chunkHashes <+: s.chain ∧
      out.snapshots = s.snapshots := by
  rw [run_eq] at hrun
  split at hrun
  · obtain ⟨⟨s, status⟩, hloop, rfl⟩ := Option.map_eq_some_iff.mp hrun
    have hpub := runLoop_published _ ⟨started_valid hv entry input, rfl, by simp [loopStart]⟩ hloop
    exact ⟨s, hpub, collect_chain s status⟩
  · cases hrun

end

/-- **Every published snapshot verifies against its own chain.** For every
valid memory, entry, input and configuration: if the run writes `snap-i.bin`
and its chain has an entry `i`, the bytes restore, and the restored machine
hashes to that entry over the entry before it. -/
theorem snapshots_verify (blake3 : List U8 → Hash) (cfg : Config) {mem : Mem} (hv : mem.Valid)
    (entry : U64) (input : List U8) {out : RunOutcome}
    (hrun : run blake3 cfg mem entry input = some out) {i : Nat} {bytes : List U8}
    (hsnap : (i, bytes) ∈ out.snapshots) (hi : i < out.chunkHashes.length) :
    ∃ m, restore bytes = .ok m ∧
      out.chunkHashes[i]? = some (stateHash blake3 (prevHash out.chunkHashes i) m) := by
  obtain ⟨s, hpub, ⟨rest, hchain⟩, hfiles⟩ := run_published hv hrun
  obtain ⟨m, hm, rfl, hentry⟩ := hpub.filed (i, bytes) (hfiles ▸ hsnap)
  obtain ⟨m', hrestore, hsame⟩ := restore_capture hm
  -- the run's chain is what the loop built, up to a popped exit hash
  rw [← hchain, List.getElem?_append_left hi, prevHash_append (Nat.le_of_lt hi)] at hentry
  exact ⟨m', hrestore, by rw [hsame.stateHash_eq, hentry]⟩

/-- `c.nop; c.ebreak` in chunks of one instruction: a snapshot of the boundary
and one of the exit, both of which verify. -/
theorem snapshots_verify_nop :
    ∃ out, run lengthHash { chunkSize := 1, snapshotDir := true }
        (image 0x1000 [0x01, 0x00, 0x02, 0x90]) 0x1000 [] = some out ∧
      out.snapshots.map Prod.fst = [0, 1] ∧ out.chunkHashes.length = 2 ∧
      ∀ p ∈ out.snapshots, ∃ m, restore p.2 = .ok m ∧
        out.chunkHashes[p.1]? = some (stateHash lengthHash (prevHash out.chunkHashes p.1) m) := by
  have hshape : (run lengthHash { chunkSize := 1, snapshotDir := true }
      (image 0x1000 [0x01, 0x00, 0x02, 0x90]) 0x1000 []).map
        (fun out => (out.snapshots.map Prod.fst, out.chunkHashes.length)) = some ([0, 1], 2) := by
    decide +kernel
  obtain ⟨out, hrun, hout⟩ := Option.map_eq_some_iff.mp hshape
  obtain ⟨hfiles, hlen⟩ := Prod.mk.inj hout
  refine ⟨out, hrun, hfiles, hlen, fun p hp => ?_⟩
  have hidx : p.1 ∈ [0, 1] := hfiles ▸ List.mem_map_of_mem hp
  have hlt : p.1 < 2 := by
    simp only [List.mem_cons, List.not_mem_nil, or_false] at hidx
    omega
  exact snapshots_verify lengthHash _ (Mem.write_valid Mem.new_valid _ _) _ _ hrun hp
    (hlen ▸ hlt)

end Provework.Rvcore
