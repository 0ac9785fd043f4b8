import Provework.Coordinator.Dispute
import Provework.Rvcore.Budget
import Provework.Rvcore.ChunkBound

/-!
# The two judges and the honest side

The replay judge computes the chain of `run`; the snapshot judge executes one
chunk from a state that hashes into the agreed prefix. Given that the messages
hashed do not collide, a snapshot that verifies is the true state
(`judgeBySnapshot_genuine`), so what the fast judge returns is a question about
the two execution loops. They agree on a plain chunk of the replay
(`Rvcore.chainStates_plain`) and can differ on the others:

- a trap inside the chunk that `run` hands to the guest's handler ends the
  straight execution;
- the instruction budget ends the replay inside the chunk;
- the snapshot is the exit state, or the halt before an oversized output, and
  there is no next hash.

So the fast judge is right on plain chunks (`judges_agree`), and the honest side of a
dispute that reaches such a chunk is named (`resolve_names_honest`). On a chunk that is
not plain the two loops may still meet in one state by chance: `cut_chunk_agrees`.
-/

namespace Provework.Coordinator

open Provework.Lib Provework.Rvcore Provework.Jobfmt

/-! ## The replay -/

/-- The machine a replay starts from. -/
def replayStart (elf : List U8) (entry : U64) (input : List U8) : Option Machine :=
  match Elf.parse elf with
  | .error _ => none
  | .ok image =>
    match Elf.load Mem.new image with
    | (.error _, _) => none
    | (.ok (), mem) => some (started mem entry input)

section

variable {blake3 : List U8 → Hash} {elf : List U8} {entry : U64} {input : List U8}
  {chunkSize maxInstructions : U64} {chain : List Hash} {start : Machine}

theorem replayStart_valid (h : replayStart elf entry input = some start) : start.mem.Valid := by
  unfold replayStart at h
  split at h
  · cases h
  next image himage =>
    have hv := Elf.load_valid Mem.new_valid image
    split at h
    · cases h
    next mem hload =>
      obtain rfl := Option.some.inj h
      rw [hload] at hv
      exact started_valid hv entry input

/-- The replay judge returns the chain over the states of its run. -/
theorem judgeByReplay_eq
    (h : judgeByReplay blake3 elf entry input chunkSize maxInstructions = some (some chain)) :
    ∃ start, replayStart elf entry input = some start ∧
      chain = chainFrom (stateHash blake3) genesis
        (chainStates (judgeConfig chunkSize maxInstructions) start) := by
  unfold judgeByReplay at h
  unfold replayStart
  generalize Elf.parse elf = parsed at h ⊢
  cases parsed with
  | error e => cases h
  | ok image =>
    dsimp only at h ⊢
    generalize Elf.load Mem.new image = loaded at h ⊢
    obtain ⟨e | _, mem⟩ := loaded
    · cases h
    dsimp only at h ⊢
    cases hrun : run blake3 (judgeConfig chunkSize maxInstructions) mem entry input with
    | none =>
      rw [hrun] at h
      cases h
    | some out =>
      rw [hrun] at h
      obtain rfl := Option.some.inj (Option.some.inj h)
      exact ⟨_, rfl, (run_spec _ _ mem entry input).1 out hrun⟩

/-- It does return it, if the input fits and no step panics. -/
theorem judgeByReplay_of_start (blake3 : List U8 → Hash)
    (hstart : replayStart elf entry input = some start)
    (hfit : inputDataAddr.toNat + input.length ≤ addrSpace)
    (hexit : (runExit (judgeConfig chunkSize maxInstructions) start).isSome) :
    judgeByReplay blake3 elf entry input chunkSize maxInstructions
      = some (some (chainFrom (stateHash blake3) genesis
          (chainStates (judgeConfig chunkSize maxInstructions) start))) := by
  unfold judgeByReplay
  unfold replayStart at hstart
  generalize Elf.parse elf = parsed at hstart ⊢
  cases parsed with
  | error e => cases hstart
  | ok image =>
    dsimp only at hstart ⊢
    generalize Elf.load Mem.new image = loaded at hstart ⊢
    obtain ⟨e | _, mem⟩ := loaded
    · cases hstart
    dsimp only at hstart ⊢
    obtain rfl := Option.some.inj hstart
    obtain ⟨hchain, hsome⟩ :=
      run_spec blake3 (judgeConfig chunkSize maxInstructions) mem entry input
    obtain ⟨out, hrun⟩ := Option.isSome_iff_exists.mp (hsome.mpr ⟨hfit, hexit⟩)
    simp only [hrun, hchain out hrun]

end

/-- **Chunking and snapshotting never influence the computation.** For every image,
entry, input and configuration, another chunk size (zero included) and another
snapshot directory leave the status, the count, the output, the syscall log and
the memory as they are; so the journal of a replay does not depend on the chunk
size of the manifest. -/
theorem journal_ignores_chunking (blake3 : List U8 → Hash) :
    (∀ (cfg : Config) (chunkSize : U64) (snapshotDir : Bool) (mem : Mem) (entry : U64)
      (input : List U8),
      (run blake3 { cfg with chunkSize, snapshotDir } mem entry input).map RunOutcome.computed
        = (run blake3 cfg mem entry input).map RunOutcome.computed) ∧
    ∀ (elf : List U8) (entry : U64) (input : List U8) (chunkSize chunkSize' maxInstructions : U64),
      replayJournal blake3 elf entry input chunkSize maxInstructions
        = replayJournal blake3 elf entry input chunkSize' maxInstructions := by
  refine ⟨run_computed blake3, ?_⟩
  intro elf entry input chunkSize chunkSize' maxInstructions
  unfold replayJournal
  cases Elf.parse elf with
  | error e => rfl
  | ok image =>
    dsimp only
    generalize Elf.load Mem.new image = loaded
    obtain ⟨e | _, mem⟩ := loaded
    · rfl
    have hsame : (run blake3 (judgeConfig chunkSize maxInstructions) mem entry input).map
        RunOutcome.computed
          = (run blake3 (judgeConfig chunkSize' maxInstructions) mem entry input).map
            RunOutcome.computed :=
      run_computed blake3 (judgeConfig chunkSize' maxInstructions) chunkSize false mem entry input
    dsimp only
    generalize run blake3 (judgeConfig chunkSize maxInstructions) mem entry input = r at hsame
    generalize run blake3 (judgeConfig chunkSize' maxInstructions) mem entry input = r' at hsame
    cases r with
    | none =>
      cases r' with
      | none => rfl
      | some out' => cases hsame
    | some out =>
      cases r' with
      | none => cases hsame
      | some out' =>
        have hcomputed := Option.some.inj hsame
        simp only [show out.instructions
          = out'.instructions from congrArg Computed.instructions hcomputed,
          show out.output = out'.output from congrArg Computed.output hcomputed]

/-! ## The snapshot -/

/-- The file at `i` restores to a machine that hashes like `s`. -/
def Genuine (dir : SnapshotDir) (i : Nat) (s : Machine) : Prop :=
  ∃ bytes m, dir i = some bytes ∧ restore bytes = .ok m ∧ m.SameHashed s

/-- The messages the fast judge hashes at divergence `i + 1`: the snapshot's,
against the hash before it, and those of the state its chunk ends in. -/
def judgeMessages (blake3 : List U8 → Hash) (dir : SnapshotDir) (i : Nat) (chain : List Hash)
    (chunkSize : U64) : Set (List U8) :=
  {msg | ∃ bytes m, dir i = some bytes ∧ restore bytes = .ok m ∧
    (msg ∈ hashedMessages blake3 (prevBoundary chain (i + 1)) m ∨
      ∃ s stop n, straight chunkSize m = some (s, stop, n) ∧
        msg ∈ hashedMessages blake3 (chain.getD i genesis) s)}

/-- The fast judge reads the first `k` entries of the chain it is given. -/
theorem judgeBySnapshot_congr {blake3 : List U8 → Hash} {dir : SnapshotDir} {k : Nat}
    {agreed chain : List Hash} {chunkSize : U64} (hk : k ≤ chain.length)
    (h : agreed.take k = chain.take k) :
    judgeBySnapshot blake3 dir k agreed chunkSize
      = judgeBySnapshot blake3 dir k chain chunkSize := by
  have hlen : k ≤ agreed.length := by
    have := congrArg List.length h
    simp only [List.length_take] at this
    omega
  -- it looks at the entries `k - 1` and `k - 2` only
  have hget : ∀ j < k, agreed.getD j genesis = chain.getD j genesis := by
    intro j hj
    have := congrArg (·[j]?) h
    simp only [List.getElem?_take_of_lt hj] at this
    rw [List.getD_eq_getElem?_getD, List.getD_eq_getElem?_getD, this]
  unfold judgeBySnapshot
  by_cases h0 : k = 0
  · simp only [h0, true_or, if_true]
  · have hprev : prevBoundary agreed k = prevBoundary chain k := by
      unfold prevBoundary
      split
      · rfl
      · rw [hget _ (by omega)]
    simp only [Nat.not_lt.mpr hlen, Nat.not_lt.mpr hk, hprev, hget (k - 1) (by omega)]

section

variable {blake3 : List U8 → Hash} {dir : SnapshotDir} {i : Nat} {s : Machine}
  {states : List Machine} {chunkSize : U64}

/-- The link of the chain at `i`, in the terms the judge uses. -/
theorem chain_link (blake3 : List U8 → Hash) (hs : states[i]? = some s) :
    (linkArgs (stateHash blake3) genesis states)[i]?
        = some (prevBoundary (chainFrom (stateHash blake3) genesis states) (i + 1), s) ∧
      (chainFrom (stateHash blake3) genesis states).getD i genesis
        = stateHash blake3 (prevBoundary (chainFrom (stateHash blake3) genesis states) (i + 1))
          s := by
  have hi : i < states.length := (List.getElem?_eq_some_iff.mp hs).1
  have hargs : (linkArgs (stateHash blake3) genesis states)[i]?
      = some (prevBoundary (chainFrom (stateHash blake3) genesis states) (i + 1), s) := by
    refine (linkArgs_eq_some _ _ _ _ _ _).mpr ⟨?_, hs⟩
    cases i with
    | zero => rfl
    | succ i =>
      have hlt : i < (chainFrom (stateHash blake3) genesis states).length := by
        rw [length_chainFrom]
        omega
      rw [List.getElem?_cons_succ, List.getElem?_eq_getElem hlt, prevBoundary,
        if_neg (by omega), show i + 1 + 1 - 2 = i by omega, List.getD_eq_getElem _ _ hlt]
  refine ⟨hargs, ?_⟩
  rw [List.getD_eq_getElem?_getD, getElem?_chainFrom, hargs]
  rfl

/-- A genuine snapshot verifies, and its chunk ends like the true state's. -/
theorem judgeBySnapshot_of_genuine (blake3 : List U8 → Hash) (chunkSize : U64)
    (hs : states[i]? = some s) (hv : s.mem.Valid) (hg : Genuine dir i s) :
    judgeBySnapshot blake3 dir (i + 1) (chainFrom (stateHash blake3) genesis states) chunkSize =
      match straight chunkSize s with
      | none => none
      | some (t, _, _) => some (some (stateHash blake3
          ((chainFrom (stateHash blake3) genesis states).getD i genesis) t)) := by
  obtain ⟨bytes, m, hdir, hrestore, hsame⟩ := hg
  have hlt : i < states.length := (List.getElem?_eq_some_iff.mp hs).1
  have hk : ¬(i + 1 = 0 ∨ (chainFrom (stateHash blake3) genesis states).length < i + 1) := by
    rw [length_chainFrom]
    omega
  have hhash := (chain_link blake3 hs).2.trans hsame.symm.stateHash_eq
  unfold judgeBySnapshot executeChunkFrom
  rw [if_neg hk, Nat.add_sub_cancel]
  simp only [hdir, hrestore, hhash, ne_eq, not_true_eq_false, if_false]
  -- the judge runs on from the restored machine, the claim is about `s`
  rcases straight_twin chunkSize hrestore hv hsame with ⟨hn, hn'⟩ | ⟨u, u', stop, n, hu, hu', htwin⟩
  · simp only [straight] at hn hn' ⊢
    simp only [hn, hn']
  · simp only [straight] at hu hu' ⊢
    simp only [hu, hu', htwin.stateHash_eq]

/-- A machine that hashes like a link of the chain is the one hashed there, if
its messages are among those the judge hashes. -/
theorem binds_link {prev : Hash} {m : Machine} {j : Nat} {a : Hash × Machine}
    (hinj : Set.InjOn blake3
      ({msg | ∃ a ∈ linkArgs (stateHash blake3) genesis states, msg ∈ hashedMessages blake3 a.1 a.2}
        ∪ judgeMessages blake3 dir i (chainFrom (stateHash blake3) genesis states) chunkSize))
    (hargs : (linkArgs (stateHash blake3) genesis states)[j]? = some a)
    (hmsgs : hashedMessages blake3 prev m
      ⊆ judgeMessages blake3 dir i (chainFrom (stateHash blake3) genesis states) chunkSize)
    (h : stateHash blake3 prev m = stateHash blake3 a.1 a.2) : m.SameHashed a.2 := by
  refine (stateHash_binds (hinj.mono ?_) h).2
  rw [Set.union_comm]
  exact Set.union_subset_union (fun msg hmsg => ⟨a, List.mem_of_getElem? hargs, hmsg⟩) hmsgs

/-- **A snapshot that verifies is the true state**, unless messages collide. -/
theorem judgeBySnapshot_genuine (hs : states[i]? = some s)
    (hinj : Set.InjOn blake3
      ({msg | ∃ a ∈ linkArgs (stateHash blake3) genesis states, msg ∈ hashedMessages blake3 a.1 a.2}
        ∪ judgeMessages blake3 dir i (chainFrom (stateHash blake3) genesis states) chunkSize))
    (h : judgeBySnapshot blake3 dir (i + 1) (chainFrom (stateHash blake3) genesis states) chunkSize
      ≠ some none) :
    Genuine dir i s := by
  obtain ⟨hargs, hhash⟩ := chain_link blake3 hs
  unfold judgeBySnapshot at h
  rw [Nat.add_sub_cancel] at h
  split at h
  · exact absurd rfl h
  · split at h
    · exact absurd rfl h
    next bytes hdir =>
      split at h
      · exact absurd rfl h
      next m hrestore =>
        split at h
        · exact absurd rfl h
        next hne =>
          -- the check passed: the restored machine hashes like the link at `i`
          exact ⟨bytes, m, hdir, hrestore, binds_link hinj hargs
            (fun msg hmsg => ⟨bytes, m, hdir, hrestore, Or.inl hmsg⟩)
            ((not_not.mp hne).trans hhash)⟩

/-- With a genuine snapshot, the hash of the state its chunk ends in is the
chain's next entry exactly when that state is the next one hashed. -/
theorem getElem?_chain_iff (hv : s.mem.Valid) (hg : Genuine dir i s)
    (hinj : Set.InjOn blake3
      ({msg | ∃ a ∈ linkArgs (stateHash blake3) genesis states, msg ∈ hashedMessages blake3 a.1 a.2}
        ∪ judgeMessages blake3 dir i (chainFrom (stateHash blake3) genesis states) chunkSize))
    {t : Machine} {stop : ChunkEnd} {n : U64} (hstop : straight chunkSize s = some (t, stop, n)) :
    (chainFrom (stateHash blake3) genesis states)[i + 1]? = some (stateHash blake3
        ((chainFrom (stateHash blake3) genesis states).getD i genesis) t) ↔
      ∃ u, states[i + 1]? = some u ∧ t.SameHashed u := by
  have hentry : ∀ u, states[i + 1]? = some u →
      (linkArgs (stateHash blake3) genesis states)[i + 1]?
        = some ((chainFrom (stateHash blake3) genesis states).getD i genesis, u) := by
    intro u hu
    have := (chain_link blake3 hu).1
    rwa [prevBoundary, if_neg (by omega), show i + 1 + 1 - 2 = i by omega] at this
  constructor
  · intro h
    have hlt : i + 1 < states.length := by
      have := (List.getElem?_eq_some_iff.mp h).1
      rwa [length_chainFrom] at this
    refine ⟨states[i + 1], List.getElem?_eq_getElem hlt, ?_⟩
    have hargs := hentry _ (List.getElem?_eq_getElem hlt)
    rw [getElem?_chainFrom, hargs] at h
    obtain ⟨bytes, m, hdir, hrestore, hsame⟩ := hg
    rcases straight_twin chunkSize hrestore hv hsame with
      ⟨-, hn⟩ | ⟨v, v', stop', n', hv₁, hv₂, htwin⟩
    · rw [hn] at hstop
      cases hstop
    · rw [hv₂, Option.some.injEq, Prod.mk.injEq] at hstop
      obtain ⟨rfl, -⟩ := hstop
      refine binds_link hinj hargs ?_ (Option.some.inj h).symm
      -- the judge hashed the end of the restored machine's chunk, a twin of `v'`
      intro msg hmsg
      rw [← htwin.hashedMessages_eq] at hmsg
      exact ⟨bytes, m, hdir, hrestore, Or.inr ⟨v, stop', n', hv₁, hmsg⟩⟩
  · rintro ⟨u, hu, hsame⟩
    rw [getElem?_chainFrom, hentry u hu, hsame.stateHash_eq]
    rfl

/-- The fast judge gives nothing but the chain's next entry exactly when the
snapshot is not the true state, or the true state's chunk, executed straight,
ends in the state hashed next. -/
theorem judgeBySnapshot_right_iff (hvalid : ∀ s ∈ states, s.mem.Valid) (hi : i < states.length)
    (hinj : Set.InjOn blake3
      ({msg | ∃ a ∈ linkArgs (stateHash blake3) genesis states, msg ∈ hashedMessages blake3 a.1 a.2}
        ∪ judgeMessages blake3 dir i (chainFrom (stateHash blake3) genesis states) chunkSize)) :
    (∀ h, judgeBySnapshot blake3 dir (i + 1) (chainFrom (stateHash blake3) genesis states) chunkSize
        = some (some h) → (chainFrom (stateHash blake3) genesis states)[i + 1]? = some h) ↔
    ∀ s t stop n, states[i]? = some s → Genuine dir i s → straight chunkSize s = some (t, stop, n) →
      ∃ u, states[i + 1]? = some u ∧ t.SameHashed u := by
  constructor
  · intro hjudge s t stop n hs hg hstop
    have hvs := hvalid s (List.mem_of_getElem? hs)
    refine (getElem?_chain_iff hvs hg hinj hstop).mp (hjudge _ ?_)
    rw [judgeBySnapshot_of_genuine _ _ hs hvs hg, hstop]
  · intro hplain h hh
    have hs := List.getElem?_eq_getElem hi
    have hvs := hvalid _ (List.mem_of_getElem? hs)
    -- an answer was given, so the snapshot verified, so it is genuine
    have hg := judgeBySnapshot_genuine hs hinj (by rw [hh]; simp)
    rw [judgeBySnapshot_of_genuine _ _ hs hvs hg] at hh
    split at hh
    · cases hh
    next t stop n hstop =>
      have hnext := (getElem?_chain_iff hvs hg hinj hstop).mpr (hplain _ t stop n hs hg hstop)
      rwa [Option.some.inj (Option.some.inj hh)] at hnext

end

/-! ## The fast judge against the slow one -/

/-- However the straight execution of a plain chunk ends, it ends where the replay does. -/
theorem ends_of_plain {chunkSize maxInstructions n : U64} {start s t : Machine} {stop : ChunkEnd}
    {i : Nat} (h : PlainChunk (judgeConfig chunkSize maxInstructions) start i)
    (hs : (chainStates (judgeConfig chunkSize maxInstructions) start)[i]? = some s)
    (hstop : straight chunkSize s = some (t, stop, n)) :
    ∃ u, (chainStates (judgeConfig chunkSize maxInstructions) start)[i + 1]? = some u ∧
    t.SameHashed u := by
  obtain ⟨u, stop', n', hstop', hnext⟩ := chainStates_plain h hs
  rw [hstop, Option.some.injEq, Prod.mk.injEq] at hstop'
  exact ⟨u, hnext, hstop'.1 ▸ Machine.SameHashed.refl t⟩

/-- **The two judges.** Let `chain` be the replay's, `agreed` agree with it on
its first `i + 1` entries, and let the messages hashed not collide. Whatever is
stored as the snapshot of boundary `i`: if the replay's chunk there is plain, should the
snapshot be of the true state, the fast judge returns nothing but the replay's entry
`i + 1`; and from a snapshot of the true state it does return it. -/
theorem judges_agree (blake3 : List U8 → Hash) (elf : List U8) (entry : U64) (input : List U8)
    (chunkSize maxInstructions : U64) (chain : List Hash)
    (hchain : judgeByReplay blake3 elf entry input chunkSize maxInstructions = some (some chain))
    (start : Machine) (hstart : replayStart elf entry input = some start)
    (i : Nat) (hi : i + 1 ≤ chain.length) (agreed : List Hash)
    (hagreed : agreed.take (i + 1) = chain.take (i + 1)) (dir : SnapshotDir)
    (hinj : Set.InjOn blake3 (chainMessages blake3 (judgeConfig chunkSize maxInstructions) start
      ∪ judgeMessages blake3 dir i chain chunkSize))
    (hplain : ∀ s, (chainStates (judgeConfig chunkSize maxInstructions) start)[i]? = some s →
      Genuine dir i s → PlainChunk (judgeConfig chunkSize maxInstructions) start i) :
    (∀ h, judgeBySnapshot blake3 dir (i + 1) agreed chunkSize = some (some h) →
      i + 1 < chain.length ∧ chain[i + 1]? = some h) ∧
    ∀ s, (chainStates (judgeConfig chunkSize maxInstructions) start)[i]? = some s →
    Genuine dir i s →
      ∃ h, judgeBySnapshot blake3 dir (i + 1) agreed chunkSize = some (some h) := by
  obtain ⟨start', hstart', rfl⟩ := judgeByReplay_eq hchain
  have hv := replayStart_valid hstart'
  obtain rfl : start' = start := Option.some.inj (hstart'.symm.trans hstart)
  rw [judgeBySnapshot_congr hi hagreed]
  rw [length_chainFrom] at hi
  constructor
  · intro h hh
    have hnext := (judgeBySnapshot_right_iff (fun s hs => chainStates_valid hv hs) hi hinj).mpr
      (fun s t stop n hs hg hstop => ends_of_plain (hplain s hs hg) hs hstop) h hh
    exact ⟨(List.getElem?_eq_some_iff.mp hnext).1, hnext⟩
  · intro s hs hg
    obtain ⟨t, stop, n, hstop, -⟩ := chainStates_plain (hplain s hs hg) hs
    have hjudge := judgeBySnapshot_of_genuine blake3 chunkSize hs
      (chainStates_valid hv (List.mem_of_getElem? hs)) hg
    rw [hstop] at hjudge
    exact ⟨_, hjudge⟩

/-- A static RISC-V executable with one segment, `code` at `0x80000000`. -/
def tinyElf (code : List U8) : List U8 :=
  [0x7f, 0x45, 0x4c, 0x46, 2, 1, 1] ++ List.replicate 9 0
    ++ leBytes 2 2 ++ leBytes 2 243 ++ leBytes 4 1 ++ leBytes 8 0x80000000 ++ leBytes 8 64
    ++ leBytes 8 0 ++ leBytes 4 0 ++ leBytes 2 64 ++ leBytes 2 56 ++ leBytes 2 1
    ++ List.replicate 6 0
    ++ leBytes 4 1 ++ leBytes 4 5 ++ leBytes 8 120 ++ leBytes 8 0x80000000 ++ leBytes 8 0x80000000
    ++ leBytes 8 code.length ++ leBytes 8 code.length ++ leBytes 8 4096 ++ code

/-- `c.nop; c.nop; c.swsp x0, 0(sp); c.ebreak`: the store allocates a page. -/
def storeElf : List U8 := tinyElf [0x01, 0x00, 0x01, 0x00, 0x02, 0xc0, 0x02, 0x90]

/-- The replay of `storeElf` in chunks of two: a boundary and an exit, whose
memory roots the toy hasher tells apart, and a plain chunk between them. -/
theorem storeElf_replay : ∃ start s t, replayStart storeElf 0x80000000 [] = some start ∧
    (runExit (judgeConfig 2 10) start).isSome ∧
    chainStates (judgeConfig 2 10) start = [s, t] ∧ PlainChunk (judgeConfig 2 10) start 0 ∧
    (∃ n, straight 2 s = some (t, .halted, n)) ∧
    toyHash s.mem.rootMessage = (fun _ => 8) ∧ toyHash t.mem.rootMessage = fun _ => 12 := by
  have hfacts : (replayStart storeElf 0x80000000 []).map (fun start =>
      ((runExit (judgeConfig 2 10) start).map Prod.snd,
        (chainStates (judgeConfig 2 10) start).map fun m =>
          (m.mem.allocatedPages, m.mem.rootMessage.headD 0, (straight 2 m).map (·.2.1))))
      = some (some .halted, [(2, 0, some .halted), (3, 0, some .halted)]) := by decide +kernel
  have hturns : (replayStart storeElf 0x80000000 []).map (fun start =>
      (chainStates (judgeConfig 2 10) start).map fun m =>
        (steps (turn (judgeConfig 2 10)) 2 m).map Prod.snd) = some [[false], []] := by
          decide +kernel
  -- so: how the replay exits, and of each hashed state its pages, its straight chunk and its turns
  obtain ⟨start, hstart, hfacts⟩ := Option.map_eq_some_iff.mp hfacts
  rw [hstart, Option.map_some, Option.some.injEq] at hturns
  obtain ⟨hexit, hstates⟩ := Prod.mk.inj hfacts
  obtain ⟨s, t, hst⟩ := List.length_eq_two.mp ((List.length_map _).symm.trans
    (congrArg List.length hstates))
  simp only [hst, List.map_cons, List.map_nil, List.cons.injEq, Prod.mk.injEq, and_true]
    at hstates
  obtain ⟨⟨hps, hhs, hstop⟩, hpt, hht, -⟩ := hstates
  rw [hst] at hturns
  have hroot : ∀ {m : Machine} {n : Nat}, m.mem.allocatedPages = n →
      m.mem.rootMessage.headD 0 = 0 →
      toyHash m.mem.rootMessage = fun _ => BitVec.ofNat 8 (4100 * n) := by
    intro m n hp hh
    funext _
    rw [toyHash, length_rootMessage, hp, hh]
    rfl
  have hplain : PlainChunk (judgeConfig 2 10) start 0 := by
    refine ⟨by
      rw [hst]; exact Nat.lt_succ_self 1, fun m hm => by rw [hm] at hexit; simp at hexit, ?_⟩
    intro s' hs' p hp
    rw [hst] at hs'
    obtain rfl : s = s' := Option.some.inj hs'
    have hmem : p.2 ∈ (steps (turn (judgeConfig 2 10)) 2 s).map Prod.snd := List.mem_map_of_mem hp
    rw [show (steps (turn (judgeConfig 2 10)) 2 s).map Prod.snd = [false] from
      List.head_eq_of_cons_eq hturns] at hmem
    exact List.mem_singleton.mp hmem
  obtain ⟨⟨u, stop, n⟩, hu, rfl⟩ := Option.map_eq_some_iff.mp hstop
  obtain ⟨u', stop', n', hu', hnext⟩ := chainStates_plain (s := s) hplain (by rw [hst]; rfl)
  rw [hst] at hnext
  obtain rfl : t = u' := Option.some.inj hnext
  rw [hu, Option.some.injEq, Prod.mk.injEq] at hu'
  obtain ⟨rfl, -⟩ := hu'
  exact ⟨start, s, u, hstart, by rw [← Option.isSome_map, hexit]; rfl, hst, hplain, ⟨n, hu⟩,
    hroot hps hhs, hroot hpt hht⟩

/-- At a file that holds the capture of a state the judge hashes what that state
and the end of its chunk hash. -/
theorem judgeMessages_capture {blake3 : List U8 → Hash} (dir : SnapshotDir) {i : Nat}
    {chain : List Hash} {chunkSize n : U64} {stop : ChunkEnd} {s t : Machine}
    (hdir : dir i = some (capture s)) (hv : s.mem.Valid)
    (hstop : straight chunkSize s = some (t, stop, n)) :
    judgeMessages blake3 dir i chain chunkSize ⊆
      hashedMessages blake3 (prevBoundary chain (i + 1)) s ∪
        hashedMessages blake3 (chain.getD i genesis) t := by
  rintro msg ⟨bytes, m, hbytes, hrestore, hmsg⟩
  obtain rfl := Option.some.inj (hbytes.symm.trans hdir)
  obtain ⟨m', hm', hsame⟩ := restore_capture hv
  obtain rfl := Except.ok.inj (hrestore.symm.trans hm')
  rcases hmsg with hmsg | ⟨u, stop, k, hu, hmsg⟩
  · rw [hsame.hashedMessages_eq] at hmsg
    exact Or.inl hmsg
  · rcases straight_twin chunkSize hrestore hv hsame with
      ⟨hnone, -⟩ | ⟨v, v', stop', k', hv₁, hv₂, htwin⟩
    · rw [hnone] at hu
      cases hu
    · rw [hv₁, Option.some.injEq, Prod.mk.injEq] at hu
      rw [hv₂, Option.some.injEq, Prod.mk.injEq] at hstop
      rw [← hu.1, htwin.hashedMessages_eq, hstop.1] at hmsg
      exact Or.inr hmsg

/-- What is hashed in a dispute over that replay, with a snapshot of the
boundary at hand: four messages, told apart by the toy hasher. -/
theorem storeElf_injOn {start s t : Machine} {n : U64} (hv : s.mem.Valid)
    (hst : chainStates (judgeConfig 2 10) start = [s, t])
    (hstop : straight 2 s = some (t, .halted, n))
    (hs : toyHash s.mem.rootMessage = fun _ => 8) (ht : toyHash t.mem.rootMessage = fun _ => 12) :
    Set.InjOn toyHash (chainMessages toyHash (judgeConfig 2 10) start
      ∪ judgeMessages toyHash (fun _ => some (capture s)) 0
          (chainFrom (stateHash toyHash) genesis [s, t]) 2) := by
  have h₁ : stateHash toyHash genesis s = fun _ => 104 := stateHash_toyHash genesis s
  -- the judge hashes nothing the chain did not: its snapshot is `s`, its chunk ends in `t`
  have hsub : chainMessages toyHash (judgeConfig 2 10) start
      ∪ judgeMessages toyHash (fun _ => some (capture s)) 0
          (chainFrom (stateHash toyHash) genesis [s, t]) 2
      ⊆ hashedMessages toyHash genesis s ∪ hashedMessages toyHash (fun _ => 104) t := by
    rintro msg (hchain | hjudge)
    · exact h₁ ▸ chainMessages_pair toyHash hst hchain
    · rcases judgeMessages_capture (fun _ => some (capture s)) rfl hv hstop hjudge with hmsg | hmsg
      · exact Or.inl hmsg
      · exact Or.inr (h₁ ▸ hmsg)
  have himages : [s.mem.rootMessage, stateMessage toyHash genesis s, t.mem.rootMessage,
      stateMessage toyHash (fun _ => 104) t].map toyHash
      = [fun _ => 8, fun _ => 104, fun _ => 12, fun _ => 208] := by
    simp only [List.map_cons, List.map_nil, hs, ht]
    rw [show toyHash (stateMessage toyHash genesis s) = _ from stateHash_toyHash genesis s,
      show toyHash (stateMessage toyHash (fun _ => 104) t) = _ from stateHash_toyHash _ t]
    rfl
  have hnodup : ([s.mem.rootMessage, stateMessage toyHash genesis s, t.mem.rootMessage,
      stateMessage toyHash (fun _ => 104) t].map toyHash).Nodup := by
    rw [himages]
    decide
  have hinj := List.inj_on_of_nodup_map hnodup
  intro x hx y hy hxy
  refine hinj ?_ ?_ hxy
  · rcases hsub hx with (rfl | rfl) | (rfl | rfl) <;> simp
  · rcases hsub hy with (rfl | rfl) | (rfl | rfl) <;> simp

/-- With a genuine snapshot and a plain chunk both judges give the exit hash. -/
theorem judges_agree_storeElf : ∃ bytes chain h,
    judgeByReplay toyHash storeElf 0x80000000 [] 2 10 = some (some chain) ∧
      judgeBySnapshot toyHash (fun _ => some bytes) 1 chain 2 = some (some h) ∧
      chain[1]? = some h := by
  obtain ⟨start, s, t, hstart, hexit, hst, hplain, ⟨n, hstop⟩, hs, ht⟩ := storeElf_replay
  have hreplay := judgeByReplay_of_start toyHash hstart (by decide) hexit
  have hv : s.mem.Valid := chainStates_valid (replayStart_valid hstart) (by rw [hst]; simp)
  obtain ⟨m, hm, hsame⟩ := restore_capture hv
  have hg : Genuine (fun _ => some (capture s)) 0 s := ⟨capture s, m, rfl, hm, hsame⟩
  have hinj := storeElf_injOn hv hst hstop hs ht
  rw [← hst] at hinj
  obtain ⟨hright, hanswers⟩ :=
    judges_agree toyHash storeElf 0x80000000 [] 2 10 _ hreplay start hstart 0
    (by rw [length_chainFrom, hst]; exact Nat.le_succ 1) _ rfl (fun _ => some (capture s)) hinj
    (fun _ _ _ => hplain)
  obtain ⟨h, hh⟩ := hanswers s (by rw [hst]; rfl) hg
  exact ⟨capture s, _, h, hreplay, hh, (hright h hh).2⟩

/-- Whatever the hasher: `c.ebreak` alone has a chain of one entry. A snapshot
of the exit state verifies against it, and the fast judge runs the program on
past its end to a hash the replay does not have. -/
theorem past_exit (blake3 : List U8 → Hash) : ∃ bytes chain h,
    judgeByReplay blake3 (tinyElf [0x02, 0x90]) 0x80000000 [] 1 10 = some (some chain) ∧
      judgeBySnapshot blake3 (fun _ => some bytes) 1 chain 1 = some (some h) ∧
      chain.length = 1 := by
  have hfacts : (replayStart (tinyElf [0x02, 0x90]) 0x80000000 []).map (fun start =>
      ((runExit (judgeConfig 1 10) start).isSome,
        (chainStates (judgeConfig 1 10) start).map fun m => (straight 1 m).isSome))
      = some (true, [true]) := by decide +kernel
  obtain ⟨start, hstart, hfacts⟩ := Option.map_eq_some_iff.mp hfacts
  obtain ⟨hexit, hstates⟩ := Prod.mk.inj hfacts
  obtain ⟨s, hst⟩ := List.length_eq_one_iff.mp ((List.length_map _).symm.trans
    (congrArg List.length hstates))
  rw [hst] at hstates
  obtain ⟨⟨t, stop, n⟩, hstop⟩ := Option.isSome_iff_exists.mp (List.head_eq_of_cons_eq hstates)
  have hv : s.mem.Valid := chainStates_valid (replayStart_valid hstart) (by rw [hst]; simp)
  obtain ⟨m, hm, hsame⟩ := restore_capture hv
  have hg : Genuine (fun _ => some (capture s)) 0 s := ⟨capture s, m, rfl, hm, hsame⟩
  have hs0 : [s][0]? = some s := rfl
  have hjudge := judgeBySnapshot_of_genuine blake3 1 hs0 hv hg
  rw [hstop] at hjudge
  have hreplay := judgeByReplay_of_start blake3 hstart (by decide) hexit
  rw [hst] at hreplay
  exact ⟨capture s, _, _, hreplay, hjudge, length_chainFrom _ _ _⟩

theorem judges_disagree_past_exit : ∃ bytes chain h,
    judgeByReplay toyHash (tinyElf [0x02, 0x90]) 0x80000000 [] 1 10 = some (some chain) ∧
      judgeBySnapshot toyHash (fun _ => some bytes) 1 chain 1 = some (some h) ∧
      chain.length = 1 :=
  past_exit toyHash

/-- Being plain is not necessary: `jal x0, 0` leaves the state as it is, so a chunk that
the budget cuts short ends in the state the whole chunk ends in. -/
theorem cut_chunk_agrees : ∃ start s t u stop n,
    replayStart (tinyElf [0x6f, 0, 0, 0]) 0x80000000 [] = some start ∧
      chainStates (judgeConfig 2 3) start = [s, t] ∧ ¬PlainChunk (judgeConfig 2 3) start 0 ∧
      straight 2 s = some (u, stop, n) ∧ u.SameHashed t := by
  have hfacts : (replayStart (tinyElf [0x6f, 0, 0, 0]) 0x80000000 []).map (fun start =>
      ((runExit (judgeConfig 2 3) start).map Prod.snd, (chainStates (judgeConfig 2 3) start).length,
        start.cpu.pc, start.mem.pages.bytes 0x80000000 4))
      = some (some .instructionLimit, 2, 0x80000000, [0x6f, 0, 0, 0]) := by decide +kernel
  obtain ⟨start, hstart, hfacts⟩ := Option.map_eq_some_iff.mp hfacts
  simp only [Prod.mk.injEq] at hfacts
  obtain ⟨hexit, hlen, hpc, hcode⟩ := hfacts
  have hspins : Spins start := by
    refine ⟨replayStart_valid hstart, by rw [hpc]; decide, by rw [hpc]; decide, ?_⟩
    rw [hpc]
    exact hcode
  -- no turn changes the state
  have hturn : ∀ m, Spins m ∧ m.arch = start.arch →
      (turn (judgeConfig 2 3) m).Leaves fun m => Spins m ∧ m.arch = start.arch := by
    rintro m ⟨hm, harch⟩
    obtain ⟨m', hstep, hm', harch'⟩ := hm.step
    rw [turn_judgeConfig, hstep]
    exact ⟨hm', harch'.trans harch⟩
  have hall := sampled_inv (c := 2) hturn 3 0 ⟨hspins, rfl⟩
  obtain ⟨s, t, hst⟩ := List.length_eq_two.mp hlen
  obtain ⟨⟨m, -⟩, hm, rfl⟩ := Option.map_eq_some_iff.mp hexit
  have hsampled : sampled (turn (judgeConfig 2 3)) 2 3 0 start = [s, t] :=
    (chainStates_limit hm).symm.trans hst
  rw [hsampled] at hall
  obtain ⟨hs, hsarch⟩ := hall s (by simp)
  obtain ⟨-, htarch⟩ := hall t (by simp)
  obtain ⟨v, hsv, hv, hvarch⟩ := hs.step
  obtain ⟨u, hvu, -, huarch⟩ := hv.step
  refine ⟨start, s, t, u, .boundary, 2, hstart, hst, fun h => ?_, ?_, ?_⟩
  · have huncut := h.uncut m hm
    rw [hst] at huncut
    exact Nat.lt_irrefl _ huncut
  · rw [straight, show chunkSteps 2 = 0 + 1 + 1 from rfl, chunkLoop, hsv]
    show chunkLoop (0 + 1) v _ = _
    rw [chunkLoop, hvu]
    rfl
  · exact sameHashed_of_arch (((huarch.trans hvarch).trans hsarch).trans htarch.symm)

/-! ## The verdict -/

/-- The two sides of a dispute. -/
inductive Side where
  | claim
  | counter

namespace Side

def other : Side → Side
  | claim => counter
  | counter => claim

/-- The verdict that names this side honest. -/
def honest : Side → Nat → Verdict
  | claim => .claimHonest
  | counter => .counterHonest

/-- What this side submitted. -/
def result (inp : DisputeInput) : Side → WorkerResult
  | claim => inp.claim
  | counter => inp.counter

/-- `(a, b)` for a side that committed to `mine` against `theirs`. -/
def chains (mine theirs : List Hash) : Side → List Hash × List Hash
  | claim => (mine, theirs)
  | counter => (theirs, mine)

end Side

/-- At a divergence, the side whose entry is the truth is named, and only then. -/
theorem verdict_honest_iff (side : Side) {mine theirs : List Hash} {k : Nat}
    (hne : mine[k]? ≠ theirs[k]?) (truth : Option Hash) :
    verdictWithTruth (side.chains mine theirs).1 (side.chains mine theirs).2 k truth
      = side.honest k ↔ truth ≠ none ∧ mine[k]? = truth := by
  cases truth with
  | none => cases side <;> simp [verdictWithTruth, Side.honest]
  | some t =>
    by_cases hm : mine[k]? = some t
    · have ht : theirs[k]? ≠ some t := fun h => hne (hm.trans h.symm)
      cases side <;> simp [verdictWithTruth, Side.chains, Side.honest, hm, ht]
    · by_cases ht : theirs[k]? = some t
      · cases side <;> simp [verdictWithTruth, Side.chains, Side.honest, hm, ht]
      · cases side <;> simp [verdictWithTruth, Side.chains, Side.honest, hm, ht]

/-- The snapshot directory, an absent one being empty. -/
def DisputeInput.dir (inp : DisputeInput) : SnapshotDir := inp.snapshotDir.getD fun _ => none

section

variable {blake3 : List U8 → Hash} {inp : DisputeInput} {side : Side} {chain other : List Hash}

/-- The judge: the fast one's hash, or the replay's entry. -/
theorem judge_eq (blake3 : List U8 → Hash) (inp : DisputeInput)
    (hchain : judgeByReplay blake3 inp.elf inp.entry inp.input inp.chunkSize inp.maxInstructions
      = some (some chain)) (a : List Hash) (k : Nat) :
    judge blake3 inp a k =
      match judgeBySnapshot blake3 inp.dir k a inp.chunkSize with
      | none => none
      | some (some t) => some (some t)
      | some none => some chain[k]? := by
  have hempty : judgeBySnapshot blake3 (fun _ => none) k a inp.chunkSize = some none := by
    unfold judgeBySnapshot
    split <;> rfl
  unfold judge DisputeInput.dir
  cases hd : inp.snapshotDir with
  | none =>
    simp only [Option.getD_none, hempty, hchain]
    rfl
  | some dir =>
    simp only [Option.getD_some, hchain]
    split <;> simp_all

/-- A dispute between two chains that decode, one of them the replay's. -/
theorem resolve_eq (blake3 : List U8 → Hash) (inp : DisputeInput) (side : Side)
    (hmine : decodeChain (side.result inp).chunkHashes = some (.ok chain))
    (hother : decodeChain (side.other.result inp).chunkHashes = some (.ok other))
    (hne : other ≠ chain) :
    resolve blake3 inp =
      (judge blake3 inp (side.chains chain other).1 (commonLength chain other)).map
        (verdictWithTruth (side.chains chain other).1 (side.chains chain other).2
          (commonLength chain other)) := by
  unfold resolve
  cases side with
  | claim =>
    simp only [Side.result, Side.other] at hmine hother
    simp only [hmine, hother, if_neg hne.symm, firstDivergence_eq hne.symm, Side.chains]
    cases judge blake3 inp chain (commonLength chain other) <;> rfl
  | counter =>
    simp only [Side.result, Side.other] at hmine hother
    simp only [hmine, hother, if_neg hne, firstDivergence_eq hne, Side.chains,
      commonLength_comm other chain]
    cases judge blake3 inp other (commonLength chain other) <;> rfl

end

/-- The verdict names the honest side when the judge's hash is the replay's
entry at the divergence. -/
theorem resolve_honest (blake3 : List U8 → Hash) {inp : DisputeInput} {side : Side}
    {chain other : List Hash}
    (hchain : judgeByReplay blake3 inp.elf inp.entry inp.input inp.chunkSize inp.maxInstructions
      = some (some chain))
    (hmine : decodeChain (side.result inp).chunkHashes = some (.ok chain))
    (hother : decodeChain (side.other.result inp).chunkHashes = some (.ok other))
    (hne : other ≠ chain) {k : Nat} (hk : commonLength chain other = k) :
    resolve blake3 inp = some (side.honest k) ↔
      match judgeBySnapshot blake3 inp.dir k chain inp.chunkSize with
      | none => False
      | some (some t) => chain[k]? = some t
      | some none => k < chain.length := by
  -- the judge is handed the claim's chain, whichever side is honest
  have hfirst : (side.chains chain other).1.take k = chain.take k := by
    cases side with
    | claim => rfl
    | counter => exact hk ▸ (take_commonLength chain other).symm
  have hdiv : chain[k]? ≠ other[k]? := hk ▸ getElem?_commonLength hne.symm
  rw [resolve_eq blake3 inp side hmine hother hne, hk, judge_eq blake3 inp hchain,
    judgeBySnapshot_congr (hk ▸ commonLength_le chain other) hfirst]
  match judgeBySnapshot blake3 inp.dir k chain inp.chunkSize with
  | none => simp
  | some (some t) =>
    simp only [Option.map_some, Option.some.injEq, verdict_honest_iff side hdiv]
    simp
  | some none =>
    simp only [Option.map_some, Option.some.injEq, verdict_honest_iff side hdiv]
    simp

/-- The honest side is named, at the length `k` of the common prefix, exactly when the
replay has an entry at `k` and, should the directory hold the true state of the boundary
before `k`, the straight execution from there ends where the replay does. -/
theorem resolve_honest_iff (blake3 : List U8 → Hash) (inp : DisputeInput) (side : Side)
    (chain other : List Hash)
    (hchain : judgeByReplay blake3 inp.elf inp.entry inp.input inp.chunkSize inp.maxInstructions
      = some (some chain))
    (start : Machine) (hstart : replayStart inp.elf inp.entry inp.input = some start)
    (hmine : decodeChain (side.result inp).chunkHashes = some (.ok chain))
    (hother : decodeChain (side.other.result inp).chunkHashes = some (.ok other))
    (hne : other ≠ chain)
    (hinj : ∀ i, commonLength chain other = i + 1 → Set.InjOn blake3
      (chainMessages blake3 (judgeConfig inp.chunkSize inp.maxInstructions) start
        ∪ judgeMessages blake3 inp.dir i chain inp.chunkSize)) :
    resolve blake3 inp = some (side.honest (commonLength chain other)) ↔
      commonLength chain other < chain.length ∧
      ∀ i s, commonLength chain other = i + 1 →
        (chainStates (judgeConfig inp.chunkSize inp.maxInstructions) start)[i]? = some s →
        Genuine inp.dir i s →
        ∃ t stop n u, straight inp.chunkSize s = some (t, stop, n) ∧
          (chainStates (judgeConfig inp.chunkSize inp.maxInstructions) start)[i + 1]? = some u ∧
          t.SameHashed u := by
  obtain ⟨start', hstart', rfl⟩ := judgeByReplay_eq hchain
  have hv := replayStart_valid hstart'
  obtain rfl : start' = start := Option.some.inj (hstart'.symm.trans hstart)
  cases hk : commonLength (chainFrom (stateHash blake3) genesis
      (chainStates (judgeConfig inp.chunkSize inp.maxInstructions) start')) other with
  | zero =>
    -- no boundary lies before the divergence: only the replay can judge
    rw [resolve_honest blake3 hchain hmine hother hne hk]
    simp [judgeBySnapshot]
  | succ i =>
    have hinj := hinj i hk
    have hle := hk ▸ commonLength_le _ other
    rw [length_chainFrom] at hle
    have hs := List.getElem?_eq_getElem hle
    have hvs := chainStates_valid hv (List.mem_of_getElem? hs)
    rw [resolve_honest blake3 hchain hmine hother hne hk]
    by_cases hg : Genuine inp.dir i
        (chainStates (judgeConfig inp.chunkSize inp.maxInstructions) start')[i]
    · rw [judgeBySnapshot_of_genuine _ _ hs hvs hg]
      match hstop : straight inp.chunkSize
          (chainStates (judgeConfig inp.chunkSize inp.maxInstructions) start')[i] with
      | none =>
        -- the chunk panics the host, and with it the judge
        refine iff_of_false id ?_
        rintro ⟨-, h⟩
        obtain ⟨t, stop, n, u, ht, -⟩ := h i _ rfl hs hg
        rw [hstop] at ht
        cases ht
      | some (t, stop, n) =>
        simp only [getElem?_chain_iff hvs hg hinj hstop]
        constructor
        · rintro ⟨u, hu, hsame⟩
          refine ⟨?_, fun j s hj hsj _ => ?_⟩
          · rw [length_chainFrom]
            exact (List.getElem?_eq_some_iff.mp hu).1
          · obtain rfl : i = j := by omega
            obtain rfl := Option.some.inj (hs.symm.trans hsj)
            exact ⟨t, stop, n, u, hstop, hu, hsame⟩
        · rintro ⟨-, h⟩
          obtain ⟨t', stop', n', u, ht, hu, hsame⟩ := h i _ rfl hs hg
          rw [hstop, Option.some.injEq, Prod.mk.injEq] at ht
          obtain ⟨rfl, -⟩ := ht
          exact ⟨u, hu, hsame⟩
    · -- what is not genuine does not verify, and the replay judges
      have hnone : judgeBySnapshot blake3 inp.dir (i + 1) _ inp.chunkSize = some none :=
        not_not.mp fun h => hg (judgeBySnapshot_genuine hs hinj h)
      rw [hnone]
      refine ⟨fun hlt => ⟨hlt, fun j s hj hsj hgj => ?_⟩, fun h => h.1⟩
      obtain rfl : i = j := by omega
      obtain rfl := Option.some.inj (hs.symm.trans hsj)
      exact absurd hgj hg

/-- **The honest side of a dispute.** Let one side's hex decode to the replay's
chain and the other's to a different one, and let the messages hashed not
collide. The honest side is named, at the length `k` of the common prefix, only if the
replay has an entry at `k`; and then it is named if the replay's chunk before `k` is
plain, should the directory hold the true state at its beginning. -/
theorem resolve_names_honest (blake3 : List U8 → Hash) (inp : DisputeInput) (side : Side)
    (chain other : List Hash)
    (hchain : judgeByReplay blake3 inp.elf inp.entry inp.input inp.chunkSize inp.maxInstructions
      = some (some chain))
    (start : Machine) (hstart : replayStart inp.elf inp.entry inp.input = some start)
    (hmine : decodeChain (side.result inp).chunkHashes = some (.ok chain))
    (hother : decodeChain (side.other.result inp).chunkHashes = some (.ok other))
    (hne : other ≠ chain)
    (hinj : ∀ i, commonLength chain other = i + 1 → Set.InjOn blake3
      (chainMessages blake3 (judgeConfig inp.chunkSize inp.maxInstructions) start
        ∪ judgeMessages blake3 inp.dir i chain inp.chunkSize)) :
    (resolve blake3 inp = some (side.honest (commonLength chain other)) →
      commonLength chain other < chain.length) ∧
    (commonLength chain other < chain.length →
      (∀ i s, commonLength chain other = i + 1 →
        (chainStates (judgeConfig inp.chunkSize inp.maxInstructions) start)[i]? = some s →
        Genuine inp.dir i s → PlainChunk (judgeConfig inp.chunkSize inp.maxInstructions) start i) →
      resolve blake3 inp = some (side.honest (commonLength chain other))) := by
  have hiff :=
    resolve_honest_iff blake3 inp side chain other hchain start hstart hmine hother hne hinj
  refine ⟨fun h => (hiff.mp h).1, fun hlt hplain => hiff.mpr ⟨hlt, fun i s hk hs hg => ?_⟩⟩
  obtain ⟨t, stop, n, hstop, hnext⟩ := chainStates_plain (hplain i s hk hs hg) hs
  exact ⟨t, stop, n, t, hstop, hnext, Machine.SameHashed.refl t⟩

/-- A result that reports `chain`. -/
def reported (chain : List Hash) : WorkerResult :=
  { workerId := "w", jobId := "job", status := "halted", instructions := 4, resultHash := ""
    chunkHashes := chain.map fun h => hex (List.ofFn h)
    outputHex := none, trap := none, pubkeyHex := none, sigHex := none }

/-- A dispute between two chains over a job without input. -/
def disputeOver (elf : List U8) (chunkSize : U64) (snapshotDir : Option SnapshotDir)
    (claim counter : List Hash) : DisputeInput :=
  { claim := reported claim, counter := reported counter, elf, entry := 0x80000000, input := []
    chunkSize, maxInstructions := 10, snapshotDir }

/-- The true chain of `storeElf` against its own truncation, settled from a
snapshot. -/
theorem resolve_names_honest_storeElf : ∃ bytes chain other,
    judgeByReplay toyHash storeElf 0x80000000 [] 2 10 = some (some chain) ∧ other ≠ chain ∧
      resolve toyHash (disputeOver storeElf 2 (some fun _ => some bytes) other chain)
        = some (.counterHonest 1) := by
  obtain ⟨start, s, t, hstart, hexit, hst, hplain, ⟨n, hstop⟩, hs, ht⟩ := storeElf_replay
  have hreplay := judgeByReplay_of_start toyHash hstart (by decide) hexit
  have hv : s.mem.Valid := chainStates_valid (replayStart_valid hstart) (by rw [hst]; simp)
  have hcommon : commonLength (chainFrom (stateHash toyHash) genesis [s, t])
      [stateHash toyHash genesis s] = 1 := by
    simp [chainFrom, commonLength]
  have hne : [stateHash toyHash genesis s] ≠ chainFrom (stateHash toyHash) genesis [s, t] :=
    fun h => absurd (congrArg List.length h) (by simp)
  rw [hst] at hreplay
  refine ⟨capture s, _, _, hreplay, hne, ?_⟩
  have hnamed := (resolve_names_honest toyHash
    (disputeOver storeElf 2 (some fun _ => some (capture s)) [stateHash toyHash genesis s]
      (chainFrom (stateHash toyHash) genesis [s, t])) .counter _ _ hreplay start hstart
    (decodeChain_hex _) (decodeChain_hex _) hne
    (fun i hi => by
      obtain rfl : i = 0 := by omega
      exact storeElf_injOn hv hst hstop hs ht)).2
  rw [hcommon] at hnamed
  refine hnamed (by rw [length_chainFrom]; exact Nat.lt_succ_self 1) fun i s' hi _ _ => ?_
  obtain rfl : i = 0 := by omega
  exact hplain

/-- Whatever the hasher: against the true chain with one more entry at its end
the replay has nothing to say, and the verdict is `Malformed`. -/
theorem extended_chain (blake3 : List U8 → Hash) : ∃ chain other,
    judgeByReplay blake3 (tinyElf [0x02, 0x90]) 0x80000000 [] 1 10 = some (some chain) ∧
      chain ≠ [] ∧ other ≠ chain ∧
      resolve blake3 (disputeOver (tinyElf [0x02, 0x90]) 1 none chain other)
        = some (.malformed "judge produced no hash at the divergence") := by
  have hfacts : (replayStart (tinyElf [0x02, 0x90]) 0x80000000 []).map (fun start =>
      ((runExit (judgeConfig 1 10) start).isSome,
        (chainStates (judgeConfig 1 10) start).length)) = some (true, 1) := by decide +kernel
  obtain ⟨start, hstart, hfacts⟩ := Option.map_eq_some_iff.mp hfacts
  obtain ⟨hexit, hlen⟩ := Prod.mk.inj hfacts
  have hreplay := judgeByReplay_of_start blake3 hstart (by decide) hexit
  obtain ⟨h, hh⟩ := List.length_eq_one_iff.mp ((length_chainFrom (stateHash blake3) genesis
    (chainStates (judgeConfig 1 10) start)).trans hlen)
  rw [hh] at hreplay
  have hne : [h, h] ≠ [h] := fun he => absurd (congrArg List.length he) (by simp)
  refine ⟨[h], [h, h], hreplay, List.cons_ne_nil _ _, hne, ?_⟩
  have hcommon : commonLength [h] [h, h] = 1 := by simp [commonLength]
  rw [resolve_eq blake3 (disputeOver (tinyElf [0x02, 0x90]) 1 none [h] [h, h]) .claim
    (decodeChain_hex [h]) (decodeChain_hex [h, h]) hne, hcommon,
    judge_eq blake3 (disputeOver (tinyElf [0x02, 0x90]) 1 none [h] [h, h]) hreplay]
  simp [judgeBySnapshot, DisputeInput.dir, disputeOver, verdictWithTruth, Side.chains]

theorem resolve_extended_chain : ∃ chain other,
    judgeByReplay toyHash (tinyElf [0x02, 0x90]) 0x80000000 [] 1 10 = some (some chain) ∧
      chain ≠ [] ∧ other ≠ chain ∧
      resolve toyHash (disputeOver (tinyElf [0x02, 0x90]) 1 none chain other)
        = some (.malformed "judge produced no hash at the divergence") :=
  extended_chain toyHash

end Provework.Coordinator
