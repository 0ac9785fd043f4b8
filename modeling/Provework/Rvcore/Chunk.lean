import Provework.Rvcore.Chain
import Provework.Rvcore.Twin

/-!
# One chunk from a snapshot (`execute_chunk_from` of `crates/rvcore/src/interp.rs`)

The second execution loop of the emulator: from a restored machine, step until
the chunk is full, the program halts or something traps. It never routes a trap
and knows no budget, which is where it parts from `run`: `nextSample_straight`
lists the three ways the next hash of a run can compare with it.
-/

namespace Provework.Rvcore

open Provework.Lib

/-- How the judged chunk ended. -/
inductive ChunkEnd where
  | boundary
  | halted
  | trapped (t : Trap)
  deriving DecidableEq, Repr

/-- The loop, `left` steps before `in_chunk == chunk_size`. `none` is a host panic. -/
def chunkLoop : Nat → Machine → U64 → Option (Machine × ChunkEnd × U64)
  | 0, m, n => some (m, .boundary, n)
  | left + 1, m, n =>
    match step m with
    | none => none
    | some (m, .ok true) => some (m, .halted, n + 1)
    | some (m, .ok false) => chunkLoop left m (n + 1)
    | some (m, .error t) => some (m, .trapped t, n)

/-- The steps until the counter equals `chunk_size`: a `u64` counter that
starts at zero is back at zero after `2 ^ 64`. -/
def chunkSteps (chunkSize : U64) : Nat := if chunkSize = 0 then 2 ^ 64 else chunkSize.toNat

/-- The machine at the end of a chunk executed from `m`. -/
def straight (chunkSize : U64) (m : Machine) : Option (Machine × ChunkEnd × U64) :=
  chunkLoop (chunkSteps chunkSize) m 0

def executeChunkFrom (blake3 : List U8 → Hash) (snapshot : List U8) (prev : Hash)
    (chunkSize : U64) : Option (Except String (Hash × ChunkEnd × U64)) :=
  match restore snapshot with
  | .error e => some (.error e)
  | .ok m =>
    match straight chunkSize m with
    | none => none
    | some (m, stop, n) => some (.ok (stateHash blake3 prev m, stop, n))

/-! ## Twins -/

/-- Chunks from twins end alike. -/
theorem chunkLoop_twin : ∀ (left : Nat) {m m' : Machine} (n : U64), m.Twin m' →
    (chunkLoop left m n = none ∧ chunkLoop left m' n = none) ∨
    ∃ s s' stop n', chunkLoop left m n = some (s, stop, n') ∧
      chunkLoop left m' n = some (s', stop, n') ∧ s.Twin s'
  | 0, m, m', n, h => Or.inr ⟨m, m', .boundary, n, rfl, rfl, h⟩
  | left + 1, m, m', n, h => by
    simp only [chunkLoop]
    generalize hs : step m = o, hs' : step m' = o'
    have hsame := h.step
    rw [hs, hs'] at hsame
    cases hsame with
    | panic => exact Or.inl ⟨rfl, rfl⟩
    | done res ht =>
      match res with
      | .ok true => exact Or.inr ⟨_, _, .halted, _, rfl, rfl, ht⟩
      | .ok false => exact chunkLoop_twin left (n + 1) ht
      | .error t => exact Or.inr ⟨_, _, .trapped t, _, rfl, rfl, ht⟩

/-- What calls of `step_mode` and trap routing keep, turns keep. -/
theorem turn_leaves {cfg : Config} {I : Machine → Prop}
    (hstep : ∀ {m m' : Machine} {res : Except Trap Bool}, I m →
      stepMode m cfg.syscalls cfg.tohostAddr = some (m', res) → I m')
    (hroute : ∀ {m : Machine} (t : Trap), I m → I (routeTrap m t)) (m : Machine) (hm : I m) :
    (turn cfg m).Leaves I := by
  have hturned := turn_turned cfg m
  generalize turn cfg m = r at hturned
  cases hturned with
  | panic => trivial
  | tohost hs => exact hstep hm hs
  | halted hs => exact hstep hm hs
  | next hs => exact hstep hm hs
  | routed hs => exact hroute _ (hstep hm hs)
  | trapped hs => exact hstep hm hs

/-- Turns keep memories valid. -/
theorem turn_valid {cfg : Config} (m : Machine) (hv : m.mem.Valid) :
    (turn cfg m).Leaves fun m => m.mem.Valid :=
  turn_leaves (I := fun m => m.mem.Valid) stepMode_valid (fun _ h => h) m hv

theorem started_valid {mem : Mem} (hv : mem.Valid) (entry : U64) (input : List U8) :
    (started mem entry input).mem.Valid :=
  Mem.write_valid (Mem.write_valid hv _ _) _ _

/-- A machine restored from bytes that hash like a valid machine is its twin. -/
theorem restore_twin {bytes : List U8} {m s : Machine} (h : restore bytes = .ok m)
    (hs : s.mem.Valid) (hsame : m.SameHashed s) : m.Twin s := by
  refine ⟨hsame, Mem.valid_iff.mpr ⟨restore_coherent h, fun p hp => ?_⟩, hs⟩
  rw [hsame.pages] at hp
  exact (Mem.valid_iff.mp hs).2 p hp

/-- A chunk from a snapshot of `s` ends as the chunk from `s` does. -/
theorem straight_twin (chunkSize : U64) {bytes : List U8} {m s : Machine}
    (h : restore bytes = .ok m) (hs : s.mem.Valid) (hsame : m.SameHashed s) :
    (straight chunkSize m = none ∧ straight chunkSize s = none) ∨
    ∃ u u' stop n, straight chunkSize m = some (u, stop, n) ∧
      straight chunkSize s = some (u', stop, n) ∧ u.Twin u' :=
  chunkLoop_twin (chunkSteps chunkSize) 0 (restore_twin h hs hsame)

/-! ## Against the run -/

/-- The configuration of a judge: no syscalls, no tohost device. -/
def judgeConfig (chunkSize maxInstructions : U64) : Config := { chunkSize, maxInstructions }

section

variable {chunkSize maxInstructions : U64}

/-- A turn under that configuration is a step, routed if it traps into a handler. -/
theorem turn_judgeConfig (m : Machine) :
    turn (judgeConfig chunkSize maxInstructions) m =
      match step m with
      | none => .panic
      | some (m, .ok true) => .exit m .halted
      | some (m, .ok false) => .next m false
      | some (m, .error t) =>
        if m.cpu.mtvec ≠ 0 then .next (routeTrap m t) true else .exit m (.trapped t) := by
  unfold turn judgeConfig step
  simp only [Option.isSome_none, Bool.false_eq_true, false_and, if_false]
  cases stepMode m false none with
  | none => rfl
  | some r =>
    obtain ⟨m', res⟩ := r
    match res with
    | .ok true => rfl
    | .ok false => rfl
    | .error t => rfl

/-- The next hash of a run, against the same chunk executed straight: the two
stop in the same state, or the budget cut the run's chunk short, or the straight
execution stopped at a trap the run hands to the guest's handler. -/
theorem nextSample_straight {c : Nat} : ∀ (left k j : Nat) {m s : Machine} {o : Option Nat}
    (n : U64), k + (j + 1) = c →
    nextSample (turn (judgeConfig chunkSize maxInstructions)) c left k m = some (s, o) →
    (∃ stop n', chunkLoop (j + 1) m n = some (s, stop, n')) ∨
    (o = none ∧ exitOf (turn (judgeConfig chunkSize maxInstructions)) .instructionLimit left m
      = some (s, .instructionLimit)) ∨
    ∃ s' t n', chunkLoop (j + 1) m n = some (s', .trapped t, n') ∧ s'.cpu.mtvec ≠ 0
  | 0, k, j, m, s, o, n, _, h => by
    simp only [nextSample, Option.some.injEq, Prod.mk.injEq] at h
    exact Or.inr (Or.inl ⟨h.2.symm, by simp only [exitOf, h.1]⟩)
  | left + 1, k, j, m, s, o, n, hk, h => by
    -- `k + (j + 1) = c` throughout: both sides have the same turns left in the chunk
    simp only [nextSample, exitOf, turn_judgeConfig] at h ⊢
    simp only [chunkLoop]
    rcases hstep : step m with _ | ⟨m', t | _ | _⟩
    · simp [hstep] at h
    · by_cases htv : m'.cpu.mtvec ≠ 0
      · exact Or.inr (Or.inr ⟨m', t, n, rfl, htv⟩)
      · simp only [hstep, if_neg htv, Option.some.injEq, Prod.mk.injEq] at h
        exact Or.inl ⟨_, _, by rw [h.1]⟩
    · simp only [hstep, true_and] at h
      by_cases hb : k + 1 = c
      · simp only [if_pos hb, Option.some.injEq, Prod.mk.injEq] at h
        obtain rfl : j = 0 := by omega
        exact Or.inl ⟨_, _, by rw [← h.1]; rfl⟩
      · simp only [if_neg hb] at h
        obtain ⟨j, rfl⟩ : ∃ i, j = i + 1 := ⟨j - 1, by omega⟩
        exact nextSample_straight left (k + 1) j (n + 1) (by omega) h
    · simp only [hstep, Option.some.injEq, Prod.mk.injEq] at h
      exact Or.inl ⟨_, _, by rw [h.1]⟩

/-! ## The states of a chain -/

variable {start s : Machine} {i : Nat}

theorem chainStates_initial (cfg : Config) (start : Machine) :
    chainStates cfg start <+: pushed cfg start := by
  unfold chainStates
  split
  · split
    · exact List.dropLast_prefix _
    · exact List.prefix_rfl
  · exact List.prefix_rfl

theorem getElem?_pushed {cfg : Config} (hi : i < (chainStates cfg start).length) :
    (pushed cfg start)[i]? = (chainStates cfg start)[i]? := by
  obtain ⟨rest, hrest⟩ := chainStates_initial cfg start
  rw [← hrest, List.getElem?_append_left hi]

/-- Every hashed state has a valid memory. -/
theorem chainStates_valid {cfg : Config} (hv : start.mem.Valid) (hs : s ∈ chainStates cfg start) :
    s.mem.Valid := by
  have hmem := (chainStates_initial _ _).subset hs
  exact sampled_inv turn_valid _ _ hv s hmem

/-- Under the instruction limit nothing is popped. -/
theorem chainStates_limit {cfg : Config} {m : Machine}
    (h : runExit cfg start = some (m, .instructionLimit)) :
    chainStates cfg start = pushed cfg start := by
  have hnot : ¬Oversized m .instructionLimit := fun hbig => ExitStatus.noConfusion hbig.1
  simp only [chainStates, h, if_neg hnot]

/-- A straight execution that stops at a trap with a handler: the run routes that trap. -/
theorem routed_of_chunkLoop : ∀ (left : Nat) {m s : Machine} {n n' : U64} {t : Trap},
    chunkLoop left m n = some (s, .trapped t, n') → s.cpu.mtvec ≠ 0 →
    ∃ p ∈ steps (turn (judgeConfig chunkSize maxInstructions)) left m, p.2 = true
  | 0, m, s, n, n', t, h, _ => by cases h
  | left + 1, m, s, n, n', t, h, htv => by
    simp only [steps, turn_judgeConfig]
    rw [chunkLoop] at h
    rcases hstep : step m with _ | ⟨m', t' | _ | _⟩
    · rw [hstep] at h
      cases h
    · rw [hstep] at h
      cases h
      simp only [if_pos htv]
      exact ⟨_, List.mem_cons_self, rfl⟩
    · rw [hstep] at h
      obtain ⟨p, hp, hrouted⟩ := routed_of_chunkLoop left h htv
      exact ⟨p, List.mem_cons_of_mem _ hp, hrouted⟩
    · rw [hstep] at h
      cases h

/-- The chunk of a run after the hashed state `i` is plain: another state is hashed after
it, it was not the budget that ended it, and no trap was routed to the guest's handler
on the way. -/
structure PlainChunk (cfg : Config) (start : Machine) (i : Nat) : Prop where
  next : i + 1 < (chainStates cfg start).length
  uncut : ∀ m, runExit cfg start = some (m, .instructionLimit) →
    i + 2 < (chainStates cfg start).length
  unrouted : ∀ s, (chainStates cfg start)[i]? = some s →
    ∀ p ∈ steps (turn cfg) cfg.chunkSize.toNat s, p.2 = false

/-- **A plain chunk, executed straight, ends in the next hashed state.** -/
theorem chainStates_plain (h : PlainChunk (judgeConfig chunkSize maxInstructions) start i)
    (hs : (chainStates (judgeConfig chunkSize maxInstructions) start)[i]? = some s) :
    ∃ t stop n, straight chunkSize s = some (t, stop, n) ∧
      (chainStates (judgeConfig chunkSize maxInstructions) start)[i + 1]? = some t := by
  have hunrouted := h.unrouted s hs
  have hi := h.next
  have hlen := (chainStates_initial (judgeConfig chunkSize maxInstructions) start).length_le
  rw [← getElem?_pushed (Nat.lt_of_succ_lt hi)] at hs
  rw [← getElem?_pushed hi]
  obtain ⟨left, t, o, ht, hnext, hexit, hlast⟩ :=
    sampled_succ .instructionLimit hs (Nat.lt_of_lt_of_le hi hlen)
  -- a second sample needs a chunk size: without one only the exit is sampled
  have hc : 0 < chunkSize.toNat := by
    by_contra h0
    have hone : (pushed (judgeConfig chunkSize maxInstructions) start).length ≤ 1 :=
      length_sampled_overdue _ start (show chunkSize.toNat ≤ 0 by omega)
    exact absurd (Nat.lt_of_lt_of_le hi (hlen.trans hone)) (by omega)
  have hsteps : chunkSteps chunkSize = chunkSize.toNat - 1 + 1 := by
    rw [chunkSteps, if_neg (by rintro rfl; exact Nat.lt_irrefl 0 hc)]
    omega
  simp only [straight, hsteps]
  have hcount : 0 + (chunkSize.toNat - 1 + 1) = chunkSize.toNat := by omega
  rcases nextSample_straight left 0 (chunkSize.toNat - 1) 0 hcount hnext with
    ⟨stop, n, hstop⟩ | ⟨rfl, hlimit⟩ | ⟨s', t', n, hstop, htv⟩
  · exact ⟨t, stop, n, hstop, ht⟩
  · have hcut := h.uncut t (hexit.trans hlimit)
    rw [chainStates_limit (hexit.trans hlimit)] at hcut
    exact absurd (hlast rfl) (Nat.ne_of_gt hcut)
  · obtain ⟨p, hp, hrouted⟩ := routed_of_chunkLoop _ hstop htv
    rw [show chunkSize.toNat - 1 + 1 = (judgeConfig chunkSize maxInstructions).chunkSize.toNat from
      (Nat.zero_add _).symm.trans hcount] at hp
    cases hrouted.symm.trans (hunrouted p hp)

end

end Provework.Rvcore
