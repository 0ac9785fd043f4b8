import Provework.Lib.Loop
import Provework.Rvcore.Chunk
import Provework.Rvcore.Conform

/-!
# How long one judged chunk takes

`execute_chunk_from` has no budget: all that ends its loop, short of a halt or a
trap, is the counter meeting `chunk_size`. `chunkIteration` is that loop with the
source's two `u64` counters. The counter is compared after it was incremented, so
with a chunk size of zero it meets it only when it wraps; with any other it meets
it after that many instructions. So the chunk is bounded by its size exactly if the
size is not zero, or the first step completes no instruction
(`execute_chunk_bounded_iff`).
-/

namespace Provework.Rvcore

open Provework.Lib Provework.Isa

/-- The variables of the loop. -/
structure ChunkState where
  m : Machine
  n : U64
  inChunk : U64

/-- One iteration of the loop of `execute_chunk_from`. -/
def chunkIteration (chunkSize : U64) (s : ChunkState) :
    Iter ChunkState (Option (Machine × ChunkEnd × U64)) :=
  match step s.m with
  | none => .stop none
  | some (m, .ok true) => .stop (some (m, .halted, s.n + 1))
  | some (m, .ok false) =>
    if s.inChunk + 1 = chunkSize then .stop (some (m, .boundary, s.n + 1))
    else .again ⟨m, s.n + 1, s.inChunk + 1⟩
  | some (m, .error t) => .stop (some (m, .trapped t, s.n))

/-- The counter meets the chunk size on the last of `chunkSteps`. -/
theorem inChunk_succ_iff {chunkSize inChunk : U64} (h : inChunk.toNat < chunkSteps chunkSize) :
    inChunk + 1 = chunkSize ↔ inChunk.toNat + 1 = chunkSteps chunkSize := by
  have hlt := inChunk.isLt
  rw [← BitVec.toNat_inj, BitVec.toNat_add]
  unfold chunkSteps at h ⊢
  by_cases h0 : chunkSize = 0
  · subst h0
    simp only [if_true] at h ⊢
    show (inChunk.toNat + 1) % 2 ^ 64 = 0 ↔ _
    omega
  · have hne : chunkSize.toNat ≠ 0 := fun he => h0 (BitVec.eq_of_toNat_eq he)
    have hsize := chunkSize.isLt
    simp only [if_neg h0] at h ⊢
    show (inChunk.toNat + 1) % 2 ^ 64 = chunkSize.toNat ↔ _
    omega

/-- The model's loop is the source's. -/
theorem iterate_chunkIteration (chunkSize : U64) : ∀ (left : Nat) {s : ChunkState},
    s.inChunk.toNat + (left + 1) = chunkSteps chunkSize →
    iterate (chunkIteration chunkSize) (left + 1) s = .stop (chunkLoop (left + 1) s.m s.n) := by
  intro left
  induction left with
  | zero =>
    intro s hleft
    refine iterate_succ_stop ?_
    have hmeets : s.inChunk + 1 = chunkSize := (inChunk_succ_iff (by omega)).mpr (by omega)
    rw [chunkIteration, chunkLoop]
    rcases step s.m with _ | ⟨m, t | _ | _⟩
    · rfl
    · rfl
    · simp only [if_pos hmeets]
      rfl
    · rfl
  | succ left ih =>
    intro s hleft
    have hmeets : ¬s.inChunk + 1 = chunkSize := fun h => by
      have := (inChunk_succ_iff (by omega)).mp h
      omega
    rw [chunkLoop]
    rcases hstep : step s.m with _ | ⟨m, t | _ | _⟩
    · exact iterate_succ_stop (by rw [chunkIteration, hstep])
    · exact iterate_succ_stop (by rw [chunkIteration, hstep])
    · have hagain : chunkIteration chunkSize s = .again ⟨m, s.n + 1, s.inChunk + 1⟩ := by
        rw [chunkIteration, hstep]
        exact if_neg hmeets
      rw [iterate_succ_again hagain]
      refine ih ?_
      have hbound : chunkSteps chunkSize ≤ 2 ^ 64 := by
        unfold chunkSteps
        split
        · exact Nat.le_refl _
        · exact Nat.le_of_lt chunkSize.isLt
      show (s.inChunk + 1).toNat + (left + 1) = _
      rw [BitVec.toNat_add]
      show (s.inChunk.toNat + 1) % 2 ^ 64 + (left + 1) = _
      rw [Nat.mod_eq_of_lt (by omega)]
      omega
    · exact iterate_succ_stop (by rw [chunkIteration, hstep])

/-- No more is counted than there were steps. -/
theorem chunkLoop_count : ∀ (left : Nat) {m m' : Machine} {n n' : U64} {stop : ChunkEnd},
    n.toNat + left < 2 ^ 64 → chunkLoop left m n = some (m', stop, n') →
    n'.toNat ≤ n.toNat + left := by
  intro left
  induction left with
  | zero =>
    intro m m' n n' stop _ h
    cases h
    exact Nat.le_refl _
  | succ left ih =>
    intro m m' n n' stop hn h
    have hsucc : (n + 1).toNat = n.toNat + 1 := by
      rw [BitVec.toNat_add]
      exact Nat.mod_eq_of_lt (show n.toNat + 1 < 2 ^ 64 by omega)
    rw [chunkLoop] at h
    rcases hstep : step m with _ | ⟨m₁, t | _ | _⟩
    · rw [hstep] at h
      cases h
    · rw [hstep] at h
      cases h
      omega
    · rw [hstep] at h
      have hrest := ih (by omega) h
      omega
    · rw [hstep] at h
      cases h
      omega

theorem executeChunkFrom_restored (blake3 : List U8 → Hash) {snapshot : List U8} (prev : Hash)
    (chunkSize : U64) {m : Machine} (hrestore : restore snapshot = .ok m) :
    executeChunkFrom blake3 snapshot prev chunkSize
      = (chunkLoop (chunkSteps chunkSize) m 0).map
          fun e => .ok (stateHash blake3 prev e.1, e.2.1, e.2.2) := by
  unfold executeChunkFrom straight
  simp only [hrestore]
  cases chunkLoop (chunkSteps chunkSize) m 0 <;> rfl

/-- A positive chunk size is met after that many iterations, and bounds the count. -/
theorem chunk_of_pos {chunkSize : U64} (hc : chunkSize ≠ 0) (m : Machine) :
    iterate (chunkIteration chunkSize) chunkSize.toNat ⟨m, 0, 0⟩
        = .stop (chunkLoop (chunkSteps chunkSize) m 0) ∧
      ∀ e, chunkLoop (chunkSteps chunkSize) m 0 = some e → e.2.2 ≤ chunkSize := by
  have hpos : chunkSize.toNat ≠ 0 := fun h => hc (BitVec.eq_of_toNat_eq h)
  have hsteps : chunkSteps chunkSize = chunkSize.toNat - 1 + 1 := by
    rw [chunkSteps, if_neg hc]
    omega
  constructor
  · rw [hsteps]
    have hiter := iterate_chunkIteration chunkSize (chunkSize.toNat - 1)
      (s := ⟨m, 0, 0⟩) (by rw [hsteps]; exact Nat.zero_add _)
    rwa [← hsteps, chunkSteps, if_neg hc] at hiter ⊢
  · rintro ⟨m', stop, n⟩ hloop
    have hzero : (0 : U64).toNat = 0 := rfl
    have hsize := chunkSize.isLt
    rw [chunkSteps, if_neg hc] at hloop
    have hcount := chunkLoop_count _ (by omega) hloop
    rwa [hzero, Nat.zero_add] at hcount

/-- A chunk size of zero: the first iteration ends the loop if its step does not go on. -/
theorem chunk_of_zero (m : Machine) :
    match step m with
    | none =>
      iterate (chunkIteration 0) 1 ⟨m, 0, 0⟩ = .stop none ∧ chunkLoop (chunkSteps 0) m 0 = none
    | some (m', .error t) =>
      iterate (chunkIteration 0) 1 ⟨m, 0, 0⟩ = .stop (some (m', .trapped t, 0)) ∧
        chunkLoop (chunkSteps 0) m 0 = some (m', .trapped t, 0)
    | some (m', .ok true) => iterate (chunkIteration 0) 1 ⟨m, 0, 0⟩ = .stop (some (m', .halted, 1))
    | some (m', .ok false) => iterate (chunkIteration 0) 1 ⟨m, 0, 0⟩ = .again ⟨m', 1, 1⟩ := by
  have hloop : chunkLoop (chunkSteps 0) m 0 = chunkLoop (2 ^ 64 - 1 + 1) m 0 := rfl
  rw [hloop, chunkLoop]
  rcases hstep : step m with _ | ⟨m', t | _ | _⟩
  · exact ⟨iterate_succ_stop (by rw [chunkIteration, hstep]), rfl⟩
  · exact ⟨iterate_succ_stop (by rw [chunkIteration, hstep]), rfl⟩
  · refine (iterate_succ_again ?_).trans rfl
    rw [chunkIteration, hstep]
    rfl
  · exact iterate_succ_stop (by rw [chunkIteration, hstep]; rfl)

/-- **One judged chunk is bounded** exactly if the chunk size is not zero or the first
step completes no instruction: for every snapshot that restores, the loop has ended
after `chunk_size` iterations (one, if that is zero), and the count that is returned is
at most `chunk_size`. (`none` is a step that panicked the host.) -/
theorem execute_chunk_bounded_iff (blake3 : List U8 → Hash) (snapshot : List U8) (prev : Hash)
    (chunkSize : U64) (m : Machine) (hrestore : restore snapshot = .ok m) :
    (∃ r, iterate (chunkIteration chunkSize) (max chunkSize.toNat 1) ⟨m, 0, 0⟩ = .stop r ∧
      executeChunkFrom blake3 snapshot prev chunkSize
        = r.map (fun e => .ok (stateHash blake3 prev e.1, e.2.1, e.2.2)) ∧
      ∀ e, r = some e → e.2.2 ≤ chunkSize) ↔
    chunkSize ≠ 0 ∨ ∀ m' halted, step m ≠ some (m', .ok halted) := by
  rw [executeChunkFrom_restored blake3 prev chunkSize hrestore]
  by_cases hc : chunkSize = 0
  · subst hc
    have hzero := chunk_of_zero m
    rw [show max (0 : U64).toNat 1 = 1 from rfl]
    rcases hstep : step m with _ | ⟨m', t | _ | _⟩
    · rw [hstep] at hzero
      refine iff_of_true ⟨none, hzero.1, by rw [hzero.2], fun e he => by cases he⟩ (Or.inr ?_)
      exact fun _ _ h => by cases h
    · rw [hstep] at hzero
      refine iff_of_true ⟨_, hzero.1, by rw [hzero.2], ?_⟩ (Or.inr fun _ _ h => by cases h)
      rintro e ⟨⟩
      exact BitVec.le_refl _
    · rw [hstep] at hzero
      refine iff_of_false ?_ fun h => h.elim (· rfl) fun h => h _ _ rfl
      rintro ⟨r, hstop, -⟩
      cases hzero.symm.trans hstop
    · rw [hstep] at hzero
      refine iff_of_false ?_ fun h => h.elim (· rfl) fun h => h _ _ rfl
      rintro ⟨r, hstop, -, hcount⟩
      cases hzero.symm.trans hstop
      exact absurd (hcount _ rfl) (show ¬(1 : U64) ≤ 0 by decide)
  · have hmax : max chunkSize.toNat 1 = chunkSize.toNat := by
      have hpos : chunkSize.toNat ≠ 0 := fun h => hc (BitVec.eq_of_toNat_eq h)
      omega
    obtain ⟨hstop, hcount⟩ := chunk_of_pos hc m
    rw [hmax]
    exact iff_of_true ⟨_, hstop, rfl, hcount⟩ (Or.inl hc)

/-! ## A chunk size of zero -/

/-- `ebreak`. -/
def ebreakMachine : Machine := .holding 0x00100073 fun _ => 0

/-- `jal x0, 0`. -/
def spinMachine : Machine := .holding 0x0000006f fun _ => 0

/-- Whatever the chunk size, the chunk from `ebreak` halts after one instruction. -/
theorem executeChunkFrom_ebreak (blake3 : List U8 → Hash) (prev : Hash) (chunkSize : U64) :
    ∃ m h, restore (capture ebreakMachine) = .ok m ∧
      executeChunkFrom blake3 (capture ebreakMachine) prev chunkSize
        = some (.ok (h, .halted, 1)) := by
  have hv : ebreakMachine.mem.Valid := holding_valid _ _
  obtain ⟨m, hrestore, hsame⟩ := restore_capture hv
  have hstep : (step ebreakMachine).map Prod.snd = some (.ok true) := by decide +kernel
  obtain ⟨⟨m', _⟩, hstep, rfl⟩ := Option.map_eq_some_iff.mp hstep
  have hsteps : chunkSteps chunkSize = chunkSteps chunkSize - 1 + 1 := by
    unfold chunkSteps
    split
    · rfl
    next hc =>
      have hpos : chunkSize.toNat ≠ 0 := fun h => hc (BitVec.eq_of_toNat_eq h)
      omega
  have hhalt : straight chunkSize ebreakMachine = some (m', .halted, 0 + 1) := by
    rw [straight, hsteps, chunkLoop, hstep]
  refine ⟨m, ?_⟩
  rcases straight_twin chunkSize hrestore hv hsame with ⟨-, hnone⟩ | ⟨u, u', stop, n, hu, hu', -⟩
  · rw [hhalt] at hnone
    cases hnone
  · rw [hhalt] at hu'
    cases hu'
    refine ⟨stateHash blake3 prev u, hrestore, ?_⟩
    simp only [executeChunkFrom, hrestore, hu]
    rfl

theorem execute_chunk_bounded_iff_ebreak :
    ∃ h n, executeChunkFrom lengthHash (capture ebreakMachine) genesis 5
      = some (.ok (h, .halted, n)) ∧
      n ≤ 5 := by
  obtain ⟨m, h, hrestore, hret⟩ := executeChunkFrom_ebreak lengthHash genesis 5
  obtain ⟨r, -, hexec, hcount⟩ :=
    (execute_chunk_bounded_iff lengthHash (capture ebreakMachine) genesis 5 m
    hrestore).mpr (Or.inl (by decide))
  rw [hret] at hexec
  obtain ⟨⟨m', stop, n⟩, rfl, he⟩ := Option.map_eq_some_iff.mp hexec.symm
  cases he
  exact ⟨_, _, hret, hcount _ rfl⟩

/-- A machine about to execute `jal x0, 0`. -/
structure Spins (m : Machine) : Prop where
  valid : m.mem.Valid
  even : m.cpu.pc.toNat % 2 = 0
  low : m.cpu.pc.toNat ≤ 2 ^ 32 - 4
  code : m.mem.pages.bytes m.cpu.pc.toNat 4 = leBytes 4 (0x0000006f#32).toNat

theorem Spins.step {m : Machine} (h : Spins m) :
    ∃ m', step m = some (m', .ok false) ∧ Spins m' ∧ m'.arch = m.arch := by
  obtain ⟨mem, hun, hstep⟩ := step_fetch h.valid h.even h.low h.code (by decide) false none
  have hword : 0x0000006f#32 = (Instr.jal 0 0).encode := by decide
  have htarget : BitVec.ofInt 64 (m.cpu.pc.toNat + (0 : BitVec 20).toInt * 2) = m.cpu.pc := by
    simp
  rw [hword, execute_encode, Instr.effect, htarget] at hstep
  refine ⟨_, hstep, ⟨hun.valid, h.even, h.low, ?_⟩, arch_unchanged hun m.cpu⟩
  show mem.pages.bytes m.cpu.pc.toNat 4 = _
  rw [hun.pages]
  exact h.code

/-- With a chunk size of zero it goes on until the counter wraps. -/
theorem Spins.goes_on : ∀ (k : Nat) {s : ChunkState}, Spins s.m → s.inChunk.toNat + k < 2 ^ 64 →
    ∃ s', iterate (chunkIteration 0) k s = .again s' := by
  intro k
  induction k with
  | zero =>
    intro s _ _
    exact ⟨s, rfl⟩
  | succ k ih =>
    intro s h hk
    obtain ⟨m, hstep, hm, -⟩ := h.step
    have hsucc : (s.inChunk + 1).toNat = s.inChunk.toNat + 1 := by
      rw [BitVec.toNat_add]
      exact Nat.mod_eq_of_lt (show s.inChunk.toNat + 1 < 2 ^ 64 by omega)
    have hne : s.inChunk + 1 ≠ 0 := fun h0 => by
      have hzero := congrArg BitVec.toNat h0
      rw [hsucc] at hzero
      exact absurd hzero (Nat.succ_ne_zero _)
    have hagain : chunkIteration 0 s = .again ⟨m, s.n + 1, s.inChunk + 1⟩ := by
      rw [chunkIteration, hstep]
      exact if_neg hne
    rw [iterate_succ_again hagain]
    exact ih hm (by show (s.inChunk + 1).toNat + k < _; omega)

/-- `chunk_size = 0`: the chunk from `ebreak` counts one instruction, and the chunk
from `jal x0, 0` is still going after any number of iterations that fits a `u64`. -/
theorem execute_chunk_unbounded :
    (∃ m h, restore (capture ebreakMachine) = .ok m ∧
      executeChunkFrom lengthHash (capture ebreakMachine) genesis 0 = some (.ok (h, .halted, 1)) ∧
      ¬(1 : U64) ≤ 0) ∧
    ∃ m, restore (capture spinMachine) = .ok m ∧
      ∀ k < 2 ^ 64, ∃ s, iterate (chunkIteration 0) k ⟨m, 0, 0⟩ = .again s := by
  constructor
  · obtain ⟨m, h, hrestore, hret⟩ := executeChunkFrom_ebreak lengthHash genesis 0
    exact ⟨m, h, hrestore, hret, by decide⟩
  · have hv : spinMachine.mem.Valid := holding_valid _ _
    obtain ⟨m, hrestore, hsame⟩ := restore_capture hv
    have htwin := restore_twin hrestore hv hsame
    have hspins : Spins m := by
      have hpc : m.cpu.pc = 0 := hsame.pc
      refine ⟨htwin.valid, by rw [hpc]; decide, by rw [hpc]; decide, ?_⟩
      rw [hsame.pages, hpc]
      decide +kernel
    exact ⟨m, hrestore,
      fun k hk => hspins.goes_on k (by show (0 : U64).toNat + k < _; simpa using hk)⟩

end Provework.Rvcore
