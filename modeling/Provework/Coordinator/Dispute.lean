import Mathlib.Data.Fintype.Pi
import Mathlib.Data.List.GetD
import Provework.Jobfmt
import Provework.Lib.Attempt
import Provework.Rvcore.Chunk
import Provework.Rvcore.Elf

/-!
# The dispute game (`crates/coordinator/src/dispute.rs`)

Two committed chains disagree; `resolve` finds the first divergence, asks a
judge for the true hash there (one chunk from an untrusted snapshot if that
verifies, a replay from genesis otherwise) and names the side that has it.

Modelling notes:
- An outer `none` is a host panic: a replay that panics, or a hex string whose
  bytes are sliced in the middle of a character.
- A snapshot directory is what reading `snap-<i>.bin` in it gives for each `i`.
-/

namespace Provework.Coordinator

open Provework.Lib Provework.Rvcore Provework.Jobfmt

inductive Verdict where
  | agreement
  | claimHonest (firstDivergence : Nat)
  | counterHonest (firstDivergence : Nat)
  | bothDishonest (firstDivergence : Nat)
  | malformed (e : String)
  deriving DecidableEq, Repr

/-- The snapshot files of a directory, by index. -/
abbrev SnapshotDir := Nat → Option (List U8)

structure DisputeInput where
  claim : WorkerResult
  counter : WorkerResult
  elf : List U8
  entry : U64
  input : List U8
  chunkSize : U64
  maxInstructions : U64
  snapshotDir : Option SnapshotDir

/-! ## Decoding a chain -/

/-- The byte loop of `decode_chain`, over one hash. -/
def decodeLoop : List U8 → Nat → Nat → Option (Except String (List U8)) :=
  radixLoop fun i => s!"bad hex at byte {i}"

def decodeHash (h : String) : Option (Except String Hash) :=
  let len := (utf8 h).length
  if len ≠ 64 then some (.error s!"bad hash length {len}")
  else
    match decodeLoop (utf8 h) 32 0 with
    | none => none
    | some (.error e) => some (.error e)
    | some (.ok bs) => some (.ok fun i => bs.getD i 0)

def decodeChain : List String → Option (Except String (List Hash))
  | [] => some (.ok [])
  | h :: hs =>
    match decodeHash h with
    | none => none
    | some (.error e) => some (.error e)
    | some (.ok hash) =>
      match decodeChain hs with
      | some (.ok chain) => some (.ok (hash :: chain))
      | r => r

/-! ## The judges -/

/-- The comparison loop at index `i`, with `left` indices to go. -/
def firstDivergenceFrom (a b : List Hash) : Nat → Nat → Option Nat
  | 0, _ => none
  | left + 1, i =>
    match a[i]?, b[i]? with
    | some x, some y => if x = y then firstDivergenceFrom a b left (i + 1) else some i
    | _, _ => some i

def firstDivergence (a b : List Hash) : Option Nat :=
  firstDivergenceFrom a b (max a.length b.length) 0

def verdictWithTruth (a b : List Hash) (k : Nat) : Option Hash → Verdict
  | none => .malformed "judge produced no hash at the divergence"
  | some t =>
    match decide (a[k]? = some t), decide (b[k]? = some t) with
    | true, false => .claimHonest k
    | false, true => .counterHonest k
    | true, true => .agreement
    | false, false => .bothDishonest k

section

variable (blake3 : List U8 → Hash)

def judgeByReplay (elf : List U8) (entry : U64) (input : List U8)
    (chunkSize maxInstructions : U64) : Option (Option (List Hash)) :=
  match Elf.parse elf with
  | .error _ => some none
  | .ok image =>
    match Elf.load Mem.new image with
    | (.error _, _) => some none
    | (.ok (), mem) =>
      match run blake3 (judgeConfig chunkSize maxInstructions) mem entry input with
      | none => none
      | some out => some (some out.chunkHashes)

/-- The count and the output an honest worker puts into the journal. -/
def replayJournal (elf : List U8) (entry : U64) (input : List U8)
    (chunkSize maxInstructions : U64) : Attempt (U64 × List U8) :=
  match Elf.parse elf with
  | .error _ => some none
  | .ok image =>
    match Elf.load Mem.new image with
    | (.error _, _) => some none
    | (.ok (), mem) =>
      match run blake3 (judgeConfig chunkSize maxInstructions) mem entry input with
      | none => none
      | some out => some (some (BitVec.ofNat 64 out.instructions, out.output.getD []))

/-- The agreed hash before boundary `k - 1`, or the seed. -/
def prevBoundary (agreed : List Hash) (k : Nat) : Hash :=
  if k = 1 then genesis else agreed.getD (k - 2) genesis

def judgeBySnapshot (dir : SnapshotDir) (k : Nat) (agreed : List Hash) (chunkSize : U64) :
    Option (Option Hash) :=
  if k = 0 ∨ agreed.length < k then some none
  else
    match dir (k - 1) with
    | none => some none
    | some bytes =>
      match restore bytes with
      | .error _ => some none
      | .ok m =>
        if stateHash blake3 (prevBoundary agreed k) m ≠ agreed.getD (k - 1) genesis then some none
        else
          match executeChunkFrom blake3 bytes (agreed.getD (k - 1) genesis) chunkSize with
          | none => none
          | some (.error _) => some none
          | some (.ok (h, _, _)) => some (some h)

/-- `snapshot_dir.and_then(judge_by_snapshot).or_else(judge_by_replay)`. -/
def judge (inp : DisputeInput) (a : List Hash) (k : Nat) : Option (Option Hash) :=
  let fast := match inp.snapshotDir with
    | none => some none
    | some dir => judgeBySnapshot blake3 dir k a inp.chunkSize
  match fast with
  | none => none
  | some (some t) => some (some t)
  | some none =>
    match judgeByReplay blake3 inp.elf inp.entry inp.input inp.chunkSize inp.maxInstructions with
    | none => none
    | some chain => some (chain.bind (·[k]?))

def resolve (inp : DisputeInput) : Option Verdict :=
  match decodeChain inp.claim.chunkHashes, decodeChain inp.counter.chunkHashes with
  | none, _ => none
  | _, none => none
  | some (.error e), _ => some (.malformed e)
  | _, some (.error e) => some (.malformed e)
  | some (.ok a), some (.ok b) =>
    if a = b then some .agreement
    else
      match firstDivergence a b with
      | none => some .agreement
      | some k =>
        match judge blake3 inp a k with
        | none => none
        | some truth => some (verdictWithTruth a b k truth)

end

/-! ## Honest hex decodes -/

theorem decodeHash_hex (h : Hash) : decodeHash (hex (List.ofFn h)) = some (.ok h) := by
  obtain ⟨hlen, hloop, hget⟩ := radixLoop_hash (fun i => s!"bad hex at byte {i}") h
  simp only [decodeHash, hlen, ne_eq, not_true_eq_false, if_false, decodeLoop, hloop, hget]

/-- The chain a worker reports decodes to the chain it computed. -/
theorem decodeChain_hex (chain : List Hash) :
    decodeChain (chain.map fun h => hex (List.ofFn h)) = some (.ok chain) := by
  induction chain with
  | nil => rfl
  | cons h hs ih => simp only [List.map_cons, decodeChain, decodeHash_hex, ih]

/-! ## The first divergence -/

/-- How far two chains agree. -/
def commonLength : List Hash → List Hash → Nat
  | x :: xs, y :: ys => if x = y then commonLength xs ys + 1 else 0
  | _, _ => 0

theorem firstDivergenceFrom_eq (a b : List Hash) : ∀ (left i : Nat),
    i + left = max a.length b.length →
    firstDivergenceFrom a b left i =
      if a.drop i = b.drop i then none
      else some (i + commonLength (a.drop i) (b.drop i)) := by
  intro left
  -- down the indices left; `a.drop i` and `b.drop i` are what is still to compare
  induction left with
  | zero =>
    intro i hi
    rw [List.drop_eq_nil_of_le (by omega : a.length ≤ i),
      List.drop_eq_nil_of_le (by omega : b.length ≤ i), if_pos rfl]
    rfl
  | succ left ih =>
    intro i hi
    unfold firstDivergenceFrom
    rcases Nat.lt_or_ge i a.length with ha | ha
    · rcases Nat.lt_or_ge i b.length with hb | hb
      · rw [List.getElem?_eq_getElem ha, List.getElem?_eq_getElem hb,
          List.drop_eq_getElem_cons ha, List.drop_eq_getElem_cons hb]
        by_cases hxy : a[i] = b[i]
        · simp only [hxy, if_true, List.cons.injEq, true_and, commonLength]
          rw [ih (i + 1) (by omega), Nat.add_right_comm, Nat.add_assoc]
        · have hne : ¬a[i] :: a.drop (i + 1) = b[i] :: b.drop (i + 1) := fun h =>
            hxy (List.cons.inj h).1
          simp only [if_neg hxy, if_neg hne, commonLength, Nat.add_zero]
      · -- `b` ended first: the code reports the index where it has no entry
        rw [List.getElem?_eq_getElem ha, List.getElem?_eq_none hb,
          List.drop_eq_getElem_cons ha, List.drop_eq_nil_of_le hb, if_neg (List.cons_ne_nil _ _)]
        simp only [commonLength, Nat.add_zero]
    · have hb : i < b.length := by omega
      rw [List.getElem?_eq_none ha, List.getElem?_eq_getElem hb, List.drop_eq_nil_of_le ha,
        List.drop_eq_getElem_cons hb, if_neg (List.cons_ne_nil _ _).symm]
      simp only [commonLength, Nat.add_zero]

/-- The first divergence of different chains is the length of their common prefix. -/
theorem firstDivergence_eq {a b : List Hash} (h : a ≠ b) :
    firstDivergence a b = some (commonLength a b) := by
  have := firstDivergenceFrom_eq a b (max a.length b.length) 0 (Nat.zero_add _)
  rw [List.drop_zero, List.drop_zero, if_neg h, Nat.zero_add] at this
  exact this

theorem commonLength_comm : ∀ (a b : List Hash), commonLength a b = commonLength b a
  | [], [] => rfl
  | [], _ :: _ => rfl
  | _ :: _, [] => rfl
  | x :: xs, y :: ys => by
    simp only [commonLength, commonLength_comm xs ys, eq_comm]

theorem take_commonLength : ∀ (a b : List Hash),
    a.take (commonLength a b) = b.take (commonLength a b)
  | [], [] => rfl
  | [], _ :: _ => rfl
  | _ :: _, [] => rfl
  | x :: xs, y :: ys => by
    unfold commonLength
    split
    next h => rw [List.take_succ_cons, List.take_succ_cons, h, take_commonLength xs ys]
    next => rfl

theorem commonLength_le : ∀ (a b : List Hash), commonLength a b ≤ a.length
  | [], [] => Nat.le_refl 0
  | [], _ :: _ => Nat.le_refl 0
  | _ :: _, [] => Nat.zero_le _
  | x :: xs, y :: ys => by
    unfold commonLength
    split
    · exact Nat.succ_le_succ (commonLength_le xs ys)
    · exact Nat.zero_le _

/-- There the chains differ, or one of them has ended. -/
theorem getElem?_commonLength : ∀ {a b : List Hash}, a ≠ b →
    a[commonLength a b]? ≠ b[commonLength a b]?
  | [], [], h => absurd rfl h
  | [], _ :: _, _ => by simp [commonLength]
  | _ :: _, [], _ => by simp [commonLength]
  | x :: xs, y :: ys, h => by
    unfold commonLength
    split
    next hxy =>
      simp only [List.getElem?_cons_succ]
      exact getElem?_commonLength fun ht => h (by rw [hxy, ht])
    next hxy =>
      simp only [List.getElem?_cons_zero, ne_eq, Option.some.injEq]
      exact hxy

end Provework.Coordinator
