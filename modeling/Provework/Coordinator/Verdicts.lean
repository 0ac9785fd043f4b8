import Provework.Coordinator.Judge

/-!
# What a verdict says

Two questions about `resolve` that do not depend on who is honest. The verdict
is the same seen from either side (`resolve_antisymmetric`): the judge is
handed the claim's chain, but reads only entries both chains share. And a side
that is named honest has the judge's hash at the divergence, which is not the
same as having computed the chain: the entries before it were agreed on, not
judged. `vindicated_iff_shared` says when the side named has the true chain up to
there.
-/

namespace Provework.Coordinator

open Provework.Lib Provework.Rvcore Provework.Jobfmt

section

variable {blake3 : List U8 → Hash} {inp : DisputeInput} {a b : List Hash} {k : Nat}

/-- The judge reads the first `k` entries of the chain it is given. -/
theorem judge_congr (hk : k ≤ b.length) (h : a.take k = b.take k) :
    judge blake3 inp a k = judge blake3 inp b k := by
  unfold judge
  cases inp.snapshotDir with
  | none => rfl
  | some dir => simp only [judgeBySnapshot_congr hk h]

/-- `resolve` on two chains that decode. -/
theorem resolve_decoded (blake3 : List U8 → Hash) (inp : DisputeInput)
    (ha : decodeChain inp.claim.chunkHashes = some (.ok a))
    (hb : decodeChain inp.counter.chunkHashes = some (.ok b)) :
    resolve blake3 inp = if a = b then some .agreement
      else (judge blake3 inp a (commonLength a b)).map
        (verdictWithTruth a b (commonLength a b)) := by
  by_cases h : a = b
  · simp only [resolve, ha, hb, if_pos h]
  · rw [if_neg h]
    exact resolve_eq blake3 inp .claim ha hb (Ne.symm h)

end

/-! ## The longest common prefix -/

/-- `k` is the length of the longest common prefix of `a` and `b`. -/
structure LongestCommonPrefix (a b : List Hash) (k : Nat) : Prop where
  le_left : k ≤ a.length
  le_right : k ≤ b.length
  agree : a.take k = b.take k
  longest : ∀ j, j ≤ a.length → j ≤ b.length → a.take j = b.take j → j ≤ k

theorem commonLength_longest {a b : List Hash} (h : a ≠ b) :
    LongestCommonPrefix a b (commonLength a b) := by
  refine ⟨commonLength_le a b, commonLength_comm a b ▸ commonLength_le b a, take_commonLength a b,
    fun j _ _ hj => ?_⟩
  -- a longer common prefix would reach over the divergence
  by_contra hlt
  refine getElem?_commonLength h ?_
  have hget := congrArg (·[commonLength a b]?) hj
  simpa only [List.getElem?_take_of_lt (Nat.lt_of_not_le hlt)] using hget

/-! ## Both sides see one verdict -/

/-- The same dispute, with claim and counter exchanged. -/
def DisputeInput.swap (inp : DisputeInput) : DisputeInput :=
  { inp with claim := inp.counter, counter := inp.claim }

/-- The index a verdict carries. -/
def Verdict.index : Verdict → Option Nat
  | .claimHonest k => some k
  | .counterHonest k => some k
  | .bothDishonest k => some k
  | .agreement => none
  | .malformed _ => none

/-- One verdict seen from the two sides. -/
inductive Verdict.Mirrors : Verdict → Verdict → Prop
  | agreement : Mirrors .agreement .agreement
  | claimHonest (k : Nat) : Mirrors (.claimHonest k) (.counterHonest k)
  | counterHonest (k : Nat) : Mirrors (.counterHonest k) (.claimHonest k)
  | bothDishonest (k : Nat) : Mirrors (.bothDishonest k) (.bothDishonest k)
  | malformed (e e' : String) : Mirrors (.malformed e) (.malformed e')

open Verdict (Mirrors)

/-- The verdict on a truth, comparison by comparison. -/
theorem verdict_some (a b : List Hash) (k : Nat) (t : Hash) :
    verdictWithTruth a b k (some t) =
      if a[k]? = some t then if b[k]? = some t then .agreement else .claimHonest k
      else if b[k]? = some t then .counterHonest k else .bothDishonest k := by
  by_cases ha : a[k]? = some t <;> by_cases hb : b[k]? = some t <;>
    simp [verdictWithTruth, ha, hb]

theorem verdict_mirrors (a b : List Hash) (k : Nat) (truth : Option Hash) :
    Mirrors (verdictWithTruth a b k truth) (verdictWithTruth b a k truth) := by
  cases truth with
  | none => exact .malformed _ _
  | some t =>
    rw [verdict_some, verdict_some]
    split <;> split <;> constructor

/-- At a divergence no truth makes both sides right. -/
theorem verdict_ne_agreement {a b : List Hash} {k : Nat} (h : a[k]? ≠ b[k]?)
    (truth : Option Hash) : verdictWithTruth a b k truth ≠ .agreement := by
  cases truth with
  | none => simp [verdictWithTruth]
  | some t =>
    rw [verdict_some]
    split
    next ha =>
      rw [if_neg fun hb => h (ha.trans hb.symm)]
      simp
    · split <;> simp

theorem verdict_index {a b : List Hash} {k j : Nat} {truth : Option Hash}
    (h : (verdictWithTruth a b k truth).index = some j) : j = k := by
  cases truth with
  | none => cases h
  | some t =>
    rw [verdict_some] at h
    split at h <;> split at h <;> cases h <;> rfl

section

variable (blake3 : List U8 → Hash) (inp : DisputeInput)

/-- Both chains decode; or the host panics, or the verdict is `Malformed`, from
either side. -/
theorem resolve_cases :
    (∃ a b, decodeChain inp.claim.chunkHashes = some (.ok a) ∧
      decodeChain inp.counter.chunkHashes = some (.ok b)) ∨
    (resolve blake3 inp = none ∧ resolve blake3 inp.swap = none) ∨
    ∃ e e', resolve blake3 inp = some (.malformed e) ∧
      resolve blake3 inp.swap = some (.malformed e') := by
  -- the tuple is evaluated before it is matched, so a panic on either side comes first
  rcases ha : decodeChain inp.claim.chunkHashes with _ | e | a
  · refine Or.inr (Or.inl ?_)
    rcases hb : decodeChain inp.counter.chunkHashes with _ | e' | b <;>
      simp only [resolve, DisputeInput.swap, ha, hb, and_self]
  · rcases hb : decodeChain inp.counter.chunkHashes with _ | e' | b
    · refine Or.inr (Or.inl ?_)
      simp only [resolve, DisputeInput.swap, ha, hb, and_self]
    · refine Or.inr (Or.inr ⟨e, e', ?_⟩)
      simp only [resolve, DisputeInput.swap, ha, hb, and_self]
    · refine Or.inr (Or.inr ⟨e, e, ?_⟩)
      simp only [resolve, DisputeInput.swap, ha, hb, and_self]
  · rcases hb : decodeChain inp.counter.chunkHashes with _ | e' | b
    · refine Or.inr (Or.inl ?_)
      simp only [resolve, DisputeInput.swap, ha, hb, and_self]
    · refine Or.inr (Or.inr ⟨e', e', ?_⟩)
      simp only [resolve, DisputeInput.swap, ha, hb, and_self]
    · exact Or.inl ⟨a, b, rfl, rfl⟩

/-- The judge is handed the claim's chain; handed the counter's it says the same. -/
theorem judge_swap (a b : List Hash) :
    judge blake3 inp.swap b (commonLength a b) = judge blake3 inp a (commonLength a b) := by
  have hb : commonLength a b ≤ b.length := commonLength_comm a b ▸ commonLength_le b a
  rw [judge_congr hb (take_commonLength a b)]
  rfl

theorem resolve_agreement_iff : resolve blake3 inp = some .agreement ↔ ∃ a,
    decodeChain inp.claim.chunkHashes = some (.ok a) ∧
      decodeChain inp.counter.chunkHashes = some (.ok a) := by
  constructor
  · intro h
    rcases resolve_cases blake3 inp with ⟨a, b, ha, hb⟩ | ⟨hnone, -⟩ | ⟨e, -, he, -⟩
    · rw [resolve_decoded blake3 inp ha hb] at h
      split at h
      next hab => exact ⟨a, ha, hab ▸ hb⟩
      next hne =>
        obtain ⟨truth, -, hv⟩ := Option.map_eq_some_iff.mp h
        exact absurd hv (verdict_ne_agreement (getElem?_commonLength hne) truth)
    · rw [hnone] at h
      cases h
    · rw [he] at h
      cases h
  · rintro ⟨a, ha, hb⟩
    rw [resolve_decoded blake3 inp ha hb, if_pos rfl]

theorem resolve_index {v : Verdict} {k : Nat} (h : resolve blake3 inp = some v)
    (hk : v.index = some k) : ∃ a b, decodeChain inp.claim.chunkHashes = some (.ok a) ∧
      decodeChain inp.counter.chunkHashes = some (.ok b) ∧ LongestCommonPrefix a b k := by
  rcases resolve_cases blake3 inp with ⟨a, b, ha, hb⟩ | ⟨hnone, -⟩ | ⟨e, -, he, -⟩
  · refine ⟨a, b, ha, hb, ?_⟩
    rw [resolve_decoded blake3 inp ha hb] at h
    split at h
    · obtain rfl := Option.some.inj h
      cases hk
    next hne =>
      obtain ⟨truth, -, rfl⟩ := Option.map_eq_some_iff.mp h
      exact verdict_index hk ▸ commonLength_longest hne
  · rw [hnone] at h
    cases h
  · obtain rfl := Option.some.inj (he.symm.trans h)
    cases hk

theorem resolve_mirrors :
    (resolve blake3 inp = none ∧ resolve blake3 inp.swap = none) ∨
      ∃ v w, resolve blake3 inp = some v ∧ resolve blake3 inp.swap = some w ∧ Mirrors v w := by
  rcases resolve_cases blake3 inp with ⟨a, b, ha, hb⟩ | hnone | ⟨e, e', he, he'⟩
  · have hres := resolve_decoded blake3 inp ha hb
    have hswap := resolve_decoded blake3 inp.swap hb ha
    rw [commonLength_comm b a, judge_swap] at hswap
    by_cases hab : a = b
    · rw [if_pos hab] at hres
      rw [if_pos hab.symm] at hswap
      exact Or.inr ⟨_, _, hres, hswap, .agreement⟩
    · rw [if_neg hab] at hres
      rw [if_neg (Ne.symm hab)] at hswap
      cases htruth : judge blake3 inp a (commonLength a b) with
      | none =>
        rw [htruth] at hres hswap
        exact Or.inl ⟨hres, hswap⟩
      | some truth =>
        rw [htruth] at hres hswap
        exact Or.inr ⟨_, _, hres, hswap, verdict_mirrors a b _ truth⟩
  · exact Or.inl hnone
  · exact Or.inr ⟨_, _, he, he', .malformed e e'⟩

/-- **The dispute game is antisymmetric and pinpoints the divergence.**
Agreement is exactly that both chains decode to one list; any other verdict
that carries an index carries the length of the longest common prefix; and the
exchange of the two sides mirrors the verdict, at the same index (a panic of
the host is one from either side). -/
theorem resolve_antisymmetric :
    (resolve blake3 inp = some .agreement ↔ ∃ a,
      decodeChain inp.claim.chunkHashes = some (.ok a) ∧
        decodeChain inp.counter.chunkHashes = some (.ok a)) ∧
    (∀ v k, resolve blake3 inp = some v → v.index = some k → ∃ a b,
      decodeChain inp.claim.chunkHashes = some (.ok a) ∧
        decodeChain inp.counter.chunkHashes = some (.ok b) ∧ LongestCommonPrefix a b k) ∧
    ((resolve blake3 inp = none ∧ resolve blake3 inp.swap = none) ∨
      ∃ v w, resolve blake3 inp = some v ∧ resolve blake3 inp.swap = some w ∧ Mirrors v w) :=
  ⟨resolve_agreement_iff blake3 inp, fun _ _ => resolve_index blake3 inp,
    resolve_mirrors blake3 inp⟩

end

/-! ## What being named is worth -/

section

variable {blake3 : List U8 → Hash} {inp : DisputeInput} {side : Side} {mine other chain : List Hash}
  {k : Nat}

theorem Side.honest_index (side : Side) (k : Nat) : (side.honest k).index = some k := by
  cases side <;> rfl

/-- A side is named at the divergence, for having the judge's hash there. -/
theorem resolve_named_iff (blake3 : List U8 → Hash) (inp : DisputeInput) (side : Side)
    (hmine : decodeChain (side.result inp).chunkHashes = some (.ok mine))
    (hother : decodeChain (side.other.result inp).chunkHashes = some (.ok other)) :
    resolve blake3 inp = some (side.honest k) ↔
      mine ≠ other ∧ commonLength mine other = k ∧
        ∃ t, judge blake3 inp mine k = some (some t) ∧ mine[k]? = some t := by
  by_cases hne : mine = other
  · subst hne
    have hagree : resolve blake3 inp = some .agreement := by
      refine (resolve_agreement_iff blake3 inp).mpr ⟨mine, ?_⟩
      cases side with
      | claim => exact ⟨hmine, hother⟩
      | counter => exact ⟨hother, hmine⟩
    rw [hagree]
    refine iff_of_false ?_ fun h => h.1 rfl
    cases side <;> simp [Side.honest]
  have hfirst : (side.chains mine other).1.take (commonLength mine other)
      = mine.take (commonLength mine other) := by
    cases side with
    | claim => rfl
    | counter => exact (take_commonLength mine other).symm
  rw [resolve_eq blake3 inp side hmine hother (Ne.symm hne),
    judge_congr (commonLength_le mine other) hfirst, Option.map_eq_some_iff]
  have hdiv := getElem?_commonLength hne
  constructor
  · rintro ⟨truth, hjudge, hv⟩
    have hindex := (congrArg Verdict.index hv).trans (side.honest_index k)
    obtain rfl : k = commonLength mine other := verdict_index hindex
    obtain ⟨htruth, hentry⟩ := (verdict_honest_iff side hdiv truth).mp hv
    obtain ⟨t, rfl⟩ := Option.ne_none_iff_exists'.mp htruth
    exact ⟨hne, rfl, t, hjudge, hentry⟩
  · rintro ⟨-, rfl, t, hjudge, hentry⟩
    exact ⟨some t, hjudge, (verdict_honest_iff side hdiv (some t)).mpr ⟨by simp, hentry⟩⟩

/-- The judge's hash, where it has one: the fast judge's, or the replay's entry. -/
theorem judge_some {t : Hash}
    (hchain : judgeByReplay blake3 inp.elf inp.entry inp.input inp.chunkSize inp.maxInstructions
      = some (some chain)) (h : judge blake3 inp mine k = some (some t)) :
    judgeBySnapshot blake3 inp.dir k mine inp.chunkSize = some (some t) ∨
      judgeBySnapshot blake3 inp.dir k mine inp.chunkSize = some none ∧ chain[k]? = some t := by
  rw [judge_eq blake3 inp hchain] at h
  generalize judgeBySnapshot blake3 inp.dir k mine inp.chunkSize = r at h
  rcases r with _ | _ | t'
  · cases h
  · exact Or.inr ⟨rfl, Option.some.inj h⟩
  · exact Or.inl h

end

theorem agree_upto_iff {a b : List Hash} {k : Nat} :
    (∀ i, i ≤ k → a[i]? = b[i]?) ↔ a.take k = b.take k ∧ a[k]? = b[k]? := by
  constructor
  · intro h
    refine ⟨List.ext_getElem? fun i => ?_, h k (Nat.le_refl k)⟩
    rw [List.getElem?_take, List.getElem?_take]
    split
    next hi => exact h i (Nat.le_of_lt hi)
    · rfl
  · rintro ⟨htake, hk⟩ i hi
    rcases Nat.eq_or_lt_of_le hi with rfl | hlt
    · exact hk
    · have hget := congrArg (·[i]?) htake
      simpa only [List.getElem?_take_of_lt hlt] using hget

/-- A side named at `k` has the replay's chain up to there exactly when it has it below
`k` and the straight execution from a genuine snapshot ends where the replay does. -/
theorem vindicated_straight_iff (blake3 : List U8 → Hash) (inp : DisputeInput) (side : Side)
    (chain mine other : List Hash)
    (hchain : judgeByReplay blake3 inp.elf inp.entry inp.input inp.chunkSize inp.maxInstructions
      = some (some chain))
    (start : Machine) (hstart : replayStart inp.elf inp.entry inp.input = some start)
    (hmine : decodeChain (side.result inp).chunkHashes = some (.ok mine))
    (hother : decodeChain (side.other.result inp).chunkHashes = some (.ok other))
    (k : Nat) (hnamed : resolve blake3 inp = some (side.honest k))
    (hinj : ∀ i, k = i + 1 → Set.InjOn blake3
      (chainMessages blake3 (judgeConfig inp.chunkSize inp.maxInstructions) start
        ∪ judgeMessages blake3 inp.dir i chain inp.chunkSize)) :
    (∀ i, i ≤ k → mine[i]? = chain[i]?) ↔
      mine.take k = chain.take k ∧
      ∀ i s t stop n, k = i + 1 →
        (chainStates (judgeConfig inp.chunkSize inp.maxInstructions) start)[i]? = some s →
        Genuine inp.dir i s → straight inp.chunkSize s = some (t, stop, n) →
        ∃ u, (chainStates (judgeConfig inp.chunkSize inp.maxInstructions) start)[i + 1]? = some u ∧
          t.SameHashed u := by
  obtain ⟨start', hstart', rfl⟩ := judgeByReplay_eq hchain
  have hv := replayStart_valid hstart'
  obtain rfl : start' = start := Option.some.inj (hstart'.symm.trans hstart)
  obtain ⟨-, -, t, hjudge, hentry⟩ := (resolve_named_iff blake3 inp side hmine hother).mp hnamed
  rw [agree_upto_iff]
  refine and_congr_right fun htake => ?_
  cases k with
  | zero =>
    -- no boundary lies before the divergence: the entry is the replay's
    refine iff_of_true ?_ (fun i s t stop n hi => by omega)
    rcases judge_some hchain hjudge with hfast | ⟨-, hslow⟩
    · simp [judgeBySnapshot] at hfast
    · exact hentry.trans hslow.symm
  | succ i =>
    have hlong := (List.getElem?_eq_some_iff.mp hentry).1
    have hle :
        i + 1 ≤ (chainStates (judgeConfig inp.chunkSize inp.maxInstructions) start').length := by
      have hlen := congrArg List.length htake
      rw [List.length_take, List.length_take, length_chainFrom] at hlen
      omega
    have hsame : judgeBySnapshot blake3 inp.dir (i + 1) mine inp.chunkSize
        = judgeBySnapshot blake3 inp.dir (i + 1) (chainFrom (stateHash blake3) genesis
          (chainStates (judgeConfig inp.chunkSize inp.maxInstructions) start')) inp.chunkSize :=
      judgeBySnapshot_congr (by rw [length_chainFrom]; exact hle) htake
    have hcases := judge_some hchain hjudge
    rw [hsame] at hcases
    have hright := judgeBySnapshot_right_iff (fun s hs => chainStates_valid hv hs) hle (hinj i rfl)
    constructor
    · intro heq j s t' stop n hj
      obtain rfl : i = j := by omega
      refine hright.mp (fun h hh => ?_) s t' stop n
      rcases hcases with hfast | ⟨hslow, -⟩
      · rw [← heq, hentry]
        exact Option.some.inj (hfast.symm.trans hh)
      · rw [hslow] at hh
        cases hh
    · intro hplain
      rcases hcases with hfast | ⟨-, hslow⟩
      · exact hentry.trans (hright.mpr (fun s t' stop n => hplain i s t' stop n rfl) t hfast).symm
      · exact hentry.trans hslow.symm

/-- **What a vindicated side has computed.** Let a side be named honest at `k`, let
the messages hashed not collide, and let the replay's chunk before `k` be plain, should
the directory hold the true state at its beginning. The chain of that side is the
replay's up to and including `k` exactly when what the two sides agree on is a beginning
of the replay's chain. -/
theorem vindicated_iff_shared (blake3 : List U8 → Hash) (inp : DisputeInput) (side : Side)
    (chain mine other : List Hash)
    (hchain : judgeByReplay blake3 inp.elf inp.entry inp.input inp.chunkSize inp.maxInstructions
      = some (some chain))
    (start : Machine) (hstart : replayStart inp.elf inp.entry inp.input = some start)
    (hmine : decodeChain (side.result inp).chunkHashes = some (.ok mine))
    (hother : decodeChain (side.other.result inp).chunkHashes = some (.ok other))
    (k : Nat) (hnamed : resolve blake3 inp = some (side.honest k))
    (hinj : ∀ i, k = i + 1 → Set.InjOn blake3
      (chainMessages blake3 (judgeConfig inp.chunkSize inp.maxInstructions) start
        ∪ judgeMessages blake3 inp.dir i chain inp.chunkSize))
    (hplain : ∀ i s, k = i + 1 →
      (chainStates (judgeConfig inp.chunkSize inp.maxInstructions) start)[i]? = some s →
      Genuine inp.dir i s → PlainChunk (judgeConfig inp.chunkSize inp.maxInstructions) start i) :
    (∀ i, i ≤ k → mine[i]? = chain[i]?) ↔ mine.take (commonLength mine other) <+: chain := by
  obtain ⟨-, hk, t, -, hentry⟩ := (resolve_named_iff blake3 inp side hmine hother).mp hnamed
  have hlen : (mine.take k).length = k := by
    rw [List.length_take]
    exact Nat.min_eq_left (Nat.le_of_lt (List.getElem?_eq_some_iff.mp hentry).1)
  rw [vindicated_straight_iff blake3 inp side chain mine other hchain start hstart hmine hother k
    hnamed hinj, hk, List.prefix_iff_eq_take, hlen, and_iff_left]
  exact fun i s t stop n hi hs hg hstop => ends_of_plain (hplain i s hi hs hg) hs hstop

/-- The claim of a dispute between reported chains is named for the judge's hash. -/
theorem disputeOver_named_iff (blake3 : List U8 → Hash) (elf : List U8) (chunkSize : U64)
    (dir : Option SnapshotDir) (claim counter : List Hash) (k : Nat) :
    resolve blake3 (disputeOver elf chunkSize dir claim counter) = some (.claimHonest k) ↔
      claim ≠ counter ∧ commonLength claim counter = k ∧
        ∃ t, judge blake3 (disputeOver elf chunkSize dir claim counter) claim k = some (some t) ∧
          claim[k]? = some t :=
  resolve_named_iff blake3 (disputeOver elf chunkSize dir claim counter) .claim
    (decodeChain_hex claim) (decodeChain_hex counter)

/-- A chain that goes on past the true one, against the first entry alone,
settled from a snapshot: the side named has the true entries up to the
divergence. -/
theorem vindicated_iff_shared_storeElf : ∃ bytes chain mine other,
    judgeByReplay toyHash storeElf 0x80000000 [] 2 10 = some (some chain) ∧ mine ≠ chain ∧
      resolve toyHash (disputeOver storeElf 2 (some fun _ => some bytes) mine other)
        = some (.claimHonest 1) ∧ ∀ i, i ≤ 1 → mine[i]? = chain[i]? := by
  obtain ⟨start, s, t, hstart, hexit, hst, hplain, ⟨n, hstop⟩, hs, ht⟩ := storeElf_replay
  have hreplay := judgeByReplay_of_start toyHash hstart (by decide) hexit
  have hv : s.mem.Valid := chainStates_valid (replayStart_valid hstart) (by rw [hst]; simp)
  have hinj := storeElf_injOn hv hst hstop hs ht
  obtain ⟨m, hm, hsame⟩ := restore_capture hv
  have hg : Genuine (fun _ => some (capture s)) 0 s := ⟨capture s, m, rfl, hm, hsame⟩
  have hs0 : [s, t][0]? = some s := rfl
  have hjudge := judgeBySnapshot_of_genuine toyHash 2 hs0 hv hg
  obtain ⟨c0, c1, hchain, hc1⟩ : ∃ c0 c1, chainFrom (stateHash toyHash) genesis [s, t] = [c0, c1] ∧
      stateHash toyHash c0 t = c1 := ⟨_, _, rfl, rfl⟩
  rw [hst, hchain] at hreplay
  rw [hchain] at hinj
  simp only [hstop, hchain] at hjudge
  rw [show [c0, c1].getD 0 genesis = c0 from rfl, hc1, Nat.zero_add] at hjudge
  have hnamed : resolve toyHash
      (disputeOver storeElf 2 (some fun _ => some (capture s)) [c0, c1, c1] [c0])
      = some (.claimHonest 1) := by
    refine (disputeOver_named_iff toyHash storeElf 2 _ _ _ 1).mpr
      ⟨by simp, by simp [commonLength], c1, ?_, rfl⟩
    have htake : [c0, c1, c1].take 1 = [c0, c1].take 1 := rfl
    rw [← judgeBySnapshot_congr (Nat.le_succ 1) htake] at hjudge
    have hboth := judge_eq toyHash
      (disputeOver storeElf 2 (some fun _ => some (capture s)) [c0, c1, c1] [c0]) hreplay
      [c0, c1, c1] 1
    simp only [DisputeInput.dir, disputeOver, Option.getD_some, hjudge] at hboth
    exact hboth
  refine ⟨capture s, _, [c0, c1, c1], [c0], hreplay, by simp, hnamed, ?_⟩
  refine (vindicated_iff_shared toyHash
    (disputeOver storeElf 2 (some fun _ => some (capture s)) [c0, c1, c1] [c0]) .claim [c0, c1]
    [c0, c1, c1] [c0] hreplay start hstart (decodeChain_hex _) (decodeChain_hex _) 1 hnamed
    (fun i hi => ?_) (fun i s' hi _ _ => ?_)).mpr ?_
  · obtain rfl : i = 0 := by omega
    exact hinj
  · obtain rfl : i = 0 := by omega
    exact hplain
  · rw [show commonLength [c0, c1, c1] [c0] = 1 by simp [commonLength]]
    exact List.prefix_append [c0] [c1]

/-- Whatever the hasher: two chains that agree on a first entry nobody computed.
Nothing checks it, and the side with the true second entry is named honest. -/
theorem fabricated_prefix (blake3 : List U8 → Hash) : ∃ chain claim counter,
    judgeByReplay blake3 storeElf 0x80000000 [] 2 10 = some (some chain) ∧
      resolve blake3 (disputeOver storeElf 2 none claim counter) = some (.claimHonest 1) ∧
      claim[0]? ≠ chain[0]? := by
  obtain ⟨start, s, t, hstart, hexit, hst, -⟩ := storeElf_replay
  have hreplay := judgeByReplay_of_start blake3 hstart (by decide) hexit
  obtain ⟨c0, c1, hchain⟩ : ∃ c0 c1,
      chainFrom (stateHash blake3) genesis (chainStates (judgeConfig 2 10) start) = [c0, c1] :=
    List.length_eq_two.mp (by rw [length_chainFrom, hst]; rfl)
  rw [hchain] at hreplay
  have hflip : ∀ h : Hash, (fun i => ~~~h i) ≠ h := by
    intro h heq
    have hbyte : ∀ b : U8, ~~~b ≠ b := by decide
    exact hbyte (h 0) (congrFun heq 0)
  refine ⟨[c0, c1], [fun i => ~~~c0 i, c1], [fun i => ~~~c0 i, fun i => ~~~c1 i], hreplay, ?_, ?_⟩
  · refine (disputeOver_named_iff blake3 storeElf 2 none _ _ 1).mpr ⟨?_, ?_, c1, ?_, rfl⟩
    · simp [(hflip c1).symm]
    · simp [commonLength, (hflip c1).symm]
    · rw [judge_eq blake3 (disputeOver storeElf 2 none _ _) hreplay]
      simp [judgeBySnapshot, DisputeInput.dir, disputeOver]
  · simpa using hflip c0

/-- A case of it in which the messages of the replay, the only ones hashed where
there is no snapshot, do not collide. -/
theorem vindicated_on_fabricated_prefix : ∃ start chain claim counter,
    replayStart storeElf 0x80000000 [] = some start ∧
      Set.InjOn toyHash (chainMessages toyHash (judgeConfig 2 10) start) ∧
      judgeByReplay toyHash storeElf 0x80000000 [] 2 10 = some (some chain) ∧
      resolve toyHash (disputeOver storeElf 2 none claim counter) = some (.claimHonest 1) ∧
      claim[0]? ≠ chain[0]? := by
  obtain ⟨start, s, t, hstart, -, hst, -, ⟨n, hstop⟩, hs, ht⟩ := storeElf_replay
  have hv : s.mem.Valid := chainStates_valid (replayStart_valid hstart) (by rw [hst]; simp)
  have hinj := (storeElf_injOn hv hst hstop hs ht).mono Set.subset_union_left
  obtain ⟨chain, claim, counter, hdispute⟩ := fabricated_prefix toyHash
  exact ⟨start, chain, claim, counter, hstart, hinj, hdispute⟩

end Provework.Coordinator
