import Provework.Lib.Tally
import Provework.Coordinator.Quorum

/-!
# What `decide` decides

`decide` is strict majority over the pool that was asked: with `R` the first
result of each worker, `p` the larger of the pool and `R`, and `t = p / 2 + 1`,
it accepts the one hash that `t` halted results of `R` carry. `decide_cases` is
that statement as one case split, `decide_strict_majority` the specification it
amounts to.

The output it returns is another matter. It is the first group member's, and the
members' outputs are never compared: `decide_order_independent_iff` says when
the order of arrival cannot show.
-/

namespace Provework.Coordinator

open Provework.Lib Provework.Jobfmt

namespace Quorum

/-! ## The quantities -/

section

variable (results : List WorkerResult) (expectedPool : Nat)

/-- The first result of each worker. -/
def voters : List WorkerResult := dedup [] results

def pool : Nat := max expectedPool (voters results).length

def threshold : Nat := pool results expectedPool / 2 + 1

/-- The halted results with hash `h`. -/
def group (h : String) : List WorkerResult :=
  (voters results).filter fun r => r.status = "halted" ∧ r.resultHash = h

/-- The results that are not halted. -/
def trapped : List WorkerResult := (voters results).filter fun r => r.status ≠ "halted"

/-- A strict majority of the pool. -/
def Majority (h : String) : Prop := threshold results expectedPool ≤ (group results h).length

instance (h : String) : Decidable (Majority results expectedPool h) :=
  inferInstanceAs (Decidable (_ ≤ _))

/-- The members of the group of `h` carry one chain. -/
def ChainsAgree (h : String) : Prop :=
  ∀ a ∈ group results h, ∀ b ∈ group results h, a.chunkHashes = b.chunkHashes

end

/-! ## Deduplication -/

theorem dedup_sublist (seen : List String) (results : List WorkerResult) :
    (dedup seen results).Sublist results := by
  induction results generalizing seen with
  | nil => exact List.Sublist.refl _
  | cons r rs ih =>
    rw [dedup]
    split
    · exact (ih seen).cons r
    · exact (ih _).cons_cons r

/-- What is kept has a fresh id, and is the first with it. -/
theorem dedup_find (seen : List String) (results : List WorkerResult) (id : String) :
    (dedup seen results).find? (fun r => r.workerId = id)
      = if id ∈ seen then none else results.find? fun r => r.workerId = id := by
  induction results generalizing seen with
  | nil => simp [dedup]
  | cons r rs ih =>
    rw [dedup]
    by_cases hr : r.workerId ∈ seen
    · rw [if_pos hr, ih]
      by_cases hid : id ∈ seen
      · rw [if_pos hid, if_pos hid]
      · have hne : r.workerId ≠ id := fun h => hid (h ▸ hr)
        rw [if_neg hid, if_neg hid, List.find?_cons_of_neg (by simpa using hne)]
    · rw [if_neg hr]
      by_cases hid : r.workerId = id
      · subst hid
        simp [hr]
      · rw [List.find?_cons_of_neg (by simpa using hid),
          List.find?_cons_of_neg (by simpa using hid), ih]
        simp [List.mem_cons, Ne.symm hid]

theorem dedup_ids (seen : List String) (results : List WorkerResult) :
    ((dedup seen results).map (·.workerId)).Nodup ∧
      ∀ r ∈ dedup seen results, r.workerId ∉ seen := by
  induction results generalizing seen with
  | nil => exact ⟨List.nodup_nil, fun r hr => absurd hr List.not_mem_nil⟩
  | cons r rs ih =>
    rw [dedup]
    split
    · exact ih seen
    next hr =>
      obtain ⟨hnodup, hfresh⟩ := ih (r.workerId :: seen)
      constructor
      · rw [List.map_cons, List.nodup_cons]
        refine ⟨fun hmem => ?_, hnodup⟩
        obtain ⟨r', hr', hid⟩ := List.mem_map.mp hmem
        exact hfresh r' hr' (hid ▸ List.mem_cons_self)
      · intro r' hr'
        rcases List.mem_cons.mp hr' with rfl | hr'
        · exact hr
        · exact fun hseen => hfresh r' hr' (List.mem_cons_of_mem _ hseen)

/-- Distinct workers are all kept. -/
theorem dedup_eq_self (seen : List String) {results : List WorkerResult}
    (hnodup : (results.map (·.workerId)).Nodup) (hseen : ∀ r ∈ results, r.workerId ∉ seen) :
    dedup seen results = results := by
  induction results generalizing seen with
  | nil => rfl
  | cons r rs ih =>
    rw [List.map_cons, List.nodup_cons] at hnodup
    rw [dedup, if_neg (hseen r List.mem_cons_self), ih _ hnodup.2]
    intro r' hr' hmem
    rcases List.mem_cons.mp hmem with hid | hmem
    · exact hnodup.1 (hid ▸ List.mem_map_of_mem hr')
    · exact hseen r' (List.mem_cons_of_mem r hr') hmem

/-! ## Grouping -/

/-- The keys a result adds: its own, unless there is such a group. -/
theorem addToGroups_keys (r : WorkerResult) (groups : List (String × List WorkerResult)) :
    (addToGroups r groups).map Prod.fst
      = if r.resultHash ∈ groups.map Prod.fst then groups.map Prod.fst
        else groups.map Prod.fst ++ [r.resultHash] := by
  induction groups with
  | nil => rfl
  | cons p groups ih =>
    obtain ⟨h, g⟩ := p
    rw [addToGroups]
    by_cases hr : h = r.resultHash
    · simp [hr]
    · rw [if_neg hr, List.map_cons, ih]
      by_cases hmem : r.resultHash ∈ groups.map Prod.fst
      · simp [hmem]
      · simp [hmem, Ne.symm hr]

/-- The groups after a result: the old ones, the one of its hash longer by it. -/
theorem mem_addToGroups {r : WorkerResult} {groups : List (String × List WorkerResult)}
    (hnodup : (groups.map Prod.fst).Nodup) {p : String × List WorkerResult}
    (hp : p ∈ addToGroups r groups) :
    (p ∈ groups ∧ p.1 ≠ r.resultHash) ∨
      (∃ g, (r.resultHash, g) ∈ groups ∧ p = (r.resultHash, g ++ [r])) ∨
      (r.resultHash ∉ groups.map Prod.fst ∧ p = (r.resultHash, [r])) := by
  induction groups with
  | nil => exact Or.inr (Or.inr ⟨List.not_mem_nil, List.mem_singleton.mp hp⟩)
  | cons q groups ih =>
    obtain ⟨h, g⟩ := q
    rw [List.map_cons, List.nodup_cons] at hnodup
    rw [addToGroups] at hp
    by_cases hr : h = r.resultHash
    · rw [if_pos hr] at hp
      rcases List.mem_cons.mp hp with rfl | hp
      · exact Or.inr (Or.inl ⟨g, hr ▸ List.mem_cons_self, by rw [hr]⟩)
      · refine Or.inl ⟨List.mem_cons_of_mem _ hp, fun hkey => hnodup.1 ?_⟩
        rw [hr, ← hkey]
        exact List.mem_map.mpr ⟨p, hp, rfl⟩
    · rw [if_neg hr] at hp
      rcases List.mem_cons.mp hp with rfl | hp
      · exact Or.inl ⟨List.mem_cons_self, hr⟩
      · rcases ih hnodup.2 hp with ⟨hmem, hkey⟩ | ⟨g', hmem, rfl⟩ | ⟨hno, rfl⟩
        · exact Or.inl ⟨List.mem_cons_of_mem _ hmem, hkey⟩
        · exact Or.inr (Or.inl ⟨g', List.mem_cons_of_mem _ hmem, rfl⟩)
        · refine Or.inr (Or.inr ⟨?_, rfl⟩)
          rw [List.map_cons, List.mem_cons, not_or]
          exact ⟨Ne.symm hr, hno⟩

/-- One more result keeps the groups a partition. -/
theorem addToGroups_partition {rs : List WorkerResult} {groups : List (String × List WorkerResult)}
    (h : Partition (·.resultHash) rs groups) (r : WorkerResult) :
    Partition (·.resultHash) (rs ++ [r]) (addToGroups r groups) where
  nodup := by
    rw [addToGroups_keys]
    split
    · exact h.nodup
    next hno => exact List.nodup_append.mpr ⟨h.nodup, List.nodup_singleton _, by
        intro a ha b hb hab
        rw [List.mem_singleton.mp hb] at hab
        exact hno (hab ▸ ha)⟩
  group := by
    intro p hp
    rw [bucket_concat]
    rcases mem_addToGroups h.nodup hp with ⟨hmem, hkey⟩ | ⟨g, hmem, rfl⟩ | ⟨hno, rfl⟩
    · rw [if_neg (Ne.symm hkey), List.append_nil, h.group p hmem]
    · rw [if_pos rfl]
      exact congrArg (· ++ [r]) (h.group _ hmem)
    · -- no group yet, so no earlier result with this hash
      have hnil : bucket (·.resultHash) rs r.resultHash = [] := by
        by_contra hne
        exact hno (List.mem_map_of_mem (h.mem hne))
      rw [if_pos rfl, hnil]
      rfl
  cover := by
    intro x hx
    rw [addToGroups_keys]
    rcases List.mem_append.mp hx with hx | hx
    · have hold := h.cover x hx
      split
      · exact hold
      · exact List.mem_append_left _ hold
    · rw [List.mem_singleton.mp hx]
      split
      · assumption
      · exact List.mem_append_right _ (List.mem_singleton_self _)

theorem groupBy_partition (rs : List WorkerResult) :
    Partition (·.resultHash) rs (groupBy rs) := by
  -- the fold, with the results seen so far as the ballot
  have hfold : ∀ (todo seen : List WorkerResult) (groups : List (String × List WorkerResult)),
      Partition (·.resultHash) seen groups →
      Partition (·.resultHash) (seen ++ todo)
        (todo.foldl (fun groups r => addToGroups r groups) groups) := by
    intro todo
    induction todo with
    | nil =>
      intro seen groups h
      rwa [List.append_nil]
    | cons r todo ih =>
      intro seen groups h
      rw [List.foldl_cons, List.append_cons]
      exact ih _ _ (addToGroups_partition h r)
  exact hfold rs [] [] ⟨List.nodup_nil, by simp, by simp⟩

/-- Largest first: a partition again, and nothing after the head is larger. -/
theorem bySize_spec (rs : List WorkerResult) :
    Partition (·.resultHash) rs (bySize (groupBy rs)) ∧
      (bySize (groupBy rs)).Pairwise fun a b => b.2.length ≤ a.2.length := by
  refine ⟨(groupBy_partition rs).perm (List.mergeSort_perm _ _), ?_⟩
  have hsorted : (bySize (groupBy rs)).Pairwise fun a b =>
      Decidable.decide (b.2.length ≤ a.2.length) = true := by
    apply List.pairwise_mergeSort
    · intro a b c hab hbc
      rw [decide_eq_true_eq] at hab hbc ⊢
      omega
    · intro a b
      rw [Bool.or_eq_true, decide_eq_true_eq, decide_eq_true_eq]
      omega
  exact hsorted.imp fun h => of_decide_eq_true h

/-! ## The decision -/

section

variable {results : List WorkerResult} {expectedPool : Nat} {h h' : String}

theorem voters_lt : (voters results).length < 2 * threshold results expectedPool := by
  unfold threshold pool
  omega

theorem mem_group {r : WorkerResult} :
    r ∈ group results h ↔ r ∈ voters results ∧ r.status = "halted" ∧ r.resultHash = h := by
  simp [group]

/-- The group of a hash is its bucket among the halted results. -/
theorem group_eq_bucket (results : List WorkerResult) (h : String) :
    group results h
      = bucket (·.resultHash) ((voters results).filter fun r => r.status = "halted") h := by
  rw [bucket, List.filter_filter, group]
  refine List.filter_congr fun r _ => ?_
  simp only [Bool.decide_and, Bool.and_comm]

theorem Majority.unique (hm : Majority results expectedPool h)
    (hm' : Majority results expectedPool h') : h = h' := by
  unfold Majority at hm hm'
  rw [group_eq_bucket] at hm hm'
  refine majority_unique ?_ hm hm'
  have hle := List.length_filter_le (fun r => Decidable.decide (r.status = "halted"))
    (voters results)
  have hlt : (voters results).length < 2 * threshold results expectedPool := voters_lt
  omega

/-- A majority for a hash leaves no majority of failed runs. -/
theorem Majority.trapped_lt (hm : Majority results expectedPool h) :
    (trapped results).length < threshold results expectedPool := by
  have hsum : (group results h).length + (trapped results).length ≤ (voters results).length := by
    refine length_filter_add_le fun r _ htrap hgroup => ?_
    rw [decide_eq_true_eq] at htrap hgroup
    exact htrap hgroup.1
  have hlt : (voters results).length < 2 * threshold results expectedPool := voters_lt
  have ht : threshold results expectedPool ≤ (group results h).length := hm
  omega

theorem trapped_length (results : List WorkerResult) :
    (voters results).length - ((voters results).filter fun r => r.status = "halted").length
      = (trapped results).length := by
  have hsplit := List.length_eq_countP_add_countP
    (fun r : WorkerResult => Decidable.decide (r.status = "halted")) (l := voters results)
  rw [List.countP_eq_length_filter, List.countP_eq_length_filter] at hsplit
  have htrap : trapped results
      = (voters results).filter fun r => ¬Decidable.decide (r.status = "halted") = true := by
    refine List.filter_congr fun r _ => ?_
    simp
  rw [htrap]
  omega

theorem Majority.group_ne_nil (hm : Majority results expectedPool h) : group results h ≠ [] := by
  intro hnil
  unfold Majority threshold at hm
  rw [hnil, List.length_nil] at hm
  omega

/-- Only a hash somebody reported can have a majority. -/
theorem Majority.mem_hashes (hm : Majority results expectedPool h) :
    h ∈ results.map (·.resultHash) := by
  obtain ⟨r, hr⟩ := List.exists_mem_of_ne_nil _ hm.group_ne_nil
  obtain ⟨hvoter, -, rfl⟩ := mem_group.mp hr
  exact List.mem_map_of_mem ((dedup_sublist [] results).subset hvoter)

/-- A majority is the group `decide` looks at. -/
theorem Majority.first (hm : Majority results expectedPool h) :
    ∃ rest, bySize (groupBy ((voters results).filter fun r => r.status = "halted"))
      = (h, group results h) :: rest := by
  obtain ⟨hpart, hsort⟩ := bySize_spec ((voters results).filter fun r => r.status = "halted")
  generalize bySize (groupBy ((voters results).filter fun r => r.status = "halted")) = groups
    at hpart hsort
  have hne := hm.group_ne_nil
  have hlt : (voters results).length < 2 * threshold results expectedPool := voters_lt
  have hpos : 0 < threshold results expectedPool := Nat.succ_pos _
  have hle := List.length_filter_le (fun r => Decidable.decide (r.status = "halted"))
    (voters results)
  unfold Majority at hm
  rw [group_eq_bucket] at hm hne ⊢
  cases groups with
  | nil => exact absurd (hpart.mem hne) List.not_mem_nil
  | cons p rest =>
    exact ⟨rest, congrArg (· :: rest)
      (hpart.majority_first (List.pairwise_cons.mp hsort).1 (by omega) hpos hm)⟩

/-- With a majority the chains decide. -/
theorem decide_majority (hm : Majority results expectedPool h) {first : WorkerResult}
    {rest : List WorkerResult} (hgroup : group results h = first :: rest) :
    decide results expectedPool =
      if (first :: rest).all fun r => r.chunkHashes = first.chunkHashes then
        .accept h first.outputHex ((first :: rest).map (·.workerId)) false
      else .reject "winning group disagrees on chunk chain (dispute required)" := by
  obtain ⟨others, hfirst⟩ := hm.first
  have hthr : max expectedPool (voters results).length / 2 + 1 ≤ (first :: rest).length :=
    hgroup ▸ hm
  have hhalted : (first :: rest).length
      ≤ ((voters results).filter fun r => r.status = "halted").length := by
    rw [← hgroup, group_eq_bucket]
    exact List.length_filter_le _ _
  unfold decide
  simp only [show dedup [] results = voters results from rfl, hfirst, hgroup]
  rw [if_pos (Nat.le_trans hthr hhalted), if_pos hthr]

/-- Without one, `decideWithout`. -/
theorem decide_no_majority (hno : ∀ h, ¬Majority results expectedPool h) :
    decide results expectedPool = decideWithout (pool results expectedPool)
      (threshold results expectedPool) (trapped results).length := by
  obtain ⟨hpart, -⟩ := bySize_spec ((voters results).filter fun r => r.status = "halted")
  rw [← trapped_length]
  unfold decide
  simp only [show dedup [] results = voters results from rfl]
  split
  · split
    next hash first rest others hgroups =>
      -- the first group is the group of its hash, so it is no majority
      have hgroup : first :: rest = group results hash := by
        rw [group_eq_bucket]
        exact hpart.group _ (hgroups ▸ List.mem_cons_self)
      have hfew : ¬max expectedPool (voters results).length / 2 + 1 ≤ (first :: rest).length :=
        fun hthr => hno hash (show threshold results expectedPool ≤ _ from hgroup ▸ hthr)
      rw [if_neg hfew]
      rfl
    next => rfl
  · rfl

/-- Whether the group agrees on the chain, from its first member's point of view. -/
theorem chainsAgree_iff {first : WorkerResult} {rest : List WorkerResult}
    (hgroup : group results h = first :: rest) :
    ((first :: rest).all fun r => r.chunkHashes = first.chunkHashes) = true
      ↔ ChainsAgree results h := by
  unfold ChainsAgree
  rw [hgroup, List.all_eq_true]
  constructor
  · intro hall a ha b hb
    exact (of_decide_eq_true (hall a ha)).trans (of_decide_eq_true (hall b hb)).symm
  · intro hagree r hr
    exact decide_eq_true (hagree r hr first List.mem_cons_self)

variable (results expectedPool) in
/-- **What `decide` returns**: the majority's answer, a rejection because the
majority disagrees on the chain, or, without a majority, what is left. -/
theorem decide_cases :
    (∃ h first rest, Majority results expectedPool h ∧ group results h = first :: rest ∧
      ChainsAgree results h ∧
      decide results expectedPool
        = .accept h first.outputHex ((group results h).map (·.workerId)) false) ∨
    (∃ h, Majority results expectedPool h ∧ ¬ChainsAgree results h ∧
      decide results expectedPool
        = .reject "winning group disagrees on chunk chain (dispute required)") ∨
    ((∀ h, ¬Majority results expectedPool h) ∧
      decide results expectedPool = decideWithout (pool results expectedPool)
        (threshold results expectedPool) (trapped results).length) := by
  by_cases hmaj : ∃ h, Majority results expectedPool h
  · obtain ⟨h, hm⟩ := hmaj
    obtain ⟨first, rest, hgroup⟩ := List.exists_cons_of_ne_nil hm.group_ne_nil
    rw [decide_majority hm hgroup]
    by_cases hagree : ChainsAgree results h
    · rw [if_pos ((chainsAgree_iff hgroup).mpr hagree), ← hgroup]
      exact Or.inl ⟨h, first, rest, hm, hgroup, hagree, rfl⟩
    · rw [if_neg fun hall => hagree ((chainsAgree_iff hgroup).mp hall)]
      exact Or.inr (Or.inl ⟨h, hm, hagree, rfl⟩)
  · have hno : ∀ h, ¬Majority results expectedPool h := fun h hm => hmaj ⟨h, hm⟩
    exact Or.inr (Or.inr ⟨hno, decide_no_majority hno⟩)

theorem decide_eq_accept_iff {hash : String} {out : Option String} {agreed : List String}
    {zk : Bool} :
    decide results expectedPool = .accept hash out agreed zk ↔
      ∃ first rest, Majority results expectedPool hash ∧ group results hash = first :: rest ∧
        ChainsAgree results hash ∧ out = first.outputHex ∧
        agreed = (group results hash).map (·.workerId) ∧ zk = false := by
  constructor
  · intro hdec
    rcases decide_cases results expectedPool with
      ⟨h, first, rest, hm, hgroup, hagree, hacc⟩ | ⟨h, -, -, hrej⟩ | ⟨-, hleft⟩
    · obtain ⟨rfl, rfl, rfl, rfl⟩ := Decision.accept.inj (hacc.symm.trans hdec)
      exact ⟨first, rest, hm, hgroup, hagree, rfl, rfl, rfl⟩
    · rw [hdec] at hrej
      cases hrej
    · rw [hdec, decideWithout] at hleft
      split at hleft
      · cases hleft
      · split at hleft <;> cases hleft
  · rintro ⟨first, rest, hm, hgroup, hagree, rfl, rfl, rfl⟩
    rw [decide_majority hm hgroup, if_pos ((chainsAgree_iff hgroup).mpr hagree), ← hgroup]

theorem decide_eq_reject_iff :
    (∃ reason, decide results expectedPool = .reject reason) ↔
      (∃ h, Majority results expectedPool h ∧ ¬ChainsAgree results h) ∨
      threshold results expectedPool ≤ (trapped results).length ∨
      (5 ≤ pool results expectedPool ∧ ∀ h, ¬Majority results expectedPool h) := by
  rcases decide_cases results expectedPool with
    ⟨h, first, rest, hm, -, hagree, hacc⟩ | ⟨h, hm, hdis, hrej⟩ | ⟨hno, hleft⟩
  · rw [hacc]
    refine iff_of_false (fun ⟨_, h⟩ => by cases h) ?_
    rintro (⟨h', hm', hdis⟩ | htrap | ⟨-, hno⟩)
    · exact hdis (hm'.unique hm ▸ hagree)
    · exact absurd htrap (Nat.not_le.mpr hm.trapped_lt)
    · exact hno h hm
  · exact iff_of_true ⟨_, hrej⟩ (Or.inl ⟨h, hm, hdis⟩)
  · rw [hleft, decideWithout]
    by_cases htrap : threshold results expectedPool ≤ (trapped results).length
    · rw [if_pos htrap]
      exact iff_of_true ⟨_, rfl⟩ (Or.inr (Or.inl htrap))
    · rw [if_neg htrap]
      by_cases hfive : 5 ≤ pool results expectedPool
      · rw [if_pos hfive]
        exact iff_of_true ⟨_, rfl⟩ (Or.inr (Or.inr ⟨hfive, hno⟩))
      · rw [if_neg hfive]
        refine iff_of_false (fun ⟨_, h⟩ => by cases h) ?_
        rintro (⟨h', hm', -⟩ | htrap' | ⟨hfive', -⟩)
        · exact hno h' hm'
        · exact htrap htrap'
        · exact hfive hfive'

theorem decide_eq_escalate_iff :
    decide results expectedPool = .escalate ↔
      (∀ h, ¬Majority results expectedPool h) ∧
      (trapped results).length < threshold results expectedPool ∧
      pool results expectedPool < 5 := by
  rcases decide_cases results expectedPool with
    ⟨h, first, rest, hm, -, -, hacc⟩ | ⟨h, hm, -, hrej⟩ | ⟨hno, hleft⟩
  · rw [hacc]
    exact iff_of_false (fun h => by cases h) fun hr => hr.1 h hm
  · rw [hrej]
    exact iff_of_false (fun h => by cases h) fun hr => hr.1 h hm
  · rw [hleft, decideWithout]
    by_cases htrap : threshold results expectedPool ≤ (trapped results).length
    · rw [if_pos htrap]
      exact iff_of_false (fun h => by cases h) fun hr => by omega
    · rw [if_neg htrap]
      by_cases hfive : 5 ≤ pool results expectedPool
      · rw [if_pos hfive]
        exact iff_of_false (fun h => by cases h) fun hr => by omega
      · rw [if_neg hfive]
        exact iff_of_true rfl ⟨hno, by omega, by omega⟩

end

/-- `R` has the first result of every worker id in `results`, in order. -/
structure FirstOfEach (results R : List WorkerResult) : Prop where
  sublist : R.Sublist results
  nodup : (R.map (·.workerId)).Nodup
  first : ∀ id, R.find? (fun r => r.workerId = id) = results.find? fun r => r.workerId = id

theorem voters_firstOfEach (results : List WorkerResult) :
    FirstOfEach results (voters results) where
  sublist := dedup_sublist [] results
  nodup := (dedup_ids [] results).1
  first := fun id => by
    rw [voters, dedup_find, if_neg List.not_mem_nil]

theorem group_ids_nodup (results : List WorkerResult) (h : String) :
    ((group results h).map (·.workerId)).Nodup :=
  (voters_firstOfEach results).nodup.sublist (List.filter_sublist.map _)

/-- **`decide` is strict majority of the pool.** For all results and every pool
size: it accepts exactly when the group of some hash has a strict majority of
the pool and one chain, and then with that hash, with the group's workers, each
once, and no other hash could have been accepted; it rejects when a majority
group disagrees on the chain, when a majority of the results is not halted, or
from five workers on when neither is the case; and it escalates otherwise. -/
theorem decide_strict_majority (results : List WorkerResult) (expectedPool : Nat) :
    FirstOfEach results (voters results) ∧
    ((∃ hash out agreed zk, decide results expectedPool = .accept hash out agreed zk) ↔
      ∃ h, Majority results expectedPool h ∧ ChainsAgree results h) ∧
    (∀ hash out agreed zk, decide results expectedPool = .accept hash out agreed zk →
      Majority results expectedPool hash ∧ ChainsAgree results hash ∧
      agreed = (group results hash).map (·.workerId) ∧ agreed.Nodup ∧ zk = false ∧
      ∀ h, Majority results expectedPool h → h = hash) ∧
    ((∃ reason, decide results expectedPool = .reject reason) ↔
      (∃ h, Majority results expectedPool h ∧ ¬ChainsAgree results h) ∨
      threshold results expectedPool ≤ (trapped results).length ∨
      (5 ≤ pool results expectedPool ∧ ∀ h, ¬Majority results expectedPool h)) ∧
    (decide results expectedPool = .escalate ↔
      (∀ h, ¬Majority results expectedPool h) ∧
      (trapped results).length < threshold results expectedPool ∧
      pool results expectedPool < 5) := by
  refine ⟨voters_firstOfEach results, ⟨?_, ?_⟩, ?_, decide_eq_reject_iff, decide_eq_escalate_iff⟩
  · rintro ⟨hash, out, agreed, zk, hacc⟩
    obtain ⟨_, _, hm, -, hagree, -⟩ := decide_eq_accept_iff.mp hacc
    exact ⟨hash, hm, hagree⟩
  · rintro ⟨h, hm, hagree⟩
    obtain ⟨first, rest, hgroup⟩ := List.exists_cons_of_ne_nil hm.group_ne_nil
    exact ⟨h, _, _, _, decide_eq_accept_iff.mpr
      ⟨first, rest, hm, hgroup, hagree, rfl, rfl, rfl⟩⟩
  · intro hash out agreed zk hacc
    obtain ⟨_, _, hm, -, hagree, -, rfl, hzk⟩ := decide_eq_accept_iff.mp hacc
    exact ⟨hm, hagree, rfl, group_ids_nodup results hash, hzk, fun h hm' => hm'.unique hm⟩

/-! ## The order of arrival -/

section

variable {results results' : List WorkerResult} {expectedPool : Nat} {h : String}

theorem voters_eq_self (hnodup : (results.map (·.workerId)).Nodup) : voters results = results :=
  dedup_eq_self [] hnodup fun _ _ => List.not_mem_nil

/-- A halted result that arrives first is the first of its group. -/
theorem group_cons {r : WorkerResult} (hnodup : ((r :: results).map (·.workerId)).Nodup)
    (hr : r.status = "halted" ∧ r.resultHash = h) :
    group (r :: results) h = r :: group results h := by
  unfold group
  rw [voters_eq_self hnodup, voters_eq_self (List.nodup_cons.mp hnodup).2]
  exact List.filter_cons_of_pos (by simpa using hr)

/-- Results of distinct workers, in another order: the same groups, reordered. -/
theorem group_perm (hnodup : (results.map (·.workerId)).Nodup) (hp : results'.Perm results)
    (h : String) : (group results' h).Perm (group results h) := by
  have hnodup' : (results'.map (·.workerId)).Nodup := (hp.map _).nodup_iff.mpr hnodup
  unfold group
  rw [voters_eq_self hnodup, voters_eq_self hnodup']
  exact hp.filter _

theorem threshold_perm (hnodup : (results.map (·.workerId)).Nodup) (hp : results'.Perm results) :
    threshold results' expectedPool = threshold results expectedPool := by
  have hnodup' : (results'.map (·.workerId)).Nodup := (hp.map _).nodup_iff.mpr hnodup
  unfold threshold pool
  rw [voters_eq_self hnodup, voters_eq_self hnodup', hp.length_eq]

/-- Another order is accepted too, with the output of its first group member. -/
theorem decide_perm (hnodup : (results.map (·.workerId)).Nodup) (hp : results'.Perm results)
    {hash : String} {out : Option String} {agreed : List String} {zk : Bool}
    (hacc : decide results expectedPool = .accept hash out agreed zk) :
    ∃ first rest, group results' hash = first :: rest ∧
      decide results' expectedPool
        = .accept hash first.outputHex ((group results' hash).map (·.workerId)) zk := by
  obtain ⟨_, _, hm, -, hagree, -, -, rfl⟩ := decide_eq_accept_iff.mp hacc
  have hgroup := group_perm hnodup hp hash
  have hm' : Majority results' expectedPool hash := by
    unfold Majority
    rw [threshold_perm hnodup hp, hgroup.length_eq]
    exact hm
  have hagree' : ChainsAgree results' hash := fun a ha b hb =>
    hagree a (hgroup.subset ha) b (hgroup.subset hb)
  obtain ⟨first, rest, hfirst⟩ := List.exists_cons_of_ne_nil hm'.group_ne_nil
  exact ⟨first, rest, hfirst, decide_eq_accept_iff.mpr
    ⟨first, rest, hm', hfirst, hagree', rfl, rfl, rfl⟩⟩

end

/-- **When the order of arrival cannot show.** For results of distinct workers
that are accepted: every reordering is accepted with the same hash, the same
workers and the same output exactly when the members of the accepted group
claim one output, and that is also exactly when the output returned is the one
every agreed worker claimed. -/
theorem decide_order_independent_iff {results : List WorkerResult} {expectedPool : Nat}
    (hnodup : (results.map (·.workerId)).Nodup) {hash : String} {out : Option String}
    {agreed : List String} {zk : Bool}
    (hacc : decide results expectedPool = .accept hash out agreed zk) :
    ((∀ results' : List WorkerResult, results'.Perm results →
        ∃ agreed', decide results' expectedPool = .accept hash out agreed' zk ∧
          ∀ w, w ∈ agreed' ↔ w ∈ agreed) ↔
      ∀ a ∈ group results hash, ∀ b ∈ group results hash, a.outputHex = b.outputHex) ∧
    ((∀ r ∈ results, r.workerId ∈ agreed → r.outputHex = out) ↔
      ∀ a ∈ group results hash, ∀ b ∈ group results hash, a.outputHex = b.outputHex) := by
  obtain ⟨first, rest, hm, hgroup, -, hout, hids, -⟩ := decide_eq_accept_iff.mp hacc
  have hmem : ∀ r ∈ group results hash, r ∈ results := fun r hr =>
    (dedup_sublist [] results).subset (mem_group.mp hr).1
  have hfirst : first ∈ group results hash := hgroup ▸ List.mem_cons_self
  refine ⟨⟨fun hall => ?_, fun hsame results' hp => ?_⟩,
    ⟨fun hall a ha b hb => ?_, fun hsame r hr hr' => ?_⟩⟩
  · -- let any member arrive first: its output is the one returned
    have hone : ∀ r ∈ group results hash, r.outputHex = out := by
      intro r hr
      have hp : (r :: results.erase r).Perm results := (List.perm_cons_erase (hmem r hr)).symm
      obtain ⟨agreed', hacc', -⟩ := hall _ hp
      obtain ⟨f, fs, hf, hdec⟩ := decide_perm hnodup hp hacc
      rw [group_cons ((hp.map _).nodup_iff.mpr hnodup) (mem_group.mp hr).2] at hf
      obtain rfl : r = f := List.head_eq_of_cons_eq hf
      exact (Decision.accept.inj (hdec.symm.trans hacc')).2.1
    exact fun a ha b hb => (hone a ha).trans (hone b hb).symm
  · obtain ⟨f, fs, hf, hdec⟩ := decide_perm hnodup hp hacc
    have hperm := group_perm hnodup hp hash
    have hfmem : f ∈ group results hash := hperm.subset (hf ▸ List.mem_cons_self)
    refine ⟨_, by rw [hdec, hsame f hfmem first hfirst, hout], fun w => ?_⟩
    rw [hids]
    exact (hperm.map _).mem_iff
  · have hone : ∀ r ∈ group results hash, r.outputHex = out := fun r hr =>
      hall r (hmem r hr) (hids ▸ List.mem_map_of_mem hr)
    exact (hone a ha).trans (hone b hb).symm
  · -- the agreed worker's result is the one in the group: ids are distinct
    rw [hids] at hr'
    obtain ⟨r', hmem', hid⟩ := List.mem_map.mp hr'
    obtain rfl : r' = r := List.inj_on_of_nodup_map hnodup (hmem r' hmem') hr hid
    exact (hsame r' hmem' first hfirst).trans hout.symm

/-- A halted result of worker `w` that claims `output`. -/
def claiming (w output : String) : WorkerResult :=
  { workerId := w, jobId := "job-1", status := "halted", instructions := 1, resultHash := "aa"
    chunkHashes := ["aa"], outputHex := some output, trap := none, pubkeyHex := none
    sigHex := none }

/-- Two workers with one hash and one chain are accepted, with the first one's output. -/
theorem decide_two (w w' output output' : String) (hw : w ≠ w') :
    decide [claiming w output, claiming w' output'] 2
      = .accept "aa" (some output) [w, w'] false := by
  have hnodup : ([claiming w output, claiming w' output'].map (·.workerId)).Nodup := by
    simpa [claiming] using hw
  have hgroup : group [claiming w output, claiming w' output'] "aa"
      = [claiming w output, claiming w' output'] := by
    rw [group, voters_eq_self hnodup]
    rfl
  refine decide_eq_accept_iff.mpr ⟨_, _, ?_, hgroup, ?_, rfl, ?_, rfl⟩
  · rw [Majority, hgroup, threshold, pool, voters_eq_self hnodup]
    show max 2 2 / 2 + 1 ≤ 2
    omega
  · intro a ha b hb
    rw [hgroup] at ha hb
    simp only [List.mem_cons, List.not_mem_nil, or_false] at ha hb
    rcases ha with rfl | rfl <;> rcases hb with rfl | rfl <;> rfl
  · rw [hgroup]
    rfl

/-- Two workers that claim the same output, in the other order. -/
theorem decide_order_independent_two :
    ∃ agreed', decide [claiming "wB" "00", claiming "wA" "00"] 2
        = .accept "aa" (some "00") agreed' false ∧ ∀ w, w ∈ agreed' ↔ w ∈ ["wA", "wB"] := by
  have hout : ∀ r ∈ group [claiming "wA" "00", claiming "wB" "00"] "aa",
      r.outputHex = some "00" := by
    decide
  exact (decide_order_independent_iff (by decide)
    (decide_two "wA" "wB" "00" "00" (by decide))).1.mpr
      (fun a ha b hb => (hout a ha).trans (hout b hb).symm) _ (List.Perm.swap _ _ _)

/-- The same two results, in the two orders: two different outputs delivered. -/
theorem decide_order_shows :
    decide [claiming "wA" "00", claiming "wB" "01"] 2
        = .accept "aa" (some "00") ["wA", "wB"] false ∧
      decide [claiming "wB" "01", claiming "wA" "00"] 2
        = .accept "aa" (some "01") ["wB", "wA"] false :=
  ⟨decide_two _ _ _ _ (by decide), decide_two _ _ _ _ (by decide)⟩

end Quorum

end Provework.Coordinator
