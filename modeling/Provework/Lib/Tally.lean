import Mathlib.Data.List.Basic
import Mathlib.Data.List.Nodup
import Mathlib.Data.List.Perm.Subperm

/-!
# Votes grouped by key

A ballot is a list of votes, `key` says what each is for. A `Partition` is what
one gets by sorting the votes into groups, one group a key, each in ballot order.
More than half of the ballot under one key is a majority: there is at most one,
and in a partition ordered by size it can only be the first group.
-/

namespace Provework.Lib

variable {α κ : Type} [DecidableEq κ] (key : α → κ)

/-- The votes for `k`, in ballot order. -/
def bucket (xs : List α) (k : κ) : List α := xs.filter fun x => key x = k

variable {key} {xs : List α} {k k' : κ} {t : Nat}

theorem mem_bucket {x : α} : x ∈ bucket key xs k ↔ x ∈ xs ∧ key x = k := by
  simp [bucket]

theorem bucket_concat (xs : List α) (x : α) (k : κ) :
    bucket key (xs ++ [x]) k = bucket key xs k ++ if key x = k then [x] else [] := by
  rw [bucket, List.filter_append]
  by_cases h : key x = k
  · simp [bucket, h]
  · simp [bucket, h]

/-- Tests that exclude each other pick at most the whole list. -/
theorem length_filter_add_le {p q : α → Bool} (hpq : ∀ x ∈ xs, q x = true → ¬p x = true) :
    (xs.filter p).length + (xs.filter q).length ≤ xs.length := by
  have hsplit := List.length_eq_countP_add_countP p (l := xs)
  have hmono : xs.countP q ≤ xs.countP fun x => ¬p x = true :=
    List.countP_mono_left fun x hx hq => decide_eq_true (hpq x hx hq)
  rw [List.countP_eq_length_filter] at hsplit hmono
  omega

/-- **A majority is unique.** -/
theorem majority_unique (ht : xs.length < 2 * t) (hk : t ≤ (bucket key xs k).length)
    (hk' : t ≤ (bucket key xs k').length) : k = k' := by
  by_contra hne
  have hle : (bucket key xs k).length + (bucket key xs k').length ≤ xs.length := by
    refine length_filter_add_le fun x _ hx hx' => ?_
    rw [decide_eq_true_eq] at hx hx'
    exact hne (hx'.symm.trans hx)
  omega

variable (key xs) in
/-- The votes of `xs` sorted into groups. -/
structure Partition (groups : List (κ × List α)) : Prop where
  nodup : (groups.map Prod.fst).Nodup
  group : ∀ p ∈ groups, p.2 = bucket key xs p.1
  cover : ∀ x ∈ xs, key x ∈ groups.map Prod.fst

namespace Partition

variable {groups : List (κ × List α)}

theorem mem (h : Partition key xs groups) (hk : bucket key xs k ≠ []) :
    (k, bucket key xs k) ∈ groups := by
  obtain ⟨x, hx⟩ := List.exists_mem_of_ne_nil _ hk
  obtain ⟨hmem, rfl⟩ := mem_bucket.mp hx
  obtain ⟨p, hp, hkey⟩ := List.mem_map.mp (h.cover x hmem)
  have hgroup := h.group p hp
  rw [hkey] at hgroup
  exact hgroup ▸ hkey ▸ hp

/-- The order of the groups does not matter. -/
theorem perm (h : Partition key xs groups) {groups' : List (κ × List α)}
    (hp : groups'.Perm groups) : Partition key xs groups' where
  nodup := (hp.map Prod.fst).nodup_iff.mpr h.nodup
  group := fun p hmem => h.group p (hp.subset hmem)
  cover := fun x hx => (hp.map Prod.fst).symm.subset (h.cover x hx)

/-- **With the largest group first, a majority is the first group.** -/
theorem majority_first {p : κ × List α} (h : Partition key xs (p :: groups))
    (hsort : ∀ q ∈ groups, q.2.length ≤ p.2.length) (ht : xs.length < 2 * t) (hpos : 0 < t)
    (hk : t ≤ (bucket key xs k).length) : p = (k, bucket key xs k) := by
  have hne : bucket key xs k ≠ [] := by
    intro hnil
    rw [hnil, List.length_nil] at hk
    omega
  rcases List.mem_cons.mp (h.mem hne) with heq | hmem
  · exact heq.symm
  · -- the first group is at least as large, so it is a majority too
    have hle : (bucket key xs k).length ≤ p.2.length := hsort _ hmem
    have hp := h.group p List.mem_cons_self
    have hpk : p.1 = k := majority_unique ht (by rw [← hp]; omega) hk
    exact Prod.ext hpk (by rw [hp, hpk])

end Partition

end Provework.Lib
