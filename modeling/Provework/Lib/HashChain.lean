import Mathlib.Data.List.Basic
import Mathlib.Data.List.OfFn
import Mathlib.Data.Set.Function
import Provework.Lib.Bytes

/-!
# Hash chains and what they bind

A chain folds a `link` over a list of states, each digest covering the one
before it. If no two of the links actually computed collide, one digest
determines the chain up to its index and the states along it (`chain_binds`).

Collision-freeness is always a statement about the inputs at hand: a function
into digests of a fixed size cannot be injective outright.
-/

namespace Provework.Lib

section

variable {σ δ : Type} (link : δ → σ → δ)

/-- The digests of `states`, chained onto `prev`. -/
def chainFrom (prev : δ) : List σ → List δ
  | [] => []
  | s :: ss => link prev s :: chainFrom (link prev s) ss

/-- The arguments of the links of that chain, in order. -/
def linkArgs (prev : δ) : List σ → List (δ × σ)
  | [] => []
  | s :: ss => (prev, s) :: linkArgs (link prev s) ss

@[simp] theorem length_chainFrom (prev : δ) (ss : List σ) :
    (chainFrom link prev ss).length = ss.length := by
  induction ss generalizing prev with
  | nil => rfl
  | cons s ss ih => rw [chainFrom, List.length_cons, List.length_cons, ih]

theorem chainFrom_dropLast (prev : δ) (ss : List σ) :
    (chainFrom link prev ss).dropLast = chainFrom link prev ss.dropLast := by
  induction ss generalizing prev with
  | nil => rfl
  | cons s ss ih =>
    cases ss with
    | nil => rfl
    | cons t ss => exact congrArg (link prev s :: ·) (ih (link prev s))

/-- The digest at `i` is the link of the arguments at `i`. -/
theorem getElem?_chainFrom (prev : δ) (ss : List σ) (i : Nat) :
    (chainFrom link prev ss)[i]? = (linkArgs link prev ss)[i]?.map fun a => link a.1 a.2 := by
  induction ss generalizing prev i with
  | nil => rfl
  | cons s ss ih =>
    cases i with
    | zero => rfl
    | succ i => simpa [chainFrom, linkArgs] using ih (link prev s) i

/-- The arguments at `i`: the digest before it, or the seed, and the state. -/
theorem linkArgs_eq_some (prev : δ) (ss : List σ) (i : Nat) (p : δ) (s : σ) :
    (linkArgs link prev ss)[i]? = some (p, s) ↔
      (prev :: chainFrom link prev ss)[i]? = some p ∧ ss[i]? = some s := by
  induction ss generalizing prev i with
  | nil => simp [linkArgs]
  | cons t ss ih =>
    cases i with
    | zero => simp [linkArgs]
    | succ i => simpa [linkArgs, chainFrom] using ih (link prev t) i

/-- Two chains with the same digest at `i` had the same digest before it, and
states there that `R` relates. -/
theorem link_inj {R : σ → σ → Prop} {prev : δ} {ss ts : List σ}
    (hinj : ∀ a ∈ linkArgs link prev ss, ∀ b ∈ linkArgs link prev ts,
      link a.1 a.2 = link b.1 b.2 → a.1 = b.1 ∧ R a.2 b.2)
    {i : Nat} {h : δ} (hs : (chainFrom link prev ss)[i]? = some h)
    (ht : (chainFrom link prev ts)[i]? = some h) :
    ∃ p s, (prev :: chainFrom link prev ss)[i]? = some p ∧ ∃ t, ss[i]? = some s ∧
      ts[i]? = some t ∧ (prev :: chainFrom link prev ts)[i]? = some p ∧ R s t := by
  rw [getElem?_chainFrom, Option.map_eq_some_iff] at hs ht
  obtain ⟨⟨p, s⟩, has, hls⟩ := hs
  obtain ⟨⟨q, t⟩, hat, hlt⟩ := ht
  obtain ⟨hpq, hR⟩ := hinj _ (List.mem_of_getElem? has) _ (List.mem_of_getElem? hat)
    (hls.trans hlt.symm)
  obtain ⟨hp, hs0⟩ := (linkArgs_eq_some link prev ss i p s).mp has
  obtain ⟨hq, ht0⟩ := (linkArgs_eq_some link prev ts i q t).mp hat
  exact ⟨p, s, hp, t, hs0, ht0, hq.trans (congrArg some hpq.symm), hR⟩

/-- One digest determines the chain before it and the states it covers, up to
whatever relation `R` a collision-free link determines its state. -/
theorem chain_binds {R : σ → σ → Prop} {prev : δ} {ss ts : List σ}
    (hinj : ∀ a ∈ linkArgs link prev ss, ∀ b ∈ linkArgs link prev ts,
      link a.1 a.2 = link b.1 b.2 → a.1 = b.1 ∧ R a.2 b.2) :
    ∀ {i : Nat} {h : δ}, (chainFrom link prev ss)[i]? = some h →
      (chainFrom link prev ts)[i]? = some h → ∀ j ≤ i,
      (chainFrom link prev ss)[j]? = (chainFrom link prev ts)[j]? ∧
        ∃ s t, ss[j]? = some s ∧ ts[j]? = some t ∧ R s t := by
  intro i
  induction i with
  | zero =>
    intro h hs ht j hj
    obtain rfl : j = 0 := Nat.le_zero.mp hj
    obtain ⟨_, s, _, t, hs0, ht0, _, hR⟩ := link_inj link hinj hs ht
    exact ⟨hs.trans ht.symm, s, t, hs0, ht0, hR⟩
  | succ i ih =>
    intro h hs ht j hj
    obtain ⟨p, s, hp, t, hs0, ht0, hq, hR⟩ := link_inj link hinj hs ht
    rcases Nat.lt_or_eq_of_le hj with hlt | rfl
    · exact ih hp hq j (Nat.le_of_lt_succ hlt)
    · exact ⟨hs.trans ht.symm, s, t, hs0, ht0, hR⟩

end

end Provework.Lib
