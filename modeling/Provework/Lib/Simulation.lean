import Provework.Lib.HashChain
import Provework.Lib.Sampling

/-!
# A system that carries out a specification

A specification says, by a relation, which turns a state may take; `Runs` are its
runs under a budget. A deterministic system whose states stand for states of the
specification, and which takes every turn that is prescribed, takes every run: it
ends where the run ends and passes the states of the run (`run_simulates`). What an
observer samples of it, and what is chained over the samples, is then a matter of
the run alone.
-/

namespace Provework.Lib

section

variable {α σ ε : Type}

/-- A turn, seen through what the states stand for. -/
def Turn.map (f : σ → α) : Turn σ ε → Turn α ε
  | .panic => .panic
  | .exit s e => .exit (f s) e
  | .next s silent => .next (f s) silent

/-- The runs of a specification within a budget: the turns that go on, then the exit. -/
inductive Runs (Spec : α → Turn α ε → Prop) (out : ε) : Nat → α → List (α × Bool) → α → ε → Prop
  | spent (a : α) : Runs Spec out 0 a [] a out
  | exit {left : Nat} {a z : α} {e : ε} (h : Spec a (.exit z e)) : Runs Spec out (left + 1) a [] z e
  | next {left : Nat} {a b z : α} {silent : Bool} {path : List (α × Bool)} {e : ε}
      (h : Spec a (.next b silent)) (rest : Runs Spec out left b path z e) :
      Runs Spec out (left + 1) a ((b, silent) :: path) z e

variable {Spec : α → Turn α ε → Prop} {turn : σ → Turn σ ε} {f : σ → α} {I : σ → Prop} {out : ε}

/-- Turn by turn what is prescribed, so run by run. -/
theorem run_simulates (hturn : ∀ s t, I s → Spec (f s) t → (turn s).map f = t ∧ (turn s).Leaves I)
    {left : Nat} {a z : α} {path : List (α × Bool)} {e : ε} (hrun : Runs Spec out left a path z e)
    {s : σ} (hs : I s) (ha : f s = a) :
    ∃ s', exitOf turn out left s = some (s', e) ∧ f s' = z ∧ I s' ∧
      (steps turn left s).map (Prod.map f id) = path := by
  induction hrun generalizing s with
  | spent a => exact ⟨s, rfl, ha, hs, rfl⟩
  | exit h =>
    obtain ⟨hmap, hleaves⟩ := hturn s _ hs (ha.symm ▸ h)
    unfold exitOf steps
    cases ht : turn s with
    | panic => simp [ht, Turn.map] at hmap
    | next s' silent => simp [ht, Turn.map] at hmap
    | exit s' e' =>
      simp only [ht, Turn.map, Turn.exit.injEq] at hmap
      rw [ht] at hleaves
      exact ⟨s', by rw [hmap.2], hmap.1, hleaves, rfl⟩
  | next h rest ih =>
    obtain ⟨hmap, hleaves⟩ := hturn s _ hs (ha.symm ▸ h)
    unfold exitOf steps
    cases ht : turn s with
    | panic => simp [ht, Turn.map] at hmap
    | exit s' e' => simp [ht, Turn.map] at hmap
    | next s' silent' =>
      simp only [ht, Turn.map, Turn.next.injEq] at hmap
      rw [ht] at hleaves
      obtain ⟨z', hexit, hz, hI, hpath⟩ := ih hleaves hmap.1
      refine ⟨z', hexit, hz, hI, ?_⟩
      rw [List.map_cons, hpath, Prod.map_apply, hmap.1, hmap.2, id_eq]

theorem everyNth_map (c j : Nat) (f : σ → α) (xs : List σ) :
    everyNth c j (xs.map f) = (everyNth c j xs).map f := by
  induction xs generalizing j with
  | nil => rfl
  | cons x xs ih =>
    rw [List.map_cons, everyNth_cons, everyNth_cons, ih]
    split <;> rfl

theorem noSilentNth_of_map {c j : Nat} {f : σ → α} {xs : List (σ × Bool)}
    (h : NoSilentNth c j (xs.map (Prod.map f id))) : NoSilentNth c j xs := by
  intro i s hi
  refine h i (f s) ?_
  rw [List.getElem?_map, hi]
  rfl

/-- The samples of a simulating system stand for those of the run. -/
theorem sampled_simulates {c : Nat} (hc : 0 < c) {left : Nat} {s s' : σ} {path : List (α × Bool)}
    {e : ε} (hexit : exitOf turn out left s = some (s', e))
    (hpath : (steps turn left s).map (Prod.map f id) = path) (hsilent : NoSilentNth c 0 path) :
    (sampled turn c left 0 s).map f = everyNth c 0 (path.map Prod.fst) ++ [f s'] := by
  subst hpath
  have h := sampled_eq hc left hexit (noSilentNth_of_map hsilent)
  rw [Nat.zero_mod] at h
  rw [h, List.map_append, ← everyNth_map, List.map_map, List.map_map]
  rfl

end

end Provework.Lib
