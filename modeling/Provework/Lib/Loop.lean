/-!
# Loops that run until they stop

A `loop` is a body that either goes round again with a new state or stops with
a result; `iterate` runs it for a number of iterations. That a loop terminates
is that some number of iterations stops it, and a larger number changes nothing
(`iterate_of_le`). The three rules are the usual ones: what every iteration
keeps holds when the loop stops (`iterate_holds`), two loops whose bodies stay
related stop together (`iterate_related`), and iterations add up
(`iterate_add`).
-/

namespace Provework.Lib

/-- What one iteration comes to. -/
inductive Iter (σ α : Type) where
  | again (s : σ)
  | stop (a : α)

/-- The state gone round with satisfies `I`, or the result `Q`. -/
def Iter.Holds {σ α : Type} (I : σ → Prop) (Q : α → Prop) : Iter σ α → Prop
  | .again s => I s
  | .stop a => Q a

/-- Both go round again, in related states, or both stop, with related results. -/
inductive Iter.Related {σ τ α β : Type} (R : σ → τ → Prop) (Q : α → β → Prop) :
    Iter σ α → Iter τ β → Prop
  | again {s : σ} {t : τ} : R s t → Related R Q (.again s) (.again t)
  | stop {a : α} {b : β} : Q a b → Related R Q (.stop a) (.stop b)

section

variable {σ τ α β : Type} (body : σ → Iter σ α) (body' : τ → Iter τ β)

/-- What has come of the loop after `k` iterations. -/
def iterate : Nat → σ → Iter σ α
  | 0, s => .again s
  | k + 1, s =>
    match body s with
    | .again s' => iterate k s'
    | .stop a => .stop a

variable {body body'}

theorem iterate_succ_again {k : Nat} {s s' : σ} (h : body s = .again s') :
    iterate body (k + 1) s = iterate body k s' := by
  rw [iterate, h]

theorem iterate_succ_stop {k : Nat} {s : σ} {a : α} (h : body s = .stop a) :
    iterate body (k + 1) s = .stop a := by
  rw [iterate, h]

/-- After `k` iterations that did not stop it, the loop goes on from there. -/
theorem iterate_add : ∀ {k : Nat} (l : Nat) {s s' : σ}, iterate body k s = .again s' →
    iterate body (k + l) s = iterate body l s' := by
  intro k
  induction k with
  | zero =>
    intro l s s' h
    cases h
    rw [Nat.zero_add]
  | succ k ih =>
    intro l s s' h
    rw [Nat.succ_add]
    cases hb : body s with
    | stop a =>
      rw [iterate_succ_stop hb] at h
      cases h
    | again t =>
      rw [iterate_succ_again hb] at h ⊢
      exact ih l h

/-- A loop that has stopped stays so. -/
theorem iterate_of_le : ∀ {k l : Nat} {s : σ} {a : α}, iterate body k s = .stop a → k ≤ l →
    iterate body l s = .stop a := by
  intro k
  induction k with
  | zero =>
    intro l s a h
    cases h
  | succ k ih =>
    intro l s a h hle
    obtain ⟨l, rfl⟩ : ∃ j, l = j + 1 := ⟨l - 1, by omega⟩
    cases hb : body s with
    | stop b =>
      rw [iterate_succ_stop hb] at h ⊢
      exact h
    | again t =>
      rw [iterate_succ_again hb] at h ⊢
      exact ih h (Nat.le_of_succ_le_succ hle)

/-- What every iteration keeps. -/
theorem iterate_holds {I : σ → Prop} {Q : α → Prop} (hbody : ∀ s, I s → (body s).Holds I Q) :
    ∀ (k : Nat) {s : σ}, I s → (iterate body k s).Holds I Q := by
  intro k
  induction k with
  | zero =>
    intro s hs
    exact hs
  | succ k ih =>
    intro s hs
    have hstep := hbody s hs
    cases hb : body s with
    | stop a =>
      rw [hb] at hstep
      rw [iterate_succ_stop hb]
      exact hstep
    | again t =>
      rw [hb] at hstep
      rw [iterate_succ_again hb]
      exact ih hstep

/-- Two loops in lockstep. -/
theorem iterate_related {R : σ → τ → Prop} {Q : α → β → Prop}
    (hbody : ∀ s t, R s t → Iter.Related R Q (body s) (body' t)) :
    ∀ (k : Nat) {s : σ}
    {t : τ}, R s t → Iter.Related R Q (iterate body k s) (iterate body' k t) := by
  intro k
  induction k with
  | zero =>
    intro s t h
    exact .again h
  | succ k ih =>
    intro s t h
    have hstep := hbody s t h
    simp only [iterate]
    generalize body s = r at hstep
    generalize body' t = r' at hstep
    cases hstep with
    | again h' => exact ih h'
    | stop h' => exact .stop h'

end

end Provework.Lib
