import Mathlib.Data.List.Induction
import Mathlib.Data.List.Infix

/-!
# Runs with a memory

A deterministic system is a `step : σ → α → σ`; the nondeterminism is in the
acts. Some invariants speak of what happened before (a key *has been* proved),
so a property is one of the history — the states passed and the act taken in
each — and of the state reached. `always_of_step` is the induction rule under a
condition on each step, `always_iff` its converse for conditions that are
exactly what one step needs.
-/

namespace Provework.Lib

variable {σ α : Type} (step : σ → α → σ)

def stateAfter (s : σ) (acts : List α) : σ := acts.foldl step s

/-- The states passed, each with the act taken in it. -/
def history (s : σ) : List α → List (σ × α)
  | [] => []
  | a :: acts => (s, a) :: history (step s a) acts

/-- `P` holds in every state of the run, the first one included. -/
def Always (P : List (σ × α) → σ → Prop) (s : σ) (acts : List α) : Prop :=
  ∀ pre, pre <+: acts → P (history step s pre) (stateAfter step s pre)

/-- Every act of the run meets `C` where it is taken. -/
def EachStep (C : List (σ × α) → σ → α → Prop) (s : σ) (acts : List α) : Prop :=
  ∀ pre a, pre ++ [a] <+: acts → C (history step s pre) (stateAfter step s pre) a

theorem stateAfter_concat (s : σ) (pre : List α) (a : α) :
    stateAfter step s (pre ++ [a]) = step (stateAfter step s pre) a := by
  rw [stateAfter, List.foldl_append]
  rfl

theorem history_concat (s : σ) (pre : List α) (a : α) :
    history step s (pre ++ [a]) = history step s pre ++ [(stateAfter step s pre, a)] := by
  induction pre generalizing s with
  | nil => rfl
  | cons b pre ih => exact congrArg ((s, b) :: ·) (ih (step s b))

/-- A condition on state and act alone can be checked along the history. -/
theorem eachStep_of_history {C : σ → α → Prop} {s : σ} {acts : List α}
    (h : ∀ p ∈ history step s acts, C p.1 p.2) : EachStep step (fun _ s a => C s a) s acts := by
  rintro pre a ⟨post, rfl⟩
  refine h (stateAfter step s pre, a) ?_
  induction pre generalizing s with
  | nil => exact List.mem_cons_self
  | cons b pre ih => exact List.mem_cons_of_mem _ (ih fun p hp => h p (List.mem_cons_of_mem _ hp))

/-- Run `acts` from `s` behind the history `h`, and test every step. -/
def checkRun (test : List (σ × α) → σ → α → Bool) (h : List (σ × α)) (s : σ) : List α → Bool
  | [] => true
  | a :: acts => test h s a && checkRun test (h ++ [(s, a)]) (step s a) acts

theorem checkRun_spec {test : List (σ × α) → σ → α → Bool} (acts : List α) : ∀ h s,
    checkRun step test h s acts = true → ∀ pre a, pre ++ [a] <+: acts →
      test (h ++ history step s pre) (stateAfter step s pre) a = true := by
  induction acts with
  | nil =>
    intro h s _ pre a hpre
    exact absurd (List.prefix_nil.mp hpre) (by simp)
  | cons b acts ih =>
    intro h s hcheck pre a hpre
    rw [checkRun, Bool.and_eq_true] at hcheck
    cases pre with
    | nil =>
      obtain ⟨rfl, -⟩ := List.cons_prefix_cons.mp hpre
      rw [history, List.append_nil]
      exact hcheck.1
    | cons c pre =>
      obtain ⟨rfl, hrest⟩ := List.cons_prefix_cons.mp hpre
      have hlater := ih _ _ hcheck.2 pre a hrest
      rw [List.append_assoc] at hlater
      exact hlater

/-- A condition that can be tested is tested along the run. -/
theorem eachStep_of_checkRun {test : List (σ × α) → σ → α → Bool} {s : σ} {acts : List α}
    (h : checkRun step test [] s acts = true) :
    EachStep step (fun h s a => test h s a = true) s acts :=
  checkRun_spec step acts [] s h

variable {step} {s₀ : σ} {acts : List α} {P J : List (σ × α) → σ → Prop}
  {C : List (σ × α) → σ → α → Prop}

theorem always_of_step (h₀ : P [] s₀)
    (hstep : ∀ h s a, P h s → C h s a → P (h ++ [(s, a)]) (step s a))
    (hC : EachStep step C s₀ acts) : Always step P s₀ acts := by
  intro pre
  -- the last act of a prefix is the one the condition is about
  induction pre using List.reverseRecOn with
  | nil => exact fun _ => h₀
  | append_singleton pre a ih =>
    intro hpre
    have hP := ih ((List.prefix_append pre [a]).trans hpre)
    rw [history_concat, stateAfter_concat]
    exact hstep _ _ _ hP (hC pre a hpre)

/-- What every step keeps holds in the whole run. -/
theorem always_of_invariant (h₀ : P [] s₀) (hstep : ∀ h s a, P h s → P (h ++ [(s, a)]) (step s a)) :
    Always step P s₀ acts :=
  always_of_step (C := fun _ _ _ => True) h₀ (fun h s a hs _ => hstep h s a hs) fun _ _ _ => trivial

theorem invariant_run {I : σ → Prop} (h₀ : I s₀) (hstep : ∀ s a, I s → I (step s a))
    (acts : List α) : I (stateAfter step s₀ acts) := by
  have hinv : Always step (fun _ s => I s) s₀ acts := always_of_invariant h₀ fun _ s a hs =>
    hstep s a hs
  exact hinv acts List.prefix_rfl

/-- `J` is an invariant outright; given it, `C` is what a step needs to keep
`P`. Then `P` holds throughout exactly if every step meets `C`. -/
theorem always_iff (hJ₀ : J [] s₀) (hJ : ∀ h s a, J h s → J (h ++ [(s, a)]) (step s a))
    (hP₀ : P [] s₀)
    (hstep : ∀ h s a, J h s → P h s → (P (h ++ [(s, a)]) (step s a) ↔ C h s a)) :
    Always step P s₀ acts ↔ EachStep step C s₀ acts := by
  have hJs : Always step J s₀ acts := always_of_invariant hJ₀ hJ
  constructor
  · intro hP pre a hpre
    have hpre' := (List.prefix_append pre [a]).trans hpre
    have hnext := hP _ hpre
    rw [history_concat, stateAfter_concat] at hnext
    exact (hstep _ _ _ (hJs pre hpre') (hP pre hpre')).mp hnext
  · intro hC
    have hboth : Always step (fun h s => J h s ∧ P h s) s₀ acts :=
      always_of_step ⟨hJ₀, hP₀⟩
        (fun h s a hjp hc => ⟨hJ h s a hjp.1, (hstep h s a hjp.1 hjp.2).mpr hc⟩) hC
    exact fun pre hpre => (hboth pre hpre).2

end Provework.Lib
