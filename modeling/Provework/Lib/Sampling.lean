import Mathlib.Data.List.Basic

/-!
# Sampling a run every so many steps

A deterministic system takes counted turns until it exits, panics or runs out
of budget. An observer keeps a counter of the turns since its last sample and
takes one when the counter hits `c`, except that some turns are `silent`: they
count, but the observer does not look. `sampled` is that observer; what it is
meant to see is `everyNth` of the turns, then the exit.

The two agree exactly when no silent turn falls on a multiple of `c`
(`sampled_eq_iff`). One that does is not sampled late: the counter has run past
`c`, so nothing but the exit is sampled from then on (`length_sampled_overdue`).

`sources` are the states turns are taken from; an exit is a turn from the last
of them (`exitOf_source`, `exists_source`).
-/

namespace Provework.Lib

/-- What one turn does. -/
inductive Turn (σ ε : Type) where
  | panic
  | exit (s : σ) (e : ε)
  | next (s : σ) (silent : Bool)

/-- The state a turn leaves, if any, satisfies `I`. -/
def Turn.Leaves {σ ε : Type} (I : σ → Prop) : Turn σ ε → Prop
  | .panic => True
  | .exit s _ => I s
  | .next s _ => I s

/-- The elements whose ordinal is a multiple of `c`, the first having ordinal `j + 1`. -/
def everyNth {α : Type} (c j : Nat) (xs : List α) : List α :=
  ((xs.zipIdx (j + 1)).filter fun p => p.2 % c = 0).map Prod.fst

@[simp] theorem everyNth_nil {α : Type} (c j : Nat) : everyNth c j ([] : List α) = [] := rfl

theorem everyNth_cons {α : Type} (c j : Nat) (a : α) (as : List α) :
    everyNth c j (a :: as)
      = if (j + 1) % c = 0 then a :: everyNth c (j + 1) as else everyNth c (j + 1) as := by
  unfold everyNth
  rw [List.zipIdx_cons, List.filter_cons]
  split <;> simp_all

section

variable {σ ε : Type} (turn : σ → Turn σ ε) (out : ε)

/-- The counted turns within a budget: the state after each, and whether it was silent. -/
def steps : Nat → σ → List (σ × Bool)
  | 0, _ => []
  | left + 1, s =>
    match turn s with
    | .next s' silent => (s', silent) :: steps left s'
    | _ => []

/-- Where the run ends: `out` if the budget does. `none` is a panic. -/
def exitOf : Nat → σ → Option (σ × ε)
  | 0, s => some (s, out)
  | left + 1, s =>
    match turn s with
    | .panic => none
    | .exit s' e => some (s', e)
    | .next s' _ => exitOf left s'

/-- The states turns are taken from within a budget. -/
def sources : Nat → σ → List σ
  | 0, _ => []
  | left + 1, s =>
    s :: match turn s with
      | .next s' _ => sources left s'
      | _ => []

variable (c : Nat)

/-- The next sample of an observer whose counter stands at `k`, with the budget
left after it if the run goes on. -/
def nextSample : Nat → Nat → σ → Option (σ × Option Nat)
  | 0, _, s => some (s, none)
  | left + 1, k, s =>
    match turn s with
    | .panic => none
    | .exit s' _ => some (s', none)
    | .next s' silent =>
      if silent = false ∧ k + 1 = c then some (s', some left) else nextSample left (k + 1) s'

/-- Every sample. -/
def sampled : Nat → Nat → σ → List σ
  | 0, _, s => [s]
  | left + 1, k, s =>
    match turn s with
    | .panic => []
    | .exit s' _ => [s']
    | .next s' silent =>
      if silent = false ∧ k + 1 = c then s' :: sampled left 0 s' else sampled left (k + 1) s'

/-- What the observer is meant to see of a run that exits in `e`. -/
def samples (left : Nat) (s e : σ) : List σ :=
  everyNth c 0 ((steps turn left s).map Prod.fst) ++ [e]

/-- No silent turn has an ordinal that is a multiple of `c`, the first being `j + 1`. -/
def NoSilentNth (j : Nat) (xs : List (σ × Bool)) : Prop :=
  ∀ i s, xs[i]? = some (s, true) → (j + (i + 1)) % c ≠ 0

end

section

variable {σ ε : Type} {turn : σ → Turn σ ε} {out : ε} {c : Nat}

theorem noSilentNth_cons {j : Nat} {s : σ} {silent : Bool} {xs : List (σ × Bool)} :
    NoSilentNth c j ((s, silent) :: xs) ↔
      (silent = true → (j + 1) % c ≠ 0) ∧ NoSilentNth c (j + 1) xs := by
  constructor
  · intro h
    refine ⟨fun hs => h 0 s (by rw [hs]; rfl), fun i t hi => ?_⟩
    rw [show j + 1 + (i + 1) = j + (i + 1 + 1) by omega]
    exact h (i + 1) t hi
  · rintro ⟨h0, h⟩ i t hi
    cases i with
    | zero =>
      simp only [List.getElem?_cons_zero, Option.some.injEq, Prod.mk.injEq] at hi
      exact h0 hi.2
    | succ i =>
      rw [show j + (i + 1 + 1) = j + 1 + (i + 1) by omega]
      exact h i t hi

/-- A run with no silent turn at all. -/
theorem noSilentNth_of_all {j : Nat} {xs : List (σ × Bool)} (h : xs.all fun p => !p.2) :
    NoSilentNth c j xs := by
  intro i s hi
  have := List.all_eq_true.mp h _ (List.mem_of_getElem? hi)
  exact absurd this Bool.false_ne_true

/-- The counter of an observer that has missed nothing is the ordinal modulo `c`. -/
theorem counter_step (hc : 0 < c) (j : Nat) :
    (j % c + 1 = c ↔ (j + 1) % c = 0) ∧ ((j + 1) % c ≠ 0 → j % c + 1 = (j + 1) % c) := by
  have hlt := Nat.mod_lt j hc
  rw [Nat.add_mod j 1 c]
  rcases Nat.lt_or_ge 1 c with h1 | h1
  · rw [Nat.mod_eq_of_lt h1]
    rcases Nat.lt_or_ge (j % c + 1) c with h | h
    · rw [Nat.mod_eq_of_lt h]
      omega
    · have he : j % c + 1 = c := by omega
      rw [he, Nat.mod_self]
      simp
  · obtain rfl : c = 1 := by omega
    simp [Nat.mod_one]

/-- Past `c` the counter never hits it again: only the exit is sampled. -/
theorem length_sampled_overdue : ∀ (left : Nat) {k : Nat} (s : σ), c ≤ k →
    (sampled turn c left k s).length ≤ 1
  | 0, _, _, _ => Nat.le_refl 1
  | left + 1, k, s, hk => by
    unfold sampled
    cases turn s with
    | panic => exact Nat.zero_le 1
    | exit s' e => exact Nat.le_refl 1
    | next s' silent =>
      have hne : ¬(silent = false ∧ k + 1 = c) := by omega
      simp only [if_neg hne]
      exact length_sampled_overdue left s' (by omega)

/-- Nothing silent on a multiple: the observer sees what it is meant to. -/
theorem sampled_eq (hc : 0 < c) : ∀ (left : Nat) {j : Nat} {s e : σ} {st : ε},
    exitOf turn out left s = some (e, st) → NoSilentNth c j (steps turn left s) →
    sampled turn c left (j % c) s = everyNth c j ((steps turn left s).map Prod.fst) ++ [e]
  | 0, j, s, e, st, hexit, _ => by
    simp only [exitOf, Option.some.injEq, Prod.mk.injEq] at hexit
    simp [sampled, steps, hexit.1]
  | left + 1, j, s, e, st, hexit, hsil => by
    unfold sampled steps
    unfold exitOf at hexit
    unfold steps at hsil
    cases hturn : turn s with
    | panic => simp [hturn] at hexit
    | exit s' st' =>
      simp only [hturn, Option.some.injEq, Prod.mk.injEq] at hexit
      simp [hexit.1]
    | next s' silent =>
      simp only [hturn, noSilentNth_cons] at hexit hsil
      obtain ⟨hmul, hinc⟩ := counter_step hc j
      simp only [List.map_cons, everyNth_cons]
      by_cases hj : (j + 1) % c = 0
      · -- a multiple: the turn is not silent, so the counter hits `c` and restarts
        have hs : silent = false := by
          cases silent with
          | false => rfl
          | true => exact absurd hj (hsil.1 rfl)
        rw [if_pos ⟨hs, hmul.mpr hj⟩, if_pos hj, List.cons_append, ← hj]
        exact congrArg (s' :: ·) (sampled_eq hc left hexit hsil.2)
      · rw [if_neg fun h => hj (hmul.mp h.2), if_neg hj, hinc hj]
        exact sampled_eq hc left hexit hsil.2

/-- A silent turn on a multiple loses at least one sample. -/
theorem length_sampled_lt (hc : 0 < c) : ∀ (left : Nat) {j : Nat} {s : σ},
    ¬NoSilentNth c j (steps turn left s) →
    (sampled turn c left (j % c) s).length
      < (everyNth c j ((steps turn left s).map Prod.fst)).length + 1
  | 0, j, s, hsil => by
    refine absurd ?_ hsil
    intro i t hi
    simp [steps] at hi
  | left + 1, j, s, hsil => by
    unfold sampled steps
    unfold steps at hsil
    cases hturn : turn s with
    | panic => simp
    | exit s' st' =>
      refine absurd ?_ hsil
      simp [hturn, NoSilentNth]
    | next s' silent =>
      simp only [hturn, noSilentNth_cons] at hsil
      obtain ⟨hmul, hinc⟩ := counter_step hc j
      simp only [List.map_cons, everyNth_cons]
      by_cases hj : (j + 1) % c = 0
      · rw [if_pos hj]
        cases silent with
        | true =>
          -- the miss itself: the counter is past `c` from here on
          rw [if_neg fun h => Bool.noConfusion h.1, hmul.mpr hj]
          have hone : (sampled turn c left c s').length ≤ 1 :=
            length_sampled_overdue left s' (Nat.le_refl c)
          simp only [List.length_cons]
          omega
        | false =>
          -- sampled as it should be, so the miss is later
          rw [if_pos ⟨rfl, hmul.mpr hj⟩]
          have ih := length_sampled_lt hc left (j := j + 1) (s := s')
            fun h => hsil ⟨nofun, h⟩
          rw [hj] at ih
          simpa using ih
      · rw [if_neg fun h => hj (hmul.mp h.2), if_neg hj, hinc hj]
        exact length_sampled_lt hc left fun h => hsil ⟨fun _ => hj, h⟩

/-- **The observer sees every `c`-th state and the exit** exactly when no silent
turn falls on a multiple of `c`. -/
theorem sampled_eq_iff (hc : 0 < c) {left : Nat} {s e : σ} {st : ε}
    (hexit : exitOf turn out left s = some (e, st)) :
    sampled turn c left 0 s = samples turn c left s e ↔ NoSilentNth c 0 (steps turn left s) := by
  have h0 : (0 : Nat) = 0 % c := (Nat.zero_mod c).symm
  constructor
  · intro h
    by_contra hsil
    have hlt := length_sampled_lt hc left hsil
    rw [← h0, h, samples, List.length_append, List.length_singleton] at hlt
    exact Nat.lt_irrefl _ hlt
  · intro hsil
    rw [h0, sampled_eq hc left hexit hsil, samples]

/-- A run that exits is sampled at least there. -/
theorem sampled_ne_nil : ∀ (left : Nat) {k : Nat} {s : σ} {r : σ × ε},
    exitOf turn out left s = some r → sampled turn c left k s ≠ []
  | 0, _, _, _, _ => List.cons_ne_nil _ _
  | left + 1, k, s, r, hexit => by
    simp only [exitOf, sampled] at hexit ⊢
    cases hturn : turn s with
    | panic => simp [hturn] at hexit
    | exit s' e => exact List.cons_ne_nil _ _
    | next s' silent =>
      simp only [hturn] at hexit
      by_cases h : silent = false ∧ k + 1 = c
      · simp only [if_pos h]
        exact List.cons_ne_nil _ _
      · simp only [if_neg h]
        exact sampled_ne_nil left hexit

/-- The observer never takes more samples than it is meant to. -/
theorem length_sampled_le (hc : 0 < c) {left : Nat} {s e : σ} {st : ε}
    (hexit : exitOf turn out left s = some (e, st)) :
    (sampled turn c left 0 s).length ≤ (samples turn c left s e).length := by
  by_cases hsil : NoSilentNth c 0 (steps turn left s)
  · exact Nat.le_of_eq (congrArg List.length ((sampled_eq_iff hc hexit).mpr hsil))
  · have hlt := length_sampled_lt hc left hsil
    rw [Nat.zero_mod] at hlt
    rw [samples, List.length_append, List.length_singleton]
    exact Nat.le_of_lt hlt

/-! ## One sample at a time -/

/-- Sampling is taking the next sample, then sampling from there. -/
theorem sampled_eq_next : ∀ (left : Nat) (k : Nat) (s : σ),
    sampled turn c left k s = match nextSample turn c left k s with
      | none => []
      | some (s', none) => [s']
      | some (s', some left') => s' :: sampled turn c left' 0 s'
  | 0, _, _ => rfl
  | left + 1, k, s => by
    simp only [sampled, nextSample]
    cases turn s with
    | panic => rfl
    | exit s' e => rfl
    | next s' silent =>
      by_cases h : silent = false ∧ k + 1 = c
      · simp only [if_pos h]
      · simp only [if_neg h]
        exact sampled_eq_next left (k + 1) s'

/-- A sample the run goes on from leads to the same exit. -/
theorem exitOf_nextSample (out : ε) : ∀ (left : Nat) {k left' : Nat} {s s' : σ},
    nextSample turn c left k s = some (s', some left') →
    exitOf turn out left s = exitOf turn out left' s'
  | 0, _, _, _, _, h => by simp [nextSample] at h
  | left + 1, k, left', s, s', h => by
    simp only [nextSample, exitOf] at h ⊢
    cases hturn : turn s with
    | panic => simp [hturn] at h
    | exit t e => simp [hturn] at h
    | next t silent =>
      simp only [hturn] at h
      by_cases hb : silent = false ∧ k + 1 = c
      · simp only [if_pos hb, Option.some.injEq, Prod.mk.injEq] at h
        rw [h.1, h.2]
      · simp only [if_neg hb] at h
        exact exitOf_nextSample out left h

/-- A sample that is not the last restarts the counter: what follows it is
sampled afresh from that state, and the run ends where it would have. -/
theorem sampled_after (out : ε) : ∀ (i : Nat) {left : Nat} {s t : σ},
    (sampled turn c left 0 s)[i]? = some t → i + 1 < (sampled turn c left 0 s).length →
    ∃ left', (sampled turn c left 0 s).drop (i + 1) = sampled turn c left' 0 t ∧
      exitOf turn out left s = exitOf turn out left' t
  | i, left, s, t, hi, hlen => by
    -- on `i`: one sample is taken off the front at a time
    rw [sampled_eq_next] at hi hlen ⊢
    match hn : nextSample turn c left 0 s with
    | none => simp [hn] at hi
    | some (s', none) =>
      rw [hn] at hlen
      simp only [List.length_singleton] at hlen
      omega
    | some (s', some left') =>
      simp only [hn] at hi hlen ⊢
      rw [exitOf_nextSample out left hn]
      cases i with
      | zero =>
        simp only [List.getElem?_cons_zero, Option.some.injEq] at hi
        exact ⟨left', by rw [← hi]; rfl, by rw [← hi]⟩
      | succ i =>
        simp only [List.getElem?_cons_succ] at hi
        simp only [List.length_cons] at hlen
        exact sampled_after out i hi (by omega)

/-- The sample after one that is not the last, found from the state of the
latter. If the run ends with it, it is the last. -/
theorem sampled_succ (out : ε) {i left : Nat} {s t : σ}
    (hi : (sampled turn c left 0 s)[i]? = some t)
    (hlen : i + 1 < (sampled turn c left 0 s).length) :
    ∃ left' u o, (sampled turn c left 0 s)[i + 1]? = some u ∧
      nextSample turn c left' 0 t = some (u, o) ∧
      exitOf turn out left s = exitOf turn out left' t ∧
      (o = none → (sampled turn c left 0 s).length = i + 2) := by
  obtain ⟨left', hdrop, hexit⟩ := sampled_after out i hi hlen
  have hget : (sampled turn c left 0 s)[i + 1]? = (sampled turn c left' 0 t)[0]? := by
    rw [← hdrop, List.getElem?_drop, Nat.add_zero]
  have hlen' : (sampled turn c left 0 s).length = i + 1 + (sampled turn c left' 0 t).length := by
    rw [← hdrop, List.length_drop]
    omega
  rw [hget]
  rw [sampled_eq_next left' 0 t] at hlen' ⊢
  match hn : nextSample turn c left' 0 t with
  | none =>
    rw [hn] at hlen'
    simp only [List.length_nil] at hlen'
    omega
  | some (u, none) =>
    rw [hn] at hlen'
    exact ⟨left', u, none, rfl, hn, hexit, fun _ => hlen'⟩
  | some (u, some left'') => exact ⟨left', u, some left'', rfl, hn, hexit, nofun⟩

/-- What every turn keeps, every sample has. -/
theorem sampled_inv {I : σ → Prop}
    (hturn : ∀ s, I s → (turn s).Leaves I) :
    ∀ (left k : Nat) {s : σ}, I s → ∀ t ∈ sampled turn c left k s, I t
  | 0, _, s, hs, t, ht => by
    obtain rfl := List.mem_singleton.mp ht
    exact hs
  | left + 1, k, s, hs, t, ht => by
    have hkeep := hturn s hs
    simp only [sampled] at ht
    cases ht' : turn s with
    | panic => simp [ht'] at ht
    | exit s' e =>
      rw [ht'] at hkeep
      simp only [ht', List.mem_singleton] at ht
      rw [ht]
      exact hkeep
    | next s' silent =>
      rw [ht'] at hkeep
      simp only [ht'] at ht
      by_cases hb : silent = false ∧ k + 1 = c
      · simp only [if_pos hb, List.mem_cons] at ht
        rcases ht with rfl | ht
        · exact hkeep
        · exact sampled_inv hturn left 0 hkeep t ht
      · simp only [if_neg hb] at ht
        exact sampled_inv hturn left (k + 1) hkeep t ht

/-! ## Where an exit is taken -/

/-- A source that exits ends the run. -/
theorem exitOf_source (out : ε) : ∀ (left : Nat) {s u t : σ} {e : ε}, u ∈ sources turn left s →
    turn u = .exit t e → exitOf turn out left s = some (t, e) := by
  intro left
  induction left with
  | zero =>
    intro s u t e hu _
    simp only [sources, List.not_mem_nil] at hu
  | succ left ih =>
    intro s u t e hu hexit
    simp only [sources] at hu
    rcases List.mem_cons.mp hu with rfl | hu
    · simp only [exitOf, hexit]
    · cases hturn : turn s with
      | panic => simp only [hturn, List.not_mem_nil] at hu
      | exit s' e' => simp only [hturn, List.not_mem_nil] at hu
      | next s' silent =>
        simp only [hturn] at hu
        simp only [exitOf, hturn]
        exact ih hu hexit

/-- Conversely a run that does not end with its budget ends in a turn from a source. -/
theorem exists_source {out : ε} : ∀ (left : Nat) {s t : σ} {e : ε},
    exitOf turn out left s = some (t, e) → e ≠ out → ∃ u ∈ sources turn left s,
    turn u = .exit t e := by
  intro left
  induction left with
  | zero =>
    intro s t e h hne
    exact absurd (Prod.mk.inj (Option.some.inj h)).2.symm hne
  | succ left ih =>
    intro s t e h hne
    simp only [exitOf] at h
    cases hturn : turn s with
    | panic => simp only [hturn, reduceCtorEq] at h
    | exit s' e' =>
      simp only [hturn] at h
      obtain ⟨rfl, rfl⟩ := Prod.mk.inj (Option.some.inj h)
      exact ⟨s, List.mem_cons_self, hturn⟩
    | next s' silent =>
      simp only [hturn] at h
      obtain ⟨u, hu, hexit⟩ := ih h hne
      refine ⟨u, ?_, hexit⟩
      simp only [sources, hturn]
      exact List.mem_cons_of_mem s hu

/-- Nothing is taken after an exit. -/
theorem length_sources_exit : ∀ (left : Nat) {s u t : σ} {e : ε} {i : Nat},
    (sources turn left s)[i]? = some u → turn u = .exit t e →
    (sources turn left s).length = i + 1 := by
  intro left
  induction left with
  | zero =>
    intro s u t e i hi _
    simp only [sources, List.getElem?_nil, reduceCtorEq] at hi
  | succ left ih =>
    intro s u t e i hi hexit
    simp only [sources] at hi ⊢
    cases i with
    | zero =>
      obtain rfl := Option.some.inj hi
      simp only [hexit, List.length_cons, List.length_nil]
    | succ i =>
      rw [List.getElem?_cons_succ] at hi
      cases hturn : turn s with
      | panic => simp only [hturn, List.getElem?_nil, reduceCtorEq] at hi
      | exit s' e' => simp only [hturn, List.getElem?_nil, reduceCtorEq] at hi
      | next s' silent =>
        simp only [hturn] at hi ⊢
        rw [List.length_cons, ih hi hexit]

/-- What the turns that go on keep, every source has. -/
theorem sources_inv {I : σ → Prop}
    (hnext : ∀ {s s' : σ} {silent : Bool}, I s → turn s = .next s' silent → I s') :
    ∀ (left : Nat) {s : σ}, I s → ∀ u ∈ sources turn left s, I u := by
  intro left
  induction left with
  | zero =>
    intro s _ u hu
    simp only [sources, List.not_mem_nil] at hu
  | succ left ih =>
    intro s hs u hu
    simp only [sources] at hu
    rcases List.mem_cons.mp hu with rfl | hu
    · exact hs
    · cases hturn : turn s with
      | panic => simp only [hturn, List.not_mem_nil] at hu
      | exit s' e => simp only [hturn, List.not_mem_nil] at hu
      | next s' silent =>
        simp only [hturn] at hu
        exact ih (hnext hs hturn) u hu

end

end Provework.Lib
