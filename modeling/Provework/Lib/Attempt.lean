/-!
# Calls that may fail and may panic

An attempt at an `α` is `none` if the host panics, `some none` if the call comes
back empty-handed and `some (some a)` if it returns `a`. `andThen` is the `?`
that passes both on. A call that only fails is an `Except`, and the rules to read
its success back through `?` and `map_err` stand at the end.
-/

namespace Provework.Lib

abbrev Attempt (α : Type) := Option (Option α)

namespace Attempt

variable {α β : Type}

def andThen (r : Attempt α) (f : α → Attempt β) : Attempt β :=
  match r with
  | none => none
  | some none => some none
  | some (some a) => f a

@[simp] theorem andThen_returned (a : α) (f : α → Attempt β) :
    andThen (some (some a)) f = f a := rfl

/-- A result comes from results all the way. -/
theorem andThen_eq_some_iff {r : Attempt α} {f : α → Attempt β} {b : β} :
    r.andThen f = some (some b) ↔ ∃ a, r = some (some a) ∧ f a = some (some b) := by
  rcases r with _ | _ | a
  · simp [andThen]
  · simp [andThen]
  · simp [andThen]

end Attempt

theorem except_bind_ok {ε α β : Type} {x : Except ε α} {f : α → Except ε β} {b : β}
    (h : (x >>= f) = .ok b) : ∃ a, x = .ok a ∧ f a = .ok b := by
  cases x with
  | error e => cases h
  | ok a => exact ⟨a, rfl, h⟩

/-- A check that fails is the error; one that passes changes nothing. -/
theorem except_guard_ok {ε α : Type} {p : Prop} [Decidable p] {e : ε} {a b : α} :
    (if p then Except.error e else .ok a) = .ok b ↔ a = b ∧ ¬p := by
  by_cases hp : p
  · simp [hp]
  · simp [hp]

theorem mapError_ok {ε ε' α : Type} {x : Except ε α} {f : ε → ε'} {a : α}
    (h : x.mapError f = .ok a) : x = .ok a := by
  cases x with
  | error e => cases h
  | ok b => exact congrArg Except.ok (Except.ok.inj h)

end Provework.Lib
