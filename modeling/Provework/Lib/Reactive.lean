import Mathlib.Data.List.Infix

/-!
# Programs that react

One side of a conversation is a state and a reaction: a message comes in, the state
changes and messages go out. What such a program has sent is a function of what it
has received, and it only grows (`sent_mono`). So a partner need not know how far the
program has read: what reaches the partner is a beginning of what the program sends
when it has read everything.
-/

namespace Provework.Lib

structure Reactor (σ ι ο : Type) where
  start : σ
  /-- Sent before anything comes in. -/
  opening : List ο
  react : σ → ι → σ × List ο

namespace Reactor

variable {σ ι ο : Type} (r : Reactor σ ι ο)

/-- State reached and messages sent, one reaction after the other. -/
def goOn (s : σ) : List ι → σ × List ο
  | [] => (s, [])
  | i :: received =>
    let (s', out) := goOn (r.react s i).1 received
    (s', (r.react s i).2 ++ out)

def state (received : List ι) : σ := (r.goOn r.start received).1

def sent (received : List ι) : List ο := r.opening ++ (r.goOn r.start received).2

theorem goOn_append (s : σ) (received more : List ι) :
    r.goOn s (received ++ more) = ((r.goOn (r.goOn s received).1 more).1,
      (r.goOn s received).2 ++ (r.goOn (r.goOn s received).1 more).2) := by
  induction received generalizing s with
  | nil => rfl
  | cons i received ih =>
    rw [List.cons_append, goOn, ih]
    simp only [goOn, List.append_assoc]

theorem state_concat (received : List ι) (i : ι) :
    r.state (received ++ [i]) = (r.react (r.state received) i).1 := by
  rw [state, goOn_append]
  rfl

theorem sent_concat (received : List ι) (i : ι) :
    r.sent (received ++ [i]) = r.sent received ++ (r.react (r.state received) i).2 := by
  rw [sent, goOn_append, ← List.append_assoc]
  exact congrArg (r.sent received ++ ·) (List.append_nil _)

theorem sent_mono {received received' : List ι} (h : received <+: received') :
    r.sent received <+: r.sent received' := by
  obtain ⟨more, rfl⟩ := h
  induction more using List.reverseRecOn with
  | nil => rw [List.append_nil]
  | append_singleton more i ih =>
    rw [← List.append_assoc, sent_concat]
    exact ih.trans (List.prefix_append _ _)

end Reactor

end Provework.Lib
