import Provework.Lib.Bytes

/-!
# Byte slices, and where reading one can stop

A slice index out of bounds and a sum that leaves its width both stop a
program. Here such a stop is `none`: an operation returns what it reads, or
nothing. A parser written with these operations has run through when it
returns `some`, whatever it then says about its input.

`read_foldl` is for what a parser then builds: of stores that hide each other
the last one shows.

A slice is shorter than half of the address space, so an offset inside one can
always be formed. That is the only use made of the bound.
-/

namespace Provework.Lib

/-- `&[u8]` on a 64-bit host: allocations are at most `isize::MAX` bytes. -/
structure Slice where
  bytes : List U8
  length_lt : bytes.length < 2 ^ 63

/-- `a + b` on 64-bit words; a wrapping sum stops. -/
def plus (a b : Nat) : Option Nat := if a + b < 2 ^ 64 then some (a + b) else none

namespace Slice

/-- `s[i]`. -/
def index (s : Slice) (i : Nat) : Option U8 := s.bytes[i]?

/-- `&s[first..last]`. -/
def range (s : Slice) (first last : Nat) : Option (List U8) :=
  if first ≤ last ∧ last ≤ s.bytes.length then
    some ((s.bytes.drop first).take (last - first)) else none

/-- The little-endian number in `s[o..o + w]`. -/
def word (s : Slice) (w o : Nat) : Option Nat := do
  let last ← plus o w
  let bytes ← s.range o last
  some (leNat bytes)

/-- The little-endian number in `[s[o], s[o + 1]]`. -/
def pair (s : Slice) (o : Nat) : Option Nat := do
  let low ← s.index o
  let next ← plus o 1
  let high ← s.index next
  some (leNat [low, high])

/-! ## Inside the slice nothing stops -/

variable {s : Slice}

/-- An offset inside the slice can be formed. -/
theorem plus_eq {a b : Nat} (h : a + b ≤ s.bytes.length) : plus a b = some (a + b) := by
  have hlt : s.bytes.length < 2 ^ 63 := s.length_lt
  rw [plus, if_pos (by omega)]

theorem index_eq {i : Nat} (h : i < s.bytes.length) : s.index i = some (s.bytes.getD i 0) := by
  rw [index, List.getD_eq_getElem?_getD, List.getElem?_eq_getElem h, Option.getD_some]

theorem range_eq {first last : Nat} (hle : first ≤ last) (h : last ≤ s.bytes.length) :
    s.range first last = some ((s.bytes.drop first).take (last - first)) :=
  if_pos ⟨hle, h⟩

theorem word_eq {w o : Nat} (h : o + w ≤ s.bytes.length) :
    s.word w o = some (leNat ((s.bytes.drop o).take w)) := by
  rw [word, plus_eq h]
  show (s.range o (o + w)).bind _ = _
  rw [range_eq (Nat.le_add_right o w) h, Nat.add_sub_cancel_left]
  rfl

theorem pair_eq {o : Nat} (h : o + 2 ≤ s.bytes.length) :
    s.pair o = some (leNat ((s.bytes.drop o).take 2)) := by
  have htwo : (s.bytes.drop o).take 2 = [s.bytes.getD o 0, s.bytes.getD (o + 1) 0] := by
    rw [List.drop_eq_getElem_cons (by omega), List.drop_eq_getElem_cons (by omega),
      List.getD_eq_getElem?_getD, List.getD_eq_getElem?_getD,
      List.getElem?_eq_getElem (by omega), List.getElem?_eq_getElem (by omega)]
    rfl
  rw [pair, index_eq (by omega), plus_eq (by omega : o + 1 ≤ s.bytes.length), htwo]
  show (s.index (o + 1)).bind _ = _
  rw [index_eq (by omega)]
  rfl

end Slice

/-! ## Scans -/

/-- A scan can stop the program (`none`), or end early with nothing found. -/
abbrev Scan (α : Type) := OptionT Option α

namespace Scan

variable {α β : Type}

/-- `x?` on an `Option`: nothing there ends the scan. -/
def ask (x : Option α) : Scan α := OptionT.mk (some x)

/-- An operation that stops the program where it has no value. -/
def must (x : Option α) : Scan α := OptionT.lift x

/-- A scan that asks, and goes on without stopping on what it gets, is the
plain computation. -/
theorem ask_bind {x : Option α} {f : α → Scan β} {g : α → Option β}
    (h : ∀ a, x = some a → (f a).run = some (g a)) : (ask x >>= f).run = some (x >>= g) := by
  cases x with
  | none => rfl
  | some a => exact h a rfl

theorem ask_bind_some {x : Option α} {a : α} (hx : x = some a) {f : α → Scan β} :
    (ask x >>= f).run = (f a).run := by
  subst hx
  rfl

theorem must_bind {x : Option α} {a : α} (hx : x = some a) {f : α → Scan β} :
    (must x >>= f).run = (f a).run := by
  subst hx
  rfl

end Scan

/-- Reads that all return give the list of what they return. -/
theorem mapM_eq_some {α β : Type} {f : α → Option β} {g : α → β} :
    ∀ {l : List α}, (∀ a ∈ l, f a = some (g a)) → l.mapM f = some (l.map g) := by
  intro l
  induction l with
  | nil => intro _; rfl
  | cons a l ih =>
    intro h
    rw [List.mapM_cons, h a List.mem_cons_self, ih fun b hb => h b (List.mem_cons_of_mem a hb)]
    rfl

/-- A list from offset `off` on, cut into `n` windows of one width and the rest. -/
theorem drop_eq_windows {α : Type} (l : List α) (w : Nat) : ∀ (n off : Nat),
    l.drop off
      = (List.range n).flatMap (fun k => (l.drop (off + w * k)).take w)
        ++ l.drop (off + w * n) := by
  intro n
  induction n with
  | zero => intro off; simp
  | succ n ih =>
    intro off
    have hshift : ∀ k, off + w * (k + 1) = off + w + w * k := fun k => by
      rw [Nat.mul_succ]; omega
    rw [List.range_succ_eq_map, List.flatMap_cons, List.flatMap_map, List.append_assoc]
    simp only [Nat.succ_eq_add_one, hshift, Nat.mul_zero, Nat.add_zero]
    -- the windows after the first are those of the list from `off + w` on
    rw [← ih (off + w), ← List.drop_drop, List.take_append_drop]

/-- A window inside the list has its full width. -/
theorem length_window {α : Type} {l : List α} {off w : Nat} (h : off + w ≤ l.length) :
    ((l.drop off).take w).length = w := by
  rw [List.length_take, List.length_drop]
  omega

/-! ## Stores that hide each other -/

/-- Stores made one after the other, each of which is read back where it covers
and hides nothing elsewhere: what is read is the last store that covers. -/
theorem read_foldl {σ α β : Type} {put : σ → α → σ} (read : σ → β) (covers : α → Bool)
    (value : α → β) : ∀ (l : List α) (s : σ),
    (∀ a ∈ l, ∀ s, read (put s a) = if covers a then value a else read s) →
    read (l.foldl put s) = ((l.reverse.find? covers).map value).getD (read s) := by
  intro l
  induction l with
  | nil => intro s _; rfl
  | cons a l ih =>
    intro s h
    rw [List.foldl_cons, ih _ fun b hb => h b (List.mem_cons_of_mem a hb),
      h a List.mem_cons_self, List.reverse_cons, List.find?_append]
    cases l.reverse.find? covers with
    | some b => rfl
    | none => cases hc : covers a <;> simp [hc]

end Provework.Lib
