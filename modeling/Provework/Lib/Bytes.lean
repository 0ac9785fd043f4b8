import Mathlib.Data.List.Basic
import Mathlib.Logic.Function.Basic
import Mathlib.Tactic.Ring

/-!
# Machine words and little-endian byte strings

The vocabulary every serialiser below is written in: fixed-width words are
`BitVec`s, a byte string is a `List U8`, and a word is written and read
little-endian; `beNat` reads the other way round. `leNat_leBytes` and `leBytes_leNat`
are the two halves of the round trip. Records written one after the other can be read
back if each says where it ends: `Delimited` is that property, `Delimited.flatMap_inj`
what follows for a list of them, and records of one width and records behind their
length have it.
-/

namespace Provework.Lib

abbrev U8 := BitVec 8
abbrev U16 := BitVec 16
abbrev U32 := BitVec 32
abbrev U64 := BitVec 64

/-- `[u8; 32]`, the type of digests. -/
abbrev Hash := Fin 32 → U8

/-- The low `n` bytes of `v`, least significant first. -/
def leBytes : Nat → Nat → List U8
  | 0, _ => []
  | n + 1, v => BitVec.ofNat 8 v :: leBytes n (v / 256)

/-- The number a little-endian byte string stands for. -/
def leNat : List U8 → Nat
  | [] => 0
  | b :: bs => b.toNat + 256 * leNat bs

@[simp] theorem length_leBytes : ∀ (n v : Nat), (leBytes n v).length = n
  | 0, _ => rfl
  | n + 1, v => by rw [leBytes, List.length_cons, length_leBytes n]

theorem take_leBytes : ∀ (k n v : Nat), k ≤ n → (leBytes n v).take k = leBytes k v
  | 0, _, _, _ => by simp [leBytes]
  | k + 1, 0, _, h => by omega
  | k + 1, n + 1, v, h => by
    rw [leBytes, List.take_succ_cons, take_leBytes k n _ (by omega), leBytes]

theorem leNat_lt : ∀ (bs : List U8), leNat bs < 256 ^ bs.length
  | [] => by simp [leNat]
  | b :: bs => by
    have ih := leNat_lt bs
    have hb : b.toNat < 256 := b.isLt
    rw [leNat, List.length_cons, Nat.pow_succ]
    omega

/-- Writing then reading keeps the value modulo the width written. -/
theorem leNat_leBytes : ∀ (n v : Nat), leNat (leBytes n v) = v % 256 ^ n
  | 0, v => by simp [leBytes, leNat, Nat.mod_one]
  | n + 1, v => by
    rw [leBytes, leNat, leNat_leBytes n, BitVec.toNat_ofNat]
    show v % 256 + 256 * (v / 256 % 256 ^ n) = v % 256 ^ (n + 1)
    rw [Nat.pow_succ, Nat.mul_comm (256 ^ n) 256, Nat.mod_mul]

/-- Reading then writing at the same width gives the bytes back. -/
theorem leBytes_leNat : ∀ (bs : List U8), leBytes bs.length (leNat bs) = bs
  | [] => rfl
  | b :: bs => by
    have hb : b.toNat < 256 := b.isLt
    have hhead : BitVec.ofNat 8 (leNat (b :: bs)) = b := by
      apply BitVec.eq_of_toNat_eq
      rw [BitVec.toNat_ofNat, leNat]
      omega
    have htail : leNat (b :: bs) / 256 = leNat bs := by
      rw [leNat]
      omega
    rw [List.length_cons, leBytes, hhead, htail, leBytes_leNat bs]

/-- A word is determined by the bytes it is written as. -/
theorem leBytes_toNat_inj {w n : Nat} (hw : 2 ^ w ≤ 256 ^ n) {x y : BitVec w}
    (h : leBytes n x.toNat = leBytes n y.toNat) : x = y := by
  have hn := congrArg leNat h
  rw [leNat_leBytes, leNat_leBytes,
    Nat.mod_eq_of_lt (Nat.lt_of_lt_of_le x.isLt hw),
    Nat.mod_eq_of_lt (Nat.lt_of_lt_of_le y.isLt hw)] at hn
  exact BitVec.eq_of_toNat_eq hn

/-- The number a big-endian byte string stands for. -/
def beNat : List U8 → Nat
  | [] => 0
  | b :: bs => b.toNat * 256 ^ bs.length + beNat bs

theorem beNat_lt : ∀ (bs : List U8), beNat bs < 256 ^ bs.length
  | [] => by simp [beNat]
  | b :: bs => by
    have ih := beNat_lt bs
    have hb : b.toNat + 1 ≤ 256 := b.isLt
    calc beNat (b :: bs) < (b.toNat + 1) * 256 ^ bs.length := by rw [beNat, Nat.succ_mul]; omega
      _ ≤ 256 * 256 ^ bs.length := Nat.mul_le_mul_right _ hb
      _ = 256 ^ (b :: bs).length := by rw [List.length_cons, Nat.pow_succ, Nat.mul_comm]

/-! ## Records that can be told apart -/

/-- What `f` writes of a value in `P` says what the value is and where the record
ends, whatever stands behind it. -/
def Delimited {α β : Type} (P : α → Prop) (f : α → List β) : Prop :=
  ∀ ⦃a b : α⦄ ⦃x y : List β⦄, P a → P b → f a ++ x = f b ++ y → a = b ∧ x = y

section

variable {α β γ : Type} {P : α → Prop} {f : α → List β}

/-- Records of one width. -/
theorem delimited_of_width {w : Nat} (hlen : ∀ a, (f a).length = w)
    (hf : ∀ a b, P a → P b → f a = f b → a = b) : Delimited P f := by
  intro a b x y ha hb h
  obtain ⟨hab, hxy⟩ := List.append_inj h ((hlen a).trans (hlen b).symm)
  exact ⟨hf a b ha hb hab, hxy⟩

/-- A byte string behind its length. -/
theorem delimited_prefixed (w : Nat) :
    Delimited (fun b : List U8 => b.length < 256 ^ w) fun b => leBytes w b.length ++ b := by
  intro a b x y ha hb h
  simp only [List.append_assoc] at h
  obtain ⟨hlen, h⟩ := List.append_inj h (by rw [length_leBytes, length_leBytes])
  have hlen : a.length = b.length := by
    have hread := congrArg leNat hlen
    rwa [leNat_leBytes, leNat_leBytes, Nat.mod_eq_of_lt ha, Nat.mod_eq_of_lt hb] at hread
  exact List.append_inj h hlen

theorem Delimited.comp (h : Delimited P f) {g : γ → α} (hg : Function.Injective g) :
    Delimited (fun c => P (g c)) fun c => f (g c) := by
  intro a b x y ha hb hfg
  obtain ⟨hab, hxy⟩ := h ha hb hfg
  exact ⟨hg hab, hxy⟩

/-- Records one after the other can be read back without a count, if none is
empty. -/
theorem Delimited.flatMap_inj (h : Delimited P f) (hne : ∀ a, f a ≠ []) :
    ∀ {l₁ l₂ : List α}, (∀ a ∈ l₁, P a) → (∀ a ∈ l₂, P a) → l₁.flatMap f = l₂.flatMap f →
    l₁ = l₂ := by
  intro l₁
  induction l₁ with
  | nil =>
    intro l₂ _ _ hflat
    cases l₂ with
    | nil => rfl
    | cons b l₂ => exact absurd (List.append_eq_nil_iff.mp hflat.symm).1 (hne b)
  | cons a l₁ ih =>
    intro l₂ h₁ h₂ hflat
    cases l₂ with
    | nil => exact absurd (List.append_eq_nil_iff.mp hflat).1 (hne a)
    | cons b l₂ =>
      rw [List.forall_mem_cons] at h₁ h₂
      obtain ⟨hab, htl⟩ := h h₁.1 h₂.1 hflat
      rw [hab, ih h₁.2 h₂.2 htl]

end

/-- Records of one positive width: the concatenation determines the list. -/
theorem flatMap_left_inj {α : Type} {f : α → List U8} {w : Nat} (hw : 0 < w)
    (hlen : ∀ a, (f a).length = w) (hf : Function.Injective f) {l₁ l₂ : List α}
    (h : l₁.flatMap f = l₂.flatMap f) : l₁ = l₂ := by
  have hdelim : Delimited (fun _ => True) f := delimited_of_width hlen fun a b _ _ hab => hf hab
  have hne : ∀ a, f a ≠ [] := fun a => List.ne_nil_of_length_pos (by rw [hlen]; exact hw)
  exact hdelim.flatMap_inj hne (fun _ _ => trivial) (fun _ _ => trivial) h

/-- The `i`-th record starts after `i` widths. -/
theorem flatMap_split {α : Type} {f : α → List U8} {w : Nat} (hlen : ∀ a, (f a).length = w) :
    ∀ (l : List α) (i : Nat) (h : i < l.length),
      ∃ pre post, l.flatMap f = pre ++ (f (l.get ⟨i, h⟩) ++ post) ∧ pre.length = i * w := by
  intro l
  induction l with
  | nil => intro i h; simp at h
  | cons a l ih =>
    intro i h
    cases i with
    | zero => exact ⟨[], l.flatMap f, by simp, by simp⟩
    | succ i =>
      obtain ⟨pre, post, he, hpre⟩ := ih i (Nat.lt_of_succ_lt_succ h)
      refine ⟨f a ++ pre, post, ?_, ?_⟩
      · rw [List.flatMap_cons, he, List.append_assoc]
        rfl
      · rw [List.length_append, hlen, hpre, Nat.succ_mul, Nat.add_comm]

/-- Two renderings of one list, piecewise of equal widths, agree only if they
agree piece by piece. -/
theorem flatMap_right_inj {α : Type} {f g : α → List U8} (hlen : ∀ a, (f a).length = (g a).length) :
    ∀ {l : List α}, l.flatMap f = l.flatMap g → ∀ a ∈ l, f a = g a := by
  intro l
  induction l with
  | nil => intro _ a ha; cases ha
  | cons b l ih =>
    intro h a ha
    rw [List.flatMap_cons, List.flatMap_cons] at h
    obtain ⟨hb, htl⟩ := List.append_inj h (hlen b)
    rcases List.mem_cons.mp ha with rfl | ha
    · exact hb
    · exact ih htl a ha

end Provework.Lib
