import Mathlib.Data.Finset.Card
import Mathlib.Data.Finset.Range
import Provework.Rvcore.Mem

/-!
# The memory's invariant: directory, slots and lookaside agree

`Coherent` is what every operation of `mem.rs` keeps: directory entries are
distinct in-range slots, there are exactly as many slots as entries, and a
lookaside line is either empty or repeats a directory entry. `Valid` adds what
the 4 GiB address space gives — page indices below `2^20` — and with it the
truncation `slot as u32` and the `NO_SLOT` sentinel become harmless:
`slotOf_eq` says a probe answers exactly what the directory holds.

`Mem.pages` is the abstraction function: the sparse map from page index to
contents. The lemmas `pages_fill`, `pages_alloc` and `pages_setSlot` say what each
primitive update does to it; everything later is assembled from these three.
-/

namespace Provework.Rvcore

open Provework.Lib

/-- The abstract memory: a finite map from page index to page. -/
abbrev PageMap := Std.ExtTreeMap U32 Page

namespace Mem

/-- What the directory and the slots together stand for. -/
def pages (m : Mem) : PageMap := m.pageDir.map fun _ s => m.page s

theorem getElem?_pages (m : Mem) (p : U32) : m.pages[p]? = m.pageDir[p]?.map m.page := by
  rw [pages, Std.ExtTreeMap.getElem?_map]

/-- Directory, slots and lookaside are consistent with each other. -/
structure Coherent (m : Mem) : Prop where
  dir_lt : ∀ (p : U32) s, m.pageDir[p]? = some s → s < m.pageSlots.length
  dir_inj : ∀ (p q : U32) s, m.pageDir[p]? = some s → m.pageDir[q]? = some s → p = q
  size_eq : m.pageSlots.length = m.pageDir.size
  look : ∀ i, m.lookaside i = (noPage, noSlot) ∨
    ∃ (p : U32) (s : Nat), m.lookaside i = (p, BitVec.ofNat 32 s) ∧ m.pageDir[p]? = some s

/-- A coherent memory whose pages all lie in the 4 GiB space. -/
structure Valid (m : Mem) : Prop extends Coherent m where
  pages_lt : ∀ (p : U32) s, m.pageDir[p]? = some s → p.toNat < 2 ^ 20

theorem new_valid : Valid new := by
  refine ⟨⟨?_, ?_, ?_, ?_⟩, ?_⟩
  · intro p s h; simp [new] at h
  · intro p q s h; simp [new] at h
  · simp [new]
  · intro i; exact Or.inl rfl
  · intro p s h; simp [new] at h

/-- The syscall log is no part of the invariant. -/
theorem Valid.setLog {m : Mem} (hv : m.Valid) (log : List U8) :
    Valid { m with syscallLog := log } :=
  ⟨⟨hv.dir_lt, hv.dir_inj, hv.size_eq, hv.look⟩, hv.pages_lt⟩

/-- At most `2^20` pages are ever allocated in the 4 GiB space. -/
theorem Valid.slots_le {m : Mem} (hv : m.Valid) : m.pageSlots.length ≤ 2 ^ 20 := by
  have hnodup : (m.pageDir.keys.map BitVec.toNat).Nodup :=
    m.pageDir.nodup_keys.map fun _ _ h => BitVec.eq_of_toNat_eq h
  have hsub : (m.pageDir.keys.map BitVec.toNat).toFinset ⊆ Finset.range (2 ^ 20) := by
    intro n hn
    obtain ⟨p, hp, rfl⟩ := List.mem_map.mp (List.mem_toFinset.mp hn)
    obtain ⟨s, hs⟩ := Option.isSome_iff_exists.mp
      (Std.ExtTreeMap.mem_iff_isSome_getElem?.mp (Std.ExtTreeMap.mem_keys.mp hp))
    exact Finset.mem_range.mpr (hv.pages_lt p s hs)
  have hcard := Finset.card_le_card hsub
  rw [List.toFinset_card_of_nodup hnodup, List.length_map, Std.ExtTreeMap.length_keys,
    Finset.card_range] at hcard
  rw [hv.size_eq]
  exact hcard

/-- A slot index survives the cast to `u32` and is never the sentinel. -/
theorem Valid.slot_cast {m : Mem} (hv : m.Valid) {p : U32} {s : Nat}
    (h : m.pageDir[p]? = some s) :
    (BitVec.ofNat 32 s).toNat = s ∧ BitVec.ofNat 32 s ≠ noSlot := by
  have hs : s < 2 ^ 20 := Nat.lt_of_lt_of_le (hv.dir_lt p s h) hv.slots_le
  have hcast : (BitVec.ofNat 32 s).toNat = s := by
    rw [BitVec.toNat_ofNat]
    exact Nat.mod_eq_of_lt (by omega)
  refine ⟨hcast, fun he => ?_⟩
  have hmax := congrArg BitVec.toNat he
  rw [hcast] at hmax
  simp only [noSlot, BitVec.toNat_ofNat] at hmax
  omega

theorem Valid.dir_noPage {m : Mem} (hv : m.Valid) : m.pageDir[noPage]? = none := by
  cases h : m.pageDir[noPage]? with
  | none => rfl
  | some s =>
    have hlt := hv.pages_lt noPage s h
    simp [noPage] at hlt

/-- A line whose tag matches answers as the directory does. -/
theorem Valid.line_hit {m : Mem} (hv : m.Valid) {page : U32}
    (htag : (m.lookaside (lineOf page)).1 = page) :
    (if (m.lookaside (lineOf page)).2 = noSlot then none
      else some (m.lookaside (lineOf page)).2.toNat) = m.pageDir[page]? := by
  rcases hv.look (lineOf page) with he | ⟨p, s, hl, hd⟩
  · rw [he] at htag ⊢
    rw [if_pos rfl, ← htag, hv.dir_noPage]
  · rw [hl] at htag ⊢
    obtain ⟨hcast, hne⟩ := hv.slot_cast hd
    have hp : p = page := htag
    rw [if_neg hne, hcast, ← hp, hd]

/-! ## Probes -/

/-- A probe answers exactly what the directory holds. -/
theorem slotOf_eq {m : Mem} (hv : m.Valid) (page : U32) :
    (m.slotOf page).1 = m.pageDir[page]? := by
  unfold slotOf
  by_cases htag : (m.lookaside (lineOf page)).1 = page
  · simp only [if_pos htag]
    exact hv.line_hit htag
  · simp only [if_neg htag]
    cases m.pageDir[page]? <;> rfl

theorem slotOfRo_eq {m : Mem} (hv : m.Valid) (page : U32) :
    m.slotOfRo page = m.pageDir[page]? := by
  unfold slotOfRo
  by_cases htag : (m.lookaside (lineOf page)).1 = page
  · simp only [if_pos htag]
    exact hv.line_hit htag
  · simp only [if_neg htag]

/-- The only thing a probe may change is the line of the page it found. -/
theorem slotOf_mem (m : Mem) (page : U32) :
    (m.slotOf page).2 = m ∨
      ∃ s, m.pageDir[page]? = some s ∧ (m.slotOf page).2 = m.fill page s := by
  unfold slotOf
  by_cases htag : (m.lookaside (lineOf page)).1 = page
  · simp only [if_pos htag]
    exact Or.inl trivial
  · simp only [if_neg htag]
    cases hd : m.pageDir[page]? with
    | none => exact Or.inl rfl
    | some s => exact Or.inr ⟨s, rfl, rfl⟩

/-! ## The three primitive updates -/

/-- Add a page that is not in the directory yet. -/
def alloc (m : Mem) (idx : U32) (page : Page) : Mem :=
  { m with
    pageSlots := m.pageSlots ++ [page]
    pageDir := m.pageDir.insert idx m.pageSlots.length }

/-- Replace the contents of a slot. -/
def setSlot (m : Mem) (s : Nat) (page : Page) : Mem :=
  { m with pageSlots := m.pageSlots.set s page }

theorem pages_fill (m : Mem) (p : U32) (s : Nat) : (m.fill p s).pages = m.pages := rfl

theorem getElem?_insert_dir (d : Std.ExtTreeMap U32 Nat) (k a : U32) (v : Nat) :
    (d.insert k v)[a]? = if k = a then some v else d[a]? := by
  rw [Std.ExtTreeMap.getElem?_insert]
  simp only [Std.LawfulEqCmp.compare_eq_iff_eq]

theorem getElem?_insert_pages (M : PageMap) (k a : U32) (v : Page) :
    (M.insert k v)[a]? = if k = a then some v else M[a]? := by
  rw [Std.ExtTreeMap.getElem?_insert]
  simp only [Std.LawfulEqCmp.compare_eq_iff_eq]

theorem fill_coherent {m : Mem} {p : U32} {s : Nat} (hc : m.Coherent)
    (hd : m.pageDir[p]? = some s) : (m.fill p s).Coherent := by
  refine ⟨hc.dir_lt, hc.dir_inj, hc.size_eq, fun i => ?_⟩
  by_cases hi : i = lineOf p
  · subst hi
    exact Or.inr ⟨p, s, by simp [fill], hd⟩
  · have hsame : (m.fill p s).lookaside i = m.lookaside i := by
      simp [fill, Function.update_of_ne hi]
    rw [hsame]
    exact hc.look i

theorem alloc_coherent {m : Mem} {idx : U32} {page : Page} (hc : m.Coherent)
    (hd : m.pageDir[idx]? = none) : (m.alloc idx page).Coherent := by
  have hget : ∀ p : U32, (m.alloc idx page).pageDir[p]?
      = if idx = p then some m.pageSlots.length else m.pageDir[p]? := fun p =>
    getElem?_insert_dir _ _ _ _
  refine ⟨fun p s h => ?_, fun p q s hp hq => ?_, ?_, fun i => ?_⟩
  · rw [hget] at h
    have hlen : (m.alloc idx page).pageSlots.length = m.pageSlots.length + 1 := by simp [alloc]
    rw [hlen]
    split at h
    · injection h with h; omega
    · have := hc.dir_lt p s h; omega
  · rw [hget] at hp hq
    -- the fresh slot is past every old one, so it clashes with none of them
    split at hp
    next hip =>
      split at hq
      next hiq => exact hip.symm.trans hiq
      next =>
        injection hp with hp
        have := hc.dir_lt q s hq
        omega
    next =>
      split at hq
      next =>
        injection hq with hq
        have := hc.dir_lt p s hp
        omega
      next => exact hc.dir_inj p q s hp hq
  · have hnot : m.pageDir.contains idx = false := by
      rw [Std.ExtTreeMap.contains_eq_isSome_getElem?, hd]; rfl
    show (m.pageSlots ++ [page]).length = (m.pageDir.insert idx _).size
    rw [Std.ExtTreeMap.size_insert, hnot, List.length_append, hc.size_eq]
    rfl
  · rcases hc.look i with he | ⟨p, s, hl, hp⟩
    · exact Or.inl he
    · refine Or.inr ⟨p, s, hl, ?_⟩
      rw [hget, if_neg, hp]
      intro he
      rw [he, hp] at hd
      exact absurd hd (by simp)

theorem setSlot_coherent {m : Mem} {s : Nat} {page : Page} (hc : m.Coherent) :
    (m.setSlot s page).Coherent := by
  refine ⟨fun p t h => ?_, hc.dir_inj, ?_, hc.look⟩
  · have := hc.dir_lt p t h
    simpa [setSlot] using this
  · simpa [setSlot] using hc.size_eq

theorem fill_valid {m : Mem} {p : U32} {s : Nat} (hv : m.Valid)
    (hd : m.pageDir[p]? = some s) : (m.fill p s).Valid :=
  ⟨fill_coherent hv.toCoherent hd, hv.pages_lt⟩

theorem alloc_valid {m : Mem} {idx : U32} {page : Page} (hv : m.Valid)
    (hd : m.pageDir[idx]? = none) (hidx : idx.toNat < 2 ^ 20) : (m.alloc idx page).Valid := by
  refine ⟨alloc_coherent hv.toCoherent hd, fun p s h => ?_⟩
  have h' : (m.pageDir.insert idx m.pageSlots.length)[p]? = some s := h
  rw [getElem?_insert_dir] at h'
  split at h'
  next he => rw [← he]; exact hidx
  next => exact hv.pages_lt p s h'

theorem setSlot_valid {m : Mem} {s : Nat} {page : Page} (hv : m.Valid) :
    (m.setSlot s page).Valid :=
  ⟨setSlot_coherent hv.toCoherent, hv.pages_lt⟩

theorem page_alloc_lt {m : Mem} {idx : U32} {page : Page} {s : Nat}
    (hs : s < m.pageSlots.length) : (m.alloc idx page).page s = m.page s := by
  simp [Mem.page, alloc, List.getD_eq_getElem?_getD, List.getElem?_append_left hs]

theorem page_alloc_self (m : Mem) (idx : U32) (page : Page) :
    (m.alloc idx page).page m.pageSlots.length = page := by
  simp [Mem.page, alloc, List.getD_eq_getElem?_getD]

/-- Allocating adds one page to the abstract map. -/
theorem pages_alloc {m : Mem} {idx : U32} {page : Page} (hc : m.Coherent) :
    (m.alloc idx page).pages = m.pages.insert idx page := by
  apply Std.ExtTreeMap.ext_getElem?
  intro p
  rw [getElem?_pages, getElem?_insert_pages, getElem?_pages]
  show ((m.pageDir.insert idx m.pageSlots.length)[p]?).map _ = _
  rw [getElem?_insert_dir]
  split
  · rw [Option.map_some, page_alloc_self]
  · cases hd : m.pageDir[p]? with
    | none => rfl
    | some s => rw [Option.map_some, Option.map_some, page_alloc_lt (hc.dir_lt p s hd)]

theorem page_setSlot {m : Mem} {s t : Nat} {page : Page} (hs : s < m.pageSlots.length) :
    (m.setSlot s page).page t = if s = t then page else m.page t := by
  by_cases h : s = t
  · subst h
    simp [Mem.page, setSlot, List.getD_eq_getElem?_getD, List.getElem?_set_self hs]
  · simp [Mem.page, setSlot, List.getD_eq_getElem?_getD, List.getElem?_set_ne h, h]

/-- Replacing the contents of an allocated page replaces that page alone: no
other page shares its slot. -/
theorem pages_setSlot {m : Mem} {idx : U32} {s : Nat} {page : Page} (hc : m.Coherent)
    (hd : m.pageDir[idx]? = some s) :
    (m.setSlot s page).pages = m.pages.insert idx page := by
  apply Std.ExtTreeMap.ext_getElem?
  intro p
  rw [getElem?_pages, getElem?_insert_pages, getElem?_pages]
  show (m.pageDir[p]?).map _ = _
  cases hp : m.pageDir[p]? with
  | none =>
    rw [if_neg]
    · rfl
    · intro he
      rw [← he, hd] at hp
      exact absurd hp (by simp)
  | some t =>
    rw [Option.map_some, Option.map_some, page_setSlot (hc.dir_lt idx s hd)]
    by_cases hst : s = t
    · -- one slot, one page: the directory is injective
      subst hst
      rw [if_pos rfl, if_pos (hc.dir_inj idx p s hd hp)]
    · rw [if_neg hst, if_neg]
      intro he
      rw [he, hp] at hd
      injection hd with hd
      exact hst hd.symm

/-! ## What an allocation probe does -/

/-- The memory `slotMutOrAlloc` leaves behind: unchanged, with one line
filled, or with a fresh zero page and its line filled. -/
theorem slotMutOrAlloc_cases {m : Mem} (hv : m.Valid) (page : U32) :
    (∃ s, m.pageDir[page]? = some s ∧
      (m.slotMutOrAlloc page = (s, m) ∨ m.slotMutOrAlloc page = (s, m.fill page s))) ∨
    (m.pageDir[page]? = none ∧ m.slotMutOrAlloc page
      = (m.pageSlots.length, (m.alloc page zeroPage).fill page m.pageSlots.length)) := by
  unfold slotMutOrAlloc
  by_cases hhit : (m.lookaside (lineOf page)).1 = page ∧ (m.lookaside (lineOf page)).2 ≠ noSlot
  · have hline := hv.line_hit hhit.1
    rw [if_neg hhit.2] at hline
    refine Or.inl ⟨_, hline.symm, Or.inl ?_⟩
    simp only [if_pos hhit]
  · simp only [if_neg hhit]
    cases hd : m.pageDir[page]? with
    | none => exact Or.inr ⟨rfl, rfl⟩
    | some s => exact Or.inl ⟨s, rfl, Or.inr rfl⟩

/-- After an allocation probe the page is in the directory at the slot
returned, and the abstract map has at most gained a zero page. -/
theorem slotMutOrAlloc_spec {m : Mem} (hv : m.Valid) {page : U32} (hp : page.toNat < 2 ^ 20) :
    (m.slotMutOrAlloc page).2.Valid ∧
    (m.slotMutOrAlloc page).2.pageDir[page]? = some (m.slotMutOrAlloc page).1 ∧
    (m.slotMutOrAlloc page).2.pages
      = (if m.pages[page]? = none then m.pages.insert page zeroPage else m.pages) ∧
    (m.slotMutOrAlloc page).2.syscallLog = m.syscallLog := by
  rcases slotMutOrAlloc_cases hv page with ⟨s, hd, he | he⟩ | ⟨hd, he⟩
  · have hpg : m.pages[page]? ≠ none := by rw [getElem?_pages, hd]; simp
    rw [he, if_neg hpg]
    exact ⟨hv, hd, rfl, rfl⟩
  · have hpg : m.pages[page]? ≠ none := by rw [getElem?_pages, hd]; simp
    rw [he, if_neg hpg]
    exact ⟨fill_valid hv hd, hd, rfl, rfl⟩
  · have hpg : m.pages[page]? = none := by rw [getElem?_pages, hd]; rfl
    have hnew : (m.alloc page zeroPage).pageDir[page]? = some m.pageSlots.length := by
      show (m.pageDir.insert page _)[page]? = _
      rw [Std.ExtTreeMap.getElem?_insert_self]
    rw [he, if_pos hpg]
    exact ⟨fill_valid (alloc_valid hv hd hp) hnew, hnew, pages_alloc hv.toCoherent, rfl⟩

end Mem

end Provework.Rvcore
