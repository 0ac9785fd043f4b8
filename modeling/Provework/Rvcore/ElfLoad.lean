import Provework.Rvcore.ElfFormat

/-!
# What a loaded image holds

`load` writes the file bytes of each segment in table order, so where segments
overlap the last one shows. The tail of a segment that is not in the file is
not written: an address outside every file range reads as zero, and its page
is not allocated unless a file range reaches into it. The allocated pages are
hashed with the state, so which ones they are is part of the result.
-/

namespace Provework.Rvcore.Elf

open Provework.Lib

namespace ProgramHeader

/-- The addresses the segment has file bytes for. -/
def Covers (h : ProgramHeader) (a : Nat) : Prop := h.vaddr ≤ a ∧ a < h.vaddr + h.filesz

instance (h : ProgramHeader) (a : Nat) : Decidable (h.Covers a) := by
  unfold Covers
  infer_instance

variable {bytes : List U8} {h : ProgramHeader}

theorem Good.toNat_vaddr (hg : h.Good bytes) : (h.segment bytes).1.toNat = h.vaddr := by
  have hmem := hg.mem_le
  show (BitVec.ofNat 64 h.vaddr).toNat = h.vaddr
  rw [BitVec.toNat_ofNat]
  omega

theorem Good.length_data (hg : h.Good bytes) : (h.segment bytes).2.length = h.filesz :=
  length_window hg.file_le

theorem Good.covers_lt (hg : h.Good bytes) {a : Nat} (hc : h.Covers a) : a < addrSpace := by
  have hle := hg.filesz_le
  have hmem := hg.mem_le
  have hlt := hc.2
  rw [addrSpace]
  omega

/-- Storing a segment: its file bytes where it covers, and no change elsewhere. -/
theorem Good.byte_store (hg : h.Good bytes) (M : PageMap) {a : Nat} (ha : a < addrSpace) :
    (M.setBytes (h.segment bytes).1.toNat (h.segment bytes).2).byte a
      = if h.Covers a then bytes.getD (h.offset + (a - h.vaddr)) 0 else M.byte a := by
  have hle := hg.filesz_le
  have hmem := hg.mem_le
  rw [PageMap.byte_setBytes _ _ (by rw [hg.toNat_vaddr, hg.length_data, addrSpace]; omega) ha,
    hg.toNat_vaddr, hg.length_data]
  by_cases hc : h.Covers a
  · have hlt : a - h.vaddr < h.filesz := by
      have := hc.1
      have := hc.2
      omega
    rw [if_pos ⟨hc.1, hc.2⟩, if_pos hc, segment, List.getD_eq_getElem?_getD,
      List.getElem?_take_of_lt hlt, List.getElem?_drop, List.getD_eq_getElem?_getD]
  · rw [if_neg hc]
    exact if_neg hc

end ProgramHeader

/-- The byte an image has at address `a`: that of the last segment, in table
order, whose file range contains `a`. -/
def imageByte (bytes : List U8) (a : Nat) : U8 :=
  match (loads bytes).reverse.find? (fun h => h.Covers a) with
  | some h => bytes.getD (h.offset + (a - h.vaddr)) 0
  | none => 0

/-- The segments stored one after the other. -/
def store (M : PageMap) (segments : List (U64 × List U8)) : PageMap :=
  segments.foldl (fun M seg => M.setBytes seg.1.toNat seg.2) M

theorem loadSegments_pages : ∀ (segments : List (U64 × List U8)) {mem : Mem}, mem.Valid →
    (∀ seg ∈ segments, Fits seg) →
    (loadSegments mem segments).2.pages = store mem.pages segments := by
  intro segments
  induction segments with
  | nil => intro mem _ _; rfl
  | cons seg rest ih =>
    intro mem hv hfit
    obtain ⟨vaddr, data⟩ := seg
    rcases Mem.write_spec hv vaddr data with ⟨-, hok, hval, hpages, -⟩ | ⟨hr, -⟩
    · have hw : mem.loadImage vaddr data = (.ok (), (mem.write vaddr data).2) := Prod.ext hok rfl
      rw [loadSegments, hw]
      show (loadSegments (mem.write vaddr data).2 rest).2.pages = _
      rw [ih hval fun s hs => hfit s (List.mem_cons_of_mem _ hs), hpages]
      rfl
    · exact absurd (hfit _ List.mem_cons_self) hr

/-- The last segment that covers an address decides its byte. -/
theorem byte_store {bytes : List U8} {a : Nat} (ha : a < addrSpace) (hs : List ProgramHeader)
    (M : PageMap) (hgood : ∀ h ∈ hs, h.Good bytes) :
    (store M (hs.map (ProgramHeader.segment bytes))).byte a
      = ((hs.reverse.find? (fun h => h.Covers a)).map
          fun h => bytes.getD (h.offset + (a - h.vaddr)) 0).getD (M.byte a) := by
  rw [store, List.foldl_map]
  refine read_foldl (fun M : PageMap => M.byte a) _ _ hs M fun h hh M => ?_
  rw [(hgood h hh).byte_store M ha]
  by_cases hc : h.Covers a
  · rw [if_pos hc, if_pos (decide_eq_true hc)]
  · rw [if_neg hc, if_neg (by simpa using hc)]

theorem isSome_store {bytes : List U8} (p : U32) : ∀ (hs : List ProgramHeader) (M : PageMap),
    (∀ h ∈ hs, h.Good bytes) →
    ((store M (hs.map (ProgramHeader.segment bytes)))[p]?.isSome ↔
      M[p]?.isSome ∨ ∃ h ∈ hs, ∃ a, h.Covers a ∧ pageOf a = p) := by
  intro hs
  induction hs with
  | nil => intro M _; simp [store]
  | cons h hs ih =>
    intro M hgood
    have hg := hgood h List.mem_cons_self
    rw [List.map_cons, store, List.foldl_cons, ← store,
      ih _ fun h' hh => hgood h' (List.mem_cons_of_mem _ hh), PageMap.isSome_setBytes,
      hg.toNat_vaddr, hg.length_data, or_assoc, List.exists_mem_cons_iff]
    refine or_congr_right (or_congr_left ?_)
    exact exists_congr fun a => and_assoc.symm

/-- The pages that hold a byte of a file range, by number. -/
theorem pageOf_eq_iff {a : Nat} (ha : a < addrSpace) (p : U32) :
    pageOf a = p ↔ a / 4096 = p.toNat := by
  rw [addrSpace] at ha
  have hp : (pageOf a).toNat = a / 4096 := by
    rw [pageOf, BitVec.toNat_ofNat]
    omega
  rw [← hp]
  exact ⟨congrArg BitVec.toNat, BitVec.eq_of_toNat_eq⟩

/-- **A parsed image loads, and holds exactly its file bytes.** -/
theorem load_places {bytes : List U8} {image : ElfImage} (h : parse bytes = .ok image) :
    (load Mem.new image).1 = .ok () ∧
    (∀ a, a < 2 ^ 32 → ((load Mem.new image).2.read (BitVec.ofNat 64 a) 1).1
      = .ok ((imageByte bytes a).setWidth 64)) ∧
    ∀ p : U32, p ∈ (load Mem.new image).2.pageDir ↔
      ∃ h ∈ loads bytes, ∃ a, h.vaddr ≤ a ∧ a < h.vaddr + h.filesz ∧ a / 4096 = p.toNat := by
  obtain ⟨hacc, hsegs⟩ := parse_inv h
  have hvalid := load_valid Mem.new_valid image
  have hpages : (load Mem.new image).2.pages
      = store ∅ ((loads bytes).map (ProgramHeader.segment bytes)) := by
    rw [load, loadSegments_pages _ Mem.new_valid (parse_fits h), hsegs]
    rfl
  refine ⟨load_parse h Mem.new_valid, fun a ha => ?_, fun p => ?_⟩
  · have hto : (BitVec.ofNat 64 a).toNat = a := by
      rw [BitVec.toNat_ofNat]
      omega
    have hbyte : (load Mem.new image).2.pages.byte a = imageByte bytes a := by
      rw [hpages, byte_store ha _ _ hacc.good, imageByte]
      cases (loads bytes).reverse.find? (fun h => h.Covers a) <;> rfl
    rw [Mem.read_eq hvalid _ (Or.inl rfl), hto, if_pos (by rw [addrSpace]; omega),
      PageMap.bytes_succ, hbyte, PageMap.bytes]
    refine congrArg Except.ok (BitVec.eq_of_toNat_eq ?_)
    show (BitVec.ofNat 64 ((imageByte bytes a).toNat + 256 * 0)).toNat = _
    rw [BitVec.toNat_ofNat, BitVec.toNat_setWidth]
    rfl
  · have hmem : p ∈ (load Mem.new image).2.pageDir ↔ (load Mem.new image).2.pages[p]?.isSome := by
      rw [Mem.getElem?_pages, Option.isSome_map, Std.ExtTreeMap.mem_iff_isSome_getElem?]
    rw [hmem, hpages, isSome_store p _ _ hacc.good]
    constructor
    · rintro (hnew | ⟨h, hh, a, hc, hp⟩)
      · cases hnew
      · have hin := (hacc.good h hh).covers_lt hc
        exact ⟨h, hh, a, hc.1, hc.2, (pageOf_eq_iff hin p).mp hp⟩
    · rintro ⟨h, hh, a, hle, hlt, hp⟩
      have hin := (hacc.good h hh).covers_lt ⟨hle, hlt⟩
      exact Or.inr ⟨h, hh, a, ⟨hle, hlt⟩, (pageOf_eq_iff hin p).mpr hp⟩

/-- The second of the two segments shows where they overlap; the page after
the file bytes is not allocated for its BSS. -/
theorem twoSegments_loaded : ∃ image, parse twoSegments = .ok image ∧
    ((load Mem.new image).2.read 0x80000fff 1).1 = .ok 3 ∧
    ((load Mem.new image).2.read 0x80000ffe 1).1 = .ok 1 ∧
    (0x80002 : U32) ∉ (load Mem.new image).2.pageDir := by
  have hok : (parse twoSegments).isOk := by decide +kernel
  cases h : parse twoSegments with
  | error e => rw [h] at hok; cases hok
  | ok image =>
    obtain ⟨-, hbyte, hpage⟩ := load_places h
    refine ⟨image, rfl, (hbyte 0x80000fff (by decide)).trans (by decide +kernel),
      (hbyte 0x80000ffe (by decide)).trans (by decide +kernel), fun hin => ?_⟩
    obtain ⟨h, hh, a, hle, hlt, ha⟩ := (hpage 0x80002).mp hin
    -- both file ranges end at or before `0x80001001`
    have hends : ∀ h ∈ loads twoSegments, h.vaddr + h.filesz ≤ 0x80001001 := by decide +kernel
    have hend := hends h hh
    have ha : a / 4096 = 0x80002 := ha
    omega

end Provework.Rvcore.Elf
