import Provework.Rvcore.MemInv

/-!
# `Mem` is a sparse map of pages

The abstract memory is a `PageMap`; reading a byte of an absent page gives
zero, writing one allocates. This file shows that `read`, `write`,
`read_region` and `insert_page` on a valid `Mem` are exactly those operations
on `Mem.pages`, and that the cache and the order of allocation leave no trace:
`mem_refines_page_map` runs any sequence of operations on both levels and
finds the same answers, the same map, and a page iteration and root that are
functions of the map alone.
-/

namespace Provework.Rvcore

open Provework.Lib

/-! ## The abstract operations -/

namespace PageMap

/-- The byte at address `a`; absent pages read as zero. -/
def byte (M : PageMap) (a : Nat) : U8 :=
  match M[pageOf a]? with
  | some p => p (offOf a)
  | none => 0

/-- The `len` bytes from address `a` on. -/
def bytes (M : PageMap) (a len : Nat) : List U8 :=
  (List.range len).map fun i => M.byte (a + i)

/-- Store one byte, allocating its page if need be. -/
def setByte (M : PageMap) (a : Nat) (b : U8) : PageMap :=
  M.insert (pageOf a) (Function.update (M[pageOf a]?.getD zeroPage) (offOf a) b)

/-- Store a byte string from address `a` on. -/
def setBytes (M : PageMap) (a : Nat) : List U8 → PageMap
  | [] => M
  | b :: bs => setBytes (M.setByte a b) (a + 1) bs

theorem bytes_succ (M : PageMap) (a len : Nat) :
    M.bytes a (len + 1) = M.byte a :: M.bytes (a + 1) len := by
  simp only [bytes, List.range_succ_eq_map, List.map_cons, List.map_map, Nat.add_zero,
    List.cons.injEq, true_and]
  apply List.map_congr_left
  intro i _
  show M.byte (a + (i + 1)) = M.byte (a + 1 + i)
  congr 1
  omega

@[simp] theorem length_bytes (M : PageMap) (a len : Nat) : (M.bytes a len).length = len := by
  simp [bytes]

/-- Page and offset determine an address of the address space. -/
theorem page_off_inj {a b : Nat} (ha : a < addrSpace) (hb : b < addrSpace) :
    pageOf a = pageOf b ∧ offOf a = offOf b ↔ a = b := by
  rw [addrSpace] at ha hb
  refine ⟨fun ⟨hp, ho⟩ => ?_, fun h => ⟨congrArg pageOf h, congrArg offOf h⟩⟩
  have hp := congrArg BitVec.toNat hp
  rw [pageOf, pageOf, BitVec.toNat_ofNat, BitVec.toNat_ofNat] at hp
  have ho : a % 4096 = b % 4096 := congrArg Fin.val ho
  omega

theorem byte_setByte (M : PageMap) {a b : Nat} (ha : a < addrSpace) (hb : b < addrSpace) (v : U8) :
    (M.setByte a v).byte b = if a = b then v else M.byte b := by
  have hinj := page_off_inj ha hb
  unfold byte setByte
  rw [Mem.getElem?_insert_pages]
  by_cases hp : pageOf a = pageOf b
  · rw [if_pos hp, ← hp]
    by_cases ho : offOf a = offOf b
    · rw [if_pos (hinj.mp ⟨hp, ho⟩), ← ho]
      exact Function.update_self ..
    · rw [if_neg fun h => ho (hinj.mpr h).2]
      show Function.update (M[pageOf a]?.getD zeroPage) (offOf a) v (offOf b) = _
      rw [Function.update_of_ne (Ne.symm ho)]
      cases M[pageOf a]? <;> rfl
  · rw [if_neg hp, if_neg fun h => hp (hinj.mpr h).1]

/-- A stored byte string is what is read in its range; elsewhere nothing changes. -/
theorem byte_setBytes : ∀ (bs : List U8) (M : PageMap) {a b : Nat}, a + bs.length ≤ addrSpace →
    b < addrSpace → (M.setBytes a bs).byte b
      = if a ≤ b ∧ b < a + bs.length then bs.getD (b - a) 0 else M.byte b := by
  intro bs
  induction bs with
  | nil =>
    intro M a b _ _
    rw [if_neg (by rw [List.length_nil]; omega)]
    rfl
  | cons v bs ih =>
    intro M a b ha hb
    rw [List.length_cons] at ha
    rw [setBytes, ih _ (by omega) hb, byte_setByte M (by omega) hb, List.length_cons]
    by_cases heq : a = b
    · subst heq
      rw [if_neg (by omega), if_pos rfl, if_pos (by omega), Nat.sub_self]
      rfl
    · by_cases hin : a + 1 ≤ b ∧ b < a + 1 + bs.length
      · rw [if_pos hin, if_pos (by omega), show b - a = b - (a + 1) + 1 by omega]
        rfl
      · rw [if_neg hin, if_neg heq, if_neg (by omega)]

/-- Storing allocates the pages of the bytes stored, and no others. -/
theorem isSome_setBytes (p : U32) : ∀ (bs : List U8) (M : PageMap) (a : Nat),
    (M.setBytes a bs)[p]?.isSome ↔
      M[p]?.isSome ∨ ∃ b, a ≤ b ∧ b < a + bs.length ∧ pageOf b = p := by
  intro bs
  induction bs with
  | nil =>
    intro M a
    refine ⟨Or.inl, fun h => h.resolve_right ?_⟩
    rintro ⟨b, hle, hlt, -⟩
    rw [List.length_nil] at hlt
    omega
  | cons v bs ih =>
    intro M a
    rw [setBytes, ih, setByte, Mem.getElem?_insert_pages, List.length_cons]
    constructor
    · rintro (h | ⟨b, hle, hlt, hp⟩)
      · split at h
        next hp => exact Or.inr ⟨a, Nat.le_refl a, by omega, hp⟩
        · exact Or.inl h
      · exact Or.inr ⟨b, by omega, by omega, hp⟩
    · rintro (h | ⟨b, hle, hlt, hp⟩)
      · left
        split
        · rfl
        · exact h
      · rcases Nat.eq_or_lt_of_le hle with rfl | hlt'
        · left
          rw [if_pos hp]
          rfl
        · exact Or.inr ⟨b, hlt', by omega, hp⟩

/-- The memory root as a function of the map. -/
def rootMessage (M : PageMap) : List U8 := M.toList.flatMap pageRecord

end PageMap

/-! ## The byte loops -/

theorem pageOf_toNat_lt {a : Nat} (ha : a < addrSpace) : (pageOf a).toNat < 2 ^ 20 := by
  rw [addrSpace] at ha
  rw [pageOf, BitVec.toNat_ofNat]
  omega

namespace Mem

/-- `m'` holds what `m` holds; at most cache lines differ. -/
structure Unchanged (m m' : Mem) : Prop where
  valid : m'.Valid
  pages : m'.pages = m.pages
  log : m'.syscallLog = m.syscallLog

theorem Unchanged.refl {m : Mem} (hv : m.Valid) : Unchanged m m := ⟨hv, rfl, rfl⟩

theorem Unchanged.trans {a b c : Mem} (h₁ : Unchanged a b) (h₂ : Unchanged b c) :
    Unchanged a c :=
  ⟨h₂.valid, h₂.pages.trans h₁.pages, h₂.log.trans h₁.log⟩

theorem slotOf_unchanged {m : Mem} (hv : m.Valid) (page : U32) :
    Unchanged m (m.slotOf page).2 := by
  rcases slotOf_mem m page with he | ⟨s, hd, he⟩
  · rw [he]; exact Unchanged.refl hv
  · rw [he]; exact ⟨fill_valid hv hd, pages_fill m page s, rfl⟩

theorem slotOf_page (m : Mem) (page : U32) (s : Nat) : (m.slotOf page).2.page s = m.page s := by
  rcases slotOf_mem m page with he | ⟨_, _, he⟩
  · rw [he]
  · rw [he]; rfl

theorem readByte_spec {m : Mem} (hv : m.Valid) (a : Nat) :
    (m.readByte a).1 = m.pages.byte a ∧ Unchanged m (m.readByte a).2 := by
  have heq := slotOf_eq hv (pageOf a)
  have hun := slotOf_unchanged hv (pageOf a)
  have hpage := slotOf_page m (pageOf a)
  unfold readByte PageMap.byte
  rw [getElem?_pages, ← heq]
  generalize m.slotOf (pageOf a) = r at hun hpage
  obtain ⟨o, m'⟩ := r
  cases o with
  | none => exact ⟨rfl, hun⟩
  | some s => exact ⟨congrFun (hpage s) (offOf a), hun⟩

/-- Or-ing a byte in above the bits already there adds it at its weight. -/
theorem or_shift_byte {val : U64} {b : U8} {i : Nat} (hi : i < 8) (hval : val.toNat < 256 ^ i) :
    (val ||| (b.setWidth 64 <<< (8 * i))).toNat = val.toNat + 256 ^ i * b.toNat := by
  have hb : b.toNat < 256 := b.isLt
  have hpow : (256 : Nat) ^ i = 2 ^ (8 * i) := by rw [Nat.pow_mul]
  have hle : 2 ^ (8 * i) * 256 ≤ 2 ^ 64 := by
    rw [show (256 : Nat) = 2 ^ 8 from rfl, ← Nat.pow_add]
    exact Nat.pow_le_pow_right (by decide) (by omega)
  have hmul : b.toNat * 2 ^ (8 * i) < 2 ^ 64 := by
    calc b.toNat * 2 ^ (8 * i) < 256 * 2 ^ (8 * i) :=
          Nat.mul_lt_mul_of_pos_right hb (Nat.two_pow_pos _)
      _ ≤ 2 ^ 64 := by rw [Nat.mul_comm]; exact hle
  rw [hpow] at hval ⊢
  rw [BitVec.toNat_or, BitVec.toNat_shiftLeft, BitVec.toNat_setWidth,
    Nat.mod_eq_of_lt (by omega : b.toNat < 2 ^ 64), Nat.shiftLeft_eq, Nat.mod_eq_of_lt hmul,
    Nat.or_comm, ← Nat.shiftLeft_eq, ← Nat.shiftLeft_add_eq_or_of_lt hval, Nat.shiftLeft_eq]
  ring

/-- The loop's partial sums: `val` holds the low `i` bytes already read. -/
theorem readLoop_spec (addr : Nat) : ∀ (left : Nat) {m : Mem} (i : Nat) (val : U64), m.Valid →
    i + left ≤ 8 → val.toNat < 256 ^ i →
    (m.readLoop addr i left val).1.toNat
        = val.toNat + 256 ^ i * leNat (m.pages.bytes (addr + i) left) ∧
      Unchanged m (m.readLoop addr i left val).2 := by
  intro left
  induction left with
  | zero =>
    intro m i val hv _ _
    exact ⟨by simp [readLoop, PageMap.bytes, leNat], Unchanged.refl hv⟩
  | succ left ih =>
    intro m i val hv hi hval
    obtain ⟨hb, hun⟩ := readByte_spec hv (addr + i)
    rw [readLoop]
    generalize m.readByte (addr + i) = r at hb hun
    obtain ⟨b, m'⟩ := r
    have hor := or_shift_byte (b := b) (by omega : i < 8) hval
    -- the next partial sum is still below the next byte's place
    have hlt : (val ||| (b.setWidth 64 <<< (8 * i))).toNat < 256 ^ (i + 1) := by
      have hb : b.toNat < 256 := b.isLt
      have hw : 256 ^ i * b.toNat ≤ 256 ^ i * 255 := Nat.mul_le_mul_left _ (by omega)
      rw [hor, Nat.pow_succ]
      omega
    obtain ⟨hrec, hun'⟩ := ih (i + 1) _ hun.valid (by omega) hlt
    refine ⟨?_, hun.trans hun'⟩
    have hb' : b = m.pages.byte (addr + i) := hb
    rw [PageMap.bytes_succ, leNat, hrec, hor, hun.pages, hb', Nat.pow_succ]
    ring_nf

theorem inRange_iff (addr : U64) (len : Nat) :
    inRange addr len = true ↔ addr.toNat + len ≤ addrSpace := by
  unfold inRange
  rw [addrSpace]
  split
  · simp; omega
  · split
    · simp; omega
    · simp; omega

/-- The lengths `read` serves. -/
def ReadLen (len : Nat) : Prop := len = 1 ∨ len = 2 ∨ len = 4 ∨ len = 8

instance (len : Nat) : Decidable (ReadLen len) := by unfold ReadLen; infer_instance

theorem read_unchanged {m : Mem} (hv : m.Valid) (addr : U64) (len : Nat) :
    Unchanged m (m.read addr len).2 := by
  unfold read
  split
  · exact Unchanged.refl hv
  · split
    · exact (readLoop_spec addr.toNat len 0 0 hv (by omega) (by simp)).2
    · exact Unchanged.refl hv

/-- A read of a served length is the little-endian value of the bytes there,
or fails because they do not all lie in the address space. -/
theorem read_eq {m : Mem} (hv : m.Valid) (addr : U64) {len : Nat} (hlen : ReadLen len) :
    (m.read addr len).1
      = if addr.toNat + len ≤ addrSpace then
          .ok (BitVec.ofNat 64 (leNat (m.pages.bytes addr.toNat len)))
        else .error .outOfRange := by
  have hle : len ≤ 8 := by rcases hlen with h | h | h | h <;> omega
  unfold read
  rw [if_neg (by rcases hlen with h | h | h | h <;> omega)]
  by_cases hr : addr.toNat + len ≤ addrSpace
  · rw [if_pos ((inRange_iff addr len).mpr hr), if_pos hr]
    have hspec := (readLoop_spec addr.toNat len 0 0 hv (by omega) (by simp)).1
    rw [Nat.pow_zero, Nat.one_mul, Nat.add_zero] at hspec
    refine congrArg Except.ok (BitVec.eq_of_toNat_eq ?_)
    rw [hspec, BitVec.toNat_ofNat]
    have hlt := leNat_lt (m.pages.bytes addr.toNat len)
    rw [PageMap.length_bytes] at hlt
    -- at most eight bytes, so nothing is cut off
    have hpow : 256 ^ len ≤ 2 ^ 64 := by
      rw [show (256 : Nat) = 2 ^ 8 from rfl, ← Nat.pow_mul]
      exact Nat.pow_le_pow_right (by decide) (by omega)
    rw [Nat.mod_eq_of_lt (by omega)]
    simp
  · rw [if_neg (fun h => hr ((inRange_iff addr len).mp h)), if_neg hr]

theorem writeByte_spec {m : Mem} (hv : m.Valid) {a : Nat} (ha : a < addrSpace) (b : U8) :
    (m.writeByte a b).Valid ∧ (m.writeByte a b).pages = m.pages.setByte a b ∧
      (m.writeByte a b).syscallLog = m.syscallLog := by
  obtain ⟨hval, hdir, hpages, hlog⟩ := slotMutOrAlloc_spec hv (pageOf_toNat_lt ha)
  unfold writeByte
  generalize m.slotMutOrAlloc (pageOf a) = r at hval hdir hpages hlog
  obtain ⟨slot, m'⟩ := r
  show (m'.setSlot slot (Function.update (m'.page slot) (offOf a) b)).Valid ∧
    (m'.setSlot slot (Function.update (m'.page slot) (offOf a) b)).pages = m.pages.setByte a b ∧
    m'.syscallLog = m.syscallLog
  refine ⟨setSlot_valid hval, ?_, hlog⟩
  have hslot : m'.page slot = m.pages[pageOf a]?.getD zeroPage := by
    have hm' : m'.pages[pageOf a]? = some (m'.page slot) := by
      rw [getElem?_pages]
      simp only at hdir
      rw [hdir]
      rfl
    rw [hpages] at hm'
    split at hm'
    next hnone =>
      rw [Std.ExtTreeMap.getElem?_insert_self] at hm'
      injection hm' with hm'
      rw [← hm', hnone]
      rfl
    next => rw [hm']; rfl
  rw [pages_setSlot hval.toCoherent hdir, hslot, PageMap.setByte, hpages]
  -- inserting the zero page first makes no difference: the same key follows
  apply Std.ExtTreeMap.ext_getElem?
  intro p
  rw [getElem?_insert_pages, getElem?_insert_pages]
  split
  · rfl
  next hne =>
    split
    · rw [getElem?_insert_pages, if_neg hne]
    · rfl

theorem writeLoop_spec : ∀ (bs : List U8) {m : Mem} {a : Nat}, m.Valid →
    a + bs.length ≤ addrSpace →
    (m.writeLoop a bs).Valid ∧ (m.writeLoop a bs).pages = m.pages.setBytes a bs ∧
      (m.writeLoop a bs).syscallLog = m.syscallLog := by
  intro bs
  induction bs with
  | nil => intro m a hv _; exact ⟨hv, rfl, rfl⟩
  | cons b bs ih =>
    intro m a hv ha
    rw [List.length_cons] at ha
    obtain ⟨hval, hpages, hlog⟩ := writeByte_spec hv (by omega : a < addrSpace) b
    obtain ⟨hval', hpages', hlog'⟩ := ih hval (by omega : a + 1 + bs.length ≤ addrSpace)
    rw [writeLoop, PageMap.setBytes]
    exact ⟨hval', by rw [hpages', hpages], hlog'.trans hlog⟩

/-- A write stores its bytes, or fails because they do not all lie in the
address space and then changes nothing. -/
theorem write_spec {m : Mem} (hv : m.Valid) (addr : U64) (bs : List U8) :
    (addr.toNat + bs.length ≤ addrSpace ∧ (m.write addr bs).1 = .ok () ∧
      (m.write addr bs).2.Valid ∧ (m.write addr bs).2.pages = m.pages.setBytes addr.toNat bs ∧
      (m.write addr bs).2.syscallLog = m.syscallLog) ∨
    (¬addr.toNat + bs.length ≤ addrSpace ∧ m.write addr bs = (.error .outOfRange, m)) := by
  unfold write
  by_cases hr : addr.toNat + bs.length ≤ addrSpace
  · rw [if_pos ((inRange_iff _ _).mpr hr)]
    exact Or.inl ⟨hr, rfl, writeLoop_spec bs hv hr⟩
  · rw [if_neg (fun h => hr ((inRange_iff _ _).mp h))]
    exact Or.inr ⟨hr, rfl⟩

theorem write_valid {m : Mem} (hv : m.Valid) (addr : U64) (bs : List U8) :
    (m.write addr bs).2.Valid := by
  rcases write_spec hv addr bs with ⟨-, -, hval, -⟩ | ⟨-, hw⟩
  · exact hval
  · rw [hw]
    exact hv

theorem readRegion_eq {m : Mem} (hv : m.Valid) (addr : U64) (len : Nat) :
    m.readRegion addr len
      = if addr.toNat + len ≤ addrSpace then .ok (m.pages.bytes addr.toNat len)
        else .error .outOfRange := by
  unfold readRegion
  by_cases hr : addr.toNat + len ≤ addrSpace
  · rw [if_pos ((inRange_iff _ _).mpr hr), if_pos hr, PageMap.bytes]
    refine congrArg Except.ok (List.map_congr_left fun i _ => ?_)
    rw [slotOfRo_eq hv, PageMap.byte, getElem?_pages]
    cases m.pageDir[pageOf (addr.toNat + i)]? <;> rfl
  · rw [if_neg (fun h => hr ((inRange_iff _ _).mp h)), if_neg hr]

theorem length_readRegion {m : Mem} {addr : U64} {len : Nat} {bytes : List U8}
    (h : m.readRegion addr len = .ok bytes) : bytes.length = len := by
  unfold readRegion at h
  split at h
  · cases h
    rw [List.length_map, List.length_range]
  · cases h

/-! ## Page insertion, iteration and the root -/

/-- Clearing one line keeps everything else. -/
theorem clear_coherent {m : Mem} (hc : m.Coherent) (i : Fin 2048) :
    { m with lookaside := Function.update m.lookaside i (noPage, noSlot) }.Coherent := by
  refine ⟨hc.dir_lt, hc.dir_inj, hc.size_eq, fun j => ?_⟩
  by_cases hj : j = i
  · subst hj; exact Or.inl (by simp)
  · simp only [Function.update_of_ne hj]
    exact hc.look j

theorem insertPage_coherent {m : Mem} (hc : m.Coherent) (idx : U32) (page : Page) :
    (m.insertPage idx page).Coherent ∧
      (m.insertPage idx page).pages = m.pages.insert idx page := by
  unfold insertPage
  cases hd : m.pageDir[idx]? with
  | none => exact ⟨clear_coherent (alloc_coherent hc hd) _, pages_alloc hc⟩
  | some s => exact ⟨clear_coherent (setSlot_coherent hc) _, pages_setSlot hc hd⟩

/-- Validity is coherence plus a bound on the keys of the abstract map. -/
theorem valid_iff {m : Mem} :
    m.Valid ↔ m.Coherent ∧ ∀ p : U32, m.pages[p]? ≠ none → p.toNat < 2 ^ 20 := by
  constructor
  · intro hv
    refine ⟨hv.toCoherent, fun p hp => ?_⟩
    cases hd : m.pageDir[p]? with
    | none => exact absurd (by rw [getElem?_pages, hd]; rfl) hp
    | some s => exact hv.pages_lt p s hd
  · rintro ⟨hc, hlt⟩
    refine ⟨hc, fun p s h => hlt p ?_⟩
    rw [getElem?_pages, h]
    simp

theorem insertPage_valid {m : Mem} (hv : m.Valid) {idx : U32} (hidx : idx.toNat < 2 ^ 20)
    (page : Page) : (m.insertPage idx page).Valid := by
  obtain ⟨hc, hp⟩ := insertPage_coherent hv.toCoherent idx page
  refine valid_iff.mpr ⟨hc, fun p h => ?_⟩
  rw [hp, getElem?_insert_pages] at h
  split at h
  next he => rw [← he]; exact hidx
  next => exact (valid_iff.mp hv).2 p h

theorem pageIter_eq (m : Mem) : m.pageIter = m.pages.toList := by
  rw [pageIter, pages, Std.ExtTreeMap.toList_map]

theorem rootMessage_eq (m : Mem) : m.rootMessage = m.pages.rootMessage := by
  rw [PageMap.rootMessage, ← pageIter_eq, pageIter, List.flatMap_map]
  rfl

end Mem

/-! ## Any sequence of operations -/

/-- A call on the memory. Pages handed to `insert_page` lie in the address space. -/
inductive MemOp where
  | read (addr : U64) (len : Nat)
  | write (addr : U64) (bytes : List U8)
  | loadImage (base : U64) (bytes : List U8)
  | readRegion (addr : U64) (len : Nat)
  | insertPage (idx : { p : U32 // p.toNat < 2 ^ 20 }) (page : Page)

/-- What a call returns. -/
inductive MemOut where
  | word (r : Except MemError U64)
  | stored (r : Except MemError Unit)
  | region (r : Except MemError (List U8))
  | inserted

/-- The call came back with `OutOfRange`. -/
def MemOut.Failed : MemOut → Prop
  | .word r => r = .error .outOfRange
  | .stored r => r = .error .outOfRange
  | .region r => r = .error .outOfRange
  | .inserted => False

def Mem.exec (m : Mem) : MemOp → MemOut × Mem
  | .read addr len => let (r, m) := m.read addr len; (.word r, m)
  | .write addr bytes => let (r, m) := m.write addr bytes; (.stored r, m)
  | .loadImage base bytes => let (r, m) := m.loadImage base bytes; (.stored r, m)
  | .readRegion addr len => (.region (m.readRegion addr len), m)
  | .insertPage idx page => (.inserted, m.insertPage idx page)

/-- The same call on the sparse map: reads leave it alone and give the
little-endian value of the bytes, writes store, and an access that does not
fit in the address space fails without effect. -/
def PageMap.exec (M : PageMap) : MemOp → MemOut × PageMap
  | .read addr len =>
    (.word (if Mem.ReadLen len ∧ addr.toNat + len ≤ addrSpace then
        .ok (BitVec.ofNat 64 (leNat (M.bytes addr.toNat len)))
      else .error .outOfRange), M)
  | .write addr bytes | .loadImage addr bytes =>
    if addr.toNat + bytes.length ≤ addrSpace then (.stored (.ok ()), M.setBytes addr.toNat bytes)
    else (.stored (.error .outOfRange), M)
  | .readRegion addr len =>
    (.region (if addr.toNat + len ≤ addrSpace then .ok (M.bytes addr.toNat len)
      else .error .outOfRange), M)
  | .insertPage idx page => (.inserted, M.insert idx page)

def Mem.execAll (m : Mem) : List MemOp → List MemOut × Mem
  | [] => ([], m)
  | op :: ops =>
    let (o, m) := m.exec op
    let (os, m) := m.execAll ops
    (o :: os, m)

def PageMap.execAll (M : PageMap) : List MemOp → List MemOut × PageMap
  | [] => ([], M)
  | op :: ops =>
    let (o, M) := M.exec op
    let (os, M) := PageMap.execAll M ops
    (o :: os, M)

namespace Mem

theorem exec_write_spec {m : Mem} (hv : m.Valid) (addr : U64) (bytes : List U8) :
    MemOut.stored (m.write addr bytes).1 = (m.pages.exec (.write addr bytes)).1 ∧
      (m.write addr bytes).2.pages = (m.pages.exec (.write addr bytes)).2 ∧
      (m.write addr bytes).2.Valid := by
  rcases write_spec hv addr bytes with ⟨hr, hok, hval, hpages, _⟩ | ⟨hr, he⟩
  · simp only [PageMap.exec, if_pos hr]
    exact ⟨congrArg MemOut.stored hok, hpages, hval⟩
  · simp only [PageMap.exec, if_neg hr, he]
    exact ⟨trivial, trivial, hv⟩

/-- One call: same answer, same map, still valid. -/
theorem exec_spec {m : Mem} (hv : m.Valid) (op : MemOp) :
    (m.exec op).1 = (m.pages.exec op).1 ∧ (m.exec op).2.pages = (m.pages.exec op).2 ∧
      (m.exec op).2.Valid := by
  cases op with
  | read addr len =>
    have hun := read_unchanged hv addr len
    refine ⟨?_, hun.pages, hun.valid⟩
    show MemOut.word (m.read addr len).1 = MemOut.word _
    by_cases hlen : ReadLen len
    · simp only [read_eq hv addr hlen, hlen, true_and]
    · have hbad : (m.read addr len).1 = .error .outOfRange := by
        unfold read
        rw [if_pos]
        simp only [ReadLen, not_or] at hlen
        exact hlen
      rw [hbad, if_neg fun h => hlen h.1]
  | write addr bytes => exact exec_write_spec hv addr bytes
  | loadImage addr bytes => exact exec_write_spec hv addr bytes
  | readRegion addr len =>
    exact ⟨congrArg MemOut.region (readRegion_eq hv addr len), rfl, hv⟩
  | insertPage idx page =>
    exact ⟨rfl, (insertPage_coherent hv.toCoherent idx page).2, insertPage_valid hv idx.2 page⟩

theorem execAll_spec : ∀ (ops : List MemOp) {m : Mem}, m.Valid →
    (m.execAll ops).1 = (m.pages.execAll ops).1 ∧
      (m.execAll ops).2.pages = (m.pages.execAll ops).2 ∧ (m.execAll ops).2.Valid := by
  intro ops
  induction ops with
  | nil => intro m hv; exact ⟨rfl, rfl, hv⟩
  | cons op ops ih =>
    intro m hv
    obtain ⟨hout, hpages, hval⟩ := exec_spec hv op
    obtain ⟨houts, hpages', hval'⟩ := ih hval
    rw [hpages] at houts hpages'
    simp only [execAll, PageMap.execAll]
    exact ⟨by rw [hout, houts], hpages', hval'⟩

/-- A call that fails returns the very memory it was given, cache included. -/
theorem exec_failed {m : Mem} (hv : m.Valid) (op : MemOp) (h : (m.exec op).1.Failed) :
    (m.exec op).2 = m := by
  -- `write` checks the whole range before it stores the first byte
  have hwrite : ∀ addr bytes, (m.write addr bytes).1 = .error .outOfRange →
      (m.write addr bytes).2 = m := by
    intro addr bytes he
    rcases write_spec hv addr bytes with ⟨_, hok, _⟩ | ⟨_, hm⟩
    · rw [hok] at he; exact absurd he (by simp)
    · rw [hm]
  cases op with
  | read addr len =>
    have he : (m.read addr len).1 = .error .outOfRange := h
    show (m.read addr len).2 = m
    unfold read at he ⊢
    split
    · rfl
    · split
      next hr => rw [if_neg (by assumption), if_pos hr] at he; exact absurd he (by simp)
      next => rfl
  | write addr bytes => exact hwrite addr bytes h
  | loadImage addr bytes => exact hwrite addr bytes h
  | readRegion addr len => rfl
  | insertPage idx page => exact absurd h id

end Mem

/-- The lookaside serves only what the directory holds. -/
def Mem.LookasideCoherent (m : Mem) : Prop :=
  ∀ page : U32, (m.slotOf page).1 = m.pageDir[page]? ∧ m.slotOfRo page = m.pageDir[page]? ∧
    ∀ s, m.pageDir[page]? = some s → (m.slotMutOrAlloc page).1 = s

theorem Mem.Valid.lookasideCoherent {m : Mem} (hv : m.Valid) : m.LookasideCoherent := by
  refine fun page => ⟨slotOf_eq hv page, slotOfRo_eq hv page, fun s hs => ?_⟩
  rcases slotMutOrAlloc_cases hv page with ⟨t, ht, he | he⟩ | ⟨hn, _⟩
  · rw [he]; exact Option.some.inj (ht.symm.trans hs)
  · rw [he]; exact Option.some.inj (ht.symm.trans hs)
  · rw [hn] at hs; exact absurd hs (by simp)

/-- **Memory refinement.** Run any sequence of calls from `Mem::new` and from
the empty sparse map side by side: every call gives the same answer on both
levels, the memory stands for the map, a failing call changes nothing, the
lookaside agrees with the directory, and page iteration and root are functions
of the map — so neither allocation order nor cache contents can show. -/
theorem mem_refines_page_map (ops : List MemOp) :
    (Mem.new.execAll ops).1 = (PageMap.execAll ∅ ops).1 ∧
    (Mem.new.execAll ops).2.pages = (PageMap.execAll ∅ ops).2 ∧
    (∀ op, ((Mem.new.execAll ops).2.exec op).1.Failed →
      ((Mem.new.execAll ops).2.exec op).2 = (Mem.new.execAll ops).2) ∧
    (Mem.new.execAll ops).2.LookasideCoherent ∧
    (Mem.new.execAll ops).2.pageIter = (PageMap.execAll ∅ ops).2.toList ∧
    ∀ blake3 : List U8 → Hash, (Mem.new.execAll ops).2.merkleRoot blake3
      = blake3 (PageMap.execAll ∅ ops).2.rootMessage := by
  have hnew : Mem.new.pages = ∅ := by
    apply Std.ExtTreeMap.ext_getElem?
    intro p
    rw [Mem.getElem?_pages]
    simp [Mem.new]
  obtain ⟨houts, hpages, hval⟩ := Mem.execAll_spec ops Mem.new_valid
  rw [hnew] at houts hpages
  refine ⟨houts, hpages, fun op h => Mem.exec_failed hval op h, hval.lookasideCoherent, ?_, ?_⟩
  · rw [Mem.pageIter_eq, hpages]
  · intro blake3
    rw [Mem.merkleRoot, Mem.rootMessage_eq, hpages]

end Provework.Rvcore
