import Mathlib.Data.List.Basic
import Mathlib.Data.List.GetD
import Mathlib.Data.List.TakeWhile
import Provework.Lib.Bytes

/-!
# Strings as bytes, and hex

Rust strings are UTF-8 byte strings: their lengths count bytes, and slicing one
off a character boundary panics. A string here is a Lean `String`, seen through
`utf8` wherever the bytes matter. `hex` writes bytes in lowercase hex; the two
readers of hex are the byte-wise `hexDigit` and the slice-wise `radixLoop`,
which takes `+f` for a byte and panics on a multi-byte character.
`radixLoop_hexCodes` is the round trip.
-/

namespace Provework.Lib

/-- `s.as_bytes()`. -/
def utf8 (s : String) : List U8 := s.toByteArray.data.toList.map UInt8.toBitVec

theorem utf8_injective : Function.Injective utf8 := by
  intro s t h
  have hbytes := List.map_injective_iff.mpr (fun _ _ => UInt8.eq_of_toBitVec_eq) h
  exact String.toByteArray_inj.mp (ByteArray.ext (Array.toList_inj.mp hbytes))

theorem utf8_ofList (cs : List Char) :
    utf8 (String.ofList cs) = cs.flatMap fun c => (String.utf8EncodeChar c).map UInt8.toBitVec := by
  simp [utf8, List.utf8Encode, List.map_flatMap]

theorem utf8_toList (s : String) :
    utf8 s = s.toList.flatMap fun c => (String.utf8EncodeChar c).map UInt8.toBitVec := by
  rw [← utf8_ofList, String.ofList_toList]

/-- An ASCII character is one byte. -/
theorem utf8EncodeChar_ascii {c : Char} (h : c.toNat < 128) :
    (String.utf8EncodeChar c).map UInt8.toBitVec = [BitVec.ofNat 8 c.toNat] := by
  have hval : c.val.toNat ≤ 127 := Nat.le_of_lt_succ h
  rw [String.utf8EncodeChar, if_pos hval]
  rfl

/-- Every byte of another character has its top bit set. -/
theorem utf8EncodeChar_multibyte {c : Char} (h : 128 ≤ c.toNat) :
    String.utf8EncodeChar c ≠ [] ∧
      ∀ b ∈ (String.utf8EncodeChar c).map UInt8.toBitVec, 128 ≤ b.toNat := by
  have hval : ¬c.val.toNat ≤ 127 := Nat.not_le.mpr h
  rw [String.utf8EncodeChar, if_neg hval]
  -- two, three or four bytes, each with its marker added
  split
  · simp
    omega
  · split
    · simp
      omega
    · simp
      omega

/-- `str::is_char_boundary`: not in front of a continuation byte. -/
def charBoundary (bytes : List U8) (i : Nat) : Bool :=
  i = 0 ∨ i = bytes.length ∨ (i < bytes.length ∧ bytes.getD i 0 &&& 0xc0 ≠ 0x80)

/-- Whether the slice `&s[..n]` is one; if not, taking it panics. -/
def sliceable (s : String) (n : Nat) : Bool := charBoundary (utf8 s) n

/-! ## Writing hex -/

/-- `format!("{b:02x}")`. -/
def hexByte (b : U8) : List Char := [Nat.digitChar (b.toNat / 16), Nat.digitChar (b.toNat % 16)]

/-- `bytes.iter().map(|b| format!("{b:02x}")).collect()`. -/
def hex (bytes : List U8) : String := String.ofList (bytes.flatMap hexByte)

/-- The ASCII code of a hex digit. -/
def digitCode (d : Nat) : U8 :=
  if d < 10 then BitVec.ofNat 8 (0x30 + d) else BitVec.ofNat 8 (0x57 + d)

/-- The codes of a hex string: two per byte, the high digit first. -/
def hexCodes (bs : List U8) : List U8 :=
  bs.flatMap fun b => [digitCode (b.toNat / 16), digitCode (b.toNat % 16)]

theorem utf8EncodeChar_digitChar : ∀ d < 16,
    (String.utf8EncodeChar (Nat.digitChar d)).map UInt8.toBitVec = [digitCode d] := by
  decide

theorem utf8_hex (bytes : List U8) : utf8 (hex bytes) = hexCodes bytes := by
  rw [hex, utf8_ofList, List.flatMap_assoc, hexCodes]
  refine congrArg (fun f => List.flatMap f bytes) (funext fun b => ?_)
  have hb := b.isLt
  simp only [hexByte, List.flatMap_cons, List.flatMap_nil,
    utf8EncodeChar_digitChar _ (show b.toNat / 16 < 16 by omega),
    utf8EncodeChar_digitChar _ (show b.toNat % 16 < 16 by omega)]
  rfl

theorem length_hexCodes (bs : List U8) : (hexCodes bs).length = bs.length * 2 := by
  simp [hexCodes, List.length_flatMap]

/-- Bytes in upper-case hex. -/
def hexUpper (bytes : List U8) : String :=
  String.ofList (bytes.flatMap fun b => (hexByte b).map Char.toUpper)

/-- The ASCII code of an upper-case hex digit. -/
def upperCode (d : Nat) : U8 :=
  if d < 10 then BitVec.ofNat 8 (0x30 + d) else BitVec.ofNat 8 (0x37 + d)

theorem utf8EncodeChar_upper : ∀ d < 16,
    (String.utf8EncodeChar (Nat.digitChar d).toUpper).map UInt8.toBitVec = [upperCode d] := by
  decide

theorem utf8_hexUpper (bytes : List U8) : utf8 (hexUpper bytes) =
    bytes.flatMap fun b => [upperCode (b.toNat / 16), upperCode (b.toNat % 16)] := by
  rw [hexUpper, utf8_ofList, List.flatMap_assoc]
  refine congrArg (fun f => List.flatMap f bytes) (funext fun b => ?_)
  have hb := b.isLt
  simp only [hexByte, List.map_cons, List.map_nil, List.flatMap_cons, List.flatMap_nil,
    utf8EncodeChar_upper _ (show b.toNat / 16 < 16 by omega),
    utf8EncodeChar_upper _ (show b.toNat % 16 < 16 by omega)]
  rfl

/-! ## Reading hex -/

/-- `char::to_digit(16)` of an ASCII byte. -/
def hexDigit (c : U8) : Option Nat :=
  if 0x30#8 ≤ c ∧ c ≤ 0x39#8 then some (c.toNat - 0x30)
  else if 0x61#8 ≤ c ∧ c ≤ 0x66#8 then some (c.toNat - 0x61 + 10)
  else if 0x41#8 ≤ c ∧ c ≤ 0x46#8 then some (c.toNat - 0x41 + 10)
  else none

/-- `u8::from_str_radix(s, 16)` for an `s` of two bytes: a leading `+` is a
sign, not a digit. -/
def fromStrRadix (a b : U8) : Option U8 :=
  if a = 0x2b then (hexDigit b).map (BitVec.ofNat 8)
  else
    match hexDigit a, hexDigit b with
    | some hi, some lo => some (BitVec.ofNat 8 (hi * 16 + lo))
    | _, _ => none

/-- `u8::from_str_radix(&s[i * 2..i * 2 + 2], 16)` for `left` bytes from index
`i` on, `err i` being the error there. `none` is the panic of a slice that cuts
a character. -/
def radixLoop {ε : Type} (err : Nat → ε) (bytes : List U8) :
    Nat → Nat → Option (Except ε (List U8))
  | 0, _ => some (.ok [])
  | left + 1, i =>
    if charBoundary bytes (i * 2) ∧ charBoundary bytes (i * 2 + 2) then
      match fromStrRadix (bytes.getD (i * 2) 0) (bytes.getD (i * 2 + 1) 0) with
      | none => some (.error (err i))
      | some b =>
        match radixLoop err bytes left (i + 1) with
        | some (.ok bs) => some (.ok (b :: bs))
        | r => r
    else none

theorem hexDigit_digitCode : ∀ d < 16, hexDigit (digitCode d) = some d := by decide

theorem hexDigit_upperCode : ∀ d < 16, hexDigit (upperCode d) = some d := by decide

theorem digitCode_ascii : ∀ d < 16, digitCode d &&& 0xc0 ≠ 0x80 ∧ digitCode d ≠ 0x2b := by decide

theorem fromStrRadix_byte (b : U8) :
    fromStrRadix (digitCode (b.toNat / 16)) (digitCode (b.toNat % 16)) = some b := by
  have hb := b.isLt
  have hhi : b.toNat / 16 < 16 := by omega
  have hlo : b.toNat % 16 < 16 := by omega
  rw [fromStrRadix, if_neg (digitCode_ascii _ hhi).2, hexDigit_digitCode _ hhi,
    hexDigit_digitCode _ hlo]
  simp only [Nat.div_add_mod' b.toNat 16, BitVec.ofNat_toNat, BitVec.setWidth_eq]

theorem hexCodes_ascii {bs : List U8} {c : U8} (h : c ∈ hexCodes bs) : c &&& 0xc0 ≠ 0x80 := by
  obtain ⟨b, -, hc⟩ := List.mem_flatMap.mp h
  have hb := b.isLt
  rcases List.mem_cons.mp hc with rfl | hc
  · exact (digitCode_ascii _ (by omega)).1
  · obtain rfl := List.mem_singleton.mp hc
    exact (digitCode_ascii _ (by omega)).1

theorem getD_mem {α : Type} {l : List α} {i : Nat} (h : i < l.length) (d : α) : l.getD i d ∈ l := by
  rw [List.getD_eq_getElem _ _ h]
  exact List.getElem_mem h

/-- ASCII has a boundary everywhere. -/
theorem charBoundary_ascii {bytes : List U8} (hascii : ∀ c ∈ bytes, c &&& 0xc0 ≠ 0x80) {i : Nat}
    (h : i ≤ bytes.length) : charBoundary bytes i = true := by
  rw [charBoundary, decide_eq_true_eq]
  rcases Nat.lt_or_eq_of_le h with hlt | rfl
  · exact Or.inr (Or.inr ⟨hlt, hascii _ (getD_mem hlt 0)⟩)
  · exact Or.inr (Or.inl rfl)

theorem charBoundary_hexCodes {bs : List U8} {i : Nat} (h : i ≤ (hexCodes bs).length) :
    charBoundary (hexCodes bs) i = true :=
  charBoundary_ascii (fun _ => hexCodes_ascii) h

theorem hexDigit_ascii : ∀ c : U8, (hexDigit c).isSome = true → c &&& 0xc0 ≠ 0x80 := by decide

/-- The loop reads back the bytes from where it stands. -/
theorem radixLoop_hexCodes {ε : Type} (err : Nat → ε) : ∀ (post pre : List U8),
    radixLoop err (hexCodes (pre ++ post)) post.length pre.length = some (.ok post)
  | [], _ => rfl
  | b :: post, pre => by
    -- `pre` is decoded already; the pair at twice its length is that of `b`
    have hlen : pre.length * 2 + 2 ≤ (hexCodes (pre ++ b :: post)).length := by
      rw [length_hexCodes, List.length_append, List.length_cons]
      omega
    have hsplit : hexCodes (pre ++ b :: post)
        = hexCodes pre ++ ([digitCode (b.toNat / 16), digitCode (b.toNat % 16)]
            ++ hexCodes post) := by
      simp [hexCodes]
    have hhi : (hexCodes (pre ++ b :: post)).getD (pre.length * 2) 0
        = digitCode (b.toNat / 16) := by
      rw [hsplit, ← length_hexCodes, List.getD_append_right _ _ _ _ (Nat.le_refl _), Nat.sub_self]
      rfl
    have hlo : (hexCodes (pre ++ b :: post)).getD (pre.length * 2 + 1) 0
        = digitCode (b.toNat % 16) := by
      rw [hsplit, ← length_hexCodes, List.getD_append_right _ _ _ _ (Nat.le_add_right _ 1),
        Nat.add_sub_cancel_left]
      rfl
    have ih := radixLoop_hexCodes err post (pre ++ [b])
    rw [List.append_assoc, List.singleton_append, List.length_append, List.length_singleton] at ih
    rw [List.length_cons, radixLoop,
      if_pos ⟨charBoundary_hexCodes (by omega), charBoundary_hexCodes hlen⟩, hhi, hlo,
      fromStrRadix_byte]
    simp only [ih]

/-- A hash in hex, read back. -/
theorem radixLoop_hash {ε : Type} (err : Nat → ε) (h : Hash) :
    (utf8 (hex (List.ofFn h))).length = 64 ∧
      radixLoop err (utf8 (hex (List.ofFn h))) 32 0 = some (.ok (List.ofFn h)) ∧
      (fun i : Fin 32 => (List.ofFn h).getD i 0) = h := by
  have hread := radixLoop_hexCodes err (List.ofFn h) []
  rw [List.nil_append, List.length_ofFn, List.length_nil] at hread
  rw [utf8_hex, length_hexCodes, List.length_ofFn]
  refine ⟨rfl, hread, funext fun i => ?_⟩
  rw [List.getD_eq_getElem _ _ (by rw [List.length_ofFn]; exact i.isLt), List.getElem_ofFn]

theorem fromStrRadix_eq_some_iff {a b c : U8} (ha : a ≠ 0x2b) :
    fromStrRadix a b = some c ↔
      ∃ hi lo, hexDigit a = some hi ∧ hexDigit b = some lo ∧ c = BitVec.ofNat 8 (hi * 16 + lo) := by
  rw [fromStrRadix, if_neg ha]
  cases hexDigit a with
  | none => simp
  | some hi =>
    cases hexDigit b with
    | none => simp
    | some lo => simp [eq_comm]

/-- The byte that pair `i` reads as. -/
def radixPair (bytes : List U8) (i : Nat) : Option U8 :=
  fromStrRadix (bytes.getD (i * 2) 0) (bytes.getD (i * 2 + 1) 0)

/-- One turn of the loop: it panics at once, stops at a pair that does not read, or
goes on. -/
theorem radixLoop_succ {ε : Type} (err : Nat → ε) (bytes : List U8) (left i : Nat) :
    (radixLoop err bytes (left + 1) i = none ∧
      ¬(charBoundary bytes (i * 2) ∧ charBoundary bytes (i * 2 + 2))) ∨
    ((charBoundary bytes (i * 2) ∧ charBoundary bytes (i * 2 + 2)) ∧
      ((radixPair bytes i = none ∧ radixLoop err bytes (left + 1) i = some (.error (err i))) ∨
        ∃ b, radixPair bytes i = some b ∧ radixLoop err bytes (left + 1) i =
          (radixLoop err bytes left (i + 1)).map (Except.map (b :: ·)))) := by
  rw [radixLoop]
  by_cases hcut : charBoundary bytes (i * 2) ∧ charBoundary bytes (i * 2 + 2)
  · rw [if_pos hcut, radixPair]
    refine .inr ⟨hcut, ?_⟩
    cases fromStrRadix (bytes.getD (i * 2) 0) (bytes.getD (i * 2 + 1) 0) with
    | none => exact .inl ⟨rfl, rfl⟩
    | some b =>
      refine .inr ⟨b, rfl, ?_⟩
      rcases radixLoop err bytes left (i + 1) with _ | e | tail <;> rfl
  · rw [if_neg hcut]
    exact .inl ⟨rfl, hcut⟩

/-- The loop panics exactly if the slice behind some pairs that read ends inside a
character. -/
theorem radixLoop_eq_none_iff {ε : Type} (err : Nat → ε) (bytes : List U8) : ∀ left i : Nat,
    charBoundary bytes (i * 2) = true →
    (radixLoop err bytes left i = none ↔
      ∃ k < left, (∀ j < k, (radixPair bytes (i + j)).isSome = true) ∧
        charBoundary bytes ((i + k) * 2 + 2) = false)
  | 0, i, _ => by
    simp [radixLoop]
  | left + 1, i, hstart => by
    -- the first pair, and the pairs from `i + 1` on
    simp only [Nat.exists_lt_succ_left, Nat.forall_lt_succ_left, Nat.add_zero,
      ← Nat.add_assoc, Nat.add_right_comm i _ 1]
    rcases radixLoop_succ err bytes left i with ⟨hnone, hcut⟩ | ⟨⟨-, hend⟩, hturn⟩
    · have hcut : charBoundary bytes (i * 2 + 2) = false := by simpa [hstart] using hcut
      simp [hnone, hcut]
    · have ih := radixLoop_eq_none_iff err bytes left (i + 1) (by rwa [Nat.succ_mul])
      rcases hturn with ⟨hpair, herror⟩ | ⟨b, hpair, hgoes⟩
      · simp [hpair, herror, hend]
      · simp [hpair, hgoes, hend, ih]

/-- A loop that does not panic succeeds exactly if every pair reads. -/
theorem radixLoop_isOk_iff {ε : Type} (err : Nat → ε) (bytes : List U8) : ∀ left i : Nat,
    radixLoop err bytes left i ≠ none →
    ((∃ bs, radixLoop err bytes left i = some (.ok bs)) ↔
      ∀ j < left, (radixPair bytes (i + j)).isSome = true)
  | 0, i, _ => by
    simp [radixLoop]
  | left + 1, i, h => by
    simp only [Nat.forall_lt_succ_left, Nat.add_zero, ← Nat.add_assoc, Nat.add_right_comm i _ 1]
    rcases radixLoop_succ err bytes left i with ⟨hnone, -⟩
      | ⟨-, ⟨hpair, herror⟩ | ⟨b, hpair, hgoes⟩⟩
    · exact absurd hnone h
    · simp [hpair, herror]
    · rw [hgoes, ne_eq, Option.map_eq_none_iff] at h
      rw [← radixLoop_isOk_iff err bytes left (i + 1) h, hpair, hgoes]
      rcases radixLoop err bytes left (i + 1) with _ | e | tail <;> simp [Except.map]

/-! ## Strings of hex digits -/

/-- The ASCII hex digits. -/
def hexChar (c : Char) : Bool := "0123456789abcdefABCDEF".toList.contains c

theorem hexChar_ascii {c : Char} (h : hexChar c = true) : c.toNat < 128 := by
  have hall : "0123456789abcdefABCDEF".toList.all (·.toNat < 128) = true := by decide +kernel
  exact of_decide_eq_true (List.all_eq_true.mp hall c (List.contains_iff_mem.mp h))

theorem hexDigit_large : ∀ b : U8, 128 ≤ b.toNat → hexDigit b = none := by decide

theorem hexDigit_char :
    ∀ n < 128, (hexDigit (BitVec.ofNat 8 n)).isSome = hexChar (Char.ofNat n) := by
  decide +kernel

/-- What a digit is worth is written in lower case. -/
theorem digitChar_hexDigit : ∀ n < 128, ∀ d ∈ hexDigit (BitVec.ofNat 8 n),
    d < 16 ∧ Nat.digitChar d = (Char.ofNat n).toLower := by
  decide

/-- The bytes of a string of hex digits are the codes of its characters. -/
theorem utf8_hexChars {s : String} (h : ∀ c ∈ s.toList, hexChar c = true) :
    utf8 s = s.toList.map fun c => BitVec.ofNat 8 c.toNat := by
  rw [utf8_toList, List.map_eq_flatMap]
  exact List.flatMap_congr fun c hc => utf8EncodeChar_ascii (hexChar_ascii (h c hc))

/-- A string is made of hex digits exactly if its bytes are. -/
theorem hexDigit_utf8_iff (s : String) :
    (∀ b ∈ utf8 s, (hexDigit b).isSome = true) ↔ ∀ c ∈ s.toList, hexChar c = true := by
  constructor
  · intro h c hc
    have hbytes : ∀ b ∈ (String.utf8EncodeChar c).map UInt8.toBitVec,
        (hexDigit b).isSome = true := by
      intro b hb
      rw [utf8_toList] at h
      exact h b (List.mem_flatMap.mpr ⟨c, hc, hb⟩)
    by_cases hascii : c.toNat < 128
    · rw [utf8EncodeChar_ascii hascii] at hbytes
      have hdigit := hbytes _ (List.mem_singleton_self _)
      rwa [hexDigit_char _ hascii, Char.ofNat_toNat] at hdigit
    · obtain ⟨hne, hlarge⟩ := utf8EncodeChar_multibyte (Nat.not_lt.mp hascii)
      obtain ⟨b, hb⟩ := List.exists_mem_of_ne_nil _ (List.map_eq_nil_iff.not.mpr hne)
      have hdigit := hbytes b hb
      rw [hexDigit_large b (hlarge b hb)] at hdigit
      cases hdigit
  · intro h b hb
    rw [utf8_hexChars h] at hb
    obtain ⟨c, hc, rfl⟩ := List.mem_map.mp hb
    rw [hexDigit_char _ (hexChar_ascii (h c hc)), Char.ofNat_toNat]
    exact h c hc

/-! ## Taking strings apart -/

/-- `char::is_whitespace`. -/
def isWhitespace (c : Char) : Bool :=
  (0x09 ≤ c.toNat && c.toNat ≤ 0x0d) || (0x2000 ≤ c.toNat && c.toNat ≤ 0x200a) ||
    [0x20, 0x85, 0xa0, 0x1680, 0x2028, 0x2029, 0x202f, 0x205f, 0x3000].contains c.toNat

/-- `str::trim`. -/
def trim (cs : List Char) : List Char :=
  ((cs.dropWhile isWhitespace).reverse.dropWhile isWhitespace).reverse

/-- `pat` taken off the end, at most `fuel` times. -/
def trimEnd (pat : List Char) : Nat → List Char → List Char
  | 0, cs => cs
  | fuel + 1, cs => if pat <:+ cs then trimEnd pat fuel (cs.take (cs.length - pat.length)) else cs

/-- `str::trim_end_matches`: as often as it is there. -/
def trimEndMatches (pat cs : List Char) : List Char := trimEnd pat cs.length cs

/-- `str::split_once`: around the first `c`. -/
def splitOnce (c : Char) (cs : List Char) : Option (List Char × List Char) :=
  match cs.dropWhile (· ≠ c) with
  | [] => none
  | _ :: rest => some (cs.takeWhile (· ≠ c), rest)

/-- Only copies of `pat` are taken off. -/
theorem mem_trimEnd {pat : List Char} {c : Char} (hc : c ∉ pat) :
    ∀ (fuel : Nat) (cs : List Char), c ∈ trimEnd pat fuel cs ↔ c ∈ cs
  | 0, _ => Iff.rfl
  | fuel + 1, cs => by
    rw [trimEnd]
    split
    next hsuffix =>
      obtain ⟨front, rfl⟩ := hsuffix
      rw [mem_trimEnd hc fuel, List.length_append, Nat.add_sub_cancel, List.take_left,
        List.mem_append, or_iff_left hc]
    next => exact Iff.rfl

theorem splitOnce_eq_none_iff {c : Char} {cs : List Char} : splitOnce c cs = none ↔ c ∉ cs := by
  have hdrop : cs.dropWhile (· ≠ c) = [] ↔ c ∉ cs := by
    rw [List.dropWhile_eq_nil_iff]
    constructor
    · exact fun h hmem => absurd (h c hmem) (by simp)
    · intro h x hx
      exact decide_eq_true fun hxc => h (hxc ▸ hx)
  rw [← hdrop, splitOnce]
  split
  next h => exact iff_of_true rfl h
  next h => exact iff_of_false nofun (by rw [h]; nofun)

/-- A character of neither end is one of the middle. -/
theorem mem_between_iff {c : Char} {pre post : String} (hpre : c ∉ pre.toList)
    (hpost : c ∉ post.toList) (s : String) : c ∈ (pre ++ s ++ post).toList ↔ c ∈ s.toList := by
  rw [String.toList_append, String.toList_append, List.mem_append, List.mem_append,
    or_iff_right hpre, or_iff_left hpost]

/-- The first piece of a split: everything, or what stands before the first `c`. -/
theorem splitOn_cases (c : Char) (cs : List Char) :
    (c ∉ cs ∧ cs.splitOn c = [cs]) ∨
      ∃ front back, cs = front ++ c :: back ∧ c ∉ front ∧
      cs.splitOn c = front :: back.splitOn c := by
  by_cases h : c ∈ cs
  · obtain ⟨front, back, rfl, hfront⟩ := List.eq_append_cons_of_mem h
    exact .inr ⟨front, back, rfl, hfront, List.splitOn_append_cons_self_of_not_mem hfront back⟩
  · exact .inl ⟨h, List.splitOn_eq_singleton h⟩

end Provework.Lib
