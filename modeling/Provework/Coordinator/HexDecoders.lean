import Provework.Contentstore
import Provework.Coordinator.Dispute

/-!
# The readers of hex agree, but for two kinds of string

A content id from the wire is read by `ContentId::from_hex`, a chunk hash by
`decode_chain`, and keys, signatures and blobs by `jobfmt::from_hex`. The last works
on bytes and takes exactly the strings of hex digits. The other two slice the string
and call `from_str_radix`: they panic where a slice cuts a character
(`ContentId.Cut`), and they take `+f` for a byte (`SignedHex`). On every other string
the three agree (`decoders_agree_iff`).
-/

namespace Provework.Coordinator

open Provework.Lib Provework.Jobfmt Provework.Contentstore

/-- `jobfmt::from_hex` with the length of a machine word: `expect * 2` wraps. -/
def fromHexUsize (s : String) (expect : U64) : Except HexError (List U8) :=
  let b := utf8 s
  if b.length ≠ (expect * 2).toNat then
    .error (.badLength b.length (expect * 2).toNat) else fromPairs b

/-- The two readers of hashes return, and read `s` as `jobfmt::from_hex` does. -/
def DecodersAgree (s : String) : Prop :=
  ∃ id chain, ContentId.fromHex s = some id ∧ decodeChain [s] = some chain ∧
    ∀ h : Hash, (id = .ok h ↔ fromHex s 32 = .ok (List.ofFn h)) ∧
      (chain = .ok [h] ↔ fromHex s 32 = .ok (List.ofFn h))

/-- Every pair of the string reads as a byte, some of them with a sign. -/
def SignedHex (s : String) : Prop :=
  (utf8 s).length = 64 ∧ (∀ j < 32, (radixPair (utf8 s) j).isSome = true) ∧
    ∃ j < 32, (utf8 s).getD (j * 2) 0 = 0x2b

/-! ## The loop of slices against the loop of bytes -/

theorem drop_pair {bytes : List U8} {i : Nat} (h : i * 2 + 1 < bytes.length) :
    bytes.drop (i * 2) =
      bytes.getD (i * 2) 0 :: bytes.getD (i * 2 + 1) 0 :: bytes.drop ((i + 1) * 2) := by
  rw [List.drop_eq_getElem_cons (by omega), List.drop_eq_getElem_cons h,
    List.getD_eq_getElem _ _ (by omega), List.getD_eq_getElem _ _ h, Nat.succ_mul]

/-- Where no pair starts with a sign, the loop that does not panic reads what the
bytes read as. -/
theorem radixLoop_eq_fromPairs {ε : Type} (err : Nat → ε) (bytes : List U8) : ∀ left i : Nat,
    bytes.length = (i + left) * 2 → (∀ j < left, bytes.getD ((i + j) * 2) 0 ≠ 0x2b) →
    radixLoop err bytes left i ≠ none → ∀ bs,
    (radixLoop err bytes left i = some (.ok bs) ↔ fromPairs (bytes.drop (i * 2)) = .ok bs)
  | 0, i, hlen, _, _, bs => by
    rw [List.drop_of_length_le (by omega), radixLoop, fromPairs]
    · simp
    · simp
  | left + 1, i, hlen, hsign, hpanic, bs => by
    have hshift : ∀ j, i + 1 + j = i + (j + 1) := fun j => by omega
    have hfirst : bytes.getD (i * 2) 0 ≠ 0x2b := hsign 0 (Nat.succ_pos left)
    have hpair := fun c => fromStrRadix_eq_some_iff (b := bytes.getD (i * 2 + 1) 0) (c := c) hfirst
    rw [drop_pair (by omega), fromPairs_cons_iff]
    rcases radixLoop_succ err bytes left i with ⟨hnone, -⟩
      | ⟨-, ⟨hnone, herror⟩ | ⟨b, hsome, hgoes⟩⟩
    · exact absurd hnone hpanic
    · rw [herror]
      refine iff_of_false (by simp) ?_
      rintro ⟨hi, lo, tail, hhi, hlo, -, -⟩
      have hread := (hpair _).mpr ⟨hi, lo, hhi, hlo, rfl⟩
      cases hnone.symm.trans hread
    · obtain ⟨hi, lo, hhi, hlo, rfl⟩ := (hpair b).mp hsome
      rw [hgoes, ne_eq, Option.map_eq_none_iff] at hpanic
      have ih := radixLoop_eq_fromPairs err bytes left (i + 1) (by omega)
        (fun j hj => hshift j ▸ hsign (j + 1) (Nat.succ_lt_succ hj)) hpanic
      simp only [hgoes, hhi, hlo, Option.some_inj, ← ih]
      rcases radixLoop err bytes left (i + 1) with _ | e | tail <;> simp [Except.map, eq_comm]

section

variable {s : String}

/-- A sign is no digit. -/
theorem fromPairs_sign (hlen : (utf8 s).length = 64)
    (hsign : ∃ j < 32, (utf8 s).getD (j * 2) 0 = 0x2b) (bs : List U8) :
    fromPairs (utf8 s) ≠ .ok bs := by
  intro hok
  obtain ⟨j, hj, hplus⟩ := hsign
  have hlt : j * 2 < (utf8 s).length := by omega
  have hdigit := fromPairs_digits (by omega) hok _ (getD_mem hlt 0)
  rw [hplus] at hdigit
  cases hdigit

/-- On a string that is not signed the loop reads what the bytes read as. -/
theorem radixLoop_eq_of_unsigned {ε : Type} (err : Nat → ε) (hlen : (utf8 s).length = 64)
    (hsigned : ¬SignedHex s) (hpanic : radixLoop err (utf8 s) 32 0 ≠ none) (bs : List U8) :
    radixLoop err (utf8 s) 32 0 = some (.ok bs) ↔ fromPairs (utf8 s) = .ok bs := by
  by_cases hsign : ∃ j < 32, (utf8 s).getD (j * 2) 0 = 0x2b
  · -- neither reads: with a sign in it, not all the pairs read
    refine iff_of_false (fun hok => hsigned ⟨hlen, ?_, hsign⟩) (fromPairs_sign hlen hsign bs)
    have hreads := (radixLoop_isOk_iff err (utf8 s) 32 0 hpanic).mp ⟨bs, hok⟩
    simpa only [Nat.zero_add] using hreads
  · have hplain : ∀ j < 32, (utf8 s).getD ((0 + j) * 2) 0 ≠ 0x2b := by
      intro j hj hplus
      rw [Nat.zero_add] at hplus
      exact hsign ⟨j, hj, hplus⟩
    have heq := radixLoop_eq_fromPairs err (utf8 s) 32 0 (by omega) hplain hpanic bs
    rwa [Nat.zero_mul, List.drop_zero] at heq

/-! ## Reading a hash -/

/-- Thirty-two bytes as a hash. -/
def toHash (bs : List U8) : Hash := fun i => bs.getD i 0

theorem toHash_eq_iff {bs : List U8} (hlen : bs.length = 32) (h : Hash) :
    toHash bs = h ↔ bs = List.ofFn h := by
  constructor
  · rintro rfl
    refine List.ext_getElem (by rw [hlen, List.length_ofFn]) fun i hi _ => ?_
    rw [List.getElem_ofFn, toHash, List.getD_eq_getElem _ _ hi]
  · rintro rfl
    funext i
    rw [toHash, List.getD_eq_getElem _ _ (by rw [List.length_ofFn]; exact i.isLt),
      List.getElem_ofFn]

/-- What `ContentId::from_hex` and `decode_chain` have in common. -/
def readHash (badLength badHex : Nat → String) (s : String) : Option (Except String Hash) :=
  if (utf8 s).length ≠ 64 then some (.error (badLength (utf8 s).length))
  else (radixLoop badHex (utf8 s) 32 0).map (Except.map toHash)

theorem contentId_eq_readHash (s : String) : ContentId.fromHex s =
    readHash (fun n => s!"content id: bad length {n}")
      (fun _ => "content id: bad hex: invalid digit found in string") s := by
  unfold ContentId.fromHex readHash
  dsimp only
  split
  · rfl
  · rcases radixLoop (fun _ => "content id: bad hex: invalid digit found in string") (utf8 s) 32 0
      with _ | e | bs <;> rfl

theorem decodeHash_eq_readHash (s : String) : decodeHash s =
    readHash (fun n => s!"bad hash length {n}") (fun i => s!"bad hex at byte {i}") s := by
  unfold decodeHash readHash decodeLoop
  dsimp only
  split
  · rfl
  · rcases radixLoop (fun i => s!"bad hex at byte {i}") (utf8 s) 32 0 with _ | e | bs <;> rfl

theorem decodeChain_singleton (s : String) :
    decodeChain [s] = (decodeHash s).map (Except.map fun h => [h]) := by
  rw [decodeChain, decodeChain]
  rcases decodeHash s with _ | e | h <;> rfl

variable (badLength badHex : Nat → String)

theorem readHash_of_length (hlen : (utf8 s).length = 64) :
    readHash badLength badHex s = (radixLoop badHex (utf8 s) 32 0).map (Except.map toHash) := by
  rw [readHash, if_neg (not_not.mpr hlen)]

theorem fromHex_of_length (hlen : (utf8 s).length = 64) : fromHex s 32 = fromPairs (utf8 s) := by
  rw [fromHex]
  exact if_neg (not_not.mpr hlen)

theorem readHash_eq_none_iff : readHash badLength badHex s = none ↔ ContentId.Cut s := by
  by_cases hlen : (utf8 s).length = 64
  · have hloop := radixLoop_eq_none_iff badHex (utf8 s) 32 0 rfl
    simp only [Nat.zero_add] at hloop
    rw [readHash_of_length _ _ hlen, Option.map_eq_none_iff, hloop, ContentId.Cut,
      and_iff_right hlen]
  · rw [readHash, if_pos hlen]
    exact iff_of_false (fun h => by cases h) fun hcut => hlen hcut.1

theorem radixLoop_ne_none (hlen : (utf8 s).length = 64) (hcut : ¬ContentId.Cut s) :
    radixLoop badHex (utf8 s) 32 0 ≠ none := by
  rwa [← readHash_eq_none_iff badHex badHex, readHash_of_length _ _ hlen,
    Option.map_eq_none_iff] at hcut

theorem readHash_eq_ok_iff (hcut : ¬ContentId.Cut s) (hsigned : ¬SignedHex s) (h : Hash) :
    readHash badLength badHex s = some (.ok h) ↔ fromHex s 32 = .ok (List.ofFn h) := by
  by_cases hlen : (utf8 s).length = 64
  · have hpanic := radixLoop_ne_none badHex hlen hcut
    have hreads := radixLoop_eq_of_unsigned badHex hlen hsigned hpanic
    rw [readHash_of_length _ _ hlen, fromHex_of_length hlen, ← hreads]
    rcases hloop : radixLoop badHex (utf8 s) 32 0 with _ | e | bs
    · exact absurd hloop hpanic
    · simp [Except.map]
    · have hbs : bs.length = 32 := by
        rw [length_fromPairs ((hreads bs).mp hloop), hlen]
      simp [Except.map, toHash_eq_iff hbs]
  · rw [readHash, if_pos hlen, fromHex]
    simp [hlen]

/-- A signed string that can be sliced reads as a hash. -/
theorem readHash_signed (hcut : ¬ContentId.Cut s) (hsigned : SignedHex s) :
    ∃ h, readHash badLength badHex s = some (.ok h) := by
  obtain ⟨hlen, hpairs, -⟩ := hsigned
  obtain ⟨bs, hloop⟩ :=
    (radixLoop_isOk_iff badHex (utf8 s) 32 0 (radixLoop_ne_none badHex hlen hcut)).mpr
    (by simpa only [Nat.zero_add] using hpairs)
  exact ⟨toHash bs, by rw [readHash_of_length _ _ hlen, hloop]; rfl⟩

theorem decodersAgree_iff : DecodersAgree s ↔ ¬ContentId.Cut s ∧ ¬SignedHex s := by
  unfold DecodersAgree
  rw [contentId_eq_readHash, decodeChain_singleton, decodeHash_eq_readHash]
  constructor
  · rintro ⟨id, chain, hid, -, hagree⟩
    have hcut : ¬ContentId.Cut s := by
      intro hcut
      cases hid.symm.trans ((readHash_eq_none_iff _ _).mpr hcut)
    refine ⟨hcut, fun hsigned => ?_⟩
    obtain ⟨h, hok⟩ := readHash_signed _ _ hcut hsigned
    cases hid.symm.trans hok
    have hread := (hagree h).1.mp rfl
    rw [fromHex_of_length hsigned.1] at hread
    exact fromPairs_sign hsigned.1 hsigned.2.2 _ hread
  · rintro ⟨hcut, hsigned⟩
    have hread : ∀ badLength badHex, ∃ r, readHash badLength badHex s = some r ∧
        ∀ h, r = .ok h ↔ fromHex s 32 = .ok (List.ofFn h) := by
      intro badLength badHex
      obtain ⟨r, hr⟩ := Option.ne_none_iff_exists'.mp
        ((readHash_eq_none_iff badLength badHex).not.mpr hcut)
      refine ⟨r, hr, fun h => ?_⟩
      rw [← readHash_eq_ok_iff badLength badHex hcut hsigned, hr, Option.some_inj]
    obtain ⟨id, hid, hidOk⟩ := hread (fun n => s!"content id: bad length {n}")
      (fun _ => "content id: bad hex: invalid digit found in string")
    obtain ⟨r, hr, hrOk⟩ :=
      hread (fun n => s!"bad hash length {n}") (fun i => s!"bad hex at byte {i}")
    refine ⟨id, r.map fun h => [h], hid, by rw [hr]; rfl, fun h => ⟨hidOk h, ?_⟩⟩
    rw [← hrOk]
    cases r <;> simp [Except.map]

/-! ## The reader of bytes -/

/-- The top bit of the length is lost in its double. -/
theorem fromHexUsize_eq (n : U64) : fromHexUsize s n = fromHex s (n.toNat % 2 ^ 63) := by
  have hdouble : (n * 2).toNat = n.toNat % 2 ^ 63 * 2 := by
    rw [BitVec.toNat_mul]
    show n.toNat * 2 % 2 ^ 64 = n.toNat % 2 ^ 63 * 2
    omega
  simp only [fromHexUsize, fromHex, hdouble]

end

/-- On every string the readers of hashes return what `jobfmt::from_hex` returns,
unless a slice cuts a character or a pair is signed; and `jobfmt::from_hex` takes
exactly the strings of `2 * n` hex digits, unless `2 * n` wraps: then it takes those of
`2 * (n - 2 ^ 63)`. -/
theorem decoders_agree_iff (s : String) :
    (DecodersAgree s ↔ ¬ContentId.Cut s ∧ ¬SignedHex s) ∧
    (∀ n : U64, n.toNat < 2 ^ 63 →
      ((∃ b, fromHexUsize s n = .ok b) ↔
        s.toList.length = 2 * n.toNat ∧ ∀ c ∈ s.toList, hexChar c = true) ∧
      ∀ b, fromHexUsize s n = .ok b → hex b = s.toLower) ∧
    ∀ n : U64, 2 ^ 63 ≤ n.toNat →
      ((∃ b, fromHexUsize s n = .ok b) ↔
        s.toList.length = 2 * (n.toNat - 2 ^ 63) ∧ ∀ c ∈ s.toList, hexChar c = true) := by
  refine ⟨decodersAgree_iff, fun n hn => ?_, fun n hn => ?_⟩
  · rw [fromHexUsize_eq, Nat.mod_eq_of_lt hn, Nat.mul_comm 2]
    exact ⟨fromHex_isOk_iff, fun b => hex_fromHex⟩
  · have hmod : n.toNat % 2 ^ 63 = n.toNat - 2 ^ 63 := by
      have hlt := n.isLt
      omega
    rw [fromHexUsize_eq, hmod, Nat.mul_comm 2]
    exact fromHex_isOk_iff

theorem decoders_agree_zeros : DecodersAgree (hex (List.ofFn fun _ : Fin 32 => 0)) ∧
    ∃ b, fromHexUsize (hex (List.ofFn fun _ : Fin 32 => 0)) 32 = .ok b := by
  have hagree := decoders_agree_iff (hex (List.ofFn fun _ : Fin 32 => 0))
  have hdigits : (hex (List.ofFn fun _ : Fin 32 => 0)).toList.all hexChar = true := by
    decide +kernel
  refine ⟨hagree.1.mpr ⟨?_, ?_⟩,
    (hagree.2.1 32 (by decide)).1.mpr ⟨by decide +kernel, List.all_eq_true.mp hdigits⟩⟩
  · rw [← ContentId.fromHex_eq_none_iff, ContentId.fromHex_hex]
    exact fun h => nomatch h
  · rintro ⟨-, -, hsign⟩
    revert hsign
    decide +kernel

/-- A string of 64 bytes in which every second byte is inside a character. -/
def straddling : String := "0ééééééééééééééééééééééééééééééé0"

/-- Thirty-two pairs with a sign. -/
def plusses : String := String.join (List.replicate 32 "+f")

theorem decodeHash_plusses : ∃ h : Hash, ContentId.fromHex plusses = some (.ok h) ∧
    decodeHash plusses = some (.ok h) ∧ List.ofFn h = List.replicate 32 0x0f := by
  have hid : (ContentId.fromHex plusses).map (fun r => r.toOption.map List.ofFn)
      = some (some (List.replicate 32 0x0f)) := by decide +kernel
  have hhash : (decodeHash plusses).map (fun r => r.toOption.map List.ofFn)
      = some (some (List.replicate 32 0x0f)) := by decide +kernel
  rcases hread : ContentId.fromHex plusses with _ | e | h
  · simp [hread] at hid
  · simp [hread, Except.toOption] at hid
  · rcases hread' : decodeHash plusses with _ | e | h'
    · simp [hread'] at hhash
    · simp [hread', Except.toOption] at hhash
    · simp only [hread, hread', Except.toOption, Option.map_some, Option.some_inj] at hid hhash
      have hsame : h' = h := List.ofFn_injective (hhash.trans hid.symm)
      exact ⟨h, rfl, by rw [hsame], hid⟩

/-- The two readers of hashes panic on one string; they take another, for thirty-two
bytes of fifteen, that `jobfmt::from_hex` refuses; and with a length whose double
wraps `jobfmt::from_hex` takes the empty string. -/
theorem decoders_differ :
    (ContentId.fromHex straddling = none ∧ decodeChain [straddling] = none) ∧
    ((∃ h, List.ofFn h = List.replicate 32 0x0f ∧ ContentId.fromHex plusses = some (.ok h) ∧
        decodeChain [plusses] = some (.ok [h])) ∧
      ∀ b, fromHex plusses 32 ≠ .ok b) ∧
    fromHexUsize "" 0x8000000000000000 = .ok [] := by
  refine ⟨⟨by decide +kernel, by decide +kernel⟩, ⟨?_, fun b hb => ?_⟩, rfl⟩
  · obtain ⟨h, hid, hhash, hbytes⟩ := decodeHash_plusses
    exact ⟨h, hbytes, hid, by rw [decodeChain_singleton, hhash]; rfl⟩
  · have hdigits : plusses.toList.all hexChar = false := by decide +kernel
    rw [List.all_eq_true.mpr (fromHex_isOk_iff.mp ⟨b, hb⟩).2] at hdigits
    cases hdigits

end Provework.Coordinator
