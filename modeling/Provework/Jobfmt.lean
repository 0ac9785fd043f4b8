import Provework.Lib.Attempt
import Provework.Lib.Text

/-!
# Results, messages and names (`crates/jobfmt/src/lib.rs`)

The manifest of a job, what one worker reports, the journal both sides commit to,
the byte strings that are signed, the panic-free hex reader every untrusted
string goes through, and the check that a name from the network is a plain file
name. SHA-256 is a parameter.
-/

namespace Provework.Jobfmt

open Provework.Lib

/-- The fields of `job.json` that decide how a job is named, rebuilt and run. -/
structure JobManifest where
  schema : U32
  id : String
  isa : String
  format : Option String
  chunkSize : U64
  maxInstructions : U64
  elf : String
  input : String
  deriving DecidableEq, Repr

def JobManifest.isSp1V2 (m : JobManifest) : Bool := m.format = some "sp1-v2"

/-- What one worker reports. -/
structure WorkerResult where
  workerId : String
  jobId : String
  /-- `"halted"`, `"instruction_limit"` or `"trap"`. -/
  status : String
  instructions : U64
  resultHash : String
  chunkHashes : List String
  outputHex : Option String
  trap : Option String
  pubkeyHex : Option String
  sigHex : Option String
  deriving DecidableEq, Repr

/-! ## The journal -/

def journal (instructions : U64) (output : List U8) : List U8 :=
  leBytes 8 instructions.toNat ++ output

/-- The consensus commitment. -/
def journalDigest (sha256 : List U8 → Hash) (instructions : U64) (output : List U8) : Hash :=
  sha256 (journal instructions output)

/-- `V2_JOURNAL_COUNT`: what stands for the count of an SP1-native job. -/
def v2JournalCount : U64 := 0

/-! ## Hex -/

inductive HexError where
  | badLength (got want : Nat)
  | invalidByte (b : U8)
  deriving DecidableEq, Repr

/-- The `Display` of a `HexError`. -/
def HexError.text : HexError → String
  | .badLength got want => s!"bad length {got}/{want}"
  | .invalidByte b => "invalid hex byte 0x" ++ hex [b]

/-- The `digit` closure of `from_hex`. -/
def digit (c : U8) : Except HexError Nat :=
  match hexDigit c with
  | some d => .ok d
  | none => .error (.invalidByte c)

/-- The pairs of `as_chunks::<2>().0`; a last odd byte belongs to none. -/
def fromPairs : List U8 → Except HexError (List U8)
  | c :: d :: rest => do
    let hi ← digit c
    let lo ← digit d
    let bs ← fromPairs rest
    return BitVec.ofNat 8 (hi * 16 + lo) :: bs
  | _ => .ok []

/-- Exactly `expect` bytes of hex. -/
def fromHex (s : String) (expect : Nat) : Except HexError (List U8) :=
  let b := utf8 s
  if b.length ≠ expect * 2 then .error (.badLength b.length (expect * 2)) else fromPairs b

/-- Pairs of digits read back as the bytes, in either case. -/
theorem fromPairs_codes {code : Nat → U8} (hcode : ∀ d < 16, hexDigit (code d) = some d)
    (bs : List U8) :
    fromPairs (bs.flatMap fun b => [code (b.toNat / 16), code (b.toNat % 16)]) = .ok bs := by
  induction bs with
  | nil => rfl
  | cons b bs ih =>
    have hb := b.isLt
    have hhi : digit (code (b.toNat / 16)) = .ok (b.toNat / 16) := by
      rw [digit, hcode _ (by omega)]
    have hlo : digit (code (b.toNat % 16)) = .ok (b.toNat % 16) := by
      rw [digit, hcode _ (by omega)]
    have hbyte : BitVec.ofNat 8 (b.toNat / 16 * 16 + b.toNat % 16) = b := by
      rw [Nat.div_add_mod' b.toNat 16, BitVec.ofNat_toNat, BitVec.setWidth_eq]
    rw [List.flatMap_cons]
    simp only [List.cons_append, List.nil_append, fromPairs, hhi, hlo, ih]
    exact congrArg (fun c => Except.ok (c :: bs)) hbyte

/-- The reader reads back what `hex` wrote. -/
theorem fromHex_hex (bs : List U8) : fromHex (hex bs) bs.length = .ok bs := by
  unfold fromHex
  simp only [utf8_hex, length_hexCodes, ne_eq, not_true_eq_false, if_false]
  exact fromPairs_codes hexDigit_digitCode bs

theorem fromHex_hash (h : Hash) : fromHex (hex (List.ofFn h)) 32 = .ok (List.ofFn h) := by
  have hread := fromHex_hex (List.ofFn h)
  rwa [List.length_ofFn] at hread

/-- Read back without being told the length. -/
theorem fromHex_hex_half (bs : List U8) :
    fromHex (hex bs) ((utf8 (hex bs)).length / 2) = .ok bs := by
  rw [utf8_hex, length_hexCodes, Nat.mul_div_cancel _ (by decide), fromHex_hex]

theorem fromHex_hexUpper (bs : List U8) : fromHex (hexUpper bs) bs.length = .ok bs := by
  have hlength : (bs.flatMap fun b => [upperCode (b.toNat / 16), upperCode (b.toNat % 16)]).length
      = bs.length * 2 := by
    simp [List.length_flatMap]
  unfold fromHex
  simp only [utf8_hexUpper, hlength, ne_eq, not_true_eq_false, if_false]
  exact fromPairs_codes hexDigit_upperCode bs

theorem digit_eq_ok_iff {c : U8} {d : Nat} : digit c = .ok d ↔ hexDigit c = some d := by
  unfold digit
  cases hexDigit c <;> simp

/-- One pair, and the rest. -/
theorem fromPairs_cons_iff {c d : U8} {rest bs : List U8} : fromPairs (c :: d :: rest) = .ok bs ↔
    ∃ hi lo tail, hexDigit c = some hi ∧ hexDigit d = some lo ∧ fromPairs rest = .ok tail ∧
      bs = BitVec.ofNat 8 (hi * 16 + lo) :: tail := by
  rw [fromPairs]
  constructor
  · intro h
    obtain ⟨hi, hhi, h⟩ := except_bind_ok h
    obtain ⟨lo, hlo, h⟩ := except_bind_ok h
    obtain ⟨tail, htail, h⟩ := except_bind_ok h
    exact ⟨hi, lo, tail, digit_eq_ok_iff.mp hhi, digit_eq_ok_iff.mp hlo, htail,
      (Except.ok.inj h).symm⟩
  · rintro ⟨hi, lo, tail, hhi, hlo, htail, rfl⟩
    rw [digit_eq_ok_iff.mpr hhi, digit_eq_ok_iff.mpr hlo, htail]
    rfl

/-- What reads as pairs of digits is digits. -/
theorem fromPairs_digits : ∀ {b bs : List U8}, b.length % 2 = 0 → fromPairs b = .ok bs →
    ∀ c ∈ b, (hexDigit c).isSome = true
  | [], _, _, _ => nofun
  | [_], _, heven, _ => absurd heven Nat.one_ne_zero
  | c :: d :: rest, bs, heven, h => by
    obtain ⟨hi, lo, tail, hhi, hlo, htail, -⟩ := fromPairs_cons_iff.mp h
    have hrest :=
      fromPairs_digits (b := rest) (by simp only [List.length_cons] at heven; omega) htail
    intro x hx
    rcases List.mem_cons.mp hx with rfl | hx
    · rw [hhi, Option.isSome_some]
    · rcases List.mem_cons.mp hx with rfl | hx
      · rw [hlo, Option.isSome_some]
      · exact hrest x hx

/-- A string of hex digits reads, and what it reads as is written as the string in
lower case. -/
theorem fromPairs_chars : ∀ (n : Nat) (cs : List Char), cs.length = n * 2 →
    (∀ c ∈ cs, hexChar c = true) →
    ∃ bs, fromPairs (cs.map fun c => BitVec.ofNat 8 c.toNat) = .ok bs ∧
      bs.flatMap hexByte = cs.map Char.toLower
  | 0, cs, hlen, _ => by
    obtain rfl := List.length_eq_zero_iff.mp hlen
    exact ⟨[], rfl, rfl⟩
  | n + 1, [], hlen, _ => by simp at hlen
  | n + 1, [_], hlen, _ => by simp at hlen; omega
  | n + 1, c :: d :: cs, hlen, hchars => by
    obtain ⟨tail, htail, hlower⟩ := fromPairs_chars n cs
      (by simp only [List.length_cons] at hlen; omega)
      (fun x hx => hchars x (List.mem_cons_of_mem _ (List.mem_cons_of_mem _ hx)))
    -- either character is worth a digit, which is written as the character in lower case
    have hdigit : ∀ x ∈ [c, d], ∃ v, hexDigit (BitVec.ofNat 8 x.toNat) = some v ∧ v < 16 ∧
        Nat.digitChar v = x.toLower := by
      intro x hx
      have hx' : hexChar x = true := hchars x (List.mem_append_left cs hx)
      have hascii := hexChar_ascii hx'
      rw [← Char.ofNat_toNat x, ← hexDigit_char _ hascii] at hx'
      obtain ⟨v, hv⟩ := Option.isSome_iff_exists.mp hx'
      obtain ⟨hlt, hchar⟩ := digitChar_hexDigit _ hascii v hv
      rw [Char.ofNat_toNat] at hchar
      exact ⟨v, hv, hlt, hchar⟩
    obtain ⟨hi, hhi, hhi16, hhiChar⟩ := hdigit c List.mem_cons_self
    obtain ⟨lo, hlo, hlo16, hloChar⟩ := hdigit d (List.mem_cons_of_mem _ List.mem_cons_self)
    refine ⟨BitVec.ofNat 8 (hi * 16 + lo) :: tail,
      fromPairs_cons_iff.mpr ⟨hi, lo, tail, hhi, hlo, htail, rfl⟩, ?_⟩
    have hbyte : (BitVec.ofNat 8 (hi * 16 + lo)).toNat = hi * 16 + lo := by
      rw [BitVec.toNat_ofNat, Nat.mod_eq_of_lt (by omega)]
    rw [List.flatMap_cons, hexByte, hbyte, hlower, show (hi * 16 + lo) / 16 = hi by omega,
      show (hi * 16 + lo) % 16 = lo by omega, hhiChar, hloChar]
    rfl

theorem fromHex_eq_ok_iff {s : String} {expect : Nat} {bs : List U8} :
    fromHex s expect = .ok bs ↔ (utf8 s).length = expect * 2 ∧ fromPairs (utf8 s) = .ok bs := by
  unfold fromHex
  by_cases hlen : (utf8 s).length = expect * 2
  · simp [hlen]
  · simp [hlen]

/-- A string that was decoded can be cut anywhere. -/
theorem sliceable_of_fromHex {s : String} {expect n : Nat} {bs : List U8}
    (h : fromHex s expect = .ok bs) (hn : n ≤ (utf8 s).length) : sliceable s n = true := by
  obtain ⟨hlen, hpairs⟩ := fromHex_eq_ok_iff.mp h
  have hdigits := fromPairs_digits (by omega) hpairs
  exact charBoundary_ascii (fun c hc => hexDigit_ascii c (hdigits c hc)) hn

theorem length_fromPairs : ∀ {b bs : List U8}, fromPairs b = .ok bs → bs.length = b.length / 2
  | [], _, h => by
    cases h
    rfl
  | [_], _, h => by
    cases h
    simp
  | c :: d :: rest, bs, h => by
    obtain ⟨hi, lo, tail, -, -, htail, rfl⟩ := fromPairs_cons_iff.mp h
    have hrest := length_fromPairs htail
    simp only [List.length_cons]
    omega

theorem length_fromHex {s : String} {expect : Nat} {bs : List U8} (h : fromHex s expect = .ok bs) :
    bs.length = expect := by
  obtain ⟨hlen, hpairs⟩ := fromHex_eq_ok_iff.mp h
  have hlength := length_fromPairs hpairs
  omega

/-- The strings that are taken are those of exactly `expect * 2` hex digits. -/
theorem fromHex_isOk_iff {s : String} {expect : Nat} : (∃ bs, fromHex s expect = .ok bs) ↔
    s.toList.length = expect * 2 ∧ ∀ c ∈ s.toList, hexChar c = true := by
  simp only [fromHex_eq_ok_iff]
  constructor
  · rintro ⟨bs, hlen, hpairs⟩
    have hchars := (hexDigit_utf8_iff s).mp (fromPairs_digits (by omega) hpairs)
    rw [utf8_hexChars hchars, List.length_map] at hlen
    exact ⟨hlen, hchars⟩
  · rintro ⟨hlen, hchars⟩
    obtain ⟨bs, hpairs, -⟩ := fromPairs_chars expect s.toList hlen hchars
    rw [utf8_hexChars hchars, List.length_map]
    exact ⟨bs, hlen, hpairs⟩

/-- What was read is written as the string in lower case. -/
theorem hex_fromHex {s : String} {expect : Nat} {bs : List U8} (h : fromHex s expect = .ok bs) :
    hex bs = s.toLower := by
  obtain ⟨hlen, hchars⟩ := fromHex_isOk_iff.mp ⟨bs, h⟩
  obtain ⟨bs', hpairs, hlower⟩ := fromPairs_chars expect s.toList hlen hchars
  rw [← utf8_hexChars hchars, (fromHex_eq_ok_iff.mp h).2] at hpairs
  rw [hex, Except.ok.inj hpairs, hlower]
  refine String.toList_inj.mp ?_
  show (String.ofList (s.toList.map Char.toLower)).toList = (s.map Char.toLower).toList
  rw [String.toList_ofList, String.toList_map]

/-! ## What is signed -/

/-- `len as u32` in four bytes, then the bytes. -/
def put (b : List U8) : List U8 := leBytes 4 b.length ++ b

/-- A field that may be absent; absence is written as length zero. -/
def putOption : Option String → List U8
  | some s => put (utf8 s)
  | none => leBytes 4 0

/-- Every field of a result except its key and signature. -/
def signingMessage (r : WorkerResult) : List U8 :=
  put (utf8 r.workerId) ++ put (utf8 r.jobId) ++ put (utf8 r.status)
    ++ leBytes 8 r.instructions.toNat ++ put (utf8 r.resultHash)
    ++ r.chunkHashes.flatMap (fun h => put (utf8 h)) ++ putOption r.outputHex ++ putOption r.trap

/-- A job id bound to a content hash. -/
def boundMessage (jobId : String) (h : Hash) : List U8 := put (utf8 jobId) ++ List.ofFn h

def receiptClaimMessage (jobId : String) (receiptHash : Hash) : List U8 :=
  boundMessage jobId receiptHash

def submissionMessage (jobId : String) (descriptorId : Hash) : List U8 :=
  boundMessage jobId descriptorId

/-! ## Plain file names -/

/-- `std::path::Component` on Unix. -/
inductive Component where
  | rootDir
  | curDir
  | parentDir
  | normal (name : List Char)
  deriving DecidableEq, Repr

/-- A segment between separators; empty ones and `.` are skipped. -/
def segment (cs : List Char) : Option Component :=
  if cs = [] ∨ cs = ['.'] then none
  else if cs = ['.', '.'] then some .parentDir
  else some (.normal cs)

/-- `Path::new(name).components()`: only a leading `.` is a component. -/
def components (name : String) : List Component :=
  match name.toList with
  | '/' :: rest => .rootDir :: (rest.splitOn '/').filterMap segment
  | cs =>
    match cs.splitOn '/' with
    | ['.'] :: segments => .curDir :: segments.filterMap segment
    | segments => segments.filterMap segment

/-- `confined_name(name).is_ok()`: the only error says that `name` is not a
plain file name. -/
def confinedName (name : String) : Bool :=
  !name.toList.contains '\\' &&
    match components name with
    | [.normal _] => true
    | _ => false

end Provework.Jobfmt
