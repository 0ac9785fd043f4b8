import Mathlib.Data.Fintype.Pi
import Mathlib.Logic.Function.Basic
import Provework.Jobfmt
import Provework.Lib.Attempt

/-!
# The content-addressed store (`crates/contentstore/src/lib.rs`)

A blob lives under its BLAKE3 hash and is checked against it on every read. The
directory is what reading the file of each id gives; other programs share it, so
nothing is assumed about a file this program did not just write. `materialize`
rebuilds a job directory from a descriptor; reading the manifest's JSON is a
parameter, and so is which file names the file system takes. The directory is the
published one as long as files that share a name share their content
(`materialize_published_iff`); the manifest chooses the names.
-/

namespace Provework.Contentstore

open Provework.Lib Provework.Jobfmt

abbrev ContentId := Hash

/-- The content hashes a job is rebuilt from. -/
structure JobDescriptor where
  jobId : String
  manifest : String
  elf : String
  input : String
  deriving DecidableEq, Repr

/-- A character inside a JSON string, as `serde_json` escapes it. -/
def jsonChar (c : Char) : List Char :=
  if c = '"' then ['\\', '"']
  else if c = '\\' then ['\\', '\\']
  else if c.toNat = 0x08 then ['\\', 'b']
  else if c.toNat = 0x09 then ['\\', 't']
  else if c.toNat = 0x0a then ['\\', 'n']
  else if c.toNat = 0x0c then ['\\', 'f']
  else if c.toNat = 0x0d then ['\\', 'r']
  else if c.toNat < 0x20 then ['\\', 'u', '0', '0'] ++ hexByte (BitVec.ofNat 8 c.toNat)
  else [c]

/-- One field of a JSON object. -/
def jsonField (name value : String) : List Char :=
  ['"'] ++ name.toList ++ ['"', ':', '"'] ++ value.toList.flatMap jsonChar ++ ['"']

/-- `serde_json::to_vec` of a descriptor. -/
def JobDescriptor.json (d : JobDescriptor) : List U8 :=
  utf8 (String.ofList
    (['\x7b'] ++ jsonField "job_id" d.jobId ++ [','] ++ jsonField "manifest" d.manifest
    ++ [','] ++ jsonField "elf" d.elf ++ [','] ++ jsonField "input" d.input ++ ['\x7d']))

/-- `ContentId::from_hex`; `none` is the panic of a slice that cuts a character. -/
def ContentId.fromHex (s : String) : Option (Except String ContentId) :=
  let bytes := utf8 s
  if bytes.length ≠ 64 then some (.error s!"content id: bad length {bytes.length}")
  else
    match radixLoop (fun _ => "content id: bad hex: invalid digit found in string") bytes 32 0 with
    | none => none
    | some (.error e) => some (.error e)
    | some (.ok bs) => some (.ok fun i => bs.getD i 0)

theorem ContentId.fromHex_hex (id : ContentId) :
    ContentId.fromHex (hex (List.ofFn id)) = some (.ok id) := by
  obtain ⟨hlen, hloop, hget⟩ :=
    radixLoop_hash (fun _ => "content id: bad hex: invalid digit found in string") id
  simp only [ContentId.fromHex, hlen, ne_eq, not_true_eq_false, if_false, hloop, hget]

/-- An id of the right length in which a character straddles the end of a pair, and
every pair before reads. -/
def ContentId.Cut (s : String) : Prop :=
  (utf8 s).length = 64 ∧ ∃ k < 32, (∀ j < k, (radixPair (utf8 s) j).isSome = true) ∧
    charBoundary (utf8 s) (k * 2 + 2) = false

theorem ContentId.fromHex_eq_none_iff (s : String) :
    ContentId.fromHex s = none ↔ ContentId.Cut s := by
  unfold ContentId.fromHex ContentId.Cut
  by_cases hlen : (utf8 s).length = 64
  · have hloop :=
      radixLoop_eq_none_iff (fun _ => "content id: bad hex: invalid digit found in string")
      (utf8 s) 32 0 rfl
    simp only [Nat.zero_add] at hloop
    simp only [hlen, ne_eq, not_true_eq_false, if_false, true_and]
    rw [← hloop]
    split
    next h => exact iff_of_true rfl h
    next h => exact iff_of_false nofun (by rw [h]; nofun)
    next h => exact iff_of_false nofun (by rw [h]; nofun)
  · simp [hlen]

/-- The blob files. -/
abbrev Store := ContentId → Option (List U8)

namespace Store

variable (blake3 : List U8 → Hash)

/-- A file that is there already is left alone. -/
def put (store : Store) (data : List U8) : Store :=
  match store (blake3 data) with
  | some _ => store
  | none => Function.update store (blake3 data) (some data)

/-- A blob that does not hash to its name is an error, never data. -/
def get (store : Store) (id : ContentId) : Option (List U8) :=
  (store id).filter fun data => blake3 data = id

def has (store : Store) (id : ContentId) : Bool := (store id).isSome

/-- `store.get(&ContentId::from_hex(s)?)?`. -/
def fetch (store : Store) (s : String) : Attempt (List U8) :=
  match ContentId.fromHex s with
  | none => none
  | some (.error _) => some none
  | some (.ok id) => some (store.get blake3 id)

end Store

/-- The files of a job directory, by name. -/
abbrev Dir := String → Option (List U8)

/-- `std::fs::write` into the directory; the file there before is replaced. -/
def Dir.write (takes : String → Bool) (dir : Dir) (name : String) (bytes : List U8) :
    Attempt Dir :=
  if takes name then some (some (Function.update dir name (some bytes))) else some none

/-- A fresh job directory. Manifest, program and input are written in this
order, so a manifest that names one file for two of them loses the earlier. -/
def materialize (blake3 : List U8 → Hash) (readManifest : List U8 → Option JobManifest)
    (takes : String → Bool) (desc : JobDescriptor) (store : Store) : Attempt Dir :=
  (store.fetch blake3 desc.manifest).andThen fun manifestBytes =>
  Attempt.andThen (some (readManifest manifestBytes)) fun manifest =>
  if !confinedName manifest.elf || !confinedName manifest.input then some none
  else
    (store.fetch blake3 desc.elf).andThen fun elf =>
    (store.fetch blake3 desc.input).andThen fun input =>
    (Dir.write takes (fun _ => none) "job.json" manifestBytes).andThen fun dir =>
    (dir.write takes manifest.elf elf).andThen fun dir =>
    dir.write takes manifest.input input

/-! ## What is materialized -/

section

variable (blake3 : List U8 → Hash) (readManifest : List U8 → Option JobManifest)
  (takes : String → Bool) (desc : JobDescriptor) (store : Store)

/-- The manifest a descriptor stands for. -/
def publishedManifest : Attempt JobManifest :=
  (store.fetch blake3 desc.manifest).andThen fun bytes => some (readManifest bytes)

/-- The file `name` has the content id written as `idHex`. -/
def Dir.HasId (dir : Dir) (name idHex : String) : Prop :=
  ∃ bytes, dir name = some bytes ∧ ContentId.fromHex idHex = some (.ok (blake3 bytes))

/-- The directory is the job of the descriptor. -/
structure Dir.Published (dir : Dir) (manifest : JobManifest) : Prop where
  jobJson : dir.HasId blake3 "job.json" desc.manifest
  elf : dir.HasId blake3 manifest.elf desc.elf
  input : dir.HasId blake3 manifest.input desc.input

/-- Files that share a name share their content. -/
structure SharedAlike (manifest : JobManifest) : Prop where
  elfInput : manifest.elf = manifest.input →
    ContentId.fromHex desc.elf = ContentId.fromHex desc.input
  elfManifest : manifest.elf = "job.json" →
    ContentId.fromHex desc.elf = ContentId.fromHex desc.manifest
  inputManifest :
    manifest.input = "job.json" → ContentId.fromHex desc.input = ContentId.fromHex desc.manifest

variable {blake3 readManifest takes desc store}

theorem Store.fetch_hex {id : ContentId} {data : List U8} (h : store.get blake3 id = some data) :
    store.fetch blake3 (hex (List.ofFn id)) = some (some data) := by
  simp only [Store.fetch, ContentId.fromHex_hex, h]

/-- A blob that was fetched has the id it was asked for. -/
theorem Store.fetch_id {s : String} {data : List U8} (h : store.fetch blake3 s = some (some data)) :
    ContentId.fromHex s = some (.ok (blake3 data)) := by
  unfold Store.fetch at h
  rcases hid : ContentId.fromHex s with _ | e | id
  · rw [hid] at h
    cases h
  · rw [hid] at h
    cases h
  · rw [hid] at h
    have hfile := (Option.filter_eq_some_iff.mp (Option.some.inj h)).2
    rw [of_decide_eq_true hfile]

theorem Dir.write_eq {dir dir' : Dir} {name : String} {bytes : List U8}
    (h : dir.write takes name bytes = some (some dir')) :
    dir' = Function.update dir name (some bytes) := by
  unfold Dir.write at h
  split at h
  · exact (Option.some.inj (Option.some.inj h)).symm
  · cases h

/-- What a materialized directory holds: three blobs under three names, the later
ones written over the earlier. -/
theorem materialize_some {dir : Dir}
    (h : materialize blake3 readManifest takes desc store = some (some dir)) :
    ∃ json manifest elf input, store.fetch blake3 desc.manifest = some (some json) ∧
      readManifest json = some manifest ∧ store.fetch blake3 desc.elf = some (some elf) ∧
      store.fetch blake3 desc.input = some (some input) ∧
      dir = Function.update
        (Function.update (Function.update (fun _ => none) "job.json" (some json))
        manifest.elf (some elf)) manifest.input (some input) := by
  obtain ⟨json, hjson, h⟩ := Attempt.andThen_eq_some_iff.mp h
  obtain ⟨manifest, hmanifest, h⟩ := Attempt.andThen_eq_some_iff.mp h
  split at h
  · cases h
  obtain ⟨elf, helf, h⟩ := Attempt.andThen_eq_some_iff.mp h
  obtain ⟨input, hinput, h⟩ := Attempt.andThen_eq_some_iff.mp h
  obtain ⟨dir₁, h₁, h⟩ := Attempt.andThen_eq_some_iff.mp h
  obtain ⟨dir₂, h₂, h₃⟩ := Attempt.andThen_eq_some_iff.mp h
  refine ⟨json, manifest, elf, input, hjson, Option.some.inj hmanifest, helf, hinput, ?_⟩
  rw [Dir.write_eq h₃, Dir.write_eq h₂, Dir.write_eq h₁]

/-- A store that has grown gives out what it gave out before. -/
theorem Store.fetch_grows {store' : Store}
    (hgrows : ∀ id data, store.get blake3 id = some data → store'.get blake3 id = some data)
    {s : String} {data : List U8} (h : store.fetch blake3 s = some (some data)) :
    store'.fetch blake3 s = some (some data) := by
  unfold Store.fetch at h ⊢
  rcases hid : ContentId.fromHex s with _ | e | id
  · rw [hid] at h
    cases h
  · rw [hid] at h
    cases h
  · rw [hid] at h
    exact congrArg some (hgrows id data (Option.some.inj h))

/-- The id of the job does not matter, nor what else the store holds. -/
theorem materialize_grows {store' : Store}
    (hgrows : ∀ id data, store.get blake3 id = some data → store'.get blake3 id = some data)
    {dir : Dir} (h : materialize blake3 readManifest takes desc store = some (some dir))
    (jobId : String) :
    materialize blake3 readManifest takes { desc with jobId } store' = some (some dir) := by
  obtain ⟨json, hjson, h⟩ := Attempt.andThen_eq_some_iff.mp h
  obtain ⟨manifest, hmanifest, h⟩ := Attempt.andThen_eq_some_iff.mp h
  split at h
  · cases h
  next hnames =>
  obtain ⟨elf, helf, h⟩ := Attempt.andThen_eq_some_iff.mp h
  obtain ⟨input, hinput, h⟩ := Attempt.andThen_eq_some_iff.mp h
  rw [materialize, Store.fetch_grows hgrows hjson, Attempt.andThen_returned, hmanifest,
    Attempt.andThen_returned, if_neg hnames, Store.fetch_grows hgrows helf,
    Attempt.andThen_returned, Store.fetch_grows hgrows hinput, Attempt.andThen_returned]
  exact h

/-- Under one name there is one file, so only one id. -/
theorem Dir.hasId_iff {dir : Dir} {name idHex s : String} {bytes : List U8}
    (h : dir name = some bytes) (hs : ContentId.fromHex s = some (.ok (blake3 bytes))) :
    dir.HasId blake3 name idHex ↔ ContentId.fromHex idHex = ContentId.fromHex s := by
  rw [hs]
  constructor
  · rintro ⟨bytes', h', hid⟩
    rw [hid, Option.some.inj (h'.symm.trans h)]
  · exact fun hid => ⟨bytes, h, hid⟩

/-- The ids of the files in a rebuilt directory: the last write to a name is the one
that stays. -/
structure Dir.Rebuilt (blake3 : List U8 → Hash) (desc : JobDescriptor) (dir : Dir)
    (manifest : JobManifest) : Prop where
  input {idHex : String} :
    dir.HasId blake3 manifest.input idHex ↔ ContentId.fromHex idHex = ContentId.fromHex desc.input
  elf {idHex : String} : manifest.elf ≠ manifest.input →
    (dir.HasId blake3 manifest.elf idHex ↔ ContentId.fromHex idHex = ContentId.fromHex desc.elf)
  jobJson {idHex : String} : manifest.elf ≠ "job.json" → manifest.input ≠ "job.json" →
    (dir.HasId blake3 "job.json" idHex ↔ ContentId.fromHex idHex = ContentId.fromHex desc.manifest)

theorem materialize_rebuilt {dir : Dir}
    (h : materialize blake3 readManifest takes desc store = some (some dir)) :
    ∃ manifest, publishedManifest blake3 readManifest desc store = some (some manifest) ∧
      dir.Rebuilt blake3 desc manifest := by
  obtain ⟨json, manifest, elf, input, hjson, hmanifest, helf, hinput, hdir⟩ := materialize_some h
  refine ⟨manifest, ?_, ⟨?_, fun hne => ?_, fun hne hne' => ?_⟩⟩
  · rw [publishedManifest, hjson]
    exact congrArg some hmanifest
  · refine Dir.hasId_iff ?_ (Store.fetch_id hinput)
    rw [hdir, Function.update_self]
  · refine Dir.hasId_iff ?_ (Store.fetch_id helf)
    rw [hdir, Function.update_of_ne hne, Function.update_self]
  · refine Dir.hasId_iff ?_ (Store.fetch_id hjson)
    rw [hdir, Function.update_of_ne hne'.symm, Function.update_of_ne hne.symm, Function.update_self]

theorem Dir.Rebuilt.sharedAlike {dir : Dir} {manifest : JobManifest}
    (h : dir.Rebuilt blake3 desc manifest) (hpublished : dir.Published blake3 desc manifest) :
    SharedAlike desc manifest := by
  obtain ⟨hm, he, -⟩ := hpublished
  have hinputManifest : manifest.input = "job.json" →
      ContentId.fromHex desc.input = ContentId.fromHex desc.manifest := by
    intro hname
    rw [← hname] at hm
    exact (h.input.mp hm).symm
  have helfInput : manifest.elf = manifest.input →
      ContentId.fromHex desc.elf = ContentId.fromHex desc.input := by
    intro hname
    rw [hname] at he
    exact h.input.mp he
  refine ⟨helfInput, fun hname => ?_, hinputManifest⟩
  by_cases hsame : manifest.elf = manifest.input
  · exact (helfInput hsame).trans (hinputManifest (hsame ▸ hname))
  · rw [← hname] at hm
    exact ((h.elf hsame).mp hm).symm

theorem Dir.Rebuilt.published {dir : Dir} {manifest : JobManifest}
    (h : dir.Rebuilt blake3 desc manifest) (hshared : SharedAlike desc manifest) :
    dir.Published blake3 desc manifest := by
  refine ⟨?_, ?_, h.input.mpr rfl⟩
  · by_cases hi : manifest.input = "job.json"
    · rw [← hi]
      exact h.input.mpr (hshared.inputManifest hi).symm
    · by_cases he : manifest.elf = "job.json"
      · rw [← he]
        exact (h.elf fun hs => hi (hs ▸ he)).mpr (hshared.elfManifest he).symm
      · exact (h.jobJson he hi).mpr rfl
  · by_cases hs : manifest.elf = manifest.input
    · rw [hs]
      exact h.input.mpr (hshared.elfInput hs)
    · exact (h.elf hs).mpr rfl

/-- A directory that was materialized is the published job exactly if the files
whose names coincide are the same blob. -/
theorem materialize_published_iff {dir : Dir}
    (h : materialize blake3 readManifest takes desc store = some (some dir)) :
    ∃ manifest, publishedManifest blake3 readManifest desc store = some (some manifest) ∧
      (dir.Published blake3 desc manifest ↔ SharedAlike desc manifest) := by
  obtain ⟨manifest, hmanifest, hrebuilt⟩ := materialize_rebuilt h
  exact ⟨manifest, hmanifest, hrebuilt.sharedAlike, hrebuilt.published⟩

end

/-- A hash that only looks at the length. -/
def sizeId (bytes : List U8) : Hash := fun i => if i.val = 0 then BitVec.ofNat 8 bytes.length else 0

/-- The manifest of a job whose files have these names. -/
def namingManifest (elf input : String) : JobManifest :=
  { schema := 1, id := "job-1", isa := "rv64imc", format := none, chunkSize := 1
    maxInstructions := 10, elf, input }

/-- Manifest, program and input of one, two and no bytes. -/
def sizedStore : Store := [[1], [2, 3], []].foldl (Store.put sizeId) fun _ => none

def sizedDescriptor : JobDescriptor :=
  { jobId := "job-1", manifest := hex (List.ofFn (sizeId [1])),
    elf := hex (List.ofFn (sizeId [2, 3]))
    input := hex (List.ofFn (sizeId [])) }

/-- Every blob of the job is found under its id. -/
theorem fetch_sizedStore {data : List U8} (h : data ∈ [[1], [2, 3], []]) :
    sizedStore.fetch sizeId (hex (List.ofFn (sizeId data))) = some (some data) := by
  have hget : ∀ data ∈ [[1], [2, 3], []], sizedStore.get sizeId (sizeId data) = some data := by
    decide +kernel
  exact Store.fetch_hex (hget data h)

/-- The job with these names is rebuilt, whatever they are; the input is written last. -/
theorem materialize_sized (elf input : String) (helf : confinedName elf = true)
    (hinput : confinedName input = true) :
    ∃ dir, materialize sizeId (fun _ => some (namingManifest elf input)) (fun _ => true)
      sizedDescriptor
        sizedStore = some (some dir) ∧ dir input = some [] ∧
      publishedManifest sizeId (fun _ => some (namingManifest elf input)) sizedDescriptor sizedStore
        = some (some (namingManifest elf input)) := by
  have hjson : sizedStore.fetch sizeId sizedDescriptor.manifest = some (some [1]) :=
    fetch_sizedStore (by decide)
  have hbytes : sizedStore.fetch sizeId sizedDescriptor.elf = some (some [2, 3]) :=
    fetch_sizedStore (by decide)
  have hempty : sizedStore.fetch sizeId sizedDescriptor.input = some (some []) :=
    fetch_sizedStore (by decide)
  refine ⟨Function.update (Function.update (Function.update (fun _ => none) "job.json" (some [1]))
    elf (some [2, 3])) input (some []), ?_, Function.update_self _ _ _, ?_⟩
  · simp [materialize, hjson, hbytes, hempty, namingManifest, helf, hinput, Dir.write]
  · rw [publishedManifest, hjson]
    rfl

theorem materialize_published_apart :
    ∃ dir, materialize sizeId (fun _ => some (namingManifest "program.elf" "input.bin"))
        (fun _ => true) sizedDescriptor sizedStore = some (some dir) ∧
      dir.Published sizeId sizedDescriptor (namingManifest "program.elf" "input.bin") := by
  obtain ⟨dir, hdir, -, hpublished⟩ :=
    materialize_sized "program.elf" "input.bin" (by decide) (by decide)
  obtain ⟨manifest, hmanifest, hiff⟩ := materialize_published_iff hdir
  have hnames := Option.some.inj (Option.some.inj (hmanifest.symm.trans hpublished))
  rw [hnames] at hiff
  refine ⟨dir, hdir, hiff.mpr ⟨?_, ?_, ?_⟩⟩
  · exact fun h => absurd h (by decide)
  · exact fun h => absurd h (by decide)
  · exact fun h => absurd h (by decide)

/-- A manifest that names one file for program and input: the input's bytes stand
where the program should. -/
theorem materialize_overwrites_elf :
    ∃ dir, materialize sizeId (fun _ => some (namingManifest "job.bin" "job.bin"))
        (fun _ => true) sizedDescriptor sizedStore = some (some dir) ∧
      publishedManifest sizeId (fun _ => some (namingManifest "job.bin" "job.bin")) sizedDescriptor
        sizedStore = some (some (namingManifest "job.bin" "job.bin")) ∧
      dir "job.bin" = some [] ∧
      ¬ dir.Published sizeId sizedDescriptor (namingManifest "job.bin" "job.bin") := by
  obtain ⟨dir, hdir, hfile, hmanifest⟩ :=
    materialize_sized "job.bin" "job.bin" (by decide) (by decide)
  refine ⟨dir, hdir, hmanifest, hfile, fun hpublished => ?_⟩
  obtain ⟨bytes, hbytes, hid⟩ := hpublished.elf
  rw [Option.some.inj (hbytes.symm.trans hfile), sizedDescriptor, ContentId.fromHex_hex] at hid
  have hids : sizeId [2, 3] = sizeId [] := Except.ok.inj (Option.some.inj hid)
  exact absurd (congrFun hids 0) (by decide)

end Provework.Contentstore
