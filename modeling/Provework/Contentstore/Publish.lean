import Provework.Contentstore.Put
import Provework.Worker.Daemon

/-!
# Publishing a job and rebuilding it (`publish`, `materialize`, `load_dir`)

`publish` stores the three files of a job directory and returns a descriptor with
their hashes; `materialize` makes a directory of a descriptor and a store, anywhere.
The descriptor is all that travels, so `publish_round_trip` has two halves. Whatever
store a job is rebuilt from, `load_dir` finds in the new directory the job it finds in
the publisher's. And from the publisher's own store it can be rebuilt, if the store was
sound and the manifest names plain files, which `publish` does not check.

A manifest may name one file twice. `materialize` overwrites then, but what it writes
was read from one file in the first place, so nothing is lost.
-/

namespace Provework.Contentstore

open Provework.Lib Provework.Jobfmt Provework.Worker

/-- How the calls of `publish` go, on a disk that may fail. -/
structure PublishHost where
  readError : String
  parseError : String
  manifestPut : PutHost
  elfPut : PutHost
  inputPut : PutHost

section

variable (blake3 : List U8 → Hash) (readManifest : List U8 → Option JobManifest)

/-- The three puts, and the descriptor if none fails. -/
def putFiles (host : PublishHost) (blobs : BlobDir) (jobId : String) (json elf input : List U8) :
    Except String JobDescriptor × BlobDir :=
  match blobs.put blake3 host.manifestPut json with
  | (.error e, blobs) => (.error e, blobs)
  | (.ok manifestId, blobs) =>
    match blobs.put blake3 host.elfPut elf with
    | (.error e, blobs) => (.error e, blobs)
    | (.ok elfId, blobs) =>
      match blobs.put blake3 host.inputPut input with
      | (.error e, blobs) => (.error e, blobs)
      | (.ok inputId, blobs) =>
        (.ok { jobId
               manifest := hex (List.ofFn manifestId)
               elf := hex (List.ofFn elfId)
               input := hex (List.ofFn inputId) }, blobs)

def publish (host : PublishHost) (job : Dir) (blobs : BlobDir) :
    Except String JobDescriptor × BlobDir :=
  match job "job.json" with
  | none => (.error ("publish: " ++ host.readError), blobs)
  | some json =>
    match readManifest json with
    | none => (.error ("publish: " ++ host.parseError), blobs)
    | some manifest =>
      match job manifest.elf with
      | none => (.error ("publish: " ++ host.readError), blobs)
      | some elf =>
        match job manifest.input with
        | none => (.error ("publish: " ++ host.readError), blobs)
        | some input => putFiles blake3 host blobs manifest.id json elf input

/-- The files a directory is published from. -/
structure JobFiles (job : Dir) where
  json : List U8
  manifest : JobManifest
  elf : List U8
  input : List U8
  hjson : job "job.json" = some json
  hmanifest : readManifest json = some manifest
  helf : job manifest.elf = some elf
  hinput : job manifest.input = some input

end

section

variable {blake3 : List U8 → Hash} {readManifest : List U8 → Option JobManifest} {job : Dir}

def JobFiles.descriptor (files : JobFiles readManifest job) (blake3 : List U8 → Hash) :
    JobDescriptor where
  jobId := files.manifest.id
  manifest := hex (List.ofFn (blake3 files.json))
  elf := hex (List.ofFn (blake3 files.elf))
  input := hex (List.ofFn (blake3 files.input))

/-- The directory a job is rebuilt as. -/
def JobFiles.rebuilt (files : JobFiles readManifest job) : Dir :=
  Function.update (Function.update (Function.update (fun _ => none) "job.json" (some files.json))
    files.manifest.elf (some files.elf)) files.manifest.input (some files.input)

/-! ## The descriptor -/

/-- What is in a sound directory stays, and what a put reports is in it. -/
theorem BlobDir.Sound.put {blobs blobs' : BlobDir} (h : blobs.Sound blake3) {host : PutHost}
    {data : List U8} {id : ContentId} (hput : blobs.put blake3 host data = (.ok id, blobs')) :
    blobs'.Sound blake3 ∧ blobs'.has id = true ∧ ∀ id', blobs.has id' = true →
    blobs'.has id' = true := by
  obtain ⟨-, ⟨hhas, rfl⟩ | ⟨hnone, bytes, hbytes, rfl⟩⟩ := put_ok hput
  · exact ⟨h, hhas, fun _ hid => hid⟩
  · refine ⟨?_, by rw [BlobDir.has, Function.update_self]; rfl, fun id' hid' => ?_⟩
    · intro id' entry hentry
      by_cases hid : id' = id
      · subst hid
        rw [Function.update_self] at hentry
        exact ⟨bytes, (Option.some.inj hentry).symm, hbytes⟩
      · rw [Function.update_of_ne hid] at hentry
        exact h id' entry hentry
    · by_cases hid : id' = id
      · subst hid
        rw [BlobDir.has, Function.update_self]
        rfl
      · rw [BlobDir.has, Function.update_of_ne hid]
        exact hid'

theorem putFiles_ok {host : PublishHost} {blobs blobs' : BlobDir}
    {files : JobFiles readManifest job} {desc : JobDescriptor}
    (h : putFiles blake3 host blobs files.manifest.id files.json files.elf files.input
      = (.ok desc, blobs')) :
    desc = files.descriptor blake3 ∧ (blobs.Sound blake3 → blobs'.Sound blake3 ∧
      ∀ data ∈ [files.json, files.elf, files.input], blobs'.has (blake3 data) = true) := by
  unfold putFiles at h
  split at h
  · cases h
  next m blobs₁ hm =>
    split at h
    · cases h
    next e blobs₂ he =>
      split at h
      · cases h
      next i blobs₃ hi =>
        cases h
        obtain ⟨rfl, -⟩ := put_ok hm
        obtain ⟨rfl, -⟩ := put_ok he
        obtain ⟨rfl, -⟩ := put_ok hi
        refine ⟨rfl, fun hsound => ?_⟩
        obtain ⟨hsound₁, hjson, -⟩ := hsound.put hm
        obtain ⟨hsound₂, helf, hkept₂⟩ := hsound₁.put he
        obtain ⟨hsound₃, hinput, hkept₃⟩ := hsound₂.put hi
        refine ⟨hsound₃, ?_⟩
        simp only [List.forall_mem_cons]
        exact ⟨hkept₃ _ (hkept₂ _ hjson), hkept₃ _ helf, hinput, List.forall_mem_nil _⟩

/-- A descriptor that was published has the hashes of the files, whatever the store
held before. -/
theorem publish_ok {host : PublishHost} {blobs blobs' : BlobDir} {desc : JobDescriptor}
    (h : publish blake3 readManifest host job blobs = (.ok desc, blobs')) :
    ∃ files : JobFiles readManifest job, desc = files.descriptor blake3 ∧
      (blobs.Sound blake3 → blobs'.Sound blake3 ∧
        ∀ data ∈ [files.json, files.elf, files.input], blobs'.has (blake3 data) = true) := by
  unfold publish at h
  split at h
  · cases h
  next json hjson =>
    split at h
    · cases h
    next manifest hmanifest =>
      split at h
      · cases h
      next elf helf =>
        split at h
        · cases h
        next input hinput =>
          let files : JobFiles readManifest job :=
            ⟨json, manifest, elf, input, hjson, hmanifest, helf, hinput⟩
          have hput : putFiles blake3 host blobs files.manifest.id files.json files.elf files.input
            = (.ok desc, blobs') := h
          exact ⟨files, putFiles_ok hput⟩

/-! ## The directory -/

/-- No blob of the store collides with a file of the job. -/
def Distinct (blake3 : List U8 → Hash) (job : Dir) (store : Store) : Prop :=
  ∀ name data bytes, job name = some data → store (blake3 data) = some bytes →
    blake3 bytes = blake3 data →
    bytes = data

/-- Under the hash of a file nothing else is found. -/
theorem Distinct.fetch {store : Store} (h : Distinct blake3 job store) {name : String}
    {data bytes : List U8} (hdata : job name = some data)
    (hbytes : store.fetch blake3 (hex (List.ofFn (blake3 data))) = some (some bytes)) :
    bytes = data := by
  rw [Store.fetch, ContentId.fromHex_hex] at hbytes
  obtain ⟨hstored, hhash⟩ := Option.filter_eq_some_iff.mp (Option.some.inj hbytes)
  exact h name data bytes hdata hstored (of_decide_eq_true hhash)

/-- Whatever is rebuilt is the publisher's files. -/
theorem JobFiles.materialize (files : JobFiles readManifest job) {store : Store}
    (hdistinct : Distinct blake3 job store) {takes : String → Bool} {dir : Dir}
    (h : materialize blake3 readManifest takes (files.descriptor blake3) store = some (some dir)) :
    dir = files.rebuilt := by
  obtain ⟨json, manifest, elf, input, hjson, hmanifest, helf, hinput, rfl⟩ := materialize_some h
  obtain rfl := hdistinct.fetch files.hjson hjson
  obtain rfl := hdistinct.fetch files.helf helf
  obtain rfl := hdistinct.fetch files.hinput hinput
  obtain rfl := Option.some.inj (files.hmanifest.symm.trans hmanifest)
  rfl

theorem JobFiles.rebuilt_eq (files : JobFiles readManifest job) :
    ∀ name ∈ ["job.json", files.manifest.elf, files.manifest.input],
    files.rebuilt name = job name := by
  -- where two names coincide, both were read from one file
  have hall : ∀ name, files.rebuilt name = none ∨ files.rebuilt name = job name := by
    intro name
    unfold JobFiles.rebuilt
    by_cases hi : name = files.manifest.input
    · subst hi
      rw [Function.update_self, files.hinput]
      exact .inr rfl
    · rw [Function.update_of_ne hi]
      by_cases he : name = files.manifest.elf
      · subst he
        rw [Function.update_self, files.helf]
        exact .inr rfl
      · rw [Function.update_of_ne he]
        by_cases hj : name = "job.json"
        · subst hj
          rw [Function.update_self, files.hjson]
          exact .inr rfl
        · rw [Function.update_of_ne hj]
          exact .inl rfl
  -- and what was written stays, under whatever content
  have hstays : ∀ (dir : Dir) (name other : String) (bytes : List U8), dir other ≠ none →
      Function.update dir name (some bytes) other ≠ none := by
    intro dir name other bytes h
    by_cases hname : other = name
    · rw [hname, Function.update_self]
      exact Option.some_ne_none bytes
    · rwa [Function.update_of_ne hname]
  have hwritten : ∀ (dir : Dir) (name : String) (bytes : List U8),
      Function.update dir name (some bytes) name ≠ none := by
    intro dir name bytes
    rw [Function.update_self]
    exact Option.some_ne_none bytes
  simp only [List.forall_mem_cons]
  exact ⟨(hall _).resolve_left (hstays _ _ _ _ (hstays _ _ _ _ (hwritten _ _ _))),
    (hall _).resolve_left (hstays _ _ _ _ (hwritten _ _ _)), (hall _).resolve_left (hwritten _ _ _),
    List.forall_mem_nil _⟩

/-- `load_dir` reads three files. -/
theorem loadDir_congr {dir : Dir} (files : JobFiles readManifest job)
    (h : ∀ name ∈ ["job.json", files.manifest.elf, files.manifest.input], dir name = job name) :
    loadDir readManifest dir = loadDir readManifest job := by
  simp only [List.forall_mem_cons] at h
  obtain ⟨hjson, helf, hinput, -⟩ := h
  simp only [loadDir, hjson, files.hjson, files.hmanifest, helf, hinput, bind, Option.bind_some]

/-! ## The store -/

/-- A sound directory gives out what it has. -/
theorem BlobDir.Sound.fetch {blobs : BlobDir} (h : blobs.Sound blake3) {id : ContentId}
    (hid : blobs.has id = true) :
    ∃ bytes, blobs.files.fetch blake3 (hex (List.ofFn id)) = some (some bytes) := by
  obtain ⟨entry, hentry⟩ := Option.isSome_iff_exists.mp hid
  obtain ⟨bytes, rfl, hbytes⟩ := h id entry hentry
  refine ⟨bytes, Store.fetch_hex (Option.filter_eq_some_iff.mpr ⟨?_, decide_eq_true hbytes⟩)⟩
  rw [BlobDir.files, hentry]

/-- A store that has the files gives them out, and the job can be rebuilt. -/
theorem JobFiles.rebuilds (files : JobFiles readManifest job) {store : Store}
    (hstore : ∀ data ∈ [files.json, files.elf, files.input],
      store.fetch blake3 (hex (List.ofFn (blake3 data))) = some (some data))
    {takes : String → Bool}
    (htakes : ∀ name ∈ ["job.json", files.manifest.elf, files.manifest.input], takes name = true)
    (hnames : confinedName files.manifest.elf = true ∧ confinedName files.manifest.input = true) :
    Contentstore.materialize blake3 readManifest takes (files.descriptor blake3) store
      = some (some files.rebuilt) := by
  simp only [List.forall_mem_cons] at hstore htakes
  obtain ⟨hjson, helf, hinput, -⟩ := hstore
  obtain ⟨htjson, htelf, htinput, -⟩ := htakes
  have hconfined : ¬(!confinedName files.manifest.elf || !confinedName files.manifest.input)
      = true := by
    simp [hnames]
  rw [Contentstore.materialize, JobFiles.descriptor, hjson, Attempt.andThen_returned,
    files.hmanifest, Attempt.andThen_returned, if_neg hconfined, helf, Attempt.andThen_returned,
    hinput, Attempt.andThen_returned, Dir.write, if_pos htjson, Attempt.andThen_returned, Dir.write,
    if_pos htelf, Attempt.andThen_returned, Dir.write, if_pos htinput]
  rfl

end

/-- **A published job is one job everywhere.** Whatever store it is rebuilt from, on
whatever file system: if that succeeds and no hashes collide, `load_dir` finds in the
new directory what it finds in the publisher's. And from the publisher's store it is
rebuilt, if that was sound before and the names are plain ones the file system takes. -/
theorem publish_round_trip (blake3 : List U8 → Hash) (readManifest : List U8 → Option JobManifest)
    (host : PublishHost) (job : Dir) (blobs blobs' : BlobDir) (desc : JobDescriptor)
    (hpublish : publish blake3 readManifest host job blobs = (.ok desc, blobs')) :
    (∀ store takes dir, Distinct blake3 job store →
      materialize blake3 readManifest takes desc store = some (some dir) →
      loadDir readManifest dir = loadDir readManifest job) ∧
    ∃ manifest, (job "job.json").bind readManifest = some manifest ∧ manifest.id = desc.jobId ∧
      ∀ takes, blobs.Sound blake3 → Distinct blake3 job blobs'.files →
        (∀ name ∈ ["job.json", manifest.elf, manifest.input], takes name = true) →
        confinedName manifest.elf = true ∧ confinedName manifest.input = true →
        ∃ dir, materialize blake3 readManifest takes desc blobs'.files = some (some dir) := by
  obtain ⟨files, rfl, hstored⟩ := publish_ok hpublish
  refine ⟨fun store takes dir hdistinct hdir => ?_, files.manifest, ?_, rfl, ?_⟩
  · obtain rfl := files.materialize hdistinct hdir
    exact loadDir_congr files files.rebuilt_eq
  · rw [files.hjson]
    exact files.hmanifest
  · intro takes hsound hdistinct htakes hnames
    obtain ⟨hsound', hhas⟩ := hstored hsound
    -- what lies under the hash of a file is the file
    have hfetch : ∀ name data, job name = some data → blobs'.has (blake3 data) = true →
        blobs'.files.fetch blake3 (hex (List.ofFn (blake3 data))) = some (some data) := by
      intro name data hdata hid
      obtain ⟨bytes, hbytes⟩ := hsound'.fetch hid
      rwa [hdistinct.fetch hdata hbytes] at hbytes
    refine ⟨_, files.rebuilds ?_ htakes hnames⟩
    simp only [List.forall_mem_cons] at hhas ⊢
    exact ⟨hfetch _ _ files.hjson hhas.1, hfetch _ _ files.helf hhas.2.1,
      hfetch _ _ files.hinput hhas.2.2.1, List.forall_mem_nil _⟩

/-- A disk on which `data` is written as it should be. -/
def soundPut (data : List U8) : PutHost := ⟨.ok (), .ok (), some (.file data), false, ""⟩

/-- Manifest, program and input of one, two and no bytes. -/
def sizedJob : Dir := fun name =>
  if name = "job.json" then some [1]
  else if name = "program.elf" then some [2, 3]
  else if name = "input.bin" then some []
  else none

def sizedHost : PublishHost := ⟨"", "", soundPut [1], soundPut [2, 3], soundPut []⟩

/-- The publisher's store afterwards, and the descriptor. -/
def sizedPublish : Except String JobDescriptor × BlobDir :=
  publish sizeId (fun _ => some (namingManifest "program.elf" "input.bin")) sizedHost sizedJob
    fun _ => none

theorem sizedPublish_files : sizedPublish.2.files = sizedStore := by
  have hempty : BlobDir.files (fun _ => none) = fun _ => none := rfl
  let first := BlobDir.put sizeId (soundPut [1]) (fun _ => none) [1]
  let second := first.2.put sizeId (soundPut [2, 3]) [2, 3]
  have hfree : first.2 (sizeId [2, 3]) = none := by decide +kernel
  have hfree' : second.2 (sizeId []) = none := by decide +kernel
  have hpublish : sizedPublish.2 = (second.2.put sizeId (soundPut []) []).2 := rfl
  rw [hpublish, put_files rfl rfl (by rw [hfree']; nofun), put_files rfl rfl (by rw [hfree]; nofun),
    put_files rfl rfl (Option.some_ne_none _).symm, hempty]
  rfl

theorem sized_distinct : Distinct sizeId sizedJob sizedStore := by
  have hstored : ∀ data ∈ [[1], [2, 3], []], sizedStore (sizeId data) = some data := by
    decide +kernel
  intro name data bytes hdata hbytes _
  have hmem : data ∈ [[1], [2, 3], []] := by
    unfold sizedJob at hdata
    split_ifs at hdata <;> cases hdata <;> decide
  exact Option.some.inj (hbytes.symm.trans (hstored data hmem))

theorem publish_round_trip_sized :
    sizedPublish.1 = .ok sizedDescriptor ∧ ∃ dir,
      materialize sizeId (fun _ => some (namingManifest "program.elf" "input.bin")) (fun _ => true)
        sizedDescriptor
        sizedPublish.2.files = some (some dir) ∧
      loadDir (fun _ => some (namingManifest "program.elf" "input.bin")) dir =
        some ⟨namingManifest "program.elf" "input.bin", [2, 3], []⟩ := by
  have hdesc : sizedPublish.1 = .ok sizedDescriptor := rfl
  obtain ⟨hsafe, manifest, hmanifest, -, hrebuilds⟩ := publish_round_trip sizeId
    (fun _ => some (namingManifest "program.elf" "input.bin")) sizedHost sizedJob (fun _ => none)
      sizedPublish.2
    sizedDescriptor (Prod.ext hdesc rfl)
  obtain rfl := Option.some.inj hmanifest
  have hdistinct : Distinct sizeId sizedJob sizedPublish.2.files :=
    sizedPublish_files ▸ sized_distinct
  obtain ⟨dir, hdir⟩ :=
    hrebuilds (fun _ => true) (fun _ _ h => nomatch h) hdistinct (fun _ _ => rfl) (by decide)
  exact ⟨hdesc, dir, hdir, (hsafe _ _ dir hdistinct hdir).trans rfl⟩

end Provework.Contentstore
