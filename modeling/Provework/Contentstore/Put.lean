import Provework.Contentstore
import Provework.Lib.History

/-!
# `Store::put` and the disk

`Store.put` is what a put does on a disk that works. Here the disk may fail at
every call `put` makes: the directory is not created, the write ends early and
leaves something behind, the file cannot be read back, the program is killed in
between. A put that finds a file under the blob's name reports success without
looking into it, so what a failed one left there is taken for the blob by every
later put (`put_get_iff`). The blobs a directory was sound about stay, though
(`get_run`), and it stays sound for as long as no write leaves a wrong file
(`sound_run_iff`).

Modelling notes:
- Whether something is at a path can always be told.
- A read gives the whole file or fails.
-/

namespace Provework.Contentstore

open Provework.Lib Provework.Jobfmt

/-- What stands at a path. -/
inductive Entry where
  | file (bytes : List U8)
  /-- A directory, or a file that may not be read. -/
  | unreadable
  deriving DecidableEq

/-- The directory of the blobs, by `blob_path`. -/
abbrev BlobDir := ContentId → Option Entry

/-- How the calls of one put go. -/
structure PutHost where
  /-- `create_dir_all`. -/
  parent : Except String Unit
  written : Except String Unit
  /-- What the write leaves at the path, whether it fails or not. -/
  left : Option Entry
  /-- The read fails although the file is there. -/
  readFails : Bool
  readError : String

namespace BlobDir

variable (blake3 : List U8 → Hash)

def has (dir : BlobDir) (id : ContentId) : Bool := (dir id).isSome

/-- The blob, if it can be read and hashes to its name. -/
def get (dir : BlobDir) (readError : String) (id : ContentId) : Except String (List U8) :=
  match dir id with
  | some (.file data) =>
    if blake3 data ≠ id then
      .error s!"store: blob {hex (List.ofFn id)} failed integrity check (corrupted or tampered)"
    else .ok data
  | _ => .error ("store: " ++ readError)

/-- Write, then verify what was written. A failure leaves the file behind. -/
def put (host : PutHost) (dir : BlobDir) (data : List U8) : Except String ContentId × BlobDir :=
  let id := blake3 data
  if dir.has id then (.ok id, dir)
  else
    match host.parent with
    | .error e => (.error ("store: " ++ e), dir)
    | .ok () =>
      let dir : BlobDir := Function.update dir id host.left
      match host.written with
      | .error e => (.error ("store: " ++ e), dir)
      | .ok () =>
        match host.left with
        | some (.file readBack) =>
          if host.readFails then (.error ("store: " ++ host.readError), dir)
          else if blake3 readBack ≠ id then
            (.error "store: written blob failed self-verification", dir)
          else (.ok id, dir)
        | _ => (.error ("store: " ++ host.readError), dir)

/-- What reading the files gives. -/
def files (dir : BlobDir) : Store := fun id =>
  match dir id with
  | some (.file data) => some data
  | _ => none

/-- The entry is a file that has the id as its hash. -/
def Holds (id : ContentId) (entry : Entry) : Prop :=
  ∃ bytes, entry = .file bytes ∧ blake3 bytes = id

/-- Nothing but blobs that hash to their names. -/
def Sound (dir : BlobDir) : Prop := ∀ id entry, dir id = some entry → Holds blake3 id entry

end BlobDir

/-- Every blob hashes to its name. -/
def Store.Intact (blake3 : List U8 → Hash) (store : Store) : Prop :=
  ∀ id data, store id = some data → blake3 data = id

open BlobDir

section

variable {blake3 : List U8 → Hash} {dir dir' : BlobDir} {host : PutHost} {data : List U8}
  {id : ContentId}
  {readError : String}

theorem get_eq_ok_iff : dir.get blake3 readError id = .ok data ↔
    dir id = some (.file data) ∧ blake3 data = id := by
  unfold BlobDir.get
  split
  next bytes hfile =>
    rw [hfile, except_guard_ok, not_not, Option.some_inj, Entry.file.injEq]
    exact and_congr_right fun heq => by rw [heq]
  next hno => exact iff_of_false (fun h => by cases h) fun h => hno data h.1

/-- A put that succeeds found something under the name, or has written a file that
hashes to it. -/
theorem put_ok (h : dir.put blake3 host data = (.ok id, dir')) :
    id = blake3 data ∧
      (dir.has id = true ∧ dir' = dir ∨
        dir id = none ∧ ∃ bytes, blake3 bytes = id ∧
          dir' = Function.update dir id (some (.file bytes))) := by
  unfold BlobDir.put at h
  dsimp only at h
  split at h
  next hhas =>
    obtain ⟨⟨⟩, rfl⟩ := Prod.mk.inj h
    exact ⟨rfl, .inl ⟨hhas, rfl⟩⟩
  next hhas =>
    have hnone : dir (blake3 data) = none := by simpa [BlobDir.has] using hhas
    split at h
    · cases (Prod.mk.inj h).1
    · split at h
      · cases (Prod.mk.inj h).1
      · split at h
        next bytes hleft =>
          split at h
          · cases (Prod.mk.inj h).1
          · split at h
            · cases (Prod.mk.inj h).1
            next hid =>
              obtain ⟨⟨⟩, rfl⟩ := Prod.mk.inj h
              exact ⟨rfl, .inr ⟨hnone, bytes, not_not.mp hid, by rw [hleft]⟩⟩
        · cases (Prod.mk.inj h).1

/-- Whatever a put returns, the file is there as soon as the write has begun. -/
theorem put_snd : (dir.put blake3 host data).2 =
    if dir.has (blake3 data) || !host.parent.isOk then dir
    else Function.update dir (blake3 data) host.left := by
  unfold BlobDir.put
  dsimp only
  cases dir.has (blake3 data) with
  | true => rfl
  | false =>
    cases host.parent with
    | error e => rfl
    | ok u =>
      simp only [Bool.false_eq_true, if_false, Bool.false_or, Except.isOk, Except.toBool,
        Bool.not_true]
      cases host.written with
      | error e => rfl
      | ok u =>
        rcases host.left with _ | bytes | _
        · rfl
        · dsimp only
          split
          · rfl
          · split <;> rfl
        · rfl

/-- On a disk that works the two levels store alike. -/
theorem put_files (hparent : host.parent = .ok ()) (hleft : host.left = some (.file data))
    (hreadable : dir (blake3 data) ≠ some .unreadable) :
    (dir.put blake3 host data).2.files = dir.files.put blake3 data := by
  rw [put_snd, hparent, hleft]
  unfold Store.put BlobDir.has
  cases hentry : dir (blake3 data) with
  | none =>
    have hfiles : dir.files (blake3 data) = none := by simp only [BlobDir.files, hentry]
    rw [hfiles]
    funext id
    by_cases hid : id = blake3 data
    · rw [hid]
      simp [BlobDir.files, Except.isOk, Except.toBool]
    · simp [BlobDir.files, Except.isOk, Except.toBool, Function.update_of_ne hid]
  | some entry =>
    cases entry with
    | file bytes =>
      have hfiles : dir.files (blake3 data) = some bytes := by simp only [BlobDir.files, hentry]
      rw [hfiles]
      rfl
    | unreadable => exact absurd hentry hreadable

end

/-- What is stored was put there. -/
theorem put_origin (blake3 : List U8 → Hash) : ∀ (blobs : List (List U8)) (store : Store)
    {id : ContentId} {data : List U8}, blobs.foldl (Store.put blake3) store id = some data →
      data ∈ blobs ∨ store id = some data := by
  intro blobs
  induction blobs with
  | nil => exact fun store id data h => .inr h
  | cons blob rest ih =>
    intro store id data h
    rcases ih (store.put blake3 blob) h with hrest | hput
    · exact .inl (List.mem_cons_of_mem _ hrest)
    · unfold Store.put at hput
      cases hold : store (blake3 blob) with
      | some old =>
        rw [hold] at hput
        exact .inr hput
      | none =>
        rw [hold] at hput
        have hupdate : Function.update store (blake3 blob) (some blob) id = some data := hput
        by_cases hid : id = blake3 blob
        · subst hid
          rw [Function.update_self] at hupdate
          exact .inl (Option.some.inj hupdate ▸ List.mem_cons_self)
        · rw [Function.update_of_ne hid] at hupdate
          exact .inr hupdate

/-- A put that returns `Ok` is followed by a get of the data exactly if nothing
stood under the blob's name before, or the blob itself did. -/
theorem put_get_iff (blake3 : List U8 → Hash) (dir dir' : BlobDir) (host : PutHost) (data : List U8)
    (hdata : ∀ bytes, blake3 bytes = blake3 data → bytes = data) (id : ContentId)
    (hput : dir.put blake3 host data = (.ok id, dir')) (readError : String) :
    id = blake3 data ∧
      (dir'.get blake3 readError id = .ok data ↔ dir id = none ∨ dir id = some (.file data)) := by
  obtain ⟨rfl, hcase⟩ := put_ok hput
  refine ⟨rfl, ?_⟩
  rw [get_eq_ok_iff, and_iff_left rfl]
  rcases hcase with ⟨hhas, rfl⟩ | ⟨hnone, bytes, hbytes, rfl⟩
  · have hsome : dir' (blake3 data) ≠ none := by
      rw [← Option.isSome_iff_ne_none]
      exact hhas
    rw [or_iff_right hsome]
  · rw [hdata bytes hbytes, Function.update_self]
    exact iff_of_true rfl (.inl hnone)

/-- A hash that tells `[1]` from everything else. -/
def flagId (bytes : List U8) : Hash := fun _ => if bytes = [1] then 1 else 0

theorem flagId_one (bytes : List U8) (h : flagId bytes = flagId [1]) : bytes = [1] := by
  simpa [flagId] using congrFun h 0

def workingHost : PutHost := ⟨.ok (), .ok (), some (.file [1]), false, ""⟩

/-- The write runs out of space after it has created the file. -/
def fullHost : PutHost := ⟨.ok (), .error "No space left on device", some (.file []), false, ""⟩

theorem put_get_working : ∃ dir' : BlobDir,
    BlobDir.put flagId workingHost (fun _ => none) [1] = (.ok (flagId [1]), dir') ∧
      dir'.get flagId "" (flagId [1]) = .ok [1] := by
  refine ⟨_, rfl, ?_⟩
  exact (put_get_iff flagId (fun _ => none) _ workingHost [1] flagId_one (flagId [1]) rfl "").2.mpr
    (.inl rfl)

/-- A failed put leaves an empty file; the next put of the same bytes returns `Ok`,
and the get after it fails. -/
theorem put_trusts_leftover : ∃ left : BlobDir,
    BlobDir.put flagId fullHost (fun _ => none) [1]
      = (.error "store: No space left on device", left) ∧
      left.put flagId workingHost [1] = (.ok (flagId [1]), left) ∧
      ∀ readError, left.get flagId readError (flagId [1]) ≠ .ok [1] := by
  refine ⟨Function.update (fun _ => none) (flagId [1]) (some (.file [])), rfl, ?_, ?_⟩
  · simp [BlobDir.put, BlobDir.has]
  · intro readError h
    rw [get_eq_ok_iff, Function.update_self] at h
    cases h.1

/-! ## Histories of puts -/

/-- What happens to the directory when nobody else writes into it. -/
inductive StoreAct where
  | put (data : List U8) (host : PutHost)
  /-- The program is killed in the write. -/
  | killed (data : List U8) (left : Option Entry)

def storeStep (blake3 : List U8 → Hash) (dir : BlobDir) : StoreAct → BlobDir
  | .put data host => (dir.put blake3 host data).2
  | .killed data left =>
    if dir.has (blake3 data) then dir else Function.update dir (blake3 data) left

/-- The name the act writes to, with what it leaves there. -/
def StoreAct.writes (blake3 : List U8 → Hash) (dir : BlobDir) :
    StoreAct → Option (ContentId × Option Entry)
  | .put data host =>
    if dir.has (blake3 data) || !host.parent.isOk then none else some (blake3 data, host.left)
  | .killed data left => if dir.has (blake3 data) then none else some (blake3 data, left)

/-- What the act leaves, if anything, is a blob under its name. -/
def StoreAct.Clean (blake3 : List U8 → Hash) (dir : BlobDir) (a : StoreAct) : Prop :=
  ∀ id entry, a.writes blake3 dir = some (id, some entry) → Holds blake3 id entry

section

variable {blake3 : List U8 → Hash} {dir : BlobDir} {a : StoreAct} {id : ContentId} {data : List U8}
  {readError : String}

/-- A step writes to a name that was free, or does nothing. -/
theorem storeStep_cases (blake3 : List U8 → Hash) (dir : BlobDir) (a : StoreAct) :
    (a.writes blake3 dir = none ∧ storeStep blake3 dir a = dir) ∨
      ∃ id left, a.writes blake3 dir = some (id, left) ∧ dir id = none ∧
        storeStep blake3 dir a = Function.update dir id left := by
  cases a with
  | put data host =>
    rw [storeStep, put_snd, StoreAct.writes]
    split
    · exact .inl ⟨rfl, rfl⟩
    next hfree =>
      refine .inr ⟨_, _, rfl, ?_, rfl⟩
      rw [Bool.or_eq_true, not_or] at hfree
      simpa [BlobDir.has] using hfree.1
  | killed data left =>
    rw [storeStep, StoreAct.writes]
    split
    · exact .inl ⟨rfl, rfl⟩
    next hfree => exact .inr ⟨_, _, rfl, by simpa [BlobDir.has] using hfree, rfl⟩

/-- A blob that can be read stays. -/
theorem get_step (h : dir.get blake3 readError id = .ok data) :
    (storeStep blake3 dir a).get blake3 readError id = .ok data := by
  rcases storeStep_cases blake3 dir a with ⟨-, hstep⟩ | ⟨id', left, -, hfree, hstep⟩
  · rwa [hstep]
  · rw [get_eq_ok_iff] at h ⊢
    have hne : id ≠ id' := by
      rintro rfl
      cases hfree.symm.trans h.1
    rwa [hstep, Function.update_of_ne hne]

theorem get_run (acts : List StoreAct) (h : dir.get blake3 readError id = .ok data) :
    (stateAfter (storeStep blake3) dir acts).get blake3 readError id = .ok data :=
  invariant_run (I := fun dir : BlobDir => dir.get blake3 readError id = .ok data) h
    (fun _ _ => get_step) acts

theorem sound_step_iff (hsound : dir.Sound blake3) :
    (storeStep blake3 dir a).Sound blake3 ↔ a.Clean blake3 dir := by
  rcases storeStep_cases blake3 dir a with ⟨hwrites, hstep⟩ | ⟨id, left, hwrites, hfree, hstep⟩
  · rw [hstep]
    refine iff_of_true hsound fun id entry h => ?_
    cases hwrites.symm.trans h
  · rw [hstep]
    constructor
    · intro h id' entry hentry
      obtain ⟨rfl, rfl⟩ := Prod.mk.inj (Option.some.inj (hwrites.symm.trans hentry))
      exact h id entry (Function.update_self _ _ _)
    · intro h id' entry hentry
      by_cases hid : id' = id
      · subst hid
        rw [Function.update_self] at hentry
        exact h id' entry (hentry ▸ hwrites)
      · rw [Function.update_of_ne hid] at hentry
        exact hsound id' entry hentry

/-- The directory stays sound exactly if no write leaves a wrong file. -/
theorem sound_run_iff (acts : List StoreAct) (h : dir.Sound blake3) :
    Always (storeStep blake3) (fun _ dir => dir.Sound blake3) dir acts ↔
      EachStep (storeStep blake3) (fun _ dir a => a.Clean blake3 dir) dir acts :=
  always_iff (J := fun _ _ => True) trivial (fun _ _ _ _ => trivial) h
    fun _ _ _ _ hsound => sound_step_iff hsound

/-- In a sound directory a put that returns `Ok` has stored the blob for good. -/
theorem put_durable {host : PutHost} {dir' : BlobDir}
    (hdata : ∀ bytes, blake3 bytes = blake3 data → bytes = data) (hsound : dir.Sound blake3)
    (hput : dir.put blake3 host data = (.ok id, dir')) (acts : List StoreAct) :
    (stateAfter (storeStep blake3) dir' acts).get blake3 readError id = .ok data := by
  apply get_run
  obtain ⟨rfl, ⟨hhas, rfl⟩ | ⟨-, bytes, hbytes, rfl⟩⟩ := put_ok hput
  · obtain ⟨entry, hentry⟩ := Option.isSome_iff_exists.mp hhas
    obtain ⟨bytes, rfl, hbytes⟩ := hsound _ entry hentry
    rw [get_eq_ok_iff, hentry, hdata bytes hbytes]
    exact ⟨rfl, rfl⟩
  · rw [get_eq_ok_iff, Function.update_self, hdata bytes hbytes]
    exact ⟨rfl, rfl⟩

end

end Provework.Contentstore
