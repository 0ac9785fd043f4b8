import Provework.Coordinator.ServeNotices

/-!
# The watched directory (`scan_jobs_dir`, the queue file of `handle_job_submission`)

A job is a file in the jobs directory. Its name says who runs it: what stands
behind an `@` are the ids of the round-1 workers. A file dropped by the operator
and one written for a submission are read the same way, and the name of the
second contains the job id the submitter chose. `submitted_untargeted_iff` says
for which ids the job is open to every worker.

The directory is what the scanner sees of it, entry by entry; times are seconds.
-/

namespace Provework.Coordinator

open Provework.Lib Provework.Jobfmt Provework.Contentstore Provework.Wire

/-- A file of the jobs directory, and what the calls on it return. -/
structure ScanEntry where
  name : String
  /-- `std::fs::read`. -/
  read : Except String (List U8)
  /-- `std::fs::rename` to the name with `.dispatching`. -/
  renamed : Except String Unit
  time : Nat

/-- Paths that could not be read, and since when. -/
abbrev ScanErrors := AList fun _ : String => Nat

def descWriteGrace : Nat := 5

def descSuffix : List Char := ".desc.json".toList

/-- The worker ids in a file name. -/
def targetsOf (name : String) : Option (List String) :=
  (splitOnce '@' (trimEndMatches descSuffix name.toList)).map fun (_, ids) =>
    (ids.splitOn ',').map fun id => String.ofList (trim id)

def dispatching (jobsDir name : String) : String := jobsDir ++ "/" ++ name ++ ".dispatching"

section

variable (readDescriptor : List U8 → Except String JobDescriptor) (jobsDir : String)

/-- The descriptor in a file, or the text of the error. -/
def ScanEntry.load (entry : ScanEntry) : Except String JobDescriptor := do
  let bytes ← entry.read.mapError ("jobs dir: " ++ ·)
  (readDescriptor bytes).mapError fun e => s!"descriptor {entry.name}: {e}"

/-- The loop over the directory. -/
def scanEntries : List ScanEntry → ScanErrors → Except String (Option QueuedJob) × ScanErrors
  | [], errors => (.ok none, errors)
  | entry :: rest, errors =>
    if descSuffix <:+ entry.name.toList then
      let path := jobsDir ++ "/" ++ entry.name
      match entry.load readDescriptor with
      | .error e =>
        match errors.lookup path with
        | some seen =>
          if descWriteGrace ≤ entry.time - seen then (.error e, errors) else scanEntries rest errors
        -- likely still being written: look again at the next poll
        | none => scanEntries rest (errors.insert path entry.time)
      | .ok descriptor =>
        match entry.renamed with
        | .error e => (.error ("jobs dir: " ++ e), errors.erase path)
        | .ok () =>
          (.ok (some (descriptor, targetsOf entry.name, dispatching jobsDir entry.name)),
            errors.erase path)
    else scanEntries rest errors

def scanJobsDir (listing : Except String (List ScanEntry)) (errors : ScanErrors) :
    Except String (Option QueuedJob) × ScanErrors :=
  match listing with
  | .error e => (.error ("jobs dir: " ++ e), errors)
  | .ok entries => scanEntries readDescriptor jobsDir entries errors

end

/-- The name of the file written for a submission. -/
def submittedName (jobId : String) : String := "submitted-" ++ jobId ++ ".desc.json"

/-- The workers a job is open to when nobody is named. -/
def everyone (conns : Conns) : Selection :=
  (conns.values.filter Conn.available).map fun c => (c.workerId, conns.peerHints c.workerId)

/-- The queued job is that of `descriptor`, and its workers are not chosen by name. -/
structure Untargeted (descriptor : JobDescriptor) (q : QueuedJob) : Prop where
  descriptor : q.1 = descriptor
  targets : q.2.1 = none
  candidates : ∀ conns now subscribers,
    candidates conns (.queued q.1 q.2.1 q.2.2 now subscribers) = everyone conns

/-! ## What the scanner hands over -/

section

variable {readDescriptor : List U8 → Except String JobDescriptor} {jobsDir : String}

theorem ScanEntry.load_ok {entry : ScanEntry} {descriptor : JobDescriptor}
    (h : entry.load readDescriptor = .ok descriptor) :
    ∃ bytes, entry.read = .ok bytes ∧ readDescriptor bytes = .ok descriptor := by
  obtain ⟨bytes, hread, h⟩ := except_bind_ok h
  exact ⟨bytes, mapError_ok hread, mapError_ok h⟩

/-- A job that is found comes from one file, and its targets from the name of that
file. -/
theorem scanEntries_found {q : QueuedJob} : ∀ {entries : List ScanEntry} {errors : ScanErrors},
    (scanEntries readDescriptor jobsDir entries errors).1 = .ok (some q) →
    ∃ entry ∈ entries, ∃ bytes descriptor, entry.read = .ok bytes ∧
      readDescriptor bytes = .ok descriptor ∧
      q = (descriptor, targetsOf entry.name, dispatching jobsDir entry.name)
  | [], _, h => nomatch h
  | entry :: rest, errors, h => by
    have hrest : ∀ {errors : ScanErrors},
        (scanEntries readDescriptor jobsDir rest errors).1 = .ok (some q) →
        ∃ entry' ∈ entry :: rest, ∃ bytes descriptor, entry'.read = .ok bytes ∧
          readDescriptor bytes = .ok descriptor ∧
          q = (descriptor, targetsOf entry'.name, dispatching jobsDir entry'.name) := by
      intro errors h
      obtain ⟨entry', hmem, hfound⟩ := scanEntries_found h
      exact ⟨entry', List.mem_cons_of_mem _ hmem, hfound⟩
    rw [scanEntries] at h
    split at h
    · dsimp only at h
      split at h
      · split at h
        · split at h
          · cases h
          · exact hrest h
        · exact hrest h
      next descriptor hload =>
        split at h
        · cases h
        · obtain ⟨bytes, hread, hbytes⟩ := ScanEntry.load_ok hload
          exact ⟨entry, List.mem_cons_self, bytes, descriptor, hread, hbytes,
            (Option.some.inj (Except.ok.inj h)).symm⟩
    · exact hrest h

theorem targetsOf_eq_none_iff (name : String) : targetsOf name = none ↔ '@' ∉ name.toList := by
  rw [targetsOf, Option.map_eq_none_iff, splitOnce_eq_none_iff, trimEndMatches,
    mem_trimEnd (by decide)]

theorem mem_submittedName (jobId : String) : '@' ∈ (submittedName jobId).toList ↔
    '@' ∈ jobId.toList := by
  have hhead : '@' ∉ "submitted-".toList := by decide
  have htail : '@' ∉ ".desc.json".toList := by decide
  exact mem_between_iff hhead htail jobId

theorem dispatching_inj {name name' : String}
    (h : dispatching jobsDir name = dispatching jobsDir name') : name = name' := by
  have hlist := congrArg String.toList h
  simp only [dispatching, String.toList_append, List.append_assoc, List.append_cancel_left_eq,
    List.append_cancel_right_eq] at hlist
  exact String.toList_injective hlist

theorem candidates_untargeted {job : PendingJob} (h : job.targets = none) (conns : Conns) :
    candidates conns job = everyone conns := by
  unfold candidates everyone
  have hfilter : ∀ c : Conn, (c.authed && c.available) = c.available := by
    intro c
    cases hc : c.authed
    · simp [Conn.available, hc]
    · simp
  simp only [h, hfilter]

/-- The scanner picks up the file written for a submission: it hands over the
submitted descriptor, open to every worker, exactly if there is no `@` in the job
id. -/
theorem submitted_untargeted_iff {dir : Dir} {entries : List ScanEntry} {errors : ScanErrors}
    {descriptor : JobDescriptor} {q : QueuedJob}
    (hjson : readDescriptor descriptor.json = .ok descriptor)
    (hlisting : ∀ entry ∈ entries, ∀ bytes, entry.read = .ok bytes → dir entry.name = some bytes)
    (hfile : dir (submittedName descriptor.jobId) = some descriptor.json)
    (hscan : (scanJobsDir readDescriptor jobsDir (.ok entries) errors).1 = .ok (some q))
    (hpath : q.2.2 = dispatching jobsDir (submittedName descriptor.jobId)) :
    Untargeted descriptor q ↔ '@' ∉ descriptor.jobId.toList := by
  obtain ⟨entry, hmem, bytes, found, hread, hfound, rfl⟩ := scanEntries_found hscan
  have hname : entry.name = submittedName descriptor.jobId := dispatching_inj hpath
  have hbytes : bytes = descriptor.json := by
    have hdir := hlisting entry hmem bytes hread
    rw [hname, hfile] at hdir
    exact (Option.some.inj hdir).symm
  have hsame : found = descriptor := by
    rw [hbytes, hjson] at hfound
    exact (Except.ok.inj hfound).symm
  have htargets : targetsOf entry.name = none ↔ '@' ∉ descriptor.jobId.toList := by
    rw [targetsOf_eq_none_iff, hname, mem_submittedName]
  constructor
  · exact fun h => htargets.mp h.targets
  · intro hat
    exact ⟨hsame, htargets.mpr hat, fun conns now subscribers =>
      candidates_untargeted (htargets.mpr hat) conns⟩

end

/-! ## Two submissions -/

def namedDescriptor (jobId : String) : JobDescriptor := { submittedDescriptor with jobId := jobId }

/-- Worker 1 and submitter 2 log in, and the submission is written to its file. -/
def queueingRun (jobId : String) : List Act :=
  [.thread (.accept "10.0.0.1"), .thread (.accept "10.0.0.2")] ++ login 1 1 "wA"
    ++ loginSubmitter 2 2 "sB" ++ (turnWith none (.closed 0)).dropLast
    ++ [.event (.jobSubmission 2 "sB" (namedDescriptor jobId) (keyHex 2) (sigHex 2) false)
      { quietHost with createError := none } 0]

/-- The jobs directory with that one file. -/
def queuedDir (jobId : String) : Dir :=
  Function.update (fun _ => none) (submittedName jobId) (some (namedDescriptor jobId).json)

def queuedEntry (jobId : String) : ScanEntry :=
  { name := submittedName jobId, read := .ok (namedDescriptor jobId).json, renamed := .ok (),
    time := 0 }

/-- A reader that knows one document. -/
def readNamed (jobId : String) (bytes : List U8) : Except String JobDescriptor :=
  if bytes = (namedDescriptor jobId).json then
    .ok (namedDescriptor jobId) else .error "expected value"

theorem readNamed_json (jobId : String) :
    readNamed jobId (namedDescriptor jobId).json = .ok (namedDescriptor jobId) := if_pos rfl

/-- The scanner finds the file. -/
theorem scan_queued (jobId : String) :
    (scanJobsDir (readNamed jobId) "jobs" (.ok [queuedEntry jobId]) ∅).1 =
      .ok (some (namedDescriptor jobId, targetsOf (submittedName jobId),
        dispatching "jobs" (submittedName jobId))) := by
  have hsuffix : descSuffix <:+ (queuedEntry jobId).name.toList := by
    rw [queuedEntry, submittedName, String.toList_append]
    exact List.suffix_append _ _
  have hload : (queuedEntry jobId).load (readNamed jobId) = .ok (namedDescriptor jobId) := by
    simp only [ScanEntry.load, queuedEntry, Except.mapError, bind, Except.bind, readNamed_json]
  simp only [scanJobsDir, scanEntries, if_pos hsuffix, hload]
  rfl

theorem submitted_untargeted_plain :
    Untargeted (namedDescriptor "job-1") (namedDescriptor "job-1",
      targetsOf (submittedName "job-1"), dispatching "jobs" (submittedName "job-1")) := by
  have hfile : queuedDir "job-1" (submittedName (namedDescriptor "job-1").jobId)
      = some (namedDescriptor "job-1").json := Function.update_self _ _ _
  have hlisting : ∀ entry ∈ [queuedEntry "job-1"], ∀ bytes, entry.read = .ok bytes →
      queuedDir "job-1" entry.name = some bytes := by
    intro entry hentry bytes hread
    obtain rfl := List.mem_singleton.mp hentry
    rw [← Except.ok.inj hread]
    exact hfile
  exact (submitted_untargeted_iff (readNamed_json "job-1") hlisting hfile (scan_queued "job-1")
    rfl).mpr
    (by decide)

/-- A submission under the id `x@wA` is accepted, and its file is read as a job for
the worker `wA` alone. -/
theorem submission_names_its_voter :
    (2, ServerToClient.submissionAck "x@wA" true none false) ∈
      (stateAfter (step toyCrypto submitterConfig) (Serve.init 1 fullStore)
        (queueingRun "x@wA")).sent ∧
    (scanJobsDir (readNamed "x@wA") "jobs" (.ok [queuedEntry "x@wA"]) ∅).1 =
      .ok (some (namedDescriptor "x@wA", some ["wA"], dispatching "jobs" (submittedName "x@wA"))) ∧
    ¬ Untargeted (namedDescriptor "x@wA")
      (namedDescriptor "x@wA", some ["wA"], dispatching "jobs" (submittedName "x@wA")) := by
  have htargets : targetsOf (submittedName "x@wA") = some ["wA"] := by decide +kernel
  refine ⟨by decide +kernel, ?_, fun h => nomatch h.targets⟩
  rw [scan_queued, htargets]

end Provework.Coordinator
