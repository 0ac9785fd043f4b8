import Provework.Coordinator.ServeNotices
import Provework.Coordinator.ServePanics
import Provework.Coordinator.ServeReceipt
import Provework.Sp1Host

/-!
# The worker's answer to an assignment (`session_once` of `crates/worker/src/daemon.rs`)

A worker rebuilds the job from its own store, loads it, runs it and reports the
commitment to its journal under its key. The id of the job is in two places by
then: the descriptor of the assignment, which the coordinator compares results
with, and the manifest in the job directory, which the worker takes it from.
`honest_result_counted_iff` follows an answer back to the coordinator.

Modelling notes:
- The blobs are in the worker's store already; the directory is fresh.
- The text of a trap and the signature are parameters, as is the zkVM. What a guest
  committed is read as one; if it cannot be read, the daemon panics.
- A daemon that carries a receipt answers with a claim instead and is left out.
-/

namespace Provework.Worker

open Provework.Lib Provework.Jobfmt Provework.Contentstore Provework.Rvcore Provework.Wire
  Provework.Coordinator Provework.Sp1Host

/-! ## Loading a job (`jobfmt::load_dir`) -/

def schema : U32 := 1

/-- `abi::ISA`. -/
def isa : String := "rv64imc"

structure Job where
  manifest : JobManifest
  elf : List U8
  input : List U8

def loadDir (readManifest : List U8 → Option JobManifest) (dir : Dir) : Option Job := do
  let raw ← dir "job.json"
  let manifest ← readManifest raw
  if manifest.schema ≠ schema then none
  else if manifest.isa ≠ isa then none
  else if !confinedName manifest.elf || !confinedName manifest.input then none
  else
    let elf ← dir manifest.elf
    let input ← dir manifest.input
    return ⟨manifest, elf, input⟩

/-! ## Running it -/

structure DaemonConfig where
  workerId : String
  /-- Test hook: lie about the journal. -/
  corrupt : Bool
  corruptByte : Option U8

/-- An Ed25519 key pair. -/
structure Identity where
  verifyingKey : List U8
  sign : List U8 → List U8

/-- The two builds of the daemon. -/
inductive Executor where
  | native
  | sp1 (vm : Zkvm) (emuElf : List U8)

structure WorkerHost extends JudgeHost where
  executor : Executor
  /-- `format!("{t:?}")`. -/
  trapText : Trap → String
  identity : Option Identity

/-- Journal, count, status and trap of a legacy job. -/
structure Execution where
  journal : List U8
  instructions : U64
  status : String
  trap : Option String

def statusText : ExitStatus → String
  | .halted => "halted"
  | .tohost _ => "halted"
  | .instructionLimit => "instruction_limit"
  | .trapped _ => "trap"

def nativeExecution (host : WorkerHost) (job : Job) : Attempt Execution :=
  (executed host.blake3 job.manifest job.elf job.input).andThen fun out =>
  let cycles := BitVec.ofNat 64 out.instructions
  some (some
    { journal := journal cycles (out.output.getD [])
      instructions := cycles
      status := statusText out.status
      trap := match out.status with
        | .trapped t => some (host.trapText t)
        | _ => none })

/-- The numbers of the guest for how a run ends. -/
def guestStatusText (status : U32) : String :=
  if status = 0 then "halted" else if status = 1 then "instruction_limit" else "trap"

def emulatedExecution (host : WorkerHost) (vm : Zkvm) (emuElf : List U8) (dir : Dir) (job : Job) :
    Attempt Execution :=
  Attempt.andThen (some (dir "job.json")) fun manifestBytes =>
  Attempt.andThen (some (vm.execute emuElf [manifestBytes, job.elf, job.input])) fun (values, _) =>
  match vm.readEmulator values with
  | none => none
  | some c =>
    if c.binding ≠ [host.blake3 manifestBytes, host.blake3 job.elf, host.blake3 job.input] then
      some none
    else
      let status := guestStatusText c.status
      some (some
        { journal := journal c.instructions c.output
          instructions := c.instructions
          status
          trap := if status = "trap" then some s!"guest exit status {c.status.toNat}" else none })

/-! ## The result -/

/-- One byte of the journal bumped, if the daemon is told to lie. -/
def corrupted (cfg : DaemonConfig) (journal : List U8) : List U8 :=
  if cfg.corrupt && !journal.isEmpty then
    let i := match cfg.corruptByte with
      | some b => b.toNat % journal.length
      | none => journal.length - 1
    journal.set i (journal.getD i 0 + 1)
  else journal

def legacyResult (cfg : DaemonConfig) (host : WorkerHost) (job : Job) (run : Execution) :
    WorkerResult :=
  let resultHash := hex (List.ofFn (host.sha256 (corrupted cfg run.journal)))
  { workerId := cfg.workerId
    jobId := job.manifest.id
    status := run.status
    instructions := run.instructions
    resultHash := resultHash
    chunkHashes := [resultHash]
    outputHex := if 8 < run.journal.length then some (hex (run.journal.drop 8)) else none
    trap := run.trap
    pubkeyHex := none
    sigHex := none }

/-- The result of an SP1-native job. The daemon does not lie about it. -/
def v2Result (cfg : DaemonConfig) (host : WorkerHost) (job : Job) (output : List U8)
    (cycles : U64) : WorkerResult :=
  let resultHash := hex (List.ofFn (journalDigest host.sha256 v2JournalCount output))
  { workerId := cfg.workerId
    jobId := job.manifest.id
    status := "halted"
    instructions := cycles
    resultHash := resultHash
    chunkHashes := [resultHash]
    outputHex := some (hex output)
    trap := none
    pubkeyHex := none
    sigHex := none }

def nativeGuestResult (cfg : DaemonConfig) (host : WorkerHost) (vm : Zkvm) (job : Job) :
    Attempt WorkerResult :=
  Attempt.andThen (some (vm.execute job.elf [job.input])) fun (values, cycles) =>
  match vm.readGuest values with
  | none => none
  | some (inputId, output) =>
    if inputId ≠ host.blake3 job.input then some none
    else some (some (v2Result cfg host job output cycles))

def signed (identity : Option Identity) (r : WorkerResult) : WorkerResult :=
  match identity with
  | none => r
  | some key =>
    { r with
      pubkeyHex := some (hex key.verifyingKey)
      sigHex := some (hex (key.sign (signingMessage r))) }

def unsignedResult (cfg : DaemonConfig) (host : WorkerHost) (dir : Dir) (job : Job) :
    Attempt WorkerResult :=
  match host.executor with
  | .native =>
    if job.manifest.isSp1V2 then some none
    else (nativeExecution host job).andThen fun run => some (some (legacyResult cfg host job run))
  | .sp1 vm emuElf =>
    if job.manifest.isSp1V2 then nativeGuestResult cfg host vm job
    else
      (emulatedExecution host vm emuElf dir job).andThen fun run =>
      some (some (legacyResult cfg host job run))

/-- The result sent for an assignment; if there is none, the session ends. -/
def assignmentResult (cfg : DaemonConfig) (host : WorkerHost) (descriptor : JobDescriptor)
    (store : Store) : Attempt WorkerResult :=
  if !confinedName descriptor.jobId then some none
  else
    (host.materialize descriptor store).andThen fun dir =>
    Attempt.andThen (some (loadDir host.readManifest dir)) fun job =>
    (unsignedResult cfg host dir job).andThen fun r => some (some (signed host.identity r))

/-- The manifest of a rebuilt job, as `load_dir` finds it. -/
def rebuiltManifest (host : JudgeHost) (descriptor : JobDescriptor) (store : Store) :
    Attempt JobManifest :=
  (host.materialize descriptor store).andThen fun dir =>
    some ((dir "job.json").bind host.readManifest)

/-! ## What a result says -/

/-- The result names the job after the manifest and the worker after itself, and
carries a SHA-256 digest. -/
structure ReportOf (cfg : DaemonConfig) (manifest : JobManifest) (r : WorkerResult) : Prop where
  jobId : r.jobId = manifest.id
  workerId : r.workerId = cfg.workerId
  digest : ∃ h : Hash, r.resultHash = hex (List.ofFn h)

section

variable {cfg : DaemonConfig} {host : WorkerHost} {dir : Dir} {job : Job} {r : WorkerResult}

theorem loadDir_some (h : loadDir host.readManifest dir = some job) :
    (dir "job.json").bind host.readManifest = some job.manifest := by
  obtain ⟨raw, hraw, h⟩ := Option.bind_eq_some_iff.mp h
  obtain ⟨manifest, hmanifest, h⟩ := Option.bind_eq_some_iff.mp h
  rw [hraw, Option.bind_some, hmanifest]
  split at h
  · cases h
  · split at h
    · cases h
    · split at h
      · cases h
      · obtain ⟨elf, -, h⟩ := Option.bind_eq_some_iff.mp h
        obtain ⟨input, -, h⟩ := Option.bind_eq_some_iff.mp h
        cases h
        rfl

theorem legacyResult_reports (run : Execution) :
    ReportOf cfg job.manifest (legacyResult cfg host job run) :=
  ⟨rfl, rfl, _, rfl⟩

theorem unsignedResult_reports (h : unsignedResult cfg host dir job = some (some r)) :
    ReportOf cfg job.manifest r := by
  unfold unsignedResult at h
  split at h
  · split at h
    · cases h
    · obtain ⟨run, -, h⟩ := Attempt.andThen_eq_some_iff.mp h
      cases h
      exact legacyResult_reports run
  · split at h
    · obtain ⟨⟨values, cycles⟩, -, h⟩ := Attempt.andThen_eq_some_iff.mp h
      dsimp only at h
      split at h
      · cases h
      · split at h
        · cases h
        · cases h
          exact ⟨rfl, rfl, _, rfl⟩
    · obtain ⟨run, -, h⟩ := Attempt.andThen_eq_some_iff.mp h
      cases h
      exact legacyResult_reports run

/-- What the native build reports of a legacy job. -/
theorem unsignedResult_native (hnative : host.executor = .native)
    (hv2 : job.manifest.isSp1V2 = false) :
    unsignedResult cfg host dir job =
      (nativeExecution host job).andThen fun run =>
      some (some (legacyResult cfg host job run)) := by
  simp only [unsignedResult, hnative, hv2, Bool.false_eq_true, if_false]

theorem signed_reports {manifest : JobManifest} (h : ReportOf cfg manifest r)
    (identity : Option Identity) : ReportOf cfg manifest (signed identity r) := by
  cases identity with
  | none => exact h
  | some key => exact ⟨h.jobId, h.workerId, h.digest⟩

/-- Whatever the build and the format, an answer is a signed report of the manifest
in the job directory. -/
theorem assignmentResult_some {descriptor : JobDescriptor} {store : Store}
    (h : assignmentResult cfg host descriptor store = some (some r)) :
    ∃ manifest r₀, rebuiltManifest host.toJudgeHost descriptor store = some (some manifest) ∧
      ReportOf cfg manifest r ∧ r = signed host.identity r₀ := by
  unfold assignmentResult at h
  split at h
  · cases h
  obtain ⟨dir, hdir, h⟩ := Attempt.andThen_eq_some_iff.mp h
  obtain ⟨job, hjob, h⟩ := Attempt.andThen_eq_some_iff.mp h
  obtain ⟨r₀, hr₀, h⟩ := Attempt.andThen_eq_some_iff.mp h
  cases h
  refine ⟨job.manifest, r₀, ?_, signed_reports (unsignedResult_reports hr₀) _, rfl⟩
  rw [rebuiltManifest, hdir]
  exact congrArg some (loadDir_some (Option.some.inj hjob))

end

/-! ## Back at the coordinator -/

/-- What the coordinator's checks make of the keys and signatures of `identity`. -/
structure Signs (crypto : Crypto) (identity : Identity) : Prop where
  keyLength : identity.verifyingKey.length = 32
  key : crypto.keyFromBytes identity.verifyingKey = .ok ()
  sigLength : ∀ msg, (identity.sign msg).length = 64
  verifies : ∀ msg, crypto.verify identity.verifyingKey msg (identity.sign msg) = .ok ()

/-- Every check of a signature passes on what the key signed. -/
theorem Signs.verifyHex {crypto : Crypto} {identity : Identity} (h : Signs crypto identity)
    (keyError sigError : String → String) (msg : List U8) :
    crypto.verifyHex keyError sigError (hex identity.verifyingKey) (hex (identity.sign msg)) msg
      = .ok () := by
  have hkeyBytes := fromHex_hex identity.verifyingKey
  have hsigBytes := fromHex_hex (identity.sign msg)
  rw [h.keyLength] at hkeyBytes
  rw [h.sigLength] at hsigBytes
  rw [Crypto.verifyHex, hkeyBytes, hsigBytes]
  show ((crypto.keyFromBytes identity.verifyingKey).mapError keyError >>= fun _ =>
    (crypto.verify identity.verifyingKey msg (identity.sign msg)).mapError sigError) = .ok ()
  rw [h.key, h.verifies]
  rfl

/-- The result was added to the job. -/
def EntersVote (job : PendingJob) (r : WorkerResult) (after : Option Serve) : Prop :=
  ∃ s' job', after = some s' ∧ s'.pending = some job' ∧ job'.results = job.results ++ [r]

section

variable {crypto : Crypto} {cfg : ServeConfig} {s : Serve} {conn : Nat} {x : Conn}
  {job : PendingJob}

/-- Under a key and a signature that decode, only the signature check is left. -/
theorem verifySignature_of_key {identity : Identity} (h : Signs crypto identity) {r : WorkerResult}
    (msg : List U8) (hkey : r.pubkeyHex = some (hex identity.verifyingKey))
    (hsig : r.sigHex = some (hex (identity.sign msg))) :
    verifySignature crypto r =
      (crypto.verify identity.verifyingKey (signingMessage r) (identity.sign msg)).mapError
        ("signature: " ++ ·) := by
  have hkeyBytes := fromHex_hex identity.verifyingKey
  have hsigBytes := fromHex_hex (identity.sign msg)
  rw [h.keyLength] at hkeyBytes
  rw [h.sigLength] at hsigBytes
  simp only [verifySignature, hkey, hsig, Crypto.verifyHex, hkeyBytes, hsigBytes, h.key,
    Except.mapError, bind, Except.bind]

theorem verifySignature_signed {identity : Identity} (h : Signs crypto identity)
    (r : WorkerResult) : verifySignature crypto (signed (some identity) r) = .ok () := by
  rw [verifySignature_of_key h (signingMessage r) rfl rfl]
  show (crypto.verify identity.verifyingKey (signingMessage r) _).mapError _ = .ok ()
  rw [h.verifies]
  rfl

/-- A result for another job is dropped. -/
theorem onResult_otherJob {result : WorkerResult} (hjob : s.pending = some job)
    (hid : result.jobId ≠ job.descriptor.jobId) : s.onResult crypto cfg conn result = some s := by
  have hcount : ∀ wid, s.countResult conn wid result = some s := by
    intro wid
    rw [Serve.countResult, hjob]
    exact if_pos hid
  unfold Serve.onResult
  split
  · rfl
  · split
    · rfl
    · split
      · rfl
      · split
        · rfl
        · split
          · rfl
          · exact hcount _

/-- A worker that was sent a job answers it under the id and key of its connection.
The answer bears the id of the assignment exactly if the manifest the job was
rebuilt with bears it, and exactly then it is counted. -/
theorem honest_result_counted_iff (daemon : DaemonConfig) (host : WorkerHost) (identity : Identity)
    (hidentity : host.identity = some identity) (hsigns : Signs crypto identity) (store : Store)
    (r : WorkerResult) (hwork : assignmentResult daemon host job.descriptor store = some (some r))
    (hlive : s.conns.lookup conn = some x) (hauthed : x.authed = true)
    (hname : x.workerId = daemon.workerId) (hkey : x.pubkey = some (hex identity.verifyingKey))
    (hjob : s.pending = some job) (hdispatched : x.workerId ∈ job.dispatchedIds)
    (hfirst : ∀ r ∈ job.results, r.workerId ≠ x.workerId) :
    ∃ manifest, rebuiltManifest host.toJudgeHost job.descriptor store = some (some manifest) ∧
      (r.jobId = job.descriptor.jobId ↔ manifest.id = job.descriptor.jobId) ∧
      (EntersVote job r (s.onResult crypto cfg conn r) ↔ manifest.id = job.descriptor.jobId) := by
  obtain ⟨manifest, r₀, hmanifest, hreports, hr⟩ := assignmentResult_some hwork
  rw [hidentity] at hr
  refine ⟨manifest, hmanifest, by rw [hreports.jobId], ?_⟩
  rw [← hreports.jobId]
  constructor
  · rintro ⟨s', job', hafter, hjob', hresults⟩
    by_contra hid
    rw [onResult_otherJob hjob hid] at hafter
    cases hafter
    rw [hjob] at hjob'
    cases hjob'
    have hlength := congrArg List.length hresults
    rw [List.length_append, List.length_singleton] at hlength
    omega
  · intro hid
    have hcountable : Countable crypto cfg s conn x r job :=
      { live := hlive
        authed := hauthed
        sameId := hreports.workerId.trans hname.symm
        key := by rw [hr, Serve.keyMatches, hkey]; exact decide_eq_true rfl
        signed := by rw [hr]; exact verifySignature_signed hsigns r₀
        pending := hjob
        jobId := hid
        dispatched := hdispatched
        first := hfirst }
    obtain ⟨h, hdigest⟩ := hreports.digest
    have hslice : sliceable r.resultHash 12 = true := by
      rw [hdigest, sliceable, utf8_hex]
      refine charBoundary_hexCodes ?_
      rw [length_hexCodes, List.length_ofFn]
      decide
    rw [onResult_countable hcountable, if_pos hslice]
    exact ⟨_, _, rfl, rfl, rfl⟩

end

/-! ## One manifest under two ids -/

def plainDaemon : DaemonConfig := { workerId := "wA", corrupt := false, corruptByte := none }

/-- The holder of key 1. -/
def keyOne : Identity :=
  { verifyingKey := List.replicate 32 1, sign := fun _ => List.replicate 64 1 }

theorem keyOne_signs : Signs receiptCrypto keyOne :=
  ⟨rfl, rfl, fun _ => rfl, fun _ => rfl⟩

def toyWorker : WorkerHost :=
  { toyHost with executor := .native, trapText := fun _ => "", identity := some keyOne }

/-- The job `c.ebreak`, whose manifest says `job-1`, as a submitter describes it. -/
def describedAs (jobId : String) : JobDescriptor := { demoDescriptor [0x02, 0x90] with jobId }

def ebreakJob : Job := ⟨demoManifest, tinyElf [0x02, 0x90], []⟩

/-- The answer of `wA`, with the id of the manifest. -/
def ebreakAnswer : WorkerResult := { honestResult "wA" 1 with outputHex := none }

/-- The worker rebuilds the job from the three blobs, whatever it is called. -/
theorem rebuilt_describedAs (jobId : String) : ∃ dir,
    toyHost.materialize (describedAs jobId) (demoStore [0x02, 0x90]) = some (some dir) ∧
      loadDir toyHost.readManifest dir = some ebreakJob := by
  have hmanifest : (demoStore [0x02, 0x90]).fetch toyHost.blake3 (describedAs jobId).manifest
      = some (some (utf8 demoJson)) := Store.fetch_hex (demo_get _ List.mem_cons_self)
  have helf : (demoStore [0x02, 0x90]).fetch toyHost.blake3 (describedAs jobId).elf
      = some (some (tinyElf [0x02, 0x90])) :=
    Store.fetch_hex (demo_get _ (List.mem_cons_of_mem _ List.mem_cons_self))
  have hinput : (demoStore [0x02, 0x90]).fetch toyHost.blake3 (describedAs jobId).input
      = some (some []) :=
    Store.fetch_hex
      (demo_get _ (List.mem_cons_of_mem _ (List.mem_cons_of_mem _ List.mem_cons_self)))
  obtain ⟨dir, hdir, hjson, helf, hinput⟩ := materialize_of_blobs hmanifest helf hinput demo_read
    demo_names (by decide) (by decide) (by decide) (fun _ => rfl)
  refine ⟨dir, hdir, ?_⟩
  simp only [loadDir, hjson, demo_read, helf, hinput, demo_names.1, demo_names.2, bind,
    Option.bind_some, Bool.not_true, Bool.or_self, Bool.false_eq_true, if_false]
  rfl

/-- The same before it is signed. -/
def ebreakReport : WorkerResult := { ebreakAnswer with pubkeyHex := none, sigHex := none }

/-- Under any identity. -/
theorem answer_signed (jobId : String) (hname : confinedName jobId = true)
    (identity : Option Identity) :
    assignmentResult plainDaemon { toyWorker with identity } (describedAs jobId)
      (demoStore [0x02, 0x90])
      = some (some (signed identity ebreakReport)) := by
  obtain ⟨dir, hdir, hload⟩ := rebuilt_describedAs jobId
  have hunsigned : unsignedResult plainDaemon { toyWorker with identity } dir ebreakJob
      = some (some ebreakReport) := by
    rw [unsignedResult_native rfl rfl]
    show ((nativeExecution toyWorker ebreakJob).andThen fun run =>
      some (some (legacyResult plainDaemon toyWorker ebreakJob run))) = some (some ebreakReport)
    decide +kernel
  have hjobId : (!confinedName (describedAs jobId).jobId) = false := by
    rw [show (describedAs jobId).jobId = jobId from rfl, hname, Bool.not_true]
  rw [assignmentResult, hjobId]
  show ((JudgeHost.materialize toyHost (describedAs jobId) (demoStore [0x02, 0x90])).andThen
    fun dir =>
    Attempt.andThen (some (loadDir toyHost.readManifest dir)) fun job =>
    (unsignedResult plainDaemon { toyWorker with identity } dir job).andThen fun r =>
      some (some (signed identity r))) = _
  simp only [hdir, hload, hunsigned, Attempt.andThen_returned]

theorem answer_describedAs (jobId : String) (hname : confinedName jobId = true) :
    assignmentResult plainDaemon toyWorker (describedAs jobId) (demoStore [0x02, 0x90])
      = some (some ebreakAnswer) := by
  have hsigned : signed (some keyOne) ebreakReport = ebreakAnswer := by decide +kernel
  exact hsigned ▸ answer_signed jobId hname (some keyOne)

def renamingConfig : ServeConfig := { submitterConfig with identityPowBits := 0 }

/-- The three blobs again, looked up by the first byte of the id. -/
def blobsByLength : Store := fun id =>
  [utf8 demoJson, tinyElf [0x02, 0x90], []].find? fun data => lengthHash data 0 = id 0

/-- Worker 1 and submitter 2 log in; the submission is accepted, scanned and sent to
the worker. -/
def assignedAs (jobId : String) : Serve :=
  stateAfter (step receiptCrypto renamingConfig) (Serve.init 1 blobsByLength)
    ([.thread (.accept "10.0.0.1"), .thread (.accept "10.0.0.2")] ++ login 1 1 "wA"
      ++ loginSubmitter 2 2 "sB" ++ (turnWith none (.closed 0)).dropLast
      ++ [.event (.jobSubmission 2 "sB" (describedAs jobId) (keyHex 2) (sigHex 2) false)
          { quietHost with createError := none } 0]
      ++ (turnWith
        (some (describedAs jobId, none, s!"jobs/submitted-{jobId}.desc.json.dispatching"))
          (.closed 0)).dropLast)

/-- The job between the submitter and the worker: whether it was acknowledged, who
the worker is, and what is pending. -/
structure Assigned where
  acked : Bool
  worker : Option (Bool × String × Option String)
  pending : Option (JobDescriptor × List String × List WorkerResult)
  deriving DecidableEq

def assignedIn (s : Serve) (jobId : String) : Assigned where
  acked := decide ((2, ServerToClient.submissionAck jobId true none false) ∈ s.sent)
  worker := (s.conns.lookup 1).map fun x => (x.authed, x.workerId, x.pubkey)
  pending := s.pending.map fun job => (job.descriptor, job.dispatchedIds, job.results)

/-- It was accepted, and `wA` is to run it. -/
def runsAs (jobId : String) : Assigned where
  acked := true
  worker := some (true, "wA", some (keyHex 1))
  pending := some (describedAs jobId, ["wA"], [])

theorem assignedIn_eq_runsAs {s : Serve} {jobId : String} (h : assignedIn s jobId = runsAs jobId) :
    ∃ x job, (s.conns.lookup 1 = some x ∧ x.authed = true ∧ x.workerId = "wA" ∧
        x.pubkey = some (keyHex 1)) ∧
      s.pending = some job ∧ job.descriptor = describedAs jobId ∧ job.dispatchedIds = ["wA"] ∧
        job.results = [] := by
  obtain ⟨x, hx, hworker⟩ := Option.map_eq_some_iff.mp (congrArg Assigned.worker h)
  obtain ⟨job, hjob, hpending⟩ := Option.map_eq_some_iff.mp (congrArg Assigned.pending h)
  simp only [Prod.mk.injEq] at hworker hpending
  exact ⟨x, job, ⟨hx, hworker⟩, hjob, hpending⟩

theorem honest_result_counted_ebreak : ∃ job, (assignedAs "job-1").pending = some job ∧
    EntersVote job ebreakAnswer
      ((assignedAs "job-1").onResult receiptCrypto renamingConfig 1 ebreakAnswer) := by
  have hrun : assignedIn (assignedAs "job-1") "job-1" = runsAs "job-1" := by decide +kernel
  obtain ⟨x, job, ⟨hx, hauthed, hname, hkey⟩, hjob, hdesc, hdispatched, hresults⟩ :=
    assignedIn_eq_runsAs hrun
  have hwork := answer_describedAs "job-1" (by decide +kernel)
  rw [← hdesc] at hwork
  obtain ⟨manifest, -, hid, hcounted⟩ := honest_result_counted_iff plainDaemon toyWorker keyOne rfl
    keyOne_signs (demoStore [0x02, 0x90]) ebreakAnswer hwork hx hauthed hname hkey hjob
    (by rw [hname, hdispatched]; exact List.mem_singleton.mpr rfl) (by rw [hresults]; exact nofun)
  exact ⟨job, hjob, hcounted.mpr (hid.mp (by rw [hdesc]; rfl))⟩

/-- The submitter calls the job `job-2`: the submission is accepted and the worker is
sent the job, but its answer says `job-1` and is dropped. -/
theorem honest_result_dropped :
    assignedIn (assignedAs "job-2") "job-2" = runsAs "job-2" ∧
    assignmentResult plainDaemon toyWorker (describedAs "job-2") (demoStore [0x02, 0x90])
      = some (some ebreakAnswer) ∧
    ebreakAnswer.jobId ≠ (describedAs "job-2").jobId ∧
    (assignedAs "job-2").onResult receiptCrypto renamingConfig 1 ebreakAnswer
      = some (assignedAs "job-2") := by
  have hrun : assignedIn (assignedAs "job-2") "job-2" = runsAs "job-2" := by decide +kernel
  refine ⟨hrun, answer_describedAs "job-2" (by decide +kernel), by decide, ?_⟩
  obtain ⟨-, job, -, hjob, hdesc, -⟩ := assignedIn_eq_runsAs hrun
  refine onResult_otherJob hjob ?_
  rw [hdesc]
  decide

end Provework.Worker
