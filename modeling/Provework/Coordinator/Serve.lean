import Mathlib.Data.List.AList
import Mathlib.Data.List.Perm.Basic
import Provework.Coordinator.Quorum
import Provework.Wire

/-!
# The coordinator's event loop (`serve` of `crates/coordinator/src/net.rs`)

`serve` owns one pending job and a table of connections. Each turn of its loop
scans for a job, dispatches it, checks whether it is complete, and handles one
event; the acceptor and the session threads add and remove connections at the
same time. A `Serve` is the state of all of it between two critical sections,
with `pc` saying where the loop stands, and `step` is one critical section of
any thread, or one event with all its locks. An act that is not the loop's next one
does nothing, so a run is any list of acts.

Modelling notes:
- The handlers of uploads and submissions look the connection up, release the lock and
  look it up again to answer, and a decision is told to its subscribers, and its end to
  everybody, under one lock each. All of this is one step here. What the other threads
  do in between commutes with it, except that they may remove a connection before its
  message. For uploads, `Host.cutOff` says so, and there is no answer then (`answer`).
  Elsewhere the message is sent first and the connection is removed in a step of its
  own; the source sends it nothing. Nobody takes it from the queue in either case.
- `HashMap<usize, Conn>` is an `AList` whose entries are in iteration order. The
  order is nobody's promise: `ThreadStep.reorder` may change it at any time.
- `outbound.send` appends to `sent`, which keeps everything ever sent and to
  which connection; closing a connection does not erase it.
- What the host answers (the clock, random bytes, the judges, the external
  verifier, file system errors) is part of the act.
- Logging is left out except where it can panic: `Option` results are `none`
  when a log line slices a string off a character boundary.
- `PendingJob.trail` is not in the source. It records to which connections this
  job was assigned and on which one each result arrived.
-/

namespace Provework.Coordinator

open Provework.Lib Provework.Jobfmt Provework.Contentstore Provework.Wire

/-! ## State -/

inductive Role where
  | worker
  | submitter
  deriving DecidableEq, Repr

/-- Whatever does not say `"submitter"` is a worker. -/
def Role.parse (role : String) : Role := if role = "submitter" then .submitter else .worker

structure Conn where
  pubkey : Option String
  nonce : Option (List U8)
  workerId : String
  authed : Bool
  peerAddr : Option String
  peerIp : String
  role : Role
  uploads : Nat
  deriving DecidableEq, Repr

/-- The connections, in iteration order. -/
abbrev Conns := AList fun _ : Nat => Conn

/-- `map.values()`. -/
def Conns.values (conns : Conns) : List Conn := conns.entries.map Sigma.snd

structure ServeConfig where
  jobsDir : String
  perJobDeadline : Nat
  requireIdentity : Bool
  /-- `zk.is_some()`: receipt claims are verified. -/
  zk : Bool
  /-- `zk_prover.is_some()`: there is a proving queue. -/
  zkProver : Bool
  acceptSubmissions : Bool
  identityPowBits : Nat
  pool : Option Nat
  maxJobs : Option Nat
  round1Size : Option Nat
  round1Ids : Option (List String)

/-- Who was sent a job, and where its results came from, in order. -/
structure Trail where
  assigned : List Nat
  origins : List Nat
  deriving DecidableEq, Repr

structure PendingJob where
  descriptor : JobDescriptor
  targets : Option (List String)
  path : String
  dispatched : Bool
  escalated : Bool
  dispatchedIds : List String
  reserves : List String
  results : List WorkerResult
  started : Nat
  zkAccept : Option Decision
  receiptClaimed : List String
  subscribers : List Nat
  trail : Trail
  deriving DecidableEq, Repr

structure JobOutcome where
  jobId : String
  decision : Decision
  results : List WorkerResult
  bondDeltas : List (String × Int)
  deriving DecidableEq, Repr

/-- Round 1: worker ids with their peer hints. -/
abbrev Selection := List (String × List String)

/-- Where the loop stands. -/
inductive Pc where
  | top
  | dispatch
  /-- The candidates are chosen and the lock is released. -/
  | hold (selected : Selection)
  /-- The reserves are collected and the lock is released again. -/
  | assign (selected : Selection) (reserves : List String)
  | complete
  | events
  | returned (error : Option String)
  | panicked
  deriving DecidableEq, Repr

structure Serve where
  conns : Conns
  nextConn : Nat
  pending : Option PendingJob
  outcomes : List JobOutcome
  jobsDone : Nat
  submitterSubs : AList fun _ : String => List Nat
  /-- Jobs handed to the proving thread, oldest first. -/
  proving : List PendingJob
  store : Store
  sent : List (Nat × ServerToClient)
  pc : Pc

namespace Serve

def init (nextConn : Nat) (store : Store) : Serve :=
  { conns := ∅
    nextConn := nextConn
    pending := none
    outcomes := []
    jobsDone := 0
    submitterSubs := ∅
    proving := []
    store := store
    sent := []
    pc := .top }

/-- `let _ = c.outbound.send(msg)`. -/
def send (s : Serve) (conn : Nat) (msg : ServerToClient) : Serve :=
  { s with sent := s.sent ++ [(conn, msg)] }

/-- Send if the connection is still there. -/
def sendTo (s : Serve) (conn : Nat) (msg : ServerToClient) : Serve :=
  if conn ∈ s.conns then s.send conn msg else s

/-- The answer to an upload: the lock was released since the connection was looked up,
and `cutOff` says that the session thread has removed the connection by now. -/
def answer (s : Serve) (cutOff : Bool) (conn : Nat) (msg : ServerToClient) : Serve :=
  if cutOff then { s with conns := s.conns.erase conn } else s.sendTo conn msg

/-- `broadcast_between_jobs` and `shutdown_all`. -/
def broadcast (s : Serve) (msg : ServerToClient) : Serve :=
  { s with sent := s.sent ++ s.conns.keys.map fun conn => (conn, msg) }

end Serve

/-! ## The other threads -/

inductive ThreadStep where
  /-- The acceptor takes a connection. -/
  | accept (peerIp : String)
  /-- A session thread ends and removes its connection. -/
  | hangUp (conn : Nat)
  /-- The table iterates in another order from now on. -/
  | reorder (entries : List ((_ : Nat) × Conn))
  /-- Some program changes a blob file. -/
  | disk (id : ContentId) (file : Option (List U8))

/-- `format!("w{id}")`. -/
def defaultId (conn : Nat) : String := "w" ++ toString conn

/-- A connection before its first `Hello`. -/
def Conn.new (conn : Nat) (peerIp : String) : Conn :=
  { pubkey := none
    nonce := none
    workerId := defaultId conn
    authed := false
    peerAddr := none
    peerIp := peerIp
    role := .worker
    uploads := 0 }

def Conns.reorder (conns : Conns) (entries : List ((_ : Nat) × Conn)) : Conns :=
  if h : entries.Perm conns.entries then
    ⟨entries, (List.perm_nodupKeys h).mpr conns.nodupKeys⟩
  else conns

def Serve.thread (s : Serve) : ThreadStep → Serve
  | .accept peerIp =>
    { s with
      conns := s.conns.insert s.nextConn (Conn.new s.nextConn peerIp)
      nextConn := s.nextConn + 1 }
  | .hangUp conn => { s with conns := s.conns.erase conn }
  | .reorder entries => { s with conns := s.conns.reorder entries }
  | .disk id file => { s with store := Function.update s.store id file }

/-! ## A new job -/

/-- Descriptor, explicit targets and path of a queued job. -/
abbrev QueuedJob := JobDescriptor × Option (List String) × String

def PendingJob.queued (descriptor : JobDescriptor) (targets : Option (List String)) (path : String)
    (now : Nat) (subscribers : List Nat) : PendingJob :=
  { descriptor := descriptor
    targets := targets
    path := path
    dispatched := false
    escalated := false
    dispatchedIds := []
    reserves := []
    results := []
    started := now
    zkAccept := none
    receiptClaimed := []
    subscribers := subscribers
    trail := ⟨[], []⟩ }

/-- The head of the loop: stop after `max_jobs`, or look for a job; `found` is
the answer of `scan_jobs_dir`. -/
def Serve.scan (s : Serve) (cfg : ServeConfig) (found : Except String (Option QueuedJob))
    (now : Nat) : Serve :=
  if cfg.maxJobs.any (· ≤ s.jobsDone) then
    { s.broadcast (.shutDown "all queued jobs complete") with pc := .returned none }
  else if s.pending.isSome then { s with pc := .dispatch }
  else
    match found with
    | .error e => { s with pc := .returned (some e) }
    | .ok none => { s with pc := .dispatch }
    | .ok (some (descriptor, targets, path)) =>
      let subscribers := (s.submitterSubs.lookup descriptor.jobId).getD []
      { s with
        submitterSubs := s.submitterSubs.erase descriptor.jobId
        pending := some (.queued descriptor targets path now subscribers)
        pc := .dispatch }

/-! ## Dispatch -/

/-- The peers a worker may fetch blobs from. -/
def Conns.peerHints (conns : Conns) (wid : String) : List String :=
  (conns.values.filter fun p => p.authed && p.peerAddr.isSome && p.workerId ≠ wid).filterMap
    (·.peerAddr)

/-- Authenticated and dispatchable. -/
def Conn.available (c : Conn) : Bool := c.authed && c.role = .worker

def targetsReady (cfg : ServeConfig) (conns : Conns) (job : PendingJob) : Bool :=
  let authedCount := conns.values.countP Conn.available
  let poolReady := cfg.pool.all (· ≤ authedCount)
  let present := fun ids : List String =>
    ids.all fun id => conns.values.any fun c => c.authed && c.workerId = id
  match job.targets, cfg.round1Ids with
  | some ids, _ => present ids && poolReady
  | none, some ids => present ids && poolReady
  | none, none => cfg.pool.getD 1 ≤ authedCount

/-- The eligible workers with their hints. -/
def candidates (conns : Conns) (job : PendingJob) : Selection :=
  (conns.values.filter fun c =>
    (match job.targets with
      | some ids => ids.contains c.workerId
      | none => c.authed) && c.available).map
    fun c => (c.workerId, conns.peerHints c.workerId)

/-- `items.swap(i, j)`. -/
def swap {α : Type} (items : List α) (i j : Nat) : List α :=
  match items[i]?, items[j]? with
  | some a, some b => (items.set i b).set j a
  | _, _ => items

/-- The Fisher–Yates loop from index `i` down to 1. -/
def shuffleFrom {α : Type} (draws : Nat → U64) : Nat → List α → List α
  | 0, items => items
  | i + 1, items => shuffleFrom draws i (swap items (i + 1) ((draws (i + 1)).toNat % (i + 2)))

/-- `draws i` is the random number drawn at index `i`. -/
def shuffle {α : Type} (draws : Nat → U64) (items : List α) : List α :=
  shuffleFrom draws (items.length - 1) items

def select (cfg : ServeConfig) (draws : Nat → U64) (job : PendingJob) (cands : Selection) :
    Selection :=
  match cfg.round1Ids.filter fun _ => job.targets.isNone with
  | some ids => ids.filterMap fun id => cands.find? fun cand => cand.1 = id
  | none =>
    match cfg.round1Size with
    | some n => if n < cands.length then (shuffle draws cands).take n else cands
    | none => cands

/-- The workers outside round 1, and outside the job's targets. -/
def reservesOf (conns : Conns) (job : PendingJob) (selected : Selection) : List String :=
  (conns.values.filter fun c =>
    c.available && !(selected.map Prod.fst).contains c.workerId
      && job.targets.all fun ids => !ids.contains c.workerId).map (·.workerId)

/-- The connection round 1 takes for a worker id. -/
def Conns.bearer (conns : Conns) (wid : String) : Option Nat :=
  (conns.entries.find? fun e => e.2.workerId = wid).map Sigma.fst

/-- The connection the escalation takes for a worker id. -/
def Conns.authedBearer (conns : Conns) (wid : String) : Option Nat :=
  (conns.entries.find? fun e => e.2.workerId = wid && e.2.authed).map Sigma.fst

/-- Send the job to the connection `pick` finds for each id, and count the id as
dispatched. -/
def assignAll (pick : String → Option Nat) : Selection → PendingJob →
    List (Nat × ServerToClient) → PendingJob × List (Nat × ServerToClient)
  | [], job, sent => (job, sent)
  | (wid, hints) :: rest, job, sent =>
    match pick wid with
    | none => assignAll pick rest job sent
    | some conn =>
      assignAll pick rest
        { job with
          dispatchedIds := job.dispatchedIds ++ [wid]
          trail := { job.trail with assigned := job.trail.assigned ++ [conn] } }
        (sent ++ [(conn, .jobAssignment job.descriptor hints)])

/-- First lock of the dispatch: are the targets there, and who is in round 1? -/
def Serve.choose (s : Serve) (cfg : ServeConfig) (draws : Nat → U64) : Serve :=
  match s.pending with
  | none => { s with pc := .complete }
  | some job =>
    if !job.dispatched && targetsReady cfg s.conns job then
      { s with pc := .hold (select cfg draws job (candidates s.conns job)) }
    else { s with pc := .complete }

/-- Second lock: who is held back? -/
def Serve.hold (s : Serve) (selected : Selection) : Serve :=
  match s.pending with
  | none => { s with pc := .complete }
  | some job => { s with pc := .assign selected (reservesOf s.conns job selected) }

/-- Third lock: send the assignments. -/
def Serve.assign (s : Serve) (selected : Selection) (reserves : List String) (now : Nat) : Serve :=
  match s.pending with
  | none => { s with pc := .complete }
  | some job =>
    let (job, sent) := assignAll s.conns.bearer selected job s.sent
    { s with
      pending := some { job with reserves := reserves, dispatched := true, started := now }
      sent := sent
      pc := .complete }

/-! ## Completion -/

def PendingJob.allIn (job : PendingJob) : Bool :=
  job.zkAccept.isSome ||
    job.dispatchedIds.all fun id => job.results.any fun r => r.workerId = id

/-- The job as the finish path sees it. -/
def PendingJob.finished (job : PendingJob) : PendingJob :=
  { job with dispatched := true, escalated := false, reserves := [] }

/-- A receipt needs no consensus, a majority no judge; `zk` and `replay` are
what the two judges would say of this job. -/
def PendingJob.decision (job : PendingJob) (zk replay : Option Decision) : Decision :=
  match job.zkAccept with
  | some d => d
  | none =>
    match Quorum.decide job.results job.dispatchedIds.length with
    | .escalate =>
      match zk with
      | some d => d
      | none => replay.getD (.reject "no majority; dispute judgment failed")
    | other => other

def Serve.finishDecidedJob (s : Serve) (job : PendingJob) (decision : Decision) : Serve :=
  let s : Serve := match decision with
    | .accept hash outputHex agreed zk =>
      let notice := ServerToClient.jobOutcome job.descriptor.jobId hash agreed outputHex zk none
      job.subscribers.foldl (fun s conn => s.sendTo conn notice) s
    | _ => s
  { s with
    outcomes := s.outcomes ++ [{ jobId := job.descriptor.jobId
                                 decision := decision
                                 results := job.results
                                 bondDeltas := slashing decision job.results }]
    jobsDone := s.jobsDone + 1 }

/-- Decide, tell everybody, and free the slot. -/
def Serve.finish (s : Serve) (job : PendingJob) (zk replay : Option Decision) : Serve :=
  let s := (s.finishDecidedJob job (job.decision zk replay)).broadcast .betweenJobs
  { s with pending := none, pc := .top }

/-- Dispatch the reserves. -/
def Serve.escalate (s : Serve) (job : PendingJob) (now : Nat) : Serve :=
  let (job', sent) := assignAll s.conns.authedBearer
    (job.reserves.map fun wid => (wid, s.conns.peerHints wid)) { job with reserves := [] } s.sent
  { s with
    pending := some { job' with escalated := true, started := now }
    sent := sent
    pc := .top }

def Serve.checkComplete (s : Serve) (cfg : ServeConfig) (now : Nat) (zk replay : Option Decision) :
    Serve :=
  match s.pending with
  | none => { s with pc := .events }
  | some job =>
    if !job.dispatched then { s with pc := .events }
    else if job.allIn then
      if Quorum.decide job.results job.dispatchedIds.length = .escalate ∧ job.reserves ≠ [] then
        s.escalate job now
      else s.finish job.finished zk replay
    else if cfg.perJobDeadline < now - job.started then s.finish job.finished zk replay
    else { s with pc := .events }

/-! ## Events -/

inductive Event where
  | hello (conn : Nat) (pubkey workerId : String) (listenPort : Option Nat) (role : String)
  | nonceSig (conn : Nat) (sig : Option String) (powCounter : U64)
  | jobSubmission (conn : Nat) (submitter : String) (descriptor : JobDescriptor)
      (pubkeyHex sigHex : String) (requireZk : Bool)
  | blobUpload (conn : Nat) (idHex bytesHex : String)
  | receiptClaim (conn : Nat) (workerId jobId pubkeyHex sigHex receiptHex : String)
  | blobRequest (conn : Nat) (id : String)
  | result (conn : Nat) (result : WorkerResult)
  | closed (conn : Nat)
  /-- The proving thread is done with its oldest job. -/
  | proved (decision : Decision)
  deriving DecidableEq, Repr

structure ReceiptOutcome where
  status : Nat
  instructions : U64
  chunkHashes : List String
  outputHex : String
  deriving DecidableEq, Repr

/-- What the host answers while an event is handled. -/
structure Host where
  /-- `rand_nonce()`. -/
  nonce : Hash
  /-- The error of `store.put`, if it fails. -/
  putError : Option String
  /-- The error of creating the descriptor file of a submission. `create_new` fails while
  a file of that name is queued. -/
  createError : Option String
  /-- The error of writing it; the file is removed again. -/
  writeError : Option String
  /-- Whether the proving thread takes jobs. -/
  taskSent : Bool
  /-- The verdict of the external receipt verifier. -/
  receipt : Except String ReceiptOutcome
  /-- Whether the session thread removes the connection between the two locks of the
  handler of its upload. -/
  cutOff : Bool

/-- The descriptor file of a submission is in the jobs directory. -/
def Host.landed (host : Host) : Bool := host.createError.isNone && host.writeError.isNone

def maxBlobBytes : Nat := 16 * 1024 * 1024

def maxUploadsPerConn : Nat := 8

def maxReceiptBytes : Nat := 64 * 1024 * 1024

/-- What a `Hello` writes into its connection: everything but `authed`. -/
def Conn.greet (c : Conn) (nonce : List U8) (pubkey workerId : String) (listenPort : Option Nat)
    (role : String) : Conn :=
  { c with
    pubkey := if pubkey = "" then none else some pubkey
    workerId := if workerId = "" then c.workerId else workerId
    role := Role.parse role
    nonce := some nonce
    peerAddr := match listenPort with
      | some port => some (c.peerIp ++ ":" ++ toString port)
      | none => c.peerAddr }

def Serve.onHello (s : Serve) (cfg : ServeConfig) (nonce : List U8) (conn : Nat)
    (pubkey workerId : String) (listenPort : Option Nat) (role : String) : Serve :=
  match s.conns.lookup conn with
  | none => s
  | some c =>
    let s : Serve :=
      { s with conns := s.conns.insert conn (c.greet nonce pubkey workerId listenPort role) }
    s.send conn (.nonce (hex nonce) cfg.identityPowBits)

def verifyNonce (crypto : Crypto) (pubkeyHex : String) (nonce : List U8) (sigHex : String) :
    Except String Unit :=
  crypto.verifyHex id id pubkeyHex sigHex nonce

/-- `auth_ok`: the proof-of-work, then the signature by the key of the `Hello`. -/
def authOk (crypto : Crypto) (cfg : ServeConfig) (c : Conn) (sig : Option String)
    (powCounter : U64) : Bool :=
  (match c.nonce with
    | some nonce => verifyPow crypto.blake3 nonce powCounter cfg.identityPowBits
    | none => false) &&
  match c.pubkey, sig, c.nonce with
  | some pk, some sig, some nonce => (verifyNonce crypto pk nonce sig).isOk
  | none, _, some _ => !cfg.requireIdentity
  | _, _, _ => false

/-- A worker that authenticates after the dispatch becomes a reserve. -/
def PendingJob.lateJoiner (job : PendingJob) (wid : String) : PendingJob :=
  if job.dispatched && !job.escalated && job.targets.isNone && !job.dispatchedIds.contains wid then
    { job with reserves := job.reserves ++ [wid] }
  else job

namespace Serve

variable (crypto : Crypto) (cfg : ServeConfig)

def onNonceSig (s : Serve) (conn : Nat) (sig : Option String) (powCounter : U64) : Serve :=
  match s.conns.lookup conn with
  | none => s
  | some c =>
    if authOk crypto cfg c sig powCounter then
      let s : Serve := { s with
        conns := s.conns.insert conn { c with authed := true }
        pending := s.pending.map fun job => job.lateJoiner c.workerId }
      s.send conn (.authOk c.workerId)
    else (s.send conn (.authFailed "nonce signature invalid")).send conn (.shutDown "auth failed")

def onBlobRequest (s : Serve) (conn : Nat) (id : String) : Option Serve :=
  match s.conns.lookup conn with
  | none => some s
  | some _ =>
    match ContentId.fromHex id with
    | none => none
    | some cid =>
      if sliceable id (min 12 (utf8 id).length) then
        let data := match cid with
          | .ok cid => s.store.get crypto.blake3 cid
          | .error _ => none
        some (s.send conn (.blob (data.map hex)))
      else none

/-- Quorum integrity, for a result that passed the checks on its connection. -/
def countResult (s : Serve) (conn : Nat) (wid : String) (result : WorkerResult) : Option Serve :=
  match s.pending with
  | none => some s
  | some job =>
    if result.jobId ≠ job.descriptor.jobId then some s
    else if wid ∉ job.dispatchedIds then some s
    else if job.results.any fun r => r.workerId = wid then some s
    else if sliceable result.resultHash 12 then
      some { s with
        pending := some { job with
          results := job.results ++ [result]
          trail := { job.trail with origins := job.trail.origins ++ [conn] } } }
    else none

/-- Whether the key a result carries may speak for the connection's key. -/
def keyMatches (c : Conn) (result : WorkerResult) : Bool :=
  match c.pubkey, result.pubkeyHex with
  | some pk, some claimed => pk = claimed
  | none, _ => !cfg.requireIdentity
  | some _, none => true

def onResult (s : Serve) (conn : Nat) (result : WorkerResult) : Option Serve :=
  match s.conns.lookup conn with
  | none => some s
  | some c =>
    if !c.authed then some s
    else if result.workerId ≠ c.workerId then some s
    else if !keyMatches cfg c result then some s
    else
      match verifySignature crypto result with
      | .error _ => some s
      | .ok () => s.countResult conn c.workerId result

/-- The upload once the connection may make it. -/
def storeUpload (s : Serve) (host : Host) (conn : Nat) (idHex bytesHex : String) : Option Serve :=
  let ack := fun accepted reason => s.answer host.cutOff conn (.blobAck idHex accepted reason)
  if 2 * maxBlobBytes < (utf8 bytesHex).length then
    some (ack false (some s!"blob exceeds the {maxBlobBytes}-byte limit"))
  else
    match fromHex bytesHex ((utf8 bytesHex).length / 2) with
    | .error e => some (ack false (some ("bad hex: " ++ e.text)))
    | .ok bytes =>
      match fromHex idHex 32 with
      | .error e => some (ack false (some ("bad id hex: " ++ e.text)))
      | .ok claimed =>
        if claimed ≠ List.ofFn (crypto.blake3 bytes) then
          some (ack false (some "hash mismatch: bytes are not the claimed content"))
        else
          match host.putError with
          | some e => some (ack false (some ("store: " ++ e)))
          | none =>
            if sliceable idHex (min 12 (utf8 idHex).length) then
              some { ack true none with store := s.store.put crypto.blake3 bytes }
            else none

def handleBlobUpload (s : Serve) (host : Host) (conn : Nat) (idHex bytesHex : String) :
    Option Serve :=
  match s.conns.lookup conn with
  | none => some s
  | some c =>
    if !c.authed then some s
    else if maxUploadsPerConn ≤ c.uploads then
      some (s.answer host.cutOff conn
        (.blobAck idHex false (some "upload limit reached for this connection")))
    else
      -- charged before it is looked at: a refused upload counts against the limit too
      let s := { s with conns := s.conns.insert conn { c with uploads := c.uploads + 1 } }
      s.storeUpload crypto host conn idHex bytesHex

end Serve

/-! ## Submissions -/

/-- How the check that a submission's blobs are stored can end. -/
inductive BlobCheck where
  | present
  | dropped
  | missing (label idHex : String)
  | panicked
  deriving DecidableEq, Repr

def checkBlobs (store : Store) : List (String × String) → BlobCheck
  | [] => .present
  | (label, idHex) :: rest =>
    match ContentId.fromHex idHex with
    | none => .panicked
    | some (.error _) => .dropped
    | some (.ok id) => if store.has id then checkBlobs store rest else .missing label idHex

/-- A job for the proving thread: it counts as dispatched, to nobody. -/
def PendingJob.proof (cfg : ServeConfig) (descriptor : JobDescriptor) (now conn : Nat) :
    PendingJob :=
  { PendingJob.queued descriptor none (cfg.jobsDir ++ "/zk-proving") now
    [conn] with dispatched := true }

/-- A submission that lands while its job is pending subscribes to it. -/
def PendingJob.subscribe (job : PendingJob) (jobId : String) (conn : Nat) : PendingJob :=
  if job.descriptor.jobId = jobId ∧ conn ∉ job.subscribers then
    { job with subscribers := job.subscribers ++ [conn] }
  else job

namespace Serve

variable (crypto : Crypto) (cfg : ServeConfig)

/-- `require_zk`: to the proving queue. -/
def submitProof (s : Serve) (taskSent : Bool) (now conn : Nat) (descriptor : JobDescriptor) :
    Serve :=
  if !cfg.zkProver then
    s.sendTo conn (.submissionAck descriptor.jobId false
      (some "coordinator does not run a zk prover — high-assurance submissions refused") false)
  else if !taskSent then s
  else
    let s : Serve := { s with proving := s.proving ++ [.proof cfg descriptor now conn] }
    s.sendTo conn (.submissionAck descriptor.jobId true none true)

/-- To the watched directory. -/
def submitFile (s : Serve) (landed : Bool) (conn : Nat) (descriptor : JobDescriptor) : Serve :=
  if !landed then s
  else
    let jobId := descriptor.jobId
    let subs := (s.submitterSubs.lookup jobId).getD []
    { s.sendTo conn (.submissionAck jobId true none false) with
      submitterSubs := s.submitterSubs.insert jobId (subs ++ [conn])
      pending := s.pending.map fun job => job.subscribe jobId conn }

def handleJobSubmission (s : Serve) (host : Host) (now conn : Nat) (descriptor : JobDescriptor)
    (pubkeyHex sigHex : String) (requireZk : Bool) : Option Serve :=
  if !cfg.acceptSubmissions then some s
  else
    match s.conns.lookup conn with
    | none => some s
    | some c =>
      if !c.authed then some s
      else if c.pubkey.any (· ≠ pubkeyHex) then some s
      else
        let descId := crypto.blake3 descriptor.json
        match crypto.verifyHex id id pubkeyHex sigHex
            (submissionMessage descriptor.jobId descId) with
        | .error _ => some s
        | .ok () =>
          if !confinedName descriptor.jobId then some s
          else
            -- what was dropped so far was dropped without an answer
            match checkBlobs s.store [("manifest", descriptor.manifest), ("elf", descriptor.elf),
                ("input", descriptor.input)] with
            | .panicked => none
            | .dropped => some s
            | .missing label idHex =>
              some (s.sendTo conn (.submissionAck descriptor.jobId false
                (some s!"blob missing: {label} ({idHex}) — send BlobUpload first") false))
            | .present =>
              if requireZk then some (s.submitProof cfg host.taskSent now conn descriptor)
              else some (s.submitFile host.landed conn descriptor)

end Serve

/-! ## Receipt claims -/

def verifyClaimSig (crypto : Crypto) (pubkeyHex jobId : String) (receiptHash : Hash)
    (sigHex : String) : Except String Unit :=
  crypto.verifyHex ("pubkey: " ++ ·) ("signature: " ++ ·) pubkeyHex sigHex
    (receiptClaimMessage jobId receiptHash)

/-- The three content ids a receipt must be bound to. -/
def expectedBinding (d : JobDescriptor) : Except HexError (List (List U8)) := do
  let manifest ← fromHex d.manifest 32
  let elf ← fromHex d.elf 32
  let input ← fromHex d.input 32
  return [manifest, elf, input]

/-- `receipt_claim_gate`: one attempt per worker. -/
def receiptClaimGate (claimed : List String) (workerId : String) : Option (List String) :=
  if workerId ∈ claimed then none else some (claimed ++ [workerId])

/-- A verified receipt settles the job; `none` if its hash cannot be logged. -/
def PendingJob.acceptReceipt (job : PendingJob) (workerId : String) (outcome : ReceiptOutcome) :
    Option PendingJob :=
  if outcome.status = 0 then
    let hash := outcome.chunkHashes.getLast?.getD ""
    if sliceable hash (min 12 (utf8 hash).length) then
      some { job with zkAccept := some (.accept hash (some outcome.outputHex) [workerId] true) }
    else none
  else some job

namespace Serve

variable (crypto : Crypto) (cfg : ServeConfig)

/-- The claim once its signature verifies. -/
def claimReceipt (s : Serve) (receipt : Except String ReceiptOutcome) (workerId jobId : String) :
    Option Serve :=
  match s.pending with
  | none => some s
  | some job =>
    if jobId ≠ job.descriptor.jobId ∨ job.zkAccept.isSome then some s
    else if workerId ∉ job.dispatchedIds then some s
    else
      match receiptClaimGate job.receiptClaimed workerId with
      | none => some s
      | some claimed =>
        let job := { job with receiptClaimed := claimed }
        match expectedBinding job.descriptor, receipt with
        | .ok _, .ok outcome =>
          (job.acceptReceipt workerId outcome).map fun job => { s with pending := some job }
        | _, _ => some { s with pending := some job }

def handleReceiptClaim (s : Serve) (receipt : Except String ReceiptOutcome)
    (workerId jobId pubkeyHex sigHex receiptHex : String) : Option Serve :=
  if !cfg.zk then some s
  else if 2 * maxReceiptBytes < (utf8 receiptHex).length then some s
  else
    match fromHex receiptHex ((utf8 receiptHex).length / 2) with
    | .error _ => some s
    | .ok bytes =>
      match verifyClaimSig crypto pubkeyHex jobId (crypto.blake3 bytes) sigHex with
      | .error _ => some s
      | .ok () => s.claimReceipt receipt workerId jobId

def onReceiptClaim (s : Serve) (receipt : Except String ReceiptOutcome) (conn : Nat)
    (workerId jobId pubkeyHex sigHex receiptHex : String) : Option Serve :=
  match s.conns.lookup conn with
  | none => some s
  | some c =>
    if !c.authed then some s
    else if workerId ≠ c.workerId then some s
    else if c.pubkey.any (· ≠ pubkeyHex) then some s
    else s.handleReceiptClaim crypto cfg receipt workerId jobId pubkeyHex sigHex receiptHex

def onClosed (s : Serve) (conn : Nat) : Serve := { s with conns := s.conns.erase conn }

/-- The proving queue bypasses the pending slot. -/
def onProved (s : Serve) (decision : Decision) : Serve :=
  match s.proving with
  | [] => s
  | job :: rest =>
    let s : Serve := { s with proving := rest }
    (s.finishDecidedJob job decision).broadcast .betweenJobs

/-! ## The loop -/

/-- One event; `none` if handling it panics. -/
def onEvent (s : Serve) (host : Host) (now : Nat) : Event → Option Serve
  | .hello conn pubkey workerId listenPort role =>
    some (s.onHello cfg (List.ofFn host.nonce) conn pubkey workerId listenPort role)
  | .nonceSig conn sig powCounter => some (s.onNonceSig crypto cfg conn sig powCounter)
  | .jobSubmission conn _ descriptor pubkeyHex sigHex requireZk =>
    s.handleJobSubmission crypto cfg host now conn descriptor pubkeyHex sigHex requireZk
  | .blobUpload conn idHex bytesHex => s.handleBlobUpload crypto host conn idHex bytesHex
  | .receiptClaim conn workerId jobId pubkeyHex sigHex receiptHex =>
    s.onReceiptClaim crypto cfg host.receipt conn workerId jobId pubkeyHex sigHex receiptHex
  | .blobRequest conn id => s.onBlobRequest crypto conn id
  | .result conn result => s.onResult crypto cfg conn result
  | .closed conn => some (s.onClosed conn)
  | .proved decision => some (s.onProved decision)

/-- Handle an event and go back to the top of the loop. -/
def handle (s : Serve) (host : Host) (now : Nat) (e : Event) : Serve :=
  match s.onEvent crypto cfg host now e with
  | none => { s with pc := .panicked }
  | some s' => { s' with pc := .top }

end Serve

/-- One critical section. -/
inductive Act where
  | thread (t : ThreadStep)
  | scan (found : Except String (Option QueuedJob)) (now : Nat)
  | choose (draws : Nat → U64)
  | hold
  | assign (now : Nat)
  | complete (now : Nat) (zk replay : Option Decision)
  /-- No event arrived in time. -/
  | idle
  | event (e : Event) (host : Host) (now : Nat)

def step (crypto : Crypto) (cfg : ServeConfig) (s : Serve) : Act → Serve
  | .thread t => s.thread t
  | .scan found now => if s.pc = .top then s.scan cfg found now else s
  | .choose draws => if s.pc = .dispatch then s.choose cfg draws else s
  | .hold =>
    match s.pc with
    | .hold selected => s.hold selected
    | _ => s
  | .assign now =>
    match s.pc with
    | .assign selected reserves => s.assign selected reserves now
    | _ => s
  | .complete now zk replay => if s.pc = .complete then s.checkComplete cfg now zk replay else s
  | .idle => if s.pc = .events then { s with pc := .top } else s
  | .event e host now => if s.pc = .events then s.handle crypto cfg host now e else s

end Provework.Coordinator
