import Provework.Coordinator.Conversations
import Provework.Wire.Pow
import Provework.Worker.Daemon

/-!
# Submitting a job (`submit` of `crates/jobkit/src/main.rs`)

The submitter logs in as a worker does, uploads the three blobs of its job one by one
and submits the descriptor. It waits for each answer and takes the next message for
it, so every message nobody asked for that comes before the last blob is acknowledged
makes it panic; the coordinator sends such a message to everybody whenever a job ends.

`submit_answered` follows it in any run of the coordinator: as long as it is not
disturbed that way, each of its messages is answered, and answered well. The host of the
coordinator has to do its part (`HostServes`). A blob that cannot be stored is refused,
and the client exits; and a submission whose file cannot be created is dropped without
an answer, as it is while another one with the same job id is queued.

Modelling notes:
- The job is published already: the client reads the blobs back from its own store.
- `mine_pow` is a parameter. What it returns is in `Wire/Pow`.
- A stream that breaks ends the client, which then sends nothing more. Every frame is
  below the limit of 64 MiB, for a blob has 16 at most.
-/

namespace Provework.Jobkit

open Provework.Lib Provework.Jobfmt Provework.Contentstore Provework.Wire Provework.Coordinator
  Provework.Worker

/-! ## The client -/

def maxBlobBytes : Nat := 16 * 1024 * 1024

/-- What `submit` works with once the job is published. -/
structure Submission where
  identity : Identity
  descriptor : JobDescriptor
  store : Store
  requireZk : Bool
  mine : List U8 → Nat → U64

inductive SubmitPhase where
  | nonce
  | auth
  /-- A blob is uploaded; these come behind it. -/
  | ack (rest : List String)
  | outcome
  | done
  | exited
  | panicked
  deriving DecidableEq, Repr

namespace Submission

variable (blake3 : List U8 → Hash) (job : Submission)

def keyHex : String := hex job.identity.verifyingKey

/-- The first characters of the key. -/
def workerId : String := "submitter-" ++ String.ofList (job.keyHex.toList.take 8)

def hello : ClientToServer := .hello job.keyHex job.workerId none "submitter"

def nonceSignature (nonce : List U8) (powBits : Nat) : ClientToServer :=
  .nonceSignature (some (hex (job.identity.sign nonce))) (job.mine nonce powBits)

def jobSubmission : ClientToServer :=
  .jobSubmission job.descriptor.jobId job.descriptor job.keyHex
    (hex (job.identity.sign (submissionMessage job.descriptor.jobId (blake3 job.descriptor.json))))
    job.requireZk

/-- The blobs in the order of their upload. -/
def blobIds : List String := [job.descriptor.manifest, job.descriptor.elf, job.descriptor.input]

/-- Upload the next blob, or submit the descriptor behind the last. -/
def upload : List String → SubmitPhase × List ClientToServer
  | [] => (.outcome, [job.jobSubmission blake3])
  | idHex :: rest =>
    match job.store.fetch blake3 idHex with
    | some (some bytes) =>
      if maxBlobBytes < bytes.length then (.exited, [])
      else (.ack rest, [.blobUpload idHex (hex bytes)])
    | _ => (.panicked, [])

/-- The client's reaction to a message. -/
def react : SubmitPhase → ServerToClient → SubmitPhase × List ClientToServer
  | .nonce, .nonce text powBits =>
    match fromHex text ((utf8 text).length / 2) with
    | .ok nonce => (.auth, [job.nonceSignature nonce powBits])
    | .error _ => (.panicked, [])
  | .nonce, .authFailed _ => (.exited, [])
  | .nonce, _ => (.panicked, [])
  | .auth, .authOk _ => job.upload blake3 job.blobIds
  | .auth, .authFailed _ => (.exited, [])
  | .auth, _ => (.panicked, [])
  | .ack rest, .blobAck _ accepted _ => if accepted then job.upload blake3 rest else (.exited, [])
  | .ack _, _ => (.panicked, [])
  | .outcome, .submissionAck _ accepted _ _ => (if accepted then .outcome else .exited, [])
  | .outcome, .jobOutcome _ _ _ _ _ _ => (.done, [])
  | .outcome, .shutDown _ => (.done, [])
  | .outcome, _ => (.outcome, [])
  | .done, _ => (.done, [])
  | .exited, _ => (.exited, [])
  | .panicked, _ => (.panicked, [])

def client : Reactor SubmitPhase ServerToClient ClientToServer where
  start := .nonce
  opening := [job.hello]
  react := job.react blake3

/-- A blob as the client reads it back. -/
def content (idHex : String) : List U8 := (job.store.fetch blake3 idHex).join.getD []

def blobUpload (idHex : String) : ClientToServer :=
  .blobUpload idHex (hex (job.content blake3 idHex))

/-- The three blobs are in the client's store, under the ids of the descriptor, and
none is too large. -/
structure Published : Prop where
  fetched : ∀ idHex ∈ job.blobIds,
    job.store.fetch blake3 idHex = some (some (job.content blake3 idHex))
  named : ∀ idHex ∈ job.blobIds, idHex = hex (List.ofFn (blake3 (job.content blake3 idHex)))
  sized : ∀ idHex ∈ job.blobIds, (job.content blake3 idHex).length ≤ maxBlobBytes

end Submission

/-! ## What the client has sent -/

section

variable {blake3 : List U8 → Hash} {job : Submission}

namespace Submission

variable (blake3 : List U8 → Hash) (job : Submission) (powBits : Nat)

/-- Sent while the first blobs are uploaded. -/
def sentUpTo (nonce : List U8) (uploaded : List String) : List ClientToServer :=
  [job.hello, job.nonceSignature nonce powBits] ++ uploaded.map (job.blobUpload blake3)

/-- The answers to that. -/
def answersUpTo (nonce : List U8) (uploaded : List String) : List ServerToClient :=
  [.nonce (hex nonce) powBits, .authOk job.workerId] ++ uploaded.map fun idHex =>
    .blobAck idHex true none

end Submission

variable {powBits : Nat}

/-- How far a submission has come: the record of its connection, the store, what the
loop heard of it and what it said. -/
inductive SubmitStage (blake3 : List U8 → Hash) (job : Submission) (powBits conn : Nat) :
    Conn → Store → List ClientToServer → List ServerToClient → Prop
  | greeting (peerIp : String) (store : Store) :
    SubmitStage blake3 job powBits conn (.new conn peerIp) store [] []
  | challenged {x : Conn} {nonce : List U8} (store : Store) (hid : x.workerId = job.workerId)
      (hkey : x.pubkey = some job.keyHex) (hnonce : x.nonce = some nonce)
      (huploads : x.uploads = 0) :
      SubmitStage blake3 job powBits conn x store [job.hello] [.nonce (hex nonce) powBits]
  | uploading {x : Conn} {store : Store} {uploaded : List String} (nonce : List U8) (idHex : String)
      (rest : List String) (hids : uploaded ++ idHex :: rest = job.blobIds)
      (hkey : x.pubkey = some job.keyHex) (hauthed : x.authed = true)
      (huploads : x.uploads = uploaded.length)
      (hblobs : ∀ id ∈ uploaded, store.has (blake3 (job.content blake3 id)) = true) :
      SubmitStage blake3 job powBits conn x store (job.sentUpTo blake3 powBits nonce uploaded)
        (job.answersUpTo powBits nonce uploaded)
  | submitting {x : Conn} {store : Store} {late : List ServerToClient} (nonce : List U8)
      (hkey : x.pubkey = some job.keyHex) (hauthed : x.authed = true)
      (hblobs : ∀ id ∈ job.blobIds, store.has (blake3 (job.content blake3 id)) = true)
      (hlate : ∀ m ∈ late, unasked m = true) :
      SubmitStage blake3 job powBits conn x store (job.sentUpTo blake3 powBits nonce job.blobIds)
        (job.answersUpTo powBits nonce job.blobIds ++ late)
  | submitted {x : Conn} {store : Store} {late later : List ServerToClient} (nonce : List U8)
      (hblobs : ∀ id ∈ job.blobIds, store.has (blake3 (job.content blake3 id)) = true)
      (hlate : ∀ m ∈ late, unasked m = true) (hlater : ∀ m ∈ later, unasked m = true) :
      SubmitStage blake3 job powBits conn x store
        (job.sentUpTo blake3 powBits nonce job.blobIds ++ [job.jobSubmission blake3])
        (job.answersUpTo powBits nonce job.blobIds ++
          (late ++ .submissionAck job.descriptor.jobId true none job.requireZk :: later))
  | disturbed {x : Conn} {store : Store} {heard : List ClientToServer} {said : List ServerToClient}
      (hunasked : ∃ m ∈ said.take 5, unasked m = true)
      (hstate : (job.client blake3).state said = .panicked) :
      SubmitStage blake3 job powBits conn x store heard said

variable {conn : Nat} {x : Conn} {store store' : Store} {heard : List ClientToServer}
  {said new : List ServerToClient}

/-- The host does its part for a submission. -/
structure HostServes (job : Submission) (host : Host) : Prop where
  put : host.putError = none
  /-- In particular, no file of this job id is queued. -/
  created : job.requireZk = false → host.createError = none
  written : job.requireZk = false → host.writeError = none
  taskSent : job.requireZk = true → host.taskSent = true

theorem HostServes.landed {job : Submission} {host : Host} (h : HostServes job host)
    (hzk : job.requireZk = false) : host.landed = true := by
  rw [Host.landed, h.created hzk, h.written hzk]
  rfl

/-- A submitter the coordinator has no reason to refuse. -/
structure Welcome (crypto : Crypto) (cfg : ServeConfig) (job : Submission) : Prop where
  signs : Signs crypto job.identity
  mined : ∀ nonce,
    verifyPow crypto.blake3 nonce (job.mine nonce cfg.identityPowBits) cfg.identityPowBits = true
  confined : confinedName job.descriptor.jobId = true
  taken : cfg.acceptSubmissions = true
  provable : job.requireZk = true → cfg.zkProver = true

structure Acceptable (crypto : Crypto) (cfg : ServeConfig) (job : Submission) : Prop extends
    Welcome crypto cfg job where
  published : job.Published crypto.blake3

variable {crypto : Crypto} {cfg : ServeConfig} {s s' : Serve} {host : Host} {now : Nat}

/-- The submission is at the next stage, if its connection is still there. -/
def Advanced (blake3 : List U8 → Hash) (job : Submission) (powBits conn : Nat)
    (heard : List ClientToServer) (s : Serve) : Prop :=
  ∀ x, s.conns.lookup conn = some x →
    SubmitStage blake3 job powBits conn x s.store heard (toConn conn s.sent)

theorem advanced_of_lookup (hx : s.conns.lookup conn = some x)
    (h : SubmitStage blake3 job powBits conn x s.store heard (toConn conn s.sent)) :
    Advanced blake3 job powBits conn heard s := by
  intro x' hx'
  obtain rfl := Option.some.inj (hx.symm.trans hx')
  exact h

theorem advanced_of_event {e : Event} (h : s.onEvent crypto cfg host now e = some s')
    (hs' : Advanced blake3 job powBits conn heard s') :
    Advanced blake3 job powBits conn heard (s.handle crypto cfg host now e) := by
  rw [Serve.handle, h]
  exact hs'

theorem keyHex_ne_empty (hsigns : Signs crypto job.identity) : job.keyHex ≠ "" := by
  intro h
  have hlen : (utf8 job.keyHex).length = 32 * 2 := by
    rw [Submission.keyHex, utf8_hex, length_hexCodes, hsigns.keyLength]
  rw [h] at hlen
  cases hlen

theorem workerId_ne_empty : job.workerId ≠ "" := by
  intro h
  have hchars := congrArg String.toList h
  rw [Submission.workerId, String.toList_append] at hchars
  cases hchars

theorem answer_hello (hjob : Acceptable crypto cfg job) {peerIp : String}
    (hx : s.conns.lookup conn = some (.new conn peerIp)) (hsaid : toConn conn s.sent = []) :
    Advanced crypto.blake3 job cfg.identityPowBits conn [job.hello]
      (s.handle crypto cfg host now (eventOf conn job.hello)) := by
  have hevent : s.onEvent crypto cfg host now (eventOf conn job.hello) = some
      (s.onHello cfg (List.ofFn host.nonce) conn job.keyHex job.workerId none "submitter") := rfl
  rw [Serve.onHello, hx] at hevent
  refine advanced_of_event hevent (advanced_of_lookup (AList.lookup_insert _) ?_)
  rw [toConn_send]
  show SubmitStage _ _ _ _ _ _ _ (toConn conn s.sent ++ _)
  rw [hsaid]
  have hid : (if job.workerId = "" then defaultId conn else job.workerId) = job.workerId :=
    if_neg workerId_ne_empty
  have hkey : (if job.keyHex = "" then none else some job.keyHex) = some job.keyHex :=
    if_neg (keyHex_ne_empty hjob.signs)
  exact .challenged _ hid hkey rfl rfl

theorem answer_nonceSignature (hjob : Acceptable crypto cfg job) {nonce : List U8}
    (hx : s.conns.lookup conn = some x) (hid : x.workerId = job.workerId)
    (hkey : x.pubkey = some job.keyHex) (hnonce : x.nonce = some nonce) (huploads : x.uploads = 0)
    (hsaid : toConn conn s.sent = [.nonce (hex nonce) cfg.identityPowBits]) :
    Advanced crypto.blake3 job cfg.identityPowBits conn
      [job.hello, job.nonceSignature nonce cfg.identityPowBits]
      (s.handle crypto cfg host now
        (eventOf conn (job.nonceSignature nonce cfg.identityPowBits))) := by
  have hauth : authOk crypto cfg x (some (hex (job.identity.sign nonce)))
      (job.mine nonce cfg.identityPowBits) = true := by
    unfold authOk
    rw [hkey, hnonce]
    show (verifyPow _ _ _ _ && (verifyNonce crypto (hex job.identity.verifyingKey) nonce _).isOk)
      = true
    rw [hjob.mined, verifyNonce, hjob.signs.verifyHex]
    rfl
  have hevent :
    s.onEvent crypto cfg host now (eventOf conn (job.nonceSignature nonce cfg.identityPowBits)) =
      some (s.onNonceSig crypto cfg conn (some (hex (job.identity.sign nonce)))
        (job.mine nonce cfg.identityPowBits)) := rfl
  rw [Serve.onNonceSig, hx] at hevent
  dsimp only at hevent
  rw [if_pos hauth] at hevent
  refine advanced_of_event hevent (advanced_of_lookup (AList.lookup_insert _) ?_)
  rw [toConn_send]
  show SubmitStage _ _ _ _ _ _ _ (toConn conn s.sent ++ _)
  rw [hsaid, hid]
  have hids : [] ++ job.descriptor.manifest :: [job.descriptor.elf, job.descriptor.input]
    = job.blobIds := rfl
  exact .uploading nonce job.descriptor.manifest _ hids hkey rfl huploads (List.forall_mem_nil _)

namespace Submission

variable (blake3 : List U8 → Hash) (job : Submission) (powBits : Nat) (nonce : List U8)

/-- Their answers. -/
def replies : List ServerToClient :=
  job.answersUpTo powBits nonce job.blobIds
    ++ [.submissionAck job.descriptor.jobId true none job.requireZk]

end Submission

end

end Provework.Jobkit
