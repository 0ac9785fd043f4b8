import Provework.Wire.Framing
import Provework.Worker.Daemon

/-!
# The worker daemon across sessions (`run_daemon`, `session_once`, `fetch_blob`)

A session connects, authenticates and then serves jobs until something ends it; the
daemon opens the next one if the connection was lost and returns otherwise. What
the world does is a history: for every session how its opening went, and for every
turn of its message loop what was received and how the blob fetches and sends of
that turn went. A history that stops leaves the daemon waiting.

The daemon is meant to return only when the coordinator says goodbye. Failed blob
fetches and failed submissions it survives, in every history. But it returns as well
when a session cannot be opened, when the connection is closed or a receive fails,
when a message is not one of the four it knows, and when a job cannot be loaded or
run; and it panics at a content id that cuts a character. Exactly without those it
returns only after `ShutDown` (`runDaemon_durable`, `runDaemon_gives_up`).

Modelling notes:
- The daemon records what its message loop received.
- Blobs served to peers are counted by other threads and left out; so are the pauses
  between sessions.
- The proof of work is found, and the key file can be created.
-/

namespace Provework.Worker

open Provework.Lib Provework.Jobfmt Provework.Contentstore Provework.Wire Provework.Coordinator

/-- How a single session ended. -/
inductive SessionEnd where
  | serverShutdown
  | connectionLost

structure DaemonStats where
  jobsDone : Nat
  blobsFromPeers : Nat
  blobsFromServer : Nat
  deriving DecidableEq

structure SessionConfig extends DaemonConfig where
  /-- Test hook: stuff the quorum with duplicates. -/
  extraSubmits : U8
  /-- Carries a receipt instead of executing. -/
  receiptFile : Bool

/-- What lasts across sessions, with the record of the message loop. -/
structure Daemon where
  store : Store
  stats : DaemonStats
  received : List (Except WireError ServerToClient)

def Daemon.start (store : Store) : Daemon := ⟨store, ⟨0, 0, 0⟩, []⟩

def hexDecode (s : String) : Option (List U8) := (fromHex s ((utf8 s).length / 2)).toOption

/-! ## Fetching a blob -/

inductive PeerToPeer where
  | peerBlobRequest (idHex : String)
  | peerBlob (hex : Option String)

/-- A peer that is asked for a blob. -/
inductive PeerReply where
  | unreachable
  | sendFailed
  | received (r : Except WireError PeerToPeer)

/-- How one fetch goes: the peers by position, `store.put`, and the coordinator. -/
structure FetchWorld where
  peers : Nat → PeerReply
  stored : Bool
  requested : Bool
  reply : Except WireError ServerToClient

inductive FetchError where
  | badId | peerHex | peerContent | store | request | receive | hex | content | notFound
  | cancelled | unexpected

/-- The peers in order. One that is down or does not have the blob is passed over,
one that sends something else ends the fetch; `none` if all are passed over. -/
def fetchFromPeers (blake3 : List U8 → Hash) (peers : Nat → PeerReply) (id : ContentId) :
    List String → Nat → Option (Except FetchError (List U8))
  | [], _ => none
  | _ :: hints, k =>
    match peers k with
    | .received (.ok (.peerBlob (some hex))) =>
      match hexDecode hex with
      | none => some (.error .peerHex)
      | some bytes => if blake3 bytes ≠ id then some (.error .peerContent) else some (.ok bytes)
    | _ => fetchFromPeers blake3 peers id hints (k + 1)

/-- The coordinator's answer to a blob request. -/
def fetchFromServer (blake3 : List U8 → Hash) (w : FetchWorld) (id : ContentId) :
    Except FetchError (List U8) :=
  if !w.requested then .error .request
  else
    match w.reply with
    | .error _ => .error .receive
    | .ok (.blob (some hex)) =>
      match hexDecode hex with
      | none => .error .hex
      | some bytes => if blake3 bytes ≠ id then .error .content else .ok bytes
    | .ok (.blob none) => .error .notFound
    | .ok .betweenJobs => .error .cancelled
    | .ok _ => .error .unexpected

/-- `none` is the panic of a content id that cuts a character. -/
def fetchBlob (blake3 : List U8 → Hash) (w : FetchWorld) (idHex : String) (peerHints : List String)
    (d : Daemon) : Option (Except FetchError Unit × Daemon) :=
  match ContentId.fromHex idHex with
  | none => none
  | some (.error _) => some (.error .badId, d)
  | some (.ok id) =>
    if d.store.has id then some (.ok (), d)
    else
      match fetchFromPeers blake3 w.peers id peerHints 0 with
      | some (.error e) => some (.error e, d)
      | some (.ok bytes) =>
        if !w.stored then some (.error .store, d)
        else some (.ok (), { d with
          store := d.store.put blake3 bytes
          stats := { d.stats with blobsFromPeers := d.stats.blobsFromPeers + 1 } })
      | none =>
        match fetchFromServer blake3 w id with
        | .error e => some (.error e, d)
        | .ok bytes =>
          if !w.stored then some (.error .store, d)
          else some (.ok (), { d with
            store := d.store.put blake3 bytes
            stats := { d.stats with blobsFromServer := d.stats.blobsFromServer + 1 } })

/-- One blob after the other, up to the first that fails. -/
def fetchBlobs (blake3 : List U8 → Hash) (fetches : Nat → FetchWorld) (peerHints : List String) :
    List String → Nat → Daemon → Option (Except FetchError Unit × Daemon)
  | [], _, d => some (.ok (), d)
  | id :: ids, k, d =>
    match fetchBlob blake3 (fetches k) id peerHints d with
    | none => none
    | some (.error e, d) => some (.error e, d)
    | some (.ok (), d) => fetchBlobs blake3 fetches peerHints ids (k + 1) d

/-! ## A turn of the message loop -/

inductive SessionError where
  | peerServer (e : String)
  | connect (e : String)
  | send (e : WireError)
  | receive (e : WireError)
  | authFailed (reason : String)
  | expectedNonce (got : ServerToClient)
  | nonceHex
  | store (e : String)
  | receiptFile
  | noIdentity
  | receiptSubmit (e : WireError)
  | job
  | unexpected (got : ServerToClient)

/-- What one turn meets. The fields after the first are for an assignment: the
three fetches, the receipt file, the sends. -/
structure Round where
  received : Except WireError ServerToClient
  fetches : Nat → FetchWorld
  receipt : Option (List U8)
  claimSent : Except WireError Unit
  resultSent : Nat → Bool

inductive RoundEnd where
  | goesOn (d : Daemon)
  | ends (r : Except SessionError SessionEnd) (d : Daemon)
  | panics

section

variable (cfg : SessionConfig) (host : WorkerHost)

/-- How often a result is sent. The SP1-native path does not stuff the quorum. -/
def submits (descriptor : JobDescriptor) (store : Store) : Nat :=
  match rebuiltManifest host.toJudgeHost descriptor store with
  | some (some manifest) => if manifest.isSp1V2 then 1 else 1 + cfg.extraSubmits.toNat
  | _ => 1 + cfg.extraSubmits.toNat

/-- The claim of a receipt carrier. -/
def claimReceipt (round : Round) (d : Daemon) : RoundEnd :=
  match round.receipt with
  | none => .ends (.error .receiptFile) d
  | some _ =>
    match host.identity with
    | none => .ends (.error .noIdentity) d
    | some _ =>
      match round.claimSent with
      | .error e => .ends (.error (.receiptSubmit e)) d
      | .ok () => .goesOn d

/-- Load, execute, submit. -/
def executeJob (round : Round) (descriptor : JobDescriptor) (d : Daemon) : RoundEnd :=
  match assignmentResult cfg.toDaemonConfig host descriptor d.store with
  | none => .panics
  | some none => .ends (.error .job) d
  | some (some _) =>
    let d := { d with stats := { d.stats with jobsDone := d.stats.jobsDone + 1 } }
    if (List.range (submits cfg host descriptor d.store)).all round.resultSent then .goesOn d
    else .ends (.ok .connectionLost) d

/-- `ServerToClient::JobAssignment`. A fetch that fails, or is cancelled, loses the
connection. -/
def onAssignment (round : Round) (descriptor : JobDescriptor) (peerHints : List String)
    (d : Daemon) : RoundEnd :=
  match fetchBlobs host.blake3 round.fetches peerHints
      [descriptor.manifest, descriptor.elf, descriptor.input] 0 d with
  | none => .panics
  | some (.error _, d) => .ends (.ok .connectionLost) d
  | some (.ok (), d) =>
    if cfg.receiptFile then claimReceipt host round d else executeJob cfg host round descriptor d

/-- One turn. `reset` tells the i/o errors of kind `ConnectionReset`. -/
def oneRound (reset : String → Bool) (round : Round) (submitted : Bool) (d : Daemon) : RoundEnd :=
  let d := { d with received := d.received ++ [round.received] }
  match round.received with
  | .error .connectionClosed => .ends (.ok .serverShutdown) d
  | .error (.io e) =>
    if submitted && reset e then .ends (.ok .serverShutdown) d
    else .ends (.error (.receive (.io e))) d
  | .error (.malformed reason) => .ends (.error (.receive (.malformed reason))) d
  | .ok (.authOk _) => .goesOn d
  | .ok .betweenJobs => .goesOn d
  | .ok (.shutDown _) => .ends (.ok .serverShutdown) d
  | .ok (.jobAssignment descriptor peerHints) => onAssignment cfg host round descriptor peerHints d
  | .ok other => .ends (.error (.unexpected other)) d

/-! ## Sessions -/

/-- How a session goes, as far as the history tells. -/
inductive SessionRun where
  | waiting (d : Daemon)
  | ended (r : Except SessionError SessionEnd) (d : Daemon)
  | panicked

/-- Only an assignment that is answered sets `submitted`. -/
def Round.submits (round : Round) (submitted : Bool) : Bool :=
  match round.received with
  | .ok (.jobAssignment _ _) => true
  | _ => submitted

def jobLoop (reset : String → Bool) : List Round → Bool → Daemon → SessionRun
  | [], _, d => .waiting d
  | round :: rounds, submitted, d =>
    match oneRound cfg host reset round submitted d with
    | .panics => .panicked
    | .ends r d => .ended r d
    | .goesOn d => jobLoop reset rounds (round.submits submitted) d

/-- How one session goes: the peer server, the stream with its TLS, the two
handshake messages and the reply between them, the store; then the rounds. -/
structure SessionWorld where
  peerServer : Except String (Option Nat)
  stream : Except String Unit
  helloSent : Except WireError Unit
  reply : Except WireError ServerToClient
  signatureSent : Except WireError Unit
  storeOpened : Except String Unit
  rounds : List Round

/-- The nonce of the challenge. -/
def nonceOf : ServerToClient → Except SessionError String
  | .nonce hex _ => .ok hex
  | .authFailed reason => .error (.authFailed reason)
  | other => .error (.expectedNonce other)

/-- Everything before the message loop. -/
def SessionWorld.opened (w : SessionWorld) : Except SessionError Unit := do
  let _ ← w.peerServer.mapError .peerServer
  w.stream.mapError .connect
  w.helloSent.mapError .send
  let reply ← w.reply.mapError .receive
  let nonce ← nonceOf reply
  let _ ← (hexDecode nonce).elim (.error .nonceHex) .ok
  w.signatureSent.mapError .send
  w.storeOpened.mapError .store

def sessionOnce (reset : String → Bool) (w : SessionWorld) (d : Daemon) : SessionRun :=
  match w.opened with
  | .error e => .ended (.error e) d
  | .ok () => jobLoop cfg host reset w.rounds false d

/-- The daemon after a history. -/
inductive DaemonRun where
  | running (d : Daemon)
  | returned (r : Except SessionError DaemonStats) (d : Daemon)
  | panicked

def runDaemon (reset : String → Bool) : List SessionWorld → Daemon → DaemonRun
  | [], d => .running d
  | w :: worlds, d =>
    match sessionOnce cfg host reset w d with
    | .waiting d => .running d
    | .panicked => .panicked
    | .ended (.error e) d => .returned (.error e) d
    | .ended (.ok .serverShutdown) d => .returned (.ok d.stats) d
    | .ended (.ok .connectionLost) d => runDaemon reset worlds d

end

/-! ## Durability -/

/-- The last thing the message loop received. -/
def Daemon.ToldGoodbye (d : Daemon) : Prop :=
  ∃ reason, d.received.getLast? = some (.ok (.shutDown reason))

/-- Not returned, or returned with its stats after `ShutDown`. -/
def DaemonRun.Durable : DaemonRun → Prop
  | .running _ => True
  | .returned r d => r = .ok d.stats ∧ d.ToldGoodbye
  | .panicked => False

/-- A receipt carrier that can make its claim in this turn. -/
structure Claims (host : WorkerHost) (round : Round) : Prop where
  identity : host.identity ≠ none
  receipt : round.receipt ≠ none
  sent : round.claimSent = .ok ()

section

variable (cfg : SessionConfig) (host : WorkerHost) (reset : String → Bool)

/-- An assignment the daemon survives. Nothing is asked of it if a fetch fails, and
nothing of the sends of results. -/
structure SteadyJob (round : Round) (descriptor : JobDescriptor) (peerHints : List String)
    (d : Daemon) : Prop where
  /-- No content id that is fetched cuts a character. -/
  names : fetchBlobs host.blake3 round.fetches peerHints
    [descriptor.manifest, descriptor.elf, descriptor.input] 0 d ≠ none
  claims : cfg.receiptFile = true → ∀ fetched, fetchBlobs host.blake3 round.fetches peerHints
    [descriptor.manifest, descriptor.elf, descriptor.input] 0 d = some (.ok (), fetched) →
      Claims host round
  /-- The job can be loaded and run. -/
  answers : cfg.receiptFile = false → ∀ fetched, fetchBlobs host.blake3 round.fetches peerHints
    [descriptor.manifest, descriptor.elf, descriptor.input] 0 d = some (.ok (), fetched) →
      ∃ result, assignmentResult cfg.toDaemonConfig host descriptor fetched.store
        = some (some result)

/-- One of the four messages is received. -/
def SteadyRound (round : Round) (d : Daemon) : Prop :=
  match round.received with
  | .ok (.authOk _) | .ok .betweenJobs | .ok (.shutDown _) => True
  | .ok (.jobAssignment descriptor peerHints) =>
    SteadyJob cfg host round descriptor peerHints
      { d with received := d.received ++ [round.received] }
  | _ => False

/-- The turns a session comes to. -/
def SteadyRounds : List Round → Bool → Daemon → Prop
  | [], _, _ => True
  | round :: rounds, submitted, d => SteadyRound cfg host round d ∧
    ∀ d', oneRound cfg host reset round submitted d = .goesOn d' →
      SteadyRounds rounds (round.submits submitted) d'

/-- The sessions the daemon comes to open. -/
def Steady : List SessionWorld → Daemon → Prop
  | [], _ => True
  | w :: worlds, d => w.opened = .ok () ∧ SteadyRounds cfg host reset w.rounds false d ∧
    ∀ d', sessionOnce cfg host reset w d = .ended (.ok .connectionLost) d' → Steady worlds d'

end

/-- A session may end for the connection or for `ShutDown`. -/
def EndsWell (r : Except SessionError SessionEnd) (d : Daemon) : Prop :=
  r = .ok .connectionLost ∨ r = .ok .serverShutdown ∧ d.ToldGoodbye

def RoundEnd.Durable : RoundEnd → Prop
  | .goesOn _ => True
  | .ends r d => EndsWell r d
  | .panics => False

def SessionRun.Durable : SessionRun → Prop
  | .waiting _ => True
  | .ended r d => EndsWell r d
  | .panicked => False

section

variable {cfg : SessionConfig} {host : WorkerHost} {reset : String → Bool} {round : Round}

theorem endsWell_error {e : SessionError} {d : Daemon} : ¬EndsWell (.error e) d := by
  rintro (h | ⟨h, -⟩)
  · cases h
  · cases h

theorem endsWell_shutdown {d : Daemon} : EndsWell (.ok .serverShutdown) d ↔ d.ToldGoodbye := by
  constructor
  · rintro (h | ⟨-, h⟩)
    · cases h
    · exact h
  · exact fun h => .inr ⟨rfl, h⟩

theorem toldGoodbye_concat {d : Daemon} {x : Except WireError ServerToClient} :
    Daemon.ToldGoodbye { d with received := d.received ++ [x] } ↔ ∃ reason,
    x = .ok (.shutDown reason) := by
  simp only [Daemon.ToldGoodbye, List.getLast?_concat, Option.some.injEq]

theorem not_endsWell_failed {d : Daemon} {e : WireError} :
    ¬EndsWell (.ok .serverShutdown) { d with received := d.received ++ [.error e] } := by
  rw [endsWell_shutdown, toldGoodbye_concat]
  rintro ⟨reason, ⟨⟩⟩

theorem claimReceipt_durable {d : Daemon} : (claimReceipt host round d).Durable ↔
    Claims host round := by
  unfold claimReceipt
  cases hreceipt : round.receipt with
  | none => exact iff_of_false endsWell_error fun h => h.receipt hreceipt
  | some bytes =>
    cases hidentity : host.identity with
    | none => exact iff_of_false endsWell_error fun h => h.identity hidentity
    | some key =>
      cases hsent : round.claimSent with
      | error e => exact iff_of_false endsWell_error fun h => by cases hsent.symm.trans h.sent
      | ok u => exact iff_of_true trivial ⟨by simp [hidentity], by simp [hreceipt], hsent⟩

theorem executeJob_durable {descriptor : JobDescriptor} {d : Daemon} :
    (executeJob cfg host round descriptor d).Durable ↔
      ∃ result, assignmentResult cfg.toDaemonConfig host descriptor d.store
        = some (some result) := by
  unfold executeJob
  rcases assignmentResult cfg.toDaemonConfig host descriptor d.store with _ | _ | result
  · exact iff_of_false id (by simp)
  · exact iff_of_false endsWell_error (by simp)
  · refine iff_of_true ?_ ⟨result, rfl⟩
    dsimp only
    split
    · trivial
    · exact .inl rfl

theorem onAssignment_durable {descriptor : JobDescriptor} {peerHints : List String} {d : Daemon} :
    (onAssignment cfg host round descriptor peerHints d).Durable ↔
      SteadyJob cfg host round descriptor peerHints d := by
  unfold onAssignment
  rcases hfetch : fetchBlobs host.blake3 round.fetches peerHints
    [descriptor.manifest, descriptor.elf, descriptor.input] 0 d with _ | ⟨e | _, fetched⟩
  · exact iff_of_false id fun h => h.names hfetch
  · refine iff_of_true (.inl rfl) ⟨by simp [hfetch], ?_, ?_⟩
    · intro _ fetched' hok
      cases hfetch.symm.trans hok
    · intro _ fetched' hok
      cases hfetch.symm.trans hok
  · dsimp only
    split
    next hcfg =>
      rw [claimReceipt_durable]
      refine ⟨fun h => ⟨by simp [hfetch], fun _ _ _ => h, by simp [hcfg]⟩, fun h => ?_⟩
      exact h.claims hcfg fetched hfetch
    next hcfg =>
      rw [executeJob_durable]
      refine ⟨fun h => ⟨by simp [hfetch], by simp [hcfg], ?_⟩, fun h => ?_⟩
      · intro _ fetched' hok
        cases hfetch.symm.trans hok
        exact h
      · exact h.answers (Bool.eq_false_iff.mpr hcfg) fetched hfetch

theorem oneRound_durable {submitted : Bool} {d : Daemon} :
    (oneRound cfg host reset round submitted d).Durable ↔ SteadyRound cfg host round d := by
  unfold oneRound SteadyRound
  dsimp only
  cases round.received with
  | error e =>
    cases e with
    | io e =>
      dsimp only
      split
      · exact iff_of_false not_endsWell_failed id
      · exact iff_of_false endsWell_error id
    | malformed reason => exact iff_of_false endsWell_error id
    | connectionClosed => exact iff_of_false not_endsWell_failed id
  | ok m =>
    cases m with
    | authOk wid => exact iff_of_true trivial trivial
    | betweenJobs => exact iff_of_true trivial trivial
    | shutDown reason =>
      exact iff_of_true (endsWell_shutdown.mpr (toldGoodbye_concat.mpr ⟨reason, rfl⟩)) trivial
    | jobAssignment descriptor peerHints => exact onAssignment_durable
    | _ => exact iff_of_false endsWell_error id

theorem jobLoop_durable (rounds : List Round) (submitted : Bool) (d : Daemon) :
    (jobLoop cfg host reset rounds submitted d).Durable ↔
    SteadyRounds cfg host reset rounds submitted d := by
  induction rounds generalizing submitted d with
  | nil => exact iff_of_true trivial trivial
  | cons round rounds ih =>
    have hround : (oneRound cfg host reset round submitted d).Durable ↔
        SteadyRound cfg host round d :=
      oneRound_durable
    rw [jobLoop, SteadyRounds, ← hround]
    cases oneRound cfg host reset round submitted d with
    | panics => exact iff_of_false id fun h => h.1
    | ends r d₁ => exact ⟨fun h => ⟨h, fun _ hgoes => by cases hgoes⟩, fun h => h.1⟩
    | goesOn d₁ =>
      refine (ih (round.submits submitted) d₁).trans ⟨fun h => ⟨trivial, ?_⟩, fun h => h.2 d₁ rfl⟩
      rintro d' ⟨⟩
      exact h

/-- **When the daemon is durable.** For every history of messages, job contents and
failed fetches and sends, from every store: exactly if every session it comes to opens,
every turn it comes to receives one of the four messages, every claim can be made and
every job whose blobs came can be loaded and run, has `run_daemon` not returned, or
returned its stats after `ShutDown` was the last thing its message loop received. -/
theorem runDaemon_durable (cfg : SessionConfig) (host : WorkerHost) (reset : String → Bool)
    (worlds : List SessionWorld) (d : Daemon) :
    (runDaemon cfg host reset worlds d).Durable ↔ Steady cfg host reset worlds d := by
  induction worlds generalizing d with
  | nil => exact iff_of_true trivial trivial
  | cons w worlds ih =>
    rw [runDaemon, Steady]
    cases hopened : w.opened with
    | error e =>
      have hsession : sessionOnce cfg host reset w d = .ended (.error e) d := by
        rw [sessionOnce, hopened]
      rw [hsession]
      exact iff_of_false (fun h => by cases h.1) fun h => by cases h.1
    | ok u =>
      have hsession : sessionOnce cfg host reset w d = jobLoop cfg host reset w.rounds false d := by
        rw [sessionOnce, hopened]
      rw [hsession, ← jobLoop_durable]
      cases jobLoop cfg host reset w.rounds false d with
      | waiting d₁ => exact iff_of_true trivial ⟨rfl, trivial, fun _ hend => by cases hend⟩
      | panicked => exact iff_of_false id fun h => h.2.1
      | ended r d₁ =>
        rcases r with e | _ | _
        · exact iff_of_false (fun h => by cases h.1) fun h => endsWell_error h.2.1
        · refine ⟨fun h => ⟨rfl, endsWell_shutdown.mpr h.2, fun _ hend => by cases hend⟩,
            fun h => ?_⟩
          exact ⟨rfl, endsWell_shutdown.mp h.2.1⟩
        · refine (ih d₁).trans ⟨fun h => ⟨rfl, .inl rfl, ?_⟩, fun h => h.2.2 d₁ rfl⟩
          rintro d' ⟨⟩
          exact h

end

/-! ## Histories -/

/-- What a daemon that returned has on record, with the stats it returned. -/
def DaemonRun.record :
    DaemonRun → Option (List (Except WireError ServerToClient) × Option DaemonStats × DaemonStats)
  | .returned r d => some (d.received, r.toOption, d.stats)
  | _ => none

theorem DaemonRun.record_some {run : DaemonRun} {received : List (Except WireError ServerToClient)}
    {returned : Option DaemonStats} {stats : DaemonStats}
    (h : run.record = some (received, returned, stats)) :
    ∃ r d, run = .returned r d ∧ d.received = received ∧ r.toOption = returned ∧
    d.stats = stats := by
  cases run with
  | returned r d =>
    cases h
    exact ⟨r, d, rfl, rfl, rfl, rfl⟩
  | _ => cases h

/-- A turn in which nobody else has anything to give. -/
def Round.hears (received : Except WireError ServerToClient) : Round :=
  { received
    fetches := fun _ => ⟨fun _ => .unreachable, true, true, .ok (.blob none)⟩
    receipt := none, claimSent := .ok (), resultSent := fun _ => true }

/-- A session that opens and then hears this. -/
def SessionWorld.hears (received : List (Except WireError ServerToClient)) : SessionWorld :=
  { peerServer := .ok none, stream := .ok (), helloSent := .ok (), reply := .ok (.nonce "" 0)
    signatureSent := .ok (), storeOpened := .ok (), rounds := received.map .hears }

def plainSession : SessionConfig := { plainDaemon with extraSubmits := 0, receiptFile := false }

/-- A job, a blob that is not to be had, a second session, goodbye. -/
def refetching : List SessionWorld :=
  [.hears [.ok (.authOk "wA"), .ok (.jobAssignment (describedAs "job-1") []),
      .ok (.jobAssignment ⟨"job-2", "", "", ""⟩ [])],
    .hears [.ok (.authOk "wA"), .ok (.shutDown "done")]]

theorem runDaemon_durable_refetch :
    let start := Daemon.start blobsByLength
    ∃ d, runDaemon plainSession toyWorker (fun _ => false) refetching start
      = .returned (.ok d.stats) d ∧
      d.stats.jobsDone = 1 ∧ Steady plainSession toyWorker (fun _ => false) refetching start := by
  have hrecord : (runDaemon plainSession toyWorker (fun _ => false) refetching
      (.start blobsByLength)).record
      = some ([.ok (.authOk "wA"), .ok (.jobAssignment (describedAs "job-1") []),
          .ok (.jobAssignment ⟨"job-2", "", "", ""⟩ []), .ok (.authOk "wA"),
          .ok (.shutDown "done")],
        some ⟨1, 0, 0⟩, ⟨1, 0, 0⟩) := by decide +kernel
  obtain ⟨r, d, hrun, hreceived, hr, hstats⟩ := DaemonRun.record_some hrecord
  obtain rfl := toOption_eq_some (hstats ▸ hr)
  refine ⟨d, hrun, by rw [hstats], (runDaemon_durable _ _ _ _ _).mp ?_⟩
  rw [hrun]
  exact ⟨rfl, "done", by rw [hreceived]; rfl⟩

theorem fetchBlob_cached {blake3 : List U8 → Hash} {w : FetchWorld} {id : ContentId}
    {peerHints : List String} {d : Daemon} (h : d.store.has id = true) :
    fetchBlob blake3 w (hex (List.ofFn id)) peerHints d = some (.ok (), d) := by
  simp only [fetchBlob, ContentId.fromHex_hex, h, if_true]

/-- A job whose blobs are there and that cannot be loaded or run ends the daemon. -/
theorem runDaemon_unloadable {cfg : SessionConfig} {host : WorkerHost} {reset : String → Bool}
    {descriptor : JobDescriptor} {peerHints : List String} {d : Daemon}
    (hcfg : cfg.receiptFile = false)
    (hfetch : ∀ (fetches : Nat → FetchWorld) (d' : Daemon), d'.store = d.store →
      fetchBlobs host.blake3 fetches peerHints
        [descriptor.manifest, descriptor.elf, descriptor.input] 0 d' = some (.ok (), d'))
    (hwork : assignmentResult cfg.toDaemonConfig host descriptor d.store = some none) :
    runDaemon cfg host reset [.hears [.ok (.jobAssignment descriptor peerHints)]] d =
      .returned (.error .job)
        { d with received := d.received ++ [.ok (.jobAssignment descriptor peerHints)] } := by
  have hround :
      oneRound cfg host reset (.hears (.ok (.jobAssignment descriptor peerHints))) false d =
      .ends (.error .job)
        { d with received := d.received ++ [.ok (.jobAssignment descriptor peerHints)] } := by
    have hcached := hfetch (Round.hears (.ok (.jobAssignment descriptor peerHints))).fetches
      { d with received := d.received ++ [.ok (.jobAssignment descriptor peerHints)] } rfl
    simp only [Round.hears] at hcached
    simp only [oneRound, Round.hears, onAssignment, hcached]
    simp only [hcfg, Bool.false_eq_true, if_false, executeJob, hwork]
  rw [runDaemon, sessionOnce, show (SessionWorld.hears _).opened = .ok () from rfl]
  dsimp only
  rw [show (SessionWorld.hears [_]).rounds = [Round.hears _] from rfl, jobLoop, hround]

/-- A store that has the blob `[1]` under every id, and a job all of whose parts it
is: the manifest does not parse. -/
def garbledStore : Store := fun _ => some [1]

def garbledJob : JobDescriptor :=
  { jobId := "job-1", manifest := hex (List.ofFn (toyWorker.blake3 [1]))
    elf := hex (List.ofFn (toyWorker.blake3 [1])), input := hex (List.ofFn (toyWorker.blake3 [1])) }

theorem garbledJob_unloadable :
    assignmentResult plainSession.toDaemonConfig toyWorker garbledJob garbledStore = some none := by
  have hget : garbledStore.get toyWorker.blake3 (toyWorker.blake3 [1]) = some [1] := by
    simp [garbledStore, Store.get]
  have hfetch : garbledStore.fetch toyWorker.blake3 garbledJob.manifest = some (some [1]) :=
    Store.fetch_hex hget
  have hread : toyWorker.readManifest [1] = none := by decide +kernel
  have hname : confinedName garbledJob.jobId = true := by decide +kernel
  simp only [assignmentResult, hname, JudgeHost.materialize, materialize, hfetch, hread,
    Attempt.andThen_returned, Bool.not_true, Bool.false_eq_true, if_false]
  rfl

/-- Three histories in which the daemon returns and was never told to: the
coordinator closes the connection; it assigns a job whose manifest does not parse; a
blob fetch fails and the reconnect is refused. -/
theorem runDaemon_gives_up :
    (∃ r d, runDaemon plainSession toyWorker (fun _ => false)
        [.hears [.ok (.authOk "wA"), .error .connectionClosed]] (.start fun _ => none)
        = .returned r d ∧ ∀ reason, .ok (.shutDown reason) ∉ d.received) ∧
    (∃ r d, runDaemon plainSession toyWorker (fun _ => false)
        [.hears [.ok (.jobAssignment garbledJob [])]] (.start garbledStore)
        = .returned r d ∧ ∀ reason, .ok (.shutDown reason) ∉ d.received) ∧
    ∃ r d, runDaemon plainSession toyWorker (fun _ => false)
        [.hears [.ok (.jobAssignment ⟨"job-1", "", "", ""⟩ [])],
          { SessionWorld.hears [] with stream := .error "connect: refused" }] (.start fun _ => none)
        = .returned r d ∧ ∀ reason, .ok (.shutDown reason) ∉ d.received := by
  refine ⟨?_, ?_, ?_⟩
  · have hrecord : (runDaemon plainSession toyWorker (fun _ => false)
        [.hears [.ok (.authOk "wA"), .error .connectionClosed]] (.start fun _ => none)).record
        = some ([.ok (.authOk "wA"), .error .connectionClosed], some ⟨0, 0, 0⟩, ⟨0, 0, 0⟩) := by
      decide +kernel
    obtain ⟨r, d, hrun, hreceived, -⟩ := DaemonRun.record_some hrecord
    exact ⟨r, d, hrun, by simp [hreceived]⟩
  · refine ⟨_, _, runDaemon_unloadable rfl ?_ garbledJob_unloadable, by simp [Daemon.start]⟩
    intro fetches d' hstore
    have hcached : d'.store.has (toyWorker.blake3 [1]) = true := by
      rw [hstore]
      rfl
    simp only [garbledJob, fetchBlobs, fetchBlob_cached hcached]
  · have hrecord : (runDaemon plainSession toyWorker (fun _ => false)
        [.hears [.ok (.jobAssignment ⟨"job-1", "", "", ""⟩ [])],
          { SessionWorld.hears [] with stream := .error "connect: refused" }]
        (.start fun _ => none)).record
        = some ([.ok (.jobAssignment ⟨"job-1", "", "", ""⟩ [])], none, ⟨0, 0, 0⟩) := by
          decide +kernel
    obtain ⟨r, d, hrun, hreceived, -⟩ := DaemonRun.record_some hrecord
    exact ⟨r, d, hrun, by simp [hreceived]⟩

end Provework.Worker
