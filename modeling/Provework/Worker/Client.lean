import Provework.Coordinator.Conversations
import Provework.Worker.Session

/-!
# A worker's side of the wire (`session_once` as a program that reacts)

`Worker/Session` says how a session ends in every world. Here the session is seen from
the other end of the wire: which messages it sends, given those it has received. What
it asks of its own host (its peers, its disk, its receipt file) is a `Station`. A turn
of the message loop in a world like that of the station is the reaction to the
messages received in that turn (`client_oneRound`). `Account` is what it has sent by
then, and `Fate` lists the phases it can be in when the coordinator says nothing but
what it has reason to say.

Modelling notes:
- A blob is asked for at most once in a session (it is stored, or the session ends),
  so the answers of the peers are a function of the hints and the id.
- A stream that breaks ends the session, which then sends nothing more.
-/

namespace Provework.Worker

open Provework.Lib Provework.Jobfmt Provework.Contentstore Provework.Wire Provework.Coordinator

structure Station where
  cfg : SessionConfig
  host : WorkerHost
  /-- The port of its peer blob server. -/
  listenPort : Option Nat
  store : Store
  /-- What the peers in a list of hints do when they are asked. -/
  peers : List String → ContentId → Nat → PeerReply
  /-- Whether `store.put` works. -/
  stored : ContentId → Bool
  receipt : Option (List U8)
  mine : List U8 → Nat → U64

inductive WorkerPhase where
  | nonce
  | idle (store : Store)
  /-- The blob `id` was asked of the coordinator; `rest` are the next ones. -/
  | fetching (descriptor : JobDescriptor) (hints : List String) (id : ContentId)
      (rest : List String) (store : Store)
  | shutDown
  | lost (e : FetchError)
  | failed (e : SessionError)
  | panicked

namespace Station

variable (st : Station)

def keyHex : Option String := st.host.identity.map fun key => hex key.verifyingKey

def hello : ClientToServer := .hello (st.keyHex.getD "") st.cfg.workerId st.listenPort "worker"

def nonceSignature (nonce : List U8) (powBits : Nat) : ClientToServer :=
  .nonceSignature (st.host.identity.map fun key => hex (key.sign nonce)) (st.mine nonce powBits)

def receiptClaim (key : Identity) (receipt : List U8) (jobId : String) : ClientToServer :=
  .receiptClaim st.cfg.workerId jobId (hex key.verifyingKey)
    (hex (key.sign (receiptClaimMessage jobId (st.host.blake3 receipt)))) (hex receipt)

/-- The job once its blobs are there: a receipt is claimed, or the job is run. -/
def work (descriptor : JobDescriptor) (store : Store) : WorkerPhase × List ClientToServer :=
  if st.cfg.receiptFile then
    match st.receipt, st.host.identity with
    | none, _ => (.failed .receiptFile, [])
    | some _, none => (.failed .noIdentity, [])
    | some receipt, some key => (.idle store, [st.receiptClaim key receipt descriptor.jobId])
  else
    match assignmentResult st.cfg.toDaemonConfig st.host descriptor store with
    | none => (.panicked, [])
    | some none => (.failed .job, [])
    | some (some r) =>
      (.idle store, List.replicate (submits st.cfg st.host descriptor store) (.jobResult r))

/-- Up to the first blob that has to come from the coordinator. -/
def fetchNext (descriptor : JobDescriptor) (hints : List String) :
    List String → Store → WorkerPhase × List ClientToServer
  | [], store => st.work descriptor store
  | idHex :: rest, store =>
    match ContentId.fromHex idHex with
    | none => (.panicked, [])
    | some (.error _) => (.lost .badId, [])
    | some (.ok id) =>
      if store.has id then fetchNext descriptor hints rest store
      else
        match fetchFromPeers st.host.blake3 (st.peers hints id) id hints 0 with
        | some (.error e) => (.lost e, [])
        | some (.ok bytes) =>
          if !st.stored id then (.lost .store, [])
          else fetchNext descriptor hints rest (store.put st.host.blake3 bytes)
        | none => (.fetching descriptor hints id rest store, [.blobRequest idHex])

/-- The world of a fetch that gets `m` from the coordinator. -/
def replies (hints : List String) (id : ContentId) (m : ServerToClient) : FetchWorld :=
  { peers := st.peers hints id, stored := st.stored id, requested := true, reply := .ok m }

def react : WorkerPhase → ServerToClient → WorkerPhase × List ClientToServer
  | .nonce, m =>
    match m with
    | .nonce text powBits =>
      match hexDecode text with
      | none => (.failed .nonceHex, [])
      | some nonce => (.idle st.store, [st.nonceSignature nonce powBits])
    | .authFailed reason => (.failed (.authFailed reason), [])
    | other => (.failed (.expectedNonce other), [])
  | .idle store, m =>
    match m with
    | .authOk _ => (.idle store, [])
    | .betweenJobs => (.idle store, [])
    | .shutDown _ => (.shutDown, [])
    | .jobAssignment descriptor hints =>
      st.fetchNext descriptor hints [descriptor.manifest, descriptor.elf, descriptor.input] store
    | other => (.failed (.unexpected other), [])
  | .fetching descriptor hints id rest store, m =>
    match fetchFromServer st.host.blake3 (st.replies hints id m) id with
    | .error e => (.lost e, [])
    | .ok bytes =>
      if !st.stored id then (.lost .store, [])
      else st.fetchNext descriptor hints rest (store.put st.host.blake3 bytes)
  | ended, _ => (ended, [])

def client : Reactor WorkerPhase ServerToClient ClientToServer where
  start := .nonce
  opening := [st.hello]
  react := st.react

end Station

/-! ## The same session -/

/-- How a session in this phase has ended. -/
def WorkerPhase.ending : WorkerPhase → Option (Except SessionError SessionEnd)
  | .shutDown => some (.ok .serverShutdown)
  | .lost _ => some (.ok .connectionLost)
  | .failed e => some (.error e)
  | _ => none

/-- The phase and the end of a turn are the same. -/
def WorkerPhase.Agrees (phase : WorkerPhase) : RoundEnd → Prop
  | .goesOn d => phase = .idle d.store
  | .ends r _ => phase.ending = some r
  | .panics => phase = .panicked

/-- The turn is one of the station: peers, disk and receipt are its own, and all it
sends is sent. `replies` are the coordinator's to the blob requests. -/
structure Round.At (round : Round) (st : Station) (hints ids : List String)
    (replies : Nat → ServerToClient) : Prop where
  fetches : ∀ k idHex id, ids[k]? = some idHex → ContentId.fromHex idHex = some (.ok id) →
    round.fetches k = st.replies hints id (replies k)
  receipt : round.receipt = st.receipt
  claimSent : round.claimSent = .ok ()
  resultSent : ∀ i, round.resultSent i = true

section

variable {st : Station} {round : Round} {replies : Nat → ServerToClient} {hints : List String}
  {descriptor : JobDescriptor} {ids : List String}

theorem work_agrees (h : round.At st hints ids replies) (d : Daemon) :
    (st.work descriptor d.store).1.Agrees (if st.cfg.receiptFile then claimReceipt st.host round d
      else executeJob st.cfg st.host round descriptor d) := by
  unfold Station.work
  split
  · unfold claimReceipt
    rw [h.receipt]
    cases st.receipt with
    | none => rfl
    | some receipt =>
      cases st.host.identity with
      | none => rfl
      | some key =>
        rw [h.claimSent]
        rfl
  · unfold executeJob
    dsimp only
    cases assignmentResult st.cfg.toDaemonConfig st.host descriptor d.store with
    | none => rfl
    | some result =>
      cases result with
      | none => rfl
      | some r =>
        dsimp only
        rw [if_pos (List.all_eq_true.mpr fun i _ => h.resultSent i)]
        rfl

/-- What a turn makes of its fetches. -/
def afterFetches (st : Station) (round : Round) (descriptor : JobDescriptor) :
    Option (Except FetchError Unit × Daemon) → RoundEnd
  | none => .panics
  | some (.error _, d) => .ends (.ok .connectionLost) d
  | some (.ok (), d) =>
    if st.cfg.receiptFile then
      claimReceipt st.host round d else executeJob st.cfg st.host round descriptor d

theorem afterFetches_eq (st : Station) (round : Round) (descriptor : JobDescriptor)
    (hints : List String) (d : Daemon) :
    afterFetches st round descriptor (fetchBlobs st.host.blake3 round.fetches hints
      [descriptor.manifest, descriptor.elf, descriptor.input] 0 d) =
      onAssignment st.cfg st.host round descriptor hints d := by
  unfold onAssignment
  generalize fetchBlobs _ _ _ _ _ _ = fetched
  obtain _ | ⟨_ | _, d⟩ := fetched <;> rfl

/-- The client after a blob. -/
def afterBlob (st : Station) (descriptor : JobDescriptor) (hints rest : List String) :
    Option (Except FetchError Unit × Daemon) → WorkerPhase
  | none => .panicked
  | some (.error e, _) => .lost e
  | some (.ok (), d) => (st.fetchNext descriptor hints rest d.store).1

/-- A blob is fetched at once, or with the coordinator's reply. -/
theorem fetchNext_cons (d : Daemon) {w : FetchWorld} {idHex : String} {rest : List String}
    {m : ServerToClient}
    (hw : ∀ id, ContentId.fromHex idHex = some (.ok id) → w = st.replies hints id m) :
    let phase := (st.fetchNext descriptor hints (idHex :: rest) d.store).1
    let next := afterBlob st descriptor hints rest (fetchBlob st.host.blake3 w idHex hints d)
    phase = next ∨ (st.react phase m).1 = next := by
  dsimp only
  rw [Station.fetchNext, fetchBlob]
  cases hcid : ContentId.fromHex idHex with
  | none => exact .inl rfl
  | some cid =>
    cases cid with
    | error e => exact .inl rfl
    | ok id =>
      rw [hw id hcid]
      dsimp only
      split
      · exact .inl rfl
      dsimp only [Station.replies]
      cases fetchFromPeers st.host.blake3 (st.peers hints id) id hints 0 with
      | some fetched =>
        refine .inl ?_
        cases fetched with
        | error e => rfl
        | ok bytes => by_cases hstored : st.stored id = true <;> simp [hstored, afterBlob]
      | none =>
        refine .inr ?_
        dsimp only [Station.react, Station.replies]
        cases fetchFromServer st.host.blake3
          { peers := st.peers hints id, stored := st.stored id, requested := true, reply := .ok m }
          id with
        | error e => rfl
        | ok bytes => by_cases hstored : st.stored id = true <;> simp [hstored, afterBlob]

/-- The fetches of a turn, from the `k`-th on: those that reach the coordinator take
its next reply. -/
theorem fetch_agrees (descriptor : JobDescriptor) (h : round.At st hints ids replies) :
    ∀ (rest : List String) (k : Nat) (d : Daemon), ids.drop k = rest → ∃ used : List Nat,
      (st.client.goOn (st.fetchNext descriptor hints rest d.store).1 (used.map replies)).1.Agrees
        (afterFetches st round descriptor
          (fetchBlobs st.host.blake3 round.fetches hints rest k d)) := by
  intro rest
  induction rest with
  | nil => exact fun k d _ => ⟨[], work_agrees h d⟩
  | cons idHex rest ih =>
    intro k d hdrop
    have hid : ids[k]? = some idHex := by
      rw [← List.head?_drop, hdrop]
      rfl
    have hnext : ids.drop (k + 1) = rest := by
      rw [← List.tail_drop, hdrop]
      rfl
    have hblob : ∃ used : List Nat,
        (st.client.goOn (afterBlob st descriptor hints rest
          (fetchBlob st.host.blake3 (round.fetches k) idHex hints d)) (used.map replies)).1.Agrees
          (afterFetches st round descriptor
            (fetchBlobs st.host.blake3 round.fetches hints (idHex :: rest) k d)) := by
      rw [fetchBlobs]
      cases fetchBlob st.host.blake3 (round.fetches k) idHex hints d with
      | none => exact ⟨[], rfl⟩
      | some fetched =>
        obtain ⟨_ | _, d'⟩ := fetched
        · exact ⟨[], rfl⟩
        · exact ih (k + 1) d' hnext
    obtain ⟨used, hused⟩ := hblob
    rcases fetchNext_cons d fun id => h.fetches k idHex id hid with hnow | hreply
    · refine ⟨used, ?_⟩
      rw [hnow]
      exact hused
    · -- the reply is read in the phase that waits for it
      refine ⟨k :: used, ?_⟩
      rw [← hreply] at hused
      exact hused

end

/-- **One session, two accounts of it.** A turn of the message loop ends as the
reactions to the message it received and to the replies to its blob requests do. -/
theorem client_oneRound {st : Station} {round : Round} {m : ServerToClient}
    {replies : Nat → ServerToClient} (hreceived : round.received = .ok m)
    (h : ∀ descriptor hints, m = .jobAssignment descriptor hints →
      round.At st hints [descriptor.manifest, descriptor.elf, descriptor.input] replies)
    (reset : String → Bool) (submitted : Bool) (d : Daemon) :
    ∃ used : List Nat, (st.client.goOn (.idle d.store) (m :: used.map replies)).1.Agrees
      (oneRound st.cfg st.host reset round submitted d) := by
  unfold oneRound
  rw [hreceived]
  cases m with
  | jobAssignment descriptor hints =>
    obtain ⟨used, hused⟩ := fetch_agrees descriptor (h descriptor hints rfl) _ 0
      { d with received := d.received ++ [.ok (.jobAssignment descriptor hints)] } rfl
    refine ⟨used, ?_⟩
    dsimp only
    rw [← afterFetches_eq]
    exact hused
  | _ => exact ⟨[], rfl⟩

/-! ## What a daemon has sent -/

/-- Errors of the worker's own peers, disk and job. -/
def FetchError.own : FetchError → Bool
  | .badId => true
  | .peerHex => true
  | .peerContent => true
  | .store => true
  | _ => false

def SessionError.own : SessionError → Bool
  | .receiptFile => true
  | .noIdentity => true
  | .job => true
  | _ => false

def WorkerPhase.own : WorkerPhase → Bool
  | .lost e => e.own
  | .failed e => e.own
  | .panicked => true
  | _ => false

def WorkerPhase.ended : WorkerPhase → Bool
  | .nonce => false
  | .idle _ => false
  | .fetching _ _ _ _ _ => false
  | _ => true

def isBlob : ServerToClient → Bool
  | .blob _ => true
  | _ => false

def isRequest : ClientToServer → Bool
  | .blobRequest _ => true
  | _ => false

/-- What a daemon sends for a job: a report of it, a claim of its own, or a request for
a blob that has a name. -/
def Station.Works (st : Station) : ClientToServer → Prop
  | .jobResult r => ∃ descriptor store,
      assignmentResult st.cfg.toDaemonConfig st.host descriptor store = some (some r)
  | .receiptClaim workerId _ pubkeyHex _ _ =>
    workerId = st.cfg.workerId ∧ st.keyHex = some pubkeyHex
  | .blobRequest idHex => ∃ id, ContentId.fromHex idHex = some (.ok id)
  | _ => False

/-- Where a fetch leads: to a request, to the answer, or it stops here. -/
inductive Proceeds (st : Station) : WorkerPhase × List ClientToServer → Prop
  | asks {descriptor : JobDescriptor} {hints rest : List String} {id : ContentId} {store : Store}
    {idHex : String}
      (hid : ContentId.fromHex idHex = some (.ok id)) :
      Proceeds st (.fetching descriptor hints id rest store, [.blobRequest idHex])
  | answers {store : Store} {out : List ClientToServer} (hworks : ∀ m ∈ out, st.Works m)
      (hbooks : out.countP isRequest = 0) : Proceeds st (.idle store, out)
  | stops {phase : WorkerPhase} (hown : phase.own = true) : Proceeds st (phase, [])

section

variable {st : Station} {said : List ServerToClient} {phase : WorkerPhase}
  {sent : List ClientToServer}
  {m : ServerToClient}

theorem ended_of_own (h : phase.own = true) : phase.ended = true := by
  cases phase <;> first | rfl | cases h

theorem fetchFromPeers_own {blake3 : List U8 → Hash} {peers : Nat → PeerReply} {id : ContentId}
    {e : FetchError} :
    ∀ {hints : List String} {k : Nat}, fetchFromPeers blake3 peers id hints k = some (.error e) →
    e.own = true
  | [], _, h => nomatch h
  | _ :: hints, k, h => by
    rw [fetchFromPeers] at h
    split at h
    · split at h
      · cases h
        rfl
      · split at h
        · cases h
          rfl
        · cases h
    · exact fetchFromPeers_own h

theorem work_proceeds (descriptor : JobDescriptor) (store : Store) :
    Proceeds st (st.work descriptor store) := by
  unfold Station.work
  split
  · split
    · exact .stops rfl
    · exact .stops rfl
    next key _ hkey =>
      refine .answers (List.forall_mem_singleton.mpr ⟨rfl, ?_⟩) rfl
      rw [Station.keyHex, hkey]
      rfl
  · split
    · exact .stops rfl
    · exact .stops rfl
    next r hr =>
      refine .answers (fun m hm => ?_) ?_
      · rw [List.eq_of_mem_replicate hm]
        exact ⟨descriptor, store, hr⟩
      · rw [List.countP_replicate]
        rfl

theorem fetchNext_proceeds (descriptor : JobDescriptor) (hints : List String) :
    ∀ (ids : List String) (store : Store),
    Proceeds st (st.fetchNext descriptor hints ids store)
  | [], store => work_proceeds descriptor store
  | idHex :: rest, store => by
    rw [Station.fetchNext]
    split
    · exact .stops rfl
    · exact .stops rfl
    next id hid =>
      split
      · exact fetchNext_proceeds descriptor hints rest store
      · split
        next e herror => exact .stops (fetchFromPeers_own herror)
        · split
          · exact .stops rfl
          · exact fetchNext_proceeds descriptor hints rest _
        · exact .asks hid

/-- The messages a session has received and sent, by phase. There is a blob for every
request but the one it waits for. -/
inductive Account (st : Station) : List ServerToClient → WorkerPhase → List ClientToServer → Prop
  | greets : Account st [] .nonce [st.hello]
  | idle {text : String} {powBits : Nat} {nonce : List U8} {said : List ServerToClient}
      {works : List ClientToServer}
      (store : Store) (hnonce : hexDecode text = some nonce) (hworks : ∀ m ∈ works, st.Works m)
      (hbooks : works.countP isRequest = said.countP isBlob) :
      Account st (.nonce text powBits :: said) (.idle store)
        (st.hello :: st.nonceSignature nonce powBits :: works)
  | fetching {text : String} {powBits : Nat} {nonce : List U8} {said : List ServerToClient}
      {works : List ClientToServer} {idHex : String} {id : ContentId} (descriptor : JobDescriptor)
      (hints rest : List String) (store : Store) (hnonce : hexDecode text = some nonce)
      (hworks : ∀ m ∈ works, st.Works m) (hbooks : works.countP isRequest = said.countP isBlob)
      (hid : ContentId.fromHex idHex = some (.ok id)) :
      Account st (.nonce text powBits :: said) (.fetching descriptor hints id rest store)
        (st.hello :: st.nonceSignature nonce powBits :: (works ++ [.blobRequest idHex]))
  | refused {said : List ServerToClient} {phase : WorkerPhase} (hsaid : said ≠ [])
      (hended : phase.ended = true) :
      Account st said phase [st.hello]
  | ended {text : String} {powBits : Nat} {nonce : List U8} {said : List ServerToClient}
      {phase : WorkerPhase} {works : List ClientToServer} (hnonce : hexDecode text = some nonce)
      (hworks : ∀ m ∈ works, st.Works m) (hended : phase.ended = true) :
      Account st (.nonce text powBits :: said) phase
        (st.hello :: st.nonceSignature nonce powBits :: works)

theorem react_ended (h : phase.ended = true) (m : ServerToClient) :
    st.react phase m = (phase, []) := by
  cases phase <;> first | rfl | cases h

theorem account_proceeds {text : String} {powBits : Nat} {nonce : List U8}
    {said : List ServerToClient} {works : List ClientToServer}
    {p : WorkerPhase × List ClientToServer} (h : Proceeds st p)
    (hnonce : hexDecode text = some nonce) (hworks : ∀ m ∈ works, st.Works m)
    (hbooks : works.countP isRequest = said.countP isBlob) :
    Account st (.nonce text powBits :: said) p.1
      (st.hello :: st.nonceSignature nonce powBits :: (works ++ p.2)) := by
  cases h with
  | asks hid => exact .fetching _ _ _ _ hnonce hworks hbooks hid
  | answers hout hnone =>
    refine .idle _ hnonce (List.forall_mem_append.mpr ⟨hworks, hout⟩) ?_
    rw [List.countP_append, hnone, hbooks, Nat.add_zero]
  | stops hown =>
    rw [List.append_nil]
    exact .ended hnonce hworks (ended_of_own hown)

/-- A reply that is a blob. -/
theorem reply_of_fetchFromServer {blake3 : List U8 → Hash} {w : FetchWorld} {id : ContentId}
    {bytes : List U8} (h : fetchFromServer blake3 w id = .ok bytes) :
    ∃ text, w.reply = .ok (.blob (some text)) := by
  unfold fetchFromServer at h
  split at h
  · cases h
  · split at h
    · cases h
    next text hreply => exact ⟨text, hreply⟩
    · cases h
    · cases h
    · cases h

theorem account_step (h : Account st said phase sent) (m : ServerToClient) :
    Account st (said ++ [m]) (st.react phase m).1 (sent ++ (st.react phase m).2) := by
  cases h with
  | greets =>
    cases m with
    | nonce text powBits =>
      rw [Station.react]
      cases hnonce : hexDecode text with
      | none => exact .refused nofun rfl
      | some nonce => exact .idle _ hnonce (List.forall_mem_nil _) rfl
    | _ => exact .refused nofun rfl
  | @idle text powBits nonce said works store hnonce hworks hbooks =>
    have hkept : isBlob m = false → works.countP isRequest = (said ++ [m]).countP isBlob := by
      intro hm
      rw [List.countP_append, List.countP_singleton, hm, hbooks]
      rfl
    have hidle : isBlob m = false → Account st (.nonce text powBits :: (said ++ [m])) (.idle store)
        (st.hello :: st.nonceSignature nonce powBits :: (works ++ [])) := by
      intro hm
      rw [List.append_nil]
      exact .idle store hnonce hworks (hkept hm)
    have hends : ∀ phase : WorkerPhase, phase.ended = true →
      Account st (.nonce text powBits :: (said ++ [m])) phase
        (st.hello :: st.nonceSignature nonce powBits :: (works ++ [])) := by
      intro phase hended
      rw [List.append_nil]
      exact .ended hnonce hworks hended
    cases m with
    | jobAssignment descriptor hints =>
      exact account_proceeds (fetchNext_proceeds _ _ _ _) hnonce hworks (hkept rfl)
    | authOk id => exact hidle rfl
    | betweenJobs => exact hidle rfl
    | _ => exact hends _ rfl
  | @fetching text powBits nonce said works idHex id descriptor hints rest store hnonce hworks
    hbooks hid =>
    have hworks' : ∀ m ∈ works ++ [.blobRequest idHex], st.Works m :=
      List.forall_mem_append.mpr ⟨hworks, List.forall_mem_singleton.mpr ⟨id, hid⟩⟩
    rw [Station.react]
    split
    · rw [List.append_nil]
      exact .ended hnonce hworks' rfl
    next bytes hbytes =>
      obtain ⟨reply, hreply⟩ := reply_of_fetchFromServer hbytes
      obtain rfl := Except.ok.inj hreply
      split
      · rw [List.append_nil]
        exact .ended hnonce hworks' rfl
      · refine account_proceeds (fetchNext_proceeds _ _ _ _) hnonce hworks' ?_
        show _ = (said ++ [_]).countP isBlob
        rw [List.countP_append, List.countP_append, hbooks]
        rfl
  | refused hsaid hended =>
    rw [react_ended hended, List.append_nil]
    exact .refused (by simp) hended
  | ended hnonce hworks hended =>
    rw [react_ended hended, List.append_nil]
    exact .ended hnonce hworks hended

theorem client_account (st : Station) (said : List ServerToClient) :
    Account st said (st.client.state said) (st.client.sent said) := by
  induction said using List.reverseRecOn with
  | nil => exact .greets
  | append_singleton said m ih =>
    rw [Reactor.state_concat, Reactor.sent_concat]
    exact account_step ih m

end

/-! ## How a session can end -/

def tellsOutcome : ServerToClient → Bool
  | .jobOutcome _ _ _ _ _ _ => true
  | _ => false

/-- Who waits for a blob. -/
def WorkerPhase.fetches : WorkerPhase → Bool
  | .fetching _ _ _ _ _ => true
  | _ => false

/-- Messages that can come in place of a blob: the unasked ones, and the end of a login
that was overtaken by an assignment. -/
def interrupts : ServerToClient → Bool
  | .authOk _ => true
  | m => unasked m

/-- What the session makes of them. -/
def interruption : ServerToClient → FetchError
  | .betweenJobs => .cancelled
  | _ => .unexpected

/-- The phases of a session that was told `said`. -/
inductive Fate (st : Station) (said : List ServerToClient) : WorkerPhase → Prop
  | greets (h : said = []) : Fate st said .nonce
  | idle (store : Store) : Fate st said (.idle store)
  | fetching (descriptor : JobDescriptor) (hints : List String) (id : ContentId)
      (rest : List String) (store : Store) : Fate st said (.fetching descriptor hints id rest store)
  | own {phase : WorkerPhase} (h : phase.own = true) : Fate st said phase
  /-- Something came before the challenge. -/
  | hurried {m : ServerToClient} (hfirst : said.head? = some m) (hm : unasked m = true) :
      Fate st said (.failed (.expectedNonce m))
  | dismissed {reason : String} (h : .shutDown reason ∈ said) : Fate st said .shutDown
  /-- While it waited for a blob, `m` came in its place. -/
  | interrupted {before after : List ServerToClient} {m : ServerToClient}
      (hsaid : said = before ++ m :: after)
      (hwaits : (st.client.state before).fetches = true) (hm : interrupts m = true) :
      Fate st said (.lost (interruption m))
  | lacking (h : .blob none ∈ said) : Fate st said (.lost .notFound)
  | told {m : ServerToClient} (h : m ∈ said) (hm : tellsOutcome m = true) :
    Fate st said (.failed (.unexpected m))

section

variable {st : Station} {said new : List ServerToClient} {phase : WorkerPhase} {m : ServerToClient}

theorem fate_ended (h : Fate st said phase) (hended : phase.ended = true)
    (new : List ServerToClient) : Fate st (said ++ new) phase := by
  cases h with
  | own hown => exact .own hown
  | hurried hfirst hm =>
    refine .hurried ?_ hm
    rw [List.head?_append, hfirst]
    rfl
  | dismissed h => exact .dismissed (List.mem_append_left _ h)
  | interrupted hsaid hwaits hm =>
    subst hsaid
    exact .interrupted (List.append_assoc _ _ _) hwaits hm
  | lacking h => exact .lacking (List.mem_append_left _ h)
  | told h hm => exact .told (List.mem_append_left _ h) hm
  | _ => cases hended

theorem fate_proceeds {p : WorkerPhase × List ClientToServer} (h : Proceeds st p) :
    Fate st said p.1 := by
  cases h with
  | asks => exact .fetching _ _ _ _ _
  | answers => exact .idle _
  | stops hown => exact .own hown

/-- A session that waits for a blob gets something else. -/
theorem fate_interrupted {descriptor : JobDescriptor} {hints : List String} {id : ContentId}
    {rest : List String} {store : Store}
    (hstate : st.client.state said = .fetching descriptor hints id rest store)
    (hm : interrupts m = true) :
    Fate st (said ++ [m]) (st.react (.fetching descriptor hints id rest store) m).1 := by
  have hfate : Fate st (said ++ [m]) (.lost (interruption m)) :=
    .interrupted rfl (by rw [hstate]; rfl) hm
  cases m <;> first
    | exact hfate
    | cases hm

theorem fate_unasked (h : Fate st said phase) (hstate : st.client.state said = phase)
    (hm : unasked m = true) : Fate st (said ++ [m]) (st.react phase m).1 := by
  have hmem : m ∈ said ++ [m] := List.mem_append_right _ (List.mem_singleton_self m)
  cases phase with
  | nonce =>
    cases h with
    | greets hsaid =>
      subst hsaid
      cases m <;> first | exact .hurried rfl hm | cases hm
    | own hown => cases hown
  | idle store =>
    cases m with
    | jobAssignment descriptor hints => exact fate_proceeds (fetchNext_proceeds _ _ _ _)
    | betweenJobs => exact .idle store
    | shutDown reason => exact .dismissed hmem
    | jobOutcome => exact .told hmem rfl
    | _ => cases hm
  | fetching descriptor hints id rest store =>
    refine fate_interrupted hstate ?_
    cases m <;> first | rfl | cases hm
  | _ => exact fate_ended h rfl [m]

theorem fate_waits (hnew : ∀ m ∈ new, unasked m = true) (h : Fate st said (st.client.state said)) :
    Fate st (said ++ new) (st.client.state (said ++ new)) := by
  induction new using List.reverseRecOn with
  | nil => rwa [List.append_nil]
  | append_singleton new m ih =>
    rw [← List.append_assoc, Reactor.state_concat]
    refine fate_unasked (ih fun m hm => hnew m (List.mem_append_left _ hm)) rfl (hnew m ?_)
    exact List.mem_append_right _ (List.mem_singleton_self m)

/-- The blob that was asked for. -/
theorem fate_blob {blake3 : List U8 → Hash} (hhash : st.host.blake3 = blake3)
    {descriptor : JobDescriptor} {hints rest : List String} {id : ContentId} {store files : Store} :
    Fate st (said ++ [.blob ((files.get blake3 id).map hex)])
      (st.react (.fetching descriptor hints id rest store)
        (.blob ((files.get blake3 id).map hex))).1 := by
  cases hget : files.get blake3 id with
  | none => exact .lacking (List.mem_append_right _ (List.mem_singleton_self _))
  | some data =>
    have hname : st.host.blake3 data = id := by
      rw [hhash]
      exact of_decide_eq_true (Option.filter_eq_some_iff.mp hget).2
    have hserver : fetchFromServer st.host.blake3 (st.replies hints id (.blob (some (hex data)))) id
        = .ok data := by
      simp only [fetchFromServer, Station.replies, hexDecode, fromHex_hex_half, Except.toOption,
        hname, ne_eq, not_true_eq_false, if_false, Bool.not_true, Bool.false_eq_true]
    rw [Option.map_some, Station.react, hserver]
    dsimp only
    split
    · exact .own rfl
    · exact fate_proceeds (fetchNext_proceeds _ _ _ _)

end

end Provework.Worker
