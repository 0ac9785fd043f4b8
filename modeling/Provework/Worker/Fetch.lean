import Provework.Contentstore.Put
import Provework.Worker.Session

/-!
# Fetching a blob from peers and coordinator

`fetch_blob` asks the peers in order and then the coordinator. A peer that is down,
is silent or says that it does not have the blob is passed over. The first one that
sends a blob decides the fetch: if its hex is malformed or its content is another,
the fetch returns the error and the coordinator is never asked. So what the
coordinator would have answered counts only if the blob is cached or that peer is
honest (`fetchBlob_iff`), and one peer of the hints can end the session of every
worker that asks it (`onAssignment_blocked`).
-/

namespace Provework.Worker

open Provework.Lib Provework.Jobfmt Provework.Contentstore Provework.Wire Provework.Coordinator

/-- The hex of a reply that carries a blob. -/
def PeerReply.blob : PeerReply → Option String
  | .received (.ok (.peerBlob (some hex))) => some hex
  | _ => none

/-- The blob of the first of `n` peers that sends one. -/
def firstBlob (peers : Nat → PeerReply) (n : Nat) : Option String :=
  (List.range n).findSome? fun k => (peers k).blob

/-- What the loop makes of a blob it was sent. -/
def checkPeerBlob (blake3 : List U8 → Hash) (id : ContentId) (hex : String) :
    Except FetchError (List U8) :=
  match hexDecode hex with
  | none => .error .peerHex
  | some bytes => if blake3 bytes ≠ id then .error .peerContent else .ok bytes

/-- What a fetch brings in: the first blob of a peer, or the coordinator's. -/
def fetched (blake3 : List U8 → Hash) (w : FetchWorld) (id : ContentId) (n : Nat) :
    Except FetchError (List U8) :=
  ((firstBlob w.peers n).map (checkPeerBlob blake3 id)).getD (fetchFromServer blake3 w id)

section

variable {blake3 : List U8 → Hash} {id : ContentId} {w : FetchWorld} {idHex : String}
  {peerHints : List String} {d : Daemon} {bytes : List U8}

theorem fetchFromPeers_cons (peers : Nat → PeerReply) (hint : String) (hints : List String)
    (k : Nat) :
    fetchFromPeers blake3 peers id (hint :: hints) k =
      (peers k).blob.elim (fetchFromPeers blake3 peers id hints (k + 1))
        fun hex => some (checkPeerBlob blake3 id hex) := by
  rw [fetchFromPeers]
  rcases peers k with _ | _ | e | idHex | _ | hex
  case received.ok.peerBlob.some =>
    dsimp only [PeerReply.blob, Option.elim, checkPeerBlob]
    cases hexDecode hex with
    | none => rfl
    | some bytes => exact (apply_ite some _ _ _).symm
  all_goals rfl

theorem fetchFromPeers_range (peers : Nat → PeerReply) : ∀ (hints : List String) (k : Nat),
    fetchFromPeers blake3 peers id hints k =
      ((List.range' k hints.length).findSome? fun j => (peers j).blob).map
        (checkPeerBlob blake3 id) := by
  intro hints
  induction hints with
  | nil => exact fun _ => rfl
  | cons hint hints ih =>
    intro k
    rw [fetchFromPeers_cons, List.length_cons, List.range'_succ, List.findSome?_cons]
    cases (peers k).blob with
    | none => exact ih (k + 1)
    | some hex => rfl

/-- The peers' part of the fetch: the first blob decides. -/
theorem fetchFromPeers_eq (peers : Nat → PeerReply) (hints : List String) :
    fetchFromPeers blake3 peers id hints 0 =
      (firstBlob peers hints.length).map (checkPeerBlob blake3 id) := by
  rw [fetchFromPeers_range, firstBlob, List.range_eq_range']

/-- A blob that passes the check is the requested one; nothing else is taken. -/
theorem checkPeerBlob_ok_iff {hex : String} {b : List U8} :
    checkPeerBlob blake3 id hex = .ok b ↔ hexDecode hex = some b ∧ blake3 b = id := by
  unfold checkPeerBlob
  cases hexDecode hex with
  | none => exact iff_of_false (fun h => by cases h) fun h => by cases h.1
  | some b' =>
    rw [except_guard_ok, not_not, Option.some_inj]
    exact and_congr_right fun heq => by rw [heq]

theorem fetchFromServer_ok {hex : String} (hrequested : w.requested = true)
    (hreply : w.reply = .ok (.blob (some hex))) (hdecode : hexDecode hex = some bytes)
    (hid : blake3 bytes = id) : fetchFromServer blake3 w id = .ok bytes := by
  simp only [fetchFromServer, hrequested, Bool.not_true, Bool.false_eq_true, if_false, hreply,
    hdecode, hid, ne_eq, not_true_eq_false]

theorem get_put_new {store : Store} (hnew : store.has id = false) (hid : blake3 bytes = id) :
    (store.put blake3 bytes).get blake3 id = some bytes := by
  have hnone : store (blake3 bytes) = none := by
    rw [hid]
    simpa [Store.has] using hnew
  simp only [Store.put, Store.get, hnone, ← hid, Function.update_self, Option.filter_some,
    decide_true, if_true]

/-- A blob that is not cached is what was brought in, if it can be stored. -/
theorem fetchBlob_ok (hidHex : ContentId.fromHex idHex = some (.ok id))
    (hnew : d.store.has id = false) (hstored : w.stored = true)
    (hfetched : fetched blake3 w id peerHints.length = .ok bytes) :
    ∃ stats, fetchBlob blake3 w idHex peerHints d =
      some (.ok (), { d with store := d.store.put blake3 bytes, stats := stats }) := by
  unfold fetchBlob
  unfold fetched at hfetched
  rw [hidHex]
  simp only [hnew, Bool.false_eq_true, if_false, hstored, Bool.not_true, fetchFromPeers_eq]
  cases hfirst : firstBlob w.peers peerHints.length with
  | none =>
    rw [hfirst] at hfetched
    simp only [Option.map_none, Option.getD_none] at hfetched ⊢
    rw [hfetched]
    exact ⟨_, rfl⟩
  | some hex =>
    rw [hfirst] at hfetched
    simp only [Option.map_some, Option.getD_some] at hfetched ⊢
    rw [hfetched]
    exact ⟨_, rfl⟩

/-- The error of a peer is the error of the fetch. -/
theorem fetchBlob_error {hex : String} {e : FetchError}
    (hidHex : ContentId.fromHex idHex = some (.ok id)) (hnew : d.store.has id = false)
    (hfirst : firstBlob w.peers peerHints.length = some hex)
    (hbad : checkPeerBlob blake3 id hex = .error e) :
    fetchBlob blake3 w idHex peerHints d = some (.error e, d) := by
  unfold fetchBlob
  rw [hidHex]
  simp only [hnew, Bool.false_eq_true, if_false, fetchFromPeers_eq, hfirst, Option.map_some, hbad]

end

/-- The coordinator would answer with the blob, and it can be stored. Then the fetch
returns `Ok` and the store has the blob exactly if it is cached, or the first peer
that sends a blob sends this one. -/
theorem fetchBlob_iff (blake3 : List U8 → Hash) (w : FetchWorld) (idHex : String) (id : ContentId)
    (hidHex : ContentId.fromHex idHex = some (.ok id)) (peerHints : List String) (d : Daemon)
    (hintact : d.store.Intact blake3) (bytes : List U8) (hid : ∀ b, blake3 b = id ↔ b = bytes)
    (hrequested : w.requested = true) (hex : String) (hreply : w.reply = .ok (.blob (some hex)))
    (hdecode : hexDecode hex = some bytes) (hstored : w.stored = true) :
    (∃ d', fetchBlob blake3 w idHex peerHints d = some (.ok (), d') ∧
        d'.store.get blake3 id = some bytes) ↔
      d.store.has id = true ∨
        ∀ sent, firstBlob w.peers peerHints.length = some sent → hexDecode sent = some bytes := by
  have hbytes : blake3 bytes = id := (hid bytes).mpr rfl
  cases hnew : d.store.has id with
  | true =>
    refine iff_of_true ⟨d, ?_, ?_⟩ (.inl rfl)
    · simp only [fetchBlob, hidHex, hnew, if_true]
    · obtain ⟨b, hb⟩ := Option.isSome_iff_exists.mp hnew
      rw [Store.get, hb, (hid b).mp (hintact id b hb), Option.filter_some, hbytes]
      exact if_pos (decide_eq_true rfl)
  | false =>
    simp only [Bool.false_eq_true, false_or]
    constructor
    · rintro ⟨d', hfetch, -⟩ sent hsent
      cases hcheck : checkPeerBlob blake3 id sent with
      | error e =>
        rw [fetchBlob_error hidHex hnew hsent hcheck] at hfetch
        cases hfetch
      | ok b =>
        obtain ⟨hdec, hb⟩ := checkPeerBlob_ok_iff.mp hcheck
        rw [hdec, (hid b).mp hb]
    · intro hfirst
      have hfetched : fetched blake3 w id peerHints.length = .ok bytes := by
        unfold fetched
        cases hsent : firstBlob w.peers peerHints.length with
        | none => exact fetchFromServer_ok hrequested hreply hdecode hbytes
        | some sent => exact checkPeerBlob_ok_iff.mpr ⟨hfirst sent hsent, hbytes⟩
      obtain ⟨stats, hfetch⟩ := fetchBlob_ok hidHex hnew hstored hfetched
      exact ⟨_, hfetch, get_put_new hnew hbytes⟩

/-- The coordinator has the blob `[1]`; the one peer of the hints replies as given. -/
def oneByteFetch (peer : PeerReply) : FetchWorld :=
  { peers := fun _ => peer, stored := true, requested := true, reply := .ok (.blob (some "01")) }

theorem fetchBlob_silentPeer :
    ∃ d', fetchBlob flagId (oneByteFetch .unreachable) (hex (List.ofFn (flagId [1])))
      ["10.0.0.9:9000"]
        (.start fun _ => none) = some (.ok (), d') ∧
        d'.store.get flagId (flagId [1]) = some [1] := by
  refine (fetchBlob_iff flagId (oneByteFetch .unreachable) (hex (List.ofFn (flagId [1])))
    (flagId [1])
    (ContentId.fromHex_hex _) ["10.0.0.9:9000"] (.start fun _ => none) (fun _ _ h => nomatch h) [1]
    (fun b => ⟨flagId_one b, congrArg flagId⟩) rfl "01" rfl (by decide +kernel) rfl).mpr (.inr ?_)
  exact fun sent h => nomatch h

/-- A peer that sends malformed hex, and one that sends another blob: the fetch
fails, although the coordinator would have sent the blob. -/
theorem fetchBlob_hostilePeer :
    (oneByteFetch .unreachable).reply = .ok (.blob (some "01")) ∧ hexDecode "01" = some [1] ∧
    ∀ sent ∈ ["zz", "02"], ∃ e,
      fetchBlob flagId (oneByteFetch (.received (.ok (.peerBlob (some sent)))))
        (hex (List.ofFn (flagId [1])))
        ["10.0.0.9:9000"] (.start fun _ => none) = some (.error e, .start fun _ => none) := by
  have hchecks : ∀ sent ∈ ["zz", "02"], (checkPeerBlob flagId (flagId [1]) sent).isOk = false := by
    decide +kernel
  refine ⟨rfl, by decide +kernel, fun sent hsent => ?_⟩
  cases hcheck : checkPeerBlob flagId (flagId [1]) sent with
  | error e => exact ⟨e, fetchBlob_error (ContentId.fromHex_hex _) rfl rfl hcheck⟩
  | ok bytes =>
    have hbad := hchecks sent hsent
    rw [hcheck] at hbad
    cases hbad

/-! ## The session -/

/-- The peer that sends a wrong blob for a manifest ends the session, and the daemon
has nothing to show for it. -/
theorem onAssignment_blocked {cfg : SessionConfig} {host : WorkerHost} {round : Round}
    {descriptor : JobDescriptor} {peerHints : List String} {d : Daemon} {id : ContentId}
    {sent : String} (hid : ContentId.fromHex descriptor.manifest = some (.ok id))
    (hnew : d.store.has id = false)
    (hsent : firstBlob (round.fetches 0).peers peerHints.length = some sent)
    (hbad : ∀ bytes, hexDecode sent = some bytes → host.blake3 bytes ≠ id) :
    onAssignment cfg host round descriptor peerHints d = .ends (.ok .connectionLost) d := by
  unfold onAssignment
  cases hcheck : checkPeerBlob host.blake3 id sent with
  | error e => rw [fetchBlobs, fetchBlob_error hid hnew hsent hcheck]
  | ok bytes =>
    obtain ⟨hdecode, hbytes⟩ := checkPeerBlob_ok_iff.mp hcheck
    exact absurd hbytes (hbad bytes hdecode)

end Provework.Worker
