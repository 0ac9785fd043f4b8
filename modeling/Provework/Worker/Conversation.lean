import Provework.Worker.Client

/-!
# A daemon among all the others

An unmodified daemon and the coordinator understand each other: whatever other
clients, threads and jobs do, the daemon's login is accepted, every blob it asks for
is answered with that blob or the news that it is not there, and no message comes that
it does not know. So in `daemon_understood` a session ends only for the reasons listed
in `Fate`: something of its own host, a message nobody asked for at a moment where it
waits for an answer, or a blob the coordinator lacks. As long as the connection is open
its results pass all checks on the connection, and each is counted exactly if the
pending job was dispatched to the daemon's id and nothing came under this id yet. Ids
are all the coordinator goes by: who logs in under the id of the daemon and answers
first takes its vote.
-/

namespace Provework.Worker

open Provework.Lib Provework.Jobfmt Provework.Contentstore Provework.Wire Provework.Coordinator

/-! ## What the coordinator makes of it -/

/-- A daemon the coordinator has no reason to refuse. -/
structure Admissible (crypto : Crypto) (cfg : ServeConfig) (st : Station) (key : Identity) :
    Prop where
  identity : st.host.identity = some key
  signs : Signs crypto key
  mined : ∀ nonce,
    verifyPow crypto.blake3 nonce (st.mine nonce cfg.identityPowBits) cfg.identityPowBits = true
  named : st.cfg.workerId ≠ ""
  hash : st.host.blake3 = crypto.blake3

/-- The record of the connection, by what was heard of it. -/
inductive Record (st : Station) (key : Identity) (powBits conn : Nat) :
    Conn → List ClientToServer → List ServerToClient → Prop
  | greeting {said : List ServerToClient} (peerIp : String) (hsaid : ∀ m ∈ said, unasked m = true) :
      Record st key powBits conn (.new conn peerIp) [] said
  | challenged {x : Conn} {nonce : List U8} {early late : List ServerToClient}
      (hid : x.workerId = st.cfg.workerId) (hkey : x.pubkey = some (hex key.verifyingKey))
      (hnonce : x.nonce = some nonce) (hearly : ∀ m ∈ early, unasked m = true)
      (hlate : ∀ m ∈ late, unasked m = true) :
      Record st key powBits conn x [st.hello] (early ++ .nonce (hex nonce) powBits :: late)
  | admitted {x : Conn} {nonce : List U8} {works : List ClientToServer} {said : List ServerToClient}
      (hid : x.workerId = st.cfg.workerId) (hkey : x.pubkey = some (hex key.verifyingKey))
      (hauthed : x.authed = true) :
      Record st key powBits conn x (st.hello :: st.nonceSignature nonce powBits :: works) said

/-- How far a session has come at the coordinator. -/
structure Course (st : Station) (key : Identity) (powBits conn : Nat) (x : Conn)
    (heard : List ClientToServer) (said : List ServerToClient) : Prop where
  record : Record st key powBits conn x heard said
  replied : said.countP isBlob = heard.countP isRequest
  spoken : heard <+: st.client.sent said
  fate : Fate st said (st.client.state said)

section

variable {crypto : Crypto} {cfg : ServeConfig} {st : Station} {key : Identity} {s s' : Serve}
  {host : Host}
  {now conn powBits : Nat} {x : Conn} {heard : List ClientToServer} {said new : List ServerToClient}

theorem countP_unasked (h : ∀ m ∈ said, unasked m = true) : said.countP isBlob = 0 := by
  rw [List.countP_eq_zero]
  intro m hm
  have hunasked := h m hm
  cases m <;> first | exact Bool.false_ne_true | cases hunasked

theorem course_opens (st : Station) (key : Identity) (powBits conn : Nat) (peerIp : String) :
    Course st key powBits conn (.new conn peerIp) [] [] where
  record := .greeting peerIp (List.forall_mem_nil _)
  replied := rfl
  spoken := List.nil_prefix
  fate := .greets rfl

theorem course_waits (h : Course st key powBits conn x heard said)
    (hnew : ∀ m ∈ new, unasked m = true) : Course st key powBits conn x heard (said ++ new) where
  record := by
    cases h.record with
    | greeting peerIp hsaid => exact .greeting peerIp (List.forall_mem_append.mpr ⟨hsaid, hnew⟩)
    | challenged hid hkey hnonce hearly hlate =>
      rw [List.append_assoc, List.cons_append]
      exact .challenged hid hkey hnonce hearly (List.forall_mem_append.mpr ⟨hlate, hnew⟩)
    | admitted hid hkey hauthed => exact .admitted hid hkey hauthed
  replied := by rw [List.countP_append, countP_unasked hnew, h.replied, Nat.add_zero]
  spoken := h.spoken.trans (st.client.sent_mono (List.prefix_append _ _))
  fate := fate_waits hnew h.fate

/-- The session is as far as that. -/
def Comes (st : Station) (key : Identity) (powBits conn : Nat) (heard : List ClientToServer)
    (s : Serve) : Prop :=
  ∀ x, s.conns.lookup conn = some x → Course st key powBits conn x heard (toConn conn s.sent)

theorem comes_of_lookup (hx : s.conns.lookup conn = some x)
    (h : Course st key powBits conn x heard (toConn conn s.sent)) :
    Comes st key powBits conn heard s := by
  intro x' hx'
  obtain rfl := Option.some.inj (hx.symm.trans hx')
  exact h

theorem comes_of_event {e : Event} (h : s.onEvent crypto cfg host now e = some s')
    (hs' : Comes st key powBits conn heard s') :
    Comes st key powBits conn heard (s.handle crypto cfg host now e) := by
  rw [Serve.handle, h]
  exact hs'

theorem keyHex_of_identity (h : Admissible crypto cfg st key) :
    st.keyHex = some (hex key.verifyingKey) := by
  rw [Station.keyHex, h.identity]
  rfl

theorem hex_key_ne_empty (h : Signs crypto key) : hex key.verifyingKey ≠ "" := by
  intro hempty
  have hlen : (utf8 (hex key.verifyingKey)).length = 32 * 2 := by
    rw [utf8_hex, length_hexCodes, h.keyLength]
  rw [hempty] at hlen
  cases hlen

/-- The challenge meets a session that waits for it, or one that is over. -/
theorem fate_challenge (hsaid : ∀ m ∈ said, unasked m = true)
    (h : Fate st said (st.client.state said)) (nonce : List U8) :
    Fate st (said ++ [.nonce (hex nonce) powBits])
      (st.client.state (said ++ [.nonce (hex nonce) powBits])) := by
  rw [Reactor.state_concat]
  have haccount := client_account st said
  generalize st.client.state said = phase at h haccount
  generalize st.client.sent said = sent at haccount
  have hends : phase.ended = true → Fate st (said ++ [.nonce (hex nonce) powBits])
      (st.react phase (.nonce (hex nonce) powBits)).1 := by
    intro hended
    rw [react_ended hended]
    exact fate_ended h hended _
  cases haccount with
  | greets =>
    show Fate st _ (st.react .nonce _).1
    rw [Station.react]
    simp only [hexDecode, fromHex_hex_half, Except.toOption]
    exact .idle _
  | refused _ hended => exact hends hended
  | ended _ _ hended => exact hends hended
  | idle => cases hsaid _ List.mem_cons_self
  | fetching => cases hsaid _ List.mem_cons_self

theorem answer_hello (h : Admissible crypto cfg st key) {peerIp : String}
    (hx : s.conns.lookup conn = some (.new conn peerIp))
    (hsaid : ∀ m ∈ toConn conn s.sent, unasked m = true)
    (hfate : Fate st (toConn conn s.sent) (st.client.state (toConn conn s.sent))) :
    Comes st key cfg.identityPowBits conn [st.hello]
      (s.handle crypto cfg host now (eventOf conn st.hello)) := by
  have hevent : s.onEvent crypto cfg host now (eventOf conn st.hello) = some
      (s.onHello cfg (List.ofFn host.nonce) conn (st.keyHex.getD "") st.cfg.workerId st.listenPort
        "worker") := rfl
  rw [Serve.onHello, hx, keyHex_of_identity h] at hevent
  refine comes_of_event hevent (comes_of_lookup (AList.lookup_insert _) ?_)
  rw [toConn_send]
  show Course _ _ _ _ _ _ (toConn conn s.sent ++ _)
  have hid : (if st.cfg.workerId = "" then defaultId conn else st.cfg.workerId) = st.cfg.workerId :=
    if_neg h.named
  have hkey : (if hex key.verifyingKey = "" then none else some (hex key.verifyingKey))
      = some (hex key.verifyingKey) := if_neg (hex_key_ne_empty h.signs)
  refine ⟨.challenged hid hkey rfl hsaid (List.forall_mem_nil _), ?_, ?_,
    fate_challenge hsaid hfate _⟩
  · rw [List.countP_append, countP_unasked hsaid]
    rfl
  · exact (List.prefix_append [st.hello] _).trans (st.client.sent_mono List.nil_prefix)

/-- The second message answers the challenge, everything behind it is work. -/
theorem account_heads {phase : WorkerPhase} {sent : List ClientToServer}
    (h : Account st said phase sent) :
    sent = [st.hello] ∨ ∃ text powBits nonce said' works, said = .nonce text powBits :: said' ∧
      hexDecode text = some nonce ∧ sent = st.hello :: st.nonceSignature nonce powBits :: works ∧
      ∀ m ∈ works, st.Works m := by
  cases h with
  | greets => exact .inl rfl
  | refused => exact .inl rfl
  | idle _ hnonce hworks => exact .inr ⟨_, _, _, _, _, rfl, hnonce, rfl, hworks⟩
  | fetching _ _ _ _ hnonce hworks _ hid =>
    refine .inr ⟨_, _, _, _, _, rfl, hnonce, rfl, List.forall_mem_append.mpr ⟨hworks, ?_⟩⟩
    exact List.forall_mem_singleton.mpr ⟨_, hid⟩
  | ended hnonce hworks => exact .inr ⟨_, _, _, _, _, rfl, hnonce, rfl, hworks⟩

/-- A session that answers the challenge got nothing before it. -/
theorem challenged_next {nonce : List U8} {early late : List ServerToClient} {m : ClientToServer}
    (hearly : ∀ m ∈ early, unasked m = true)
    (hnext : [st.hello] ++ [m] <+: st.client.sent (early ++ .nonce (hex nonce) powBits :: late)) :
    early = [] ∧ m = st.nonceSignature nonce powBits := by
  rcases account_heads (client_account st (early ++ .nonce (hex nonce) powBits :: late)) with
    hsent | ⟨text, powBits', nonce', said', works, hsaid, hnonce, hsent, -⟩
  · rw [hsent] at hnext
    exact absurd hnext.length_le (by simp)
  · cases early with
    | cons e early =>
      cases hsaid
      cases hearly _ List.mem_cons_self
    | nil =>
      cases hsaid
      rw [hexDecode, fromHex_hex_half] at hnonce
      cases hnonce
      rw [hsent] at hnext
      obtain ⟨-, hnext⟩ := List.cons_prefix_cons.mp hnext
      exact ⟨rfl, (List.cons_prefix_cons.mp hnext).1⟩

theorem answer_nonceSignature (h : Admissible crypto cfg st key) {nonce : List U8}
    {late : List ServerToClient} (hx : s.conns.lookup conn = some x)
    (hid : x.workerId = st.cfg.workerId) (hkey : x.pubkey = some (hex key.verifyingKey))
    (hnonce : x.nonce = some nonce)
    (hsaid : toConn conn s.sent = .nonce (hex nonce) cfg.identityPowBits :: late)
    (hlate : ∀ m ∈ late, unasked m = true)
    (hnext :
      [st.hello] ++ [st.nonceSignature nonce cfg.identityPowBits] <+: st.client.sent
        (toConn conn s.sent))
    (hfate : Fate st (toConn conn s.sent) (st.client.state (toConn conn s.sent))) :
    Comes st key cfg.identityPowBits conn
      ([st.hello] ++ [st.nonceSignature nonce cfg.identityPowBits])
      (s.handle crypto cfg host now
        (eventOf conn (st.nonceSignature nonce cfg.identityPowBits))) := by
  have hsig : (st.host.identity.map fun key => hex (key.sign nonce))
      = some (hex (key.sign nonce)) := by
    rw [h.identity]
    rfl
  have hauth : authOk crypto cfg x (some (hex (key.sign nonce))) (st.mine nonce cfg.identityPowBits)
      = true := by
    unfold authOk
    rw [hkey, hnonce]
    show (verifyPow _ _ _ _ && (verifyNonce crypto (hex key.verifyingKey) nonce _).isOk) = true
    rw [h.mined, verifyNonce, h.signs.verifyHex]
    rfl
  have hevent :
    s.onEvent crypto cfg host now (eventOf conn (st.nonceSignature nonce cfg.identityPowBits)) =
      some (s.onNonceSig crypto cfg conn (st.host.identity.map fun key => hex (key.sign nonce))
        (st.mine nonce cfg.identityPowBits)) := rfl
  rw [Serve.onNonceSig, hx, hsig] at hevent
  dsimp only at hevent
  rw [if_pos hauth] at hevent
  refine comes_of_event hevent (comes_of_lookup (AList.lookup_insert _) ?_)
  rw [toConn_send]
  show Course _ _ _ _ _ _ (toConn conn s.sent ++ _)
  refine ⟨.admitted hid hkey rfl, ?_, hnext.trans (st.client.sent_mono (List.prefix_append _ _)),
    ?_⟩
  · rw [hsaid, List.countP_append, List.countP_cons, countP_unasked hlate]
    rfl
  · rw [Reactor.state_concat]
    have haccount := client_account st (toConn conn s.sent)
    generalize hstate : st.client.state (toConn conn s.sent) = phase at hfate haccount
    generalize st.client.sent (toConn conn s.sent) = sent at haccount
    cases phase with
    | nonce =>
      rw [hsaid] at haccount
      cases haccount with
      | refused _ hended => cases hended
      | ended _ _ hended => cases hended
    | idle store => exact .idle store
    | fetching descriptor hints id rest store => exact fate_interrupted hstate rfl
    | _ => exact fate_ended hfate rfl _

/-- A blob id that reads can be logged. -/
theorem sliceable_of_contentId {idHex : String} {id : ContentId}
    (h : ContentId.fromHex idHex = some (.ok id)) :
    sliceable idHex (min 12 (utf8 idHex).length) = true := by
  unfold ContentId.fromHex at h
  dsimp only at h
  split at h
  · cases h
  next hlen =>
    have hlen : (utf8 idHex).length = 64 := not_not.mp hlen
    split at h
    · cases h
    · cases h
    next bs hloop =>
      have hnone :
        ¬radixLoop (fun _ => "content id: bad hex: invalid digit found in string") (utf8 idHex) 32 0
          = none := by rw [hloop]; exact Option.some_ne_none _
      have hreads := (radixLoop_isOk_iff _ (utf8 idHex) 32 0 hnone).mp ⟨bs, hloop⟩
      rw [radixLoop_eq_none_iff _ (utf8 idHex) 32 0 rfl] at hnone
      rw [hlen]
      by_contra hcut
      exact hnone ⟨5, by decide, fun j hj => hreads j (by omega), Bool.eq_false_iff.mpr hcut⟩

/-- Who is asked for a blob is asked by a session that waits for it, or that is over. -/
theorem fate_reply {blake3 : List U8 → Hash} (hhash : st.host.blake3 = blake3) {phase : WorkerPhase}
    {sent : List ClientToServer} (haccount : Account st said phase sent)
    (hfate : Fate st said phase) {idHex : String} {id : ContentId}
    (hid : ContentId.fromHex idHex = some (.ok id)) (hnext : heard ++ [.blobRequest idHex] <+: sent)
    (hreplied : said.countP isBlob = heard.countP isRequest) (files : Store) :
    Fate st (said ++ [.blob ((files.get blake3 id).map hex)])
      (st.react phase (.blob ((files.get blake3 id).map hex))).1 := by
  have hends : phase.ended = true → Fate st (said ++ [.blob ((files.get blake3 id).map hex)])
      (st.react phase (.blob ((files.get blake3 id).map hex))).1 := by
    intro hended
    rw [react_ended hended]
    exact fate_ended hfate hended _
  -- one request more was heard than there are blobs
  have hcount : ∀ works : List ClientToServer, heard ++ [.blobRequest idHex] <+: works →
      said.countP isBlob + 1 ≤ works.countP isRequest := by
    intro works hworks
    have hle : List.countP isRequest _ ≤ List.countP isRequest works := hworks.sublist.countP_le
    rw [List.countP_append] at hle
    rw [hreplied]
    exact hle
  cases haccount with
  | greets => exact absurd (hcount _ hnext) (Nat.not_succ_le_zero 0)
  | @idle text powBits nonce said works store hnonce hworks hbooks =>
    have hle := hcount _ hnext
    rw [List.countP_cons_of_neg Bool.false_ne_true, List.countP_cons_of_neg Bool.false_ne_true,
      List.countP_cons_of_neg Bool.false_ne_true, hbooks] at hle
    omega
  | @fetching text powBits nonce said works idHex' id' descriptor hints rest store hnonce hworks
    hbooks hid' =>
    have hlast : heard ++ [.blobRequest idHex]
      = st.hello :: st.nonceSignature nonce powBits :: works
        ++ [.blobRequest idHex'] := by
      refine (List.prefix_concat_iff.mp hnext).resolve_right fun hshort => ?_
      have hle := hcount _ hshort
      rw [List.countP_cons_of_neg Bool.false_ne_true, List.countP_cons_of_neg Bool.false_ne_true,
        List.countP_cons_of_neg Bool.false_ne_true, hbooks] at hle
      omega
    obtain rfl : idHex = idHex' := by
      have hsame := List.append_inj_right' hlast rfl
      cases hsame
      rfl
    obtain rfl : id = id' := Except.ok.inj (Option.some.inj (hid.symm.trans hid'))
    exact fate_blob hhash
  | refused _ hended => exact hends hended
  | ended _ _ hended => exact hends hended

theorem answer_blobRequest (h : Admissible crypto cfg st key)
    (hcourse : Course st key cfg.identityPowBits conn x heard (toConn conn s.sent))
    (hx : s.conns.lookup conn = some x) {idHex : String} {id : ContentId}
    (hid : ContentId.fromHex idHex = some (.ok id))
    (hnext : heard ++ [.blobRequest idHex] <+: st.client.sent (toConn conn s.sent))
    (hrecord : ∀ said,
      Record st key cfg.identityPowBits conn x (heard ++ [.blobRequest idHex]) said) :
    Comes st key cfg.identityPowBits conn (heard ++ [.blobRequest idHex])
      (s.handle crypto cfg host now (eventOf conn (.blobRequest idHex))) := by
  have hevent : s.onEvent crypto cfg host now (eventOf conn (.blobRequest idHex)) = some
      (s.send conn (.blob ((s.store.get crypto.blake3 id).map hex))) := by
    show s.onBlobRequest crypto conn idHex = _
    rw [Serve.onBlobRequest, hx]
    dsimp only
    rw [hid]
    dsimp only
    rw [if_pos (sliceable_of_contentId hid)]
  refine comes_of_event hevent (comes_of_lookup (x := x) hx ?_)
  rw [toConn_send]
  refine ⟨hrecord _, ?_, hnext.trans (st.client.sent_mono (List.prefix_append _ _)), ?_⟩
  · rw [List.countP_append, List.countP_append, hcourse.replied]
    rfl
  · rw [Reactor.state_concat]
    exact fate_reply h.hash (client_account st _) hcourse.fate hid hnext hcourse.replied s.store

/-- The handlers of results and claims neither write to the connections nor answer. -/
theorem onResult_frame (conn : Nat) (r : WorkerResult) :
    Returns (fun s' => s'.conns = s.conns ∧ s'.sent = s.sent) (s.onResult crypto cfg conn r) := by
  unfold Serve.onResult
  split
  · exact returns_some ⟨rfl, rfl⟩
  · refine returns_guard ⟨rfl, rfl⟩ fun _ => ?_
    refine returns_guard ⟨rfl, rfl⟩ fun _ => ?_
    refine returns_guard ⟨rfl, rfl⟩ fun _ => ?_
    split
    · exact returns_some ⟨rfl, rfl⟩
    · unfold Serve.countResult
      split
      · exact returns_some ⟨rfl, rfl⟩
      · refine returns_guard ⟨rfl, rfl⟩ fun _ => ?_
        refine returns_guard ⟨rfl, rfl⟩ fun _ => ?_
        refine returns_guard ⟨rfl, rfl⟩ fun _ => ?_
        split
        · exact returns_some ⟨rfl, rfl⟩
        · exact returns_none

theorem onReceiptClaim_frame (receipt : Except String ReceiptOutcome)
    (conn : Nat) (workerId jobId pubkeyHex sigHex receiptHex : String) :
    Returns (fun s' => s'.conns = s.conns ∧ s'.sent = s.sent)
      (s.onReceiptClaim crypto cfg receipt conn workerId jobId pubkeyHex sigHex receiptHex) := by
  refine receiptClaim_cases
    (P := fun _ f => Returns (fun s' => s'.conns = s.conns ∧ s'.sent = s.sent) (f receipt))
    (returns_some ⟨rfl, rfl⟩) (fun job bytes _ => returns_some ⟨rfl, rfl⟩) ?_
  intro job bytes binding _ _ s' h
  obtain ⟨job', rfl, -⟩ := answered_some h
  exact ⟨rfl, rfl⟩

theorem handle_frame {e : Event}
    (h : Returns (fun s' => s'.conns = s.conns ∧
      s'.sent = s.sent) (s.onEvent crypto cfg host now e)) :
    (s.handle crypto cfg host now e).conns = s.conns ∧
    (s.handle crypto cfg host now e).sent = s.sent := by
  unfold Serve.handle
  split
  · exact ⟨rfl, rfl⟩
  next s' hs' => exact h s' hs'

/-- A message that is not answered. -/
theorem answer_quiet (hcourse : Course st key powBits conn x heard (toConn conn s.sent))
    (hx : s.conns.lookup conn = some x) {m : ClientToServer} (hm : isRequest m = false)
    (hframe :
      Returns (fun s' => s'.conns = s.conns ∧
        s'.sent = s.sent) (s.onEvent crypto cfg host now (eventOf conn m)))
    (hnext : heard ++ [m] <+: st.client.sent (toConn conn s.sent))
    (hrecord : ∀ said, Record st key powBits conn x (heard ++ [m]) said) :
    Comes st key powBits conn (heard ++ [m]) (s.handle crypto cfg host now (eventOf conn m)) := by
  obtain ⟨hconns, hsent⟩ := handle_frame hframe
  refine comes_of_lookup (x := x) (by rw [hconns, hx]) ?_
  rw [hsent]
  refine ⟨hrecord _, ?_, hnext, hcourse.fate⟩
  rw [List.countP_append, List.countP_singleton, hm, hcourse.replied]
  rfl

theorem course_answers (h : Admissible crypto cfg st key) {m : ClientToServer}
    (hx : s.conns.lookup conn = some x)
    (hcourse : Course st key cfg.identityPowBits conn x heard (toConn conn s.sent))
    (hnext : heard ++ [m] <+: st.client.sent (toConn conn s.sent)) :
    Comes st key cfg.identityPowBits conn (heard ++ [m])
      (s.handle crypto cfg host now (eventOf conn m)) := by
  have hrecord := hcourse.record
  generalize hsaid : toConn conn s.sent = said at hrecord
  cases hrecord with
  | greeting peerIp hunasked =>
    have hfirst : [st.hello] <+: st.client.sent (toConn conn s.sent) :=
      (List.prefix_append [st.hello] _).trans (st.client.sent_mono List.nil_prefix)
    obtain rfl : m = st.hello := by
      have hsame := List.prefix_of_prefix_length_le hnext hfirst (Nat.le_refl 1)
      exact (List.cons_prefix_cons.mp hsame).1
    exact answer_hello h hx (hsaid ▸ hunasked) hcourse.fate
  | @challenged _ nonce early late hid hkey hnonce hearly hlate =>
    have hnext' := hnext
    rw [hsaid] at hnext'
    obtain ⟨rfl, rfl⟩ := challenged_next hearly hnext'
    exact answer_nonceSignature h hx hid hkey hnonce hsaid hlate hnext hcourse.fate
  | @admitted _ nonce works _ hid hkey hauthed =>
    have hrecord : ∀ said, Record st key cfg.identityPowBits conn x
        (st.hello :: st.nonceSignature nonce cfg.identityPowBits :: works ++ [m]) said :=
      fun _ => .admitted hid hkey hauthed
    have hworks : st.Works m := by
      rcases account_heads (client_account st (toConn conn s.sent)) with
        hsent | ⟨text, powBits', nonce', said', works', -, -, hsent, hworks⟩
      · rw [hsent] at hnext
        exact absurd hnext.length_le (by simp)
      · rw [hsent] at hnext
        obtain ⟨-, hnext⟩ := List.cons_prefix_cons.mp hnext
        obtain ⟨-, hnext⟩ := List.cons_prefix_cons.mp hnext
        exact hworks m (hnext.subset (List.mem_append_right _ (List.mem_singleton_self m)))
    cases m with
    | jobResult r => exact answer_quiet hcourse hx rfl (onResult_frame conn r) hnext hrecord
    | receiptClaim workerId jobId pubkeyHex sigHex receiptHex =>
      exact answer_quiet hcourse hx rfl (onReceiptClaim_frame _ _ _ _ _ _ _) hnext hrecord
    | blobRequest idHex =>
      obtain ⟨id, hid⟩ := hworks
      exact answer_blobRequest h hcourse hx hid hnext hrecord
    | _ => cases hworks

theorem daemon_conversation (h : Admissible crypto cfg st key) (conn : Nat) :
    Conversation crypto cfg st.client conn (fun _ => True)
      fun x _ heard said => Course st key cfg.identityPowBits conn x heard said where
  opens peerIp _ := course_opens st key cfg.identityPowBits conn peerIp
  waits hcourse hnew _ := course_waits hcourse hnew
  answers _ hx hcourse hnext _ := course_answers h hx hcourse hnext

end

/-! ## Who submits nothing hears of no outcome -/

structure Unsubscribed (conn : Nat) (books : Books) : Prop where
  slot : ∀ slot, books.slot = some slot → conn ∉ slot.subscribers
  subs : ∀ jobId subs, books.submitterSubs.lookup jobId = some subs → conn ∉ subs
  proving : ∀ job ∈ books.proving, conn ∉ job.subscribers
  sent : ∀ m, (conn, m) ∈ books.sent → tellsOutcome m = false

/-- The connection submits a job. -/
def Act.submits (conn : Nat) : Act → Bool
  | .event (.jobSubmission c _ _ _ _ _) _ _ => c = conn
  | _ => false

section

variable {crypto : Crypto} {cfg : ServeConfig} {conn : Nat} {s : Serve} {a : Act}

theorem tellsOutcome_of_answers {m : ServerToClient} (h : answers m = false) :
    tellsOutcome m = false := by
  cases m <;> first | rfl | cases h

/-- A decision is told to its subscribers. -/
theorem unsubscribed_announced (h : Unsubscribed conn s.books) {job : PendingJob}
    (hjob : conn ∉ job.subscribers) (decision : Decision) :
    ∀ m, (conn, m) ∈ (s.announced job decision).sent → tellsOutcome m = false := by
  intro m hm
  rcases List.mem_append.mp hm with hm | hm
  · rcases List.mem_append.mp hm with hm | hm
    · exact h.sent m hm
    · unfold Serve.notices at hm
      split at hm
      · obtain ⟨c, hc, heq⟩ := List.mem_map.mp hm
        cases heq
        exact absurd (List.mem_filter.mp hc).1 hjob
      · cases hm
  · obtain ⟨c, -, heq⟩ := List.mem_map.mp hm
    cases heq
    rfl

theorem unsubscribed_step (h : Unsubscribed conn s.books) (ha : Act.submits conn a = false) :
    Unsubscribed conn (step crypto cfg s a).books := by
  have hdeals := step_deals crypto cfg s a
  generalize (step crypto cfg s a).books = books at hdeals
  cases hdeals with
  | quiet msgs hmsgs =>
    refine ⟨h.slot, h.subs, h.proving, fun m hm => ?_⟩
    rcases List.mem_append.mp hm with hm | hm
    · exact h.sent m hm
    · exact tellsOutcome_of_answers (hmsgs _ hm)
  | @take descriptor targets path now hpc hnone =>
    refine ⟨?_, fun jobId subs hsubs => ?_, h.proving, h.sent⟩
    · rintro slot ⟨⟩
      cases hsubs : s.submitterSubs.lookup descriptor.jobId with
      | none => exact List.not_mem_nil
      | some subs => exact h.subs _ subs hsubs
    · by_cases hid : jobId = descriptor.jobId
      · rw [hid, AList.lookup_erase] at hsubs
        cases hsubs
      · rw [AList.lookup_erase_ne hid] at hsubs
        exact h.subs jobId subs hsubs
  | @file c submitter pubkeyHex sigHex descriptor host now hpc hopen hlanded =>
    have hne : conn ≠ c := fun heq => of_decide_eq_false ha heq.symm
    refine ⟨?_, fun jobId subs hsubs => ?_, h.proving, fun m hm => ?_⟩
    · intro slot' hslot'
      obtain ⟨slot, hslot, rfl⟩ := Option.map_eq_some_iff.mp hslot'
      unfold Slot.subscribe
      split
      · exact fun hmem => (List.mem_append.mp hmem).elim (h.slot slot hslot) fun hmem =>
          hne (List.mem_singleton.mp hmem)
      · exact h.slot slot hslot
    · by_cases hid : jobId = descriptor.jobId
      · rw [hid, AList.lookup_insert] at hsubs
        cases hsubs
        refine fun hmem => (List.mem_append.mp hmem).elim ?_ fun hmem =>
          hne (List.mem_singleton.mp hmem)
        cases hold : s.submitterSubs.lookup descriptor.jobId with
        | none => exact List.not_mem_nil
        | some subs => exact h.subs _ subs hold
      · rw [AList.lookup_insert_ne hid] at hsubs
        exact h.subs jobId subs hsubs
    · rcases List.mem_append.mp hm with hm | hm
      · exact h.sent m hm
      · exact absurd (congrArg Prod.fst (List.mem_singleton.mp hm)) hne
  | @prove c submitter pubkeyHex sigHex descriptor host now hopen =>
    have hne : conn ≠ c := fun heq => of_decide_eq_false ha heq.symm
    refine ⟨h.slot, h.subs, fun job hjob => ?_, fun m hm => ?_⟩
    · rcases List.mem_append.mp hjob with hjob | hjob
      · exact h.proving job hjob
      · rw [List.mem_singleton.mp hjob]
        exact fun hmem => hne (List.mem_singleton.mp hmem)
    · rcases List.mem_append.mp hm with hm | hm
      · exact h.sent m hm
      · exact absurd (congrArg Prod.fst (List.mem_singleton.mp hm)) hne
  | @finish job now zk replay hpc hjob hdone =>
    refine ⟨(fun _ hslot => by cases hslot), h.subs, h.proving, ?_⟩
    exact unsubscribed_announced h (h.slot job.slot (congrArg (Option.map PendingJob.slot) hjob)) _
  | @proved job rest decision host now hpc hproving =>
    have hmem : ∀ job' ∈ job :: rest, conn ∉ job'.subscribers := hproving ▸ h.proving
    exact ⟨h.slot, h.subs, fun job' hjob' => hmem job' (List.mem_cons_of_mem _ hjob'),
      unsubscribed_announced h (hmem job List.mem_cons_self) _⟩

end

/-! ## In any run of the coordinator -/

section

variable {crypto : Crypto} {cfg : ServeConfig} {st : Station} {key : Identity} {s : Serve}
  {conn powBits : Nat}
  {x : Conn} {heard : List ClientToServer} {said : List ServerToClient} {r : WorkerResult}

/-- A result comes from a session that is logged in, and it is a report of some job. -/
theorem course_result (hcourse : Course st key powBits conn x heard said)
    (hnext : heard ++ [.jobResult r] <+: st.client.sent said) :
    x.workerId = st.cfg.workerId ∧ x.pubkey = some (hex key.verifyingKey) ∧ x.authed = true ∧
      ∃ descriptor store, assignmentResult st.cfg.toDaemonConfig st.host descriptor store
        = some (some r) := by
  rcases account_heads (client_account st said) with
    hsent | ⟨text, powBits', nonce', said', works', hsaid, -, hsent, hworks⟩
  · rw [hsent] at hnext
    cases hcourse.record with
    | greeting => cases (List.cons_prefix_cons.mp hnext).1
    | challenged => exact absurd hnext.length_le (by simp)
    | admitted => exact absurd hnext.length_le (by simp)
  · rw [hsent] at hnext
    cases hcourse.record with
    | greeting => cases (List.cons_prefix_cons.mp hnext).1
    | challenged => cases (List.cons_prefix_cons.mp (List.cons_prefix_cons.mp hnext).2).1
    | admitted hid hkey hauthed =>
      have hrest := (List.cons_prefix_cons.mp (List.cons_prefix_cons.mp hnext).2).2
      have hmem := hrest.subset (List.mem_append_right _ (List.mem_singleton_self _))
      exact ⟨hid, hkey, hauthed, hworks _ hmem⟩

/-- Past the checks on its connection a result counts if it is the first of its worker
for the pending job, and the job was sent there. -/
theorem counted_iff {job : PendingJob} (hlive : s.conns.lookup conn = some x)
    (hauthed : x.authed = true) (hid : r.workerId = x.workerId)
    (hkey : Serve.keyMatches cfg x r = true) (hsigned : verifySignature crypto r = .ok ())
    (hslice : sliceable r.resultHash 12 = true) (hjob : s.pending = some job) :
    EntersVote job r (s.onResult crypto cfg conn r) ↔ r.jobId = job.descriptor.jobId ∧
      x.workerId ∈ job.dispatchedIds ∧ ∀ r' ∈ job.results, r'.workerId ≠ x.workerId := by
  have hsame : ¬EntersVote job r (some s) := by
    rintro ⟨s', job', hs', hjob', hresults⟩
    cases hs'
    obtain rfl := Option.some.inj (hjob.symm.trans hjob')
    exact absurd hresults (by simp)
  have honResult : s.onResult crypto cfg conn r = s.countResult conn x.workerId r := by
    rw [Serve.onResult, hlive]
    simp only [hauthed, hid, hkey, hsigned, Bool.not_true, Bool.false_eq_true, if_false, ne_eq,
      not_true_eq_false]
  rw [honResult, Serve.countResult, hjob]
  dsimp only
  split
  next hother => exact iff_of_false hsame fun h => hother h.1
  next hown =>
    split
    next hstranger => exact iff_of_false hsame fun h => hstranger h.2.1
    next hsent =>
      split
      next hagain =>
        refine iff_of_false hsame fun h => ?_
        obtain ⟨r', hr', heq⟩ := List.any_eq_true.mp hagain
        exact h.2.2 r' hr' (of_decide_eq_true heq)
      next hfirst =>
        refine iff_of_true ⟨_, _, rfl, rfl, rfl⟩ ⟨not_not.mp hown, not_not.mp hsent,
          fun r' hr' heq => hfirst ?_⟩
        exact List.any_eq_true.mpr ⟨r', hr', decide_eq_true heq⟩

/-- The daemon's report passes the checks. -/
theorem report_counted_iff (h : Admissible crypto cfg st key) {job : PendingJob}
    (hlive : s.conns.lookup conn = some x) (hid : x.workerId = st.cfg.workerId)
    (hkey : x.pubkey = some (hex key.verifyingKey)) (hauthed : x.authed = true)
    {descriptor : JobDescriptor} {store : Store}
    (hr : assignmentResult st.cfg.toDaemonConfig st.host descriptor store = some (some r))
    (hjob : s.pending = some job) :
    EntersVote job r (s.onResult crypto cfg conn r) ↔ r.jobId = job.descriptor.jobId ∧
      st.cfg.workerId ∈ job.dispatchedIds ∧ ∀ r' ∈ job.results, r'.workerId ≠ st.cfg.workerId := by
  obtain ⟨manifest, r₀, -, hreports, hsigned⟩ := assignmentResult_some hr
  rw [h.identity] at hsigned
  have hmatches : Serve.keyMatches cfg x r = true := by
    rw [hsigned, Serve.keyMatches, hkey]
    exact decide_eq_true rfl
  have hslice : sliceable r.resultHash 12 = true := by
    obtain ⟨digest, hdigest⟩ := hreports.digest
    rw [hdigest, sliceable, utf8_hex]
    refine charBoundary_hexCodes ?_
    rw [length_hexCodes, List.length_ofFn]
    decide
  rw [← hid]
  refine counted_iff hlive hauthed (hreports.workerId.trans hid.symm) hmatches ?_ hslice hjob
  rw [hsigned]
  exact verifySignature_signed h.signs r₀

/-- No message of a daemon is a submission. -/
theorem not_submission (st : Station) (said : List ServerToClient) (submitter : String)
    (descriptor : JobDescriptor) (pubkeyHex sigHex : String) (requireZk : Bool) :
    .jobSubmission submitter descriptor pubkeyHex sigHex requireZk ∉ st.client.sent said := by
  intro hmem
  rcases account_heads (client_account st said) with hsent | ⟨_, _, _, _, works, -, -, hsent,
    hworks⟩
  · rw [hsent] at hmem
    cases List.mem_singleton.mp hmem
  · rw [hsent] at hmem
    rcases List.mem_cons.mp hmem with heq | hmem
    · cases heq
    · rcases List.mem_cons.mp hmem with heq | hmem
      · cases heq
      · exact hworks _ hmem

theorem net_unsubscribed {nextConn : Nat} {store : Store} {acts : List NetAct}
    (hspeaks :
      EachStep (netStep crypto cfg) (fun _ => Speaks st.client conn) (.init nextConn store) acts) :
    Unsubscribed conn
      (stateAfter (netStep crypto cfg) (.init nextConn store) acts).serve.books := by
  have hconds : EachStep (netStep crypto cfg) (fun _ net _ => NetInv net ∧
      (net.sessions conn).read <+: st.client.sent (net.sessions conn).written)
        (.init nextConn store) acts :=
    fun pre a hpre => net_spoken hspeaks pre ((List.prefix_append pre [a]).trans hpre)
  have hinit : Unsubscribed conn (Net.init nextConn store).serve.books :=
    ⟨(fun _ h => by cases h), (fun _ _ h => by cases h), List.forall_mem_nil _,
      (fun _ h => by cases h)⟩
  have hall : Always (netStep crypto cfg) (fun _ net => Unsubscribed conn net.serve.books)
      (.init nextConn store) acts := by
    refine always_of_step hinit ?_ hconds
    rintro h net b hbooks ⟨hinv, hspoken⟩
    cases netStep_loop crypto cfg net b with
    | kept hserve => rwa [hserve]
    | quiet act hbrings _ hserve =>
      rw [hserve]
      refine unsubscribed_step hbooks ?_
      cases act with
      | event e host now => cases hbrings
      | _ => rfl
    | took e host now rest _ hpc hchannel hserve =>
      rw [hserve]
      refine unsubscribed_step hbooks ?_
      cases e with
      | jobSubmission c submitter descriptor pubkeyHex sigHex requireZk =>
        refine decide_eq_false fun heq => ?_
        subst heq
        have hnext := spoken_next hinv hspoken
          (m := .jobSubmission submitter descriptor pubkeyHex sigHex requireZk) hchannel
        obtain ⟨m, hm, heq⟩ :=
          List.mem_map.mp (hnext.subset (List.mem_append_right _ (List.mem_singleton_self _)))
        rw [eventOf_injective _ heq] at hm
        exact not_submission _ _ _ _ _ _ _ hm
      | _ => rfl
  exact hall acts List.prefix_rfl

end

/-- **A daemon among all the others.** Whatever the other clients, the threads and the
loop do, and as long as its connection is open: a daemon's session is in one of the
phases of `Fate`, no outcome is told to it, and a result of it that comes to the loop
is counted exactly if it is of the pending job, the job was dispatched to the daemon's
id and no result under this id has been counted. -/
theorem daemon_understood (crypto : Crypto) (cfg : ServeConfig) (st : Station) (key : Identity)
    (hadmissible : Admissible crypto cfg st key) (nextConn conn : Nat) (store : Store)
    (acts : List NetAct)
    (hspeaks :
      EachStep (netStep crypto cfg) (fun _ => Speaks st.client conn) (.init nextConn store) acts)
    (hopen : conn ∈ (stateAfter (netStep crypto cfg) (.init nextConn store) acts).serve.conns) :
    let net := stateAfter (netStep crypto cfg) (.init nextConn store) acts
    let said := toConn conn net.serve.sent
    Fate st said (st.client.state said) ∧ (∀ m ∈ said, tellsOutcome m = false) ∧
      ∀ r rest job, net.channel = eventOf conn (.jobResult r) :: rest →
        net.serve.pending = some job →
        (EntersVote job r (net.serve.onResult crypto cfg conn r) ↔
          r.jobId = job.descriptor.jobId ∧ st.cfg.workerId ∈ job.dispatchedIds ∧
          ∀ r' ∈ job.results, r'.workerId ≠ st.cfg.workerId) := by
  have hhost : EachStep (netStep crypto cfg) (fun _ => HostGood (fun _ => True) conn)
      (.init nextConn store) acts :=
    fun _ _ _ _ _ _ _ _ _ _ => trivial
  obtain ⟨x, heard, hx, hheard, hcourse⟩ :=
    net_conversation (daemon_conversation hadmissible conn) hspeaks hhost
      (.inr fun _ _ _ _ _ h => h) hopen
  refine ⟨hcourse.fate, fun m hm => ?_, fun r rest job hchannel hjob => ?_⟩
  · obtain ⟨⟨c, m⟩, hfiltered, rfl⟩ := List.mem_map.mp hm
    obtain ⟨hsent, hc⟩ := List.mem_filter.mp hfiltered
    obtain rfl : c = conn := of_decide_eq_true hc
    exact (net_unsubscribed hspeaks).sent m hsent
  · obtain ⟨hinv, hspoken⟩ := net_spoken hspeaks acts List.prefix_rfl
    have hnext := spoken_next hinv hspoken hchannel
    rw [hheard, ← List.map_singleton, ← List.map_append] at hnext
    have hnext := (List.prefix_map_iff_of_injective (eventOf_injective conn)).mp hnext
    obtain ⟨hid, hkey, hauthed, descriptor, store', hr⟩ := course_result hcourse hnext
    exact report_counted_iff hadmissible hx hid hkey hauthed hr hjob

/-- `wA`, with the blobs of `c.ebreak` at hand. -/
def ebreakStation : Station :=
  { cfg := { plainDaemon with extraSubmits := 0, receiptFile := false }
    host := toyWorker
    listenPort := none
    store := blobsByLength
    peers := fun _ _ _ => .unreachable
    stored := fun _ => true
    receipt := none
    mine := fun _ _ => 0 }

theorem ebreakStation_admissible :
    Admissible receiptCrypto renamingConfig ebreakStation keyOne where
  identity := rfl
  signs := keyOne_signs
  mined _ := by
    rw [verifyPow]
    exact decide_eq_true (Nat.zero_le _)
  named := by decide
  hash := rfl

/-- It logs in, is sent the job and answers. -/
def ebreakRun : List NetAct :=
  [.accept "10.0.0.1", .handshake 1 true]
    ++ [ebreakStation.hello, ebreakStation.nonceSignature (List.replicate 32 5) 0].flatMap
      (exchange 1)
    ++ [.loop (.scan
        (.ok (some (describedAs "job-1", none, "jobs/job-1.desc.json.dispatching"))) 0),
      .loop (.choose fun _ => 0), .loop .hold, .loop (.assign 0), .loop (.complete 0 none none),
      .take quietHost 0, .receive 1 (.ok none), .pump 1 true, .pump 1 true,
      .receive 1 (.ok (some (.jobResult ebreakAnswer)))]

/-- What has come of it: the connection, the channel and the job. -/
def ebreakAsked : Bool × List Event × Option (String × List String × List WorkerResult) :=
  let net := stateAfter (netStep receiptCrypto renamingConfig) (.init 1 blobsByLength) ebreakRun
  (decide (1 ∈ net.serve.conns), net.channel,
    net.serve.pending.map fun job => (job.descriptor.jobId, job.dispatchedIds, job.results))

theorem ebreakAsked_eq :
    ebreakAsked = (true, [.result 1 ebreakAnswer], some ("job-1", ["wA"], [])) := by
  decide +kernel

theorem daemon_understood_ebreak :
    let net := stateAfter (netStep receiptCrypto renamingConfig) (.init 1 blobsByLength) ebreakRun
    Fate ebreakStation (toConn 1 net.serve.sent)
      (ebreakStation.client.state (toConn 1 net.serve.sent)) ∧
      ∃ job, net.serve.pending = some job ∧
        EntersVote job ebreakAnswer
          (net.serve.onResult receiptCrypto renamingConfig 1 ebreakAnswer) := by
  have hasked := ebreakAsked_eq
  simp only [ebreakAsked, Prod.mk.injEq, decide_eq_true_eq] at hasked
  obtain ⟨hopen, hchannel, hpending⟩ := hasked
  obtain ⟨job, hjob, hsent⟩ := Option.map_eq_some_iff.mp hpending
  simp only [Prod.mk.injEq] at hsent
  have htest :
    checkRun (netStep receiptCrypto renamingConfig) (fun _ => speaks ebreakStation.client 1) []
      (.init 1 blobsByLength) ebreakRun = true := by decide +kernel
  obtain ⟨hfate, -, hcounted⟩ := daemon_understood receiptCrypto renamingConfig ebreakStation keyOne
    ebreakStation_admissible 1 1 blobsByLength ebreakRun
    (fun pre a hpre => speaks_of_test (eachStep_of_checkRun _ htest pre a hpre)) hopen
  refine ⟨hfate, job, hjob, (hcounted ebreakAnswer [] job hchannel hjob).mpr ⟨hsent.1.symm, ?_, ?_⟩⟩
  · rw [hsent.2.1]
    exact List.mem_singleton_self _
  · rw [hsent.2.2]
    exact List.forall_mem_nil _

end Provework.Worker
