import Provework.Coordinator.Deals

/-!
# What a connection notices of the others

A client talks to the loop over its own connection, while the loop serves all the
others. `step_apart` says what a step that is none of the connection's own does to
it: its record stays, no blob goes away, and it is sent nothing but the messages that
nobody asks for (`unasked`), such as the end of a job. A protocol between one client
and the coordinator can then be followed message by message in any interleaving.

`Moves` lists the changes of the whole state; here the table of connections and the
blob store are followed for one connection.
-/

namespace Provework.Coordinator

open Provework.Lib Provework.Jobfmt Provework.Contentstore Provework.Wire

/-! ## Whose step it is -/

/-- Whose event it is. -/
def Event.conn : Event → Option Nat
  | .hello conn _ _ _ _ => some conn
  | .nonceSig conn _ _ => some conn
  | .jobSubmission conn _ _ _ _ _ => some conn
  | .blobUpload conn _ _ => some conn
  | .receiptClaim conn _ _ _ _ _ => some conn
  | .blobRequest conn _ => some conn
  | .result conn _ => some conn
  | .closed conn => some conn
  | .proved _ => none

/-- The act is one of the connection, or of its thread. -/
def Act.concerns (conn : Nat) : Act → Bool
  | .event e _ _ => e.conn = some conn
  | .thread (.hangUp c) => c = conn
  | _ => false

/-- The act leaves the files of the store alone. -/
def Act.offDisk : Act → Bool
  | .thread (.disk _ _) => false
  | _ => true

/-- Messages that are no answer. -/
def unasked : ServerToClient → Bool
  | .jobAssignment _ _ => true
  | .betweenJobs => true
  | .shutDown _ => true
  | .jobOutcome _ _ _ _ _ _ => true
  | _ => false

/-- What was sent to one connection. -/
def toConn (conn : Nat) (sent : List (Nat × ServerToClient)) : List ServerToClient :=
  (sent.filter fun m => m.1 = conn).map Prod.snd

theorem toConn_append (conn : Nat) (l l' : List (Nat × ServerToClient)) :
    toConn conn (l ++ l') = toConn conn l ++ toConn conn l' := by
  rw [toConn, List.filter_append, List.map_append]
  rfl

theorem toConn_mono {conn : Nat} {l l' : List (Nat × ServerToClient)} (h : l <+: l') :
    toConn conn l <+: toConn conn l' := by
  obtain ⟨more, rfl⟩ := h
  rw [toConn_append]
  exact List.prefix_append _ _

/-! ## The table and the store, through the sends -/

namespace Serve

variable (s : Serve) (conn : Nat) (msg : ServerToClient)

theorem notify_shares (subscribers : List Nat) :
    (subscribers.foldl (fun s conn => s.sendTo conn msg) s).conns = s.conns ∧
      (subscribers.foldl (fun s conn => s.sendTo conn msg) s).store = s.store ∧
      (subscribers.foldl (fun s conn => s.sendTo conn msg) s).nextConn = s.nextConn := by
  rw [notify_eq]
  exact ⟨rfl, rfl, rfl⟩

@[simp] theorem conns_finishDecidedJob (job : PendingJob) (decision : Decision) :
    (s.finishDecidedJob job decision).conns = s.conns := by
  unfold finishDecidedJob
  split
  · exact (s.notify_shares _ _).1
  · rfl

@[simp] theorem store_finishDecidedJob (job : PendingJob) (decision : Decision) :
    (s.finishDecidedJob job decision).store = s.store := by
  unfold finishDecidedJob
  split
  · exact (s.notify_shares _ _).2.1
  · rfl

theorem nextConn_finishDecidedJob (job : PendingJob) (decision : Decision) :
    (s.finishDecidedJob job decision).nextConn = s.nextConn := by
  unfold finishDecidedJob
  split
  · exact (s.notify_shares _ _).2.2
  · rfl

end Serve

/-- A record that is written again. -/
theorem mem_insert_lookup {conns : Conns} {d : Nat} {x x' : Conn} (h : conns.lookup d = some x)
    {conn : Nat} : conn ∈ conns.insert d x' ↔ conn ∈ conns := by
  have hmem : d ∈ conns := AList.lookup_isSome.mp (by rw [h]; rfl)
  rw [AList.mem_insert]
  constructor
  · rintro (rfl | hconn)
    · exact hmem
    · exact hconn
  · exact Or.inr

theorem mem_reorder {conns : Conns} (entries : List ((_ : Nat) × Conn)) {conn : Nat} :
    conn ∈ conns.reorder entries ↔ conn ∈ conns := by
  unfold Conns.reorder
  split
  next hperm => exact (List.Perm.map _ hperm).mem_iff
  next => exact Iff.rfl

/-! ## What is done on behalf of a connection -/

/-- The message goes to an open connection, and is one nobody asks for unless it goes
to `conn`. -/
def Told (conns : Conns) (conn : Option Nat) (m : Nat × ServerToClient) : Prop :=
  m.1 ∈ conns ∧ (some m.1 = conn ∨ unasked m.2 = true)

/-- The acknowledgement of a blob that was stored. -/
def stores : ServerToClient → Bool
  | .blobAck _ accepted _ => accepted
  | _ => false

/-- An upload may be charged, up to the limit. -/
def Conn.Charged (x x' : Conn) : Prop :=
  x'.uploads = x.uploads ∨ x.uploads < maxUploadsPerConn ∧ x'.uploads = x.uploads + 1

/-- Charged and acknowledged, or cut off before. -/
def ToldOrCut (c : Nat) (x : Conn) (idHex : String) (s s' : Serve) : Prop :=
  (s'.conns = s.conns.insert c { x with uploads := x.uploads + 1 } ∧
      s'.sent = s.sent ++ [(c, .blobAck idHex true none)]) ∨
    (s'.conns = s.conns.erase c ∧ s'.sent = s.sent)

/-- A blob was stored for `conn`. -/
def Stored (blake3 : List U8 → Hash) (conn : Option Nat) (s s' : Serve) : Prop :=
  ∃ c x idHex data, conn = some c ∧ s.conns.lookup c = some x ∧ x.authed = true ∧
    x.uploads < maxUploadsPerConn ∧ data.length ≤ maxBlobBytes ∧
    fromHex idHex 32 = .ok (List.ofFn (blake3 data)) ∧ ToldOrCut c x idHex s s' ∧
    s'.store = s.store.put blake3 data

/-- The shared parts of the state after something was done for `conn`: at most its
own record is written or removed, at most one blob is added, and the others are sent
only what nobody asks for. -/
structure Serves (blake3 : List U8 → Hash) (conn : Option Nat) (s s' : Serve) : Prop where
  table : s'.conns = s.conns ∨ (∃ c x x', conn = some c ∧ s.conns.lookup c = some x ∧
    s'.conns = s.conns.insert c x' ∧ x.Charged x') ∨ ∃ c, conn = some c ∧ s'.conns = s.conns.erase c
  said : ∃ msgs, s'.sent = s.sent ++ msgs ∧ ∀ m ∈ msgs, Told s.conns conn m
  next : s'.nextConn = s.nextConn
  store : (s'.store = s.store ∧ s'.sent.filter (stores ·.2) = s.sent.filter (stores ·.2)) ∨
    Stored blake3 conn s s'

/-- The same for a handler that may panic. -/
def ServesIf (blake3 : List U8 → Hash) (conn : Option Nat) (s : Serve) (r : Option Serve) : Prop :=
  ∀ s', r = some s' → Serves blake3 conn s s'

section

variable {blake3 : List U8 → Hash} {crypto : Crypto} {cfg : ServeConfig} {s s' : Serve} {conn : Nat}
  {c : Option Nat}

/-- The shared parts are as they were. -/
theorem serves_of_eq (hconns : s'.conns = s.conns) (hsent : s'.sent = s.sent)
    (hnext : s'.nextConn = s.nextConn) (hstore : s'.store = s.store) : Serves blake3 c s s' :=
  ⟨.inl hconns, ⟨[], by rw [hsent, List.append_nil], List.forall_mem_nil _⟩, hnext,
    .inl ⟨hstore, by rw [hsent]⟩⟩

/-- Something was sent that acknowledges nothing. -/
def Unstored (conns : Conns) (conn : Option Nat) (msgs : List (Nat × ServerToClient)) : Prop :=
  ∀ m ∈ msgs, Told conns conn m ∧ stores m.2 = false

theorem Unstored.acks {conns : Conns} {msgs : List (Nat × ServerToClient)}
    (h : Unstored conns c msgs) (sent : List (Nat × ServerToClient)) :
    (sent ++ msgs).filter (stores ·.2) = sent.filter (stores ·.2) := by
  rw [List.filter_append, List.filter_eq_nil_iff.mpr fun m hm => Bool.eq_false_iff.mp (h m hm).2,
    List.append_nil]

theorem Unstored.append {conns : Conns} {msgs msgs' : List (Nat × ServerToClient)}
    (h : Unstored conns c msgs) (h' : Unstored conns c msgs') : Unstored conns c (msgs ++ msgs') :=
  List.forall_mem_append.mpr ⟨h, h'⟩

/-- Only something was sent. -/
theorem serves_of_sent (msgs : List (Nat × ServerToClient)) (hconns : s'.conns = s.conns)
    (hsent : s'.sent = s.sent ++ msgs) (hnext : s'.nextConn = s.nextConn)
    (hstore : s'.store = s.store) (hmsgs : Unstored s.conns c msgs) : Serves blake3 c s s' :=
  ⟨.inl hconns, ⟨msgs, hsent, fun m hm => (hmsgs m hm).1⟩, hnext,
    .inl ⟨hstore, by rw [hsent, hmsgs.acks]⟩⟩

/-- Nothing else of the two states matters. -/
theorem Serves.congr {s₁ s₁' : Serve} (h : Serves blake3 c s s') (hconns : s₁.conns = s.conns)
    (hsent : s₁.sent = s.sent) (hnext : s₁.nextConn = s.nextConn) (hstore : s₁.store = s.store)
    (hconns' : s₁'.conns = s'.conns) (hsent' : s₁'.sent = s'.sent)
    (hnext' : s₁'.nextConn = s'.nextConn) (hstore' : s₁'.store = s'.store) :
    Serves blake3 c s₁ s₁' where
  table := by
    rw [hconns, hconns']
    exact h.table
  said := by
    rw [hconns, hsent, hsent']
    exact h.said
  next := by
    rw [hnext, hnext']
    exact h.next
  store := by
    unfold Stored ToldOrCut
    rw [hconns, hsent, hstore, hconns', hsent', hstore']
    exact h.store

theorem serves_refl : Serves blake3 c s s := serves_of_eq rfl rfl rfl rfl

/-- The connection was removed. -/
theorem serves_erased (hconns : s'.conns = s.conns.erase conn) (hsent : s'.sent = s.sent)
    (hnext : s'.nextConn = s.nextConn) (hstore : s'.store = s.store) :
    Serves blake3 (some conn) s s' :=
  ⟨.inr (.inr ⟨conn, rfl, hconns⟩), ⟨[], by rw [hsent, List.append_nil], List.forall_mem_nil _⟩,
    hnext, .inl ⟨hstore, by rw [hsent]⟩⟩

theorem serves_sendTo (msg : ServerToClient) (hmsg : stores msg = false) :
    Serves blake3 (some conn) s (s.sendTo conn msg) := by
  by_cases hopen : conn ∈ s.conns
  · rw [Serve.sendTo_of_mem hopen]
    refine serves_of_sent [(conn, msg)] rfl rfl rfl rfl fun m hm => ?_
    rw [List.mem_singleton.mp hm]
    exact ⟨⟨hopen, .inl rfl⟩, hmsg⟩
  · rw [Serve.sendTo, if_neg hopen]
    exact serves_refl

theorem serves_answer (cutOff : Bool) (msg : ServerToClient) (hmsg : stores msg = false) :
    Serves blake3 (some conn) s (s.answer cutOff conn msg) := by
  unfold Serve.answer
  split
  · exact serves_erased rfl rfl rfl rfl
  · exact serves_sendTo msg hmsg

theorem stores_of_unasked {msg : ServerToClient} (h : unasked msg = true) : stores msg = false := by
  cases msg <;> first | rfl | cases h

/-- A message to everybody. -/
theorem unstored_keys {msg : ServerToClient} (hmsg : unasked msg = true) :
    Unstored s.conns c (s.conns.keys.map fun conn => (conn, msg)) := by
  intro m hm
  obtain ⟨k, hk, rfl⟩ := List.mem_map.mp hm
  exact ⟨⟨hk, .inr hmsg⟩, stores_of_unasked hmsg⟩

/-- A decision is told to the subscribers and its end to everybody. -/
theorem serves_announce (job : PendingJob) (decision : Decision) :
    Serves blake3 c s ((s.finishDecidedJob job decision).broadcast .betweenJobs) := by
  have hnotices : ∃ msgs, (s.finishDecidedJob job decision).sent = s.sent ++ msgs ∧
      Unstored s.conns c msgs := by
    unfold Serve.finishDecidedJob
    split
    · refine ⟨_, congrArg Serve.sent (s.notify_eq _ _), fun m hm => ?_⟩
      obtain ⟨k, hk, rfl⟩ := List.mem_map.mp hm
      exact ⟨⟨of_decide_eq_true (List.mem_filter.mp hk).2, .inr rfl⟩, rfl⟩
    · exact ⟨[], (List.append_nil _).symm, List.forall_mem_nil _⟩
  obtain ⟨msgs, hsent, hmsgs⟩ := hnotices
  refine serves_of_sent (msgs ++ s.conns.keys.map fun conn => (conn, .betweenJobs))
    (s.conns_finishDecidedJob job decision) ?_ (s.nextConn_finishDecidedJob job decision)
    (s.store_finishDecidedJob job decision) (hmsgs.append (unstored_keys rfl))
  show (s.finishDecidedJob job decision).sent ++ _ = _
  rw [hsent, s.conns_finishDecidedJob job decision, List.append_assoc]

theorem servesIf_none : ServesIf blake3 c s none := fun _ h => nomatch h

theorem servesIf_some (h : Serves blake3 c s s') : ServesIf blake3 c s (some s') := by
  rintro _ ⟨⟩
  exact h

theorem servesIf_refl : ServesIf blake3 c s (some s) := servesIf_some serves_refl

/-- A check that drops the event. -/
theorem servesIf_guard {p : Prop} [Decidable p] {r : Option Serve} (h : ServesIf blake3 c s r) :
    ServesIf blake3 c s (if p then some s else r) := by
  split
  · exact servesIf_refl
  · exact h

/-! ## One lemma per event -/

/-- An answer to the connection whose record was found. -/
theorem unstored_own {x : Conn} (hx : s.conns.lookup conn = some x) {msg : ServerToClient}
    (hmsg : stores msg = false) : Unstored s.conns (some conn) [(conn, msg)] := by
  intro m hm
  rw [List.mem_singleton.mp hm]
  exact ⟨⟨AList.lookup_isSome.mp (by rw [hx]; rfl), .inl rfl⟩, hmsg⟩

/-- Its record is written and it is answered. -/
theorem serves_written {x : Conn} (hx : s.conns.lookup conn = some x) (x' : Conn)
    (hcharged : x.Charged x') {msg : ServerToClient} (hmsg : stores msg = false)
    (hconns : s'.conns = s.conns.insert conn x') (hsent : s'.sent = s.sent ++ [(conn, msg)])
    (hnext : s'.nextConn = s.nextConn) (hstore : s'.store = s.store) :
    Serves blake3 (some conn) s s' :=
  ⟨.inr (.inl ⟨conn, x, x', rfl, hx, hconns, hcharged⟩),
    ⟨_, hsent, fun m hm => (unstored_own hx hmsg m hm).1⟩, hnext,
    .inl ⟨hstore, by rw [hsent, (unstored_own hx hmsg).acks]⟩⟩

theorem serves_hello (nonce : List U8) (pubkey workerId : String) (port : Option Nat)
    (role : String) :
    Serves blake3 (some conn) s (s.onHello cfg nonce conn pubkey workerId port role) := by
  unfold Serve.onHello
  split
  · exact serves_refl
  next x hx =>
    exact serves_written hx (x.greet nonce pubkey workerId port role) (.inl rfl) rfl rfl rfl rfl rfl

theorem serves_nonceSig (sig : Option String) (powCounter : U64) :
    Serves blake3 (some conn) s (s.onNonceSig crypto cfg conn sig powCounter) := by
  unfold Serve.onNonceSig
  split
  · exact serves_refl
  next x hx =>
    split
    · exact serves_written hx { x with authed := true } (.inl rfl) rfl rfl rfl rfl rfl
    · exact serves_of_sent ([_] ++ [_]) rfl (List.append_assoc _ _ _) rfl rfl
        ((unstored_own hx rfl).append (unstored_own hx rfl))

theorem serves_blobRequest (id : String) :
    ServesIf blake3 (some conn) s (s.onBlobRequest crypto conn id) := by
  unfold Serve.onBlobRequest
  split
  · exact servesIf_refl
  next x hx =>
    split
    · exact servesIf_none
    · split
      · exact servesIf_some (serves_of_sent [_] rfl rfl rfl rfl (unstored_own hx rfl))
      · exact servesIf_none

theorem serves_result (result : WorkerResult) :
    ServesIf blake3 (some conn) s (s.onResult crypto cfg conn result) := by
  unfold Serve.onResult
  split
  · exact servesIf_refl
  · refine servesIf_guard (servesIf_guard (servesIf_guard ?_))
    split
    · exact servesIf_refl
    · unfold Serve.countResult
      split
      · exact servesIf_refl
      · refine servesIf_guard (servesIf_guard (servesIf_guard ?_))
        split
        · exact servesIf_some (serves_of_eq rfl rfl rfl rfl)
        · exact servesIf_none

/-- What becomes of an upload of a connection that may make it. -/
theorem storeUpload_cases {host : Host} {idHex bytesHex : String}
    (h : s.storeUpload crypto host conn idHex bytesHex = some s') :
    (∃ reason, s' = s.answer host.cutOff conn (.blobAck idHex false reason)) ∨
      ∃ data, data.length ≤ maxBlobBytes ∧ fromHex idHex 32 = .ok (List.ofFn (crypto.blake3 data)) ∧
        s' = { s.answer host.cutOff conn (.blobAck idHex true none) with
          store := s.store.put crypto.blake3 data } := by
  unfold Serve.storeUpload at h
  split at h
  · exact .inl ⟨_, (Option.some.inj h).symm⟩
  next hsize =>
    split at h
    · exact .inl ⟨_, (Option.some.inj h).symm⟩
    next bytes hbytes =>
      split at h
      · exact .inl ⟨_, (Option.some.inj h).symm⟩
      next claimed hclaimed =>
        split at h
        · exact .inl ⟨_, (Option.some.inj h).symm⟩
        next hhash =>
          split at h
          · exact .inl ⟨_, (Option.some.inj h).symm⟩
          · split at h
            · refine .inr ⟨bytes, ?_, ?_, (Option.some.inj h).symm⟩
              · have hlen := length_fromHex hbytes
                omega
              · rw [hclaimed, not_not.mp hhash]
            · cases h

/-- The record of a connection that uploads. -/
def Serve.charge (s : Serve) (conn : Nat) (x : Conn) : Serve :=
  { s with conns := s.conns.insert conn { x with uploads := x.uploads + 1 } }

theorem serves_charged {x : Conn} (hx : s.conns.lookup conn = some x) (hauthed : x.authed = true)
    (hquota : x.uploads < maxUploadsPerConn) (host : Host) (idHex bytesHex : String) :
    ServesIf crypto.blake3 (some conn) s
      ((s.charge conn x).storeUpload crypto host conn idHex bytesHex) := by
  have hopen : conn ∈ (s.charge conn x).conns := (AList.mem_insert _).mpr (.inl rfl)
  have hgone : (s.charge conn x).conns.erase conn = s.conns.erase conn := erase_insert ..
  intro s' h
  rcases hcut : host.cutOff with _ | _
  · rcases storeUpload_cases h with ⟨reason, rfl⟩ | ⟨data, hsize, hid, rfl⟩ <;>
      rw [hcut, Serve.answer, if_neg Bool.false_ne_true, Serve.sendTo_of_mem hopen]
    · exact serves_written hx { x with uploads := x.uploads + 1 } (.inr ⟨hquota, rfl⟩) rfl rfl rfl
        rfl rfl
    · refine ⟨.inr (.inl ⟨conn, x, _, rfl, hx, rfl, .inr ⟨hquota, rfl⟩⟩),
        ⟨[_], rfl, fun m hm => ?_⟩, rfl,
        .inr ⟨conn, x, idHex, data, rfl, hx, hauthed, hquota, hsize, hid, .inl ⟨rfl, rfl⟩, rfl⟩⟩
      rw [List.mem_singleton.mp hm]
      exact ⟨AList.lookup_isSome.mp (by rw [hx]; rfl), .inl rfl⟩
  · rcases storeUpload_cases h with ⟨reason, rfl⟩ | ⟨data, hsize, hid, rfl⟩ <;>
      rw [hcut, Serve.answer, if_pos rfl]
    · exact serves_erased hgone rfl rfl rfl
    · exact ⟨.inr (.inr ⟨conn, rfl, hgone⟩), ⟨[], (List.append_nil _).symm, List.forall_mem_nil _⟩,
        rfl,
        .inr ⟨conn, x, idHex, data, rfl, hx, hauthed, hquota, hsize, hid, .inr ⟨hgone, rfl⟩, rfl⟩⟩

theorem serves_blobUpload (host : Host) (idHex bytesHex : String) :
    ServesIf crypto.blake3 (some conn) s (s.handleBlobUpload crypto host conn idHex bytesHex) := by
  unfold Serve.handleBlobUpload
  split
  · exact servesIf_refl
  next x hx =>
    split
    · exact servesIf_refl
    next hauthed =>
      split
      · exact servesIf_some (serves_answer _ _ rfl)
      next hquota =>
        exact serves_charged hx (by simpa using hauthed) (Nat.not_le.mp hquota) host idHex bytesHex

theorem serves_submitProof (taskSent : Bool) (now : Nat) (descriptor : JobDescriptor) :
    Serves blake3 (some conn) s (s.submitProof cfg taskSent now conn descriptor) := by
  unfold Serve.submitProof
  split
  · exact serves_sendTo _ rfl
  · split
    · exact serves_refl
    · have hsent : ∀ s₁ : Serve, Serves blake3 (some conn) s₁
          (s₁.sendTo conn (.submissionAck descriptor.jobId true none true)) :=
        fun _ => serves_sendTo _ rfl
      exact (hsent { s with proving := s.proving ++ [.proof cfg descriptor now conn] }).congr rfl
        rfl rfl rfl
        rfl rfl rfl rfl

theorem serves_submitFile (landed : Bool) (descriptor : JobDescriptor) :
    Serves blake3 (some conn) s (s.submitFile landed conn descriptor) := by
  unfold Serve.submitFile
  split
  · exact serves_refl
  · have hsent : Serves blake3 (some conn) s
        (s.sendTo conn (.submissionAck descriptor.jobId true none false)) := serves_sendTo _ rfl
    exact hsent.congr rfl rfl rfl rfl rfl rfl rfl rfl

theorem serves_jobSubmission (host : Host) (now : Nat) (descriptor : JobDescriptor)
    (pubkeyHex sigHex : String) (requireZk : Bool) :
    ServesIf blake3 (some conn) s
      (s.handleJobSubmission crypto cfg host now conn descriptor pubkeyHex sigHex requireZk) := by
  unfold Serve.handleJobSubmission
  refine servesIf_guard ?_
  split
  · exact servesIf_refl
  · refine servesIf_guard (servesIf_guard ?_)
    dsimp only
    split
    · exact servesIf_refl
    · refine servesIf_guard ?_
      split
      · exact servesIf_none
      · exact servesIf_refl
      · exact servesIf_some (serves_sendTo _ rfl)
      · split
        · exact servesIf_some (serves_submitProof _ _ _)
        · exact servesIf_some (serves_submitFile _ _)

theorem serves_receiptClaim (receipt : Except String ReceiptOutcome)
    (workerId jobId pubkeyHex sigHex receiptHex : String) :
    ServesIf blake3 (some conn) s
      (s.onReceiptClaim crypto cfg receipt conn workerId jobId pubkeyHex sigHex receiptHex) := by
  refine receiptClaim_cases (P := fun _ f => ServesIf blake3 (some conn) s (f receipt))
    servesIf_refl ?_ ?_
  · intro job bytes _
    exact servesIf_some (serves_of_eq rfl rfl rfl rfl)
  · intro job bytes binding _ _ s' h
    obtain ⟨job', rfl, -⟩ := answered_some h
    exact serves_of_eq rfl rfl rfl rfl

theorem serves_proved (decision : Decision) : Serves blake3 c s (s.onProved decision) := by
  unfold Serve.onProved
  split
  · exact serves_refl
  next job rest _ =>
    have h : ∀ s₁ : Serve,
        Serves blake3 c s₁ ((s₁.finishDecidedJob job decision).broadcast .betweenJobs) :=
      fun _ => serves_announce job decision
    exact (h { s with proving := rest }).congr rfl rfl rfl rfl rfl rfl rfl rfl

theorem serves_event {host : Host} {now : Nat} (e : Event) (he : ∀ conn, e ≠ .closed conn) :
    ServesIf crypto.blake3 e.conn s (s.onEvent crypto cfg host now e) := by
  cases e with
  | hello conn pubkey workerId port role => exact servesIf_some (serves_hello _ _ _ _ _)
  | nonceSig conn sig powCounter => exact servesIf_some (serves_nonceSig _ _)
  | jobSubmission conn submitter descriptor pubkeyHex sigHex requireZk =>
    exact serves_jobSubmission _ _ _ _ _ _
  | blobUpload conn idHex bytesHex => exact serves_blobUpload _ _ _
  | receiptClaim conn workerId jobId pubkeyHex sigHex receiptHex =>
    exact serves_receiptClaim _ _ _ _ _ _
  | blobRequest conn id => exact serves_blobRequest _
  | result conn result => exact serves_result _
  | closed conn => exact absurd rfl (he conn)
  | proved decision => exact servesIf_some (serves_proved _)

theorem serves_handle {host : Host} {now : Nat} (e : Event) (he : ∀ conn, e ≠ .closed conn) :
    Serves crypto.blake3 e.conn s (s.handle crypto cfg host now e) := by
  unfold Serve.handle
  split
  next => exact serves_of_eq rfl rfl rfl rfl
  next s' hs' =>
    exact (serves_event e he s' hs').congr rfl rfl rfl rfl rfl rfl rfl rfl

/-! ## The blocks of the loop -/

theorem serves_scan (found : Except String (Option QueuedJob)) (now : Nat) :
    Serves blake3 c s (s.scan cfg found now) := by
  unfold Serve.scan
  split
  · exact serves_of_sent (s.conns.keys.map fun conn => (conn, .shutDown "all queued jobs complete"))
      rfl rfl
      rfl rfl (unstored_keys rfl)
  · split
    · exact serves_of_eq rfl rfl rfl rfl
    · split <;> exact serves_of_eq rfl rfl rfl rfl

theorem serves_choose (draws : Nat → U64) : Serves blake3 c s (s.choose cfg draws) := by
  unfold Serve.choose
  split
  · exact serves_of_eq rfl rfl rfl rfl
  · split <;> exact serves_of_eq rfl rfl rfl rfl

theorem serves_hold (selected : Selection) : Serves blake3 c s (s.hold selected) := by
  unfold Serve.hold
  split <;> exact serves_of_eq rfl rfl rfl rfl

/-- A round of assignments goes to connections that are there. -/
theorem assignAll_unstored {conns : Conns} {pick : String → Option Nat}
    (hpick : ∀ wid conn, pick wid = some conn → conn ∈ conns) (selected : Selection)
    (job : PendingJob) (sent : List (Nat × ServerToClient)) :
    ∃ msgs, (assignAll pick selected job sent).2 = sent ++ msgs ∧
      Unstored conns c msgs := by
  refine ⟨_, congrArg Prod.snd (assignAll_eq pick selected job sent), fun m hm => ?_⟩
  obtain ⟨x, hx, rfl⟩ := List.mem_map.mp hm
  obtain ⟨cand, -, hcand⟩ := List.mem_filterMap.mp hx
  obtain ⟨conn, hconn, rfl⟩ := Option.map_eq_some_iff.mp hcand
  exact ⟨⟨hpick _ _ hconn, .inr rfl⟩, rfl⟩

/-- Whom `find?` finds is in the table. -/
theorem mem_of_find {conns : Conns} {p : (_ : Nat) × Conn → Bool} {conn : Nat}
    (h : (conns.entries.find? p).map Sigma.fst = some conn) : conn ∈ conns := by
  obtain ⟨e, he, rfl⟩ := Option.map_eq_some_iff.mp h
  exact List.mem_map_of_mem (List.mem_of_find?_eq_some he)

theorem serves_assign (selected : Selection) (reserves : List String) (now : Nat) :
    Serves blake3 c s (s.assign selected reserves now) := by
  unfold Serve.assign
  split
  · exact serves_of_eq rfl rfl rfl rfl
  next job _ =>
    have hbearer : ∀ wid conn, s.conns.bearer wid = some conn → conn ∈ s.conns :=
      fun _ _ => mem_of_find
    obtain ⟨msgs, hsent, hmsgs⟩ := assignAll_unstored hbearer selected job s.sent
    exact serves_of_sent msgs rfl hsent rfl rfl hmsgs

theorem serves_finish (job : PendingJob) (zk replay : Option Decision) :
    Serves blake3 c s (s.finish job zk replay) := by
  have h : Serves blake3 c s
      ((s.finishDecidedJob job (job.decision zk replay)).broadcast .betweenJobs) :=
    serves_announce _ _
  exact h.congr rfl rfl rfl rfl rfl rfl rfl rfl

theorem serves_complete (now : Nat) (zk replay : Option Decision) :
    Serves blake3 c s (s.checkComplete cfg now zk replay) := by
  unfold Serve.checkComplete
  split
  · exact serves_of_eq rfl rfl rfl rfl
  next job _ =>
    split
    · exact serves_of_eq rfl rfl rfl rfl
    · split
      · split
        · have hbearer : ∀ wid conn, s.conns.authedBearer wid = some conn → conn ∈ s.conns :=
            fun _ _ => mem_of_find
          obtain ⟨msgs, hsent, hmsgs⟩ := assignAll_unstored hbearer
            (job.reserves.map fun wid => (wid, s.conns.peerHints wid)) { job with reserves := [] }
              s.sent
          exact serves_of_sent msgs rfl hsent rfl rfl hmsgs
        · exact serves_finish _ zk replay
      · split
        · exact serves_finish _ zk replay
        · exact serves_of_eq rfl rfl rfl rfl

end

/-! ## Steps of the others -/

/-- The connection the act is for. -/
def Act.conn : Act → Option Nat
  | .event e _ _ => e.conn
  | _ => none

/-- The acts that are no thread's and close nothing. -/
def Act.plain : Act → Bool
  | .thread _ => false
  | .event (.closed _) _ _ => false
  | _ => true

theorem step_serves (crypto : Crypto) (cfg : ServeConfig) (s : Serve) {a : Act}
    (ha : a.plain = true) : Serves crypto.blake3 a.conn s (step crypto cfg s a) := by
  cases a with
  | thread t => cases ha
  | scan found now =>
    rw [step]
    split
    · exact serves_scan found now
    · exact serves_refl
  | choose draws =>
    rw [step]
    split
    · exact serves_choose draws
    · exact serves_refl
  | hold =>
    rw [step]
    split
    · exact serves_hold _
    · exact serves_refl
  | assign now =>
    rw [step]
    split
    · exact serves_assign _ _ now
    · exact serves_refl
  | complete now zk replay =>
    rw [step]
    split
    · exact serves_complete now zk replay
    · exact serves_refl
  | idle =>
    rw [step]
    split <;> exact serves_of_eq rfl rfl rfl rfl
  | event e host now =>
    rw [step]
    split
    · refine serves_handle e ?_
      rintro conn rfl
      cases ha
    · exact serves_refl

/-- Only open connections are sent anything. -/
theorem step_told (crypto : Crypto) (cfg : ServeConfig) (s : Serve) (a : Act) :
    ∃ msgs, (step crypto cfg s a).sent = s.sent ++ msgs ∧ ∀ m ∈ msgs, m.1 ∈ s.conns := by
  by_cases ha : a.plain = true
  · obtain ⟨msgs, hsent, hmsgs⟩ := (step_serves crypto cfg s ha).said
    exact ⟨msgs, hsent, fun m hm => (hmsgs m hm).1⟩
  · refine ⟨[], ?_, List.forall_mem_nil _⟩
    rw [List.append_nil]
    cases a with
    | thread t => cases t <;> rfl
    | event e host now =>
      cases e with
      | closed conn =>
        rw [step]
        split <;> rfl
      | _ => exact absurd rfl ha
    | _ => exact absurd rfl ha

/-- What a step that is not its own leaves of a connection. -/
structure Apart (conn : Nat) (s s' : Serve) : Prop where
  record : s'.conns.lookup conn = s.conns.lookup conn
  said : ∃ msgs, toConn conn s'.sent = toConn conn s.sent ++ msgs ∧ ∀ m ∈ msgs, unasked m = true
  blobs : ∀ id data, s.store id = some data → s'.store id = some data

theorem put_keeps (blake3 : List U8 → Hash) {store : Store} {id : ContentId} {data : List U8}
    (h : store id = some data) (new : List U8) : store.put blake3 new id = some data := by
  unfold Store.put
  cases hnew : store (blake3 new) with
  | some old => exact h
  | none =>
    have hne : id ≠ blake3 new := by
      rintro rfl
      rw [hnew] at h
      cases h
    exact (Function.update_of_ne hne _ _).trans h

theorem Serves.apart {blake3 : List U8 → Hash} {c : Option Nat} {s s' : Serve} {conn : Nat}
    (h : Serves blake3 c s s') (hc : c ≠ some conn) : Apart conn s s' where
  record := by
    rcases h.table with heq | ⟨d, x, x', rfl, -, heq, -⟩ | ⟨d, rfl, heq⟩
    · rw [heq]
    · rw [heq, AList.lookup_insert_ne]
      rintro rfl
      exact hc rfl
    · rw [heq, AList.lookup_erase_ne]
      rintro rfl
      exact hc rfl
  said := by
    obtain ⟨msgs, hsent, hmsgs⟩ := h.said
    refine ⟨toConn conn msgs, by rw [hsent, toConn_append], fun m hm => ?_⟩
    obtain ⟨x, hmem, rfl⟩ := List.mem_map.mp hm
    obtain ⟨hx, hconn⟩ := List.mem_filter.mp hmem
    have hconn : x.1 = conn := of_decide_eq_true hconn
    exact (hmsgs x hx).2.resolve_left fun heq => hc (heq.symm.trans (congrArg some hconn))
  blobs id data hdata := by
    rcases h.store with ⟨heq, -⟩ | ⟨_, _, _, new, -, -, -, -, -, -, -, heq⟩
    · rw [heq]
      exact hdata
    · rw [heq]
      exact put_keeps blake3 hdata new

/-- The table keeps the keys of the others. -/
theorem Serves.mem_conns {blake3 : List U8 → Hash} {c : Option Nat} {s s' : Serve}
    (h : Serves blake3 c s s') {conn : Nat} (hc : c ≠ some conn) :
    conn ∈ s'.conns ↔ conn ∈ s.conns := by
  rw [← AList.lookup_isSome, ← AList.lookup_isSome, (h.apart hc).record]

/-- No connection is opened on the way. -/
theorem Serves.conns_subset {blake3 : List U8 → Hash} {c : Option Nat} {s s' : Serve}
    (h : Serves blake3 c s s') {conn : Nat} (hconn : conn ∈ s'.conns) : conn ∈ s.conns := by
  rcases h.table with heq | ⟨d, x, x', rfl, hlookup, heq, -⟩ | ⟨d, rfl, heq⟩
  · rwa [heq] at hconn
  · rw [heq] at hconn
    exact (mem_insert_lookup hlookup).mp hconn
  · rw [heq] at hconn
    exact (AList.mem_erase.mp hconn).2

/-- Threads and closed connections of the others. -/
theorem apart_of_sent {conn : Nat} {s s' : Serve}
    (hrecord : s'.conns.lookup conn = s.conns.lookup conn) (hsent : s'.sent = s.sent)
    (hstore : s'.store = s.store) : Apart conn s s' :=
  ⟨hrecord, ⟨[], by rw [hsent, List.append_nil], List.forall_mem_nil _⟩,
    fun id data h => by rw [hstore]; exact h⟩

theorem step_apart (crypto : Crypto) (cfg : ServeConfig) {s : Serve} {a : Act} {conn : Nat}
    (hold : conn < s.nextConn) (ha : a.concerns conn = false) (hdisk : a.offDisk = true) :
    Apart conn s (step crypto cfg s a) := by
  cases a with
  | thread t =>
    cases t with
    | accept peerIp =>
      refine apart_of_sent ?_ rfl rfl
      exact AList.lookup_insert_ne (Nat.ne_of_lt hold)
    | hangUp c =>
      refine apart_of_sent ?_ rfl rfl
      exact AList.lookup_erase_ne (Ne.symm (of_decide_eq_false ha))
    | reorder entries =>
      refine apart_of_sent ?_ rfl rfl
      show (s.conns.reorder entries).lookup conn = _
      unfold Conns.reorder
      split
      next hperm => exact AList.perm_lookup hperm
      next => rfl
    | disk id file => cases hdisk
  | event e host now =>
    have hne : e.conn ≠ some conn := of_decide_eq_false ha
    by_cases hclosed : ∃ c, e = .closed c
    · obtain ⟨c, rfl⟩ := hclosed
      rw [step]
      split
      · refine apart_of_sent ?_ rfl rfl
        exact AList.lookup_erase_ne fun heq => hne (congrArg some heq.symm)
      · exact apart_of_sent rfl rfl rfl
    · have hplain : Act.plain (.event e host now) = true := by
        cases e with
        | closed c => exact absurd ⟨c, rfl⟩ hclosed
        | _ => rfl
      exact (step_serves crypto cfg s hplain).apart hne
  | _ => exact (step_serves crypto cfg s rfl).apart fun h => by cases h

end Provework.Coordinator
