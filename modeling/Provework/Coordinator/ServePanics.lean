import Provework.Coordinator.ServeVotes

/-!
# Messages that stop the coordinator

The loop runs in one thread and a panic in a handler ends it. The handlers slice
strings that came over the wire: the id of a blob request and the hash of a result
for the log, the ids of a submission to decode them. `Fatal` lists the events that
cut a character or reach past the end of a string, `onEvent_completes_iff` says that
only these panic, and `serve_survives_iff` what that means for a whole run.
-/

namespace Provework.Coordinator

open Provework.Lib Provework.Jobfmt Provework.Contentstore Provework.Wire

variable (crypto : Crypto) (cfg : ServeConfig)

/-- The checks a submission passes before its content ids are read. -/
structure Admitted (s : Serve) (conn : Nat) (descriptor : JobDescriptor)
    (pubkeyHex sigHex : String) : Prop where
  enabled : cfg.acceptSubmissions = true
  live : ∃ x, s.conns.lookup conn = some x ∧ x.authed = true ∧ x.pubkey.any (· ≠ pubkeyHex) = false
  signed : crypto.verifyHex id id pubkeyHex sigHex
    (submissionMessage descriptor.jobId (crypto.blake3 descriptor.json)) = .ok ()
  named : confinedName descriptor.jobId = true

/-- The checks a receipt claim passes before the coordinator takes the verifier's
word for it. -/
structure Verified (s : Serve) (receipt : Except String ReceiptOutcome) (conn : Nat)
    (workerId jobId pubkeyHex sigHex receiptHex : String) (outcome : ReceiptOutcome) : Prop where
  live : ∃ x, s.conns.lookup conn = some x ∧ x.authed = true ∧ workerId = x.workerId ∧
    x.pubkey.any (· ≠ pubkeyHex) = false
  enabled : cfg.zk = true
  size : (utf8 receiptHex).length ≤ 2 * maxReceiptBytes
  signed : ∃ bytes, fromHex receiptHex ((utf8 receiptHex).length / 2) = .ok bytes ∧
    verifyClaimSig crypto pubkeyHex jobId (crypto.blake3 bytes) sigHex = .ok ()
  pending : ∃ job, s.pending = some job ∧ jobId = job.descriptor.jobId ∧ job.zkAccept = none ∧
    workerId ∈ job.dispatchedIds ∧ workerId ∉ job.receiptClaimed ∧
    ∃ binding, expectedBinding job.descriptor = .ok binding
  receipt : receipt = .ok outcome
  halted : outcome.status = 0

/-- A blob with this id is in the store. -/
def Store.Stocks (store : Store) (idHex : String) : Prop :=
  ∃ id, ContentId.fromHex idHex = some (.ok id) ∧ store.has id = true

/-- Events the loop does not survive. -/
def Fatal (s : Serve) (host : Host) : Event → Prop
  -- any connection may ask for a blob, authenticated or not
  | .blobRequest conn id =>
    (s.conns.lookup conn).isSome = true ∧
      (ContentId.Cut id ∨ sliceable id (min 12 (utf8 id).length) = false)
  | .result conn result =>
    (∃ x job, Countable crypto cfg s conn x result job) ∧ sliceable result.resultHash 12 = false
  | .jobSubmission conn _ descriptor pubkeyHex sigHex _ =>
    Admitted crypto cfg s conn descriptor pubkeyHex sigHex ∧
      ∃ pre idHex post, [descriptor.manifest, descriptor.elf, descriptor.input]
        = pre ++ idHex :: post ∧
        (∀ p ∈ pre, Store.Stocks s.store p) ∧ ContentId.Cut idHex
  -- the string sliced here is the verifier's, not the peer's
  | .receiptClaim conn workerId jobId pubkeyHex sigHex receiptHex =>
    ∃ outcome,
      Verified crypto cfg s host.receipt conn workerId jobId pubkeyHex sigHex receiptHex outcome ∧
      sliceable (outcome.chunkHashes.getLast?.getD "")
        (min 12 (utf8 (outcome.chunkHashes.getLast?.getD "")).length) = false
  | _ => False

/-! ## One lemma per handler -/

/-- If the handler panics, `P`. -/
def PanicsOnlyIf (P : Prop) (r : Option Serve) : Prop := r = none → P

section

variable {P : Prop} {s : Serve}

theorem panicsOnlyIf_some : PanicsOnlyIf P (some s) := nofun

/-- A check that drops the event: what panics is behind it. -/
theorem panicsOnlyIf_guard {p : Prop} [Decidable p] {r : Option Serve} (h : ¬p → PanicsOnlyIf P r) :
    PanicsOnlyIf P (if p then some s else r) := by
  by_cases hp : p
  · rw [if_pos hp]
    exact panicsOnlyIf_some
  · rw [if_neg hp]
    exact h hp

end

variable {crypto cfg} {s : Serve}

theorem onBlobRequest_eq_none_iff (conn : Nat) (id : String) :
    s.onBlobRequest crypto conn id = none ↔ (s.conns.lookup conn).isSome = true ∧
      (ContentId.Cut id ∨ sliceable id (min 12 (utf8 id).length) = false) := by
  rw [← ContentId.fromHex_eq_none_iff]
  unfold Serve.onBlobRequest
  rcases s.conns.lookup conn with _ | x
  · simp
  · rcases ContentId.fromHex id with _ | cid
    · simp
    · by_cases hslice : sliceable id (min 12 (utf8 id).length) = true
      · simp [hslice]
      · simp [hslice]

/-- A countable result goes as far as the log line. -/
theorem onResult_countable {conn : Nat} {x : Conn} {result : WorkerResult} {job : PendingJob}
    (h : Countable crypto cfg s conn x result job) :
    s.onResult crypto cfg conn result = if sliceable result.resultHash 12 then
      some { s with
        pending := some { job with
          results := job.results ++ [result]
          trail := { job.trail with origins := job.trail.origins ++ [conn] } } }
    else none := by
  have hdup : (job.results.any fun r => r.workerId = x.workerId) = false := by simpa using h.first
  have hcount : s.onResult crypto cfg conn result = s.countResult conn x.workerId result := by
    rw [Serve.onResult, h.live]
    simp only [h.authed, h.sameId, h.key, h.signed, Bool.not_true, Bool.false_eq_true, if_false,
      ne_eq, not_true_eq_false]
  rw [hcount, Serve.countResult, h.pending]
  simp only [h.jobId, h.dispatched, hdup, ne_eq, not_true_eq_false, Bool.false_eq_true, if_false]

theorem onResult_eq_none_iff (conn : Nat) (result : WorkerResult) :
    s.onResult crypto cfg conn result = none ↔
      (∃ x job, Countable crypto cfg s conn x result job) ∧
      sliceable result.resultHash 12 = false := by
  constructor
  · change PanicsOnlyIf _ _
    unfold Serve.onResult
    split
    · exact panicsOnlyIf_some
    next x hx =>
    refine panicsOnlyIf_guard fun hauthed => ?_
    refine panicsOnlyIf_guard fun hid => ?_
    refine panicsOnlyIf_guard fun hkey => ?_
    split
    · exact panicsOnlyIf_some
    next hsig =>
    unfold Serve.countResult
    split
    · exact panicsOnlyIf_some
    next job hjob =>
    refine panicsOnlyIf_guard fun hjobId => ?_
    refine panicsOnlyIf_guard fun hdisp => ?_
    refine panicsOnlyIf_guard fun hdup => ?_
    split
    · exact panicsOnlyIf_some
    next hslice =>
      exact fun _ => ⟨⟨x, job,
        { live := hx
          authed := by simpa using hauthed
          sameId := not_not.mp hid
          key := by simpa using hkey
          signed := hsig
          pending := hjob
          jobId := not_not.mp hjobId
          dispatched := not_not.mp hdisp
          first := by simpa using hdup }⟩, Bool.eq_false_iff.mpr hslice⟩
  · rintro ⟨⟨x, job, h⟩, hslice⟩
    rw [onResult_countable h, if_neg (Bool.eq_false_iff.mp hslice)]

theorem checkBlobs_eq_panicked_iff (store : Store) (blobs : List (String × String)) :
    checkBlobs store blobs = .panicked ↔
      ∃ pre idHex post, blobs.map Prod.snd = pre ++ idHex :: post ∧
      (∀ p ∈ pre, Store.Stocks store p) ∧
        ContentId.Cut idHex := by
  induction blobs with
  | nil => exact iff_of_false nofun (by simp)
  | cons b blobs ih =>
    obtain ⟨label, idHex⟩ := b
    -- the first id is the one that panics, or it is stored and a later one does
    have hsplit : (∃ pre idHex' post, (idHex :: blobs.map Prod.snd) = pre ++ idHex' :: post ∧
          (∀ p ∈ pre, Store.Stocks store p) ∧ ContentId.Cut idHex') ↔
        ContentId.Cut idHex ∨ Store.Stocks store idHex ∧ checkBlobs store blobs = .panicked := by
      rw [ih]
      constructor
      · rintro ⟨pre, idHex', post, heq, hpre, hcut⟩
        cases pre with
        | nil =>
          obtain ⟨rfl, -⟩ := List.cons.inj heq
          exact .inl hcut
        | cons p pre =>
          obtain ⟨rfl, hrest⟩ := List.cons.inj heq
          exact .inr ⟨hpre _ List.mem_cons_self, pre, idHex', post, hrest,
            fun p hp => hpre p (List.mem_cons_of_mem _ hp), hcut⟩
      · rintro (hcut | ⟨hstocks, pre, idHex', post, heq, hpre, hcut⟩)
        · exact ⟨[], idHex, _, rfl, nofun, hcut⟩
        · refine ⟨idHex :: pre, idHex', post, congrArg (idHex :: ·) heq, ?_, hcut⟩
          exact List.forall_mem_cons.mpr ⟨hstocks, hpre⟩
    rw [List.map_cons, hsplit, ← ContentId.fromHex_eq_none_iff, checkBlobs]
    unfold Store.Stocks
    rcases ContentId.fromHex idHex with _ | e | id
    · simp
    · simp
    · by_cases hhas : store.has id = true
      · simp [hhas]
      · simp [hhas]

/-- An admitted submission panics if looking for its blobs does. -/
theorem handleJobSubmission_admitted {conn : Nat} {descriptor : JobDescriptor}
    {pubkeyHex sigHex : String} (h : Admitted crypto cfg s conn descriptor pubkeyHex sigHex)
    (host : Host) (now : Nat) (requireZk : Bool)
    (hpanics : checkBlobs s.store [("manifest", descriptor.manifest), ("elf", descriptor.elf),
      ("input", descriptor.input)] = .panicked) :
    s.handleJobSubmission crypto cfg host now conn descriptor pubkeyHex sigHex requireZk
      = none := by
  obtain ⟨x, hx, hauthed, hkey⟩ := h.live
  rw [Serve.handleJobSubmission, hx]
  simp only [h.enabled, hauthed, hkey, h.signed, h.named, hpanics, Bool.not_true,
    Bool.false_eq_true, if_false]

theorem handleJobSubmission_eq_none_iff (host : Host) (now conn : Nat) (descriptor : JobDescriptor)
    (pubkeyHex sigHex : String) (requireZk : Bool) :
    s.handleJobSubmission crypto cfg host now conn descriptor pubkeyHex sigHex requireZk = none ↔
      Admitted crypto cfg s conn descriptor pubkeyHex sigHex ∧
      ∃ pre idHex post, [descriptor.manifest, descriptor.elf, descriptor.input]
        = pre ++ idHex :: post ∧
        (∀ p ∈ pre, Store.Stocks s.store p) ∧ ContentId.Cut idHex := by
  have hblobs := checkBlobs_eq_panicked_iff s.store
    [("manifest", descriptor.manifest), ("elf", descriptor.elf), ("input", descriptor.input)]
  constructor
  · change PanicsOnlyIf _ _
    unfold Serve.handleJobSubmission
    refine panicsOnlyIf_guard fun henabled => ?_
    split
    · exact panicsOnlyIf_some
    next x hx =>
    refine panicsOnlyIf_guard fun hauthed => ?_
    refine panicsOnlyIf_guard fun hkey => ?_
    dsimp only
    split
    · exact panicsOnlyIf_some
    next hsig =>
    refine panicsOnlyIf_guard fun hname => ?_
    split
    next hpanics =>
      exact fun _ =>
        ⟨⟨by simpa using henabled, ⟨x, hx, by simpa using hauthed, by simpa using hkey⟩, hsig,
          by simpa using hname⟩, hblobs.mp hpanics⟩
    next => exact panicsOnlyIf_some
    next => exact panicsOnlyIf_some
    next =>
      split
      · exact panicsOnlyIf_some
      · exact panicsOnlyIf_some
  · rintro ⟨hadmitted, hcut⟩
    exact handleJobSubmission_admitted hadmitted host now requireZk (hblobs.mpr hcut)

/-- An id that was compared with a hash is hex, and hex can be sliced. -/
theorem handleBlobUpload_isSome (host : Host) (conn : Nat) (idHex bytesHex : String) :
    s.handleBlobUpload crypto host conn idHex bytesHex ≠ none := by
  change PanicsOnlyIf False _
  unfold Serve.handleBlobUpload
  split
  · exact panicsOnlyIf_some
  refine panicsOnlyIf_guard fun _ => ?_
  refine panicsOnlyIf_guard fun _ => ?_
  dsimp only
  unfold Serve.storeUpload
  refine panicsOnlyIf_guard fun _ => ?_
  split
  · exact panicsOnlyIf_some
  split
  · exact panicsOnlyIf_some
  next claimed hclaimed =>
  refine panicsOnlyIf_guard fun _ => ?_
  split
  · exact panicsOnlyIf_some
  rw [if_pos (sliceable_of_fromHex hclaimed (Nat.min_le_right _ _))]
  exact panicsOnlyIf_some

/-- A receipt that is verified goes as far as the log line. -/
theorem onReceiptClaim_verified {receipt : Except String ReceiptOutcome} {conn : Nat}
    {workerId jobId pubkeyHex sigHex receiptHex : String} {outcome : ReceiptOutcome}
    (h : Verified crypto cfg s receipt conn workerId jobId pubkeyHex sigHex receiptHex outcome)
    (hcut : sliceable (outcome.chunkHashes.getLast?.getD "")
      (min 12 (utf8 (outcome.chunkHashes.getLast?.getD "")).length) = false) :
    s.onReceiptClaim crypto cfg receipt conn workerId jobId pubkeyHex sigHex receiptHex = none := by
  obtain ⟨x, hx, hauthed, hid, hkey⟩ := h.live
  obtain ⟨bytes, hbytes, hsig⟩ := h.signed
  obtain ⟨job, hjob, hjobId, hopen, hdispatched, hfresh, binding, hbinding⟩ := h.pending
  have hhandle : s.onReceiptClaim crypto cfg receipt conn workerId jobId pubkeyHex sigHex receiptHex
      = s.claimReceipt receipt workerId jobId := by
    rw [Serve.onReceiptClaim, hx]
    simp only [hauthed, ← hid, hkey, Bool.not_true, Bool.false_eq_true, if_false, ne_eq,
      not_true_eq_false, Serve.handleReceiptClaim, h.enabled, Nat.not_lt.mpr h.size, hbytes, hsig]
  rw [hhandle, Serve.claimReceipt, hjob]
  simp only [hjobId, hopen, hdispatched, receiptClaimGate, hfresh, hbinding, h.receipt, ne_eq,
    not_true_eq_false, Option.isSome_none, Bool.false_eq_true, or_self, if_false,
    PendingJob.acceptReceipt, h.halted, if_true, hcut, Option.map_none]

theorem onReceiptClaim_eq_none_iff (receipt : Except String ReceiptOutcome) (conn : Nat)
    (workerId jobId pubkeyHex sigHex receiptHex : String) :
    s.onReceiptClaim crypto cfg receipt conn workerId jobId pubkeyHex sigHex receiptHex = none ↔
      ∃ outcome,
      Verified crypto cfg s receipt conn workerId jobId pubkeyHex sigHex receiptHex outcome ∧
        sliceable (outcome.chunkHashes.getLast?.getD "")
          (min 12 (utf8 (outcome.chunkHashes.getLast?.getD "")).length) = false := by
  constructor
  · refine receiptClaim_cases (P := fun _ f => PanicsOnlyIf _ (f receipt)) panicsOnlyIf_some
      (fun _ _ _ => panicsOnlyIf_some) ?_
    intro job bytes binding hclaim hbinding hnone
    cases receipt with
    | error e => cases hnone
    | ok outcome =>
      rw [Serve.answered, Option.map_eq_none_iff, PendingJob.acceptReceipt] at hnone
      split at hnone
      next hstatus =>
        dsimp only at hnone
        split at hnone
        · cases hnone
        next hslice =>
          exact ⟨outcome,
            { live := hclaim.live
              enabled := hclaim.enabled
              size := hclaim.size
              signed := ⟨bytes, hclaim.decoded, hclaim.signed⟩
              pending := ⟨job, hclaim.pending, hclaim.sameJob, hclaim.unsettled, hclaim.dispatched,
                hclaim.fresh, binding, hbinding⟩
              receipt := rfl
              halted := hstatus }, Bool.eq_false_iff.mpr hslice⟩
      next => cases hnone
  · rintro ⟨outcome, hverified, hcut⟩
    exact onReceiptClaim_verified hverified hcut

/-! ## One event, and a run -/

/-- The events that panic are the fatal ones. -/
theorem onEvent_eq_none_iff (s : Serve) (host : Host) (now : Nat) (e : Event) :
    s.onEvent crypto cfg host now e = none ↔ Fatal crypto cfg s host e := by
  cases e with
  | hello conn pubkey workerId listenPort role => exact iff_of_false nofun nofun
  | nonceSig conn sig powCounter => exact iff_of_false nofun nofun
  | jobSubmission conn submitter descriptor pubkeyHex sigHex requireZk =>
    exact handleJobSubmission_eq_none_iff host now conn descriptor pubkeyHex sigHex requireZk
  | blobUpload conn idHex bytesHex =>
    exact iff_of_false (handleBlobUpload_isSome host conn idHex bytesHex) nofun
  | receiptClaim conn workerId jobId pubkeyHex sigHex receiptHex =>
    exact onReceiptClaim_eq_none_iff host.receipt conn workerId jobId pubkeyHex sigHex receiptHex
  | blobRequest conn id => exact onBlobRequest_eq_none_iff conn id
  | result conn result => exact onResult_eq_none_iff conn result
  | closed conn => exact iff_of_false nofun nofun
  | proved decision => exact iff_of_false nofun nofun

/-- Whatever the connections and the pending job are, handling an event completes
exactly if the event is none of the fatal ones. -/
theorem onEvent_completes_iff (s : Serve) (host : Host) (now : Nat) (e : Event) :
    (s.onEvent crypto cfg host now e).isSome = true ↔ ¬ Fatal crypto cfg s host e := by
  rw [Option.isSome_iff_ne_none, ne_eq, onEvent_eq_none_iff]

/-- A coordinator that waits for events, with one connection that has said nothing
yet. -/
def oneStranger : Serve :=
  stateAfter (step toyCrypto identityConfig) (Serve.init 1 fun _ => none)
    [.thread (.accept "10.0.0.9"), .scan (.ok none) 0, .choose fun _ => 0, .complete 0 none none]

/-- It asks for a blob by a name with a two-byte character on bytes 11 and 12. -/
theorem stranger_stops_the_loop :
    oneStranger.pc = .events ∧ (oneStranger.conns.lookup 1).map (·.authed) = some false ∧
      oneStranger.onEvent toyCrypto identityConfig quietHost 0 (.blobRequest 1 "blob-named-é")
        = none := by
  refine ⟨rfl, rfl, ?_⟩
  decide +kernel

/-- Nothing but an event stops the loop that way. -/
theorem step_panicked {a : Act} (h : (step crypto cfg s a).pc = .panicked) :
    s.pc = .panicked ∨ ∃ e host now, a = .event e host now ∧ s.pc = .events ∧
      s.onEvent crypto cfg host now e = none := by
  cases a with
  | thread t => cases t <;> exact .inl h
  | scan found now =>
    rw [step] at h
    split at h
    · unfold Serve.scan at h
      split at h
      · cases h
      · split at h
        · cases h
        · split at h <;> cases h
    · exact .inl h
  | choose draws =>
    rw [step] at h
    split at h
    · unfold Serve.choose at h
      split at h
      · cases h
      · split at h <;> cases h
    · exact .inl h
  | hold =>
    rw [step] at h
    split at h
    · unfold Serve.hold at h
      split at h <;> cases h
    · exact .inl h
  | assign now =>
    rw [step] at h
    split at h
    · unfold Serve.assign at h
      split at h <;> cases h
    · exact .inl h
  | complete now zk replay =>
    rw [step] at h
    split at h
    · unfold Serve.checkComplete at h
      split at h
      · cases h
      · split at h
        · cases h
        · split at h
          · split at h <;> cases h
          · split at h <;> cases h
    · exact .inl h
  | idle =>
    rw [step] at h
    split at h
    · cases h
    · exact .inl h
  | event e host now =>
    rw [step] at h
    split at h
    next hpc =>
      unfold Serve.handle at h
      split at h
      next hnone => exact .inr ⟨e, host, now, rfl, hpc, hnone⟩
      next => cases h
    next => exact .inl h

/-- The coordinator survives a run exactly if no fatal event is taken in it. -/
theorem serve_survives_iff (nextConn : Nat) (store : Store) (acts : List Act) :
    Always (step crypto cfg) (fun _ s => s.pc ≠ .panicked) (Serve.init nextConn store) acts ↔
      EachStep (step crypto cfg)
        (fun _ s a => ∀ e host now, a = .event e host now → s.pc = .events →
          ¬ Fatal crypto cfg s host e)
        (Serve.init nextConn store) acts := by
  refine always_iff (J := fun _ _ => True) trivial (fun _ _ _ _ => trivial) nofun ?_
  intro h s a _ hlives
  constructor
  · rintro hnext e host now rfl hpc hfatal
    refine hnext ?_
    rw [step, if_pos hpc, Serve.handle, (onEvent_eq_none_iff s host now e).mpr hfatal]
  · intro hharmless hpanicked
    rcases step_panicked hpanicked with hpc | ⟨e, host, now, rfl, hpc, hnone⟩
    · exact hlives hpc
    · exact hharmless e host now rfl hpc ((onEvent_eq_none_iff s host now e).mp hnone)

end Provework.Coordinator
