import Provework.Coordinator.ReceiptClaims

/-!
# What one step of the loop can do

`Core` is the part of the state that votes and keys depend on: the connections,
the pending job, and what was sent. `Moves` lists the ways one act can change
it, each with the checks the code made on the way, and `step_moves` says that
there are no others. Invariants of the loop are proved by cases on `Moves`;
nothing below this file unfolds a handler again.
-/

namespace Provework.Coordinator

open Provework.Lib Provework.Jobfmt Provework.Contentstore Provework.Wire

structure Core where
  conns : Conns
  nextConn : Nat
  pending : Option PendingJob
  sent : List (Nat × ServerToClient)

def Serve.core (s : Serve) : Core := ⟨s.conns, s.nextConn, s.pending, s.sent⟩

/-- More was sent, and that is all. -/
def Core.logs (k : Core) (msgs : List (Nat × ServerToClient)) : Core :=
  { k with sent := k.sent ++ msgs }

/-- The job after its first dispatch, and the log. -/
def Serve.round1 (s : Serve) (job : PendingJob) (selected : Selection) :
    PendingJob × List (Nat × ServerToClient) :=
  assignAll s.conns.bearer selected job s.sent

/-- The job after its escalation, and the log. -/
def Serve.round2 (s : Serve) (job : PendingJob) : PendingJob × List (Nat × ServerToClient) :=
  assignAll s.conns.authedBearer (job.reserves.map fun wid => (wid, s.conns.peerHints wid))
    { job with reserves := [] } s.sent

/-- A receipt claim of `workerId` was recorded, and perhaps settled the job. -/
structure Claimed (workerId : String) (job job' : PendingJob) : Prop where
  open_ : job.zkAccept = none
  dispatched : workerId ∈ job.dispatchedIds
  fresh : workerId ∉ job.receiptClaimed
  eq : job' = { job with
    receiptClaimed := job.receiptClaimed ++ [workerId]
    zkAccept := job'.zkAccept }

/-- A result the loop counts: who it came from, and the checks it passed. -/
structure Countable (crypto : Crypto) (cfg : ServeConfig) (s : Serve) (conn : Nat) (x : Conn)
    (result : WorkerResult) (job : PendingJob) : Prop where
  live : s.conns.lookup conn = some x
  authed : x.authed = true
  sameId : result.workerId = x.workerId
  key : Serve.keyMatches cfg x result = true
  signed : verifySignature crypto result = .ok ()
  pending : s.pending = some job
  jobId : result.jobId = job.descriptor.jobId
  dispatched : x.workerId ∈ job.dispatchedIds
  first : ∀ r ∈ job.results, r.workerId ≠ x.workerId

inductive Moves (crypto : Crypto) (cfg : ServeConfig) (s : Serve) : Act → Core → Prop
  | logs {a : Act} (msgs : List (Nat × ServerToClient)) : Moves crypto cfg s a (s.core.logs msgs)
  | accept (peerIp : String) :
      Moves crypto cfg s (.thread (.accept peerIp))
        { s.core with
          conns := s.conns.insert s.nextConn (Conn.new s.nextConn peerIp)
          nextConn := s.nextConn + 1 }
  | close {a : Act} (conn : Nat) :
      Moves crypto cfg s a { s.core with conns := s.conns.erase conn }
  | reorder {a : Act} {conns : Conns} (h : conns.entries.Perm s.conns.entries) :
      Moves crypto cfg s a { s.core with conns := conns }
  | greet {conn : Nat} {x : Conn} {pubkey workerId role : String} {port : Option Nat} {host : Host}
      {now : Nat} (hpc : s.pc = .events) (hx : s.conns.lookup conn = some x) :
      Moves crypto cfg s (.event (.hello conn pubkey workerId port role) host now)
        { s.core with
          conns := s.conns.insert conn (x.greet (List.ofFn host.nonce) pubkey workerId port role)
          sent := s.sent ++ [(conn, .nonce (hex (List.ofFn host.nonce)) cfg.identityPowBits)] }
  | authenticate {conn : Nat} {x : Conn} {sig : Option String} {powCounter : U64} {host : Host}
    {now : Nat}
      (hpc : s.pc = .events) (hx : s.conns.lookup conn = some x)
      (hok : authOk crypto cfg x sig powCounter = true) :
      Moves crypto cfg s (.event (.nonceSig conn sig powCounter) host now)
        { s.core with
          conns := s.conns.insert conn { x with authed := true }
          pending := s.pending.map fun job => job.lateJoiner x.workerId
          sent := s.sent ++ [(conn, .authOk x.workerId)] }
  | upload {a : Act} {conn : Nat} {x : Conn} (msgs : List (Nat × ServerToClient))
      (hx : s.conns.lookup conn = some x) :
      Moves crypto cfg s a
        { s.core.logs msgs with conns := s.conns.insert conn { x with uploads := x.uploads + 1 } }
  | queue {a : Act} (descriptor : JobDescriptor) (targets : Option (List String)) (path : String)
      (now : Nat) (subscribers : List Nat) (hnone : s.pending = none) :
      Moves crypto cfg s a
        { s.core with pending := some (.queued descriptor targets path now subscribers) }
  | round1 {job : PendingJob} {selected : Selection} {reserves : List String} {now : Nat}
      (hpc : s.pc = .assign selected reserves) (hjob : s.pending = some job) :
      Moves crypto cfg s (.assign now)
        { s.core with
          pending := some { (s.round1 job selected).1 with
            reserves := reserves, dispatched := true, started := now }
          sent := (s.round1 job selected).2 }
  | escalate {job : PendingJob} {now : Nat} {zk replay : Option Decision}
      (hjob : s.pending = some job) (hdispatched : job.dispatched = true) (hall : job.allIn = true)
      (hdecide : Quorum.decide job.results job.dispatchedIds.length = .escalate)
      (hreserves : job.reserves ≠ []) :
      Moves crypto cfg s (.complete now zk replay)
        { s.core with
          pending := some { (s.round2 job).1 with escalated := true, started := now }
          sent := (s.round2 job).2 }
  | finish {a : Act} (msgs : List (Nat × ServerToClient)) :
      Moves crypto cfg s a { s.core.logs msgs with pending := none }
  | count {conn : Nat} {x : Conn} {result : WorkerResult} {job : PendingJob} {host : Host}
      {now : Nat} (hpc : s.pc = .events) (h : Countable crypto cfg s conn x result job) :
      Moves crypto cfg s (.event (.result conn result) host now)
        { s.core with
          pending := some { job with
            results := job.results ++ [result]
            trail := { job.trail with origins := job.trail.origins ++ [conn] } } }
  | claim {a : Act} {workerId : String} {job job' : PendingJob} (hjob : s.pending = some job)
      (h : Claimed workerId job job') :
      Moves crypto cfg s a { s.core with pending := some job' }
  | subscribe {a : Act} (msgs : List (Nat × ServerToClient)) (jobId : String) (conn : Nat) :
      Moves crypto cfg s a
        { s.core.logs msgs with pending := s.pending.map fun job => job.subscribe jobId conn }

/-! ## Sending changes nothing else -/

namespace Core

@[simp] theorem logs_nil (k : Core) : k.logs [] = k := by simp [logs]

@[simp] theorem logs_logs (k : Core) (l₁ l₂ : List (Nat × ServerToClient)) :
    (k.logs l₁).logs l₂ = k.logs (l₁ ++ l₂) := by simp [logs]

end Core

namespace Serve

theorem core_send (s : Serve) (conn : Nat) (msg : ServerToClient) :
    (s.send conn msg).core = s.core.logs [(conn, msg)] := rfl

theorem core_sendTo (s : Serve) (conn : Nat) (msg : ServerToClient) :
    ∃ msgs, (s.sendTo conn msg).core = s.core.logs msgs := by
  unfold sendTo
  split
  · exact ⟨_, core_send s conn msg⟩
  · exact ⟨[], (Core.logs_nil _).symm⟩

/-- An answer is sent, or the connection is gone. -/
theorem core_answer (s : Serve) (cutOff : Bool) (conn : Nat) (msg : ServerToClient) :
    (∃ msgs, (s.answer cutOff conn msg).core = s.core.logs msgs) ∨
      (s.answer cutOff conn msg).core = { s.core with conns := s.conns.erase conn } := by
  unfold answer
  split
  · exact .inr rfl
  · exact .inl (s.core_sendTo conn msg)

theorem core_broadcast (s : Serve) (msg : ServerToClient) :
    (s.broadcast msg).core = s.core.logs (s.conns.keys.map fun conn => (conn, msg)) := rfl

theorem core_notify (msg : ServerToClient) : ∀ (subscribers : List Nat) (s : Serve),
    ∃ msgs, (subscribers.foldl (fun s conn => s.sendTo conn msg) s).core = s.core.logs msgs
  | [], s => ⟨[], (Core.logs_nil _).symm⟩
  | conn :: rest, s => by
    obtain ⟨msgs, h⟩ := core_sendTo s conn msg
    obtain ⟨msgs', h'⟩ := core_notify msg rest (s.sendTo conn msg)
    exact ⟨msgs ++ msgs', by rw [List.foldl_cons, h', h, Core.logs_logs]⟩

theorem core_finishDecidedJob (s : Serve) (job : PendingJob) (decision : Decision) :
    ∃ msgs, (s.finishDecidedJob job decision).core = s.core.logs msgs := by
  unfold finishDecidedJob
  split
  · exact core_notify _ _ s
  · exact ⟨[], (Core.logs_nil _).symm⟩

/-- A decision is announced: sent messages, nothing more. -/
theorem core_announce (s : Serve) (job : PendingJob) (decision : Decision) :
    ∃ msgs, ((s.finishDecidedJob job decision).broadcast .betweenJobs).core = s.core.logs msgs := by
  obtain ⟨msgs, h⟩ := core_finishDecidedJob s job decision
  exact ⟨_, by rw [core_broadcast, h, Core.logs_logs]⟩

end Serve

/-! ## One lemma per block -/

section

variable {crypto : Crypto} {cfg : ServeConfig} {s : Serve} {a : Act}

theorem moves_self : Moves crypto cfg s a s.core := by
  have h : Moves crypto cfg s a (s.core.logs []) := .logs []
  rwa [Core.logs_nil] at h

theorem moves_sendTo (conn : Nat) (msg : ServerToClient) :
    Moves crypto cfg s a (s.sendTo conn msg).core := by
  obtain ⟨msgs, h⟩ := s.core_sendTo conn msg
  rw [h]
  exact .logs msgs

theorem moves_answer (cutOff : Bool) (conn : Nat) (msg : ServerToClient) :
    Moves crypto cfg s a (s.answer cutOff conn msg).core := by
  rcases s.core_answer cutOff conn msg with ⟨msgs, h⟩ | h
  · rw [h]
    exact .logs msgs
  · rw [h]
    exact .close conn

theorem moves_thread (t : ThreadStep) : Moves crypto cfg s (.thread t) (s.thread t).core := by
  cases t with
  | accept peerIp => exact .accept peerIp
  | hangUp conn => exact .close conn
  | reorder entries =>
    have hperm : (s.conns.reorder entries).entries.Perm s.conns.entries := by
      unfold Conns.reorder
      split
      next h => exact h
      next => exact List.Perm.refl _
    exact .reorder hperm
  | disk id file => exact moves_self

theorem moves_scan (found : Except String (Option QueuedJob)) (now : Nat) :
    Moves crypto cfg s a (s.scan cfg found now).core := by
  unfold Serve.scan
  split
  · exact .logs _
  · split
    · exact moves_self
    next hnone =>
      split
      · exact moves_self
      · exact moves_self
      · exact .queue _ _ _ _ _ (by simpa using hnone)

theorem moves_choose (draws : Nat → U64) : Moves crypto cfg s a (s.choose cfg draws).core := by
  unfold Serve.choose
  split
  · exact moves_self
  · split <;> exact moves_self

theorem moves_hold (selected : Selection) : Moves crypto cfg s a (s.hold selected).core := by
  unfold Serve.hold
  split <;> exact moves_self

theorem moves_assign {selected : Selection} {reserves : List String} (now : Nat)
    (hpc : s.pc = .assign selected reserves) :
    Moves crypto cfg s (.assign now) (s.assign selected reserves now).core := by
  unfold Serve.assign
  split
  · exact moves_self
  next job hjob => exact .round1 hpc hjob

theorem moves_finish (job : PendingJob) (zk replay : Option Decision) :
    Moves crypto cfg s a (s.finish job zk replay).core := by
  obtain ⟨msgs, h⟩ := s.core_announce job (job.decision zk replay)
  have hcore : (s.finish job zk replay).core = { s.core.logs msgs with pending := none } := by
    rw [← h]
    rfl
  rw [hcore]
  exact .finish msgs

theorem moves_checkComplete (now : Nat) (zk replay : Option Decision) :
    Moves crypto cfg s (.complete now zk replay) (s.checkComplete cfg now zk replay).core := by
  unfold Serve.checkComplete
  split
  · exact moves_self
  next job hjob =>
    split
    · exact moves_self
    next hdispatched =>
      split
      next hall =>
        split
        next hesc => exact .escalate hjob (by simpa using hdispatched) hall hesc.1 hesc.2
        next => exact moves_finish _ zk replay
      next =>
        split
        · exact moves_finish _ zk replay
        · exact moves_self

/-! ## One lemma per event -/

variable {host : Host} {now : Nat}

theorem moves_hello (hpc : s.pc = .events) (conn : Nat) (pubkey workerId : String)
    (port : Option Nat) (role : String) :
    Moves crypto cfg s (.event (.hello conn pubkey workerId port role) host now)
      (s.onHello cfg (List.ofFn host.nonce) conn pubkey workerId port role).core := by
  unfold Serve.onHello
  split
  · exact moves_self
  next x hx => exact .greet hpc hx

theorem moves_nonceSig (hpc : s.pc = .events) (conn : Nat) (sig : Option String)
    (powCounter : U64) :
    Moves crypto cfg s (.event (.nonceSig conn sig powCounter) host now)
      (s.onNonceSig crypto cfg conn sig powCounter).core := by
  unfold Serve.onNonceSig
  split
  · exact moves_self
  next x hx =>
    split
    next hok => exact .authenticate hpc hx hok
    next =>
      rw [Serve.core_send, Serve.core_send, Core.logs_logs]
      exact .logs _

/-- The handlers that can panic: whatever state they return is one move away. -/
def MovesIf (crypto : Crypto) (cfg : ServeConfig) (s : Serve) (a : Act) (r : Option Serve) : Prop :=
  ∀ s', r = some s' → Moves crypto cfg s a s'.core

theorem movesIf_none : MovesIf crypto cfg s a none := fun _ h => nomatch h

theorem movesIf_some {s' : Serve} (h : Moves crypto cfg s a s'.core) :
    MovesIf crypto cfg s a (some s') := by
  rintro _ ⟨⟩
  exact h

theorem movesIf_self : MovesIf crypto cfg s a (some s) := movesIf_some moves_self

/-- A check that drops the event: past it, the check is known to have passed. -/
theorem movesIf_guard {p : Prop} [Decidable p] {r : Option Serve}
    (h : ¬p → MovesIf crypto cfg s a r) : MovesIf crypto cfg s a (if p then some s else r) := by
  by_cases hp : p
  · rw [if_pos hp]
    exact movesIf_self
  · rw [if_neg hp]
    exact h hp

theorem movesIf_sendTo (conn : Nat) (msg : ServerToClient) :
    MovesIf crypto cfg s a (some (s.sendTo conn msg)) := movesIf_some (moves_sendTo conn msg)

theorem moves_blobRequest (conn : Nat) (id : String) :
    MovesIf crypto cfg s a (s.onBlobRequest crypto conn id) := by
  unfold Serve.onBlobRequest
  split
  · exact movesIf_self
  · split
    · exact movesIf_none
    · split
      · exact movesIf_some (.logs [_])
      · exact movesIf_none

theorem moves_result (hpc : s.pc = .events) (conn : Nat) (result : WorkerResult) :
    MovesIf crypto cfg s (.event (.result conn result) host now)
      (s.onResult crypto cfg conn result) := by
  unfold Serve.onResult
  split
  · exact movesIf_self
  next x hx =>
    refine movesIf_guard fun hauthed => ?_
    refine movesIf_guard fun hid => ?_
    refine movesIf_guard fun hkey => ?_
    split
    · exact movesIf_self
    next hsig =>
    unfold Serve.countResult
    split
    · exact movesIf_self
    next job hjob =>
    refine movesIf_guard fun hjobId => ?_
    refine movesIf_guard fun hdisp => ?_
    refine movesIf_guard fun hdup => ?_
    split
    · -- every check on the way is a field of what makes the result countable
      refine movesIf_some (.count hpc
        { live := hx
          authed := by simpa using hauthed
          sameId := not_not.mp hid
          key := by simpa using hkey
          signed := hsig
          pending := hjob
          jobId := not_not.mp hjobId
          dispatched := not_not.mp hdisp
          first := by simpa using hdup })
    · exact movesIf_none

theorem moves_submitProof (taskSent : Bool) (conn : Nat) {descriptor : JobDescriptor} :
    Moves crypto cfg s a (s.submitProof cfg taskSent now conn descriptor).core := by
  unfold Serve.submitProof
  split
  · exact moves_sendTo _ _
  · split
    · exact moves_self
    · obtain ⟨msgs, h⟩ := Serve.core_sendTo
        { s with proving := s.proving ++ [.proof cfg descriptor now conn] } conn
        (.submissionAck descriptor.jobId true none true)
      rw [h]
      exact .logs msgs

theorem moves_submitFile (landed : Bool) (conn : Nat) {descriptor : JobDescriptor} :
    Moves crypto cfg s a (s.submitFile landed conn descriptor).core := by
  unfold Serve.submitFile
  split
  · exact moves_self
  · obtain ⟨msgs, h⟩ := s.core_sendTo conn (.submissionAck descriptor.jobId true none false)
    have hmove : Moves crypto cfg s a { s.core.logs msgs with
        pending := s.pending.map fun job => job.subscribe descriptor.jobId conn } :=
      .subscribe msgs descriptor.jobId conn
    rw [← h] at hmove
    exact hmove

/-- However an upload ends, it is answered. -/
theorem core_storeUpload {s s' : Serve} {host : Host} {conn : Nat} {idHex bytesHex : String}
    (h : s.storeUpload crypto host conn idHex bytesHex = some s') :
    (∃ msgs, s'.core = s.core.logs msgs) ∨
    s'.core = { s.core with conns := s.conns.erase conn } := by
  have hack : ∀ accepted reason,
      some (s.answer host.cutOff conn (.blobAck idHex accepted reason)) = some s' →
        (∃ msgs, s'.core = s.core.logs msgs) ∨
        s'.core = { s.core with conns := s.conns.erase conn } := by
    rintro accepted reason ⟨⟩
    exact s.core_answer host.cutOff conn _
  unfold Serve.storeUpload at h
  split at h
  · exact hack _ _ h
  · split at h
    · exact hack _ _ h
    · split at h
      · exact hack _ _ h
      · split at h
        · exact hack _ _ h
        · split at h
          · exact hack _ _ h
          · split at h
            · cases h
              exact s.core_answer host.cutOff conn _
            · cases h

theorem erase_insert (conns : Conns) (conn : Nat) (x : Conn) :
    (conns.insert conn x).erase conn = conns.erase conn := by
  refine AList.ext ?_
  show List.kerase conn (conns.insert conn x).entries = List.kerase conn conns.entries
  rw [AList.entries_insert]
  exact List.kerase_cons_eq rfl

theorem moves_blobUpload (conn : Nat) (idHex bytesHex : String) :
    MovesIf crypto cfg s a (s.handleBlobUpload crypto host conn idHex bytesHex) := by
  unfold Serve.handleBlobUpload
  split
  · exact movesIf_self
  next x hx =>
    refine movesIf_guard fun _ => ?_
    split
    · exact movesIf_some (moves_answer _ _ _)
    · -- the upload is counted against the connection before it is looked at
      intro s' h
      rcases core_storeUpload h with ⟨msgs, hcore⟩ | hcore
      · rw [hcore]
        exact .upload msgs hx
      · rw [hcore, erase_insert]
        exact .close conn

theorem moves_jobSubmission (conn : Nat) (descriptor : JobDescriptor) (pubkeyHex sigHex : String)
    (requireZk : Bool) :
    MovesIf crypto cfg s a
      (s.handleJobSubmission crypto cfg host now conn descriptor pubkeyHex sigHex requireZk) := by
  unfold Serve.handleJobSubmission
  refine movesIf_guard fun _ => ?_
  split
  · exact movesIf_self
  · refine movesIf_guard fun _ => ?_
    refine movesIf_guard fun _ => ?_
    dsimp only
    split
    · exact movesIf_self
    · refine movesIf_guard fun _ => ?_
      -- the four answers of `checkBlobs`
      split
      · exact movesIf_none
      · exact movesIf_self
      · exact movesIf_sendTo _ _
      · split
        · exact movesIf_some (moves_submitProof _ _)
        · exact movesIf_some (moves_submitFile _ _)

theorem Claimable.claimed {conn : Nat} {workerId jobId pubkeyHex sigHex receiptHex : String}
    {job job' : PendingJob} {bytes : List U8}
    (h : Claimable crypto cfg s conn workerId jobId pubkeyHex sigHex receiptHex job bytes)
    (heq : job' = { job.attempted workerId with zkAccept := job'.zkAccept }) :
    Claimed workerId job job' :=
  { open_ := h.unsettled, dispatched := h.dispatched, fresh := h.fresh, eq := heq }

theorem moves_receiptClaim (receipt : Except String ReceiptOutcome) (conn : Nat)
    (workerId jobId pubkeyHex sigHex receiptHex : String) :
    MovesIf crypto cfg s a
      (s.onReceiptClaim crypto cfg receipt conn workerId jobId pubkeyHex sigHex receiptHex) := by
  refine receiptClaim_cases (P := fun _ f => MovesIf crypto cfg s a (f receipt)) movesIf_self ?_ ?_
  · intro job bytes hclaim
    exact movesIf_some (.claim hclaim.pending (hclaim.claimed rfl))
  · intro job bytes binding hclaim _ s' h
    obtain ⟨job', rfl, heq⟩ := answered_some h
    exact .claim hclaim.pending (hclaim.claimed heq)

theorem moves_proved (decision : Decision) :
    Moves crypto cfg s a (s.onProved decision).core := by
  unfold Serve.onProved
  split
  · exact moves_self
  next job rest _ =>
    obtain ⟨msgs, h⟩ := Serve.core_announce { s with proving := rest } job decision
    rw [h]
    exact .logs msgs

theorem moves_event (hpc : s.pc = .events) (e : Event) :
    MovesIf crypto cfg s (.event e host now) (s.onEvent crypto cfg host now e) := by
  cases e with
  | hello conn pubkey workerId port role =>
    exact movesIf_some (moves_hello hpc conn pubkey workerId port role)
  | nonceSig conn sig powCounter => exact movesIf_some (moves_nonceSig hpc conn sig powCounter)
  | jobSubmission conn submitter descriptor pubkeyHex sigHex requireZk =>
    exact moves_jobSubmission conn descriptor pubkeyHex sigHex requireZk
  | blobUpload conn idHex bytesHex => exact moves_blobUpload conn idHex bytesHex
  | receiptClaim conn workerId jobId pubkeyHex sigHex receiptHex =>
    exact moves_receiptClaim host.receipt conn workerId jobId pubkeyHex sigHex receiptHex
  | blobRequest conn id => exact moves_blobRequest conn id
  | result conn result => exact moves_result hpc conn result
  | closed conn => exact movesIf_some (.close conn)
  | proved decision => exact movesIf_some (moves_proved decision)

end

/-- Every step of the loop or of another thread is one of the moves. -/
theorem step_moves (crypto : Crypto) (cfg : ServeConfig) (s : Serve) (a : Act) :
    Moves crypto cfg s a (step crypto cfg s a).core := by
  -- an act whose block the loop is not at leaves the state as it is
  cases a with
  | thread t => exact moves_thread t
  | scan found now =>
    rw [step]
    split
    · exact moves_scan found now
    · exact moves_self
  | choose draws =>
    rw [step]
    split
    · exact moves_choose draws
    · exact moves_self
  | hold =>
    rw [step]
    split
    · exact moves_hold _
    · exact moves_self
  | assign now =>
    rw [step]
    split
    next hpc => exact moves_assign now hpc
    next => exact moves_self
  | complete now zk replay =>
    rw [step]
    split
    · exact moves_checkComplete now zk replay
    · exact moves_self
  | idle =>
    rw [step]
    split <;> exact moves_self
  | event e host now =>
    rw [step]
    split
    next hpc =>
      unfold Serve.handle
      split
      next => exact moves_self
      next s' hs' => exact moves_event hpc e s' hs'
    next => exact moves_self

/-! ## What a move means for one connection -/

/-- Where the record `y` that `conn` has after a move came from. -/
inductive ConnMoves (crypto : Crypto) (cfg : ServeConfig) (s : Serve) (conn : Nat) (k : Core) :
    Act → Conn → Prop
  | kept {a : Act} {x : Conn} (uploads : Nat) (hx : s.conns.lookup conn = some x) :
      ConnMoves crypto cfg s conn k a { x with uploads := uploads }
  | opened (peerIp : String) (hnew : conn = s.nextConn) :
      ConnMoves crypto cfg s conn k (.thread (.accept peerIp)) (Conn.new conn peerIp)
  | greeted {x : Conn} {pubkey workerId role : String} {port : Option Nat} {host : Host} {now : Nat}
      (hpc : s.pc = .events) (hx : s.conns.lookup conn = some x)
      (hsent : (conn, .nonce (hex (List.ofFn host.nonce)) cfg.identityPowBits) ∈ k.sent) :
      ConnMoves crypto cfg s conn k (.event (.hello conn pubkey workerId port role) host now)
        (x.greet (List.ofFn host.nonce) pubkey workerId port role)
  | admitted {x : Conn} {sig : Option String} {powCounter : U64} {host : Host} {now : Nat}
      (hpc : s.pc = .events) (hx : s.conns.lookup conn = some x)
      (hok : authOk crypto cfg x sig powCounter = true) :
      ConnMoves crypto cfg s conn k (.event (.nonceSig conn sig powCounter) host now)
        { x with authed := true }

section

variable {crypto : Crypto} {cfg : ServeConfig} {s : Serve} {a : Act} {k : Core}

/-- A record read back from an updated table is the one written or an old one. -/
theorem lookup_insert_cases {conns : Conns} {c conn : Nat} {x y : Conn}
    (h : (conns.insert c x).lookup conn = some y) :
    (conn = c ∧ y = x) ∨ conns.lookup conn = some y := by
  by_cases hc : conn = c
  · subst hc
    rw [AList.lookup_insert] at h
    exact Or.inl ⟨rfl, (Option.some.inj h).symm⟩
  · rw [AList.lookup_insert_ne hc] at h
    exact Or.inr h

theorem lookup_erase_some {conns : Conns} {c conn : Nat} {y : Conn}
    (h : (conns.erase c).lookup conn = some y) : conns.lookup conn = some y := by
  by_cases hc : conn = c
  · subst hc
    rw [AList.lookup_erase] at h
    cases h
  · rwa [AList.lookup_erase_ne hc] at h

theorem moves_conn (h : Moves crypto cfg s a k) {conn : Nat} {y : Conn}
    (hy : k.conns.lookup conn = some y) : ConnMoves crypto cfg s conn k a y := by
  have hkept : s.conns.lookup conn = some y → ConnMoves crypto cfg s conn k a y :=
    fun hold => .kept y.uploads hold
  -- only four moves write a record, and each writes one
  cases h with
  | accept peerIp =>
    rcases lookup_insert_cases hy with ⟨rfl, rfl⟩ | hold
    · exact .opened peerIp rfl
    · exact hkept hold
  | close c => exact hkept (lookup_erase_some hy)
  | reorder hperm => exact hkept ((AList.perm_lookup hperm).symm.trans hy)
  | greet hpc hx =>
    rcases lookup_insert_cases hy with ⟨rfl, rfl⟩ | hold
    · exact .greeted hpc hx (List.mem_append_right _ (List.mem_singleton_self _))
    · exact hkept hold
  | authenticate hpc hx hok =>
    rcases lookup_insert_cases hy with ⟨rfl, rfl⟩ | hold
    · exact .admitted hpc hx hok
    · exact hkept hold
  | upload msgs hx =>
    rcases lookup_insert_cases hy with ⟨rfl, rfl⟩ | hold
    · exact .kept _ hx
    · exact hkept hold
  | _ => exact hkept hy

/-- The assignments of a round: worker id, the connection found for it, hints. -/
def assignments (pick : String → Option Nat) (selected : Selection) :
    List (String × Nat × List String) :=
  selected.filterMap fun (wid, hints) => (pick wid).map fun conn => (wid, conn, hints)

/-- What a round of assignments writes, and what it sends. -/
theorem assignAll_eq (pick : String → Option Nat) : ∀ (selected : Selection) (job : PendingJob)
    (sent : List (Nat × ServerToClient)), assignAll pick selected job sent =
      ({ job with
          dispatchedIds := job.dispatchedIds ++ (assignments pick selected).map (·.1)
          trail := { job.trail with
            assigned := job.trail.assigned ++ (assignments pick selected).map (·.2.1) } },
        sent ++ (assignments pick selected).map fun x =>
        (x.2.1, .jobAssignment job.descriptor x.2.2)) := by
  intro selected
  induction selected with
  | nil =>
    intro job sent
    simp [assignAll, assignments]
  | cons head rest ih =>
    intro job sent
    obtain ⟨wid, hints⟩ := head
    rw [assignAll]
    cases hpick : pick wid with
    | none => simp only [ih, assignments, List.filterMap_cons, hpick, Option.map_none]
    | some conn =>
      simp only [ih, assignments, List.filterMap_cons, hpick, Option.map_some, List.map_cons,
        List.append_assoc, List.singleton_append]

/-- Nothing that was sent is taken back. -/
theorem assignAll_sent (pick : String → Option Nat) (selected : Selection) (job : PendingJob)
    (sent : List (Nat × ServerToClient)) : sent <+: (assignAll pick selected job sent).2 := by
  rw [assignAll_eq]
  exact List.prefix_append _ _

theorem moves_sent (h : Moves crypto cfg s a k) : s.sent <+: k.sent := by
  cases h with
  | logs msgs => exact List.prefix_append _ _
  | greet => exact List.prefix_append _ _
  | authenticate => exact List.prefix_append _ _
  | upload msgs => exact List.prefix_append _ _
  | round1 => exact assignAll_sent _ _ _ _
  | escalate => exact assignAll_sent _ _ _ _
  | finish msgs => exact List.prefix_append _ _
  | subscribe msgs => exact List.prefix_append _ _
  | _ => exact List.prefix_rfl

theorem moves_nextConn (hmove : Moves crypto cfg s a k) : s.nextConn ≤ k.nextConn := by
  cases hmove with
  | accept => exact Nat.le_succ _
  | _ => exact Nat.le_refl _

end

/-! ## What a move means for the pending job -/

/-- The worker id a connection bears, if it is open. -/
def Conns.idOf (conns : Conns) (conn : Nat) : Option String :=
  (conns.lookup conn).map (·.workerId)

/-- Equal in everything the votes depend on. -/
structure SameVotes (job job' : PendingJob) : Prop where
  descriptor : job'.descriptor = job.descriptor
  dispatchedIds : job'.dispatchedIds = job.dispatchedIds
  results : job'.results = job.results
  trail : job'.trail = job.trail

theorem lateJoiner_sameVotes (job : PendingJob) (wid : String) :
    SameVotes job (job.lateJoiner wid) := by
  unfold PendingJob.lateJoiner
  split <;> exact ⟨rfl, rfl, rfl, rfl⟩

theorem subscribe_sameVotes (job : PendingJob) (jobId : String) (conn : Nat) :
    SameVotes job (job.subscribe jobId conn) := by
  unfold PendingJob.subscribe
  split <;> exact ⟨rfl, rfl, rfl, rfl⟩

theorem Claimed.sameVotes {workerId : String} {job job' : PendingJob}
    (h : Claimed workerId job job') : SameVotes job job' := by
  rw [h.eq]
  exact ⟨rfl, rfl, rfl, rfl⟩

/-- Where the job that is pending after a move came from. -/
inductive JobMoves (crypto : Crypto) (cfg : ServeConfig) (s : Serve) (k : Core) :
    Act → PendingJob → Prop
  | kept {a : Act} {job job' : PendingJob} (hjob : s.pending = some job) (h : SameVotes job job') :
      JobMoves crypto cfg s k a job'
  | queued {a : Act} (descriptor : JobDescriptor) (targets : Option (List String)) (path : String)
      (now : Nat) (subscribers : List Nat) :
      JobMoves crypto cfg s k a (.queued descriptor targets path now subscribers)
  /-- A round of assignments, in either of the two ways to find a worker. -/
  | round {job job₁ job' : PendingJob} {a : Act} {pick : String → Option Nat} {selected : Selection}
      (hjob : s.pending = some job) (hstart : SameVotes job job₁)
      (hpick : ∀ wid conn, pick wid = some conn → s.conns.idOf conn = some wid)
      (hconns : k.conns = s.conns) (hnext : k.nextConn = s.nextConn)
      (hsent : k.sent = (assignAll pick selected job₁ s.sent).2)
      (hend : SameVotes (assignAll pick selected job₁ s.sent).1 job') :
      JobMoves crypto cfg s k a job'
  | counted {conn : Nat} {x : Conn} {result : WorkerResult} {job : PendingJob} {host : Host}
      {now : Nat} (h : Countable crypto cfg s conn x result job) (hconns : k.conns = s.conns)
      (hnext : k.nextConn = s.nextConn) (hsent : k.sent = s.sent) :
      JobMoves crypto cfg s k (.event (.result conn result) host now)
        { job with
          results := job.results ++ [result]
          trail := { job.trail with origins := job.trail.origins ++ [conn] } }

section

variable {crypto : Crypto} {cfg : ServeConfig} {s : Serve} {a : Act} {k : Core}

theorem idOf_eq_some {conns : Conns} {conn : Nat} {wid : String} :
    conns.idOf conn = some wid ↔ ∃ x, conns.lookup conn = some x ∧ x.workerId = wid :=
  Option.map_eq_some_iff

theorem bearer_idOf {conns : Conns} {wid : String} {conn : Nat} (p : Conn → Bool)
    (h : (conns.entries.find? fun e => e.2.workerId = wid && p e.2).map Sigma.fst = some conn) :
    conns.idOf conn = some wid := by
  obtain ⟨e, he, rfl⟩ := Option.map_eq_some_iff.mp h
  have hmem := List.mem_of_find?_eq_some he
  have hwid := List.find?_some he
  rw [Bool.and_eq_true, decide_eq_true_eq] at hwid
  exact idOf_eq_some.mpr ⟨e.2, AList.mem_lookup_iff.mpr hmem, hwid.1⟩

theorem Conns.bearer_bears (conns : Conns) (wid : String) (conn : Nat)
    (h : conns.bearer wid = some conn) : conns.idOf conn = some wid :=
  bearer_idOf (fun _ => true) (by simpa [Conns.bearer] using h)

theorem Conns.authedBearer_bears (conns : Conns) (wid : String) (conn : Nat)
    (h : conns.authedBearer wid = some conn) : conns.idOf conn = some wid :=
  bearer_idOf Conn.authed h

theorem moves_job (h : Moves crypto cfg s a k) {job' : PendingJob} (hjob' : k.pending = some job') :
    JobMoves crypto cfg s k a job' := by
  -- the moves not named here do not write the pending slot
  cases h with
  | authenticate hpc hx hok =>
    obtain ⟨job, hjob, rfl⟩ := Option.map_eq_some_iff.mp hjob'
    exact .kept hjob (lateJoiner_sameVotes job _)
  | subscribe msgs jobId conn =>
    obtain ⟨job, hjob, rfl⟩ := Option.map_eq_some_iff.mp hjob'
    exact .kept hjob (subscribe_sameVotes job jobId conn)
  | claim hjob hclaimed =>
    cases hjob'
    exact .kept hjob hclaimed.sameVotes
  | queue descriptor targets path now subscribers hnone =>
    cases hjob'
    exact .queued descriptor targets path now subscribers
  | finish msgs => cases hjob'
  | @round1 job selected reserves now hpc hjob =>
    cases hjob'
    exact .round hjob ⟨rfl, rfl, rfl, rfl⟩ s.conns.bearer_bears rfl rfl rfl ⟨rfl, rfl, rfl, rfl⟩
  | @escalate job now zk replay hjob hdispatched hall hdecide hreserves =>
    cases hjob'
    have hstart : SameVotes job { job with reserves := [] } := ⟨rfl, rfl, rfl, rfl⟩
    exact .round hjob hstart s.conns.authedBearer_bears rfl rfl rfl ⟨rfl, rfl, rfl, rfl⟩
  | count hpc hc =>
    cases hjob'
    exact .counted hc rfl rfl rfl
  | _ => exact .kept hjob' ⟨rfl, rfl, rfl, rfl⟩

end

end Provework.Coordinator
