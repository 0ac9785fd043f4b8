import Provework.Coordinator.Moves

/-!
# How one step deals with jobs and their submitters

`Books` is the part of the state that decides which submitter hears of which
job: what is pending or being proved and who waits for it, the subscriptions of
jobs not yet scanned, the finished jobs, and what was sent. `Deals` lists the
ways one act can change it and `step_deals` says that there are no others; most
acts are `quiet`, they only send messages that answer no submission. It is the
companion of `Moves`, which is about connections and votes.
-/

namespace Provework.Coordinator

open Provework.Lib Provework.Jobfmt Provework.Contentstore Provework.Wire

/-- What its submitters depend on in the pending job. -/
structure Slot where
  descriptor : JobDescriptor
  path : String
  subscribers : List Nat

def PendingJob.slot (job : PendingJob) : Slot := ⟨job.descriptor, job.path, job.subscribers⟩

def Slot.subscribe (slot : Slot) (jobId : String) (conn : Nat) : Slot :=
  if slot.descriptor.jobId = jobId ∧ conn ∉ slot.subscribers then
    { slot with subscribers := slot.subscribers ++ [conn] }
  else slot

structure Books where
  slot : Option Slot
  submitterSubs : AList fun _ : String => List Nat
  proving : List PendingJob
  outcomes : List JobOutcome
  sent : List (Nat × ServerToClient)

def Serve.books (s : Serve) : Books :=
  ⟨s.pending.map PendingJob.slot, s.submitterSubs, s.proving, s.outcomes, s.sent⟩

/-- A decision is made now: every dispatched worker has answered or a receipt was
accepted, and there is nobody to escalate to; or the time is up. -/
def PendingJob.completes (cfg : ServeConfig) (now : Nat) (job : PendingJob) : Bool :=
  job.dispatched &&
    if job.allIn then
      !(Quorum.decide job.results job.dispatchedIds.length = .escalate ∧ job.reserves ≠ [])
    else cfg.perJobDeadline < now - job.started

/-- The entry a job leaves when it is decided. -/
def PendingJob.outcome (job : PendingJob) (decision : Decision) : JobOutcome :=
  { jobId := job.descriptor.jobId
    decision := decision
    results := job.results
    bondDeltas := slashing decision job.results }

/-- The notices of a decision: one for each subscriber that is still there, and
only if the job is accepted. -/
def Serve.notices (s : Serve) (job : PendingJob) : Decision → List (Nat × ServerToClient)
  | .accept hash outputHex agreed zk =>
    (job.subscribers.filter (· ∈ s.conns)).map fun conn =>
      (conn, .jobOutcome job.descriptor.jobId hash agreed outputHex zk none)
  | _ => []

/-- A message that answers a submission: it is accepted, or decided. -/
def answers : ServerToClient → Bool
  | .jobOutcome _ _ _ _ _ _ => true
  | .submissionAck _ accepted _ _ => accepted
  | _ => false

/-- The books after a decision on `job` was announced. -/
def Serve.announced (s : Serve) (job : PendingJob) (decision : Decision) : Books :=
  { s.books with
    outcomes := s.outcomes ++ [job.outcome decision]
    sent := s.sent ++ s.notices job decision ++ s.conns.keys.map fun conn => (conn, .betweenJobs) }

inductive Deals (cfg : ServeConfig) (s : Serve) : Act → Books → Prop
  | quiet {a : Act} (msgs : List (Nat × ServerToClient)) (h : ∀ m ∈ msgs, answers m.2 = false) :
      Deals cfg s a { s.books with sent := s.sent ++ msgs }
  | take {descriptor : JobDescriptor} {targets : Option (List String)} {path : String} {now : Nat}
      (hpc : s.pc = .top) (hnone : s.pending = none) :
      Deals cfg s (.scan (.ok (some (descriptor, targets, path))) now)
        { s.books with
          slot := some ⟨descriptor, path, (s.submitterSubs.lookup descriptor.jobId).getD []⟩
          submitterSubs := s.submitterSubs.erase descriptor.jobId }
  | file {conn : Nat} {submitter pubkeyHex sigHex : String} {descriptor : JobDescriptor}
      {host : Host} {now : Nat} (hpc : s.pc = .events) (hopen : conn ∈ s.conns)
      (hlanded : host.landed = true) :
      Deals cfg s
        (.event (.jobSubmission conn submitter descriptor pubkeyHex sigHex false) host now)
        { s.books with
          slot := s.books.slot.map fun slot => slot.subscribe descriptor.jobId conn
          submitterSubs := s.submitterSubs.insert descriptor.jobId
            ((s.submitterSubs.lookup descriptor.jobId).getD [] ++ [conn])
          sent := s.sent ++ [(conn, .submissionAck descriptor.jobId true none false)] }
  | prove {conn : Nat} {submitter pubkeyHex sigHex : String} {descriptor : JobDescriptor}
      {host : Host} {now : Nat} (hopen : conn ∈ s.conns) :
      Deals cfg s (.event (.jobSubmission conn submitter descriptor pubkeyHex sigHex true) host now)
        { s.books with
          proving := s.proving ++ [.proof cfg descriptor now conn]
          sent := s.sent ++ [(conn, .submissionAck descriptor.jobId true none true)] }
  | finish {job : PendingJob} {now : Nat} {zk replay : Option Decision} (hpc : s.pc = .complete)
      (hjob : s.pending = some job) (hdone : job.completes cfg now = true) :
      Deals cfg s (.complete now zk replay)
        { s.announced job (job.decision zk replay) with slot := none }
  | proved {job : PendingJob} {rest : List PendingJob} {decision : Decision} {host : Host}
      {now : Nat} (hpc : s.pc = .events) (hproving : s.proving = job :: rest) :
      Deals cfg s (.event (.proved decision) host now)
        { s.announced job decision with proving := rest }

/-! ## Sending -/

namespace Serve

theorem sendTo_of_mem {s : Serve} {conn : Nat} (h : conn ∈ s.conns) (msg : ServerToClient) :
    s.sendTo conn msg = s.send conn msg := if_pos h

/-- Telling a list of connections reaches those that are there. -/
theorem notify_eq (msg : ServerToClient) : ∀ (subscribers : List Nat) (s : Serve),
    subscribers.foldl (fun s conn => s.sendTo conn msg) s =
      { s with
        sent := s.sent ++ (subscribers.filter (· ∈ s.conns)).map fun conn => (conn, msg) } := by
  intro subscribers
  induction subscribers with
  | nil =>
    intro s
    simp
  | cons conn rest ih =>
    intro s
    rw [List.foldl_cons, ih]
    by_cases hopen : conn ∈ s.conns
    · simp [sendTo_of_mem hopen, send, hopen]
    · simp [sendTo, hopen]

theorem finishDecidedJob_eq (s : Serve) (job : PendingJob) (decision : Decision) :
    s.finishDecidedJob job decision =
      { s with
        sent := s.sent ++ s.notices job decision
        outcomes := s.outcomes ++ [job.outcome decision]
        jobsDone := s.jobsDone + 1 } := by
  cases decision with
  | accept hash outputHex agreed zk =>
    rw [finishDecidedJob]
    dsimp only
    rw [notify_eq]
    rfl
  | escalate => simp [finishDecidedJob, notices, PendingJob.outcome]
  | reject reason => simp [finishDecidedJob, notices, PendingJob.outcome]

/-- Announcing a decision fills in the books. -/
theorem books_announce (s : Serve) (job : PendingJob) (decision : Decision) :
    ((s.finishDecidedJob job decision).broadcast .betweenJobs).books
      = s.announced job decision := by
  rw [finishDecidedJob_eq]
  rfl

end Serve

/-- Nothing but messages that answer no submission. -/
def Quiet (s s' : Serve) : Prop :=
  ∃ msgs, (∀ m ∈ msgs, answers m.2 = false) ∧ s'.books = { s.books with sent := s.sent ++ msgs }

namespace Quiet

variable {s s' s'' : Serve}

theorem of_books (h : s'.books = s.books) : Quiet s s' :=
  ⟨[], by simp, by rw [h, List.append_nil]; rfl⟩

theorem refl : Quiet s s := of_books rfl

theorem send {conn : Nat} {msg : ServerToClient} (h : answers msg = false) :
    Quiet s (s.send conn msg) :=
  ⟨[(conn, msg)], by simpa using h, rfl⟩

theorem sendTo {conn : Nat} {msg : ServerToClient} (h : answers msg = false) :
    Quiet s (s.sendTo conn msg) := by
  unfold Serve.sendTo
  split
  · exact send h
  · exact refl

theorem answer {cutOff : Bool} {conn : Nat} {msg : ServerToClient} (h : answers msg = false) :
    Quiet s (s.answer cutOff conn msg) := by
  unfold Serve.answer
  split
  · exact of_books rfl
  · exact sendTo h

theorem trans (h : Quiet s s') (h' : Quiet s' s'') : Quiet s s'' := by
  obtain ⟨msgs, hmsgs, hbooks⟩ := h
  obtain ⟨msgs', hmsgs', hbooks'⟩ := h'
  have hsent : s'.sent = s.sent ++ msgs := congrArg Books.sent hbooks
  refine ⟨msgs ++ msgs', ?_, ?_⟩
  · intro m hm
    rcases List.mem_append.mp hm with hm | hm
    · exact hmsgs m hm
    · exact hmsgs' m hm
  · rw [hbooks', hbooks, hsent, List.append_assoc]

theorem deals {cfg : ServeConfig} {a : Act} (h : Quiet s s') : Deals cfg s a s'.books := by
  obtain ⟨msgs, hmsgs, hbooks⟩ := h
  rw [hbooks]
  exact .quiet msgs hmsgs

end Quiet

/-! ## The blocks of the loop -/

section

variable {crypto : Crypto} {cfg : ServeConfig} {s : Serve} {a : Act}

theorem quiet_thread (t : ThreadStep) : Quiet s (s.thread t) := by
  cases t <;> exact .refl

theorem deals_scan (found : Except String (Option QueuedJob)) (now : Nat) (hpc : s.pc = .top) :
    Deals cfg s (.scan found now) (s.scan cfg found now).books := by
  unfold Serve.scan
  split
  · refine .quiet (s.conns.keys.map fun conn => (conn, _)) ?_
    intro m hm
    obtain ⟨conn, -, rfl⟩ := List.mem_map.mp hm
    rfl
  · split
    · exact Quiet.refl.deals
    next hnone =>
      split
      · exact Quiet.refl.deals
      · exact Quiet.refl.deals
      · exact .take hpc (by simpa using hnone)

theorem quiet_choose (draws : Nat → U64) : Quiet s (s.choose cfg draws) := by
  unfold Serve.choose
  split
  · exact .refl
  · split <;> exact .refl

theorem quiet_hold (selected : Selection) : Quiet s (s.hold selected) := by
  unfold Serve.hold
  split <;> exact .refl

/-- Assignments touch neither the slot of the job nor a submitter. -/
theorem assignAll_quiet (pick : String → Option Nat) (selected : Selection) (job : PendingJob)
    (sent : List (Nat × ServerToClient)) :
    (assignAll pick selected job sent).1.slot = job.slot ∧
      ∃ msgs, (∀ m ∈ msgs, answers m.2 = false) ∧
        (assignAll pick selected job sent).2 = sent ++ msgs := by
  rw [assignAll_eq]
  refine ⟨rfl, _, ?_, rfl⟩
  intro m hm
  obtain ⟨x, -, rfl⟩ := List.mem_map.mp hm
  rfl

/-- A round of assignments, whatever else it notes in the job. -/
theorem quiet_round {job job₁ job' : PendingJob} (pick : String → Option Nat) (selected : Selection)
    (hjob : s.pending = some job) (hstart : job₁.slot = job.slot)
    (hend : job'.slot = (assignAll pick selected job₁ s.sent).1.slot) (pc : Pc) :
    Quiet s { s with
      pending := some job'
      sent := (assignAll pick selected job₁ s.sent).2
      pc := pc } := by
  obtain ⟨hslot, msgs, hmsgs, hsent⟩ := assignAll_quiet pick selected job₁ s.sent
  refine ⟨msgs, hmsgs, ?_⟩
  simp only [Serve.books, hjob, Option.map_some, hend, hslot, hstart, hsent]

theorem quiet_assign (selected : Selection) (reserves : List String) (now : Nat) :
    Quiet s (s.assign selected reserves now) := by
  unfold Serve.assign
  split
  · exact .refl
  next job hjob => exact quiet_round s.conns.bearer selected hjob rfl rfl .complete

theorem quiet_escalate {job : PendingJob} (now : Nat) (hjob : s.pending = some job) :
    Quiet s (s.escalate job now) := by
  have hstart : ({ job with reserves := [] } : PendingJob).slot = job.slot := rfl
  exact quiet_round s.conns.authedBearer (job.reserves.map fun wid => (wid, s.conns.peerHints wid))
    hjob hstart rfl .top

theorem deals_finish {job : PendingJob} {now : Nat} {zk replay : Option Decision}
    (hpc : s.pc = .complete) (hjob : s.pending = some job) (hdone : job.completes cfg now = true) :
    Deals cfg s (.complete now zk replay) (s.finish job.finished zk replay).books := by
  have hbooks : (s.finish job.finished zk replay).books =
      { s.announced job (job.decision zk replay) with slot := none } := by
    rw [show job.decision zk replay = job.finished.decision zk replay from rfl]
    have h := s.books_announce job.finished (job.finished.decision zk replay)
    have hsame : s.announced job.finished (job.finished.decision zk replay) =
        s.announced job (job.finished.decision zk replay) := by
      cases job.finished.decision zk replay <;> rfl
    rw [← hsame, ← h]
    rfl
  rw [hbooks]
  exact .finish hpc hjob hdone

theorem deals_checkComplete (now : Nat) (zk replay : Option Decision) (hpc : s.pc = .complete) :
    Deals cfg s (.complete now zk replay) (s.checkComplete cfg now zk replay).books := by
  unfold Serve.checkComplete
  split
  · exact Quiet.refl.deals
  next job hjob =>
    split
    · exact Quiet.refl.deals
    next hdispatched =>
      split
      next hall =>
        split
        · exact (quiet_escalate now hjob).deals
        next hsettled =>
          exact deals_finish hpc hjob
            (by simpa [PendingJob.completes, hall, hsettled] using hdispatched)
      next hall =>
        split
        next hlate =>
          exact deals_finish hpc hjob
            (by simpa [PendingJob.completes, hall, hlate] using hdispatched)
        next => exact Quiet.refl.deals

/-! ## The events -/

theorem quiet_hello (nonce : List U8) (conn : Nat) (pubkey workerId : String) (port : Option Nat)
    (role : String) : Quiet s (s.onHello cfg nonce conn pubkey workerId port role) := by
  unfold Serve.onHello
  split
  · exact .refl
  · exact ⟨[(conn, _)], by simp [answers], rfl⟩

theorem slot_lateJoiner (job : PendingJob) (wid : String) :
    (job.lateJoiner wid).slot = job.slot := by
  unfold PendingJob.lateJoiner
  split <;> rfl

theorem slot_subscribe (job : PendingJob) (jobId : String) (conn : Nat) :
    (job.subscribe jobId conn).slot = job.slot.subscribe jobId conn := by
  unfold PendingJob.subscribe Slot.subscribe
  split
  next h => exact (if_pos h).symm
  next h => exact (if_neg h).symm

theorem quiet_nonceSig (conn : Nat) (sig : Option String) (powCounter : U64) :
    Quiet s (s.onNonceSig crypto cfg conn sig powCounter) := by
  unfold Serve.onNonceSig
  split
  · exact .refl
  next x _ =>
    split
    · refine ⟨[(conn, .authOk x.workerId)], by simp [answers], ?_⟩
      have hslot : (s.pending.map fun job => job.lateJoiner x.workerId).map PendingJob.slot =
          s.pending.map PendingJob.slot := by
        rw [Option.map_map]
        exact congrArg (Option.map · s.pending) (funext fun job => slot_lateJoiner job x.workerId)
      simp only [Serve.send, Serve.books, hslot]
    · exact (Quiet.send rfl).trans (Quiet.send rfl)

/-- Whatever state a handler that can panic returns. -/
def Returns (P : Serve → Prop) (r : Option Serve) : Prop := ∀ s', r = some s' → P s'

section

variable {P : Serve → Prop}

theorem returns_none : Returns P none := fun _ h => nomatch h

theorem returns_some {s' : Serve} (h : P s') : Returns P (some s') := by
  rintro _ ⟨⟩
  exact h

/-- A check that drops the event. -/
theorem returns_guard {p : Prop} [Decidable p] {r : Option Serve} (hs : P s)
    (h : ¬p → Returns P r) : Returns P (if p then some s else r) := by
  by_cases hp : p
  · rw [if_pos hp]
    exact returns_some hs
  · rw [if_neg hp]
    exact h hp

end

theorem quiet_blobRequest (conn : Nat) (id : String) :
    Returns (Quiet s) (s.onBlobRequest crypto conn id) := by
  unfold Serve.onBlobRequest
  split
  · exact returns_some .refl
  · split
    · exact returns_none
    · split
      · exact returns_some (.send rfl)
      · exact returns_none

theorem quiet_result (conn : Nat) (result : WorkerResult) :
    Returns (Quiet s) (s.onResult crypto cfg conn result) := by
  unfold Serve.onResult
  split
  · exact returns_some .refl
  · refine returns_guard .refl fun _ => ?_
    refine returns_guard .refl fun _ => ?_
    refine returns_guard .refl fun _ => ?_
    split
    · exact returns_some .refl
    · unfold Serve.countResult
      split
      · exact returns_some .refl
      next job hjob =>
        refine returns_guard .refl fun _ => ?_
        refine returns_guard .refl fun _ => ?_
        refine returns_guard .refl fun _ => ?_
        split
        · refine returns_some (.of_books ?_)
          simp only [Serve.books, hjob, Option.map_some, PendingJob.slot]
        · exact returns_none

theorem quiet_storeUpload (host : Host) (conn : Nat) (idHex bytesHex : String) :
    Returns (Quiet s) (s.storeUpload crypto host conn idHex bytesHex) := by
  have hack : ∀ accepted reason,
      Returns (Quiet s) (some (s.answer host.cutOff conn (.blobAck idHex accepted reason))) :=
    fun _ _ => returns_some (.answer rfl)
  unfold Serve.storeUpload
  dsimp only
  split
  · exact hack _ _
  · split
    · exact hack _ _
    · split
      · exact hack _ _
      · split
        · exact hack _ _
        · split
          · exact hack _ _
          · split
            · exact returns_some ((Quiet.answer rfl).trans (.of_books rfl))
            · exact returns_none

theorem quiet_blobUpload (host : Host) (conn : Nat) (idHex bytesHex : String) :
    Returns (Quiet s) (s.handleBlobUpload crypto host conn idHex bytesHex) := by
  unfold Serve.handleBlobUpload
  split
  · exact returns_some .refl
  · refine returns_guard .refl fun _ => ?_
    split
    · exact returns_some (.answer rfl)
    · have hcharged : ∀ s₁ : Serve, s₁.books = s.books →
          Returns (Quiet s) (s₁.storeUpload crypto host conn idHex bytesHex) :=
        fun s₁ h s' hs' =>
          (Quiet.of_books h).trans (quiet_storeUpload host conn idHex bytesHex s' hs')
      exact hcharged _ rfl

theorem quiet_receiptClaim (receipt : Except String ReceiptOutcome) (conn : Nat)
    (workerId jobId pubkeyHex sigHex receiptHex : String) :
    Returns (Quiet s)
      (s.onReceiptClaim crypto cfg receipt conn workerId jobId pubkeyHex sigHex receiptHex) := by
  -- neither the attempt nor the verdict is in the books
  have hkept : ∀ job job' : PendingJob, s.pending = some job → job'.slot = job.slot →
      Quiet s { s with pending := some job' } := fun job job' hjob hslot =>
    .of_books (by simp only [Serve.books, hjob, Option.map_some, hslot])
  refine receiptClaim_cases (P := fun _ f => Returns (Quiet s) (f receipt))
    (returns_some .refl) ?_ ?_
  · intro job bytes hclaim
    exact returns_some (hkept job _ hclaim.pending rfl)
  · intro job bytes binding hclaim _ s' h
    obtain ⟨job', rfl, heq⟩ := answered_some h
    refine hkept job job' hclaim.pending ?_
    rw [heq]
    rfl

section

variable {conn : Nat} {submitter pubkeyHex sigHex : String} {descriptor : JobDescriptor}
  {host : Host}
  {now : Nat}

theorem deals_submitProof (hopen : conn ∈ s.conns) (taskSent : Bool) :
    Deals cfg s (.event (.jobSubmission conn submitter descriptor pubkeyHex sigHex true) host now)
      (s.submitProof cfg taskSent now conn descriptor).books := by
  unfold Serve.submitProof
  split
  · exact (Quiet.sendTo rfl).deals
  · split
    · exact Quiet.refl.deals
    · let queued : Serve := { s with proving := s.proving ++ [.proof cfg descriptor now conn] }
      have hqueued : conn ∈ queued.conns := hopen
      dsimp only
      rw [Serve.sendTo_of_mem hqueued]
      exact .prove hopen

theorem deals_submitFile (hpc : s.pc = .events) (hopen : conn ∈ s.conns) :
    Deals cfg s (.event (.jobSubmission conn submitter descriptor pubkeyHex sigHex false) host now)
      (s.submitFile host.landed conn descriptor).books := by
  unfold Serve.submitFile
  split
  · exact Quiet.refl.deals
  next hlanded =>
    have hslot :
        (s.pending.map fun job => job.subscribe descriptor.jobId conn).map PendingJob.slot
          = s.books.slot.map fun slot => slot.subscribe descriptor.jobId conn := by
      rw [Serve.books, Option.map_map, Option.map_map]
      exact congrArg (Option.map · s.pending)
        (funext fun job => slot_subscribe job descriptor.jobId conn)
    dsimp only
    rw [Serve.sendTo_of_mem hopen, Serve.books, hslot]
    exact .file hpc hopen (by simpa using hlanded)

theorem deals_jobSubmission (hpc : s.pc = .events) (requireZk : Bool) :
    Returns
      (fun s' => Deals cfg s
        (.event (.jobSubmission conn submitter descriptor pubkeyHex sigHex requireZk) host now)
          s'.books)
      (s.handleJobSubmission crypto cfg host now conn descriptor pubkeyHex sigHex requireZk) := by
  unfold Serve.handleJobSubmission
  refine returns_guard Quiet.refl.deals fun _ => ?_
  split
  · exact returns_some Quiet.refl.deals
  next c hc =>
    have hopen : conn ∈ s.conns := AList.lookup_isSome.mp (by rw [hc]; rfl)
    refine returns_guard Quiet.refl.deals fun _ => ?_
    refine returns_guard Quiet.refl.deals fun _ => ?_
    dsimp only
    split
    · exact returns_some Quiet.refl.deals
    · refine returns_guard Quiet.refl.deals fun _ => ?_
      -- the four answers of `checkBlobs`
      split
      · exact returns_none
      · exact returns_some Quiet.refl.deals
      · exact returns_some (Quiet.sendTo rfl).deals
      · cases requireZk with
        | true => exact returns_some (deals_submitProof hopen host.taskSent)
        | false => exact returns_some (deals_submitFile hpc hopen)

end

theorem deals_proved {decision : Decision} {host : Host} {now : Nat} (hpc : s.pc = .events) :
    Deals cfg s (.event (.proved decision) host now) (s.onProved decision).books := by
  unfold Serve.onProved
  split
  · exact Quiet.refl.deals
  next job rest hproving =>
    rw [Serve.books_announce]
    exact .proved hpc hproving

theorem deals_event {host : Host} {now : Nat} (hpc : s.pc = .events) (e : Event) :
    Returns (fun s' => Deals cfg s (.event e host now) s'.books)
      (s.onEvent crypto cfg host now e) := by
  have hquiet : ∀ r, Returns (Quiet s) r →
      Returns (fun s' => Deals cfg s (.event e host now) s'.books) r :=
    fun _ h s' hs' => (h s' hs').deals
  cases e with
  | hello conn pubkey workerId port role => exact returns_some (quiet_hello ..).deals
  | nonceSig conn sig powCounter => exact returns_some (quiet_nonceSig ..).deals
  | jobSubmission conn submitter descriptor pubkeyHex sigHex requireZk =>
    exact deals_jobSubmission hpc requireZk
  | blobUpload conn idHex bytesHex => exact hquiet _ (quiet_blobUpload host conn idHex bytesHex)
  | receiptClaim conn workerId jobId pubkeyHex sigHex receiptHex =>
    exact hquiet _ (quiet_receiptClaim host.receipt conn workerId jobId pubkeyHex sigHex receiptHex)
  | blobRequest conn id => exact hquiet _ (quiet_blobRequest conn id)
  | result conn result => exact hquiet _ (quiet_result conn result)
  | closed conn => exact returns_some Quiet.refl.deals
  | proved decision => exact returns_some (deals_proved hpc)

end

/-- Every step deals with the books in one of these ways. -/
theorem step_deals (crypto : Crypto) (cfg : ServeConfig) (s : Serve) (a : Act) :
    Deals cfg s a (step crypto cfg s a).books := by
  cases a with
  | thread t => exact (quiet_thread t).deals
  | scan found now =>
    rw [step]
    split
    next hpc => exact deals_scan found now hpc
    next => exact Quiet.refl.deals
  | choose draws =>
    rw [step]
    split
    · exact (quiet_choose draws).deals
    · exact Quiet.refl.deals
  | hold =>
    rw [step]
    split
    · exact (quiet_hold _).deals
    · exact Quiet.refl.deals
  | assign now =>
    rw [step]
    split
    · exact (quiet_assign _ _ now).deals
    · exact Quiet.refl.deals
  | complete now zk replay =>
    rw [step]
    split
    next hpc => exact deals_checkComplete now zk replay hpc
    next => exact Quiet.refl.deals
  | idle =>
    rw [step]
    split <;> exact Quiet.refl.deals
  | event e host now =>
    rw [step]
    split
    next hpc =>
      unfold Serve.handle
      split
      · exact Quiet.refl.deals
      next s' hs' => exact deals_event hpc e s' hs'
    next => exact Quiet.refl.deals

/-! ## What a step means for the finished jobs -/

section

variable {crypto : Crypto} {cfg : ServeConfig} {s : Serve} {a : Act}

/-- An outcome is entered when the pending job is decided, or the oldest proof
is there. -/
theorem step_outcomes (crypto : Crypto) (cfg : ServeConfig) (s : Serve) (a : Act) :
    (step crypto cfg s a).outcomes = s.outcomes ∨
      ∃ job decision, (step crypto cfg s a).outcomes = s.outcomes ++ [job.outcome decision] ∧
        (s.pending = some job ∨ job ∈ s.proving) := by
  have hdeals := step_deals crypto cfg s a
  generalize hbooks : (step crypto cfg s a).books = books at hdeals
  have houtcomes : (step crypto cfg s a).outcomes = books.outcomes := congrArg Books.outcomes hbooks
  rw [houtcomes]
  cases hdeals with
  | finish hpc hjob hdone => exact Or.inr ⟨_, _, rfl, Or.inl hjob⟩
  | proved hpc hproving => exact Or.inr ⟨_, _, rfl, Or.inr (hproving ▸ List.mem_cons_self)⟩
  | _ => exact Or.inl rfl

theorem step_proving {job : PendingJob} (h : job ∈ (step crypto cfg s a).proving) :
    job ∈ s.proving ∨ ∃ descriptor now conn, job = .proof cfg descriptor now conn := by
  have hdeals := step_deals crypto cfg s a
  generalize hbooks : (step crypto cfg s a).books = books at hdeals
  have hproving : (step crypto cfg s a).proving = books.proving := congrArg Books.proving hbooks
  rw [hproving] at h
  cases hdeals with
  | prove =>
    rcases List.mem_append.mp h with h | h
    · exact Or.inl h
    · exact Or.inr ⟨_, _, _, List.mem_singleton.mp h⟩
  | proved hpc heq => exact Or.inl (heq ▸ List.mem_cons_of_mem _ h)
  | _ => exact Or.inl h

end

end Provework.Coordinator
