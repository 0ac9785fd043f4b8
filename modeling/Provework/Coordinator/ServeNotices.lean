import Mathlib.Data.List.Forall2
import Provework.Coordinator.Deals
import Provework.Coordinator.ServeVotes

/-!
# Who hears of a decision

A submission is taken on by its acknowledgement; from then on its connection
waits, for a file in the jobs directory, for the pending job, or for a proof.
`Desk` keeps that account from the outside, from what is sent, scanned and
decided, and enters a notice as due when a decision is reached while the
connection is open. `Answered` says that the `JobOutcome` messages sent are the
notices due, one for one.

The loop keeps its own account in `submitter_subs` and in the subscribers of the
job. The two agree (`Desk.Matches`) in every run that is `answerable`: a job
with an open submitter is decided by an `Accept`, nobody submits the job that is
pending, and a scanned file bears the id of a waiting submission only if it is
the submitted one. The code guarantees none of the three.
-/

namespace Provework.Coordinator

open Provework.Lib Provework.Jobfmt Provework.Contentstore Provework.Wire

/-! ## The account of a submitter -/

/-- The connection that made it and the id of its job. -/
abbrev Submission := Nat × String

structure Desk where
  /-- Landed in the jobs directory. -/
  queued : List Submission
  /-- Waiting for the pending job. -/
  running : List Submission
  /-- Waiting for the proving thread, oldest first. -/
  proving : List Submission
  /-- Decided while the connection was open. -/
  due : List (Submission × Decision)

/-- The file of a submission, as the scanner renames it. -/
def submittedPath (cfg : ServeConfig) (jobId : String) : String :=
  cfg.jobsDir ++ "/submitted-" ++ jobId ++ ".desc.json.dispatching"

/-- The notices a decision owes to those who wait for it. -/
def owed (s : Serve) (waiting : List Submission) (decision : Decision) :
    List (Submission × Decision) :=
  (waiting.filter fun w => w.1 ∈ s.conns).map fun w => (w, decision)

namespace Desk

def empty : Desk := ⟨[], [], [], []⟩

def acknowledge (desk : Desk) : Nat × ServerToClient → Desk
  | (conn, .submissionAck jobId true _ false) =>
    { desk with queued := desk.queued ++ [(conn, jobId)] }
  | (conn, .submissionAck jobId true _ true) =>
    { desk with proving := desk.proving ++ [(conn, jobId)] }
  | _ => desk

/-- The file at `path` becomes the pending job. -/
def take (cfg : ServeConfig) (desk : Desk) (path : String) : Desk :=
  { desk with
    queued := desk.queued.filter fun w => submittedPath cfg w.2 ≠ path
    running := desk.queued.filter fun w => submittedPath cfg w.2 = path }

def decideRunning (desk : Desk) (s : Serve) (decision : Decision) : Desk :=
  { desk with running := [], due := desk.due ++ owed s desk.running decision }

def decideProving (desk : Desk) (s : Serve) (decision : Decision) : Desk :=
  match desk.proving with
  | [] => desk
  | w :: rest => { desk with proving := rest, due := desk.due ++ owed s [w] decision }

/-- What the step from `s` to the books `after` means to the submitters. A job
is decided when an outcome is entered: the pending one if the slot is then free,
or else the oldest one being proved. -/
def observe (cfg : ServeConfig) (desk : Desk) (s : Serve) (after : Books) : Desk :=
  let desk := (after.sent.drop s.sent.length).foldl acknowledge desk
  match s.books.slot, after.slot, after.outcomes.drop s.outcomes.length with
  | none, some slot, _ => desk.take cfg slot.path
  | some _, none, o :: _ => desk.decideRunning s o.decision
  | _, _, o :: _ => desk.decideProving s o.decision
  | _, _, [] => desk

end Desk

def deskAfter (crypto : Crypto) (cfg : ServeConfig) (h : List (Serve × Act)) : Desk :=
  h.foldl (fun desk p => desk.observe cfg p.1 (step crypto cfg p.1 p.2).books) .empty

/-- The message tells the submission of the decision. -/
def Reports : Submission × Decision → Nat × ServerToClient → Prop
  | ((conn, jobId), .accept hash outputHex agreed zk), m =>
    m = (conn, .jobOutcome jobId hash agreed outputHex zk none)
  | ((conn, jobId), .reject reason), m =>
    ∃ hash agreed outputHex zk, m = (conn, .jobOutcome jobId hash agreed outputHex zk (some reason))
  | ((conn, jobId), .escalate), m =>
    ∃ hash agreed outputHex zk reason, m = (conn, .jobOutcome jobId hash agreed outputHex zk reason)

def isOutcome : Nat × ServerToClient → Bool
  | (_, .jobOutcome _ _ _ _ _ _) => true
  | _ => false

/-- The outcomes sent are the notices due, one for one and in order. -/
def Answered (crypto : Crypto) (cfg : ServeConfig) (h : List (Serve × Act)) (s : Serve) : Prop :=
  List.Forall₂ Reports (deskAfter crypto cfg h).due (s.sent.filter isOutcome)

/-! ## The condition -/

/-- The job is accepted, or nobody who waits for it is there. -/
def heeds (s : Serve) (job : PendingJob) : Decision → Bool
  | .accept _ _ _ _ => true
  | _ => job.subscribers.all (· ∉ s.conns)

def answerable (cfg : ServeConfig) (s : Serve) : Act → Bool
  | .scan (.ok (some (descriptor, _, path))) _ =>
    s.pc ≠ .top || s.submitterSubs.keys.all fun id =>
      decide (submittedPath cfg id = path) = decide (id = descriptor.jobId)
  | .complete now zk replay =>
    s.pc ≠ .complete || s.pending.all fun job =>
      !job.completes cfg now || heeds s job (job.decision zk replay)
  | .event (.jobSubmission conn _ descriptor _ _ false) host _ =>
    s.pc ≠ .events || !host.landed || s.pending.all fun job =>
      job.descriptor.jobId ≠ descriptor.jobId || conn ∈ job.subscribers
  | .event (.proved decision) _ _ =>
    s.pc ≠ .events || s.proving.head?.all fun job => heeds s job decision
  | _ => true

/-! ## The two accounts agree -/

/-- Who waits for the job, as submissions. -/
def Slot.waiting (slot : Slot) : List Submission :=
  slot.subscribers.map fun conn => (conn, slot.descriptor.jobId)

structure Desk.Matches (desk : Desk) (books : Books) : Prop where
  running : desk.running = (books.slot.map Slot.waiting).getD []
  queued : ∀ id, ((books.submitterSubs.lookup id).getD []).map (fun conn => (conn, id)) =
    desk.queued.filter fun w => w.2 = id
  proving : List.Forall₂ (fun w (job : PendingJob) => job.slot.waiting = [w]) desk.proving
    books.proving
  answered : List.Forall₂ Reports desk.due (books.sent.filter isOutcome)

section

variable {cfg : ServeConfig} {s : Serve} {desk : Desk}

theorem acknowledge_quiet {m : Nat × ServerToClient} (h : answers m.2 = false) :
    desk.acknowledge m = desk := by
  obtain ⟨conn, msg⟩ := m
  cases msg with
  | submissionAck jobId accepted reason proving =>
    cases accepted with
    | false => rfl
    | true => cases h
  | _ => rfl

theorem acknowledge_outcome {m : Nat × ServerToClient} (h : isOutcome m = true) :
    desk.acknowledge m = desk := by
  obtain ⟨conn, msg⟩ := m
  cases msg with
  | submissionAck jobId accepted reason proving => cases h
  | _ => rfl

theorem foldl_acknowledge {msgs : List (Nat × ServerToClient)}
    (h : ∀ m ∈ msgs, ∀ desk : Desk, desk.acknowledge m = desk) :
    msgs.foldl Desk.acknowledge desk = desk := by
  induction msgs generalizing desk with
  | nil => rfl
  | cons m msgs ih =>
    rw [List.foldl_cons, h m List.mem_cons_self]
    exact ih fun m' hm' => h m' (List.mem_cons_of_mem _ hm')

theorem isOutcome_quiet {m : Nat × ServerToClient} (h : answers m.2 = false) :
    isOutcome m = false := by
  obtain ⟨conn, msg⟩ := m
  cases msg with
  | jobOutcome => cases h
  | _ => rfl

theorem filter_isOutcome_quiet {msgs : List (Nat × ServerToClient)}
    (h : ∀ m ∈ msgs, answers m.2 = false) : msgs.filter isOutcome = [] := by
  rw [List.filter_eq_nil_iff]
  intro m hm
  rw [isOutcome_quiet (h m hm)]
  exact Bool.false_ne_true

theorem notices_isOutcome (job : PendingJob) (decision : Decision) :
    ∀ m ∈ s.notices job decision, isOutcome m = true := by
  intro m hm
  cases decision with
  | accept hash outputHex agreed zk =>
    obtain ⟨conn, -, rfl⟩ := List.mem_map.mp hm
    rfl
  | escalate => cases hm
  | reject reason => cases hm

theorem betweenJobs_quiet : ∀ m ∈ s.conns.keys.map fun conn => (conn, ServerToClient.betweenJobs),
    answers m.2 = false := by
  intro m hm
  obtain ⟨conn, -, rfl⟩ := List.mem_map.mp hm
  rfl

/-- If a decision heeds those who wait, its notices are the ones owed. -/
theorem notices_report {job : PendingJob} {decision : Decision} (h : heeds s job decision = true) :
    List.Forall₂ Reports (owed s job.slot.waiting decision) (s.notices job decision) := by
  have howed : owed s job.slot.waiting decision =
      (job.subscribers.filter (· ∈ s.conns)).map fun conn =>
        ((conn, job.descriptor.jobId), decision) := by
    simp only [owed, Slot.waiting, PendingJob.slot, List.filter_map, List.map_map]
    rfl
  rw [howed]
  have hnobody : job.subscribers.all (· ∉ s.conns) = true →
      job.subscribers.filter (· ∈ s.conns) = [] := by
    intro hall
    rw [List.filter_eq_nil_iff]
    intro conn hconn
    simpa using List.all_eq_true.mp hall conn hconn
  cases decision with
  | accept hash outputHex agreed zk =>
    rw [Serve.notices, List.forall₂_map_left_iff, List.forall₂_map_right_iff]
    exact List.forall₂_same.mpr fun _ _ => rfl
  | escalate =>
    rw [hnobody h]
    exact .nil
  | reject reason =>
    rw [hnobody h]
    exact .nil

/-- The messages of a decision: none is an acknowledgement, and the outcomes
among them are the notices. -/
theorem announced_sent (job : PendingJob) (decision : Decision) :
    (∀ desk : Desk,
      ((s.announced job decision).sent.drop s.sent.length).foldl Desk.acknowledge desk = desk) ∧
    (s.announced job decision).sent.filter isOutcome =
      s.sent.filter isOutcome ++ s.notices job decision := by
  constructor
  · intro desk
    rw [Serve.announced, List.append_assoc, List.drop_left]
    refine foldl_acknowledge fun m hm desk => ?_
    rcases List.mem_append.mp hm with hm | hm
    · exact acknowledge_outcome (notices_isOutcome job decision m hm)
    · exact acknowledge_quiet (betweenJobs_quiet m hm)
  · rw [Serve.announced, List.filter_append, List.filter_append,
      filter_isOutcome_quiet betweenJobs_quiet, List.append_nil,
      List.filter_eq_self.mpr (notices_isOutcome job decision)]

/-- Where no job is taken or decided, only the acknowledgements count. -/
theorem matches_sent {books : Books} {msgs : List (Nat × ServerToClient)}
    (hslot : books.slot = s.books.slot) (houtcomes : books.outcomes = s.outcomes)
    (hsent : books.sent = s.sent ++ msgs) (h : (msgs.foldl Desk.acknowledge desk).Matches books) :
    (desk.observe cfg s books).Matches books := by
  have hdesk : desk.observe cfg s books = msgs.foldl Desk.acknowledge desk := by
    simp only [Desk.observe, hslot, houtcomes, hsent, List.drop_left, List.drop_length]
    cases s.books.slot <;> rfl
  rw [hdesk]
  exact h

/-! ## Every way to deal keeps them in agreement -/

namespace Desk.Matches

theorem answered_append (h : desk.Matches s.books) {msgs : List (Nat × ServerToClient)}
    (hmsgs : msgs.filter isOutcome = []) :
    List.Forall₂ Reports desk.due ((s.sent ++ msgs).filter isOutcome) := by
  rw [List.filter_append, hmsgs, List.append_nil]
  exact h.answered

theorem quiet (h : desk.Matches s.books) {msgs : List (Nat × ServerToClient)}
    (hmsgs : ∀ m ∈ msgs, answers m.2 = false) :
    (desk.observe cfg s { s.books with sent := s.sent ++ msgs }).Matches
      { s.books with sent := s.sent ++ msgs } := by
  have hacks : msgs.foldl Desk.acknowledge desk = desk :=
    foldl_acknowledge fun m hm _ => acknowledge_quiet (hmsgs m hm)
  refine matches_sent rfl rfl rfl ?_
  rw [hacks]
  exact ⟨h.running, h.queued, h.proving, h.answered_append (filter_isOutcome_quiet hmsgs)⟩

/-- A queued submission has its entry among the subscriptions. -/
theorem mem_keys (h : desk.Matches s.books) {w : Submission} (hw : w ∈ desk.queued) :
    w.2 ∈ s.submitterSubs.keys := by
  have hmem : w ∈ desk.queued.filter fun w' => w'.2 = w.2 :=
    List.mem_filter.mpr ⟨hw, decide_eq_true rfl⟩
  rw [← h.queued w.2] at hmem
  rw [← AList.mem_keys, ← AList.lookup_isSome]
  cases hlookup : s.submitterSubs.lookup w.2 with
  | some subs => rfl
  | none =>
    have hnil : s.books.submitterSubs.lookup w.2 = none := hlookup
    rw [hnil] at hmem
    cases hmem

/-- The scanned file is that of the submissions with its id, so those who wait
for it are the subscribers. -/
theorem take (h : desk.Matches s.books) (hnone : s.pending = none) {descriptor : JobDescriptor}
    {path : String}
    (hfile : ∀ id ∈ s.submitterSubs.keys, submittedPath cfg id = path ↔ id = descriptor.jobId)
    {books : Books} (hbooks : books =
      { s.books with
        slot := some ⟨descriptor, path, (s.submitterSubs.lookup descriptor.jobId).getD []⟩
        submitterSubs := s.submitterSubs.erase descriptor.jobId }) :
    (desk.observe cfg s books).Matches books := by
  subst hbooks
  have hslot : s.books.slot = none := by simp [Serve.books, hnone]
  have hpath : ∀ w ∈ desk.queued, submittedPath cfg w.2 = path ↔ w.2 = descriptor.jobId :=
    fun w hw => hfile w.2 (h.mem_keys hw)
  have hdesk : desk.observe cfg s
      { s.books with
        slot := some ⟨descriptor, path, (s.submitterSubs.lookup descriptor.jobId).getD []⟩
        submitterSubs := s.submitterSubs.erase descriptor.jobId } = desk.take cfg path := by
    have hsent : s.books.sent.drop s.sent.length = [] := List.drop_length
    simp only [Desk.observe, hsent, hslot, List.foldl_nil]
  rw [hdesk]
  refine ⟨?_, ?_, h.proving, h.answered⟩
  · show (desk.queued.filter fun w => submittedPath cfg w.2 = path) = _
    rw [List.filter_congr fun w hw => decide_eq_decide.mpr (hpath w hw)]
    exact (h.queued descriptor.jobId).symm
  · intro id
    have hqueued := h.queued id
    show ((s.submitterSubs.erase descriptor.jobId).lookup id |>.getD []).map
      (fun conn => (conn, id)) =
      (desk.queued.filter fun w => submittedPath cfg w.2 ≠ path).filter fun w => w.2 = id
    rw [List.filter_filter]
    by_cases hid : id = descriptor.jobId
    · subst hid
      rw [AList.lookup_erase]
      refine (List.filter_eq_nil_iff.mpr fun w hw => ?_).symm
      simpa using fun hwid => (hpath w hw).mpr hwid
    · rw [AList.lookup_erase_ne hid]
      refine hqueued.trans (List.filter_congr fun w hw => ?_)
      by_cases hwid : w.2 = id
      · have hother : submittedPath cfg w.2 ≠ path := fun hp => hid (hwid ▸ (hpath w hw).mp hp)
        simp [hwid ▸ hother, hwid]
      · simp [hwid]

theorem file (h : desk.Matches s.books) {conn : Nat} {descriptor : JobDescriptor}
    (hother : ∀ job, s.pending = some job → job.descriptor.jobId = descriptor.jobId →
      conn ∈ job.subscribers)
    {books : Books} (hbooks : books =
      { s.books with
        slot := s.books.slot.map fun slot => slot.subscribe descriptor.jobId conn
        submitterSubs := s.submitterSubs.insert descriptor.jobId
          ((s.submitterSubs.lookup descriptor.jobId).getD [] ++ [conn])
        sent := s.sent ++ [(conn, .submissionAck descriptor.jobId true none false)] }) :
    (desk.observe cfg s books).Matches books := by
  -- the pending job gets no new subscriber
  have hslot : s.books.slot.map (fun slot => slot.subscribe descriptor.jobId conn)
      = s.books.slot := by
    simp only [Serve.books, Option.map_map]
    cases hjob : s.pending with
    | none => rfl
    | some job =>
      refine congrArg some (if_neg ?_)
      rintro ⟨hid, hnew⟩
      exact hnew (hother job hjob hid)
  rw [hslot] at hbooks
  subst hbooks
  refine matches_sent rfl rfl rfl ?_
  refine ⟨h.running, ?_, h.proving, h.answered_append rfl⟩
  intro id
  show ((s.submitterSubs.insert descriptor.jobId _).lookup id |>.getD []).map
    (fun conn => (conn, id)) =
    (desk.queued ++ [(conn, descriptor.jobId)]).filter fun w => w.2 = id
  rw [List.filter_append, ← h.queued id]
  by_cases hid : id = descriptor.jobId
  · subst hid
    simp [AList.lookup_insert, Serve.books]
  · rw [AList.lookup_insert_ne hid]
    simp [Serve.books, Ne.symm hid]

theorem prove (h : desk.Matches s.books) (conn now : Nat) (descriptor : JobDescriptor)
    {books : Books} (hbooks : books =
      { s.books with
        proving := s.proving ++ [.proof cfg descriptor now conn]
        sent := s.sent ++ [(conn, .submissionAck descriptor.jobId true none true)] }) :
    (desk.observe cfg s books).Matches books := by
  subst hbooks
  refine matches_sent rfl rfl rfl ?_
  exact ⟨h.running, h.queued, List.rel_append h.proving (.cons rfl .nil), h.answered_append rfl⟩

theorem finish (h : desk.Matches s.books) {job : PendingJob} {decision : Decision}
    (hjob : s.pending = some job) (hheeds : heeds s job decision = true) :
    (desk.observe cfg s { s.announced job decision with slot := none }).Matches
      { s.announced job decision with slot := none } := by
  have hslot : s.books.slot = some job.slot := by simp [Serve.books, hjob]
  obtain ⟨hacks, hsent⟩ := announced_sent (s := s) job decision
  have hdesk : desk.observe cfg s { s.announced job decision with slot := none } =
      desk.decideRunning s decision := by
    have hnew : (s.announced job decision).outcomes.drop s.outcomes.length
        = [job.outcome decision] :=
      List.drop_left
    simp only [Desk.observe, hacks, hnew, hslot]
    rfl
  have hrunning : desk.running = job.slot.waiting := by
    rw [h.running, hslot]
    rfl
  rw [hdesk]
  refine ⟨rfl, h.queued, h.proving, ?_⟩
  show List.Forall₂ Reports (desk.due ++ owed s desk.running decision)
    ((s.announced job decision).sent.filter isOutcome)
  rw [hsent, hrunning]
  exact List.rel_append h.answered (notices_report hheeds)

theorem proved (h : desk.Matches s.books) {job : PendingJob} {rest : List PendingJob}
    {decision : Decision} (hproving : s.proving = job :: rest)
    (hheeds : heeds s job decision = true) :
    (desk.observe cfg s { s.announced job decision with proving := rest }).Matches
      { s.announced job decision with proving := rest } := by
  obtain ⟨hacks, hsent⟩ := announced_sent (s := s) job decision
  have hqueue : List.Forall₂ (fun w (job : PendingJob) => job.slot.waiting = [w]) desk.proving
      (job :: rest) := hproving ▸ h.proving
  obtain ⟨w, ws, hw, hws, hdeskProving⟩ := List.forall₂_cons_right_iff.mp hqueue
  have hdesk : desk.observe cfg s { s.announced job decision with proving := rest } =
      { desk with proving := ws, due := desk.due ++ owed s [w] decision } := by
    have hnew : (s.announced job decision).outcomes.drop s.outcomes.length
        = [job.outcome decision] :=
      List.drop_left
    have hslot : (s.announced job decision).slot = s.books.slot := rfl
    simp only [Desk.observe, hacks, hnew, hslot]
    cases s.books.slot <;> simp only [Desk.decideProving, hdeskProving] <;> rfl
  rw [hdesk]
  refine ⟨h.running, h.queued, hws, ?_⟩
  show List.Forall₂ Reports (desk.due ++ owed s [w] decision)
    ((s.announced job decision).sent.filter isOutcome)
  rw [hsent, ← hw]
  exact List.rel_append h.answered (notices_report hheeds)

end Desk.Matches

/-- One step, if it is answerable. -/
theorem matches_step {crypto : Crypto} {a : Act} (h : desk.Matches s.books)
    (hok : answerable cfg s a = true) :
    (desk.observe cfg s (step crypto cfg s a).books).Matches (step crypto cfg s a).books := by
  have hdeals := step_deals crypto cfg s a
  generalize (step crypto cfg s a).books = books at hdeals ⊢
  cases hdeals with
  | quiet msgs hmsgs => exact h.quiet hmsgs
  | take hpc hnone =>
    refine h.take hnone ?_ rfl
    simpa [answerable, hpc] using hok
  | file hpc hopen hlanded =>
    refine h.file (fun job hjob hid => ?_) rfl
    simpa [answerable, hpc, hlanded, hjob, hid] using hok
  | prove => exact h.prove _ _ _ rfl
  | finish hpc hjob hdone =>
    refine h.finish hjob ?_
    simpa [answerable, hpc, hjob, hdone] using hok
  | proved hpc hproving =>
    refine h.proved hproving ?_
    simpa [answerable, hpc, hproving] using hok

end

/-- In every answerable run, the outcomes sent are the notices due to submitters
whose connection was open at the decision, in every state. -/
theorem serve_answers_submitters (crypto : Crypto) (cfg : ServeConfig) (nextConn : Nat)
    (store : Store) (acts : List Act)
    (h : ∀ p ∈ history (step crypto cfg) (Serve.init nextConn store) acts,
      answerable cfg p.1 p.2 = true) :
    Always (step crypto cfg) (Answered crypto cfg) (Serve.init nextConn store) acts := by
  have hinit : Desk.empty.Matches (Serve.init nextConn store).books :=
    ⟨rfl, fun _ => rfl, .nil, .nil⟩
  have hinv : Always (step crypto cfg) (fun h s => (deskAfter crypto cfg h).Matches s.books)
      (Serve.init nextConn store) acts := by
    have hsteps : EachStep (step crypto cfg) (fun _ s a => answerable cfg s a = true)
        (Serve.init nextConn store) acts := eachStep_of_history _ h
    refine always_of_step hinit ?_ hsteps
    intro h s a hmatches hok
    rw [deskAfter, List.foldl_append]
    exact matches_step hmatches hok
  exact fun pre hpre => (hinv pre hpre).answered

/-! ## A worker, a submitter, a job -/

def submitterConfig : ServeConfig :=
  { identityConfig with acceptSubmissions := true, pool := some 1 }

/-- Every blob is there. -/
def fullStore : Store := fun _ => some []

def submittedDescriptor : JobDescriptor :=
  { jobId := "job-1", manifest := keyHex 1, elf := keyHex 2, input := keyHex 3 }

/-- The file of its submission, as the scanner hands it over. -/
def submittedFile : QueuedJob :=
  (submittedDescriptor, none, "jobs/submitted-job-1.desc.json.dispatching")

/-- A turn that ends with connection `conn` submitting the job, signed with key
`n`; the file lands. -/
def submits (found : Option QueuedJob) (conn n : Nat) (workerId : String) : List Act :=
  (turnWith found (.closed 0)).dropLast ++
    [.event (.jobSubmission conn workerId submittedDescriptor (keyHex n) (sigHex n) false)
      { quietHost with createError := none } 0]

/-- Worker 1 and submitter 2 log in; the submission is scanned, and the worker
sends `result`. -/
def submittedRun (result : WorkerResult) : List Act :=
  [.thread (.accept "10.0.0.1"), .thread (.accept "10.0.0.2")] ++ login 1 1 "wA"
    ++ loginSubmitter 2 2 "sB" ++ submits none 2 2 "sB"
    ++ turnWith (some submittedFile) (.result 1 result) ++ settles

/-- The notices due after a run, and the outcomes sent in it. -/
def answeredIn (acts : List Act) : List (Submission × Decision) × List (Nat × ServerToClient) :=
  let s := Serve.init 1 fullStore
  ((deskAfter toyCrypto submitterConfig (history (step toyCrypto submitterConfig) s acts)).due,
    (stateAfter (step toyCrypto submitterConfig) s acts).sent.filter isOutcome)

theorem serve_answers_accepted :
    (∀ p ∈ history (step toyCrypto submitterConfig) (Serve.init 1 fullStore)
        (submittedRun (demoResult "wA" 1)), answerable submitterConfig p.1 p.2 = true) ∧
    Always (step toyCrypto submitterConfig) (Answered toyCrypto submitterConfig)
      (Serve.init 1 fullStore) (submittedRun (demoResult "wA" 1)) ∧
    (answeredIn (submittedRun (demoResult "wA" 1))).2 =
      [(2, .jobOutcome "job-1" (keyHex 9) ["wA"] none false none)] := by
  have hok : ∀ p ∈ history (step toyCrypto submitterConfig) (Serve.init 1 fullStore)
      (submittedRun (demoResult "wA" 1)), answerable submitterConfig p.1 p.2 = true :=
    List.all_eq_true.mp (by decide +kernel)
  exact ⟨hok,
    serve_answers_submitters toyCrypto submitterConfig 1 fullStore _ hok, by decide +kernel⟩

/-- The worker reports a trap, and the job is rejected. -/
def rejectedRun : List Act := submittedRun { demoResult "wA" 1 with status := "trapped" }

/-- Submitter 3 submits the job while it is pending for submitter 2; both files
are run. -/
def resubmittedRun : List Act :=
  [.thread (.accept "10.0.0.1"), .thread (.accept "10.0.0.2"), .thread (.accept "10.0.0.3")]
    ++ login 1 1 "wA" ++ loginSubmitter 2 2 "sB" ++ loginSubmitter 3 3 "sC"
    ++ submits none 2 2 "sB" ++ submits (some submittedFile) 3 3 "sC"
    ++ turnWith none (.result 1 (demoResult "wA" 1)) ++ settles
    ++ turnWith (some submittedFile) (.result 1 (demoResult "wA" 1)) ++ settles

theorem not_answered {acts : List Act} {due : List Submission} {told : List Nat}
    (hrun : ((answeredIn acts).1.map Prod.fst, (answeredIn acts).2.map Prod.fst) = (due, told))
    (h : due.length ≠ told.length) :
    ¬Always (step toyCrypto submitterConfig) (Answered toyCrypto submitterConfig)
      (Serve.init 1 fullStore) acts := by
  intro hall
  obtain ⟨rfl, rfl⟩ := Prod.mk.inj hrun
  rw [List.length_map, List.length_map] at h
  exact h (hall acts List.prefix_rfl).length_eq

/-- A rejection is due to submitter 2, which is still there, and nothing is
sent; and submitter 3, whose submission is decided once, hears twice. -/
theorem submitters_misinformed :
    answeredIn rejectedRun =
      ([((2, "job-1"), .reject "majority of workers trapped: job is broken")], []) ∧
    ((answeredIn resubmittedRun).1.map Prod.fst, (answeredIn resubmittedRun).2.map Prod.fst) =
      ([(2, "job-1"), (3, "job-1")], [2, 3, 3]) ∧
    ¬Always (step toyCrypto submitterConfig) (Answered toyCrypto submitterConfig)
      (Serve.init 1 fullStore) rejectedRun ∧
    ¬Always (step toyCrypto submitterConfig) (Answered toyCrypto submitterConfig)
      (Serve.init 1 fullStore) resubmittedRun := by
  have hrejected : answeredIn rejectedRun =
      ([((2, "job-1"), .reject "majority of workers trapped: job is broken")], []) := by
    decide +kernel
  have htwice :
    ((answeredIn resubmittedRun).1.map Prod.fst, (answeredIn resubmittedRun).2.map Prod.fst) =
      ([(2, "job-1"), (3, "job-1")], [2, 3, 3]) := by
    decide +kernel
  have hnone : ((answeredIn rejectedRun).1.map Prod.fst, (answeredIn rejectedRun).2.map Prod.fst) =
      ([(2, "job-1")], []) := by
    rw [hrejected]
    rfl
  exact ⟨hrejected, htwice, not_answered hnone (by decide), not_answered htwice (by decide)⟩

end Provework.Coordinator
