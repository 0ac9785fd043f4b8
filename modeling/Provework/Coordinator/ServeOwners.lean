import Provework.Coordinator.ServeNotices

/-!
# Whose job an outcome is of

A submitter waits for a job under its id, a job is what its descriptor says. The
two go apart when an id is used twice: a submission subscribes to the pending job
of that id, and a scanned file takes along everybody who waits for its id. Every
outcome reaches submitters of its own job only (`outcomes_reach_owners`) as long
as nobody becomes a subscriber of a job that they did not submit.
-/

namespace Provework.Coordinator

open Provework.Lib Provework.Jobfmt Provework.Contentstore Provework.Wire

/-- The submissions taken from the wire, with their connections. -/
def submissions (h : List (Serve × Act)) : List (Nat × JobDescriptor) :=
  h.filterMap fun
    | (s, .event (.jobSubmission conn _ descriptor _ _ _) _ _) =>
      if s.pc = .events then some (conn, descriptor) else none
    | _ => none

/-- The job that is decided if `a` sends outcomes. -/
def decidedJob (s : Serve) : Act → Option PendingJob
  | .complete _ _ _ => s.pending
  | .event (.proved _) _ _ => s.proving.head?
  | _ => none

/-- Every outcome sent from `s` to `s'` is of a job that the receiver submitted. -/
def ReachesOwners (h : List (Serve × Act)) (s : Serve) (a : Act) (s' : Serve) : Prop :=
  ∀ conn jobId hash agreed outputHex zk reason,
    (conn, ServerToClient.jobOutcome jobId hash agreed outputHex zk reason)
      ∈ s'.sent.drop s.sent.length →
    ∃ job, decidedJob s a = some job ∧ job.descriptor.jobId = jobId ∧
      (conn, job.descriptor) ∈ submissions h

/-- Who becomes a subscriber of a job has submitted it. -/
def subscribesOwners (h : List (Serve × Act)) (s : Serve) : Act → Bool
  | .scan (.ok (some (descriptor, _, _))) _ =>
    s.pc ≠ .top || s.pending.isSome ||
      ((s.submitterSubs.lookup descriptor.jobId).getD []).all fun conn =>
      (conn, descriptor) ∈ submissions h
  | .event (.jobSubmission conn _ descriptor _ _ false) host _ =>
    s.pc ≠ .events || !host.landed || s.pending.all fun job =>
      job.descriptor.jobId ≠ descriptor.jobId || conn ∈ job.subscribers || job.descriptor
        = descriptor ||
        (conn, job.descriptor) ∈ submissions h
  | _ => true

/-- Everybody who waits for a job submitted it. -/
structure Owned (h : List (Serve × Act)) (books : Books) : Prop where
  slot : ∀ slot, books.slot = some slot → ∀ conn ∈ slot.subscribers,
    (conn, slot.descriptor) ∈ submissions h
  proving : ∀ job ∈ books.proving, ∀ conn ∈ job.subscribers, (conn, job.descriptor) ∈ submissions h

section

variable {crypto : Crypto} {cfg : ServeConfig} {h : List (Serve × Act)} {s : Serve} {a : Act}

theorem submissions_append (h h' : List (Serve × Act)) :
    submissions (h ++ h') = submissions h ++ submissions h' := List.filterMap_append

theorem mem_submissions {conn now : Nat} {submitter pubkeyHex sigHex : String}
    {descriptor : JobDescriptor} {requireZk : Bool} {host : Host} (hpc : s.pc = .events) :
    (conn, descriptor) ∈ submissions (h ++
      [(s, .event (.jobSubmission conn submitter descriptor pubkeyHex sigHex requireZk) host
        now)]) := by
  rw [submissions_append]
  refine List.mem_append_right _ (List.mem_filterMap.mpr ⟨_, List.mem_singleton_self _, ?_⟩)
  exact if_pos hpc

theorem Owned.mono {books : Books} (ho : Owned h books) (h' : List (Serve × Act)) :
    Owned (h ++ h') books := by
  refine ⟨fun slot hslot conn hconn => ?_, fun job hjob conn hconn => ?_⟩
  · rw [submissions_append]
    exact List.mem_append_left _ (ho.slot slot hslot conn hconn)
  · rw [submissions_append]
    exact List.mem_append_left _ (ho.proving job hjob conn hconn)

/-- A submission to the prover was taken as an event. -/
theorem prove_pc {conn now : Nat} {submitter pubkeyHex sigHex : String} {descriptor : JobDescriptor}
    {host : Host} {job : PendingJob}
    (hproving :
      (step crypto cfg s (.event (.jobSubmission conn submitter descriptor pubkeyHex sigHex true)
      host now)).proving = s.proving ++ [job]) : s.pc = .events := by
  by_contra hpc
  rw [step, if_neg hpc] at hproving
  have hlength := congrArg List.length hproving
  rw [List.length_append, List.length_singleton] at hlength
  omega

theorem owned_step (ho : Owned h s.books) (hok : subscribesOwners h s a = true) :
    Owned (h ++ [(s, a)]) (step crypto cfg s a).books := by
  have hold := ho.mono [(s, a)]
  have hdeals := step_deals crypto cfg s a
  generalize hbooks : (step crypto cfg s a).books = books at hdeals
  cases hdeals with
  | quiet msgs hmsgs => exact ⟨hold.slot, hold.proving⟩
  | @take descriptor targets path now hpc hnone =>
    refine ⟨?_, hold.proving⟩
    rintro _ ⟨⟩ conn hconn
    have hall : ∀ conn ∈ (s.submitterSubs.lookup descriptor.jobId).getD [],
        (conn, descriptor) ∈ submissions h := by
      simpa [subscribesOwners, hpc, hnone] using hok
    rw [submissions_append]
    exact List.mem_append_left _ (hall conn hconn)
  | @file conn submitter pubkeyHex sigHex descriptor host now hpc hopen hlanded =>
    refine ⟨?_, hold.proving⟩
    intro slot' hslot' conn' hconn'
    obtain ⟨slot, hslot, rfl⟩ := Option.map_eq_some_iff.mp hslot'
    have hsame : (slot.subscribe descriptor.jobId conn).descriptor = slot.descriptor := by
      unfold Slot.subscribe
      split <;> rfl
    rw [hsame]
    unfold Slot.subscribe at hconn'
    split at hconn'
    next hjoins =>
      rcases List.mem_append.mp hconn' with hconn' | hconn'
      · exact hold.slot slot hslot conn' hconn'
      · -- the new subscriber: of its own descriptor, or of one it submitted before
        rw [List.mem_singleton.mp hconn']
        obtain ⟨job, hjob, rfl⟩ := Option.map_eq_some_iff.mp hslot
        have howns : job.descriptor = descriptor ∨ (conn, job.descriptor) ∈ submissions h := by
          have hid : job.descriptor.jobId = descriptor.jobId := hjoins.1
          have hnew : conn ∉ job.subscribers := hjoins.2
          simpa [subscribesOwners, hpc, hlanded, hjob, hid, hnew] using hok
        rcases howns with heq | hmem
        · show (conn, job.descriptor) ∈ _
          rw [heq]
          exact mem_submissions hpc
        · rw [submissions_append]
          exact List.mem_append_left _ hmem
    next => exact hold.slot slot hslot conn' hconn'
  | @prove conn submitter pubkeyHex sigHex descriptor host now hopen =>
    refine ⟨hold.slot, fun job hjob conn' hconn' => ?_⟩
    rcases List.mem_append.mp hjob with hjob | hjob
    · exact hold.proving job hjob conn' hconn'
    · rw [List.mem_singleton.mp hjob] at hconn' ⊢
      rw [List.mem_singleton.mp hconn']
      exact mem_submissions (prove_pc (congrArg Books.proving hbooks))
  | finish hpc hjob hdone => exact ⟨nofun, hold.proving⟩
  | @proved job rest decision host now hpc hproving =>
    refine ⟨hold.slot, fun job' hjob' => hold.proving job' ?_⟩
    show job' ∈ s.proving
    rw [hproving]
    exact List.mem_cons_of_mem _ hjob'

/-- An outcome that is announced goes to a subscriber of the job. -/
theorem mem_announced {job : PendingJob} {decision : Decision} {conn : Nat} {jobId hash : String}
    {agreed : List String} {outputHex : Option String} {zk : Bool} {reason : Option String}
    (hmem : (conn, ServerToClient.jobOutcome jobId hash agreed outputHex zk reason) ∈
      (s.announced job decision).sent.drop s.sent.length) :
    job.descriptor.jobId = jobId ∧ conn ∈ job.subscribers := by
  unfold Serve.announced at hmem
  rw [List.append_assoc, List.drop_left] at hmem
  rcases List.mem_append.mp hmem with hmem | hmem
  · unfold Serve.notices at hmem
    split at hmem
    · obtain ⟨conn', hconn', heq⟩ := List.mem_map.mp hmem
      cases heq
      exact ⟨rfl, (List.mem_filter.mp hconn').1⟩
    · cases hmem
  · obtain ⟨conn', -, heq⟩ := List.mem_map.mp hmem
    cases heq

theorem reachesOwners_step (ho : Owned h s.books) : ReachesOwners h s a (step crypto cfg s a) := by
  intro conn jobId hash agreed outputHex zk reason hmem
  have hdeals := step_deals crypto cfg s a
  generalize hbooks : (step crypto cfg s a).books = books at hdeals
  rw [show (step crypto cfg s a).sent = books.sent from congrArg Books.sent hbooks] at hmem
  cases hdeals with
  | quiet msgs hmsgs =>
    rw [List.drop_left] at hmem
    exact absurd (hmsgs _ hmem) nofun
  | take =>
    rw [show s.books.sent = s.sent from rfl, List.drop_length] at hmem
    cases hmem
  | file =>
    rw [List.drop_left] at hmem
    cases List.mem_singleton.mp hmem
  | prove =>
    rw [List.drop_left] at hmem
    cases List.mem_singleton.mp hmem
  | @finish job now zk' replay hpc hjob hdone =>
    obtain ⟨hid, hconn⟩ := mem_announced hmem
    refine ⟨job, hjob, hid, ho.slot job.slot ?_ conn hconn⟩
    rw [Serve.books, hjob]
    rfl
  | @proved job rest decision host now hpc hproving =>
    obtain ⟨hid, hconn⟩ := mem_announced hmem
    have hhead : job ∈ s.proving := hproving ▸ List.mem_cons_self
    refine ⟨job, ?_, hid, ho.proving job hhead conn hconn⟩
    rw [decidedJob, hproving]
    rfl

end

/-- In every run in which nobody becomes a subscriber of a job they did not submit,
every outcome is sent to a connection that submitted the descriptor of the decided
job. -/
theorem outcomes_reach_owners (crypto : Crypto) (cfg : ServeConfig) (nextConn : Nat) (store : Store)
    (acts : List Act)
    (hok : EachStep (step crypto cfg) (fun h s a => subscribesOwners h s a = true)
      (Serve.init nextConn store) acts) :
    EachStep (step crypto cfg) (fun h s a => ReachesOwners h s a (step crypto cfg s a))
      (Serve.init nextConn store) acts := by
  have hinv :
      Always (step crypto cfg) (fun h s => Owned h s.books) (Serve.init nextConn store) acts :=
    always_of_step ⟨nofun, nofun⟩ (fun _ _ _ ho hc => owned_step ho hc) hok
  intro pre a hpre
  exact reachesOwners_step (hinv pre ((List.prefix_append pre [a]).trans hpre))

/-! ## One id, two jobs -/

/-- Submitter 2 submits a job that is accepted. -/
theorem outcomes_reach_submitter :
    EachStep (step toyCrypto submitterConfig)
      (fun h s a => ReachesOwners h s a (step toyCrypto submitterConfig s a))
        (Serve.init 1 fullStore)
      (submittedRun (demoResult "wA" 1)) :=
  outcomes_reach_owners toyCrypto submitterConfig 1 fullStore _
    (eachStep_of_checkRun _ (by decide +kernel))

/-- Another program under the same id. -/
def otherDescriptor : JobDescriptor := { submittedDescriptor with elf := keyHex 7 }

/-- While the job of submitter 2 runs, submitter 3 submits the other one; the loop
is about to look whether the first is complete. -/
def reusedIdRun : List Act :=
  [.thread (.accept "10.0.0.1"), .thread (.accept "10.0.0.2"), .thread (.accept "10.0.0.3")]
    ++ login 1 1 "wA" ++ loginSubmitter 2 2 "sB" ++ loginSubmitter 3 3 "sC" ++ submits none 2 2 "sB"
    ++ (turnWith (some submittedFile) (.closed 0)).dropLast
    ++ [.event (.jobSubmission 3 "sC" otherDescriptor (keyHex 3) (sigHex 3) false)
      { quietHost with createError := none } 0]
    ++ turnWith none (.result 1 (demoResult "wA" 1)) ++ [.scan (.ok none) 0, .choose fun _ => 0]

def reusedIdState : Serve :=
  stateAfter (step toyCrypto submitterConfig) (Serve.init 1 fullStore) reusedIdRun

def reusedIdHistory : List (Serve × Act) :=
  history (step toyCrypto submitterConfig) (Serve.init 1 fullStore) reusedIdRun

/-- What both are told. -/
def reusedIdOutcome : ServerToClient := .jobOutcome "job-1" (keyHex 9) ["wA"] none false none

/-- Submitter 3 is told the output of the program of submitter 2. -/
theorem outcome_of_another_job :
    reusedIdState.pending.map (·.descriptor) = some submittedDescriptor ∧
    submissions reusedIdHistory = [(2, submittedDescriptor), (3, otherDescriptor)] ∧
    ((step toyCrypto submitterConfig reusedIdState (.complete 0 none none)).sent.drop
      reusedIdState.sent.length).filter isOutcome = [(2, reusedIdOutcome), (3, reusedIdOutcome)] ∧
    ¬ EachStep (step toyCrypto submitterConfig)
      (fun h s a => ReachesOwners h s a (step toyCrypto submitterConfig s a))
        (Serve.init 1 fullStore)
      (reusedIdRun ++ [.complete 0 none none]) := by
  have hrun : (reusedIdState.pending.map (·.descriptor), submissions reusedIdHistory,
      ((step toyCrypto submitterConfig reusedIdState (.complete 0 none none)).sent.drop
        reusedIdState.sent.length).filter isOutcome)
      = (some submittedDescriptor, [(2, submittedDescriptor), (3, otherDescriptor)],
        [(2, reusedIdOutcome), (3, reusedIdOutcome)]) := by
    decide +kernel
  obtain ⟨hpending, hrun⟩ := Prod.mk.inj hrun
  obtain ⟨hsubmitted, hsent⟩ := Prod.mk.inj hrun
  refine ⟨hpending, hsubmitted, hsent, fun hreaches => ?_⟩
  have htold : (3, reusedIdOutcome) ∈
      (step toyCrypto submitterConfig reusedIdState (.complete 0 none none)).sent.drop
        reusedIdState.sent.length :=
    (List.mem_filter.mp (hsent ▸ List.mem_cons_of_mem _ List.mem_cons_self)).1
  have hstep : ReachesOwners reusedIdHistory reusedIdState (.complete 0 none none)
      (step toyCrypto submitterConfig reusedIdState (.complete 0 none none)) :=
    hreaches reusedIdRun (.complete 0 none none) List.prefix_rfl
  obtain ⟨job, hjob, -, hmem⟩ := hstep 3 _ _ _ _ _ _ htold
  rw [decidedJob] at hjob
  rw [hjob, Option.map_some] at hpending
  rw [Option.some.inj hpending, hsubmitted] at hmem
  exact absurd hmem (by decide)

end Provework.Coordinator
