import Provework.Coordinator.Deals
import Provework.Coordinator.NetJudge
import Provework.Coordinator.ServeVotes

/-!
# A job settled by a receipt

A verified receipt ends a job without a vote. The acceptance it leads to is
built in `handle_receipt_claim`, apart from the quorum and the judges: its hash
is the last entry of the chunk chain where they have the digest of the journal,
and the only worker it counts as agreed is the one that claimed. From the claim
on the loop takes no event before the job is finished (`Settling`), so the
outcome is that acceptance over the results that were in at the claim.
`receipt_settles_iff` says when it is what the other tiers would have settled
on without burning a worker that reported the digest.
-/

namespace Provework.Coordinator

open Provework.Lib Provework.Jobfmt Provework.Contentstore Provework.Wire Provework.Rvcore

/-- The job is a legacy one that can be rebuilt from the store, `out` is its run,
and the verifier reports its count, its chain and its output. -/
structure HonestReceipt (judge : JudgeHost) (store : Store) (desc : JobDescriptor)
    (out : RunOutcome) (receipt : ReceiptOutcome) : Prop where
  run : jobOutcome judge store desc = some (some out)
  status : receipt.status = 0
  instructions : receipt.instructions = BitVec.ofNat 64 out.instructions
  chunkHashes : receipt.chunkHashes = out.chunkHashes.map fun h => hex (List.ofFn h)
  output : receipt.outputHex = hex (out.output.getD [])

/-- The outcome accepts `digest`, and no responder that reported it loses by it. -/
def SettlesOn (digest : String) (o : JobOutcome) : Prop :=
  (∃ outputHex agreed zk, o.decision = .accept digest outputHex agreed zk) ∧
    ∀ r ∈ o.results, r.resultHash = digest → ∀ p ∈ o.bondDeltas, p.1 = r.workerId → 0 ≤ p.2

/-- The last hash of the chain, as the receipt path writes it. -/
def chainTip (out : RunOutcome) : String :=
  (out.chunkHashes.map fun h => hex (List.ofFn h)).getLast?.getD ""

/-- The acceptance a receipt of `workerId` leads to. -/
def receiptDecision (workerId : String) (receipt : ReceiptOutcome) : Decision :=
  .accept (receipt.chunkHashes.getLast?.getD "") (some receipt.outputHex) [workerId] true

/-! ## The claim -/

section

variable {crypto : Crypto} {cfg : ServeConfig} {s : Serve} {job : PendingJob}
  {receipt : ReceiptOutcome}

/-- A claim settled the job: all it changed is the verdict and the attempts. -/
def Settled (s : Serve) (job : PendingJob) (workerId : String) (receipt : ReceiptOutcome)
    (s' : Serve) : Prop :=
  ∀ job', s'.pending = some job' → job'.zkAccept.isSome = true →
    s'.outcomes = s.outcomes ∧ workerId ∈ job.dispatchedIds ∧
      ∃ claimed, job' = { job with
        receiptClaimed := claimed, zkAccept := some (receiptDecision workerId receipt) }

theorem settled_self {workerId : String} (hjob : s.pending = some job)
    (hopen : job.zkAccept = none) : Settled s job workerId receipt s := by
  intro job' hjob' hsome
  rw [hjob] at hjob'
  cases hjob'
  rw [hopen] at hsome
  cases hsome

theorem settled_receiptClaim (hjob : s.pending = some job) (hopen : job.zkAccept = none)
    (conn : Nat) (workerId jobId pubkeyHex sigHex receiptHex : String) :
    Returns (Settled s job workerId receipt)
      (s.onReceiptClaim crypto cfg (.ok receipt) conn workerId jobId pubkeyHex sigHex
        receiptHex) := by
  -- the attempt alone leaves the job open
  have hunsettled : Settled s job workerId receipt
      { s with pending := some (job.attempted workerId) } := by
    rintro _ ⟨⟩ hsome
    rw [show (job.attempted workerId).zkAccept = none from hopen] at hsome
    cases hsome
  refine receiptClaim_cases
    (P := fun _ f => Returns (Settled s job workerId receipt) (f (.ok receipt)))
    (returns_some (settled_self hjob hopen)) ?_ ?_
  · intro job' bytes hclaim
    cases hclaim.pending.symm.trans hjob
    exact returns_some hunsettled
  · intro job' bytes binding hclaim _ s' h
    cases hclaim.pending.symm.trans hjob
    obtain ⟨settled, haccept, rfl⟩ := Option.map_eq_some_iff.mp h
    unfold PendingJob.acceptReceipt at haccept
    split at haccept
    · dsimp only at haccept
      split at haccept
      · cases haccept
        rintro _ ⟨⟩ -
        exact ⟨rfl, hclaim.dispatched, _, rfl⟩
      · cases haccept
    · cases haccept
      exact hunsettled

/-! ## From the claim to the outcome -/

/-- The job has a receipt and waits to be finished; the loop is between the
blocks that lead there, or has stopped. -/
structure Settling (d : Decision) (job : PendingJob) (s : Serve) : Prop where
  pc : s.pc = .top ∨ s.pc = .dispatch ∨ s.pc = .complete ∨ ∃ e, s.pc = .returned e
  pending : ∃ job', s.pending = some job' ∧ job'.dispatched = true ∧ job'.zkAccept = some d ∧
    job'.results = job.results ∧ job'.descriptor = job.descriptor

theorem step_claim (hjob : s.pending = some job) (hopen : job.zkAccept = none)
    (hdispatched : job.dispatchedIds ≠ [] → job.dispatched = true) {conn now : Nat}
    {workerId jobId pubkeyHex sigHex receiptHex : String} {host : Host}
    (hreceipt : host.receipt = .ok receipt) {job' : PendingJob} (hjob' : (step crypto cfg s
      (.event (.receiptClaim conn workerId jobId pubkeyHex sigHex receiptHex) host now)).pending
        = some job') (hsome : job'.zkAccept.isSome = true) :
    (step crypto cfg s (.event (.receiptClaim conn workerId jobId pubkeyHex sigHex receiptHex)
      host now)).outcomes = s.outcomes ∧
    Settling (receiptDecision workerId receipt) job
      (step crypto cfg s (.event (.receiptClaim conn workerId jobId pubkeyHex sigHex receiptHex)
        host now)) := by
  have hunsettled : s.pending ≠ some job' := by
    intro h
    rw [hjob] at h
    cases h
    rw [hopen] at hsome
    cases hsome
  rw [step] at hjob' ⊢
  split at hjob'
  next hpc =>
    rw [if_pos hpc]
    unfold Serve.handle at hjob' ⊢
    split at hjob'
    · exact absurd hjob' hunsettled
    next s' hs' =>
      rw [Serve.onEvent, hreceipt] at hs'
      obtain ⟨houtcomes, hwid, claimed, hsettled⟩ :=
        settled_receiptClaim hjob hopen conn workerId jobId pubkeyHex sigHex receiptHex s' hs' job'
          hjob' hsome
      refine ⟨houtcomes, Or.inl rfl, job', hjob', ?_⟩
      rw [hsettled]
      exact ⟨hdispatched (List.ne_nil_of_mem hwid), rfl, rfl, rfl⟩
  next => exact absurd hjob' hunsettled

theorem finish_outcomes (s : Serve) (job : PendingJob) (zk replay : Option Decision) :
    (s.finish job zk replay).outcomes = s.outcomes ++ [job.outcome (job.decision zk replay)] := by
  rw [Serve.finish, Serve.finishDecidedJob_eq]
  rfl

variable {d : Decision} {a : Act}

/-- A message that gives a worker the job. -/
def assigns : ServerToClient → Bool
  | .jobAssignment _ _ => true
  | _ => false

/-- What an act does to a job with a receipt. -/
inductive Concludes (d : Decision) (job : PendingJob) (s s' : Serve) : Act → Prop
  | waits {a : Act} (msgs : List (Nat × ServerToClient)) (hsent : s'.sent = s.sent ++ msgs)
      (hquiet : ∀ m ∈ msgs, assigns m.2 = false) (houtcomes : s'.outcomes = s.outcomes)
      (hnext : Settling d job s') : Concludes d job s s' a
  /-- The reserves are sent the job all the same. -/
  | resends {now : Nat} {zk replay : Option Decision} (hpc : s.pc = .complete) (job' : PendingJob)
      (hjob' : s.pending = some job')
      (hescalate : Quorum.decide job'.results job'.dispatchedIds.length = .escalate)
      (hsent : s'.sent = (s.round2 job').2) (houtcomes : s'.outcomes = s.outcomes)
      (hnext : Settling d job s') : Concludes d job s s' (.complete now zk replay)
  | finishes {a : Act} (msgs : List (Nat × ServerToClient)) (hsent : s'.sent = s.sent ++ msgs)
      (hquiet : ∀ m ∈ msgs, assigns m.2 = false) (hpending : s'.pending = none)
      (houtcomes : s'.outcomes = s.outcomes ++ [job.outcome d]) : Concludes d job s s' a

/-- Anything that leaves the outcomes and the job keeps the job waiting. -/
theorem Settling.keep (h : Settling d job s) {s' : Serve} (houtcomes : s'.outcomes = s.outcomes)
    (hpending : s'.pending = s.pending) (hsent : s'.sent = s.sent)
    (hpc : s'.pc = .top ∨ s'.pc = .dispatch ∨ s'.pc = .complete ∨ ∃ e, s'.pc = .returned e) :
    Concludes d job s s' a := by
  obtain ⟨job', hjob', hrest⟩ := h.pending
  exact .waits [] (by rw [hsent, List.append_nil]) nofun houtcomes
    ⟨hpc, job', hpending.trans hjob', hrest⟩

/-- Announcing a decision sends nobody the job. -/
theorem finish_sent (s : Serve) (job : PendingJob) (zk replay : Option Decision) :
    ∃ msgs, (s.finish job zk replay).sent = s.sent ++ msgs ∧ ∀ m ∈ msgs, assigns m.2 = false := by
  refine ⟨s.notices job (job.decision zk replay) ++ s.conns.keys.map fun conn => (conn,
    .betweenJobs), ?_, fun m hm => ?_⟩
  · rw [← List.append_assoc]
    exact congrArg Books.sent (s.books_announce job (job.decision zk replay))
  · rcases List.mem_append.mp hm with hm | hm
    · unfold Serve.notices at hm
      split at hm
      · obtain ⟨conn, -, rfl⟩ := List.mem_map.mp hm
        rfl
      · cases hm
    · obtain ⟨conn, -, rfl⟩ := List.mem_map.mp hm
      rfl

/-- The block that finishes jobs finishes a settled one, after the reserves were
sent it for nothing if there are any. -/
theorem settling_complete (h : Settling d job s) (hpc : s.pc = .complete) (now : Nat)
    (zk replay : Option Decision) :
    Concludes d job s (s.checkComplete cfg now zk replay) (.complete now zk replay) := by
  obtain ⟨job', hjob', hdispatched, hzk, hresults, hdescriptor⟩ := h.pending
  have hall : job'.allIn = true := by rw [PendingJob.allIn, hzk]; rfl
  unfold Serve.checkComplete
  simp only [hjob', hdispatched, hall, Bool.not_true, Bool.false_eq_true, if_false, if_true]
  split
  next hescalate =>
    refine .resends hpc job' hjob' hescalate.1 rfl rfl ⟨Or.inl rfl, _, rfl, ?_⟩
    rw [assignAll_eq]
    exact ⟨hdispatched, hzk, hresults, hdescriptor⟩
  next =>
    obtain ⟨msgs, hsent, hquiet⟩ := finish_sent s job'.finished zk replay
    have hdecision : job'.finished.decision zk replay = d := by
      simp only [PendingJob.decision, PendingJob.finished, hzk]
    refine .finishes msgs hsent hquiet rfl ?_
    rw [finish_outcomes, hdecision]
    simp only [PendingJob.outcome, PendingJob.finished, hresults, hdescriptor]

/-- A settled job is finished as it was settled, on the results it had; until
then nothing is. -/
theorem settling_step (h : Settling d job s) : Concludes d job s (step crypto cfg s a) a := by
  have hpc := h.pc
  have hself : ∀ a, Concludes d job s s a := fun _ => h.keep rfl rfl rfl hpc
  obtain ⟨job', hjob', hdispatched, hrest⟩ := h.pending
  cases a with
  | thread t => cases t <;> exact h.keep rfl rfl rfl hpc
  | scan found now =>
    rw [step]
    split
    · unfold Serve.scan
      split
      · refine .waits _ rfl (fun m hm => ?_) rfl
          ⟨Or.inr (Or.inr (Or.inr ⟨none, rfl⟩)), job', hjob', hdispatched, hrest⟩
        obtain ⟨conn, -, rfl⟩ := List.mem_map.mp hm
        rfl
      · rw [if_pos (by rw [hjob']; rfl)]
        exact h.keep rfl rfl rfl (Or.inr (Or.inl rfl))
    · exact hself _
  | choose draws =>
    rw [step]
    split
    · have hchoose : s.choose cfg draws = { s with pc := .complete } := by
        simp [Serve.choose, hjob', hdispatched]
      rw [hchoose]
      exact h.keep rfl rfl rfl (Or.inr (Or.inr (Or.inl rfl)))
    · exact hself _
  | complete now zk replay =>
    rw [step]
    split
    next hcomplete => exact settling_complete h hcomplete now zk replay
    next => exact hself _
  -- the loop stands at none of these
  | hold | assign now | idle | event e host now =>
    rcases hpc with hpc | hpc | hpc | ⟨e, hpc⟩ <;> (rw [step, hpc]; exact hself _)

theorem outcomes_step (crypto : Crypto) (cfg : ServeConfig) (s : Serve) (a : Act) :
    s.outcomes <+: (step crypto cfg s a).outcomes := by
  rcases step_outcomes crypto cfg s a with hsame | ⟨job, decision, hnew, -⟩
  · rw [hsame]
  · rw [hnew]
    exact List.prefix_append _ _

theorem outcomes_run (crypto : Crypto) (cfg : ServeConfig) (acts : List Act) : ∀ s : Serve,
    s.outcomes <+: (stateAfter (step crypto cfg) s acts).outcomes := by
  induction acts with
  | nil => exact fun s => List.prefix_rfl
  | cons a acts ih => exact fun s => (outcomes_step crypto cfg s a).trans (ih _)

theorem settling_run (acts : List Act) : ∀ s : Serve, Settling d job s →
    (stateAfter (step crypto cfg) s acts).outcomes = s.outcomes ∨
      ∃ rest, (stateAfter (step crypto cfg) s acts).outcomes
        = s.outcomes ++ job.outcome d :: rest := by
  induction acts with
  | nil => exact fun s _ => Or.inl rfl
  | cons a acts ih =>
    intro s h
    have hlater : ∀ s' : Serve, s'.outcomes = s.outcomes → Settling d job s' →
        (stateAfter (step crypto cfg) s' acts).outcomes = s.outcomes ∨
          ∃ rest, (stateAfter (step crypto cfg) s' acts).outcomes
            = s.outcomes ++ job.outcome d :: rest := by
      intro s' hsame hnext
      rw [← hsame]
      exact ih s' hnext
    have hstep : Concludes d job s (step crypto cfg s a) a := settling_step h
    cases hstep with
    | waits msgs hsent hquiet hsame hnext => exact hlater _ hsame hnext
    | resends hpc job' hjob' hescalate hsent hsame hnext => exact hlater _ hsame hnext
    | finishes msgs hsent hquiet hpending hdone =>
      obtain ⟨rest, hrest⟩ := outcomes_run crypto cfg acts (step crypto cfg s a)
      refine Or.inr ⟨rest, ?_⟩
      rw [hdone, List.append_assoc] at hrest
      exact hrest.symm

/-- The outcome of a receipt against the commitment of the run. -/
theorem settlesOn_iff {judge : JudgeHost} {store : Store} {out : RunOutcome}
    {digest workerId : String} (hhonest : HonestReceipt judge store job.descriptor out receipt) :
    SettlesOn digest (job.outcome (receiptDecision workerId receipt)) ↔
      chainTip out = digest ∧ ∀ r ∈ job.results, r.resultHash = digest → r.workerId = workerId := by
  have htip : receipt.chunkHashes.getLast?.getD "" = chainTip out := by
    rw [hhonest.chunkHashes]
    rfl
  constructor
  · rintro ⟨⟨outputHex, agreed, zk, haccept⟩, hburns⟩
    injection haccept with hhash
    refine ⟨htip.symm.trans hhash, ?_⟩
    intro r hr hdigest
    have hdelta := hburns r hr hdigest _ (List.mem_map.mpr ⟨r, hr, rfl⟩) rfl
    by_contra hother
    have hburn : (0 : Int) ≤ -100 := by
      rwa [if_neg (by simpa using hother)] at hdelta
    omega
  · rintro ⟨hdigest, hclaimant⟩
    refine ⟨⟨some receipt.outputHex, [workerId], true, ?_⟩, ?_⟩
    · show receiptDecision workerId receipt = _
      rw [receiptDecision, htip, hdigest]
    · intro r hr hhash p hp hname
      obtain ⟨r', hr', rfl⟩ := List.mem_map.mp hp
      have hsame : r'.workerId = workerId := hname.trans (hclaimant r hr hhash)
      simp [hsame]

/-! ## Dispatched jobs -/

/-- A job that was sent to somebody counts as dispatched. -/
def MarksDispatched (s : Serve) : Prop :=
  ∀ job, s.pending = some job → job.dispatchedIds ≠ [] → job.dispatched = true

theorem marksDispatched_step (h : MarksDispatched s) : MarksDispatched (step crypto cfg s a) := by
  have hmove := step_moves crypto cfg s a
  generalize hcore : (step crypto cfg s a).core = k at hmove
  have hpending : (step crypto cfg s a).pending = k.pending := congrArg Core.pending hcore
  intro job' hjob' hids
  rw [hpending] at hjob'
  cases hmove with
  | @authenticate conn x sig powCounter host now hpc hx hok =>
    obtain ⟨job, hjob, rfl⟩ := Option.map_eq_some_iff.mp hjob'
    have hflag : (job.lateJoiner x.workerId).dispatched = job.dispatched := by
      unfold PendingJob.lateJoiner
      split <;> rfl
    rw [hflag]
    exact h job hjob ((lateJoiner_sameVotes job _).dispatchedIds ▸ hids)
  | subscribe msgs jobId conn =>
    obtain ⟨job, hjob, rfl⟩ := Option.map_eq_some_iff.mp hjob'
    have hflag : (job.subscribe jobId conn).dispatched = job.dispatched := by
      unfold PendingJob.subscribe
      split <;> rfl
    rw [hflag]
    exact h job hjob ((subscribe_sameVotes job jobId conn).dispatchedIds ▸ hids)
  | queue => cases hjob'; exact absurd rfl hids
  | round1 => cases hjob'; rfl
  | @escalate job now zk replay hjob hdispatched =>
    cases hjob'
    show (s.round2 job).1.dispatched = true
    rw [Serve.round2, assignAll_eq]
    exact hdispatched
  | finish => cases hjob'
  | @count conn x result job host now hpc hc =>
    cases hjob'
    exact h job hc.pending hids
  | @claim _ workerId job job'' hjob hclaimed =>
    cases hjob'
    rw [hclaimed.eq] at hids ⊢
    exact h job hjob hids
  | _ => exact h job' hjob' hids

end

theorem marksDispatched_run (crypto : Crypto) (cfg : ServeConfig) (nextConn : Nat) (store : Store)
    (acts : List Act) :
    MarksDispatched (stateAfter (step crypto cfg) (Serve.init nextConn store) acts) := by
  have hinit : MarksDispatched (Serve.init nextConn store) := fun _ hjob => nomatch hjob
  exact invariant_run hinit (fun _ _ hs => marksDispatched_step hs) acts

/-- **What a receipt settles.** In every run, for every pending legacy job that
can be rebuilt and run, with whatever results are in, and every claim that
settles it on the word of a verifier that reports the run: once the job is
finished, its outcome accepts the digest of the run's journal and burns no
responder that reported it, exactly if the chain ends in that digest and nobody
but the claimant reported it. -/
theorem receipt_settles_iff (judge : JudgeHost) (crypto : Crypto) (cfg : ServeConfig)
    (nextConn : Nat) (store : Store) (before after : List Act) (s s' : Serve)
    (hs : s = stateAfter (step crypto cfg) (Serve.init nextConn store) before)
    (job : PendingJob) (hjob : s.pending = some job) (hopen : job.zkAccept = none)
    (conn now : Nat) (workerId jobId pubkeyHex sigHex receiptHex : String) (host : Host)
    (receipt : ReceiptOutcome) (hreceipt : host.receipt = .ok receipt) (blobs : Store)
    (out : RunOutcome) (hhonest : HonestReceipt judge blobs job.descriptor out receipt)
    (hs' : s' = step crypto cfg s
      (.event (.receiptClaim conn workerId jobId pubkeyHex sigHex receiptHex) host now))
    (hsettled : s'.pending.any (·.zkAccept.isSome) = true)
    (hfinished : (stateAfter (step crypto cfg) s' after).outcomes ≠ s.outcomes) :
    ∃ o, (stateAfter (step crypto cfg) s' after).outcomes[s.outcomes.length]? = some o ∧
      o.jobId = job.descriptor.jobId ∧ o.results = job.results ∧
      (SettlesOn (judge.outcomeDigest out) o ↔
        chainTip out = judge.outcomeDigest out ∧
          ∀ r ∈ job.results, r.resultHash = judge.outcomeDigest out → r.workerId = workerId) := by
  have hmarks : MarksDispatched s := hs ▸ marksDispatched_run crypto cfg nextConn store before
  cases hjob' : s'.pending with
  | none =>
    rw [hjob'] at hsettled
    cases hsettled
  | some job' =>
    rw [hjob', Option.any_some] at hsettled
    rw [hs'] at hjob'
    obtain ⟨houtcomes, hsettling⟩ :=
      step_claim hjob hopen (hmarks job hjob) hreceipt hjob' hsettled
    rw [← hs'] at houtcomes hsettling
    rcases settling_run after s' hsettling with hsame | ⟨rest, hdone⟩
    · exact absurd (hsame.trans houtcomes) hfinished
    · refine ⟨_, ?_, rfl, rfl, settlesOn_iff hhonest⟩
      rw [hdone, houtcomes, List.getElem?_append_right (Nat.le_refl _), Nat.sub_self]
      rfl

/-! ## Two workers, one receipt -/

def receiptCrypto : Crypto := { toyCrypto with blake3 := lengthHash }

def receiptConfig : ServeConfig := { identityConfig with zk := true, identityPowBits := 0 }

/-- What an honest verifier reports of `c.ebreak` with no input. -/
def ebreakReceipt : ReceiptOutcome :=
  { status := 0, instructions := 1, chunkHashes := [keyHex 0x68], outputHex := "" }

/-- The result of an honest worker: it carries the digest of the journal. -/
def honestResult (wid : String) (n : Nat) : WorkerResult :=
  { demoResult wid n with
    instructions := 1, resultHash := keyHex 8, chunkHashes := [keyHex 8], outputHex := some "" }

/-- Both workers are sent the job and `wB` has answered; the loop waits for an event. -/
def beforeClaim : List Act :=
  [.thread (.accept "10.0.0.1"), .thread (.accept "10.0.0.2")] ++ login 1 1 "wA" ++ login 2 2 "wB"
    ++ turnWith (some (demoDescriptor [0x02, 0x90], none, "jobs/job-1.desc.json.dispatching"))
      (.result 2 (honestResult "wB" 2))
    ++ (turnWith none (.closed 0)).dropLast

/-- Then `wA` claims a receipt. -/
def ebreakClaim : Act :=
  .event (.receiptClaim 1 "wA" "job-1" (keyHex 1) (sigHex 1) "")
    { quietHost with receipt := .ok ebreakReceipt } 0

def atClaim : Serve :=
  stateAfter (step receiptCrypto receiptConfig) (Serve.init 1 (demoStore [0x02, 0x90])) beforeClaim

/-- An honest verifier's report of a run. -/
def reportOf (out : RunOutcome) : ReceiptOutcome :=
  { status := (statusCode out.status).toNat
    instructions := BitVec.ofNat 64 out.instructions
    chunkHashes := out.chunkHashes.map fun h => hex (List.ofFn h)
    outputHex := hex (out.output.getD []) }

theorem ebreakReceipt_honest : ∃ out,
    HonestReceipt toyHost (demoStore [0x02, 0x90]) (demoDescriptor [0x02, 0x90]) out ebreakReceipt ∧
      chainTip out = keyHex 0x68 ∧ toyHost.outcomeDigest out = keyHex 8 := by
  have hreport : (executed lengthHash demoManifest (tinyElf [0x02, 0x90]) []).map
      (fun r => r.map fun out => (reportOf out, toyHost.outcomeDigest out))
        = some (some (ebreakReceipt, keyHex 8)) := by
    decide +kernel
  obtain ⟨r, hr, h⟩ := Option.map_eq_some_iff.mp hreport
  obtain ⟨out, hout, h⟩ := Option.map_eq_some_iff.mp h
  obtain ⟨hreport, hdigest⟩ := Prod.mk.inj h
  have hchain : (out.chunkHashes.map fun h => hex (List.ofFn h)) = [keyHex 0x68] :=
    congrArg ReceiptOutcome.chunkHashes hreport
  refine ⟨out, ⟨?_, rfl, ?_, ?_, ?_⟩, ?_, hdigest⟩
  · rw [demo_outcome demo_get, hr, hout]
  · exact (congrArg ReceiptOutcome.instructions hreport).symm
  · exact hchain.symm
  · exact (congrArg ReceiptOutcome.outputHex hreport).symm
  · rw [chainTip, hchain]
    rfl

/-- The run goes on with the claim, and the job is finished on it. -/
def afterClaim : Serve :=
  stateAfter (step receiptCrypto receiptConfig)
    (step receiptCrypto receiptConfig atClaim ebreakClaim)
    settles

/-- The acceptance is of the hash of the last state, and `wB` is burned. -/
def ebreakOutcome : JobOutcome :=
  { jobId := "job-1"
    decision := .accept (keyHex 0x68) (some "") ["wA"] true
    results := [honestResult "wB" 2]
    bondDeltas := [("wB", -100)] }

theorem ebreak_run :
    (atClaim.pending.map fun job => (job.descriptor, job.zkAccept), atClaim.outcomes,
      (step receiptCrypto receiptConfig atClaim ebreakClaim).pending.any (·.zkAccept.isSome),
      afterClaim.outcomes) =
    (some (demoDescriptor [0x02, 0x90], none), [], true, [ebreakOutcome]) := by
  decide +kernel

theorem receipt_settles_ebreak : afterClaim.outcomes = [ebreakOutcome] ∧
    ∃ o, afterClaim.outcomes[0]? = some o ∧ ¬SettlesOn (keyHex 8) o := by
  obtain ⟨out, hhonest, htip, hdigest⟩ := ebreakReceipt_honest
  obtain ⟨hpending, hrun⟩ := Prod.mk.inj ebreak_run
  obtain ⟨hnone, hrun⟩ := Prod.mk.inj hrun
  obtain ⟨hsettled, hdone⟩ := Prod.mk.inj hrun
  obtain ⟨job, hjob, h⟩ := Option.map_eq_some_iff.mp hpending
  obtain ⟨hdesc, hopen⟩ := Prod.mk.inj h
  have hfinished : afterClaim.outcomes ≠ atClaim.outcomes := by
    rw [hnone, hdone]
    exact List.cons_ne_nil _ _
  obtain ⟨o, ho, -, -, hiff⟩ := receipt_settles_iff toyHost receiptCrypto receiptConfig 1
    (demoStore [0x02, 0x90]) beforeClaim settles atClaim
    (step receiptCrypto receiptConfig atClaim ebreakClaim) rfl job hjob hopen 1 0 "wA" "job-1"
    (keyHex 1) (sigHex 1) "" { quietHost with receipt := .ok ebreakReceipt } ebreakReceipt rfl
    (demoStore [0x02, 0x90]) out (hdesc ▸ hhonest) rfl hsettled hfinished
  rw [hnone] at ho
  rw [htip, hdigest] at hiff
  exact ⟨hdone, o, ho, fun h => absurd (hiff.mp h).1 (by decide +kernel)⟩

/-- The honest receipt of `wA` settles the job on another hash than the digest,
and the honest `wB`, who reported the digest, is burned. -/
theorem receipt_burns_honest :
    (∃ out, HonestReceipt toyHost (demoStore [0x02, 0x90]) (demoDescriptor [0x02, 0x90]) out
        ebreakReceipt ∧ toyHost.outcomeDigest out = keyHex 8) ∧
    afterClaim.outcomes = [ebreakOutcome] ∧
    (honestResult "wB" 2).resultHash = keyHex 8 ∧ ¬SettlesOn (keyHex 8) ebreakOutcome := by
  obtain ⟨out, hhonest, -, hdigest⟩ := ebreakReceipt_honest
  refine ⟨⟨out, hhonest, hdigest⟩, (Prod.mk.inj (Prod.mk.inj (Prod.mk.inj ebreak_run).2).2).2, rfl,
    ?_⟩
  rintro ⟨-, hburns⟩
  have hdelta :=
    hburns (honestResult "wB" 2) List.mem_cons_self rfl ("wB", -100) List.mem_cons_self rfl
  have hburn : (0 : Int) ≤ -100 := hdelta
  omega

end Provework.Coordinator
