import Provework.Coordinator.ServeReceipt

/-!
# Calls of the receipt verifier

`verifierCall` is the call of the external verifier an act leads to.
`verifierCall_isSome_iff` ties it to the loop: a call is made exactly if the
verifier's answer can make a difference. The attempt of a worker is used up before
its call is made, so over a run the attempts on record cover the calls made for the
pending job (`CallInv`), and no worker id gets two of them (`verifier_called_once`).
-/

namespace Provework.Coordinator

open Provework.Lib Provework.Jobfmt Provework.Contentstore Provework.Wire

/-- The call of the external verifier that is made while `a` is handled. -/
def verifierCall (crypto : Crypto) (cfg : ServeConfig) (s : Serve) : Act → Option VerifierCall
  | .event (.receiptClaim conn workerId jobId pubkeyHex sigHex receiptHex) _ _ =>
    if s.pc = .events then s.receiptCall crypto cfg conn workerId jobId pubkeyHex sigHex receiptHex
    else none
  | _ => none

/-- The call is made for a claim of a worker that was given `job`, signed over
the receipt and the job's id, and the job has no receipt yet. -/
structure CalledFor (crypto : Crypto) (a : Act) (job : PendingJob) (call : VerifierCall) :
    Prop where
  claim : ∃ conn receiptHex host now,
    a = .event (.receiptClaim conn call.workerId call.jobId call.pubkeyHex call.sigHex receiptHex)
      host now ∧
      fromHex receiptHex ((utf8 receiptHex).length / 2) = .ok call.receipt
  dispatched : call.workerId ∈ job.dispatchedIds
  jobId : call.jobId = job.descriptor.jobId
  signed : crypto.verifyHex ("pubkey: " ++ ·) ("signature: " ++ ·) call.pubkeyHex call.sigHex
    (receiptClaimMessage call.jobId (crypto.blake3 call.receipt)) = .ok ()
  binding : expectedBinding job.descriptor = .ok call.binding
  unsettled : job.zkAccept = none
  fresh : call.workerId ∉ job.receiptClaimed

/-! ## The call and the answer -/

section

variable {crypto : Crypto} {cfg : ServeConfig} {s : Serve} {a : Act} {call : VerifierCall}

theorem receiptCall_some {conn : Nat} {workerId jobId pubkeyHex sigHex receiptHex : String}
    (host : Host) (now : Nat)
    (h : s.receiptCall crypto cfg conn workerId jobId pubkeyHex sigHex receiptHex = some call) :
    ∃ job, s.pending = some job ∧
      CalledFor crypto
        (.event (.receiptClaim conn workerId jobId pubkeyHex sigHex receiptHex) host now)
        job call ∧
      ∀ r, s.onReceiptClaim crypto cfg r conn workerId jobId pubkeyHex sigHex receiptHex
        = s.answered job call.workerId r := by
  revert h
  refine receiptClaim_cases (P := fun o f => o = some call → ∃ job, s.pending = some job ∧
    CalledFor crypto
      (.event (.receiptClaim conn workerId jobId pubkeyHex sigHex receiptHex) host now)
      job call ∧ ∀ r, f r = s.answered job call.workerId r) (fun h => nomatch h)
    (fun _ _ _ h => nomatch h) ?_
  rintro job bytes binding hclaim hbinding ⟨⟩
  refine ⟨job, hclaim.pending, ?_, fun r => rfl⟩
  exact
    { claim := ⟨conn, receiptHex, host, now, rfl, hclaim.decoded⟩
      dispatched := hclaim.dispatched
      jobId := hclaim.sameJob
      signed := hclaim.signed
      binding := hbinding
      unsettled := hclaim.unsettled
      fresh := hclaim.fresh }

theorem receiptCall_none {conn : Nat} {workerId jobId pubkeyHex sigHex receiptHex : String}
    (h : s.receiptCall crypto cfg conn workerId jobId pubkeyHex sigHex receiptHex = none)
    (r₁ r₂ : Except String ReceiptOutcome) :
    s.onReceiptClaim crypto cfg r₁ conn workerId jobId pubkeyHex sigHex receiptHex =
      s.onReceiptClaim crypto cfg r₂ conn workerId jobId pubkeyHex sigHex receiptHex := by
  revert h
  exact receiptClaim_cases (P := fun o f => o = none → f r₁ = f r₂) (fun _ => rfl)
    (fun _ _ _ _ => rfl) (fun _ _ _ _ _ h => nomatch h)

/-- What a call says about the state it is made in, and the step it is part of. -/
theorem verifierCall_some (h : verifierCall crypto cfg s a = some call) :
    ∃ job host now e, a = .event e host now ∧ s.pc = .events ∧ s.pending = some job ∧
      CalledFor crypto a job call ∧
      s.onEvent crypto cfg host now e = s.answered job call.workerId host.receipt := by
  unfold verifierCall at h
  split at h
  next conn workerId jobId pubkeyHex sigHex receiptHex host now =>
    by_cases hpc : s.pc = .events
    · rw [if_pos hpc] at h
      obtain ⟨job, hjob, hfor, hanswer⟩ := receiptCall_some host now h
      exact ⟨job, host, now, _, rfl, hpc, hjob, hfor, hanswer host.receipt⟩
    · rw [if_neg hpc] at h
      cases h
  next => cases h

theorem step_of_answer {s' : Serve} {e : Event} {host : Host} {now : Nat} (hpc : s.pc = .events)
    (h : s.onEvent crypto cfg host now e = some s') :
    step crypto cfg s (.event e host now) = { s' with pc := .top } := by
  rw [step, if_pos hpc, Serve.handle, h]

/-- Whatever was going to be answered, the call is the same. -/
theorem verifierCall_receipt (e : Event) (host : Host) (now : Nat)
    (r : Except String ReceiptOutcome) :
    verifierCall crypto cfg s (.event e { host with receipt := r } now) =
      verifierCall crypto cfg s (.event e host now) := by
  cases e <;> rfl

theorem step_of_no_call {e : Event} {host : Host} {now : Nat}
    (hnone : verifierCall crypto cfg s (.event e host now) = none)
    (r₁ r₂ : Except String ReceiptOutcome) :
    step crypto cfg s (.event e { host with receipt := r₁ } now) =
      step crypto cfg s (.event e { host with receipt := r₂ } now) := by
  cases e with
  | receiptClaim conn workerId jobId pubkeyHex sigHex receiptHex =>
    by_cases hpc : s.pc = .events
    · rw [verifierCall, if_pos hpc] at hnone
      rw [step, step, if_pos hpc, if_pos hpc, Serve.handle, Serve.handle, Serve.onEvent,
        Serve.onEvent, receiptCall_none hnone r₁ r₂]
    · rw [step, step, if_neg hpc, if_neg hpc]
  | _ => rfl

/-- The verifier is called exactly if its answer can make a difference. -/
theorem verifierCall_isSome_iff (e : Event) (host : Host) (now : Nat) :
    (verifierCall crypto cfg s (.event e host now)).isSome = true ↔
      ∃ r₁ r₂, step crypto cfg s (.event e { host with receipt := r₁ } now) ≠
        step crypto cfg s (.event e { host with receipt := r₂ } now) := by
  constructor
  · intro hsome
    obtain ⟨call, hcall⟩ := Option.isSome_iff_exists.mp hsome
    -- a rejected receipt leaves the job open, a good one settles it
    have hanswer : ∀ r, ∃ job, s.pc = .events ∧ job.zkAccept = none ∧
        s.onEvent crypto cfg { host with receipt := r } now e = s.answered job call.workerId r := by
      intro r
      rw [← verifierCall_receipt e host now r] at hcall
      obtain ⟨job, _, _, _, heq, hpc, -, hfor, hevent⟩ := verifierCall_some hcall
      cases heq
      exact ⟨job, hpc, hfor.unsettled, hevent⟩
    obtain ⟨job₁, hpc, hopen, hrejected⟩ := hanswer (.error "")
    obtain ⟨job₂, -, -, haccepted⟩ := hanswer (.ok ⟨0, 0, [], ""⟩)
    refine ⟨.error "", .ok ⟨0, 0, [], ""⟩, fun heq => ?_⟩
    rw [step_of_answer hpc hrejected, step_of_answer hpc haccepted] at heq
    have hreceipts : job₁.zkAccept = some (.accept "" (some "") [call.workerId] true) :=
      congrArg (fun s : Serve => s.pending.bind (·.zkAccept)) heq
    rw [hopen] at hreceipts
    cases hreceipts
  · rintro ⟨r₁, r₂, hne⟩
    rw [Option.isSome_iff_ne_none]
    exact fun hnone => hne (step_of_no_call hnone r₁ r₂)

/-! ## What a step does to the attempts -/

/-- Attempts are only added, and a receipt stays what it is. -/
structure KeepsClaims (job job' : PendingJob) : Prop where
  attempts : job.receiptClaimed ⊆ job'.receiptClaimed
  receipt : ∀ d, job.zkAccept = some d → job'.zkAccept = some d

theorem KeepsClaims.of_eq {job job' : PendingJob}
    (hclaimed : job'.receiptClaimed = job.receiptClaimed)
    (hreceipt : job'.zkAccept = job.zkAccept) : KeepsClaims job job' :=
  ⟨fun _ hid => hclaimed ▸ hid, fun _ hd => hreceipt.trans hd⟩

theorem lateJoiner_keepsClaims (job : PendingJob) (wid : String) :
    KeepsClaims job (job.lateJoiner wid) := by
  unfold PendingJob.lateJoiner
  split <;> exact .of_eq rfl rfl

theorem subscribe_keepsClaims (job : PendingJob) (jobId : String) (conn : Nat) :
    KeepsClaims job (job.subscribe jobId conn) := by
  unfold PendingJob.subscribe
  split <;> exact .of_eq rfl rfl

theorem step_keepsClaims {job job' : PendingJob} (hjob : s.pending = some job)
    (hjob' : (step crypto cfg s a).pending = some job') : KeepsClaims job job' := by
  have hmove := step_moves crypto cfg s a
  generalize hcore : (step crypto cfg s a).core = k at hmove
  rw [show (step crypto cfg s a).pending = k.pending from congrArg Core.pending hcore] at hjob'
  cases hmove with
  | authenticate =>
    rw [hjob] at hjob'
    cases hjob'
    exact lateJoiner_keepsClaims job _
  | subscribe msgs jobId conn =>
    rw [hjob] at hjob'
    cases hjob'
    exact subscribe_keepsClaims job jobId conn
  | queue descriptor targets path now subscribers hnone => cases hnone.symm.trans hjob
  | round1 hpc hpending =>
    cases hpending.symm.trans hjob
    cases hjob'
    rw [Serve.round1, assignAll_eq]
    exact .of_eq rfl rfl
  | escalate hpending =>
    cases hpending.symm.trans hjob
    cases hjob'
    rw [Serve.round2, assignAll_eq]
    exact .of_eq rfl rfl
  | finish => cases hjob'
  | count hpc hc =>
    cases hc.pending.symm.trans hjob
    cases hjob'
    exact .of_eq rfl rfl
  | claim hpending hclaimed =>
    cases hpending.symm.trans hjob
    cases hjob'
    refine ⟨?_, fun d hd => ?_⟩
    · rw [hclaimed.eq]
      exact List.subset_append_left _ _
    · cases hclaimed.open_.symm.trans hd
  | _ =>
    cases hjob.symm.trans hjob'
    exact .of_eq rfl rfl

/-- A loop that has panicked takes no further step. -/
theorem step_of_panicked (hpc : s.pc = .panicked) : (step crypto cfg s a).pc = .panicked := by
  cases a with
  | thread t => cases t <;> exact hpc
  | _ =>
    unfold step
    simp only [hpc, reduceCtorEq, if_false]

/-- The attempt is on record after the call, or the loop is gone. -/
theorem step_call {job : PendingJob} (hjob : s.pending = some job)
    (hcall : verifierCall crypto cfg s a = some call) :
    (step crypto cfg s a).pc = .panicked ∨
      ∀ job', (step crypto cfg s a).pending = some job' → call.workerId ∈ job'.receiptClaimed := by
  obtain ⟨job₀, host, now, e, rfl, hpc, hjob₀, -, hanswer⟩ := verifierCall_some hcall
  cases hjob₀.symm.trans hjob
  rw [step, if_pos hpc, Serve.handle, hanswer]
  cases hnext : s.answered job call.workerId host.receipt with
  | none => exact .inl rfl
  | some s' =>
    obtain ⟨job', rfl, heq⟩ := answered_some hnext
    right
    rintro _ ⟨⟩
    rw [heq]
    exact List.mem_append_right _ (List.mem_singleton_self _)

/-! ## One call for a worker id -/

/-- The calls made for the pending job, after `a` is taken in `s`. -/
def noteCall (crypto : Crypto) (cfg : ServeConfig) (calls : List VerifierCall) (s : Serve)
    (a : Act) : List VerifierCall :=
  if s.pending.isNone then [] else calls ++ (verifierCall crypto cfg s a).toList

/-- The calls made for the job that is pending after `h`. -/
def callsAfter (crypto : Crypto) (cfg : ServeConfig) (h : List (Serve × Act)) : List VerifierCall :=
  h.foldl (fun calls p => noteCall crypto cfg calls p.1 p.2) []

/-- Unless the loop is gone, the attempts on record cover the calls. -/
structure CallInv (calls : List VerifierCall) (s : Serve) : Prop where
  distinct : (calls.map (·.workerId)).Nodup
  recorded : s.pc = .panicked ∨
    ∀ job, s.pending = some job → ∀ call ∈ calls, call.workerId ∈ job.receiptClaimed

variable {calls : List VerifierCall}

theorem callInv_nil : CallInv [] s := ⟨List.nodup_nil, .inr fun _ _ _ hmem => nomatch hmem⟩

theorem callInv_step (h : CallInv calls s) :
    CallInv (noteCall crypto cfg calls s a) (step crypto cfg s a) := by
  unfold noteCall
  cases hjob : s.pending with
  | none => exact callInv_nil
  | some job =>
    simp only [Option.isNone_some, Bool.false_eq_true, if_false]
    cases hcall : verifierCall crypto cfg s a with
    | none =>
      rw [Option.toList_none, List.append_nil]
      refine ⟨h.distinct, ?_⟩
      rcases h.recorded with hpc | hrecorded
      · exact .inl (step_of_panicked hpc)
      · exact .inr fun job' hjob' c hc =>
          (step_keepsClaims hjob hjob').attempts (hrecorded job hjob c hc)
    | some call =>
      obtain ⟨job₀, host, now, e, rfl, hpc, hjob₀, hfor, -⟩ := verifierCall_some hcall
      cases hjob₀.symm.trans hjob
      -- the loop is at its events, so every earlier call is on record
      have hrecorded := h.recorded.resolve_left (by rw [hpc]; exact Pc.noConfusion)
      rw [Option.toList_some]
      constructor
      · rw [List.map_append, List.nodup_append]
        refine ⟨h.distinct, List.nodup_singleton _, ?_⟩
        rintro _ hmem _ hlast rfl
        obtain ⟨c, hc, hid⟩ := List.mem_map.mp hmem
        rw [List.map_singleton, List.mem_singleton] at hlast
        rw [hlast] at hid
        exact hfor.fresh (hid ▸ hrecorded job hjob c hc)
      · refine (step_call hjob hcall).imp id fun hnew job' hjob' c hc => ?_
        rcases List.mem_append.mp hc with hold | hlast
        · exact (step_keepsClaims hjob hjob').attempts (hrecorded job hjob c hold)
        · cases List.mem_singleton.mp hlast
          exact hnew job' hjob'

end

/-- From any state, and whatever the acts, the verifier is called at most once
for each worker id while a job is pending. Each call is made for a dispatched
worker, for the pending job, and for a claim whose signature verifies; a job
that has its receipt keeps it, and no call is made for it. -/
theorem verifier_called_once (crypto : Crypto) (cfg : ServeConfig) (s₀ : Serve) (acts : List Act) :
    Always (step crypto cfg) (fun h _ => ((callsAfter crypto cfg h).map (·.workerId)).Nodup)
      s₀ acts ∧
    EachStep (step crypto cfg)
      (fun _ s a =>
        (∀ call, verifierCall crypto cfg s a = some call →
          ∃ job, s.pending = some job ∧ CalledFor crypto a job call) ∧
        ∀ job d, s.pending = some job → job.zkAccept = some d →
          verifierCall crypto cfg s a = none ∧
          ∀ job', (step crypto cfg s a).pending = some job' → job'.zkAccept = some d) s₀ acts := by
  constructor
  · have hinv :
        Always (step crypto cfg) (fun h s => CallInv (callsAfter crypto cfg h) s) s₀ acts := by
      refine always_of_invariant callInv_nil ?_
      intro h s a hs
      rw [callsAfter, List.foldl_append]
      exact callInv_step hs
    exact fun pre hpre => (hinv pre hpre).distinct
  · intro pre a _
    generalize stateAfter (step crypto cfg) s₀ pre = s
    have hfor : ∀ call, verifierCall crypto cfg s a = some call →
        ∃ job, s.pending = some job ∧ CalledFor crypto a job call := by
      intro call hcall
      obtain ⟨job, -, -, -, -, -, hjob, hfor, -⟩ := verifierCall_some hcall
      exact ⟨job, hjob, hfor⟩
    refine ⟨hfor, fun job d hjob hd => ⟨?_, fun job' hjob' => ?_⟩⟩
    · cases hcall : verifierCall crypto cfg s a with
      | none => rfl
      | some call =>
        obtain ⟨job₀, hjob₀, hfor⟩ := hfor call hcall
        cases hjob₀.symm.trans hjob
        cases hfor.unsettled.symm.trans hd
    · exact (step_keepsClaims hjob hjob').receipt d hd

/-- A claim of `wA` whose receipt the verifier rejects. -/
def rejectedClaim : Act :=
  .event (.receiptClaim 1 "wA" "job-1" (keyHex 1) (sigHex 1) "")
    { quietHost with receipt := .error "" } 0

/-- The repeated claim of `wA` is dropped at the gate; `wB` still has its attempt. -/
example :
    (callsAfter receiptCrypto receiptConfig (history (step receiptCrypto receiptConfig) atClaim
    ([rejectedClaim] ++ (turnWith none (.closed 0)).dropLast ++ [ebreakClaim]
      ++ turnWith none (.receiptClaim 2 "wB" "job-1" (keyHex 2) (sigHex 2) "")))).map (·.workerId)
    = ["wA", "wB"] := by
  decide +kernel

end Provework.Coordinator
