import Provework.Coordinator.Serve

/-!
# How a receipt claim ends

A receipt claim passes the checks on its connection, on its size and encoding, on
its signature and on the pending job before `receipt_claim_gate` uses up the
worker's attempt, and only then is the external verifier called. `receiptCall` is
the call a claim leads to. `receiptClaim_cases` goes through the checks once, for
the handler and for the call: a claim is dropped, or its attempt is used up on a
descriptor that does not decode, or the verifier's answer decides. What the other
modules say of a claim they say of these three.
-/

namespace Provework.Coordinator

open Provework.Lib Provework.Jobfmt Provework.Contentstore Provework.Wire

/-- A call of `verify_receipt`, with the claim it is made for. -/
structure VerifierCall where
  workerId : String
  jobId : String
  pubkeyHex : String
  sigHex : String
  receipt : List U8
  binding : List (List U8)
  deriving DecidableEq

namespace Serve

variable (crypto : Crypto) (cfg : ServeConfig)

/-- The call a claim leads to once its signature verifies. -/
def callFor (s : Serve) (workerId jobId pubkeyHex sigHex : String) (receipt : List U8) :
    Option VerifierCall :=
  match s.pending with
  | none => none
  | some job =>
    if jobId ≠ job.descriptor.jobId ∨ job.zkAccept.isSome then none
    else if workerId ∉ job.dispatchedIds then none
    else
      match receiptClaimGate job.receiptClaimed workerId with
      | none => none
      | some _ =>
        match expectedBinding job.descriptor with
        | .error _ => none
        | .ok binding => some ⟨workerId, jobId, pubkeyHex, sigHex, receipt, binding⟩

def receiptCall (s : Serve) (conn : Nat) (workerId jobId pubkeyHex sigHex receiptHex : String) :
    Option VerifierCall :=
  match s.conns.lookup conn with
  | none => none
  | some c =>
    if !c.authed then none
    else if workerId ≠ c.workerId then none
    else if c.pubkey.any (· ≠ pubkeyHex) then none
    else if !cfg.zk then none
    else if 2 * maxReceiptBytes < (utf8 receiptHex).length then none
    else
      match fromHex receiptHex ((utf8 receiptHex).length / 2) with
      | .error _ => none
      | .ok bytes =>
        match verifyClaimSig crypto pubkeyHex jobId (crypto.blake3 bytes) sigHex with
        | .error _ => none
        | .ok () => s.callFor workerId jobId pubkeyHex sigHex bytes

end Serve

/-- The attempt is on record before the verifier answers. -/
def PendingJob.attempted (job : PendingJob) (workerId : String) : PendingJob :=
  { job with receiptClaimed := job.receiptClaimed ++ [workerId] }

/-- What the answer of the verifier leads to. -/
def Serve.answered (s : Serve) (job : PendingJob) (workerId : String) :
    Except String ReceiptOutcome → Option Serve
  | .ok outcome =>
    ((job.attempted workerId).acceptReceipt workerId outcome).map fun job =>
      { s with pending := some job }
  | .error _ => some { s with pending := some (job.attempted workerId) }

theorem acceptReceipt_eq {job job' : PendingJob} {workerId : String} {outcome : ReceiptOutcome}
    (h : job.acceptReceipt workerId outcome = some job') :
    job' = { job with zkAccept := job'.zkAccept } := by
  unfold PendingJob.acceptReceipt at h
  split at h
  · dsimp only at h
    split at h
    · cases h
      rfl
    · cases h
  · cases h
    rfl

/-- Whatever is answered, the attempt is used up and at most the verdict is set. -/
theorem answered_some {s s' : Serve} {job : PendingJob} {workerId : String}
    {receipt : Except String ReceiptOutcome} (h : s.answered job workerId receipt = some s') :
    ∃ job', s' = { s with pending := some job' } ∧
      job' = { job.attempted workerId with zkAccept := job'.zkAccept } := by
  cases receipt with
  | error e =>
    cases h
    exact ⟨job.attempted workerId, rfl, rfl⟩
  | ok outcome =>
    obtain ⟨job', hjob', rfl⟩ := Option.map_eq_some_iff.mp h
    exact ⟨job', rfl, acceptReceipt_eq hjob'⟩

/-- The claim has passed every check up to the gate, with `bytes` for a receipt. -/
structure Claimable (crypto : Crypto) (cfg : ServeConfig) (s : Serve) (conn : Nat)
    (workerId jobId pubkeyHex sigHex receiptHex : String) (job : PendingJob) (bytes : List U8) :
    Prop where
  live : ∃ x, s.conns.lookup conn = some x ∧ x.authed = true ∧ workerId = x.workerId ∧
    x.pubkey.any (· ≠ pubkeyHex) = false
  enabled : cfg.zk = true
  size : (utf8 receiptHex).length ≤ 2 * maxReceiptBytes
  decoded : fromHex receiptHex ((utf8 receiptHex).length / 2) = .ok bytes
  signed : verifyClaimSig crypto pubkeyHex jobId (crypto.blake3 bytes) sigHex = .ok ()
  pending : s.pending = some job
  sameJob : jobId = job.descriptor.jobId
  unsettled : job.zkAccept = none
  dispatched : workerId ∈ job.dispatchedIds
  fresh : workerId ∉ job.receiptClaimed

section

variable {crypto : Crypto} {cfg : ServeConfig} {s : Serve} {conn : Nat}
  {workerId jobId pubkeyHex sigHex receiptHex : String}
  {P : Option VerifierCall → (Except String ReceiptOutcome → Option Serve) → Prop}

/-- A check that drops the claim drops the call. -/
theorem claim_guard {p : Prop} [Decidable p] {o : Option VerifierCall}
    {f : Except String ReceiptOutcome → Option Serve} (hdropped : P none fun _ => some s)
    (h : ¬p → P o f) : P (if p then none else o) fun r => if p then some s else f r := by
  by_cases hp : p
  · simp only [if_pos hp]
    exact hdropped
  · simp only [if_neg hp]
    exact h hp

/-- The three ways a claim can end. -/
theorem receiptClaim_cases (hdropped : P none fun _ => some s)
    (hundecoded : ∀ job bytes,
      Claimable crypto cfg s conn workerId jobId pubkeyHex sigHex receiptHex job bytes →
      P none fun _ => some { s with pending := some (job.attempted workerId) })
    (hanswered : ∀ job bytes binding,
      Claimable crypto cfg s conn workerId jobId pubkeyHex sigHex receiptHex job bytes →
      expectedBinding job.descriptor = .ok binding →
      P (some ⟨workerId, jobId, pubkeyHex, sigHex, bytes, binding⟩) (s.answered job workerId)) :
    P (s.receiptCall crypto cfg conn workerId jobId pubkeyHex sigHex receiptHex)
      fun r => s.onReceiptClaim crypto cfg r conn workerId jobId pubkeyHex sigHex receiptHex := by
  unfold Serve.receiptCall Serve.onReceiptClaim Serve.handleReceiptClaim
  cases hx : s.conns.lookup conn with
  | none => exact hdropped
  | some x =>
    refine claim_guard hdropped fun hauthed => claim_guard hdropped fun hid => ?_
    refine claim_guard hdropped fun hkey => claim_guard hdropped fun henabled => ?_
    refine claim_guard hdropped fun hsize => ?_
    cases hbytes : fromHex receiptHex ((utf8 receiptHex).length / 2) with
    | error e => exact hdropped
    | ok bytes =>
      dsimp only
      cases hsig : verifyClaimSig crypto pubkeyHex jobId (crypto.blake3 bytes) sigHex with
      | error e => exact hdropped
      | ok u =>
        dsimp only
        unfold Serve.callFor Serve.claimReceipt
        cases hjob : s.pending with
        | none => exact hdropped
        | some job =>
          refine claim_guard hdropped fun hopen => claim_guard hdropped fun hdispatched => ?_
          unfold receiptClaimGate
          by_cases hfresh : workerId ∈ job.receiptClaimed
          · simp only [if_pos hfresh]
            exact hdropped
          · simp only [if_neg hfresh]
            have hclaim :
                Claimable crypto cfg s conn workerId jobId pubkeyHex sigHex receiptHex job bytes :=
              { live := ⟨x, hx, by simpa using hauthed, not_not.mp hid, by simpa using hkey⟩
                enabled := by simpa using henabled
                size := Nat.not_lt.mp hsize
                decoded := hbytes
                signed := hsig
                pending := hjob
                sameJob := by simpa using fun h => hopen (Or.inl h)
                unsettled := by simpa using fun h => hopen (Or.inr h)
                dispatched := not_not.mp hdispatched
                fresh := hfresh }
            -- the attempt is used up, and only a descriptor that does not decode stops the call
            cases hbinding : expectedBinding job.descriptor with
            | error e => exact hundecoded job bytes hclaim
            | ok binding =>
              refine (congrArg (P _) (funext fun r => ?_)).mp
                (hanswered job bytes binding hclaim hbinding)
              cases r <;> rfl

end

end Provework.Coordinator
