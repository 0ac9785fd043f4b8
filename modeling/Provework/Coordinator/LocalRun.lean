import Provework.Coordinator.Majority
import Provework.Worker.CommandLine

/-!
# A quorum on one machine (`cmd_run` of `crates/coordinator/src/main.rs`)

`coordinator run` starts `worker run` three times, and twice more if that does not
decide, and applies the quorum rule. With `--identities` the first three sign, and a
result whose signature fails counts as malformed. As `worker run` does not sign what
the coordinator checks, that is all of them: `cmdRun_identities_rejects`.

Modelling notes:
- A worker that exits with an error is a panic here, as it is in the source.
- A result is read back from its file as it was written. The ledger and the printed
  summary are left out.
-/

namespace Provework.Coordinator

open Provework.Lib Provework.Jobfmt Provework.Contentstore Provework.Worker

structure LocalArgs where
  jobDir : Dir
  /-- Has the second worker lie. -/
  corrupt : Bool
  snapshots : Bool
  /-- The key files of the first three workers, with `--identities`. -/
  identities : Option (Nat → IdentityFile)

section

variable (crypto : Crypto) (host : WorkerHost) (signingKey : List U8 → Identity) (args : LocalArgs)

def runWorker (id : String) (corrupt snapshots : Bool) (identity : Option IdentityFile) :
    Option WorkerResult :=
  (Worker.cmdRun host { jobDir := args.jobDir, id, corrupt, snapshots, syscalls := false, identity }
    signingKey).join

/-- The result of a worker as it goes into the pool. -/
def verified (r : WorkerResult) : WorkerResult :=
  if args.identities.isSome then
    match verifySignature crypto r with
    | .ok () => r
    | .error _ => { r with status := "malformed" }
  else r

/-- A worker of the first round, counted from 1. -/
def firstRound (i : Nat) (id : String) : Option WorkerResult :=
  (runWorker host signingKey args id (args.corrupt && i = 2) args.snapshots
    (args.identities.map fun files => files i)).map (verified crypto args)

def poolDecision (pool : List WorkerResult) : Decision :=
  Quorum.decide pool (if 3 < pool.length then 5 else 3)

def cmdRun : Option Decision := do
  let w1 ← firstRound crypto host signingKey args 1 "w1"
  let w2 ← firstRound crypto host signingKey args 2 "w2"
  let w3 ← firstRound crypto host signingKey args 3 "w3"
  match poolDecision [w1, w2, w3] with
  | .escalate =>
    -- the two that are called in do not sign, and nobody asks them to
    let w4 ← runWorker host signingKey args "w4" false false none
    let w5 ← runWorker host signingKey args "w5" false false none
    return poolDecision [w1, w2, w3, w4, w5]
  | decision => return decision

variable {crypto host signingKey args}

/-- A first-round result under `--identities`. -/
theorem firstRound_malformed (hkeys : ∀ seed, seed.length = 32 → KeyPair crypto (signingKey seed))
    (hidentities : args.identities.isSome = true) {i : Nat} {id : String} {r : WorkerResult}
    (h : firstRound crypto host signingKey args i id = some r) :
    r.workerId = id ∧ r.status = "malformed" := by
  obtain ⟨files, hfiles⟩ := Option.isSome_iff_exists.mp hidentities
  obtain ⟨r₀, hworker, rfl⟩ := Option.map_eq_some_iff.mp h
  obtain ⟨hid, hfails⟩ :=
    cmdRun_signed hkeys (by rw [hfiles]; rfl) (Option.join_eq_some_iff.mp hworker)
  rw [verified, if_pos hidentities]
  split
  next hok => exact absurd hok hfails
  next => exact ⟨hid, rfl⟩

/-- A pool of distinct workers of which none halted. -/
theorem poolDecision_malformed {w1 w2 w3 : WorkerResult}
    (hids : ([w1, w2, w3].map (·.workerId)).Nodup)
    (h : ∀ r ∈ [w1, w2, w3], r.status = "malformed") :
    poolDecision [w1, w2, w3] = .reject "majority of workers trapped: job is broken" := by
  have hdedup : Quorum.dedup [] [w1, w2, w3] = [w1, w2, w3] :=
    Quorum.dedup_eq_self [] hids fun _ _ => List.not_mem_nil
  have hhalted : [w1, w2, w3].filter (fun r => r.status = "halted") = [] := by
    refine List.filter_eq_nil_iff.mpr fun r hr => ?_
    rw [h r hr]
    decide
  rw [poolDecision, Quorum.decide]
  simp [hdedup, hhalted, Quorum.decideWithout]

/-- With `--identities`, `coordinator run` rejects every job it decides. -/
theorem cmdRun_identities_rejects
    (hkeys : ∀ seed, seed.length = 32 → KeyPair crypto (signingKey seed))
    (hidentities : args.identities.isSome = true) {decision : Decision}
    (h : cmdRun crypto host signingKey args = some decision) :
    decision = .reject "majority of workers trapped: job is broken" := by
  obtain ⟨w1, h1, h⟩ := Option.bind_eq_some_iff.mp h
  obtain ⟨w2, h2, h⟩ := Option.bind_eq_some_iff.mp h
  obtain ⟨w3, h3, h⟩ := Option.bind_eq_some_iff.mp h
  obtain ⟨hid1, hstatus1⟩ := firstRound_malformed hkeys hidentities h1
  obtain ⟨hid2, hstatus2⟩ := firstRound_malformed hkeys hidentities h2
  obtain ⟨hid3, hstatus3⟩ := firstRound_malformed hkeys hidentities h3
  have hids : ([w1, w2, w3].map (·.workerId)).Nodup := by simp [hid1, hid2, hid3]
  have hstatus : ∀ r ∈ [w1, w2, w3], r.status = "malformed" := by
    simp [hstatus1, hstatus2, hstatus3]
  rw [poolDecision_malformed hids hstatus] at h
  exact (Option.some.inj h).symm

end

end Provework.Coordinator
