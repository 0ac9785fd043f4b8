import Provework.Lib.Attempt
import Provework.Lib.History
import Provework.Coordinator.Deals

/-!
# What a counted result has passed

A result enters the pending job through one check after another: its signature,
its job, its place among the ids the job was dispatched to, and that no result
is there under the same id. `Counted` keeps what they established. Dispatch and
escalation only add ids, and nothing else writes results, so `serve_counts_once`
holds of every run whatever; a decided job then has one bond delta per worker.
-/

namespace Provework.Coordinator

open Provework.Lib Provework.Jobfmt Provework.Contentstore Provework.Wire

/-- The result carries a key and a signature by it over the result itself. -/
def Signed (crypto : Crypto) (r : WorkerResult) : Prop :=
  ∃ pk sig key bytes, r.pubkeyHex = some pk ∧ r.sigHex = some sig ∧
    fromHex pk 32 = .ok key ∧ fromHex sig 64 = .ok bytes ∧
    crypto.verify key (signingMessage r) bytes = .ok ()

/-- The results a job holds, against the job. -/
structure Counted (crypto : Crypto) (job : PendingJob) : Prop where
  distinct : (job.results.map (·.workerId)).Nodup
  dispatched : ∀ r ∈ job.results, r.workerId ∈ job.dispatchedIds
  jobId : ∀ r ∈ job.results, r.jobId = job.descriptor.jobId
  signed : ∀ r ∈ job.results, Signed crypto r

/-- The deltas of a finished job name each worker at most once. -/
def JobOutcome.NamesOnce (o : JobOutcome) : Prop := (o.bondDeltas.map Prod.fst).Nodup

/-- The pending job holds counted results only, and so did every finished one. -/
structure CountsOnce (crypto : Crypto) (s : Serve) : Prop where
  pending : ∀ job, s.pending = some job → Counted crypto job
  finished : ∀ o ∈ s.outcomes, o.NamesOnce

section

variable {crypto : Crypto} {job job' : PendingJob}

theorem signed_of_verifies {r : WorkerResult} (h : verifySignature crypto r = .ok ()) :
    Signed crypto r := by
  unfold verifySignature at h
  split at h
  next pk sig hpk hsig =>
    obtain ⟨key, hkey, h⟩ := except_bind_ok h
    obtain ⟨bytes, hbytes, h⟩ := except_bind_ok h
    obtain ⟨-, -, h⟩ := except_bind_ok h
    exact ⟨pk, sig, key, bytes, hpk, hsig, mapError_ok hkey, mapError_ok hbytes, mapError_ok h⟩
  next => cases h

/-- The checks stand when ids are added to those the job was dispatched to. -/
theorem Counted.mono (h : Counted crypto job) (hdesc : job'.descriptor = job.descriptor)
    (hids : job.dispatchedIds ⊆ job'.dispatchedIds) (hresults : job'.results = job.results) :
    Counted crypto job' := by
  refine ⟨?_, ?_, ?_, ?_⟩
  · rw [hresults]
    exact h.distinct
  · rw [hresults]
    exact fun r hr => hids (h.dispatched r hr)
  · rw [hresults, hdesc]
    exact h.jobId
  · rw [hresults]
    exact h.signed

theorem Counted.congr (h : Counted crypto job) (hs : SameVotes job job') : Counted crypto job' :=
  h.mono hs.descriptor (by rw [hs.dispatchedIds]; exact List.Subset.refl _) hs.results

theorem Counted.assignAll (h : Counted crypto job) (pick : String → Option Nat)
    (selected : Selection) (sent : List (Nat × ServerToClient)) :
    Counted crypto (assignAll pick selected job sent).1 := by
  rw [assignAll_eq]
  exact h.mono rfl (List.subset_append_left _ _) rfl

/-- One more result, with everything the loop checked about it. -/
theorem Counted.count {cfg : ServeConfig} {s : Serve} {conn : Nat} {x : Conn}
    {result : WorkerResult} (h : Counted crypto job)
    (hc : Countable crypto cfg s conn x result job) :
    Counted crypto { job with
      results := job.results ++ [result]
      trail := { job.trail with origins := job.trail.origins ++ [conn] } } := by
  have hall : ∀ P : WorkerResult → Prop, (∀ r ∈ job.results, P r) → P result →
      ∀ r ∈ job.results ++ [result], P r := by
    intro P hold hnew r hr
    rcases List.mem_append.mp hr with hr | hr
    · exact hold r hr
    · rw [List.mem_singleton.mp hr]
      exact hnew
  refine ⟨?_, hall _ h.dispatched ?_, hall _ h.jobId hc.jobId,
    hall _ h.signed (signed_of_verifies hc.signed)⟩
  · show ((job.results ++ [result]).map (·.workerId)).Nodup
    rw [List.map_append]
    refine h.distinct.append (List.nodup_singleton _) (List.disjoint_singleton.mpr ?_)
    intro hmem
    obtain ⟨r, hr, hid⟩ := List.mem_map.mp hmem
    exact hc.first r hr (hid.trans hc.sameId)
  · show result.workerId ∈ job.dispatchedIds
    rw [hc.sameId]
    exact hc.dispatched

/-- A decision has one delta for each result, under its worker's id. -/
theorem slashing_names (decision : Decision) (results : List WorkerResult) :
    (slashing decision results).map Prod.fst = results.map (·.workerId) := by
  cases decision <;> simp [slashing]

theorem outcome_namesOnce (h : (job.results.map (·.workerId)).Nodup) (decision : Decision) :
    (job.outcome decision).NamesOnce := by
  show ((slashing decision job.results).map Prod.fst).Nodup
  rw [slashing_names]
  exact h

end

section

variable {crypto : Crypto} {cfg : ServeConfig} {s : Serve} {a : Act}

theorem counted_step (h : ∀ job, s.pending = some job → Counted crypto job) {job' : PendingJob}
    (hjob' : (step crypto cfg s a).pending = some job') : Counted crypto job' := by
  cases moves_job (step_moves crypto cfg s a) hjob' with
  | kept hjob hsame => exact (h _ hjob).congr hsame
  | queued =>
    exact
      { distinct := List.nodup_nil
        dispatched := fun _ hr => nomatch hr
        jobId := fun _ hr => nomatch hr
        signed := fun _ hr => nomatch hr }
  | @round job job₁ _ _ pick selected hjob hstart hpick hconns hnext hsent hend =>
    exact (((h job hjob).congr hstart).assignAll pick selected s.sent).congr hend
  | counted hc => exact (h _ hc.pending).count hc

/-- Jobs on their way to the proving thread hold no results. -/
def ProvesUnvoted (s : Serve) : Prop := ∀ job ∈ s.proving, job.results = []

theorem provesUnvoted_step (h : ProvesUnvoted s) : ProvesUnvoted (step crypto cfg s a) := by
  intro job hjob
  rcases step_proving hjob with hold | ⟨descriptor, now, conn, rfl⟩
  · exact h job hold
  · rfl

theorem finished_step (hunvoted : ProvesUnvoted s) (h : CountsOnce crypto s) :
    ∀ o ∈ (step crypto cfg s a).outcomes, o.NamesOnce := by
  intro o ho
  rcases step_outcomes crypto cfg s a with hsame | ⟨job, decision, hnew, hjob⟩
  · exact h.finished o (hsame ▸ ho)
  · rw [hnew] at ho
    rcases List.mem_append.mp ho with ho | ho
    · exact h.finished o ho
    · rw [List.mem_singleton.mp ho]
      refine outcome_namesOnce ?_ decision
      rcases hjob with hpending | hproving
      · exact (h.pending job hpending).distinct
      · rw [hunvoted job hproving]
        exact List.nodup_nil

end

/-- In every state of every run, the results the pending job holds are of
distinct workers it was dispatched to, are about this job and signed, and the
bond deltas of every finished job name each worker at most once. -/
theorem serve_counts_once (crypto : Crypto) (cfg : ServeConfig) (nextConn : Nat) (store : Store)
    (acts : List Act) :
    Always (step crypto cfg) (fun _ s => CountsOnce crypto s) (Serve.init nextConn store) acts := by
  have hinv : Always (step crypto cfg) (fun _ s => ProvesUnvoted s ∧ CountsOnce crypto s)
      (Serve.init nextConn store) acts := by
    refine always_of_invariant ?_ ?_
    · exact ⟨(fun _ hjob => nomatch hjob), (fun _ hjob => nomatch hjob), fun _ ho => nomatch ho⟩
    · intro _ s a hs
      exact ⟨provesUnvoted_step hs.1, fun job hjob => counted_step hs.2.pending hjob,
        finished_step hs.1 hs.2⟩
  exact fun pre hpre => (hinv pre hpre).2

end Provework.Coordinator
