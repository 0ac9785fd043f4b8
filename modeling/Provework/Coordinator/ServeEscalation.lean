import Provework.Coordinator.ServeNotices
import Provework.Coordinator.ServePool
import Provework.Coordinator.ServeReceipt

/-!
# The second round

A job without a majority goes to its reserves once (`serve_escalates_once`): the
escalation empties the list, and the flag it sets keeps late joiners off it. The
test for it comes before the receipt is looked at, though, so a job that is
settled by a receipt while its results give no majority is sent to the reserves
as well (`receipt_ends_job_iff`).
-/

namespace Provework.Coordinator

open Provework.Lib Provework.Jobfmt Provework.Contentstore Provework.Wire

/-! ## What a step outside the two rounds does to the job -/

/-- The acts that can give the job to a worker. -/
def Act.dispatches : Act → Bool
  | .assign _ => true
  | .complete _ _ _ => true
  | _ => false

/-- The job was not given to anybody. -/
structure Tended (job job' : PendingJob) : Prop where
  descriptor : job'.descriptor = job.descriptor
  dispatched : job'.dispatched = job.dispatched
  escalated : job'.escalated = job.escalated
  dispatchedIds : job'.dispatchedIds = job.dispatchedIds
  /-- Late joiners come in between the two rounds. -/
  reserves : job'.reserves = job.reserves ∨ job.dispatched = true ∧ job.escalated = false
  receipt : job'.zkAccept = job.zkAccept ∨ job.dispatchedIds ≠ []

section

variable {crypto : Crypto} {cfg : ServeConfig} {s : Serve} {a : Act} {job job' : PendingJob}

theorem Tended.refl (job : PendingJob) : Tended job job :=
  ⟨rfl, rfl, rfl, rfl, Or.inl rfl, Or.inl rfl⟩

theorem lateJoiner_tended (job : PendingJob) (wid : String) : Tended job (job.lateJoiner wid) := by
  unfold PendingJob.lateJoiner
  split
  next hjoins =>
    simp only [Bool.and_eq_true, Bool.not_eq_true'] at hjoins
    exact ⟨rfl, rfl, rfl, rfl, Or.inr ⟨hjoins.1.1.1, hjoins.1.1.2⟩, Or.inl rfl⟩
  next => exact .refl job

theorem subscribe_tended (job : PendingJob) (jobId : String) (conn : Nat) :
    Tended job (job.subscribe jobId conn) := by
  unfold PendingJob.subscribe
  split
  · exact ⟨rfl, rfl, rfl, rfl, Or.inl rfl, Or.inl rfl⟩
  · exact .refl job

/-- Apart from these acts, a job is new or was tended. -/
theorem step_tended (ha : a.dispatches = false)
    (hjob' : (step crypto cfg s a).pending = some job') :
    (s.pending = none ∧ ∃ descriptor targets path now subscribers,
      job' = .queued descriptor targets path now subscribers) ∨
    ∃ job, s.pending = some job ∧ Tended job job' := by
  have hmove := step_moves crypto cfg s a
  generalize hcore : (step crypto cfg s a).core = k at hmove
  rw [show (step crypto cfg s a).pending = k.pending from congrArg Core.pending hcore] at hjob'
  cases hmove with
  | authenticate =>
    obtain ⟨job, hjob, rfl⟩ := Option.map_eq_some_iff.mp hjob'
    exact .inr ⟨job, hjob, lateJoiner_tended job _⟩
  | subscribe msgs jobId conn =>
    obtain ⟨job, hjob, rfl⟩ := Option.map_eq_some_iff.mp hjob'
    exact .inr ⟨job, hjob, subscribe_tended job jobId conn⟩
  | queue descriptor targets path now subscribers hnone =>
    cases hjob'
    exact .inl ⟨hnone, descriptor, targets, path, now, subscribers, rfl⟩
  | round1 => cases ha
  | escalate => cases ha
  | finish => cases hjob'
  | @count conn x result job host now hpc hc =>
    cases hjob'
    exact .inr ⟨job, hc.pending, rfl, rfl, rfl, rfl, Or.inl rfl, Or.inl rfl⟩
  | @claim _ workerId job job'' hjob hclaimed =>
    cases hjob'
    refine .inr ⟨job, hjob, ?_⟩
    rw [hclaimed.eq]
    exact ⟨rfl, rfl, rfl, rfl, Or.inl rfl, Or.inr (List.ne_nil_of_mem hclaimed.dispatched)⟩
  | _ => exact .inr ⟨job', hjob', .refl job'⟩

end

/-! ## At most one escalation -/

/-- The completion check takes the escalation branch. -/
def PendingJob.escalates (job : PendingJob) : Bool :=
  job.dispatched && job.allIn &&
    (Quorum.decide job.results job.dispatchedIds.length = .escalate ∧ job.reserves ≠ [])

/-- What has been done with the pending job so far. -/
structure Life where
  /-- The ids of round 1. -/
  selected : List String
  escalations : Nat
  /-- The reserves that were there when the escalation was taken. -/
  reserves : List String
  /-- How often the job was sent out. -/
  rounds : Nat

def Life.fresh : Life := ⟨[], 0, [], 0⟩

def Life.observe (l : Life) (s : Serve) (a : Act) : Life :=
  match s.pending with
  | none => .fresh
  | some job =>
    match a with
    | .assign _ =>
      match s.pc with
      | .assign selected _ =>
        { l with selected := l.selected ++ selected.map Prod.fst, rounds := l.rounds + 1 }
      | _ => l
    | .complete _ _ _ =>
      if s.pc = .complete ∧ job.escalates then
        { l with
          escalations := l.escalations + 1
          reserves := l.reserves ++ job.reserves
          rounds := l.rounds + 1 }
      else l
    | _ => l

/-- The life of the job that is pending after `h`. -/
def lifeAfter (h : List (Serve × Act)) : Life := h.foldl (fun l p => l.observe p.1 p.2) .fresh

/-- The escalation was taken at most once, nothing is left to take it again, and
only the ids of the two rounds were given the job. -/
structure EscalatesOnce (l : Life) (job : PendingJob) : Prop where
  once : l.escalations ≤ 1
  spent : 1 ≤ l.escalations → job.reserves = []
  dispatchedIds : ∀ id ∈ job.dispatchedIds, id ∈ l.selected ++ l.reserves
  rounds : l.rounds ≤ 2

/-- The three ages of a job. -/
inductive Stage (l : Life) (job : PendingJob) : Prop
  | queued (hdispatched : job.dispatched = false) (hescalated : job.escalated = false)
      (hids : job.dispatchedIds = []) (hlife : l = .fresh)
  | first (hdispatched : job.dispatched = true) (hescalated : job.escalated = false)
      (hids : ∀ id ∈ job.dispatchedIds, id ∈ l.selected) (hescalations : l.escalations = 0)
      (hrounds : l.rounds = 1)
  | second (hdispatched : job.dispatched = true) (hescalated : job.escalated = true)
      (hreserves : job.reserves = []) (hids : ∀ id ∈ job.dispatchedIds,
        id ∈ l.selected ++ l.reserves)
      (hescalations : l.escalations = 1) (hrounds : l.rounds = 2)

/-- The pending job is in one of its ages, and while it is being given out it is
in the first. -/
structure LifeInv (l : Life) (s : Serve) : Prop where
  stage : ∀ job, s.pending = some job → Stage l job
  flight : s.pc.inFlight = true → ∀ job, s.pending = some job → job.dispatched = false

section

variable {crypto : Crypto} {cfg : ServeConfig} {s : Serve} {a : Act} {l : Life}
  {job job' : PendingJob}

theorem Stage.escalatesOnce (h : Stage l job) : EscalatesOnce l job := by
  cases h with
  | queued hdispatched hescalated hids hlife =>
    subst hlife
    exact ⟨Nat.zero_le 1, nofun, by rw [hids]; nofun, Nat.zero_le 2⟩
  | first hdispatched hescalated hids hescalations hrounds =>
    exact ⟨by omega, by omega, fun id hid => List.mem_append_left _ (hids id hid), by omega⟩
  | second hdispatched hescalated hreserves hids hescalations hrounds =>
    exact ⟨by omega, fun _ => hreserves, hids, by omega⟩

theorem Stage.tend (h : Stage l job) (ht : Tended job job') : Stage l job' := by
  cases h with
  | queued hdispatched hescalated hids hlife =>
    exact .queued (ht.dispatched.trans hdispatched) (ht.escalated.trans hescalated)
      (ht.dispatchedIds.trans hids) hlife
  | first hdispatched hescalated hids hescalations hrounds =>
    exact .first (ht.dispatched.trans hdispatched) (ht.escalated.trans hescalated)
      (ht.dispatchedIds ▸ hids) hescalations hrounds
  | second hdispatched hescalated hreserves hids hescalations hrounds =>
    refine .second (ht.dispatched.trans hdispatched) (ht.escalated.trans hescalated) ?_
      (ht.dispatchedIds ▸ hids) hescalations hrounds
    rcases ht.reserves with hsame | ⟨-, hopen⟩
    · exact hsame.trans hreserves
    · exact absurd (hescalated.symm.trans hopen) nofun

/-- The ids a round gives the job to are among those it was meant for. -/
theorem assignments_subset (pick : String → Option Nat) (selected : Selection) :
    ∀ id ∈ (assignments pick selected).map (·.1), id ∈ selected.map Prod.fst := by
  intro id hid
  obtain ⟨x, hx, rfl⟩ := List.mem_map.mp hid
  obtain ⟨y, hy, h⟩ := List.mem_filterMap.mp hx
  obtain ⟨conn, -, rfl⟩ := Option.map_eq_some_iff.mp h
  exact List.mem_map.mpr ⟨y, hy, rfl⟩

/-- Round 1 is the first, of a job that nobody had. -/
theorem stage_round1 (h : LifeInv l s) {selected : Selection} {reserves : List String}
    (hpc : s.pc = .assign selected reserves) (hjob : s.pending = some job) (now : Nat) :
    Stage (l.observe s (.assign now)) { (s.round1 job selected).1 with
      reserves := reserves, dispatched := true, started := now } := by
  have hundispatched := h.flight (by rw [hpc]; rfl) job hjob
  have hobserve : l.observe s (.assign now)
      = { l with selected := l.selected ++ selected.map Prod.fst, rounds := l.rounds + 1 } := by
    simp only [Life.observe, hjob, hpc]
  rw [hobserve, Serve.round1, assignAll_eq]
  cases h.stage job hjob with
  | queued hdispatched hescalated hids hlife =>
    subst hlife
    refine .first rfl hescalated ?_ rfl rfl
    show ∀ id ∈ job.dispatchedIds ++ _, id ∈ [] ++ selected.map Prod.fst
    rw [hids]
    exact assignments_subset s.conns.bearer selected
  | first hdispatched => exact Bool.noConfusion (hdispatched.symm.trans hundispatched)
  | second hdispatched => exact Bool.noConfusion (hdispatched.symm.trans hundispatched)

/-- The escalation is the second, of a job that has reserves. -/
theorem stage_round2 (h : Stage l job) (hdispatched : job.dispatched = true)
    (hreserves : job.reserves ≠ []) (now : Nat) :
    Stage { l with escalations := l.escalations + 1, reserves := l.reserves ++ job.reserves,
                   rounds := l.rounds + 1 }
      { (s.round2 job).1 with escalated := true, started := now } := by
  rw [Serve.round2, assignAll_eq]
  cases h with
  | queued hundispatched => exact Bool.noConfusion (hdispatched.symm.trans hundispatched)
  | first _ hescalated hids hescalations hrounds =>
    refine .second hdispatched rfl rfl (fun id hid => ?_) (by simp only [hescalations])
      (by simp only [hrounds])
    rcases List.mem_append.mp hid with hold | hnew
    · exact List.mem_append_left _ (hids id hold)
    · have hmem := assignments_subset s.conns.authedBearer _ id hnew
      rw [List.map_map] at hmem
      obtain ⟨wid, hwid, rfl⟩ := List.mem_map.mp hmem
      exact List.mem_append_right _ (List.mem_append_right _ hwid)
  | second _ _ hnone => exact absurd hnone hreserves

theorem stage_complete (h : LifeInv l s) (hpc : s.pc = .complete) (now : Nat)
    (zk replay : Option Decision)
    (hjob' : (s.checkComplete cfg now zk replay).pending = some job') :
    Stage (l.observe s (.complete now zk replay)) job' := by
  unfold Serve.checkComplete at hjob'
  split at hjob'
  next hnone =>
    rw [show (Serve.pending { s with pc := .events }) = s.pending from rfl, hnone] at hjob'
    cases hjob'
  next job hjob =>
    have hstage := h.stage job hjob
    have hobserve : l.observe s (.complete now zk replay) = if job.escalates then
        { l with escalations := l.escalations + 1, reserves := l.reserves ++ job.reserves
                 rounds := l.rounds + 1 } else l := by
      simp only [Life.observe, hjob, hpc, true_and]
    have hstays : job.escalates = false → Stage (l.observe s (.complete now zk replay)) job := by
      intro hno
      rw [hobserve, hno]
      exact hstage
    split at hjob'
    next hundispatched =>
      obtain rfl : job = job' := Option.some.inj (hjob.symm.trans hjob')
      have hno : job.dispatched = false := by simpa using hundispatched
      exact hstays (by simp only [PendingJob.escalates, hno, Bool.false_and])
    next hdispatched =>
      split at hjob'
      next hall =>
        split at hjob'
        next hescalate =>
          have hdispatched' : job.dispatched = true := by simpa using hdispatched
          have hyes : job.escalates = true := by
            simp only [PendingJob.escalates, hdispatched', hall, Bool.true_and,
              decide_eq_true hescalate]
          cases hjob'
          rw [hobserve, hyes]
          exact stage_round2 hstage hdispatched' hescalate.2 now
        next => cases hjob'
      next hwaiting =>
        split at hjob'
        · cases hjob'
        · obtain rfl : job = job' := Option.some.inj (hjob.symm.trans hjob')
          exact hstays (by
            simp only [PendingJob.escalates, Bool.eq_false_iff.mpr hwaiting, Bool.and_false,
              Bool.false_and])

theorem stage_tended (h : LifeInv l s)
    (hobserve : ∀ job, s.pending = some job → l.observe s a = l)
    (hjob' : (s.pending = none ∧ ∃ descriptor targets path now subscribers,
        job' = .queued descriptor targets path now subscribers) ∨
      ∃ job, s.pending = some job ∧ Tended job job') : Stage (l.observe s a) job' := by
  rcases hjob' with ⟨hnone, descriptor, targets, path, now, subscribers, rfl⟩ | ⟨job, hjob, htended⟩
  · refine .queued rfl rfl rfl ?_
    simp only [Life.observe, hnone]
  · rw [hobserve job hjob]
    exact (h.stage job hjob).tend htended

theorem stage_step (h : LifeInv l s) (hjob' : (step crypto cfg s a).pending = some job') :
    Stage (l.observe s a) job' := by
  cases a with
  | assign now =>
    rw [step] at hjob'
    split at hjob'
    next selected reserves hpc =>
      unfold Serve.assign at hjob'
      split at hjob'
      next hnone => cases hnone.symm.trans hjob'
      next job hjob =>
        cases hjob'
        exact stage_round1 h hpc hjob now
    next hpc =>
      refine stage_tended h (fun job hjob => ?_) (.inr ⟨job', hjob', .refl job'⟩)
      simp only [Life.observe, hjob]
  | complete now zk replay =>
    rw [step] at hjob'
    split at hjob'
    next hpc => exact stage_complete h hpc now zk replay hjob'
    next hpc =>
      refine stage_tended h (fun job hjob => ?_) (.inr ⟨job', hjob', .refl job'⟩)
      simp only [Life.observe, hjob, hpc, false_and, if_false]
  | _ =>
    refine stage_tended h (fun job hjob => ?_) (step_tended rfl hjob')
    simp only [Life.observe, hjob]

theorem lifeInv_step (h : LifeInv l s) : LifeInv (l.observe s a) (step crypto cfg s a) := by
  refine ⟨fun job' hjob' => stage_step h hjob', fun hflight job' hjob' => ?_⟩
  cases step_pc crypto cfg s a with
  | grounded hpc => exact absurd (hpc.symm.trans hflight) nofun
  | kept hpc hpending => exact h.flight (hpc ▸ hflight) job' (hpending ▸ hjob')
  | chosen hjob hundispatched hnext =>
    rw [hnext] at hjob'
    exact Option.some.inj (hjob.symm.trans hjob') ▸ hundispatched
  | held hpc hjob hnext =>
    rw [hnext] at hjob'
    exact h.flight (by rw [hpc]; rfl) job' hjob'

end

theorem lifeInv_always (crypto : Crypto) (cfg : ServeConfig) (nextConn : Nat) (store : Store)
    (acts : List Act) :
    Always (step crypto cfg) (fun h s => LifeInv (lifeAfter h) s) (Serve.init nextConn store)
      acts := by
  refine always_of_invariant ⟨nofun, nofun⟩ ?_
  intro h s a hs
  rw [lifeAfter, List.foldl_append]
  exact lifeInv_step hs

/-- In every run of the coordinator every pending job has been escalated at most
once, has no reserves from then on, and was given to nobody but the ids of its
round 1 and the reserves of that one escalation, in at most two rounds. -/
theorem serve_escalates_once (crypto : Crypto) (cfg : ServeConfig) (nextConn : Nat) (store : Store)
    (acts : List Act) :
    Always (step crypto cfg) (fun h s => ∀ job, s.pending = some job →
      EscalatesOnce (lifeAfter h) job)
      (Serve.init nextConn store) acts := by
  have hinv := lifeInv_always crypto cfg nextConn store acts
  exact fun pre hpre job hjob => ((hinv pre hpre).stage job hjob).escalatesOnce

/-! ## A job with a receipt -/

/-- From `s` to `s'` a job that has its receipt is sent to nobody, and it stays
pending with its receipt or is finished on it. -/
def EndsOnReceipt (s s' : Serve) : Prop :=
  ∀ job d, s.pending = some job → job.zkAccept = some d →
    (∀ conn hints, (conn, ServerToClient.jobAssignment job.descriptor hints)
      ∉ s'.sent.drop s.sent.length) ∧
    ((s'.outcomes = s.outcomes ∧ ∃ job', s'.pending = some job' ∧ job'.descriptor = job.descriptor ∧
        job'.zkAccept = some d) ∨
      (s'.pending = none ∧ ∃ o, s'.outcomes = s.outcomes ++ [o] ∧ o.jobId = job.descriptor.jobId ∧
        o.decision = d))

/-- The completion check of a job with a receipt finds a majority in its results, or
no reserve that is still there. -/
def NobodyToAsk (s : Serve) : Act → Prop
  | .complete _ _ _ => s.pc = .complete → ∀ job, s.pending = some job → job.zkAccept.isSome = true →
      Quorum.decide job.results job.dispatchedIds.length = .escalate →
      ∀ wid ∈ job.reserves, s.conns.authedBearer wid = none
  | _ => True

/-- A receipt is for a job that was sent out, and the loop goes on to finish it. -/
structure ReceiptInv (s : Serve) : Prop where
  marks : MarksDispatched s
  settling : ∀ job d, s.pending = some job → job.zkAccept = some d → Settling d job s

section

variable {crypto : Crypto} {cfg : ServeConfig} {s : Serve} {a : Act} {job job' : PendingJob}
  {d : Decision}

/-- Only an event brings a receipt. -/
theorem receipt_of_not_event (ha : ∀ e host now, a ≠ .event e host now)
    (hjob' : (step crypto cfg s a).pending = some job') (hd : job'.zkAccept = some d) :
    ∃ job, s.pending = some job ∧ job.zkAccept = some d := by
  cases a with
  | thread t => cases t <;> exact ⟨job', hjob', hd⟩
  | scan found now =>
    rw [step] at hjob'
    split at hjob'
    · unfold Serve.scan at hjob'
      split at hjob'
      · exact ⟨job', hjob', hd⟩
      · split at hjob'
        · exact ⟨job', hjob', hd⟩
        · split at hjob'
          · exact ⟨job', hjob', hd⟩
          · exact ⟨job', hjob', hd⟩
          · cases hjob'
            cases hd
    · exact ⟨job', hjob', hd⟩
  | choose draws =>
    rw [step] at hjob'
    split at hjob'
    · unfold Serve.choose at hjob'
      split at hjob'
      · exact ⟨job', hjob', hd⟩
      · split at hjob' <;> exact ⟨job', hjob', hd⟩
    · exact ⟨job', hjob', hd⟩
  | hold =>
    rw [step] at hjob'
    split at hjob'
    · unfold Serve.hold at hjob'
      split at hjob' <;> exact ⟨job', hjob', hd⟩
    · exact ⟨job', hjob', hd⟩
  | assign now =>
    rw [step] at hjob'
    split at hjob'
    · unfold Serve.assign at hjob'
      split at hjob'
      · exact ⟨job', hjob', hd⟩
      next job hjob =>
        rw [assignAll_eq] at hjob'
        cases hjob'
        exact ⟨job, hjob, hd⟩
    · exact ⟨job', hjob', hd⟩
  | complete now zk replay =>
    rw [step] at hjob'
    split at hjob'
    · unfold Serve.checkComplete at hjob'
      split at hjob'
      · exact ⟨job', hjob', hd⟩
      next job hjob =>
        split at hjob'
        · exact ⟨job', hjob', hd⟩
        · split at hjob'
          · split at hjob'
            · rw [Serve.escalate, assignAll_eq] at hjob'
              cases hjob'
              exact ⟨job, hjob, hd⟩
            · cases hjob'
          · split at hjob'
            · cases hjob'
            · exact ⟨job', hjob', hd⟩
    · exact ⟨job', hjob', hd⟩
  | idle =>
    rw [step] at hjob'
    split at hjob' <;> exact ⟨job', hjob', hd⟩
  | event e host now => exact absurd rfl (ha e host now)

/-- After an event the loop starts over, unless the event did nothing to the job. -/
theorem event_restarts (crypto : Crypto) (cfg : ServeConfig) (s : Serve) (e : Event) (host : Host)
    (now : Nat) :
    (step crypto cfg s (.event e host now)).pc = .top ∨
      (step crypto cfg s (.event e host now)).pending = s.pending := by
  rw [step]
  split
  · unfold Serve.handle
    split
    · exact Or.inr rfl
    · exact Or.inl rfl
  · exact Or.inr rfl

theorem receiptInv_step (h : ReceiptInv s) : ReceiptInv (step crypto cfg s a) := by
  refine ⟨marksDispatched_step h.marks, fun job' d hjob' hd => ?_⟩
  by_cases hold : ∃ job, s.pending = some job ∧ job.zkAccept.isSome = true
  · -- the job had its receipt already
    obtain ⟨job, hjob, hsome⟩ := hold
    obtain ⟨d₀, hd₀⟩ := Option.isSome_iff_exists.mp hsome
    have hcarry : Settling d₀ job (step crypto cfg s a) →
        Settling d job' (step crypto cfg s a) := by
      rintro ⟨hpc, job₁, hjob₁, hdispatched, hd₁, -⟩
      obtain rfl : job₁ = job' := Option.some.inj (hjob₁.symm.trans hjob')
      exact ⟨hpc, job₁, hjob₁, hdispatched, hd, rfl, rfl⟩
    have hstep : Concludes d₀ job s (step crypto cfg s a) a :=
      settling_step (h.settling job d₀ hjob hd₀)
    cases hstep with
    | waits msgs hsent hquiet houtcomes hnext => exact hcarry hnext
    | resends hpc job₁ hjob₁ hescalate hsent houtcomes hnext => exact hcarry hnext
    | finishes msgs hsent hquiet hpending houtcomes =>
      exact absurd (hpending.symm.trans hjob') nofun
  · have hnew : ∀ job, s.pending = some job → job.zkAccept = none := by
      intro job hjob
      exact Option.not_isSome_iff_eq_none.mp fun hsome => hold ⟨job, hjob, hsome⟩
    by_cases hevent : ∃ e host now, a = .event e host now
    · obtain ⟨e, host, now, rfl⟩ := hevent
      rcases step_tended rfl hjob' with ⟨-, descriptor, targets, path, now', subscribers, rfl⟩ |
        ⟨job, hjob, htended⟩
      · cases hd
      · rcases event_restarts crypto cfg s e host now with hpc | hsame
        · rcases htended.receipt with hreceipt | hids
          · exact absurd (hd.symm.trans (hreceipt.trans (hnew job hjob))) nofun
          · exact ⟨Or.inl hpc, job', hjob', htended.dispatched.trans (h.marks job hjob hids), hd,
              rfl, rfl⟩
        · exact absurd (hd.symm.trans (hnew job' (hsame ▸ hjob'))) nofun
    · obtain ⟨job, hjob, hd'⟩ :=
        receipt_of_not_event (fun e host now ha => hevent ⟨e, host, now, ha⟩)
        hjob' hd
      exact absurd (hd'.symm.trans (hnew job hjob)) nofun

/-- What the escalation sends, if anybody is there to send it to. -/
theorem round2_sent (s : Serve) (job : PendingJob) :
    ∃ msgs, (s.round2 job).2 = s.sent ++ msgs ∧
      ((∃ conn hints, (conn, ServerToClient.jobAssignment job.descriptor hints) ∈ msgs) ↔
        ∃ wid ∈ job.reserves, s.conns.authedBearer wid ≠ none) := by
  rw [Serve.round2, assignAll_eq]
  refine ⟨_, rfl, ?_⟩
  constructor
  · rintro ⟨conn, hints, hmem⟩
    obtain ⟨x, hx, -⟩ := List.mem_map.mp hmem
    obtain ⟨⟨wid, hints'⟩, hy, hpick⟩ := List.mem_filterMap.mp hx
    obtain ⟨wid', hwid', hpair⟩ := List.mem_map.mp hy
    cases hpair
    obtain ⟨conn', hconn', -⟩ := Option.map_eq_some_iff.mp hpick
    exact ⟨wid, hwid', by rw [hconn']; exact Option.some_ne_none conn'⟩
  · rintro ⟨wid, hwid, hne⟩
    obtain ⟨conn, hconn⟩ := Option.ne_none_iff_exists'.mp hne
    refine ⟨conn, s.conns.peerHints wid,
      List.mem_map.mpr ⟨(wid, conn, s.conns.peerHints wid), ?_, rfl⟩⟩
    refine List.mem_filterMap.mpr ⟨(wid, s.conns.peerHints wid), List.mem_map.mpr ⟨wid, hwid, rfl⟩,
      ?_⟩
    simp only [hconn, Option.map_some]

/-- One step. -/
theorem endsOnReceipt_iff (h : ReceiptInv s) :
    EndsOnReceipt s (step crypto cfg s a) ↔ NobodyToAsk s a := by
  constructor
  · intro hends
    cases a with
    | complete now zk replay =>
      intro hpc job hjob hsome hescalate wid hwid
      obtain ⟨d, hd⟩ := Option.isSome_iff_exists.mp hsome
      obtain ⟨-, job₁, hjob₁, hdispatched, -⟩ := h.settling job d hjob hd
      obtain rfl : job₁ = job := Option.some.inj (hjob₁.symm.trans hjob)
      have hstep : (step crypto cfg s (.complete now zk replay)).sent = (s.round2 job₁).2 := by
        have hall : job₁.allIn = true := by rw [PendingJob.allIn, hd]; rfl
        have hbranch : Quorum.decide job₁.results job₁.dispatchedIds.length = .escalate ∧
            job₁.reserves ≠ [] := ⟨hescalate, List.ne_nil_of_mem hwid⟩
        rw [step, if_pos hpc, Serve.checkComplete, hjob]
        simp only [hdispatched, hall, Bool.not_true, Bool.false_eq_true, if_false, if_true,
          if_pos hbranch]
        rfl
      obtain ⟨msgs, hsent, hmsgs⟩ := round2_sent s job₁
      by_contra hbearer
      obtain ⟨conn, hints, hmem⟩ := hmsgs.mpr ⟨wid, hwid, hbearer⟩
      refine (hends job₁ d hjob hd).1 conn hints ?_
      rw [hstep, hsent, List.drop_left]
      exact hmem
    | _ => exact trivial
  · intro hnobody job d hjob hd
    have hquietDrop : ∀ {sent msgs : List (Nat × ServerToClient)}, sent = s.sent ++ msgs →
        (∀ m ∈ msgs, assigns m.2 = false) → ∀ conn hints,
        (conn, ServerToClient.jobAssignment job.descriptor hints) ∉ sent.drop s.sent.length := by
      rintro _ msgs rfl hquiet conn hints hmem
      rw [List.drop_left] at hmem
      have hassigns : true = false := hquiet _ hmem
      cases hassigns
    have hstays : (step crypto cfg s a).outcomes = s.outcomes →
      Settling d job (step crypto cfg s a) →
        ((step crypto cfg s a).outcomes = s.outcomes ∧ ∃ job',
          (step crypto cfg s a).pending = some job' ∧
          job'.descriptor = job.descriptor ∧ job'.zkAccept = some d) := by
      rintro houtcomes ⟨-, job', hjob', -, hd', -, hdescriptor⟩
      exact ⟨houtcomes, job', hjob', hdescriptor, hd'⟩
    have hstep : Concludes d job s (step crypto cfg s a) a :=
      settling_step (h.settling job d hjob hd)
    cases hstep with
    | waits msgs hsent hquiet houtcomes hnext =>
      exact ⟨hquietDrop hsent hquiet, .inl (hstays houtcomes hnext)⟩
    | finishes msgs hsent hquiet hpending houtcomes =>
      exact ⟨hquietDrop hsent hquiet, .inr ⟨hpending, _, houtcomes, rfl, rfl⟩⟩
    | resends hpc job₁ hjob₁ hescalate hsent houtcomes hnext =>
      obtain rfl : job₁ = job := Option.some.inj (hjob₁.symm.trans hjob)
      obtain ⟨msgs, hround, hmsgs⟩ := round2_sent s job₁
      refine ⟨fun conn hints hmem => ?_, .inl (hstays houtcomes hnext)⟩
      rw [hsent, hround, List.drop_left] at hmem
      obtain ⟨wid, hwid, hbearer⟩ := hmsgs.mp ⟨conn, hints, hmem⟩
      exact hbearer (hnobody hpc job₁ hjob (by rw [hd]; rfl) hescalate wid hwid)

end

theorem receiptInv_run (crypto : Crypto) (cfg : ServeConfig) (nextConn : Nat) (store : Store)
    (acts : List Act) :
    ReceiptInv (stateAfter (step crypto cfg) (Serve.init nextConn store) acts) := by
  have hinit : ReceiptInv (Serve.init nextConn store) :=
    ⟨(fun _ hjob => nomatch hjob), fun _ _ hjob => nomatch hjob⟩
  exact invariant_run hinit (fun _ _ hs => receiptInv_step hs) acts

/-- In a run of the coordinator, from the receipt on a job is sent to nobody and is
finished on the receipt, exactly if every completion check that finds a receipt
finds a majority as well, or no reserve to ask. -/
theorem receipt_ends_job_iff (crypto : Crypto) (cfg : ServeConfig) (nextConn : Nat) (store : Store)
    (acts : List Act) :
    EachStep (step crypto cfg) (fun _ s a => EndsOnReceipt s (step crypto cfg s a))
        (Serve.init nextConn store) acts ↔
      EachStep (step crypto cfg) (fun _ s a => NobodyToAsk s a) (Serve.init nextConn store)
        acts := by
  refine forall₃_congr fun pre a _ => ?_
  exact endsOnReceipt_iff (receiptInv_run crypto cfg nextConn store pre)

/-! ## One worker, one reserve -/

def reserveConfig : ServeConfig := { receiptConfig with round1Size := some 1 }

/-- Only `wA` is sent the job, and claims a receipt for it at once; the loop is about
to look whether the job is complete. -/
def claimedAtOnce : List Act :=
  [.thread (.accept "10.0.0.1"), .thread (.accept "10.0.0.2")] ++ login 1 1 "wA" ++ login 2 2 "wB"
    ++ (turnWith (some (submittedDescriptor, none, "jobs/job-1.desc.json.dispatching"))
      (.closed 0)).dropLast
    ++ [ebreakClaim, .scan (.ok none) 0, .choose fun _ => 0]

def settledAtOnce : Serve :=
  stateAfter (step receiptCrypto reserveConfig) (Serve.init 1 fun _ => none) claimedAtOnce

/-- There is no majority among no results, so `wB` is sent the job that is settled. -/
theorem receipt_asks_reserve :
    settledAtOnce.pending.map (fun job => (job.descriptor, job.zkAccept))
      = some (submittedDescriptor, some (receiptDecision "wA" ebreakReceipt)) ∧
    (step receiptCrypto reserveConfig settledAtOnce (.complete 0 none none)).sent.drop
      settledAtOnce.sent.length = [(2, .jobAssignment submittedDescriptor [])] ∧
    ¬ EachStep (step receiptCrypto reserveConfig)
      (fun _ s a => EndsOnReceipt s (step receiptCrypto reserveConfig s a))
        (Serve.init 1 fun _ => none)
      (claimedAtOnce ++ [.complete 0 none none]) := by
  have hrun : (settledAtOnce.pending.map fun job => (job.descriptor, job.zkAccept),
      (step receiptCrypto reserveConfig settledAtOnce (.complete 0 none none)).sent.drop
        settledAtOnce.sent.length)
      = (some (submittedDescriptor, some (receiptDecision "wA" ebreakReceipt)),
        [(2, .jobAssignment submittedDescriptor [])]) := by
    decide +kernel
  obtain ⟨hpending, hsent⟩ := Prod.mk.inj hrun
  refine ⟨hpending, hsent, fun hends => ?_⟩
  obtain ⟨job, hjob, hreceipt⟩ := Option.map_eq_some_iff.mp hpending
  obtain ⟨hdescriptor, hzk⟩ := Prod.mk.inj hreceipt
  have hstep : EndsOnReceipt settledAtOnce
      (step receiptCrypto reserveConfig settledAtOnce (.complete 0 none none)) :=
    hends claimedAtOnce _ List.prefix_rfl
  refine (hstep job _ hjob hzk).1 2 [] ?_
  rw [hsent, hdescriptor]
  exact List.mem_cons_self

end Provework.Coordinator
