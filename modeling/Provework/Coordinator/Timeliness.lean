import Provework.Coordinator.ServeEscalation

/-!
# How long a job holds the slot

`serve` works on one job at a time, so a job that is never decided stops all of
them. Each of its at most two rounds has `per_job_deadline` from the moment it is
sent out, and the clock is read in every turn of the loop. How late a turn can be
is not the loop's to promise (an event may take long to handle), so `lag` is a
parameter: a job that was sent out is decided at most two deadlines and two lags
later, and before a round's deadline only if all its results are in or a verified
receipt settled it (`job_decided_on_time`). The loop reads the clock and then asks the
judges: the times here are the ones it read, and the notices go out as much later as the
judges take.

The queue wait is not part of it: a job whose targets never come is never sent out.
-/

namespace Provework.Coordinator

open Provework.Lib Provework.Jobfmt Provework.Contentstore Provework.Wire

/-- What the clock says in an act that reads it. -/
def Act.time : Act → Option Nat
  | .scan _ now => some now
  | .assign now => some now
  | .complete now _ _ => some now
  | .event _ _ now => some now
  | _ => none

/-- Three moments of the pending job. -/
structure Timer where
  dispatchedAt : Nat
  /-- The last of its rounds was sent out. -/
  roundAt : Nat
  /-- The loop looked whether it is complete. -/
  checkedAt : Nat
  deriving DecidableEq

def Timer.observe (t : Timer) (s : Serve) (a : Act) : Timer :=
  match s.pending with
  | none => t
  | some job =>
    match a with
    | .assign now =>
      match s.pc with
      | .assign _ _ => ⟨now, now, now⟩
      | _ => t
    | .complete now _ _ =>
      if s.pc = .complete then
        { t with roundAt := if job.escalates then now else t.roundAt, checkedAt := now }
      else t
    | _ => t

/-- The timer of the job that is pending after `h`. -/
def timerAfter (h : List (Serve × Act)) : Timer := h.foldl (fun t p => t.observe p.1 p.2) ⟨0, 0, 0⟩

/-- The loop gets round to a job that was sent out every `lag`. -/
def Prompt (lag : Nat) (t : Timer) (s : Serve) (a : Act) : Prop :=
  ∀ job ∈ s.pending, job.dispatched = true → ∀ now ∈ a.time, now ≤ t.checkedAt + lag

instance (lag : Nat) (t : Timer) (s : Serve) (a : Act) : Decidable (Prompt lag t s a) :=
  inferInstanceAs
    (Decidable (∀ job ∈ s.pending, job.dispatched = true → ∀ now ∈ a.time, now ≤ t.checkedAt + lag))

/-- Whatever is done while the job is out is done in time, and if that ends it, its
results were in, or a receipt was accepted for it (`allIn` covers both), or its last
round had its whole window. -/
structure OnTime (cfg : ServeConfig) (lag : Nat) (t : Timer) (job : PendingJob) (s' : Serve)
    (a : Act) : Prop where
  soon : ∀ now, a.time = some now → now ≤ t.dispatchedAt + 2 * (cfg.perJobDeadline + lag)
  notTooSoon : s'.pending = none → job.allIn = true ∨
    ∃ now zk replay, a = .complete now zk replay ∧ cfg.perJobDeadline < now - t.roundAt

/-- The job carries the time of its last round; the last look at it was inside the
window of that round, and a second round began inside the window of the first. -/
structure Windows (cfg : ServeConfig) (lag : Nat) (t : Timer) (job : PendingJob) : Prop where
  started : job.started = t.roundAt
  inside : t.checkedAt ≤ t.roundAt + cfg.perJobDeadline
  first : job.escalated = false → t.roundAt = t.dispatchedAt
  second : t.roundAt ≤ t.dispatchedAt + cfg.perJobDeadline + lag

def TimerInv (cfg : ServeConfig) (lag : Nat) (t : Timer) (s : Serve) : Prop :=
  ∀ job, s.pending = some job → job.dispatched = true → Windows cfg lag t job

section

variable {crypto : Crypto} {cfg : ServeConfig} {lag : Nat} {s : Serve} {a : Act} {t : Timer}
  {l : Life}
  {job job' : PendingJob}

/-- Nothing but the two rounds winds the clock of a job. -/
theorem step_started (ha : a.dispatches = false) (hjob' : (step crypto cfg s a).pending = some job')
    (hdispatched : job'.dispatched = true) :
    ∃ job, s.pending = some job ∧ job.dispatched = true ∧ job'.started = job.started ∧
      job'.escalated = job.escalated := by
  have hmove := step_moves crypto cfg s a
  generalize hcore : (step crypto cfg s a).core = k at hmove
  rw [show (step crypto cfg s a).pending = k.pending from congrArg Core.pending hcore] at hjob'
  cases hmove with
  | @authenticate _ x =>
    obtain ⟨job, hjob, rfl⟩ := Option.map_eq_some_iff.mp hjob'
    have ht := lateJoiner_tended job x.workerId
    refine ⟨job, hjob, ht.dispatched ▸ hdispatched, ?_, ht.escalated⟩
    unfold PendingJob.lateJoiner
    split <;> rfl
  | subscribe msgs jobId conn =>
    obtain ⟨job, hjob, rfl⟩ := Option.map_eq_some_iff.mp hjob'
    have ht := subscribe_tended job jobId conn
    refine ⟨job, hjob, ht.dispatched ▸ hdispatched, ?_, ht.escalated⟩
    unfold PendingJob.subscribe
    split <;> rfl
  | queue =>
    cases hjob'
    cases hdispatched
  | round1 => cases ha
  | escalate => cases ha
  | finish => cases hjob'
  | @count conn x result job host now hpc hc =>
    cases hjob'
    exact ⟨job, hc.pending, hdispatched, rfl, rfl⟩
  | @claim _ workerId job job'' hjob hclaimed =>
    cases hjob'
    have heq := hclaimed.eq
    rw [heq] at hdispatched ⊢
    exact ⟨job, hjob, hdispatched, rfl, rfl⟩
  | _ => exact ⟨job', hjob', hdispatched, rfl, rfl⟩

theorem Windows.late (h : Windows cfg lag t job) {now : Nat} (hnow : now ≤ t.checkedAt + lag) :
    now ≤ t.dispatchedAt + 2 * (cfg.perJobDeadline + lag) := by
  have hinside := h.inside
  have hsecond := h.second
  omega

theorem windows_round1 {selected : Selection} {reserves : List String}
    (hpc : s.pc = .assign selected reserves) (hjob : s.pending = some job) (now : Nat) :
    Windows cfg lag (t.observe s (.assign now)) { (s.round1 job selected).1 with
      reserves := reserves, dispatched := true, started := now } := by
  have hobserve : t.observe s (.assign now) = ⟨now, now, now⟩ := by
    simp only [Timer.observe, hjob, hpc]
  rw [hobserve]
  exact ⟨rfl, Nat.le_add_right _ _, fun _ => rfl,
    (Nat.le_add_right _ _).trans (Nat.le_add_right _ _)⟩

/-- A job with reserves is in its first round. -/
theorem Stage.first_of_reserves (h : Stage l job) (hreserves : job.reserves ≠ []) :
    job.escalated = false := by
  cases h with
  | queued _ hescalated => exact hescalated
  | first _ hescalated => exact hescalated
  | second _ _ hnone => exact absurd hnone hreserves

theorem windows_complete (hlife : LifeInv l s) (h : TimerInv cfg lag t s) (hpc : s.pc = .complete)
    (now : Nat) (zk replay : Option Decision) (hprompt : Prompt lag t s (.complete now zk replay))
    (hjob' : (s.checkComplete cfg now zk replay).pending = some job')
    (hdispatched' : job'.dispatched = true) :
    Windows cfg lag (t.observe s (.complete now zk replay)) job' := by
  unfold Serve.checkComplete at hjob'
  split at hjob'
  next hnone => cases hnone.symm.trans hjob'
  next job hjob =>
    have hobserve : t.observe s (.complete now zk replay) =
        { t with roundAt := if job.escalates then now else t.roundAt, checkedAt := now } := by
      simp only [Timer.observe, hjob, hpc, if_true]
    rw [hobserve]
    split at hjob'
    next hundispatched =>
      obtain rfl : job = job' := Option.some.inj (hjob.symm.trans hjob')
      rw [hdispatched'] at hundispatched
      cases hundispatched
    next hdispatched =>
      have hdispatched : job.dispatched = true := by simpa using hdispatched
      have hwindows := h job hjob hdispatched
      split at hjob'
      next hall =>
        split at hjob'
        next hescalate =>
          -- the second window opens at most a lag after the first is over
          have hyes : job.escalates = true := by
            simp only [PendingJob.escalates, hdispatched, hall, Bool.true_and,
              decide_eq_true hescalate]
          have hfirst := hwindows.first ((hlife.stage job hjob).first_of_reserves hescalate.2)
          have hnow := hprompt job hjob hdispatched now rfl
          have hinside := hwindows.inside
          cases hjob'
          rw [if_pos hyes]
          refine ⟨rfl, Nat.le_add_right _ _, fun h => Bool.noConfusion h, ?_⟩
          show now ≤ t.dispatchedAt + cfg.perJobDeadline + lag
          omega
        next => cases hjob'
      next hwaiting =>
        split at hjob'
        next => cases hjob'
        next hopen =>
          obtain rfl : job = job' := Option.some.inj (hjob.symm.trans hjob')
          have hno : job.escalates = false := by
            simp only [PendingJob.escalates, Bool.eq_false_iff.mpr hwaiting, Bool.and_false,
              Bool.false_and]
          rw [hno]
          refine ⟨hwindows.started, ?_, hwindows.first, hwindows.second⟩
          have hstarted := hwindows.started
          show now ≤ t.roundAt + cfg.perJobDeadline
          omega

theorem timerInv_step (hlife : LifeInv l s) (h : TimerInv cfg lag t s)
    (hprompt : Prompt lag t s a) : TimerInv cfg lag (t.observe s a) (step crypto cfg s a) := by
  intro job' hjob' hdispatched'
  -- an act that sends nothing out leaves timer and job alone
  have hkept : t.observe s a = t → (∃ job, s.pending = some job ∧ job.dispatched = true ∧
      job'.started = job.started ∧ job'.escalated = job.escalated) →
        Windows cfg lag (t.observe s a) job' := by
    rintro hobserve ⟨job, hjob, hdispatched, hstarted, hescalated⟩
    have hwindows := h job hjob hdispatched
    rw [hobserve]
    exact ⟨hstarted.trans hwindows.started, hwindows.inside, hescalated ▸ hwindows.first,
      hwindows.second⟩
  cases a with
  | assign now =>
    rw [step] at hjob'
    split at hjob'
    next selected reserves hpc =>
      unfold Serve.assign at hjob'
      split at hjob'
      next hnone => cases hnone.symm.trans hjob'
      next job hjob =>
        cases hjob'
        exact windows_round1 hpc hjob now
    next hpc =>
      refine hkept ?_ ⟨job', hjob', hdispatched', rfl, rfl⟩
      simp only [Timer.observe, hjob']
  | complete now zk replay =>
    rw [step] at hjob'
    split at hjob'
    next hpc => exact windows_complete hlife h hpc now zk replay hprompt hjob' hdispatched'
    next hpc =>
      refine hkept ?_ ⟨job', hjob', hdispatched', rfl, rfl⟩
      simp only [Timer.observe, hjob', hpc, if_false]
  | _ =>
    have hcame := step_started rfl hjob' hdispatched'
    refine hkept ?_ hcame
    obtain ⟨job, hjob, -⟩ := hcame
    simp only [Timer.observe, hjob]

/-- Only a decision frees the slot. -/
theorem step_decides (hjob : s.pending = some job) (hnone : (step crypto cfg s a).pending = none) :
    ∃ now zk replay, a = .complete now zk replay ∧ job.completes cfg now = true := by
  have hdeal := step_deals crypto cfg s a
  have hslot : s.books.slot = some job.slot := congrArg (Option.map PendingJob.slot) hjob
  have hslot' : (step crypto cfg s a).books.slot = none :=
    congrArg (Option.map PendingJob.slot) hnone
  generalize (step crypto cfg s a).books = books at hdeal hslot'
  cases hdeal with
  | quiet => cases hslot.symm.trans hslot'
  | take => cases hslot'
  | file =>
    rw [Option.map_eq_none_iff] at hslot'
    cases hslot.symm.trans hslot'
  | prove => cases hslot.symm.trans hslot'
  | @finish job' now zk replay hpc hjob' hdone =>
    obtain rfl := Option.some.inj (hjob.symm.trans hjob')
    exact ⟨now, zk, replay, rfl, hdone⟩
  | proved => cases hslot.symm.trans hslot'

theorem onTime_step (h : TimerInv cfg lag t s) (hprompt : Prompt lag t s a)
    (hjob : s.pending = some job) (hdispatched : job.dispatched = true) :
    OnTime cfg lag t job (step crypto cfg s a) a := by
  have hwindows := h job hjob hdispatched
  refine ⟨fun now hnow => hwindows.late (hprompt job hjob hdispatched now hnow), fun hnone => ?_⟩
  obtain ⟨now, zk, replay, rfl, hdone⟩ := step_decides hjob hnone
  by_cases hall : job.allIn = true
  · exact Or.inl hall
  · refine Or.inr ⟨now, zk, replay, rfl, ?_⟩
    simpa [PendingJob.completes, hdispatched, hall, hwindows.started] using hdone

end

/-- **Two windows and no more.** In every run of the coordinator whose loop gets round
to the job every `lag`: as long as a job is out, no act is taken later than two
deadlines and two lags after its dispatch, so the decision is not either; and it is
decided only with all results in or a verified receipt, or when the window of its last
round is over. -/
theorem job_decided_on_time (crypto : Crypto) (cfg : ServeConfig) (lag nextConn : Nat)
    (store : Store) (acts : List Act)
    (hprompt : EachStep (step crypto cfg) (fun h s a => Prompt lag (timerAfter h) s a)
      (Serve.init nextConn store) acts) :
    EachStep (step crypto cfg) (fun h s a => ∀ job, s.pending = some job → job.dispatched = true →
      OnTime cfg lag (timerAfter h) job (step crypto cfg s a) a)
      (Serve.init nextConn store) acts := by
  have hinv : Always (step crypto cfg)
      (fun h s => LifeInv (lifeAfter h) s ∧ TimerInv cfg lag (timerAfter h) s)
      (Serve.init nextConn store) acts := by
    refine always_of_step ⟨⟨nofun, nofun⟩, nofun⟩ ?_ hprompt
    intro h s a hs ha
    rw [lifeAfter, timerAfter, List.foldl_append, List.foldl_append]
    exact ⟨lifeInv_step hs.1, timerInv_step hs.1 hs.2 ha⟩
  intro pre a hpre job hjob hdispatched
  have hbefore := hinv pre ((List.prefix_append pre [a]).trans hpre)
  exact onTime_step hbefore.2 (hprompt pre a hpre) hjob hdispatched

/-- Two workers are sent a job at 5 and never answer. -/
def unanswered : List Act :=
  [.thread (.accept "10.0.0.1"), .thread (.accept "10.0.0.2")] ++ login 1 1 "wA" ++ login 2 2 "wB"
    ++ [.scan (.ok (some (demoDescriptor [0x02, 0x90], none, "jobs/job-1.desc.json.dispatching")))
      5, .choose fun _ => 0, .hold, .assign 5, .complete 5 none none, .idle,
      .scan (.ok none) 60, .choose fun _ => 0, .complete 60 none none, .idle,
      .scan (.ok none) 100, .choose fun _ => 0]

theorem job_decided_on_time_unanswered :
    let s := stateAfter (step toyCrypto identityConfig) (Serve.init 1 fun _ => none) unanswered
    ∃ job, s.pending = some job ∧ job.allIn = false ∧
      (step toyCrypto identityConfig s (.complete 100 none none)).pending = none ∧
      OnTime identityConfig 60 ⟨5, 5,
        60⟩ job (step toyCrypto identityConfig s (.complete 100 none none))
        (.complete 100 none none) := by
  have htest :
    checkRun (step toyCrypto identityConfig) (fun h s a => decide (Prompt 60 (timerAfter h) s a)) []
      (Serve.init 1 fun _ => none) (unanswered ++ [.complete 100 none none]) = true := by
        decide +kernel
  have hprompt :
    EachStep (step toyCrypto identityConfig) (fun h s a => Prompt 60 (timerAfter h) s a)
      (Serve.init 1 fun _ => none) (unanswered ++ [.complete 100 none none]) :=
    fun pre a hpre => of_decide_eq_true (eachStep_of_checkRun _ htest pre a hpre)
  have hstate :
    ∃ job ∈ (stateAfter (step toyCrypto identityConfig) (Serve.init 1 fun _ => none)
      unanswered).pending, job.dispatched = true ∧ job.allIn = false := by decide +kernel
  obtain ⟨job, hjob, hdispatched, hwaiting⟩ := hstate
  have htimer :
    timerAfter (history (step toyCrypto identityConfig) (Serve.init 1 fun _ => none) unanswered)
      = ⟨5, 5, 60⟩ := by decide +kernel
  rw [← htimer]
  exact ⟨job, hjob,
    hwaiting, by decide +kernel, job_decided_on_time toyCrypto identityConfig 60 1 (fun _ => none) _
    hprompt unanswered _ List.prefix_rfl job hjob hdispatched⟩

end Provework.Coordinator
