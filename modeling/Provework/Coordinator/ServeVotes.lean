import Mathlib.Data.List.Forall2
import Provework.Coordinator.ServeAuth

/-!
# Whose votes are counted

`dispatched_ids` and the duplicate check compare worker ids, which are strings a
`Hello` may change at any time; the principals are connections.
`QuorumIntegrity` is about those: the results of the pending job came in on
distinct connections, each of which was sent the job. It holds in every run in
which worker ids behave like identities (`keepsIds`): no connection takes an id
that another one bears or that the job was dispatched to, and none that bears a
dispatched id takes another. The code checks neither.

The proof keeps the connections behind the ids: the bearer of a dispatched id
was sent the job, and a connection that has voted still bears the id it voted
under.
-/

namespace Provework.Coordinator

open Provework.Lib Provework.Jobfmt Provework.Contentstore Provework.Wire

/-- The result came in on the connection at some point of the history. -/
def ReceivedOn (h : List (Serve × Act)) (conn : Nat) (r : WorkerResult) : Prop :=
  ∃ p ∈ h, ∃ host now, p.2 = .event (.result conn r) host now

/-- The collected results came in on distinct connections, each of which the
coordinator sent this job. -/
def QuorumIntegrity (h : List (Serve × Act)) (s : Serve) : Prop :=
  ∀ job, s.pending = some job →
    List.Forall₂ (ReceivedOn h) job.trail.origins job.results ∧ job.trail.origins.Nodup ∧
    ∀ conn ∈ job.trail.origins, conn ∈ job.trail.assigned ∧
      ∃ hints, (conn, .jobAssignment job.descriptor hints) ∈ s.sent

/-- The ids the pending job was dispatched to. -/
def Serve.dispatchedIds (s : Serve) : List String :=
  match s.pending with
  | none => []
  | some job => job.dispatchedIds

/-- The connection that comes by a worker id in this act, and the id: a
connection that is accepted, or one whose `Hello` names another id than its own. -/
def renames (s : Serve) : Act → Option (Nat × String)
  | .thread (.accept _) => some (s.nextConn, defaultId s.nextConn)
  | .event (.hello conn _ workerId _ _) _ _ =>
    match s.conns.lookup conn with
    | none => none
    | some x =>
      if s.pc = .events ∧ workerId ≠ "" ∧ workerId ≠ x.workerId then some (conn, workerId) else none
  | _ => none

/-- No connection bears the id, and the pending job was not dispatched to it. -/
def free (s : Serve) (wid : String) : Bool :=
  s.conns.values.all (·.workerId ≠ wid) && wid ∉ s.dispatchedIds

/-- An id that is taken is free, and no id is given up to which the pending job
was dispatched. -/
def keepsIds (s : Serve) (a : Act) : Bool :=
  match renames s a with
  | none => true
  | some (conn, wid) =>
    free s wid &&
      match s.conns.lookup conn with
      | none => true
      | some x => x.workerId ∉ s.dispatchedIds

/-! ## The invariant -/

/-- The votes of a job against the ids the connections bear. -/
structure JobInv (ids : Nat → Option String) (nextConn : Nat) (sent : List (Nat × ServerToClient))
    (job : PendingJob) : Prop where
  bearer : ∀ conn wid, ids conn = some wid → wid ∈ job.dispatchedIds → conn ∈ job.trail.assigned
  assigned : ∀ conn ∈ job.trail.assigned, conn < nextConn ∧
    ∃ hints, (conn, .jobAssignment job.descriptor hints) ∈ sent
  votes : List.Forall₂
    (fun conn (r : WorkerResult) => conn ∈ job.trail.assigned ∧ r.workerId ∈ job.dispatchedIds ∧
      ∀ wid, ids conn = some wid → wid = r.workerId)
    job.trail.origins job.results
  nodup : job.trail.origins.Nodup

structure VotesInv (k : Core) : Prop where
  fresh : ∀ conn wid, k.conns.idOf conn = some wid → conn < k.nextConn
  distinct : ∀ conn conn' wid, k.conns.idOf conn = some wid → k.conns.idOf conn' = some wid →
    conn = conn'
  job : ∀ job, k.pending = some job → JobInv k.conns.idOf k.nextConn k.sent job

namespace JobInv

variable {ids ids' : Nat → Option String} {nextConn nextConn' : Nat}
  {sent sent' : List (Nat × ServerToClient)} {job job' : PendingJob}

/-- More messages, fewer connections, and renamed ones as long as neither the old
nor the new id is a dispatched one: the votes stand. -/
theorem mono (h : JobInv ids nextConn sent job)
    (hids : ∀ conn wid, ids' conn = some wid → ids conn = some wid ∨
      wid ∉ job.dispatchedIds ∧
        (nextConn ≤ conn ∨ ∃ old, ids conn = some old ∧ old ∉ job.dispatchedIds))
    (hnext : nextConn ≤ nextConn') (hsent : sent ⊆ sent') :
    JobInv ids' nextConn' sent' job where
  bearer conn wid hconn hwid := by
    rcases hids conn wid hconn with hold | ⟨hnew, -⟩
    · exact h.bearer conn wid hold hwid
    · exact absurd hwid hnew
  assigned conn hconn := by
    obtain ⟨hlt, hints, hmem⟩ := h.assigned conn hconn
    exact ⟨Nat.lt_of_lt_of_le hlt hnext, hints, hsent hmem⟩
  votes := h.votes.imp fun conn r hv => by
    refine ⟨hv.1, hv.2.1, fun wid hwid => ?_⟩
    -- a voter keeps its id: it was open before, and under a dispatched id
    rcases hids conn wid hwid with hold | ⟨-, hge | ⟨old, hold, hnot⟩⟩
    · exact hv.2.2 wid hold
    · exact absurd (h.assigned conn hv.1).1 (Nat.not_lt.mpr hge)
    · exact absurd (hv.2.2 old hold ▸ hv.2.1) hnot
  nodup := h.nodup

theorem congr (h : JobInv ids nextConn sent job) (hs : SameVotes job job') :
    JobInv ids nextConn sent job' := by
  obtain ⟨hd, hi, hr, ht⟩ := hs
  constructor
  · rw [hi, ht]
    exact h.bearer
  · rw [hd, ht]
    exact h.assigned
  · rw [hi, hr, ht]
    exact h.votes
  · rw [ht]
    exact h.nodup

/-- A job nobody was asked to do. -/
theorem queued (descriptor : JobDescriptor) (targets : Option (List String)) (path : String)
    (now : Nat) (subscribers : List Nat) :
    JobInv ids nextConn sent (.queued descriptor targets path now subscribers) where
  bearer _ _ _ hwid := nomatch hwid
  assigned _ hconn := nomatch hconn
  votes := .nil
  nodup := List.nodup_nil

/-- Behind every connection that voted there is its result. -/
theorem voter (h : JobInv ids nextConn sent job) {conn : Nat} (hvoted : conn ∈ job.trail.origins) :
    ∃ r ∈ job.results, conn ∈ job.trail.assigned ∧ r.workerId ∈ job.dispatchedIds ∧
      ∀ wid, ids conn = some wid → wid = r.workerId := by
  obtain ⟨i, rfl⟩ := List.get_of_mem hvoted
  have hlt : i.val < job.results.length := h.votes.length_eq ▸ i.isLt
  exact ⟨_, List.get_mem _ ⟨i, hlt⟩, h.votes.get i.isLt hlt⟩

/-- Sending the job to the only bearer of an id. -/
theorem assignOne (h : JobInv ids nextConn sent job) {conn : Nat} {wid : String}
    (hints : List String) (hlt : conn < nextConn)
    (hbearer : ∀ conn', ids conn' = some wid → conn' = conn) :
    JobInv ids nextConn (sent ++ [(conn, .jobAssignment job.descriptor hints)])
      { job with
        dispatchedIds := job.dispatchedIds ++ [wid]
        trail := { job.trail with assigned := job.trail.assigned ++ [conn] } } where
  bearer conn' wid' hid hwid := by
    rcases List.mem_append.mp hwid with hwid | hwid
    · exact List.mem_append_left _ (h.bearer conn' wid' hid hwid)
    · rw [List.mem_singleton.mp hwid] at hid
      rw [hbearer conn' hid]
      exact List.mem_append_right _ (List.mem_singleton_self _)
  assigned conn' hconn := by
    rcases List.mem_append.mp hconn with hconn | hconn
    · obtain ⟨hlt', hints', hmem⟩ := h.assigned conn' hconn
      exact ⟨hlt', hints', List.mem_append_left _ hmem⟩
    · rw [List.mem_singleton.mp hconn]
      exact ⟨hlt, hints, List.mem_append_right _ (List.mem_singleton_self _)⟩
  votes := h.votes.imp fun _ _ hv =>
    ⟨List.mem_append_left _ hv.1, List.mem_append_left _ hv.2.1, hv.2.2⟩
  nodup := h.nodup

/-- A round of assignments, each to a bearer of its id. -/
theorem assignAll (pick : String → Option Nat)
    (hpick : ∀ wid conn, pick wid = some conn → ids conn = some wid)
    (hfresh : ∀ conn wid, ids conn = some wid → conn < nextConn)
    (hdistinct : ∀ conn conn' wid, ids conn = some wid → ids conn' = some wid → conn = conn') :
    ∀ (selected : Selection) (job : PendingJob) (sent : List (Nat × ServerToClient)),
      JobInv ids nextConn sent job →
      JobInv ids nextConn (assignAll pick selected job sent).2 (assignAll pick selected job sent).1
  | [], _, _, h => h
  | (wid, hints) :: rest, job, sent, h => by
    rw [Coordinator.assignAll]
    split
    · exact assignAll pick hpick hfresh hdistinct rest job sent h
    next conn hconn =>
      have hid := hpick wid conn hconn
      exact assignAll pick hpick hfresh hdistinct rest _ _
        (h.assignOne hints (hfresh conn wid hid) fun conn' hid' => hdistinct conn' conn wid hid'
          hid)

/-- One more vote, from a connection that bears a dispatched id not yet heard. -/
theorem vote (h : JobInv ids nextConn sent job) {conn : Nat} {result : WorkerResult}
    (hid : ids conn = some result.workerId) (hdisp : result.workerId ∈ job.dispatchedIds)
    (hfirst : ∀ r ∈ job.results, r.workerId ≠ result.workerId) :
    JobInv ids nextConn sent
      { job with
        results := job.results ++ [result]
        trail := { job.trail with origins := job.trail.origins ++ [conn] } } where
  bearer := h.bearer
  assigned := h.assigned
  votes := List.rel_append h.votes (.cons
    ⟨h.bearer conn _ hid hdisp, hdisp, fun wid hwid => Option.some.inj (hwid.symm.trans hid)⟩ .nil)
  nodup := by
    -- a connection that voted before would bear the id of that vote
    have hnew : conn ∉ job.trail.origins := fun hvoted => by
      obtain ⟨r, hr, -, -, hbears⟩ := h.voter hvoted
      exact hfirst r hr (hbears _ hid).symm
    exact List.Nodup.append h.nodup (List.nodup_singleton conn)
      (List.disjoint_singleton.mpr hnew)

end JobInv

/-! ## Every move keeps it -/

section

variable {crypto : Crypto} {cfg : ServeConfig} {s : Serve} {a : Act} {k : Core}

/-- After a move a connection bears the id it bore, or came by it just now. -/
theorem moves_idOf (hmove : Moves crypto cfg s a k) {conn : Nat} {wid : String}
    (hid : k.conns.idOf conn = some wid) :
    s.conns.idOf conn = some wid ∨ renames s a = some (conn, wid) := by
  obtain ⟨y, hy, hwid⟩ := idOf_eq_some.mp hid
  cases moves_conn hmove hy with
  | kept uploads hx => exact Or.inl (idOf_eq_some.mpr ⟨_, hx, hwid⟩)
  | opened peerIp hnew =>
    subst hnew
    exact Or.inr (by rw [renames, ← hwid, Conn.new])
  | @greeted x pubkey workerId role port host now hpc hx hsent =>
    -- an empty name in a `Hello` keeps the old one
    by_cases hsame : workerId = "" ∨ workerId = x.workerId
    · refine Or.inl (idOf_eq_some.mpr ⟨x, hx, ?_⟩)
      rw [← hwid]
      simp only [Conn.greet]
      rcases hsame with hempty | heq
      · rw [if_pos hempty]
      · split
        · rfl
        · exact heq.symm
    · rw [not_or] at hsame
      have hname : workerId = wid := by
        rw [← hwid]
        exact (if_neg hsame.1).symm
      subst hname
      refine Or.inr ?_
      rw [renames, hx]
      exact if_pos ⟨hpc, hsame⟩
  | admitted hpc hx hok => exact Or.inl (idOf_eq_some.mpr ⟨_, hx, hwid⟩)

theorem free_spec {wid : String} (h : free s wid = true) :
    (∀ conn, s.conns.idOf conn ≠ some wid) ∧
      ∀ job, s.pending = some job → wid ∉ job.dispatchedIds := by
  rw [free, Bool.and_eq_true, List.all_eq_true] at h
  constructor
  · intro conn hid
    obtain ⟨x, hx, hwid⟩ := idOf_eq_some.mp hid
    have hmem : x ∈ s.conns.values :=
      List.mem_map_of_mem (AList.mem_lookup_iff.mp hx)
    simpa [hwid] using h.1 x hmem
  · intro job hjob
    simpa [Serve.dispatchedIds, hjob] using h.2

/-- What `keepsIds` says about the connection that comes by an id. -/
theorem keepsIds_spec (h : keepsIds s a = true) {conn : Nat} {wid : String}
    (hren : renames s a = some (conn, wid)) :
    (∀ conn', s.conns.idOf conn' ≠ some wid) ∧ ∀ job, s.pending = some job →
      wid ∉ job.dispatchedIds ∧
        ∀ old, s.conns.idOf conn = some old → old ∉ job.dispatchedIds := by
  rw [keepsIds, hren] at h
  simp only [Bool.and_eq_true] at h
  obtain ⟨hfree, hgiven⟩ := h
  obtain ⟨hnobody, hundispatched⟩ := free_spec hfree
  refine ⟨hnobody, fun job hjob => ⟨hundispatched job hjob, fun old hold => ?_⟩⟩
  obtain ⟨x, hx, rfl⟩ := idOf_eq_some.mp hold
  rw [hx] at hgiven
  simpa [Serve.dispatchedIds, hjob] using hgiven

/-- A connection that comes by an id is open, or the one just accepted. -/
theorem renames_live {conn : Nat} {wid : String} (hren : renames s a = some (conn, wid)) :
    (∃ old, s.conns.idOf conn = some old) ∨
      (conn = s.nextConn ∧ ∃ peerIp, a = .thread (.accept peerIp)) := by
  unfold renames at hren
  split at hren
  next peerIp =>
    cases hren
    exact Or.inr ⟨rfl, peerIp, rfl⟩
  next =>
    split at hren
    · cases hren
    next x hx =>
      split at hren
      · cases hren
        exact Or.inl ⟨_, idOf_eq_some.mpr ⟨x, hx, rfl⟩⟩
      · cases hren
  next => cases hren

/-- Whoever bears an id after the move bore it before, or neither the id nor the
one given up for it is dispatched. -/
theorem moves_renamed (hkeeps : keepsIds s a = true) (hmove : Moves crypto cfg s a k)
    {job : PendingJob} (hjob : s.pending = some job) (conn : Nat) (wid : String)
    (hid : k.conns.idOf conn = some wid) :
    s.conns.idOf conn = some wid ∨ wid ∉ job.dispatchedIds ∧
      (s.nextConn ≤ conn ∨ ∃ old, s.conns.idOf conn = some old ∧ old ∉ job.dispatchedIds) := by
  rcases moves_idOf hmove hid with hold | hren
  · exact Or.inl hold
  · obtain ⟨-, hkept⟩ := keepsIds_spec hkeeps hren
    obtain ⟨hnew, hgiven⟩ := hkept job hjob
    refine Or.inr ⟨hnew, ?_⟩
    rcases renames_live hren with ⟨old, hold⟩ | ⟨rfl, -⟩
    · exact Or.inr ⟨old, hold, hgiven old hold⟩
    · exact Or.inl (Nat.le_refl _)

theorem moves_jobInv (hkeeps : keepsIds s a = true) (hmove : Moves crypto cfg s a k)
    (h : VotesInv s.core) {job' : PendingJob} (hjob' : k.pending = some job') :
    JobInv k.conns.idOf k.nextConn k.sent job' := by
  cases moves_job hmove hjob' with
  | kept hjob hsame =>
    have hinv := (h.job _ hjob).mono (moves_renamed hkeeps hmove hjob) (moves_nextConn hmove)
      (moves_sent hmove).subset
    exact hinv.congr hsame
  | queued descriptor targets path now subscribers =>
    exact JobInv.queued descriptor targets path now subscribers
  | @round job job₁ _ _ pick selected hjob hstart hpick hconns hnext hsent hend =>
    -- the assignments go to bearers, and an id has only one
    have hinv := JobInv.assignAll pick hpick h.fresh h.distinct selected job₁ s.sent
      ((h.job job hjob).congr hstart)
    rw [hconns, hnext, hsent]
    exact hinv.congr hend
  | counted hc hconns hnext hsent =>
    have hid := idOf_eq_some.mpr ⟨_, hc.live, hc.sameId.symm⟩
    rw [hconns, hnext, hsent]
    exact (h.job _ hc.pending).vote hid (hc.sameId ▸ hc.dispatched) (hc.sameId ▸ hc.first)

theorem votesInv_step (hkeeps : keepsIds s a = true) (h : VotesInv s.core) :
    VotesInv (step crypto cfg s a).core := by
  have hmove := step_moves crypto cfg s a
  refine ⟨?_, ?_, fun job hjob => moves_jobInv hkeeps hmove h hjob⟩
  · intro conn wid hid
    have hlive : ∀ old, s.conns.idOf conn = some old →
        conn < (step crypto cfg s a).core.nextConn := fun old hold =>
      Nat.lt_of_lt_of_le (h.fresh conn old hold) (moves_nextConn hmove)
    rcases moves_idOf hmove hid with hold | hren
    · exact hlive wid hold
    · rcases renames_live hren with ⟨old, hold⟩ | ⟨rfl, peerIp, rfl⟩
      · exact hlive old hold
      · exact Nat.lt_succ_self _
  · intro conn conn' wid hid hid'
    rcases moves_idOf hmove hid, moves_idOf hmove hid' with ⟨hold | hren, hold' | hren'⟩
    · exact h.distinct conn conn' wid hold hold'
    · exact absurd hold ((keepsIds_spec hkeeps hren').1 conn)
    · exact absurd hold' ((keepsIds_spec hkeeps hren).1 conn')
    · exact (Prod.mk.inj (Option.some.inj (hren.symm.trans hren'))).1

end

/-! ## Where results come from -/

/-- The trail names the connection each result came in on. -/
def Heard (h : List (Serve × Act)) (s : Serve) : Prop :=
  ∀ job, s.pending = some job → List.Forall₂ (ReceivedOn h) job.trail.origins job.results

section

variable {crypto : Crypto} {cfg : ServeConfig} {s : Serve} {a : Act} {k : Core}
  {h : List (Serve × Act)}

theorem assignAll_votes (pick : String → Option Nat) (selected : Selection) (job : PendingJob)
    (sent : List (Nat × ServerToClient)) :
    (assignAll pick selected job sent).1.results = job.results ∧
      (assignAll pick selected job sent).1.trail.origins = job.trail.origins := by
  rw [assignAll_eq]
  exact ⟨rfl, rfl⟩

theorem heard_step (hheard : Heard h s) : Heard (h ++ [(s, a)]) (step crypto cfg s a) := by
  intro job' hjob'
  have hlater : ∀ conn r, ReceivedOn h conn r → ReceivedOn (h ++ [(s, a)]) conn r :=
    fun conn r ⟨p, hp, hr⟩ => ⟨p, List.mem_append_left _ hp, hr⟩
  cases moves_job (step_moves crypto cfg s a) hjob' with
  | kept hjob hsame =>
    rw [hsame.results, hsame.trail]
    exact (hheard _ hjob).imp hlater
  | queued => exact .nil
  | @round job job₁ _ _ pick selected hjob hstart hpick hconns hnext hsent hend =>
    obtain ⟨hresults, horigins⟩ := assignAll_votes pick selected job₁ s.sent
    rw [hend.results, hend.trail, hresults, horigins, hstart.results, hstart.trail]
    exact (hheard _ hjob).imp hlater
  | @counted conn x result job host now hc =>
    have hnow : ReceivedOn (h ++ [(s, .event (.result conn result) host now)]) conn result :=
      ⟨_, List.mem_append_right _ (List.mem_singleton_self _), host, now, rfl⟩
    exact List.rel_append ((hheard job hc.pending).imp hlater) (.cons hnow .nil)

theorem VotesInv.integrity (hinv : VotesInv s.core) (hheard : Heard h s) : QuorumIntegrity h s := by
  intro job hjob
  have hvotes := hinv.job job hjob
  refine ⟨hheard job hjob, hvotes.nodup, fun conn hconn => ?_⟩
  obtain ⟨r, hr, hassigned, -⟩ := hvotes.voter hconn
  exact ⟨hassigned, (hvotes.assigned conn hassigned).2⟩

end

/-- In every run in which ids are kept, the results of the pending job came in
on distinct connections to which the coordinator had sent it, in every state. -/
theorem serve_quorum_integrity (crypto : Crypto) (cfg : ServeConfig) (nextConn : Nat)
    (store : Store) (acts : List Act)
    (h : ∀ p ∈ history (step crypto cfg) (Serve.init nextConn store) acts,
      keepsIds p.1 p.2 = true) :
    Always (step crypto cfg) QuorumIntegrity (Serve.init nextConn store) acts := by
  have hinit : VotesInv (Serve.init nextConn store).core :=
    { fresh := fun _ _ hid => nomatch hid
      distinct := fun _ _ _ hid => nomatch hid
      job := fun _ hjob => nomatch hjob }
  have hinv : Always (step crypto cfg) (fun h s => VotesInv s.core ∧ Heard h s)
      (Serve.init nextConn store) acts :=
    always_of_step ⟨hinit, fun _ hjob => nomatch hjob⟩
      (fun _ _ _ hs hkeeps => ⟨votesInv_step hkeeps hs.1, heard_step hs.2⟩)
      (eachStep_of_history _ h)
  exact fun pre hpre => (hinv pre hpre).1.integrity (hinv pre hpre).2

/-! ## Two workers, one job -/

def demoJob : QueuedJob :=
  ({ jobId := "job-1", manifest := "", elf := "", input := "" }, none,
    "jobs/job-1.desc.json.dispatching")

/-- A result under the id `wid`, signed by the holder of key `n`. -/
def demoResult (wid : String) (n : Nat) : WorkerResult :=
  { workerId := wid
    jobId := "job-1"
    status := "halted"
    instructions := 7
    resultHash := keyHex 9
    chunkHashes := [keyHex 9]
    outputHex := none
    trap := none
    pubkeyHex := some (keyHex n)
    sigHex := some (sigHex n) }

/-- Connection 1 logs in as `wA`, connection 2 as `wB`; then the job is queued,
dispatched to both, and `wA` votes. -/
def firstVote : List Act :=
  [.thread (.accept "10.0.0.1"), .thread (.accept "10.0.0.2")] ++ login 1 1 "wA" ++ login 2 2 "wB"
    ++ turnWith (some demoJob) (.result 1 (demoResult "wA" 1))

/-- The pending job after a run: who was sent it, who voted, under which ids. -/
def tally (acts : List Act) : Option (List Nat × List Nat × List String) :=
  (stateAfter (step toyCrypto identityConfig) (Serve.init 1 fun _ => none) acts).pending.map
    fun job => (job.trail.assigned, job.trail.origins, job.results.map (·.workerId))

def bothVotes : List Act := firstVote ++ turnWith none (.result 2 (demoResult "wB" 2))

theorem serve_quorum_integrity_bothVotes :
    (∀ p ∈ history (step toyCrypto identityConfig) (Serve.init 1 fun _ => none) bothVotes,
      keepsIds p.1 p.2 = true) ∧
    Always (step toyCrypto identityConfig) QuorumIntegrity (Serve.init 1 fun _ => none) bothVotes ∧
    tally bothVotes = some ([2, 1], [1, 2], ["wA", "wB"]) := by
  have hkeeps :
    ∀ p ∈ history (step toyCrypto identityConfig) (Serve.init 1 fun _ => none) bothVotes,
      keepsIds p.1 p.2 = true :=
    List.all_eq_true.mp (by decide +kernel)
  exact ⟨hkeeps, serve_quorum_integrity toyCrypto identityConfig 1 _ bothVotes hkeeps,
    by decide +kernel⟩

/-- Connection 1 votes again, after a `Hello` that calls it `wB`. -/
def votesTwice : List Act :=
  firstVote ++ turnWith none (.hello 1 (keyHex 1) "wB" none "worker")
    ++ turnWith none (.result 1 (demoResult "wB" 1))

/-- Connection 3 logs in as `wB` after the dispatch, and votes. -/
def votesUnasked : List Act :=
  firstVote ++ [.thread (.accept "10.0.0.3")] ++ login 3 3 "wB"
    ++ turnWith none (.result 3 (demoResult "wB" 3))

/-- Every connection uses its own key only; yet one votes twice, and one votes
that was never sent the job. -/
theorem votes_stuffed :
    identityConfig.requireIdentity = true ∧
    tally votesTwice = some ([2, 1], [1, 1], ["wA", "wB"]) ∧
    tally votesUnasked = some ([2, 1], [1, 3], ["wA", "wB"]) := by
  decide +kernel

end Provework.Coordinator
