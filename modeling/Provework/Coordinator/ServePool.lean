import Mathlib.Data.List.Zip
import Provework.Coordinator.ServeVotes

/-!
# Who a job is sent to

The size of the pool `decide` is told is the length of `dispatched_ids`, which
is filled at round 1 and at the escalation; the reserves in between come from
round 1 and from connections that authenticate later. `PoolAccounted` says that
the ids in it are distinct, that each is a worker's who was sent the job once,
and that no submitter is among them or the reserves.

Round 1 looks for workers; the late joiner is not asked for its role nor whether
it is on the list already, and a `Hello` may rename a connection or make it a
submitter at any time. `keepsPool` is what a step has to observe so that the
pool stays accounted for. While the loop has released the lock between choosing
round 1 and sending it, the ids chosen are in `pc`; `Flight` is about those.
-/

namespace Provework.Coordinator

open Provework.Lib Provework.Jobfmt Provework.Contentstore Provework.Wire

/-- No open connection with the role of a submitter bears one of the ids. -/
def NoSubmitter (conns : Conns) (ids : List String) : Prop :=
  ∀ conn x, conns.lookup conn = some x → x.role = .submitter → x.workerId ∉ ids

/-- The connection was sent the job, and while it is open it is a worker that
bears the id. -/
def Asked (s : Serve) (descriptor : JobDescriptor) (wid : String) (conn : Nat) : Prop :=
  (∃ hints, (conn, .jobAssignment descriptor hints) ∈ s.sent) ∧
    ∀ x, s.conns.lookup conn = some x → x.workerId = wid ∧ x.role = .worker

/-- The pool of a job: distinct ids, for each a worker that was sent the job
once, and no submitter. -/
structure PoolAccounted (s : Serve) (job : PendingJob) : Prop where
  distinct : job.dispatchedIds.Nodup
  asked : List.Forall₂ (Asked s job.descriptor) job.dispatchedIds job.trail.assigned
  once : job.trail.assigned.Nodup
  workersOnly : NoSubmitter s.conns (job.dispatchedIds ++ job.reserves)

/-! ## The condition -/

/-- Whether a connection that authenticates now becomes a reserve. -/
def PendingJob.joins (job : PendingJob) (wid : String) : Bool :=
  job.dispatched && !job.escalated && job.targets.isNone && !job.dispatchedIds.contains wid

/-- No `Hello` makes a submitter of an id the pending job counts on. -/
def keepsWorkers (s : Serve) : Act → Bool
  | .event (.hello conn _ workerId _ role) _ _ =>
    match s.conns.lookup conn with
    | none => true
    | some x => s.pc ≠ .events || Role.parse role = .worker || s.pending.all fun job =>
      (if workerId = "" then x.workerId else workerId) ∉ job.dispatchedIds ++ job.reserves
  | _ => true

/-- Whoever becomes a reserve by authenticating is a worker and not one yet. -/
def joinsOnce (crypto : Crypto) (cfg : ServeConfig) (s : Serve) : Act → Bool
  | .event (.nonceSig conn sig powCounter) _ _ =>
    match s.conns.lookup conn with
    | none => true
    | some x => s.pc ≠ .events || !authOk crypto cfg x sig powCounter || s.pending.all fun job =>
      !job.joins x.workerId || (x.role = .worker && x.workerId ∉ job.reserves)
  | _ => true

def keepsPool (crypto : Crypto) (cfg : ServeConfig) (s : Serve) (a : Act) : Bool :=
  keepsIds s a && keepsWorkers s a && joinsOnce crypto cfg s a

/-! ## Choosing round 1 -/

section

variable {α : Type} {draws : Nat → U64}

theorem swap_perm (items : List α) (i j : Nat) : (swap items i j).Perm items := by
  unfold swap
  split
  next a b ha hb =>
    obtain ⟨hi, rfl⟩ := List.getElem?_eq_some_iff.mp ha
    obtain ⟨hj, rfl⟩ := List.getElem?_eq_some_iff.mp hb
    exact List.set_set_perm hi hj
  next => exact List.Perm.refl _

theorem shuffleFrom_perm (i : Nat) : ∀ items : List α, (shuffleFrom draws i items).Perm items := by
  induction i with
  | zero => exact fun items => List.Perm.refl _
  | succ i ih => exact fun items => (ih _).trans (swap_perm items _ _)

end

section

variable {conns : Conns} {cfg : ServeConfig} {job : PendingJob} {cands : Selection}
  {draws : Nat → U64}

/-- Looking ids up in a list gives at most those ids. -/
theorem find_ids_sublist (ids : List String) :
    ((ids.filterMap fun id => cands.find? fun cand => cand.1 = id).map Prod.fst).Sublist ids := by
  induction ids with
  | nil => exact List.Sublist.refl _
  | cons id ids ih =>
    rw [List.filterMap_cons]
    cases hfind : cands.find? (fun cand => cand.1 = id) with
    | none => exact ih.cons id
    | some cand =>
      have hid : cand.1 = id := by simpa using List.find?_some hfind
      rw [List.map_cons, hid]
      exact ih.cons_cons id

theorem select_subset : select cfg draws job cands ⊆ cands := by
  intro x hx
  unfold select at hx
  split at hx
  · obtain ⟨id, -, hfind⟩ := List.mem_filterMap.mp hx
    exact List.mem_of_find?_eq_some hfind
  · split at hx
    · split at hx
      · exact (shuffleFrom_perm _ _).subset (List.mem_of_mem_take hx)
      · exact hx
    · exact hx

/-- Round 1 takes no id twice. -/
theorem select_nodup (hround : ∀ ids, cfg.round1Ids = some ids → ids.Nodup)
    (h : (cands.map Prod.fst).Nodup) : ((select cfg draws job cands).map Prod.fst).Nodup := by
  unfold select
  split
  next ids hids =>
    have hcfg : cfg.round1Ids = some ids := (Option.filter_eq_some_iff.mp hids).1
    exact (hround ids hcfg).sublist (find_ids_sublist ids)
  next =>
    split
    · split
      · have hshuffled : ((shuffle draws cands).map Prod.fst).Nodup :=
          ((shuffleFrom_perm _ _).map Prod.fst).nodup_iff.mpr h
        exact hshuffled.sublist ((List.take_sublist _ _).map Prod.fst)
      · exact h
    · exact h

/-- No two open connections bear the same id. -/
def DistinctIds (conns : Conns) : Prop :=
  ∀ conn conn' wid, conns.idOf conn = some wid → conns.idOf conn' = some wid → conn = conn'

theorem lookup_of_mem_entries {e : (_ : Nat) × Conn} (h : e ∈ conns.entries) :
    conns.lookup e.1 = some e.2 := AList.mem_lookup_iff.mpr h

theorem workerIds_nodup (hdistinct : DistinctIds conns) (p : Conn → Bool) :
    ((conns.values.filter p).map (·.workerId)).Nodup := by
  have hids : conns.entries.Pairwise fun e e' => e.2.workerId ≠ e'.2.workerId := by
    refine (List.nodupKeys_iff_pairwise.mp conns.nodupKeys).imp_of_mem ?_
    intro e e' he he' hkeys hsame
    exact hkeys (hdistinct e.1 e'.1 e.2.workerId
      (idOf_eq_some.mpr ⟨e.2, lookup_of_mem_entries he, rfl⟩)
      (idOf_eq_some.mpr ⟨e'.2, lookup_of_mem_entries he', hsame.symm⟩))
  have hvalues : conns.values.Pairwise fun x y => x.workerId ≠ y.workerId :=
    List.pairwise_map.mpr hids
  exact List.pairwise_map.mpr (hvalues.filter p)

/-- Ids of available workers are no submitters'. -/
theorem noSubmitter_available (hdistinct : DistinctIds conns) {ids : List String}
    (h : ∀ wid ∈ ids, ∃ x ∈ conns.values, x.available = true ∧ x.workerId = wid) :
    NoSubmitter conns ids := by
  intro conn y hy hrole hmem
  obtain ⟨x, hx, havailable, hid⟩ := h _ hmem
  obtain ⟨e, he, rfl⟩ := List.mem_map.mp hx
  have hlookup := lookup_of_mem_entries he
  have hsame := hdistinct conn e.1 y.workerId (idOf_eq_some.mpr ⟨y, hy, rfl⟩)
    (idOf_eq_some.mpr ⟨e.2, hlookup, hid⟩)
  rw [hsame, hlookup] at hy
  obtain rfl := Option.some.inj hy
  simp [Conn.available, hrole] at havailable

theorem candidates_ids (conns : Conns) (job : PendingJob) :
    (candidates conns job).map Prod.fst = (conns.values.filter fun c =>
      (match job.targets with
        | some ids => ids.contains c.workerId
        | none => c.authed) && c.available).map (·.workerId) := by
  rw [candidates, List.map_map]
  rfl

theorem candidates_available {wid : String} (h : wid ∈ (candidates conns job).map Prod.fst) :
    ∃ x ∈ conns.values, x.available = true ∧ x.workerId = wid := by
  rw [candidates_ids] at h
  obtain ⟨x, hx, rfl⟩ := List.mem_map.mp h
  obtain ⟨hmem, hp⟩ := List.mem_filter.mp hx
  exact ⟨x, hmem, (Bool.and_eq_true _ _ ▸ hp).2, rfl⟩

theorem reserves_available {selected : Selection} {wid : String}
    (h : wid ∈ reservesOf conns job selected) :
    (∃ x ∈ conns.values, x.available = true ∧ x.workerId = wid) ∧ wid ∉ selected.map Prod.fst := by
  obtain ⟨x, hx, rfl⟩ := List.mem_map.mp h
  obtain ⟨hmem, hp⟩ := List.mem_filter.mp hx
  simp only [Bool.and_eq_true] at hp
  exact ⟨⟨x, hmem, hp.1.1, rfl⟩, by simpa using hp.1.2⟩

end

/-! ## The pool of a job -/

/-- The pool while the connections come and go. -/
structure JobPool (conns : Conns) (job : PendingJob) : Prop where
  distinct : (job.dispatchedIds ++ job.reserves).Nodup
  length : job.dispatchedIds.length = job.trail.assigned.length
  bears : ∀ p ∈ job.dispatchedIds.zip job.trail.assigned, ∀ wid, conns.idOf p.2 = some wid →
    wid = p.1
  once : job.trail.assigned.Nodup
  workersOnly : NoSubmitter conns (job.dispatchedIds ++ job.reserves)
  undispatched : job.dispatched = false → job.dispatchedIds = []

/-- Equal in everything the pool depends on. -/
structure SamePool (job job' : PendingJob) : Prop where
  dispatchedIds : job'.dispatchedIds = job.dispatchedIds
  reserves : job'.reserves = job.reserves
  assigned : job'.trail.assigned = job.trail.assigned
  dispatched : job'.dispatched = job.dispatched

section

variable {conns : Conns} {job job' : PendingJob} {pick : String → Option Nat} {selected : Selection}

theorem JobPool.congr (h : JobPool conns job) (hs : SamePool job job') : JobPool conns job' := by
  obtain ⟨hids, hreserves, hassigned, hdispatched⟩ := hs
  constructor
  · rw [hids, hreserves]
    exact h.distinct
  · rw [hids, hassigned]
    exact h.length
  · rw [hids, hassigned]
    exact h.bears
  · rw [hassigned]
    exact h.once
  · rw [hids, hreserves]
    exact h.workersOnly
  · rw [hids, hdispatched]
    exact h.undispatched

theorem JobPool.queued (descriptor : JobDescriptor) (targets : Option (List String)) (path : String)
    (now : Nat) (subscribers : List Nat) :
    JobPool conns (.queued descriptor targets path now subscribers) where
  distinct := List.nodup_nil
  length := rfl
  bears _ hp := nomatch hp
  once := List.nodup_nil
  workersOnly _ _ _ _ hmem := nomatch hmem
  undispatched _ := rfl

/-- A connection that was sent the job was so under one of the ids. -/
theorem JobPool.askedAs (h : JobPool conns job) {conn : Nat} (hconn : conn ∈ job.trail.assigned) :
    ∃ wid ∈ job.dispatchedIds, ∀ wid', conns.idOf conn = some wid' → wid' = wid := by
  have hsnd : (job.dispatchedIds.zip job.trail.assigned).map Prod.snd = job.trail.assigned :=
    List.map_snd_zip h.length.ge
  rw [← hsnd] at hconn
  obtain ⟨p, hp, rfl⟩ := List.mem_map.mp hconn
  exact ⟨p.1, (List.of_mem_zip hp).1, h.bears p hp⟩

theorem assignments_sublist (pick : String → Option Nat) (selected : Selection) :
    ((assignments pick selected).map (·.1)).Sublist (selected.map Prod.fst) := by
  induction selected with
  | nil => exact List.Sublist.refl _
  | cons head rest ih =>
    obtain ⟨wid, hints⟩ := head
    cases hpick : pick wid with
    | none =>
      have hskip : assignments pick ((wid, hints) :: rest) = assignments pick rest := by
        simp [assignments, hpick]
      rw [hskip]
      exact ih.cons wid
    | some conn =>
      have hcons : assignments pick ((wid, hints) :: rest) =
          (wid, conn, hints) :: assignments pick rest := by
        simp [assignments, hpick]
      rw [hcons]
      exact ih.cons_cons wid

theorem assignments_pick {x : String × Nat × List String} (h : x ∈ assignments pick selected) :
    pick x.1 = some x.2.1 := by
  obtain ⟨⟨wid, hints⟩, -, hx⟩ := List.mem_filterMap.mp h
  obtain ⟨conn, hconn, rfl⟩ := Option.map_eq_some_iff.mp hx
  exact hconn

/-- A round of assignments to bearers of distinct new ids, none a submitter's. -/
theorem JobPool.round (h : JobPool conns job) (pick : String → Option Nat)
    (hpick : ∀ wid conn, pick wid = some conn → conns.idOf conn = some wid) (selected : Selection)
    (reserves : List String)
    (hdistinct : (job.dispatchedIds ++ (selected.map Prod.fst ++ reserves)).Nodup)
    (hworkers : NoSubmitter conns (job.dispatchedIds ++ (selected.map Prod.fst ++ reserves)))
    (hids : job'.dispatchedIds = job.dispatchedIds ++ (assignments pick selected).map (·.1))
    (hassigned :
      job'.trail.assigned = job.trail.assigned ++ (assignments pick selected).map (·.2.1))
    (hreserves : job'.reserves = reserves) (hdispatched : job'.dispatched = true) :
    JobPool conns job' := by
  have hsub := assignments_sublist pick selected
  have hbearer : ∀ x ∈ assignments pick selected, conns.idOf x.2.1 = some x.1 :=
    fun x hx => hpick x.1 x.2.1 (assignments_pick hx)
  have hall : (job'.dispatchedIds ++ job'.reserves).Sublist
      (job.dispatchedIds ++ (selected.map Prod.fst ++ reserves)) := by
    rw [hids, hreserves, List.append_assoc]
    exact (List.Sublist.refl _).append (hsub.append (List.Sublist.refl _))
  constructor
  · exact hdistinct.sublist hall
  · rw [hids, hassigned, List.length_append, List.length_append, List.length_map, List.length_map,
      h.length]
  · rw [hids, hassigned, List.zip_append h.length, List.zip_map']
    intro p hp wid hid
    rcases List.mem_append.mp hp with hp | hp
    · exact h.bears p hp wid hid
    · obtain ⟨x, hx, rfl⟩ := List.mem_map.mp hp
      exact Option.some.inj (hid.symm.trans (hbearer x hx))
  · -- the connection tells the id, so distinct ids have distinct connections
    have hnew : ((assignments pick selected).map (·.2.1)).Nodup := by
      refine List.Nodup.of_map conns.idOf ?_
      rw [List.map_map, List.map_congr_left (g := fun x => some x.1) hbearer,
        ← Function.comp_def some, ← List.map_map]
      have hnodup : (selected.map Prod.fst).Nodup :=
        (List.nodup_append.mp (List.nodup_append.mp hdistinct).2.1).1
      exact (hnodup.sublist hsub).map (Option.some_injective _)
    rw [hassigned]
    refine h.once.append hnew ?_
    intro conn hold hconn
    obtain ⟨wid, hwid, hbears⟩ := h.askedAs hold
    obtain ⟨x, hx, rfl⟩ := List.mem_map.mp hconn
    have hsame := hbears x.1 (hbearer x hx)
    have hmem : x.1 ∈ selected.map Prod.fst := hsub.subset (List.mem_map.mpr ⟨x, hx, rfl⟩)
    exact (List.nodup_append.mp hdistinct).2.2 wid hwid x.1 (List.mem_append_left _ hmem) hsame.symm
  · intro conn x hx hrole hmem
    exact hworkers conn x hx hrole (hall.subset hmem)
  · intro hfalse
    rw [hdispatched] at hfalse
    cases hfalse

theorem lateJoiner_joins {wid : String} (h : job.joins wid = true) :
    job.lateJoiner wid = { job with reserves := job.reserves ++ [wid] } := if_pos h

theorem lateJoiner_stays {wid : String} (h : job.joins wid = false) : job.lateJoiner wid = job := by
  rw [PendingJob.lateJoiner, if_neg]
  rw [PendingJob.joins] at h
  rw [h]
  exact Bool.false_ne_true

/-- A worker that was not on the list joins the reserves. -/
theorem JobPool.join (h : JobPool conns job) (hdistinct : DistinctIds conns) {conn : Nat} {x : Conn}
    (hx : conns.lookup conn = some x)
    (hok : job.joins x.workerId = true → x.role = .worker ∧ x.workerId ∉ job.reserves) :
    JobPool conns (job.lateJoiner x.workerId) := by
  cases hjoins : job.joins x.workerId with
  | false =>
    rw [lateJoiner_stays hjoins]
    exact h
  | true =>
    obtain ⟨hrole, hreserves⟩ := hok hjoins
    have hdispatched : x.workerId ∉ job.dispatchedIds := by
      have hlast := (Bool.and_eq_true _ _ ▸ hjoins).2
      simpa using hlast
    rw [lateJoiner_joins hjoins]
    refine ⟨?_, h.length, h.bears, h.once, ?_, h.undispatched⟩
    · show (job.dispatchedIds ++ (job.reserves ++ [x.workerId])).Nodup
      rw [← List.append_assoc]
      refine h.distinct.append (List.nodup_singleton _) (List.disjoint_singleton.mpr ?_)
      exact fun hmem => (List.mem_append.mp hmem).elim hdispatched hreserves
    · intro conn' y hy hsub hmem
      have hmem' : y.workerId ∈ (job.dispatchedIds ++ job.reserves) ++ [x.workerId] := by
        rwa [List.append_assoc]
      rcases List.mem_append.mp hmem' with hold | hnew
      · exact h.workersOnly conn' y hy hsub hold
      · -- nobody else bears the id
        have hsame := hdistinct conn' conn x.workerId
          (idOf_eq_some.mpr ⟨y, hy, List.mem_singleton.mp hnew⟩) (idOf_eq_some.mpr ⟨x, hx, rfl⟩)
        rw [hsame, hx] at hy
        cases hy
        rw [hrole] at hsub
        cases hsub

end

/-! ## The dispatch under way -/

/-- The ids chosen so far, while the lock is released. -/
def Pc.ids : Pc → List String
  | .hold selected => selected.map Prod.fst
  | .assign selected reserves => selected.map Prod.fst ++ reserves
  | _ => []

def Pc.inFlight : Pc → Bool
  | .hold _ => true
  | .assign _ _ => true
  | _ => false

theorem Pc.ids_of_not_inFlight {pc : Pc} (h : pc.inFlight = false) : pc.ids = [] := by
  cases pc with
  | hold => cases h
  | assign => cases h
  | _ => rfl

/-- Where the loop stands after a step, as far as a dispatch is concerned. -/
inductive PcMoves (cfg : ServeConfig) (s s' : Serve) : Prop
  | grounded (h : s'.pc.inFlight = false)
  | kept (hpc : s'.pc = s.pc) (hpending : s'.pending = s.pending)
  | chosen {job : PendingJob} {draws : Nat → U64} (hjob : s.pending = some job)
      (hundispatched : job.dispatched = false)
      (hnext : s' = { s with pc := .hold (select cfg draws job (candidates s.conns job)) })
  | held {job : PendingJob} {selected : Selection} (hpc : s.pc = .hold selected)
      (hjob : s.pending = some job)
      (hnext : s' = { s with pc := .assign selected (reservesOf s.conns job selected) })

section

variable {crypto : Crypto} {cfg : ServeConfig} {s : Serve} {a : Act}

theorem checkComplete_grounded (now : Nat) (zk replay : Option Decision) :
    (s.checkComplete cfg now zk replay).pc.inFlight = false := by
  unfold Serve.checkComplete
  split
  · rfl
  · split
    · rfl
    · split
      · split <;> rfl
      · split <;> rfl

theorem step_pc (crypto : Crypto) (cfg : ServeConfig) (s : Serve) (a : Act) :
    PcMoves cfg s (step crypto cfg s a) := by
  cases a with
  | thread t => cases t <;> exact .kept rfl rfl
  | scan found now =>
    rw [step]
    split
    · refine .grounded ?_
      unfold Serve.scan
      split
      · rfl
      · split
        · rfl
        · split <;> rfl
    · exact .kept rfl rfl
  | choose draws =>
    rw [step]
    split
    · unfold Serve.choose
      split
      · exact .grounded rfl
      next job hjob =>
        split
        next hready =>
          rw [Bool.and_eq_true] at hready
          exact .chosen hjob (by simpa using hready.1) rfl
        next => exact .grounded rfl
    · exact .kept rfl rfl
  | hold =>
    rw [step]
    split
    next selected hpc =>
      unfold Serve.hold
      split
      · exact .grounded rfl
      next job hjob => exact .held hpc hjob rfl
    next => exact .kept rfl rfl
  | assign now =>
    rw [step]
    split
    · refine .grounded ?_
      unfold Serve.assign
      split <;> rfl
    · exact .kept rfl rfl
  | complete now zk replay =>
    rw [step]
    split
    · exact .grounded (checkComplete_grounded now zk replay)
    · exact .kept rfl rfl
  | idle =>
    rw [step]
    split
    · exact .grounded rfl
    · exact .kept rfl rfl
  | event e host now =>
    rw [step]
    split
    · refine .grounded ?_
      unfold Serve.handle
      split <;> rfl
    · exact .kept rfl rfl

structure Flight (s : Serve) : Prop where
  distinct : s.pc.ids.Nodup
  workersOnly : NoSubmitter s.conns s.pc.ids
  undispatched : s.pc.inFlight = true → ∀ job, s.pending = some job → job.dispatched = false

structure PoolInv (s : Serve) : Prop where
  votes : VotesInv s.core
  job : ∀ job, s.pending = some job → JobPool s.conns job
  flight : Flight s

/-! ## Every step keeps the pool -/

/-- Only a `Hello` gives an id to a submitter. -/
theorem noSubmitter_moves {k : Core} (hmove : Moves crypto cfg s a k) {ids : List String}
    (h : NoSubmitter s.conns ids)
    (hgreet : ∀ conn x pubkey workerId port role host now,
      a = .event (.hello conn pubkey workerId port role) host now → s.pc = .events →
      s.conns.lookup conn = some x → Role.parse role = .submitter →
      (if workerId = "" then x.workerId else workerId) ∉ ids) :
    NoSubmitter k.conns ids := by
  intro conn y hy hrole
  cases moves_conn hmove hy with
  | @kept _ x uploads hx => exact h conn x hx hrole
  | opened peerIp hnew => cases hrole
  | @greeted x pubkey workerId role port host now hpc hx hsent =>
    exact hgreet conn x pubkey workerId port role host now rfl hpc hx hrole
  | @admitted x sig powCounter host now hpc hx hok => exact h conn x hx hrole

/-- The ids drawn from the candidates. -/
theorem flight_chosen (hround : ∀ ids, cfg.round1Ids = some ids → ids.Nodup) (h : PoolInv s)
    {job : PendingJob} {draws : Nat → U64} (hjob : s.pending = some job)
    (hundispatched : job.dispatched = false) :
    Flight { s with pc := .hold (select cfg draws job (candidates s.conns job)) } := by
  have hdistinct : DistinctIds s.conns := h.votes.distinct
  have hcands : ((candidates s.conns job).map Prod.fst).Nodup := by
    rw [candidates_ids]
    exact workerIds_nodup hdistinct _
  refine ⟨select_nodup hround hcands, noSubmitter_available hdistinct ?_, ?_⟩
  · intro wid hwid
    obtain ⟨x, hx, rfl⟩ := List.mem_map.mp hwid
    exact candidates_available (List.mem_map.mpr ⟨x, select_subset hx, rfl⟩)
  · intro _ job' hjob'
    rw [hjob] at hjob'
    cases hjob'
    exact hundispatched

/-- The reserves held back beside them. -/
theorem flight_held (h : PoolInv s) {selected : Selection} (hpc : s.pc = .hold selected)
    {job : PendingJob} :
    Flight { s with pc := .assign selected (reservesOf s.conns job selected) } := by
  have hdistinct : DistinctIds s.conns := h.votes.distinct
  have hselected : (selected.map Prod.fst).Nodup ∧ NoSubmitter s.conns (selected.map Prod.fst) := by
    have hd := h.flight.distinct
    have hw := h.flight.workersOnly
    rw [hpc] at hd hw
    exact ⟨hd, hw⟩
  have hreserves : NoSubmitter s.conns (reservesOf s.conns job selected) :=
    noSubmitter_available hdistinct fun wid hwid => (reserves_available hwid).1
  refine ⟨?_, ?_, ?_⟩
  · refine hselected.1.append (workerIds_nodup hdistinct _) ?_
    intro wid hsel hres
    exact (reserves_available hres).2 hsel
  · intro conn x hx hrole hmem
    exact (List.mem_append.mp hmem).elim (hselected.2 conn x hx hrole) (hreserves conn x hx hrole)
  · intro _
    exact h.flight.undispatched (by rw [hpc]; rfl)

theorem flight_step (hround : ∀ ids, cfg.round1Ids = some ids → ids.Nodup) (h : PoolInv s) :
    Flight (step crypto cfg s a) := by
  have hmove := step_moves crypto cfg s a
  cases step_pc crypto cfg s a with
  | grounded hpc =>
    refine ⟨?_, ?_, ?_⟩
    · rw [Pc.ids_of_not_inFlight hpc]
      exact List.nodup_nil
    · rw [Pc.ids_of_not_inFlight hpc]
      exact fun _ _ _ _ hmem => nomatch hmem
    · rw [hpc]
      exact fun hfalse => nomatch hfalse
  | kept hpc hpending =>
    refine ⟨hpc ▸ h.flight.distinct, ?_, ?_⟩
    · rw [hpc]
      refine noSubmitter_moves hmove h.flight.workersOnly ?_
      -- no `Hello` is handled while ids are chosen
      intro conn x pubkey workerId port role host now _ hevents _ _
      rw [hevents]
      exact List.not_mem_nil
    · rw [hpc, hpending]
      exact h.flight.undispatched
  | chosen hjob hundispatched hnext =>
    rw [hnext]
    exact flight_chosen hround h hjob hundispatched
  | held hpc hjob hnext =>
    rw [hnext]
    exact flight_held h hpc

theorem keepsPool_spec (h : keepsPool crypto cfg s a = true) :
    keepsIds s a = true ∧ keepsWorkers s a = true ∧ joinsOnce crypto cfg s a = true := by
  simpa [keepsPool, and_assoc] using h

/-- The connections change, the job does not. -/
theorem jobPool_moves {k : Core} (hmove : Moves crypto cfg s a k) (hkeeps : keepsIds s a = true)
    (hworkers : keepsWorkers s a = true) (h : PoolInv s) {job : PendingJob}
    (hjob : s.pending = some job) : JobPool k.conns job := by
  have hpool := h.job job hjob
  refine { hpool with bears := ?_, workersOnly := ?_ }
  · intro p hp wid hid
    obtain ⟨hdispatched, hassigned⟩ := List.of_mem_zip hp
    rcases moves_renamed hkeeps hmove hjob p.2 wid hid with hold | ⟨-, hge | ⟨old, hold, hnot⟩⟩
    · exact hpool.bears p hp wid hold
    · exact absurd ((h.votes.job job hjob).assigned p.2 hassigned).1 (Nat.not_lt.mpr hge)
    · exact absurd (hpool.bears p hp old hold ▸ hdispatched) hnot
  · refine noSubmitter_moves hmove hpool.workersOnly ?_
    rintro conn x pubkey workerId port role host now rfl hpc hx hrole
    simpa [keepsWorkers, hx, hpc, hrole, hjob] using hworkers

/-- The first round goes to the ids chosen, of a job nobody was sent before. -/
theorem jobPool_round1 (h : PoolInv s) {selected : Selection} {reserves : List String}
    (hpc : s.pc = .assign selected reserves) {job : PendingJob} (hjob : s.pending = some job)
    (now : Nat) :
    JobPool s.conns { (s.round1 job selected).1 with
      reserves := reserves, dispatched := true, started := now } := by
  have hflight := h.flight
  have hempty : job.dispatchedIds = [] :=
    (h.job job hjob).undispatched (hflight.undispatched (by rw [hpc]; rfl) job hjob)
  have hids : s.pc.ids = job.dispatchedIds ++ (selected.map Prod.fst ++ reserves) := by
    rw [hpc, hempty]
    rfl
  refine (h.job job hjob).round s.conns.bearer s.conns.bearer_bears selected reserves ?_ ?_ ?_ ?_
    rfl rfl
  · exact hids ▸ hflight.distinct
  · exact hids ▸ hflight.workersOnly
  · rw [Serve.round1, assignAll_eq]
  · rw [Serve.round1, assignAll_eq]

/-- The second round goes to the reserves, and leaves none. -/
theorem jobPool_round2 {job : PendingJob} (h : JobPool s.conns job)
    (hdispatched : job.dispatched = true) (now : Nat) :
    JobPool s.conns { (s.round2 job).1 with escalated := true, started := now } := by
  have hids : job.dispatchedIds ++ job.reserves = job.dispatchedIds ++
      ((job.reserves.map fun wid => (wid, s.conns.peerHints wid)).map Prod.fst ++ []) := by
    rw [List.append_nil, List.map_map]
    exact congrArg (job.dispatchedIds ++ ·) (List.map_id _).symm
  refine h.round s.conns.authedBearer s.conns.authedBearer_bears
    (job.reserves.map fun wid => (wid, s.conns.peerHints wid)) [] (hids ▸ h.distinct)
    (hids ▸ h.workersOnly) ?_ ?_ ?_ ?_
  all_goals rw [Serve.round2, assignAll_eq]
  exact hdispatched

theorem jobPool_step (hok : keepsPool crypto cfg s a = true) (h : PoolInv s)
    (hvotes : VotesInv (step crypto cfg s a).core) {job' : PendingJob}
    (hjob' : (step crypto cfg s a).pending = some job') :
    JobPool (step crypto cfg s a).conns job' := by
  obtain ⟨hkeeps, hworkers, hjoins⟩ := keepsPool_spec hok
  have hmove := step_moves crypto cfg s a
  generalize hcore : (step crypto cfg s a).core = k at hmove hvotes
  have hpending : (step crypto cfg s a).pending = k.pending := congrArg Core.pending hcore
  have hconns : (step crypto cfg s a).conns = k.conns := congrArg Core.conns hcore
  rw [hpending] at hjob'
  rw [hconns]
  have hmoved := fun {job : PendingJob} (hjob : s.pending = some job) =>
    jobPool_moves hmove hkeeps hworkers h hjob
  cases hmove with
  | @authenticate conn x sig powCounter host now hpc hx hauth =>
    obtain ⟨job, hjob, rfl⟩ := Option.map_eq_some_iff.mp hjob'
    refine JobPool.join (x := { x with authed := true }) (hmoved hjob) hvotes.distinct
      (AList.lookup_insert s.conns) ?_
    intro hlate
    simpa [joinsOnce, hx, hpc, hauth, hjob, hlate] using hjoins
  | subscribe msgs jobId conn =>
    obtain ⟨job, hjob, rfl⟩ := Option.map_eq_some_iff.mp hjob'
    refine (hmoved hjob).congr ?_
    unfold PendingJob.subscribe
    split <;> exact ⟨rfl, rfl, rfl, rfl⟩
  | queue descriptor targets path now subscribers hnone =>
    cases hjob'
    exact .queued descriptor targets path now subscribers
  | @round1 job selected reserves now hpc hjob =>
    cases hjob'
    exact jobPool_round1 h hpc hjob now
  | @escalate job now zk replay hjob hdispatched =>
    cases hjob'
    exact jobPool_round2 (h.job job hjob) hdispatched now
  | finish => cases hjob'
  | @count conn x result job host now hpc hc =>
    cases hjob'
    exact (hmoved hc.pending).congr ⟨rfl, rfl, rfl, rfl⟩
  | @claim _ workerId job job'' hjob hclaimed =>
    cases hjob'
    rw [hclaimed.eq]
    exact (hmoved hjob).congr ⟨rfl, rfl, rfl, rfl⟩
  | _ => exact hmoved hjob'

theorem poolInv_step (hround : ∀ ids, cfg.round1Ids = some ids → ids.Nodup)
    (hok : keepsPool crypto cfg s a = true) (h : PoolInv s) : PoolInv (step crypto cfg s a) := by
  have hvotes : VotesInv (step crypto cfg s a).core := votesInv_step (keepsPool_spec hok).1 h.votes
  exact ⟨hvotes, fun job hjob => jobPool_step hok h hvotes hjob, flight_step hround h⟩

theorem PoolInv.accounted (h : PoolInv s) {job : PendingJob} (hjob : s.pending = some job) :
    PoolAccounted s job := by
  have hpool := h.job job hjob
  refine ⟨(List.nodup_append.mp hpool.distinct).1, ?_, hpool.once, hpool.workersOnly⟩
  rw [List.forall₂_iff_zip]
  refine ⟨hpool.length, fun {wid conn} hp => ⟨?_, ?_⟩⟩
  · exact ((h.votes.job job hjob).assigned conn (List.of_mem_zip hp).2).2
  · intro x hx
    have hid : x.workerId = wid := hpool.bears (wid, conn) hp _ (idOf_eq_some.mpr ⟨x, hx, rfl⟩)
    refine ⟨hid, ?_⟩
    cases hrole : x.role with
    | worker => rfl
    | submitter =>
      have hmem : x.workerId ∈ job.dispatchedIds ++ job.reserves := by
        rw [hid]
        exact List.mem_append_left _ (List.of_mem_zip hp).1
      exact absurd hmem (hpool.workersOnly conn x hx hrole)

end

/-- In every run that keeps the pool, with no id twice in the configured round 1,
the pool of the pending job is accounted for in every state. -/
theorem serve_pool_accounted (crypto : Crypto) (cfg : ServeConfig)
    (hround : ∀ ids, cfg.round1Ids = some ids → ids.Nodup) (nextConn : Nat) (store : Store)
    (acts : List Act)
    (h : ∀ p ∈ history (step crypto cfg) (Serve.init nextConn store) acts,
      keepsPool crypto cfg p.1 p.2 = true) :
    Always (step crypto cfg) (fun _ s => ∀ job, s.pending = some job → PoolAccounted s job)
      (Serve.init nextConn store) acts := by
  have hinit : PoolInv (Serve.init nextConn store) :=
    { votes :=
        { fresh := fun _ _ hid => nomatch hid
          distinct := fun _ _ _ hid => nomatch hid
          job := fun _ hjob => nomatch hjob }
      job := fun _ hjob => nomatch hjob
      flight :=
        { distinct := List.nodup_nil
          workersOnly := fun _ _ hx => nomatch hx
          undispatched := fun hflight => nomatch hflight } }
  have hsteps : EachStep (step crypto cfg) (fun _ s a => keepsPool crypto cfg s a = true)
      (Serve.init nextConn store) acts := eachStep_of_history _ h
  have hinv : Always (step crypto cfg) (fun _ s => PoolInv s) (Serve.init nextConn store) acts :=
    always_of_step hinit (fun _ _ _ hs hok => poolInv_step hround hok hs) hsteps
  exact fun pre hpre job hjob => (hinv pre hpre).accounted hjob

/-! ## A job that is escalated -/

/-- `wB` reports a trap where `wA` halts, and the job is escalated. -/
def dissent : List Act :=
  turnWith none (.result 2 { demoResult "wB" 2 with status := "trapped" }) ++ settles

/-- Connection 3 logs in as the worker `wC` after the dispatch. -/
def lateWorker : List Act :=
  firstVote ++ [.thread (.accept "10.0.0.3")] ++ login 3 3 "wC" ++ dissent

/-- The ids a pending job was dispatched to and the connections that were sent it. -/
def poolAfter (acts : List Act) : Option (List String × List Nat) :=
  (stateAfter (step toyCrypto identityConfig) (Serve.init 1 fun _ => none) acts).pending.map
    fun job => (job.dispatchedIds, job.trail.assigned)

theorem serve_pool_lateWorker :
    (∀ p ∈ history (step toyCrypto identityConfig) (Serve.init 1 fun _ => none) lateWorker,
      keepsPool toyCrypto identityConfig p.1 p.2 = true) ∧
    Always (step toyCrypto identityConfig)
      (fun _ s => ∀ job, s.pending = some job → PoolAccounted s job) (Serve.init 1 fun _ => none)
      lateWorker ∧
    poolAfter lateWorker = some (["wB", "wA", "wC"], [2, 1, 3]) := by
  have hround : ∀ ids, identityConfig.round1Ids = some ids → ids.Nodup := fun _ h => nomatch h
  have hkeeps :
    ∀ p ∈ history (step toyCrypto identityConfig) (Serve.init 1 fun _ => none) lateWorker,
      keepsPool toyCrypto identityConfig p.1 p.2 = true :=
    List.all_eq_true.mp (by decide +kernel)
  exact ⟨hkeeps, serve_pool_accounted toyCrypto identityConfig hround 1 _ lateWorker hkeeps,
    by decide +kernel⟩

/-- Connection 3 is a submitter, and proves its key twice after the dispatch. -/
def lateSubmitter : List Act :=
  firstVote ++ [.thread (.accept "10.0.0.3")] ++ loginSubmitter 3 3 "sC"
    ++ turnWith none (.nonceSig 3 (some (sigHex 3)) 0) ++ dissent

/-- The submitter is dispatched to, twice: of the pool of four, two are workers. -/
theorem submitter_in_pool :
    poolAfter lateSubmitter = some (["wB", "wA", "sC", "sC"], [2, 1, 3, 3]) ∧
    ((stateAfter (step toyCrypto identityConfig) (Serve.init 1 fun _ => none)
      lateSubmitter).conns.lookup
      3).map (fun x => (x.workerId, x.role)) = some ("sC", .submitter) ∧
    ¬Always (step toyCrypto identityConfig)
      (fun _ s => ∀ job, s.pending = some job → PoolAccounted s job) (Serve.init 1 fun _ => none)
      lateSubmitter := by
  have hpool : poolAfter lateSubmitter = some (["wB", "wA", "sC", "sC"], [2, 1, 3, 3]) := by
    decide +kernel
  refine ⟨hpool, by decide +kernel, ?_⟩
  intro hall
  obtain ⟨job, hjob, h⟩ := Option.map_eq_some_iff.mp hpool
  have hdistinct := (hall lateSubmitter List.prefix_rfl job hjob).distinct
  rw [(Prod.mk.inj h).1] at hdistinct
  exact absurd hdistinct (by decide)

end Provework.Coordinator
