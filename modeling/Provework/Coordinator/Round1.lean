import Provework.Coordinator.ServeEscalation

/-!
# Round 1 partitions the pool

The dispatch goes over the connection table four times: for the candidates, for
the selection out of them, for the reserves, and to send. Each pass has a filter
of its own, and the table iterates in any order. For a job without targets the
four add up: the ids dispatched to and the reserves are the ids of the
authenticated workers, each once, whatever the shuffle draws.
-/

namespace Provework.Coordinator

open Provework.Lib Provework.Jobfmt Provework.Contentstore Provework.Wire

/-- The ids of the authenticated connections with the role of a worker. -/
def Conns.poolIds (conns : Conns) : List String :=
  (conns.values.filter Conn.available).map (·.workerId)

/-- What a job looks like after round 1 was chosen from `pool`. -/
structure Partitioned (cfg : ServeConfig) (pool : List String) (job : PendingJob) : Prop where
  dispatched : job.dispatched = true
  disjoint : ∀ id ∈ job.dispatchedIds, id ∉ job.reserves
  exact : ∀ id, id ∈ job.dispatchedIds ∨ id ∈ job.reserves ↔ id ∈ pool
  once : (job.dispatchedIds ++ job.reserves).Nodup
  sampled : ∀ n, cfg.round1Ids = none → cfg.round1Size = some n →
    job.dispatchedIds.length = min n pool.length
  everyone : cfg.round1Ids = none → cfg.round1Size = none → job.dispatchedIds.Perm pool
  named : ∀ ids, cfg.round1Ids = some ids → job.dispatchedIds = ids.filter (· ∈ pool)

section

variable {cfg : ServeConfig} {conns : Conns} {job : PendingJob} {draws : Nat → U64}

/-! ## The four passes -/

theorem candidates_pool (h : job.targets = none) :
    (candidates conns job).map Prod.fst = conns.poolIds := by
  rw [candidates_ids, Conns.poolIds, h]
  refine congrArg (List.map _) (List.filter_congr fun c _ => ?_)
  -- for a job without targets every authenticated connection is eligible
  cases hauthed : c.authed <;> simp [Conn.available, hauthed]

/-- Of the named ids, those that are in the pool, in the order they are named. -/
theorem find_ids_eq {cands : Selection} : ∀ ids : List String,
    (ids.filterMap fun id => cands.find? fun cand => cand.1 = id).map Prod.fst
      = ids.filter (· ∈ cands.map Prod.fst) := by
  intro ids
  induction ids with
  | nil => rfl
  | cons id ids ih =>
    rw [List.filterMap_cons, List.filter_cons]
    cases hfind : cands.find? (fun cand => cand.1 = id) with
    | none =>
      have hout : id ∉ cands.map Prod.fst := by
        intro hin
        obtain ⟨cand, hcand, rfl⟩ := List.mem_map.mp hin
        simpa using List.find?_eq_none.mp hfind cand hcand
      rw [if_neg (by simpa using hout)]
      exact ih
    | some cand =>
      have hid : cand.1 = id := by simpa using List.find?_some hfind
      have hin : id ∈ cands.map Prod.fst :=
        List.mem_map.mpr ⟨cand, List.mem_of_find?_eq_some hfind, hid⟩
      rw [if_pos (by simpa using hin), List.map_cons, hid, ih]

/-- How many are sampled. -/
theorem select_sampled {cands : Selection} {n : Nat} (hnamed : cfg.round1Ids = none)
    (hsize : cfg.round1Size = some n) :
    (select cfg draws job cands).length = min n cands.length := by
  unfold select
  rw [hnamed, hsize]
  show (if n < cands.length then (shuffle draws cands).take n else cands).length = _
  split
  · rw [List.length_take, shuffle, (shuffleFrom_perm _ cands).length_eq]
  · omega

theorem select_everyone {cands : Selection} (hnamed : cfg.round1Ids = none)
    (hsize : cfg.round1Size = none) : select cfg draws job cands = cands := by
  unfold select
  rw [hnamed, hsize]
  rfl

theorem select_named {cands : Selection} {ids : List String} (hnamed : cfg.round1Ids = some ids)
    (htargets : job.targets = none) :
    (select cfg draws job cands).map Prod.fst = ids.filter (· ∈ cands.map Prod.fst) := by
  have hfilter : (cfg.round1Ids.filter fun _ => job.targets.isNone) = some ids := by
    rw [hnamed, htargets]
    rfl
  unfold select
  rw [hfilter]
  exact find_ids_eq ids

theorem reserves_pool {selected : Selection} (h : job.targets = none) :
    reservesOf conns job selected = conns.poolIds.filter (· ∉ selected.map Prod.fst) := by
  rw [reservesOf, Conns.poolIds, h, List.filter_map, List.filter_filter]
  refine congrArg (List.map _) (List.filter_congr fun c _ => ?_)
  simp [Bool.and_comm]

/-- Whoever is a candidate is found again when the job is sent. -/
theorem bearer_isSome {wid : String} (h : wid ∈ conns.poolIds) : (conns.bearer wid).isSome := by
  obtain ⟨c, hc, rfl⟩ := List.mem_map.mp h
  obtain ⟨e, he, rfl⟩ := List.mem_map.mp (List.mem_filter.mp hc).1
  rw [Conns.bearer, Option.isSome_map, List.find?_isSome]
  exact ⟨e, he, by simp⟩

theorem assignments_all {pick : String → Option Nat} : ∀ {selected : Selection},
    (∀ wid ∈ selected.map Prod.fst, (pick wid).isSome) →
    (assignments pick selected).map (·.1) = selected.map Prod.fst := by
  intro selected
  induction selected with
  | nil => intro _; rfl
  | cons head rest ih =>
    intro h
    obtain ⟨wid, hints⟩ := head
    obtain ⟨conn, hconn⟩ := Option.isSome_iff_exists.mp (h wid List.mem_cons_self)
    have hcons : assignments pick ((wid, hints) :: rest)
        = (wid, conn, hints) :: assignments pick rest := by
      simp [assignments, hconn]
    rw [hcons, List.map_cons, List.map_cons, ih fun w hw => h w (List.mem_cons_of_mem _ hw)]

/-! ## The partition -/

/-- What is selected from a list without repetition, and the rest of it. -/
theorem select_rest_perm {pool selected : List String} (hpool : pool.Nodup) (hsel : selected.Nodup)
    (hsub : selected ⊆ pool) : (selected ++ pool.filter (· ∉ selected)).Perm pool := by
  refine (List.perm_ext_iff_of_nodup ?_ hpool).mpr fun id => ?_
  · refine hsel.append (hpool.filter _) fun id hin hout => ?_
    exact (by simpa using (List.mem_filter.mp hout).2 : id ∉ selected) hin
  · rw [List.mem_append, List.mem_filter]
    constructor
    · rintro (hin | ⟨hin, -⟩)
      · exact hsub hin
      · exact hin
    · intro hin
      by_cases hs : id ∈ selected
      · exact Or.inl hs
      · exact Or.inr ⟨hin, by simpa using hs⟩

end

section

variable {crypto : Crypto} {cfg : ServeConfig} {s : Serve} {job : PendingJob} {draws : Nat → U64}

/-- The dispatch, its three critical sections one after the other. -/
def dispatchActs (draws : Nat → U64) (now : Nat) : List Act := [.choose draws, .hold, .assign now]

theorem dispatch_pending (hpc : s.pc = .dispatch) (hjob : s.pending = some job)
    (hnew : job.dispatched = false) (hready : targetsReady cfg s.conns job = true) (now : Nat) :
    (stateAfter (step crypto cfg) s (dispatchActs draws now)).pending
      = some { (s.round1 job (select cfg draws job (candidates s.conns job))).1 with
          reserves := reservesOf s.conns job (select cfg draws job (candidates s.conns job))
          dispatched := true
          started := now } := by
  have hchoose : s.choose cfg draws
      = { s with pc := .hold (select cfg draws job (candidates s.conns job)) } := by
    simp only [Serve.choose, hjob, hnew, hready, Bool.not_false, Bool.and_self, if_true]
  simp only [dispatchActs, stateAfter, List.foldl_cons, List.foldl_nil, step, hpc, if_true, hchoose,
    Serve.hold, hjob, Serve.assign, Serve.round1]

theorem dispatch_partitions (hround : ∀ ids, cfg.round1Ids = some ids → ids.Nodup)
    (hpc : s.pc = .dispatch) (hjob : s.pending = some job) (hnew : job.dispatched = false)
    (hnobody : job.dispatchedIds = []) (htargets : job.targets = none)
    (hready : targetsReady cfg s.conns job = true) (hdistinct : s.conns.poolIds.Nodup) (now : Nat) :
    ∃ job', (stateAfter (step crypto cfg) s (dispatchActs draws now)).pending = some job' ∧
      Partitioned cfg s.conns.poolIds job' := by
  have hcands : (candidates s.conns job).map Prod.fst = s.conns.poolIds := candidates_pool htargets
  have hnodup : ((select cfg draws job (candidates s.conns job)).map Prod.fst).Nodup :=
    select_nodup hround (hcands.symm ▸ hdistinct)
  have hsub : (select cfg draws job (candidates s.conns job)).map Prod.fst ⊆ s.conns.poolIds := by
    rw [← hcands]
    exact List.map_subset _ select_subset
  refine ⟨_, dispatch_pending hpc hjob hnew hready now, ?_⟩
  generalize hsel : select cfg draws job (candidates s.conns job) = selected at hnodup hsub
  -- every id selected is found again, so it is dispatched to
  have hids : (s.round1 job selected).1.dispatchedIds = selected.map Prod.fst := by
    rw [Serve.round1, assignAll_eq]
    show job.dispatchedIds ++ (assignments s.conns.bearer selected).map (·.1) = _
    rw [hnobody, List.nil_append, assignments_all fun wid hwid => bearer_isSome (hsub hwid)]
  have hperm := select_rest_perm hdistinct hnodup hsub
  rw [← reserves_pool htargets, ← hids] at hperm
  have honce := hperm.nodup_iff.mpr hdistinct
  refine ⟨rfl, fun id hin hout => (List.nodup_append.mp honce).2.2 id hin id hout rfl, fun id => ?_,
    honce, fun n hnamed hsize => ?_, fun hnamed hsize => ?_, fun ids hnamed => ?_⟩
  · rw [← List.mem_append]
    exact hperm.mem_iff
  · show (s.round1 job selected).1.dispatchedIds.length = _
    rw [hids, List.length_map, ← hsel, select_sampled hnamed hsize, ← hcands, List.length_map]
  · show (s.round1 job selected).1.dispatchedIds.Perm _
    rw [hids, ← hsel, select_everyone hnamed hsize, hcands]
  · show (s.round1 job selected).1.dispatchedIds = _
    rw [hids, ← hsel, select_named hnamed htargets, hcands]

end

/-- **Round 1 partitions the pool.** A job that is waiting for its dispatch has
been given to nobody, in every run. Dispatched from any table whose available
workers have distinct ids, a job without targets is given to some of them and
the others are its reserves: as many as are to be sampled, or all, or the ones
that are named. -/
theorem round1_partitions (crypto : Crypto) (cfg : ServeConfig)
    (hround : ∀ ids, cfg.round1Ids = some ids → ids.Nodup) :
    (∀ nextConn store acts, Always (step crypto cfg) (fun _ s => ∀ job, s.pending = some job →
      job.dispatched = false → job.dispatchedIds = []) (Serve.init nextConn store) acts) ∧
    ∀ (s : Serve) (job : PendingJob) (draws : Nat → U64) (now : Nat), s.pc = .dispatch →
      s.pending = some job → job.dispatched = false → job.dispatchedIds = [] →
      job.targets = none → targetsReady cfg s.conns job = true → s.conns.poolIds.Nodup →
      ∃ job', (stateAfter (step crypto cfg) s (dispatchActs draws now)).pending = some job' ∧
        Partitioned cfg s.conns.poolIds job' := by
  refine ⟨fun nextConn store acts pre hpre job hjob hnew => ?_, ?_⟩
  · cases (lifeInv_always crypto cfg nextConn store acts pre hpre).stage job hjob with
    | queued _ _ hids => exact hids
    | first hdispatched => exact Bool.noConfusion (hdispatched.symm.trans hnew)
    | second hdispatched => exact Bool.noConfusion (hdispatched.symm.trans hnew)
  · intro s job draws now hpc hjob hnew hnobody htargets hready hdistinct
    exact dispatch_partitions hround hpc hjob hnew hnobody htargets hready hdistinct now

/-- Three workers and a submitter, and a job that two workers are sampled for. -/
def poolOfThree : Serve :=
  let conn :=
    fun n wid role => { Conn.new n "10.0.0.1" with workerId := wid, authed := true, role := role }
  { Serve.init 5 (fun _ => none) with
    conns := (((AList.insert 1 (conn 1 "wA" .worker) ∅).insert 2 (conn 2 "sB" .submitter)).insert 3
      (conn 3 "wC" .worker)).insert 4 (conn 4 "wD" .worker)
    pending :=
      some (.queued { jobId := "job-1", manifest := "", elf := "", input := "" } none "job" 0 [])
    pc := .dispatch }

theorem round1_partitions_three : ∃ job',
    (stateAfter (step toyCrypto { identityConfig with round1Size := some 2 }) poolOfThree
      (dispatchActs (fun _ => 0) 7)).pending = some job' ∧
    Partitioned { identityConfig with round1Size := some 2 } poolOfThree.conns.poolIds job' ∧
    poolOfThree.conns.poolIds = ["wD", "wC", "wA"] ∧ job'.dispatchedIds = ["wC", "wA"] := by
  have hround : ∀ ids, { identityConfig with round1Size := some 2 }.round1Ids = some ids →
      ids.Nodup :=
    fun _ h => nomatch h
  obtain ⟨job', hjob', hpart⟩ := (round1_partitions toyCrypto
    { identityConfig with round1Size := some 2 } hround).2 poolOfThree _ (fun _ =>
    0) 7 rfl rfl rfl rfl
    rfl (by decide +kernel) (by decide +kernel)
  have hids : (stateAfter (step toyCrypto { identityConfig with round1Size := some 2 }) poolOfThree
      (dispatchActs (fun _ => 0) 7)).pending.map PendingJob.dispatchedIds = some ["wC", "wA"] := by
    decide +kernel
  rw [hjob'] at hids
  exact ⟨job', hjob', hpart, by decide +kernel, Option.some.inj hids⟩

end Provework.Coordinator
