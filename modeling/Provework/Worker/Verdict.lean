import Provework.Contentstore.Put
import Provework.Worker.Daemon

/-!
# The daemon's answer before the replay judge

A dispute is settled by the coordinator running the job again. It and the worker
rebuild the job each from a store of its own, on a file system of its own, and only
the descriptor is common to them. Blobs are checked against their hashes on every
read, so unless two of them collide both run the same program on the same input, and
what an unmodified daemon reported is what the judge finds: `replay_vindicates_daemon`.
-/

namespace Provework.Worker

open Provework.Lib Provework.Rvcore Provework.Jobfmt Provework.Contentstore Provework.Coordinator

/-- The result says what the run `out` yields. -/
structure Tells (judge : JudgeHost) (out : RunOutcome) (r : WorkerResult) : Prop where
  hash : r.resultHash = judge.outcomeDigest out
  chunks : r.chunkHashes = [judge.outcomeDigest out]
  status : r.status = "halted" ↔ statusCode out.status = 0

theorem statusText_halted (status : ExitStatus) :
    statusText status = "halted" ↔ statusCode status = 0 := by
  cases status with
  | halted => decide
  | tohost _ => exact iff_of_true rfl rfl
  | instructionLimit => decide
  | trapped t =>
    have htext : statusText (.trapped t) = "trap" := rfl
    have hcode : statusCode (.trapped t) = 2 := rfl
    rw [htext, hcode]
    decide

/-! ## The answer -/

section

variable {daemon : DaemonConfig} {host : WorkerHost} {job : Job} {r : WorkerResult}

theorem nativeResult_tells (hplain : daemon.corrupt = false)
    (h : ((nativeExecution host job).andThen fun run => some
      (some (legacyResult daemon host job run)))
      = some (some r)) :
    ∃ out, executed host.blake3 job.manifest job.elf job.input = some (some out) ∧
      Tells host.toJudgeHost out r := by
  obtain ⟨run, hrun, hr⟩ := Attempt.andThen_eq_some_iff.mp h
  obtain ⟨out, hout, hrun⟩ := Attempt.andThen_eq_some_iff.mp hrun
  cases hrun
  cases hr
  have hjournal : ∀ journal, corrupted daemon journal = journal := by
    intro journal
    rw [corrupted, hplain]
    rfl
  have hdigest : hex (List.ofFn (host.sha256 (corrupted daemon
      (journal (BitVec.ofNat 64 out.instructions) (out.output.getD [])))))
        = host.outcomeDigest out := by
    rw [hjournal]
    rfl
  exact ⟨out, hout, hdigest, congrArg (fun h => [h]) hdigest, statusText_halted out.status⟩

/-- The files `load_dir` reads are those the judge reads. -/
theorem legacyJob_of_loadDir {judge : JudgeHost} {dir : Dir}
    (h : loadDir judge.readManifest dir = some job) (hv2 : ¬job.manifest.isSp1V2 = true) :
    legacyJob judge dir = some (job.manifest, job.elf, job.input) := by
  obtain ⟨raw, hraw, h⟩ := Option.bind_eq_some_iff.mp h
  obtain ⟨manifest, hmanifest, h⟩ := Option.bind_eq_some_iff.mp h
  split at h
  · cases h
  · split at h
    · cases h
    · split at h
      · cases h
      · obtain ⟨elf, helf, h⟩ := Option.bind_eq_some_iff.mp h
        obtain ⟨input, hinput, h⟩ := Option.bind_eq_some_iff.mp h
        cases h
        simp only [legacyJob, hraw, Option.bind_some, hmanifest, if_neg hv2, helf, hinput, bind,
          pure]

/-- The native daemon, unless it is told to lie, tells what the run of the job in its
directory yields. -/
theorem assignmentResult_tells {descriptor : JobDescriptor} {store : Store}
    (hplain : daemon.corrupt = false) (hnative : host.executor = .native)
    (h : assignmentResult daemon host descriptor store = some (some r)) :
    ∃ dir manifest elf input out, host.materialize descriptor store = some (some dir) ∧
      legacyJob host.toJudgeHost dir = some (manifest, elf, input) ∧
      executed host.blake3 manifest elf input = some (some out) ∧ Tells host.toJudgeHost out r := by
  unfold assignmentResult at h
  split at h
  · cases h
  obtain ⟨dir, hdir, h⟩ := Attempt.andThen_eq_some_iff.mp h
  obtain ⟨job, hjob, h⟩ := Attempt.andThen_eq_some_iff.mp h
  obtain ⟨r₀, hr₀, h⟩ := Attempt.andThen_eq_some_iff.mp h
  cases h
  unfold unsignedResult at hr₀
  rw [hnative] at hr₀
  dsimp only at hr₀
  split at hr₀
  · cases hr₀
  next hv2 =>
    obtain ⟨out, hout, htells⟩ := nativeResult_tells hplain hr₀
    refine ⟨dir, job.manifest, job.elf, job.input, out, hdir,
      legacyJob_of_loadDir (Option.some.inj hjob) hv2, hout, ?_⟩
    -- key and signature are no part of what is told
    cases host.identity with
    | none => exact htells
    | some key => exact ⟨htells.hash, htells.chunks, htells.status⟩

end

/-! ## Two stores -/

section

variable {blake3 : List U8 → Hash} {store store' : Store}

/-- The contents of the two stores have different hashes. -/
def Collisionless (blake3 : List U8 → Hash) (store store' : Store) : Prop :=
  Set.InjOn blake3 {data | ∃ id, store id = some data ∨ store' id = some data}

theorem fetch_stored {s : String} {data : List U8} (h : store.fetch blake3 s = some (some data)) :
    ∃ id, store id = some data := by
  unfold Store.fetch at h
  rcases hid : ContentId.fromHex s with _ | e | id
  · rw [hid] at h
    cases h
  · rw [hid] at h
    cases h
  · rw [hid] at h
    exact ⟨id, (Option.filter_eq_some_iff.mp (Option.some.inj h)).1⟩

/-- What is fetched under one id is one blob. -/
theorem Collisionless.fetch (h : Collisionless blake3 store store') {s : String}
    {data data' : List U8} (hdata : store.fetch blake3 s = some (some data))
    (hdata' : store'.fetch blake3 s = some (some data')) : data = data' := by
  have hid := Option.some.inj ((Store.fetch_id hdata).symm.trans (Store.fetch_id hdata'))
  obtain ⟨id, hstored⟩ := fetch_stored hdata
  obtain ⟨id', hstored'⟩ := fetch_stored hdata'
  exact h ⟨id, .inl hstored⟩ ⟨id', .inr hstored'⟩ (Except.ok.inj hid)

/-- A descriptor stands for one directory. -/
theorem Collisionless.materialize (h : Collisionless blake3 store store')
    {readManifest : List U8 → Option JobManifest} {takes takes' : String → Bool}
    {desc : JobDescriptor} {dir dir' : Dir}
    (hdir : materialize blake3 readManifest takes desc store = some (some dir))
    (hdir' : Contentstore.materialize blake3 readManifest takes' desc store' = some (some dir')) :
    dir = dir' := by
  obtain ⟨json, manifest, elf, input, hjson, hmanifest, helf, hinput, rfl⟩ := materialize_some hdir
  obtain ⟨json', manifest', elf', input', hjson', hmanifest', helf', hinput', rfl⟩ :=
    materialize_some hdir'
  obtain rfl := h.fetch hjson hjson'
  obtain rfl := h.fetch helf helf'
  obtain rfl := h.fetch hinput hinput'
  obtain rfl := Option.some.inj (hmanifest.symm.trans hmanifest')
  rfl

end

/-- The same program on another file system. -/
def elsewhere (judge : JudgeHost) (takes : String → Bool) : JudgeHost := { judge with takes }

/-- **The judge vindicates an unmodified daemon.** Whatever else was reported: if a
native daemon's answer to the job is among the results, and the coordinator can
rebuild the job from its own store, then the replay accepts the hash of that answer,
names the worker among those that agree, and it is rewarded. -/
theorem replay_vindicates_daemon (daemon : DaemonConfig) (hplain : daemon.corrupt = false)
    (host : WorkerHost) (hnative : host.executor = .native) (takes : String → Bool)
    (store store' : Store) (hstores : Collisionless host.blake3 store store') (job : PendingJob)
    (r : WorkerResult) (hanswer : assignmentResult daemon host job.descriptor store = some (some r))
    (hr : r ∈ job.results) (dir : Dir)
    (hdir : (elsewhere host.toJudgeHost takes).materialize job.descriptor store'
      = some (some dir)) :
    ∃ outputHex agreed,
      judgeByReplayNetwork (elsewhere host.toJudgeHost takes) store' job
        = some (some (.accept r.resultHash outputHex agreed false)) ∧
      r.workerId ∈ agreed ∧
      (r.workerId, 10) ∈ slashing (.accept r.resultHash outputHex agreed false) job.results := by
  obtain ⟨_, manifest, elf, input, out, hown, hlegacy, hout, htells⟩ :=
    assignmentResult_tells hplain hnative hanswer
  obtain rfl := hstores.materialize hown hdir
  have hrun : jobOutcome (elsewhere host.toJudgeHost takes) store' job.descriptor
      = some (some out) := by
    rw [jobOutcome, hdir, Attempt.andThen_returned]
    have hsame : legacyJob (elsewhere host.toJudgeHost takes) _ = some (manifest, elf, input) :=
      hlegacy
    rw [hsame]
    exact hout
  have hagreed : r.workerId ∈ vindicated r.resultHash job.results := by
    refine mem_vindicated.mpr (List.mem_map.mpr ⟨r, List.mem_filter.mpr ⟨hr, ?_⟩, rfl⟩)
    rw [htells.chunks, htells.hash]
    exact decide_eq_true rfl
  refine ⟨some (hex (out.output.getD [])), vindicated r.resultHash job.results, ?_, hagreed, ?_⟩
  · rw [htells.hash]
    exact judgeByReplayNetwork_eq hrun
  · refine List.mem_map.mpr ⟨r, hr, ?_⟩
    rw [if_pos hagreed]

/-- `wA` ran `c.ebreak`, `wB` made something up. -/
def disputed : PendingJob :=
  demoFinished [0x02, 0x90] ["wA", "wB"] [reporting "wB" "bb", ebreakAnswer]

theorem replay_vindicates_ebreak : ∃ outputHex agreed,
    judgeByReplayNetwork toyHost (demoStore [0x02, 0x90]) disputed
      = some (some (.accept (keyHex 8) outputHex agreed false)) ∧ "wA" ∈ agreed := by
  have hstored : ∀ {id data}, demoStore [0x02, 0x90] id = some data →
      data ∈ [utf8 demoJson, tinyElf [0x02, 0x90], []] := fun h =>
    (put_origin lengthHash _ _ h).resolve_right nofun
  have hlengths : ∀ data ∈ [utf8 demoJson, tinyElf [0x02, 0x90], []],
      ∀ data' ∈ [utf8 demoJson, tinyElf [0x02, 0x90], []], lengthHash data = lengthHash data' →
      data = data' := by
    decide +kernel
  have hstores :
      Collisionless toyWorker.blake3 (demoStore [0x02, 0x90]) (demoStore [0x02, 0x90]) := by
    rintro data ⟨id, hdata⟩ data' ⟨id', hdata'⟩ heq
    exact hlengths data (hstored (or_self_iff.mp hdata)) data' (hstored (or_self_iff.mp hdata')) heq
  obtain ⟨dir, hdir, -⟩ := rebuilt_describedAs "job-1"
  obtain ⟨outputHex, agreed, hjudge, hagreed, -⟩ :=
    replay_vindicates_daemon plainDaemon rfl toyWorker rfl
    (fun _ => true) _ _ hstores disputed ebreakAnswer
      (answer_describedAs "job-1" (by decide +kernel))
    (List.mem_cons_of_mem _ List.mem_cons_self) dir hdir
  exact ⟨outputHex, agreed, hjudge, hagreed⟩

end Provework.Worker
