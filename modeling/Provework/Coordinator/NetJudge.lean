import Provework.Coordinator.Judge
import Provework.Coordinator.Majority
import Provework.Coordinator.Serve

/-!
# The dispute judges of the network (`net.rs`, `zk_judge.rs`)

When a job is complete without a majority the coordinator arbitrates: an external
prover if one is configured (`zkJudgeNetwork`), its own replay otherwise
(`judgeByReplayNetwork`). Both rebuild the job from the store and end in the
journal digest; they part where the run does not halt cleanly, which the prover's
verdict turns into a rejection and the replay into an acceptance
(`judges_decide_alike_iff`). Whether either is asked is `decide`'s business: from
five workers on it rejects a split pool itself (`judge_arbitrates_iff`).

Modelling notes:
- Reading the manifest's JSON, SHA-256 and BLAKE3 are parameters, and so is the
  prover process: what `run_judge` returns for a job directory.
- Results are `Attempt`s. An empty-handed one is the source's `None`; the reasons
  are logged only.
-/

namespace Provework.Coordinator

open Provework.Lib Provework.Rvcore Provework.Jobfmt Provework.Contentstore

/-! ## The prover's verdict -/

structure JudgeVerdict where
  ok : Bool
  error : Option String
  status : Option U32
  instructions : Option U64
  outputHex : Option String
  binding : Option (List String)
  deriving DecidableEq, Repr

/-- `ok_or`. -/
def okOr {α : Type} (e : String) : Option α → Except String α
  | some a => .ok a
  | none => .error e

theorem toOption_eq_some {ε α : Type} {r : Except ε α} {a : α} (h : r.toOption = some a) :
    r = .ok a := by
  cases r with
  | error e => cases h
  | ok b => rw [Option.some.inj h]

/-- One committed id against the expected bytes. -/
def checkId (mismatch hexId : String) (expected : List U8) : Except String Unit := do
  let bytes ← (fromHex hexId 32).mapError fun e => "binding hex: " ++ e.text
  if bytes ≠ expected then .error mismatch else .ok ()

/-- The `zip` of the binding with the expected ids. -/
def checkIds : List String → List (List U8) → Except String Unit
  | h :: hs, e :: es => do
    checkId "judge verdict is not for this job's (manifest, elf, input)" h e
    checkIds hs es
  | _, _ => .ok ()

/-- A v2 receipt commits the input id only. -/
def checkBinding (binding : List String) (expected : List (List U8)) (v2 : Bool) :
    Except String Unit :=
  if v2 then
    match binding with
    | [h] => checkId "judge verdict is not for this job's input" h (expected.getD 2 [])
    | _ => .error "v2 verdict binding malformed"
  else if binding.length ≠ 3 then .error "verdict binding malformed"
  else checkIds binding expected

/-- The digest is recomputed, never read from the process. -/
def judgeDecision (sha256 : List U8 → Hash) (verdict : JudgeVerdict)
    (expected : List (List U8)) (v2 : Bool) : Except String Decision := do
  if !verdict.ok then .error (verdict.error.getD "judge rejected")
  let binding ← okOr "verdict missing binding" verdict.binding
  checkBinding binding expected v2
  let status ← okOr "verdict missing status" verdict.status
  let instructions ← okOr "verdict missing instructions" verdict.instructions
  let outputHex ← okOr "verdict missing output" verdict.outputHex
  let output ← (fromHex outputHex ((utf8 outputHex).length / 2)).mapError fun e =>
    "verdict output hex: " ++ e.text
  let hash := hex (List.ofFn (journalDigest sha256 instructions output))
  if status = 0 then .ok (.accept hash (some outputHex) [] true)
  else .ok (.reject s!"zk judge: job does not halt cleanly (status {status.toNat})")

/-! ## The judges -/

/-- What the judges take from outside. -/
structure JudgeHost where
  blake3 : List U8 → Hash
  sha256 : List U8 → Hash
  /-- `serde_json::from_slice::<JobManifest>`. -/
  readManifest : List U8 → Option JobManifest
  /-- The file names the temporary directory takes. -/
  takes : String → Bool

/-- The responders whose single chunk hash is `digest`. -/
def matching (digest : String) (results : List WorkerResult) : List WorkerResult :=
  results.filter fun r => r.chunkHashes = [digest]

/-- The loop of the replay judge: each matching worker once. -/
def vindicated (digest : String) (results : List WorkerResult) : List String :=
  results.foldl (fun agreed r =>
    if r.chunkHashes = [digest] then
      if r.workerId ∈ agreed then agreed else agreed ++ [r.workerId]
    else agreed) []

section

variable (host : JudgeHost)

def JudgeHost.materialize (desc : JobDescriptor) (store : Store) : Attempt Dir :=
  Contentstore.materialize host.blake3 host.readManifest host.takes desc store

/-- The hex of the journal digest. -/
def JudgeHost.digest (instructions : U64) (output : List U8) : String :=
  hex (List.ofFn (journalDigest host.sha256 instructions output))

def judgeByReplayNetwork (store : Store) (job : PendingJob) : Attempt Decision :=
  (host.materialize job.descriptor store).andThen fun dir =>
  Attempt.andThen (some ((dir "job.json").bind host.readManifest)) fun manifest =>
  if manifest.isSp1V2 then some none
  else
    Attempt.andThen (some (dir manifest.elf)) fun elf =>
    Attempt.andThen (some (dir manifest.input)) fun input =>
    Attempt.andThen (some (Elf.parse elf).toOption) fun image =>
    (replayJournal host.blake3 elf image.entry input manifest.chunkSize
      manifest.maxInstructions).andThen fun (instructions, output) =>
    let truthDigest := host.digest instructions output
    some (some (.accept truthDigest (some (hex output)) (vindicated truthDigest job.results) false))

/-- What the verdict of `runJudge` decides, before the responders are looked at. -/
def verdictDecision (runJudge : Dir → Except String JudgeVerdict) (desc : JobDescriptor)
    (dir : Dir) : Option Decision := do
  let verdict ← (runJudge dir).toOption
  let expected ← (expectedBinding desc).toOption
  let manifest ← (dir "job.json").bind host.readManifest
  (judgeDecision host.sha256 verdict expected manifest.isSp1V2).toOption

def zkJudgeNetwork (zkJudge : Option (Dir → Except String JudgeVerdict)) (store : Store)
    (job : PendingJob) : Attempt Decision :=
  match zkJudge with
  | none => some none
  | some runJudge =>
    (host.materialize job.descriptor store).andThen fun dir =>
    match verdictDecision host runJudge job.descriptor dir with
    | some (.accept hash outputHex _ true) =>
      some (some (.accept hash outputHex ((matching hash job.results).map (·.workerId)) true))
    | d => some d

end

/-! ## The run of a job -/

/-- The program, the input and the manifest a directory gives the judges. -/
def legacyJob (host : JudgeHost) (dir : Dir) : Option (JobManifest × List U8 × List U8) := do
  let manifest ← (dir "job.json").bind host.readManifest
  if manifest.isSp1V2 then none
  else
    let elf ← dir manifest.elf
    let input ← dir manifest.input
    return (manifest, elf, input)

/-- What `rvcore` makes of a program with an input, from a fresh memory. -/
def executed (blake3 : List U8 → Hash) (manifest : JobManifest) (elf input : List U8) :
    Attempt RunOutcome :=
  match Elf.parse elf with
  | .error _ => some none
  | .ok image =>
    match Elf.load Mem.new image with
    | (.error _, _) => some none
    | (.ok (), mem) =>
      (run blake3 (judgeConfig manifest.chunkSize manifest.maxInstructions) mem image.entry
        input).map some

/-- The run of a legacy job that can be rebuilt from the store. -/
def jobOutcome (host : JudgeHost) (store : Store) (desc : JobDescriptor) : Attempt RunOutcome :=
  (host.materialize desc store).andThen fun dir =>
  Attempt.andThen (some (legacyJob host dir)) fun (manifest, elf, input) =>
  executed host.blake3 manifest elf input

/-- The journal of a run: its count and its output, empty if there is none. -/
def JudgeHost.outcomeDigest (host : JudgeHost) (out : RunOutcome) : String :=
  host.digest (BitVec.ofNat 64 out.instructions) (out.output.getD [])

/-- The prover's numbers for how a run ends. -/
def statusCode : ExitStatus → U32
  | .halted => 0
  | .tohost _ => 0
  | .instructionLimit => 1
  | .trapped _ => 2

/-- The verdict reports what the run yields. -/
structure Truthful (out : RunOutcome) (v : JudgeVerdict) : Prop where
  status : v.status = some (statusCode out.status)
  instructions : v.instructions = some (BitVec.ofNat 64 out.instructions)
  output : v.outputHex = some (hex (out.output.getD []))

/-- The verdict is bound to the ids of the descriptor. -/
def OwnBinding (desc : JobDescriptor) (v : JudgeVerdict) : Prop :=
  ∃ manifest elf input, v.binding = some [manifest, elf, input] ∧
    fromHex manifest 32 = fromHex desc.manifest 32 ∧ fromHex elf 32 = fromHex desc.elf 32 ∧
    fromHex input 32 = fromHex desc.input 32

/-- Same kind, and an acceptance with the same hash, output and workers. -/
def SameDecision : Decision → Decision → Prop
  | .accept hash out agreed _, .accept hash' out' agreed' _ =>
    hash = hash' ∧ out = out' ∧ ∀ w, w ∈ agreed ↔ w ∈ agreed'
  | .reject _, .reject _ => True
  | _, _ => False

/-! ## The replay judge -/

section

variable {host : JudgeHost} {store : Store} {job : PendingJob} {out : RunOutcome}

/-- The loop collects the matching workers. -/
theorem mem_vindicated {digest w : String} {results : List WorkerResult} :
    w ∈ vindicated digest results ↔ w ∈ (matching digest results).map (·.workerId) := by
  -- the fold, with what has been collected so far
  have hfold : ∀ (rs : List WorkerResult) (acc : List String),
      w ∈ rs.foldl (fun agreed r =>
        if r.chunkHashes = [digest] then
          if r.workerId ∈ agreed then agreed else agreed ++ [r.workerId]
        else agreed) acc ↔ w ∈ acc ∨ w ∈ (matching digest rs).map (·.workerId) := by
    intro rs
    induction rs with
    | nil => intro acc; simp [matching]
    | cons r rs ih =>
      intro acc
      rw [List.foldl_cons, ih]
      by_cases hr : r.chunkHashes = [digest]
      · have hcons : matching digest (r :: rs) = r :: matching digest rs := by
          simp [matching, hr]
        rw [if_pos hr, hcons, List.map_cons, List.mem_cons]
        by_cases hmem : r.workerId ∈ acc
        · rw [if_pos hmem]
          exact ⟨fun h => h.imp_right Or.inr,
            fun h => h.elim Or.inl fun h => h.elim (fun h => Or.inl (h ▸ hmem)) Or.inr⟩
        · rw [if_neg hmem, List.mem_append, List.mem_singleton, or_assoc]
      · have hcons : matching digest (r :: rs) = matching digest rs := by
          simp [matching, hr]
        rw [if_neg hr, hcons]
  rw [vindicated, hfold]
  simp

theorem replayJournal_eq {blake3 : List U8 → Hash} {manifest : JobManifest} {elf input : List U8}
    (h : executed blake3 manifest elf input = some (some out)) :
    ∃ image, Elf.parse elf = .ok image ∧
      replayJournal blake3 elf image.entry input manifest.chunkSize manifest.maxInstructions
        = some (some (BitVec.ofNat 64 out.instructions, out.output.getD [])) := by
  unfold executed at h
  unfold replayJournal
  generalize Elf.parse elf = parsed at h ⊢
  cases parsed with
  | error e => cases h
  | ok image =>
    dsimp only at h ⊢
    refine ⟨image, rfl, ?_⟩
    generalize Elf.load Mem.new image = loaded at h ⊢
    obtain ⟨e | _, mem⟩ := loaded
    · cases h
    dsimp only at h ⊢
    obtain ⟨o, hrun, ho⟩ := Option.map_eq_some_iff.mp h
    obtain rfl := Option.some.inj ho
    simp only [hrun]

theorem jobOutcome_eq_some (h : jobOutcome host store job.descriptor = some (some out)) :
    ∃ dir manifest elf input, host.materialize job.descriptor store = some (some dir) ∧
      (dir "job.json").bind host.readManifest = some manifest ∧ manifest.isSp1V2 = false ∧
      dir manifest.elf = some elf ∧ dir manifest.input = some input ∧
      executed host.blake3 manifest elf input = some (some out) := by
  obtain ⟨dir, hdir, h⟩ := Attempt.andThen_eq_some_iff.mp h
  obtain ⟨⟨manifest, elf, input⟩, hjob, h⟩ := Attempt.andThen_eq_some_iff.mp h
  refine ⟨dir, manifest, elf, input, hdir, ?_⟩
  obtain ⟨m, hm, hjob⟩ := Option.bind_eq_some_iff.mp (Option.some.inj hjob)
  split at hjob
  · cases hjob
  next hv2 =>
    obtain ⟨elf', helf, hjob⟩ := Option.bind_eq_some_iff.mp hjob
    obtain ⟨input', hinput, hjob⟩ := Option.bind_eq_some_iff.mp hjob
    cases hjob
    exact ⟨hm, by simpa using hv2, helf, hinput, h⟩

/-- A job whose blobs are in the store and whose manifest names three different
plain files is rebuilt. -/
theorem materialize_of_blobs {desc : JobDescriptor} {json elf input : List U8}
    {manifest : JobManifest} (hmanifest : store.fetch host.blake3 desc.manifest = some (some json))
    (helf : store.fetch host.blake3 desc.elf = some (some elf))
    (hinput : store.fetch host.blake3 desc.input = some (some input))
    (hread : host.readManifest json = some manifest)
    (hnames : confinedName manifest.elf = true ∧ confinedName manifest.input = true)
    (helfName : manifest.elf ≠ "job.json") (hinputName : manifest.input ≠ "job.json")
    (hdiff : manifest.elf ≠ manifest.input) (htakes : ∀ name, host.takes name = true) :
    ∃ dir, host.materialize desc store = some (some dir) ∧ dir "job.json" = some json ∧
      dir manifest.elf = some elf ∧ dir manifest.input = some input := by
  simp only [JudgeHost.materialize, materialize, hmanifest, helf, hinput, hread,
    hnames.1, hnames.2, Bool.not_true, Bool.or_self, Bool.false_eq_true, if_false, Dir.write,
    htakes, if_true, Attempt.andThen_returned]
  -- none of the three files replaces another
  refine ⟨_, rfl, ?_, ?_, ?_⟩
  · rw [Function.update_of_ne hinputName.symm, Function.update_of_ne helfName.symm,
      Function.update_self]
  · rw [Function.update_of_ne hdiff, Function.update_self]
  · rw [Function.update_self]

theorem jobOutcome_of_blobs {desc : JobDescriptor} {json elf input : List U8}
    {manifest : JobManifest} (hmanifest : store.fetch host.blake3 desc.manifest = some (some json))
    (helf : store.fetch host.blake3 desc.elf = some (some elf))
    (hinput : store.fetch host.blake3 desc.input = some (some input))
    (hread : host.readManifest json = some manifest)
    (hnames : confinedName manifest.elf = true ∧ confinedName manifest.input = true)
    (helfName : manifest.elf ≠ "job.json") (hinputName : manifest.input ≠ "job.json")
    (hdiff : manifest.elf ≠ manifest.input) (htakes : ∀ name, host.takes name = true)
    (hv2 : manifest.isSp1V2 = false) :
    jobOutcome host store desc = executed host.blake3 manifest elf input := by
  obtain ⟨dir, hdir, hjson, helf, hinput⟩ := materialize_of_blobs hmanifest helf hinput hread hnames
    helfName hinputName hdiff htakes
  simp only [jobOutcome, hdir, legacyJob, hjson, helf, hinput, Option.bind_some, hread, hv2,
    Attempt.andThen_returned, Bool.false_eq_true, if_false, bind]
  rfl

/-- The replay judge accepts the run's journal, however the run ends. -/
theorem judgeByReplayNetwork_eq (h : jobOutcome host store job.descriptor = some (some out)) :
    judgeByReplayNetwork host store job
      = some (some (.accept (host.outcomeDigest out) (some (hex (out.output.getD [])))
          (vindicated (host.outcomeDigest out) job.results) false)) := by
  obtain ⟨dir, manifest, elf, input, hdir, hm, hv2, helf, hinput, hrun⟩ := jobOutcome_eq_some h
  obtain ⟨image, himage, hjournal⟩ := replayJournal_eq hrun
  unfold judgeByReplayNetwork
  simp only [hdir, hm, hv2, helf, hinput, himage, hjournal, Attempt.andThen_returned,
    Except.toOption, Bool.false_eq_true, if_false]
  rfl

/-! ## The zk judge -/

/-- What a truthful verdict decides. -/
def truthfulDecision (host : JudgeHost) (out : RunOutcome) : Decision :=
  if statusCode out.status = 0 then
    .accept (host.outcomeDigest out) (some (hex (out.output.getD []))) [] true
  else .reject s!"zk judge: job does not halt cleanly (status {(statusCode out.status).toNat})"

theorem judgeDecision_truthful {v : JudgeVerdict} (hv : Truthful out v)
    {expected : List (List U8)} {v2 : Bool} {binding : List String} (hok : v.ok = true)
    (hb : v.binding = some binding) :
    judgeDecision host.sha256 v expected v2
      = (checkBinding binding expected v2).map fun _ => truthfulDecision host out := by
  unfold judgeDecision
  simp only [hok, hb, hv.status, hv.instructions, hv.output, okOr, Bool.not_true,
    Bool.false_eq_true, if_false, bind, Except.bind, fromHex_hex_half, Except.mapError]
  cases checkBinding binding expected v2 with
  | error e => rfl
  | ok u =>
    simp only [Except.map, truthfulDecision]
    by_cases hzero : statusCode out.status = 0
    · rw [if_pos hzero, if_pos hzero]
      rfl
    · rw [if_neg hzero, if_neg hzero]

/-- A verdict that decides anything is in order and bound to something. -/
theorem judgeDecision_ok {sha256 : List U8 → Hash} {v : JudgeVerdict} {expected : List (List U8)}
    {v2 : Bool} {d : Decision} (h : judgeDecision sha256 v expected v2 = .ok d) :
    v.ok = true ∧ ∃ binding, v.binding = some binding ∧
      checkBinding binding expected v2 = .ok () := by
  unfold judgeDecision at h
  rcases hok : v.ok with _ | _
  · simp only [hok, Bool.not_false, if_true, bind, Except.bind, reduceCtorEq] at h
  rcases hb : v.binding with _ | binding
  · simp only [hok, hb, okOr, Bool.not_true, Bool.false_eq_true, if_false, bind, Except.bind,
      reduceCtorEq] at h
  refine ⟨rfl, binding, rfl, ?_⟩
  simp only [hok, hb, okOr, Bool.not_true, Bool.false_eq_true, if_false, bind, Except.bind] at h
  cases hc : checkBinding binding expected v2 with
  | error e => simp only [hc, reduceCtorEq] at h
  | ok u => rfl

/-- The job's own binding passes. -/
theorem checkBinding_own {desc : JobDescriptor} {v : JudgeVerdict} (hown : OwnBinding desc v)
    {expected : List (List U8)} (he : expectedBinding desc = .ok expected) :
    ∃ binding, v.binding = some binding ∧ checkBinding binding expected false = .ok () := by
  obtain ⟨m, e, i, hb, hm, he', hi⟩ := hown
  refine ⟨_, hb, ?_⟩
  unfold expectedBinding at he
  cases hdm : fromHex desc.manifest 32 with
  | error err => simp only [hdm, bind, Except.bind, reduceCtorEq] at he
  | ok bm =>
    cases hde : fromHex desc.elf 32 with
    | error err => simp only [hdm, hde, bind, Except.bind, reduceCtorEq] at he
    | ok be =>
      cases hdi : fromHex desc.input 32 with
      | error err => simp only [hdm, hde, hdi, bind, Except.bind, reduceCtorEq] at he
      | ok bi =>
        simp only [hdm, hde, hdi, bind, Except.bind] at he
        cases he
        simp [checkBinding, checkIds, checkId, hm, he', hi, hdm, hde, hdi, Except.mapError, bind,
          Except.bind]

/-- The zk judge on a truthful verdict: the responders with the digest are the
agreed ones of an acceptance, and a run that does not halt is rejected. -/
def zkDecision (host : JudgeHost) (out : RunOutcome) (results : List WorkerResult) : Decision :=
  if statusCode out.status = 0 then
    .accept (host.outcomeDigest out) (some (hex (out.output.getD [])))
      ((matching (host.outcomeDigest out) results).map (·.workerId)) true
  else .reject s!"zk judge: job does not halt cleanly (status {(statusCode out.status).toNat})"

theorem zkJudgeNetwork_of_verdict {runJudge : Dir → Except String JudgeVerdict} {dir : Dir}
    (hdir : host.materialize job.descriptor store = some (some dir))
    (hverdict : verdictDecision host runJudge job.descriptor dir
      = some (truthfulDecision host out)) :
    zkJudgeNetwork host (some runJudge) store job
      = some (some (zkDecision host out job.results)) := by
  simp only [zkJudgeNetwork, hdir, Attempt.andThen_returned, hverdict, truthfulDecision, zkDecision]
  by_cases hzero : statusCode out.status = 0
  · simp only [if_pos hzero]
  · simp only [if_neg hzero]

variable {runJudge : Dir → Except String JudgeVerdict}

/-- What it decides, if anything, when whatever verdict the process gives is truthful. -/
theorem zkJudgeNetwork_truthful
    (htruth : ∀ dir v, host.materialize job.descriptor store = some (some dir) →
      runJudge dir = .ok v → v.ok = true → Truthful out v) {d : Decision}
    (h : zkJudgeNetwork host (some runJudge) store job = some (some d)) :
    d = zkDecision host out job.results := by
  obtain ⟨dir, hdir, hz⟩ := Attempt.andThen_eq_some_iff.mp h
  cases hverdict : verdictDecision host runJudge job.descriptor dir with
  | none => simp only [hverdict, Option.some.injEq, reduceCtorEq] at hz
  | some d' =>
    have hd' : d' = truthfulDecision host out := by
      obtain ⟨v, hv, hrest⟩ := Option.bind_eq_some_iff.mp hverdict
      obtain ⟨expected, -, hrest⟩ := Option.bind_eq_some_iff.mp hrest
      obtain ⟨manifest, -, hrest⟩ := Option.bind_eq_some_iff.mp hrest
      have hdec : judgeDecision host.sha256 v expected manifest.isSp1V2 = .ok d' :=
        toOption_eq_some hrest
      obtain ⟨hok, binding, hb, hc⟩ := judgeDecision_ok hdec
      have hv' := htruth dir v hdir (toOption_eq_some hv) hok
      rw [judgeDecision_truthful hv' hok hb, hc] at hdec
      exact (Except.ok.inj hdec).symm
    rw [hd'] at hverdict
    have heq := zkJudgeNetwork_of_verdict hdir hverdict
    exact Option.some.inj (Option.some.inj (h.symm.trans heq))

/-- It does decide, on a truthful verdict with the job's own binding. -/
theorem zkJudgeNetwork_returns (hrun : jobOutcome host store job.descriptor = some (some out))
    (hids : ∃ expected, expectedBinding job.descriptor = .ok expected)
    (hjudge : ∀ dir, host.materialize job.descriptor store = some (some dir) →
      ∃ v, runJudge dir = .ok v ∧ v.ok = true ∧ Truthful out v ∧ OwnBinding job.descriptor v) :
    zkJudgeNetwork host (some runJudge) store job
      = some (some (zkDecision host out job.results)) := by
  obtain ⟨dir, manifest, elf, input, hdir, hm, hv2, -, -, -⟩ := jobOutcome_eq_some hrun
  obtain ⟨v, hv, hok, htruth, hown⟩ := hjudge dir hdir
  obtain ⟨expected, hexpected⟩ := hids
  obtain ⟨binding, hb, hc⟩ := checkBinding_own hown hexpected
  refine zkJudgeNetwork_of_verdict hdir ?_
  have hdec : judgeDecision host.sha256 v expected manifest.isSp1V2
      = .ok (truthfulDecision host out) := by
    rw [judgeDecision_truthful htruth hok hb, hv2, hc]
    rfl
  unfold verdictDecision
  simp only [hv, hexpected, hm, Except.toOption, bind, Option.bind_some, hdec]

/-! ## The two judges -/

/-- **When the two judges agree.** For every legacy job that can be rebuilt and
run, every set of results and every prover that reports, for this job, what the
run yields: the replay judge decides, the prover's verdict decides too if the
descriptor's ids are plain hex, and the two decisions are of the same kind, with
the same hash, output and workers, exactly when the run halts cleanly. -/
theorem judges_decide_alike_iff (host : JudgeHost) (store : Store) (job : PendingJob)
    (out : RunOutcome) (hrun : jobOutcome host store job.descriptor = some (some out))
    (runJudge : Dir → Except String JudgeVerdict)
    (hjudge : ∀ dir, host.materialize job.descriptor store = some (some dir) →
      ∃ v, runJudge dir = .ok v ∧ v.ok = true ∧ Truthful out v ∧ OwnBinding job.descriptor v) :
    ∃ replay, judgeByReplayNetwork host store job = some (some replay) ∧
      ((∃ expected, expectedBinding job.descriptor = .ok expected) →
        ∃ zk, zkJudgeNetwork host (some runJudge) store job = some (some zk)) ∧
      ∀ zk, zkJudgeNetwork host (some runJudge) store job = some (some zk) →
        (SameDecision zk replay ↔ statusCode out.status = 0) := by
  refine ⟨_, judgeByReplayNetwork_eq hrun,
    fun hids => ⟨_, zkJudgeNetwork_returns hrun hids hjudge⟩, fun zk hzk => ?_⟩
  obtain rfl := zkJudgeNetwork_truthful (fun dir v hdir hv hok => by
    obtain ⟨v', hv', -, htruth, -⟩ := hjudge dir hdir
    obtain rfl := Except.ok.inj (hv'.symm.trans hv)
    exact htruth) hzk
  unfold zkDecision
  by_cases hzero : statusCode out.status = 0
  · rw [if_pos hzero]
    exact iff_of_true ⟨rfl, rfl, fun w => mem_vindicated.symm⟩ hzero
  · rw [if_neg hzero]
    exact iff_of_false (fun h => h.elim) hzero

end

/-- The `job.json` of a small legacy job. -/
def demoJson : String :=
  "\x7b\"schema\":1,\"id\":\"job-1\",\"name\":\"demo\",\"isa\":\"rv64imc\",\"toolchain\":\"demo\",\"chunk_size\":1,\"max_instructions\":10,\"verification_class\":\"quorum\",\"elf\":\"program.elf\",\"input\":\"input.bin\"\x7d"

def demoManifest : JobManifest :=
  { schema := 1, id := "job-1", isa := "rv64imc", format := none, chunkSize := 1
    maxInstructions := 10, elf := "program.elf", input := "input.bin" }

/-- A host that hashes by length and reads the one manifest. -/
def toyHost : JudgeHost where
  blake3 := lengthHash
  sha256 := lengthHash
  readManifest := fun bytes => if bytes = utf8 demoJson then some demoManifest else none
  takes := fun _ => true

/-- The three blobs of the job with program `code` and no input. -/
def demoStore (code : List U8) : Store :=
  [utf8 demoJson, tinyElf code, []].foldl (Store.put lengthHash) fun _ => none

def demoDescriptor (code : List U8) : JobDescriptor :=
  { jobId := "job-1", manifest := hex (List.ofFn (lengthHash (utf8 demoJson)))
    elf := hex (List.ofFn (lengthHash (tinyElf code))), input := hex (List.ofFn (lengthHash [])) }

/-- The job when it is finished, with these results. -/
def demoFinished (code : List U8) (dispatchedIds : List String) (results : List WorkerResult) :
    PendingJob :=
  { descriptor := demoDescriptor code, targets := none, path := "job-1", dispatched := true
    escalated := false, dispatchedIds, reserves := [], results, started := 0, zkAccept := none
    receiptClaimed := [], subscribers := [], trail := { assigned := [], origins := [] } }

/-- A halted result of worker `w` that reports `digest`. -/
def reporting (w digest : String) : WorkerResult :=
  { workerId := w, jobId := "job-1", status := "halted", instructions := 1, resultHash := digest
    chunkHashes := [digest], outputHex := some "", trap := none, pubkeyHex := none
    sigHex := none }

/-- Two workers that disagree. -/
def splitTwo : List WorkerResult := [reporting "wA" "aa", reporting "wB" "bb"]

/-- Five workers, split two, two and one. -/
def splitFive : List WorkerResult :=
  [reporting "w1" "aa", reporting "w2" "aa", reporting "w3" "bb", reporting "w4" "bb",
    reporting "w5" "cc"]

/-- Ids written in hex are plain. -/
theorem demo_ids (code : List U8) :
    ∃ expected, expectedBinding (demoDescriptor code) = .ok expected := by
  simp only [expectedBinding, demoDescriptor, fromHex_hash, bind, Except.bind]
  exact ⟨_, rfl⟩

/-- What an honest prover says of a run. -/
def honestVerdict (desc : JobDescriptor) (out : RunOutcome) : JudgeVerdict :=
  { ok := true, error := none, status := some (statusCode out.status)
    instructions := some (BitVec.ofNat 64 out.instructions)
    outputHex := some (hex (out.output.getD []))
    binding := some [desc.manifest, desc.elf, desc.input] }

theorem honestVerdict_spec (desc : JobDescriptor) (out : RunOutcome) :
    (honestVerdict desc out).ok = true ∧ Truthful out (honestVerdict desc out) ∧
      OwnBinding desc (honestVerdict desc out) :=
  ⟨rfl, ⟨rfl, rfl, rfl⟩, _, _, _, rfl, rfl, rfl, rfl⟩

theorem demo_names : confinedName demoManifest.elf = true ∧
    confinedName demoManifest.input = true := by
  decide +kernel

theorem demo_read : toyHost.readManifest (utf8 demoJson) = some demoManifest := by
  simp only [toyHost, if_true]

/-- The toy job is rebuilt and run, if the store gives out its blobs. -/
theorem demo_outcome {code : List U8}
    (hget : ∀ data ∈ [utf8 demoJson, tinyElf code, []],
      (demoStore code).get lengthHash (lengthHash data) = some data) :
    jobOutcome toyHost (demoStore code) (demoDescriptor code)
      = executed lengthHash demoManifest (tinyElf code) [] :=
  jobOutcome_of_blobs (Store.fetch_hex (hget _ (by simp))) (Store.fetch_hex (hget _ (by simp)))
    (Store.fetch_hex (hget _ (by simp))) demo_read demo_names (by decide) (by decide) (by decide)
    (fun _ => rfl) rfl

/-- The blobs of `c.ebreak` are in its store. -/
theorem demo_get : ∀ data ∈ [utf8 demoJson, tinyElf [0x02, 0x90], []],
    (demoStore [0x02, 0x90]).get lengthHash (lengthHash data) = some data := by
  decide +kernel

/-- How the runs of two jobs end: `c.ebreak` halts, a zero halfword is illegal. -/
theorem demo_outcomes :
    (∃ out, jobOutcome toyHost (demoStore [0x02, 0x90]) (demoDescriptor [0x02, 0x90])
        = some (some out) ∧ statusCode out.status = 0) ∧
    (∃ out, jobOutcome toyHost (demoStore [0x00, 0x00]) (demoDescriptor [0x00, 0x00])
        = some (some out) ∧ statusCode out.status = 2) := by
  have hstatus : ∀ {code : List U8} {n : U32},
      (executed lengthHash demoManifest (tinyElf code) []).map
        (fun r => r.map fun out => statusCode out.status) = some (some n) →
      ∃ out, executed lengthHash demoManifest (tinyElf code) [] = some (some out) ∧
        statusCode out.status = n := by
    intro code n h
    obtain ⟨r, hr, h⟩ := Option.map_eq_some_iff.mp h
    obtain ⟨out, hout, h⟩ := Option.map_eq_some_iff.mp h
    exact ⟨out, hout ▸ hr, h⟩
  rw [demo_outcome demo_get, demo_outcome (by decide +kernel)]
  exact ⟨hstatus (by decide +kernel), hstatus (by decide +kernel)⟩

/-- `c.ebreak` with two workers that disagree: the judges agree on the honest prover's word. -/
theorem judges_decide_alike_ebreak :
    ∃ out replay zk, judgeByReplayNetwork toyHost (demoStore [0x02, 0x90])
        (demoFinished [0x02, 0x90] ["wA", "wB"] splitTwo)
          = some (some replay) ∧
      zkJudgeNetwork toyHost
        (some fun _ => .ok (honestVerdict (demoDescriptor [0x02, 0x90]) out))
        (demoStore [0x02, 0x90])
        (demoFinished [0x02, 0x90] ["wA", "wB"] splitTwo)
          = some (some zk) ∧
      SameDecision zk replay := by
  obtain ⟨out, hrun, hzero⟩ := demo_outcomes.1
  obtain ⟨hok, htruth, hown⟩ := honestVerdict_spec (demoDescriptor [0x02, 0x90]) out
  obtain ⟨replay, hreplay, hzk, hsame⟩ := judges_decide_alike_iff toyHost (demoStore [0x02, 0x90])
    (demoFinished [0x02, 0x90] ["wA", "wB"] splitTwo) out hrun
    (fun _ => .ok (honestVerdict (demoDescriptor [0x02, 0x90]) out))
    (fun dir _ => ⟨_, rfl, hok, htruth, hown⟩)
  obtain ⟨zk, hzk⟩ := hzk (demo_ids [0x02, 0x90])
  exact ⟨out, replay, zk, hreplay, hzk, (hsame zk hzk).mpr hzero⟩

/-- A program that traps at once: on the honest prover's verdict the zk judge
rejects the job, the replay judge accepts the digest of its empty journal. -/
theorem judges_split_on_trap :
    ∃ out hash agreed, jobOutcome toyHost (demoStore [0x00, 0x00]) (demoDescriptor [0x00, 0x00])
        = some (some out) ∧
      Truthful out (honestVerdict (demoDescriptor [0x00, 0x00]) out) ∧
      OwnBinding (demoDescriptor [0x00, 0x00])
        (honestVerdict (demoDescriptor [0x00, 0x00]) out) ∧
      judgeByReplayNetwork toyHost (demoStore [0x00, 0x00])
        (demoFinished [0x00, 0x00] ["wA", "wB"] splitTwo)
          = some (some (.accept hash (some (hex (out.output.getD []))) agreed false)) ∧
      zkJudgeNetwork toyHost
        (some fun _ => .ok (honestVerdict (demoDescriptor [0x00, 0x00]) out))
        (demoStore [0x00, 0x00])
        (demoFinished [0x00, 0x00] ["wA", "wB"] splitTwo)
          = some (some (.reject "zk judge: job does not halt cleanly (status 2)")) := by
  obtain ⟨out, hrun, htwo⟩ := demo_outcomes.2
  obtain ⟨hok, htruth, hown⟩ := honestVerdict_spec (demoDescriptor [0x00, 0x00]) out
  have hzk : zkJudgeNetwork toyHost
      (some fun _ => .ok (honestVerdict (demoDescriptor [0x00, 0x00]) out))
      (demoStore [0x00, 0x00]) (demoFinished [0x00, 0x00] ["wA", "wB"] splitTwo)
        = some (some (zkDecision toyHost out splitTwo)) :=
    zkJudgeNetwork_returns hrun (demo_ids [0x00, 0x00]) fun dir _ => ⟨_, rfl, hok, htruth, hown⟩
  rw [zkDecision, if_neg (by rw [htwo]; decide), htwo] at hzk
  exact ⟨out, _, _, hrun, htruth, hown, judgeByReplayNetwork_eq hrun, hzk⟩

section

variable {host : JudgeHost} {store : Store} {job : PendingJob} {out : RunOutcome}

/-! ## Whether a judge is asked -/

/-- The acceptance a judge owes: the digest and the output of the run, and the
responders that reported it. -/
def JudgeAccepts (host : JudgeHost) (out : RunOutcome) (results : List WorkerResult)
    (d : Decision) : Prop :=
  ∃ agreed zk, d = .accept (host.outcomeDigest out) (some (hex (out.output.getD []))) agreed zk ∧
    ∀ w, w ∈ agreed ↔ w ∈ (matching (host.outcomeDigest out) results).map (·.workerId)

theorem zkDecision_accepts_iff {results : List WorkerResult} :
    JudgeAccepts host out results (zkDecision host out results) ↔ statusCode out.status = 0 := by
  unfold zkDecision
  by_cases hzero : statusCode out.status = 0
  · rw [if_pos hzero]
    exact iff_of_true ⟨_, _, rfl, fun _ => Iff.rfl⟩ hzero
  · rw [if_neg hzero]
    refine iff_of_false ?_ hzero
    rintro ⟨_, _, h, -⟩
    cases h

/-- The decision of a job without a receipt or a majority: below five workers the
judges', from five on `decide`'s own. -/
theorem decision_no_majority (hreceipt : job.zkAccept = none)
    (hno : ∀ h, ¬Quorum.Majority job.results job.dispatchedIds.length h)
    (htrap : (Quorum.trapped job.results).length
      < Quorum.threshold job.results job.dispatchedIds.length) (zk replay : Option Decision) :
    job.decision zk replay =
      if Quorum.pool job.results job.dispatchedIds.length < 5 then
        zk.getD (replay.getD (.reject "no majority; dispute judgment failed"))
      else .reject "no majority after escalation; bonds returned" := by
  unfold PendingJob.decision
  rw [hreceipt]
  simp only
  rw [Quorum.decide_no_majority hno, Quorum.decideWithout, if_neg (Nat.not_le.mpr htrap)]
  by_cases hfive : Quorum.pool job.results job.dispatchedIds.length < 5
  · rw [if_pos hfive, if_neg (Nat.not_le.mpr hfive)]
    cases zk with
    | none => rfl
    | some d => rfl
  · rw [if_neg hfive, if_pos (Nat.not_lt.mp hfive)]

end

/-- **When the judge arbitrates.** For every legacy job that can be rebuilt and
run, with any results from any number of workers, no receipt, no hash with a
strict majority of the pool and no majority of failed runs, and with a prover
that is not configured, fails, or reports what the run yields: the decision is
the acceptance the judge owes exactly when the pool has fewer than five workers
and the prover gave no decision or the run halts cleanly. -/
theorem judge_arbitrates_iff (host : JudgeHost) (store : Store) (job : PendingJob)
    (out : RunOutcome) (hrun : jobOutcome host store job.descriptor = some (some out))
    (zkJudge : Option (Dir → Except String JudgeVerdict))
    (htruth : ∀ runJudge, zkJudge = some runJudge → ∀ dir v,
      host.materialize job.descriptor store = some (some dir) → runJudge dir = .ok v →
      v.ok = true → Truthful out v)
    (hreceipt : job.zkAccept = none)
    (hno : ∀ h, ¬Quorum.Majority job.results job.dispatchedIds.length h)
    (htrap : (Quorum.trapped job.results).length
      < Quorum.threshold job.results job.dispatchedIds.length) :
    ∃ zk replay, zkJudgeNetwork host zkJudge store job = some zk ∧
      judgeByReplayNetwork host store job = some replay ∧
      (JudgeAccepts host out job.results (job.decision zk replay) ↔
        Quorum.pool job.results job.dispatchedIds.length < 5 ∧
          (zk = none ∨ statusCode out.status = 0)) := by
  obtain ⟨zk, hzk⟩ : ∃ zk, zkJudgeNetwork host zkJudge store job = some zk := by
    obtain ⟨dir, -, -, -, hdir, -⟩ := jobOutcome_eq_some hrun
    cases zkJudge with
    | none => exact ⟨none, rfl⟩
    | some runJudge =>
      simp only [zkJudgeNetwork, hdir, Attempt.andThen_returned]
      split
      · exact ⟨_, rfl⟩
      · exact ⟨_, rfl⟩
  refine ⟨zk, _, hzk, judgeByReplayNetwork_eq hrun, ?_⟩
  rw [decision_no_majority hreceipt hno htrap]
  by_cases hfive : Quorum.pool job.results job.dispatchedIds.length < 5
  · rw [if_pos hfive]
    cases zk with
    | none =>
      exact iff_of_true ⟨_, _, rfl, fun w => mem_vindicated⟩ ⟨hfive, Or.inl rfl⟩
    | some d =>
      cases zkJudge with
      | none => cases hzk
      | some runJudge =>
        obtain rfl := zkJudgeNetwork_truthful (htruth runJudge rfl) hzk
        rw [Option.getD_some, zkDecision_accepts_iff]
        simp [hfive]
  · rw [if_neg hfive]
    refine iff_of_false ?_ fun h => hfive h.1
    rintro ⟨_, _, h, -⟩
    cases h

/-- Two workers that disagree about `c.ebreak`, and no prover: the replay decides. -/
theorem judge_arbitrates_two :
    ∃ out replay, judgeByReplayNetwork toyHost (demoStore [0x02, 0x90])
        (demoFinished [0x02, 0x90] ["wA", "wB"] splitTwo)
          = some replay ∧
      JudgeAccepts toyHost out splitTwo
        ((demoFinished [0x02, 0x90] ["wA", "wB"] splitTwo).decision none replay) := by
  obtain ⟨out, hrun, -⟩ := demo_outcomes.1
  have hno : ∀ h, ¬Quorum.Majority splitTwo 2 h := by
    intro h hm
    have hlisted : ∀ h ∈ splitTwo.map (·.resultHash), ¬Quorum.Majority splitTwo 2 h := by decide
    exact hlisted h hm.mem_hashes hm
  obtain ⟨zk, replay, hzk, hreplay, hiff⟩ := judge_arbitrates_iff toyHost (demoStore [0x02, 0x90])
    (demoFinished [0x02, 0x90] ["wA", "wB"] splitTwo) out hrun
    none (by rintro _ ⟨⟩) rfl hno (by decide)
  obtain rfl := Option.some.inj hzk
  exact ⟨out, replay, hreplay, hiff.mpr ⟨by decide, Or.inl rfl⟩⟩

/-- Five workers split over a job that the judge can replay get a bare
rejection; the replay, which accepts, is never asked. -/
theorem judge_preempted :
    ∃ out hash agreed, jobOutcome toyHost (demoStore [0x02, 0x90]) (demoDescriptor [0x02, 0x90])
        = some (some out) ∧
      (∀ h, ¬Quorum.Majority splitFive 5 h) ∧
      (Quorum.trapped splitFive).length < Quorum.threshold splitFive 5 ∧
      judgeByReplayNetwork toyHost (demoStore [0x02, 0x90])
        (demoFinished [0x02, 0x90] ["w1", "w2", "w3", "w4", "w5"] splitFive)
          = some (some (.accept hash (some (hex (out.output.getD []))) agreed false)) ∧
      (demoFinished [0x02, 0x90] ["w1", "w2", "w3", "w4", "w5"] splitFive).decision none
        (some (.accept hash (some (hex (out.output.getD []))) agreed false))
          = .reject "no majority after escalation; bonds returned" := by
  obtain ⟨out, hrun, -⟩ := demo_outcomes.1
  have hno : ∀ h, ¬Quorum.Majority splitFive 5 h := by
    intro h hm
    have hlisted : ∀ h ∈ splitFive.map (·.resultHash), ¬Quorum.Majority splitFive 5 h := by decide
    exact hlisted h hm.mem_hashes hm
  have htrap : (Quorum.trapped splitFive).length < Quorum.threshold splitFive 5 := by decide
  refine ⟨out, _, _, hrun, hno, htrap, judgeByReplayNetwork_eq hrun, ?_⟩
  rw [decision_no_majority rfl hno htrap]
  rfl

end Provework.Coordinator
