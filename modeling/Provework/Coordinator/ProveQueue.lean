import Provework.Coordinator.ServeAuth
import Provework.Sp1Host

/-!
# The proving queue and its receipt cache (`prove_one` of `net.rs`, `zk_judge.rs`)

A job that is to be proved is looked up first: the cache holds one receipt for
each manifest, program and input, and a receipt is taken only after the verifier
has accepted it for this job. The judge proves a native job over the job's own
program, but the verifier is given the emulator guest whatever the format, so that
such a job is proved anew each time. And what a process prints is read only after it
has ended, so a verifier whose verdict does not fit the pipe waits for a reader until it
is killed: the receipt of a long run is never used again. `proved_once_iff` says when a
receipt is.

Modelling notes:
- How far the processes get is a parameter (`Processes`). A judge that is killed may have
  saved its receipt before.
- Files under the receipt directory are told apart by where their paths lead, so
  that two paths may lead to one file. The sidecar with the metadata is left out:
  it is written next to the receipt and nothing reads it.
- Errors have no text here.
-/

namespace Provework.Coordinator

open Provework.Lib Provework.Jobfmt Provework.Contentstore Provework.Rvcore Provework.Sp1Host

structure ReceiptDir where
  /-- The file a path under the directory leads to, if one can be written there. -/
  resolve : String → Option String

abbrev Files := String → Option (List U8)

structure ZkJudge where
  /-- What is in the file of the guest ELF. -/
  guestElf : Option (List U8)
  maxVmCycles : U64
  receiptDir : Option ReceiptDir
  /-- Whether there is a `verify_cmd`. -/
  verifyCmd : Bool

/-- BLAKE3 over the three content ids; `none` if one is not hex. -/
def receiptCacheKey (blake3 : List U8 → Hash) (descriptor : JobDescriptor) : Option String :=
  match expectedBinding descriptor with
  | .error _ => none
  | .ok ids => some (hex (List.ofFn (blake3 ids.flatten)))

/-- `cache_paths(..).0`. -/
def cachePath (key : String) : String := s!"zk-cache/{key}.receipt.bin"

def evidencePath (jobId : String) : String := s!"{jobId}.receipt.bin"

/-- How far `zk-judge` gets before its time limit. -/
inductive Reach where
  | killed
  /-- The receipt is saved, the verdict not printed; the pipe may be too small for it. -/
  | saved
  | printed
  deriving DecidableEq, Repr

/-- How the processes fare in one call of `prove_one`. -/
structure Processes where
  judge : Reach
  /-- Whether `zk-verify` is started and comes to its verdict within the time limit. -/
  verify : Bool
  /-- How many bytes a pipe holds; 65536 on Linux. -/
  pipe : Nat

/-- The verdict `zk-verify` prints. -/
def verdictLine (o : ReceiptOutcome) : String :=
  "\x7b\"ok\":true,\"status\":" ++ toString o.status ++ ",\"instructions\":"
    ++ toString o.instructions.toNat
    ++ ",\"chain\":[" ++ String.intercalate "," (o.chunkHashes.map fun h => "\"" ++ h ++ "\"")
    ++ "],\"output_hex\":\"" ++ o.outputHex ++ "\"\x7d\n"

/-- Its size in bytes. -/
def verdictBytes (o : ReceiptOutcome) : Nat := (utf8 (verdictLine o)).length

section

variable (host : JudgeHost) (vm : Zkvm) (zk : ZkJudge) (procs : Processes)

/-- The standard output is read after the process has ended, so a verdict that does not
fit the pipe keeps the process from ending; it is killed. -/
def verifyReceipt (receipt : List U8) (expected : List (List U8)) (v2 : Bool) :
    Option ReceiptOutcome :=
  if maxReceiptBytes < receipt.length then none
  else if !procs.verify then none
  else (zkVerify vm zk.guestElf receipt (expected.map hexUpper) v2).filter fun o =>
    verdictBytes o ≤ procs.pipe

def verifyCached (rd : ReceiptDir) (files : Files) (key : String) (expected : List (List U8))
    (v2 : Bool) : Option Decision :=
  if !zk.verifyCmd then none
  else do
    let receipt ← (rd.resolve (cachePath key)).bind files
    let outcome ← verifyReceipt vm zk procs receipt expected v2
    if outcome.status ≠ 0 then none
    else
      let output ← (fromHex outcome.outputHex ((utf8 outcome.outputHex).length / 2)).toOption
      let count := if v2 then v2JournalCount else outcome.instructions
      return .accept (host.digest count output) (some outcome.outputHex) [] true

/-- The judge on a job directory. The receipt is saved before the verdict is printed. -/
def runJudge (files : Files) (dir : Dir) (receiptOut : Option (Option String)) :
    Option JudgeVerdict × Files :=
  match (loadJob host.readManifest dir).bind
    (judgeJob host.blake3 vm zk.maxVmCycles zk.guestElf) with
  | none => (none, files)
  | some (verdict, receipt) =>
    match receiptOut, procs.judge with
    | some none, _ => (none, files)
    | none, .printed => (some verdict, files)
    | none, _ => (none, files)
    | some (some file), .printed => (some verdict, Function.update files file (some receipt))
    | some (some file), .saved => (none, Function.update files file (some receipt))
    | some (some _), .killed => (none, files)

/-- `std::fs::copy` of the receipt to the evidence of the job. A file that is copied
onto itself is truncated. -/
def copyEvidence (rd : ReceiptDir) (files : Files) (file jobId : String) : Files :=
  match files file, rd.resolve (evidencePath jobId) with
  | some receipt, some copy =>
    Function.update files copy (some (if copy = file then [] else receipt))
  | _, _ => files

/-- The evidence copy after a fresh proof. -/
def keepEvidence (rd : ReceiptDir) (files : Files) (key jobId : String) : Files :=
  match rd.resolve (cachePath key) with
  | none => files
  | some file => copyEvidence rd files file jobId

/-- What `prove_one` leaves behind: its result, the files, and whether the judge ran. -/
structure ProveRun where
  decision : Option Decision
  files : Files
  judged : Bool

/-- The part of `prove_one` after a miss. -/
def proveFresh (files : Files) (descriptor : JobDescriptor) (dir : Dir) (key : String)
    (expected : List (List U8)) (v2 : Bool) : ProveRun :=
  let receiptOut := zk.receiptDir.map fun rd => rd.resolve (cachePath key)
  match runJudge host vm zk procs files dir receiptOut with
  | (none, files) => { decision := none, files, judged := true }
  | (some verdict, files) =>
    { decision := (judgeDecision host.sha256 verdict expected v2).toOption
      files := match zk.receiptDir with
        | none => files
        | some rd => keepEvidence rd files key descriptor.jobId
      judged := true }

def proveOne (store : Store) (files : Files) (descriptor : JobDescriptor) : Option ProveRun :=
  match host.materialize descriptor store with
  | none => none
  | some none => some { decision := none, files, judged := false }
  | some (some dir) =>
    match expectedBinding descriptor, (dir "job.json").bind host.readManifest with
    | .ok expected, some manifest =>
      match receiptCacheKey host.blake3 descriptor with
      | none => none
      | some key =>
        match zk.receiptDir.bind fun rd =>
            verifyCached host vm zk procs rd files key expected manifest.isSp1V2 with
        | some d => some { decision := some d, files, judged := false }
        | none =>
          some (proveFresh host vm zk procs files descriptor dir key expected manifest.isSp1V2)
    | _, _ => some { decision := none, files, judged := false }

end

/-- A lookup for a job: what `prove_one` knows when it comes to the cache. -/
structure LooksUp (host : JudgeHost) (store : Store) (descriptor : JobDescriptor) (dir : Dir)
    (expected : List (List U8)) (manifest : JobManifest) (key : String) : Prop where
  rebuilt : host.materialize descriptor store = some (some dir)
  expected : expectedBinding descriptor = .ok expected
  manifest : (dir "job.json").bind host.readManifest = some manifest
  key : receiptCacheKey host.blake3 descriptor = some key

section

variable {host : JudgeHost} {vm : Zkvm} {zk : ZkJudge} {store : Store} {files : Files}
  {descriptor : JobDescriptor} {dir : Dir} {expected : List (List U8)} {manifest : JobManifest}
  {key : String} {procs : Processes}

theorem LooksUp.proveOne (h : LooksUp host store descriptor dir expected manifest key) :
    proveOne host vm zk procs store files descriptor =
      match zk.receiptDir.bind fun rd =>
          verifyCached host vm zk procs rd files key expected manifest.isSp1V2 with
      | some d => some { decision := some d, files, judged := false }
      | none =>
        some (proveFresh host vm zk procs files descriptor dir key expected manifest.isSp1V2) := by
  rw [Coordinator.proveOne, h.rebuilt]
  simp only [h.expected, h.manifest, h.key]

/-- How `prove_one` ends: with an error before the lookup, on a hit, or after a miss. -/
theorem proveOne_cases {run : ProveRun}
    (h : proveOne host vm zk procs store files descriptor = some run) :
    run.decision = none ∧ run.judged = false ∨
      ∃ dir expected manifest key, LooksUp host store descriptor dir expected manifest key ∧
        ((∃ rd d, verifyCached host vm zk procs rd files key expected manifest.isSp1V2 = some d ∧
            run = { decision := some d, files, judged := false }) ∨
          run = proveFresh host vm zk procs files descriptor dir key expected
            manifest.isSp1V2) := by
  unfold proveOne at h
  split at h
  · cases h
  · cases h
    exact .inl ⟨rfl, rfl⟩
  next dir hdir =>
  split at h
  · next expected manifest hexpected hmanifest =>
    split at h
    · cases h
    next key hkey =>
    refine .inr ⟨dir, expected, manifest, key, ⟨hdir, hexpected, hmanifest, hkey⟩, ?_⟩
    split at h
    · next d hcached =>
      obtain ⟨rd, -, hcached⟩ := Option.bind_eq_some_iff.mp hcached
      exact .inl ⟨rd, d, hcached, (Option.some.inj h).symm⟩
    · exact .inr (Option.some.inj h).symm
  · cases h
    exact .inl ⟨rfl, rfl⟩

/-- The judge is run only after a lookup. -/
theorem lookedUp_of_judged {run : ProveRun}
    (h : proveOne host vm zk procs store files descriptor = some run)
    (hjudged : run.judged = true) : ∃ dir expected manifest key,
      LooksUp host store descriptor dir expected manifest key ∧
      run = proveFresh host vm zk procs files descriptor dir key expected manifest.isSp1V2 := by
  rcases proveOne_cases h with
    ⟨-, hnot⟩ | ⟨dir, expected, manifest, key, hlooks, ⟨rd, d, -, rfl⟩ | hrun⟩
  · rw [hnot] at hjudged
    cases hjudged
  · cases hjudged
  · exact ⟨dir, expected, manifest, key, hlooks, hrun⟩

/-- A descriptor with the same ids looks up the same, also when the store has grown. -/
theorem LooksUp.again (h : LooksUp host store descriptor dir expected manifest key) {store' : Store}
    (hgrows : ∀ id data, store.get host.blake3 id = some data →
      store'.get host.blake3 id = some data)
    (jobId : String) : LooksUp host store' { descriptor with jobId } dir expected manifest key := by
  exact ⟨materialize_grows hgrows h.rebuilt jobId, h.expected, h.manifest, h.key⟩

/-- Three ids of 32 bytes. -/
theorem expectedBinding_ok (h : expectedBinding descriptor = .ok expected) :
    ∃ m e i, expected = [m, e, i] ∧ ∀ id ∈ expected, id.length = 32 := by
  obtain ⟨m, hm, h⟩ := except_bind_ok h
  obtain ⟨e, he, h⟩ := except_bind_ok h
  obtain ⟨i, hi, h⟩ := except_bind_ok h
  cases h
  refine ⟨m, e, i, rfl, ?_⟩
  intro id hid
  simp only [List.mem_cons, List.not_mem_nil, or_false] at hid
  rcases hid with rfl | rfl | rfl
  · exact length_fromHex hm
  · exact length_fromHex he
  · exact length_fromHex hi

/-! ## The verdict on a proof -/

theorem checkId_hex_iff {mismatch : String} {h : Hash} {id : List U8} :
    checkId mismatch (hex (List.ofFn h)) id = .ok () ↔ List.ofFn h = id := by
  simp only [checkId, fromHex_hash, Except.mapError, bind, Except.bind]
  by_cases heq : List.ofFn h = id
  · rw [if_neg (not_not.mpr heq)]
    exact iff_of_true rfl heq
  · rw [if_pos heq]
    exact iff_of_false (fun h => by cases h) heq

theorem checkIds_hex {binding : List Hash} : ∀ {ids : List (List U8)}, binding.length = ids.length →
    checkIds (binding.map fun h => hex (List.ofFn h)) ids = .ok () →
      (binding.map fun h => List.ofFn h) = ids := by
  induction binding with
  | nil =>
    intro ids hlength _
    exact (List.length_eq_zero_iff.mp hlength.symm).symm
  | cons h binding ih =>
    intro ids hlength hchecks
    cases ids with
    | nil => cases hlength
    | cons id ids =>
      obtain ⟨u, hid, hrest⟩ := except_bind_ok hchecks
      rw [List.map_cons, checkId_hex_iff.mp hid, ih (Nat.succ.inj hlength) hrest]

/-- A binding that passes is that of the job, in the part the format commits. -/
theorem checkBinding_hex {binding : List Hash} {m e i : List U8} {v2 : Bool}
    (h : checkBinding (binding.map fun h => hex (List.ofFn h)) [m, e, i] v2 = .ok ()) :
    (binding.map fun h => List.ofFn h) = if v2 then [m, e, i].drop 2 else [m, e, i] := by
  cases v2 with
  | true =>
    rw [if_pos rfl]
    match binding, h with
    | [], h => cases h
    | [id], h => exact congrArg (fun x => [x]) (checkId_hex_iff.mp h)
    | _ :: _ :: _, h => cases h
  | false =>
    simp only [checkBinding, Bool.false_eq_true, if_false, List.length_map] at h
    split at h
    · cases h
    next hlength => exact checkIds_hex (not_not.mp hlength) h

/-- What the judge's verdict is accepted for. -/
theorem judgeDecision_accept {c : Committed} {m e i : List U8} {v2 : Bool} {hash : String}
    {outputHex : Option String} {agreed : List String} {isZk : Bool}
    (h : judgeDecision host.sha256 (verdictOf c) [m, e, i] v2
      = .ok (.accept hash outputHex agreed isZk)) :
    (c.binding.map fun h => List.ofFn h) = (if v2 then [m, e, i].drop 2 else [m, e, i]) ∧
      c.status = 0 ∧ hash = host.digest c.instructions c.output ∧
      outputHex = some (hex c.output) := by
  obtain ⟨-, binding, hbinding, hcheck⟩ := judgeDecision_ok h
  cases hbinding
  refine ⟨checkBinding_hex hcheck, ?_⟩
  simp only [judgeDecision, verdictOf, okOr, hcheck, fromHex_hex_half, Except.mapError,
    Bool.not_true, Bool.false_eq_true, if_false, bind, Except.bind] at h
  split at h
  · next hstatus =>
    cases h
    exact ⟨hstatus, rfl, rfl⟩
  · cases h

/-! ## What is accepted -/

/-- The count of a native job is the same in every receipt. -/
theorem count_judged {job : ZkJob} {c : Committed} {elf receipt : List U8}
    (h : Judged host.blake3 vm zk.guestElf job c elf receipt) :
    (if job.v2 then v2JournalCount else c.instructions) = c.instructions := by
  by_cases hv2 : job.v2 = true
  · obtain ⟨values, -, hc⟩ := Option.bind_eq_some_iff.mp h.values
    rw [Zkvm.committed, if_pos hv2] at hc
    obtain ⟨guest, -, rfl⟩ := Option.map_eq_some_iff.mp hc
    exact if_pos hv2
  · exact if_neg hv2

/-- A receipt of the judge is a hit exactly if it is small enough, the verifier is given
the program that was proved, and its verdict arrives. -/
theorem verifyCached_judged (hvm : vm.Sound) (hcmd : zk.verifyCmd = true) {rd : ReceiptDir}
    {file : String} (hfile : rd.resolve (cachePath key) = some file) {job : ZkJob} {c : Committed}
    {elf receipt : List U8} (hreceipt : files file = some receipt)
    (h : Judged host.blake3 vm zk.guestElf job c elf receipt)
    (hlength : ∀ id ∈ expected, id.length = 32)
    (hids : (c.binding.map fun h => List.ofFn h) = if job.v2 then expected.drop 2 else expected)
    (hstatus : c.status = 0) :
    verifyCached host vm zk procs rd files key expected job.v2 =
      if (job.v2 = true → zk.guestElf = some job.elf) ∧ receipt.length ≤ maxReceiptBytes ∧
          procs.verify = true ∧ verdictBytes (outcomeOf c) ≤ procs.pipe then
        some (.accept (host.digest c.instructions c.output) (some (hex c.output)) [] true)
      else none := by
  rw [h.binding] at hids
  have hverify := zkVerify_judged hvm h hlength hids
  have hreturns : verifyReceipt vm zk procs receipt expected job.v2 =
      if (job.v2 = true → zk.guestElf = some job.elf) ∧ receipt.length ≤ maxReceiptBytes ∧
          procs.verify = true ∧ verdictBytes (outcomeOf c) ≤ procs.pipe then
          some (outcomeOf c) else none := by
    unfold verifyReceipt
    rw [hverify]
    by_cases hsize : receipt.length ≤ maxReceiptBytes
    · rw [if_neg (Nat.not_lt.mpr hsize)]
      by_cases hprogram : job.v2 = true → zk.guestElf = some job.elf
      · rw [if_pos hprogram, Option.filter_some]
        cases procs.verify <;> simp [hsize, eq_true hprogram]
      · rw [if_neg hprogram, Option.filter_none, ite_self]
        exact (if_neg fun hall => hprogram hall.1).symm
    · rw [if_pos (Nat.not_le.mp hsize), if_neg fun hboth => hsize hboth.2.1]
  simp only [verifyCached, hcmd, hfile, hreceipt, hreturns, Bool.not_true, Bool.false_eq_true,
    if_false, Option.bind_some, bind]
  split
  · have hzero : (outcomeOf c).status = 0 := by rw [outcomeOf, hstatus]; rfl
    rw [Option.bind_some, if_neg (not_not.mpr hzero)]
    simp only [outcomeOf, fromHex_hex_half, Except.toOption, Option.bind_some, count_judged h]
    rfl
  · rfl

/-- A truncated receipt is never a hit. -/
theorem verifyCached_empty (hvm : vm.Sound) {rd : ReceiptDir} {file : String}
    (hfile : rd.resolve (cachePath key) = some file) (hempty : files file = some []) {v2 : Bool} :
    verifyCached host vm zk procs rd files key expected v2 = none := by
  have hverify : zkVerify vm zk.guestElf [] (expected.map hexUpper) v2 = none := by
    simp only [zkVerify, hvm.empty, bind, Option.bind_none, Option.bind_fun_none]
  simp only [verifyCached, hfile, hempty, verifyReceipt, hverify, Option.filter_none, bind,
    Option.bind_some, ite_self, Option.bind_none]

/-! ## Proved once -/

/-- The job a descriptor stands for, and the receipt of its proof in the cache. -/
structure Proves (host : JudgeHost) (vm : Zkvm) (zk : ZkJudge) (store : Store)
    (descriptor : JobDescriptor) (job : ZkJob) (receipt : List U8) (key : String) : Prop where
  rebuilt : ∃ dir, host.materialize descriptor store = some (some dir) ∧
    loadJob host.readManifest dir = some job
  proved : ∃ elf, job.execElf zk.guestElf = some elf ∧ vm.prove elf job.stdin = some receipt
  key : receiptCacheKey host.blake3 descriptor = some key

/-- A native job is the guest itself, the receipt is not too large, its evidence copy is
another file, and the verifier ends in time, with a verdict that fits the pipe. -/
structure Reusable (vm : Zkvm) (zk : ZkJudge) (procs : Processes) (rd : ReceiptDir) (jobId : String)
    (job : ZkJob) (receipt : List U8) (key : String) : Prop where
  program : job.v2 = true → zk.guestElf = some job.elf
  size : receipt.length ≤ maxReceiptBytes
  inTime : procs.verify = true
  fits : ∀ c, (vm.load receipt).bind (vm.committed job.v2) = some c →
    verdictBytes (outcomeOf c) ≤ procs.pipe
  apart : rd.resolve (evidencePath jobId) ≠ rd.resolve (cachePath key)

/-- Accepted with this hash and output, and the judge was not run. -/
def Served (hash : String) (outputHex : Option String) (run : Option ProveRun) : Prop :=
  ∃ agreed isZk files, run = some ⟨some (.accept hash outputHex agreed isZk), files, false⟩

theorem proveFresh_judged {v2 : Bool} {run : ProveRun}
    (h : proveFresh host vm zk procs files descriptor dir key expected v2 = run) :
    run.judged = true := by
  subst h
  unfold proveFresh
  dsimp only
  split <;> rfl

/-- A fresh proof that is accepted has left its receipt and the copy. -/
theorem proveFresh_accept (hvm : vm.Sound) {rd : ReceiptDir} (hrd : zk.receiptDir = some rd)
    {v2 : Bool} {hash : String} {outputHex : Option String} {agreed : List String} {isZk : Bool}
    {files' : Files} (h : proveFresh host vm zk procs files descriptor dir key expected v2
      = ⟨some (.accept hash outputHex agreed isZk), files', true⟩) :
    ∃ job c elf receipt file, loadJob host.readManifest dir = some job ∧
      Judged host.blake3 vm zk.guestElf job c elf receipt ∧ rd.resolve (cachePath key) = some file ∧
      files' = copyEvidence rd (Function.update files file (some receipt)) file descriptor.jobId ∧
      judgeDecision host.sha256 (verdictOf c) expected v2
        = .ok (.accept hash outputHex agreed isZk) := by
  unfold proveFresh runJudge at h
  simp only [hrd, Option.map_some] at h
  rcases hjudge : (loadJob host.readManifest dir).bind
      (judgeJob host.blake3 vm zk.maxVmCycles zk.guestElf) with _ | ⟨verdict, receipt⟩
  · simp only [hjudge] at h
    cases h
  rcases hfile : rd.resolve (cachePath key) with _ | file
  · simp only [hjudge, hfile] at h
    cases h
  have hprinted : procs.judge = .printed := by
    cases hreach : procs.judge with
    | printed => rfl
    | _ =>
      simp only [hjudge, hfile, hreach] at h
      cases h
  simp only [hjudge, hfile, hprinted, keepEvidence] at h
  obtain ⟨hdecision, hfiles, -⟩ := ProveRun.mk.inj h
  obtain ⟨job, hjob, hverdict⟩ := Option.bind_eq_some_iff.mp hjudge
  obtain ⟨c, elf, rfl, hjudged⟩ := judgeJob_some hvm hverdict
  exact ⟨job, c, elf, receipt, file, hjob, hjudged, rfl, hfiles.symm, toOption_eq_some hdecision⟩

theorem loadJob_manifest {job : ZkJob}
    (hmanifest : (dir "job.json").bind host.readManifest = some manifest)
    (h : loadJob host.readManifest dir = some job) : job.v2 = manifest.isSp1V2 := by
  obtain ⟨bytes, hbytes, h⟩ := Option.bind_eq_some_iff.mp h
  obtain ⟨manifest', hmanifest', h⟩ := Option.bind_eq_some_iff.mp h
  obtain ⟨elf, -, h⟩ := Option.bind_eq_some_iff.mp h
  obtain ⟨input, -, h⟩ := Option.bind_eq_some_iff.mp h
  cases h
  rw [hbytes, Option.bind_some, hmanifest'] at hmanifest
  rw [ZkJob.v2, Option.some.inj hmanifest]

theorem copyEvidence_file {rd : ReceiptDir} {file jobId : String} {receipt : List U8} :
    copyEvidence rd (Function.update files file (some receipt)) file jobId file =
      some (if rd.resolve (evidencePath jobId) = some file then [] else receipt) := by
  simp only [copyEvidence, Function.update_self]
  rcases rd.resolve (evidencePath jobId) with _ | copy
  · simp only [Function.update_self, reduceCtorEq, if_false]
  · by_cases hcopy : copy = file
    · subst hcopy
      simp only [Function.update_self, if_true]
    · simp only [Function.update_of_ne (Ne.symm hcopy), Function.update_self, Option.some.injEq,
        hcopy, if_false]

/-- After a proof that was accepted, a job with the same content is served from the
cache, with the same hash and output, exactly if the receipt is reusable; `procs` and
`procs'` are how the processes fare in the two calls. -/
theorem proved_once_iff (host : JudgeHost) (vm : Zkvm) (hvm : vm.Sound) (zk : ZkJudge)
    (rd : ReceiptDir) (hrd : zk.receiptDir = some rd) (hcmd : zk.verifyCmd = true)
    (procs procs' : Processes) (store store' : Store)
    (hgrows : ∀ id data, store.get host.blake3 id = some data →
      store'.get host.blake3 id = some data)
    (files files' : Files) (descriptor : JobDescriptor) (hash : String) (outputHex : Option String)
    (agreed : List String) (isZk : Bool)
    (hfirst : proveOne host vm zk procs store files descriptor
      = some ⟨some (.accept hash outputHex agreed isZk), files', true⟩) (jobId : String) :
    ∃ job receipt key, Proves host vm zk store descriptor job receipt key ∧
      (Served hash outputHex (proveOne host vm zk procs' store' files' { descriptor with jobId }) ↔
        Reusable vm zk procs' rd descriptor.jobId job receipt key) := by
  obtain ⟨dir, expected, manifest, key, hlooks, hfresh⟩ := lookedUp_of_judged hfirst rfl
  obtain ⟨job, c, elf, receipt, file, hjob, hjudged, hfile, rfl, hdecision⟩ :=
    proveFresh_accept hvm hrd hfresh.symm
  obtain ⟨m, e, i, rfl, hlength⟩ := expectedBinding_ok hlooks.expected
  have hv2 := loadJob_manifest hlooks.manifest hjob
  obtain ⟨hids, hstatus, rfl, rfl⟩ := judgeDecision_accept hdecision
  refine ⟨job, receipt, key,
    ⟨⟨dir, hlooks.rebuilt, hjob⟩, ⟨elf, hjudged.program, hjudged.proved⟩, hlooks.key⟩, ?_⟩
  rw [(hlooks.again hgrows jobId).proveOne, hrd, Option.bind_some]
  rw [← hv2] at hids ⊢
  by_cases hsame : rd.resolve (evidencePath descriptor.jobId) = some file
  · -- the copy has truncated the receipt
    rw [verifyCached_empty hvm hfile (by rw [copyEvidence_file, if_pos hsame])]
    refine iff_of_false ?_ fun h => h.apart (hsame.trans hfile.symm)
    rintro ⟨agreed, isZk, files, hrun⟩
    exact absurd (proveFresh_judged (Option.some.inj hrun)) nofun
  · rw [verifyCached_judged hvm hcmd hfile (by rw [copyEvidence_file, if_neg hsame]) hjudged hlength
      hids hstatus]
    by_cases hhit : (job.v2 = true → zk.guestElf = some job.elf) ∧
      receipt.length ≤ maxReceiptBytes ∧
        procs'.verify = true ∧ verdictBytes (outcomeOf c) ≤ procs'.pipe
    · rw [if_pos hhit]
      refine iff_of_true ⟨_, _, _, rfl⟩
        ⟨hhit.1, hhit.2.1, hhit.2.2.1, fun c' hc' => ?_, fun h => hsame (h.trans hfile)⟩
      obtain rfl := Option.some.inj (hjudged.values.symm.trans hc')
      exact hhit.2.2.2
    · rw [if_neg hhit]
      refine iff_of_false ?_ fun h => hhit ⟨h.program, h.size, h.inTime, h.fits c hjudged.values⟩
      rintro ⟨agreed, isZk, files, hrun⟩
      exact absurd (proveFresh_judged (Option.some.inj hrun)) nofun

end

/-! ## One job in each format -/

/-- A receipt is the program it was proved over; every run commits `binding` and no
output. -/
def toyVm (binding : List Hash) : Zkvm where
  execute := fun _ _ => some ([1], 1)
  prove := fun elf _ => if elf = [] then none else some elf
  load := fun receipt => if receipt = [] then none else some [1]
  verify := fun receipt elf => receipt = elf
  readEmulator :=
    fun _ => some { binding, status := 0, instructions := 1, chain := [], output := [] }
  readGuest := fun _ => some (lengthHash [], [])

theorem toyVm_proved {binding : List Hash} {elf receipt : List U8} {stdin : List (List U8)}
    (h : (toyVm binding).prove elf stdin = some receipt) : elf = receipt ∧ receipt ≠ [] := by
  unfold toyVm at h
  dsimp only at h
  split at h
  · cases h
  next hne =>
  cases h
  exact ⟨rfl, hne⟩

theorem toyVm_sound (binding : List Hash) : (toyVm binding).Sound where
  values := by
    intro elf receipt values stdin cycles hexec hproved
    cases hexec
    exact if_neg (toyVm_proved hproved).2
  verify_iff := by
    intro elf receipt stdin hproved elf'
    rw [(toyVm_proved hproved).1]
    exact decide_eq_true_iff.trans eq_comm
  empty := rfl

def nativeJson : String :=
  "\x7b\"schema\":1,\"id\":\"job-1\",\"name\":\"demo\",\"isa\":\"rv64imc\",\"toolchain\":\"demo\",\"chunk_size\":1,\"max_instructions\":10,\"verification_class\":\"quorum\",\"elf\":\"program.elf\",\"input\":\"input.bin\",\"format\":\"sp1-v2\"\x7d"

def formatJson (v2 : Bool) : List U8 := utf8 (if v2 then nativeJson else demoJson)

def formatManifest (v2 : Bool) : JobManifest :=
  { demoManifest with format := if v2 then some "sp1-v2" else none }

def formatHost (v2 : Bool) : JudgeHost :=
  { toyHost with
    readManifest := fun bytes => if bytes = formatJson v2 then some (formatManifest v2) else none }

def formatJob (v2 : Bool) : ZkJob :=
  { manifestBytes := formatJson v2
    manifest := formatManifest v2
    elf := tinyElf [0x02, 0x90]
    input := [] }

def formatBlobs (v2 : Bool) : List (List U8) := [formatJson v2, tinyElf [0x02, 0x90], []]

def formatStore (v2 : Bool) : Store := (formatBlobs v2).foldl (Store.put lengthHash) fun _ => none

def formatDescriptor (v2 : Bool) (jobId : String) : JobDescriptor :=
  { jobId
    manifest := hex (List.ofFn (lengthHash (formatJson v2)))
    elf := hex (List.ofFn (lengthHash (tinyElf [0x02, 0x90])))
    input := hex (List.ofFn (lengthHash [])) }

def formatIds (v2 : Bool) : List (List U8) :=
  (formatBlobs v2).map fun data => List.ofFn (lengthHash data)

def formatKey (v2 : Bool) : String := hex (List.ofFn (lengthHash (formatIds v2).flatten))

def formatVm : Zkvm := toyVm ((formatBlobs false).map lengthHash)

/-- The emulator guest is not the program of the job; each path leads to its own file. -/
def formatZk : ZkJudge :=
  { guestElf := some [0x7f], maxVmCycles := 10, receiptDir := some ⟨some⟩, verifyCmd := true }

/-- Both processes come to their verdict in time, on Linux. -/
def promptly : Processes := { judge := .printed, verify := true, pipe := 65536 }

theorem format_fetch (v2 : Bool) {data : List U8} (hdata : data ∈ formatBlobs v2) :
    (formatStore v2).fetch lengthHash (hex (List.ofFn (lengthHash data))) = some (some data) := by
  have hget : ∀ data ∈ formatBlobs v2,
      (formatStore v2).get lengthHash (lengthHash data) = some data := by
    cases v2 <;> decide +kernel
  exact Store.fetch_hex (hget data hdata)

theorem format_looksUp (v2 : Bool) (jobId : String) : ∃ dir,
    LooksUp (formatHost v2) (formatStore v2) (formatDescriptor v2 jobId) dir (formatIds v2)
      (formatManifest v2) (formatKey v2) ∧
    loadJob (formatHost v2).readManifest dir = some (formatJob v2) := by
  have hread : (formatHost v2).readManifest (formatJson v2) = some (formatManifest v2) := by
    simp only [formatHost, if_true]
  have hjson : (formatStore v2).fetch (formatHost v2).blake3 (formatDescriptor v2 jobId).manifest
      = some (some (formatJson v2)) := format_fetch v2 List.mem_cons_self
  have helf : (formatStore v2).fetch (formatHost v2).blake3 (formatDescriptor v2 jobId).elf
      = some (some (tinyElf [0x02, 0x90])) :=
      format_fetch v2 (List.mem_cons_of_mem _ List.mem_cons_self)
  have hinput : (formatStore v2).fetch (formatHost v2).blake3 (formatDescriptor v2 jobId).input
      = some (some []) :=
    format_fetch v2 (List.mem_cons_of_mem _ (List.mem_cons_of_mem _ List.mem_cons_self))
  have hapart : (formatManifest v2).elf ≠ "job.json" ∧ (formatManifest v2).input ≠ "job.json" ∧
      (formatManifest v2).elf ≠ (formatManifest v2).input := by
    cases v2 <;> decide
  obtain ⟨dir, hdir, hjson, helf, hinput⟩ := materialize_of_blobs hjson helf hinput hread demo_names
    hapart.1 hapart.2.1 hapart.2.2 (fun _ => rfl)
  have hexpected : expectedBinding (formatDescriptor v2 jobId) = .ok (formatIds v2) := by
    simp only [expectedBinding, formatDescriptor, fromHex_hash, bind, Except.bind]
    rfl
  refine ⟨dir, ⟨hdir, hexpected, ?_, ?_⟩, ?_⟩
  · rw [hjson, Option.bind_some, hread]
  · rw [receiptCacheKey, hexpected]
    rfl
  · simp only [loadJob, hjson, hread, helf, hinput, bind, Option.bind_some]
    rfl

/-- The program that is proved, which is the receipt. -/
def formatReceipt (v2 : Bool) : List U8 := if v2 then tinyElf [0x02, 0x90] else [0x7f]

/-- The files after a proof. -/
def formatSaved (v2 : Bool) (jobId : String) (files : Files) : Files :=
  copyEvidence ⟨some⟩ (Function.update files (cachePath (formatKey v2)) (some (formatReceipt v2)))
    (cachePath (formatKey v2)) jobId

/-- A path in the cache goes through a directory. -/
theorem cachePath_ne_evidencePath (key : String) {jobId : String} (hjobId : '/' ∉ jobId.toList) :
    evidencePath jobId ≠ cachePath key := by
  intro heq
  have hslash : '/' ∈ (evidencePath jobId).toList := by
    rw [heq]
    simp only [cachePath, String.toList_append, List.mem_append]
    exact .inl (.inl (by decide))
  simp only [evidencePath, String.toList_append, List.mem_append] at hslash
  rcases hslash with hslash | hslash
  · exact hjobId hslash
  · exact absurd hslash (by decide)

theorem formatSaved_file (v2 : Bool) {jobId : String} (hjobId : '/' ∉ jobId.toList)
    (files : Files) :
    formatSaved v2 jobId files (cachePath (formatKey v2)) = some (formatReceipt v2) := by
  rw [formatSaved, copyEvidence_file]
  exact congrArg some (if_neg fun h => cachePath_ne_evidencePath _ hjobId (Option.some.inj h))

/-- Either job is proved when it is not found. -/
theorem format_proved {v2 : Bool} (jobId : String) {files : Files}
    (hmiss :
      verifyCached (formatHost v2) formatVm formatZk promptly ⟨some⟩ files (formatKey v2)
        (formatIds v2) v2
      = none) :
    proveOne (formatHost v2) formatVm formatZk promptly (formatStore v2) files
      (formatDescriptor v2 jobId)
      = some ⟨some (.accept (keyHex 8) (some "") [] true), formatSaved v2 jobId files, true⟩ := by
  obtain ⟨dir, hlooks, hload⟩ := format_looksUp v2 jobId
  have hv2 : (formatManifest v2).isSp1V2 = v2 := by cases v2 <;> rfl
  have hjudged : (judgeJob (formatHost v2).blake3 formatVm formatZk.maxVmCycles formatZk.guestElf
      (formatJob v2)).map (fun (verdict, receipt) =>
        ((judgeDecision (formatHost v2).sha256 verdict (formatIds v2) v2).toOption, receipt))
      = some (some (.accept (keyHex 8) (some "") [] true), formatReceipt v2) := by
    cases v2 <;> decide +kernel
  obtain ⟨⟨verdict, receipt⟩, hjudge, h⟩ := Option.map_eq_some_iff.mp hjudged
  obtain ⟨hdecision, rfl⟩ := Prod.mk.inj h
  rw [hlooks.proveOne, hv2, show formatZk.receiptDir = some ⟨some⟩ from rfl, Option.bind_some,
    hmiss]
  simp only [proveFresh, runJudge, hload, Option.bind_some, hjudge, promptly,
    show formatZk.receiptDir = some ⟨some⟩ from rfl, Option.map_some, hdecision]
  rfl

/-- The receipt of the legacy job is served to a second submitter. -/
theorem proved_once_legacy : Served (keyHex 8) (some "")
    (proveOne (formatHost false) formatVm formatZk promptly (formatStore false)
      (formatSaved false "job-1" fun _ => none) (formatDescriptor false "job-2")) := by
  obtain ⟨job, receipt, key, hproves, hserved⟩ := proved_once_iff (formatHost false) formatVm
    (toyVm_sound _) formatZk ⟨some⟩ rfl rfl promptly promptly (formatStore false)
      (formatStore false) (fun _ _ h => h)
    (fun _ => none) _ (formatDescriptor false "job-1") (keyHex 8) (some "") [] true
    (format_proved "job-1" rfl) "job-2"
  obtain ⟨dir, hdir, hload⟩ := hproves.rebuilt
  obtain ⟨dir', hlooks, hload'⟩ := format_looksUp false "job-1"
  have hjob : formatJob false = job := by
    rw [hlooks.rebuilt] at hdir
    rw [← Option.some.inj (Option.some.inj hdir), hload'] at hload
    exact Option.some.inj hload
  have hlegacy : job.v2 = false := by
    rw [← hjob]
    decide
  refine hserved.mpr ⟨fun hv2 => absurd (hlegacy.symm.trans hv2) nofun, ?_, rfl, ?_, ?_⟩
  · obtain ⟨elf, helf, hproved⟩ := hproves.proved
    rw [ZkJob.execElf, hlegacy] at helf
    cases helf
    rw [← (toyVm_proved hproved).1]
    decide
  · intro c hc
    obtain ⟨values, -, hc⟩ := Option.bind_eq_some_iff.mp hc
    rw [Zkvm.committed, hlegacy] at hc
    cases hc
    decide +kernel
  · exact fun h => cachePath_ne_evidencePath key (by decide) (Option.some.inj h)

/-- The native job is proved a second time with its receipt in the cache. -/
theorem native_proved_again :
    formatSaved true "job-1" (fun _ => none) (cachePath (formatKey true))
      = some (tinyElf [0x02, 0x90]) ∧
    proveOne (formatHost true) formatVm formatZk promptly (formatStore true) (fun _ => none)
        (formatDescriptor true "job-1")
      = some ⟨some (.accept (keyHex 8) (some "") [] true), formatSaved true "job-1" fun _ => none,
        true⟩ ∧
    proveOne (formatHost true) formatVm formatZk promptly (formatStore true)
        (formatSaved true "job-1" fun _ => none) (formatDescriptor true "job-2")
      = some ⟨some (.accept (keyHex 8) (some "") [] true),
          formatSaved true "job-2" (formatSaved true "job-1" fun _ => none), true⟩ := by
  have hfile := formatSaved_file true (show '/' ∉ "job-1".toList by decide) fun _ => none
  refine ⟨hfile, format_proved "job-1" rfl, format_proved "job-2" ?_⟩
  have hlength : ∀ id ∈ formatIds true, id.length = 32 := by
    intro id hid
    obtain ⟨data, -, rfl⟩ := List.mem_map.mp hid
    exact List.length_ofFn
  -- the guest is not the program of the job
  have hreject : verifyReceipt formatVm formatZk promptly (formatReceipt true) (formatIds true) true
      = none := by
    rw [verifyReceipt, if_neg (by decide +kernel), if_neg (by decide), zkVerify,
      mapM_fromHex_hexUpper _ hlength]
    decide +kernel
  simp only [verifyCached, Option.bind_some, hfile, hreject, bind, Option.bind_none, ite_self]

end Provework.Coordinator
