import Provework.Coordinator.ProveQueue
import Provework.Coordinator.Scan
import Provework.Jobfmt.Paths

/-!
# Files named after a job

A file name in a manifest and the id of a job come from the network and end up in
paths; `confined_name` has looked at them before. `confinedName_exact` follows a name
to the paths that are made of it. The check lets a plain name through with separators
at its end. Where nothing is written behind the name they do no harm; the queue file,
the record and the receipt of such a job are not in the directory they belong to.
-/

namespace Provework.Coordinator

open Provework.Lib Provework.Jobfmt

/-- Where a name is part of a path. -/
inductive Site where
  /-- Program and input in the directory of a job. -/
  | jobFile
  /-- `job_materialize_dir` of the worker. -/
  | jobMaterializeDir (workerId : String)
  /-- `judge_by_replay_network`. -/
  | judgeByReplayNetwork (pid : Nat)
  /-- `zk_judge_network`. -/
  | zkJudgeNetwork (pid : Nat)
  /-- `prove_one`. -/
  | proveOne (pid : Nat)
  /-- `handle_job_submission`, in the watched directory. -/
  | handleJobSubmission
  /-- `finish_decided_job`, in the directory of results. -/
  | finishDecidedJob
  /-- The receipt kept by `zk_judge_network` and `prove_one`. -/
  | receipt

namespace Site

/-- What is joined to the directory. -/
def fileName : Site → String → String
  | jobFile, name => name
  | jobMaterializeDir workerId, jobId => s!"p2pc-worker-{workerId}-{jobId}"
  | judgeByReplayNetwork pid, jobId => s!"p2pc-judge-{pid}-{jobId}"
  | zkJudgeNetwork pid, jobId => s!"p2pc-zkjudge-{pid}-{jobId}"
  | proveOne pid, jobId => s!"p2pc-zkprove-{pid}-{jobId}"
  | handleJobSubmission, jobId => submittedName jobId
  | finishDecidedJob, jobId => s!"{jobId}.json"
  | receipt, jobId => evidencePath jobId

/-- Of it, what stands before the name. -/
def front : Site → String
  | jobMaterializeDir workerId => "p2pc-worker-" ++ workerId ++ "-"
  | judgeByReplayNetwork pid => "p2pc-judge-" ++ toString pid ++ "-"
  | zkJudgeNetwork pid => "p2pc-zkjudge-" ++ toString pid ++ "-"
  | proveOne pid => "p2pc-zkprove-" ++ toString pid ++ "-"
  | handleJobSubmission => "submitted-"
  | _ => ""

/-- And behind it. -/
def back : Site → String
  | handleJobSubmission => ".desc.json"
  | finishDecidedJob => ".json"
  | receipt => ".receipt.bin"
  | _ => ""

theorem fileName_eq (site : Site) (name : String) :
    site.fileName name = site.front ++ name ++ site.back := by
  cases site with
  | jobFile =>
    show name = "" ++ name ++ ""
    rw [String.empty_append, String.append_empty]
  | handleJobSubmission => rfl
  | finishDecidedJob =>
    show name ++ ".json" = "" ++ name ++ ".json"
    rw [String.empty_append]
  | receipt =>
    show name ++ ".receipt.bin" = "" ++ name ++ ".receipt.bin"
    rw [String.empty_append]
  | _ => exact String.append_empty.symm

theorem back_plain (site : Site) : site.back = "" ∨ PlainName site.back.toList := by
  cases site with
  | handleJobSubmission => exact .inr (by decide)
  | finishDecidedJob => exact .inr (by decide)
  | receipt => exact .inr (by decide)
  | _ => exact .inl rfl

theorem slash_not_mem_digits (n : Nat) : '/' ∉ (toString n).toList := by
  intro h
  rw [Nat.toString_eq_ofList_toDigits, String.toList_ofList] at h
  exact absurd (Nat.isDigit_of_mem_toDigits (by decide) (by decide) h) (by decide)

/-- Only the name of the worker can bring a separator along. -/
theorem slash_mem_front_iff (site : Site) : '/' ∈ site.front.toList ↔
    ∃ workerId, site = .jobMaterializeDir workerId ∧ '/' ∈ workerId.toList := by
  have hpid : ∀ (label : String) (pid : Nat), '/' ∉ label.toList →
      '/' ∉ (label ++ toString pid ++ "-").toList := by
    intro label pid hlabel h
    exact slash_not_mem_digits pid ((mem_between_iff hlabel (by decide) _).mp h)
  cases site with
  | jobMaterializeDir w =>
    have hfront : '/' ∈ (jobMaterializeDir w).front.toList ↔ '/' ∈ w.toList :=
      mem_between_iff (by decide) (by decide) w
    simp [hfront]
  | judgeByReplayNetwork pid => exact iff_of_false (hpid _ pid (by decide)) (by simp)
  | zkJudgeNetwork pid => exact iff_of_false (hpid _ pid (by decide)) (by simp)
  | proveOne pid => exact iff_of_false (hpid _ pid (by decide)) (by simp)
  | _ => exact iff_of_false (by decide) (by simp)

/-- What stands before the first of them is a name already. -/
theorem front_cut {site : Site} (h : '/' ∈ site.front.toList) : ∃ first rest,
    site.front.toList = first ++ '/' :: rest ∧ '/' ∉ first ∧ ¬Skipped first ∧
    first ≠ ['.', '.'] := by
  obtain ⟨w, rfl, hw⟩ := site.slash_mem_front_iff.mp h
  obtain ⟨w₁, w₂, hcut, hw₁⟩ := List.eq_append_cons_of_mem hw
  have hlabel : PlainName "p2pc-worker-".toList := by decide
  refine ⟨"p2pc-worker-".toList ++ w₁, w₂ ++ "-".toList, ?_, List.not_mem_append hlabel.noSlash hw₁,
    hlabel.surrounded [] w₁⟩
  show ("p2pc-worker-" ++ w ++ "-").toList = _
  rw [String.toList_append, String.toList_append, hcut]
  simp only [List.append_assoc, List.cons_append]

end Site

theorem directChild_fileName_iff {s : String} {name tail : List Char} (hs : s.toList = name ++ tail)
    (hplain : PlainName name) (htail : Trailing tail) (site : Site) (dir : String) :
    DirectChild dir (join dir (site.fileName s)) ↔
      '/' ∉ site.front.toList ∧ (site.back = "" ∨ '/' ∉ s.toList) := by
  rw [site.fileName_eq]
  by_cases hfront : '/' ∈ site.front.toList
  · obtain ⟨first, rest, hcut, hslash, hfirst⟩ := Site.front_cut hfront
    exact iff_of_false (not_directChild_around hs hplain hcut hslash hfirst _ dir) fun h =>
      h.1 hfront
  · rw [directChild_around_iff hs hplain htail hfront site.back_plain, and_iff_right hfront]

/-- What `confined_name` accepts, and what becomes of it. It is a plain name if it
has no separator; but separators at its end go through. Joined to a directory, such
a name is a direct child all the same, and so is a file named after it, unless
something is written behind the name or the worker's own name has a separator. -/
theorem confinedName_exact (s : String) :
    (confinedName s = true ↔
      '\\' ∉ s.toList ∧ ∃ name tail, s.toList = name ++ tail ∧ PlainName name ∧ Trailing tail) ∧
    ('/' ∉ s.toList → (confinedName s = true ↔ PlainName s.toList)) ∧
    (confinedName s = true → ∀ (site : Site) (dir : String),
      (DirectChild dir (join dir (site.fileName s)) ↔
        (∀ workerId, site = .jobMaterializeDir workerId → '/' ∉ workerId.toList) ∧
          (site.back = "" ∨ '/' ∉ s.toList))) := by
  refine ⟨confinedName_iff s, confinedName_iff_plain, ?_⟩
  intro h site dir
  obtain ⟨-, name, tail, hs, hplain, htail⟩ := (confinedName_iff s).mp h
  rw [directChild_fileName_iff hs hplain htail, site.slash_mem_front_iff]
  simp only [not_exists, not_and]

theorem confinedName_exact_programElf :
    DirectChild "jobs/job-1" (join "jobs/job-1" (Site.jobFile.fileName "program.elf")) :=
  ((confinedName_exact "program.elf").2.2 (by decide) .jobFile "jobs/job-1").mpr
    ⟨by simp, .inl rfl⟩

/-- The id `job-1/` is accepted, and its queue file is not in the watched directory. -/
theorem confinedName_trailing_slash :
    confinedName "job-1/" = true ∧ '/' ∈ "job-1/".toList ∧
      join "jobs" (Site.handleJobSubmission.fileName "job-1/") = "jobs/submitted-job-1/.desc.json" ∧
      ¬DirectChild "jobs" (join "jobs" (Site.handleJobSubmission.fileName "job-1/")) := by
  have haccepted : confinedName "job-1/" = true := by decide
  have hpath : components (join "jobs" (Site.handleJobSubmission.fileName "job-1/"))
      = [.normal "jobs".toList, .normal "submitted-job-1".toList, .normal ".desc.json".toList] := by
    decide
  refine ⟨haccepted, by decide, by decide, ?_⟩
  rintro ⟨name, hname⟩
  rw [hpath] at hname
  cases hname

end Provework.Coordinator
