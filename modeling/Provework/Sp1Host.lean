import Provework.Coordinator.NetJudge

/-!
# The zkVM and its two processes (`sp1-host`)

`zk-judge` proves a job and `zk-verify` checks a receipt. A legacy job is proved
over the emulator guest, an SP1-native one over its own program; the verifier is
told which program to expect. `zkVerify_judged` says which receipts of the judge
the verifier accepts, and what it reports of them.

Modelling notes:
- The SDK is a parameter (`Zkvm`), and `Zkvm.Sound` is what is assumed of it.
- A process that panics or fails has printed no verdict; why is left out.
- A receipt is the content of its file.
-/

namespace Provework.Sp1Host

open Provework.Lib Provework.Jobfmt Provework.Contentstore Provework.Rvcore Provework.Coordinator

/-- What a guest commits, as it is read back. -/
structure Committed where
  binding : List Hash
  status : U32
  instructions : U64
  chain : List Hash
  output : List U8
  deriving DecidableEq

/-- The SDK, with public values as bytes. -/
structure Zkvm where
  /-- The public values and the cycles of a program on its input. -/
  execute : List U8 → List (List U8) → Option (List U8 × U64)
  /-- The receipt of a program on its input. -/
  prove : List U8 → List (List U8) → Option (List U8)
  /-- The public values in a receipt. -/
  load : List U8 → Option (List U8)
  /-- Whether a receipt verifies under the key of a program. -/
  verify : List U8 → List U8 → Bool
  /-- What the emulator guest commits. -/
  readEmulator : List U8 → Option Committed
  /-- The input id and the output an SP1-native guest commits. -/
  readGuest : List U8 → Option (Hash × List U8)

/-- Public values per format; a native guest has no status and no count. -/
def Zkvm.committed (vm : Zkvm) (v2 : Bool) (values : List U8) : Option Committed :=
  if v2 then
    (vm.readGuest values).map fun (inputId, output) =>
      { binding := [inputId], status := 0, instructions := v2JournalCount, chain := [], output }
  else vm.readEmulator values

/-- A receipt carries the values of its execution, verifies under the key of its
program alone, and is not an empty file. -/
structure Zkvm.Sound (vm : Zkvm) : Prop where
  values {elf receipt values : List U8} {stdin : List (List U8)} {cycles : U64} :
    vm.execute elf stdin = some (values, cycles) → vm.prove elf stdin = some receipt →
      vm.load receipt = some values
  verify_iff {elf receipt : List U8} {stdin : List (List U8)} :
    vm.prove elf stdin = some receipt → ∀ elf', vm.verify receipt elf' = true ↔ elf' = elf
  empty : vm.load [] = none

/-! ## `zk-judge` -/

structure ZkJob where
  manifestBytes : List U8
  manifest : JobManifest
  elf : List U8
  input : List U8

namespace ZkJob

def v2 (job : ZkJob) : Bool := job.manifest.isSp1V2

/-- The program that is executed in the zkVM. -/
def execElf (job : ZkJob) (guestElf : Option (List U8)) : Option (List U8) :=
  if job.v2 then some job.elf else guestElf

def stdin (job : ZkJob) : List (List U8) :=
  if job.v2 then [job.input] else [job.manifestBytes, job.elf, job.input]

/-- The ids the guest has to commit. -/
def binding (blake3 : List U8 → Hash) (job : ZkJob) : List Hash :=
  if job.v2 then
    [blake3 job.input] else [blake3 job.manifestBytes, blake3 job.elf, blake3 job.input]

end ZkJob

def loadJob (readManifest : List U8 → Option JobManifest) (dir : Dir) : Option ZkJob := do
  let manifestBytes ← dir "job.json"
  let manifest ← readManifest manifestBytes
  let elf ← dir manifest.elf
  let input ← dir manifest.input
  return { manifestBytes, manifest, elf, input }

/-- The `rvcore` linked into the judge agrees; there is none for a native guest. -/
def crossCheck (blake3 : List U8 → Hash) (job : ZkJob) (c : Committed) : Bool :=
  job.v2 ||
    match executed blake3 job.manifest job.elf job.input with
    | some (some out) =>
      statusCode out.status = c.status && BitVec.ofNat 64 out.instructions = c.instructions
        && out.output.getD [] = c.output
    | _ => false

/-- The proved values are the executed ones. A legacy binding is not compared again. -/
def proofMatches (blake3 : List U8 → Hash) (job : ZkJob) (c p : Committed) : Bool :=
  if job.v2 then p.binding = job.binding blake3 && p.output = c.output
  else p.status = c.status && p.instructions = c.instructions && p.output = c.output

def verdictOf (c : Committed) : JudgeVerdict :=
  { ok := true
    error := none
    status := some c.status
    instructions := some c.instructions
    outputHex := some (hex c.output)
    binding := some (c.binding.map fun h => hex (List.ofFn h)) }

/-- `run` of `zk-judge` on a job that is loaded: the verdict and the receipt. -/
def judgeJob (blake3 : List U8 → Hash) (vm : Zkvm) (maxCycles : U64) (guestElf : Option (List U8))
    (job : ZkJob) : Option (JudgeVerdict × List U8) := do
  let elf ← job.execElf guestElf
  let (values, vmCycles) ← vm.execute elf job.stdin
  if maxCycles < vmCycles then none
  else
    let c ← vm.committed job.v2 values
    if c.binding ≠ job.binding blake3 then none
    else if !crossCheck blake3 job c then none
    else
      let receipt ← vm.prove elf job.stdin
      if !vm.verify receipt elf then none
      else
        let p ← (vm.load receipt).bind (vm.committed job.v2)
        if !proofMatches blake3 job c p then none
        else return (verdictOf c, receipt)

/-! ## `zk-verify` -/

def outcomeOf (c : Committed) : ReceiptOutcome :=
  { status := c.status.toNat
    instructions := c.instructions
    chunkHashes := c.chain.map fun h => hex (List.ofFn h)
    outputHex := hex c.output }

/-- `run` of `zk-verify` with the ids of a job; of a native receipt the third alone
is compared. -/
def zkVerify (vm : Zkvm) (guestElf : Option (List U8)) (receipt : List U8)
    (bindingHex : List String) (v2 : Bool) : Option ReceiptOutcome := do
  let expected ← bindingHex.mapM fun s => (fromHex s 32).toOption
  let values ← vm.load receipt
  let guest ← guestElf
  let c ← vm.committed v2 values
  if (c.binding.map fun h => List.ofFn h) ≠ (if v2 then expected.drop 2 else expected) then none
  else if !vm.verify receipt guest then none
  else return outcomeOf c

/-! ## What the verifier makes of the judge's receipts -/

section

variable {blake3 : List U8 → Hash} {vm : Zkvm} {guestElf : Option (List U8)} {job : ZkJob}
  {receipt : List U8}

/-- A receipt of `job` in which the guest committed `c`. -/
structure Judged (blake3 : List U8 → Hash) (vm : Zkvm) (guestElf : Option (List U8)) (job : ZkJob)
    (c : Committed) (elf receipt : List U8) : Prop where
  program : job.execElf guestElf = some elf
  proved : vm.prove elf job.stdin = some receipt
  values : (vm.load receipt).bind (vm.committed job.v2) = some c
  binding : c.binding = job.binding blake3

/-- Whatever else the judge checks, a verdict is what the guest committed. -/
theorem judgeJob_some (hvm : vm.Sound) {maxCycles : U64} {verdict : JudgeVerdict}
    (h : judgeJob blake3 vm maxCycles guestElf job = some (verdict, receipt)) :
    ∃ c elf, verdict = verdictOf c ∧ Judged blake3 vm guestElf job c elf receipt := by
  obtain ⟨elf, helf, h⟩ := Option.bind_eq_some_iff.mp h
  obtain ⟨⟨values, vmCycles⟩, hexec, h⟩ := Option.bind_eq_some_iff.mp h
  dsimp only at h
  split at h
  · cases h
  obtain ⟨c, hc, h⟩ := Option.bind_eq_some_iff.mp h
  split at h
  · cases h
  next hbinding =>
  split at h
  · cases h
  obtain ⟨receipt', hproved, h⟩ := Option.bind_eq_some_iff.mp h
  split at h
  · cases h
  obtain ⟨p, -, h⟩ := Option.bind_eq_some_iff.mp h
  split at h
  · cases h
  cases h
  refine ⟨c, elf, rfl, helf, hproved, ?_, not_not.mp hbinding⟩
  rw [hvm.values hexec hproved, Option.bind_some, hc]

/-- The ids of the job are decoded from upper-case hex. -/
theorem mapM_fromHex_hexUpper : ∀ (ids : List (List U8)), (∀ id ∈ ids, id.length = 32) →
    (ids.map hexUpper).mapM (fun s => (fromHex s 32).toOption) = some ids := by
  intro ids
  induction ids with
  | nil => exact fun _ => rfl
  | cons id ids ih =>
    intro hlength
    have hid := fromHex_hexUpper id
    rw [hlength id List.mem_cons_self] at hid
    rw [List.map_cons, List.mapM_cons, hid,
      ih fun id' hid' => hlength id' (List.mem_cons_of_mem _ hid')]
    rfl

/-- The verifier accepts a receipt of the judge for the ids of its job exactly if
it is given the program that was proved: for a native job that of the job itself. -/
theorem zkVerify_judged (hvm : vm.Sound) {c : Committed} {elf : List U8}
    (h : Judged blake3 vm guestElf job c elf receipt) {ids : List (List U8)}
    (hlength : ∀ id ∈ ids, id.length = 32)
    (hids : ((job.binding blake3).map fun h => List.ofFn h) = if job.v2 then ids.drop 2 else ids) :
    zkVerify vm guestElf receipt (ids.map hexUpper) job.v2 =
      if job.v2 = true → guestElf = some job.elf then some (outcomeOf c) else none := by
  obtain ⟨values, hload, hc⟩ := Option.bind_eq_some_iff.mp h.values
  simp only [zkVerify, mapM_fromHex_hexUpper ids hlength, hload, bind, Option.bind_some]
  cases hguest : guestElf with
  | none =>
    -- only a native job is proved without the guest
    have hv2 : job.v2 = true := by
      by_contra hv2
      have helf := h.program
      rw [ZkJob.execElf, if_neg hv2, hguest] at helf
      cases helf
    rw [Option.bind_none, if_neg fun himp => nomatch himp hv2]
  | some guest =>
    have hverify : vm.verify receipt guest = true ↔
        (job.v2 = true → some guest = some job.elf) := by
      rw [hvm.verify_iff h.proved]
      have helf := h.program
      rw [ZkJob.execElf, hguest] at helf
      by_cases hv2 : job.v2 = true
      · rw [if_pos hv2] at helf
        cases helf
        exact ⟨fun heq _ => congrArg some heq, fun himp => Option.some.inj (himp hv2)⟩
      · rw [if_neg hv2] at helf
        exact ⟨fun _ hv2' => absurd hv2' hv2, fun _ => Option.some.inj helf⟩
    rw [Option.bind_some, hc, Option.bind_some, h.binding, if_neg (not_not.mpr hids)]
    by_cases hok : vm.verify receipt guest = true
    · rw [if_pos (hverify.mp hok), hok]
      rfl
    · rw [if_neg fun himp => hok (hverify.mpr himp), Bool.eq_false_iff.mpr hok]
      rfl

end

end Provework.Sp1Host
