import Provework.Jobfmt

/-!
# What a signature on a result binds (`signing_message` of `crates/jobfmt/src/lib.rs`)

The message is the fields of a result one after the other, each string behind its
length. The chunk hashes stand there without a count, but they are followed by
exactly two more records, the output and the trap, and then the message ends. So
they can be told apart, and `signingMessage_eq_iff` says how much of a result can be
read back: all of it, except that an absent field and an empty one are written alike.
-/

namespace Provework.Jobfmt

open Provework.Lib

/-- The strings that go into the message. -/
def WorkerResult.strings (r : WorkerResult) : List String :=
  [r.workerId, r.jobId, r.status, r.resultHash] ++ r.chunkHashes ++ r.outputHex.toList
    ++ r.trap.toList

/-- Its length fits the `u32` it is written in. -/
def Fits (s : String) : Prop := (utf8 s).length < 2 ^ 32

instance (s : String) : Decidable (Fits s) := inferInstanceAs (Decidable (_ < _))

/-- Equal, or absent the one and empty the other. -/
def Alike (x y : Option String) : Prop :=
  x = y ∨ (x = none ∧ y = some "") ∨ (x = some "" ∧ y = none)

theorem alike_iff {x y : Option String} : Alike x y ↔ x.getD "" = y.getD "" := by
  cases x with
  | none =>
    cases y with
    | none => simp [Alike]
    | some t => simp [Alike, eq_comm]
  | some s =>
    cases y with
    | none => simp [Alike]
    | some t => simp [Alike]

theorem delimited_put : Delimited Fits fun s => put (utf8 s) :=
  (delimited_prefixed 4).comp utf8_injective

theorem delimited_count : Delimited (fun _ => True) fun n : U64 => leBytes 8 n.toNat :=
  delimited_of_width (fun _ => length_leBytes _ _) fun _ _ _ _ h =>
    leBytes_toNat_inj (Nat.le_refl _) h

theorem put_ne_nil (b : List U8) : put b ≠ [] := List.cons_ne_nil _ _

/-- Absence is written as the empty string. -/
theorem putOption_eq (o : Option String) : putOption o = put (utf8 (o.getD "")) := by
  cases o with
  | none => rfl
  | some s => rfl

/-- What stands behind the hash of the result. -/
def WorkerResult.rest (r : WorkerResult) : List String :=
  r.chunkHashes ++ [r.outputHex.getD "", r.trap.getD ""]

/-- The message as a sequence of records. -/
theorem signingMessage_records (r : WorkerResult) : signingMessage r =
    put (utf8 r.workerId) ++ (put (utf8 r.jobId) ++ (put (utf8 r.status) ++
      (leBytes 8 r.instructions.toNat ++ (put (utf8 r.resultHash) ++
        r.rest.flatMap fun s => put (utf8 s))))) := by
  simp [signingMessage, WorkerResult.rest, putOption_eq]

theorem rest_fits {r : WorkerResult} (h : ∀ s ∈ r.strings, Fits s) : ∀ s ∈ r.rest, Fits s := by
  have hoption : ∀ o : Option String, (∀ s ∈ o.toList, Fits s) → Fits (o.getD "") := by
    intro o ho
    cases o with
    | none => decide
    | some s => exact ho s (List.mem_singleton_self s)
  simp only [WorkerResult.strings, List.forall_mem_append] at h
  obtain ⟨⟨⟨-, hhashes⟩, houtput⟩, htrap⟩ := h
  simp only [WorkerResult.rest, List.forall_mem_append, List.forall_mem_cons]
  exact ⟨hhashes, hoption _ houtput, hoption _ htrap, List.forall_mem_nil _⟩

/-- Two results have one message exactly if they agree in every field, up to a field
that the one leaves out and the other leaves empty. -/
theorem signingMessage_eq_iff (r r' : WorkerResult) (hr : ∀ s ∈ r.strings, Fits s)
    (hr' : ∀ s ∈ r'.strings, Fits s) :
    signingMessage r = signingMessage r' ↔
      r.workerId = r'.workerId ∧ r.jobId = r'.jobId ∧ r.status = r'.status ∧
        r.instructions = r'.instructions ∧ r.resultHash = r'.resultHash ∧
        r.chunkHashes = r'.chunkHashes ∧ Alike r.outputHex r'.outputHex ∧ Alike r.trap r'.trap := by
  rw [signingMessage_records, signingMessage_records, alike_iff, alike_iff]
  constructor
  · intro h
    have hrest := rest_fits hr
    have hrest' := rest_fits hr'
    simp only [WorkerResult.strings, List.cons_append, List.forall_mem_cons] at hr hr'
    -- the records come off from the front, each up to where it says it ends
    obtain ⟨hworker, h⟩ := delimited_put hr.1 hr'.1 h
    obtain ⟨hjob, h⟩ := delimited_put hr.2.1 hr'.2.1 h
    obtain ⟨hstatus, h⟩ := delimited_put hr.2.2.1 hr'.2.2.1 h
    obtain ⟨hcount, h⟩ := delimited_count trivial trivial h
    obtain ⟨hresult, h⟩ := delimited_put hr.2.2.2.1 hr'.2.2.2.1 h
    -- no count says where the hashes stop; but two records follow them
    have hlists := delimited_put.flatMap_inj (fun s => put_ne_nil (utf8 s)) hrest hrest' h
    obtain ⟨hhashes, hlast⟩ := List.append_inj' hlists rfl
    rw [List.cons.injEq, List.cons.injEq] at hlast
    exact ⟨hworker, hjob, hstatus, hcount, hresult, hhashes, hlast.1, hlast.2.1⟩
  · rintro ⟨hworker, hjob, hstatus, hcount, hresult, hhashes, houtput, htrap⟩
    rw [hworker, hjob, hstatus, hcount, hresult, WorkerResult.rest, WorkerResult.rest, hhashes,
      houtput, htrap]

/-- The result the repository tests the message with. -/
def sampleResult : WorkerResult :=
  { workerId := "w", jobId := "j", status := "halted", instructions := 7, resultHash := "aa"
    chunkHashes := ["aa", "bb"], outputHex := some "cc", trap := none
    pubkeyHex := some "pk", sigHex := some "sig" }

theorem signingMessage_binds_sample :
    signingMessage sampleResult ≠ signingMessage { sampleResult with chunkHashes := ["aa"] } := by
  intro h
  have hiff := signingMessage_eq_iff sampleResult { sampleResult with chunkHashes := ["aa"] }
    (by decide +kernel) (by decide +kernel)
  obtain ⟨-, -, -, -, -, hhashes, -⟩ := hiff.mp h
  exact absurd hhashes (by decide)

/-- A job without output: whether it reported an empty one is not in the message. -/
theorem signingMessage_blurs_empty :
    signingMessage { sampleResult with outputHex := some "" }
        = signingMessage { sampleResult with outputHex := none } ∧
      signingMessage { sampleResult with trap := some "" }
        = signingMessage { sampleResult with trap := none } := by
  decide +kernel

end Provework.Jobfmt
