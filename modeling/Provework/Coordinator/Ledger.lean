import Mathlib.Algebra.BigOperators.Group.List.Basic
import Mathlib.Data.BitVec
import Std.Data.ExtTreeMap
import Provework.Lib.History

/-!
# The bond ledger (`crates/coordinator/src/ledger.rs`, `finish_ledger` of `net.rs`)

Every finished job loads the ledger, books its deltas and saves it. The three
steps can fail on their own: a load that fails is answered with an empty ledger,
a save that fails with a line in the log. `Kept` says what the file must hold
after each save that succeeds, and `ledger_kept_iff` when it does: as long as
nothing fails, and not after.

Modelling notes:
- The file is what `load` would make of it. `serde_json` reads back what it wrote
  and takes no document that was cut short.
- `i64` is `BitVec 64`; the build wraps on overflow.
-/

namespace Provework.Coordinator

open Provework.Lib

abbrev I64 := BitVec 64

structure LedgerEntry where
  jobId : String
  decision : String
  deltas : List (String × I64)
  deriving DecidableEq, Repr

structure Ledger where
  balances : Std.ExtTreeMap String I64
  history : List LedgerEntry

/-- What is at the path of the ledger. -/
inductive LedgerFile where
  | missing
  | ledger (l : Ledger)
  | unparsable (error : String)

/-- How `std::fs::write` ends. -/
inductive LedgerWrite where
  | ok
  /-- The file was not opened. -/
  | refused (error : String)
  /-- It was emptied and written in part. -/
  | cut (error : String)
  deriving DecidableEq, Repr

namespace Ledger

def empty : Ledger := ⟨∅, []⟩

/-- The file, or why it was not read this time. -/
def load (file : LedgerFile) (failure : Option String) : Except String Ledger :=
  match failure with
  | some e => .error ("ledger: " ++ e)
  | none =>
    match file with
    | .missing => .ok empty
    | .ledger l => .ok l
    | .unparsable e => .error ("ledger: " ++ e)

def save (l : Ledger) (file : LedgerFile) : LedgerWrite → LedgerFile
  | .ok => .ledger l
  | .refused _ => file
  | .cut e => .unparsable e

/-- `*balances.entry(id).or_insert(0) += delta`. -/
def credit (balances : Std.ExtTreeMap String I64) (p : String × I64) : Std.ExtTreeMap String I64 :=
  balances.insert p.1 (balances.getD p.1 0 + p.2)

def apply (l : Ledger) (jobId decision : String) (deltas : List (String × I64)) : Ledger :=
  { balances := deltas.foldl credit l.balances
    history := l.history ++ [⟨jobId, decision, deltas⟩] }

def balance (l : Ledger) (wid : String) : I64 := l.balances.getD wid 0

end Ledger

/-- A finished job, and what the file system answers this time. -/
structure LedgerCall where
  jobId : String
  deltas : List (String × I64)
  loadFailure : Option String
  write : LedgerWrite
  deriving DecidableEq, Repr

/-- The ledger a call goes on with. -/
def LedgerCall.loaded (c : LedgerCall) (file : LedgerFile) : Ledger :=
  match Ledger.load file c.loadFailure with
  | .ok l => l
  | .error _ => .empty

/-- A call books its job into a ledger. -/
def LedgerCall.book (l : Ledger) (c : LedgerCall) : Ledger := l.apply c.jobId "network-run" c.deltas

def finishLedger (file : LedgerFile) (c : LedgerCall) : LedgerFile :=
  (c.book (c.loaded file)).save file c.write

/-! ## What the file must hold -/

/-- The sum of what `deltas` has for one worker. -/
def deltaOf (wid : String) (deltas : List (String × I64)) : I64 :=
  ((deltas.filter fun p => p.1 = wid).map Prod.snd).sum

/-- Balances are the sums over the history. -/
def Ledger.Adds (l : Ledger) : Prop :=
  ∀ wid, l.balance wid = deltaOf wid (l.history.flatMap (·.deltas))

/-- The ledger `l₀` with all the calls booked. -/
structure Ledger.Holds (l₀ : Ledger) (calls : List LedgerCall) (l : Ledger) : Prop where
  balances : ∀ wid, l.balance wid = l₀.balance wid + deltaOf wid (calls.flatMap (·.deltas))
  history : l.history = l₀.history ++ calls.map fun c => ⟨c.jobId, "network-run", c.deltas⟩
  adds : l₀.Adds → l.Adds

/-- After every save that succeeds, the file holds all jobs so far. -/
def Kept (l₀ : Ledger) (file : LedgerFile) (calls : List LedgerCall) : Prop :=
  ∀ pre c, pre ++ [c] <+: calls → c.write = .ok →
    ∃ l, stateAfter finishLedger file (pre ++ [c]) = .ledger l ∧ l₀.Holds (pre ++ [c]) l

/-- A ledger with nothing in it. -/
structure Ledger.Blank (l : Ledger) : Prop where
  history : l.history = []
  balances : ∀ wid, l.balance wid = 0

/-- Up to every save that succeeds, all saves did, and no load failed but perhaps
the first, of an empty ledger. -/
def Undisturbed (l₀ : Ledger) (calls : List LedgerCall) : Prop :=
  ∀ pre c, pre ++ [c] <+: calls → c.write = .ok →
    (∀ c' ∈ pre, c'.write = .ok) ∧
    ∀ pre' c', pre' ++ [c'] <+: pre ++ [c] → c'.loadFailure = none ∨ pre' = [] ∧ l₀.Blank

/-! ## Booking -/

section

variable {l l₀ : Ledger} {calls : List LedgerCall}

theorem deltaOf_append (wid : String) (ds ds' : List (String × I64)) :
    deltaOf wid (ds ++ ds') = deltaOf wid ds + deltaOf wid ds' := by
  rw [deltaOf, List.filter_append, List.map_append, List.sum_append]
  rfl

theorem getD_credits (wid : String) (deltas : List (String × I64)) :
    ∀ balances : Std.ExtTreeMap String I64,
      (deltas.foldl Ledger.credit balances).getD wid 0
        = balances.getD wid 0 + deltaOf wid deltas := by
  induction deltas with
  | nil =>
    intro balances
    exact (BitVec.add_zero _).symm
  | cons p deltas ih =>
    intro balances
    rw [List.foldl_cons, ih, Ledger.credit, Std.ExtTreeMap.getD_insert]
    by_cases hp : p.1 = wid
    · have hcons : deltaOf wid (p :: deltas) = p.2 + deltaOf wid deltas := by
        simp [deltaOf, hp]
      rw [hcons, if_pos (by simp [hp]), hp, BitVec.add_assoc]
    · have hcons : deltaOf wid (p :: deltas) = deltaOf wid deltas := by
        simp [deltaOf, hp]
      rw [hcons, if_neg (by simp [hp])]

theorem balance_book (l : Ledger) (c : LedgerCall) (wid : String) :
    (c.book l).balance wid = l.balance wid + deltaOf wid c.deltas :=
  getD_credits wid c.deltas l.balances

theorem Ledger.Holds.refl (l : Ledger) : l.Holds [] l := by
  refine ⟨fun wid => ?_, ?_, id⟩
  · exact (BitVec.add_zero _).symm
  · exact (List.append_nil _).symm

/-- Booking one more job. -/
theorem Ledger.Holds.book (h : l₀.Holds calls l) (c : LedgerCall) :
    l₀.Holds (calls ++ [c]) (c.book l) := by
  have hdeltas : (calls ++ [c]).flatMap (·.deltas) = calls.flatMap (·.deltas) ++ c.deltas := by
    rw [List.flatMap_append, List.flatMap_singleton]
  refine ⟨fun wid => ?_, ?_, fun hadds wid => ?_⟩
  · rw [balance_book, h.balances, hdeltas, deltaOf_append, BitVec.add_assoc]
  · show l.history ++ [_] = _
    rw [h.history, List.map_append, List.append_assoc]
    rfl
  · have hhistory : (c.book l).history.flatMap (·.deltas)
        = l.history.flatMap (·.deltas) ++ c.deltas := by
      show (l.history ++ [_]).flatMap _ = _
      rw [List.flatMap_append, List.flatMap_singleton]
    rw [balance_book, h.adds hadds wid, hhistory, deltaOf_append]

/-- An empty ledger is as good as a blank one. -/
theorem Ledger.Blank.holds (h : l₀.Blank) : l₀.Holds [] .empty := by
  refine ⟨fun wid => ?_, ?_, fun _ wid => ?_⟩
  · rw [h.balances]
    exact Std.ExtTreeMap.getD_empty
  · rw [h.history]
    rfl
  · exact Std.ExtTreeMap.getD_empty

end

/-! ## Runs of calls -/

/-- The number of jobs in the file. -/
def LedgerFile.entries : LedgerFile → Nat
  | .ledger l => l.history.length
  | _ => 0

section

variable {l₀ : Ledger} {file : LedgerFile} {calls : List LedgerCall}

theorem finishLedger_of_ok {c : LedgerCall} (h : c.write = .ok) :
    finishLedger file c = .ledger (c.book (c.loaded file)) := by
  rw [finishLedger, h]
  rfl

theorem length_book (l : Ledger) (c : LedgerCall) :
    (c.book l).history.length = l.history.length + 1 :=
  List.length_append

theorem length_loaded_le (file : LedgerFile) (c : LedgerCall) :
    (c.loaded file).history.length ≤ file.entries := by
  rw [LedgerCall.loaded]
  rcases c.loadFailure with _ | e
  · cases file <;> exact Nat.le_refl _
  · exact Nat.zero_le _

/-- A save that fails adds nothing to the file. -/
theorem entries_finishLedger_of_failed (file : LedgerFile) {c : LedgerCall} (h : c.write ≠ .ok) :
    (finishLedger file c).entries ≤ file.entries := by
  rw [finishLedger]
  rcases hw : c.write with _ | e | e
  · exact absurd hw h
  · exact Nat.le_refl _
  · exact Nat.zero_le _

theorem entries_finishLedger_le (file : LedgerFile) (c : LedgerCall) :
    (finishLedger file c).entries ≤ file.entries + 1 := by
  by_cases h : c.write = .ok
  · rw [finishLedger_of_ok h]
    show (c.book _).history.length ≤ _
    rw [length_book]
    exact Nat.succ_le_succ (length_loaded_le file c)
  · exact Nat.le_succ_of_le (entries_finishLedger_of_failed file h)

/-- A load that fails forgets every job before. -/
theorem entries_finishLedger_of_unread (file : LedgerFile) {c : LedgerCall} (hw : c.write = .ok)
    (hl : c.loadFailure ≠ none) : (finishLedger file c).entries = 1 := by
  rw [finishLedger_of_ok hw]
  show (c.book _).history.length = 1
  rw [length_book, LedgerCall.loaded]
  rcases hf : c.loadFailure with _ | e
  · exact absurd hf hl
  · rfl

theorem entries_stateAfter_le (file : LedgerFile) (calls : List LedgerCall) :
    (stateAfter finishLedger file calls).entries ≤ file.entries + calls.length := by
  induction calls generalizing file with
  | nil => exact Nat.le_refl _
  | cons c calls ih =>
    have hrest := ih (finishLedger file c)
    have hfirst := entries_finishLedger_le file c
    rw [List.length_cons]
    show (stateAfter finishLedger (finishLedger file c) calls).entries ≤ _
    omega

theorem entries_of_load (h : Ledger.load file none = .ok l₀) :
    file.entries = l₀.history.length := by
  cases file with
  | missing =>
    cases h
    rfl
  | ledger l =>
    cases h
    rfl
  | unparsable e => cases h

/-- While nothing fails, the file gives back the ledger with all jobs booked. -/
theorem load_stateAfter (h₀ : Ledger.load file none = .ok l₀) (pre : List LedgerCall) :
    (∀ c ∈ pre, c.write = .ok) →
    (∀ pre' c', pre' ++ [c'] <+: pre → c'.loadFailure = none ∨ pre' = [] ∧ l₀.Blank) →
    ∃ l, Ledger.load (stateAfter finishLedger file pre) none = .ok l ∧ l₀.Holds pre l := by
  induction pre using List.reverseRecOn with
  | nil => exact fun _ _ => ⟨l₀, h₀, .refl l₀⟩
  | append_singleton pre c ih =>
    intro hwrites hloads
    obtain ⟨l, hl, hholds⟩ := ih (fun c' hc' => hwrites c' (List.mem_append_left _ hc'))
      fun pre' c' hpre => hloads pre' c' (hpre.trans (List.prefix_append _ _))
    have hw : c.write = .ok := hwrites c (List.mem_append_right _ List.mem_cons_self)
    rw [stateAfter_concat, finishLedger_of_ok hw]
    refine ⟨_, rfl, Ledger.Holds.book ?_ c⟩
    rw [LedgerCall.loaded]
    rcases hf : c.loadFailure with _ | e
    · rw [hl]
      exact hholds
    · -- the load failed, so this is the first call, and there was nothing to lose
      rcases hloads pre c (List.prefix_refl _) with hc | ⟨rfl, hblank⟩
      · exact absurd (hf.symm.trans hc) nofun
      · exact hblank.holds

/-- A call whose job is in the file after more calls has saved, and has loaded
unless it was the first. -/
theorem undisturbed_of_entries (h₀ : Ledger.load file none = .ok l₀) (pre post : List LedgerCall)
    (c : LedgerCall) (h : (stateAfter finishLedger file (pre ++ [c] ++ post)).entries =
      l₀.history.length + (pre ++ [c] ++ post).length) :
    c.write = .ok ∧ (c.loadFailure = none ∨ pre = [] ∧ l₀.history = []) := by
  have hbefore := entries_stateAfter_le file pre
  have hafter := entries_stateAfter_le (finishLedger (stateAfter finishLedger file pre) c) post
  have hsplit : stateAfter finishLedger file (pre ++ [c] ++ post)
      = stateAfter finishLedger (finishLedger (stateAfter finishLedger file pre) c) post := by
    rw [← stateAfter_concat finishLedger, stateAfter, List.foldl_append]
    rfl
  have hentries := entries_of_load h₀
  simp only [hsplit, List.length_append, List.length_singleton] at h
  have hw : c.write = .ok := by
    by_contra hfailed
    have hstill := entries_finishLedger_of_failed (stateAfter finishLedger file pre) hfailed
    omega
  refine ⟨hw, or_iff_not_imp_left.mpr fun hunread => ?_⟩
  have hone := entries_finishLedger_of_unread (stateAfter finishLedger file pre) hw hunread
  exact ⟨List.eq_nil_of_length_eq_zero (by omega), List.eq_nil_of_length_eq_zero (by omega)⟩

/-- A first job that is booked right without a load says that there was nothing
to load. -/
theorem blank_of_holds {c : LedgerCall} (hhistory : l₀.history = [])
    (h : l₀.Holds [c] (c.book .empty)) : l₀.Blank := by
  refine ⟨hhistory, fun wid => ?_⟩
  have hbalance := h.balances wid
  rw [List.flatMap_singleton, balance_book] at hbalance
  exact (BitVec.add_left_inj _ |>.mp hbalance.symm).trans Std.ExtTreeMap.getD_empty

theorem Ledger.Holds.length {l : Ledger} (h : l₀.Holds calls l) :
    l.history.length = l₀.history.length + calls.length := by
  rw [h.history, List.length_append, List.length_map]

/-- Nothing fails at all. -/
theorem undisturbed_of_forall (h : ∀ c ∈ calls, c.write = .ok ∧ c.loadFailure = none) :
    Undisturbed l₀ calls := by
  intro pre c hpre _
  refine ⟨fun c' hc' => ?_, fun pre' c' hpre' => ?_⟩
  · exact (h c' (hpre.mem (List.mem_append_left _ hc'))).1
  · exact .inl (h c' (hpre.mem (hpre'.mem (List.mem_append_right _ List.mem_cons_self)))).2

/-- If the first call could not read the ledger, it saved what it made of an empty one. -/
theorem blank_of_kept {c : LedgerCall} (hkept : Kept l₀ file calls) (hfirst : [] ++ [c] <+: calls)
    (hw : c.write = .ok) (hload : c.loadFailure ≠ none) (hhistory : l₀.history = []) :
    l₀.Blank := by
  obtain ⟨l, hfile, hholds⟩ := hkept [] c hfirst hw
  have hloaded : c.loaded file = .empty := by
    obtain ⟨e, he⟩ := Option.ne_none_iff_exists'.mp hload
    rw [LedgerCall.loaded, he]
    rfl
  rw [stateAfter_concat, finishLedger_of_ok hw] at hfile
  have hl : c.book .empty = l := by
    rw [← hloaded]
    exact LedgerFile.ledger.inj hfile
  exact blank_of_holds hhistory (hl ▸ hholds)

/-- From a file that holds a ledger, every save that succeeds leaves the ledger of
all jobs so far — balances, history and their agreement — exactly if nothing has
failed up to it. -/
theorem ledger_kept_iff (h₀ : Ledger.load file none = .ok l₀) :
    Kept l₀ file calls ↔ Undisturbed l₀ calls := by
  constructor
  · intro hkept pre c hpre hw
    have hcounts : ∀ mid c' post, mid ++ [c'] ++ post = pre ++ [c] →
        c'.write = .ok ∧ (c'.loadFailure = none ∨ mid = [] ∧ l₀.history = []) := by
      intro mid c' post heq
      obtain ⟨l, hfile, hholds⟩ := hkept pre c hpre hw
      refine undisturbed_of_entries h₀ mid post c' ?_
      rw [heq, hfile, ← hholds.length]
      rfl
    constructor
    · intro c' hc'
      obtain ⟨mid, post, rfl⟩ := List.append_of_mem hc'
      exact (hcounts mid c' (post ++ [c]) (by simp)).1
    · rintro mid c' ⟨post, heq⟩
      obtain ⟨hw', hload | ⟨rfl, hhistory⟩⟩ := hcounts mid c' post heq
      · exact .inl hload
      · by_cases hload : c'.loadFailure = none
        · exact .inl hload
        · have hfirst : [] ++ [c'] <+: calls :=
            (heq ▸ List.prefix_append ([] ++ [c']) post).trans hpre
          exact .inr ⟨rfl, blank_of_kept hkept hfirst hw' hload hhistory⟩
  · intro hundisturbed pre c hpre hw
    obtain ⟨hwrites, hloads⟩ := hundisturbed pre c hpre hw
    obtain ⟨l, hl, hholds⟩ := load_stateAfter h₀ (pre ++ [c]) (by
      intro c' hc'
      rcases List.mem_append.mp hc' with hc' | hc'
      · exact hwrites c' hc'
      · rw [List.mem_singleton.mp hc']
        exact hw) hloads
    rw [stateAfter_concat, finishLedger_of_ok hw] at hl ⊢
    exact ⟨l, congrArg LedgerFile.ledger (Except.ok.inj hl), hholds⟩

end

/-- A ledger with one job, and a call for another. -/
def firstBooked : Ledger := Ledger.empty.apply "job-1" "network-run" [("w-a", 10), ("w-b", -100)]

def bookedCall (jobId : String) (loadFailure : Option String) : LedgerCall :=
  ⟨jobId, [("w-a", 10)], loadFailure, .ok⟩

theorem ledger_kept_two :
    Kept firstBooked (.ledger firstBooked) [bookedCall "job-2" none, bookedCall "job-3" none] :=
  (ledger_kept_iff rfl).mpr (undisturbed_of_forall (by decide))

/-- The ledger could not be read for the second job: its save overwrites the first
one, whose deltas are gone from the balances and from the history. -/
theorem ledger_overwritten :
    stateAfter finishLedger (.ledger firstBooked)
      [bookedCall "job-2" (some "Input/output error (os error 5)")]
      = .ledger (Ledger.empty.apply "job-2" "network-run" [("w-a", 10)]) ∧
    ¬ Kept firstBooked (.ledger firstBooked)
      [bookedCall "job-2" (some "Input/output error (os error 5)")] := by
  refine ⟨rfl, fun hkept => ?_⟩
  obtain ⟨l, hfile, hholds⟩ := hkept [] _ (List.prefix_refl _) rfl
  have hlength := hholds.length
  rw [← LedgerFile.ledger.inj hfile] at hlength
  exact absurd hlength (by decide)

end Provework.Coordinator
