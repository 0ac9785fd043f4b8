import Mathlib.Data.List.ReduceOption
import Provework.Lib.Delivery
import Provework.Wire

/-!
# Frames over a byte stream (`crates/wire/src/lib.rs`)

A message is sent as its JSON behind a four-byte length. `receive_polled` reads
it back with two loops: the first waits for the length and gives up if nothing
came for a while, the second reads the body and must not stall. Both may stop and
go on anywhere, so what matters is that no byte is lost between them, and that
the first loop gives up only with empty hands. `receivePolled_lossless` is what
follows for a whole session, for every way the bytes can arrive.

`serde_json` is a `Codec`: assumed to read back what it wrote.
-/

namespace Provework.Wire

open Provework.Lib

inductive WireError where
  | io (error : String)
  | malformed (reason : String)
  | connectionClosed
  deriving DecidableEq, Repr

/-- The answers of the two clocks a receiver looks at when nothing is there. -/
structure Clock where
  /-- `started_at.elapsed() >= idle`, asked for the length. -/
  idleOver : Bool
  /-- `Instant::now() > deadline`, asked for the body. -/
  overdue : Bool
  deriving DecidableEq, Repr

/-- `MAX_FRAME`. -/
def maxFrame : Nat := 64 * 2 ^ 20

structure Codec (α : Type) where
  encode : α → List U8
  decode : List U8 → Except String α
  decode_encode : ∀ m, decode (encode m) = .ok m

section

variable {α : Type} (codec : Codec α)

/-- Length and body. -/
def Codec.frame (m : α) : List U8 := leBytes 4 (codec.encode m).length ++ codec.encode m

/-- What `send` writes. -/
def send (m : α) : Except WireError (List U8) :=
  let json := codec.encode m
  if maxFrame < json.length then .error (.malformed s!"frame too large: {json.length} bytes")
  else .ok (leBytes 4 json.length ++ json)

def readFrameBody (len : Nat) (d : Delivery Clock) : Except WireError α × Delivery Clock :=
  if maxFrame < len then
    (.error (.malformed s!"peer announced a {len}-byte frame; limit is {maxFrame}"), d)
  else
    match d.fill (fun _ clock => clock.overdue) len [] with
    | (.full body, d) => ((codec.decode body).mapError .malformed, d)
    | (.closed _, d) => (.error .connectionClosed, d)
    | (.quit _ _, d) => (.error (.io "frame body stalled"), d)
    | (.failed _ e, d) => (.error (.io e), d)

def receivePolled (d : Delivery Clock) : Except WireError (Option α) × Delivery Clock :=
  match d.fill (fun got clock => got = 0 && clock.idleOver) 4 [] with
  | (.full len, d) =>
    ((readFrameBody codec (leNat len) d).1.map some, (readFrameBody codec (leNat len) d).2)
  | (.closed _, d) => (.error .connectionClosed, d)
  | (.quit _ _, d) => (.ok none, d)
  | (.failed _ e, d) => (.error (.io e), d)

/-- The results of `n` calls, one after the other. -/
def polls : Nat → Delivery Clock → List (Except WireError (Option α))
  | 0, _ => []
  | n + 1, d => (receivePolled codec d).1 :: polls n (receivePolled codec d).2

/-- The calls return `outs`, one each, and from then on that the stream is closed. -/
def Yields (d : Delivery Clock) (outs : List (Option α)) : Prop :=
  ∀ n, polls codec n d
    = (outs.map Except.ok ++ List.replicate n (Except.error WireError.connectionClosed)).take n

end

/-- No error, and no body stalls for as long as its deadline. -/
structure Timely (d : Delivery Clock) : Prop where
  healthy : d.Healthy
  prompt : ∀ clock, Arrival.blocked clock ∈ d → clock.overdue = false

section

variable {α : Type} {codec : Codec α} {d : Delivery Clock}

theorem Timely.fill (h : Timely d) (quit : Nat → Clock → Bool) (want : Nat) :
    Timely (d.fill quit want []).2 :=
  ⟨h.healthy.fill [], fun clock hmem =>
    h.prompt clock (Delivery.fill_mem (.blocked clock) (fun _ _ => nofun) [] d hmem)⟩

theorem send_eq {m : α} (h : (codec.encode m).length ≤ maxFrame) :
    send codec m = .ok (codec.frame m) :=
  if_neg (Nat.not_lt.mpr h)

/-- The length a frame announces is that of its body. -/
theorem leNat_frame {m : α} (h : (codec.encode m).length ≤ maxFrame) :
    leNat (leBytes 4 (codec.encode m).length) = (codec.encode m).length := by
  rw [leNat_leBytes]
  refine Nat.mod_eq_of_lt (Nat.lt_of_le_of_lt h ?_)
  decide

/-- The body of a message is read to its end and not further. -/
theorem readFrameBody_message (hd : Timely d) {m : α} {rest : List U8}
    (hsize : (codec.encode m).length ≤ maxFrame) (hbytes : d.bytes = codec.encode m ++ rest) :
    ∃ d', readFrameBody codec (codec.encode m).length d = (.ok m, d') ∧ Timely d' ∧
    d'.bytes = rest := by
  unfold readFrameBody
  rw [if_neg (Nat.not_lt.mpr hsize)]
  have hrest := hd.fill (fun _ clock => clock.overdue) (codec.encode m).length
  have hends : Delivery.Ends (fun _ clock => clock.overdue) (codec.encode m).length [] d _ :=
    Delivery.fill_ends [] d (Nat.zero_le _)
  generalize d.fill (fun _ clock => clock.overdue) (codec.encode m).length [] = r at hends hrest
  cases hends with
  | @full out d' hlen hout =>
    rw [List.nil_append, hbytes] at hout
    obtain ⟨rfl, hleft⟩ := List.append_inj hout hlen
    exact ⟨d', by simp only [codec.decode_encode]; rfl, hrest, hleft⟩
  | closed hout hshort =>
    rw [hout, List.nil_append, hbytes, List.length_append] at hshort
    omega
  | quit hclock hquit =>
    rw [hd.prompt _ hclock] at hquit
    cases hquit
  | failed herror => exact absurd herror (hd.healthy _)

/-- What the wait for a length comes to. If it gives up, nothing was read. -/
inductive Waits (d : Delivery Clock) : Delivery.Filled Clock × Delivery Clock → Prop
  | length {len : List U8} {d' : Delivery Clock} (hlen : len.length = 4)
      (hbytes : len ++ d'.bytes = d.bytes) : Waits d (.full len, d')
  | closed {got : List U8} (hshort : d.bytes.length < 4) : Waits d (.closed got, [])
  | idle {got : List U8} {clock : Clock} {d' : Delivery Clock} (hbytes : d'.bytes = d.bytes)
      (hless : d'.length < d.length) : Waits d (.quit got clock, d')
  | failed {got : List U8} {error : String} {d' : Delivery Clock}
      (herror : Arrival.failed error ∈ d) :
      Waits d (.failed got error, d')

theorem fill_waits (d : Delivery Clock) :
    Waits d (d.fill (fun got clock => got = 0 && clock.idleOver) 4 []) := by
  have hends : Delivery.Ends (fun got clock => got = 0 && clock.idleOver) 4 [] d _ :=
    Delivery.fill_ends [] d (Nat.zero_le _)
  generalize d.fill (fun got clock => got = 0 && clock.idleOver) 4 [] = r at hends
  cases hends with
  | full hlen hout => exact .length hlen hout
  | closed hout hshort =>
    rw [hout, List.nil_append] at hshort
    exact .closed hshort
  | @quit out clock d' hclock hquit hout hless =>
    rw [Bool.and_eq_true, decide_eq_true_eq] at hquit
    have hempty : out = [] := List.length_eq_zero_iff.mp hquit.1
    rw [hempty] at hout
    exact .idle hout hless
  | failed herror => exact .failed herror

/-- A call that comes back idle has read nothing, on any stream. -/
theorem receivePolled_idle (h : (receivePolled codec d).1 = .ok none) :
    (receivePolled codec d).2.bytes = d.bytes := by
  have hwaits := fill_waits d
  unfold receivePolled at h ⊢
  generalize d.fill (fun got clock => got = 0 && clock.idleOver) 4 [] = r at h hwaits ⊢
  cases hwaits with
  | @length len d' hlen hbytes =>
    -- a body is a message or an error
    dsimp only at h
    cases hbody : (readFrameBody codec (leNat len) d').1 with
    | error e => rw [hbody] at h; cases h
    | ok m => rw [hbody] at h; cases h
  | closed hshort => cases h
  | idle hbytes hless => exact hbytes
  | failed herror => cases h

/-- A frame that announces too much is refused at its length. -/
theorem receivePolled_oversized (hd : d.Healthy) {len rest : List U8} (hlen : len.length = 4)
    (hbytes : d.bytes = len ++ rest) (hsize : maxFrame < leNat len) :
    (receivePolled codec d).1 = .ok none ∨
      (receivePolled codec d).1 = .error (.malformed
        s!"peer announced a {leNat len}-byte frame; limit is {maxFrame}") ∧
      (receivePolled codec d).2.bytes = rest := by
  have hwaits := fill_waits d
  unfold receivePolled
  generalize d.fill (fun got clock => got = 0 && clock.idleOver) 4 [] = r at hwaits ⊢
  cases hwaits with
  | @length len' d' hlen' hbytes' =>
    rw [hbytes] at hbytes'
    obtain ⟨rfl, hrest⟩ := List.append_inj hbytes' (hlen'.trans hlen.symm)
    dsimp only
    unfold readFrameBody
    rw [if_pos hsize]
    exact Or.inr ⟨rfl, hrest⟩
  | closed hshort =>
    rw [hbytes, List.length_append] at hshort
    omega
  | idle hbytes' hless => exact Or.inl rfl
  | failed herror => exact absurd herror (hd _)

/-- One call on the frames of `ms`: idle and nothing read, the first message and
its frame read, or the end of the stream. -/
inductive Receives (codec : Codec α) (d : Delivery Clock) (ms : List α) :
    Except WireError (Option α) × Delivery Clock → Prop
  | idle {d' : Delivery Clock} (hd' : Timely d') (hbytes : d'.bytes = ms.flatMap codec.frame)
      (hless : d'.length < d.length) : Receives codec d ms (.ok none, d')
  | message {m : α} {rest : List α} {d' : Delivery Clock} (hms : ms = m :: rest) (hd' : Timely d')
      (hbytes : d'.bytes = rest.flatMap codec.frame) : Receives codec d ms (.ok (some m), d')
  | closed (hms : ms = []) : Receives codec d ms (.error .connectionClosed, [])

theorem receivePolled_receives (hd : Timely d) {ms : List α}
    (hsize : ∀ m ∈ ms, (codec.encode m).length ≤ maxFrame)
    (hbytes : d.bytes = ms.flatMap codec.frame) :
    Receives codec d ms (receivePolled codec d) := by
  have hwaits := fill_waits d
  have hrest := hd.fill (fun got clock => got = 0 && clock.idleOver) 4
  unfold receivePolled
  generalize d.fill (fun got clock => got = 0 && clock.idleOver) 4 [] = r at hwaits hrest ⊢
  cases hwaits with
  | @length len d' hlen hout =>
    rw [hbytes] at hout
    cases ms with
    | nil =>
      have := congrArg List.length hout
      simp [hlen] at this
    | cons m rest =>
      rw [List.flatMap_cons, Codec.frame, List.append_assoc] at hout
      obtain ⟨rfl, hbody⟩ := List.append_inj hout (hlen.trans (length_leBytes 4 _).symm)
      have hm := hsize m List.mem_cons_self
      obtain ⟨d'', hread, hd'', hleft⟩ := readFrameBody_message hrest hm hbody
      dsimp only
      rw [leNat_frame hm, hread]
      exact .message rfl hd'' hleft
  | closed hshort =>
    refine .closed ?_
    cases ms with
    | nil => rfl
    | cons m rest =>
      rw [hbytes, List.flatMap_cons, Codec.frame] at hshort
      simp only [List.length_append, length_leBytes] at hshort
      omega
  | idle hout hless => exact .idle hrest (hout.trans hbytes) hless
  | failed herror => exact absurd herror (hd.healthy _)

theorem yields_next {r : Option α} {d' : Delivery Clock} {outs : List (Option α)}
    (hcall : receivePolled codec d = (.ok r, d')) (h : Yields codec d' outs) :
    Yields codec d (r :: outs) := by
  intro n
  cases n with
  | zero => rfl
  | succ n =>
    have hmore : List.take n
        (outs.map Except.ok ++ List.replicate (n + 1) (Except.error WireError.connectionClosed))
        = List.take n
          (outs.map Except.ok ++ List.replicate n (Except.error WireError.connectionClosed)) := by
      rw [List.replicate_succ', ← List.append_assoc]
      refine List.take_append_of_le_length ?_
      rw [List.length_append, List.length_replicate]
      exact Nat.le_add_left _ _
    show (receivePolled codec d).1 :: polls codec n (receivePolled codec d).2 = _
    rw [hcall, h n, ← hmore]
    rfl

/-- A stream that has ended stays so. -/
theorem yields_closed (hcall : receivePolled codec d = (.error .connectionClosed, [])) :
    Yields codec d [] := by
  have hended : ∀ n, polls codec n [] = List.replicate n (Except.error .connectionClosed) := by
    intro n
    induction n with
    | zero => rfl
    | succ n ih => exact congrArg (Except.error .connectionClosed :: ·) ih
  intro n
  cases n with
  | zero => rfl
  | succ n =>
    show (receivePolled codec d).1 :: polls codec n (receivePolled codec d).2 = _
    rw [hcall, hended n]
    rw [List.map_nil, List.nil_append, List.take_replicate, Nat.min_self]
    rfl

/-- The messages in order, among idle calls. An idle call leaves less of the
delivery, a message fewer messages. -/
theorem yields_messages : ∀ (ms : List α) (d : Delivery Clock), Timely d →
    (∀ m ∈ ms, (codec.encode m).length ≤ maxFrame) → d.bytes = ms.flatMap codec.frame →
    ∃ outs, outs.reduceOption = ms ∧ Yields codec d outs
  | ms, d, hd, hsize, hbytes => by
    have hcall := receivePolled_receives hd hsize hbytes
    generalize hr : receivePolled codec d = r at hcall
    cases hcall with
    | @idle d' hd' hbytes' hless =>
      obtain ⟨outs, houts, hyields⟩ := yields_messages ms d' hd' hsize hbytes'
      exact ⟨none :: outs, houts, yields_next hr hyields⟩
    | @message m rest d' hms hd' hbytes' =>
      have hsize' : ∀ m' ∈ rest, (codec.encode m').length ≤ maxFrame :=
        fun m' hm' => hsize m' (hms ▸ List.mem_cons_of_mem _ hm')
      have hfewer : rest.length < ms.length := by rw [hms]; exact Nat.lt_succ_self _
      obtain ⟨outs, houts, hyields⟩ := yields_messages rest d' hd' hsize' hbytes'
      refine ⟨some m :: outs, ?_, yields_next hr hyields⟩
      rw [List.reduceOption_cons_of_some, houts, hms]
    | closed hms => exact ⟨[], hms.symm, yields_closed hr⟩
  termination_by ms d => (ms.length, d.length)

end

/-- **Framing is lossless under any fragmentation.** However the bytes of the
messages arrive, the calls return the messages in order, among idle calls, and
then the end of the stream. An idle call has read nothing, whatever the stream;
and a frame that announces too much is refused before any byte of its body. -/
theorem receivePolled_lossless {α : Type} (codec : Codec α) (ms : List α) (d : Delivery Clock)
    (hsize : ∀ m ∈ ms, (codec.encode m).length ≤ maxFrame) (hd : Timely d)
    (hbytes : d.bytes = ms.flatMap codec.frame) :
    (∀ m ∈ ms, send codec m = .ok (codec.frame m)) ∧
    (∃ outs, outs.reduceOption = ms ∧ Yields codec d outs) ∧
    (∀ d' : Delivery Clock, (receivePolled codec d').1 = .ok none →
      (receivePolled codec d').2.bytes = d'.bytes) ∧
    ∀ (d' : Delivery Clock) (len rest : List U8), d'.Healthy → len.length = 4 →
      d'.bytes = len ++ rest → maxFrame < leNat len →
      (receivePolled codec d').1 = .ok none ∨
        (receivePolled codec d').1 = .error (.malformed
          s!"peer announced a {leNat len}-byte frame; limit is {maxFrame}") ∧
        (receivePolled codec d').2.bytes = rest := by
  refine ⟨fun m hm => send_eq (hsize m hm), yields_messages ms d hd hsize hbytes,
    fun d' h => receivePolled_idle h, ?_⟩
  intro d' len rest hd' hlen hbytes' hover
  exact receivePolled_oversized hd' hlen hbytes' hover

/-! ## Two messages in pieces -/

/-- Bytes sent as they are. -/
def byteCodec : Codec (List U8) where
  encode m := m
  decode bytes := .ok bytes
  decode_encode _ := rfl

/-- The messages `[1, 2]` and `[3]`: a length cut in two, a pause in it and one
in the body, and the second message in one piece with the end of the first. -/
def brokenDelivery : Delivery Clock :=
  [.blocked ⟨true, false⟩, .data 2 [0], .blocked ⟨true, false⟩, .data 0 [0, 1],
    .blocked ⟨true, false⟩, .data 2 [1, 0, 0, 0, 3], .blocked ⟨true, false⟩]

theorem brokenDelivery_timely : Timely brokenDelivery := by
  constructor
  · intro e h
    simp [brokenDelivery] at h
  · intro clock h
    simp [brokenDelivery] at h
    rw [h]

theorem receivePolled_lossless_broken :
    (∃ outs, outs.reduceOption = [[1, 2], [3]] ∧ Yields byteCodec brokenDelivery outs) ∧
    polls byteCodec 5 brokenDelivery =
      [.ok none, .ok (some [1, 2]), .ok (some [3]), .ok none, .error .connectionClosed] := by
  refine ⟨(receivePolled_lossless byteCodec [[1, 2], [3]] brokenDelivery (by decide)
    brokenDelivery_timely (by decide)).2.1, by decide⟩

end Provework.Wire
