import Provework.Coordinator.Bystanders
import Provework.Lib.History
import Provework.Wire.Framing

/-!
# The sessions between the sockets and the loop (`session_loop` of `crates/coordinator/src/net.rs`)

Every connection has a thread of its own. It reads messages and puts them as events
into the one channel of the loop, and whenever nothing arrives for a while it writes
what the loop has queued for the connection. `Net` is the loop together with these
threads and the channel, and a run of it is any list of their acts.

`net_fifo` says what the threads guarantee. The loop handles the messages of a
connection in the order they were read, each once, with `Closed` behind the last; the
peer is written a beginning of what the loop sent to it; and what the loop does is a
run of `step` on the events it takes from the channel. So every result about runs of
`step` is one about the whole program.

Modelling notes:
- `written` and `read` are records of what went over the stream, and `handled` of what
  the loop took from the channel.
- A TLS handshake that fails ends the thread. The connection stays in the table.
- The proving thread reports a job only after it was handed one.
- A thread that cuts off its own upload has removed its connection by the end of the
  handler (`Net.taken`), and goes on as from any other error.
-/

namespace Provework.Coordinator

open Provework.Lib Provework.Contentstore Provework.Wire

/-! ## Threads -/

/-- Where a session thread stands. -/
inductive SessionPhase where
  | absent
  | handshake
  | receiving
  /-- Nothing arrived; the queue is being written. -/
  | pumping
  /-- The connection is removed and `Closed` is due. -/
  | closing
  | ended
  | failed
  deriving DecidableEq, Repr

structure Session where
  phase : SessionPhase
  read : List ClientToServer
  written : List ServerToClient

structure Net where
  serve : Serve
  channel : List Event
  sessions : Nat → Session
  handled : List Event

/-- The event a message becomes. -/
def eventOf (conn : Nat) : ClientToServer → Event
  | .hello pubkeyHex workerId listenPort role => .hello conn pubkeyHex workerId listenPort role
  | .nonceSignature sigHex powCounter => .nonceSig conn sigHex powCounter
  | .blobRequest idHex => .blobRequest conn idHex
  | .jobResult result => .result conn result
  | .blobUpload idHex bytesHex => .blobUpload conn idHex bytesHex
  | .jobSubmission submitter descriptor pubkeyHex sigHex requireZk =>
    .jobSubmission conn submitter descriptor pubkeyHex sigHex requireZk
  | .receiptClaim workerId jobId pubkeyHex sigHex receiptHex =>
    .receiptClaim conn workerId jobId pubkeyHex sigHex receiptHex

/-- The events of one connection. -/
def eventsOf (conn : Nat) (events : List Event) : List Event :=
  events.filter fun e => e.conn = some conn

/-- The outbound queue of a connection. -/
def Net.queue (net : Net) (conn : Nat) : List ServerToClient :=
  (toConn conn net.serve.sent).drop (net.sessions conn).written.length

inductive NetAct where
  /-- A block of the loop. -/
  | loop (a : Act)
  /-- The loop takes an event from the channel. -/
  | take (host : Host) (now : Nat)
  | accept (peerIp : String)
  | handshake (conn : Nat) (ok : Bool)
  /-- `receive_polled` returns. -/
  | receive (conn : Nat) (r : Except WireError (Option ClientToServer))
  /-- One message of the queue, and whether it could be written. -/
  | pump (conn : Nat) (ok : Bool)
  | report (conn : Nat)
  /-- The proving thread is done with a job. -/
  | prove (decision : Decision)
  | reorder (entries : List ((_ : Nat) × Conn))
  | disk (id : ContentId) (file : Option (List U8))

/-- The acts of the loop that are no event. -/
def Act.housekeeping : Act → Bool
  | .scan _ _ => true
  | .choose _ => true
  | .hold => true
  | .assign _ => true
  | .complete _ _ _ => true
  | _ => false

section

variable (crypto : Crypto) (cfg : ServeConfig)

def Net.setSession (net : Net) (conn : Nat) (x : Session) : Net :=
  { net with sessions := Function.update net.sessions conn x }

def Net.setPhase (net : Net) (conn : Nat) (phase : SessionPhase) : Net :=
  net.setSession conn { net.sessions conn with phase := phase }

/-- The thread removes its connection and has `Closed` to send. -/
def Net.hangUp (net : Net) (conn : Nat) : Net :=
  { net.setPhase conn .closing with serve := step crypto cfg net.serve (.thread (.hangUp conn)) }

/-- `receive_polled` returned. -/
def Net.received (net : Net) (conn : Nat) : Except WireError (Option ClientToServer) → Net
  | .ok (some m) =>
    { net.setSession conn { net.sessions conn with read := (net.sessions conn).read ++ [m] } with
      channel := net.channel ++ [eventOf conn m] }
  | .ok none => net.setPhase conn .pumping
  | .error _ => net.hangUp crypto cfg conn

/-- The loop has handled an event; a thread that removed its connection meanwhile is
closing. -/
def Net.taken (net : Net) (host : Host) (now : Nat) (e : Event) (rest : List Event) : Net :=
  let net' : Net := { net with
    serve := step crypto cfg net.serve (.event e host now)
    channel := rest
    handled := net.handled ++ [e] }
  match e.conn with
  | some conn =>
    if conn ∈ net.serve.conns ∧ conn ∉ net'.serve.conns then net'.setPhase conn .closing else net'
  | none => net'

def netStep (net : Net) : NetAct → Net
  | .loop a => if a.housekeeping then { net with serve := step crypto cfg net.serve a } else net
  | .take host now =>
    if net.serve.pc = .events then
      match net.channel with
      | [] => { net with serve := step crypto cfg net.serve .idle }
      | e :: rest => net.taken crypto cfg host now e rest
    else net
  | .accept peerIp =>
    { net.setSession net.serve.nextConn ⟨.handshake, [], []⟩ with
      serve := step crypto cfg net.serve (.thread (.accept peerIp)) }
  | .handshake conn ok =>
    if (net.sessions conn).phase = .handshake then
      net.setPhase conn (if ok then .receiving else .failed)
    else net
  | .receive conn r =>
    if (net.sessions conn).phase = .receiving then net.received crypto cfg conn r else net
  | .pump conn ok =>
    if (net.sessions conn).phase = .pumping then
      match net.queue conn with
      | [] => net.setPhase conn .receiving
      | m :: _ =>
        if ok then
          net.setSession conn
            { net.sessions conn with written := (net.sessions conn).written ++ [m] }
        else net.hangUp crypto cfg conn
    else net
  | .report conn =>
    if (net.sessions conn).phase = .closing then
      { net.setPhase conn .ended with channel := net.channel ++ [.closed conn] }
    else net
  | .prove decision =>
    if (net.channel.filter fun e => e.conn = none).length < net.serve.proving.length then
      { net with channel := net.channel ++ [.proved decision] }
    else net
  | .reorder entries => { net with serve := step crypto cfg net.serve (.thread (.reorder entries)) }
  | .disk id file => { net with serve := step crypto cfg net.serve (.thread (.disk id file)) }

end

/-! ## First in, first out -/

/-- The last event of a thread. -/
def SessionPhase.farewell (conn : Nat) : SessionPhase → List Event
  | .ended => [.closed conn]
  | _ => []

/-- The thread has not removed its connection. -/
def SessionPhase.listed : SessionPhase → Bool
  | .handshake => true
  | .receiving => true
  | .pumping => true
  | .failed => true
  | _ => false

structure Fifo (net : Net) (conn : Nat) : Prop where
  /-- What was handled and what is in the channel: everything read, and the farewell. -/
  events : eventsOf conn (net.handled ++ net.channel) =
    (net.sessions conn).read.map (eventOf conn) ++ (net.sessions conn).phase.farewell conn
  written : (net.sessions conn).written <+: toConn conn net.serve.sent
  table : conn ∈ net.serve.conns ↔ (net.sessions conn).phase.listed = true

structure NetInv (net : Net) : Prop where
  fifo : ∀ conn, Fifo net conn
  fresh : ∀ conn, net.serve.nextConn ≤ conn → net.sessions conn = ⟨.absent, [], []⟩
  unsent : ∀ conn, net.serve.nextConn ≤ conn → toConn conn net.serve.sent = []

theorem eventsOf_append (conn : Nat) (l l' : List Event) :
    eventsOf conn (l ++ l') = eventsOf conn l ++ eventsOf conn l' := List.filter_append ..

@[simp] theorem conn_eventOf (conn : Nat) (m : ClientToServer) :
    (eventOf conn m).conn = some conn := by
  cases m <;> rfl

theorem eventOf_ne_closed (conn c : Nat) (m : ClientToServer) : eventOf conn m ≠ .closed c := by
  cases m <;> exact nofun

/-- One act of the thread of `conn`: its session becomes `x`, and `new` goes into the channel. -/
structure Turn (net net' : Net) (conn : Nat) (x : Session) (new : List Event) : Prop where
  sessions : net'.sessions = Function.update net.sessions conn x
  channel : net'.channel = net.channel ++ new
  handled : net'.handled = net.handled
  own : ∀ e ∈ new, e.conn = some conn
  read : x.read.map (eventOf conn) ++ x.phase.farewell conn =
    (net.sessions conn).read.map (eventOf conn) ++ (net.sessions conn).phase.farewell conn ++ new
  sent : net'.serve.sent = net.serve.sent
  written : x.written <+: toConn conn net.serve.sent
  next : net.serve.nextConn ≤ net'.serve.nextConn
  accepted : conn < net'.serve.nextConn
  others : ∀ c, c ≠ conn → (c ∈ net'.serve.conns ↔ c ∈ net.serve.conns)
  listed : conn ∈ net'.serve.conns ↔ x.phase.listed = true

section

variable {crypto : Crypto} {cfg : ServeConfig} {net net' : Net} {conn : Nat} {x : Session}
  {new : List Event}

theorem NetInv.turn (h : NetInv net) (ht : Turn net net' conn x new) : NetInv net' where
  fifo c := by
    by_cases hc : c = conn
    · subst hc
      have hall : eventsOf c new = new := List.filter_eq_self.mpr fun e he =>
        decide_eq_true (ht.own e he)
      have hsession : net'.sessions c = x := by rw [ht.sessions, Function.update_self]
      refine ⟨?_, ?_, ?_⟩
      · rw [hsession, ht.handled, ht.channel, ← List.append_assoc, eventsOf_append,
          (h.fifo c).events, hall, ht.read]
      · rw [hsession, ht.sent]
        exact ht.written
      · rw [hsession]
        exact ht.listed
    · have hnone : eventsOf c new = [] := by
        refine List.filter_eq_nil_iff.mpr fun e he => ?_
        rw [ht.own e he]
        simpa using Ne.symm hc
      have hsession : net'.sessions c = net.sessions c := by
        rw [ht.sessions, Function.update_of_ne hc]
      refine ⟨?_, ?_, ?_⟩
      · rw [hsession, ht.handled, ht.channel, ← List.append_assoc, eventsOf_append,
          (h.fifo c).events, hnone, List.append_nil]
      · rw [hsession, ht.sent]
        exact (h.fifo c).written
      · rw [hsession]
        exact (ht.others c hc).trans (h.fifo c).table
  fresh c hc := by
    have hne : c ≠ conn := by
      intro heq
      subst heq
      exact absurd hc (Nat.not_le.mpr ht.accepted)
    rw [ht.sessions, Function.update_of_ne hne]
    exact h.fresh c (Nat.le_trans ht.next hc)
  unsent c hc := by
    rw [ht.sent]
    exact h.unsent c (Nat.le_trans ht.next hc)

/-- Only a connection that was accepted has a thread. -/
theorem NetInv.accepted (h : NetInv net) (hphase : (net.sessions conn).phase ≠ .absent) :
    conn < net.serve.nextConn := by
  refine Nat.lt_of_not_le fun hle => hphase ?_
  rw [h.fresh conn hle]

theorem NetInv.mem_accepted (h : NetInv net) (hmem : conn ∈ net.serve.conns) :
    conn < net.serve.nextConn := by
  refine h.accepted fun hphase => ?_
  rw [(h.fifo conn).table, hphase] at hmem
  cases hmem

/-- What the loop does takes nothing back. -/
theorem NetInv.served (h : NetInv net) (hkeys : ∀ c, c ∈ net'.serve.conns ↔ c ∈ net.serve.conns)
    (hnext : net.serve.nextConn ≤ net'.serve.nextConn) {msgs : List (Nat × ServerToClient)}
    (hsent : net'.serve.sent = net.serve.sent ++ msgs)
    (hmsgs : ∀ m ∈ msgs, m.1 < net.serve.nextConn) (hsessions : net'.sessions = net.sessions)
    (hevents : net'.handled ++ net'.channel = net.handled ++ net.channel) : NetInv net' where
  fifo c :=
    { events := by
        rw [hevents, hsessions]
        exact (h.fifo c).events
      written := by
        rw [hsent, hsessions]
        exact (h.fifo c).written.trans (toConn_mono (List.prefix_append _ _))
      table := by
        rw [hsessions]
        exact (hkeys c).trans (h.fifo c).table }
  fresh c hc := by
    rw [hsessions]
    exact h.fresh c (Nat.le_trans hnext hc)
  unsent c hc := by
    have hc : net.serve.nextConn ≤ c := Nat.le_trans hnext hc
    rw [hsent, toConn_append, h.unsent c hc, List.nil_append, toConn, List.map_eq_nil_iff]
    refine List.filter_eq_nil_iff.mpr fun m hm hdest => ?_
    have hdest : m.1 = c := of_decide_eq_true hdest
    exact absurd (hdest ▸ hmsgs m hm) (Nat.not_lt.mpr hc)

/-- A step of the loop that keeps the table. -/
theorem NetInv.serve (h : NetInv net) (crypto : Crypto) (cfg : ServeConfig) (a : Act)
    (hkeys : ∀ c, c ∈ (step crypto cfg net.serve a).conns ↔ c ∈ net.serve.conns)
    (hserve : net'.serve = step crypto cfg net.serve a) (hsessions : net'.sessions = net.sessions)
    (hevents : net'.handled ++ net'.channel = net.handled ++ net.channel) : NetInv net' := by
  obtain ⟨msgs, hsent, hmsgs⟩ := step_told crypto cfg net.serve a
  rw [← hserve] at hkeys hsent
  refine h.served hkeys ?_ hsent (fun m hm => h.mem_accepted (hmsgs m hm)) hsessions hevents
  rw [hserve]
  exact moves_nextConn (step_moves crypto cfg net.serve a)

/-- A thread that goes from one phase to another. -/
theorem NetInv.setPhase (h : NetInv net) {phase : SessionPhase}
    (hphase : (net.sessions conn).phase ≠ .absent)
    (hfarewell : phase.farewell conn = (net.sessions conn).phase.farewell conn)
    (hlisted : phase.listed = (net.sessions conn).phase.listed) :
    NetInv (net.setPhase conn phase) :=
  h.turn
    { sessions := rfl
      channel := (List.append_nil _).symm
      handled := rfl
      own := List.forall_mem_nil _
      read := by rw [List.append_nil, hfarewell]
      sent := rfl
      written := (h.fifo conn).written
      next := Nat.le_refl _
      accepted := h.accepted hphase
      others := fun _ _ => Iff.rfl
      listed := by
        rw [hlisted]
        exact (h.fifo conn).table }

theorem NetInv.hangUp (h : NetInv net) (hphase : (net.sessions conn).phase ≠ .absent)
    (hfarewell : (net.sessions conn).phase.farewell conn = []) :
    NetInv (net.hangUp crypto cfg conn) :=
  h.turn
    { sessions := rfl
      channel := (List.append_nil _).symm
      handled := rfl
      own := List.forall_mem_nil _
      read := by
        rw [List.append_nil, hfarewell]
        rfl
      sent := rfl
      written := (h.fifo conn).written
      next := Nat.le_refl _
      accepted := h.accepted hphase
      others := fun c hc => by
        show c ∈ net.serve.conns.erase conn ↔ _
        rw [AList.mem_erase]
        exact and_iff_right hc
      listed := by
        show conn ∈ net.serve.conns.erase conn ↔ _
        rw [AList.mem_erase]
        exact iff_of_false (fun hmem => hmem.1 rfl) Bool.false_ne_true }

/-- An event opens no connection and leaves the others in the table. -/
theorem keys_event (s : Serve) (e : Event) (host : Host) (now c : Nat) :
    (c ∈ (step crypto cfg s (.event e host now)).conns → c ∈ s.conns) ∧
      (e.conn ≠ some c → (c ∈ (step crypto cfg s (.event e host now)).conns ↔ c ∈ s.conns)) := by
  have hplain : Act.plain (.event e host now) = true →
      (c ∈ (step crypto cfg s (.event e host now)).conns → c ∈ s.conns) ∧
        (e.conn ≠ some c → (c ∈ (step crypto cfg s (.event e host now)).conns ↔ c ∈ s.conns)) :=
    fun ha => ⟨(step_serves crypto cfg s ha).conns_subset, (step_serves crypto cfg s ha).mem_conns⟩
  cases e with
  | closed conn =>
    rw [step]
    split
    · show (c ∈ s.conns.erase conn → _) ∧ (_ → (c ∈ s.conns.erase conn ↔ _))
      rw [AList.mem_erase]
      exact ⟨And.right, fun hne => and_iff_right fun heq => hne (congrArg some heq.symm)⟩
    · exact ⟨id, fun _ => Iff.rfl⟩
  | _ => exact hplain rfl

theorem taken_serve (host : Host) (now : Nat) (e : Event) (rest : List Event) :
    (net.taken crypto cfg host now e rest).serve
      = step crypto cfg net.serve (.event e host now) := by
  unfold Net.taken
  dsimp only
  split
  · split <;> rfl
  · rfl

theorem taken_handled (host : Host) (now : Nat) (e : Event) (rest : List Event) :
    (net.taken crypto cfg host now e rest).handled = net.handled ++ [e] := by
  unfold Net.taken
  dsimp only
  split
  · split <;> rfl
  · rfl

theorem farewell_of_listed {phase : SessionPhase} (h : phase.listed = true) (conn : Nat) :
    phase.farewell conn = [] := by
  cases phase <;> first
    | rfl
    | cases h

theorem NetInv.taken (h : NetInv net) {e : Event} {rest : List Event}
    (hchannel : net.channel = e :: rest) (host : Host) (now : Nat) :
    NetInv (net.taken crypto cfg host now e rest) := by
  have hevents : (net.handled ++ [e]) ++ rest = net.handled ++ net.channel := by
    rw [hchannel, List.append_assoc]
    rfl
  unfold Net.taken
  dsimp only
  split
  next conn hconn =>
    split
    next hcut =>
      -- as if the thread had removed the connection before
      obtain ⟨hopen, hgone⟩ := hcut
      have hlisted := (h.fifo conn).table.mp hopen
      have hphase : (net.sessions conn).phase ≠ .absent := by
        intro heq
        rw [heq] at hlisted
        cases hlisted
      have hmid : NetInv (net.hangUp crypto cfg conn) :=
        h.hangUp hphase (farewell_of_listed hlisted conn)
      obtain ⟨msgs, hsent, hmsgs⟩ := step_told crypto cfg net.serve (.event e host now)
      refine hmid.served (fun c => ?_) (moves_nextConn (step_moves crypto cfg net.serve _)) hsent
        (fun m hm => h.mem_accepted (hmsgs m hm)) rfl hevents
      show c ∈ (step crypto cfg net.serve (.event e host now)).conns ↔
        c ∈ net.serve.conns.erase conn
      rw [AList.mem_erase]
      by_cases hc : c = conn
      · subst hc
        exact iff_of_false hgone fun hmem => hmem.1 rfl
      · rw [(keys_event net.serve e host now c).2 fun heq => hc
          (Option.some.inj (heq.symm.trans hconn))]
        exact (and_iff_right hc).symm
    next hkept =>
      refine h.serve crypto cfg (.event e host now) (fun c => ?_) rfl rfl hevents
      by_cases hc : e.conn = some c
      · obtain rfl := Option.some.inj (hconn.symm.trans hc)
        exact ⟨(keys_event net.serve e host now conn).1,
          fun hmem => not_not.mp fun hgone => hkept ⟨hmem, hgone⟩⟩
      · exact (keys_event net.serve e host now c).2 hc
  next hnone =>
    refine h.serve crypto cfg (.event e host now) (fun c => ?_) rfl rfl hevents
    exact (keys_event net.serve e host now c).2 fun heq => by rw [hnone] at heq; cases heq

/-- The acts of the loop that are no event are nobody's. -/
theorem keys_of_plain {s : Serve} {a : Act} (ha : a.plain = true) (hconn : a.conn = none)
    (c : Nat) : c ∈ (step crypto cfg s a).conns ↔ c ∈ s.conns :=
  (step_serves crypto cfg s ha).mem_conns fun h => by rw [hconn] at h; cases h

theorem plain_of_housekeeping {a : Act} (ha : a.housekeeping = true) :
    a.plain = true ∧ a.conn = none := by
  cases a <;> first
    | exact ⟨rfl, rfl⟩
    | cases ha

theorem netInv_accept (h : NetInv net) (peerIp : String) :
    NetInv (netStep crypto cfg net (.accept peerIp)) := by
  have ht : Turn net (netStep crypto cfg net (.accept peerIp)) net.serve.nextConn
      ⟨.handshake, [], []⟩ [] :=
    { sessions := rfl
      channel := (List.append_nil _).symm
      handled := rfl
      own := List.forall_mem_nil _
      read := by
        rw [h.fresh _ (Nat.le_refl _)]
        rfl
      sent := rfl
      written := List.nil_prefix
      next := Nat.le_succ _
      accepted := Nat.lt_succ_self _
      others := fun c hc => by
        show c ∈ net.serve.conns.insert _ _ ↔ _
        rw [AList.mem_insert]
        exact or_iff_right hc
      listed := by
        show _ ∈ net.serve.conns.insert _ _ ↔ _
        rw [AList.mem_insert]
        exact iff_of_true (.inl rfl) rfl }
  exact h.turn ht

theorem netInv_receive (h : NetInv net) (conn : Nat)
    (r : Except WireError (Option ClientToServer)) :
    NetInv (netStep crypto cfg net (.receive conn r)) := by
  rw [netStep]
  split
  next hphase =>
    have hne : (net.sessions conn).phase ≠ .absent := by rw [hphase]; exact nofun
    unfold Net.received
    split
    next m =>
      exact h.turn
        { sessions := rfl
          channel := rfl
          handled := rfl
          own := by simp
          read := by
            rw [hphase]
            simp [SessionPhase.farewell]
          sent := rfl
          written := (h.fifo conn).written
          next := Nat.le_refl _
          accepted := h.accepted hne
          others := fun _ _ => Iff.rfl
          listed := (h.fifo conn).table }
    next => exact h.setPhase hne (by rw [hphase]; rfl) (by rw [hphase]; rfl)
    next => exact h.hangUp hne (by rw [hphase]; rfl)
  next => exact h

theorem netInv_pump (h : NetInv net) (conn : Nat) (ok : Bool) :
    NetInv (netStep crypto cfg net (.pump conn ok)) := by
  rw [netStep]
  split
  next hphase =>
    have hne : (net.sessions conn).phase ≠ .absent := by rw [hphase]; exact nofun
    split
    next => exact h.setPhase hne (by rw [hphase]; rfl) (by rw [hphase]; rfl)
    next m rest hqueue =>
      split
      next =>
        exact h.turn
          { sessions := rfl
            channel := (List.append_nil _).symm
            handled := rfl
            own := List.forall_mem_nil _
            read := (List.append_nil _).symm
            sent := rfl
            written := by
              obtain ⟨more, hmore⟩ := (h.fifo conn).written
              rw [Net.queue, ← hmore, List.drop_left] at hqueue
              rw [← hmore, hqueue]
              exact ⟨rest, by simp⟩
            next := Nat.le_refl _
            accepted := h.accepted hne
            others := fun _ _ => Iff.rfl
            listed := (h.fifo conn).table }
      next => exact h.hangUp hne (by rw [hphase]; rfl)
  next => exact h

theorem netInv_report (h : NetInv net) (conn : Nat) :
    NetInv (netStep crypto cfg net (.report conn)) := by
  rw [netStep]
  split
  next hphase =>
    have hne : (net.sessions conn).phase ≠ .absent := by rw [hphase]; exact nofun
    exact h.turn
      { sessions := rfl
        channel := rfl
        handled := rfl
        own := by
          rintro e he
          rw [List.mem_singleton.mp he]
          rfl
        read := by
          rw [hphase]
          simp [SessionPhase.farewell]
        sent := rfl
        written := (h.fifo conn).written
        next := Nat.le_refl _
        accepted := h.accepted hne
        others := fun _ _ => Iff.rfl
        listed := by
          show conn ∈ net.serve.conns ↔ _
          rw [(h.fifo conn).table, hphase]
          rfl }
  next => exact h

theorem netInv_step (h : NetInv net) (a : NetAct) : NetInv (netStep crypto cfg net a) := by
  cases a with
  | loop a =>
    rw [netStep]
    split
    next ha =>
      obtain ⟨hplain, hconn⟩ := plain_of_housekeeping ha
      exact h.serve crypto cfg a (keys_of_plain hplain hconn) rfl rfl rfl
    next => exact h
  | take host now =>
    rw [netStep]
    split
    · split
      · exact h.serve crypto cfg .idle (keys_of_plain rfl rfl) rfl rfl rfl
      next e rest hchannel => exact h.taken hchannel host now
    · exact h
  | accept peerIp => exact netInv_accept h peerIp
  | handshake conn ok =>
    rw [netStep]
    split
    next hphase =>
      have hne : (net.sessions conn).phase ≠ .absent := by rw [hphase]; exact nofun
      cases ok <;> exact h.setPhase hne (by rw [hphase]; rfl) (by rw [hphase]; rfl)
    next => exact h
  | receive conn r => exact netInv_receive h conn r
  | pump conn ok => exact netInv_pump h conn ok
  | report conn => exact netInv_report h conn
  | prove decision =>
    rw [netStep]
    split
    · refine ⟨fun c => ⟨?_, (h.fifo c).written, (h.fifo c).table⟩, h.fresh, h.unsent⟩
      show eventsOf c (net.handled ++ (net.channel ++ [.proved decision])) = _
      rw [← List.append_assoc, eventsOf_append, (h.fifo c).events]
      exact List.append_nil _
    · exact h
  | reorder entries =>
    exact h.serve crypto cfg (.thread (.reorder entries)) (fun _ => mem_reorder entries) rfl rfl rfl
  | disk id file =>
    exact h.serve crypto cfg (.thread (.disk id file)) (fun _ => Iff.rfl) rfl rfl rfl

/-! ## The loop among its threads -/

def Act.brings : Act → Option Event
  | .event e _ _ => some e
  | _ => none

/-- The events the loop has handled in a run. -/
def handledIn (h : List (Serve × Act)) : List Event :=
  h.filterMap fun p => if p.1.pc = .events then p.2.brings else none

theorem handledIn_append (h h' : List (Serve × Act)) :
    handledIn (h ++ h') = handledIn h ++ handledIn h' := List.filterMap_append ..

/-- What an act does to the loop: nothing, or one step of it. -/
inductive LoopTurn (crypto : Crypto) (cfg : ServeConfig) (net : Net) (b : NetAct) (net' : Net) :
    Prop where
  | kept (hserve : net'.serve = net.serve) (hhandled : net'.handled = net.handled)
  /-- A block, or an act of another thread. -/
  | quiet (a : Act) (ha : a.brings = none)
      (hdisk : (∀ id file, b ≠ .disk id file) → a.offDisk = true)
      (hserve : net'.serve = step crypto cfg net.serve a) (hhandled : net'.handled = net.handled)
  | took (e : Event) (host : Host) (now : Nat) (rest : List Event) (hb : b = .take host now)
      (hpc : net.serve.pc = .events) (hchannel : net.channel = e :: rest)
      (hserve : net'.serve = step crypto cfg net.serve (.event e host now))
      (hhandled : net'.handled = net.handled ++ [e])

theorem netStep_loop (crypto : Crypto) (cfg : ServeConfig) (net : Net) (b : NetAct) :
    LoopTurn crypto cfg net b (netStep crypto cfg net b) := by
  cases b with
  | loop a =>
    rw [netStep]
    split
    next ha =>
      have hplain : a.brings = none ∧ a.offDisk = true := by
        cases a with
        | event e host now => cases ha
        | thread t => cases ha
        | _ => exact ⟨rfl, rfl⟩
      exact .quiet a hplain.1 (fun _ => hplain.2) rfl rfl
    next => exact .kept rfl rfl
  | take host now =>
    rw [netStep]
    split
    next hpc =>
      split
      next => exact .quiet .idle rfl (fun _ => rfl) rfl rfl
      next e rest hchannel =>
        exact .took e host now rest rfl hpc hchannel (taken_serve host now e rest)
          (taken_handled host now e rest)
    next => exact .kept rfl rfl
  | accept peerIp => exact .quiet (.thread (.accept peerIp)) rfl (fun _ => rfl) rfl rfl
  | handshake conn ok =>
    rw [netStep]
    split <;> exact .kept rfl rfl
  | receive conn r =>
    rw [netStep]
    split
    · unfold Net.received
      split
      · exact .kept rfl rfl
      · exact .kept rfl rfl
      · exact .quiet (.thread (.hangUp conn)) rfl (fun _ => rfl) rfl rfl
    · exact .kept rfl rfl
  | pump conn ok =>
    rw [netStep]
    split
    · split
      · exact .kept rfl rfl
      · split
        · exact .kept rfl rfl
        · exact .quiet (.thread (.hangUp conn)) rfl (fun _ => rfl) rfl rfl
    · exact .kept rfl rfl
  | report conn =>
    rw [netStep]
    split <;> exact .kept rfl rfl
  | prove decision =>
    rw [netStep]
    split <;> exact .kept rfl rfl
  | reorder entries => exact .quiet (.thread (.reorder entries)) rfl (fun _ => rfl) rfl rfl
  | disk id file =>
    exact .quiet (.thread (.disk id file)) rfl (fun h => absurd rfl (h id file)) rfl rfl

/-- The loop's own run within a run of all threads. -/
structure Projects (crypto : Crypto) (cfg : ServeConfig) (s₀ : Serve) (net : Net)
    (acts : List Act) : Prop where
  serve : net.serve = stateAfter (step crypto cfg) s₀ acts
  handled : net.handled = handledIn (history (step crypto cfg) s₀ acts)

theorem Projects.concat {s₀ : Serve} {acts : List Act} (h : Projects crypto cfg s₀ net acts)
    {a : Act} (hserve : net'.serve = step crypto cfg net.serve a)
    (hhandled : net'.handled = net.handled ++ handledIn [(net.serve, a)]) :
    Projects crypto cfg s₀ net' (acts ++ [a]) where
  serve := by rw [hserve, h.serve, stateAfter_concat]
  handled := by rw [hhandled, h.handled, h.serve, history_concat, handledIn_append]

end

/-- Nobody is connected. -/
def Net.init (nextConn : Nat) (store : Store) : Net :=
  { serve := .init nextConn store
    channel := []
    sessions := fun _ => ⟨.absent, [], []⟩
    handled := [] }

theorem netInv_init (nextConn : Nat) (store : Store) : NetInv (.init nextConn store) :=
  ⟨fun _ => ⟨rfl, List.nil_prefix, iff_of_false (fun h => by cases h) Bool.false_ne_true⟩,
    fun _ _ => rfl, fun _ _ => rfl⟩

/-- Whatever the threads do and in whatever order, the loop runs `step` on events
that reach it per connection in the order they were read: none is lost, repeated or
overtaken, `Closed` is the last, and what is written is what the loop sent, in order.
A connection is in the table as long as its thread runs, or if its handshake failed. -/
theorem net_fifo (crypto : Crypto) (cfg : ServeConfig) (nextConn : Nat) (store : Store)
    (acts : List NetAct) :
    let net := stateAfter (netStep crypto cfg) (.init nextConn store) acts
    (∃ loop, Projects crypto cfg (.init nextConn store) net loop) ∧ ∀ conn, Fifo net conn := by
  have hstep : ∀ net a, NetInv net → NetInv (netStep crypto cfg net a) :=
    fun net a h => netInv_step h a
  refine ⟨?_, (invariant_run (netInv_init nextConn store) hstep acts).fifo⟩
  refine invariant_run (I := fun net => ∃ loop, Projects crypto cfg (.init nextConn store) net loop)
    ⟨[], rfl, rfl⟩ ?_ acts
  rintro net a ⟨loop, h⟩
  cases netStep_loop crypto cfg net a with
  | kept hserve hhandled => exact ⟨loop, hserve.trans h.serve, hhandled.trans h.handled⟩
  | quiet act ha _ hserve hhandled =>
    refine ⟨loop ++ [act], h.concat hserve ?_⟩
    rw [handledIn, List.filterMap_cons_none (by rw [ha, ite_self]), List.filterMap_nil,
      List.append_nil]
    exact hhandled
  | took e host now rest _ hpc _ hserve hhandled =>
    refine ⟨loop ++ [.event e host now], h.concat hserve ?_⟩
    show _ = net.handled ++ [if net.serve.pc = .events then some e else none].filterMap id
    rw [if_pos hpc]
    exact hhandled

end Provework.Coordinator
