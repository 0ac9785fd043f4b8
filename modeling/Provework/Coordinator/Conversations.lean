import Provework.Coordinator.Sessions
import Provework.Coordinator.Uploads
import Provework.Lib.Reactive

/-!
# A client's conversation with the coordinator, among all the others

A client is a `Reactor`: what it has sent is a function of what it has received.
`Speaks` says that what a session thread reads of its connection is a beginning of
what the client sends, given what was written to the connection; how far the client
has read, and how the bytes travel, does not matter.

`Conversation` is what has to be shown of one client: a property of its record, of
the store, of what the loop heard of it and said to it, that holds at the start,
survives whatever the loop does for others (which may say unasked things to it), and
is restored by each answer, if the connection is still there. `net_conversation` is the
rule: the property then holds in every run of all threads, as long as the connection is
open. If the property depends on the store, no other program may change it.
-/

namespace Provework.Coordinator

open Provework.Lib Provework.Contentstore Provework.Wire

/-! ## A peer that keeps to a protocol -/

section

variable {crypto : Crypto} {cfg : ServeConfig} {net : Net} {conn : Nat} {σ : Type}
  {r : Reactor σ ServerToClient ClientToServer}

/-- Every message read from the connection is the next one that `r` sends, given
what was written to it. -/
def Speaks (r : Reactor σ ServerToClient ClientToServer) (conn : Nat) (net : Net) (a : NetAct) :
    Prop :=
  ∀ m, a = .receive conn (.ok (some m)) → (net.sessions conn).phase = .receiving →
    (net.sessions conn).read ++ [m] <+: r.sent (net.sessions conn).written

/-- The condition as a test. -/
def speaks (r : Reactor σ ServerToClient ClientToServer) (conn : Nat) (net : Net) : NetAct → Bool
  | .receive c (.ok (some m)) =>
    c ≠ conn || decide ((net.sessions conn).read ++ [m] <+: r.sent (net.sessions conn).written)
  | _ => true

theorem speaks_of_test {a : NetAct} (h : speaks r conn net a = true) : Speaks r conn net a := by
  rintro m rfl -
  simpa [speaks] using h

/-- An act that writes the session of `d`. -/
theorem update_stream {net' : Net} (d : Nat) (x : Session)
    (hwritten : (net.sessions d).written <+: x.written) (hread : x.read = (net.sessions d).read)
    (hsessions : net'.sessions = Function.update net.sessions d x) :
    (net.sessions conn).written <+: (net'.sessions conn).written ∧
      (net'.sessions conn).read = (net.sessions conn).read := by
  rw [hsessions]
  by_cases hc : conn = d
  · subst hc
    rw [Function.update_self]
    exact ⟨hwritten, hread⟩
  · rw [Function.update_of_ne hc]
    exact ⟨List.prefix_rfl, rfl⟩

theorem setPhase_stream {net' : Net} (d : Nat) (phase : SessionPhase)
    (hsessions : net'.sessions = (net.setPhase d phase).sessions) :
    (net.sessions conn).written <+: (net'.sessions conn).written ∧
      (net'.sessions conn).read = (net.sessions conn).read :=
  update_stream d { net.sessions d with phase := phase } List.prefix_rfl rfl hsessions

/-- What an act does to the stream of a connection. -/
theorem netStep_stream (crypto : Crypto) (cfg : ServeConfig) (h : NetInv net) (a : NetAct)
    (conn : Nat) :
    (net.sessions conn).written <+: ((netStep crypto cfg net a).sessions conn).written ∧
      (((netStep crypto cfg net a).sessions conn).read = (net.sessions conn).read ∨
        ∃ m, a = .receive conn (.ok (some m)) ∧ (net.sessions conn).phase = .receiving ∧
          ((netStep crypto cfg net a).sessions conn).read = (net.sessions conn).read ++ [m]) := by
  have hkept : ∀ net' : Net, net'.sessions conn = net.sessions conn →
      (net.sessions conn).written <+: (net'.sessions conn).written ∧
        (net'.sessions conn).read = (net.sessions conn).read := by
    intro net' heq
    rw [heq]
    exact ⟨List.prefix_rfl, rfl⟩
  cases a with
  | loop a =>
    rw [netStep]
    split <;> exact (hkept _ rfl).imp_right .inl
  | take host now =>
    rw [netStep]
    split
    · split
      · exact (hkept _ rfl).imp_right .inl
      · unfold Net.taken
        dsimp only
        split
        · split
          · exact (setPhase_stream _ .closing rfl).imp_right .inl
          · exact (hkept _ rfl).imp_right .inl
        · exact (hkept _ rfl).imp_right .inl
    · exact (hkept _ rfl).imp_right .inl
  | accept peerIp =>
    refine (update_stream net.serve.nextConn ⟨.handshake, [], []⟩ ?_ ?_ rfl).imp_right .inl <;>
      rw [h.fresh _ (Nat.le_refl _)]
  | handshake d ok =>
    rw [netStep]
    split
    · exact (setPhase_stream d _ rfl).imp_right .inl
    · exact (hkept _ rfl).imp_right .inl
  | receive d r =>
    rw [netStep]
    split
    next hphase =>
      unfold Net.received
      split
      next m =>
        by_cases hc : conn = d
        · subst hc
          simp only [Net.setSession, Function.update_self]
          exact ⟨List.prefix_rfl, .inr ⟨m, rfl, hphase, rfl⟩⟩
        · exact (hkept _ (Function.update_of_ne hc _ _)).imp_right .inl
      next => exact (setPhase_stream d _ rfl).imp_right .inl
      next => exact (setPhase_stream d _ rfl).imp_right .inl
    next => exact (hkept _ rfl).imp_right .inl
  | pump d ok =>
    rw [netStep]
    split
    · split
      next => exact (setPhase_stream d _ rfl).imp_right .inl
      next m rest _ =>
        split
        · exact (update_stream d { net.sessions d with written := (net.sessions d).written ++ [m] }
            (List.prefix_append _ _) rfl rfl).imp_right .inl
        · exact (setPhase_stream d _ rfl).imp_right .inl
    · exact (hkept _ rfl).imp_right .inl
  | report d =>
    rw [netStep]
    split
    · exact (setPhase_stream d _ rfl).imp_right .inl
    · exact (hkept _ rfl).imp_right .inl
  | prove decision =>
    rw [netStep]
    split <;> exact (hkept _ rfl).imp_right .inl
  | reorder entries => exact (hkept _ rfl).imp_right .inl
  | disk id file => exact (hkept _ rfl).imp_right .inl

/-- What is read of such a peer. -/
theorem spoken_step (h : NetInv net) {a : NetAct} (hspeaks : Speaks r conn net a)
    (hread : (net.sessions conn).read <+: r.sent (net.sessions conn).written) :
    ((netStep crypto cfg net a).sessions conn).read <+:
      r.sent ((netStep crypto cfg net a).sessions conn).written := by
  obtain ⟨hwritten, hsame | ⟨m, rfl, hphase, hm⟩⟩ := netStep_stream crypto cfg h a conn
  · rw [hsame]
    exact hread.trans (r.sent_mono hwritten)
  · rw [hm]
    exact (hspeaks m rfl hphase).trans (r.sent_mono hwritten)

/-- The next event of the connection is the next message of the peer. -/
theorem spoken_next (h : NetInv net)
    (hread : (net.sessions conn).read <+: r.sent (net.sessions conn).written) {m : ClientToServer}
    {rest : List Event} (hchannel : net.channel = eventOf conn m :: rest) :
    eventsOf conn net.handled ++ [eventOf conn m] <+:
      (r.sent (toConn conn net.serve.sent)).map (eventOf conn) := by
  have hhead : eventsOf conn [eventOf conn m] = [eventOf conn m] :=
    List.filter_eq_self.mpr fun e he => by
      rw [List.mem_singleton.mp he]
      exact decide_eq_true (conn_eventOf conn m)
  have hevents := (h.fifo conn).events
  rw [hchannel, List.append_cons, eventsOf_append, eventsOf_append, hhead] at hevents
  have hpre : eventsOf conn net.handled ++ [eventOf conn m] <+:
      (net.sessions conn).read.map (eventOf conn) ++ (net.sessions conn).phase.farewell conn :=
    ⟨_, hevents⟩
  -- it cannot reach into the farewell, for its last event is no `Closed`
  have hread' :
      eventsOf conn net.handled ++ [eventOf conn m] <+: (net.sessions conn).read.map
        (eventOf conn) := by
    cases hphase : (net.sessions conn).phase with
    | ended =>
      rw [hphase] at hpre
      refine (List.prefix_concat_iff.mp hpre).resolve_left fun heq => ?_
      exact eventOf_ne_closed conn conn m (List.append_inj_right' heq rfl |> List.cons.inj |>.1)
    | _ =>
      rw [hphase] at hpre
      exact (List.append_nil ((net.sessions conn).read.map (eventOf conn))) ▸ hpre
  exact hread'.trans ((hread.trans (r.sent_mono (h.fifo conn).written)).map _)

theorem eventOf_injective (conn : Nat) : Function.Injective (eventOf conn) := by
  intro m m' h
  cases m <;> cases m' <;> cases h <;> rfl

/-- The events of a connection: its messages, and the farewell. -/
theorem eventOf_of_conn {e : Event} (h : e.conn = some conn) :
    e = .closed conn ∨ ∃ m, e = eventOf conn m := by
  cases e <;> cases h
  · exact .inr ⟨.hello _ _ _ _, rfl⟩
  · exact .inr ⟨.nonceSignature _ _, rfl⟩
  · exact .inr ⟨.jobSubmission _ _ _ _ _, rfl⟩
  · exact .inr ⟨.blobUpload _ _, rfl⟩
  · exact .inr ⟨.receiptClaim _ _ _ _ _, rfl⟩
  · exact .inr ⟨.blobRequest _, rfl⟩
  · exact .inr ⟨.jobResult _, rfl⟩
  · exact .inl rfl

theorem toConn_send (s : Serve) (conn : Nat) (msg : ServerToClient) :
    toConn conn (s.send conn msg).sent = toConn conn s.sent ++ [msg] := by
  show toConn conn (s.sent ++ [(conn, msg)]) = _
  rw [toConn_append]
  congr 1
  simp [toConn]

/-- A property of one connection that the loop keeps: `heard` and `said` are the
messages the loop took from it and those it sent to it. -/
structure Conversation (crypto : Crypto) (cfg : ServeConfig)
    (r : Reactor σ ServerToClient ClientToServer) (conn : Nat) (good : Host → Prop)
    (P : Conn → Store → List ClientToServer → List ServerToClient → Prop) : Prop where
  opens : ∀ peerIp store, P (.new conn peerIp) store [] []
  /-- While the loop serves others. -/
  waits : ∀ {x store store' heard said new}, P x store heard said → (∀ m ∈ new, unasked m = true) →
    (∀ id data, store id = some data → store' id = some data) → P x store' heard (said ++ new)
  answers : ∀ {s : Serve} {host : Host} {x heard m} (now : Nat), s.conns.lookup conn = some x →
    P x s.store heard (toConn conn s.sent) → heard ++ [m] <+: r.sent (toConn conn s.sent) →
    good host →
    let s' := s.handle crypto cfg host now (eventOf conn m)
    ∀ x', s'.conns.lookup conn = some x' → P x' s'.store (heard ++ [m]) (toConn conn s'.sent)

/-- The host answers well while an event of the connection is handled. -/
def HostGood (good : Host → Prop) (conn : Nat) (net : Net) (a : NetAct) : Prop :=
  ∀ host now e rest, a = .take host now → net.channel = e :: rest → e.conn = some conn → good host

/-- The property holds of the connection, if it is open. -/
def Converses (P : Conn → Store → List ClientToServer → List ServerToClient → Prop) (conn : Nat)
    (net : Net) : Prop :=
  conn ∈ net.serve.conns → ∃ x heard, net.serve.conns.lookup conn = some x ∧
    eventsOf conn net.handled = heard.map (eventOf conn) ∧
    P x net.serve.store heard (toConn conn net.serve.sent)

variable {good : Host → Prop} {P : Conn → Store → List ClientToServer → List ServerToClient → Prop}

/-- A step that is none of its own. -/
theorem Conversation.apart (hconv : Conversation crypto cfg r conn good P) {net' : Net} {a : Act}
    (h : Converses P conn net) (hserve : net'.serve = step crypto cfg net.serve a)
    (hhandled : eventsOf conn net'.handled = eventsOf conn net.handled)
    (hold : conn < net.serve.nextConn) (ha : a.concerns conn = false) (hdisk : a.offDisk = true) :
    Converses P conn net' := by
  obtain ⟨hrecord, ⟨msgs, hsaid, hmsgs⟩, hblobs⟩ := step_apart crypto cfg hold ha hdisk
  intro hmem
  have hopen : conn ∈ net.serve.conns := by
    rw [hserve, ← AList.lookup_isSome, hrecord, AList.lookup_isSome] at hmem
    exact hmem
  obtain ⟨x, heard, hx, hheard, hP⟩ := h hopen
  refine ⟨x, heard, ?_, hhandled.trans hheard, ?_⟩
  · rw [hserve, hrecord]
    exact hx
  · rw [hserve, hsaid]
    exact hconv.waits hP hmsgs hblobs

/-- The connection was not there yet. -/
theorem Conversation.accepted (hconv : Conversation crypto cfg r conn good P) (hinv : NetInv net)
    {net' : Net} {a : Act} (hserve : net'.serve = step crypto cfg net.serve a)
    (hhandled : net'.handled = net.handled) (hbrings : a.brings = none)
    (hnew : net.serve.nextConn ≤ conn) : Converses P conn net' := by
  intro hmem
  rw [hserve] at hmem
  have habsent : conn ∉ net.serve.conns :=
    fun h => absurd (hinv.mem_accepted h) (Nat.not_lt.mpr hnew)
  have hheard : eventsOf conn net.handled = [] := by
    have hevents := (hinv.fifo conn).events
    rw [hinv.fresh conn hnew, eventsOf_append] at hevents
    exact (List.append_eq_nil_iff.mp hevents).1
  cases a with
  | thread t =>
    cases t with
    | accept peerIp =>
      have hconn : conn = net.serve.nextConn := ((AList.mem_insert _).mp hmem).resolve_right habsent
      subst hconn
      refine ⟨.new net.serve.nextConn peerIp, [], ?_, ?_, ?_⟩
      · rw [hserve]
        exact AList.lookup_insert _
      · rw [hhandled]
        exact hheard
      · rw [hserve]
        show P _ _ _ (toConn _ net.serve.sent)
        rw [hinv.unsent _ hnew]
        exact hconv.opens _ _
    | hangUp c => exact absurd (AList.mem_erase.mp hmem).2 habsent
    | reorder entries =>
      refine absurd ?_ habsent
      exact (mem_reorder entries).mp hmem
    | disk id file => exact absurd hmem habsent
  | event e host now => cases hbrings
  | _ => exact absurd ((keys_of_plain rfl rfl conn).mp hmem) habsent

/-- Its own messages. -/
theorem Conversation.took (hconv : Conversation crypto cfg r conn good P) (hinv : NetInv net)
    (hspoken : (net.sessions conn).read <+: r.sent (net.sessions conn).written)
    (h : Converses P conn net) {net' : Net} {m : ClientToServer} {host : Host} {now : Nat}
    {rest : List Event} (hpc : net.serve.pc = .events)
    (hchannel : net.channel = eventOf conn m :: rest) (hgood : good host)
    (hserve : net'.serve = step crypto cfg net.serve (.event (eventOf conn m) host now))
    (hhandled : net'.handled = net.handled ++ [eventOf conn m]) : Converses P conn net' := by
  intro hmem
  have hopen : conn ∈ net.serve.conns := by
    rw [hserve] at hmem
    exact (keys_event net.serve _ host now conn).1 hmem
  obtain ⟨x, heard, hx, hheard, hP⟩ := h hopen
  have hnext : heard ++ [m] <+: r.sent (toConn conn net.serve.sent) := by
    have hevents := spoken_next hinv hspoken hchannel
    rw [hheard, ← List.map_singleton, ← List.map_append] at hevents
    exact (List.prefix_map_iff_of_injective (eventOf_injective conn)).mp hevents
  have hstep : net'.serve = net.serve.handle crypto cfg host now (eventOf conn m) := by
    rw [hserve, step, if_pos hpc]
  obtain ⟨x', hx'⟩ := Option.isSome_iff_exists.mp (AList.lookup_isSome.mpr hmem)
  rw [hstep] at hx'
  have hP' := hconv.answers now hx hP hnext hgood x' hx'
  refine ⟨x', heard ++ [m], ?_, ?_, ?_⟩
  · rw [hstep]
    exact hx'
  · have hown : eventsOf conn [eventOf conn m] = [eventOf conn m] :=
      List.filter_eq_self.mpr fun e he => by
        rw [List.mem_singleton.mp he]
        exact decide_eq_true (conn_eventOf conn m)
    rw [hhandled, eventsOf_append, hheard, hown, List.map_append, List.map_singleton]
  · rw [hstep]
    exact hP'

/-- A step without an event. -/
theorem Conversation.quiet (hconv : Conversation crypto cfg r conn good P) (hinv : NetInv net)
    (h : Converses P conn net) {net' : Net} {a : Act} (ha : a.brings = none)
    (hserve : net'.serve = step crypto cfg net.serve a) (hhandled : net'.handled = net.handled)
    (hdisk : a.offDisk = true ∨
      ∀ x store store' heard said, P x store heard said → P x store' heard said) :
    Converses P conn net' := by
  by_cases hnew : net.serve.nextConn ≤ conn
  · exact hconv.accepted hinv hserve hhandled ha hnew
  by_cases hown : a.concerns conn = true
  · -- its thread removes it
    cases a with
    | thread t =>
      cases t with
      | hangUp c =>
        obtain rfl : c = conn := of_decide_eq_true hown
        intro hmem
        rw [hserve] at hmem
        exact absurd rfl (AList.mem_erase.mp hmem).1
      | _ => cases hown
    | event e host now => cases ha
    | _ => cases hown
  by_cases hoff : a.offDisk = true
  · exact hconv.apart h hserve (by rw [hhandled]) (Nat.not_le.mp hnew)
      (Bool.not_eq_true _ ▸ hown) hoff
  · -- somebody writes to the store
    have hstores := hdisk.resolve_left hoff
    cases a with
    | thread t =>
      cases t with
      | disk id file =>
        intro hmem
        rw [hserve] at hmem ⊢
        rw [hhandled]
        obtain ⟨x, heard, hx, hheard, hP⟩ := h hmem
        exact ⟨x, heard, hx, hheard, hstores _ _ _ _ _ hP⟩
      | _ => exact absurd rfl hoff
    | _ => exact absurd rfl hoff

/-- An event of another connection. -/
theorem Conversation.tookOther (hconv : Conversation crypto cfg r conn good P) (hinv : NetInv net)
    (h : Converses P conn net) {net' : Net} {e : Event} {host : Host} {now : Nat}
    (hother : e.conn ≠ some conn)
    (hserve : net'.serve = step crypto cfg net.serve (.event e host now))
    (hhandled : net'.handled = net.handled ++ [e]) : Converses P conn net' := by
  intro hmem
  have hopen : conn ∈ net.serve.conns := by
    rw [hserve] at hmem
    exact (keys_event net.serve _ host now conn).1 hmem
  refine hconv.apart h hserve ?_ (hinv.mem_accepted hopen) (decide_eq_false hother) rfl hmem
  have hskip : eventsOf conn [e] = [] := List.filter_eq_nil_iff.mpr fun e' he => by
    rw [List.mem_singleton.mp he]
    simpa using hother
  rw [hhandled, eventsOf_append, hskip, List.append_nil]

theorem converses_step (hconv : Conversation crypto cfg r conn good P) (hinv : NetInv net)
    (hspoken : (net.sessions conn).read <+: r.sent (net.sessions conn).written)
    (h : Converses P conn net) {a : NetAct} (hhost : HostGood good conn net a)
    (hdisk : (∀ id file, a ≠ .disk id file) ∨
      ∀ x store store' heard said, P x store heard said → P x store' heard said) :
    Converses P conn (netStep crypto cfg net a) := by
  cases netStep_loop crypto cfg net a with
  | kept hserve hhandled =>
    intro hmem
    rw [hserve] at hmem ⊢
    rw [hhandled]
    exact h hmem
  | quiet act hact hoff hserve hhandled =>
    exact hconv.quiet hinv h hact hserve hhandled (hdisk.imp_left hoff)
  | took e host now rest htake hpc hchannel hserve hhandled =>
    by_cases hown : e.conn = some conn
    · have hgood := hhost host now e rest htake hchannel hown
      rcases eventOf_of_conn hown with rfl | ⟨m, rfl⟩
      · intro hmem
        rw [hserve, step, if_pos hpc] at hmem
        exact absurd rfl (AList.mem_erase.mp hmem).1
      · exact hconv.took hinv hspoken h hpc hchannel hgood hserve hhandled
    · exact hconv.tookOther hinv h hown hserve hhandled

/-- What was read of such a peer, in every run. -/
theorem net_spoken {nextConn : Nat} {store : Store} {acts : List NetAct}
    (hspeaks : EachStep (netStep crypto cfg) (fun _ => Speaks r conn) (.init nextConn store) acts) :
    Always (netStep crypto cfg) (fun _ net => NetInv net ∧
      (net.sessions conn).read <+: r.sent (net.sessions conn).written) (.init nextConn store)
        acts := by
  refine always_of_step ⟨netInv_init _ _, List.nil_prefix⟩ ?_ hspeaks
  rintro h net b ⟨hinv, hspoken⟩ hsp
  exact ⟨netInv_step hinv b, spoken_step hinv hsp hspoken⟩

theorem net_conversation (hconv : Conversation crypto cfg r conn good P) {nextConn : Nat}
    {store : Store} {acts : List NetAct}
    (hspeaks : EachStep (netStep crypto cfg) (fun _ => Speaks r conn) (.init nextConn store) acts)
    (hhost :
      EachStep (netStep crypto cfg) (fun _ => HostGood good conn) (.init nextConn store) acts)
    (hdisk : (∀ id file, .disk id file ∉ acts) ∨
      ∀ x store store' heard said, P x store heard said → P x store' heard said) :
    Converses P conn (stateAfter (netStep crypto cfg) (.init nextConn store) acts) := by
  have hall :
      Always (netStep crypto cfg) (fun _ net => Converses P conn net) (.init nextConn store)
        acts := by
    have hconds : EachStep (netStep crypto cfg) (fun _ net a =>
        (NetInv net ∧ (net.sessions conn).read <+: r.sent (net.sessions conn).written) ∧
        HostGood good conn net a ∧ ((∀ id file, a ≠ .disk id file) ∨
          ∀ x store store' heard said, P x store heard said → P x store' heard said))
        (.init nextConn store) acts := by
      intro pre a hpre
      refine ⟨net_spoken hspeaks pre ((List.prefix_append pre [a]).trans hpre), hhost pre a hpre,
        hdisk.imp_left fun hoff id file heq => hoff id file ?_⟩
      rw [← heq]
      exact hpre.subset (List.mem_append_right _ (List.mem_singleton_self a))
    refine always_of_step (fun h => by cases h) ?_ hconds
    rintro - net a h ⟨⟨hinv, hspoken⟩, hgood, hstore⟩
    exact converses_step hconv hinv hspoken h hgood hstore
  exact hall acts List.prefix_rfl

end

/-- The host does everything it is asked for. -/
def willingHost : Host := { quietHost with createError := none, taskSent := true }

/-- A message is read, handled and answered. -/
def exchange (conn : Nat) (m : ClientToServer) : List NetAct :=
  [.receive conn (.ok (some m)), .loop (.scan (.ok none) 0), .loop (.choose fun _ => 0),
    .loop (.complete 0 none none), .take willingHost 0, .receive conn (.ok none), .pump conn true,
    .pump conn true]

end Provework.Coordinator
