import Provework.Lib.History
import Provework.Coordinator.Moves

/-!
# Who a connection is

A connection proves a key by signing the nonce it was sent, with the work done
over that nonce (`proves`). `Authenticated` says that every authenticated
connection bears a key it has proved. `NonceSig` keeps that; `Hello` does not
look at `authed`, so a second `Hello` can put any key on an authenticated
connection. `serve_authenticated_iff` is exact: a run keeps `Authenticated`
throughout if and only if no `Hello` does that.
-/

namespace Provework.Coordinator

open Provework.Lib Provework.Jobfmt Provework.Contentstore Provework.Wire

section

variable (crypto : Crypto) (cfg : ServeConfig)

/-- Taking this act in this state proves the key `pk` on `conn`: the signature
verifies over a nonce sent on `conn`, and so does the proof-of-work. -/
def proves (conn : Nat) (pk : String) : Serve × Act → Bool
  | (s, .event (.nonceSig c (some sig) powCounter) _ _) =>
    s.pc = .events && c = conn &&
      match s.conns.lookup conn with
      | none => false
      | some x =>
        match x.nonce with
        | none => false
        | some nonce =>
          x.pubkey = some pk && s.sent.contains (conn, .nonce (hex nonce) cfg.identityPowBits)
            && verifyPow crypto.blake3 nonce powCounter cfg.identityPowBits
            && (verifyNonce crypto pk nonce sig).isOk
  | _ => false

/-- Every authenticated connection bears a key it has proved. -/
def Authenticated (h : List (Serve × Act)) (s : Serve) : Prop :=
  ∀ conn x, s.conns.lookup conn = some x → x.authed = true →
    ∃ pk, x.pubkey = some pk ∧ ∃ p ∈ h, proves crypto cfg conn pk p = true

/-- A `Hello` on an authenticated connection names a key proved on it before. -/
def HelloKeepsKey (h : List (Serve × Act)) (s : Serve) : Act → Prop
  | .event (.hello conn pubkey _ _ _) _ _ => s.pc = .events →
    ∀ x, s.conns.lookup conn = some x → x.authed = true →
      pubkey ≠ "" ∧ ∃ p ∈ h, proves crypto cfg conn pubkey p = true
  | _ => True

/-- A connection's nonce was sent on it. -/
def Issued (s : Serve) : Prop :=
  ∀ conn x nonce, s.conns.lookup conn = some x → x.nonce = some nonce →
    (conn, .nonce (hex nonce) cfg.identityPowBits) ∈ s.sent

end

section

variable {crypto : Crypto} {cfg : ServeConfig} {s : Serve} {a : Act} {h : List (Serve × Act)}

theorem issued_step (hi : Issued cfg s) (a : Act) : Issued cfg (step crypto cfg s a) := by
  intro conn y nonce hy hnonce
  have hmove := step_moves crypto cfg s a
  have hold : ∀ x, s.conns.lookup conn = some x → x.nonce = some nonce →
      (conn, .nonce (hex nonce) cfg.identityPowBits) ∈ (step crypto cfg s a).sent :=
    fun x hx hn => (moves_sent hmove).subset (hi conn x nonce hx hn)
  cases moves_conn hmove hy with
  | kept uploads hx => exact hold _ hx hnonce
  | opened peerIp hnew => cases hnonce
  | greeted hpc hx hsent =>
    cases hnonce
    exact hsent
  | admitted hpc hx hok => exact hold _ hx hnonce

/-- With identities required, admission is a proof of the recorded key. -/
theorem proves_of_authOk (hid : cfg.requireIdentity = true) (hi : Issued cfg s) {conn : Nat}
    {x : Conn} {sig : Option String} {powCounter : U64} {host : Host} {now : Nat}
    (hpc : s.pc = .events) (hx : s.conns.lookup conn = some x)
    (hok : authOk crypto cfg x sig powCounter = true) :
    ∃ pk, x.pubkey = some pk ∧
      proves crypto cfg conn pk (s, .event (.nonceSig conn sig powCounter) host now) = true := by
  unfold authOk at hok
  -- with identities required, every path to `true` goes through a nonce, a key and a signature
  cases hnonce : x.nonce with
  | none => simp [hnonce] at hok
  | some nonce =>
    have hsent := hi conn x nonce hx hnonce
    cases hpk : x.pubkey with
    | none => simp [hnonce, hpk, hid] at hok
    | some pk =>
      cases sig with
      | none => simp [hnonce, hpk] at hok
      | some sig =>
        simp only [hnonce, hpk, Bool.and_eq_true] at hok
        refine ⟨pk, rfl, ?_⟩
        simp [proves, hpc, hx, hnonce, hpk, hsent, hok.1, hok.2]

/-- The table after a `Hello` on a live connection. -/
theorem lookup_hello {conn : Nat} {x : Conn} {pubkey workerId role : String} {port : Option Nat}
    {host : Host} {now : Nat} (hpc : s.pc = .events) (hx : s.conns.lookup conn = some x) :
    (step crypto cfg s (.event (.hello conn pubkey workerId port role) host now)).conns.lookup conn
      = some (x.greet (List.ofFn host.nonce) pubkey workerId port role) := by
  simp only [step, if_pos hpc, Serve.handle, Serve.onEvent, Serve.onHello, hx]
  exact AList.lookup_insert _

theorem helloKeepsKey_of_step
    (hauth : Authenticated crypto cfg (h ++ [(s, a)]) (step crypto cfg s a)) :
    HelloKeepsKey crypto cfg h s a := by
  unfold HelloKeepsKey
  split
  next conn pubkey workerId port role host now =>
    intro hpc x hx hauthed
    obtain ⟨pk, hpk, p, hp, hproves⟩ := hauth conn _ (lookup_hello hpc hx) hauthed
    have hkey : pubkey ≠ "" ∧ pubkey = pk := by
      simp only [Conn.greet] at hpk
      split at hpk
      · cases hpk
      next hne => exact ⟨hne, Option.some.inj hpk⟩
    refine ⟨hkey.1, p, ?_, hkey.2 ▸ hproves⟩
    -- the `Hello` itself proves nothing
    rcases List.mem_append.mp hp with hp | hp
    · exact hp
    · rw [List.mem_singleton.mp hp] at hproves
      cases hproves
  next => trivial

theorem authenticated_step (hid : cfg.requireIdentity = true) (hi : Issued cfg s)
    (hauth : Authenticated crypto cfg h s) (hkey : HelloKeepsKey crypto cfg h s a) :
    Authenticated crypto cfg (h ++ [(s, a)]) (step crypto cfg s a) := by
  intro conn y hy hauthed
  -- a proof made before is still one
  have hearlier : ∀ {pk : String}, (∃ p ∈ h, proves crypto cfg conn pk p = true) →
      ∃ p ∈ h ++ [(s, a)], proves crypto cfg conn pk p = true :=
    fun ⟨p, hp, hproves⟩ => ⟨p, List.mem_append_left _ hp, hproves⟩
  cases moves_conn (step_moves crypto cfg s a) hy with
  | kept uploads hx =>
    obtain ⟨pk, hpk, hproved⟩ := hauth conn _ hx hauthed
    exact ⟨pk, hpk, hearlier hproved⟩
  | opened peerIp hnew => cases hauthed
  | greeted hpc hx hsent =>
    obtain ⟨hne, hproved⟩ := hkey hpc _ hx hauthed
    exact ⟨_, if_neg hne, hearlier hproved⟩
  | admitted hpc hx hok =>
    obtain ⟨pk, hpk, hproves⟩ := proves_of_authOk hid hi hpc hx hok
    exact ⟨pk, hpk, _, List.mem_append_right _ (List.mem_singleton_self _), hproves⟩

end

/-- A run keeps every authenticated connection under a key it has proved, in
every state it passes, exactly if each `Hello` it handles on an authenticated
connection names a key proved on that connection before. -/
theorem serve_authenticated_iff (crypto : Crypto) (cfg : ServeConfig)
    (hid : cfg.requireIdentity = true) (nextConn : Nat) (store : Store) (acts : List Act) :
    Always (step crypto cfg) (Authenticated crypto cfg) (Serve.init nextConn store) acts ↔
      EachStep (step crypto cfg) (HelloKeepsKey crypto cfg) (Serve.init nextConn store) acts := by
  have hissued : Issued cfg (Serve.init nextConn store) := by
    intro conn x nonce hx
    cases hx
  have hinit : Authenticated crypto cfg [] (Serve.init nextConn store) := by
    intro conn x hx
    cases hx
  exact always_iff (J := fun _ s => Issued cfg s) hissued (fun _ _ a hi => issued_step hi a) hinit
    (fun _ _ _ hi hauth => ⟨helloKeepsKey_of_step, authenticated_step hid hi hauth⟩)

/-! ## A session -/

/-- Signatures that repeat the key, and a hash of zeros. -/
def toyCrypto : Crypto :=
  { blake3 := fun _ _ => 0
    keyFromBytes := fun _ => .ok ()
    verify := fun key _ sig => if sig = key ++ key then .ok () else .error "signature error" }

def identityConfig : ServeConfig :=
  { jobsDir := "jobs"
    perJobDeadline := 90
    requireIdentity := true
    zk := false
    zkProver := false
    acceptSubmissions := false
    identityPowBits := 8
    pool := some 2
    maxJobs := none
    round1Size := none
    round1Ids := none }

def keyHex (n : Nat) : String := hex (List.replicate 32 (BitVec.ofNat 8 n))

/-- What the holder of key `n` signs with. -/
def sigHex (n : Nat) : String := hex (List.replicate 64 (BitVec.ofNat 8 n))

def quietHost : Host :=
  { nonce := fun _ => 5
    putError := none
    createError := some "File exists (os error 17)"
    writeError := none
    taskSent := false
    receipt := .error "no verifier"
    cutOff := false }

/-- One turn of the loop that ends with the event `e`. -/
def turnWith (found : Option QueuedJob) (e : Event) : List Act :=
  [.scan (.ok found) 0, .choose fun _ => 0, .hold, .assign 0, .complete 0 none none,
    .event e quietHost 0]

/-- A turn in which the job that is pending is finished. -/
def settles : List Act := [.scan (.ok none) 0, .choose fun _ => 0, .complete 0 none none]

/-- Connection `conn` introduces itself with key `n` and proves it. -/
def login (conn n : Nat) (workerId : String) : List Act :=
  turnWith none (.hello conn (keyHex n) workerId none "worker")
    ++ turnWith none (.nonceSig conn (some (sigHex n)) 0)

def loginSubmitter (conn n : Nat) (workerId : String) : List Act :=
  turnWith none (.hello conn (keyHex n) workerId none "submitter")
    ++ turnWith none (.nonceSig conn (some (sigHex n)) 0)

def oneLogin : List Act := .thread (.accept "10.0.0.1") :: login 1 1 "wA"

theorem serve_authenticated_login :
    identityConfig.requireIdentity = true ∧
    ((stateAfter (step toyCrypto identityConfig) (Serve.init 1 fun _ => none) oneLogin).conns.lookup
      1).map (fun x => (x.authed, x.pubkey)) = some (true, some (keyHex 1)) ∧
    (Always (step toyCrypto identityConfig) (Authenticated toyCrypto identityConfig)
        (Serve.init 1 fun _ => none) oneLogin ↔
      EachStep (step toyCrypto identityConfig) (HelloKeepsKey toyCrypto identityConfig)
        (Serve.init 1 fun _ => none) oneLogin) :=
  ⟨rfl, by decide +kernel, serve_authenticated_iff toyCrypto identityConfig rfl 1 _ oneLogin⟩

/-- The session goes on with a second `Hello`, under a key never proved. -/
def rekeyed : List Act := oneLogin ++ turnWith none (.hello 1 (keyHex 2) "wA" none "worker")

/-- After it the connection is still authenticated, now under that key, and no
act of the run proved it. -/
theorem authed_under_unproved_key :
    ((stateAfter (step toyCrypto identityConfig) (Serve.init 1 fun _ => none) rekeyed).conns.lookup
      1).map (fun x => (x.authed, x.pubkey)) = some (true, some (keyHex 2)) ∧
    ∀ p ∈ history (step toyCrypto identityConfig) (Serve.init 1 fun _ => none) rekeyed,
      proves toyCrypto identityConfig 1 (keyHex 2) p = false := by
  refine ⟨by decide +kernel, ?_⟩
  have hnone : (history (step toyCrypto identityConfig) (Serve.init 1 fun _ => none) rekeyed).all
      (fun p => !proves toyCrypto identityConfig 1 (keyHex 2) p) = true := by
    decide +kernel
  intro p hp
  simpa using List.all_eq_true.mp hnone p hp

end Provework.Coordinator
