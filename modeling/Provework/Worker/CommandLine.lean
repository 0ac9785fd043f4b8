import Provework.Worker.Daemon

/-!
# The makers of signed results (`cmd_run` of `crates/worker/src/main.rs`)

A result is made in three places: on the two paths of the daemon, for legacy jobs and
for SP1-native ones, and by `worker run`. The coordinator checks all of them with
`verify_signature`, over the whole result. The daemon signs the whole result.
`worker run` signs the bytes of the result hash. `signedResult_verifies_iff` says what
comes of it: the daemon's results verify, and none of `worker run` does.

Modelling notes:
- Where the result is written to is left out, and so are the log lines.
- `flip_last` works on bytes. It is given hex digits, so it works on characters here.
-/

namespace Provework.Worker

open Provework.Lib Provework.Jobfmt Provework.Contentstore Provework.Rvcore Provework.Coordinator

/-! ## Identities -/

/-- A file for the seed of a key: what reading it gives, the seed to be drawn if that
is none, and whether that one can be written (the daemon makes its directory first). -/
structure IdentityFile where
  content : Option (List U8)
  fresh : Fin 32 → U8
  written : Bool

/-- `signingKey` is `SigningKey::from_bytes`; `none` is the panic over a file that
cannot be written. -/
def loadOrCreateIdentity (signingKey : List U8 → Identity) (file : IdentityFile) :
    Option Identity :=
  match file.content.filter fun seed => seed.length = 32 with
  | some seed => some (signingKey seed)
  | none => if file.written then some (signingKey (List.ofFn file.fresh)) else none

/-! ## `worker run` -/

structure RunArgs where
  jobDir : Dir
  id : String
  /-- Lie about the last hash. -/
  corrupt : Bool
  snapshots : Bool
  syscalls : Bool
  identity : Option IdentityFile

/-- Odd lengths and bad digits are `some none`; `none` is the panic of a slice that
cuts a character. -/
def unhex (s : String) : Attempt (List U8) :=
  if (utf8 s).length % 2 ≠ 0 then some none
  else (radixLoop (fun _ => ()) (utf8 s) ((utf8 s).length / 2) 0).map Except.toOption

/-- The last digit becomes another one. -/
def flipLast (s : String) : String :=
  match s.toList.getLast? with
  | none => s
  | some c => String.ofList (s.toList.dropLast ++ [if c = '0' then '1' else '0'])

section

variable (host : WorkerHost) (args : RunArgs) (job : Job)

def commandOutcome : Attempt RunOutcome :=
  match Elf.parse job.elf with
  | .error _ => some none
  | .ok image =>
    match Elf.load Mem.new image with
    | (.error _, _) => some none
    | (.ok (), mem) =>
      (run host.blake3
        { chunkSize := job.manifest.chunkSize
          maxInstructions := job.manifest.maxInstructions
          syscalls := args.syscalls
          snapshotDir := args.snapshots
          tohostAddr := none } mem image.entry job.input).map some

/-- The result, before it is signed. -/
def commandReport (out : RunOutcome) : WorkerResult :=
  let hashes := out.chunkHashes.map fun h => hex (List.ofFn h)
  let resultHash := hashes.getLast?.getD (hex (List.ofFn genesis))
  let lies := args.corrupt && !hashes.isEmpty
  { workerId := args.id
    jobId := job.manifest.id
    status := statusText out.status
    instructions := BitVec.ofNat 64 out.instructions
    resultHash := if lies then flipLast resultHash else resultHash
    chunkHashes := if lies then hashes.dropLast ++ (hashes.getLast?.map flipLast).toList else hashes
    outputHex := out.output.map hex
    trap := match out.status with
      | .trapped t => some (host.trapText t)
      | _ => none
    pubkeyHex := none
    sigHex := none }

/-- The hash of the result is what is signed; that it is hex is `expect`ed. -/
def signedHash (key : Identity) (r : WorkerResult) : Option WorkerResult :=
  match unhex r.resultHash with
  | some (some msg) =>
    some { r with
      pubkeyHex := some (hex key.verifyingKey)
      sigHex := some (hex (key.sign msg)) }
  | _ => none

/-- `some none` is an exit with status 2. -/
def cmdRun (signingKey : List U8 → Identity) : Attempt WorkerResult :=
  Attempt.andThen (some (loadDir host.readManifest args.jobDir)) fun job =>
  (commandOutcome host args job).andThen fun out =>
  let r := commandReport host args job out
  match args.identity with
  | none => some (some r)
  | some file =>
    match loadOrCreateIdentity signingKey file with
    | none => none
    | some key => (signedHash key r).map some

end

/-! ## The bytes it signs -/

theorem unhex_hex (bs : List U8) : unhex (hex bs) = some (some bs) := by
  have hread := radixLoop_hexCodes (fun _ => ()) bs []
  rw [List.nil_append, List.length_nil] at hread
  rw [unhex, utf8_hex, length_hexCodes, Nat.mul_mod_left, if_neg (fun h => h rfl),
    Nat.mul_div_cancel _ (by decide), hread]
  rfl

/-- What is flipped is the last digit of the last byte. -/
theorem flipLast_hex {bs : List U8} (h : bs ≠ []) :
    ∃ bs', bs'.length = bs.length ∧ flipLast (hex bs) = hex bs' := by
  obtain ⟨front, b, rfl⟩ := (List.eq_nil_or_concat bs).resolve_left h
  rw [List.concat_eq_append]
  have hchars : (hex (front ++ [b])).toList
      = (front.flatMap hexByte ++ [Nat.digitChar (b.toNat / 16)])
        ++ [Nat.digitChar (b.toNat % 16)] := by
    simp [hex, hexByte]
  -- the digit that is put there is 0 or 1
  obtain ⟨d, hd, hdigit⟩ : ∃ d < 16,
      (if Nat.digitChar (b.toNat % 16) = '0' then '1' else '0') = Nat.digitChar d := by
    split
    · exact ⟨1, by decide, rfl⟩
    · exact ⟨0, by decide, rfl⟩
  have hb := b.isLt
  have hbyte : (BitVec.ofNat 8 (b.toNat / 16 * 16 + d)).toNat = b.toNat / 16 * 16 + d := by
    rw [BitVec.toNat_ofNat, Nat.mod_eq_of_lt (by omega)]
  have hflip : flipLast (hex (front ++ [b])) = String.ofList
      ((front.flatMap hexByte ++ [Nat.digitChar (b.toNat / 16)]) ++ [Nat.digitChar d]) := by
    rw [flipLast, hchars, List.getLast?_concat, List.dropLast_concat, ← hdigit]
  refine ⟨front ++ [BitVec.ofNat 8 (b.toNat / 16 * 16 + d)], by simp, ?_⟩
  rw [hflip, hex, List.flatMap_append, List.flatMap_singleton, hexByte, hbyte,
    show (b.toNat / 16 * 16 + d) / 16 = b.toNat / 16 by omega,
    show (b.toNat / 16 * 16 + d) % 16 = d by omega, List.append_assoc]
  rfl

/-- Whatever the run was and whether it lies, the hash of the result is 32 bytes. -/
theorem commandReport_resultHash (host : WorkerHost) (args : RunArgs) (job : Job)
    (out : RunOutcome) :
    ∃ bytes, bytes.length = 32 ∧ (commandReport host args job out).resultHash = hex bytes := by
  have hlast : ∃ bytes, bytes.length = 32 ∧
      (out.chunkHashes.map fun h => hex (List.ofFn h)).getLast?.getD (hex (List.ofFn genesis))
        = hex bytes := by
    rw [List.getLast?_map]
    cases out.chunkHashes.getLast? with
    | none => exact ⟨List.ofFn genesis, List.length_ofFn, rfl⟩
    | some h => exact ⟨List.ofFn h, List.length_ofFn, rfl⟩
  obtain ⟨bytes, hlength, hbytes⟩ := hlast
  have hne : bytes ≠ [] := by
    intro h
    rw [h] at hlength
    cases hlength
  dsimp only [commandReport]
  rw [hbytes]
  split
  · obtain ⟨bytes', hlength', hflip⟩ := flipLast_hex hne
    exact ⟨bytes', hlength'.trans hlength, hflip⟩
  · exact ⟨bytes, hlength, rfl⟩

/-- A whole result is longer than a hash: it has the digits of one in it. -/
theorem length_signingMessage {r : WorkerResult} {bytes : List U8} (h : r.resultHash = hex bytes) :
    2 * bytes.length < (signingMessage r).length := by
  simp only [signingMessage, put, h, utf8_hex, List.length_append, length_leBytes, length_hexCodes]
  omega

/-! ## At the coordinator -/

/-- A key pair for the coordinator's checks: its signatures verify, and one of 32 bytes
verifies for nothing else. Of all messages at once that cannot be asked; there are
more of them than signatures. -/
structure KeyPair (crypto : Crypto) (identity : Identity) : Prop extends Signs crypto identity where
  only : ∀ msg bytes : List U8, bytes.length = 32 →
    crypto.verify identity.verifyingKey msg (identity.sign bytes) = .ok () → msg = bytes

/-- The makers of signed results. Which path the daemon takes depends on its build
and on the manifest. -/
inductive Producer where
  | daemon (cfg : DaemonConfig) (descriptor : JobDescriptor) (store : Store)
  | commandLine (args : RunArgs)

/-- What is made with the identity in `file`. -/
def Producer.signedResult (host : WorkerHost) (signingKey : List U8 → Identity)
    (file : IdentityFile) :
    Producer → Attempt WorkerResult
  | .daemon cfg descriptor store =>
    match loadOrCreateIdentity signingKey file with
    | none => none
    | some key => assignmentResult cfg { host with identity := some key } descriptor store
  | .commandLine args => cmdRun host { args with identity := some file } signingKey

theorem loadOrCreateIdentity_some {signingKey : List U8 → Identity} {file : IdentityFile}
    {key : Identity} (h : loadOrCreateIdentity signingKey file = some key) :
    ∃ seed, seed.length = 32 ∧ key = signingKey seed := by
  unfold loadOrCreateIdentity at h
  split at h
  next seed hseed =>
    obtain ⟨-, hlength⟩ := Option.filter_eq_some_iff.mp hseed
    exact ⟨seed, of_decide_eq_true hlength, (Option.some.inj h).symm⟩
  next =>
    split at h
    · exact ⟨_, List.length_ofFn, (Option.some.inj h).symm⟩
    · cases h

/-- Key and signature decode, but it is another message that was signed. -/
theorem signedHash_fails {crypto : Crypto} {key : Identity} (hkey : KeyPair crypto key)
    {r r' : WorkerResult} {bytes : List U8} (hlength : bytes.length = 32)
    (hhash : r.resultHash = hex bytes) (hr : signedHash key r = some r') :
    r'.workerId = r.workerId ∧ verifySignature crypto r' ≠ .ok () := by
  have hread : unhex r.resultHash = some (some bytes) := by rw [hhash, unhex_hex]
  rw [signedHash, hread] at hr
  have hr := Option.some.inj hr
  subst hr
  refine ⟨rfl, ?_⟩
  rw [verifySignature_of_key hkey.toSigns bytes rfl rfl]
  intro h
  have hsame := hkey.only _ _ hlength (mapError_ok h)
  have hlong := length_signingMessage hhash
  have hsize : (signingMessage r).length = bytes.length := congrArg List.length hsame
  omega

/-- What `worker run --identity` returns has its name on it and does not verify. -/
theorem cmdRun_signed {crypto : Crypto} {host : WorkerHost} {signingKey : List U8 → Identity}
    (hkeys : ∀ seed, seed.length = 32 → KeyPair crypto (signingKey seed)) {args : RunArgs}
    {file : IdentityFile} (hfile : args.identity = some file) {r : WorkerResult}
    (hr : cmdRun host args signingKey = some (some r)) :
    r.workerId = args.id ∧ verifySignature crypto r ≠ .ok () := by
  obtain ⟨job, -, hr⟩ := Attempt.andThen_eq_some_iff.mp hr
  obtain ⟨out, -, hr⟩ := Attempt.andThen_eq_some_iff.mp hr
  rw [hfile] at hr
  dsimp only at hr
  split at hr
  next => cases hr
  next key hload =>
    obtain ⟨seed, hseed, rfl⟩ := loadOrCreateIdentity_some hload
    obtain ⟨r', hsigned, hr⟩ := Option.map_eq_some_iff.mp hr
    obtain rfl := Option.some.inj hr
    obtain ⟨bytes, hlength, hhash⟩ := commandReport_resultHash host args job out
    exact signedHash_fails (hkeys seed hseed) hlength hhash hsigned

/-- A signed result verifies exactly if the daemon made it. -/
theorem signedResult_verifies_iff (crypto : Crypto) (host : WorkerHost)
    (signingKey : List U8 → Identity)
    (hkeys : ∀ seed, seed.length = 32 → KeyPair crypto (signingKey seed)) (file : IdentityFile)
    (producer : Producer) (r : WorkerResult)
    (hr : producer.signedResult host signingKey file = some (some r)) :
    verifySignature crypto r = .ok () ↔
      ∃ cfg descriptor store, producer = .daemon cfg descriptor store := by
  cases producer with
  | daemon cfg descriptor store =>
    refine iff_of_true ?_ ⟨cfg, descriptor, store, rfl⟩
    rw [Producer.signedResult] at hr
    split at hr
    next => cases hr
    next key hload =>
      obtain ⟨seed, hseed, rfl⟩ := loadOrCreateIdentity_some hload
      obtain ⟨manifest, r₀, -, -, rfl⟩ := assignmentResult_some hr
      exact verifySignature_signed (hkeys seed hseed).toSigns r₀
  | commandLine args =>
    refine iff_of_false ?_ (by rintro ⟨cfg, descriptor, store, h⟩; cases h)
    exact (cmdRun_signed hkeys rfl hr).2

/-! ## One job, two makers -/

/-- Signatures that hold a message of 32 bytes. -/
def holdingSign (msg : List U8) : List U8 :=
  if msg.length = 32 then msg ++ List.replicate 32 0 else List.replicate 64 1

def holdingKey : Identity := { verifyingKey := List.replicate 32 1, sign := holdingSign }

def holdingCrypto : Crypto :=
  { blake3 := lengthHash
    keyFromBytes := fun _ => .ok ()
    verify := fun _ msg sig => if sig = holdingSign msg then .ok () else .error "signature error" }

theorem holdingKey_pair : KeyPair holdingCrypto holdingKey where
  keyLength := rfl
  key := rfl
  sigLength := by
    intro msg
    show (holdingSign msg).length = 64
    unfold holdingSign
    split
    next h => rw [List.length_append, h, List.length_replicate]
    next => rw [List.length_replicate]
  verifies := fun msg => if_pos rfl
  only := by
    intro msg bytes hlength h
    have hsame : holdingSign bytes = holdingSign msg := by
      by_contra hne
      rw [show holdingCrypto.verify holdingKey.verifyingKey msg (holdingKey.sign bytes)
        = .error "signature error" from if_neg hne] at h
      cases h
    rw [holdingSign, holdingSign, if_pos hlength] at hsame
    split at hsame
    · exact (List.append_cancel_right hsame).symm
    · -- the other signatures do not end in zero
      have hlast := congrArg List.getLast? hsame
      rw [List.getLast?_append] at hlast
      cases hlast

def seedFile : IdentityFile :=
  { content := some (List.replicate 32 7), fresh := fun _ => 0, written := true }

theorem signedResult_verifies_ebreak : ∃ r,
    (Producer.daemon plainDaemon (describedAs "job-1") (demoStore [0x02, 0x90])).signedResult
      toyWorker
        (fun _ => holdingKey) seedFile = some (some r) ∧
      verifySignature holdingCrypto r = .ok () := by
  have hanswer :
    (Producer.daemon plainDaemon (describedAs "job-1") (demoStore [0x02, 0x90])).signedResult
      toyWorker (fun _ => holdingKey) seedFile
        = some (some (signed (some holdingKey) ebreakReport)) :=
    answer_signed "job-1" (by decide +kernel) (some holdingKey)
  refine ⟨_, hanswer, (signedResult_verifies_iff holdingCrypto toyWorker (fun _ => holdingKey)
    (fun _ _ => holdingKey_pair) seedFile _ _ hanswer).mpr ⟨_, _, _, rfl⟩⟩

/-- The directory of the same job. -/
def ebreakDir : Dir := fun name =>
  if name = "job.json" then some (utf8 demoJson)
  else if name = "program.elf" then some (tinyElf [0x02, 0x90])
  else if name = "input.bin" then some []
  else none

def ebreakArgs : RunArgs :=
  { jobDir := ebreakDir, id := "w1", corrupt := false, snapshots := false, syscalls := false
    identity := some seedFile }

/-- `worker run --identity` on the same job: the result is made, and refused. -/
theorem cmdRun_refused : KeyPair holdingCrypto holdingKey ∧
    ∃ r, cmdRun toyWorker ebreakArgs (fun _ => holdingKey) = some (some r) ∧
      verifySignature holdingCrypto r = .error "signature: signature error" := by
  refine ⟨holdingKey_pair, ?_⟩
  have hrun : (cmdRun toyWorker ebreakArgs fun _ => holdingKey).map
      (Option.map (verifySignature holdingCrypto))
        = some (some (.error "signature: signature error")) := by
    decide +kernel
  obtain ⟨o, ho, hrun⟩ := Option.map_eq_some_iff.mp hrun
  obtain ⟨r, rfl, hr⟩ := Option.map_eq_some_iff.mp hrun
  exact ⟨r, ho, hr⟩

end Provework.Worker
