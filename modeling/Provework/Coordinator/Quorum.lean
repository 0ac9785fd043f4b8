import Provework.Jobfmt

/-!
# Signatures and the quorum (`crates/coordinator/src/lib.rs`)

A result counts once its Ed25519 signature over the whole result verifies;
`decide` groups the results of distinct workers by hash and accepts a strict
majority of the pool that was asked. BLAKE3 and Ed25519 are parameters.
-/

namespace Provework.Coordinator

open Provework.Lib Provework.Jobfmt

/-- The primitives the coordinator checks with. -/
structure Crypto where
  blake3 : List U8 → Hash
  /-- `VerifyingKey::from_bytes`. -/
  keyFromBytes : List U8 → Except String Unit
  /-- `VerifyingKey::verify`, of key, message and signature bytes. -/
  verify : List U8 → List U8 → List U8 → Except String Unit

/-- Decode a key and a signature and check the one with the other; the four
signature checks of the coordinator differ in the texts of the last two errors. -/
def Crypto.verifyHex (crypto : Crypto) (keyError sigError : String → String)
    (pubkeyHex sigHex : String) (msg : List U8) : Except String Unit := do
  let pk ← (fromHex pubkeyHex 32).mapError fun e => "pubkey: " ++ e.text
  let sig ← (fromHex sigHex 64).mapError fun e => "signature: " ++ e.text
  (crypto.keyFromBytes pk).mapError keyError
  (crypto.verify pk msg sig).mapError sigError

def verifySignature (crypto : Crypto) (r : WorkerResult) : Except String Unit :=
  match r.pubkeyHex, r.sigHex with
  | some pk, some sig =>
    crypto.verifyHex ("pubkey: " ++ ·) ("signature: " ++ ·) pk sig (signingMessage r)
  | _, _ => .error "result is unsigned"

inductive Decision where
  | accept (hash : String) (outputHex : Option String) (agreed : List String) (zk : Bool)
  | escalate
  | reject (reason : String)
  deriving DecidableEq, Repr

namespace Quorum

/-- The results whose worker id is not in `seen` nor earlier in the list. -/
def dedup (seen : List String) : List WorkerResult → List WorkerResult
  | [] => []
  | r :: rs =>
    if r.workerId ∈ seen then dedup seen rs else r :: dedup (r.workerId :: seen) rs

/-- Add a result to the group of its hash, or as a group of its own. -/
def addToGroups (r : WorkerResult) : List (String × List WorkerResult) →
    List (String × List WorkerResult)
  | [] => [(r.resultHash, [r])]
  | (h, g) :: groups =>
    if h = r.resultHash then (h, g ++ [r]) :: groups else (h, g) :: addToGroups r groups

def groupBy (results : List WorkerResult) : List (String × List WorkerResult) :=
  results.foldl (fun groups r => addToGroups r groups) []

/-- Stable, largest group first. -/
def bySize (groups : List (String × List WorkerResult)) : List (String × List WorkerResult) :=
  groups.mergeSort fun a b => b.2.length ≤ a.2.length

/-- What is left once no group has the majority. -/
def decideWithout (pool threshold trapped : Nat) : Decision :=
  if threshold ≤ trapped then .reject "majority of workers trapped: job is broken"
  else if 5 ≤ pool then .reject "no majority after escalation; bonds returned"
  else .escalate

def decide (poolResults : List WorkerResult) (expectedPool : Nat) : Decision :=
  let deduped := dedup [] poolResults
  let received := deduped.length
  let pool := max expectedPool received
  let threshold := pool / 2 + 1
  let halted := deduped.filter fun r => r.status = "halted"
  let trapped := received - halted.length
  if threshold ≤ halted.length then
    match bySize (groupBy halted) with
    | (hash, first :: rest) :: _ =>
      if threshold ≤ (first :: rest).length then
        if (first :: rest).all fun r => r.chunkHashes = first.chunkHashes then
          .accept hash first.outputHex ((first :: rest).map (·.workerId)) false
        else .reject "winning group disagrees on chunk chain (dispute required)"
      else decideWithout pool threshold trapped
    -- `groups[0]` and `group[0]` exist: the halted results are in the groups
    | _ => decideWithout pool threshold trapped
  else decideWithout pool threshold trapped

end Quorum

/-- Rewards and burns of a decision. -/
def slashing (decision : Decision) (poolResults : List WorkerResult) : List (String × Int) :=
  match decision with
  | .accept _ _ agreed _ =>
    poolResults.map fun r => (r.workerId, if r.workerId ∈ agreed then 10 else -100)
  | _ => poolResults.map fun r => (r.workerId, 0)

end Provework.Coordinator
