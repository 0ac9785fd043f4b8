import Provework.Contentstore

/-!
# The messages, and the price of joining (`crates/wire/src/lib.rs`)

The messages to a client and back, and the admission proof-of-work: a counter such
that BLAKE3 of the nonce followed by the counter starts with enough zero bits.
-/

namespace Provework.Wire

open Provework.Lib Provework.Jobfmt Provework.Contentstore

inductive ServerToClient where
  | nonce (hex : String) (powBits : Nat)
  | authOk (workerId : String)
  | authFailed (reason : String)
  | jobAssignment (descriptor : JobDescriptor) (peerHints : List String)
  | blob (hex : Option String)
  | betweenJobs
  | shutDown (reason : String)
  | jobOutcome (jobId hash : String) (agreed : List String) (outputHex : Option String) (zk : Bool)
      (rejectedReason : Option String)
  | blobAck (idHex : String) (accepted : Bool) (reason : Option String)
  | submissionAck (jobId : String) (accepted : Bool) (reason : Option String) (proving : Bool)
  deriving DecidableEq, Repr

inductive ClientToServer where
  | hello (pubkeyHex workerId : String) (listenPort : Option Nat) (role : String)
  | nonceSignature (sigHex : Option String) (powCounter : U64)
  | blobRequest (idHex : String)
  | jobResult (result : WorkerResult)
  | jobSubmission (submitter : String) (descriptor : JobDescriptor) (pubkeyHex sigHex : String)
      (requireZk : Bool)
  | blobUpload (idHex bytesHex : String)
  | receiptClaim (workerId jobId pubkeyHex sigHex receiptHex : String)
  deriving DecidableEq, Repr

def leadingZeroBits : List U8 → Nat
  | [] => 0
  | b :: bs => if b = 0 then 8 + leadingZeroBits bs else b.clz.toNat

def verifyPow (blake3 : List U8 → Hash) (nonce : List U8) (counter : U64) (bits : Nat) : Bool :=
  min bits 256 ≤ leadingZeroBits (List.ofFn (blake3 (nonce ++ leBytes 8 counter.toNat)))

end Provework.Wire
