import Provework.Rvcore.Interp
import Provework.Rvcore.Snapshot

/-!
# A whole run (`run` of `crates/rvcore/src/interp.rs`, constants of `crates/abi`)

`run` installs the input, loops `step_mode` up to the instruction budget,
pushes a state hash at every chunk boundary and at the exit, and collects the
output. `runLoop` is the source's `loop`, counting down the budget that is left
(`n >= max_instructions` is `left = 0`), so it terminates by structure. `none`
is a host panic: an input that does not fit, or a step that panics.

Modelling notes:
- The snapshot files a run writes are returned in order as `(index, bytes)`;
  `snapshotDir` only records whether a directory was given.
- The counters are `u64`s bounded by the budget, so they are `Nat`s here. The
  `RVCORE_TRACE` and `RVCORE_PROGRESS` telemetry prints and is left out.
-/

namespace Provework.Rvcore

open Provework.Lib

/-! ## The job ABI -/

def inputLenAddr : U64 := 0x10000000
def inputDataAddr : U64 := 0x10000008
def inputMax : U64 := 0x4000000
def outputLenAddr : U64 := 0x20000000
def outputDataAddr : U64 := 0x20000008
def outputMax : U64 := 0x100000
def stackTop : U64 := 0x83F00000

/-! ## The run -/

inductive ExitStatus where
  | halted
  | tohost (code : U64)
  | instructionLimit
  | trapped (t : Trap)
  deriving DecidableEq, Repr

structure Config where
  chunkSize : U64 := 0x100000
  maxInstructions : U64 := 4000000000
  syscalls : Bool := false
  snapshotDir : Bool := false
  tohostAddr : Option U64 := none

structure RunOutcome where
  status : ExitStatus
  chunkHashes : List Hash
  instructions : Nat
  output : Option (List U8)
  syscallLog : List U8
  /-- The `snap-<index>.bin` files written, in order. -/
  snapshots : List (Nat × List U8)
  /-- The caller's `&mut Mem` afterwards. -/
  mem : Mem

/-- The variables of the loop. -/
structure RunState where
  m : Machine
  prev : Hash
  chain : List Hash
  n : Nat
  inChunk : Nat
  snapshots : List (Nat × List U8)

section

variable (blake3 : List U8 → Hash)

def RunState.pushHash (s : RunState) : RunState :=
  let h := stateHash blake3 s.prev s.m
  { s with prev := h, chain := s.chain ++ [h] }

end

/-- `write_snapshot(cfg, chain.len(), &snap)`. -/
def RunState.writeSnapshot (s : RunState) : Option (List U8) → RunState
  | none => s
  | some bytes => { s with snapshots := s.snapshots ++ [(s.chain.length, bytes)] }

/-- `mcause` of a routed trap. -/
def trapCause : Trap → U64
  | .illegalInstruction _ _ => 2
  | .loadOutOfRange _ => 5
  | .storeOutOfRange _ => 7
  | .ecall => 8
  | _ => 0

/-- Enter the guest's handler. -/
def routeTrap (m : Machine) (t : Trap) : Machine :=
  { m with cpu := { m.cpu with
      mcause := trapCause t
      mepc := m.cpu.pc
      pc := m.cpu.mtvec &&& ~~~3#64 } }

/-- `Ok(false)`. -/
def isContinue : Except Trap Bool → Bool
  | .ok false => true
  | _ => false

section

variable (blake3 : List U8 → Hash) (cfg : Config)

def runLoop : Nat → RunState → Option (RunState × ExitStatus)
  | 0, s => some (s.pushHash blake3, .instructionLimit)
  | left + 1, s =>
    match stepMode s.m cfg.syscalls cfg.tohostAddr with
    | none => none
    | some (m, stepRes) =>
      -- captured before the hash is pushed: its index is the chain's length
      let atBoundary := !isContinue stepRes || s.inChunk + 1 = cfg.chunkSize.toNat
      let snap := if cfg.snapshotDir ∧ atBoundary then some (capture m) else none
      let s := { s with m }
      if cfg.tohostAddr.isSome ∧ m.cpu.tohost.isSome then
        some (s.pushHash blake3, .tohost (m.cpu.tohost.getD 0))
      else
        match stepRes with
        | .ok true =>
          some (({ s with n := s.n + 1 }.writeSnapshot snap).pushHash blake3, .halted)
        | .ok false =>
          let s := { s with n := s.n + 1, inChunk := s.inChunk + 1 }
          if s.inChunk = cfg.chunkSize.toNat then
            runLoop left { (s.writeSnapshot snap).pushHash blake3 with inChunk := 0 }
          else runLoop left s
        | .error t =>
          if m.cpu.mtvec ≠ 0 then
            -- the handler runs; no boundary check on this path
            runLoop left { s with m := routeTrap m t, n := s.n + 1, inChunk := s.inChunk + 1 }
          else some ((s.writeSnapshot snap).pushHash blake3, .trapped t)

/-- `mem.read(OUTPUT_LEN_ADDR, 8).unwrap_or(0)`. -/
def outputLen (mem : Mem) : U64 × Mem :=
  match mem.read outputLenAddr 8 with
  | (.ok len, mem) => (len, mem)
  | (.error _, mem) => (0, mem)

/-- What happens after the loop: the output of a clean halt, or its rejection,
which takes the exit hash off the chain again. -/
def collect (s : RunState) (status : ExitStatus) : RunOutcome :=
  let (status, chain, output, mem) :=
    if status = .halted then
      let (len, mem) := outputLen s.m.mem
      if len > outputMax then
        (ExitStatus.trapped .outputTooLarge, s.chain.dropLast, none, mem)
      else (status, s.chain, (mem.readRegion outputDataAddr len.toNat).toOption, mem)
    else (status, s.chain, none, s.m.mem)
  { status, chunkHashes := chain, instructions := s.n, output, syscallLog := mem.syscallLog
    snapshots := s.snapshots, mem := { mem with syscallLog := [] } }

/-- The memory with the input installed; the writes are `unwrap`ped. -/
def installInput (mem : Mem) (input : List U8) : Option Mem :=
  match mem.write inputLenAddr (leBytes 8 input.length) with
  | (.error _, _) => none
  | (.ok (), mem) =>
    match mem.write inputDataAddr input with
    | (.error _, _) => none
    | (.ok (), mem) => some mem

/-- The registers and memory the loop starts from. -/
def boot (mem : Mem) (entry : U64) : Machine := ⟨Cpu.new entry stackTop, mem⟩

def run (mem : Mem) (entry : U64) (input : List U8) : Option RunOutcome :=
  match installInput mem input with
  | none => none
  | some mem =>
    let s : RunState :=
      { m := boot mem entry, prev := genesis, chain := [], n := 0, inChunk := 0
        snapshots := [] }
    match runLoop blake3 cfg cfg.maxInstructions.toNat s with
    | none => none
    | some (s, status) => some (collect s status)

end

end Provework.Rvcore
