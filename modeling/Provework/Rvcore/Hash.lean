import Provework.Lib.HashChain
import Provework.Rvcore.Cpu
import Provework.Rvcore.MemRefine

/-!
# The state hash (`crates/rvcore/src/hash.rs`)

`state_hash` commits to the previous hash, the registers, the machine CSRs and
the memory root. `stateHash_binds` is what that buys: as long as none of the
four messages involved collide, equal hashes mean equal previous hashes and
machines that agree on everything `Machine.SameHashed` lists — all of the
architectural state except the tohost latch and the syscall log.
-/

namespace Provework.Rvcore

open Provework.Lib

/-- The seed of every chain. -/
def genesis : Hash := fun _ => 0

def Cpu.regBytes (c : Cpu) : List U8 :=
  (List.range 32).flatMap fun i => leBytes 8 (c.x (BitVec.ofNat 5 i)).toNat

/-- `[mtvec, mepc, mcause, mstatus]`. -/
def Cpu.csrs (c : Cpu) : List U64 := [c.mtvec, c.mepc, c.mcause, c.mstatus]

section

variable (blake3 : List U8 → Hash)

/-- The byte string `state_hash` feeds to the hasher. -/
def stateMessage (prev : Hash) (m : Machine) : List U8 :=
  List.ofFn prev ++ m.cpu.regBytes ++ leBytes 8 m.cpu.pc.toNat
    ++ m.cpu.csrs.flatMap (fun csr => leBytes 8 csr.toNat) ++ List.ofFn (m.mem.merkleRoot blake3)

def stateHash (prev : Hash) (m : Machine) : Hash := blake3 (stateMessage blake3 prev m)

/-- The messages one `state_hash` call passes to the hasher. -/
def hashedMessages (prev : Hash) (m : Machine) : Set (List U8) :=
  {m.mem.rootMessage, stateMessage blake3 prev m}

end

/-- Equal in everything the state hash covers. -/
structure Machine.SameHashed (m m' : Machine) : Prop where
  x : m.cpu.x = m'.cpu.x
  pc : m.cpu.pc = m'.cpu.pc
  mtvec : m.cpu.mtvec = m'.cpu.mtvec
  mepc : m.cpu.mepc = m'.cpu.mepc
  mcause : m.cpu.mcause = m'.cpu.mcause
  mstatus : m.cpu.mstatus = m'.cpu.mstatus
  pages : m.mem.pages = m'.mem.pages

/-! ## The messages can be read back -/

theorem length_regBytes (c : Cpu) : c.regBytes.length = 256 := by
  simp [Cpu.regBytes, List.length_flatMap]

theorem regBytes_inj {c c' : Cpu} (h : c.regBytes = c'.regBytes) : c.x = c'.x := by
  funext r
  have hr : BitVec.ofNat 5 r.toNat = r := by simp
  have hmem : r.toNat ∈ List.range 32 := List.mem_range.mpr r.isLt
  have hbytes := flatMap_right_inj (fun i => by simp) h r.toNat hmem
  rw [hr] at hbytes
  exact leBytes_toNat_inj (by decide) hbytes

theorem csrBytes_inj {cs cs' : List U64}
    (h : cs.flatMap (fun csr => leBytes 8 csr.toNat) = cs'.flatMap fun csr => leBytes 8 csr.toNat) :
    cs = cs' :=
  flatMap_left_inj (by decide) (fun _ => length_leBytes 8 _)
    (fun _ _ he => leBytes_toNat_inj (by decide) he) h

theorem length_pageRecord (r : U32 × Page) : (pageRecord r).length = 4100 := by
  rw [pageRecord, List.length_append, length_leBytes, List.length_ofFn]

theorem pageRecord_injective : Function.Injective pageRecord := by
  rintro ⟨i, p⟩ ⟨j, q⟩ h
  obtain ⟨hi, hp⟩ := List.append_inj h (by rw [length_leBytes, length_leBytes])
  exact Prod.ext (leBytes_toNat_inj (by decide) hi) (List.ofFn_injective hp)

theorem length_rootMessage (m : Mem) : m.rootMessage.length = 4100 * m.allocatedPages := by
  have hconst : ∀ p ∈ m.pageDir.toList, (pageRecord (p.1, m.page p.2)).length = 4100 :=
    fun p _ => length_pageRecord _
  rw [Mem.rootMessage, List.length_flatMap, List.map_congr_left hconst, List.map_const',
    List.sum_replicate_nat, Mem.allocatedPages, Std.ExtTreeMap.length_toList, Nat.mul_comm]

/-- The memory root's message determines the page map. -/
theorem rootMessage_inj {m m' : Mem} (h : m.rootMessage = m'.rootMessage) :
    m.pages = m'.pages := by
  rw [Mem.rootMessage_eq, Mem.rootMessage_eq] at h
  exact Std.ExtTreeMap.ext_toList
    (List.Perm.of_eq (flatMap_left_inj (by decide) length_pageRecord pageRecord_injective h))

section

variable {blake3 : List U8 → Hash} {prev prev' : Hash} {m m' : Machine}

theorem length_stateMessage (prev : Hash) (m : Machine) :
    (stateMessage blake3 prev m).length = 360 := by
  simp [stateMessage, length_regBytes, Cpu.csrs]

/-- The state message determines the previous hash, the registers and the
memory root: all its pieces have fixed widths. -/
theorem stateMessage_inj (h : stateMessage blake3 prev m = stateMessage blake3 prev' m') :
    prev = prev' ∧ m.cpu.x = m'.cpu.x ∧ m.cpu.pc = m'.cpu.pc ∧ m.cpu.csrs = m'.cpu.csrs ∧
      m.mem.merkleRoot blake3 = m'.mem.merkleRoot blake3 := by
  unfold stateMessage at h
  obtain ⟨h, hroot⟩ := List.append_inj' h (by rw [List.length_ofFn, List.length_ofFn])
  obtain ⟨h, hcsrs⟩ := List.append_inj' h (by simp [Cpu.csrs])
  obtain ⟨h, hpc⟩ := List.append_inj' h (by rw [length_leBytes, length_leBytes])
  obtain ⟨hprev, hx⟩ := List.append_inj' h (by rw [length_regBytes, length_regBytes])
  exact ⟨List.ofFn_injective hprev, regBytes_inj hx, leBytes_toNat_inj (by decide) hpc,
    csrBytes_inj hcsrs, List.ofFn_injective hroot⟩

/-- **The state hash binds**: if the messages of two calls do not collide,
equal hashes mean equal previous hashes and equal hashed states. -/
theorem stateHash_binds
    (hinj : Set.InjOn blake3 (hashedMessages blake3 prev m ∪ hashedMessages blake3 prev' m'))
    (h : stateHash blake3 prev m = stateHash blake3 prev' m') :
    prev = prev' ∧ m.SameHashed m' := by
  have hmsg := hinj (Or.inl (Or.inr rfl)) (Or.inr (Or.inr rfl)) h
  obtain ⟨hprev, hx, hpc, hcsrs, hroot⟩ := stateMessage_inj hmsg
  have hpages := rootMessage_inj (hinj (Or.inl (Or.inl rfl)) (Or.inr (Or.inl rfl)) hroot)
  simp only [Cpu.csrs, List.cons.injEq, and_true] at hcsrs
  obtain ⟨htv, hepc, hcause, hstatus⟩ := hcsrs
  exact ⟨hprev, hx, hpc, htv, hepc, hcause, hstatus, hpages⟩

/-- Conversely the messages are a function of what the hash covers. -/
theorem Machine.SameHashed.messages_eq (h : m.SameHashed m') (blake3 : List U8 → Hash)
    (prev : Hash) : m.mem.rootMessage = m'.mem.rootMessage ∧
      stateMessage blake3 prev m = stateMessage blake3 prev m' := by
  have hroot : m.mem.rootMessage = m'.mem.rootMessage := by
    rw [Mem.rootMessage_eq, Mem.rootMessage_eq, h.pages]
  refine ⟨hroot, ?_⟩
  unfold stateMessage Cpu.regBytes Cpu.csrs Mem.merkleRoot
  rw [h.x, h.pc, h.mtvec, h.mepc, h.mcause, h.mstatus, hroot]

theorem Machine.SameHashed.hashedMessages_eq (h : m.SameHashed m') :
    hashedMessages blake3 prev m = hashedMessages blake3 prev m' := by
  unfold hashedMessages
  obtain ⟨hroot, hstate⟩ := h.messages_eq blake3 prev
  rw [hroot, hstate]

theorem Machine.SameHashed.stateHash_eq (h : m.SameHashed m') :
    stateHash blake3 prev m = stateHash blake3 prev m' :=
  congrArg blake3 (h.messages_eq blake3 prev).2

end

end Provework.Rvcore
