import Mathlib.Data.List.OfFn
import Mathlib.Logic.Function.Basic
import Std.Data.ExtTreeMap
import Provework.Lib.Bytes

/-!
# Sparse paged memory (`crates/rvcore/src/mem.rs`)

`Mem` is the guest's flat 4 GiB space as the emulator stores it: `pageDir` is
the canonical sparse map from page index to slot, `pageSlots` the append-only
vector of pages, and `lookaside` a tagged direct-mapped cache in front of the
directory. Everything here is the Rust code function by function; what the
structure *means* — one sparse map from page index to page — is the business
of `MemInv` and `MemRefine`.

Modelling notes:
- `BTreeMap<u32, usize>` is `Std.ExtTreeMap`, whose `toList` is the sorted
  iteration order that hashing and snapshots rely on. A fixed-size array is a
  function on its index type, a `Vec` is a list.
- `read` and `slot_of` take `&mut self` (a miss fills the lookaside), so they
  return the memory they leave behind.
- Addresses are guest-controlled `u64`s until the range check. Past it the
  sums cannot wrap, so the byte loops count in `Nat`.
- `page_slots[s]` would panic on a slot out of range. `Mem.page` reads a zero
  page there; `Mem.Coherent.dir_lt` and `slotOf_eq` show the code never asks.
-/

namespace Provework.Rvcore

open Provework.Lib

def addrSpace : Nat := 2 ^ 32

def noSlot : U32 := 0xffffffff#32

def noPage : U32 := 0xffffffff#32

/-- The order page directories are sorted in. -/
instance pageOrder : Std.TransCmp (compare : U32 → U32 → Ordering) := inferInstance

inductive MemError where
  | outOfRange
  deriving DecidableEq, Repr

/-- `Box<[u8; PAGE_SIZE]>`. -/
abbrev Page := Fin 4096 → U8

def zeroPage : Page := fun _ => 0

structure Mem where
  pageSlots : List Page
  pageDir : Std.ExtTreeMap U32 Nat
  /-- `(page tag, slot)` per cache line; `noPage` marks an empty line. -/
  lookaside : Fin 2048 → U32 × U32
  syscallLog : List U8

/-- The page an address lies in. -/
def pageOf (a : Nat) : U32 := BitVec.ofNat 32 (a / 4096)

/-- The offset of an address inside its page. -/
def offOf (a : Nat) : Fin 4096 := ⟨a % 4096, Nat.mod_lt _ (by decide)⟩

/-- The one cache line a page may occupy. -/
def lineOf (page : U32) : Fin 2048 := ⟨page.toNat % 2048, Nat.mod_lt _ (by decide)⟩

namespace Mem

def new : Mem :=
  { pageSlots := []
    pageDir := ∅
    lookaside := fun _ => (noPage, noSlot)
    syscallLog := [] }

/-- `page_slots[s]`. -/
def page (m : Mem) (s : Nat) : Page := m.pageSlots.getD s zeroPage

/-- Record `(page, slot)` in the page's cache line. -/
def fill (m : Mem) (page : U32) (slot : Nat) : Mem :=
  { m with lookaside := Function.update m.lookaside (lineOf page) (page, BitVec.ofNat 32 slot) }

def slotOf (m : Mem) (page : U32) : Option Nat × Mem :=
  let (tag, slot) := m.lookaside (lineOf page)
  if tag = page then
    (if slot = noSlot then none else some slot.toNat, m)
  else
    match m.pageDir[page]? with
    | none => (none, m)
    | some slot => (some slot, m.fill page slot)

/-- `slot_of` without the fill, for `&self` paths. -/
def slotOfRo (m : Mem) (page : U32) : Option Nat :=
  let (tag, slot) := m.lookaside (lineOf page)
  if tag = page then
    if slot = noSlot then none else some slot.toNat
  else m.pageDir[page]?

def slotMutOrAlloc (m : Mem) (page : U32) : Nat × Mem :=
  let (tag, slot) := m.lookaside (lineOf page)
  if tag = page ∧ slot ≠ noSlot then (slot.toNat, m)
  else
    match m.pageDir[page]? with
    | some s => (s, m.fill page s)
    | none =>
      let s := m.pageSlots.length
      let m := { m with
        pageSlots := m.pageSlots ++ [zeroPage]
        pageDir := m.pageDir.insert page s }
      (s, m.fill page s)

/-- One turn of `read`'s loop: the byte at `a`, zero where nothing is allocated. -/
def readByte (m : Mem) (a : Nat) : U8 × Mem :=
  match m.slotOf (pageOf a) with
  | (some s, m) => (m.page s (offOf a), m)
  | (none, m) => (0, m)

/-- `for i in 0..len { val |= (b as u64) << (8 * i) }`, from turn `i` on. -/
def readLoop (m : Mem) (addr i : Nat) : Nat → U64 → U64 × Mem
  | 0, val => (val, m)
  | left + 1, val =>
    let (b, m) := m.readByte (addr + i)
    readLoop m addr (i + 1) left (val ||| (b.setWidth 64 <<< (8 * i)))

/-- The shared range check: `checked_add`, then `end > ADDR_SPACE`. -/
def inRange (addr : U64) (len : Nat) : Bool :=
  if addr.toNat + len ≥ 2 ^ 64 then false
  else if addr.toNat + len > addrSpace then false
  else true

def read (m : Mem) (addr : U64) (len : Nat) : Except MemError U64 × Mem :=
  if len ≠ 1 ∧ len ≠ 2 ∧ len ≠ 4 ∧ len ≠ 8 then (.error .outOfRange, m)
  else if inRange addr len then
    let (val, m) := readLoop m addr.toNat 0 len 0
    (.ok val, m)
  else (.error .outOfRange, m)

/-- One turn of `write`'s loop. -/
def writeByte (m : Mem) (a : Nat) (b : U8) : Mem :=
  let (slot, m) := m.slotMutOrAlloc (pageOf a)
  { m with pageSlots := m.pageSlots.set slot (Function.update (m.page slot) (offOf a) b) }

def writeLoop (m : Mem) (a : Nat) : List U8 → Mem
  | [] => m
  | b :: bs => writeLoop (m.writeByte a b) (a + 1) bs

def write (m : Mem) (addr : U64) (bytes : List U8) : Except MemError Unit × Mem :=
  if inRange addr bytes.length then (.ok (), m.writeLoop addr.toNat bytes)
  else (.error .outOfRange, m)

def loadImage (m : Mem) (base : U64) (bytes : List U8) : Except MemError Unit × Mem :=
  m.write base bytes

def readRegion (m : Mem) (addr : U64) (len : Nat) : Except MemError (List U8) :=
  if inRange addr len then
    .ok ((List.range len).map fun i =>
      match m.slotOfRo (pageOf (addr.toNat + i)) with
      | some s => m.page s (offOf (addr.toNat + i))
      | none => 0)
  else .error .outOfRange

def allocatedPages (m : Mem) : Nat := m.pageDir.size

/-- Allocated pages in canonical (sorted) order. -/
def pageIter (m : Mem) : List (U32 × Page) :=
  m.pageDir.toList.map fun (i, s) => (i, m.page s)

def insertPage (m : Mem) (idx : U32) (page : Page) : Mem :=
  let m := match m.pageDir[idx]? with
    | some s => { m with pageSlots := m.pageSlots.set s page }
    | none =>
      { m with
        pageSlots := m.pageSlots ++ [page]
        pageDir := m.pageDir.insert idx m.pageSlots.length }
  -- the line may hold a probe made before the page existed
  { m with lookaside := Function.update m.lookaside (lineOf idx) (noPage, noSlot) }

end Mem

/-- What one allocated page contributes to the memory root: its index, then
its 4 KiB. -/
def pageRecord (r : U32 × Page) : List U8 :=
  leBytes 4 r.1.toNat ++ List.ofFn r.2

/-- The byte string `merkle_root` feeds to the hasher. -/
def Mem.rootMessage (m : Mem) : List U8 :=
  m.pageDir.toList.flatMap fun (idx, page) => pageRecord (idx, m.page page)

/-- The hasher is a parameter throughout: `update` appends, `finalize` applies
`blake3` to what was appended. -/
def Mem.merkleRoot (blake3 : List U8 → Hash) (m : Mem) : Hash := blake3 m.rootMessage

end Provework.Rvcore
