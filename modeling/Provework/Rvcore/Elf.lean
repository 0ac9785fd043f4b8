import Provework.Rvcore.MemRefine
import Provework.Rvcore.Snapshot

/-!
# The ELF loader (`crates/rvcore/src/elf.rs`)

`parse` accepts little-endian ELF64 RISC-V executables with `PT_LOAD` segments
inside the 4 GiB space and `load` places their file bytes. What the rest of the
development needs of them is that loading a fresh memory leaves a valid one
(`load_valid`), and that what `parse` accepts always loads (`load_parse`).

Every offset is file-controlled. `usize` is 64 bits wide, so `checked_add` and
`checked_mul` fail from `2 ^ 64` on; the header reads before the first check
are inside the 64 bytes `parse` asks for.
-/

namespace Provework.Rvcore

open Provework.Lib

structure ElfImage where
  entry : U64
  /-- `(vaddr, file bytes)` of each `PT_LOAD` segment. -/
  segments : List (U64 × List U8)
  tohostAddr : Option U64

namespace Elf

def ptLoad : U32 := 1
def emRiscv : Nat := 243
def etExec : Nat := 2

def u16le (bytes : List U8) (o : Nat) : Nat := leNat ((bytes.drop o).take 2)

def checkedAdd (a b : Nat) : Option Nat := if a + b < 2 ^ 64 then some (a + b) else none

def checkedMul (a b : Nat) : Option Nat := if a * b < 2 ^ 64 then some (a * b) else none

/-- `data.get(start..end)`. -/
def slice (data : List U8) (first last : Nat) : Option (List U8) :=
  if first ≤ last ∧ last ≤ data.length then some ((data.drop first).take (last - first)) else none

/-- `b".tohost"`. -/
def tohostName : List U8 := [0x2e, 0x74, 0x6f, 0x68, 0x6f, 0x73, 0x74]

/-- The section loop at index `i`, with `left` sections to go. -/
def tohostLoop (data : List U8) (shoff shentsize shstrOffset : Nat) : Nat → Nat → Option U64
  | 0, _ => none
  | left + 1, i => do
    let base ← checkedAdd shoff (← checkedMul i shentsize)
    let baseEnd ← checkedAdd base 64
    if baseEnd > data.length then none
    else
      let secName := u32le data base
      let secType := u32le data (base + 4)
      let secAddr := u64le data (base + 16)
      if secType ≠ 1 then tohostLoop data shoff shentsize shstrOffset left (i + 1)
      else
        let nameStart ← checkedAdd shstrOffset secName.toNat
        let tail ← slice data nameStart data.length
        -- a name that runs to the end of the file without a NUL is empty
        let nameEnd := match tail.findIdx? (· = 0) with
          | some p => nameStart + p
          | none => nameStart
        let name ← slice data nameStart nameEnd
        if name = tohostName then some secAddr
        else tohostLoop data shoff shentsize shstrOffset left (i + 1)

/-- Scan the section headers for `.tohost`. -/
def findTohostSection (data : List U8) (shoff shentsize shnum shstrndx : Nat) : Option U64 :=
  if shoff = 0 ∨ shnum = 0 ∨ shentsize = 0 then none
  else do
    let shstrHdr ← checkedAdd shoff (← checkedMul shstrndx shentsize)
    let first ← checkedAdd shstrHdr 24
    let last ← checkedAdd shstrHdr 32
    let shstrOffset := leNat (← slice data first last)
    tohostLoop data shoff shentsize shstrOffset shnum 0

/-- One program header: its segment if it is a `PT_LOAD`. -/
def segmentAt (bytes : List U8) (base : Nat) : Except String (Option (U64 × List U8)) :=
  if u32le bytes base ≠ ptLoad then .ok none
  else
    let offset := (u64le bytes (base + 8)).toNat
    let vaddr := u64le bytes (base + 16)
    let filesz := (u64le bytes (base + 32)).toNat
    let memsz := (u64le bytes (base + 40)).toNat
    if filesz > memsz then .error "elf: filesz > memsz"
    else
      match checkedAdd vaddr.toNat memsz with
      | none => .error "elf: segment range overflows"
      | some memEnd =>
        if memEnd > addrSpace then .error "elf: segment exceeds the pinned address space"
        else
          match checkedAdd offset filesz with
          | none => .error "elf: segment beyond file end"
          | some fileEnd =>
            if fileEnd > bytes.length then .error "elf: segment beyond file end"
            else .ok (some (vaddr, (bytes.drop offset).take filesz))

/-- The program-header loop at index `i`, with `left` headers to go. -/
def segmentLoop (bytes : List U8) (phoff : Nat) :
    Nat → Nat → List (U64 × List U8) → Except String (List (U64 × List U8))
  | 0, _, segments => .ok segments
  | left + 1, i, segments =>
    match (checkedMul i 56).bind (checkedAdd phoff) with
    | none => .error "elf: program header table overflows"
    | some base =>
      match checkedAdd base 56 with
      | none => .error "elf: program header table overflows"
      | some baseEnd =>
        if baseEnd > bytes.length then .error "elf: truncated program headers"
        else
          match segmentAt bytes base with
          | .error e => .error e
          | .ok none => segmentLoop bytes phoff left (i + 1) segments
          | .ok (some segment) => segmentLoop bytes phoff left (i + 1) (segments ++ [segment])

def parse (bytes : List U8) : Except String ElfImage :=
  if bytes.length < 64 then .error "elf: too short"
  else if bytes.take 4 ≠ [0x7f, 0x45, 0x4c, 0x46] then .error "elf: bad magic"
  else if bytes.getD 4 0 ≠ 2 then .error "elf: not ELF64"
  else if bytes.getD 5 0 ≠ 1 then .error "elf: not little-endian"
  else
    let machine := u16le bytes 0x12
    if machine ≠ emRiscv then .error s!"elf: machine {machine} is not RISC-V"
    else if u16le bytes 0x10 ≠ etExec then .error "elf: not a static executable"
    else
      let entry := u64le bytes 0x18
      -- read before the program headers are checked, and optional
      let tohostAddr := findTohostSection bytes (u64le bytes 0x28).toNat (u16le bytes 0x3a)
        (u16le bytes 0x3c) (u16le bytes 0x3e)
      let phoff := (u64le bytes 0x20).toNat
      let phentsize := u16le bytes 0x36
      let phnum := u16le bytes 0x38
      if phentsize ≠ 56 then .error s!"elf: phentsize {phentsize} != 56"
      else
        match segmentLoop bytes phoff phnum 0 [] with
        | .error e => .error e
        | .ok segments =>
          if segments = [] then .error "elf: no PT_LOAD segments"
          else .ok { entry, segments, tohostAddr }

/-- `{vaddr:#x}`. -/
def hexAddr (vaddr : U64) : String := "0x" ++ String.ofList (Nat.toDigits 16 vaddr.toNat)

/-- The segments placed in order; the first failure ends it. -/
def loadSegments (mem : Mem) : List (U64 × List U8) → Except String Unit × Mem
  | [] => (.ok (), mem)
  | (vaddr, data) :: rest =>
    match mem.loadImage vaddr data with
    | (.error .outOfRange, mem) =>
      (.error ("elf: load at " ++ hexAddr vaddr ++ ": OutOfRange"), mem)
    | (.ok (), mem) => loadSegments mem rest

def load (mem : Mem) (elf : ElfImage) : Except String Unit × Mem := loadSegments mem elf.segments

/-! ## Loading -/

theorem loadSegments_valid : ∀ (segments : List (U64 × List U8)) {mem : Mem}, mem.Valid →
    (loadSegments mem segments).2.Valid
  | [], _, hv => hv
  | (vaddr, data) :: rest, mem, hv => by
    simp only [loadSegments, Mem.loadImage]
    rcases Mem.write_spec hv vaddr data with ⟨-, hok, hval, -⟩ | ⟨-, hw⟩
    · rw [show mem.write vaddr data = (.ok (), (mem.write vaddr data).2) from Prod.ext hok rfl]
      exact loadSegments_valid rest hval
    · rw [hw]
      exact hv

theorem load_valid {mem : Mem} (hv : mem.Valid) (elf : ElfImage) : (load mem elf).2.Valid :=
  loadSegments_valid elf.segments hv

/-- A segment that lies in the address space. -/
def Fits (segment : U64 × List U8) : Prop :=
  segment.1.toNat + segment.2.length ≤ addrSpace

theorem segmentAt_fits {bytes : List U8} {base : Nat} {segment : U64 × List U8}
    (h : segmentAt bytes base = .ok (some segment)) : Fits segment := by
  unfold segmentAt at h
  split at h
  · cases h
  · simp only at h
    split at h
    · cases h
    · split at h
      · cases h
      next hfile _ memEnd hmem =>
        split at h
        · cases h
        · split at h
          · cases h
          · split at h
            · cases h
            · obtain rfl := Option.some.inj (Except.ok.inj h)
              -- the data is at most `filesz` long, which is at most `memsz`
              have hlen := List.length_take_le (u64le bytes (base + 32)).toNat
                (bytes.drop (u64le bytes (base + 8)).toNat)
              unfold checkedAdd at hmem
              split at hmem
              · obtain rfl := Option.some.inj hmem
                unfold Fits
                simp only
                omega
              · cases hmem

theorem segmentLoop_fits {bytes : List U8} {phoff : Nat} :
    ∀ (left : Nat) {i : Nat} {acc segments : List (U64 × List U8)},
    (∀ s ∈ acc, Fits s) → segmentLoop bytes phoff left i acc = .ok segments →
    ∀ s ∈ segments, Fits s
  | 0, _, _, _, hacc, h => by
    obtain rfl := Except.ok.inj h
    exact hacc
  | left + 1, i, acc, segments, hacc, h => by
    unfold segmentLoop at h
    split at h
    · cases h
    · split at h
      · cases h
      · split at h
        · cases h
        · split at h
          · cases h
          · exact segmentLoop_fits left hacc h
          next segment hseg =>
            refine segmentLoop_fits left (fun s hs => ?_) h
            rcases List.mem_append.mp hs with hs | hs
            · exact hacc s hs
            · obtain rfl := List.mem_singleton.mp hs
              exact segmentAt_fits hseg

theorem parse_fits {bytes : List U8} {elf : ElfImage} (h : parse bytes = .ok elf) :
    ∀ s ∈ elf.segments, Fits s := by
  simp only [parse] at h
  -- the seven header checks, then the segment table
  iterate 7 (split at h; · cases h)
  split at h
  · cases h
  next hsegs =>
    split at h
    · cases h
    · obtain rfl := Except.ok.inj h
      exact segmentLoop_fits _ (by simp) hsegs

theorem loadSegments_ok : ∀ (segments : List (U64 × List U8)) {mem : Mem}, mem.Valid →
    (∀ s ∈ segments, Fits s) → (loadSegments mem segments).1 = .ok ()
  | [], _, _, _ => rfl
  | (vaddr, data) :: rest, mem, hv, hfit => by
    simp only [loadSegments, Mem.loadImage]
    rcases Mem.write_spec hv vaddr data with ⟨-, hok, hval, -⟩ | ⟨hr, -⟩
    · rw [show mem.write vaddr data = (.ok (), (mem.write vaddr data).2) from Prod.ext hok rfl]
      exact loadSegments_ok rest hval fun s hs => hfit s (List.mem_cons_of_mem _ hs)
    · exact absurd (hfit _ List.mem_cons_self) hr

/-- What `parse` accepts, `load` places: the loader's own error is unreachable
behind the parser. -/
theorem load_parse {bytes : List U8} {elf : ElfImage} (h : parse bytes = .ok elf) {mem : Mem}
    (hv : mem.Valid) : (load mem elf).1 = .ok () :=
  loadSegments_ok elf.segments hv (parse_fits h)

end Elf

end Provework.Rvcore
