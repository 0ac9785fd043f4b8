import Provework.Rvcore.Elf
import Provework.Rvcore.SnapshotFormat

/-!
# The executables the loader accepts

Every offset, count and size of an ELF file is chosen by its author, up to
`2 ^ 64 - 1`. `parseChecked` is `parse` with each access and each unchecked
sum written out, `none` where the program would stop; it always returns. The
program-header walk checks its bounds before it indexes, the section walk goes
through `get`, whose `None` ends the scan and not the program.

`Accepts` is the format: what a file must be for `parse` to return an image.
-/

namespace Provework.Rvcore.Elf

open Provework.Lib

/-! ## No read leaves the file -/

/-- The section loop of `find_tohost_section`. -/
def tohostLoopChecked (s : Slice) (shoff shentsize shstrOffset : Nat) : Nat → Nat → Scan U64
  | 0, _ => .ask none
  | left + 1, i => do
    let row ← .ask (checkedMul i shentsize)
    let base ← .ask (checkedAdd shoff row)
    let baseEnd ← .ask (checkedAdd base 64)
    if baseEnd > s.bytes.length then .ask none
    else
      let o4 ← .must (plus base 4)
      let secName ← .ask (slice s.bytes base o4)
      let o8 ← .must (plus base 8)
      let secType ← .ask (slice s.bytes o4 o8)
      let o16 ← .must (plus base 16)
      let o24 ← .must (plus base 24)
      let secAddr ← .ask (slice s.bytes o16 o24)
      if leNat secType ≠ 1 then tohostLoopChecked s shoff shentsize shstrOffset left (i + 1)
      else
        let nameStart ← .ask (checkedAdd shstrOffset (leNat secName))
        let tail ← .ask (slice s.bytes nameStart s.bytes.length)
        let nameEnd ← .must (match tail.findIdx? (· = 0) with
          | some p => plus nameStart p
          | none => some nameStart)
        let name ← .ask (slice s.bytes nameStart nameEnd)
        if name = tohostName then pure (BitVec.ofNat 64 (leNat secAddr))
        else tohostLoopChecked s shoff shentsize shstrOffset left (i + 1)

def findTohostSectionChecked (s : Slice) (shoff shentsize shnum shstrndx : Nat) : Scan U64 :=
  if shoff = 0 ∨ shnum = 0 ∨ shentsize = 0 then .ask none
  else do
    let row ← .ask (checkedMul shstrndx shentsize)
    let shstrHdr ← .ask (checkedAdd shoff row)
    let first ← .ask (checkedAdd shstrHdr 24)
    let last ← .ask (checkedAdd shstrHdr 32)
    let shstrOffset ← .ask (slice s.bytes first last)
    tohostLoopChecked s shoff shentsize (leNat shstrOffset) shnum 0

/-- One program header, whose 56 bytes have been found inside the file. -/
def segmentAtChecked (s : Slice) (base : Nat) :
    Option (Except String (Option (U64 × List U8))) := do
  let type ← s.word 4 base
  if type ≠ 1 then some (.ok none)
  else
    let offset ← s.word 8 (← plus base 8)
    let vaddr ← s.word 8 (← plus base 16)
    let filesz ← s.word 8 (← plus base 32)
    let memsz ← s.word 8 (← plus base 40)
    if filesz > memsz then some (.error "elf: filesz > memsz")
    else
      match checkedAdd vaddr memsz with
      | none => some (.error "elf: segment range overflows")
      | some memEnd =>
        if memEnd > addrSpace then some (.error "elf: segment exceeds the pinned address space")
        else
          match checkedAdd offset filesz with
          | none => some (.error "elf: segment beyond file end")
          | some fileEnd =>
            if fileEnd > s.bytes.length then some (.error "elf: segment beyond file end")
            else do
              let data ← s.range offset fileEnd
              some (.ok (some (BitVec.ofNat 64 vaddr, data)))

def segmentLoopChecked (s : Slice) (phoff : Nat) :
    Nat → Nat → List (U64 × List U8) → Option (Except String (List (U64 × List U8)))
  | 0, _, segments => some (.ok segments)
  | left + 1, i, segments =>
    match (checkedMul i 56).bind (checkedAdd phoff) with
    | none => some (.error "elf: program header table overflows")
    | some base =>
      match checkedAdd base 56 with
      | none => some (.error "elf: program header table overflows")
      | some baseEnd =>
        if baseEnd > s.bytes.length then some (.error "elf: truncated program headers")
        else do
          match ← segmentAtChecked s base with
          | .error e => some (.error e)
          | .ok none => segmentLoopChecked s phoff left (i + 1) segments
          | .ok (some segment) => segmentLoopChecked s phoff left (i + 1) (segments ++ [segment])

/-- `parse`, stopping on a read outside the slice. -/
def parseChecked (s : Slice) : Option (Except String ElfImage) :=
  if s.bytes.length < 64 then some (.error "elf: too short")
  else do
    let head ← s.range 0 4
    if head ≠ [0x7f, 0x45, 0x4c, 0x46] then some (.error "elf: bad magic")
    else
      let b4 ← s.index 4
      if b4 ≠ 2 then some (.error "elf: not ELF64")
      else
        let b5 ← s.index 5
        if b5 ≠ 1 then some (.error "elf: not little-endian")
        else
          let machine ← s.pair 0x12
          if machine ≠ emRiscv then some (.error s!"elf: machine {machine} is not RISC-V")
          else
            let type ← s.pair 0x10
            if type ≠ etExec then some (.error "elf: not a static executable")
            else
              let entry ← s.word 8 0x18
              let shoff ← s.word 8 0x28
              let shentsize ← s.pair 0x3a
              let shnum ← s.pair 0x3c
              let shstrndx ← s.pair 0x3e
              let tohostAddr ← (findTohostSectionChecked s shoff shentsize shnum shstrndx).run
              let phoff ← s.word 8 0x20
              let phentsize ← s.pair 0x36
              let phnum ← s.pair 0x38
              if phentsize ≠ 56 then some (.error s!"elf: phentsize {phentsize} != 56")
              else
                match ← segmentLoopChecked s phoff phnum 0 [] with
                | .error e => some (.error e)
                | .ok segments =>
                  if segments = [] then some (.error "elf: no PT_LOAD segments")
                  else some (.ok { entry := BitVec.ofNat 64 entry, segments, tohostAddr })

theorem checkedAdd_eq_some {a b c : Nat} (h : checkedAdd a b = some c) : c = a + b := by
  unfold checkedAdd at h
  split at h
  · exact (Option.some.inj h).symm
  · cases h

theorem checkedMul_eq_some {a b c : Nat} (h : checkedMul a b = some c) : c = a * b := by
  unfold checkedMul at h
  split at h
  · exact (Option.some.inj h).symm
  · cases h

theorem slice_window {data : List U8} {o w : Nat} (h : o + w ≤ data.length) :
    slice data o (o + w) = some ((data.drop o).take w) := by
  rw [slice, if_pos ⟨Nat.le_add_right o w, h⟩, Nat.add_sub_cancel_left]

theorem length_slice {data part : List U8} {first last : Nat}
    (h : slice data first last = some part) :
    first ≤ last ∧ last ≤ data.length ∧ part.length = last - first := by
  unfold slice at h
  split at h
  next hle =>
    obtain rfl := Option.some.inj h
    exact ⟨hle.1, hle.2, length_window (by omega)⟩
  · cases h

/-- `1` is both `PT_LOAD` and the section type looked for. -/
theorem u32le_eq_one {bytes : List U8} {o : Nat} (h : o + 4 ≤ bytes.length) :
    u32le bytes o = 1 ↔ leNat ((bytes.drop o).take 4) = 1 := by
  rw [← toNat_u32le h]
  exact ⟨congrArg BitVec.toNat, BitVec.eq_of_toNat_eq (y := 1)⟩

/-- The section walk never stops: a header it reads lies inside the file, and a
name is cut at a NUL of the file. -/
theorem tohostLoopChecked_eq (s : Slice) (shoff shentsize shstrOffset : Nat) : ∀ left i : Nat,
    (tohostLoopChecked s shoff shentsize shstrOffset left i).run
      = some (tohostLoop s.bytes shoff shentsize shstrOffset left i) := by
  intro left
  induction left with
  | zero => intro i; rfl
  | succ left ih =>
    intro i
    unfold tohostLoopChecked tohostLoop
    refine Scan.ask_bind fun row _ => Scan.ask_bind fun base _ => Scan.ask_bind fun baseEnd hend =>
      ?_
    have hbase := checkedAdd_eq_some hend
    by_cases hlong : baseEnd > s.bytes.length
    · rw [if_pos hlong, if_pos hlong]
      rfl
    -- inside the 64 bytes of a header every sum and every `get` has its value
    have hplus : ∀ k, k ≤ 64 → plus base k = some (base + k) := fun k hk =>
      Slice.plus_eq (s := s) (by omega)
    have hname : slice s.bytes base (base + 4) = some ((s.bytes.drop base).take 4) :=
      slice_window (by omega)
    have htype : slice s.bytes (base + 4) (base + 8) = some ((s.bytes.drop (base + 4)).take 4) :=
      slice_window (o := base + 4) (w := 4) (by omega)
    have haddr : slice s.bytes (base + 16) (base + 24)
        = some ((s.bytes.drop (base + 16)).take 8) :=
      slice_window (o := base + 16) (w := 8) (by omega)
    rw [if_neg hlong, if_neg hlong, Scan.must_bind (hplus 4 (by omega)), Scan.ask_bind_some hname,
      Scan.must_bind (hplus 8 (by omega)), Scan.ask_bind_some htype,
      Scan.must_bind (hplus 16 (by omega)), Scan.must_bind (hplus 24 (by omega)),
      Scan.ask_bind_some haddr]
    simp only [ne_eq, u32le_eq_one (show base + 4 + 4 ≤ s.bytes.length by omega),
      toNat_u32le (show base + 4 ≤ s.bytes.length by omega)]
    by_cases hprog : leNat ((s.bytes.drop (base + 4)).take 4) = 1
    · rw [if_neg (not_not.mpr hprog), if_neg (not_not.mpr hprog)]
      refine Scan.ask_bind fun nameStart _ => Scan.ask_bind fun tail htail => ?_
      obtain ⟨-, -, hlen⟩ := length_slice htail
      have hnul : (match tail.findIdx? (· = 0) with
          | some p => plus nameStart p
          | none => some nameStart)
          = some (match tail.findIdx? (· = 0) with
          | some p => nameStart + p
          | none => nameStart) := by
        cases hp : tail.findIdx? (· = 0) with
        | none => rfl
        | some p =>
          have hlt := (List.findIdx?_eq_some_iff_findIdx_eq.mp hp).1
          exact Slice.plus_eq (s := s) (by omega)
      rw [Scan.must_bind hnul]
      refine Scan.ask_bind fun name _ => ?_
      by_cases hto : name = tohostName
      · rw [if_pos hto, if_pos hto]
        rfl
      · rw [if_neg hto, if_neg hto]
        exact ih (i + 1)
    · rw [if_pos hprog, if_pos hprog]
      exact ih (i + 1)

theorem findTohostSectionChecked_eq (s : Slice) (shoff shentsize shnum shstrndx : Nat) :
    (findTohostSectionChecked s shoff shentsize shnum shstrndx).run
      = some (findTohostSection s.bytes shoff shentsize shnum shstrndx) := by
  unfold findTohostSectionChecked findTohostSection
  by_cases hnone : shoff = 0 ∨ shnum = 0 ∨ shentsize = 0
  · rw [if_pos hnone, if_pos hnone]
    rfl
  rw [if_neg hnone, if_neg hnone]
  refine Scan.ask_bind fun row _ => Scan.ask_bind fun shstrHdr _ => Scan.ask_bind fun first _ =>
    Scan.ask_bind fun last _ => Scan.ask_bind fun shstrOffset _ => ?_
  exact tohostLoopChecked_eq s shoff shentsize _ shnum 0

theorem segmentAtChecked_eq {s : Slice} {base : Nat} (h : base + 56 ≤ s.bytes.length) :
    segmentAtChecked s base = some (segmentAt s.bytes base) := by
  have hplus : ∀ k, k ≤ 56 → plus base k = some (base + k) := fun k hk =>
    Slice.plus_eq (s := s) (by omega)
  have hword : ∀ k, k + 8 ≤ 56 → s.word 8 (base + k) = some (u64le s.bytes (base + k)).toNat :=
    fun k hk => by rw [Slice.word_eq (by omega), toNat_u64le (by omega)]
  have htype : s.word 4 base = some (leNat ((s.bytes.drop base).take 4)) :=
    Slice.word_eq (by omega)
  simp only [segmentAtChecked, segmentAt, htype, hplus 8 (by omega), hplus 16 (by omega),
    hplus 32 (by omega), hplus 40 (by omega), hword 8 (by omega), hword 16 (by omega),
    hword 32 (by omega), hword 40 (by omega), Option.bind_eq_bind, Option.bind_some]
  simp only [ptLoad, ne_eq, u32le_eq_one (show base + 4 ≤ s.bytes.length by omega)]
  generalize (u64le s.bytes (base + 8)).toNat = offset
  generalize (u64le s.bytes (base + 32)).toNat = filesz
  generalize (u64le s.bytes (base + 40)).toNat = memsz
  split
  · rfl
  split
  · rfl
  cases checkedAdd (u64le s.bytes (base + 16)).toNat memsz with
  | none => rfl
  | some memEnd =>
    simp only
    split
    · rfl
    cases hfile : checkedAdd offset filesz with
    | none => rfl
    | some fileEnd =>
      simp only
      split
      · rfl
      next hin =>
        have hend := checkedAdd_eq_some hfile
        rw [Slice.range_eq (by omega) (by omega), show fileEnd - offset = filesz by omega]
        simp

theorem segmentLoopChecked_eq (s : Slice) (phoff : Nat) :
    ∀ (left i : Nat) (segments : List (U64 × List U8)),
      segmentLoopChecked s phoff left i segments
        = some (segmentLoop s.bytes phoff left i segments) := by
  intro left
  induction left with
  | zero => intro i segments; rfl
  | succ left ih =>
    intro i segments
    unfold segmentLoopChecked segmentLoop
    cases (checkedMul i 56).bind (checkedAdd phoff) with
    | none => rfl
    | some base =>
      simp only
      cases hend : checkedAdd base 56 with
      | none => rfl
      | some baseEnd =>
        simp only
        split
        · rfl
        next hin =>
          have hbase := checkedAdd_eq_some hend
          rw [segmentAtChecked_eq (by omega)]
          simp only [Option.bind_eq_bind, Option.bind_some]
          generalize segmentAt s.bytes base = r
          rcases r with e | _ | segment
          · rfl
          · exact ih (i + 1) segments
          · exact ih (i + 1) (segments ++ [segment])

/-- `parse` returns on every slice: no index is out of bounds and no sum wraps. -/
theorem parseChecked_eq (s : Slice) : parseChecked s = some (parse s.bytes) := by
  unfold parseChecked parse
  by_cases hlen : s.bytes.length < 64
  · rw [if_pos hlen, if_pos hlen]
  rw [if_neg hlen, if_neg hlen]
  have hpair : ∀ o, o + 2 ≤ 64 → s.pair o = some (u16le s.bytes o) := fun o ho =>
    Slice.pair_eq (by omega)
  have hword : ∀ o, o + 8 ≤ 64 → s.word 8 o = some (u64le s.bytes o).toNat := fun o ho => by
    rw [Slice.word_eq (by omega), toNat_u64le (by omega)]
  have hhead : s.range 0 4 = some (s.bytes.take 4) := Slice.range_eq (Nat.zero_le 4) (by omega)
  simp only [hhead, Slice.index_eq (show 4 < s.bytes.length by omega),
    Slice.index_eq (show 5 < s.bytes.length by omega), hpair 0x12 (by omega), hpair 0x10 (by omega),
    hpair 0x3a (by omega), hpair 0x3c (by omega), hpair 0x3e (by omega), hpair 0x36 (by omega),
    hpair 0x38 (by omega), hword 0x18 (by omega), hword 0x28 (by omega), hword 0x20 (by omega),
    findTohostSectionChecked_eq, segmentLoopChecked_eq, Option.bind_eq_bind, Option.bind_some,
    BitVec.ofNat_toNat, BitVec.setWidth_eq]
  -- the two sides now differ by where `some` stands
  iterate 6 (split; · rfl)
  generalize segmentLoop s.bytes _ _ 0 [] = r
  rcases r with e | segments
  · rfl
  · exact (apply_ite some _ _ _).symm

/-! ## The format -/

/-- The fields of a program header that are read. -/
structure ProgramHeader where
  ptype : Nat
  offset : Nat
  vaddr : Nat
  filesz : Nat
  memsz : Nat

/-- The program header in the 56 bytes from `base` on. -/
def headerFrom (bytes : List U8) (base : Nat) : ProgramHeader where
  ptype := leNat ((bytes.drop base).take 4)
  offset := leNat ((bytes.drop (base + 8)).take 8)
  vaddr := leNat ((bytes.drop (base + 16)).take 8)
  filesz := leNat ((bytes.drop (base + 32)).take 8)
  memsz := leNat ((bytes.drop (base + 40)).take 8)

def phoff (bytes : List U8) : Nat := leNat ((bytes.drop 0x20).take 8)

def phnum (bytes : List U8) : Nat := leNat ((bytes.drop 0x38).take 2)

def headerAt (bytes : List U8) (i : Nat) : ProgramHeader :=
  headerFrom bytes (phoff bytes + 56 * i)

/-- The `PT_LOAD` headers of the file, in table order. -/
def loads (bytes : List U8) : List ProgramHeader :=
  ((List.range (phnum bytes)).map (headerAt bytes)).filter (·.ptype = 1)

namespace ProgramHeader

/-- Where the segment goes, and the file bytes it consists of. -/
def segment (bytes : List U8) (h : ProgramHeader) : U64 × List U8 :=
  (BitVec.ofNat 64 h.vaddr, (bytes.drop h.offset).take h.filesz)

/-- A segment inside the address space whose bytes are inside the file. -/
structure Good (bytes : List U8) (h : ProgramHeader) : Prop where
  filesz_le : h.filesz ≤ h.memsz
  mem_le : h.vaddr + h.memsz ≤ 2 ^ 32
  file_le : h.offset + h.filesz ≤ bytes.length

end ProgramHeader

/-- A little-endian ELF64 RISC-V `ET_EXEC` file whose program headers lie in
the file, with at least one `PT_LOAD`, each of them good. -/
structure Accepts (bytes : List U8) : Prop where
  length : 64 ≤ bytes.length
  magic : bytes.take 4 = [0x7f, 0x45, 0x4c, 0x46]
  elf64 : bytes[4]? = some 2
  little : bytes[5]? = some 1
  machine : leNat ((bytes.drop 0x12).take 2) = 243
  exec : leNat ((bytes.drop 0x10).take 2) = 2
  phentsize : leNat ((bytes.drop 0x36).take 2) = 56
  headers : ∀ i < phnum bytes, phoff bytes + 56 * i + 56 ≤ bytes.length
  some_load : loads bytes ≠ []
  good : ∀ h ∈ loads bytes, h.Good bytes

/-! ## Accepted files have the format -/

theorem header_words {bytes : List U8} {base : Nat} (hin : base + 56 ≤ bytes.length) :
    (u64le bytes (base + 8)).toNat = (headerFrom bytes base).offset ∧
    (u64le bytes (base + 16)).toNat = (headerFrom bytes base).vaddr ∧
    (u64le bytes (base + 32)).toNat = (headerFrom bytes base).filesz ∧
    (u64le bytes (base + 40)).toNat = (headerFrom bytes base).memsz :=
  ⟨toNat_u64le (by omega), toNat_u64le (by omega), toNat_u64le (by omega), toNat_u64le (by omega)⟩

theorem header_ptype {bytes : List U8} {base : Nat} (hin : base + 56 ≤ bytes.length) :
    u32le bytes base = 1 ↔ (headerFrom bytes base).ptype = 1 :=
  u32le_eq_one (by omega)

/-- A header that is passed: its segment, if it is a `PT_LOAD`, is good. -/
theorem segmentAt_inv {bytes : List U8} {base : Nat} {o : Option (U64 × List U8)}
    (hin : base + 56 ≤ bytes.length) (h : segmentAt bytes base = .ok o) :
    ((headerFrom bytes base).ptype = 1 → (headerFrom bytes base).Good bytes) ∧
      o = if (headerFrom bytes base).ptype = 1
        then some ((headerFrom bytes base).segment bytes) else none := by
  obtain ⟨hoff, hvaddr, hfile, hmem⟩ := header_words hin
  simp only [segmentAt, ptLoad, ne_eq, header_ptype hin, hoff, hvaddr, hfile, hmem] at h
  split at h
  next hskip =>
    obtain rfl := Except.ok.inj h
    exact ⟨fun hload => absurd hload hskip, (if_neg hskip).symm⟩
  next hload =>
    have hload := not_not.mp hload
    split at h
    · cases h
    split at h
    · cases h
    next hle _ memEnd hend =>
      split at h
      · cases h
      split at h
      · cases h
      next hspace _ fileEnd hfend =>
        split at h
        · cases h
        next hin =>
          obtain rfl := Except.ok.inj h
          have hmemEnd := checkedAdd_eq_some hend
          have hfileEnd := checkedAdd_eq_some hfend
          rw [addrSpace] at hspace
          exact ⟨fun _ => ⟨by omega, by omega, by omega⟩, (if_pos hload).symm⟩

/-- A good header is passed. -/
theorem segmentAt_of_good {bytes : List U8} {base : Nat} (hlt : bytes.length < 2 ^ 63)
    (hin : base + 56 ≤ bytes.length)
    (h : (headerFrom bytes base).ptype = 1 → (headerFrom bytes base).Good bytes) :
    ∃ o, segmentAt bytes base = .ok o := by
  obtain ⟨hoff, hvaddr, hfile, hmem⟩ := header_words hin
  simp only [segmentAt, ptLoad, ne_eq, header_ptype hin, hoff, hvaddr, hfile, hmem]
  by_cases hload : (headerFrom bytes base).ptype = 1
  · obtain ⟨hle, hspace, hend⟩ := h hload
    rw [if_neg (not_not.mpr hload), if_neg (by omega), checkedAdd, if_pos (by omega)]
    simp only
    rw [if_neg (by rw [addrSpace]; omega), checkedAdd, if_pos (by omega)]
    exact ⟨_, if_neg (by omega)⟩
  · exact ⟨_, if_pos hload⟩

/-- The table, from index `i` on. -/
def loadsFrom (bytes : List U8) (i left : Nat) : List ProgramHeader :=
  ((List.range' i left).map (headerAt bytes)).filter (·.ptype = 1)

theorem loadsFrom_succ (bytes : List U8) (i left : Nat) :
    (loadsFrom bytes i (left + 1)).map (ProgramHeader.segment bytes)
      = (if (headerAt bytes i).ptype = 1 then some ((headerAt bytes i).segment bytes)
          else none).toList
            ++ (loadsFrom bytes (i + 1) left).map (ProgramHeader.segment bytes) := by
  rw [loadsFrom, List.range'_succ, List.map_cons, List.filter_cons]
  by_cases h : (headerAt bytes i).ptype = 1
  · simp [h, loadsFrom]
  · simp [h, loadsFrom]

/-- One turn of the program-header loop that does not fail. -/
theorem segmentLoop_succ {bytes : List U8} {phoff left i : Nat}
    {acc segments : List (U64 × List U8)}
    (h : segmentLoop bytes phoff (left + 1) i acc = .ok segments) :
    phoff + 56 * i + 56 ≤ bytes.length ∧ ∃ o, segmentAt bytes (phoff + 56 * i) = .ok o ∧
      segmentLoop bytes phoff left (i + 1) (acc ++ o.toList) = .ok segments := by
  unfold segmentLoop at h
  split at h
  · cases h
  next base hbase =>
    obtain ⟨row, hrow, hadd⟩ := Option.bind_eq_some_iff.mp hbase
    have hrow := checkedMul_eq_some hrow
    have hadd := checkedAdd_eq_some hadd
    have hbase : base = phoff + 56 * i := by omega
    split at h
    · cases h
    next baseEnd hend =>
      have hend := checkedAdd_eq_some hend
      split at h
      · cases h
      next hin =>
        refine ⟨by omega, ?_⟩
        rw [← hbase]
        split at h
        · cases h
        next hat => exact ⟨none, hat, by simpa using h⟩
        next segment hat => exact ⟨some segment, hat, h⟩

/-- The header at index `k` is in the file and does not end the loop. -/
def PassesAt (bytes : List U8) (k : Nat) : Prop :=
  phoff bytes + 56 * k + 56 ≤ bytes.length ∧
    ((headerAt bytes k).ptype = 1 → (headerAt bytes k).Good bytes)

theorem segmentLoop_inv {bytes : List U8} : ∀ (left i : Nat) {acc segments : List (U64 × List U8)},
    segmentLoop bytes (phoff bytes) left i acc = .ok segments →
    (∀ k, i ≤ k → k < i + left → PassesAt bytes k) ∧
    segments = acc ++ (loadsFrom bytes i left).map (ProgramHeader.segment bytes) := by
  intro left
  induction left with
  | zero =>
    intro i acc segments h
    obtain rfl := Except.ok.inj h
    exact ⟨fun k hk hk' => by omega, by simp [loadsFrom]⟩
  | succ left ih =>
    intro i acc segments h
    obtain ⟨hin, o, hat, hrest⟩ := segmentLoop_succ h
    obtain ⟨hgood, ho⟩ := segmentAt_inv hin hat
    obtain ⟨hall, hsegs⟩ := ih (i + 1) hrest
    refine ⟨fun k hk hk' => ?_, ?_⟩
    · rcases Nat.eq_or_lt_of_le hk with rfl | hlt
      · exact ⟨hin, hgood⟩
      · exact hall k hlt (by omega)
    · rw [hsegs, loadsFrom_succ, List.append_assoc, ho]
      rfl

theorem segmentLoop_of_good {bytes : List U8} (hlt : bytes.length < 2 ^ 63) :
    ∀ (left i : Nat) (acc : List (U64 × List U8)),
    (∀ k, i ≤ k → k < i + left → PassesAt bytes k) →
    ∃ segments, segmentLoop bytes (phoff bytes) left i acc = .ok segments := by
  intro left
  induction left with
  | zero => intro i acc _; exact ⟨acc, rfl⟩
  | succ left ih =>
    intro i acc h
    obtain ⟨hin, hgood⟩ := h i (Nat.le_refl i) (by omega)
    have hrest : ∀ k, i + 1 ≤ k → k < i + 1 + left → PassesAt bytes k := fun k hk hk' =>
      h k (by omega) (by omega)
    obtain ⟨o, hat⟩ := segmentAt_of_good hlt hin hgood
    have hbase : (checkedMul i 56).bind (checkedAdd (phoff bytes))
        = some (phoff bytes + 56 * i) := by
      rw [checkedMul, if_pos (by omega), Option.bind_some, checkedAdd, if_pos (by omega),
        Nat.mul_comm]
    unfold segmentLoop
    rw [hbase]
    simp only
    rw [checkedAdd, if_pos (by omega)]
    simp only
    rw [if_neg (by omega), hat]
    cases o with
    | none => exact ih (i + 1) acc hrest
    | some segment => exact ih (i + 1) (acc ++ [segment]) hrest

theorem loadsFrom_zero (bytes : List U8) : loadsFrom bytes 0 (phnum bytes) = loads bytes := by
  rw [loadsFrom, loads, List.range_eq_range']

theorem mem_loads {bytes : List U8} {h : ProgramHeader} :
    h ∈ loads bytes ↔ ∃ i < phnum bytes, headerAt bytes i = h ∧ h.ptype = 1 := by
  rw [loads, List.mem_filter, List.mem_map, decide_eq_true_iff]
  constructor
  · rintro ⟨⟨i, hi, rfl⟩, hload⟩
    exact ⟨i, List.mem_range.mp hi, rfl, hload⟩
  · rintro ⟨i, hi, rfl, hload⟩
    exact ⟨⟨i, List.mem_range.mpr hi, rfl⟩, hload⟩

theorem getD_eq_iff {bytes : List U8} {i : Nat} (h : i < bytes.length) (b : U8) :
    bytes.getD i 0 = b ↔ bytes[i]? = some b := by
  rw [List.getD_eq_getElem?_getD, List.getElem?_eq_getElem h, Option.getD_some, Option.some.injEq]

/-- An accepted file has the format, and the image's segments are those of its
`PT_LOAD` headers. -/
theorem parse_inv {bytes : List U8} {image : ElfImage} (h : parse bytes = .ok image) :
    Accepts bytes ∧ image.segments = (loads bytes).map (ProgramHeader.segment bytes) := by
  simp only [parse] at h
  split at h
  · cases h
  next hlen =>
  split at h
  · cases h
  next hmagic =>
  split at h
  · cases h
  next hb4 =>
  split at h
  · cases h
  next hb5 =>
  split at h
  · cases h
  next hmachine =>
  split at h
  · cases h
  next hexec =>
  split at h
  · cases h
  next hphent =>
  split at h
  · cases h
  next segments hsegs =>
  split at h
  · cases h
  next hne =>
  obtain rfl := Except.ok.inj h
  rw [toNat_u64le (by omega)] at hsegs
  obtain ⟨hall, hloads⟩ := segmentLoop_inv _ _ hsegs
  rw [List.nil_append, show u16le bytes 56 = phnum bytes from rfl, loadsFrom_zero] at hloads
  refine ⟨⟨by omega, not_not.mp hmagic, (getD_eq_iff (by omega) 2).mp (not_not.mp hb4),
    (getD_eq_iff (by omega) 1).mp (not_not.mp hb5), not_not.mp hmachine, not_not.mp hexec,
    not_not.mp hphent, fun i hi => (hall i (Nat.zero_le i) (by rw [Nat.zero_add]; exact hi)).1,
    fun hnil => hne (by rw [hloads, hnil]; rfl), fun h hh => ?_⟩, hloads⟩
  obtain ⟨i, hi, rfl, hload⟩ := mem_loads.mp hh
  exact (hall i (Nat.zero_le i) (by rw [Nat.zero_add]; exact hi)).2 hload

/-- A file of the format is accepted. -/
theorem parse_of_accepts {bytes : List U8} (hlt : bytes.length < 2 ^ 63) (h : Accepts bytes) :
    ∃ image, parse bytes = .ok image := by
  have hlen := h.length
  obtain ⟨segments, hsegs⟩ := segmentLoop_of_good hlt (phnum bytes) 0 [] fun k _ hk =>
    ⟨h.headers k (by omega), fun hload => h.good _ (mem_loads.mpr ⟨k, by omega, rfl, hload⟩)⟩
  have hne : segments ≠ [] := by
    rw [(segmentLoop_inv _ _ hsegs).2, List.nil_append, loadsFrom_zero]
    exact fun hnil => h.some_load (List.map_eq_nil_iff.mp hnil)
  have hphoff : (u64le bytes 0x20).toNat = phoff bytes := toNat_u64le (by omega)
  have hb4 := (getD_eq_iff (by omega) 2).mpr h.elf64
  have hb5 := (getD_eq_iff (by omega) 1).mpr h.little
  have hmachine : u16le bytes 0x12 = emRiscv := h.machine
  have hexec : u16le bytes 0x10 = etExec := h.exec
  have hphent : u16le bytes 0x36 = 56 := h.phentsize
  simp only [parse]
  rw [if_neg (by omega), if_neg (not_not.mpr h.magic), if_neg (not_not.mpr hb4),
    if_neg (not_not.mpr hb5), if_neg (not_not.mpr hmachine), if_neg (not_not.mpr hexec),
    if_neg (not_not.mpr hphent), hphoff, show u16le bytes 0x38 = phnum bytes from rfl, hsegs]
  exact ⟨_, if_neg hne⟩

/-- **The parser is total and exact.** On every slice `parse` returns, it
accepts exactly the format, and the segments of the image are the `PT_LOAD`
headers' in table order: each at its address, with its `filesz` file bytes. -/
theorem parse_exact (s : Slice) :
    parseChecked s = some (parse s.bytes) ∧
    ((∃ image, parse s.bytes = .ok image) ↔ Accepts s.bytes) ∧
    ∀ image, parse s.bytes = .ok image →
      image.segments.map (fun seg => (seg.1.toNat, seg.2)) = (loads s.bytes).map (fun h =>
        (h.vaddr, (s.bytes.drop h.offset).take h.filesz)) ∧
      image.segments.map (fun seg => seg.2.length) = (loads s.bytes).map (fun h => h.filesz) := by
  refine ⟨parseChecked_eq s, ⟨fun ⟨image, h⟩ => (parse_inv h).1, parse_of_accepts s.length_lt⟩,
    fun image h => ?_⟩
  obtain ⟨hacc, hsegs⟩ := parse_inv h
  rw [hsegs, List.map_map, List.map_map]
  constructor
  · refine List.map_congr_left fun h hh => Prod.ext ?_ rfl
    have hmem := (hacc.good h hh).mem_le
    show (BitVec.ofNat 64 h.vaddr).toNat = h.vaddr
    rw [BitVec.toNat_ofNat]
    omega
  · exact List.map_congr_left fun h hh => length_window (hacc.good h hh).file_le

/-- Two overlapping segments: three bytes across a page end, and one byte over
the second of them that declares a mebibyte of BSS. -/
def twoSegments : List U8 :=
  [0x7f, 0x45, 0x4c, 0x46, 2, 1, 1] ++ List.replicate 9 0
    ++ leBytes 2 2 ++ leBytes 2 243 ++ leBytes 4 1 ++ leBytes 8 0x80000000 ++ leBytes 8 64
    ++ leBytes 8 0 ++ leBytes 4 0 ++ leBytes 2 64 ++ leBytes 2 56 ++ leBytes 2 2
    ++ List.replicate 6 0
    ++ leBytes 4 1 ++ leBytes 4 5 ++ leBytes 8 176 ++ leBytes 8 0x80000ffe ++ leBytes 8 0
    ++ leBytes 8 3 ++ leBytes 8 3 ++ leBytes 8 0
    ++ leBytes 4 1 ++ leBytes 4 6 ++ leBytes 8 178 ++ leBytes 8 0x80000fff ++ leBytes 8 0
    ++ leBytes 8 1 ++ leBytes 8 0x100000 ++ leBytes 8 0
    ++ [1, 2, 3]

theorem twoSegments_accepted : ∃ image, parse twoSegments = .ok image ∧
    image.segments.map (fun seg => (seg.1.toNat, seg.2))
      = [(0x80000ffe, [1, 2, 3]), (0x80000fff, [3])] := by
  obtain ⟨-, -, hsegs⟩ := parse_exact ⟨twoSegments, by decide +kernel⟩
  have hok : (parse twoSegments).isOk := by decide +kernel
  cases h : parse twoSegments with
  | error e => rw [h] at hok; cases hok
  | ok image => exact ⟨image, rfl, ((hsegs image h).1).trans (by decide +kernel)⟩

end Provework.Rvcore.Elf
