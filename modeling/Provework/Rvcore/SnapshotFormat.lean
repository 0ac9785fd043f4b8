import Provework.Lib.Slice
import Provework.Rvcore.Snapshot

/-!
# The snapshot grammar

Snapshots are untrusted. `restore` accepts `RVS1`, a page count, 296 bytes of
registers and exactly as many page records as counted, and nothing else; the
count comes from the file, and records may repeat an index or come in any
order. The last record of an index wins, so several byte strings restore to
one state: `capture` gives back the one whose indices increase.

`restoreChecked` is the same function with every slice access and every sum
spelled out, `none` where the program would stop. It always returns.
-/

namespace Provework.Rvcore

open Provework.Lib

/-! ## Words inside the file -/

theorem toNat_u64le {bytes : List U8} {o : Nat} (h : o + 8 ≤ bytes.length) :
    (u64le bytes o).toNat = leNat ((bytes.drop o).take 8) := by
  have hlt := leNat_lt ((bytes.drop o).take 8)
  rw [length_window h] at hlt
  rw [u64le, BitVec.toNat_ofNat, Nat.mod_eq_of_lt (by omega)]

theorem toNat_u32le {bytes : List U8} {o : Nat} (h : o + 4 ≤ bytes.length) :
    (u32le bytes o).toNat = leNat ((bytes.drop o).take 4) := by
  have hlt := leNat_lt ((bytes.drop o).take 4)
  rw [length_window h] at hlt
  rw [u32le, BitVec.toNat_ofNat, Nat.mod_eq_of_lt (by omega)]

/-! ## No read leaves the slice -/

/-- The page loop of `restore`, stopping on a read outside the slice. -/
def restorePagesChecked (s : Slice) : Nat → Nat → Mem → Option (Except String (Nat × Mem))
  | 0, off, mem => some (.ok (off, mem))
  | count + 1, off, mem => do
    let first ← plus off 4
    let last ← plus first 4096
    if last > s.bytes.length then some (.error "snapshot: truncated page data")
    else
      let idx ← s.word 4 off
      let page ← s.range first last
      -- `copy_from_slice` stops on a source of another length
      if page.length ≠ 4096 then none
      else
        restorePagesChecked s count last
          (mem.insertPage (BitVec.ofNat 32 idx) fun i => page.getD i 0)

/-- `restore`, stopping on a read outside the slice. -/
def restoreChecked (s : Slice) : Option (Except String Machine) :=
  if s.bytes.length < 8 + 32 * 8 + 8 + 4 * 8 then some (.error "snapshot: too short")
  else do
    let head ← s.range 0 4
    if head ≠ magic then some (.error "snapshot: bad magic")
    else
      let pageCount ← s.word 4 4
      let x ← (List.range 32).mapM fun i => s.word 8 (8 + i * 8)
      let pcOff := 8 + 32 * 8
      let pc ← s.word 8 pcOff
      let csr ← (List.range 4).mapM fun i => s.word 8 (pcOff + 8 + i * 8)
      let cpu : Cpu :=
        { x := fun r => BitVec.ofNat 64 (x.getD r.toNat 0)
          pc := BitVec.ofNat 64 pc
          mtvec := BitVec.ofNat 64 (csr.getD 0 0)
          mepc := BitVec.ofNat 64 (csr.getD 1 0)
          mcause := BitVec.ofNat 64 (csr.getD 2 0)
          mstatus := BitVec.ofNat 64 (csr.getD 3 0)
          tohost := none }
      match ← restorePagesChecked s pageCount (pcOff + 8 + 32) Mem.new with
      | .error e => some (.error e)
      | .ok (off, mem) =>
        if off ≠ s.bytes.length then some (.error "snapshot: trailing bytes")
        else some (.ok { cpu, mem })

/-- The bytes of a page, as the window they are copied from. -/
theorem getD_window {bytes : List U8} {off : Nat} (i : Fin 4096) :
    ((bytes.drop off).take 4096).getD i 0 = pageAt bytes off i := by
  rw [pageAt, List.getD_eq_getElem?_getD, List.getElem?_take_of_lt i.isLt, List.getElem?_drop,
    List.getD_eq_getElem?_getD]

/-- Below the end of the slice the loop's offsets are offsets of the slice; the
first one past it ends the loop. -/
theorem restorePagesChecked_eq (s : Slice) : ∀ (count off : Nat) (mem : Mem), off ≤ s.bytes.length →
    restorePagesChecked s count off mem = some (restorePages s.bytes count off mem) := by
  intro count
  induction count with
  | zero => intro off mem _; rfl
  | succ count ih =>
    intro off mem hoff
    have hlt : s.bytes.length < 2 ^ 63 := s.length_lt
    have hfirst : plus off 4 = some (off + 4) := if_pos (by omega)
    have hlast : plus (off + 4) 4096 = some (off + 4 + 4096) := if_pos (by omega)
    simp only [restorePagesChecked, restorePages, hfirst, hlast, Option.bind_eq_bind,
      Option.bind_some]
    by_cases hend : off + 4 + 4096 > s.bytes.length
    · rw [if_pos hend, if_pos hend]
    · rw [if_neg hend, if_neg hend, Slice.word_eq (by omega), Option.bind_some,
        Slice.range_eq (by omega) (by omega), Option.bind_some, Nat.add_sub_cancel_left,
        if_neg (not_not.mpr (length_window (by omega))), ih _ _ (by omega)]
      refine congrArg some (congrArg _ ?_)
      exact congrArg (mem.insertPage (u32le s.bytes off)) (funext getD_window)

/-- `restore` returns on every slice: no index is out of bounds and no sum
wraps. -/
theorem restoreChecked_eq (s : Slice) : restoreChecked s = some (restore s.bytes) := by
  unfold restoreChecked restore
  by_cases hlen : s.bytes.length < 8 + 32 * 8 + 8 + 4 * 8
  · rw [if_pos hlen, if_pos hlen]
  have hx : (List.range 32).mapM (fun i => s.word 8 (8 + i * 8))
      = some ((List.range 32).map fun i => leNat ((s.bytes.drop (8 + i * 8)).take 8)) :=
    mapM_eq_some fun i hi => Slice.word_eq (by rw [List.mem_range] at hi; omega)
  have hcsr : (List.range 4).mapM (fun i => s.word 8 (8 + 32 * 8 + 8 + i * 8))
      = some ((List.range 4).map fun i => leNat ((s.bytes.drop (8 + 32 * 8 + 8 + i * 8)).take 8)) :=
    mapM_eq_some fun i hi => Slice.word_eq (by rw [List.mem_range] at hi; omega)
  have hcount : leNat ((s.bytes.drop 4).take 4) = (u32le s.bytes 4).toNat :=
    (toNat_u32le (by omega)).symm
  rw [if_neg hlen, if_neg hlen, Slice.range_eq (Nat.zero_le 4) (by omega)]
  simp only [Option.bind_eq_bind, Option.bind_some, List.drop_zero, Nat.sub_zero]
  by_cases hmagic : s.bytes.take 4 = magic
  · rw [if_neg (not_not.mpr hmagic), if_neg (not_not.mpr hmagic), Slice.word_eq (by omega), hx,
      hcsr, Slice.word_eq (by omega)]
    simp only [Option.bind_some]
    rw [restorePagesChecked_eq s _ _ _ (by omega), Option.bind_some, hcount]
    generalize restorePages s.bytes (u32le s.bytes 4).toNat (8 + 32 * 8 + 8 + 32) Mem.new = r
    have hreg : ∀ r : Reg, ((List.range 32).map fun i =>
        leNat ((s.bytes.drop (8 + i * 8)).take 8)).getD r.toNat 0
          = leNat ((s.bytes.drop (8 + r.toNat * 8)).take 8) := fun r => by
      rw [List.getD_eq_getElem?_getD, List.getElem?_map, List.getElem?_range r.isLt]
      rfl
    simp only [hreg]
    rcases r with e | ⟨off, mem⟩
    · rfl
    · exact (apply_ite some _ _ _).symm
  · rw [if_pos hmagic, if_pos hmagic]

/-! ## The pieces of a snapshot -/

/-- The page records of a snapshot, in file order. -/
def listedPages (bytes : List U8) : List (U32 × Page) :=
  (List.range (u32le bytes 4).toNat).map fun k =>
    (u32le bytes (304 + 4100 * k), pageAt bytes (304 + 4100 * k + 4))

theorem leBytes_u64le {bytes : List U8} {o : Nat} (h : o + 8 ≤ bytes.length) :
    leBytes 8 (u64le bytes o).toNat = (bytes.drop o).take 8 := by
  have hback := leBytes_leNat ((bytes.drop o).take 8)
  rwa [length_window h, ← toNat_u64le h] at hback

theorem leBytes_u32le {bytes : List U8} {o : Nat} (h : o + 4 ≤ bytes.length) :
    leBytes 4 (u32le bytes o).toNat = (bytes.drop o).take 4 := by
  have hback := leBytes_leNat ((bytes.drop o).take 4)
  rwa [length_window h, ← toNat_u32le h] at hback

theorem ofFn_pageAt {bytes : List U8} {o : Nat} (h : o + 4096 ≤ bytes.length) :
    List.ofFn (pageAt bytes o) = (bytes.drop o).take 4096 := by
  apply List.ext_getElem?
  intro i
  rw [List.getElem?_ofFn]
  by_cases hi : i < 4096
  · rw [dif_pos hi, List.getElem?_take_of_lt hi, List.getElem?_drop, pageAt,
      List.getD_eq_getElem?_getD, List.getElem?_eq_getElem (by omega), Option.getD_some]
  · rw [dif_neg hi, List.getElem?_eq_none (by rw [length_window h]; omega)]

/-- A record is the 4100 bytes it is read from. -/
theorem pageRecord_window {bytes : List U8} {o : Nat} (h : o + 4100 ≤ bytes.length) :
    pageRecord (u32le bytes o, pageAt bytes (o + 4)) = (bytes.drop o).take 4100 := by
  rw [pageRecord, leBytes_u32le (by omega), ofFn_pageAt (by omega), show 4100 = 4 + 4096 from rfl,
    List.take_add, List.drop_drop]

/-- What follows the header is the listed records, where the length is right. -/
theorem drop_eq_listedPages {bytes : List U8}
    (hlen : bytes.length = 304 + 4100 * (u32le bytes 4).toNat) :
    bytes.drop 304 = (listedPages bytes).flatMap pageRecord := by
  rw [drop_eq_windows bytes 4100 (u32le bytes 4).toNat 304, List.drop_of_length_le (by omega),
    List.append_nil, listedPages, List.flatMap_map]
  refine List.flatMap_congr fun k hk => (pageRecord_window ?_).symm
  have hk := List.mem_range.mp hk
  omega

theorem regBytes_window {bytes : List U8} (h : 264 ≤ bytes.length) :
    (headerCpu bytes).regBytes ++ bytes.drop 264 = bytes.drop 8 := by
  rw [drop_eq_windows bytes 8 32 8, Cpu.regBytes]
  congr 1
  refine List.flatMap_congr fun i hi => ?_
  have hi := List.mem_range.mp hi
  have hreg : (BitVec.ofNat 5 i).toNat = i := by rw [BitVec.toNat_ofNat]; omega
  show leBytes 8 (u64le bytes (8 + (BitVec.ofNat 5 i).toNat * 8)).toNat = _
  rw [hreg, leBytes_u64le (by omega), Nat.mul_comm]

/-- The header words, written again, are the bytes they were read from. -/
theorem header_window {bytes : List U8} (hmagic : bytes.take 4 = magic) (h : 304 ≤ bytes.length) :
    bytes = magic ++ (leBytes 4 (u32le bytes 4).toNat ++ ((headerCpu bytes).regBytes ++
      (leBytes 8 (u64le bytes 264).toNat ++ (leBytes 8 (u64le bytes 272).toNat ++
      (leBytes 8 (u64le bytes 280).toNat ++ (leBytes 8 (u64le bytes 288).toNat ++
      (leBytes 8 (u64le bytes 296).toNat ++ bytes.drop 304))))))) := by
  -- from the end: each word followed by what comes after it is a tail of the file
  have hword : ∀ o, o + 8 ≤ bytes.length →
      leBytes 8 (u64le bytes o).toNat ++ bytes.drop (o + 8) = bytes.drop o := fun o ho => by
    rw [leBytes_u64le ho, ← List.drop_drop, List.take_append_drop]
  have hcount : leBytes 4 (u32le bytes 4).toNat ++ bytes.drop 8 = bytes.drop 4 := by
    rw [leBytes_u32le (by omega), show 8 = 4 + 4 from rfl, ← List.drop_drop, List.take_append_drop]
  rw [hword 296 (by omega), hword 288 (by omega), hword 280 (by omega), hword 272 (by omega),
    hword 264 (by omega), regBytes_window (by omega), hcount, ← hmagic, List.take_append_drop]

/-! ## What is accepted -/

theorem restorePages_off {bytes : List U8} : ∀ (count off : Nat) {mem mem' : Mem} {off' : Nat},
    restorePages bytes count off mem = .ok (off', mem') → off' = off + 4100 * count := by
  intro count
  induction count with
  | zero =>
    intro off mem mem' off' h
    obtain ⟨rfl, -⟩ := Prod.mk.inj (Except.ok.inj h)
    rfl
  | succ count ih =>
    intro off mem mem' off' h
    unfold restorePages at h
    split at h
    · cases h
    · rw [ih _ h]
      omega

/-- What `restore` accepts has the grammar's length, and its registers are the
header's. -/
theorem restore_inv {bytes : List U8} {m : Machine} (h : restore bytes = .ok m) :
    bytes.take 4 = magic ∧ bytes.length = 304 + 4100 * (u32le bytes 4).toNat ∧
      m.cpu = headerCpu bytes := by
  unfold restore at h
  split at h
  · cases h
  split at h
  · cases h
  next hmagic =>
    split at h
    · cases h
    next off mem hp =>
      split at h
      · cases h
      next hoff =>
        obtain rfl := Except.ok.inj h
        refine ⟨not_not.mp hmagic, ?_, rfl⟩
        rw [← not_not.mp hoff, restorePages_off _ _ hp]

/-- Everything in the grammar is accepted: the records are inserted in order. -/
theorem restore_of_grammar {bytes : List U8} (hmagic : bytes.take 4 = magic)
    (hlen : bytes.length = 304 + 4100 * (u32le bytes 4).toNat) :
    ∃ mem : Mem, restore bytes = .ok ⟨headerCpu bytes, mem⟩ ∧
      mem.pages = (∅ : PageMap).insertMany (listedPages bytes) := by
  have hsplit : bytes = bytes.take 304 ++ (listedPages bytes).flatMap pageRecord := by
    rw [← drop_eq_listedPages hlen, List.take_append_drop]
  obtain ⟨mem, hrun, hpages⟩ :=
    restorePages_records (listedPages bytes) (bytes.take 304) Mem.new_valid.toCoherent hsplit
  rw [List.length_take, Nat.min_eq_left (by omega), listedPages, List.length_map,
    List.length_range] at hrun
  refine ⟨mem, ?_, hpages⟩
  rw [restore, if_neg (by omega), if_neg (not_not.mpr hmagic), hrun]
  exact if_neg (not_not.mpr rfl)

theorem insertMany_foldl : ∀ (l : List (U32 × Page)) (M : PageMap),
    M.insertMany l = l.foldl (fun M e => M.insert e.1 e.2) M := by
  intro l
  induction l with
  | nil => intro M; rfl
  | cons e l ih => intro M; rw [Std.ExtTreeMap.insertMany_cons, ih]; rfl

/-- Inserting a list: the last entry of a key is the one that stays. -/
theorem getElem?_insertMany (p : U32) (l : List (U32 × Page)) :
    ((∅ : PageMap).insertMany l)[p]? = (l.reverse.find? (·.1 = p)).map Prod.snd := by
  have hread : (l.foldl (fun M e => M.insert e.1 e.2) (∅ : PageMap))[p]?
      = ((l.reverse.find? (·.1 = p)).map fun e => some e.2).getD none :=
    read_foldl (fun M : PageMap => M[p]?) _ _ l ∅ fun e _ M => by
      rw [Mem.getElem?_insert_pages]
      simp
  rw [insertMany_foldl, hread]
  cases l.reverse.find? (·.1 = p) <;> rfl

/-! ## What is written back -/

theorem toList_sorted (M : PageMap) : (M.toList.map fun p => p.1.toNat).Pairwise (· < ·) := by
  rw [List.pairwise_map]
  refine Std.ExtTreeMap.ordered_keys_toList.imp fun {a b} h => ?_
  exact BitVec.lt_def.mp (compareOfLessAndEq_eq_lt.mp h)

/-- A list that already increases is what its map lists. -/
theorem toList_insertMany {l : List (U32 × Page)}
    (h : (l.map fun p => p.1.toNat).Pairwise (· < ·)) :
    ((∅ : PageMap).insertMany l).toList = l := by
  have hl := List.pairwise_map.mp h
  have hM := List.pairwise_map.mp (toList_sorted ((∅ : PageMap).insertMany l))
  have hne : ∀ {a b : U32 × Page}, a.1.toNat < b.1.toNat → a ≠ b := by
    rintro a b hlt rfl
    omega
  have hdistinct : l.Pairwise fun a b => ¬compare a.1 b.1 = .eq := hl.imp fun {a b} hlt heq => by
    rw [Std.LawfulEqCmp.compare_eq_iff_eq] at heq
    rw [heq] at hlt
    omega
  have hmem : ∀ e, e ∈ ((∅ : PageMap).insertMany l).toList ↔ e ∈ l := by
    rintro ⟨k, v⟩
    rw [Std.ExtTreeMap.mem_toList_iff_getElem?_eq_some]
    constructor
    · intro hk
      rw [getElem?_insertMany] at hk
      cases hf : l.reverse.find? (·.1 = k) with
      | none =>
        rw [hf] at hk
        cases hk
      | some e =>
        rw [hf] at hk
        have hek : e.1 = k := by simpa using List.find?_some hf
        have hev : e.2 = v := Option.some.inj hk
        rw [← hek, ← hev]
        exact List.mem_reverse.mp (List.mem_of_find?_eq_some hf)
    · intro hk
      exact Std.ExtTreeMap.getElem?_insertMany_list_of_mem Std.ReflCmp.compare_self hdistinct hk
  refine List.Perm.eq_of_pairwise (fun a b _ _ hab hba => ?_) hM hl
    ((List.perm_ext_iff_of_nodup (hM.imp hne) (hl.imp hne)).mpr hmem)
  omega

/-- A restored state is captured as its snapshot exactly where its memory lists
the records in file order. -/
theorem capture_eq_iff {bytes : List U8} {m : Machine} (h : restore bytes = .ok m) :
    capture m = bytes ↔ m.mem.pageIter = listedPages bytes := by
  obtain ⟨hmagic, hlen, hcpu⟩ := restore_inv h
  have hheader := header_window hmagic (by omega)
  rw [drop_eq_listedPages hlen] at hheader
  have hcount : (listedPages bytes).length = (u32le bytes 4).toNat := by
    rw [listedPages, List.length_map, List.length_range]
  constructor
  · intro hcap
    obtain ⟨pre, hpre, hprelen⟩ := capture_split m
    have hsplit : bytes = bytes.take 304 ++ (listedPages bytes).flatMap pageRecord := by
      rw [← drop_eq_listedPages hlen, List.take_append_drop]
    have htake : (bytes.take 304).length = 304 := by
      rw [List.length_take]
      omega
    have heq := hpre.symm.trans (hcap.trans hsplit)
    exact flatMap_left_inj (by decide) length_pageRecord pageRecord_injective
      (List.append_inj heq (hprelen.trans htake.symm)).2
  · intro hiter
    rw [capture_eq, ← allocatedPages_eq, hiter, hcount, hcpu]
    exact hheader.symm

/-! ## The grammar -/

/-- What a snapshot says: the little-endian words at their offsets, and of each
page index its last record. -/
structure ReadAs (bytes : List U8) (m : Machine) : Prop where
  x : ∀ r : Reg, (m.cpu.x r).toNat = leNat ((bytes.drop (8 + 8 * r.toNat)).take 8)
  pc : m.cpu.pc.toNat = leNat ((bytes.drop 264).take 8)
  mtvec : m.cpu.mtvec.toNat = leNat ((bytes.drop 272).take 8)
  mepc : m.cpu.mepc.toNat = leNat ((bytes.drop 280).take 8)
  mcause : m.cpu.mcause.toNat = leNat ((bytes.drop 288).take 8)
  mstatus : m.cpu.mstatus.toNat = leNat ((bytes.drop 296).take 8)
  tohost : m.cpu.tohost = none
  pages : ∀ p : U32,
    m.mem.pages[p]? = ((listedPages bytes).reverse.find? (·.1 = p)).map Prod.snd

theorem restore_pages {bytes : List U8} {m : Machine} (h : restore bytes = .ok m) :
    m.mem.pages = (∅ : PageMap).insertMany (listedPages bytes) := by
  obtain ⟨hmagic, hlen, -⟩ := restore_inv h
  obtain ⟨mem, hok, hpages⟩ := restore_of_grammar hmagic hlen
  rw [h] at hok
  rw [Except.ok.inj hok]
  exact hpages

theorem restore_readAs {bytes : List U8} {m : Machine} (h : restore bytes = .ok m) :
    ReadAs bytes m := by
  obtain ⟨-, hlen, hcpu⟩ := restore_inv h
  constructor
  case x =>
    intro r
    have hr := r.isLt
    rw [hcpu, Nat.mul_comm]
    exact toNat_u64le (by omega)
  case tohost => rw [hcpu]; rfl
  case pages =>
    intro p
    rw [restore_pages h, getElem?_insertMany]
  all_goals
    rw [hcpu]
    exact toNat_u64le (by omega)

/-- **The snapshot grammar.** `restore` reads no byte outside its input,
accepts `RVS1` with a page count and exactly that many records, and takes every
word from its offset and every page from the last record of its index. Captured
again, the state gives the same bytes exactly where the indices increase. -/
theorem restore_grammar (bytes : List U8) :
    (∀ hlt : bytes.length < 2 ^ 63, restoreChecked ⟨bytes, hlt⟩ = some (restore bytes)) ∧
    ((∃ m, restore bytes = .ok m) ↔
      magic <+: bytes ∧ bytes.length = 304 + 4100 * leNat ((bytes.drop 4).take 4)) ∧
    ∀ m, restore bytes = .ok m → ReadAs bytes m ∧
      (capture m = bytes ↔ ((listedPages bytes).map fun p => p.1.toNat).Pairwise (· < ·)) := by
  refine ⟨fun hlt => restoreChecked_eq ⟨bytes, hlt⟩, ?_, fun m h => ⟨restore_readAs h, ?_⟩⟩
  · rw [List.prefix_iff_eq_take, show magic.length = 4 from rfl, eq_comm]
    constructor
    · rintro ⟨m, h⟩
      obtain ⟨hmagic, hlen, -⟩ := restore_inv h
      exact ⟨hmagic, by rw [← toNat_u32le (by omega)]; exact hlen⟩
    · rintro ⟨hmagic, hlen⟩
      rw [← toNat_u32le (by omega)] at hlen
      obtain ⟨mem, hok, -⟩ := restore_of_grammar hmagic hlen
      exact ⟨_, hok⟩
  · rw [capture_eq_iff h, Mem.pageIter_eq, restore_pages h]
    constructor
    · intro heq
      rw [← heq]
      exact toList_sorted _
    · exact toList_insertMany

/-- A snapshot that lists page 0 twice. -/
def twicePage : List U8 := magic ++ leBytes 4 2 ++ List.replicate (296 + 2 * 4100) 0

/-- It restores, to a state that is captured as other bytes. -/
theorem twicePage_restores : ∃ m, restore twicePage = .ok m ∧ capture m ≠ twicePage := by
  obtain ⟨-, haccept, hread⟩ := restore_grammar twicePage
  obtain ⟨m, h⟩ := haccept.mpr (by decide +kernel)
  have hlisted : (listedPages twicePage).map (fun p => p.1.toNat) = [0, 0] := by decide +kernel
  refine ⟨m, h, fun hcap => ?_⟩
  have hsorted := (hread m h).2.mp hcap
  rw [hlisted] at hsorted
  simp at hsorted

end Provework.Rvcore
