import Provework.Rvcore.Hash

/-!
# Machine snapshots (`crates/rvcore/src/snapshot.rs`)

`capture` writes the registers, the CSRs and every allocated page; `restore`
reads them back from bytes nobody vouches for. `restore_capture` is the round
trip: what is captured from a valid machine restores to one that agrees on
everything the state hash covers.
-/

namespace Provework.Rvcore

open Provework.Lib

/-- `b"RVS1"`. -/
def magic : List U8 := [0x52, 0x56, 0x53, 0x31]

def capture (m : Machine) : List U8 :=
  magic ++ leBytes 4 m.mem.allocatedPages ++ m.cpu.regBytes ++ leBytes 8 m.cpu.pc.toNat
    ++ m.cpu.csrs.flatMap (fun csr => leBytes 8 csr.toNat) ++ m.mem.pageIter.flatMap pageRecord

/-- `from_le_bytes(bytes[o..o + 8])`. -/
def u64le (bytes : List U8) (o : Nat) : U64 := BitVec.ofNat 64 (leNat ((bytes.drop o).take 8))

def u32le (bytes : List U8) (o : Nat) : U32 := BitVec.ofNat 32 (leNat ((bytes.drop o).take 4))

/-- `page.copy_from_slice(&bytes[off..off + PAGE_SIZE])`. -/
def pageAt (bytes : List U8) (off : Nat) : Page := fun i => bytes.getD (off + i) 0

/-- The page loop, with `count` pages to go. Returns the offset it stops at. -/
def restorePages (bytes : List U8) : Nat → Nat → Mem → Except String (Nat × Mem)
  | 0, off, mem => .ok (off, mem)
  | count + 1, off, mem =>
    if off + 4 + 4096 > bytes.length then .error "snapshot: truncated page data"
    else
      restorePages bytes count (off + 4 + 4096)
        (mem.insertPage (u32le bytes off) (pageAt bytes (off + 4)))

/-- The registers, the pc and the four CSRs of the header. -/
def headerCpu (bytes : List U8) : Cpu :=
  let pcOff := 8 + 32 * 8
  { x := fun r => u64le bytes (8 + r.toNat * 8)
    pc := u64le bytes pcOff
    mtvec := u64le bytes (pcOff + 8)
    mepc := u64le bytes (pcOff + 8 + 8)
    mcause := u64le bytes (pcOff + 8 + 16)
    mstatus := u64le bytes (pcOff + 8 + 24)
    tohost := none }

def restore (bytes : List U8) : Except String Machine :=
  if bytes.length < 8 + 32 * 8 + 8 + 4 * 8 then .error "snapshot: too short"
  else if bytes.take 4 ≠ magic then .error "snapshot: bad magic"
  else
    match restorePages bytes (u32le bytes 4).toNat (8 + 32 * 8 + 8 + 32) Mem.new with
    | .error e => .error e
    | .ok (off, mem) =>
      if off ≠ bytes.length then .error "snapshot: trailing bytes"
      else .ok { cpu := headerCpu bytes, mem }

/-! ## A restored memory is coherent -/

theorem restorePages_coherent (bytes : List U8) : ∀ (count off : Nat) {mem mem' : Mem} {off' : Nat},
    mem.Coherent → restorePages bytes count off mem = .ok (off', mem') → mem'.Coherent := by
  intro count
  induction count with
  | zero =>
    intro off mem mem' off' hc h
    obtain ⟨_, rfl⟩ := Prod.mk.inj (Except.ok.inj h)
    exact hc
  | succ count ih =>
    intro off mem mem' off' hc h
    unfold restorePages at h
    split at h
    · cases h
    · exact ih _ (Mem.insertPage_coherent hc _ _).1 h

theorem restore_coherent {bytes : List U8} {m : Machine} (h : restore bytes = .ok m) :
    m.mem.Coherent := by
  unfold restore at h
  split at h
  · cases h
  split at h
  · cases h
  split at h
  · cases h
  next off mem hp =>
    split at h
    · cases h
    · obtain rfl := Except.ok.inj h
      exact restorePages_coherent bytes _ _ Mem.new_valid.toCoherent hp

/-! ## The round trip -/

theorem u64le_eq {bytes : List U8} (pre : List U8) {post : List U8} {v : U64} {o : Nat}
    (h : bytes = pre ++ (leBytes 8 v.toNat ++ post)) (ho : pre.length = o) :
    u64le bytes o = v := by
  have hlt := v.isLt
  rw [u64le, h, ← ho, List.drop_left, List.take_left' (length_leBytes 8 _), leNat_leBytes]
  apply BitVec.eq_of_toNat_eq
  rw [BitVec.toNat_ofNat]
  omega

theorem u32le_eq {bytes pre post : List U8} {v : Nat} {o : Nat}
    (h : bytes = pre ++ (leBytes 4 v ++ post)) (ho : pre.length = o) (hv : v < 2 ^ 32) :
    (u32le bytes o).toNat = v := by
  rw [u32le, h, ← ho, List.drop_left, List.take_left' (length_leBytes 4 _), leNat_leBytes,
    BitVec.toNat_ofNat]
  omega

theorem pageAt_eq {bytes : List U8} (pre : List U8) {post : List U8} {page : Page} {off : Nat}
    (h : bytes = pre ++ (List.ofFn page ++ post)) (ho : pre.length = off) :
    pageAt bytes off = page := by
  funext i
  rw [pageAt, h, ← ho, List.getD_eq_getElem?_getD, List.getElem?_append_right (by omega),
    Nat.add_sub_cancel_left, List.getElem?_append_left (by rw [List.length_ofFn]; exact i.isLt),
    List.getElem?_ofFn]
  simp

/-- The page loop reads back a list of page records. -/
theorem restorePages_records {bytes : List U8} : ∀ (ps : List (U32 × Page)) (pre : List U8)
    {mem : Mem}, mem.Coherent → bytes = pre ++ ps.flatMap pageRecord →
    ∃ mem', restorePages bytes ps.length pre.length mem = .ok (bytes.length, mem') ∧
      mem'.pages = mem.pages.insertMany ps := by
  -- on the records; `pre` is what has been read, so its length is the offset
  intro ps
  induction ps with
  | nil =>
    intro pre mem _ h
    refine ⟨mem, ?_, rfl⟩
    rw [h, List.flatMap_nil, List.append_nil]
    rfl
  | cons p ps ih =>
    intro pre mem hc h
    have hrec :
        bytes = pre ++ (leBytes 4 p.1.toNat ++ (List.ofFn p.2 ++ ps.flatMap pageRecord)) := by
      rw [h, List.flatMap_cons, pageRecord, List.append_assoc]
    have hidx : u32le bytes pre.length = p.1 :=
      BitVec.eq_of_toNat_eq (u32le_eq hrec rfl p.1.isLt)
    have hpage : pageAt bytes (pre.length + 4) = p.2 :=
      pageAt_eq (pre ++ leBytes 4 p.1.toNat) (by rw [hrec, List.append_assoc]) (by simp)
    obtain ⟨hc', hpages⟩ := Mem.insertPage_coherent hc p.1 p.2
    obtain ⟨mem', hrun, hres⟩ := ih (pre ++ pageRecord p) hc'
      (by rw [h, List.flatMap_cons, List.append_assoc])
    refine ⟨mem', ?_, ?_⟩
    · have hlen : bytes.length = pre.length + (4 + 4096) + (ps.flatMap pageRecord).length := by
        rw [h, List.flatMap_cons, List.length_append, List.length_append, length_pageRecord]
        omega
      rw [List.length_cons, restorePages, if_neg (by omega), hidx, hpage]
      rw [List.length_append, length_pageRecord] at hrun
      exact hrun
    · rw [hres, hpages, Std.ExtTreeMap.insertMany_cons]

/-- Listing a map and inserting the list again gives the map. -/
theorem insertMany_toList (M : PageMap) : (∅ : PageMap).insertMany M.toList = M := by
  apply Std.ExtTreeMap.ext_getElem?
  intro k
  cases h : M[k]? with
  | none =>
    have hnot : (M.toList.map Prod.fst).contains k = false := by
      rw [Std.ExtTreeMap.map_fst_toList_eq_keys]
      have hk : k ∉ M := by
        rw [Std.ExtTreeMap.mem_iff_isSome_getElem?, h]
        simp
      simpa using hk
    rw [Std.ExtTreeMap.getElem?_insertMany_list_of_contains_eq_false hnot]
    rfl
  | some v =>
    have hmem : (k, v) ∈ M.toList := Std.ExtTreeMap.mem_toList_iff_getElem?_eq_some.mpr h
    exact Std.ExtTreeMap.getElem?_insertMany_list_of_mem Std.ReflCmp.compare_self
      Std.ExtTreeMap.distinct_keys_toList hmem

/-- The registers sit at `8 + 8r`. -/
theorem u64le_reg {c : Cpu} {bytes : List U8} (pre : List U8) {post : List U8}
    (h : bytes = pre ++ (c.regBytes ++ post)) (r : Reg) :
    u64le bytes (pre.length + r.toNat * 8) = c.x r := by
  have hr : r.toNat < (List.range 32).length := by rw [List.length_range]; exact r.isLt
  obtain ⟨pre', post', hsplit, hlen⟩ :=
    flatMap_split (f := fun i => leBytes 8 (c.x (BitVec.ofNat 5 i)).toNat) (w := 8)
      (fun _ => length_leBytes 8 _) (List.range 32) r.toNat hr
  have hreg : (List.range 32).get ⟨r.toNat, hr⟩ = r.toNat := by simp
  rw [hreg, show BitVec.ofNat 5 r.toNat = r by simp] at hsplit
  have hbytes : bytes = (pre ++ pre') ++ (leBytes 8 (c.x r).toNat ++ (post' ++ post)) := by
    rw [h, Cpu.regBytes, hsplit]
    simp only [List.append_assoc]
  exact u64le_eq (pre ++ pre') hbytes (by rw [List.length_append, hlen])

/-- A capture, piece by piece. -/
theorem capture_eq (m : Machine) :
    capture m = magic ++ (leBytes 4 m.mem.allocatedPages ++ (m.cpu.regBytes ++
      (leBytes 8 m.cpu.pc.toNat ++ (leBytes 8 m.cpu.mtvec.toNat ++ (leBytes 8 m.cpu.mepc.toNat ++
      (leBytes 8 m.cpu.mcause.toNat ++ (leBytes 8 m.cpu.mstatus.toNat ++
      m.mem.pageIter.flatMap pageRecord))))))) := by
  simp only [capture, Cpu.csrs, List.flatMap_cons, List.flatMap_nil, List.append_assoc,
    List.append_nil]

/-- The page records start right after the header's 304 bytes. -/
theorem capture_split (m : Machine) :
    ∃ pre, capture m = pre ++ m.mem.pageIter.flatMap pageRecord ∧ pre.length = 304 := by
  refine ⟨_, rfl, ?_⟩
  simp [magic, length_regBytes, Cpu.csrs]

theorem allocatedPages_eq (mem : Mem) : mem.pageIter.length = mem.allocatedPages := by
  rw [Mem.pageIter, List.length_map, Std.ExtTreeMap.length_toList]
  rfl

/-- The words of the header, at the offsets `restore` reads. -/
theorem header_eq (m : Machine) :
    (capture m).take 4 = magic ∧
    (∀ r : Reg, u64le (capture m) (8 + r.toNat * 8) = m.cpu.x r) ∧
    u64le (capture m) 264 = m.cpu.pc ∧ u64le (capture m) 272 = m.cpu.mtvec ∧
    u64le (capture m) 280 = m.cpu.mepc ∧ u64le (capture m) 288 = m.cpu.mcause ∧
    u64le (capture m) 296 = m.cpu.mstatus := by
  have hreg := length_regBytes m.cpu
  have hmagic : magic.length = 4 := rfl
  rw [capture_eq]
  -- each word with what precedes it, whose length is the offset
  refine ⟨List.take_left' rfl, fun r => ?_, ?_, ?_, ?_, ?_, ?_⟩
  · exact u64le_reg (magic ++ leBytes 4 m.mem.allocatedPages)
      (by simp only [List.append_assoc]; rfl) r
  · exact u64le_eq (magic ++ (leBytes 4 m.mem.allocatedPages ++ m.cpu.regBytes))
      (by simp only [List.append_assoc]; rfl)
      (by simp only [List.length_append, length_leBytes, hreg, hmagic])
  · exact u64le_eq (magic ++ (leBytes 4 m.mem.allocatedPages ++ (m.cpu.regBytes ++
      leBytes 8 m.cpu.pc.toNat)))
      (by simp only [List.append_assoc]; rfl)
      (by simp only [List.length_append, length_leBytes, hreg, hmagic])
  · exact u64le_eq (magic ++ (leBytes 4 m.mem.allocatedPages ++ (m.cpu.regBytes ++
      (leBytes 8 m.cpu.pc.toNat ++ leBytes 8 m.cpu.mtvec.toNat))))
      (by simp only [List.append_assoc]; rfl)
      (by simp only [List.length_append, length_leBytes, hreg, hmagic])
  · exact u64le_eq (magic ++ (leBytes 4 m.mem.allocatedPages ++ (m.cpu.regBytes ++
      (leBytes 8 m.cpu.pc.toNat ++ (leBytes 8 m.cpu.mtvec.toNat ++
      leBytes 8 m.cpu.mepc.toNat)))))
      (by simp only [List.append_assoc]; rfl)
      (by simp only [List.length_append, length_leBytes, hreg, hmagic])
  · exact u64le_eq (magic ++ (leBytes 4 m.mem.allocatedPages ++ (m.cpu.regBytes ++
      (leBytes 8 m.cpu.pc.toNat ++ (leBytes 8 m.cpu.mtvec.toNat ++ (leBytes 8 m.cpu.mepc.toNat ++
      leBytes 8 m.cpu.mcause.toNat))))))
      (by simp only [List.append_assoc]; rfl)
      (by simp only [List.length_append, length_leBytes, hreg, hmagic])

/-- **The round trip.** What is captured from a valid machine restores to one
that agrees on everything the state hash covers. -/
theorem restore_capture {m : Machine} (hv : m.mem.Valid) :
    ∃ m', restore (capture m) = .ok m' ∧ m'.SameHashed m := by
  obtain ⟨hmagic, hx, hpc, htv, hepc, hcause, hstatus⟩ := header_eq m
  have hcount : (u32le (capture m) 4).toNat = m.mem.pageIter.length := by
    rw [allocatedPages_eq]
    refine u32le_eq (capture_eq m) rfl ?_
    have := hv.slots_le
    rw [Mem.allocatedPages, ← hv.size_eq]
    omega
  obtain ⟨pre, hpre, hlen⟩ := capture_split m
  obtain ⟨mem', hrun, hpages⟩ :=
    restorePages_records m.mem.pageIter pre Mem.new_valid.toCoherent hpre
  have hpages : mem'.pages = m.mem.pages := by
    rw [hpages, Mem.pageIter_eq]
    exact insertMany_toList m.mem.pages
  have hshort : ¬(capture m).length < 8 + 32 * 8 + 8 + 4 * 8 := by
    rw [hpre, List.length_append]
    omega
  refine ⟨⟨headerCpu (capture m), mem'⟩, ?_, ?_⟩
  · rw [hlen] at hrun
    rw [restore, if_neg hshort, if_neg (not_not.mpr hmagic), hcount, hrun]
    exact if_neg (not_not.mpr rfl)
  · exact ⟨funext hx, hpc, htv, hepc, hcause, hstatus, hpages⟩

end Provework.Rvcore
