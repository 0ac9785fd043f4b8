import Provework.Coordinator.Bystanders
import Provework.Coordinator.ServeAuth
import Provework.Lib.Quota

/-!
# What uploads do to the coordinator's store (`handle_blob_upload`)

Anybody who authenticates may upload blobs, so the store is a place strangers write
to. Two guards stand in the handler: an upload is charged to its connection before it
is looked at, and a blob is stored under its hash only. `serve_uploads_bounded` is what
they amount to over a whole run: the store is the one the coordinator started with and
the uploads it logged put into it, at most eight of a connection and none larger than
16 MiB. These are the acknowledged uploads, and those of connections that were cut off
between the charge and the acknowledgement, the last upload of each.

The invariant keeps the list of these uploads. A connection that is gone has no record
any more, but its number is never given out again, so its uploads stay counted.
-/

namespace Provework.Coordinator

open Provework.Lib Provework.Jobfmt Provework.Contentstore Provework.Wire

/-- A connection, the blob it had stored, and whether it was told. -/
structure Upload where
  conn : Nat
  data : List U8
  acked : Bool

def uploadsOf (conn : Nat) (log : List Upload) : Nat := log.countP fun u => u.conn = conn

/-- The store after these uploads. -/
def storeAfter (blake3 : List U8 → Hash) (store : Store) (log : List Upload) : Store :=
  log.foldl (fun store u => store.put blake3 u.data) store

/-- The message that acknowledges the upload. -/
def Acknowledges (blake3 : List U8 → Hash) (m : Nat × ServerToClient) (u : Upload) : Prop :=
  m.1 = u.conn ∧ ∃ idHex, m.2 = .blobAck idHex true none ∧
    fromHex idHex 32 = .ok (List.ofFn (blake3 u.data))

/-- The connections that were cut off before they were told. -/
def cutOffs (log : List Upload) : List Nat := (log.filter fun u => !u.acked).map Upload.conn

theorem cutOffs_append (log log' : List Upload) :
    cutOffs (log ++ log') = cutOffs log ++ cutOffs log' := by
  rw [cutOffs, List.filter_append, List.map_append]
  rfl

structure UploadInv (blake3 : List U8 → Hash) (nextConn : Nat) (store : Store) (log : List Upload)
    (s : Serve) : Prop where
  store : s.store = storeAfter blake3 store log
  acked : List.Forall₂ (Acknowledges blake3) (s.sent.filter (stores ·.2)) (log.filter Upload.acked)
  gone : ∀ conn ∈ cutOffs log, conn ∉ s.conns
  last : (cutOffs log).Nodup
  sized : ∀ u ∈ log, u.data.length ≤ maxBlobBytes
  counted : ∀ conn, uploadsOf conn log ≤ maxUploadsPerConn
  charged : ∀ conn x, s.conns.lookup conn = some x →
    uploadsOf conn log ≤ x.uploads ∧ x.uploads ≤ maxUploadsPerConn
  senders : ∀ u ∈ log, nextConn ≤ u.conn ∧ u.conn < s.nextConn
  keys : ∀ conn ∈ s.conns, nextConn ≤ conn ∧ conn < s.nextConn
  later : nextConn ≤ s.nextConn

section

variable {blake3 : List U8 → Hash} {nextConn : Nat} {store : Store} {log : List Upload}
  {s s' : Serve}

theorem uploadsOf_fresh (h : UploadInv blake3 nextConn store log s) {conn : Nat}
    (hconn : s.nextConn ≤ conn) : uploadsOf conn log = 0 := by
  refine List.countP_eq_zero.mpr fun u hu heq => ?_
  have hsender := (h.senders u hu).2
  rw [of_decide_eq_true heq] at hsender
  exact absurd hconn (Nat.not_le.mpr hsender)

/-- A number that was cut off has been given out. -/
theorem cutOffs_old (h : UploadInv blake3 nextConn store log s) :
    ∀ conn ∈ cutOffs log, conn < s.nextConn := by
  intro conn hconn
  obtain ⟨u, hu, rfl⟩ := List.mem_map.mp hconn
  exact (h.senders u (List.mem_filter.mp hu).1).2

/-- A new connection has uploaded nothing. -/
theorem UploadInv.accept (h : UploadInv blake3 nextConn store log s) (peerIp : String) :
    UploadInv blake3 nextConn store log (s.thread (.accept peerIp)) where
  store := h.store
  acked := h.acked
  gone conn hconn hopen := by
    rcases (AList.mem_insert _).mp hopen with rfl | hopen
    · exact absurd (cutOffs_old h _ hconn) (Nat.lt_irrefl _)
    · exact h.gone conn hconn hopen
  last := h.last
  sized := h.sized
  counted := h.counted
  charged conn x hx := by
    by_cases hconn : conn = s.nextConn
    · subst hconn
      obtain rfl := Option.some.inj ((AList.lookup_insert _).symm.trans hx)
      exact ⟨Nat.le_of_eq (uploadsOf_fresh h (Nat.le_refl _)), Nat.zero_le _⟩
    · exact h.charged conn x ((AList.lookup_insert_ne hconn).symm.trans hx)
  senders u hu := ⟨(h.senders u hu).1, Nat.lt_succ_of_lt (h.senders u hu).2⟩
  keys conn hconn := by
    rcases (AList.mem_insert _).mp hconn with rfl | hconn
    · exact ⟨h.later, Nat.lt_succ_self _⟩
    · exact ⟨(h.keys conn hconn).1, Nat.lt_succ_of_lt (h.keys conn hconn).2⟩
  later := Nat.le_succ_of_le h.later

/-- Nothing is stored. -/
theorem UploadInv.kept {c : Option Nat} (h : UploadInv blake3 nextConn store log s)
    (hserves : Serves blake3 c s s') (hstore : s'.store = s.store)
    (hacks : s'.sent.filter (stores ·.2) = s.sent.filter (stores ·.2)) :
    UploadInv blake3 nextConn store log s' where
  store := hstore.trans h.store
  acked := by
    rw [hacks]
    exact h.acked
  gone conn hconn hopen := h.gone conn hconn (hserves.conns_subset hopen)
  last := h.last
  sized := h.sized
  counted := h.counted
  charged conn x' hx' := by
    rcases hserves.table with heq | ⟨d, x, y, -, hx, heq, hcharged⟩ | ⟨d, -, heq⟩
    · rw [heq] at hx'
      exact h.charged conn x' hx'
    · rw [heq] at hx'
      by_cases hconn : conn = d
      · subst hconn
        obtain rfl := Option.some.inj ((AList.lookup_insert _).symm.trans hx')
        obtain ⟨hcount, hquota⟩ := h.charged conn x hx
        rcases hcharged with hsame | ⟨hless, hmore⟩ <;> omega
      · exact h.charged conn x' ((AList.lookup_insert_ne hconn).symm.trans hx')
    · rw [heq] at hx'
      exact h.charged conn x' (lookup_erase_some hx')
  senders := by
    rw [hserves.next]
    exact h.senders
  keys conn hconn := by
    rw [hserves.next]
    exact h.keys conn (hserves.conns_subset hconn)
  later := by
    rw [hserves.next]
    exact h.later

/-- The log after one more upload. -/
theorem uploadsOf_concat (conn : Nat) (u : Upload) :
    uploadsOf conn (log ++ [u]) = uploadsOf conn log + if u.conn = conn then 1 else 0 := by
  rw [uploadsOf, List.countP_append, List.countP_singleton]
  simp [uploadsOf]

/-- One more upload is logged: what is left to show is who is told, and who is charged. -/
theorem UploadInv.logged {c : Option Nat} (h : UploadInv blake3 nextConn store log s)
    (hserves : Serves blake3 c s s') {d : Nat} {x : Conn} {data : List U8} {acked : Bool}
    (hx : s.conns.lookup d = some x) (hquota : x.uploads < maxUploadsPerConn)
    (hsize : data.length ≤ maxBlobBytes) (hstore : s'.store = s.store.put blake3 data)
    (hacked : List.Forall₂ (Acknowledges blake3) (s'.sent.filter (stores ·.2))
      ((log ++ [Upload.mk d data acked]).filter Upload.acked))
    (hgone : ∀ conn ∈ cutOffs (log ++ [⟨d, data, acked⟩]), conn ∉ s'.conns)
    (hlast : (cutOffs (log ++ [⟨d, data, acked⟩])).Nodup)
    (hcharged : ∀ conn x', s'.conns.lookup conn = some x' →
      uploadsOf conn (log ++ [⟨d, data, acked⟩]) ≤ x'.uploads ∧ x'.uploads ≤ maxUploadsPerConn) :
    UploadInv blake3 nextConn store (log ++ [⟨d, data, acked⟩]) s' where
  store := by
    rw [hstore, h.store, storeAfter, storeAfter, List.foldl_append]
    rfl
  acked := hacked
  gone := hgone
  last := hlast
  sized := List.forall_mem_append.mpr ⟨h.sized,
    fun u hu => by rw [List.mem_singleton.mp hu]; exact hsize⟩
  counted conn := by
    rw [uploadsOf_concat]
    split
    next heq =>
      have hsame : d = conn := heq
      have hcount := (h.charged d x hx).1
      subst hsame
      omega
    next => exact h.counted conn
  charged := hcharged
  senders := by
    have hopen : d ∈ s.conns := AList.lookup_isSome.mp (by rw [hx]; rfl)
    rw [hserves.next]
    exact List.forall_mem_append.mpr
      ⟨h.senders, fun u hu => by rw [List.mem_singleton.mp hu]; exact h.keys d hopen⟩
  keys conn hconn := by
    rw [hserves.next]
    exact h.keys conn (hserves.conns_subset hconn)
  later := by
    rw [hserves.next]
    exact h.later

/-- A blob is stored: charged, and acknowledged or cut off. -/
theorem UploadInv.stored {c : Option Nat} (h : UploadInv blake3 nextConn store log s)
    (hserves : Serves blake3 c s s') (hstored : Stored blake3 c s s') :
    ∃ u, UploadInv blake3 nextConn store (log ++ [u]) s' := by
  obtain ⟨d, x, idHex, data, -, hx, -, hquota, hsize, hid, hsettled, hstore⟩ := hstored
  rcases hsettled with ⟨hconns, hsent⟩ | ⟨hconns, hsent⟩
  · have hcut : cutOffs (log ++ [⟨d, data, true⟩]) = cutOffs log := by
      rw [cutOffs_append]
      exact List.append_nil _
    refine ⟨⟨d, data, true⟩, h.logged hserves hx hquota hsize hstore ?_ ?_ (hcut ▸ h.last) ?_⟩
    · rw [hsent, List.filter_append, List.filter_append]
      exact List.rel_append h.acked (.cons ⟨rfl, idHex, rfl, hid⟩ .nil)
    · rw [hcut]
      exact fun conn hconn hmem => h.gone conn hconn (hserves.conns_subset hmem)
    · intro conn x' hx'
      rw [hconns] at hx'
      rw [uploadsOf_concat]
      by_cases hconn : conn = d
      · subst hconn
        obtain rfl := Option.some.inj ((AList.lookup_insert _).symm.trans hx')
        rw [if_pos rfl]
        exact ⟨Nat.succ_le_succ (h.charged conn x hx).1, hquota⟩
      · rw [if_neg (Ne.symm hconn)]
        exact h.charged conn x' ((AList.lookup_insert_ne hconn).symm.trans hx')
  · have hcut : cutOffs (log ++ [⟨d, data, false⟩]) = cutOffs log ++ [d] := by
      rw [cutOffs_append]
      rfl
    refine ⟨⟨d, data, false⟩, h.logged hserves hx hquota hsize hstore ?_ ?_ ?_ ?_⟩
    · rw [hsent, List.filter_append]
      have hnone : [Upload.mk d data false].filter Upload.acked = [] := rfl
      rw [hnone, List.append_nil]
      exact h.acked
    · rw [hcut, hconns]
      intro conn hconn hmem
      rcases List.mem_append.mp hconn with hconn | hconn
      · exact h.gone conn hconn (AList.mem_erase.mp hmem).2
      · exact (AList.mem_erase.mp hmem).1 (List.mem_singleton.mp hconn)
    · -- it was open until now, so it was not cut off before
      have hopen : d ∈ s.conns := AList.lookup_isSome.mp (by rw [hx]; rfl)
      rw [hcut]
      refine List.nodup_append.mpr ⟨h.last, List.nodup_singleton d,
        fun conn hconn conn' hconn' heq => ?_⟩
      rw [heq, List.mem_singleton.mp hconn'] at hconn
      exact h.gone d hconn hopen
    · intro conn x' hx'
      rw [hconns] at hx'
      have hne : conn ≠ d := by
        rintro rfl
        rw [AList.lookup_erase] at hx'
        cases hx'
      rw [uploadsOf_concat, if_neg (Ne.symm hne)]
      exact h.charged conn x' (lookup_erase_some hx')

end

/-! ## Names and contents -/

/-- Every blob lies under its hash. -/
def HashNamed (blake3 : List U8 → Hash) (store : Store) : Prop :=
  ∀ id data, store id = some data → blake3 data = id

/-- What is there can be read. -/
theorem HashNamed.get {blake3 : List U8 → Hash} {store : Store} (h : HashNamed blake3 store)
    {id : ContentId} (hid : store.has id = true) : ∃ data, store.get blake3 id = some data := by
  obtain ⟨data, hdata⟩ := Option.isSome_iff_exists.mp hid
  refine ⟨data, ?_⟩
  rw [Store.get, hdata, Option.filter_some, if_pos (decide_eq_true (h id data hdata))]

/-! ## A whole run -/

/-- Cut off before the acknowledgement: the blob is stored, and nobody is told. -/
example :
    let s := stateAfter (step toyCrypto identityConfig) (Serve.init 1 fun _ => none)
      (oneLogin ++ (turnWith none (.closed 0)).dropLast ++
        [.event (.blobUpload 1 (keyHex 0) "0102") { quietHost with cutOff := true } 0])
    (s.store fun _ => 0) = some [1, 2] ∧ s.sent.filter (stores ·.2) = [] ∧ 1 ∉ s.conns := by
  decide +kernel

end Provework.Coordinator
