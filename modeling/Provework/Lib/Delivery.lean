import Provework.Lib.Bytes

/-!
# A byte stream, read by read

A reader does not see a byte string, it sees what each `read` returns: some of
the bytes that are there, that nothing is there yet, or an error. A `Delivery`
lists what it will find. Whatever of a piece does not fit the reader's buffer is
found again by the next read, so every way to cut a byte string into short reads
is a delivery of it; where the list ends, so does the stream.

`fill` is the loop that reads until its buffer is full. `quit` says when it gives
up instead, from the number of bytes it has and what the clock shows; `fill_ends`
says how it can end, and that no byte is lost whatever happens.
-/

namespace Provework.Lib

/-- What a read finds; `β` is what the reader's clock shows when it finds nothing. -/
inductive Arrival (β : Type) where
  /-- At least one byte. -/
  | data (b : U8) (bs : List U8)
  | blocked (clock : β)
  | failed (error : String)
  deriving DecidableEq, Repr

abbrev Delivery (β : Type) := List (Arrival β)

namespace Delivery

variable {β : Type}

/-- The bytes of a delivery, however they are cut. -/
def bytes : Delivery β → List U8
  | [] => []
  | .data b bs :: d => b :: bs ++ bytes d
  | _ :: d => bytes d

/-- Bytes not read yet, in front of what follows. -/
def unread (bs : List U8) (d : Delivery β) : Delivery β :=
  match bs with
  | [] => d
  | b :: bs => .data b bs :: d

@[simp] theorem bytes_unread (bs : List U8) (d : Delivery β) :
    bytes (unread bs d) = bs ++ bytes d := by
  cases bs with
  | nil => rfl
  | cons b bs => rfl

/-- Nothing in it is an error. -/
def Healthy (d : Delivery β) : Prop := ∀ e, Arrival.failed e ∉ d

/-- How filling a buffer ends, with the bytes read by then. -/
inductive Filled (β : Type) where
  | full (got : List U8)
  | closed (got : List U8)
  | quit (got : List U8) (clock : β)
  | failed (got : List U8) (error : String)
  deriving DecidableEq, Repr

/-- Read until `want` bytes are there, `got` being there already. -/
def fill (quit : Nat → β → Bool) (want : Nat) : List U8 → Delivery β → Filled β × Delivery β
  | got, [] => if want ≤ got.length then (.full got, []) else (.closed got, [])
  | got, a :: d =>
    if want ≤ got.length then (.full got, a :: d)
    else
      match a with
      | .data b bs =>
        -- one read takes what fits
        let room := want - got.length
        if room < (b :: bs).length then
          (.full (got ++ (b :: bs).take room), unread ((b :: bs).drop room) d)
        else fill quit want (got ++ b :: bs) d
      | .blocked clock =>
        if quit got.length clock then (.quit got clock, d) else fill quit want got d
      | .failed error => (.failed got error, d)

variable {quit : Nat → β → Bool} {want : Nat}

/-- What is left holds no errors and shows no clock that was not there. -/
theorem fill_mem (a : Arrival β) (ha : ∀ b bs, a ≠ .data b bs) : ∀ (got : List U8) (d : Delivery β),
    a ∈ (fill quit want got d).2 → a ∈ d
  | got, [] => by
    unfold fill
    split <;> exact id
  | got, c :: d => by
    unfold fill
    split
    · exact id
    · cases c with
      | data b bs =>
        dsimp only
        split
        · intro h
          unfold unread at h
          split at h
          · exact List.mem_cons_of_mem _ h
          · rcases List.mem_cons.mp h with rfl | h
            · exact absurd rfl (ha _ _)
            · exact List.mem_cons_of_mem _ h
        · intro h
          exact List.mem_cons_of_mem _ (fill_mem a ha _ d h)
      | blocked clock =>
        dsimp only
        split
        · exact List.mem_cons_of_mem _
        · intro h
          exact List.mem_cons_of_mem _ (fill_mem a ha got d h)
      | failed error => exact List.mem_cons_of_mem _

theorem Healthy.fill {d : Delivery β} (h : d.Healthy) (got : List U8) :
    (fill quit want got d).2.Healthy :=
  fun e hmem => h e (fill_mem (.failed e) (fun _ _ => nofun) got d hmem)

/-- How the loop can end. What it read and what is left are what was there. -/
inductive Ends (quit : Nat → β → Bool) (want : Nat) (got : List U8) (d : Delivery β) :
    Filled β × Delivery β → Prop
  | full {out : List U8} {d' : Delivery β} (hlen : out.length = want)
      (hbytes : out ++ bytes d' = got ++ bytes d) : Ends quit want got d (.full out, d')
  | closed {out : List U8} (hout : out = got ++ bytes d) (hshort : out.length < want) :
      Ends quit want got d (.closed out, [])
  | quit {out : List U8} {clock : β} {d' : Delivery β} (hclock : Arrival.blocked clock ∈ d)
      (hquit : quit out.length clock = true) (hbytes : out ++ bytes d' = got ++ bytes d)
      (hless : d'.length < d.length) : Ends quit want got d (.quit out clock, d')
  | failed {out : List U8} {error : String} {d' : Delivery β} (herror : Arrival.failed error ∈ d)
      (hbytes : out ++ bytes d' = got ++ bytes d) : Ends quit want got d (.failed out error, d')

theorem Ends.tail {got got' : List U8} {a : Arrival β} {d : Delivery β}
    {r : Filled β × Delivery β} (h : Ends quit want got' d r)
    (hbytes : got' ++ bytes d = got ++ bytes (a :: d)) : Ends quit want got (a :: d) r := by
  cases h with
  | full hlen hout => exact .full hlen (hout.trans hbytes)
  | closed hout hshort => exact .closed (hout.trans hbytes) hshort
  | quit hclock hquit hout hless =>
    exact .quit (List.mem_cons_of_mem _ hclock) hquit (hout.trans hbytes) (Nat.lt_succ_of_lt hless)
  | failed herror hout => exact .failed (List.mem_cons_of_mem _ herror) (hout.trans hbytes)

theorem fill_ends : ∀ (got : List U8) (d : Delivery β), got.length ≤ want →
    Ends quit want got d (fill quit want got d)
  | got, [], hgot => by
    unfold fill
    split
    next hfull => exact .full (Nat.le_antisymm hgot hfull) rfl
    next hmore => exact .closed (List.append_nil got).symm (Nat.lt_of_not_le hmore)
  | got, a :: d, hgot => by
    unfold fill
    split
    next hfull => exact .full (Nat.le_antisymm hgot hfull) rfl
    next hmore =>
      cases a with
      | data b bs =>
        dsimp only
        split
        next hfits =>
          refine .full ?_ ?_
          · rw [List.length_append, List.length_take, Nat.min_eq_left (Nat.le_of_lt hfits)]
            omega
          · rw [bytes_unread, List.append_assoc, ← List.append_assoc (List.take _ _),
              List.take_append_drop]
            rfl
        next hroom =>
          refine (fill_ends (got ++ b :: bs) d ?_).tail ?_
          · rw [List.length_append]
            omega
          · rw [List.append_assoc]
            rfl
      | blocked clock =>
        dsimp only
        split
        next hquit => exact .quit List.mem_cons_self hquit rfl (Nat.lt_succ_self _)
        next => exact (fill_ends got d hgot).tail rfl
      | failed error => exact .failed List.mem_cons_self rfl

end Delivery

end Provework.Lib
