import Provework.Jobfmt

/-!
# Names in paths (`confined_name` of `crates/jobfmt/src/lib.rs`)

`confined_name` looks at the components of a name, and `components` passes over
separators at the end and over single dots between them. So what it accepts is a
plain name with such a tail (`confinedName_iff`). Paths are built from the name as it
is: joined to a directory it is a direct child, with more characters around it that
depends on the tail (`directChild_around_iff`).

Paths are Unix paths. A direct child of a directory has the components of the
directory and a normal one; links and `..` are not followed.
-/

namespace Provework.Jobfmt

open Provework.Lib

/-! ## Joining -/

/-- `dir.join(name)`: an absolute name replaces the directory. -/
def join (dir name : String) : String :=
  if name.toList.head? = some '/' then name
  else if dir = "" ∨ dir.toList.getLast? = some '/' then dir ++ name
  else dir ++ "/" ++ name

/-- The path is a name in the directory. -/
def DirectChild (dir path : String) : Prop :=
  ∃ name, components path = components dir ++ [.normal name]

/-- Segments that are no component. -/
def Skipped (seg : List Char) : Prop := seg = [] ∨ seg = ['.']

theorem segment_eq_none_iff {seg : List Char} : segment seg = none ↔ Skipped seg := by
  unfold segment Skipped
  split
  next h => exact iff_of_true rfl h
  next h =>
    refine iff_of_false ?_ h
    split
    · exact Option.some_ne_none _
    · exact Option.some_ne_none _

theorem segment_normal {seg : List Char} (h : ¬Skipped seg) (hparent : seg ≠ ['.', '.']) :
    segment seg = some (.normal seg) := by
  unfold Skipped at h
  rw [segment, if_neg h, if_neg hparent]

theorem filterMap_skipped {segs : List (List Char)} (h : ∀ seg ∈ segs, Skipped seg) :
    segs.filterMap segment = [] :=
  List.filterMap_eq_nil_iff.mpr fun seg hseg => segment_eq_none_iff.mpr (h seg hseg)

theorem components_absolute {s : String} {rest : List Char} (h : s.toList = '/' :: rest) :
    components s = .rootDir :: (rest.splitOn '/').filterMap segment := by
  rw [components, h]
  rfl

/-- The first segment of a relative path. -/
def leading (first : List Char) : List Component :=
  if first = ['.'] then [.curDir] else (segment first).toList

theorem components_relative {s : String} {first : List Char} {segs : List (List Char)}
    (hrel : s.toList.head? ≠ some '/') (hsplit : s.toList.splitOn '/' = first :: segs) :
    components s = leading first ++ segs.filterMap segment := by
  unfold components leading
  split
  next rest h => exact absurd (by rw [h]; rfl) hrel
  next =>
    rw [hsplit]
    split
    next segs' h =>
      obtain ⟨rfl, rfl⟩ := List.cons.inj h
      rw [if_pos rfl]
      rfl
    next hdot =>
      rw [if_neg fun hfirst => hdot segs (by rw [hfirst]), List.filterMap_cons]
      cases segment first with
      | none => rfl
      | some c => rfl

/-- A directory, a separator, and more. -/
theorem components_append_sep {dir : String} (hdir : dir ≠ "") (name : String) :
    components (dir ++ "/" ++ name)
      = components dir ++ (name.toList.splitOn '/').filterMap segment := by
  have hchars : (dir ++ "/" ++ name).toList = dir.toList ++ '/' :: name.toList := by
    rw [String.toList_append, String.toList_append, List.append_assoc]
    rfl
  cases hd : dir.toList with
  | nil => exact absurd (String.toList_inj.mp hd) hdir
  | cons c cs =>
    rw [hd] at hchars
    by_cases hc : c = '/'
    · subst hc
      rw [List.cons_append] at hchars
      rw [components_absolute hchars, components_absolute hd, List.splitOn_append_cons_self,
        List.filterMap_append, List.cons_append]
    · have hrel : ∀ s : String, s.toList.head? = some c → s.toList.head? ≠ some '/' := by
        intro s hs h
        exact hc (Option.some.inj (hs.symm.trans h))
      obtain ⟨first, segs, hsplit⟩ :=
        List.exists_cons_of_ne_nil (List.splitOn_ne_nil '/' dir.toList)
      have hboth : (dir ++ "/" ++ name).toList.splitOn '/'
          = first :: (segs ++ name.toList.splitOn '/') := by
        rw [hchars, ← hd, List.splitOn_append_cons_self, hsplit]
        rfl
      rw [components_relative (hrel _ (by rw [hchars]; rfl)) hboth,
        components_relative (hrel _ (by rw [hd]; rfl)) hsplit, List.filterMap_append,
        List.append_assoc]

/-- A relative name adds its segments to those of the directory. -/
theorem components_join (dir : String) {name : String} {first : List Char} {segs : List (List Char)}
    (hrel : name.toList.head? ≠ some '/') (hsplit : name.toList.splitOn '/' = first :: segs)
    (hfirst : first ≠ ['.']) :
    components (join dir name) = components dir ++ (first :: segs).filterMap segment := by
  rw [join, if_neg hrel]
  by_cases hempty : dir = ""
  · subst hempty
    have hlead : leading first ++ segs.filterMap segment = (first :: segs).filterMap segment := by
      rw [leading, if_neg hfirst, List.filterMap_cons]
      cases segment first with
      | none => rfl
      | some c => rfl
    rw [if_pos (.inl rfl), String.empty_append, components_relative hrel hsplit, hlead]
    rfl
  · by_cases hlast : dir.toList.getLast? = some '/'
    · rw [if_pos (.inr hlast)]
      obtain ⟨cs, hcs⟩ := List.getLast?_eq_some_iff.mp hlast
      obtain ⟨d, rfl⟩ : ∃ d, dir = d ++ "/" := by
        refine ⟨String.ofList cs, String.toList_inj.mp ?_⟩
        rw [hcs, String.toList_append, String.toList_ofList]
        rfl
      by_cases hd : d = ""
      · subst hd
        have hroot : ("" ++ "/" ++ name).toList = '/' :: name.toList := by
          rw [String.toList_append]
          rfl
        rw [components_absolute hroot, hsplit]
        rfl
      · have hdir := components_append_sep hd ""
        rw [String.append_empty] at hdir
        rw [components_append_sep hd, hdir, hsplit, List.append_assoc]
        rfl
    · rw [if_neg (not_or.mpr ⟨hempty, hlast⟩), components_append_sep hempty, hsplit]

/-! ## What is accepted -/

/-- A plain file name. -/
structure PlainName (cs : List Char) : Prop where
  nonempty : cs ≠ []
  noSlash : '/' ∉ cs
  noBackslash : '\\' ∉ cs
  notCurrent : cs ≠ ['.']
  notParent : cs ≠ ['.', '.']

instance (cs : List Char) : Decidable (PlainName cs) :=
  decidable_of_iff (cs ≠ [] ∧ '/' ∉ cs ∧ '\\' ∉ cs ∧ cs ≠ ['.'] ∧ cs ≠ ['.', '.'])
    ⟨fun ⟨h₁, h₂, h₃, h₄, h₅⟩ => ⟨h₁, h₂, h₃, h₄, h₅⟩,
      fun ⟨h₁, h₂, h₃, h₄, h₅⟩ => ⟨h₁, h₂, h₃, h₄, h₅⟩⟩

/-- What `components` does not see behind a name: nothing, or separators with at most
single dots between and behind them. -/
def Trailing (tail : List Char) : Prop :=
  tail = [] ∨ ∃ rest, tail = '/' :: rest ∧ ∀ seg ∈ rest.splitOn '/', Skipped seg

theorem PlainName.segment {name : List Char} (h : PlainName name) :
    segment name = some (.normal name) :=
  segment_normal (not_or.mpr ⟨h.nonempty, h.notCurrent⟩) h.notParent

theorem confinedName_eq_true_iff {s : String} :
    confinedName s = true ↔ '\\' ∉ s.toList ∧ ∃ name, components s = [.normal name] := by
  rw [confinedName, Bool.and_eq_true, Bool.not_eq_true', List.contains_eq_mem,
    decide_eq_false_iff_not]
  refine and_congr_right fun _ => ?_
  split
  next name h => exact iff_of_true rfl ⟨name, h⟩
  next h =>
    refine iff_of_false Bool.false_ne_true ?_
    rintro ⟨name, hname⟩
    exact h name hname

theorem PlainName.leading {name : List Char} (h : PlainName name) :
    leading name = [.normal name] := by
  rw [Jobfmt.leading, if_neg h.notCurrent, h.segment]
  rfl

theorem leading_cases {first : List Char} (hne : first ≠ []) :
    leading first = [.curDir] ∨ leading first = [.parentDir] ∨
      (first ≠ ['.'] ∧ first ≠ ['.', '.'] ∧ leading first = [.normal first]) := by
  by_cases hcurrent : first = ['.']
  · exact .inl (if_pos hcurrent)
  · by_cases hparent : first = ['.', '.']
    · subst hparent
      exact .inr (.inl rfl)
    · refine .inr (.inr ⟨hcurrent, hparent, ?_⟩)
      rw [leading, if_neg hcurrent, segment_normal (not_or.mpr ⟨hne, hcurrent⟩) hparent]
      rfl

/-- A relative path whose only component is a normal one. -/
theorem leading_append_eq_iff {first : List Char} {segs : List (List Char)} {name : List Char}
    (hne : first ≠ []) (hslash : '/' ∉ first) (hback : '\\' ∉ first) :
    leading first ++ segs.filterMap segment = [.normal name] ↔
      name = first ∧ PlainName first ∧ ∀ seg ∈ segs, Skipped seg := by
  constructor
  · intro h
    rcases leading_cases hne with hlead | hlead | ⟨hcurrent, hparent, hlead⟩
    · rw [hlead] at h
      cases h
    · rw [hlead] at h
      cases h
    · rw [hlead, List.cons_append, List.cons.injEq, Component.normal.injEq, List.nil_append] at h
      refine ⟨h.1.symm, ⟨hne, hslash, hback, hcurrent, hparent⟩, fun seg hseg => ?_⟩
      exact segment_eq_none_iff.mp (List.filterMap_eq_nil_iff.mp h.2 seg hseg)
  · rintro ⟨rfl, hplain, hsegs⟩
    rw [hplain.leading, filterMap_skipped hsegs]
    rfl

/-- One component, and a normal one: a plain name with a tail that is not seen. -/
theorem components_eq_normal_iff {s : String} (hback : '\\' ∉ s.toList) {name : List Char} :
    components s = [.normal name] ↔ ∃ tail, s.toList = name ++ tail ∧ PlainName name ∧
    Trailing tail := by
  constructor
  · intro h
    rcases splitOn_cases '/' s.toList with ⟨hslash, hsplit⟩ | ⟨first, rest, hs, hslash, hsplit⟩
    · by_cases hempty : s.toList = []
      · obtain rfl : s = "" := String.toList_inj.mp hempty
        cases h
      · have hrel : s.toList.head? ≠ some '/' := fun hhead => hslash (List.mem_of_head? hhead)
        rw [components_relative hrel hsplit, leading_append_eq_iff hempty hslash hback] at h
        obtain ⟨rfl, hplain, -⟩ := h
        exact ⟨[], (List.append_nil _).symm, hplain, .inl rfl⟩
    · by_cases hempty : first = []
      · rw [hempty, List.nil_append] at hs
        rw [components_absolute hs] at h
        cases h
      · have hrel : s.toList.head? ≠ some '/' := by
          rw [hs, List.head?_append_of_ne_nil _ hempty]
          exact fun hhead => hslash (List.mem_of_head? hhead)
        have hback' : '\\' ∉ first :=
          fun hmem => hback (by rw [hs]; exact List.mem_append_left _ hmem)
        rw [components_relative hrel hsplit, leading_append_eq_iff hempty hslash hback'] at h
        obtain ⟨rfl, hplain, hsegs⟩ := h
        exact ⟨'/' :: rest, hs, hplain, .inr ⟨rest, rfl, hsegs⟩⟩
  · rintro ⟨tail, hs, hplain, htail⟩
    have hrel : s.toList.head? ≠ some '/' := by
      rw [hs, List.head?_append_of_ne_nil _ hplain.nonempty]
      exact fun hhead => hplain.noSlash (List.mem_of_head? hhead)
    have hiff : ∀ segs, s.toList.splitOn '/' = name :: segs → (∀ seg ∈ segs, Skipped seg) →
        components s = [.normal name] := by
      intro segs hsplit hsegs
      rw [components_relative hrel hsplit,
        leading_append_eq_iff hplain.nonempty hplain.noSlash hplain.noBackslash]
      exact ⟨rfl, hplain, hsegs⟩
    rcases htail with rfl | ⟨rest, rfl, hsegs⟩
    · rw [List.append_nil] at hs
      exact hiff [] (by rw [hs]; exact List.splitOn_eq_singleton hplain.noSlash)
        (List.forall_mem_nil _)
    · exact hiff (rest.splitOn '/')
        (by rw [hs]; exact List.splitOn_append_cons_self_of_not_mem hplain.noSlash rest) hsegs

/-- `confined_name` accepts plain names, with or without a tail. -/
theorem confinedName_iff (s : String) : confinedName s = true ↔
    '\\' ∉ s.toList ∧ ∃ name tail, s.toList = name ++ tail ∧ PlainName name ∧ Trailing tail := by
  rw [confinedName_eq_true_iff]
  refine and_congr_right fun hback => exists_congr fun name => components_eq_normal_iff hback

theorem confinedName_iff_plain {s : String} (hslash : '/' ∉ s.toList) :
    confinedName s = true ↔ PlainName s.toList := by
  rw [confinedName_iff]
  constructor
  · rintro ⟨-, name, tail, hs, hplain, rfl | ⟨rest, rfl, -⟩⟩
    · rw [hs, List.append_nil]
      exact hplain
    · exact absurd (by rw [hs]; exact List.mem_append_right _ List.mem_cons_self) hslash
  · intro hplain
    exact ⟨hplain.noBackslash, s.toList, [], (List.append_nil _).symm, hplain, .inl rfl⟩

/-! ## Plain names among other characters -/

section

variable {mid : List Char}

theorem PlainName.ne_dots (h : PlainName mid) : ∀ n ≤ 2, mid ≠ List.replicate n '.'
  | 0, _ => h.nonempty
  | 1, _ => h.notCurrent
  | 2, _ => h.notParent

/-- Written around a plain name, nothing makes it `.` or `..`. -/
theorem PlainName.surrounded (h : PlainName mid) (pre post : List Char) :
    ¬Skipped (pre ++ (mid ++ post)) ∧ pre ++ (mid ++ post) ≠ ['.', '.'] := by
  have hdots : ∀ n ≤ 2, pre ++ (mid ++ post) ≠ List.replicate n '.' := by
    intro n hn heq
    have hsub : List.Sublist mid (List.replicate n '.') := by
      rw [← heq]
      exact (List.sublist_append_left mid post).trans (List.sublist_append_right pre _)
    obtain ⟨k, hk, hmid⟩ := List.sublist_replicate_iff.mp hsub
    exact h.ne_dots k (Nat.le_trans hk hn) hmid
  exact ⟨not_or.mpr ⟨hdots 0 (by decide), hdots 1 (by decide)⟩, hdots 2 (by decide)⟩

/-- A segment that is seen stays so behind one more character. -/
theorem exists_seen_cons {cs : List Char} (c : Char) (h : ∃ seg ∈ cs.splitOn '/', ¬Skipped seg) :
    ∃ seg ∈ (c :: cs).splitOn '/', ¬Skipped seg := by
  obtain ⟨seg, hseg, hseen⟩ := h
  rw [List.splitOn_cons_eq_if_modifyHead]
  split
  · exact ⟨seg, List.mem_cons_of_mem _ hseg, hseen⟩
  · obtain ⟨first, segs, hsplit⟩ := List.exists_cons_of_ne_nil (List.splitOn_ne_nil '/' cs)
    rw [hsplit] at hseg ⊢
    rcases List.mem_cons.mp hseg with rfl | hseg
    · -- the character goes in front of this very segment
      refine ⟨c :: seg, List.mem_cons_self, not_or.mpr ⟨List.cons_ne_nil c seg, ?_⟩⟩
      intro hdot
      exact hseen (.inl (List.cons.inj hdot).2)
    · exact ⟨seg, List.mem_cons_of_mem _ hseg, hseen⟩

/-- The segment with a plain name in it is seen. -/
theorem PlainName.exists_seen (h : PlainName mid) (pre post : List Char) :
    ∃ seg ∈ (pre ++ (mid ++ post)).splitOn '/', ¬Skipped seg := by
  induction pre with
  | nil =>
    rw [List.nil_append]
    rcases splitOn_cases '/' post with ⟨hpost, -⟩ | ⟨front, back, rfl, hfront, -⟩
    · refine ⟨mid ++ post, ?_, (h.surrounded [] post).1⟩
      rw [List.splitOn_eq_singleton (List.not_mem_append h.noSlash hpost)]
      exact List.mem_singleton_self _
    · refine ⟨mid ++ front, ?_, (h.surrounded [] front).1⟩
      rw [← List.append_assoc,
        List.splitOn_append_cons_self_of_not_mem (List.not_mem_append h.noSlash hfront)]
      exact List.mem_cons_self
  | cons c pre ih => exact exists_seen_cons c ih

end

/-- A name whose first segment is seen is a direct child exactly if nothing else is. -/
theorem directChild_join_iff (dir : String) {name : String} {first : List Char}
    {segs : List (List Char)} (hsplit : name.toList.splitOn '/' = first :: segs)
    (hfirst : ¬Skipped first) (hparent : first ≠ ['.', '.']) :
    DirectChild dir (join dir name) ↔ ∀ seg ∈ segs, Skipped seg := by
  have hrel : name.toList.head? ≠ some '/' := by
    intro hhead
    obtain ⟨rest, hrest⟩ := List.head?_eq_some_iff.mp hhead
    rw [hrest, List.splitOn_cons_eq_if_modifyHead, if_pos (beq_self_eq_true _)] at hsplit
    exact hfirst (.inl (List.cons.inj hsplit).1.symm)
  rw [DirectChild, components_join dir hrel hsplit (not_or.mp hfirst).2,
    List.filterMap_cons_some (segment_normal hfirst hparent)]
  constructor
  · rintro ⟨n, hn⟩ seg hseg
    have htail := (List.cons.inj (List.append_cancel_left hn)).2
    exact segment_eq_none_iff.mp (List.filterMap_eq_nil_iff.mp htail seg hseg)
  · intro h
    exact ⟨first, by rw [filterMap_skipped h]⟩

/-! ## Names with something around them -/

section

variable {s : String} {name tail : List Char}

/-- The name between characters without a separator: what is written behind it is in
the same segment unless the name has a tail. -/
theorem directChild_around_iff (hs : s.toList = name ++ tail) (hplain : PlainName name)
    (htail : Trailing tail) {front back : String} (hfront : '/' ∉ front.toList)
    (hback : back = "" ∨ PlainName back.toList) (dir : String) :
    DirectChild dir (join dir (front ++ s ++ back)) ↔ back = "" ∨ '/' ∉ s.toList := by
  have hchars : (front ++ s ++ back).toList = front.toList ++ (name ++ (tail ++ back.toList)) := by
    rw [String.toList_append, String.toList_append, hs, List.append_assoc, List.append_assoc]
  rcases htail with rfl | ⟨rest, rfl, hrest⟩
  · have hslash : '/' ∉ back.toList := by
      rcases hback with rfl | hback
      · exact List.not_mem_nil
      · exact hback.noSlash
    rw [List.nil_append] at hchars
    have hsplit := List.splitOn_eq_singleton
      (List.not_mem_append hfront (List.not_mem_append hplain.noSlash hslash))
    have hwhole := hplain.surrounded front.toList back.toList
    rw [← hchars] at hsplit hwhole
    rw [directChild_join_iff dir hsplit hwhole.1 hwhole.2]
    rw [List.append_nil] at hs
    exact iff_of_true (List.forall_mem_nil _) (.inr (hs ▸ hplain.noSlash))
  · -- the name ends its segment, and what is written behind it begins another
    have hmem : '/' ∈ s.toList := by
      rw [hs]
      exact List.mem_append_right _ List.mem_cons_self
    have hfirst := hplain.surrounded front.toList []
    rw [List.append_nil] at hfirst
    rw [← List.append_assoc, List.cons_append] at hchars
    have hsplit := List.splitOn_append_cons_self_of_not_mem
      (List.not_mem_append hfront hplain.noSlash) (rest ++ back.toList)
    rw [← hchars] at hsplit
    rw [directChild_join_iff dir hsplit hfirst.1 hfirst.2]
    rcases hback with rfl | hback
    · rw [show "".toList = [] from rfl, List.append_nil]
      exact iff_of_true hrest (.inl rfl)
    · obtain ⟨seg, hseg, hseen⟩ := hback.exists_seen rest []
      rw [List.append_nil] at hseg
      refine iff_of_false (fun h => hseen (h seg hseg)) ?_
      rintro (hempty | hslash)
      · exact hback.nonempty (by rw [hempty]; rfl)
      · exact hslash hmem

/-- Behind a separator the name is in a segment of its own. -/
theorem not_directChild_around (hs : s.toList = name ++ tail) (hplain : PlainName name)
    {front : String} {first rest : List Char} (hcut : front.toList = first ++ '/' :: rest)
    (hslash : '/' ∉ first) (hfirst : ¬Skipped first ∧ first ≠ ['.', '.']) (back dir : String) :
    ¬DirectChild dir (join dir (front ++ s ++ back)) := by
  have hchars : (front ++ s ++ back).toList
      = first ++ '/' :: (rest ++ (name ++ (tail ++ back.toList))) := by
    rw [String.toList_append, String.toList_append, hs, hcut]
    simp only [List.append_assoc, List.cons_append]
  have hsplit := List.splitOn_append_cons_self_of_not_mem hslash
    (rest ++ (name ++ (tail ++ back.toList)))
  rw [← hchars] at hsplit
  rw [directChild_join_iff dir hsplit hfirst.1 hfirst.2]
  obtain ⟨seg, hseg, hseen⟩ := hplain.exists_seen rest (tail ++ back.toList)
  exact fun h => hseen (h seg hseg)

end

end Provework.Jobfmt
