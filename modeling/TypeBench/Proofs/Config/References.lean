import Mathlib.Data.List.TakeWhile
import Mathlib.Tactic.SplitIfs
import TypeBench.Config.Interpolation

/-!
# References in a text

A reference is written in one way, and what is written in that way is read as that reference. So the
pieces of a text are what any reading from the left finds that takes a reference wherever one is
written and a code point where none is.

## Main definitions

* `Reference.IsProper`, `Reference.written`: the references that can be written, and how.
* `Text.IsCut`: a reading of a text from the left.

## Main results

* `Reference.read?_eq_some_iff`: what is read is what was written.
* `Text.isCut_iff`: the pieces of a text are its only reading.
* `Text.isMissing_iff`: a reference has no value if it has no default and its variable is not set.
-/

namespace TypeBench

namespace Text

theorem after?_append (start rest : Text) : after? (start ++ rest) start = some rest := by
  rw [after?, if_pos (List.isPrefixOf_iff_prefix.2 (List.prefix_append start rest)),
    List.drop_left]

theorem eq_of_after? {t start rest : Text} (h : t.after? start = some rest) :
    t = start ++ rest := by
  rw [after?] at h
  split_ifs at h with hstart
  obtain ⟨more, rfl⟩ := List.isPrefixOf_iff_prefix.1 hstart
  rw [List.drop_left] at h
  rw [Option.some.inj h]

end Text

namespace Reference

/-! ### Names -/

/-- Whether a text may be the name of a variable. -/
inductive IsName : Text → Prop
  | intro {c : CodePoint} {rest : Text} (hstart : startsName c)
      (hrest : ∀ d ∈ rest, continuesName d) : IsName (c :: rest)

/-- A name ends where no further code point of a name comes. -/
def EndsName (t : Text) : Prop := ∀ d ∈ t.head?, continuesName d = false

theorem takeWhile_name {name rest : Text} (hname : ∀ d ∈ name, continuesName d)
    (hrest : EndsName rest) : (name ++ rest).takeWhile continuesName = name := by
  have hnil : rest.takeWhile continuesName = [] := by
    cases rest with
    | nil => rfl
    | cons d rest => exact List.takeWhile_cons_of_neg (by simp [hrest d rfl])
  rw [List.takeWhile_append_of_pos hname, hnil, List.append_nil]

theorem dropWhile_name {name rest : Text} (hname : ∀ d ∈ name, continuesName d)
    (hrest : EndsName rest) : (name ++ rest).dropWhile continuesName = rest := by
  rw [List.dropWhile_append_of_pos hname]
  cases rest with
  | nil => rfl
  | cons d rest => exact List.dropWhile_cons_of_neg (by simp [hrest d rfl])

/-- A name is read up to its end. -/
theorem name?_append {name rest : Text} (hname : IsName name) (hrest : EndsName rest) :
    name? (name ++ rest) = some (name, rest) := by
  obtain ⟨hstart, hname⟩ := hname
  rw [List.cons_append, name?, if_pos hstart, takeWhile_name hname hrest,
    dropWhile_name hname hrest]

/-- What is read as a name is one. -/
theorem eq_of_name? {t name rest : Text} (h : name? t = some (name, rest)) :
    IsName name ∧ t = name ++ rest := by
  cases t with
  | nil => cases h
  | cons c t =>
    rw [name?] at h
    split_ifs at h with hstart
    obtain ⟨rfl, rfl⟩ := Prod.mk.inj (Option.some.inj h)
    refine ⟨.intro hstart fun d hd => List.mem_takeWhile_imp hd, ?_⟩
    rw [List.cons_append, List.takeWhile_append_dropWhile]

/-! ### Defaults -/

/-- What is written after the name of a reference. -/
def writtenEnd : Option Text → Text
  | none => [closing]
  | some default => defaultMark ++ default ++ [closing]

theorem upToClosing?_append {default : Text} (h : closing ∉ default) (rest : Text) :
    upToClosing? (default ++ closing :: rest) = some (default, rest) := by
  have hall : ∀ c ∈ default, decide (c ≠ closing) := by
    intro c hc
    exact decide_eq_true (ne_of_mem_of_not_mem hc h)
  rw [upToClosing?, List.dropWhile_append_of_pos hall, List.takeWhile_append_of_pos hall]
  simp

theorem eq_of_upToClosing? {t default rest : Text} (h : upToClosing? t = some (default, rest)) :
    closing ∉ default ∧ t = default ++ closing :: rest := by
  rw [upToClosing?] at h
  split at h
  · cases h
  · next c more hdrop =>
    obtain ⟨rfl, rfl⟩ := Prod.mk.inj (Option.some.inj h)
    -- The point at which the search stops is the closing.
    have hc : c = closing := by
      have hstops := List.head_dropWhile_not (fun c => decide (c ≠ closing)) (l := t)
      simp only [hdrop] at hstops
      exact not_not.1 (of_decide_eq_false (hstops (List.cons_ne_nil c more)))
    subst hc
    refine ⟨fun hmem => by simpa using List.mem_takeWhile_imp hmem, ?_⟩
    rw [← hdrop, List.takeWhile_append_dropWhile]

/-- A default follows its mark. -/
theorem default?_of_ne {c : CodePoint} (h : c ≠ closing) (t : Text) : default? (c :: t) =
    (Text.after? (c :: t) defaultMark).bind fun rest =>
      (upToClosing? rest).map fun p => (some p.1, p.2) := by
  rw [default?, if_neg h]

/-- The end of a reference is read as its default. -/
theorem default?_append {default : Option Text} (h : ∀ d ∈ default, closing ∉ d) (rest : Text) :
    default? (writtenEnd default ++ rest) = some (default, rest) := by
  cases default with
  | none => rfl
  | some d =>
    have hread : Text.after? (writtenEnd (some d) ++ rest) defaultMark =
        some (d ++ closing :: rest) := by
      rw [writtenEnd, List.append_assoc, List.append_assoc, Text.after?_append]
      rfl
    have hmark : default? (writtenEnd (some d) ++ rest) =
        ((writtenEnd (some d) ++ rest).after? defaultMark).bind fun rest =>
          (upToClosing? rest).map fun p => (some p.1, p.2) := default?_of_ne (by decide) _
    rw [hmark, hread, Option.bind_some, upToClosing?_append (h d rfl), Option.map_some]

/-- What is read as a default was written so. -/
theorem eq_of_default? {t rest : Text} {default : Option Text}
    (h : default? t = some (default, rest)) :
    (∀ d ∈ default, closing ∉ d) ∧ t = writtenEnd default ++ rest := by
  cases t with
  | nil => cases h
  | cons c t =>
    by_cases hc : c = closing
    · rw [default?, if_pos hc] at h
      obtain ⟨rfl, rfl⟩ := Prod.mk.inj (Option.some.inj h)
      refine ⟨fun d hd => absurd hd (Option.not_mem_none d), ?_⟩
      rw [hc]
      rfl
    · rw [default?_of_ne hc] at h
      obtain ⟨more, hmore, h⟩ := Option.bind_eq_some_iff.1 h
      obtain ⟨⟨found, after⟩, hfound, h⟩ := Option.map_eq_some_iff.1 h
      obtain ⟨rfl, rfl⟩ := Prod.mk.inj h
      obtain ⟨hclosing, rfl⟩ := eq_of_upToClosing? hfound
      refine ⟨fun d hd => by rwa [← Option.some.inj hd], ?_⟩
      rw [Text.eq_of_after? hmore, writtenEnd, List.append_assoc, List.append_assoc]
      rfl

/-! ### References -/

/-- Whether a reference can be written: its name is one, and its default does not close it. -/
structure IsProper (r : Reference) : Prop where
  isName : IsName r.name
  closing_notMem : ∀ d ∈ r.default, closing ∉ d

/-- How a reference is written. -/
def written (r : Reference) : Text := opening ++ (r.name ++ writtenEnd r.default)

theorem endsName_writtenEnd (default : Option Text) (rest : Text) :
    EndsName (writtenEnd default ++ rest) := by
  cases default <;> rintro d ⟨rfl⟩ <;> decide

/-- **What is read is what was written.** -/
theorem read?_eq_some_iff {t rest : Text} {r : Reference} :
    read? t = some (r, rest) ↔ r.IsProper ∧ t = r.written ++ rest := by
  constructor
  · intro h
    obtain ⟨afterOpening, hopening, h⟩ := Option.bind_eq_some_iff.1 h
    obtain ⟨⟨name, afterName⟩, hname, h⟩ := Option.bind_eq_some_iff.1 h
    obtain ⟨⟨default, _⟩, hdefault, h⟩ := Option.map_eq_some_iff.1 h
    obtain ⟨rfl, rfl⟩ := Prod.mk.inj h
    obtain ⟨hisName, rfl⟩ := eq_of_name? hname
    obtain ⟨hclosing, rfl⟩ := eq_of_default? hdefault
    refine ⟨⟨hisName, hclosing⟩, ?_⟩
    rw [Text.eq_of_after? hopening, written]
    simp only [List.append_assoc]
  · rintro ⟨hr, rfl⟩
    have hend := endsName_writtenEnd r.default rest
    rw [read?, written, List.append_assoc, List.append_assoc, Text.after?_append, Option.bind_some,
      name?_append hr.isName hend, Option.bind_some]
    exact congrArg (Option.map _) (default?_append hr.closing_notMem rest)

/-- No reference is read where none is written. -/
theorem read?_eq_none_iff {t : Text} :
    read? t = none ↔ ∀ r rest, IsProper r → t ≠ r.written ++ rest := by
  simp only [Option.eq_none_iff_forall_ne_some, Prod.forall, ne_eq, read?_eq_some_iff, not_and]

/-- A reference has no value if it has no default and its variable is not set. -/
theorem isMissing_iff {env : Environment} {r : Reference} :
    r.isMissing env ↔ r.default = none ∧ env.lookup r.name = none := by
  rw [isMissing, value?]
  cases env.lookup r.name <;> simp

end Reference

/-! ### Cuts -/

/-- A reading of a text from the left: a reference where one is written, and else a code point. -/
inductive Text.IsCut : Text → List Segment → Prop
  | nil : IsCut [] []
  | reference {r : Reference} {rest : Text} {segments : List Segment} (hr : r.IsProper)
      (hrest : IsCut rest segments) : IsCut (r.written ++ rest) (.reference r :: segments)
  | literal {c : CodePoint} {rest : Text} {segments : List Segment}
      (hnone : ∀ r after, Reference.IsProper r → c :: rest ≠ r.written ++ after)
      (hrest : IsCut rest segments) : IsCut (c :: rest) (.literal c :: segments)

namespace Text

theorem segments_nil : segments [] = [] := by rw [segments]

theorem segments_of_read? {t after : Text} {r : Reference}
    (h : Reference.read? t = some (r, after)) :
    t.segments = .reference r :: after.segments := by
  cases t with
  | nil => cases h
  | cons c rest =>
    rw [segments]
    split
    · next h' =>
      obtain ⟨rfl, rfl⟩ := Prod.mk.inj (Option.some.inj (h'.symm.trans h))
      rfl
    · next h' => cases h'.symm.trans h

theorem segments_of_read?_eq_none {c : CodePoint} {rest : Text}
    (h : Reference.read? (c :: rest) = none) :
    segments (c :: rest) = .literal c :: rest.segments := by
  rw [segments]
  split
  · next h' => cases h'.symm.trans h
  · rfl

theorem isCut_segments (t : Text) : t.IsCut t.segments := by
  induction t using segments.induct with
  | case1 =>
    rw [segments_nil]
    exact .nil
  | case2 c rest r after hread _ ih =>
    rw [segments_of_read? hread]
    obtain ⟨hr, ht⟩ := Reference.read?_eq_some_iff.1 hread
    rw [ht]
    exact .reference hr ih
  | case3 c rest hread ih =>
    rw [segments_of_read?_eq_none hread]
    exact .literal (Reference.read?_eq_none_iff.1 hread) ih

/-- **The pieces of a text are its only reading.** -/
theorem isCut_iff {t : Text} {segments : List Segment} :
    t.IsCut segments ↔ segments = t.segments := by
  constructor
  · intro h
    induction h with
    | nil => rw [segments_nil]
    | reference hr _ ih => rw [segments_of_read? (Reference.read?_eq_some_iff.2 ⟨hr, rfl⟩), ih]
    | literal hnone _ ih =>
      rw [segments_of_read?_eq_none (Reference.read?_eq_none_iff.2 hnone), ih]
  · rintro rfl
    exact t.isCut_segments

end Text

end TypeBench
