import TypeBench.Proofs.Config.Missing

/-!
# What replacing references gives

A text is parted by its references: a literal stretch stands before each of them and after the last
one, and no reference begins inside a stretch. It is parted in one way. Where no variable is
missing, replacing puts the value of its reference in the place of each and leaves the stretches as
they are; what a value holds is not looked at. In a nested value only texts change, and nothing
depends on a variable that no reference names.

## Main definitions

* `Text.IsPlainBefore`: the stretches in which no reference begins.
* `Text.IsParted`: a text parted by its references.
* `Text.filled`: a parted text with values in the place of its references.
* `Value.IsReplaced`: what replacing keeps of a value, and what it makes of its texts.

## Main results

* `Text.isParted_iff`: a text is parted in one way.
* `Text.interpolate_of_isParted`: what replacing the references of a text gives.
* `Value.interpolate_onePass`: the same for nested values, and independence of other variables.
-/

namespace TypeBench

/-! ### Parted texts -/

/-- Whether no reference begins inside a stretch of text that comes before a rest. -/
def Text.IsPlainBefore (stretch rest : Text) : Prop :=
  ∀ before after, stretch = before ++ after → after ≠ [] →
    ∀ r more, Reference.IsProper r → after ++ rest ≠ r.written ++ more

/-- Literal stretches with the references that follow them, and the stretch after the last one. -/
abbrev Parting := List (Text × Reference) × Text

/-- A text that is parted by its references from the left. -/
inductive Text.IsParted : Text → List (Text × Reference) → Text → Prop
  | last {stretch : Text} (hplain : stretch.IsPlainBefore []) : IsParted stretch [] stretch
  | part {stretch rest last : Text} {r : Reference} {parts : List (Text × Reference)}
      (hr : r.IsProper) (hplain : stretch.IsPlainBefore (r.written ++ rest))
      (hrest : IsParted rest parts last) :
      IsParted (stretch ++ (r.written ++ rest)) ((stretch, r) :: parts) last

namespace Parting

/-- The pieces of a parted text. -/
def segments (p : Parting) : List Segment :=
  p.1.flatMap (fun part => part.1.map .literal ++ [.reference part.2]) ++ p.2.map .literal

/-- A parting with one more code point before all else. -/
def withLiteral (c : CodePoint) : Parting → Parting
  | ([], last) => ([], c :: last)
  | ((stretch, r) :: parts, last) => ((c :: stretch, r) :: parts, last)

/-- The parting that pieces make. -/
def ofSegments : List Segment → Parting
  | [] => ([], [])
  | .literal c :: rest => withLiteral c (ofSegments rest)
  | .reference r :: rest => (([], r) :: (ofSegments rest).1, (ofSegments rest).2)

theorem ofSegments_literals (stretch : Text) (rest : List Segment) :
    ofSegments (stretch.map .literal ++ rest) = stretch.foldr withLiteral (ofSegments rest) := by
  induction stretch with
  | nil => rfl
  | cons c stretch ih => rw [List.map_cons, List.cons_append, ofSegments, ih, List.foldr_cons]

theorem foldr_withLiteral_last (stretch last : Text) :
    stretch.foldr withLiteral ([], last) = ([], stretch ++ last) := by
  induction stretch with
  | nil => rfl
  | cons c stretch ih => rw [List.foldr_cons, ih, withLiteral, List.cons_append]

theorem foldr_withLiteral_part (stretch first : Text) (r : Reference)
    (parts : List (Text × Reference)) (last : Text) :
    stretch.foldr withLiteral ((first, r) :: parts, last) =
      ((stretch ++ first, r) :: parts, last) := by
  induction stretch with
  | nil => rfl
  | cons c stretch ih => rw [List.foldr_cons, ih, withLiteral, List.cons_append]

/-- Pieces make the parting that they are the pieces of. -/
theorem ofSegments_segments (p : Parting) : ofSegments p.segments = p := by
  obtain ⟨parts, last⟩ := p
  induction parts with
  | nil =>
    have hlast := ofSegments_literals last []
    rw [List.append_nil, ofSegments, foldr_withLiteral_last, List.append_nil] at hlast
    exact hlast
  | cons part parts ih =>
    obtain ⟨stretch, r⟩ := part
    have hsegments : segments ((stretch, r) :: parts, last) =
        stretch.map .literal ++ .reference r :: segments (parts, last) := by
      simp [segments]
    rw [hsegments, ofSegments_literals, ofSegments, ih, foldr_withLiteral_part, List.append_nil]

end Parting

namespace Text

/-- A stretch in which no reference begins is read code point by code point. -/
theorem IsPlainBefore.isCut {stretch rest : Text} {segments : List Segment}
    (h : stretch.IsPlainBefore rest) (hrest : rest.IsCut segments) :
    (stretch ++ rest).IsCut (stretch.map .literal ++ segments) := by
  induction stretch with
  | nil => exact hrest
  | cons c stretch ih =>
    refine .literal (h [] (c :: stretch) rfl (List.cons_ne_nil c stretch)) (ih ?_)
    rintro before after rfl hne
    exact h (c :: before) after rfl hne

/-- A parted text is read as its parting. -/
theorem IsParted.isCut {t last : Text} {parts : List (Text × Reference)}
    (h : t.IsParted parts last) : t.IsCut (Parting.segments (parts, last)) := by
  induction h with
  | @last stretch hplain =>
    have hcut := hplain.isCut .nil
    rwa [List.append_nil, List.append_nil] at hcut
  | part hr hplain _ ih =>
    have hcut := hplain.isCut (.reference hr ih)
    simpa [Parting.segments] using hcut

/-- One more code point before a parted text, at which no reference begins, goes to the stretch that
comes first. -/
theorem IsParted.withLiteral {c : CodePoint} {rest : Text} {p : Parting}
    (h : rest.IsParted p.1 p.2)
    (hnone : ∀ r more, Reference.IsProper r → c :: rest ≠ r.written ++ more) :
    Text.IsParted (c :: rest) (p.withLiteral c).1 (p.withLiteral c).2 := by
  -- A reference that begins inside the longer stretch begins at the code point or later on.
  have hplain {stretch more : Text} (hrest : rest = stretch ++ more)
      (hstretch : stretch.IsPlainBefore more) : IsPlainBefore (c :: stretch) more := by
    intro before after hsplit hne
    cases before with
    | nil =>
      obtain rfl : c :: stretch = after := hsplit
      rw [List.cons_append, ← hrest]
      exact hnone
    | cons d before => exact hstretch before after (List.cons.inj hsplit).2 hne
  obtain ⟨parts, last⟩ := p
  cases h with
  | last hlast => exact .last (hplain (List.append_nil _).symm hlast)
  | part hr hstretch hrest => exact .part hr (hplain rfl hstretch) hrest

/-- What is read of a text parts it. -/
theorem isParted_of_isCut {t : Text} {segments : List Segment} (h : t.IsCut segments) :
    t.IsParted (Parting.ofSegments segments).1 (Parting.ofSegments segments).2 := by
  have hnil (rest : Text) : IsPlainBefore [] rest := by
    intro before after hsplit hne
    exact absurd (List.append_eq_nil_iff.1 hsplit.symm).2 hne
  induction h with
  | nil => exact .last (hnil [])
  | reference hr _ ih => exact .part hr (hnil _) ih
  | literal hnone _ ih => exact ih.withLiteral hnone

/-- **A text is parted in one way.** -/
theorem isParted_iff {t : Text} {p : Parting} :
    t.IsParted p.1 p.2 ↔ p = Parting.ofSegments t.segments := by
  constructor
  · intro h
    rw [← isCut_iff.1 h.isCut, Parting.ofSegments_segments]
  · rintro rfl
    exact isParted_of_isCut t.isCut_segments

end Text

/-! ### Replacing in a text -/

/-- What a reference stands for: the value of its variable if that is set, be it empty, and else the
default. -/
def Reference.valueIn (env : Environment) (r : Reference) : Text :=
  (env.lookup r.name).getD (r.default.getD [])

/-- A parted text with values in the place of its references. -/
def Text.filled (env : Environment) (parts : List (Text × Reference)) (last : Text) : Text :=
  parts.flatMap (fun part => part.1 ++ part.2.valueIn env) ++ last

/-- What a piece stands for. -/
def Segment.textIn (env : Environment) : Segment → Text
  | literal c => [c]
  | reference r => r.valueIn env

theorem Segment.resolve_eq_ok {env : Environment} {segment : Segment}
    (h : ∀ r, segment = .reference r → r.isMissing env = false) :
    segment.resolve env = .ok (segment.textIn env) := by
  cases segment with
  | literal c => rfl
  | reference r =>
    have hvalue := h r rfl
    rw [Reference.isMissing, Reference.value?] at hvalue
    rw [resolve, Reference.value?, textIn, Reference.valueIn]
    cases hlookup : env.lookup r.name with
    | some value => rfl
    | none =>
      rw [hlookup] at hvalue
      cases hdefault : r.default with
      | some default => rfl
      | none =>
        rw [hdefault] at hvalue
        cases hvalue

theorem Parting.flatMap_textIn (env : Environment) (p : Parting) :
    p.segments.flatMap (Segment.textIn env) = Text.filled env p.1 p.2 := by
  have hliterals (stretch : Text) :
      (stretch.map Segment.literal).flatMap (Segment.textIn env) = stretch := by
    rw [List.flatMap_map]
    exact List.flatMap_singleton' stretch
  simp only [segments, List.flatMap_append, List.flatMap_assoc, hliterals, Text.filled,
    List.flatMap_singleton, Segment.textIn]

namespace Text

theorem reference_mem_references_iff {t : Text} {r : Reference} :
    r ∈ t.references ↔ .reference r ∈ t.segments := by
  rw [references_eq, List.mem_filterMap]
  constructor
  · rintro ⟨segment, hmem, hr⟩
    cases segment with
    | literal c => cases hr
    | reference s =>
      obtain rfl := Option.some.inj hr
      exact hmem
  · exact fun hmem => ⟨_, hmem, rfl⟩

/-- Replacing goes through the pieces once and puts them together again. -/
theorem interpolate_eq_ok {env : Environment} {t : Text}
    (h : ∀ r ∈ t.references, r.isMissing env = false) :
    t.interpolate env = .ok (t.segments.flatMap (Segment.textIn env)) := by
  have hresolve : t.segments.mapM (Segment.resolve env) =
      .ok (t.segments.map (Segment.textIn env)) := by
    simp only [reference_mem_references_iff] at h
    generalize t.segments = segments at h
    induction segments with
    | nil => rfl
    | cons segment segments ih =>
      obtain ⟨hsegment, hsegments⟩ : (∀ r, segment = .reference r → r.isMissing env = false) ∧
          ∀ r, .reference r ∈ segments → r.isMissing env = false :=
        ⟨fun r hr => h r (hr ▸ List.mem_cons_self), fun r hr => h r (List.mem_cons_of_mem _ hr)⟩
      rw [List.mapM_cons, Segment.resolve_eq_ok hsegment, ih hsegments]
      rfl
  rw [interpolate, hresolve, List.flatMap_def]
  rfl

/-- Replacing the references of a parted text fills it. -/
theorem interpolate_of_isParted {env : Environment} {t last : Text}
    {parts : List (Text × Reference)} (h : t.IsParted parts last)
    (hnone : ∀ r ∈ t.references, r.isMissing env = false) :
    t.interpolate env = .ok (filled env parts last) := by
  rw [interpolate_eq_ok hnone, ← isCut_iff.1 h.isCut, Parting.flatMap_textIn]

/-- Replacing the references of a text depends on the variables that they name. -/
theorem interpolate_congr {env env' : Environment} {t : Text}
    (h : ∀ r ∈ t.references, env.lookup r.name = env'.lookup r.name) :
    t.interpolate env = t.interpolate env' := by
  have hresolve : ∀ segment ∈ t.segments, segment.resolve env = segment.resolve env' := by
    intro segment hmem
    cases segment with
    | literal c => rfl
    | reference r =>
      rw [Segment.resolve, Segment.resolve, Reference.value?, Reference.value?,
        h r (reference_mem_references_iff.2 hmem)]
  rw [interpolate, interpolate]
  congr 1
  generalize t.segments = segments at hresolve
  induction segments with
  | nil => rfl
  | cons segment segments ih =>
    obtain ⟨hsegment, hsegments⟩ := List.forall_mem_cons.1 hresolve
    rw [List.mapM_cons, List.mapM_cons, hsegment, ih hsegments]

end Text

/-! ### Replacing in a value -/

namespace Value

/-- Whether a value has no texts in it that are looked at. -/
def isLeaf : Value → Bool
  | text _ | list _ | map _ => false
  | _ => true

/-- What replacing the references of a value gives: a text filled as it is parted, a list of as many
items in their order, a mapping with the same keys in their order, and all else as it is. -/
inductive IsReplaced (env : Environment) : Value → Value → Prop
  | text {t last : Text} {parts : List (Text × Reference)} (hparted : t.IsParted parts last) :
      IsReplaced env (.text t) (.text (Text.filled env parts last))
  | list {items found : List Value} (hlength : items.length = found.length)
      (hitems : ∀ p ∈ items.zip found, IsReplaced env p.1 p.2) :
      IsReplaced env (.list items) (.list found)
  | map {entries found : List (Value × Value)} (hkeys : entries.map (·.1) = found.map (·.1))
      (hvalues : ∀ p ∈ entries.zip found, IsReplaced env p.1.2 p.2.2) :
      IsReplaced env (.map entries) (.map found)
  | leaf {v : Value} (hleaf : v.isLeaf) : IsReplaced env v v

mutual

/-- Replacing the references of a value succeeds where none is missing. -/
theorem exists_isReplaced (env : Environment) : ∀ v : Value,
    (∀ t ∈ v.texts, ∀ r ∈ t.references, r.isMissing env = false) →
      ∃ w, v.interpolate env = .ok w ∧ v.IsReplaced env w
  | .text t, h => by
    have hparted := Text.isParted_of_isCut t.isCut_segments
    refine ⟨_, ?_, .text hparted⟩
    rw [interpolate, Text.interpolate_of_isParted hparted (h t List.mem_cons_self)]
    rfl
  | .list items, h => by
    obtain ⟨found, hfound, hlength, hitems⟩ := exists_areReplaced env items h
    refine ⟨.list found, ?_, .list hlength hitems⟩
    rw [interpolate, hfound]
    rfl
  | .map entries, h => by
    obtain ⟨found, hfound, hkeys, hvalues⟩ := exists_entriesReplaced env entries h
    refine ⟨.map found, ?_, .map hkeys hvalues⟩
    rw [interpolate, hfound]
    rfl
  | .null, _ | .bool _, _ | .int _, _ | .float _, _ | .bytes _, _ | .date _, _ | .moment _, _
  | .tuple _, _ => by
    rw [interpolate]
    exact ⟨_, rfl, .leaf rfl⟩

theorem exists_areReplaced (env : Environment) : ∀ items : List Value,
    (∀ t ∈ itemTexts items, ∀ r ∈ t.references, r.isMissing env = false) →
      ∃ found, interpolateItems env items = .ok found ∧ items.length = found.length ∧
        ∀ p ∈ items.zip found, p.1.IsReplaced env p.2
  | [], _ => by
    rw [interpolateItems]
    exact ⟨[], rfl, rfl, by simp⟩
  | item :: rest, h => by
    obtain ⟨hitem, hrest⟩ := List.forall_mem_append.1 h
    obtain ⟨w, hw, hreplaced⟩ := exists_isReplaced env item hitem
    obtain ⟨found, hfound, hlength, hitems⟩ := exists_areReplaced env rest hrest
    refine ⟨w :: found, ?_, congrArg Nat.succ hlength, ?_⟩
    · rw [interpolateItems, hw, hfound]
      rfl
    · rw [List.zip_cons_cons]
      exact List.forall_mem_cons.2 ⟨hreplaced, hitems⟩

theorem exists_entriesReplaced (env : Environment) : ∀ entries : List (Value × Value),
    (∀ t ∈ entryTexts entries, ∀ r ∈ t.references, r.isMissing env = false) →
      ∃ found, interpolateEntries env entries = .ok found ∧
        entries.map (·.1) = found.map (·.1) ∧
        ∀ p ∈ entries.zip found, p.1.2.IsReplaced env p.2.2
  | [], _ => by
    rw [interpolateEntries]
    exact ⟨[], rfl, rfl, by simp⟩
  | (key, value) :: rest, h => by
    obtain ⟨hvalue, hrest⟩ := List.forall_mem_append.1 h
    obtain ⟨w, hw, hreplaced⟩ := exists_isReplaced env value hvalue
    obtain ⟨found, hfound, hkeys, hvalues⟩ := exists_entriesReplaced env rest hrest
    refine ⟨(key, w) :: found, ?_, congrArg (key :: ·) hkeys, ?_⟩
    · rw [interpolateEntries, hw, hfound]
      rfl
    · rw [List.zip_cons_cons]
      exact List.forall_mem_cons.2 ⟨hreplaced, hvalues⟩

end

mutual

/-- Replacing the references of a value depends on the variables that they name. -/
theorem interpolate_congr {env env' : Environment} : ∀ v : Value,
    (∀ t ∈ v.texts, ∀ r ∈ t.references, env.lookup r.name = env'.lookup r.name) →
      v.interpolate env = v.interpolate env'
  | .text t, h => by
    rw [interpolate, interpolate, Text.interpolate_congr (h t List.mem_cons_self)]
  | .list items, h => by
    rw [interpolate, interpolate, interpolateItems_congr items h]
  | .map entries, h => by
    rw [interpolate, interpolate, interpolateEntries_congr entries h]
  | .null, _ | .bool _, _ | .int _, _ | .float _, _ | .bytes _, _ | .date _, _ | .moment _, _
  | .tuple _, _ => by
    rw [interpolate, interpolate]

theorem interpolateItems_congr {env env' : Environment} : ∀ items : List Value,
    (∀ t ∈ itemTexts items, ∀ r ∈ t.references, env.lookup r.name = env'.lookup r.name) →
      interpolateItems env items = interpolateItems env' items
  | [], _ => by
    rw [interpolateItems, interpolateItems]
  | item :: rest, h => by
    obtain ⟨hitem, hrest⟩ := List.forall_mem_append.1 h
    rw [interpolateItems, interpolateItems, interpolate_congr item hitem,
      interpolateItems_congr rest hrest]

theorem interpolateEntries_congr {env env' : Environment} : ∀ entries : List (Value × Value),
    (∀ t ∈ entryTexts entries, ∀ r ∈ t.references, env.lookup r.name = env'.lookup r.name) →
      interpolateEntries env entries = interpolateEntries env' entries
  | [], _ => by
    rw [interpolateEntries, interpolateEntries]
  | (key, value) :: rest, h => by
    obtain ⟨hvalue, hrest⟩ := List.forall_mem_append.1 h
    rw [interpolateEntries, interpolateEntries, interpolate_congr value hvalue,
      interpolateEntries_congr rest hrest]

end

theorem mem_references_of_mem_texts {v : Value} {t : Text} {r : Reference} (ht : t ∈ v.texts)
    (hr : r ∈ t.references) : r ∈ v.references :=
  List.mem_flatMap.2 ⟨t, ht, hr⟩

/-- If no variable is missing, every reference has a value. -/
theorem isMissing_eq_false {env : Environment} {v : Value} (h : v.missingVariables env = [])
    {r : Reference} (hr : r ∈ v.references) : r.isMissing env = false := by
  by_contra hmissing
  obtain ⟨hdefault, hlookup⟩ := Reference.isMissing_iff.1 (Bool.of_not_eq_false hmissing)
  have hmem : r.name ∈ v.missingVariables env :=
    mem_missingVariables_iff.2 ⟨r, mem_references_iff.1 hr, rfl, hdefault, hlookup⟩
  rw [h] at hmem
  cases hmem

/-- The missing variables depend on the variables that references name. -/
theorem missingVariables_congr {env env' : Environment} {v : Value}
    (h : ∀ r ∈ v.references, env.lookup r.name = env'.lookup r.name) :
    v.missingVariables env = v.missingVariables env' := by
  have hfilter : v.references.filter (Reference.isMissing env) =
      v.references.filter (Reference.isMissing env') := by
    refine List.filter_congr fun r hr => ?_
    rw [Reference.isMissing, Reference.isMissing, Reference.value?, Reference.value?, h r hr]
  rw [missingVariables, missingVariables, hfilter]

/-- **References are replaced in one pass.** Every text is parted by its references in one way. If
no variable is missing, replacing fills a parted text with the values of its references, and of a
nested value it keeps all but the texts. Nothing depends on a variable that no reference names. -/
theorem interpolate_onePass :
    (∀ t : Text, ∃! p : Parting, t.IsParted p.1 p.2) ∧
    (∀ (env : Environment) (t last : Text) (parts : List (Text × Reference)),
      (Value.text t).missingVariables env = [] → t.IsParted parts last →
        (Value.text t).interpolate env = .ok (.text (Text.filled env parts last))) ∧
    (∀ (env : Environment) (v : Value), v.missingVariables env = [] →
      ∃ w, v.interpolate env = .ok w ∧ v.IsReplaced env w) ∧
    ∀ (env env' : Environment) (v : Value),
      (∀ r, v.Refers r → env.lookup r.name = env'.lookup r.name) →
        v.interpolate env = v.interpolate env' ∧
        v.missingVariables env = v.missingVariables env' := by
  refine ⟨fun t => ⟨_, Text.isParted_iff.2 rfl, fun p => Text.isParted_iff.1⟩, ?_, ?_, ?_⟩
  · intro env t last parts hnone hparted
    have hvalues : ∀ r ∈ t.references, r.isMissing env = false := fun r hr =>
      isMissing_eq_false hnone (mem_references_of_mem_texts List.mem_cons_self hr)
    rw [interpolate, Text.interpolate_of_isParted hparted hvalues]
    rfl
  · intro env v hnone
    exact exists_isReplaced env v fun t ht r hr =>
      isMissing_eq_false hnone (mem_references_of_mem_texts ht hr)
  · intro env env' v hagree
    simp only [← mem_references_iff] at hagree
    exact ⟨interpolate_congr v fun t ht r hr => hagree r (mem_references_of_mem_texts ht hr),
      missingVariables_congr hagree⟩

/-- A text with a reference, a fragment that is none, and a reference whose default opens another
one. -/
def fragments : Text := "$\x7bAPI_KEY2\x7d$\x7b1\x7d$\x7b_b1:-$\x7b\x7d"

/-- The variable `API_KEY2`, which holds what looks like a reference to itself. -/
def ownName : Environment := [("API_KEY2", "$\x7bAPI_KEY2\x7d")]

/-- What a variable holds and what is written as a default is not scanned again, a fragment that is
no reference stays, and a variable whose name only begins that of a reference does not matter. -/
theorem interpolate_onePass_fragments :
    (Value.text fragments).missingVariables ownName = [] ∧
    fragments.IsParted [([], ⟨"API_KEY2", none⟩), ("$\x7b1\x7d", ⟨"_b1", some "$\x7b"⟩)] [] ∧
    (Value.text fragments).interpolate ownName =
      .ok (.text "$\x7bAPI_KEY2\x7d$\x7b1\x7d$\x7b") ∧
    (∃ w, (Value.list [.int 3, .text fragments]).interpolate ownName = .ok w ∧
      (Value.list [.int 3, .text fragments]).IsReplaced ownName w) ∧
    (Value.text fragments).interpolate (("API_KEY", []) :: ownName) =
      (Value.text fragments).interpolate ownName := by
  obtain ⟨-, htext, hvalue, hcongr⟩ := interpolate_onePass
  have hsegments : fragments.segments = [.reference ⟨"API_KEY2", none⟩, .literal '$',
      .literal '\x7b', .literal '1', .literal '\x7d', .reference ⟨"_b1", some "$\x7b"⟩] := by
    decide +kernel
  have hnone : (Value.text fragments).missingVariables ownName = [] := by decide +kernel
  have hparted :
      fragments.IsParted [([], ⟨"API_KEY2", none⟩), ("$\x7b1\x7d", ⟨"_b1", some "$\x7b"⟩)] [] := by
    refine (Text.isParted_iff
      (p := ([([], ⟨"API_KEY2", none⟩), ("$\x7b1\x7d", ⟨"_b1", some "$\x7b"⟩)], []))).2 ?_
    rw [hsegments]
    rfl
  refine ⟨hnone, hparted, htext ownName fragments _ _ hnone hparted,
    hvalue ownName _ (by decide +kernel), (hcongr _ _ _ fun r hr => ?_).1⟩
  -- The references name `API_KEY2` and `_b1`, and both are looked up alike.
  have hmem := mem_references_iff.2 hr
  rw [references, texts, List.flatMap_singleton, Text.reference_mem_references_iff,
    hsegments] at hmem
  simp only [List.mem_cons, Segment.reference.injEq, reduceCtorEq, false_or, List.not_mem_nil,
    or_false] at hmem
  rcases hmem with rfl | rfl <;> rfl

end Value

end TypeBench
