import TypeBench.Config.Loading
import TypeBench.Proofs.Config.References
import TypeBench.Proofs.Text.Order

/-!
# Missing variables

Replacing the references of a value fails at the first one that has no value, and it goes through
the texts in the order in which the missing variables are listed. So it fails if and only if the
list has names, and with the first of them; a configuration whose list is empty is never left with
an unknown variable.

## Main definitions

* `failureOf?`: why a computation fails.
* `Value.HasText`: the texts of a value, those of its keys apart.
* `Value.required`: the variables without default, in the order of their references.
* `Value.AreMissing`: what the missing variables of a value are.

## Main results

* `Value.failureOf?_interpolate`: replacing fails with the first reference that has no value.
* `Value.areMissing_missingVariables`: the list of missing variables has each of them once, in the
  order of their references.
* `EvalConfig.load_missing`: loading reports all missing variables, and no other step comes upon an
  unknown variable.
-/

namespace TypeBench

/-! ### Failures -/

/-- Why a computation fails, if it does. -/
def failureOf? {ε α : Type} : Except ε α → Option ε
  | .error e => some e
  | .ok _ => none

section Failures

variable {ε α β γ : Type}

theorem failureOf?_eq_some_iff {x : Except ε α} {e : ε} :
    failureOf? x = some e ↔ x = .error e := by
  cases x <;> simp [failureOf?]

@[simp] theorem failureOf?_map (f : α → β) (x : Except ε α) :
    failureOf? (x.map f) = failureOf? x := by
  cases x <;> rfl

/-- A computation in one step fails as that step does. -/
@[simp] theorem failureOf?_bind_pure (f : α → β) (x : Except ε α) :
    failureOf? (x >>= fun a => pure (f a)) = failureOf? x := by
  cases x <;> rfl

/-- A computation in two steps fails as the first one does, or else as the second one. -/
@[simp] theorem failureOf?_bind_bind_pure (f : α → β → γ) (x : Except ε α) (y : Except ε β) :
    failureOf? (x >>= fun a => y >>= fun b => pure (f a b)) =
      (failureOf? x).or (failureOf? y) := by
  cases x <;> cases y <;> rfl

end Failures

/-! ### Where replacing fails -/

/-- The variable of the first reference that has no value. -/
def Reference.firstMissing? (env : Environment) (references : List Reference) : Option Text :=
  (references.find? (isMissing env)).map (·.name)

theorem Reference.firstMissing?_append (env : Environment) (references more : List Reference) :
    firstMissing? env (references ++ more) =
      (firstMissing? env references).or (firstMissing? env more) := by
  rw [firstMissing?, List.find?_append, Option.map_or, firstMissing?, firstMissing?]

/-- The reference that a piece is. -/
def Segment.reference? : Segment → Option Reference
  | literal _ => none
  | reference r => some r

theorem Text.references_eq (t : Text) : t.references = t.segments.filterMap Segment.reference? := by
  rw [references]
  congr

theorem Segment.failureOf?_resolve (env : Environment) (segment : Segment) :
    failureOf? (segment.resolve env) =
      Reference.firstMissing? env segment.reference?.toList := by
  cases segment with
  | literal c => rfl
  | reference r =>
    simp only [resolve, reference?, Reference.firstMissing?, Option.toList_some, List.find?_cons,
      List.find?_nil, Reference.isMissing]
    cases r.value? env <;> rfl

/-- Replacing the references of a text fails at the first one that has no value. -/
theorem Text.failureOf?_interpolate (env : Environment) (t : Text) :
    failureOf? (t.interpolate env) = Reference.firstMissing? env t.references := by
  rw [interpolate, failureOf?_map, references_eq]
  induction t.segments with
  | nil => rfl
  | cons segment segments ih =>
    rw [List.mapM_cons, failureOf?_bind_bind_pure, ih, Segment.failureOf?_resolve,
      ← Reference.firstMissing?_append]
    cases segment <;> rfl

namespace Value

mutual

/-- Replacing the references of a value fails at the first one that has no value. -/
theorem failureOf?_interpolate (env : Environment) : ∀ v : Value,
    failureOf? (v.interpolate env) = Reference.firstMissing? env v.references
  | .text t => by
    rw [interpolate, failureOf?_bind_pure, Text.failureOf?_interpolate, references, texts,
      List.flatMap_singleton]
  | .list items => by
    rw [interpolate, failureOf?_bind_pure]
    exact failureOf?_interpolateItems env items
  | .map entries => by
    rw [interpolate, failureOf?_bind_pure]
    exact failureOf?_interpolateEntries env entries
  | .null | .bool _ | .int _ | .float _ | .bytes _ | .date _ | .moment _ | .tuple _ => by
    rw [interpolate]
    rfl

theorem failureOf?_interpolateItems (env : Environment) : ∀ items : List Value,
    failureOf? (interpolateItems env items) =
      Reference.firstMissing? env ((itemTexts items).flatMap Text.references)
  | [] => by
    rw [interpolateItems]
    rfl
  | item :: rest => by
    rw [interpolateItems, failureOf?_bind_bind_pure, failureOf?_interpolate env item,
      failureOf?_interpolateItems env rest, itemTexts, List.flatMap_append,
      Reference.firstMissing?_append, references]

theorem failureOf?_interpolateEntries (env : Environment) : ∀ entries : List (Value × Value),
    failureOf? (interpolateEntries env entries) =
      Reference.firstMissing? env ((entryTexts entries).flatMap Text.references)
  | [] => by
    rw [interpolateEntries]
    rfl
  | (key, value) :: rest => by
    rw [interpolateEntries, failureOf?_bind_bind_pure, failureOf?_interpolate env value,
      failureOf?_interpolateEntries env rest, entryTexts, List.flatMap_append,
      Reference.firstMissing?_append, references]

end

/-- The first missing variable is that of the first reference without a value. -/
theorem head?_missingVariables (env : Environment) (v : Value) :
    (v.missingVariables env).head? = Reference.firstMissing? env v.references := by
  rw [missingVariables, head?_eraseDups, List.head?_map, List.head?_filter,
    Reference.firstMissing?]

/-- Replacing the references of a value fails with the first missing variable. -/
theorem interpolate_eq_error_iff {env : Environment} {v : Value} {name : Text} :
    v.interpolate env = .error name ↔ (v.missingVariables env).head? = some name := by
  rw [← failureOf?_eq_some_iff, failureOf?_interpolate, head?_missingVariables]

/-- Replacing the references of a value does not fail if no variable is missing. -/
theorem exists_interpolate_eq_ok {env : Environment} {v : Value} (h : v.missingVariables env = []) :
    ∃ w, v.interpolate env = .ok w := by
  cases hv : v.interpolate env with
  | ok w => exact ⟨w, rfl⟩
  | error name =>
    rw [interpolate_eq_error_iff, h] at hv
    cases hv

/-! ### The texts of a value -/

/-- Whether a value has a text somewhere, be it in items or in the values of entries. -/
inductive HasText (t : Text) : Value → Prop
  | text : HasText t (.text t)
  | item {items : List Value} {item : Value} (hmem : item ∈ items) (h : HasText t item) :
      HasText t (.list items)
  | entry {entries : List (Value × Value)} {key value : Value} (hmem : (key, value) ∈ entries)
      (h : HasText t value) : HasText t (.map entries)

theorem mem_itemTexts_iff {t : Text} {items : List Value} :
    t ∈ itemTexts items ↔ ∃ item ∈ items, t ∈ item.texts := by
  induction items with
  | nil => simp [itemTexts]
  | cons item rest ih => simp [itemTexts, ih]

theorem mem_entryTexts_iff {t : Text} {entries : List (Value × Value)} :
    t ∈ entryTexts entries ↔ ∃ entry ∈ entries, t ∈ entry.2.texts := by
  induction entries with
  | nil => simp [entryTexts]
  | cons entry rest ih => simp [entryTexts, ih]

theorem mem_texts_of_hasText {t : Text} {v : Value} (h : v.HasText t) : t ∈ v.texts := by
  induction h with
  | text => exact List.mem_singleton_self t
  | item hmem _ ih => exact mem_itemTexts_iff.2 ⟨_, hmem, ih⟩
  | entry hmem _ ih => exact mem_entryTexts_iff.2 ⟨_, hmem, ih⟩

mutual

theorem hasText_of_mem_texts {t : Text} : ∀ v : Value, t ∈ v.texts → v.HasText t
  | .text s, h => by
    rw [List.mem_singleton.1 h]
    exact .text
  | .list items, h => by
    obtain ⟨item, hmem, hitem⟩ := hasText_of_mem_itemTexts items h
    exact .item hmem hitem
  | .map entries, h => by
    obtain ⟨key, value, hmem, hvalue⟩ := hasText_of_mem_entryTexts entries h
    exact .entry hmem hvalue
  | .null, h | .bool _, h | .int _, h | .float _, h | .bytes _, h | .date _, h | .moment _, h
  | .tuple _, h => by cases h

theorem hasText_of_mem_itemTexts {t : Text} : ∀ items : List Value, t ∈ itemTexts items →
    ∃ item ∈ items, item.HasText t
  | [], h => by cases h
  | item :: rest, h => by
    obtain h | h := List.mem_append.1 h
    · exact ⟨item, List.mem_cons_self, hasText_of_mem_texts item h⟩
    · obtain ⟨other, hmem, hother⟩ := hasText_of_mem_itemTexts rest h
      exact ⟨other, List.mem_cons_of_mem item hmem, hother⟩

theorem hasText_of_mem_entryTexts {t : Text} : ∀ entries : List (Value × Value),
    t ∈ entryTexts entries → ∃ key value, (key, value) ∈ entries ∧ value.HasText t
  | [], h => by cases h
  | (key, value) :: rest, h => by
    obtain h | h := List.mem_append.1 h
    · exact ⟨key, value, List.mem_cons_self, hasText_of_mem_texts value h⟩
    · obtain ⟨other, found, hmem, hfound⟩ := hasText_of_mem_entryTexts rest h
      exact ⟨other, found, List.mem_cons_of_mem _ hmem, hfound⟩

end

theorem mem_texts_iff {t : Text} {v : Value} : t ∈ v.texts ↔ v.HasText t :=
  ⟨hasText_of_mem_texts v, mem_texts_of_hasText⟩

/-- Whether some text of a value, read from the left, has a reference. -/
def Refers (v : Value) (r : Reference) : Prop :=
  ∃ t segments, v.HasText t ∧ t.IsCut segments ∧ .reference r ∈ segments

theorem mem_references_iff {v : Value} {r : Reference} : r ∈ v.references ↔ v.Refers r := by
  have hsegment (segment : Segment) : segment.reference? = some r ↔ segment = .reference r := by
    cases segment <;> simp [Segment.reference?]
  simp only [references, List.mem_flatMap, mem_texts_iff, Text.references_eq, List.mem_filterMap,
    hsegment, exists_eq_right, Refers, Text.isCut_iff, exists_eq_left, and_left_comm]

/-! ### The list of missing variables -/

/-- The variables of references without default, in the order of these references. -/
def required (v : Value) : List Text :=
  (v.references.filter (·.default.isNone)).map (·.name)

/-- What the missing variables of a value are: replacing its references fails if and only if there
are any, and then with the first one; and they are the variables that references without default
name and that are not set, each once, in the order in which these references first name them. -/
structure AreMissing (env : Environment) (v : Value) (names : List Text) : Prop where
  fails_iff : (∃ name, v.interpolate env = .error name) ↔ names ≠ []
  head?_eq : ∀ name, v.interpolate env = .error name → names.head? = some name
  nodup : names.Nodup
  mem_iff : ∀ name, name ∈ names ↔
    ∃ r, v.Refers r ∧ r.name = name ∧ r.default = none ∧ env.lookup name = none
  pairwise : names.Pairwise fun a b => v.required.idxOf a < v.required.idxOf b

theorem missingVariables_eq (env : Environment) (v : Value) : v.missingVariables env =
    (v.required.filter fun name => (env.lookup name).isNone).eraseDups := by
  have hmissing : Reference.isMissing env =
      fun r => (env.lookup r.name).isNone && r.default.isNone := by
    funext r
    rw [Bool.eq_iff_iff, Reference.isMissing_iff]
    simp [and_comm]
  rw [missingVariables, required, List.filter_map, List.filter_filter, hmissing]
  rfl

theorem mem_missingVariables_iff {env : Environment} {v : Value} {name : Text} :
    name ∈ v.missingVariables env ↔
      ∃ r, v.Refers r ∧ r.name = name ∧ r.default = none ∧ env.lookup name = none := by
  simp only [missingVariables, List.mem_eraseDups, List.mem_map, List.mem_filter,
    mem_references_iff, Reference.isMissing_iff]
  constructor
  · rintro ⟨r, ⟨hr, hdefault, hlookup⟩, rfl⟩
    exact ⟨r, hr, rfl, hdefault, hlookup⟩
  · rintro ⟨r, hr, rfl, hdefault, hlookup⟩
    exact ⟨r, ⟨hr, hdefault, hlookup⟩, rfl⟩

/-- The list of missing variables has each of them once, in the order of their references. -/
theorem areMissing_missingVariables (env : Environment) (v : Value) :
    v.AreMissing env (v.missingVariables env) where
  fails_iff := by
    simp only [interpolate_eq_error_iff, ne_eq, ← List.head?_eq_none_iff]
    exact Option.ne_none_iff_exists'.symm
  head?_eq _ h := interpolate_eq_error_iff.1 h
  nodup := nodup_eraseDups _
  mem_iff _ := mem_missingVariables_iff
  pairwise := by
    rw [missingVariables_eq]
    exact pairwise_eraseDups _ v.required

end Value

/-! ### Loading -/

namespace EvalConfig

variable {env : Environment}

theorem ofValue_of_missing {entries : List (Value × Value)}
    (h : (Value.map entries).missingVariables env ≠ []) :
    ofValue env (.map entries) =
      .error (.bench (.missingVariables ((Value.map entries).missingVariables env))) := by
  rw [ofValue]
  split
  · next h' => exact absurd h' h
  · rfl

/-- If no variable is missing, a mapping is read with its references replaced. -/
theorem exists_ofValue_eq {entries : List (Value × Value)}
    (h : (Value.map entries).missingVariables env = []) :
    ∃ v, (Value.map entries).interpolate env = .ok v ∧
      ofValue env (.map entries) = ofMapping v := by
  obtain ⟨v, hv⟩ := Value.exists_interpolate_eq_ok h
  refine ⟨v, hv, ?_⟩
  simp only [ofValue, h, hv]
  rfl

/-- Whether a failure is one of variables: an unknown one, or a list of missing ones. -/
def IsOfVariables : Failure → Prop
  | .unknownVariable _ => True
  | .bench (.missingVariables _) => True
  | _ => False

theorem not_isOfVariables_of_ofMapping {v : Value} {failure : Failure}
    (h : ofMapping v = .error failure) : ¬IsOfVariables failure := by
  rw [ofMapping] at h
  cases hreport : (check v).report recordName with
  | ok config =>
    rw [hreport] at h
    cases h
  | error report =>
    rw [hreport] at h
    obtain rfl := Except.error.inj h
    exact not_false

theorem not_isOfVariables_of_read {files : FileTree} {yaml : YamlReader} {path : Path}
    {failure : Failure} (h : read files yaml path = .error failure) : ¬IsOfVariables failure := by
  have hfile (fault : FileFault) : ¬IsOfVariables (fileFailure path fault) := by
    cases fault <;> exact not_false
  have hdecoding (bytes : Bytes) : ¬IsOfVariables (decodingFailure bytes) := by
    rw [decodingFailure]
    split <;> exact not_false
  rw [read] at h
  split at h
  · obtain rfl := Except.error.inj h
    exact hfile _
  · cases h
  · split at h
    · cases h
    · obtain rfl := Except.error.inj h
      exact not_false
    · obtain rfl := Except.error.inj h
      exact hdecoding _
    · obtain rfl := Except.error.inj h
      exact not_false
  · obtain rfl := Except.error.inj h
    exact not_false

theorem outcome_load (files : FileTree) (yaml : YamlReader) (env : Environment) (path : Path) :
    (load files yaml env path).outcome = (read files yaml path).bind (ofValue env) := by
  rw [load]
  split <;> simp_all

/-- A configuration without references is loaded as it is read. -/
theorem outcome_load_of_plain {files : FileTree} {yaml : YamlReader} {path : Path}
    {entries : List (Value × Value)} {config : EvalConfig}
    (hread : read files yaml path = .ok (.map entries))
    (hplain : ∀ t ∈ (Value.map entries).texts, ('$' : CodePoint) ∉ t)
    (hmapping : ofMapping (.map entries) = .ok config) :
    (load files yaml env path).outcome = .ok config := by
  have hvalue : ofValue env (.map entries) = .ok config := by
    rw [ofValue, Value.missingVariables_of_plain env hplain,
      Value.interpolate_of_plain env _ hplain]
    exact hmapping
  rw [outcome_load, hread]
  exact hvalue

/-- A failure of variables lists the missing variables of the mapping that was read. -/
theorem exists_of_isOfVariables {files : FileTree} {yaml : YamlReader} {path : Path}
    {failure : Failure} (h : (load files yaml env path).outcome = .error failure)
    (hfailure : IsOfVariables failure) : ∃ entries, read files yaml path = .ok (.map entries) ∧
      (Value.map entries).missingVariables env ≠ [] ∧
      failure = .bench (.missingVariables ((Value.map entries).missingVariables env)) := by
  rw [outcome_load] at h
  cases hread : read files yaml path with
  | error failed =>
    rw [hread] at h
    obtain rfl := Except.error.inj h
    exact absurd hfailure (not_isOfVariables_of_read hread)
  | ok v =>
    rw [hread] at h
    change ofValue env v = .error failure at h
    cases v with
    | map entries =>
      refine ⟨entries, rfl, ?_⟩
      by_cases hmissing : (Value.map entries).missingVariables env = []
      · obtain ⟨w, -, hw⟩ := exists_ofValue_eq hmissing
        rw [hw] at h
        exact absurd hfailure (not_isOfVariables_of_ofMapping h)
      · rw [ofValue_of_missing hmissing] at h
        exact ⟨hmissing, (Except.error.inj h).symm⟩
    | _ =>
      obtain rfl := Except.error.inj h
      exact absurd hfailure not_false

/-- The message about missing variables has each of them, in rising order. -/
theorem exists_message_missingVariables (names : List Text) : ∃ listed : List Text,
    listed.Perm names ∧ listed.Pairwise (fun a b => a.le b = true) ∧
      (BenchError.missingVariables names).message =
        Text.ofString "Failed to load config: missing environment variables: " ++
          Text.join ", " listed :=
  ⟨names.mergeSort Text.le, List.mergeSort_perm names Text.le, Text.pairwise_mergeSort names, rfl⟩

/-- **Missing variables are found before any is needed.** For every value the list of missing
variables has exactly those that replacing its references would fail for, and replacing fails with
the first of them. So loading a configuration never comes upon an unknown variable: if any are
missing it fails with the list, whose message names them all. -/
theorem load_missing (env : Environment) :
    (∀ v : Value, v.AreMissing env (v.missingVariables env)) ∧
    ∀ (files : FileTree) (yaml : YamlReader) (path : Path),
      (∀ name, (load files yaml env path).outcome ≠ .error (.unknownVariable name)) ∧
      ∀ names, (load files yaml env path).outcome = .error (.bench (.missingVariables names)) ↔
        ∃ entries, read files yaml path = .ok (.map entries) ∧ names ≠ [] ∧
          names = (Value.map entries).missingVariables env ∧
          ∃ listed : List Text, listed.Perm names ∧
            listed.Pairwise (fun a b => a.le b = true) ∧
            (BenchError.missingVariables names).message =
              Text.ofString "Failed to load config: missing environment variables: " ++
                Text.join ", " listed := by
  refine ⟨fun v => v.areMissing_missingVariables env, fun files yaml path => ⟨?_, ?_⟩⟩
  · intro name h
    obtain ⟨entries, -, -, hfailure⟩ := exists_of_isOfVariables h trivial
    cases hfailure
  · intro names
    constructor
    · intro h
      obtain ⟨entries, hread, hmissing, hfailure⟩ := exists_of_isOfVariables h trivial
      obtain rfl := BenchError.missingVariables.inj (Failure.bench.inj hfailure)
      exact ⟨entries, hread, hmissing, rfl, exists_message_missingVariables _⟩
    · rintro ⟨entries, hread, hmissing, rfl, -⟩
      rw [outcome_load, hread]
      exact ofValue_of_missing hmissing

/-- The entries of a configuration that refers to `USER` with a default and to `HOME`. -/
def homeEntries : List (Value × Value) :=
  [(.text "name", .text "$\x7bUSER:-me\x7d$\x7bHOME\x7d")]

/-- Where neither variable is set, the one without default is missing. -/
theorem load_missing_home :
    (load [(.ofNames [Text.ofString "bench.yaml"], .file [0x20])]
      (fun _ => .value (.map homeEntries)) [] ⟨0, [Text.ofString "bench.yaml"]⟩).outcome =
        .error (.bench (.missingVariables [Text.ofString "HOME"])) := by
  have huser : Reference.IsProper ⟨Text.ofString "USER", some (Text.ofString "me")⟩ :=
    ⟨.intro rfl (List.all_eq_true.1 (by decide)), by rintro _ ⟨⟩; decide⟩
  have hhome : Reference.IsProper ⟨Text.ofString "HOME", none⟩ :=
    ⟨.intro rfl (List.all_eq_true.1 (by decide)), nofun⟩
  have hcut : Text.IsCut (Text.ofString "$\x7bUSER:-me\x7d$\x7bHOME\x7d") _ :=
    .reference huser (.reference hhome .nil)
  have hmissing : (Value.map homeEntries).missingVariables [] = [Text.ofString "HOME"] := by
    rw [Value.missingVariables, Value.references, homeEntries, Value.texts, Value.entryTexts,
      Value.texts, Value.entryTexts, List.append_nil, List.flatMap_singleton, Text.references_eq,
      ← Text.isCut_iff.1 hcut]
    decide
  exact (((load_missing []).2 _ _ _).2 _).2
    ⟨homeEntries, rfl, by decide, hmissing.symm, exists_message_missingVariables _⟩

end EvalConfig

end TypeBench
