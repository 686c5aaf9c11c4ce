import Mathlib.Data.List.Infix
import Mathlib.Data.List.Nodup
import TypeBench.Hint
import TypeBench.Proofs.Text.Order

/-!
# When a hint is given

There are seven hints, and they are reported in one order. The hints of an identifier are those of
the seven that apply to it, so no hint comes twice and nothing is left to erase. Which hints apply
to a name is a matter of its contiguous parts and of its last letter, so a longer name with the same
ending has all the hints of the shorter one.

## Main definitions

* `Hint.all`: the hints in the order in which they are reported.
* `Hint.Applies`: the rule of each hint.
* `Hint.IsCued`: a name has a cue of a hint as a contiguous part.
* `Hint.IsSuggested`: the same, or the hint is the array and the name a plural.

## Main results

* `Hint.ofName_eq_filter`: the hints of a name are those that it suggests.
* `Hint.mem_semantic_iff`: the hints of an identifier are those that apply to it.
* `Hint.semantic_eq_append`: the name and the expression never give the same hint.
* `Hint.ofName_sublist_append`: a name has the hints of every ending of it.
* `Hint.cued_sublist_append`: a name has the cued hints of every contiguous part of it.
* `Hint.semantic_ordered`: order, rules and monotonicity together.
-/

namespace TypeBench

namespace Hint

/-! ### The rules -/

/-- The hints in the order in which they are reported. -/
def all : List Hint :=
  [likelyNumber, likelyString, likelyBoolean, likelyArray, numericContext, stringContext,
    booleanContext]

/-- A name has a cue of a hint as a contiguous part. -/
def IsCued (name : Text) (hint : Hint) : Prop :=
  ∃ cue ∈ hint.cues, cue <:+: name

instance (name : Text) : DecidablePred (IsCued name) := fun hint =>
  inferInstanceAs (Decidable (∃ cue ∈ hint.cues, cue <:+: name))

/-- What is asked of a name, of the kind of the expression around it and of its operator for a hint
to be given. -/
def Applies (name : Text) (kind operator : Option Text) : Hint → Prop
  | likelyNumber => ∃ cue ∈ (["count", "length", "size", "index"] : List Text), cue <:+: name
  | likelyString => ∃ cue ∈ (["name", "title", "text", "message"] : List Text), cue <:+: name
  | likelyBoolean => ∃ cue ∈ (["is", "has", "can", "should"] : List Text), cue <:+: name
  | likelyArray =>
    (∃ cue ∈ (["list", "array", "items"] : List Text), cue <:+: name) ∨ ("s" : Text) <:+ name
  | numericContext =>
    kind = some ↑"binary_expression" ∧
      ∃ sign ∈ (["+", "-", "*", "/", "%", "**"] : List Text), operator = some sign
  | stringContext => kind = some ↑"binary_expression" ∧ operator = some ↑"+"
  | booleanContext =>
    (kind = some ↑"binary_expression" ∧
      ∃ sign ∈ (["==", "===", "!=", "!==", "<", ">", "<=", ">="] : List Text),
        operator = some sign) ∨
    (kind = some ↑"unary_expression" ∧ operator = some ↑"!")

theorem nodup_all : all.Nodup := by decide

/-- Different hints have different labels. -/
theorem label_injective : Function.Injective label := by
  intro h h'
  cases h <;> cases h' <;> decide

theorem mem_all (hint : Hint) : hint ∈ all := by
  cases hint <;> decide

/-! ### Names -/

theorem cuedBy_iff {name : Text} {hint : Hint} : cuedBy name hint = true ↔ IsCued name hint := by
  rw [cuedBy, List.any_eq_true]
  refine exists_congr fun cue => and_congr_right fun _ => ?_
  rw [Text.contains_iff]
  exact ⟨fun ⟨before, after, h⟩ => ⟨before, after, h.symm⟩,
    fun ⟨before, after, h⟩ => ⟨before, after, h.symm⟩⟩

theorem isPlural_iff {name : Text} : isPlural name = true ↔ ("s" : Text) <:+ name := by
  rw [isPlural, decide_eq_true_eq, List.getLast?_eq_some_iff]
  exact ⟨fun ⟨before, h⟩ => ⟨before, h.symm⟩, fun ⟨before, h⟩ => ⟨before, h.symm⟩⟩

/-- A name suggests the hints that it has a cue of, and a plural also suggests an array. -/
def IsSuggested (name : Text) (hint : Hint) : Prop :=
  IsCued name hint ∨ hint = likelyArray ∧ ("s" : Text) <:+ name

instance (name : Text) : DecidablePred (IsSuggested name) := fun hint =>
  inferInstanceAs (Decidable (IsCued name hint ∨ hint = likelyArray ∧ ("s" : Text) <:+ name))

/-- The array comes last among the hints of a name, so a plural without a cue adds it where it
belongs. -/
theorem ofName_eq_filter (name : Text) : ofName name = ofNames.filter (IsSuggested name) := by
  have hcued : ∀ hint, cuedBy name hint = decide (IsCued name hint) := fun hint =>
    Bool.eq_iff_iff.2 (by rw [cuedBy_iff, decide_eq_true_eq])
  have hplural : isPlural name = decide (("s" : Text) <:+ name) :=
    Bool.eq_iff_iff.2 (by rw [isPlural_iff, decide_eq_true_eq])
  have hfront : [likelyNumber, likelyString, likelyBoolean].filter (cuedBy name) =
      [likelyNumber, likelyString, likelyBoolean].filter (IsSuggested name) :=
    List.filter_congr fun hint hmem => by
      have hne : hint ≠ likelyArray := by rintro rfl; revert hmem; decide
      simp [hcued, IsSuggested, hne]
  have hnot : likelyArray ∉ [likelyNumber, likelyString, likelyBoolean].filter (cuedBy name) :=
    fun h => by simpa using (List.mem_filter.1 h).1
  have hnames : ofNames = [likelyNumber, likelyString, likelyBoolean] ++ [likelyArray] := rfl
  rw [ofName, hnames, List.filter_append, List.filter_append, ← hfront]
  by_cases hc : IsCued name likelyArray
  · simp [hcued, IsSuggested, hc]
  · by_cases hp : ("s" : Text) <:+ name <;> simp [hcued, hplural, IsSuggested, hc, hp]

theorem IsCued.append {name : Text} {hint : Hint} (h : IsCued name hint) (before after : Text) :
    IsCued (before ++ name ++ after) hint := by
  obtain ⟨cue, hcue, hpart⟩ := h
  exact ⟨cue, hcue, hpart.trans (List.infix_append before name after)⟩

theorem IsSuggested.append {name : Text} {hint : Hint} (h : IsSuggested name hint)
    (before : Text) : IsSuggested (before ++ name) hint := by
  obtain hcued | ⟨rfl, hplural⟩ := h
  · refine .inl ?_
    simpa using hcued.append before []
  · exact .inr ⟨rfl, hplural.trans (List.suffix_append before name)⟩

/-- A name has the hints of every ending of it, in their order. -/
theorem ofName_sublist_append (before name : Text) :
    (ofName name).Sublist (ofName (before ++ name)) := by
  rw [ofName_eq_filter, ofName_eq_filter]
  refine List.monotone_filter_right ofNames fun hint h => ?_
  rw [decide_eq_true_eq] at h ⊢
  exact h.append before

/-- A name has the cued hints of every contiguous part of it, in their order. The plural is not
among them: what follows the part may take the ending away. -/
theorem cued_sublist_append (before name after : Text) :
    ((ofName name).filter (IsCued name)).Sublist (ofName (before ++ name ++ after)) := by
  rw [ofName_eq_filter, ofName_eq_filter, List.filter_filter]
  refine List.monotone_filter_right ofNames fun hint h => ?_
  rw [Bool.and_eq_true, decide_eq_true_eq] at h
  rw [decide_eq_true_eq]
  exact .inl (h.1.append before after)

/-! ### The expression around an identifier -/

/-- The hints that an expression can give, in the order in which they are reported. -/
def ofContexts : List Hint :=
  [numericContext, stringContext, booleanContext]

theorem ofBinaryOperator_sublist (operator : Text) :
    (ofBinaryOperator operator).Sublist ofContexts := by
  have hif : ∀ (p : Prop) [Decidable p] (hint : Hint),
      (if p then [hint] else []).Sublist [hint] := fun p _ hint => by
    split
    · exact List.Sublist.refl _
    · exact List.nil_sublist _
  exact ((hif _ numericContext).append (hif _ stringContext)).append (hif _ booleanContext)

theorem ofOperator_sublist (kind operator : Option Text) :
    (ofOperator kind operator).Sublist ofContexts := by
  unfold ofOperator
  split
  · split
    · exact ofBinaryOperator_sublist _
    · split
      · decide
      · exact List.nil_sublist _
  · exact List.nil_sublist _

theorem mem_ofBinaryOperator_iff {hint : Hint} {operator : Text} :
    hint ∈ ofBinaryOperator operator ↔
      hint = numericContext ∧ operator ∈ arithmeticOperators ∨
        hint = stringContext ∧ operator = Text.ofString "+" ∨
          hint = booleanContext ∧ operator ∈ comparisonOperators := by
  rw [ofBinaryOperator, List.mem_append, List.mem_append, or_assoc]
  simp only [List.mem_ite_nil_right, List.mem_singleton, and_comm]

theorem mem_ofOperator_iff {hint : Hint} {kind operator : Option Text} :
    hint ∈ ofOperator kind operator ↔
      (kind = some ↑"binary_expression" ∧ ∃ sign, operator = some sign ∧
        hint ∈ ofBinaryOperator sign) ∨
      (kind = some ↑"unary_expression" ∧ operator = some ↑"!" ∧ hint = booleanContext) := by
  have hdiff : Text.ofString "binary_expression" ≠ Text.ofString "unary_expression" := by decide
  unfold ofOperator
  split
  next kind operator =>
    by_cases hbinary : kind = Text.ofString "binary_expression"
    · subst hbinary
      simp [hdiff]
    · by_cases hunary : kind = Text.ofString "unary_expression" ∧ operator = Text.ofString "!"
      · simp [hunary, hdiff.symm]
      · rw [if_neg hbinary, if_neg hunary]
        simp only [List.not_mem_nil, Option.some.injEq, hbinary, false_and, false_or, false_iff]
        exact fun ⟨hkind, hsign, _⟩ => hunary ⟨hkind, hsign⟩
  next hnone =>
    refine iff_of_false List.not_mem_nil ?_
    rintro (⟨hkind, sign, hsign, -⟩ | ⟨hkind, hsign, -⟩)
    · exact hnone _ _ hkind hsign
    · exact hnone _ _ hkind hsign

/-- What an expression says does not depend on the name. -/
theorem mem_ofOperator_iff_applies {hint : Hint} (h : hint ∈ ofContexts) (name : Text)
    (kind operator : Option Text) :
    hint ∈ ofOperator kind operator ↔ Applies name kind operator hint := by
  rw [mem_ofOperator_iff]
  simp only [mem_ofBinaryOperator_iff]
  obtain rfl | rfl | rfl : hint = numericContext ∨ hint = stringContext ∨
      hint = booleanContext := by simpa [ofContexts] using h
  · simp [Applies, arithmeticOperators, and_comm]
  · simp [Applies]
  · simp [Applies, comparisonOperators, and_comm]

theorem mem_ofName_iff_applies {hint : Hint} (h : hint ∈ ofNames) (name : Text)
    (kind operator : Option Text) :
    hint ∈ ofName name ↔ Applies name kind operator hint := by
  rw [ofName_eq_filter, List.mem_filter, decide_eq_true_eq, and_iff_right h]
  obtain rfl | rfl | rfl | rfl : hint = likelyNumber ∨ hint = likelyString ∨
      hint = likelyBoolean ∨ hint = likelyArray := by simpa [ofNames] using h
  · exact or_iff_left fun h => by cases h.1
  · exact or_iff_left fun h => by cases h.1
  · exact or_iff_left fun h => by cases h.1
  · exact or_congr_right (and_iff_right rfl)

/-! ### Both together -/

theorem all_eq : all = ofNames ++ ofContexts := rfl

theorem append_sublist_all (name : Text) (kind operator : Option Text) :
    (ofName name ++ ofOperator kind operator).Sublist all := by
  rw [all_eq, ofName_eq_filter]
  exact List.filter_sublist.append (ofOperator_sublist kind operator)

/-- The name and the expression never give the same hint, so nothing is erased. -/
theorem semantic_eq_append (name : Text) (kind operator : Option Text) :
    semantic name kind operator = ofName name ++ ofOperator kind operator :=
  eraseDups_eq_self (nodup_all.sublist (append_sublist_all name kind operator))

/-- The hints of an identifier are those that apply to it. -/
theorem mem_semantic_iff {hint : Hint} {name : Text} {kind operator : Option Text} :
    hint ∈ semantic name kind operator ↔ Applies name kind operator hint := by
  have hname : ∀ h ∈ ofName name, h ∈ ofNames := fun h hmem => by
    rw [ofName_eq_filter] at hmem
    exact List.mem_of_mem_filter hmem
  have hcontext : ∀ h ∈ ofOperator kind operator, h ∈ ofContexts := fun h hmem =>
    (ofOperator_sublist kind operator).subset hmem
  have hdisjoint : List.Disjoint ofNames ofContexts :=
    List.disjoint_of_nodup_append (all_eq ▸ nodup_all)
  rw [semantic_eq_append, List.mem_append]
  obtain h | h : hint ∈ ofNames ∨ hint ∈ ofContexts :=
    List.mem_append.1 (all_eq ▸ mem_all hint)
  · rw [← mem_ofName_iff_applies h]
    refine or_iff_left fun hmem => ?_
    exact hdisjoint h (hcontext hint hmem)
  · rw [← mem_ofOperator_iff_applies h name]
    refine or_iff_right fun hmem => ?_
    exact hdisjoint (hname hint hmem) h

/-- The hints of an identifier stand in the fixed order, each once and exactly those that apply, and
nothing is erased on the way. A name has the hints of every ending of it, and those that it is cued
for by every contiguous part. -/
theorem semantic_ordered :
    (∀ (name : Text) (kind operator : Option Text),
      ((semantic name kind operator).map label).Sublist
        ["likely-number", "likely-string", "likely-boolean", "likely-array", "numeric-context",
          "string-context", "boolean-context"] ∧
      ((semantic name kind operator).map label).Nodup ∧
      (∀ hint, hint ∈ semantic name kind operator ↔ Applies name kind operator hint) ∧
      semantic name kind operator = ofName name ++ ofOperator kind operator) ∧
    (∀ before name : Text, (ofName name).Sublist (ofName (before ++ name))) ∧
    ∀ before name after : Text,
      ((ofName name).filter (IsCued name)).Sublist (ofName (before ++ name ++ after)) := by
  refine ⟨fun name kind operator => ⟨?_, ?_, fun _ => mem_semantic_iff, semantic_eq_append ..⟩,
    ofName_sublist_append, cued_sublist_append⟩
  · rw [semantic_eq_append]
    exact (append_sublist_all name kind operator).map label
  · rw [semantic_eq_append]
    exact (nodup_all.sublist (append_sublist_all name kind operator)).map label_injective

end Hint

end TypeBench
