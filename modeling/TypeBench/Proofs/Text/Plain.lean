import TypeBench.Path
import TypeBench.Proofs.Text.Encoding
import TypeBench.Text.Quoted
import TypeBench.Text.Styled

/-!
# Texts without lone surrogates

A text with a lone surrogate has no bytes and so cannot be printed. Texts that are put together from
parts without one have none either, and a text in quotes never has one, whatever it quotes: what
cannot be shown is escaped there.

## Main results

* `Text.hasSurrogate_append`, `Text.hasSurrogate_join`, `Text.hasSurrogate_of_subset`: texts and
  their parts.
* `Text.hasSurrogate_ofString`, `Text.hasSurrogate_ofInt`, `Text.hasSurrogate_hex`: words and
  numbers.
* `Text.hasSurrogate_quoted`, `Text.hasSurrogate_quotedBytes`: what is quoted.
* `Text.hasSurrogate_styled`, `Text.hasSurrogate_withoutStyles`: styles.
* `Path.hasSurrogate_text`: the texts of paths.
-/

namespace TypeBench

theorem CodePoint.isSurrogate_ofChar (c : Char) : (CodePoint.ofChar c).isSurrogate = false := by
  have hvalid := c.valid
  simp only [UInt32.isValidChar, Nat.isValidChar] at hvalid
  have hval : (CodePoint.ofChar c).val = c.val.toNat := rfl
  simp only [CodePoint.isSurrogate, hval, Bool.and_eq_false_iff, decide_eq_false_iff_not]
  omega

/-- What is shown as itself is no surrogate. -/
theorem CodePoint.isSurrogate_of_isShown {c : CodePoint} (h : c.isShown = true) :
    c.isSurrogate = false := by
  -- One of the ranges that are not shown has all surrogates in it.
  have hrange : Text.hiddenRanges[318]? = some (0xD7FC, 0xF8FF) := by decide +kernel
  obtain ⟨hlt, heq⟩ := Array.getElem?_eq_some_iff.1 hrange
  simp only [isShown, Bool.not_eq_true', Array.any_eq_false] at h
  have hout := h 318 hlt
  rw [heq] at hout
  simp only [Bool.and_eq_true, decide_eq_true_eq] at hout
  simp only [isSurrogate, Bool.and_eq_false_iff, decide_eq_false_iff_not]
  omega

namespace Text

/-! ### Parts -/

theorem hasSurrogate_eq_false_iff {t : Text} :
    t.hasSurrogate = false ↔ ∀ c ∈ t, c.isSurrogate = false := by
  simp [hasSurrogate, List.any_eq_false]

/-- A text has no lone surrogates if it is made of code points of one that has none. -/
theorem hasSurrogate_of_subset {s t : Text} (h : s ⊆ t) (ht : t.hasSurrogate = false) :
    s.hasSurrogate = false :=
  hasSurrogate_eq_false_iff.2 fun c hc => hasSurrogate_eq_false_iff.1 ht c (h hc)

@[simp] theorem hasSurrogate_nil : hasSurrogate [] = false := rfl

attribute [simp] Utf8.hasSurrogate_cons

@[simp] theorem hasSurrogate_append (s t : Text) :
    hasSurrogate (s ++ t) = (s.hasSurrogate || t.hasSurrogate) := List.any_append

@[simp] theorem hasSurrogate_reverse (t : Text) : hasSurrogate t.reverse = t.hasSurrogate :=
  List.any_reverse

theorem hasSurrogate_flatMap {α : Type} {f : α → Text} {parts : List α}
    (h : ∀ part ∈ parts, (f part).hasSurrogate = false) :
    hasSurrogate (parts.flatMap f) = false := by
  refine hasSurrogate_eq_false_iff.2 fun c hc => ?_
  obtain ⟨part, hpart, hmem⟩ := List.mem_flatMap.1 hc
  exact hasSurrogate_eq_false_iff.1 (h part hpart) c hmem

theorem hasSurrogate_join {separator : Text} {parts : List Text}
    (hseparator : separator.hasSurrogate = false)
    (hparts : ∀ part ∈ parts, part.hasSurrogate = false) :
    (join separator parts).hasSurrogate = false := by
  rw [join]
  induction parts with
  | nil => rfl
  | cons part rest ih =>
    obtain ⟨hpart, hrest⟩ := List.forall_mem_cons.1 hparts
    cases rest with
    | nil => simpa using hpart
    | cons next rest =>
      rw [List.intercalate_cons_cons]
      simp [hpart, hseparator, ih hrest]

theorem hasSurrogate_onlyIf (condition : Prop) [Decidable condition] {t : Text}
    (h : t.hasSurrogate = false) : (onlyIf condition t).hasSurrogate = false := by
  rw [onlyIf]
  split
  · exact h
  · rfl

theorem hasSurrogate_fill (count : Nat) {c : CodePoint} (h : c.isSurrogate = false) :
    (fill count c).hasSurrogate = false :=
  hasSurrogate_eq_false_iff.2 fun _ hmem => List.eq_of_mem_replicate hmem ▸ h

/-! ### Words and numbers -/

@[simp] theorem hasSurrogate_ofString (s : String) : (ofString s).hasSurrogate = false := by
  refine hasSurrogate_eq_false_iff.2 fun c hc => ?_
  obtain ⟨char, -, rfl⟩ := List.mem_map.1 hc
  exact CodePoint.isSurrogate_ofChar char

@[simp] theorem hasSurrogate_fill_ofChar (count : Nat) (c : Char) :
    (fill count (CodePoint.ofChar c)).hasSurrogate = false :=
  hasSurrogate_fill count (CodePoint.isSurrogate_ofChar c)

@[simp] theorem hasSurrogate_ofNat (n : Nat) : (ofNat n).hasSurrogate = false :=
  hasSurrogate_ofString n.repr

@[simp] theorem hasSurrogate_ofInt (i : Int) : (ofInt i).hasSurrogate = false := by
  rw [ofInt]
  split <;> simp

@[simp] theorem hasSurrogate_hex (width n : Nat) : (hex width n).hasSurrogate = false := by
  have hdigits : hasSurrogate ((Nat.toDigits 16 n).map CodePoint.ofChar) = false := by
    refine hasSurrogate_eq_false_iff.2 fun c hc => ?_
    obtain ⟨char, -, rfl⟩ := List.mem_map.1 hc
    exact CodePoint.isSurrogate_ofChar char
  simp [hex, hdigits]

@[simp] theorem hasSurrogate_padRight (width : Nat) (t : Text) :
    (t.padRight width).hasSurrogate = t.hasSurrogate := by
  simp [padRight]

@[simp] theorem hasSurrogate_padLeft (width : Nat) (t : Text) :
    (t.padLeft width).hasSurrogate = t.hasSurrogate := by
  simp [padLeft]

/-! ### Quotes -/

theorem isSurrogate_quoteFor (t : Text) : (quoteFor t).isSurrogate = false := by
  rw [quoteFor]
  split <;> exact CodePoint.isSurrogate_ofChar _

theorem hasSurrogate_shortEscape {quote c : CodePoint} (hquote : quote.isSurrogate = false)
    {escape : Text} (h : shortEscape? quote c = some escape) : escape.hasSurrogate = false := by
  have hbackslash : (CodePoint.ofChar '\\').isSurrogate = false := rfl
  simp only [shortEscape?, Bool.or_eq_true, decide_eq_true_eq] at h
  split at h
  · rename_i hc
    cases h
    rcases hc with rfl | rfl <;> simp [hbackslash, hquote]
  · split at h
    · cases h
      rfl
    · split at h
      · cases h
        rfl
      · split at h <;> cases h
        rfl

theorem hasSurrogate_quotedPoint {quote : CodePoint} (hquote : quote.isSurrogate = false)
    (c : CodePoint) : (quotedPoint quote c).hasSurrogate = false := by
  rw [quotedPoint]
  split
  · exact hasSurrogate_shortEscape hquote ‹_›
  · split
    · simp [CodePoint.isSurrogate_of_isShown ‹_›]
    · split
      · simp
      · split <;> simp

/-- A text in quotes has no lone surrogates. -/
@[simp] theorem hasSurrogate_quoted (t : Text) : t.quoted.hasSurrogate = false := by
  have hquote := isSurrogate_quoteFor t
  have hpoints : hasSurrogate (t.flatMap (quotedPoint (quoteFor t))) = false :=
    hasSurrogate_flatMap fun c _ => hasSurrogate_quotedPoint hquote c
  simp [quoted, hquote, hpoints]

theorem hasSurrogate_quotedByte {quote : CodePoint} (hquote : quote.isSurrogate = false)
    (c : CodePoint) : (quotedByte quote c).hasSurrogate = false := by
  rw [quotedByte]
  split
  · exact hasSurrogate_shortEscape hquote ‹_›
  · split
    · rename_i hascii
      simp only [Bool.and_eq_true, decide_eq_true_eq] at hascii
      have hc : c.isSurrogate = false := by
        simp only [CodePoint.isSurrogate, Bool.and_eq_false_iff, decide_eq_false_iff_not]
        omega
      simp [hc]
    · simp

/-- Neither have bytes. -/
@[simp] theorem hasSurrogate_quotedBytes (bytes : Bytes) :
    (quotedBytes bytes).hasSurrogate = false := by
  rw [quotedBytes]
  generalize bytes.map (fun b => Utf8.pointOf b.toNat) = points
  have hquote := isSurrogate_quoteFor points
  have hpoints : hasSurrogate (points.flatMap (quotedByte (quoteFor points))) = false :=
    hasSurrogate_flatMap fun c _ => hasSurrogate_quotedByte hquote c
  simp [hquote, hpoints]

/-! ### Styles -/

@[simp] theorem hasSurrogate_code (style : Style) : style.code.hasSurrogate = false := by
  have hescape : escapePoint.isSurrogate = false := rfl
  simp [Style.code, hescape]

@[simp] theorem hasSurrogate_styled (styles : List Style) (t : Text) :
    (t.styled styles).hasSurrogate = t.hasSurrogate := by
  have hcodes : hasSurrogate (styles.flatMap Style.code) = false :=
    hasSurrogate_flatMap fun style _ => hasSurrogate_code style
  simp [styled, hcodes]

theorem afterStyle?_suffix {t rest : Text} (h : afterStyle? t = some rest) : rest <:+ t := by
  cases t with
  | nil => cases h
  | cons c t =>
    rw [afterStyle?] at h
    split at h
    · obtain ⟨body, hbody, h⟩ := Option.bind_eq_some_iff.1 h
      have hdrop : body.dropWhile isStyleParameter <:+ body := List.dropWhile_suffix _
      have hafter : body <:+ t := by
        rw [after?] at hbody
        split at hbody
        · cases hbody
          exact List.drop_suffix _ _
        · cases hbody
      split at h
      · cases h
      · rename_i d tail heq
        rw [heq] at hdrop
        split at h
        · cases h
          exact (((List.suffix_cons d rest).trans hdrop).trans hafter).trans (List.suffix_cons c t)
        · cases h
    · cases h

/-- Taking styles out leaves code points of the text. -/
theorem withoutStyles_subset (t : Text) : t.withoutStyles ⊆ t := by
  induction t using Text.withoutStyles.induct with
  | case1 =>
    rw [Text.withoutStyles]
    exact List.Subset.refl _
  | case2 c rest after hafter _ ih =>
    rw [Text.withoutStyles]
    split
    · rename_i after' hafter'
      obtain rfl : after' = after := Option.some.inj (hafter'.symm.trans hafter)
      exact List.Subset.trans ih (afterStyle?_suffix hafter).subset
    · rename_i hnone
      rw [hafter] at hnone
      cases hnone
  | case3 c rest hnone ih =>
    rw [Text.withoutStyles]
    split
    · rename_i hafter
      rw [hnone] at hafter
      cases hafter
    · exact List.cons_subset_cons c ih

theorem hasSurrogate_withoutStyles {t : Text} (h : t.hasSurrogate = false) :
    t.withoutStyles.hasSurrogate = false :=
  hasSurrogate_of_subset (withoutStyles_subset t) h

end Text

/-! ### Paths -/

theorem Path.hasSurrogate_text {path : Path}
    (h : ∀ name ∈ path.names, name.hasSurrogate = false) : path.text.hasSurrogate = false := by
  have hjoin := Text.hasSurrogate_join (Text.hasSurrogate_ofString "/") h
  rw [text]
  split <;> simp [hjoin]

theorem Text.subset_of_mem_splitOnPoint {separator : CodePoint} {t piece : Text}
    (h : piece ∈ t.splitOnPoint separator) : piece ⊆ t := by
  induction t generalizing piece with
  | nil =>
    cases List.mem_singleton.1 h
    exact List.Subset.refl _
  | cons c rest ih =>
    rw [splitOnPoint] at h
    split at h
    · rcases List.mem_cons.1 h with rfl | hmem
      · exact List.nil_subset _
      · exact List.Subset.trans (ih hmem) (List.subset_cons_self c rest)
    · split at h
      · cases List.mem_singleton.1 h
        exact List.cons_subset_cons c (List.nil_subset _)
      · rename_i first others hsplit
        rw [hsplit] at ih
        rcases List.mem_cons.1 h with rfl | hmem
        · exact List.cons_subset_cons c (ih List.mem_cons_self)
        · exact List.Subset.trans (ih (List.mem_cons_of_mem _ hmem)) (List.subset_cons_self c rest)

/-- The names of a path that a text writes are parts of the text. -/
theorem Path.hasSurrogate_names_ofText {t : Text} (h : t.hasSurrogate = false) :
    ∀ name ∈ (Path.ofText t).names, name.hasSurrogate = false := fun _ hname =>
  Text.hasSurrogate_of_subset (Text.subset_of_mem_splitOnPoint (List.mem_filter.1 hname).1) h

end TypeBench
