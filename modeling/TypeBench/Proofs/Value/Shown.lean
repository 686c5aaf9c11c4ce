import TypeBench.Failure
import TypeBench.Proofs.Text.Plain

/-!
# Texts of values

Numbers, dates and values in their written form have texts without lone surrogates, since the texts
among them are quoted.

## Main results

* `Binary64.hasSurrogate_text`, `Binary64.hasSurrogate_percent`, `Binary64.hasSurrogate_general`:
  numbers.
* `Timestamp.hasSurrogate_stamp`, `Timestamp.hasSurrogate_written`: moments.
* `Value.hasSurrogate_written`: values.
-/

namespace TypeBench

/-! ### Numbers -/

namespace Binary64

@[simp] theorem hasSurrogate_signText (negative : Bool) :
    (signText negative).hasSurrogate = false :=
  Text.hasSurrogate_onlyIf _ (Text.hasSurrogate_ofString "-")

@[simp] theorem hasSurrogate_wordText (word : Binary64) : (wordText word).hasSurrogate = false := by
  cases word <;> simp [wordText]

@[simp] theorem hasSurrogate_exponentText (exponent : Int) :
    (exponentText exponent).hasSurrogate = false := by
  rw [exponentText]
  split <;> split <;> simp

theorem hasSurrogate_pointAfter (before : Nat) {digits : Text} (h : digits.hasSurrogate = false) :
    (pointAfter before digits).hasSurrogate = false := by
  have htake := Text.hasSurrogate_of_subset (List.take_subset before digits) h
  have hdrop := Text.hasSurrogate_of_subset (List.drop_subset before digits) h
  have hfraction : Text.hasSurrogate (Text.onlyIf (digits.drop before ≠ [])
      ("." ++ digits.drop before)) = false :=
    Text.hasSurrogate_onlyIf _ (by simp [hdrop])
  simp only [pointAfter, Text.hasSurrogate_append, htake, hfraction, Bool.or_self]

theorem hasSurrogate_positional {digits : Text} (h : digits.hasSurrogate = false) (before : Int) :
    (positional digits before).hasSurrogate = false := by
  rw [positional]
  split
  · simp [h]
  · split
    · simp [h]
    · exact hasSurrogate_pointAfter _ h

theorem hasSurrogate_trimZeros {digits : Text} (h : digits.hasSurrogate = false) :
    (trimZeros digits).hasSurrogate = false := by
  have hdrop : Text.hasSurrogate
      (digits.reverse.dropWhile fun c : CodePoint => c = '0') = false :=
    Text.hasSurrogate_of_subset (List.dropWhile_sublist _).subset (by simpa using h)
  simpa [trimZeros] using hdrop

/-- The shortest text of a number has no lone surrogates. -/
@[simp] theorem hasSurrogate_text (x : Binary64) : x.text.hasSurrogate = false := by
  cases x with
  | finite negative significand place =>
    rw [text]
    split
    · simp
    · have hdigits := hasSurrogate_trimZeros
        (Text.hasSurrogate_ofNat (shortest significand place).digits)
      dsimp only
      split
      · simp [hasSurrogate_positional hdigits]
      · simp [hasSurrogate_pointAfter 1 hdigits]
  | _ => simp [text]

theorem hasSurrogate_placesText (places n : Nat) : (placesText places n).hasSurrogate = false :=
  hasSurrogate_pointAfter _ (by simp)

@[simp] theorem hasSurrogate_fixed (places : Nat) (x : Binary64) :
    (x.fixed places).hasSurrogate = false := by
  cases x with
  | finite negative significand place => simp [fixed, hasSurrogate_placesText]
  | _ => simp [fixed]

@[simp] theorem hasSurrogate_percent (x : Binary64) : x.percent.hasSurrogate = false := by
  simp [percent]

theorem hasSurrogate_trimFraction {t : Text} (h : t.hasSurrogate = false) :
    (trimFraction t).hasSurrogate = false := by
  rw [trimFraction]
  split
  · dsimp only
    split
    · exact Text.hasSurrogate_of_subset (List.dropLast_subset _) (hasSurrogate_trimZeros h)
    · exact hasSurrogate_trimZeros h
  · exact h

@[simp] theorem hasSurrogate_general (x : Binary64) : x.general.hasSurrogate = false := by
  cases x with
  | finite negative significand place =>
    rw [general]
    dsimp only
    split
    · simp
    · generalize (if _ = 1000000 then _ else _ : Nat × Int) = rounded
      split
      · simp [hasSurrogate_trimFraction, hasSurrogate_positional]
      · simp [hasSurrogate_trimFraction, hasSurrogate_pointAfter]
  | _ => simp [general]

end Binary64

/-! ### Dates and moments -/

@[simp] theorem Text.hasSurrogate_zeroFilled (width n : Nat) :
    (Text.zeroFilled width n).hasSurrogate = false := by
  simp [Text.zeroFilled]

@[simp] theorem Date.hasSurrogate_text (d : Date) : d.text.hasSurrogate = false := by
  simp [Date.text]

@[simp] theorem Date.hasSurrogate_compact (d : Date) : d.compact.hasSurrogate = false := by
  simp [Date.compact]

theorem hasSurrogate_bracketed {opening closing : Text} {parts : List Text}
    (hopening : opening.hasSurrogate = false) (hclosing : closing.hasSurrogate = false)
    (hparts : ∀ part ∈ parts, part.hasSurrogate = false) :
    (bracketed opening closing parts).hasSurrogate = false := by
  have hjoin := Text.hasSurrogate_join (Text.hasSurrogate_ofString ", ") hparts
  simp [bracketed, hopening, hclosing, hjoin]

@[simp] theorem Date.hasSurrogate_written (d : Date) : d.written.hasSurrogate = false :=
  hasSurrogate_bracketed (Text.hasSurrogate_ofString _) (Text.hasSurrogate_ofString _) (by simp)

@[simp] theorem hasSurrogate_durationText (duration : Int) :
    (durationText duration).hasSurrogate = false := by
  have hpart (name : String) (size : Int) :
      ∀ part ∈ durationPart name size, part.hasSurrogate = false := by
    intro part hpart
    rw [durationPart] at hpart
    split at hpart
    · cases hpart
    · cases List.mem_singleton.1 hpart
      simp
  rw [durationText]
  split
  · simp
  · have hparts : ∀ part ∈ durationPart "days" (duration.fdiv dayLength) ++
        durationPart "seconds" ((duration.fmod dayLength).fdiv secondLength) ++
        durationPart "microseconds" ((duration.fmod dayLength).fmod secondLength),
        part.hasSurrogate = false := by
      simp only [List.mem_append, or_imp, forall_and]
      exact ⟨⟨hpart _ _, hpart _ _⟩, hpart _ _⟩
    have hjoin := Text.hasSurrogate_join (Text.hasSurrogate_ofString ", ") hparts
    simp only [Text.hasSurrogate_append, Text.hasSurrogate_ofString, hjoin, Bool.or_self]

namespace Timestamp

@[simp] theorem hasSurrogate_clockText (t : Timestamp) : t.clockText.hasSurrogate = false := by
  simp [clockText]

@[simp] theorem hasSurrogate_stamp (t : Timestamp) : t.stamp.hasSurrogate = false := by
  simp [stamp]

@[simp] theorem hasSurrogate_offsetWritten (offset : Int) :
    (offsetWritten offset).hasSurrogate = false := by
  rw [offsetWritten]
  split <;> simp

@[simp] theorem hasSurrogate_written (t : Timestamp) : t.written.hasSurrogate = false := by
  refine hasSurrogate_bracketed (Text.hasSurrogate_ofString _) (Text.hasSurrogate_ofString _)
    fun part hpart => ?_
  rcases List.mem_append.1 hpart with hnumber | hzone
  · obtain ⟨n, -, rfl⟩ := List.mem_map.1 hnumber
    exact Text.hasSurrogate_ofNat n
  · cases hoffset : t.offset with
    | none =>
      rw [hoffset] at hzone
      cases hzone
    | some offset =>
      rw [hoffset] at hzone
      cases List.mem_singleton.1 hzone
      simp

end Timestamp

/-! ### Values -/

namespace Value

mutual

/-- The written form of a value has no lone surrogates. -/
theorem hasSurrogate_written : ∀ value : Value, value.written.hasSurrogate = false
  | null => by simp [written]
  | bool b => by cases b <;> simp [written, boolWritten]
  | int i => by simp [written]
  | float x => by simp [written]
  | text t => by simp [written]
  | bytes b => by simp [written]
  | date d => by simp [written]
  | moment t => by simp [written]
  | list items => by
    rw [written]
    exact hasSurrogate_bracketed (Text.hasSurrogate_ofString _) (Text.hasSurrogate_ofString _)
      (hasSurrogate_writtenItems items)
  | tuple [] => by
    rw [written]
    · exact hasSurrogate_bracketed (Text.hasSurrogate_ofString _) (Text.hasSurrogate_ofString _)
        (hasSurrogate_writtenItems [])
    · nofun
  | tuple [item] => by
    rw [written]
    simp [hasSurrogate_written item]
  | tuple (item :: next :: rest) => by
    rw [written]
    · exact hasSurrogate_bracketed (Text.hasSurrogate_ofString _) (Text.hasSurrogate_ofString _)
        (hasSurrogate_writtenItems (item :: next :: rest))
    · nofun
  | map entries => by
    rw [written]
    exact hasSurrogate_bracketed (Text.hasSurrogate_ofString _) (Text.hasSurrogate_ofString _)
      (hasSurrogate_writtenEntries entries)

theorem hasSurrogate_writtenItems : ∀ items : List Value,
    ∀ part ∈ writtenItems items, part.hasSurrogate = false
  | [] => by simp [writtenItems]
  | item :: items => by
    rw [writtenItems]
    exact List.forall_mem_cons.2 ⟨hasSurrogate_written item, hasSurrogate_writtenItems items⟩

theorem hasSurrogate_writtenEntries : ∀ entries : List (Value × Value),
    ∀ part ∈ writtenEntries entries, part.hasSurrogate = false
  | [] => by simp [writtenEntries]
  | (key, value) :: entries => by
    rw [writtenEntries]
    refine List.forall_mem_cons.2 ⟨?_, hasSurrogate_writtenEntries entries⟩
    simp [hasSurrogate_written key, hasSurrogate_written value]

end

end Value

end TypeBench
