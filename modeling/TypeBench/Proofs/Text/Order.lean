import Mathlib.Data.List.Basic
import Mathlib.Data.List.Induction
import TypeBench.Text.Basic

/-!
# Lists in order

Texts are ordered by their code points, and every two texts can be compared, so sorting puts them in
rising order. Of a list without repetitions each part stands where it first came.

## Main results

* `Text.pairwise_mergeSort`: sorting puts texts in rising order.
* `pairwise_eraseDups`: without repetitions the parts keep the order in which they first came.
* `nodup_eraseDups`: there is no part twice.
* `eraseDups_map`: parts that are told apart are repeated where they were.
* `append_singleton_eq`: a list with one more part at its end splits at this part or before it.
-/

namespace TypeBench

namespace Text

theorem le_cons_cons_iff {c d : CodePoint} {s t : Text} :
    le (c :: s) (d :: t) = true ↔ c.val < d.val ∨ c = d ∧ s.le t = true := by
  rw [le, Bool.or_eq_true, Bool.and_eq_true, decide_eq_true_eq, beq_iff_eq, Fin.ext_iff]

theorem le_total (s t : Text) : (s.le t || t.le s) = true := by
  rw [Bool.or_eq_true]
  induction s generalizing t with
  | nil => exact .inl rfl
  | cons c s ih =>
    cases t with
    | nil => exact .inr rfl
    | cons d t =>
      rw [le_cons_cons_iff, le_cons_cons_iff]
      obtain hlt | heq | hgt := Nat.lt_trichotomy c.val d.val
      · exact .inl (.inl hlt)
      · have hcd := Fin.ext heq
        exact (ih t).imp (.inr ⟨hcd, ·⟩) (.inr ⟨hcd.symm, ·⟩)
      · exact .inr (.inl hgt)

theorem le_trans (s t v : Text) (hst : s.le t = true) (htv : t.le v = true) : s.le v = true := by
  induction s generalizing t v with
  | nil => rfl
  | cons c s ih =>
    cases t with
    | nil => cases hst
    | cons d t =>
      cases v with
      | nil => cases htv
      | cons e v =>
        rw [le_cons_cons_iff] at hst htv ⊢
        obtain hcd | ⟨rfl, hst⟩ := hst
        · obtain hde | ⟨rfl, -⟩ := htv
          · exact .inl (Nat.lt_trans hcd hde)
          · exact .inl hcd
        · exact htv.imp_right fun ⟨hce, htv⟩ => ⟨hce, ih t v hst htv⟩

/-- Sorting puts texts in rising order. -/
theorem pairwise_mergeSort (texts : List Text) :
    (texts.mergeSort le).Pairwise fun s t => s.le t = true :=
  List.pairwise_mergeSort le_trans le_total texts

end Text

/-! ### Repetitions -/

section Repetitions

variable {α : Type} [BEq α] [LawfulBEq α]

theorem eraseDups_append_of_mem {parts : List α} {part : α} (h : part ∈ parts) :
    (parts ++ [part]).eraseDups = parts.eraseDups := by
  rw [List.eraseDups_append]
  simp [List.removeAll, h]

theorem eraseDups_append_of_notMem {parts : List α} {part : α} (h : part ∉ parts) :
    (parts ++ [part]).eraseDups = parts.eraseDups ++ [part] := by
  rw [List.eraseDups_append]
  simp [List.removeAll, h, List.eraseDups_cons]

/-- Of some parts of a list, each once, the one that came first in the list stands first. -/
theorem pairwise_eraseDups (p : α → Bool) (parts : List α) :
    (parts.filter p).eraseDups.Pairwise fun a b => parts.idxOf a < parts.idxOf b := by
  induction parts using List.reverseRecOn with
  | nil => exact List.Pairwise.nil
  | append_singleton parts part ih =>
    have hmem : ∀ a ∈ (parts.filter p).eraseDups, a ∈ parts := fun a ha =>
      (List.mem_filter.1 (List.mem_eraseDups.1 ha)).1
    have hbefore : (parts.filter p).eraseDups.Pairwise fun a b =>
        (parts ++ [part]).idxOf a < (parts ++ [part]).idxOf b := by
      refine ih.imp_of_mem fun {a b} ha hb hlt => ?_
      rwa [List.idxOf_append_of_mem (hmem a ha), List.idxOf_append_of_mem (hmem b hb)]
    rw [List.filter_append]
    by_cases hp : p part = true
    · rw [List.filter_cons_of_pos hp, List.filter_nil]
      by_cases hpart : part ∈ parts.filter p
      · rwa [eraseDups_append_of_mem hpart]
      · rw [eraseDups_append_of_notMem hpart, List.pairwise_append]
        refine ⟨hbefore, List.pairwise_singleton _ _, fun a ha b hb => ?_⟩
        obtain rfl := List.mem_singleton.1 hb
        have hnew : b ∉ parts := fun h => hpart (List.mem_filter.2 ⟨h, hp⟩)
        rw [List.idxOf_append_of_mem (hmem a ha), List.idxOf_append_of_notMem hnew]
        have := List.idxOf_lt_length_iff.2 (hmem a ha)
        omega
    · rwa [List.filter_cons_of_neg hp, List.filter_nil, List.append_nil]

/-- Without repetitions there is no part twice. -/
theorem nodup_eraseDups (parts : List α) : parts.eraseDups.Nodup := by
  have h := pairwise_eraseDups (fun _ => true) parts
  rw [List.filter_eq_self.2 fun _ _ => rfl] at h
  refine h.imp fun {a b} hlt hab => ?_
  rw [hab] at hlt
  exact Nat.lt_irrefl _ hlt

/-- Nothing is erased where nothing is repeated. -/
theorem eraseDups_eq_self {parts : List α} (h : parts.Nodup) : parts.eraseDups = parts := by
  induction parts with
  | nil => rfl
  | cons part parts ih =>
    obtain ⟨hpart, hrest⟩ := List.nodup_cons.1 h
    have hfilter : (parts.filter fun other => !other == part) = parts :=
      List.filter_eq_self.2 fun other hother => by
        simpa using fun heq : other = part => hpart (heq ▸ hother)
    rw [List.eraseDups_cons, hfilter, ih hrest]

/-- A function that tells the parts apart repeats what was repeated, and nothing else. -/
theorem eraseDups_map {β : Type} [BEq β] [LawfulBEq β] {f : α → β} {parts : List α}
    (hf : ∀ a ∈ parts, ∀ b ∈ parts, f a = f b → a = b) :
    (parts.map f).eraseDups = parts.eraseDups.map f := by
  induction parts using List.reverseRecOn with
  | nil => rfl
  | append_singleton parts part ih =>
    have hrest := ih fun a ha b hb =>
      hf a (List.mem_append_left _ ha) b (List.mem_append_left _ hb)
    rw [List.map_append, List.map_singleton]
    by_cases hpart : part ∈ parts
    · rw [eraseDups_append_of_mem hpart, eraseDups_append_of_mem (List.mem_map_of_mem hpart), hrest]
    · have hnew : f part ∉ parts.map f := by
        intro h
        obtain ⟨other, hother, heq⟩ := List.mem_map.1 h
        have hsame := hf other (List.mem_append_left _ hother) part (by simp) heq
        exact hpart (hsame ▸ hother)
      rw [eraseDups_append_of_notMem hpart, eraseDups_append_of_notMem hnew, hrest,
        List.map_append, List.map_singleton]

omit [LawfulBEq α] in
/-- The first part stays the first one. -/
theorem head?_eraseDups (parts : List α) : parts.eraseDups.head? = parts.head? := by
  cases parts with
  | nil => rfl
  | cons part parts => rw [List.eraseDups_cons, List.head?_cons, List.head?_cons]

end Repetitions

/-! ### One more part -/

section Splits

variable {α : Type} {parts before later : List α} {part a : α}

/-- A list with one more part at its end splits at this part or before it. -/
theorem append_singleton_eq (h : parts ++ [part] = before ++ a :: later) :
    (parts = before ∧ part = a ∧ later = []) ∨
      ∃ later', later = later' ++ [part] ∧ parts = before ++ a :: later' := by
  rcases List.eq_nil_or_concat later with rfl | ⟨later', last, rfl⟩
  · obtain ⟨rfl, hlast⟩ := List.append_inj' h rfl
    exact .inl ⟨rfl, (List.cons.inj hlast).1, rfl⟩
  · rw [List.concat_eq_append, ← List.cons_append, ← List.append_assoc] at h
    obtain ⟨rfl, hlast⟩ := List.append_inj' h rfl
    obtain rfl := (List.cons.inj hlast).1
    exact .inr ⟨later', List.concat_eq_append, rfl⟩

/-- What holds at each part of a list, given the parts before it. -/
def AtEach (P : List α → α → Prop) (parts : List α) : Prop :=
  ∀ before a later, parts = before ++ a :: later → P before a

theorem atEach_nil (P : List α → α → Prop) : AtEach P [] := fun _ _ _ h =>
  absurd h.symm (List.append_ne_nil_of_right_ne_nil _ (List.cons_ne_nil _ _))

/-- One more part adds one condition. -/
theorem atEach_append_singleton {P : List α → α → Prop} :
    AtEach P (parts ++ [part]) ↔ AtEach P parts ∧ P parts part := by
  constructor
  · intro h
    refine ⟨fun before a later hsplit => h before a (later ++ [part]) ?_, h parts part [] rfl⟩
    rw [hsplit, List.append_assoc, List.cons_append]
  · rintro ⟨hparts, hpart⟩ before a later hsplit
    rcases append_singleton_eq hsplit with ⟨rfl, rfl, -⟩ | ⟨later', -, rfl⟩
    · exact hpart
    · exact hparts before a later' rfl

end Splits

end TypeBench
