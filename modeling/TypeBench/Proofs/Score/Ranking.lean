import Mathlib.Data.List.Induction
import Mathlib.Data.List.Pairwise
import TypeBench.Proofs.Score.Acceptance
import TypeBench.Score.Comparison

/-!
# Rankings of results

The best result is found by a search that keeps the first one of the greatest accuracy, and the
table is sorted by falling accuracy. Both compare in one way only, and binary64 numbers can be
compared as long as each of them is one; results within their bounds have no other accuracies or
times. The sort keeps the order of what is equal, so both break ties in the order of the results,
and the best result stands in the first row.

## Main definitions

* `Separates`: a strict comparison that puts every item on a side of any two that it tells apart.
* `IsFirst`: an item that is better than those before it, and no worse than those after it.
* `ComparisonRow.tied`: rows of one accuracy.
* `ResultComparison.Ranks`: what a comparison says of results.

## Main results

* `ComparisonRow.first?_eq_none_or`: the search finds the first of the best rows.
* `ComparisonRow.pairwise_ranked`, `ComparisonRow.filter_tied_ranked`: the sort is stable.
* `ComparisonRow.head?_ranked`: the row that the search finds stands first.
* `ResultComparison.ofResults_ranks`: the comparison of results.
-/

namespace TypeBench

open List

/-! ### Comparisons -/

/-- A strict comparison of the items of a kind. It goes one way only, and an item is on one side or
the other of two that it tells apart. -/
structure Separates {α : Type} (among : α → Prop) (below : α → α → Bool) : Prop where
  asymm : ∀ ⦃a b⦄, among a → among b → below a b = true → below b a = false
  between : ∀ ⦃a b c⦄, among a → among b → among c → below a c = true →
    below a b = true ∨ below b c = true

namespace Separates

variable {α β : Type} {among : α → Prop} {below : α → α → Bool}

theorem irrefl (h : Separates among below) {a : α} (ha : among a) : below a a = false := by
  by_contra htrue
  have hbelow : below a a = true := by simpa using htrue
  exact htrue (h.asymm ha ha hbelow)

theorem flip (h : Separates among below) : Separates among fun a b => below b a where
  asymm _ _ ha hb hlt := h.asymm hb ha hlt
  between _ _ _ ha hb hc hlt := (h.between hc hb ha hlt).symm

theorem comap (h : Separates among below) (f : β → α) :
    Separates (fun b => among (f b)) fun a b => below (f a) (f b) where
  asymm _ _ ha hb hlt := h.asymm ha hb hlt
  between _ _ _ ha hb hc hlt := h.between ha hb hc hlt

theorem not_trans (h : Separates among below) {a b c : α} (ha : among a) (hb : among b)
    (hc : among c) (hab : below a b = false) (hbc : below b c = false) : below a c = false := by
  by_contra hac
  rcases h.between ha hb hc (by simpa using hac) with hlt | hlt
  · rw [hab] at hlt
    cases hlt
  · rw [hbc] at hlt
    cases hlt

end Separates

namespace Binary64

/-- Numbers can be compared. -/
theorem separates_lt : Separates (· ≠ nan) lt where
  asymm x y _ _ hlt := by
    by_contra hge
    have hlt' : y.lt x = true := by simpa using hge
    have hself := lt_trans hlt hlt'
    rw [lt_irrefl] at hself
    cases hself
  between x y z hx hy hz hlt := by
    cases x <;> cases y <;> cases z <;> simp_all [lt]
    omega

theorem ne_nan_of_le_right {x y : Binary64} (h : x.le y = true) : y ≠ nan := by
  rintro rfl
  cases x <;> cases h

end Binary64

/-! ### The first of the best -/

/-- An item of a list that is better than all before it, and than which none after it is better. -/
def IsFirst {α : Type} (better : α → α → Bool) (items : List α) (item : α) : Prop :=
  ∃ before after, items = before ++ item :: after ∧
    (∀ other ∈ before, better item other = true) ∧ ∀ other ∈ after, better other item = false

namespace IsFirst

variable {α β : Type} {better : α → α → Bool} {items : List α} {item : α}

theorem mem (h : IsFirst better items item) : item ∈ items := by
  obtain ⟨before, after, rfl, -, -⟩ := h
  exact mem_append_right before mem_cons_self

/-- No item of the list is better. -/
theorem not_better {among : α → Prop} (h : IsFirst better items item)
    (hbetter : Separates among better) (hitems : ∀ other ∈ items, among other) :
    ∀ other ∈ items, better other item = false := by
  have hitem := hitems item h.mem
  obtain ⟨before, after, rfl, hbefore, hafter⟩ := h
  refine forall_mem_append.2 ⟨fun other hother => ?_, forall_mem_cons.2 ⟨?_, hafter⟩⟩
  · exact hbetter.asymm hitem (hitems other (mem_append_left _ hother)) (hbefore other hother)
  · exact hbetter.irrefl hitem

theorem of_map {f : β → α} {items : List β} (h : IsFirst better (items.map f) item) :
    ∃ b, IsFirst (fun a b => better (f a) (f b)) items b ∧ f b = item := by
  obtain ⟨before, after, hsplit, hbefore, hafter⟩ := h
  obtain ⟨before, rest, rfl, rfl, hrest⟩ := map_eq_append_iff.1 hsplit
  obtain ⟨b, after, rfl, rfl, rfl⟩ := map_eq_cons_iff.1 hrest
  exact ⟨b, ⟨before, after, rfl, forall_mem_map.1 hbefore, forall_mem_map.1 hafter⟩, rfl⟩

end IsFirst

namespace ComparisonRow

variable {R : Type} {among : ComparisonRow R → Prop} {rows : List (ComparisonRow R)}

section Search

variable {better : ComparisonRow R → ComparisonRow R → Bool}

theorem first?_concat (rows : List (ComparisonRow R)) (row : ComparisonRow R) :
    first? better (rows ++ [row]) = prefer better (first? better rows) row := by
  rw [first?, foldl_append]
  rfl

/-- The search finds the first of the best rows. -/
theorem first?_eq_none_or (hbetter : Separates among better) (hrows : ∀ row ∈ rows, among row) :
    (rows = [] ∧ first? better rows = none) ∨
      ∃ row, first? better rows = some row ∧ IsFirst better rows row := by
  induction rows using List.reverseRecOn with
  | nil => exact .inl ⟨rfl, rfl⟩
  | append_singleton rows row ih =>
    obtain ⟨hearlier, hrow⟩ := forall_mem_append.1 hrows
    have hrow : among row := hrow row (mem_singleton_self row)
    rw [first?_concat]
    right
    rcases ih hearlier with ⟨rfl, hnone⟩ | ⟨kept, hkept, hfirst⟩
    · rw [hnone]
      exact ⟨row, rfl, [], [], rfl, forall_mem_nil _, forall_mem_nil _⟩
    · rw [hkept, prefer]
      split
      · next hlater =>
        -- What is better than the best so far is better than all that it was compared with.
        refine ⟨row, rfl, rows, [], rfl, fun other hother => ?_, forall_mem_nil _⟩
        have hworse := hfirst.not_better hbetter hearlier other hother
        rcases hbetter.between hrow (hearlier other hother) (hearlier kept hfirst.mem) hlater with
          h | h
        · exact h
        · rw [hworse] at h
          cases h
      · next hlater =>
        obtain ⟨before, after, rfl, hbefore, hafter⟩ := hfirst
        refine ⟨kept, rfl, before, after ++ [row], append_assoc .., hbefore, ?_⟩
        exact forall_mem_append.2 ⟨hafter, forall_mem_singleton.2 (by simpa using hlater)⟩

end Search

/-! ### The table -/

variable [Quantity R]

theorem ranked_perm (rows : List (ComparisonRow R)) : ranked rows ~ rows := mergeSort_perm ..

/-- The sort compares the rows that there are, however it would compare others. -/
theorem ranked_eq_map (hrows : ∀ row ∈ rows, among row) :
    ∃ items : List { row : ComparisonRow R // among row }, rows = items.map (·.1) ∧
      ranked rows = (items.mergeSort fun a b => !moreAccurate b.1 a.1).map (·.1) := by
  have hitems := attachWith_map_subtype_val (p := among) hrows
  refine ⟨rows.attachWith _ hrows, hitems.symm, ?_⟩
  rw [map_mergeSort (s := fun a b => !moreAccurate b a) fun _ _ _ _ => rfl, hitems]
  rfl

/-- Whether two rows are of one accuracy. -/
def tied (a b : ComparisonRow R) : Bool := !moreAccurate a b && !moreAccurate b a

section Table

variable (hrank : Separates among moreAccurate)

include hrank

theorem not_moreAccurate_trans {a b c : ComparisonRow R} (ha : among a) (hb : among b)
    (hc : among c) (hab : (!moreAccurate b a) = true) (hbc : (!moreAccurate c b) = true) :
    (!moreAccurate c a) = true := by
  rw [Bool.not_eq_true'] at hab hbc ⊢
  exact hrank.not_trans hc hb ha hbc hab

theorem not_moreAccurate_total {a b : ComparisonRow R} (ha : among a) (hb : among b) :
    (!moreAccurate b a || !moreAccurate a b) = true := by
  cases hab : moreAccurate a b with
  | false => exact Bool.or_true _
  | true =>
    rw [hrank.asymm ha hb hab]
    rfl

variable (hrows : ∀ row ∈ rows, among row)

include hrows

/-- The sort of rows of a kind: none stands above a more accurate one, and what stands in this order
already keeps it. -/
theorem pairwise_ranked_and_sublist : (ranked rows).Pairwise (fun a b => moreAccurate b a = false) ∧
    ∀ part, part <+ rows → part.Pairwise (fun a b => moreAccurate b a = false) →
      part <+ ranked rows := by
  obtain ⟨items, rfl, hranked⟩ := ranked_eq_map hrows
  have htrans (a b c : { row // among row }) := not_moreAccurate_trans hrank a.2 b.2 c.2
  have htotal (a b : { row // among row }) := not_moreAccurate_total hrank a.2 b.2
  rw [hranked]
  constructor
  · exact pairwise_map.2 ((pairwise_mergeSort htrans htotal items).imp fun h => by simpa using h)
  · intro part hpart hpairwise
    obtain ⟨kept, hkept, rfl⟩ := sublist_map_iff.1 hpart
    refine (sublist_mergeSort htrans htotal ?_ hkept).map _
    exact (pairwise_map.1 hpairwise).imp fun h => by simpa using h

/-- Rows of one accuracy stand in the order that they came in. -/
theorem filter_tied_ranked {row : ComparisonRow R} (hrow : among row) :
    (ranked rows).filter (tied row) = rows.filter (tied row) := by
  have hmem (other : ComparisonRow R) (hother : other ∈ rows.filter (tied row)) :
      among other ∧ moreAccurate row other = false ∧ moreAccurate other row = false := by
    obtain ⟨hother, htied⟩ := mem_filter.1 hother
    exact ⟨hrows other hother, by simpa [tied] using htied⟩
  have hpairwise : (rows.filter (tied row)).Pairwise fun a b => moreAccurate b a = false := by
    refine pairwise_of_forall_mem_list fun a ha b hb => ?_
    obtain ⟨ha, hrowa, -⟩ := hmem a ha
    obtain ⟨hb, -, hbrow⟩ := hmem b hb
    exact hrank.not_trans hb hrow ha hbrow hrowa
  -- Tied rows stand in order already, so the sort keeps them as they are; and it adds none.
  have hsublist : rows.filter (tied row) <+ (ranked rows).filter (tied row) := by
    have hranked := (pairwise_ranked_and_sublist hrank hrows).2 _ filter_sublist hpairwise
    simpa only [filter_filter, Bool.and_self] using hranked.filter (tied row)
  have hcount : (rows.filter (tied row)).length = ((ranked rows).filter (tied row)).length :=
    ((ranked_perm rows).filter _).length_eq.symm
  exact (hsublist.eq_of_length hcount).symm

/-- The row that the search finds stands first. -/
theorem head?_ranked : (ranked rows).head? = first? moreAccurate rows := by
  rcases first?_eq_none_or hrank hrows with ⟨rfl, hnone⟩ | ⟨row, hsome, hfirst⟩
  · rw [hnone, ranked, mergeSort_nil]
    rfl
  · have hrow := hrows row hfirst.mem
    rw [hsome]
    cases hranked : ranked rows with
    | nil =>
      have hmem := (ranked_perm rows).mem_iff.2 hfirst.mem
      rw [hranked] at hmem
      cases hmem
    | cons top rest =>
      have htop : top ∈ rows := (ranked_perm rows).mem_iff.1 (hranked ▸ mem_cons_self)
      have hbelow : moreAccurate top row = false := hfirst.not_better hrank hrows top htop
      have habove : moreAccurate row top = false := by
        have hpairwise := (pairwise_ranked_and_sublist hrank hrows).1
        have hmem := (ranked_perm rows).mem_iff.2 hfirst.mem
        rw [hranked] at hpairwise hmem
        rcases mem_cons.1 hmem with rfl | hrest
        · exact hrank.irrefl hrow
        · exact rel_of_pairwise_cons hpairwise hrest
      -- Both are of one accuracy, and each comes first among the rows of it.
      have hfilter := filter_tied_ranked hrank hrows hrow
      obtain ⟨before, after, rfl, hbefore, -⟩ := hfirst
      have hnone : before.filter (tied row) = [] :=
        filter_eq_nil_iff.2 fun other hother => by simp [tied, hbefore other hother]
      have htied : tied row top = true := by rw [tied, habove, hbelow]; rfl
      have hself : tied row row = true := by rw [tied, hrank.irrefl hrow]; rfl
      rw [hranked, filter_cons_of_pos htied, filter_append, hnone, nil_append,
        filter_cons_of_pos hself] at hfilter
      exact congrArg some (cons.inj hfilter).1

end Table

end ComparisonRow

/-! ### Results -/

namespace ComparisonRow

theorem separates_moreAccurate :
    Separates (fun row : ComparisonRow Binary64 => row.accuracy ≠ .nan) moreAccurate :=
  (Binary64.separates_lt.comap accuracy).flip

theorem separates_faster :
    Separates (fun row : ComparisonRow Binary64 => row.time ≠ .nan) faster :=
  Binary64.separates_lt.comap time

/-- Whether a row has a certain accuracy; the two zeros are one. -/
def hasAccuracy (x : Binary64) (row : ComparisonRow Binary64) : Bool :=
  Quantity.le x row.accuracy && Quantity.le row.accuracy x

section Accuracies

variable {rows : List (ComparisonRow Binary64)} (hrows : ∀ row ∈ rows, row.accuracy ≠ .nan)

include hrows

theorem falling_ranked :
    (ranked rows).Pairwise fun a b => Quantity.le b.accuracy a.accuracy = true := by
  refine (pairwise_ranked_and_sublist separates_moreAccurate hrows).1.imp_of_mem
    fun {a b} ha hb h => ?_
  have ha := hrows a ((ranked_perm rows).mem_iff.1 ha)
  have hb := hrows b ((ranked_perm rows).mem_iff.1 hb)
  exact (Binary64.le_eq_not_lt hb ha).trans (congrArg (!·) h)

theorem filter_hasAccuracy_ranked (x : Binary64) :
    (ranked rows).filter (·.hasAccuracy x) = rows.filter (·.hasAccuracy x) := by
  by_cases hx : x = .nan
  · have hnone (part : List (ComparisonRow Binary64)) : part.filter (·.hasAccuracy x) = [] :=
      filter_eq_nil_iff.2 fun row _ => by
        rw [hx]
        exact Bool.false_ne_true
    rw [hnone, hnone]
  · have htied (row : ComparisonRow Binary64) (hrow : row ∈ rows) :
        row.hasAccuracy x = tied ⟨[], x, x, 0, 0⟩ row := by
      rw [hasAccuracy, tied]
      exact congrArg₂ (· && ·) (Binary64.le_eq_not_lt hx (hrows row hrow))
        (Binary64.le_eq_not_lt (hrows row hrow) hx)
    rw [filter_congr htied, ← filter_tied_ranked separates_moreAccurate hrows hx]
    exact filter_congr fun row hrow => htied row ((ranked_perm rows).mem_iff.1 hrow)

end Accuracies

end ComparisonRow

namespace ResultComparison

/-- The rows of results, in their order. -/
def rowsOf (results : Named (EvaluationResult Binary64)) : List (ComparisonRow Binary64) :=
  results.map fun entry => .ofResult entry.1 entry.2

/-- What a comparison says of results. -/
structure Ranks (results : Named (EvaluationResult Binary64))
    (comparison : ResultComparison Binary64) : Prop where
  rows_perm : comparison.rows ~ rowsOf results
  rows_falling : comparison.rows.Pairwise fun a b => Quantity.le b.accuracy a.accuracy = true
  /-- The rows of an accuracy keep the order of the results. -/
  rows_stable : ∀ x, comparison.rows.filter (·.hasAccuracy x) =
    (rowsOf results).filter (·.hasAccuracy x)
  best_eq_none_iff : comparison.summary.best = none ↔ results = []
  /-- The best result is the first one of the greatest accuracy. -/
  best : ∀ score, comparison.summary.best = some score →
    ∃ entry, IsFirst (fun e e' => Quantity.lt e'.2.accuracy e.2.accuracy) results entry ∧
      (∀ e ∈ results, Quantity.le e.2.accuracy entry.2.accuracy = true) ∧
      score = ⟨entry.1, entry.2.accuracy⟩
  /-- The best result stands in the first row. -/
  best_eq_head : comparison.summary.best =
    comparison.rows.head?.map fun row => ⟨row.approach, row.accuracy⟩
  fastest_eq_none_iff : comparison.summary.fastest = none ↔ results = []
  /-- The fastest result is the first one of the least time. -/
  fastest : ∀ timing, comparison.summary.fastest = some timing →
    ∃ entry, IsFirst (fun e e' => Quantity.lt e.2.time e'.2.time) results entry ∧
      (∀ e ∈ results, Quantity.le entry.2.time e.2.time = true) ∧
      timing = ⟨entry.1, entry.2.time⟩
  total_eq : comparison.summary.total = ((results.head?.map (·.2.total)).getD 0 : Nat)

section Results

variable {results : Named (EvaluationResult Binary64)}

/-- What is told of the first of the best rows is told of the first of the best results. -/
theorem map_first?_rowsOf {α : Type} {among : ComparisonRow Binary64 → Prop}
    {better : ComparisonRow Binary64 → ComparisonRow Binary64 → Bool}
    (hbetter : Separates among better) (hrows : ∀ row ∈ rowsOf results, among row)
    (told : ComparisonRow Binary64 → α) :
    ((ComparisonRow.first? better (rowsOf results)).map told = none ↔ results = []) ∧
      ∀ a, (ComparisonRow.first? better (rowsOf results)).map told = some a →
        ∃ entry,
          IsFirst (fun e e' => better (.ofResult e.1 e.2) (.ofResult e'.1 e'.2)) results entry ∧
          (∀ e ∈ results, better (.ofResult e.1 e.2) (.ofResult entry.1 entry.2) = false) ∧
          a = told (.ofResult entry.1 entry.2) := by
  rcases ComparisonRow.first?_eq_none_or hbetter hrows with ⟨hnil, hnone⟩ | ⟨row, hsome, hfirst⟩
  · rw [hnone]
    exact ⟨iff_of_true rfl (map_eq_nil_iff.1 hnil), nofun⟩
  · have hbest := hfirst.not_better hbetter hrows
    obtain ⟨entry, hentry, rfl⟩ := hfirst.of_map
    rw [hsome]
    refine ⟨iff_of_false nofun (ne_nil_of_mem hentry.mem), fun a ha => ?_⟩
    exact ⟨entry, hentry, forall_mem_map.1 hbest, (Option.some.inj ha).symm⟩

/-- **Comparisons.** A comparison has one row for each result, by falling accuracy, and those of one
accuracy in the order of the results. It names the first result of the greatest accuracy, which
stands in the first row, and the first one of the least time; of no results it names none. -/
theorem ofResults_ranks (h : ∀ entry ∈ results, entry.2.KeepsBounds) :
    (ofResults results).Ranks results := by
  have haccuracy (entry : Text × EvaluationResult Binary64) (hentry : entry ∈ results) :
      entry.2.accuracy ≠ .nan := Binary64.ne_nan_of_le_right (h entry hentry).zero_le_accuracy
  have htime (entry : Text × EvaluationResult Binary64) (hentry : entry ∈ results) :
      entry.2.time ≠ .nan := Binary64.ne_nan_of_le_right (h entry hentry).zero_le_time
  have hrows : ∀ row ∈ rowsOf results, row.accuracy ≠ .nan := forall_mem_map.2 haccuracy
  obtain ⟨hbestNone, hbest⟩ := map_first?_rowsOf ComparisonRow.separates_moreAccurate hrows
    fun row => (⟨row.approach, row.accuracy⟩ : ApproachScore Binary64)
  obtain ⟨hfastestNone, hfastest⟩ := map_first?_rowsOf ComparisonRow.separates_faster
    (forall_mem_map.2 htime) fun row => (⟨row.approach, row.time⟩ : ApproachTiming Binary64)
  exact {
    rows_perm := ComparisonRow.ranked_perm _
    rows_falling := ComparisonRow.falling_ranked hrows
    rows_stable := ComparisonRow.filter_hasAccuracy_ranked hrows
    best_eq_none_iff := hbestNone
    best := fun score hscore => by
      obtain ⟨entry, hfirst, hall, rfl⟩ := hbest score hscore
      refine ⟨entry, hfirst, fun e he => ?_, rfl⟩
      exact (Binary64.le_eq_not_lt (haccuracy e he) (haccuracy entry hfirst.mem)).trans
        (congrArg (!·) (hall e he))
    best_eq_head := congrArg (Option.map _)
      (ComparisonRow.head?_ranked ComparisonRow.separates_moreAccurate hrows).symm
    fastest_eq_none_iff := hfastestNone
    fastest := fun timing htiming => by
      obtain ⟨entry, hfirst, hall, rfl⟩ := hfastest timing htiming
      refine ⟨entry, hfirst, fun e he => ?_, rfl⟩
      exact (Binary64.le_eq_not_lt (htime entry hfirst.mem) (htime e he)).trans
        (congrArg (!·) (hall e he))
    total_eq := by cases results <;> rfl }

end Results

/-- A named result of a certain accuracy and time. -/
def namedResult (name : String) (accuracy time : Binary64) : Text × EvaluationResult Binary64 :=
  (Text.ofString name,
    { approach := Text.ofString name, predictions := [], accuracy := accuracy, precisions := [],
      recalls := [], means := [], total := 4, correct := 2, time := time, additional := [] })

/-- Two results of one accuracy, and two of one time. -/
def tiedResults : Named (EvaluationResult Binary64) :=
  [namedResult "poor" (Binary64.ofRatio false 1 4) 1,
    namedResult "first" (Binary64.ofRatio false 1 2) 2,
    namedResult "second" (Binary64.ofRatio false 1 2) 1]

/-- Of the results of one accuracy the first one is named and stands first, and the other one comes
after it. -/
theorem ofResults_ranks_tiedResults :
    (∀ entry ∈ tiedResults, entry.2.KeepsBounds) ∧
      (ofResults tiedResults).summary.best.map (·.approach) = some (Text.ofString "first") ∧
      (ofResults tiedResults).summary.fastest.map (·.approach) = some (Text.ofString "poor") ∧
      (ofResults tiedResults).rows.head?.map (·.approach) = some (Text.ofString "first") ∧
      ((ofResults tiedResults).rows.filter (·.hasAccuracy (Binary64.ofRatio false 1 2))).map
        (·.approach) = [Text.ofString "first", Text.ofString "second"] := by
  have hbounds : ∀ entry ∈ tiedResults, entry.2.approach.hasSurrogate = false ∧
      entry.2.approach ≠ [] ∧ Quantity.le entry.2.accuracy ((1 : Nat) : Binary64) = true ∧
      Quantity.le Quantity.zero entry.2.accuracy = true ∧
      Quantity.le Quantity.zero entry.2.time = true := by decide +kernel
  have hkeeps : ∀ entry ∈ tiedResults, entry.2.KeepsBounds := fun entry hentry => by
    obtain ⟨hname, hne, hone, hzero, htime⟩ := hbounds entry hentry
    exact ⟨hname, hne, hone, hzero, htime⟩
  have hranks := ofResults_ranks hkeeps
  have hbest : (ofResults tiedResults).summary.best.map (·.approach) =
      some (Text.ofString "first") := by decide +kernel
  refine ⟨hkeeps, hbest, by decide +kernel, ?_, ?_⟩
  · rw [hranks.best_eq_head, Option.map_map] at hbest
    exact hbest
  · rw [hranks.rows_stable]
    decide +kernel

end ResultComparison

end TypeBench
