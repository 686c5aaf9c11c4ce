import Mathlib.Algebra.BigOperators.Group.Finset.Basic
import Mathlib.Algebra.Order.BigOperators.Group.Finset
import Mathlib.Order.Monotone.Basic
import TypeBench.Proofs.Evaluation.SteadyClock
import TypeBench.Proofs.Evaluation.Tagging
import TypeBench.Proofs.Number.Exact

/-!
# Times of predictions

With exact times, the time of an evaluation is the sum of the times between the two readings around
every prediction. On a steady clock each of these is at least zero, and all of them together are no
more than the time from the first reading to the last one.

## Main definitions

* `Mixed.exact`: a whole or a rational number as a rational one.
* `Clock.shown`, `Clock.around`: what a clock shows at a reading, and the time around a prediction.

## Main results

* `Clock.Steady.monotone_shown`: a steady clock shows times in rising order.
* `CasesRun.time_addAll`: the time of a run over test cases.
* `Clock.Steady.sum_around_le`: it is bounded by the first and the last reading.
-/

namespace TypeBench

/-- A whole or a rational number as a rational one. -/
def Mixed.exact : Mixed ℚ → ℚ
  | .whole i => i
  | .measured x => x

namespace Clock

/-- No exact time is out of range. -/
theorem elapsed_exact (started stopped : Mixed ℚ) :
    elapsed started stopped = .ok (stopped.exact - started.exact) := by
  cases started with
  | measured x => cases stopped <;> rfl
  | whole i =>
    cases stopped with
    | measured y => rfl
    | whole j =>
      change Except.ok ((j - i : Int) : ℚ) = _
      rw [Int.cast_sub]
      rfl

/-- Exact times in rising order are not after each other. -/
theorem notAfter_exact {started stopped : Mixed ℚ} (h : started.exact ≤ stopped.exact) :
    NotAfter started stopped :=
  ⟨_, elapsed_exact started stopped, Exact.le_iff.2 (Exact.zero_eq.trans_le (sub_nonneg.2 h))⟩

theorem later_add {R : Type} (clock : Clock R) (m n : Nat) :
    (clock.later m).later n = clock.later (m + n) := by
  induction m generalizing clock with
  | zero => rw [Nat.zero_add]; rfl
  | succ m ih =>
    rw [Nat.add_right_comm]
    exact ih clock.read.2

/-- What a clock shows at a reading, the first one being number zero. A reading that fails shows
zero. -/
def shown (clock : Clock ℚ) (n : Nat) : ℚ :=
  match (clock.later n).read.1 with
  | .ok time => time.exact
  | .error _ => 0

/-- The time around a prediction: two readings belong to each, one before and one after it. -/
def around (clock : Clock ℚ) (i : Nat) : ℚ := clock.shown (2 * i + 1) - clock.shown (2 * i)

theorem shown_later (clock : Clock ℚ) (m n : Nat) :
    (clock.later m).shown n = clock.shown (m + n) := by
  rw [shown, later_add]
  rfl

theorem shown_of_read {clock : Clock ℚ} {n : Nat} {time : Mixed ℚ} {after : Clock ℚ}
    (h : (clock.later n).read = (.ok time, after)) : clock.shown n = time.exact := by
  rw [shown, h]

theorem around_later_two (clock : Clock ℚ) (i : Nat) :
    (clock.later 2).around i = clock.around (i + 1) := by
  have hbefore : 2 + 2 * i = 2 * (i + 1) := by omega
  have hafter : 2 + (2 * i + 1) = 2 * (i + 1) + 1 := by omega
  rw [around, around, shown_later, shown_later, hbefore, hafter]

namespace Steady

variable {clock : Clock ℚ}

/-- A steady clock shows times in rising order. -/
theorem monotone_shown (h : clock.Steady) : Monotone clock.shown := by
  refine monotone_nat_of_le_succ fun n => ?_
  obtain ⟨started, stopped, hstart, hstop, time, htime, hle⟩ := h n
  have hfirst : clock.shown n = started.exact := by rw [shown, hstart]
  have hsecond : clock.shown (n + 1) = stopped.exact := by
    rw [← shown_later]
    change (match (clock.later n).read.2.read.1 with
      | .ok time => time.exact
      | .error _ => 0) = _
    rw [hstop]
  rw [elapsed_exact] at htime
  have hzero : 0 ≤ time := Exact.zero_eq ▸ Exact.le_iff.1 hle
  have hdifference : stopped.exact - started.exact = time := Except.ok.inj htime
  rw [hfirst, hsecond]
  linarith

theorem zero_le_around (h : clock.Steady) (i : Nat) : 0 ≤ clock.around i :=
  sub_nonneg.2 (h.monotone_shown (Nat.le_succ _))

theorem zero_le_sum_around (h : clock.Steady) (n : Nat) :
    0 ≤ ∑ i ∈ Finset.range n, clock.around i :=
  Finset.sum_nonneg fun i _ => h.zero_le_around i

/-- The times around predictions, up to the first reading for a prediction that is to come. -/
theorem sum_around_le_shown (h : clock.Steady) (n : Nat) :
    ∑ i ∈ Finset.range n, clock.around i ≤ clock.shown (2 * n) - clock.shown 0 := by
  induction n with
  | zero => rw [Finset.sum_range_zero, Nat.mul_zero, sub_self]
  | succ n ih =>
    have hpause : clock.shown (2 * n + 1) ≤ clock.shown (2 * (n + 1)) :=
      h.monotone_shown (by omega)
    calc ∑ i ∈ Finset.range (n + 1), clock.around i
        = ∑ i ∈ Finset.range n, clock.around i + clock.around n := Finset.sum_range_succ ..
      _ ≤ clock.shown (2 * n) - clock.shown 0 + clock.around n := by gcongr
      _ = clock.shown (2 * n + 1) - clock.shown 0 := by rw [around]; ring
      _ ≤ clock.shown (2 * (n + 1)) - clock.shown 0 := by gcongr

/-- All times around predictions together are no more than the time from the first reading to the
last one. -/
theorem sum_around_le (h : clock.Steady) (n : Nat) :
    ∑ i ∈ Finset.range (n + 1), clock.around i ≤ clock.shown (2 * n + 1) - clock.shown 0 := by
  have hearlier := h.sum_around_le_shown n
  rw [Finset.sum_range_succ, around]
  linarith

end Steady

end Clock

/-! ### Runs over test cases -/

section Run

variable {A : Type} [Approach A] {a a' : A} {clock clock' : Clock ℚ}

/-- A completed test case takes two readings of the clock, and the time between them. -/
theorem CompletesCase.time_eq {done : CompletedCase ℚ} (h : CompletesCase a clock done a' clock') :
    done.time = clock.around 0 ∧ clock' = clock.later 2 := by
  cases h with
  | @intro case predictions started stopped time clock₁ _ hstart _ hstop htime =>
    have hread : (clock.later 1).read = (.ok stopped, clock') := by
      change clock.read.2.read = _
      rw [hstart]
      exact hstop
    have hstarted : clock.shown 0 = started.exact := Clock.shown_of_read hstart
    have hstopped : clock.shown 1 = stopped.exact := Clock.shown_of_read hread
    rw [Clock.elapsed_exact] at htime
    constructor
    · change time = clock.shown 1 - clock.shown 0
      rw [hstarted, hstopped]
      exact (Except.ok.inj htime).symm
    · change clock' = (clock.later 1).read.2
      rw [hread]

/-- The times of completed test cases are the times around their predictions. -/
theorem CasesRun.sum_time {cases : List TestCase} {done : List (CompletedCase ℚ)}
    {last? : Option BrokenCase} (h : CasesRun a clock cases done last? a' clock') :
    (done.map (·.time)).sum = ∑ i ∈ Finset.range done.length, clock.around i := by
  induction h with
  | nil => rfl
  | broken => rfl
  | @completed a₀ a₁ _ clock₀ clock₁ _ first _ done _ hfirst _ ih =>
    obtain ⟨htime, rfl⟩ := hfirst.time_eq
    have hrest : ∑ i ∈ Finset.range done.length, (clock₀.later 2).around i =
        ∑ i ∈ Finset.range done.length, clock₀.around (i + 1) :=
      Finset.sum_congr rfl fun i _ => clock₀.around_later_two i
    rw [List.map_cons, List.sum_cons, List.length_cons, Finset.sum_range_succ', ih, htime, hrest,
      add_comm]

/-- The time that is collected over test cases. -/
theorem CaseTally.time_addAll (done : List (CompletedCase ℚ)) :
    (CaseTally.empty.addAll done).time = (done.map (·.time)).sum := by
  have hfold (time : ℚ) :
      done.foldl (fun time c => time + c.time) time = time + (done.map (·.time)).sum := by
    induction done generalizing time with
    | nil => rw [List.map_nil, List.sum_nil, add_zero]; rfl
    | cons first done ih => rw [List.foldl_cons, ih, List.map_cons, List.sum_cons, add_assoc]
  rw [addAll_eq]
  refine (hfold _).trans ?_
  change Quantity.zero + _ = _
  rw [Exact.zero_eq, zero_add]

/-- **The time of an evaluation.** What is collected over test cases is the sum of the times around
their predictions. -/
theorem CasesRun.time_addAll {cases : List TestCase} {done : List (CompletedCase ℚ)}
    {last? : Option BrokenCase} (h : CasesRun a clock cases done last? a' clock') :
    (CaseTally.empty.addAll done).time = ∑ i ∈ Finset.range done.length, clock.around i := by
  rw [CaseTally.time_addAll, h.sum_time]

end Run

end TypeBench
