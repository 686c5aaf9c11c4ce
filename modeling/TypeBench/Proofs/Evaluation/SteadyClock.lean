import TypeBench.Evaluation.Clock
import TypeBench.Proofs.Number.NonNegative

/-!
# Steady clocks

A steady clock fails at no reading and never goes back. Its readings need not be a fixed distance
apart, and two steady clocks may have nothing else in common. A clock whose readings are finite
numbers in rising order is steady.

## Main definitions

* `Clock.NotAfter`: a reading and a later one, with a time between them that is not negative.
* `Clock.Steady`: a clock that fails at no reading and never goes back.

## Main results

* `Clock.Steady.read_twice`: two readings of a steady clock, and the time between them.
* `Clock.steady_ofReadings`: finite readings in rising order make a steady clock.
-/

namespace TypeBench

namespace Clock

variable {R : Type} [Quantity R]

/-- A reading is not after another one: the time between them can be taken and is not negative. -/
def NotAfter (started stopped : Mixed R) : Prop :=
  ∃ time, elapsed started stopped = .ok time ∧ Quantity.le Quantity.zero time = true

omit [Quantity R] in
/-- The clock after a number of readings. -/
def later (clock : Clock R) : Nat → Clock R
  | 0 => clock
  | n + 1 => clock.read.2.later n

/-- Every reading succeeds and is not after the next one. -/
def Steady (clock : Clock R) : Prop :=
  ∀ n, ∃ started stopped, (clock.later n).read.1 = .ok started ∧
    (clock.later n).read.2.read.1 = .ok stopped ∧ NotAfter started stopped

/-- A clock is steady if its first two readings are in order and it is steady from the second one
on. -/
theorem steady_iff {clock : Clock R} :
    clock.Steady ↔
      (∃ started stopped, clock.read.1 = .ok started ∧ clock.read.2.read.1 = .ok stopped ∧
        NotAfter started stopped) ∧ clock.read.2.Steady := by
  refine ⟨fun h => ⟨h 0, fun n => h (n + 1)⟩, fun ⟨hfirst, hlater⟩ n => ?_⟩
  cases n with
  | zero => exact hfirst
  | succ n => exact hlater n

theorem Steady.read {clock : Clock R} (h : clock.Steady) : clock.read.2.Steady :=
  (steady_iff.1 h).2

/-- Two readings of a steady clock, and the time between them. -/
theorem Steady.read_twice {clock : Clock R} (h : clock.Steady) :
    ∃ (started stopped : Mixed R) (time : R) (clock₁ clock₂ : Clock R),
      clock.read = (.ok started, clock₁) ∧ clock₁.read = (.ok stopped, clock₂) ∧
        elapsed started stopped = .ok time ∧ Quantity.le Quantity.zero time = true ∧
        clock₂.Steady := by
  obtain ⟨started, stopped, hstart, hstop, time, htime, hle⟩ := (steady_iff.1 h).1
  exact ⟨started, stopped, time, clock.read.2, clock.read.2.read.2, Prod.ext hstart rfl,
    Prod.ext hstop rfl, htime, hle, h.read.read⟩

/-! ### Finite readings in rising order -/

theorem elapsed_whole (i j : Int) :
    elapsed (.whole i : Mixed R) (.whole j) = Mixed.quantity (.whole (j - i)) := rfl

theorem notAfter_measured {x y : Binary64} (hx : x.isFinite) (hy : y.isFinite)
    (h : Binary64.le x y = true) : NotAfter (.measured x) (.measured y) :=
  ⟨y - x, elapsed_measured x y, Binary64.zero_le_sub hx hy h⟩

/-- A clock that goes on showing one time is steady. -/
theorem steady_of_notAfter_self {last : Mixed R} (h : NotAfter last last) :
    (⟨[], last⟩ : Clock R).Steady := by
  intro n
  have hlater : (⟨[], last⟩ : Clock R).later n = ⟨[], last⟩ := by
    induction n with
    | zero => rfl
    | succ n ih => exact ih
  rw [hlater]
  exact ⟨last, last, rfl, rfl, h⟩

/-- The readings of a clock that shows measured times. -/
def measuredReadings (times : List Binary64) : List (ClockReading Binary64) :=
  times.map fun x => .time (.measured x)

theorem steady_of_pairwise {x : Binary64} {rest : List Binary64}
    (hfinite : ∀ y ∈ x :: rest, y.isFinite)
    (hrising : (x :: rest).Pairwise (Binary64.le · · = true)) (last : Mixed Binary64) :
    (⟨measuredReadings (x :: rest), last⟩ : Clock Binary64).Steady := by
  induction rest generalizing x last with
  | nil =>
    have hx := hfinite x List.mem_cons_self
    have hself : NotAfter (.measured x) (.measured x) :=
      notAfter_measured hx hx (Binary64.le_refl hx)
    exact steady_iff.2 ⟨⟨_, _, rfl, rfl, hself⟩, steady_of_notAfter_self hself⟩
  | cons y rest ih =>
    obtain ⟨hle, hrest⟩ := List.pairwise_cons.1 hrising
    obtain ⟨hx, hfinite'⟩ := List.forall_mem_cons.1 hfinite
    refine steady_iff.2 ⟨⟨.measured x, .measured y, rfl, rfl, ?_⟩, ih hfinite' hrest _⟩
    exact notAfter_measured hx (hfinite' y List.mem_cons_self) (hle y List.mem_cons_self)

/-- Finite readings in rising order make a steady clock. -/
theorem steady_ofReadings {times : List Binary64} (hfinite : ∀ x ∈ times, x.isFinite)
    (hrising : times.Pairwise (Binary64.le · · = true)) :
    (ofReadings (measuredReadings times)).Steady := by
  cases times with
  | nil =>
    have hzero : Quantity.ofInt? 0 = some (Binary64.zero false) := by decide +kernel
    have hself : NotAfter (.whole 0 : Mixed Binary64) (.whole 0) := by
      refine ⟨.zero false, ?_, by decide +kernel⟩
      rw [elapsed_whole, Int.sub_self]
      exact Mixed.quantity_whole hzero
    exact steady_of_notAfter_self hself
  | cons x rest => exact steady_of_pairwise hfinite hrising _

end Clock

end TypeBench
