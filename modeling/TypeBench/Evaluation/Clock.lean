import TypeBench.Approach.Basic
import TypeBench.Number.Mixed

/-!
# Clocks

Times are read from a clock. A reading may fail, and an interrupt may arrive at one. A clock may
show whole numbers of seconds, and the time between two of those is exact before it is rounded.

## Main definitions

* `ClockReading`, `Clock`: the readings to come, and the last time that was read.
* `Clock.read`: the next reading.
* `Clock.elapsed`: the time between two readings.
-/

namespace TypeBench

/-- What happens at a reading of a clock. -/
inductive ClockReading (R : Type) where
  | time (seconds : Mixed R)
  | failure (message : Text)
  | interrupt
  deriving DecidableEq

/-- A clock: the readings to come, and the time that it goes on showing after them. -/
structure Clock (R : Type) where
  readings : List (ClockReading R)
  last : Mixed R

namespace Clock

variable {R : Type}

/-- A clock that has not been read. -/
def ofReadings (readings : List (ClockReading R)) : Clock R := ⟨readings, .zero⟩

/-- The next reading, and the clock after it. -/
def read (clock : Clock R) : Except Halt (Mixed R) × Clock R :=
  match clock.readings with
  | [] => (.ok clock.last, clock)
  | .time seconds :: rest => (.ok seconds, ⟨rest, seconds⟩)
  | .failure message :: rest =>
    (.error (.failed (.raised message)), { clock with readings := rest })
  | .interrupt :: rest => (.error .interrupted, { clock with readings := rest })

/-- The time between two readings. -/
def elapsed [Quantity R] (started stopped : Mixed R) : Except RangeFault R :=
  (stopped.sub started).bind Mixed.quantity

theorem elapsed_measured [Quantity R] (x y : R) :
    elapsed (.measured x) (.measured y) = .ok (y - x) := rfl

end Clock

end TypeBench
