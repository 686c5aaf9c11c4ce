import TypeBench.Proofs.Approach.PlainLabels
import TypeBench.Proofs.Evaluation.Watching
import TypeBench.Proofs.Validation.Problems

/-!
# Reasons of failures

On a console the reason of a failure is a text, which has to be printed when the failure is told.
All reasons are made of words, names and numbers, apart from what the clock and the parser say.
Where these have no lone surrogates, and the tags of the names fit, the watch of a command fails at
no failure that it is told of. So every approach is evaluated, whatever became of the others.

## Main definitions

* `Halt.IsPlain`: a failure whose reason has no lone surrogates, and no interrupt.
* `Clock.IsPlain`: a clock that fails in this way only.
* `Session.IsWatched`, `World.IsWatched`: what a command watches, by such a clock and with such
  names.

## Main results

* `Session.stepInvariant_isWatched`: every step keeps this, and fails for such a reason.
* `Bench.evaluateNames_watched`: evaluations one after the other come to results.
-/

namespace TypeBench

open LogEntry Markup ParsingBaseline

/-- A failure whose reason has no lone surrogates, and no interrupt. -/
def Halt.IsPlain (halt : Halt) : Prop :=
  ∃ failure, halt = .failed failure ∧ failure.message.hasSurrogate = false

theorem Halt.isPlain_failed {failure : Failure} (h : failure.message.hasSurrogate = false) :
    (Halt.failed failure).IsPlain :=
  ⟨failure, rfl, h⟩

/-! ### Clocks -/

/-- No interrupt arrives at a reading of a clock, and its failures have no lone surrogates. -/
structure Clock.IsPlain {R : Type} (clock : Clock R) : Prop where
  neverInterrupts : clock.NeverInterrupts
  failures : ∀ message, ClockReading.failure message ∈ clock.readings →
    message.hasSurrogate = false

theorem Clock.IsPlain.of_cons {R : Type} {reading : ClockReading R} {rest : List (ClockReading R)}
    {last : Mixed R} (h : Clock.IsPlain ⟨reading :: rest, last⟩) (last' : Mixed R) :
    Clock.IsPlain ⟨rest, last'⟩ where
  neverInterrupts hmem := h.neverInterrupts (List.mem_cons_of_mem _ hmem)
  failures message hmem := h.failures message (List.mem_cons_of_mem _ hmem)

theorem Clock.IsPlain.read {R : Type} {clock : Clock R} (h : clock.IsPlain) :
    clock.read.2.IsPlain ∧ ∀ halt, clock.read.1 = .error halt → halt.IsPlain := by
  obtain ⟨readings, last⟩ := clock
  rcases readings with _ | ⟨seconds | message | _, rest⟩
  · exact ⟨h, nofun⟩
  · exact ⟨h.of_cons seconds, nofun⟩
  · refine ⟨h.of_cons last, fun halt hhalt => ?_⟩
    rw [← Except.error.inj hhalt]
    exact Halt.isPlain_failed (h.failures message List.mem_cons_self)
  · exact absurd List.mem_cons_self h.neverInterrupts

/-! ### Single evaluations -/

variable {format : LogFormat} {now : Timestamp} {parser : SourceParser} {name : Text}
  {options : Options} {optionsOf : Text → Options}

namespace Session

/-- What a command watches: a baseline of a name, by a clock that fails in plain words only, after
starts of approaches whose tags fit. -/
structure IsWatched (format : LogFormat) (now : Timestamp) (parser : SourceParser) (name : Text)
    (s : Session Binary64 ParsingBaseline) : Prop where
  observer : s.observer = format.watch now
  clock : s.clock.IsPlain
  approach : IsPlain parser name s.registration.approach
  started : ∀ other ∈ started s.log, Tag.fault? other = none

/-- A call keeps this, if its reply keeps the baseline and ends early for a plain reason only. -/
theorem IsWatched.call {α : Type} {c : Call} {answer : ParsingBaseline → Reply ParsingBaseline α}
    (h : ∀ a, IsPlain parser name a → IsPlain parser name (answer a).approach ∧
      ∀ halt, (answer a).outcome = .error halt → halt.IsPlain) :
    Keeps (IsWatched format now parser name) Halt.IsPlain (call c answer) := by
  refine .call fun s hs => ?_
  obtain ⟨happroach, hends⟩ := h s.registration.approach hs.approach
  refine ⟨⟨hs.observer, hs.clock, happroach, ?_⟩, hends⟩
  rw [started_afterCall]
  exact hs.started

/-- Telling an event keeps this, if it is no start of an approach whose tags do not fit. -/
theorem IsWatched.tell {e : EvaluationEvent Binary64}
    (h : ∀ other ∈ e.started?.toList, Tag.fault? other = none) :
    Keeps (IsWatched format now parser name) Halt.IsPlain (tell e) := by
  refine .tell_of fun s hs => ?_
  have hnames : ∀ other ∈ LogEntry.started s.log ++ e.started?.toList, Tag.fault? other = none :=
    List.forall_mem_append.2 ⟨hs.started, h⟩
  refine ⟨⟨hs.observer, hs.clock, hs.approach, ?_⟩, fun failure hfailure => ?_⟩
  · rw [record, started_append, started_singleton]
    exact hnames
  · rw [hs.observer] at hfailure
    exact Halt.isPlain_failed (LogFormat.hasSurrogate_of_watch hfailure hnames)

/-- Every step of the test cases keeps this, and fails for a plain reason. -/
theorem stepInvariant_isWatched (hname : name.hasSurrogate = false) :
    StepInvariant name (IsWatched format now parser name) Halt.IsPlain where
  tell e he := IsWatched.tell (by rw [he]; exact nofun)
  readClock := .readClock fun s hs => ⟨⟨hs.observer, hs.clock.read.1, hs.approach, hs.started⟩,
    hs.clock.read.2⟩
  call source file := by
    refine IsWatched.call fun a ha => ⟨?_, fun halt hhalt => ?_⟩
    · exact ha.of_setup_eq (Baseline.setup_predict a.parser source (some file) a.baseline) rfl
    · obtain ⟨predictions, hok⟩ := a.baseline.exists_outcome_predict a.parser source (some file)
      cases hok.symm.trans hhalt
  range fault := Halt.isPlain_failed (Text.hasSurrogate_ofString _)
  undisposed failure h := by
    obtain ⟨_, hfailure, hmessage⟩ := h
    obtain rfl := Halt.failed.inj hfailure
    refine Halt.isPlain_failed ?_
    change (BenchError.undisposed name failure.message).message.hasSurrogate = false
    simp [BenchError.message, hname, hmessage]

/-- An evaluation that a command watches fails for a plain reason. -/
theorem evaluate_watched {s : Session Binary64 ParsingBaseline}
    (hs : s.IsWatched format now parser name) (hname : name.hasSurrogate = false)
    (hfault : Tag.fault? name = none) (hoptions : Baseline.GivesPlainLabels options)
    (hready : ∀ failure, parser.ready = .error failure → failure.message.hasSurrogate = false)
    (policy : ScoringPolicy) (cases : List TestCase) :
    Kept (IsWatched format now parser name) Halt.IsPlain
      (evaluate policy name cases options s) := by
  have hconfigure : Keeps (IsWatched format now parser name) Halt.IsPlain (configure options) := by
    refine IsWatched.call fun a ha => ⟨ha.configure hoptions, fun halt hhalt => ?_⟩
    obtain ⟨failure, rfl, hfailure | hmessage⟩ := ha.configure_failure hname hhalt
    · exact Halt.isPlain_failed (hready failure hfailure)
    · exact Halt.isPlain_failed hmessage
  have hdispose : Keeps (IsWatched format now parser name) Halt.IsPlain dispose :=
    IsWatched.call fun a ha => ⟨ha.of_setup_eq rfl rfl, nofun⟩
  have hstart : Keeps (IsWatched format now parser name) Halt.IsPlain
      (tell (.evaluationStarted name cases.length)) := by
    refine IsWatched.tell fun other hother => ?_
    obtain rfl := List.mem_singleton.1 hother
    exact hfault
  refine (stepInvariant_isWatched hname).evaluate (fun t report hreport => ?_) hconfigure hdispose
    (hstart s hs)
  exact Halt.isPlain_failed (EvaluationResult.hasSurrogate_of_accept hreport)

end Session

/-! ### Evaluations one after the other -/

/-- What a command watches between evaluations. -/
structure World.IsWatched (format : LogFormat) (now : Timestamp) (w : World Binary64) : Prop where
  observer : w.observer = format.watch now
  clock : w.clock.IsPlain
  started : ∀ name ∈ LogEntry.started w.log, Tag.fault? name = none

/-- Failures are told without a failure. -/
theorem World.IsWatched.tell_failed {w : World Binary64} (h : w.IsWatched format now)
    (hname : name.hasSurrogate = false) {reason : Text} (hreason : reason.hasSurrogate = false) :
    w.tell (.evaluationFailed name reason) = .ok () ∧
      (w.record (.evaluationFailed name reason)).IsWatched format now := by
  refine ⟨?_, h.observer, h.clock, ?_⟩
  · rw [World.tell, h.observer]
    exact LogFormat.watch_of_isPlain (EvaluationEvent.isPlain_evaluationFailed hname hreason) rfl
      format
  · rw [World.record, started_append, started_event rfl, List.append_nil]
    exact h.started

namespace Bench

variable {bench : Bench ParsingBaseline} {w : World Binary64}

/-- An evaluation of a name fails for a plain reason. -/
theorem evaluate_watched (hbench : Holds (IsPlain parser) optionsOf bench)
    (hw : w.IsWatched format now) (hname : name.hasSurrogate = false)
    (hfault : Tag.fault? name = none) (hoptions : Baseline.GivesPlainLabels (optionsOf name))
    (hready : ∀ failure, parser.ready = .error failure → failure.message.hasSurrogate = false)
    (cases : List TestCase) :
    (bench.evaluate w name cases (optionsOf name)).world.IsWatched format now ∧
      ∀ halt, (bench.evaluate w name cases (optionsOf name)).outcome = .error halt →
        halt.IsPlain := by
  rw [evaluate]
  cases hfind : bench.find? name with
  | none =>
    refine ⟨hw, fun halt hhalt => ?_⟩
    rw [← Except.error.inj hhalt]
    exact Halt.isPlain_failed (by simp [Failure.message, BenchError.message, hname])
  | some registration =>
    have hs : Session.IsWatched format now parser name
        ⟨registration, w.clock, w.observer, w.log⟩ :=
      ⟨hw.observer, hw.clock, hbench.registered name registration hfind, hw.started⟩
    have hkept := Session.evaluate_watched hs hname hfault hoptions hready bench.policy cases
    dsimp only
    cases hrun : Session.evaluate bench.policy name cases (optionsOf name)
        ⟨registration, w.clock, w.observer, w.log⟩ with
    | ok result s =>
      rw [hrun] at hkept
      refine ⟨⟨hkept.observer, hkept.clock, hkept.started⟩, fun halt hhalt => ?_⟩
      cases hhalt
    | error halt s =>
      rw [hrun] at hkept
      refine ⟨⟨hkept.1.observer, hkept.1.clock, hkept.1.started⟩, fun halt' hhalt' => ?_⟩
      rw [← Except.error.inj hhalt']
      exact hkept.2

/-- Evaluations one after the other come to results, whichever of them fail. -/
theorem evaluateNames_watched (hbench : Holds (IsPlain parser) optionsOf bench)
    (hw : w.IsWatched format now) {names : List Text}
    (hnames : ∀ name ∈ names, name.hasSurrogate = false ∧ Tag.fault? name = none)
    (hoptions : ∀ name, Baseline.GivesPlainLabels (optionsOf name))
    (hready : ∀ failure, parser.ready = .error failure → failure.message.hasSurrogate = false)
    (cases : List TestCase) :
    ∃ results, (evaluateNames cases optionsOf names bench w).outcome = .ok results := by
  induction names generalizing bench w with
  | nil => exact ⟨[], rfl⟩
  | cons name rest ih =>
    obtain ⟨⟨hname, hfault⟩, hrest⟩ := List.forall_mem_cons.1 hnames
    obtain ⟨hworld, hends⟩ := evaluate_watched hbench hw hname hfault (hoptions name) hready cases
    have hholds := hbench.evaluate w name cases
    rw [evaluateNames]
    generalize bench.evaluate w name cases (optionsOf name) = turn at hworld hends hholds
    obtain ⟨(failure | _) | result, bench', w'⟩ := turn
    · obtain ⟨_, hfailure, hmessage⟩ := hends _ rfl
      obtain rfl := Halt.failed.inj hfailure
      obtain ⟨htell, hrecord⟩ := hworld.tell_failed hname hmessage
      dsimp only
      rw [htell]
      exact ih hholds hrecord hrest
    · obtain ⟨failure, hfailure, -⟩ := hends _ rfl
      cases hfailure
    · obtain ⟨results, hresults⟩ := ih hholds hworld hrest
      refine ⟨(name, result) :: results, ?_⟩
      dsimp only
      rw [hresults]
      rfl

end Bench

end TypeBench
