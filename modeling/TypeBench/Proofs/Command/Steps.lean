import TypeBench.Command.Transcript
import TypeBench.Proofs.Report.Lines
import TypeBench.Proofs.Report.LogLines

/-!
# Steps of commands

A step of a command adds to what was printed, and a step that only prints leaves the files as they
are. Texts without lone surrogates are always printed. A command that ends early for a failure ends
with the exit code 1, whether or not its last words can be printed.

## Main definitions

* `Ending.IsFailure`: the endings with the exit code 1.

## Main results

* `CommandStep.printAll_of_plain`, `CommandStep.logAll_of_check`: lines that can be printed.
* `CommandStep.exists_logAll`: what is left of lines of the log in any case.
* `CommandStep.conclude_error`: how a command ends early.
-/

namespace TypeBench

/-! ### Transcripts -/

namespace Transcript

variable (t : Transcript) (printed more : List Printed)

@[simp] theorem add_nil : t.add [] = t := by
  rw [add, List.append_nil]

@[simp] theorem add_add : (t.add printed).add more = t.add (printed ++ more) := by
  rw [add, add, List.append_assoc]
  rfl

theorem text_add : (t.add printed).text = t.text ++ text { t with printed := printed } :=
  List.flatMap_append

theorem log_add : (t.add printed).log = t.log ++ log { t with printed := printed } :=
  List.filterMap_append

@[simp] theorem text_add_log (lines : List LogLine) : (t.add (lines.map .log)).text = t.text := by
  have hnone : text { t with printed := lines.map .log } = [] := by
    refine List.flatMap_eq_nil_iff.2 fun entry hentry => ?_
    obtain ⟨line, -, rfl⟩ := List.mem_map.1 hentry
    rfl
  rw [text_add, hnone, List.append_nil]

@[simp] theorem log_add_log (lines : List LogLine) :
    (t.add (lines.map .log)).log = t.log ++ lines := by
  have hall : log { t with printed := lines.map .log } = lines := by
    rw [log, List.filterMap_map]
    exact List.filterMap_some
  rw [log_add, hall]

@[simp] theorem text_add_text (texts : List Text) :
    (t.add (texts.map .text)).text = t.text ++ texts.flatten := by
  have hall : text { t with printed := texts.map .text } = texts.flatten := by
    rw [text, List.flatMap_map]
    exact List.flatMap_id'
  rw [text_add, hall]

@[simp] theorem log_add_text (line : Text) : (t.add [.text line]).log = t.log := by
  rw [log_add]
  exact List.append_nil _

/-- The transcript of a command that has only printed lines of the log. -/
def ofLog (files : FileTree) (format : LogFormat) (lines : List LogLine) : Transcript :=
  ⟨files, lines.map .log, format⟩

@[simp] theorem add_ofLog (files : FileTree) (format : LogFormat) (lines more : List LogLine) :
    (ofLog files format lines).add (more.map .log) = ofLog files format (lines ++ more) := by
  rw [ofLog, ofLog, List.map_append]
  rfl

theorem text_ofLog (files : FileTree) (format : LogFormat) (lines : List LogLine) :
    (ofLog files format lines).text = [] :=
  text_add_log ⟨files, [], format⟩ lines

theorem log_ofLog (files : FileTree) (format : LogFormat) (lines : List LogLine) :
    (ofLog files format lines).log = lines :=
  log_add_log ⟨files, [], format⟩ lines

theorem files_of_print {hasStyles : Bool} {line : Text} {t t' : Transcript}
    (h : t.print hasStyles line = .ok t') : t'.files = t.files := by
  rw [print] at h
  split at h
  · obtain rfl := Except.ok.inj h
    rfl
  · cases h

end Transcript

/-- The endings with the exit code 1. -/
def Ending.IsFailure (ending : Ending) : Prop := CommandStep.exitCode ending = 1

namespace CommandStep

variable {α β : Type} {t t' : Transcript}

theorem bind_of_ok {x : CommandStep α} {a : α} (h : x t = .ok a t') (f : α → CommandStep β) :
    (x >>= f) t = f a t' := by
  change EStateM.bind x f t = f a t'
  rw [EStateM.bind, h]

theorem bind_of_error {x : CommandStep α} {ending : Ending} (h : x t = .error ending t')
    (f : α → CommandStep β) : (x >>= f) t = .error ending t' := by
  change EStateM.bind x f t = .error ending t'
  rw [EStateM.bind, h]

theorem files_bind (f : FileTree → CommandStep β) : (files >>= f) t = f t.files t := rfl

theorem logFormat_bind (f : LogFormat → CommandStep β) :
    (logFormat >>= f) t = f t.logFormat t := rfl

/-! ### Printing -/

theorem print_of_plain {hasStyles : Bool} {line : Text} (h : line.hasSurrogate = false) :
    print hasStyles line t = .ok () (t.add [.text (Console.printed hasStyles line)]) := by
  rw [print, Transcript.print, Utf8.encode_eq_ok (Console.hasSurrogate_printed hasStyles h)]

/-- Lines without lone surrogates are printed. -/
theorem printAll_of_plain {hasStyles : Bool} {lines : List Text}
    (h : ∀ line ∈ lines, line.hasSurrogate = false) :
    printAll hasStyles lines t =
      .ok () (t.add ((lines.map (Console.printed hasStyles)).map .text)) := by
  induction lines generalizing t with
  | nil =>
    rw [List.map_nil, List.map_nil, Transcript.add_nil]
    rfl
  | cons line rest ih =>
    obtain ⟨hline, hrest⟩ := List.forall_mem_cons.1 h
    rw [printAll, bind_of_ok (print_of_plain hline), ih hrest, Transcript.add_add]
    rfl

/-! ### The log -/

theorem log_of_check {now : Timestamp} {line : LogLine}
    (h : t.logFormat.check now line = .ok ()) : log now line t = .ok () (t.add [.log line]) := by
  rw [log, h]

/-- Lines of the log are printed if they can be. -/
theorem logAll_of_check {now : Timestamp} {lines : List LogLine}
    (h : ∀ line ∈ lines, t.logFormat.check now line = .ok ()) :
    logAll now lines t = .ok () (t.add (lines.map .log)) := by
  induction lines generalizing t with
  | nil =>
    rw [List.map_nil, Transcript.add_nil]
    rfl
  | cons line rest ih =>
    obtain ⟨hline, hrest⟩ := List.forall_mem_cons.1 h
    have hlater := ih (t := t.add [.log line]) hrest
    rw [Transcript.add_add] at hlater
    rw [logAll, bind_of_ok (log_of_check hline)]
    exact hlater

/-- In any case the lines before the first that cannot be printed are. -/
theorem exists_logAll (now : Timestamp) (lines : List LogLine) (t : Transcript) :
    ∃ done, done <+: lines ∧
      (logAll now lines t = .ok () (t.add (done.map .log)) ∨
        ∃ failure, logAll now lines t =
          .error (.halted (.failed failure)) (t.add (done.map .log))) := by
  induction lines generalizing t with
  | nil => exact ⟨[], List.prefix_rfl, .inl (by rw [List.map_nil, Transcript.add_nil]; rfl)⟩
  | cons line rest ih =>
    cases hcheck : t.logFormat.check now line with
    | error failure =>
      refine ⟨[], List.nil_prefix, .inr ⟨failure, ?_⟩⟩
      have hlog : log now line t = .error (.halted (.failed failure)) t := by
        rw [log, hcheck]
        rfl
      rw [logAll, bind_of_error hlog, List.map_nil, Transcript.add_nil]
    | ok _ =>
      obtain ⟨done, hdone, hrest⟩ := ih (t.add [.log line])
      refine ⟨line :: done, (List.prefix_cons_inj line).2 hdone, ?_⟩
      rw [logAll, bind_of_ok (log_of_check hcheck)]
      rwa [Transcript.add_add] at hrest

/-! ### Endings -/

/-- A command that ends early keeps its files and its log, and its exit code tells of it. -/
theorem conclude_error (hasStyles : Bool) (interrupted : Text) (ending : Ending) (t : Transcript) :
    (conclude hasStyles interrupted (.error ending t)).1 = exitCode ending ∧
      (conclude hasStyles interrupted (.error ending t)).2.files = t.files ∧
      (conclude hasStyles interrupted (.error ending t)).2.log = t.log := by
  rw [conclude]
  cases lastWords? interrupted ending with
  | none => exact ⟨rfl, rfl, rfl⟩
  | some words =>
    refine ⟨rfl, ?_⟩
    dsimp only
    rw [Transcript.print]
    cases Utf8.encode (Console.printed hasStyles words) with
    | error run => exact ⟨rfl, rfl⟩
    | ok bytes => exact ⟨rfl, t.log_add_text _⟩

end CommandStep

end TypeBench
