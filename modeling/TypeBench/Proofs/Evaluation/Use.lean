import TypeBench.Proofs.Evaluation.Disposal

/-!
# Uses of an approach

An evaluation does nothing to its approach but set it up with its options, call it for predictions
and dispose of it, in an order that depends on the clock and the observer. So what these calls keep
is kept by every evaluation, whether or not it comes to a result.

## Main definitions

* `Approach.Used`: an approach after calls with given options.
* `Approach.Interlude`: an approach after calls from outside, and after evaluations with given
  options.

## Main results

* `Session.evaluate_used`, `Bench.exists_used`: an evaluation uses its approach.
* `Approach.Interlude.used`: so does whatever happens in an interlude.
-/

namespace TypeBench

/-- An approach after calls that set it up with given options, ask it for predictions or dispose
of it. -/
inductive Approach.Used {A : Type} [Approach A] (options : Options) (a : A) : A → Prop
  | refl : Used options a a
  | configure {a' : A} (h : Used options a a') :
      Used options a (Approach.configure options a').approach
  | predict {a' : A} (h : Used options a a') (source file : Text) :
      Used options a (Approach.predict source file a').approach
  | dispose {a' : A} (h : Used options a a') : Used options a (Approach.dispose a').approach

theorem Approach.Used.trans {A : Type} [Approach A] {options : Options} {a b c : A}
    (h : Used options a b) (h' : Used options b c) : Used options a c := by
  induction h' with
  | refl => exact h
  | configure _ ih => exact ih.configure
  | predict _ source file ih => exact ih.predict source file
  | dispose _ ih => exact ih.dispose

namespace Session

variable {R A : Type} [Approach A] {options : Options} {a : A}

/-- All steps over test cases use the approach. -/
theorem caseInvariant_used :
    CaseInvariant (R := R) (fun s => Approach.Used options a s.registration.approach)
      fun _ => True where
  failed _ := trivial
  tell _ := .tell (fun _ => trivial) fun _ h => h
  readClock := .readClock fun _ h => ⟨h, fun _ _ => trivial⟩
  call source file := .call fun _ h => ⟨h.predict source file, fun _ _ => trivial⟩

theorem dispose_used :
    Keeps (R := R) (fun s => Approach.Used options a s.registration.approach) (fun _ => True)
      dispose :=
  .call fun _ h => ⟨h.dispose, fun _ _ => trivial⟩

/-- **Use in an evaluation.** Whatever comes of an evaluation, its approach was only used. -/
theorem evaluate_used [Quantity R] (policy : ScoringPolicy) (name : Text) (cases : List TestCase)
    (options : Options) (s : Session R A) :
    Approach.Used options s.registration.approach
      (left (evaluate policy name cases options s)).registration.approach := by
  have hconfigure : Keeps (R := R)
      (fun s' => Approach.Used options s.registration.approach s'.registration.approach)
      (fun _ => True) (configure options) :=
    .call fun _ h => ⟨h.configure, fun _ _ => trivial⟩
  exact (caseInvariant_used.evaluate hconfigure dispose_used policy name cases).left .refl

end Session

namespace Bench

variable {R A : Type}

theorem bench_turnOf (bench : Bench A) (name : Text) {α : Type}
    (result : EStateM.Result Halt (Session R A) α) :
    (bench.turnOf name result).bench = bench.keep name (Session.left result).registration := by
  cases result <;> rfl

/-- An evaluation uses the approach of its name, and keeps it under the name. -/
theorem exists_used [Quantity R] [Approach A] {bench : Bench A} {name : Text} {r : Registration A}
    (hfind : bench.find? name = some r) (w : World R) (cases : List TestCase)
    (options : Options) :
    ∃ r', (bench.evaluate w name cases options).bench.find? name = some r' ∧
      Approach.Used options r.approach r'.approach := by
  refine ⟨_, ?_, Session.evaluate_used bench.policy name cases options
    ⟨r, w.clock, w.observer, w.log⟩⟩
  rw [evaluate, hfind]
  dsimp only
  rw [bench_turnOf]
  exact (Named.lookup_put ..).trans (if_pos rfl)

end Bench

/-- An approach after calls for predictions, disposals and evaluations with given options, in any
order. The evaluations may be of any test cases, under any name and policy, and may end in any
way. -/
inductive Approach.Interlude {A : Type} [Approach A] (R : Type) [Quantity R] (options : Options)
    (a : A) : A → Prop
  | refl : Interlude R options a a
  | predict {a' : A} (h : Interlude R options a a') (source file : Text) :
      Interlude R options a (Approach.predict source file a').approach
  | dispose {a' : A} (h : Interlude R options a a') :
      Interlude R options a (Approach.dispose a').approach
  | evaluate {s : Session R A} (h : Interlude R options a s.registration.approach)
      (policy : ScoringPolicy) (name : Text) (cases : List TestCase) :
      Interlude R options a
        (Session.left (Session.evaluate policy name cases options s)).registration.approach

/-- An approach is only used in an interlude. -/
theorem Approach.Interlude.used {A : Type} [Approach A] {R : Type} [Quantity R] {options : Options}
    {a b : A} (h : Interlude R options a b) : Used options a b := by
  induction h with
  | refl => exact .refl
  | predict _ source file ih => exact ih.predict source file
  | dispose _ ih => exact ih.dispose
  | evaluate _ policy name cases ih =>
    exact ih.trans (Session.evaluate_used policy name cases options _)

end TypeBench
