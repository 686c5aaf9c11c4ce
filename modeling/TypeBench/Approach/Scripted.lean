import TypeBench.Approach.Basic

/-!
# Approaches by script

An approach may answer from a script, in the place of one that is not at hand. A bench that holds
approaches of two types holds them as a sum.

## Main definitions

* `Script`: what an approach answers.
* `Reply.mapApproach`: a reply about an approach as one about another type.
-/

namespace TypeBench

/-- What an approach answers to each of its calls. -/
structure Script where
  name : Text
  ready : Except Failure Unit
  predictions : (source file : Text) → Except Failure (List TypePrediction)
  done : Except Failure Unit

namespace Script

/-- The reply of a script, which stays as it is and tells nothing. -/
def reply {α : Type} (script : Script) (outcome : Except Failure α) : Reply Script α :=
  ⟨outcome.mapError .failed, script, []⟩

instance : Approach Script where
  name script := script.name
  configure _ script := script.reply script.ready
  predict source file script := script.reply (script.predictions source file)
  dispose script := script.reply script.done

end Script

/-- A reply about an approach as one about another type. -/
def Reply.mapApproach {A B α : Type} (f : A → B) (r : Reply A α) : Reply B α :=
  ⟨r.outcome, f r.approach, r.events⟩

instance {A B : Type} [Approach A] [Approach B] : Approach (A ⊕ B) where
  name
    | .inl a => Approach.name a
    | .inr b => Approach.name b
  configure options
    | .inl a => (Approach.configure options a).mapApproach .inl
    | .inr b => (Approach.configure options b).mapApproach .inr
  predict source file
    | .inl a => (Approach.predict source file a).mapApproach .inl
    | .inr b => (Approach.predict source file b).mapApproach .inr
  dispose
    | .inl a => (Approach.dispose a).mapApproach .inl
    | .inr b => (Approach.dispose b).mapApproach .inr

end TypeBench
