import TypeBench.Groups
import TypeBench.Prediction
import TypeBench.TestCase.Basic

/-!
# Matching of predictions to ground truth

A prediction and an entry of the ground truth match if they speak of the same identifier at the
same place. Predictions are taken in order, and each of them claims the first entry that is left
for its key; so an entry is claimed at most once.

## Main definitions

* `MatchKey`: an identifier at a place.
* `TypeMatch`, `MatchSet`: a prediction with its entry, and the outcome of a matching.
* `TruthQueues`: the indices of the entries that are left for each key.
* `MatchSet.ofPredictions`: the matching of predictions to the ground truth of one source unit.
* `MatchSet.merge`: the matchings of several source units together.
-/

namespace TypeBench

/-- An identifier at a place. -/
structure MatchKey where
  identifier : Text
  line : Nat
  column : Nat
  deriving DecidableEq

/-- The key of a prediction. -/
def TypePrediction.key (p : TypePrediction) : MatchKey :=
  ⟨p.identifier, p.position.line, p.position.column⟩

/-- The key of an entry of the ground truth. -/
def GroundTruth.key (t : GroundTruth) : MatchKey :=
  ⟨t.identifier, t.position.line, t.position.column⟩

/-- A prediction with the entry that it claims. -/
structure TypeMatch where
  prediction : TypePrediction
  truth : GroundTruth
  deriving DecidableEq

/-- Whether the predicted label is the verified one. -/
def TypeMatch.isCorrect (m : TypeMatch) : Bool := m.prediction.label = m.truth.label

/-- The indices of the entries that are left for each key, in rising order. -/
abbrev TruthQueues := Groups MatchKey Nat

namespace TruthQueues

/-- The queues of a ground truth. -/
def ofTruths (truths : List GroundTruth) : TruthQueues :=
  truths.zipIdx.foldl (fun queues (truth, index) => Groups.add truth.key index queues) []

/-- The first index in the queue of a key, and the queues without it. -/
def take? (key : MatchKey) : TruthQueues → Option (Nat × TruthQueues)
  | [] => none
  | (other, indices) :: rest =>
    if other = key then
      match indices with
      | [] => none
      | index :: indices => some (index, (other, indices) :: rest)
    else (take? key rest).map fun (index, rest) => (index, (other, indices) :: rest)

/-- Predictions in order, each with the index of the entry that it claims. -/
def claims (queues : TruthQueues) : List TypePrediction → List (TypePrediction × Option Nat)
  | [] => []
  | p :: rest =>
    match take? p.key queues with
    | some (index, queues) => (p, some index) :: claims queues rest
    | none => (p, none) :: claims queues rest

end TruthQueues

/-- The outcome of a matching. -/
structure MatchSet where
  found : List TypeMatch
  unmatchedPredictions : List TypePrediction
  unmatchedTruths : List GroundTruth
  deriving DecidableEq

namespace MatchSet

/-- The matching of nothing. -/
def empty : MatchSet := ⟨[], [], []⟩

/-- The number of correct matches. -/
def correctCount (m : MatchSet) : Nat := m.found.countP TypeMatch.isCorrect

/-- Two matchings, one after the other. -/
def merge (a b : MatchSet) : MatchSet where
  found := a.found ++ b.found
  unmatchedPredictions := a.unmatchedPredictions ++ b.unmatchedPredictions
  unmatchedTruths := a.unmatchedTruths ++ b.unmatchedTruths

/-- The match that a claim makes. -/
def matchOf? (truths : List GroundTruth) :
    TypePrediction × Option Nat → Option TypeMatch
  | (p, some index) => truths[index]?.map fun truth => ⟨p, truth⟩
  | (_, none) => none

/-- The prediction that claims nothing. -/
def unclaiming? : TypePrediction × Option Nat → Option TypePrediction
  | (p, none) => some p
  | (_, some _) => none

/-- The matching that claims make. -/
def ofClaims (truths : List GroundTruth) (claims : List (TypePrediction × Option Nat)) :
    MatchSet where
  found := claims.filterMap (matchOf? truths)
  unmatchedPredictions := claims.filterMap unclaiming?
  unmatchedTruths :=
    let claimed := claims.filterMap (·.2)
    (truths.zipIdx.filter fun (_, index) => index ∉ claimed).map (·.1)

/-- The matching of predictions to a ground truth. -/
def ofPredictions (predictions : List TypePrediction) (truths : List GroundTruth) : MatchSet :=
  ofClaims truths ((TruthQueues.ofTruths truths).claims predictions)

end MatchSet

end TypeBench
