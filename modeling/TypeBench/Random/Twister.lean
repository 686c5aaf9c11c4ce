import TypeBench.Number.Binary64

/-!
# The Mersenne twister

A generator of pseudo-random words with a state of 624 words, seeded from an integer. Draws of a
share of one and of an index are made from its words.

## Main definitions

* `Twister`: the state of the generator.
* `Twister.ofSeed`: the state that an integer seeds.
* `Twister.word`: the next word.
* `Twister.share`, `Twister.index`: a draw from the unit interval, and of an index below a bound.
* `Twister.split`: a generator that is seeded from draws of another one.

## Main results

* `Twister.index_lt`: an index stays below its bound.
-/

namespace TypeBench

/-- The state of the generator: its words, and how many of them are used up. -/
structure Twister where
  words : Vector UInt32 624
  used : Nat
  deriving DecidableEq

namespace Twister

/-- The words of a state. -/
abbrev Words := Vector UInt32 624

/-- A word with its upper bits folded in. -/
def folded (w : UInt32) : UInt32 := w ^^^ (w >>> 30)

/-! ### Seeding -/

/-- The words with one of them filled in: the first one is the seed, and each of the others follows
from the one before it. -/
def fillFrom (seed : UInt32) (words : Words) (i : Fin 624) : Words :=
  if i = 0 then words.set 0 seed
  else words.set i (1812433253 * folded (words.get (i - 1)) + UInt32.ofNat i.val)

/-- The words that one word seeds. -/
def ofWord (seed : UInt32) : Words :=
  (List.finRange 624).foldl (fillFrom seed) (Vector.replicate 624 0)

/-- The place after a place; the first place follows the last one only after the last word has
been copied to it. -/
def copyLast (words : Words) (i : Fin 624) : Words × Fin 624 :=
  if i = 623 then (words.set 0 (words.get 623), 1) else (words, i + 1)

/-- One step of mixing a key in: `j` is the place in the key. -/
def mixKey (key : List UInt32) (state : Words × Fin 624) (step : Nat) : Words × Fin 624 :=
  let (words, i) := state
  let j := step % key.length
  let value := (words.get i ^^^ (folded (words.get (i - 1)) * 1664525)) + key.getD j 0
    + UInt32.ofNat j
  copyLast (words.set i value) i

/-- One step of mixing the places in. -/
def mixPlace (state : Words × Fin 624) (_ : Nat) : Words × Fin 624 :=
  let (words, i) := state
  let value := (words.get i ^^^ (folded (words.get (i - 1)) * 1566083941)) - UInt32.ofNat i.val
  copyLast (words.set i value) i

/-- The generator that a key of words seeds. -/
def ofKey (key : List UInt32) : Twister :=
  let keyed := (List.range (max 624 key.length)).foldl (mixKey key) (ofWord 19650218, 1)
  let mixed := (List.range 623).foldl mixPlace keyed
  ⟨mixed.1.set 0 0x80000000, 624⟩

/-- The words of a natural number, the lowest first, of which there are at most `count`. -/
def wordsOf : Nat → Nat → List UInt32
  | 0, _ => []
  | count + 1, n => if n = 0 then [] else UInt32.ofNat n :: wordsOf count (n / Nat.pow 2 32)

/-- The key of an integer: the words of its size, and a single zero for zero. -/
def keyOf (seed : Int) : List UInt32 :=
  match wordsOf (seed.natAbs.log2 / 32 + 1) seed.natAbs with
  | [] => [0]
  | words => words

/-- The generator that an integer seeds; its sign does not matter. -/
def ofSeed (seed : Int) : Twister := ofKey (keyOf seed)

/-! ### Drawing -/

/-- The word at a place after a twist: its upper bit and the lower bits of the next word, shifted
and joined with a word further on. -/
def twistAt (words : Words) (i : Fin 624) : Words :=
  let joined := (words.get i &&& 0x80000000) ||| (words.get (i + 1) &&& 0x7fffffff)
  let low : UInt32 := if joined &&& 1 = 0 then 0 else 0x9908b0df
  words.set i (words.get (i + 397) ^^^ (joined >>> 1) ^^^ low)

/-- All words after a twist. -/
def twisted (words : Words) : Words := (List.finRange 624).foldl twistAt words

/-- A word with its bits spread. -/
def tempered (w : UInt32) : UInt32 :=
  let w := w ^^^ (w >>> 11)
  let w := w ^^^ ((w <<< 7) &&& 0x9d2c5680)
  let w := w ^^^ ((w <<< 15) &&& 0xefc60000)
  w ^^^ (w >>> 18)

/-- The next word. The words are twisted when all of them are used up. -/
def word (t : Twister) : UInt32 × Twister :=
  if h : t.used < 624 then (tempered t.words[t.used], { t with used := t.used + 1 })
  else
    let words := twisted t.words
    (tempered words[0], ⟨words, 1⟩)

/-- The steps between the draws of the unit interval. -/
def shareSteps : Nat := Nat.pow 2 53

/-- A draw from the unit interval without its upper end: 27 bits of one word and 26 of the next,
in steps of equal size. -/
def shareStep (t : Twister) : Nat × Twister :=
  let (a, t) := t.word
  let (b, t) := t.word
  ((a >>> 5).toNat * Nat.pow 2 26 + (b >>> 6).toNat, t)

/-- A draw from the unit interval without its upper end. -/
def share (t : Twister) : Binary64 × Twister :=
  (Binary64.ofRatio false t.shareStep.1 shareSteps, t.shareStep.2)

/-- The number of bits of a natural number. -/
def bitLength (n : Nat) : Nat := if n = 0 then 0 else n.log2 + 1

/-- The upper bits of a word. -/
def upperBits (count : Nat) (w : UInt32) : Nat := w.toNat / Nat.pow 2 (32 - count)

/-- A draw of an index below `bound`, made at most `tries` times until it is low enough. -/
def indexWithin (bound : Nat) : Nat → Twister → Nat × Twister
  | 0, t => (0, t)
  | tries + 1, t =>
    let (w, t) := t.word
    let i := upperBits (bitLength bound) w
    if i < bound then (i, t) else indexWithin bound tries t

/-- More tries than any draw needs: each of them succeeds at least half of the time. -/
def maxTries : Nat := 4096

/-- A draw of an index below a bound. -/
def index (bound : Nat) (t : Twister) : Nat × Twister := indexWithin bound maxTries t

theorem indexWithin_lt {bound : Nat} (h : 0 < bound) (tries : Nat) (t : Twister) :
    (indexWithin bound tries t).1 < bound := by
  induction tries generalizing t with
  | zero => exact h
  | succ tries ih =>
    rw [indexWithin]
    simp only
    split
    · assumption
    · exact ih _

theorem index_lt {bound : Nat} (h : 0 < bound) (t : Twister) : (t.index bound).1 < bound :=
  indexWithin_lt h _ t

/-- A number of words. -/
def take : Nat → Twister → List UInt32 × Twister
  | 0, t => ([], t)
  | count + 1, t =>
    let (w, t) := t.word
    let (rest, t) := take count t
    (w :: rest, t)

/-- A generator that is seeded from draws of another one, and the other one after them. -/
def split (t : Twister) : Twister × Twister :=
  let (key, t) := take 8 t
  (ofKey key, t)

end Twister

end TypeBench
