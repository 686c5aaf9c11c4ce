import TypeBench.Text.Basic

/-!
# UTF-8

Texts are stored as UTF-8. Writing fails on a surrogate. Reading runs a small automaton over the
bytes: a byte that cannot continue the character begun before it closes that character as
malformed and is then read afresh, so each malformed stretch is as long as the format allows a
character to be begun and no longer.

## Main definitions

* `Utf8.encode`: the bytes of a text, or the first run of surrogates in it.
* `Utf8.scan`: the characters of a byte sequence, `none` for each malformed stretch.
* `Utf8.decodeLossy`, `Utf8.decode?`: reading with U+FFFD for malformed stretches, and reading
  that refuses them.
* `Utf8.firstFault`, `Utf8.firstFaultInBlocks`: where and why reading first fails, over the whole
  sequence and over a sequence that arrives in blocks.

## Main results

* `Utf8.decodeLossy_eq_of_decode?`: the two readings agree on well-formed bytes.
-/

namespace TypeBench

/-- A byte sequence. -/
abbrev Bytes := List UInt8

namespace Utf8

/-! ### Writing -/

/-- The bytes of a code point that is not a surrogate. -/
def encodePoint (c : CodePoint) : Bytes :=
  let n := c.val
  if n < 0x80 then [UInt8.ofNat n]
  else if n < 0x800 then [UInt8.ofNat (0xC0 + n / 0x40), UInt8.ofNat (0x80 + n % 0x40)]
  else if n < 0x10000 then
    [UInt8.ofNat (0xE0 + n / 0x1000), UInt8.ofNat (0x80 + n / 0x40 % 0x40),
      UInt8.ofNat (0x80 + n % 0x40)]
  else
    [UInt8.ofNat (0xF0 + n / 0x40000), UInt8.ofNat (0x80 + n / 0x1000 % 0x40),
      UInt8.ofNat (0x80 + n / 0x40 % 0x40), UInt8.ofNat (0x80 + n % 0x40)]

/-- A run of adjacent surrogates: its first code point, its position and its length. -/
structure SurrogateRun where
  first : CodePoint
  start : Nat
  length : Nat
  deriving DecidableEq

/-- The first run of surrogates in a text whose first code point has position `start`. -/
def surrogateRunFrom (start : Nat) : Text → Option SurrogateRun
  | [] => none
  | c :: rest =>
    if c.isSurrogate then some ⟨c, start, 1 + (rest.takeWhile CodePoint.isSurrogate).length⟩
    else surrogateRunFrom (start + 1) rest

/-- The bytes of a text, or its first run of surrogates. -/
def encode (t : Text) : Except SurrogateRun Bytes :=
  match surrogateRunFrom 0 t with
  | some run => .error run
  | none => .ok (t.flatMap encodePoint)

/-- The complaint about a run of surrogates. -/
def SurrogateRun.message (run : SurrogateRun) : Text :=
  if run.length = 1 then
    "'utf-8' codec can't encode character '\\u" ++ Text.hex 4 run.first.val ++ "' in position " ++
      Text.ofNat run.start ++ ": surrogates not allowed"
  else
    "'utf-8' codec can't encode characters in position " ++ Text.ofNat run.start ++ "-" ++
      Text.ofNat (run.start + run.length - 1) ++ ": surrogates not allowed"

/-! ### Reading -/

/-- Between two characters, or inside one: the number of bytes still owed, the least and the
greatest byte that may come next, and the bits read so far. -/
inductive State where
  | start
  | inside (owed least greatest bits : Nat)
  deriving DecidableEq

/-- The state after the first byte of a character of several bytes. -/
def lead? (b : Nat) : Option State :=
  if 0xC2 ≤ b ∧ b ≤ 0xDF then some (.inside 1 0x80 0xBF (b - 0xC0))
  else if b = 0xE0 then some (.inside 2 0xA0 0xBF 0)
  else if b = 0xED then some (.inside 2 0x80 0x9F (b - 0xE0))
  else if 0xE1 ≤ b ∧ b ≤ 0xEF then some (.inside 2 0x80 0xBF (b - 0xE0))
  else if b = 0xF0 then some (.inside 3 0x90 0xBF 0)
  else if 0xF1 ≤ b ∧ b ≤ 0xF3 then some (.inside 3 0x80 0xBF (b - 0xF0))
  else if b = 0xF4 then some (.inside 3 0x80 0x8F (b - 0xF0))
  else none

/-- The code point of a number; one out of range, which no character reaches, is U+FFFD. -/
def pointOf (n : Nat) : CodePoint :=
  if h : n < 0x110000 then ⟨n, h⟩ else '\uFFFD'

/-- What a byte at the start of a character yields, and the state after it. -/
def begin (b : UInt8) : List (Option CodePoint) × State :=
  if b.toNat < 0x80 then ([some (pointOf b.toNat)], .start)
  else match lead? b.toNat with
    | some state => ([], state)
    | none => ([none], .start)

/-- What a byte yields in a state, and the state after it. -/
def step : State → UInt8 → List (Option CodePoint) × State
  | .start, b => begin b
  | .inside owed least greatest bits, b =>
    if least ≤ b.toNat ∧ b.toNat ≤ greatest then
      let bits := bits * 0x40 + (b.toNat - 0x80)
      if owed ≤ 1 then ([some (pointOf bits)], .start)
      else ([], .inside (owed - 1) 0x80 0xBF bits)
    else
      let (found, state) := begin b
      (none :: found, state)

/-- The characters read from a state on, `none` for each malformed stretch. -/
def scanFrom : State → Bytes → List (Option CodePoint)
  | .start, [] => []
  | .inside .., [] => [none]
  | state, b :: rest =>
    let (found, next) := step state b
    found ++ scanFrom next rest

/-- The characters of a byte sequence, `none` for each malformed stretch. -/
def scan (bytes : Bytes) : List (Option CodePoint) :=
  scanFrom .start bytes

/-- Reading with U+FFFD in the place of each malformed stretch. -/
def decodeLossy (bytes : Bytes) : Text :=
  (scan bytes).map fun found => found.getD '\uFFFD'

/-- Reading that refuses malformed bytes. -/
def decode? (bytes : Bytes) : Option Text :=
  (scan bytes).mapM id

theorem decodeLossy_eq_of_decode? {bytes : Bytes} {t : Text} (h : decode? bytes = some t) :
    decodeLossy bytes = t := by
  have aux : ∀ (found : List (Option CodePoint)) (t : Text), found.mapM id = some t →
      (found.map fun f => f.getD '\uFFFD') = t := by
    intro found
    induction found with
    | nil =>
      intro t h
      simpa using h
    | cons f found ih =>
      intro t h
      cases f with
      | none => simp at h
      | some c =>
        simp only [List.mapM_cons, id_eq, Option.bind_eq_bind, Option.bind_some,
          Option.bind_eq_some_iff, Option.pure_def, Option.some.injEq] at h
        obtain ⟨rest, hrest, rfl⟩ := h
        simp [ih rest hrest]
  exact aux _ _ h

/-! ### Faults -/

/-- Why reading fails. -/
inductive FaultKind where
  | badStart
  | badContinuation
  | cutShort
  deriving DecidableEq

/-- Where and why reading fails: the first byte of the malformed stretch, its position, its
length and the reason. -/
structure Fault where
  byte : UInt8
  start : Nat
  length : Nat
  kind : FaultKind
  deriving DecidableEq

/-- The bytes of a character begun but not finished, with the state they lead to. -/
structure Carry where
  state : State
  bytes : Bytes

/-- Nothing carried over. -/
def Carry.empty : Carry := ⟨.start, []⟩

/-- What is carried after one more byte, or why that byte cannot be read. -/
def Carry.take (carry : Carry) (b : UInt8) : Except FaultKind Carry :=
  match carry.state with
  | .start =>
    match begin b with
    | ([none], _) => .error .badStart
    | (_, .start) => .ok .empty
    | (_, state) => .ok ⟨state, [b]⟩
  | .inside _ least greatest _ =>
    if least ≤ b.toNat ∧ b.toNat ≤ greatest then
      match step carry.state b with
      | (_, .start) => .ok .empty
      | (_, state) => .ok ⟨state, carry.bytes ++ [b]⟩
    else .error .badContinuation

/-- Reads bytes after those carried over; `position` is the position of the next byte. The result
is the first fault, or what is left unfinished at the end. -/
def readFrom (carry : Carry) (position : Nat) : Bytes → Except Fault Carry
  | [] => .ok carry
  | b :: rest =>
    match carry.take b with
    | .ok carry => readFrom carry (position + 1) rest
    | .error kind =>
      .error ⟨carry.bytes.headD b, position - carry.bytes.length, max 1 carry.bytes.length, kind⟩

/-- The fault of a character left unfinished at the end, its bytes starting at `start`. -/
def Carry.fault? (carry : Carry) (start : Nat) : Option Fault :=
  match carry.bytes with
  | [] => none
  | first :: more => some ⟨first, start, more.length + 1, .cutShort⟩

/-- The first fault of a byte sequence. -/
def firstFault (bytes : Bytes) : Option Fault :=
  match readFrom .empty 0 bytes with
  | .error fault => some fault
  | .ok carry => carry.fault? (bytes.length - carry.bytes.length)

/-- The first fault of a sequence that arrives in blocks: positions count from the bytes carried
into the block, and what the last block leaves unfinished is a block of its own. -/
def firstFaultOfBlocks (carry : Carry) : List Bytes → Option Fault
  | [] => carry.fault? 0
  | block :: blocks =>
    match readFrom carry carry.bytes.length block with
    | .error fault => some fault
    | .ok carry => firstFaultOfBlocks carry blocks

/-- A byte sequence cut into blocks of a given size, of which there are at most `count`. -/
def blocksOf (size : Nat) : Nat → Bytes → List Bytes
  | 0, _ => []
  | count + 1, bytes =>
    if bytes.isEmpty then [] else bytes.take size :: blocksOf size count (bytes.drop size)

/-- The first fault of a byte sequence read in blocks of a given size. -/
def firstFaultInBlocks (size : Nat) (bytes : Bytes) : Option Fault :=
  firstFaultOfBlocks .empty (blocksOf size bytes.length bytes)

/-- The words for a reason. -/
def FaultKind.words : FaultKind → String
  | .badStart => "invalid start byte"
  | .badContinuation => "invalid continuation byte"
  | .cutShort => "unexpected end of data"

/-- The complaint about a fault. -/
def Fault.message (fault : Fault) : Text :=
  let place : Text :=
    if fault.length = 1 then
      "byte 0x" ++ Text.hex 2 fault.byte.toNat ++ " in position " ++ Text.ofNat fault.start
    else
      "bytes in position " ++ Text.ofNat fault.start ++ "-" ++
        Text.ofNat (fault.start + fault.length - 1)
  "'utf-8' codec can't decode " ++ place ++ ": " ++ Text.ofString fault.kind.words

end Utf8

end TypeBench
