import TypeBench.Text.Utf8

/-!
# Reading what was written

Reading the bytes of a text gives the text again if it has no lone surrogates. The automaton takes
one character at a time: after the bytes of a character it is back at its start, and has found that
character and no other. A line end is written as one byte, which no other character contains.

## Main definitions

* `Text.newline`: the line end.
* `Utf8.written`: the bytes of a text without lone surrogates.

## Main results

* `Utf8.scanFrom_encodePoint`: one character is read from its bytes.
* `Utf8.scan_written`, `Utf8.decodeLossy_written`: a text is read from its bytes.
* `Utf8.count_newline_written`: bytes have as many line ends as the text.
-/

namespace TypeBench

/-- The line end. -/
def Text.newline : CodePoint := '\n'

namespace Utf8

/-! ### One byte -/

theorem toNat_ofNat {b : Nat} (h : b < 0x100) : (UInt8.ofNat b).toNat = b :=
  UInt8.toNat_ofNat_of_lt' h

/-- A byte below 128 is a character. -/
theorem scanFrom_ascii {n : Nat} (h : n < 0x80) (rest : Bytes) :
    scanFrom .start (UInt8.ofNat n :: rest) = some (pointOf n) :: scanFrom .start rest := by
  rw [scanFrom, step, begin, toNat_ofNat (by omega), if_pos h]
  rfl

/-- A byte that begins a character finds nothing yet. -/
theorem scanFrom_lead {b : Nat} {state : State} (h : lead? b = some state) (hb : 0x80 ≤ b)
    (hbyte : b < 0x100) (rest : Bytes) :
    scanFrom .start (UInt8.ofNat b :: rest) = scanFrom state rest := by
  rw [scanFrom, step, begin, toNat_ofNat hbyte, if_neg (by omega), h]
  rfl

/-- A byte within a character, other than the last one, finds nothing yet. -/
theorem scanFrom_inside {owed least greatest bits b : Nat} (howed : 1 < owed) (hleast : least ≤ b)
    (hgreatest : b ≤ greatest) (hbyte : b < 0x100) (rest : Bytes) :
    scanFrom (.inside owed least greatest bits) (UInt8.ofNat b :: rest) =
      scanFrom (.inside (owed - 1) 0x80 0xBF (bits * 0x40 + (b - 0x80))) rest := by
  rw [scanFrom, step, toNat_ofNat hbyte, if_pos ⟨hleast, hgreatest⟩]
  dsimp only
  rw [if_neg (by omega)]
  rfl

/-- The last byte of a character finds it. -/
theorem scanFrom_last {least greatest bits b : Nat} (hleast : least ≤ b) (hgreatest : b ≤ greatest)
    (hbyte : b < 0x100) (rest : Bytes) :
    scanFrom (.inside 1 least greatest bits) (UInt8.ofNat b :: rest) =
      some (pointOf (bits * 0x40 + (b - 0x80))) :: scanFrom .start rest := by
  rw [scanFrom, step, toNat_ofNat hbyte, if_pos ⟨hleast, hgreatest⟩]
  rfl

/-! ### One character -/

theorem pointOf_val (c : CodePoint) {n : Nat} (h : n = c.val) : pointOf n = c := by
  subst h
  rw [pointOf, dif_pos c.isLt]

/-- The first byte of a character of two bytes. -/
theorem lead?_two {n : Nat} (hleast : 0x80 ≤ n) (hgreatest : n < 0x800) :
    lead? (0xC0 + n / 0x40) = some (.inside 1 0x80 0xBF (n / 0x40)) := by
  rw [lead?, if_pos (by omega), Nat.add_sub_cancel_left]

/-- The first byte of a character of three bytes, and what it says of the second one. -/
theorem lead?_three {n : Nat} (hgreatest : n < 0x10000) (hleast : 0x800 ≤ n)
    (hsurrogate : ¬(0xD800 ≤ n ∧ n ≤ 0xDFFF)) :
    ∃ least greatest, lead? (0xE0 + n / 0x1000) = some (.inside 2 least greatest (n / 0x1000)) ∧
      least ≤ 0x80 + n / 0x40 % 0x40 ∧ 0x80 + n / 0x40 % 0x40 ≤ greatest := by
  rw [lead?, if_neg (by omega)]
  by_cases hfirst : n / 0x1000 = 0
  · rw [if_pos (by omega), hfirst]
    exact ⟨_, _, rfl, by omega, by omega⟩
  rw [if_neg (by omega)]
  by_cases hgap : n / 0x1000 = 0xD
  · rw [if_pos (by omega), Nat.add_sub_cancel_left]
    exact ⟨_, _, rfl, by omega, by omega⟩
  rw [if_neg (by omega), if_pos (by omega), Nat.add_sub_cancel_left]
  exact ⟨_, _, rfl, by omega, by omega⟩

/-- The first byte of a character of four bytes, and what it says of the second one. -/
theorem lead?_four {n : Nat} (hleast : 0x10000 ≤ n) (hgreatest : n < 0x110000) :
    ∃ least greatest, lead? (0xF0 + n / 0x40000) = some (.inside 3 least greatest (n / 0x40000)) ∧
      least ≤ 0x80 + n / 0x1000 % 0x40 ∧ 0x80 + n / 0x1000 % 0x40 ≤ greatest := by
  rw [lead?, if_neg (by omega), if_neg (by omega), if_neg (by omega), if_neg (by omega)]
  by_cases hfirst : n / 0x40000 = 0
  · rw [if_pos (by omega), hfirst]
    exact ⟨_, _, rfl, by omega, by omega⟩
  rw [if_neg (by omega)]
  by_cases hlast : n / 0x40000 = 4
  · rw [if_neg (by omega), if_pos (by omega), Nat.add_sub_cancel_left]
    exact ⟨_, _, rfl, by omega, by omega⟩
  rw [if_pos (by omega), Nat.add_sub_cancel_left]
  exact ⟨_, _, rfl, by omega, by omega⟩

/-- **Reading one character.** After the bytes of a character that is no surrogate, the automaton
has found it and is back at its start. -/
theorem scanFrom_encodePoint {c : CodePoint} (h : c.isSurrogate = false) (rest : Bytes) :
    scanFrom .start (encodePoint c ++ rest) = some c :: scanFrom .start rest := by
  have hsurrogate : ¬(0xD800 ≤ c.val ∧ c.val ≤ 0xDFFF) := by
    simpa [CodePoint.isSurrogate] using h
  have hpoint := c.isLt
  rw [encodePoint]
  by_cases hone : c.val < 0x80
  · rw [if_pos hone]
    exact (scanFrom_ascii hone rest).trans (congrArg (some · :: _) (pointOf_val c rfl))
  by_cases htwo : c.val < 0x800
  · rw [if_neg hone, if_pos htwo]
    simp only [List.cons_append, List.nil_append]
    rw [scanFrom_lead (lead?_two (by omega) htwo) (by omega) (by omega),
      scanFrom_last (by omega) (by omega) (by omega), pointOf_val c (by omega)]
  by_cases hthree : c.val < 0x10000
  · obtain ⟨least, greatest, hlead, hleast, hgreatest⟩ :=
      lead?_three hthree (by omega) hsurrogate
    rw [if_neg hone, if_neg htwo, if_pos hthree]
    simp only [List.cons_append, List.nil_append]
    rw [scanFrom_lead hlead (by omega) (by omega),
      scanFrom_inside (by omega) hleast hgreatest (by omega),
      scanFrom_last (by omega) (by omega) (by omega), pointOf_val c (by omega)]
  · obtain ⟨least, greatest, hlead, hleast, hgreatest⟩ := lead?_four (n := c.val) (by omega) hpoint
    rw [if_neg hone, if_neg htwo, if_neg hthree]
    simp only [List.cons_append, List.nil_append]
    rw [scanFrom_lead hlead (by omega) (by omega),
      scanFrom_inside (by omega) hleast hgreatest (by omega),
      scanFrom_inside (by omega) (by omega) (by omega) (by omega),
      scanFrom_last (by omega) (by omega) (by omega), pointOf_val c (by omega)]

/-! ### Texts -/

theorem hasSurrogate_cons (c : CodePoint) (t : Text) :
    Text.hasSurrogate (c :: t) = (c.isSurrogate || t.hasSurrogate) := rfl

/-- The bytes of a text without lone surrogates. -/
def written (t : Text) : Bytes := t.flatMap encodePoint

theorem written_append (s t : Text) : written (s ++ t) = written s ++ written t :=
  List.flatMap_append

theorem surrogateRunFrom_of_hasSurrogate {t : Text} (h : t.hasSurrogate = false) (start : Nat) :
    surrogateRunFrom start t = none := by
  induction t generalizing start with
  | nil => rfl
  | cons c rest ih =>
    rw [hasSurrogate_cons, Bool.or_eq_false_iff] at h
    obtain ⟨hc, hrest⟩ := h
    rw [surrogateRunFrom, hc, if_neg Bool.false_ne_true]
    exact ih hrest _

/-- A text without lone surrogates can be written. -/
theorem encode_eq_ok {t : Text} (h : t.hasSurrogate = false) : encode t = .ok (written t) := by
  rw [encode, surrogateRunFrom_of_hasSurrogate h]
  rfl

/-- A text that can be written has no lone surrogates. -/
theorem hasSurrogate_of_encode_eq_ok {t : Text} {bytes : Bytes} (h : encode t = .ok bytes) :
    t.hasSurrogate = false := by
  have hrun (start : Nat) (hnone : surrogateRunFrom start t = none) : t.hasSurrogate = false := by
    clear h
    induction t generalizing start with
    | nil => rfl
    | cons c rest ih =>
      rw [surrogateRunFrom] at hnone
      split at hnone
      · cases hnone
      · rename_i hc
        rw [hasSurrogate_cons, ih _ hnone, Bool.or_false]
        exact Bool.eq_false_iff.2 hc
  rw [encode] at h
  split at h
  · cases h
  · rename_i hnone
    exact hrun 0 hnone

/-- Reading what was written finds its characters, one by one. -/
theorem scan_written {t : Text} (h : t.hasSurrogate = false) : scan (written t) = t.map some := by
  induction t with
  | nil => rfl
  | cons c rest ih =>
    rw [hasSurrogate_cons, Bool.or_eq_false_iff] at h
    obtain ⟨hc, hrest⟩ := h
    exact (scanFrom_encodePoint hc (written rest)).trans (congrArg (some c :: ·) (ih hrest))

/-- **Reading what was written.** -/
theorem decodeLossy_written {t : Text} (h : t.hasSurrogate = false) :
    decodeLossy (written t) = t := by
  rw [decodeLossy, scan_written h, List.map_map]
  exact List.map_id t

/-! ### Line ends -/

/-- The byte of a line end belongs to no other character. -/
theorem mem_encodePoint_iff (c : CodePoint) : (10 : UInt8) ∈ encodePoint c ↔ c.val = 10 := by
  have hpoint := c.isLt
  have hbyte {b : Nat} (hb : b < 0x100) : (10 : UInt8) = UInt8.ofNat b ↔ b = 10 := by
    rw [← UInt8.toNat_inj, toNat_ofNat hb]
    exact eq_comm
  rw [encodePoint]
  by_cases hone : c.val < 0x80
  · rw [if_pos hone]
    simp (disch := omega) only [List.mem_singleton, hbyte]
  by_cases htwo : c.val < 0x800
  · rw [if_neg hone, if_pos htwo]
    simp (disch := omega) only [List.mem_cons, List.not_mem_nil, or_false, hbyte]
    omega
  by_cases hthree : c.val < 0x10000
  · rw [if_neg hone, if_neg htwo, if_pos hthree]
    simp (disch := omega) only [List.mem_cons, List.not_mem_nil, or_false, hbyte]
    omega
  · rw [if_neg hone, if_neg htwo, if_neg hthree]
    simp (disch := omega) only [List.mem_cons, List.not_mem_nil, or_false, hbyte]
    omega

theorem encodePoint_newline : encodePoint Text.newline = [10] := by decide

theorem count_newline_encodePoint (c : CodePoint) :
    (encodePoint c).count 10 = if c = Text.newline then 1 else 0 := by
  by_cases h : c = Text.newline
  · rw [if_pos h, h, encodePoint_newline]
    rfl
  · have hval : c.val ≠ 10 := fun hval => h (Fin.ext hval)
    rw [if_neg h, List.count_eq_zero, mem_encodePoint_iff]
    exact hval

theorem newline_mem_written_iff (t : Text) : (10 : UInt8) ∈ written t ↔ Text.newline ∈ t := by
  rw [written, List.mem_flatMap]
  constructor
  · rintro ⟨c, hc, hbyte⟩
    have hnewline : c = Text.newline := Fin.ext ((mem_encodePoint_iff c).1 hbyte)
    exact hnewline ▸ hc
  · intro h
    exact ⟨Text.newline, h, (mem_encodePoint_iff _).2 rfl⟩

/-- As many line ends are written as the text has. -/
theorem count_newline_written (t : Text) : (written t).count 10 = t.count Text.newline := by
  induction t with
  | nil => rfl
  | cons c rest ih =>
    have hwritten : written (c :: rest) = encodePoint c ++ written rest := rfl
    rw [hwritten, List.count_append, count_newline_encodePoint, ih, List.count_cons, Nat.add_comm]
    by_cases h : c = Text.newline
    · rw [if_pos h, if_pos (beq_iff_eq.2 h)]
    · rw [if_neg h, if_neg (mt beq_iff_eq.1 h)]

end Utf8

end TypeBench
