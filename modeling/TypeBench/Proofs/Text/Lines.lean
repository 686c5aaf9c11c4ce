import Mathlib.Algebra.Ring.Nat
import TypeBench.Proofs.Text.Encoding

/-!
# Lines of a text

The lines of a text are the pieces between its line ends. A part at the start of a text is made of
whole lines and of the begin of one more; so the place after it is given by the number of the line
ends and by the length of what follows them.

## Main definitions

* `Text.lines`: the lines of a text.
* `Text.offsetAt`: the number of characters before a line and a column.
* `Text.IsBroken`: a text as whole lines and the begin of one more.

## Main results

* `Text.IsBroken.lines_append`: the lines of a longer text.
* `Text.IsBroken.offsetAt_eq`: the place after a part is as far as the part is long.
* `Text.IsBroken.getElem?_lines`: the line that goes on there.
-/

namespace TypeBench.Text

/-- The lines of a text, without their ends. -/
def lines (t : Text) : List Text := t.splitOnPoint newline

/-- The number of characters before a line, counted from one, and a column in it, counted from
zero: the lines before are left out with their ends. -/
def offsetAt (t : Text) (line column : Nat) : Nat :=
  ((t.lines.take (line - 1)).map fun l => l.length + 1).sum + column

/-! ### Lines -/

theorem lines_newline_cons (t : Text) : lines (newline :: t) = [] :: lines t := by
  rw [lines, splitOnPoint, if_pos rfl]
  rfl

theorem lines_cons {c : CodePoint} (h : c ≠ newline) {t first : Text} {rest : List Text}
    (hlines : t.lines = first :: rest) : lines (c :: t) = (c :: first) :: rest := by
  rw [lines] at hlines ⊢
  rw [splitOnPoint, if_neg h, hlines]

/-- Every text has a first line. -/
theorem exists_lines_eq_cons (t : Text) : ∃ first rest, t.lines = first :: rest := by
  induction t with
  | nil => exact ⟨[], [], rfl⟩
  | cons c t ih =>
    obtain ⟨first, rest, hlines⟩ := ih
    by_cases h : c = newline
    · exact ⟨[], lines t, h ▸ lines_newline_cons t⟩
    · exact ⟨c :: first, rest, lines_cons h hlines⟩

/-- A line end comes between the lines before it and those after it. -/
theorem lines_append_newline (s t : Text) : lines (s ++ newline :: t) = s.lines ++ t.lines := by
  induction s with
  | nil => exact lines_newline_cons t
  | cons c s ih =>
    by_cases h : c = newline
    · subst h
      rw [List.cons_append, lines_newline_cons, lines_newline_cons, ih, List.cons_append]
    · obtain ⟨first, rest, hlines⟩ := exists_lines_eq_cons s
      rw [hlines] at ih
      rw [lines_cons h hlines]
      exact lines_cons h ih

theorem length_lines (t : Text) : t.lines.length = t.count newline + 1 := by
  induction t with
  | nil => rfl
  | cons c t ih =>
    by_cases h : c = newline
    · subst h
      rw [lines_newline_cons, List.length_cons, ih, List.count_cons_self]
    · obtain ⟨first, rest, hlines⟩ := exists_lines_eq_cons t
      rw [hlines, List.length_cons] at ih
      rw [lines_cons h hlines, List.length_cons, ih, List.count_cons_of_ne h]

/-- The lines with their ends are as long as the text with one more end. -/
theorem sum_lines (t : Text) : (t.lines.map fun l => l.length + 1).sum = t.length + 1 := by
  induction t with
  | nil => rfl
  | cons c t ih =>
    by_cases h : c = newline
    · subst h
      rw [lines_newline_cons, List.map_cons, List.sum_cons, ih, List.length_cons, List.length_nil]
      omega
    · obtain ⟨first, rest, hlines⟩ := exists_lines_eq_cons t
      rw [hlines, List.map_cons, List.sum_cons] at ih
      rw [lines_cons h hlines, List.map_cons, List.sum_cons, List.length_cons, List.length_cons]
      omega

theorem lines_append_of_not_mem {s t first : Text} {rest : List Text} (h : newline ∉ s)
    (hlines : t.lines = first :: rest) : lines (s ++ t) = (s ++ first) :: rest := by
  induction s with
  | nil => exact hlines
  | cons c s ih =>
    obtain ⟨hc, hs⟩ := not_or.1 (mt List.mem_cons.2 h)
    exact lines_cons (Ne.symm hc) (ih hs)

/-! ### Whole lines and the begin of one more -/

/-- A text is made of whole lines, each with its end, and of the begin of one more. -/
structure IsBroken (t whole begun : Text) : Prop where
  eq : t = whole ++ begun
  whole : whole = [] ∨ ∃ s, whole = s ++ [newline]
  not_mem : newline ∉ begun

theorem exists_isBroken (t : Text) : ∃ whole begun, t.IsBroken whole begun := by
  induction t with
  | nil => exact ⟨[], [], rfl, .inl rfl, List.not_mem_nil⟩
  | cons c t ih =>
    obtain ⟨_, begun, rfl, rfl | ⟨s, rfl⟩, hbegun⟩ := ih
    · by_cases h : c = newline
      · exact ⟨[newline], begun, h ▸ rfl, .inr ⟨[], rfl⟩, hbegun⟩
      · exact ⟨[], c :: begun, rfl, .inl rfl, fun hmem =>
          (List.mem_cons.1 hmem).elim (Ne.symm h) hbegun⟩
    · exact ⟨c :: s ++ [newline], begun, rfl, .inr ⟨c :: s, rfl⟩, hbegun⟩

namespace IsBroken

variable {t whole begun rest : Text}

/-- The lines of a longer text: the whole ones, and the begun one goes on in the rest. -/
theorem lines_append (h : t.IsBroken whole begun) {first : Text} {others : List Text}
    (hrest : rest.lines = first :: others) :
    ∃ before, (t ++ rest).lines = before ++ (begun ++ first) :: others ∧
      before.length = t.count newline ∧
      (before.map fun l => l.length + 1).sum = whole.length := by
  obtain ⟨rfl, hwhole, hbegun⟩ := h
  have hcontinued := lines_append_of_not_mem hbegun hrest
  have hnone : begun.count newline = 0 := List.count_eq_zero.2 hbegun
  rcases hwhole with rfl | ⟨s, rfl⟩
  · exact ⟨[], hcontinued, hnone.symm, rfl⟩
  · refine ⟨s.lines, ?_, ?_, ?_⟩
    · rw [List.append_assoc, List.append_assoc, List.singleton_append, lines_append_newline,
        hcontinued]
    · rw [length_lines, List.count_append, List.count_append, hnone, List.count_singleton_self]
    · rw [sum_lines, List.length_append, List.length_singleton]

/-- The place after a part of a text is as far as the part is long. -/
theorem offsetAt_eq (h : t.IsBroken whole begun) (rest : Text) :
    (t ++ rest).offsetAt (t.count newline + 1) begun.length = t.length := by
  obtain ⟨first, others, hrest⟩ := exists_lines_eq_cons rest
  obtain ⟨before, hlines, hlength, hsum⟩ := h.lines_append hrest
  rw [offsetAt, hlines, Nat.add_sub_cancel, ← hlength, List.take_left, hsum, h.eq,
    List.length_append]

/-- The begun line goes on in the rest of the text. -/
theorem getElem?_lines (h : t.IsBroken whole begun) {first : Text} {others : List Text}
    (hrest : rest.lines = first :: others) :
    (t ++ rest).lines[t.count newline]? = some (begun ++ first) := by
  obtain ⟨before, hlines, hlength, -⟩ := h.lines_append hrest
  rw [hlines, ← hlength, List.getElem?_append_right (Nat.le_refl _), Nat.sub_self]
  rfl

end IsBroken

end TypeBench.Text
