import Mathlib.Data.List.TakeWhile
import TypeBench.Proofs.Text.Lines
import TypeBench.Proofs.Text.Plain
import TypeBench.Tree.SourceUnit

/-!
# Places of nodes in the source

Spans are counted in bytes, and places in lines and characters. A span that starts and stops between
characters of the source is that of a part of it: the place of the node leads back to the first
character of this part, and the text of the node is this part.

## Main definitions

* `Text.IsBoundary`: an index of bytes between two characters.
* `SourcePosition.written`: a place as a mapping.

## Main results

* `SourceUnit.text_eq`: the text of a node is a part of the source.
* `SourceUnit.positionAt_eq`: the place of an index, from the text before it.
* `SourceUnit.place_agrees`: place and text of a node agree with the source.
-/

namespace TypeBench

/-- An index of the bytes of a text lies before the character of a number, or at the end. -/
structure Text.IsBoundary (t : Text) (index number : Nat) : Prop where
  number_le : number ≤ t.length
  index_eq : index = (Utf8.written (t.take number)).length

namespace Utf8

/-- The bytes of a text are those before a character and those from there on. -/
theorem written_take_append_drop (t : Text) (number : Nat) :
    written (t.take number) ++ written (t.drop number) = written t := by
  rw [← written_append, List.take_append_drop]

/-- A shorter part has no more bytes. -/
theorem length_written_take_le (t : Text) {first last : Nat} (h : last ≤ first) :
    (written (t.take last)).length ≤ (written (t.take first)).length := by
  have hlast : t.take last = (t.take first).take last := by
    rw [List.take_take, Nat.min_eq_left h]
  rw [hlast, ← written_take_append_drop (t.take first) last, List.length_append]
  exact Nat.le_add_right _ _

/-- The bytes between two characters are those of the part between them. -/
theorem drop_written_take (t : Text) (first last : Nat) :
    (written (t.take last)).drop (written (t.take first)).length =
      written ((t.take last).drop first) := by
  rcases Nat.le_total first last with hle | hle
  · have hfirst : t.take first = (t.take last).take first := by
      rw [List.take_take, Nat.min_eq_left hle]
    rw [hfirst, ← written_take_append_drop (t.take last) first, List.drop_left]
  · have hlength := length_written_take_le t hle
    have hnone : (t.take last).drop first = [] := List.drop_eq_nil_of_le (by
      rw [List.length_take]
      omega)
    rw [List.drop_eq_nil_of_le hlength, hnone]
    rfl

end Utf8

namespace SourceUnit

variable {source : Text} {u : SourceUnit} {index number : Nat}

/-! ### Texts -/

/-- The bytes before a boundary are those of the text before it. -/
theorem before_eq (hbytes : u.bytes = Utf8.written source) (h : source.IsBoundary index number) :
    u.before index = Utf8.written (source.take number) := by
  rw [before, hbytes, ← Utf8.written_take_append_drop source number, h.index_eq, List.take_left]

/-- The text of a node is the part of the source from its first character to its last one. -/
theorem text_eq (hsource : source.hasSurrogate = false) (hbytes : u.bytes = Utf8.written source)
    {tree : Tree} {first last : Nat} (hstart : source.IsBoundary tree.info.start first)
    (hstop : source.IsBoundary tree.info.stop last) :
    u.text tree = (source.take last).drop first := by
  have hsubset : (source.take last).drop first ⊆ source :=
    fun _ hc => List.mem_of_mem_take (List.mem_of_mem_drop hc)
  rw [text, before_eq hbytes hstop, hstart.index_eq, Utf8.drop_written_take,
    Utf8.decodeLossy_written (Text.hasSurrogate_of_subset hsubset hsource)]

/-! ### Places -/

/-- The line ends before a boundary. -/
theorem row_eq (hbytes : u.bytes = Utf8.written source) (h : source.IsBoundary index number) :
    u.row index = (source.take number).count Text.newline := by
  rw [row, before_eq hbytes h]
  exact Utf8.count_newline_written _

/-- The bytes after the last line end before a boundary. -/
theorem takeWhile_written_broken {t whole begun : Text} (h : Text.IsBroken t whole begun) :
    ((Utf8.written t).reverse.takeWhile (· ≠ newline)).length = (Utf8.written begun).length := by
  have hbegun : ∀ b ∈ (Utf8.written begun).reverse, decide (b ≠ newline) = true := by
    intro b hb
    have hmem : b ∈ Utf8.written begun := List.mem_reverse.1 hb
    refine decide_eq_true ?_
    rintro rfl
    exact h.not_mem ((Utf8.newline_mem_written_iff begun).1 hmem)
  have hwhole : (Utf8.written whole).reverse.takeWhile (· ≠ newline) = [] := by
    rcases h.whole with rfl | ⟨s, rfl⟩
    · rfl
    · rw [Utf8.written_append, List.reverse_append]
      rfl
  rw [h.eq, Utf8.written_append, List.reverse_append, List.takeWhile_append_of_pos hbegun, hwhole,
    List.append_nil, List.length_reverse]

/-- The bytes of the line that is begun before a boundary. -/
theorem lineBefore_eq (hbytes : u.bytes = Utf8.written source)
    (h : source.IsBoundary index number) {whole begun : Text}
    (hbroken : Text.IsBroken (source.take number) whole begun) :
    u.lineBefore index = Utf8.written begun := by
  have hbefore : u.before index = Utf8.written whole ++ Utf8.written begun := by
    rw [before_eq hbytes h, hbroken.eq, Utf8.written_append]
  have hlength : index = (Utf8.written whole).length + (Utf8.written begun).length := by
    rw [h.index_eq, hbroken.eq, Utf8.written_append, List.length_append]
  have hcolumn : u.byteColumn index = (Utf8.written begun).length := by
    rw [byteColumn, before_eq hbytes h]
    exact takeWhile_written_broken hbroken
  have hfirst : index - u.byteColumn index = (Utf8.written whole).length := by omega
  rw [lineBefore, hfirst, hbefore, List.drop_left]

/-- The place of a boundary: the line ends before it, and the characters after the last one. -/
theorem positionAt_eq (hsource : source.hasSurrogate = false)
    (hbytes : u.bytes = Utf8.written source) (h : source.IsBoundary index number)
    {whole begun : Text} (hbroken : Text.IsBroken (source.take number) whole begun) :
    (u.positionAt index).line = (source.take number).count Text.newline + 1 ∧
      (u.positionAt index).column = begun.length := by
  have hsubset : begun ⊆ source := by
    intro c hc
    refine List.mem_of_mem_take (i := number) ?_
    rw [hbroken.eq]
    exact List.mem_append_right _ hc
  refine ⟨congrArg (· + 1) (row_eq hbytes h), ?_⟩
  rw [positionAt, lineBefore_eq hbytes h hbroken,
    Utf8.decodeLossy_written (Text.hasSurrogate_of_subset hsubset hsource)]

end SourceUnit

/-! ### Places as records -/

namespace SourcePosition

/-- A place as a mapping. -/
def written (p : SourcePosition) : Value :=
  .ofFields [("line", .int p.line), ("column", .int p.column)]

theorem integerAtLeast_natCast {bound n : Nat} (h : bound ≤ n) :
    Field.integerAtLeast bound (.int n) = .valid n := by
  rw [Field.integerAtLeast, Field.integer, Checked.andThen, if_pos (Int.ofNat_le.2 h),
    Int.toNat_natCast]

theorem required_of_get? {α : Type} {name : String} {rule : Value → Checked α}
    {all : List (Value × Value)} {value : Value} {a : α}
    (hget : Value.get? name all = some value) (hrule : rule value = .valid a) :
    Field.required name rule all = .valid a := by
  rw [Field.required, hget]
  dsimp only
  rw [hrule, Checked.within_valid]

/-- Every place can be read from its mapping. -/
theorem check_written (p : SourcePosition) : check p.written = .valid p := by
  have hline : lineRule (.int p.line) = .valid ⟨p.line, p.one_le_line⟩ := by
    rw [lineRule, integerAtLeast_natCast p.one_le_line, Checked.andThen, dif_pos p.one_le_line]
  have hcolumn : Field.integerAtLeast 0 (.int p.column) = .valid p.column :=
    integerAtLeast_natCast (Nat.zero_le _)
  let all : List (Value × Value) :=
    Value.fieldEntries [("line", .int p.line), ("column", .int p.column)]
  have hfirst : Field.required "line" lineRule all = .valid ⟨p.line, p.one_le_line⟩ :=
    required_of_get? rfl hline
  have hsecond : Field.required "column" (Field.integerAtLeast 0) all = .valid p.column :=
    required_of_get? rfl hcolumn
  rw [check, written, Value.ofFields, Field.record, hfirst, hsecond]
  rfl

end SourcePosition

/-! ### Agreement with the source -/

namespace SourceUnit

/-- **Places and texts agree with the source.** In a source without lone surrogates, a node that
starts and stops between characters has the place of its first character, and the text of the node
is what the source has there; a text without a line end is found in the line of the place, at its
column. Every place of any source unit is a valid one. -/
theorem place_agrees {source : Text} {u : SourceUnit} (hsource : source.hasSurrogate = false)
    (hbytes : Utf8.encode source = .ok u.bytes) {tree : Tree} {first last : Nat}
    (hstart : source.IsBoundary tree.info.start first)
    (hstop : source.IsBoundary tree.info.stop last) :
    (tree.info.unreadable = none → ∃ p, u.position tree = .ok p ∧
      source.offsetAt p.line p.column = first ∧
      (source.drop (source.offsetAt p.line p.column)).take (u.text tree).length = u.text tree ∧
      (Text.newline ∉ u.text tree → ∃ line, source.lines[p.line - 1]? = some line ∧
        (line.drop p.column).take (u.text tree).length = u.text tree)) ∧
    ∀ (v : SourceUnit) (index : Nat), 1 ≤ (v.positionAt index).line ∧
      SourcePosition.check (v.positionAt index).written = .valid (v.positionAt index) := by
  have hwritten : u.bytes = Utf8.written source :=
    Except.ok.inj (hbytes.symm.trans (Utf8.encode_eq_ok hsource))
  refine ⟨fun hreadable => ⟨u.positionAt tree.info.start, ?_, ?_⟩, fun v index =>
    ⟨(v.positionAt index).one_le_line, (v.positionAt index).check_written⟩⟩
  · rw [position, hreadable]
  obtain ⟨whole, begun, hbroken⟩ := Text.exists_isBroken (source.take first)
  obtain ⟨hline, hcolumn⟩ := positionAt_eq hsource hwritten hstart hbroken
  have htext := text_eq hsource hwritten hstart hstop
  generalize u.text tree = x at htext
  -- The source from the first character of the node on is its text and a rest.
  obtain ⟨rest, hrest⟩ : ∃ rest, source.drop first = x ++ rest := by
    refine ⟨(source.drop last).drop (first - (source.take last).length), ?_⟩
    rw [htext, ← List.drop_append, List.take_append_drop]
  have hparts : source = source.take first ++ (x ++ rest) := by
    rw [← hrest, List.take_append_drop]
  have hoffset : source.offsetAt (u.positionAt tree.info.start).line
      (u.positionAt tree.info.start).column = first := by
    have hwhole := hbroken.offsetAt_eq (source.drop first)
    rw [List.take_append_drop, List.length_take, Nat.min_eq_left hstart.number_le] at hwhole
    rw [hline, hcolumn, hwhole]
  refine ⟨hoffset, ?_, fun hnewline => ?_⟩
  · rw [hoffset, hrest, List.take_left]
  · obtain ⟨next, others, hnext⟩ := Text.exists_lines_eq_cons rest
    have hlines := Text.lines_append_of_not_mem hnewline hnext
    have hfound := hbroken.getElem?_lines hlines
    rw [← hparts] at hfound
    refine ⟨begun ++ (x ++ next), ?_, ?_⟩
    · rw [hline, Nat.add_sub_cancel, hfound]
    · rw [hcolumn, List.drop_left, List.take_left]

/-- The source of two lines `é` and `let ü = 1`, with characters of two bytes on both. -/
def umlautSource : Text := Text.ofString "é\nlet ü = 1"

/-- The name in this source: two bytes for one character. -/
def umlautName : Tree :=
  .node { kind := "identifier", isNamed := true, isMissing := false, hasError := false, start := 7,
          stop := 9, field := some "name", unreadable := none } []

/-- This source with its name alone. -/
def umlautUnit : SourceUnit := ⟨Utf8.written umlautSource, umlautName⟩

/-- The name is in the second line, after four characters, and seven bytes into the source. -/
theorem place_agrees_umlaut :
    umlautSource.hasSurrogate = false ∧ Utf8.encode umlautSource = .ok umlautUnit.bytes ∧
    umlautSource.IsBoundary umlautName.info.start 6 ∧
    umlautSource.IsBoundary umlautName.info.stop 7 ∧
    ∃ p, umlautUnit.position umlautName = .ok p ∧ p.line = 2 ∧ p.column = 4 ∧
      umlautSource.offsetAt p.line p.column = 6 ∧
      (umlautSource.drop 6).take (umlautUnit.text umlautName).length =
        umlautUnit.text umlautName ∧
      ∃ line, umlautSource.lines[p.line - 1]? = some line ∧
        (line.drop p.column).take (umlautUnit.text umlautName).length =
          umlautUnit.text umlautName := by
  have hsource : umlautSource.hasSurrogate = false := by decide +kernel
  have hbytes : Utf8.encode umlautSource = .ok umlautUnit.bytes := Utf8.encode_eq_ok hsource
  have hstart : umlautSource.IsBoundary umlautName.info.start 6 :=
    ⟨by decide +kernel, by decide +kernel⟩
  have hstop : umlautSource.IsBoundary umlautName.info.stop 7 :=
    ⟨by decide +kernel, by decide +kernel⟩
  have hplace : umlautUnit.position umlautName = .ok ⟨2, 4, by decide⟩ := by
    have hline : umlautUnit.row 7 = 1 := by decide +kernel
    have hcolumn : (Utf8.decodeLossy (umlautUnit.lineBefore 7)).length = 4 := by decide +kernel
    change Except.ok (umlautUnit.positionAt 7) = _
    simp only [positionAt, hline, hcolumn]
  have hnewline : Text.newline ∉ umlautUnit.text umlautName := by decide +kernel
  obtain ⟨hagrees, -⟩ := place_agrees hsource hbytes hstart hstop
  obtain ⟨p, hp, hoffset, htext, hline⟩ := hagrees rfl
  obtain rfl := Except.ok.inj (hplace.symm.trans hp)
  rw [hoffset] at htext
  exact ⟨hsource, hbytes, hstart, hstop, _, hplace, rfl, rfl, hoffset, htext, hline hnewline⟩

end SourceUnit

end TypeBench
