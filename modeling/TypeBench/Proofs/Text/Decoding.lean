import TypeBench.Proofs.Text.Encoding

/-!
# Writing what was read

What is read without a malformed stretch can only have been written: each character that the
automaton finds stands in the bytes as it is written, and no surrogate is found. So bytes are well
formed if and only if they are those of a text.

## Main results

* `Utf8.exists_of_scanFrom_start`: a character that is found begins the bytes.
* `Utf8.decode?_eq_some_iff`: bytes are read as a text if and only if that text is written so.
-/

namespace TypeBench.Utf8

/-! ### One byte -/

theorem exists_of_cons (b : UInt8) : ∃ n, n < 0x100 ∧ b = UInt8.ofNat n :=
  ⟨b.toNat, b.toNat_lt, UInt8.ofNat_toNat.symm⟩

/-- Within a character only a byte of the range that may come next finds something. -/
theorem exists_of_scanFrom {owed least greatest bits : Nat} {bytes : Bytes} {c : CodePoint}
    {found : List (Option CodePoint)}
    (h : scanFrom (.inside owed least greatest bits) bytes = some c :: found) :
    ∃ n rest, bytes = UInt8.ofNat n :: rest ∧ n < 0x100 ∧ least ≤ n ∧ n ≤ greatest := by
  cases bytes with
  | nil => cases h
  | cons b rest =>
    obtain ⟨n, hn, rfl⟩ := exists_of_cons b
    refine ⟨n, rest, rfl, hn, ?_⟩
    by_cases hrange : least ≤ n ∧ n ≤ greatest
    · exact hrange
    · rw [scanFrom, step, toNat_ofNat hn, if_neg hrange] at h
      cases h

/-- A byte within a character, other than the last one. -/
theorem exists_of_scanFrom_inside {owed least greatest bits : Nat} {bytes : Bytes} {c : CodePoint}
    {found : List (Option CodePoint)} (howed : 1 < owed)
    (h : scanFrom (.inside owed least greatest bits) bytes = some c :: found) :
    ∃ n rest, bytes = UInt8.ofNat n :: rest ∧ least ≤ n ∧ n ≤ greatest ∧
      scanFrom (.inside (owed - 1) 0x80 0xBF (bits * 0x40 + (n - 0x80))) rest =
        some c :: found := by
  obtain ⟨n, rest, rfl, hn, hleast, hgreatest⟩ := exists_of_scanFrom h
  rw [scanFrom_inside howed hleast hgreatest hn] at h
  exact ⟨n, rest, rfl, hleast, hgreatest, h⟩

/-- The last byte of a character. -/
theorem exists_of_scanFrom_last {least greatest bits : Nat} {bytes : Bytes} {c : CodePoint}
    {found : List (Option CodePoint)}
    (h : scanFrom (.inside 1 least greatest bits) bytes = some c :: found) :
    ∃ n rest, bytes = UInt8.ofNat n :: rest ∧ least ≤ n ∧ n ≤ greatest ∧
      c = pointOf (bits * 0x40 + (n - 0x80)) ∧ scanFrom .start rest = found := by
  obtain ⟨n, rest, rfl, hn, hleast, hgreatest⟩ := exists_of_scanFrom h
  rw [scanFrom_last hleast hgreatest hn] at h
  obtain ⟨hc, hfound⟩ := List.cons.inj h
  exact ⟨n, rest, rfl, hleast, hgreatest, (Option.some.inj hc).symm, hfound⟩

/-! ### One character -/

theorem val_pointOf {n : Nat} (h : n < 0x110000) : (pointOf n).val = n := by
  rw [pointOf, dif_pos h]

/-- What begins a character of several bytes: how many are owed, the range of the next one, and the
bits of the first one. -/
theorem lead?_eq_some {b : Nat} {state : State} (h : lead? b = some state) :
    (∃ bits, state = .inside 1 0x80 0xBF bits ∧ b = 0xC0 + bits ∧ 2 ≤ bits ∧ bits < 0x20) ∨
    (∃ bits least greatest, state = .inside 2 least greatest bits ∧ b = 0xE0 + bits ∧ bits < 0x10 ∧
      0x80 ≤ least ∧ greatest ≤ 0xBF ∧ (bits = 0 → 0xA0 ≤ least) ∧
      (bits = 0xD → greatest ≤ 0x9F)) ∨
    ∃ bits least greatest, state = .inside 3 least greatest bits ∧ b = 0xF0 + bits ∧ bits < 5 ∧
      0x80 ≤ least ∧ greatest ≤ 0xBF ∧ (bits = 0 → 0x90 ≤ least) ∧
      (bits = 4 → greatest ≤ 0x8F) := by
  rw [lead?] at h
  split at h
  · obtain rfl := Option.some.inj h
    exact .inl ⟨_, rfl, by omega, by omega, by omega⟩
  split at h
  · obtain rfl := Option.some.inj h
    exact .inr (.inl ⟨_, _, _, rfl, by omega, by omega, by omega, by omega, by omega, by omega⟩)
  split at h
  · obtain rfl := Option.some.inj h
    exact .inr (.inl ⟨_, _, _, rfl, by omega, by omega, by omega, by omega, by omega, by omega⟩)
  split at h
  · obtain rfl := Option.some.inj h
    exact .inr (.inl ⟨_, _, _, rfl, by omega, by omega, by omega, by omega, by omega, by omega⟩)
  split at h
  · obtain rfl := Option.some.inj h
    exact .inr (.inr ⟨_, _, _, rfl, by omega, by omega, by omega, by omega, by omega, by omega⟩)
  split at h
  · obtain rfl := Option.some.inj h
    exact .inr (.inr ⟨_, _, _, rfl, by omega, by omega, by omega, by omega, by omega, by omega⟩)
  split at h
  · obtain rfl := Option.some.inj h
    exact .inr (.inr ⟨_, _, _, rfl, by omega, by omega, by omega, by omega, by omega, by omega⟩)
  · cases h

/-- A character of several bytes is found after its first one. -/
theorem exists_of_scanFrom_lead {n : Nat} {rest : Bytes} {c : CodePoint}
    {found : List (Option CodePoint)} (hascii : ¬n < 0x80) (hn : n < 0x100)
    (h : scanFrom .start (UInt8.ofNat n :: rest) = some c :: found) :
    ∃ state, lead? n = some state ∧ scanFrom state rest = some c :: found := by
  cases hlead : lead? n with
  | none =>
    rw [scanFrom, step, begin, toNat_ofNat hn, if_neg hascii, hlead] at h
    cases h
  | some state =>
    rw [scanFrom_lead hlead (by omega) hn] at h
    exact ⟨state, rfl, h⟩

theorem pointOf_of_lt {n : Nat} (h : n < 0x110000) (hsurrogate : ¬(0xD800 ≤ n ∧ n ≤ 0xDFFF)) :
    (pointOf n).val = n ∧ (pointOf n).isSurrogate = false := by
  refine ⟨val_pointOf h, ?_⟩
  simpa [CodePoint.isSurrogate, val_pointOf h] using hsurrogate

/-- Whether some bytes encode a code point that is no surrogate. -/
def IsEncoded (bytes : Bytes) (c : CodePoint) : Prop :=
  bytes = encodePoint c ∧ c.isSurrogate = false

/-- The bytes of a character of one byte. -/
theorem isEncoded_one {n : Nat} (h : n < 0x80) : IsEncoded [UInt8.ofNat n] (pointOf n) := by
  obtain ⟨hval, hsurrogate⟩ := pointOf_of_lt (n := n) (by omega) (by omega)
  refine ⟨?_, hsurrogate⟩
  rw [encodePoint, hval, if_pos h]

/-- The bytes of a character of two bytes. -/
theorem isEncoded_two {bits m : Nat} (hbits : 2 ≤ bits) (hbits' : bits < 0x20) (hm : 0x80 ≤ m)
    (hm' : m ≤ 0xBF) : IsEncoded [UInt8.ofNat (0xC0 + bits), UInt8.ofNat m]
      (pointOf (bits * 0x40 + (m - 0x80))) := by
  obtain ⟨hval, hsurrogate⟩ := pointOf_of_lt (n := bits * 0x40 + (m - 0x80)) (by omega) (by omega)
  refine ⟨?_, hsurrogate⟩
  have hfirst : (bits * 0x40 + (m - 0x80)) / 0x40 = bits := by omega
  have hsecond : 0x80 + (bits * 0x40 + (m - 0x80)) % 0x40 = m := by omega
  rw [encodePoint, hval, if_neg (by omega), if_pos (by omega), hfirst, hsecond]

/-- The bytes of a character of three bytes. -/
theorem isEncoded_three {bits m k : Nat} (hbits : bits < 0x10) (hm : 0x80 ≤ m) (hm' : m ≤ 0xBF)
    (hleast : bits = 0 → 0xA0 ≤ m) (hgap : bits = 0xD → m ≤ 0x9F) (hk : 0x80 ≤ k) (hk' : k ≤ 0xBF) :
    IsEncoded [UInt8.ofNat (0xE0 + bits), UInt8.ofNat m, UInt8.ofNat k]
      (pointOf ((bits * 0x40 + (m - 0x80)) * 0x40 + (k - 0x80))) := by
  obtain ⟨n, hn⟩ : ∃ n, n = (bits * 0x40 + (m - 0x80)) * 0x40 + (k - 0x80) := ⟨_, rfl⟩
  obtain ⟨hval, hsurrogate⟩ := pointOf_of_lt (n := n) (by omega) (by omega)
  rw [← hn]
  refine ⟨?_, hsurrogate⟩
  have hfirst : n / 0x1000 = bits := by omega
  have hsecond : 0x80 + n / 0x40 % 0x40 = m := by omega
  have hthird : 0x80 + n % 0x40 = k := by omega
  rw [encodePoint, hval, if_neg (by omega), if_neg (by omega), if_pos (by omega), hfirst, hsecond,
    hthird]

/-- The bytes of a character of four bytes. -/
theorem isEncoded_four {bits m k j : Nat} (hbits : bits < 5) (hm : 0x80 ≤ m) (hm' : m ≤ 0xBF)
    (hleast : bits = 0 → 0x90 ≤ m) (hlast : bits = 4 → m ≤ 0x8F) (hk : 0x80 ≤ k) (hk' : k ≤ 0xBF)
    (hj : 0x80 ≤ j) (hj' : j ≤ 0xBF) :
    IsEncoded [UInt8.ofNat (0xF0 + bits), UInt8.ofNat m, UInt8.ofNat k, UInt8.ofNat j]
      (pointOf (((bits * 0x40 + (m - 0x80)) * 0x40 + (k - 0x80)) * 0x40 + (j - 0x80))) := by
  obtain ⟨n, hn⟩ : ∃ n, n = ((bits * 0x40 + (m - 0x80)) * 0x40 + (k - 0x80)) * 0x40 + (j - 0x80) :=
    ⟨_, rfl⟩
  obtain ⟨hval, hsurrogate⟩ := pointOf_of_lt (n := n) (by omega) (by omega)
  rw [← hn]
  refine ⟨?_, hsurrogate⟩
  have hfirst : n / 0x40000 = bits := by omega
  have hsecond : 0x80 + n / 0x1000 % 0x40 = m := by omega
  have hthird : 0x80 + n / 0x40 % 0x40 = k := by omega
  have hfourth : 0x80 + n % 0x40 = j := by omega
  rw [encodePoint, hval, if_neg (by omega), if_neg (by omega), if_neg (by omega), hfirst, hsecond,
    hthird, hfourth]

/-- **A character that is found begins the bytes.** -/
theorem exists_of_scanFrom_start {bytes : Bytes} {c : CodePoint} {found : List (Option CodePoint)}
    (h : scanFrom .start bytes = some c :: found) :
    ∃ begun rest, bytes = begun ++ rest ∧ IsEncoded begun c ∧ scanFrom .start rest = found := by
  cases bytes with
  | nil => cases h
  | cons b rest =>
    obtain ⟨n, hn, rfl⟩ := exists_of_cons b
    by_cases hascii : n < 0x80
    · rw [scanFrom_ascii hascii] at h
      obtain ⟨hc, hfound⟩ := List.cons.inj h
      obtain rfl := Option.some.inj hc
      exact ⟨[_], rest, rfl, isEncoded_one hascii, hfound⟩
    · obtain ⟨state, hlead, hstate⟩ := exists_of_scanFrom_lead hascii hn h
      obtain ⟨bits, rfl, rfl, hbits, hbits'⟩ |
        ⟨bits, least, greatest, rfl, rfl, hbits, hleast, hgreatest, hfirst, hgap⟩ |
        ⟨bits, least, greatest, rfl, rfl, hbits, hleast, hgreatest, hfirst, hlast⟩ :=
        lead?_eq_some hlead
      · obtain ⟨m, rest, rfl, hm, hm', hc, hfound⟩ := exists_of_scanFrom_last hstate
        rw [hc]
        exact ⟨[_, _], rest, rfl, isEncoded_two hbits hbits' hm hm', hfound⟩
      · obtain ⟨m, rest, rfl, hm, hm', hstate⟩ := exists_of_scanFrom_inside (by omega) hstate
        obtain ⟨k, rest, rfl, hk, hk', hc, hfound⟩ := exists_of_scanFrom_last hstate
        rw [hc]
        exact ⟨[_, _, _], rest, rfl, isEncoded_three hbits (by omega) (by omega) (by omega)
          (by omega) hk hk', hfound⟩
      · obtain ⟨m, rest, rfl, hm, hm', hstate⟩ := exists_of_scanFrom_inside (by omega) hstate
        obtain ⟨k, rest, rfl, hk, hk', hstate⟩ := exists_of_scanFrom_inside (by omega) hstate
        obtain ⟨j, rest, rfl, hj, hj', hc, hfound⟩ := exists_of_scanFrom_last hstate
        rw [hc]
        exact ⟨[_, _, _, _], rest, rfl, isEncoded_four hbits (by omega) (by omega) (by omega)
          (by omega) hk hk' hj hj', hfound⟩

/-! ### Texts -/

/-- A character that is begun is found, be it as a malformed stretch. -/
theorem scanFrom_inside_ne_nil (owed least greatest bits : Nat) (bytes : Bytes) :
    scanFrom (.inside owed least greatest bits) bytes ≠ [] := by
  induction bytes generalizing owed least greatest bits with
  | nil => simp [scanFrom]
  | cons b rest ih =>
    rw [scanFrom, step]
    by_cases hrange : least ≤ b.toNat ∧ b.toNat ≤ greatest
    · rw [if_pos hrange]
      by_cases howed : owed ≤ 1
      · simp [howed]
      · simpa [howed] using ih _ _ _ _
    · rw [if_neg hrange]
      simp

/-- Something is found in every byte sequence but the empty one. -/
theorem scan_eq_nil_iff {bytes : Bytes} : scan bytes = [] ↔ bytes = [] := by
  refine ⟨fun h => ?_, fun h => h ▸ rfl⟩
  cases bytes with
  | nil => rfl
  | cons b rest =>
    exfalso
    rw [scan, scanFrom, step, begin] at h
    by_cases hascii : b.toNat < 0x80
    · rw [if_pos hascii] at h
      cases h
    · rw [if_neg hascii] at h
      cases hlead : lead? b.toNat with
      | none =>
        rw [hlead] at h
        cases h
      | some state =>
        rw [hlead] at h
        obtain ⟨bits, rfl, -⟩ | ⟨bits, _, _, rfl, -⟩ | ⟨bits, _, _, rfl, -⟩ := lead?_eq_some hlead
        all_goals exact scanFrom_inside_ne_nil _ _ _ _ _ h

theorem eq_written_of_scan {bytes : Bytes} {t : Text} (h : scan bytes = t.map some) :
    bytes = written t ∧ t.hasSurrogate = false := by
  induction t generalizing bytes with
  | nil => exact ⟨scan_eq_nil_iff.1 h, rfl⟩
  | cons c t ih =>
    obtain ⟨begun, rest, rfl, ⟨rfl, hc⟩, hrest⟩ := exists_of_scanFrom_start h
    obtain ⟨rfl, ht⟩ := ih hrest
    refine ⟨rfl, ?_⟩
    rw [hasSurrogate_cons, hc, ht]
    rfl

theorem mapM_id_eq_some_iff {α : Type} {found : List (Option α)} {xs : List α} :
    found.mapM id = some xs ↔ found = xs.map some := by
  induction found generalizing xs with
  | nil => cases xs <;> simp
  | cons x found ih =>
    rw [List.mapM_cons]
    cases x with
    | none => cases xs <;> simp
    | some x =>
      constructor
      · intro h
        obtain ⟨_, ⟨rfl⟩, h⟩ := Option.bind_eq_some_iff.1 h
        obtain ⟨more, hmore, h⟩ := Option.bind_eq_some_iff.1 h
        obtain rfl := Option.some.inj h
        rw [ih.1 hmore, List.map_cons]
      · intro h
        cases xs with
        | nil => cases h
        | cons y xs =>
          obtain ⟨hxy, hfound⟩ := List.cons.inj h
          obtain rfl := Option.some.inj hxy
          rw [ih.2 hfound]
          rfl

/-- Bytes are read as a text if and only if that text is written so. -/
theorem decode?_eq_some_iff {bytes : Bytes} {t : Text} :
    decode? bytes = some t ↔ encode t = .ok bytes := by
  rw [decode?, mapM_id_eq_some_iff]
  constructor
  · intro h
    obtain ⟨rfl, ht⟩ := eq_written_of_scan h
    exact encode_eq_ok ht
  · intro h
    have ht := hasSurrogate_of_encode_eq_ok h
    rw [encode_eq_ok ht] at h
    obtain rfl := Except.ok.inj h
    exact scan_written ht

end TypeBench.Utf8
