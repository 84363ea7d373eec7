import Mathlib.Data.Bool.AllAny
import ModelShelf.Json.Printer
import ModelShelf.Proofs.Json.Reading

/-!
Strings of JSON. `Spelling written meant` holds when the characters between two quotes stand for
the given ones, each as itself or by one of its escapes. Every spelling is read as what it stands
for, and what a style writes for a text is one of its spellings.
-/

namespace ModelShelf.Json

open Text

/-- The characters between two quotes, and those that they stand for. -/
inductive Spelling : List Char → List Char → Prop
  | nil : Spelling [] []
  | literal {c : Char} {written meant : List Char} (notQuote : c ≠ '"') (notEscape : c ≠ '\\')
      (notControl : ¬c < ' ') (tail : Spelling written meant) :
      Spelling (c :: written) (c :: meant)
  | letter {letter c : Char} {written meant : List Char}
      (stands : Reader.shortEscape? letter = some c)
      (tail : Spelling written meant) : Spelling ('\\' :: letter :: written) (c :: meant)
  | unit {x y z w : Char} {n : Nat} {written meant : List Char}
      (stands : Reader.hexUnit? x y z w = some n) (single : n < 0xD800 ∨ 0xDFFF < n)
      (tail : Spelling written meant) :
      Spelling ('\\' :: 'u' :: x :: y :: z :: w :: written) (Char.ofNat n :: meant)
  | pair {x y z w x' y' z' w' : Char} {high low : Nat} {written meant : List Char}
      (standsHigh : Reader.hexUnit? x y z w = some high)
      (isHigh : 0xD800 ≤ high ∧ high < 0xDC00)
      (standsLow : Reader.hexUnit? x' y' z' w' = some low)
      (isLow : 0xDC00 ≤ low ∧ low ≤ 0xDFFF) (tail : Spelling written meant) :
      Spelling
        ('\\' :: 'u' :: x :: y :: z :: w :: '\\' :: 'u' :: x' :: y' :: z' :: w' :: written)
        (Char.ofNat ((high - 0xD800) * 0x400 + (low - 0xDC00) + 0x10000) :: meant)

namespace Reader

/-! ### Reading -/

theorem four_le_byteCount (x y z w : Char) : ¬byteCount [x, y, z, w] < 4 := by
  have := x.utf8Size_pos
  have := y.utf8Size_pos
  have := z.utf8Size_pos
  have := w.utf8Size_pos
  simp only [byteCount, List.foldr_cons, List.foldr_nil]
  omega

theorem reads_hexUnit {x y z w : Char} {n : Nat} (h : hexUnit? x y z w = some n)
    (rest : List Char) : Reads hexUnit (x :: y :: z :: w :: rest) n rest := by
  intro position
  refine ⟨⟨position.line, position.column + 4⟩, ?_⟩
  simp only [hexUnit, List.take_succ_cons, List.take_zero, four_le_byteCount, ↓reduceIte, h]

theorem reads_pairMark (c : Char) (rest : List Char) : Reads (pairMark c) (c :: rest) () rest := by
  refine .bind (reads_peek? (c :: rest)) ?_
  simp only [List.head?_cons, ↓reduceIte]
  exact reads_skip c rest

theorem reads_unicodeEscape_unit {x y z w : Char} {n : Nat} (h : hexUnit? x y z w = some n)
    (single : n < 0xD800 ∨ 0xDFFF < n) (rest : List Char) :
    Reads unicodeEscape (x :: y :: z :: w :: rest) (Char.ofNat n) rest := by
  refine .bind (reads_hexUnit h rest) ?_
  rw [if_neg (by omega), if_pos single]
  exact .pure _ rest

theorem reads_unicodeEscape_pair {x y z w x' y' z' w' : Char} {high low : Nat}
    (hhigh : hexUnit? x y z w = some high) (isHigh : 0xD800 ≤ high ∧ high < 0xDC00)
    (hlow : hexUnit? x' y' z' w' = some low) (isLow : 0xDC00 ≤ low ∧ low ≤ 0xDFFF)
    (rest : List Char) :
    Reads unicodeEscape (x :: y :: z :: w :: '\\' :: 'u' :: x' :: y' :: z' :: w' :: rest)
      (Char.ofNat ((high - 0xD800) * 0x400 + (low - 0xDC00) + 0x10000)) rest := by
  refine .bind (reads_hexUnit hhigh _) ?_
  rw [if_neg (by omega), if_neg (by omega)]
  refine .bind (reads_pairMark '\\' _) (.bind (reads_pairMark 'u' _) ?_)
  refine .bind (reads_hexUnit hlow rest) ?_
  rw [if_neg (by omega)]
  exact .pure _ rest

theorem reads_escape_letter {letter c : Char} (h : shortEscape? letter = some c)
    (rest : List Char) : Reads escape (letter :: rest) c rest := by
  refine .bind (reads_next? letter rest) ?_
  split
  · contradiction
  · rename_i he
    obtain rfl : letter = 'u' := Option.some.inj he
    simp [shortEscape?] at h
  · rename_i he
    obtain rfl := Option.some.inj he
    simp only [h]
    exact .pure c rest

theorem reads_stringFrom {written meant : List Char} (h : Spelling written meant)
    {fuel : Nat} (enough : written.length < fuel) (read rest : List Char) :
    Reads (stringFrom fuel read) (written ++ '"' :: rest) (String.ofList (read.reverseAux meant))
      rest := by
  induction h generalizing fuel read with
  | nil =>
    match fuel, enough with
    | fuel + 1, _ => exact .bind (reads_next? '"' rest) (.pure _ rest)
  | @literal c written meant notQuote notEscape notControl tail ih =>
    match fuel, enough with
    | fuel + 1, enough =>
      have tailRead := ih (Nat.lt_of_succ_lt_succ enough) (c :: read)
      refine .bind (reads_next? c _) ?_
      split
      · contradiction
      · simp_all
      · simp_all
      · rename_i he
        obtain rfl := Option.some.inj he
        rw [if_neg notControl]
        exact tailRead
  | letter stands tail ih =>
    match fuel, enough with
    | fuel + 1, enough =>
      have tailRead c := ih (show _ < fuel by simp at enough; omega) (c :: read)
      exact .bind (reads_next? '\\' _) (.bind (reads_escape_letter stands _) (tailRead _))
  | unit stands single tail ih =>
    match fuel, enough with
    | fuel + 1, enough =>
      have tailRead c := ih (show _ < fuel by simp at enough; omega) (c :: read)
      exact .bind (reads_next? '\\' _) (.bind (.bind (reads_next? 'u' _)
        (reads_unicodeEscape_unit stands single _)) (tailRead _))
  | pair standsHigh isHigh standsLow isLow tail ih =>
    match fuel, enough with
    | fuel + 1, enough =>
      have tailRead c := ih (show _ < fuel by simp at enough; omega) (c :: read)
      exact .bind (reads_next? '\\' _) (.bind (.bind (reads_next? 'u' _)
        (reads_unicodeEscape_pair standsHigh isHigh standsLow isLow _)) (tailRead _))

/-- Whatever spelling of a string is used, the string is read. -/
theorem reads_stringBody {written meant : List Char} (h : Spelling written meant)
    (rest : List Char) : Reads stringBody (written ++ '"' :: rest) (String.ofList meant) rest := by
  intro position
  have enough : written.length < (written ++ '"' :: rest).length + 1 := by
    rw [List.length_append]
    omega
  exact reads_stringFrom h enough [] rest position

end Reader

/-! ### Writing -/

theorem hexPadded_succ {width : Nat} (h : 0 < width) (n : Nat) :
    hexPadded (width + 1) n = hexPadded width (n / 16) ++ [(n % 16).digitChar] := by
  by_cases hn : n < 16
  · obtain ⟨width, rfl⟩ : ∃ w, width = w + 1 := ⟨width - 1, by omega⟩
    have hdiv : n / 16 = 0 := by omega
    simp [hexPadded, hexDigits, Nat.toDigits_of_lt_base hn, hdiv, Nat.mod_eq_of_lt hn,
      List.replicate_succ']
  · have hdigits := Nat.toDigits_of_base_le (b := 16) (n := n) (by decide) (by omega)
    simp [hexPadded, hexDigits, hdigits]

theorem hexPadded_four {n : Nat} (h : n < 0x10000) :
    hexPadded 4 n = [(n / 4096).digitChar, (n / 256 % 16).digitChar, (n / 16 % 16).digitChar,
      (n % 16).digitChar] := by
  have hlead : n / 4096 < 16 := by omega
  rw [hexPadded_succ (by decide), hexPadded_succ (by decide), hexPadded_succ (by decide)]
  simp [hexPadded, hexDigits, Nat.div_div_eq_div_mul, Nat.toDigits_of_lt_base hlead]

theorem hexValue?_digitChar : ∀ d < 16, Reader.hexValue? (Nat.digitChar d) = some d := by decide

theorem hexUnit?_hexPadded {n : Nat} (h : n < 0x10000) :
    Reader.hexUnit? (n / 4096).digitChar (n / 256 % 16).digitChar (n / 16 % 16).digitChar
      (n % 16).digitChar = some n := by
  have h3 := hexValue?_digitChar (n / 4096) (by omega)
  have h2 := hexValue?_digitChar (n / 256 % 16) (by omega)
  have h1 := hexValue?_digitChar (n / 16 % 16) (by omega)
  have h0 := hexValue?_digitChar (n % 16) (by omega)
  simp only [Reader.hexUnit?, h3, h2, h1, h0, Option.bind_eq_bind, Option.bind_some,
    Option.pure_def]
  congr 1
  omega

theorem Spelling.append {written written' meant meant' : List Char} (h : Spelling written meant)
    (h' : Spelling written' meant') : Spelling (written ++ written') (meant ++ meant') := by
  induction h with
  | nil => exact h'
  | literal notQuote notEscape notControl _ ih => exact .literal notQuote notEscape notControl ih
  | letter stands _ ih => exact .letter stands ih
  | unit stands single _ ih => exact .unit stands single ih
  | pair standsHigh isHigh standsLow isLow _ ih => exact .pair standsHigh isHigh standsLow isLow ih

/-- Characters that need no escape spell themselves. -/
theorem Spelling.literals {s : List Char} (h : ∀ c ∈ s, c ≠ '"' ∧ c ≠ '\\' ∧ ¬ c < ' ') :
    Spelling s s := by
  induction s with
  | nil => exact .nil
  | cons c s ih =>
    obtain ⟨⟨notQuote, notEscape, notControl⟩, others⟩ := List.forall_mem_cons.1 h
    exact .literal notQuote notEscape notControl (ih others)

/-- Whether a text needs no escape is decided along it. -/
theorem Spelling.of_all {s : List Char}
    (h : (s.all fun c => c ≠ '"' ∧ c ≠ '\\' ∧ ¬ c < ' ') = true) : Spelling s s :=
  .literals (List.all_iff_forall_prop.1 h)

theorem Spelling.unitEscape {n : Nat} (h : n < 0xD800 ∨ 0xDFFF < n ∧ n < 0x10000) :
    Spelling (unitEscape n) [Char.ofNat n] := by
  rw [Json.unitEscape, hexPadded_four (by omega)]
  exact .unit (hexUnit?_hexPadded (by omega)) (by omega) .nil

theorem toNat_valid (c : Char) : c.toNat < 0xD800 ∨ 0xDFFF < c.toNat ∧ c.toNat < 0x110000 := c.valid

theorem Spelling.utf16Escape (c : Char) : Spelling (utf16Escape c) [c] := by
  have hvalid := toNat_valid c
  simp only [Json.utf16Escape]
  split
  · rename_i hsmall
    simpa using Spelling.unitEscape (n := c.toNat) (by omega)
  · rename_i hlarge
    have hback : (0xD800 + (c.toNat - 0x10000) / 0x400 - 0xD800) * 0x400 +
        (0xDC00 + (c.toNat - 0x10000) % 0x400 - 0xDC00) + 0x10000 = c.toNat := by omega
    rw [Json.unitEscape, Json.unitEscape, hexPadded_four (by omega), hexPadded_four (by omega)]
    have := Spelling.pair
      (hexUnit?_hexPadded (n := 0xD800 + (c.toNat - 0x10000) / 0x400) (by omega))
      (by omega) (hexUnit?_hexPadded (n := 0xDC00 + (c.toNat - 0x10000) % 0x400) (by omega))
      (by omega) .nil
    rwa [hback, Char.ofNat_toNat] at this

/-- A required escape is a letter behind a backslash, or the UTF-16 unit of a control. -/
theorem requiredEscape?_eq_some {c : Char} {escape : List Char}
    (h : requiredEscape? c = some escape) :
    (∃ letter, Reader.shortEscape? letter = some c ∧ escape = ['\\', letter]) ∨
      (c.toNat < 0x20 ∧ escape = unitEscape c.toNat) := by
  simp only [requiredEscape?] at h
  iterate 7
    split at h
    · subst_vars
      exact .inl ⟨_, rfl, (Option.some.inj h).symm⟩
  split at h
  · rename_i hcontrol
    exact .inr ⟨hcontrol, (Option.some.inj h).symm⟩
  · contradiction

theorem requiredEscape?_eq_none {c : Char} (h : requiredEscape? c = none) :
    c ≠ '"' ∧ c ≠ '\\' ∧ ¬c < ' ' := by
  simp only [requiredEscape?] at h
  grind

theorem Spelling.requiredEscape {c : Char} {escape : List Char}
    (h : requiredEscape? c = some escape) : Spelling escape [c] := by
  obtain ⟨letter, stands, rfl⟩ | ⟨hcontrol, rfl⟩ := requiredEscape?_eq_some h
  · exact .letter stands .nil
  · simpa using Spelling.unitEscape (n := c.toNat) (by omega)

theorem Spelling.charForm (style : Style) (c : Char) : Spelling (style.charForm c) [c] := by
  simp only [Style.charForm]
  split
  · rename_i h
    exact .requiredEscape h
  · rename_i h
    obtain ⟨notQuote, notEscape, notControl⟩ := requiredEscape?_eq_none h
    split
    · exact .utf16Escape c
    · exact .literal notQuote notEscape notControl .nil

/-- What a style writes between the quotes of a text is a spelling of it. -/
theorem Spelling.flatMap_charForm (style : Style) (s : List Char) :
    Spelling (s.flatMap style.charForm) s := by
  induction s with
  | nil => exact .nil
  | cons c s ih => exact (Spelling.charForm style c).append ih

/-! ### ASCII -/

/-- A text of ASCII characters only. -/
def Ascii (text : List Char) : Prop := ∀ c ∈ text, c.toNat < 0x80

theorem Ascii.append {s t : List Char} (hs : Ascii s) (ht : Ascii t) : Ascii (s ++ t) := by
  intro c hc
  rcases List.mem_append.1 hc with hc | hc
  · exact hs c hc
  · exact ht c hc

theorem Ascii.cons {c : Char} {s : List Char} (hc : c.toNat < 0x80) (hs : Ascii s) :
    Ascii (c :: s) := by
  intro x hx
  rcases List.mem_cons.1 hx with rfl | hx
  · exact hc
  · exact hs x hx

theorem toNat_digitChar_lt (n : Nat) : n.digitChar.toNat < 0x80 := by
  by_cases h : n < 16
  · exact (by decide : ∀ d < 16, d.digitChar.toNat < 0x80) n h
  · rw [Nat.digitChar_eq_star.2 (by omega)]
    decide

theorem ascii_unitEscape {n : Nat} (h : n < 0x10000) : Ascii (unitEscape n) := by
  rw [unitEscape, hexPadded_four h]
  intro c hc
  simp only [List.mem_cons, List.not_mem_nil, or_false] at hc
  rcases hc with rfl | rfl | rfl | rfl | rfl | rfl
  · decide
  · decide
  all_goals exact toNat_digitChar_lt _

theorem ascii_utf16Escape (c : Char) : Ascii (utf16Escape c) := by
  have hvalid := toNat_valid c
  simp only [utf16Escape]
  split
  · exact ascii_unitEscape (by omega)
  · exact (ascii_unitEscape (by omega)).append (ascii_unitEscape (by omega))

theorem ascii_requiredEscape {c : Char} {escape : List Char}
    (h : requiredEscape? c = some escape) : Ascii escape := by
  obtain ⟨letter, stands, rfl⟩ | ⟨hcontrol, rfl⟩ := requiredEscape?_eq_some h
  · have hletter : letter.toNat < 0x80 := by
      unfold Reader.shortEscape? at stands
      split at stands <;> first | decide | contradiction
    exact .cons (by decide) (.cons hletter nofun)
  · exact ascii_unitEscape (by omega)

theorem ascii_charForm {style : Style} (hstyle : style.asciiOnly = true) (c : Char) :
    Ascii (style.charForm c) := by
  simp only [Style.charForm, hstyle, Bool.true_and, decide_eq_true_eq]
  split
  · rename_i h
    exact ascii_requiredEscape h
  · split
    · exact ascii_utf16Escape c
    · rename_i h
      have : c.toNat ≤ 0x7f := Nat.not_lt.1 h
      exact .cons (by omega) nofun

theorem ascii_stringChars {style : Style} (hstyle : style.asciiOnly = true) (s : List Char) :
    Ascii (style.stringChars s) := by
  refine .cons (by decide) (.append ?_ (.cons (by decide) nofun))
  intro x hx
  obtain ⟨c, _, hx⟩ := List.mem_flatMap.1 hx
  exact ascii_charForm hstyle c x hx

end ModelShelf.Json
