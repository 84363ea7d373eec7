import ModelShelf.Json.Printer
import ModelShelf.Proofs.Json.Reading

/-!
Integers of JSON in decimal. The digits that are written for an integer of 64 bits are read as that
integer, provided that the text behind them does not go on with the number.
-/

namespace ModelShelf.Json.Reader

open Number

/-- A text that does not go on with a number in front of it. -/
def EndsNumber (rest : List Char) : Prop :=
  ∀ c, rest.head? = some c → isDigit c = false ∧ c ≠ '.' ∧ c ≠ 'e' ∧ c ≠ 'E'

/-- A text that does not go on with the digits in front of it. -/
def EndsDigits (rest : List Char) : Prop := ∀ c, rest.head? = some c → isDigit c = false

theorem EndsNumber.endsDigits {rest : List Char} (h : EndsNumber rest) : EndsDigits rest :=
  fun c hc => (h c hc).1

theorem isBlank_of_isDigit {c : Char} (h : isDigit c = true) : isBlank c = false := by
  simp only [isBlank, Bool.or_eq_false_iff, decide_eq_false_iff_not]
  refine ⟨⟨⟨?_, ?_⟩, ?_⟩, ?_⟩ <;> rintro rfl <;> contradiction

/-! ### Digits -/

theorem isDigit_of_mem_toDigits {n : Nat} {c : Char} (h : c ∈ Nat.toDigits 10 n) :
    isDigit c = true :=
  Nat.isDigit_of_mem_toDigits (by decide) (by decide) h

theorem head_toDigits_ne_zero {n : Nat} (hn : n ≠ 0) {first : Char} {more : List Char}
    (h : Nat.toDigits 10 n = first :: more) : first ≠ '0' := by
  induction n using Nat.strongRecOn generalizing first more with
  | ind n ih =>
    rw [Nat.toDigits_eq_if (by decide)] at h
    split at h
    · obtain ⟨rfl, rfl⟩ := List.cons.inj h
      simpa using hn
    · cases htop : Nat.toDigits 10 (n / 10) with
      | nil => simp at htop
      | cons top others =>
        rw [htop, List.cons_append] at h
        obtain ⟨rfl, rfl⟩ := List.cons.inj h
        exact ih (n / 10) (by omega) (by omega) htop

theorem le_ofDigitChars (ds : List Char) (n : Nat) : n ≤ Nat.ofDigitChars 10 ds n := by
  induction ds generalizing n with
  | nil => simp
  | cons d ds ih =>
    rw [Nat.ofDigitChars_cons]
    exact Nat.le_trans (by omega) (ih _)

theorem gather_eq_ofDigitChars {ds : List Char} {n : Nat}
    (h : ((Nat.ofDigitChars 10 ds n : Nat) : Int) ∈ IntegerRange.either64) :
    gather n ds = (Nat.ofDigitChars 10 ds n, 0) := by
  induction ds generalizing n with
  | nil => simp [gather]
  | cons d ds ih =>
    rw [Nat.ofDigitChars_cons] at h ⊢
    have hstep : n * 10 + digitValue d = 10 * n + (d.toNat - '0'.toNat) := by
      rw [digitValue, Nat.mul_comm]
    have hle := le_ofDigitChars ds (10 * n + (d.toNat - '0'.toNat))
    have hfits : ((10 * n + (d.toNat - '0'.toNat) : Nat) : Int) ∈ IntegerRange.either64 := by
      obtain ⟨hlow, hhigh⟩ := h
      exact ⟨by simp only [IntegerRange.either64]; omega, by
        simp only [IntegerRange.either64] at hhigh ⊢; omega⟩
    simp only [gather, hstep, hfits, ↓reduceIte]
    exact ih h

theorem gather_toDigits {n : Nat} (h : (n : Int) ∈ IntegerRange.either64) :
    gather 0 (Nat.toDigits 10 n) = (n, 0) := by
  have hvalue : Nat.ofDigitChars 10 (Nat.toDigits 10 n) 0 = n := Nat.ofDigitChars_ten_toDigits
  rw [← hvalue] at h
  rw [gather_eq_ofDigitChars h, hvalue]

theorem reads_digits_append {ds rest : List Char} (hds : ∀ c ∈ ds, isDigit c = true)
    (hrest : EndsDigits rest) : Reads digits (ds ++ rest) ds rest := by
  have := reads_digits (ds ++ rest)
  rw [List.takeWhile_append_of_pos hds, List.dropWhile_append_of_pos hds] at this
  cases rest with
  | nil => simpa using this
  | cons c rest =>
    have hc := hrest c rfl
    simpa [hc] using this

/-! ### Numbers -/

theorem reads_moreDigits {n : Nat} {first : Char} {more rest : List Char}
    (h : Nat.toDigits 10 n = first :: more) (hrest : EndsNumber rest) :
    Reads (moreDigits first) (more ++ rest) more rest := by
  rw [moreDigits]
  by_cases hn : n = 0
  · subst hn
    have hzero : Nat.toDigits 10 0 = ['0'] := rfl
    obtain ⟨rfl, rfl⟩ := List.cons.inj (hzero.symm.trans h)
    rw [if_pos rfl]
    refine .bind (reads_peek? rest) ?_
    cases rest with
    | nil => exact .pure [] []
    | cons c rest =>
      have hc := Bool.eq_false_iff.1 (hrest c rfl).1
      show Reads (if isDigit c then failPeek .invalidNumber else return []) (c :: rest) []
        (c :: rest)
      rw [if_neg hc]
      exact .pure [] (c :: rest)
  · have hmore : ∀ c ∈ more, isDigit c = true := fun c hc =>
      isDigit_of_mem_toDigits (n := n) (h ▸ List.mem_cons_of_mem _ hc)
    rw [if_neg (head_toDigits_ne_zero hn h)]
    exact reads_digits_append hmore hrest.endsDigits

/-- The digits of a whole number that fits in 64 bits, behind its sign. -/
theorem reads_number {negative : Bool} {n : Nat} {value : Int} {rest : List Char}
    (fits : (n : Int) ∈ IntegerRange.either64) (hvalue : exactInteger? negative n = some value)
    (hrest : EndsNumber rest) :
    Reads (number negative) (Nat.toDigits 10 n ++ rest) (.integer value) rest := by
  have hgather := gather_toDigits fits
  cases hds : Nat.toDigits 10 n with
  | nil => simp at hds
  | cons first more =>
    rw [hds] at hgather
    have hfirst : isDigit first = true :=
      isDigit_of_mem_toDigits (n := n) (hds ▸ List.mem_cons_self)
    refine .bind (reads_next? first (more ++ rest)) ?_
    simp only [hfirst, Bool.not_true, Bool.false_eq_true, ↓reduceIte]
    refine .bind (reads_moreDigits hds hrest) ?_
    simp only [hgather]
    refine .bind (reads_peek? rest) ?_
    split
    · exact absurd rfl (hrest '.' ‹_›).2.1
    · exact absurd rfl (hrest 'e' ‹_›).2.2.1
    · exact absurd rfl (hrest 'E' ‹_›).2.2.2
    · simp only [ne_eq, not_true_eq_false, ↓reduceIte, hvalue]
      exact .pure _ rest

/-- An integer is written by its digits, behind a sign if it is negative. -/
theorem toList_toString_cases (n : Int) :
    ∃ k : Nat, (n = k ∧ (toString n).toList = Nat.toDigits 10 k) ∨
      (k ≠ 0 ∧ n = -(k : Int) ∧ (toString n).toList = '-' :: Nat.toDigits 10 k) := by
  cases n with
  | ofNat k => exact ⟨k, .inl ⟨rfl, Nat.toList_repr⟩⟩
  | negSucc k =>
    refine ⟨k + 1, .inr ⟨by omega, rfl, ?_⟩⟩
    show ("-" ++ Nat.repr (k + 1)).toList = _
    rw [String.toList_append, Nat.toList_repr]
    rfl

theorem reads_numberAt_natCast {k : Nat} (fits : (k : Int) ∈ IntegerRange.signed64)
    {first : Char} {more rest : List Char} (h : Nat.toDigits 10 k = first :: more)
    (hrest : EndsNumber rest) :
    Reads (numberAt first) (first :: (more ++ rest)) (.integer k) rest := by
  have hfirst : isDigit first = true := isDigit_of_mem_toDigits (n := k) (h ▸ List.mem_cons_self)
  have hminus : first ≠ '-' := by
    rintro rfl
    contradiction
  have hwide : (k : Int) ∈ IntegerRange.either64 := by
    simp only [IntegerRange.mem_iff, IntegerRange.signed64, IntegerRange.either64] at fits ⊢
    omega
  have : Reads (number false) _ (.integer k) rest := reads_number hwide rfl hrest
  rwa [h, ← (if_neg hminus : numberAt first = number false)] at this

theorem reads_numberAt_neg {k : Nat} (hk : k ≠ 0) (fits : -(k : Int) ∈ IntegerRange.signed64)
    {rest : List Char} (hrest : EndsNumber rest) :
    Reads (numberAt '-') ('-' :: (Nat.toDigits 10 k ++ rest)) (.integer (-k)) rest := by
  simp only [IntegerRange.mem_iff, IntegerRange.signed64] at fits
  have hwide : (k : Int) ∈ IntegerRange.either64 := by
    simp only [IntegerRange.mem_iff, IntegerRange.either64]
    omega
  have hvalue : exactInteger? true k = some (-(k : Int)) := by
    have : -(k : Int) ∈ Numeral.exactRange := by
      simp only [IntegerRange.mem_iff, Numeral.exactRange, IntegerRange.either64]
      omega
    simp [exactInteger?, hk, this]
  exact .seqRight (reads_skip '-' _) (reads_number hwide hvalue hrest)

/-- The text of an integer begins as a number does, and the number is read from there. -/
theorem reads_numberAt_integer {n : Int} (fits : n ∈ IntegerRange.signed64) {rest : List Char}
    (hrest : EndsNumber rest) :
    ∃ first more, (toString n).toList = first :: more ∧ (first = '-' ∨ isDigit first = true) ∧
      Reads (numberAt first) (first :: (more ++ rest)) (.integer n) rest := by
  obtain ⟨k, ⟨rfl, htext⟩ | ⟨hk, rfl, htext⟩⟩ := toList_toString_cases n
  · cases hds : Nat.toDigits 10 k with
    | nil => simp at hds
    | cons first more =>
      have hfirst : isDigit first = true :=
        isDigit_of_mem_toDigits (n := k) (hds ▸ List.mem_cons_self)
      exact ⟨first, more, htext.trans hds, .inr hfirst, reads_numberAt_natCast fits hds hrest⟩
  · exact ⟨'-', _, htext, .inl rfl, reads_numberAt_neg hk fits hrest⟩

/-- The text of an integer of 64 bits with a sign is read where such an integer is wanted. -/
theorem reads_integer64 {n : Int} (fits : n ∈ IntegerRange.signed64) {rest gap : List Char}
    (hgap : Gap gap) (hrest : EndsNumber rest) :
    Reads integer64 (gap ++ ((toString n).toList ++ rest)) n rest := by
  obtain ⟨first, more, htext, hfirst, hread⟩ := reads_numberAt_integer fits hrest
  have solid : isBlank first = false := by
    rcases hfirst with rfl | hfirst
    · rfl
    · exact isBlank_of_isDigit hfirst
  rw [htext, List.cons_append]
  refine reads_byFirst hgap solid ?_
  rw [if_pos hfirst]
  refine .bind hread ?_
  simp only [fits, ↓reduceIte]
  exact .pure n rest

end ModelShelf.Json.Reader
