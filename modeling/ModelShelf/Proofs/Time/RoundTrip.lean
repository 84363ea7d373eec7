import Mathlib.Algebra.Group.Nat.Defs
import ModelShelf.Proofs.Time.Calendar
import ModelShelf.Time.Instant

/-!
Texts of points in time. Each part of the text that is written for a point is read as what it was
written for, whatever stands behind it, and so the whole text is read as that point.
-/

namespace ModelShelf.Time

open Text Number

/-! ### Digits -/

namespace Instant

variable {width n : Nat}

theorem toList_padded (width n : Nat) : (padded width n).toList =
    List.replicate (width - (Nat.toDigits 10 n).length) '0' ++ Nat.toDigits 10 n := by
  rw [padded, String.toList_ofList]

theorem padded_ne_nil (width n : Nat) : (padded width n).toList ≠ [] := by
  simp [toList_padded]

theorem isDigit_of_mem_padded {c : Char} (h : c ∈ (padded width n).toList) :
    Scan.isDigit c = true := by
  rw [toList_padded] at h
  rcases List.mem_append.1 h with h | h
  · rw [List.eq_of_mem_replicate h]
    rfl
  · have hdigit := Nat.isDigit_of_mem_toDigits (by decide) (by decide) h
    simpa [Scan.isDigit, Char.isDigit, Char.le_def] using hdigit

theorem numberOf_padded (width n : Nat) : Scan.numberOf (padded width n).toList = n := by
  have hvalue (ds : List Char) : Scan.numberOf ds = Nat.ofDigitChars 10 ds 0 := by
    rw [Scan.numberOf, Nat.ofDigitChars]
    simp only [Nat.mul_comm]
  rw [hvalue, toList_padded, Nat.ofDigitChars_append, Nat.ofDigitChars_replicate_zero, Nat.mul_zero,
    Nat.ofDigitChars_ten_toDigits]

theorem length_padded (hwidth : 0 < width) (hn : n < 10 ^ width) :
    (padded width n).toList.length = width := by
  have hle := (Nat.length_toDigits_le_iff (b := 10) (by decide) hwidth).2 hn
  rw [toList_padded, List.length_append, List.length_replicate]
  omega

end Instant

/-! ### Parts -/

namespace Scan

open Instant

variable {scan : Scan α} {text middle rest : List Char} {a : α} {b : β}

/-- From `text` the part `a` is read, and `rest` is left. -/
def Reads (scan : Scan α) (text : List Char) (a : α) (rest : List Char) : Prop :=
  scan.run text = .ok (a, rest)

theorem Reads.pure (a : α) (text : List Char) : Reads (Pure.pure a) text a text := rfl

theorem Reads.bind {next : α → Scan β} (h : Reads scan text a middle)
    (hnext : Reads (next a) middle b rest) : Reads (scan >>= next) text b rest := by
  rw [Reads, StateT.run_bind, h]
  exact hnext

theorem reads_get (text : List Char) : Reads get text text text := rfl

theorem reads_set (text rest : List Char) : Reads (set rest) text () rest := rfl

theorem reads_modify (f : List Char → List Char) (text : List Char) :
    Reads (modify f) text () (f text) := rfl

/-- A text with no blank in front. -/
def Solid (text : List Char) : Prop := ∀ c, text.head? = some c → isBlank c = false

theorem reads_skipBlanks (h : Solid text) : Reads skipBlanks text () text := by
  have hsame : text.dropWhile isBlank = text := by
    cases text with
    | nil => rfl
    | cons c rest => rw [List.dropWhile_cons_of_neg (by simp [h c rfl])]
  have hread := reads_modify (·.dropWhile isBlank) text
  rwa [hsame] at hread

theorem reads_mark {c : Char} (hc : isBlank c = false) (rest : List Char) :
    Reads (mark c) (c :: rest) () rest := by
  have solid : Solid (c :: rest) := by
    rintro _ ⟨⟩
    exact hc
  refine .bind (reads_skipBlanks solid) (.bind (reads_get _) ?_)
  simp only [↓reduceIte]
  exact reads_set _ _

theorem reads_separator (rest : List Char) : Reads separator ('T' :: rest) () rest :=
  .bind (reads_get _) (reads_set _ _)

theorem isBlank_of_isDigit {c : Char} (h : isDigit c = true) : isBlank c = false := by
  have hrange : 48 ≤ c.toNat ∧ c.toNat ≤ 57 := by
    simpa [isDigit, Char.le_def, UInt32.le_iff_toNat_le] using h
  simp only [isBlank, Bool.or_eq_false_iff, Bool.and_eq_false_iff, beq_eq_false_iff_ne,
    decide_eq_false_iff_not, ne_eq]
  omega

theorem isDigit_of_append_eq {ds more : List Char} {c : Char} (hne : ds ≠ [])
    (hds : ∀ c ∈ ds, isDigit c = true) (h : ds ++ rest = c :: more) : isDigit c = true := by
  cases ds with
  | nil => contradiction
  | cons d ds =>
    rw [← (List.cons.inj h).1]
    exact hds d List.mem_cons_self

theorem solid_of_digits {ds : List Char} (hne : ds ≠ []) (hds : ∀ c ∈ ds, isDigit c = true)
    (rest : List Char) : Solid (ds ++ rest) := by
  intro c hc
  obtain ⟨more, hmore⟩ := List.head?_eq_some_iff.1 hc
  exact isBlank_of_isDigit (isDigit_of_append_eq hne hds hmore)

/-- A text that does not go on with the digits in front of it. -/
def EndsDigits (rest : List Char) : Prop := ∀ c, rest.head? = some c → isDigit c = false

theorem reads_digits {width : Option Nat} {ds : List Char} (hne : ds ≠ [])
    (hds : ∀ c ∈ ds, isDigit c = true)
    (hwidth : width = some ds.length ∨ EndsDigits rest ∧ ∀ n ∈ width, ds.length ≤ n) :
    Reads (digits width) (ds ++ rest) ds rest := by
  have hfound : (ds ++ rest).takeWhile isDigit = ds ++ rest.takeWhile isDigit :=
    List.takeWhile_append_of_pos hds
  have hends (h : EndsDigits rest) : rest.takeWhile isDigit = [] := by
    cases rest with
    | nil => rfl
    | cons c rest => rw [List.takeWhile_cons_of_neg (by simp [h c rfl])]
  have take : Reads (do
      if (ds ++ rest).isEmpty then fail .tooShort
      else if ds.isEmpty then fail .invalid
      else
        set ((ds ++ rest).drop ds.length)
        return ds) (ds ++ rest) ds rest := by
    rw [if_neg (by simp [hne]), if_neg (by simpa using hne), List.drop_left]
    exact .bind (reads_set _ _) (.pure ds rest)
  refine .bind (reads_get _) ?_
  cases width with
  | none =>
    rcases hwidth with hwidth | ⟨h, -⟩
    · cases hwidth
    · simp only [hfound, hends h, List.append_nil]
      exact take
  | some n =>
    have htaken : (ds ++ rest.takeWhile isDigit).take n = ds := by
      rcases hwidth with hwidth | ⟨h, hfits⟩
      · rw [Option.some.inj hwidth, List.take_left]
      · rw [hends h, List.append_nil, List.take_of_length_le (hfits n rfl)]
    simp only [hfound, htaken]
    exact take

theorem reads_field {width low high n : Nat} (hwidth : 0 < width) (hn : n < 10 ^ width)
    (hlow : low ≤ n) (hhigh : n ≤ high) (rest : List Char) :
    Reads (field width low high) ((padded width n).toList ++ rest) n rest := by
  have hds : ∀ c ∈ (padded width n).toList, isDigit c = true := fun c => isDigit_of_mem_padded
  have hlength := length_padded hwidth hn
  refine .bind (reads_skipBlanks (solid_of_digits (padded_ne_nil width n) hds rest))
    (.bind (reads_digits (padded_ne_nil width n) hds (.inl (by rw [hlength]))) ?_)
  simp only [numberOf_padded, hlow, hhigh, and_self, ↓reduceIte]
  exact .pure n rest

theorem year_fits {value : Int} (hlow : leastYear ≤ value) (hhigh : value ≤ greatestYear) :
    value ∈ IntegerRange.signed32 ∧ (value.natAbs : Int) ∈ IntegerRange.signed64 := by
  simp only [leastYear, greatestYear] at hlow hhigh
  simp only [IntegerRange.mem_iff, IntegerRange.signed32, IntegerRange.signed64]
  omega

theorem reads_year {value : Int} (hlow : leastYear ≤ value) (hhigh : value ≤ greatestYear)
    (hends : EndsDigits rest) : Reads year ((yearText value).toList ++ rest) value rest := by
  obtain ⟨hvalue, hsize⟩ := year_fits hlow hhigh
  have finish {n : Int} (hn : n = value) : Reads (do
      let year ← pure n
      if year ∈ IntegerRange.signed32 then return year else fail .outOfRange)
      rest value rest := by
    refine .bind (.pure n rest) ?_
    rw [hn, if_pos hvalue]
    exact .pure value rest
  have hne (n : Nat) : (padded 4 n).toList ≠ [] := padded_ne_nil 4 n
  have hds (n : Nat) : ∀ c ∈ (padded 4 n).toList, isDigit c = true :=
    fun c => isDigit_of_mem_padded
  rw [yearText]
  by_cases hshort : 0 ≤ value ∧ value ≤ 9999
  · have hlength : (padded 4 value.toNat).toList.length = 4 := length_padded (by decide) (by omega)
    rw [if_pos hshort]
    refine .bind (reads_skipBlanks (solid_of_digits (hne _) (hds _) rest)) (.bind (reads_get _) ?_)
    split
    · cases isDigit_of_append_eq (hne _) (hds _) ‹_›
    · cases isDigit_of_append_eq (hne _) (hds _) ‹_›
    · refine .bind (reads_digits (hne _) (hds _) (.inl (by rw [hlength]))) ?_
      rw [numberOf_padded]
      exact finish (by omega)
  · have hall : Reads (digits none) ((padded 4 value.natAbs).toList ++ rest)
        (padded 4 value.natAbs).toList rest :=
      reads_digits (hne _) (hds _) (.inr ⟨hends, nofun⟩)
    rw [if_neg hshort]
    by_cases hsign : value < 0
    · rw [if_pos hsign, String.toList_append]
      refine .bind (reads_skipBlanks ?_) (.bind (reads_get _) (.bind (reads_set _ _)
        (.bind hall ?_)))
      · rintro _ ⟨⟩
        rfl
      · rw [numberOf_padded, if_neg (not_not_intro hsize)]
        exact finish (by omega)
    · rw [if_neg hsign, String.toList_append]
      refine .bind (reads_skipBlanks ?_) (.bind (reads_get _) (.bind (reads_set _ _)
        (.bind hall ?_)))
      · rintro _ ⟨⟩
        rfl
      · rw [numberOf_padded, if_neg (not_not_intro hsize)]
        exact finish (by omega)

/-- Digits of a fraction stand for that many parts of a second. -/
theorem reads_fraction_digits (width n : Nat) (hwidth : 0 < width) (hmax : width ≤ 9)
    (hn : n < 10 ^ width) (hends : EndsDigits rest) :
    Reads fraction (("." ++ padded width n).toList ++ rest) (n * 10 ^ (9 - width)) rest := by
  have hlength := length_padded hwidth hn
  have hfits : ∀ most ∈ some 9, (padded width n).toList.length ≤ most := by
    rintro _ ⟨⟩
    rwa [hlength]
  have hread : Reads (digits (some 9)) ((padded width n).toList ++ rest)
      (padded width n).toList rest :=
    reads_digits (padded_ne_nil width n) (fun c => isDigit_of_mem_padded) (.inr ⟨hends, hfits⟩)
  have hrest : rest.dropWhile isDigit = rest := by
    cases rest with
    | nil => rfl
    | cons c rest => rw [List.dropWhile_cons_of_neg (by simp [hends c rfl])]
  have hdrop := reads_modify (·.dropWhile isDigit) rest
  rw [hrest] at hdrop
  rw [String.toList_append]
  refine .bind (reads_get _) (.bind (reads_set _ _) (.bind hread (.bind hdrop ?_)))
  rw [numberOf_padded, hlength]
  exact .pure _ rest

theorem reads_fraction {n : Nat} (hn : n < 1000000000) (hends : EndsDigits rest)
    (hrest : rest.head? ≠ some '.') :
    Reads fraction ((fractionText n).toList ++ rest) n rest := by
  rw [fractionText]
  by_cases hnone : n = 0
  · rw [if_pos hnone, hnone]
    refine .bind (reads_get _) ?_
    split
    · rename_i h
      exact absurd (congrArg List.head? h) hrest
    · exact .pure 0 rest
  · rw [if_neg hnone]
    by_cases hthree : n % 1000000 = 0
    · have hread := reads_fraction_digits 3 (n / 1000000) (by decide) (by decide) (by omega) hends
      rw [if_pos hthree]
      rwa [show n / 1000000 * 10 ^ (9 - 3) = n by omega] at hread
    · rw [if_neg hthree]
      by_cases hsix : n % 1000 = 0
      · have hread := reads_fraction_digits 6 (n / 1000) (by decide) (by decide) (by omega) hends
        rw [if_pos hsix]
        rwa [show n / 1000 * 10 ^ (9 - 6) = n by omega] at hread
      · have hread := reads_fraction_digits 9 n (by decide) (by decide) (by omega) hends
        rw [if_neg hsix]
        rwa [show n * 10 ^ (9 - 9) = n by omega] at hread

theorem reads_zone : Reads zone ['Z'] 0 [] := by
  refine .bind (reads_skipBlanks ?_) (.bind (reads_get _) ?_)
  · rintro _ ⟨⟩
    rfl
  · exact .bind (reads_get _) (.bind (reads_set _ _) (.pure _ _))

end Scan

namespace Instant

/-- A point in time of the calendar: its date has a year in bounds, and a leap second ends its
minute. -/
structure IsValid (t : Instant) : Prop where
  date : (Date.ofDays (t.seconds.fdiv 86400)).isValid = true
  nanoseconds : t.nanoseconds < 2000000000
  leap : 1000000000 ≤ t.nanoseconds → t.seconds % 60 = 59

/-- The second that is shown tells whether it is a leap second, and so how it is read. -/
theorem IsValid.exists_second {t : Instant} (valid : t.IsValid) {ofDay : Nat}
    (hofDay : (ofDay : Int) % 60 = t.seconds % 60) :
    ∃ second, (ofDay % 60 + if 1000000000 ≤ t.nanoseconds then 1 else 0) = second ∧
      second ≤ 60 ∧ (if second = 60 then 59 else second) = ofDay % 60 ∧
      t.nanoseconds % 1000000000 + (if second = 60 then 1000000000 else 0) = t.nanoseconds := by
  have hnanoseconds := valid.nanoseconds
  by_cases hleap : 1000000000 ≤ t.nanoseconds
  · have hlast := valid.leap hleap
    refine ⟨60, ?_, by decide, ?_, ?_⟩
    · rw [if_pos hleap]
      omega
    · rw [if_pos rfl]
      omega
    · rw [if_pos rfl]
      omega
  · refine ⟨ofDay % 60, ?_, by omega, ?_, ?_⟩
    · rw [if_neg hleap, Nat.add_zero]
    · rw [if_neg (by omega)]
    · rw [if_neg (by omega)]
      omega

theorem reads_instant {t : Instant} (valid : t.IsValid) :
    Scan.Reads Scan.instant t.toText.toList t [] := by
  have hdate := valid.date
  have hnumber := Date.toDays_ofDays (t.seconds.fdiv 86400)
  have hofDay : (t.seconds.fmod 86400).toNat < 86400 ∧
      t.seconds.fdiv 86400 * 86400 + (t.seconds.fmod 86400).toNat = t.seconds := by
    rw [Int.fmod_eq_emod_of_nonneg _ (by decide), Int.fdiv_eq_ediv_of_nonneg _ (by decide)]
    omega
  obtain ⟨date, hdef⟩ : ∃ date, Date.ofDays (t.seconds.fdiv 86400) = date := ⟨_, rfl⟩
  rw [toText, hdef]
  rw [hdef] at hdate hnumber
  generalize (t.seconds.fmod 86400).toNat = ofDay at *
  obtain ⟨⟨⟨hleast, hgreatest⟩, hfirst⟩, hlast⟩ :
      ((leastYear ≤ date.year ∧ date.year ≤ greatestYear) ∧ 1 ≤ date.day) ∧
        date.day ≤ daysInMonth date.year date.month := by
    simpa [Date.isValid] using hdate
  obtain ⟨hmonth, hmonth'⟩ := month_of_daysInMonth (Nat.lt_of_lt_of_le hfirst hlast)
  have hlast' := daysInMonth_le date.year date.month
  obtain ⟨second, hsecond, hsixty, hshown, hfraction⟩ :=
    valid.exists_second (show (ofDay : Int) % 60 = t.seconds % 60 by omega)
  have hdash : "-".toList = ['-'] := by decide
  have hcolon : ":".toList = [':'] := by decide
  have htime : "T".toList = ['T'] := by decide
  have hzulu : "Z".toList = ['Z'] := by decide
  simp only [String.toList_append, List.append_assoc, hdash, hcolon, htime, hzulu,
    List.singleton_append, hsecond]
  refine .bind (Scan.reads_year hleast hgreatest ?_) ?_
  · rintro _ ⟨⟩
    rfl
  refine .bind (Scan.reads_mark rfl _) ?_
  refine .bind (Scan.reads_field (by decide) (by omega) hmonth hmonth' _) ?_
  refine .bind (Scan.reads_mark rfl _) ?_
  refine .bind (Scan.reads_field (by decide) (by omega) hfirst (by omega) _) ?_
  refine .bind (Scan.reads_separator _) ?_
  refine .bind (Scan.reads_field (by decide) (by omega) (by omega) (by omega) _) ?_
  refine .bind (Scan.reads_mark rfl _) ?_
  refine .bind (Scan.reads_field (by decide) (by omega) (by omega) (by omega) _) ?_
  refine .bind (Scan.reads_mark rfl _) ?_
  refine .bind (Scan.reads_field (by decide) (by omega) (by omega) hsixty _) ?_
  refine .bind (Scan.reads_fraction (by omega) ?_ ?_) ?_
  · rintro _ ⟨⟩
    rfl
  · decide
  refine .bind Scan.reads_zone (.bind (Scan.reads_modify _ _) (.bind (Scan.reads_get _) ?_))
  -- All is read, and the parts are put together again.
  have hsum : date.toDays * 86400 + (((ofDay / 3600 : Nat) : Int) * 3600 +
      ((ofDay / 60 % 60 : Nat) : Int) * 60 + ((ofDay % 60 : Nat) : Int)) - 0 = t.seconds := by
    omega
  have hnone : (!(List.dropWhile isBlank []).isEmpty) = false := rfl
  have hzone : ¬ 86400 ≤ Int.natAbs 0 := by decide
  simp only [hnone, hdate, hzone, hshown, hsum, hfraction, hdef, Bool.not_true, Bool.false_eq_true,
    ↓reduceIte]
  exact .pure t []

/-- The text of a point in time is read as that point. -/
theorem parse_toText {t : Instant} (valid : t.IsValid) : parse t.toText = .ok t := by
  have hread : Scan.instant.run t.toText.toList = .ok (t, []) := reads_instant valid
  rw [parse, hread]
  rfl

end Instant

end ModelShelf.Time
