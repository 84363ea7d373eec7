import ModelShelf.Proofs.Json.Yields

/-!
What readers of JSON scalars accept. Strings that are read are spelled and strings that are passed
over derive from the grammar, and so do numbers; an integer has neither a fraction nor an exponent.
-/

namespace ModelShelf.Json.Reader

open Grammar

variable {α β σ : Type} {read : Reader α} {text rest middle gap : List Char} {a b : α}

/-! ### Strings -/

theorem exists_of_yields_hexUnit {n : Nat} (h : Yields hexUnit text n rest) :
    ∃ x y z w, text = x :: y :: z :: w :: rest ∧ hexUnit? x y z w = some n := by
  obtain ⟨position, after, h⟩ := h
  simp only [hexUnit] at h
  split at h
  · cases h
  · split at h
    · rename_i x y z w more _
      split at h
      · rename_i hunit
        obtain ⟨rfl, hcursor⟩ := EStateM.Result.ok.inj h
        obtain rfl := congrArg Cursor.rest hcursor
        exact ⟨x, y, z, w, rfl, hunit⟩
      · cases h
    · cases h

theorem eq_of_yields_pairMark {c : Char} (h : Yields (pairMark c) text () rest) :
    text = c :: rest := by
  obtain ⟨found, middle, hfound, hnext⟩ := h.of_bind
  obtain ⟨rfl, rfl⟩ := eq_of_yields_peek? hfound
  split at hnext
  · exact (not_yields_failHere _ hnext).elim
  · rename_i x hx
    obtain ⟨more, rfl⟩ := List.head?_eq_some_iff.1 hx
    split at hnext
    · rename_i hc
      rw [eq_of_yields_skip hnext, hc]
    · exact (not_yields_failPeek _ hnext).elim

theorem spelling_of_yields_unicodeEscape {c : Char} (h : Yields unicodeEscape text c rest) :
    ∃ written, text = written ++ rest ∧ ∀ {more meant}, Spelling more meant →
      Spelling ('\\' :: 'u' :: (written ++ more)) (c :: meant) := by
  obtain ⟨high, _, hunit, hhigh⟩ := h.of_bind
  obtain ⟨x, y, z, w, rfl, stands⟩ := exists_of_yields_hexUnit hunit
  split at hhigh
  · exact (not_yields_failHere _ hhigh).elim
  · split at hhigh
    · rename_i single
      obtain ⟨rfl, rfl⟩ := hhigh.of_pure
      exact ⟨[x, y, z, w], rfl, fun tail => .unit stands single tail⟩
    · obtain ⟨_, _, hmark, hescape⟩ := hhigh.of_bind
      obtain ⟨_, _, hletter, hpair⟩ := hescape.of_bind
      obtain ⟨low, _, hlowUnit, hlow⟩ := hpair.of_bind
      obtain ⟨x', y', z', w', rfl, stands'⟩ := exists_of_yields_hexUnit hlowUnit
      obtain rfl := eq_of_yields_pairMark hletter
      obtain rfl := eq_of_yields_pairMark hmark
      split at hlow
      · exact (not_yields_failHere _ hlow).elim
      · obtain ⟨hc, rfl⟩ := hlow.of_pure
        refine ⟨[x, y, z, w, '\\', 'u', x', y', z', w'], rfl, fun tail => ?_⟩
        rw [hc]
        exact .pair stands (by omega) stands' (by omega) tail

/-- An escape that is read stands for a character, whatever comes behind it. -/
theorem spelling_of_yields_escape {c : Char} (h : Yields escape text c rest) :
    ∃ written, text = written ++ rest ∧ ∀ {more meant}, Spelling more meant →
      Spelling ('\\' :: (written ++ more)) (c :: meant) := by
  obtain ⟨found, middle, hfound, hnext⟩ := h.of_bind
  split at hnext
  · exact (not_yields_failHere _ hnext).elim
  · obtain ⟨written, rfl, spells⟩ := spelling_of_yields_unicodeEscape hnext
    exact ⟨'u' :: written, eq_of_yields_next? hfound, spells⟩
  · rename_i letter _
    split at hnext
    · rename_i stands
      obtain ⟨rfl, rfl⟩ := hnext.of_pure
      exact ⟨[letter], eq_of_yields_next? hfound, fun tail => .letter stands tail⟩
    · exact (not_yields_failHere _ hnext).elim

theorem spelling_of_yields_stringFrom {fuel : Nat} {before : List Char} {s : String}
    (h : Yields (stringFrom fuel before) text s rest) :
    ∃ written meant, text = written ++ '"' :: rest ∧ Spelling written meant ∧
      s = String.ofList (before.reverseAux meant) := by
  induction fuel generalizing before text with
  | zero => exact (not_yields_failHere _ h).elim
  | succ fuel ih =>
    obtain ⟨found, middle, hfound, hnext⟩ := h.of_bind
    split at hnext
    · exact (not_yields_failHere _ hnext).elim
    · obtain ⟨rfl, rfl⟩ := hnext.of_pure
      exact ⟨[], [], eq_of_yields_next? hfound, .nil, by simp⟩
    · obtain ⟨c, behind, hescape, hmore⟩ := hnext.of_bind
      obtain ⟨written, meant, rfl, spelled, rfl⟩ := ih hmore
      obtain ⟨escaped, rfl, spells⟩ := spelling_of_yields_escape hescape
      refine ⟨'\\' :: (escaped ++ written), c :: meant, ?_, spells spelled, rfl⟩
      rw [eq_of_yields_next? hfound]
      simp
    · rename_i c notQuote notEscape
      split at hnext
      · exact (not_yields_failHere _ hnext).elim
      · rename_i notControl
        obtain ⟨written, meant, rfl, spelled, rfl⟩ := ih hnext
        refine ⟨c :: written, c :: meant, eq_of_yields_next? hfound, ?_, rfl⟩
        exact .literal (fun hc => notQuote (hc ▸ rfl)) (fun hc => notEscape (hc ▸ rfl)) notControl
          spelled

/-- A string that is read is spelled before the closing quote. -/
theorem spelling_of_yields_stringBody {s : String} (h : Yields stringBody text s rest) :
    ∃ written, text = written ++ '"' :: rest ∧ Spelling written s.toList := by
  have h : Yields (stringFrom (text.length + 1) []) text s rest := h
  obtain ⟨written, meant, rfl, spelled, rfl⟩ := spelling_of_yields_stringFrom h
  refine ⟨written, rfl, ?_⟩
  rw [String.toList_ofList]
  exact spelled

theorem mem_hexDigits {c : Char} {n : Nat} (h : hexValue? c = some n) : c ∈ hexDigits := by
  have among {low high : Char} (hlow : low ≤ c) (hhigh : c ≤ high)
      (known : ∀ k < high.toNat - low.toNat + 1, Char.ofNat (low.toNat + k) ∈ hexDigits) :
      c ∈ hexDigits := by
    have hle : low.toNat ≤ c.toNat := hlow
    have hge : c.toNat ≤ high.toNat := hhigh
    have hmem := known (c.toNat - low.toNat) (by omega)
    rwa [Nat.add_sub_cancel' hle, Char.ofNat_toNat] at hmem
  rw [hexValue?] at h
  split at h
  · rename_i hdigit
    obtain ⟨hlow, hhigh⟩ := Bool.and_eq_true_iff.1 hdigit
    exact among (of_decide_eq_true hlow) (of_decide_eq_true hhigh) (by decide)
  · split at h
    · rename_i hletter
      obtain ⟨hlow, hhigh⟩ := Bool.and_eq_true_iff.1 hletter
      exact among (of_decide_eq_true hlow) (of_decide_eq_true hhigh) (by decide)
    · split at h
      · rename_i hletter
        obtain ⟨hlow, hhigh⟩ := Bool.and_eq_true_iff.1 hletter
        exact among (of_decide_eq_true hlow) (of_decide_eq_true hhigh) (by decide)
      · cases h

theorem mem_hexDigits_of_hexUnit? {x y z w : Char} {n : Nat} (h : hexUnit? x y z w = some n) :
    ∀ d ∈ [x, y, z, w], d ∈ hexDigits := by
  rw [hexUnit?] at h
  simp only [Option.bind_eq_bind, Option.bind_eq_some_iff] at h
  obtain ⟨_, hx, _, hy, _, hz, _, hw, -⟩ := h
  simp only [List.forall_mem_cons]
  exact ⟨mem_hexDigits hx, mem_hexDigits hy, mem_hexDigits hz, mem_hexDigits hw,
    List.forall_mem_nil _⟩

theorem mem_escapeLetters {letter : Char} (h : (shortEscape? letter).isSome = true) :
    letter ∈ escapeLetters := by
  unfold shortEscape? at h
  split at h
  all_goals first | decide | cases h

theorem stringBody_of_spelling {written meant : List Char} (h : Spelling written meant) :
    StringBody written := by
  induction h with
  | nil => exact .nil
  | literal notQuote notEscape notControl _ ih => exact .literal notQuote notEscape notControl ih
  | letter stands _ ih => exact .letter (mem_escapeLetters (by rw [stands]; rfl)) ih
  | unit stands _ _ ih => exact .unit (mem_hexDigits_of_hexUnit? stands) ih
  | pair standsHigh _ standsLow _ _ ih =>
    exact .unit (mem_hexDigits_of_hexUnit? standsHigh)
      (.unit (mem_hexDigits_of_hexUnit? standsLow) ih)

theorem stringBody_of_yields_skipEscape (h : Yields skipEscape text () rest) :
    ∃ written, text = written ++ rest ∧ ∀ {more}, StringBody more →
      StringBody ('\\' :: (written ++ more)) := by
  obtain ⟨found, middle, hfound, hnext⟩ := h.of_bind
  split at hnext
  · exact (not_yields_failHere _ hnext).elim
  · obtain ⟨n, _, hunit, hpure⟩ := hnext.of_bind
    obtain ⟨x, y, z, w, rfl, stands⟩ := exists_of_yields_hexUnit hunit
    obtain ⟨-, rfl⟩ := hpure.of_pure
    exact ⟨['u', x, y, z, w], eq_of_yields_next? hfound,
      fun tail => .unit (mem_hexDigits_of_hexUnit? stands) tail⟩
  · rename_i letter _
    split at hnext
    · exact (not_yields_failHere _ hnext).elim
    · rename_i known
      obtain ⟨-, rfl⟩ := hnext.of_pure
      have escapes := mem_escapeLetters (Option.isSome_iff_ne_none.2 (by simpa using known))
      exact ⟨[letter], eq_of_yields_next? hfound, fun tail => .letter escapes tail⟩

theorem stringBody_of_yields_skipStringFrom {fuel : Nat}
    (h : Yields (skipStringFrom fuel) text () rest) :
    ∃ body, text = body ++ '"' :: rest ∧ StringBody body := by
  induction fuel generalizing text with
  | zero => exact (not_yields_failHere _ h).elim
  | succ fuel ih =>
    obtain ⟨found, middle, hfound, hnext⟩ := h.of_bind
    obtain ⟨rfl, rfl⟩ := eq_of_yields_peek? hfound
    split at hnext
    · exact (not_yields_failHere _ hnext).elim
    · rename_i hquote
      obtain ⟨more, rfl⟩ := List.head?_eq_some_iff.1 hquote
      rw [eq_of_yields_skip hnext]
      exact ⟨[], rfl, .nil⟩
    · rename_i hslash
      obtain ⟨more, rfl⟩ := List.head?_eq_some_iff.1 hslash
      obtain ⟨_, _, hskip, hbehind⟩ := hnext.of_bind
      rw [eq_of_yields_skip hskip] at hbehind
      obtain ⟨_, _, hescape, hmore⟩ := hbehind.of_bind
      obtain ⟨body, rfl, hbody⟩ := ih hmore
      obtain ⟨written, rfl, escaped⟩ := stringBody_of_yields_skipEscape hescape
      exact ⟨'\\' :: (written ++ body), by simp, escaped hbody⟩
    · rename_i c notQuote notEscape hc
      obtain ⟨more, rfl⟩ := List.head?_eq_some_iff.1 hc
      split at hnext
      · exact (not_yields_failHere _ hnext).elim
      · rename_i notControl
        obtain ⟨_, _, hskip, hmore⟩ := hnext.of_bind
        rw [eq_of_yields_skip hskip] at hmore
        obtain ⟨body, rfl, hbody⟩ := ih hmore
        refine ⟨c :: body, rfl, .literal ?_ ?_ notControl hbody⟩
        · exact fun h => notQuote (h ▸ rfl)
        · exact fun h => notEscape (h ▸ rfl)

theorem stringBody_of_yields_skipString (h : Yields skipString text () rest) :
    ∃ body, text = body ++ '"' :: rest ∧ StringBody body :=
  stringBody_of_yields_skipStringFrom
    (show Yields (skipStringFrom (text.length + 1)) text () rest from h)

/-! ### Numbers -/

theorem digits_of_yields {ds : List Char} (h : Yields digits text ds rest) :
    text = ds ++ rest ∧ ∀ c ∈ ds, isDigit c = true := by
  obtain ⟨rfl, rfl⟩ := (reads_digits text).eq_of_yields h
  exact ⟨List.takeWhile_append_dropWhile.symm,
    fun c hc => List.all_eq_true.1 List.all_takeWhile c hc⟩

theorem digits_of_yields_skipDigits (h : Yields skipDigits text () rest) :
    ∃ s, text = s ++ rest ∧ Digits s := by
  obtain ⟨found, middle, hfound, hnext⟩ := h.of_bind
  split at hnext
  · rename_i first
    split at hnext
    · rename_i hfirst
      obtain ⟨more, _, hmore, hpure⟩ := hnext.of_bind
      obtain ⟨-, rfl⟩ := hpure.of_pure
      obtain ⟨rfl, others⟩ := digits_of_yields hmore
      exact ⟨first :: more, eq_of_yields_next? hfound, List.cons_ne_nil _ _,
        List.forall_mem_cons.2 ⟨hfirst, others⟩⟩
    · exact (not_yields_failHere _ hnext).elim
  · exact (not_yields_failHere _ hnext).elim

theorem whole_of_yields_skipWhole (h : Yields skipWhole text () rest) :
    ∃ whole, text = whole ++ rest ∧ Whole whole := by
  obtain ⟨found, middle, hfound, hnext⟩ := h.of_bind
  obtain ⟨rfl, rfl⟩ := eq_of_yields_peek? hfound
  split at hnext
  · rename_i hzero
    obtain ⟨more, rfl⟩ := List.head?_eq_some_iff.1 hzero
    obtain ⟨_, _, hskip, hbehind⟩ := hnext.of_bind
    rw [eq_of_yields_skip hskip] at hbehind
    obtain ⟨behind, _, hpeek, hend⟩ := hbehind.of_bind
    obtain ⟨rfl, rfl⟩ := eq_of_yields_peek? hpeek
    refine ⟨['0'], ?_, .zero⟩
    split at hend
    · split at hend
      · exact (not_yields_failPeek _ hend).elim
      · rw [hend.of_pure.2]
        rfl
    · rw [hend.of_pure.2]
      rfl
  · rename_i lead
    obtain ⟨s, rfl, digits⟩ := digits_of_yields_skipDigits hnext
    refine ⟨s, rfl, .digits digits fun hzero => ?_⟩
    obtain ⟨first, more, rfl, -⟩ := digits.exists_cons
    exact lead hzero

theorem fraction_of_yields_skipFraction (h : Yields skipFraction text () rest) :
    ∃ fraction, text = fraction ++ rest ∧ Fraction fraction := by
  obtain ⟨found, middle, hfound, hnext⟩ := h.of_bind
  obtain ⟨rfl, rfl⟩ := eq_of_yields_peek? hfound
  split at hnext
  · rename_i hpoint
    obtain ⟨more, rfl⟩ := List.head?_eq_some_iff.1 hpoint
    obtain ⟨_, _, hskip, hbehind⟩ := hnext.of_bind
    rw [eq_of_yields_skip hskip] at hbehind
    obtain ⟨ds, _, hdigits, hend⟩ := hbehind.of_bind
    obtain ⟨rfl, digits⟩ := digits_of_yields hdigits
    split at hend
    · exact (not_yields_failPeek _ hend).elim
    · rename_i hsome
      obtain ⟨-, rfl⟩ := hend.of_pure
      exact ⟨'.' :: ds, rfl, .digits ⟨by simpa using hsome, digits⟩⟩
  · rw [hnext.of_pure.2]
    exact ⟨[], rfl, .none⟩

theorem sign_of_yields_skipSign (h : Yields skipSign text () rest) :
    ∃ sign ∈ [[], ['+'], ['-']], text = sign ++ rest := by
  obtain ⟨found, middle, hfound, hnext⟩ := h.of_bind
  obtain ⟨rfl, rfl⟩ := eq_of_yields_peek? hfound
  split at hnext
  · rename_i hplus
    obtain ⟨more, rfl⟩ := List.head?_eq_some_iff.1 hplus
    rw [eq_of_yields_skip hnext]
    exact ⟨['+'], by simp, rfl⟩
  · rename_i hminus
    obtain ⟨more, rfl⟩ := List.head?_eq_some_iff.1 hminus
    rw [eq_of_yields_skip hnext]
    exact ⟨['-'], by simp, rfl⟩
  · rw [hnext.of_pure.2]
    exact ⟨[], by simp, rfl⟩

theorem exponent_of_yields_skipExponent (h : Yields skipExponent text () rest) :
    ∃ exponent, text = exponent ++ rest ∧ Exponent exponent := by
  obtain ⟨found, middle, hfound, hnext⟩ := h.of_bind
  obtain ⟨rfl, rfl⟩ := eq_of_yields_peek? hfound
  have marked {mark : Char} {more : List Char} (letter : mark = 'e' ∨ mark = 'E')
      (hread : Yields (do skip; skipSign; skipDigits) (mark :: more) () rest) :
      ∃ exponent, mark :: more = exponent ++ rest ∧ Exponent exponent := by
    obtain ⟨_, _, hskip, hbehind⟩ := hread.of_bind
    rw [eq_of_yields_skip hskip] at hbehind
    obtain ⟨_, _, hsign, hdigits⟩ := hbehind.of_bind
    obtain ⟨s, rfl, digits⟩ := digits_of_yields_skipDigits hdigits
    obtain ⟨sign, signed, rfl⟩ := sign_of_yields_skipSign hsign
    exact ⟨mark :: (sign ++ s), by simp, .digits letter signed digits⟩
  split at hnext
  · rename_i he
    obtain ⟨more, rfl⟩ := List.head?_eq_some_iff.1 he
    exact marked (.inl rfl) hnext
  · rename_i he
    obtain ⟨more, rfl⟩ := List.head?_eq_some_iff.1 he
    exact marked (.inr rfl) hnext
  · rw [hnext.of_pure.2]
    exact ⟨[], rfl, .none⟩

theorem number_of_yields_skipNumber (h : Yields skipNumber text () rest) :
    ∃ whole fraction exponent, text = whole ++ (fraction ++ (exponent ++ rest)) ∧ Whole whole ∧
      Fraction fraction ∧ Exponent exponent := by
  obtain ⟨_, _, hwhole, hnext⟩ := h.of_bind
  obtain ⟨_, _, hfraction, hexponent⟩ := hnext.of_bind
  obtain ⟨exponent, rfl, isExponent⟩ := exponent_of_yields_skipExponent hexponent
  obtain ⟨fraction, rfl, isFraction⟩ := fraction_of_yields_skipFraction hfraction
  obtain ⟨whole, rfl, isWhole⟩ := whole_of_yields_skipWhole hwhole
  exact ⟨whole, fraction, exponent, rfl, isWhole, isFraction, isExponent⟩

/-! ### Integers -/

theorem not_integer_of_floatOf {negative : Bool} {significand : Nat} {exponent n : Int} :
    ¬ Yields (floatOf negative significand exponent) text (.integer n) rest := by
  intro h
  rw [floatOf] at h
  split at h
  · exact not_yields_failHere _ h
  · cases h.of_pure.1

theorem not_integer_of_exponentDigits {negative below : Bool} {significand fuel read : Nat}
    {exponent n : Int} :
    ¬ Yields (exponentDigits negative significand exponent below fuel read) text (.integer n)
      rest := by
  intro h
  induction fuel generalizing read text with
  | zero => exact not_yields_failHere _ h
  | succ fuel ih =>
    obtain ⟨found, _, -, hnext⟩ := h.of_bind
    split at hnext
    · rename_i c
      split at hnext
      · obtain ⟨_, _, -, hmore⟩ := hnext.of_bind
        dsimp only at hmore
        by_cases hfits : ((read * 10 + digitValue c : Nat) : Int) ∉ Number.IntegerRange.signed32
        · rw [if_pos hfits] at hmore
          split at hmore
          · exact not_yields_failHere _ hmore
          · obtain ⟨_, _, -, hpure⟩ := hmore.of_bind
            cases hpure.of_pure.1
        · rw [if_neg hfits] at hmore
          exact ih hmore
      · exact not_integer_of_floatOf hnext
    · exact not_integer_of_floatOf hnext

theorem not_integer_of_exponentPart {negative : Bool} {significand : Nat} {exponent n : Int} :
    ¬ Yields (exponentPart negative significand exponent) text (.integer n) rest := by
  intro h
  have first {below : Bool} {next : Option Char → Reader Numeral} {text : List Char}
      (hnone : next none = failHere .endInValue)
      (hsome : ∀ c, next (some c) = if isDigit c then fun cursor =>
          exponentDigits negative significand exponent below (cursor.rest.length + 1)
            (digitValue c) cursor
        else failHere .invalidNumber) : ¬ Yields (next? >>= next) text (.integer n) rest := by
    intro hfirst
    obtain ⟨found, middle, -, hnext⟩ := hfirst.of_bind
    cases found with
    | none =>
      rw [hnone] at hnext
      exact not_yields_failHere _ hnext
    | some c =>
      rw [hsome] at hnext
      revert hnext
      cases isDigit c with
      | false => exact fun hfail => not_yields_failHere _ hfail
      | true =>
        rintro ⟨position, after, hrun⟩
        exact not_integer_of_exponentDigits ⟨position, after, hrun⟩
  obtain ⟨_, _, -, hsign⟩ := h.of_bind
  obtain ⟨_, _, -, hnext⟩ := hsign.of_bind
  dsimp only at hnext
  split at hnext
  · obtain ⟨_, _, -, hbelow⟩ := hnext.of_bind
    exact first rfl (fun _ => rfl) hbelow
  · obtain ⟨_, _, -, hbelow⟩ := hnext.of_bind
    exact first rfl (fun _ => rfl) hbelow
  · exact first rfl (fun _ => rfl) hnext

theorem not_integer_of_fractionPart {negative : Bool} {significand : Nat} {exponent n : Int} :
    ¬ Yields (fractionPart negative significand exponent) text (.integer n) rest := by
  intro h
  obtain ⟨_, _, -, hdigits⟩ := h.of_bind
  obtain ⟨ds, _, -, hnext⟩ := hdigits.of_bind
  split at hnext
  · obtain ⟨_, _, -, hfail⟩ := hnext.of_bind
    split at hfail <;> exact not_yields_failPeek _ hfail
  · obtain ⟨_, _, -, hmore⟩ := hnext.of_bind
    split at hmore
    · exact not_integer_of_exponentPart hmore
    · exact not_integer_of_exponentPart hmore
    · exact not_integer_of_floatOf hmore

theorem whole_of_yields_moreDigits {first : Char} {more : List Char} (hfirst : isDigit first = true)
    (h : Yields (moreDigits first) text more rest) :
    first :: text = (first :: more) ++ rest ∧ Whole (first :: more) := by
  unfold moreDigits at h
  split at h
  · rename_i hzero
    subst hzero
    obtain ⟨found, middle, hpeek, hstop⟩ := h.of_bind
    obtain ⟨-, rfl⟩ := eq_of_yields_peek? hpeek
    have alone : more = [] ∧ rest = middle := by
      split at hstop
      · split at hstop
        · exact (not_yields_failPeek _ hstop).elim
        · exact hstop.of_pure
      · exact hstop.of_pure
    obtain ⟨rfl, rfl⟩ := alone
    exact ⟨rfl, .zero⟩
  · rename_i lead
    obtain ⟨rfl, others⟩ := digits_of_yields h
    refine ⟨rfl, .digits ⟨List.cons_ne_nil _ _, List.forall_mem_cons.2 ⟨hfirst, others⟩⟩ ?_⟩
    exact fun hzero => lead (Option.some.inj hzero)

/-- An integer that is read is written without a fraction and an exponent. -/
theorem whole_of_yields_number {negative : Bool} {n : Int}
    (h : Yields (number negative) text (.integer n) rest) :
    ∃ whole, text = whole ++ rest ∧ Whole whole := by
  obtain ⟨found, middle, hfound, hnext⟩ := h.of_bind
  split at hnext
  · exact (not_yields_failHere _ hnext).elim
  · rename_i first
    split at hnext
    · exact (not_yields_failHere _ hnext).elim
    · rename_i hfirst
      obtain ⟨more, behind, hmore, hgather⟩ := hnext.of_bind
      obtain ⟨_, between, hpeek, hend⟩ := Yields.of_bind hgather
      obtain ⟨-, hbetween⟩ := eq_of_yields_peek? hpeek
      rw [hbetween] at hend
      split at hend
      · exact (not_integer_of_fractionPart hend).elim
      · exact (not_integer_of_exponentPart hend).elim
      · exact (not_integer_of_exponentPart hend).elim
      have hrest : rest = behind := by
        split at hend
        · exact (not_integer_of_floatOf hend).elim
        · split at hend
          · exact hend.of_pure.2
          · exact (not_integer_of_floatOf hend).elim
      subst hrest
      obtain ⟨htext, isWhole⟩ := whole_of_yields_moreDigits (by simpa using hfirst) hmore
      exact ⟨first :: more, (eq_of_yields_next? hfound).trans htext, isWhole⟩

theorem valueText_of_whole {sign whole : List Char} (hsign : sign = [] ∨ sign = ['-'])
    (h : Whole whole) : ValueText (sign ++ whole) := by
  have number : ValueText (sign ++ (whole ++ ([] ++ []))) := .number hsign h .none .none
  rwa [List.append_nil, List.append_nil] at number

theorem accepts_integer64 : Accepts integer64 fun text _ => ValueText text := by
  refine accepts_byFirst fun {c more n rest} h => ?_
  split at h
  · obtain ⟨numeral, middle, hnumber, hnext⟩ := h.of_bind
    cases numeral with
    | float x => exact (not_yields_mismatch _ hnext).elim
    | integer m =>
      have hrest : rest = middle := by
        split at hnext
        · rename_i heq
          split at hnext
          · exact hnext.of_pure.2
          · exact (not_yields_mismatch _ hnext).elim
        · rename_i heq
          cases heq
      subst hrest
      rw [numberAt] at hnumber
      split at hnumber
      · rename_i hminus
        obtain ⟨_, _, hskip, hnumber'⟩ := hnumber.of_seqRight
        rw [eq_of_yields_skip hskip] at hnumber'
        obtain ⟨whole, rfl, isWhole⟩ := whole_of_yields_number hnumber'
        exact ⟨['-'] ++ whole, by rw [hminus]; rfl, valueText_of_whole (.inr rfl) isWhole⟩
      · obtain ⟨whole, htext, isWhole⟩ := whole_of_yields_number hnumber
        exact ⟨[] ++ whole, htext, valueText_of_whole (.inl rfl) isWhole⟩
  · exact (not_yields_refuse h).elim

/-! ### Texts -/

theorem valueText_of_spelling {written meant : List Char} (h : Spelling written meant) :
    ValueText ('"' :: (written ++ ['"'])) :=
  .string (stringBody_of_spelling h)

theorem accepts_text : Accepts Reader.text fun text s =>
    ∃ written, Spelling written s.toList ∧ text = '"' :: (written ++ ['"']) := by
  refine accepts_byFirst fun {c more s rest} h => ?_
  split at h
  · rename_i hquote
    obtain ⟨_, _, hskip, hbody⟩ := h.of_seqRight
    rw [eq_of_yields_skip hskip] at hbody
    obtain ⟨written, rfl, spelled⟩ := spelling_of_yields_stringBody hbody
    exact ⟨'"' :: (written ++ ['"']), by rw [hquote]; simp, written, spelled, rfl⟩
  · exact (not_yields_refuse h).elim

end ModelShelf.Json.Reader
