import Mathlib.Tactic.SplitIfs
import ModelShelf.Proofs.Text.Joining
import ModelShelf.Text.Quoted

/-!
Quoted texts. A quote inside the quotes always stands behind a backslash, as does every escape, and
no two characters share a form. A quoted text therefore ends at its closing quote, wherever it
stands.
-/

namespace ModelShelf.Text

/-! ### Hexadecimal digits -/

theorem digitChar_inj : ∀ m < 16, ∀ n < 16, Nat.digitChar m = Nat.digitChar n → m = n := by decide

theorem hexDigits_of_lt {n : Nat} (h : n < 16) : hexDigits n = [Nat.digitChar n] :=
  Nat.toDigits_of_lt_base h

theorem hexDigits_of_le {n : Nat} (h : 16 ≤ n) :
    hexDigits n = hexDigits (n / 16) ++ [Nat.digitChar (n % 16)] :=
  Nat.toDigits_of_base_le (by decide) h

theorem exists_digitChar_of_mem {n : Nat} {c : Char} (h : c ∈ hexDigits n) :
    ∃ d < 16, c = Nat.digitChar d := by
  induction n using Nat.strongRecOn with
  | ind n ih =>
    rcases Nat.lt_or_ge n 16 with hn | hn
    · rw [hexDigits_of_lt hn] at h
      exact ⟨n, hn, List.mem_singleton.1 h⟩
    · rw [hexDigits_of_le hn] at h
      rcases List.mem_append.1 h with h | h
      · exact ih (n / 16) (Nat.div_lt_self (by omega) (by decide)) h
      · exact ⟨n % 16, Nat.mod_lt n (by decide), List.mem_singleton.1 h⟩

/-- Different numbers have different digits. -/
theorem hexDigits_inj {m n : Nat} (h : hexDigits m = hexDigits n) : m = n := by
  -- One digit is no more than one.
  have single {k l : Nat} (hk : k < 16) (hl : 16 ≤ l) : hexDigits k ≠ hexDigits l := by
    intro heq
    have size := congrArg List.length heq
    have more : 0 < (hexDigits (l / 16)).length := Nat.length_toDigits_pos
    rw [hexDigits_of_lt hk, hexDigits_of_le hl, List.length_append, List.length_singleton,
      List.length_singleton] at size
    omega
  induction m using Nat.strongRecOn generalizing n with
  | ind m ih =>
    rcases Nat.lt_or_ge m 16 with hm | hm <;> rcases Nat.lt_or_ge n 16 with hn | hn
    · rw [hexDigits_of_lt hm, hexDigits_of_lt hn] at h
      exact digitChar_inj m hm n hn (List.singleton_inj.1 h)
    · exact absurd h (single hm hn)
    · exact absurd h.symm (single hn hm)
    · rw [hexDigits_of_le hm, hexDigits_of_le hn] at h
      obtain ⟨front, last⟩ := List.append_inj' h rfl
      have hdiv := ih (m / 16) (Nat.div_lt_self (by omega) (by decide)) front
      have hmod := digitChar_inj _ (Nat.mod_lt m (by decide)) _ (Nat.mod_lt n (by decide))
        (List.singleton_inj.1 last)
      omega

/-! ### Forms of characters -/

/-- The character that a letter behind a backslash stands for. -/
def escaped (letter : Char) : Char :=
  if letter = '0' then '\x00'
  else if letter = 't' then '\t'
  else if letter = 'r' then '\r'
  else if letter = 'n' then '\n'
  else letter

/-- The forms that a character may have between quotes: it stands for itself, it has a short escape,
or its number is written. -/
inductive QuotedForm (c : Char) : List Char → Prop
  | plain (notQuote : c ≠ '"') (notBackslash : c ≠ '\\') : QuotedForm c [c]
  | short {letter : Char} (notNumber : letter ≠ 'u') (means : escaped letter = c) :
    QuotedForm c ['\\', letter]
  | number : QuotedForm c (hexEscape c)

theorem quotedForm_quotedChar (c : Char) : QuotedForm c (quotedChar c) := by
  rw [quotedChar]
  split_ifs with hzero htab hreturn hnewline hbackslash hquote hnumber
  · exact .short (by decide) hzero.symm
  · exact .short (by decide) htab.symm
  · exact .short (by decide) hreturn.symm
  · exact .short (by decide) hnewline.symm
  · exact .short (by decide) hbackslash.symm
  · exact .short (by decide) hquote.symm
  · exact .number
  · exact .plain hquote hbackslash

theorem digitChar_ne_brace : ∀ d < 16, (Nat.digitChar d != '\x7d') = true := by decide

/-- The number of a character ends at the closing brace. -/
theorem hexEscape_prefixFree : PrefixFree hexEscape := by
  have digits : Separable (Past (· != '\x7d')) hexDigits := by
    refine separable_of_all (fun _ _ => hexDigits_inj) fun n => List.all_eq_true.2 fun c hc => ?_
    obtain ⟨d, hd, rfl⟩ := exists_digitChar_of_mem hc
    exact digitChar_ne_brace d hd
  have closed : PrefixFree fun n => hexDigits n ++ ['\x7d'] :=
    digits.before fun _ => past_cons rfl
  exact (closed.comp fun _ _ => Char.toNat_inj.1).behind ['\\', 'u', '\x7b']

/-- No form of a character begins as a form of another one does. -/
theorem quotedChar_prefixFree : PrefixFree quotedChar := by
  intro c d s t _ _ heq
  have first := quotedForm_quotedChar c
  have second := quotedForm_quotedChar d
  generalize quotedChar c = form at first heq
  generalize quotedChar d = form' at second heq
  cases first with
  | plain _ notBackslash =>
    cases second with
    | plain => exact List.cons.inj heq
    | short => exact absurd (List.cons.inj heq).1 notBackslash
    | number => exact absurd (List.cons.inj heq).1 notBackslash
  | short notNumber means =>
    cases second with
    | plain _ notBackslash => exact absurd (List.cons.inj heq).1.symm notBackslash
    | short _ means' =>
      obtain ⟨rfl, hrest⟩ := List.cons.inj (List.cons.inj heq).2
      exact ⟨means.symm.trans means', hrest⟩
    | number => exact absurd (List.cons.inj (List.cons.inj heq).2).1 notNumber
  | number =>
    cases second with
    | plain _ notBackslash => exact absurd (List.cons.inj heq).1.symm notBackslash
    | short notNumber => exact absurd (List.cons.inj (List.cons.inj heq).2).1.symm notNumber
    | number => exact hexEscape_prefixFree trivial trivial heq

/-- No form of a character begins with a quote. -/
theorem quotedChar_append_ne_quote (c : Char) (s t : List Char) :
    quotedChar c ++ s ≠ ['"'] ++ t := by
  have form := quotedForm_quotedChar c
  generalize quotedChar c = written at form
  intro heq
  cases form with
  | plain notQuote => exact notQuote (List.cons.inj heq).1
  | short => exact absurd (List.cons.inj heq).1 (by decide)
  | number => exact absurd (List.cons.inj heq).1 (by decide)

/-! ### Quoted texts -/

/-- A quoted text ends at its closing quote, whatever stands behind it. -/
theorem quotedChars_prefixFree : PrefixFree quotedChars := by
  have body : PrefixFree fun s : List Char => s.flatMap quotedChar ++ ['"'] :=
    quotedChar_prefixFree.flatMap (fun _ _ => trivial) (fun _ => trivial)
      quotedChar_append_ne_quote
  exact body.behind ['"']

end ModelShelf.Text
