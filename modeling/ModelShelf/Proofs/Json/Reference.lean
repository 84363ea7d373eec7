import ModelShelf.Proofs.Json.Rendering

/-!
The text that the other writers of manifests give to lists and dictionaries. It is defined here by
its own rules, character by character: between quotes only the characters from the blank to the
tilde stand for themselves. What the library writes is this text, as long as no string holds the
delete character, which the library leaves as it is.
-/

namespace ModelShelf.Json

open Text (mem_intercalate)

namespace Reference

def unit (n : Nat) : List Char :=
  ['\\', 'u', (n / 4096).digitChar, (n / 256 % 16).digitChar, (n / 16 % 16).digitChar,
    (n % 16).digitChar]

/-- A character between quotes. -/
def character (c : Char) : List Char :=
  if c = '"' ∨ c = '\\' then ['\\', c]
  else if c = '\n' then ['\\', 'n']
  else if c = '\r' then ['\\', 'r']
  else if c = '\t' then ['\\', 't']
  else if c = '\x08' then ['\\', 'b']
  else if c = '\x0c' then ['\\', 'f']
  else if 0x20 ≤ c.toNat ∧ c.toNat ≤ 0x7e then [c]
  else if c.toNat ≤ 0xffff then unit c.toNat
  else
    unit (0xd800 + (c.toNat - 0x10000) / 0x400) ++ unit (0xdc00 + (c.toNat - 0x10000) % 0x400)

def string (s : String) : List Char := '"' :: (s.toList.flatMap character ++ ['"'])

def integer (n : Int) : List Char := (toString n).toList

def null : List Char := "null".toList

def list (items : List (List Char)) : List Char := '[' :: ([',', ' '].intercalate items ++ [']'])

def dictionary (entries : List (String × List Char)) : List Char :=
  let texts := entries.map fun entry => string entry.1 ++ [':', ' '] ++ entry.2
  '\x7b' :: ([',', ' '].intercalate texts ++ ['\x7d'])

/-! ### No delete character -/

def delete : Char := '\x7f'

theorem digitChar_ne_delete (n : Nat) : n.digitChar ≠ delete := by
  by_cases h : n < 16
  · exact (by decide : ∀ d < 16, d.digitChar ≠ delete) n h
  · rw [Nat.digitChar_eq_star.2 (by omega)]
    decide

theorem delete_not_mem_unit (n : Nat) : delete ∉ unit n := by
  have hfirst : delete ≠ '\\' := by decide
  have hsecond : delete ≠ 'u' := by decide
  simp [unit, hfirst, hsecond, (digitChar_ne_delete _).symm]

theorem delete_not_mem_character (c : Char) : delete ∉ character c := by
  intro h
  simp only [character] at h
  split at h
  · rename_i hc
    rcases hc with rfl | rfl <;> exact absurd h (by decide)
  iterate 5
    split at h
    · exact absurd h (by decide)
  split at h
  · rename_i hc
    obtain rfl := List.mem_singleton.1 h
    exact absurd hc (by decide)
  split at h
  · exact delete_not_mem_unit _ h
  · rcases List.mem_append.1 h with h | h
    · exact delete_not_mem_unit _ h
    · exact delete_not_mem_unit _ h

theorem delete_not_mem_string (s : String) : delete ∉ string s := by
  intro h
  rcases List.mem_cons.1 h with h | h
  · exact absurd h (by decide)
  · rcases List.mem_append.1 h with h | h
    · obtain ⟨c, -, hc⟩ := List.mem_flatMap.1 h
      exact delete_not_mem_character c hc
    · exact absurd h (by decide)

theorem delete_not_mem_integer (n : Int) : delete ∉ integer n := by
  intro h
  rcases mem_chars_integer h with h | h
  · exact absurd h (by decide)
  · exact absurd h (by decide)

theorem delete_not_mem_list {items : List (List Char)} (h : ∀ item ∈ items, delete ∉ item) :
    delete ∉ list items := by
  intro hmem
  simp only [list, List.mem_cons, List.mem_append] at hmem
  rcases hmem with hopen | hparts | hclose
  · exact absurd hopen (by decide)
  · rcases mem_intercalate hparts with hcomma | ⟨item, hitem, hmem⟩
    · exact absurd hcomma (by decide)
    · exact h item hitem hmem
  · exact absurd hclose (by decide)

theorem delete_not_mem_dictionary {entries : List (String × List Char)}
    (h : ∀ entry ∈ entries, delete ∉ entry.2) : delete ∉ dictionary entries := by
  intro hmem
  simp only [dictionary, List.mem_cons, List.mem_append] at hmem
  rcases hmem with hopen | hparts | hclose
  · exact absurd hopen (by decide)
  · rcases mem_intercalate hparts with hcomma | ⟨text, htext, hmem⟩
    · exact absurd hcomma (by decide)
    · obtain ⟨entry, hentry, rfl⟩ := List.mem_map.1 htext
      simp only [List.mem_append] at hmem
      rcases hmem with (hname | hcolon) | hvalue
      · exact delete_not_mem_string _ hname
      · exact absurd hcolon (by decide)
      · exact h entry hentry hvalue
  · exact absurd hclose (by decide)

end Reference

open Reference (delete)

/-! ### The text of the library -/

theorem unitEscape_eq_unit {n : Nat} (h : n < 0x10000) : unitEscape n = Reference.unit n := by
  rw [unitEscape, hexPadded_four h, Reference.unit]

theorem utf16Escape_eq (c : Char) :
    utf16Escape c =
      if c.toNat ≤ 0xffff then Reference.unit c.toNat
      else Reference.unit (0xd800 + (c.toNat - 0x10000) / 0x400) ++
        Reference.unit (0xdc00 + (c.toNat - 0x10000) % 0x400) := by
  have valid := toNat_valid c
  by_cases hsmall : c.toNat < 0x10000
  · simp only [utf16Escape]
    rw [if_pos hsmall, if_pos (by omega), unitEscape_eq_unit hsmall]
  · simp only [utf16Escape]
    rw [if_neg hsmall, if_neg (by omega), unitEscape_eq_unit (by omega),
      unitEscape_eq_unit (by omega)]

theorem charForm_eq_character {c : Char} (h : c ≠ delete) :
    spaced.charForm c = Reference.character c := by
  by_cases hshort : c ∈ ['"', '\\', '\n', '\r', '\t', '\x08', '\x0c']
  · simp only [List.mem_cons, List.not_mem_nil, or_false] at hshort
    rcases hshort with rfl | rfl | rfl | rfl | rfl | rfl | rfl <;> rfl
  · simp only [List.mem_cons, List.not_mem_nil, or_false, not_or] at hshort
    obtain ⟨hquote, hescape, hnewline, hreturn, htab, hback, hfeed⟩ := hshort
    have code : c.toNat ≠ 0x7f := fun heq => h (Char.toNat_inj.1 heq)
    simp only [Style.charForm, requiredEscape?, Reference.character, hquote, hescape, hnewline,
      hreturn, htab, hback, hfeed, or_self, if_false]
    by_cases hcontrol : c < ' '
    · have hlow : c.toNat < 0x20 := hcontrol
      have outside : ¬ (0x20 ≤ c.toNat ∧ c.toNat ≤ 0x7e) := by omega
      have single : c.toNat ≤ 0xffff := by omega
      rw [if_pos hcontrol, if_neg outside, if_pos single]
      exact unitEscape_eq_unit (by omega)
    · have hlow : ¬ c.toNat < 0x20 := hcontrol
      rw [if_neg hcontrol, ← utf16Escape_eq]
      by_cases hhigh : '\x7f' < c
      · have hcode : 0x7f < c.toNat := hhigh
        have outside : ¬ (0x20 ≤ c.toNat ∧ c.toNat ≤ 0x7e) := by omega
        rw [if_neg outside]
        simp [hhigh, spaced]
      · have hcode : ¬ 0x7f < c.toNat := hhigh
        have inside : 0x20 ≤ c.toNat ∧ c.toNat ≤ 0x7e := by omega
        rw [if_pos inside]
        simp [hhigh]

theorem chars_string_eq {s : String} (h : delete ∉ s.toList) :
    spaced.chars (.string s) = Reference.string s := by
  have forms : s.toList.flatMap spaced.charForm = s.toList.flatMap Reference.character := by
    rw [List.flatMap_def, List.flatMap_def]
    congr 1
    exact List.map_congr_left fun c hc => charForm_eq_character fun heq => h (heq ▸ hc)
  rw [chars_string, Style.stringChars, forms, Reference.string]

theorem chars_array_eq (items : List Json) :
    spaced.chars (.array items) = Reference.list (items.map spaced.chars) :=
  chars_array spaced items

theorem chars_object_eq {members : List (String × Json)}
    (h : ∀ name ∈ members.map Prod.fst, delete ∉ name.toList) :
    spaced.chars (.object members) =
      Reference.dictionary (memberTexts members) := by
  have texts : members.map spaced.memberChars = members.map fun member =>
      Reference.string member.1 ++ [':', ' '] ++ spaced.chars member.2 := by
    refine List.map_congr_left fun member hmember => ?_
    have solid := h member.1 (List.mem_map.2 ⟨member, hmember, rfl⟩)
    rw [← chars_string_eq solid, chars_string, List.append_assoc]
    rfl
  rw [chars_object, texts, Reference.dictionary, memberTexts, List.map_map]
  rfl

theorem delete_mem_string {s : String} (h : delete ∈ s.toList) :
    delete ∈ spaced.chars (.string s) := by
  have form : delete ∈ spaced.charForm delete := by decide
  rw [chars_string]
  exact List.mem_cons_of_mem _ (List.mem_append_left _ (List.mem_flatMap.2 ⟨delete, h, form⟩))

end ModelShelf.Json
