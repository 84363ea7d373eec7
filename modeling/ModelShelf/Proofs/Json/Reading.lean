import ModelShelf.Json.Reader

/-!
How readers of JSON run on texts that they accept. `Reads read text a rest` says that a reader
yields a value and leaves the rest of the text, wherever in a document the text stands. It composes
along the steps of a reader, and a reader that leaves only blanks reads the whole document.
-/

namespace ModelShelf.Json.Reader

variable {read : Reader α} {text rest middle gap : List Char} {a : α} {b : β}

/-- From `text` the reader yields `a` and leaves `rest`, wherever the text stands. -/
def Reads (read : Reader α) (text : List Char) (a : α) (rest : List Char) : Prop :=
  ∀ position, ∃ after, read ⟨text, position⟩ = .ok a ⟨rest, after⟩

namespace Reads

theorem pure (a : α) (text : List Char) : Reads (Pure.pure a) text a text :=
  fun position => ⟨position, rfl⟩

theorem bind {next : α → Reader β} (h : Reads read text a middle)
    (hnext : Reads (next a) middle b rest) : Reads (read >>= next) text b rest := by
  intro position
  obtain ⟨between, h⟩ := h position
  obtain ⟨after, hnext⟩ := hnext between
  refine ⟨after, ?_⟩
  show EStateM.bind read next _ = _
  rw [EStateM.bind, h]
  exact hnext

theorem map (f : α → β) (h : Reads read text a rest) : Reads (f <$> read) text (f a) rest := by
  intro position
  obtain ⟨after, h⟩ := h position
  refine ⟨after, ?_⟩
  show EStateM.map f read _ = _
  rw [EStateM.map, h]

theorem seqRight {next : Reader β} (h : Reads read text a middle)
    (hnext : Reads next middle b rest) :
    Reads (read *> next) text b rest := by
  intro position
  obtain ⟨between, h⟩ := h position
  obtain ⟨after, hnext⟩ := hnext between
  refine ⟨after, ?_⟩
  show EStateM.seqRight read (fun _ => next) _ = _
  rw [EStateM.seqRight, h]
  exact hnext

theorem located (h : Reads read text a rest) : Reads (located read) text a rest := by
  intro position
  obtain ⟨after, h⟩ := h position
  refine ⟨after, ?_⟩
  rw [Reader.located, h]

end Reads

/-! ### Characters and blanks -/

theorem reads_peek? (text : List Char) : Reads peek? text text.head? text :=
  fun position => ⟨position, rfl⟩

theorem reads_next? (x : Char) (rest : List Char) : Reads next? (x :: rest) (some x) rest :=
  fun position => ⟨position.after x, rfl⟩

theorem reads_skip (x : Char) (rest : List Char) : Reads skip (x :: rest) () rest :=
  (reads_next? x rest).bind (.pure () rest)

theorem rest_dropWhile (p : Char → Bool) (position : Position) (text : List Char) :
    (dropWhile p position text).rest = text.dropWhile p := by
  induction text generalizing position with
  | nil => rfl
  | cons x text ih =>
    rw [dropWhile, List.dropWhile_cons]
    split
    · exact ih _
    · rfl

theorem reads_digits (text : List Char) :
    Reads digits text (text.takeWhile isDigit) (text.dropWhile isDigit) := by
  intro position
  refine ⟨(dropWhile isDigit position text).position, ?_⟩
  rw [digits, ← rest_dropWhile isDigit position text]

/-- A text of blanks only. -/
def Gap (text : List Char) : Prop := ∀ c ∈ text, isBlank c = true

theorem Gap.nil : Gap [] := nofun

theorem Gap.single : Gap [' '] := by
  intro c hc
  rw [List.mem_singleton.1 hc]
  rfl

theorem Gap.dropWhile_append_cons {c : Char} (h : Gap gap) (hc : isBlank c = false)
    (text : List Char) : (gap ++ c :: text).dropWhile isBlank = c :: text := by
  rw [List.dropWhile_append_of_pos h, List.dropWhile_cons_of_neg (by simp [hc])]

theorem reads_skipBlanks (text : List Char) :
    Reads skipBlanks text (text.dropWhile isBlank).head? (text.dropWhile isBlank) := by
  intro position
  refine ⟨(dropWhile isBlank position text).position, ?_⟩
  rw [skipBlanks, ← rest_dropWhile isBlank position text]

theorem reads_skipBlanks_gap {c : Char} (h : Gap gap) (hc : isBlank c = false) (text : List Char) :
    Reads skipBlanks (gap ++ c :: text) (some c) (c :: text) := by
  have := reads_skipBlanks (gap ++ c :: text)
  rwa [h.dropWhile_append_cons hc] at this

/-- Blanks in front of a value that is read by its first character do not count. -/
theorem reads_byFirst {read : Char → Reader α} {c : Char} (h : Gap gap) (hc : isBlank c = false)
    (hread : Reads (read c) (c :: text) a rest) :
    Reads (byFirst read) (gap ++ c :: text) a rest :=
  .located (.bind (reads_skipBlanks_gap h hc text) hread)

theorem reads_colon (h : Gap gap) (rest : List Char) : Reads colon (gap ++ ':' :: rest) () rest :=
  .bind (reads_skipBlanks_gap h rfl rest) (reads_skip ':' rest)

theorem reads_letters (expected rest : List Char) :
    Reads (letters expected) (expected ++ rest) () rest := by
  induction expected with
  | nil => exact .pure () rest
  | cons x expected ih =>
    refine .bind (reads_next? x (expected ++ rest)) ?_
    simpa using ih

/-! ### Brackets and whole texts -/

theorem Reads.enclosed {close : Reader Unit} {c : Char} (h : Reads read text a middle)
    (hclose : Reads close middle () rest) : Reads (enclosed close read) (c :: text) a rest := by
  intro position
  obtain ⟨between, h⟩ := Reads.seqRight (reads_skip c text) h position
  obtain ⟨after, hclose⟩ := hclose between
  refine ⟨after, ?_⟩
  simp only [Reader.enclosed, h, hclose]

theorem reads_endList (h : Gap gap) (rest : List Char) :
    Reads endList (gap ++ ']' :: rest) () rest :=
  .bind (reads_skipBlanks_gap h rfl rest) (reads_skip ']' rest)

theorem reads_endObject (h : Gap gap) (rest : List Char) :
    Reads endObject (gap ++ '\x7d' :: rest) () rest :=
  .bind (reads_skipBlanks_gap h rfl rest) (reads_skip '\x7d' rest)

theorem reads_skipBlanks_end (h : Gap rest) : Reads skipBlanks rest none [] := by
  have skipped := reads_skipBlanks rest
  have nothing : (rest ++ []).dropWhile isBlank = [] := List.dropWhile_append_of_pos h
  rw [List.append_nil] at nothing
  rwa [nothing] at skipped

theorem Reads.toEnd (h : Reads read text a rest) (hrest : Gap rest) :
    Reads (toEnd read) text a [] :=
  .bind h (.bind (reads_skipBlanks_end hrest) (.pure a _))

/-- A reader that leaves nothing but blanks reads the whole text. -/
theorem Reads.run {whole : String} (h : Reads read whole.toList a rest) (hrest : Gap rest) :
    Reader.run read whole = .ok a := by
  obtain ⟨after, hwhole⟩ := h.toEnd hrest .start
  have hwhole : Reader.toEnd read (.start whole) = .ok a ⟨[], after⟩ := hwhole
  rw [Reader.run, hwhole]

end ModelShelf.Json.Reader
