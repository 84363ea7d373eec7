import ModelShelf.Proofs.Json.Grammar
import ModelShelf.Proofs.Json.Layout

/-!
What readers of JSON have read when they succeed. `Yields read text a rest` says that somewhere in a
document a reader yields a value from a text and leaves the rest; then each of its steps has
yielded. `Accepts read item` says that what a reader has read is a text of the given kind, behind
blanks: a list of items that are accepted is the text of a list, and members that are accepted one
after the other are an object.
-/

namespace ModelShelf.Json.Reader

variable {α β σ : Type} {read : Reader α} {text rest middle gap : List Char} {a b : α}

/-- From `text` the reader yields `a` and leaves `rest`, at some place. -/
def Yields (read : Reader α) (text : List Char) (a : α) (rest : List Char) : Prop :=
  ∃ position after, read ⟨text, position⟩ = .ok a ⟨rest, after⟩

/-! ### Steps -/

theorem Reads.eq_of_yields (h : Reads read text a middle) (h' : Yields read text b rest) :
    b = a ∧ rest = middle := by
  obtain ⟨position, after, h'⟩ := h'
  obtain ⟨between, h⟩ := h position
  obtain ⟨rfl, hcursor⟩ := EStateM.Result.ok.inj (h'.symm.trans h)
  exact ⟨rfl, congrArg Cursor.rest hcursor⟩

theorem not_yields_failHere (cause : Cause) : ¬ Yields (failHere cause) text a rest := by
  rintro ⟨_, _, ⟨⟩⟩

theorem not_yields_failPeek (cause : Cause) : ¬ Yields (failPeek cause) text a rest := by
  rintro ⟨_, _, ⟨⟩⟩

theorem not_yields_mismatch (m : Text.Mismatch) : ¬ Yields (mismatch m) text a rest := by
  rintro ⟨_, _, ⟨⟩⟩

namespace Yields

theorem of_pure (h : Yields (Pure.pure a) text b rest) : b = a ∧ rest = text :=
  (Reads.pure a text).eq_of_yields h

theorem of_bind {next : α → Reader β} {b : β} (h : Yields (read >>= next) text b rest) :
    ∃ a middle, Yields read text a middle ∧ Yields (next a) middle b rest := by
  obtain ⟨position, after, h⟩ := h
  have h : EStateM.bind read next ⟨text, position⟩ = _ := h
  rw [EStateM.bind] at h
  split at h
  · rename_i a between hread
    exact ⟨a, between.rest, ⟨position, between.position, hread⟩, between.position, after, h⟩
  · cases h

theorem of_map {f : α → β} {b : β} (h : Yields (f <$> read) text b rest) :
    ∃ a, b = f a ∧ Yields read text a rest := by
  rw [← bind_pure_comp] at h
  obtain ⟨a, middle, hread, hpure⟩ := h.of_bind
  obtain ⟨rfl, rfl⟩ := of_pure hpure
  exact ⟨a, rfl, hread⟩

theorem of_seqRight {next : Reader β} {b : β} (h : Yields (read *> next) text b rest) :
    ∃ a middle, Yields read text a middle ∧ Yields next middle b rest := by
  rw [seqRight_eq_bind] at h
  exact h.of_bind

theorem of_located (h : Yields (located read) text a rest) : Yields read text a rest := by
  obtain ⟨position, after, h⟩ := h
  rw [located] at h
  split at h
  · rename_i hread
    exact ⟨position, after, hread.trans h⟩
  · cases h

end Yields

/-! ### Characters and blanks -/

theorem eq_of_yields_peek? {found : Option Char} (h : Yields peek? text found rest) :
    found = text.head? ∧ rest = text :=
  (reads_peek? text).eq_of_yields h

theorem eq_of_yields_next? {c : Char} (h : Yields next? text (some c) rest) : text = c :: rest := by
  cases text with
  | nil =>
    obtain ⟨_, _, h⟩ := h
    cases h
  | cons x more =>
    obtain ⟨hc, rfl⟩ := (reads_next? x more).eq_of_yields h
    rw [Option.some.inj hc]

theorem eq_of_yields_skip {c : Char} (h : Yields skip (c :: text) () rest) : rest = text :=
  ((reads_skip c text).eq_of_yields h).2

theorem gap_takeWhile (text : List Char) : Gap (text.takeWhile isBlank) :=
  fun _ hc => List.all_eq_true.1 List.all_takeWhile _ hc

/-- What stands behind blanks, and is none. -/
structure Behind (text : List Char) (found : Option Char) (rest : List Char) : Prop where
  found : found = rest.head?
  blank : ∃ gap, Gap gap ∧ text = gap ++ rest
  solid : ∀ c, rest.head? = some c → isBlank c = false

theorem behind_of_yields {found : Option Char} (h : Yields skipBlanks text found rest) :
    Behind text found rest := by
  obtain ⟨rfl, rfl⟩ := (reads_skipBlanks text).eq_of_yields h
  refine ⟨rfl, ⟨text.takeWhile isBlank, gap_takeWhile text, ?_⟩, fun c hc => ?_⟩
  · exact List.takeWhile_append_dropWhile.symm
  · have hnot := List.head?_dropWhile_not isBlank text
    rw [hc] at hnot
    simpa using hnot

theorem Behind.exists_cons {c : Char} (h : Behind text (some c) rest) :
    ∃ gap more, Gap gap ∧ rest = c :: more ∧ text = gap ++ c :: more ∧ isBlank c = false := by
  obtain ⟨found, ⟨gap, blank, htext⟩, solid⟩ := h
  obtain ⟨more, rfl⟩ := List.head?_eq_some_iff.1 found.symm
  exact ⟨gap, more, blank, rfl, htext, solid c rfl⟩

theorem gap_of_yields_colon (h : Yields colon text () rest) :
    ∃ gap, Gap gap ∧ text = gap ++ ':' :: rest := by
  obtain ⟨found, middle, hfound, hnext⟩ := h.of_bind
  have behind := behind_of_yields hfound
  split at hnext
  · obtain ⟨gap, more, blank, rfl, htext, -⟩ := behind.exists_cons
    rw [eq_of_yields_skip hnext]
    exact ⟨gap, blank, htext⟩
  · exact (not_yields_failPeek _ hnext).elim
  · exact (not_yields_failPeek _ hnext).elim

theorem eq_of_yields_letters {expected : List Char} (h : Yields (letters expected) text () rest) :
    text = expected ++ rest := by
  induction expected generalizing text with
  | nil => exact h.of_pure.2.symm
  | cons x expected ih =>
    obtain ⟨found, middle, hfound, hnext⟩ := h.of_bind
    split at hnext
    · exact (not_yields_failHere _ hnext).elim
    · split at hnext
      · rename_i hc
        rw [eq_of_yields_next? hfound, ih hnext, hc]
        rfl
      · exact (not_yields_failHere _ hnext).elim

/-! ### Brackets -/

theorem gap_of_yields_endList (h : Yields endList text () rest) :
    ∃ gap, Gap gap ∧ text = gap ++ ']' :: rest := by
  obtain ⟨found, middle, hfound, hnext⟩ := h.of_bind
  have behind := behind_of_yields hfound
  split at hnext
  · obtain ⟨gap, more, blank, rfl, htext, -⟩ := behind.exists_cons
    rw [eq_of_yields_skip hnext]
    exact ⟨gap, blank, htext⟩
  · obtain ⟨_, _, -, hnext⟩ := hnext.of_bind
    obtain ⟨_, _, -, hnext⟩ := hnext.of_bind
    split at hnext <;> exact (not_yields_failPeek _ hnext).elim
  · exact (not_yields_failPeek _ hnext).elim
  · exact (not_yields_failPeek _ hnext).elim

theorem eq_of_yields_endList (h : Yields endList (']' :: text) () rest) : rest = text :=
  ((reads_endList Gap.nil text).eq_of_yields h).2

theorem eq_of_yields_endObject (h : Yields endObject ('\x7d' :: text) () rest) : rest = text :=
  ((reads_endObject Gap.nil text).eq_of_yields h).2

theorem yields_of_enclosed {close : Reader Unit} {c : Char}
    (h : Yields (enclosed close read) (c :: text) a rest) :
    ∃ middle, Yields read text a middle ∧ Yields close middle () rest := by
  obtain ⟨position, after, h⟩ := h
  rw [enclosed] at h
  split at h
  · rename_i b between hinside
    split at h
    · rename_i behind hclose
      obtain ⟨rfl, rfl⟩ := EStateM.Result.ok.inj h
      have inside : Yields (skip *> read) (c :: text) b between.rest :=
        ⟨position, between.position, hinside⟩
      obtain ⟨_, middle, hskip, hread⟩ := inside.of_seqRight
      rw [eq_of_yields_skip hskip] at hread
      exact ⟨between.rest, hread, between.position, after, hclose⟩
    · cases h
  · split at h <;> cases h

/-! ### Values by their first character -/

/-- What a reader has read is a text of the given kind, behind blanks. -/
def Accepts (read : Reader α) (item : List Char → α → Prop) : Prop :=
  ∀ ⦃text a rest⦄, Yields read text a rest →
    ∃ gap body, Gap gap ∧ text = gap ++ (body ++ rest) ∧ item body a

variable {item : List Char → α → Prop}

theorem Accepts.imp {item' : List Char → α → Prop} (h : Accepts read item)
    (himp : ∀ {text a}, item text a → item' text a) : Accepts read item' := by
  intro text a rest hread
  obtain ⟨gap, body, blank, htext, hitem⟩ := h hread
  exact ⟨gap, body, blank, htext, himp hitem⟩

theorem accepts_byFirst {read : Char → Reader α}
    (h : ∀ {c more a rest}, Yields (read c) (c :: more) a rest →
      ∃ body, c :: more = body ++ rest ∧ item body a) : Accepts (byFirst read) item := by
  intro text a rest hread
  obtain ⟨found, middle, hfound, hnext⟩ := hread.of_located.of_bind
  have behind := behind_of_yields hfound
  split at hnext
  · exact (not_yields_failPeek _ hnext).elim
  · obtain ⟨gap, more, blank, rfl, htext, -⟩ := behind.exists_cons
    obtain ⟨body, hbody, hitem⟩ := h hnext
    exact ⟨gap, body, blank, by rw [htext, hbody], hitem⟩

theorem not_yields_refuse {expected : String} {first : Char} :
    ¬ Yields (refuse expected first) text a rest := by
  intro h
  rw [refuse] at h
  split at h
  · obtain ⟨_, _, -, h⟩ := h.of_bind
    exact not_yields_mismatch _ h
  split at h
  · obtain ⟨_, _, -, h⟩ := h.of_bind
    exact not_yields_mismatch _ h
  split at h
  · obtain ⟨_, _, -, h⟩ := h.of_bind
    exact not_yields_mismatch _ h
  split at h
  · obtain ⟨_, _, -, h⟩ := h.of_bind
    obtain ⟨_, _, -, h⟩ := h.of_bind
    exact not_yields_mismatch _ h
  split at h
  · exact not_yields_mismatch _ h
  split at h
  · exact not_yields_mismatch _ h
  · exact not_yields_failPeek _ h

/-- The text of a value that may be null. -/
def OptionalText (item : List Char → α → Prop) (text : List Char) : Option α → Prop
  | none => text = ['n', 'u', 'l', 'l']
  | some a => item text a

theorem accepts_optional (h : Accepts read item) :
    Accepts (optional read) (OptionalText item) := by
  intro text found rest hread
  obtain ⟨first, middle, hfirst, hnext⟩ := hread.of_bind
  have behind := behind_of_yields hfirst
  split at hnext
  · obtain ⟨gap, more, blank, rfl, htext, -⟩ := behind.exists_cons
    obtain ⟨_, _, hliteral, hpure⟩ := hnext.of_bind
    obtain ⟨_, _, hskip, hletters⟩ := hliteral.of_seqRight
    rw [eq_of_yields_skip hskip] at hletters
    obtain ⟨rfl, rfl⟩ := hpure.of_pure
    refine ⟨gap, ['n', 'u', 'l', 'l'], blank, ?_, rfl⟩
    rw [htext, eq_of_yields_letters hletters]
    rfl
  · obtain ⟨a, rfl, hvalue⟩ := hnext.of_map
    obtain ⟨-, ⟨gap, blank, htext⟩, -⟩ := behind
    obtain ⟨gap', body, blank', rfl, hitem⟩ := h hvalue
    refine ⟨gap ++ gap', body, List.forall_mem_append.2 ⟨blank, blank'⟩, ?_, hitem⟩
    rw [htext, List.append_assoc]

/-! ### Lists -/

theorem gap_of_yields_hasItem_end {isFirst : Bool}
    (h : Yields (hasItem isFirst) text false rest) :
    ∃ gap more, Gap gap ∧ text = gap ++ ']' :: more ∧ rest = ']' :: more := by
  obtain ⟨found, middle, hfound, hnext⟩ := h.of_bind
  have behind := behind_of_yields hfound
  split at hnext
  · exact (not_yields_failPeek _ hnext).elim
  · obtain ⟨gap, more, blank, rfl, htext, -⟩ := behind.exists_cons
    exact ⟨gap, more, blank, htext, hnext.of_pure.2⟩
  · split at hnext
    · cases hnext.of_pure.1
    · split at hnext
      · obtain ⟨_, _, -, hnext⟩ := hnext.of_bind
        obtain ⟨_, _, -, hnext⟩ := hnext.of_bind
        split at hnext
        · exact (not_yields_failPeek _ hnext).elim
        · cases hnext.of_pure.1
        · exact (not_yields_failPeek _ hnext).elim
      · exact (not_yields_failPeek _ hnext).elim

theorem gap_of_yields_hasItem_first (h : Yields (hasItem true) text true rest) :
    ∃ gap, Gap gap ∧ text = gap ++ rest := by
  obtain ⟨found, middle, hfound, hnext⟩ := h.of_bind
  obtain ⟨-, blank, -⟩ := behind_of_yields hfound
  split at hnext
  · exact (not_yields_failPeek _ hnext).elim
  · cases hnext.of_pure.1
  · rwa [hnext.of_pure.2]

theorem gap_of_yields_hasItem_next (h : Yields (hasItem false) text true rest) :
    ∃ gap lead, Gap gap ∧ Gap lead ∧ text = gap ++ ',' :: (lead ++ rest) := by
  obtain ⟨found, middle, hfound, hnext⟩ := h.of_bind
  have behind := behind_of_yields hfound
  split at hnext
  · exact (not_yields_failPeek _ hnext).elim
  · cases hnext.of_pure.1
  · obtain ⟨gap, more, blank, rfl, htext, -⟩ := behind.exists_cons
    rw [if_neg Bool.false_ne_true] at hnext
    split at hnext
    · rename_i hcomma
      obtain ⟨_, _, hskip, hnext⟩ := hnext.of_bind
      rw [eq_of_yields_skip hskip] at hnext
      obtain ⟨_, _, hlead, hnext⟩ := hnext.of_bind
      obtain ⟨-, ⟨lead, leadBlank, hmore⟩, -⟩ := behind_of_yields hlead
      split at hnext
      · exact (not_yields_failPeek _ hnext).elim
      · obtain ⟨-, rfl⟩ := hnext.of_pure
        exact ⟨gap, lead, blank, leadBlank, by rw [htext, hmore, hcomma]⟩
      · exact (not_yields_failPeek _ hnext).elim
    · exact (not_yields_failPeek _ hnext).elim

theorem moreItems_of_yields {read : Reader α} (hitem : Accepts read item) {fuel : Nat}
    {before as : List α} (h : Yields (itemsFrom read fuel false before) text as rest) :
    ∃ tail more items, text = tail ++ ']' :: more ∧ rest = ']' :: more ∧
      MoreItems item tail items ∧ as = before.reverseAux items := by
  induction fuel generalizing before text with
  | zero => exact (not_yields_failPeek _ h).elim
  | succ fuel ih =>
    obtain ⟨goesOn, middle, hgoes, hnext⟩ := h.of_bind
    cases goesOn with
    | false =>
      obtain ⟨gap, more, blank, rfl, rfl⟩ := gap_of_yields_hasItem_end hgoes
      obtain ⟨rfl, rfl⟩ := hnext.of_pure
      exact ⟨gap, more, [], rfl, rfl, .done blank, by simp⟩
    | true =>
      obtain ⟨gap, lead, blank, leadBlank, rfl⟩ := gap_of_yields_hasItem_next hgoes
      obtain ⟨a, between, hread, hmore⟩ := Yields.of_bind hnext
      obtain ⟨gap', body, blank', rfl, written⟩ := hitem hread
      obtain ⟨tail, more, items, rfl, rfl, hitems, rfl⟩ := ih hmore
      refine ⟨gap ++ ',' :: ((lead ++ gap') ++ (body ++ tail)), more, a :: items, ?_, rfl,
        .next blank (List.forall_mem_append.2 ⟨leadBlank, blank'⟩) written hitems, rfl⟩
      simp

/-- A list of items that are accepted is the text of a list. -/
theorem accepts_list (hitem : Accepts read item) : Accepts (list read) (ListText item) := by
  refine accepts_byFirst fun {c more as rest} h => ?_
  split at h
  · rename_i hc
    subst hc
    obtain ⟨middle, hitems, hend⟩ := yields_of_enclosed h
    have hitems : Yields (itemsFrom read (more.length + 1) true []) more as middle := hitems
    obtain ⟨goesOn, between, hgoes, hnext⟩ := hitems.of_bind
    cases goesOn with
    | false =>
      obtain ⟨gap, last, blank, rfl, rfl⟩ := gap_of_yields_hasItem_end hgoes
      obtain ⟨rfl, rfl⟩ := hnext.of_pure
      rw [eq_of_yields_endList hend]
      exact ⟨'[' :: (gap ++ [']']), by simp, .nil blank⟩
    | true =>
      obtain ⟨gap, blank, rfl⟩ := gap_of_yields_hasItem_first hgoes
      obtain ⟨a, _, hread, hmore⟩ := Yields.of_bind hnext
      obtain ⟨gap', body, blank', rfl, written⟩ := hitem hread
      obtain ⟨tail, last, items, rfl, rfl, others, rfl⟩ := moreItems_of_yields hitem hmore
      rw [eq_of_yields_endList hend]
      exact ⟨'[' :: ((gap ++ gap') ++ (body ++ (tail ++ [']']))), by simp,
        .cons (List.forall_mem_append.2 ⟨blank, blank'⟩) written others⟩
  · exact (not_yields_refuse h).elim

/-! ### Objects -/

theorem gap_of_yields_hasMember_end {isFirst : Bool}
    (h : Yields (hasMember isFirst) text false rest) :
    ∃ gap more, Gap gap ∧ text = gap ++ '\x7d' :: more ∧ rest = '\x7d' :: more := by
  obtain ⟨found, middle, hfound, hnext⟩ := h.of_bind
  have behind := behind_of_yields hfound
  split at hnext
  · exact (not_yields_failPeek _ hnext).elim
  · obtain ⟨gap, more, blank, rfl, htext, -⟩ := behind.exists_cons
    exact ⟨gap, more, blank, htext, hnext.of_pure.2⟩
  · split at hnext
    · split at hnext
      · cases hnext.of_pure.1
      · exact (not_yields_failPeek _ hnext).elim
    · split at hnext
      · obtain ⟨_, _, -, hnext⟩ := hnext.of_bind
        obtain ⟨_, _, -, hnext⟩ := hnext.of_bind
        split at hnext
        · cases hnext.of_pure.1
        all_goals exact (not_yields_failPeek _ hnext).elim
      · exact (not_yields_failPeek _ hnext).elim

theorem gap_of_yields_hasMember_first (h : Yields (hasMember true) text true rest) :
    ∃ gap more, Gap gap ∧ text = gap ++ '"' :: more ∧ rest = '"' :: more := by
  obtain ⟨found, middle, hfound, hnext⟩ := h.of_bind
  have behind := behind_of_yields hfound
  split at hnext
  · exact (not_yields_failPeek _ hnext).elim
  · cases hnext.of_pure.1
  · obtain ⟨gap, more, blank, rfl, htext, -⟩ := behind.exists_cons
    rw [if_pos rfl] at hnext
    split at hnext
    · rename_i hquote
      subst hquote
      exact ⟨gap, more, blank, htext, hnext.of_pure.2⟩
    · exact (not_yields_failPeek _ hnext).elim

theorem gap_of_yields_hasMember_next (h : Yields (hasMember false) text true rest) :
    ∃ gap lead more, Gap gap ∧ Gap lead ∧ text = gap ++ ',' :: (lead ++ '"' :: more) ∧
      rest = '"' :: more := by
  obtain ⟨found, middle, hfound, hnext⟩ := h.of_bind
  have behind := behind_of_yields hfound
  split at hnext
  · exact (not_yields_failPeek _ hnext).elim
  · cases hnext.of_pure.1
  · obtain ⟨gap, more, blank, rfl, htext, -⟩ := behind.exists_cons
    rw [if_neg Bool.false_ne_true] at hnext
    split at hnext
    · rename_i hcomma
      obtain ⟨_, _, hskip, hnext⟩ := hnext.of_bind
      rw [eq_of_yields_skip hskip] at hnext
      obtain ⟨_, _, hlead, hnext⟩ := hnext.of_bind
      have behindComma := behind_of_yields hlead
      split at hnext
      · obtain ⟨lead, more', leadBlank, rfl, hmore, -⟩ := behindComma.exists_cons
        exact ⟨gap, lead, more', blank, leadBlank, by rw [htext, hmore, hcomma],
          hnext.of_pure.2⟩
      all_goals exact (not_yields_failPeek _ hnext).elim
    · exact (not_yields_failPeek _ hnext).elim

/-! ### Whole texts -/

/-- Behind a value that a whole text holds only blanks are left. -/
theorem yields_of_run {whole : String} (h : run read whole = .ok a) :
    ∃ rest, Yields read whole.toList a rest ∧ Gap rest := by
  rw [run] at h
  split at h
  · rename_i b after hend
    cases h
    have hend : Yields (toEnd read) whole.toList a after.rest := ⟨.start, after.position, hend⟩
    obtain ⟨_, rest, hread, hbehind⟩ := hend.of_bind
    obtain ⟨found, _, hfound, hpure⟩ := hbehind.of_bind
    obtain ⟨hhead, ⟨gap, blank, rfl⟩, -⟩ := behind_of_yields hfound
    split at hpure
    · exact (not_yields_failPeek _ hpure).elim
    · obtain ⟨rfl, rfl⟩ := hpure.of_pure
      rw [List.head?_eq_none_iff.1 hhead.symm, List.append_nil] at hread
      exact ⟨gap, hread, blank⟩
  · cases h

end ModelShelf.Json.Reader
