import ModelShelf.Proofs.Json.Layout
import ModelShelf.Proofs.Json.Numbers

/-!
How readers of JSON take the texts of whole values. `Takes read text a` says that a reader yields a
value from its text, whatever blanks stand in front of it and whatever may follow a value behind
it. A list is taken when its items are, and an object when each of its members takes the state of
the reader on; blanks may stand around every item, name, colon and comma.
-/

namespace ModelShelf.Json.Reader

open Number

/-- A text that may follow a value: it is empty, or begins with a blank, a comma or a bracket. -/
def EndsValue (rest : List Char) : Prop :=
  ∀ c, rest.head? = some c → isBlank c = true ∨ c = ',' ∨ c = ']' ∨ c = '\x7d'

theorem EndsValue.nil : EndsValue [] := nofun

theorem EndsValue.gap {gap : List Char} (h : Gap gap) {rest : List Char} (hrest : EndsValue rest) :
    EndsValue (gap ++ rest) := by
  cases gap with
  | nil => exact hrest
  | cons c gap =>
    intro x hx
    obtain rfl := Option.some.inj hx
    exact .inl (h _ List.mem_cons_self)

theorem EndsValue.comma (rest : List Char) : EndsValue (',' :: rest) :=
  fun _ h => .inr (.inl (Option.some.inj h).symm)

theorem EndsValue.endList (rest : List Char) : EndsValue (']' :: rest) :=
  fun _ h => .inr (.inr (.inl (Option.some.inj h).symm))

theorem EndsValue.endObject (rest : List Char) : EndsValue ('\x7d' :: rest) :=
  fun _ h => .inr (.inr (.inr (Option.some.inj h).symm))

theorem EndsValue.endsNumber {rest : List Char} (h : EndsValue rest) : EndsNumber rest := by
  intro c hc
  rcases h c hc with hblank | rfl | rfl | rfl
  · refine ⟨Bool.eq_false_iff.2 fun hdigit => ?_, ?_, ?_, ?_⟩
    · simp [isBlank_of_isDigit hdigit] at hblank
    all_goals rintro rfl; contradiction
  all_goals decide

/-- The reader yields `a` from `text`, which begins as a value does, behind blanks and in front of
anything that may follow a value. -/
structure Takes (read : Reader α) (text : List Char) (a : α) : Prop where
  starts : ∃ first more, text = first :: more ∧ isBlank first = false ∧ first ≠ ']'
  reads : ∀ {gap rest : List Char}, Gap gap → EndsValue rest →
    Reads read (gap ++ (text ++ rest)) a rest

/-! ### Scalars -/

theorem takes_text {written meant : List Char} (h : Spelling written meant) :
    Takes text ('"' :: (written ++ ['"'])) (String.ofList meant) where
  starts := ⟨'"', _, rfl, rfl, by decide⟩
  reads {gap rest} hgap _ := by
    have hbody := Reads.seqRight (reads_skip '"' _) (reads_stringBody h rest)
    simpa [text] using reads_byFirst hgap rfl hbody

theorem takes_integer64 {n : Int} (fits : n ∈ IntegerRange.signed64) :
    Takes integer64 (toString n).toList n where
  starts := by
    have hnil : EndsNumber [] := nofun
    obtain ⟨first, more, htext, hfirst, -⟩ := reads_numberAt_integer fits hnil
    rcases hfirst with rfl | hdigit
    · exact ⟨'-', more, htext, rfl, by decide⟩
    · refine ⟨first, more, htext, isBlank_of_isDigit hdigit, ?_⟩
      rintro rfl
      contradiction
  reads hgap hrest := reads_integer64 fits hgap hrest.endsNumber

theorem takes_null (read : Reader α) : Takes (optional read) ['n', 'u', 'l', 'l'] none where
  starts := ⟨'n', _, rfl, rfl, by decide⟩
  reads {gap rest} hgap _ := by
    refine .bind (reads_skipBlanks_gap hgap rfl _) ?_
    exact .bind (.seqRight (reads_skip 'n' _) (reads_letters ['u', 'l', 'l'] rest))
      (.pure none rest)

theorem Takes.optional {read : Reader α} {text : List Char} {a : α} (h : Takes read text a)
    (notNull : text.head? ≠ some 'n') : Takes (optional read) text (some a) where
  starts := h.starts
  reads {gap rest} hgap hrest := by
    obtain ⟨first, more, rfl, solid, -⟩ := h.starts
    refine .bind (reads_skipBlanks_gap hgap solid _) ?_
    split
    · simp_all
    · exact .bind (h.reads Gap.nil hrest) (.pure _ rest)

/-! ### Lists -/

theorem EndsValue.items {item : List Char → α → Prop} {text : List Char} {as : List α}
    (h : MoreItems item text as) (rest : List Char) : EndsValue (text ++ ']' :: rest) := by
  cases h with
  | done blank => exact .gap blank (.endList rest)
  | next blank => simpa using EndsValue.gap blank (.comma _)

theorem reads_hasItem_end (isFirst : Bool) {gap : List Char} (h : Gap gap) (rest : List Char) :
    Reads (hasItem isFirst) (gap ++ ']' :: rest) false (']' :: rest) :=
  .bind (reads_skipBlanks_gap h rfl rest) (.pure false _)

theorem reads_hasItem_first {gap : List Char} {first : Char} (h : Gap gap)
    (solid : isBlank first = false) (goesOn : first ≠ ']') (text : List Char) :
    Reads (hasItem true) (gap ++ first :: text) true (first :: text) := by
  refine .bind (reads_skipBlanks_gap h solid text) ?_
  split
  · contradiction
  · simp_all
  · exact .pure true _

theorem reads_hasItem_next {gap lead : List Char} {first : Char} (h : Gap gap) (hlead : Gap lead)
    (solid : isBlank first = false) (goesOn : first ≠ ']') (text : List Char) :
    Reads (hasItem false) (gap ++ ',' :: (lead ++ first :: text)) true (first :: text) := by
  refine .bind (reads_skipBlanks_gap h rfl _) ?_
  refine .bind (reads_skip ',' _) (.bind (reads_skipBlanks_gap hlead solid text) ?_)
  split
  · simp_all
  · exact .pure true _
  · contradiction

/-- The items that are still to come are read behind those that are read already. -/
theorem reads_itemsFrom {item : Reader α} {text : List Char} {as : List α}
    (h : MoreItems (Takes item) text as) {fuel : Nat} (enough : text.length < fuel) (read : List α)
    (rest : List Char) :
    Reads (itemsFrom item fuel false read) (text ++ ']' :: rest) (read.reverseAux as)
      (']' :: rest) := by
  induction h generalizing fuel read with
  | done blank =>
    match fuel, enough with
    | fuel + 1, _ => exact .bind (reads_hasItem_end false blank rest) (.pure _ _)
  | @next gap lead text tail a as blank leadBlank takes more ih =>
    match fuel, enough with
    | fuel + 1, enough =>
      have left : tail.length < fuel := by simp at enough; omega
      have tailRead := ih left (a :: read)
      obtain ⟨first, others, rfl, solid, goesOn⟩ := takes.starts
      have itemRead := takes.reads Gap.nil (.items more rest)
      simp only [List.append_assoc, List.cons_append]
      exact .bind (reads_hasItem_next blank leadBlank solid goesOn _) (.bind itemRead tailRead)

theorem reads_items {item : Reader α} {text rest : List Char} {as : List α}
    (h : Reads (itemsFrom item (text.length + 1) true []) text as rest) :
    Reads (items item) text as rest :=
  fun position => h position

/-- A list is taken when its items are. -/
theorem takes_list {item : Reader α} {text : List Char} {as : List α}
    (h : ListText (Takes item) text as) : Takes (list item) text as where
  starts := by cases h <;> exact ⟨'[', _, rfl, rfl, by decide⟩
  reads {front rest} hfront _ := by
    cases h with
    | @nil gap blank =>
      have hitems : Reads (items item) (gap ++ ']' :: rest) [] (']' :: rest) :=
        reads_items (.bind (reads_hasItem_end true blank rest) (.pure _ _))
      simp only [List.cons_append, List.append_assoc, List.nil_append]
      exact reads_byFirst hfront rfl (hitems.enclosed (reads_endList Gap.nil rest))
    | @cons gap text tail a as blank takes more =>
      obtain ⟨first, others, rfl, solid, goesOn⟩ := takes.starts
      have itemRead := takes.reads Gap.nil (.items more rest)
      have enough : tail.length < (gap ++ first :: (others ++ (tail ++ ']' :: rest))).length := by
        simp; omega
      have tailRead := reads_itemsFrom more enough [a] rest
      have hitems : Reads (items item) (gap ++ first :: (others ++ (tail ++ ']' :: rest)))
          (a :: as) (']' :: rest) :=
        reads_items (.bind (reads_hasItem_first blank solid goesOn _) (.bind itemRead tailRead))
      simp only [List.cons_append, List.append_assoc, List.nil_append]
      exact reads_byFirst hfront rfl (hitems.enclosed (reads_endList Gap.nil rest))

/-! ### Objects -/

theorem EndsValue.members {text : List Char} {members : List (String × List Char)}
    (h : MoreMembers text members) (rest : List Char) : EndsValue (text ++ '\x7d' :: rest) := by
  cases h with
  | done blank => exact .gap blank (.endObject rest)
  | next blank => simpa using EndsValue.gap blank (.comma _)

theorem reads_member?_end (isFirst : Bool) {gap : List Char} (h : Gap gap) (rest : List Char) :
    Reads (member? isFirst) (gap ++ '\x7d' :: rest) none ('\x7d' :: rest) :=
  .bind (.bind (reads_skipBlanks_gap h rfl rest) (.pure false _)) (.pure none _)

theorem reads_member?_first {gap written : List Char} {name : String} (h : Gap gap)
    (spelled : Spelling written name.toList) (rest : List Char) :
    Reads (member? true) (gap ++ '"' :: (written ++ '"' :: rest)) (some name) rest := by
  have hbody := reads_stringBody spelled rest
  rw [String.ofList_toList] at hbody
  exact .bind (.bind (reads_skipBlanks_gap h rfl _) (.pure true _))
    (.bind (reads_skip '"' _) (.bind hbody (.pure _ _)))

theorem reads_member?_next {gap lead written : List Char} {name : String} (h : Gap gap)
    (hlead : Gap lead) (spelled : Spelling written name.toList) (rest : List Char) :
    Reads (member? false) (gap ++ ',' :: (lead ++ '"' :: (written ++ '"' :: rest)))
      (some name) rest := by
  have hbody := reads_stringBody spelled rest
  rw [String.ofList_toList] at hbody
  have goesOn : Reads (hasMember false) (gap ++ ',' :: (lead ++ '"' :: (written ++ '"' :: rest)))
      true ('"' :: (written ++ '"' :: rest)) :=
    .bind (reads_skipBlanks_gap h rfl _)
      (.bind (reads_skip ',' _) (.bind (reads_skipBlanks_gap hlead rfl _) (.pure true _)))
  exact .bind goesOn (.bind (reads_skip '"' _) (.bind hbody (.pure _ _)))

/-- The members take the state of the reader from one to the last. -/
inductive Folds (step : σ → String → Reader σ) : σ → List (String × List Char) → σ → Prop
  | nil {state : σ} : Folds step state [] state
  | cons {name : String} {value : List Char} {members : List (String × List Char)}
      {state between last : σ}
      (reads : ∀ {before after rest}, Gap before → Gap after → EndsValue rest →
        Reads (step state name) (before ++ ':' :: (after ++ (value ++ rest))) between rest)
      (more : Folds step between members last) : Folds step state ((name, value) :: members) last

variable {step : σ → String → Reader σ} {state last : σ} {text : List Char}
  {members : List (String × List Char)}

theorem reads_membersFrom (h : MoreMembers text members) (folds : Folds step state members last)
    {fuel : Nat} (enough : text.length < fuel) (rest : List Char) :
    Reads (membersFrom step fuel false state) (text ++ '\x7d' :: rest) last ('\x7d' :: rest) := by
  induction h generalizing fuel state with
  | done blank =>
    cases folds
    match fuel, enough with
    | fuel + 1, _ => exact .bind (reads_member?_end false blank rest) (.pure _ _)
  | @next gap lead written before after value tail name members blank leadBlank spelled beforeBlank
      afterBlank more ih =>
    cases folds with
    | cons reads folds =>
      match fuel, enough with
      | fuel + 1, enough =>
        have left : tail.length < fuel := by simp at enough; omega
        have tailRead := ih folds left
        simp only [List.append_assoc, List.cons_append]
        exact .bind (reads_member?_next blank leadBlank spelled _)
          (.bind (reads beforeBlank afterBlank (.members more rest)) tailRead)

theorem reads_members {rest : List Char}
    (h : Reads (membersFrom step (text.length + 1) true state) text last rest) :
    Reads (Reader.members step state) text last rest :=
  fun position => h position

/-- The members of an object are read between its brackets, one after the other. -/
theorem reads_object (h : ObjectText text members) (folds : Folds step state members last) :
    ∃ inside, text = '\x7b' :: (inside ++ ['\x7d']) ∧
      ∀ rest, Reads (Reader.members step state) (inside ++ '\x7d' :: rest) last
        ('\x7d' :: rest) := by
  cases h with
  | @nil gap blank =>
    cases folds
    exact ⟨gap, rfl, fun rest => reads_members (.bind (reads_member?_end true blank rest)
      (.pure _ _))⟩
  | @cons gap written before after value tail name members blank spelled beforeBlank afterBlank
      more =>
    cases folds with
    | cons reads folds =>
      refine ⟨gap ++ '"' :: (written ++ '"' :: (before ++ ':' :: (after ++ (value ++ tail)))),
        by simp, fun rest => ?_⟩
      have enough : tail.length < (gap ++ '"' :: (written ++ '"' :: (before ++ ':' ::
          (after ++ (value ++ (tail ++ '\x7d' :: rest)))))).length := by
        simp; omega
      have tailRead := reads_membersFrom more folds enough rest
      simp only [List.append_assoc, List.cons_append]
      exact reads_members (.bind (reads_member?_first blank spelled _)
        (.bind (reads beforeBlank afterBlank (.members more rest)) tailRead))

/-- A record that is written as an object is taken when its members are read. -/
theorem takes_record {expected : String} {ofList ofObject : Reader α} {a : α}
    (h : ObjectText text members) (folds : Folds step state members last)
    (finish : ∀ {inside rest}, Reads (Reader.members step state) inside last rest →
      Reads ofObject inside a rest) : Takes (record expected ofList ofObject) text a := by
  obtain ⟨inside, rfl, reads⟩ := reads_object h folds
  refine ⟨⟨'\x7b', _, rfl, rfl, by decide⟩, fun {gap rest} blank _ => ?_⟩
  simp only [List.cons_append, List.append_assoc, List.nil_append]
  exact reads_byFirst blank rfl ((finish (reads rest)).enclosed (reads_endObject Gap.nil rest))

/-! ### Whole texts -/

theorem Takes.run {read : Reader α} {whole : String} {a : α} (h : Takes read whole.toList a) :
    Reader.run read whole = .ok a := by
  have := h.reads Gap.nil EndsValue.nil
  rw [List.append_nil, List.nil_append] at this
  exact this.run Gap.nil

end ModelShelf.Json.Reader
