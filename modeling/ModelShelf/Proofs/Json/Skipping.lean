import ModelShelf.Proofs.Json.Grammar
import ModelShelf.Proofs.Json.Values

/-!
Values that are passed over. Whatever derives from the grammar is passed, however deep its lists
and objects nest: the open brackets are kept as frames, and a text of the grammar closes the frames
that it opens.
-/

namespace ModelShelf.Json.Grammar

open Reader

/-! ### Strings -/

theorem exists_hexValue? : ∀ d ∈ hexDigits, ∃ n, hexValue? d = some n := by
  have known : ∀ d ∈ hexDigits, (hexValue? d).isSome = true := List.all_eq_true.1 (by decide)
  intro d hd
  exact Option.isSome_iff_exists.1 (known d hd)

theorem exists_hexUnit? {x y z w : Char} (h : ∀ d ∈ [x, y, z, w], d ∈ hexDigits) :
    ∃ n, hexUnit? x y z w = some n := by
  simp only [List.forall_mem_cons] at h
  obtain ⟨hx, hy, hz, hw, -⟩ := h
  obtain ⟨a, ha⟩ := exists_hexValue? x hx
  obtain ⟨b, hb⟩ := exists_hexValue? y hy
  obtain ⟨c, hc⟩ := exists_hexValue? z hz
  obtain ⟨d, hd⟩ := exists_hexValue? w hw
  refine ⟨((a * 16 + b) * 16 + c) * 16 + d, ?_⟩
  simp [hexUnit?, ha, hb, hc, hd]

theorem reads_skipEscape_letter {letter : Char} (h : letter ∈ escapeLetters) (rest : List Char) :
    Reads skipEscape (letter :: rest) () rest := by
  obtain ⟨notUnit, hknown⟩ : letter ≠ 'u' ∧ (shortEscape? letter).isNone = false := by
    have known : ∀ c ∈ escapeLetters, c ≠ 'u' ∧ (shortEscape? c).isNone = false :=
      List.all_iff_forall_prop.1 (by decide)
    exact known letter h
  refine .bind (reads_next? letter rest) ?_
  split
  · rename_i he
    cases he
  · rename_i he
    exact absurd (Option.some.inj he) notUnit
  · rename_i he
    obtain rfl := Option.some.inj he
    rw [hknown]
    exact .pure () rest

theorem reads_skipEscape_unit {x y z w : Char} (h : ∀ d ∈ [x, y, z, w], d ∈ hexDigits)
    (rest : List Char) : Reads skipEscape ('u' :: x :: y :: z :: w :: rest) () rest := by
  obtain ⟨n, hn⟩ := exists_hexUnit? h
  exact .bind (reads_next? 'u' _) (.bind (reads_hexUnit hn rest) (.pure () rest))

theorem reads_skipStringFrom {body : List Char} (h : StringBody body) {fuel : Nat}
    (enough : body.length < fuel) (rest : List Char) :
    Reads (skipStringFrom fuel) (body ++ '"' :: rest) () rest := by
  induction h generalizing fuel with
  | nil =>
    match fuel, enough with
    | fuel + 1, _ => exact .bind (reads_peek? _) (reads_skip '"' rest)
  | @literal c more notQuote notEscape notControl tail ih =>
    match fuel, enough with
    | fuel + 1, enough =>
      have left : more.length < fuel := by simpa using enough
      refine .bind (reads_peek? _) ?_
      split
      · contradiction
      · simp_all
      · simp_all
      · rename_i he
        obtain rfl := Option.some.inj he
        rw [if_neg notControl]
        exact .bind (reads_skip c _) (ih left)
  | @letter letter more known tail ih =>
    match fuel, enough with
    | fuel + 1, enough =>
      have left : more.length < fuel := by simp at enough; omega
      exact .bind (reads_peek? _) (.bind (reads_skip '\\' _)
        (.bind (reads_skipEscape_letter known _) (ih left)))
  | @unit x y z w more hex tail ih =>
    match fuel, enough with
    | fuel + 1, enough =>
      have left : more.length < fuel := by simp at enough; omega
      exact .bind (reads_peek? _) (.bind (reads_skip '\\' _)
        (.bind (reads_skipEscape_unit hex _) (ih left)))

theorem reads_skipString {body : List Char} (h : StringBody body) (rest : List Char) :
    Reads skipString (body ++ '"' :: rest) () rest := by
  intro position
  have enough : body.length < (body ++ '"' :: rest).length + 1 := by
    rw [List.length_append]
    omega
  exact reads_skipStringFrom h enough rest position

/-! ### Numbers -/

theorem reads_skipDigits {s rest : List Char} (h : Digits s) (hrest : EndsDigits rest) :
    Reads skipDigits (s ++ rest) () rest := by
  cases s with
  | nil => exact absurd rfl h.1
  | cons first more =>
    obtain ⟨hfirst, hmore⟩ := List.forall_mem_cons.1 h.2
    refine .bind (reads_next? first _) ?_
    simp only [hfirst, if_true]
    exact .bind (reads_digits_append hmore hrest) (.pure () rest)

theorem reads_skipWhole {s rest : List Char} (h : Whole s) (hrest : EndsDigits rest) :
    Reads skipWhole (s ++ rest) () rest := by
  refine .bind (reads_peek? _) ?_
  cases h with
  | zero =>
    refine .bind (reads_skip '0' rest) (.bind (reads_peek? rest) ?_)
    cases rest with
    | nil => exact .pure () []
    | cons c rest =>
      have hc := hrest c rfl
      simp only [List.head?_cons, hc]
      exact .pure () (c :: rest)
  | digits digits lead =>
    have hlead : (s ++ rest).head? ≠ some '0' := by
      cases s with
      | nil => exact absurd rfl digits.1
      | cons => exact lead
    split
    · exact absurd ‹_› hlead
    · exact reads_skipDigits digits hrest

theorem reads_skipFraction {s rest : List Char} (h : Fraction s) (hrest : EndsDigits rest)
    (notPoint : rest.head? ≠ some '.') : Reads skipFraction (s ++ rest) () rest := by
  refine .bind (reads_peek? _) ?_
  cases h with
  | none =>
    rw [List.nil_append]
    split
    · exact absurd ‹_› notPoint
    · exact .pure () rest
  | @digits s digits =>
    have hsome : s.isEmpty = false := by
      rw [List.isEmpty_eq_false_iff]
      exact digits.1
    refine .bind (reads_skip '.' _) (.bind (reads_digits_append digits.2 hrest) ?_)
    simp only [hsome]
    exact .pure () rest

theorem reads_skipSign {sign s rest : List Char} (hsign : sign ∈ [[], ['+'], ['-']])
    (h : Digits s) : Reads skipSign (sign ++ (s ++ rest)) () (s ++ rest) := by
  refine .bind (reads_peek? _) ?_
  simp only [List.mem_cons, List.not_mem_nil, or_false] at hsign
  rcases hsign with rfl | rfl | rfl
  · cases s with
    | nil => exact absurd rfl h.1
    | cons first more =>
      have hfirst : isDigit first = true := h.2 first List.mem_cons_self
      simp only [List.nil_append, List.cons_append, List.head?_cons]
      split
      · rename_i he
        rw [Option.some.inj he] at hfirst
        exact absurd hfirst (by decide)
      · rename_i he
        rw [Option.some.inj he] at hfirst
        exact absurd hfirst (by decide)
      · exact .pure () _
  · exact reads_skip '+' _
  · exact reads_skip '-' _

theorem reads_skipExponent {s rest : List Char} (h : Exponent s) (hrest : EndsNumber rest) :
    Reads skipExponent (s ++ rest) () rest := by
  refine .bind (reads_peek? _) ?_
  cases h with
  | none =>
    rw [List.nil_append]
    split
    · exact absurd rfl (hrest 'e' ‹_›).2.2.1
    · exact absurd rfl (hrest 'E' ‹_›).2.2.2
    · exact .pure () rest
  | @digits mark sign s letter hsign digits =>
    rw [List.cons_append, List.append_assoc]
    have passed : Reads (skipSign >>= fun _ => skipDigits) (sign ++ (s ++ rest)) () rest :=
      .bind (reads_skipSign hsign digits) (reads_skipDigits digits hrest.endsDigits)
    rcases letter with rfl | rfl
    · exact .bind (reads_skip 'e' _) passed
    · exact .bind (reads_skip 'E' _) passed

theorem Exponent.head? {s : List Char} (h : Exponent s) {rest : List Char}
    (hrest : EndsNumber rest) {c : Char} (hc : (s ++ rest).head? = some c) :
    isDigit c = false ∧ c ≠ '.' := by
  cases h with
  | none => exact ⟨(hrest c hc).1, (hrest c hc).2.1⟩
  | digits letter =>
    obtain rfl := Option.some.inj hc
    rcases letter with rfl | rfl <;> decide

theorem reads_skipNumber {whole fraction exponent rest : List Char} (hwhole : Whole whole)
    (hfraction : Fraction fraction) (hexponent : Exponent exponent) (hrest : EndsNumber rest) :
    Reads skipNumber (whole ++ (fraction ++ (exponent ++ rest))) () rest := by
  have behindFraction : EndsDigits (exponent ++ rest) := fun c hc => (hexponent.head? hrest hc).1
  have notPoint : (exponent ++ rest).head? ≠ some '.' := fun h => (hexponent.head? hrest h).2 rfl
  have behindWhole : EndsDigits (fraction ++ (exponent ++ rest)) := by
    cases hfraction with
    | none => exact behindFraction
    | digits =>
      intro c hc
      obtain rfl := Option.some.inj hc
      rfl
  exact .bind (reads_skipWhole hwhole behindWhole)
    (.bind (reads_skipFraction hfraction behindFraction notPoint)
      (reads_skipExponent hexponent hrest))

/-! ### Values -/

/-- From `text` a value inside the frames is passed, and the frames are closed behind it. -/
def Passes (frames : List Frame) (text rest : List Char) : Prop :=
  ∀ fuel, text.length < fuel → Reads (skipValueFrom fuel frames) text () rest

/-- From `text` frames are closed, up to the end of all of them or to the next value inside those
that stay open; that value and what is behind it is passed then. -/
def Closes (afterValue : Bool) (frames : List Frame) (text rest : List Char) : Prop :=
  ∃ inner between, Reads (skipClosing afterValue frames) text inner between ∧
    between.length ≤ text.length ∧
    ((inner = [] ∧ between = rest) ∨ (inner ≠ [] ∧ Passes inner between rest))

variable {frames : List Frame} {frame : Frame} {afterValue : Bool}
  {text between rest final gap : List Char}

theorem Passes.step {opened : Option Frame} (head : Reads skipHead text opened between)
    (shorter : between.length < text.length)
    (closes : Closes opened.isNone (opened.toList ++ frames) between rest) :
    Passes frames text rest := by
  intro fuel enough
  match fuel, enough with
  | fuel + 1, enough =>
    obtain ⟨inner, next, closing, hle, ⟨rfl, rfl⟩ | ⟨hinner, passes⟩⟩ := closes
    · exact .bind head (.bind closing (.pure () _))
    · refine .bind head (.bind closing ?_)
      rw [if_neg (by simpa using hinner)]
      exact passes fuel (by omega)

theorem Closes.nil (rest : List Char) : Closes true [] rest rest :=
  ⟨[], rest, .pure [] rest, Nat.le_refl _, .inl ⟨rfl, rfl⟩⟩

theorem closing_ne_comma (frame : Frame) : frame.closing ≠ ',' := by
  cases frame <;> decide

theorem closing_solid (frame : Frame) : isBlank frame.closing = false := by
  cases frame <;> rfl

/-- A bracket closes its frame, and the outer frames are closed behind it. -/
theorem Closes.bracket (h : Closes true frames rest final) (blank : Gap gap) :
    Closes afterValue (frame :: frames) (gap ++ frame.closing :: rest) final := by
  obtain ⟨inner, between, closing, hle, hinner⟩ := h
  refine ⟨inner, between, .bind (reads_skipBlanks_gap blank (closing_solid frame) rest) ?_, ?_,
    hinner⟩
  · simp only [closing_ne_comma, false_and, if_false, if_true]
    exact .bind (reads_skip _ rest) closing
  · simp only [List.length_append, List.length_cons]
    omega

/-- Behind a comma stands the next value of the frame, behind its name in an object. -/
theorem Closes.comma (name : Reads (skipName frame) text () between)
    (shorter : between.length ≤ text.length) (h : Passes (frame :: frames) between final)
    (blank : Gap gap) : Closes true (frame :: frames) (gap ++ ',' :: text) final := by
  refine ⟨frame :: frames, between, .bind (reads_skipBlanks_gap blank rfl text) ?_, ?_,
    .inr ⟨List.cons_ne_nil _ _, h⟩⟩
  · exact .bind (reads_skip ',' text) (.bind name (.pure _ _))
  · simp only [List.length_append, List.length_cons]
    omega

/-- Behind its opening bracket stands the first value of the frame. -/
theorem Closes.first {c : Char} (name : Reads (skipName frame) (c :: text) () between)
    (shorter : between.length ≤ (c :: text).length) (h : Passes (frame :: frames) between final)
    (solid : isBlank c = false) (goesOn : c ≠ frame.closing) (blank : Gap gap) :
    Closes false (frame :: frames) (gap ++ c :: text) final := by
  refine ⟨frame :: frames, between, .bind (reads_skipBlanks_gap blank solid text) ?_, ?_,
    .inr ⟨List.cons_ne_nil _ _, h⟩⟩
  · simp only [goesOn, Bool.false_eq_true, and_false, if_false]
    exact .bind name (.pure _ _)
  · simp only [List.length_append] at shorter ⊢
    omega

theorem reads_skipName_object {lead name before : List Char} (leadBlank : Gap lead)
    (hname : StringBody name) (beforeBlank : Gap before) (rest : List Char) :
    Reads (skipName .object) (lead ++ '"' :: (name ++ '"' :: (before ++ ':' :: rest))) () rest :=
  .bind (reads_skipBlanks_gap leadBlank rfl _) (.bind (reads_skip '"' _)
    (.bind (reads_skipString hname _) (reads_colon beforeBlank rest)))

theorem Derives.endsValue_items (h : Derives .moreItems text) (rest : List Char) :
    EndsValue (text ++ rest) := by
  cases h with
  | endList blank => simpa using EndsValue.gap blank (.endList rest)
  | item blank => simpa using EndsValue.gap blank (.comma _)

theorem Derives.endsValue_members (h : Derives .moreMembers text) (rest : List Char) :
    EndsValue (text ++ rest) := by
  cases h with
  | endObject blank => simpa using EndsValue.gap blank (.endObject rest)
  | member blank => simpa using EndsValue.gap blank (.comma _)

/-- What a text of the grammar does to the frames around it. -/
def Symbol.Passed (text : List Char) : Symbol → Prop
  | .value => ∀ {frames rest final gap}, Gap gap → EndsValue rest → Closes true frames rest final →
      Passes frames (gap ++ (text ++ rest)) final
  | .moreItems => ∀ {frames rest final}, EndsValue rest → Closes true frames rest final →
      Closes true (.list :: frames) (text ++ rest) final
  | .moreMembers => ∀ {frames rest final}, EndsValue rest → Closes true frames rest final →
      Closes true (.object :: frames) (text ++ rest) final

theorem passed_scalar (solid : text ≠ []) (head : ∀ {gap rest}, Gap gap → EndsValue rest →
    Reads skipHead (gap ++ (text ++ rest)) none rest) : Symbol.value.Passed text := by
  intro frames rest final gap blank hrest closes
  refine .step (head blank hrest) ?_ closes
  have size : 0 < text.length := List.length_pos_iff.2 solid
  simp only [List.length_append]
  omega

theorem reads_skipHead_literal {c : Char} (h : c = 'n' ∨ c = 't' ∨ c = 'f') (blank : Gap gap)
    (rest : List Char) : Reads skipHead (gap ++ c :: (literalTail c ++ rest)) none rest := by
  have solid : isBlank c = false := by rcases h with rfl | rfl | rfl <;> rfl
  refine .bind (reads_skipBlanks_gap blank solid _) ?_
  simp only [if_pos h]
  exact .bind (.seqRight (reads_skip c _) (reads_letters _ rest)) (.pure none rest)

theorem reads_skipHead_number {sign whole fraction exponent : List Char}
    (hsign : sign = [] ∨ sign = ['-']) (hwhole : Whole whole) (hfraction : Fraction fraction)
    (hexponent : Exponent exponent) (blank : Gap gap) (hrest : EndsValue rest) :
    Reads skipHead (gap ++ (sign ++ (whole ++ (fraction ++ (exponent ++ rest))))) none rest := by
  have passed := reads_skipNumber hwhole hfraction hexponent hrest.endsNumber
  rcases hsign with rfl | rfl
  · obtain ⟨first, more, rfl, hdigit⟩ := hwhole.exists_cons
    have other : ¬ (first = 'n' ∨ first = 't' ∨ first = 'f') ∧ first ≠ '-' := by
      refine ⟨?_, ?_⟩
      · rintro (rfl | rfl | rfl) <;> contradiction
      · rintro rfl
        contradiction
    refine .bind (reads_skipBlanks_gap blank (isBlank_of_isDigit hdigit) _) ?_
    simp only [if_neg other.1, if_neg other.2, if_pos hdigit]
    exact .bind passed (.pure none rest)
  · refine .bind (reads_skipBlanks_gap blank rfl _) ?_
    exact .bind (.seqRight (reads_skip '-' _) passed) (.pure none rest)

theorem reads_skipHead_string {body : List Char} (h : StringBody body) (blank : Gap gap)
    (rest : List Char) : Reads skipHead (gap ++ '"' :: (body ++ '"' :: rest)) none rest :=
  .bind (reads_skipBlanks_gap blank rfl _)
    (.bind (.seqRight (reads_skip '"' _) (reads_skipString h rest)) (.pure none rest))

theorem reads_skipHead_list (blank : Gap gap) (rest : List Char) :
    Reads skipHead (gap ++ '[' :: rest) (some .list) rest :=
  .bind (reads_skipBlanks_gap blank rfl _) (.bind (reads_skip '[' rest) (.pure _ rest))

theorem reads_skipHead_object (blank : Gap gap) (rest : List Char) :
    Reads skipHead (gap ++ '\x7b' :: rest) (some .object) rest :=
  .bind (reads_skipBlanks_gap blank rfl _) (.bind (reads_skip '\x7b' rest) (.pure _ rest))

/-- An opening bracket is passed, and the frame that it opens is closed before the outer ones. -/
theorem Passes.opening {c : Char} (head : Reads skipHead (gap ++ c :: text) (some frame) text)
    (closes : Closes false (frame :: frames) text final) :
    Passes frames (gap ++ c :: text) final := by
  refine .step head ?_ closes
  simp only [List.length_append, List.length_cons]
  omega

theorem passed_of_derives {symbol : Symbol} (h : Derives symbol text) : symbol.Passed text := by
  induction h with
  | null =>
    exact passed_scalar (List.cons_ne_nil _ _) fun blank _ =>
      reads_skipHead_literal (.inl rfl) blank _
  | truth =>
    exact passed_scalar (List.cons_ne_nil _ _) fun blank _ =>
      reads_skipHead_literal (.inr (.inl rfl)) blank _
  | falsehood =>
    exact passed_scalar (List.cons_ne_nil _ _) fun blank _ =>
      reads_skipHead_literal (.inr (.inr rfl)) blank _
  | number hsign hwhole hfraction hexponent =>
    refine passed_scalar ?_ fun blank hrest => ?_
    · obtain ⟨first, more, rfl, -⟩ := hwhole.exists_cons
      simp
    · have head := reads_skipHead_number hsign hwhole hfraction hexponent blank hrest
      simpa only [List.append_assoc] using head
  | string hbody =>
    refine passed_scalar (List.cons_ne_nil _ _) fun blank _ => ?_
    simpa using reads_skipHead_string hbody blank _
  | emptyList blank =>
    intro frames rest final gap outerBlank hrest closes
    have closed : Closes false (.list :: frames) (_ ++ ']' :: rest) final := closes.bracket blank
    simpa using Passes.opening (reads_skipHead_list outerBlank _) closed
  | @list gap item more blank hitem hmore ihitem ihmore =>
    intro frames rest final outer outerBlank hrest closes
    -- Behind the first item its list is open, and what stands there closes it by induction.
    have passes := ihitem Gap.nil (hmore.endsValue_items rest) (ihmore hrest closes)
    obtain ⟨first, others, rfl, solid, goesOn⟩ := hitem.starts
    have closed : Closes false (.list :: frames) _ final :=
      .first (.pure () _) (Nat.le_refl _) passes solid goesOn blank
    simpa using Passes.opening (reads_skipHead_list outerBlank _) closed
  | emptyObject blank =>
    intro frames rest final gap outerBlank hrest closes
    have closed : Closes false (.object :: frames) (_ ++ '\x7d' :: rest) final :=
      closes.bracket blank
    simpa using Passes.opening (reads_skipHead_object outerBlank _) closed
  | @object gap name before after value more blank hname beforeBlank afterBlank hvalue hmore
      ihvalue ihmore =>
    intro frames rest final outer outerBlank hrest closes
    have passes := ihvalue afterBlank (hmore.endsValue_members rest) (ihmore hrest closes)
    have named :=
      reads_skipName_object Gap.nil hname beforeBlank (after ++ (value ++ (more ++ rest)))
    have closed := Closes.first named (by simp; omega) passes rfl (by decide) blank
    simpa using Passes.opening (reads_skipHead_object outerBlank _) closed
  | endList blank =>
    intro frames rest final hrest closes
    have closed : Closes true (.list :: frames) (_ ++ ']' :: rest) final := closes.bracket blank
    simpa using closed
  | @item gap lead item more blank leadBlank hitem hmore ihitem ihmore =>
    intro frames rest final hrest closes
    have passes := ihitem leadBlank (hmore.endsValue_items rest) (ihmore hrest closes)
    have closed : Closes true (.list :: frames) _ final :=
      .comma (.pure () _) (Nat.le_refl _) passes blank
    simpa using closed
  | endObject blank =>
    intro frames rest final hrest closes
    have closed : Closes true (.object :: frames) (_ ++ '\x7d' :: rest) final :=
      closes.bracket blank
    simpa using closed
  | @member gap lead name before after value more blank leadBlank hname beforeBlank afterBlank
      hvalue hmore ihvalue ihmore =>
    intro frames rest final hrest closes
    have passes := ihvalue afterBlank (hmore.endsValue_members rest) (ihmore hrest closes)
    have named := reads_skipName_object leadBlank hname beforeBlank
      (after ++ (value ++ (more ++ rest)))
    have closed := Closes.comma named (by simp; omega) passes blank
    simpa using closed

/-- A value is passed, whatever it is. -/
theorem reads_skipValue (h : ValueText text) (blank : Gap gap) (hrest : EndsValue rest) :
    Reads skipValue (gap ++ (text ++ rest)) () rest := by
  intro position
  have passed : Passes [] (gap ++ (text ++ rest)) rest :=
    passed_of_derives h blank hrest (.nil rest)
  exact passed _ (Nat.lt_succ_self _) position

end ModelShelf.Json.Grammar
