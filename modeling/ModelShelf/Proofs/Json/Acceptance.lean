import ModelShelf.Proofs.Json.Scalars

/-!
What readers of JSON values accept. What a value opens while it is passed over is kept as frames,
and the text that closes them derives from the grammar; so does every list and every object. An
object is accepted member by member, and a record also as the list of its fields.
-/

namespace ModelShelf.Json.Reader

open Grammar

variable {α β σ : Type} {read : Reader α} {text rest middle gap : List Char} {a b : α}

/-! ### Values that are passed over -/

namespace Frame

def opening : Frame → Char
  | .list => '['
  | .object => '\x7b'

/-- What stands behind an item or a member of the frame. -/
def more : Frame → Symbol
  | .list => .moreItems
  | .object => .moreMembers

/-- What stands in front of a value of the frame: the name of a member, and its colon. -/
inductive Named : Frame → List Char → Prop
  | list : Named .list []
  | object {lead name before : List Char} (leadBlank : Gap lead) (hname : StringBody name)
      (beforeBlank : Gap before) :
      Named .object (lead ++ '"' :: (name ++ '"' :: (before ++ [':'])))

variable {frame : Frame} {after value name others : List Char}

theorem derives_end (frame : Frame) (blank : Gap gap) :
    Derives frame.more (gap ++ [frame.closing]) := by
  cases frame with
  | list => exact .endList blank
  | object => exact .endObject blank

theorem derives_empty (frame : Frame) (blank : Gap gap) :
    ValueText (frame.opening :: (gap ++ [frame.closing])) := by
  cases frame with
  | list => exact .emptyList blank
  | object => exact .emptyObject blank

theorem Named.derives_next (h : frame.Named name) (blank : Gap gap) (afterBlank : Gap after)
    (hvalue : ValueText value) (hothers : Derives frame.more others) :
    Derives frame.more (gap ++ ',' :: (name ++ (after ++ (value ++ others)))) := by
  cases h with
  | list =>
    have item := Derives.item blank afterBlank hvalue hothers
    exact item
  | object leadBlank hname beforeBlank =>
    have member := Derives.member blank leadBlank hname beforeBlank afterBlank hvalue hothers
    simpa [more] using member

theorem Named.derives_first (h : frame.Named name) (blank : Gap gap) (afterBlank : Gap after)
    (hvalue : ValueText value) (hothers : Derives frame.more others) :
    ValueText (frame.opening :: (gap ++ (name ++ (after ++ (value ++ others))))) := by
  cases h with
  | list =>
    have list := Derives.list (List.forall_mem_append.2 ⟨blank, afterBlank⟩) hvalue hothers
    simpa [opening] using list
  | object leadBlank hname beforeBlank =>
    have object := Derives.object (List.forall_mem_append.2 ⟨blank, leadBlank⟩) hname beforeBlank
      afterBlank hvalue hothers
    simpa [opening] using object

end Frame

/-- What closes the frames: for each of them, what stands behind one of its values. -/
def Finishes : List Frame → List Char → List Char → Prop
  | [], text, rest => text = rest
  | frame :: outer, text, rest =>
    ∃ others behind, Derives frame.more others ∧ text = others ++ behind ∧
      Finishes outer behind rest

/-- A value stands next, and behind it what closes the frames. -/
def Ready (frames : List Frame) (text rest : List Char) : Prop :=
  ∃ gap value behind, Gap gap ∧ ValueText value ∧ text = gap ++ (value ++ behind) ∧
    Finishes frames behind rest

/-- No frame is open any more, or a value stands next. -/
def Continues (frames : List Frame) (text rest : List Char) : Prop :=
  (frames = [] ∧ text = rest) ∨ (frames ≠ [] ∧ Ready frames text rest)

section Frames

variable {frame : Frame} {frames inner : List Frame} {between final : List Char}

theorem named_of_yields_skipName (h : Yields (skipName frame) text () rest) :
    ∃ name, text = name ++ rest ∧ frame.Named name := by
  cases frame with
  | list =>
    rw [skipName] at h
    rw [h.of_pure.2]
    exact ⟨[], rfl, .list⟩
  | object =>
    have quoted {text : List Char} (hread : Yields (do skipString; colon) text () rest) :
        ∃ name before, text = name ++ '"' :: (before ++ ':' :: rest) ∧ StringBody name ∧
          Gap before := by
      obtain ⟨_, _, hstring, hcolon⟩ := hread.of_bind
      obtain ⟨before, beforeBlank, rfl⟩ := gap_of_yields_colon hcolon
      obtain ⟨name, rfl, hname⟩ := stringBody_of_yields_skipString hstring
      exact ⟨name, before, rfl, hname, beforeBlank⟩
    obtain ⟨found, middle, hfound, hnext⟩ := h.of_bind
    have behind := behind_of_yields hfound
    split at hnext
    · obtain ⟨lead, more, leadBlank, rfl, htext, -⟩ := behind.exists_cons
      obtain ⟨_, _, hskip, hname⟩ := hnext.of_bind
      rw [eq_of_yields_skip hskip] at hname
      obtain ⟨name, before, rfl, isName, beforeBlank⟩ := quoted hname
      exact ⟨_, by rw [htext]; simp, .object leadBlank isName beforeBlank⟩
    · obtain ⟨_, _, hfail, -⟩ := hnext.of_bind
      exact (not_yields_failPeek _ hfail).elim
    · obtain ⟨_, _, hfail, -⟩ := hnext.of_bind
      exact (not_yields_failPeek _ hfail).elim

theorem finishes_of_yields_skipClosing (h : Yields (skipClosing true frames) text inner between)
    (continues : Continues inner between final) : Finishes frames text final := by
  induction frames generalizing text with
  | nil =>
    rw [skipClosing] at h
    obtain ⟨rfl, rfl⟩ := h.of_pure
    obtain ⟨-, rfl⟩ | ⟨hne, -⟩ := continues
    · rfl
    · contradiction
  | cons frame outer ih =>
    rw [skipClosing] at h
    obtain ⟨found, middle, hfound, hnext⟩ := h.of_bind
    have behind := behind_of_yields hfound
    split at hnext
    · exact (not_yields_failPeek _ hnext).elim
    · rename_i c
      obtain ⟨gap, more, blank, rfl, htext, -⟩ := behind.exists_cons
      split at hnext
      · rename_i hcomma
        obtain ⟨_, _, hskip, hname⟩ := hnext.of_bind
        rw [eq_of_yields_skip hskip] at hname
        obtain ⟨_, _, hname, hpure⟩ := hname.of_bind
        obtain ⟨rfl, rfl⟩ := hpure.of_pure
        obtain ⟨name, rfl, named⟩ := named_of_yields_skipName hname
        obtain ⟨⟨⟩, -⟩ | ⟨-, after, value, _, afterBlank, hvalue, rfl, others, behind', hothers,
          rfl, finishes⟩ := continues
        refine ⟨_, behind', named.derives_next blank afterBlank hvalue hothers, ?_, finishes⟩
        rw [htext, hcomma.1]
        simp
      · split at hnext
        · rename_i hclosing
          obtain ⟨_, _, hskip, hclose⟩ := hnext.of_bind
          rw [eq_of_yields_skip hskip] at hclose
          refine ⟨gap ++ [frame.closing], more, frame.derives_end blank, ?_, ih hclose⟩
          rw [htext, hclosing]
          simp
        · exact (not_yields_failPeek _ hnext).elim

theorem value_of_yields_skipClosing
    (h : Yields (skipClosing false (frame :: frames)) text inner between)
    (continues : Continues inner between final) :
    ∃ inside behind, ValueText (frame.opening :: inside) ∧ text = inside ++ behind ∧
      Finishes frames behind final := by
  rw [skipClosing] at h
  obtain ⟨found, middle, hfound, hnext⟩ := h.of_bind
  have behind := behind_of_yields hfound
  split at hnext
  · exact (not_yields_failPeek _ hnext).elim
  · rename_i c
    obtain ⟨gap, more, blank, rfl, htext, -⟩ := behind.exists_cons
    rw [if_neg (by simp)] at hnext
    split at hnext
    · rename_i hclosing
      obtain ⟨_, _, hskip, hclose⟩ := hnext.of_bind
      rw [eq_of_yields_skip hskip] at hclose
      refine ⟨gap ++ [frame.closing], more, frame.derives_empty blank, ?_,
        finishes_of_yields_skipClosing hclose continues⟩
      rw [htext, hclosing]
      simp
    · rw [if_neg Bool.false_ne_true] at hnext
      obtain ⟨_, _, hname, hpure⟩ := hnext.of_bind
      obtain ⟨rfl, rfl⟩ := hpure.of_pure
      obtain ⟨name, hmore, named⟩ := named_of_yields_skipName hname
      obtain ⟨⟨⟩, -⟩ | ⟨-, after, value, _, afterBlank, hvalue, rfl, others, behind', hothers, rfl,
        finishes⟩ := continues
      refine ⟨_, behind', named.derives_first blank afterBlank hvalue hothers, ?_, finishes⟩
      rw [htext, hmore]
      simp

/-- What a head is: a scalar, or the opening bracket of a frame. -/
inductive HeadText : List Char → Option Frame → Prop
  | scalar {value : List Char} (isValue : ValueText value) : HeadText value none
  | opening (frame : Frame) : HeadText [frame.opening] (some frame)

theorem accepts_skipHead : Accepts skipHead HeadText := by
  intro text opened rest h
  obtain ⟨found, middle, hfound, hnext⟩ := h.of_bind
  have behind := behind_of_yields hfound
  split at hnext
  · exact (not_yields_failPeek _ hnext).elim
  rename_i c
  obtain ⟨gap, more, blank, rfl, rfl, -⟩ := behind.exists_cons
  suffices hbody : ∃ body, c :: more = body ++ rest ∧ HeadText body opened by
    obtain ⟨body, hbody, hhead⟩ := hbody
    exact ⟨gap, body, blank, by rw [hbody], hhead⟩
  have literal {c : Char} {more : List Char} {opened : Option Frame}
      (known : ValueText (c :: literalTail c))
      (hread : Yields (do skip *> letters (literalTail c); return none) (c :: more) opened rest) :
      ∃ body, c :: more = body ++ rest ∧ HeadText body opened := by
    obtain ⟨_, _, hliteral, hpure⟩ := hread.of_bind
    obtain ⟨rfl, rfl⟩ := hpure.of_pure
    obtain ⟨_, _, hskip, hletters⟩ := hliteral.of_seqRight
    rw [eq_of_yields_skip hskip] at hletters
    rw [eq_of_yields_letters hletters]
    exact ⟨c :: literalTail c, rfl, .scalar known⟩
  split at hnext
  · rename_i hc
    rcases hc with rfl | rfl | rfl
    · exact literal .null hnext
    · exact literal .truth hnext
    · exact literal .falsehood hnext
  split at hnext
  · rename_i hc
    obtain ⟨_, _, hnumber, hpure⟩ := hnext.of_bind
    obtain ⟨rfl, rfl⟩ := hpure.of_pure
    obtain ⟨_, _, hskip, hnumber⟩ := hnumber.of_seqRight
    rw [eq_of_yields_skip hskip] at hnumber
    obtain ⟨whole, fraction, exponent, rfl, hwhole, hfraction, hexponent⟩ :=
      number_of_yields_skipNumber hnumber
    exact ⟨['-'] ++ (whole ++ (fraction ++ exponent)), by rw [hc]; simp,
      .scalar (.number (.inr rfl) hwhole hfraction hexponent)⟩
  split at hnext
  · obtain ⟨_, _, hnumber, hpure⟩ := hnext.of_bind
    obtain ⟨rfl, rfl⟩ := hpure.of_pure
    obtain ⟨whole, fraction, exponent, htext, hwhole, hfraction, hexponent⟩ :=
      number_of_yields_skipNumber hnumber
    exact ⟨[] ++ (whole ++ (fraction ++ exponent)), by rw [htext]; simp,
      .scalar (.number (.inl rfl) hwhole hfraction hexponent)⟩
  split at hnext
  · rename_i hc
    obtain ⟨_, _, hstring, hpure⟩ := hnext.of_bind
    obtain ⟨rfl, rfl⟩ := hpure.of_pure
    obtain ⟨_, _, hskip, hstring⟩ := hstring.of_seqRight
    rw [eq_of_yields_skip hskip] at hstring
    obtain ⟨body, rfl, hbody⟩ := stringBody_of_yields_skipString hstring
    exact ⟨'"' :: (body ++ ['"']), by rw [hc]; simp, .scalar (.string hbody)⟩
  split at hnext
  · rename_i hc
    obtain ⟨_, _, hskip, hpure⟩ := hnext.of_bind
    rw [eq_of_yields_skip hskip] at hpure
    obtain ⟨rfl, rfl⟩ := hpure.of_pure
    exact ⟨['['], by rw [hc]; rfl, .opening .list⟩
  split at hnext
  · rename_i hc
    obtain ⟨_, _, hskip, hpure⟩ := hnext.of_bind
    rw [eq_of_yields_skip hskip] at hpure
    obtain ⟨rfl, rfl⟩ := hpure.of_pure
    exact ⟨['\x7b'], by rw [hc]; rfl, .opening .object⟩
  · exact (not_yields_failPeek _ hnext).elim

theorem ready_of_yields_skipValueFrom {fuel : Nat}
    (h : Yields (skipValueFrom fuel frames) text () rest) : Ready frames text rest := by
  induction fuel generalizing frames text with
  | zero => exact (not_yields_failPeek _ h).elim
  | succ fuel ih =>
    obtain ⟨opened, middle, hhead, hnext⟩ := h.of_bind
    obtain ⟨inner, between, hclosing, hend⟩ := hnext.of_bind
    have continues : Continues inner between rest := by
      split at hend
      · rename_i hempty
        exact .inl ⟨List.isEmpty_iff.1 hempty, hend.of_pure.2.symm⟩
      · rename_i hsome
        exact .inr ⟨by simpa using hsome, ih hend⟩
    obtain ⟨gap, body, blank, rfl, hbody⟩ := accepts_skipHead hhead
    cases hbody with
    | scalar isValue =>
      exact ⟨gap, body, middle, blank, isValue, rfl,
        finishes_of_yields_skipClosing hclosing continues⟩
    | opening frame =>
      obtain ⟨inside, behind, isValue, rfl, finishes⟩ :=
        value_of_yields_skipClosing hclosing continues
      exact ⟨gap, frame.opening :: inside, behind, blank, isValue, rfl, finishes⟩

end Frames

/-- A value that is passed over derives from the grammar. -/
theorem accepts_skipValue : Accepts skipValue fun text _ => ValueText text := by
  intro text _ rest h
  have h : Yields (skipValueFrom (text.length + 1) []) text () rest := h
  obtain ⟨gap, value, behind, blank, isValue, rfl, rfl⟩ := ready_of_yields_skipValueFrom h
  exact ⟨gap, value, blank, rfl, isValue⟩

/-! ### Objects -/

theorem gap_of_yields_member?_end {isFirst : Bool} (h : Yields (member? isFirst) text none rest) :
    ∃ gap more, Gap gap ∧ text = gap ++ '\x7d' :: more ∧ rest = '\x7d' :: more := by
  obtain ⟨goesOn, middle, hgoes, hnext⟩ := h.of_bind
  cases goesOn with
  | false =>
    obtain ⟨-, rfl⟩ := hnext.of_pure
    exact gap_of_yields_hasMember_end hgoes
  | true =>
    obtain ⟨_, _, -, hname⟩ := Yields.of_bind hnext
    obtain ⟨_, ⟨⟩, -⟩ := Yields.of_map hname

theorem spelling_of_yields_name {name : String}
    (h : Yields (do skip; return some (← stringBody)) ('"' :: text) (some name) rest) :
    ∃ written, text = written ++ '"' :: rest ∧ Spelling written name.toList := by
  obtain ⟨_, _, hskip, hname⟩ := h.of_bind
  rw [eq_of_yields_skip hskip] at hname
  obtain ⟨_, hsome, hbody⟩ := Yields.of_map hname
  obtain rfl := Option.some.inj hsome
  exact spelling_of_yields_stringBody hbody

theorem spelling_of_yields_member?_first {name : String}
    (h : Yields (member? true) text (some name) rest) :
    ∃ gap written, Gap gap ∧ text = gap ++ '"' :: (written ++ '"' :: rest) ∧
      Spelling written name.toList := by
  obtain ⟨goesOn, middle, hgoes, hnext⟩ := h.of_bind
  cases goesOn with
  | false => cases hnext.of_pure.1
  | true =>
    obtain ⟨gap, more, blank, rfl, rfl⟩ := gap_of_yields_hasMember_first hgoes
    obtain ⟨written, rfl, spelled⟩ := spelling_of_yields_name hnext
    exact ⟨gap, written, blank, rfl, spelled⟩

theorem spelling_of_yields_member?_next {name : String}
    (h : Yields (member? false) text (some name) rest) :
    ∃ gap lead written, Gap gap ∧ Gap lead ∧
      text = gap ++ ',' :: (lead ++ '"' :: (written ++ '"' :: rest)) ∧
      Spelling written name.toList := by
  obtain ⟨goesOn, middle, hgoes, hnext⟩ := h.of_bind
  cases goesOn with
  | false => cases hnext.of_pure.1
  | true =>
    obtain ⟨gap, lead, more, blank, leadBlank, rfl, rfl⟩ := gap_of_yields_hasMember_next hgoes
    obtain ⟨written, rfl, spelled⟩ := spelling_of_yields_name hnext
    exact ⟨gap, lead, written, blank, leadBlank, rfl, spelled⟩

/-- What a step of a reader of members has read is a colon and the text of a value. -/
def AcceptsMember (step : σ → String → Reader σ)
    (member : String → List Char → σ → σ → Prop) : Prop :=
  ∀ ⦃state name text next rest⦄, Yields (step state name) text next rest →
    ∃ before after value, Gap before ∧ Gap after ∧
      text = before ++ ':' :: (after ++ (value ++ rest)) ∧ member name value state next

/-- The members take a state on, one after the other. -/
inductive Carries (member : String → List Char → σ → σ → Prop) :
    σ → List (String × List Char) → σ → Prop
  | nil {state : σ} : Carries member state [] state
  | cons {name : String} {value : List Char} {members : List (String × List Char)}
      {state next last : σ} (first : member name value state next)
      (others : Carries member next members last) :
      Carries member state ((name, value) :: members) last

variable {step : σ → String → Reader σ} {member : String → List Char → σ → σ → Prop}
  {state last : σ}

theorem moreMembers_of_yields (hstep : AcceptsMember step member) {fuel : Nat}
    (h : Yields (membersFrom step fuel false state) text last rest) :
    ∃ tail more members, text = tail ++ '\x7d' :: more ∧ rest = '\x7d' :: more ∧
      MoreMembers tail members ∧ Carries member state members last := by
  induction fuel generalizing state text with
  | zero => exact (not_yields_failPeek _ h).elim
  | succ fuel ih =>
    obtain ⟨found, middle, hfound, hnext⟩ := h.of_bind
    split at hnext
    · obtain ⟨next, _, hmember, hmore⟩ := Yields.of_bind hnext
      obtain ⟨tail, more, members, rfl, rfl, hmembers, carries⟩ := ih hmore
      obtain ⟨before, after, value, beforeBlank, afterBlank, rfl, first⟩ := hstep hmember
      obtain ⟨gap, lead, written, blank, leadBlank, rfl, spelled⟩ :=
        spelling_of_yields_member?_next hfound
      exact ⟨_, more, _, by simp, rfl,
        .next blank leadBlank spelled beforeBlank afterBlank hmembers, .cons first carries⟩
    · obtain ⟨gap, more, blank, rfl, rfl⟩ := gap_of_yields_member?_end hfound
      obtain ⟨rfl, rfl⟩ := hnext.of_pure
      exact ⟨gap, more, [], rfl, rfl, .done blank, .nil⟩

/-- Members that are accepted one after the other are an object. -/
theorem objectText_of_yields_members (hstep : AcceptsMember step member)
    (h : Yields (members step state) text last rest) :
    ∃ inside more members, text = inside ++ '\x7d' :: more ∧ rest = '\x7d' :: more ∧
      ObjectText ('\x7b' :: (inside ++ ['\x7d'])) members ∧ Carries member state members last := by
  have h : Yields (membersFrom step (text.length + 1) true state) text last rest := h
  obtain ⟨found, middle, hfound, hnext⟩ := h.of_bind
  split at hnext
  · obtain ⟨next, _, hmember, hmore⟩ := Yields.of_bind hnext
    obtain ⟨tail, more, members, rfl, rfl, hmembers, carries⟩ := moreMembers_of_yields hstep hmore
    obtain ⟨before, after, value, beforeBlank, afterBlank, rfl, first⟩ := hstep hmember
    obtain ⟨gap, written, blank, rfl, spelled⟩ := spelling_of_yields_member?_first hfound
    have object : ObjectText _ ((_, value) :: members) :=
      .cons blank spelled beforeBlank afterBlank hmembers
    refine ⟨gap ++ '"' :: (written ++ '"' :: (before ++ ':' :: (after ++ (value ++ tail)))), more,
      _, by simp, rfl, ?_, .cons first carries⟩
    simpa using object
  · obtain ⟨gap, more, blank, rfl, rfl⟩ := gap_of_yields_member?_end hfound
    obtain ⟨rfl, rfl⟩ := hnext.of_pure
    exact ⟨gap, more, [], rfl, rfl, .nil blank, .nil⟩

/-- A record is accepted as the list of its fields and as an object. -/
theorem accepts_record {expected : String} {ofList ofObject : Reader α}
    {item : List Char → α → Prop}
    (hlist : ∀ ⦃inside a middle rest⦄, Yields ofList inside a middle →
      Yields endList middle () rest → ∃ body, inside = body ++ rest ∧ item ('[' :: body) a)
    (hobject : ∀ ⦃inside a middle rest⦄, Yields ofObject inside a middle →
      Yields endObject middle () rest → ∃ body, inside = body ++ rest ∧ item ('\x7b' :: body) a) :
    Accepts (record expected ofList ofObject) item := by
  refine accepts_byFirst fun {c more a rest} h => ?_
  split at h
  · rename_i hc
    subst hc
    obtain ⟨middle, hinside, hend⟩ := yields_of_enclosed h
    obtain ⟨body, rfl, hbody⟩ := hlist hinside hend
    exact ⟨'[' :: body, rfl, hbody⟩
  split at h
  · rename_i hc
    subst hc
    obtain ⟨middle, hinside, hend⟩ := yields_of_enclosed h
    obtain ⟨body, rfl, hbody⟩ := hobject hinside hend
    exact ⟨'\x7b' :: body, rfl, hbody⟩
  · exact (not_yields_refuse h).elim

/-! ### Lists and objects of values -/

theorem derives_moreItems {item : List Char → α → Prop} {as : List α} (h : MoreItems item text as)
    (values : ∀ ⦃text a⦄, item text a → ValueText text) : Derives .moreItems (text ++ [']']) := by
  induction h with
  | done blank => exact .endList blank
  | next blank leadBlank written _ ih =>
    have item := Derives.item blank leadBlank (values written) ih
    simpa using item

theorem valueText_of_listText {item : List Char → α → Prop} {as : List α}
    (h : ListText item text as) (values : ∀ ⦃text a⦄, item text a → ValueText text) :
    ValueText text := by
  cases h with
  | nil blank => exact .emptyList blank
  | cons blank written more => exact .list blank (values written) (derives_moreItems more values)

theorem derives_moreMembers {members : List (String × List Char)} (h : MoreMembers text members)
    (values : ∀ member ∈ members, ValueText member.2) :
    Derives .moreMembers (text ++ ['\x7d']) := by
  induction h with
  | done blank => exact .endObject blank
  | next blank leadBlank spelled beforeBlank afterBlank _ ih =>
    obtain ⟨first, others⟩ := List.forall_mem_cons.1 values
    have member := Derives.member blank leadBlank (stringBody_of_spelling spelled) beforeBlank
      afterBlank first (ih others)
    simpa using member

theorem valueText_of_objectText {members : List (String × List Char)} (h : ObjectText text members)
    (values : ∀ member ∈ members, ValueText member.2) : ValueText text := by
  cases h with
  | nil blank => exact .emptyObject blank
  | cons blank spelled beforeBlank afterBlank more =>
    obtain ⟨first, others⟩ := List.forall_mem_cons.1 values
    exact .object blank (stringBody_of_spelling spelled) beforeBlank afterBlank first
      (derives_moreMembers more others)

end ModelShelf.Json.Reader
