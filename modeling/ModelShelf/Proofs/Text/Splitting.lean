import Mathlib.Data.List.Infix
import Mathlib.Data.List.TakeDrop
import ModelShelf.Text.Split

/-!
Texts that are taken apart. A text is split at a mark exactly if the mark stands in it; what stands
behind the first mark does not matter for where that mark is. Trimming leaves a text that needs no
more of it.
-/

namespace ModelShelf.Text

variable {α : Type}

theorem eq_false_of_head?_dropWhile {p : α → Bool} {s : List α} {x : α}
    (h : (s.dropWhile p).head? = some x) : p x = false := by
  have hnot := List.head?_dropWhile_not p s
  rw [h] at hnot
  simpa using hnot

section Marks

variable [BEq α] [LawfulBEq α] {mark s before after : List α}

theorem stripPrefix?_eq_some : stripPrefix? mark s = some after ↔ s = mark ++ after := by
  rw [stripPrefix?]
  constructor
  · intro h
    split at h
    · rename_i hfront
      obtain ⟨rest, rfl⟩ := List.isPrefixOf_iff_prefix.1 hfront
      rw [List.drop_left] at h
      rw [Option.some.inj h]
    · cases h
  · rintro rfl
    rw [if_pos (List.isPrefixOf_iff_prefix.2 (List.prefix_append mark after)), List.drop_left]

theorem stripPrefix?_eq_none : stripPrefix? mark s = none ↔ ¬ mark <+: s := by
  rw [stripPrefix?, ← List.isPrefixOf_iff_prefix]
  by_cases hfront : mark.isPrefixOf s = true <;> simp [hfront]

/-- A text is not split exactly if the mark does not stand in it. -/
theorem splitFirst?_eq_none : splitFirst? mark s = none ↔ ¬ mark <:+: s := by
  induction s with
  | nil => cases mark <;> simp [splitFirst?]
  | cons x rest ih =>
    rw [splitFirst?, List.infix_cons_iff, not_or]
    cases hstrip : stripPrefix? mark (x :: rest) with
    | none => simp [ih, stripPrefix?_eq_none.1 hstrip]
    | some after => simp [stripPrefix?_eq_some.1 hstrip]

theorem eq_of_splitFirst? (h : splitFirst? mark s = some (before, after)) :
    s = before ++ (mark ++ after) := by
  induction s generalizing before with
  | nil =>
    cases mark with
    | nil =>
      obtain ⟨rfl, rfl⟩ := Prod.mk.inj (Option.some.inj h)
      rfl
    | cons => cases h
  | cons x rest ih =>
    rw [splitFirst?] at h
    cases hstrip : stripPrefix? mark (x :: rest) with
    | some found =>
      rw [hstrip] at h
      obtain ⟨rfl, rfl⟩ := Prod.mk.inj (Option.some.inj h)
      exact (List.nil_append _).symm ▸ stripPrefix?_eq_some.1 hstrip
    | none =>
      rw [hstrip] at h
      obtain ⟨⟨front, back⟩, hrest, heq⟩ := Option.map_eq_some_iff.1 h
      obtain ⟨rfl, rfl⟩ := Prod.mk.inj heq
      rw [ih hrest, List.cons_append]

/-- The first mark of a text stays the first one, whatever comes behind it. -/
theorem splitFirst?_behind (h : splitFirst? mark s = some (before, after)) (other : List α) :
    splitFirst? mark (before ++ (mark ++ other)) = some (before, other) := by
  induction s generalizing before with
  | nil =>
    cases mark with
    | nil =>
      obtain ⟨rfl, rfl⟩ := Prod.mk.inj (Option.some.inj h)
      cases other <;> rfl
    | cons => cases h
  | cons x rest ih =>
    rw [splitFirst?] at h
    cases hstrip : stripPrefix? mark (x :: rest) with
    | some found =>
      rw [hstrip] at h
      obtain ⟨rfl, rfl⟩ := Prod.mk.inj (Option.some.inj h)
      have front : stripPrefix? mark (mark ++ other) = some other := stripPrefix?_eq_some.2 rfl
      rw [List.nil_append]
      cases hmark : mark ++ other with
      | nil =>
        obtain ⟨rfl, rfl⟩ := List.append_eq_nil_iff.1 hmark
        rfl
      | cons y ys =>
        rw [hmark] at front
        rw [splitFirst?, front]
    | none =>
      rw [hstrip] at h
      obtain ⟨⟨front, back⟩, hrest, heq⟩ := Option.map_eq_some_iff.1 h
      obtain ⟨rfl, rfl⟩ := Prod.mk.inj heq
      -- A mark at the start would end before `other` begins, and stand in the first text too.
      have later : stripPrefix? mark (x :: (front ++ (mark ++ other))) = none := by
        refine stripPrefix?_eq_none.2 fun hfront => stripPrefix?_eq_none.1 hstrip ?_
        rw [eq_of_splitFirst? hrest]
        have long : x :: (front ++ mark) <+: x :: (front ++ (mark ++ other)) := ⟨other, by simp⟩
        have short : mark <+: x :: (front ++ mark) := by
          apply List.prefix_of_prefix_length_le hfront long
          simp only [List.length_cons, List.length_append]
          omega
        exact short.trans ⟨back, by simp⟩
      rw [List.cons_append, splitFirst?, later, ih hrest]
      rfl

/-- What stands before the first mark does not hold one. -/
theorem not_infix_of_splitFirst? (solid : mark ≠ [])
    (h : splitFirst? mark s = some (before, after)) : ¬ mark <:+: before := by
  induction s generalizing before with
  | nil =>
    cases mark with
    | nil => exact absurd rfl solid
    | cons => cases h
  | cons x rest ih =>
    rw [splitFirst?] at h
    cases hstrip : stripPrefix? mark (x :: rest) with
    | some found =>
      rw [hstrip] at h
      obtain ⟨rfl, rfl⟩ := Prod.mk.inj (Option.some.inj h)
      rwa [List.infix_nil]
    | none =>
      rw [hstrip] at h
      obtain ⟨⟨front, back⟩, hrest, heq⟩ := Option.map_eq_some_iff.1 h
      obtain ⟨rfl, rfl⟩ := Prod.mk.inj heq
      rw [List.infix_cons_iff, not_or]
      refine ⟨fun hfront => stripPrefix?_eq_none.1 hstrip (hfront.trans ?_), ih hrest⟩
      exact ⟨mark ++ back, by rw [eq_of_splitFirst? hrest, List.cons_append]⟩

/-- Behind a text without the first element of the mark stands the first mark. -/
theorem splitFirst?_behind_not_mem {c : α} {more : List α} (h : c ∉ s) (rest : List α) :
    splitFirst? (c :: more) (s ++ (c :: more ++ rest)) = some (s, rest) := by
  induction s with
  | nil =>
    have front : stripPrefix? (c :: more) (c :: more ++ rest) = some rest :=
      stripPrefix?_eq_some.2 rfl
    rw [List.nil_append, List.cons_append, splitFirst?, ← List.cons_append, front]
  | cons x xs ih =>
    obtain ⟨hx, hxs⟩ := not_or.1 (mt List.mem_cons.2 h)
    have later : stripPrefix? (c :: more) (x :: (xs ++ (c :: more ++ rest))) = none :=
      stripPrefix?_eq_none.2 fun hfront => hx (List.cons_prefix_cons.1 hfront).1
    rw [List.cons_append, splitFirst?, later, ih hxs]
    rfl

/-- A text is split at the first place of an element. -/
theorem splitFirst?_single {c : α} :
    splitFirst? [c] s = some (before, after) ↔ s = before ++ c :: after ∧ c ∉ before := by
  constructor
  · intro h
    have hnot := not_infix_of_splitFirst? (List.cons_ne_nil c []) h
    rw [List.singleton_infix_iff] at hnot
    exact ⟨eq_of_splitFirst? h, hnot⟩
  · rintro ⟨rfl, h⟩
    exact splitFirst?_behind_not_mem h after

theorem splitFirst?_of_not_mem {c : α} (h : c ∉ s) (rest : List α) :
    splitFirst? [c] (s ++ c :: rest) = some (s, rest) := splitFirst?_single.2 ⟨rfl, h⟩

theorem eq_of_splitLast? {c : α} (h : splitLast? c s = some (before, after)) :
    s = before ++ c :: after := by
  rw [splitLast?, List.span_eq_takeWhile_dropWhile] at h
  have parts := List.takeWhile_append_dropWhile (p := fun x => !(x == c)) (l := s.reverse)
  cases hback : s.reverse.dropWhile (fun x => !(x == c)) with
  | nil =>
    rw [hback] at h
    cases h
  | cons x front =>
    rw [hback] at h parts
    obtain ⟨rfl, rfl⟩ := Prod.mk.inj (Option.some.inj h)
    have hx : (!(x == c)) = false :=
      eq_false_of_head?_dropWhile (p := fun x => !(x == c)) (s := s.reverse) (by rw [hback]; rfl)
    rw [Bool.not_eq_false', beq_iff_eq] at hx
    have reversed := congrArg List.reverse parts
    rw [List.reverse_reverse, List.reverse_append, List.reverse_cons, hx,
      List.append_assoc] at reversed
    exact reversed.symm

end Marks

/-! ### Trimmed texts -/

variable {p : α → Bool} {s : List α}

/-- Neither end of a list satisfies `p`. -/
structure Trimmed (p : α → Bool) (s : List α) : Prop where
  head : ∀ x, s.head? = some x → p x = false
  last : ∀ x, s.getLast? = some x → p x = false

theorem dropWhile_of_head? (h : ∀ x, s.head? = some x → p x = false) : s.dropWhile p = s := by
  cases s with
  | nil => rfl
  | cons x rest => rw [List.dropWhile_cons_of_neg (by simp [h x rfl])]

theorem trim_isPrefix (p : α → Bool) (s : List α) : trim p s <+: s.dropWhile p := by
  rw [trim, ← List.reverse_suffix, List.reverse_reverse]
  exact List.dropWhile_suffix p

theorem trimmed_trim (p : α → Bool) (s : List α) : Trimmed p (trim p s) where
  head x hx := by
    obtain ⟨rest, hrest⟩ := trim_isPrefix p s
    refine eq_false_of_head?_dropWhile (s := s) ?_
    rw [← hrest, List.head?_append, hx]
    rfl
  last x hx := by
    rw [trim, List.getLast?_reverse] at hx
    exact eq_false_of_head?_dropWhile hx

theorem trim_of_trimmed (h : Trimmed p s) : trim p s = s := by
  have back : ∀ x, s.reverse.head? = some x → p x = false := fun x hx =>
    h.last x (by rwa [List.head?_reverse] at hx)
  rw [trim, dropWhile_of_head? h.head, dropWhile_of_head? back, List.reverse_reverse]

/-- A list without its end that satisfies `p` does not end so. -/
theorem eq_false_of_getLast?_dropEnd {x : α}
    (h : (s.reverse.dropWhile p).reverse.getLast? = some x) : p x = false := by
  rw [List.getLast?_reverse] at h
  exact eq_false_of_head?_dropWhile h

end ModelShelf.Text
