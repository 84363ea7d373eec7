import Mathlib.Data.List.Infix
import Mathlib.Data.List.TakeDrop
import Mathlib.Logic.Function.Basic

/-!
Texts that are put together. A writer is separable if what it wrote can be split off in one way
only, in front of every text that may stand behind it. Pairs, alternatives and lists of separable
parts are separable again, so that a text tells what it was put together from.
-/

namespace ModelShelf.Text

variable {α β γ κ : Type}

/-! ### Parts with a separator -/

theorem intercalate_cons (separator first : List κ) (others : List (List κ)) :
    separator.intercalate (first :: others) = first ++ others.flatMap (separator ++ ·) := by
  induction others generalizing first with
  | nil => simp
  | cons second others ih =>
    rw [List.intercalate_cons_cons, ih, List.flatMap_cons]
    simp only [List.append_assoc]

theorem mem_intercalate {c : κ} {separator : List κ} {parts : List (List κ)}
    (h : c ∈ separator.intercalate parts) : c ∈ separator ∨ ∃ part ∈ parts, c ∈ part := by
  cases parts with
  | nil => cases h
  | cons first others =>
    rw [intercalate_cons, List.mem_append, List.mem_flatMap] at h
    rcases h with h | ⟨part, hpart, h⟩
    · exact .inr ⟨first, List.mem_cons_self, h⟩
    · rcases List.mem_append.1 h with h | h
      · exact .inl h
      · exact .inr ⟨part, List.mem_cons_of_mem first hpart, h⟩

/-- A part is within the parts put together. -/
theorem mem_intercalate_of_mem {c : κ} {separator part : List κ} {parts : List (List κ)}
    (hpart : part ∈ parts) (h : c ∈ part) : c ∈ separator.intercalate parts := by
  cases parts with
  | nil => cases hpart
  | cons first others =>
    rw [intercalate_cons, List.mem_append, List.mem_flatMap]
    rcases List.mem_cons.1 hpart with rfl | hpart
    · exact .inl h
    · exact .inr ⟨part, hpart, List.mem_append_right separator h⟩

/-! ### Parts that can be split off -/

/-- In front of the texts that `ends` admits, what was written tells what it was written for and
where it ends. -/
def Separable (ends : List κ → Prop) (write : α → List κ) : Prop :=
  ∀ ⦃a b s t⦄, ends s → ends t → write a ++ s = write b ++ t → a = b ∧ s = t

/-- What was written can be split off in front of every text. -/
abbrev PrefixFree (write : α → List κ) : Prop := Separable (fun _ => True) write

variable {ends ends' : List κ → Prop} {write : α → List κ} {write' : β → List κ}

theorem PrefixFree.inj (h : PrefixFree write) {a b : α} : write a = write b ↔ a = b := by
  constructor
  · intro heq
    exact (h (s := []) (t := []) trivial trivial (by rw [heq])).1
  · rintro rfl
    rfl

/-- Texts of which none begins with another one are told apart whatever stands behind them. -/
theorem prefixFree_of_eq_of_prefix (h : ∀ a b, write a <+: write b → a = b) :
    PrefixFree write := by
  intro a b s t _ _ heq
  have first : write a <+: write a ++ s := List.prefix_append _ _
  have second : write b <+: write a ++ s := heq ▸ List.prefix_append _ _
  obtain rfl : a = b := by
    obtain hprefix | hprefix := List.prefix_or_prefix_of_prefix first second
    · exact h a b hprefix
    · exact (h b a hprefix).symm
  exact ⟨rfl, List.append_cancel_left heq⟩

/-- A text is past the characters of a kind if it does not begin with one. -/
def Past (p : κ → Bool) (s : List κ) : Prop := ∀ c, s.head? = some c → p c = false

theorem past_cons {p : κ → Bool} {c : κ} {rest : List κ} (h : p c = false) :
    Past p (c :: rest) := by
  intro first hfirst
  obtain rfl := Option.some.inj hfirst
  exact h

/-- Texts of one kind of characters end before the first character of another kind. -/
theorem separable_of_all {p : κ → Bool} (inj : ∀ a b, write a = write b → a = b)
    (all : ∀ a, (write a).all p = true) : Separable (Past p) write := by
  intro a b s t hs ht heq
  have front (a : α) {s : List κ} (hs : Past p s) : (write a ++ s).takeWhile p = write a := by
    rw [List.takeWhile_append_of_pos (List.all_eq_true.1 (all a))]
    cases s with
    | nil => rw [List.takeWhile_nil, List.append_nil]
    | cons c rest => rw [List.takeWhile_cons_of_neg (by simp [hs c rfl]), List.append_nil]
  have same : write a = write b := by rw [← front a hs, heq, front b ht]
  rw [same] at heq
  exact ⟨inj a b same, List.append_cancel_left heq⟩

namespace Separable

theorem behind (h : Separable ends write) (front : List κ) :
    Separable ends fun a => front ++ write a := by
  intro a b s t hs ht heq
  rw [List.append_assoc, List.append_assoc] at heq
  exact h hs ht (List.append_cancel_left heq)

theorem before (h : Separable ends write) {back : List κ} (hback : ∀ s, ends (back ++ s)) :
    PrefixFree fun a => write a ++ back := by
  intro a b s t _ _ heq
  rw [List.append_assoc, List.append_assoc] at heq
  obtain ⟨rfl, hrest⟩ := h (hback s) (hback t) heq
  exact ⟨rfl, List.append_cancel_left hrest⟩

/-- What is written for the parts of a thing tells the thing if the parts do. -/
theorem comp (h : Separable ends write) {parts : γ → α} (inj : Function.Injective parts) :
    Separable ends fun c => write (parts c) := fun _ _ _ _ hs ht heq =>
  (h hs ht heq).imp_left fun same => inj same

/-- One part behind another one. -/
theorem append (h : Separable ends write) (h' : Separable ends' write')
    (hends : ∀ b t, ends' t → ends (write' b ++ t)) :
    Separable ends' fun pair : α × β => write pair.1 ++ write' pair.2 := by
  rintro ⟨a, b⟩ ⟨a', b'⟩ s t hs ht heq
  simp only [List.append_assoc] at heq
  obtain ⟨rfl, hrest⟩ := h (hends b s hs) (hends b' t ht) heq
  obtain ⟨rfl, rfl⟩ := h' hs ht hrest
  exact ⟨rfl, rfl⟩

/-- One of two parts, told apart by how they begin. -/
theorem sum (h : Separable ends write) (h' : Separable ends write')
    (apart : ∀ a b s t, write a ++ s ≠ write' b ++ t) :
    Separable ends (Sum.elim write write') := by
  rintro (a | a) (b | b) s t hs ht heq
  · exact (h hs ht heq).imp_left (congrArg Sum.inl)
  · exact absurd heq (apart a b s t)
  · exact absurd heq.symm (apart b a t s)
  · exact (h' hs ht heq).imp_left (congrArg Sum.inr)

/-- A part that may be absent, in front of what the text for its absence tells from it. -/
theorem option (h : Separable ends write) (absent : List κ) :
    Separable (fun s => ends s ∧ ∀ a t, absent ++ s ≠ write a ++ t)
      fun part : Option α => part.elim absent write := by
  rintro (_ | a) (_ | b) s t ⟨hs, apart⟩ ⟨ht, apart'⟩ heq
  · exact ⟨rfl, List.append_cancel_left heq⟩
  · exact absurd heq (apart b t)
  · exact absurd heq.symm (apart' a s)
  · exact (h hs ht heq).imp_left (congrArg some)

variable {close : List κ}

/-- What stands behind an item is the next item or the mark that closes the items. -/
theorem ends_flatMap (hnext : ∀ a s, ends (write a ++ s)) (hlast : ∀ s, ends (close ++ s))
    (items : List α) (s : List κ) : ends (items.flatMap write ++ (close ++ s)) := by
  cases items with
  | nil => exact hlast s
  | cons a items =>
    rw [List.flatMap_cons, List.append_assoc]
    exact hnext a _

/-- Items one behind the other, up to a mark that no item begins with. -/
theorem flatMap (h : Separable ends write) (hnext : ∀ a s, ends (write a ++ s))
    (hlast : ∀ s, ends (close ++ s)) (apart : ∀ a s t, write a ++ s ≠ close ++ t) :
    PrefixFree fun items : List α => items.flatMap write ++ close := by
  intro items others s t _ _ heq
  have follows := ends_flatMap hnext hlast
  simp only [List.append_assoc] at heq
  induction items generalizing others with
  | nil =>
    cases others with
    | nil => exact ⟨rfl, List.append_cancel_left heq⟩
    | cons b others =>
      rw [List.flatMap_cons, List.append_assoc] at heq
      exact absurd heq.symm (apart b _ s)
  | cons a items ih =>
    cases others with
    | nil =>
      rw [List.flatMap_cons, List.append_assoc] at heq
      exact absurd heq (apart a _ t)
    | cons b others =>
      rw [List.flatMap_cons, List.flatMap_cons, List.append_assoc, List.append_assoc] at heq
      obtain ⟨rfl, hrest⟩ := h (follows items s) (follows others t) heq
      obtain ⟨rfl, rfl⟩ := ih hrest
      exact ⟨rfl, rfl⟩

/-- Items with a separator between them, up to a mark that neither an item nor the separator begins
with. -/
theorem intercalate (h : Separable ends write) {separator : List κ}
    (hnext : ∀ s, ends (separator ++ s)) (hlast : ∀ s, ends (close ++ s))
    (apart : ∀ s t, separator ++ s ≠ close ++ t) (apart' : ∀ a s t, write a ++ s ≠ close ++ t) :
    PrefixFree fun items : List α => separator.intercalate (items.map write) ++ close := by
  have next (a : α) (s : List κ) : ends ((separator ++ write a) ++ s) := by
    rw [List.append_assoc]
    exact hnext _
  have follows := ends_flatMap next hlast
  have more : PrefixFree fun items : List α => items.flatMap (separator ++ write ·) ++ close := by
    refine (h.behind separator).flatMap next hlast fun a s t => ?_
    rw [List.append_assoc]
    exact apart _ t
  have unfolded (a : α) (items : List α) (s : List κ) :
      separator.intercalate ((a :: items).map write) ++ close ++ s =
        write a ++ (items.flatMap (separator ++ write ·) ++ (close ++ s)) := by
    rw [List.map_cons, intercalate_cons, List.flatMap_map]
    simp only [List.append_assoc]
  intro items others s t _ _ heq
  beta_reduce at heq
  cases items with
  | nil =>
    cases others with
    | nil => exact ⟨rfl, List.append_cancel_left heq⟩
    | cons b others =>
      rw [unfolded] at heq
      exact absurd heq.symm (apart' b _ s)
  | cons a items =>
    rw [unfolded] at heq
    cases others with
    | nil => exact absurd heq (apart' a _ t)
    | cons b others =>
      rw [unfolded] at heq
      obtain ⟨rfl, hrest⟩ := h (follows items s) (follows others t) heq
      rw [← List.append_assoc, ← List.append_assoc] at hrest
      obtain ⟨rfl, rfl⟩ := more trivial trivial hrest
      exact ⟨rfl, rfl⟩

end Separable

end ModelShelf.Text
