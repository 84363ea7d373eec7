import ModelShelf.Proofs.Files.Places
import ModelShelf.Proofs.Text.Splitting
import ModelShelf.Store.Models

/-!
Marks of schemes in texts. A text without a mark is a path, and stays one when paths are put
together, because the slashes of a mark never meet there. The URI of a path below the artifacts of a
run tells the run and the path.
-/

namespace ModelShelf

open Text
open ModelShelf.Path (Plain)

namespace ModelUri

/-- No mark of a scheme stands in the text. -/
def Unmarked (text : String) : Prop := ¬ schemeMark.toList <:+: text.toList

theorem splitScheme?_eq_none {text : String} :
    splitScheme? text.toList = none ↔ Unmarked text := splitFirst?_eq_none

instance (text : String) : Decidable (Unmarked text) := decidable_of_iff _ splitScheme?_eq_none

theorem toList_schemeMark : schemeMark.toList = [':', '/', '/'] := rfl

/-! ### Texts that are put together -/

theorem head?_of_front {c : Char} {s t : List Char} (h : c :: s <+: t) : t.head? = some c := by
  obtain ⟨rest, rfl⟩ := h
  rfl

/-- A mark does not arise where a text begins without a slash. -/
theorem not_mark_append {s t : List Char} (hs : ¬ schemeMark.toList <:+: s)
    (ht : ¬ schemeMark.toList <:+: t) (solid : t.head? ≠ some '/') :
    ¬ schemeMark.toList <:+: s ++ t := by
  induction s with
  | nil => exact ht
  | cons x rest ih =>
    rw [List.infix_cons_iff, not_or] at hs
    rw [List.cons_append, List.infix_cons_iff, not_or]
    refine ⟨fun hmark => ?_, ih hs.2⟩
    rw [toList_schemeMark] at hmark hs
    obtain ⟨rfl, hslashes⟩ := List.cons_prefix_cons.1 hmark
    cases rest with
    | nil => exact solid (head?_of_front hslashes)
    | cons y rest =>
      obtain ⟨rfl, hslash⟩ := List.cons_prefix_cons.1 hslashes
      cases rest with
      | nil => exact solid (head?_of_front hslash)
      | cons z rest =>
        obtain ⟨rfl, -⟩ := List.cons_prefix_cons.1 hslash
        exact hs.1 ⟨rest, rfl⟩

/-- A mark does not arise where a slash is put behind a text that ends without one. -/
theorem not_mark_append_slash {s : List Char} (hs : ¬ schemeMark.toList <:+: s)
    (solid : s.getLast? ≠ some '/') : ¬ schemeMark.toList <:+: s ++ ['/'] := by
  rw [List.infix_concat_iff, not_or]
  refine ⟨fun hsuffix => ?_, hs⟩
  obtain ⟨front, hfront⟩ := hsuffix
  rw [toList_schemeMark] at hfront
  have hs : s = front ++ [':', '/'] := by
    refine (List.append_left_inj ['/']).1 ?_
    rw [← hfront, List.append_assoc]
    rfl
  exact solid (by rw [hs, List.getLast?_append]; rfl)

theorem not_mark_join {s t : List Char} (hs : ¬ schemeMark.toList <:+: s)
    (ht : ¬ schemeMark.toList <:+: t) (hlast : s.getLast? ≠ some '/')
    (hfirst : t.head? ≠ some '/') : ¬ schemeMark.toList <:+: s ++ '/' :: t := by
  rw [← List.singleton_append, ← List.append_assoc]
  exact not_mark_append (not_mark_append_slash hs hlast) ht hfirst

/-- A text without the slashes at its end. -/
def frontOf (s : List Char) : List Char := (s.reverse.dropWhile isSlash).reverse

theorem getLast?_frontOf (root : List Char) : (frontOf root).getLast? ≠ some '/' :=
  fun h => nomatch eq_false_of_getLast?_dropEnd h

theorem frontOf_isPrefix (root : List Char) : frontOf root <+: root := by
  rw [frontOf, ← List.reverse_suffix, List.reverse_reverse]
  exact List.dropWhile_suffix isSlash

theorem head?_back_ne (path : List Char) : (path.dropWhile isSlash).head? ≠ some '/' :=
  fun h => nomatch eq_false_of_head?_dropWhile h

theorem toList_below (root path : String) :
    (Resolver.below root path).toList =
      frontOf root.toList ++ '/' :: path.toList.dropWhile isSlash := by
  rw [Resolver.below, String.toList_ofList]
  rfl

/-- A path without a mark below a root without one. -/
theorem unmarked_below {root path : String} (hroot : Unmarked root) (hpath : Unmarked path) :
    Unmarked (Resolver.below root path) := by
  have hfront : ¬ schemeMark.toList <:+: frontOf root.toList :=
    fun h => hroot (h.trans (frontOf_isPrefix root.toList).isInfix)
  have hback : ¬ schemeMark.toList <:+: path.toList.dropWhile isSlash :=
    fun h => hpath (h.trans (List.dropWhile_suffix isSlash).isInfix)
  rw [Unmarked, toList_below]
  exact not_mark_join hfront hback (getLast?_frontOf _) (head?_back_ne _)

/-! ### URIs of runs -/

/-- The URI of a path below the artifacts of a run tells the run and the path. -/
theorem parse_runUri {runId path : String} (named : runId ≠ "") (single : '/' ∉ runId.toList)
    (solid : path ≠ "") (trimmed : Trimmed isSlash path.toList) :
    parse (Resolver.runUri runId path) = .ok (.run runId path) := by
  have text : (Resolver.runUri runId path).toList =
      runScheme.toList ++ (runId.toList ++ '/' :: path.toList) := by
    rw [Resolver.runUri, display, String.toList_append, String.toList_append, String.toList_append,
      List.append_assoc, List.append_assoc]
    rfl
  have scheme : stripScheme? runScheme (runScheme.toList ++ (runId.toList ++ '/' :: path.toList)) =
      some (runId.toList ++ '/' :: path.toList) := by
    rw [stripScheme?]
    simp only [List.take_left, List.drop_left]
    rfl
  have front : (runId.toList ++ '/' :: path.toList).dropWhile isSlash =
      runId.toList ++ '/' :: path.toList := by
    refine dropWhile_of_head? fun c hc => ?_
    cases hid : runId.toList with
    | nil => exact absurd (String.toList_eq_nil_iff.1 hid) named
    | cons first rest =>
      rw [hid, List.cons_append, List.head?_cons] at hc
      obtain rfl := Option.some.inj hc
      refine decide_eq_false fun heq => single ?_
      rw [hid, heq]
      exact List.mem_cons_self
  have found : run? (runId.toList ++ '/' :: path.toList) = some (.run runId path) := by
    rw [run?, front, splitFirst?_of_not_mem single]
    simp only [trim_of_trimmed trimmed, String.ofList_toList]
    rw [if_neg (by simp [named, solid])]
  rw [parse, text, scheme]
  simp only [found]
  rfl

end ModelUri

end ModelShelf
