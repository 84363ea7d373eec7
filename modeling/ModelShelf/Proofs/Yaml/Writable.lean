import ModelShelf.Yaml.Printer

/-!
The values that can be written. A tagged value may not carry a tag again, and the only key of a
mapping without a tag may be neither tagged nor a mapping of one key. Nothing else fails.
-/

namespace ModelShelf.Yaml.Value

mutual

/-- Whether a value can be written, behind a tag or not. -/
def writableAt (tagged : Bool) : Value → Bool
  | .sequence items => itemsWritable items
  | .mapping entries =>
    (tagged || !(entries.length = 1 && entries.any fun e => isLone e.1)) && entriesWritable entries
  | .tagged _ inner => !tagged && writableAt true inner
  | .null | .bool _ | .integer _ | .float _ | .string _ => true

def itemsWritable : List Value → Bool
  | [] => true
  | item :: rest => writableAt false item && itemsWritable rest

def entriesWritable : List (Value × Value) → Bool
  | [] => true
  | (key, item) :: rest =>
    writableAt false key && (writableAt false item && entriesWritable rest)

end

/-- Whether a value can be written by itself. -/
def isWritable (v : Value) : Bool := writableAt false v

mutual

theorem isOk_write (tag : Option String) (indent : Option Nat) (inMapping isKey : Bool) (v : Value)
    (p : Page) : (write tag indent inMapping isKey v p).isOk = writableAt tag.isSome v := by
  cases v with
  | sequence items =>
    cases items with
    | nil => rfl
    | cons item rest => exact isOk_writeItems _ (item :: rest) _
  | mapping entries =>
    cases entries with
    | nil => cases tag <;> rfl
    | cons entry rest =>
      have inside := isOk_writeEntries (deeper indent 0) (entry :: rest) (writeTag tag p)
      simp only [write, writableAt]
      cases tag with
      -- Behind a tag no key is taken for one.
      | some tag => simpa using inside
      | none =>
        simp only [Option.isNone_none, Option.isSome_none, Bool.true_and, Bool.false_or]
        split
        · rename_i lone
          rw [lone]
          rfl
        · rename_i notLone
          rw [inside, Bool.eq_false_iff.2 notLone]
          rfl
  | tagged own inner =>
    simp only [write, writableAt]
    cases tag with
    | none => exact isOk_write (some own) indent inMapping isKey inner p
    | some tag => rfl
  | _ => rfl

theorem isOk_writeItems (column : Nat) (items : List Value) (p : Page) :
    (writeItems column items p).isOk = itemsWritable items := by
  cases items with
  | nil => rfl
  | cons item rest =>
    have first := isOk_write none (some column) false false item
    rw [writeItems, itemsWritable]
    split
    · rename_i written
      have hfirst : writableAt false item = true :=
        (first _).symm.trans (congrArg Except.isOk written)
      rw [hfirst, isOk_writeItems column rest]
      rfl
    · rename_i written
      have hfirst : writableAt false item = false :=
        (first _).symm.trans (congrArg Except.isOk written)
      rw [hfirst]
      rfl

theorem isOk_writeEntries (column : Nat) (entries : List (Value × Value)) (p : Page) :
    (writeEntries column entries p).isOk = entriesWritable entries := by
  cases entries with
  | nil => rfl
  | cons entry rest =>
    obtain ⟨key, item⟩ := entry
    have atKey := isOk_write none (some column) true (isShortKey key) key
    have atItem := isOk_write none (some column) true false item
    rw [writeEntries, entriesWritable]
    simp only
    split
    · rename_i written
      have hkey : writableAt false key = false :=
        (atKey _).symm.trans (congrArg Except.isOk written)
      rw [hkey]
      rfl
    · rename_i written
      have hkey : writableAt false key = true :=
        (atKey _).symm.trans (congrArg Except.isOk written)
      rw [hkey]
      split
      · rename_i written
        have hitem : writableAt false item = false :=
          (atItem _).symm.trans (congrArg Except.isOk written)
        rw [hitem]
        rfl
      · rename_i written
        have hitem : writableAt false item = true :=
          (atItem _).symm.trans (congrArg Except.isOk written)
        rw [hitem, isOk_writeEntries column rest]
        rfl

end

theorem isOk_toText (v : Value) : v.toText.isOk = v.isWritable := by
  rw [isWritable, ← Option.isSome_none, ← isOk_write none none false false v Page.blank, toText]
  cases write none none false false v Page.blank <;> rfl

theorem entriesWritable_iff {entries : List (Value × Value)} :
    entriesWritable entries = true ↔
      ∀ e ∈ entries, e.1.isWritable = true ∧ e.2.isWritable = true := by
  induction entries with
  | nil => exact ⟨fun _ => nofun, fun _ => rfl⟩
  | cons entry rest ih =>
    rw [entriesWritable, Bool.and_eq_true, Bool.and_eq_true, ih, List.forall_mem_cons, and_assoc]
    exact Iff.rfl

/-- A mapping with texts as keys can be written if the values can. -/
theorem isWritable_of_texts {entries : List (Value × Value)}
    (keys : ∀ e ∈ entries, ∃ name, e.1 = .string name) :
    (mapping entries).isWritable = true ↔ ∀ e ∈ entries, e.2.isWritable = true := by
  have noLone : (entries.any fun e => isLone e.1) = false := by
    rw [List.any_eq_false]
    intro e he
    obtain ⟨name, hname⟩ := keys e he
    rw [hname]
    exact Bool.false_ne_true
  rw [isWritable, writableAt, noLone, Bool.and_false, Bool.not_false, Bool.or_true, Bool.true_and,
    entriesWritable_iff]
  refine forall_congr' fun e => forall_congr' fun he => and_iff_right ?_
  obtain ⟨name, hname⟩ := keys e he
  rw [hname]
  rfl

end ModelShelf.Yaml.Value
