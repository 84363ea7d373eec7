import ModelShelf.Dictionary
import ModelShelf.Files.Path

/-!
Files and directories by name. A node is put where its parent is a directory, and nowhere else; the
name it gets is the only one that can be new.
-/

namespace ModelShelf

/-- A file with its contents, or a directory with its entries in the order they were made. -/
inductive FileNode where
  | file (contents : ByteArray)
  | directory (entries : List (String × FileNode))

/-- The names that lead from the root to a place. -/
abbrev Location := List String

namespace Location

/-- The absolute path of a place. -/
def path (l : Location) : Path := ⟨"/" ++ Path.ofParts l⟩

/-- The names that lead to a place are names of entries. -/
def HasPlainNames (l : Location) : Prop := ∀ name ∈ l, Path.Plain name

instance (l : Location) : Decidable l.HasPlainNames :=
  inferInstanceAs (Decidable (∀ name ∈ l, Path.Plain name))

end Location

/-- A place to which names of entries lead. -/
abbrev Place := { l : Location // l.HasPlainNames }

namespace FileNode

open ModelShelf.Path (Plain)

def isDirectory : FileNode → Bool
  | .directory _ => true
  | .file _ => false

/-- The entry of a name, if this is a directory. -/
def child? (node : FileNode) (name : String) : Option FileNode :=
  match node with
  | .directory entries => entries.lookup name
  | .file _ => none

/-- What lies at a place below a node. -/
def get? (node : FileNode) : Location → Option FileNode
  | [] => some node
  | name :: rest => node.child? name >>= fun n => n.get? rest

/-- Puts an entry in the place of the one with the same name, or after the others. -/
def putEntry (name : String) (new : FileNode) :
    List (String × FileNode) → List (String × FileNode)
  | [] => [(name, new)]
  | (n, node) :: rest =>
    if n = name then (n, new) :: rest else (n, node) :: putEntry name new rest

/-- Puts a node at a place whose parent is a directory. -/
def put : FileNode → Location → FileNode → FileNode
  | _, [], new => new
  | .file contents, _ :: _, _ => .file contents
  | .directory entries, [name], new => .directory (putEntry name new entries)
  | .directory entries, name :: next :: rest, new =>
    match entries.lookup name with
    | some below => .directory (putEntry name (below.put (next :: rest) new) entries)
    | none => .directory entries

mutual

/-- Whether all names in directories are names of entries, and lead nowhere else. -/
def hasPlainNames : FileNode → Bool
  | .file _ => true
  | .directory entries => entriesHavePlainNames entries

def entriesHavePlainNames : List (String × FileNode) → Bool
  | [] => true
  | (name, node) :: rest =>
    decide (Plain name) && hasPlainNames node && entriesHavePlainNames rest

end

/-! ### What lies where -/

theorem get?_cons (node : FileNode) (name : String) (rest : Location) :
    node.get? (name :: rest) = (node.child? name).bind fun below => below.get? rest := rfl

theorem get?_directory (entries : List (String × FileNode)) (name : String) (rest : Location) :
    (directory entries).get? (name :: rest) =
      (entries.lookup name).bind fun below => below.get? rest := by
  rw [get?_cons, child?]

theorem mem_of_lookup {entries : List (String × FileNode)} {name : String} {node : FileNode}
    (h : entries.lookup name = some node) : name ∈ entries.map Prod.fst := by
  induction entries with
  | nil => cases h
  | cons first rest ih =>
    rw [lookup_cons_eq_ite] at h
    split at h
    · rename_i heq
      rw [heq]
      exact List.mem_cons_self
    · exact List.mem_cons_of_mem _ (ih h)

/-- A directory has an entry on the way to what lies below it. -/
theorem mem_of_get? {node found : FileNode} {l : Location} {name : String} {rest : Location}
    {entries : List (String × FileNode)} (hdir : node.get? l = some (.directory entries))
    (h : node.get? (l ++ name :: rest) = some found) : name ∈ entries.map Prod.fst := by
  induction l generalizing node with
  | nil =>
    obtain rfl := Option.some.inj hdir
    rw [List.nil_append, get?_directory] at h
    obtain ⟨below, hlookup, -⟩ := Option.bind_eq_some_iff.1 h
    exact mem_of_lookup hlookup
  | cons first others ih =>
    rw [get?_cons] at hdir
    rw [List.cons_append, get?_cons] at h
    obtain ⟨below, hchild, hdir⟩ := Option.bind_eq_some_iff.1 hdir
    rw [hchild, Option.bind_some] at h
    exact ih hdir h

theorem any_isDirectory_iff {found : Option FileNode} :
    found.any isDirectory = true ↔ ∃ entries, found = some (.directory entries) := by
  match found with
  | none => simp
  | some (.file contents) => simp [isDirectory]
  | some (.directory entries) => simp [isDirectory]

/-- Nothing lies below a file or below nothing. -/
theorem get?_below {node : FileNode} {l : Location} (notDirectory : ∀ entries,
    node.get? l ≠ some (.directory entries)) (name : String) (rest : Location) :
    node.get? (l ++ name :: rest) = none := by
  induction l generalizing node with
  | nil =>
    cases node with
    | file => rfl
    | directory entries => exact absurd rfl (notDirectory entries)
  | cons first others ih =>
    rw [List.cons_append, get?_cons]
    cases hchild : node.child? first with
    | none => rfl
    | some below =>
      refine ih fun entries hbelow => notDirectory entries ?_
      rw [get?_cons, hchild]
      exact hbelow

theorem directory_of_get?_append {node found : FileNode} {l : Location} {name : String}
    {rest : Location} (h : node.get? (l ++ name :: rest) = some found) :
    ∃ entries, node.get? l = some (.directory entries) := by
  apply Classical.byContradiction
  intro noEntries
  have missing := get?_below (fun entries hdir => noEntries ⟨entries, hdir⟩) name rest
  rw [missing] at h
  cases h

/-! ### Nodes that are put -/

theorem put_nil (node new : FileNode) : node.put [] new = new := by
  cases node <;> rfl

theorem put_cons {name : String} {below : FileNode} {entries : List (String × FileNode)}
    (h : entries.lookup name = some below) (rest : Location) (new : FileNode) :
    (directory entries).put (name :: rest) new =
      .directory (putEntry name (below.put rest new) entries) := by
  cases rest with
  | nil =>
    rw [put_nil]
    rfl
  | cons next rest => rw [put, h]

theorem put_file (contents : ByteArray) {l : Location} (hne : l ≠ []) (new : FileNode) :
    (FileNode.file contents).put l new = .file contents := by
  cases l with
  | nil => contradiction
  | cons => rfl

/-- What is put below a directory goes to the entry of its first name, or nowhere if this name leads
to nothing and is not the last one. -/
theorem put_directory (entries : List (String × FileNode)) (name : String) (rest : Location)
    (new : FileNode) :
    (directory entries).put (name :: rest) new = .directory entries ∨
    ∃ node', (directory entries).put (name :: rest) new = .directory (putEntry name node' entries) ∧
      ((rest = [] ∧ entries.lookup name = none ∧ node' = new) ∨
        ∃ below, entries.lookup name = some below ∧ node' = below.put rest new) := by
  cases hlookup : entries.lookup name with
  | none =>
    cases rest with
    | nil => exact .inr ⟨new, rfl, .inl ⟨rfl, rfl, rfl⟩⟩
    | cons next rest =>
      rw [put, hlookup]
      exact .inl rfl
  | some below => exact .inr ⟨_, put_cons hlookup rest new, .inr ⟨below, rfl, rfl⟩⟩

/-! ### Names in directories -/

theorem plain_of_mem {entries : List (String × FileNode)} (h : entriesHavePlainNames entries = true)
    {name : String} (hname : name ∈ entries.map Prod.fst) : Plain name := by
  induction entries with
  | nil => cases hname
  | cons first rest ih =>
    obtain ⟨hfirst, hrest⟩ := Bool.and_eq_true_iff.1 h
    rcases List.mem_cons.1 hname with rfl | hname
    · exact of_decide_eq_true (Bool.and_eq_true_iff.1 hfirst).1
    · exact ih hrest hname

theorem hasPlainNames_of_lookup {entries : List (String × FileNode)} {name : String}
    {node : FileNode} (h : entriesHavePlainNames entries = true)
    (hlookup : entries.lookup name = some node) : node.hasPlainNames = true := by
  induction entries with
  | nil => cases hlookup
  | cons first rest ih =>
    obtain ⟨hfirst, hrest⟩ := Bool.and_eq_true_iff.1 h
    rw [lookup_cons_eq_ite] at hlookup
    split at hlookup
    · obtain rfl := Option.some.inj hlookup
      exact (Bool.and_eq_true_iff.1 hfirst).2
    · exact ih hrest hlookup

theorem hasPlainNames_of_get? {node found : FileNode} {l : Location}
    (h : node.hasPlainNames = true) (hget : node.get? l = some found) :
    found.hasPlainNames = true := by
  induction l generalizing node with
  | nil =>
    obtain rfl := Option.some.inj hget
    exact h
  | cons name rest ih =>
    rw [get?_cons] at hget
    obtain ⟨below, hchild, hbelow⟩ := Option.bind_eq_some_iff.1 hget
    cases node with
    | file => cases hchild
    | directory entries => exact ih (hasPlainNames_of_lookup h hchild) hbelow

/-- Where something lies, names of entries lead. -/
theorem plainNames_of_get? {node found : FileNode} {l : Location} (h : node.hasPlainNames = true)
    (hget : node.get? l = some found) : l.HasPlainNames := by
  induction l generalizing node with
  | nil => exact List.forall_mem_nil _
  | cons name rest ih =>
    rw [get?_cons] at hget
    obtain ⟨below, hchild, hbelow⟩ := Option.bind_eq_some_iff.1 hget
    cases node with
    | file => cases hchild
    | directory entries =>
      exact List.forall_mem_cons.2
        ⟨plain_of_mem h (mem_of_lookup hchild), ih (hasPlainNames_of_lookup h hchild) hbelow⟩

theorem entriesHavePlainNames_putEntry {name : String} {new : FileNode}
    {entries : List (String × FileNode)} (plain : Plain name) (hnew : new.hasPlainNames = true)
    (h : entriesHavePlainNames entries = true) :
    entriesHavePlainNames (putEntry name new entries) = true := by
  induction entries with
  | nil => simp [putEntry, entriesHavePlainNames, plain, hnew]
  | cons first rest ih =>
    obtain ⟨n, node⟩ := first
    rw [entriesHavePlainNames, Bool.and_eq_true, Bool.and_eq_true] at h
    obtain ⟨⟨hname, hnode⟩, hrest⟩ := h
    rw [putEntry]
    split
    · simp [entriesHavePlainNames, of_decide_eq_true hname, hnew, hrest]
    · simp [entriesHavePlainNames, of_decide_eq_true hname, hnode, ih hrest]

/-- Only the last name on the way to a place can be a new one. -/
theorem hasPlainNames_put {node new : FileNode} {l : Location} (h : node.hasPlainNames = true)
    (hnew : new.hasPlainNames = true) (hlast : ∀ name, l.getLast? = some name → Plain name) :
    (node.put l new).hasPlainNames = true := by
  induction l generalizing node with
  | nil =>
    rw [put_nil]
    exact hnew
  | cons name rest ih =>
    cases node with
    | file contents =>
      rw [put_file contents (List.cons_ne_nil name rest)]
      exact h
    | directory entries =>
      obtain hput | ⟨node', hput, ⟨rfl, -, rfl⟩ | ⟨below, hlookup, rfl⟩⟩ :=
        put_directory entries name rest new
      · rw [hput]
        exact h
      · rw [hput]
        exact entriesHavePlainNames_putEntry (hlast name rfl) hnew h
      · rw [hput]
        refine entriesHavePlainNames_putEntry (plain_of_mem h (mem_of_lookup hlookup)) ?_ h
        refine ih (hasPlainNames_of_lookup h hlookup) fun last hrest => hlast last ?_
        rw [List.getLast?_cons, hrest]
        rfl

end FileNode

end ModelShelf
