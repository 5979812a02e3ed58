import BlakTail.Foundation.Text

/-!
# File Systems with Symbolic Links

A file system is a tree of directories, files and symbolic links.  A link holds a path as
text, and may lead anywhere.  Paths are resolved from the root, component by component; a
link is replaced by the path it holds, at most `LINKS_MAX` times.

A path that resolves leads to an *object*: the path to it that goes through directories
only (`Grounded`).  A call that works on an entry of a directory (`locate`) does not follow a
link in the last component; opening a file for writing does (`opened`), also a link to a
file that is not there yet.
-/

namespace BlakTail.Foundation

/-- The names on the way from the root. -/
abbrev FilePath := List String

/-- A file, with its last modification; a directory; or a symbolic link. -/
inductive FileTree where
  | file (contents : List UInt8) (modified : Nat)
  | dir (modified : Nat) (entries : List (String × FileTree))
  | link (target : String)

/-- What an entry is, without what is below it. -/
inductive Kind where
  | file
  | dir
  | link (target : String)
  deriving DecidableEq

/-- What a `stat` tells. -/
structure Metadata where
  isDir : Bool
  isFile : Bool
  len : Nat
  modified : Nat
  deriving DecidableEq

/-- As many links are followed for one path. -/
def LINKS_MAX : Nat := 40

/-- The components of a path as text; empty ones and dots are kept. -/
def parts (path : String) : List String :=
  (Text.splitChars '/' path.toList).map String.ofList

/-- A name no path can have: paths end at the zero character. -/
def hasNul (name : String) : Bool := name.toList.contains (Char.ofNat 0)

/-- A component that names an entry. -/
def ordinary (name : String) : Bool :=
  name ≠ "" && name ≠ "." && name ≠ ".." && !hasNul name

namespace FileTree

/-! ## Reading and changing a tree -/

def kind : FileTree → Kind
  | file _ _ => .file
  | dir _ _ => .dir
  | link target => .link target

def metadata : FileTree → Metadata
  | file contents modified => ⟨false, true, contents.length, modified⟩
  | dir modified _ => ⟨true, false, 0, modified⟩
  | link _ => ⟨false, false, 0, 0⟩

def bytes : FileTree → Option (List UInt8)
  | file contents _ => some contents
  | _ => none

def names : FileTree → Option (List String)
  | dir _ entries => some (entries.map Prod.fst)
  | _ => none

/-- Put an entry under a name, or take it away. -/
def setEntry (name : String) (child : Option FileTree) (entries : List (String × FileTree)) :
    List (String × FileTree) :=
  (child.map (name, ·)).toList ++ entries.filter fun entry => entry.1 ≠ name

/-- What is at a path, no link followed. -/
def look : FilePath → Option FileTree → Option FileTree
  | [], t => t
  | name :: path, some (dir _ entries) => look path (entries.lookup name)
  | _ :: _, _ => none

/-- Change what is at a path, if its directories are there. -/
def change (f : Option FileTree → Option FileTree) : FilePath → Option FileTree → Option FileTree
  | [], t => f t
  | name :: path, some (dir modified entries) =>
    some (dir modified (setEntry name (change f path (entries.lookup name)) entries))
  | _ :: _, t => t

variable (t : FileTree) {path : FilePath} {name : String} {here : FilePath} {t' : FileTree}
  {creates : Bool} {rest : List String} {follow : FilePath → List String → Option FilePath}
  {object : FilePath}

def get (path : FilePath) : Option FileTree := look path (some t)

def kindAt (path : FilePath) : Option Kind := (t.get path).map kind

def put (path : FilePath) (new : FileTree) : FileTree :=
  (change (fun _ => some new) path (some t)).getD t

def erase (path : FilePath) : FileTree := (change (fun _ => none) path (some t)).getD t

/-! ## Resolving paths -/

/-- Where a link is resolved from: the root, or the directory it lies in. -/
def base (target : String) (here : FilePath) : FilePath :=
  if target.toList.head? = some '/' then [] else here

/-- What one component of a path comes to. -/
inductive Next where
  /-- Go on from this directory. -/
  | walk (here : FilePath)
  /-- A link: go on from there, with this path. -/
  | follow (here : FilePath) (path : List String)
  | stop (object : Option FilePath)
  deriving DecidableEq

/-- The component `name` in the directory `here`, with `rest` after it.  With `creates`, the
last component need not be there. -/
def next (creates : Bool) (here : FilePath) (name : String) (rest : List String) : Next :=
  if name = "" ∨ name = "." then .walk here
  else if name = ".." then .walk here.dropLast
  else if hasNul name then .stop none
  else
    match t.kindAt (here ++ [name]) with
    | some .dir => .walk (here ++ [name])
    | some .file => .stop (if rest = [] then some (here ++ [name]) else none)
    | some (.link target) => .follow (base target here) (parts target ++ rest)
    | none => .stop (if creates ∧ rest = [] then some (here ++ [name]) else none)

/-- Go on from the directory `here`; `follow` resolves the path a link is replaced by. -/
def walkWith (t : FileTree) (creates : Bool) (follow : FilePath → List String → Option FilePath) :
    FilePath → List String → Option FilePath
  | here, [] => some here
  | here, name :: rest =>
    match t.next creates here name rest with
    | .walk here' => walkWith t creates follow here' rest
    | .follow here' path => follow here' path
    | .stop object => object

/-- Resolve a path from the directory `here`, with a number of links to follow. -/
def walk (t : FileTree) (creates : Bool) : Nat → FilePath → List String → Option FilePath
  | 0 => t.walkWith creates fun _ _ => none
  | links + 1 => t.walkWith creates (walk t creates links)

def resolve (path : List String) : Option FilePath := t.walk false LINKS_MAX [] path

/-- The entry a path names: its directory resolved, the last component as it stands.  Each walk has
`LINKS_MAX` links to itself; Linux counts those of one lookup together. -/
def locate (path : List String) : Option FilePath :=
  match path.getLast?, t.resolve path.dropLast with
  | some name, some here =>
    if ordinary name ∧ t.kindAt here = some .dir then some (here ++ [name]) else none
  | _, _ => none

/-- The object that opening a path for writing leads to, there or not; the link at its end is
followed with `LINKS_MAX` links of its own. -/
def opened (path : List String) : Option FilePath :=
  (t.locate path).bind fun entry =>
    match t.kindAt entry with
    | some (.link target) =>
      t.walk true LINKS_MAX (base target entry.dropLast) (parts target)
    | _ => some entry

/-! ## Entries after a change -/

theorem lookup_setEntry (name other : String) (child : Option FileTree)
    (entries : List (String × FileTree)) :
    (setEntry name child entries).lookup other =
      if other = name then child else entries.lookup other := by
  have hfilter : ∀ entries : List (String × FileTree),
      (entries.filter fun entry => entry.1 ≠ name).lookup other =
        if other = name then none else entries.lookup other := by
    intro entries
    induction entries with
    | nil => simp
    | cons entry entries ih =>
      obtain ⟨key, tree⟩ := entry
      by_cases hkey : key = name
      · rw [List.filter_cons_of_neg (by simpa using hkey), ih]
        split_ifs with hother
        · rfl
        · rw [List.lookup_cons, beq_eq_false_iff_ne.mpr (hkey ▸ hother)]
      · rw [List.filter_cons_of_pos (by simpa using hkey), List.lookup_cons, ih]
        split_ifs with hother
        · rw [beq_eq_false_iff_ne.mpr (hother ▸ Ne.symm hkey)]
        · rfl
  unfold setEntry
  cases child with
  | none =>
    rw [Option.map_none, Option.toList_none, List.nil_append, hfilter]
  | some child =>
    rw [Option.map_some, Option.toList_some, List.singleton_append, List.lookup_cons, hfilter]
    split_ifs with hother
    · rw [beq_iff_eq.mpr hother]
    · rw [beq_eq_false_iff_ne.mpr hother]

theorem look_append (path rest : FilePath) (t : Option FileTree) :
    look (path ++ rest) t = look rest (look path t) := by
  induction path generalizing t with
  | nil => rfl
  | cons name path ih =>
    have hnone : look rest none = none := by
      cases rest with
      | nil | cons name rest => rfl
    cases t with
    | none => exact hnone.symm
    | some t =>
      cases t with
      | dir modified entries => exact ih _
      | file contents modified | link target => exact hnone.symm

variable (f : Option FileTree → Option FileTree) {t : FileTree}

/-- A change takes place where the directories on the way are there. -/
theorem look_change (path : FilePath) (t : Option FileTree) :
    look path (change f path t) = f (look path t) ∨
      look path t = none ∧ look path (change f path t) = none := by
  induction path generalizing t with
  | nil => exact .inl rfl
  | cons name path ih =>
    cases t with
    | none => exact .inr ⟨rfl, rfl⟩
    | some t =>
      cases t with
      | dir modified entries =>
        have hentry : look (name :: path) (change f (name :: path) (some (dir modified entries))) =
            look path (change f path (entries.lookup name)) := by
          show look path ((setEntry name _ entries).lookup name) = _
          rw [lookup_setEntry, if_pos rfl]
        rw [hentry]
        exact ih _
      | file contents modified | link target => exact .inr ⟨rfl, rfl⟩

/-- What is not below the path of a change stays what it is. -/
theorem kind_look_change {other : FilePath} (hother : ¬ path <+: other) (t : Option FileTree) :
    (look other (change f path t)).map kind = (look other t).map kind := by
  induction path generalizing other t with
  | nil => exact absurd (List.nil_prefix) hother
  | cons name path ih =>
    cases t with
    | none => rfl
    | some t =>
      cases t with
      | file contents modified | link target => rfl
      | dir modified entries =>
        cases other with
        | nil => rfl
        | cons name' other =>
          show (look other ((setEntry name _ entries).lookup name')).map kind =
            (look other (entries.lookup name')).map kind
          rw [lookup_setEntry]
          split_ifs with hname
          · subst hname
            exact ih (fun hbelow => hother (List.prefix_cons_inj name' |>.mpr hbelow)) _
          · rfl

/-! ## Trees with the same entries and more -/

/-- Every entry of `t` is in `t'`, of the same kind. -/
def Extends (t t' : FileTree) : Prop :=
  ∀ path kind, t.kindAt path = some kind → t'.kindAt path = some kind

theorem change_root {f : Option FileTree → Option FileTree} (hpath : path ≠ []) (t : FileTree) :
    some ((change f path (some t)).getD t) = change f path (some t) := by
  cases path with
  | nil => exact absurd rfl hpath
  | cons name path => cases t <;> rfl

section

variable (hpath : path ≠ [])
include hpath

/-- Taking an entry away leaves fewer. -/
theorem erase_extends : Extends (t.erase path) t := by
  intro other kind hkind
  unfold kindAt erase get at hkind
  rw [change_root hpath] at hkind
  by_cases hbelow : path <+: other
  · -- Nothing is left at the path or below it.
    obtain ⟨rest, rfl⟩ := hbelow
    have hgone : look path (change (fun _ => none) path (some t)) = none :=
      (look_change (fun _ => none) path (some t)).elim id And.right
    rw [look_append, hgone] at hkind
    cases rest with
    | nil | cons name rest => cases hkind
  · rw [kind_look_change _ hbelow] at hkind
    exact hkind

/-- Writing a file where there is a file or nothing keeps every entry. -/
theorem put_file_extends (contents : List UInt8) (modified : Nat)
    (hfree : t.kindAt path = none ∨ t.kindAt path = some .file) :
    Extends t (t.put path (file contents modified)) := by
  intro other kind hkind
  unfold kindAt put get
  rw [change_root hpath]
  by_cases hbelow : path <+: other
  · obtain ⟨rest, rfl⟩ := hbelow
    have hsplit : (look rest (t.get path)).map FileTree.kind = some kind := by
      rw [← hkind]
      unfold kindAt get
      rw [look_append]
    -- Only the file itself was there.
    unfold kindAt at hfree
    cases hold : t.get path with
    | none =>
      rw [hold] at hsplit
      cases rest with
      | nil | cons name rest => cases hsplit
    | some old =>
      rw [hold] at hsplit hfree
      cases old with
      | dir modified entries | link target => simp [FileTree.kind] at hfree
      | file before written =>
        cases rest with
        | cons name rest => cases hsplit
        | nil =>
          rw [List.append_nil]
          rcases look_change (fun _ => some (file contents modified)) path
            (some t) with hnew | hnone
          · rw [hnew]
            exact hsplit
          · have habsent : t.get path = none := hnone.1
            rw [hold] at habsent
            cases habsent
  · rw [kind_look_change _ hbelow]
    exact hkind

end

theorem ordinary_iff :
    ordinary name ↔ ¬ (name = "" ∨ name = ".") ∧ ¬ name = ".." ∧ ¬ hasNul name := by
  simp only [ordinary, Bool.and_eq_true, decide_eq_true_eq, Bool.not_eq_true', not_or, ne_eq,
    Bool.not_eq_true, and_assoc]

/-- A component that names an entry comes to what the entry is. -/
theorem next_ordinary (hname : ordinary name) (creates : Bool) (rest : List String) :
    t.next creates here name rest =
      match t.kindAt (here ++ [name]) with
      | some .dir => .walk (here ++ [name])
      | some .file => .stop (if rest = [] then some (here ++ [name]) else none)
      | some (.link target) => .follow (base target here) (parts target ++ rest)
      | none => .stop (if creates ∧ rest = [] then some (here ++ [name]) else none) := by
  obtain ⟨hstay, hup, hnul⟩ := ordinary_iff.mp hname
  rw [next, if_neg hstay, if_neg hup, if_neg hnul]

/-- Any other component stays, goes up, or is no name at all. -/
theorem next_special (hname : ordinary name ≠ true) (creates : Bool) (rest : List String) :
    t.next creates here name rest = .walk here ∨
      name = ".." ∧ t.next creates here name rest = .walk here.dropLast ∨
        t.next creates here name rest = .stop none := by
  unfold next
  split
  · exact .inl rfl
  · split
    · next hup => exact .inr (.inl ⟨hup, rfl⟩)
    · split
      · exact .inr (.inr rfl)
      · next hstay hup hnul => exact absurd (ordinary_iff.mpr ⟨hstay, hup, hnul⟩) hname

/-- Components that name no entry do not look at the tree. -/
theorem next_congr (hname : ordinary name ≠ true) :
    t'.next creates here name rest = t.next creates here name rest := by
  unfold next
  split
  · rfl
  · split
    · rfl
    · split
      · rfl
      · next hstay hup hnul => exact absurd (ordinary_iff.mpr ⟨hstay, hup, hnul⟩) hname

/-- A component that is there comes to the same in a tree with more entries. -/
theorem next_mono (hext : Extends t t') (hthere : t.next false here name rest ≠ .stop none) :
    t'.next false here name rest = t.next false here name rest := by
  by_cases hname : ordinary name
  · rw [next_ordinary hname] at hthere
    rw [next_ordinary hname, next_ordinary hname]
    cases hkind : t.kindAt (here ++ [name]) with
    | none => simp [hkind] at hthere
    | some kind => rw [hext _ _ hkind]
  · exact next_congr hname

theorem walkWith_mono (hext : Extends t t') {follow' : FilePath → List String → Option FilePath}
    (hfollow : ∀ here path object, follow here path = some object → follow' here path = some object)
    {path : List String} (h : t.walkWith false follow here path = some object) :
    t'.walkWith false follow' here path = some object := by
  induction path generalizing here with
  | nil => exact h
  | cons name rest ih =>
    unfold walkWith at h ⊢
    cases hnext : t.next false here name rest with
    | walk here' =>
      rw [next_mono hext (by simp [hnext]), hnext]
      rw [hnext] at h
      exact ih h
    | follow here' path =>
      rw [next_mono hext (by simp [hnext]), hnext]
      rw [hnext] at h
      exact hfollow _ _ _ h
    | stop stopped =>
      rw [hnext] at h
      subst h
      rw [next_mono hext (by simp [hnext]), hnext]

/-- What resolves in a tree resolves alike in one with more entries. -/
theorem walk_mono {links : Nat} (hext : Extends t t') {path : List String}
    (h : t.walk false links here path = some object) :
    t'.walk false links here path = some object := by
  induction links generalizing here object path with
  | zero => exact walkWith_mono hext (fun _ _ _ hnone => by cases hnone) h
  | succ links ih => exact walkWith_mono hext (fun _ _ _ hfollowed => ih hfollowed) h

/-! ## Objects -/

/-- A way from the root through directories. -/
def Folder (t : FileTree) (path : FilePath) : Prop :=
  ∀ front name, front ++ [name] <+: path → ordinary name ∧ t.kindAt (front ++ [name]) = some .dir

/-- A way from the root through directories to a directory or a file. -/
def Grounded (t : FileTree) (path : FilePath) : Prop :=
  t.Folder path ∨ ∃ front name, path = front ++ [name] ∧ t.Folder front ∧ ordinary name ∧
    t.kindAt path = some .file

theorem folder_nil (t : FileTree) : t.Folder [] := fun front name hroot =>
  absurd (List.prefix_nil.mp hroot) (by simp)

theorem Folder.concat (h : t.Folder path) (hname : ordinary name)
    (hkind : t.kindAt (path ++ [name]) = some .dir) : t.Folder (path ++ [name]) := by
  intro front last hfront
  rcases List.prefix_concat_iff.mp hfront with heq | hbefore
  · obtain ⟨rfl, hlast⟩ := List.append_inj' heq rfl
    cases hlast
    exact ⟨hname, hkind⟩
  · exact h front last hbefore

theorem Folder.base (h : t.Folder here) (target : String) : t.Folder (base target here) := by
  unfold FileTree.base
  split
  · exact t.folder_nil
  · exact h

/-- Where a walk ends: at an object, or where there is nothing yet. -/
def Ends (t : FileTree) (creates : Bool) (object : FilePath) : Prop :=
  t.Grounded object ∨ creates ∧ t.kindAt object = none

/-- What a component comes to, from a directory. -/
theorem next_cases (hhere : t.Folder here) (creates : Bool) (name : String) (rest : List String) :
    match t.next creates here name rest with
    | .walk here' => t.Folder here'
    | .follow here' _ => t.Folder here'
    | .stop object => ∀ o ∈ object, t.Ends creates o := by
  by_cases hname : ordinary name
  · rw [next_ordinary hname]
    cases hkind : t.kindAt (here ++ [name]) with
    | none =>
      intro object hobject
      obtain ⟨⟨hcreates, -⟩, hobject⟩ := Option.ite_none_right_eq_some.mp hobject
      cases hobject
      exact .inr ⟨hcreates, hkind⟩
    | some kind =>
      cases kind with
      | dir => exact hhere.concat hname hkind
      | link target => exact hhere.base target
      | file =>
        intro object hobject
        obtain ⟨-, hobject⟩ := Option.ite_none_right_eq_some.mp hobject
        cases hobject
        exact .inl (.inr ⟨here, name, rfl, hhere, hname, hkind⟩)
  · rcases next_special hname creates rest with hnext | ⟨-, hnext⟩ | hnext
    · rw [hnext]
      exact hhere
    · rw [hnext]
      exact fun before name hbefore => hhere before name (hbefore.trans (List.dropLast_prefix here))
    · rw [hnext]
      exact nofun

theorem walkWith_ends
    (hfollow : ∀ here path object, t.Folder here → follow here path = some object →
      t.Ends creates object)
    {path : List String} (hhere : t.Folder here)
    (h : t.walkWith creates follow here path = some object) : t.Ends creates object := by
  induction path generalizing here with
  | nil =>
    cases h
    exact .inl (.inl hhere)
  | cons name rest ih =>
    have hcases := next_cases hhere creates name rest
    unfold walkWith at h
    cases hnext : t.next creates here name rest with
    | walk here' =>
      rw [hnext] at h hcases
      exact ih hcases h
    | follow here' path =>
      rw [hnext] at h hcases
      exact hfollow _ _ _ hcases h
    | stop stopped =>
      rw [hnext] at h hcases
      exact hcases object h

theorem walk_ends {links : Nat} {path : List String} (hhere : t.Folder here)
    (h : t.walk creates links here path = some object) : t.Ends creates object := by
  induction links generalizing here object path with
  | zero => exact walkWith_ends (fun _ _ _ _ hnone => by cases hnone) hhere h
  | succ links ih => exact walkWith_ends (fun _ _ _ hfolder hwalk => ih hfolder hwalk) hhere h

/-- A path that resolves leads to an object. -/
theorem resolve_object {path : List String} (h : t.resolve path = some object) :
    t.Grounded object :=
  (walk_ends t.folder_nil h).resolve_right fun hnone => Bool.false_ne_true hnone.1

theorem walk_nil (t : FileTree) (creates : Bool) (links : Nat) (here : FilePath) :
    t.walk creates links here [] = some here := by
  cases links <;> rfl

/-- One component that is no link. -/
theorem walk_cons (links : Nat) {here' : FilePath}
    (hnext : t.next creates here name rest = .walk here') :
    t.walk creates links here (name :: rest) = t.walk creates links here' rest := by
  cases links with
  | zero | succ links =>
    show t.walkWith _ _ _ _ = _
    rw [walkWith, hnext]
    rfl

/-- A walk goes through directories to where they lead. -/
theorem walk_folder (creates : Bool) (links : Nat) (hfolder : t.Folder (here ++ path))
    (rest : List String) :
    t.walk creates links here (path ++ rest) = t.walk creates links (here ++ path) rest := by
  induction path generalizing here with
  | nil => rw [List.nil_append, List.append_nil]
  | cons name path ih =>
    have hsplit : here ++ name :: path = here ++ [name] ++ path := by simp
    rw [hsplit] at hfolder ⊢
    obtain ⟨hname, hkind⟩ := hfolder here name (List.prefix_append _ path)
    have hnext : t.next creates here name (path ++ rest) = .walk (here ++ [name]) := by
      rw [next_ordinary hname, hkind]
    rw [List.cons_append, walk_cons links hnext, ih hfolder]

theorem resolve_folder (hfolder : t.Folder path) (rest : List String) :
    t.resolve (path ++ rest) = t.walk false LINKS_MAX path rest := by
  have hroot : t.Folder ([] ++ path) := hfolder
  exact walk_folder false LINKS_MAX hroot rest

/-- An object resolves to itself. -/
theorem resolve_grounded (h : t.Grounded object) : t.resolve object = some object := by
  rcases h with hfolder | ⟨front, name, rfl, hfolder, hname, hkind⟩
  · have hresolve := resolve_folder hfolder []
    rwa [List.append_nil, walk_nil] at hresolve
  · have hnext : t.next false front name [] = .stop (some (front ++ [name])) := by
      rw [next_ordinary hname, hkind]
      rfl
    rw [resolve_folder hfolder]
    show t.walkWith _ _ _ _ = _
    rw [walkWith, hnext]

/-- An entry of a directory that is no link does not lead out of it. -/
theorem resolve_entry (hhere : t.Folder here) (hup : name ≠ "..")
    (hlink : ∀ target, t.kindAt (here ++ [name]) ≠ some (.link target))
    (h : t.resolve (here ++ [name]) = some object) : here <+: object := by
  rw [resolve_folder hhere] at h
  have hwalk : t.walkWith false _ here [name] = some object := h
  rw [walkWith] at hwalk
  by_cases hname : ordinary name
  · rw [next_ordinary hname] at hwalk
    cases hkind : t.kindAt (here ++ [name]) with
    | none => simp [hkind] at hwalk
    | some kind =>
      rw [hkind] at hwalk
      cases kind with
      | dir | file =>
        cases hwalk
        exact List.prefix_append here [name]
      | link target => exact absurd hkind (hlink target)
  · rcases next_special hname false [] with hnext | ⟨hdots, -⟩ | hnext
    · rw [hnext] at hwalk
      cases hwalk
      exact List.prefix_refl here
    · exact absurd hdots hup
    · rw [hnext] at hwalk
      cases hwalk

/-! ## Entries -/

/-- A located entry lies in the resolved directory. -/
theorem locate_eq_some {path : List String} {entry : FilePath} (h : t.locate path = some entry) :
    ∃ here name, t.resolve path.dropLast = some here ∧
      path.getLast? = some name ∧ entry = here ++ [name] := by
  unfold locate at h
  split at h
  · next name here hname hhere =>
    split_ifs at h
    cases h
    exact ⟨here, name, hhere, hname, rfl⟩
  · cases h

/-- Entries lie in directories. -/
theorem locate_folder {path : List String} {name : String}
    (h : t.locate path = some (here ++ [name])) : t.Folder here := by
  unfold locate at h
  split at h
  · next last here' hlast hhere =>
    split_ifs at h with hentry
    obtain ⟨rfl, -⟩ := List.append_inj' (Option.some.inj h) rfl
    rcases resolve_object hhere with hfolder | ⟨front, file, -, -, -, hfile⟩
    · exact hfolder
    · rw [hentry.2] at hfile
      cases hfile
  · cases h

theorem locate_ne_nil {path : List String} {entry : FilePath} (h : t.locate path = some entry) :
    entry ≠ [] := by
  obtain ⟨here, name, -, -, rfl⟩ := locate_eq_some h
  simp

/-! ## Where opening a file for writing leads -/

/-- A tree with an entry is a directory. -/
theorem kindAt_root {kind : Kind} (h : t.kindAt path = some kind) (hpath : path ≠ []) :
    t.kindAt [] = some .dir := by
  cases path with
  | nil => exact absurd rfl hpath
  | cons name path =>
    cases t with
    | dir modified entries => rfl
    | file contents modified | link target => cases h

theorem Folder.kindAt (h : t.Folder path) (hpath : path ≠ []) : t.kindAt path = some .dir := by
  have hlast := (h path.dropLast (path.getLast hpath)
    (by rw [List.dropLast_append_getLast hpath])).2
  rwa [List.dropLast_append_getLast hpath] at hlast

/-- What is opened for writing and is no directory is a file or not there yet. -/
theorem opened_free {path : List String} (h : t.opened path = some object)
    (hdir : t.kindAt object ≠ some .dir) :
    object ≠ [] ∧ (t.kindAt object = none ∨ t.kindAt object = some .file) := by
  obtain ⟨entry, hentry, h⟩ := Option.bind_eq_some_iff.mp h
  obtain ⟨here, name, hhere, -, rfl⟩ := locate_eq_some hentry
  cases hkind : t.kindAt (here ++ [name]) with
  | none =>
    rw [hkind] at h
    cases h
    exact ⟨by simp, .inl hkind⟩
  | some kind =>
    have hroot : t.kindAt [] = some .dir := kindAt_root hkind (by simp)
    have hobject : object ≠ [] := fun hnil => hdir (hnil ▸ hroot)
    rw [hkind] at h
    cases kind with
    | file =>
      cases h
      exact ⟨hobject, .inr hkind⟩
    | dir =>
      cases h
      exact absurd hkind hdir
    | link target =>
      rw [List.dropLast_concat] at h
      -- A link that lies in a directory is resolved from a directory.
      have hfolder : t.Folder here := locate_folder hentry
      rcases walk_ends (hfolder.base target) h with (hend | ⟨_, _, -, -, -, hfile⟩) | ⟨-, hnone⟩
      · exact absurd (hend.kindAt hobject) hdir
      · exact ⟨hobject, .inr hfile⟩
      · exact ⟨hobject, .inl hnone⟩

end FileTree

end BlakTail.Foundation
