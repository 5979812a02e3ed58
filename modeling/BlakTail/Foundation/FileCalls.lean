import BlakTail.Foundation.Calls
import BlakTail.Foundation.Files

/-!
# File Calls

The calls programs make on a file system.  Each reads and changes objects:
-/

namespace BlakTail.Foundation

/-- The file calls.  Paths are lists of components from the root. -/
inductive FileCall where
  | canonicalize (path : List String)
  | found (path : List String)
  | metadata (path : List String)
  | isDir (path : List String)
  | read (path : List String)
  | readDir (path : List String)
  | createDir (path : List String)
  /-- Open for writing, creating or truncating, and write. -/
  | create (path : List String) (contents : List UInt8)
  | removeFile (path : List String)
  | removeDir (path : List String)
  | rename (source target : List String)

namespace FileCall

/-- What a call answers; commands say whether they succeeded. -/
def Answer : FileCall → Type
  | canonicalize _ => Option FilePath
  | found _ => Bool
  | metadata _ => Option Metadata
  | isDir _ => Bool
  | read _ => Option (List UInt8)
  | readDir _ => Option (List String)
  | _ => Bool

/-- Whether an entry may take the place of another. -/
def replaces (new : FileTree) : Option FileTree → Bool
  | none => true
  | some old =>
    match new, old with
    | .dir _ _, .dir _ [] => true
    | .dir _ _, _ => false
    | _, .dir _ _ => false
    | _, _ => true

/-- A command that succeeds: the objects it changes, and the tree it leaves. -/
def effect (now : Nat) (t : FileTree) : FileCall → Option (List FilePath × FileTree)
  | createDir path =>
    (t.locate path).bind fun entry =>
      if t.kindAt entry = none then some ([entry], t.put entry (.dir now [])) else none
  | create path contents =>
    (t.opened path).bind fun object =>
      if t.kindAt object = some .dir then none
      else some ([object], t.put object (.file contents now))
  | removeFile path =>
    (t.locate path).bind fun entry =>
      match t.kindAt entry with
      | some .file | some (.link _) => some ([entry], t.erase entry)
      | _ => none
  | removeDir path =>
    (t.locate path).bind fun entry =>
      match t.get entry with
      | some (.dir _ []) => some ([entry], t.erase entry)
      | _ => none
  | rename source target =>
    (t.locate source).bind fun entry => (t.locate target).bind fun entry' =>
      (t.get entry).bind fun new =>
        if entry = entry' then some ([entry], t)
        else if entry.isPrefixOf entry' then none
        else if replaces new (t.get entry') then
          some ([entry, entry'], (t.erase entry).put entry' new)
        else none
  | _ => none

/-- Whether a command succeeds, and the tree then. -/
def command (now : Nat) (t : FileTree) (c : FileCall) : Bool × FileTree :=
  match c.effect now t with
  | some (_, t') => (true, t')
  | none => (false, t)

/-- How the file system answers. -/
def answer (now : Nat) (t : FileTree) : (c : FileCall) → c.Answer × FileTree
  | canonicalize path => (t.resolve path, t)
  | found path => ((t.resolve path).isSome, t)
  | metadata path => (((t.resolve path).bind t.get).map FileTree.metadata, t)
  | isDir path => (decide ((t.resolve path).bind t.kindAt = some .dir), t)
  | read path => (((t.resolve path).bind t.get).bind FileTree.bytes, t)
  | readDir path => (((t.resolve path).bind t.get).bind FileTree.names, t)
  | createDir path => (createDir path).command now t
  | create path contents => (create path contents).command now t
  | removeFile path => (removeFile path).command now t
  | removeDir path => (removeDir path).command now t
  | rename source target => (rename source target).command now t

/-- The objects whose contents or metadata the answer depends on.  Whether a command succeeds
depends on what is there; where a path leads, and so whether it leads anywhere, is not counted. -/
def reads (t : FileTree) : FileCall → List FilePath
  | canonicalize _ | found _ => []
  | metadata path | isDir path | read path | readDir path => (t.resolve path).toList
  | createDir path | removeFile path | removeDir path => (t.locate path).toList
  | create path _ => (t.opened path).toList
  | rename source target => (t.locate source).toList ++ (t.locate target).toList

/-- Calls that only ask where a path leads. -/
def resolves : FileCall → Bool
  | canonicalize _ | found _ => true
  | _ => false

/-- The objects the call changes. -/
def changes (now : Nat) (t : FileTree) (c : FileCall) : List FilePath :=
  ((c.effect now t).map Prod.fst).getD []

end FileCall

/-! ## Programs over file calls -/

abbrev Files (α : Type) := Prog FileCall FileCall.Answer α

namespace Files

def canonicalize (path : List String) : Files (Option FilePath) :=
  Prog.ask (FileCall.canonicalize path)

def found (path : List String) : Files Bool := Prog.ask (FileCall.found path)

def metadata (path : List String) : Files (Option Metadata) := Prog.ask (FileCall.metadata path)

def isDir (path : List String) : Files Bool := Prog.ask (FileCall.isDir path)

def read (path : List String) : Files (Option (List UInt8)) := Prog.ask (FileCall.read path)

def readDir (path : List String) : Files (Option (List String)) := Prog.ask (FileCall.readDir path)

def createDir (path : List String) : Files Bool := Prog.ask (FileCall.createDir path)

def create (path : List String) (contents : List UInt8) : Files Bool :=
  Prog.ask (FileCall.create path contents)

def removeFile (path : List String) : Files Bool := Prog.ask (FileCall.removeFile path)

def removeDir (path : List String) : Files Bool := Prog.ask (FileCall.removeDir path)

def rename (source target : List String) : Files Bool := Prog.ask (FileCall.rename source target)

section

variable {now : Nat} {t : FileTree} {ok : FileTree → FileCall → Prop} {path : List String}

@[simp] theorem exec_canonicalize :
    (canonicalize path).exec (FileCall.answer now) t = (t.resolve path, t) := rfl

@[simp] theorem exec_found :
    (found path).exec (FileCall.answer now) t = ((t.resolve path).isSome, t) := rfl

@[simp] theorem exec_metadata : (metadata path).exec (FileCall.answer now) t =
    (((t.resolve path).bind t.get).map FileTree.metadata, t) := rfl

@[simp] theorem exec_isDir : (isDir path).exec (FileCall.answer now) t =
    (decide ((t.resolve path).bind t.kindAt = some .dir), t) := rfl

@[simp] theorem exec_readDir : (readDir path).exec (FileCall.answer now) t =
    (((t.resolve path).bind t.get).bind FileTree.names, t) := rfl

/-- Whether a path resolves decides how a program goes on. -/
theorem only_canonicalize {α : Type} {P : FileCall → Prop} {k : Option FilePath → Files α}
    (hc : P (.canonicalize path)) (hnone : (k none).Only P)
    (hsome : ∀ object, (k (some object)).Only P) : (canonicalize path >>= k).Only P := by
  refine Prog.Only.bind (Prog.only_ask hc) fun answer => ?_
  cases answer with
  | none => exact hnone
  | some object => exact hsome object

@[simp] theorem throughout_createDir :
    (createDir path).Throughout (FileCall.answer now) ok t ↔ ok t (.createDir path) :=
  Prog.throughout_ask _ _

@[simp] theorem throughout_create {contents : List UInt8}
    : (create path contents).Throughout (FileCall.answer now) ok t ↔
    ok t (.create path contents) :=
  Prog.throughout_ask _ _

@[simp] theorem throughout_removeFile :
    (removeFile path).Throughout (FileCall.answer now) ok t ↔ ok t (.removeFile path) :=
  Prog.throughout_ask _ _

@[simp] theorem throughout_removeDir :
    (removeDir path).Throughout (FileCall.answer now) ok t ↔ ok t (.removeDir path) :=
  Prog.throughout_ask _ _

@[simp] theorem throughout_rename {target : List String}
    : (rename path target).Throughout (FileCall.answer now) ok t ↔
    ok t (.rename path target) :=
  Prog.throughout_ask _ _

end

end Files

namespace FileCall

/-! ## What commands change -/

section Commands

variable {now : Nat} {t : FileTree} {path : List String} {object : FilePath}

theorem mem_changes {c : FileCall} :
    object ∈ c.changes now t ↔ ∃ changed, c.effect now t = some changed ∧ object ∈ changed.1 := by
  unfold changes
  cases c.effect now t with
  | none | some changed => simp

/-- What a command changes, it looks at. -/
theorem mem_reads_of_mem_changes {c : FileCall}
    (h : object ∈ c.changes now t) : object ∈ c.reads t := by
  obtain ⟨changed, heffect, hobject⟩ := mem_changes.mp h
  cases c with
  | createDir path | removeDir path =>
    obtain ⟨entry, hentry, heffect⟩ := Option.bind_eq_some_iff.mp heffect
    split at heffect
    · cases heffect
      simpa [reads, hentry] using hobject
    · cases heffect
  | create path contents =>
    obtain ⟨opened, hopened, heffect⟩ := Option.bind_eq_some_iff.mp heffect
    split at heffect
    · cases heffect
    · cases heffect
      simpa [reads, hopened] using hobject
  | removeFile path =>
    obtain ⟨entry, hentry, heffect⟩ := Option.bind_eq_some_iff.mp heffect
    have hchanged : changed.1 = [entry] := by
      split at heffect
      · cases heffect
        rfl
      · cases heffect
        rfl
      · cases heffect
    simpa [reads, hentry, hchanged] using hobject
  | rename source target =>
    obtain ⟨entry, hentry, heffect⟩ := Option.bind_eq_some_iff.mp heffect
    obtain ⟨entry', hentry', heffect⟩ := Option.bind_eq_some_iff.mp heffect
    obtain ⟨new, -, heffect⟩ := Option.bind_eq_some_iff.mp heffect
    have hchanged : ∀ o ∈ changed.1, o = entry ∨ o = entry' := by
      split_ifs at heffect
      · cases heffect
        simp
      · cases heffect
        simp
    simpa [reads, hentry, hentry'] using hchanged object hobject
  | canonicalize path | found path | metadata path | isDir path | read path | readDir path =>
    cases heffect

theorem changes_create {contents : List UInt8} :
    object ∈ (create path contents).changes now t ↔
      t.opened path = some object ∧ t.kindAt object ≠ some .dir := by
  rw [mem_changes]
  constructor
  · rintro ⟨changed, heffect, hobject⟩
    obtain ⟨opened, hopened, heffect⟩ := Option.bind_eq_some_iff.mp heffect
    split at heffect
    · cases heffect
    · next hdir =>
      cases heffect
      cases List.mem_singleton.mp hobject
      exact ⟨hopened, hdir⟩
  · rintro ⟨hopened, hdir⟩
    have heffect : (create path contents).effect now t =
        some ([object], t.put object (.file contents now)) := by
      show (t.opened path).bind _ = _
      rw [hopened, Option.bind_some, if_neg hdir]
    exact ⟨_, heffect, List.mem_singleton_self _⟩

/-- After a command the tree is what its effect says, or unchanged. -/
theorem command_cases (c : FileCall) (now : Nat) (t : FileTree) :
    (∃ changed, c.effect now t = some changed ∧ c.command now t = (true, changed.2)) ∨
      c.effect now t = none ∧ c.command now t = (false, t) := by
  unfold command
  cases heffect : c.effect now t with
  | none => exact .inr ⟨rfl, rfl⟩
  | some changed => exact .inl ⟨changed, rfl, rfl⟩

/-- Removing a file leaves fewer entries. -/
theorem removeFile_extends {changed : List FilePath × FileTree}
    (h : (removeFile path).effect now t = some changed) : changed.2.Extends t := by
  obtain ⟨entry, hentry, heffect⟩ := Option.bind_eq_some_iff.mp h
  have htree : changed.2 = t.erase entry := by
    split at heffect
    · cases heffect
      rfl
    · cases heffect
      rfl
    · cases heffect
  rw [htree]
  exact FileTree.erase_extends (FileTree.locate_ne_nil hentry)

/-- Writing a file keeps every entry. -/
theorem create_extends {contents : List UInt8} {changed : List FilePath × FileTree}
    (h : (create path contents).effect now t = some changed) : t.Extends changed.2 := by
  obtain ⟨object, hobject, heffect⟩ := Option.bind_eq_some_iff.mp h
  split at heffect
  · cases heffect
  · next hdir =>
    cases heffect
    obtain ⟨hpath, hfree⟩ := FileTree.opened_free hobject hdir
    exact FileTree.put_file_extends hpath contents now hfree

end Commands

end FileCall

end BlakTail.Foundation
