import BlakTail.Share.Server

/-!
# The Jail of a Shared Folder

What a request reads and changes, against the folders of the shares its peer sees.

A target is checked by resolving it: its directory, and the target itself if it is there,
must lie in the folder.  Two other paths of the handlers are not checked.  A listing asks for
the kind, and a WebDAV document for the length and date, of whatever an entry leads to; and
an upload is first written under a temporary name, which may be a link.
-/

namespace BlakTail.Share

open Foundation FileCall Prog

/-! ## Inside -/

/-- In the canonical folder of a share of the view. -/
def Inside (view : List LocalShare) (t : FileTree) (object : FilePath) : Prop :=
  ∃ share ∈ view, share.enabled ∧
    ∃ root, t.resolve (parts share.path) = some root ∧ root <+: object

/-- In the canonical folder of a share that the view leaves writable. -/
def InsideWritable (view : List LocalShare) (t : FileTree) (object : FilePath) : Prop :=
  ∃ share ∈ view, share.enabled ∧ share.readOnly = false ∧
    ∃ root, t.resolve (parts share.path) = some root ∧ root <+: object

/-- A call reads inside the folders as they were at first, and changes only in writable
ones. -/
def Allowed (now : Nat) (view : List LocalShare) (first t : FileTree) (c : FileCall) : Prop :=
  (∀ object ∈ c.reads t, Inside view first object) ∧
    ∀ object ∈ c.changes now t, InsideWritable view first object

/-- Every object whose contents or metadata the reply depends on lies inside, and everything
the request changes lies in a share that is writable.  That a path leads anywhere is no content: a
reply of 403 instead of 404 still tells that a link leads to something outside. -/
def Jailed (now : Nat) (gate : ShareGate) (peer : Option IpAddr) (shares : List LocalShare)
    (header : String) (early late : List UInt8) (t : FileTree) : Prop :=
  ∀ made ∈ (handleClient gate peer shares header early late).calls (answer now) t,
    Allowed now (gate.view peer shares) t made.1 made.2

section Decidable

variable (now : Nat) (view : List LocalShare) (first t : FileTree)

instance decidableInside (object : FilePath) : Decidable (Inside view t object) :=
  decidable_of_iff (∃ share ∈ view, share.enabled ∧
      ∃ root ∈ t.resolve (parts share.path), root <+: object)
    (by simp only [Inside, Option.mem_def])

instance decidableInsideWritable (object : FilePath) : Decidable (InsideWritable view t object) :=
  decidable_of_iff (∃ share ∈ view, share.enabled ∧ share.readOnly = false ∧
      ∃ root ∈ t.resolve (parts share.path), root <+: object)
    (by simp only [InsideWritable, Option.mem_def])

instance decidableAllowed (c : FileCall) : Decidable (Allowed now view first t c) :=
  inferInstanceAs (Decidable (_ ∧ _))

instance decidableJailed (gate : ShareGate) (peer : Option IpAddr) (shares : List LocalShare)
    (header : String) (early late : List UInt8) :
    Decidable (Jailed now gate peer shares header early late t) :=
  inferInstanceAs (Decidable (∀ made ∈ _, _))

end Decidable

section Calls

variable {now : Nat} {view : List LocalShare} {first t : FileTree} {path : List String}
  {c : FileCall}

theorem allowed_resolves (hc : c.resolves) : Allowed now view first t c := by
  cases c with
  | canonicalize path | found path => exact ⟨fun _ hnone => (nomatch hnone), nofun⟩
  | _ => cases hc

/-- Whether something is there may always be asked. -/
theorem throughout_found {α : Type} {k : Bool → Files α} :
    (Files.found path >>= k).Throughout (answer now) (Allowed now view first) t ↔
      (k (t.resolve path).isSome).Throughout (answer now) (Allowed now view first) t := by
  rw [Prog.throughout_bind]
  exact and_iff_right ((throughout_ask _ _).mpr (allowed_resolves rfl))

/-- A call that looks at an object is allowed exactly inside. -/
theorem throughout_reads (hreads : c.reads t = (t.resolve path).toList)
    (hchanges : c.changes now t = []) :
    (ask c : Files c.Answer).Throughout (answer now) (Allowed now view first) t ↔
      ∀ object, t.resolve path = some object → Inside view first object := by
  rw [throughout_ask, Allowed, hreads, hchanges]
  simp

@[simp] theorem throughout_metadata :
    (Files.metadata path).Throughout (answer now) (Allowed now view first) t ↔
      ∀ object, t.resolve path = some object → Inside view first object :=
  throughout_reads rfl rfl

@[simp] theorem throughout_isDir :
    (Files.isDir path).Throughout (answer now) (Allowed now view first) t ↔
      ∀ object, t.resolve path = some object → Inside view first object :=
  throughout_reads rfl rfl

@[simp] theorem throughout_read :
    (Files.read path).Throughout (answer now) (Allowed now view first) t ↔
      ∀ object, t.resolve path = some object → Inside view first object :=
  throughout_reads rfl rfl

@[simp] theorem throughout_readDir :
    (Files.readDir path).Throughout (answer now) (Allowed now view first) t ↔
      ∀ object, t.resolve path = some object → Inside view first object :=
  throughout_reads rfl rfl

theorem InsideWritable.inside {object : FilePath} (h : InsideWritable view t object) :
    Inside view t object := by
  obtain ⟨share, hshare, henabled, -, hroot⟩ := h
  exact ⟨share, hshare, henabled, hroot⟩

/-- A call is allowed where all it looks at is writable. -/
theorem allowed_of_writable (h : ∀ object ∈ c.reads t, InsideWritable view first object) :
    Allowed now view first t c :=
  ⟨fun object hread => (h object hread).inside,
    fun object hchange => h object (mem_reads_of_mem_changes hchange)⟩

/-- A file opened for writing is looked at, and is changed unless it is a directory. -/
theorem allowed_create {contents : List UInt8} :
    Allowed now view first t (.create path contents) ↔ ∀ object, t.opened path = some object →
      Inside view first object ∧
        (t.kindAt object ≠ some .dir → InsideWritable view first object) := by
  unfold Allowed
  simp only [reads, Option.mem_toList, changes_create, and_imp]
  constructor
  · intro h object hopened
    exact ⟨h.1 object hopened, h.2 object hopened⟩
  · intro h
    exact ⟨fun object hopened => (h object hopened).1, fun object hopened => (h object hopened).2⟩

/-- Calls that only ask where a path leads are allowed and change nothing: what follows
decides. -/
theorem throughout_resolves {α β : Type} {p : Files α} (hp : p.Only fun c => c.resolves)
    (k : α → Files β) :
    (p >>= k).Throughout (answer now) (Allowed now view first) t ↔
      (k (p.exec (answer now) t).1).Throughout (answer now)
        (Allowed now view first) t := by
  have hkeeps : ∀ t' c, resolves c → (answer now t' c).2 = t' := by
    intro t' c hc
    cases c with
    | canonicalize path | found path => rfl
    | _ => cases hc
  rw [Prog.throughout_bind, hp.quiet hkeeps t,
    and_iff_right (hp.throughout (fun _ _ => allowed_resolves) t)]

end Calls

/-! ## Targets -/

/-- A target in a share: its directory resolves inside the folder, and so does the target if
it is there. -/
structure Child (share : LocalShare) (t : FileTree) (target : List String) : Prop where
  parent : ∃ root, t.resolve (parts share.path) = some root ∧
    ∃ here, t.resolve target.dropLast = some here ∧ root <+: here
  object : ∃ root, t.resolve (parts share.path) = some root ∧
    ∀ object, t.resolve target = some object → root <+: object

/-- The target of an upload, as the tree has it. -/
def putPath (share : LocalShare) (t : FileTree) (urlPath : String) : Option (List String) :=
  let rest := Text.trimStartMatches '/' (afterLabel share urlPath)
  if rest = "" || rest.toList.getLast? = some '/' || (parts rest).any badPart then none
  else
    (t.resolve (parts share.path)).bind fun root =>
      let target := root ++ parts rest
      (t.resolve target.dropLast).bind fun parent =>
        if root.isPrefixOf parent && (t.resolve target).all root.isPrefixOf then some target
        else none

section Targets

variable {now : Nat} {t : FileTree} {share : LocalShare}

theorem exec_resolvePutPath (urlPath : String) :
    (resolvePutPath share urlPath).exec (answer now) t = (putPath share t urlPath, t) := by
  unfold resolvePutPath putPath
  dsimp only
  split
  · rfl
  · rw [exec_bind, Files.exec_canonicalize]
    cases t.resolve (parts share.path) with
    | none => rfl
    | some root =>
      dsimp only [Option.bind_some]
      rw [exec_bind, Files.exec_canonicalize]
      cases t.resolve _ with
      | none => rfl
      | some parent =>
        dsimp only [Option.bind_some]
        cases root.isPrefixOf parent with
        | false => rfl
        | true =>
          rw [if_neg (by simp), exec_bind, Files.exec_found]
          cases hobject : t.resolve _ with
          | none => rfl
          | some object =>
            dsimp only [Option.isSome_some]
            rw [if_pos rfl, exec_bind, Files.exec_canonicalize, hobject]
            rfl

/-- Looking for the target of an upload only asks where paths lead. -/
theorem resolvePutPath_only (urlPath : String) :
    (resolvePutPath share urlPath).Only fun c => c.resolves := by
  unfold resolvePutPath
  refine only_ite (only_pure _) ?_
  refine Files.only_canonicalize rfl (only_pure _) fun root => ?_
  refine Files.only_canonicalize rfl (only_pure _) fun parent => ?_
  refine only_ite (only_pure _) ?_
  refine Only.bind (only_ask rfl) fun there => only_ite ?_ (only_pure _)
  exact Files.only_canonicalize rfl (only_pure _) fun existing => only_pure _

theorem putPath_child {urlPath : String} {target : List String}
    (h : putPath share t urlPath = some target) : Child share t target := by
  unfold putPath at h
  dsimp only at h
  split at h
  · cases h
  · obtain ⟨root, hroot, h⟩ := Option.bind_eq_some_iff.mp h
    obtain ⟨here, hhere, h⟩ := Option.bind_eq_some_iff.mp h
    split at h
    · next hinside =>
      cases h
      rw [Bool.and_eq_true, List.isPrefixOf_iff_prefix] at hinside
      refine ⟨⟨root, hroot, here, hhere, hinside.1⟩, root, hroot, fun object hobject => ?_⟩
      have hall := hinside.2
      rw [hobject] at hall
      exact List.isPrefixOf_iff_prefix.mp hall
    · cases h

/-- Looking for a child of the share only asks where paths lead. -/
theorem childPaths_only (urlPath : String) :
    (childPaths share urlPath).Only fun c => c.resolves := by
  unfold childPaths
  refine only_ite (only_pure _) ?_
  refine Files.only_canonicalize rfl (only_pure _) fun root => ?_
  refine Only.bind (only_ask rfl) fun hasParent => only_ite (only_pure _) ?_
  refine Files.only_canonicalize rfl (only_pure _) fun parent => ?_
  refine only_ite (only_pure _) ?_
  refine Only.bind (only_ask rfl) fun there => only_ite ?_ (only_pure _)
  exact Files.only_canonicalize rfl (only_pure _) fun existing => only_pure _

theorem childPaths_child {urlPath : String} {target : List String}
    (h : ((childPaths share urlPath).exec (answer now) t).1 = .ok target) :
    Child share t target := by
  unfold childPaths at h
  dsimp only at h
  split at h
  · cases h
  rw [exec_bind, Files.exec_canonicalize] at h
  split at h
  · cases h
  next root hroot =>
  rw [exec_bind, Files.exec_found] at h
  split at h
  · cases h
  rw [exec_bind, Files.exec_canonicalize] at h
  split at h
  · cases h
  next here hhere =>
  dsimp only at h
  split at h
  · cases h
  next hprefix =>
  have hinside : root <+: here := by simpa using hprefix
  rw [exec_bind, Files.exec_found] at h
  cases hobject : t.resolve (root ++ parts _) with
  | none =>
    -- Nothing is there: the directory alone decides.
    rw [hobject] at h
    cases h
    refine ⟨⟨root, hroot, here, hhere, hinside⟩, root, hroot, fun object hleads => ?_⟩
    rw [hobject] at hleads
    cases hleads
  | some object =>
    rw [hobject] at h
    dsimp only [Option.isSome_some] at h
    rw [if_pos rfl, exec_bind, Files.exec_canonicalize, hobject] at h
    dsimp only [exec_pure] at h
    split at h
    · next hexisting =>
      cases h
      refine ⟨⟨root, hroot, here, hhere, hinside⟩, root, hroot, fun object' hleads => ?_⟩
      rw [hobject] at hleads
      cases hleads
      exact List.isPrefixOf_iff_prefix.mp hexisting
    · cases h

end Targets

/-! ## Changes -/

/-- A share of the view that it leaves writable. -/
structure Writable (view : List LocalShare) (share : LocalShare) : Prop where
  mem : share ∈ view
  enabled : share.enabled
  writable : share.readOnly = false

section Changes

variable {now : Nat} {view : List LocalShare} {t : FileTree} {share : LocalShare}
  {target : List String}

variable {path : String}

theorem shareForPath_writable (h : shareForPath view path = some share)
    (hwritable : share.readOnly = false) : Writable view share := by
  have hmem : share ∈ view ∧ share.enabled := by
    simpa using List.mem_of_find?_eq_some h
  exact ⟨hmem.1, hmem.2, hwritable⟩

theorem Child.inside {object : FilePath} (h : Child share t target) (hshare : Writable view share)
    (hobject : t.resolve target = some object) : Inside view t object := by
  obtain ⟨root, hroot, hinside⟩ := h.object
  exact ⟨share, hshare.mem, hshare.enabled, root, hroot, hinside object hobject⟩

/-- An entry beside a target lies in its share, also when entries went or came since. -/
theorem Child.entry (h : Child share t target) (hshare : Writable view share) {t' : FileTree}
    (hnear : t'.Extends t ∨ t.Extends t') {path : List String}
    (hpath : path.dropLast = target.dropLast) {entry : FilePath}
    (hentry : t'.locate path = some entry) : InsideWritable view t entry := by
  obtain ⟨root, hroot, here, hhere, hinside⟩ := h.parent
  obtain ⟨here', name, hhere', -, rfl⟩ := FileTree.locate_eq_some hentry
  rw [hpath] at hhere'
  have hsame : here' = here := by
    rcases hnear with hfewer | hmore
    · exact Option.some.inj ((FileTree.walk_mono hfewer hhere').symm.trans hhere)
    · exact Option.some.inj (hhere'.symm.trans (FileTree.walk_mono hmore hhere))
  rw [hsame]
  exact ⟨share, hshare.mem, hshare.enabled, hshare.writable, root, hroot,
    hinside.trans (List.prefix_append here [name])⟩

/-- The entry a target names, in the tree it was checked in. -/
theorem Child.entry_here (h : Child share t target) (hshare : Writable view share)
    {entry : FilePath} (hentry : t.locate target = some entry) : InsideWritable view t entry :=
  h.entry hshare (.inl fun _ _ hkind => hkind) rfl hentry

/-- A handler of writable shares: what it does in one decides. -/
theorem throughout_writable {k : LocalShare → Files (Option Reply)}
    (h : ∀ share, Writable view share →
      (k share).Throughout (answer now) (Allowed now view t) t) (path : String) :
    (match shareForPath view path with
      | none => pure (some notFound)
      | some share => if share.readOnly then pure (some readOnlyShare) else k share).Throughout
        (answer now) (Allowed now view t) t := by
  cases hshare : shareForPath view path with
  | none => simp
  | some share =>
    cases hwritable : share.readOnly with
    | true => simp [hwritable]
    | false =>
      dsimp only
      rw [if_neg (by simp [hwritable])]
      exact h share (shareForPath_writable hshare hwritable)

/-- A child of the share is looked for, and then what is found decides. -/
theorem throughout_child {k : Except JailError (List String) → Files (Option Reply)}
    (herror : ∀ reason, (k (.error reason)).Throughout (answer now) (Allowed now view t) t)
    (hok : ∀ target, Child share t target →
      (k (.ok target)).Throughout (answer now) (Allowed now view t) t) (path : String) :
    (childPaths share path >>= k).Throughout (answer now) (Allowed now view t) t := by
  rw [throughout_resolves (childPaths_only path)]
  cases hchild : ((childPaths share path).exec (answer now) t).1 with
  | error reason => exact herror reason
  | ok target => exact hok target (childPaths_child hchild)

variable (path)

theorem serveMkcol_throughout :
    (serveMkcol view path).Throughout (answer now) (Allowed now view t) t := by
  refine throughout_writable (fun share hshare => throughout_child ?_ ?_ path) path
  · intro reason
    cases reason <;> simp
  · intro target htarget
    have hmkdir : Allowed now view t t (.createDir target) := allowed_of_writable
      fun object hobject => htarget.entry_here hshare (Option.mem_toList.mp hobject)
    rw [throughout_found]
    split
    · simp
    · simp [hmkdir]

/-- Deleting a target that was checked. -/
theorem deleteTarget_throughout (h : Child share t target) (hshare : Writable view share) :
    (deleteTarget target).Throughout (answer now) (Allowed now view t) t := by
  have hlook : ∀ object, t.resolve target = some object → Inside view t object :=
    fun object hobject => h.inside hshare hobject
  have hentry : ∀ object ∈ (t.locate target).toList, InsideWritable view t object :=
    fun object hobject => h.entry_here hshare (Option.mem_toList.mp hobject)
  have hremoveDir : Allowed now view t t (.removeDir target) := allowed_of_writable hentry
  have hremoveFile : Allowed now view t t (.removeFile target) := allowed_of_writable hentry
  unfold deleteTarget
  rw [Prog.throughout_bind, throughout_isDir, Files.exec_isDir,
    and_iff_right hlook, throughout_ite]
  split
  · rw [Prog.throughout_bind, throughout_readDir, Files.exec_readDir,
      and_iff_right hlook]
    split
    · simp
    · simp [hremoveDir]
    · simp
  · simp [hremoveFile]

theorem serveDelete_throughout :
    (serveDelete view path).Throughout (answer now) (Allowed now view t) t := by
  refine throughout_writable (fun share hshare => throughout_child (fun _ => by simp) ?_ path) path
  intro target htarget
  rw [throughout_found]
  split
  · exact deleteTarget_throughout htarget hshare
  · simp

/-- Moving between targets that were checked.  The one that goes first leaves fewer
entries. -/
theorem moveTarget_throughout {source : List String} (hsource : Child share t source)
    (htarget : Child share t target) (hshare : Writable view share) :
    (moveTarget source target).Throughout (answer now) (Allowed now view t) t := by
  have hrename : ∀ t' : FileTree, t'.Extends t → Allowed now view t t' (.rename source target) := by
    intro t' hfewer
    refine allowed_of_writable fun object hobject => ?_
    rcases List.mem_append.mp hobject with hentry | hentry
    · exact hsource.entry hshare (.inl hfewer) rfl (Option.mem_toList.mp hentry)
    · exact htarget.entry hshare (.inl hfewer) rfl (Option.mem_toList.mp hentry)
  have hremove : Allowed now view t t (.removeFile target) := allowed_of_writable
    fun object hobject => htarget.entry_here hshare (Option.mem_toList.mp hobject)
  unfold moveTarget
  rw [Prog.throughout_bind, Files.exec_isDir, throughout_isDir,
    and_iff_right fun object hobject => htarget.inside hshare hobject]
  split
  · simp
  · rw [throughout_found]
    split
    · rw [Prog.throughout_bind, Files.throughout_removeFile, and_iff_right hremove]
      show (Throughout _ _ (if ((removeFile target).command now t).1 = true then _
        else _) ((removeFile target).command now t).2)
      rcases (removeFile target).command_cases now t with
        ⟨changed, heffect, hcommand⟩ | ⟨-, hcommand⟩
      · rw [hcommand]
        simp [hrename changed.2 (removeFile_extends heffect)]
      · rw [hcommand]
        simp
    · simp [hrename t fun _ _ hkind => hkind]

theorem serveMove_throughout (destination : Option String) :
    (serveMove view path destination).Throughout (answer now) (Allowed now view t) t := by
  unfold serveMove
  cases destination with
  | none => simp
  | some destination =>
    refine throughout_writable (fun share hshare => ?_) path
    cases shareForPath view destination with
    | none => simp
    | some destShare =>
      dsimp only
      split
      · simp
      · refine throughout_child (fun _ => by simp) (fun source hsource => ?_) path
        dsimp only
        rw [throughout_found]
        split
        · simp
        · refine throughout_child ?_ (fun target htarget => ?_) destination
          · intro reason
            cases reason <;> simp
          · exact moveTarget_throughout hsource htarget hshare

/-! ## Uploads -/

/-- Where the upload is written first, if that is a link: it leads inside, and to what is
writable unless it is a directory. -/
def TemporaryStays (view : List LocalShare) (t : FileTree) (path : String) : Prop :=
  ∀ share, shareForPath view path = some share → share.readOnly = false →
    ∀ target, putPath share t path = some target →
      ∀ entry goal, t.locate (temporaryPath target) = some entry →
        t.kindAt entry = some (.link goal) →
          ∀ object, t.opened (temporaryPath target) = some object →
            Inside view t object ∧ (t.kindAt object ≠ some .dir → InsideWritable view t object)

theorem temporaryPath_dropLast (target : List String) :
    (temporaryPath target).dropLast = target.dropLast := by
  unfold temporaryPath
  split
  · rfl
  · rw [List.dropLast_concat]

/-- What is no link is opened itself. -/
theorem opened_entry {object : FilePath}
    {path : List String} {entry : FilePath} (hentry : t.locate path = some entry)
    (hlink : ∀ goal, t.kindAt entry ≠ some (.link goal)) (hopened : t.opened path = some object) :
    object = entry := by
  unfold FileTree.opened at hopened
  rw [hentry, Option.bind_some] at hopened
  split at hopened
  · next goal hkind => exact absurd hkind (hlink goal)
  · exact (Option.some.inj hopened).symm

theorem putTarget_throughout (h : Child share t target) (hshare : Writable view share)
    (body : List UInt8) :
    (putTarget target body).Throughout (answer now) (Allowed now view t) t ↔
      Allowed now view t t (.create (temporaryPath target) body) := by
  have hrename : ∀ t' : FileTree, t.Extends t' →
      Allowed now view t t' (.rename (temporaryPath target) target) := by
    intro t' hmore
    refine allowed_of_writable fun object hobject => ?_
    rcases List.mem_append.mp hobject with hentry | hentry
    · exact h.entry hshare (.inr hmore) (temporaryPath_dropLast target)
        (Option.mem_toList.mp hentry)
    · exact h.entry hshare (.inr hmore) rfl (Option.mem_toList.mp hentry)
  unfold putTarget
  rw [Prog.throughout_bind, Files.throughout_create, and_iff_left]
  show (Throughout _ _ (if ((create (temporaryPath target) body).command now t).1
    then _ else _) ((create (temporaryPath target) body).command now t).2)
  rcases (create (temporaryPath target) body).command_cases now t with
    ⟨changed, heffect, hcommand⟩ | ⟨-, hcommand⟩
  · rw [hcommand]
    simp [hrename changed.2 (create_extends heffect)]
  · rw [hcommand]
    simp

theorem servePut_throughout (body : List UInt8) :
    (servePut view path body).Throughout (answer now) (Allowed now view t) t ↔
      (body.length ≤ MAX_PUT_BYTES → TemporaryStays view t path) := by
  unfold servePut
  cases hshare : shareForPath view path with
  | none => simp [TemporaryStays, hshare]
  | some share =>
    dsimp only
    cases hwritable : share.readOnly with
    | true => simp [TemporaryStays, hshare, hwritable]
    | false =>
      have hin := shareForPath_writable hshare hwritable
      rw [if_neg (by simp)]
      by_cases hlarge : MAX_PUT_BYTES < body.length
      · simp [Nat.not_le.mpr hlarge]
      · rw [if_neg hlarge, throughout_resolves (resolvePutPath_only path), exec_resolvePutPath]
        simp only [Nat.le_of_not_lt hlarge, true_imp_iff]
        cases htarget : putPath share t path with
        | none => simp [TemporaryStays, hshare, htarget]
        | some target =>
          have hchild := putPath_child htarget
          rw [putTarget_throughout hchild hin, allowed_create]
          constructor
          · intro hopened share' hshare' _ target' htarget' entry goal _ _ object hobject
            cases hshare.symm.trans hshare'
            cases htarget.symm.trans htarget'
            exact hopened object hobject
          · intro hstays object hobject
            obtain ⟨entry, hentry, -⟩ := Option.bind_eq_some_iff.mp hobject
            by_cases hlink : ∃ goal, t.kindAt entry = some (.link goal)
            · obtain ⟨goal, hkind⟩ := hlink
              exact hstays share hshare hwritable target htarget entry goal hentry hkind
                object hobject
            · rw [opened_entry hentry (not_exists.mp hlink) hobject]
              have hwrite : InsideWritable view t entry :=
                hchild.entry hin (.inl fun _ _ hkind => hkind)
                  (temporaryPath_dropLast target) hentry
              exact ⟨hwrite.inside, fun _ => hwrite⟩

end Changes

/-! ## Answers -/

def folderAt (view : List LocalShare) (t : FileTree) (path : String) : Option FilePath :=
  let trimmed := Text.trimStartMatches '/' path
  let (label, rest) := labelAndRest trimmed
  if trimmed = "" || hasNul rest || (parts rest).contains ".." then none
  else
    (view.find? fun share => share.enabled && share.label = label).bind fun share =>
      (t.resolve (parts share.path)).bind fun root =>
        (t.resolve (if rest = "" then root else root ++ parts rest)).bind fun directory =>
          if root.isPrefixOf directory && t.kindAt directory = some .dir then some directory
          else none

/-- The names a listing of a directory shows. -/
def shownNames (t : FileTree) (directory : FilePath) : List String :=
  visibleNames (((t.get directory).bind FileTree.names).getD [])

/-- Every shown entry of the directory a path names that is a link leads inside, if
anywhere. -/
def LinksStay (view : List LocalShare) (t : FileTree) (path : String) : Prop :=
  ∀ directory, folderAt view t path = some directory → ∀ name ∈ shownNames t directory,
    ∀ goal, t.kindAt (directory ++ [name]) = some (.link goal) →
      ∀ object, t.resolve (directory ++ [name]) = some object → Inside view t object

/-- A program that only looks: its calls are allowed, it changes nothing, and its result is
as `ok` says. -/
structure Looks {α : Type} (now : Nat) (view : List LocalShare) (t : FileTree) (ok : α → Prop)
    (p : Files α) : Prop where
  allowed : p.Throughout (answer now) (Allowed now view t) t
  result : ok (p.exec (answer now) t).1
  keeps : (p.exec (answer now) t).2 = t

/-- What a path asks for is inside, and directories are found as `folderAt` finds them. -/
def Sound (view : List LocalShare) (t : FileTree) (path : String) : ShareResponse → Prop
  | .listing _ _ directory =>
    folderAt view t path = some directory ∧ Inside view t directory ∧ t.Folder directory
  | .file file _ => folderAt view t path = none ∧ Inside view t file ∧ t.Grounded file
  | _ => folderAt view t path = none

section Answers

variable {now : Nat} {view : List LocalShare} {t : FileTree} {α β : Type} {ok : α → Prop}
  {directory : FilePath}

theorem Looks.pure {a : α} (h : ok a) : Looks now view t ok (pure a) :=
  ⟨(throughout_pure _ _).mpr trivial, h, rfl⟩

theorem Looks.bind {p : Files β}
    (hp : p.Throughout (answer now) (Allowed now view t) t)
    (hkeeps : (p.exec (answer now) t).2 = t) {k : β → Files α}
    (h : Looks now view t ok (k (p.exec (answer now) t).1)) :
    Looks now view t ok (p >>= k) where
  allowed := by
    rw [Prog.throughout_bind, hkeeps]
    exact ⟨hp, h.allowed⟩
  result := by
    rw [exec_bind, hkeeps]
    exact h.result
  keeps := by
    rw [exec_bind, hkeeps]
    exact h.keeps

theorem Looks.canonicalize {path : List String} {k : Option FilePath → Files α}
    (h : Looks now view t ok (k (t.resolve path))) :
    Looks now view t ok (Files.canonicalize path >>= k) :=
  Looks.bind ((throughout_ask _ _).mpr (allowed_resolves rfl)) rfl h

theorem Looks.metadata {path : List String} {k : Option Metadata → Files α}
    (hpath : ∀ object, t.resolve path = some object → Inside view t object)
    (h : Looks now view t ok (k (((t.resolve path).bind t.get).map FileTree.metadata))) :
    Looks now view t ok (Files.metadata path >>= k) :=
  Looks.bind (throughout_metadata.mpr hpath) rfl h

/-- After a program that only looks, what it leads to decides. -/
theorem Looks.throughout_bind {p : Files α} (h : Looks now view t ok p) (k : α → Files β) :
    (p >>= k).Throughout (answer now) (Allowed now view t) t ↔
      (k (p.exec (answer now) t).1).Throughout (answer now)
        (Allowed now view t) t := by
  rw [Prog.throughout_bind, h.keeps, and_iff_right h.allowed]

/-- An object that was resolved is asked about itself. -/
theorem allowed_grounded {object : FilePath} (hinside : Inside view t object)
    (hgrounded : t.Grounded object) {other : FilePath} (hother : t.resolve object = some other) :
    Inside view t other := by
  rw [FileTree.resolve_grounded hgrounded] at hother
  cases hother
  exact hinside

variable {path : String}

theorem resolveWithin_looks {share : LocalShare} {rest : String} {canonical : FilePath}
    (hinside : Inside view t canonical) (hgrounded : t.Grounded canonical)
    (hfolder : folderAt view t path =
      if t.kindAt canonical = some .dir then some canonical else none) :
    Looks now view t (Sound view t path) (resolveWithin share rest canonical) := by
  refine Looks.metadata (fun _ hother => allowed_grounded hinside hgrounded hother) ?_
  rw [FileTree.resolve_grounded hgrounded, Option.bind_some]
  unfold FileTree.kindAt at hfolder
  cases htree : t.get canonical with
  | none =>
    rw [htree] at hfolder
    exact Looks.pure hfolder
  | some tree =>
    rw [htree] at hfolder
    cases tree with
    | dir modified entries =>
      have hdir : t.Folder canonical := by
        rcases hgrounded with hdir | ⟨front, name, -, -, -, hfile⟩
        · exact hdir
        · rw [FileTree.kindAt, htree] at hfile
          cases hfile
      exact Looks.pure ⟨hfolder, hinside, hdir⟩
    | file contents modified => exact Looks.pure ⟨hfolder, hinside, hgrounded⟩
    | link goal => exact Looks.pure hfolder

theorem resolveRequest_looks (path : String) :
    Looks now view t (Sound view t path) (resolveRequest view path) := by
  unfold resolveRequest
  by_cases htrimmed : Text.trimStartMatches '/' path = ""
  · rw [if_pos htrimmed]
    apply Looks.pure
    show folderAt view t path = none
    simp [folderAt, htrimmed]
  · rw [if_neg htrimmed]
    rcases hlabel : labelAndRest (Text.trimStartMatches '/' path) with ⟨label, rest⟩
    dsimp only
    cases hshare : view.find? fun share => share.enabled && share.label = label with
    | none =>
      apply Looks.pure
      show folderAt view t path = none
      simp only [folderAt, hlabel, hshare, Option.bind_none, ite_self]
    | some share =>
      have hmem : share ∈ view ∧ share.enabled := by
        have hfound := List.find?_some hshare
        rw [Bool.and_eq_true] at hfound
        exact ⟨List.mem_of_find?_eq_some hshare, hfound.1⟩
      apply Looks.canonicalize
      cases hroot : t.resolve (parts share.path) with
      | none =>
        apply Looks.pure
        show folderAt view t path = none
        simp only [folderAt, hlabel, hshare, hroot, Option.bind_none, Option.bind_some, ite_self]
      | some root =>
        dsimp only
        by_cases hbad : (hasNul rest || (parts rest).contains "..")
        · rw [if_pos hbad]
          apply Looks.pure
          show folderAt view t path = none
          simp only [folderAt, hlabel]
          rw [if_pos (by rw [Bool.or_assoc, hbad, Bool.or_true])]
        · rw [if_neg hbad]
          apply Looks.canonicalize
          -- From here on the directory is whatever the path resolves to.
          have hfolder : folderAt view t path =
              (t.resolve (if rest = "" then root else root ++ parts rest)).bind fun directory =>
                if root.isPrefixOf directory && t.kindAt directory = some .dir then some directory
                else none := by
            simp only [folderAt, hlabel]
            rw [if_neg (by simpa [htrimmed] using hbad), hshare, Option.bind_some, hroot,
              Option.bind_some]
          cases hcanonical : t.resolve (if rest = "" then root else root ++ parts rest) with
          | none =>
            rw [hcanonical] at hfolder
            exact Looks.pure hfolder
          | some canonical =>
            rw [hcanonical, Option.bind_some] at hfolder
            dsimp only
            cases hinside : root.isPrefixOf canonical with
            | false =>
              rw [hinside] at hfolder
              exact Looks.pure hfolder
            | true =>
              rw [hinside] at hfolder
              apply resolveWithin_looks
              · exact ⟨share, hmem.1, hmem.2, root, hroot, List.isPrefixOf_iff_prefix.mp hinside⟩
              · exact FileTree.resolve_object hcanonical
              · simpa using hfolder

/-! ## Listings -/

/-- Asking about a shown entry is allowed, unless it is a link that leads outside. -/
theorem entry_inside (hinside : Inside view t directory) (hfolder : t.Folder directory)
    {name : String} (hname : name ∈ shownNames t directory) :
    (∀ object, t.resolve (directory ++ [name]) = some object → Inside view t object) ↔
      ∀ goal, t.kindAt (directory ++ [name]) = some (.link goal) →
        ∀ object, t.resolve (directory ++ [name]) = some object → Inside view t object := by
  refine ⟨fun h goal _ => h, fun h object hobject => ?_⟩
  by_cases hlink : ∃ goal, t.kindAt (directory ++ [name]) = some (.link goal)
  · obtain ⟨goal, hkind⟩ := hlink
    exact h goal hkind object hobject
  · -- Names that begin with a dot are not shown, so this is not the directory above.
    have hup : name ≠ ".." := by
      rintro rfl
      have hvisible := List.mem_of_mem_take hname
      rw [List.mem_insertionSort] at hvisible
      simpa using (List.mem_filter.mp hvisible).2
    obtain ⟨share, hshare, henabled, root, hroot, hroots⟩ := hinside
    exact ⟨share, hshare, henabled, root, hroot,
      hroots.trans (FileTree.resolve_entry hfolder hup (not_exists.mp hlink) hobject)⟩

theorem dirEntry_quiet (directory : FilePath) (name : String) :
    (dirEntry directory name).Quiet (answer now) := fun _ => rfl

theorem davEntry_quiet (href : String) (entry : DirEntry) :
    (davEntry href entry).Quiet (answer now) := by
  intro s
  unfold davEntry
  split
  · rfl
  · rfl

/-- A listing asks what each shown entry leads to. -/
theorem listVisibleEntries_throughout (hinside : Inside view t directory)
    (hfolder : t.Folder directory) :
    (listVisibleEntries directory).Throughout (answer now) (Allowed now view t) t ↔
      ∀ name ∈ shownNames t directory, ∀ object,
        t.resolve (directory ++ [name]) = some object → Inside view t object := by
  have hread : ∀ object, t.resolve directory = some object → Inside view t object :=
    fun _ hother => allowed_grounded hinside (.inl hfolder) hother
  unfold listVisibleEntries
  rw [Prog.throughout_bind, throughout_readDir, and_iff_right hread,
    Files.exec_readDir, FileTree.resolve_grounded (.inl hfolder), throughout_each
    (dirEntry_quiet directory)]
  simp [dirEntry, shownNames]

theorem exec_listVisibleEntries (hfolder : t.Folder directory) :
    (listVisibleEntries directory).exec (answer now) t =
      ((shownNames t directory).map fun name =>
        ((dirEntry directory name).exec (answer now) t).1, t) := by
  unfold listVisibleEntries
  rw [exec_bind, Files.exec_readDir, FileTree.resolve_grounded (.inl hfolder),
    exec_each (dirEntry_quiet directory)]
  rfl

/-- A WebDAV document of a directory asks no more than its listing. -/
theorem davEntries_throughout (hinside : Inside view t directory) (hfolder : t.Folder directory)
    (href : String) (depth : Nat) :
    (davEntries href directory depth).Throughout (answer now) (Allowed now view t) t ↔
      (0 < depth → ∀ name ∈ shownNames t directory, ∀ object,
        t.resolve (directory ++ [name]) = some object → Inside view t object) := by
  unfold davEntries
  by_cases hdepth : 0 < depth
  · rw [if_pos hdepth, Prog.throughout_bind, listVisibleEntries_throughout hinside hfolder,
      imp_iff_right hdepth, and_iff_left_iff_imp]
    intro hshown
    rw [exec_listVisibleEntries hfolder, throughout_each (davEntry_quiet href)]
    intro entry hentry
    obtain ⟨name, hname, rfl⟩ := List.mem_map.mp hentry
    unfold davEntry
    rw [Prog.throughout_bind, throughout_metadata]
    refine ⟨hshown name hname, ?_⟩
    split
    · simp
    · simp
  · simp [hdepth]

theorem linksStay_of_none (h : folderAt view t path = none) : LinksStay view t path := by
  intro directory hdirectory
  rw [h] at hdirectory
  cases hdirectory

/-- With its directory at hand, the condition is about all shown entries. -/
theorem linksStay_iff (hpath : folderAt view t path = some directory)
    (hinside : Inside view t directory) (hfolder : t.Folder directory) : LinksStay view t path ↔
      ∀ name ∈ shownNames t directory, ∀ object,
        t.resolve (directory ++ [name]) = some object → Inside view t object := by
  unfold LinksStay
  rw [hpath]
  simp only [Option.some.injEq, forall_eq']
  exact forall₂_congr fun name hname => (entry_inside hinside hfolder hname).symm

variable (path)

theorem serveGet_throughout (head : Bool) :
    (serveGet view path head).Throughout (answer now) (Allowed now view t) t ↔
      LinksStay view t path := by
  have hlooks : Looks now view t (Sound view t path) (resolveRequest view path) :=
    resolveRequest_looks path
  unfold serveGet
  rw [hlooks.throughout_bind]
  have hsound := hlooks.result
  generalize ((resolveRequest view path).exec (answer now) t).1 = response at hsound
  cases response with
  | index | notFound | forbidden => simp [linksStay_of_none hsound]
  | listing share relative directory =>
    obtain ⟨hpath, hinside, hfolder⟩ := hsound
    rw [Prog.throughout_bind, listVisibleEntries_throughout hinside hfolder,
      linksStay_iff hpath hinside hfolder]
    simp
  | file file type =>
    obtain ⟨hpath, hinside, hgrounded⟩ := hsound
    have hfile : ∀ object, t.resolve file = some object → Inside view t object :=
      fun _ hother => allowed_grounded hinside hgrounded hother
    refine iff_of_true ?_ (linksStay_of_none hpath)
    rw [throughout_ite]
    split
    · rw [Prog.throughout_bind, throughout_metadata]
      exact ⟨hfile, (throughout_pure _ _).mpr trivial⟩
    · rw [Prog.throughout_bind, throughout_read]
      exact ⟨hfile, (throughout_pure _ _).mpr trivial⟩

theorem davShare_throughout {share : LocalShare}
    (hshare : share ∈ view) (henabled : share.enabled) :
    (davShare share).Throughout (answer now) (Allowed now view t) t := by
  unfold davShare
  rw [Prog.throughout_bind, throughout_metadata]
  refine ⟨fun object hobject => ?_, (throughout_pure _ _).mpr trivial⟩
  exact ⟨share, hshare, henabled, object, hobject, List.prefix_rfl⟩

theorem davDocument_throughout (depth : Nat) :
    (davDocument view path depth).Throughout (answer now) (Allowed now view t) t ↔
      (0 < depth → LinksStay view t path) := by
  have hlooks : Looks now view t (Sound view t path) (resolveRequest view path) :=
    resolveRequest_looks path
  unfold davDocument
  rw [hlooks.throughout_bind]
  have hsound := hlooks.result
  generalize ((resolveRequest view path).exec (answer now) t).1 = response at hsound
  cases response with
  | index =>
    refine iff_of_true ?_ fun _ => linksStay_of_none hsound
    rw [Prog.throughout_bind]
    refine ⟨?_, (throughout_pure _ _).mpr trivial⟩
    rw [davShares]
    split
    · rw [throughout_each fun share s => rfl]
      intro share hshare
      obtain ⟨hmem, henabled⟩ := List.mem_filter.mp hshare
      exact davShare_throughout hmem henabled
    · simp
  | notFound | forbidden => simp [linksStay_of_none hsound]
  | listing share relative directory =>
    obtain ⟨hpath, hinside, hfolder⟩ := hsound
    have hread : ∀ object, t.resolve directory = some object → Inside view t object :=
      fun _ hother => allowed_grounded hinside (.inl hfolder) hother
    rw [Prog.throughout_bind, throughout_metadata, and_iff_right hread,
      Files.exec_metadata, Prog.throughout_bind, davEntries_throughout hinside hfolder,
      linksStay_iff hpath hinside hfolder]
    simp
  | file file type =>
    obtain ⟨hpath, hinside, hgrounded⟩ := hsound
    refine iff_of_true ?_ fun _ => linksStay_of_none hpath
    rw [Prog.throughout_bind, throughout_metadata]
    exact ⟨fun _ hother => allowed_grounded hinside hgrounded hother,
      (throughout_pure _ _).mpr trivial⟩

theorem propfindDepth_le_one {depth : Option String} {n : Nat} (h : propfindDepth depth = .ok n) :
    n = 0 ∨ n = 1 := by
  unfold propfindDepth at h
  split at h
  · cases h
    exact .inl rfl
  · cases h
    exact .inr rfl
  · cases h
  · cases h

theorem servePropfind_throughout (depth : Option String) :
    (servePropfind view path depth).Throughout (answer now) (Allowed now view t) t ↔
      (propfindDepth depth = .ok 1 → LinksStay view t path) := by
  unfold servePropfind
  cases hdepth : propfindDepth depth with
  | error reply => simp
  | ok n =>
    rw [Prog.throughout_bind, davDocument_throughout]
    rcases propfindDepth_le_one hdepth with rfl | rfl
    · simp
    · simp

end Answers

/-! ## Requests -/

/-- The request as it is served, with its body; `none` if it is refused before. -/
def received (header : String) (early late : List UInt8) : Option ParsedRequest :=
  (parseRequest header).bind fun request =>
    match request.contentLength with
    | none => some { request with body := early }
    | some needed =>
      if MAX_PUT_BYTES < needed then none
      else some { request with body := (early ++ late).take needed }

/-- No link that the request follows unchecked leads outside: those a listing shows, and the
temporary name of an upload. -/
structure Contained (view : List LocalShare) (t : FileTree) (request : ParsedRequest) : Prop where
  shown : request.method = "GET" ∨ request.method = "HEAD" ∨
    (request.method = "PROPFIND" ∧ propfindDepth request.depth = .ok 1) →
      LinksStay view t request.path
  temporary : request.method = "PUT" → request.body.length ≤ MAX_PUT_BYTES →
    TemporaryStays view t request.path

section Requests

variable {now : Nat} {view : List LocalShare} {t : FileTree}

/-- A method that neither lists nor uploads follows no link unchecked. -/
theorem contained_of_other {request : ParsedRequest}
    (h : request.method ∉ ["GET", "HEAD", "PROPFIND", "PUT"]) :
    Contained view t request := by
  simp only [List.mem_cons, List.not_mem_nil, or_false, not_or] at h
  refine ⟨?_, fun hput => absurd hput h.2.2.2⟩
  rintro (hget | hhead | ⟨hpropfind, -⟩)
  · exact absurd hget h.1
  · exact absurd hhead h.2.1
  · exact absurd hpropfind h.2.2.1

/-- A method that lists is contained exactly if the links it shows are. -/
theorem contained_shown {request : ParsedRequest} (hput : request.method ≠ "PUT") :
    Contained view t request ↔ (request.method = "GET" ∨ request.method = "HEAD" ∨
      (request.method = "PROPFIND" ∧ propfindDepth request.depth = .ok 1) →
        LinksStay view t request.path) :=
  ⟨Contained.shown, fun h => ⟨h, fun hmethod => absurd hmethod hput⟩⟩

theorem serve_throughout (request : ParsedRequest) :
    (serve view request).Throughout (answer now) (Allowed now view t) t ↔
      Contained view t request := by
  unfold serve
  split
  -- One case for each method, in the order of the dispatch.
  · next hmethod => exact iff_of_true (by simp) (contained_of_other (by rw [hmethod]; decide))
  iterate 2
    · next hmethod =>
      rw [serveGet_throughout, contained_shown (by rw [hmethod]; decide)]
      simp [hmethod]
  · next hmethod =>
    rw [servePropfind_throughout, contained_shown (by rw [hmethod]; decide)]
    simp [hmethod]
  · next hmethod =>
    rw [servePut_throughout]
    refine ⟨fun h => ⟨fun hshown => ?_, fun _ => h⟩, fun h => h.temporary hmethod⟩
    simp [hmethod] at hshown
  · next hmethod =>
    exact iff_of_true (serveMkcol_throughout _) (contained_of_other (by rw [hmethod]; decide))
  · next hmethod =>
    exact iff_of_true (serveDelete_throughout _) (contained_of_other (by rw [hmethod]; decide))
  · next hmethod =>
    exact iff_of_true (serveMove_throughout _ _) (contained_of_other (by rw [hmethod]; decide))
  -- The five methods that are refused.
  iterate 5
    · next hmethod => exact iff_of_true (by simp) (contained_of_other (by rw [hmethod]; decide))
  · next hoptions hget hhead hpropfind hput _ _ _ _ _ _ _ _ =>
    refine iff_of_true (by simp) (contained_of_other ?_)
    simp only [List.mem_cons, List.not_mem_nil, or_false, not_or]
    exact ⟨hget, hhead, hpropfind, hput⟩

theorem handleClient_throughout (gate : ShareGate) (peer : Option IpAddr) (shares : List LocalShare)
    (header : String) (early late : List UInt8) :
    (handleClient gate peer shares header early late).Throughout (answer now)
        (Allowed now (gate.view peer shares) t) t ↔
      ∀ request, received header early late = some request →
        Contained (gate.view peer shares) t request := by
  unfold handleClient received
  cases parseRequest header with
  | none => simp
  | some request =>
    dsimp only [Option.bind_some]
    by_cases hempty : (gate.enforce && (gate.view peer shares).isEmpty)
    · rw [if_pos hempty]
      rw [Bool.and_eq_true, List.isEmpty_iff] at hempty
      refine iff_of_true (by simp) fun request' _ => ?_
      rw [hempty.2]
      -- where the peer sees no share there is nothing to follow
      exact ⟨fun _ => linksStay_of_none (by simp [folderAt]), nofun⟩
    · rw [if_neg hempty]
      cases request.contentLength with
      | none => simp [serve_throughout]
      | some needed =>
        by_cases hlarge : MAX_PUT_BYTES < needed
        · simp [hlarge]
        · simp [hlarge, serve_throughout]

/-- A request reads and changes only inside the shares its peer sees, and changes only where
the view is writable, exactly if no link that it follows unchecked leads outside. -/
theorem jailed_iff (now : Nat) (gate : ShareGate) (peer : Option IpAddr) (shares : List LocalShare)
    (header : String) (early late : List UInt8) (t : FileTree) :
    Jailed now gate peer shares header early late t ↔
      ∀ request, received header early late = some request →
        Contained (gate.view peer shares) t request :=
  handleClient_throughout gate peer shares header early late

/-- A shared folder with two links to a file outside: one under a plain name, one under the
temporary name of an upload of `a.txt`. -/
def linkedTree (secret : List UInt8) : FileTree :=
  .dir 0
    [("etc", .dir 0 [("secret", .file secret 0)]),
      ("docs", .dir 0
        [("link", .link "/etc/secret"), ("a.blaktail-partial", .link "../etc/secret")])]

/-- The listing of a folder tells the length of a file outside, and an upload into the folder
overwrites it. -/
theorem links_lead_outside :
    let shares : List LocalShare := [{ label := "docs", path := "/docs", readOnly := false }]
    let propfind := "PROPFIND /docs/ HTTP/1.1\r\nDepth: 1\r\n"
    let put := "PUT /docs/a.txt HTTP/1.1\r\n"
    let run := fun header early t =>
      (handleClient {} none shares header early []).exec (answer 7) t
    (run propfind [] (linkedTree [1])).1.map Reply.body ≠
        (run propfind [] (linkedTree [1, 2])).1.map Reply.body ∧
      ¬ Jailed 7 {} none shares propfind [] [] (linkedTree [1]) ∧
      (((run put [9] (linkedTree [1])).2.get ["etc", "secret"]).bind FileTree.bytes = some [9]) ∧
      ¬ Jailed 7 {} none shares put [9] [] (linkedTree [1]) := by
  decide +kernel

end Requests

end BlakTail.Share
