import BlakTail.Control.Peer
import BlakTail.Foundation.Address
import BlakTail.Foundation.Lines

/-!
# The sshd Policy File

The agent writes one `Match Address` block for every peer whose SSH grant names users,
and sshd reads the file.  `sshd_policy_config` is modelled down to its text, and sshd as
a reader of that text: `AllowUsers` and `DenyUsers` lines count while the last `Match`
line matches the client, they add up, and a login is refused by a matching denied
pattern or by a list of allowed patterns none of which matches.

`sshdLimits_config` says that the reader finds exactly the users of the blocks that
name the client's address.
-/

namespace BlakTail.Access

open Foundation Control Text

/-! ## Writing the file -/

/-- The host address of one route, if it is one. -/
def overlayHostAddr (route : String) : Option String := do
  let (address, length) ← splitOnce '/' route
  let parsed ← IpAddr.parse address
  let length ← parseU8 length
  match parsed with
  | .v4 _ => if length = 32 then some parsed.toText else none
  | .v6 _ => if length = 128 then some parsed.toText else none

/-- The host addresses among the routes of a peer. -/
def overlayHostAddrs (allowedIps : List String) : List String :=
  allowedIps.filterMap overlayHostAddr

/-- Characters of a login after the first. -/
def loginChar (c : Char) : Bool :=
  isAsciiAlphabetic c || isAsciiDigit c || c = '.' || c = '_' || c = '-'

def validLogin (user : String) : Bool :=
  match user.toList with
  | first :: rest =>
    (isAsciiAlphabetic first || first = '_') && byteLen user ≤ 32 && rest.all loginChar
  | [] => false

/-- One block: who it is for, and whom it allows and denies. -/
structure SshdBlock where
  addresses : List String
  allowUsers : List String
  denyUsers : List String
  deriving DecidableEq

/-- The block of a grant.  A login that is not a plain name denies every user. -/
def grantBlock (addresses : List String) (ingress : PeerIngress) : SshdBlock :=
  let allow := ingress.sshUsers.filter fun user => user ≠ "*"
  let namesOk := (allow ++ ingress.sshDenyUsers).all validLogin
  if !namesOk then ⟨addresses, [], ["*"]⟩ else ⟨addresses, allow, ingress.sshDenyUsers⟩

/-- The block of one peer, written where its grant names users and it has addresses. -/
def sshdBlock (peer : Peer) : Option SshdBlock :=
  match peer.ingress with
  | none => none
  | some ingress =>
    if !ingress.sshRestricted then none
    else
      let addresses := overlayHostAddrs peer.allowedIps
      if addresses.isEmpty then none else some (grantBlock addresses ingress)

/-- One line of users, left out when there is none. -/
def userLine (key : String) (users : List String) : List String :=
  if users.isEmpty then [] else ["    " ++ key ++ " " ++ join " " users]

def SshdBlock.lines (block : SshdBlock) : List String :=
  ("Match Address " ++ join "," block.addresses) ::
    (userLine "AllowUsers" block.allowUsers ++ userLine "DenyUsers" block.denyUsers)

/-- The whole file.  It ends with `Match all`, so that nothing after an include is
captured by the last block. -/
def sshdPolicyConfig (peers : List Peer) : String :=
  let blocks := peers.filterMap sshdBlock
  unlines ("# managed by blaktaild" ::
    (blocks.flatMap SshdBlock.lines ++ if blocks.isEmpty then [] else ["Match all"]))

/-! ## Reading the file -/

/-- What sshd knows after some lines: whether the last `Match` line matches the client,
and the users read so far. -/
structure SshdLimits where
  active : Bool := true
  allowUsers : List String := []
  denyUsers : List String := []
  deriving DecidableEq

/-- The criteria of a `Match` line. -/
def matchesClient (client : String) : List String → Bool
  | [kind] => kind = "all"
  | [kind, list] => kind = "Address" && (fields ',' list).contains client
  | _ => false

def readSshdLine (client : String) (limits : SshdLimits) (line : String) : SshdLimits :=
  match words line with
  | [] => limits
  | key :: args =>
    if key = "Match" then { limits with active := matchesClient client args }
    else if key = "AllowUsers" then
      if limits.active then { limits with allowUsers := limits.allowUsers ++ args } else limits
    else if key = "DenyUsers" then
      if limits.active then { limits with denyUsers := limits.denyUsers ++ args } else limits
    else limits

def sshdLimits (config client : String) : SshdLimits :=
  (lines config).foldl (readSshdLine client) {}

/-- sshd patterns: `*` stands for any text and `?` for one character. -/
def matchPattern : List Char → List Char → Bool
  | [], text => text.isEmpty
  | p :: pattern, text =>
    if p = '*' then text.tails.any fun rest => matchPattern pattern rest
    else match text with
      | [] => false
      | c :: rest => (p = '?' || p = c) && matchPattern pattern rest

/-- sshd lets the client log in as `user`. -/
def sshdAccepts (config client user : String) : Bool :=
  let limits := sshdLimits config client
  let named := fun (pattern : String) => matchPattern pattern.toList user.toList
  !limits.denyUsers.any named && (limits.allowUsers.isEmpty || limits.allowUsers.any named)

/-! ## Words of the file -/

/-- A word of the file: it ends at the next blank, comma or line break. -/
def Word (s : String) : Prop := s ≠ "" ∧ ∀ c ∈ [' ', ',', '\n'], c ∉ s.toList

variable {s user : String}

theorem Word.no_blank (h : Word s) : ' ' ∉ s.toList := h.2 _ (by decide)

theorem Word.no_comma (h : Word s) : ',' ∉ s.toList := h.2 _ (by decide)

theorem Word.no_break (h : Word s) : '\n' ∉ s.toList := h.2 _ (by decide)

/-- A text of one kind of character is a word where that kind leaves out separators. -/
theorem word_of_chars {kind : Char → Bool} (hne : s ≠ "") (hchars : ∀ c ∈ s.toList, kind c)
    (hseparators : ([' ', ',', '\n'].all fun c => !kind c)) : Word s := by
  refine ⟨hne, ?_⟩
  intro c hc hmem
  have hkind : kind c = false := by simpa using List.all_eq_true.mp hseparators c hc
  exact Bool.false_ne_true (hkind.symm.trans (hchars c hmem))

/-- A fixed text is a word when no separator is found in it. -/
theorem word_of_contains (hne : s ≠ "")
    (hseparators : ([' ', ',', '\n'].all fun c => !s.toList.contains c)) : Word s :=
  ⟨hne, fun c hc => by simpa using List.all_eq_true.mp hseparators c hc⟩

theorem overlayHostAddr_word {address : String}
    {route : String} (h : overlayHostAddr route = some address) :
    Word address := by
  have hwritten : ∃ parsed : IpAddr, address = parsed.toText := by
    simp only [overlayHostAddr, bind, Option.bind_eq_some_iff] at h
    obtain ⟨parts, -, parsed, -, length, -, h⟩ := h
    refine ⟨parsed, ?_⟩
    cases parsed with
    | v4 bits | v6 bits =>
      exact (Option.ite_none_right_eq_some.mp h).2 |> Option.some.inj |> Eq.symm
  obtain ⟨parsed, rfl⟩ := hwritten
  exact word_of_chars parsed.toText_ne_empty parsed.toText_chars (by decide)

/-- The characters of a login are login characters. -/
theorem validLogin_chars (h : validLogin user) :
    user ≠ "" ∧ ∀ c ∈ user.toList, loginChar c := by
  unfold validLogin at h
  split at h
  · next first rest heq =>
    simp only [Bool.and_eq_true, Bool.or_eq_true, decide_eq_true_eq, List.all_eq_true] at h
    obtain ⟨⟨hfirst, -⟩, hrest⟩ := h
    refine ⟨?_, ?_⟩
    · rintro rfl
      exact absurd heq (List.cons_ne_nil first rest).symm
    · rw [heq]
      intro c hc
      rcases List.mem_cons.mp hc with rfl | hc
      · rcases hfirst with halpha | rfl
        · simp [loginChar, halpha]
        · decide
      · exact hrest c hc
  · cases h

theorem validLogin_word (h : validLogin user) : Word user :=
  word_of_chars (validLogin_chars h).1 (validLogin_chars h).2 (by decide)

/-! ## Patterns -/

/-- A pattern without wildcards matches itself alone. -/
theorem matchPattern_plain {pattern : List Char} (h : ∀ c ∈ pattern, c ≠ '*' ∧ c ≠ '?')
    (text : List Char) : matchPattern pattern text ↔ pattern = text := by
  induction pattern generalizing text with
  | nil => cases text <;> simp [matchPattern]
  | cons p pattern ih =>
    have hp := h p List.mem_cons_self
    have hrest := ih fun c hc => h c (List.mem_cons_of_mem p hc)
    cases text with
    | nil => simp [matchPattern, hp.1]
    | cons c text => simp [matchPattern, hp.1, hp.2, hrest]

theorem matchPattern_login {other : String} (h : validLogin user) :
    matchPattern user.toList other.toList ↔ user = other := by
  rw [matchPattern_plain, String.toList_inj]
  intro c hc
  have hchar := (validLogin_chars h).2 c hc
  refine ⟨?_, ?_⟩ <;>
  · rintro rfl
    exact absurd hchar (by decide)

theorem any_matchPattern {names : List String} (h : ∀ name ∈ names, validLogin name)
    (user : String) :
    (names.any fun pattern => matchPattern pattern.toList user.toList) ↔ user ∈ names := by
  rw [List.any_eq_true]
  constructor
  · rintro ⟨name, hname, hmatch⟩
    exact (matchPattern_login (h name hname)).mp hmatch ▸ hname
  · intro huser
    exact ⟨user, huser, (matchPattern_login (h user huser)).mpr rfl⟩

/-! ## Reading blocks back -/

/-- The users and addresses of a block are words. -/
structure SshdBlock.WellFormed (block : SshdBlock) : Prop where
  addresses_ne : block.addresses ≠ []
  addresses : ∀ address ∈ block.addresses, Word address
  allowUsers : ∀ user ∈ block.allowUsers, Word user
  denyUsers : ∀ user ∈ block.denyUsers, Word user

theorem sshdBlock_eq_some {peer : Peer} {block : SshdBlock} :
    sshdBlock peer = some block ↔ ∃ ingress, peer.ingress = some ingress ∧
      ingress.sshRestricted ∧ overlayHostAddrs peer.allowedIps ≠ [] ∧
      grantBlock (overlayHostAddrs peer.allowedIps) ingress = block := by
  unfold sshdBlock
  cases peer.ingress with
  | none => simp
  | some ingress =>
    cases hrestricted : ingress.sshRestricted <;>
      simp [hrestricted]

theorem grantBlock_addresses (addresses : List String) (ingress : PeerIngress) :
    (grantBlock addresses ingress).addresses = addresses := by
  unfold grantBlock
  dsimp only
  split <;> rfl

theorem grantBlock_words (addresses : List String) (ingress : PeerIngress) :
    (∀ user ∈ (grantBlock addresses ingress).allowUsers, Word user) ∧
      ∀ user ∈ (grantBlock addresses ingress).denyUsers, Word user := by
  unfold grantBlock
  dsimp only
  split
  · have hstar : Word "*" := word_of_contains (by decide) (by decide)
    simpa using hstar
  · next hnames =>
    simp only [Bool.not_eq_true', Bool.not_eq_false, List.all_eq_true, List.mem_append] at hnames
    exact ⟨fun user huser => validLogin_word (hnames user (.inl huser)),
      fun user huser => validLogin_word (hnames user (.inr huser))⟩

theorem sshdBlock_wellFormed {peer : Peer} {block : SshdBlock} (h : sshdBlock peer = some block) :
    block.WellFormed := by
  obtain ⟨ingress, -, -, haddresses, rfl⟩ := sshdBlock_eq_some.mp h
  have hwords := grantBlock_words (overlayHostAddrs peer.allowedIps) ingress
  refine ⟨?_, ?_, hwords.1, hwords.2⟩
  · rwa [grantBlock_addresses]
  · rw [grantBlock_addresses]
    intro address haddress
    obtain ⟨route, -, hroute⟩ := List.mem_filterMap.mp haddress
    exact overlayHostAddr_word hroute

/-- A line of users is read as the users it was written from. -/
theorem words_userLine {key : String} (hkey : Word key) {users : List String}
    (husers : ∀ user ∈ users, Word user) :
    words ("    " ++ key ++ " " ++ join " " users) = key :: users := by
  have hblanks : "    " ++ key ++ " " ++ join " " users =
      " " ++ (" " ++ (" " ++ (" " ++ (key ++ " " ++ join " " users)))) := by
    apply String.toList_inj.mp
    simp
  rw [hblanks, words_blank, words_blank, words_blank, words_blank,
    words_cons hkey.1 hkey.no_blank,
    words_join fun user huser => ⟨(husers user huser).1, (husers user huser).no_blank⟩]

theorem join_no {sep : String} {parts : List String} {c : Char} (hsep : c ∉ sep.toList)
    (hparts : ∀ part ∈ parts, c ∉ part.toList) : c ∉ (join sep parts).toList := by
  intro hc
  rcases mem_join hc with hc | ⟨part, hpart, hc⟩
  · exact hsep hc
  · exact hparts part hpart hc

theorem words_matchLine {addresses : List String} (hne : addresses ≠ [])
    (h : ∀ address ∈ addresses, Word address) :
    words ("Match Address " ++ join "," addresses) =
      ["Match", "Address", join "," addresses] := by
  have hblank : ' ' ∉ (join "," addresses).toList :=
    join_no (by decide) fun address haddress => (h address haddress).no_blank
  have hjoined : join "," addresses ≠ "" := by
    match addresses, hne with
    | [address], _ => exact (h address (List.mem_singleton_self address)).1
    | first :: second :: rest, _ => exact join_ne_empty (by decide) first second rest
  have hsplit : "Match Address " ++ join "," addresses =
      "Match" ++ " " ++ ("Address" ++ " " ++ join "," addresses) := by
    apply String.toList_inj.mp
    simp
  rw [hsplit, words_cons (by decide) (by decide), words_cons (by decide) (by decide),
    words_self hjoined hblank]

section Reader

variable {client : String} {users : List String}

theorem read_matchLine {addresses : List String} (hne : addresses ≠ [])
    (h : ∀ address ∈ addresses, Word address) (limits : SshdLimits) :
    readSshdLine client limits ("Match Address " ++ join "," addresses) =
      { limits with active := addresses.contains client } := by
  have hfields : fields ',' (join "," addresses) = addresses :=
    fields_join hne fun address haddress => (h address haddress).no_comma
  simp [readSshdLine, words_matchLine hne h, matchesClient, hfields]

theorem userLine_cons (key user : String) (users : List String) :
    userLine key (user :: users) = ["    " ++ key ++ " " ++ join " " (user :: users)] := rfl

theorem read_allowLine (h : ∀ user ∈ users, Word user) (limits : SshdLimits) :
    (userLine "AllowUsers" users).foldl (readSshdLine client) limits =
      { limits with
        allowUsers := limits.allowUsers ++ if limits.active then users else [] } := by
  have hkey : Word "AllowUsers" := word_of_contains (by decide) (by decide)
  obtain ⟨active, allowUsers, denyUsers⟩ := limits
  cases users with
  | nil => simp [userLine]
  | cons user users =>
    rw [userLine_cons, List.foldl_cons, List.foldl_nil, readSshdLine, words_userLine hkey h]
    cases active <;> simp

theorem read_denyLine (h : ∀ user ∈ users, Word user) (limits : SshdLimits) :
    (userLine "DenyUsers" users).foldl (readSshdLine client) limits =
      { limits with
        denyUsers := limits.denyUsers ++ if limits.active then users else [] } := by
  have hkey : Word "DenyUsers" := word_of_contains (by decide) (by decide)
  obtain ⟨active, allowUsers, denyUsers⟩ := limits
  cases users with
  | nil => simp [userLine]
  | cons user users =>
    rw [userLine_cons, List.foldl_cons, List.foldl_nil, readSshdLine, words_userLine hkey h]
    cases active <;> simp

/-- A block adds its users for the clients it names. -/
theorem read_block {block : SshdBlock} (h : block.WellFormed) (limits : SshdLimits) :
    block.lines.foldl (readSshdLine client) limits =
      { active := block.addresses.contains client
        allowUsers := limits.allowUsers ++
          if block.addresses.contains client then block.allowUsers else []
        denyUsers := limits.denyUsers ++
          if block.addresses.contains client then block.denyUsers else [] } := by
  unfold SshdBlock.lines
  rw [List.foldl_cons, List.foldl_append, read_matchLine h.addresses_ne h.addresses,
    read_allowLine h.allowUsers, read_denyLine h.denyUsers]

/-- The users of the blocks that name the client, in order. -/
def named (client : String) (users : SshdBlock → List String) (blocks : List SshdBlock) :
    List String :=
  (blocks.filter fun block => block.addresses.contains client).flatMap users

variable (client)

theorem read_blocks {blocks : List SshdBlock} (h : ∀ block ∈ blocks, block.WellFormed)
    (limits : SshdLimits) :
    let read := (blocks.flatMap SshdBlock.lines).foldl (readSshdLine client) limits
    read.allowUsers = limits.allowUsers ++ named client SshdBlock.allowUsers blocks ∧
      read.denyUsers = limits.denyUsers ++ named client SshdBlock.denyUsers blocks := by
  induction blocks generalizing limits with
  | nil => simp [named]
  | cons block blocks ih =>
    have hrest := ih (fun b hb => h b (List.mem_cons_of_mem block hb))
      (block.lines.foldl (readSshdLine client) limits)
    rw [List.flatMap_cons, List.foldl_append]
    refine ⟨hrest.1.trans ?_, hrest.2.trans ?_⟩ <;>
    · rw [read_block (h block List.mem_cons_self)]
      by_cases hnamed : client ∈ block.addresses <;> simp [named, hnamed]

theorem userLine_no_break {key : String} (hkey : Word key) (h : ∀ user ∈ users, Word user) :
    ∀ line ∈ userLine key users, '\n' ∉ line.toList := by
  unfold userLine
  split
  · simp
  · have hjoined : '\n' ∉ (join " " users).toList :=
      join_no (by decide) fun user huser => (h user huser).no_break
    simp [hkey.no_break, hjoined]

theorem lines_no_break {block : SshdBlock} (h : block.WellFormed) :
    ∀ line ∈ block.lines, '\n' ∉ line.toList := by
  intro line hline
  rcases List.mem_cons.mp hline with rfl | hline
  · have hjoined : '\n' ∉ (join "," block.addresses).toList :=
      join_no (by decide) fun address haddress => (h.addresses address haddress).no_break
    simp [hjoined]
  · rcases List.mem_append.mp hline with hline | hline
    · exact userLine_no_break (word_of_contains (by decide) (by decide)) h.allowUsers line hline
    · exact userLine_no_break (word_of_contains (by decide) (by decide)) h.denyUsers line hline

/-- The last line of the file changes no list. -/
theorem read_last (limits : SshdLimits) (empty : Bool) :
    let read := ((if empty then [] else ["Match all"]) ++ [""]).foldl (readSshdLine client) limits
    read.allowUsers = limits.allowUsers ∧ read.denyUsers = limits.denyUsers := by
  have hall : words "Match all" = ["Match", "all"] := by decide
  have hnone : words "" = [] := by decide
  cases empty <;> simp [readSshdLine, hall, hnone]

/-- The reader finds the users of the blocks that name the client, and no others. -/
theorem sshdLimits_config (peers : List Peer) :
    let limits := sshdLimits (sshdPolicyConfig peers) client
    limits.allowUsers = named client SshdBlock.allowUsers (peers.filterMap sshdBlock) ∧
      limits.denyUsers = named client SshdBlock.denyUsers (peers.filterMap sshdBlock) := by
  have hblocks : ∀ block ∈ peers.filterMap sshdBlock, block.WellFormed := by
    intro block hblock
    obtain ⟨peer, -, hpeer⟩ := List.mem_filterMap.mp hblock
    exact sshdBlock_wellFormed hpeer
  have hhead : readSshdLine client {} "# managed by blaktaild" = {} := by
    have hwords : words "# managed by blaktaild" = ["#", "managed", "by", "blaktaild"] := by
      decide
    simp [readSshdLine, hwords]
  have hread := read_blocks client hblocks {}
  have hlast := read_last client
    (((peers.filterMap sshdBlock).flatMap SshdBlock.lines).foldl (readSshdLine client) {})
    (peers.filterMap sshdBlock).isEmpty
  unfold sshdLimits sshdPolicyConfig
  -- Reading the text back gives the lines that were written.
  rw [lines_unlines, List.cons_append, List.foldl_cons, List.append_assoc, List.foldl_append]
  · exact ⟨hlast.1.trans hread.1, hlast.2.trans hread.2⟩
  · -- no line holds a line break
    intro line hline
    rcases List.mem_cons.mp hline with rfl | hline
    · decide
    · rcases List.mem_append.mp hline with hline | hline
      · obtain ⟨block, hblock, hline⟩ := List.mem_flatMap.mp hline
        exact lines_no_break (hblocks block hblock) line hline
      · split at hline
        · cases hline
        · rw [List.mem_singleton.mp hline]
          decide

end Reader

/-! ## Who gets in -/

section Accepts

variable {peers : List Peer} {peer : Peer} {ingress : PeerIngress} {client : String}

/-- The logins a grant names, without `*`. -/
def allowedLogins (ingress : PeerIngress) : List String :=
  ingress.sshUsers.filter fun user => user ≠ "*"

/-- The client's address belongs to one row of the peer map. -/
structure ClientOf (peers : List Peer) (peer : Peer) (client : String) : Prop where
  mem : peer ∈ peers
  address : client ∈ overlayHostAddrs peer.allowedIps
  only : ∀ other ∈ peers, client ∈ overlayHostAddrs other.allowedIps → other = peer

/-- For such a client the file holds the users of that row's block. -/
theorem mem_named (hclient : ClientOf peers peer client) (hingress : peer.ingress = some ingress)
    (users : SshdBlock → List String) (name : String) :
    name ∈ named client users (peers.filterMap sshdBlock) ↔ ingress.sshRestricted ∧
      name ∈ users (grantBlock (overlayHostAddrs peer.allowedIps) ingress) := by
  simp only [named, List.mem_flatMap, List.mem_filter, List.mem_filterMap, List.contains_iff_mem]
  constructor
  · rintro ⟨block, ⟨⟨other, hother, hblock⟩, hnamed⟩, hname⟩
    obtain ⟨grant, hgrant, hrestricted, -, rfl⟩ := sshdBlock_eq_some.mp hblock
    rw [grantBlock_addresses] at hnamed
    -- The address is in one row only, so the block is that row's.
    obtain rfl := hclient.only other hother hnamed
    cases hgrant.symm.trans hingress
    exact ⟨hrestricted, hname⟩
  · rintro ⟨hrestricted, hname⟩
    have haddresses := List.ne_nil_of_mem hclient.address
    refine ⟨_, ⟨⟨peer, hclient.mem, sshdBlock_eq_some.mpr
      ⟨ingress, hingress, hrestricted, haddresses, rfl⟩⟩, ?_⟩, hname⟩
    rw [grantBlock_addresses]
    exact hclient.address

theorem grantBlock_plain (addresses : List String)
    (hnames : ∀ user ∈ allowedLogins ingress ++ ingress.sshDenyUsers, validLogin user) :
    grantBlock addresses ingress = ⟨addresses, allowedLogins ingress, ingress.sshDenyUsers⟩ := by
  have hall := List.all_eq_true.mpr hnames
  unfold grantBlock
  dsimp only
  unfold allowedLogins at hall
  rw [hall]
  rfl

/-- sshd lets a client in as `user` where its row's grant names plain logins and either
limits nobody or allows this one. -/
theorem sshdAccepts_iff (hclient : ClientOf peers peer client)
    (hingress : peer.ingress = some ingress)
    (hnames : ∀ user ∈ allowedLogins ingress ++ ingress.sshDenyUsers, validLogin user)
    (user : String) :
    sshdAccepts (sshdPolicyConfig peers) client user ↔
      (ingress.sshRestricted → user ∉ ingress.sshDenyUsers ∧
        (allowedLogins ingress = [] ∨ user ∈ allowedLogins ingress)) := by
  obtain ⟨hallow, hdeny⟩ := sshdLimits_config client peers
  have hmem := mem_named hclient hingress
  rw [grantBlock_plain _ hnames] at hmem
  have hallowed := hmem SshdBlock.allowUsers
  have hdenied := hmem SshdBlock.denyUsers
  rw [← hallow] at hallowed
  rw [← hdeny] at hdenied
  -- Names in the file are plain logins, so as patterns they match only themselves.
  have hanyAllowed := any_matchPattern (fun name hname => hnames name
    (List.mem_append_left _ ((hallowed name).mp hname).2)) user
  have hanyDenied := any_matchPattern (fun name hname => hnames name
    (List.mem_append_right _ ((hdenied name).mp hname).2)) user
  unfold sshdAccepts
  simp only [Bool.and_eq_true, Bool.or_eq_true, Bool.not_eq_true', ← Bool.not_eq_true,
    List.isEmpty_iff, hanyAllowed, hanyDenied, hallowed, hdenied, List.eq_nil_iff_forall_not_mem]
  by_cases hrestricted : ingress.sshRestricted = true <;> simp [hrestricted]

end Accepts

end BlakTail.Access
