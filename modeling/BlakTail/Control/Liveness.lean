import BlakTail.Control.Directory

/-!
# When a Device Was Last Seen

`last_seen_at` is the evidence behind three tests: whether a device is online, whether it is
preferred as a router, and whether an ephemeral device has been quiet for too long.  A peer fetch
and an update poll write the clock.  A registration does not: its statement writes one parameter
to two columns, and so the time the credential expires to `last_seen_at` as well.
-/

namespace BlakTail.Control

open Foundation

/-- A request of a device that wrote `last_seen_at`. -/
inductive Contact where
  | registered (time ttl : Int)
  | polled (time : Int)
  deriving DecidableEq

namespace Contact

def time : Contact → Int
  | registered time _ | polled time => time

/-- What the request wrote to `last_seen_at`. -/
def wrote : Contact → Int
  | registered time ttl => time + ttl
  | polled time => time

end Contact

/-- The clock, the rows, and the requests that were served, the newest first. -/
structure Roll where
  now : Int
  directory : Directory := {}
  contacts : List (Uuid × Contact) := []

inductive Visit where
  | tick (seconds : Nat)
  | register (row : NodeRow) (ttl : Int)
  | reauth (node : Uuid) (ttl : Int)
  | fetchPeers (node : Uuid)
  | pollUpdates (node : Uuid)

namespace Roll

variable (s : Roll)

/-- `register_node`: `$14` stands for both columns. -/
def register (row : NodeRow) (ttl : Int) : Roll :=
  if s.directory.nodes.any fun old => old.peer.id = row.peer.id then s
  else
    let credentialExpiresAt := s.now + ttl
    let row := { row with
      revoked := false
      deleted := false
      suspended := false
      credentialExpiresAt := credentialExpiresAt
      lastSeenAt := some credentialExpiresAt }
    { s with
      directory.nodes := s.directory.nodes ++ [row]
      contacts := (row.peer.id, .registered s.now ttl) :: s.contacts }

/-- `reauth_node`: a new credential for a device that is neither revoked nor suspended. -/
def reauth (node : Uuid) (ttl : Int) : Roll :=
  { s with directory := s.directory.updateNodes fun row =>
      if row.peer.id = node && !row.revoked && !row.suspended then
        { row with credentialExpiresAt := s.now + ttl }
      else row }

/-- The part that a peer fetch and an update poll have in common. -/
def seen (node : Uuid) : Roll :=
  { s with
    directory := s.directory.touch node s.now
    contacts := (node, .polled s.now) :: s.contacts }

def step : Visit → Roll
  | .tick seconds => { s with now := s.now + seconds }
  | .register row ttl => s.register row ttl
  | .reauth node ttl => s.reauth node ttl
  | .fetchPeers node =>
    if s.directory.accepts node s.now then
      { s.seen node with directory := (s.seen node).directory.expireEphemeralNodes s.now }
    else s
  | .pollUpdates node => if s.directory.accepts node s.now then s.seen node else s

/-- Every row has what the newest request of its device wrote. -/
def Witnessed : Prop :=
  ∀ row ∈ s.directory.nodes, ∃ contact, s.contacts.lookup row.peer.id = some contact ∧
    row.lastSeenAt = some contact.wrote ∧ contact.time ≤ s.now

variable {s : Roll}

/-- A change of rows that leaves ids and times alone. -/
theorem Witnessed.updateNodes (h : s.Witnessed) {f : NodeRow → NodeRow}
    (hid : ∀ row, (f row).peer.id = row.peer.id)
    (hseen : ∀ row, (f row).lastSeenAt = row.lastSeenAt) :
    Witnessed { s with directory := s.directory.updateNodes f } := by
  intro row hrow
  obtain ⟨old, hold, rfl⟩ := List.mem_map.mp hrow
  rw [hid, hseen]
  exact h old hold

theorem Witnessed.register (h : s.Witnessed) (row : NodeRow) (ttl : Int) :
    (s.register row ttl).Witnessed := by
  unfold Roll.register
  split
  · exact h
  · next hnew =>
    intro other hother
    rcases List.mem_append.mp hother with hold | hadded
    · -- the id is new, so the newest request of another row is the one it was
      obtain ⟨contact, hcontact, hwrote⟩ := h other hold
      have hne : (other.peer.id == row.peer.id) = false := by
        simpa using fun heq => hnew (List.any_eq_true.mpr ⟨other, hold, by simpa using heq⟩)
      exact ⟨contact, by simpa [List.lookup_cons, hne] using hcontact, hwrote⟩
    · cases List.mem_singleton.mp hadded
      exact ⟨.registered s.now ttl, by simp, rfl, le_rfl⟩

theorem Witnessed.seen (h : s.Witnessed) (node : Uuid) : (s.seen node).Witnessed := by
  intro row hrow
  obtain ⟨old, hold, rfl⟩ := List.mem_map.mp hrow
  by_cases hnode : old.peer.id = node
  · rw [if_pos hnode]
    exact ⟨.polled s.now, by simp [Roll.seen, hnode], rfl, le_rfl⟩
  · rw [if_neg hnode]
    obtain ⟨contact, hcontact, hwrote⟩ := h old hold
    have hne : (old.peer.id == node) = false := by simpa using hnode
    exact ⟨contact, by simpa [Roll.seen, List.lookup_cons, hne] using hcontact, hwrote⟩

/-- Every visit keeps the rows with what the newest requests wrote. -/
theorem Witnessed.step (s : Roll) (visit : Visit) (h : s.Witnessed) : (s.step visit).Witnessed := by
  cases visit with
  | tick seconds =>
    intro row hrow
    obtain ⟨contact, hcontact, hwrote, htime⟩ := h row hrow
    exact ⟨contact, hcontact, hwrote, htime.trans (Int.le_add_of_nonneg_right (by simp))⟩
  | register row ttl => exact h.register row ttl
  | reauth node ttl =>
    apply h.updateNodes
    · intro row
      split <;> rfl
    · intro row
      split <;> rfl
  | fetchPeers node =>
    dsimp only [Roll.step, Directory.expireEphemeralNodes]
    split
    · apply (h.seen node).updateNodes
      · intro row
        split <;> rfl
      · intro row
        split <;> rfl
    · exact h
  | pollUpdates node =>
    dsimp only [Roll.step]
    split
    · exact h.seen node
    · exact h

end Roll

def NodeRow.online (row : NodeRow) (now : Int) : Bool :=
  row.lastSeenAt.any fun seen => now - seen ≤ NODE_ONLINE_SECS

/-- In every run, a device was not seen in the future exactly if it has fetched peers or polled
since its registration, or the credential of its registration has expired.  It is online exactly if
the newest request wrote a time within the last 90 seconds or ahead of the clock, and an ephemeral
device is removed by the next sweep exactly if that time is more than a day ago; a fetch and a poll
write the clock, a registration the time its credential expires. -/
theorem last_seen_iff (start : Int) (visits : List Visit) :
    let s := run Roll.step { now := start } visits
    ∀ row ∈ s.directory.nodes, ∃ contact, s.contacts.lookup row.peer.id = some contact ∧
      contact.time ≤ s.now ∧
      ((∀ seen ∈ row.lastSeenAt, seen ≤ s.now) ↔
        ∀ time ttl, contact = .registered time ttl → time + ttl ≤ s.now) ∧
      ∀ time, (contact = .polled time ∨
          ∃ start ttl, contact = .registered start ttl ∧ time = start + ttl) →
        (row.online s.now ↔ s.now - time ≤ NODE_ONLINE_SECS) ∧
        (Directory.stale s.now row ↔ row.ephemeral ∧ row.deleted = false ∧
          EPHEMERAL_OFFLINE_SECS < s.now - time) := by
  intro s row hrow
  have hwitnessed : s.Witnessed :=
    run_invariant Roll.Witnessed.step visits fun row hrow => by cases hrow
  obtain ⟨contact, hcontact, hwrote, htime⟩ := hwitnessed row hrow
  refine ⟨contact, hcontact, htime, ?_, ?_⟩
  · rw [hwrote]
    cases contact with
    | registered time ttl => simp [Contact.wrote]
    | polled time => simpa [Contact.wrote, Contact.time] using htime
  · intro time hcase
    have heq : contact.wrote = time := by
      rcases hcase with rfl | ⟨start, ttl, rfl, rfl⟩ <;> rfl
    rw [heq] at hwrote
    refine ⟨by simp [NodeRow.online, hwrote], ?_⟩
    simp only [Directory.stale, hwrote, Option.all_some, Bool.and_eq_true,
      Bool.not_eq_true', decide_eq_true_eq, and_assoc]
    have hlate : time < s.now - EPHEMERAL_OFFLINE_SECS ↔ EPHEMERAL_OFFLINE_SECS < s.now - time := by
      omega
    rw [hlate]

def guest (id : Uuid) : NodeRow :=
  { peer := { id := id, wgPublicKey := "key", allowedIps := [] }
    credentialExpiresAt := 0
    ephemeral := true }

/-- An ephemeral device registers for thirty days and is not heard of again.  Two days later another
device fetches its peers: the first counts as seen twenty-eight days ahead, is online, and stays. -/
theorem registered_seen_ahead :
    let s := run Roll.step { now := 0 }
      [.register (guest 1) 2592000, .tick 172800, .register (guest 2) 2592000, .fetchPeers 2]
    s.now = 172800 ∧ s.contacts.lookup 1 = some (.registered 0 2592000) ∧
      ∃ row ∈ s.directory.nodes, row.peer.id = 1 ∧ row.lastSeenAt = some 2592000 ∧
        row.online s.now ∧ row.deleted = false := by
  decide +kernel

end BlakTail.Control
