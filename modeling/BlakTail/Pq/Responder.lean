import Mathlib
import BlakTail.Foundation.Run
import BlakTail.Pq.Exchange

/-!
# Concurrent Exchanges at the Responder

`accept_one` for one pair, with any number of exchanges running at once.  An exchange
reads the pair's last epoch when it is accepted, answers an `init` against that value,
and much later writes its key to the device and records it.  The write and the record
are two steps: the install closure takes the lock only for the second.

The model keeps what the source does not: `written`, the keys written so far,
newest first, and for every exchange `overtaken`, the epochs of keys it could not
see in the last epoch it read.  `NotOvertaken` is the condition under which written
epochs increase.

Of a track only the last epoch and the installed key are modelled; times and error texts
are for reports.  `PqRuntime::manage`, which forgets a pair or installs its key again, is outside.
`track.installed` may lag the device: between the write and the record, and after a revert the
device refused.
-/

namespace BlakTail.Pq

open Foundation

/-- A key and the epoch of its exchange. -/
structure Installed where
  epoch : Nat
  psk : Psk
  deriving DecidableEq

/-- What the agent remembers of a pair. -/
structure Track where
  lastEpoch : Nat := 0
  installed : Option Installed := none
  deriving DecidableEq

inductive Phase where
  | idle
  | connected
  | pending (half : Responder)
  | keyed (key : Installed)
  | closed
  deriving DecidableEq

structure Exchange where
  phase : Phase := .idle
  lastEpoch : Nat := 0
  overtaken : List Nat := []
  deriving DecidableEq

/-- The exchange still has its key to write. -/
def Exchange.isOpen (exchange : Exchange) : Bool :=
  match exchange.phase with
  | .connected | .pending _ => true
  | _ => false

/-- The responder's side of one pair. -/
structure Host where
  own : Key
  peer : Key
  track : Track := {}
  device : Option Installed := none
  exchanges : Nat → Exchange := fun _ => {}
  written : List Installed := []
  unrecorded : List Nat := []

/-- What can happen next.  A message is whatever arrives; `deviceOk` says whether the
device takes the key. -/
inductive Activity where
  | connect (i : Nat)
  | init (i : Nat) (message : Message) (secret coins : Nat)
  | confirm (i : Nat) (message : Message) (deviceOk : Bool)
  | record (i : Nat)
  | abort (i : Nat)
  | revert (deviceOk : Bool)

/-- The reason a refused `init` is answered with. -/
def refusal : PqError → String
  | .staleEpoch _ _ => "stale_epoch"
  | .wrongPeer => "wrong_peer"
  | .wrongRole => "wrong_role"
  | .version => "version"
  | _ => "invalid"

namespace Host

variable (host : Host)

def set (i : Nat) (exchange : Exchange) : Host :=
  { host with exchanges := Function.update host.exchanges i exchange }

def move (i : Nat) (phase : Phase) : Host := host.set i { host.exchanges i with phase := phase }

/-- Accept a connection: the last epoch is read here and nowhere else. -/
def connect (i : Nat) : Host :=
  match (host.exchanges i).phase with
  | .idle => host.set i ⟨.connected, host.track.lastEpoch, host.unrecorded⟩
  | _ => host

/-- Answer the first message, with what is sent back. -/
def answer (i : Nat) (message : Message) (secret coins : Nat) : Host × List Message :=
  let exchange := host.exchanges i
  match exchange.phase with
  | .connected =>
    match respond host.own host.peer (.secret (staticAgreement host.own host.peer))
        exchange.lastEpoch message secret coins with
    | .ok (half, reply) => (host.move i (.pending half), [reply])
    | .error error =>
      (host.move i .closed, [.reject VERSION (refusal error) exchange.lastEpoch])
  | _ => (host, [])

/-- Write a key to the device; every other exchange is overtaken by it. -/
def write (i : Nat) (key : Installed) : Host :=
  { host with
    device := some key
    exchanges := Function.update
      (fun j => { host.exchanges j with overtaken := key.epoch :: (host.exchanges j).overtaken })
      i { host.exchanges i with phase := .keyed key }
    written := key :: host.written
    unrecorded := key.epoch :: host.unrecorded }

/-- Check the confirmation and write the key, with what is sent back. -/
def accept (i : Nat) (message : Message) (deviceOk : Bool) : Host × List Message :=
  let exchange := host.exchanges i
  match exchange.phase with
  | .pending half =>
    match half.finish message with
    | .ok psk =>
      if deviceOk then (host.write i ⟨half.epoch, psk⟩, [])
      else (host.move i .closed, [.reject VERSION "install_failed" exchange.lastEpoch])
    | .error _ => (host.move i .closed, [])
  | _ => (host, [])

/-- Record the key just written and acknowledge it. -/
def record (i : Nat) : Host × List Message :=
  match (host.exchanges i).phase with
  | .keyed key =>
    ({ host.move i .closed with
        track := ⟨max host.track.lastEpoch key.epoch, some key⟩
        unrecorded := host.unrecorded.erase key.epoch },
      [.ack VERSION key.epoch])
  | _ => (host, [])

/-- A broken stream or a time-out.  Nothing waits between the write and the record. -/
def abort (i : Nat) : Host := if (host.exchanges i).isOpen then host.move i .closed else host

/-- A pair that stopped handshaking loses its key. -/
def revert (deviceOk : Bool) : Host :=
  { host with
    device := if deviceOk then none else host.device
    track := { host.track with installed := none } }

def step (host : Host) : Activity → Host
  | .connect i => host.connect i
  | .init i message secret coins => (host.answer i message secret coins).1
  | .confirm i message deviceOk => (host.accept i message deviceOk).1
  | .record i => (host.record i).1
  | .abort i => host.abort i
  | .revert deviceOk => host.revert deviceOk

end Host

/-! ## Phases after a step -/

theorem Host.move_phase (host : Host) (i j : Nat) (phase : Phase) :
    ((host.move i phase).exchanges j).phase =
      if j = i then phase else (host.exchanges j).phase := by
  by_cases hj : j = i
  · subst hj
    simp [move, set]
  · simp [move, set, hj]

theorem Host.write_phase (host : Host) (i j : Nat) (key : Installed) :
    ((host.write i key).exchanges j).phase =
      if j = i then .keyed key else (host.exchanges j).phase := by
  by_cases hj : j = i
  · subst hj
    simp [write]
  · simp [write, hj]

/-! ## What an exchange knows -/

/-- While an exchange is open, every key written is covered by the last epoch it read or
has overtaken it, and it answers newer epochs only. -/
structure Exchange.Aware (written : List Installed) (exchange : Exchange) : Prop where
  seen : exchange.isOpen →
    ∀ key ∈ written, key.epoch ≤ exchange.lastEpoch ∨ key.epoch ∈ exchange.overtaken
  newer : ∀ half, exchange.phase = .pending half → exchange.lastEpoch < half.epoch

/-- An exchange that has nothing left to write knows enough. -/
theorem Exchange.aware_of_not_open {written : List Installed} {exchange : Exchange}
    (h : exchange.isOpen = false) : exchange.Aware written where
  seen hopen := absurd hopen (by simp [h])
  newer half hphase := by simp [isOpen, hphase] at h

/-- The epochs of the keys written strictly increase. -/
def Increasing (written : List Installed) : Prop :=
  written.Pairwise fun newer older => older.epoch < newer.epoch

structure Host.Ordered (host : Host) : Prop where
  written : Increasing host.written
  device : ∀ current, host.device = some current → ∀ key ∈ host.written, key.epoch ≤ current.epoch
  recorded : ∀ key ∈ host.written,
    key.epoch ≤ host.track.lastEpoch ∨ key.epoch ∈ host.unrecorded
  aware : ∀ i, (host.exchanges i).Aware host.written

namespace Host

variable {host : Host}

section

variable (h : host.Ordered)
include h

theorem set_ordered {i : Nat} {exchange : Exchange} (haware : exchange.Aware host.written) :
    (host.set i exchange).Ordered where
  written := h.written
  device := h.device
  recorded := h.recorded
  aware j := by
    by_cases hj : j = i
    · subst hj
      simpa [set] using haware
    · simpa [set, hj] using h.aware j

theorem close_ordered (i : Nat) : (host.move i .closed).Ordered :=
  set_ordered h (Exchange.aware_of_not_open rfl)

theorem connect_ordered (i : Nat) : (host.connect i).Ordered := by
  unfold connect
  split
  · refine set_ordered h ⟨fun _ => h.recorded, ?_⟩
    intro half hphase
    exact nomatch hphase
  · exact h

theorem answer_ordered (i : Nat) (message : Message) (secret coins : Nat) :
    (host.answer i message secret coins).1.Ordered := by
  unfold answer
  dsimp only
  split
  · next hphase =>
    split
    · next half reply hok =>
      obtain ⟨epoch, x, ek, dh, -, -, hnewer, -, hhalf, -⟩ := respond_ok hok
      refine set_ordered h ⟨fun _ => (h.aware i).seen (by simp [Exchange.isOpen, hphase]), ?_⟩
      intro other hother
      cases hother
      rw [hhalf]
      exact hnewer
    · exact close_ordered h i
  · exact h

/-- A key newer than every key written keeps the order. -/
theorem write_ordered (i : Nat) {key : Installed}
    (hnewest : ∀ older ∈ host.written, older.epoch < key.epoch) : (host.write i key).Ordered where
  written := List.pairwise_cons.mpr ⟨hnewest, h.written⟩
  device := by
    intro current hcurrent older holder
    cases hcurrent
    rcases List.mem_cons.mp holder with rfl | holder
    · exact Nat.le_refl _
    · exact Nat.le_of_lt (hnewest older holder)
  recorded := by
    intro older holder
    rcases List.mem_cons.mp holder with rfl | holder
    · exact .inr List.mem_cons_self
    · exact (h.recorded older holder).imp_right (List.mem_cons_of_mem _)
  aware j := by
    by_cases hj : j = i
    · subst hj
      -- The writer itself is past its checks and needs to see nothing more.
      have hkeyed : ((host.write j key).exchanges j).isOpen = false := by
        simp [write, Exchange.isOpen]
      exact Exchange.aware_of_not_open hkeyed
    · -- Every other open exchange is overtaken by this key.
      have hother : (host.write i key).exchanges j =
          { host.exchanges j with overtaken := key.epoch :: (host.exchanges j).overtaken } := by
        simp [write, hj]
      rw [hother]
      refine ⟨fun hopen older holder => ?_, (h.aware j).newer⟩
      rcases List.mem_cons.mp holder with rfl | holder
      · exact .inr List.mem_cons_self
      · exact ((h.aware j).seen hopen older holder).imp_right (List.mem_cons_of_mem _)

end

/-- The exchange about to write its key has been overtaken by older keys only. -/
def NotOvertaken (host : Host) : Activity → Prop
  | .confirm i message true => ∀ half psk, (host.exchanges i).phase = .pending half →
      half.finish message = .ok psk → ∀ epoch ∈ (host.exchanges i).overtaken, epoch < half.epoch
  | _ => True

theorem accept_ordered (h : host.Ordered) {i : Nat} {message : Message} {deviceOk : Bool}
    (hfresh : host.NotOvertaken (.confirm i message deviceOk)) :
    (host.accept i message deviceOk).1.Ordered := by
  unfold accept
  dsimp only
  split
  · next half hphase =>
    split
    · next psk hfinish =>
      cases deviceOk with
      | false => exact close_ordered h i
      | true =>
        refine write_ordered h i fun older holder => ?_
        have hopen : (host.exchanges i).isOpen := by simp [Exchange.isOpen, hphase]
        -- A key written is either in the last epoch this exchange read, or overtook it.
        rcases (h.aware i).seen hopen older holder with hread | hovertaken
        · exact Nat.lt_of_le_of_lt hread ((h.aware i).newer half hphase)
        · exact hfresh half psk hphase hfinish _ hovertaken
    · exact close_ordered h i
  · exact h

theorem record_ordered (h : host.Ordered) (i : Nat) : (host.record i).1.Ordered := by
  unfold record
  split
  · next key hphase =>
    refine ⟨h.written, h.device, fun older holder => ?_, (close_ordered h i).aware⟩
    show older.epoch ≤ max host.track.lastEpoch key.epoch ∨
      older.epoch ∈ host.unrecorded.erase key.epoch
    rcases h.recorded older holder with hrecorded | hunrecorded
    · exact .inl (Nat.le_trans hrecorded (Nat.le_max_left _ _))
    · by_cases hsame : older.epoch = key.epoch
      · exact .inl (hsame ▸ Nat.le_max_right _ _)
      · exact .inr ((List.mem_erase_of_ne hsame).mpr hunrecorded)
  · exact h

theorem revert_ordered (h : host.Ordered) (deviceOk : Bool) : (host.revert deviceOk).Ordered where
  written := h.written
  device := by
    intro current hcurrent
    cases deviceOk with
    | true => exact nomatch hcurrent
    | false => exact h.device current hcurrent
  recorded := h.recorded
  aware := h.aware

/-- One step keeps the order, if the exchange that writes was not overtaken. -/
theorem step_ordered (host : Host) (activity : Activity) (hfresh : host.NotOvertaken activity)
    (h : host.Ordered) : (host.step activity).Ordered := by
  cases activity with
  | connect i => exact connect_ordered h i
  | init i message secret coins => exact answer_ordered h i message secret coins
  | confirm i message deviceOk => exact accept_ordered h hfresh
  | record i => exact record_ordered h i
  | abort i =>
    show (host.abort i).Ordered
    unfold abort
    split
    · exact close_ordered h i
    · exact h
  | revert deviceOk => exact revert_ordered h deviceOk

/-- The responder before any exchange, with what it remembers of the pair. -/
def start (own peer : Key) (track : Track) : Host := { own, peer, track }

theorem start_ordered (own peer : Key) (track : Track) : (start own peer track).Ordered where
  written := List.Pairwise.nil
  device _ hcurrent := nomatch hcurrent
  recorded _ hkey := nomatch hkey
  aware _ := Exchange.aware_of_not_open rfl

/-- In every run in which no exchange writes its key after being overtaken by an equal or
newer epoch, the epochs written strictly increase, and the key in the device is the one
of the highest. -/
theorem written_increasing (own peer : Key) (track : Track) (activities : List Activity)
    (hfresh : Along Host.step NotOvertaken (start own peer track) activities) :
    let host := run Host.step (start own peer track) activities
    Increasing host.written ∧
      ∀ current, host.device = some current →
        ∀ key ∈ host.written, key.epoch ≤ current.epoch := by
  have hordered := run_invariant_along step_ordered hfresh (start_ordered own peer track)
  exact ⟨hordered.written, hordered.device⟩

/-- The initiator's two messages of one exchange between the devices with keys 1 and 2,
with the secrets of both sides. -/
def exchanged (epoch x25519 dk secret coins : Nat) : Option (Message × Message) := do
  let agreed : Value := .secret (staticAgreement 1 2)
  let (half, init) ← (initiate 1 2 agreed epoch x25519 dk).toOption
  let (_, response) ← (respond 2 1 agreed 0 init secret coins).toOption
  let (_, confirm) ← (half.finish response).toOption
  return (init, confirm)

/-- What arrives of one exchange, with `between` happening while it waits. -/
def arrives (i epoch seed : Nat) (between : List Activity) : List Activity :=
  match exchanged epoch seed seed seed seed with
  | some (init, confirm) =>
    [.connect i, .init i init seed seed] ++ between ++ [.confirm i confirm true, .record i]
  | none => []

/-- A rotation during which the exchange of the epoch before completes. -/
theorem written_increasing_rotation :
    let host := run Host.step (start 2 1 {}) (arrives 0 2 10 (arrives 1 1 20 []))
    host.written.map Installed.epoch = [2, 1] ∧ Increasing host.written := by
  refine ⟨by decide, (written_increasing 2 1 {} _ ?_).1⟩
  refine ⟨trivial, trivial, trivial, trivial, ?_, trivial, ?_, trivial, trivial⟩
  · intro half psk _ _ epoch hepoch
    cases hepoch
  · intro half psk hhalf _ epoch hepoch
    cases hhalf
    cases List.mem_singleton.mp hepoch
    decide

/-- An initiator that timed out and tried the same epoch again: the first exchange's
confirmation arrives last, and its key replaces the newer one. -/
theorem written_overtaken_retry :
    let host := run Host.step (start 2 1 {}) (arrives 0 1 10 (arrives 1 1 20 []))
    host.written.map Installed.epoch = [1, 1] ∧ ¬ Increasing host.written := by
  unfold Increasing
  decide

end Host

end BlakTail.Pq
