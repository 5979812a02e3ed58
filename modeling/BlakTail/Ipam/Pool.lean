import BlakTail.Addressing.Cidr
import BlakTail.Control.Peer

/-!
# Device Pools

An organisation hands out the IPv4 hosts of one pool, a `/20` to `/24` inside the CGNAT range.  A
pool carries the checks of `Pool::parse`, so every pool there is has passed them.
-/

namespace BlakTail.Ipam

open Foundation Addressing

/-- The errors of the coordinator's handlers. -/
inductive ApiError where
  | badRequest (message : String)
  | conflict (message : String)
  | notFound
  | preconditionFailed
  | corruptData
  deriving DecidableEq

/-- An IPv4 host; `a.b.c.d/32` in the tables. -/
abbrev Host := BitVec 32

def CGNAT_BASE : Host := 0x64400000
def CGNAT_PREFIX : Nat := 10
def SUPERNET_V4 : String := "100.64.0.0/10"
def MIN_POOL_PREFIX : Nat := 20
def MAX_POOL_PREFIX : Nat := 24

/-- An IPv4 device pool. -/
structure Pool where
  network : Host
  length : Nat
  large : length ≤ MAX_POOL_PREFIX
  small : MIN_POOL_PREFIX ≤ length
  aligned : network &&& ~~~leading 32 length = 0
  inside : network &&& leading 32 CGNAT_PREFIX = CGNAT_BASE
  deriving DecidableEq

def bare (host : Host) : String := (IpAddr.v4 host).toText

namespace Pool

def parse (cidr : String) : Except String Pool :=
  let cidr := Text.trim cidr
  match Text.splitOnce '/' cidr with
  | none => .error (cidr ++ " must use CIDR notation")
  | some (address, length) =>
    match IpAddr.parse address with
    | some (.v4 network) =>
      match Text.parseU8 length with
      | none => .error (cidr ++ " has an invalid prefix")
      | some length =>
        if hlength : MIN_POOL_PREFIX ≤ length ∧ length ≤ MAX_POOL_PREFIX then
          if haligned : network &&& ~~~leading 32 length = 0 then
            if hinside : network &&& leading 32 CGNAT_PREFIX = CGNAT_BASE then
              .ok ⟨network, length, hlength.2, hlength.1, haligned, hinside⟩
            else .error ("the device pool must be inside " ++ SUPERNET_V4)
          else
            .error (cidr ++ " is not a network address; use " ++
              cidrText (.v4 (network &&& leading 32 length)) length)
        else
          .error ("the device pool must be a /" ++ toString MIN_POOL_PREFIX ++ " to /" ++
            toString MAX_POOL_PREFIX)
    | _ => .error (cidr ++ " is not an IPv4 CIDR")

variable (pool : Pool)

def cidr : String := cidrText (.v4 pool.network) pool.length

def broadcast : Host := pool.network ||| ~~~leading 32 pool.length

def usable : Nat := pool.broadcast.toNat - pool.network.toNat - 1

/-- The hosts in their order, without the network and the broadcast address. -/
def hosts : List Host :=
  (List.range' (pool.network.toNat + 1) pool.usable).map (BitVec.ofNat 32)

def containsIp (host : Host) : Bool := pool.network < host && host < pool.broadcast

/-- The address is a usable host of the pool. -/
def contains : IpAddr → Bool
  | .v4 host => pool.containsIp host
  | .v6 _ => false

/-- The hosts of a pool are the addresses between its network and broadcast address. -/
theorem mem_hosts {pool : Pool} {host : Host} :
    host ∈ pool.hosts ↔ pool.containsIp host := by
  unfold hosts containsIp usable
  rw [List.mem_map, Bool.and_eq_true, decide_eq_true_eq, decide_eq_true_eq, BitVec.lt_def,
    BitVec.lt_def]
  constructor
  · rintro ⟨value, hvalue, rfl⟩
    rw [List.mem_range'_1] at hvalue
    rw [BitVec.toNat_ofNat, Nat.mod_eq_of_lt (by omega)]
    omega
  · rintro ⟨hlow, hhigh⟩
    refine ⟨host.toNat, List.mem_range'_1.mpr (by omega), ?_⟩
    rw [BitVec.ofNat_toNat, BitVec.setWidth_eq]

end Pool

/-! ## Addresses an operator names -/

inductive IpamError where
  | invalidCidr (cidr : String)
  | invalidAddress (address : String)
  | networkAddress (address pool : String)
  | broadcastAddress (address pool : String)
  | outsidePool (address pool : String)

def IpamError.toText : IpamError → String
  | invalidCidr cidr => "invalid CIDR '" ++ cidr ++ "'"
  | invalidAddress address => "invalid IP address '" ++ address ++ "'"
  | networkAddress address pool =>
    "address " ++ address ++ " is the network address of pool " ++ pool
  | broadcastAddress address pool =>
    "address " ++ address ++ " is the broadcast address of pool " ++ pool
  | outsidePool address pool => "address " ++ address ++ " is outside pool " ++ pool

def usableV4Range (base : Host) (length : Nat) : Host × Host :=
  if length = 32 then (base, base)
  else if length = 31 then (base, base + 1)
  else (base + 1, (base ||| (BitVec.allOnes 32 >>> length)) - 1)

/-- `validate_reservation` for one pool without exclusions. -/
def validateReservation (name cidr address : String) : Except IpamError Unit :=
  match IpAddr.parse (Text.trim address) with
  | none => .error (.invalidAddress address)
  | some addr =>
    let label := Text.trim address
    match parseCidr cidr with
    | none => .error (.invalidCidr cidr)
    | some (net, length) =>
      if cidrContains net length addr then
        match net, addr with
        | .v4 base, .v4 host =>
          let (first, last) := usableV4Range base length
          if host < first then .error (.networkAddress label name)
          else if last < host then .error (.broadcastAddress label name)
          else .ok ()
        | .v6 base, .v6 host =>
          if host = base then .error (.networkAddress label name) else .ok ()
        | _, _ => .error (.outsidePool label name)
      else .error (.outsidePool label name)

/-- `strip_suffix("/32")`. -/
def stripHostLength (value : String) : Option String :=
  let cs := value.toList
  if cs.drop (cs.length - 3) = ['/', '3', '2'] then some (String.ofList (cs.take (cs.length - 3)))
  else none

/-- The usable host of the pool that a text names. -/
def canonicalPoolAddress (value : String) (pool : Pool) : Except ApiError Host :=
  let value := Text.trim value
  let ip := (stripHostLength value).getD value
  match validateReservation "devices" pool.cidr ip with
  | .error error =>
    .error (.badRequest (error.toText ++ "; choose a host address in " ++ pool.cidr ++ " (" ++
      bare (pool.network + 1) ++ " to " ++ bare (pool.broadcast - 1) ++ ")"))
  | .ok () =>
    match IpAddr.parse ip with
    | some (.v4 host) => .ok host
    | _ => .error (.badRequest (value ++ " is not an IPv4 address"))

variable (pool : Pool)

theorem network_masked : pool.network &&& leading 32 pool.length = pool.network := by
  apply BitVec.eq_of_getLsbD_eq
  intro i hi
  have hbit := congrArg (fun bits => bits.getLsbD i) pool.aligned
  simp only [BitVec.getLsbD_and, BitVec.getLsbD_not, hi, decide_true, Bool.true_and] at hbit ⊢
  cases hnetwork : pool.network.getLsbD i with
  | false => rfl
  | true => simpa [hnetwork] using hbit

/-- The text of a pool is read back as the pool. -/
theorem parseCidr_cidr : parseCidr pool.cidr = some (.v4 pool.network, pool.length) := by
  have hlength : pool.length ≤ width (IpAddr.v4 pool.network).isIpv4 :=
    le_trans pool.large (show MAX_POOL_PREFIX ≤ 32 by decide)
  have hmask : maskAddr (.v4 pool.network) pool.length = .v4 pool.network :=
    congrArg IpAddr.v4 (network_masked pool)
  rw [Pool.cidr, parseCidr_cidrText hlength, hmask]

theorem Pool.length_cases :
    pool.length = 20 ∨ pool.length = 21 ∨ pool.length = 22 ∨ pool.length = 23 ∨
      pool.length = 24 := by
  have hlarge := pool.large
  have hsmall := pool.small
  unfold MAX_POOL_PREFIX at hlarge
  unfold MIN_POOL_PREFIX at hsmall
  omega

theorem usableV4Range_pool :
    usableV4Range pool.network pool.length = (pool.network + 1, pool.broadcast - 1) := by
  have hbroadcast : BitVec.allOnes 32 >>> pool.length = ~~~leading 32 pool.length := by
    rcases pool.length_cases with h | h | h | h | h <;> rw [h] <;> decide
  have hlarge := pool.large
  unfold MAX_POOL_PREFIX at hlarge
  unfold usableV4Range Pool.broadcast
  rw [if_neg (by omega), if_neg (by omega), hbroadcast]

/-- A pool's network address is even and its broadcast address odd. -/
theorem Pool.low_bits : pool.network.getLsbD 0 = false ∧ pool.broadcast.getLsbD 0 := by
  have hmask : (leading 32 pool.length).getLsbD 0 = false := by
    rcases pool.length_cases with h | h | h | h | h <;> rw [h] <;> decide
  constructor
  · rw [← network_masked pool, BitVec.getLsbD_and, hmask, Bool.and_false]
  · unfold broadcast
    rw [BitVec.getLsbD_or, BitVec.getLsbD_not, hmask]
    simp

theorem validateReservation_contains {pool : Pool} {name address : String} {host : Host}
    (hparse : IpAddr.parse (Text.trim address) = some (.v4 host))
    (h : validateReservation name pool.cidr address = .ok ()) : pool.containsIp host := by
  unfold validateReservation at h
  rw [hparse, parseCidr_cidr] at h
  dsimp only at h
  rw [usableV4Range_pool] at h
  split_ifs at h with hinside hfirst hlast
  obtain ⟨heven, hodd⟩ := pool.low_bits
  rw [BitVec.getLsbD, Nat.testBit_zero, decide_eq_false_iff_not] at heven
  rw [BitVec.getLsbD, Nat.testBit_zero, decide_eq_true_eq] at hodd
  -- neither bound wraps around
  have hnext : (pool.network + 1).toNat = pool.network.toNat + 1 := by
    exact Nat.mod_eq_of_lt (by simp; omega)
  have hone : (1 : Host) ≤ pool.broadcast := by
    exact Nat.pos_of_ne_zero fun hzero => by omega
  have hbefore : (pool.broadcast - 1).toNat = pool.broadcast.toNat - 1 :=
    BitVec.toNat_sub_of_le hone
  rw [BitVec.lt_def, hnext] at hfirst
  rw [BitVec.lt_def, hbefore] at hlast
  unfold Pool.containsIp
  rw [Bool.and_eq_true, decide_eq_true_eq, decide_eq_true_eq, BitVec.lt_def, BitVec.lt_def]
  omega

/-- An address an operator names is a usable host of the pool. -/
theorem contains_of_canonical {value : String} {pool : Pool} {host : Host}
    (h : canonicalPoolAddress value pool = .ok host) : pool.containsIp host := by
  unfold canonicalPoolAddress at h
  dsimp only at h
  cases hvalid : validateReservation "devices" pool.cidr
      ((stripHostLength (Text.trim value)).getD (Text.trim value)) with
  | error error => rw [hvalid] at h; cases h
  | ok valid =>
    rw [hvalid] at h
    cases hparse : IpAddr.parse ((stripHostLength (Text.trim value)).getD (Text.trim value)) with
    | none => rw [hparse] at h; cases h
    | some address =>
      rw [hparse] at h
      cases address with
      | v6 bits => cases h
      | v4 bits =>
        cases h
        refine validateReservation_contains ?_ hvalid
        rw [IpAddr.trim_of_parse_v4 hparse]
        exact hparse

end BlakTail.Ipam
