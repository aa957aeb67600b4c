import Anarchy.History
import Mathlib.Data.List.Basic

/-!
Which URLs a chain node lets a storage node register. The parsed form of a URL and
the answer of the resolver come from outside; the checks of the addresses, of the
port and of the host are those of the node. Addresses of a resolved name are judged
as literal addresses are, and an IPv4 address written as an IPv6 one as the former.
-/

namespace Anarchy.Endpoints

section Addresses

structure Ipv4Addr where
  octets : Vector UInt8 4
  deriving DecidableEq

structure Ipv6Addr where
  segments : Vector UInt16 8
  deriving DecidableEq

inductive IpAddr
  | v4 (address : Ipv4Addr)
  | v6 (address : Ipv6Addr)
  deriving DecidableEq

namespace Ipv4Addr

def ofOctets (a b c d : UInt8) : Ipv4Addr := ⟨#v[a, b, c, d]⟩

def isLinkLocal (ip : Ipv4Addr) : Bool := ip.octets[0] == 169 && ip.octets[1] == 254

def isMulticast (ip : Ipv4Addr) : Bool := ip.octets[0] ≥ 224 && ip.octets[0] ≤ 239

def isUnspecified (ip : Ipv4Addr) : Bool := ip == ofOctets 0 0 0 0

def isBroadcast (ip : Ipv4Addr) : Bool := ip == ofOctets 255 255 255 255

def isLoopback (ip : Ipv4Addr) : Bool := ip.octets[0] == 127

/-- The private blocks of the standard library, 10/8, 172.16/12 and 192.168/16. -/
def isRfc1918 (ip : Ipv4Addr) : Bool :=
  ip.octets[0] == 10 || (ip.octets[0] == 172 && ip.octets[1] ≥ 16 && ip.octets[1] ≤ 31) ||
    (ip.octets[0] == 192 && ip.octets[1] == 168)

end Ipv4Addr

namespace Ipv6Addr

def isUnspecified (ip : Ipv6Addr) : Bool := ip == ⟨#v[0, 0, 0, 0, 0, 0, 0, 0]⟩

def isLoopback (ip : Ipv6Addr) : Bool := ip == ⟨#v[0, 0, 0, 0, 0, 0, 0, 1]⟩

def isMulticast (ip : Ipv6Addr) : Bool := ip.segments[0] &&& 0xff00 == 0xff00

/-- The IPv4 address inside `::ffff:a.b.c.d`. -/
def toIpv4Mapped (ip : Ipv6Addr) : Option Ipv4Addr :=
  if ip.segments.take 6 = #v[0, 0, 0, 0, 0, 0xffff] then
    some (.ofOctets (ip.segments[6] >>> 8).toUInt8 ip.segments[6].toUInt8
      (ip.segments[7] >>> 8).toUInt8 ip.segments[7].toUInt8)
  else none

end Ipv6Addr

end Addresses

/-- A host as the parser of URLs returns it. -/
inductive Host
  | ipv4 (address : Ipv4Addr)
  | ipv6 (address : Ipv6Addr)
  | domain (name : String)
  deriving DecidableEq

structure Url where
  scheme : String
  host : Option Host
  portOrKnownDefault : Option UInt16
  deriving DecidableEq

inductive LookupError
  | timedOut
  | failed (reason : String)
  deriving DecidableEq

/-- The answer of the resolver for a name and a port. -/
abbrev Lookup := String → UInt16 → Except LookupError (List IpAddr)

inductive PolicyError
  | forbiddenV4 (address : Ipv4Addr)
  | forbiddenV6 (address : Ipv6Addr)
  | notAllowed (address : IpAddr)
  | invalidUrl (reason : String)
  | scheme (scheme : String)
  | noPort
  | ownRpcPort (port : UInt16)
  | noHost
  | localhost
  | lookup (domain : String) (error : LookupError)
  | resolves (domain : String) (error : PolicyError)
  | noAddresses (domain : String)
  deriving DecidableEq

/-- The text of an error, over the way the standard library writes an address. -/
def PolicyError.message (display : IpAddr → String) : PolicyError → String
  | .forbiddenV4 address => "Forbidden endpoint IP " ++ display (.v4 address) ++
      " (link-local/multicast/unspecified/broadcast)"
  | .forbiddenV6 address => "Forbidden endpoint IP " ++ display (.v6 address) ++
      " (link-local/multicast/unspecified)"
  | .notAllowed address => "Private/loopback endpoint IP " ++ display address ++
      " is not allowed on this chain"
  | .invalidUrl reason => "Invalid URL: " ++ reason
  | .scheme other => "Invalid URL scheme '" ++ other ++ "': must be http or https"
  | .noPort => "URL has no port"
  | .ownRpcPort port => "Endpoint port " ++ toString port ++ " is this chain node's own RPC port"
  | .noHost => "URL has no host"
  | .localhost => "localhost endpoint is not allowed on this chain"
  | .lookup domain .timedOut => "DNS lookup for '" ++ domain ++ "' timed out"
  | .lookup domain (.failed reason) => "DNS lookup for '" ++ domain ++ "' failed: " ++ reason
  | .resolves domain error =>
      "Host '" ++ domain ++ "' resolves to forbidden address: " ++ error.message display
  | .noAddresses domain => "Host '" ++ domain ++ "' resolved to no addresses"

structure EndpointPolicy where
  allowPrivate : Bool
  ownRpcPorts : List UInt16

def canonicalIp : IpAddr → IpAddr
  | .v6 address =>
      match address.toIpv4Mapped with
      | some inner => .v4 inner
      | none => .v6 address
  | .v4 address => .v4 address

def isPrivateV4 (address : Ipv4Addr) : Bool :=
  address.isLoopback || address.isRfc1918 ||
    (address.octets[0] == 100 && address.octets[1] &&& 0xc0 == 64)

def isPrivateV6 (address : Ipv6Addr) : Bool :=
  address.isLoopback || address.segments[0] &&& 0xfe00 == 0xfc00

def isLinkLocalV6 (address : Ipv6Addr) : Bool := address.segments[0] &&& 0xffc0 == 0xfe80

namespace EndpointPolicy

variable (policy : EndpointPolicy)

def checkIp (ip : IpAddr) : Except PolicyError Unit :=
  match canonicalIp ip with
  | .v4 v4 =>
      if v4.isLinkLocal || v4.isMulticast || v4.isUnspecified || v4.isBroadcast then
        .error (.forbiddenV4 v4)
      else if !policy.allowPrivate && isPrivateV4 v4 then .error (.notAllowed (.v4 v4))
      else .ok ()
  | .v6 v6 =>
      if isLinkLocalV6 v6 || v6.isMulticast || v6.isUnspecified then .error (.forbiddenV6 v6)
      else if !policy.allowPrivate && isPrivateV6 v6 then .error (.notAllowed (.v6 v6))
      else .ok ()

/-- `localhost` is compared without regard to case; other names are left to the resolver. -/
def checkHost : Host → Except PolicyError Unit
  | .ipv4 address => policy.checkIp (.v4 address)
  | .ipv6 address => policy.checkIp (.v6 address)
  | .domain name =>
      if name.toLower = "localhost" ∧ policy.allowPrivate = false then .error .localhost else .ok ()

variable (parse : String → Except String Url)

def validateUrlSync (url : String) : Except PolicyError Url := do
  let parsed ← (parse url).mapError .invalidUrl
  ensure (parsed.scheme = "http" ∨ parsed.scheme = "https") (.scheme parsed.scheme)
  let port ← okOr parsed.portOrKnownDefault .noPort
  ensure (port ∉ policy.ownRpcPorts) (.ownRpcPort port)
  let host ← okOr parsed.host .noHost
  policy.checkHost host
  return parsed

/-- The addresses of a name in the order of the resolver, up to the first forbidden one. -/
def checkAddresses (domain : String) : List IpAddr → Except PolicyError Unit
  | [] => .ok ()
  | ip :: rest => do
      (policy.checkIp ip).mapError (.resolves domain)
      checkAddresses domain rest

/-- Names that the system resolver cannot answer or that were judged without it. -/
def skipsLookup (domain : String) : Bool :=
  domain == "localhost" || domain.endsWith ".onion" || domain.endsWith ".i2p"

def validateUrl (lookup : Lookup) (url : String) : Except PolicyError Unit := do
  let parsed ← policy.validateUrlSync parse url
  match parsed.host with
  | some (.domain name) =>
      let domain := name.toLower
      if skipsLookup domain then return
      let port := parsed.portOrKnownDefault.getD 80
      let addresses ← (lookup domain port).mapError (.lookup domain)
      policy.checkAddresses domain addresses
      ensure (addresses ≠ []) (.noAddresses domain)
  | _ => return

/-! A mapped address is judged as the address inside it. -/
theorem checkIp_mapped (address : Ipv6Addr) (inner : Ipv4Addr)
    (mapped : address.toIpv4Mapped = some inner) :
    policy.checkIp (.v6 address) = policy.checkIp (.v4 inner) := by
  simp only [checkIp, canonicalIp, mapped]

theorem checkAddresses_ok_iff (domain : String) (addresses : List IpAddr) :
    policy.checkAddresses domain addresses = .ok () ↔
      ∀ ip ∈ addresses, policy.checkIp ip = .ok () := by
  induction addresses with
  | nil => simp [checkAddresses]
  | cons ip rest ih =>
      rw [checkAddresses, mapError_bind_ok]
      simp only [List.forall_mem_cons, ih]
      constructor
      · rintro ⟨_, passed, others⟩
        exact ⟨passed, others⟩
      · rintro ⟨passed, others⟩
        exact ⟨(), passed, others⟩

theorem validateUrlSync_ok {url : String} {parsed : Url}
    (accepted : policy.validateUrlSync parse url = .ok parsed) :
    parse url = .ok parsed ∧ (parsed.scheme = "http" ∨ parsed.scheme = "https") ∧
      (∃ port, parsed.portOrKnownDefault = some port ∧ port ∉ policy.ownRpcPorts) ∧
      ∃ host, parsed.host = some host ∧ policy.checkHost host = .ok () := by
  simp only [validateUrlSync, mapError_bind_ok, ensure_bind_ok, okOr_bind_ok] at accepted
  obtain ⟨found, parses, scheme, port, hasPort, notOwn, host, hasHost, rest⟩ := accepted
  obtain ⟨_, checked, same⟩ := (bind_ok_iff _ _ _).mp rest
  have same : found = parsed := (pure_ok_iff _ _).mp same
  subst same
  exact ⟨parses, scheme, ⟨port, hasPort, notOwn⟩, host, hasHost, checked⟩

theorem validateUrl_ok_sync {lookup : Lookup} {url : String}
    (accepted : policy.validateUrl parse lookup url = .ok ()) :
    ∃ parsed, policy.validateUrlSync parse url = .ok parsed := by
  obtain ⟨parsed, passed, _⟩ := (bind_ok_iff _ _ _).mp accepted
  exact ⟨parsed, passed⟩

/-- Whatever name is accepted, each address it resolves to passes the check. -/
theorem validateUrl_ok_addresses {lookup : Lookup} {url name : String} {parsed : Url}
    (accepted : policy.validateUrl parse lookup url = .ok ())
    (parses : parse url = .ok parsed) (named : parsed.host = some (.domain name))
    (looked : skipsLookup name.toLower = false) :
    ∃ addresses, lookup name.toLower (parsed.portOrKnownDefault.getD 80) = .ok addresses ∧
      addresses ≠ [] ∧ ∀ ip ∈ addresses, policy.checkIp ip = .ok () := by
  obtain ⟨found, passed, rest⟩ := (bind_ok_iff _ _ _).mp accepted
  have same : parsed = found := by
    have again := (policy.validateUrlSync_ok parse passed).1
    rw [parses] at again
    exact Except.ok.inj again
  subst same
  simp only [named, looked, Bool.false_eq_true, ↓reduceIte, mapError_bind_ok] at rest
  obtain ⟨addresses, answered, rest⟩ := rest
  obtain ⟨_, checked, some⟩ := (bind_ok_iff _ _ _).mp rest
  refine ⟨addresses, answered, ?_, (policy.checkAddresses_ok_iff _ _).mp checked⟩
  intro empty
  simp [ensure, empty] at some

end EndpointPolicy

end Anarchy.Endpoints
