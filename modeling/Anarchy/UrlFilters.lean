import Anarchy.ChainFailover

/-!
The two checks of a URL against requests into a private network: the one of a storage
node for what came by gossip, and the one of a chain node outside of a development
chain. They are compared on the hosts that are addresses.
-/

namespace Anarchy.UrlFilters

open ChainFailover Endpoints

/-- The policy of a live chain, for a node without ports of its own. -/
def livePolicy : EndpointPolicy := ⟨false, []⟩

section Hosts

def isCgnat (address : Ipv4Addr) : Bool :=
  address.octets.get 0 == 100 && address.octets.get 1 &&& 0xc0 == 64

/-- The addresses that the chain node takes for no host. -/
def isForbiddenV4 (address : Ipv4Addr) : Bool :=
  address.isLinkLocal || address.isMulticast || address.isUnspecified || address.isBroadcast ||
    isPrivateV4 address

/-- What the gossip check refuses of an IPv4 address. -/
def gossipRefusesV4 (address : Ipv4Addr) : Bool :=
  address.isLoopback || address.isRfc1918 || address.isLinkLocal || address.isBroadcast ||
    address.isUnspecified || address.isMulticast

def gossipRefusesV6 (address : Ipv6Addr) : Bool :=
  address.isLoopback || address.isUnspecified || address.isMulticast ||
    address.segments.getD 0 0 &&& 0xfe00 == 0xfc00 ||
    address.segments.getD 0 0 &&& 0xffc0 == 0xfe80

/-- The carrier-grade block, and the forbidden addresses in their IPv6 spelling. -/
def isOverlooked : Host → Bool
  | .ipv4 address => isCgnat address
  | .ipv6 address => address.toIpv4Mapped.any isForbiddenV4
  | .domain _ => false

theorem forbidden_iff (address : Ipv4Addr) : isForbiddenV4 address = true ↔
    gossipRefusesV4 address = true ∨ isCgnat address = true := by
  have same : isCgnat address =
      (address.octets[0] == 100 && address.octets[1] &&& 0xc0 == 64) := rfl
  simp only [isForbiddenV4, isPrivateV4, gossipRefusesV4, same, Bool.or_eq_true]
  tauto

/-- An address of this block is in none that the gossip check knows. -/
theorem cgnat_unrefused {address : Ipv4Addr} (cgnat : isCgnat address = true) :
    gossipRefusesV4 address = false := by
  simp only [isCgnat, Bool.and_eq_true, beq_iff_eq] at cgnat
  have first : address.octets[0] = 100 := cgnat.1
  -- the two single addresses that the check knows do not start with 100
  have other : ∀ a b c d, a ≠ 100 → address ≠ .ofOctets a b c d := by
    rintro a b c d differ rfl
    exact differ first
  simp [gossipRefusesV4, Ipv4Addr.isLoopback, Ipv4Addr.isRfc1918, Ipv4Addr.isLinkLocal,
    Ipv4Addr.isBroadcast, Ipv4Addr.isUnspecified, Ipv4Addr.isMulticast, first,
    other 0 0 0 0 (by decide), other 255 255 255 255 (by decide)]

theorem mapped_segments {address : Ipv6Addr} {inner : Ipv4Addr}
    (mapped : address.toIpv4Mapped = some inner) :
    address.segments.get 0 = 0 ∧ address.segments.get 5 = 0xffff := by
  rw [Ipv6Addr.toIpv4Mapped] at mapped
  split at mapped
  · rename_i start
    have first : (address.segments.take 6)[0] = 0 := by rw [start]; rfl
    have last : (address.segments.take 6)[5] = 0xffff := by rw [start]; rfl
    rw [Vector.getElem_take] at first last
    exact ⟨first, last⟩
  · cases mapped

theorem first_segment (address : Ipv6Addr) :
    address.segments.getD 0 0 = address.segments.get 0 := by
  have read : address.segments.getD 0 0 = address.segments[0] := by simp [Vector.getD]
  exact read

/-- The gossip check has no eye for the address inside. -/
theorem mapped_unrefused {address : Ipv6Addr} {inner : Ipv4Addr}
    (mapped : address.toIpv4Mapped = some inner) : gossipRefusesV6 address = false := by
  have first : address.segments[0] = 0 := (mapped_segments mapped).1
  have last : address.segments[5] = 0xffff := (mapped_segments mapped).2
  -- the loopback and the unspecified address have no such segment
  have other : ∀ segments : Vector UInt16 8, segments[5] = 0 → address ≠ ⟨segments⟩ := by
    rintro segments zero rfl
    rw [zero] at last
    cases last
  have read : address.segments.getD 0 0 = 0 := (first_segment address).trans first
  simp [gossipRefusesV6, Ipv6Addr.isLoopback, Ipv6Addr.isUnspecified, Ipv6Addr.isMulticast, first,
    read, other #v[0, 0, 0, 0, 0, 0, 0, 0] rfl, other #v[0, 0, 0, 0, 0, 0, 0, 1] rfl]

theorem checkIp_v4 (address : Ipv4Addr) :
    livePolicy.checkIp (.v4 address) = .ok () ↔ isForbiddenV4 address = false := by
  simp only [EndpointPolicy.checkIp, canonicalIp, livePolicy, isForbiddenV4, Bool.not_false,
    Bool.true_and]
  cases address.isLinkLocal || address.isMulticast || address.isUnspecified ||
    address.isBroadcast <;> cases isPrivateV4 address <;> simp

/-- An address that maps no other one is judged alike by both. -/
theorem checkIp_v6 {address : Ipv6Addr} (unmapped : address.toIpv4Mapped = none) :
    livePolicy.checkIp (.v6 address) = .ok () ↔ gossipRefusesV6 address = false := by
  have first : address.segments.getD 0 0 = address.segments[0] := first_segment address
  simp only [EndpointPolicy.checkIp, canonicalIp, unmapped, livePolicy, gossipRefusesV6,
    first, isLinkLocalV6, isPrivateV6, Bool.not_false, Bool.true_and]
  -- the same five tests on both sides, in another order
  cases address.isLoopback <;> cases address.isUnspecified <;> cases address.isMulticast <;>
    cases address.segments[0] &&& 0xfe00 == 0xfc00 <;>
    cases address.segments[0] &&& 0xffc0 == 0xfe80 <;> simp

end Hosts

section Urls

variable (parse : String → Except String Url)

def Gossiped (url : String) : Prop := validateGossipUrl parse url ["http", "https"] = .ok ()

def Registered (url : String) : Prop :=
  ∃ parsed, livePolicy.validateUrlSync parse url = .ok parsed

/-- What the gossip check takes for a host. -/
def gossipTakes : Host → Bool
  | .ipv4 address => !gossipRefusesV4 address
  | .ipv6 address => !gossipRefusesV6 address
  | .domain name => !(name.toLower == "localhost" || name.toLower.endsWith ".local")

variable {parse}

theorem gossiped_iff {url : String} {parsed : Url} {host : Host} (parses : parse url = .ok parsed)
    (hosted : parsed.host = some host) :
    Gossiped parse url ↔ url.utf8ByteSize ≤ MAX_URL_LEN ∧ parsed.scheme ∈ ["http", "https"] ∧
      gossipTakes host = true := by
  rw [Gossiped, validateGossipUrl, parses]
  by_cases long : MAX_URL_LEN < url.utf8ByteSize
  · simp [long, not_le.mpr long]
  by_cases known : parsed.scheme ∈ ["http", "https"]
  · simp only [if_neg long, hosted, not_lt.mp long, known, true_and]
    cases host with
    | ipv4 address =>
        change (if gossipRefusesV4 address = true then _ else _) = _ ↔
          (!gossipRefusesV4 address) = _
        cases gossipRefusesV4 address <;> simp
    | ipv6 address =>
        simp only [gossipTakes, gossipRefusesV6]
        cases address.isLoopback || address.isUnspecified || address.isMulticast <;>
          cases address.segments.getD 0 0 &&& 0xfe00 == 0xfc00 <;>
          cases address.segments.getD 0 0 &&& 0xffc0 == 0xfe80 <;> simp
    | domain name =>
        by_cases here : name.toLower = "localhost" <;>
          cases near : name.toLower.endsWith ".local" <;> simp [gossipTakes, here, near]
  · simp [long, known]

/-- The `url` crate knows a default port for both schemes. -/
def KnowsPorts (parse : String → Except String Url) : Prop :=
  ∀ url parsed, parse url = .ok parsed → parsed.scheme ∈ ["http", "https"] →
    parsed.portOrKnownDefault.isSome

theorem registered_iff (ports : KnowsPorts parse) {url : String} {parsed : Url} {host : Host}
    (parses : parse url = .ok parsed) (hosted : parsed.host = some host) :
    Registered parse url ↔ parsed.scheme ∈ ["http", "https"] ∧
      livePolicy.checkHost host = .ok () := by
  constructor
  · rintro ⟨found, accepted⟩
    obtain ⟨again, scheme, _, other, isHost, checked⟩ :=
      livePolicy.validateUrlSync_ok parse accepted
    rw [parses] at again
    cases again
    rw [hosted] at isHost
    cases isHost
    exact ⟨by simpa using scheme, checked⟩
  · rintro ⟨scheme, checked⟩
    obtain ⟨port, hasPort⟩ := Option.isSome_iff_exists.mp (ports url parsed parses scheme)
    have known : parsed.scheme = "http" ∨ parsed.scheme = "https" := by simpa using scheme
    -- a node without ports of its own refuses none
    have foreign : port ∉ livePolicy.ownRpcPorts := List.not_mem_nil
    refine ⟨parsed, ?_⟩
    simp only [EndpointPolicy.validateUrlSync, mapError_bind_ok, ensure_bind_ok, okOr_bind_ok]
    refine ⟨parsed, parses, known, port, hasPort, foreign, host, hosted, ?_⟩
    rw [checked, bind_ok]
    rfl

/-- What the gossip check takes the chain node takes, and neither takes a forbidden address in its
IPv6 spelling. -/
structure FiltersAgree (parse : String → Except String Url) (url : String) (host : Host) :
    Prop where
  accepted : Gossiped parse url → Registered parse url
  spelled : ∀ address inner, host = .ipv6 address → address.toIpv4Mapped = some inner →
    isForbiddenV4 inner = true → ¬ Gossiped parse url ∧ ¬ Registered parse url

def IsAddress : Host → Prop
  | .domain _ => False
  | _ => True

/-- Of the addresses that are not overlooked, those that the gossip check takes pass. -/
theorem seen_taken {host : Host} (literal : IsAddress host) (seen : isOverlooked host = false)
    (taken : gossipTakes host = true) : livePolicy.checkHost host = .ok () := by
  cases host with
  | ipv4 address =>
      have plain : isCgnat address = false := seen
      have unrefused : gossipRefusesV4 address = false := by simpa [gossipTakes] using taken
      rw [EndpointPolicy.checkHost, checkIp_v4, ← Bool.not_eq_true, forbidden_iff, plain, unrefused]
      simp
  | ipv6 address =>
      rw [EndpointPolicy.checkHost]
      cases mapped : address.toIpv4Mapped with
      | none =>
          have unrefused : gossipRefusesV6 address = false := by simpa [gossipTakes] using taken
          exact (checkIp_v6 mapped).mpr unrefused
      | some inner =>
          have allowed : isForbiddenV4 inner = false := by
            simpa [isOverlooked, mapped] using seen
          rw [livePolicy.checkIp_mapped address inner mapped]
          exact (checkIp_v4 inner).mpr allowed
  | domain name => exact literal.elim

/-- An overlooked address passes the gossip check and not the one of the chain node. -/
theorem overlooked_split {host : Host} (overlooked : isOverlooked host = true) :
    gossipTakes host = true ∧ livePolicy.checkHost host ≠ .ok () := by
  cases host with
  | ipv4 address =>
      have cgnat : isCgnat address = true := overlooked
      have forbidden := (forbidden_iff address).mpr (.inr cgnat)
      refine ⟨by rw [gossipTakes, cgnat_unrefused cgnat]; rfl, ?_⟩
      rw [EndpointPolicy.checkHost, ne_eq, checkIp_v4, forbidden]
      simp
  | ipv6 address =>
      cases mapped : address.toIpv4Mapped with
      | none => simp [isOverlooked, mapped] at overlooked
      | some inner =>
          have forbidden : isForbiddenV4 inner = true := by
            simpa [isOverlooked, mapped] using overlooked
          refine ⟨by rw [gossipTakes, mapped_unrefused mapped]; rfl, ?_⟩
          rw [EndpointPolicy.checkHost, livePolicy.checkIp_mapped address inner mapped, ne_eq,
            checkIp_v4, forbidden]
          simp
  | domain name => cases overlooked

/-- The two checks agree on a URL to an address exactly if the gossip check stops at the length or
the scheme, or the address is neither in the carrier-grade block nor a forbidden one in its IPv6
spelling. -/
theorem filters_agree_exact (parse : String → Except String Url) (ports : KnowsPorts parse)
    (url : String) (parsed : Url) (host : Host) (parses : parse url = .ok parsed)
    (hosted : parsed.host = some host) (literal : IsAddress host) :
    FiltersAgree parse url host ↔
      (url.utf8ByteSize ≤ MAX_URL_LEN → parsed.scheme ∈ ["http", "https"] →
        isOverlooked host = false) := by
  constructor
  · intro agree short scheme
    by_contra overlooked
    obtain ⟨taken, refused⟩ := overlooked_split (Bool.not_eq_false _ ▸ overlooked)
    have gossiped := (gossiped_iff parses hosted).mpr ⟨short, scheme, taken⟩
    exact refused ((registered_iff ports parses hosted).mp (agree.accepted gossiped)).2
  · intro seen
    constructor
    · intro gossiped
      obtain ⟨short, scheme, taken⟩ := (gossiped_iff parses hosted).mp gossiped
      have checked := seen_taken literal (seen short scheme) taken
      exact (registered_iff ports parses hosted).mpr ⟨scheme, checked⟩
    · rintro address inner rfl mapped forbidden
      have overlooked : isOverlooked (.ipv6 address) = true := by
        simpa [isOverlooked, mapped] using forbidden
      constructor
      · intro gossiped
        obtain ⟨short, scheme, _⟩ := (gossiped_iff parses hosted).mp gossiped
        rw [seen short scheme] at overlooked
        cases overlooked
      · intro registered
        exact (overlooked_split overlooked).2 ((registered_iff ports parses hosted).mp registered).2

end Urls

section Known

def loopbackUrl : String := "http://[::ffff:127.0.0.1]:3030"
def cgnatUrl : String := "http://100.64.0.1:3030"
def publicUrl : String := "http://203.0.113.7:3030"

def mappedLoopback : Ipv6Addr := ⟨#v[0, 0, 0, 0, 0, 0xffff, 0x7f00, 1]⟩

def parseKnown (url : String) : Except String Url :=
  if url = loopbackUrl then .ok ⟨"http", some (.ipv6 mappedLoopback), some 3030⟩
  else if url = cgnatUrl then .ok ⟨"http", some (.ipv4 (.ofOctets 100 64 0 1)), some 3030⟩
  else if url = publicUrl then .ok ⟨"http", some (.ipv4 (.ofOctets 203 0 113 7)), some 3030⟩
  else .error "relative URL without a base"

theorem parseKnown_ports : KnowsPorts parseKnown := by
  intro url parsed parses _
  rw [parseKnown] at parses
  split at parses
  · cases parses
    rfl
  · split at parses
    · cases parses
      rfl
    · split at parses
      · cases parses
        rfl
      · cases parses

theorem filters_agree_public :
    FiltersAgree parseKnown publicUrl (.ipv4 (.ofOctets 203 0 113 7)) :=
  (filters_agree_exact parseKnown parseKnown_ports publicUrl _ _ rfl rfl trivial).mpr
    fun _ _ => by decide

/-- The loopback address in its IPv6 spelling and an address of the carrier-grade block pass the
gossip check, and the chain node takes neither. -/
theorem filters_differ :
    ¬ (∀ (parse : String → Except String Url) (url : String) (parsed : Url) (host : Host),
        KnowsPorts parse → parse url = .ok parsed → parsed.host = some host → IsAddress host →
          FiltersAgree parse url host) ∧
      Gossiped parseKnown loopbackUrl ∧ ¬ Registered parseKnown loopbackUrl ∧
      Gossiped parseKnown cgnatUrl ∧ ¬ Registered parseKnown cgnatUrl := by
  have loopback : Gossiped parseKnown loopbackUrl := by
    rw [gossiped_iff rfl rfl]
    decide +kernel
  have cgnat : Gossiped parseKnown cgnatUrl := by
    rw [gossiped_iff rfl rfl]
    decide +kernel
  have loopbackRefused : ¬ Registered parseKnown loopbackUrl := by
    rw [registered_iff parseKnown_ports rfl rfl]
    decide +kernel
  have cgnatRefused : ¬ Registered parseKnown cgnatUrl := by
    rw [registered_iff parseKnown_ports rfl rfl]
    decide +kernel
  refine ⟨fun claimed => ?_, loopback, loopbackRefused, cgnat, cgnatRefused⟩
  have agree := claimed parseKnown loopbackUrl _ _ parseKnown_ports rfl rfl trivial
  exact loopbackRefused (agree.accepted loopback)

end Known

end Anarchy.UrlFilters
