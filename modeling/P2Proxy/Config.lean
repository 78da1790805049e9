import P2Proxy.Multiaddr

/-!
# Configuration

The per-server options, the entries of the pinned list with their parser, and the fingerprint of the discovery
filters under which a sticky pool is remembered.
-/

namespace P2Proxy

abbrev Port := UInt16

/-- Tri-state node-attribute policy. -/
inductive FilterPolicy
  | allow | deny | require
deriving DecidableEq, Repr

/-- The variant's name, as `{:?}` prints it. -/
def FilterPolicy.debug : FilterPolicy → String
  | .allow => "Allow"
  | .deny => "Deny"
  | .require => "Require"

/-- What to do when the active sticky exit disconnects: fight to reconnect to it, or rotate at once. -/
inductive StickyReconnect
  | withBackoff | failFast
deriving DecidableEq, Repr

/-- One entry of the pinned list: who to exit through and, if the operator gave one, an address to dial verbatim. -/
structure DestinationPeerEntry where
  peerId : PeerId
  address : Option Multiaddr
deriving DecidableEq, Repr

namespace DestinationPeerEntry

/-- The last `/p2p/` component is the destination; a bare `/p2p/<id>` pins identity only. -/
def fromMultiaddr (addr : Multiaddr) : Option DestinationPeerEntry := do
  let peerId ← lastP2p addr
  let barePin := addr.length = 1
  some { peerId, address := if barePin then none else some addr }

/-- The parsers of the `libp2p` crate: `PeerId::from_str` and `Multiaddr::from_str`; and the tables of the standard
library that say which characters beyond ASCII `{:?}` prints as they are. -/
structure Parsers where
  peerId : String → Except String PeerId
  multiaddr : String → Except String Multiaddr
  isPrintable : Char → Bool

/-- A character inside a text, as `{:?}` prints it. -/
def Parsers.escapeDebug (lib : Parsers) (c : Char) : List Char :=
  if c.toNat = 0 then ['\\', '0']
  else if c = '\t' then ['\\', 't']
  else if c = '\n' then ['\\', 'n']
  else if c = '\r' then ['\\', 'r']
  else if c = '"' ∨ c = '\\' then ['\\', c]
  else if 0x20 ≤ c.toNat ∧ c.toNat < 0x7F ∨ 0x7F < c.toNat ∧ lib.isPrintable c = true then [c]
  else "\\u\x7b".toList ++ Nat.toDigits 16 c.toNat ++ "\x7d".toList

/-- A text as `{:?}` prints it. -/
def Parsers.debug (lib : Parsers) (text : String) : String :=
  String.ofList ('"' :: (text.toList.flatMap lib.escapeDebug ++ ['"']))

/-- The characters with the Unicode property `White_Space`, which `str::trim` strips. -/
def isWhiteSpace (c : Char) : Bool :=
  (9 ≤ c.toNat && c.toNat ≤ 13) || (0x2000 ≤ c.toNat && c.toNat ≤ 0x200A) ||
    [0x20, 0x85, 0xA0, 0x1680, 0x2028, 0x2029, 0x202F, 0x205F, 0x3000].contains c.toNat

def trim (input : List Char) : List Char :=
  ((input.dropWhile isWhiteSpace).reverse.dropWhile isWhiteSpace).reverse

def fromStr (lib : Parsers) (input : String) : Except String DestinationPeerEntry :=
  let chars := trim input.toList
  let trimmed := String.ofList chars
  if chars = [] then
    .error "destination peer entry is empty"
  else if chars.head? ≠ some '/' then
    match lib.peerId trimmed with
    | .error e => .error s!"invalid peer id {lib.debug trimmed}: {e}"
    | .ok peerId => .ok { peerId, address := none }
  else
    match lib.multiaddr trimmed with
    | .error e => .error s!"invalid multiaddr {lib.debug trimmed}: {e}"
    | .ok addr =>
      match fromMultiaddr addr with
      | none => .error s!"multiaddr {lib.debug trimmed} must end with /p2p/<peer-id>"
      | some entry => .ok entry

/-- The verbatim address of an entry, if any, leads to the entry's peer. -/
def Coherent (entry : DestinationPeerEntry) : Prop :=
  ∀ addr ∈ entry.address, lastP2p addr = some entry.peerId

theorem fromMultiaddr_coherent {addr : Multiaddr} {entry : DestinationPeerEntry}
    (h : fromMultiaddr addr = some entry) : entry.Coherent := by
  unfold fromMultiaddr at h
  cases hp : lastP2p addr with
  | none => simp [hp] at h
  | some p =>
    simp only [hp, Option.bind_eq_bind, Option.bind_some, Option.some.injEq] at h
    subst h
    intro a ha
    split at ha
    · cases ha
    · cases ha; exact hp

/-- What the parser accepts is coherent. -/
theorem fromStr_coherent {lib : Parsers} {input : String} {entry : DestinationPeerEntry}
    (h : fromStr lib input = .ok entry) : entry.Coherent := by
  unfold fromStr at h
  simp only at h
  split at h
  · cases h
  · split at h
    · split at h
      · cases h
      · cases h; intro a ha; cases ha
    · split at h
      · cases h
      · split at h
        · cases h
        · rename_i he; cases h; exact fromMultiaddr_coherent he

end DestinationPeerEntry

structure ServerPeerOptions where
  destinationPeers : Option (List DestinationPeerEntry)
  fallbackToDiscovery : Bool
  sticky : Bool
  stickyReconnect : StickyReconnect
  country : Option String
  /-- in bits per second -/
  minBandwidth : Nat
  city : Option String
  isp : Option String
  asn : Option UInt32
  proxy : FilterPolicy
  mobile : FilterPolicy
  hosting : FilterPolicy

structure PoolConfigOptions where
  maxTotal : Nat

structure Server where
  port : Port
  peerOptions : ServerPeerOptions
  pool : PoolConfigOptions

namespace ServerPeerOptions

/-- The ordered pinned list, empty when the server is discovery-driven. -/
def pinned (o : ServerPeerOptions) : List DestinationPeerEntry := o.destinationPeers.getD []

/-- Identity of the server's discovery filters. -/
def filterFingerprint (o : ServerPeerOptions) (port : Port) : String :=
  "v2|" ++ toString port ++ "|" ++ o.country.getD "" ++ "|" ++ o.city.getD "" ++ "|" ++ o.isp.getD "" ++ "|" ++
    (o.asn.map toString).getD "" ++ "|" ++ toString o.minBandwidth ++ "|" ++ o.proxy.debug ++ "|" ++
    o.mobile.debug ++ "|" ++ o.hosting.debug

/-- `Display`: the pinned peers, else the country. -/
def display (o : ServerPeerOptions) : String :=
  match o.pinned with
  | [first] => s!"Pinned: {first.peerId}"
  | first :: rest => s!"Pinned: {first.peerId} +{rest.length} more"
  | [] =>
    match o.country with
    | some c => s!"Country: {c}"
    | none => "Unknown"

end ServerPeerOptions

/-- The fingerprint under which `server` remembers its exits. -/
def Server.fingerprint (server : Server) : String := server.peerOptions.filterFingerprint server.port

/-- A server without pins that remembers its exits. -/
def Server.StickyExit (server : Server) : Prop :=
  server.peerOptions.sticky = true ∧ server.peerOptions.pinned = []

/-! ### Builders -/

/-- The options that the repository's tests start from. -/
def options : ServerPeerOptions where
  destinationPeers := none
  fallbackToDiscovery := false
  sticky := true
  stickyReconnect := .withBackoff
  country := none
  minBandwidth := 0
  city := none
  isp := none
  asn := none
  proxy := .allow
  mobile := .allow
  hosting := .allow

def defaultMaxTotal : Nat := 30

def discoveryServer (port : Port) : Server :=
  { port, peerOptions := options, pool := { maxTotal := defaultMaxTotal } }

def pinnedServer (port : Port) (peers : List PeerId) : Server :=
  { discoveryServer port with
    peerOptions := { options with
      destinationPeers := some (peers.map fun peerId => { peerId, address := none }) } }

theorem discoveryServer_stickyExit (port : Port) : (discoveryServer port).StickyExit := ⟨rfl, rfl⟩

end P2Proxy
