import P2Proxy.Ports

/-!
# The connect flow

`connect` finds an exit peer for a server.  A pinned server dials its list in order of preference, pass after pass; a
discovery-driven one fights for the exit it has lost, then tries the remembered pool, then asks the hub for
candidates.  All three reach a peer through `dial`, which races the direct routes first and the relay circuits after.
-/

namespace P2Proxy

open Interaction

def findNodesDiscoveryLimit : Nat := 25
def maxDiscoveryAttempts : Nat := 20
def maxPinnedPasses : Nat := 20
def stickyReconnectAttempts : Nat := 3

inductive ConnectError
  | pinnedExhausted (port : Port) (count : Nat)
  | discoveryExhausted (port : Port) (attempts : Nat)
  | shutdown
  | directory (error : DirectoryError)
deriving DecidableEq

structure ConnectedDestination where
  peer : PeerId
  source : DestinationSource
deriving DecidableEq

/-- The routes to try for a pinned entry: what the hub returned for its id, and its verbatim address. -/
def candidateRoutes (entry : DestinationPeerEntry) (resolved : Routes) : Finset Multiaddr :=
  ((resolved.lookup entry.peerId).getD []).toFinset ∪ entry.address.toFinset

/-- The routes to `peers` in the hub's answer.  A hub that cannot answer the query is replaced by circuits through
the relay; any other failure yields no route. -/
def routesOf (relayAddress : Multiaddr) (peers : List PeerId) : Except DirectoryError Routes → Routes
  | .ok routes => routes
  | .error (.unsupported _) =>
    .collect (peers.filterMap fun p => (synthesizeCircuit relayAddress p).map fun a => (p, [a]))
  | .error _ => ∅

/-- The remembered address of `peer`, tagged with its id; an address that ends in another peer is not used. -/
def rememberedRoute (direct : Option Multiaddr) (peer : PeerId) : Option Multiaddr :=
  direct.bind fun a =>
    match Multiaddr.withP2p a peer with
    | .ok tagged => some tagged
    | .error _ => none

/-- The routes raced for one known peer: its remembered address, the hub's routes, and a circuit if there is neither. -/
def reachRoutes (relayAddress : Multiaddr) (direct : Option Multiaddr) (resolved : Routes) (peer : PeerId) :
    Finset Multiaddr :=
  let routes := (rememberedRoute direct peer).toFinset ∪ resolved.flatten.toFinset
  if routes = ∅ then (synthesizeCircuit relayAddress peer).toFinset else routes

/-- The addresses of all candidates of one discovery answer; a candidate without addresses gets a circuit. -/
def candidateAddresses (relayAddress : Multiaddr) (candidates : List PoolPeer) : Finset Multiaddr :=
  (candidates.flatMap fun c =>
    if c.addresses.isEmpty then (synthesizeCircuit relayAddress c.peerId).toList else c.addresses).toFinset

variable {S : Type}

def dialSet (addresses : Finset Multiaddr) : M S (Option PeerId) :=
  if addresses = ∅ then pure none
  else do
    match ← ask (Call.dialAndWait addresses) with
    | .ok peer => pure peer
    | .error _ => pure none

def dial (addresses : Finset Multiaddr) : M S (Option PeerId) := do
  match ← dialSet (partitionDirectFirst addresses).1 with
  | some peer => pure (some peer)
  | none => dialSet (partitionDirectFirst addresses).2

def resolveRoutes (relayAddress : Multiaddr) (peers : List PeerId) : M S Routes := do
  let answer ← ask (Call.resolvePeers peers)
  pure (routesOf relayAddress peers answer)

/-- Which pinned entries have a route. -/
def pinnedStatuses (pinned : List DestinationPeerEntry) (resolved : Routes) : List PinnedPeerStatus :=
  pinned.zipIdx.map fun e =>
    { peerId := e.1.peerId, rank := e.2, resolvable := candidateRoutes e.1 resolved ≠ ∅ }

def emitPinnedStatuses (port : Port) (pinned : List DestinationPeerEntry) (resolved : Routes) : M S Unit :=
  emit (.pinnedPeerStatuses port (pinnedStatuses pinned resolved))

/-- A higher-preference rank may have connected late; prefer it. -/
def adoptBestPinnedRank (pinned : List DestinationPeerEntry) (rank : Nat) (peer : PeerId) :
    M S (Nat × PeerId) := do
  let better ← (pinned.take rank).zipIdx.findSomeM? fun e => do
    if ← ask (Call.isConnected e.1.peerId) then pure (some (e.2, e.1.peerId)) else pure none
  pure (better.getD (rank, peer))

/-- One entry of a pass over the pinned list. -/
def dialPinned (pinned : List DestinationPeerEntry) (resolved : Routes) (e : DestinationPeerEntry × Nat) :
    M S (Option ConnectedDestination) :=
  if candidateRoutes e.1 resolved = ∅ then pure none
  else do
    match ← dial (candidateRoutes e.1 resolved) with
    | none => pure none
    | some peer => do
      let best ← adoptBestPinnedRank pinned e.2 peer
      pure (some { peer := best.2, source := .pinned best.1 })

/-- One pass over the pinned list. -/
def pinnedPass (relayAddress : Multiaddr) (port : Port) (pinned : List DestinationPeerEntry) :
    M S (Option ConnectedDestination) := do
  let resolved ← resolveRoutes relayAddress (pinned.map (·.peerId))
  emitPinnedStatuses port pinned resolved
  pinned.zipIdx.findSomeM? (dialPinned pinned resolved)

variable [StickyStore S]

def remember (server : Server) (fingerprint : String) (peer : PeerId) : M S Unit :=
  if server.peerOptions.sticky then do
    let now ← ask Call.utcNow
    modify fun s => (StickyStore.remember now server.port fingerprint peer server.pool.maxTotal s).2
  else pure ()

/-- One attempt to reach a known peer. -/
def tryReachPeer (relayAddress : Multiaddr) (server : Server) (peer : PeerId) : M S (Option PeerId) := do
  let s ← get
  let resolved ← resolveRoutes relayAddress [peer]
  dial (reachRoutes relayAddress (StickyStore.directAddress server.port peer s) resolved peer)

def reachSpecificPeer (relayAddress : Multiaddr) (server : Server) (peer : PeerId) : M S (Option PeerId) :=
  tryReachPeer relayAddress server peer

/-- `n` attempts to reach `peer`, with a delay between two of them. -/
def reconnectLoop (relayAddress : Multiaddr) (server : Server) (peer : PeerId) :
    Nat → Backoff → M S (Option PeerId)
  | 0, _ => pure none
  | n + 1, backoff => do
    match ← tryReachPeer relayAddress server peer with
    | some reached => pure (some reached)
    | none =>
      if 0 < n then do
        sleep backoff.nextDelay.1
        reconnectLoop relayAddress server peer n backoff.nextDelay.2
      else pure none

/-- Fight to reconnect to the exit that has just dropped. -/
def reconnectStickyPeer (relayAddress : Multiaddr) (server : Server) (peer : PeerId) : M S (Option PeerId) :=
  reconnectLoop relayAddress server peer stickyReconnectAttempts (.new (.fromSecs 1) 2 (.fromSecs 8))

/-- One member of the remembered pool; a member that cannot be reached is forgotten. -/
def tryPoolMember (relayAddress : Multiaddr) (server : Server) (skip : Option PeerId) (peer : PeerId) :
    M S (Option PeerId) :=
  if some peer = skip then pure none
  else do
    match ← tryReachPeer relayAddress server peer with
    | some reached => pure (some reached)
    | none => do
      modify (StickyStore.forgetPeer server.port peer)
      pure none

/-- Try each remembered pool member in most-recently-used order. -/
def connectStickyPool (relayAddress : Multiaddr) (server : Server) (fingerprint : String) (skip : Option PeerId) :
    M S (Option PeerId) :=
  if server.peerOptions.sticky then do
    let peers ← modifyGet (StickyStore.pool server.port fingerprint)
    peers.findSomeM? (tryPoolMember relayAddress server skip)
  else pure none

/-- One discovery: ask the hub for candidates and race all their addresses. -/
def discoveryAttempt (relayAddress : Multiaddr) (server : Server) (fingerprint : String) :
    M S (Option ConnectedDestination) := do
  match ← ask (Call.findNodes server findNodesDiscoveryLimit) with
  | .error _ => do
    sleep (.fromSecs 1)
    pure none
  | .ok candidates => do
    emit (.serverPool server.port candidates)
    if candidates.isEmpty then do
      sleep (.fromSecs 1)
      pure none
    else do
      match ← dial (candidateAddresses relayAddress candidates) with
      | none => pure none
      | some peer => do
        remember server fingerprint peer
        pure (some { peer, source := .discovered })

def runDiscovery (relayAddress : Multiaddr) (server : Server) (fingerprint : String) :
    M S (Except ConnectError ConnectedDestination) := do
  match ← attempts (discoveryAttempt relayAddress server fingerprint) maxDiscoveryAttempts with
  | some destination => pure (.ok destination)
  | none => do
    emit (.error (s!"Failed to connect with any peer for :{server.port} after {maxDiscoveryAttempts} attempts " ++
      s!"(filter: {server.peerOptions.display})."))
    pure (.error (.discoveryExhausted server.port maxDiscoveryAttempts))

/-- The pool pre-pass and discovery, once the dropped exit is given up. -/
def connectPoolOrDiscover (relayAddress : Multiaddr) (server : Server) (fingerprint : String)
    (avoid : Option PeerId) : M S (Except ConnectError ConnectedDestination) := do
  match ← connectStickyPool relayAddress server fingerprint avoid with
  | some peer => do
    remember server fingerprint peer
    pure (.ok { peer, source := .sticky })
  | none => runDiscovery relayAddress server fingerprint

/-- The dropped exit that a server with backoff fights for. -/
def reconnectTarget (server : Server) (avoid : Option PeerId) : Option PeerId :=
  avoid.filter fun _ => server.peerOptions.sticky && server.peerOptions.stickyReconnect = .withBackoff

def connectDiscovered (relayAddress : Multiaddr) (server : Server) (avoid : Option PeerId) :
    M S (Except ConnectError ConnectedDestination) :=
  match reconnectTarget server avoid with
  | some old => do
    match ← reconnectStickyPeer relayAddress server old with
    | some peer => do
      remember server server.fingerprint peer
      pure (.ok { peer, source := .sticky })
    | none => do
      modify (StickyStore.forgetPeer server.port old)
      connectPoolOrDiscover relayAddress server server.fingerprint avoid
  | none => connectPoolOrDiscover relayAddress server server.fingerprint avoid

/-- One pass over the pinned list and what follows when it fails: discovery if the server opted in, else a pause. -/
def pinnedRound (relayAddress : Multiaddr) (server : Server) (pinned : List DestinationPeerEntry) :
    M S (Option (Except ConnectError ConnectedDestination)) := do
  match ← pinnedPass relayAddress server.port pinned with
  | some destination => pure (some (.ok destination))
  | none =>
    if server.peerOptions.fallbackToDiscovery then do
      let result ← connectDiscovered relayAddress server none
      pure (some result)
    else do
      sleep (.fromSecs 1)
      pure none

def connectPinned (relayAddress : Multiaddr) (server : Server) (pinned : List DestinationPeerEntry) :
    M S (Except ConnectError ConnectedDestination) := do
  match ← attempts (pinnedRound relayAddress server pinned) maxPinnedPasses with
  | some result => pure result
  | none => do
    emit (.error s!"All {pinned.length} pinned peer(s) for :{server.port} are offline or unresolvable.")
    pure (.error (.pinnedExhausted server.port pinned.length))

/-- Connect `server` to an exit; `avoid` is the peer that has just dropped. -/
def connect (relayAddress : Multiaddr) (server : Server) (avoid : Option PeerId) :
    M S (Except ConnectError ConnectedDestination) :=
  if server.peerOptions.pinned = [] then connectDiscovered relayAddress server avoid
  else connectPinned relayAddress server server.peerOptions.pinned

end P2Proxy
