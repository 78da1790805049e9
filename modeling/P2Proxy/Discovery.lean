import P2Proxy.ConnectRules
import P2Proxy.Interaction.Run

/-!
# The discovery actor

The actor owns the sticky store and the destination of every port.  It handles one event at a time: `handle` is the
program for an event, and `Step` the transition system whose labels are the events handled, each with the trace of what
passed between the actor and the outside meanwhile.
-/

namespace P2Proxy

open Interaction

/-- What every actor can read. -/
structure Context where
  servers : List Server
  relayAddress : Multiaddr
  bootstrapPeerId : PeerId
  bootstrapAddress : Multiaddr

/-- The first server configured for `port`. -/
def Context.server? (ctx : Context) (port : Port) : Option Server := ctx.servers.find? fun s => s.port = port

/-- The context that the repository's tests build. -/
def dummyContext (servers : List Server) : Context :=
  { servers, relayAddress := [], bootstrapPeerId := ⟨[0]⟩, bootstrapAddress := [] }

theorem nodup_onePort : ([1080] : List Port).Nodup := List.nodup_singleton 1080

/-! ### Destinations -/

/-- The map from ports to destination handles: its keys, in the order it is iterated in, and the value in each
handle. -/
structure Destinations where
  ports : List Port
  active : Port → Option PeerId
  nodup : ports.Nodup
  outside : ∀ port ∉ ports, active port = none

namespace Destinations

/-- Every handle is empty. -/
def dark (ports : List Port) (nodup : ports.Nodup) : Destinations :=
  { ports, active := fun _ => none, nodup, outside := fun _ _ => rfl }

/-- Store `peer` in the handle of `port`, if there is one. -/
def set (d : Destinations) (port : Port) (peer : Option PeerId) : Destinations where
  ports := d.ports
  active q := if q = port ∧ port ∈ d.ports then peer else d.active q
  nodup := d.nodup
  outside q hq := by
    have hne : ¬(q = port ∧ port ∈ d.ports) := by rintro ⟨rfl, h⟩; exact hq h
    rw [if_neg hne]
    exact d.outside q hq

/-- The ports whose handle satisfies `p`, in the order of iteration. -/
def portsWhere (d : Destinations) (p : Option PeerId → Bool) : List Port := d.ports.filter fun port => p (d.active port)

variable {d : Destinations} {port q : Port} {peer : Option PeerId} {p : Option PeerId → Bool}

theorem active_set_self (h : port ∈ d.ports) : (d.set port peer).active port = peer := if_pos ⟨rfl, h⟩

theorem active_set_of_ne (h : q ≠ port) : (d.set port peer).active q = d.active q := if_neg fun hq => h hq.1

theorem mem_ports_of_active {p : PeerId} (h : d.active port = some p) : port ∈ d.ports := by
  by_contra hn
  rw [d.outside port hn] at h
  cases h

theorem mem_portsWhere : port ∈ d.portsWhere p ↔ port ∈ d.ports ∧ p (d.active port) = true := List.mem_filter

end Destinations

/-! ### The actor -/

structure DiscoveryActor (S : Type) where
  sticky : S
  destinations : Destinations
  lastRediscovery : Port → Option Instant
  pendingRediscovery : Finset Port
  directPeers : Finset PeerId

inductive DiscoveryEvent
  | discoverFor (port : Port)
  | requestNewPeer (port : Port)
  | peerClosed (peer : PeerId)
  | peerUnusable (peer : PeerId)
  | peerConnected (peer : PeerId) (address : Multiaddr) (relayed : Bool)
  | selectPeer (port : Port) (peer : PeerId)

def rediscoveryCooldown : Duration := .fromSecs 30

namespace DiscoveryActor

variable {S : Type}

def new (sticky : S) (destinations : Destinations) : DiscoveryActor S :=
  { sticky, destinations, lastRediscovery := fun _ => none, pendingRediscovery := ∅, directPeers := ∅ }

/-- The active exit of `port`. -/
def destination (a : DiscoveryActor S) (port : Port) : Option PeerId := a.destinations.active port

/-- Run a program of the connect flow on the actor's store. -/
def withSticky {α : Type} (m : M S α) : M (DiscoveryActor S) α :=
  zoom (·.sticky) (fun sticky a => { a with sticky }) m

/-- The announcement of the exit of `port`. -/
def activeEvent (port : Port) (destination : Option ConnectedDestination) : Events :=
  .activeDestination port (destination.map (·.peer)) (destination.map (·.source))

/-- Store the exit of `port` and announce it; `none` clears the port. -/
def storeDestination (port : Port) (destination : Option ConnectedDestination) : M (DiscoveryActor S) Unit := do
  modify fun a => { a with destinations := a.destinations.set port (destination.map (·.peer)) }
  emit (activeEvent port destination)

def setDestination (port : Port) (destination : ConnectedDestination) : M (DiscoveryActor S) Unit :=
  storeDestination port (some destination)

def clearDestination (port : Port) : M (DiscoveryActor S) Unit := storeDestination port none

variable [StickyStore S]

/-- Announce the remembered standby pool. -/
def emitStickyPool (server : Server) : M (DiscoveryActor S) Unit := do
  let a ← get
  emit (.stickyPool server.port (StickyStore.snapshot server.port server.fingerprint a.sticky))

def discover (ctx : Context) (port : Port) (avoid : Option PeerId) : M (DiscoveryActor S) (Option PeerId) := do
  modify fun a => { a with pendingRediscovery := a.pendingRediscovery.erase port }
  match ctx.server? port with
  | none => pure none
  | some server => do
    let result ← withSticky (connect ctx.relayAddress server avoid)
    emitStickyPool server
    match result with
    | .ok destination => do
      setDestination port destination
      pure (some destination.peer)
    | .error _ => do
      clearDestination port
      pure none

/-- Rediscover a port whose exit `peer` has closed, and note when. -/
def rediscover (ctx : Context) (peer : PeerId) (port : Port) : M (DiscoveryActor S) Unit := do
  let now ← ask Call.instantNow
  modify fun a => { a with lastRediscovery := Function.update a.lastRediscovery port (some now) }
  let _ ← discover ctx port (some peer)

/-- Clear a port inside the cooldown, and schedule one rediscovery for its end. -/
def throttle (port : Port) (elapsed : Duration) : M (DiscoveryActor S) Unit := do
  clearDestination port
  let a ← get
  if port ∈ a.pendingRediscovery then pure ()
  else do
    modify fun a => { a with pendingRediscovery := insert port a.pendingRediscovery }
    ask (Call.spawnDiscoverFor port (rediscoveryCooldown.sub elapsed))

/-- One port whose exit `peer` has closed. -/
def closePort (ctx : Context) (peer : PeerId) (port : Port) : M (DiscoveryActor S) Unit := do
  let a ← get
  match a.lastRediscovery port with
  | none => rediscover ctx peer port
  | some at_ => do
    let now ← ask Call.instantNow
    let elapsed := Duration.ofNanos (now - at_)
    if rediscoveryCooldown ≤ elapsed then rediscover ctx peer port
    else throttle port elapsed

def handlePeerClosed (ctx : Context) (peer : PeerId) : M (DiscoveryActor S) Unit := do
  modify fun a => { a with directPeers := a.directPeers.erase peer }
  let a ← get
  (a.destinations.portsWhere (· = some peer)).forM (closePort ctx peer)

/-- Record the address that a peer has just connected on. -/
def promoteDirect (peer : PeerId) (address : Multiaddr) : M (DiscoveryActor S) Unit :=
  modify fun a => { a with sticky := StickyStore.noteDirectAddress peer address a.sticky }

/-- Switch a server's exit to `peer`, and remember it. -/
def adoptSpecific (server : Server) (peer : PeerId) (source : DestinationSource) : M (DiscoveryActor S) Unit := do
  let now ← ask Call.utcNow
  modify fun a => { a with sticky :=
    (StickyStore.remember now server.port server.fingerprint peer server.pool.maxTotal a.sticky).2 }
  setDestination server.port { peer, source }
  emitStickyPool server

/-- One relay-stuck port: rotate it onto `candidate` if its pool knows the candidate. -/
def rotatePort (ctx : Context) (candidate : PeerId) (port : Port) : M (DiscoveryActor S) Unit :=
  match ctx.server? port with
  | none => pure ()
  | some server => do
    let peers ← withSticky (modifyGet (StickyStore.pool port (server.peerOptions.filterFingerprint port)))
    if candidate ∈ peers then adoptSpecific server candidate .sticky else pure ()

/-- Is an exit relay-only while `candidate` is somebody else? -/
def relayStuck (directPeers : Finset PeerId) (candidate : PeerId) : Option PeerId → Bool
  | some active => active ≠ candidate && active ∉ directPeers
  | none => false

def rotateOffRelayIfBetter (ctx : Context) (candidate : PeerId) : M (DiscoveryActor S) Unit := do
  let a ← get
  (a.destinations.portsWhere (relayStuck a.directPeers candidate)).forM (rotatePort ctx candidate)

/-- Drop a peer that cannot serve from every pool, then rediscover the ports it was serving. -/
def handlePeerUnusable (ctx : Context) (peer : PeerId) : M (DiscoveryActor S) Unit := do
  ctx.servers.forM fun server =>
    modify fun a => { a with sticky := StickyStore.forgetPeer server.port peer a.sticky }
  let a ← get
  (a.destinations.portsWhere (· = some peer)).forM fun port => do
    let _ ← discover ctx port none
  ctx.servers.forM emitStickyPool

/-- Reach the peer that the operator picked, and adopt it; if it cannot be reached, nothing changes. -/
def selectPeer (ctx : Context) (port : Port) (peer : PeerId) : M (DiscoveryActor S) Unit :=
  match ctx.server? port with
  | none => pure ()
  | some server => do
    match ← withSticky (reachSpecificPeer ctx.relayAddress server peer) with
    | some reached => adoptSpecific server reached .manual
    | none => emit (.error s!"could not reach peer {peer} for :{port} — active exit unchanged")

def handle (ctx : Context) : DiscoveryEvent → M (DiscoveryActor S) Unit
  | .discoverFor port => do
    let _ ← discover ctx port none
  | .requestNewPeer port => do
    let peer ← discover ctx port none
    ask (Call.reply peer)
  | .peerClosed peer => handlePeerClosed ctx peer
  | .peerUnusable peer => handlePeerUnusable ctx peer
  | .peerConnected peer address relayed =>
    if relayed then modify fun a => { a with directPeers := a.directPeers.erase peer }
    else do
      modify fun a => { a with directPeers := insert peer a.directPeers }
      promoteDirect peer address
      rotateOffRelayIfBetter ctx peer
  | .selectPeer port peer => selectPeer ctx port peer

/-- An event with the trace of its handling. -/
structure Label where
  event : DiscoveryEvent
  trace : List Io

/-- The actor handles an event. -/
def Step (ctx : Context) (a : DiscoveryActor S) (l : Label) (a' : DiscoveryActor S) : Prop :=
  Runs (handle ctx l.event) a l.trace () a'

theorem Step.deterministic {ctx : Context} {a a₁ a₂ : DiscoveryActor S} {l : Label} (h₁ : Step ctx a l a₁)
    (h₂ : Step ctx a l a₂) : a₁ = a₂ :=
  (Runs.unique h₁ h₂).2

end DiscoveryActor

end P2Proxy
