import P2Proxy.Discovery
import P2Proxy.Interaction.Sweep

/-!
# The network actor

The actor owns the swarm.  It submits dials and answers them when one of the candidates connects or their time is up,
tells the discovery actor and the event sink which peers connect and close, and keeps the link to the hub.  `handle` is
what it does with one input: its new state, and what it asks of the swarm and sends to others, in this order.
-/

namespace P2Proxy

open Interaction

def dialTimeout : Duration := .fromSecs 10

/-- Consecutive ping failures after which a connection is torn down. -/
def maxPingStrikes : Nat := 3

/-- The channel on which the answer to one command is sent. -/
abbrev ReplyChannel := Nat

structure PendingDial where
  candidates : Finset PeerId
  reply : ReplyChannel
  deadline : Instant
deriving DecidableEq

structure NetworkActor where
  pendingDials : List PendingDial
  bootstrapConnected : Bool
  bootstrapDialing : Bool
  pingStrikes : PeerId → Option Nat

inductive SwarmEvent
  | connectionEstablished (peer : PeerId) (address : Multiaddr) (relayed : Bool)
  | connectionClosed (peer : PeerId)
  | outgoingConnectionError (peer : Option PeerId)
  | pingFailed (peer : PeerId)
  | pingSucceeded (peer : PeerId)

inductive NetworkInput
  /-- the addresses are a set, listed in the order in which it is iterated -/
  | dial (addresses : List Multiaddr) (reply : ReplyChannel)
  | isConnected (peer : PeerId) (reply : ReplyChannel)
  | swarm (event : SwarmEvent)
  | expireDials
  | retryBootstrap
  | shutdown

/-- What the swarm and the clock answer while an input is handled. -/
structure Swarm where
  now : Instant
  /-- does `dial` submit the address? -/
  accepts : Multiaddr → Bool
  isConnected : PeerId → Bool
  connectedPeers : List PeerId

inductive NetworkEffect
  | dial (address : Multiaddr)
  | disconnectPeer (peer : PeerId)
  | sendDialled (reply : ReplyChannel) (peer : Option PeerId)
  | sendConnected (reply : ReplyChannel) (connected : Bool)
  | emit (event : Events)
  | spawnPeerConnected (peer : PeerId) (address : Multiaddr) (relayed : Bool)
  | spawnPeerClosed (peer : PeerId)

namespace NetworkActor

def new : NetworkActor where
  pendingDials := []
  bootstrapConnected := true
  bootstrapDialing := false
  pingStrikes _ := none

/-- Answer the pending dials that satisfy `done`. -/
def settleDials (a : NetworkActor) (done : PendingDial → Bool) (peer : Option PeerId) :
    NetworkActor × List NetworkEffect :=
  let r := sweepAll done a.pendingDials
  ({ a with pendingDials := r.2 }, r.1.map fun d => .sendDialled d.reply peer)

def completePendingDials (a : NetworkActor) (peer : PeerId) : NetworkActor × List NetworkEffect :=
  a.settleDials (fun d => peer ∈ d.candidates) (some peer)

def expireDials (a : NetworkActor) (now : Instant) : NetworkActor × List NetworkEffect :=
  a.settleDials (fun d => d.deadline ≤ now) none

/-- Dial the candidates, and remember whom to answer; without a candidate the answer is `none` at once. -/
def handleDial (w : Swarm) (a : NetworkActor) (addresses : List Multiaddr) (reply : ReplyChannel) :
    NetworkActor × List NetworkEffect :=
  let candidates := destinationPeerIds addresses.toFinset
  if candidates = ∅ then (a, [.sendDialled reply none])
  else
    let pending := { candidates, reply, deadline := w.now + dialTimeout.nanos }
    ({ a with pendingDials := a.pendingDials ++ [pending] }, addresses.map .dial)

def handleSwarmEvent (ctx : Context) (a : NetworkActor) : SwarmEvent → NetworkActor × List NetworkEffect
  | .connectionEstablished peer address relayed =>
    let r := a.completePendingDials peer
    let isHub : Bool := peer = ctx.bootstrapPeerId
    ({ r.1 with
        bootstrapConnected := isHub || r.1.bootstrapConnected
        bootstrapDialing := !isHub && r.1.bootstrapDialing },
      r.2 ++ [.emit (.connection (.connected peer)), .emit (.peerRoute peer address relayed)] ++
        if isHub then [] else [.spawnPeerConnected peer address relayed])
  | .connectionClosed peer =>
    let isHub : Bool := peer = ctx.bootstrapPeerId
    ({ a with
        pingStrikes := Function.update a.pingStrikes peer none
        bootstrapConnected := !isHub && a.bootstrapConnected
        bootstrapDialing := !isHub && a.bootstrapDialing },
      [.emit (.connection (.disconnected peer)), .spawnPeerClosed peer])
  | .outgoingConnectionError peer =>
    let isHub : Bool := peer = some ctx.bootstrapPeerId
    ({ a with bootstrapDialing := !isHub && a.bootstrapDialing }, [])
  | .pingFailed peer =>
    let strikes := (a.pingStrikes peer).getD 0 + 1
    if strikes < maxPingStrikes then
      ({ a with pingStrikes := Function.update a.pingStrikes peer (some strikes) }, [])
    else ({ a with pingStrikes := Function.update a.pingStrikes peer none }, [.disconnectPeer peer])
  | .pingSucceeded peer => ({ a with pingStrikes := Function.update a.pingStrikes peer none }, [])

def tryDialBootstrap (ctx : Context) (w : Swarm) (a : NetworkActor) : NetworkActor × List NetworkEffect :=
  if a.bootstrapConnected || a.bootstrapDialing then (a, [])
  else ({ a with bootstrapDialing := w.accepts ctx.bootstrapAddress }, [.dial ctx.bootstrapAddress])

def handle (ctx : Context) (w : Swarm) (a : NetworkActor) : NetworkInput → NetworkActor × List NetworkEffect
  | .dial addresses reply => handleDial w a addresses reply
  | .isConnected peer reply => (a, [.sendConnected reply (w.isConnected peer)])
  | .swarm event => handleSwarmEvent ctx a event
  | .expireDials => a.expireDials w.now
  | .retryBootstrap => tryDialBootstrap ctx w a
  | .shutdown => (a, w.connectedPeers.map .disconnectPeer)

end NetworkActor

/-! ### What the actor reports -/

namespace NetworkEffect

/-- An announcement, or a message to the discovery actor. -/
def isReport : NetworkEffect → Bool
  | .emit _ | .spawnPeerConnected _ _ _ | .spawnPeerClosed _ => true
  | .dial _ | .disconnectPeer _ | .sendDialled _ _ | .sendConnected _ _ => false

end NetworkEffect

namespace NetworkActor

variable {ctx : Context} {a : NetworkActor} {w : Swarm} {input : NetworkInput}

/-- The reports about an input: only opening and closing connections are reported, whatever the state of the actor. -/
def reports (ctx : Context) : NetworkInput → List NetworkEffect
  | .swarm (.connectionEstablished peer address relayed) =>
    [.emit (.connection (.connected peer)), .emit (.peerRoute peer address relayed)] ++
      if peer = ctx.bootstrapPeerId then [] else [.spawnPeerConnected peer address relayed]
  | .swarm (.connectionClosed peer) => [.emit (.connection (.disconnected peer)), .spawnPeerClosed peer]
  | _ => []

private theorem filter_settleDials (done : PendingDial → Bool) (peer : Option PeerId) :
    (a.settleDials done peer).2.filter NetworkEffect.isReport = [] := by
  refine List.filter_eq_nil_iff.2 fun e he => ?_
  obtain ⟨d, -, rfl⟩ := List.mem_map.1 he
  exact Bool.false_ne_true

theorem filter_handle : (a.handle ctx w input).2.filter NetworkEffect.isReport = reports ctx input := by
  cases input with
  | dial addresses reply =>
    simp only [handle, handleDial]
    split
    · rfl
    · refine List.filter_eq_nil_iff.2 fun e he => ?_
      obtain ⟨address, -, rfl⟩ := List.mem_map.1 he
      exact Bool.false_ne_true
  | isConnected peer reply => rfl
  | swarm event =>
    cases event with
    | connectionEstablished peer address relayed =>
      simp only [handle, handleSwarmEvent, completePendingDials, List.filter_append, filter_settleDials, reports]
      by_cases hhub : peer = ctx.bootstrapPeerId
      · simp only [hhub, decide_true, if_true]
        rfl
      · simp only [hhub, decide_false, if_false]
        rfl
    | connectionClosed peer => rfl
    | outgoingConnectionError peer => rfl
    | pingFailed peer =>
      simp only [handle, handleSwarmEvent]
      split <;> rfl
    | pingSucceeded peer => rfl
  | expireDials => exact filter_settleDials _ _
  | retryBootstrap =>
    simp only [handle, tryDialBootstrap]
    split <;> rfl
  | shutdown =>
    refine List.filter_eq_nil_iff.2 fun e he => ?_
    obtain ⟨peer, -, rfl⟩ := List.mem_map.1 he
    exact Bool.false_ne_true

/-- What is collected from the reports alone does not depend on the state of the actor. -/
theorem filterMap_handle {α : Type} {f : NetworkEffect → Option α} (hf : ∀ e, e.isReport = false → f e = none) :
    (a.handle ctx w input).2.filterMap f = (reports ctx input).filterMap f := by
  rw [← filter_handle (a := a) (w := w), List.filterMap_filter]
  refine List.filterMap_congr fun e _ => ?_
  cases he : e.isReport with
  | true => simp
  | false => simpa using hf e he

/-- A report is made exactly if it is among the reports about the input. -/
theorem mem_handle_iff {e : NetworkEffect} (he : e.isReport = true) :
    e ∈ (a.handle ctx w input).2 ↔ e ∈ reports ctx input := by
  rw [← filter_handle (a := a) (w := w), List.mem_filter, and_iff_left he]

/-- Only the connections of the hub set and clear the flag. -/
theorem bootstrapConnected_handle : (a.handle ctx w input).1.bootstrapConnected =
    match input with
    | .swarm (.connectionEstablished peer _ _) => decide (peer = ctx.bootstrapPeerId) || a.bootstrapConnected
    | .swarm (.connectionClosed peer) => !decide (peer = ctx.bootstrapPeerId) && a.bootstrapConnected
    | _ => a.bootstrapConnected := by
  cases input with
  | dial addresses reply =>
    simp only [handle, handleDial]
    split <;> rfl
  | swarm event =>
    cases event with
    | pingFailed peer =>
      simp only [handle, handleSwarmEvent]
      split <;> rfl
    | _ => rfl
  | retryBootstrap =>
    simp only [handle, tryDialBootstrap]
    split <;> rfl
  | _ => rfl

end NetworkActor

end P2Proxy
