import P2Proxy.Ports

/-!
# The state of the user interface

The user interface keeps its own picture of the peers, the pools and the exits of all ports.  It never looks at the
actors: `handleSwarmEvents` reduces the events that they emit, one after the other.
-/

namespace P2Proxy

inductive ConnectionStatus
  | connecting
  | connected (peer : PeerId)
  | disconnected

/-- Where the known address of a peer came from, worst first. -/
inductive AddrSource
  | candidate
  | relayed
  | direct
deriving DecidableEq

namespace AddrSource

def rank : AddrSource → Nat
  | .candidate => 0
  | .relayed => 1
  | .direct => 2

def classifyCandidate (addr : Multiaddr) : AddrSource := if isRelayed addr then .relayed else .direct

end AddrSource

structure PeerAddr where
  addr : Multiaddr
  source : AddrSource

structure UIState where
  localPeerId : Option PeerId
  connectionStatus : ConnectionStatus
  peers : Finset PeerId
  sessions : Finset SessionId
  totalUpload : UInt64
  totalDownload : UInt64
  lastError : Option String
  serverPools : Port → Option (List PeerId)
  stickyPools : Port → Option (List PeerId)
  activeDestinations : Port → Option PeerId
  destinationSources : Port → Option DestinationSource
  pinnedStatuses : Port → Option (List PinnedPeerStatus)
  sessionPeer : SessionId → Option PeerId
  peerBandwidth : PeerId → Option (UInt64 × UInt64)
  peerAddresses : PeerId → Option PeerAddr

/-- The state, and the selection whose outcome is awaited. -/
structure Ui where
  state : UIState
  networkPendingSelection : Option (Port × PeerId × Instant)

namespace UIState

open Function (update)

def new : UIState where
  localPeerId := none
  connectionStatus := .connecting
  peers := ∅
  sessions := ∅
  totalUpload := 0
  totalDownload := 0
  lastError := none
  serverPools _ := none
  stickyPools _ := none
  activeDestinations _ := none
  destinationSources _ := none
  pinnedStatuses _ := none
  sessionPeer _ := none
  peerBandwidth _ := none
  peerAddresses _ := none

/-- Record an address for `peer`, unless a better one is known. -/
def notePeerAddress (st : UIState) (peer : PeerId) (addr : Multiaddr) (source : AddrSource) : UIState :=
  if (st.peerAddresses peer).any fun existing => source.rank < existing.source.rank then st
  else { st with peerAddresses := update st.peerAddresses peer (some { addr, source }) }

/-- Record an address of each candidate that has one. -/
def noteCandidates (st : UIState) (address : PoolPeer → Option Multiaddr) (peers : List PoolPeer) : UIState :=
  peers.foldl (fun st pp =>
    match address pp with
    | some addr => st.notePeerAddress pp.peerId addr .candidate
    | none => st) st

/-- Count the bytes of a session for its peer, if it is known; the counters wrap, as in a release build. -/
def countBandwidth (st : UIState) (id : SessionId) (upload download : UInt64) : UIState :=
  match st.sessionPeer id with
  | some peer =>
    let b := (st.peerBandwidth peer).getD (0, 0)
    { st with peerBandwidth := update st.peerBandwidth peer (some (b.1 + upload, b.2 + download)) }
  | none => st

def handleConnection (st : UIState) : ConnectionEvents → UIState
  | .connecting => { st with connectionStatus := .connecting }
  | .connected peer =>
    { st with connectionStatus := .connected peer, peers := insert peer st.peers, lastError := none }
  | .disconnected peer =>
    { st with
      peers := st.peers.erase peer
      peerBandwidth := update st.peerBandwidth peer none
      peerAddresses := update st.peerAddresses peer none
      serverPools := fun port => (st.serverPools port).map fun pool => pool.filter (· ≠ peer)
      activeDestinations := fun port => (st.activeDestinations port).filter (· ≠ peer)
      connectionStatus := if st.peers.erase peer = ∅ then .disconnected else st.connectionStatus }

def handleSession (st : UIState) : SessionEvents → UIState
  | .new id _ peer =>
    { st with
      peers := insert peer st.peers
      sessionPeer := update st.sessionPeer id (some peer)
      sessions := insert id st.sessions }
  | .ends id => { st with sessions := st.sessions.erase id, sessionPeer := update st.sessionPeer id none }

def handleBandwidth (st : UIState) : BandwidthEvents → UIState
  | .upload id bytes => { st with totalUpload := st.totalUpload + bytes }.countBandwidth id bytes 0
  | .download id bytes => { st with totalDownload := st.totalDownload + bytes }.countBandwidth id 0 bytes

/-- The route shown for a candidate: its first direct address, or else its first address. -/
def candidateAddress (pp : PoolPeer) : Option Multiaddr :=
  (pp.addresses.find? fun a => AddrSource.classifyCandidate a = .direct).or pp.addresses.head?

/-- A new answer of the hub replaces the pool; the active peer stays visible. -/
def handleServerPool (st : UIState) (port : Port) (peers : List PoolPeer) : UIState :=
  let ids := peers.map (·.peerId)
  let shown := match st.activeDestinations port with
    | some active => if active ∈ ids then ids else ids ++ [active]
    | none => ids
  { st.noteCandidates candidateAddress peers with serverPools := update st.serverPools port (some shown) }

def handleActiveDestination (st : UIState) (port : Port) (peer : Option PeerId) (source : Option DestinationSource) :
    UIState :=
  match peer with
  | some p =>
    let pool := (st.serverPools port).getD []
    { st with
      peers := insert p st.peers
      activeDestinations := update st.activeDestinations port (some p)
      serverPools := update st.serverPools port (some (if p ∈ pool then pool else pool ++ [p]))
      destinationSources := update st.destinationSources port source }
  | none =>
    { st with
      activeDestinations := update st.activeDestinations port none
      destinationSources := update st.destinationSources port none }

def handleStickyPool (st : UIState) (port : Port) (peers : List PoolPeer) : UIState :=
  { st.noteCandidates (fun pp => pp.addresses.head?) peers with
    stickyPools := update st.stickyPools port (some (peers.map (·.peerId))) }

end UIState

namespace Ui

def new : Ui := { state := .new, networkPendingSelection := none }

def handleSwarmEvents (ui : Ui) : Events → Ui
  | .localPeerId peer => { ui with state := { ui.state with localPeerId := some peer } }
  | .connection event => { ui with state := ui.state.handleConnection event }
  | .session event => { ui with state := ui.state.handleSession event }
  | .bandwidth event => { ui with state := ui.state.handleBandwidth event }
  | .error message => { networkPendingSelection := none, state := { ui.state with lastError := some message } }
  | .serverPool port peers => { ui with state := ui.state.handleServerPool port peers }
  | .peerRoute peer address relayed =>
    { ui with state := ui.state.notePeerAddress peer address (if relayed then .relayed else .direct) }
  | .activeDestination port peer source =>
    { networkPendingSelection := ui.networkPendingSelection.filter fun s => s.1 ≠ port
      state := ui.state.handleActiveDestination port peer source }
  | .pinnedPeerStatuses port statuses =>
    { ui with state := { ui.state with
      pinnedStatuses := Function.update ui.state.pinnedStatuses port (some statuses) } }
  | .stickyPool port peers => { ui with state := ui.state.handleStickyPool port peers }

end Ui

/-! ### The exit and the pool that are shown -/

namespace UIState

/-- What is shown of a port: its exit, and its remembered pool. -/
def portShown (port : Port) (st : UIState) : Option PeerId × Option (List PeerId) :=
  (st.activeDestinations port, st.stickyPools port)

variable {st : UIState} {port : Port}

/-- Noting an address changes nothing but the addresses. -/
theorem notePeerAddress_eq {peer : PeerId} {addr : Multiaddr} {source : AddrSource} :
    st.notePeerAddress peer addr source =
    { st with peerAddresses := (st.notePeerAddress peer addr source).peerAddresses } := by
  unfold notePeerAddress
  split <;> rfl

theorem noteCandidates_cons_none {address : PoolPeer → Option Multiaddr} {pp : PoolPeer} {peers : List PoolPeer}
    (h : address pp = none) : st.noteCandidates address (pp :: peers) = st.noteCandidates address peers := by
  simp [noteCandidates, h]

theorem noteCandidates_cons_some {address : PoolPeer → Option Multiaddr} {pp : PoolPeer} {peers : List PoolPeer}
    {addr : Multiaddr} (h : address pp = some addr) : st.noteCandidates address (pp :: peers) =
      (st.notePeerAddress pp.peerId addr .candidate).noteCandidates address peers := by
  simp [noteCandidates, h]

theorem noteCandidates_eq {address : PoolPeer → Option Multiaddr} {peers : List PoolPeer} :
    st.noteCandidates address peers = { st with peerAddresses := (st.noteCandidates address peers).peerAddresses } := by
  induction peers generalizing st with
  | nil => rfl
  | cons pp peers ih =>
    cases haddr : address pp with
    | none =>
      rw [noteCandidates_cons_none haddr]
      exact ih
    | some addr =>
      rw [noteCandidates_cons_some haddr, ih, notePeerAddress_eq]

@[simp] theorem serverPools_noteCandidates {address : PoolPeer → Option Multiaddr} {peers : List PoolPeer} :
    (st.noteCandidates address peers).serverPools = st.serverPools := by
  rw [noteCandidates_eq]

/-- Counting bytes changes nothing but the counters of the peers. -/
theorem countBandwidth_eq {id : SessionId} {upload download : UInt64} : st.countBandwidth id upload download =
    { st with peerBandwidth := (st.countBandwidth id upload download).peerBandwidth } := by
  unfold countBandwidth
  split <;> rfl

@[simp] theorem serverPools_notePeerAddress {peer : PeerId} {addr : Multiaddr} {source : AddrSource} :
    (st.notePeerAddress peer addr source).serverPools = st.serverPools := by
  rw [notePeerAddress_eq]

@[simp] theorem serverPools_countBandwidth {id : SessionId} {upload download : UInt64} :
    (st.countBandwidth id upload download).serverPools = st.serverPools := by
  rw [countBandwidth_eq]

@[simp] theorem portShown_notePeerAddress {peer : PeerId} {addr : Multiaddr} {source : AddrSource} :
    (st.notePeerAddress peer addr source).portShown port = st.portShown port := by
  rw [notePeerAddress_eq]
  rfl

@[simp] theorem portShown_noteCandidates {address : PoolPeer → Option Multiaddr} {peers : List PoolPeer} :
    (st.noteCandidates address peers).portShown port = st.portShown port := by
  rw [noteCandidates_eq]
  rfl

@[simp] theorem portShown_countBandwidth {id : SessionId} {upload download : UInt64} :
    (st.countBandwidth id upload download).portShown port = st.portShown port := by
  rw [countBandwidth_eq]
  rfl

end UIState

/-- The exit shown for a port after an event. -/
def exitShown (port : Port) (shown : Option PeerId) : Events → Option PeerId
  | .connection (.disconnected peer) => shown.filter (· ≠ peer)
  | .activeDestination q peer _ => if q = port then peer else shown
  | _ => shown

/-- The remembered pool shown for a port after an event. -/
def poolShown (port : Port) (shown : Option (List PeerId)) : Events → Option (List PeerId)
  | .stickyPool q peers => if q = port then some (peers.map (·.peerId)) else shown
  | _ => shown

/-- Disconnecting peers and the announcements of the port decide what is shown of it. -/
theorem Ui.portShown_handleSwarmEvents {ui : Ui} {port : Port} {event : Events} :
    (ui.handleSwarmEvents event).state.portShown port =
      (exitShown port (ui.state.activeDestinations port) event, poolShown port (ui.state.stickyPools port) event) := by
  cases event with
  | connection event => cases event <;> rfl
  | session event => cases event <;> rfl
  | bandwidth event => cases event <;> exact UIState.portShown_countBandwidth
  | serverPool q peers =>
    have hnoted : (ui.state.noteCandidates UIState.candidateAddress peers).portShown port = ui.state.portShown port :=
      UIState.portShown_noteCandidates
    exact hnoted
  | peerRoute peer address relayed => exact UIState.portShown_notePeerAddress
  | activeDestination q peer source =>
    by_cases hq : port = q
    · subst hq
      cases peer <;> simp [handleSwarmEvents, UIState.handleActiveDestination, UIState.portShown, exitShown, poolShown]
    · have hne : q ≠ port := Ne.symm hq
      cases peer <;>
        simp [handleSwarmEvents, UIState.handleActiveDestination, UIState.portShown, exitShown, poolShown, hq, hne]
  | stickyPool q peers =>
    have hnoted : (ui.state.noteCandidates (fun pp => pp.addresses.head?) peers).portShown port =
        ui.state.portShown port := UIState.portShown_noteCandidates
    have hactive : (ui.state.noteCandidates (fun pp => pp.addresses.head?) peers).activeDestinations port =
        ui.state.activeDestinations port := congrArg Prod.fst hnoted
    refine Prod.ext hactive ?_
    by_cases hq : q = port
    · subst hq
      simp [handleSwarmEvents, UIState.handleStickyPool, UIState.portShown, poolShown]
    · have hne : port ≠ q := Ne.symm hq
      simp [handleSwarmEvents, UIState.handleStickyPool, UIState.portShown, poolShown, hq, hne]
  | _ => rfl

end P2Proxy
