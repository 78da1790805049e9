import P2Proxy.PinnedConnect
import P2Proxy.PortView

/-!
# The hard pin

Connecting a pinned server without fallback yields a pinned peer or nobody.  Its port can still be led elsewhere: the
fingerprint of a pool says nothing about pins, so a pool that was remembered while the server had none is still valid,
and a relay-only exit is rotated onto a member of it.  `hard_pin_iff` says that a run leaves the pins in this way and in
no other.
-/

namespace P2Proxy

open Interaction

/-- The peers that a server is pinned to. -/
def Server.pinnedPeers (server : Server) : List PeerId := server.peerOptions.pinned.map (·.peerId)

/-- The exit of a port, if any, is a pinned peer. -/
def PortView.HardPinned (server : Server) (v : PortView) : Prop := ∀ p, v.exit = some p → p ∈ server.pinnedPeers

/-- Does the event bring a direct connection of a remembered peer that is not pinned, while the exit is relay-only? -/
def PortView.LeavesPins (server : Server) (direct : Finset PeerId) (v : PortView) : DiscoveryEvent → Prop
  | .peerConnected peer _ relayed =>
    relayed = false ∧ DiscoveryActor.relayStuck direct peer v.exit = true ∧ peer ∈ v.pool ∧ peer ∉ server.pinnedPeers
  | _ => False

namespace DiscoveryActor

variable {S : Type} [StickyStore S] [LawfulStickyStore S] {ctx : Context} {server : Server}
  {a a' : DiscoveryActor S} {v v' : PortView} {l : Label} {direct : Finset PeerId}

/-- Peers are named truthfully in the handling of an event, and the event is no selection by the operator. -/
structure Truthful (server : Server) (l : Label) : Prop where
  unselected : ∀ peer, l.event ≠ .selectPeer server.port peer
  hub : ∀ peers ans, ⟨.resolvePeers peers, ans⟩ ∈ l.trace → ∀ e ∈ server.peerOptions.pinned, Names ans e.peerId
  dialer : ∀ e ∈ l.trace, e.DialHonest

/-- A step in which peers are named truthfully. -/
def TruthfulStep (ctx : Context) (server : Server) : DiscoveryActor S → Label → DiscoveryActor S → Prop :=
  guarded (Step ctx) fun _ l => Truthful server l

/-- Connecting a server that is pinned without fallback yields a pinned peer or nobody. -/
theorem Reconnected.hardPinned {avoid : Option PeerId} {t : List Io} (hpins : server.peerOptions.pinned ≠ [])
    (hfallback : server.peerOptions.fallbackToDiscovery = false)
    (hentries : ∀ e ∈ server.peerOptions.pinned, e.Coherent) (hl : Truthful server l) (ht : t <:+: l.trace)
    (h : Reconnected S ctx.relayAddress server avoid t v v') : v'.HardPinned server := by
  obtain ⟨s, s', result, hc, -, rfl⟩ := h
  have heffect := connect_pinnedEffect hpins hentries (fun ans he => hl.hub _ ans (ht.subset he))
    (fun e he => hl.dialer e (ht.subset he)) hc
  intro p hp
  cases result with
  | error e => cases hp
  | ok d =>
    obtain ⟨peer, source⟩ := d
    cases hp
    obtain ⟨-, -, hsource, -⟩ := heffect.2.1 hfallback
    obtain ⟨rank, rfl⟩ := hsource _ rfl
    obtain ⟨-, -, -, -, -, ⟨ans, pre, e, post, t₁, t₂, checks, hsplit, -, rfl, -⟩, -⟩ := heffect.1 peer rank rfl
    exact List.mem_map_of_mem (by rw [hsplit]; simp)

/-- An event takes a port off its pins exactly if it rotates the port onto a peer that is not pinned. -/
theorem PortEffect.hardPinned_iff (hpins : server.peerOptions.pinned ≠ [])
    (hfallback : server.peerOptions.fallbackToDiscovery = false)
    (hentries : ∀ e ∈ server.peerOptions.pinned, e.Coherent) (hl : Truthful server l) (hv : v.HardPinned server)
    (h : PortEffect S ctx server direct l.trace v v' l.event) :
    v'.HardPinned server ↔ ¬v.LeavesPins server direct l.event := by
  constructor
  · intro hv' hleaves
    obtain ⟨event, tr⟩ := l
    cases event with
    | peerConnected peer address relayed =>
      -- the only event that consults the remembered pool
      obtain ⟨hdirect, hstuck, hmem, hnot⟩ := hleaves
      simp only [PortEffect] at h
      rw [if_pos ⟨hdirect, hstuck, hmem⟩] at h
      subst h
      exact hnot (hv' peer rfl)
    | _ => exact hleaves
  · intro hstay
    rcases h.cases with ⟨rfl, -⟩ | ⟨_, -, rfl⟩ | ⟨avoid, t, ht, hr⟩ | ⟨y, rfl, hy⟩
    · exact hv
    · intro p hp
      cases hp
    · exact hr.hardPinned hpins hfallback hentries hl ht
    · intro p hp
      cases hp
      rcases hy with ⟨address, hevent, hstuck, hmem⟩ | ⟨peer, _, _, hevent, -⟩
      · by_contra hnot
        refine hstay ?_
        rw [hevent]
        exact ⟨rfl, hstuck, hmem, hnot⟩
      · exact absurd hevent (hl.unselected peer)

/-- A step keeps the pins exactly if it does not rotate the port onto a peer that is not pinned. -/
theorem TruthfulStep.hardPinned_iff (hlookup : ctx.server? server.port = some server)
    (hpins : server.peerOptions.pinned ≠ []) (hfallback : server.peerOptions.fallbackToDiscovery = false)
    (hentries : ∀ e ∈ server.peerOptions.pinned, e.Coherent) (hv : (portView server a).HardPinned server)
    (h : TruthfulStep ctx server a l a') :
    (portView server a').HardPinned server ↔ ¬(portView server a).LeavesPins server a.directPeers l.event := by
  obtain ⟨hstep, hl⟩ := h
  by_cases hport : server.port ∈ a.destinations.ports
  · exact (hstep.portEffect hlookup hport).hardPinned_iff hpins hfallback hentries hl hv
  · have hexit : (portView server a).exit = none := a.destinations.outside _ hport
    have hexit' : (portView server a').exit = none := a'.destinations.outside _ (hstep.ports_eq ▸ hport)
    refine iff_of_true (fun p hp => ?_) fun hleaves => ?_
    · rw [hexit'] at hp; cases hp
    · unfold PortView.LeavesPins at hleaves
      split at hleaves
      · rw [hexit] at hleaves
        cases hleaves.2.1
      · exact hleaves

/-- The hard pin, exactly.  From every store, a run in which peers are named truthfully keeps the port on its pins if
and only if none of its events rotates the port onto a remembered peer that is not pinned. -/
theorem hard_pin_iff (hlookup : ctx.server? server.port = some server) (hpins : server.peerOptions.pinned ≠ [])
    (hfallback : server.peerOptions.fallbackToDiscovery = false)
    (hentries : ∀ e ∈ server.peerOptions.pinned, e.Coherent) (s : S) {ports : List Port} (hports : ports.Nodup)
    {ls : List Label} (h : Reaches (TruthfulStep ctx server) (new s (.dark ports hports)) ls a) :
    Always (TruthfulStep ctx server) (fun a => (portView server a).HardPinned server) (new s (.dark ports hports)) ls ↔
      Reaches (guarded (TruthfulStep ctx server) fun a l =>
        ¬(portView server a).LeavesPins server a.directPeers l.event) (new s (.dark ports hports)) ls a := by
  refine always_iff (J := fun _ => True) (fun a l a₁ a₂ h₁ h₂ => Step.deterministic h₁.1 h₂.1)
    (fun _ _ _ _ _ _ => trivial)
    (fun a l a' _ hv hs => hs.hardPinned_iff hlookup hpins hfallback hentries hv) trivial ?_ h
  intro p hp
  cases hp

section Fixture

private def pinnedTo : Server := pinnedServer 1080 [⟨[1]⟩]

private def pinnedContext : Context := dummyContext [pinnedTo]

private def bothOnline : World :=
  { routes := [(⟨[1]⟩, [[.p2p ⟨[1]⟩]])], candidates := [⟨⟨[2]⟩, []⟩], online := [⟨[1]⟩, ⟨[2]⟩], connected := [] }

private def portStart (s : StickyState) : DiscoveryActor StickyState := new s (.dark [1080] nodup_onePort)

/-- What is left of a run of the same port without pins: a pool with the exit that was discovered. -/
private def leftover : StickyState :=
  (exec bothOnline.answer (handle (dummyContext [discoveryServer 1080]) (.discoverFor 1080))
    (portStart .empty)).2.2.sticky

private def pinnedRun : List Io × Unit × DiscoveryActor StickyState :=
  exec bothOnline.answer (handle pinnedContext (.discoverFor 1080)) (portStart leftover)

private def leftoverConnects : DiscoveryEvent := .peerConnected ⟨[2]⟩ [.other 4 []] false

private def rotatedRun : List Io × Unit × DiscoveryActor StickyState :=
  exec bothOnline.answer (handle pinnedContext leftoverConnects) pinnedRun.2.2

private theorem pinnedRun_truthful {event : DiscoveryEvent} {b : DiscoveryActor StickyState}
    (h : ∀ peer, event ≠ .selectPeer 1080 peer) :
    Truthful pinnedTo ⟨event, (exec bothOnline.answer (handle pinnedContext event) b).1⟩ where
  unselected := h
  hub _ _ he e _ := World.names (by decide) he e.peerId
  dialer := World.dialHonest

private theorem reaches_pinnedRun : Reaches (TruthfulStep pinnedContext pinnedTo) (portStart leftover)
    [⟨.discoverFor 1080, pinnedRun.1⟩] pinnedRun.2.2 :=
  .cons ⟨exec_runs _ _ _, pinnedRun_truthful (by simp)⟩ (.nil _)

/-- Discovering the pinned port keeps the pins. -/
theorem hard_pin_iff_discovered : Always (TruthfulStep pinnedContext pinnedTo)
    (fun a => (portView pinnedTo a).HardPinned pinnedTo) (portStart leftover) [⟨.discoverFor 1080, pinnedRun.1⟩] :=
  (hard_pin_iff (by rfl) (by simp [pinnedTo, pinnedServer, ServerPeerOptions.pinned]) (by rfl)
    (by simp [pinnedTo, pinnedServer, ServerPeerOptions.pinned, DestinationPeerEntry.Coherent]) leftover (by decide)
    reaches_pinnedRun).2
    (.cons ⟨⟨exec_runs _ _ _, pinnedRun_truthful (by simp)⟩, id⟩ (.nil _))

/-- The leftover peer connects directly while the pinned exit is relayed, and takes the pinned port. -/
theorem hard_pin_leftover : ∃ ls a, Reaches (TruthfulStep pinnedContext pinnedTo) (portStart leftover) ls a ∧
    a.destination 1080 = some ⟨[2]⟩ ∧ (⟨[2]⟩ : PeerId) ∉ pinnedTo.pinnedPeers :=
  ⟨[⟨.discoverFor 1080, pinnedRun.1⟩, ⟨leftoverConnects, rotatedRun.1⟩], rotatedRun.2.2,
    .cons ⟨exec_runs _ _ _, pinnedRun_truthful (by simp)⟩
      (.cons ⟨exec_runs _ _ _, pinnedRun_truthful (by simp [leftoverConnects])⟩ (.nil _)), by decide, by decide⟩

end Fixture

end DiscoveryActor

end P2Proxy
