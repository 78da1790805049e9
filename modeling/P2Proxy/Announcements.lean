import P2Proxy.ConnectCalls
import P2Proxy.PortView

/-!
# What the discovery actor announces

Every change of a port's exit and of its server's remembered pool is announced before the handling of the event ends:
the last announcement in the trace, if there is one, says what the actor holds afterwards, and without an announcement
nothing has changed (`Step.announces`).  The actor never says that a peer has disconnected.
-/

namespace P2Proxy

open Interaction

/-- The exit that the event announces for a port. -/
def Events.exitOf (port : Port) : Events → Option (Option PeerId)
  | .activeDestination q peer _ => if q = port then some peer else none
  | _ => none

/-- The members of the pool that the event announces for a port. -/
def Events.poolOf (port : Port) : Events → Option (List PeerId)
  | .stickyPool q peers => if q = port then some (peers.map (·.peerId)) else none
  | _ => none

/-- The peer that the event says has disconnected. -/
def Events.disconnects : Events → Option PeerId
  | .connection (.disconnected peer) => some peer
  | _ => none

namespace Io

def emitted : Io → Option Events
  | ⟨.emit event, _⟩ => some event
  | _ => none

def exitOf (port : Port) (e : Io) : Option (Option PeerId) := e.emitted.bind (Events.exitOf port)

def poolOf (port : Port) (e : Io) : Option (List PeerId) := e.emitted.bind (Events.poolOf port)

def disconnects (e : Io) : Option PeerId := e.emitted.bind Events.disconnects

/-- The connect flow announces none of this. -/
theorem announces_nothing {e : Io} {port : Port} (h : e.ofConnect = true) :
    e.exitOf port = none ∧ e.poolOf port = none ∧ e.disconnects = none := by
  obtain ⟨q, x⟩ := e
  cases q with
  | emit event =>
    cases event with
    | serverPool q peers => exact ⟨rfl, rfl, rfl⟩
    | pinnedPeerStatuses q statuses => exact ⟨rfl, rfl, rfl⟩
    | error message => exact ⟨rfl, rfl, rfl⟩
    | _ => cases h
  | _ => exact ⟨rfl, rfl, rfl⟩

end Io

private theorem getD_getLast?_append {α : Type} (l₁ l₂ : List α) (d : α) :
    (l₁ ++ l₂).getLast?.getD d = l₂.getLast?.getD (l₁.getLast?.getD d) := by
  rw [List.getLast?_append]
  cases l₂.getLast? <;> rfl

private theorem getD_getLast?_of_forall {α : Type} {l : List α} {x d : α} (hx : x ∈ l) (hall : ∀ y ∈ l, y = x) :
    l.getLast?.getD d = x := by
  cases hlast : l.getLast? with
  | none => simp [List.getLast?_eq_none_iff.1 hlast] at hx
  | some y => exact hall y (List.mem_of_getLast? hlast)

namespace DiscoveryActor

variable {S : Type} [StickyStore S] [LawfulStickyStore S] {ctx : Context} {server : Server}
  {a a' b : DiscoveryActor S} {tr t₁ t₂ : List Io} {port : Port} {u : Unit}

/-- The trace announces what becomes of the port of `server`. -/
structure Announces (server : Server) (a : DiscoveryActor S) (tr : List Io) (a' : DiscoveryActor S) : Prop where
  exit : (tr.filterMap (Io.exitOf server.port)).getLast?.getD (a.destination server.port) = a'.destination server.port
  pool : (tr.filterMap (Io.poolOf server.port)).getLast?.getD (exitPool server a.sticky) = exitPool server a'.sticky
  quiet : ∀ e ∈ tr, e.disconnects = none
  ports : a'.destinations.ports = a.destinations.ports

namespace Announces

theorem refl (a : DiscoveryActor S) : Announces server a [] a := ⟨rfl, rfl, fun _ he => absurd he List.not_mem_nil, rfl⟩

theorem trans (h₁ : Announces server a t₁ b) (h₂ : Announces server b t₂ a') : Announces server a (t₁ ++ t₂) a' where
  exit := by rw [List.filterMap_append, getD_getLast?_append, h₁.exit, h₂.exit]
  pool := by rw [List.filterMap_append, getD_getLast?_append, h₁.pool, h₂.pool]
  quiet e he := (List.mem_append.1 he).elim (h₁.quiet e) (h₂.quiet e)
  ports := h₂.ports.trans h₁.ports

/-- A trace without announcements leaves the port as it is. -/
theorem of_same (hexit : a'.destination server.port = a.destination server.port)
    (hpool : exitPool server a'.sticky = exitPool server a.sticky)
    (hports : a'.destinations.ports = a.destinations.ports)
    (htr : ∀ e ∈ tr, e.exitOf server.port = none ∧ e.poolOf server.port = none ∧ e.disconnects = none) :
    Announces server a tr a' where
  exit := by rw [List.filterMap_eq_nil_iff.2 fun e he => (htr e he).1, hexit]; rfl
  pool := by rw [List.filterMap_eq_nil_iff.2 fun e he => (htr e he).2.1, hpool]; rfl
  quiet e he := (htr e he).2.2
  ports := hports

end Announces

/-- Handlers that announce what becomes of the port, if it has a handle. -/
private theorem announceLaw : Law fun (a : DiscoveryActor S) tr a' =>
    server.port ∈ a.destinations.ports → Announces server a tr a' :=
  ⟨fun a _ => .refl a, fun h₁ h₂ hport => (h₁ hport).trans (h₂ ((h₁ hport).ports ▸ hport))⟩

/-- A snapshot lists the members of the pool in their order. -/
theorem snapshot_map_peerId {s : S} :
    (StickyStore.snapshot server.port server.fingerprint s).map (·.peerId) = exitPool server s := by
  rw [LawfulStickyStore.snapshot_eq, exitPool]
  unfold StickyState.snapshot StickyState.members
  cases (view s).pools server.port with
  | none => rfl
  | some pool =>
    by_cases hf : pool.fingerprint = server.fingerprint
    · simp [hf, StickyPool.peerIds, Function.comp_def]
    · simp [hf]

/-- To store an exit and to announce it. -/
private theorem storeEvent_announces (hport : server.port ∈ a.destinations.ports) (port : Port)
    (d : Option ConnectedDestination) : Announces server a [⟨.emit (activeEvent port d), ()⟩]
      { a with destinations := a.destinations.set port (d.map (·.peer)) } := by
  refine ⟨?_, rfl, fun e he => ?_, rfl⟩
  · by_cases hown : port = server.port
    · subst hown
      have hexit : Io.exitOf server.port ⟨.emit (activeEvent server.port d), ()⟩ = some (d.map (·.peer)) := if_pos rfl
      rw [List.filterMap_cons_some hexit]
      exact (Destinations.active_set_self hport).symm
    · have hexit : Io.exitOf server.port ⟨.emit (activeEvent port d), ()⟩ = none := if_neg hown
      rw [List.filterMap_cons_none hexit]
      exact (Destinations.active_set_of_ne (Ne.symm hown)).symm
  · rw [List.mem_singleton.1 he]
    rfl

/-- To change the store and to announce the pool of the server to which it belongs. -/
private theorem poolEvent_announces {other : Server} (s : S) (hserver : ctx.server? server.port = some server)
    (hother : ctx.server? other.port = some other)
    (hsame : server.port ≠ other.port → exitPool server s = exitPool server a.sticky) :
    Announces server a [⟨.emit (poolEvent other s), ()⟩] { a with sticky := s } := by
  refine ⟨rfl, ?_, fun e he => ?_, rfl⟩
  · by_cases hown : other.port = server.port
    · obtain rfl : server = other := by
        rw [hown, hserver] at hother
        exact Option.some.inj hother
      have hpool : Io.poolOf server.port ⟨.emit (poolEvent server s), ()⟩ = some (exitPool server s) := by
        rw [← snapshot_map_peerId]
        exact if_pos rfl
      rw [List.filterMap_cons_some hpool]
      rfl
    · have hpool : Io.poolOf server.port ⟨.emit (poolEvent other s), ()⟩ = none := if_neg hown
      rw [List.filterMap_cons_none hpool]
      exact (hsame (Ne.symm hown)).symm
  · rw [List.mem_singleton.1 he]
    rfl

section Blocks

variable (hserver : ctx.server? server.port = some server) (hport : server.port ∈ a.destinations.ports)

include hserver hport

theorem discover_announces {avoid r : Option PeerId} (h : Runs (discover ctx port avoid) a tr r a') :
    Announces server a tr a' := by
  rcases runs_discover.1 h with ⟨-, rfl, -, rfl⟩ | ⟨other, t, result, s₁, hs, hc, rfl, -, rfl⟩
  · exact ⟨rfl, rfl, fun _ he => absurd he List.not_mem_nil, rfl⟩
  · obtain rfl := Context.port_of_server? hs
    have hconnect : Announces server a t a := .of_same rfl rfl rfl fun e he =>
      Io.announces_nothing (connect_connecting avoid _ _ _ _ hc e he)
    have hpool := poolEvent_announces (a := a) s₁ hserver hs fun hne => exitPool_connect_of_ne hne hc
    have hstore := storeEvent_announces (a := { a with sticky := s₁ }) hport other.port (resultDestination result)
    have hall := (hconnect.trans hpool).trans hstore
    rw [List.append_assoc, resultDestination_map_peer] at hall
    exact ⟨hall.exit, hall.pool, hall.quiet, hall.ports⟩

theorem closePort_announces {peer : PeerId} (h : Runs (closePort ctx peer port) a tr u a') :
    Announces server a tr a' := by
  rcases closePort_cases h with ⟨checks, now, t, r, rfl, hchecks, hd⟩ | ⟨at_, n, -, -, rfl, rfl⟩
  · have hdiscover := discover_announces hserver (by exact hport) hd
    have hbefore : Announces server a (checks ++ [⟨.instantNow, now⟩]) a := by
      refine .of_same rfl rfl rfl fun e he => ?_
      rcases hchecks with ⟨-, rfl⟩ | ⟨_, _, -, rfl, -⟩
      · rw [List.mem_singleton.1 he]
        exact ⟨rfl, rfl, rfl⟩
      · rcases List.mem_cons.1 he with rfl | he
        · exact ⟨rfl, rfl, rfl⟩
        · rw [List.mem_singleton.1 he]
          exact ⟨rfl, rfl, rfl⟩
    have hall := hbefore.trans ⟨hdiscover.exit, hdiscover.pool, hdiscover.quiet, hdiscover.ports⟩
    rw [List.append_assoc] at hall
    exact hall
  · have hread : Announces server a [⟨.instantNow, n⟩] a := .of_same rfl rfl rfl fun e he => by
      rw [List.mem_singleton.1 he]
      exact ⟨rfl, rfl, rfl⟩
    have hstore := storeEvent_announces hport port none
    have hspawn : Announces server { a with destinations := a.destinations.set port none }
        (if port ∈ a.pendingRediscovery then []
          else [⟨.spawnDiscoverFor port (rediscoveryCooldown.sub (Duration.ofNanos (n - at_))), ()⟩])
        { a with destinations := a.destinations.set port none } := .of_same rfl rfl rfl fun e he => by
      split at he
      · cases he
      · rw [List.mem_singleton.1 he]
        exact ⟨rfl, rfl, rfl⟩
    have hall := hread.trans (hstore.trans hspawn)
    exact ⟨hall.exit, hall.pool, hall.quiet, hall.ports⟩

theorem adoptSpecific_announces {other : Server} {peer : PeerId} {source : DestinationSource}
    (hother : ctx.server? other.port = some other) (h : Runs (adoptSpecific other peer source) a tr u a') :
    Announces server a tr a' := by
  obtain ⟨now, s₁, rfl, rfl, rfl⟩ := runs_adoptSpecific h
  have hread : Announces server a [⟨.utcNow, now⟩] a := .of_same rfl rfl rfl fun e he => by
    rw [List.mem_singleton.1 he]
    exact ⟨rfl, rfl, rfl⟩
  have hstore := storeEvent_announces hport other.port (some { peer, source })
  have hpool := poolEvent_announces (a := { a with destinations := a.destinations.set other.port (some peer) })
    (StickyStore.remember now other.port other.fingerprint peer other.pool.maxTotal a.sticky).2 hserver hother
    fun hne => exitPool_remember_of_ne hne
  exact hread.trans (hstore.trans hpool)

theorem rotatePort_announces {candidate : PeerId} (h : Runs (rotatePort ctx candidate port) a tr u a') :
    Announces server a tr a' := by
  rcases rotatePort_cases h with ⟨-, rfl, rfl⟩ | ⟨other, s₁, hs, rfl, hrest⟩
  · exact .refl _
  · obtain rfl := Context.port_of_server? hs
    have hread :
        Announces server a [] { a with sticky := (StickyStore.pool other.port other.fingerprint a.sticky).2 } := by
      refine .of_same rfl ?_ rfl fun e he => absurd he List.not_mem_nil
      by_cases hown : server.port = other.port
      · obtain rfl : server = other := by
          rw [← hown, hserver] at hs
          exact Option.some.inj hs
        exact exitPool_pool
      · exact exitPool_pool_of_ne hown
    rcases hrest with ⟨-, rfl, rfl⟩ | ⟨-, hadopt⟩
    · exact hread
    · exact hread.trans (adoptSpecific_announces hserver (by exact hport) hs hadopt)

end Blocks

/-! ### Every event -/

/-- Of all pools that are announced at once, that of a port is its server's. -/
private theorem poolEvents_announce (hdistinct : (ctx.servers.map (·.port)).Nodup) (hserver : server ∈ ctx.servers)
    (s : S) (d : List PeerId) :
    ((ctx.servers.map fun other => (⟨.emit (poolEvent other s), ()⟩ : Io)).filterMap
      (Io.poolOf server.port)).getLast?.getD d = exitPool server s := by
  refine getD_getLast?_of_forall ?_ fun y hy => ?_
  · refine List.mem_filterMap.2 ⟨_, List.mem_map_of_mem hserver, ?_⟩
    rw [← snapshot_map_peerId]
    exact if_pos rfl
  · obtain ⟨e, he, hpool⟩ := List.mem_filterMap.1 hy
    obtain ⟨other, hother, rfl⟩ := List.mem_map.1 he
    have hif : (if other.port = server.port then
        some ((StickyStore.snapshot other.port other.fingerprint s).map (·.peerId)) else none) = some y := hpool
    split at hif
    · rename_i hown
      obtain rfl : other = server := List.inj_on_of_nodup_map hdistinct hother hserver hown
      rw [snapshot_map_peerId] at hif
      exact (Option.some.inj hif).symm
    · cases hif

/-- Whatever the actor handles, it announces what becomes of each configured port. -/
theorem Step.announces {l : Label} (hdistinct : (ctx.servers.map (·.port)).Nodup) (hserver : server ∈ ctx.servers)
    (hhandles : a.Handles ctx) (h : Step ctx a l a') : Announces server a l.trace a' := by
  have hlookup := Context.server?_of_mem hdistinct hserver
  have hport := hhandles.mem_ports hserver
  obtain ⟨event, tr⟩ := l
  cases event with
  | discoverFor q =>
    obtain ⟨r, hd⟩ := step_discoverFor.1 h
    exact discover_announces hlookup hport hd
  | requestNewPeer q =>
    obtain ⟨t, r, rfl, hd⟩ := step_requestNewPeer.1 h
    -- a reply announces nothing
    have hreply : Announces server a' [⟨.reply r, ()⟩] a' := .of_same rfl rfl rfl fun e he => by
      rw [List.mem_singleton.1 he]
      exact ⟨rfl, rfl, rfl⟩
    exact (discover_announces hlookup hport hd).trans hreply
  | peerClosed peer =>
    have hloop := step_peerClosed.1 h
    have hall :=
      Obeys.forM announceLaw _ (fun q _ b t _ b' hr hb => closePort_announces hlookup hb hr) _ _ _ _ hloop hport
    exact ⟨hall.exit, hall.pool, hall.quiet, hall.ports⟩
  | peerUnusable peer =>
    obtain ⟨t, rfl, hloop⟩ := step_peerUnusable_cases h
    have hall := Obeys.forM announceLaw _ (fun q _ b t _ b' hr hb => by
      obtain ⟨r, hd⟩ := runs_discard.1 hr
      exact discover_announces hlookup hb hd) _ _ _ _ hloop hport
    -- the pools are announced once more, after all of them were changed
    have hnoexit : (ctx.servers.map fun other => (⟨.emit (poolEvent other a'.sticky), ()⟩ : Io)).filterMap
        (Io.exitOf server.port) = [] := List.filterMap_eq_nil_iff.2 fun e he => by
      obtain ⟨other, -, rfl⟩ := List.mem_map.1 he
      rfl
    refine ⟨?_, ?_, fun e he => ?_, hall.ports⟩
    · rw [List.filterMap_append, hnoexit, List.append_nil]
      exact hall.exit
    · rw [List.filterMap_append, getD_getLast?_append]
      exact poolEvents_announce hdistinct hserver a'.sticky _
    · rcases List.mem_append.1 he with he | he
      · exact hall.quiet e he
      · obtain ⟨other, -, rfl⟩ := List.mem_map.1 he
        rfl
  | peerConnected peer address relayed =>
    cases relayed with
    | true =>
      obtain ⟨rfl, rfl⟩ := step_peerConnected_relayed.1 h
      exact ⟨rfl, rfl, fun e he => absurd he List.not_mem_nil, rfl⟩
    | false =>
      have hnoted : Announces server a [] (a.noteDirect peer address) :=
        .of_same rfl exitPool_noteDirectAddress rfl fun e he => absurd he List.not_mem_nil
      have hloop := step_peerConnected_direct.1 h
      exact hnoted.trans (Obeys.forM announceLaw _ (fun q _ b t _ b' hr hb => rotatePort_announces hlookup hb hr)
        _ _ _ _ hloop hport)
  | selectPeer q peer =>
    rcases step_selectPeer_cases h with ⟨-, rfl, rfl⟩ | ⟨other, o, t, t', hs, rfl, hreach, ho⟩
    · exact .refl _
    · have hreached : Announces server a t a :=
        .of_same rfl rfl rfl fun e he => Io.announces_nothing (hreach.ofConnect e he)
      obtain rfl := Context.port_of_server? hs
      refine hreached.trans ?_
      cases o with
      | none =>
        obtain ⟨⟨message, rfl⟩, rfl⟩ := ho
        exact .of_same rfl rfl rfl fun e he => by
          rw [List.mem_singleton.1 he]
          exact ⟨rfl, rfl, rfl⟩
      | some y => exact adoptSpecific_announces hlookup hport hs ho

omit [LawfulStickyStore S]

private theorem exitOf_activeEvent (d : Option ConnectedDestination) :
    Io.exitOf port ⟨.emit (activeEvent port d), ()⟩ = some (d.map (·.peer)) := if_pos rfl

/-- The closing of a port's exit is followed by an announcement for the port. -/
theorem Step.announces_closed {peer : PeerId} (hhandles : a.Handles ctx) (hexit : a.destination port = some peer)
    (h : Step ctx a ⟨.peerClosed peer, tr⟩ a') : ∃ e ∈ tr, ∃ exit, Io.exitOf port e = some exit := by
  have hport := Destinations.mem_ports_of_active hexit
  obtain ⟨server, hserver, rfl⟩ := hhandles.exists_server hport
  have hstale : server.port ∈ a.destinations.portsWhere (· = some peer) :=
    Destinations.mem_portsWhere.2 ⟨hport, decide_eq_true hexit⟩
  have hnone : Law fun (_ : DiscoveryActor S) (_ : List Io) (_ : DiscoveryActor S) => True :=
    ⟨fun _ => trivial, fun _ _ => trivial⟩
  obtain ⟨hout, -⟩ | ⟨t₁, b, t, b', t₂, -, rfl, -, hclose, -⟩ := runs_forM_at hnone (fun _ _ _ _ _ _ _ _ => trivial)
    (a.destinations.nodup.filter _) (step_peerClosed.1 h)
  · exact absurd hstale hout
  rcases closePort_cases hclose with ⟨checks, now, t', r, rfl, -, hd⟩ | ⟨at_, n, -, -, rfl, -⟩
  · rcases runs_discover.1 hd with ⟨hnone, -⟩ | ⟨other, t'', result, s₁, -, -, rfl, -⟩
    · rw [hserver] at hnone
      cases hnone
    · exact ⟨_, by simp, _, exitOf_activeEvent (resultDestination result)⟩
  · exact ⟨_, by simp, _, exitOf_activeEvent none⟩

/-- The discovery of a port is followed by an announcement of its pool. -/
theorem Step.announces_discovered (hserver : ctx.server? server.port = some server)
    (h : Step ctx a ⟨.discoverFor server.port, tr⟩ a') : ∃ e ∈ tr, ∃ pool, Io.poolOf server.port e = some pool := by
  obtain ⟨r, hd⟩ := step_discoverFor.1 h
  rcases runs_discover.1 hd with ⟨hnone, -⟩ | ⟨other, t, result, s₁, hs, -, rfl, -⟩
  · rw [hserver] at hnone
    cases hnone
  · obtain rfl : server = other := by
      rw [hserver] at hs
      exact Option.some.inj hs
    have hpool : Io.poolOf server.port ⟨.emit (poolEvent server s₁), ()⟩ =
        some ((StickyStore.snapshot server.port server.fingerprint s₁).map (·.peerId)) := if_pos rfl
    exact ⟨_, by simp, _, hpool⟩

end DiscoveryActor

end P2Proxy
