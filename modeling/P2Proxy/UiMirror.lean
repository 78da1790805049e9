import P2Proxy.Announcements
import P2Proxy.Interaction.Mirror
import P2Proxy.Network
import P2Proxy.Ui

/-!
# The user interface mirrors the exits

The network actor, the discovery actor and the user interface, with the messages and the events that are on their way.
Two writers change what is shown of a port: the discovery actor announces its exit and its pool, and a peer that
disconnects is dropped at once, before the discovery actor has learnt of it.  While the discovery actor handles an
event, the others go on: their steps may come between any two of its calls.  `ui_mirrors` says that all agree when
nothing is on its way.
-/

namespace P2Proxy

open Interaction

namespace NetworkEffect

def emitted : NetworkEffect → Option Events
  | .emit event => some event
  | _ => none

/-- The peer whose closing is reported to the discovery actor. -/
def closes : NetworkEffect → Option PeerId
  | .spawnPeerClosed peer => some peer
  | _ => none

end NetworkEffect

/-- Everything but the discovery actor: the peers of the `PeerClosed` that it has not handled, and the events that are
not reduced. -/
structure Outside where
  network : NetworkActor
  closes : Multiset PeerId
  queue : List Events
  ui : Ui

/-- A call of the discovery actor, an input of the network actor, or the reduction of an event. -/
inductive Action
  | exchange (e : Io)
  | network (w : Swarm) (input : NetworkInput)
  | reduce

namespace Outside

def init : Outside := { network := .new, closes := 0, queue := [], ui := .new }

def act (ctx : Context) (o : Outside) : Action → Outside
  | .exchange e => { o with queue := o.queue ++ e.emitted.toList }
  | .network w input =>
    let r := o.network.handle ctx w input
    { o with
      network := r.1
      closes := o.closes + Multiset.ofList (r.2.filterMap NetworkEffect.closes)
      queue := o.queue ++ r.2.filterMap NetworkEffect.emitted }
  | .reduce =>
    match o.queue with
    | [] => o
    | event :: queue => { o with queue, ui := o.ui.handleSwarmEvents event }

/-- The discovery actor takes an event from its inbox. -/
def take (o : Outside) : DiscoveryEvent → Outside
  | .peerClosed peer => { o with closes := o.closes.erase peer }
  | _ => o

/-- What the user interface will show when the events on their way are reduced. -/
def shown (o : Outside) : Ui := o.queue.foldl Ui.handleSwarmEvents o.ui

end Outside

/-- The calls of the discovery actor among the actions. -/
def exchanges (actions : List Action) : List Io :=
  actions.filterMap fun
    | .exchange e => some e
    | _ => none

structure UiMirror (S : Type) where
  discovery : DiscoveryActor S
  outside : Outside

namespace UiMirror

/-- An action between two events of the discovery actor, or the handling of an event with all actions meanwhile. -/
inductive Label
  | acts (action : Action)
  | handles (event : DiscoveryEvent) (actions : List Action)

variable {S : Type}

def init (sticky : S) (destinations : Destinations) : UiMirror S :=
  { discovery := .new sticky destinations, outside := .init }

def Step [StickyStore S] (ctx : Context) (s : UiMirror S) : Label → UiMirror S → Prop
  | .acts action, s' => (∀ e, action ≠ .exchange e) ∧ s' = { s with outside := s.outside.act ctx action }
  | .handles event actions, s' =>
    (∀ peer, event = .peerClosed peer → peer ∈ s.outside.closes) ∧
      DiscoveryActor.Step ctx s.discovery ⟨event, exchanges actions⟩ s'.discovery ∧
      s'.outside = actions.foldl (Outside.act ctx) (s.outside.take event)

end UiMirror

/-! ### What actions do to the picture of a port -/

/-- The events that an action puts on their way. -/
def Action.emits (ctx : Context) : Action → List Events
  | .exchange e => e.emitted.toList
  | .network _ input => (NetworkActor.reports ctx input).filterMap NetworkEffect.emitted
  | .reduce => []

/-- What an action means for the exit that is shown. -/
def Action.mirrorEvent (port : Port) : Action → Option (MirrorEvent PeerId)
  | .exchange e => (e.exitOf port).map .announce
  | .network _ (.swarm (.connectionClosed peer)) => some (.revoke peer)
  | _ => none

namespace Outside

variable {ctx : Context} {o : Outside} {action : Action} {actions : List Action} {port : Port} {held : Option PeerId}

/-- The exit of a port as it is shown, for the value that the discovery actor holds. -/
def mirror (port : Port) (held : Option PeerId) (o : Outside) : Mirror PeerId :=
  { shown := o.shown.state.activeDestinations port, held, revoked := o.closes }

theorem shown_act : (o.act ctx action).shown = (action.emits ctx).foldl Ui.handleSwarmEvents o.shown := by
  cases action with
  | exchange e => exact List.foldl_append
  | network w input =>
    have hreports : (o.network.handle ctx w input).2.filterMap NetworkEffect.emitted =
        (NetworkActor.reports ctx input).filterMap NetworkEffect.emitted :=
      NetworkActor.filterMap_handle (by rintro ⟨⟩ he <;> first | rfl | cases he)
    refine List.foldl_append.trans ?_
    rw [hreports]
    rfl
  | reduce =>
    obtain ⟨network, closes, queue, ui⟩ := o
    cases queue <;> rfl

/-- The peer whose connection an action closes. -/
def closedBy : Action → Multiset PeerId
  | .network _ (.swarm (.connectionClosed peer)) => {peer}
  | _ => 0

theorem closes_act : (o.act ctx action).closes = o.closes + closedBy action := by
  cases action with
  | exchange e => exact (add_zero o.closes).symm
  | network w input =>
    have hreports : (o.network.handle ctx w input).2.filterMap NetworkEffect.closes =
        (NetworkActor.reports ctx input).filterMap NetworkEffect.closes :=
      NetworkActor.filterMap_handle (by rintro ⟨⟩ he <;> first | rfl | cases he)
    have hcloses : Multiset.ofList ((NetworkActor.reports ctx input).filterMap NetworkEffect.closes) =
        closedBy (.network w input) := by
      cases input with
      | swarm event =>
        cases event with
        | connectionEstablished peer address relayed =>
          by_cases hhub : peer = ctx.bootstrapPeerId <;>
            simp [NetworkActor.reports, NetworkEffect.closes, closedBy, hhub]
        | _ => rfl
      | _ => rfl
    rw [← hcloses, ← hreports]
    rfl
  | reduce =>
    obtain ⟨network, closes, queue, ui⟩ := o
    cases queue <;> exact (add_zero closes).symm

private theorem exitShown_of_quiet {event : Events} {shown : Option PeerId} (h : event.disconnects = none) :
    exitShown port shown event = (event.exitOf port).getD shown := by
  cases event with
  | connection event =>
    cases event with
    | disconnected peer => cases h
    | _ => rfl
  | activeDestination q peer source =>
    by_cases hq : q = port <;> simp [exitShown, Events.exitOf, hq]
  | _ => rfl

private theorem poolShown_eq {event : Events} {shown : Option (List PeerId)} :
    poolShown port shown event = (event.poolOf port).or shown := by
  cases event with
  | stickyPool q peers =>
    by_cases hq : q = port <;> simp [poolShown, Events.poolOf, hq]
  | _ => rfl

/-- The network actor announces who connects, and how, and who disconnects. -/
private theorem emits_network {w : Swarm} {input : NetworkInput} : (Action.network w input).emits ctx =
    match input with
    | .swarm (.connectionEstablished peer address relayed) =>
      [.connection (.connected peer), .peerRoute peer address relayed]
    | .swarm (.connectionClosed peer) => [.connection (.disconnected peer)]
    | _ => [] := by
  cases input with
  | swarm event =>
    cases event with
    | connectionEstablished peer address relayed =>
      by_cases hhub : peer = ctx.bootstrapPeerId
      · simp only [Action.emits, NetworkActor.reports, if_pos hhub]
        rfl
      · simp only [Action.emits, NetworkActor.reports, if_neg hhub]
        rfl
    | _ => rfl
  | _ => rfl

/-- The exit shown after an action. -/
private theorem shown_active_act (ctx : Context) (port : Port) (held : Option PeerId)
    (hquiet : ∀ e, action = .exchange e → e.disconnects = none) :
    (o.act ctx action).shown.state.activeDestinations port =
      ((o.mirror port held).run (action.mirrorEvent port).toList).shown := by
  rw [shown_act]
  have hone : ∀ (ui : Ui) event, (ui.handleSwarmEvents event).state.activeDestinations port =
      exitShown port (ui.state.activeDestinations port) event := fun ui event =>
    congrArg Prod.fst Ui.portShown_handleSwarmEvents
  cases action with
  | exchange e =>
    have hdisconnects := hquiet e rfl
    cases hemitted : e.emitted with
    | none => simp [Action.emits, Action.mirrorEvent, Io.exitOf, hemitted, mirror]
    | some event =>
      rw [Io.disconnects, hemitted] at hdisconnects
      simp only [Action.emits, hemitted, Option.toList_some, List.foldl_cons, List.foldl_nil, hone]
      rw [exitShown_of_quiet hdisconnects]
      have hexit : e.exitOf port = event.exitOf port := by rw [Io.exitOf, hemitted]; rfl
      cases hevent : event.exitOf port <;> simp [Action.mirrorEvent, hexit, hevent, mirror, Mirror.after]
  | network w input =>
    rw [emits_network]
    cases input with
    | swarm event =>
      cases event with
      | connectionEstablished peer address relayed =>
        simp only [List.foldl_cons, List.foldl_nil, hone]
        rfl
      | connectionClosed peer =>
        simp only [List.foldl_cons, List.foldl_nil, hone]
        rfl
      | _ => rfl
    | _ => rfl
  | reduce => rfl

/-- An action changes the picture of a port as the mirror says. -/
theorem mirror_act (ctx : Context) (port : Port) (held : Option PeerId)
    (hquiet : ∀ e, action = .exchange e → e.disconnects = none) :
    (o.act ctx action).mirror port ((o.mirror port held).run (action.mirrorEvent port).toList).held =
      (o.mirror port held).run (action.mirrorEvent port).toList := by
  have hshown := shown_active_act (o := o) ctx port held hquiet
  have hrevoked : (o.act ctx action).closes = ((o.mirror port held).run (action.mirrorEvent port).toList).revoked := by
    rw [closes_act]
    cases action with
    | exchange e =>
      cases hexit : e.exitOf port <;> simp [Action.mirrorEvent, hexit, closedBy, mirror, Mirror.after]
    | network w input =>
      cases input with
      | swarm event =>
        cases event with
        | connectionClosed peer =>
          show o.closes + {peer} = peer ::ₘ o.closes
          rw [Multiset.add_comm, Multiset.singleton_add]
        | _ => exact add_zero o.closes
      | _ => exact add_zero o.closes
    | reduce => exact add_zero o.closes
  rw [mirror, hshown, hrevoked]

private theorem filterMap_cons_toList {α β : Type} (f : α → Option β) (x : α) (l : List α) :
    (x :: l).filterMap f = (f x).toList ++ l.filterMap f := by
  rw [List.filterMap_cons]
  cases f x <;> rfl

/-- So do actions one after the other. -/
theorem mirror_acts (ctx : Context) (port : Port) (held : Option PeerId)
    (hquiet : ∀ e ∈ exchanges actions, Io.disconnects e = none) :
    (actions.foldl (act ctx) o).mirror port
        ((o.mirror port held).run (actions.filterMap (Action.mirrorEvent port))).held =
      (o.mirror port held).run (actions.filterMap (Action.mirrorEvent port)) := by
  induction actions generalizing o held with
  | nil => rfl
  | cons action actions ih =>
    have hone := mirror_act (o := o) ctx port held fun e (he : action = .exchange e) =>
      hquiet e (by simp [exchanges, he])
    have hrest := ih (o := o.act ctx action) ((o.mirror port held).run (action.mirrorEvent port).toList).held
      fun e he => hquiet e (by
        rw [exchanges, filterMap_cons_toList]
        exact List.mem_append_right _ he)
    rw [hone] at hrest
    rw [filterMap_cons_toList, Mirror.run_append, List.foldl_cons]
    exact hrest

/-- The exits announced among the actions are those that the calls of the discovery actor announce. -/
theorem announced_acts : (actions.filterMap (Action.mirrorEvent port)).filterMap MirrorEvent.announced =
    (exchanges actions).filterMap (Io.exitOf port) := by
  rw [exchanges, List.filterMap_filterMap, List.filterMap_filterMap]
  refine List.filterMap_congr fun action _ => ?_
  cases action with
  | exchange e =>
    cases hexit : Io.exitOf port e <;> simp [Action.mirrorEvent, hexit, MirrorEvent.announced]
  | network w input =>
    cases input with
    | swarm event => cases event <;> rfl
    | _ => rfl
  | reduce => rfl

/-- The pool shown after an action: the one that it announces, if it announces one. -/
theorem pool_act (ctx : Context) (action : Action) (port : Port) : (o.act ctx action).shown.state.stickyPools port =
    ((exchanges [action]).filterMap (Io.poolOf port)).getLast?.or (o.shown.state.stickyPools port) := by
  have hone : ∀ (ui : Ui) event, (ui.handleSwarmEvents event).state.stickyPools port =
      (event.poolOf port).or (ui.state.stickyPools port) := fun ui event =>
    (congrArg Prod.snd Ui.portShown_handleSwarmEvents).trans poolShown_eq
  rw [shown_act]
  cases action with
  | exchange e =>
    have hlast : ((exchanges [.exchange e]).filterMap (Io.poolOf port)).getLast? = e.poolOf port := by
      cases hpool : Io.poolOf port e <;> simp [exchanges, hpool]
    rw [hlast]
    cases hemitted : e.emitted with
    | none => simp [Action.emits, hemitted, Io.poolOf]
    | some event =>
      have hpool : e.poolOf port = event.poolOf port := by rw [Io.poolOf, hemitted]; rfl
      simp only [Action.emits, hemitted, Option.toList_some, List.foldl_cons, List.foldl_nil, hone, hpool]
  | network w input =>
    rw [emits_network]
    cases input with
    | swarm event =>
      cases event with
      | connectionEstablished peer address relayed =>
        simp only [List.foldl_cons, List.foldl_nil, hone]
        rfl
      | connectionClosed peer =>
        simp only [List.foldl_cons, List.foldl_nil, hone]
        rfl
      | _ => rfl
    | _ => rfl
  | reduce => rfl

/-- The pool shown after actions: the one announced last, if any was. -/
theorem pool_acts (ctx : Context) (port : Port) : (actions.foldl (act ctx) o).shown.state.stickyPools port =
    ((exchanges actions).filterMap (Io.poolOf port)).getLast?.or (o.shown.state.stickyPools port) := by
  induction actions generalizing o with
  | nil => rfl
  | cons action actions ih =>
    have hsplit : exchanges (action :: actions) = exchanges [action] ++ exchanges actions := by
      rw [exchanges, ← List.singleton_append, List.filterMap_append]
      rfl
    rw [List.foldl_cons, ih, pool_act, hsplit, List.filterMap_append, List.getLast?_append, Option.or_assoc]

end Outside

namespace UiMirror

variable {S : Type} [StickyStore S] [LawfulStickyStore S] {ctx : Context} {server : Server} {s s' : UiMirror S}
  {l : Label} {ks : List Label}

/-- The exit of each configured port is shown, or the closing of its peer is still to be handled. -/
structure ExitsShown (ctx : Context) (s : UiMirror S) : Prop where
  handles : s.discovery.Handles ctx
  agrees : ∀ server ∈ ctx.servers,
    (s.outside.mirror server.port (s.discovery.destination server.port)).Agrees

/-- The pool that a server remembers is shown. -/
def PoolShown (server : Server) (s : UiMirror S) : Prop :=
  s.outside.shown.state.stickyPools server.port = some (exitPool server s.discovery.sticky)

/-- The picture of a port after an event of the discovery actor was handled. -/
private theorem mirror_handles {actions : List Action} {o : Outside}
    (hannounces : DiscoveryActor.Announces server s.discovery (exchanges actions) s'.discovery) :
    (actions.foldl (Outside.act ctx) o).mirror server.port (s'.discovery.destination server.port) =
      (o.mirror server.port (s.discovery.destination server.port)).run
        (actions.filterMap (Action.mirrorEvent server.port)) := by
  have hrun := Outside.mirror_acts (o := o) ctx server.port (s.discovery.destination server.port) hannounces.quiet
  have hheld : ((o.mirror server.port (s.discovery.destination server.port)).run
      (actions.filterMap (Action.mirrorEvent server.port))).held = s'.discovery.destination server.port := by
    rw [Mirror.held_run, Outside.announced_acts]
    exact hannounces.exit
  rw [hheld] at hrun
  exact hrun

private theorem shown_take {o : Outside} {event : DiscoveryEvent} : (o.take event).shown = o.shown := by
  cases event <;> rfl

/-- Whatever is done next, the exits stay shown. -/
theorem Step.exitsShown (hdistinct : (ctx.servers.map (·.port)).Nodup) (hs : s.ExitsShown ctx) (h : Step ctx s l s') :
    s'.ExitsShown ctx := by
  cases l with
  | acts action =>
    obtain ⟨hother, rfl⟩ := h
    refine ⟨hs.handles, fun server hserver => ?_⟩
    have hact := Outside.mirror_act (o := s.outside) ctx server.port (s.discovery.destination server.port)
      fun e he => absurd he (hother e)
    -- what happens outside changes no exit
    have hheld : ((s.outside.mirror server.port (s.discovery.destination server.port)).run
        (action.mirrorEvent server.port).toList).held = s.discovery.destination server.port := by
      cases action with
      | exchange e => exact absurd rfl (hother e)
      | network w input =>
        cases input with
        | swarm event => cases event <;> rfl
        | _ => rfl
      | reduce => rfl
    rw [hheld] at hact
    show ((s.outside.act ctx action).mirror server.port (s.discovery.destination server.port)).Agrees
    rw [hact]
    exact (hs.agrees server hserver).run
  | handles event actions =>
    obtain ⟨-, hstep, houtside⟩ := h
    refine ⟨fun port => hstep.ports_eq ▸ hs.handles port, fun server hserver => ?_⟩
    have hannounces := hstep.announces hdistinct hserver hs.handles
    rw [houtside, mirror_handles hannounces]
    by_cases hexit : ∃ peer, event = .peerClosed peer ∧ s.discovery.destination server.port = some peer
    · -- the port's exit has closed: it is announced anew
      obtain ⟨peer, rfl, hexit⟩ := hexit
      obtain ⟨e, he, exit, hannounced⟩ := hstep.announces_closed hs.handles hexit
      refine Mirror.agrees_run_of_announce (o := exit) (List.mem_filterMap.2 ?_)
      obtain ⟨action, haction, hexchange⟩ := List.mem_filterMap.1 he
      cases action with
      | exchange f =>
        obtain rfl := Option.some.inj hexchange
        exact ⟨.exchange f, haction, by rw [Action.mirrorEvent, hannounced]; rfl⟩
      | _ => cases hexchange
    · have hagrees := hs.agrees server hserver
      refine Mirror.Agrees.run ?_
      cases event with
      | peerClosed peer => exact hagrees.learn fun hheld => hexit ⟨peer, rfl, hheld⟩
      | _ => exact hagrees

/-- Whatever is done next, a pool that is shown stays shown. -/
theorem Step.poolShown (hdistinct : (ctx.servers.map (·.port)).Nodup) (hserver : server ∈ ctx.servers)
    (hhandles : s.discovery.Handles ctx) (hs : s.PoolShown server) (h : Step ctx s l s') : s'.PoolShown server := by
  cases l with
  | acts action =>
    obtain ⟨hother, rfl⟩ := h
    have hpool := Outside.pool_act (o := s.outside) ctx action server.port
    have hnone : exchanges [action] = [] := by
      cases action with
      | exchange e => exact absurd rfl (hother e)
      | _ => rfl
    rw [hnone] at hpool
    exact hpool.trans hs
  | handles event actions =>
    obtain ⟨-, hstep, houtside⟩ := h
    have hannounces := hstep.announces hdistinct hserver hhandles
    have hpool := hannounces.pool
    unfold PoolShown at hs ⊢
    rw [houtside, Outside.pool_acts, shown_take, hs, ← hpool]
    cases ((exchanges actions).filterMap (Io.poolOf server.port)).getLast? <;> rfl

/-- After its discovery the pool of a port is shown. -/
theorem Step.poolShown_discovered {actions : List Action} (hdistinct : (ctx.servers.map (·.port)).Nodup)
    (hserver : server ∈ ctx.servers) (hhandles : s.discovery.Handles ctx)
    (h : Step ctx s (.handles (.discoverFor server.port) actions) s') : s'.PoolShown server := by
  obtain ⟨-, hstep, houtside⟩ := h
  have hpool := (hstep.announces hdistinct hserver hhandles).pool
  obtain ⟨e, he, pool, hannounced⟩ := hstep.announces_discovered (Context.server?_of_mem hdistinct hserver)
  have hmem : pool ∈ (exchanges actions).filterMap (Io.poolOf server.port) := List.mem_filterMap.2 ⟨e, he, hannounced⟩
  unfold PoolShown
  rw [houtside, Outside.pool_acts, ← hpool]
  cases hlast : ((exchanges actions).filterMap (Io.poolOf server.port)).getLast? with
  | none => simp [List.getLast?_eq_none_iff.1 hlast] at hmem
  | some pool => rfl

/-- In a run in which all events on their way were reduced and all closings handled, the user interface shows the exit
of each configured port, and the pool that its server remembers if the port was discovered. -/
theorem ui_mirrors (hdistinct : (ctx.servers.map (·.port)).Nodup) {sticky : S} {ports : List Port}
    {nodup : ports.Nodup} (hports : ∀ port, port ∈ ports ↔ port ∈ ctx.servers.map (·.port))
    (h : Reaches (Step ctx) (init sticky (.dark ports nodup)) ks s) (hcloses : s.outside.closes = 0)
    (hqueue : s.outside.queue = [])
    (hstarted : ∀ server ∈ ctx.servers, ∃ actions, .handles (.discoverFor server.port) actions ∈ ks) :
    ∀ server ∈ ctx.servers,
      s.outside.ui.state.activeDestinations server.port = s.discovery.destination server.port ∧
      s.outside.ui.state.stickyPools server.port =
        some ((StickyStore.snapshot server.port server.fingerprint s.discovery.sticky).map (·.peerId)) := by
  have hinit : (init sticky (.dark ports nodup)).ExitsShown ctx := ⟨hports, fun server _ => .inl rfl⟩
  have hstep : ∀ (s : UiMirror S) l s', s.ExitsShown ctx → Step ctx s l s' → s'.ExitsShown ctx :=
    fun _ _ _ hs h => h.exitsShown hdistinct hs
  have hshown : s.outside.shown = s.outside.ui := by rw [Outside.shown, hqueue]; rfl
  intro server hserver
  constructor
  · have hagrees := ((h.invariant hstep hinit).agrees server hserver).shown_eq hcloses
    rw [Outside.mirror, hshown] at hagrees
    exact hagrees
  · obtain ⟨actions, hmem⟩ := hstarted server hserver
    obtain ⟨ks₁, ks₂, rfl⟩ := List.append_of_mem hmem
    obtain ⟨s₁, h₁, h₂⟩ := reaches_append.1 h
    obtain ⟨s₂, hdiscovers, h₃⟩ := reaches_cons.1 h₂
    have hs₁ := h₁.invariant hstep hinit
    have hpool := h₃.invariant (I := fun s => s.ExitsShown ctx ∧ s.PoolShown server)
      (fun _ _ _ hs h => ⟨hstep _ _ _ hs.1 h, h.poolShown hdistinct hserver hs.1.handles hs.2⟩)
      ⟨hstep _ _ _ hs₁ hdiscovers, hdiscovers.poolShown_discovered hdistinct hserver hs₁.handles⟩
    have hlast : s.PoolShown server := hpool.2
    rw [PoolShown, hshown, ← DiscoveryActor.snapshot_map_peerId] at hlast
    exact hlast

section Fixture

private def oneServer : Context := dummyContext [discoveryServer 1080]

private def oneOnline : World :=
  { routes := [], candidates := [⟨⟨[1]⟩, []⟩], online := [⟨[1]⟩], connected := [] }

private def closing : Action := .network
  { now := 0, accepts := fun _ => true, isConnected := fun _ => false, connectedPeers := [] }
  (.swarm (.connectionClosed ⟨[1]⟩))

private def started : UiMirror StickyState := init .empty (.dark [1080] nodup_onePort)

/-- An event is handled, the exit closes once more if `closings` is one, and `reductions` events are reduced. -/
private def meanwhile (s : UiMirror StickyState) (event : DiscoveryEvent) (closings reductions : Nat) : List Action :=
  (exec oneOnline.answer (DiscoveryActor.handle oneServer event) s.discovery).1.map .exchange ++
    (List.replicate closings closing ++ List.replicate reductions .reduce)

private def afterEvent (s : UiMirror StickyState) (event : DiscoveryEvent) (closings reductions : Nat) :
    UiMirror StickyState :=
  { discovery := (exec oneOnline.answer (DiscoveryActor.handle oneServer event) s.discovery).2.2
    outside := (meanwhile s event closings reductions).foldl (Outside.act oneServer) (s.outside.take event) }

private theorem afterEvent_step (s : UiMirror StickyState) (event : DiscoveryEvent) (closings reductions : Nat)
    (h : ∀ peer, event = .peerClosed peer → peer ∈ s.outside.closes) :
    Step oneServer s (.handles event (meanwhile s event closings reductions))
      (afterEvent s event closings reductions) := by
  have hcalls : exchanges (meanwhile s event closings reductions) =
      (exec oneOnline.answer (DiscoveryActor.handle oneServer event) s.discovery).1 := by
    simp [exchanges, meanwhile, closing, List.filterMap_append, List.filterMap_map]
  refine ⟨h, ?_, rfl⟩
  rw [hcalls]
  exact exec_runs oneOnline.answer _ _

/-- The exit of a port is discovered, closes before all is shown, and is discovered again. -/
theorem ui_mirrors_rediscovered :
    let s := afterEvent (afterEvent started (.discoverFor 1080) 1 1) (.peerClosed ⟨[1]⟩) 0 9
    s.outside.ui.state.activeDestinations 1080 = some ⟨[1]⟩ ∧ s.outside.ui.state.stickyPools 1080 = some [⟨[1]⟩] := by
  have hdiscovers := afterEvent_step started (.discoverFor 1080) 1 1 fun _ h => nomatch h
  have hcloses := afterEvent_step (afterEvent started (.discoverFor 1080) 1 1) (.peerClosed ⟨[1]⟩) 0 9
    (by rintro _ ⟨⟩; decide)
  have hshown := ui_mirrors (by decide) (fun _ => Iff.rfl) (.cons hdiscovers (.cons hcloses (.nil _))) (by decide) rfl
    (by intro server hserver; obtain rfl := List.mem_singleton.1 hserver; exact ⟨_, List.mem_cons_self ..⟩)
    _ (List.mem_singleton_self (discoveryServer 1080))
  exact ⟨hshown.1.trans (by decide), hshown.2.trans (by decide)⟩

end Fixture

end UiMirror

end P2Proxy
