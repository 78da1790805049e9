import P2Proxy.DiscoveryRules

/-!
# What an event does to a port

A port is seen as its active exit and the pool that its server remembers.  `Step.portEffect` says, event by event, what
handling the event does to this view: nothing, unless the event is about the port itself, its exit, or a member of its
pool that has just connected directly.  Everything that the actor guarantees about a single port follows from it.
-/

namespace P2Proxy

open Interaction

/-- The active exit of a port, and the pool that its server remembers. -/
structure PortView where
  exit : Option PeerId
  pool : List PeerId

namespace DiscoveryActor

variable {S : Type} [StickyStore S] [LawfulStickyStore S] {ctx : Context} {server : Server}
  {a a' a'' : DiscoveryActor S} {tr : List Io} {port : Port} {u : Unit}

def portView (server : Server) (a : DiscoveryActor S) : PortView :=
  { exit := a.destination server.port, pool := exitPool server a.sticky }

/-- The view of a port before and after its server was connected anew; `t` is the trace of the connect. -/
def Reconnected (S : Type) [StickyStore S] [LawfulStickyStore S] (relayAddress : Multiaddr) (server : Server)
    (avoid : Option PeerId) (t : List Io) (v v' : PortView) : Prop :=
  ∃ (s s' : S) (result : Except ConnectError ConnectedDestination),
    Runs (connect relayAddress server avoid) s t result s' ∧ v.pool = exitPool server s ∧
      v' = { exit := resultPeer result, pool := exitPool server s' }

/-- The exit of a port that was connected anew is the peer that the dialer named last. -/
theorem Reconnected.exit_eq {relayAddress : Multiaddr} {avoid : Option PeerId} {t : List Io} {v v' : PortView}
    (h : Reconnected S relayAddress server avoid t v v') : v'.exit = lastNamed t := by
  obtain ⟨s, s', result, hc, -, rfl⟩ := h
  exact (connect_lastNamed hc).symm

/-- The effect of an event on the view `v` of the port of `server`; `direct` are the peers that are directly connected
when the event arrives, and `tr` is the trace of its handling. -/
def PortEffect (S : Type) [StickyStore S] [LawfulStickyStore S] (ctx : Context) (server : Server)
    (direct : Finset PeerId) (tr : List Io) (v v' : PortView) : DiscoveryEvent → Prop
  | .discoverFor port | .requestNewPeer port =>
    if port = server.port then ∃ t, t <:+: tr ∧ Reconnected S ctx.relayAddress server none t v v' else v' = v
  | .peerClosed peer =>
    if v.exit = some peer then
      v' = { v with exit := none } ∨ ∃ t, t <:+: tr ∧ Reconnected S ctx.relayAddress server (some peer) t v v'
    else v' = v
  | .peerUnusable peer =>
    let w := { v with pool := v.pool.filter (· ≠ peer) }
    if v.exit = some peer then ∃ t, t <:+: tr ∧ Reconnected S ctx.relayAddress server none t w v' else v' = w
  | .peerConnected peer _ relayed =>
    if relayed = false ∧ relayStuck direct peer v.exit = true ∧ peer ∈ v.pool then
      v' = { exit := some peer, pool := promote server.pool.maxTotal peer v.pool }
    else v' = v
  | .selectPeer port peer =>
    if port = server.port then
      v' = v ∨ ∃ y t address, t <:+: tr ∧ ReachRun ctx.relayAddress address peer t (some y) ∧
        v' = { exit := some y, pool := promote server.pool.maxTotal y v.pool }
    else v' = v

/-- The pool from which the event has the port connected. -/
def poolFor (pool : List PeerId) : DiscoveryEvent → List PeerId
  | .peerUnusable peer => pool.filter (· ≠ peer)
  | _ => pool

theorem poolFor_sublist (pool : List PeerId) (event : DiscoveryEvent) : (poolFor pool event).Sublist pool := by
  cases event with
  | peerUnusable peer => exact List.filter_sublist
  | _ => exact .refl pool

/-- An event leaves a port alone, closes it, has its server connected anew, or has it adopt a peer. -/
theorem PortEffect.cases {direct : Finset PeerId} {v v' : PortView} {event : DiscoveryEvent}
    (h : PortEffect S ctx server direct tr v v' event) :
    (v' = { v with pool := poolFor v.pool event } ∧ ∀ peer, event = .peerUnusable peer → v.exit ≠ some peer) ∨
    (∃ peer, event = .peerClosed peer ∧ v' = { v with exit := none }) ∨
    (∃ avoid t, t <:+: tr ∧ Reconnected S ctx.relayAddress server avoid t { v with pool := poolFor v.pool event } v') ∨
    ∃ y, v' = { exit := some y, pool := promote server.pool.maxTotal y v.pool } ∧
      ((∃ address, event = .peerConnected y address false ∧ relayStuck direct y v.exit = true ∧ y ∈ v.pool) ∨
        ∃ peer t address, event = .selectPeer server.port peer ∧ t <:+: tr ∧
          ReachRun ctx.relayAddress address peer t (some y)) := by
  cases event with
  | discoverFor port | requestNewPeer port =>
    simp only [PortEffect] at h
    split at h
    · obtain ⟨t, ht, hr⟩ := h
      exact .inr (.inr (.inl ⟨none, t, ht, hr⟩))
    · exact .inl ⟨h, by simp⟩
  | peerClosed peer =>
    simp only [PortEffect] at h
    split at h
    · rcases h with hclosed | ⟨t, ht, hr⟩
      · exact .inr (.inl ⟨peer, rfl, hclosed⟩)
      · exact .inr (.inr (.inl ⟨some peer, t, ht, hr⟩))
    · exact .inl ⟨h, by simp⟩
  | peerUnusable peer =>
    simp only [PortEffect] at h
    split at h
    · obtain ⟨t, ht, hr⟩ := h
      exact .inr (.inr (.inl ⟨none, t, ht, hr⟩))
    · rename_i hexit
      refine .inl ⟨h, ?_⟩
      rintro _ ⟨⟩
      exact hexit
  | peerConnected peer address relayed =>
    simp only [PortEffect] at h
    split at h
    · rename_i hrotates
      obtain ⟨rfl, hstuck, hmem⟩ := hrotates
      exact .inr (.inr (.inr ⟨peer, h, .inl ⟨address, rfl, hstuck, hmem⟩⟩))
    · exact .inl ⟨h, by simp⟩
  | selectPeer port peer =>
    simp only [PortEffect] at h
    split at h
    · rename_i hport
      subst hport
      rcases h with hsame | ⟨y, t, address, ht, hreach, hadopted⟩
      · exact .inl ⟨hsame, by simp⟩
      · exact .inr (.inr (.inr ⟨y, hadopted, .inr ⟨peer, t, address, rfl, ht, hreach⟩⟩))
    · exact .inl ⟨h, by simp⟩

/-! ### What leaves a port alone -/

/-- The view of a port, the set of its handle's neighbours and the direct peers are the same. -/
structure SamePort (server : Server) (a a' : DiscoveryActor S) : Prop where
  view_eq : portView server a' = portView server a
  direct_eq : a'.directPeers = a.directPeers
  ports_eq : a'.destinations.ports = a.destinations.ports

namespace SamePort

theorem refl (a : DiscoveryActor S) : SamePort server a a := ⟨rfl, rfl, rfl⟩

theorem trans (h₁ : SamePort server a a') (h₂ : SamePort server a' a'') : SamePort server a a'' :=
  ⟨h₂.view_eq.trans h₁.view_eq, h₂.direct_eq.trans h₁.direct_eq, h₂.ports_eq.trans h₁.ports_eq⟩

theorem law : Law fun (a : DiscoveryActor S) (_ : List Io) a' => SamePort server a a' := ⟨refl, trans⟩

end SamePort

/-- Connecting another server does not touch the pool of `server`. -/
theorem exitPool_connect_of_ne {relayAddress : Multiaddr} {other : Server} {avoid : Option PeerId}
    {r : Except ConnectError ConnectedDestination} {s s' : S} (hne : server.port ≠ other.port)
    (h : Runs (connect relayAddress other avoid : M S _) s tr r s') : exitPool server s' = exitPool server s :=
  connect_obeys (R := fun s _ s' => exitPool server s' = exitPool server s)
    { toLaw := Law.of_frame (exitPool server)
      call := fun _ _ => rfl
      pool := fun _ _ => exitPool_pool_of_ne hne
      forget := fun _ _ _ => exitPool_forgetPeer_of_ne hne
      adopt := fun _ _ _ _ _ _ hR _ => (exitPool_remember_of_ne hne).trans hR } avoid _ _ _ _ h

theorem discover_same {avoid r : Option PeerId} (hne : server.port ≠ port)
    (h : Runs (discover ctx port avoid) a tr r a') : SamePort server a a' := by
  rcases runs_discover.1 h with ⟨-, -, -, rfl⟩ | ⟨other, t, result, s₁, hs, hc, -, -, rfl⟩
  · exact ⟨rfl, rfl, rfl⟩
  · rw [← Context.port_of_server? hs] at hne
    have hpool := exitPool_connect_of_ne hne hc
    rw [Context.port_of_server? hs] at hne
    refine ⟨?_, rfl, rfl⟩
    simp only [portView, destination, hpool, Destinations.active_set_of_ne hne]

theorem closePort_same {peer : PeerId} (hne : server.port ≠ port)
    (h : Runs (closePort ctx peer port) a tr u a') : SamePort server a a' := by
  rcases closePort_cases h with ⟨_, _, t, r, -, -, hd⟩ | ⟨_, _, -, -, -, rfl⟩
  · obtain ⟨hv, hd, hp⟩ := discover_same hne hd
    exact ⟨hv, hd, hp⟩
  · refine ⟨?_, rfl, rfl⟩
    simp only [portView, destination, Destinations.active_set_of_ne hne]

theorem adoptSpecific_same {other : Server} {peer : PeerId} {source : DestinationSource}
    (hne : server.port ≠ other.port) (h : Runs (adoptSpecific other peer source) a tr u a') :
    SamePort server a a' := by
  obtain ⟨now, s₁, rfl, -, rfl⟩ := runs_adoptSpecific h
  refine ⟨?_, rfl, rfl⟩
  simp only [portView, destination, Destinations.active_set_of_ne hne, exitPool_remember_of_ne hne]

theorem rotatePort_same {candidate : PeerId} (hne : server.port ≠ port)
    (h : Runs (rotatePort ctx candidate port) a tr u a') : SamePort server a a' := by
  rcases rotatePort_cases h with ⟨-, -, rfl⟩ | ⟨other, s₁, hs, rfl, ⟨-, -, rfl⟩ | ⟨-, hr⟩⟩
  · exact SamePort.refl _
  · rw [← Context.port_of_server? hs] at hne
    refine ⟨?_, rfl, rfl⟩
    simp only [portView, destination, exitPool_pool_of_ne hne]
  · rw [← Context.port_of_server? hs] at hne
    obtain ⟨hv, hd, hp⟩ := adoptSpecific_same hne hr
    refine ⟨hv.trans ?_, hd, hp⟩
    simp only [portView, destination, exitPool_pool_of_ne hne]

/-! ### What happens to the port itself -/

section Own

variable (hserver : ctx.server? server.port = some server) (hport : server.port ∈ a.destinations.ports)

include hserver hport

theorem discover_own {avoid r : Option PeerId} (h : Runs (discover ctx server.port avoid) a tr r a') :
    ∃ t, t <:+: tr ∧ Reconnected S ctx.relayAddress server avoid t (portView server a) (portView server a') := by
  rcases runs_discover.1 h with ⟨hn, -⟩ | ⟨other, t, result, s₁, hs, hc, rfl, -, rfl⟩
  · rw [hserver] at hn; cases hn
  · rw [hserver] at hs
    cases hs
    refine ⟨t, (List.prefix_append ..).isInfix, a.sticky, s₁, result, hc, rfl, ?_⟩
    simp only [portView, destination, Destinations.active_set_self hport]

theorem closePort_own {peer : PeerId} (h : Runs (closePort ctx peer server.port) a tr u a') :
    portView server a' = { portView server a with exit := none } ∨
      ∃ t, t <:+: tr ∧
        Reconnected S ctx.relayAddress server (some peer) t (portView server a) (portView server a') := by
  rcases closePort_cases h with ⟨checks, now, t, r, rfl, -, hd⟩ | ⟨_, _, -, -, -, rfl⟩
  · obtain ⟨t', ht', hr⟩ := discover_own hserver (by exact hport) hd
    refine .inr ⟨t', ht'.trans ?_, hr⟩
    exact ((List.suffix_cons ..).trans (List.suffix_append ..)).isInfix
  · left
    simp only [portView, destination, Destinations.active_set_self hport]

omit hserver in
theorem adoptSpecific_own {peer : PeerId} {source : DestinationSource}
    (h : Runs (adoptSpecific server peer source) a tr u a') :
    portView server a' =
      { exit := some peer, pool := promote server.pool.maxTotal peer (exitPool server a.sticky) } := by
  obtain ⟨now, s₁, rfl, -, rfl⟩ := runs_adoptSpecific h
  simp only [portView, destination, Destinations.active_set_self hport, exitPool_remember]

theorem rotatePort_own {candidate : PeerId} (h : Runs (rotatePort ctx candidate server.port) a tr u a') :
    portView server a' = if candidate ∈ (portView server a).pool then
      { exit := some candidate, pool := promote server.pool.maxTotal candidate (portView server a).pool }
      else portView server a := by
  rcases rotatePort_cases h with ⟨hn, -⟩ | ⟨other, s₁, hs, rfl, ⟨hc, -, rfl⟩ | ⟨hc, hr⟩⟩
  · rw [hserver] at hn; cases hn
  · rw [hserver] at hs
    cases hs
    rw [pool_fst_eq_exitPool] at hc
    have hc' : candidate ∉ (portView server a).pool := hc
    rw [if_neg hc']
    simp only [portView, destination, exitPool_pool]
  · rw [hserver] at hs
    cases hs
    rw [pool_fst_eq_exitPool] at hc
    have hc' : candidate ∈ (portView server a).pool := hc
    rw [if_pos hc', adoptSpecific_own (by exact hport) hr]
    simp only [portView, exitPool_pool]

end Own

/-! ### Every event -/

theorem exitPool_forgetAll {peer : PeerId} {servers : List Server} {s : S} :
    exitPool server (forgetAll servers peer s) = if server.port ∈ servers.map (·.port) then
      (exitPool server s).filter (· ≠ peer) else exitPool server s := by
  induction servers generalizing s with
  | nil => rfl
  | cons other servers ih =>
    refine (ih (s := StickyStore.forgetPeer other.port peer s)).trans ?_
    by_cases hp : server.port = other.port
    · have hin : server.port ∈ (other :: servers).map (·.port) := hp ▸ List.mem_cons_self ..
      rw [if_pos hin, ← hp, exitPool_forgetPeer, List.filter_filter]
      simp
    · rw [exitPool_forgetPeer_of_ne hp]
      simp [hp]

theorem mem_stale_iff {peer : PeerId} :
    server.port ∈ a.destinations.portsWhere (· = some peer) ↔ (portView server a).exit = some peer := by
  rw [Destinations.mem_portsWhere]
  constructor
  · rintro ⟨-, h⟩; exact of_decide_eq_true h
  · intro h; exact ⟨Destinations.mem_ports_of_active h, decide_eq_true h⟩

omit [StickyStore S] [LawfulStickyStore S] in
/-- The candidate's own link does not decide whether another exit is relay-only. -/
theorem relayStuck_insert {direct : Finset PeerId} {candidate : PeerId} {exit : Option PeerId} :
    relayStuck (insert candidate direct) candidate exit = relayStuck direct candidate exit := by
  cases exit with
  | none => rfl
  | some active =>
    by_cases h : active = candidate <;> simp [relayStuck, h]

/-- Forgetting a peer takes it out of the pool of the port. -/
theorem portView_forgetAll {peer : PeerId} (hserver : ctx.server? server.port = some server) :
    portView server { a with sticky := forgetAll ctx.servers peer a.sticky } =
      { portView server a with pool := (portView server a).pool.filter (· ≠ peer) } := by
  simp only [portView, destination]
  rw [exitPool_forgetAll, if_pos (List.mem_map_of_mem (Context.mem_of_server? hserver))]

theorem portView_noteDirect {peer : PeerId} {address : Multiaddr} :
    portView server (a.noteDirect peer address) = portView server a := by
  simp only [noteDirect, portView, destination, exitPool_noteDirectAddress]

/-- What handling an event does to a port. -/
theorem Step.portEffect {l : Label} (hserver : ctx.server? server.port = some server)
    (hport : server.port ∈ a.destinations.ports) (h : Step ctx a l a') :
    PortEffect S ctx server a.directPeers l.trace (portView server a) (portView server a') l.event := by
  obtain ⟨event, tr⟩ := l
  cases event with
  | discoverFor port =>
    obtain ⟨r, hd⟩ := step_discoverFor.1 h
    simp only [PortEffect]
    split
    · rename_i hp
      subst hp
      exact discover_own hserver hport hd
    · rename_i hp
      exact (discover_same (Ne.symm hp) hd).view_eq
  | requestNewPeer port =>
    obtain ⟨t, r, rfl, hd⟩ := step_requestNewPeer.1 h
    simp only [PortEffect]
    split
    · rename_i hp
      subst hp
      obtain ⟨t', ht', hr⟩ := discover_own hserver hport hd
      exact ⟨t', ht'.trans (List.prefix_append ..).isInfix, hr⟩
    · rename_i hp
      exact (discover_same (Ne.symm hp) hd).view_eq
  | peerClosed peer =>
    simp only [PortEffect]
    -- the other turns of the loop leave the port alone
    rcases runs_forM_at SamePort.law (fun q _ hq _ _ _ _ hr => closePort_same (Ne.symm hq) hr)
      (a.destinations.nodup.filter _) (step_peerClosed.1 h) with ⟨hout, hsame⟩ | ⟨t₁, b, t, b', t₂, hin,
        rfl, hab, hr, hba⟩
    · rw [if_neg fun hexit => hout (mem_stale_iff.2 hexit)]
      exact hsame.view_eq
    · have hview : portView server b = portView server a := hab.view_eq
      rw [if_pos (mem_stale_iff.1 hin), hba.view_eq, ← hview]
      rcases closePort_own hserver (hab.ports_eq ▸ hport) hr with hcl | ⟨t', ht', hrc⟩
      · exact .inl hcl
      · exact .inr ⟨t', ht'.trans ⟨t₁, t₂, List.append_assoc ..⟩, hrc⟩
  | peerUnusable peer =>
    obtain ⟨t, rfl, hloop⟩ := step_peerUnusable_cases h
    simp only [PortEffect]
    rw [← portView_forgetAll hserver]
    rcases runs_forM_at SamePort.law (fun q _ hq => Obeys.discard fun _ _ _ _ hd => discover_same (Ne.symm hq) hd)
      (a.destinations.nodup.filter _) hloop with ⟨hout, hsame⟩ | ⟨t₁, b, t', b', t₂, hin, rfl, hab, hr, hba⟩
    · rw [if_neg fun hexit => hout (mem_stale_iff.2 hexit)]
      exact hsame.view_eq
    · obtain ⟨r, hd⟩ := runs_discard.1 hr
      -- the turn of the port connects from the pool without the peer
      rw [if_pos (mem_stale_iff.1 hin), hba.view_eq, ← hab.view_eq]
      obtain ⟨t'', ht'', hrc⟩ := discover_own hserver (hab.ports_eq ▸ hport) hd
      have hpart : t' <:+: t₁ ++ (t' ++ t₂) := ⟨t₁, t₂, List.append_assoc ..⟩
      exact ⟨t'', (ht''.trans hpart).trans (List.prefix_append ..).isInfix, hrc⟩
  | peerConnected peer address relayed =>
    simp only [PortEffect]
    cases relayed with
    | true =>
      obtain ⟨rfl, rfl⟩ := step_peerConnected_relayed.1 h
      rfl
    | false =>
      have hloop := step_peerConnected_direct.1 h
      have hview : portView server (a.noteDirect peer address) = portView server a := portView_noteDirect
      rw [← hview, ← relayStuck_insert]
      have hstuck : server.port ∈ a.destinations.portsWhere (relayStuck (insert peer a.directPeers) peer) ↔
          relayStuck (insert peer a.directPeers) peer (portView server (a.noteDirect peer address)).exit = true := by
        rw [hview, Destinations.mem_portsWhere]
        exact ⟨fun h => h.2, fun h => ⟨hport, h⟩⟩
      -- the port has a turn if its exit is relayed
      rcases runs_forM_at SamePort.law (fun q _ hq _ _ _ _ hr => rotatePort_same (Ne.symm hq) hr)
        (a.destinations.nodup.filter _) hloop with ⟨hout, hsame⟩ | ⟨_, c, t, d, _, hin, -, hbc, hr, hda⟩
      · rw [if_neg fun h => hout (hstuck.2 h.2.1)]
        exact hsame.view_eq
      · have hs := hstuck.1 hin
        rw [hda.view_eq, rotatePort_own hserver (hbc.ports_eq ▸ hport) hr, hbc.view_eq]
        by_cases hm : peer ∈ (portView server (a.noteDirect peer address)).pool <;> simp [hs, hm]
  | selectPeer port peer =>
    simp only [PortEffect]
    rcases step_selectPeer_cases h with ⟨hs, -, rfl⟩ | ⟨other, o, t, t', hs, rfl, hreach, ho⟩
    · rw [if_neg]
      rintro rfl
      rw [hserver] at hs
      cases hs
    · split
      · rename_i hp
        obtain rfl : server = other := by
          rw [hp, hserver] at hs
          exact Option.some.inj hs
        cases o with
        | none => exact .inl (congrArg (portView server) ho.2)
        | some y => exact .inr ⟨y, t, _, (List.prefix_append ..).isInfix, hreach, adoptSpecific_own hport ho⟩
      · rename_i hp
        cases o with
        | none => exact congrArg (portView server) ho.2
        | some y =>
          refine (adoptSpecific_same ?_ ho).view_eq
          rw [Context.port_of_server? hs]
          exact Ne.symm hp

end DiscoveryActor

end P2Proxy
