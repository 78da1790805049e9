import P2Proxy.Discovery

/-!
# The programs of the discovery actor

The programs of the actor are taken apart once: each handler is a discovery, an adoption, or a loop over ports of
either, and what it says to the outside is known call by call.  A relation that every single change of the actor's state
keeps is kept by every event (`handle_obeys`).
-/

namespace P2Proxy

open Interaction

namespace Context

variable {ctx : Context} {port : Port} {server : Server}

theorem port_of_server? (h : ctx.server? port = some server) : server.port = port := by
  simpa using List.find?_some h

theorem mem_of_server? (h : ctx.server? port = some server) : server ∈ ctx.servers := List.mem_of_find?_eq_some h

/-- With distinct ports a configured server is the one its port is looked up to. -/
theorem server?_of_mem (hdistinct : (ctx.servers.map (·.port)).Nodup) (h : server ∈ ctx.servers) :
    ctx.server? server.port = some server := by
  cases hs : ctx.server? server.port with
  | none => simpa using List.find?_eq_none.1 hs server h
  | some other =>
    have hp := port_of_server? hs
    exact congrArg some (List.inj_on_of_nodup_map hdistinct (mem_of_server? hs) h hp)

end Context

namespace DiscoveryActor

variable {S : Type} {ctx : Context} {server : Server} {a a' : DiscoveryActor S} {tr : List Io} {port : Port}

/-- The actor has a handle for each configured port, and for no other. -/
def Handles (ctx : Context) (a : DiscoveryActor S) : Prop :=
  ∀ port, port ∈ a.destinations.ports ↔ port ∈ ctx.servers.map (·.port)

theorem Handles.mem_ports (h : Handles ctx a) (hserver : server ∈ ctx.servers) : server.port ∈ a.destinations.ports :=
  (h _).2 (List.mem_map_of_mem hserver)

/-- A port with a handle is looked up to a server. -/
theorem Handles.exists_server (h : Handles ctx a) (hport : port ∈ a.destinations.ports) :
    ∃ server, ctx.server? port = some server ∧ server.port = port := by
  obtain ⟨server, hserver, rfl⟩ := List.mem_map.1 ((h port).1 hport)
  cases hs : ctx.server? server.port with
  | none => simpa using List.find?_eq_none.1 hs server hserver
  | some other => exact ⟨other, rfl, Context.port_of_server? hs⟩

/-! ### The programs of the actor -/

theorem runs_withSticky {α : Type} {m : M S α} {r : α} :
    Runs (withSticky m) a tr r a' ↔ ∃ s', Runs m a.sticky tr r s' ∧ a' = { a with sticky := s' } := runs_zoom

theorem runs_storeDestination {d : Option ConnectedDestination} {u : Unit} :
    Runs (storeDestination port d : M (DiscoveryActor S) Unit) a tr u a' ↔
      tr = [⟨.emit (activeEvent port d), ()⟩] ∧
        a' = { a with destinations := a.destinations.set port (d.map (·.peer)) } := by
  unfold storeDestination
  rw [runs_bind]
  constructor
  · rintro ⟨t₁, _, _, t₂, rfl, h₁, h₂⟩
    obtain ⟨rfl, rfl⟩ := runs_modify.1 h₁
    obtain ⟨rfl, rfl⟩ := runs_emit.1 h₂
    exact ⟨rfl, rfl⟩
  · rintro ⟨rfl, rfl⟩
    exact ⟨[], (), _, _, rfl, runs_modify.2 ⟨rfl, rfl⟩, runs_emit.2 ⟨rfl, rfl⟩⟩

variable [StickyStore S]

/-- The announcement of the pool that `server` remembers in `s`. -/
def poolEvent (server : Server) (s : S) : Events :=
  .stickyPool server.port (StickyStore.snapshot server.port server.fingerprint s)

theorem runs_emitStickyPool {u : Unit} :
    Runs (emitStickyPool server : M (DiscoveryActor S) Unit) a tr u a' ↔
      tr = [⟨.emit (poolEvent server a.sticky), ()⟩] ∧ a' = a := by
  unfold emitStickyPool
  rw [runs_bind]
  constructor
  · rintro ⟨t₁, _, _, t₂, rfl, h₁, h₂⟩
    obtain ⟨rfl, rfl, rfl⟩ := runs_get.1 h₁
    exact runs_emit.1 h₂
  · rintro ⟨rfl, rfl⟩
    exact ⟨[], a', a', _, rfl, runs_get.2 ⟨rfl, rfl, rfl⟩, runs_emit.2 ⟨rfl, rfl⟩⟩

/-- The destination in a result. -/
def resultDestination : Except ConnectError ConnectedDestination → Option ConnectedDestination
  | .ok d => some d
  | .error _ => none

@[simp] theorem resultDestination_map_peer (r : Except ConnectError ConnectedDestination) :
    (resultDestination r).map (·.peer) = resultPeer r := by
  cases r <;> rfl

/-- A discovery connects the server of the port, stores the result and announces pool and exit. -/
theorem runs_discover {avoid r : Option PeerId} :
    Runs (discover ctx port avoid) a tr r a' ↔
      (ctx.server? port = none ∧ tr = [] ∧ r = none ∧
        a' = { a with pendingRediscovery := a.pendingRediscovery.erase port }) ∨
      ∃ server t result s₁, ctx.server? port = some server ∧
        Runs (connect ctx.relayAddress server avoid) a.sticky t result s₁ ∧
        tr = t ++ [⟨.emit (poolEvent server s₁), ()⟩, ⟨.emit (activeEvent port (resultDestination result)), ()⟩] ∧
        r = resultPeer result ∧
        a' = { a with
          sticky := s₁
          destinations := a.destinations.set port (resultPeer result)
          pendingRediscovery := a.pendingRediscovery.erase port } := by
  unfold discover
  rw [runs_bind]
  cases hserver : ctx.server? port with
  | none =>
    constructor
    · rintro ⟨t₁, _, _, t₂, rfl, h₁, h₂⟩
      obtain ⟨rfl, rfl⟩ := runs_modify.1 h₁
      obtain ⟨rfl, rfl, rfl⟩ := runs_pure.1 h₂
      exact .inl ⟨rfl, rfl, rfl, rfl⟩
    · rintro (⟨-, rfl, rfl, rfl⟩ | ⟨_, _, _, _, h, -⟩)
      · exact ⟨[], (), _, [], rfl, runs_modify.2 ⟨rfl, rfl⟩, runs_pure.2 ⟨rfl, rfl, rfl⟩⟩
      · cases h
  | some server =>
    constructor
    · rintro ⟨t₁, _, _, t₂, rfl, h₁, h₂⟩
      obtain ⟨rfl, rfl⟩ := runs_modify.1 h₁
      obtain ⟨t₃, result, _, t₄, rfl, h₃, h₄⟩ := runs_bind.1 h₂
      obtain ⟨s₁, hc, rfl⟩ := runs_withSticky.1 h₃
      obtain ⟨t₅, _, _, t₆, rfl, h₅, h₆⟩ := runs_bind.1 h₄
      obtain ⟨rfl, rfl⟩ := runs_emitStickyPool.1 h₅
      -- the destination is stored whether the connect failed or not
      refine .inr ⟨server, t₃, result, s₁, rfl, hc, ?_⟩
      cases result <;>
      · obtain ⟨_, _, _, _, rfl, h₇, h₈⟩ := runs_bind.1 h₆
        obtain ⟨rfl, rfl⟩ := runs_storeDestination.1 h₇
        obtain ⟨rfl, rfl, rfl⟩ := runs_pure.1 h₈
        exact ⟨rfl, rfl, rfl⟩
    · rintro (⟨h, -⟩ | ⟨other, t, result, s₁, h, hc, rfl, rfl, rfl⟩)
      · cases h
      · cases h
        refine ⟨[], (), _, _, rfl, runs_modify.2 ⟨rfl, rfl⟩, runs_bind.2 ⟨t, result, _, _, rfl,
          runs_withSticky.2 ⟨s₁, hc, rfl⟩, runs_bind.2 ⟨[_], (), _, [_], rfl, runs_emitStickyPool.2 ⟨rfl, rfl⟩, ?_⟩⟩⟩
        cases result <;>
        exact runs_bind.2 ⟨[_], (), _, [], rfl, runs_storeDestination.2 ⟨rfl, rfl⟩, runs_pure.2 ⟨rfl, rfl, rfl⟩⟩

theorem step_discoverFor :
    Step ctx a ⟨.discoverFor port, tr⟩ a' ↔ ∃ r, Runs (discover ctx port none) a tr r a' := runs_discard

/-- A request is a discovery whose result is sent to the requester. -/
theorem step_requestNewPeer :
    Step ctx a ⟨.requestNewPeer port, tr⟩ a' ↔
      ∃ t r, tr = t ++ [⟨.reply r, ()⟩] ∧ Runs (discover ctx port none) a t r a' := by
  refine runs_bind.trans ⟨?_, ?_⟩
  · rintro ⟨t, r, _, _, rfl, h₁, h₂⟩
    obtain ⟨rfl, rfl⟩ := runs_ask.1 h₂
    exact ⟨t, r, rfl, h₁⟩
  · rintro ⟨t, r, rfl, h⟩
    exact ⟨t, r, a', _, rfl, h, runs_ask.2 ⟨rfl, rfl⟩⟩

/-- Rediscovering a port at once notes the time, and discovers it. -/
theorem runs_rediscover {peer : PeerId} {u : Unit} (h : Runs (rediscover ctx peer port) a tr u a') :
    ∃ now t r, tr = ⟨.instantNow, now⟩ :: t ∧ Runs (discover ctx port (some peer))
      { a with lastRediscovery := Function.update a.lastRediscovery port (some now) } t r a' := by
  obtain ⟨_, now, _, t₂, rfl, h₁, h₂⟩ := runs_bind.1 h
  obtain ⟨rfl, rfl⟩ := runs_ask.1 h₁
  obtain ⟨_, _, _, t₃, rfl, h₃, h₄⟩ := runs_bind.1 h₂
  obtain ⟨rfl, rfl⟩ := runs_modify.1 h₃
  obtain ⟨r, hd⟩ := runs_discard.1 h₄
  exact ⟨now, _, r, rfl, hd⟩

/-- A closing exit is rediscovered at once, or the port is cleared and one rediscovery is scheduled. -/
theorem closePort_cases {peer : PeerId} {u : Unit} (h : Runs (closePort ctx peer port) a tr u a') :
    (∃ checks now t r, tr = checks ++ ⟨.instantNow, now⟩ :: t ∧
      (a.lastRediscovery port = none ∧ checks = [] ∨ ∃ at_ n, a.lastRediscovery port = some at_ ∧
        checks = [⟨.instantNow, n⟩] ∧ rediscoveryCooldown ≤ Duration.ofNanos (n - at_)) ∧
      Runs (discover ctx port (some peer))
        { a with lastRediscovery := Function.update a.lastRediscovery port (some now) } t r a') ∨
    ∃ at_ n, a.lastRediscovery port = some at_ ∧ ¬rediscoveryCooldown ≤ Duration.ofNanos (n - at_) ∧
      tr = ⟨.instantNow, n⟩ :: ⟨.emit (activeEvent port none), ()⟩ ::
        (if port ∈ a.pendingRediscovery then []
          else [⟨.spawnDiscoverFor port (rediscoveryCooldown.sub (Duration.ofNanos (n - at_))), ()⟩]) ∧
      a' = { a with
        destinations := a.destinations.set port none
        pendingRediscovery := insert port a.pendingRediscovery } := by
  obtain ⟨_, b, c, t, rfl, h₁, h₂⟩ := runs_bind.1 h
  obtain ⟨rfl, hb, hc⟩ := runs_get.1 h₁
  subst b c
  cases hlast : a.lastRediscovery port with
  | none =>
    rw [hlast] at h₂
    obtain ⟨now, t, r, rfl, hd⟩ := runs_rediscover h₂
    exact .inl ⟨[], now, t, r, rfl, .inl ⟨rfl, rfl⟩, hd⟩
  | some at_ =>
    rw [hlast] at h₂
    obtain ⟨_, n, b, t, rfl, h₃, h₄⟩ := runs_bind.1 h₂
    obtain ⟨rfl, hb⟩ := runs_ask.1 h₃
    subst b
    dsimp only at h₄
    -- the cooldown is over, or not
    split at h₄
    · rename_i hc
      obtain ⟨now, t, r, rfl, hd⟩ := runs_rediscover h₄
      exact .inl ⟨[⟨.instantNow, n⟩], now, t, r, rfl, .inr ⟨at_, n, rfl, rfl, hc⟩, hd⟩
    · rename_i hc
      obtain ⟨_, _, _, t, rfl, h₅, h₆⟩ := runs_bind.1 h₄
      obtain ⟨rfl, rfl⟩ := runs_storeDestination.1 h₅
      obtain ⟨_, b, c, t, rfl, h₇, h₈⟩ := runs_bind.1 h₆
      obtain ⟨rfl, hb, hc'⟩ := runs_get.1 h₇
      subst b c
      refine .inr ⟨at_, n, rfl, hc, ?_⟩
      split at h₈
      · rename_i hp
        obtain ⟨rfl, -, rfl⟩ := runs_pure.1 h₈
        have hpend : port ∈ a.pendingRediscovery := hp
        exact ⟨by simp [hpend], by rw [Finset.insert_eq_self.2 hpend]; rfl⟩
      · rename_i hp
        obtain ⟨_, _, _, _, rfl, h₉, h₁₀⟩ := runs_bind.1 h₈
        obtain ⟨rfl, rfl⟩ := runs_modify.1 h₉
        obtain ⟨rfl, rfl⟩ := runs_ask.1 h₁₀
        have hpend : port ∉ a.pendingRediscovery := hp
        exact ⟨by simp [hpend], rfl⟩

/-- Adopting remembers the peer, stores it and announces both. -/
theorem runs_adoptSpecific {peer : PeerId} {source : DestinationSource} {u : Unit}
    (h : Runs (adoptSpecific server peer source : M (DiscoveryActor S) Unit) a tr u a') :
    ∃ now s₁, s₁ = (StickyStore.remember now server.port server.fingerprint peer server.pool.maxTotal a.sticky).2 ∧
      tr = [⟨.utcNow, now⟩, ⟨.emit (activeEvent server.port (some { peer, source })), ()⟩,
        ⟨.emit (poolEvent server s₁), ()⟩] ∧
      a' = { a with sticky := s₁, destinations := a.destinations.set server.port (some peer) } := by
  obtain ⟨_, now, _, t, rfl, h₁, h₂⟩ := runs_bind.1 h
  obtain ⟨rfl, rfl⟩ := runs_ask.1 h₁
  obtain ⟨_, _, _, t, rfl, h₃, h₄⟩ := runs_bind.1 h₂
  obtain ⟨rfl, rfl⟩ := runs_modify.1 h₃
  obtain ⟨_, _, _, t, rfl, h₅, h₆⟩ := runs_bind.1 h₄
  obtain ⟨rfl, rfl⟩ := runs_storeDestination.1 h₅
  obtain ⟨rfl, rfl⟩ := runs_emitStickyPool.1 h₆
  exact ⟨now, _, rfl, rfl, rfl⟩

/-- A relay-stuck port is rotated if its server's pool knows the candidate. -/
theorem rotatePort_cases {candidate : PeerId} {u : Unit} (h : Runs (rotatePort ctx candidate port) a tr u a') :
    (ctx.server? port = none ∧ tr = [] ∧ a' = a) ∨
    ∃ server s₁, ctx.server? port = some server ∧ s₁ = (StickyStore.pool server.port server.fingerprint a.sticky).2 ∧
      ((candidate ∉ (StickyStore.pool server.port server.fingerprint a.sticky).1 ∧ tr = [] ∧
          a' = { a with sticky := s₁ }) ∨
        (candidate ∈ (StickyStore.pool server.port server.fingerprint a.sticky).1 ∧
          Runs (adoptSpecific server candidate .sticky : M (DiscoveryActor S) Unit) { a with sticky := s₁ }
            tr () a')) := by
  unfold rotatePort at h
  cases hserver : ctx.server? port with
  | none =>
    rw [hserver] at h
    obtain ⟨rfl, -, rfl⟩ := runs_pure.1 h
    exact .inl ⟨rfl, rfl, rfl⟩
  | some server =>
    rw [hserver] at h
    obtain rfl := Context.port_of_server? hserver
    obtain ⟨_, peers, _, t, rfl, h₁, h₂⟩ := runs_bind.1 h
    obtain ⟨s₁, hpool, rfl⟩ := runs_withSticky.1 h₁
    obtain ⟨rfl, rfl, rfl⟩ := runs_modifyGet.1 hpool
    refine .inr ⟨server, _, rfl, rfl, ?_⟩
    split at h₂
    · rename_i hc
      exact .inr ⟨hc, h₂⟩
    · rename_i hc
      obtain ⟨rfl, -, rfl⟩ := runs_pure.1 h₂
      exact .inl ⟨hc, rfl, rfl⟩

/-! ### The handlers -/

theorem step_peerClosed {peer : PeerId} :
    Step ctx a ⟨.peerClosed peer, tr⟩ a' ↔
      Runs ((a.destinations.portsWhere (· = some peer)).forM (closePort ctx peer))
        { a with directPeers := a.directPeers.erase peer } tr () a' := by
  constructor
  · intro h
    obtain ⟨_, _, _, t, rfl, h₁, h₂⟩ := runs_bind.1 h
    obtain ⟨rfl, rfl⟩ := runs_modify.1 h₁
    obtain ⟨_, b, c, t, rfl, h₃, h₄⟩ := runs_bind.1 h₂
    obtain ⟨rfl, rfl, rfl⟩ := runs_get.1 h₃
    exact h₄
  · intro h
    exact runs_bind.2 ⟨[], (), _, tr, rfl, runs_modify.2 ⟨rfl, rfl⟩,
      runs_bind.2 ⟨[], _, _, tr, rfl, runs_get.2 ⟨rfl, rfl, rfl⟩, h⟩⟩

/-- Drop `peer` from the pools of `servers`. -/
def forgetAll (servers : List Server) (peer : PeerId) (s : S) : S :=
  servers.foldl (fun s server => StickyStore.forgetPeer server.port peer s) s

private theorem runs_forgetAll {servers : List Server} {peer : PeerId} {u : PUnit}
    (h : Runs (servers.forM fun server => modify fun a : DiscoveryActor S =>
      { a with sticky := StickyStore.forgetPeer server.port peer a.sticky }) a tr u a') :
    tr = [] ∧ a' = { a with sticky := forgetAll servers peer a.sticky } := by
  induction servers generalizing a tr with
  | nil => exact runs_forM_nil.1 h
  | cons server servers ih =>
    obtain ⟨t₁, b, t₂, rfl, h₁, h₂⟩ := runs_forM_cons.1 h
    obtain ⟨rfl, rfl⟩ := runs_modify.1 h₁
    exact ih h₂

private theorem runs_emitStickyPools {servers : List Server} {u : PUnit}
    (h : Runs (servers.forM emitStickyPool) a tr u a') :
    tr = servers.map (fun server => ⟨.emit (poolEvent server a.sticky), ()⟩) ∧ a' = a := by
  induction servers generalizing tr with
  | nil => exact runs_forM_nil.1 h
  | cons server servers ih =>
    obtain ⟨t₁, b, t₂, rfl, h₁, h₂⟩ := runs_forM_cons.1 h
    obtain ⟨rfl, rfl⟩ := runs_emitStickyPool.1 h₁
    obtain ⟨rfl, rfl⟩ := ih h₂
    exact ⟨rfl, rfl⟩

/-- The peer is dropped everywhere, its ports are rediscovered, and all pools are announced. -/
theorem step_peerUnusable_cases {peer : PeerId} (h : Step ctx a ⟨.peerUnusable peer, tr⟩ a') :
    ∃ t, tr = t ++ ctx.servers.map (fun server => ⟨.emit (poolEvent server a'.sticky), ()⟩) ∧
      Runs ((a.destinations.portsWhere (· = some peer)).forM fun port => do
        let _ ← discover ctx port none) { a with sticky := forgetAll ctx.servers peer a.sticky } t () a' := by
  obtain ⟨_, _, b, t, rfl, h₁, h₂⟩ := runs_bind.1 h
  obtain ⟨rfl, rfl⟩ := runs_forgetAll h₁
  obtain ⟨_, b, c, t, rfl, h₃, h₄⟩ := runs_bind.1 h₂
  obtain ⟨rfl, hb, hc⟩ := runs_get.1 h₃
  subst b c
  obtain ⟨t₁, _, c, t₂, rfl, h₅, h₆⟩ := runs_bind.1 h₄
  obtain ⟨rfl, rfl⟩ := runs_emitStickyPools h₆
  exact ⟨t₁, rfl, h₅⟩

theorem step_peerConnected_relayed {peer : PeerId} {address : Multiaddr} :
    Step ctx a ⟨.peerConnected peer address true, tr⟩ a' ↔
      tr = [] ∧ a' = { a with directPeers := a.directPeers.erase peer } := runs_modify

/-- The state in which a direct connection of `peer` has been noted. -/
def noteDirect (a : DiscoveryActor S) (peer : PeerId) (address : Multiaddr) : DiscoveryActor S :=
  { a with
    sticky := StickyStore.noteDirectAddress peer address a.sticky
    directPeers := insert peer a.directPeers }

theorem step_peerConnected_direct {peer : PeerId} {address : Multiaddr} :
    Step ctx a ⟨.peerConnected peer address false, tr⟩ a' ↔
      Runs ((a.destinations.portsWhere (relayStuck (insert peer a.directPeers) peer)).forM (rotatePort ctx peer))
        (a.noteDirect peer address) tr () a' := by
  constructor
  · intro h
    obtain ⟨_, _, _, t, rfl, h₁, h₂⟩ := runs_bind.1 h
    obtain ⟨rfl, rfl⟩ := runs_modify.1 h₁
    obtain ⟨_, _, _, t, rfl, h₃, h₄⟩ := runs_bind.1 h₂
    obtain ⟨rfl, rfl⟩ := runs_modify.1 h₃
    obtain ⟨_, b, c, t, rfl, h₅, h₆⟩ := runs_bind.1 h₄
    obtain ⟨rfl, rfl, rfl⟩ := runs_get.1 h₅
    exact h₆
  · intro h
    exact runs_bind.2 ⟨[], (), _, tr, rfl, runs_modify.2 ⟨rfl, rfl⟩, runs_bind.2 ⟨[], (), _, tr, rfl,
      runs_modify.2 ⟨rfl, rfl⟩, runs_bind.2 ⟨[], _, _, tr, rfl, runs_get.2 ⟨rfl, rfl, rfl⟩, h⟩⟩⟩

/-- The picked peer is tried once, and whoever is reached is adopted. -/
theorem step_selectPeer_cases {peer : PeerId} (h : Step ctx a ⟨.selectPeer port peer, tr⟩ a') :
    (ctx.server? port = none ∧ tr = [] ∧ a' = a) ∨
    ∃ server o t t', ctx.server? port = some server ∧ tr = t ++ t' ∧
      ReachRun ctx.relayAddress (StickyStore.directAddress server.port peer a.sticky) peer t o ∧
      match o with
      | none => (∃ message, t' = [⟨.emit (.error message), ()⟩]) ∧ a' = a
      | some y => Runs (adoptSpecific server y .manual : M (DiscoveryActor S) Unit) a t' () a' := by
  change Runs (selectPeer ctx port peer) a tr () a' at h
  unfold selectPeer at h
  cases hserver : ctx.server? port with
  | none =>
    rw [hserver] at h
    obtain ⟨rfl, -, rfl⟩ := runs_pure.1 h
    exact .inl ⟨rfl, rfl, rfl⟩
  | some server =>
    rw [hserver] at h
    obtain ⟨t, o, b, t', rfl, h₁, h₂⟩ := runs_bind.1 h
    obtain ⟨s₁, hr, hb⟩ := runs_withSticky.1 h₁
    obtain ⟨rfl, hreach⟩ := runs_tryReachPeer.1 hr
    obtain rfl : b = a := hb
    refine .inr ⟨server, o, t, t', rfl, rfl, hreach, ?_⟩
    cases o with
    | none =>
      obtain ⟨rfl, rfl⟩ := runs_emit.1 h₂
      exact ⟨⟨_, rfl⟩, rfl⟩
    | some y => exact h₂

/-! ### What no event can break -/

/-- A relation that holds across each way in which the actor changes its state: the operations of the store, storing a
destination, and keeping its own books. -/
structure ActorLaw (R : DiscoveryActor S → List Io → DiscoveryActor S → Prop) : Prop extends Law R where
  call : ∀ a e, R a [e] a
  pool : ∀ a port fp, R a [] { a with sticky := (StickyStore.pool port fp a.sticky).2 }
  remember : ∀ a now port fp peer max, R a [] { a with
    sticky := (StickyStore.remember now port fp peer max a.sticky).2 }
  note : ∀ a peer address, R a [] { a with sticky := StickyStore.noteDirectAddress peer address a.sticky }
  forget : ∀ a port peer, R a [] { a with sticky := StickyStore.forgetPeer port peer a.sticky }
  store : ∀ a port peer, R a [] { a with destinations := a.destinations.set port peer }
  book : ∀ a last pending direct, R a [] { a with
    lastRediscovery := last, pendingRediscovery := pending, directPeers := direct }

namespace ActorLaw

variable {R : DiscoveryActor S → List Io → DiscoveryActor S → Prop}

/-- The law of the actor as a law of the connect flow on its store. -/
private theorem connectLaw (hR : ActorLaw R) (server : Server) :
    ConnectLaw server fun s t s' => ∀ a : DiscoveryActor S, a.sticky = s → R a t { a with sticky := s' } where
  refl s a ha := by subst ha; exact hR.refl a
  trans h₁ h₂ a ha := hR.trans (h₁ a ha) (h₂ _ rfl)
  call s e a ha := by subst ha; exact hR.call a e
  pool _ s a ha := by subst ha; exact hR.pool a _ _
  forget _ s p a ha := by subst ha; exact hR.forget a _ _
  adopt _ _ _ _ p now h _ a ha := by
    have hask := hR.trans (h a ha) (hR.call _ ⟨.utcNow, now⟩)
    have hboth := hR.trans hask (hR.remember _ now server.port server.fingerprint p server.pool.maxTotal)
    rwa [List.append_nil] at hboth

theorem withSticky_connect (hR : ActorLaw R) (relayAddress : Multiaddr) (server : Server) (avoid : Option PeerId) :
    Obeys R (withSticky (connect relayAddress server avoid)) :=
  Obeys.zoom fun a _ _ _ h => connect_obeys (hR.connectLaw server) avoid _ _ _ _ h a rfl

private theorem ask (hR : ActorLaw R) (q : Call) : Obeys R (ask q : M (DiscoveryActor S) _) :=
  Obeys.ask fun a x => hR.call a ⟨q, x⟩

private theorem get (hR : ActorLaw R) : Obeys R (get : M (DiscoveryActor S) _) := Obeys.get hR.toLaw

private theorem emitStickyPool (hR : ActorLaw R) (server : Server) : Obeys R (emitStickyPool server) :=
  Obeys.bind hR.toLaw hR.get fun _ => hR.ask _

private theorem storeDestination (hR : ActorLaw R) (port : Port) (d : Option ConnectedDestination) :
    Obeys R (storeDestination port d) :=
  Obeys.bind hR.toLaw (Obeys.update fun a => hR.store a _ _) fun _ => hR.ask _

theorem discover (hR : ActorLaw R) (ctx : Context) (port : Port) (avoid : Option PeerId) :
    Obeys R (discover ctx port avoid) := by
  refine Obeys.bind hR.toLaw (Obeys.update fun a => hR.book a _ _ _) fun _ => ?_
  cases ctx.server? port with
  | none => exact Obeys.pure hR.toLaw none
  | some server =>
    refine Obeys.bind hR.toLaw (hR.withSticky_connect _ _ _) fun result =>
      Obeys.bind hR.toLaw (hR.emitStickyPool server) fun _ => ?_
    cases result <;> exact Obeys.bind hR.toLaw (hR.storeDestination _ _) fun _ => Obeys.pure hR.toLaw _

theorem closePort (hR : ActorLaw R) (ctx : Context) (peer : PeerId) (port : Port) :
    Obeys R (closePort ctx peer port) := by
  have hredis : Obeys R (rediscover ctx peer port) :=
    Obeys.bind hR.toLaw (hR.ask _) fun _ => Obeys.bind hR.toLaw (Obeys.update fun a => hR.book a _ _ _) fun _ =>
      Obeys.bind hR.toLaw (hR.discover ctx port _) fun _ => Obeys.pure hR.toLaw _
  refine Obeys.bind hR.toLaw hR.get fun a => ?_
  split
  · exact hredis
  · refine Obeys.bind hR.toLaw (hR.ask _) fun now => ?_
    dsimp only
    split
    · exact hredis
    · refine Obeys.bind hR.toLaw (hR.storeDestination _ _) fun _ => Obeys.bind hR.toLaw hR.get fun b => ?_
      split
      · exact Obeys.pure hR.toLaw _
      · exact Obeys.bind hR.toLaw (Obeys.update fun a => hR.book a _ _ _) fun _ => hR.ask _

theorem adoptSpecific (hR : ActorLaw R) (server : Server) (peer : PeerId) (source : DestinationSource) :
    Obeys R (adoptSpecific server peer source) :=
  Obeys.bind hR.toLaw (hR.ask _) fun _ => Obeys.bind hR.toLaw (Obeys.update fun a => hR.remember a _ _ _ _ _)
    fun _ => Obeys.bind hR.toLaw (hR.storeDestination _ _) fun _ => hR.emitStickyPool server

theorem rotatePort (hR : ActorLaw R) (ctx : Context) (candidate : PeerId) (port : Port) :
    Obeys R (rotatePort ctx candidate port) := by
  unfold DiscoveryActor.rotatePort
  split
  · exact Obeys.pure hR.toLaw _
  · refine Obeys.bind hR.toLaw (Obeys.zoom fun a tr r s' h => ?_) fun peers => ?_
    · obtain ⟨rfl, -, rfl⟩ := runs_modifyGet.1 h
      exact hR.pool a _ _
    · split
      · exact hR.adoptSpecific _ _ _
      · exact Obeys.pure hR.toLaw _

end ActorLaw

/-- Every handler obeys every law of this kind. -/
theorem handle_obeys {R : DiscoveryActor S → List Io → DiscoveryActor S → Prop} (hR : ActorLaw R) (ctx : Context)
    (event : DiscoveryEvent) : Obeys R (handle ctx event) := by
  have hbook : ∀ f : DiscoveryActor S → Finset PeerId,
      Obeys R (modify fun a => { a with directPeers := f a } : M (DiscoveryActor S) Unit) :=
    fun f => Obeys.update fun a => hR.book a _ _ _
  have hturn : ∀ port, Obeys R (do let _ ← discover ctx port none : M (DiscoveryActor S) Unit) := fun port =>
    Obeys.bind hR.toLaw (hR.discover ctx port none) fun _ => Obeys.pure hR.toLaw _
  cases event with
  | discoverFor port => exact hturn port
  | requestNewPeer port => exact Obeys.bind hR.toLaw (hR.discover ctx port none) fun _ => hR.ask _
  | peerClosed peer =>
    exact Obeys.bind hR.toLaw (hbook _) fun _ => Obeys.bind hR.toLaw hR.get fun a =>
      Obeys.forM hR.toLaw _ fun port _ => hR.closePort ctx peer port
  | peerUnusable peer =>
    refine Obeys.bind hR.toLaw (Obeys.forM hR.toLaw _ fun server _ => Obeys.update fun a => hR.forget a _ _) fun _ => ?_
    refine Obeys.bind hR.toLaw hR.get fun a => ?_
    exact Obeys.bind hR.toLaw (Obeys.forM hR.toLaw _ fun port _ => hturn port) fun _ =>
      Obeys.forM hR.toLaw _ fun server _ => hR.emitStickyPool server
  | peerConnected peer address relayed =>
    cases relayed with
    | true => exact hbook _
    | false =>
      exact Obeys.bind hR.toLaw (hbook _) fun _ => Obeys.bind hR.toLaw (Obeys.update fun a => hR.note a _ _) fun _ =>
        Obeys.bind hR.toLaw hR.get fun a => Obeys.forM hR.toLaw _ fun port _ => hR.rotatePort ctx peer port
  | selectPeer port peer =>
    show Obeys R (selectPeer ctx port peer)
    unfold selectPeer
    split
    · exact Obeys.pure hR.toLaw _
    · refine Obeys.bind hR.toLaw (Obeys.zoom fun a tr r s' h => ?_) fun o => ?_
      · obtain ⟨rfl, -⟩ := runs_tryReachPeer.1 h
        exact hR.toLaw.of_calls hR.call a tr
      · split
        · exact hR.adoptSpecific _ _ _
        · exact hR.ask _

/-- No event changes for which ports there is a handle. -/
theorem Step.ports_eq {l : Label} (h : Step ctx a l a') : a'.destinations.ports = a.destinations.ports :=
  handle_obeys (R := fun a _ a' => a'.destinations.ports = a.destinations.ports)
    { toLaw := Law.of_frame fun a : DiscoveryActor S => a.destinations.ports
      call := fun _ _ => rfl, pool := fun _ _ _ => rfl, remember := fun _ _ _ _ _ _ => rfl, note := fun _ _ _ => rfl
      forget := fun _ _ _ => rfl, store := fun _ _ _ => rfl, book := fun _ _ _ _ => rfl } ctx l.event _ _ _ _ h

/-- What every operation of the store preserves, every event preserves. -/
theorem Step.sticky_invariant {I : S → Prop} (hpool : ∀ port fp s, I s → I (StickyStore.pool port fp s).2)
    (hremember : ∀ now port fp peer max s, I s → I (StickyStore.remember now port fp peer max s).2)
    (hnote : ∀ peer address s, I s → I (StickyStore.noteDirectAddress peer address s))
    (hforget : ∀ port peer s, I s → I (StickyStore.forgetPeer port peer s)) {l : Label} (h : Step ctx a l a')
    (ha : I a.sticky) : I a'.sticky :=
  handle_obeys (R := fun a _ a' => I a.sticky → I a'.sticky)
    { toLaw := Law.of_invariant fun a : DiscoveryActor S => I a.sticky
      call := fun _ _ h => h, pool := fun _ _ _ => hpool _ _ _
      remember := fun _ _ _ _ _ _ => hremember _ _ _ _ _ _, note := fun _ _ _ => hnote _ _ _
      forget := fun _ _ _ => hforget _ _ _, store := fun _ _ _ h => h, book := fun _ _ _ _ h => h }
    ctx l.event _ _ _ _ h ha

/-! ### The direct peers -/

/-- The peers that are believed to be directly connected once the event was handled. -/
def directAfter (direct : Finset PeerId) : DiscoveryEvent → Finset PeerId
  | .peerClosed peer | .peerConnected peer _ true => direct.erase peer
  | .peerConnected peer _ false => insert peer direct
  | .discoverFor _ | .requestNewPeer _ | .peerUnusable _ | .selectPeer _ _ => direct

omit [StickyStore S] in
private theorem directLaw : Law fun (a : DiscoveryActor S) (_ : List Io) a' => a'.directPeers = a.directPeers :=
  Law.of_frame fun a : DiscoveryActor S => a.directPeers

private theorem discover_directPeers {avoid r : Option PeerId} (h : Runs (discover ctx port avoid) a tr r a') :
    a'.directPeers = a.directPeers := by
  rcases runs_discover.1 h with ⟨-, -, -, rfl⟩ | ⟨_, _, _, _, -, -, -, -, rfl⟩ <;> rfl

private theorem adoptSpecific_directPeers {server : Server} {peer : PeerId} {source : DestinationSource} {u : Unit}
    (h : Runs (adoptSpecific server peer source) a tr u a') : a'.directPeers = a.directPeers := by
  obtain ⟨now, s₁, -, -, rfl⟩ := runs_adoptSpecific h
  rfl

/-- The direct peers are what connecting and closing peers make them. -/
theorem Step.directPeers_eq {l : Label} (h : Step ctx a l a') : a'.directPeers = directAfter a.directPeers l.event := by
  obtain ⟨event, tr⟩ := l
  cases event with
  | discoverFor q =>
    obtain ⟨r, hd⟩ := step_discoverFor.1 h
    exact discover_directPeers hd
  | requestNewPeer q =>
    obtain ⟨t, r, -, hd⟩ := step_requestNewPeer.1 h
    exact discover_directPeers hd
  | peerClosed peer =>
    refine Obeys.forM directLaw _ (fun q _ b t _ b' hr => ?_) _ _ _ _ (step_peerClosed.1 h)
    rcases closePort_cases hr with ⟨_, _, _, _, -, -, hd⟩ | ⟨_, _, -, -, -, rfl⟩
    · have hdirect := discover_directPeers hd
      exact hdirect
    · rfl
  | peerUnusable peer =>
    obtain ⟨t, -, hloop⟩ := step_peerUnusable_cases h
    have hdirect := Obeys.forM directLaw _ (fun q _ b t _ b' hr => ?_) _ _ _ _ hloop
    · exact hdirect
    · obtain ⟨r, hd⟩ := runs_discard.1 hr
      exact discover_directPeers hd
  | peerConnected peer address relayed =>
    cases relayed with
    | true =>
      obtain ⟨-, rfl⟩ := step_peerConnected_relayed.1 h
      rfl
    | false =>
      refine Obeys.forM directLaw _ (fun q _ b t _ b' hr => ?_) _ _ _ _ (step_peerConnected_direct.1 h)
      rcases rotatePort_cases hr with ⟨-, -, rfl⟩ | ⟨_, _, -, rfl, ⟨-, -, rfl⟩ | ⟨-, hr⟩⟩
      · rfl
      · rfl
      · have hdirect := adoptSpecific_directPeers hr
        exact hdirect
  | selectPeer q peer =>
    rcases step_selectPeer_cases h with ⟨-, -, rfl⟩ | ⟨_, o, t, t', -, -, -, ho⟩
    · rfl
    · cases o with
      | none => rw [ho.2]; rfl
      | some y => exact adoptSpecific_directPeers ho

end DiscoveryActor

end P2Proxy
