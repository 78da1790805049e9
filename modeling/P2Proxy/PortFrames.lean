import P2Proxy.Announcements

/-!
# Ports do not interfere

All that the actor keeps for a port is its exit, the pool that its server remembers, the time of its last rediscovery
and whether one is pending (`PortRecord`).  What an event does for one port leaves the pool that is stored for another
port, and its rediscoveries, as they are (`Untouched`); `Step.records_apart` says for each kind of event whose record it
may change.
-/

namespace P2Proxy

open Interaction

/-- What the actor keeps for a port; the pool is as its server's fingerprint shows it. -/
structure PortRecord where
  destination : Option PeerId
  pool : List PoolPeer
  lastRediscovery : Option Instant
  pendingRediscovery : Bool

/-- Two snapshots of a pool that differ in nothing but the address of `peer`. -/
def SameBut (peer : PeerId) (pool pool' : List PoolPeer) : Prop :=
  List.Forall₂ (fun pp pp' => pp'.peerId = pp.peerId ∧ (pp.peerId ≠ peer → pp'.addresses = pp.addresses)) pool pool'

theorem SameBut.refl (peer : PeerId) (pool : List PoolPeer) : SameBut peer pool pool :=
  List.forall₂_same.2 fun _ _ => ⟨rfl, fun _ => rfl⟩

namespace StickyState

variable {s s' : StickyState} {port q : Port} {fp : String} {peer : PeerId} {address : Multiaddr}

/-- The entries of a pool, as a snapshot shows them. -/
def shown (peers : List StickyPeer) : List PoolPeer :=
  peers.map fun p => { peerId := p.peerId, addresses := p.address.toList }

private theorem snapshot_some {pool : StickyPool} (h : s.pools port = some pool) :
    s.snapshot port fp = if pool.fingerprint = fp then shown pool.peers else [] := by
  simp [snapshot, h, shown]

private theorem snapshot_none (h : s.pools port = none) : s.snapshot port fp = [] := by
  simp [snapshot, h]

theorem snapshot_congr (h : s'.pools q = s.pools q) : s'.snapshot q fp = s.snapshot q fp := by
  unfold snapshot
  rw [h]

/-- Reading the pool under a fingerprint leaves what it shows. -/
theorem snapshot_pool : (s.pool port fp).2.snapshot port fp = s.snapshot port fp := by
  unfold pool
  cases h : s.pools port with
  | none => rfl
  | some pool =>
    by_cases hf : pool.fingerprint = fp
    · simp [hf]
    · simp [hf, snapshot, h]

theorem snapshot_forgetPeer :
    (s.forgetPeer port peer).snapshot port fp = (s.snapshot port fp).filter (·.peerId ≠ peer) := by
  cases h : s.pools port with
  | none => simp [forgetPeer, h, snapshot]
  | some pool =>
    have hfilter :
        (shown pool.peers).filter (·.peerId ≠ peer) = shown (pool.peers.filter fun p => p.peerId ≠ peer) := by
      rw [shown, List.filter_map]
      rfl
    rw [snapshot_some h]
    by_cases hempty : (pool.peers.filter fun p => decide (p.peerId ≠ peer)).isEmpty = true
    · have hgone : (s.forgetPeer port peer).pools port = none := by
        simp only [forgetPeer, h, hempty, if_true, Function.update_self]
      rw [snapshot_none hgone]
      split
      · rw [hfilter, List.isEmpty_iff.1 hempty]
        rfl
      · rfl
    · have hleft : (s.forgetPeer port peer).pools port =
          some { pool with peers := pool.peers.filter fun p => decide (p.peerId ≠ peer) } := by
        simp only [forgetPeer, h, hempty, if_false, Function.update_self, Bool.false_eq_true]
      rw [snapshot_some hleft]
      split
      · exact hfilter.symm
      · rfl

private theorem shown_noteEntry (l : List StickyPeer) : SameBut peer (shown l) (shown (noteEntry peer address l)) := by
  induction l with
  | nil => exact .nil
  | cons e es ih =>
    unfold noteEntry
    by_cases he : e.peerId = peer
    · rw [if_pos he]
      refine .cons ⟨?_, fun hne => absurd he hne⟩ (SameBut.refl _ _)
      split <;> rfl
    · rw [if_neg he]
      exact .cons ⟨rfl, fun _ => rfl⟩ ih

/-- Noting an address changes at most the address of its peer. -/
theorem snapshot_noteDirectAddress :
    SameBut peer (s.snapshot port fp) ((s.noteDirectAddress peer address).snapshot port fp) := by
  cases h : s.pools port with
  | none =>
    have hnone : (s.noteDirectAddress peer address).pools port = none := by simp [noteDirectAddress, h]
    rw [snapshot_none h, snapshot_none hnone]
    exact .nil
  | some pool =>
    have hsome : (s.noteDirectAddress peer address).pools port =
        some { pool with peers := noteEntry peer address pool.peers } := by simp [noteDirectAddress, h]
    rw [snapshot_some h, snapshot_some hsome]
    split
    · exact shown_noteEntry pool.peers
    · exact .nil

end StickyState

namespace DiscoveryActor

variable {S : Type} [StickyStore S] [LawfulStickyStore S] {ctx : Context} {server : Server}
  {a a' a'' : DiscoveryActor S} {tr : List Io} {port q : Port} {peer : PeerId} {u : Unit}

def record (server : Server) (a : DiscoveryActor S) : PortRecord where
  destination := a.destination server.port
  pool := StickyStore.snapshot server.port server.fingerprint a.sticky
  lastRediscovery := a.lastRediscovery server.port
  pendingRediscovery := server.port ∈ a.pendingRediscovery

/-- What an event may do to the record of a port: nothing, unless the event is about the port, its exit, or a peer of
its pool. -/
def Leaves (server : Server) (a : DiscoveryActor S) (tr : List Io) (a' : DiscoveryActor S) : DiscoveryEvent → Prop
  | .discoverFor port | .requestNewPeer port => server.port ≠ port → record server a' = record server a
  | .selectPeer port _ => (server.port ≠ port → record server a' = record server a) ∧ (lastNamed tr = none → a' = a)
  | .peerClosed peer => (record server a).destination ≠ some peer → record server a' = record server a
  | .peerUnusable peer =>
    (record server a).destination ≠ some peer → peer ∉ (record server a).pool.map (·.peerId) →
      record server a' = record server a
  | .peerConnected _ _ true => record server a' = record server a
  | .peerConnected peer _ false =>
    (record server a').lastRediscovery = (record server a).lastRediscovery ∧
    (record server a').pendingRediscovery = (record server a).pendingRediscovery ∧
    (¬((∃ exit ∉ a.directPeers, (record server a).destination = some exit) ∧
        peer ∈ (record server a).pool.map (·.peerId)) →
      (record server a').destination = (record server a).destination ∧
      SameBut peer (record server a).pool (record server a').pool)

/-! ### The books of another port -/

/-- The exit of `port`, the pool stored for it, and its rediscoveries are the same. -/
structure Untouched (port : Port) (a a' : DiscoveryActor S) : Prop where
  exit : a'.destination port = a.destination port
  pools : (view a'.sticky).pools port = (view a.sticky).pools port
  last : a'.lastRediscovery port = a.lastRediscovery port
  pending : port ∈ a'.pendingRediscovery ↔ port ∈ a.pendingRediscovery

namespace Untouched

theorem refl (a : DiscoveryActor S) : Untouched port a a := ⟨rfl, rfl, rfl, Iff.rfl⟩

theorem trans (h₁ : Untouched port a a') (h₂ : Untouched port a' a'') : Untouched port a a'' :=
  ⟨h₂.exit.trans h₁.exit, h₂.pools.trans h₁.pools, h₂.last.trans h₁.last, h₂.pending.trans h₁.pending⟩

theorem law : Law fun (a : DiscoveryActor S) (_ : List Io) a' => Untouched port a a' := ⟨refl, trans⟩

theorem record_eq (h : Untouched server.port a a') : record server a' = record server a := by
  have hpool : StickyStore.snapshot server.port server.fingerprint a'.sticky =
      StickyStore.snapshot server.port server.fingerprint a.sticky := by
    rw [LawfulStickyStore.snapshot_eq, LawfulStickyStore.snapshot_eq]
    exact StickyState.snapshot_congr h.pools
  simp only [record, h.exit, hpool, h.last, h.pending]

end Untouched

/-- Connecting a server leaves what is stored for other ports. -/
theorem pools_connect_of_ne {relayAddress : Multiaddr} {other : Server} {avoid : Option PeerId}
    {r : Except ConnectError ConnectedDestination} {s s' : S} (hne : q ≠ other.port)
    (h : Runs (connect relayAddress other avoid : M S _) s tr r s') : (view s').pools q = (view s).pools q :=
  connect_obeys (R := fun s _ s' => (view s').pools q = (view s).pools q)
    { toLaw := Law.of_frame fun s : S => (view s).pools q
      call := fun _ _ => rfl
      pool := fun _ s => by
        rw [LawfulStickyStore.view_pool]
        exact StickyState.pool_snd_pools_of_ne hne
      forget := fun _ s p => by
        rw [LawfulStickyStore.view_forgetPeer]
        exact StickyState.forgetPeer_pools_of_ne hne
      adopt := fun _ _ _ _ _ now hR _ => by
        rw [LawfulStickyStore.view_remember]
        exact (StickyState.remember_pools_of_ne hne).trans hR } avoid _ _ _ _ h

theorem discover_apart {avoid r : Option PeerId} (hne : q ≠ port) (h : Runs (discover ctx port avoid) a tr r a') :
    Untouched q a a' := by
  rcases runs_discover.1 h with ⟨-, -, -, rfl⟩ | ⟨other, t, result, s₁, hs, hc, -, -, rfl⟩
  · exact ⟨rfl, rfl, rfl, by simp [hne]⟩
  · have hother : q ≠ other.port := Context.port_of_server? hs ▸ hne
    exact ⟨Destinations.active_set_of_ne hne, pools_connect_of_ne hother hc, rfl, by simp [hne]⟩

theorem closePort_apart (hne : q ≠ port) (h : Runs (closePort ctx peer port) a tr u a') : Untouched q a a' := by
  rcases closePort_cases h with ⟨_, _, t, r, -, -, hd⟩ | ⟨_, _, -, -, -, rfl⟩
  · obtain ⟨hexit, hpools, hlast, hpending⟩ := discover_apart hne hd
    exact ⟨hexit, hpools, hlast.trans (Function.update_of_ne hne ..), hpending⟩
  · exact ⟨Destinations.active_set_of_ne hne, rfl, rfl, by simp [hne]⟩

theorem adoptSpecific_apart {other : Server} {source : DestinationSource} (hne : q ≠ other.port)
    (h : Runs (adoptSpecific other peer source) a tr u a') : Untouched q a a' := by
  obtain ⟨now, s₁, rfl, -, rfl⟩ := runs_adoptSpecific h
  refine ⟨Destinations.active_set_of_ne hne, ?_, rfl, Iff.rfl⟩
  show (view (StickyStore.remember _ _ _ _ _ _).2).pools q = _
  rw [LawfulStickyStore.view_remember]
  exact StickyState.remember_pools_of_ne hne

theorem rotatePort_apart (hne : q ≠ port) (h : Runs (rotatePort ctx peer port) a tr u a') : Untouched q a a' := by
  rcases rotatePort_cases h with ⟨-, -, rfl⟩ | ⟨other, s₁, hs, rfl, hrest⟩
  · exact Untouched.refl _
  · have hother : q ≠ other.port := Context.port_of_server? hs ▸ hne
    have hread : Untouched q a { a with sticky := (StickyStore.pool other.port other.fingerprint a.sticky).2 } := by
      refine ⟨rfl, ?_, rfl, Iff.rfl⟩
      show (view (StickyStore.pool _ _ _).2).pools q = _
      rw [LawfulStickyStore.view_pool]
      exact StickyState.pool_snd_pools_of_ne hother
    rcases hrest with ⟨-, -, rfl⟩ | ⟨-, hr⟩
    · exact hread
    · exact hread.trans (adoptSpecific_apart hother hr)

/-! ### The port itself -/

theorem record_pool_peerIds : (record server a).pool.map (·.peerId) = exitPool server a.sticky := snapshot_map_peerId

/-- Forgetting a peer that is not in the pool leaves the pool. -/
private theorem snapshot_forgetAll {servers : List Server} {s : S} (h : peer ∉ exitPool server s) :
    StickyStore.snapshot server.port server.fingerprint (forgetAll servers peer s) =
      StickyStore.snapshot server.port server.fingerprint s := by
  induction servers generalizing s with
  | nil => rfl
  | cons other servers ih =>
    have hone : StickyStore.snapshot server.port server.fingerprint (StickyStore.forgetPeer other.port peer s) =
        StickyStore.snapshot server.port server.fingerprint s := by
      rw [LawfulStickyStore.snapshot_eq, LawfulStickyStore.snapshot_eq, LawfulStickyStore.view_forgetPeer]
      by_cases hport : server.port = other.port
      · rw [← hport, StickyState.snapshot_forgetPeer, ← LawfulStickyStore.snapshot_eq]
        refine List.filter_eq_self.2 fun pp hpp => decide_eq_true fun heq => h ?_
        rw [← snapshot_map_peerId, ← heq]
        exact List.mem_map_of_mem hpp
      · exact StickyState.snapshot_congr (StickyState.forgetPeer_pools_of_ne hport)
    have hout : peer ∉ exitPool server (StickyStore.forgetPeer other.port peer s) := by
      rw [← snapshot_map_peerId, hone, snapshot_map_peerId]
      exact h
    exact (ih hout).trans hone

/-- A port whose pool lacks the candidate keeps its record when its turn to be rotated comes. -/
theorem rotatePort_record (hserver : ctx.server? server.port = some server) (hout : peer ∉ exitPool server a.sticky)
    (h : Runs (rotatePort ctx peer server.port) a tr u a') : record server a' = record server a := by
  rcases rotatePort_cases h with ⟨-, -, rfl⟩ | ⟨other, s₁, hs, rfl, ⟨-, -, rfl⟩ | ⟨hin, -⟩⟩
  · rfl
  · rw [hserver] at hs
    cases hs
    have hpool : StickyStore.snapshot server.port server.fingerprint
        (StickyStore.pool server.port server.fingerprint a.sticky).2 =
          StickyStore.snapshot server.port server.fingerprint a.sticky := by
      rw [LawfulStickyStore.snapshot_eq, LawfulStickyStore.snapshot_eq, LawfulStickyStore.view_pool,
        StickyState.snapshot_pool]
    simp only [record, destination, hpool]
  · rw [hserver] at hs
    cases hs
    rw [pool_fst_eq_exitPool] at hin
    exact absurd hin hout

omit [LawfulStickyStore S] in
/-- Rotating a port starts no rediscovery. -/
private theorem rotatePort_rediscovery (h : Runs (rotatePort ctx peer port) a tr u a') :
    (a'.lastRediscovery, a'.pendingRediscovery) = (a.lastRediscovery, a.pendingRediscovery) := by
  rcases rotatePort_cases h with ⟨-, -, rfl⟩ | ⟨_, _, -, -, ⟨-, -, rfl⟩ | ⟨-, hr⟩⟩
  · rfl
  · rfl
  · obtain ⟨_, _, -, -, rfl⟩ := runs_adoptSpecific hr
    rfl

omit [LawfulStickyStore S] in
private theorem rotations_rediscovery {ports : List Port} (h : Runs (ports.forM (rotatePort ctx peer)) a tr () a') :
    (a'.lastRediscovery, a'.pendingRediscovery) = (a.lastRediscovery, a.pendingRediscovery) :=
  runs_forM_same
    (I := fun b b' : DiscoveryActor S => (b'.lastRediscovery, b'.pendingRediscovery) =
      (b.lastRediscovery, b.pendingRediscovery))
    (fun _ => rfl) (fun h₁ h₂ => h₂.trans h₁) (fun _ _ _ _ _ hr => rotatePort_rediscovery hr) h

/-- Noting the address of a peer changes at most its entry. -/
private theorem sameBut_noteDirect {address : Multiaddr} :
    SameBut peer (record server a).pool (record server (a.noteDirect peer address)).pool := by
  simp only [record, noteDirect]
  rw [LawfulStickyStore.snapshot_eq, LawfulStickyStore.snapshot_eq, LawfulStickyStore.view_noteDirectAddress]
  exact StickyState.snapshot_noteDirectAddress

omit [StickyStore S] [LawfulStickyStore S] in
private theorem exists_of_relayStuck {direct : Finset PeerId} {exit : Option PeerId}
    (h : relayStuck direct peer exit = true) : ∃ active ∉ direct, exit = some active := by
  cases exit with
  | none => cases h
  | some active =>
    refine ⟨active, fun hdirect => ?_, rfl⟩
    simp [relayStuck, hdirect] at h

/-- Rotating the ports keeps the record of a port whose exit is direct, or whose pool lacks the peer. -/
private theorem rotations_record {address : Multiaddr} (hserver : ctx.server? server.port = some server)
    (hidle : ¬((∃ exit ∉ a.directPeers, (record server a).destination = some exit) ∧
      peer ∈ (record server a).pool.map (·.peerId)))
    (h : Runs ((a.destinations.portsWhere (relayStuck (insert peer a.directPeers) peer)).forM (rotatePort ctx peer))
      (a.noteDirect peer address) tr () a') :
    record server a' = record server (a.noteDirect peer address) := by
  rcases runs_forM_at Untouched.law (fun q _ hq _ _ _ _ hr => rotatePort_apart (Ne.symm hq) hr)
    (a.destinations.nodup.filter _) h with ⟨-, huntouched⟩ | ⟨_, b, t, b', _, hturn, -, hab, hr, hba⟩
  · exact huntouched.record_eq
  · -- the port is stuck on a relay, so its pool must lack the peer
    have hstuck : relayStuck a.directPeers peer (a.destination server.port) = true := by
      rw [← relayStuck_insert]
      exact (Destinations.mem_portsWhere.1 hturn).2
    have hout : peer ∉ exitPool server a.sticky := by
      intro hin
      refine hidle ⟨exists_of_relayStuck hstuck, ?_⟩
      rw [record_pool_peerIds]
      exact hin
    have hbout : peer ∉ exitPool server b.sticky := by
      rw [← record_pool_peerIds, hab.record_eq, record_pool_peerIds]
      simpa [noteDirect] using hout
    rw [hba.record_eq, rotatePort_record hserver hbout hr, hab.record_eq]

/-! ### Every event -/

/-- A loop over other ports leaves the record of a port. -/
private theorem forM_record {f : Port → M (DiscoveryActor S) Unit} {ports : List Port}
    (hf : ∀ q ∈ ports, ∀ b t b', Runs (f q) b t () b' → Untouched server.port b b')
    (h : Runs (ports.forM f) a tr () a') : record server a' = record server a :=
  (runs_forM_same (I := Untouched server.port) Untouched.refl Untouched.trans hf h).record_eq

/-- An event changes the record of a port only if it is about the port, its exit, or a peer of its pool. -/
theorem Step.records_apart {l : Label} (hdistinct : (ctx.servers.map (·.port)).Nodup) (hserver : server ∈ ctx.servers)
    (h : Step ctx a l a') : Leaves server a l.trace a' l.event := by
  obtain ⟨event, tr⟩ := l
  cases event with
  | discoverFor port =>
    intro hne
    obtain ⟨r, hd⟩ := step_discoverFor.1 h
    exact (discover_apart hne hd).record_eq
  | requestNewPeer port =>
    intro hne
    obtain ⟨t, r, -, hd⟩ := step_requestNewPeer.1 h
    exact (discover_apart hne hd).record_eq
  | peerClosed peer =>
    intro hexit
    refine forM_record (a := { a with directPeers := a.directPeers.erase peer }) ?_ (step_peerClosed.1 h)
    intro q hq b t b' hr
    refine closePort_apart ?_ hr
    rintro rfl
    exact hexit (mem_stale_iff.1 hq)
  | peerUnusable peer =>
    intro hexit hpool
    obtain ⟨t, -, hloop⟩ := step_peerUnusable_cases h
    rw [record_pool_peerIds] at hpool
    have hforget : record server { a with sticky := forgetAll ctx.servers peer a.sticky } = record server a := by
      simp only [record, destination, snapshot_forgetAll hpool]
    refine (forM_record ?_ hloop).trans hforget
    intro q hq b t b' hr
    obtain ⟨r, hd⟩ := runs_discard.1 hr
    refine discover_apart ?_ hd
    rintro rfl
    exact hexit (mem_stale_iff.1 hq)
  | peerConnected peer address relayed =>
    cases relayed with
    | true =>
      obtain ⟨-, rfl⟩ := step_peerConnected_relayed.1 h
      rfl
    | false =>
      have hloop := step_peerConnected_direct.1 h
      obtain ⟨hlast, hpending⟩ := Prod.mk.inj (rotations_rediscovery hloop)
      refine ⟨congrFun hlast _, by simp only [record, hpending]; rfl, fun hidle => ?_⟩
      have hsame : record server a' = record server (a.noteDirect peer address) :=
        rotations_record (Context.server?_of_mem hdistinct hserver) hidle hloop
      rw [hsame]
      exact ⟨rfl, sameBut_noteDirect⟩
  | selectPeer port peer =>
    rcases step_selectPeer_cases h with ⟨-, -, rfl⟩ | ⟨other, o, t, t', hs, htr, hreach, ho⟩
    · exact ⟨fun _ => rfl, fun _ => rfl⟩
    · cases o with
      | none =>
        obtain ⟨-, rfl⟩ := ho
        exact ⟨fun _ => rfl, fun _ => rfl⟩
      | some y =>
        refine ⟨fun hne => ?_, fun hnobody => ?_⟩
        · exact (adoptSpecific_apart (Context.port_of_server? hs ▸ hne) ho).record_eq
        · -- the dialer named the peer that was reached, and nobody after it
          have hnamed : lastNamed t = some y := lastNamed_of_namedPeers hreach.namedPeers_eq
          have hquiet : lastNamed t' = none := by
            obtain ⟨now, s₁, -, rfl, -⟩ := runs_adoptSpecific ho
            rfl
          have hall : lastNamed tr = some y := by
            rw [htr, lastNamed_append, hquiet, hnamed]
            rfl
          rw [hall] at hnobody
          cases hnobody

section Fixture

private def twoPorts : Context := dummyContext [discoveryServer 1080, discoveryServer 1081]

/-- The hub's candidate is `[1]`, and it can be reached. -/
private def oneAnswers : World := { routes := [], candidates := [⟨⟨[1]⟩, []⟩], online := [⟨[1]⟩], connected := [] }

private def bothDark : DiscoveryActor StickyState := new .empty (.dark [1080, 1081] (by decide))

/-- The second port has found an exit, and remembers it. -/
private def secondServed : DiscoveryActor StickyState :=
  (exec oneAnswers.answer (handle twoPorts (.discoverFor 1081)) bothDark).2.2

/-- Discovering one port leaves the exit and the pool of the other one as they are. -/
theorem Step.records_apart_discovered :
    let run := exec oneAnswers.answer (handle twoPorts (.discoverFor 1080)) secondServed
    record (discoveryServer 1081) run.2.2 = record (discoveryServer 1081) secondServed ∧
      run.2.2.destination 1081 = some ⟨[1]⟩ ∧
        ((record (discoveryServer 1081) run.2.2).pool.map (·.peerId)) = [⟨[1]⟩] := by
  intro run
  have hstep : Step twoPorts secondServed ⟨.discoverFor 1080, run.1⟩ run.2.2 := exec_runs oneAnswers.answer _ _
  have hrecord : record (discoveryServer 1081) run.2.2 = record (discoveryServer 1081) secondServed :=
    Step.records_apart (by decide) (by simp [twoPorts, dummyContext]) hstep (by decide)
  refine ⟨hrecord, by decide, ?_⟩
  rw [hrecord]
  decide

end Fixture

end DiscoveryActor

end P2Proxy
