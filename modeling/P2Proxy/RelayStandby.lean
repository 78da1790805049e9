import P2Proxy.LiveExit
import P2Proxy.DarkPort

/-!
# Direct standbys

A port should not stay on an exit that is only relayed while a member of its pool is directly connected.  The actor
looks for a better exit only when a peer connects directly, so the rule is broken when a rediscovery takes a relayed
exit over a direct standby, or when the exit itself falls back to a relay.  `offRelay_iff` says exactly which events
keep it.
-/

namespace P2Proxy

open Interaction

variable {S : Type} [StickyStore S] [LawfulStickyStore S] {relayAddress : Multiaddr} {server : Server} {s s' : S}
  {tr : List Io}

/-! ### The pool that a connect leaves -/

/-- The members of a pool that connecting its server leaves in it: all of them if the exit `avoid` that has just dropped
comes back, else those that were not tried in vain. -/
def spared (avoid : Option PeerId) (pool : List PeerId) (tr : List Io) : List PeerId :=
  if (reachAttempts tr).getLast?.any fun e => some e.1 = avoid && e.2.isSome then pool
  else pool.filter (· ∉ triedInVain tr)

/-- Giving a dropped exit up removes it from the pool if it was fought for. -/
theorem poolAfterLoss_eq {avoid : Option PeerId} {pool : List PeerId} :
    poolAfterLoss server avoid pool = pool.filter (· ∉ (foughtFor server avoid).map (·.1)) := by
  unfold poolAfterLoss foughtFor
  split
  · exact List.filter_congr fun x _ => by simp [stickyReconnectAttempts]
  · exact (List.filter_eq_self.2 fun x _ => by simp).symm

private theorem foughtFor_vain {avoid : Option PeerId} : ∀ e ∈ foughtFor server avoid, e.2 = none := by
  unfold foughtFor
  split
  · intro e he
    rw [List.eq_of_mem_replicate he]
  · exact fun _ he => absurd he List.not_mem_nil

private theorem filter_notMem_append (pool l₁ l₂ : List PeerId) :
    (pool.filter (· ∉ l₁)).filter (· ∉ l₂) = pool.filter (· ∉ l₁ ++ l₂) := by
  rw [List.filter_filter]
  exact List.filter_congr fun x _ => by simp [Bool.and_comm]

/-- After a successful connect the exit has been promoted in what was spared of the pool. -/
theorem connect_spared {avoid : Option PeerId} {d : ConnectedDestination} (hserver : server.StickyExit)
    (h : Runs (connect relayAddress server avoid : M S _) s tr (.ok d) s') :
    exitPool server s' = promote server.pool.maxTotal d.peer (spared avoid (exitPool server s) tr) := by
  rcases connect_cases hserver h with ⟨a, k, y, rfl, -, -, hs, hd, hm⟩ | ⟨t₁, s₁, t₂, rfl, hs₁, hm₁, h₂⟩
  · obtain rfl := Except.ok.inj hd
    have hback : spared (some a) (exitPool server s) tr = exitPool server s := by
      rw [spared, hs.reachAttempts_eq]
      simp
    rw [hm, hback]
  · -- the members that were tried in vain, the dropped exit among them if it was fought for, are gone
    have hvain : ∀ {as : List (PeerId × Option PeerId)} {n : Nat}, Segment t₂ as n →
        triedInVain (t₁ ++ t₂) =
          (foughtFor server avoid).map (·.1) ++ (as.filter (·.2 = none)).map (·.1) := by
      intro as n hs
      have hall : (foughtFor server avoid).filter (·.2 = none) = foughtFor server avoid :=
        List.filter_eq_self.2 fun e he => decide_eq_true (foughtFor_vain e he)
      rw [triedInVain, (hs₁.append hs).reachAttempts_eq, List.filter_append, hall, List.map_append]
    rw [poolAfterLoss_eq] at hm₁
    rcases connectPoolOrDiscover_effect hserver.1 h₂ with
      ⟨pre, q, post, y, he, hd, hs, hm⟩ | ⟨k, hs, ⟨hd, -⟩ | ⟨x, hd, -, -, hm⟩⟩
    · obtain rfl := Except.ok.inj hd
      -- the member that was reached is not the dropped exit
      have hq : some q ≠ avoid := by
        have hmem : q ∈ (exitPool server s₁).filter (some · ≠ avoid) := he ▸ by simp
        simpa using (List.mem_filter.1 hmem).2
      have hspared :
          spared avoid (exitPool server s) (t₁ ++ t₂) = (exitPool server s).filter (· ∉ triedInVain (t₁ ++ t₂)) := by
        rw [spared, (hs₁.append hs).reachAttempts_eq]
        simp [hq]
      have hpre : ((pre.map (·, (none : Option PeerId)) ++ [(q, some y)]).filter (·.2 = none)).map (·.1) = pre := by
        simp [List.filter_map, Function.comp_def]
      rw [hm, hspared, hvain hs, hpre, hm₁, filter_notMem_append]
    · cases hd
    · -- the exit was discovered, so the last attempt on a member failed
      obtain rfl := Except.ok.inj hd
      have hspared :
          spared avoid (exitPool server s) (t₁ ++ t₂) = (exitPool server s).filter (· ∉ triedInVain (t₁ ++ t₂)) := by
        rw [spared, if_neg]
        rw [(hs₁.append hs).reachAttempts_eq]
        intro hany
        obtain ⟨e, he, hback⟩ := (Option.any_eq_true _ _).1 hany
        have hnone : e.2 = none := by
          rcases List.mem_append.1 (List.mem_of_getLast? he) with he | he
          · exact foughtFor_vain e he
          · obtain ⟨p, -, rfl⟩ := List.mem_map.1 he
            rfl
        rw [hnone] at hback
        simp at hback
      have hvain' : ((((exitPool server s₁).filter (some · ≠ avoid)).map
          (·, (none : Option PeerId))).filter (·.2 = none)).map (·.1) =
            (exitPool server s₁).filter (some · ≠ avoid) := by
        simp [List.filter_map, Function.comp_def]
      have hleft : (exitPool server s₁).filter (some · = avoid) =
          (exitPool server s₁).filter (· ∉ (exitPool server s₁).filter (some · ≠ avoid)) :=
        List.filter_congr fun x hx => by simp [hx]
      rw [hm, hspared, hvain hs, hvain', ← filter_notMem_append, ← hm₁, ← hleft]

/-- The port is served directly, or no member of its pool is directly connected. -/
def PortView.OffRelay (v : PortView) (direct : Finset PeerId) : Prop :=
  ∀ p, v.exit = some p → p ∉ direct → ∀ q ∈ v.pool, q ∉ direct

namespace DiscoveryActor

variable {ctx : Context} {a a' : DiscoveryActor S}

def OffRelay (server : Server) (a : DiscoveryActor S) : Prop := (portView server a).OffRelay a.directPeers

/-- No rediscovery of the port ends on a peer without a direct link while a direct peer is left in the pool, and the
exit of the port does not fall back to a relay while another direct peer is in the pool. -/
def TakesDirect (server : Server) (a : DiscoveryActor S) (l : Label) : Prop :=
  (DiscoverySystem.Reconnects a server.port l.trace l.event →
    ∀ p, lastNamed (turnOf server.port l.trace) = some p → p ∉ directAfter a.directPeers l.event →
      ∀ q ∈ promote server.pool.maxTotal p (spared (avoided l.event) (poolFor (exitPool server a.sticky) l.event)
        (turnOf server.port l.trace)), q ∉ directAfter a.directPeers l.event) ∧
  ∀ p address, l.event = .peerConnected p address true → a.destination server.port = some p →
    ∀ q ∈ exitPool server a.sticky, q ≠ p → q ∉ a.directPeers

omit [LawfulStickyStore S] in
theorem spared_congr {avoid : Option PeerId} {pool : List PeerId} {t₁ t₂ : List Io}
    (h : reachAttempts t₁ = reachAttempts t₂) : spared avoid pool t₁ = spared avoid pool t₂ := by
  have hvain : triedInVain t₁ = triedInVain t₂ := congrArg (fun as => (as.filter (·.2 = none)).map (·.1)) h
  simp only [spared, h, hvain]

/-- The pool of a port that was connected anew. -/
theorem Reconnected.spared_eq {avoid : Option PeerId} {t part : List Io} {v v' : PortView} {p : PeerId}
    (hserver : server.StickyExit) (h : Reconnected S ctx.relayAddress server avoid t v v')
    (hnamed : lastNamed part = lastNamed t) (hattempts : reachAttempts part = reachAttempts t)
    (hp : lastNamed part = some p) : v'.pool = promote server.pool.maxTotal p (spared avoid v.pool part) := by
  obtain ⟨s, s', result, hc, hpool, hv⟩ := h
  rw [hnamed, connect_lastNamed hc] at hp
  cases result with
  | error e => cases hp
  | ok d =>
    obtain rfl : d.peer = p := Option.some.inj hp
    rw [hv, spared_congr hattempts, hpool]
    exact connect_spared hserver hc

/-- What connecting the port anew does to its exit and pool. -/
theorem reconnects_spared {l : Label} (hserver : ctx.server? server.port = some server) (hsticky : server.StickyExit)
    (hhandles : a.Handles ctx) (h : Step ctx a l a') (hl : DiscoverySystem.Reconnects a server.port l.trace l.event)
    {p : PeerId} (hp : a'.destination server.port = some p) :
    lastNamed (turnOf server.port l.trace) = some p ∧ exitPool server a'.sticky =
      promote server.pool.maxTotal p (spared (avoided l.event) (poolFor (exitPool server a.sticky) l.event)
        (turnOf server.port l.trace)) := by
  obtain ⟨-, t, v, hpool, hlast, hattempts, hrec⟩ := DiscoverySystem.reconnects_turn hserver hhandles h hl
  have hexit : a'.destination server.port = lastNamed t := hrec.exit_eq
  have hnamed : lastNamed (turnOf server.port l.trace) = some p := hlast.trans (hexit.symm.trans hp)
  refine ⟨hnamed, ?_⟩
  rw [← hpool]
  exact hrec.spared_eq hsticky hlast hattempts hnamed

/-- An event that does not have the port connected anew keeps the rule, unless the exit falls back to a relay. -/
theorem not_reconnects_offRelay {l : Label} (hserver : ctx.server? server.port = some server) (hhandles : a.Handles ctx)
    (hselect : ∀ q p, l.event ≠ .selectPeer q p) (ha : a.OffRelay server) (h : Step ctx a l a')
    (hl : ¬DiscoverySystem.Reconnects a server.port l.trace l.event) :
    (portView server a').OffRelay (directAfter a.directPeers l.event) ↔
      ∀ p address, l.event = .peerConnected p address true → a.destination server.port = some p →
        ∀ q ∈ exitPool server a.sticky, q ≠ p → q ∉ a.directPeers := by
  rcases DiscoverySystem.not_reconnects_cases hserver hhandles h hl with
    ⟨hview, hclosed, hconnected⟩ | ⟨peer, hevent, -, hnone⟩ | ⟨peer, hexit, ⟨address, hevent⟩ | ⟨port, q, hevent⟩⟩
  · -- the exit stays; what it is compared with may change
    rw [hview]
    obtain ⟨event, tr⟩ := l
    cases event with
    | discoverFor q | requestNewPeer q => exact iff_of_true ha (by simp)
    | peerClosed peer =>
      -- the peer that closed is not the exit
      refine iff_of_true (fun p hp hpd q hq hqd => ?_) (by simp)
      have hne : p ≠ peer := fun hpp => hclosed peer rfl (hpp ▸ hp)
      exact ha p hp (fun hd => hpd (Finset.mem_erase.2 ⟨hne, hd⟩)) q hq (Finset.mem_of_mem_erase hqd)
    | peerUnusable peer =>
      exact iff_of_true (fun p hp hpd q hq => ha p hp hpd q (List.mem_of_mem_filter hq)) (by simp)
    | peerConnected peer address relayed =>
      cases relayed with
      | true =>
        constructor
        · -- the exit is on a relay now
          rintro hoff p _ ⟨⟩ hp q hq hne hqd
          exact hoff peer hp (Finset.notMem_erase peer _) q hq (Finset.mem_erase.2 ⟨hne, hqd⟩)
        · intro hfalls p hp hpd q hq hqd
          obtain ⟨hne, hqd⟩ := Finset.mem_erase.1 hqd
          by_cases hpp : p = peer
          · exact hfalls peer address rfl (hpp ▸ hp) q hq hne hqd
          · exact ha p hp (fun hd => hpd (Finset.mem_erase.2 ⟨hpp, hd⟩)) q hq hqd
      | false =>
        refine iff_of_true (fun p hp hpd q hq hqd => ?_) (by simp)
        -- if the exit is on a relay, the new direct peer is no standby
        have hexit : a.destination server.port = some p := hp
        obtain ⟨hne, hpa⟩ := not_or.1 (Finset.mem_insert.not.1 hpd)
        rcases Finset.mem_insert.1 hqd with rfl | hqd
        · exact hconnected q address rfl ⟨by simp [hexit, relayStuck, hne, hpa], hq⟩
        · exact ha p hp hpa q hq hqd
    | selectPeer q peer => exact absurd rfl (hselect q peer)
  · refine iff_of_true (fun p hp => ?_) (by simp [hevent])
    have hp : a'.destination server.port = some p := hp
    rw [hnone] at hp
    cases hp
  · -- the new exit is direct
    refine iff_of_true (fun p hp hpd => ?_) (by simp [hevent])
    have hp : a'.destination server.port = some p := hp
    obtain rfl := Option.some.inj (hexit.symm.trans hp)
    rw [hevent] at hpd
    exact absurd (Finset.mem_insert_self peer a.directPeers) hpd
  · exact absurd hevent (hselect port q)

/-- A step keeps the rule iff it takes the direct peer. -/
theorem Step.offRelay_iff {l : Label} (hserver : ctx.server? server.port = some server) (hsticky : server.StickyExit)
    (hhandles : a.Handles ctx) (hselect : ∀ q p, l.event ≠ .selectPeer q p) (ha : a.OffRelay server)
    (h : Step ctx a l a') : a'.OffRelay server ↔ a.TakesDirect server l := by
  have hdirect := h.directPeers_eq
  by_cases hl : DiscoverySystem.Reconnects a server.port l.trace l.event
  · -- the rediscovery decides, whatever the port was before
    have hrelayed : ∀ p address, l.event ≠ .peerConnected p address true := by
      rintro p address hevent
      rw [hevent] at hl
      exact hl
    have hexit := (DiscoverySystem.reconnects_effect hserver hhandles h hl).1
    unfold OffRelay TakesDirect
    rw [hdirect]
    constructor
    · intro ha'
      refine ⟨fun _ p hp hpd q hq => ?_, fun p address hevent => absurd hevent (hrelayed p address)⟩
      have hdest := hexit.trans hp
      rw [← (reconnects_spared hserver hsticky hhandles h hl hdest).2] at hq
      exact ha' p hdest hpd q hq
    · rintro ⟨htakes, -⟩ p hp hpd q hq
      have hdest : a'.destination server.port = some p := hp
      obtain ⟨hnamed, hpool⟩ := reconnects_spared hserver hsticky hhandles h hl hdest
      have hq : q ∈ exitPool server a'.sticky := hq
      rw [hpool] at hq
      exact htakes hl p hnamed hpd q hq
  · have hstay : (portView server a').OffRelay (directAfter a.directPeers l.event) ↔
        ∀ p address, l.event = .peerConnected p address true → a.destination server.port = some p →
          ∀ q ∈ exitPool server a.sticky, q ≠ p → q ∉ a.directPeers :=
      not_reconnects_offRelay hserver hhandles hselect ha h hl
    unfold OffRelay TakesDirect
    rw [hdirect, hstay]
    exact ⟨fun hfalls => ⟨fun hl' => absurd hl' hl, hfalls⟩, And.right⟩

/-- The actor handles an event, and no exit is picked by hand. -/
def UnselectedStep (ctx : Context) : DiscoveryActor S → Label → DiscoveryActor S → Prop :=
  guarded (Step ctx) fun _ l => ∀ port peer, l.event ≠ .selectPeer port peer

/-- In a run without a hand-picked exit a port of a sticky server without pins is never relayed while a member of its
pool is directly connected, iff every event takes the direct peer. -/
theorem relay_standby_iff (hserver : ctx.server? server.port = some server) (hsticky : server.StickyExit) {sticky : S}
    {destinations : Destinations} (hhandles : (new sticky destinations).Handles ctx) {ls : List Label}
    (h : Reaches (UnselectedStep ctx) (new sticky destinations) ls a) :
    Always (UnselectedStep ctx) (OffRelay server) (new sticky destinations) ls ↔
      Reaches (guarded (UnselectedStep ctx) (TakesDirect server)) (new sticky destinations) ls a := by
  refine always_iff (J := Handles ctx) (fun _ _ _ _ h₁ h₂ => Step.deterministic h₁.1 h₂.1)
    (fun a l a' hs _ h port => h.1.ports_eq ▸ hs port)
    (fun a l a' hs ha h => h.1.offRelay_iff hserver hsticky hs h.2 ha) hhandles ?_ h
  exact fun _ _ _ q _ => Finset.notMem_empty q

section Fixture

private def exitOne : PeerId := ⟨[1]⟩
private def exitTwo : PeerId := ⟨[2]⟩

private def oneSticky : Context := dummyContext [discoveryServer 1080]

/-- The pool that the port starts with. -/
private def remembering (peers : List PeerId) : DiscoveryActor StickyState :=
  new (peers.foldr (fun peer s => (s.remember 0 1080 (discoveryServer 1080).fingerprint peer defaultMaxTotal).2) .empty)
    (.dark [1080] nodup_onePort)

/-- Both peers can be reached through their circuits. -/
private def bothReachable : World := { routes := [], candidates := [], online := [exitOne, exitTwo], connected := [] }

private def nextStandby (a : DiscoveryActor StickyState) (event : DiscoveryEvent) :
    List Io × Unit × DiscoveryActor StickyState := exec bothReachable.answer (handle oneSticky event) a

private def twoConnects : DiscoveryEvent := .peerConnected exitTwo [.other 4 []] false

private def whenTwoConnected (peers : List PeerId) : List Io × Unit × DiscoveryActor StickyState :=
  nextStandby (remembering peers) twoConnects

private def whenServed (peers : List PeerId) : List Io × Unit × DiscoveryActor StickyState :=
  nextStandby (whenTwoConnected peers).2.2 (.discoverFor 1080)

private theorem whenTwoConnected_step (peers : List PeerId) : UnselectedStep oneSticky (remembering peers)
    ⟨twoConnects, (whenTwoConnected peers).1⟩ (whenTwoConnected peers).2.2 :=
  ⟨exec_runs bothReachable.answer _ _, by simp [twoConnects]⟩

private theorem whenServed_step (peers : List PeerId) : UnselectedStep oneSticky (whenTwoConnected peers).2.2
    ⟨.discoverFor 1080, (whenServed peers).1⟩ (whenServed peers).2.2 :=
  ⟨exec_runs bothReachable.answer _ _, by simp⟩

/-- The only member of the pool is directly connected when the port is discovered, and serves it. -/
theorem relay_standby_iff_direct : Always (UnselectedStep oneSticky) (OffRelay (discoveryServer 1080))
    (remembering [exitTwo])
    [⟨twoConnects, (whenTwoConnected [exitTwo]).1⟩, ⟨.discoverFor 1080, (whenServed [exitTwo]).1⟩] := by
  have hrun := Reaches.cons (whenTwoConnected_step [exitTwo]) (.cons (whenServed_step [exitTwo]) (.nil _))
  refine (relay_standby_iff rfl (discoveryServer_stickyExit 1080) (fun _ => Iff.rfl) hrun).2 ?_
  refine .cons ⟨whenTwoConnected_step _, fun hl => False.elim hl, by simp [twoConnects]⟩
    (.cons ⟨whenServed_step _, fun _ p hp hpd => ?_, by simp⟩ (.nil _))
  have htwo : lastNamed (turnOf 1080 (whenServed [exitTwo]).1) = some exitTwo := by decide
  obtain rfl : exitTwo = p := Option.some.inj (htwo.symm.trans hp)
  exact absurd hpd (by decide)

private def oneRelayed : DiscoveryEvent := .peerConnected exitOne [.p2pCircuit] true

private def whenNoticed : List Io × Unit × DiscoveryActor StickyState :=
  nextStandby (whenServed [exitOne, exitTwo]).2.2 oneRelayed

/-- The first member of the pool is only relayed, and takes the port over the second, which is directly connected. -/
theorem relay_over_standby :
    Reaches (UnselectedStep oneSticky) (remembering [exitOne, exitTwo])
        [⟨twoConnects, (whenTwoConnected [exitOne, exitTwo]).1⟩,
          ⟨.discoverFor 1080, (whenServed [exitOne, exitTwo]).1⟩, ⟨oneRelayed, whenNoticed.1⟩] whenNoticed.2.2 ∧
      ¬whenNoticed.2.2.OffRelay (discoveryServer 1080) := by
  have hnoticed : UnselectedStep oneSticky (whenServed [exitOne, exitTwo]).2.2 ⟨oneRelayed, whenNoticed.1⟩
      whenNoticed.2.2 := ⟨exec_runs bothReachable.answer _ _, by simp [oneRelayed]⟩
  refine ⟨.cons (whenTwoConnected_step _) (.cons (whenServed_step _) (.cons hnoticed (.nil _))), fun hoff => ?_⟩
  exact hoff exitOne (by decide) (by decide) exitTwo (by decide) (by decide)

end Fixture

end DiscoveryActor

end P2Proxy
