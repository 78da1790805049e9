import P2Proxy.Links

/-!
# The direct peers

The discovery actor keeps the set of the peers that it believes to be directly connected, and trusts it when it moves a
port off the relay.  It learns of connections by messages that may overtake one another, and it takes each message for
the whole truth about its peer: a relayed connection that opens, or any that closes, hides a direct one beside it.
`direct_peers_iff` says which messages may come last.
-/

namespace P2Proxy

open Interaction

/-- The event is that a direct connection came up. -/
def DiscoveryEvent.TellsDirect : DiscoveryEvent → Prop
  | .peerConnected _ _ relayed => relayed = false
  | .peerClosed _ | .discoverFor _ | .requestNewPeer _ | .peerUnusable _ | .selectPeer _ _ => False

namespace LinkSystem

variable {S : Type}

/-- The peer has an open direct connection. -/
def HoldsDirect (opened : List Connection) (peer : PeerId) : Prop := ∃ c ∈ opened, c.peer = peer ∧ c.relayed = false

/-- No message about the connections of the peer is on its way. -/
def Noticed (inbox : List Notice) (peer : PeerId) : Prop := ∀ n ∈ inbox, n.event.linkPeer ≠ some peer

/-- A peer other than the hub whose connections were all noticed is a direct peer iff it has an open direct
connection. -/
def Truthful (ctx : Context) (s : LinkSystem S) : Prop :=
  ∀ peer, peer ≠ ctx.bootstrapPeerId → Noticed s.inbox peer →
    (peer ∈ s.discovery.directPeers ↔ HoldsDirect s.opened peer)

/-- The last message on its way about a peer is that a direct connection came up, iff the peer has one. -/
def LastTells (ctx : Context) (s : LinkSystem S) : Label → Prop
  | .handles i _ => ∀ n peer, s.inbox[i]? = some n → n.event.linkPeer = some peer → peer ≠ ctx.bootstrapPeerId →
      Noticed (s.inbox.eraseIdx i) peer → (n.event.TellsDirect ↔ HoldsDirect s.opened peer)
  | _ => True

variable {ctx : Context} {s s' : LinkSystem S} {l : Label} {ks : List Label} {opened opened' : List Connection}
  {peer : PeerId} {event : DiscoveryEvent} {input : NetworkInput}

/-- A peer is directly connected after a message about it iff the message says so; about others it says nothing. -/
theorem mem_directAfter {direct : Finset PeerId} : peer ∈ DiscoveryActor.directAfter direct event ↔
    if event.linkPeer = some peer then event.TellsDirect else peer ∈ direct := by
  cases event with
  | peerClosed q =>
    by_cases hq : peer = q
    · simp [DiscoveryActor.directAfter, DiscoveryEvent.linkPeer, DiscoveryEvent.TellsDirect, hq]
    · have hne : q ≠ peer := Ne.symm hq
      simp [DiscoveryActor.directAfter, DiscoveryEvent.linkPeer, hq, hne]
  | peerConnected q address relayed =>
    by_cases hq : peer = q
    · cases relayed <;> simp [DiscoveryActor.directAfter, DiscoveryEvent.linkPeer, DiscoveryEvent.TellsDirect, hq]
    · have hne : q ≠ peer := Ne.symm hq
      cases relayed <;> simp [DiscoveryActor.directAfter, DiscoveryEvent.linkPeer, hq, hne]
  | _ => simp [DiscoveryActor.directAfter, DiscoveryEvent.linkPeer]

/-- An input after which no message about the peer is sent leaves its connections as they were. -/
theorem OpenAfter.holdsDirect_iff (h : OpenAfter opened input opened') (hpeer : peer ≠ ctx.bootstrapPeerId)
    {a : NetworkActor} {w : Swarm} (hn : Noticed (notices opened' (a.handle ctx w input).2) peer) :
    HoldsDirect opened' peer ↔ HoldsDirect opened peer := by
  rw [notices_handle] at hn
  cases input with
  | swarm event =>
    cases event with
    | connectionEstablished q address relayed =>
      obtain rfl := h
      have hq : q ≠ peer := by
        rintro rfl
        dsimp only at hn
        rw [if_neg hpeer] at hn
        exact hn _ (List.mem_singleton_self _) rfl
      simp [HoldsDirect, hq]
    | connectionClosed q =>
      obtain ⟨c, hc, rfl, rfl⟩ := h
      have hq : c.peer ≠ peer := by
        intro hq
        exact hn _ (List.mem_singleton_self _) (congrArg some hq)
      constructor
      · rintro ⟨d, hd, hp⟩
        exact ⟨d, List.mem_of_mem_erase hd, hp⟩
      · rintro ⟨d, hd, hp⟩
        have hne : d ≠ c := fun hdc => hq (hdc ▸ hp.1)
        exact ⟨d, (List.mem_erase_of_ne hne).2 hd, hp⟩
    | _ =>
      obtain rfl := h
      rfl
  | _ =>
    obtain rfl := h
    rfl

variable [StickyStore S]

/-- A step keeps the direct peers truthful iff the message handled, when it is the last about its peer, tells the
truth. -/
theorem Step.truthful_iff (hs : s.Truthful ctx) (h : Step ctx s l s') : s'.Truthful ctx ↔ s.LastTells ctx l := by
  cases l with
  | network w input opened =>
    obtain ⟨hopen, rfl⟩ := h
    refine iff_of_true (fun peer hpeer hn => ?_) trivial
    have hold : Noticed s.inbox peer := fun n hm => hn n (List.mem_append_left _ hm)
    have hnew : Noticed (notices opened (s.network.handle ctx w input).2) peer :=
      fun n hm => hn n (List.mem_append_right _ hm)
    exact (hs peer hpeer hold).trans (hopen.holdsDirect_iff hpeer hnew).symm
  | sends event =>
    obtain ⟨hlink, rfl⟩ := h
    exact iff_of_true (fun peer hpeer hn => hs peer hpeer fun n hm => hn n (List.mem_append_left _ hm)) trivial
  | handles i trace =>
    obtain ⟨n, a, hn, hstep, rfl⟩ := h
    have hdirect : ∀ peer, peer ∈ a.directPeers ↔
        if n.event.linkPeer = some peer then n.event.TellsDirect else peer ∈ s.discovery.directPeers := fun peer => by
      rw [hstep.directPeers_eq, mem_directAfter]
    constructor
    · intro hs' m peer hm hlink hpeer hlast
      obtain rfl : n = m := Option.some.inj (hn.symm.trans hm)
      have htruth : peer ∈ a.directPeers ↔ HoldsDirect s.opened peer := hs' peer hpeer hlast
      rw [hdirect, if_pos hlink] at htruth
      exact htruth
    · intro htells peer hpeer hnoticed
      show peer ∈ a.directPeers ↔ HoldsDirect s.opened peer
      rw [hdirect]
      by_cases hlink : n.event.linkPeer = some peer
      · rw [if_pos hlink]
        exact htells n peer hn hlink hpeer hnoticed
      · rw [if_neg hlink]
        -- the message that was handled is not about this peer
        refine hs peer hpeer fun m hm => ?_
        obtain ⟨j, hj⟩ := List.mem_iff_getElem?.1 hm
        by_cases hij : j = i
        · subst hij
          obtain rfl : n = m := Option.some.inj (hn.symm.trans hj)
          exact hlink
        · exact hnoticed m (List.mem_eraseIdx_iff_getElem?.2 ⟨j, hij, hj⟩)

/-- In a run, whatever the order in which messages are handled, the direct peers are truthful in every state iff each
message that is the last about its peer tells the truth; then they are exactly the peers with an open direct connection
whenever all connections were noticed. -/
theorem direct_peers_iff {sticky : S} {destinations : Destinations}
    (hopened : ∀ c ∈ opened, c.peer = ctx.bootstrapPeerId)
    (h : Reaches (Step ctx) (init opened (.new sticky destinations)) ks s) :
    (Always (Step ctx) (Truthful ctx) (init opened (.new sticky destinations)) ks ↔
        Reaches (guarded (Step ctx) (LastTells ctx)) (init opened (.new sticky destinations)) ks s) ∧
      (Reaches (guarded (Step ctx) (LastTells ctx)) (init opened (.new sticky destinations)) ks s →
        (∀ n ∈ s.inbox, n.event.linkPeer = none) → ∀ peer, peer ≠ ctx.bootstrapPeerId →
          (peer ∈ s.discovery.directPeers ↔ HoldsDirect s.opened peer)) := by
  have hiff : Always (Step ctx) (Truthful ctx) (init opened (.new sticky destinations)) ks ↔
      Reaches (guarded (Step ctx) (LastTells ctx)) (init opened (.new sticky destinations)) ks s := by
    refine always_iff (J := fun _ => True) (fun _ _ _ _ => Step.deterministic) (fun _ _ _ _ _ _ => trivial)
      (fun _ _ _ _ hs h => h.truthful_iff hs) trivial ?_ h
    intro peer hpeer _
    refine iff_of_false (Finset.notMem_empty peer) ?_
    rintro ⟨c, hc, hcp, -⟩
    exact hpeer (hcp.symm.trans (hopened c hc))
  refine ⟨hiff, fun hg hnoticed peer hpeer => ?_⟩
  refine (hiff.2 hg).last h peer hpeer fun n hn hlink => ?_
  rw [hnoticed n hn] at hlink
  cases hlink

omit [StickyStore S]

section Fixture

/-- The exit connects directly. -/
private def directOpen : LinkSystem StickyState :=
  atStart.afterInput oneServer idle (connects false) [⟨exitOne, false⟩, hubLink]

private theorem directOpen_step : Step oneServer atStart
    (.network idle (connects false) [⟨exitOne, false⟩, hubLink]) directOpen := ⟨rfl, rfl⟩

/-- A single direct connection, which is noticed. -/
theorem direct_peers_iff_single : Always (Step oneServer) (Truthful oneServer) atStart
    [.network idle (connects false) [⟨exitOne, false⟩, hubLink], handlesFirst exitOnline directOpen] := by
  have hnotices := handlesFirst_step exitOnline directOpen (List.cons_ne_nil _ _)
  refine (direct_peers_iff (by decide) (.cons directOpen_step (.cons hnotices (.nil _)))).1.2 ?_
  refine .cons ⟨directOpen_step, trivial⟩ (.cons ⟨hnotices, ?_⟩ (.nil _))
  rintro n peer ⟨⟩ ⟨⟩ - -
  exact iff_of_true rfl ⟨⟨exitOne, false⟩, by decide, rfl, rfl⟩

/-- A relayed connection comes up beside the direct one. -/
private def relayedToo : LinkSystem StickyState :=
  directOpen.afterInput oneServer idle (connects true) [⟨exitOne, true⟩, ⟨exitOne, false⟩, hubLink]

/-- Both connections are noticed, in the order in which they came up: the exit is not taken for directly connected,
although it is. -/
theorem direct_peer_hidden :
    let s := afterFirst exitOnline (afterFirst exitOnline relayedToo)
    Reaches (Step oneServer) atStart [.network idle (connects false) [⟨exitOne, false⟩, hubLink],
        .network idle (connects true) [⟨exitOne, true⟩, ⟨exitOne, false⟩, hubLink],
        handlesFirst exitOnline relayedToo, handlesFirst exitOnline (afterFirst exitOnline relayedToo)] s ∧
      s.inbox = [] ∧ exitOne ≠ oneServer.bootstrapPeerId ∧ exitOne ∉ s.discovery.directPeers ∧
      HoldsDirect s.opened exitOne := by
  intro s
  refine ⟨?_, rfl, by decide, by decide, ⟨⟨exitOne, false⟩, by decide, rfl, rfl⟩⟩
  exact .cons directOpen_step (.cons ⟨rfl, rfl⟩ (.cons (handlesFirst_step _ _ (List.cons_ne_nil _ _))
    (.cons (handlesFirst_step _ _ (List.cons_ne_nil _ _)) (.nil _))))

end Fixture

end LinkSystem

end P2Proxy
