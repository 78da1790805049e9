import P2Proxy.Network
import P2Proxy.DiscoveryRules

/-!
# Connections and the notices about them

The network actor and the discovery actor, with the connections that are open in the swarm and the messages that are on
their way from the one actor to the other.  A peer may have several connections at once: a relayed circuit, and the
direct link that an upgrade adds.  The network actor gives a peer up whenever one of them closes; `given_up_iff` says in
which runs nobody is given up who is still connected.
-/

namespace P2Proxy

open Interaction

/-- An open connection. -/
structure Connection where
  peer : PeerId
  relayed : Bool
deriving DecidableEq

/-- A message that the discovery actor has not handled yet, with the connections that were open when it was sent. -/
structure Notice where
  event : DiscoveryEvent
  opened : List Connection

/-- The peer whose connection the event is about. -/
def DiscoveryEvent.linkPeer : DiscoveryEvent → Option PeerId
  | .peerClosed peer | .peerConnected peer _ _ => some peer
  | .discoverFor _ | .requestNewPeer _ | .peerUnusable _ | .selectPeer _ _ => none

structure LinkSystem (S : Type) where
  network : NetworkActor
  discovery : DiscoveryActor S
  opened : List Connection
  inbox : List Notice

namespace LinkSystem

/-- What happens next: the network actor handles an input, after which `opened` are the open connections; somebody else
sends a message; the discovery actor handles the message with the given index. -/
inductive Label
  | network (swarm : Swarm) (input : NetworkInput) (opened : List Connection)
  | sends (event : DiscoveryEvent)
  | handles (index : Nat) (trace : List Io)

/-- The connections that may be open after an input: one more, or one of the closed peer's fewer. -/
def OpenAfter (opened : List Connection) : NetworkInput → List Connection → Prop
  | .swarm (.connectionEstablished peer _ relayed), opened' => opened' = { peer, relayed } :: opened
  | .swarm (.connectionClosed peer), opened' => ∃ c ∈ opened, c.peer = peer ∧ opened' = opened.erase c
  | _, opened' => opened' = opened

/-- The messages to the discovery actor among the effects. -/
def notices (opened : List Connection) (effects : List NetworkEffect) : List Notice :=
  effects.filterMap fun
    | .spawnPeerConnected peer address relayed => some { event := .peerConnected peer address relayed, opened }
    | .spawnPeerClosed peer => some { event := .peerClosed peer, opened }
    | _ => none

variable {S : Type}

def init (opened : List Connection) (discovery : DiscoveryActor S) : LinkSystem S :=
  { network := .new, discovery, opened, inbox := [] }

def afterInput (ctx : Context) (s : LinkSystem S) (w : Swarm) (input : NetworkInput) (opened : List Connection) :
    LinkSystem S :=
  let r := s.network.handle ctx w input
  { s with network := r.1, opened, inbox := s.inbox ++ notices opened r.2 }

def Step [StickyStore S] (ctx : Context) (s : LinkSystem S) : Label → LinkSystem S → Prop
  | .network w input opened, s' => OpenAfter s.opened input opened ∧ s' = s.afterInput ctx w input opened
  | .sends event, s' =>
    event.linkPeer = none ∧ s' = { s with inbox := s.inbox ++ [{ event, opened := s.opened }] }
  | .handles i trace, s' =>
    ∃ n a, s.inbox[i]? = some n ∧ DiscoveryActor.Step ctx s.discovery ⟨n.event, trace⟩ a ∧
      s' = { s with discovery := a, inbox := s.inbox.eraseIdx i }

/-- No connection of the peer is open. -/
def Gone (opened : List Connection) (peer : PeerId) : Prop := ∀ c ∈ opened, c.peer ≠ peer

/-- Handling the input, the network actor announces `peer` as disconnected, reports it to the discovery actor, or takes
the link to the hub for lost. -/
def GivesUp (ctx : Context) (a : NetworkActor) (w : Swarm) (input : NetworkInput) (peer : PeerId) : Prop :=
  let r := a.handle ctx w input
  .emit (.connection (.disconnected peer)) ∈ r.2 ∨ .spawnPeerClosed peer ∈ r.2 ∨
    peer = ctx.bootstrapPeerId ∧ a.bootstrapConnected = true ∧ r.1.bootstrapConnected = false

/-- Nobody is given up who is still connected, by the network actor or as the exit of a port. -/
def GivesUpGone (ctx : Context) (s : LinkSystem S) : Label → LinkSystem S → Prop
  | .network w input opened, _ => ∀ peer, GivesUp ctx s.network w input peer → Gone opened peer
  | .sends _, _ => True
  | .handles i _, _ => ∀ n peer port, s.inbox[i]? = some n → n.event = .peerClosed peer →
      s.discovery.destination port = some peer → Gone n.opened peer

/-- A connection only closes as the last one of its peer. -/
def ClosesLast (s : LinkSystem S) : Label → Prop
  | .network _ (.swarm (.connectionClosed peer)) _ => s.opened.countP (·.peer = peer) = 1
  | _ => True

/-- The peers of all `PeerClosed` on their way were gone when it was sent. -/
def ClosedGone (s : LinkSystem S) : Prop :=
  ∀ n ∈ s.inbox, ∀ peer, n.event = .peerClosed peer → Gone n.opened peer

variable {ctx : Context} {s s' : LinkSystem S} {l : Label} {ks : List Label} {opened opened' : List Connection}
  {a : NetworkActor} {w : Swarm} {input : NetworkInput} {peer : PeerId}

theorem Step.deterministic [StickyStore S] {s₁ s₂ : LinkSystem S} (h₁ : Step ctx s l s₁) (h₂ : Step ctx s l s₂) :
    s₁ = s₂ := by
  cases l with
  | network w input opened => exact h₁.2.trans h₂.2.symm
  | sends event => exact h₁.2.trans h₂.2.symm
  | handles i trace =>
    obtain ⟨n₁, a₁, hn₁, hd₁, rfl⟩ := h₁
    obtain ⟨n₂, a₂, hn₂, hd₂, rfl⟩ := h₂
    obtain rfl : n₁ = n₂ := Option.some.inj (hn₁.symm.trans hn₂)
    rw [DiscoveryActor.Step.deterministic hd₁ hd₂]

/-- What the network actor tells the discovery actor about an input. -/
theorem notices_handle : notices opened (a.handle ctx w input).2 =
    match input with
    | .swarm (.connectionEstablished peer address relayed) =>
      if peer = ctx.bootstrapPeerId then [] else [{ event := .peerConnected peer address relayed, opened }]
    | .swarm (.connectionClosed peer) => [{ event := .peerClosed peer, opened }]
    | _ => [] := by
  unfold notices
  rw [NetworkActor.filterMap_handle (by rintro ⟨⟩ he <;> first | rfl | cases he)]
  cases input with
  | swarm event =>
    cases event with
    | connectionEstablished peer address relayed =>
      by_cases hhub : peer = ctx.bootstrapPeerId <;> simp [NetworkActor.reports, hhub]
    | _ => rfl
  | _ => rfl

/-- The peer of a closing connection is given up, whether it has another connection or not, and nobody else. -/
theorem givesUp_iff : GivesUp ctx a w input peer ↔ input = .swarm (.connectionClosed peer) := by
  unfold GivesUp
  dsimp only
  rw [NetworkActor.mem_handle_iff rfl, NetworkActor.mem_handle_iff rfl, NetworkActor.bootstrapConnected_handle]
  cases input with
  | swarm event =>
    cases event with
    | connectionEstablished q address relayed =>
      by_cases hhub : q = ctx.bootstrapPeerId <;> simp [NetworkActor.reports, hhub]
    | connectionClosed q =>
      have hclosed : NetworkInput.swarm (.connectionClosed q) = .swarm (.connectionClosed peer) ↔ peer = q := by
        simp [eq_comm]
      rw [hclosed]
      by_cases hhub : q = ctx.bootstrapPeerId
      · subst hhub
        simpa [NetworkActor.reports] using fun h _ => h
      · simp [NetworkActor.reports, hhub]
    | _ => simp [NetworkActor.reports]
  | _ => simp [NetworkActor.reports]

/-- Nothing is left open of the peer of a closed connection iff it was the only one. -/
theorem gone_iff_countP {c : Connection} (hc : c ∈ opened) :
    Gone (opened.erase c) c.peer ↔ opened.countP (·.peer = c.peer) = 1 := by
  have hcount : (opened.erase c).countP (·.peer = c.peer) = opened.countP (·.peer = c.peer) - 1 := by
    rw [List.countP_erase, if_pos ⟨hc, decide_eq_true rfl⟩]
  have hpos : 0 < opened.countP (·.peer = c.peer) := List.countP_pos_iff.2 ⟨c, hc, decide_eq_true rfl⟩
  have hgone : Gone (opened.erase c) c.peer ↔ (opened.erase c).countP (·.peer = c.peer) = 0 := by
    rw [List.countP_eq_zero]
    exact ⟨fun h d hd => by simpa using h d hd, fun h d hd => by simpa using h d hd⟩
  rw [hgone, hcount]
  omega

variable [StickyStore S]

/-- A step gives up only peers that are gone iff no connection closes beside another one of its peer. -/
theorem Step.givesUpGone_iff (hs : s.ClosedGone) (h : Step ctx s l s') : GivesUpGone ctx s l s' ↔ s.ClosesLast l := by
  cases l with
  | network w input opened =>
    obtain ⟨hopen, -⟩ := h
    have hgives : GivesUpGone ctx s (.network w input opened) s' ↔
        ∀ peer, input = .swarm (.connectionClosed peer) → Gone opened peer := by
      unfold GivesUpGone
      simp only [givesUp_iff]
    rw [hgives]
    constructor
    · intro hgone
      cases input with
      | swarm event =>
        cases event with
        | connectionClosed peer =>
          obtain ⟨c, hc, rfl, rfl⟩ := hopen
          exact (gone_iff_countP hc).1 (hgone _ rfl)
        | _ => trivial
      | _ => trivial
    · rintro hl peer rfl
      obtain ⟨c, hc, rfl, rfl⟩ := hopen
      exact (gone_iff_countP hc).2 hl
  | sends event => exact iff_of_true trivial trivial
  | handles i trace =>
    refine iff_of_true (fun n peer port hn hevent _ => ?_) trivial
    exact hs n (List.mem_of_getElem? hn) peer hevent

/-- As long as only peers are given up that are gone, this was so of every peer whose closing is still to be handled. -/
theorem Step.closedGone (hs : s.ClosedGone) (h : Step ctx s l s') (hl : GivesUpGone ctx s l s') : s'.ClosedGone := by
  cases l with
  | network w input opened =>
    obtain ⟨-, rfl⟩ := h
    intro n hn peer hevent
    rcases List.mem_append.1 hn with hn | hn
    · exact hs n hn peer hevent
    · rw [notices_handle] at hn
      cases input with
      | swarm event =>
        cases event with
        | connectionEstablished q address relayed =>
          dsimp only at hn
          split at hn
          · cases hn
          · obtain rfl := List.mem_singleton.1 hn
            cases hevent
        | connectionClosed q =>
          obtain rfl := List.mem_singleton.1 hn
          cases hevent
          exact hl _ (givesUp_iff.2 rfl)
        | _ => cases hn
      | _ => cases hn
  | sends event =>
    obtain ⟨hlink, rfl⟩ := h
    intro n hn peer hevent
    rcases List.mem_append.1 hn with hn | hn
    · exact hs n hn peer hevent
    · obtain rfl := List.mem_singleton.1 hn
      rw [show event = .peerClosed peer from hevent] at hlink
      cases hlink
  | handles i trace =>
    obtain ⟨n, b, -, -, rfl⟩ := h
    intro m hm
    exact hs m (List.mem_of_mem_eraseIdx hm)

/-- In a run nobody is given up who is still connected, iff no connection ever closes beside another one of its peer;
the messages to the discovery actor may be handled in any order. -/
theorem given_up_iff {discovery : DiscoveryActor S} (h : Reaches (Step ctx) (init opened discovery) ks s) :
    Throughout (Step ctx) (GivesUpGone ctx) (init opened discovery) ks ↔
      Reaches (guarded (Step ctx) ClosesLast) (init opened discovery) ks s := by
  refine throughout_iff (J := ClosedGone) (fun _ _ _ _ => Step.deterministic) (fun _ _ _ hs h => h.closedGone hs)
    (fun _ _ _ hs h => h.givesUpGone_iff hs) ?_ h
  intro n hn
  exact absurd hn List.not_mem_nil

omit [StickyStore S]

section Fixture

def oneServer : Context := dummyContext [discoveryServer 1080]

def exitOne : PeerId := ⟨[1]⟩

def hubLink : Connection := { peer := ⟨[0]⟩, relayed := false }

def idle : Swarm := { now := 0, accepts := fun _ => true, isConnected := fun _ => false, connectedPeers := [] }

def exitOnline : World :=
  { routes := [], candidates := [{ peerId := exitOne, addresses := [] }], online := [exitOne], connected := [] }

private def nobodyOnline : World := { routes := [], candidates := [], online := [], connected := [] }

def atStart : LinkSystem StickyState := init [hubLink] (.new .empty (.dark [1080] nodup_onePort))

/-- The discovery actor handles its first message. -/
def handlingFirst (world : World) (s : LinkSystem StickyState) : List Io × Unit × DiscoveryActor StickyState :=
  match s.inbox with
  | n :: _ => exec world.answer (DiscoveryActor.handle oneServer n.event) s.discovery
  | [] => ([], (), s.discovery)

def handlesFirst (world : World) (s : LinkSystem StickyState) : Label := .handles 0 (handlingFirst world s).1

def afterFirst (world : World) (s : LinkSystem StickyState) : LinkSystem StickyState :=
  { s with discovery := (handlingFirst world s).2.2, inbox := s.inbox.tail }

theorem handlesFirst_step (world : World) (s : LinkSystem StickyState) (h : s.inbox ≠ []) :
    Step oneServer s (handlesFirst world s) (afterFirst world s) := by
  obtain ⟨network, discovery, opened, inbox⟩ := s
  cases inbox with
  | nil => exact absurd rfl h
  | cons n inbox => exact ⟨n, _, rfl, exec_runs world.answer _ _, rfl⟩

def connects (relayed : Bool) : NetworkInput := .swarm (.connectionEstablished exitOne [.p2pCircuit] relayed)
def closes : NetworkInput := .swarm (.connectionClosed exitOne)

/-- The exit connects directly, which is noticed. -/
private def directNoticed : LinkSystem StickyState :=
  afterFirst exitOnline (atStart.afterInput oneServer idle (connects false) [⟨exitOne, false⟩, hubLink])

/-- The only connection of the exit closes. -/
theorem given_up_iff_last : Throughout (Step oneServer) (GivesUpGone oneServer) atStart
    [.network idle (connects false) [⟨exitOne, false⟩, hubLink],
      handlesFirst exitOnline (atStart.afterInput oneServer idle (connects false) [⟨exitOne, false⟩, hubLink]),
      .network idle closes [hubLink]] := by
  have hconnects : Step oneServer atStart (.network idle (connects false) [⟨exitOne, false⟩, hubLink])
      (atStart.afterInput oneServer idle (connects false) [⟨exitOne, false⟩, hubLink]) := ⟨rfl, rfl⟩
  have hnotices := handlesFirst_step exitOnline
    (atStart.afterInput oneServer idle (connects false) [⟨exitOne, false⟩, hubLink]) (List.cons_ne_nil _ _)
  have hcloses : Step oneServer directNoticed (.network idle closes [hubLink])
      (directNoticed.afterInput oneServer idle closes [hubLink]) :=
        ⟨⟨⟨exitOne, false⟩, List.mem_cons_self .., rfl, rfl⟩, rfl⟩
  have hlast : directNoticed.opened.countP (·.peer = exitOne) = 1 := by decide
  refine (given_up_iff (.cons hconnects (.cons hnotices (.cons hcloses (.nil _))))).2 ?_
  exact .cons ⟨hconnects, trivial⟩ (.cons ⟨hnotices, trivial⟩ (.cons ⟨hcloses, hlast⟩ (.nil _)))

/-- The port is to be discovered, for the first time. -/
private def asked : LinkSystem StickyState :=
  { atStart with inbox := [{ event := .discoverFor 1080, opened := [hubLink] }] }

/-- The exit serves the port, and connects over the relay. -/
private def relayedBeside : LinkSystem StickyState :=
  (afterFirst exitOnline asked).afterInput oneServer idle (connects true) [⟨exitOne, true⟩, hubLink]

/-- Its upgraded connection comes up beside. -/
private def bothOpen : LinkSystem StickyState :=
  relayedBeside.afterInput oneServer idle (connects false) [⟨exitOne, false⟩, ⟨exitOne, true⟩, hubLink]

private def bothNoticed : LinkSystem StickyState := afterFirst exitOnline (afterFirst exitOnline bothOpen)

/-- The circuit is closed, and the direct connection stays. -/
private def upgraded : LinkSystem StickyState :=
  bothNoticed.afterInput oneServer idle closes [⟨exitOne, false⟩, hubLink]

/-- The circuit of an exit closes after the upgrade to a direct connection: the exit is reported as disconnected, and
its port is cleared, while the direct connection is open. -/
theorem upgraded_exit_given_up :
    Reaches (Step oneServer) atStart [.sends (.discoverFor 1080), handlesFirst exitOnline asked,
        .network idle (connects true) [⟨exitOne, true⟩, hubLink],
        .network idle (connects false) [⟨exitOne, false⟩, ⟨exitOne, true⟩, hubLink],
        handlesFirst exitOnline bothOpen, handlesFirst exitOnline (afterFirst exitOnline bothOpen),
        .network idle closes [⟨exitOne, false⟩, hubLink], handlesFirst nobodyOnline upgraded]
        (afterFirst nobodyOnline upgraded) ∧
      ¬GivesUpGone oneServer bothNoticed (.network idle closes [⟨exitOne, false⟩, hubLink]) upgraded ∧
      upgraded.discovery.destination 1080 = some exitOne ∧
      (afterFirst nobodyOnline upgraded).discovery.destination 1080 = none ∧
      ⟨exitOne, false⟩ ∈ (afterFirst nobodyOnline upgraded).opened := by
  have hopen : Step oneServer bothNoticed (.network idle closes [⟨exitOne, false⟩, hubLink]) upgraded :=
    ⟨⟨⟨exitOne, true⟩, by decide, rfl, by decide⟩, rfl⟩
  refine ⟨?_, fun hgone => ?_, by decide, by decide, by decide⟩
  · exact .cons ⟨rfl, rfl⟩ (.cons (handlesFirst_step _ _ (List.cons_ne_nil _ _)) (.cons ⟨rfl, rfl⟩ (.cons ⟨rfl, rfl⟩
      (.cons (handlesFirst_step _ _ (List.cons_ne_nil _ _))
        (.cons (handlesFirst_step _ _ (List.cons_ne_nil _ _)) (.cons hopen
        (.cons (handlesFirst_step _ _ (List.cons_ne_nil _ _)) (.nil _))))))))
  · exact hgone exitOne (givesUp_iff.2 rfl) ⟨exitOne, false⟩ (by decide) rfl

end Fixture

end LinkSystem

end P2Proxy
