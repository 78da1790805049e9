import P2Proxy.Rows
import P2Proxy.Interaction.Best

/-!
# What the network view shows

Whatever events have been reduced, an exit stands among the rows of its port, once, the rows are sorted by how well
their peers are reachable, and the sessions are those whose peers are known (`network_rows`).  The address shown for a
peer is the last of the best ones that were noted for it since it disconnected (`address_lastBest`).
-/

namespace P2Proxy

open Interaction

/-! ### The rows -/

namespace UIState

/-- Where the known address of a peer came from. -/
def sourceOf (st : UIState) (peer : PeerId) : Option AddrSource := (st.peerAddresses peer).map PeerAddr.source

/-- The rows of all ports, and the sessions, are in order. -/
structure NetworkRows (st : UIState) : Prop where
  /-- The exit of a port is listed, and has one row. -/
  exit : ∀ port p, st.activeDestinations port = some p →
    (∃ pool, st.serverPools port = some pool ∧ p ∈ pool) ∧ (st.orderedPoolFor port).count p = 1
  /-- The rows are the peers of the two pools, -/
  mem_iff : ∀ port p, p ∈ st.orderedPoolFor port ↔ p ∈ st.serverPool port ∨ p ∈ st.stickyPool port
  /-- each once, -/
  nodup : ∀ port, (st.orderedPoolFor port).Nodup
  /-- direct peers before candidates before relayed and unknown ones. -/
  tiers : ∀ port, (st.orderedPoolFor port).Pairwise fun p q =>
    (st.sourceOf q = some .direct → st.sourceOf p = some .direct) ∧
      (st.sourceOf q = some .candidate → st.sourceOf p = some .direct ∨ st.sourceOf p = some .candidate)
  sessions : ∀ id, (st.sessionPeer id).isSome ↔ id ∈ st.sessions

/-- What the events keep true of the lists. -/
structure Consistent (st : UIState) : Prop where
  listed : ∀ port p, st.activeDestinations port = some p → p ∈ st.serverPool port
  nodup : ∀ port, (st.serverPool port).Nodup
  sessions : ∀ id, (st.sessionPeer id).isSome ↔ id ∈ st.sessions

variable {st : UIState} {port : Port} {p : PeerId}

theorem consistent_new : Consistent .new where
  listed _ _ h := by cases h
  nodup _ := List.nodup_nil
  sessions id := by simp [new]

theorem poolSortKey_le_zero : st.poolSortKey p ≤ 0 ↔ st.sourceOf p = some .direct := by
  unfold poolSortKey sourceOf
  split <;> simp [*]

theorem poolSortKey_le_one :
    st.poolSortKey p ≤ 1 ↔ st.sourceOf p = some .direct ∨ st.sourceOf p = some .candidate := by
  unfold poolSortKey sourceOf
  split <;> simp [*]

theorem tier_of_poolSortKey_le {q : PeerId} (h : st.poolSortKey p ≤ st.poolSortKey q) :
    (st.sourceOf q = some .direct → st.sourceOf p = some .direct) ∧
      (st.sourceOf q = some .candidate → st.sourceOf p = some .direct ∨ st.sourceOf p = some .candidate) := by
  constructor
  · intro hq
    have hzero : st.poolSortKey p ≤ 0 := h.trans (poolSortKey_le_zero.2 hq)
    exact poolSortKey_le_zero.1 hzero
  · intro hq
    have hone : st.poolSortKey p ≤ 1 := h.trans (poolSortKey_le_one.2 (.inr hq))
    exact poolSortKey_le_one.1 hone

theorem Consistent.networkRows (h : st.Consistent) : st.NetworkRows where
  exit port p hexit := by
    have hlisted := h.listed port p hexit
    have hrows : (st.orderedPoolFor port).Nodup := nodup_sortByKey (nodup_foldl_pushNew (h.nodup port))
    refine ⟨?_, ?_⟩
    · cases hpool : st.serverPools port with
      | none => simp [serverPool, hpool] at hlisted
      | some pool => exact ⟨pool, rfl, by simpa [serverPool, hpool] using hlisted⟩
    · exact List.count_eq_one_of_mem hrows (mem_orderedPoolFor.2 (.inl hlisted))
  mem_iff _ _ := mem_orderedPoolFor
  nodup port := nodup_sortByKey (nodup_foldl_pushNew (h.nodup port))
  tiers port := by
    have hsorted : (st.orderedPoolFor port).Pairwise fun p q => st.poolSortKey p ≤ st.poolSortKey q :=
      pairwise_sortByKey
    exact hsorted.imp tier_of_poolSortKey_le
  sessions := h.sessions

end UIState

namespace Ui

variable {ui : Ui} {event : Events} {p : PeerId}

/-- Sessions begin and end together with the knowledge of their peers. -/
theorem sessions_handleSwarmEvents (h : ∀ id, (ui.state.sessionPeer id).isSome ↔ id ∈ ui.state.sessions)
    (id : SessionId) :
    ((ui.handleSwarmEvents event).state.sessionPeer id).isSome ↔ id ∈ (ui.handleSwarmEvents event).state.sessions := by
  cases event with
  | connection event => cases event <;> exact h id
  | session event =>
    cases event with
    | new other target peer =>
      by_cases hid : id = other
      · subst hid
        simp [handleSwarmEvents, UIState.handleSession]
      · simp [handleSwarmEvents, UIState.handleSession, hid, h id]
    | ends other =>
      by_cases hid : id = other
      · subst hid
        simp [handleSwarmEvents, UIState.handleSession]
      · simp [handleSwarmEvents, UIState.handleSession, hid, h id]
  | bandwidth event =>
    cases event <;>
    · simp only [handleSwarmEvents, UIState.handleBandwidth]
      rw [UIState.countBandwidth_eq]
      exact h id
  | serverPool q peers =>
    simp only [handleSwarmEvents, UIState.handleServerPool]
    rw [UIState.noteCandidates_eq]
    exact h id
  | peerRoute peer address relayed =>
    simp only [handleSwarmEvents]
    rw [UIState.notePeerAddress_eq]
    exact h id
  | activeDestination q peer source => cases peer <;> exact h id
  | stickyPool q peers =>
    simp only [handleSwarmEvents, UIState.handleStickyPool]
    rw [UIState.noteCandidates_eq]
    exact h id
  | _ => exact h id

/-- The exit of a port stays listed, whatever happens to either. -/
theorem listed_handleSwarmEvents {port : Port}
    (h : ∀ p, ui.state.activeDestinations port = some p → p ∈ ui.state.serverPool port)
    (hexit : (ui.handleSwarmEvents event).state.activeDestinations port = some p) :
    p ∈ (ui.handleSwarmEvents event).state.serverPool port := by
  have hshown : (ui.handleSwarmEvents event).state.activeDestinations port =
      exitShown port (ui.state.activeDestinations port) event :=
    congrArg Prod.fst portShown_handleSwarmEvents
  rw [hshown] at hexit
  rw [serverPool_handleSwarmEvents]
  cases event with
  | connection event =>
    cases event with
    | disconnected peer =>
      -- the peer leaves the exit and the list together
      obtain ⟨hbefore, hne⟩ := Option.filter_eq_some_iff.1 hexit
      exact List.mem_filter.2 ⟨h p hbefore, hne⟩
    | _ => exact h p hexit
  | serverPool q peers =>
    have hbefore : ui.state.activeDestinations port = some p := hexit
    by_cases hq : q = port
    · -- a new list is given the exit that it lacks
      rw [serverPoolShown, if_pos hq, hbefore]
      exact mem_pushNew.2 (.inr rfl)
    · rw [serverPoolShown, if_neg hq]
      exact h p hbefore
  | activeDestination q peer source =>
    by_cases hq : q = port
    · -- the new exit is listed with it
      rw [exitShown, if_pos hq] at hexit
      subst hexit
      rw [serverPoolShown, if_pos hq]
      exact mem_pushNew.2 (.inr rfl)
    · rw [exitShown, if_neg hq] at hexit
      have hlisted := h p hexit
      cases peer with
      | none => exact hlisted
      | some peer =>
        rw [serverPoolShown, if_neg hq]
        exact hlisted
  | _ => exact h p hexit

/-- A list without repetition stays so, unless the hub's list has one. -/
theorem nodup_handleSwarmEvents {port : Port} (h : (ui.state.serverPool port).Nodup)
    (hevent : ∀ peers, event = .serverPool port peers → (peers.map (·.peerId)).Nodup) :
    ((ui.handleSwarmEvents event).state.serverPool port).Nodup := by
  rw [serverPool_handleSwarmEvents]
  cases event with
  | connection event =>
    cases event with
    | disconnected peer => exact h.filter _
    | _ => exact h
  | serverPool q peers =>
    by_cases hq : q = port
    · subst hq
      rw [serverPoolShown, if_pos rfl]
      exact nodup_foldl_pushNew (hevent peers rfl)
    · rw [serverPoolShown, if_neg hq]
      exact h
  | activeDestination q peer source =>
    cases peer with
    | none => exact h
    | some peer =>
      by_cases hq : q = port
      · rw [serverPoolShown, if_pos hq]
        exact nodup_pushNew h
      · rw [serverPoolShown, if_neg hq]
        exact h
  | _ => exact h

/-- An event that lists nobody twice keeps the lists consistent. -/
theorem consistent_handleSwarmEvents (h : ui.state.Consistent)
    (hevent : ∀ port peers, event = .serverPool port peers → (peers.map (·.peerId)).Nodup) :
    (ui.handleSwarmEvents event).state.Consistent where
  listed port _ hexit := listed_handleSwarmEvents (h.listed port) hexit
  nodup port := nodup_handleSwarmEvents (h.nodup port) (hevent port)
  sessions := sessions_handleSwarmEvents h.sessions

/-- After any events, of which no pool of the hub lists a peer twice, the rows and the sessions are in order. -/
theorem network_rows (events : List Events)
    (hpools : ∀ port peers, .serverPool port peers ∈ events → (peers.map (·.peerId)).Nodup) :
    (events.foldl handleSwarmEvents .new).state.NetworkRows := by
  refine UIState.Consistent.networkRows ?_
  induction events using List.reverseRecOn with
  | nil => exact UIState.consistent_new
  | append_singleton events event ih =>
    rw [List.foldl_append]
    refine consistent_handleSwarmEvents (ih fun port peers he => hpools port peers (by simp [he])) ?_
    rintro port peers rfl
    exact hpools port peers (by simp)

/-- An exit that the hub no longer lists keeps its row. -/
theorem network_rows_relisted :
    ([.activeDestination 8080 (some ⟨[1]⟩) (some .sticky), .serverPool 8080 [⟨⟨[2]⟩, []⟩]].foldl
      handleSwarmEvents .new).state.NetworkRows :=
  network_rows _ fun port peers he => by
    simp only [List.mem_cons, List.not_mem_nil, or_false, reduceCtorEq, false_or, Events.serverPool.injEq] at he
    obtain ⟨-, rfl⟩ := he
    decide

end Ui

/-! ### The addresses that are noted -/

/-- The order of the sources: a live route beats an advertised one, and a direct route beats a relayed one. -/
inductive AddrSource.Beats : AddrSource → AddrSource → Prop
  | relayed_candidate : Beats .relayed .candidate
  | direct_candidate : Beats .direct .candidate
  | direct_relayed : Beats .direct .relayed

/-- The first address that goes through no circuit. -/
def firstDirect : List Multiaddr → Option Multiaddr
  | [] => none
  | a :: addresses => if .p2pCircuit ∈ a then firstDirect addresses else some a

/-- The address that is noted for a candidate of the hub: the first direct one, or else the first. -/
def advertised (addresses : List Multiaddr) : Option Multiaddr :=
  match firstDirect addresses with
  | some a => some a
  | none => addresses.head?

/-- The addresses that a list of candidates has for `p`. -/
def candidatesNoted (address : PoolPeer → Option Multiaddr) (p : PeerId) (peers : List PoolPeer) : List PeerAddr :=
  peers.filterMap fun pp => if pp.peerId = p then (address pp).map fun addr => { addr, source := .candidate } else none

/-- The addresses that an event notes for `p`, in this order. -/
def Events.noted (p : PeerId) : Events → List PeerAddr
  | .serverPool _ peers => candidatesNoted (fun pp => advertised pp.addresses) p peers
  | .stickyPool _ peers => candidatesNoted (fun pp => pp.addresses.head?) p peers
  | .peerRoute peer address relayed =>
    if peer = p then [{ addr := address, source := if relayed then .relayed else .direct }] else []
  | _ => []

/-- The addresses noted for `p` since it was last reported as disconnected. -/
def notedSince (p : PeerId) (events : List Events) : List PeerAddr :=
  (events.rtakeWhile fun e => e.disconnects ≠ some p).flatMap (Events.noted p)

/-- `a` is the most recent of the best addresses that were noted. -/
def MostRecentBest (noted : List PeerAddr) (a : PeerAddr) : Prop :=
  ∃ before after, noted = before ++ a :: after ∧ (∀ b ∈ before, ¬ b.source.Beats a.source) ∧
    ∀ b ∈ after, a.source.Beats b.source

/-! ### The address that is shown -/

def PeerAddr.rank (a : PeerAddr) : Nat := a.source.rank

/-- The ranks of the sources are in their order. -/
theorem AddrSource.beats_iff {source other : AddrSource} : source.Beats other ↔ other.rank < source.rank := by
  constructor
  · rintro (_ | _ | _) <;> decide
  · intro h
    cases source <;> cases other <;> first | constructor | exact absurd h (by decide)

theorem lastBest_iff_mostRecentBest {noted : List PeerAddr} {a : PeerAddr} :
    LastBest PeerAddr.rank noted a ↔ MostRecentBest noted a := by
  simp only [LastBest, MostRecentBest, AddrSource.beats_iff, PeerAddr.rank, not_lt]

theorem find?_direct_eq (addresses : List Multiaddr) :
    (addresses.find? fun a => AddrSource.classifyCandidate a = .direct) = firstDirect addresses := by
  induction addresses with
  | nil => rfl
  | cons a addresses ih =>
    by_cases hcircuit : Protocol.p2pCircuit ∈ a
    · have hrelayed : isRelayed a = true := List.any_eq_true.2 ⟨_, hcircuit, by simp⟩
      simp [firstDirect, hcircuit, AddrSource.classifyCandidate, hrelayed, ← ih]
    · have hdirect : isRelayed a = false := List.any_eq_false.2 fun c hc => by
        simpa using fun heq : c = .p2pCircuit => hcircuit (heq ▸ hc)
      simp [firstDirect, hcircuit, AddrSource.classifyCandidate, hdirect]

theorem UIState.candidateAddress_eq (pp : PoolPeer) : candidateAddress pp = advertised pp.addresses := by
  unfold candidateAddress advertised
  rw [find?_direct_eq]
  cases firstDirect pp.addresses <;> rfl

namespace UIState

variable {st : UIState} {p : PeerId}

theorem peerAddresses_notePeerAddress {peer : PeerId} {addr : Multiaddr} {source : AddrSource} :
    (st.notePeerAddress peer addr source).peerAddresses p =
      if peer = p then offer PeerAddr.rank (st.peerAddresses p) { addr, source } else st.peerAddresses p := by
  by_cases hp : peer = p
  · subst hp
    have hoffer : offer PeerAddr.rank (st.peerAddresses peer) { addr, source } =
        if (st.peerAddresses peer).any (fun existing => source.rank < existing.source.rank) then st.peerAddresses peer
        else some { addr, source } := rfl
    rw [if_pos rfl, hoffer, notePeerAddress]
    split
    · rfl
    · exact Function.update_self ..
  · rw [if_neg hp, notePeerAddress]
    split
    · rfl
    · simp [Ne.symm hp]

/-- Every candidate offers the peer its address. -/
theorem peerAddresses_noteCandidates {address : PoolPeer → Option Multiaddr} {peers : List PoolPeer} :
    (st.noteCandidates address peers).peerAddresses p =
      (candidatesNoted address p peers).foldl (offer PeerAddr.rank) (st.peerAddresses p) := by
  induction peers generalizing st with
  | nil => rfl
  | cons pp peers ih =>
    cases haddr : address pp with
    | none =>
      rw [noteCandidates_cons_none haddr, ih]
      simp [candidatesNoted, haddr]
    | some addr =>
      rw [noteCandidates_cons_some haddr, ih, peerAddresses_notePeerAddress]
      by_cases hp : pp.peerId = p <;> simp [candidatesNoted, haddr, hp]

end UIState

namespace Ui

variable {ui : Ui} {event : Events} {p : PeerId}

/-- An event that does not disconnect the peer offers it the addresses that it notes. -/
theorem peerAddresses_handleSwarmEvents : (ui.handleSwarmEvents event).state.peerAddresses p =
    if event.disconnects = some p then none
    else (event.noted p).foldl (offer PeerAddr.rank) (ui.state.peerAddresses p) := by
  cases event with
  | connection event =>
    cases event with
    | disconnected peer =>
      by_cases hp : peer = p
      · subst hp
        simp [handleSwarmEvents, UIState.handleConnection, Events.disconnects]
      · simp [handleSwarmEvents, UIState.handleConnection, Events.disconnects, Events.noted, hp, Ne.symm hp]
    | _ => rfl
  | session event => cases event <;> rfl
  | bandwidth event =>
    cases event <;>
    · simp only [handleSwarmEvents, UIState.handleBandwidth]
      rw [UIState.countBandwidth_eq]
      rfl
  | serverPool q peers =>
    have hcandidate : (fun pp => advertised pp.addresses) = UIState.candidateAddress :=
      funext fun pp => (UIState.candidateAddress_eq pp).symm
    simp only [Events.noted, hcandidate]
    exact UIState.peerAddresses_noteCandidates
  | peerRoute peer address relayed =>
    simp only [handleSwarmEvents, UIState.peerAddresses_notePeerAddress, Events.disconnects, Events.noted]
    by_cases hp : peer = p <;> simp [hp]
  | activeDestination q peer source => cases peer <;> rfl
  | stickyPool q peers => exact UIState.peerAddresses_noteCandidates
  | _ => rfl

theorem notedSince_concat {events : List Events} : notedSince p (events ++ [event]) =
    if event.disconnects = some p then [] else notedSince p events ++ event.noted p := by
  rw [notedSince, List.rtakeWhile_concat]
  by_cases hp : event.disconnects = some p <;> simp [notedSince, hp]

/-- The address shown for a peer is what a register holds that was offered every address noted since the peer
disconnected. -/
theorem peerAddresses_foldl (events : List Events) : (events.foldl handleSwarmEvents .new).state.peerAddresses p =
    (notedSince p events).foldl (offer PeerAddr.rank) none := by
  induction events using List.reverseRecOn with
  | nil => rfl
  | append_singleton events event ih =>
    rw [List.foldl_append]
    show ((events.foldl handleSwarmEvents .new).handleSwarmEvents event).state.peerAddresses p = _
    rw [peerAddresses_handleSwarmEvents, ih, notedSince_concat]
    split
    · rfl
    · rw [List.foldl_append]

/-- After any events the address shown for a peer is the last of the best that were noted for it since it disconnected,
and there is none if none was noted. -/
theorem address_lastBest (events : List Events) (p : PeerId) :
    (∀ a, (events.foldl handleSwarmEvents .new).state.peerAddresses p = some a ↔
      MostRecentBest (notedSince p events) a) ∧
    ((events.foldl handleSwarmEvents .new).state.peerAddresses p = none ↔ notedSince p events = []) := by
  rw [peerAddresses_foldl]
  exact ⟨fun _ => foldl_offer_eq_some_iff.trans lastBest_iff_mostRecentBest, foldl_offer_eq_none_iff⟩

private def circuitTo (peer : PeerId) : Multiaddr := [.p2p ⟨[9]⟩, .p2pCircuit, .p2p peer]

private def directAt (host : UInt8) : Multiaddr := [.other 4 [203, 0, 113, host]]

/-- A candidate with a circuit and two direct addresses becomes reachable over a circuit, is advertised again, and is
reached directly, twice; then it disconnects, and is remembered under a circuit. -/
private def heard : List Events :=
  [.serverPool 8080 [⟨⟨[1]⟩, [circuitTo ⟨[1]⟩, directAt 1, directAt 2]⟩], .peerRoute ⟨[1]⟩ (circuitTo ⟨[1]⟩) true,
    .serverPool 8080 [⟨⟨[1]⟩, [directAt 1]⟩], .peerRoute ⟨[1]⟩ (directAt 3) false, .peerRoute ⟨[1]⟩ (directAt 4) false,
    .connection (.disconnected ⟨[1]⟩), .stickyPool 8080 [⟨⟨[1]⟩, [circuitTo ⟨[1]⟩, directAt 1]⟩]]

/-- The first direct address, the circuit that is live, the same, the latest direct route, nothing, and the first
address that is remembered. -/
theorem address_lastBest_heard :
    let shown n := ((heard.take n).foldl handleSwarmEvents .new).state.peerAddresses ⟨[1]⟩
    shown 1 = some ⟨directAt 1, .candidate⟩ ∧ shown 2 = some ⟨circuitTo ⟨[1]⟩, .relayed⟩ ∧
      shown 3 = some ⟨circuitTo ⟨[1]⟩, .relayed⟩ ∧ shown 5 = some ⟨directAt 4, .direct⟩ ∧ shown 6 = none ∧
      shown 7 = some ⟨circuitTo ⟨[1]⟩, .candidate⟩ := by
  refine ⟨?_, ?_, ?_, ?_, ?_, ?_⟩
  · exact ((address_lastBest (heard.take 1) ⟨[1]⟩).1 _).2 ⟨[], [], rfl, by simp, by simp⟩
  · refine ((address_lastBest (heard.take 2) ⟨[1]⟩).1 _).2 ⟨[⟨directAt 1, .candidate⟩], [], rfl, ?_, by simp⟩
    simp [AddrSource.beats_iff, AddrSource.rank]
  · refine ((address_lastBest (heard.take 3) ⟨[1]⟩).1 _).2
      ⟨[⟨directAt 1, .candidate⟩], [⟨directAt 1, .candidate⟩], rfl, ?_, ?_⟩ <;>
    simp [AddrSource.beats_iff, AddrSource.rank]
  · refine ((address_lastBest (heard.take 5) ⟨[1]⟩).1 _).2
      ⟨[⟨directAt 1, .candidate⟩, ⟨circuitTo ⟨[1]⟩, .relayed⟩, ⟨directAt 1, .candidate⟩, ⟨directAt 3, .direct⟩], [],
        rfl, ?_, by simp⟩
    simp [AddrSource.beats_iff, AddrSource.rank]
  · exact (address_lastBest (heard.take 6) ⟨[1]⟩).2.2 rfl
  · exact ((address_lastBest (heard.take 7) ⟨[1]⟩).1 _).2 ⟨[], [], rfl, by simp, by simp⟩

end Ui

end P2Proxy
