import P2Proxy.Ui
import P2Proxy.Announcements
import P2Proxy.Interaction.StableSort

/-!
# The rows of the network tab

A port's rows are the pool of the hub, merged with the remembered pool and sorted stably by how well a peer is
reachable.  A switch of the exit appends the new exit to the first list and moves it to the front of the second, and the
announcement may give a row its first address.  `orderedPoolFor_switch_iff` says when the rows, and with them the peer
under the cursor, stay where they are.
-/

namespace P2Proxy

open Interaction

namespace UIState

def serverPool (st : UIState) (port : Port) : List PeerId := (st.serverPools port).getD []

def stickyPool (st : UIState) (port : Port) : List PeerId := (st.stickyPools port).getD []

/-- Smaller keys come first: direct peers, then candidates, then relayed and unknown ones. -/
def poolSortKey (st : UIState) (peer : PeerId) : Nat :=
  match (st.peerAddresses peer).map PeerAddr.source with
  | some .direct => 0
  | some .candidate => 1
  | some .relayed | none => 2

/-- The pool of the hub, and the remembered peers that it lacks. -/
def mergedPool (st : UIState) (port : Port) : List PeerId := (st.stickyPool port).foldl pushNew (st.serverPool port)

def orderedPoolFor (st : UIState) (port : Port) : List PeerId := sortByKey st.poolSortKey (st.mergedPool port)

end UIState

/-- The servers, and where the operator is in their table. -/
structure NetworkTab where
  servers : List Server
  networkSelectedIdx : Nat
  networkExpanded : Finset Port
  networkPeerCursor : Option (Port × Nat)

namespace NetworkTab

/-- Enter the pool of the focused server, if it is expanded and has a peer. -/
def networkEnterPeerFocus (tab : NetworkTab) (st : UIState) : NetworkTab :=
  match tab.servers[tab.networkSelectedIdx]? with
  | none => tab
  | some server =>
    if server.port ∈ tab.networkExpanded ∧ st.orderedPoolFor server.port ≠ [] then
      { tab with networkPeerCursor := some (server.port, 0) }
    else tab

/-- Enter: the peer under the cursor is to be pinned as the exit; without a cursor the server is expanded, or
entered. -/
def networkEnter (tab : NetworkTab) (st : UIState) : Option (Port × PeerId) × NetworkTab :=
  match tab.networkPeerCursor with
  | some (port, idx) => ((st.orderedPoolFor port)[idx]?.map fun p => (port, p), tab)
  | none =>
    match tab.servers[tab.networkSelectedIdx]? with
    | none => (none, tab)
    | some server =>
      if server.port ∈ tab.networkExpanded then (none, tab.networkEnterPeerFocus st)
      else (none, { tab with networkExpanded := insert server.port tab.networkExpanded })

end NetworkTab

/-- The interface after a switch of the exit of `port` to `peer` has been announced. -/
def Ui.switch (ui : Ui) (port : Port) (peer : PeerId) (source : DestinationSource) (peers : List PoolPeer) : Ui :=
  (ui.handleSwarmEvents (.activeDestination port (some peer) (some source))).handleSwarmEvents (.stickyPool port peers)

namespace UIState

variable {st : UIState} {port : Port} {p q : PeerId} {peers : List PoolPeer}

/-! ### Keys -/

/-- Does the announcement of `peers` give `q` its first address? -/
def raised (st : UIState) (peers : List PoolPeer) (q : PeerId) : Bool :=
  (st.peerAddresses q).isNone && peers.any fun pp => pp.peerId = q && !pp.addresses.isEmpty

theorem poolSortKey_of_raised (h : st.raised peers q = true) : st.poolSortKey q = 2 := by
  have hnone : st.peerAddresses q = none := by
    rw [raised, Bool.and_eq_true] at h
    simpa using h.1
  simp [poolSortKey, hnone]

theorem poolSortKey_le : st.poolSortKey q ≤ 2 := by
  unfold poolSortKey
  split <;> omega

/-- Noting a candidate's address raises exactly the peers of unknown address. -/
private theorem poolSortKey_notePeerAddress (st : UIState) (p q : PeerId) (addr : Multiaddr) :
    (st.notePeerAddress p addr .candidate).poolSortKey q =
      (if q = p ∧ st.peerAddresses q = none then 1 else st.poolSortKey q) ∧
    ((st.notePeerAddress p addr .candidate).peerAddresses q = none ↔ st.peerAddresses q = none ∧ q ≠ p) := by
  unfold notePeerAddress
  by_cases hq : q = p
  · subst hq
    cases hst : st.peerAddresses q with
    | none => simp [poolSortKey]
    | some known =>
      obtain ⟨addr', source⟩ := known
      cases source <;> simp [poolSortKey, hst, AddrSource.rank]
  · split <;> simp [poolSortKey, hq]

theorem poolSortKey_noteCandidates : (st.noteCandidates (fun pp => pp.addresses.head?) peers).poolSortKey q =
    if st.raised peers q then 1 else st.poolSortKey q := by
  induction peers generalizing st with
  | nil => simp [noteCandidates, raised]
  | cons pp peers ih =>
    cases haddr : pp.addresses with
    | nil =>
      rw [noteCandidates_cons_none (by simp [haddr]), ih]
      simp [raised, haddr]
    | cons addr rest =>
      have hhead : pp.addresses.head? = some addr := by simp [haddr]
      obtain ⟨hkey, hnone⟩ := poolSortKey_notePeerAddress st pp.peerId q addr
      rw [noteCandidates_cons_some hhead, ih, hkey]
      by_cases hq : q = pp.peerId
      · subst hq
        cases hst : st.peerAddresses pp.peerId <;> simp_all [raised]
      · have hne : pp.peerId ≠ q := Ne.symm hq
        have hiff : (st.notePeerAddress pp.peerId addr .candidate).peerAddresses q = none ↔
            st.peerAddresses q = none := by
          simpa [hq] using hnone
        have hisNone : ((st.notePeerAddress pp.peerId addr .candidate).peerAddresses q).isNone =
            (st.peerAddresses q).isNone := by
          rw [Bool.eq_iff_iff, Option.isNone_iff_eq_none, Option.isNone_iff_eq_none, hiff]
        simp [raised, hq, hne, hisNone]

/-! ### The lists before and after a switch -/

/-- The remembered peers that the pool of the hub lacks, each once. -/
def standbys (st : UIState) (port : Port) : List PeerId :=
  ((st.stickyPool port).filter (· ∉ st.serverPool port)).eraseDups

/-- The merged pool, with `peer` appended to the pool of the hub first. -/
def mergedWith (st : UIState) (port : Port) (peer : PeerId) : List PeerId :=
  (st.stickyPool port).foldl pushNew (pushNew (st.serverPool port) peer)

/-- The rows of `port` stay where they are when `peer` becomes its exit and `peers` are announced as its pool. -/
structure RowsStay (st : UIState) (port : Port) (peer : PeerId) (peers : List PoolPeer) : Prop where
  /-- No row is lost because the remembered pool is full. -/
  kept : ∀ q ∈ st.stickyPool port, q ∉ st.serverPool port → q ∈ peers.map (·.peerId)
  /-- A peer that only the remembered pool shows is the first one there of its tier. -/
  first : peer ∈ st.serverPool port ∨
    (st.standbys port).find? (fun q => st.poolSortKey q = st.poolSortKey peer ∧
      st.raised peers q = st.raised peers peer) =
      some peer
  /-- A peer that gets its first address is listed behind no relayed or unknown one that gets none. -/
  unknown : (st.serverPool port ++ st.standbys port).Pairwise fun a b =>
    st.poolSortKey a = 2 → st.raised peers b = true → st.raised peers a = true
  /-- A peer that gets its first address is not listed before a candidate. -/
  candidates : (pushNew (st.serverPool port) peer ++ (st.standbys port).erase peer).Pairwise fun a b =>
    st.raised peers a = true → st.poolSortKey b ≠ 1

theorem mergedPool_eq : st.mergedPool port = st.serverPool port ++ st.standbys port := foldl_pushNew ..

theorem mem_mergedPool : q ∈ st.mergedPool port ↔ q ∈ st.serverPool port ∨ q ∈ st.stickyPool port := mem_foldl_pushNew

theorem mem_orderedPoolFor : q ∈ st.orderedPoolFor port ↔ q ∈ st.serverPool port ∨ q ∈ st.stickyPool port := by
  rw [orderedPoolFor, mem_sortByKey, mem_mergedPool]

theorem nodup_standbys : (st.standbys port).Nodup := nodup_eraseDups _

theorem mem_standbys : q ∈ st.standbys port ↔ q ∈ st.stickyPool port ∧ q ∉ st.serverPool port := by
  rw [standbys, List.mem_eraseDups, List.mem_filter, decide_eq_true_eq]

theorem mergedWith_of_mem (h : p ∈ st.serverPool port) : st.mergedWith port p = st.mergedPool port := by
  rw [mergedWith, pushNew, if_pos h, mergedPool]

private theorem mergedWith_of_not_mem (h : p ∉ st.serverPool port) :
    st.mergedWith port p = st.serverPool port ++ p :: (st.standbys port).erase p := by
  have hrest : (st.stickyPool port).filter (· ∉ st.serverPool port ++ [p]) =
      ((st.stickyPool port).filter (· ∉ st.serverPool port)).filter (· ≠ p) := by
    rw [List.filter_filter]
    refine List.filter_congr fun q _ => ?_
    by_cases hq : q = p <;> simp [hq]
  rw [mergedWith, foldl_pushNew, pushNew, if_neg h, hrest, eraseDups_filter, nodup_standbys.erase_eq_filter, standbys,
    List.append_assoc, List.singleton_append]
  simp only [decide_not, bne, beq_eq_decide]

theorem mergedWith_eq : st.mergedWith port p = pushNew (st.serverPool port) p ++ (st.standbys port).erase p := by
  by_cases hp : p ∈ st.serverPool port
  · have hnew : p ∉ st.standbys port := fun hmem => (mem_standbys.1 hmem).2 hp
    rw [mergedWith_of_mem hp, mergedPool_eq, pushNew, if_pos hp, List.erase_of_not_mem hnew]
  · rw [mergedWith_of_not_mem hp, pushNew, if_neg hp, List.append_assoc, List.singleton_append]

private theorem take_erase_merge {l t : List PeerId} {n : Nat} (hp : p ∈ l)
    (hkept : ∀ q ∈ t, q ∉ l → q ∈ p :: (t.erase p).take n) :
    (p :: (t.erase p).take n).foldl pushNew l = t.foldl pushNew l := by
  have hfront : t.foldl pushNew l = (t.erase p).foldl pushNew l := by
    by_cases ht : p ∈ t
    · have hfilter : t.filter (· ∉ l) = (t.erase p).filter (· ∉ l) := by
        rw [← List.erase_filter, List.erase_of_not_mem (by simp [hp])]
      rw [foldl_pushNew, foldl_pushNew, hfilter]
    · rw [List.erase_of_not_mem ht]
  have hdrop : ∀ q ∈ (t.erase p).drop n, q ∈ ((t.erase p).take n).foldl pushNew l := by
    intro q hq
    by_cases hl : q ∈ l
    · exact mem_foldl_pushNew.2 (.inl hl)
    · have hcons := hkept q (List.mem_of_mem_erase (List.mem_of_mem_drop hq)) hl
      rcases List.mem_cons.1 hcons with rfl | htake
      · exact absurd hp hl
      · exact mem_foldl_pushNew.2 (.inr htake)
  calc (p :: (t.erase p).take n).foldl pushNew l
      = ((t.erase p).take n).foldl pushNew l := by rw [List.foldl_cons, pushNew, if_pos hp]
    _ = ((t.erase p).drop n).foldl pushNew (((t.erase p).take n).foldl pushNew l) :=
        (foldl_pushNew_of_subset hdrop).symm
    _ = t.foldl pushNew l := by rw [← List.foldl_append, List.take_append_drop, ← hfront]

/-- Appending `p` before the standbys keeps every class in its order exactly if `p` was the first standby of its
class. -/
private theorem filter_mergedWith_iff {κ : Type} [DecidableEq κ] {f : PeerId → κ} (hp : p ∈ st.mergedPool port) :
    (∀ i, (st.mergedPool port).filter (f · = i) = (st.mergedWith port p).filter (f · = i)) ↔
      p ∈ st.serverPool port ∨ (st.standbys port).find? (f · = f p) = some p := by
  by_cases hin : p ∈ st.serverPool port
  · simp [mergedWith_of_mem hin, hin]
  have hstandby : p ∈ st.standbys port := mem_standbys.2 ⟨(mem_mergedPool.1 hp).resolve_left hin, hin⟩
  have hcut (i : κ) : (st.mergedPool port).filter (f · = i) = (st.mergedWith port p).filter (f · = i) ↔
      (st.standbys port).filter (f · = i) = (p :: (st.standbys port).erase p).filter (f · = i) := by
    rw [mergedPool_eq, mergedWith_of_not_mem hin, List.filter_append, List.filter_append]
    exact List.append_right_inj _
  constructor
  · intro h
    have hclass := (hcut (f p)).1 (h (f p))
    rw [List.filter_cons_of_pos (by simp)] at hclass
    rw [← List.head?_filter, hclass]
    exact .inr rfl
  · rintro (hmem | hfirst) i
    · exact absurd hmem hin
    rw [hcut]
    by_cases hi : f p = i
    · subst hi
      rw [← List.head?_filter] at hfirst
      obtain ⟨rest, hrest⟩ := List.head?_eq_some_iff.1 hfirst
      rw [List.filter_cons_of_pos (by simp), ← List.erase_filter, hrest, List.erase_cons_head]
    · rw [List.filter_cons_of_neg (by simpa using hi), ← List.erase_filter, List.erase_of_not_mem (by simp [hi])]

end UIState

/-- The pool of the hub that is listed for a port after an event. -/
def serverPoolShown (port : Port) (exit : Option PeerId) (pool : List PeerId) : Events → List PeerId
  | .connection (.disconnected peer) => pool.filter (· ≠ peer)
  | .serverPool q peers => if q = port then exit.toList.foldl pushNew (peers.map (·.peerId)) else pool
  | .activeDestination q (some peer) _ => if q = port then pushNew pool peer else pool
  | _ => pool

theorem Ui.serverPool_handleSwarmEvents {ui : Ui} {port : Port} {event : Events} :
    (ui.handleSwarmEvents event).state.serverPool port =
      serverPoolShown port (ui.state.activeDestinations port) (ui.state.serverPool port) event := by
  cases event with
  | connection event =>
    cases event with
    | disconnected peer =>
      cases hpool : ui.state.serverPools port <;>
        simp [handleSwarmEvents, UIState.handleConnection, UIState.serverPool, serverPoolShown, hpool]
    | _ => rfl
  | session event => cases event <;> rfl
  | bandwidth event =>
    cases event <;> simp [handleSwarmEvents, UIState.handleBandwidth, UIState.serverPool, serverPoolShown]
  -- the list of the hub is kept with the exit of its port
  | serverPool q peers =>
    by_cases hq : port = q
    · subst hq
      cases hexit : ui.state.activeDestinations port with
      | none => simp [handleSwarmEvents, UIState.handleServerPool, UIState.serverPool, serverPoolShown, hexit]
      | some exit =>
        simp [handleSwarmEvents, UIState.handleServerPool, UIState.serverPool, serverPoolShown, hexit, pushNew]
    · have hne : q ≠ port := Ne.symm hq
      simp [handleSwarmEvents, UIState.handleServerPool, UIState.serverPool, serverPoolShown, hq, hne]
  | peerRoute peer address relayed => simp [handleSwarmEvents, UIState.serverPool, serverPoolShown]
  | activeDestination q peer source =>
    cases peer with
    | none => rfl
    | some peer =>
      by_cases hq : port = q
      · subst hq
        by_cases hpeer : peer ∈ (ui.state.serverPools port).getD [] <;>
          simp [handleSwarmEvents, UIState.handleActiveDestination, UIState.serverPool, serverPoolShown, pushNew, hpeer]
      · have hne : q ≠ port := Ne.symm hq
        simp [handleSwarmEvents, UIState.handleActiveDestination, UIState.serverPool, serverPoolShown, hq, hne]
  | stickyPool q peers => simp [handleSwarmEvents, UIState.handleStickyPool, UIState.serverPool, serverPoolShown]
  | _ => rfl

/-! ### The switch -/

namespace Ui

open UIState

variable {ui : Ui} {port : Port} {p q : PeerId} {source : DestinationSource} {peers : List PoolPeer}

theorem switch_serverPool :
    (ui.switch port p source peers).state.serverPool port = pushNew (ui.state.serverPool port) p := by
  rw [switch, serverPool_handleSwarmEvents, serverPool_handleSwarmEvents]
  exact if_pos rfl

theorem switch_stickyPool : (ui.switch port p source peers).state.stickyPool port = peers.map (·.peerId) := by
  simp [stickyPool, switch, handleSwarmEvents, handleStickyPool]

theorem switch_poolSortKey : (ui.switch port p source peers).state.poolSortKey q =
    if ui.state.raised peers q then 1 else ui.state.poolSortKey q :=
  poolSortKey_noteCandidates

/-- When nobody is cut off, the new lists merge like the old ones with the exit appended first. -/
private theorem switch_mergedPool {cap : Nat} (hpeers : peers.map (·.peerId) = promote cap p (ui.state.stickyPool port))
    (hkept : ∀ q ∈ ui.state.stickyPool port, q ∉ ui.state.serverPool port → q ∈ peers.map (·.peerId)) :
    (ui.switch port p source peers).state.mergedPool port = ui.state.mergedWith port p := by
  rw [mergedPool, switch_stickyPool, switch_serverPool, hpeers, promote_eq_cons, mergedWith]
  refine take_erase_merge (mem_pushNew.2 (.inr rfl)) fun q hq hnew => ?_
  rw [← promote_eq_cons, ← hpeers]
  exact hkept q hq fun hmem => hnew (mem_pushNew.2 (.inl hmem))

private theorem filter_classes {f g : PeerId → Nat} (l : List PeerId) (i j : Nat) :
    (l.filter (f · = i)).filter (g · = j) = l.filter fun q => (f q, g q) = (i, j) := by
  rw [List.filter_filter]
  refine List.filter_congr fun q _ => ?_
  simp [Prod.mk.injEq, Bool.decide_and, Bool.and_comm]

/-- Two peers have equal keys before and after exactly if their keys are equal and both are raised, or none is. -/
private theorem switch_class_iff :
    (ui.state.poolSortKey q, (ui.switch port p source peers).state.poolSortKey q) =
        (ui.state.poolSortKey p, (ui.switch port p source peers).state.poolSortKey p) ↔
      ui.state.poolSortKey q = ui.state.poolSortKey p ∧ ui.state.raised peers q = ui.state.raised peers p := by
  have hq : ui.state.raised peers q = true → ui.state.poolSortKey q = 2 := poolSortKey_of_raised
  have hp : ui.state.raised peers p = true → ui.state.poolSortKey p = 2 := poolSortKey_of_raised
  rw [Prod.mk.injEq, switch_poolSortKey, switch_poolSortKey]
  cases hrq : ui.state.raised peers q <;> cases hrp : ui.state.raised peers p
  · simp
  · have hkey := hp hrp
    simp only [if_true, Bool.false_eq_true, if_false, iff_false, and_false]
    omega
  · have hkey := hq hrq
    simp only [if_true, Bool.false_eq_true, Bool.true_eq_false, if_false, iff_false, and_false]
    omega
  · simp

/-- The old lists and the new ones are sorted alike exactly if no two rows change places. -/
private theorem sortByKey_switch_iff (hp : p ∈ ui.state.mergedPool port) :
    sortByKey ui.state.poolSortKey (ui.state.mergedPool port) =
        sortByKey (ui.switch port p source peers).state.poolSortKey (ui.state.mergedWith port p) ↔
      (p ∈ ui.state.serverPool port ∨ (ui.state.standbys port).find? (fun q =>
        ui.state.poolSortKey q = ui.state.poolSortKey p ∧ ui.state.raised peers q = ui.state.raised peers p) = some p) ∧
      ((ui.state.mergedPool port).Pairwise fun a b => ui.state.poolSortKey a = 2 → ui.state.raised peers b = true →
        ui.state.raised peers a = true) ∧
      (ui.state.mergedWith port p).Pairwise fun a b => ui.state.raised peers a = true → ui.state.poolSortKey b ≠ 1 := by
  have hraised (q : PeerId) : ui.state.raised peers q = true → ui.state.poolSortKey q = 2 := poolSortKey_of_raised
  have hle (q : PeerId) : ui.state.poolSortKey q ≤ 2 := poolSortKey_le
  rw [sortByKey_eq_iff]
  refine and_congr ?_ (and_iff_right ?_ |>.trans (and_congr ?_ ?_))
  · -- the entries of every class keep their order
    simp only [filter_classes]
    have hfirst := filter_mergedWith_iff
      (f := fun q => (ui.state.poolSortKey q, (ui.switch port p source peers).state.poolSortKey q)) hp
    simp only [switch_class_iff] at hfirst
    rw [← hfirst]
    exact ⟨fun h c => h c.1 c.2, fun h i j => h (i, j)⟩
  · -- a row that is raised stays below the direct peers
    intro a _ b _ hlt
    have ha := hraised a
    have hb := hraised b
    have hble := hle b
    rw [switch_poolSortKey, switch_poolSortKey]
    split <;> split <;> simp_all <;> omega
  · refine List.Pairwise.iff fun a b => ?_
    have ha := hraised a
    have hb := hraised b
    have hale := hle a
    rw [switch_poolSortKey, switch_poolSortKey]
    cases hra : ui.state.raised peers a <;> cases hrb : ui.state.raised peers b <;>
      simp only [hra, hrb, Bool.false_eq_true, if_true, if_false] at ha hb ⊢ <;> grind
  · refine List.Pairwise.iff fun a b => ?_
    have ha := hraised a
    have hb := hraised b
    rw [switch_poolSortKey, switch_poolSortKey]
    cases hra : ui.state.raised peers a <;> cases hrb : ui.state.raised peers b <;>
      simp only [hra, hrb, Bool.false_eq_true, if_true, if_false] at ha hb ⊢ <;> grind

/-- The rows stay exactly if nobody is cut off and nobody changes places. -/
private theorem orderedPoolFor_eq_iff {cap : Nat} (hp : p ∈ ui.state.orderedPoolFor port)
    (hpeers : peers.map (·.peerId) = promote cap p (ui.state.stickyPool port)) :
    ui.state.orderedPoolFor port = (ui.switch port p source peers).state.orderedPoolFor port ↔
      ui.state.RowsStay port p peers := by
  have hmerged : p ∈ ui.state.mergedPool port := mem_sortByKey.1 hp
  constructor
  · intro h
    -- every row of before is still listed, so the full pool cut nobody off
    have hkept : ∀ q ∈ ui.state.stickyPool port, q ∉ ui.state.serverPool port → q ∈ peers.map (·.peerId) := by
      intro q hq hnew
      have hq' : q ∈ (ui.switch port p source peers).state.orderedPoolFor port := by
        rw [← h]
        exact mem_orderedPoolFor.2 (.inr hq)
      rw [mem_orderedPoolFor, switch_serverPool, switch_stickyPool, mem_pushNew] at hq'
      rcases hq' with (hmem | rfl) | hmem
      · exact absurd hmem hnew
      · rw [hpeers]
        exact mem_promote_self
      · exact hmem
    rw [orderedPoolFor, orderedPoolFor, switch_mergedPool hpeers hkept, sortByKey_switch_iff hmerged, mergedPool_eq,
      mergedWith_eq] at h
    exact ⟨hkept, h.1, h.2.1, h.2.2⟩
  · intro h
    rw [orderedPoolFor, orderedPoolFor, switch_mergedPool hpeers h.kept, sortByKey_switch_iff hmerged, mergedPool_eq,
      mergedWith_eq]
    exact ⟨h.first, h.unknown, h.candidates⟩

/-- With the cursor in the pool of a port, Enter selects from its rows. -/
theorem networkEnter_peer {tab : NetworkTab} {st : UIState} {idx : Nat} (h : tab.networkPeerCursor = some (port, idx)) :
    (tab.networkEnter st).1 = (st.orderedPoolFor port)[idx]?.map fun p => (port, p) := by
  simp [NetworkTab.networkEnter, h]

/-- A switch of the exit leaves the rows, and what Enter selects at every row, as they were exactly if the rows stay. -/
theorem orderedPoolFor_switch_iff {cap : Nat} (hp : p ∈ ui.state.orderedPoolFor port)
    (hpeers : peers.map (·.peerId) = promote cap p (ui.state.stickyPool port)) :
    ((ui.switch port p source peers).state.orderedPoolFor port = ui.state.orderedPoolFor port ↔
      ui.state.RowsStay port p peers) ∧
    ((∀ (tab : NetworkTab) idx, tab.networkPeerCursor = some (port, idx) →
        (tab.networkEnter (ui.switch port p source peers).state).1 = (tab.networkEnter ui.state).1) ↔
      ui.state.RowsStay port p peers) := by
  have hrows : ui.state.orderedPoolFor port = (ui.switch port p source peers).state.orderedPoolFor port ↔
      ui.state.RowsStay port p peers := orderedPoolFor_eq_iff hp hpeers
  refine ⟨eq_comm.trans hrows, ?_⟩
  rw [← hrows]
  constructor
  · intro h
    refine List.ext_getElem? fun idx => ?_
    have htab :=
      h { servers := [], networkSelectedIdx := 0, networkExpanded := ∅, networkPeerCursor := some (port, idx) }
      idx rfl
    rw [networkEnter_peer rfl, networkEnter_peer rfl] at htab
    have hinj : Function.Injective fun q : PeerId => (port, q) := fun _ _ hpair => (Prod.mk.inj hpair).2
    exact (Option.map_injective hinj htab).symm
  · intro h tab idx hcursor
    rw [networkEnter_peer hcursor, networkEnter_peer hcursor, h]

/-- The adoption of an exit announces a switch to it, with the exit moved to the front of the remembered pool. -/
theorem adoptSpecific_switch {S : Type} [StickyStore S] [LawfulStickyStore S] {server : Server}
    {a a' : DiscoveryActor S}
    {tr : List Io} {u : Unit} (h : Runs (DiscoveryActor.adoptSpecific server p source) a tr u a')
    (hshown : ui.state.stickyPool server.port = exitPool server a.sticky) :
    ∃ peers, peers.map (·.peerId) = promote server.pool.maxTotal p (ui.state.stickyPool server.port) ∧
      (tr.filterMap Io.emitted).foldl handleSwarmEvents ui = ui.switch server.port p source peers := by
  obtain ⟨now, s₁, rfl, rfl, rfl⟩ := DiscoveryActor.runs_adoptSpecific h
  refine ⟨_, ?_, rfl⟩
  rw [DiscoveryActor.snapshot_map_peerId, exitPool_remember, hshown]

/-! ### Examples -/

/-- Three remembered exits, and the first one is active. -/
def standbyUi : Ui :=
  [Events.stickyPool 8080 [⟨⟨[1]⟩, []⟩, ⟨⟨[2]⟩, []⟩, ⟨⟨[3]⟩, []⟩],
    .activeDestination 8080 (some ⟨[1]⟩) (some .sticky)].foldl
    handleSwarmEvents .new

/-- A switch to the second exit moves no row. -/
theorem orderedPoolFor_switch_iff_second :
    (standbyUi.switch 8080 ⟨[2]⟩ .manual [⟨⟨[2]⟩, []⟩, ⟨⟨[1]⟩, []⟩, ⟨⟨[3]⟩, []⟩]).state.orderedPoolFor 8080 =
      standbyUi.state.orderedPoolFor 8080 :=
  (orderedPoolFor_switch_iff (by decide) (show _ = promote 30 _ _ by decide)).1.2
    ⟨by decide, by decide, by decide, by decide⟩

/-- A switch to the third exit moves it above the second. -/
theorem switch_moves_rows :
    standbyUi.state.orderedPoolFor 8080 = [⟨[1]⟩, ⟨[2]⟩, ⟨[3]⟩] ∧
    (standbyUi.switch 8080 ⟨[3]⟩ .manual [⟨⟨[3]⟩, []⟩, ⟨⟨[1]⟩, []⟩, ⟨⟨[2]⟩, []⟩]).state.orderedPoolFor 8080 =
      [⟨[1]⟩, ⟨[3]⟩, ⟨[2]⟩] := by
  decide

end Ui

end P2Proxy
