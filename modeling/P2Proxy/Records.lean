import P2Proxy.PinnedConnect
import P2Proxy.Rediscovery
import P2Proxy.Interaction.Once

/-!
# Where the records come from

The sticky store outlives the program, and what it holds is acted on again: its peers are reached first, at the
addresses recorded for them.  In every run a peer that comes into the pool of a server was the exit of its port
(`remembered_served`), and an address that comes to be recorded for a peer is one on which the peer has connected
directly (`recorded_announced`).
-/

namespace P2Proxy

open Interaction

variable {S : Type} [StickyStore S] [LawfulStickyStore S] {relayAddress : Multiaddr} {server : Server} {s s' : S}
  {tr : List Io} {q : PeerId}

/-! ### Peers -/

/-- Of the peers of the new pool all were in the old one or are named, and they are no more than fit. -/
def Grows (server : Server) (named pool pool' : List PeerId) : Prop :=
  (∀ q ∈ pool', q ∈ pool ∨ q ∈ named) ∧ pool'.length ≤ max pool.length (max 1 server.pool.maxTotal)

namespace Grows

variable {named named' pool pool' pool'' : List PeerId}

theorem refl : Grows server named pool pool := ⟨fun _ h => .inl h, le_max_left ..⟩

theorem trans (h : Grows server named pool pool') (h' : Grows server named pool' pool'') :
    Grows server named pool pool'' := by
  refine ⟨fun q hq => ?_, ?_⟩
  · rcases h'.1 q hq with hq | hq
    · exact h.1 q hq
    · exact .inr hq
  · have hlen := h.2
    have hlen' := h'.2
    omega

theorem mono (h : Grows server named pool pool') (hnamed : named ⊆ named') : Grows server named' pool pool' :=
  ⟨fun q hq => (h.1 q hq).imp_right (@hnamed q), h.2⟩

theorem of_sublist (h : pool'.Sublist pool) : Grows server named pool pool' :=
  ⟨fun _ hq => .inl (h.subset hq), h.length_le.trans (le_max_left ..)⟩

theorem promoted (hq : q ∈ named) : Grows server named pool (promote server.pool.maxTotal q pool) := by
  refine ⟨fun p hp => ?_, length_promote_le.trans (le_max_right ..)⟩
  rcases mem_of_mem_promote hp with rfl | hp
  · exact .inr hq
  · exact .inl hp

end Grows

/-- The connect flow adds only peers that the dialer has named. -/
private theorem growsLaw :
    ConnectLaw server fun (s : S) t s' => Grows server (namedPeers t) (exitPool server s) (exitPool server s') where
  refl _ := .refl
  trans h h' := by
    rw [namedPeers_append]
    exact (h.mono (List.subset_append_left ..)).trans (h'.mono (List.subset_append_right ..))
  call _ _ := .refl
  pool _ s := by
    rw [exitPool_pool]
    exact .refl
  forget _ s p := by
    rw [exitPool_forgetPeer]
    exact .of_sublist List.filter_sublist
  adopt _ _ _ _ _ _ h hp := by
    rw [exitPool_remember, namedPeers_append]
    exact (h.trans (.promoted (mem_of_lastNamed hp))).mono (List.subset_append_left ..)

/-- A connect adds nobody to the pool but the exit that it returns. -/
theorem connect_grows {avoid : Option PeerId} {r : Except ConnectError ConnectedDestination}
    (h : Runs (connect relayAddress server avoid : M S _) s tr r s') :
    Grows server (resultPeer r).toList (exitPool server s) (exitPool server s') := by
  have hdiscovered : ∀ {avoid tr s s'}, Runs (connectDiscovered relayAddress server avoid : M S _) s tr r s' →
      Grows server (resultPeer r).toList (exitPool server s) (exitPool server s') := by
    intro avoid tr s s' h
    rw [← connectDiscovered_namedPeers h]
    exact growsLaw.connectDiscovered avoid _ _ _ _ h
  unfold connect at h
  split at h
  · exact hdiscovered h
  · rcases connectPinned_segment h with ⟨rfl, -⟩ | ⟨-, t₁, t₂, -, -, -, hd⟩
    · exact .refl
    · exact hdiscovered hd

namespace DiscoveryActor

variable {ctx : Context} {a a' : DiscoveryActor S} {v v' : PortView} {l : Label} {ls : List Label}
  {event : DiscoveryEvent}
  {direct : Finset PeerId} {port : Port} {peer : PeerId} {address : Multiaddr}

/-- An event adds nobody to the pool of a port but the new exit. -/
theorem PortEffect.grows (h : PortEffect S ctx server direct tr v v' event) :
    Grows server v'.exit.toList v.pool v'.pool := by
  rcases h.cases with ⟨rfl, -⟩ | ⟨-, -, rfl⟩ | ⟨avoid, t, -, s, s', result, hc, hpool, rfl⟩ | ⟨y, rfl, -⟩
  · exact .of_sublist (poolFor_sublist ..)
  · exact .refl
  · have hgrows := connect_grows hc
    rw [← hpool] at hgrows
    exact Grows.trans (.of_sublist (poolFor_sublist ..)) hgrows
  · exact .promoted (List.mem_singleton_self y)

/-- Whoever is remembered at the end of a run was remembered at first, or was the exit of the port since; and there are
no more than at first or than fit. -/
theorem remembered_served (hdistinct : (ctx.servers.map (·.port)).Nodup) (hserver : server ∈ ctx.servers)
    (hhandles : Handles ctx a) (h : Reaches (Step ctx) a ls a') :
    (∀ q ∈ exitPool server a'.sticky, q ∈ exitPool server a.sticky ∨
      Once (Step ctx) (fun b => b.destination server.port = some q) a ls) ∧
    (exitPool server a'.sticky).length ≤ max (exitPool server a.sticky).length (max 1 server.pool.maxTotal) := by
  have hgrows : ∀ (b : DiscoveryActor S) l b', Handles ctx b → Step ctx b l b' →
      Grows server (b'.destination server.port).toList (exitPool server b.sticky) (exitPool server b'.sticky) :=
    fun b l b' hb hl => (hl.portEffect (Context.server?_of_mem hdistinct hserver) (hb.mem_ports hserver)).grows
  have hkept : ∀ (b : DiscoveryActor S) l b', Handles ctx b → Step ctx b l b' → Handles ctx b' :=
    fun b l b' hb hl port => hl.ports_eq ▸ hb port
  constructor
  · intro q hq
    refine h.once (fun (b : DiscoveryActor S) q => q ∈ exitPool server b.sticky)
      (fun q b => b.destination server.port = some q) hkept (fun b l b' q hb hl hq => ?_) hhandles hq
    exact ((hgrows b l b' hb hl).1 q hq).imp_right fun hexit => .inr (Option.mem_toList.1 hexit)
  · have hbound := h.invariant (I := fun b => Handles ctx b ∧
      (exitPool server b.sticky).length ≤ max (exitPool server a.sticky).length (max 1 server.pool.maxTotal))
      (fun b l b' hb hl => ⟨hkept b l b' hb.1 hl, ?_⟩) ⟨hhandles, le_max_left ..⟩
    · exact hbound.2
    · have hlen := (hgrows b l b' hb.1 hl).2
      have hfirst := hb.2
      omega

end DiscoveryActor

/-! ### Addresses -/

namespace StickyState

variable {s : StickyState} {port p : Port} {fp : String} {peer q : PeerId} {address addr : Multiaddr}
  {now : DateTime} {max : Nat}

/-- `address` is recorded for `peer` in the pool of `port`. -/
def Records (s : StickyState) (port : Port) (peer : PeerId) (address : Multiaddr) : Prop :=
  ∃ pool ∈ s.pools port, ∃ e ∈ pool.peers, e.peerId = peer ∧ e.address = some address

/-- What is recorded in a pool that replaces the one of `p`. -/
private theorem records_update {o : Option StickyPool}
    (h : Records { pools := Function.update s.pools p o } port peer address) :
    Records s port peer address ∨ port = p ∧ ∃ pool ∈ o, ∃ e ∈ pool.peers, e.peerId = peer ∧
      e.address = some address := by
  obtain ⟨pool, hpool, he⟩ := h
  change pool ∈ Function.update s.pools p o port at hpool
  by_cases hp : port = p
  · subst hp
    rw [Function.update_self] at hpool
    exact .inr ⟨rfl, pool, hpool, he⟩
  · rw [Function.update_of_ne hp] at hpool
    exact .inl ⟨pool, hpool, he⟩

theorem records_pool (h : (s.pool p fp).2.Records port peer address) : s.Records port peer address := by
  unfold pool at h
  split at h
  · exact h
  · split at h
    · exact h
    · rcases records_update h with h | ⟨-, pool, hpool, -⟩
      · exact h
      · cases hpool

theorem records_forgetPeer (h : (s.forgetPeer p q).Records port peer address) : s.Records port peer address := by
  unfold forgetPeer at h
  split at h
  · exact h
  · rename_i old hold
    rcases records_update h with h | ⟨rfl, pool, hpool, e, he, hrecord⟩
    · exact h
    · split at hpool
      · cases hpool
      · cases hpool
        exact ⟨old, hold, e, List.mem_of_mem_filter he, hrecord⟩

/-- Remembering keeps the address of an entry, and an entry that is added has none. -/
theorem records_remember (h : (s.remember now p fp q max).2.Records port peer address) :
    s.Records port peer address := by
  rcases records_update h with h | ⟨rfl, pool, hpool, e, he, hrecord⟩
  · exact h
  cases hpool
  -- the pool that is worked on is the one of the port, or empty
  have hold : ∀ e ∈ (if ((s.pools port).getD { fingerprint := fp, peers := [] }).fingerprint ≠ fp then
      ({ fingerprint := fp, peers := [] } : StickyPool)
      else (s.pools port).getD { fingerprint := fp, peers := [] }).peers, ∃ pool ∈ s.pools port, e ∈ pool.peers := by
    intro e he
    cases hpool : s.pools port with
    | none => simp [hpool] at he
    | some pool =>
      refine ⟨pool, rfl, ?_⟩
      rw [hpool, Option.getD_some] at he
      split at he
      · cases he
      · exact he
  rcases List.mem_cons.1 (List.mem_of_mem_take he) with rfl | hrest
  · obtain ⟨hpeer, haddress⟩ := hrecord
    cases hfind : List.find? (fun e : StickyPeer => decide (e.peerId = q)) _ with
    | none =>
      rw [hfind] at haddress
      cases haddress
    | some e =>
      rw [hfind] at hpeer haddress
      obtain ⟨pool, hpool, hmem⟩ := hold e (List.mem_of_find?_eq_some hfind)
      exact ⟨pool, hpool, e, hmem, hpeer, haddress⟩
  · obtain ⟨pool, hpool, hmem⟩ := hold e (List.mem_of_mem_eraseP hrest)
    exact ⟨pool, hpool, e, hmem, hrecord⟩

private theorem mem_noteEntry {e : StickyPeer} {l : List StickyPeer} (h : e ∈ noteEntry q addr l) :
    e ∈ l ∨ e.peerId = q ∧ e.address = some addr := by
  induction l with
  | nil => cases h
  | cons first l ih =>
    rw [noteEntry] at h
    split at h
    · rename_i hfirst
      rcases List.mem_cons.1 h with rfl | h
      · split
        · exact .inr ⟨hfirst, rfl⟩
        · exact .inl (List.mem_cons_self ..)
      · exact .inl (List.mem_cons_of_mem _ h)
    · rcases List.mem_cons.1 h with rfl | h
      · exact .inl (List.mem_cons_self ..)
      · exact (ih h).imp_left (List.mem_cons_of_mem _)

theorem records_noteDirectAddress (h : (s.noteDirectAddress q addr).Records port peer address) :
    s.Records port peer address ∨ peer = q ∧ address = addr := by
  obtain ⟨pool, hpool, e, he, hpeer, haddress⟩ := h
  obtain ⟨old, hold, rfl⟩ := Option.map_eq_some_iff.1 hpool
  rcases mem_noteEntry he with hmem | ⟨hq, haddr⟩
  · exact .inl ⟨old, hold, e, hmem, hpeer, haddress⟩
  · rw [haddr] at haddress
    exact .inr ⟨hpeer.symm.trans hq, (Option.some.inj haddress).symm⟩

end StickyState

/-- Every record of the second store is one of the first. -/
structure KeepsRecords (s s' : S) : Prop where
  records : ∀ {port peer address}, (view s').Records port peer address → (view s).Records port peer address

namespace KeepsRecords

theorem refl (s : S) : KeepsRecords s s := ⟨id⟩

theorem trans {s s₁ s' : S} (h : KeepsRecords s s₁) (h' : KeepsRecords s₁ s') : KeepsRecords s s' :=
  ⟨fun hr => h.records (h'.records hr)⟩

theorem pool (port : Port) (fp : String) (s : S) : KeepsRecords s (StickyStore.pool port fp s).2 := by
  refine ⟨fun h => ?_⟩
  rw [LawfulStickyStore.view_pool] at h
  exact StickyState.records_pool h

theorem remember (now : DateTime) (port : Port) (fp : String) (peer : PeerId) (max : Nat) (s : S) :
    KeepsRecords s (StickyStore.remember now port fp peer max s).2 := by
  refine ⟨fun h => ?_⟩
  rw [LawfulStickyStore.view_remember] at h
  exact StickyState.records_remember h

theorem forgetPeer (port : Port) (peer : PeerId) (s : S) : KeepsRecords s (StickyStore.forgetPeer port peer s) := by
  refine ⟨fun h => ?_⟩
  rw [LawfulStickyStore.view_forgetPeer] at h
  exact StickyState.records_forgetPeer h

theorem forgetAll (servers : List Server) (peer : PeerId) (s : S) :
    KeepsRecords s (DiscoveryActor.forgetAll servers peer s) := by
  induction servers generalizing s with
  | nil => exact .refl s
  | cons server servers ih => exact (KeepsRecords.forgetPeer ..).trans (ih _)

/-- The connect flow records no address. -/
theorem connect {avoid : Option PeerId} {r : Except ConnectError ConnectedDestination}
    (h : Runs (P2Proxy.connect relayAddress server avoid : M S _) s tr r s') : KeepsRecords s s' :=
  connect_obeys (R := fun s _ s' => KeepsRecords s s')
    { refl := .refl, trans := .trans, call := fun s _ => .refl s, pool := fun _ s => .pool _ _ s
      forget := fun _ s _ => .forgetPeer _ _ s, adopt := fun _ _ _ _ _ _ h _ => h.trans (.remember ..) } avoid _ _ _ _ h

end KeepsRecords

namespace DiscoveryActor

variable {ctx : Context} {a a' : DiscoveryActor S} {l : Label} {ls : List Label} {port : Port} {peer : PeerId}
  {address : Multiaddr}

private theorem keepsLaw : Law fun (a : DiscoveryActor S) (_ : List Io) a' => KeepsRecords a.sticky a'.sticky :=
  ⟨fun _ => .refl _, .trans⟩

private theorem discover_keeps {avoid r : Option PeerId} (h : Runs (discover ctx port avoid) a tr r a') :
    KeepsRecords a.sticky a'.sticky := by
  rcases runs_discover.1 h with ⟨-, -, -, rfl⟩ | ⟨server, t, result, s₁, -, hc, -, -, rfl⟩
  · exact .refl _
  · exact .connect hc

private theorem adoptSpecific_keeps {source : DestinationSource} {u : Unit}
    (h : Runs (adoptSpecific server peer source : M (DiscoveryActor S) Unit) a tr u a') :
    KeepsRecords a.sticky a'.sticky := by
  obtain ⟨now, s₁, rfl, -, rfl⟩ := runs_adoptSpecific h
  exact .remember ..

/-- Handling an event records no address but the one that a peer has just connected on directly. -/
theorem Step.records (h : Step ctx a l a') (hr : (view a'.sticky).Records port peer address) :
    (view a.sticky).Records port peer address ∨ l.event = .peerConnected peer address false := by
  obtain ⟨event, tr⟩ := l
  cases event with
  | discoverFor q =>
    obtain ⟨r, hd⟩ := step_discoverFor.1 h
    exact .inl ((discover_keeps hd).records hr)
  | requestNewPeer q =>
    obtain ⟨t, r, -, hd⟩ := step_requestNewPeer.1 h
    exact .inl ((discover_keeps hd).records hr)
  | peerClosed closed =>
    have hkept := Obeys.forM keepsLaw _ (fun q _ b t _ b' hr => ?_) _ _ _ _ (step_peerClosed.1 h)
    · exact .inl (hkept.records hr)
    rcases closePort_cases hr with ⟨_, _, _, _, -, -, hd⟩ | ⟨_, _, -, -, -, rfl⟩
    · have hkept := discover_keeps hd
      exact hkept
    · exact .refl _
  | peerUnusable unusable =>
    obtain ⟨t, -, hloop⟩ := step_peerUnusable_cases h
    have hkept := Obeys.forM keepsLaw _ (fun q _ b t _ b' hr => ?_) _ _ _ _ hloop
    · exact .inl ((KeepsRecords.forgetAll ctx.servers unusable _).records (hkept.records hr))
    obtain ⟨r, hd⟩ := runs_discard.1 hr
    exact discover_keeps hd
  | peerConnected connected addr relayed =>
    cases relayed with
    | true =>
      obtain ⟨-, rfl⟩ := step_peerConnected_relayed.1 h
      exact .inl hr
    | false =>
      have hnoted : (view (a.noteDirect connected addr).sticky).Records port peer address := by
        refine (Obeys.forM keepsLaw _ (fun q _ b t _ b' hr => ?_) _ _ _ _ (step_peerConnected_direct.1 h)).records hr
        rcases rotatePort_cases hr with ⟨-, -, rfl⟩ | ⟨_, _, -, rfl, ⟨-, -, rfl⟩ | ⟨-, hr⟩⟩
        · exact .refl _
        · exact .pool ..
        · exact (KeepsRecords.pool ..).trans (adoptSpecific_keeps hr)
      rw [noteDirect, LawfulStickyStore.view_noteDirectAddress] at hnoted
      rcases StickyState.records_noteDirectAddress hnoted with h | ⟨rfl, rfl⟩
      · exact .inl h
      · exact .inr rfl
  | selectPeer q selected =>
    rcases step_selectPeer_cases h with ⟨-, -, rfl⟩ | ⟨_, o, t, t', -, -, -, ho⟩
    · exact .inl hr
    · cases o with
      | none => exact .inl (ho.2 ▸ hr)
      | some y => exact .inl ((adoptSpecific_keeps ho).records hr)

/-- Whatever address is recorded for a peer at the end of a run was recorded at first, or the peer has connected on it
directly since. -/
theorem recorded_announced (h : Reaches (Step ctx) a ls a') (hr : (view a'.sticky).Records port peer address) :
    (view a.sticky).Records port peer address ∨ ∃ l ∈ ls, l.event = .peerConnected peer address false :=
  h.caused (fun a (_ : Unit) => (view a.sticky).Records port peer address)
    (fun _ l => l.event = .peerConnected peer address false) (fun _ _ _ _ hl => hl.records) (x := ()) hr

/-! ### An exit that comes to be directly connected -/

section OneExit

open DiscoverySystem (oneServer oneExit inWorld handles_oneServer)

private def blankActor : DiscoveryActor StickyState := .new .empty (.dark [1080] nodup_onePort)

private def requested : List Io × Unit × DiscoveryActor StickyState :=
  inWorld oneServer oneExit (.requestNewPeer 1080) blankActor

private def upgraded : List Io × Unit × DiscoveryActor StickyState :=
  inWorld oneServer oneExit (.peerConnected ⟨[1]⟩ [.p2p ⟨[1]⟩] false) requested.2.2

private def upgrade : List Label :=
  [⟨.requestNewPeer 1080, requested.1⟩, ⟨.peerConnected ⟨[1]⟩ [.p2p ⟨[1]⟩] false, upgraded.1⟩]

private theorem upgrade_reaches : Reaches (Step oneServer) blankActor upgrade upgraded.2.2 := by
  have hrequest : Step oneServer blankActor ⟨.requestNewPeer 1080, requested.1⟩ requested.2.2 := exec_runs _ _ _
  have hupgrade : Step oneServer requested.2.2 ⟨.peerConnected ⟨[1]⟩ [.p2p ⟨[1]⟩] false, upgraded.1⟩ upgraded.2.2 :=
    exec_runs oneExit.answer _ _
  exact .cons hrequest (.cons hupgrade (.nil _))

theorem remembered_served_upgraded :
    Once (Step oneServer) (fun b => b.destination 1080 = some ⟨[1]⟩) blankActor upgrade :=
  ((remembered_served (by decide) (List.mem_singleton_self (discoveryServer 1080)) handles_oneServer upgrade_reaches).1
    ⟨[1]⟩ (by decide)).resolve_left (by decide)

theorem recorded_announced_upgraded : ∃ l ∈ upgrade, l.event = .peerConnected ⟨[1]⟩ [.p2p ⟨[1]⟩] false := by
  have hrecord : (view upgraded.2.2.sticky).Records 1080 ⟨[1]⟩ [.p2p ⟨[1]⟩] :=
    ⟨_, rfl, _, List.mem_singleton_self _, rfl, rfl⟩
  refine (recorded_announced upgrade_reaches hrecord).resolve_left ?_
  rintro ⟨pool, hpool, -⟩
  cases hpool

end OneExit

end DiscoveryActor

end P2Proxy
