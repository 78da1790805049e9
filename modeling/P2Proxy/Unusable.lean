import P2Proxy.PortView

/-!
# The unusable peer

A peer that cannot serve is dropped from every pool, and the ports that it was serving are connected anew.  Nothing
keeps this connect, or a later one, from ending with the same peer.  `unusable_out_iff` says when the peer stays out:
exactly as long as the dialer does not name it again.
-/

namespace P2Proxy

open Interaction

variable {S : Type} [StickyStore S] [LawfulStickyStore S] {server : Server} {s s' : S} {t tr : List Io} {p : PeerId}

theorem namedPeers_subset (h : t <:+: tr) : namedPeers t ⊆ namedPeers tr := (h.sublist.filterMap _).subset

/-- A connect brings a peer into the pool only if the dialer names it. -/
theorem connect_notMem {relayAddress : Multiaddr} {avoid : Option PeerId} {r : Except ConnectError ConnectedDestination}
    (hs : p ∉ exitPool server s) (ht : p ∉ namedPeers t)
    (h : Runs (connect relayAddress server avoid : M S _) s t r s') : p ∉ exitPool server s' := by
  refine connect_obeys (R := fun s t s' => p ∉ namedPeers t → p ∉ exitPool server s → p ∉ exitPool server s')
    { refl := fun _ _ h => h
      trans := ?_
      call := fun _ _ _ h => h
      pool := fun _ s _ h => by rwa [exitPool_pool]
      forget := fun _ s q _ h hm => ?_
      adopt := ?_ } avoid _ _ _ _ h ht hs
  · intro s t₁ s₁ t₂ s' h₁ h₂ ht hs
    rw [namedPeers_append, List.mem_append, not_or] at ht
    exact h₂ ht.2 (h₁ ht.1 hs)
  · rw [exitPool_forgetPeer] at hm
    exact h (List.mem_of_mem_filter hm)
  · intro _ s t s₁ q now hR hq ht hs hm
    rw [namedPeers_append, List.mem_append, not_or] at ht
    rw [exitPool_remember] at hm
    rcases mem_of_mem_promote hm with rfl | hm
    · exact ht.1 (mem_of_lastNamed hq)
    · exact hR ht.1 hs hm

/-- `p` is neither the exit of a port nor in its pool. -/
structure PortView.Lacks (p : PeerId) (v : PortView) : Prop where
  exit_ne : v.exit ≠ some p
  notMem : p ∉ v.pool

namespace DiscoveryActor

variable {ctx : Context} {a a' : DiscoveryActor S} {v v' : PortView} {l : Label} {event : DiscoveryEvent}
  {direct : Finset PeerId} {port : Port} {avoid r : Option PeerId}

/-! ### As long as the peer is not named -/

theorem Reconnected.lacks {relayAddress : Multiaddr} (hv : p ∉ v.pool) (ht : p ∉ namedPeers t)
    (h : Reconnected S relayAddress server avoid t v v') : v'.Lacks p := by
  obtain ⟨s, s', result, hc, hpool, rfl⟩ := h
  rw [hpool] at hv
  refine ⟨fun hexit => ?_, connect_notMem hv ht hc⟩
  rw [← connect_lastNamed hc] at hexit
  exact ht (mem_of_lastNamed hexit)

omit [StickyStore S] [LawfulStickyStore S] in
/-- A port that has adopted another peer lacks `p` if its pool did. -/
private theorem lacks_promote {cap : Nat} {y : PeerId} {pool : List PeerId} (hne : y ≠ p) (hpool : p ∉ pool) :
    PortView.Lacks p { exit := some y, pool := promote cap y pool } := by
  refine ⟨fun he => hne (Option.some.inj he), fun hm => ?_⟩
  rcases mem_of_mem_promote hm with rfl | hm
  · exact hne rfl
  · exact hpool hm

/-- A port lacks an unnamed peer after the peer was reported unusable, and after every event if it did before. -/
theorem PortEffect.lacks (hv : v.Lacks p ∨ event = .peerUnusable p) (htr : p ∉ namedPeers tr)
    (h : PortEffect S ctx server direct tr v v' event) : v'.Lacks p := by
  have hpart : ∀ {t}, t <:+: tr → p ∉ namedPeers t := fun ht hp => htr (namedPeers_subset ht hp)
  have hpool : p ∉ poolFor v.pool event := by
    rcases hv with hv | rfl
    · exact fun hm => hv.notMem ((poolFor_sublist _ _).subset hm)
    · simp [poolFor]
  rcases h.cases with ⟨rfl, hexit⟩ | ⟨peer, rfl, rfl⟩ | ⟨avoid, t, ht, hr⟩ | ⟨y, rfl, hy⟩
  · refine ⟨?_, hpool⟩
    rcases hv with hv | he
    · exact hv.exit_ne
    · exact hexit p he
  · exact ⟨by simp, hpool⟩
  · exact hr.lacks hpool (hpart ht)
  · -- the peer that is adopted is a member of the pool, or was named
    rcases hy with ⟨address, rfl, -, hmem⟩ | ⟨peer, t, address, rfl, ht, hreach⟩
    · exact lacks_promote (fun he => hpool (he ▸ hmem)) hpool
    · refine lacks_promote ?_ hpool
      rintro rfl
      exact hpart ht (by simp [hreach.namedPeers_eq])

/-- `p` is in the pool of no configured server and the exit of no port. -/
structure Out (ctx : Context) (p : PeerId) (a : DiscoveryActor S) : Prop where
  notMem : ∀ server ∈ ctx.servers, p ∉ exitPool server a.sticky
  exit_ne : ∀ port, a.destination port ≠ some p

/-- A peer that is not named is out once it was reported unusable, and stays out. -/
theorem Step.out (hdistinct : (ctx.servers.map (·.port)).Nodup) (hhandles : Handles ctx a)
    (ha : Out ctx p a ∨ l.event = .peerUnusable p) (hl : p ∉ namedPeers l.trace) (h : Step ctx a l a') :
    Out ctx p a' := by
  have hlacks : ∀ server ∈ ctx.servers, (portView server a').Lacks p := by
    intro server hserver
    have heffect := h.portEffect (Context.server?_of_mem hdistinct hserver) (hhandles.mem_ports hserver)
    exact heffect.lacks (ha.imp_left fun ha => ⟨ha.exit_ne _, ha.notMem server hserver⟩) hl
  refine ⟨fun server hserver => (hlacks server hserver).notMem, fun port hexit => ?_⟩
  have hport := Destinations.mem_ports_of_active hexit
  rw [h.ports_eq, hhandles port] at hport
  obtain ⟨server, hserver, rfl⟩ := List.mem_map.1 hport
  exact (hlacks server hserver).exit_ne hexit

/-! ### When the peer is named -/

/-- Of the turns of a loop over ports the one in which the peer is named settles the exit of its port. -/
private theorem forM_not_out {f : Port → M (DiscoveryActor S) Unit} {ports : List Port} {tr : List Io}
    (hsame : ∀ {q port : Port} {b b' : DiscoveryActor S} {t}, q ≠ port → Runs (f port) b t () b' →
      SamePort (discoveryServer q) b b')
    (hown : ∀ {port : Port} {b b' : DiscoveryActor S} {t}, Handles ctx b → Runs (f port) b t () b' → p ∈ namedPeers t →
      b'.destination port = some p)
    (hnodup : ports.Nodup) (ha : Handles ctx a) (h : Runs (ports.forM f) a tr () a') (hp : p ∈ namedPeers tr) :
    ¬Out ctx p a' := by
  intro hout
  obtain ⟨e, he, hep⟩ := mem_namedPeers.1 hp
  obtain ⟨port, -, b, t, b', het, hab, hr, hba⟩ := runs_forM_of_mem_trace
    (I := fun q => SamePort (discoveryServer q)) (fun _ => SamePort.refl) (fun _ _ _ _ => SamePort.trans)
    (fun q port hne _ _ _ hr => hsame (Ne.symm hne) hr) hnodup h he
  have hb : Handles ctx b := fun q => hab.ports_eq ▸ ha q
  have hexit : b'.destination port = some p := hown hb hr (mem_namedPeers.2 ⟨e, het, hep⟩)
  have hkept : a'.destination port = b'.destination port := congrArg PortView.exit hba.view_eq
  exact hout.exit_ne port (hkept.trans hexit)

omit [LawfulStickyStore S] in
/-- A rotation dials nobody. -/
private theorem rotations_namedPeers {candidate : PeerId} {ports : List Port} {tr : List Io}
    (h : Runs (ports.forM (rotatePort ctx candidate)) a tr () a') : namedPeers tr = [] := by
  refine Obeys.forM (R := fun _ t _ => namedPeers t = [])
    ⟨fun _ => rfl, fun h₁ h₂ => by rw [namedPeers_append, h₁, h₂]; rfl⟩ _ (fun port _ b t _ b' hr => ?_) _ _ _ _ h
  rcases rotatePort_cases hr with ⟨-, rfl, -⟩ | ⟨_, _, -, -, ⟨-, rfl, -⟩ | ⟨-, hr⟩⟩
  · rfl
  · rfl
  · obtain ⟨now, s₁, -, rfl, -⟩ := runs_adoptSpecific hr
    rfl

section Named

variable (hunpinned : ∀ server ∈ ctx.servers, server.peerOptions.pinned = [])

include hunpinned

omit [LawfulStickyStore S] in
/-- Without pins the peer that the dialer names in a discovery is the exit at its end. -/
theorem discover_named (hhandles : Handles ctx a) (h : Runs (discover ctx port avoid) a tr r a')
    (hp : p ∈ namedPeers tr) : a'.destination port = some p := by
  rcases runs_discover.1 h with ⟨-, rfl, -⟩ | ⟨server, t, result, s₁, hs, hc, rfl, -, rfl⟩
  · cases hp
  · have hserver := Context.mem_of_server? hs
    obtain rfl := Context.port_of_server? hs
    have hnamed : p ∈ (resultPeer result).toList := by
      unfold connect at hc
      rw [if_pos (hunpinned server hserver)] at hc
      rw [← connectDiscovered_namedPeers hc]
      simpa [namedPeers, Io.named] using hp
    rw [Option.mem_toList] at hnamed
    exact (Destinations.active_set_self (hhandles.mem_ports hserver)).trans hnamed

omit [LawfulStickyStore S] in
theorem closePort_named {peer : PeerId} {u : Unit} (hhandles : Handles ctx a)
    (h : Runs (closePort ctx peer port) a tr u a') (hp : p ∈ namedPeers tr) : a'.destination port = some p := by
  rcases closePort_cases h with ⟨checks, now, t, r, rfl, hchecks, hd⟩ | ⟨last, n, -, -, rfl, -⟩
  · refine discover_named hunpinned (by exact hhandles) hd ?_
    have hnone : namedPeers checks = [] := by
      rcases hchecks with ⟨-, rfl⟩ | ⟨last, n, -, rfl, -⟩ <;> rfl
    rw [namedPeers_append, hnone] at hp
    exact hp
  · exfalso
    split at hp <;> cases hp

/-- A peer that the dialer names in the handling of an event is not out. -/
theorem Step.not_out (hhandles : Handles ctx a) (h : Step ctx a l a') (hp : p ∈ namedPeers l.trace) :
    ¬Out ctx p a' := by
  obtain ⟨event, tr⟩ := l
  cases event with
  | discoverFor port =>
    obtain ⟨r, hd⟩ := step_discoverFor.1 h
    exact fun hout => hout.exit_ne port (discover_named hunpinned hhandles hd hp)
  | requestNewPeer port =>
    obtain ⟨t, r, rfl, hd⟩ := step_requestNewPeer.1 h
    have hpt : p ∈ namedPeers t := by simpa [namedPeers, Io.named] using hp
    exact fun hout => hout.exit_ne port (discover_named hunpinned hhandles hd hpt)
  | peerClosed peer =>
    exact forM_not_out (fun hne hr => closePort_same (by exact hne) hr) (closePort_named hunpinned)
      (a.destinations.nodup.filter _) (by exact hhandles) (step_peerClosed.1 h) hp
  | peerUnusable peer =>
    obtain ⟨t, rfl, hturns⟩ := step_peerUnusable_cases h
    have hpt : p ∈ namedPeers t := by simpa [namedPeers, Io.named, Function.comp_def] using hp
    refine forM_not_out (fun hne hr => ?_) (fun hb hr => ?_) (a.destinations.nodup.filter _) (by exact hhandles)
      hturns hpt
    · obtain ⟨r, hd⟩ := runs_discard.1 hr
      exact discover_same (by exact hne) hd
    · obtain ⟨r, hd⟩ := runs_discard.1 hr
      exact discover_named hunpinned hb hd
  | peerConnected peer address relayed =>
    exfalso
    cases relayed with
    | true =>
      obtain ⟨rfl, -⟩ := step_peerConnected_relayed.1 h
      cases hp
    | false =>
      rw [rotations_namedPeers (step_peerConnected_direct.1 h)] at hp
      cases hp
  | selectPeer port peer =>
    rcases step_selectPeer_cases h with ⟨-, rfl, -⟩ | ⟨server, o, t, t', hs, rfl, hreach, ho⟩
    · cases hp
    · rw [namedPeers_append, hreach.namedPeers_eq, List.mem_append] at hp
      cases o with
      | none =>
        obtain ⟨⟨message, rfl⟩, -⟩ := ho
        rcases hp with hp | hp <;> cases hp
      | some y =>
        obtain ⟨now, s₁, rfl, rfl, rfl⟩ := runs_adoptSpecific ho
        obtain rfl : p = y := by
          rcases hp with hp | hp
          · exact List.mem_singleton.1 hp
          · cases hp
        intro hout
        -- the peer that was selected is in the pool of its port
        refine hout.notMem server (Context.mem_of_server? hs) ?_
        rw [exitPool_remember]
        exact mem_promote_self

end Named

/-- The unusable peer, exactly.  Whatever events follow its report, the peer is in no pool and on no port after the
report and after each of them, if and only if the dialer names it in the handling of none. -/
theorem unusable_out_iff (hdistinct : (ctx.servers.map (·.port)).Nodup)
    (hunpinned : ∀ server ∈ ctx.servers, server.peerOptions.pinned = []) (hhandles : Handles ctx a) {ls : List Label}
    (h : Reaches (Step ctx) a (⟨.peerUnusable p, tr⟩ :: ls) a') :
    Throughout (Step ctx) (fun _ _ b => Out ctx p b) a (⟨.peerUnusable p, tr⟩ :: ls) ↔
      ∀ l ∈ (⟨.peerUnusable p, tr⟩ : Label) :: ls, p ∉ namedPeers l.trace := by
  have hdet : ∀ (a : DiscoveryActor S) l a₁ a₂, Step ctx a l a₁ → Step ctx a l a₂ → a₁ = a₂ :=
    fun _ _ _ _ => Step.deterministic
  obtain ⟨b, hb, hr⟩ := reaches_cons.1 h
  rw [throughout_cons hdet hb, List.forall_mem_cons]
  have hreport : Out ctx p b ↔ p ∉ namedPeers tr :=
    ⟨fun hout hp => hb.not_out hunpinned hhandles hp hout, fun hp => hb.out hdistinct hhandles (.inr rfl) hp⟩
  have hhandles' : Handles ctx b := fun port => hb.ports_eq ▸ hhandles port
  rw [hreport]
  refine and_congr_right fun hp => ?_
  rw [← reaches_guarded_iff hr]
  refine throughout_iff (J := fun c => Handles ctx c ∧ Out ctx p c) hdet ?_ ?_ ⟨hhandles', hreport.2 hp⟩ hr
  · rintro c l c' ⟨hc, -⟩ hs hout
    exact ⟨fun port => hs.ports_eq ▸ hc port, hout⟩
  · rintro c l c' ⟨hc, hout⟩ hs
    exact ⟨fun hout' hp => hs.not_out hunpinned hc hp hout', fun hp => hs.out hdistinct hc (.inl hout) hp⟩

section Fixture

private def unpinned : Context := dummyContext [discoveryServer 1080]

/-- The hub's candidate is `peer`, and it can be reached. -/
private def offers (peer : PeerId) : World :=
  { routes := [], candidates := [⟨peer, []⟩], online := [peer], connected := [] }

private def after (peer : PeerId) (event : DiscoveryEvent) (a : DiscoveryActor StickyState) :
    List Io × Unit × DiscoveryActor StickyState :=
  exec (offers peer).answer (handle unpinned event) a

private def dark : DiscoveryActor StickyState := new .empty (.dark [1080] nodup_onePort)

/-- The port is served by `[1]`. -/
private def servedByOne : DiscoveryActor StickyState := (after ⟨[1]⟩ (.discoverFor 1080) dark).2.2

private theorem after_step (peer : PeerId) (event : DiscoveryEvent) (a : DiscoveryActor StickyState) :
    Step unpinned a ⟨event, (after peer event a).1⟩ (after peer event a).2.2 := exec_runs _ _ _

/-- The unusable peer is out if the hub offers another one. -/
theorem unusable_out_iff_replaced :
    Throughout (Step unpinned) (fun _ _ b => Out unpinned ⟨[1]⟩ b) servedByOne
      [⟨.peerUnusable ⟨[1]⟩, (after ⟨[2]⟩ (.peerUnusable ⟨[1]⟩) servedByOne).1⟩] :=
  (unusable_out_iff (by decide) (by simp [unpinned, dummyContext, discoveryServer, options, ServerPeerOptions.pinned])
    (fun port => Iff.rfl) (.cons (after_step ⟨[2]⟩ (.peerUnusable ⟨[1]⟩) servedByOne) (.nil _))).2 (by decide)

/-- The hub offers the peer that was just reported unusable, and the port is served by it again. -/
theorem unusable_taken_again : ∃ tr a, Step unpinned servedByOne ⟨.peerUnusable ⟨[1]⟩, tr⟩ a ∧
    Reaches (Step unpinned) dark [⟨.discoverFor 1080, (after ⟨[1]⟩ (.discoverFor 1080) dark).1⟩] servedByOne ∧
    a.destination 1080 = some ⟨[1]⟩ ∧ (⟨[1]⟩ : PeerId) ∈ exitPool (discoveryServer 1080) a.sticky :=
  ⟨_, _, after_step ⟨[1]⟩ (.peerUnusable ⟨[1]⟩) servedByOne, .cons (after_step ⟨[1]⟩ (.discoverFor 1080) dark) (.nil _),
    by decide, by decide⟩

end Fixture

end DiscoveryActor

end P2Proxy
