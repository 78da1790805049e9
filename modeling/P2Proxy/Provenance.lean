import P2Proxy.AskedPeer
import P2Proxy.HardPin
import P2Proxy.Records

/-!
# Who may become an exit

An exit comes from somewhere: it is pinned, the hub has offered it for this very server, the operator has selected it,
or it was remembered.  As long as the hub's answers name the peers that they are given for and the dialer is honest,
nobody else ever becomes the exit of a port or gets into its pool.
-/

namespace P2Proxy

open Interaction

namespace Io

/-- The answers of the hub lead to the peers that they are given for, and the dialer is honest. -/
def Genuine : Io → Prop
  | ⟨.resolvePeers peers, .ok routes⟩ =>
    ∀ p as, routes.lookup p = some as → p ∈ peers ∧ ∀ a ∈ as, ∀ q, lastP2p a = some q → q = p
  | ⟨.findNodes _ _, .ok candidates⟩ =>
    ∀ c ∈ candidates, ∀ a ∈ c.addresses, ∀ q, lastP2p a = some q → q = c.peerId
  | ⟨.dialAndWait addresses, .ok (some p)⟩ => p ∈ destinationPeerIds addresses
  | _ => True

/-- The hub offers `p` when it is asked for exits of `server`. -/
def Offers (server : Server) (p : PeerId) : Io → Prop
  | ⟨.findNodes asked _, .ok candidates⟩ => asked = server ∧ p ∈ candidates.map (·.peerId)
  | _ => False

theorem Genuine.dialHonest {e : Io} (h : e.Genuine) : e.DialHonest := by
  obtain ⟨q, x⟩ := e
  cases q with
  | dialAndWait addresses =>
    rcases x with _ | _ | p
    · trivial
    · trivial
    · exact h
  | _ => trivial

theorem Genuine.names {peers : List PeerId} {answer : Except DirectoryError Routes}
    (h : Genuine ⟨.resolvePeers peers, answer⟩) (p : PeerId) : Names answer p := by
  rintro routes as rfl hl
  exact (h p as hl).2

end Io

/-- All that is said in the trace is genuine. -/
def AllGenuine (tr : List Io) : Prop := ∀ e ∈ tr, e.Genuine

namespace AllGenuine

variable {tr t₁ t₂ : List Io}

theorem left (h : AllGenuine (t₁ ++ t₂)) : AllGenuine t₁ := fun e he => h e (List.mem_append_left _ he)

theorem right (h : AllGenuine (t₁ ++ t₂)) : AllGenuine t₂ := fun e he => h e (List.mem_append_right _ he)

theorem part (h : AllGenuine tr) (ht : t₁ <:+: tr) : AllGenuine t₁ := fun e he => h e (ht.subset he)

theorem dialHonest (h : AllGenuine tr) : ∀ e ∈ tr, e.DialHonest := fun e he => (h e he).dialHonest

end AllGenuine

/-- The hub may be asked for exits of the server. -/
def Server.Discovers (server : Server) : Prop :=
  server.peerOptions.pinned = [] ∨ server.peerOptions.fallbackToDiscovery = true

/-- In a network that does not change all is genuine if the hub knows each peer under routes to it. -/
theorem World.allGenuine {σ α : Type} {w : World} {m : M σ α} {s : σ}
    (hroutes : ∀ kv ∈ w.routes, ∀ a ∈ kv.2, ∀ q, lastP2p a = some q → q = kv.1)
    (hcandidates : ∀ c ∈ w.candidates, ∀ a ∈ c.addresses, ∀ q, lastP2p a = some q → q = c.peerId) :
    AllGenuine (exec w.answer m s).1 := by
  intro e he
  obtain ⟨past, q, rfl⟩ := exec_answers he
  cases q with
  | resolvePeers peers =>
    intro p as hl
    obtain ⟨hmem, hasked⟩ := List.mem_filter.1 (Routes.mem_of_lookup_collect hl)
    exact ⟨of_decide_eq_true hasked, hroutes _ hmem⟩
  | findNodes server limit => exact fun c hc => hcandidates c (List.mem_of_mem_take hc)
  | dialAndWait addresses =>
    have hhonest := World.dialHonest _ he
    cases h : w.online.find? (· ∈ destinationPeerIds addresses) with
    | none => simp [World.answer, h, Io.Genuine]
    | some p => simpa [World.answer, h, Io.DialHonest, Io.Genuine] using hhonest
  | _ => trivial

/-- Why `p` may become the exit of `server`. -/
inductive Provenance (server : Server) (known : PeerId → Prop) (tr : List Io) (p : PeerId) : Prop
  | pinned (h : p ∈ server.pinnedPeers)
  | known (h : known p)
  | offered {e : Io} (hasked : server.Discovers) (he : e ∈ tr) (h : e.Offers server p)

namespace Provenance

variable {server : Server} {known known' : PeerId → Prop} {tr tr' : List Io} {p : PeerId}

theorem mono (h : Provenance server known tr p) (hknown : known p → known' p) (htr : tr ⊆ tr') :
    Provenance server known' tr' p := by
  cases h with
  | pinned h => exact .pinned h
  | known h => exact .known (hknown h)
  | offered hasked he h => exact .offered hasked (htr he) h

theorem right {t : List Io} (h : Provenance server known tr p) : Provenance server known (t ++ tr) p :=
  h.mono id (List.subset_append_right ..)

end Provenance

/-! ### One connect -/

variable {S : Type} {relayAddress : Multiaddr} {server : Server} {s s' : S} {tr : List Io} {p y : PeerId}

theorem ReachRun.eq_peer {direct : Option Multiaddr} (hg : AllGenuine tr)
    (h : ReachRun relayAddress direct p tr (some y)) : y = p := by
  obtain ⟨answer, dials, rfl, hd⟩ := h
  have hanswer : Io.Genuine ⟨.resolvePeers [p], answer⟩ := hg _ (List.mem_cons_self ..)
  obtain ⟨a, ha, hay⟩ := hd.exists_route fun e he => (hg e (List.mem_cons_of_mem _ he)).dialHonest
  rcases lastP2p_of_mem_reachRoutes ha with hp | hm
  · rw [hp, Option.some.injEq] at hay
    exact hay.symm
  · obtain ⟨q, as, hl, has⟩ := Routes.mem_flatten.1 hm
    rcases lookup_routesOf hl has with ⟨routes, rfl, hl⟩ | ⟨hasked, hnamed⟩
    · obtain ⟨hasked, hnames⟩ := hanswer q as hl
      exact (hnames a has y hay).trans (List.mem_singleton.1 hasked)
    · rw [hnamed, Option.some.injEq] at hay
      exact hay.symm.trans (List.mem_singleton.1 hasked)

variable [StickyStore S]

private theorem reconnectLoop_eq_peer {n : Nat} {b : Backoff} (hg : AllGenuine tr)
    (h : Runs (reconnectLoop relayAddress server p n b : M S _) s tr (some y) s') : y = p := by
  induction n generalizing s tr b with
  | zero => cases (runs_pure.1 h).2.1
  | succ n ih =>
    obtain ⟨t₁, o, s₁, t₂, rfl, h₁, h₂⟩ := runs_bind.1 h
    obtain ⟨-, hr⟩ := runs_tryReachPeer.1 h₁
    cases o with
    | some z =>
      cases (runs_pure.1 h₂).2.1
      exact hr.eq_peer hg.left
    | none =>
      dsimp only at h₂
      split at h₂
      · obtain ⟨t₃, _, _, t₄, rfl, h₃, h₄⟩ := runs_bind.1 h₂
        exact ih hg.right.right h₄
      · cases (runs_pure.1 h₂).2.1

/-- The candidate that a discovery reaches is one of those that the hub has offered for the server. -/
private theorem discoveryAttempt_offered {fp : String} {d : ConnectedDestination} (hg : AllGenuine tr)
    (h : Runs (discoveryAttempt relayAddress server fp : M S _) s tr (some d) s') :
    ∃ e ∈ tr, Io.Offers server d.peer e := by
  rcases runs_discoveryAttempt.1 h with ⟨_, -, hn, -⟩ | ⟨-, hn, -⟩ | ⟨candidates, o, t₁, t₂, -, rfl, hd, hr, -⟩
  · cases hn
  · cases hn
  · cases o with
    | none => cases hr
    | some peer =>
      cases hr
      refine ⟨_, List.mem_cons_self .., rfl, ?_⟩
      have hcandidates : Io.Genuine ⟨.findNodes server findNodesDiscoveryLimit, .ok candidates⟩ :=
        hg _ (List.mem_cons_self ..)
      obtain ⟨a, ha, hpeer⟩ := hd.exists_route fun e he => (hg e (by simp [he])).dialHonest
      obtain ⟨c, hc, hac⟩ := List.mem_flatMap.1 (List.mem_toFinset.1 ha)
      -- a candidate without addresses is dialled through the relay
      split at hac
      · rw [lastP2p_synthesizeCircuit (Option.mem_toList.1 hac), Option.some.injEq] at hpeer
        exact hpeer ▸ List.mem_map_of_mem hc
      · exact hcandidates c hc a hac peer hpeer ▸ List.mem_map_of_mem hc

private theorem runDiscovery_offered {fp : String} {d : ConnectedDestination} (hg : AllGenuine tr)
    (h : Runs (runDiscovery relayAddress server fp : M S _) s tr (.ok d) s') : ∃ e ∈ tr, Io.Offers server d.peer e := by
  obtain ⟨t₁, o, s₁, t₂, rfl, h₁, h₂⟩ := runs_bind.1 h
  have hfound : AllGenuine t₁ → ∀ d ∈ o, ∃ e ∈ t₁, Io.Offers server d.peer e := by
    refine SearchLaw.attempts
      (P := fun tr (r : Option ConnectedDestination) => AllGenuine tr → ∀ d ∈ r, ∃ e ∈ tr, Io.Offers server d.peer e)
      ⟨by simp, fun _ hrest hg d hd => ?_⟩ (fun s tr r s' hr hg d hd => ?_) h₁
    · obtain ⟨e, he, hoffers⟩ := hrest hg.right d hd
      exact ⟨e, List.mem_append_right _ he, hoffers⟩
    · obtain rfl := Option.mem_def.1 hd
      exact discoveryAttempt_offered hg hr
  cases o with
  | none =>
    obtain ⟨_, _, _, _, rfl, h₃, h₄⟩ := runs_bind.1 h₂
    cases (runs_pure.1 h₄).2.1
  | some c =>
    cases (runs_pure.1 h₂).2.1
    obtain ⟨e, he, hoffers⟩ := hfound hg.left d rfl
    exact ⟨e, List.mem_append_left _ he, hoffers⟩

variable [LawfulStickyStore S]

/-- The member of the pool that is reached is in the pool. -/
private theorem connectStickyPool_known {skip : Option PeerId} (hg : AllGenuine tr)
    (h : Runs (connectStickyPool relayAddress server server.fingerprint skip : M S _) s tr (some y) s') :
    y ∈ exitPool server s := by
  unfold connectStickyPool at h
  split at h
  · obtain ⟨t₁, peers, s₁, t₂, rfl, h₁, h₂⟩ := runs_bind.1 h
    obtain ⟨rfl, rfl, rfl⟩ := runs_modifyGet.1 h₁
    rw [pool_fst_eq_exitPool] at h₂
    refine SearchLaw.findSomeM? (P := fun tr r => AllGenuine tr → ∀ y ∈ r, y ∈ exitPool server s)
      ⟨by simp, fun _ hrest hg => hrest hg.right⟩ (fun q hq s₁ tr r s' hr hg y hy => ?_) h₂ hg.right y rfl
    obtain rfl := Option.mem_def.1 hy
    rcases runs_tryPoolMember.1 hr with ⟨-, -, hn, -⟩ | ⟨-, hreach, -⟩
    · cases hn
    · exact hreach.eq_peer hg ▸ hq
  · cases (runs_pure.1 h).2.1

/-- What is known before the server is connected: its pool, and the exit that it has lost. -/
def KnownTo (server : Server) (s : S) (avoid : Option PeerId) (p : PeerId) : Prop :=
  p ∈ exitPool server s ∨ avoid = some p

private theorem connectPoolOrDiscover_provenance {avoid : Option PeerId} {d : ConnectedDestination}
    (hasked : server.Discovers) (hg : AllGenuine tr)
    (h : Runs (connectPoolOrDiscover relayAddress server server.fingerprint avoid : M S _) s tr (.ok d) s') :
    Provenance server (KnownTo server s avoid) tr d.peer := by
  obtain ⟨t₁, o, s₁, t₂, rfl, h₁, h₂⟩ := runs_bind.1 h
  cases o with
  | some peer =>
    obtain ⟨_, _, _, _, rfl, h₃, h₄⟩ := runs_bind.1 h₂
    cases (runs_pure.1 h₄).2.1
    exact .known (.inl (connectStickyPool_known hg.left h₁))
  | none =>
    obtain ⟨e, he, hoffers⟩ := runDiscovery_offered hg.right h₂
    exact .offered hasked (List.mem_append_right _ he) hoffers

private theorem connectDiscovered_provenance {avoid : Option PeerId} {d : ConnectedDestination}
    (hasked : server.Discovers) (hg : AllGenuine tr)
    (h : Runs (connectDiscovered relayAddress server avoid : M S _) s tr (.ok d) s') :
    Provenance server (KnownTo server s avoid) tr d.peer := by
  unfold connectDiscovered at h
  split at h
  · rename_i old hold
    obtain ⟨hlost, -⟩ := Option.filter_eq_some_iff.1 hold
    obtain ⟨t₁, o, s₁, t₂, rfl, h₁, h₂⟩ := runs_bind.1 h
    cases o with
    | some peer =>
      obtain ⟨_, _, _, _, rfl, h₃, h₄⟩ := runs_bind.1 h₂
      cases (runs_pure.1 h₄).2.1
      exact .known (.inr (reconnectLoop_eq_peer hg.left h₁ ▸ hlost))
    | none =>
      obtain ⟨rfl, -⟩ := reconnectLoop_namedPeers h₁
      obtain ⟨_, _, _, t₃, rfl, h₃, h₄⟩ := runs_bind.1 h₂
      obtain ⟨rfl, rfl⟩ := runs_modify.1 h₃
      refine (connectPoolOrDiscover_provenance hasked hg.right.right h₄).right.right.mono (Or.imp_left fun hp => ?_)
        (List.Subset.refl _)
      rw [exitPool_forgetPeer] at hp
      exact List.mem_of_mem_filter hp
  · exact connectPoolOrDiscover_provenance hasked hg h

/-- A connect returns a pinned peer, one that was known, or one that the hub offers for the server. -/
theorem connect_provenance {avoid : Option PeerId} {d : ConnectedDestination}
    (hentries : ∀ e ∈ server.peerOptions.pinned, e.Coherent) (hg : AllGenuine tr)
    (h : Runs (connect relayAddress server avoid : M S _) s tr (.ok d) s') :
    Provenance server (KnownTo server s avoid) tr d.peer := by
  unfold connect at h
  split at h
  · rename_i hnone
    exact connectDiscovered_provenance (.inl hnone) hg h
  · rcases connectPinned_cases hentries (fun answer he e _ => (hg _ he).names e.peerId) hg.dialHonest h with
      ⟨failed, last, rank, peer, rfl, -, -, -, hw, hr, -⟩ | ⟨hfallback, t₁, t₂, rfl, -, hd⟩ | ⟨-, -, hr, -⟩
    · cases hr
      obtain ⟨answer, pre, e, post, t₁, t₂, checks, hsplit, -, rfl, -⟩ := hw
      exact .pinned (List.mem_map_of_mem (by rw [hsplit]; simp))
    · have hfound := connectDiscovered_provenance (.inr hfallback) hg.right hd
      refine hfound.right.mono (fun hknown => ?_) (List.Subset.refl _)
      exact .inl (hknown.resolve_right (by simp))
    · cases hr

/-! ### Every run -/

namespace DiscoveryActor

variable {ctx : Context} {a a' : DiscoveryActor S} {l : Label} {ls : List Label}

/-- `p` is the exit of the port of `server`, or remembered for it. -/
def Knows (server : Server) (a : DiscoveryActor S) (p : PeerId) : Prop :=
  a.destination server.port = some p ∨ p ∈ exitPool server a.sticky

/-- `p` is selected for the port of `server`, or the hub offers it for the server while the event is handled. -/
def Introduces (server : Server) (p : PeerId) (l : Label) : Prop :=
  l.event = .selectPeer server.port p ∨ server.Discovers ∧ ∃ e ∈ l.trace, Io.Offers server p e

/-- Handling an event makes nobody known who is not pinned and not introduced by it. -/
theorem Step.knows (hserver : ctx.server? server.port = some server) (hport : server.port ∈ a.destinations.ports)
    (hentries : ∀ e ∈ server.peerOptions.pinned, e.Coherent) (hg : AllGenuine l.trace) (h : Step ctx a l a')
    (hp : a'.Knows server p) : a.Knows server p ∨ p ∈ server.pinnedPeers ∨ Introduces server p l := by
  have heffect := h.portEffect hserver hport
  -- whoever is remembered now was remembered, or is the exit
  have hexit : a.Knows server p ∨ a'.destination server.port = some p := by
    rcases hp with hexit | hpool
    · exact .inr hexit
    · exact (heffect.grows.1 p hpool).imp .inr fun hexit => Option.mem_toList.1 hexit
  refine hexit.elim .inl fun hexit => ?_
  have hconnected : ∀ {avoid t v}, t <:+: l.trace → (∀ q ∈ avoid, a.destination server.port = some q) →
      (∀ q ∈ v.pool, q ∈ exitPool server a.sticky) →
      Reconnected S ctx.relayAddress server avoid t v (portView server a') →
      a.Knows server p ∨ p ∈ server.pinnedPeers ∨ Introduces server p l := by
    rintro avoid t v ht havoid hpool ⟨s, s', result, hc, hv, hview⟩
    cases result with
    | error e =>
      have hnone : a'.destination server.port = none := congrArg PortView.exit hview
      rw [hnone] at hexit
      cases hexit
    | ok d =>
      have hpeer : a'.destination server.port = some d.peer := congrArg PortView.exit hview
      obtain rfl : d.peer = p := Option.some.inj (hpeer.symm.trans hexit)
      cases connect_provenance hentries (hg.part ht) hc with
      | pinned h => exact .inr (.inl h)
      | known h => exact .inl (h.elim (fun hs => .inr (hpool _ (hv ▸ hs))) fun hlost => .inl (havoid _ hlost))
      | offered hasked he h => exact .inr (.inr (.inr ⟨hasked, _, ht.subset he, h⟩))
  have hsame : ∀ {v : PortView}, v.exit = a.destination server.port → portView server a' = v →
      a.Knows server p ∨ p ∈ server.pinnedPeers ∨ Introduces server p l := by
    rintro v hv hview
    have hview' : a'.destination server.port = v.exit := congrArg PortView.exit hview
    exact .inl (.inl (by rw [← hv, ← hview', hexit]))
  have hadopts : ∀ {y pool}, portView server a' = { exit := some y, pool } → y = p := by
    intro y pool hview
    have hview' : a'.destination server.port = some y := congrArg PortView.exit hview
    exact Option.some.inj (hview'.symm.trans hexit)
  obtain ⟨event, tr⟩ := l
  cases event with
  | discoverFor port | requestNewPeer port =>
    simp only [PortEffect] at heffect
    split at heffect
    · obtain ⟨t, ht, hr⟩ := heffect
      exact hconnected ht (by simp) (fun _ hq => hq) hr
    · exact hsame rfl heffect
  | peerClosed peer =>
    simp only [PortEffect] at heffect
    split at heffect
    · rename_i hlost
      rcases heffect with hclosed | ⟨t, ht, hr⟩
      · have hnone : a'.destination server.port = none := congrArg PortView.exit hclosed
        rw [hnone] at hexit
        cases hexit
      · exact hconnected ht (by rintro _ ⟨⟩; exact hlost) (fun _ hq => hq) hr
    · exact hsame rfl heffect
  | peerUnusable peer =>
    simp only [PortEffect] at heffect
    split at heffect
    · obtain ⟨t, ht, hr⟩ := heffect
      exact hconnected ht (by simp) (fun _ hq => List.mem_of_mem_filter hq) hr
    · exact hsame rfl heffect
  | peerConnected peer address relayed =>
    simp only [PortEffect] at heffect
    split at heffect
    · rename_i hrotates
      obtain rfl := hadopts heffect
      exact .inl (.inr hrotates.2.2)
    · exact hsame rfl heffect
  | selectPeer port peer =>
    simp only [PortEffect] at heffect
    split at heffect
    · rename_i hown
      rcases heffect with hview | ⟨y, t, address, ht, hreach, hview⟩
      · exact hsame rfl hview
      · obtain rfl := hadopts hview
        obtain rfl := hreach.eq_peer (hg.part ht)
        exact .inr (.inr (.inl (by rw [hown])))
    · exact hsame rfl heffect

/-- Whoever is known at the end of a run was known at first, is pinned, or was introduced by a step of the run. -/
theorem introduced_of_reaches {ok : DiscoveryActor S → Label → Prop} (hok : ∀ a l, ok a l → AllGenuine l.trace)
    (hdistinct : (ctx.servers.map (·.port)).Nodup) (hserver : server ∈ ctx.servers)
    (hentries : ∀ e ∈ server.peerOptions.pinned, e.Coherent) (hhandles : Handles ctx a)
    (h : Reaches (guarded (Step ctx) ok) a ls a') (hp : a'.Knows server p) :
    a.Knows server p ∨ p ∈ server.pinnedPeers ∨ ∃ b, ∃ l ∈ ls, ok b l ∧ Introduces server p l := by
  have hlookup := Context.server?_of_mem hdistinct hserver
  induction h with
  | nil a => exact .inl hp
  | @cons a a₁ a₂ l ls h₁ _ ih =>
    have hports := h₁.1.ports_eq
    rcases ih (fun port => hports ▸ hhandles port) hp with hknows | hpinned | ⟨b, k, hk, hb, hintroduces⟩
    · rcases h₁.1.knows hlookup (hhandles.mem_ports hserver) hentries (hok a l h₁.2) hknows with hfirst | hpinned | hl
      · exact .inl hfirst
      · exact .inr (.inl hpinned)
      · exact .inr (.inr ⟨a, l, List.mem_cons_self .., h₁.2, hl⟩)
    · exact .inr (.inl hpinned)
    · exact .inr (.inr ⟨b, k, List.mem_cons_of_mem _ hk, hb, hintroduces⟩)

/-- Whoever is the exit of a port at the end of a run, or remembered for it, was so at first, is pinned, or was selected
for the port or offered by the hub for its server in the run. -/
theorem exits_permitted (hdistinct : (ctx.servers.map (·.port)).Nodup) (hserver : server ∈ ctx.servers)
    (hentries : ∀ e ∈ server.peerOptions.pinned, e.Coherent) (hhandles : Handles ctx a)
    (h : Reaches (guarded (Step ctx) fun _ l => AllGenuine l.trace) a ls a') (hp : a'.Knows server p) :
    a.Knows server p ∨ p ∈ server.pinnedPeers ∨ ∃ l ∈ ls, Introduces server p l := by
  rcases introduced_of_reaches (fun _ _ hg => hg) hdistinct hserver hentries hhandles h hp with
    hknows | hpinned | ⟨_, l, hl, -, hintroduces⟩
  · exact .inl hknows
  · exact .inr (.inl hpinned)
  · exact .inr (.inr ⟨l, hl, hintroduces⟩)

section OneExit

open DiscoverySystem (oneServer oneExit inWorld handles_oneServer)

private def unoffered : DiscoveryActor StickyState := .new .empty (.dark [1080] nodup_onePort)

private def offered : List Io × Unit × DiscoveryActor StickyState :=
  inWorld oneServer oneExit (.requestNewPeer 1080) unoffered

theorem exits_permitted_offered :
    ∃ l ∈ [(⟨.requestNewPeer 1080, offered.1⟩ : Label)], Introduces (discoveryServer 1080) ⟨[1]⟩ l := by
  have hstep : guarded (Step oneServer) (fun _ l => AllGenuine l.trace) unoffered ⟨.requestNewPeer 1080, offered.1⟩
      offered.2.2 := ⟨exec_runs _ _ _, World.allGenuine (by decide) (by decide)⟩
  have hpermitted := exits_permitted (p := ⟨[1]⟩) (by decide) (List.mem_singleton_self (discoveryServer 1080))
    (by simp [discoveryServer, options, ServerPeerOptions.pinned]) handles_oneServer (.cons hstep (.nil _))
      (.inl (by decide))
  refine (hpermitted.resolve_left ?_).resolve_left (by decide)
  rintro (hexit | hpool)
  · cases hexit
  · cases hpool

end OneExit

end DiscoveryActor

end P2Proxy
