import P2Proxy.StickyConnect
import P2Proxy.PinnedConnect

/-!
# Is the adopted peer the one that was asked for?

The dialer reports a connection under the last `/p2p/` component of the winning route, and the routes come from the
hub.  An attempt on `p` uses everything the hub returned when it was asked for `p`, under whatever id, and it returns
whoever the winning route names; a pinned entry uses only the routes under its own id, but its pick is not compared
with the entry either.  So for a given hub the peer adopted is the peer asked for exactly when the hub returns no route
that names somebody else (`adopts_asked_peer_iff`).
-/

namespace P2Proxy

open Interaction

/-- What the hub may answer to a resolve request; it always may answer something. -/
structure Hub where
  answers : List PeerId → Except DirectoryError Routes → Prop
  total : ∀ peers, ∃ ans, answers peers ans

namespace Hub

/-- The hub answers as described, and the dialer is honest. -/
def Follows (hub : Hub) (tr : List Io) : Prop :=
  ∀ e ∈ tr, e.DialHonest ∧ ∀ peers ans, e = ⟨.resolvePeers peers, ans⟩ → hub.answers peers ans

/-- No route that the hub returns when it is asked for `p` alone names somebody else. -/
def Serves (hub : Hub) (p : PeerId) : Prop :=
  ∀ routes, hub.answers [p] (.ok routes) → ∀ a ∈ routes.flatten, ∀ q, lastP2p a = some q → q = p

/-- No route that the hub returns under the id of a pinned entry names somebody else. -/
def ServesPins (hub : Hub) (pinned : List DestinationPeerEntry) : Prop :=
  ∀ ans, hub.answers (pinned.map (·.peerId)) ans → ∀ e ∈ pinned, Names ans e.peerId

end Hub

variable {S : Type} {relayAddress : Multiaddr} {server : Server} {s s' : S} {tr t₁ t₂ : List Io} {hub : Hub}
  {p q y : PeerId} {R : Finset Multiaddr} {direct skip r : Option PeerId}

theorem Hub.Follows.append (h₁ : hub.Follows t₁) (h₂ : hub.Follows t₂) : hub.Follows (t₁ ++ t₂) := by
  intro e he
  rcases List.mem_append.1 he with he | he
  · exact h₁ e he
  · exact h₂ e he

/-- A resolve request that the hub answers, before calls that follow it. -/
theorem Hub.Follows.resolve {peers : List PeerId} {ans : Except DirectoryError Routes} (hans : hub.answers peers ans)
    (h : hub.Follows tr) : hub.Follows (⟨.resolvePeers peers, ans⟩ :: tr) := by
  intro e he
  rcases List.mem_cons.1 he with rfl | he
  · refine ⟨trivial, fun peers ans h => ?_⟩
    cases h
    exact hans
  · exact h e he

theorem Hub.Follows.right (h : hub.Follows (t₁ ++ t₂)) : hub.Follows t₂ :=
  fun e he => h e (List.mem_append_right _ he)

/-- Calls other than dials and resolve requests follow every hub. -/
private theorem follows_of_calls (h : ∀ e ∈ tr, e.DialHonest ∧ ∀ peers ans, e ≠ ⟨.resolvePeers peers, ans⟩) :
    hub.Follows tr :=
  fun e he => ⟨(h e he).1, fun peers ans hr => absurd hr ((h e he).2 peers ans)⟩

private theorem DialRun.follows (h : DialRun R tr r) (hd : ∀ e ∈ tr, e.DialHonest) : hub.Follows tr := by
  refine follows_of_calls fun e he => ⟨hd e he, fun peers ans hr => ?_⟩
  obtain ⟨A, x, rfl, -⟩ := h.dials he
  cases hr

/-! ### One attempt -/

section Attempt

variable {direct : Option Multiaddr}

/-- If the hub names nobody else, an attempt on `p` reaches `p` or nobody. -/
theorem ReachRun.eq_asked (hserves : hub.Serves p) (hf : hub.Follows tr)
    (h : ReachRun relayAddress direct p tr (some q)) : q = p := by
  obtain ⟨ans, dials, rfl, hd⟩ := h
  obtain ⟨a, ha, haq⟩ := hd.exists_route fun e he => (hf e (List.mem_cons_of_mem _ he)).1
  rcases lastP2p_of_mem_reachRoutes ha with hp | hm
  · rw [hp, Option.some.injEq] at haq
    exact haq.symm
  · have hans : hub.answers [p] ans := (hf _ (List.mem_cons_self ..)).2 _ _ rfl
    obtain ⟨p', as, hl, has⟩ := Routes.mem_flatten.1 hm
    rcases lookup_routesOf hl has with ⟨routes, rfl, hl⟩ | ⟨hasked, hnamed⟩
    · exact hserves routes hans a (Routes.mem_flatten.2 ⟨p', as, hl, has⟩) q haq
    · rw [hnamed, Option.some.injEq] at haq
      exact haq.symm.trans (List.mem_singleton.1 hasked)

/-- Every peer that a route of the hub's answer names can be the outcome of the attempt. -/
theorem exists_reachRun_some (relayAddress : Multiaddr) (direct : Option Multiaddr) {routes : Routes} {a : Multiaddr}
    (hans : hub.answers [p] (.ok routes))
    (ha : a ∈ routes.flatten) (hq : lastP2p a = some q) :
    ∃ tr, hub.Follows tr ∧ ReachRun relayAddress direct p tr (some q) := by
  have hroute : a ∈ reachRoutes relayAddress direct routes p := mem_reachRoutes_of_mem_flatten ha
  obtain ⟨t, ht, hd⟩ := exists_dialRun_some hroute hq
  exact ⟨⟨.resolvePeers [p], .ok routes⟩ :: t, (ht.follows hd).resolve hans, .ok routes, t, rfl, ht⟩

/-- An attempt can always fail. -/
theorem exists_reachRun_none (relayAddress : Multiaddr) (direct : Option Multiaddr) (hub : Hub) (p : PeerId) :
    ∃ tr, hub.Follows tr ∧ ReachRun relayAddress direct p tr none := by
  obtain ⟨ans, hans⟩ := hub.total [p]
  obtain ⟨t, ht, hd⟩ := exists_dialRun_none (reachRoutes relayAddress direct (routesOf relayAddress [p] ans) p)
  exact ⟨⟨.resolvePeers [p], ans⟩ :: t, (ht.follows hd).resolve hans, ans, t, rfl, ht⟩

variable [StickyStore S]

theorem tryReachPeer_asked_iff (hub : Hub) (server : Server) (s : S) (p : PeerId) :
    (∀ tr r s', hub.Follows tr → Runs (tryReachPeer relayAddress server p : M S _) s tr r s' →
      r = none ∨ r = some p) ↔ hub.Serves p := by
  constructor
  · intro h routes hans a ha q hq
    obtain ⟨tr, hf, hr⟩ := exists_reachRun_some relayAddress
      (StickyStore.directAddress server.port p s) hans ha hq
    simpa using h tr (some q) s hf (runs_tryReachPeer.2 ⟨rfl, hr⟩)
  · rintro hserves tr (_ | q) s' hf h
    · exact .inl rfl
    · exact .inr (by rw [(runs_tryReachPeer.1 h).2.eq_asked hserves hf])

/-- The winning attempt of a reconnect is its last. -/
private theorem reconnectLoop_last {n : Nat} {b : Backoff}
    (h : Runs (reconnectLoop relayAddress server p n b : M S _) s tr (some y) s') :
    ∃ t₁ t₂, tr = t₁ ++ t₂ ∧ ReachRun relayAddress (StickyStore.directAddress server.port p s) p t₂ (some y) := by
  induction n generalizing s tr b with
  | zero => cases (runs_pure.1 h).2.1
  | succ n ih =>
    obtain ⟨t₁, o, s₁, t₂, rfl, h₁, h₂⟩ := runs_bind.1 h
    obtain ⟨rfl, hr⟩ := runs_tryReachPeer.1 h₁
    cases o with
    | some z =>
      obtain ⟨rfl, hy, rfl⟩ := runs_pure.1 h₂
      cases hy
      exact ⟨[], t₁, by simp, hr⟩
    | none =>
      dsimp only at h₂
      split at h₂
      · obtain ⟨t₃, _, _, t₄, rfl, h₃, h₄⟩ := runs_bind.1 h₂
        obtain ⟨rfl, rfl⟩ := runs_sleep.1 h₃
        obtain ⟨t₅, t₆, rfl, hl⟩ := ih h₄
        exact ⟨t₁ ++ ⟨.sleep b.nextDelay.1, ()⟩ :: t₅, t₆, by simp, hl⟩
      · cases (runs_pure.1 h₂).2.1

theorem reconnectStickyPeer_asked_iff (hub : Hub) (server : Server) (s : S) (p : PeerId) :
    (∀ tr r s', hub.Follows tr → Runs (reconnectStickyPeer relayAddress server p : M S _) s tr r s' →
      r = none ∨ r = some p) ↔ hub.Serves p := by
  constructor
  · intro h routes hans a ha q hq
    obtain ⟨tr, hf, hr⟩ := exists_reachRun_some relayAddress
      (StickyStore.directAddress server.port p s) hans ha hq
    have hrun : Runs (reconnectStickyPeer relayAddress server p : M S _) s tr (some q) s :=
      runs_bind.2 ⟨tr, some q, s, [], by simp, runs_tryReachPeer.2 ⟨rfl, hr⟩, runs_pure.2 ⟨rfl, rfl, rfl⟩⟩
    simpa using h tr (some q) s hf hrun
  · rintro hserves tr (_ | q) s' hf h
    · exact .inl rfl
    · obtain ⟨t₁, t₂, rfl, hr⟩ := reconnectLoop_last h
      exact .inr (by rw [hr.eq_asked hserves hf.right])

end Attempt

/-! ### The pool pre-pass -/

section Pool

variable [StickyStore S]

/-- The winning attempt of the pre-pass is its last. -/
private theorem poolLoop_last {l : List PeerId}
    (h : Runs (l.findSomeM? (tryPoolMember relayAddress server skip) : M S _) s tr (some y) s') :
    ∃ q ∈ l, some q ≠ skip ∧ ∃ direct t₁ t₂, tr = t₁ ++ t₂ ∧ ReachRun relayAddress direct q t₂ (some y) := by
  induction l generalizing s tr with
  | nil => cases (runs_findSomeM?_nil.1 h).2.1
  | cons p l ih =>
    rcases runs_findSomeM?_cons.1 h with ⟨z, hz, hp⟩ | ⟨t₁, s₁, t₂, rfl, hp, hl⟩
    · cases hz
      rcases runs_tryPoolMember.1 hp with ⟨-, -, hn, -⟩ | ⟨hskip, hr, -⟩
      · cases hn
      · exact ⟨p, List.mem_cons_self .., hskip, _, [], tr, rfl, hr⟩
    · obtain ⟨q, hq, hskip, direct, t₃, t₄, rfl, hr⟩ := ih hl
      exact ⟨q, List.mem_cons_of_mem _ hq, hskip, direct, t₁ ++ t₃, t₄, by simp, hr⟩

variable [LawfulStickyStore S]

/-- The pre-pass can get to any of its members, and end with whomever a route of the hub's answer names. -/
theorem exists_poolLoop_run (relayAddress : Multiaddr) (server : Server) {l : List PeerId} {routes : Routes}
    {a : Multiaddr} (hq : q ∈ l) (hskip : some q ≠ skip) (hans : hub.answers [q] (.ok routes)) (ha : a ∈ routes.flatten)
    (hy : lastP2p a = some y) (s : S) :
    ∃ tr s', hub.Follows tr ∧ Runs (l.findSomeM? (tryPoolMember relayAddress server skip) : M S _) s tr (some y) s' ∧
      (reachAttempts tr).getLast? = some (q, some y) := by
  induction l generalizing s with
  | nil => cases hq
  | cons p l ih =>
    by_cases hpq : p = q
    · subst hpq
      obtain ⟨tr, hf, hr⟩ := exists_reachRun_some relayAddress
        (StickyStore.directAddress server.port p s) hans ha hy
      refine ⟨tr, s, hf, runs_findSomeM?_cons.2 (.inl ⟨y, rfl, ?_⟩), by rw [hr.segment.reachAttempts_eq]; rfl⟩
      exact runs_tryPoolMember.2 (.inr ⟨hskip, hr, by simp⟩)
    · have hql : q ∈ l := (List.mem_cons.1 hq).resolve_left (Ne.symm hpq)
      by_cases hp : some p = skip
      · obtain ⟨tr, s', hf, hrun, hl⟩ := ih hql s
        exact ⟨tr, s', hf, runs_findSomeM?_cons.2 (.inr ⟨[], s, tr, rfl,
          runs_tryPoolMember.2 (.inl ⟨hp, rfl, rfl, rfl⟩), hrun⟩), hl⟩
      · obtain ⟨t, hft, hr⟩ := exists_reachRun_none relayAddress
          (StickyStore.directAddress server.port p s) hub p
        obtain ⟨tr, s', hf, hrun, hl⟩ := ih hql (StickyStore.forgetPeer server.port p s)
        refine ⟨t ++ tr, s', hft.append hf, runs_findSomeM?_cons.2 (.inr ⟨t, _, tr, rfl,
          runs_tryPoolMember.2 (.inr ⟨hp, hr, rfl⟩), by simpa using hrun⟩), ?_⟩
        have hhead : headDials tr = false := by
          rcases poolLoop_effect hrun with ⟨pre, x, post, z, -, -, hs, -⟩ | ⟨-, hs, -⟩
          · exact hs.headDials_eq
          · exact hs.headDials_eq
        rw [reachAttempts_append hhead, hr.segment.reachAttempts_eq, List.getLast?_append, hl]
        rfl

theorem connectStickyPool_asked_iff (hub : Hub) (server : Server) (s : S) (skip : Option PeerId)
    (hsticky : server.peerOptions.sticky = true) :
    (∀ tr r s', hub.Follows tr →
      Runs (connectStickyPool relayAddress server server.fingerprint skip : M S _) s tr r s' →
      r = none ∨ ∃ q, r = some q ∧ (reachAttempts tr).getLast? = some (q, some q)) ↔
      ∀ q ∈ exitPool server s, some q ≠ skip → hub.Serves q := by
  constructor
  · intro h q hq hskip routes hans a ha y hy
    obtain ⟨tr, s', hf, hrun, hl⟩ := exists_poolLoop_run relayAddress server hq hskip hans ha hy
      (StickyStore.pool server.port server.fingerprint s).2
    have hrun' : Runs (connectStickyPool relayAddress server server.fingerprint skip : M S _) s tr (some y) s' := by
      unfold connectStickyPool
      rw [if_pos hsticky]
      exact runs_bind.2 ⟨[], exitPool server s, _, tr, rfl,
        runs_modifyGet.2 ⟨rfl, pool_fst_eq_exitPool.symm, rfl⟩, hrun⟩
    rcases h tr _ s' hf hrun' with hn | ⟨z, hz, hlast⟩
    · cases hn
    · cases hz
      rw [hl, Option.some.injEq, Prod.mk.injEq] at hlast
      exact hlast.1.symm
  · rintro hserves tr (_ | y) s' hf h
    · exact .inl rfl
    · refine .inr ⟨y, rfl, ?_⟩
      have h' := h
      unfold connectStickyPool at h'
      rw [if_pos hsticky] at h'
      obtain ⟨t₁, peers, s₁, t₂, rfl, h₁, h₂⟩ := runs_bind.1 h'
      obtain ⟨rfl, rfl, rfl⟩ := runs_modifyGet.1 h₁
      rw [pool_fst_eq_exitPool] at h₂
      obtain ⟨q, hq, hskip, direct, t₃, t₄, rfl, hr⟩ := poolLoop_last h₂
      obtain rfl := hr.eq_asked (hserves q hq hskip) hf.right.right
      rw [List.nil_append, reachAttempts_append hr.segment.headDials_eq, hr.segment.reachAttempts_eq]
      simp

end Pool

/-! ### Pinned entries -/

section Pinned

variable {pinned : List DestinationPeerEntry} {resolved : Routes}

/-- No entry may have connected late. -/
private theorem exists_adoptBest_run (pinned : List DestinationPeerEntry) (rank : Nat) (peer : PeerId) (s : S) :
    Runs (adoptBestPinnedRank pinned rank peer : M S _) s ((pinned.take rank).map notConnected) (rank, peer) s := by
  have loop : ∀ (l : List DestinationPeerEntry) (n : Nat),
      Runs ((l.zipIdx n).findSomeM? fun e => do
        if ← ask (Call.isConnected e.1.peerId) then pure (some (e.2, e.1.peerId)) else pure none : M S _) s
        (l.map notConnected) none s := by
    intro l
    induction l with
    | nil => intro n; exact runs_findSomeM?_nil.2 ⟨rfl, rfl, rfl⟩
    | cons e l ih =>
      intro n
      rw [List.zipIdx_cons]
      refine runs_findSomeM?_cons.2 (.inr ⟨[notConnected e], s, l.map notConnected, rfl, ?_, ih (n + 1)⟩)
      exact runs_bind.2 ⟨_, false, s, [], rfl, runs_ask.2 ⟨rfl, rfl⟩, runs_pure.2 ⟨rfl, rfl, rfl⟩⟩
  exact runs_bind.2 ⟨_, none, s, [], by simp, loop _ 0, runs_pure.2 ⟨rfl, rfl, rfl⟩⟩

private theorem follows_notConnected (l : List DestinationPeerEntry) : hub.Follows (l.map notConnected) := by
  refine follows_of_calls fun e he => ?_
  obtain ⟨w, -, rfl⟩ := List.mem_map.1 he
  exact ⟨trivial, fun _ _ h => by cases h⟩

/-- The dials of the entries before `e` can fail, and the dial of `e` can end with whomever one of its routes names. -/
private theorem exists_dialEntries_run (hub : Hub) (pinned pre post : List DestinationPeerEntry)
    {e : DestinationPeerEntry} {a : Multiaddr} (ha : a ∈ candidateRoutes e resolved) (hy : lastP2p a = some y)
    (n : Nat) (s : S) :
    ∃ tr, hub.Follows tr ∧ Runs (((pre ++ e :: post).zipIdx n).findSomeM? (dialPinned pinned resolved) : M S _) s tr
      (some { peer := y, source := .pinned (n + pre.length) }) s := by
  induction pre generalizing n with
  | nil =>
    obtain ⟨t, ht, hd⟩ := exists_dialRun_some ha hy
    refine ⟨t ++ (pinned.take n).map notConnected, (ht.follows hd).append (follows_notConnected _), ?_⟩
    rw [List.nil_append, List.zipIdx_cons]
    refine runs_findSomeM?_cons.2 (.inl ⟨_, rfl, ?_⟩)
    unfold dialPinned
    rw [if_neg (Finset.ne_empty_of_mem ha)]
    refine runs_bind.2 ⟨t, some y, s, _, rfl, runs_dial.2 ⟨rfl, ht⟩, ?_⟩
    exact runs_bind.2 ⟨_, (n, y), s, [], by simp, exists_adoptBest_run pinned n y s, runs_pure.2 ⟨rfl, rfl, rfl⟩⟩
  | cons w pre ih =>
    obtain ⟨tr, hf, hrun⟩ := ih (n + 1)
    obtain ⟨t, ht, hd⟩ := exists_dialRun_none (candidateRoutes w resolved)
    have hw : ∃ t, hub.Follows t ∧ Runs (dialPinned pinned resolved (w, n) : M S _) s t none s := by
      unfold dialPinned
      split
      · exact ⟨[], fun e he => (by cases he), runs_pure.2 ⟨rfl, rfl, rfl⟩⟩
      · exact ⟨t, ht.follows hd, runs_bind.2 ⟨t, none, s, [], by simp, runs_dial.2 ⟨rfl, ht⟩,
          runs_pure.2 ⟨rfl, rfl, rfl⟩⟩⟩
    obtain ⟨t, hft, hwrun⟩ := hw
    refine ⟨t ++ tr, hft.append hf, ?_⟩
    rw [List.cons_append, List.zipIdx_cons, List.length_cons, ← Nat.add_assoc, Nat.add_right_comm]
    exact runs_findSomeM?_cons.2 (.inr ⟨t, s, tr, rfl, hwrun, hrun⟩)

variable [StickyStore S]

theorem connectPinned_asked_iff (hub : Hub) (server : Server) (s : S) (hpins : server.peerOptions.pinned ≠ [])
    (hentries : ∀ e ∈ server.peerOptions.pinned, e.Coherent) :
    (∀ avoid tr r s', hub.Follows tr → Runs (connect relayAddress server avoid : M S _) s tr r s' →
      ∀ peer rank, r = .ok { peer, source := .pinned rank } →
        ∃ e, server.peerOptions.pinned[rank]? = some e ∧ peer = e.peerId) ↔
      hub.ServesPins server.peerOptions.pinned := by
  constructor
  · intro h ans hans e he routes as hr hl a ha y hy
    subst hr
    obtain ⟨pre, post, hsplit⟩ := List.append_of_mem he
    have hmem : a ∈ candidateRoutes e routes :=
      Finset.mem_union_left _ (by simpa [hl] using ha)
    -- a run in which the entries before `e` fail, and its dial is answered by `y`
    obtain ⟨dials, hf, hrun⟩ := exists_dialEntries_run hub server.peerOptions.pinned pre post hmem hy 0 s
    rw [← hsplit] at hrun
    let head := passHead relayAddress server.port server.peerOptions.pinned (.ok routes)
    have hpass : Runs (pinnedPass relayAddress server.port server.peerOptions.pinned : M S _) s (head ++ dials)
        (some { peer := y, source := .pinned (0 + pre.length) }) s :=
      runs_bind.2 ⟨[_], routes, s, [_] ++ dials, rfl, runs_resolveRoutes.2 ⟨.ok routes, rfl, rfl, rfl⟩,
        runs_bind.2 ⟨[_], (), s, dials, rfl, runs_emit.2 ⟨rfl, rfl⟩, hrun⟩⟩
    have hround : Runs (pinnedRound relayAddress server server.peerOptions.pinned : M S _) s (head ++ dials)
        (some (.ok { peer := y, source := .pinned (0 + pre.length) })) s :=
      runs_bind.2 ⟨_, _, s, [], by simp, hpass, runs_pure.2 ⟨rfl, rfl, rfl⟩⟩
    have hconnect : Runs (connect relayAddress server none : M S _) s (head ++ dials)
        (.ok { peer := y, source := .pinned (0 + pre.length) }) s := by
      unfold connect
      rw [if_neg hpins]
      exact runs_bind.2 ⟨_, _, s, [], by simp, runs_attempts_succ.2 (.inl ⟨_, rfl, hround⟩),
        runs_pure.2 ⟨rfl, rfl, rfl⟩⟩
    have hhead : hub.Follows head := by
      intro e he
      rcases List.mem_cons.1 he with rfl | he
      · refine ⟨trivial, fun peers ans h => ?_⟩
        cases h
        exact hans
      · obtain rfl := List.mem_singleton.1 he
        exact ⟨trivial, fun _ _ h => by cases h⟩
    obtain ⟨e', he', hye⟩ := h none _ _ s (hhead.append hf) hconnect y _ rfl
    rw [hsplit, Nat.zero_add, List.getElem?_append_right (Nat.le_refl _), Nat.sub_self,
      List.getElem?_cons_zero, Option.some.injEq] at he'
    rw [hye, he']
  · rintro hserves avoid tr r s' hf h peer rank rfl
    -- the pick is the entry of its rank if the hub names the entries truthfully
    have heffect := connect_pinnedEffect hpins hentries
      (fun ans he => hserves ans ((hf _ he).2 _ _ rfl)) (fun e he => (hf e he).1) h
    obtain ⟨failed, last, -, -, -, ⟨ans, pre, e, post, _, _, _, hp, rfl, rfl, -⟩, -⟩ := heffect.1 peer rank rfl
    exact ⟨e, by rw [hp]; simp, rfl⟩

end Pinned

/-! ### The exact condition -/

/-- For a given hub, and every honest dialer: an attempt, a manual selection and a reconnect reach the peer asked for
or nobody exactly when the hub names nobody else for it; the pre-pass returns the member that it tried last exactly
when the hub names nobody else for any member; a pinned pick is the entry of its rank exactly when the hub names
nobody else for any entry. -/
theorem adopts_asked_peer_iff [StickyStore S] [LawfulStickyStore S] (relayAddress : Multiaddr) (hub : Hub)
    (server : Server) (s : S) :
    (∀ p, (∀ tr r s', hub.Follows tr → Runs (tryReachPeer relayAddress server p : M S _) s tr r s' →
      r = none ∨ r = some p) ↔ hub.Serves p) ∧
    (∀ p, (∀ tr r s', hub.Follows tr → Runs (reachSpecificPeer relayAddress server p : M S _) s tr r s' →
      r = none ∨ r = some p) ↔ hub.Serves p) ∧
    (∀ p, (∀ tr r s', hub.Follows tr → Runs (reconnectStickyPeer relayAddress server p : M S _) s tr r s' →
      r = none ∨ r = some p) ↔ hub.Serves p) ∧
    (server.peerOptions.sticky = true → ∀ skip, (∀ tr r s', hub.Follows tr →
      Runs (connectStickyPool relayAddress server server.fingerprint skip : M S _) s tr r s' →
      r = none ∨ ∃ q, r = some q ∧ (reachAttempts tr).getLast? = some (q, some q)) ↔
      ∀ q ∈ exitPool server s, some q ≠ skip → hub.Serves q) ∧
    (server.peerOptions.pinned ≠ [] → (∀ e ∈ server.peerOptions.pinned, e.Coherent) →
      ((∀ avoid tr r s', hub.Follows tr → Runs (connect relayAddress server avoid : M S _) s tr r s' →
        ∀ peer rank, r = .ok { peer, source := .pinned rank } →
          ∃ e, server.peerOptions.pinned[rank]? = some e ∧ peer = e.peerId) ↔
        hub.ServesPins server.peerOptions.pinned)) :=
  ⟨tryReachPeer_asked_iff hub server s, tryReachPeer_asked_iff hub server s,
    reconnectStickyPeer_asked_iff hub server s,
    fun hsticky skip => connectStickyPool_asked_iff hub server s skip hsticky,
    fun hpins hentries => connectPinned_asked_iff hub server s hpins hentries⟩

/-- The hub of a network that does not change. -/
private def hubOf (w : World) : Hub where
  answers peers ans := ans = w.answer [] (.resolvePeers peers)
  total _ := ⟨_, rfl⟩

/-- The route that the hub knows to the peer `[1]` leads to `[2]`, and the one to `[3]` leads there. -/
private def halfMisleading : World :=
  { routes := [(⟨[1]⟩, [[.p2p ⟨[2]⟩]]), (⟨[3]⟩, [[.p2p ⟨[3]⟩]])], candidates := [], online := [⟨[2]⟩, ⟨[3]⟩],
    connected := [] }

private theorem serves_third : (hubOf halfMisleading).Serves ⟨[3]⟩ := by
  intro routes hans a ha q hq
  obtain rfl := Except.ok.inj hans
  have hall : ∀ a ∈ (Routes.collect (halfMisleading.routes.filter (·.1 ∈ [(⟨[3]⟩ : PeerId)]))).flatten,
      lastP2p a = some ⟨[3]⟩ := by decide
  exact Option.some.inj (hq.symm.trans (hall a ha))

private theorem not_serves_first : ¬(hubOf halfMisleading).Serves ⟨[1]⟩ := by
  intro h
  exact absurd (h _ rfl [.p2p ⟨[2]⟩] (by decide) ⟨[2]⟩ rfl) (by decide)

private theorem servesPins_third : (hubOf halfMisleading).ServesPins [⟨⟨[3]⟩, none⟩] := by
  intro ans hans e he routes as hr hl a ha q hq
  obtain rfl := List.mem_singleton.1 he
  obtain rfl := hans
  obtain rfl := Except.ok.inj hr
  obtain rfl : [[Protocol.p2p ⟨[3]⟩]] = as := Option.some.inj hl
  obtain rfl := List.mem_singleton.1 ha
  exact (Option.some.inj hq).symm

/-- This hub is to be trusted with `[3]`, also as a pinned peer, and not with `[1]`. -/
theorem adopts_asked_peer_iff_halfMisleading :
    (∀ tr r s', (hubOf halfMisleading).Follows tr →
      Runs (tryReachPeer [] (discoveryServer 1080) ⟨[3]⟩ : M StickyState _) .empty tr r s' → r = none ∨
        r = some ⟨[3]⟩) ∧
    (∀ avoid tr r s', (hubOf halfMisleading).Follows tr →
      Runs (connect [] (pinnedServer 1080 [⟨[3]⟩]) avoid : M StickyState _) .empty tr r s' →
        ∀ peer rank, r = .ok { peer, source := .pinned rank } →
          ∃ e, (pinnedServer 1080 [⟨[3]⟩]).peerOptions.pinned[rank]? = some e ∧ peer = e.peerId) ∧
    ¬∀ tr r s', (hubOf halfMisleading).Follows tr →
      Runs (tryReachPeer [] (discoveryServer 1080) ⟨[1]⟩ : M StickyState _) .empty tr r s' → r = none ∨
        r = some ⟨[1]⟩ := by
  have hfound := adopts_asked_peer_iff [] (hubOf halfMisleading) (discoveryServer 1080) StickyState.empty
  have hpinned := adopts_asked_peer_iff [] (hubOf halfMisleading) (pinnedServer 1080 [⟨[3]⟩]) StickyState.empty
  refine ⟨(hfound.1 ⟨[3]⟩).2 serves_third, ?_, fun h => not_serves_first ((hfound.1 ⟨[1]⟩).1 h)⟩
  refine (hpinned.2.2.2.2 (List.cons_ne_nil _ _) fun e he => ?_).2 servesPins_third
  obtain rfl := List.mem_singleton.1 he
  intro a ha
  cases ha

/-- The hub knows a route to the peer `[1]`, but the route leads to `[2]`. -/
private def misleading : World :=
  { routes := [(⟨[1]⟩, [[.p2p ⟨[2]⟩]])], candidates := [], online := [⟨[2]⟩], connected := [] }

/-- A hub that names somebody else is believed, by an attempt on a known peer and by a pinned connect alike. -/
theorem asked_peer_misled :
    (¬ ∀ (server : Server) (s : StickyState) (p : PeerId) tr r s', (∀ e ∈ tr, Io.DialHonest e) →
      Runs (tryReachPeer [] server p) s tr r s' → r = none ∨ r = some p) ∧
    ¬ ∀ (server : Server) (s : StickyState) tr r s', (∀ e ∈ server.peerOptions.pinned, e.Coherent) →
      (∀ e ∈ tr, Io.DialHonest e) → Runs (connect [] server none) s tr r s' →
      ∀ peer rank, r = .ok { peer, source := .pinned rank } →
        ∃ e, server.peerOptions.pinned[rank]? = some e ∧ peer = e.peerId := by
  constructor
  · intro h
    have := h (discoveryServer 1080) .empty ⟨[1]⟩ _ _ _ World.dialHonest (exec_runs misleading.answer _ _)
    revert this
    decide
  · intro h
    obtain ⟨e, he, hpeer⟩ := h (pinnedServer 1080 [⟨[1]⟩]) .empty _ _ _
      (by intro e he; obtain rfl := List.mem_singleton.1 he; intro a ha; cases ha) World.dialHonest
      (exec_runs misleading.answer _ _) ⟨[2]⟩ 0 rfl
    cases he
    revert hpeer
    decide

end P2Proxy
