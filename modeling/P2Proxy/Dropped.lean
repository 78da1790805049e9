import P2Proxy.AskedPeer
import P2Proxy.Attempts

/-!
# Is the dropped exit avoided?

A connect is told which exit has just dropped.  The pool pre-pass skips this peer, but it dials whatever the hub returns
for the other members; discovery is not told, and dials every candidate.  So the dropped exit stays out, once a
reconnect that the server may have fought for has failed, exactly when the hub's answers do not lead to it
(`avoids_iff`).
-/

namespace P2Proxy

open Interaction

/-- What the hub may answer to a resolve request, always something, and to a discovery. -/
structure Directory extends Hub where
  offers : Server → Except DirectoryError (List PoolPeer) → Prop

variable {S : Type} {relayAddress : Multiaddr} {server : Server} {s s' : S} {tr rest t₁ t₂ : List Io} {d : Directory}
  {old p : PeerId} {a : Multiaddr} {skip r : Option PeerId}

namespace Directory

/-- The hub answers as described, and the dialer is honest. -/
def Follows (d : Directory) (tr : List Io) : Prop :=
  d.toHub.Follows tr ∧ ∀ server limit ans, ⟨.findNodes server limit, ans⟩ ∈ tr → d.offers server ans

theorem Follows.append (h₁ : d.Follows t₁) (h₂ : d.Follows t₂) : d.Follows (t₁ ++ t₂) :=
  ⟨h₁.1.append h₂.1,
    fun server limit ans h => (List.mem_append.1 h).elim (h₁.2 server limit ans) (h₂.2 server limit ans)⟩

theorem Follows.left (h : d.Follows (t₁ ++ t₂)) : d.Follows t₁ :=
  ⟨fun e he => h.1 e (List.mem_append_left _ he),
    fun server limit ans he => h.2 server limit ans (List.mem_append_left _ he)⟩

theorem Follows.right (h : d.Follows (t₁ ++ t₂)) : d.Follows t₂ :=
  ⟨h.1.right, fun server limit ans he => h.2 server limit ans (List.mem_append_right _ he)⟩

/-- A trace without a discovery follows the directory if it follows the hub. -/
theorem follows_of_segment {as : List (PeerId × Option PeerId)} (h : d.toHub.Follows tr) (hs : Segment tr as 0) :
    d.Follows tr := by
  refine ⟨h, fun server limit ans he => ?_⟩
  have hquery := List.countP_eq_zero.1 hs.queries_eq _ he
  exact absurd rfl hquery

/-- Calls that neither ask the hub nor dial follow every directory. -/
theorem follows_of_quiet (h : ∀ e ∈ tr, e.isDial = false ∧ e.asksHub = false) : d.Follows tr := by
  refine ⟨fun e he => ⟨?_, fun peers ans heq => ?_⟩, fun server limit ans he => by cases (h _ he).2⟩
  · obtain ⟨q, x⟩ := e
    cases q with
    | dialAndWait addresses => cases (h _ he).1
    | _ => trivial
  · subst heq
    cases (h _ he).2

theorem follows_dialRun {R : Finset Multiaddr} (h : DialRun R tr r) (hd : ∀ e ∈ tr, e.DialHonest) : d.Follows tr := by
  refine ⟨fun e he => ⟨hd e he, fun peers ans heq => ?_⟩, fun server limit ans he => ?_⟩
  · obtain ⟨A, x, rfl, -⟩ := h.dials he
    cases heq
  · obtain ⟨A, x, heq, -⟩ := h.dials he
    cases heq

/-- No discovery answer leads to `old`, and neither does a route that the hub returns for another member of the pool. -/
structure Spares (d : Directory) (server : Server) (s : S) [StickyStore S] [LawfulStickyStore S]
    (old : PeerId) : Prop where
  discovery : ∀ candidates, d.offers server (.ok candidates) → ∀ c ∈ candidates,
    (c.addresses = [] → c.peerId ≠ old) ∧ ∀ a ∈ c.addresses, lastP2p a ≠ some old
  pool : server.peerOptions.sticky = true → ∀ q ∈ exitPool server s, q ≠ old →
    ∀ routes, d.answers [q] (.ok routes) → ∀ a ∈ routes.flatten, lastP2p a ≠ some old

end Directory

theorem mem_candidateAddresses {candidates : List PoolPeer} : a ∈ candidateAddresses relayAddress candidates ↔
    ∃ c ∈ candidates, a ∈ if c.addresses.isEmpty then (synthesizeCircuit relayAddress c.peerId).toList
      else c.addresses := by
  simp [candidateAddresses]

/-- The addresses of candidates lead to `old` if one of them is listed so, or `old` is itself a candidate without
any. -/
theorem exists_candidateAddresses_iff (relayAddress : Multiaddr) {candidates : List PoolPeer} :
    (∃ a ∈ candidateAddresses relayAddress candidates, lastP2p a = some old) ↔
      ¬ ∀ c ∈ candidates, (c.addresses = [] → c.peerId ≠ old) ∧ ∀ a ∈ c.addresses, lastP2p a ≠ some old := by
  constructor
  · rintro ⟨a, ha, hold⟩ h
    obtain ⟨c, hc, ha⟩ := mem_candidateAddresses.1 ha
    split at ha
    · rename_i hempty
      have hpeer := lastP2p_synthesizeCircuit (Option.mem_toList.1 ha)
      rw [hold, Option.some.injEq] at hpeer
      exact (h c hc).1 (List.isEmpty_iff.1 hempty) hpeer.symm
    · exact (h c hc).2 a ha hold
  · intro h
    push Not at h
    obtain ⟨c, hc, h⟩ := h
    by_cases hempty : c.addresses = []
    · have hpeer : c.peerId = old := by
        by_contra hne
        obtain ⟨a, ha, -⟩ := h fun _ => hne
        simp [hempty] at ha
      refine ⟨relayAddress ++ [.p2pCircuit] ++ [.p2p old], mem_candidateAddresses.2 ⟨c, hc, ?_⟩, lastP2p_append_p2p _ _⟩
      simp [hempty, hpeer]
    · obtain ⟨a, ha, hold⟩ := h fun h => absurd h hempty
      refine ⟨a, mem_candidateAddresses.2 ⟨c, hc, ?_⟩, hold⟩
      rwa [if_neg fun h => hempty (List.isEmpty_iff.1 h)]

/-! ### A directory that spares the peer -/

/-- The call does not dial an address of `old`, and the dialer does not name `old` in its answer. -/
def Io.Avoids (old : PeerId) (e : Io) : Prop :=
  (∀ call ∈ Io.dialCall e, ∀ a ∈ call.1, lastP2p a ≠ some old) ∧ Io.named e ≠ some old

/-- The law that a run which follows the directory avoids `old`. -/
private theorem avoids_law (d : Directory) (old : PeerId) :
    Law fun (_ : S) tr (_ : S) => d.Follows tr → ∀ e ∈ tr, Io.Avoids old e where
  refl _ _ _ he := absurd he List.not_mem_nil
  trans h₁ h₂ h e he := (List.mem_append.1 he).elim (h₁ h.left e) (h₂ h.right e)

theorem Io.Avoids.of_not_toDialer {e : Io} (h : e.toDialer = false) : e.Avoids old := by
  obtain ⟨q, x⟩ := e
  cases q with
  | dialAndWait addresses => cases h
  | isConnected peer => cases h
  | _ => exact ⟨by simp [dialCall], by simp [named]⟩

theorem avoids_of_quiet (h : ∀ e ∈ tr, e.toDialer = false) : ∀ e ∈ tr, Io.Avoids old e :=
  fun e he => .of_not_toDialer (h e he)

/-- Dialling routes none of which leads to `old` avoids it. -/
theorem DialRun.avoids {R : Finset Multiaddr} (h : DialRun R tr r) (hR : ∀ a ∈ R, lastP2p a ≠ some old)
    (hd : ∀ e ∈ tr, e.DialHonest) : ∀ e ∈ tr, Io.Avoids old e := by
  intro e he
  have hhonest := hd e he
  obtain ⟨A, x, rfl, -, hA⟩ := h.dials he
  refine ⟨fun call hcall a ha => ?_, fun hnamed => ?_⟩
  · obtain rfl := Option.some.inj hcall
    exact hR a (hA ha)
  · rcases x with err | _ | q
    · cases hnamed
    · cases hnamed
    · obtain rfl := Option.some.inj hnamed
      obtain ⟨a, ha, hold⟩ := mem_destinationPeerIds.1 hhonest
      exact hR a (hA ha) hold

variable [StickyStore S] [LawfulStickyStore S]

omit [StickyStore S] [LawfulStickyStore S] in
/-- An attempt on another peer avoids `old` if the hub's routes for this peer do. -/
theorem ReachRun.avoids {direct : Option Multiaddr} (hp : p ≠ old) (hf : d.Follows tr)
    (hroutes : ∀ routes, d.answers [p] (.ok routes) → ∀ a ∈ routes.flatten, lastP2p a ≠ some old)
    (h : ReachRun relayAddress direct p tr r) : ∀ e ∈ tr, Io.Avoids old e := by
  obtain ⟨ans, dials, rfl, hdials⟩ := h
  have hans : d.answers [p] ans := (hf.1 _ (List.mem_cons_self ..)).2 _ _ rfl
  refine List.forall_mem_cons.2 ⟨.of_not_toDialer rfl, hdials.avoids (fun a ha hold => ?_) ?_⟩
  · rcases lastP2p_of_mem_reachRoutes ha with hnamed | hm
    · rw [hold, Option.some.injEq] at hnamed
      exact hp hnamed.symm
    · obtain ⟨q, as, hl, has⟩ := Routes.mem_flatten.1 hm
      rcases lookup_routesOf hl has with ⟨routes, rfl, hlookup⟩ | ⟨hasked, hnamed⟩
      · exact hroutes routes hans a (Routes.mem_flatten.2 ⟨q, as, hlookup, has⟩) hold
      · rw [hold, Option.some.injEq] at hnamed
        exact hp ((List.mem_singleton.1 hasked).symm.trans hnamed.symm)
  · exact fun e he => (hf.1 e (List.mem_cons_of_mem _ he)).1

omit [LawfulStickyStore S] in
private theorem remember_avoids {u : Unit} (h : Runs (remember server server.fingerprint p : M S Unit) s tr u s') :
    ∀ e ∈ tr, Io.Avoids old e := by
  rcases runs_remember.1 h with ⟨-, now, rfl, -⟩ | ⟨-, rfl, -⟩
  · exact avoids_of_quiet (by simp [Io.toDialer])
  · exact fun e he => absurd he List.not_mem_nil

/-- The pool pre-pass and discovery avoid a peer that the directory spares. -/
theorem connectPoolOrDiscover_avoids {result : Except ConnectError ConnectedDestination}
    (hspares : d.Spares server s old) (hf : d.Follows tr)
    (h : Runs (connectPoolOrDiscover relayAddress server server.fingerprint (some old) : M S _) s tr result s') :
    ∀ e ∈ tr, Io.Avoids old e := by
  have hlaw := avoids_law (S := S) d old
  have hremember : ∀ p, Obeys (fun _ tr _ => d.Follows tr → ∀ e ∈ tr, Io.Avoids old e)
      (remember server server.fingerprint p : M S Unit) := fun p s tr u s' h _ => remember_avoids h
  obtain ⟨t₁, o, s₁, t₂, rfl, h₁, h₂⟩ := runs_bind.1 h
  -- the members that are tried are not the peer
  have hpool : ∀ e ∈ t₁, Io.Avoids old e := by
    unfold connectStickyPool at h₁
    split at h₁
    · rename_i hsticky
      obtain ⟨t₃, peers, s₂, t₄, rfl, h₃, h₄⟩ := runs_bind.1 h₁
      obtain ⟨rfl, rfl, rfl⟩ := runs_modifyGet.1 h₃
      rw [pool_fst_eq_exitPool] at h₄
      refine Obeys.findSomeM? hlaw _ (fun q hq s tr r s' hmember hf => ?_) _ _ _ _ h₄ hf.left
      rcases runs_tryPoolMember.1 hmember with ⟨-, rfl, -⟩ | ⟨hskip, hreach, -⟩
      · exact fun e he => absurd he List.not_mem_nil
      · have hne : q ≠ old := fun heq => hskip (congrArg some heq)
        exact hreach.avoids hne hf (hspares.pool hsticky q hq hne)
    · obtain ⟨rfl, -, -⟩ := runs_pure.1 h₁
      exact fun e he => absurd he List.not_mem_nil
  -- the candidates that are offered do not lead to it
  have hrest : ∀ e ∈ t₂, Io.Avoids old e := by
    cases o with
    | some q => exact Obeys.bind hlaw (hremember q) (fun _ => Obeys.pure hlaw _) _ _ _ _ h₂ hf.right
    | none =>
      refine Obeys.bind hlaw (Obeys.attempts hlaw ?_ _) (fun o => ?_) _ _ _ _ h₂ hf.right
      · intro s tr r s' h hf
        rcases runs_discoveryAttempt.1 h with ⟨e, rfl, -⟩ | ⟨rfl, -⟩ | ⟨cs, o, t₁, t₂, -, rfl, hd, -, hr⟩
        · exact avoids_of_quiet (by simp [Io.toDialer])
        · exact avoids_of_quiet (by simp [Io.toDialer])
        · have hoffer : d.offers server (.ok cs) := hf.2 _ _ _ (List.mem_cons_self ..)
          refine List.forall_mem_cons.2 ⟨.of_not_toDialer rfl, List.forall_mem_cons.2 ⟨.of_not_toDialer rfl, ?_⟩⟩
          intro e he
          rcases List.mem_append.1 he with he | he
          · refine hd.avoids (fun a ha hold => ?_) (fun e he => ?_) e he
            · exact (exists_candidateAddresses_iff relayAddress).1 ⟨a, ha, hold⟩ (hspares.discovery cs hoffer)
            · exact (hf.1 e (List.mem_cons_of_mem _ (List.mem_cons_of_mem _ (List.mem_append_left _ he)))).1
          · cases o with
            | none =>
              obtain ⟨rfl, -⟩ := hr
              cases he
            | some q => exact remember_avoids hr e he
      · cases o with
        | some c => exact Obeys.pure hlaw _
        | none =>
          refine Obeys.bind hlaw (Obeys.ask fun s x _ => ?_) fun _ => Obeys.pure hlaw _
          exact avoids_of_quiet (by simp [Io.toDialer])
  exact fun e he => (List.mem_append.1 he).elim (hpool e) (hrest e)

/-! ### A directory that does not -/

omit [LawfulStickyStore S] in
/-- A reconnect can always fail. -/
theorem exists_reconnectLoop_none (relayAddress : Multiaddr) (d : Directory) (server : Server) (old : PeerId) (s : S)
    (n : Nat) (b : Backoff) :
    ∃ tr, d.Follows tr ∧ Runs (reconnectLoop relayAddress server old n b : M S _) s tr none s := by
  induction n generalizing b with
  | zero => exact ⟨[], d.follows_of_quiet (by simp), runs_pure.2 ⟨rfl, rfl, rfl⟩⟩
  | succ n ih =>
    obtain ⟨t, hhub, hreach⟩ :=
      exists_reachRun_none relayAddress (StickyStore.directAddress server.port old s) d.toHub old
    have ht : d.Follows t := d.follows_of_segment hhub hreach.segment
    by_cases hn : 0 < n
    · obtain ⟨tr, hf, hrun⟩ := ih b.nextDelay.2
      refine ⟨t ++ ([⟨.sleep b.nextDelay.1, ()⟩] ++ tr), ht.append ((d.follows_of_quiet ?_).append hf), ?_⟩
      · simp [Io.isDial, Io.asksHub]
      · refine runs_bind.2 ⟨t, none, s, _, rfl, runs_tryReachPeer.2 ⟨rfl, hreach⟩, ?_⟩
        dsimp only
        rw [if_pos hn]
        exact runs_bind.2 ⟨_, (), s, tr, rfl, runs_sleep.2 ⟨rfl, rfl⟩, hrun⟩
    · refine ⟨t, ht, runs_bind.2 ⟨t, none, s, [], by simp, runs_tryReachPeer.2 ⟨rfl, hreach⟩, ?_⟩⟩
      dsimp only
      rw [if_neg hn]
      exact runs_pure.2 ⟨rfl, rfl, rfl⟩

omit [LawfulStickyStore S] in
/-- The members of the pool can all fail. -/
theorem exists_poolLoop_none (relayAddress : Multiaddr) (d : Directory) (server : Server) (skip : Option PeerId)
    (l : List PeerId) (s : S) :
    ∃ tr s', d.Follows tr ∧ Runs (l.findSomeM? (tryPoolMember relayAddress server skip) : M S _) s tr none s' := by
  induction l generalizing s with
  | nil => exact ⟨[], s, d.follows_of_quiet (by simp), runs_findSomeM?_nil.2 ⟨rfl, rfl, rfl⟩⟩
  | cons q l ih =>
    by_cases hq : some q = skip
    · obtain ⟨tr, s', hf, hrun⟩ := ih s
      exact ⟨tr, s', hf,
        runs_findSomeM?_cons.2 (.inr ⟨[], s, tr, rfl, runs_tryPoolMember.2 (.inl ⟨hq, rfl, rfl, rfl⟩), hrun⟩)⟩
    · obtain ⟨t, hhub, hreach⟩ :=
        exists_reachRun_none relayAddress (StickyStore.directAddress server.port q s) d.toHub q
      obtain ⟨tr, s', hf, hrun⟩ := ih (StickyStore.forgetPeer server.port q s)
      refine ⟨t ++ tr, s', (d.follows_of_segment hhub hreach.segment).append hf, ?_⟩
      exact runs_findSomeM?_cons.2 (.inr ⟨t, _, tr, rfl, runs_tryPoolMember.2 (.inr ⟨hq, hreach, rfl⟩), hrun⟩)

omit [LawfulStickyStore S] in
theorem exists_remember (d : Directory) (server : Server) (p : PeerId) (s : S) :
    ∃ tr s', d.Follows tr ∧ Runs (remember server server.fingerprint p : M S Unit) s tr () s' := by
  by_cases hsticky : server.peerOptions.sticky = true
  · refine ⟨[⟨.utcNow, (0 : DateTime)⟩], _, d.follows_of_quiet ?_, runs_remember.2 (.inl ⟨hsticky, 0, rfl, rfl⟩)⟩
    simp [Io.isDial, Io.asksHub]
  · have hoff : server.peerOptions.sticky = false := by simpa using hsticky
    exact ⟨[], s, d.follows_of_quiet (by simp), runs_remember.2 (.inr ⟨hoff, rfl, rfl⟩)⟩

omit [LawfulStickyStore S] in
/-- The first discovery can end with whomever the address of a candidate names. -/
theorem exists_runDiscovery (server : Server) {candidates : List PoolPeer} (hoffer : d.offers server (.ok candidates))
    (ha : a ∈ candidateAddresses relayAddress candidates) (hp : lastP2p a = some p) (s : S) :
    ∃ tr s', d.Follows tr ∧ Runs (runDiscovery relayAddress server server.fingerprint : M S _) s tr
      (.ok { peer := p, source := .discovered }) s' := by
  obtain ⟨t, hdial, hhonest⟩ := exists_dialRun_some ha hp
  obtain ⟨t', s', hf, hremember⟩ := exists_remember d server p s
  have hne : candidates ≠ [] := by
    rintro rfl
    simp [candidateAddresses] at ha
  let ask : List Io :=
    [⟨.findNodes server findNodesDiscoveryLimit, .ok candidates⟩, ⟨.emit (.serverPool server.port candidates), ()⟩]
  have hask : d.Follows ask := by
    refine ⟨fun e he => ?_, fun server' limit ans he => ?_⟩
    · simp only [ask, List.mem_cons, List.not_mem_nil, or_false] at he
      rcases he with rfl | rfl <;> exact ⟨trivial, by simp⟩
    · simp only [ask, List.mem_cons, List.not_mem_nil, or_false] at he
      rcases he with he | he
      · cases he
        exact hoffer
      · cases he
  refine ⟨ask ++ (t ++ t'), s', hask.append ((d.follows_dialRun hdial hhonest).append hf), ?_⟩
  have hattempt : Runs (discoveryAttempt relayAddress server server.fingerprint : M S _) s (ask ++ (t ++ t'))
      (some { peer := p, source := .discovered }) s' :=
    runs_discoveryAttempt.2 (.inr (.inr ⟨candidates, some p, t, t', hne, rfl, hdial, rfl, hremember⟩))
  exact runs_bind.2 ⟨_, _, s', [], by simp, runs_attempts_succ.2 (.inl ⟨_, rfl, hattempt⟩), runs_pure.2 ⟨rfl, rfl, rfl⟩⟩

/-- If the directory does not spare the peer, the pre-pass and discovery can return it. -/
theorem exists_connectPoolOrDiscover (relayAddress : Multiaddr) (h : ¬ d.Spares server s old) :
    ∃ tr result s', d.Follows tr ∧ resultPeer result = some old ∧
      Runs (connectPoolOrDiscover relayAddress server server.fingerprint (some old) : M S _) s tr result s' := by
  by_cases hoffered : ∃ candidates, d.offers server (.ok candidates) ∧
      ∃ a ∈ candidateAddresses relayAddress candidates, lastP2p a = some old
  · -- everybody in the pool fails, and the first discovery finds the peer
    obtain ⟨candidates, hoffer, a, ha, hold⟩ := hoffered
    have hpool : ∃ tr s₁, d.Follows tr ∧
        Runs (connectStickyPool relayAddress server server.fingerprint (some old) : M S _) s tr none s₁ := by
      unfold connectStickyPool
      split
      · obtain ⟨tr, s₁, hf, hrun⟩ := exists_poolLoop_none relayAddress d server (some old)
          (StickyStore.pool server.port server.fingerprint s).1 (StickyStore.pool server.port server.fingerprint s).2
        exact ⟨tr, s₁, hf, runs_bind.2 ⟨[], _, _, tr, rfl, runs_modifyGet.2 ⟨rfl, rfl, rfl⟩, hrun⟩⟩
      · exact ⟨[], s, d.follows_of_quiet (by simp), runs_pure.2 ⟨rfl, rfl, rfl⟩⟩
    obtain ⟨t₁, s₁, hf₁, hfail⟩ := hpool
    obtain ⟨t₂, s', hf₂, hfind⟩ := exists_runDiscovery server hoffer ha hold s₁
    exact ⟨t₁ ++ t₂, _, s', hf₁.append hf₂, rfl, runs_bind.2 ⟨t₁, none, s₁, t₂, rfl, hfail, hfind⟩⟩
  · -- a member of the pool is reached on a route that leads to the peer
    have hdiscovery : ∀ candidates, d.offers server (.ok candidates) → ∀ c ∈ candidates,
        (c.addresses = [] → c.peerId ≠ old) ∧ ∀ a ∈ c.addresses, lastP2p a ≠ some old := by
      intro candidates hoffer
      by_contra hleads
      exact hoffered ⟨candidates, hoffer, (exists_candidateAddresses_iff relayAddress).2 hleads⟩
    have hpool : ¬ (server.peerOptions.sticky = true → ∀ q ∈ exitPool server s, q ≠ old →
        ∀ routes, d.answers [q] (.ok routes) → ∀ a ∈ routes.flatten, lastP2p a ≠ some old) :=
      fun hpool => h ⟨hdiscovery, hpool⟩
    push Not at hpool
    obtain ⟨hsticky, q, hq, hne, routes, hans, a, ha, hold⟩ := hpool
    have hskip : some q ≠ some old := fun heq => hne (Option.some.inj heq)
    obtain ⟨t₁, s₁, hhub, hloop, -⟩ := exists_poolLoop_run relayAddress server hq hskip hans ha hold
      (StickyStore.pool server.port server.fingerprint s).2
    -- the hub is asked for members of the pool only
    have hf₁ : d.Follows t₁ := by
      rcases poolLoop_effect hloop with ⟨_, _, _, _, -, -, hs, -⟩ | ⟨-, hs, -⟩ <;> exact d.follows_of_segment hhub hs
    have hreach :
        Runs (connectStickyPool relayAddress server server.fingerprint (some old) : M S _) s t₁ (some old) s₁ := by
      unfold connectStickyPool
      rw [if_pos hsticky]
      refine runs_bind.2 ⟨[], _, _, t₁, rfl, runs_modifyGet.2 ⟨rfl, rfl, rfl⟩, ?_⟩
      rw [pool_fst_eq_exitPool]
      exact hloop
    obtain ⟨t₂, s', hf₂, hremember⟩ := exists_remember d server old s₁
    refine ⟨t₁ ++ t₂, .ok { peer := old, source := .sticky }, s', hf₁.append hf₂, rfl, ?_⟩
    exact runs_bind.2 ⟨t₁, some old, s₁, t₂, rfl, hreach,
      runs_bind.2 ⟨t₂, (), s', [], by simp, hremember, runs_pure.2 ⟨rfl, rfl, rfl⟩⟩⟩

/-! ### The exact condition -/

/-- `rest` is what a connect does once the dropped exit is given up: all of it, or all that follows a failed reconnect
if the server fights for the exit. -/
def GivenUp (relayAddress : Multiaddr) (server : Server) (s : S) (old : PeerId) (tr rest : List Io) : Prop :=
  if server.peerOptions.sticky = true ∧ server.peerOptions.stickyReconnect = .withBackoff then
    ∃ fought s₁, tr = fought ++ rest ∧ Runs (reconnectStickyPeer relayAddress server old : M S _) s fought none s₁
  else rest = tr

/-- A peer that has been forgotten is spared as it was before. -/
private theorem spares_forgetPeer {d : Directory} {server : Server} {s : S} :
    d.Spares server (StickyStore.forgetPeer server.port old s) old ↔ d.Spares server s old := by
  constructor <;> rintro ⟨hdiscovery, hpool⟩ <;> refine ⟨hdiscovery, fun hsticky q hq hne => hpool hsticky q ?_ hne⟩
  · simpa [hne] using hq
  · rw [exitPool_forgetPeer] at hq
    exact List.mem_of_mem_filter hq

/-- A peer that is spared is neither dialled nor returned. -/
private theorem never_dialled {d : Directory} {server : Server} {s s' : S} {t : List Io}
    {r : Except ConnectError ConnectedDestination} (hspares : d.Spares server s old) (hf : d.Follows t)
    (h : Runs (connectPoolOrDiscover relayAddress server server.fingerprint (some old)) s t r s') :
    (∀ call ∈ dialCalls t, ∀ a ∈ call.1, lastP2p a ≠ some old) ∧ resultPeer r ≠ some old := by
  have hall := connectPoolOrDiscover_avoids hspares hf h
  refine ⟨fun call hcall a ha => ?_, fun hresult => ?_⟩
  · obtain ⟨e, he, hdial⟩ := List.mem_filterMap.1 hcall
    exact (hall e he).1 call hdial a ha
  · have hnamed : old ∈ namedPeers t := by
      rw [connectPoolOrDiscover_namedPeers h, hresult]
      simp
    obtain ⟨e, he, hnamed⟩ := mem_namedPeers.1 hnamed
    exact (hall e he).2 hnamed

/-- For a given hub and every honest dialer: once it is given up, the dropped exit is neither dialled nor returned,
exactly when no discovery answer leads to it and no route that the hub returns for another member of a sticky pool
does. -/
theorem avoids_iff (relayAddress : Multiaddr) (d : Directory) (server : Server) (s : S) (old : PeerId)
    (hpins : server.peerOptions.pinned = []) :
    (∀ tr r s', d.Follows tr → Runs (connect relayAddress server (some old)) s tr r s' →
      ∀ rest, GivenUp relayAddress server s old tr rest →
        (∀ call ∈ dialCalls rest, ∀ a ∈ call.1, lastP2p a ≠ some old) ∧ resultPeer r ≠ some old) ↔
      d.Spares server s old := by
  have hconnect : connect relayAddress server (some old) = (connectDiscovered relayAddress server (some old) : M S _) :=
    if_pos hpins
  have htarget : (server.peerOptions.sticky = true ∧ server.peerOptions.stickyReconnect = .withBackoff) →
      reconnectTarget server (some old) = some old := by
    rintro ⟨hsticky, hbackoff⟩
    simp [reconnectTarget, hsticky, hbackoff]
  have hnone : ¬ (server.peerOptions.sticky = true ∧ server.peerOptions.stickyReconnect = .withBackoff) →
      reconnectTarget server (some old) = none := by
    intro hnot
    simpa [reconnectTarget] using hnot
  by_cases hfight : server.peerOptions.sticky = true ∧ server.peerOptions.stickyReconnect = .withBackoff
  · simp only [hconnect, connectDiscovered, htarget hfight, GivenUp, if_pos hfight]
    constructor
    · intro h
      by_contra hspares
      rw [← spares_forgetPeer] at hspares
      -- the fight is lost, and what follows brings the peer back
      obtain ⟨fought, hf₁, hfail⟩ := exists_reconnectLoop_none relayAddress d server old s stickyReconnectAttempts
        (.new (.fromSecs 1) 2 (.fromSecs 8))
      obtain ⟨tr, result, s', hf₂, hold, hrun⟩ := exists_connectPoolOrDiscover relayAddress hspares
      refine (h (fought ++ tr) result s' (hf₁.append hf₂) ?_ tr ⟨fought, s, rfl, hfail⟩).2 hold
      exact runs_bind.2 ⟨fought, none, s, tr, rfl, hfail,
        runs_bind.2 ⟨[], (), _, tr, rfl, runs_modify.2 ⟨rfl, rfl⟩, hrun⟩⟩
    · rintro hspares tr result s' hf h rest ⟨fought, s₁, rfl, hfail⟩
      obtain ⟨t₁, o, s₂, t₂, htr, h₁, h₂⟩ := runs_bind.1 h
      obtain ⟨rfl, rfl, rfl⟩ := hfail.unique_prefix h₁ htr
      obtain rfl := List.append_cancel_left htr
      obtain ⟨_, _, _, t₃, rfl, h₃, h₄⟩ := runs_bind.1 h₂
      obtain ⟨rfl, rfl⟩ := runs_modify.1 h₃
      obtain ⟨rfl, -⟩ := reconnectLoop_namedPeers hfail
      exact never_dialled (spares_forgetPeer.2 hspares) hf.right h₄
  · simp only [hconnect, connectDiscovered, hnone hfight, GivenUp, if_neg hfight]
    constructor
    · intro h
      by_contra hspares
      obtain ⟨tr, result, s', hf, hold, hrun⟩ := exists_connectPoolOrDiscover relayAddress hspares
      exact (h tr result s' hf hrun tr rfl).2 hold
    · rintro hspares tr result s' hf h rest rfl
      exact never_dialled hspares hf h

theorem avoids_iff_other :
    let d : Directory :=
      { answers := fun _ ans => ans = .ok ∅, total := fun _ => ⟨_, rfl⟩
        offers := fun _ ans => ans = .ok [⟨⟨[2]⟩, []⟩] }
    ∀ tr r s', d.Follows tr → Runs (connect [] (discoveryServer 1080) (some ⟨[1]⟩)) StickyState.empty tr r s' →
      ∀ rest, GivenUp [] (discoveryServer 1080) StickyState.empty ⟨[1]⟩ tr rest →
        (∀ call ∈ dialCalls rest, ∀ a ∈ call.1, lastP2p a ≠ some ⟨[1]⟩) ∧ resultPeer r ≠ some ⟨[1]⟩ := by
  intro d
  refine (avoids_iff [] d (discoveryServer 1080) StickyState.empty ⟨[1]⟩ rfl).2 ⟨fun candidates hoffer c hc => ?_, ?_⟩
  · cases hoffer
    obtain rfl := List.mem_singleton.1 hc
    exact ⟨fun _ => by decide, by simp⟩
  · exact fun _ q hq => by cases hq

/-- The hub goes on offering the exit that has dropped. -/
private def offeredAgain : World :=
  { routes := [], candidates := [⟨⟨[1]⟩, []⟩], online := [⟨[1]⟩], connected := [] }

/-- A server that fails fast is given back the exit that it has just lost. -/
theorem dropped_returned :
    ¬ ∀ (server : Server) (s : StickyState) old tr r s', server.peerOptions.pinned = [] → (∀ e ∈ tr, Io.DialHonest e) →
      Runs (connect [] server (some old)) s tr r s' →
      ∀ rest, GivenUp [] server s old tr rest →
        (∀ call ∈ dialCalls rest, ∀ a ∈ call.1, lastP2p a ≠ some old) ∧ resultPeer r ≠ some old := by
  intro h
  let server : Server := { discoveryServer 1080 with peerOptions := { options with stickyReconnect := .failFast } }
  let run := exec offeredAgain.answer (connect [] server (some ⟨[1]⟩)) StickyState.empty
  have hall : GivenUp [] server StickyState.empty ⟨[1]⟩ run.1 run.1 := by
    unfold GivenUp
    rw [if_neg (by decide)]
  have hreturned := (h server .empty ⟨[1]⟩ _ _ _ rfl World.dialHonest (exec_runs offeredAgain.answer _ _) _ hall).2
  exact hreturned rfl

end P2Proxy
