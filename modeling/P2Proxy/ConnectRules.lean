import P2Proxy.Reach

/-!
# Rules for the connect flow

Two facts about every run of `connect`.  The exit it returns is the peer that the dialer named last
(`connect_lastNamed`).  And it changes the store only in four ways, all for the server's own port and only if the
server is sticky: reading the pool, forgetting a member, and remembering a peer that was named last; a relation that
respects these (`ConnectLaw`) relates the stores before and after (`connect_obeys`).
-/

namespace P2Proxy

open Interaction

variable {S : Type} {relayAddress : Multiaddr} {server : Server} {s s' : S} {tr : List Io}

/-! ### The peer that is returned -/

/-- The peer of a result. -/
def resultPeer : Except ConnectError ConnectedDestination → Option PeerId
  | .ok d => some d.peer
  | .error _ => none

private theorem searchLaw_lastNamed {β : Type} (f : β → PeerId) :
    SearchLaw (fun tr (r : Option β) => lastNamed tr = r.map f) where
  nil := rfl
  append h₁ h₂ := by rw [lastNamed_append, h₂, h₁]; simp

private theorem searchLaw_namedPeers {β : Type} (f : β → PeerId) :
    SearchLaw (fun tr (r : Option β) => namedPeers tr = (r.map f).toList) where
  nil := rfl
  append h₁ h₂ := by rw [namedPeers_append, h₂, h₁]; rfl

theorem adoptBestPinnedRank_lastNamed {pinned : List DestinationPeerEntry} {rank : Nat} {peer : PeerId}
    {best : Nat × PeerId} (h : Runs (adoptBestPinnedRank pinned rank peer : M S _) s tr best s') :
    (lastNamed tr).getD peer = best.2 := by
  unfold adoptBestPinnedRank at h
  obtain ⟨t₁, better, s₁, t₂, rfl, h₁, h₂⟩ := runs_bind.1 h
  obtain ⟨rfl, rfl, rfl⟩ := runs_pure.1 h₂
  have hn : lastNamed t₁ = better.map Prod.snd := by
    refine (searchLaw_lastNamed Prod.snd).findSomeM? (fun e _ s tr r s' hr => ?_) h₁
    obtain ⟨t₁, b, s₁, t₂, rfl, ha, hb⟩ := runs_bind.1 hr
    obtain ⟨rfl, rfl⟩ := runs_ask.1 ha
    cases b <;> (obtain ⟨rfl, rfl, rfl⟩ := runs_pure.1 hb; rfl)
  rw [List.append_nil, hn]
  cases better <;> rfl

theorem dialPinned_lastNamed {pinned : List DestinationPeerEntry} {resolved : Routes}
    {e : DestinationPeerEntry × Nat} {r : Option ConnectedDestination}
    (h : Runs (dialPinned pinned resolved e : M S _) s tr r s') :
    lastNamed tr = r.map ConnectedDestination.peer := by
  unfold dialPinned at h
  split at h
  · obtain ⟨rfl, rfl, -⟩ := runs_pure.1 h; rfl
  · obtain ⟨t₁, o, s₁, t₂, rfl, h₁, h₂⟩ := runs_bind.1 h
    obtain ⟨-, hd⟩ := runs_dial.1 h₁
    cases o with
    | none =>
      obtain ⟨rfl, rfl, -⟩ := runs_pure.1 h₂
      simp [lastNamed_of_namedPeers hd.namedPeers_eq]
    | some peer =>
      obtain ⟨t₃, best, s₂, t₄, rfl, h₃, h₄⟩ := runs_bind.1 h₂
      obtain ⟨rfl, rfl, -⟩ := runs_pure.1 h₄
      have hb := adoptBestPinnedRank_lastNamed h₃
      simp only [lastNamed_append, lastNamed_of_namedPeers hd.namedPeers_eq, List.append_nil, Option.map_some, ← hb]
      cases lastNamed t₃ <;> rfl

theorem pinnedPass_lastNamed {port : Port} {pinned : List DestinationPeerEntry} {r : Option ConnectedDestination}
    (h : Runs (pinnedPass relayAddress port pinned : M S _) s tr r s') :
    lastNamed tr = r.map ConnectedDestination.peer := by
  unfold pinnedPass at h
  obtain ⟨t₁, resolved, s₁, t₂, rfl, h₁, h₂⟩ := runs_bind.1 h
  obtain ⟨ans, rfl, rfl, rfl⟩ := runs_resolveRoutes.1 h₁
  obtain ⟨t₃, u, s₂, t₄, rfl, h₃, h₄⟩ := runs_bind.1 h₂
  obtain ⟨rfl, rfl⟩ := runs_emit.1 h₃
  have hn := (searchLaw_lastNamed ConnectedDestination.peer).findSomeM?
    (fun e _ _ _ _ _ hr => dialPinned_lastNamed hr) h₄
  exact hn

variable [StickyStore S]

theorem runs_remember {fp : String} {peer : PeerId} {u : Unit} :
    Runs (remember server fp peer : M S Unit) s tr u s' ↔
      (server.peerOptions.sticky = true ∧ ∃ now, tr = [⟨.utcNow, now⟩] ∧
        s' = (StickyStore.remember now server.port fp peer server.pool.maxTotal s).2) ∨
      (server.peerOptions.sticky = false ∧ tr = [] ∧ s' = s) := by
  unfold remember
  split
  · rename_i h
    simp only [h, true_and, Bool.true_eq_false, false_and, or_false, runs_bind]
    constructor
    · rintro ⟨t₁, now, s₁, t₂, rfl, h₁, h₂⟩
      obtain ⟨rfl, rfl⟩ := runs_ask.1 h₁
      obtain ⟨rfl, rfl⟩ := runs_modify.1 h₂
      exact ⟨now, rfl, rfl⟩
    · rintro ⟨now, rfl, rfl⟩
      exact ⟨_, now, s, [], rfl, runs_ask.2 ⟨rfl, rfl⟩, runs_modify.2 ⟨rfl, rfl⟩⟩
  · rename_i h
    simp [h]

theorem remember_namedPeers {fp : String} {peer : PeerId} {u : Unit}
    (h : Runs (remember server fp peer : M S Unit) s tr u s') : namedPeers tr = [] := by
  rcases runs_remember.1 h with ⟨-, now, rfl, -⟩ | ⟨-, rfl, -⟩ <;> rfl

theorem reconnectLoop_namedPeers {peer : PeerId} {n : Nat} {b : Backoff} {r : Option PeerId}
    (h : Runs (reconnectLoop relayAddress server peer n b : M S _) s tr r s') :
    s' = s ∧ namedPeers tr = r.toList := by
  induction n generalizing s tr b with
  | zero => obtain ⟨rfl, rfl, rfl⟩ := runs_pure.1 h; exact ⟨rfl, rfl⟩
  | succ n ih =>
    unfold reconnectLoop at h
    obtain ⟨t₁, o, s₁, t₂, rfl, h₁, h₂⟩ := runs_bind.1 h
    obtain ⟨rfl, hr⟩ := runs_tryReachPeer.1 h₁
    rw [namedPeers_append, hr.namedPeers_eq]
    cases o with
    | some p => obtain ⟨rfl, rfl, rfl⟩ := runs_pure.1 h₂; exact ⟨rfl, rfl⟩
    | none =>
      dsimp only at h₂
      split at h₂
      · obtain ⟨t₃, u, s₂, t₄, rfl, h₃, h₄⟩ := runs_bind.1 h₂
        obtain ⟨rfl, rfl⟩ := runs_sleep.1 h₃
        obtain ⟨rfl, hn⟩ := ih h₄
        exact ⟨rfl, hn⟩
      · obtain ⟨rfl, rfl, rfl⟩ := runs_pure.1 h₂
        exact ⟨rfl, rfl⟩

theorem runs_tryPoolMember {skip : Option PeerId} {peer : PeerId} {r : Option PeerId} :
    Runs (tryPoolMember relayAddress server skip peer : M S _) s tr r s' ↔
      (some peer = skip ∧ tr = [] ∧ r = none ∧ s' = s) ∨
      some peer ≠ skip ∧ ReachRun relayAddress (StickyStore.directAddress server.port peer s) peer tr r ∧
        s' = if r = none then StickyStore.forgetPeer server.port peer s else s := by
  unfold tryPoolMember
  split
  · rename_i h
    simp [h]
  · rename_i h
    simp only [h, false_and, false_or, ne_eq, not_false_iff, true_and, runs_bind]
    constructor
    · rintro ⟨t₁, o, s₁, t₂, rfl, h₁, h₂⟩
      obtain ⟨rfl, hr⟩ := runs_tryReachPeer.1 h₁
      cases o with
      | some p =>
        obtain ⟨rfl, rfl, rfl⟩ := runs_pure.1 h₂
        exact ⟨by simpa using hr, rfl⟩
      | none =>
        obtain ⟨t₃, u, s₂, t₄, rfl, h₃, h₄⟩ := runs_bind.1 h₂
        obtain ⟨rfl, rfl⟩ := runs_modify.1 h₃
        obtain ⟨rfl, rfl, rfl⟩ := runs_pure.1 h₄
        exact ⟨by simpa using hr, rfl⟩
    · rintro ⟨hr, rfl⟩
      refine ⟨tr, r, s, [], by simp, runs_tryReachPeer.2 ⟨rfl, hr⟩, ?_⟩
      cases r with
      | some p => exact runs_pure.2 ⟨rfl, rfl, rfl⟩
      | none =>
        exact runs_bind.2 ⟨[], (), _, [], rfl, runs_modify.2 ⟨rfl, rfl⟩, runs_pure.2 ⟨rfl, rfl, rfl⟩⟩

theorem connectStickyPool_namedPeers {fp : String} {skip r : Option PeerId}
    (h : Runs (connectStickyPool relayAddress server fp skip : M S _) s tr r s') : namedPeers tr = r.toList := by
  unfold connectStickyPool at h
  split at h
  · obtain ⟨t₁, peers, s₁, t₂, rfl, h₁, h₂⟩ := runs_bind.1 h
    obtain ⟨rfl, -, -⟩ := runs_modifyGet.1 h₁
    refine ((searchLaw_namedPeers id).findSomeM? (fun p _ s tr r s' hr => ?_) h₂).trans (by simp)
    rcases runs_tryPoolMember.1 hr with ⟨-, rfl, rfl, -⟩ | ⟨-, hr, -⟩
    · rfl
    · simpa using hr.namedPeers_eq
  · obtain ⟨rfl, rfl, -⟩ := runs_pure.1 h; rfl

theorem runs_discoveryAttempt {fp : String} {r : Option ConnectedDestination} :
    Runs (discoveryAttempt relayAddress server fp : M S _) s tr r s' ↔
      (∃ e, tr = [⟨.findNodes server findNodesDiscoveryLimit, .error e⟩, ⟨.sleep (.fromSecs 1), ()⟩] ∧
        r = none ∧ s' = s) ∨
      (tr = [⟨.findNodes server findNodesDiscoveryLimit, .ok []⟩, ⟨.emit (.serverPool server.port []), ()⟩,
        ⟨.sleep (.fromSecs 1), ()⟩] ∧ r = none ∧ s' = s) ∨
      ∃ candidates o t₁ t₂, candidates ≠ [] ∧
        tr = ⟨.findNodes server findNodesDiscoveryLimit, .ok candidates⟩ ::
          ⟨.emit (.serverPool server.port candidates), ()⟩ :: (t₁ ++ t₂) ∧
        DialRun (candidateAddresses relayAddress candidates) t₁ o ∧
        r = o.map (fun peer => { peer, source := .discovered }) ∧
        match o with
        | none => t₂ = [] ∧ s' = s
        | some peer => Runs (remember server fp peer : M S Unit) s t₂ () s' := by
  unfold discoveryAttempt
  rw [runs_bind]
  constructor
  · rintro ⟨_, e | candidates, _, t, rfl, h₁, h₂⟩ <;> obtain ⟨rfl, rfl⟩ := runs_ask.1 h₁
    · -- the hub does not answer
      obtain ⟨_, _, _, _, rfl, h₃, h₄⟩ := runs_bind.1 h₂
      obtain ⟨rfl, rfl⟩ := runs_sleep.1 h₃
      obtain ⟨rfl, rfl, rfl⟩ := runs_pure.1 h₄
      exact .inl ⟨e, rfl, rfl, rfl⟩
    · obtain ⟨_, _, _, t, rfl, h₃, h₄⟩ := runs_bind.1 h₂
      obtain ⟨rfl, rfl⟩ := runs_emit.1 h₃
      split at h₄
      · rename_i hc
        -- nobody is offered
        obtain rfl := List.isEmpty_iff.1 hc
        obtain ⟨_, _, _, _, rfl, h₅, h₆⟩ := runs_bind.1 h₄
        obtain ⟨rfl, rfl⟩ := runs_sleep.1 h₅
        obtain ⟨rfl, rfl, rfl⟩ := runs_pure.1 h₆
        exact .inr (.inl ⟨rfl, rfl, rfl⟩)
      · rename_i hc
        obtain ⟨t₁, o, _, t₂, rfl, h₅, h₆⟩ := runs_bind.1 h₄
        obtain ⟨rfl, hd⟩ := runs_dial.1 h₅
        -- the candidates are dialled at once
        refine .inr (.inr ⟨candidates, o, t₁, t₂, fun h => hc (List.isEmpty_iff.2 h), rfl, hd, ?_⟩)
        cases o with
        | none =>
          obtain ⟨rfl, rfl, rfl⟩ := runs_pure.1 h₆
          exact ⟨rfl, rfl, rfl⟩
        | some peer =>
          obtain ⟨t₃, _, _, _, rfl, h₇, h₈⟩ := runs_bind.1 h₆
          obtain ⟨rfl, rfl, rfl⟩ := runs_pure.1 h₈
          exact ⟨rfl, by simpa using h₇⟩
  · rintro (⟨e, rfl, rfl, rfl⟩ | ⟨rfl, rfl, rfl⟩ | ⟨candidates, o, t₁, t₂, hc, rfl, hd, rfl, h⟩)
    · exact ⟨_, .error e, s', _, rfl, runs_ask.2 ⟨rfl, rfl⟩,
        runs_bind.2 ⟨_, (), s', [], rfl, runs_sleep.2 ⟨rfl, rfl⟩, runs_pure.2 ⟨rfl, rfl, rfl⟩⟩⟩
    · exact ⟨_, .ok [], s', _, rfl, runs_ask.2 ⟨rfl, rfl⟩, runs_bind.2 ⟨_, (), s', _, rfl,
        runs_emit.2 ⟨rfl, rfl⟩, runs_bind.2 ⟨_, (), s', [], rfl, runs_sleep.2 ⟨rfl, rfl⟩,
          runs_pure.2 ⟨rfl, rfl, rfl⟩⟩⟩⟩
    · refine ⟨_, .ok candidates, s, _, rfl, runs_ask.2 ⟨rfl, rfl⟩, runs_bind.2 ⟨_, (), s, _, rfl,
        runs_emit.2 ⟨rfl, rfl⟩, ?_⟩⟩
      rw [if_neg (fun h => hc (List.isEmpty_iff.1 h))]
      refine runs_bind.2 ⟨t₁, o, s, t₂, rfl, runs_dial.2 ⟨rfl, hd⟩, ?_⟩
      cases o with
      | none =>
        obtain ⟨rfl, rfl⟩ := h
        exact runs_pure.2 ⟨rfl, rfl, rfl⟩
      | some peer =>
        exact runs_bind.2 ⟨t₂, (), s', [], by simp, h, runs_pure.2 ⟨rfl, rfl, rfl⟩⟩

theorem discoveryAttempt_namedPeers {fp : String} {r : Option ConnectedDestination}
    (h : Runs (discoveryAttempt relayAddress server fp : M S _) s tr r s') :
    namedPeers tr = (r.map ConnectedDestination.peer).toList := by
  rcases runs_discoveryAttempt.1 h with ⟨e, rfl, rfl, -⟩ | ⟨rfl, rfl, -⟩ | ⟨cs, o, t₁, t₂, -, rfl, hd, rfl, hr⟩
  · rfl
  · rfl
  · show namedPeers (t₁ ++ t₂) = _
    have ht₂ : namedPeers t₂ = [] := by
      cases o with
      | none => obtain ⟨rfl, -⟩ := hr; rfl
      | some peer => exact remember_namedPeers hr
    rw [namedPeers_append, ht₂, hd.namedPeers_eq]
    cases o <;> rfl

theorem runDiscovery_namedPeers {fp : String} {r : Except ConnectError ConnectedDestination}
    (h : Runs (runDiscovery relayAddress server fp : M S _) s tr r s') : namedPeers tr = (resultPeer r).toList := by
  unfold runDiscovery at h
  obtain ⟨t₁, o, s₁, t₂, rfl, h₁, h₂⟩ := runs_bind.1 h
  have hn := (searchLaw_namedPeers ConnectedDestination.peer).attempts
    (fun _ _ _ _ hr => discoveryAttempt_namedPeers hr) h₁
  rw [namedPeers_append, hn]
  cases o with
  | some d => obtain ⟨rfl, rfl, -⟩ := runs_pure.1 h₂; rfl
  | none =>
    obtain ⟨_, _, _, _, rfl, h₃, h₄⟩ := runs_bind.1 h₂
    obtain ⟨rfl, rfl⟩ := runs_emit.1 h₃
    obtain ⟨rfl, rfl, rfl⟩ := runs_pure.1 h₄
    rfl

theorem connectPoolOrDiscover_namedPeers {fp : String} {avoid : Option PeerId}
    {r : Except ConnectError ConnectedDestination}
    (h : Runs (connectPoolOrDiscover relayAddress server fp avoid : M S _) s tr r s') :
    namedPeers tr = (resultPeer r).toList := by
  unfold connectPoolOrDiscover at h
  obtain ⟨t₁, o, s₁, t₂, rfl, h₁, h₂⟩ := runs_bind.1 h
  rw [namedPeers_append, connectStickyPool_namedPeers h₁]
  cases o with
  | some peer =>
    obtain ⟨t₃, _, _, _, rfl, h₃, h₄⟩ := runs_bind.1 h₂
    obtain ⟨rfl, rfl, -⟩ := runs_pure.1 h₄
    rw [List.append_nil, remember_namedPeers h₃]
    rfl
  | none => exact runDiscovery_namedPeers h₂

/-- Without pins the dialer names at most one peer in a connect, and this peer is returned. -/
theorem connectDiscovered_namedPeers {avoid : Option PeerId} {r : Except ConnectError ConnectedDestination}
    (h : Runs (connectDiscovered relayAddress server avoid : M S _) s tr r s') :
    namedPeers tr = (resultPeer r).toList := by
  unfold connectDiscovered at h
  split at h
  · obtain ⟨t₁, o, s₁, t₂, rfl, h₁, h₂⟩ := runs_bind.1 h
    rw [namedPeers_append, (reconnectLoop_namedPeers h₁).2]
    cases o with
    | some peer =>
      obtain ⟨t₃, _, _, _, rfl, h₃, h₄⟩ := runs_bind.1 h₂
      obtain ⟨rfl, rfl, -⟩ := runs_pure.1 h₄
      rw [List.append_nil, remember_namedPeers h₃]
      rfl
    | none =>
      obtain ⟨_, _, _, t₃, rfl, h₃, h₄⟩ := runs_bind.1 h₂
      obtain ⟨rfl, rfl⟩ := runs_modify.1 h₃
      exact connectPoolOrDiscover_namedPeers h₄
  · exact connectPoolOrDiscover_namedPeers h

/-- What discovery finds is reported as discovered. -/
theorem runDiscovery_source {fp : String} {d : ConnectedDestination}
    (h : Runs (runDiscovery relayAddress server fp : M S _) s tr (.ok d) s') : d.source = .discovered := by
  obtain ⟨t₁, o, s₁, t₂, rfl, h₁, h₂⟩ := runs_bind.1 h
  have ho : ∀ c ∈ o, c.source = .discovered := by
    refine SearchLaw.attempts (P := fun _ (r : Option ConnectedDestination) => ∀ c ∈ r, c.source = .discovered)
      ⟨by simp, fun _ h => h⟩ (fun s tr r s' hr => ?_) h₁
    rcases runs_discoveryAttempt.1 hr with ⟨e, -, rfl, -⟩ | ⟨-, rfl, -⟩ | ⟨cs, o, t₁, t₂, -, -, -, rfl, -⟩
    · simp
    · simp
    · simp
  cases o with
  | none =>
    obtain ⟨_, _, _, _, rfl, h₃, h₄⟩ := runs_bind.1 h₂
    cases (runs_pure.1 h₄).2.1
  | some c =>
    cases (runs_pure.1 h₂).2.1
    exact ho _ rfl

/-- A discovered or remembered exit is not reported as a pinned one. -/
theorem connectDiscovered_source {avoid : Option PeerId} {d : ConnectedDestination} {rank : Nat}
    (h : Runs (connectDiscovered relayAddress server avoid : M S _) s tr (.ok d) s') : d.source ≠ .pinned rank := by
  have hpool : ∀ {s tr s'},
      Runs (connectPoolOrDiscover relayAddress server server.fingerprint avoid : M S _) s tr (.ok d) s' →
      d.source ≠ .pinned rank := by
    intro s tr s' h
    obtain ⟨t₁, o, s₁, t₂, rfl, h₁, h₂⟩ := runs_bind.1 h
    cases o with
    | none => rw [runDiscovery_source h₂]; simp
    | some peer =>
      obtain ⟨_, _, _, _, rfl, h₃, h₄⟩ := runs_bind.1 h₂
      cases (runs_pure.1 h₄).2.1
      simp
  unfold connectDiscovered at h
  split at h
  · obtain ⟨t₁, o, s₁, t₂, rfl, h₁, h₂⟩ := runs_bind.1 h
    cases o with
    | some peer =>
      obtain ⟨_, _, _, _, rfl, h₃, h₄⟩ := runs_bind.1 h₂
      cases (runs_pure.1 h₄).2.1
      simp
    | none =>
      obtain ⟨_, _, _, t₃, rfl, h₃, h₄⟩ := runs_bind.1 h₂
      exact hpool h₄
  · exact hpool h

theorem pinnedRound_lastNamed {pinned : List DestinationPeerEntry}
    {r : Option (Except ConnectError ConnectedDestination)}
    (h : Runs (pinnedRound relayAddress server pinned : M S _) s tr r s') :
    lastNamed tr = r.bind resultPeer := by
  unfold pinnedRound at h
  obtain ⟨t₁, o, s₁, t₂, rfl, h₁, h₂⟩ := runs_bind.1 h
  rw [lastNamed_append, pinnedPass_lastNamed h₁]
  cases o with
  | some d => obtain ⟨rfl, rfl, -⟩ := runs_pure.1 h₂; rfl
  | none =>
    rw [Option.map_none, Option.or_none]
    dsimp only at h₂
    split at h₂
    · obtain ⟨t₃, c, _, _, rfl, h₃, h₄⟩ := runs_bind.1 h₂
      obtain ⟨rfl, rfl, -⟩ := runs_pure.1 h₄
      rw [List.append_nil, lastNamed_of_namedPeers (connectDiscovered_namedPeers h₃)]
      rfl
    · obtain ⟨_, _, _, _, rfl, h₃, h₄⟩ := runs_bind.1 h₂
      obtain ⟨rfl, rfl⟩ := runs_sleep.1 h₃
      obtain ⟨rfl, rfl, -⟩ := runs_pure.1 h₄
      rfl

/-- The exit that `connect` returns is the peer that the dialer named last; without an exit it named none. -/
theorem connect_lastNamed {avoid : Option PeerId} {r : Except ConnectError ConnectedDestination}
    (h : Runs (connect relayAddress server avoid : M S _) s tr r s') : lastNamed tr = resultPeer r := by
  unfold connect at h
  split at h
  · exact lastNamed_of_namedPeers (connectDiscovered_namedPeers h)
  · unfold connectPinned at h
    obtain ⟨t₁, o, s₁, t₂, rfl, h₁, h₂⟩ := runs_bind.1 h
    have hn : lastNamed t₁ = o.bind resultPeer := by
      refine SearchLaw.attempts (P := fun tr r => lastNamed tr = r.bind resultPeer) ⟨rfl, ?_⟩
        (fun _ _ _ _ hr => pinnedRound_lastNamed hr) h₁
      intro t₁ t₂ r h₁ h₂
      rw [lastNamed_append, h₁, h₂]
      simp
    rw [lastNamed_append, hn]
    cases o with
    | some c => obtain ⟨rfl, rfl, -⟩ := runs_pure.1 h₂; rfl
    | none =>
      obtain ⟨_, _, _, _, rfl, h₃, h₄⟩ := runs_bind.1 h₂
      obtain ⟨rfl, rfl⟩ := runs_emit.1 h₃
      obtain ⟨rfl, rfl, rfl⟩ := runs_pure.1 h₄
      rfl

/-! ### What happens to the store -/

/-- A relation that holds across each way in which connecting `server` may use its store: a sticky server reads its
pool, forgets members, and remembers a peer right after the dialer has named it. -/
structure ConnectLaw (server : Server) (R : S → List Io → S → Prop) : Prop extends Law R where
  call : ∀ s e, R s [e] s
  pool : server.peerOptions.sticky = true → ∀ s, R s [] (StickyStore.pool server.port server.fingerprint s).2
  forget : server.peerOptions.sticky = true → ∀ s p, R s [] (StickyStore.forgetPeer server.port p s)
  adopt : server.peerOptions.sticky = true → ∀ {s t s₁ p} now, R s t s₁ → lastNamed t = some p →
    R s (t ++ [⟨.utcNow, now⟩])
      (StickyStore.remember now server.port server.fingerprint p server.pool.maxTotal s₁).2

namespace ConnectLaw

variable {R : S → List Io → S → Prop}

theorem unchanged (hR : ConnectLaw server R) (s : S) (tr : List Io) : R s tr s :=
  hR.toLaw.of_calls hR.call s tr

/-- Remember the peer that was named last, and return it. -/
private theorem remember_obeys (hR : ConnectLaw server R) {t₁ t₂ : List Io} {s₁ : S} {p : PeerId} {u : Unit}
    (h₁ : R s t₁ s₁) (hp : lastNamed t₁ = some p)
    (h₂ : Runs (remember server server.fingerprint p : M S Unit) s₁ t₂ u s') : R s (t₁ ++ t₂) s' := by
  rcases runs_remember.1 h₂ with ⟨hs, now, rfl, rfl⟩ | ⟨-, rfl, rfl⟩
  · exact hR.adopt hs now h₁ hp
  · rw [List.append_nil]; exact h₁

theorem connectStickyPool (hR : ConnectLaw server R) (skip : Option PeerId) :
    Obeys R (connectStickyPool relayAddress server server.fingerprint skip : M S _) := by
  unfold P2Proxy.connectStickyPool
  split
  · rename_i hs
    refine Obeys.bind hR.toLaw (Obeys.updateGet fun s => hR.pool hs s) fun peers => ?_
    refine Obeys.findSomeM? hR.toLaw peers fun p _ s tr r s' h => ?_
    rcases runs_tryPoolMember.1 h with ⟨-, rfl, -, rfl⟩ | ⟨-, -, rfl⟩
    · exact hR.refl _
    · split
      · have := hR.trans (hR.unchanged s tr) (hR.forget hs s p)
        rwa [List.append_nil] at this
      · exact hR.unchanged s tr
  · exact Obeys.pure hR.toLaw none

theorem discoveryAttempt (hR : ConnectLaw server R) :
    Obeys R (discoveryAttempt relayAddress server server.fingerprint : M S _) := by
  intro s tr r s' h
  rcases runs_discoveryAttempt.1 h with ⟨e, rfl, -, rfl⟩ | ⟨rfl, -, rfl⟩ | ⟨cs, o, t₁, t₂, -, rfl, hd, -, hr⟩
  · exact hR.unchanged _ _
  · exact hR.unchanged _ _
  · cases o with
    | none => obtain ⟨rfl, rfl⟩ := hr; exact hR.unchanged _ _
    | some peer =>
      have hn : lastNamed (⟨.findNodes server findNodesDiscoveryLimit, .ok cs⟩ ::
          ⟨.emit (.serverPool server.port cs), ()⟩ :: t₁ : List Io) = some peer :=
        lastNamed_of_namedPeers hd.namedPeers_eq
      exact hR.remember_obeys (hR.unchanged s _) hn hr

theorem connectPoolOrDiscover (hR : ConnectLaw server R) (avoid : Option PeerId) :
    Obeys R (connectPoolOrDiscover relayAddress server server.fingerprint avoid : M S _) := by
  intro s tr r s' h
  obtain ⟨t₁, o, s₁, t₂, rfl, h₁, h₂⟩ := runs_bind.1 h
  have h₁' := hR.connectStickyPool avoid _ _ _ _ h₁
  cases o with
  | some peer =>
    obtain ⟨t₃, _, _, _, rfl, h₃, h₄⟩ := runs_bind.1 h₂
    obtain ⟨rfl, -, rfl⟩ := runs_pure.1 h₄
    rw [List.append_nil]
    exact hR.remember_obeys h₁' (lastNamed_of_namedPeers (connectStickyPool_namedPeers h₁)) h₃
  | none =>
    refine hR.trans h₁' ?_
    refine Obeys.bind hR.toLaw (Obeys.attempts hR.toLaw hR.discoveryAttempt _) (fun o => ?_) _ _ _ _ h₂
    cases o with
    | some d => exact Obeys.pure hR.toLaw _
    | none => exact Obeys.bind hR.toLaw (Obeys.ask fun s x => hR.call s _) fun _ => Obeys.pure hR.toLaw _

theorem connectDiscovered (hR : ConnectLaw server R) (avoid : Option PeerId) :
    Obeys R (connectDiscovered relayAddress server avoid : M S _) := by
  intro s tr r s' h
  unfold P2Proxy.connectDiscovered at h
  split at h
  · rename_i old hold
    have hs : server.peerOptions.sticky = true := by
      unfold reconnectTarget at hold
      obtain ⟨-, hold⟩ := Option.filter_eq_some_iff.1 hold
      simp only [Bool.and_eq_true] at hold
      exact hold.1
    obtain ⟨t₁, o, s₁, t₂, rfl, h₁, h₂⟩ := runs_bind.1 h
    obtain ⟨rfl, hn⟩ := reconnectLoop_namedPeers h₁
    have h₁' := hR.unchanged s₁ t₁
    cases o with
    | some peer =>
      obtain ⟨t₃, _, _, _, rfl, h₃, h₄⟩ := runs_bind.1 h₂
      obtain ⟨rfl, -, rfl⟩ := runs_pure.1 h₄
      rw [List.append_nil]
      exact hR.remember_obeys h₁' (lastNamed_of_namedPeers hn) h₃
    | none =>
      obtain ⟨_, _, _, t₃, rfl, h₃, h₄⟩ := runs_bind.1 h₂
      obtain ⟨rfl, rfl⟩ := runs_modify.1 h₃
      exact hR.trans h₁' (hR.trans (hR.forget hs s₁ old) (hR.connectPoolOrDiscover avoid _ _ _ _ h₄))
  · exact hR.connectPoolOrDiscover avoid _ _ _ _ h

end ConnectLaw

/-- Every run of `connect` obeys every law of this kind. -/
theorem connect_obeys {R : S → List Io → S → Prop} (hR : ConnectLaw server R) (avoid : Option PeerId) :
    Obeys R (connect relayAddress server avoid : M S _) := by
  have hask : ∀ q, Obeys R (ask q : M S (Call.Answer q)) := fun q => Obeys.ask fun s x => hR.call s ⟨q, x⟩
  unfold connect
  split
  · exact hR.connectDiscovered avoid
  · refine Obeys.bind hR.toLaw (Obeys.attempts hR.toLaw ?_ _) fun o => ?_
    · refine Obeys.bind hR.toLaw ?_ fun o => ?_
      · refine Obeys.bind hR.toLaw (Obeys.bind hR.toLaw (hask _) fun _ => Obeys.pure hR.toLaw _) fun resolved => ?_
        refine Obeys.bind hR.toLaw (hask _) fun _ => Obeys.findSomeM? hR.toLaw _ fun e _ => ?_
        unfold dialPinned
        split
        · exact Obeys.pure hR.toLaw none
        · intro s tr r s' h
          obtain ⟨t₁, o, s₁, t₂, rfl, h₁, h₂⟩ := runs_bind.1 h
          obtain ⟨rfl, -⟩ := runs_dial.1 h₁
          refine hR.trans (hR.unchanged s₁ t₁) ?_
          cases o with
          | none => exact Obeys.pure hR.toLaw none _ _ _ _ h₂
          | some peer =>
            refine Obeys.bind hR.toLaw (Obeys.bind hR.toLaw (Obeys.findSomeM? hR.toLaw _ fun e _ => ?_)
              fun _ => Obeys.pure hR.toLaw _) (fun _ => Obeys.pure hR.toLaw _) _ _ _ _ h₂
            refine Obeys.bind hR.toLaw (hask _) fun b => ?_
            split <;> exact Obeys.pure hR.toLaw _
      · cases o with
        | some d => exact Obeys.pure hR.toLaw _
        | none =>
          dsimp only
          split
          · exact Obeys.bind hR.toLaw (hR.connectDiscovered none) fun _ => Obeys.pure hR.toLaw _
          · exact Obeys.bind hR.toLaw (hask _) fun _ => Obeys.pure hR.toLaw _
    · cases o with
      | some c => exact Obeys.pure hR.toLaw _
      | none => exact Obeys.bind hR.toLaw (hask _) fun _ => Obeys.pure hR.toLaw _

end P2Proxy
