import P2Proxy.ConnectRules

/-!
# Pinned failover

Which entry of a pinned list a connect picks, and what it did before.  A pass asks the hub for routes, announces which
entries have one, and dials entry after entry; `FailedEntries` is the trace of entries that do not connect, `FailedPass`
and `WonPass` are those of a pass.  With a hub and a dialer that name peers truthfully, the pick of a pass is the entry
of its rank, and every entry before it failed in that pass and was not connected at its end.
-/

namespace P2Proxy

open Interaction

variable {S : Type} {relayAddress : Multiaddr} {server : Server} {s s' : S} {tr : List Io}
  {pinned : List DestinationPeerEntry} {resolved : Routes}

/-! ### The hub's routes -/

/-- The routes to a peer lead where the hub's do; synthesized ones lead to the peer. -/
theorem peer_of_mem_routesOf {peers : List PeerId} {ans : Except DirectoryError Routes} {p q : PeerId}
    {as : List Multiaddr} {a : Multiaddr} (hhub : Names ans p)
    (h : (routesOf relayAddress peers ans).lookup p = some as) (ha : a ∈ as) (hq : lastP2p a = some q) : q = p := by
  rcases lookup_routesOf h ha with ⟨routes, rfl, hl⟩ | ⟨-, hp⟩
  · exact hhub routes as rfl hl a ha q hq
  · rw [hp, Option.some.injEq] at hq
    exact hq.symm

theorem peer_of_mem_candidateRoutes {peers : List PeerId} {ans : Except DirectoryError Routes}
    {entry : DestinationPeerEntry} {a : Multiaddr} {q : PeerId} (hentry : entry.Coherent)
    (hhub : Names ans entry.peerId) (ha : a ∈ candidateRoutes entry (routesOf relayAddress peers ans))
    (hq : lastP2p a = some q) : q = entry.peerId := by
  rcases Finset.mem_union.1 ha with ha | ha
  · cases hl : (routesOf relayAddress peers ans).lookup entry.peerId with
    | none => simp [hl] at ha
    | some as =>
      rw [hl, Option.getD_some, List.mem_toFinset] at ha
      exact peer_of_mem_routesOf hhub hl ha hq
  · rw [hentry a (Option.mem_toFinset.1 ha), Option.some.injEq] at hq
    exact hq.symm

/-! ### One pass -/

/-- The dials of entries none of which connects; an entry without a route is not dialled. -/
def FailedEntries (resolved : Routes) : List DestinationPeerEntry → List Io → Prop
  | [], tr => tr = []
  | e :: es, tr => ∃ t₁ t₂, tr = t₁ ++ t₂ ∧ DialRun (candidateRoutes e resolved) t₁ none ∧ FailedEntries resolved es t₂

/-- The check that an entry has not connected late. -/
def notConnected (e : DestinationPeerEntry) : Io := ⟨.isConnected e.peerId, false⟩

/-- The check that it has. -/
def lateConnected (e : DestinationPeerEntry) : Io := ⟨.isConnected e.peerId, true⟩

/-- The entries are checked one after the other, up to the first that has connected meanwhile. -/
private theorem lateChecks_effect {l : List DestinationPeerEntry} {r : Option (Nat × PeerId)} (n : Nat)
    (h : Runs ((l.zipIdx n).findSomeM? fun e => do
      if ← ask (Call.isConnected e.1.peerId) then pure (some (e.2, e.1.peerId)) else pure none : M S _) s tr r s') :
    s' = s ∧ ((r = none ∧ tr = l.map notConnected) ∨ ∃ pre e post, l = pre ++ e :: post ∧
      r = some (n + pre.length, e.peerId) ∧ tr = pre.map notConnected ++ [lateConnected e]) := by
  induction l generalizing n s tr with
  | nil =>
    obtain ⟨rfl, rfl, rfl⟩ := runs_findSomeM?_nil.1 h
    exact ⟨rfl, .inl ⟨rfl, rfl⟩⟩
  | cons e l ih =>
    rw [List.zipIdx_cons] at h
    rcases runs_findSomeM?_cons.1 h with ⟨c, rfl, hc⟩ | ⟨t₁, s₁, t₂, rfl, h₁, h₂⟩
    · obtain ⟨_, b, _, _, rfl, h₃, h₄⟩ := runs_bind.1 hc
      obtain ⟨rfl, rfl⟩ := runs_ask.1 h₃
      cases b
      · obtain ⟨-, hn, -⟩ := runs_pure.1 h₄
        cases hn
      · obtain ⟨rfl, hn, rfl⟩ := runs_pure.1 h₄
        cases hn
        exact ⟨rfl, .inr ⟨[], e, l, rfl, rfl, rfl⟩⟩
    · obtain ⟨_, b, _, _, rfl, h₃, h₄⟩ := runs_bind.1 h₁
      obtain ⟨rfl, rfl⟩ := runs_ask.1 h₃
      cases b
      · obtain ⟨rfl, -, rfl⟩ := runs_pure.1 h₄
        obtain ⟨rfl, ⟨rfl, rfl⟩ | ⟨pre, b, post, rfl, rfl, rfl⟩⟩ := ih (n + 1) h₂
        · exact ⟨rfl, .inl ⟨rfl, rfl⟩⟩
        · refine ⟨rfl, .inr ⟨e :: pre, b, post, rfl, ?_, rfl⟩⟩
          simp only [List.length_cons, Option.some.injEq, Prod.mk.injEq, and_true]
          omega
      · obtain ⟨-, hn, -⟩ := runs_pure.1 h₄
        cases hn

theorem adoptBestPinnedRank_effect {rank : Nat} {peer : PeerId} {best : Nat × PeerId}
    (h : Runs (adoptBestPinnedRank pinned rank peer : M S _) s tr best s') :
    s' = s ∧ ((best = (rank, peer) ∧ tr = (pinned.take rank).map notConnected) ∨
      ∃ pre e post, pinned.take rank = pre ++ e :: post ∧ best = (pre.length, e.peerId) ∧
        tr = pre.map notConnected ++ [lateConnected e]) := by
  unfold adoptBestPinnedRank at h
  obtain ⟨t₁, better, s₁, t₂, rfl, h₁, h₂⟩ := runs_bind.1 h
  obtain ⟨rfl, rfl, rfl⟩ := runs_pure.1 h₂
  rw [List.append_nil]
  obtain ⟨rfl, ⟨rfl, rfl⟩ | ⟨pre, e, post, he, rfl, rfl⟩⟩ := lateChecks_effect 0 h₁
  · exact ⟨rfl, .inl ⟨rfl, rfl⟩⟩
  · exact ⟨rfl, .inr ⟨pre, e, post, he, by simp, rfl⟩⟩

theorem failedEntries_append {l₁ l₂ : List DestinationPeerEntry} :
    FailedEntries resolved (l₁ ++ l₂) tr ↔
      ∃ t₁ t₂, tr = t₁ ++ t₂ ∧ FailedEntries resolved l₁ t₁ ∧ FailedEntries resolved l₂ t₂ := by
  induction l₁ generalizing tr with
  | nil =>
    constructor
    · intro h; exact ⟨[], tr, rfl, rfl, h⟩
    · rintro ⟨t₁, t₂, rfl, rfl, h⟩; exact h
  | cons e l₁ ih =>
    constructor
    · rintro ⟨t₁, t, rfl, hd, h⟩
      obtain ⟨t₂, t₃, rfl, h₁, h₂⟩ := ih.1 h
      exact ⟨t₁ ++ t₂, t₃, by simp, ⟨t₁, t₂, rfl, hd, h₁⟩, h₂⟩
    · rintro ⟨_, t₃, rfl, ⟨t₁, t₂, rfl, hd, h₁⟩, h₂⟩
      exact ⟨t₁, t₂ ++ t₃, by simp, hd, ih.2 ⟨t₂, t₃, rfl, h₁, h₂⟩⟩

theorem dialPinned_effect {e : DestinationPeerEntry × Nat} {r : Option ConnectedDestination}
    (h : Runs (dialPinned pinned resolved e : M S _) s tr r s') :
    (r = none ∧ s' = s ∧ DialRun (candidateRoutes e.1 resolved) tr none) ∨
      ∃ t₁ t₂ q best, tr = t₁ ++ t₂ ∧ DialRun (candidateRoutes e.1 resolved) t₁ (some q) ∧
        Runs (adoptBestPinnedRank pinned e.2 q : M S _) s t₂ best s' ∧
        r = some { peer := best.2, source := .pinned best.1 } := by
  unfold dialPinned at h
  split at h
  · rename_i he
    obtain ⟨rfl, rfl, rfl⟩ := runs_pure.1 h
    exact .inl ⟨rfl, rfl, by rw [he]; exact dialRun_empty⟩
  · obtain ⟨t₁, o, s₁, t₂, rfl, h₁, h₂⟩ := runs_bind.1 h
    obtain ⟨rfl, hd⟩ := runs_dial.1 h₁
    cases o with
    | none =>
      obtain ⟨rfl, rfl, rfl⟩ := runs_pure.1 h₂
      exact .inl ⟨rfl, rfl, by simpa using hd⟩
    | some q =>
      obtain ⟨t₃, best, _, _, rfl, h₃, h₄⟩ := runs_bind.1 h₂
      obtain ⟨rfl, rfl, rfl⟩ := runs_pure.1 h₄
      exact .inr ⟨t₁, t₃, q, best, by simp, hd, h₃, rfl⟩

/-- Dialling entry after entry, up to the first that connects. -/
theorem dialEntries_effect {l : List DestinationPeerEntry} {n : Nat} {r : Option ConnectedDestination}
    (h : Runs ((l.zipIdx n).findSomeM? (dialPinned pinned resolved) : M S _) s tr r s') :
    (r = none ∧ s' = s ∧ FailedEntries resolved l tr) ∨
      ∃ pre w post t₁ t₂ t₃ q best, l = pre ++ w :: post ∧ tr = t₁ ++ t₂ ++ t₃ ∧ FailedEntries resolved pre t₁ ∧
        DialRun (candidateRoutes w resolved) t₂ (some q) ∧
        Runs (adoptBestPinnedRank pinned (n + pre.length) q : M S _) s t₃ best s' ∧
        r = some { peer := best.2, source := .pinned best.1 } := by
  induction l generalizing n s tr with
  | nil =>
    obtain ⟨rfl, rfl, rfl⟩ := runs_findSomeM?_nil.1 h
    exact .inl ⟨rfl, rfl, rfl⟩
  | cons e l ih =>
    rw [List.zipIdx_cons] at h
    rcases runs_findSomeM?_cons.1 h with ⟨d, rfl, hd⟩ | ⟨t, s₁, t', rfl, h₁, h₂⟩
    · rcases dialPinned_effect hd with ⟨hn, -⟩ | ⟨t₁, t₂, q, best, rfl, hq, hb, hr⟩
      · cases hn
      · exact .inr ⟨[], e, l, [], t₁, t₂, q, best, rfl, rfl, rfl, hq, hb, hr⟩
    · rcases dialPinned_effect h₁ with ⟨-, rfl, hd⟩ | ⟨t₁, t₂, q, best, rfl, -, -, hr⟩
      · rcases ih h₂ with ⟨rfl, rfl, hf⟩ | ⟨pre, w, post, t₁, t₂, t₃, q, best, rfl, rfl, hf, hq, hb, rfl⟩
        · exact .inl ⟨rfl, rfl, t, t', rfl, hd, hf⟩
        · refine .inr ⟨e :: pre, w, post, t ++ t₁, t₂, t₃, q, best, rfl, by simp, ⟨t, t₁, rfl, hd, hf⟩, hq, ?_, rfl⟩
          rwa [List.length_cons, ← Nat.add_assoc, Nat.add_right_comm]
      · cases hr

/-- How a pass begins: the hub is asked for all entries, and it is announced which of them have a route. -/
def passHead (relayAddress : Multiaddr) (port : Port) (pinned : List DestinationPeerEntry)
    (ans : Except DirectoryError Routes) : List Io :=
  [⟨.resolvePeers (pinned.map (·.peerId)), ans⟩,
    ⟨.emit (.pinnedPeerStatuses port
      (pinnedStatuses pinned (routesOf relayAddress (pinned.map (·.peerId)) ans))), ()⟩]

/-- The trace of a pass in which no entry connects: all of them are dialled. -/
def FailedPass (relayAddress : Multiaddr) (port : Port) (pinned : List DestinationPeerEntry) (tr : List Io) : Prop :=
  ∃ ans dials, tr = passHead relayAddress port pinned ans ++ dials ∧
    FailedEntries (routesOf relayAddress (pinned.map (·.peerId)) ans) pinned dials

/-- The trace of a pass that picks the entry `e` of rank `rank`: the entries before it are dialled without a
connection and are not connected at the end either; `e` connects when it is dialled, or it fails then but is
connected by the time a later entry `w` is. -/
def WonPass (relayAddress : Multiaddr) (port : Port) (pinned : List DestinationPeerEntry) (rank : Nat)
    (peer : PeerId) (tr : List Io) : Prop :=
  ∃ ans pre e post t₁ t₂ checks, pinned = pre ++ e :: post ∧ rank = pre.length ∧ peer = e.peerId ∧
    tr = passHead relayAddress port pinned ans ++ t₁ ++ t₂ ++ checks ∧
    FailedEntries (routesOf relayAddress (pinned.map (·.peerId)) ans) pre t₁ ∧
    ((DialRun (candidateRoutes e (routesOf relayAddress (pinned.map (·.peerId)) ans)) t₂ (some e.peerId) ∧
        checks = pre.map notConnected) ∨
      ∃ mid w rest t₃ t₄, post = mid ++ w :: rest ∧ t₂ = t₃ ++ t₄ ∧
        FailedEntries (routesOf relayAddress (pinned.map (·.peerId)) ans) (e :: mid) t₃ ∧
        DialRun (candidateRoutes w (routesOf relayAddress (pinned.map (·.peerId)) ans)) t₄ (some w.peerId) ∧
        checks = pre.map notConnected ++ [lateConnected e])

/-- A pass fails, or it picks the entry of its rank. -/
theorem pinnedPass_effect {port : Port} {r : Option ConnectedDestination} (hentries : ∀ e ∈ pinned, e.Coherent)
    (hhub : ∀ ans, ⟨.resolvePeers (pinned.map (·.peerId)), ans⟩ ∈ tr → ∀ e ∈ pinned, Names ans e.peerId)
    (hdial : ∀ e ∈ tr, e.DialHonest)
    (h : Runs (pinnedPass relayAddress port pinned : M S _) s tr r s') :
    s' = s ∧ ((r = none ∧ FailedPass relayAddress port pinned tr) ∨
      ∃ rank peer, r = some { peer, source := .pinned rank } ∧ WonPass relayAddress port pinned rank peer tr) := by
  unfold pinnedPass at h
  obtain ⟨_, _, s₁, t, rfl, h₁, h₂⟩ := runs_bind.1 h
  obtain ⟨ans, rfl, rfl, rfl⟩ := runs_resolveRoutes.1 h₁
  obtain ⟨_, _, s₂, dials, rfl, h₃, h₄⟩ := runs_bind.1 h₂
  obtain ⟨rfl, rfl⟩ := runs_emit.1 h₃
  have hans : ∀ e ∈ pinned, Names ans e.peerId := hhub ans (by simp)
  have hpeer : ∀ {w q} {t : List Io}, w ∈ pinned → (∀ e ∈ t, e.DialHonest) →
      DialRun (candidateRoutes w (routesOf relayAddress (pinned.map (·.peerId)) ans)) t (some q) →
      q = w.peerId := by
    intro w q t hw ht hq
    obtain ⟨a, ha, haq⟩ := hq.exists_route ht
    exact peer_of_mem_candidateRoutes (hentries w hw) (hans w hw) ha haq
  rcases dialEntries_effect h₄ with ⟨rfl, rfl, hf⟩ | ⟨pre, w, post, t₁, t₂, t₃, q, best, hl, rfl, hf, hq, hb, rfl⟩
  · exact ⟨rfl, .inl ⟨rfl, ans, dials, rfl, hf⟩⟩
  · have hqw : q = w.peerId := hpeer (by rw [hl]; simp) (fun e he => hdial e (by simp [he])) hq
    subst hqw
    obtain ⟨rfl, ⟨rfl, rfl⟩ | ⟨pre', e, mid, hpre, rfl, rfl⟩⟩ := adoptBestPinnedRank_effect hb
    · refine ⟨rfl, .inr ⟨_, _, rfl, ans, pre, w, post, t₁, t₂, _, hl, by simp, rfl, ?_, hf, .inl ⟨hq, rfl⟩⟩⟩
      simp [passHead, hl]
    · rw [hl, Nat.zero_add, List.take_left] at hpre
      subst hpre
      obtain ⟨t₄, t₅, rfl, hf₁, hf₂⟩ := failedEntries_append.1 hf
      refine ⟨rfl, .inr ⟨_, _, rfl, ans, pre', e, mid ++ w :: post, t₄, t₅ ++ t₂, _, by simp [hl], rfl, rfl, ?_, hf₁,
        .inr ⟨mid, w, post, t₅, t₂, rfl, rfl, hf₂, hq, rfl⟩⟩⟩
      simp [passHead]

/-! ### Pass after pass -/

/-- The trace of a failed pass and of the pause after it. -/
def FailedRound (relayAddress : Multiaddr) (port : Port) (pinned : List DestinationPeerEntry) (tr : List Io) : Prop :=
  ∃ t, FailedPass relayAddress port pinned t ∧ tr = t ++ [⟨.sleep (.fromSecs 1), ()⟩]

/-- A pass makes no attempt on a single known peer, asks for no candidates and leaves the store alone. -/
theorem pinnedPass_segment {port : Port} {r : Option ConnectedDestination}
    (h : Runs (pinnedPass relayAddress port pinned : M S _) s tr r s') : s' = s ∧ Segment tr [] 0 := by
  obtain ⟨_, _, s₁, t, rfl, h₁, h₂⟩ := runs_bind.1 h
  obtain ⟨ans, rfl, rfl, rfl⟩ := runs_resolveRoutes.1 h₁
  obtain ⟨_, _, s₂, dials, rfl, h₃, h₄⟩ := runs_bind.1 h₂
  obtain ⟨rfl, rfl⟩ := runs_emit.1 h₃
  -- a pass asks the dialer only
  have hdials : ∀ {R t r}, DialRun R t r → ∀ e ∈ t, e.toDialer = true := by
    intro R t r hd e he
    obtain ⟨A, x, rfl, -⟩ := hd.dials he
    rfl
  have hchecks : ∀ l : List DestinationPeerEntry, ∀ e ∈ l.map notConnected, e.toDialer = true := by
    intro l e he
    obtain ⟨w, -, rfl⟩ := List.mem_map.1 he
    rfl
  have hrest : s' = s₂ ∧ ∀ e ∈ dials, Io.toDialer e = true := by
    refine Obeys.findSomeM? (R := fun s t s' => s' = s ∧ ∀ e ∈ t, Io.toDialer e = true)
      ⟨fun _ => ⟨rfl, by simp⟩, fun h₁ h₂ => ⟨h₂.1.trans h₁.1, ?_⟩⟩ _ (fun w _ s t r s' hw => ?_) _ _ _ _ h₄
    · intro e he
      rcases List.mem_append.1 he with he | he
      · exact h₁.2 e he
      · exact h₂.2 e he
    · rcases dialPinned_effect hw with ⟨-, rfl, hd⟩ | ⟨t₁, t₂, q, best, rfl, hd, hb, -⟩
      · exact ⟨rfl, hdials hd⟩
      · obtain ⟨rfl, ht₂⟩ := adoptBestPinnedRank_effect hb
        refine ⟨rfl, fun e he => ?_⟩
        rcases List.mem_append.1 he with he | he
        · exact hdials hd e he
        · rcases ht₂ with ⟨-, rfl⟩ | ⟨pre, w, post, -, -, rfl⟩
          · exact hchecks _ e he
          · rcases List.mem_append.1 he with he | he
            · exact hchecks _ e he
            · obtain rfl := List.mem_singleton.1 he
              rfl
  refine ⟨hrest.1, rfl, ?_, ?_⟩
  · -- the request for the pinned peers is followed by an announcement, so it begins no attempt
    have hnone : reachAttempts dials = [] :=
      reachAttempts_eq_nil fun e he => (Io.not_query_of_toDialer (hrest.2 e he)).1
    simp only [List.cons_append, List.nil_append, reachAttempts, headDials, List.head?_cons, Option.any_some, Io.isDial,
      Bool.false_eq_true, if_false, Io.resolving, hnone]
    split <;> rfl
  · refine List.countP_eq_zero.2 fun e he => ?_
    simp only [List.cons_append, List.nil_append, List.mem_cons] at he
    rcases he with rfl | rfl | he
    · simp [Io.isFindNodes]
    · simp [Io.isFindNodes]
    · simp [(Io.not_query_of_toDialer (hrest.2 e he)).2]

/-- A pass asks the hub for its entries, and picks a pinned exit or none. -/
theorem pinnedPass_asks {port : Port} {r : Option ConnectedDestination}
    (h : Runs (pinnedPass relayAddress port pinned : M S _) s tr r s') :
    (∃ ans, (⟨.resolvePeers (pinned.map (·.peerId)), ans⟩ : Io) ∈ tr) ∧ ∀ d ∈ r, ∃ rank, d.source = .pinned rank := by
  obtain ⟨_, _, s₁, t, rfl, h₁, h₂⟩ := runs_bind.1 h
  obtain ⟨ans, rfl, rfl, rfl⟩ := runs_resolveRoutes.1 h₁
  obtain ⟨_, _, s₂, dials, rfl, h₃, h₄⟩ := runs_bind.1 h₂
  refine ⟨⟨ans, by simp⟩, ?_⟩
  refine SearchLaw.findSomeM? (P := fun _ (r : Option ConnectedDestination) => ∀ d ∈ r, ∃ rank, d.source = .pinned rank)
    ⟨by simp, fun _ h => h⟩ (fun e _ s tr r s' hr => ?_) h₄
  intro d hd
  rcases dialPinned_effect hr with ⟨rfl, -⟩ | ⟨_, _, _, best, -, -, -, rfl⟩
  · cases hd
  · cases hd
    exact ⟨best.1, rfl⟩

variable [StickyStore S]

/-- A pass picks an entry; or it fails, and the server goes on to discovery or pauses. -/
private theorem pinnedRound_cases {r : Option (Except ConnectError ConnectedDestination)}
    (h : Runs (pinnedRound relayAddress server pinned : M S _) s tr r s') :
    (∃ d, r = some (.ok d) ∧ s' = s ∧ Runs (pinnedPass relayAddress server.port pinned : M S _) s tr (some d) s) ∨
    ∃ t₁ t₂, tr = t₁ ++ t₂ ∧ Runs (pinnedPass relayAddress server.port pinned : M S _) s t₁ none s ∧
      ((server.peerOptions.fallbackToDiscovery = true ∧ ∃ c, r = some c ∧
          Runs (connectDiscovered relayAddress server none : M S _) s t₂ c s') ∨
        (server.peerOptions.fallbackToDiscovery = false ∧ r = none ∧ s' = s ∧
          t₂ = [⟨.sleep (.fromSecs 1), ()⟩])) := by
  obtain ⟨t₁, o, s₁, t₂, rfl, h₁, h₂⟩ := runs_bind.1 h
  obtain ⟨rfl, -⟩ := pinnedPass_segment h₁
  cases o with
  | some d =>
    obtain ⟨rfl, rfl, rfl⟩ := runs_pure.1 h₂
    exact .inl ⟨d, rfl, rfl, by simpa using h₁⟩
  | none =>
    refine .inr ⟨t₁, t₂, rfl, h₁, ?_⟩
    dsimp only at h₂
    split at h₂
    · rename_i hf
      obtain ⟨t₃, c, s₂, _, rfl, h₃, h₄⟩ := runs_bind.1 h₂
      obtain ⟨rfl, rfl, rfl⟩ := runs_pure.1 h₄
      exact .inl ⟨hf, c, rfl, by simpa using h₃⟩
    · rename_i hf
      obtain ⟨_, _, _, _, rfl, h₃, h₄⟩ := runs_bind.1 h₂
      obtain ⟨rfl, rfl⟩ := runs_sleep.1 h₃
      obtain ⟨rfl, rfl, rfl⟩ := runs_pure.1 h₄
      exact .inr ⟨by simpa using hf, rfl, rfl, rfl⟩

/-- What a server reports when no pinned entry connects. -/
def exhaustedMessage (server : Server) (pinned : List DestinationPeerEntry) : String :=
  s!"All {pinned.length} pinned peer(s) for :{server.port} are offline or unresolvable."

/-- The passes of a pinned connect: all of them fail, or the last one picks an entry, or the server goes on to
discovery. -/
private theorem connectPinned_passes {r : Except ConnectError ConnectedDestination}
    (h : Runs (connectPinned relayAddress server pinned : M S _) s tr r s') :
    ∃ (failed : List (List Io)) (last : List Io), tr = failed.flatten ++ last ∧
      (∀ t ∈ failed, server.peerOptions.fallbackToDiscovery = false ∧ ∃ t₁ s₁, t = t₁ ++ [⟨.sleep (.fromSecs 1), ()⟩] ∧
        Runs (pinnedPass relayAddress server.port pinned : M S _) s₁ t₁ none s₁) ∧
      ((failed.length = maxPinnedPasses ∧ s' = s ∧ r = .error (.pinnedExhausted server.port pinned.length) ∧
          last = [⟨.emit (.error (exhaustedMessage server pinned)), ()⟩]) ∨
        (failed.length < maxPinnedPasses ∧ ∃ d, r = .ok d ∧ s' = s ∧
          Runs (pinnedPass relayAddress server.port pinned : M S _) s last (some d) s) ∨
        (server.peerOptions.fallbackToDiscovery = true ∧ ∃ t₁ t₂, last = t₁ ++ t₂ ∧
          Runs (pinnedPass relayAddress server.port pinned : M S _) s t₁ none s ∧
          Runs (connectDiscovered relayAddress server none : M S _) s t₂ r s')) := by
  obtain ⟨t, o, s₁, t', rfl, h₁, h₂⟩ := runs_bind.1 h
  obtain ⟨failed, last, rfl, hall, hend⟩ := runs_attempts_history
    (F := fun t => server.peerOptions.fallbackToDiscovery = false ∧ ∃ t₁ s₁, t = t₁ ++ [⟨.sleep (.fromSecs 1), ()⟩] ∧
      Runs (pinnedPass relayAddress server.port pinned : M S _) s₁ t₁ none s₁)
    (fun t s₁ hr => by
      rcases pinnedRound_cases hr with ⟨d, hd, -⟩ | ⟨t₁, t₂, rfl, hp, ⟨-, c, hc, -⟩ | ⟨hf, -, rfl, rfl⟩⟩
      · cases hd
      · cases hc
      · exact ⟨rfl, hf, t₁, _, rfl, hp⟩) h₁
  rcases hend with ⟨rfl, hlen, rfl, rfl⟩ | ⟨c, rfl, hlen, hlast⟩
  · -- every pass has failed
    obtain ⟨_, _, _, _, rfl, h₃, h₄⟩ := runs_bind.1 h₂
    obtain ⟨rfl, rfl⟩ := runs_emit.1 h₃
    obtain ⟨rfl, rfl, rfl⟩ := runs_pure.1 h₄
    exact ⟨failed, _, by simp [exhaustedMessage], hall, .inl ⟨hlen, rfl, rfl, rfl⟩⟩
  · obtain ⟨rfl, rfl, rfl⟩ := runs_pure.1 h₂
    refine ⟨failed, last, List.append_nil _, hall, .inr ?_⟩
    rcases pinnedRound_cases hlast with ⟨d, hd, rfl, hp⟩ | ⟨t₁, t₂, rfl, hp, ⟨hf, c', hc, hcd⟩ | ⟨-, hc, -⟩⟩
    · cases hd
      exact .inl ⟨hlen, d, rfl, rfl, hp⟩
    · cases hc
      exact .inr ⟨hf, t₁, t₂, rfl, hp, hcd⟩
    · cases hc

/-- A pinned server connects to a pinned exit without touching the store, or its first pass fails and it goes on to
discovery. -/
theorem connectPinned_segment {r : Except ConnectError ConnectedDestination}
    (h : Runs (connectPinned relayAddress server pinned : M S _) s tr r s') :
    (s' = s ∧ Segment tr [] 0 ∧ ∀ d, r = .ok d → ∃ rank, d.source = .pinned rank) ∨
    (server.peerOptions.fallbackToDiscovery = true ∧ ∃ t₁ t₂, tr = t₁ ++ t₂ ∧ Segment t₁ [] 0 ∧
      (∃ ans, (⟨.resolvePeers (pinned.map (·.peerId)), ans⟩ : Io) ∈ t₁) ∧
      Runs (connectDiscovered relayAddress server none : M S _) s t₂ r s') := by
  obtain ⟨failed, last, rfl, hall, hend⟩ := connectPinned_passes h
  have hfailed : Segment failed.flatten [] 0 := by
    refine .flatten fun t ht => ?_
    obtain ⟨-, t₁, s₁, rfl, hp⟩ := hall t ht
    exact (pinnedPass_segment hp).2.append (.sleep _)
  rcases hend with ⟨-, rfl, rfl, rfl⟩ | ⟨-, d, rfl, rfl, hp⟩ | ⟨hf, t₁, t₂, rfl, hp, hcd⟩
  · exact .inl ⟨rfl, by simpa using hfailed.append (.emit _), fun d hd => by cases hd⟩
  · refine .inl ⟨rfl, hfailed.append (pinnedPass_segment hp).2, fun e he => ?_⟩
    cases he
    exact (pinnedPass_asks hp).2 d rfl
  · obtain ⟨⟨ans, hans⟩, -⟩ := pinnedPass_asks hp
    exact .inr ⟨hf, _, t₂, (List.append_assoc ..).symm, hfailed.append (pinnedPass_segment hp).2,
      ⟨ans, List.mem_append_right _ hans⟩, hcd⟩

/-- The three ways in which a pinned connect ends: a pass picks an entry, the first pass fails on a server that falls
back to discovery, or all passes fail. -/
theorem connectPinned_cases {r : Except ConnectError ConnectedDestination} (hentries : ∀ e ∈ pinned, e.Coherent)
    (hhub : ∀ ans, ⟨.resolvePeers (pinned.map (·.peerId)), ans⟩ ∈ tr → ∀ e ∈ pinned, Names ans e.peerId)
    (hdial : ∀ e ∈ tr, e.DialHonest)
    (h : Runs (connectPinned relayAddress server pinned : M S _) s tr r s') :
    (∃ failed last rank peer, tr = failed.flatten ++ last ∧ failed.length < maxPinnedPasses ∧
      (∀ t ∈ failed, FailedRound relayAddress server.port pinned t) ∧
      (server.peerOptions.fallbackToDiscovery = true → failed = []) ∧
      WonPass relayAddress server.port pinned rank peer last ∧ r = .ok { peer, source := .pinned rank } ∧ s' = s) ∨
    (server.peerOptions.fallbackToDiscovery = true ∧ ∃ t₁ t₂, tr = t₁ ++ t₂ ∧
      FailedPass relayAddress server.port pinned t₁ ∧
      Runs (connectDiscovered relayAddress server none : M S _) s t₂ r s') ∨
    (server.peerOptions.fallbackToDiscovery = false ∧ s' = s ∧
      r = .error (.pinnedExhausted server.port pinned.length) ∧ ∃ failed : List (List Io),
        failed.length = maxPinnedPasses ∧ (∀ t ∈ failed, FailedRound relayAddress server.port pinned t) ∧
        tr = failed.flatten ++ [⟨.emit (.error (exhaustedMessage server pinned)), ()⟩]) := by
  obtain ⟨failed, last, rfl, hall, hend⟩ := connectPinned_passes h
  have hrounds : ∀ t ∈ failed, FailedRound relayAddress server.port pinned t := by
    intro t ht
    obtain ⟨-, t₁, s₁, rfl, hp⟩ := hall t ht
    have hmem : ∀ e ∈ t₁, e ∈ failed.flatten ++ last := fun e he =>
      List.mem_append_left _ (List.mem_flatten_of_mem ht (List.mem_append_left _ he))
    obtain ⟨-, ⟨-, hfailed⟩ | ⟨rank, peer, hn, -⟩⟩ := pinnedPass_effect hentries
      (fun ans he => hhub ans (hmem _ he)) (fun e he => hdial e (hmem e he)) hp
    · exact ⟨t₁, hfailed, rfl⟩
    · cases hn
  have hfallback : server.peerOptions.fallbackToDiscovery = true → failed = [] := by
    intro hf
    refine List.eq_nil_iff_forall_not_mem.2 fun t ht => ?_
    have hnot : server.peerOptions.fallbackToDiscovery = false := (hall t ht).1
    rw [hf] at hnot
    cases hnot
  rcases hend with ⟨hlen, rfl, rfl, rfl⟩ | ⟨hlen, d, rfl, rfl, hp⟩ | ⟨hf, t₁, t₂, rfl, hp, hcd⟩
  · refine .inr (.inr ⟨?_, rfl, rfl, failed, hlen, hrounds, rfl⟩)
    cases hf : server.peerOptions.fallbackToDiscovery with
    | false => rfl
    | true =>
      rw [hfallback hf] at hlen
      cases hlen
  · obtain ⟨-, ⟨hn, -⟩ | ⟨rank, peer, hn, hw⟩⟩ := pinnedPass_effect hentries
      (fun ans he => hhub ans (List.mem_append_right _ he)) (fun e he => hdial e (List.mem_append_right _ he)) hp
    · cases hn
    · cases hn
      exact .inl ⟨failed, last, rank, peer, rfl, hlen, hrounds, hfallback, hw, rfl, rfl⟩
  · -- the first pass was the last one
    obtain rfl := hfallback hf
    rw [List.flatten_nil, List.nil_append] at hhub hdial
    obtain ⟨-, ⟨-, hp⟩ | ⟨rank, peer, hn, -⟩⟩ := pinnedPass_effect hentries
      (fun ans he => hhub ans (List.mem_append_left _ he)) (fun e he => hdial e (List.mem_append_left _ he)) hp
    · exact .inr (.inl ⟨hf, t₁, t₂, rfl, hp, hcd⟩)
    · cases hn

/-- What connecting a pinned server does.  A pinned pick is the entry of its rank, and the entries before it failed in
the pass that picked it.  A server without fallback gives up only after all its passes, each of which dialled every
entry and paused once; it never asks for candidates and never touches the store.  A server with fallback goes on to
discovery as soon as the first pass has failed. -/
def PinnedEffect (relayAddress : Multiaddr) (server : Server) (s : S) (tr : List Io)
    (r : Except ConnectError ConnectedDestination) (s' : S) : Prop :=
  let pinned := server.peerOptions.pinned
  (∀ peer rank, r = .ok { peer, source := .pinned rank } →
    ∃ (failed : List (List Io)) (last : List Io), tr = failed.flatten ++ last ∧ failed.length < maxPinnedPasses ∧
      (∀ t ∈ failed, FailedRound relayAddress server.port pinned t) ∧
      WonPass relayAddress server.port pinned rank peer last ∧ s' = s) ∧
  (server.peerOptions.fallbackToDiscovery = false →
    s' = s ∧ (∀ e ∈ tr, e.isFindNodes = false) ∧ (∀ d, r = .ok d → ∃ rank, d.source = .pinned rank) ∧
    ∀ err, r = .error err → err = .pinnedExhausted server.port pinned.length ∧ ∃ failed : List (List Io),
      failed.length = maxPinnedPasses ∧ (∀ t ∈ failed, FailedRound relayAddress server.port pinned t) ∧
      tr = failed.flatten ++ [⟨.emit (.error (exhaustedMessage server pinned)), ()⟩]) ∧
  (server.peerOptions.fallbackToDiscovery = true →
    (∃ rank peer, r = .ok { peer, source := .pinned rank } ∧ s' = s ∧
      WonPass relayAddress server.port pinned rank peer tr) ∨
    ∃ t₁ t₂, tr = t₁ ++ t₂ ∧ FailedPass relayAddress server.port pinned t₁ ∧
      Runs (connectDiscovered relayAddress server none : M S _) s t₂ r s')

/-- Pinned failover is exact. -/
theorem connect_pinnedEffect {avoid : Option PeerId} {r : Except ConnectError ConnectedDestination}
    (hpins : server.peerOptions.pinned ≠ []) (hentries : ∀ e ∈ server.peerOptions.pinned, e.Coherent)
    (hhub : ∀ ans, ⟨.resolvePeers (server.peerOptions.pinned.map (·.peerId)), ans⟩ ∈ tr →
      ∀ e ∈ server.peerOptions.pinned, Names ans e.peerId)
    (hdial : ∀ e ∈ tr, e.DialHonest) (h : Runs (connect relayAddress server avoid : M S _) s tr r s') :
    PinnedEffect relayAddress server s tr r s' := by
  unfold PinnedEffect
  intro pinned
  unfold connect at h
  rw [if_neg hpins] at h
  have hqueries : server.peerOptions.fallbackToDiscovery = false → ∀ e ∈ tr, e.isFindNodes = false := by
    intro hf e he
    rcases connectPinned_segment h with ⟨-, hs, -⟩ | ⟨hf', -⟩
    · simpa using List.countP_eq_zero.1 hs.queries_eq e he
    · rw [hf] at hf'; cases hf'
  rcases connectPinned_cases hentries hhub hdial h with
    ⟨failed, last, rank, peer, rfl, hlen, hrounds, hfallback, hw, rfl, rfl⟩ |
    ⟨hf, t₁, t₂, rfl, hp, hd⟩ | ⟨hf, rfl, rfl, failed, hlen, hrounds, rfl⟩
  · refine ⟨?_, fun hf => ⟨rfl, hqueries hf, ?_, fun err he => by cases he⟩,
      fun hf => .inl ⟨rank, peer, rfl, rfl, ?_⟩⟩
    · intro peer' rank' hr
      cases hr
      exact ⟨failed, last, rfl, hlen, hrounds, hw, rfl⟩
    · intro d hd
      cases hd
      exact ⟨rank, rfl⟩
    · rw [hfallback hf]
      exact hw
  · refine ⟨?_, fun hf' => absurd (hf.symm.trans hf') (by simp), fun _ => .inr ⟨t₁, t₂, rfl, hp, hd⟩⟩
    rintro peer rank rfl
    exact absurd rfl (connectDiscovered_source hd)
  · refine ⟨fun peer rank hr => (by cases hr), fun hf' => ⟨rfl, hqueries hf', fun d hd => (by cases hd), ?_⟩,
      fun hf' => absurd (hf.symm.trans hf') (by simp)⟩
    intro err he
    cases he
    exact ⟨rfl, failed, hlen, hrounds, rfl⟩

section Fixture

/-- Two pinned peers; the second answers, and the first has connected by then. -/
private def lateFirst : World :=
  { routes := [(⟨[1]⟩, [[.p2p ⟨[1]⟩]])], candidates := [], online := [⟨[2]⟩], connected := [⟨[1]⟩] }

private def twoPins : Server :=
  let pinned : List DestinationPeerEntry :=
    [{ peerId := ⟨[1]⟩, address := none }, { peerId := ⟨[2]⟩, address := some [.other 4 [], .p2p ⟨[2]⟩] }]
  { discoveryServer 1080 with peerOptions := { options with destinationPeers := some pinned } }

theorem connect_pinnedEffect_lateFirst :
    let run := exec lateFirst.answer (connect [] twoPins none) StickyState.empty
    PinnedEffect [] twoPins StickyState.empty run.1 run.2.1 run.2.2 :=
  connect_pinnedEffect (by simp [twoPins, ServerPeerOptions.pinned])
    (by simp [twoPins, ServerPeerOptions.pinned, DestinationPeerEntry.Coherent]; rfl)
    (fun _ h e _ => World.names (by decide) h e.peerId) World.dialHonest (exec_runs _ _ _)

example : (exec lateFirst.answer (connect [] twoPins none) StickyState.empty).2.1 =
    .ok { peer := ⟨[1]⟩, source := .pinned 0 } := by rfl

end Fixture

end P2Proxy
