import P2Proxy.ConnectRules

/-!
# What a connect does to the pool

The complete effect of connecting a sticky server without pins.  Its three phases, the fight for the dropped exit, the
pass over the remembered pool and discovery, are each described by a `Segment` of the trace, the result and the pool
afterwards; `connect_poolEffect` puts them together.
-/

namespace P2Proxy

open Interaction

variable {S : Type} [StickyStore S] {relayAddress : Multiaddr} {server : Server} {s s' : S} {tr : List Io}

/-! ### The three phases -/

/-- Fighting for a peer: at most `n` attempts on it and on nobody else, up to the first that connects. -/
theorem reconnectLoop_effect {p : PeerId} {n : Nat} {b : Backoff} {r : Option PeerId}
    (h : Runs (reconnectLoop relayAddress server p n b : M S _) s tr r s') :
    s' = s ∧ ((r = none ∧ Segment tr (List.replicate n (p, none)) 0) ∨
      ∃ k y, k < n ∧ r = some y ∧ Segment tr (List.replicate k (p, none) ++ [(p, some y)]) 0) := by
  induction n generalizing s tr b with
  | zero =>
    obtain ⟨rfl, rfl, rfl⟩ := runs_pure.1 h
    exact ⟨rfl, .inl ⟨rfl, .nil⟩⟩
  | succ n ih =>
    unfold reconnectLoop at h
    obtain ⟨t₁, o, s₁, t₂, rfl, h₁, h₂⟩ := runs_bind.1 h
    obtain ⟨rfl, hr⟩ := runs_tryReachPeer.1 h₁
    cases o with
    | some y =>
      obtain ⟨rfl, rfl, rfl⟩ := runs_pure.1 h₂
      exact ⟨rfl, .inr ⟨0, y, by omega, rfl, by simpa using hr.segment⟩⟩
    | none =>
      dsimp only at h₂
      split at h₂
      · obtain ⟨t₃, u, s₂, t₄, rfl, h₃, h₄⟩ := runs_bind.1 h₂
        obtain ⟨rfl, rfl⟩ := runs_sleep.1 h₃
        have hseg := hr.segment.append (.sleep b.nextDelay.1)
        obtain ⟨rfl, ⟨rfl, hs⟩ | ⟨k, y, hk, rfl, hs⟩⟩ := ih h₄
        · refine ⟨rfl, .inl ⟨rfl, ?_⟩⟩
          simpa [List.replicate_succ] using hseg.append hs
        · refine ⟨rfl, .inr ⟨k + 1, y, by omega, rfl, ?_⟩⟩
          simpa [List.replicate_succ] using hseg.append hs
      · rename_i hn
        obtain ⟨rfl, rfl, rfl⟩ := runs_pure.1 h₂
        obtain rfl : n = 0 := by omega
        exact ⟨rfl, .inl ⟨rfl, by simpa using hr.segment⟩⟩

private theorem filter_ne_filter_notMem (l pre : List PeerId) (p : PeerId) :
    (l.filter (· ≠ p)).filter (· ∉ pre) = l.filter (· ∉ p :: pre) := by
  rw [List.filter_filter]
  refine List.filter_congr fun x _ => ?_
  by_cases h : x = p <;> simp [h]

variable [LawfulStickyStore S]

/-- The pass over a list of pool members: the members before the first that can be reached are tried and
forgotten. -/
theorem poolLoop_effect {skip r : Option PeerId} {l : List PeerId}
    (h : Runs (l.findSomeM? (tryPoolMember relayAddress server skip) : M S _) s tr r s') :
    (∃ pre q post y, l.filter (some · ≠ skip) = pre ++ q :: post ∧ r = some y ∧
      Segment tr (pre.map (·, none) ++ [(q, some y)]) 0 ∧
      exitPool server s' = (exitPool server s).filter (· ∉ pre)) ∨
    (r = none ∧ Segment tr ((l.filter (some · ≠ skip)).map (·, none)) 0 ∧
      exitPool server s' = (exitPool server s).filter (· ∉ l.filter (some · ≠ skip))) := by
  induction l generalizing s tr with
  | nil =>
    obtain ⟨rfl, rfl, rfl⟩ := runs_findSomeM?_nil.1 h
    exact .inr ⟨rfl, .nil, by simp⟩
  | cons p l ih =>
    rcases runs_findSomeM?_cons.1 h with ⟨y, rfl, hp⟩ | ⟨t₁, s₁, t₂, rfl, hp, hl⟩
    · rcases runs_tryPoolMember.1 hp with ⟨-, -, hy, -⟩ | ⟨hskip, hr, rfl⟩
      · cases hy
      · exact .inl ⟨[], p, l.filter (some · ≠ skip), y, by simp [hskip], rfl, by simpa using hr.segment, by simp⟩
    · rcases runs_tryPoolMember.1 hp with ⟨hskip, rfl, -, rfl⟩ | ⟨hskip, hr, rfl⟩
      · simpa [hskip] using ih hl
      · have hfilter : (p :: l).filter (some · ≠ skip) = p :: l.filter (some · ≠ skip) := by simp [hskip]
        rw [if_pos rfl] at hl
        rw [hfilter]
        rcases ih hl with ⟨pre, q, post, y, he, rfl, hs, hm⟩ | ⟨rfl, hs, hm⟩
        · refine .inl ⟨p :: pre, q, post, y, by rw [he]; rfl, rfl, by simpa using hr.segment.append hs, ?_⟩
          rw [hm, exitPool_forgetPeer, filter_ne_filter_notMem]
        · refine .inr ⟨rfl, by simpa using hr.segment.append hs, ?_⟩
          rw [hm, exitPool_forgetPeer, filter_ne_filter_notMem]

/-- The pass over the pool that a sticky server remembers. -/
theorem connectStickyPool_effect {skip r : Option PeerId} (hsticky : server.peerOptions.sticky = true)
    (h : Runs (connectStickyPool relayAddress server server.fingerprint skip : M S _) s tr r s') :
    (∃ pre q post y, (exitPool server s).filter (some · ≠ skip) = pre ++ q :: post ∧ r = some y ∧
      Segment tr (pre.map (·, none) ++ [(q, some y)]) 0 ∧
      exitPool server s' = (exitPool server s).filter (· ∉ pre)) ∨
    (r = none ∧ Segment tr (((exitPool server s).filter (some · ≠ skip)).map (·, none)) 0 ∧
      exitPool server s' = (exitPool server s).filter (some · = skip)) := by
  unfold connectStickyPool at h
  rw [if_pos hsticky] at h
  obtain ⟨t₁, peers, s₁, t₂, rfl, h₁, h₂⟩ := runs_bind.1 h
  obtain ⟨rfl, rfl, rfl⟩ := runs_modifyGet.1 h₁
  rw [List.nil_append]
  rw [pool_fst_eq_exitPool] at h₂
  rcases poolLoop_effect h₂ with ⟨pre, q, post, y, he, rfl, hs, hm⟩ | ⟨rfl, hs, hm⟩
  · exact .inl ⟨pre, q, post, y, he, rfl, hs, by rw [hm, exitPool_pool]⟩
  · refine .inr ⟨rfl, hs, ?_⟩
    rw [hm, exitPool_pool]
    refine List.filter_congr fun x hx => ?_
    simp [hx]

/-- Remembering promotes in the pool of a sticky server. -/
theorem remember_effect {p : PeerId} {u : Unit} (hsticky : server.peerOptions.sticky = true)
    (h : Runs (remember server server.fingerprint p : M S Unit) s tr u s') :
    Segment tr [] 0 ∧ exitPool server s' = promote server.pool.maxTotal p (exitPool server s) := by
  rcases runs_remember.1 h with ⟨-, now, rfl, rfl⟩ | ⟨hf, -, -⟩
  · exact ⟨⟨rfl, rfl, rfl⟩, exitPool_remember⟩
  · rw [hsticky] at hf; cases hf

/-- A query for candidates that leads to nobody: the hub fails or offers nobody, and the flow pauses, or all addresses
of the candidates are dialled in vain. -/
def FailedQuery (relayAddress : Multiaddr) (server : Server) (tr : List Io) : Prop :=
  (∃ e, tr = [⟨.findNodes server findNodesDiscoveryLimit, .error e⟩, ⟨.sleep (.fromSecs 1), ()⟩]) ∨
  tr = [⟨.findNodes server findNodesDiscoveryLimit, .ok []⟩, ⟨.emit (.serverPool server.port []), ()⟩,
    ⟨.sleep (.fromSecs 1), ()⟩] ∨
  ∃ candidates dials, candidates ≠ [] ∧
    tr = ⟨.findNodes server findNodesDiscoveryLimit, .ok candidates⟩ ::
      ⟨.emit (.serverPool server.port candidates), ()⟩ :: dials ∧
    DialRun (candidateAddresses relayAddress candidates) dials none

/-- A query for candidates, the dial of whose addresses connects `peer`. -/
def WonQuery (relayAddress : Multiaddr) (server : Server) (peer : PeerId) (tr : List Io) : Prop :=
  ∃ candidates dials, candidates ≠ [] ∧
    tr = ⟨.findNodes server findNodesDiscoveryLimit, .ok candidates⟩ ::
      ⟨.emit (.serverPool server.port candidates), ()⟩ :: dials ∧
    DialRun (candidateAddresses relayAddress candidates) dials (some peer)

private theorem query_segment {candidates : List PoolPeer} {dials : List Io} {o : Option PeerId}
    (h : DialRun (candidateAddresses relayAddress candidates) dials o) :
    Segment (⟨.findNodes server findNodesDiscoveryLimit, .ok candidates⟩ ::
      ⟨.emit (.serverPool server.port candidates), ()⟩ :: dials) [] 1 := by
  refine ⟨rfl, ?_, ?_⟩
  · show reachAttempts dials = []
    exact h.reachAttempts_eq
  · rw [List.countP_cons_of_pos rfl, List.countP_cons_of_neg (by simp [Io.isFindNodes]), h.queries_eq]

/-- A query makes no attempt on a known peer. -/
theorem FailedQuery.segment (h : FailedQuery relayAddress server tr) : Segment tr [] 1 := by
  rcases h with ⟨e, rfl⟩ | rfl | ⟨candidates, dials, -, rfl, hd⟩
  · exact ⟨rfl, rfl, rfl⟩
  · exact ⟨rfl, rfl, rfl⟩
  · exact query_segment hd

theorem WonQuery.segment {x : PeerId} (h : WonQuery relayAddress server x tr) : Segment tr [] 1 := by
  obtain ⟨candidates, dials, -, rfl, hd⟩ := h
  exact query_segment hd

private theorem failedQueries_segment {failed : List (List Io)} (h : ∀ t ∈ failed, FailedQuery relayAddress server t) :
    Segment failed.flatten [] failed.length := by
  induction failed with
  | nil => exact .nil
  | cons t failed ih =>
    obtain ⟨ht, hfailed⟩ := List.forall_mem_cons.1 h
    simpa [Nat.add_comm] using ht.segment.append (ih hfailed)

omit [LawfulStickyStore S] in
theorem discoveryAttempt_query {fp : String} {r : Option ConnectedDestination}
    (h : Runs (discoveryAttempt relayAddress server fp : M S _) s tr r s') :
    (r = none ∧ s' = s ∧ FailedQuery relayAddress server tr) ∨
    ∃ x won kept, r = some { peer := x, source := .discovered } ∧ tr = won ++ kept ∧
      WonQuery relayAddress server x won ∧ Runs (remember server fp x : M S Unit) s kept () s' := by
  rcases runs_discoveryAttempt.1 h with ⟨e, rfl, rfl, rfl⟩ | ⟨rfl, rfl, rfl⟩ | ⟨cs, o, t₁, t₂, hcs, rfl, hd, rfl, hr⟩
  · exact .inl ⟨rfl, rfl, .inl ⟨e, rfl⟩⟩
  · exact .inl ⟨rfl, rfl, .inr (.inl rfl)⟩
  · cases o with
    | none =>
      obtain ⟨rfl, rfl⟩ := hr
      exact .inl ⟨rfl, rfl, .inr (.inr ⟨cs, t₁, hcs, by simp, hd⟩)⟩
    | some x => exact .inr ⟨x, _ :: _ :: t₁, t₂, rfl, rfl, ⟨cs, t₁, hcs, rfl, hd⟩, hr⟩

/-- What is reported when discovery is given up. -/
def discoveryFailedMessage (server : Server) : String :=
  s!"Failed to connect with any peer for :{server.port} after {maxDiscoveryAttempts} attempts " ++
    s!"(filter: {server.peerOptions.display})."

omit [LawfulStickyStore S] in
/-- Discovery queries the hub until a candidate connects, and remembers it; it gives up after a number of queries. -/
theorem runDiscovery_queries {fp : String} {r : Except ConnectError ConnectedDestination}
    (h : Runs (runDiscovery relayAddress server fp : M S _) s tr r s') :
    ∃ failed : List (List Io), (∀ t ∈ failed, FailedQuery relayAddress server t) ∧
      ((r = .error (.discoveryExhausted server.port maxDiscoveryAttempts) ∧ failed.length = maxDiscoveryAttempts ∧
          tr = failed.flatten ++ [⟨.emit (.error (discoveryFailedMessage server)), ()⟩] ∧ s' = s) ∨
        ∃ x won kept, r = .ok { peer := x, source := .discovered } ∧ failed.length < maxDiscoveryAttempts ∧
          tr = failed.flatten ++ won ++ kept ∧ WonQuery relayAddress server x won ∧
          Runs (remember server fp x : M S Unit) s kept () s') := by
  unfold runDiscovery at h
  obtain ⟨t₁, o, s₁, t₂, rfl, h₁, h₂⟩ := runs_bind.1 h
  have hfailed : ∀ t s'', Runs (discoveryAttempt relayAddress server fp : M S _) s t none s'' →
      s'' = s ∧ FailedQuery relayAddress server t := by
    intro t s'' ht
    rcases discoveryAttempt_query ht with ⟨-, hs, hq⟩ | ⟨x, won, kept, hr, -⟩
    · exact ⟨hs, hq⟩
    · cases hr
  obtain ⟨failed, last, rfl, hqueries, ⟨rfl, hlen, rfl, rfl⟩ | ⟨d, rfl, hlen, hwon⟩⟩ := runs_attempts_history hfailed h₁
  · obtain ⟨_, _, _, _, rfl, h₃, h₄⟩ := runs_bind.1 h₂
    obtain ⟨rfl, rfl⟩ := runs_emit.1 h₃
    obtain ⟨rfl, rfl, rfl⟩ := runs_pure.1 h₄
    refine ⟨failed, hqueries, .inl ⟨rfl, hlen, ?_, rfl⟩⟩
    rw [List.append_nil]
    rfl
  · obtain ⟨rfl, rfl, rfl⟩ := runs_pure.1 h₂
    rcases discoveryAttempt_query hwon with ⟨hr, -⟩ | ⟨x, won, kept, hr, rfl, hq, hkept⟩
    · cases hr
    · cases hr
      exact ⟨failed, hqueries, .inr ⟨x, won, kept, rfl, hlen, by simp, hq, hkept⟩⟩

/-- Discovery makes no attempt on a known peer and changes the pool only by remembering what it found. -/
theorem runDiscovery_effect {r : Except ConnectError ConnectedDestination}
    (hsticky : server.peerOptions.sticky = true)
    (h : Runs (runDiscovery relayAddress server server.fingerprint : M S _) s tr r s') :
    (r = .error (.discoveryExhausted server.port maxDiscoveryAttempts) ∧ Segment tr [] maxDiscoveryAttempts ∧ s' = s) ∨
      ∃ k x, 0 < k ∧ k ≤ maxDiscoveryAttempts ∧ Segment tr [] k ∧
        r = .ok { peer := x, source := .discovered } ∧
        exitPool server s' = promote server.pool.maxTotal x (exitPool server s) := by
  obtain ⟨failed, hqueries, ⟨rfl, hlen, rfl, rfl⟩ | ⟨x, won, kept, rfl, hlen, rfl, hwon, hkept⟩⟩ :=
    runDiscovery_queries h
  · have hs := failedQueries_segment hqueries
    rw [hlen] at hs
    exact .inl ⟨rfl, hs.append (.emit _), rfl⟩
  · obtain ⟨hs, hm⟩ := remember_effect hsticky hkept
    have hall := ((failedQueries_segment hqueries).append hwon.segment).append hs
    exact .inr ⟨failed.length + 1, x, by omega, by omega, by simpa using hall, rfl, hm⟩

/-! ### The phases together -/

/-- The pool pre-pass on a sticky server: a member answers, or nobody but the avoided peer is left and discovery
decides. -/
theorem connectPoolOrDiscover_cases {avoid : Option PeerId} {r : Except ConnectError ConnectedDestination}
    (hsticky : server.peerOptions.sticky = true)
    (h : Runs (connectPoolOrDiscover relayAddress server server.fingerprint avoid : M S _) s tr r s') :
    (∃ pre q post y, (exitPool server s).filter (some · ≠ avoid) = pre ++ q :: post ∧
      r = .ok { peer := y, source := .sticky } ∧ Segment tr (pre.map (·, none) ++ [(q, some y)]) 0 ∧
      exitPool server s' = promote server.pool.maxTotal y ((exitPool server s).filter (· ∉ pre))) ∨
    ∃ t₁ s₁ t₂, tr = t₁ ++ t₂ ∧ Segment t₁ (((exitPool server s).filter (some · ≠ avoid)).map (·, none)) 0 ∧
      exitPool server s₁ = (exitPool server s).filter (some · = avoid) ∧
      Runs (runDiscovery relayAddress server server.fingerprint : M S _) s₁ t₂ r s' := by
  unfold connectPoolOrDiscover at h
  obtain ⟨t₁, o, s₁, t₂, rfl, h₁, h₂⟩ := runs_bind.1 h
  rcases connectStickyPool_effect hsticky h₁ with ⟨pre, q, post, y, he, rfl, hs, hm⟩ | ⟨rfl, hs, hm⟩
  · obtain ⟨t₃, _, _, _, rfl, h₃, h₄⟩ := runs_bind.1 h₂
    obtain ⟨rfl, rfl, rfl⟩ := runs_pure.1 h₄
    obtain ⟨hs₃, hm₃⟩ := remember_effect hsticky h₃
    exact .inl ⟨pre, q, post, y, he, rfl, by simpa using hs.append hs₃, by rw [hm₃, hm]⟩
  · exact .inr ⟨t₁, s₁, t₂, rfl, hs, hm, h₂⟩

/-- The pool pre-pass and discovery on a sticky server, for every hub and dialer. -/
theorem connectPoolOrDiscover_effect {avoid : Option PeerId} {r : Except ConnectError ConnectedDestination}
    (hsticky : server.peerOptions.sticky = true)
    (h : Runs (connectPoolOrDiscover relayAddress server server.fingerprint avoid : M S _) s tr r s') :
    (∃ pre q post y, (exitPool server s).filter (some · ≠ avoid) = pre ++ q :: post ∧
      r = .ok { peer := y, source := .sticky } ∧ Segment tr (pre.map (·, none) ++ [(q, some y)]) 0 ∧
      exitPool server s' = promote server.pool.maxTotal y ((exitPool server s).filter (· ∉ pre))) ∨
    ∃ k, Segment tr (((exitPool server s).filter (some · ≠ avoid)).map (·, none)) k ∧
      ((r = .error (.discoveryExhausted server.port maxDiscoveryAttempts) ∧ k = maxDiscoveryAttempts ∧
          exitPool server s' = (exitPool server s).filter (some · = avoid)) ∨
        ∃ x, r = .ok { peer := x, source := .discovered } ∧ 0 < k ∧ k ≤ maxDiscoveryAttempts ∧
          exitPool server s' =
            promote server.pool.maxTotal x ((exitPool server s).filter (some · = avoid))) := by
  refine (connectPoolOrDiscover_cases hsticky h).imp id ?_
  rintro ⟨t₁, s₁, t₂, rfl, hs, hm, h₂⟩
  rcases runDiscovery_effect hsticky h₂ with ⟨rfl, hs₂, rfl⟩ | ⟨k, x, hk, hkn, hs₂, rfl, hm₂⟩
  · exact ⟨_, by simpa using hs.append hs₂, .inl ⟨rfl, rfl, hm⟩⟩
  · exact ⟨k, by simpa using hs.append hs₂, .inr ⟨x, rfl, hk, hkn, by rw [hm₂, hm]⟩⟩

/-- The failed attempts on a dropped exit that a server with backoff makes before it gives the exit up. -/
def foughtFor (server : Server) (avoid : Option PeerId) : List (PeerId × Option PeerId) :=
  match avoid, server.peerOptions.stickyReconnect with
  | some a, .withBackoff => List.replicate stickyReconnectAttempts (a, none)
  | _, _ => []

/-- The pool once the dropped exit is given up. -/
def poolAfterLoss (server : Server) (avoid : Option PeerId) (pool : List PeerId) : List PeerId :=
  match avoid, server.peerOptions.stickyReconnect with
  | some a, .withBackoff => pool.filter (· ≠ a)
  | _, _ => pool

/-- A server without pins connects in one of two ways: it gets the dropped exit back, or it goes on with the pool
without it. -/
theorem connect_cases {avoid : Option PeerId} {r : Except ConnectError ConnectedDestination}
    (hserver : server.StickyExit) (h : Runs (connect relayAddress server avoid : M S _) s tr r s') :
    (∃ a k y, avoid = some a ∧ server.peerOptions.stickyReconnect = .withBackoff ∧ k < stickyReconnectAttempts ∧
      Segment tr (List.replicate k (a, none) ++ [(a, some y)]) 0 ∧ r = .ok { peer := y, source := .sticky } ∧
      exitPool server s' = promote server.pool.maxTotal y (exitPool server s)) ∨
    ∃ t₁ s₁ t₂, tr = t₁ ++ t₂ ∧ Segment t₁ (foughtFor server avoid) 0 ∧
      exitPool server s₁ = poolAfterLoss server avoid (exitPool server s) ∧
      Runs (connectPoolOrDiscover relayAddress server server.fingerprint avoid : M S _) s₁ t₂ r s' := by
  obtain ⟨hsticky, hpins⟩ := hserver
  unfold connect at h
  rw [if_pos hpins] at h
  unfold connectDiscovered reconnectTarget at h
  cases avoid with
  | none => exact .inr ⟨[], s, tr, rfl, .nil, rfl, h⟩
  | some a =>
    cases hr : server.peerOptions.stickyReconnect with
    | failFast =>
      refine .inr ⟨[], s, tr, rfl, ?_, ?_, by simpa [hsticky, hr] using h⟩
      · rw [show foughtFor server (some a) = [] by simp [foughtFor, hr]]; exact .nil
      · simp [poolAfterLoss, hr]
    | withBackoff =>
      simp only [hsticky, hr, Bool.true_and, decide_true, Option.filter_some_pos] at h
      obtain ⟨t₁, o, s₁, t₂, rfl, h₁, h₂⟩ := runs_bind.1 h
      obtain ⟨rfl, ⟨rfl, hs⟩ | ⟨k, y, hk, rfl, hs⟩⟩ := reconnectLoop_effect h₁
      · obtain ⟨_, _, _, t₃, rfl, h₃, h₄⟩ := runs_bind.1 h₂
        obtain ⟨rfl, rfl⟩ := runs_modify.1 h₃
        refine .inr ⟨t₁, _, t₃, by simp, ?_, ?_, h₄⟩
        · simpa [foughtFor, hr] using hs
        · simp [poolAfterLoss, hr]
      · obtain ⟨t₃, _, _, _, rfl, h₃, h₄⟩ := runs_bind.1 h₂
        obtain ⟨rfl, rfl, rfl⟩ := runs_pure.1 h₄
        obtain ⟨hs₃, hm₃⟩ := remember_effect hsticky h₃
        exact .inl ⟨a, k, y, rfl, rfl, hk, by simpa using hs.append hs₃, rfl, hm₃⟩

/-- After a successful connect the exit is the front of the pool. -/
theorem connect_front {avoid : Option PeerId} {d : ConnectedDestination} (hserver : server.StickyExit)
    (h : Runs (connect relayAddress server avoid : M S _) s tr (.ok d) s') :
    (exitPool server s').head? = some d.peer := by
  rcases connect_cases hserver h with ⟨a, k, y, -, -, -, -, hr, hm⟩ | ⟨t₁, s₁, t₂, -, -, -, h₂⟩
  · cases hr
    rw [hm, head?_promote]
  · rcases connectPoolOrDiscover_effect hserver.1 h₂ with
      ⟨pre, q, post, y, -, hr, -, hm⟩ | ⟨k, -, ⟨hr, -⟩ | ⟨x, hr, -, -, hm⟩⟩
    · cases hr
      rw [hm, head?_promote]
    · cases hr
    · cases hr
      rw [hm, head?_promote]

/-- A pass over members of the pool reaches nobody else. -/
private theorem poolLoop_members {r : Option PeerId} {l : List PeerId}
    (h : Runs (l.findSomeM? (tryPoolMember relayAddress server none) : M S _) s tr r s') :
    ∃ as, Segment tr as 0 ∧ ∀ a ∈ as, a.1 ∈ l ∨ a.2 = none := by
  rcases poolLoop_effect h with ⟨pre, q, post, y, he, -, hs, -⟩ | ⟨-, hs, -⟩
  · refine ⟨_, hs, fun a ha => ?_⟩
    rcases List.mem_append.1 ha with ha | ha
    · obtain ⟨z, -, rfl⟩ := List.mem_map.1 ha
      exact .inr rfl
    · obtain rfl := List.mem_singleton.1 ha
      exact .inl (List.mem_of_mem_filter (by rw [he]; simp))
  · refine ⟨_, hs, fun a ha => ?_⟩
    obtain ⟨z, -, rfl⟩ := List.mem_map.1 ha
    exact .inr rfl

/-- After the pass over the pool no peer is asked for. -/
private theorem afterPool_segment {o : Option PeerId} {r : Except ConnectError ConnectedDestination}
    (hsticky : server.peerOptions.sticky = true)
    (h : Runs (match o with
      | some peer => do
        remember server server.fingerprint peer
        pure (.ok { peer, source := .sticky })
      | none => runDiscovery relayAddress server server.fingerprint : M S _) s tr r s') : ∃ n, Segment tr [] n := by
  cases o with
  | some y =>
    obtain ⟨t, _, _, _, rfl, h₁, h₂⟩ := runs_bind.1 h
    obtain ⟨rfl, -, -⟩ := runs_pure.1 h₂
    exact ⟨0, by simpa using (remember_effect hsticky h₁).1⟩
  | none =>
    rcases runDiscovery_effect hsticky h with ⟨-, hs, -⟩ | ⟨k, x, -, -, hs, -⟩
    · exact ⟨_, hs⟩
    · exact ⟨_, hs⟩

/-- A connect that may reach the front of the pool takes it, and dials nothing but its routes. -/
theorem connect_readopts {p : PeerId} {r : Except ConnectError ConnectedDestination} (hserver : server.StickyExit)
    (hnodup : (exitPool server s).Nodup) (hfront : (exitPool server s).head? = some p)
    (h : Runs (connect relayAddress server none : M S _) s tr r s') (hreach : (p, some p) ∈ reachAttempts tr) :
    r = .ok { peer := p, source := .sticky } ∧ tr.countP Io.isFindNodes = 0 ∧
      ∀ A x, ⟨.dialAndWait A, x⟩ ∈ tr → ∃ ans, ⟨.resolvePeers [p], ans⟩ ∈ tr ∧
        A ⊆ reachRoutes relayAddress (StickyStore.directAddress server.port p s) (routesOf relayAddress [p] ans) p := by
  obtain ⟨hsticky, hpins⟩ := hserver
  unfold connect at h
  rw [if_pos hpins] at h
  obtain ⟨t₁, o, s₁, t₂, rfl, h₁, h₂⟩ := runs_bind.1 h
  obtain ⟨n, htail⟩ := afterPool_segment hsticky h₂
  unfold connectStickyPool at h₁
  rw [if_pos hsticky] at h₁
  obtain ⟨_, _, _, t, rfl, h₃, h₄⟩ := runs_bind.1 h₁
  obtain ⟨rfl, rfl, rfl⟩ := runs_modifyGet.1 h₃
  rw [pool_fst_eq_exitPool] at h₄
  obtain ⟨rest, hpool⟩ : ∃ rest, exitPool server s = p :: rest := List.head?_eq_some_iff.1 hfront
  rw [hpool] at h₄ hnodup
  have hne : exitPool server s ≠ [] := by simp [hpool]
  have hdirect := directAddress_pool server.port p hne
  rcases runs_findSomeM?_cons.1 h₄ with ⟨y, rfl, hp⟩ | ⟨ta, sa, tb, rfl, hp, hl⟩
  · rcases runs_tryPoolMember.1 hp with ⟨hn, -⟩ | ⟨-, hr, -⟩
    · cases hn
    · rw [List.nil_append, reachAttempts_append htail.headDials_eq, hr.segment.reachAttempts_eq,
        htail.reachAttempts_eq] at hreach
      obtain rfl : p = y := by simpa using hreach
      obtain ⟨t₅, _, _, _, rfl, h₅, h₆⟩ := runs_bind.1 h₂
      obtain ⟨rfl, rfl, rfl⟩ := runs_pure.1 h₆
      have hrem := remember_effect hsticky h₅
      refine ⟨rfl, by simpa using (hr.segment.append hrem.1).queries_eq, fun A x hA => ?_⟩
      rw [hdirect] at hr
      obtain ⟨ans, dials, rfl, hd⟩ := hr
      refine ⟨ans, by simp, ?_⟩
      have hmem : ⟨.dialAndWait A, x⟩ ∈ dials := by
        rcases runs_remember.1 h₅ with ⟨-, now, rfl, -⟩ | ⟨-, rfl, -⟩ <;> simpa using hA
      obtain ⟨B, y, he, -, hB⟩ := hd.dials hmem
      cases he
      exact hB
  · exfalso
    -- the front was tried in vain, and the rest of the pool does not contain it
    obtain ⟨as, hs, has⟩ := poolLoop_members hl
    rcases runs_tryPoolMember.1 hp with ⟨hn, -⟩ | ⟨-, hr, -⟩
    · cases hn
    · rw [List.nil_append, ((hr.segment.append hs).append htail).reachAttempts_eq] at hreach
      have hmem : (p, some p) ∈ as := by simpa using hreach
      rcases has _ hmem with hin | hn
      · exact (List.nodup_cons.1 hnodup).1 hin
      · cases hn

private theorem nodup_poolAfterLoss {avoid : Option PeerId} {pool : List PeerId} (h : pool.Nodup) :
    (poolAfterLoss server avoid pool).Nodup := by
  unfold poolAfterLoss
  split
  · exact h.filter _
  · exact h

private theorem promote_eq_filter {cap : Nat} {x : PeerId} {l : List PeerId} (h : l.Nodup) :
    promote cap x l = (x :: l.filter (· ≠ x)).take (max 1 cap) := by
  have hne : l.filter (· != x) = l.filter (· ≠ x) :=
    List.filter_congr fun y _ => by by_cases hy : y = x <;> simp [hy]
  rw [promote, h.erase_eq_filter, hne]

/-- What connecting a sticky server without pins does to its pool `P`, when an attempt on a peer reaches that peer or
nobody.  Either (1) the dropped exit comes back; or it is given up, and (2) the first pool member that answers is
taken, the ones tried before it being forgotten; or (3) nobody answers, what is left of the pool is the dropped exit
at most, and the hub is queried until the dial of the candidates' addresses connects a peer, which is taken, or all
queries have led to nobody. -/
def PoolEffect (relayAddress : Multiaddr) (server : Server) (avoid : Option PeerId) (s : S) (tr : List Io)
    (r : Except ConnectError ConnectedDestination) (s' : S) : Prop :=
  let m := max 1 server.pool.maxTotal
  let P := exitPool server s
  let P₁ := poolAfterLoss server avoid P
  let P₂ := P₁.filter (some · = avoid)
  (∃ a k, avoid = some a ∧ server.peerOptions.stickyReconnect = .withBackoff ∧ k < stickyReconnectAttempts ∧
    reachAttempts tr = List.replicate k (a, none) ++ [(a, some a)] ∧ tr.countP Io.isFindNodes = 0 ∧
    r = .ok { peer := a, source := .sticky } ∧ exitPool server s' = (a :: P.filter (· ≠ a)).take m) ∨
  (∃ pre q post, P₁.filter (some · ≠ avoid) = pre ++ q :: post ∧
    reachAttempts tr = foughtFor server avoid ++ pre.map (·, none) ++ [(q, some q)] ∧
    tr.countP Io.isFindNodes = 0 ∧ r = .ok { peer := q, source := .sticky } ∧
    exitPool server s' = (q :: P₁.filter fun x => x ≠ q ∧ x ∉ pre).take m) ∨
  (reachAttempts tr = foughtFor server avoid ++ (P₁.filter (some · ≠ avoid)).map (·, none) ∧
    ∃ (known : List Io) (failed : List (List Io)), known.countP Io.isFindNodes = 0 ∧
      (∀ t ∈ failed, FailedQuery relayAddress server t) ∧
      ((∃ x won now, r = .ok { peer := x, source := .discovered } ∧ failed.length < maxDiscoveryAttempts ∧
          tr = known ++ failed.flatten ++ won ++ [⟨.utcNow, now⟩] ∧ WonQuery relayAddress server x won ∧
          namedPeers tr = [x] ∧ tr.countP Io.isFindNodes = failed.length + 1 ∧
          exitPool server s' = (x :: P₂.filter (· ≠ x)).take m) ∨
        (r = .error (.discoveryExhausted server.port maxDiscoveryAttempts) ∧ failed.length = maxDiscoveryAttempts ∧
          tr = known ++ failed.flatten ++ [⟨.emit (.error (discoveryFailedMessage server)), ()⟩] ∧
          namedPeers tr = [] ∧ tr.countP Io.isFindNodes = maxDiscoveryAttempts ∧ exitPool server s' = P₂)))

/-- The effect is complete: every run of `connect` on a sticky server without pins has it. -/
theorem connect_poolEffect {avoid : Option PeerId} {r : Except ConnectError ConnectedDestination}
    (hserver : server.StickyExit) (hnodup : (view s).PoolsNodup)
    (h : Runs (connect relayAddress server avoid : M S _) s tr r s')
    (hreach : ∀ a ∈ reachAttempts tr, a.2 = none ∨ a.2 = some a.1) :
    PoolEffect relayAddress server avoid s tr r s' := by
  unfold PoolEffect
  intro m P P₁ P₂
  have hP : P.Nodup := nodup_exitPool hnodup
  have hP₁ : P₁.Nodup := nodup_poolAfterLoss hP
  have hnamed : namedPeers tr = (resultPeer r).toList := by
    have hdiscovered : Runs (connectDiscovered relayAddress server avoid : M S _) s tr r s' := by
      simpa only [connect, if_pos hserver.2] using h
    exact connectDiscovered_namedPeers hdiscovered
  rcases connect_cases hserver h with
    ⟨a, k, y, rfl, hb, hk, hs, rfl, hm⟩ | ⟨t₁, s₁, t₂, rfl, hs₁, hm₁, h₂⟩
  · have hy : y = a := by
      have := hreach (a, some y) (by rw [hs.reachAttempts_eq]; simp)
      simpa using this
    subst hy
    exact .inl ⟨y, k, rfl, hb, hk, hs.reachAttempts_eq, hs.queries_eq, rfl, by rw [hm, promote_eq_filter hP]⟩
  · rcases connectPoolOrDiscover_cases hserver.1 h₂ with
      ⟨pre, q, post, y, he, rfl, hs, hm⟩ | ⟨t₃, s₂, t₄, rfl, hs, hm, h₄⟩
    · have hseg := hs₁.append hs
      have hy : y = q := by
        have := hreach (q, some y) (by rw [hseg.reachAttempts_eq]; simp)
        simpa using this
      subst hy
      rw [hm₁] at he hm
      refine .inr (.inl ⟨pre, y, post, he, by simpa using hseg.reachAttempts_eq, hseg.queries_eq, rfl, ?_⟩)
      rw [hm, promote_eq_filter (hP₁.filter _), List.filter_filter]
      simp [m, P₁, P]
    · -- nobody known is reached, so the rest is discovery
      have hknown := hs₁.append hs
      rw [hm₁] at hm hknown
      obtain ⟨failed, hqueries, hends⟩ := runDiscovery_queries h₄
      have hfailed := hknown.append (failedQueries_segment hqueries)
      refine .inr (.inr ⟨?_, t₁ ++ t₃, failed, hknown.queries_eq, hqueries, ?_⟩)
      · obtain ⟨-, hs₄, -⟩ | ⟨k, x, -, -, hs₄, -⟩ := runDiscovery_effect hserver.1 h₄
        · simpa using (hknown.append hs₄).reachAttempts_eq
        · simpa using (hknown.append hs₄).reachAttempts_eq
      · rcases hends with ⟨rfl, hlen, rfl, rfl⟩ | ⟨x, won, kept, rfl, hlen, rfl, hwon, hkept⟩
        · have hcount := (hfailed.append (.emit (.error (discoveryFailedMessage server)))).queries_eq
          exact .inr ⟨rfl, hlen, by simp, hnamed, by simpa [hlen] using hcount, hm⟩
        · obtain ⟨hs₄, hm₄⟩ := remember_effect hserver.1 hkept
          have hcount := ((hfailed.append hwon.segment).append hs₄).queries_eq
          obtain ⟨-, now, rfl, -⟩ | ⟨hunsticky, -⟩ := runs_remember.1 hkept
          · refine .inl ⟨x, won, now, rfl, hlen, by simp, hwon, hnamed, by simpa using hcount, ?_⟩
            rw [hm₄, hm, promote_eq_filter (hP₁.filter _)]
          · rw [hserver.1] at hunsticky
            cases hunsticky

section Fixture

private def exitA : PeerId := ⟨[1]⟩
private def exitB : PeerId := ⟨[2]⟩
private def exitC : PeerId := ⟨[3]⟩

/-- The pool `A, B, C` of a server on port 1080. -/
private def threeExits : StickyState :=
  let remember peer (s : StickyState) :=
    (s.remember 0 1080 (discoveryServer 1080).fingerprint peer defaultMaxTotal).2
  remember exitA (remember exitB (remember exitC .empty))

/-- Only `C` can be reached, through its circuit. -/
private def onlyC : World := { routes := [], candidates := [], online := [exitC], connected := [] }

/-- Nobody who is known can be reached, but one of the two candidates of the hub. -/
private def onlyCandidate : World :=
  { routes := []
    candidates := [⟨⟨[4]⟩, [[.other 4 [4], .p2p ⟨[4]⟩]]⟩, ⟨⟨[5]⟩, [[.other 4 [5], .p2p ⟨[5]⟩]]⟩]
    online := [⟨[5]⟩], connected := [] }

/-- `A` drops and does not come back, and `B` does not answer.  If `C` does, it is taken; otherwise discovery finds the
candidate that answers, and nobody else is left in the pool. -/
theorem connect_poolEffect_threeExits :
    (let run := exec onlyC.answer (connect [] (discoveryServer 1080) (some exitA)) threeExits
    PoolEffect [] (discoveryServer 1080) (some exitA) threeExits run.1 run.2.1 run.2.2 ∧
      run.2.1 = .ok { peer := exitC, source := .sticky }) ∧
    let run := exec onlyCandidate.answer (connect [] (discoveryServer 1080) (some exitA)) threeExits
    PoolEffect [] (discoveryServer 1080) (some exitA) threeExits run.1 run.2.1 run.2.2 ∧
      run.2.1 = .ok { peer := ⟨[5]⟩, source := .discovered } ∧ exitPool (discoveryServer 1080) run.2.2 = [⟨[5]⟩] := by
  have hpools : (view threeExits).PoolsNodup := StickyState.PoolsNodup.empty.remember.remember.remember
  refine ⟨⟨connect_poolEffect (discoveryServer_stickyExit 1080) hpools (exec_runs _ _ _) (by decide), by rfl⟩,
    connect_poolEffect (discoveryServer_stickyExit 1080) hpools (exec_runs _ _ _) (by decide), by rfl, by decide⟩

end Fixture

end P2Proxy
