import P2Proxy.Connect

/-!
# Reaching a peer

What a dial and an attempt to reach one peer look like from outside.  `DialRun R tr r` describes the trace of dialling
the route set `R`: the direct routes in one call, and the circuits in a second one if the first did not connect.  An
attempt asks the hub for the peer and dials the routes it got together with the remembered address; it changes no
state.  The peer that an attempt returns is the one named by the winning route, so it is the peer asked for exactly
when the hub's routes name that peer.
-/

namespace P2Proxy

open Interaction

variable {S : Type} {s s' : S} {tr : List Io} {r : Option PeerId} {R A : Finset Multiaddr} {p q : PeerId}
  {relayAddress : Multiaddr}

/-! ### Dialling -/

/-- The trace of one dial of the set `A` with outcome `r`; the empty set is not dialled. -/
def DialSetRun (A : Finset Multiaddr) (tr : List Io) (r : Option PeerId) : Prop :=
  (A = ∅ ∧ tr = [] ∧ r = none) ∨
    A ≠ ∅ ∧ ∃ x : Except DialError (Option PeerId), tr = [⟨.dialAndWait A, x⟩] ∧ r = Io.dialled ⟨.dialAndWait A, x⟩

/-- The trace of dialling the routes `R` with outcome `r`: direct routes first, circuits only if none connects. -/
def DialRun (R : Finset Multiaddr) (tr : List Io) (r : Option PeerId) : Prop :=
  (r ≠ none ∧ DialSetRun (partitionDirectFirst R).1 tr r) ∨
    ∃ t₁ t₂, tr = t₁ ++ t₂ ∧ DialSetRun (partitionDirectFirst R).1 t₁ none ∧
      DialSetRun (partitionDirectFirst R).2 t₂ r

theorem runs_dialSet : Runs (dialSet A : M S (Option PeerId)) s tr r s' ↔ s' = s ∧ DialSetRun A tr r := by
  unfold dialSet DialSetRun
  split
  · rename_i h
    simp only [runs_pure, h, ne_eq, not_true, false_and, or_false, true_and]
    constructor
    · rintro ⟨rfl, rfl, rfl⟩; exact ⟨rfl, rfl, rfl⟩
    · rintro ⟨rfl, rfl, rfl⟩; exact ⟨rfl, rfl, rfl⟩
  · rename_i h
    simp only [runs_bind, h, false_and, false_or, ne_eq, not_false_iff, true_and]
    constructor
    · rintro ⟨t₁, x, s₁, t₂, rfl, h₁, h₂⟩
      obtain ⟨rfl, rfl⟩ := runs_ask.1 h₁
      rcases x with e | o <;> obtain ⟨rfl, rfl, rfl⟩ := runs_pure.1 h₂
      · exact ⟨rfl, _, rfl, rfl⟩
      · exact ⟨rfl, _, rfl, rfl⟩
    · rintro ⟨rfl, x, rfl, rfl⟩
      refine ⟨_, x, s', [], rfl, runs_ask.2 ⟨rfl, rfl⟩, ?_⟩
      rcases x with e | o <;> exact runs_pure.2 ⟨rfl, rfl, rfl⟩

theorem runs_dial : Runs (dial R : M S (Option PeerId)) s tr r s' ↔ s' = s ∧ DialRun R tr r := by
  unfold dial DialRun
  rw [runs_bind]
  constructor
  · rintro ⟨t₁, _ | p, s₁, t₂, rfl, h₁, h₂⟩ <;> obtain ⟨rfl, hd₁⟩ := runs_dialSet.1 h₁
    · obtain ⟨rfl, hd₂⟩ := runs_dialSet.1 h₂
      exact ⟨rfl, .inr ⟨t₁, t₂, rfl, hd₁, hd₂⟩⟩
    · obtain ⟨rfl, rfl, rfl⟩ := runs_pure.1 h₂
      exact ⟨rfl, .inl ⟨by simp, by simpa using hd₁⟩⟩
  · rintro ⟨rfl, ⟨hr, h⟩ | ⟨t₁, t₂, rfl, h₁, h₂⟩⟩
    · obtain ⟨p, rfl⟩ := Option.ne_none_iff_exists'.1 hr
      exact ⟨tr, some p, s', [], by simp, runs_dialSet.2 ⟨rfl, h⟩, runs_pure.2 ⟨rfl, rfl, rfl⟩⟩
    · exact ⟨t₁, none, s', t₂, rfl, runs_dialSet.2 ⟨rfl, h₁⟩, runs_dialSet.2 ⟨rfl, h₂⟩⟩

/-- No route, no call. -/
theorem dialRun_empty : DialRun ∅ [] none := .inr ⟨[], [], rfl, .inl ⟨rfl, rfl, rfl⟩, .inl ⟨rfl, rfl, rfl⟩⟩

/-- Every call of a dial dials a non-empty set of the routes. -/
theorem DialRun.dials (h : DialRun R tr r) {e : Io} (he : e ∈ tr) :
    ∃ A x, e = ⟨.dialAndWait A, x⟩ ∧ A ≠ ∅ ∧ A ⊆ R := by
  have key : ∀ {A t r}, A ⊆ R → DialSetRun A t r → e ∈ t → ∃ A x, e = ⟨.dialAndWait A, x⟩ ∧ A ≠ ∅ ∧ A ⊆ R := by
    rintro A t r hA (⟨-, rfl, -⟩ | ⟨hne, x, rfl, -⟩) he
    · cases he
    · exact ⟨A, x, List.mem_singleton.1 he, hne, hA⟩
  rcases h with ⟨-, h⟩ | ⟨t₁, t₂, rfl, h₁, h₂⟩
  · exact key (Finset.filter_subset ..) h he
  · rcases List.mem_append.1 he with he | he
    · exact key (Finset.filter_subset ..) h₁ he
    · exact key (Finset.filter_subset ..) h₂ he

private theorem DialSetRun.facts (h : DialSetRun A tr r) : namedPeers tr = r.toList ∧ firstReached tr = r := by
  rcases h with ⟨-, rfl, rfl⟩ | ⟨-, x, rfl, rfl⟩
  · exact ⟨rfl, rfl⟩
  · rcases x with e | _ | p <;> exact ⟨rfl, rfl⟩

private theorem DialSetRun.firstReached_append (h : DialSetRun A tr none) (rest : List Io) :
    firstReached (tr ++ rest) = firstReached rest := by
  rcases h with ⟨-, rfl, -⟩ | ⟨-, x, rfl, hx⟩
  · rfl
  · rcases x with e | _ | p
    · rfl
    · rfl
    · cases hx

/-- A dial returns the only peer that is named in it. -/
theorem DialRun.namedPeers_eq (h : DialRun R tr r) : namedPeers tr = r.toList := by
  rcases h with ⟨-, h⟩ | ⟨t₁, t₂, rfl, h₁, h₂⟩
  · exact h.facts.1
  · rw [namedPeers_append, h₁.facts.1, h₂.facts.1]
    rfl

theorem DialRun.firstReached_eq (h : DialRun R tr r) : firstReached tr = r := by
  rcases h with ⟨-, h⟩ | ⟨t₁, t₂, rfl, h₁, h₂⟩
  · exact h.facts.2
  · rw [h₁.firstReached_append, h₂.facts.2]

theorem DialRun.ne_nil (h : DialRun R tr r) (hR : R ≠ ∅) : tr ≠ [] := by
  rintro rfl
  rcases h with ⟨hr, h⟩ | ⟨t₁, t₂, ht, h₁, h₂⟩
  · exact hr h.facts.2.symm
  · obtain ⟨rfl, rfl⟩ := List.append_eq_nil_iff.1 ht.symm
    rcases h₁ with ⟨hd, -, -⟩ | ⟨-, x, hx, -⟩
    · rcases h₂ with ⟨hc, -, -⟩ | ⟨-, x, hx, -⟩
      · rw [← partitionDirectFirst_union R, hd, hc] at hR; simp at hR
      · cases hx
    · cases hx

/-- A dial is no attempt on a known peer and no query. -/
theorem DialRun.reachAttempts_eq (h : DialRun R tr r) : reachAttempts tr = [] := by
  refine reachAttempts_eq_nil fun e he => ?_
  obtain ⟨A, x, rfl, -⟩ := h.dials he
  rfl

theorem DialRun.queries_eq (h : DialRun R tr r) : tr.countP Io.isFindNodes = 0 := by
  refine List.countP_eq_zero.2 fun e he => ?_
  obtain ⟨A, x, rfl, -⟩ := h.dials he
  simp [Io.isFindNodes]

/-- The peer returned is the answer to the dial of some of the routes. -/
theorem DialRun.exists_winner (h : DialRun R tr (some p)) : ∃ A, A ⊆ R ∧
    (⟨.dialAndWait A, .ok (some p)⟩ : Io) ∈ tr := by
  have key : ∀ {A t}, A ⊆ R → DialSetRun A t (some p) → ∃ A, A ⊆ R ∧ (⟨.dialAndWait A, .ok (some p)⟩ : Io) ∈ t := by
    rintro A t hA (⟨-, -, h⟩ | ⟨-, x, rfl, hx⟩)
    · cases h
    · rcases x with e | _ | p'
      · cases hx
      · cases hx
      · cases hx
        exact ⟨A, hA, List.mem_singleton_self _⟩
  rcases h with ⟨-, h⟩ | ⟨t₁, t₂, rfl, -, h₂⟩
  · exact key (Finset.filter_subset ..) h
  · obtain ⟨A, hA, hmem⟩ := key (Finset.filter_subset ..) h₂
    exact ⟨A, hA, List.mem_append_right _ hmem⟩

/-- With an honest dialer the peer returned is named by one of the routes. -/
theorem DialRun.exists_route (h : DialRun R tr (some p)) (hd : ∀ e ∈ tr, e.DialHonest) :
    ∃ a ∈ R, lastP2p a = some p := by
  obtain ⟨A, hA, hmem⟩ := h.exists_winner
  obtain ⟨a, ha, hp⟩ := mem_destinationPeerIds.1 (hd _ hmem)
  exact ⟨a, hA ha, hp⟩

/-- The dialer may fail on any set. -/
theorem exists_dialSetRun_none (A : Finset Multiaddr) :
    ∃ tr, DialSetRun A tr none ∧ ∀ e ∈ tr, e.DialHonest := by
  by_cases h : A = ∅
  · exact ⟨[], .inl ⟨h, rfl, rfl⟩, by simp⟩
  · refine ⟨[⟨.dialAndWait A, .ok none⟩], .inr ⟨h, .ok none, rfl, rfl⟩, ?_⟩
    intro e he
    rw [List.mem_singleton.1 he]; trivial

theorem exists_dialRun_none (R : Finset Multiaddr) : ∃ tr, DialRun R tr none ∧ ∀ e ∈ tr, e.DialHonest := by
  obtain ⟨t₁, h₁, hd₁⟩ := exists_dialSetRun_none (partitionDirectFirst R).1
  obtain ⟨t₂, h₂, hd₂⟩ := exists_dialSetRun_none (partitionDirectFirst R).2
  refine ⟨t₁ ++ t₂, .inr ⟨t₁, t₂, rfl, h₁, h₂⟩, fun e he => ?_⟩
  rcases List.mem_append.1 he with he | he
  · exact hd₁ e he
  · exact hd₂ e he

/-- An honest dialer may return any peer that a route names. -/
theorem exists_dialRun_some {a : Multiaddr} (ha : a ∈ R) (hp : lastP2p a = some p) :
    ∃ tr, DialRun R tr (some p) ∧ ∀ e ∈ tr, e.DialHonest := by
  have key : ∀ {A : Finset Multiaddr}, a ∈ A →
      DialSetRun A [⟨.dialAndWait A, .ok (some p)⟩] (some p) ∧
        ∀ e ∈ ([⟨.dialAndWait A, .ok (some p)⟩] : List Io), e.DialHonest := by
    intro A hA
    refine ⟨.inr ⟨Finset.ne_empty_of_mem hA, .ok (some p), rfl, rfl⟩, fun e he => ?_⟩
    rw [List.mem_singleton.1 he]
    exact mem_destinationPeerIds.2 ⟨a, hA, hp⟩
  by_cases hr : isRelayed a
  · have hA : a ∈ (partitionDirectFirst R).2 := Finset.mem_filter.2 ⟨ha, hr⟩
    obtain ⟨t₁, h₁, hd₁⟩ := exists_dialSetRun_none (partitionDirectFirst R).1
    refine ⟨t₁ ++ _, .inr ⟨t₁, _, rfl, h₁, (key hA).1⟩, fun e he => ?_⟩
    rcases List.mem_append.1 he with he | he
    · exact hd₁ e he
    · exact (key hA).2 e he
  · have hA : a ∈ (partitionDirectFirst R).1 := Finset.mem_filter.2 ⟨ha, by simpa using hr⟩
    exact ⟨_, .inl ⟨by simp, (key hA).1⟩, (key hA).2⟩

/-! ### One attempt -/

theorem runs_resolveRoutes {peers : List PeerId} {routes : Routes} :
    Runs (resolveRoutes relayAddress peers : M S Routes) s tr routes s' ↔
      ∃ ans, tr = [⟨.resolvePeers peers, ans⟩] ∧ routes = routesOf relayAddress peers ans ∧ s' = s := by
  unfold resolveRoutes
  rw [runs_bind]
  constructor
  · rintro ⟨t₁, ans, s₁, t₂, rfl, h₁, h₂⟩
    obtain ⟨rfl, rfl⟩ := runs_ask.1 h₁
    obtain ⟨rfl, rfl, rfl⟩ := runs_pure.1 h₂
    exact ⟨ans, rfl, rfl, rfl⟩
  · rintro ⟨ans, rfl, rfl, rfl⟩
    exact ⟨_, ans, s', [], rfl, runs_ask.2 ⟨rfl, rfl⟩, runs_pure.2 ⟨rfl, rfl, rfl⟩⟩

/-- The routes to a peer are what the hub returned under its id, or a circuit if the hub cannot answer. -/
theorem lookup_routesOf {peers : List PeerId} {ans : Except DirectoryError Routes} {as : List Multiaddr} {a : Multiaddr}
    (h : (routesOf relayAddress peers ans).lookup p = some as) (ha : a ∈ as) :
    (∃ routes, ans = .ok routes ∧ routes.lookup p = some as) ∨ p ∈ peers ∧ lastP2p a = some p := by
  match ans, h with
  | .ok routes, h => exact .inl ⟨routes, rfl, h⟩
  | .error (.unsupported _), h =>
    obtain ⟨p', hp', hp⟩ := List.mem_filterMap.1 (Routes.mem_of_lookup_collect h)
    obtain ⟨c, hc, hpc⟩ := Option.map_eq_some_iff.1 hp
    simp only [Prod.mk.injEq] at hpc
    obtain ⟨rfl, rfl⟩ := hpc
    obtain rfl := List.mem_singleton.1 ha
    exact .inr ⟨hp', lastP2p_synthesizeCircuit hc⟩
  | .error .timeout, h => simp [routesOf] at h
  | .error (.rejected _), h => simp [routesOf] at h
  | .error (.taskFailed _), h => simp [routesOf] at h

/-- There is always something to dial. -/
theorem reachRoutes_ne_empty {direct : Option Multiaddr} {resolved : Routes} :
    reachRoutes relayAddress direct resolved p ≠ ∅ := by
  unfold reachRoutes
  simp only
  split
  · simp
  · assumption

theorem lastP2p_rememberedRoute {direct : Option Multiaddr} {a : Multiaddr}
    (h : rememberedRoute direct p = some a) : lastP2p a = some p := by
  unfold rememberedRoute at h
  obtain ⟨b, -, h⟩ := Option.bind_eq_some_iff.1 h
  split at h
  · rename_i ht
    cases h
    exact lastP2p_withP2p ht
  · cases h

/-- Every route raced for `p` is tagged with `p` or comes from the hub's answer. -/
theorem lastP2p_of_mem_reachRoutes {direct : Option Multiaddr} {resolved : Routes} {a : Multiaddr}
    (h : a ∈ reachRoutes relayAddress direct resolved p) : lastP2p a = some p ∨ a ∈ resolved.flatten := by
  unfold reachRoutes at h
  simp only at h
  split at h
  · exact .inl (lastP2p_synthesizeCircuit (Option.mem_toFinset.1 h))
  · rcases Finset.mem_union.1 h with h | h
    · exact .inl (lastP2p_rememberedRoute (Option.mem_toFinset.1 h))
    · exact .inr (List.mem_toFinset.1 h)

theorem mem_reachRoutes_of_mem_flatten {direct : Option Multiaddr} {resolved : Routes} {a : Multiaddr}
    (h : a ∈ resolved.flatten) : a ∈ reachRoutes relayAddress direct resolved p := by
  unfold reachRoutes
  simp only
  have ha : a ∈ (rememberedRoute direct p).toFinset ∪ resolved.flatten.toFinset :=
    Finset.mem_union_right _ (List.mem_toFinset.2 h)
  rw [if_neg (Finset.ne_empty_of_mem ha)]
  exact ha

/-- The trace of one attempt on `p` with outcome `r`. -/
def ReachRun (relayAddress : Multiaddr) (direct : Option Multiaddr) (p : PeerId) (tr : List Io)
    (r : Option PeerId) : Prop :=
  ∃ ans dials, tr = ⟨.resolvePeers [p], ans⟩ :: dials ∧
    DialRun (reachRoutes relayAddress direct (routesOf relayAddress [p] ans) p) dials r

theorem runs_tryReachPeer [StickyStore S] {server : Server} :
    Runs (tryReachPeer relayAddress server p : M S (Option PeerId)) s tr r s' ↔
      s' = s ∧ ReachRun relayAddress (StickyStore.directAddress server.port p s) p tr r := by
  unfold tryReachPeer ReachRun
  simp only [runs_bind, runs_get, runs_resolveRoutes, runs_dial]
  constructor
  · rintro ⟨_, _, _, _, rfl, ⟨rfl, rfl, rfl⟩, _, _, _, dials, rfl, ⟨ans, rfl, rfl, rfl⟩, rfl, h⟩
    exact ⟨rfl, ans, dials, rfl, h⟩
  · rintro ⟨rfl, ans, dials, rfl, h⟩
    exact ⟨[], s', s', _, rfl, ⟨rfl, rfl, rfl⟩, _, _, s', dials, rfl, ⟨ans, rfl, rfl, rfl⟩, rfl, h⟩

namespace ReachRun

variable {direct : Option Multiaddr}

theorem namedPeers_eq (h : ReachRun relayAddress direct p tr r) : namedPeers tr = r.toList := by
  obtain ⟨ans, dials, rfl, h⟩ := h
  exact h.namedPeers_eq

/-- An attempt is one attempt. -/
theorem segment (h : ReachRun relayAddress direct p tr r) : Segment tr [(p, r)] 0 := by
  obtain ⟨ans, dials, rfl, h⟩ := h
  have hhead : headDials dials = true := by
    cases dials with
    | nil => exact absurd rfl (h.ne_nil reachRoutes_ne_empty)
    | cons e dials =>
      obtain ⟨A, x, rfl, -⟩ := h.dials (List.mem_cons_self ..)
      rfl
  refine ⟨rfl, ?_, ?_⟩
  · show (if headDials dials then (p, firstReached dials) :: reachAttempts dials else reachAttempts dials) = _
    rw [hhead, h.reachAttempts_eq, h.firstReached_eq]
    rfl
  · rw [List.countP_cons_of_neg (by simp [Io.isFindNodes]), h.queries_eq]

end ReachRun

end P2Proxy
