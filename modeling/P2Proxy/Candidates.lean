import P2Proxy.Attempts
import P2Proxy.Dials

/-!
# Can a candidate be adopted?

The actor answers a dial with the first peer to connect that is named by one of the addresses dialled.  An address names
a peer by its last `/p2p/` component, while it is the hub that says for which peer it is dialled.  Every answer of the
hub is dialled (`Pursuit.followsUp`), and an address dialled for a peer can lead to its adoption exactly when the hub
tags the addresses it supplies (`candidates_adopted_iff`); remembered addresses and circuits are tagged when they are
made.
-/

namespace P2Proxy

open Interaction NetworkActor

variable {relayAddress : Multiaddr} {A : Finset Multiaddr} {a : Multiaddr} {c peer : PeerId} {tr : List Io}

/-! ### Adoption by the actor -/

/-- What is answered on the channel `r`, from the first input to the last. -/
def answers (ctx : Context) (r : ReplyChannel) (ks : List (Swarm × NetworkInput)) : List (Option PeerId) :=
  ((effects ctx .new ks).map (repliesTo r)).flatten

/-- Whatever the actor does before and meanwhile, a dial of `A` is answered with a peer once `c` has connected in
time. -/
def Adopts (A : Finset Multiaddr) (c : PeerId) : Prop :=
  ∀ (ctx : Context) pre w addresses r mid w' address relayed,
    let ks : List (Swarm × NetworkInput) :=
      pre ++ (w, .dial addresses r) :: (mid ++ [(w', .swarm (.connectionEstablished c address relayed))])
    addresses.toFinset = A → (ks.filterMap fun k => dialReply k.2).Nodup →
      (∀ k ∈ mid, k.2 = .expireDials → k.1.now < w.now + dialTimeout.nanos) →
      ∃ p, answers ctx r ks = [some p]

theorem flatten_firstOnly {β : Type} (l : List (Option β)) : (firstOnly l).flatten = (l.findSome? id).toList := by
  induction l with
  | nil => rfl
  | cons x l ih =>
    cases x with
    | none => simpa [firstOnly] using ih
    | some y => simp [firstOnly]

/-- The answer to a dial: nobody if there is no candidate, else what the first input that resolves it says. -/
theorem answers_dial (ctx : Context) {pre post : List (Swarm × NetworkInput)} {w : Swarm} {addresses : List Multiaddr}
    {r : ReplyChannel} (hfresh : ((pre ++ (w, .dial addresses r) :: post).filterMap fun k => dialReply k.2).Nodup) :
    let candidates := destinationPeerIds addresses.toFinset
    answers ctx r (pre ++ (w, .dial addresses r) :: post) = if candidates = ∅ then [none]
      else (post.findSome? fun k => resolves candidates (w.now + dialTimeout.nanos) k.1 k.2).toList := by
  intro candidates
  rw [answers, replies_dial ctx hfresh]
  by_cases hempty : candidates = ∅
  · simp [hempty, candidates]
  · rw [if_neg hempty, if_neg hempty, List.flatten_append, List.flatten_cons, flatten_firstOnly, List.findSome?_map]
    simp [candidates]

/-- A dial adopts exactly the candidates: the peers that its addresses name. -/
theorem adopts_iff : Adopts A c ↔ c ∈ destinationPeerIds A := by
  constructor
  · -- the connection comes right after the dial
    intro h
    let quiet : Swarm := { now := 0, accepts := fun _ => true, isConnected := fun _ => false, connectedPeers := [] }
    obtain ⟨p, hp⟩ :=
      h (dummyContext []) [] quiet A.toList 0 [] quiet [] false (by simp) (by simp [dialReply]) (by simp)
    rw [answers_dial _ (by simp [dialReply]), Finset.toList_toFinset] at hp
    by_contra hc
    split at hp
    · simp at hp
    · simp [resolves, hc] at hp
  · intro hc ctx pre w addresses r mid w' address relayed ks haddresses hfresh hintime
    subst haddresses
    rw [answers_dial ctx hfresh, if_neg (Finset.ne_empty_of_mem hc), List.findSome?_append]
    -- no dial is given up before its deadline
    have hmid : ∀ x, (mid.findSome? fun k => resolves (destinationPeerIds addresses.toFinset)
        (w.now + dialTimeout.nanos) k.1 k.2) = some x → x ≠ none := by
      intro x hx
      obtain ⟨k, hk, hresolves⟩ := List.exists_of_findSome?_eq_some hx
      obtain ⟨v, input⟩ := k
      cases input with
      | swarm event =>
        cases event with
        | connectionEstablished p _ _ =>
          by_cases hp : p ∈ destinationPeerIds addresses.toFinset
          · simp only [resolves, hp, if_true, Option.some.injEq] at hresolves
            simp [← hresolves]
          · simp [resolves, hp] at hresolves
        | _ => cases hresolves
      | expireDials =>
        have hearly := hintime _ hk rfl
        simp [resolves, Nat.not_le.2 hearly] at hresolves
      | _ => cases hresolves
    cases hfound : mid.findSome? fun k => resolves (destinationPeerIds addresses.toFinset)
        (w.now + dialTimeout.nanos) k.1 k.2 with
    | some x =>
      obtain ⟨p, rfl⟩ := Option.ne_none_iff_exists'.1 (hmid x hfound)
      exact ⟨p, rfl⟩
    | none => exact ⟨c, by simp [resolves, hc]⟩

/-! ### On whose behalf an address is dialled -/

namespace Target

/-- The address is dialled on behalf of `peer`. -/
def OnBehalf (relayAddress : Multiaddr) (peer : PeerId) (a : Multiaddr) : Target → Prop
  | .pinned entry peers answer => peer = entry.peerId ∧ a ∈ candidateRoutes entry (routesOf relayAddress peers answer)
  | .known p remembered answer =>
    peer = p ∧ a ∈ reachRoutes relayAddress remembered (routesOf relayAddress [p] answer) p
  | .discovered candidates => ∃ c ∈ candidates, peer = c.peerId ∧
      a ∈ if c.addresses.isEmpty then (synthesizeCircuit relayAddress c.peerId).toList else c.addresses

/-- The hub has supplied the address for `peer`. -/
def Supplied (peer : PeerId) (a : Multiaddr) : Target → Prop
  | .pinned entry _ answer =>
    peer = entry.peerId ∧ ∃ routes as, answer = .ok routes ∧ routes.lookup entry.peerId = some as ∧ a ∈ as
  | .known p _ answer => peer = p ∧ ∃ routes, answer = .ok routes ∧ a ∈ routes.flatten
  | .discovered candidates => ∃ c ∈ candidates, peer = c.peerId ∧ a ∈ c.addresses

/-- The hub names a peer in every address that it supplies for it. -/
def Tagged (t : Target) : Prop := ∀ peer a, t.Supplied peer a → lastP2p a = some peer

/-- Every address of `A` that is dialled for a peer names this peer and nobody else, and the dial of `A` adopts the
peer. -/
def AdoptsAll (relayAddress : Multiaddr) (t : Target) (A : Finset Multiaddr) : Prop :=
  ∀ a ∈ A, ∀ peer, t.OnBehalf relayAddress peer a → destinationPeerIds {a} = {peer} ∧ Adopts A peer

/-- Whenever the target is dialled, everybody whom a dial is for can be adopted by it. -/
def Adoptable (relayAddress : Multiaddr) (t : Target) : Prop :=
  ∀ tr o, DialRun (t.routes relayAddress) tr o → ∀ call ∈ dialCalls tr, t.AdoptsAll relayAddress call.1

variable {t : Target}

/-- The routes of a target are the addresses dialled on somebody's behalf. -/
theorem mem_routes_iff : a ∈ t.routes relayAddress ↔ ∃ peer, t.OnBehalf relayAddress peer a := by
  cases t with
  | pinned entry peers answer => simp [routes, OnBehalf]
  | known p remembered answer => simp [routes, OnBehalf]
  | discovered candidates =>
    simp only [routes, candidateAddresses, List.mem_toFinset, List.mem_flatMap, OnBehalf]
    constructor
    · rintro ⟨c, hc, ha⟩
      exact ⟨c.peerId, c, hc, rfl, ha⟩
    · rintro ⟨peer, c, hc, -, ha⟩
      exact ⟨c, hc, ha⟩

theorem Supplied.onBehalf (h : t.Supplied peer a) : t.OnBehalf relayAddress peer a := by
  cases t with
  | pinned entry peers answer =>
    obtain ⟨rfl, routes, as, rfl, hl, ha⟩ := h
    exact ⟨rfl, Finset.mem_union_left _ (by simpa [routesOf, hl] using ha)⟩
  | known p remembered answer =>
    obtain ⟨rfl, routes, rfl, ha⟩ := h
    exact ⟨rfl, mem_reachRoutes_of_mem_flatten ha⟩
  | discovered candidates =>
    obtain ⟨c, hc, rfl, ha⟩ := h
    refine ⟨c, hc, rfl, ?_⟩
    rwa [if_neg fun hempty => List.ne_nil_of_mem ha (List.isEmpty_iff.1 hempty)]

/-- An address that is dialled for a peer was supplied by the hub, or it is tagged with the peer. -/
theorem OnBehalf.supplied_or_tagged (hentry : ∀ entry peers answer, t = .pinned entry peers answer → entry.Coherent)
    (h : t.OnBehalf relayAddress peer a) : t.Supplied peer a ∨ lastP2p a = some peer := by
  cases t with
  | pinned entry peers answer =>
    obtain ⟨rfl, ha⟩ := h
    rcases Finset.mem_union.1 ha with hroute | hown
    · cases hl : (routesOf relayAddress peers answer).lookup entry.peerId with
      | none => simp [hl] at hroute
      | some as =>
        rw [hl, Option.getD_some, List.mem_toFinset] at hroute
        rcases lookup_routesOf hl hroute with ⟨routes, rfl, hl'⟩ | ⟨-, hnamed⟩
        · exact .inl ⟨rfl, routes, as, rfl, hl', hroute⟩
        · exact .inr hnamed
    · exact .inr (hentry entry peers answer rfl a (Option.mem_toFinset.1 hown))
  | known p remembered answer =>
    obtain ⟨rfl, ha⟩ := h
    rcases lastP2p_of_mem_reachRoutes ha with hnamed | hm
    · exact .inr hnamed
    · obtain ⟨q, as, hl, has⟩ := Routes.mem_flatten.1 hm
      rcases lookup_routesOf hl has with ⟨routes, rfl, hl⟩ | ⟨hasked, hnamed⟩
      · exact .inl ⟨rfl, routes, rfl, Routes.mem_flatten.2 ⟨q, as, hl, has⟩⟩
      · rw [List.mem_singleton.1 hasked] at hnamed
        exact .inr hnamed
  | discovered candidates =>
    obtain ⟨c, hc, rfl, ha⟩ := h
    split at ha
    · exact .inr (lastP2p_synthesizeCircuit (Option.mem_toList.1 ha))
    · exact .inl ⟨c, hc, rfl, ha⟩

end Target

/-! ### Every connect -/

theorem destinationPeerIds_singleton_eq : destinationPeerIds {a} = {peer} ↔ lastP2p a = some peer := by
  unfold destinationPeerIds
  rw [Finset.singleton_biUnion]
  constructor
  · intro h
    have hmem : peer ∈ (lastP2p a).toFinset := by simp [h]
    exact Option.mem_toFinset.1 hmem
  · intro h
    rw [h]
    rfl

/-- A dial adopts everybody it is for exactly if the hub has tagged the addresses of it that it supplied. -/
theorem Target.adoptsAll_iff {t : Target}
    (hentry : ∀ entry peers answer, t = .pinned entry peers answer → entry.Coherent) :
    t.AdoptsAll relayAddress A ↔ ∀ a ∈ A, ∀ peer, t.Supplied peer a → lastP2p a = some peer := by
  constructor
  · exact fun h a ha peer hsupplied => destinationPeerIds_singleton_eq.1 (h a ha peer hsupplied.onBehalf).1
  · intro h a ha peer hbehalf
    have hnamed : lastP2p a = some peer := (hbehalf.supplied_or_tagged hentry).elim (h a ha peer) id
    exact ⟨destinationPeerIds_singleton_eq.2 hnamed, adopts_iff.2 (mem_destinationPeerIds.2 ⟨a, ha, hnamed⟩)⟩

theorem Target.adoptable_iff {t : Target}
    (hentry : ∀ entry peers answer, t = .pinned entry peers answer → entry.Coherent) :
    t.Adoptable relayAddress ↔ t.Tagged := by
  constructor
  · intro h peer a hsupplied
    -- a dial that fails has dialled the address
    obtain ⟨tr, hfailed, -⟩ := exists_dialRun_none (t.routes relayAddress)
    obtain ⟨call, hcall, ha⟩ := hfailed.dialled_of_failed (Target.mem_routes_iff.2 ⟨peer, hsupplied.onBehalf⟩)
    exact (Target.adoptsAll_iff hentry).1 (h tr none hfailed call hcall) a ha peer hsupplied
  · exact fun htagged tr o _ call _ => (Target.adoptsAll_iff hentry).2 fun a _ peer => htagged peer a

/-- What an attempt can adopt, in the dials it has made and in all it might make. -/
structure Attempt.AdoptsTagged (relayAddress : Multiaddr) (t : Attempt) : Prop where
  dialRun : DialRun (t.target.routes relayAddress) t.trace t.outcome
  calls : ∀ call ∈ dialCalls t.trace, t.target.AdoptsAll relayAddress call.1 ↔
    ∀ a ∈ call.1, ∀ peer, t.target.Supplied peer a → lastP2p a = some peer
  target : t.target.Adoptable relayAddress ↔ t.target.Tagged

section Runs

variable {S : Type} [StickyStore S] [LawfulStickyStore S] {server : Server} {s₀ : S} {attempts : List Attempt}
  {targets : List Target} {e : Io} {o : Option PeerId}

/-- The pinned targets of a course are entries of the server. -/
theorem Course.entries {past : List Io} (h : Course relayAddress server s₀ past tr attempts) : ∀ t ∈ attempts,
    ∀ entry peers answer, t.target = .pinned entry peers answer → entry ∈ server.peerOptions.pinned := by
  induction h with
  | nil => exact fun t ht => absurd ht List.not_mem_nil
  | call _ _ ih => exact ih
  | attempt htarget _ _ ih =>
    refine List.forall_mem_cons.2 ⟨fun entry peers answer heq => ?_, ih⟩
    obtain rfl : _ = Target.pinned entry peers answer := heq
    exact htarget.1

/-- Tried targets are attempted, up to one that is reached. -/
theorem Tries.followed (h : Tries relayAddress targets tr attempts o) : ∀ target ∈ targets,
    (∃ t ∈ attempts, t.target = target) ∨ ∃ t ∈ attempts, t.target ∈ targets ∧ t.outcome ≠ none := by
  induction h with
  | nil => exact fun target ht => absurd ht List.not_mem_nil
  | failed _ _ ih =>
    refine List.forall_mem_cons.2 ⟨.inl ⟨_, List.mem_cons_self .., rfl⟩, fun target ht => ?_⟩
    rcases ih target ht with ⟨t, htried, heq⟩ | ⟨t, htried, hmem, hreached⟩
    · exact .inl ⟨t, List.mem_cons_of_mem _ htried, heq⟩
    · exact .inr ⟨t, List.mem_cons_of_mem _ htried, List.mem_cons_of_mem _ hmem, hreached⟩
  | reached _ => exact fun target _ => .inr ⟨_, List.mem_cons_self .., List.mem_cons_self .., Option.some_ne_none _⟩

/-- Every answer of the hub is followed up: all the targets that it gives are attempted, up to one that is reached. -/
def FollowsUp (server : Server) (s : S) (tr : List Io) (attempts : List Attempt) : Prop :=
  ∀ e ∈ tr, e.asksHub = true → ∃ targets, Gives server s e targets ∧ ∀ target ∈ targets,
    (∃ t ∈ attempts, t.target = target) ∨ ∃ t ∈ attempts, t.target ∈ targets ∧ t.outcome ≠ none

/-- Targets stay attempted when more attempts are made. -/
private theorem followed_mono {attempts' : List Attempt} (hsub : attempts ⊆ attempts')
    (h : ∀ target ∈ targets,
      (∃ t ∈ attempts, t.target = target) ∨ ∃ t ∈ attempts, t.target ∈ targets ∧ t.outcome ≠ none) :
    ∀ target ∈ targets,
      (∃ t ∈ attempts', t.target = target) ∨ ∃ t ∈ attempts', t.target ∈ targets ∧ t.outcome ≠ none := by
  intro target ht
  rcases h target ht with ⟨t, htried, heq⟩ | ⟨t, htried, hreached⟩
  · exact .inl ⟨t, hsub htried, heq⟩
  · exact .inr ⟨t, hsub htried, hreached⟩

theorem Pursuit.followsUp (h : Pursuit relayAddress server s₀ tr attempts) : FollowsUp server s₀ tr attempts := by
  induction h with
  | nil => exact fun e he => absurd he List.not_mem_nil
  | call hquiet _ ih =>
    refine List.forall_mem_cons.2 ⟨fun hasks => ?_, ih⟩
    rw [hquiet.2] at hasks
    cases hasks
  | answer hgives hnotes htries _ ih =>
    refine List.forall_mem_cons.2 ⟨fun _ => ?_, fun e he hasks => ?_⟩
    · exact ⟨_, hgives, followed_mono (List.subset_append_left _ _) htries.followed⟩
    · rcases List.mem_append.1 he with he | he
      · rw [(hnotes e he).2] at hasks
        cases hasks
      rcases List.mem_append.1 he with he | he
      · rw [htries.asksNobody e he] at hasks
        cases hasks
      · obtain ⟨targets, hgives, hfollowed⟩ := ih e he hasks
        exact ⟨targets, hgives, followed_mono (List.subset_append_right _ _) hfollowed⟩

/-- The trace pursues and follows up the answers of the hub, it dials nothing else, and each attempt can adopt whomever
it dials for exactly if the hub tags. -/
def AdoptsTagged (relayAddress : Multiaddr) (server : Server) (s : S) (tr : List Io) : Prop :=
  ∃ attempts, Pursuit relayAddress server s tr attempts ∧ FollowsUp server s tr attempts ∧
    (dialCalls tr = attempts.flatMap fun t => dialCalls t.trace) ∧ ∀ t ∈ attempts, t.AdoptsTagged relayAddress

theorem Settles.adoptsTagged {found : Bool} (hentries : ∀ e ∈ server.peerOptions.pinned, e.Coherent)
    (h : Settles relayAddress server s₀ tr found) : AdoptsTagged relayAddress server s₀ tr := by
  obtain ⟨attempts, hpursuit, -⟩ := h
  have hcourse := hpursuit.course []
  refine ⟨attempts, hpursuit, hpursuit.followsUp, hcourse.dialCalls_eq, fun t ht => ?_⟩
  have hentry : ∀ entry peers answer, t.target = .pinned entry peers answer → entry.Coherent :=
    fun entry peers answer htarget => hentries entry (hcourse.entries t ht entry peers answer htarget)
  exact ⟨hcourse.dialRun t ht, fun call _ => Target.adoptsAll_iff hentry, Target.adoptable_iff hentry⟩

/-- A dial adopts the peers that its addresses name.  So in every connect and every manual selection, where each answer
of the hub is dialled, the dials that can adopt every peer they are for are those whose addresses the hub has tagged. -/
theorem candidates_adopted_iff (relayAddress : Multiaddr) (server : Server) (s : S)
    (hentries : ∀ e ∈ server.peerOptions.pinned, e.Coherent) :
    (∀ A c, Adopts A c ↔ ∃ a ∈ A, lastP2p a = some c) ∧
    (∀ avoid tr r s', Runs (connect relayAddress server avoid) s tr r s' → AdoptsTagged relayAddress server s tr) ∧
    ∀ peer tr r s', Runs (reachSpecificPeer relayAddress server peer) s tr r s' →
      AdoptsTagged relayAddress server s tr :=
  ⟨fun _ _ => adopts_iff.trans mem_destinationPeerIds, fun _ _ _ _ h => (connect_settles h).adoptsTagged hentries,
    fun _ _ _ _ h => (reachSpecificPeer_settles h).adoptsTagged hentries⟩

end Runs

/-- An address that names nobody, and one that names the peer. -/
private def bareAddress (host : UInt8) : Multiaddr := [.other 4 [203, 0, 113, host]]

private def taggedAddress (host : UInt8) (peer : PeerId) : Multiaddr := [.other 4 [203, 0, 113, host], .p2p peer]

/-- The hub knows the pinned peer and the first candidate under bare addresses only. -/
private def mixedHub : World :=
  { routes := [(⟨[1]⟩, [bareAddress 1])],
    candidates := [⟨⟨[2]⟩, [bareAddress 2]⟩, ⟨⟨[3]⟩, [taggedAddress 3 ⟨[3]⟩]⟩],
    online := [⟨[1]⟩, ⟨[2]⟩, ⟨[3]⟩], connected := [] }

private def mixedServer : Server :=
  let pinned := pinnedServer 1080 [⟨[1]⟩]
  { pinned with peerOptions := { pinned.peerOptions with fallbackToDiscovery := true } }

/-- The pinned peer and the first candidate are dialled and cannot be adopted; the second one can, and it is. -/
theorem candidates_adopted_iff_mixed :
    let run := exec mixedHub.answer (connect [] mixedServer none) StickyState.empty
    AdoptsTagged [] mixedServer StickyState.empty run.1 ∧
      dialCalls run.1 = [({bareAddress 1}, none), ({bareAddress 2, taggedAddress 3 ⟨[3]⟩}, some ⟨[3]⟩)] ∧
      ¬ Adopts {bareAddress 1} ⟨[1]⟩ ∧ ¬ Adopts {bareAddress 2, taggedAddress 3 ⟨[3]⟩} ⟨[2]⟩ ∧
      Adopts {bareAddress 2, taggedAddress 3 ⟨[3]⟩} ⟨[3]⟩ := by
  have hentries : ∀ e ∈ mixedServer.peerOptions.pinned, e.Coherent := by
    intro e he
    obtain rfl := List.mem_singleton.1 he
    simp [DestinationPeerEntry.Coherent]
  have hadopted := candidates_adopted_iff [] mixedServer StickyState.empty hentries
  refine ⟨hadopted.2.1 none _ _ _ (exec_runs _ _ _), by decide +kernel, ?_, ?_, ?_⟩
  · rw [hadopted.1]
    decide
  · rw [hadopted.1]
    decide
  · rw [hadopted.1]
    decide

/-- The hub knows a candidate under an address that does not name it. -/
private def bareCandidate : World :=
  { routes := [], candidates := [⟨⟨[1]⟩, [bareAddress 7]⟩], online := [⟨[1]⟩], connected := [] }

/-- A candidate whose only address is bare is never adopted: its dial is answered before it can connect. -/
theorem bare_candidate_lost :
    ¬ ∀ (relayAddress : Multiaddr) (server : Server) (s : StickyState) avoid tr r s',
      Runs (connect relayAddress server avoid) s tr r s' →
      ∀ candidates, ⟨.findNodes server findNodesDiscoveryLimit, .ok candidates⟩ ∈ tr →
        ∀ c ∈ candidates, ∀ a ∈ c.addresses, ∀ call ∈ dialCalls tr, a ∈ call.1 → Adopts call.1 c.peerId := by
  intro h
  have hadopts := h [] (discoveryServer 1080) .empty none _ _ _ (exec_runs bareCandidate.answer _ _)
    bareCandidate.candidates (List.mem_cons_self ..) _ (List.mem_singleton_self _) _ (List.mem_singleton_self _)
    ({bareAddress 7}, none) (List.mem_cons_self ..) (Finset.mem_singleton_self _)
  obtain ⟨a, ha, hnamed⟩ := mem_destinationPeerIds.1 (adopts_iff.1 hadopts)
  obtain rfl := Finset.mem_singleton.1 ha
  cases hnamed

end P2Proxy
