import P2Proxy.Attempts
import P2Proxy.PinnedConnect

/-!
# Resolving a pinned list

A resolve request goes through the gateway to the network actor, which signs it and asks the hub.  The actor asks for
the first `maxResolvePeers` peers of the list only, and the answer is taken for an answer about all of them.  So a bare
pin can be reached in a pass exactly if it stands among these (`pinned_reached_iff`); a later one counts as stale.
-/

namespace P2Proxy

open Interaction

/-! ### From the gateway to the hub -/

/-- What the hub answers to a query. -/
inductive QueryResponse
  | findNodes (nodes : List PoolPeer)
  | findNode
  | error (message : String)

/-- The query protocol of the hub: how many peers one request may name, how a request is signed, and how the hub answers
it in time. -/
structure QueryClient where
  Request : Type
  maxResolvePeers : Nat
  sign : List PeerId → Except String Request
  ask : Request → Except String QueryResponse

/-- What becomes of a command: the actor has stopped, or it drops the reply, or it replies. -/
inductive CommandOutcome (α : Type)
  | stopped
  | dropped
  | sent (answer : α)

/-- What the actor replies to a `ResolvePeers` command. -/
def NetworkActor.resolvePeers (client : QueryClient) (peers : List PeerId) : Except DirectoryError Routes :=
  let capped := peers.take client.maxResolvePeers
  match client.sign capped with
  | .error e => .error (.unsupported s!"failed to sign request: {e}")
  | .ok request =>
    match client.ask request with
    | .ok (.findNodes nodes) => .ok (.collect (nodes.map fun p => (p.peerId, p.addresses)))
    | .ok (.error e) => .error (.unsupported e)
    | .ok .findNode => .error (.rejected "expected FindNodes")
    | .error e => .error (.unsupported e)

def NetworkHandle.resolvePeers : CommandOutcome (Except DirectoryError Routes) → Except DirectoryError Routes
  | .stopped => .error (.taskFailed "network actor stopped")
  | .dropped => .error (.taskFailed "network actor dropped reply")
  | .sent answer => answer

/-- The gateway's answer to a resolve request while the actor runs. -/
def SwarmGateway.resolvePeers (client : QueryClient) (peers : List PeerId) : Except DirectoryError Routes :=
  NetworkHandle.resolvePeers (.sent (NetworkActor.resolvePeers client peers))

/-! ### A hub that knows the routes -/

/-- What can be reached at the moment. -/
structure HubMesh where
  /-- the current routes of the peers that the hub knows -/
  routes : PeerId → Option (List Multiaddr)
  /-- the peer whose connection completes a dial of the address -/
  connects : Multiaddr → Option PeerId
  connected : PeerId → Bool
  /-- A route to a peer leads to this peer or to nobody. -/
  leads : ∀ p as, routes p = some as → ∀ a ∈ as, ∀ q, connects a = some q → q = p

namespace HubMesh

/-- The peer is connected, or the hub knows a route to it at which dialling connects. -/
def Reachable (mesh : HubMesh) (p : PeerId) : Prop :=
  mesh.connected p = true ∨ ∃ as a, mesh.routes p = some as ∧ a ∈ as ∧ mesh.connects a = some p

/-- The hub answers a request with its current route for every peer in it that it knows. -/
def Answers (mesh : HubMesh) (client : QueryClient) : Prop :=
  ∀ peers, ∃ request nodes, client.sign peers = .ok request ∧ client.ask request = .ok (.findNodes nodes) ∧
    ∀ p as, ⟨p, as⟩ ∈ nodes ↔ p ∈ peers ∧ mesh.routes p = some as

/-- The call is answered by the gateway, and by a dialer that connects whomever it can. -/
def Answered (mesh : HubMesh) (client : QueryClient) : Io → Prop
  | ⟨.resolvePeers peers, answer⟩ => answer = SwarmGateway.resolvePeers client peers
  | ⟨.dialAndWait addresses, answer⟩ =>
    match Io.dialled ⟨.dialAndWait addresses, answer⟩ with
    | some p => ∃ a ∈ addresses, mesh.connects a = some p
    | none => ∀ a ∈ addresses, mesh.connects a = none
  | ⟨.isConnected p, answer⟩ => answer = mesh.connected p
  | _ => True

variable {mesh : HubMesh} {client : QueryClient} {peers : List PeerId} {p : PeerId} {relayAddress : Multiaddr}

/-- The routes that a pass gets: those that the hub knows to the first peers of the list. -/
theorem lookup_resolvePeers (hhub : mesh.Answers client) :
    (routesOf relayAddress peers (SwarmGateway.resolvePeers client peers)).lookup p =
      if p ∈ peers.take client.maxResolvePeers then mesh.routes p else none := by
  obtain ⟨request, nodes, hsign, hask, hnodes⟩ := hhub (peers.take client.maxResolvePeers)
  have hanswer :
      SwarmGateway.resolvePeers client peers = .ok (.collect (nodes.map fun n => (n.peerId, n.addresses))) := by
    simp [SwarmGateway.resolvePeers, NetworkHandle.resolvePeers, NetworkActor.resolvePeers, hsign, hask]
  rw [hanswer]
  have hmem : ∀ as, (p, as) ∈ nodes.map (fun n => (n.peerId, n.addresses)) ↔
      p ∈ peers.take client.maxResolvePeers ∧ mesh.routes p = some as := by
    intro as
    rw [← hnodes, List.mem_map]
    constructor
    · rintro ⟨n, hn, heq⟩
      obtain ⟨rfl, rfl⟩ := Prod.mk.inj heq
      exact hn
    · exact fun hn => ⟨_, hn, rfl⟩
  show (Routes.collect _).lookup p = _
  cases hl : (Routes.collect (nodes.map fun n => (n.peerId, n.addresses))).lookup p with
  | some as =>
    obtain ⟨hasked, hroutes⟩ := (hmem as).1 (Routes.mem_of_lookup_collect hl)
    rw [if_pos hasked, hroutes]
  | none =>
    by_cases hasked : p ∈ peers.take client.maxResolvePeers
    · rw [if_pos hasked]
      by_contra hknown
      obtain ⟨as, hroutes⟩ := Option.ne_none_iff_exists'.1 (Ne.symm hknown)
      have hsome := Routes.lookup_collect_isSome ((hmem as).2 ⟨hasked, hroutes⟩)
      rw [hl] at hsome
      cases hsome
    · rw [if_neg hasked]

end HubMesh

/-! ### One pass -/

/-- An entry that pins identity only. -/
def bareEntry (p : PeerId) : DestinationPeerEntry := { peerId := p, address := none }

variable {S : Type} {s s' : S} {tr : List Io} {mesh : HubMesh} {client : QueryClient} {relayAddress : Multiaddr}
  {R : Finset Multiaddr} {pinned : List PeerId} {p q : PeerId} {a : Multiaddr} {k : Nat}

/-- A dial that fails has been given no address that connects. -/
theorem DialRun.connects_eq_none (h : DialRun R tr none) (hf : ∀ e ∈ tr, mesh.Answered client e) (ha : a ∈ R) :
    mesh.connects a = none := by
  obtain ⟨call, hcall, hmem⟩ := h.dialled_of_failed ha
  have hfailed : call.2 = none := h.stopsAt call hcall
  obtain ⟨e, he, hdial⟩ := List.mem_filterMap.1 hcall
  obtain ⟨A, x, rfl, -⟩ := h.dials he
  obtain rfl := Option.some.inj hdial
  have hanswered := hf _ he
  simp only [HubMesh.Answered] at hanswered
  have hnobody : Io.dialled ⟨.dialAndWait A, x⟩ = none := hfailed
  rw [hnobody] at hanswered
  exact hanswered a hmem

/-- A dial that succeeds has been given an address that connects. -/
theorem DialRun.exists_connects (h : DialRun R tr (some p)) (hf : ∀ e ∈ tr, mesh.Answered client e) :
    ∃ a ∈ R, mesh.connects a = some p := by
  obtain ⟨A, hA, hmem⟩ := h.exists_winner
  obtain ⟨a, ha, hconnects⟩ := hf _ hmem
  exact ⟨a, hA ha, hconnects⟩

theorem FailedEntries.connects_eq_none {resolved : Routes} {entries : List DestinationPeerEntry}
    {e : DestinationPeerEntry}
    (h : FailedEntries resolved entries tr) (hf : ∀ e ∈ tr, mesh.Answered client e) (he : e ∈ entries)
    (ha : a ∈ candidateRoutes e resolved) : mesh.connects a = none := by
  obtain ⟨pre, post, rfl⟩ := List.append_of_mem he
  obtain ⟨t₁, t, rfl, -, hrest⟩ := failedEntries_append.1 h
  obtain ⟨t₂, t₃, rfl, hdial, -⟩ := hrest
  exact hdial.connects_eq_none (fun e he => hf e (by simp [he])) ha

theorem mem_candidateRoutes_bareEntry {resolved : Routes} :
    a ∈ candidateRoutes (bareEntry p) resolved ↔ ∃ as, resolved.lookup p = some as ∧ a ∈ as := by
  cases h : resolved.lookup p <;> simp [candidateRoutes, bareEntry, h]

/-- What stands in one place of a list is among its first elements if the place is. -/
theorem mem_take_iff_of_unique {l : List PeerId} {n : Nat} (hk : l[k]? = some p)
    (hunique : ∀ j, l[j]? = some p → j = k) :
    p ∈ l.take n ↔ k < n := by
  rw [List.mem_iff_getElem?]
  constructor
  · rintro ⟨j, hj⟩
    rw [List.getElem?_take] at hj
    split at hj
    · rename_i hlt
      exact hunique j hj ▸ hlt
    · cases hj
  · exact fun hlt => ⟨k, by rw [List.getElem?_take, if_pos hlt]; exact hk⟩

/-- The routes that a pass over bare pins gets. -/
theorem lookup_pinned (hhub : mesh.Answers client) {ans : Except DirectoryError Routes}
    (hans : ans = SwarmGateway.resolvePeers client ((pinned.map bareEntry).map (·.peerId))) :
    (routesOf relayAddress ((pinned.map bareEntry).map (·.peerId)) ans).lookup q =
      if q ∈ pinned.take client.maxResolvePeers then mesh.routes q else none := by
  have hids : (pinned.map bareEntry).map (·.peerId) = pinned := by simp [Function.comp_def, bareEntry]
  rw [hans, hids]
  exact HubMesh.lookup_resolvePeers hhub

/-- A bare pin with a route is announced as resolvable, at its rank, exactly if the actor asks for it. -/
theorem pinned_resolvable_iff (hhub : mesh.Answers client) {port : Port} {r : Option ConnectedDestination}
    (hk : pinned[k]? = some p) (hunique : ∀ j, pinned[j]? = some p → j = k)
    (hroute : ∃ as, mesh.routes p = some as ∧ as ≠ []) (hf : ∀ e ∈ tr, mesh.Answered client e)
    (h : Runs (pinnedPass relayAddress port (pinned.map bareEntry)) s tr r s') :
    ∃ statuses, (⟨.emit (.pinnedPeerStatuses port statuses), ()⟩ : Io) ∈ tr ∧
      statuses[k]? = some { peerId := p, rank := k, resolvable := decide (k < client.maxResolvePeers) } := by
  obtain ⟨t₁, resolved, s₁, t₂, rfl, h₁, h₂⟩ := runs_bind.1 h
  obtain ⟨ans, rfl, rfl, rfl⟩ := runs_resolveRoutes.1 h₁
  obtain ⟨t₃, _, s₂, dials, rfl, h₃, -⟩ := runs_bind.1 h₂
  obtain ⟨rfl, -⟩ := runs_emit.1 h₃
  have hans : ans = SwarmGateway.resolvePeers client ((pinned.map bareEntry).map (·.peerId)) :=
    hf _ (List.mem_cons_self ..)
  refine ⟨_, List.mem_cons_of_mem _ (List.mem_cons_self ..), ?_⟩
  have hroutes : candidateRoutes (bareEntry p) (routesOf relayAddress ((pinned.map bareEntry).map (·.peerId)) ans) ≠ ∅ ↔
      k < client.maxResolvePeers := by
    rw [← mem_take_iff_of_unique hk hunique, ← Finset.nonempty_iff_ne_empty]
    constructor
    · rintro ⟨a, ha⟩
      obtain ⟨as, has, -⟩ := mem_candidateRoutes_bareEntry.1 ha
      rw [lookup_pinned hhub hans] at has
      split at has
      · assumption
      · cases has
    · intro hasked
      obtain ⟨as, has, hne⟩ := hroute
      obtain ⟨a, ha⟩ := List.exists_mem_of_ne_nil as hne
      exact ⟨a, mem_candidateRoutes_bareEntry.2 ⟨as, by rw [lookup_pinned hhub hans, if_pos hasked]; exact has, ha⟩⟩
  simp only [pinnedStatuses, List.getElem?_map, List.getElem?_zipIdx, hk, Option.map_some, Nat.zero_add]
  exact congrArg (fun b => some (PinnedPeerStatus.mk p k b)) (decide_eq_decide.2 hroutes)

/-- A bare pin that alone can be reached is returned, with its rank, by the first pass exactly if the actor asks for
it. -/
theorem pinned_reached_iff (mesh : HubMesh) (client : QueryClient) (hhub : mesh.Answers client) (port : Port)
    (pinned : List PeerId) (k : Nat) (p : PeerId) (hk : pinned[k]? = some p)
    (hroute : ∃ as a, mesh.routes p = some as ∧ a ∈ as ∧ mesh.connects a = some p)
    (hothers : ∀ j q, pinned[j]? = some q → j ≠ k → ¬ mesh.Reachable q) (s : S) tr r s'
    (hf : ∀ e ∈ tr, mesh.Answered client e)
    (h : Runs (pinnedPass relayAddress port (pinned.map bareEntry)) s tr r s') :
    r = some { peer := p, source := .pinned k } ↔ k < client.maxResolvePeers := by
  have hreachable : mesh.Reachable p := .inr hroute
  have hasked : p ∈ pinned.take client.maxResolvePeers ↔ k < client.maxResolvePeers :=
    mem_take_iff_of_unique hk fun j hj => by_contra fun hjk => hothers j p hj hjk hreachable
  obtain ⟨t₁, resolved, s₁, t₂, rfl, h₁, h₂⟩ := runs_bind.1 h
  obtain ⟨ans, rfl, rfl, rfl⟩ := runs_resolveRoutes.1 h₁
  obtain ⟨t₃, _, s₂, dials, rfl, h₃, h₄⟩ := runs_bind.1 h₂
  obtain ⟨rfl, rfl⟩ := runs_emit.1 h₃
  have hans : ans = SwarmGateway.resolvePeers client ((pinned.map bareEntry).map (·.peerId)) :=
    hf _ (List.mem_cons_self ..)
  have hdials : ∀ e ∈ dials, mesh.Answered client e := fun e he => hf e (by simp [he])
  rcases dialEntries_effect h₄ with ⟨rfl, -, hfailed⟩ |
    ⟨pre, w, post, t₄, t₅, t₆, q, best, hl, rfl, -, hdial, hbest, rfl⟩
  · -- every entry has failed, so this one was not asked for
    refine iff_of_false (by simp) fun hlt => ?_
    obtain ⟨as, a, hroutes, ha, hconnects⟩ := hroute
    have hmem : a ∈ candidateRoutes (bareEntry p) (routesOf relayAddress ((pinned.map bareEntry).map (·.peerId)) ans) :=
      mem_candidateRoutes_bareEntry.2 ⟨as, by rw [lookup_pinned hhub hans, if_pos (hasked.2 hlt)]; exact hroutes, ha⟩
    have hnone := hfailed.connects_eq_none hdials (List.mem_map_of_mem (List.mem_of_getElem? hk)) hmem
    rw [hconnects] at hnone
    cases hnone
  · -- an entry was reached, so it was asked for and it is this one
    obtain ⟨l₁, l₂, hpinned, rfl, hl₂⟩ := List.map_eq_append_iff.1 hl
    obtain ⟨p', l₃, rfl, rfl, rfl⟩ := List.map_eq_cons_iff.1 hl₂
    obtain ⟨a, ha, hconnects⟩ := hdial.exists_connects fun e he => hdials e (by simp [he])
    obtain ⟨as, has, hmem⟩ := mem_candidateRoutes_bareEntry.1 ha
    rw [lookup_pinned hhub hans] at has
    split at has
    · rename_i hfirst
      obtain rfl := mesh.leads p' as has a hmem q hconnects
      have hplace : pinned[l₁.length]? = some q := by simp [hpinned]
      -- only this entry can be reached
      have hself : l₁.length = k := by
        by_contra hne
        exact hothers _ q hplace hne (.inr ⟨as, a, has, hmem, hconnects⟩)
      rw [hself, hk, Option.some.injEq] at hplace
      subst hplace
      refine iff_of_true ?_ (hasked.1 hfirst)
      obtain ⟨-, ⟨rfl, -⟩ | ⟨pre', e, mid, hpre, -, rfl⟩⟩ := adoptBestPinnedRank_effect hbest
      · simp [hself]
      · -- no entry before it is connected
        exfalso
        have hlate : mesh.connected e.peerId = true := by
          have hanswer := hdials (lateConnected e) (by simp)
          exact hanswer.symm
        rw [hpinned, List.map_append, Nat.zero_add, List.take_left] at hpre
        obtain ⟨l₄, l₅, rfl, -, hl₅⟩ := List.map_eq_append_iff.1 hpre
        obtain ⟨p', l₆, rfl, rfl, -⟩ := List.map_eq_cons_iff.1 hl₅
        refine hothers l₄.length p' (by simp [hpinned]) ?_ (.inl hlate)
        rw [← hself]
        simp
    · cases has

/-! ### A hub that knows the second pin only -/

private def secondPin : PeerId := ⟨[2]⟩

private def secondRoute : Multiaddr := [.other 4 [], .p2p secondPin]

private def secondOnly : HubMesh where
  routes p := if p = secondPin then some [secondRoute] else none
  connects a := if a = secondRoute then some secondPin else none
  connected _ := false
  leads p as hroutes a ha q hq := by
    by_cases hp : p = secondPin
    · by_cases hroute : a = secondRoute
      · rw [if_pos hroute, Option.some.injEq] at hq
        exact hq.symm.trans hp.symm
      · simp [hroute] at hq
    · simp [hp] at hroutes

private def secondClient (maxResolvePeers : Nat) : QueryClient where
  Request := List PeerId
  maxResolvePeers := maxResolvePeers
  sign := .ok
  ask peers := .ok (.findNodes (if secondPin ∈ peers then [⟨secondPin, [secondRoute]⟩] else []))

private theorem secondOnly_answers (n : Nat) : secondOnly.Answers (secondClient n) := by
  intro peers
  refine ⟨peers, _, rfl, rfl, fun p as => ?_⟩
  by_cases hasked : secondPin ∈ peers <;> by_cases hp : p = secondPin
  · subst hp
    simp [hasked, secondOnly, eq_comm]
  · simp [hp, secondOnly]
  · subst hp
    simp [hasked]
  · simp [hasked, hp, secondOnly]

private def secondAnswer (n : Nat) (_ : List Io) : (q : Call) → q.Answer
  | .resolvePeers peers => SwarmGateway.resolvePeers (secondClient n) peers
  | .dialAndWait addresses => .ok (if secondRoute ∈ addresses then some secondPin else none)
  | .findNodes _ _ => .ok []
  | .isConnected _ => false
  | .utcNow => 0
  | .instantNow => 0
  | .sleep _ | .emit _ | .spawnDiscoverFor _ _ | .reply _ => ()

private theorem secondAnswer_answered {n : Nat} {α : Type} {m : M S α} :
    ∀ e ∈ (exec (secondAnswer n) m s).1, secondOnly.Answered (secondClient n) e := by
  intro e he
  obtain ⟨past, q, rfl⟩ := exec_answers he
  cases q with
  | resolvePeers peers => rfl
  | dialAndWait addresses =>
    by_cases hroute : secondRoute ∈ addresses
    · have hanswer :
          secondAnswer n past (.dialAndWait addresses) = .ok (some secondPin) := by simp [secondAnswer, hroute]
      rw [hanswer]
      exact ⟨secondRoute, hroute, by simp [secondOnly]⟩
    · have hanswer : secondAnswer n past (.dialAndWait addresses) = .ok none := by simp [secondAnswer, hroute]
      rw [hanswer]
      intro a ha
      have hne : a ≠ secondRoute := fun heq => hroute (heq ▸ ha)
      simp [secondOnly, hne]
  | isConnected p => rfl
  | _ => trivial

private theorem secondOnly_others (j : Nat) (q : PeerId) (hj : [(⟨[1]⟩ : PeerId), secondPin][j]? = some q)
    (hne : j ≠ 1) :
    ¬ secondOnly.Reachable q := by
  have hq : q ≠ secondPin := by
    match j, hj with
    | 0, hj =>
      cases hj
      decide
    | 1, _ => exact absurd rfl hne
    | j + 2, hj => cases hj
  rintro (hconnected | ⟨as, a, hroutes, -⟩)
  · cases hconnected
  · simp [secondOnly, hq] at hroutes

theorem pinned_reached_iff_second :
    let run := exec (secondAnswer 2) (pinnedPass [] 1080 ([⟨[1]⟩, secondPin].map bareEntry)) ()
    run.2.1 = some { peer := secondPin, source := .pinned 1 } ↔ 1 < (secondClient 2).maxResolvePeers :=
  pinned_reached_iff secondOnly (secondClient 2) (secondOnly_answers 2) 1080 [⟨[1]⟩, secondPin] 1 secondPin rfl
    ⟨[secondRoute], secondRoute, rfl, by simp, rfl⟩ secondOnly_others () _ _ _ secondAnswer_answered (exec_runs _ _ _)

/-- If one request may name one peer, the second pin is out of reach although it is online. -/
theorem second_pin_out_of_reach :
    ¬ ∀ (mesh : HubMesh) (client : QueryClient), 0 < client.maxResolvePeers → mesh.Answers client →
      ∀ (pinned : List PeerId) k p, pinned[k]? = some p →
      (∃ as a, mesh.routes p = some as ∧ a ∈ as ∧ mesh.connects a = some p) →
      (∀ j q, pinned[j]? = some q → j ≠ k → ¬ mesh.Reachable q) →
      ∀ (s : Unit) tr r s', (∀ e ∈ tr, mesh.Answered client e) →
        Runs (pinnedPass [] 1080 (pinned.map bareEntry)) s tr r s' → r = some { peer := p, source := .pinned k } := by
  intro h
  have hreached := h secondOnly (secondClient 1) Nat.one_pos (secondOnly_answers 1) [⟨[1]⟩, secondPin] 1 secondPin rfl
    ⟨[secondRoute], secondRoute, rfl, by simp, rfl⟩ secondOnly_others () _ _ _ secondAnswer_answered
    (exec_runs (secondAnswer 1) _ _)
  revert hreached
  decide

end P2Proxy
