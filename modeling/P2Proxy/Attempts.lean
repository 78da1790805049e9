import P2Proxy.ConnectRules

/-!
# The attempts of a connect

Whatever path it takes, a connect pursues the answers of the hub (`Pursuit`): each answer is followed at once by
attempts on the targets that it gives, in order and up to the first that is reached, and nothing else is dialled.  An
attempt dials the routes of one target: a pinned entry with the routes that the hub returned for it, a known peer with
its remembered address and the hub's routes, or all candidates of a discovery answer.  The remembered address is the one
that is stored when the connect begins; only a peer that a pool lists twice has lost it the second time.  So a connect
is a course of attempts, each with the last answer of the hub (`Course`).
-/

namespace P2Proxy

open Interaction

/-! ### Dial calls -/

/-- The set that is dialled, and the peer that the dialer says it has connected. -/
def Io.dialCall : Io → Option (Finset Multiaddr × Option PeerId)
  | ⟨.dialAndWait addresses, x⟩ => some (addresses, Io.dialled ⟨.dialAndWait addresses, x⟩)
  | _ => none

def dialCalls (tr : List Io) : List (Finset Multiaddr × Option PeerId) := tr.filterMap Io.dialCall

@[simp] theorem dialCalls_append (t₁ t₂ : List Io) : dialCalls (t₁ ++ t₂) = dialCalls t₁ ++ dialCalls t₂ :=
  List.filterMap_append

theorem dialCalls_eq_nil {tr : List Io} (h : ∀ e ∈ tr, e.isDial = false) : dialCalls tr = [] := by
  refine List.filterMap_eq_nil_iff.2 fun e he => ?_
  have hdial := h e he
  obtain ⟨q, x⟩ := e
  cases q with
  | dialAndWait addresses => cases hdial
  | _ => rfl

/-- The calls fail, up to the last one if a peer is found. -/
def StopsAt (calls : List (Finset Multiaddr × Option PeerId)) : Bool → Prop
  | true => ∃ failed addresses peer, calls = failed ++ [(addresses, some peer)] ∧ ∀ c ∈ failed, c.2 = none
  | false => ∀ c ∈ calls, c.2 = none

theorem StopsAt.append {l₁ l₂ : List (Finset Multiaddr × Option PeerId)} {found : Bool} (h₁ : StopsAt l₁ false)
    (h₂ : StopsAt l₂ found) : StopsAt (l₁ ++ l₂) found := by
  cases found with
  | false => exact fun c hc => (List.mem_append.1 hc).elim (h₁ c) (h₂ c)
  | true =>
    obtain ⟨failed, addresses, peer, rfl, hfailed⟩ := h₂
    refine ⟨l₁ ++ failed, addresses, peer, by simp, fun c hc => ?_⟩
    exact (List.mem_append.1 hc).elim (h₁ c) (hfailed c)

/-- After the first call that returns a peer there is no further call. -/
theorem StopsAt.last {l l₁ l₂ : List (Finset Multiaddr × Option PeerId)} {c : Finset Multiaddr × Option PeerId}
    {found : Bool} (h : StopsAt l found) (hl : l = l₁ ++ c :: l₂) (hc : c.2 ≠ none) : l₂ = [] := by
  cases found with
  | false => exact absurd (h c (by simp [hl])) hc
  | true =>
    obtain ⟨failed, addresses, peer, rfl, hfailed⟩ := h
    rcases List.eq_nil_or_concat l₂ with rfl | ⟨l₃, d, rfl⟩
    · rfl
    · have hlast : failed ++ [(addresses, some peer)] = (l₁ ++ c :: l₃) ++ [d] := by simpa using hl
      have hmem : c ∈ failed := by
        rw [(List.append_inj' hlast rfl).1]
        simp
      exact absurd (hfailed c hmem) hc

/-- The calls of one dial: what is left of the direct set and the circuits without empty sets, up to the first
success. -/
theorem DialRun.calls {R : Finset Multiaddr} {tr : List Io} {o : Option PeerId} (h : DialRun R tr o) :
    let direct := (partitionDirectFirst R).1
    let circuits := (partitionDirectFirst R).2
    (direct = ∅ ∧ circuits = ∅ ∧ dialCalls tr = [] ∧ o = none) ∨
    (direct = ∅ ∧ circuits ≠ ∅ ∧ dialCalls tr = [(circuits, o)]) ∨
    (direct ≠ ∅ ∧ dialCalls tr = [(direct, o)] ∧ (o ≠ none ∨ circuits = ∅)) ∨
    (direct ≠ ∅ ∧ circuits ≠ ∅ ∧ dialCalls tr = [(direct, none), (circuits, o)]) := by
  intro direct circuits
  have hset : ∀ {A : Finset Multiaddr} {t : List Io} {r : Option PeerId}, DialSetRun A t r →
      A = ∅ ∧ dialCalls t = [] ∧ r = none ∨ A ≠ ∅ ∧ dialCalls t = [(A, r)] := by
    rintro A t r (⟨hA, rfl, rfl⟩ | ⟨hA, x, rfl, rfl⟩)
    · exact .inl ⟨hA, rfl, rfl⟩
    · exact .inr ⟨hA, rfl⟩
  rcases h with ⟨ho, h⟩ | ⟨t₁, t₂, rfl, h₁, h₂⟩
  · rcases hset h with ⟨-, -, hnone⟩ | ⟨hdirect, hcalls⟩
    · exact absurd hnone ho
    · exact .inr (.inr (.inl ⟨hdirect, hcalls, .inl ho⟩))
  · rw [dialCalls_append]
    rcases hset h₁ with ⟨hdirect, hc₁, -⟩ | ⟨hdirect, hc₁⟩ <;>
      rcases hset h₂ with ⟨hcircuits, hc₂, hnone⟩ | ⟨hcircuits, hc₂⟩
    · exact .inl ⟨hdirect, hcircuits, by rw [hc₁, hc₂]; rfl, hnone⟩
    · exact .inr (.inl ⟨hdirect, hcircuits, by rw [hc₁, hc₂]; rfl⟩)
    · subst hnone
      exact .inr (.inr (.inl ⟨hdirect, by rw [hc₁, hc₂]; rfl, .inr hcircuits⟩))
    · exact .inr (.inr (.inr ⟨hdirect, hcircuits, by rw [hc₁, hc₂]; rfl⟩))

theorem DialRun.stopsAt {R : Finset Multiaddr} {tr : List Io} {o : Option PeerId} (h : DialRun R tr o) :
    StopsAt (dialCalls tr) o.isSome := by
  have hone : ∀ (A : Finset Multiaddr) (o : Option PeerId), StopsAt [(A, o)] o.isSome := by
    intro A o
    cases o with
    | none => simp [StopsAt]
    | some p => exact ⟨[], A, p, rfl, by simp⟩
  rcases h.calls with ⟨-, -, hcalls, rfl⟩ | ⟨-, -, hcalls⟩ | ⟨-, hcalls, -⟩ | ⟨-, -, hcalls⟩ <;> rw [hcalls]
  · exact fun c hc => absurd hc List.not_mem_nil
  · exact hone _ _
  · exact hone _ _
  · show StopsAt ([_] ++ [_]) _
    exact StopsAt.append (by simp [StopsAt]) (hone _ _)

/-- A dial that fails has dialled all its routes. -/
theorem DialRun.dialled_of_failed {R : Finset Multiaddr} {tr : List Io} {a : Multiaddr} (h : DialRun R tr none)
    (ha : a ∈ R) : ∃ call ∈ dialCalls tr, a ∈ call.1 := by
  have hpart : a ∈ (partitionDirectFirst R).1 ∨ a ∈ (partitionDirectFirst R).2 := by
    rw [← Finset.mem_union, partitionDirectFirst_union]
    exact ha
  rcases h.calls with ⟨hdirect, hcircuits, -⟩ | ⟨hdirect, -, hcalls⟩ | ⟨-, hcalls, hcircuits⟩ | ⟨-, -, hcalls⟩
  · simp [hdirect, hcircuits] at hpart
  · rw [hdirect] at hpart
    exact ⟨_, by rw [hcalls]; exact List.mem_singleton_self _, hpart.resolve_left (Finset.notMem_empty a)⟩
  · rw [hcircuits.resolve_left fun hsome => hsome rfl] at hpart
    exact ⟨_, by rw [hcalls]; exact List.mem_singleton_self _, hpart.resolve_right (Finset.notMem_empty a)⟩
  · rw [hcalls]
    rcases hpart with hpart | hpart
    · exact ⟨_, List.mem_cons_self .., hpart⟩
    · exact ⟨_, List.mem_cons_of_mem _ (List.mem_singleton_self _), hpart⟩

/-! ### Targets and attempts -/

/-- Whom an attempt is to reach, with the routes it was given. -/
inductive Target
  | pinned (entry : DestinationPeerEntry) (peers : List PeerId) (answer : Except DirectoryError Routes)
  | known (peer : PeerId) (remembered : Option Multiaddr) (answer : Except DirectoryError Routes)
  | discovered (candidates : List PoolPeer)

namespace Target

def routes (relayAddress : Multiaddr) : Target → Finset Multiaddr
  | .pinned entry peers answer => candidateRoutes entry (routesOf relayAddress peers answer)
  | .known peer remembered answer => reachRoutes relayAddress remembered (routesOf relayAddress [peer] answer) peer
  | .discovered candidates => candidateAddresses relayAddress candidates

def direct (relayAddress : Multiaddr) (t : Target) : Finset Multiaddr :=
  (partitionDirectFirst (t.routes relayAddress)).1

def circuits (relayAddress : Multiaddr) (t : Target) : Finset Multiaddr :=
  (partitionDirectFirst (t.routes relayAddress)).2

end Target

structure Attempt where
  target : Target
  trace : List Io
  outcome : Option PeerId

/-- A question to the hub. -/
def Io.asksHub : Io → Bool
  | ⟨.resolvePeers _, _⟩ | ⟨.findNodes _ _, _⟩ => true
  | _ => false

/-- The last question to the hub, with its answer. -/
def lastAnswer (past : List Io) : Option Io := past.reverse.find? Io.asksHub

theorem lastAnswer_append_singleton {past : List Io} {e : Io} (h : e.asksHub = true) :
    lastAnswer (past ++ [e]) = some e := by
  simp [lastAnswer, h]

theorem lastAnswer_append {past tr : List Io} (h : ∀ e ∈ tr, e.asksHub = false) :
    lastAnswer (past ++ tr) = lastAnswer past := by
  rw [lastAnswer, lastAnswer, List.reverse_append, List.find?_append, List.find?_eq_none.2, Option.none_or]
  intro e he
  simp [h e (List.mem_reverse.1 he)]

section Store

variable {S : Type} [StickyStore S] [LawfulStickyStore S] (relayAddress : Multiaddr) (server : Server) (s₀ : S)

/-- The address under which `peer` is tried is the one stored in `s₀`, unless the pool lists the peer repeatedly. -/
def Remembered (peer : PeerId) (remembered : Option Multiaddr) : Prop :=
  remembered = StickyStore.directAddress server.port peer s₀ ∨ remembered = none ∧ 1 < (exitPool server s₀).count peer

/-- What the target is made of: the last answer of the hub, and what was remembered at the beginning. -/
def Target.Current (past : List Io) : Target → Prop
  | .pinned entry peers answer => entry ∈ server.peerOptions.pinned ∧ peers = server.peerOptions.pinned.map (·.peerId) ∧
      lastAnswer past = some ⟨.resolvePeers peers, answer⟩
  | .known peer remembered answer => Remembered server s₀ peer remembered ∧
      lastAnswer past = some ⟨.resolvePeers [peer], answer⟩
  | .discovered candidates => lastAnswer past = some ⟨.findNodes server findNodesDiscoveryLimit, .ok candidates⟩

/-- Said `past`, the calls of `tr` make the attempts `as`, and dial nothing else. -/
inductive Course : List Io → List Io → List Attempt → Prop
  | nil (past : List Io) : Course past [] []
  | call {past e tr as} (hdial : Io.isDial e = false) (hrest : Course (past ++ [e]) tr as) : Course past (e :: tr) as
  | attempt {past target t o tr as} (htarget : Target.Current server s₀ past target)
      (hdial : DialRun (target.routes relayAddress) t o) (hrest : Course (past ++ t) tr as) :
      Course past (t ++ tr) (⟨target, t, o⟩ :: as)

/-- An answer of the hub, and the targets that it gives. -/
inductive Gives : Io → List Target → Prop
  | pinned (answer : Except DirectoryError Routes) :
      Gives ⟨.resolvePeers (server.peerOptions.pinned.map (·.peerId)), answer⟩
        (server.peerOptions.pinned.map fun entry => .pinned entry (server.peerOptions.pinned.map (·.peerId)) answer)
  | known {peer remembered} (answer : Except DirectoryError Routes) (h : Remembered server s₀ peer remembered) :
      Gives ⟨.resolvePeers [peer], answer⟩ [.known peer remembered answer]
  | discovered (candidates : List PoolPeer) :
      Gives ⟨.findNodes server findNodesDiscoveryLimit, .ok candidates⟩ [.discovered candidates]
  | refused (e : DirectoryError) : Gives ⟨.findNodes server findNodesDiscoveryLimit, .error e⟩ []

/-- The targets are tried in order, up to the first that is reached. -/
inductive Tries : List Target → List Io → List Attempt → Option PeerId → Prop
  | nil : Tries [] [] [] none
  | failed {target targets t tr as o} (hdial : DialRun (target.routes relayAddress) t none)
      (hrest : Tries targets tr as o) : Tries (target :: targets) (t ++ tr) (⟨target, t, none⟩ :: as) o
  | reached {target targets t peer} (hdial : DialRun (target.routes relayAddress) t (some peer)) :
      Tries (target :: targets) t [⟨target, t, some peer⟩] (some peer)

/-- The call neither dials nor asks the hub. -/
def Io.Quiet (e : Io) : Prop := e.isDial = false ∧ e.asksHub = false

/-- The attempts `as` on the targets that the answers of the hub give; each answer is pursued at once, and nothing else
is dialled. -/
inductive Pursuit : List Io → List Attempt → Prop
  | nil : Pursuit [] []
  | call {e tr as} (he : Io.Quiet e) (hrest : Pursuit tr as) : Pursuit (e :: tr) as
  | answer {e targets notes tried as₁ o tr as₂} (hgives : Gives server s₀ e targets) (hnotes : ∀ n ∈ notes, Io.Quiet n)
      (htries : Tries relayAddress targets tried as₁ o) (hrest : Pursuit tr as₂) :
      Pursuit (e :: (notes ++ (tried ++ tr))) (as₁ ++ as₂)

end Store

variable {S : Type} [StickyStore S] [LawfulStickyStore S] {relayAddress : Multiaddr} {server : Server} {s₀ s s' : S}
  {past tr t₁ t₂ notes tried : List Io} {as as₁ as₂ : List Attempt} {found : Bool} {peer : PeerId} {o : Option PeerId}
  {e : Io} {target : Target} {targets : List Target}

namespace Course

/-- All dial calls are made in attempts. -/
theorem dialCalls_eq (h : Course relayAddress server s₀ past tr as) :
    dialCalls tr = as.flatMap fun t => dialCalls t.trace := by
  induction h with
  | nil => rfl
  | call hdial _ ih =>
    rw [← ih]
    show dialCalls ([_] ++ _) = _
    rw [dialCalls_append, dialCalls_eq_nil fun e he => List.mem_singleton.1 he ▸ hdial, List.nil_append]
  | attempt _ _ _ ih => rw [dialCalls_append, ih, List.flatMap_cons]

/-- Every attempt dials the routes of its target. -/
theorem dialRun (h : Course relayAddress server s₀ past tr as) :
    ∀ t ∈ as, DialRun (t.target.routes relayAddress) t.trace t.outcome := by
  induction h with
  | nil => exact fun t ht => absurd ht List.not_mem_nil
  | call _ _ ih => exact ih
  | attempt _ hdial _ ih => exact List.forall_mem_cons.2 ⟨hdial, ih⟩

/-- Calls that dial nobody come first. -/
theorem after_quiet (hquiet : ∀ e ∈ t₁, Io.isDial e = false) (h : Course relayAddress server s₀ (past ++ t₁) t₂ as) :
    Course relayAddress server s₀ past (t₁ ++ t₂) as := by
  induction t₁ generalizing past with
  | nil => simpa using h
  | cons e t₁ ih =>
    obtain ⟨he, ht₁⟩ := List.forall_mem_cons.1 hquiet
    exact .call he (ih ht₁ (by simpa using h))

end Course

/-! ### Trying targets -/

theorem DialRun.asksNobody {R : Finset Multiaddr} (h : DialRun R tr o) : ∀ e ∈ tr, e.asksHub = false := by
  intro e he
  obtain ⟨A, x, rfl, -⟩ := h.dials he
  rfl

namespace Tries

theorem one (hdial : DialRun (target.routes relayAddress) tr o) :
    Tries relayAddress [target] tr [⟨target, tr, o⟩] o := by
  cases o with
  | none =>
    have htries : Tries relayAddress [target] (tr ++ []) [⟨target, tr, none⟩] none := .failed hdial .nil
    rwa [List.append_nil] at htries
  | some peer => exact .reached hdial

theorem stopsAt (h : Tries relayAddress targets tr as o) : StopsAt (dialCalls tr) o.isSome := by
  induction h with
  | nil => exact fun c hc => absurd hc List.not_mem_nil
  | failed hdial _ ih =>
    rw [dialCalls_append]
    exact hdial.stopsAt.append ih
  | reached hdial => exact hdial.stopsAt

theorem asksNobody (h : Tries relayAddress targets tr as o) : ∀ e ∈ tr, e.asksHub = false := by
  induction h with
  | nil => exact fun _ he => absurd he List.not_mem_nil
  | failed hdial _ ih => exact fun e he => (List.mem_append.1 he).elim (hdial.asksNobody e) (ih e)
  | reached hdial => exact hdial.asksNobody

/-- Tried targets are the next attempts of a course, if they are made of the last answer. -/
theorem course (h : Tries relayAddress targets t₁ as₁ o)
    (htargets : ∀ past, lastAnswer past = some e → ∀ t ∈ targets, t.Current server s₀ past)
    (hlast : lastAnswer past = some e) (hrest : Course relayAddress server s₀ (past ++ t₁) t₂ as₂) :
    Course relayAddress server s₀ past (t₁ ++ t₂) (as₁ ++ as₂) := by
  induction h generalizing past with
  | nil => simpa using hrest
  | failed hdial _ ih =>
    rw [List.append_assoc]
    refine .attempt (htargets past hlast _ (List.mem_cons_self ..)) hdial
      (ih (fun past h t ht => ?_) ?_ (by simpa using hrest))
    · exact htargets past h t (List.mem_cons_of_mem _ ht)
    · rw [lastAnswer_append hdial.asksNobody, hlast]
  | reached hdial => exact .attempt (htargets past hlast _ (List.mem_cons_self ..)) hdial hrest

end Tries

theorem Gives.current (h : Gives server s₀ e targets) (hlast : lastAnswer past = some e) :
    ∀ t ∈ targets, t.Current server s₀ past := by
  intro t ht
  cases h with
  | pinned answer =>
    obtain ⟨entry, hentry, rfl⟩ := List.mem_map.1 ht
    exact ⟨hentry, rfl, hlast⟩
  | known answer hremembered =>
    obtain rfl := List.mem_singleton.1 ht
    exact ⟨hremembered, hlast⟩
  | discovered candidates =>
    obtain rfl := List.mem_singleton.1 ht
    exact hlast
  | refused => cases ht

theorem Gives.asksHub (h : Gives server s₀ e targets) : e.asksHub = true ∧ e.isDial = false := by
  cases h <;> exact ⟨rfl, rfl⟩

namespace Pursuit

theorem append (h₁ : Pursuit relayAddress server s₀ t₁ as₁) (h₂ : Pursuit relayAddress server s₀ t₂ as₂) :
    Pursuit relayAddress server s₀ (t₁ ++ t₂) (as₁ ++ as₂) := by
  induction h₁ with
  | nil => exact h₂
  | call he _ ih => exact .call he ih
  | answer hgives hnotes htries _ ih =>
    simpa only [List.cons_append, List.append_assoc] using Pursuit.answer hgives hnotes htries ih

theorem quiet (h : ∀ e ∈ tr, Io.Quiet e) : Pursuit relayAddress server s₀ tr [] := by
  induction tr with
  | nil => exact .nil
  | cons e tr ih =>
    obtain ⟨he, htr⟩ := List.forall_mem_cons.1 h
    exact .call he (ih htr)

/-- A trace that pursues the hub's answers is a course of attempts. -/
theorem course (h : Pursuit relayAddress server s₀ tr as) (past : List Io) :
    Course relayAddress server s₀ past tr as := by
  induction h generalizing past with
  | nil => exact .nil past
  | call he _ ih => exact .call he.1 (ih _)
  | @answer e targets notes tried as₁ o tr as₂ hgives hnotes htries _ ih =>
    have hasked : lastAnswer (past ++ [e] ++ notes) = some e := by
      rw [lastAnswer_append fun n hn => (hnotes n hn).2]
      exact lastAnswer_append_singleton hgives.asksHub.1
    refine .call hgives.asksHub.2 (Course.after_quiet (fun n hn => (hnotes n hn).1) ?_)
    exact htries.course (fun past hpast => hgives.current hpast) hasked (ih _)

end Pursuit

/-! ### Every connect is a pursuit -/

/-- The answers of the hub are pursued until a peer is found. -/
def Settles (relayAddress : Multiaddr) (server : Server) (s₀ : S) (tr : List Io) (found : Bool) : Prop :=
  ∃ as, Pursuit relayAddress server s₀ tr as ∧ StopsAt (dialCalls tr) found

namespace Settles

theorem nil : Settles relayAddress server s₀ [] false := ⟨[], .nil, fun _ hc => absurd hc List.not_mem_nil⟩

theorem append (h₁ : Settles relayAddress server s₀ t₁ false) (h₂ : Settles relayAddress server s₀ t₂ found) :
    Settles relayAddress server s₀ (t₁ ++ t₂) found := by
  obtain ⟨as₁, hp₁, hs₁⟩ := h₁
  obtain ⟨as₂, hp₂, hs₂⟩ := h₂
  exact ⟨as₁ ++ as₂, hp₁.append hp₂, dialCalls_append t₁ t₂ ▸ hs₁.append hs₂⟩

/-- Calls that neither dial nor ask the hub may follow. -/
theorem quiet_right (h : Settles relayAddress server s₀ t₁ found) (hquiet : ∀ e ∈ t₂, Io.Quiet e) :
    Settles relayAddress server s₀ (t₁ ++ t₂) found := by
  obtain ⟨as, hp, hs⟩ := h
  refine ⟨as ++ [], hp.append (.quiet hquiet), ?_⟩
  rw [dialCalls_append, dialCalls_eq_nil fun e he => (hquiet e he).1, List.append_nil]
  exact hs

theorem quiet (h : ∀ e ∈ tr, Io.Quiet e) : Settles relayAddress server s₀ tr false := nil.quiet_right h

/-- An answer of the hub is pursued. -/
theorem answer (hgives : Gives server s₀ e targets) (hnotes : ∀ n ∈ notes, Io.Quiet n)
    (htries : Tries relayAddress targets tried as o) :
    Settles relayAddress server s₀ (e :: (notes ++ tried)) o.isSome := by
  refine ⟨as ++ [], ?_, ?_⟩
  · have hpursuit := Pursuit.answer hgives hnotes htries .nil
    rwa [List.append_nil] at hpursuit
  · have hquiet : dialCalls (e :: notes) = [] := by
      refine dialCalls_eq_nil (List.forall_mem_cons.2 ⟨hgives.asksHub.2, fun n hn => (hnotes n hn).1⟩)
    rw [← List.cons_append, dialCalls_append, hquiet]
    exact htries.stopsAt

/-- Repeated rounds settle when a round does; a round may end the search without having found anybody. -/
theorem attempts {β : Type} {m : M S (Option β)} (found : Option β → Bool) {I : S → Prop} (hnone : found none = false)
    (hm : ∀ s tr r s', I s → Runs m s tr r s' → Settles relayAddress server s₀ tr (found r) ∧ (r = none → I s'))
    {n : Nat} {r : Option β} (hs : I s) (h : Runs (attempts m n) s tr r s') :
    Settles relayAddress server s₀ tr (found r) := by
  induction n generalizing s tr with
  | zero =>
    obtain ⟨rfl, rfl, rfl⟩ := runs_attempts_zero.1 h
    rw [hnone]
    exact .nil
  | succ n ih =>
    rcases runs_attempts_succ.1 h with ⟨b, rfl, hb⟩ | ⟨t₁, s₁, t₂, rfl, h₁, h₂⟩
    · exact (hm _ _ _ _ hs hb).1
    · obtain ⟨hround, hs₁⟩ := hm _ _ _ _ hs h₁
      rw [hnone] at hround
      exact hround.append (ih (hs₁ rfl) h₂)

end Settles

theorem reachRun_settles {remembered : Option Multiaddr} {r : Option PeerId}
    (hpeer : Remembered server s₀ peer remembered) (h : ReachRun relayAddress remembered peer tr r) :
    Settles relayAddress server s₀ tr r.isSome := by
  obtain ⟨ans, dials, rfl, hd⟩ := h
  have htries : Tries relayAddress [.known peer remembered ans] dials [⟨.known peer remembered ans, dials, r⟩] r :=
    .one hd
  exact Settles.answer (.known ans hpeer) (fun n hn => absurd hn List.not_mem_nil) htries

theorem reconnectLoop_settles {n : Nat} {b : Backoff} {r : Option PeerId}
    (h : Runs (reconnectLoop relayAddress server peer n b : M S _) s₀ tr r s') :
    s' = s₀ ∧ Settles relayAddress server s₀ tr r.isSome := by
  induction n generalizing b tr with
  | zero =>
    obtain ⟨rfl, rfl, rfl⟩ := runs_pure.1 h
    exact ⟨rfl, .nil⟩
  | succ n ih =>
    obtain ⟨t₁, o, s₁, t₂, rfl, h₁, h₂⟩ := runs_bind.1 h
    obtain ⟨rfl, hr⟩ := runs_tryReachPeer.1 h₁
    have hone := reachRun_settles (.inl rfl) hr
    cases o with
    | some p =>
      obtain ⟨rfl, rfl, rfl⟩ := runs_pure.1 h₂
      exact ⟨rfl, hone.quiet_right fun _ he => absurd he List.not_mem_nil⟩
    | none =>
      dsimp only at h₂
      split at h₂
      · obtain ⟨t₃, _, _, t₄, rfl, h₃, h₄⟩ := runs_bind.1 h₂
        obtain ⟨rfl, rfl⟩ := runs_sleep.1 h₃
        obtain ⟨rfl, hrest⟩ := ih h₄
        refine ⟨rfl, hone.append (Settles.append (.quiet ?_) hrest)⟩
        exact fun e he => List.mem_singleton.1 he ▸ ⟨rfl, rfl⟩
      · obtain ⟨rfl, rfl, rfl⟩ := runs_pure.1 h₂
        exact ⟨rfl, hone.quiet_right fun _ he => absurd he List.not_mem_nil⟩

/-! ### The pool pre-pass -/

/-- Forgetting a peer loses its address, and no other one. -/
theorem directAddress_forgetPeer {q : PeerId} : StickyStore.directAddress server.port q
    (StickyStore.forgetPeer server.port peer s) =
      if q = peer then none else StickyStore.directAddress server.port q s := by
  simp only [LawfulStickyStore.directAddress_eq, LawfulStickyStore.view_forgetPeer]
  unfold StickyState.directAddress StickyState.forgetPeer
  cases h : (view s).pools server.port with
  | none => simp [h]
  | some pool =>
    have hfind : (pool.peers.filter fun p => p.peerId ≠ peer).find? (fun p => p.peerId = q) =
        if q = peer then none else pool.peers.find? fun p => p.peerId = q := by
      rw [List.find?_filter]
      by_cases hq : q = peer
      · rw [if_pos hq]
        refine List.find?_eq_none.2 fun p _ => ?_
        simp [hq]
      · rw [if_neg hq]
        congr 1
        funext p
        by_cases hp : p.peerId = q <;> simp [hp, hq]
    simp only [Function.update_self]
    by_cases hempty : (pool.peers.filter fun p => decide (p.peerId ≠ peer)).isEmpty = true
    · rw [List.isEmpty_iff.1 hempty] at hfind
      rw [if_pos hempty]
      by_cases hq : q = peer
      · simp [hq]
      · rw [if_neg hq, List.find?_nil] at hfind
        simp [hq, ← hfind]
    · rw [if_neg hempty]
      simp only [Option.bind_eq_bind, Option.bind_some, hfind]
      split <;> rfl

/-- The members of the pool are tried under their stored addresses; one that is listed again has lost its address. -/
private theorem poolLoop_settles {skip r : Option PeerId} {pre l : List PeerId}
    (hpre : ∀ p ∈ pre, StickyStore.directAddress server.port p s = none)
    (hrest : ∀ p ∉ pre, some p ≠ skip →
      StickyStore.directAddress server.port p s = StickyStore.directAddress server.port p s₀)
    (hsub : (pre ++ l).Sublist (exitPool server s₀))
    (h : Runs (l.findSomeM? (tryPoolMember relayAddress server skip) : M S _) s tr r s') :
    Settles relayAddress server s₀ tr r.isSome := by
  induction l generalizing pre s tr with
  | nil =>
    obtain ⟨rfl, rfl, rfl⟩ := runs_findSomeM?_nil.1 h
    exact .nil
  | cons p l ih =>
    have hmember : ∀ {t o}, some p ≠ skip → ReachRun relayAddress (StickyStore.directAddress server.port p s) p t o →
        Settles relayAddress server s₀ t o.isSome := by
      intro t o hskip hr
      refine reachRun_settles ?_ hr
      by_cases hp : p ∈ pre
      · refine .inr ⟨hpre p hp, ?_⟩
        -- it stands in the pool twice
        have hcount := hsub.count_le p
        have hone := List.count_pos_iff.2 hp
        rw [List.count_append, List.count_cons_self] at hcount
        omega
      · exact .inl (hrest p hp hskip)
    rcases runs_findSomeM?_cons.1 h with ⟨q, rfl, hq⟩ | ⟨t₁, s₁, t₂, rfl, h₁, h₂⟩
    · rcases runs_tryPoolMember.1 hq with ⟨-, -, hnone, -⟩ | ⟨hskip, hr, -⟩
      · cases hnone
      · exact hmember hskip hr
    · rcases runs_tryPoolMember.1 h₁ with ⟨-, rfl, -, rfl⟩ | ⟨hskip, hr, rfl⟩
      · rw [List.nil_append]
        exact ih hpre hrest (List.Sublist.trans ((List.sublist_cons_self p l).append_left pre) hsub) h₂
      · have hsub' : (pre ++ [p] ++ l).Sublist (exitPool server s₀) := by simpa using hsub
        refine (hmember hskip hr).append (ih ?_ ?_ hsub' h₂)
        · intro q hq
          rw [if_pos rfl, directAddress_forgetPeer]
          split
          · rfl
          · rename_i hne
            exact hpre q ((List.mem_append.1 hq).resolve_right fun hq => hne (List.mem_singleton.1 hq))
        · intro q hq hskipq
          have hne : q ≠ p := fun heq => hq (by simp [heq])
          rw [if_pos rfl, directAddress_forgetPeer, if_neg hne]
          exact hrest q (fun hq' => hq (List.mem_append_left _ hq')) hskipq

theorem connectStickyPool_settles {skip r : Option PeerId}
    (hrest : ∀ p, some p ≠ skip →
      StickyStore.directAddress server.port p s = StickyStore.directAddress server.port p s₀)
    (hsub : (exitPool server s).Sublist (exitPool server s₀))
    (h : Runs (connectStickyPool relayAddress server server.fingerprint skip : M S _) s tr r s') :
    Settles relayAddress server s₀ tr r.isSome := by
  unfold connectStickyPool at h
  split at h
  · obtain ⟨t₁, peers, s₁, t₂, rfl, h₁, h₂⟩ := runs_bind.1 h
    obtain ⟨rfl, rfl, rfl⟩ := runs_modifyGet.1 h₁
    rw [pool_fst_eq_exitPool] at h₂
    by_cases hempty : exitPool server s = []
    · rw [hempty] at h₂
      obtain ⟨rfl, rfl, -⟩ := runs_findSomeM?_nil.1 h₂
      exact .nil
    · have hsub' : ([] ++ exitPool server s).Sublist (exitPool server s₀) := hsub
      refine poolLoop_settles (fun p hp => absurd hp List.not_mem_nil) ?_ hsub' h₂
      intro p _ hskip
      rw [directAddress_pool _ _ hempty]
      exact hrest p hskip
  · obtain ⟨rfl, rfl, rfl⟩ := runs_pure.1 h
    exact .nil

/-! ### Discovery -/

omit [LawfulStickyStore S] in
theorem remember_quiet {u : Unit} (h : Runs (remember server server.fingerprint peer : M S Unit) s tr u s') :
    ∀ e ∈ tr, Io.Quiet e := by
  rcases runs_remember.1 h with ⟨-, now, rfl, -⟩ | ⟨-, rfl, -⟩
  · exact fun e he => List.mem_singleton.1 he ▸ ⟨rfl, rfl⟩
  · exact fun e he => absurd he List.not_mem_nil

/-- What the hub offers is pursued: all candidates are dialled at once. -/
theorem discoveryAttempt_settles {r : Option ConnectedDestination}
    (h : Runs (discoveryAttempt relayAddress server server.fingerprint : M S _) s tr r s') :
    Settles relayAddress server s₀ tr r.isSome := by
  rcases runs_discoveryAttempt.1 h with ⟨e, rfl, rfl, rfl⟩ | ⟨rfl, rfl, rfl⟩ | ⟨cs, o, t₁, t₂, -, rfl, hd, rfl, hr⟩
  · have hslept : ∀ n ∈ [(⟨.sleep (.fromSecs 1), ()⟩ : Io)], Io.Quiet n :=
      fun n hn => List.mem_singleton.1 hn ▸ ⟨rfl, rfl⟩
    exact Settles.answer (.refused e) hslept .nil
  · have hnobody : DialRun ((Target.discovered []).routes relayAddress) [] none := dialRun_empty
    have htold : ∀ n ∈ [(⟨.emit (.serverPool server.port []), ()⟩ : Io), ⟨.sleep (.fromSecs 1), ()⟩], Io.Quiet n := by
      simp [Io.Quiet, Io.isDial, Io.asksHub]
    exact Settles.answer (.discovered []) htold (.one hnobody)
  · have htold : ∀ n ∈ [(⟨.emit (.serverPool server.port cs), ()⟩ : Io)], Io.Quiet n :=
      fun n hn => List.mem_singleton.1 hn ▸ ⟨rfl, rfl⟩
    have hdials : Settles relayAddress server s₀ (⟨.findNodes server findNodesDiscoveryLimit, .ok cs⟩ ::
        ([⟨.emit (.serverPool server.port cs), ()⟩] ++ t₁)) o.isSome :=
      Settles.answer (.discovered cs) htold (.one hd)
    have hquiet : ∀ e ∈ t₂, Io.Quiet e := by
      cases o with
      | none =>
        obtain ⟨rfl, -⟩ := hr
        exact fun e he => absurd he List.not_mem_nil
      | some p => exact remember_quiet hr
    have hall := hdials.quiet_right hquiet
    cases o <;> exact hall

theorem connectPoolOrDiscover_settles {avoid : Option PeerId} {r : Except ConnectError ConnectedDestination}
    (hrest : ∀ p, some p ≠ avoid →
      StickyStore.directAddress server.port p s = StickyStore.directAddress server.port p s₀)
    (hsub : (exitPool server s).Sublist (exitPool server s₀))
    (h : Runs (connectPoolOrDiscover relayAddress server server.fingerprint avoid : M S _) s tr r s') :
    Settles relayAddress server s₀ tr (resultPeer r).isSome := by
  obtain ⟨t₁, o, s₁, t₂, rfl, h₁, h₂⟩ := runs_bind.1 h
  have hpool := connectStickyPool_settles hrest hsub h₁
  cases o with
  | some p =>
    obtain ⟨t₃, _, _, _, rfl, h₃, h₄⟩ := runs_bind.1 h₂
    obtain ⟨rfl, rfl, -⟩ := runs_pure.1 h₄
    rw [List.append_nil]
    exact hpool.quiet_right (remember_quiet h₃)
  | none =>
    refine hpool.append ?_
    obtain ⟨t₃, o, s₂, t₄, rfl, h₃, h₄⟩ := runs_bind.1 h₂
    have hsearch : Settles relayAddress server s₀ t₃ o.isSome :=
      Settles.attempts Option.isSome (I := fun _ => True) rfl
        (fun _ _ _ _ _ h => ⟨discoveryAttempt_settles h, fun _ => trivial⟩) trivial h₃
    cases o with
    | some d =>
      obtain ⟨rfl, rfl, -⟩ := runs_pure.1 h₄
      exact hsearch.quiet_right fun _ he => absurd he List.not_mem_nil
    | none =>
      obtain ⟨_, _, _, _, rfl, h₅, h₆⟩ := runs_bind.1 h₄
      obtain ⟨rfl, rfl⟩ := runs_emit.1 h₅
      obtain ⟨rfl, rfl, -⟩ := runs_pure.1 h₆
      exact hsearch.quiet_right (by simp [Io.Quiet, Io.isDial, Io.asksHub])

theorem connectDiscovered_settles {avoid : Option PeerId} {r : Except ConnectError ConnectedDestination}
    (h : Runs (connectDiscovered relayAddress server avoid : M S _) s₀ tr r s') :
    Settles relayAddress server s₀ tr (resultPeer r).isSome := by
  unfold connectDiscovered at h
  split at h
  · rename_i old hold
    obtain rfl : avoid = some old := (Option.filter_eq_some_iff.1 hold).1
    obtain ⟨t₁, o, s₁, t₂, rfl, h₁, h₂⟩ := runs_bind.1 h
    obtain ⟨rfl, hreconnect⟩ := reconnectLoop_settles h₁
    cases o with
    | some p =>
      obtain ⟨t₃, _, _, _, rfl, h₃, h₄⟩ := runs_bind.1 h₂
      obtain ⟨rfl, rfl, -⟩ := runs_pure.1 h₄
      rw [List.append_nil]
      exact hreconnect.quiet_right (remember_quiet h₃)
    | none =>
      obtain ⟨_, _, _, t₃, rfl, h₃, h₄⟩ := runs_bind.1 h₂
      obtain ⟨rfl, rfl⟩ := runs_modify.1 h₃
      refine hreconnect.append (connectPoolOrDiscover_settles (fun p hp => ?_) ?_ h₄)
      · rw [directAddress_forgetPeer, if_neg fun heq => hp (congrArg some heq)]
      · rw [exitPool_forgetPeer]
        exact List.filter_sublist
  · exact connectPoolOrDiscover_settles (fun _ _ => rfl) (List.Sublist.refl _) h

/-! ### Pinned entries -/

omit [StickyStore S] [LawfulStickyStore S] in
private theorem adoptBestPinnedRank_quiet {pinned : List DestinationPeerEntry} {rank : Nat} {best : Nat × PeerId}
    (h : Runs (adoptBestPinnedRank pinned rank peer : M S _) s tr best s') : s' = s ∧ ∀ e ∈ tr, Io.Quiet e := by
  have hlaw : Law fun (s : S) (tr : List Io) s' => s' = s ∧ ∀ e ∈ tr, Io.Quiet e :=
    ⟨fun _ => ⟨rfl, fun _ he => absurd he List.not_mem_nil⟩,
      fun h₁ h₂ => ⟨h₂.1.trans h₁.1, fun e he => (List.mem_append.1 he).elim (h₁.2 e) (h₂.2 e)⟩⟩
  refine Obeys.bind hlaw (Obeys.findSomeM? hlaw _ fun e _ => ?_) (fun _ => Obeys.pure hlaw _) _ _ _ _ h
  refine Obeys.bind hlaw (Obeys.ask fun s x => ⟨rfl, fun e he => List.mem_singleton.1 he ▸ ⟨rfl, rfl⟩⟩) fun b => ?_
  split <;> exact Obeys.pure hlaw _

omit [StickyStore S] [LawfulStickyStore S] in
/-- The entries of a pass are tried in order, and then the better ones are checked. -/
private theorem dialEntries_tries {peers : List PeerId} {pinned : List DestinationPeerEntry}
    {answer : Except DirectoryError Routes} {es : List (DestinationPeerEntry × Nat)} {r : Option ConnectedDestination}
    (h : Runs (es.findSomeM? (dialPinned pinned (routesOf relayAddress peers answer)) : M S _) s tr r s') :
    s' = s ∧ ∃ tried checks as o, tr = tried ++ checks ∧ (∀ e ∈ checks, Io.Quiet e) ∧ o.isSome = r.isSome ∧
      Tries relayAddress (es.map fun e => .pinned e.1 peers answer) tried as o := by
  induction es generalizing s tr with
  | nil =>
    obtain ⟨rfl, rfl, rfl⟩ := runs_findSomeM?_nil.1 h
    exact ⟨rfl, [], [], [], none, rfl, fun _ he => absurd he List.not_mem_nil, rfl, .nil⟩
  | cons e es ih =>
    have hentry : ∀ {t d s''}, Runs (dialPinned pinned (routesOf relayAddress peers answer) e : M S _) s t d s'' →
        s'' = s ∧ ∃ dials checks o, t = dials ++ checks ∧ (∀ e ∈ checks, Io.Quiet e) ∧ o.isSome = d.isSome ∧
          (d = none → checks = []) ∧ DialRun ((Target.pinned e.1 peers answer).routes relayAddress) dials o := by
      intro t d s'' hr
      unfold dialPinned at hr
      split at hr
      · rename_i hroutes
        obtain ⟨rfl, rfl, rfl⟩ := runs_pure.1 hr
        have hnone : (Target.pinned e.1 peers answer).routes relayAddress = ∅ := hroutes
        exact ⟨rfl, [], [], none, rfl, fun _ he => absurd he List.not_mem_nil, rfl, fun _ => rfl, hnone ▸ dialRun_empty⟩
      · obtain ⟨t₁, o, s₂, t₂, rfl, h₁, h₂⟩ := runs_bind.1 hr
        obtain ⟨rfl, hd⟩ := runs_dial.1 h₁
        cases o with
        | none =>
          obtain ⟨rfl, rfl, rfl⟩ := runs_pure.1 h₂
          exact ⟨rfl, t₁, [], none, rfl, fun _ he => absurd he List.not_mem_nil, rfl, fun _ => rfl, hd⟩
        | some p =>
          -- the entries before it are checked, not dialled
          obtain ⟨t₃, best, s₃, _, rfl, h₃, h₄⟩ := runs_bind.1 h₂
          obtain ⟨rfl, rfl, rfl⟩ := runs_pure.1 h₄
          obtain ⟨rfl, hcheck⟩ := adoptBestPinnedRank_quiet h₃
          exact ⟨rfl, t₁, t₃, some p, by simp, hcheck, rfl, by simp, hd⟩
    rcases runs_findSomeM?_cons.1 h with ⟨d, rfl, hd⟩ | ⟨t₁, s₁, t₂, rfl, h₁, h₂⟩
    · obtain ⟨rfl, dials, checks, o, rfl, hchecks, ho, -, hdial⟩ := hentry hd
      obtain ⟨p, rfl⟩ := Option.isSome_iff_exists.1 ho
      exact ⟨rfl, dials, checks, _, some p, rfl, hchecks, rfl, .reached hdial⟩
    · obtain ⟨rfl, dials, checks, o, rfl, -, ho, hnone, hdial⟩ := hentry h₁
      obtain rfl : o = none := by simpa using ho
      obtain rfl := hnone rfl
      obtain ⟨rfl, tried, checks, as, o, rfl, hchecks, ho, htries⟩ := ih h₂
      exact ⟨rfl, dials ++ tried, checks, _, o, by simp, hchecks, ho, .failed hdial htries⟩

theorem pinnedPass_settles {r : Option ConnectedDestination}
    (h : Runs (pinnedPass relayAddress server.port server.peerOptions.pinned : M S _) s tr r s') :
    s' = s ∧ Settles relayAddress server s₀ tr r.isSome := by
  obtain ⟨t₁, resolved, s₁, t₂, rfl, h₁, h₂⟩ := runs_bind.1 h
  obtain ⟨ans, rfl, rfl, rfl⟩ := runs_resolveRoutes.1 h₁
  obtain ⟨t₃, _, s₂, t₄, rfl, h₃, h₄⟩ := runs_bind.1 h₂
  obtain ⟨rfl, rfl⟩ := runs_emit.1 h₃
  obtain ⟨rfl, tried, checks, as, o, rfl, hchecks, ho, htries⟩ := dialEntries_tries h₄
  have hentries (f : DestinationPeerEntry → Target) :
      (server.peerOptions.pinned.zipIdx.map fun e => f e.1) = server.peerOptions.pinned.map f := by
    calc _ = (server.peerOptions.pinned.zipIdx.map Prod.fst).map f := by rw [List.map_map]; rfl
      _ = _ := by rw [List.zipIdx_map_fst]
  rw [hentries fun entry => .pinned entry (server.peerOptions.pinned.map (·.peerId)) ans] at htries
  have htold : ∀ n ∈ [(⟨.emit (.pinnedPeerStatuses server.port (pinnedStatuses server.peerOptions.pinned
      (routesOf relayAddress (server.peerOptions.pinned.map (·.peerId)) ans))), ()⟩ : Io)], Io.Quiet n :=
    fun n hn => List.mem_singleton.1 hn ▸ ⟨rfl, rfl⟩
  rw [← ho]
  exact ⟨rfl, (Settles.answer (.pinned ans) htold htries).quiet_right hchecks⟩

/-- A round is a pass, and a discovery if the server falls back to it. -/
private theorem pinnedRound_settles {r : Option (Except ConnectError ConnectedDestination)} (hs : s = s₀)
    (h : Runs (pinnedRound relayAddress server server.peerOptions.pinned : M S _) s tr r s') :
    Settles relayAddress server s₀ tr (r.bind resultPeer).isSome ∧ (r = none → s' = s₀) := by
  subst hs
  obtain ⟨t₁, o, s₁, t₂, rfl, h₁, h₂⟩ := runs_bind.1 h
  obtain ⟨rfl, hpass⟩ : s₁ = s ∧ Settles relayAddress server s t₁ o.isSome := pinnedPass_settles h₁
  cases o with
  | some d =>
    obtain ⟨rfl, rfl, rfl⟩ := runs_pure.1 h₂
    rw [List.append_nil]
    exact ⟨hpass, fun _ => rfl⟩
  | none =>
    dsimp only at h₂
    split at h₂
    · obtain ⟨t₃, result, s₂, _, rfl, h₃, h₄⟩ := runs_bind.1 h₂
      obtain ⟨rfl, rfl, rfl⟩ := runs_pure.1 h₄
      rw [List.append_nil]
      exact ⟨hpass.append (connectDiscovered_settles h₃), by simp⟩
    · obtain ⟨_, _, _, _, rfl, h₃, h₄⟩ := runs_bind.1 h₂
      obtain ⟨rfl, rfl⟩ := runs_sleep.1 h₃
      obtain ⟨rfl, rfl, rfl⟩ := runs_pure.1 h₄
      exact ⟨hpass.append (.quiet (by simp [Io.Quiet, Io.isDial, Io.asksHub])), fun _ => rfl⟩

/-- Every run of `connect` pursues the answers of the hub until an exit is found. -/
theorem connect_settles {avoid : Option PeerId} {r : Except ConnectError ConnectedDestination}
    (h : Runs (connect relayAddress server avoid : M S _) s tr r s') :
    Settles relayAddress server s tr (resultPeer r).isSome := by
  unfold connect at h
  split at h
  · exact connectDiscovered_settles h
  · obtain ⟨t₁, o, s₁, t₂, rfl, h₁, h₂⟩ := runs_bind.1 h
    have hall := Settles.attempts (fun r => (r.bind resultPeer).isSome) (I := (· = s)) rfl
      (fun s₁ tr r s' hs hr => pinnedRound_settles hs hr) rfl h₁
    cases o with
    | some result =>
      obtain ⟨rfl, rfl, -⟩ := runs_pure.1 h₂
      rw [List.append_nil]
      exact hall
    | none =>
      obtain ⟨_, _, _, _, rfl, h₃, h₄⟩ := runs_bind.1 h₂
      obtain ⟨rfl, rfl⟩ := runs_emit.1 h₃
      obtain ⟨rfl, rfl, -⟩ := runs_pure.1 h₄
      exact hall.quiet_right (by simp [Io.Quiet, Io.isDial, Io.asksHub])

/-- A manual selection pursues one answer. -/
theorem reachSpecificPeer_settles {r : Option PeerId}
    (h : Runs (reachSpecificPeer relayAddress server peer : M S _) s tr r s') :
    Settles relayAddress server s tr r.isSome := by
  obtain ⟨rfl, hr⟩ := runs_tryReachPeer.1 h
  exact reachRun_settles (.inl rfl) hr

end P2Proxy
