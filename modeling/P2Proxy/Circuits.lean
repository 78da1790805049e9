import P2Proxy.Attempts

/-!
# Relay circuits are a last resort

An attempt splits its routes into direct ones and circuits and dials the circuits only when the direct ones have failed
or there are none.  A circuit through the hub's relay is made up for a known peer only if nothing else is known.  Both
hold of every attempt of every connect, and nobody is dialled once a peer is connected (`circuits_last`).
-/

namespace P2Proxy

open Interaction

variable {relayAddress : Multiaddr} {addrs : Finset Multiaddr}

/-! ### The two parts of a route set -/

theorem not_isRelayed_of_mem_direct {a : Multiaddr} (h : a ∈ (partitionDirectFirst addrs).1) : isRelayed a = false := by
  have hnot := (Finset.mem_filter.1 h).2
  simpa using hnot

theorem isRelayed_of_mem_circuits {a : Multiaddr} (h : a ∈ (partitionDirectFirst addrs).2) : isRelayed a = true :=
  (Finset.mem_filter.1 h).2

theorem partitionDirectFirst_disjoint : Disjoint (partitionDirectFirst addrs).1 (partitionDirectFirst addrs).2 := by
  refine Finset.disjoint_left.2 fun a hdirect hcircuit => ?_
  have hrelayed := isRelayed_of_mem_circuits hcircuit
  rw [not_isRelayed_of_mem_direct hdirect] at hrelayed
  cases hrelayed

/-- The usable remembered address of a known peer, and what the hub returned for it. -/
def knownRoutes (peer : PeerId) (remembered : Option Multiaddr) (answer : Except DirectoryError Routes) :
    Finset Multiaddr :=
  (rememberedRoute remembered peer).toFinset ∪
    match answer with
    | .ok routes => routes.flatten.toFinset
    | .error _ => ∅

/-- A circuit is made up for a known peer only if no route is known, or the hub could not be asked. -/
theorem reachRoutes_eq_knownRoutes {peer : PeerId} {remembered : Option Multiaddr}
    {answer : Except DirectoryError Routes} (hanswer : ∀ reason, answer ≠ .error (.unsupported reason))
    (hknown : knownRoutes peer remembered answer ≠ ∅) :
    reachRoutes relayAddress remembered (routesOf relayAddress [peer] answer) peer =
      knownRoutes peer remembered answer := by
  have hsame : (rememberedRoute remembered peer).toFinset ∪ (routesOf relayAddress [peer] answer).flatten.toFinset =
      knownRoutes peer remembered answer := by
    match answer with
    | .ok routes => rfl
    | .error .timeout => rfl
    | .error (.rejected _) => rfl
    | .error (.taskFailed _) => rfl
    | .error (.unsupported reason) => exact absurd rfl (hanswer reason)
  unfold reachRoutes
  simp only
  rw [hsame, if_neg hknown]

/-! ### Every attempt -/

/-- How an attempt dials its routes: the direct ones first, then the circuits, and none that need not be made up. -/
structure Attempt.CircuitsLast (relayAddress : Multiaddr) (t : Attempt) : Prop where
  disjoint : Disjoint (t.target.direct relayAddress) (t.target.circuits relayAddress)
  union : t.target.direct relayAddress ∪ t.target.circuits relayAddress = t.target.routes relayAddress
  /-- Every set that is dialled is one of the two, and it is not empty. -/
  sets : ∀ c ∈ dialCalls t.trace, c.1 ≠ ∅ ∧
    (c.1 = t.target.direct relayAddress ∧ (∀ a ∈ c.1, isRelayed a = false) ∨
      c.1 = t.target.circuits relayAddress ∧ ∀ a ∈ c.1, isRelayed a = true)
  /-- The circuits are dialled alone, or right after the direct routes have failed. -/
  order : ∀ c ∈ dialCalls t.trace, c.1 = t.target.circuits relayAddress →
    t.target.direct relayAddress = ∅ ∧ dialCalls t.trace = [c] ∨
      dialCalls t.trace = [(t.target.direct relayAddress, none), c]
  /-- A known peer is dialled on the known routes, if there are any and the hub can be asked. -/
  spared : ∀ peer remembered answer, t.target = .known peer remembered answer →
    (∀ reason, answer ≠ .error (.unsupported reason)) → knownRoutes peer remembered answer ≠ ∅ →
      t.target.routes relayAddress = knownRoutes peer remembered answer

theorem Attempt.circuitsLast {t : Attempt} (h : DialRun (t.target.routes relayAddress) t.trace t.outcome) :
    t.CircuitsLast relayAddress := by
  have hdirect : ∀ a ∈ t.target.direct relayAddress, isRelayed a = false := fun a => not_isRelayed_of_mem_direct
  have hcircuits : ∀ a ∈ t.target.circuits relayAddress, isRelayed a = true := fun a => isRelayed_of_mem_circuits
  have hdisjoint : Disjoint (t.target.direct relayAddress) (t.target.circuits relayAddress) :=
    partitionDirectFirst_disjoint
  -- the dials of an attempt, one by one
  have hparts := h.calls
  refine ⟨hdisjoint, partitionDirectFirst_union _, fun c hc => ?_, fun c hc hset => ?_, ?_⟩
  · rcases hparts with ⟨-, -, hcalls, -⟩ | ⟨-, hne, hcalls⟩ | ⟨hne, hcalls, -⟩ | ⟨hne₁, hne₂, hcalls⟩ <;>
      rw [hcalls] at hc
    · cases hc
    · obtain rfl := List.mem_singleton.1 hc
      exact ⟨hne, .inr ⟨rfl, hcircuits⟩⟩
    · obtain rfl := List.mem_singleton.1 hc
      exact ⟨hne, .inl ⟨rfl, hdirect⟩⟩
    · rcases List.mem_cons.1 hc with rfl | hc
      · exact ⟨hne₁, .inl ⟨rfl, hdirect⟩⟩
      · obtain rfl := List.mem_singleton.1 hc
        exact ⟨hne₂, .inr ⟨rfl, hcircuits⟩⟩
  · -- a direct set that is not empty is no circuit set
    have hnot : t.target.direct relayAddress ≠ ∅ → t.target.direct relayAddress ≠ t.target.circuits relayAddress := by
      intro hne heq
      rw [heq, disjoint_self] at hdisjoint
      exact hne (heq.trans hdisjoint)
    rcases hparts with ⟨-, -, hcalls, -⟩ | ⟨hempty, -, hcalls⟩ | ⟨hne, hcalls, -⟩ | ⟨hne, -, hcalls⟩ <;>
      rw [hcalls] at hc ⊢
    · cases hc
    · obtain rfl := List.mem_singleton.1 hc
      exact .inl ⟨hempty, rfl⟩
    · obtain rfl := List.mem_singleton.1 hc
      exact absurd hset (hnot hne)
    · rcases List.mem_cons.1 hc with rfl | hc
      · exact absurd hset (hnot hne)
      · obtain rfl := List.mem_singleton.1 hc
        exact .inr rfl
  · intro peer remembered answer htarget hanswer hknown
    rw [htarget]
    exact reachRoutes_eq_knownRoutes hanswer hknown

/-! ### Every connect -/

variable {S : Type} [StickyStore S] [LawfulStickyStore S]

/-- The trace is a course of attempts that keep circuits for last, and it dials nobody once a peer is connected. -/
def CircuitsLast (relayAddress : Multiaddr) (server : Server) (s : S) (tr : List Io) : Prop :=
  (∃ attempts, Course relayAddress server s [] tr attempts ∧
    (dialCalls tr = attempts.flatMap fun t => dialCalls t.trace) ∧ ∀ t ∈ attempts, t.CircuitsLast relayAddress) ∧
  ∀ l₁ c l₂, dialCalls tr = l₁ ++ c :: l₂ → c.2 ≠ none → l₂ = []

theorem Settles.circuitsLast {server : Server} {s : S} {tr : List Io} {found : Bool}
    (h : Settles relayAddress server s tr found) : CircuitsLast relayAddress server s tr := by
  obtain ⟨attempts, hpursuit, hstops⟩ := h
  have hcourse := hpursuit.course []
  refine ⟨⟨attempts, hcourse, hcourse.dialCalls_eq, fun t ht => Attempt.circuitsLast (hcourse.dialRun t ht)⟩, ?_⟩
  exact fun l₁ c l₂ hl hc => hstops.last hl hc

/-- Whatever the hub and the dialer do, a connect and a manual selection keep relay circuits for last. -/
theorem circuits_last (relayAddress : Multiaddr) (server : Server) (s : S) :
    (∀ avoid tr r s', Runs (connect relayAddress server avoid) s tr r s' → CircuitsLast relayAddress server s tr) ∧
    ∀ peer tr r s', Runs (reachSpecificPeer relayAddress server peer) s tr r s' →
      CircuitsLast relayAddress server s tr :=
  ⟨fun _ _ _ _ h => (connect_settles h).circuitsLast, fun _ _ _ _ h => (reachSpecificPeer_settles h).circuitsLast⟩

end P2Proxy
