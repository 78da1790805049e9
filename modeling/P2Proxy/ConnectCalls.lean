import P2Proxy.Reach

/-!
# What the connect flow calls

The connect flow talks to the hub, to the dialer, to the wall clock and to the operator.  It never announces an exit or
a pool, reads the monotonic clock, schedules a rediscovery or answers a requester: these calls are the actor's.
-/

namespace P2Proxy

open Interaction

/-- A call that the connect flow makes. -/
def Io.ofConnect : Io → Bool
  | ⟨.resolvePeers _, _⟩ | ⟨.findNodes _ _, _⟩ | ⟨.dialAndWait _, _⟩ | ⟨.isConnected _, _⟩ | ⟨.sleep _, _⟩
  | ⟨.utcNow, _⟩ => true
  | ⟨.emit (.serverPool _ _), _⟩ | ⟨.emit (.pinnedPeerStatuses _ _), _⟩ | ⟨.emit (.error _), _⟩ => true
  | _ => false

variable {S : Type} {α β : Type} {relayAddress : Multiaddr} {server : Server} {peer : PeerId} {fp : String}

/-- All calls of `m` are calls of the connect flow. -/
def Connecting (m : M S α) : Prop := Obeys (fun _ tr _ => ∀ e ∈ tr, Io.ofConnect e = true) m

namespace Connecting

private theorem law : Law fun (_ : S) (tr : List Io) (_ : S) => ∀ e ∈ tr, e.ofConnect = true where
  refl _ _ he := absurd he List.not_mem_nil
  trans h₁ h₂ e he := (List.mem_append.1 he).elim (h₁ e) (h₂ e)

theorem pure (a : α) : Connecting (Pure.pure a : M S α) := Obeys.pure law a

theorem bind {m : M S α} {f : α → M S β} (hm : Connecting m) (hf : ∀ a, Connecting (f a)) :
    Connecting (m >>= f) := Obeys.bind law hm hf

theorem ask {q : Call} (hq : ∀ x, Io.ofConnect ⟨q, x⟩ = true) : Connecting (ask q : M S _) :=
  Obeys.ask fun _ x e he => by
    obtain rfl := List.mem_singleton.1 he
    exact hq x

theorem get : Connecting (MonadState.get : M S S) := Obeys.get law

theorem modify (f : S → S) : Connecting (modify f : M S PUnit) := Obeys.update fun _ _ he => absurd he List.not_mem_nil

theorem modifyGet (f : S → α × S) : Connecting (modifyGet f : M S α) := 
  Obeys.updateGet fun _ _ he => absurd he List.not_mem_nil

theorem attempts {m : M S (Option β)} (hm : Connecting m) (n : Nat) : Connecting (attempts m n) :=
  Obeys.attempts law hm n

theorem findSomeM? {ι : Type} {f : ι → M S (Option β)} (is : List ι) (hf : ∀ i, Connecting (f i)) :
    Connecting (is.findSomeM? f) := Obeys.findSomeM? law is fun i _ => hf i

theorem sleep (d : Duration) : Connecting (sleep d : M S Unit) := ask fun _ => rfl

end Connecting

theorem dialSet_connecting (A : Finset Multiaddr) : Connecting (dialSet A : M S _) := by
  unfold dialSet
  split
  · exact .pure none
  · exact .bind (.ask fun _ => rfl) fun r => by cases r <;> exact .pure _

theorem dial_connecting (A : Finset Multiaddr) : Connecting (dial A : M S _) :=
  .bind (dialSet_connecting _) fun o => by
    cases o with
    | some p => exact .pure _
    | none => exact dialSet_connecting _

theorem resolveRoutes_connecting (peers : List PeerId) : Connecting (resolveRoutes relayAddress peers : M S _) :=
  .bind (.ask fun _ => rfl) fun _ => .pure _

theorem pinnedPass_connecting (port : Port) (pinned : List DestinationPeerEntry) :
    Connecting (pinnedPass relayAddress port pinned : M S _) := by
  refine .bind (resolveRoutes_connecting _) fun resolved => .bind (.ask fun _ => rfl) fun _ => ?_
  refine .findSomeM? _ fun e => ?_
  unfold dialPinned
  split
  · exact .pure none
  · refine .bind (dial_connecting _) fun o => ?_
    cases o with
    | none => exact .pure none
    | some p =>
      refine .bind (.bind (.findSomeM? _ fun e => .bind (.ask fun _ => rfl) fun b => ?_) fun _ => .pure _)
        fun _ => .pure _
      cases b <;> exact .pure _

variable [StickyStore S]

theorem remember_connecting : Connecting (remember server fp peer : M S Unit) := by
  unfold remember
  split
  · exact .bind (.ask fun _ => rfl) fun _ => .modify _
  · exact .pure ()

theorem tryReachPeer_connecting : Connecting (tryReachPeer relayAddress server peer : M S _) :=
  .bind .get fun _ => .bind (resolveRoutes_connecting _) fun _ => dial_connecting _

theorem reconnectLoop_connecting (n : Nat) (b : Backoff) :
    Connecting (reconnectLoop relayAddress server peer n b : M S _) := by
  induction n generalizing b with
  | zero => exact .pure none
  | succ n ih =>
    refine .bind tryReachPeer_connecting fun o => ?_
    cases o with
    | some p => exact .pure _
    | none =>
      dsimp only
      split
      · exact .bind (.sleep _) fun _ => ih _
      · exact .pure none

theorem connectStickyPool_connecting (skip : Option PeerId) :
    Connecting (connectStickyPool relayAddress server fp skip : M S _) := by
  unfold connectStickyPool
  split
  · refine .bind (.modifyGet _) fun peers => .findSomeM? peers fun p => ?_
    unfold tryPoolMember
    split
    · exact .pure none
    · refine .bind tryReachPeer_connecting fun o => ?_
      cases o with
      | some p => exact .pure _
      | none => exact .bind (.modify _) fun _ => .pure none
  · exact .pure none

theorem discoveryAttempt_connecting : Connecting (discoveryAttempt relayAddress server fp : M S _) := by
  refine .bind (.ask fun _ => rfl) fun answer => ?_
  cases answer with
  | error e => exact .bind (.sleep _) fun _ => .pure none
  | ok candidates =>
    refine .bind (.ask fun _ => rfl) fun _ => ?_
    split
    · exact .bind (.sleep _) fun _ => .pure none
    · refine .bind (dial_connecting _) fun o => ?_
      cases o with
      | none => exact .pure none
      | some p => exact .bind remember_connecting fun _ => .pure _

theorem connectPoolOrDiscover_connecting (avoid : Option PeerId) :
    Connecting (connectPoolOrDiscover relayAddress server fp avoid : M S _) := by
  refine .bind (connectStickyPool_connecting _) fun o => ?_
  cases o with
  | some p => exact .bind remember_connecting fun _ => .pure _
  | none =>
    refine .bind (.attempts discoveryAttempt_connecting _) fun o => ?_
    cases o with
    | some d => exact .pure _
    | none => exact .bind (.ask fun _ => rfl) fun _ => .pure _

theorem connectDiscovered_connecting (avoid : Option PeerId) :
    Connecting (connectDiscovered relayAddress server avoid : M S _) := by
  unfold connectDiscovered
  split
  · refine .bind (reconnectLoop_connecting _ _) fun o => ?_
    cases o with
    | some p => exact .bind remember_connecting fun _ => .pure _
    | none => exact .bind (.modify _) fun _ => connectPoolOrDiscover_connecting _
  · exact connectPoolOrDiscover_connecting _

/-- The connect flow makes none of the actor's calls. -/
theorem connect_connecting (avoid : Option PeerId) : Connecting (connect relayAddress server avoid : M S _) := by
  unfold connect
  split
  · exact connectDiscovered_connecting _
  · refine .bind (.attempts (.bind (pinnedPass_connecting _ _) fun o => ?_) _) fun o => ?_
    · cases o with
      | some d => exact .pure _
      | none =>
        dsimp only
        split
        · exact .bind (connectDiscovered_connecting _) fun _ => .pure _
        · exact .bind (.sleep _) fun _ => .pure none
    · cases o with
      | some c => exact .pure _
      | none => exact .bind (.ask fun _ => rfl) fun _ => .pure _

/-- An attempt to reach a peer makes none of them either. -/
theorem ReachRun.ofConnect {direct : Option Multiaddr} {tr : List Io} {r : Option PeerId}
    (h : ReachRun relayAddress direct peer tr r) : ∀ e ∈ tr, Io.ofConnect e = true := by
  obtain ⟨ans, dials, rfl, hdials⟩ := h
  intro e he
  rcases List.mem_cons.1 he with rfl | he
  · rfl
  · obtain ⟨A, x, rfl, -⟩ := hdials.dials he
    rfl

end P2Proxy
