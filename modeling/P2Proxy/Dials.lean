import P2Proxy.Network

/-!
# Pending dials

A dial is pending from the command until one of its candidates connects or a tick finds its time up, and it is answered
at that moment and at no other (`dial_answered_once`).  A connection or a tick settles exactly the dials that it
resolves; every other pending dial stays, once.
-/

namespace P2Proxy

open Interaction

namespace NetworkActor

variable {ctx : Context} {w : Swarm} {a : NetworkActor} {input : NetworkInput} {r : ReplyChannel}

/-! ### Settling -/

theorem settleDials_perm (done : PendingDial → Bool) (peer : Option PeerId) :
    (a.settleDials done peer).1.pendingDials.Perm (a.pendingDials.filter fun d => !done d) :=
  sweepAll_left_perm done a.pendingDials

/-- The answers that are sent on the channel `r`. -/
def repliesTo (r : ReplyChannel) (effects : List NetworkEffect) : List (Option PeerId) :=
  effects.filterMap fun
    | .sendDialled reply peer => if reply = r then some peer else none
    | _ => none

@[simp] theorem repliesTo_append {e₁ e₂ : List NetworkEffect} :
    repliesTo r (e₁ ++ e₂) = repliesTo r e₁ ++ repliesTo r e₂ := List.filterMap_append

/-- What resolves a dial, and the answer. -/
def resolves (candidates : Finset PeerId) (deadline : Instant) (w : Swarm) : NetworkInput → Option (Option PeerId)
  | .swarm (.connectionEstablished peer _ _) => if peer ∈ candidates then some (some peer) else none
  | .expireDials => if deadline ≤ w.now then some none else none
  | _ => none

/-- The channel of a `Dial` command. -/
def dialReply : NetworkInput → Option ReplyChannel
  | .dial _ reply => some reply
  | _ => none

/-- The pending dials that are to be answered on `r`. -/
def onChannel (r : ReplyChannel) (a : NetworkActor) : List PendingDial := a.pendingDials.filter (·.reply = r)

private theorem eq_of_perm {α : Type} {l₁ l₂ : List α} (h : l₁.Perm l₂) (hone : l₂.length ≤ 1) : l₁ = l₂ := by
  match l₂, hone with
  | [], _ => exact List.perm_nil.1 h
  | [x], _ => exact List.perm_singleton.1 h

private theorem filter_filter_swap {α : Type} (p q : α → Bool) (l : List α) :
    (l.filter p).filter q = (l.filter q).filter p := by
  rw [List.filter_filter, List.filter_filter]
  exact List.filter_congr fun x _ => Bool.and_comm ..

/-- Settling answers the dial on `r` if it is done, and keeps it otherwise. -/
theorem settleDials_onChannel (done : PendingDial → Bool) (peer : Option PeerId) (hone : (a.onChannel r).length ≤ 1) :
    (a.settleDials done peer).1.onChannel r = (a.onChannel r).filter (fun d => !done d) ∧
      repliesTo r (a.settleDials done peer).2 = ((a.onChannel r).filter done).map fun _ => peer := by
  have hshort : ∀ p : PendingDial → Bool, ((a.onChannel r).filter p).length ≤ 1 := by
    intro p
    have hle := List.length_filter_le p (a.onChannel r)
    omega
  constructor
  · have hperm := (a.settleDials_perm done peer).filter (·.reply = r)
    rw [filter_filter_swap] at hperm
    exact eq_of_perm hperm (hshort _)
  · have hperm := (sweepAll_removed_perm done a.pendingDials).filter (·.reply = r)
    rw [filter_filter_swap] at hperm
    have hremoved := eq_of_perm hperm (hshort done)
    have hreplies : ∀ l : List PendingDial,
        repliesTo r (l.map fun d => NetworkEffect.sendDialled d.reply peer) =
          (l.filter (·.reply = r)).map fun _ => peer := by
      intro l
      induction l with
      | nil => rfl
      | cons d l ih =>
        by_cases hd : d.reply = r
        · simpa [repliesTo, hd] using ih
        · simpa [repliesTo, hd] using ih
    rw [onChannel, ← hremoved]
    exact hreplies _

/-! ### One input -/

theorem repliesTo_eq_nil {effects : List NetworkEffect} (h : ∀ e ∈ effects, ∀ reply peer, e ≠ .sendDialled reply peer) :
    repliesTo r effects = [] := by
  refine List.filterMap_eq_nil_iff.2 fun e he => ?_
  cases e with
  | sendDialled reply peer => exact absurd rfl (h _ he reply peer)
  | _ => rfl

private theorem filterMap_ite_const {β : Type} (p : PendingDial → Prop) [DecidablePred p] (x : β)
    (l : List PendingDial) :
    (l.filterMap fun d => if p d then some x else none) = (l.filter p).map fun _ => x := by
  induction l with
  | nil => rfl
  | cons d l ih => by_cases hd : p d <;> simp [hd, ih]

private theorem filter_isNone {β : Type} (p : PendingDial → Prop) [DecidablePred p] (x : β) (l : List PendingDial) :
    (l.filter fun d => (if p d then some x else none).isNone) = l.filter fun d => !decide (p d) :=
  List.filter_congr fun d _ => by by_cases hd : p d <;> simp [hd]

/-- Inputs that resolve no dial leave the pending dials alone and answer none. -/
private theorem unresolved {input' : NetworkActor × List NetworkEffect}
    (hresolves : ∀ d ∈ a.onChannel r, resolves d.candidates d.deadline w input = none)
    (hpending : input'.1.onChannel r = a.onChannel r) (hreplies : repliesTo r input'.2 = []) :
    input'.1.onChannel r = (a.onChannel r).filter (fun d => (resolves d.candidates d.deadline w input).isNone) ∧
      repliesTo r input'.2 = (a.onChannel r).filterMap fun d => resolves d.candidates d.deadline w input := by
  refine ⟨hpending.trans ?_, hreplies.trans ?_⟩
  · exact (List.filter_eq_self.2 fun d hd => by rw [hresolves d hd]; rfl).symm
  · exact (List.filterMap_eq_nil_iff.2 hresolves).symm

/-- An input answers the dial on `r` if it resolves it, and keeps it otherwise. -/
theorem handle_onChannel (ctx : Context) (w : Swarm) (hone : (a.onChannel r).length ≤ 1)
    (hinput : dialReply input ≠ some r) :
    (handle ctx w a input).1.onChannel r =
        (a.onChannel r).filter (fun d => (resolves d.candidates d.deadline w input).isNone) ∧
      repliesTo r (handle ctx w a input).2 =
        (a.onChannel r).filterMap fun d => resolves d.candidates d.deadline w input := by
  cases input with
  | dial addresses reply =>
    have hne : reply ≠ r := fun h => hinput (congrArg some h)
    refine unresolved (fun _ _ => rfl) ?_ ?_
    · simp only [handle, handleDial]
      split
      · rfl
      · simp [onChannel, hne]
    · simp only [handle, handleDial]
      split
      · simp [repliesTo, hne]
      · refine repliesTo_eq_nil fun e he reply' peer => ?_
        obtain ⟨address, -, rfl⟩ := List.mem_map.1 he
        simp
  | isConnected peer reply => exact unresolved (fun _ _ => rfl) rfl rfl
  | swarm event =>
    cases event with
    | connectionEstablished peer address relayed =>
      obtain ⟨hpending, hreplies⟩ := settleDials_onChannel (fun d => peer ∈ d.candidates) (some peer) hone
      refine ⟨hpending.trans (filter_isNone _ _ _).symm, Eq.trans ?_ (filterMap_ite_const _ _ _).symm⟩
      -- what else the event has the actor do sends no reply
      have hothers : repliesTo r ([.emit (.connection (.connected peer)), .emit (.peerRoute peer address relayed)] ++
          if decide (peer = ctx.bootstrapPeerId) then [] else [.spawnPeerConnected peer address relayed]) = [] := by
        split <;> rfl
      simp only [handle, handleSwarmEvent, List.append_assoc]
      rw [repliesTo_append, hothers, List.append_nil]
      exact hreplies
    | connectionClosed peer => exact unresolved (fun _ _ => rfl) rfl rfl
    | outgoingConnectionError peer => exact unresolved (fun _ _ => rfl) rfl rfl
    | pingFailed peer =>
      refine unresolved (fun _ _ => rfl) ?_ ?_ <;> simp only [handle, handleSwarmEvent] <;> split <;> rfl
    | pingSucceeded peer => exact unresolved (fun _ _ => rfl) rfl rfl
  | expireDials =>
    obtain ⟨hpending, hreplies⟩ := settleDials_onChannel (fun d => d.deadline ≤ w.now) none hone
    exact ⟨hpending.trans (filter_isNone _ _ _).symm, hreplies.trans (filterMap_ite_const _ _ _).symm⟩
  | retryBootstrap =>
    refine unresolved (fun _ _ => rfl) ?_ ?_ <;> simp only [handle, tryDialBootstrap] <;> split <;> rfl
  | shutdown =>
    refine unresolved (fun _ _ => rfl) rfl (repliesTo_eq_nil fun e he reply' peer => ?_)
    obtain ⟨q, -, rfl⟩ := List.mem_map.1 he
    simp

/-! ### Runs -/

/-- What the actor does with each of the inputs, one after the other. -/
def effects (ctx : Context) : NetworkActor → List (Swarm × NetworkInput) → List (List NetworkEffect)
  | _, [] => []
  | a, (w, input) :: ks => (handle ctx w a input).2 :: effects ctx (handle ctx w a input).1 ks

/-- The first of the answers, where it is given, and none after it. -/
def firstOnly {β : Type} : List (Option β) → List (List β)
  | [] => []
  | none :: l => [] :: firstOnly l
  | some x :: l => [x] :: l.map fun _ => []

variable {ks : List (Swarm × NetworkInput)}

theorem effects_append {ks' : List (Swarm × NetworkInput)} :
    effects ctx a (ks ++ ks') = effects ctx a ks ++
      effects ctx (ks.foldl (fun a k => (handle ctx k.1 a k.2).1) a) ks' := by
  induction ks generalizing a with
  | nil => rfl
  | cons k ks ih =>
    rw [List.cons_append, effects, ih]
    rfl

/-- On a channel that no dial uses there is no answer. -/
theorem replies_unused (ctx : Context) (hnone : a.onChannel r = []) (hks : ∀ k ∈ ks, dialReply k.2 ≠ some r) :
    (effects ctx a ks).map (repliesTo r) = ks.map (fun _ => []) ∧
      (ks.foldl (fun a k => (handle ctx k.1 a k.2).1) a).onChannel r = [] := by
  induction ks generalizing a with
  | nil => exact ⟨rfl, hnone⟩
  | cons k ks ih =>
    obtain ⟨hk, hks⟩ := List.forall_mem_cons.1 hks
    obtain ⟨hpending, hreplies⟩ := handle_onChannel ctx k.1 (by rw [hnone]; exact Nat.zero_le 1) hk
    rw [hnone] at hpending hreplies
    obtain ⟨hrest, hlast⟩ := ih hpending hks
    refine ⟨?_, hlast⟩
    rw [effects, List.map_cons, List.map_cons, hrest]
    exact congrArg (· :: _) hreplies

/-- A pending dial is answered by the first input that resolves it. -/
theorem replies_pending {d : PendingDial} (hone : a.onChannel r = [d]) (hks : ∀ k ∈ ks, dialReply k.2 ≠ some r) :
    (effects ctx a ks).map (repliesTo r) = firstOnly (ks.map fun k => resolves d.candidates d.deadline k.1 k.2) := by
  induction ks generalizing a with
  | nil => rfl
  | cons k ks ih =>
    obtain ⟨hk, hrest⟩ := List.forall_mem_cons.1 hks
    obtain ⟨hpending, hreplies⟩ := handle_onChannel ctx k.1 (by rw [hone]; exact le_rfl) hk
    rw [hone] at hpending hreplies
    rw [effects, List.map_cons, List.map_cons]
    cases hresolves : resolves d.candidates d.deadline k.1 k.2 with
    | none =>
      rw [List.filter_singleton, hresolves] at hpending
      rw [List.filterMap_cons, hresolves] at hreplies
      have hkept : (handle ctx k.1 a k.2).1.onChannel r = [d] := hpending
      rw [firstOnly, ih hkept hrest]
      exact congrArg (· :: _) hreplies
    | some answer =>
      rw [List.filter_singleton, hresolves] at hpending
      rw [List.filterMap_cons, hresolves] at hreplies
      have hgone : (handle ctx k.1 a k.2).1.onChannel r = [] := hpending
      rw [firstOnly, (replies_unused ctx hgone hrest).1, List.map_map]
      exact congrArg (· :: _) hreplies

/-- A dial without a candidate is answered with nobody at once, any other one by the first later input that resolves
it. -/
theorem replies_dial (ctx : Context) {pre post : List (Swarm × NetworkInput)} {addresses : List Multiaddr}
    (hfresh : ((pre ++ (w, .dial addresses r) :: post).filterMap fun k => dialReply k.2).Nodup) :
    let candidates := destinationPeerIds addresses.toFinset
    (effects ctx .new (pre ++ (w, .dial addresses r) :: post)).map (repliesTo r) = pre.map (fun _ => []) ++
      if candidates = ∅ then [none] :: post.map fun _ => []
      else [] :: firstOnly (post.map fun k => resolves candidates (w.now + dialTimeout.nanos) k.1 k.2) := by
  rw [List.filterMap_append, List.nodup_append] at hfresh
  obtain ⟨-, hpost, hpre⟩ := hfresh
  have hpre' : ∀ k ∈ pre, dialReply k.2 ≠ some r := fun k hk h =>
    hpre r (List.mem_filterMap.2 ⟨k, hk, h⟩) r (List.mem_cons_self ..) rfl
  have hpost' : ∀ k ∈ post, dialReply k.2 ≠ some r := fun k hk h =>
    (List.nodup_cons.1 hpost).1 (List.mem_filterMap.2 ⟨k, hk, h⟩)
  obtain ⟨hbefore, hnone⟩ := replies_unused ctx (a := new) rfl hpre'
  rw [effects_append, List.map_append, hbefore]
  refine congrArg (pre.map (fun _ => []) ++ ·) ?_
  generalize pre.foldl (fun a k => (handle ctx k.1 a k.2).1) new = b at hnone
  show repliesTo r (handleDial w b addresses r).2 ::
    (effects ctx (handleDial w b addresses r).1 post).map (repliesTo r) = _
  by_cases hempty : destinationPeerIds addresses.toFinset = ∅
  · have hdial : handleDial w b addresses r = (b, [.sendDialled r none]) := if_pos hempty
    rw [hdial, if_pos hempty, (replies_unused ctx hnone hpost').1]
    simp [repliesTo]
  · let d : PendingDial :=
      { candidates := destinationPeerIds addresses.toFinset, reply := r, deadline := w.now + dialTimeout.nanos }
    have hdial : handleDial w b addresses r =
        ({ b with pendingDials := b.pendingDials ++ [d] }, addresses.map .dial) := if_neg hempty
    have hquiet : repliesTo r (addresses.map NetworkEffect.dial) = [] := by
      refine repliesTo_eq_nil fun e he reply peer => ?_
      obtain ⟨address, -, rfl⟩ := List.mem_map.1 he
      simp
    have hone : ({ b with pendingDials := b.pendingDials ++ [d] } : NetworkActor).onChannel r = [d] := by
      have hsplit : b.pendingDials.filter (·.reply = r) = [] := hnone
      simp [onChannel, hsplit, d]
    rw [hdial, if_neg hempty, hquiet, replies_pending hone hpost']

/-- Every dial of a run is answered once and as it should be.  Without a candidate it is answered with nobody at once;
else by the first connection of one of its candidates or the first tick that finds its time up, whichever is first.  A
connection leaves no pending dial that it could answer, a tick none whose time is up, and every other one is still
pending once. -/
theorem dial_answered_once (ctx : Context) (ks : List (Swarm × NetworkInput))
    (hfresh : (ks.filterMap fun k => dialReply k.2).Nodup) :
    (∀ pre w addresses r post, ks = pre ++ (w, .dial addresses r) :: post →
      let candidates := destinationPeerIds addresses.toFinset
      (effects ctx .new ks).map (repliesTo r) = pre.map (fun _ => []) ++
        if candidates = ∅ then [none] :: post.map fun _ => []
        else [] :: firstOnly (post.map fun k => resolves candidates (w.now + dialTimeout.nanos) k.1 k.2)) ∧
    (∀ (a : NetworkActor) peer, (∀ d ∈ (a.completePendingDials peer).1.pendingDials, peer ∉ d.candidates) ∧
      (a.completePendingDials peer).1.pendingDials.Perm (a.pendingDials.filter (peer ∉ ·.candidates))) ∧
    ∀ (a : NetworkActor) now, (∀ d ∈ (a.expireDials now).1.pendingDials, now < d.deadline) ∧
      (a.expireDials now).1.pendingDials.Perm (a.pendingDials.filter (now < ·.deadline)) := by
  refine ⟨fun pre w addresses r post hks => ?_, fun a peer => ?_, fun a now => ?_⟩
  · subst hks
    exact replies_dial ctx hfresh
  · have hperm := a.settleDials_perm (fun d => peer ∈ d.candidates) (some peer)
    have hkept : a.pendingDials.filter (fun d => !decide (peer ∈ d.candidates)) =
        a.pendingDials.filter (peer ∉ ·.candidates) := List.filter_congr fun d _ => by simp
    rw [hkept] at hperm
    exact ⟨fun d hd => of_decide_eq_true (List.mem_filter.1 (hperm.mem_iff.1 hd)).2, hperm⟩
  · have hperm := a.settleDials_perm (fun d => d.deadline ≤ now) none
    have hkept : a.pendingDials.filter (fun d => !decide (d.deadline ≤ now)) =
        a.pendingDials.filter (now < ·.deadline) := by
      refine List.filter_congr fun d _ => ?_
      rw [← decide_not]
      exact decide_eq_decide.2 not_le
    rw [hkept] at hperm
    exact ⟨fun d hd => of_decide_eq_true (List.mem_filter.1 (hperm.mem_iff.1 hd)).2, hperm⟩

/-- Two dials with a candidate in common: the connection answers the one that names it, the tick the other. -/
theorem dial_answered_once_two :
    let quiet : Swarm := { now := 0, accepts := fun _ => true, isConnected := fun _ => false, connectedPeers := [] }
    let late : Swarm := { quiet with now := dialTimeout.nanos }
    let ks : List (Swarm × NetworkInput) := [(quiet, .dial [[.p2p ⟨[1]⟩], [.p2p ⟨[2]⟩]] 7),
      (quiet, .dial [[.p2p ⟨[3]⟩]] 8), (quiet, .swarm (.connectionEstablished ⟨[2]⟩ [] false)), (late, .expireDials)]
    (effects (dummyContext []) .new ks).map (repliesTo 7) = [[], [], [some ⟨[2]⟩], []] ∧
      (effects (dummyContext []) .new ks).map (repliesTo 8) = [[], [], [], [none]] := by
  intro quiet late ks
  obtain ⟨hreplies, -⟩ := dial_answered_once (dummyContext []) ks (by decide)
  refine ⟨(hreplies [] quiet _ 7 _ rfl).trans (by decide), ?_⟩
  exact (hreplies [(quiet, .dial [[.p2p ⟨[1]⟩], [.p2p ⟨[2]⟩]] 7)] quiet _ 8 _ rfl).trans (by decide)

end NetworkActor

end P2Proxy
