import P2Proxy.Network
import P2Proxy.Interaction.Run

/-!
# The link to the hub

The network actor with the dials that it has submitted to the swarm.  Each of them is resolved by one event: a
connection of the peer that was reached, or an error with the peer id that the dialled address carries, if it carries
one.  The actor does not dial the hub again while it believes that such a dial is under way, and it only stops believing
so when an event names the hub.  `hub_redialled_iff` says exactly which events leave it waiting for nothing.
-/

namespace P2Proxy

open Interaction

/-- The network actor, and the dials that it has submitted and that are not resolved. -/
structure HubLink where
  network : NetworkActor
  dials : List Multiaddr

/-- An input with the dial that it resolves, if any. -/
structure HubLink.Label where
  swarm : Swarm
  input : NetworkInput
  resolves : Option Multiaddr

namespace HubLink

def init : HubLink := { network := .new, dials := [] }

/-- The input can resolve a dial of `address`: whoever answers there is the peer that the address names, if it names
one, and an error carries that name. -/
def CanResolve (address : Multiaddr) : NetworkInput → Prop
  | .swarm (.connectionEstablished peer _ _) => ∀ p, lastP2p address = some p → peer = p
  | .swarm (.outgoingConnectionError peer) => peer = lastP2p address
  | _ => False

/-- The dials that the swarm has accepted. -/
def submitted (w : Swarm) (effects : List NetworkEffect) : List Multiaddr :=
  effects.filterMap fun
    | .dial address => if w.accepts address then some address else none
    | _ => none

/-- The dials that are left when the input has resolved its own. -/
def unresolved (s : HubLink) (l : Label) : List Multiaddr :=
  match l.resolves with
  | some address => s.dials.erase address
  | none => s.dials

def after (ctx : Context) (s : HubLink) (l : Label) : HubLink where
  network := (s.network.handle ctx l.swarm l.input).1
  dials := s.unresolved l ++ submitted l.swarm (s.network.handle ctx l.swarm l.input).2

def Step (ctx : Context) (s : HubLink) (l : Label) (s' : HubLink) : Prop :=
  (∀ address, l.resolves = some address → address ∈ s.dials ∧ CanResolve address l.input) ∧ s' = s.after ctx l

/-- The hub is only believed to be dialled while a dial of its address is not resolved. -/
def Redialable (ctx : Context) (s : HubLink) : Prop :=
  s.network.bootstrapDialing = true → ctx.bootstrapAddress ∈ s.dials

/-- The event is about the hub. -/
def NamesHub (ctx : Context) : NetworkInput → Prop
  | .swarm (.connectionEstablished peer _ _) => peer = ctx.bootstrapPeerId
  | .swarm (.outgoingConnectionError peer) => peer = some ctx.bootstrapPeerId
  | _ => False

/-- The last dial of the hub's address that is not resolved is resolved by an event about the hub. -/
def ResolvesByName (ctx : Context) (s : HubLink) (l : Label) : Prop :=
  s.network.bootstrapDialing = true → l.resolves = some ctx.bootstrapAddress →
    ctx.bootstrapAddress ∉ s.dials.erase ctx.bootstrapAddress → NamesHub ctx l.input

variable {ctx : Context} {s s' : HubLink} {l : Label} {ks : List Label}

theorem Step.deterministic {s₁ s₂ : HubLink} (h₁ : Step ctx s l s₁) (h₂ : Step ctx s l s₂) : s₁ = s₂ :=
  h₁.2.trans h₂.2.symm

/-- An input sets the flag only together with a dial of the hub that is accepted, and an event about the hub clears
it. -/
theorem bootstrapDialing_handle {w : Swarm} {a : NetworkActor} {input : NetworkInput}
    (h : (a.handle ctx w input).1.bootstrapDialing = true) :
    ctx.bootstrapAddress ∈ submitted w (a.handle ctx w input).2 ∨ a.bootstrapDialing = true ∧ ¬NamesHub ctx input := by
  cases input with
  | dial addresses reply =>
    right
    simp only [NetworkActor.handle, NetworkActor.handleDial] at h
    split at h <;> exact ⟨h, id⟩
  | isConnected peer reply => exact .inr ⟨h, id⟩
  | swarm event =>
    right
    cases event with
    | connectionEstablished peer address relayed =>
      obtain ⟨hhub, hdialing⟩ := (Bool.and_eq_true _ _).mp h
      exact ⟨hdialing, by simpa [NamesHub] using hhub⟩
    | connectionClosed peer => exact ⟨((Bool.and_eq_true _ _).mp h).2, id⟩
    | outgoingConnectionError peer =>
      obtain ⟨hhub, hdialing⟩ := (Bool.and_eq_true _ _).mp h
      exact ⟨hdialing, by simpa [NamesHub] using hhub⟩
    | pingFailed peer =>
      simp only [NetworkActor.handle, NetworkActor.handleSwarmEvent] at h
      split at h <;> exact ⟨h, id⟩
    | pingSucceeded peer => exact ⟨h, id⟩
  | expireDials => exact .inr ⟨h, id⟩
  | retryBootstrap =>
    simp only [NetworkActor.handle, NetworkActor.tryDialBootstrap] at h ⊢
    split at h
    · exact .inr ⟨h, id⟩
    · rename_i hidle
      left
      rw [if_neg hidle]
      have haccepts : w.accepts ctx.bootstrapAddress = true := h
      simp [submitted, haccepts]
  | shutdown => exact .inr ⟨h, id⟩

/-- An event that resolves a dial submits none, and clears the flag only if it is about the hub. -/
theorem handle_of_canResolve (ctx : Context) (w : Swarm) (a : NetworkActor) {input : NetworkInput} {address : Multiaddr}
    (h : CanResolve address input) : submitted w (a.handle ctx w input).2 = [] ∧
      (a.bootstrapDialing = true → ¬NamesHub ctx input → (a.handle ctx w input).1.bootstrapDialing = true) := by
  cases input with
  | swarm event =>
    cases event with
    | connectionEstablished peer address' relayed =>
      refine ⟨?_, fun hdialing hhub => ?_⟩
      · refine List.filterMap_eq_nil_iff.2 fun e he => ?_
        rcases List.mem_append.1 he with he | he
        · rcases List.mem_append.1 he with he | he
          · obtain ⟨d, -, rfl⟩ := List.mem_map.1 he
            rfl
          · rcases List.mem_cons.1 he with rfl | he
            · rfl
            · rw [List.mem_singleton.1 he]
        · split at he
          · cases he
          · rw [List.mem_singleton.1 he]
      · have hne : peer ≠ ctx.bootstrapPeerId := hhub
        have hflag : a.bootstrapDialing = true := hdialing
        simp [NetworkActor.handle, NetworkActor.handleSwarmEvent, hne, hflag, NetworkActor.completePendingDials,
          NetworkActor.settleDials]
    | outgoingConnectionError peer =>
      refine ⟨rfl, fun hdialing hhub => ?_⟩
      have hne : peer ≠ some ctx.bootstrapPeerId := hhub
      simp [NetworkActor.handle, NetworkActor.handleSwarmEvent, hne, hdialing]
    | _ => cases h
  | _ => cases h

/-- A step keeps the hub redialable iff it resolves its last dial by name. -/
theorem Step.redialable_iff (hs : s.Redialable ctx) (h : Step ctx s l s') :
    s'.Redialable ctx ↔ s.ResolvesByName ctx l := by
  obtain ⟨hresolves, rfl⟩ := h
  constructor
  · intro hs' hdialing hl hlast
    by_contra hhub
    obtain ⟨hsubmitted, hflag⟩ := handle_of_canResolve ctx l.swarm s.network (hresolves _ hl).2
    have hmem : ctx.bootstrapAddress ∈ s.unresolved l ++ submitted l.swarm (s.network.handle ctx l.swarm l.input).2 :=
      hs' (hflag hdialing hhub)
    rw [hsubmitted, List.append_nil, unresolved, hl] at hmem
    exact hlast hmem
  · intro hl hdialing'
    rcases bootstrapDialing_handle hdialing' with hmem | ⟨hdialing, hhub⟩
    · exact List.mem_append_right _ hmem
    · refine List.mem_append_left _ ?_
      have hmem := hs hdialing
      unfold unresolved
      cases hr : l.resolves with
      | none => exact hmem
      | some address =>
        by_cases heq : ctx.bootstrapAddress = address
        · subst heq
          by_contra hlast
          exact hhub (hl hdialing hr hlast)
        · exact (List.mem_erase_of_ne heq).2 hmem

/-- In a run the hub is only believed to be dialled while such a dial is not resolved, iff the last of them is always
resolved by an event about the hub; and as long as that is so, a tick that finds the hub disconnected and no dial of it
under way submits a new one. -/
theorem hub_redialled_iff (h : Reaches (Step ctx) init ks s) :
    (Always (Step ctx) (Redialable ctx) init ks ↔ Reaches (guarded (Step ctx) (ResolvesByName ctx)) init ks s) ∧
      ∀ (s : HubLink) w, s.Redialable ctx → s.network.bootstrapConnected = false → ctx.bootstrapAddress ∉ s.dials →
        .dial ctx.bootstrapAddress ∈ (s.network.handle ctx w .retryBootstrap).2 := by
  refine ⟨?_, fun s w hs hconnected hdials => ?_⟩
  · exact always_iff (J := fun _ => True) (fun _ _ _ _ => Step.deterministic) (fun _ _ _ _ _ _ => trivial)
      (fun _ _ _ _ hs h => h.redialable_iff hs) trivial (fun hdialing => by cases hdialing) h
  · have hdialing : s.network.bootstrapDialing = false := by
      by_contra hflag
      exact hdials (hs (Bool.eq_true_of_not_eq_false hflag))
    simp [NetworkActor.handle, NetworkActor.tryDialBootstrap, hconnected, hdialing]

section Fixture

private def hubAt (address : Multiaddr) : Context := { dummyContext [] with bootstrapAddress := address }

private def willing : Swarm :=
  { now := 0, accepts := fun _ => true, isConnected := fun _ => false, connectedPeers := [] }

private def hubCloses : Label := ⟨willing, .swarm (.connectionClosed ⟨[0]⟩), none⟩
private def tick : Label := ⟨willing, .retryBootstrap, none⟩

/-- The dial of the hub fails. -/
private def hubDialFails (address : Multiaddr) : Label :=
  ⟨willing, .swarm (.outgoingConnectionError (lastP2p address)), some address⟩

/-- The hub closes, is dialled again, and the dial fails. -/
private def dialFailed (address : Multiaddr) : HubLink :=
  ((init.after (hubAt address) hubCloses).after (hubAt address) tick).after (hubAt address) (hubDialFails address)

private theorem hubCloses_step (address : Multiaddr) :
    Step (hubAt address) init hubCloses (init.after (hubAt address) hubCloses) := ⟨by simp [hubCloses], rfl⟩

private theorem tick_step (address : Multiaddr) : Step (hubAt address) (init.after (hubAt address) hubCloses) tick
    ((init.after (hubAt address) hubCloses).after (hubAt address) tick) := ⟨by simp [tick], rfl⟩

private theorem hubDialFails_step (address : Multiaddr) :
    Step (hubAt address) ((init.after (hubAt address) hubCloses).after (hubAt address) tick) (hubDialFails address)
      (dialFailed address) := by
  refine ⟨fun dialled hdialled => ?_, rfl⟩
  obtain rfl : address = dialled := Option.some.inj hdialled
  exact ⟨List.mem_singleton_self address, rfl⟩

/-- The address of the hub names it: the failed dial is noticed. -/
theorem hub_redialled_iff_named : Always (Step (hubAt [.p2p ⟨[0]⟩])) (Redialable (hubAt [.p2p ⟨[0]⟩])) init
    [hubCloses, tick, hubDialFails [.p2p ⟨[0]⟩]] := by
  have hrun := Reaches.cons (hubCloses_step [.p2p ⟨[0]⟩]) (.cons (tick_step _) (.cons (hubDialFails_step _) (.nil _)))
  refine (hub_redialled_iff hrun).1.2 ?_
  exact .cons ⟨hubCloses_step _, by simp [ResolvesByName, hubCloses]⟩
    (.cons ⟨tick_step _, by simp [ResolvesByName, tick]⟩
    (.cons ⟨hubDialFails_step _, fun _ _ _ => rfl⟩ (.nil _)))

/-- The default address, `/dnsaddr/boot2`, does not name the hub: after a failed dial no tick submits another. -/
theorem hub_never_redialled :
    let address : Multiaddr := [.other 56 [98, 111, 111, 116, 50]]
    Reaches (Step (hubAt address)) init [hubCloses, tick, hubDialFails address] (dialFailed address) ∧
      ¬(dialFailed address).Redialable (hubAt address) ∧ (dialFailed address).network.bootstrapConnected = false ∧
      (dialFailed address).dials = [] ∧
      ∀ w, ((dialFailed address).network.handle (hubAt address) w .retryBootstrap).2 = [] := by
  intro address
  refine ⟨.cons (hubCloses_step _) (.cons (tick_step _) (.cons (hubDialFails_step _) (.nil _))), ?_, rfl,
    rfl, fun w => rfl⟩
  intro hredialable
  exact absurd (hredialable rfl) List.not_mem_nil

end Fixture

end HubLink

end P2Proxy
