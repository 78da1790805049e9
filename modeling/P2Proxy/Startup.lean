import P2Proxy.Ports
import P2Proxy.Interaction.Run

/-!
# Finding the hub at startup

Before any actor runs, the bootstrap address is dialled until a peer identifies itself, at most eleven times, and a
relay reservation is awaited.  The peer that identifies itself first is taken for the hub, on whatever connection it
does so.  It is the hub exactly if nobody identifies itself before a peer that was reached by dialling the bootstrap
address (`bootstrap_hub_iff`).
-/

namespace P2Proxy

open Interaction

def maxBootstrapRetries : Nat := 10

/-! ### The code -/

/-- What the code reads from the configuration and the swarm. -/
structure BootstrapConfig where
  bootstrapAddress : Multiaddr
  localPeerId : PeerId

/-- The events of the swarm; an outbound connection comes with the address that was dialled. -/
inductive StartupEvent
  | connectionEstablished (peer : PeerId) (dialled : Option Multiaddr)
  | identifyReceived (peer : PeerId) (listenAddrs : List Multiaddr)
  | reservationReqAccepted (relayPeerId : PeerId)
  | other

inductive StartupInput
  /-- the answer of `dial`: was the dial submitted? -/
  | dialled (submitted : Bool)
  | event (event : StartupEvent)
  /-- the ten seconds are up -/
  | elapsed
  | slept

inductive StartupEffect
  | listenOn (address : Multiaddr)
  | sleep (duration : Duration)
  | send (event : Events)

structure Bootstrapped where
  relayPeerId : PeerId
  relayAddress : Multiaddr
  bootstrapAddress : Multiaddr
  bootstrapPeerId : PeerId

/-- Where the code stands.  In the first three phases it is in `dial_bootstrap`, which has returned the peer in the
fourth. -/
inductive Startup
  | dialling (retries : Nat)
  | waiting (retries : Nat)
  | pausing (retries : Nat)
  | reserving (bootstrapPeerId : PeerId)
  | bootstrapped (result : Bootstrapped)
  | failed (message : String)

namespace Startup

/-- The circuits on which to listen through the peer that has identified itself. -/
def circuitsThrough (localPeerId peer : PeerId) (listenAddrs : List Multiaddr) : List Multiaddr :=
  listenAddrs.filterMap fun addr =>
    match addr.withP2p peer with
    | .error _ => none
    | .ok withRelay =>
      match Multiaddr.withP2p (withRelay ++ [.p2pCircuit]) localPeerId with
      | .error _ => none
      | .ok circuit => some circuit

def retry (retries : Nat) (what : String) : Startup × List StartupEffect :=
  if maxBootstrapRetries < retries + 1 then
    (.failed s!"failed to {what} bootstrap server after {maxBootstrapRetries} attempts", [])
  else (.pausing (retries + 1), [.sleep (.fromSecs 2)])

/-- What the code does with its next input; it takes no other one. -/
def handle (config : BootstrapConfig) : Startup → StartupInput → Option (Startup × List StartupEffect)
  | .dialling retries, .dialled true => some (.waiting retries, [])
  | .dialling retries, .dialled false => some (retry retries "dial")
  | .waiting _, .event (.identifyReceived peer listenAddrs) =>
    some (.reserving peer, (circuitsThrough config.localPeerId peer listenAddrs).map .listenOn)
  | .waiting retries, .event _ => some (.waiting retries, [])
  | .waiting retries, .elapsed => some (retry retries "connect to")
  | .pausing retries, .slept => some (.dialling retries, [])
  | .reserving peer, .event (.reservationReqAccepted relayPeerId) =>
    let sent := [.send (.connection (.connected relayPeerId))]
    match config.bootstrapAddress.withP2p peer with
    | .error _ => some (.failed "could not construct relay multiaddr", sent)
    | .ok relayAddress =>
      some (.bootstrapped
        { relayPeerId, relayAddress, bootstrapAddress := config.bootstrapAddress, bootstrapPeerId := peer }, sent)
  | .reserving peer, .event _ => some (.reserving peer, [])
  | _, _ => none

end Startup

/-! ### The code and the connections -/

/-- The code, with the remote peers of the connections that were made by dialling the bootstrap address. -/
structure StartupSystem where
  code : Startup
  hubs : Finset PeerId

namespace StartupSystem

def start : StartupSystem := { code := .dialling 0, hubs := ∅ }

/-- The peer that dialling the bootstrap address has connected. -/
def connectedHub (config : BootstrapConfig) : StartupInput → Finset PeerId
  | .event (.connectionEstablished peer dialled) => if dialled = some config.bootstrapAddress then {peer} else ∅
  | _ => ∅

def Step (config : BootstrapConfig) (s : StartupSystem) (input : StartupInput) (s' : StartupSystem) : Prop :=
  ∃ effects, s.code.handle config input = some (s'.code, effects) ∧ s'.hubs = s.hubs ∪ connectedHub config input

/-- The peer that `dial_bootstrap` has returned was reached by dialling the bootstrap address; so was the one that is
handed to the actors, and the relay address names it. -/
def NamesHub (s : StartupSystem) : Prop :=
  match s.code with
  | .reserving peer => peer ∈ s.hubs
  | .bootstrapped result => result.bootstrapPeerId ∈ s.hubs ∧ lastP2p result.relayAddress = some result.bootstrapPeerId
  | _ => True

/-- A peer that identifies itself while the code waits for the hub was reached by dialling the bootstrap address. -/
def HubIdentifies (s : StartupSystem) (input : StartupInput) : Prop :=
  ∀ retries peer listenAddrs, s.code = .waiting retries →
    input = .event (.identifyReceived peer listenAddrs) → peer ∈ s.hubs

variable {config : BootstrapConfig} {s s' : StartupSystem} {input : StartupInput} {inputs : List StartupInput}

theorem Step.deterministic {s₁ s₂ : StartupSystem} (h₁ : Step config s input s₁)
    (h₂ : Step config s input s₂) : s₁ = s₂ := by
  obtain ⟨e₁, hcode₁, hhubs₁⟩ := h₁
  obtain ⟨e₂, hcode₂, hhubs₂⟩ := h₂
  rw [hcode₁, Option.some.injEq, Prod.mk.injEq] at hcode₂
  obtain ⟨code, hubs⟩ := s₁
  obtain ⟨rfl, -⟩ := hcode₂
  obtain rfl : hubs = _ := hhubs₁.trans hhubs₂.symm
  rfl

/-- No peer is taken for the hub yet, or none any more. -/
def NoHub (code : Startup) : Prop := (∀ peer, code ≠ .reserving peer) ∧ ∀ result, code ≠ .bootstrapped result

theorem noHub_retry (retries : Nat) (what : String) : NoHub (Startup.retry retries what).1 := by
  unfold Startup.retry
  split <;> exact ⟨by simp, by simp⟩

/-- What a step can do: the peer that identifies itself is taken for the hub, it is kept, it is handed over, or there is
none. -/
theorem Step.cases (h : Step config s input s') :
    (∃ retries peer listenAddrs, s.code = .waiting retries ∧ input = .event (.identifyReceived peer listenAddrs) ∧
      s'.code = .reserving peer ∧ s'.hubs = s.hubs) ∨
    (s.HubIdentifies input ∧
      ((∃ peer, s.code = .reserving peer ∧ s'.code = .reserving peer ∧ s.hubs ⊆ s'.hubs) ∨
      (∃ peer relayPeerId relayAddress, s.code = .reserving peer ∧ s.hubs ⊆ s'.hubs ∧
        config.bootstrapAddress.withP2p peer = .ok relayAddress ∧ s'.code = .bootstrapped
          { relayPeerId, relayAddress, bootstrapAddress := config.bootstrapAddress, bootstrapPeerId := peer }) ∨
      NoHub s'.code)) := by
  obtain ⟨code, hubs⟩ := s
  obtain ⟨code', hubs'⟩ := s'
  obtain ⟨effects, hcode, hhubs⟩ := h
  dsimp only at hcode hhubs ⊢
  subst hhubs
  have hkept : hubs ⊆ hubs ∪ connectedHub config input := Finset.subset_union_left
  cases code with
  | dialling retries =>
    cases input with
    | dialled submitted =>
      refine .inr ⟨by simp [HubIdentifies], .inr (.inr ?_)⟩
      cases submitted with
      | true =>
        obtain ⟨rfl, -⟩ := Prod.mk.inj (Option.some.inj hcode)
        exact ⟨by simp, by simp⟩
      | false =>
        obtain ⟨rfl, -⟩ := Prod.mk.inj (Option.some.inj hcode)
        -- the dial was refused
        exact noHub_retry retries "dial"
    | _ => cases hcode
  | waiting retries =>
    cases input with
    | event event =>
      cases event with
      | identifyReceived peer listenAddrs =>
        obtain ⟨rfl, -⟩ := Prod.mk.inj (Option.some.inj hcode)
        -- whoever identifies itself first is taken for the hub
        exact .inl ⟨retries, peer, listenAddrs, rfl, rfl, rfl, Finset.union_empty hubs⟩
      | _ =>
        obtain ⟨rfl, -⟩ := Prod.mk.inj (Option.some.inj hcode)
        exact .inr ⟨by simp [HubIdentifies], .inr (.inr ⟨by simp, by simp⟩)⟩
    | elapsed =>
      obtain ⟨rfl, -⟩ := Prod.mk.inj (Option.some.inj hcode)
      exact .inr ⟨by simp [HubIdentifies], .inr (.inr (noHub_retry retries "connect to"))⟩
    | _ => cases hcode
  | pausing retries =>
    cases input with
    | slept =>
      obtain ⟨rfl, -⟩ := Prod.mk.inj (Option.some.inj hcode)
      exact .inr ⟨by simp [HubIdentifies], .inr (.inr ⟨by simp, by simp⟩)⟩
    | _ => cases hcode
  | reserving peer =>
    cases input with
    | event event =>
      refine .inr ⟨by simp [HubIdentifies], ?_⟩
      cases event with
      | reservationReqAccepted relayPeerId =>
        -- the relay address is made from the peer that was kept
        cases hrelay : config.bootstrapAddress.withP2p peer with
        | error address =>
          simp only [Startup.handle, hrelay] at hcode
          obtain ⟨rfl, -⟩ := Prod.mk.inj (Option.some.inj hcode)
          exact .inr (.inr ⟨by simp, by simp⟩)
        | ok relayAddress =>
          simp only [Startup.handle, hrelay] at hcode
          obtain ⟨rfl, -⟩ := Prod.mk.inj (Option.some.inj hcode)
          exact .inr (.inl ⟨peer, relayPeerId, relayAddress, rfl, hkept, hrelay, rfl⟩)
      | _ =>
        obtain ⟨rfl, -⟩ := Prod.mk.inj (Option.some.inj hcode)
        exact .inl ⟨peer, rfl, rfl, hkept⟩
    | _ => cases hcode
  | bootstrapped result => cases hcode
  | failed message => cases hcode

theorem NoHub.namesHub (h : NoHub s.code) : s.NamesHub := by
  unfold NamesHub
  split
  · rename_i peer hcode
    exact absurd hcode (h.1 peer)
  · rename_i result hcode
    exact absurd hcode (h.2 result)
  · trivial

/-- A step goes on naming the hub iff nobody else identifies itself in it. -/
theorem Step.namesHub_iff (hs : s.NamesHub) (h : Step config s input s') : s'.NamesHub ↔ s.HubIdentifies input := by
  rcases h.cases with ⟨retries, peer, listenAddrs, hcode, rfl, hcode', hhubs⟩ | ⟨hidentifies, hrest⟩
  · unfold NamesHub
    rw [hcode', hhubs]
    constructor
    · intro hpeer retries' peer' listenAddrs' _ hinput
      cases hinput
      exact hpeer
    · exact fun hidentifies => hidentifies retries peer listenAddrs hcode rfl
  · refine iff_of_true ?_ hidentifies
    rcases hrest with ⟨peer, hcode, hcode', hhubs⟩ |
      ⟨peer, relayPeerId, relayAddress, hcode, hhubs, hrelay, hcode'⟩ | hnone
    · unfold NamesHub at hs ⊢
      rw [hcode] at hs
      rw [hcode']
      exact hhubs hs
    · unfold NamesHub at hs ⊢
      rw [hcode] at hs
      rw [hcode']
      exact ⟨hhubs hs, lastP2p_withP2p hrelay⟩
    · exact hnone.namesHub

/-- What is handed to the actors fits the bootstrap address. -/
theorem relayAddress_of_reaches (h : Reaches (Step config) start inputs s) :
    ∀ result, s.code = .bootstrapped result →
      config.bootstrapAddress.withP2p result.bootstrapPeerId = .ok result.relayAddress := by
  refine h.invariant (I := fun s => ∀ result, s.code = .bootstrapped result →
    config.bootstrapAddress.withP2p result.bootstrapPeerId = .ok result.relayAddress) ?_ (by simp [start])
  intro s input s' _ hstep result hresult
  rcases hstep.cases with ⟨retries, peer, listenAddrs, -, -, hcode', -⟩ | ⟨-, hrest⟩
  · rw [hcode'] at hresult
    cases hresult
  · rcases hrest with ⟨peer, -, hcode', -⟩ | ⟨peer, relayPeerId, relayAddress, -, -, hrelay, hcode'⟩ | hnone
    · rw [hcode'] at hresult
      cases hresult
    · rw [hcode', Startup.bootstrapped.injEq] at hresult
      subst hresult
      exact hrelay
    · exact absurd hresult (hnone.2 result)

/-- In a run the peer that is taken for the hub is one that was reached by dialling the bootstrap address, iff no other
peer identifies itself while the code waits for the hub.  If the address ends in a peer, nobody else is handed to the
actors. -/
theorem bootstrap_hub_iff (h : Reaches (Step config) start inputs s) :
    (Always (Step config) NamesHub start inputs ↔ Reaches (guarded (Step config) HubIdentifies) start inputs s) ∧
      ∀ hub result, config.bootstrapAddress.getLast? = some (.p2p hub) → s.code = .bootstrapped result →
        result.bootstrapPeerId = hub := by
  refine ⟨?_, fun hub result hhub hresult => ?_⟩
  · exact always_iff (J := fun _ => True) (fun _ _ _ _ => Step.deterministic) (fun _ _ _ _ _ _ => trivial)
      (fun _ _ _ _ hs hstep => hstep.namesHub_iff hs) trivial trivial h
  · have hrelay := relayAddress_of_reaches h result hresult
    unfold Multiaddr.withP2p at hrelay
    rw [hhub] at hrelay
    by_contra hne
    simp [Ne.symm hne] at hrelay

/-! ### An inbound peer -/

section Fixture

private def hubConfig : BootstrapConfig := { bootstrapAddress := [.other 53 [104, 117, 98]], localPeerId := ⟨[0]⟩ }

private def hubFirst : List StartupInput :=
  [.dialled true, .event (.connectionEstablished ⟨[9]⟩ none),
    .event (.connectionEstablished ⟨[1]⟩ (some [.other 53 [104, 117, 98]])), .event (.identifyReceived ⟨[1]⟩ [])]

private def guestFirst : List StartupInput :=
  [.dialled true, .event (.connectionEstablished ⟨[9]⟩ none), .event (.identifyReceived ⟨[9]⟩ []),
    .event (.reservationReqAccepted ⟨[1]⟩)]

private theorem step_of_handle {r : Startup × List StartupEffect} (h : s.code.handle config input = some r) :
    Step config s input { code := r.1, hubs := s.hubs ∪ connectedHub config input } := ⟨r.2, h, rfl⟩

theorem bootstrap_hub_iff_first : Always (Step hubConfig) NamesHub start hubFirst := by
  have hrun : Reaches (Step hubConfig) start hubFirst _ :=
    .cons (step_of_handle rfl)
      (.cons (step_of_handle rfl) (.cons (step_of_handle rfl) (.cons (step_of_handle rfl) (.nil _))))
  refine (bootstrap_hub_iff hrun).1.2 ?_
  refine .cons ⟨step_of_handle rfl, by simp [HubIdentifies]⟩ (.cons ⟨step_of_handle rfl, by simp [HubIdentifies]⟩
    (.cons ⟨step_of_handle rfl, by simp [HubIdentifies]⟩ (.cons ⟨step_of_handle rfl, ?_⟩ (.nil _))))
  intro retries peer listenAddrs _ hinput
  cases hinput
  decide

/-- A peer that has connected by itself and identifies itself first is handed to the actors as the hub. -/
theorem guest_taken_for_hub :
    ¬ ∀ (config : BootstrapConfig) inputs s, Reaches (Step config) start inputs s →
      Always (Step config) NamesHub start inputs := by
  intro h
  have hrun : Reaches (Step hubConfig) start guestFirst _ :=
    .cons (step_of_handle rfl)
      (.cons (step_of_handle rfl) (.cons (step_of_handle rfl) (.cons (step_of_handle rfl) (.nil _))))
  obtain ⟨hhub, -⟩ := (h hubConfig guestFirst _ hrun).last hrun
  revert hhub
  decide

end Fixture

end StartupSystem

end P2Proxy
