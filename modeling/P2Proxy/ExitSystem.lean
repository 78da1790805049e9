import P2Proxy.Links
import P2Proxy.PortView
import P2Proxy.Interaction.Once
import P2Proxy.Interaction.Threads

/-!
# The discovery actor beside the network actor

The discovery actor handles one message after the other.  For a dial or a check it sends the network actor a command
with a reply channel and waits; meanwhile connections open and close, ticks pass and other messages arrive.  Seen from
the outside each message is handled in one step of `DiscoveryActor.Step` all the same, and the network actor is an
honest dialer: it names only peers to which one of the dialled addresses leads, and which were connected
(`discovery_refined`).  Once the network actor is shut down nothing more is said of the connections: `opened` stays as
it was.
-/

namespace P2Proxy

open Interaction

/-- What the network actor sends on a reply channel. -/
inductive NetworkReply
  | dialled (peer : Option PeerId)
  | connected (connected : Bool)

/-- The channel on which a command is answered. -/
def NetworkInput.channel? : NetworkInput → Option ReplyChannel
  | .dial _ reply | .isConnected _ reply => some reply
  | .swarm _ | .expireDials | .retryBootstrap | .shutdown => none

/-- What is sent on which reply channel. -/
def NetworkEffect.reply? : NetworkEffect → Option (ReplyChannel × NetworkReply)
  | .sendDialled reply peer => some (reply, .dialled peer)
  | .sendConnected reply connected => some (reply, .connected connected)
  | .dial _ | .disconnectPeer _ | .emit _ | .spawnPeerConnected _ _ _ | .spawnPeerClosed _ => none

/-- The command by which the gateway has a call answered; the addresses are listed as their set is iterated. -/
def Call.Commands (q : Call) (r : ReplyChannel) : NetworkInput → Prop
  | .dial addresses channel => q = .dialAndWait addresses.toFinset ∧ addresses.Nodup ∧ channel = r
  | .isConnected peer channel => q = .isConnected peer ∧ channel = r
  | .swarm _ | .expireDials | .retryBootstrap | .shutdown => False

/-- A message that is being handled. -/
structure Handling (S : Type) where
  event : DiscoveryEvent
  /-- what has passed so far -/
  past : List Io
  /-- what the actor goes on with -/
  next : Prog Call Call.Answer (Unit × DiscoveryActor S)
  /-- the channel on which it waits for a reply -/
  awaits : Option ReplyChannel

structure ExitSystem (S : Type) where
  network : NetworkActor
  /-- the network actor has not been shut down -/
  running : Bool
  opened : List Connection
  /-- the commands on their way to the network actor -/
  commands : List NetworkInput
  /-- the replies that have been sent -/
  replies : ReplyChannel → Option NetworkReply
  /-- the number of reply channels so far -/
  channels : Nat
  /-- the discovery actor before the message that is being handled -/
  discovery : DiscoveryActor S
  inbox : List DiscoveryEvent
  handling : Option (Handling S)

namespace ExitSystem

inductive Label
  /-- the network actor handles something else than a command, after which `opened` are the open connections -/
  | network (swarm : Swarm) (input : NetworkInput) (opened : List Connection)
  | serves (swarm : Swarm) (command : NetworkInput)
  /-- somebody else sends the discovery actor a message -/
  | sends (event : DiscoveryEvent)
  /-- the discovery actor takes the message at the index -/
  | takes (index : Nat)
  | commands (command : NetworkInput)
  /-- a call of the discovery actor is answered -/
  | hears (e : Io)
  | finishes

/-- `p` has an open connection. -/
def Connected (opened : List Connection) (p : PeerId) : Prop := p ∈ opened.map (·.peer)

/-- What the swarm says about its connections is true. -/
def Reads (opened : List Connection) (w : Swarm) : Prop :=
  (∀ p, w.isConnected p = true ↔ Connected opened p) ∧ ∀ p, p ∈ w.connectedPeers ↔ Connected opened p

variable {S : Type}

def init (opened : List Connection) (sticky : S) (destinations : Destinations) : ExitSystem S where
  network := .new
  running := true
  opened
  commands := []
  replies _ := none
  channels := 0
  discovery := .new sticky destinations
  inbox := []
  handling := none

/-- The replies after an effect. -/
def deliver (replies : ReplyChannel → Option NetworkReply) (e : NetworkEffect) : ReplyChannel → Option NetworkReply :=
  match e.reply? with
  | some (r, x) => Function.update replies r (some x)
  | none => replies

def afterInput (ctx : Context) (s : ExitSystem S) (w : Swarm) (input : NetworkInput) (opened : List Connection) :
    ExitSystem S :=
  let r := s.network.handle ctx w input
  { s with
    network := r.1
    running := match input with
      | .shutdown => false
      | _ => s.running
    opened
    replies := r.2.foldl deliver s.replies
    inbox := s.inbox ++ (LinkSystem.notices opened r.2).map (·.event) }

/-- What has come for the discovery actor on the channel on which it waits. -/
def reply? (s : ExitSystem S) (h : Handling S) : Option NetworkReply := h.awaits.bind s.replies

/-- The call can be answered so.  Once the network actor has stopped, dials fail and nobody counts as connected; what
the dialer is not asked for has any answer. -/
def Answers (s : ExitSystem S) (h : Handling S) : Io → Prop
  | ⟨.dialAndWait _, .ok peer⟩ => s.reply? h = some (.dialled peer)
  | ⟨.dialAndWait _, .error e⟩ => e = .shutdown ∧ s.running = false
  | ⟨.isConnected _, connected⟩ =>
    s.reply? h = some (.connected connected) ∨ connected = false ∧ s.running = false
  | _ => True

def Step [StickyStore S] (ctx : Context) (s : ExitSystem S) : Label → ExitSystem S → Prop
  | .network w input opened, s' => s.running = true ∧ input.channel? = none ∧ Reads s.opened w ∧
      LinkSystem.OpenAfter s.opened input opened ∧ s' = s.afterInput ctx w input opened
  | .serves w command, s' => ∃ rest, s.running = true ∧ s.commands = command :: rest ∧ Reads s.opened w ∧
      s' = { s with commands := rest }.afterInput ctx w command s.opened
  | .sends event, s' => event.linkPeer = none ∧ s' = { s with inbox := s.inbox ++ [event] }
  | .takes i, s' => ∃ before event after, s.handling = none ∧ s.inbox = before ++ event :: after ∧ before.length = i ∧
      s' = { s with
        inbox := before ++ after
        handling := some
          { event, past := [], next := DiscoveryActor.handle ctx event s.discovery, awaits := none } }
  | .commands command, s' => ∃ h q k, s.handling = some h ∧ h.next = .ask q k ∧ h.awaits = none ∧
      q.Commands s.channels command ∧ s' = { s with
        commands := s.commands ++ [command]
        channels := s.channels + 1
        handling := some { h with awaits := some s.channels } }
  | .hears e, s' => ∃ h k, s.handling = some h ∧ h.next = .ask e.call k ∧ s.Answers h e ∧ s' = { s with
      handling := some { h with past := h.past ++ [e], next := k e.answer, awaits := none } }
  | .finishes, s' => ∃ h a, s.handling = some h ∧ h.next = .pure ((), a) ∧
      s' = { s with discovery := a, handling := none }

end ExitSystem

/-! ### What the network actor replies -/

namespace NetworkActor

variable {ctx : Context} {a : NetworkActor} {w : Swarm} {input : NetworkInput} {r : ReplyChannel} {x : NetworkReply}
  {e : NetworkEffect}

/-- Why the actor sends `x` on the channel `r`. -/
inductive Replies (a : NetworkActor) (w : Swarm) (input : NetworkInput) : ReplyChannel → NetworkReply → Prop
  | connected {d : PendingDial} {p : PeerId} {address : Multiaddr} {relayed : Bool}
      (hinput : input = .swarm (.connectionEstablished p address relayed)) (hd : d ∈ a.pendingDials)
      (hp : p ∈ d.candidates) :
      Replies a w input d.reply (.dialled (some p))
  | expired {d : PendingDial} (hinput : input.channel? = none) (hd : d ∈ a.pendingDials) :
      Replies a w input d.reply (.dialled none)
  | nobody {addresses : List Multiaddr} {r : ReplyChannel} (hinput : input = .dial addresses r) :
      Replies a w input r (.dialled none)
  | checked {p : PeerId} {r : ReplyChannel} (hinput : input = .isConnected p r) :
      Replies a w input r (.connected (w.isConnected p))

private theorem mem_settleDials {done : PendingDial → Bool} {peer : Option PeerId}
    (h : e ∈ (a.settleDials done peer).2) : ∃ d ∈ a.pendingDials, done d = true ∧ e = .sendDialled d.reply peer := by
  obtain ⟨d, hd, rfl⟩ := List.mem_map.1 h
  obtain ⟨hmem, hdone⟩ := List.mem_filter.1 ((sweepAll_removed_perm done a.pendingDials).mem_iff.1 hd)
  exact ⟨d, hmem, hdone, rfl⟩

theorem replies_handle (h : e ∈ (a.handle ctx w input).2) (he : e.reply? = some (r, x)) : Replies a w input r x := by
  cases input with
  | dial addresses reply =>
    simp only [handle, handleDial] at h
    split at h
    · obtain rfl := List.mem_singleton.1 h
      cases he
      exact .nobody rfl
    · obtain ⟨address, -, rfl⟩ := List.mem_map.1 h
      cases he
  | isConnected peer reply =>
    obtain rfl := List.mem_singleton.1 h
    cases he
    exact .checked rfl
  | swarm event =>
    cases event with
    | connectionEstablished peer address relayed =>
      simp only [handle, handleSwarmEvent, List.append_assoc] at h
      rcases List.mem_append.1 h with hsettled | hreport
      · obtain ⟨d, hd, hp, rfl⟩ := mem_settleDials hsettled
        cases he
        exact .connected rfl hd (of_decide_eq_true hp)
      · have hquiet :
            ∀ e ∈ [NetworkEffect.emit (.connection (.connected peer)), .emit (.peerRoute peer address relayed)] ++
            if decide (peer = ctx.bootstrapPeerId) then [] else [.spawnPeerConnected peer address relayed],
            e.reply? = none := by
          split <;> simp [NetworkEffect.reply?]
        rw [hquiet e hreport] at he
        cases he
    | connectionClosed peer =>
      have hquiet : ∀ e ∈ [NetworkEffect.emit (.connection (.disconnected peer)), .spawnPeerClosed peer],
          e.reply? = none := by simp [NetworkEffect.reply?]
      rw [hquiet e h] at he
      cases he
    | outgoingConnectionError peer => cases h
    | pingFailed peer =>
      simp only [handle, handleSwarmEvent] at h
      split at h
      · cases h
      · obtain rfl := List.mem_singleton.1 h
        cases he
    | pingSucceeded peer => cases h
  | expireDials =>
    obtain ⟨d, hd, -, rfl⟩ := mem_settleDials h
    cases he
    exact .expired rfl hd
  | retryBootstrap =>
    simp only [handle, tryDialBootstrap] at h
    split at h
    · cases h
    · obtain rfl := List.mem_singleton.1 h
      cases he
  | shutdown =>
    obtain ⟨peer, -, rfl⟩ := List.mem_map.1 h
    cases he

private theorem mem_pendingDials_of_sweep {done : PendingDial → Bool} {d : PendingDial}
    (h : d ∈ (sweepAll done a.pendingDials).2) : d ∈ a.pendingDials :=
  List.mem_of_mem_filter ((sweepAll_left_perm done a.pendingDials).mem_iff.1 h)

/-- A pending dial was pending before, or it is the one that was commanded. -/
theorem pendingDials_handle {d : PendingDial} (h : d ∈ (a.handle ctx w input).1.pendingDials) :
    d ∈ a.pendingDials ∨
      ∃ addresses, input = .dial addresses d.reply ∧ d.candidates = destinationPeerIds addresses.toFinset := by
  cases input with
  | dial addresses reply =>
    simp only [handle, handleDial] at h
    split at h
    · exact .inl h
    · rcases List.mem_append.1 h with hd | hd
      · exact .inl hd
      · obtain rfl := List.mem_singleton.1 hd
        exact .inr ⟨addresses, rfl, rfl⟩
  | isConnected peer reply => exact .inl h
  | swarm event =>
    cases event with
    | connectionEstablished peer address relayed => exact .inl (mem_pendingDials_of_sweep h)
    | pingFailed peer =>
      simp only [handle, handleSwarmEvent] at h
      split at h <;> exact .inl h
    | _ => exact .inl h
  | expireDials => exact .inl (mem_pendingDials_of_sweep h)
  | retryBootstrap =>
    simp only [handle, tryDialBootstrap] at h
    split at h <;> exact .inl h
  | shutdown => exact .inl h

end NetworkActor

/-! ### What is on its way for a call -/

namespace ExitSystem

/-- The reply is one to the call, and a peer that it names is one that was dialled. -/
def Fits (q : Call) : NetworkReply → Prop
  | .dialled (some p) => ∃ addresses, q = .dialAndWait addresses ∧ p ∈ destinationPeerIds addresses
  | .dialled none => True
  | .connected _ => ∃ p, q = .isConnected p

/-- The peer that the reply to the call names as connected. -/
def named (q : Call) : NetworkReply → Option PeerId
  | .dialled peer => peer
  | .connected connected =>
    match connected, q with
    | true, .isConnected p => some p
    | _, _ => none

section About

variable {S : Type} {ctx : Context} {s : ExitSystem S} {q : Call} {r : ReplyChannel} {w : Swarm} {input : NetworkInput}
  {opened : List Connection} {x : NetworkReply} {p : PeerId}

/-- All that is on its way on the channel `r` is about the call `q`. -/
structure About (s : ExitSystem S) (q : Call) (r : ReplyChannel) : Prop where
  commands : ∀ command ∈ s.commands, command.channel? = some r → q.Commands r command
  pending : ∀ d ∈ s.network.pendingDials, d.reply = r →
    ∃ addresses, q = .dialAndWait addresses ∧ d.candidates = destinationPeerIds addresses
  replies : ∀ x, s.replies r = some x → Fits q x

/-- A message that is being handled is handled as the actor handles messages. -/
structure Follows [StickyStore S] (ctx : Context) (s : ExitSystem S) (h : Handling S) : Prop where
  after : (DiscoveryActor.handle ctx h.event s.discovery).After h.past h.next
  honest : ∀ e ∈ h.past, Io.DialHonest e
  awaits : ∀ r ∈ h.awaits, ∃ q k, h.next = .ask q k ∧ About s q r

/-- Commands, dials and replies are on channels that were given out, and what the discovery actor waits for is about the
call that it makes. -/
structure Orderly [StickyStore S] (ctx : Context) (s : ExitSystem S) : Prop where
  commands : ∀ command ∈ s.commands, ∃ r, command.channel? = some r ∧ r < s.channels
  pending : ∀ d ∈ s.network.pendingDials, d.reply < s.channels
  replies : ∀ r x, s.replies r = some x → r < s.channels
  handling : ∀ h ∈ s.handling, Follows ctx s h

theorem orderly_init [StickyStore S] {sticky : S} {destinations : Destinations} :
    (init opened sticky destinations).Orderly ctx where
  commands := by simp [init]
  pending := by simp [init, NetworkActor.new]
  replies := by simp [init]
  handling := by simp [init]

theorem channel?_of_commands {command : NetworkInput} (h : q.Commands r command) : command.channel? = some r := by
  cases command with
  | dial addresses channel =>
    obtain ⟨-, -, rfl⟩ := h
    rfl
  | isConnected peer channel =>
    obtain ⟨-, rfl⟩ := h
    rfl
  | _ => cases h

private theorem foldl_deliver {effects : List NetworkEffect} {replies : ReplyChannel → Option NetworkReply}
    (h : effects.foldl deliver replies r = some x) : replies r = some x ∨ ∃ e ∈ effects, e.reply? = some (r, x) := by
  induction effects generalizing replies with
  | nil => exact .inl h
  | cons e effects ih =>
    rcases ih h with hbefore | ⟨e', he', hr⟩
    · cases he : e.reply? with
      | none =>
        rw [deliver, he] at hbefore
        exact .inl hbefore
      | some sent =>
        rw [deliver, he] at hbefore
        dsimp only at hbefore
        by_cases heq : r = sent.1
        · subst heq
          rw [Function.update_self, Option.some.injEq] at hbefore
          exact .inr ⟨e, List.mem_cons_self .., hbefore ▸ he⟩
        · rw [Function.update_of_ne heq] at hbefore
          exact .inl hbefore
    · exact .inr ⟨e', List.mem_cons_of_mem _ he', hr⟩

/-- A reply was there before, or the network actor has a reason for it. -/
theorem replies_afterInput (h : (s.afterInput ctx w input opened).replies r = some x) :
    s.replies r = some x ∨ NetworkActor.Replies s.network w input r x := by
  rcases foldl_deliver h with hbefore | ⟨e, he, hr⟩
  · exact .inl hbefore
  · exact .inr (NetworkActor.replies_handle he hr)

/-- The network actor replies to the call that was made. -/
theorem About.fits (h : About s q r) (hinput : input.channel? = some r → q.Commands r input)
    (hr : NetworkActor.Replies s.network w input r x) : Fits q x := by
  cases hr with
  | connected _ hd hp =>
    obtain ⟨addresses, hq, hcandidates⟩ := h.pending _ hd rfl
    exact ⟨addresses, hq, hcandidates ▸ hp⟩
  | expired _ _ => trivial
  | nobody _ => trivial
  | checked hchecked =>
    subst hchecked
    exact ⟨_, (hinput rfl).1⟩

theorem About.afterInput (h : About s q r) (hinput : input.channel? = some r → q.Commands r input) :
    About (s.afterInput ctx w input opened) q r where
  commands := h.commands
  pending d hd hr := by
    rcases NetworkActor.pendingDials_handle hd with hbefore | ⟨addresses, rfl, hcandidates⟩
    · exact h.pending d hbefore hr
    · exact ⟨_, (hinput (congrArg some hr)).1, hcandidates⟩
  replies x hx := (replies_afterInput hx).elim (h.replies x) (h.fits hinput)

end About

variable {S : Type} [StickyStore S] {ctx : Context} {s s' : ExitSystem S} {l : Label} {ls : List Label} {w : Swarm}
  {input : NetworkInput} {opened : List Connection} {p : PeerId}

/-- An input that is no command, or one that was on its way, leaves things in order. -/
private theorem Orderly.afterInput (hs : s.Orderly ctx) (hinput : ∀ r, input.channel? = some r → r < s.channels ∧
      ∀ h ∈ s.handling, r ∈ h.awaits → ∀ q k, h.next = .ask q k → q.Commands r input) :
    (s.afterInput ctx w input opened).Orderly ctx where
  commands := hs.commands
  pending d hd := by
    rcases NetworkActor.pendingDials_handle hd with hbefore | ⟨addresses, rfl, -⟩
    · exact hs.pending d hbefore
    · exact (hinput d.reply rfl).1
  replies r x hx := by
    rcases replies_afterInput hx with hbefore | hr
    · exact hs.replies r x hbefore
    · cases hr with
      | connected _ hd _ => exact hs.pending _ hd
      | expired _ hd => exact hs.pending _ hd
      | nobody hnobody => exact (hinput r (by rw [hnobody]; rfl)).1
      | checked hchecked => exact (hinput r (by rw [hchecked]; rfl)).1
  handling h hh :=
    { after := (hs.handling h hh).after
      honest := (hs.handling h hh).honest
      awaits := by
        intro r hr
        obtain ⟨q, k, hnext, habout⟩ := (hs.handling h hh).awaits r hr
        exact ⟨q, k, hnext, habout.afterInput fun hc => (hinput r hc).2 h hh hr q k hnext⟩ }

/-- The channel of a command that is served is the one on which its caller waits. -/
private theorem Orderly.serves {command : NetworkInput} {rest : List NetworkInput} (hs : s.Orderly ctx)
    (hcommands : s.commands = command :: rest) :
    ({ s with commands := rest } : ExitSystem S).Orderly ctx ∧ ∀ r, command.channel? = some r → r < s.channels ∧
      ∀ h ∈ s.handling, r ∈ h.awaits → ∀ q k, h.next = .ask q k → q.Commands r command := by
  have hmem : ∀ c ∈ rest, c ∈ s.commands := fun c hc => hcommands ▸ List.mem_cons_of_mem _ hc
  have hfirst : command ∈ s.commands := hcommands ▸ List.mem_cons_self ..
  refine ⟨⟨fun c hc => hs.commands c (hmem c hc), hs.pending, hs.replies, fun h hh => ?_⟩, fun r hr => ⟨?_, ?_⟩⟩
  · obtain ⟨hafter, hhonest, hawaits⟩ := hs.handling h hh
    refine ⟨hafter, hhonest, fun r hr => ?_⟩
    obtain ⟨q, k, hnext, habout⟩ := hawaits r hr
    exact ⟨q, k, hnext, fun c hc => habout.commands c (hmem c hc), habout.pending, habout.replies⟩
  · obtain ⟨r', hr', hlt⟩ := hs.commands command hfirst
    obtain rfl := Option.some.inj (hr.symm.trans hr')
    exact hlt
  · intro h hh hawaits q k hnext
    obtain ⟨q', k', hnext', habout⟩ := (hs.handling h hh).awaits r hawaits
    rw [hnext] at hnext'
    cases hnext'
    exact habout.commands command hfirst hr

/-- An answer to a dial names one of the peers that were dialled. -/
private theorem Follows.honest_answer {h : Handling S} {e : Io} {k : e.call.Answer → Prog Call Call.Answer _}
    (hf : Follows ctx s h) (hnext : h.next = .ask e.call k) (ha : s.Answers h e) : Io.DialHonest e := by
  obtain ⟨q, x⟩ := e
  cases q with
  | dialAndWait addresses =>
    rcases x with _ | _ | p
    · trivial
    · trivial
    · obtain ⟨r, hr, hreply⟩ := Option.bind_eq_some_iff.1 (show s.reply? h = some (.dialled (some p)) from ha)
      obtain ⟨q, k', hnext', habout⟩ := hf.awaits r hr
      rw [hnext] at hnext'
      cases hnext'
      obtain ⟨addresses', hq, hp⟩ := habout.replies _ hreply
      cases hq
      exact hp
  | _ => trivial

theorem Step.orderly (hs : s.Orderly ctx) (h : Step ctx s l s') : s'.Orderly ctx := by
  cases l with
  | network w input opened =>
    obtain ⟨-, hchannel, -, -, rfl⟩ := h
    exact hs.afterInput fun r hr => by rw [hchannel] at hr; cases hr
  | serves w command =>
    obtain ⟨rest, -, hcommands, -, rfl⟩ := h
    obtain ⟨hrest, hcommand⟩ := hs.serves hcommands
    exact hrest.afterInput hcommand
  | sends event =>
    obtain ⟨-, rfl⟩ := h
    refine ⟨hs.commands, hs.pending, hs.replies, fun h hh => ?_⟩
    obtain ⟨hafter, hhonest, hawaits⟩ := hs.handling h hh
    refine ⟨hafter, hhonest, fun r hr => ?_⟩
    obtain ⟨q, k, hnext, habout⟩ := hawaits r hr
    exact ⟨q, k, hnext, habout.commands, habout.pending, habout.replies⟩
  | takes i =>
    obtain ⟨before, event, after, -, -, -, rfl⟩ := h
    refine ⟨hs.commands, hs.pending, hs.replies, fun h hh => ?_⟩
    obtain rfl := Option.some.inj hh
    exact ⟨.start, by simp, by simp⟩
  | commands command =>
    obtain ⟨h, q, k, hh, hnext, -, hq, rfl⟩ := h
    refine ⟨fun c hc => ?_, fun d hd => (hs.pending d hd).trans (Nat.lt_succ_self _),
      fun r x hx => (hs.replies r x hx).trans (Nat.lt_succ_self _), fun h' hh' => ?_⟩
    · rcases List.mem_append.1 hc with hc | hc
      · obtain ⟨r, hr, hlt⟩ := hs.commands c hc
        exact ⟨r, hr, hlt.trans (Nat.lt_succ_self _)⟩
      · obtain rfl := List.mem_singleton.1 hc
        exact ⟨s.channels, channel?_of_commands hq, Nat.lt_succ_self _⟩
    · obtain rfl := Option.some.inj hh'
      refine ⟨(hs.handling h hh).after, (hs.handling h hh).honest, fun r hr => ?_⟩
      obtain rfl := Option.some.inj hr
      -- nothing has been on the new channel yet
      refine ⟨q, k, hnext, fun c hc hchannel => ?_, fun d hd hreply => ?_, fun x hx => ?_⟩
      · rcases List.mem_append.1 hc with hc | hc
        · obtain ⟨r, hr, hlt⟩ := hs.commands c hc
          rw [hchannel] at hr
          cases hr
          exact absurd hlt (lt_irrefl _)
        · obtain rfl := List.mem_singleton.1 hc
          exact hq
      · exact absurd (hreply ▸ hs.pending d hd) (lt_irrefl _)
      · exact absurd (hs.replies _ x hx) (lt_irrefl _)
  | hears e =>
    obtain ⟨h, k, hh, hnext, hanswers, rfl⟩ := h
    refine ⟨hs.commands, hs.pending, hs.replies, fun h' hh' => ?_⟩
    obtain rfl := Option.some.inj hh'
    have hfollows := hs.handling h hh
    have hafter := hfollows.after
    rw [hnext] at hafter
    refine ⟨hafter.answered e.answer, fun e' he' => ?_, by simp⟩
    rcases List.mem_append.1 he' with he' | he'
    · exact hfollows.honest e' he'
    · rw [List.mem_singleton.1 he']
      exact hfollows.honest_answer hnext hanswers
  | finishes =>
    obtain ⟨h, a, -, -, rfl⟩ := h
    exact ⟨hs.commands, hs.pending, hs.replies, by simp⟩

/-! ### Who is taken for connected -/

/-- The message says that `p` has connected. -/
def Connects (p : PeerId) : DiscoveryEvent → Prop
  | .peerConnected peer _ _ => peer = p
  | _ => False

/-- In the handling of a message `p` is taken for connected, by the message or by what the dialer has answered. -/
inductive Considers (s : ExitSystem S) (p : PeerId) : Prop
  | handled {h : Handling S} (hh : s.handling = some h) (hp : Connects p h.event)
  | named {h : Handling S} (hh : s.handling = some h) (hp : p ∈ namedPeers h.past)
  | replied {h : Handling S} {q : Call} {k : q.Answer → Prog Call Call.Answer (Unit × DiscoveryActor S)}
      {x : NetworkReply} (hh : s.handling = some h) (hnext : h.next = .ask q k) (hx : s.reply? h = some x)
      (hp : ExitSystem.named q x = some p)

/-- `p` is taken for connected, now or when a message is handled. -/
def Presented (s : ExitSystem S) (p : PeerId) : Prop := (∃ event ∈ s.inbox, Connects p event) ∨ s.Considers p

omit [StickyStore S] in
/-- Whoever a reply names is connected once it is sent. -/
private theorem connected_of_replies {q : Call} {r : ReplyChannel} {x : NetworkReply}
    (hinput : input.channel? = some r → q.Commands r input) (hreads : Reads s.opened w)
    (hopened : LinkSystem.OpenAfter s.opened input opened) (hr : NetworkActor.Replies s.network w input r x)
    (hp : named q x = some p) : Connected opened p := by
  cases hr with
  | connected hconnects _ _ =>
    cases hp
    subst hconnects
    obtain rfl := hopened
    exact List.mem_cons_self ..
  | expired _ _ => cases hp
  | nobody _ => cases hp
  | checked hchecked =>
    subst hchecked
    obtain ⟨rfl, -⟩ := hinput rfl
    obtain rfl := hopened
    cases hconnected : w.isConnected _ with
    | true =>
      rw [hconnected] at hp
      cases hp
      exact (hreads.1 _).1 hconnected
    | false =>
      rw [hconnected] at hp
      cases hp

/-- Only a connection that opens is announced. -/
private theorem connected_of_notice {a : NetworkActor} {before : List Connection} {event : DiscoveryEvent}
    (hopened : LinkSystem.OpenAfter before input opened)
    (h : event ∈ (LinkSystem.notices opened (a.handle ctx w input).2).map (·.event)) (hp : Connects p event) :
    Connected opened p := by
  obtain ⟨n, hn, rfl⟩ := List.mem_map.1 h
  rw [LinkSystem.notices_handle] at hn
  cases input with
  | swarm event =>
    cases event with
    | connectionEstablished peer address relayed =>
      dsimp only at hn
      split at hn
      · cases hn
      · obtain rfl := List.mem_singleton.1 hn
        obtain rfl : peer = p := hp
        obtain rfl := hopened
        exact List.mem_cons_self ..
    | connectionClosed peer =>
      obtain rfl := List.mem_singleton.1 hn
      cases hp
    | _ => cases hn
  | _ => cases hn

omit [StickyStore S] in
private theorem considers_afterInput (hinput : ∀ r, input.channel? = some r →
      ∀ h ∈ s.handling, r ∈ h.awaits → ∀ q k, h.next = .ask q k → q.Commands r input)
    (hreads : Reads s.opened w) (hopened : LinkSystem.OpenAfter s.opened input opened)
    (hp : (s.afterInput ctx w input opened).Considers p) : s.Considers p ∨ Connected opened p := by
  cases hp with
  | handled hh hp => exact .inl (.handled hh hp)
  | named hh hp => exact .inl (.named hh hp)
  | @replied h q k x hh hnext hx hp =>
    obtain ⟨r, hr, hreply⟩ := Option.bind_eq_some_iff.1 hx
    rcases replies_afterInput hreply with hbefore | hreplies
    · exact .inl (.replied hh hnext (Option.bind_eq_some_iff.2 ⟨r, hr, hbefore⟩) hp)
    · exact .inr (connected_of_replies (fun hc => hinput r hc h hh hr q k hnext) hreads hopened hreplies hp)

/-- A command leaves the connections as they are. -/
theorem openAfter_of_channel {r : ReplyChannel} (h : input.channel? = some r) :
    LinkSystem.OpenAfter opened input opened := by
  cases input with
  | swarm event => cases h
  | _ => rfl

omit [StickyStore S] in
/-- A message that has just been taken is all that is known. -/
theorem considers_taken {event : DiscoveryEvent} {inbox : List DiscoveryEvent}
    {next : Prog Call Call.Answer (Unit × DiscoveryActor S)}
    (hp : ({ s with inbox, handling := some { event, past := [], next, awaits := none } } : ExitSystem S).Considers p) :
    Connects p event := by
  cases hp with
  | handled hh hp =>
    obtain rfl := Option.some.inj hh
    exact hp
  | named hh hp =>
    obtain rfl := Option.some.inj hh
    cases hp
  | replied hh _ hx _ =>
    obtain rfl := Option.some.inj hh
    cases hx

/-- Whoever is taken for connected in a handling that goes on was so before, or is connected. -/
theorem Step.considers (hs : s.Orderly ctx) (h : Step ctx s l s') (hl : ∀ i, l ≠ .takes i) (hp : s'.Considers p) :
    s.Considers p ∨ Connected s'.opened p := by
  cases l with
  | network w input opened =>
    obtain ⟨-, hchannel, hreads, hopened, rfl⟩ := h
    exact considers_afterInput (fun r hr => by rw [hchannel] at hr; cases hr) hreads hopened hp
  | serves w command =>
    obtain ⟨rest, -, hcommands, hreads, rfl⟩ := h
    obtain ⟨-, hcommand⟩ := hs.serves hcommands
    obtain ⟨r, hr, -⟩ := hs.commands command (hcommands ▸ List.mem_cons_self ..)
    have hconsiders := considers_afterInput (s := { s with commands := rest }) (fun r hr => (hcommand r hr).2) hreads
      (openAfter_of_channel hr) hp
    refine hconsiders.imp_left fun hp => ?_
    cases hp with
    | handled hh hp => exact .handled hh hp
    | named hh hp => exact .named hh hp
    | replied hh hnext hx hp => exact .replied hh hnext hx hp
  | sends event =>
    obtain ⟨-, rfl⟩ := h
    cases hp with
    | handled hh hp => exact .inl (.handled hh hp)
    | named hh hp => exact .inl (.named hh hp)
    | replied hh hnext hx hp => exact .inl (.replied hh hnext hx hp)
  | takes i => exact absurd rfl (hl i)
  | commands command =>
    obtain ⟨h, q, k, hh, hnext, -, -, rfl⟩ := h
    cases hp with
    | handled hh' hp =>
      obtain rfl := Option.some.inj hh'
      exact .inl (.handled hh hp)
    | named hh' hp =>
      obtain rfl := Option.some.inj hh'
      exact .inl (.named hh hp)
    | replied hh' _ hx _ =>
      obtain rfl := Option.some.inj hh'
      exact absurd (hs.replies _ _ hx) (lt_irrefl _)
  | hears e =>
    obtain ⟨h, k, hh, hnext, hanswers, rfl⟩ := h
    cases hp with
    | handled hh' hp =>
      obtain rfl := Option.some.inj hh'
      exact .inl (.handled hh hp)
    | named hh' hp =>
      obtain rfl := Option.some.inj hh'
      rw [namedPeers_append] at hp
      rcases List.mem_append.1 hp with hp | hp
      · exact .inl (.named hh hp)
      · obtain ⟨e', he', hnamed⟩ := mem_namedPeers.1 hp
        rw [List.mem_singleton.1 he'] at hnamed
        -- the answer is what has come on the channel
        obtain ⟨q, x⟩ := e
        cases q with
        | dialAndWait addresses =>
          rcases x with _ | _ | y
          · cases hnamed
          · cases hnamed
          · exact .inl (.replied hh hnext hanswers hnamed)
        | isConnected peer =>
          cases x with
          | false => cases hnamed
          | true => exact .inl (.replied hh hnext (hanswers.resolve_right (by simp)) hnamed)
        | _ => cases hnamed
    | replied hh' _ hx _ =>
      obtain rfl := Option.some.inj hh'
      cases hx
  | finishes =>
    obtain ⟨h, a, -, -, rfl⟩ := h
    cases hp with
    | handled hh' _ | named hh' _ | replied hh' _ _ _ => cases hh'

/-- A message that waits was waiting before, or it announces a connection that is open. -/
private theorem Step.message {event : DiscoveryEvent} (hs : s.Orderly ctx) (h : Step ctx s l s')
    (hevent : event ∈ s'.inbox) (hp : Connects p event) : event ∈ s.inbox ∨ Connected s'.opened p := by
  cases l with
  | network w input opened =>
    obtain ⟨-, -, -, hopened, rfl⟩ := h
    exact (List.mem_append.1 hevent).imp_right fun hnew => connected_of_notice hopened hnew hp
  | serves w command =>
    obtain ⟨rest, -, hcommands, -, rfl⟩ := h
    obtain ⟨r, hr, -⟩ := hs.commands command (hcommands ▸ List.mem_cons_self ..)
    exact (List.mem_append.1 hevent).imp_right fun hnew =>
      connected_of_notice (openAfter_of_channel hr) hnew hp
  | sends event' =>
    obtain ⟨hlink, rfl⟩ := h
    refine (List.mem_append.1 hevent).imp_right fun hnew => ?_
    rw [List.mem_singleton.1 hnew] at hp
    cases event' with
    | peerConnected peer address relayed => cases hlink
    | _ => cases hp
  | takes i =>
    obtain ⟨before, event', after, -, hinbox, -, rfl⟩ := h
    refine .inl ?_
    rw [hinbox, List.mem_append, List.mem_cons]
    exact (List.mem_append.1 hevent).imp_right .inr
  | commands command =>
    obtain ⟨h, q, k, -, -, -, -, rfl⟩ := h
    exact .inl hevent
  | hears e =>
    obtain ⟨h, k, -, -, -, rfl⟩ := h
    exact .inl hevent
  | finishes =>
    obtain ⟨h, a, -, -, rfl⟩ := h
    exact .inl hevent

/-- Whoever is taken for connected was so before, or is connected. -/
theorem Step.presented (hs : s.Orderly ctx) (h : Step ctx s l s') (hp : s'.Presented p) :
    s.Presented p ∨ Connected s'.opened p := by
  rcases hp with ⟨event, hevent, hp⟩ | hp
  · exact (h.message hs hevent hp).imp_left fun hbefore => .inl ⟨event, hbefore, hp⟩
  · by_cases hl : ∃ i, l = .takes i
    · obtain ⟨i, rfl⟩ := hl
      obtain ⟨before, event, after, -, hinbox, -, rfl⟩ := h
      exact .inl (.inl ⟨event, hinbox ▸ List.mem_append_right _ (List.mem_cons_self ..), considers_taken hp⟩)
    · exact (h.considers hs (fun i hi => hl ⟨i, hi⟩) hp).imp_left .inr

/-! ### Every run -/

/-- Handling the message, the discovery actor takes `p` for connected. -/
def Presents (p : PeerId) (k : DiscoveryActor.Label) : Prop := Connects p k.event ∨ p ∈ namedPeers k.trace

/-- A step of the discovery actor whose dialer is honest. -/
def HonestStep (ctx : Context) : DiscoveryActor S → DiscoveryActor.Label → DiscoveryActor S → Prop :=
  guarded (DiscoveryActor.Step ctx) fun _ k => ∀ e ∈ k.trace, Io.DialHonest e

/-- A message that is handled was a step of the discovery actor. -/
theorem Orderly.finished {h : Handling S} {a : DiscoveryActor S} (hs : s.Orderly ctx) (hh : s.handling = some h)
    (hnext : h.next = .pure ((), a)) : HonestStep ctx s.discovery ⟨h.event, h.past⟩ a := by
  have hfollows := hs.handling h hh
  have hafter := hfollows.after
  rw [hnext] at hafter
  have hruns : (DiscoveryActor.handle ctx h.event s.discovery).Runs (h.past ++ []) ((), a) := hafter.runs ⟨rfl, rfl⟩
  rw [List.append_nil] at hruns
  exact ⟨hruns, hfollows.honest⟩

/-- Until the handling of a message ends, the discovery actor and the message stay as they are. -/
theorem Step.goes_on (h : Step ctx s l s') (hl : l ≠ .finishes) : s'.discovery = s.discovery ∧
    ∀ h₀, s.handling = some h₀ → ∃ h', s'.handling = some h' ∧ h'.event = h₀.event := by
  cases l with
  | network w input opened =>
    obtain ⟨-, -, -, -, rfl⟩ := h
    exact ⟨rfl, fun h₀ hh₀ => ⟨h₀, hh₀, rfl⟩⟩
  | serves w command =>
    obtain ⟨rest, -, -, -, rfl⟩ := h
    exact ⟨rfl, fun h₀ hh₀ => ⟨h₀, hh₀, rfl⟩⟩
  | sends event =>
    obtain ⟨-, rfl⟩ := h
    exact ⟨rfl, fun h₀ hh₀ => ⟨h₀, hh₀, rfl⟩⟩
  | takes i =>
    obtain ⟨before, event, after, hidle, -, -, rfl⟩ := h
    refine ⟨rfl, fun h₀ hh₀ => ?_⟩
    rw [hidle] at hh₀
    cases hh₀
  | commands command =>
    obtain ⟨h, q, k, hh, -, -, -, rfl⟩ := h
    refine ⟨rfl, fun h₀ hh₀ => ⟨_, rfl, ?_⟩⟩
    obtain rfl := Option.some.inj (hh.symm.trans hh₀)
    rfl
  | hears e =>
    obtain ⟨h, k, hh, -, -, rfl⟩ := h
    refine ⟨rfl, fun h₀ hh₀ => ⟨_, rfl, ?_⟩⟩
    obtain rfl := Option.some.inj (hh.symm.trans hh₀)
    rfl
  | finishes => exact absurd rfl hl

/-- What the discovery actor hears. -/
def Label.heard? : Label → Option Io
  | .hears e => some e
  | .network _ _ _ | .serves _ _ | .sends _ | .takes _ | .commands _ | .finishes => none

/-- What has been heard in the handling that goes on. -/
def unfinished (s : ExitSystem S) : List Io := (s.handling.map (·.past)).getD []

/-- The messages `ks` are handled to the end in the run `ls`, each with what the actor has heard meanwhile. -/
inductive Handlings (ctx : Context) : ExitSystem S → List Label → List DiscoveryActor.Label → ExitSystem S → Prop
  | nil (s : ExitSystem S) : Handlings ctx s [] [] s
  | finishes {s s₁ s' : ExitSystem S} {h : Handling S} {ls : List Label} {ks : List DiscoveryActor.Label}
      (hh : s.handling = some h) (hstep : Step ctx s .finishes s₁) (hrest : Handlings ctx s₁ ls ks s') :
      Handlings ctx s (.finishes :: ls) (⟨h.event, h.past⟩ :: ks) s'
  | goes_on {s s₁ s' : ExitSystem S} {l : Label} {ls : List Label} {ks : List DiscoveryActor.Label} (hl : l ≠ .finishes)
      (hstep : Step ctx s l s₁) (hrest : Handlings ctx s₁ ls ks s') : Handlings ctx s (l :: ls) ks s'

/-- What is heard in a step is added to the handling that goes on. -/
theorem Step.unfinished (h : Step ctx s l s') (hl : l ≠ .finishes) :
    s'.unfinished = s.unfinished ++ l.heard?.toList := by
  cases l with
  | network w input opened =>
    obtain ⟨-, -, -, -, rfl⟩ := h
    exact (List.append_nil _).symm
  | serves w command =>
    obtain ⟨rest, -, -, -, rfl⟩ := h
    exact (List.append_nil _).symm
  | sends event =>
    obtain ⟨-, rfl⟩ := h
    exact (List.append_nil _).symm
  | takes i =>
    obtain ⟨before, event, after, hidle, -, -, rfl⟩ := h
    simp [ExitSystem.unfinished, hidle, Label.heard?]
  | commands command =>
    obtain ⟨h, q, k, hh, -, -, -, rfl⟩ := h
    simp [ExitSystem.unfinished, hh, Label.heard?]
  | hears e =>
    obtain ⟨h, k, hh, -, -, rfl⟩ := h
    simp [ExitSystem.unfinished, hh, Label.heard?]
  | finishes => exact absurd rfl hl

/-- What the actor hears in a run it hears in the handlings, one after the other. -/
theorem Handlings.heard {ks : List DiscoveryActor.Label} (h : Handlings ctx s ls ks s') :
    s.unfinished ++ ls.filterMap Label.heard? = ks.flatMap (·.trace) ++ s'.unfinished := by
  induction h with
  | nil s => simp
  | @finishes s s₁ s' h ls ks hh hstep _ ih =>
    obtain ⟨_, _, -, -, rfl⟩ := hstep
    have hpast : s.unfinished = h.past := by simp [ExitSystem.unfinished, hh]
    rw [List.flatMap_cons, List.append_assoc, ← ih, hpast]
    rfl
  | @goes_on s s₁ s' l ls ks hl hstep _ ih =>
    rw [← ih, hstep.unfinished hl, List.append_assoc]
    cases h : l.heard? <;> simp [h]

/-- The handlings of a run are steps of the discovery actor. -/
private theorem handlings_from (hs : s.Orderly ctx) (h : Reaches (Step ctx) s ls s') :
    ∃ ks, Handlings ctx s ls ks s' ∧ Reaches (HonestStep ctx) s.discovery ks s'.discovery ∧ ∀ k ∈ ks, ∀ p,
      Presents p k →
      s.Presented p ∨ Once (Step ctx) (fun s => Connected s.opened p) s ls := by
  induction h with
  | nil s => exact ⟨[], .nil s, .nil _, by simp⟩
  | @cons s s₁ s₂ l ls h₁ _ ih =>
    obtain ⟨ks, hhandled, hks, hpresents⟩ := ih (h₁.orderly hs)
    have hlater : ∀ k ∈ ks, ∀ p, Presents p k →
        s.Presented p ∨ Once (Step ctx) (fun s => Connected s.opened p) s (l :: ls) := by
      intro k hk p hp
      rcases hpresents k hk p hp with hpresented | honce
      · exact (h₁.presented hs hpresented).imp_right fun hc => .later h₁ (.first hc)
      · exact .inr (.later h₁ honce)
    by_cases hl : l = .finishes
    · subst hl
      obtain ⟨h, a, hh, hnext, heq⟩ := id h₁
      have hfinished : HonestStep ctx s.discovery ⟨h.event, h.past⟩ s₁.discovery := heq ▸ hs.finished hh hnext
      refine ⟨⟨h.event, h.past⟩ :: ks, .finishes hh h₁ hhandled, .cons hfinished hks,
        List.forall_mem_cons.2 ⟨?_, hlater⟩⟩
      exact fun p hp => .inl (.inr (hp.elim (.handled hh) (.named hh)))
    · rw [(h₁.goes_on hl).1] at hks
      exact ⟨ks, .goes_on hl h₁ hhandled, hks, hlater⟩

omit [StickyStore S] in
/-- At first nobody is taken for connected. -/
private theorem not_presented_init {sticky : S} {destinations : Destinations} :
    ¬(init opened sticky destinations).Presented p := by
  rintro (⟨event, hevent, -⟩ | hconsiders)
  · cases hevent
  · cases hconsiders with
    | handled hh _ | named hh _ | replied hh _ _ _ => cases hh

/-- However dials, connections, ticks and messages interleave, the messages that are handled, with what is heard
meanwhile, are steps of the discovery actor with an honest dialer; and whomever it takes for connected, by a message or
by the dialer's answer, was connected in the run.  The same holds of the message whose handling goes on. -/
theorem discovery_refined {sticky : S} {destinations : Destinations}
    (h : Reaches (Step ctx) (init opened sticky destinations) ls s) :
    ∃ ks, Handlings ctx (init opened sticky destinations) ls ks s ∧
      Reaches (HonestStep ctx) (.new sticky destinations) ks s.discovery ∧
      ls.filterMap Label.heard? = ks.flatMap (·.trace) ++ s.unfinished ∧
      (∀ k ∈ ks, ∀ p, Presents p k →
        Once (Step ctx) (fun s => Connected s.opened p) (init opened sticky destinations) ls) ∧
      ∀ h ∈ s.handling, (∀ e ∈ h.past, Io.DialHonest e) ∧ ∀ p, Presents p ⟨h.event, h.past⟩ →
        Once (Step ctx) (fun s => Connected s.opened p) (init opened sticky destinations) ls := by
  obtain ⟨ks, hhandled, hks, hpresents⟩ := handlings_from orderly_init h
  refine ⟨ks, hhandled, hks, hhandled.heard, ?_, fun h₀ hh => ⟨?_, fun p hp => ?_⟩⟩
  · exact fun k hk p hp => (hpresents k hk p hp).resolve_left not_presented_init
  · exact ((h.invariant (I := Orderly ctx) (fun _ _ _ hs hl => hl.orderly hs) orderly_init).handling h₀ hh).honest
  · have hpresented : s.Presented p := .inr (hp.elim (.handled hh) (.named hh))
    refine (h.once Presented (fun p s => Connected s.opened p) (J := Orderly ctx) (fun _ _ _ hs hl => hl.orderly hs) ?_
      orderly_init hpresented).resolve_left not_presented_init
    exact fun _ _ _ _ hs hl hx => (hl.presented hs hx).imp_right .inr

section OneExit

open LinkSystem (oneServer exitOne hubLink idle exitOnline)

/-- What the discovery actor does next in a network in which all dials are to `dialled`; it stops where it has to
wait. -/
def advance (w : World) (dialled : List Multiaddr) (s : ExitSystem S) : Option (Label × ExitSystem S) :=
  match s.handling with
  | none => none
  | some h =>
    match h.next with
    | .pure (_, a) => some (.finishes, { s with discovery := a, handling := none })
    | .ask (.dialAndWait addresses) k =>
      match h.awaits, s.reply? h with
      | none, _ =>
        if addresses = dialled.toFinset ∧ dialled.Nodup then
          some (.commands (.dial dialled s.channels), { s with
            commands := s.commands ++ [.dial dialled s.channels]
            channels := s.channels + 1
            handling := some { h with awaits := some s.channels } })
        else none
      | some _, some (.dialled peer) =>
        some (.hears ⟨.dialAndWait addresses, .ok peer⟩, { s with
          handling := some
            { h with past := h.past ++ [⟨.dialAndWait addresses, .ok peer⟩], next := k (.ok peer), awaits := none } })
      | _, _ => none
    | .ask (.isConnected _) _ => none
    | .ask q k =>
      let e : Io := ⟨q, w.answer [] q⟩
      some (.hears e, { s with handling := some { h with past := h.past ++ [e], next := k e.answer, awaits := none } })

theorem advance_step {world : World} {dialled : List Multiaddr} (h : advance world dialled s = some (l, s')) :
    Step ctx s l s' := by
  unfold advance at h
  split at h
  · cases h
  · rename_i h₀ hh
    split at h
    · rename_i a hnext
      cases h
      exact ⟨h₀, a, hh, hnext, rfl⟩
    · rename_i addresses k hnext
      split at h
      · rename_i hawaits
        split at h
        · rename_i hdialled
          cases h
          exact ⟨h₀, _, k, hh, hnext, hawaits, ⟨congrArg _ hdialled.1, hdialled.2, rfl⟩, rfl⟩
        · cases h
      · rename_i hreply
        cases h
        exact ⟨h₀, k, hh, hnext, hreply, rfl⟩
      · cases h
    · cases h
    · rename_i q k hdial hcheck hnext
      cases h
      refine ⟨h₀, k, hh, hnext, ?_, rfl⟩
      cases q with
      | dialAndWait addresses => exact (hdial addresses k rfl .rfl).elim
      | isConnected peer => exact (hcheck peer k rfl .rfl).elim
      | _ => trivial

/-- The discovery actor goes on for at most `n` steps. -/
def proceed (w : World) (dialled : List Multiaddr) : Nat → ExitSystem S → List Label × ExitSystem S
  | 0, s => ([], s)
  | n + 1, s =>
    match advance w dialled s with
    | none => ([], s)
    | some (l, s') => (l :: (proceed w dialled n s').1, (proceed w dialled n s').2)

theorem proceed_reaches {world : World} {dialled : List Multiaddr} {n : Nat} :
    Reaches (Step ctx) s (proceed world dialled n s).1 (proceed world dialled n s).2 := by
  induction n generalizing s with
  | zero => exact .nil s
  | succ n ih =>
    unfold proceed
    split
    · exact .nil s
    · rename_i hadvance
      exact .cons (advance_step hadvance) ih

/-- A swarm that knows its connections. -/
def swarmOf (opened : List Connection) : Swarm :=
  { now := 0, accepts := fun _ => true, isConnected := fun p => p ∈ opened.map (·.peer),
    connectedPeers := opened.map (·.peer) }

theorem reads_swarmOf : Reads opened (swarmOf opened) := ⟨fun p => by simp [swarmOf, Connected], fun _ => Iff.rfl⟩

def circuitTo (p : PeerId) : Multiaddr := [.p2pCircuit, .p2p p]

def relayedLink : Connection := { peer := exitOne, relayed := true }

def dark : ExitSystem StickyState := init [hubLink] .empty (.dark [1080] nodup_onePort)

/-- The selection of `exitOne` is taken. -/
def selected : ExitSystem StickyState :=
  { dark with handling := some {
      event := .selectPeer 1080 exitOne
      past := []
      next := DiscoveryActor.handle oneServer (.selectPeer 1080 exitOne) dark.discovery
      awaits := none } }

/-- The actor waits for the dial. -/
def waiting : List Label × ExitSystem StickyState := proceed exitOnline [circuitTo exitOne] 20 selected

/-- The dial is submitted, and the connection opens. -/
def linked : ExitSystem StickyState :=
  let served := { waiting.2 with commands := [] }.afterInput oneServer (swarmOf [hubLink])
    (.dial [circuitTo exitOne] 0) [hubLink]
  served.afterInput oneServer (swarmOf [hubLink]) (.swarm (.connectionEstablished exitOne (circuitTo exitOne) true))
    [relayedLink, hubLink]

/-- The exit is adopted. -/
def adopted : List Label × ExitSystem StickyState := proceed exitOnline [circuitTo exitOne] 20 linked

def selection : List Label :=
  [.sends (.selectPeer 1080 exitOne), .takes 0] ++ (waiting.1 ++
    ([.serves (swarmOf [hubLink]) (.dial [circuitTo exitOne] 0),
      .network (swarmOf [hubLink]) (.swarm (.connectionEstablished exitOne (circuitTo exitOne) true))
        [relayedLink, hubLink]] ++
      adopted.1))

theorem selection_reaches : Reaches (Step oneServer) dark selection adopted.2 := by
  have htaken : Reaches (Step oneServer) dark [.sends (.selectPeer 1080 exitOne), .takes 0] selected :=
    .cons ⟨rfl, rfl⟩ (.cons ⟨[], _, [], rfl, rfl, rfl, rfl⟩ (.nil _))
  have hlinked : Reaches (Step oneServer) waiting.2 [.serves (swarmOf [hubLink]) (.dial [circuitTo exitOne] 0),
      .network (swarmOf [hubLink]) (.swarm (.connectionEstablished exitOne (circuitTo exitOne) true))
        [relayedLink, hubLink]]
      linked :=
    .cons ⟨[], rfl, rfl, reads_swarmOf, rfl⟩ (.cons ⟨rfl, rfl, reads_swarmOf, rfl, rfl⟩ (.nil _))
  exact reaches_append.2 ⟨_, htaken,
    reaches_append.2 ⟨_, proceed_reaches, reaches_append.2 ⟨_, hlinked, proceed_reaches⟩⟩⟩

/-- The dial is heard in a message that is handled. -/
theorem discovery_refined_selected : ∃ ks, Handlings oneServer dark selection ks adopted.2 ∧
    Reaches (HonestStep oneServer) dark.discovery ks adopted.2.discovery ∧ ∃ k ∈ ks, exitOne ∈ namedPeers k.trace ∧
      Once (Step oneServer) (fun s => Connected s.opened exitOne) dark selection := by
  obtain ⟨ks, hhandled, hks, hheard, hpresents, -⟩ := discovery_refined selection_reaches
  have hall : exitOne ∈ namedPeers (ks.flatMap (·.trace) ++ adopted.2.unfinished) := by
    rw [← hheard]
    decide
  rw [show adopted.2.unfinished = [] from rfl, List.append_nil] at hall
  obtain ⟨e, he, hnamed⟩ := mem_namedPeers.1 hall
  obtain ⟨k, hk, he⟩ := List.mem_flatMap.1 he
  have hnames : exitOne ∈ namedPeers k.trace := mem_namedPeers.2 ⟨e, he, hnamed⟩
  exact ⟨ks, hhandled, hks, k, hk, hnames, hpresents k hk exitOne (.inr hnames)⟩

end OneExit

end ExitSystem

end P2Proxy
