import P2Proxy.Interface
import P2Proxy.Rediscovery

/-!
# A selection and its outcome

The operator's selection travels to the discovery actor as a message, and its outcome travels back as an event, while
others write into the same channels.  As long as the channel of the events has room, a peer is shown as dialled only
while the outcome of the selection is on its way (`hint_accounted`): the message is still to be taken, the actor has yet
to announce the outcome, or the announcement waits to be reduced.
-/

namespace P2Proxy

open Interaction

/-- How many events wait for the user interface; what is emitted into a full channel is lost. -/
def eventCapacity : Nat := 200

/-- The user interface and the discovery actor, with the channels between them. -/
structure Console (S P : Type) where
  interface : Interface P
  /-- the messages to the discovery actor, sent or about to be sent -/
  inbox : Multiset DiscoveryEvent
  actor : DiscoveryActor S
  /-- while the actor handles a message, what it has yet to announce -/
  announcing : Option (List Events)
  queue : List Events

namespace Console

variable {S P : Type} [StickyStore S] {ctx : Context} {prompt : ExportPrompt P}

omit [StickyStore S] in
/-- Emit an event, if the channel has room. -/
def emit (event : Events) (s : Console S P) : Console S P :=
  if s.queue.length < eventCapacity then { s with queue := s.queue ++ [event] } else s

def init (ctx : Context) (prompt : ExportPrompt P) (sticky : S) (destinations : Destinations) : Console S P where
  interface := .new prompt ctx.servers
  inbox := 0
  actor := .new sticky destinations
  announcing := none
  queue := []

inductive Label
  | inputs (l : Interface.Label)
  | reduces
  | takes (l : DiscoveryActor.Label)
  | announces
  | finishes
  | otherSends (message : DiscoveryEvent)
  | otherEmits (event : Events)

/-- The steps of the two, and what everybody else writes into the channels. -/
inductive Step (ctx : Context) (prompt : ExportPrompt P) (s : Console S P) : Label → Console S P → Prop
  | inputs {l : Interface.Label} {i : Interface P} : (∀ event, l.input ≠ .event event) →
      Interface.Step prompt s.interface l i →
      Step ctx prompt s (.inputs l) { s with interface := i, inbox := s.inbox + Multiset.ofList l.sent }
  | reduces {event : Events} {queue : List Events} {i : Interface P} : s.queue = event :: queue →
      Interface.Step prompt s.interface ⟨.event event, []⟩ i →
        Step ctx prompt s .reduces { s with interface := i, queue }
  | takes {l : DiscoveryActor.Label} {a : DiscoveryActor S} {inbox : Multiset DiscoveryEvent} :
      s.inbox = l.event ::ₘ inbox → s.announcing = none → DiscoveryActor.Step ctx s.actor l a →
      Step ctx prompt s (.takes l) { s with inbox, actor := a, announcing := some (l.trace.filterMap Io.emitted) }
  | announces {event : Events} {rest : List Events} : s.announcing = some (event :: rest) →
      Step ctx prompt s .announces ({ s with announcing := some rest }.emit event)
  | finishes : s.announcing = some [] → Step ctx prompt s .finishes { s with announcing := none }
  | otherSends {message : DiscoveryEvent} :
      Step ctx prompt s (.otherSends message) { s with inbox := s.inbox + {message} }
  | otherEmits {event : Events} : Step ctx prompt s (.otherEmits event) (s.emit event)

variable {s s' : Console S P} {l : Label} {ls : List Label} {port : Port} {peer : PeerId} {since : Instant} {sticky : S}
  {destinations : Destinations}

/-- The outcome of a selection is on its way. -/
def Outstanding (s : Console S P) (port : Port) (peer : PeerId) : Prop :=
  .selectPeer port peer ∈ s.inbox ∨ (∃ events ∈ s.announcing, ∃ event ∈ events, event.Resolves port) ∨
    ∃ event ∈ s.queue, event.Resolves port

/-- Handling a selection for a configured port announces its outcome. -/
theorem selectPeer_resolves {a a' : DiscoveryActor S} {tr : List Io} {server : Server} (hserver : server ∈ ctx.servers)
    (h : DiscoveryActor.Step ctx a ⟨.selectPeer server.port peer, tr⟩ a') :
    ∃ event ∈ tr.filterMap Io.emitted, event.Resolves server.port := by
  rcases DiscoveryActor.step_selectPeer_cases h with ⟨hnone, -⟩ | ⟨other, o, t, t', hother, rfl, -, ho⟩
  · simpa using List.find?_eq_none.1 hnone server hserver
  · have hport := Context.port_of_server? hother
    cases o with
    | none =>
      obtain ⟨⟨message, rfl⟩, -⟩ := ho
      exact ⟨.error message, by simp [Io.emitted], trivial⟩
    | some y =>
      obtain ⟨now, s₁, -, rfl, -⟩ := DiscoveryActor.runs_adoptSpecific ho
      exact ⟨DiscoveryActor.activeEvent other.port (some { peer := y, source := .manual }), by simp [Io.emitted], hport⟩

/-- What is shown as dialled is a peer of a configured server, and the outcome is on its way. -/
structure Accounted (ctx : Context) (s : Console S P) : Prop where
  focused : s.interface.Focused ctx.servers
  outstanding : ∀ port peer since, s.interface.ui.networkPendingSelection = some (port, peer, since) →
    (∃ server ∈ ctx.servers, server.port = port) ∧ s.Outstanding port peer

omit [StickyStore S] in
theorem accounted_init : (init ctx prompt sticky destinations).Accounted ctx where
  focused := Interface.focused_new
  outstanding _ _ _ h := by cases h

omit [StickyStore S] in
theorem emit_of_room {event : Events} (hroom : s.queue.length < eventCapacity) :
    s.emit event = { s with queue := s.queue ++ [event] } := if_pos hroom

/-- As long as the channel has room, no outcome is lost. -/
theorem Step.accounted (hs : s.Accounted ctx) (hroom : s.queue.length < eventCapacity) (hl : Step ctx prompt s l s') :
    s'.Accounted ctx := by
  cases hl with
  | @inputs k i hkey hi =>
    refine ⟨hi.focused hs.focused, fun port peer since hp => ?_⟩
    rcases hi.pending.1 hp with hselects | ⟨-, -, hold⟩
    · -- the selection was made by this key, and its message is sent
      obtain ⟨hport, hsent⟩ := hi.selects hs.focused hselects
      exact ⟨hport, .inl (Multiset.mem_add.2 (.inr hsent))⟩
    · obtain ⟨hport, hout⟩ := hs.outstanding port peer since hold
      exact ⟨hport, hout.imp_left fun hmem => Multiset.mem_add.2 (.inl hmem)⟩
  | @reduces event queue i hqueue hi =>
    refine ⟨hi.focused hs.focused, fun port peer since hp => ?_⟩
    rcases hi.pending.1 hp with hselects | ⟨-, hopen, hold⟩
    · cases hselects
    · obtain ⟨hport, hout⟩ := hs.outstanding port peer since hold
      refine ⟨hport, hout.imp_right (Or.imp_right ?_)⟩
      -- the reduced event was not the outcome
      rintro ⟨outcome, hmem, hresolves⟩
      rw [hqueue] at hmem
      rcases List.mem_cons.1 hmem with rfl | hmem
      · exact absurd hresolves hopen
      · exact ⟨outcome, hmem, hresolves⟩
  | @takes k a inbox hinbox hidle ha =>
    refine ⟨hs.focused, fun port peer since hp => ?_⟩
    obtain ⟨⟨server, hserver, rfl⟩, hout⟩ := hs.outstanding port peer since hp
    refine ⟨⟨server, hserver, rfl⟩, ?_⟩
    rcases hout with hmem | ⟨events, hevents, -⟩ | hqueue
    · rw [hinbox] at hmem
      rcases Multiset.mem_cons.1 hmem with htaken | hmem
      · obtain ⟨event, tr⟩ := k
        obtain rfl : .selectPeer server.port peer = event := htaken
        exact .inr (.inl ⟨_, rfl, selectPeer_resolves hserver ha⟩)
      · exact .inl hmem
    · rw [hidle] at hevents
      cases hevents
    · exact .inr (.inr hqueue)
  | @announces event rest hannouncing =>
    have hemit : emit event { s with announcing := some rest } =
        { s with announcing := some rest, queue := s.queue ++ [event] } := emit_of_room hroom
    rw [hemit]
    refine ⟨hs.focused, fun port peer since hp => ?_⟩
    obtain ⟨hport, hout⟩ := hs.outstanding port peer since hp
    refine ⟨hport, hout.imp_right ?_⟩
    rintro (⟨events, hevents, outcome, hmem, hresolves⟩ | ⟨outcome, hmem, hresolves⟩)
    · rw [hannouncing] at hevents
      cases hevents
      rcases List.mem_cons.1 hmem with rfl | hmem
      · exact .inr ⟨outcome, by simp, hresolves⟩
      · exact .inl ⟨rest, rfl, outcome, hmem, hresolves⟩
    · exact .inr ⟨outcome, List.mem_append_left _ hmem, hresolves⟩
  | finishes hannouncing =>
    refine ⟨hs.focused, fun port peer since hp => ?_⟩
    obtain ⟨hport, hout⟩ := hs.outstanding port peer since hp
    refine ⟨hport, hout.imp_right (Or.imp_left ?_)⟩
    rintro ⟨events, hevents, outcome, hmem, -⟩
    rw [hannouncing] at hevents
    cases hevents
    cases hmem
  | @otherSends message =>
    refine ⟨hs.focused, fun port peer since hp => ?_⟩
    obtain ⟨hport, hout⟩ := hs.outstanding port peer since hp
    exact ⟨hport, hout.imp_left fun hmem => Multiset.mem_add.2 (.inl hmem)⟩
  | @otherEmits event =>
    rw [emit_of_room hroom]
    refine ⟨hs.focused, fun port peer since hp => ?_⟩
    obtain ⟨hport, hout⟩ := hs.outstanding port peer since hp
    refine ⟨hport, hout.imp_right (Or.imp_right ?_)⟩
    rintro ⟨outcome, hmem, hresolves⟩
    exact ⟨outcome, List.mem_append_left _ hmem, hresolves⟩

/-- As long as the channel of the events has room, a peer is shown as dialled only while its selection is still to be
taken, its outcome is still to be announced, or the announcement is still to be reduced. -/
theorem hint_accounted
    (h : Reaches (guarded (Step ctx prompt) fun s _ => s.queue.length < eventCapacity)
      (init ctx prompt sticky destinations) ls s)
    (hp : s.interface.ui.networkPendingSelection = some (port, peer, since)) : s.Outstanding port peer :=
  ((h.invariant (I := Accounted ctx) (fun _ _ _ hs hl => hl.1.accounted hs hl.2) accounted_init).outstanding _ _ _ hp).2

/-! ### A selection on its way -/

private def idle : Console StickyState Bool :=
  init DiscoverySystem.oneServer Interface.plainPrompt .empty (.dark [1080] nodup_onePort)

private def offer : Events := .serverPool 1080 [⟨⟨[1]⟩, []⟩]

private def offered : Console StickyState Bool :=
  { idle with interface := { idle.interface with ui := idle.interface.ui.handleSwarmEvents offer } }

private def pressed (s : Console StickyState Bool) (l : Interface.Label) : Console StickyState Bool :=
  { s with
    interface := (s.interface.handle Interface.plainPrompt l.input).1
    inbox := s.inbox + Multiset.ofList l.sent }

/-- The operator steps into the pool and picks the candidate. -/
private def keys : List Interface.Label :=
  [⟨.key 3 .tab, []⟩, ⟨.key 4 .enter, []⟩, ⟨.key 5 .enter, [.selectPeer 1080 ⟨[1]⟩]⟩]

private def picked : Console StickyState Bool := keys.foldl pressed offered

private def selecting : List Io × Unit × DiscoveryActor StickyState :=
  DiscoverySystem.inWorld DiscoverySystem.oneServer DiscoverySystem.oneExit (.selectPeer 1080 ⟨[1]⟩) picked.actor

/-- The actor handles the selection, and has yet to announce what it did. -/
private def taken : Console StickyState Bool :=
  { picked with inbox := 0, actor := selecting.2.2, announcing := some (selecting.1.filterMap Io.emitted) }

/-- The selection is in the channel; once it is taken, its outcome is among what the actor will announce. -/
theorem hint_accounted_picked : picked.Outstanding 1080 ⟨[1]⟩ ∧
    ∃ event ∈ selecting.1.filterMap Io.emitted, event.Resolves 1080 := by
  have hpress : ∀ {s : Console StickyState Bool} {now code sent}, s.interface.running = true →
      (s.interface.handle Interface.plainPrompt (.key now code)).2 = sent →
      Step DiscoverySystem.oneServer Interface.plainPrompt s (.inputs ⟨.key now code, sent⟩)
        (pressed s ⟨.key now code, sent⟩) :=
    fun hrunning hsent => .inputs (fun event he => by cases he) ⟨hrunning, Prod.ext rfl hsent⟩
  have hroom : ∀ {s : Console StickyState Bool}, s.queue = [] → s.queue.length < eventCapacity := by
    intro s hs
    rw [hs]
    decide
  have hreduces : Step DiscoverySystem.oneServer Interface.plainPrompt (idle.emit offer) .reduces offered :=
    .reduces rfl ⟨rfl, rfl⟩
  have hpicked : Reaches (guarded (Step DiscoverySystem.oneServer Interface.plainPrompt) fun s _ =>
      s.queue.length < eventCapacity) idle _ picked :=
    .cons ⟨.otherEmits, hroom rfl⟩ (.cons ⟨hreduces, by decide⟩ (.cons ⟨hpress rfl rfl, hroom rfl⟩
      (.cons ⟨hpress rfl rfl, hroom rfl⟩ (.cons ⟨hpress rfl rfl, hroom rfl⟩ (.nil _)))))
  have htakes :
      Step DiscoverySystem.oneServer Interface.plainPrompt picked (.takes ⟨.selectPeer 1080 ⟨[1]⟩, selecting.1⟩)
      taken := .takes rfl rfl (exec_runs _ _ _)
  have hpending : ∀ {s : Console StickyState Bool}, s.interface = picked.interface →
      s.interface.ui.networkPendingSelection = some (1080, ⟨[1]⟩, 5) := by
    intro s hs
    rw [hs]
    rfl
  refine ⟨hint_accounted hpicked (hpending rfl), ?_⟩
  have houtstanding : taken.Outstanding 1080 ⟨[1]⟩ :=
    hint_accounted (reaches_append.2 ⟨_, hpicked, .cons ⟨htakes, hroom rfl⟩ (.nil _)⟩) (hpending rfl)
  rcases houtstanding with hsent | ⟨events, hevents, houtcome⟩ | ⟨event, hqueued, -⟩
  · exact absurd hsent (Multiset.notMem_zero _)
  · obtain rfl := Option.some.inj hevents
    exact houtcome
  · cases hqueued

end Console

end P2Proxy
