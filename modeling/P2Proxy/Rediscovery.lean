import P2Proxy.Turns
import P2Proxy.Interaction.Run

/-!
# Scheduled rediscoveries

The discovery actor with what surrounds it: the cooldown tasks that it has spawned, each of which sleeps for the rest of
the cooldown and then sends a `DiscoverFor`, and the start-up messages and requests in its inbox.  Messages are handled
in any order.  Whatever the order, a port that is marked pending has a cooldown task whose `DiscoverFor` has not been
handled (`wakeup_not_lost`).
-/

namespace P2Proxy

open Interaction

def readings (tr : List Io) : List Instant := tr.filterMap Io.reading

/-- The last reading of the clock in a turn. -/
def lastReading (part : List Io) : Instant := (readings part).getLast?.getD 0

/-- Is the cooldown over, or none running, when the turn of a port begins whose exit has closed? -/
def closesAnew (last : Option Instant) (part : List Io) : Bool :=
  match last, (readings part).head? with
  | none, _ => true
  | some at_, some n => rediscoveryCooldown ≤ Duration.ofNanos (n - at_)
  | some _, none => false

/-- What starts a rediscovery after a peer has closed: the close itself, or the cooldown task spawned for it. -/
inductive Trigger
  | close
  | task
deriving DecidableEq

structure Start where
  time : Instant
  trigger : Trigger

/-- The actor, the tasks it has spawned and the messages sent to it. -/
structure DiscoverySystem (S : Type) where
  actor : DiscoveryActor S
  /-- for each cooldown task whose `DiscoverFor` has not been handled, the time until which it sleeps -/
  tasks : Port → List Instant
  /-- the start-up `DiscoverFor`s in the inbox -/
  startups : Port → Nat
  /-- the `RequestNewPeer`s in the inbox -/
  requests : Port → Nat
  /-- the ports whose start-up `DiscoverFor` was handled -/
  started : Finset Port
  /-- the rediscoveries that a closing peer has triggered so far, latest first -/
  starts : Port → List Start
  clock : Instant

/-- Where a message comes from. -/
inductive Origin
  | inbox
  | task (due : Instant)

inductive SystemLabel
  | startup (port : Port)
  | request (port : Port)
  | handles (now : Instant) (origin : Origin) (l : DiscoveryActor.Label)

namespace DiscoverySystem

variable {S : Type}

def init (sticky : S) (destinations : Destinations) : DiscoverySystem S where
  actor := .new sticky destinations
  tasks _ := []
  startups _ := 0
  requests _ := 0
  started := ∅
  starts _ := []
  clock := 0

/-- The message is there to be handled. -/
def Takes (s : DiscoverySystem S) (now : Instant) : Origin → DiscoveryEvent → Prop
  | .task due, .discoverFor port => due ∈ s.tasks port ∧ due ≤ now
  | .task _, _ => False
  | .inbox, .discoverFor port => 0 < s.startups port
  | .inbox, .requestNewPeer port => 0 < s.requests port
  | .inbox, _ => True

/-- The cooldown tasks that remain when the message is taken. -/
def tasksLeft (s : DiscoverySystem S) (port : Port) : Origin → DiscoveryEvent → List Instant
  | .task due, .discoverFor q => if q = port then (s.tasks port).erase due else s.tasks port
  | _, _ => s.tasks port

def startupsLeft (s : DiscoverySystem S) (port : Port) : Origin → DiscoveryEvent → Nat
  | .inbox, .discoverFor q => if q = port then s.startups port - 1 else s.startups port
  | _, _ => s.startups port

def requestsLeft (s : DiscoverySystem S) (port : Port) : DiscoveryEvent → Nat
  | .requestNewPeer q => if q = port then s.requests port - 1 else s.requests port
  | _ => s.requests port

def startedAfter (s : DiscoverySystem S) : Origin → DiscoveryEvent → Finset Port
  | .inbox, .discoverFor q => insert q s.started
  | _, _ => s.started

/-- The rediscovery of `port` that the message triggers on behalf of a closed peer. -/
def newStart (s : DiscoverySystem S) (now : Instant) (port : Port) (tr : List Io) : Origin →
    DiscoveryEvent → Option Start
  | .task _, .discoverFor q => if q = port then some { time := now, trigger := .task } else none
  | _, .peerClosed peer =>
    if s.actor.destination port = some peer ∧ closesAnew (s.actor.lastRediscovery port) (turnOf port tr) then
      some { time := lastReading (turnOf port tr), trigger := .close }
    else none
  | _, _ => none

/-- A message that came from `origin` at the time `now` was handled. -/
def after (s : DiscoverySystem S) (now : Instant) (origin : Origin) (l : DiscoveryActor.Label) (a' : DiscoveryActor S) :
    DiscoverySystem S where
  actor := a'
  tasks port := s.tasksLeft port origin l.event ++
    (scheduledFor port l.trace).map fun d => lastReading (turnOf port l.trace) + d.nanos
  startups port := s.startupsLeft port origin l.event
  requests port := s.requestsLeft port l.event
  started := s.startedAfter origin l.event
  starts port := (s.newStart now port l.trace origin l.event).toList ++ s.starts port
  clock := (readings l.trace).getLast?.getD now

inductive Step [StickyStore S] (ctx : Context) : DiscoverySystem S → SystemLabel → DiscoverySystem S → Prop
  | startup {s : DiscoverySystem S} {port : Port} : port ∈ ctx.servers.map (·.port) →
      Step ctx s (.startup port) { s with startups := Function.update s.startups port (s.startups port + 1) }
  | request {s : DiscoverySystem S} {port : Port} :
      Step ctx s (.request port) { s with requests := Function.update s.requests port (s.requests port + 1) }
  | handles {s : DiscoverySystem S} {now : Instant} {origin : Origin} {l : DiscoveryActor.Label}
      {a' : DiscoveryActor S} : s.clock ≤ now → (now :: readings l.trace).Pairwise (· ≤ ·) →
      s.Takes now origin l.event → DiscoveryActor.Step ctx s.actor l a' →
      Step ctx s (.handles now origin l) (s.after now origin l a')

variable [StickyStore S] {ctx : Context} {s s' s₁ s₂ : DiscoverySystem S} {k : SystemLabel} {port : Port}

theorem Step.deterministic (h₁ : Step ctx s k s₁) (h₂ : Step ctx s k s₂) : s₁ = s₂ := by
  cases h₁ with
  | startup _ => cases h₂; rfl
  | request => cases h₂; rfl
  | handles _ _ _ ha =>
    cases h₂ with
    | handles _ _ _ ha' => rw [ha.deterministic ha']


/-! ### Turns and their readings -/

section Turns

variable [LawfulStickyStore S] {server : Server} {avoid : Option PeerId} {peer : PeerId} {part : List Io}
  {ds : List Duration} {b b' : PortBooks}

theorem readings_rediscovers (h : DiscoveryActor.Rediscovers S ctx server avoid part b b') : readings part = [] := by
  obtain ⟨t, peers, rfl, hconnect, -⟩ := h
  refine List.filterMap_eq_nil_iff.2 fun e he => ?_
  rcases List.mem_append.1 he with he | he
  · exact (Io.ofConnect_not_announced (hconnect e he)).2.2
  · obtain rfl := List.mem_singleton.1 he
    rfl

/-- In a turn that has the port connected anew, all peers are named and all attempts made by the connect. -/
theorem rediscovers_connect (h : DiscoveryActor.Rediscovers S ctx server avoid part b b') :
    ∃ t, lastNamed part = lastNamed t ∧ reachAttempts part = reachAttempts t ∧
      DiscoveryActor.Reconnected S ctx.relayAddress server avoid t b.view b'.view := by
  obtain ⟨t, peers, rfl, -, hrec, -, -⟩ := h
  refine ⟨t, ?_, ?_, hrec⟩
  · have hevent : lastNamed [⟨.emit (.stickyPool server.port peers), ()⟩] = none := rfl
    rw [lastNamed_append, hevent, Option.none_or]
  · rw [reachAttempts_append rfl]
    exact List.append_nil _

/-- A closing exit is either rediscovered, at the last reading of the turn, or the port is left pending. -/
theorem closes_cases (h : DiscoveryActor.Closes S ctx server peer part ds b b') :
    (closesAnew b.last part = true ∧ b'.last = some (lastReading part) ∧ b'.pending = false ∧ ds = [] ∧
      lastReading part ∈ readings part ∧
      (∀ at_, b.last = some at_ → ∃ n, readings part = [n, lastReading part] ∧
        rediscoveryCooldown ≤ Duration.ofNanos (n - at_)) ∧
      ∃ t, lastNamed part = lastNamed t ∧ reachAttempts part = reachAttempts t ∧
        DiscoveryActor.Reconnected S ctx.relayAddress server (some peer) t b.view b'.view) ∨
    (closesAnew b.last part = false ∧ b'.last = b.last ∧ b'.pending = true ∧
      b'.view = { b.view with exit := none } ∧
      ∃ at_ n, b.last = some at_ ∧ readings part = [n] ∧ ¬rediscoveryCooldown ≤ Duration.ofNanos (n - at_) ∧
        ds = if b.pending then [] else [rediscoveryCooldown.sub (Duration.ofNanos (n - at_))]) := by
  rcases h with ⟨now, rest, hcool, rfl, hredis⟩ | ⟨elapsed, ⟨at_, n, hlast, rfl, rfl, hcool⟩, rfl, rfl⟩
  · left
    have hnone := readings_rediscovers hredis
    obtain ⟨t, hrest, hattempts, hrec⟩ := rediscovers_connect hredis
    obtain ⟨-, -, -, -, -, hlast', hpending⟩ := hredis
    -- the readings before the connect name nobody
    have hnamed : ∀ pre : List Io, namedPeers pre = [] → lastNamed (pre ++ rest) = lastNamed t := by
      intro pre hpre
      have hnobody : lastNamed pre = none := by rw [lastNamed, hpre]; rfl
      rw [lastNamed_append, hnobody, Option.or_none, hrest]
    rcases hcool with ⟨hlast, rfl⟩ | ⟨at_, n, hlast, rfl, hcool⟩
    · -- the first rediscovery of the port
      have hread : readings (⟨.instantNow, now⟩ :: rest) = [now] := congrArg (now :: ·) hnone
      refine ⟨by rw [hlast]; rfl, ?_, hpending, rfl, ?_, fun at_ hat => ?_, t, hnamed [_] rfl, hattempts, hrec⟩
      · rw [hlast', lastReading, hread]; rfl
      · rw [lastReading, hread]
        exact List.mem_singleton_self now
      · rw [hlast] at hat; cases hat
    · -- the cooldown is over
      have hread : readings (⟨.instantNow, n⟩ :: ⟨.instantNow, now⟩ :: rest) = [n, now] :=
        congrArg (n :: now :: ·) hnone
      refine ⟨?_, ?_, hpending, rfl, ?_, fun at_' hat => ?_, t, hnamed [_, _] rfl, hattempts, hrec⟩
      · rw [hlast]
        exact decide_eq_true hcool
      · rw [hlast', lastReading, hread]; rfl
      · rw [lastReading, hread]
        exact List.mem_cons_of_mem _ (List.mem_singleton_self now)
      · rw [hlast, Option.some.injEq] at hat
        subst hat
        rw [lastReading, hread]
        exact ⟨n, rfl, hcool⟩
  · right
    refine ⟨?_, rfl, rfl, rfl, at_, n, hlast, rfl, hcool, rfl⟩
    rw [hlast]
    exact decide_eq_false hcool

end Turns

/-! ### No wake-up is lost -/

section WakeUp

variable [LawfulStickyStore S]

/-- The actor has a handle for each configured port, and nothing is scheduled for any other. -/
structure Confined (ctx : Context) (s : DiscoverySystem S) : Prop where
  handles : s.actor.Handles ctx
  pending : ∀ port ∉ s.actor.destinations.ports, port ∉ s.actor.pendingRediscovery
  tasks : ∀ port ∉ s.actor.destinations.ports, s.tasks port = []

omit [StickyStore S] [LawfulStickyStore S] in
theorem Confined.init {sticky : S} {destinations : Destinations}
    (h : (DiscoveryActor.new sticky destinations).Handles ctx) : (init sticky destinations).Confined ctx :=
  ⟨h, fun _ _ => Finset.notMem_empty _, fun _ _ => rfl⟩

theorem Step.confined (hs : s.Confined ctx) (h : Step ctx s k s') : s'.Confined ctx := by
  cases h with
  | startup _ => exact ⟨hs.handles, hs.pending, hs.tasks⟩
  | request => exact ⟨hs.handles, hs.pending, hs.tasks⟩
  | @handles now origin l a' _ _ _ ha =>
    refine ⟨fun port => ha.ports_eq ▸ hs.handles port, fun port hport => ?_, fun port hport => ?_⟩
    · change port ∉ a'.destinations.ports at hport
      rw [ha.ports_eq] at hport
      exact fun hp => hs.pending port hport ((ha.outside hs.handles hport).1 hp)
    · change port ∉ a'.destinations.ports at hport
      rw [ha.ports_eq] at hport
      have hleft : s.tasksLeft port origin l.event = [] := by
        have htasks := hs.tasks port hport
        unfold tasksLeft
        split
        · rw [htasks, List.erase_nil, ite_self]
        · exact htasks
      show s.tasksLeft port origin l.event ++ _ = []
      rw [hleft, (ha.outside hs.handles hport).2]
      rfl

/-- A port that is pending after an event was so before, and the event is not its own `DiscoverFor`, or the event
schedules its rediscovery. -/
private theorem pending_cases {b b' : PortBooks} {tr : List Io} {event : DiscoveryEvent}
    (h : DiscoveryActor.TurnEffect S ctx server tr b b' event) (hpending : b'.pending = true) :
    (b.pending = true ∧ ∀ q, event = .discoverFor q → q ≠ server.port) ∨ scheduledFor server.port tr ≠ [] := by
  cases event with
  | discoverFor q =>
    obtain ⟨hbooks, -⟩ := h
    split at hbooks
    · obtain ⟨-, -, -, -, -, -, hp⟩ := hbooks
      rw [hp] at hpending
      cases hpending
    · rename_i hq
      rw [hbooks] at hpending
      exact .inl ⟨hpending, by rintro _ ⟨⟩; exact hq⟩
  | requestNewPeer q =>
    obtain ⟨hbooks, -⟩ := h
    split at hbooks
    · obtain ⟨-, -, -, -, -, -, hp⟩ := hbooks
      rw [hp] at hpending
      cases hpending
    · rw [hbooks] at hpending
      exact .inl ⟨hpending, by simp⟩
  | peerClosed peer =>
    simp only [DiscoveryActor.TurnEffect] at h
    split at h
    · rcases closes_cases h with ⟨-, -, hp, -⟩ | ⟨-, -, -, -, at_, n, -, -, -, hds⟩
      · rw [hp] at hpending
        cases hpending
      · -- inside the cooldown a rediscovery is scheduled unless one is pending
        by_cases hp : b.pending = true
        · exact .inl ⟨hp, by simp⟩
        · rw [if_neg hp] at hds
          exact .inr (by simp [hds])
    · rw [h.1] at hpending
      exact .inl ⟨hpending, by simp⟩
  | peerUnusable peer =>
    obtain ⟨hbooks, -⟩ := h
    split at hbooks
    · obtain ⟨-, -, -, -, -, -, hp⟩ := hbooks
      rw [hp] at hpending
      cases hpending
    · rw [hbooks] at hpending
      exact .inl ⟨hpending, by simp⟩
  | peerConnected peer address relayed | selectPeer q peer =>
    rw [h.2.1] at hpending
    exact .inl ⟨hpending, by simp⟩

/-- Every pending port has a cooldown task. -/
def Awaited (s : DiscoverySystem S) : Prop := ∀ port ∈ s.actor.pendingRediscovery, s.tasks port ≠ []

theorem Step.awaited (hconfined : s.Confined ctx) (hs : s.Awaited) (h : Step ctx s k s') : s'.Awaited := by
  have hhandles := hconfined.handles
  cases h with
  | startup _ => exact hs
  | request => exact hs
  | @handles now origin l a' _ _ _ ha =>
    intro port hpending
    change port ∈ a'.pendingRediscovery at hpending
    show s.tasksLeft port origin l.event ++ _ ≠ []
    by_cases hport : port ∈ s.actor.destinations.ports
    · obtain ⟨server, hserver, rfl⟩ := hhandles.exists_server hport
      have heffect := ha.turnEffect hserver hhandles
      have hpending' : (DiscoveryActor.portBooks server a').pending = true := decide_eq_true hpending
      -- a port that was pending before keeps its tasks unless its own `DiscoverFor` is handled
      have hkept : ∀ {e}, (∀ q, e = .discoverFor q → q ≠ server.port) →
          (DiscoveryActor.portBooks server s.actor).pending = true → s.tasksLeft server.port origin e ≠ [] := by
        intro e he hp
        have htasks := hs server.port (of_decide_eq_true hp)
        cases e with
        | discoverFor q =>
          cases origin with
          | inbox => exact htasks
          | task due =>
            rw [tasksLeft, if_neg (he q rfl)]
            exact htasks
        | _ => cases origin <;> exact htasks
      rcases pending_cases heffect hpending' with ⟨hp, he⟩ | hnew
      · exact List.append_ne_nil_of_left_ne_nil (hkept he hp) _
      · refine List.append_ne_nil_of_right_ne_nil _ fun hnil => hnew ?_
        exact List.map_eq_nil_iff.1 hnil
    · exact absurd ((ha.outside hhandles hport).1 hpending) (hconfined.pending port hport)

variable {sticky : S} {destinations : Destinations} {ks : List SystemLabel}

theorem confined_of_reaches (hhandles : (DiscoveryActor.new sticky destinations).Handles ctx)
    (h : Reaches (Step ctx) (init sticky destinations) ks s) : s.Confined ctx :=
  h.invariant (fun _ _ _ hs h => h.confined hs) (.init hhandles)

theorem awaited_of_reaches (hhandles : (DiscoveryActor.new sticky destinations).Handles ctx)
    (h : Reaches (Step ctx) (init sticky destinations) ks s) : s.Awaited := by
  have hboth : s.Confined ctx ∧ s.Awaited := h.invariant (I := fun s => s.Confined ctx ∧ s.Awaited)
    (fun _ _ _ hs h => ⟨h.confined hs.1, h.awaited hs.1 hs.2⟩)
    ⟨.init hhandles, fun port hp => absurd hp (Finset.notMem_empty port)⟩
  exact hboth.2

/-- In every run each port that is marked pending has a cooldown task whose `DiscoverFor` has not been handled; so a
peer that closes inside the cooldown of a port it was serving leaves one behind, whether or not it had to be
scheduled. -/
theorem wakeup_not_lost (hhandles : (DiscoveryActor.new sticky destinations).Handles ctx)
    (h : Reaches (Step ctx) (init sticky destinations) ks s) :
    (∀ port ∈ s.actor.pendingRediscovery, s.tasks port ≠ []) ∧
      ∀ now origin peer tr s' port, Step ctx s (.handles now origin ⟨.peerClosed peer, tr⟩) s' →
        s.actor.destination port = some peer →
        closesAnew (s.actor.lastRediscovery port) (turnOf port tr) = false →
        s'.actor.destination port = none ∧ s'.tasks port ≠ [] := by
  refine ⟨awaited_of_reaches hhandles h, fun now origin peer tr s' port hstep hexit hcool => ?_⟩
  have hconfined := confined_of_reaches hhandles h
  have hawaited := hstep.awaited hconfined (awaited_of_reaches hhandles h)
  cases hstep with
  | @handles _ _ _ a' _ _ _ ha =>
    obtain ⟨server, hserver, rfl⟩ := hconfined.handles.exists_server (Destinations.mem_ports_of_active hexit)
    have heffect := ha.turnEffect hserver hconfined.handles
    simp only [DiscoveryActor.TurnEffect] at heffect
    rw [if_pos (show (DiscoveryActor.portBooks server s.actor).view.exit = some peer from hexit)] at heffect
    rcases closes_cases heffect with ⟨hc, -⟩ | ⟨-, -, hp, hview, -⟩
    · have hcool' : closesAnew (DiscoveryActor.portBooks server s.actor).last (turnOf server.port tr) = false := hcool
      rw [hcool'] at hc
      cases hc
    · exact ⟨congrArg PortView.exit hview, hawaited _ (of_decide_eq_true hp)⟩

end WakeUp

/-! ### A network that does not change -/

section World

/-- What is said and what becomes of the actor when `event` is handled in the network `w`. -/
def inWorld (ctx : Context) (w : World) (event : DiscoveryEvent) (a : DiscoveryActor StickyState) :
    List Io × Unit × DiscoveryActor StickyState :=
  exec w.answer (DiscoveryActor.handle ctx event) a

def worldLabel (ctx : Context) (w : World) (origin : Origin) (event : DiscoveryEvent)
    (s : DiscoverySystem StickyState) :
    SystemLabel :=
  .handles 0 origin ⟨event, (inWorld ctx w event s.actor).1⟩

def worldAfter (ctx : Context) (w : World) (origin : Origin) (event : DiscoveryEvent)
    (s : DiscoverySystem StickyState) :
    DiscoverySystem StickyState :=
  s.after 0 origin ⟨event, (inWorld ctx w event s.actor).1⟩ (inWorld ctx w event s.actor).2.2

/-- The clock of such a network stands still. -/
theorem world_step {w : World} {origin : Origin} {event : DiscoveryEvent} {s : DiscoverySystem StickyState}
    (hclock : s.clock = 0) (htakes : s.Takes 0 origin event) :
    Step ctx s (worldLabel ctx w origin event s) (worldAfter ctx w origin event s) := by
  refine .handles (by rw [hclock]) ?_ htakes (exec_runs _ _ _)
  have hzero : ∀ r ∈ readings (inWorld ctx w event s.actor).1, r = 0 := by
    intro r hr
    obtain ⟨e, he, her⟩ := List.mem_filterMap.1 hr
    obtain ⟨past, q, rfl⟩ := exec_answers he
    cases q with
    | instantNow => exact (Option.some.inj her).symm
    | emit event => cases her
    | _ => cases her
  have hall : 0 :: readings (inWorld ctx w event s.actor).1 =
      List.replicate ((readings (inWorld ctx w event s.actor).1).length + 1) 0 := by
    rw [List.replicate_succ]
    exact congrArg (0 :: ·) (List.eq_replicate_iff.2 ⟨rfl, hzero⟩)
  show (0 :: readings (inWorld ctx w event s.actor).1).Pairwise (· ≤ ·)
  rw [hall]
  exact List.pairwise_replicate.2 (.inr le_rfl)

/-- One sticky server. -/
def oneServer : Context := dummyContext [discoveryServer 1080]

/-- The hub knows one candidate, which can be reached. -/
def oneExit : World := { routes := [], candidates := [⟨⟨[1]⟩, []⟩], online := [⟨[1]⟩], connected := [] }

/-- The start-up message of the port was sent. -/
def atStartup : DiscoverySystem StickyState :=
  { init StickyState.empty (.dark [1080] nodup_onePort) with startups := Function.update (fun _ => 0) 1080 1 }

/-- The port is served by the candidate. -/
def servedByOne : DiscoverySystem StickyState := worldAfter oneServer oneExit .inbox (.discoverFor 1080) atStartup

/-- The exit has closed, and was reconnected to. -/
def closedOnce : DiscoverySystem StickyState := worldAfter oneServer oneExit .inbox (.peerClosed ⟨[1]⟩) servedByOne

/-- It has closed again, inside the cooldown. -/
def closedTwice : DiscoverySystem StickyState := worldAfter oneServer oneExit .inbox (.peerClosed ⟨[1]⟩) closedOnce

theorem handles_oneServer : (DiscoveryActor.new StickyState.empty (.dark [1080] (by decide))).Handles oneServer :=
  fun _ => Iff.rfl

theorem startup_step : Step oneServer (init .empty (.dark [1080] (by decide))) (.startup 1080) atStartup :=
  .startup (by decide)

theorem servedByOne_step :
    Step oneServer atStartup (worldLabel oneServer oneExit .inbox (.discoverFor 1080) atStartup) servedByOne :=
  world_step rfl (show 0 < atStartup.startups 1080 by decide)

theorem closedOnce_step :
    Step oneServer servedByOne (worldLabel oneServer oneExit .inbox (.peerClosed ⟨[1]⟩) servedByOne) closedOnce :=
  world_step (by decide) trivial

theorem closedTwice_step :
    Step oneServer closedOnce (worldLabel oneServer oneExit .inbox (.peerClosed ⟨[1]⟩) closedOnce) closedTwice :=
  world_step (by decide) trivial

/-- The exit closes a second time inside the cooldown: a cooldown task is left behind. -/
theorem wakeup_not_lost_twice : closedTwice.actor.destination 1080 = none ∧ closedTwice.tasks 1080 ≠ [] := by
  have h := Reaches.cons startup_step (.cons servedByOne_step (.cons closedOnce_step (.nil _)))
  exact (wakeup_not_lost handles_oneServer h).2 0 .inbox ⟨[1]⟩ _ _ 1080 closedTwice_step (by decide) (by decide)

end World

end DiscoverySystem

end P2Proxy
