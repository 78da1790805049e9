import P2Proxy.ConnectCalls
import P2Proxy.PortView

/-!
# Turns

Several ports may be served in the handling of one event, one after the other.  The announcement of an exit ends the
turn of its port, so the trace can be cut into the turns of the ports (`turns`).  `Step.turnEffect` says what an event
does to everything that the actor keeps for a port, its exit and pool and the books of the throttle, in terms of the
port's own turn.
-/

namespace P2Proxy

open Interaction

namespace Io

/-- The port whose exit is announced. -/
def announced : Io → Option Port
  | ⟨.emit (.activeDestination port _ _), _⟩ => some port
  | _ => none

/-- The port for which a rediscovery is scheduled, and the delay. -/
def scheduled : Io → Option (Port × Duration)
  | ⟨.spawnDiscoverFor port after, _⟩ => some (port, after)
  | _ => none

/-- The reading of the monotonic clock. -/
def reading : Io → Option Instant
  | ⟨.instantNow, now⟩ => some now
  | _ => none

theorem ofConnect_not_announced {e : Io} (h : e.ofConnect = true) :
    e.announced = none ∧ e.scheduled = none ∧ e.reading = none := by
  obtain ⟨q, x⟩ := e
  cases q with
  | emit event => cases event <;> first | exact ⟨rfl, rfl, rfl⟩ | cases h
  | instantNow => cases h
  | spawnDiscoverFor port after => cases h
  | _ => exact ⟨rfl, rfl, rfl⟩

end Io

/-- The turns of a trace; `acc` is what was done since the last turn. -/
def turns : List Io → List Io → List (Port × List Io)
  | _, [] => []
  | acc, e :: tr =>
    match e.announced with
    | some port => (port, acc) :: turns [] tr
    | none => if e.scheduled = none then turns (acc ++ [e]) tr else turns acc tr

/-- What was done in the turn of `port`. -/
def turnOf (port : Port) (tr : List Io) : List Io := ((turns [] tr).lookup port).getD []

/-- The delays of the rediscoveries that are scheduled for `port`. -/
def scheduledFor (port : Port) (tr : List Io) : List Duration :=
  (tr.filterMap Io.scheduled).filterMap fun s => if s.1 = port then some s.2 else none

variable {acc t rest tr part : List Io} {port q : Port} {ds : List Duration}

theorem turns_quiet (h : ∀ e ∈ t, e.announced = none ∧ e.scheduled = none) :
    turns acc (t ++ rest) = turns (acc ++ t) rest := by
  induction t generalizing acc with
  | nil => simp
  | cons e t ih =>
    obtain ⟨⟨ha, hs⟩, ht⟩ := List.forall_mem_cons.1 h
    rw [List.cons_append, turns, ha]
    dsimp only
    rw [if_pos hs, ih ht, List.append_assoc]
    rfl

theorem scheduledFor_quiet (h : ∀ e ∈ t, e.scheduled = none) : scheduledFor port t = [] := by
  unfold scheduledFor
  rw [List.filterMap_eq_nil_iff.2 h]
  rfl

@[simp] theorem scheduledFor_append :
    scheduledFor port (t ++ rest) = scheduledFor port t ++ scheduledFor port rest := by
  simp [scheduledFor]

/-- `t` is one turn of `port`: `part` is what was done in it, and `ds` are the delays of what was scheduled. -/
structure IsTurn (port : Port) (t part : List Io) (ds : List Duration) : Prop where
  turns_append : ∀ acc rest, turns acc (t ++ rest) = (port, acc ++ part) :: turns [] rest
  scheduledFor_eq : ∀ q, scheduledFor q t = if q = port then ds else []

theorem IsTurn.unique {part' : List Io} {ds' : List Duration} (h : IsTurn port t part ds)
    (h' : IsTurn port t part' ds') :
    part = part' ∧ ds = ds' := by
  have hturns := (h.turns_append [] []).symm.trans (h'.turns_append [] [])
  have hsched := (h.scheduledFor_eq port).symm.trans (h'.scheduledFor_eq port)
  rw [if_pos rfl, if_pos rfl] at hsched
  refine ⟨?_, hsched⟩
  simpa using hturns

theorem IsTurn.turnOf_eq (h : IsTurn port t part ds) (rest : List Io) : turnOf port (t ++ rest) = part := by
  rw [turnOf, h.turns_append]
  simp

/-- A turn that ends in the announcement. -/
theorem IsTurn.announce (port : Port) (h : ∀ e ∈ part, e.announced = none ∧ e.scheduled = none) (peer : Option PeerId)
    (source : Option DestinationSource) :
    IsTurn port (part ++ [⟨.emit (.activeDestination port peer source), ()⟩]) part [] where
  turns_append acc rest := by
    rw [List.append_assoc, turns_quiet h]
    rfl
  scheduledFor_eq q := by
    rw [scheduledFor_append, scheduledFor_quiet fun e he => (h e he).2]
    exact (ite_self []).symm

/-- A turn that ends in the announcement and schedules a rediscovery. -/
theorem IsTurn.schedule (h : ∀ e ∈ part, e.announced = none ∧ e.scheduled = none) (peer : Option PeerId)
    (source : Option DestinationSource) (d : Duration) :
    IsTurn port (part ++ [⟨.emit (.activeDestination port peer source), ()⟩, ⟨.spawnDiscoverFor port d, ()⟩]) part
      [d] where
  turns_append acc rest := by
    rw [List.append_assoc, turns_quiet h]
    rfl
  scheduledFor_eq q := by
    have hone : scheduledFor q [⟨.emit (.activeDestination port peer source), ()⟩, ⟨.spawnDiscoverFor port d, ()⟩] =
        [(port, d)].filterMap fun s => if s.1 = q then some s.2 else none := rfl
    rw [scheduledFor_append, scheduledFor_quiet fun e he => (h e he).2, hone]
    by_cases hq : q = port
    · simp [hq]
    · simp [hq, Ne.symm hq]

/-- Calls before a turn belong to it. -/
theorem IsTurn.prepend {before : List Io} (h : IsTurn port t part ds)
    (hquiet : ∀ e ∈ before, e.announced = none ∧ e.scheduled = none) :
    IsTurn port (before ++ t) (before ++ part) ds where
  turns_append acc rest := by
    rw [List.append_assoc, turns_quiet hquiet, h.turns_append, List.append_assoc]
  scheduledFor_eq q := by
    rw [scheduledFor_append, scheduledFor_quiet fun e he => (hquiet e he).2, List.nil_append, h.scheduledFor_eq]

/-- Nothing in the trace belongs to `port`. -/
structure Elsewhere (port : Port) (t : List Io) : Prop where
  turnOf_append : ∀ rest, turnOf port (t ++ rest) = turnOf port rest
  scheduledFor_eq : scheduledFor port t = []

theorem Elsewhere.append {t₁ t₂ : List Io} (h₁ : Elsewhere port t₁) (h₂ : Elsewhere port t₂) :
    Elsewhere port (t₁ ++ t₂) where
  turnOf_append rest := by rw [List.append_assoc, h₁.turnOf_append, h₂.turnOf_append]
  scheduledFor_eq := by rw [scheduledFor_append, h₁.scheduledFor_eq, h₂.scheduledFor_eq, List.append_nil]

theorem IsTurn.elsewhere (h : IsTurn q t part ds) (hne : port ≠ q) : Elsewhere port t where
  turnOf_append rest := by
    have hother : (port == q) = false := by simpa using hne
    rw [turnOf, h.turns_append, List.lookup_cons, hother]
    rfl
  scheduledFor_eq := by rw [h.scheduledFor_eq, if_neg hne]

/-- In a loop over distinct ports, of which every other turn obeys `I`, a port has one turn or none. -/
theorem runs_forM_turn {S : Type} {I : S → List Io → S → Prop} {f : Port → M S Unit} {is : List Port} {s s' : S}
    {u : Unit} (hI : Law I) (hothers : ∀ q, q ≠ port → Obeys I (f q))
    (hf : ∀ q ∈ is, ∀ s t s', Runs (f q) s t () s' → ∃ part ds, IsTurn q t part ds) (hnodup : is.Nodup)
    (h : Runs (is.forM f) s tr u s') :
    (port ∉ is ∧ I s tr s' ∧ scheduledFor port tr = []) ∨ ∃ t₁ s₁ t s₂ t₂ part ds,
      port ∈ is ∧ tr = t₁ ++ (t ++ t₂) ∧ I s t₁ s₁ ∧ Runs (f port) s₁ t () s₂ ∧ I s₂ t₂ s' ∧
        IsTurn port t part ds ∧ (∀ rest, turnOf port (tr ++ rest) = part) ∧ scheduledFor port tr = ds := by
  have hlaw : Law fun s t s' => I s t s' ∧ Elsewhere port t :=
    ⟨fun s => ⟨hI.refl s, ⟨fun _ => rfl, rfl⟩⟩, fun h₁ h₂ => ⟨hI.trans h₁.1 h₂.1, h₁.2.append h₂.2⟩⟩
  have hturns : ∀ q ∈ is, q ≠ port → Obeys (fun s t s' => I s t s' ∧ Elsewhere port t) (f q) := by
    intro q hq hne s t _ s' hr
    obtain ⟨part, ds, hturn⟩ := hf q hq s t s' hr
    exact ⟨hothers q hne _ _ _ _ hr, hturn.elsewhere (Ne.symm hne)⟩
  rcases runs_forM_at hlaw hturns hnodup h with ⟨hout, hI, helse⟩ |
    ⟨t₁, s₁, t, s₂, t₂, hin, rfl, ⟨h₁, helse₁⟩, hr, ⟨h₂, helse₂⟩⟩
  · exact .inl ⟨hout, hI, helse.scheduledFor_eq⟩
  · obtain ⟨part, ds, hturn⟩ := hf port hin _ _ _ hr
    refine .inr ⟨t₁, s₁, t, s₂, t₂, part, ds, hin, rfl, h₁, hr, h₂, hturn, fun rest => ?_, ?_⟩
    · rw [List.append_assoc, helse₁.turnOf_append, List.append_assoc, hturn.turnOf_eq]
    · rw [scheduledFor_append, scheduledFor_append, helse₁.scheduledFor_eq, helse₂.scheduledFor_eq,
        hturn.scheduledFor_eq, if_pos rfl, List.append_nil, List.nil_append]

/-! ### The books of a port -/

/-- What the actor keeps for a port: its exit and pool, when it was last rediscovered because of a closing exit, and
whether a rediscovery is pending. -/
structure PortBooks where
  view : PortView
  last : Option Instant
  pending : Bool

/-- Outside the cooldown of a port its rediscovery begins at `now`; what follows is `rest`. -/
def CooledDown (last : Option Instant) (part : List Io) (now : Instant) (rest : List Io) : Prop :=
  (last = none ∧ part = ⟨.instantNow, now⟩ :: rest) ∨
    ∃ at_ n, last = some at_ ∧ part = ⟨.instantNow, n⟩ :: ⟨.instantNow, now⟩ :: rest ∧
      rediscoveryCooldown ≤ Duration.ofNanos (n - at_)

/-- Inside the cooldown of a port, `elapsed` after its last rediscovery, nothing else is done. -/
def Throttled (last : Option Instant) (part : List Io) (elapsed : Duration) : Prop :=
  ∃ at_ n, last = some at_ ∧ part = [⟨.instantNow, n⟩] ∧ elapsed = Duration.ofNanos (n - at_) ∧
    ¬rediscoveryCooldown ≤ elapsed

namespace DiscoveryActor

variable {S : Type} [StickyStore S] [LawfulStickyStore S] {ctx : Context} {server : Server}
  {a a' a'' : DiscoveryActor S} {u : Unit} {peer : PeerId}

def portBooks (server : Server) (a : DiscoveryActor S) : PortBooks where
  view := portView server a
  last := a.lastRediscovery server.port
  pending := server.port ∈ a.pendingRediscovery

/-- The port is connected anew in `part`, which ends with the announcement of the pool. -/
def Rediscovers (S : Type) [StickyStore S] [LawfulStickyStore S] (ctx : Context) (server : Server)
    (avoid : Option PeerId) (part : List Io) (b b' : PortBooks) : Prop :=
  ∃ t peers, part = t ++ [⟨.emit (.stickyPool server.port peers), ()⟩] ∧ (∀ e ∈ t, e.ofConnect = true) ∧
    Reconnected S ctx.relayAddress server avoid t b.view b'.view ∧ b'.last = b.last ∧ b'.pending = false

/-- What closing the exit `peer` of a port does in its turn. -/
def Closes (S : Type) [StickyStore S] [LawfulStickyStore S] (ctx : Context) (server : Server) (peer : PeerId)
    (part : List Io) (ds : List Duration) (b b' : PortBooks) : Prop :=
  (∃ now rest, CooledDown b.last part now rest ∧ ds = [] ∧
      Rediscovers S ctx server (some peer) rest { b with last := some now } b') ∨
    ∃ elapsed, Throttled b.last part elapsed ∧ ds = (if b.pending then [] else [rediscoveryCooldown.sub elapsed]) ∧
      b' = { b with view := { b.view with exit := none }, pending := true }

/-- The books of a port, the direct peers and the handles are the same. -/
structure SameBooks (server : Server) (a a' : DiscoveryActor S) : Prop extends SamePort server a a' where
  last_eq : a'.lastRediscovery server.port = a.lastRediscovery server.port
  pending_iff : server.port ∈ a'.pendingRediscovery ↔ server.port ∈ a.pendingRediscovery

namespace SameBooks

theorem refl (a : DiscoveryActor S) : SameBooks server a a := ⟨.refl a, rfl, Iff.rfl⟩

theorem trans (h₁ : SameBooks server a a') (h₂ : SameBooks server a' a'') : SameBooks server a a'' :=
  ⟨h₁.toSamePort.trans h₂.toSamePort, h₂.last_eq.trans h₁.last_eq, h₂.pending_iff.trans h₁.pending_iff⟩

/-- Keeping the books of a port is a law. -/
theorem law : Law fun (a : DiscoveryActor S) (_ : List Io) a' => SameBooks server a a' := ⟨refl, trans⟩

theorem books_eq (h : SameBooks server a a') : portBooks server a' = portBooks server a := by
  simp only [portBooks, h.view_eq, h.last_eq, h.pending_iff]

end SameBooks

theorem discover_sameBooks {avoid r : Option PeerId} (hne : server.port ≠ port)
    (h : Runs (discover ctx port avoid) a tr r a') : SameBooks server a a' := by
  have hsame := discover_same hne h
  have hpending : server.port ∈ a.pendingRediscovery.erase port ↔ server.port ∈ a.pendingRediscovery := by
    simp [hne]
  rcases runs_discover.1 h with ⟨-, -, -, rfl⟩ | ⟨other, t, result, s₁, -, -, -, -, rfl⟩ <;>
  exact ⟨hsame, rfl, hpending⟩

theorem closePort_sameBooks (hne : server.port ≠ port) (h : Runs (closePort ctx peer port) a tr u a') :
    SameBooks server a a' := by
  have hsame := closePort_same hne h
  rcases closePort_cases h with ⟨checks, now, t, r, -, -, hd⟩ | ⟨_, _, -, -, -, rfl⟩
  · obtain ⟨-, hlast, hpending⟩ := discover_sameBooks hne hd
    exact ⟨hsame, hlast.trans (Function.update_of_ne hne ..), hpending⟩
  · exact ⟨hsame, rfl, by simp [hne]⟩

omit [LawfulStickyStore S] in
/-- Connecting a server, announcing its pool and then its exit is one turn. -/
theorem connect_isTurn {relayAddress : Multiaddr} {avoid : Option PeerId} {s s₁ : S} {t : List Io}
    {result : Except ConnectError ConnectedDestination}
    (h : Runs (connect relayAddress server avoid : M S _) s t result s₁) :
    IsTurn server.port
      (t ++ [⟨.emit (poolEvent server s₁), ()⟩,
        ⟨.emit (activeEvent server.port (resultDestination result)), ()⟩])
      (t ++ [⟨.emit (poolEvent server s₁), ()⟩]) [] := by
  have hquiet : ∀ e ∈ t ++ [⟨.emit (poolEvent server s₁), ()⟩], Io.announced e = none ∧ Io.scheduled e = none := by
    intro e he
    rcases List.mem_append.1 he with he | he
    · obtain ⟨ha, hs, -⟩ := Io.ofConnect_not_announced (connect_connecting avoid _ _ _ _ h e he)
      exact ⟨ha, hs⟩
    · obtain rfl := List.mem_singleton.1 he
      exact ⟨rfl, rfl⟩
  have hturn := IsTurn.announce server.port hquiet ((resultDestination result).map (·.peer))
    ((resultDestination result).map (·.source))
  rwa [List.append_assoc] at hturn

/-- The turn of a port that is discovered. -/
theorem discover_turn {avoid r : Option PeerId} (hserver : ctx.server? server.port = some server)
    (h : Runs (discover ctx server.port avoid) a tr r a') :
    ∃ part, IsTurn server.port tr part [] ∧ (server.port ∈ a.destinations.ports →
      Rediscovers S ctx server avoid part (portBooks server a) (portBooks server a')) := by
  rcases runs_discover.1 h with ⟨hn, -⟩ | ⟨other, t, result, s₁, hs, hc, rfl, -, rfl⟩
  · rw [hserver] at hn; cases hn
  · obtain rfl := Option.some.inj (hserver.symm.trans hs)
    refine ⟨_, connect_isTurn hc, fun hport => ⟨t, _, rfl, connect_connecting avoid _ _ _ _ hc,
      ⟨a.sticky, s₁, result, hc, rfl, ?_⟩, rfl, ?_⟩⟩
    · simp only [portBooks, portView, destination, Destinations.active_set_self hport]
    · simp [portBooks]

/-- Reading the clock before a rediscovery is part of the turn that follows. -/
theorem clock_quiet {checks : List Io} {now : Instant} (h : checks = [] ∨ ∃ n, checks = [⟨.instantNow, n⟩]) :
    ∀ e ∈ checks ++ [⟨.instantNow, now⟩], Io.announced e = none ∧ Io.scheduled e = none := by
  intro e he
  rcases h with rfl | ⟨n, rfl⟩
  · obtain rfl := List.mem_singleton.1 he
    exact ⟨rfl, rfl⟩
  · rcases List.mem_cons.1 he with rfl | he
    · exact ⟨rfl, rfl⟩
    · obtain rfl := List.mem_singleton.1 he
      exact ⟨rfl, rfl⟩

/-- The turn of a port whose exit closes. -/
theorem closePort_turn (hserver : ctx.server? server.port = some server)
    (h : Runs (closePort ctx peer server.port) a tr u a') :
    ∃ part ds, IsTurn server.port tr part ds ∧ (server.port ∈ a.destinations.ports →
      Closes S ctx server peer part ds (portBooks server a) (portBooks server a')) := by
  rcases closePort_cases h with ⟨checks, now, t, r, rfl, hchecks, hd⟩ | ⟨at_, n, hlast, hcool, rfl, rfl⟩
  · obtain ⟨part, hturn, hredis⟩ := discover_turn hserver hd
    have hquiet : ∀ e ∈ checks ++ [⟨.instantNow, now⟩], Io.announced e = none ∧ Io.scheduled e = none :=
      clock_quiet (hchecks.imp And.right fun ⟨_, n, _, hn, _⟩ => ⟨n, hn⟩)
    have hall := hturn.prepend hquiet
    rw [List.append_assoc, List.append_assoc] at hall
    refine ⟨_, _, hall, fun hport => .inl ⟨now, part, ?_, rfl, ?_⟩⟩
    · rcases hchecks with ⟨hlast, rfl⟩ | ⟨at_, n, hlast, rfl, hcool⟩
      · exact .inl ⟨hlast, rfl⟩
      · exact .inr ⟨at_, n, hlast, rfl, hcool⟩
    · have hbooks :
          portBooks server { a with lastRediscovery := Function.update a.lastRediscovery server.port (some now) } =
          { portBooks server a with last := some now } := by
        simp [portBooks, portView, destination]
      have hredis := hredis hport
      rwa [hbooks] at hredis
  · have hquiet : ∀ e ∈ [⟨.instantNow, n⟩], Io.announced e = none ∧ Io.scheduled e = none := by
      intro e he
      obtain rfl := List.mem_singleton.1 he
      exact ⟨rfl, rfl⟩
    refine ⟨[⟨.instantNow, n⟩], if (portBooks server a).pending then [] else
      [rediscoveryCooldown.sub (Duration.ofNanos (n - at_))], ?_,
      fun hport => .inr ⟨_, ⟨at_, n, hlast, rfl, rfl, hcool⟩, rfl, ?_⟩⟩
    · by_cases hp : server.port ∈ a.pendingRediscovery
      · have hpending : (portBooks server a).pending = true := decide_eq_true hp
        rw [if_pos hp, if_pos hpending]
        exact IsTurn.announce server.port hquiet none none
      · have hpending : ¬(portBooks server a).pending = true := by simpa [portBooks] using hp
        rw [if_neg hp, if_neg hpending]
        exact IsTurn.schedule hquiet none none _
    · simp only [portBooks, portView, destination, Destinations.active_set_self hport, Finset.mem_insert_self,
        decide_true]

/-! ### Every event -/

/-- The effect of an event on the books of a port, in terms of the port's turn. -/
def TurnEffect (S : Type) [StickyStore S] [LawfulStickyStore S] (ctx : Context) (server : Server) (tr : List Io)
    (b b' : PortBooks) : DiscoveryEvent → Prop
  | .discoverFor q | .requestNewPeer q =>
    (if q = server.port then Rediscovers S ctx server none (turnOf server.port tr) b b' else b' = b) ∧
      scheduledFor server.port tr = []
  | .peerClosed peer =>
    if b.view.exit = some peer then
      Closes S ctx server peer (turnOf server.port tr) (scheduledFor server.port tr) b b'
    else b' = b ∧ scheduledFor server.port tr = []
  | .peerUnusable peer =>
    let c := { b with view := { b.view with pool := b.view.pool.filter (· ≠ peer) } }
    (if b.view.exit = some peer then Rediscovers S ctx server none (turnOf server.port tr) c b' else b' = c) ∧
      scheduledFor server.port tr = []
  | .peerConnected _ _ _ | .selectPeer _ _ =>
    b'.last = b.last ∧ b'.pending = b.pending ∧ scheduledFor server.port tr = []

/-- The handler keeps the books of the throttle, and schedules nothing. -/
private def Unthrottled (a : DiscoveryActor S) (tr : List Io) (a' : DiscoveryActor S) : Prop :=
  a'.lastRediscovery = a.lastRediscovery ∧ a'.pendingRediscovery = a.pendingRediscovery ∧
    ∀ e ∈ tr, Io.scheduled e = none

omit [StickyStore S] [LawfulStickyStore S] in
private theorem unthrottled_law : Law (Unthrottled (S := S)) where
  refl _ := ⟨rfl, rfl, by simp⟩
  trans h₁ h₂ := ⟨h₂.1.trans h₁.1, h₂.2.1.trans h₁.2.1, fun e he => (List.mem_append.1 he).elim (h₁.2.2 e) (h₂.2.2 e)⟩

omit [LawfulStickyStore S] in
private theorem adoptSpecific_unthrottled {source : DestinationSource}
    (h : Runs (adoptSpecific server peer source) a tr u a') : Unthrottled a tr a' := by
  obtain ⟨now, s₁, rfl, rfl, rfl⟩ := runs_adoptSpecific h
  refine ⟨rfl, rfl, ?_⟩
  simp only [List.forall_mem_cons]
  exact ⟨rfl, rfl, rfl, fun _ he => absurd he List.not_mem_nil⟩

omit [LawfulStickyStore S] in
private theorem rotatePort_unthrottled (h : Runs (rotatePort ctx peer port) a tr u a') : Unthrottled a tr a' := by
  rcases rotatePort_cases h with ⟨-, rfl, rfl⟩ | ⟨other, s₁, -, rfl, ⟨-, rfl, rfl⟩ | ⟨-, hr⟩⟩
  · exact unthrottled_law.refl _
  · exact ⟨rfl, rfl, by simp⟩
  · obtain ⟨hlast, hpending, htr⟩ := adoptSpecific_unthrottled hr
    exact ⟨hlast, hpending, htr⟩

private theorem Unthrottled.effect (h : Unthrottled a tr a') :
    (portBooks server a').last = (portBooks server a).last ∧
      (portBooks server a').pending = (portBooks server a).pending ∧ scheduledFor server.port tr = [] := by
  refine ⟨congrFun h.1 _, ?_, scheduledFor_quiet h.2.2⟩
  simp only [portBooks, h.2.1]

omit [LawfulStickyStore S] in
/-- A discovery schedules nothing. -/
private theorem discover_scheduledFor {avoid r : Option PeerId} (h : Runs (discover ctx port avoid) a tr r a') :
    scheduledFor q tr = [] := by
  rcases runs_discover.1 h with ⟨-, rfl, -, -⟩ | ⟨other, t, result, s₁, hs, hc, rfl, -, -⟩
  · rfl
  · have ht : ∀ e ∈ t, Io.scheduled e = none := fun e he =>
      (Io.ofConnect_not_announced (connect_connecting avoid _ _ _ _ hc e he)).2.1
    rw [scheduledFor_append, scheduledFor_quiet ht]
    rfl

/-- Every port with a handle has its turn when its exit closes. -/
theorem closePort_isTurn (hhandles : Handles ctx a) {p : Option PeerId → Bool} :
    ∀ q ∈ a.destinations.portsWhere p, ∀ (b : DiscoveryActor S) t b', Runs (closePort ctx peer q) b t () b' →
      ∃ part ds, IsTurn q t part ds := by
  intro q hq b t b' hr
  obtain ⟨other, hother, rfl⟩ := hhandles.exists_server (Destinations.mem_portsWhere.1 hq).1
  obtain ⟨part, ds, hturn, -⟩ := closePort_turn hother hr
  exact ⟨part, ds, hturn⟩

/-- Every port with a handle has its turn when it is discovered. -/
theorem discover_isTurn (hhandles : Handles ctx a) {p : Option PeerId → Bool} :
    ∀ q ∈ a.destinations.portsWhere p, ∀ (b : DiscoveryActor S) t b',
      Runs (do let _ ← discover ctx q none : M (DiscoveryActor S) Unit) b t () b' → ∃ part ds, IsTurn q t part ds := by
  intro q hq b t b' hr
  obtain ⟨other, hother, rfl⟩ := hhandles.exists_server (Destinations.mem_portsWhere.1 hq).1
  obtain ⟨r, hd⟩ := runs_discard.1 hr
  obtain ⟨part, hturn, -⟩ := discover_turn hother hd
  exact ⟨part, [], hturn⟩

omit [LawfulStickyStore S] in
private theorem poolEvents_scheduled {servers : List Server} {sticky : S} :
    ∀ e ∈ servers.map fun server => (⟨.emit (poolEvent server sticky), ()⟩ : Io), Io.scheduled e = none := by
  intro e he
  obtain ⟨_, _, rfl⟩ := List.mem_map.1 he
  rfl

omit [LawfulStickyStore S] in
private theorem step_peerConnected_unthrottled {address : Multiaddr} {relayed : Bool}
    (h : Step ctx a ⟨.peerConnected peer address relayed, tr⟩ a') : Unthrottled a tr a' := by
  cases relayed with
  | true =>
    obtain ⟨rfl, rfl⟩ := step_peerConnected_relayed.1 h
    exact ⟨rfl, rfl, by simp⟩
  | false =>
    have hloop := Obeys.forM unthrottled_law _ (fun q _ _ _ _ _ hr => rotatePort_unthrottled hr) _ _ _ _
      (step_peerConnected_direct.1 h)
    exact ⟨hloop.1, hloop.2.1, hloop.2.2⟩

omit [LawfulStickyStore S] in
private theorem step_selectPeer_unthrottled (h : Step ctx a ⟨.selectPeer port peer, tr⟩ a') : Unthrottled a tr a' := by
  rcases step_selectPeer_cases h with ⟨-, rfl, rfl⟩ | ⟨other, o, t, t', hs, rfl, hreach, ho⟩
  · exact unthrottled_law.refl _
  · have ht : ∀ e ∈ t, Io.scheduled e = none := fun e he => (Io.ofConnect_not_announced (hreach.ofConnect e he)).2.1
    refine unthrottled_law.trans ⟨rfl, rfl, ht⟩ ?_
    cases o with
    | none =>
      obtain ⟨⟨message, rfl⟩, rfl⟩ := ho
      refine ⟨rfl, rfl, fun e he => ?_⟩
      obtain rfl := List.mem_singleton.1 he
      rfl
    | some y => exact adoptSpecific_unthrottled ho

/-- What an event does to the books of a port. -/
theorem Step.turnEffect {l : Label} (hserver : ctx.server? server.port = some server) (hhandles : Handles ctx a)
    (h : Step ctx a l a') :
    TurnEffect S ctx server l.trace (portBooks server a) (portBooks server a') l.event := by
  obtain ⟨event, tr⟩ := l
  have hport : server.port ∈ a.destinations.ports := hhandles.mem_ports (Context.mem_of_server? hserver)
  have hnodup : ∀ p, (a.destinations.portsWhere p).Nodup := fun p => a.destinations.nodup.filter _
  cases event with
  | discoverFor q =>
    obtain ⟨r, hd⟩ := step_discoverFor.1 h
    refine ⟨?_, discover_scheduledFor hd⟩
    split
    · rename_i hq
      subst hq
      obtain ⟨part, hturn, hredis⟩ := discover_turn hserver hd
      have hpart := hturn.turnOf_eq []
      rw [List.append_nil] at hpart
      exact hpart ▸ hredis hport
    · rename_i hq
      exact (discover_sameBooks (Ne.symm hq) hd).books_eq
  | requestNewPeer q =>
    obtain ⟨t, r, rfl, hd⟩ := step_requestNewPeer.1 h
    refine ⟨?_, by rw [scheduledFor_append, discover_scheduledFor hd]; rfl⟩
    split
    · rename_i hq
      subst hq
      obtain ⟨part, hturn, hredis⟩ := discover_turn hserver hd
      exact hturn.turnOf_eq [⟨.reply r, ()⟩] ▸ hredis hport
    · rename_i hq
      exact (discover_sameBooks (Ne.symm hq) hd).books_eq
  | peerClosed peer =>
    simp only [TurnEffect]
    rcases runs_forM_turn SameBooks.law (fun q hq _ _ _ _ hr => closePort_sameBooks (Ne.symm hq) hr)
      (closePort_isTurn hhandles) (hnodup _) (step_peerClosed.1 h) with ⟨hout, hsame, hsched⟩ |
      ⟨_, b, t, b', _, part, ds, hin, -, hab, hr, hba, hturn, hpart, hds⟩
    · have hexit : (portBooks server a).view.exit ≠ some peer := fun hexit => hout (mem_stale_iff.2 hexit)
      rw [if_neg hexit]
      exact ⟨hsame.books_eq, hsched⟩
    · have hexit : (portBooks server a).view.exit = some peer := mem_stale_iff.1 hin
      rw [if_pos hexit]
      -- the turn of the port is what closing it did
      obtain ⟨part', ds', hturn', hcloses⟩ := closePort_turn hserver hr
      obtain ⟨rfl, rfl⟩ := hturn'.unique hturn
      have hcloses := hcloses (hab.ports_eq ▸ hport)
      have hpart := hpart []
      rw [List.append_nil] at hpart
      rw [hpart, hds, hba.books_eq]
      have hbooks : portBooks server b = portBooks server a := hab.books_eq
      exact hbooks ▸ hcloses
  | peerUnusable peer =>
    obtain ⟨t, rfl, hloop⟩ := step_peerUnusable_cases h
    have hbooks : portBooks server { a with sticky := forgetAll ctx.servers peer a.sticky } =
        { portBooks server a with view := { portView server a with
          pool := (portView server a).pool.filter (· ≠ peer) } } := by
      rw [← portView_forgetAll hserver]
      rfl
    simp only [TurnEffect]
    rw [scheduledFor_append, scheduledFor_quiet poolEvents_scheduled, List.append_nil]
    rcases runs_forM_turn SameBooks.law (fun q hq => Obeys.discard fun _ _ _ _ hd => discover_sameBooks (Ne.symm hq) hd)
      (discover_isTurn hhandles) (hnodup _) hloop with ⟨hout, hsame, hsched⟩ |
      ⟨_, b, t', b', _, part, ds, hin, -, hab, hr, hba, hturn, hpart, hds⟩
    · have hexit : (portBooks server a).view.exit ≠ some peer := fun hexit => hout (mem_stale_iff.2 hexit)
      rw [if_neg hexit]
      exact ⟨hsame.books_eq.trans hbooks, hsched⟩
    · obtain ⟨r, hd⟩ := runs_discard.1 hr
      obtain ⟨part', hturn', hredis⟩ := discover_turn hserver hd
      obtain ⟨rfl, rfl⟩ := hturn'.unique hturn
      have hredis := hredis (hab.ports_eq ▸ hport)
      have hexit : (portBooks server a).view.exit = some peer := mem_stale_iff.1 hin
      rw [if_pos hexit, hpart, hds, hba.books_eq]
      have hab := hab.books_eq
      rw [hbooks] at hab
      exact ⟨hab ▸ hredis, rfl⟩
  | peerConnected peer address relayed => exact (step_peerConnected_unthrottled h).effect
  | selectPeer q peer => exact (step_selectPeer_unthrottled h).effect

/-- For a port without a handle nothing is scheduled and nothing becomes pending. -/
theorem Step.outside {l : Label} (hhandles : Handles ctx a) (hport : port ∉ a.destinations.ports)
    (h : Step ctx a l a') :
    (port ∈ a'.pendingRediscovery → port ∈ a.pendingRediscovery) ∧ scheduledFor port l.trace = [] := by
  have hdiscover : ∀ {q : Port} {b b' : DiscoveryActor S} {t : List Io} {avoid r : Option PeerId},
      Runs (discover ctx q avoid) b t r b' → port ∈ b'.pendingRediscovery → port ∈ b.pendingRediscovery := by
    intro q b b' t avoid r hd hp
    rcases runs_discover.1 hd with ⟨-, -, -, rfl⟩ | ⟨_, _, _, _, -, -, -, -, rfl⟩ <;> exact Finset.mem_of_mem_erase hp
  have hstale : ∀ p, port ∉ a.destinations.portsWhere p := fun p hp => hport (Destinations.mem_portsWhere.1 hp).1
  have hlaw : Law fun (b : DiscoveryActor S) (_ : List Io) b' => SameBooks (discoveryServer port) b b' := SameBooks.law
  obtain ⟨event, tr⟩ := l
  cases event with
  | discoverFor q =>
    obtain ⟨r, hd⟩ := step_discoverFor.1 h
    exact ⟨hdiscover hd, discover_scheduledFor hd⟩
  | requestNewPeer q =>
    obtain ⟨t, r, rfl, hd⟩ := step_requestNewPeer.1 h
    exact ⟨hdiscover hd, by rw [scheduledFor_append, discover_scheduledFor hd]; rfl⟩
  | peerClosed peer =>
    rcases runs_forM_turn hlaw
      (fun q hq _ _ _ _ hr => closePort_sameBooks (Ne.symm hq) hr) (closePort_isTurn hhandles)
      (a.destinations.nodup.filter _) (step_peerClosed.1 h) with ⟨-, hsame, hsched⟩ | ⟨_, _, _, _, _, _, _, hin, -⟩
    · exact ⟨hsame.pending_iff.1, hsched⟩
    · exact absurd hin (hstale _)
  | peerUnusable peer =>
    obtain ⟨t, rfl, hloop⟩ := step_peerUnusable_cases h
    rcases runs_forM_turn hlaw
      (fun q hq => Obeys.discard fun _ _ _ _ hd => discover_sameBooks (Ne.symm hq) hd) (discover_isTurn hhandles)
      (a.destinations.nodup.filter _) hloop with ⟨-, hsame, hsched⟩ | ⟨_, _, _, _, _, _, _, hin, -⟩
    · refine ⟨hsame.pending_iff.1, ?_⟩
      rw [scheduledFor_append, scheduledFor_quiet poolEvents_scheduled, List.append_nil]
      exact hsched
    · exact absurd hin (hstale _)
  | peerConnected peer address relayed =>
    obtain ⟨-, hpending, htr⟩ := step_peerConnected_unthrottled h
    exact ⟨fun hp => hpending ▸ hp, scheduledFor_quiet htr⟩
  | selectPeer q peer =>
    obtain ⟨-, hpending, htr⟩ := step_selectPeer_unthrottled h
    exact ⟨fun hp => hpending ▸ hp, scheduledFor_quiet htr⟩

end DiscoveryActor

end P2Proxy
