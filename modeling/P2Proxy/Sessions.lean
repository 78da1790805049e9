import P2Proxy.Transcript
import P2Proxy.Rediscovery
import P2Proxy.Interaction.Once
import P2Proxy.Interaction.Threads

/-!
# Sessions beside the discovery actor

The discovery actor with its inbox, and any number of sessions on any of the listen ports.  A session looks up the exit
of its port in the handle that the actor stores it in, or asks the actor for one and waits for the reply; it takes a
permit of the peer while it opens a stream, and reports a peer that cannot serve.  Everything happens in any order: the
calls of the sessions, the messages of others, the turns of the actor.  A handle is stored to at most once while an
event is handled, so a session that reads it meanwhile reads what it held before or what it holds after.
-/

namespace P2Proxy

open Interaction

/-- The capacity of the channel to the discovery actor. -/
def inboxCapacity : Nat := 100

/-- How many streams to one peer are opened at once. -/
def maxConcurrentPerPeer (servers : List Server) : Nat :=
  max 1 (((servers.map fun server => server.pool.maxTotal).max?).getD 30)

/-- A message to the discovery actor, with the session that waits for its reply. -/
structure Message where
  event : DiscoveryEvent
  asker : Option Nat

/-- An accepted connection. -/
structure Session where
  port : Port
  /-- what the session has said and heard -/
  past : List SessionIo
  /-- what it goes on with; a session that has panicked does not -/
  next : Option (Prog SessionCall SessionCall.Answer (Unit × Unit))
  /-- its message has been sent, or its permit taken -/
  waits : Bool

namespace Session

def accepted (token : String) (port : Port) : Session :=
  { port, past := [], next := some (runSession { port, token } ()), waits := false }

/-- The call that the session makes next. -/
def call? (t : Session) : Option SessionCall :=
  match t.next with
  | some (.ask q _) => some q
  | _ => none

/-- The peer that the session holds a permit of. -/
def held (t : Session) : Option PeerId :=
  match t.waits, t.call? with
  | true, some (.openStream peer) => some peer
  | _, _ => none

theorem held_waiting {t : Session} {q : SessionCall} (h : t.call? = some q) :
    { t with waits := true }.held = match q with
      | .openStream peer => some peer
      | _ => none := by
  have hcall : { t with waits := true }.call? = some q := h
  unfold held
  rw [hcall]
  cases q <;> rfl

/-- The session was told that the exit of its port is `r`. -/
def Told (t : Session) (r : Option PeerId) : Prop :=
  ⟨.loadDestination, r⟩ ∈ t.past ∨ ∃ port, ⟨.requestNewPeer port, some r⟩ ∈ t.past

/-- The session has heard `e`, and goes on. -/
def heard (t : Session) (e : SessionIo) (next : Prog SessionCall SessionCall.Answer (Unit × Unit)) : Session :=
  { t with past := t.past ++ [e], next := some next, waits := false }

def panicked (t : Session) : Session := { t with next := none, waits := false }

end Session

structure ProxySystem (S : Type) where
  actor : DiscoveryActor S
  /-- the messages in the channel, and the one that the actor is handling -/
  inbox : List Message
  current : Option Message
  /-- the replies that were sent to the sessions -/
  replies : Nat → Option (Option PeerId)
  /-- the permits of each peer that nobody holds -/
  permits : PeerId → Nat
  /-- the accepted connections, in the order in which they were accepted -/
  sessions : List Session

namespace ProxySystem

inductive Label
  | accepts (port : Port)
  /-- somebody else than a session sends a message -/
  | sends (event : DiscoveryEvent)
  | receives
  | handles (trace : List Io)
  /-- a session sends a message and waits, or takes a permit -/
  | starts (i : Nat)
  /-- the call of a session is answered -/
  | answers (i : Nat) (e : SessionIo)
  | panics (i : Nat)

/-- Only sessions request a peer, or report one as unusable. -/
def SentByOthers : DiscoveryEvent → Prop
  | .requestNewPeer _ | .peerUnusable _ => False
  | .discoverFor _ | .peerClosed _ | .peerConnected _ _ _ | .selectPeer _ _ => True

/-- The reply to the message that was handled; a request is replied to last. -/
def replyIn (tr : List Io) : Option (Option PeerId) :=
  match tr.getLast? with
  | some ⟨.reply peer, _⟩ => some peer
  | _ => none

variable {S : Type}

def init (ctx : Context) (sticky : S) (destinations : Destinations) : ProxySystem S where
  actor := .new sticky destinations
  inbox := []
  current := none
  replies _ := none
  permits _ := maxConcurrentPerPeer ctx.servers
  sessions := []

/-- Send a message, if the channel has room. -/
def post (s : ProxySystem S) (m : Message) : Option (ProxySystem S) :=
  if s.inbox.length < inboxCapacity then some { s with inbox := s.inbox ++ [m] } else none

/-- Take a permit of the peer, if there is one. -/
def acquire (s : ProxySystem S) (peer : PeerId) : Option (ProxySystem S) :=
  if 0 < s.permits peer then some { s with permits := Function.update s.permits peer (s.permits peer - 1) } else none

/-- What session `i` does first for a call that it has to wait for. -/
def start (s : ProxySystem S) (i : Nat) : SessionCall → Option (ProxySystem S)
  | .requestNewPeer port => s.post { event := .requestNewPeer port, asker := some i }
  | .peerUnusable peer => s.post { event := .peerUnusable peer, asker := none }
  | .openStream peer => s.acquire peer
  | _ => none

/-- The permits once a session has given back the one that it held. -/
def released (s : ProxySystem S) (t : Session) : PeerId → Nat :=
  match t.held with
  | some peer => Function.update s.permits peer (s.permits peer + 1)
  | none => s.permits

/-- The replies once the message was handled. -/
def replied (s : ProxySystem S) (m : Message) (tr : List Io) : Nat → Option (Option PeerId) :=
  match m.asker with
  | some i => Function.update s.replies i (replyIn tr)
  | none => s.replies

/-- The call of session `i` can be answered so.  A request may go unanswered for too long, whether its message was sent
or not; a stream is opened, or fails to open, with a permit in hand, and waiting for one may take too long as well. -/
def Answers (s : ProxySystem S) (i : Nat) (t : Session) : SessionIo → Prop
  | ⟨.loadDestination, x⟩ => x = s.actor.destination t.port
  | ⟨.requestNewPeer _, some r⟩ => t.waits = true ∧ s.replies i = some r
  | ⟨.peerUnusable _, _⟩ => t.waits = true
  | ⟨.openStream _, .ok ()⟩ => t.waits = true
  | ⟨.openStream peer, .error (.unsupportedProtocol q _)⟩ => t.waits = true ∧ q = peer
  | ⟨.openStream peer, .error (.io q _)⟩ => t.waits = true ∧ q = peer
  | ⟨.openStream peer, .error (.openTimeout q)⟩ => q = peer
  | _ => True

def Step [StickyStore S] (ctx : Context) (token : String) (s : ProxySystem S) : Label → ProxySystem S → Prop
  | .accepts port, s' =>
    port ∈ ctx.servers.map (·.port) ∧ s' = { s with sessions := s.sessions ++ [.accepted token port] }
  | .sends event, s' => SentByOthers event ∧ s.post { event, asker := none } = some s'
  | .receives, s' => ∃ m ms, s.current = none ∧ s.inbox = m :: ms ∧ s' = { s with inbox := ms, current := some m }
  | .handles tr, s' => ∃ m a, s.current = some m ∧ DiscoveryActor.Step ctx s.actor ⟨m.event, tr⟩ a ∧
      s' = { s with actor := a, current := none, replies := s.replied m tr }
  | .starts i, s' => ∃ t q s₁, s.sessions[i]? = some t ∧ t.call? = some q ∧ t.waits = false ∧ s.start i q = some s₁ ∧
      s' = { s₁ with sessions := s.sessions.set i { t with waits := true } }
  | .answers i e, s' => ∃ t k, s.sessions[i]? = some t ∧ t.next = some (.ask e.call k) ∧ s.Answers i t e ∧
      s' = { s with sessions := s.sessions.set i (t.heard e (k e.answer)), permits := s.released t }
  | .panics i, s' => ∃ t, s.sessions[i]? = some t ∧ t.call? ≠ none ∧
      s' = { s with sessions := s.sessions.set i t.panicked, permits := s.released t }

end ProxySystem

/-! ### What a session does before what -/

/-- A session on `port` has found the exit `peer`. -/
def Finds (port : Port) (peer : PeerId) (before : List SessionIo) : Prop :=
  ⟨.loadDestination, some peer⟩ ∈ before ∨ ⟨.requestNewPeer port, some (some peer)⟩ ∈ before

/-- What a session on `port` must have said and heard before it makes the call. -/
def Justified (port : Port) (before : List SessionIo) : SessionCall → Prop
  | .requestNewPeer q => q = port ∧ before = [⟨.loadDestination, none⟩]
  | .openStream peer => Finds port peer before
  | .peerUnusable peer => ∃ e : StreamError, e.isTerminalForPeer = true ∧ ⟨.openStream peer, .error e⟩ ∈ before
  | _ => True

/-- The call is neither to the discovery actor nor for a stream. -/
def SessionCall.Local : SessionCall → Prop
  | .requestNewPeer _ | .openStream _ | .peerUnusable _ => False
  | _ => True

section Programs

variable {ctx : SessionContext} {id : SessionId} {peer : PeerId} {tr : List SessionIo} {u v w : Unit}

theorem justified_of_local {port : Port} {before : List SessionIo} {q : SessionCall} (h : q.Local) :
    Justified port before q := by
  cases q with
  | requestNewPeer port => cases h
  | openStream peer => cases h
  | peerUnusable peer => cases h
  | _ => trivial

theorem serveStream_local {target : TargetAddr} (h : Runs (serveStream ctx id peer target) u tr v w) :
    ∀ e ∈ tr, e.call.Local := by
  obtain ⟨started, t, rfl, h₁⟩ := runs_ask_bind.1 h
  cases started with
  | error e =>
    obtain ⟨rfl, -⟩ := runs_pure.1 h₁
    simp [SessionCall.Local]
  | ok _ =>
    obtain ⟨_, t, rfl, h₂⟩ := runs_ask_bind.1 h₁
    obtain ⟨_, t, rfl, h₃⟩ := runs_ask_bind.1 h₂
    obtain ⟨_, t, rfl, h₄⟩ := runs_ask_bind.1 h₃
    obtain ⟨_, t, rfl, h₅⟩ := runs_ask_bind.1 h₄
    obtain ⟨rfl, -⟩ := runs_ask.1 h₅
    simp [SessionCall.Local]

theorem serveRequest_justified {request : SocksRequest} (lookup : List SessionIo) (hlookup : Finds ctx.port peer lookup)
    (h : Runs (serveRequest ctx id peer request) u tr v w) :
    EveryCut (fun before e _ => Justified ctx.port (lookup ++ before) e.call) tr := by
  obtain ⟨written, t, rfl, h₁⟩ := runs_ask_bind.1 h
  refine everyCut_cons.2 ⟨trivial, ?_⟩
  cases written with
  | error e =>
    obtain ⟨rfl, -⟩ := runs_pure.1 h₁
    exact everyCut_nil
  | ok _ =>
    obtain ⟨stream, t, rfl, h₂⟩ := runs_ask_bind.1 h₁
    refine everyCut_cons.2 ⟨?_, ?_⟩
    · exact hlookup.imp (List.mem_append_left _) (List.mem_append_left _)
    · cases stream with
      | error e =>
        obtain ⟨x, rfl⟩ := runs_rejectStream h₂
        split
        · rename_i he
          exact everyCut_cons.2 ⟨⟨e, he, by simp⟩, everyCut_cons.2 ⟨trivial, everyCut_nil⟩⟩
        · exact everyCut_cons.2 ⟨trivial, everyCut_nil⟩
      | ok _ => exact everyCut_of_mem fun e he _ _ => justified_of_local (serveStream_local h₂ e he)

theorem handleSocksConnection_justified (lookup : List SessionIo) (hlookup : Finds ctx.port peer lookup)
    (h : Runs (handleSocksConnection ctx peer) u tr v w) :
    EveryCut (fun before e _ => Justified ctx.port (lookup ++ before) e.call) tr := by
  rcases handleSocksConnection_cases h with ⟨id, hends⟩ | ⟨id, methods, request, t, rfl, ht⟩
  · -- it ends before it has read a request
    have hlocal : ∀ e ∈ tr, e.call.Local := by
      rcases hends with ⟨e, rfl⟩ | ⟨methods, ⟨x, rfl⟩ | ⟨e, rfl⟩ | ⟨e, rfl⟩⟩ <;> simp [SessionCall.Local]
    exact everyCut_of_mem fun e he _ _ => justified_of_local (hlocal e he)
  · have hrequest := serveRequest_justified (lookup ++ [⟨.newSessionId, id⟩, ⟨.readGreeting, .ok methods⟩,
      ⟨.writeMethod .noAuth, .ok ()⟩, ⟨.readRequest, .ok request⟩]) (hlookup.imp (List.mem_append_left _)
        (List.mem_append_left _)) ht
    simp only [everyCut_cons]
    exact ⟨trivial, trivial, trivial, trivial, by simpa using hrequest⟩

/-- Whatever a session is answered, it makes no call without its reason. -/
theorem runSession_justified (h : Runs (runSession ctx) u tr v w) :
    EveryCut (fun before e _ => Justified ctx.port before e.call) tr := by
  rcases runSession_cases h with ⟨r, x, -, rfl⟩ | ⟨lookup, peer, t, rfl, hlookup, ht⟩
  · simp [Justified]
  · have hfound := handleSocksConnection_justified lookup (by rcases hlookup with rfl | rfl <;> simp [Finds]) ht
    rcases hlookup with rfl | rfl <;> simpa [Justified] using hfound

end Programs

instance (q : SessionCall) : Nonempty q.Answer := by
  cases q <;> exact inferInstance

namespace Session

/-- The session runs on a configured port, and has followed its program so far. -/
structure Follows (ctx : Context) (token : String) (t : Session) : Prop where
  port_mem : t.port ∈ ctx.servers.map (·.port)
  after : ∃ r, (runSession { port := t.port, token } ()).After t.past r ∧ ∀ next ∈ t.next, next = r

variable {ctx : Context} {token : String} {t : Session} {q : SessionCall} {peer : PeerId}
  {k : q.Answer → Prog SessionCall SessionCall.Answer (Unit × Unit)}

theorem call?_eq_some : t.call? = some q ↔ ∃ k, t.next = some (.ask q k) := by
  unfold call?
  split
  · rename_i hnext
    simp only [hnext, Option.some.injEq]
    constructor
    · rintro rfl
      exact ⟨_, rfl⟩
    · rintro ⟨k, hk⟩
      cases hk
      rfl
  · rename_i hnext
    refine iff_of_false (by simp) ?_
    rintro ⟨k, hk⟩
    exact hnext q k hk

theorem follows_accepted {port : Port} (h : port ∈ ctx.servers.map (·.port)) :
    (accepted token port).Follows ctx token :=
  ⟨h, _, .start, by simp [accepted]⟩

theorem Follows.justified (h : t.Follows ctx token) (hcall : t.call? = some q) : Justified t.port t.past q := by
  obtain ⟨r, hafter, hnext⟩ := h.after
  obtain ⟨k, hk⟩ := call?_eq_some.1 hcall
  obtain rfl := hnext _ hk
  obtain ⟨x⟩ : Nonempty q.Answer := inferInstance
  obtain ⟨rest, a, hruns⟩ := hafter.next inferInstance x
  have hwhole : Runs (runSession { port := t.port, token }) () (t.past ++ ⟨q, x⟩ :: rest) a.1 a.2 := hruns
  exact runSession_justified hwhole t.past ⟨q, x⟩ rest rfl

/-- What a session has said and heard is the beginning of a whole run of its program. -/
theorem Follows.extends (h : t.Follows ctx token) :
    ∃ rest v w, Runs (runSession { port := t.port, token }) () (t.past ++ rest) v w := by
  obtain ⟨r, hafter, -⟩ := h.after
  obtain ⟨rest, a, hruns⟩ := hafter.extends inferInstance
  exact ⟨rest, a.1, a.2, hruns⟩

/-- The exit that a session has tried to open a stream to was found by it. -/
theorem Follows.finds (h : t.Follows ctx token) {x : Except StreamError Unit} (hopen : ⟨.openStream peer, x⟩ ∈ t.past) :
    Finds t.port peer t.past := by
  obtain ⟨rest, v, w, hruns⟩ := h.extends
  obtain ⟨before, rest', hpast⟩ := List.append_of_mem hopen
  have hcut := runSession_justified hruns before _ (rest' ++ rest) (by rw [hpast, List.append_assoc, List.cons_append])
  rw [hpast]
  exact hcut.imp (List.mem_append_left _) (List.mem_append_left _)

theorem Follows.heard (h : t.Follows ctx token) (hnext : t.next = some (.ask q k)) (x : q.Answer) :
    (t.heard ⟨q, x⟩ (k x)).Follows ctx token := by
  obtain ⟨r, hafter, hr⟩ := h.after
  obtain rfl := hr _ hnext
  exact ⟨h.port_mem, k x, hafter.answered x, by simp [Session.heard]⟩

theorem Follows.waiting (h : t.Follows ctx token) : { t with waits := true }.Follows ctx token := ⟨h.port_mem, h.after⟩

theorem Follows.panicked (h : t.Follows ctx token) : t.panicked.Follows ctx token := by
  obtain ⟨r, hafter, -⟩ := h.after
  exact ⟨h.port_mem, r, hafter, by simp [Session.panicked]⟩

end Session

namespace ProxySystem

variable {S : Type} {ctx : Context} {token : String} {s s' s₁ : ProxySystem S} {l : Label} {i : Nat} {t : Session}
  {peer : PeerId} {q : SessionCall} {sticky : S} {destinations : Destinations} {cap : Nat} {ls : List Label}

theorem post_eq_some {m : Message} :
    s.post m = some s' ↔ s.inbox.length < inboxCapacity ∧ s' = { s with inbox := s.inbox ++ [m] } := by
  simp [post, eq_comm]

theorem acquire_eq_some : s.acquire peer = some s' ↔
    0 < s.permits peer ∧ s' = { s with permits := Function.update s.permits peer (s.permits peer - 1) } := by
  simp [acquire, eq_comm]

/-- A session sends its request or its report, or takes a permit. -/
theorem start_cases (h : s.start i q = some s₁) :
    (∃ port, q = .requestNewPeer port ∧
      s₁ = { s with inbox := s.inbox ++ [{ event := .requestNewPeer port, asker := some i }] }) ∨
    (∃ peer, q = .peerUnusable peer ∧
      s₁ = { s with inbox := s.inbox ++ [{ event := .peerUnusable peer, asker := none }] }) ∨
    ∃ peer, q = .openStream peer ∧ 0 < s.permits peer ∧
      s₁ = { s with permits := Function.update s.permits peer (s.permits peer - 1) } := by
  cases q with
  | requestNewPeer port => exact .inl ⟨port, rfl, (post_eq_some.1 h).2⟩
  | peerUnusable peer => exact .inr (.inl ⟨peer, rfl, (post_eq_some.1 h).2⟩)
  | openStream peer => exact .inr (.inr ⟨peer, rfl, acquire_eq_some.1 h⟩)
  | _ => cases h

/-! ### Permits -/

private theorem countP_set (p : Session → Bool) (t' : Session) (ht : s.sessions[i]? = some t) :
    (s.sessions.set i t').countP p + (if p t then 1 else 0) = s.sessions.countP p + (if p t' then 1 else 0) := by
  obtain ⟨hi, rfl⟩ := List.getElem?_eq_some_iff.1 ht
  have hset := List.countP_set hi (p := p) (a := t')
  have hpos : (if p s.sessions[i] then 1 else 0) ≤ s.sessions.countP p := by
    split
    · rename_i hp
      exact List.countP_pos_iff.2 ⟨_, List.getElem_mem hi, hp⟩
    · exact Nat.zero_le _
  omega

/-- All permits are free or held by a session. -/
def Conserves (cap : Nat) (s : ProxySystem S) : Prop :=
  ∀ peer, s.permits peer + s.sessions.countP (fun t => t.held = some peer) = cap

/-- A session that stops waiting gives back what it held. -/
theorem Conserves.release {t' : Session} (h : s.Conserves cap) (ht : s.sessions[i]? = some t) (hheld : t'.held = none) :
    ({ s with sessions := s.sessions.set i t', permits := s.released t } : ProxySystem S).Conserves cap := by
  intro peer
  have hpeer := h peer
  have hcount := countP_set (fun t => t.held = some peer) t' ht
  simp only [hheld, decide_eq_true_eq, reduceCtorEq, if_false, Nat.add_zero] at hcount
  rw [← hpeer, ← hcount]
  unfold released
  cases hp : t.held with
  | none => simp
  | some p =>
    by_cases hpp : p = peer
    · subst hpp
      simp
      omega
    · simp [hpp, Function.update_of_ne (Ne.symm hpp)]

variable [StickyStore S]

theorem Step.conserves (hs : s.Conserves cap) (h : Step ctx token s l s') : s'.Conserves cap := by
  cases l with
  | accepts port =>
    obtain ⟨-, rfl⟩ := h
    intro peer
    have hnone : (Session.accepted token port).held = none := rfl
    simpa [hnone] using hs peer
  | sends event =>
    obtain ⟨-, hpost⟩ := h
    obtain ⟨-, rfl⟩ := post_eq_some.1 hpost
    exact hs
  | receives =>
    obtain ⟨m, ms, -, -, rfl⟩ := h
    exact hs
  | handles tr =>
    obtain ⟨m, a, -, -, rfl⟩ := h
    exact hs
  | starts i =>
    obtain ⟨t, q, s₁, ht, hcall, hwaits, hstart, rfl⟩ := h
    intro peer
    have hpeer := hs peer
    have hcount := countP_set (fun t => t.held = some peer) { t with waits := true } ht
    have hfree : t.held = none := by simp [Session.held, hwaits]
    simp only [hfree, Session.held_waiting hcall, decide_eq_true_eq, reduceCtorEq, if_false, Nat.add_zero] at hcount
    rcases start_cases hstart with ⟨port, rfl, rfl⟩ | ⟨p, rfl, rfl⟩ | ⟨p, rfl, hpos, rfl⟩
    · simpa [hcount] using hpeer
    · simpa [hcount] using hpeer
    · dsimp only
      rw [hcount]
      by_cases hp : p = peer
      · subst hp
        simp only [Function.update_self, if_true]
        omega
      · simpa [hp, Function.update_of_ne (Ne.symm hp)] using hpeer
  | answers i e =>
    obtain ⟨t, k, ht, -, -, rfl⟩ := h
    exact hs.release ht (by simp [Session.held, Session.heard])
  | panics i =>
    obtain ⟨t, ht, -, rfl⟩ := h
    exact hs.release ht (by simp [Session.held, Session.panicked])

/-- No permit is ever lost or taken twice, however a session ends. -/
theorem permits_conserved (h : Reaches (Step ctx token) (init ctx sticky destinations) ls s) (peer : PeerId) :
    s.permits peer + s.sessions.countP (fun t => t.held = some peer) = maxConcurrentPerPeer ctx.servers :=
  h.invariant (I := Conserves (maxConcurrentPerPeer ctx.servers)) (fun _ _ _ hs hl => hl.conserves hs)
    (fun _ => by simp [init]) peer

/-! ### Sessions only go on -/

/-- What a step may make of a session. -/
inductive Moves (s : ProxySystem S) (i : Nat) (t : Session) : Label → Session → Prop
  | starts {q : SessionCall} {s₁ : ProxySystem S} : t.call? = some q → t.waits = false → s.start i q = some s₁ →
      Moves s i t (.starts i) { t with waits := true }
  | hears {e : SessionIo} {k : e.call.Answer → Prog SessionCall SessionCall.Answer (Unit × Unit)} :
      t.next = some (.ask e.call k) → s.Answers i t e → Moves s i t (.answers i e) (t.heard e (k e.answer))
  | panics : t.call? ≠ none → Moves s i t (.panics i) t.panicked

omit [StickyStore S] in
theorem Moves.port_eq {t' : Session} (h : s.Moves i t l t') : t'.port = t.port := by
  cases h <;> rfl

omit [StickyStore S] in
theorem Moves.past_subset {t' : Session} (h : s.Moves i t l t') : t.past ⊆ t'.past := by
  cases h with
  | starts => exact List.Subset.refl _
  | hears => exact List.subset_append_left ..
  | panics => exact List.Subset.refl _

omit [StickyStore S] in
theorem Moves.follows {t' : Session} (h : s.Moves i t l t') (ht : t.Follows ctx token) : t'.Follows ctx token := by
  cases h with
  | starts => exact ht.waiting
  | hears hnext => exact ht.heard hnext _
  | panics => exact ht.panicked

/-- A step accepts a session, moves one, or leaves all alone. -/
theorem Step.sessions_cases (h : Step ctx token s l s') :
    (∃ port, l = .accepts port ∧ port ∈ ctx.servers.map (·.port) ∧
      s' = { s with sessions := s.sessions ++ [.accepted token port] }) ∨
    s'.sessions = s.sessions ∨
    ∃ i t t', s.sessions[i]? = some t ∧ s.Moves i t l t' ∧ s'.sessions = s.sessions.set i t' := by
  cases l with
  | accepts port => exact .inl ⟨port, rfl, h⟩
  | sends event =>
    obtain ⟨-, rfl⟩ := post_eq_some.1 h.2
    exact .inr (.inl rfl)
  | receives =>
    obtain ⟨m, ms, -, -, rfl⟩ := h
    exact .inr (.inl rfl)
  | handles tr =>
    obtain ⟨m, a, -, -, rfl⟩ := h
    exact .inr (.inl rfl)
  | starts i =>
    obtain ⟨t, q, s₁, ht, hcall, hwaits, hstart, rfl⟩ := h
    exact .inr (.inr ⟨i, t, _, ht, .starts hcall hwaits hstart, rfl⟩)
  | answers i e =>
    obtain ⟨t, k, ht, hnext, hanswer, rfl⟩ := h
    exact .inr (.inr ⟨i, t, _, ht, .hears hnext hanswer, rfl⟩)
  | panics i =>
    obtain ⟨t, ht, hcall, rfl⟩ := h
    exact .inr (.inr ⟨i, t, _, ht, .panics hcall, rfl⟩)

/-- A session that is there stays there, or moves. -/
theorem Step.session_goes_on (h : Step ctx token s l s') (ht : s.sessions[i]? = some t) :
    ∃ t', s'.sessions[i]? = some t' ∧ (t' = t ∨ s.Moves i t l t') := by
  rcases h.sessions_cases with ⟨port, -, -, rfl⟩ | hsame | ⟨j, u, u', hu, hmoves, hset⟩
  · refine ⟨t, ?_, .inl rfl⟩
    obtain ⟨hi, -⟩ := List.getElem?_eq_some_iff.1 ht
    rw [List.getElem?_append_left hi]
    exact ht
  · exact ⟨t, hsame ▸ ht, .inl rfl⟩
  · by_cases hij : j = i
    · subst hij
      obtain rfl : u = t := Option.some.inj (hu.symm.trans ht)
      obtain ⟨hj, -⟩ := List.getElem?_eq_some_iff.1 hu
      exact ⟨u', by rw [hset, List.getElem?_set_self hj], .inr hmoves⟩
    · exact ⟨t, by rw [hset, List.getElem?_set_ne hij, ht], .inl rfl⟩

/-- A session that is there was there and has stayed or moved, or has just been accepted. -/
theorem Step.session_came_from {t' : Session} (h : Step ctx token s l s') (ht' : s'.sessions[i]? = some t') :
    (∃ t, s.sessions[i]? = some t ∧ (t' = t ∨ s.Moves i t l t')) ∨
      ∃ port ∈ ctx.servers.map (·.port), t' = .accepted token port ∧ i = s.sessions.length := by
  rcases h.sessions_cases with ⟨port, -, hport, rfl⟩ | hsame | ⟨j, u, u', hu, hmoves, hset⟩
  · dsimp only at ht'
    rw [List.getElem?_append] at ht'
    split at ht'
    · exact .inl ⟨t', ht', .inl rfl⟩
    · obtain ⟨hi, rfl⟩ := List.getElem?_eq_some_iff.1 ht'
      rw [List.length_singleton] at hi
      exact .inr ⟨port, hport, by simp, by omega⟩
  · exact .inl ⟨t', hsame ▸ ht', .inl rfl⟩
  · left
    by_cases hij : j = i
    · subst hij
      obtain ⟨hj, -⟩ := List.getElem?_eq_some_iff.1 hu
      rw [hset, List.getElem?_set_self hj] at ht'
      obtain rfl := Option.some.inj ht'
      exact ⟨u, hu, .inr hmoves⟩
    · rw [hset, List.getElem?_set_ne hij] at ht'
      exact ⟨t', ht', .inl rfl⟩

/-! ### Messages -/

omit [StickyStore S] in
/-- The messages that have been sent and not been handled. -/
def mail (s : ProxySystem S) : List Message := s.current.toList ++ s.inbox

/-- A message was there, or somebody has just sent it. -/
theorem Step.mail_cases {m : Message} (h : Step ctx token s l s') (hm : m ∈ s'.mail) :
    m ∈ s.mail ∨ (m.asker = none ∧ SentByOthers m.event) ∨ ∃ i t, s.sessions[i]? = some t ∧
      ((∃ port, t.call? = some (.requestNewPeer port) ∧ m = { event := .requestNewPeer port, asker := some i }) ∨
        ∃ peer, t.call? = some (.peerUnusable peer) ∧ m = { event := .peerUnusable peer, asker := none }) := by
  cases l with
  | accepts port =>
    obtain ⟨-, rfl⟩ := h
    exact .inl hm
  | sends event =>
    obtain ⟨hevent, hpost⟩ := h
    obtain ⟨-, rfl⟩ := post_eq_some.1 hpost
    simp only [mail, ← List.append_assoc, List.mem_append, List.mem_singleton] at hm ⊢
    rcases hm with hm | rfl
    · exact .inl hm
    · exact .inr (.inl ⟨rfl, hevent⟩)
  | receives =>
    obtain ⟨n, ms, hcurrent, hinbox, rfl⟩ := h
    left
    simpa [mail, hcurrent, hinbox] using hm
  | handles tr =>
    obtain ⟨n, a, hcurrent, -, rfl⟩ := h
    exact .inl (List.mem_append_right _ (by simpa [mail] using hm))
  | starts i =>
    obtain ⟨t, q, s₁, ht, hcall, -, hstart, rfl⟩ := h
    rcases start_cases hstart with ⟨port, rfl, rfl⟩ | ⟨p, rfl, rfl⟩ | ⟨p, rfl, -, rfl⟩
    · simp only [mail, ← List.append_assoc, List.mem_append, List.mem_singleton] at hm ⊢
      rcases hm with hm | rfl
      · exact .inl hm
      · exact .inr (.inr ⟨i, t, ht, .inl ⟨port, hcall, rfl⟩⟩)
    · simp only [mail, ← List.append_assoc, List.mem_append, List.mem_singleton] at hm ⊢
      rcases hm with hm | rfl
      · exact .inl hm
      · exact .inr (.inr ⟨i, t, ht, .inr ⟨p, hcall, rfl⟩⟩)
    · exact .inl hm
  | answers i e =>
    obtain ⟨t, k, -, -, -, rfl⟩ := h
    exact .inl hm
  | panics i =>
    obtain ⟨t, -, -, rfl⟩ := h
    exact .inl hm

/-- What holds in every state: the actor has the configured handles, the sessions follow their program, and every
message has its sender. -/
structure Sound (ctx : Context) (token : String) (s : ProxySystem S) : Prop where
  handles : s.actor.Handles ctx
  follows : ∀ t ∈ s.sessions, t.Follows ctx token
  asked : ∀ m ∈ s.mail, ∀ i, m.asker = some i → ∃ t, s.sessions[i]? = some t ∧ m.event = .requestNewPeer t.port
  reported : ∀ m ∈ s.mail, ∀ peer, m.event = .peerUnusable peer → ∃ (t : Session) (e : StreamError),
    t ∈ s.sessions ∧ e.isTerminalForPeer = true ∧ ⟨.openStream peer, .error e⟩ ∈ t.past

omit [StickyStore S] in
theorem Sound.init (h : (DiscoveryActor.new sticky destinations).Handles ctx) :
    (init ctx sticky destinations).Sound ctx token where
  handles := h
  follows _ ht := absurd ht List.not_mem_nil
  asked _ hm := absurd hm List.not_mem_nil
  reported _ hm := absurd hm List.not_mem_nil

/-- The actor handles the current message, or nothing changes in it and in what it has replied. -/
theorem Step.actor_cases (h : Step ctx token s l s') :
    (s'.actor = s.actor ∧ s'.replies = s.replies) ∨ ∃ tr m, l = .handles tr ∧ s.current = some m ∧
      DiscoveryActor.Step ctx s.actor ⟨m.event, tr⟩ s'.actor ∧ s'.replies = s.replied m tr ∧
      s'.sessions = s.sessions := by
  cases l with
  | accepts port =>
    obtain ⟨-, rfl⟩ := h
    exact .inl ⟨rfl, rfl⟩
  | sends event =>
    obtain ⟨-, rfl⟩ := post_eq_some.1 h.2
    exact .inl ⟨rfl, rfl⟩
  | receives =>
    obtain ⟨m, ms, -, -, rfl⟩ := h
    exact .inl ⟨rfl, rfl⟩
  | handles tr =>
    obtain ⟨m, a, hcurrent, ha, rfl⟩ := h
    exact .inr ⟨tr, m, rfl, hcurrent, ha, rfl, rfl⟩
  | starts i =>
    obtain ⟨t, q, s₁, -, -, -, hstart, rfl⟩ := h
    rcases start_cases hstart with ⟨port, -, rfl⟩ | ⟨p, -, rfl⟩ | ⟨p, -, -, rfl⟩ <;> exact .inl ⟨rfl, rfl⟩
  | answers i e =>
    obtain ⟨t, k, -, -, -, rfl⟩ := h
    exact .inl ⟨rfl, rfl⟩
  | panics i =>
    obtain ⟨t, -, -, rfl⟩ := h
    exact .inl ⟨rfl, rfl⟩

theorem Step.handles_ctx (hs : s.actor.Handles ctx) (h : Step ctx token s l s') : s'.actor.Handles ctx := by
  rcases h.actor_cases with ⟨hactor, -⟩ | ⟨tr, m, -, -, ha, -⟩
  · rwa [hactor]
  · intro port
    rw [ha.ports_eq]
    exact hs port

theorem Step.sound (hs : s.Sound ctx token) (h : Step ctx token s l s') : s'.Sound ctx token := by
  refine ⟨h.handles_ctx hs.handles, fun t' ht' => ?_, fun m hm j hasker => ?_, fun m hm peer hevent => ?_⟩
  · obtain ⟨i, hi⟩ := List.getElem?_of_mem ht'
    rcases h.session_came_from hi with ⟨t, ht, rfl | hmoves⟩ | ⟨port, hport, rfl, -⟩
    · exact hs.follows _ (List.mem_of_getElem? ht)
    · exact hmoves.follows (hs.follows t (List.mem_of_getElem? ht))
    · exact Session.follows_accepted hport
  · rcases h.mail_cases hm with hm | ⟨hnone, -⟩ | ⟨i, t, ht, ⟨port, hcall, rfl⟩ | ⟨p, -, rfl⟩⟩
    · obtain ⟨t, ht, hevent⟩ := hs.asked m hm j hasker
      obtain ⟨t', ht', rfl | hmoves⟩ := h.session_goes_on ht
      · exact ⟨_, ht', hevent⟩
      · exact ⟨t', ht', hmoves.port_eq ▸ hevent⟩
    · rw [hnone] at hasker
      cases hasker
    · obtain rfl := Option.some.inj hasker
      obtain ⟨rfl, -⟩ := (hs.follows t (List.mem_of_getElem? ht)).justified hcall
      obtain ⟨t', ht', rfl | hmoves⟩ := h.session_goes_on ht
      · exact ⟨_, ht', rfl⟩
      · exact ⟨t', ht', by rw [hmoves.port_eq]⟩
    · cases hasker
  · have hgrows : ∀ (t : Session) (e : StreamError), t ∈ s.sessions → e.isTerminalForPeer = true →
        ⟨.openStream peer, .error e⟩ ∈ t.past → ∃ (t : Session) (e : StreamError), t ∈ s'.sessions ∧
          e.isTerminalForPeer = true ∧ ⟨.openStream peer, .error e⟩ ∈ t.past := by
      intro t e ht he hpast
      obtain ⟨i, hi⟩ := List.getElem?_of_mem ht
      obtain ⟨t', ht', rfl | hmoves⟩ := h.session_goes_on hi
      · exact ⟨_, e, List.mem_of_getElem? ht', he, hpast⟩
      · exact ⟨t', e, List.mem_of_getElem? ht', he, hmoves.past_subset hpast⟩
    rcases h.mail_cases hm with hm | ⟨-, hsent⟩ | ⟨i, t, ht, ⟨port, -, rfl⟩ | ⟨p, hcall, rfl⟩⟩
    · obtain ⟨t, e, ht, he, hpast⟩ := hs.reported m hm peer hevent
      exact hgrows t e ht he hpast
    · rw [hevent] at hsent
      cases hsent
    · cases hevent
    · cases hevent
      obtain ⟨e, he, hpast⟩ := (hs.follows t (List.mem_of_getElem? ht)).justified hcall
      exact hgrows t e (List.mem_of_getElem? ht) he hpast

/-! ### What a session was told -/

/-- The session was told that the exit of its port is `r`, or will be when it asks. -/
def Tells (s : ProxySystem S) (x : Nat × Option PeerId) : Prop :=
  (∃ t, s.sessions[x.1]? = some t ∧ t.Told x.2) ∨ s.replies x.1 = some x.2

/-- The exit of the port of session `i` is `r`. -/
def ExitOf (x : Nat × Option PeerId) (s : ProxySystem S) : Prop :=
  ∃ t, s.sessions[x.1]? = some t ∧ s.actor.destination t.port = x.2

omit [StickyStore S] in
theorem Moves.told {t' : Session} {r : Option PeerId} (h : s.Moves i t l t') (ht : s.sessions[i]? = some t)
    (htold : t'.Told r) : s.Tells (i, r) ∨ s.ExitOf (i, r) := by
  cases h with
  | starts => exact .inl (.inl ⟨t, ht, htold⟩)
  | panics => exact .inl (.inl ⟨t, ht, htold⟩)
  | @hears e k hnext hanswer =>
    simp only [Session.Told, Session.heard, List.mem_append, List.mem_singleton] at htold
    rcases htold with (hpast | rfl) | ⟨port, hpast | rfl⟩
    · exact .inl (.inl ⟨t, ht, .inl hpast⟩)
    · exact .inr ⟨t, ht, Eq.symm hanswer⟩
    · exact .inl (.inl ⟨t, ht, .inr ⟨port, hpast⟩⟩)
    · exact .inl (.inr hanswer.2)

/-- A request is answered with the exit that its port has then. -/
theorem reply_eq {a a' : DiscoveryActor S} {tr : List Io} {port : Port} {r : Option PeerId}
    (hhandles : a.Handles ctx) (hport : port ∈ ctx.servers.map (·.port))
    (h : DiscoveryActor.Step ctx a ⟨.requestNewPeer port, tr⟩ a') (hr : replyIn tr = some r) :
    a'.destination port = r := by
  obtain ⟨t, r', rfl, hd⟩ := DiscoveryActor.step_requestNewPeer.1 h
  obtain rfl : r' = r := by simpa [replyIn] using hr
  have hmem : port ∈ a.destinations.ports := (hhandles port).2 hport
  obtain ⟨server, hserver, -⟩ := hhandles.exists_server hmem
  rcases DiscoveryActor.runs_discover.1 hd with ⟨hn, -⟩ | ⟨_, _, result, _, -, -, -, rfl, rfl⟩
  · rw [hserver] at hn
    cases hn
  · exact Destinations.active_set_self hmem

/-- A reply was there, or was sent just now and tells the exit of the port. -/
theorem Step.replies_truly {r : Option PeerId} (hs : s.Sound ctx token) (h : Step ctx token s l s')
    (hr : s'.replies i = some r) : s.replies i = some r ∨ s'.ExitOf (i, r) := by
  rcases h.actor_cases with ⟨-, hsame⟩ | ⟨tr, m, -, hcurrent, ha, hreplies, hsessions⟩
  · exact .inl (hsame ▸ hr)
  · rw [hreplies, replied] at hr
    cases hasker : m.asker with
    | none =>
      rw [hasker] at hr
      exact .inl hr
    | some j =>
      rw [hasker] at hr
      dsimp only at hr
      by_cases hij : i = j
      · subst hij
        rw [Function.update_self] at hr
        obtain ⟨t, ht, hevent⟩ := hs.asked m (by simp [mail, hcurrent]) i hasker
        rw [hevent] at ha
        have hport := (hs.follows t (List.mem_of_getElem? ht)).port_mem
        exact .inr ⟨t, hsessions ▸ ht, reply_eq hs.handles hport ha hr⟩
      · rw [Function.update_of_ne hij] at hr
        exact .inl hr

theorem Step.tells (hs : s.Sound ctx token) (h : Step ctx token s l s') (x : Nat × Option PeerId)
    (hx : s'.Tells x) : s.Tells x ∨ s.ExitOf x ∨ s'.ExitOf x := by
  obtain ⟨i, r⟩ := x
  rcases hx with ⟨t', ht', htold⟩ | hreply
  · rcases h.session_came_from ht' with ⟨t, ht, rfl | hmoves⟩ | ⟨port, -, rfl, -⟩
    · exact .inl (.inl ⟨_, ht, htold⟩)
    · exact (hmoves.told ht htold).imp_right .inl
    · simp [Session.Told, Session.accepted] at htold
  · exact (h.replies_truly hs hreply).imp .inr .inr

theorem sound_of_reaches (hhandles : (DiscoveryActor.new sticky destinations).Handles ctx)
    (h : Reaches (Step ctx token) (init ctx sticky destinations) ls s) : s.Sound ctx token :=
  h.invariant (fun _ _ _ hs hl => hl.sound hs) (.init hhandles)

/-- Whatever a session was told about the exit of its port was true since it was accepted. -/
theorem told_once {r : Option PeerId} (hhandles : (DiscoveryActor.new sticky destinations).Handles ctx)
    (h : Reaches (Step ctx token) (init ctx sticky destinations) ls s) (ht : s.sessions[i]? = some t)
    (htold : t.Told r) : Once (Step ctx token) (ExitOf (i, r)) (init ctx sticky destinations) ls := by
  have htells : s.Tells (i, r) := .inl ⟨t, ht, htold⟩
  rcases h.once Tells ExitOf (fun _ _ _ hs hl => hl.sound hs) (fun _ _ _ x hs hl => hl.tells hs x) (.init hhandles)
      htells with hknown | honce
  · rcases hknown with ⟨t, ht, -⟩ | hreply
    · cases ht
    · cases hreply
  · exact honce

/-- A session opens streams only to a peer that was the exit of its port since it was accepted. -/
theorem served_by_exit {x : Except StreamError Unit} (hhandles : (DiscoveryActor.new sticky destinations).Handles ctx)
    (h : Reaches (Step ctx token) (init ctx sticky destinations) ls s) (ht : s.sessions[i]? = some t)
    (hopen : ⟨.openStream peer, x⟩ ∈ t.past) :
    Once (Step ctx token) (fun s₁ => ∃ t₁, s₁.sessions[i]? = some t₁ ∧ s₁.actor.destination t₁.port = some peer)
      (init ctx sticky destinations) ls := by
  have hfollows := (sound_of_reaches hhandles h).follows t (List.mem_of_getElem? ht)
  have hfound : t.Told (some peer) := (hfollows.finds hopen).imp_right fun hasked => ⟨t.port, hasked⟩
  exact told_once hhandles h ht hfound

/-- A peer is only given up as unusable after a session has found that it cannot serve, on a port that it was the exit
of meanwhile. -/
theorem unusable_proven {m : Message} (hhandles : (DiscoveryActor.new sticky destinations).Handles ctx)
    (h : Reaches (Step ctx token) (init ctx sticky destinations) ls s) (hm : s.current = some m)
    (hevent : m.event = .peerUnusable peer) :
    ∃ (i : Nat) (t : Session) (e : StreamError), s.sessions[i]? = some t ∧ e.isTerminalForPeer = true ∧
      ⟨.openStream peer, .error e⟩ ∈ t.past ∧
      Once (Step ctx token) (fun s₁ => ∃ t₁, s₁.sessions[i]? = some t₁ ∧ s₁.actor.destination t₁.port = some peer)
        (init ctx sticky destinations) ls := by
  have hsound := sound_of_reaches hhandles h
  obtain ⟨t, e, ht, he, hpast⟩ := hsound.reported m (by simp [mail, hm]) peer hevent
  obtain ⟨i, hi⟩ := List.getElem?_of_mem ht
  have hfound : t.Told (some peer) := ((hsound.follows t ht).finds hpast).imp_right fun hasked => ⟨t.port, hasked⟩
  exact ⟨i, t, e, hi, he, hpast, told_once hhandles h hi hfound⟩

/-! ### One session in a network with one exit -/

section OneSession

open DiscoverySystem (oneServer oneExit inWorld handles_oneServer)

/-- What a client that asks to connect says, while the exit turns out not to speak the protocol. -/
private def refusing : (q : SessionCall) → q.Answer
  | .loadDestination => none
  | .requestNewPeer _ => some (some ⟨[1]⟩)
  | .newSessionId => 7
  | .readGreeting => .ok [.noAuth]
  | .readRequest => .ok { command := .connect, address := .unspecified }
  | .writeMethod _ | .writeReply _ _ | .clientInit _ _ _ => .ok ()
  | .openStream _ => .error (.unsupportedProtocol ⟨[1]⟩ "")
  | .relay _ => (0, 0)
  | .peerUnusable _ | .emit _ | .streamClosed _ | .reportBandwidth _ _ _ => ()

/-- The only session goes on with the answer to its call. -/
private def resumed (s : ProxySystem StickyState) : ProxySystem StickyState :=
  match s.sessions with
  | [t] => match t.next with
    | some (.ask q k) => { s with sessions := [t.heard ⟨q, refusing q⟩ (k (refusing q))], permits := s.released t }
    | _ => s
  | _ => s

/-- It has done what the answer has to wait for. -/
private def waiting (s : ProxySystem StickyState) : ProxySystem StickyState :=
  { s with sessions := s.sessions.map fun t => { t with waits := true } }

private def opened : ProxySystem StickyState := init oneServer .empty (.dark [1080] nodup_onePort)

private def connecting : ProxySystem StickyState := { opened with sessions := [.accepted "" 1080] }

/-- The request of the session is in the channel. -/
def requesting : ProxySystem StickyState :=
  { waiting (resumed connecting) with inbox := [{ event := .requestNewPeer 1080, asker := some 0 }] }

theorem requesting_reaches : Reaches (Step oneServer "") (init oneServer .empty (.dark [1080] nodup_onePort))
    [.accepts 1080, .answers 0 ⟨.loadDestination, none⟩, .starts 0] requesting := by
  have haccepts : Step oneServer "" opened (.accepts 1080) connecting := ⟨by decide, rfl⟩
  have hloads : Step oneServer "" connecting (.answers 0 ⟨.loadDestination, none⟩) (resumed connecting) :=
    ⟨_, _, rfl, rfl, rfl, rfl⟩
  have hasks : Step oneServer "" (resumed connecting) (.starts 0) requesting := ⟨_, _, _, rfl, rfl, rfl, rfl, rfl⟩
  exact .cons haccepts (.cons hloads (.cons hasks (.nil _)))

/-- The actor handles the request. -/
private def handled : List Io × Unit × DiscoveryActor StickyState :=
  inWorld oneServer oneExit (.requestNewPeer 1080) requesting.actor

private def answered : ProxySystem StickyState :=
  { requesting with
    inbox := []
    actor := handled.2.2
    replies := Function.update requesting.replies 0 (replyIn handled.1) }

/-- The session has read the request of the client, and reported success. -/
private def promised : ProxySystem StickyState := resumed (resumed (resumed (resumed (resumed (resumed answered)))))

/-- It has tried to open a stream to the exit. -/
private def refused : ProxySystem StickyState :=
  resumed { waiting promised with permits := Function.update promised.permits ⟨[1]⟩ 29 }

/-- The exit is about to be given up. -/
private def reported : ProxySystem StickyState :=
  { waiting refused with current := some { event := .peerUnusable ⟨[1]⟩, asker := none } }

theorem replied_reaches : Reaches (Step oneServer "") requesting [.receives, .handles handled.1] answered := by
  have hreceives : Step oneServer "" requesting .receives { requesting with
      inbox := [], current := some { event := .requestNewPeer 1080, asker := some 0 } } := ⟨_, _, rfl, rfl, rfl⟩
  exact .cons hreceives (.cons ⟨_, _, rfl, exec_runs _ _ _, rfl⟩ (.nil _))

/-- The run in which the exit of the session does not speak the protocol. -/
private theorem reported_reaches :
    ∃ ls, Reaches (Step oneServer "") (init oneServer .empty (.dark [1080] nodup_onePort)) ls reported := by
  have hanswer : Step oneServer "" answered (.answers 0 ⟨.requestNewPeer 1080, some (some ⟨[1]⟩)⟩) (resumed answered) :=
    ⟨_, _, rfl, rfl, ⟨rfl, by decide⟩, rfl⟩
  have hid : Step oneServer "" (resumed answered) (.answers 0 ⟨.newSessionId, 7⟩) (resumed (resumed answered)) :=
    ⟨_, _, rfl, rfl, True.intro, rfl⟩
  have hgreeting : Step oneServer "" (resumed (resumed answered)) (.answers 0 ⟨.readGreeting, .ok [.noAuth]⟩)
      (resumed (resumed (resumed answered))) := ⟨_, _, rfl, rfl, True.intro, rfl⟩
  have hmethod : Step oneServer "" (resumed (resumed (resumed answered))) (.answers 0 ⟨.writeMethod .noAuth, .ok ()⟩)
      (resumed (resumed (resumed (resumed answered)))) := ⟨_, _, rfl, rfl, True.intro, rfl⟩
  have hrequest : Step oneServer "" (resumed (resumed (resumed (resumed answered))))
      (.answers 0 ⟨.readRequest, .ok { command := .connect, address := .unspecified }⟩)
      (resumed (resumed (resumed (resumed (resumed answered))))) := ⟨_, _, rfl, rfl, True.intro, rfl⟩
  have hpromise : Step oneServer "" (resumed (resumed (resumed (resumed (resumed answered)))))
      (.answers 0 ⟨.writeReply .succeeded .unspecified, .ok ()⟩) promised := ⟨_, _, rfl, rfl, True.intro, rfl⟩
  have hpermit : Step oneServer "" promised (.starts 0)
      { waiting promised with permits := Function.update promised.permits ⟨[1]⟩ 29 } :=
    ⟨_, _, _, rfl, rfl, rfl, rfl, rfl⟩
  have hopen : Step oneServer "" { waiting promised with permits := Function.update promised.permits ⟨[1]⟩ 29 }
      (.answers 0 ⟨.openStream ⟨[1]⟩, .error (.unsupportedProtocol ⟨[1]⟩ "")⟩) refused :=
    ⟨_, _, rfl, rfl, ⟨rfl, rfl⟩, rfl⟩
  have hreport : Step oneServer "" refused (.starts 0)
      { waiting refused with inbox := [{ event := .peerUnusable ⟨[1]⟩, asker := none }] } :=
    ⟨_, _, _, rfl, rfl, rfl, rfl, rfl⟩
  have hreceive : Step oneServer "" { waiting refused with inbox := [{ event := .peerUnusable ⟨[1]⟩, asker := none }] }
      .receives reported := ⟨_, _, rfl, rfl, rfl⟩
  have hrest := Reaches.cons hanswer (.cons hid (.cons hgreeting (.cons hmethod (.cons hrequest (.cons hpromise
    (.cons hpermit (.cons hopen (.cons hreport (.cons hreceive (.nil _))))))))))
  exact ⟨_, reaches_append.2 ⟨_, requesting_reaches, reaches_append.2 ⟨_, replied_reaches, hrest⟩⟩⟩

theorem permits_conserved_reported :
    reported.permits ⟨[1]⟩ + reported.sessions.countP (fun t => t.held = some ⟨[1]⟩) = 30 := by
  obtain ⟨ls, h⟩ := reported_reaches
  exact permits_conserved h ⟨[1]⟩

theorem served_by_exit_reported : ∃ ls, Once (Step oneServer "") (fun s => ∃ t, s.sessions[0]? = some t ∧
    s.actor.destination t.port = some ⟨[1]⟩) (init oneServer StickyState.empty (.dark [1080] nodup_onePort)) ls := by
  obtain ⟨ls, h⟩ := reported_reaches
  have hopened :
      (⟨.openStream ⟨[1]⟩, .error (.unsupportedProtocol ⟨[1]⟩ "")⟩ : SessionIo) ∈ reported.sessions[0].past :=
    List.mem_of_getElem? (i := 7) rfl
  exact ⟨ls, served_by_exit handles_oneServer h rfl hopened⟩

theorem unusable_proven_reported : ∃ ls, ∃ (i : Nat) (t : Session) (e : StreamError), reported.sessions[i]? = some t ∧
    e.isTerminalForPeer = true ∧ ⟨.openStream ⟨[1]⟩, .error e⟩ ∈ t.past ∧
    Once (Step oneServer "") (fun s => ∃ t, s.sessions[i]? = some t ∧ s.actor.destination t.port = some ⟨[1]⟩)
      (init oneServer StickyState.empty (.dark [1080] nodup_onePort)) ls := by
  obtain ⟨ls, h⟩ := reported_reaches
  exact ⟨ls, unusable_proven handles_oneServer h rfl rfl⟩

end OneSession

end ProxySystem

end P2Proxy
