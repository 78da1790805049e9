import P2Proxy.Sticky
import P2Proxy.Backoff
import P2Proxy.Interaction.Obeys

/-!
# Ports and events

The calls by which the connect flow and the discovery actor reach the outside: the hub directory, the dialer, the
clocks, the event sink, the spawning of a delayed rediscovery and the reply to a requester.  The answers come from
the environment, about which nothing is assumed: a run is given by its trace of calls and answers.
-/

namespace P2Proxy

open Interaction

inductive DirectoryError
  | timeout
  | rejected (reason : String)
  | unsupported (reason : String)
  | taskFailed (reason : String)
deriving DecidableEq

inductive DialError
  | noneConnected
  | shutdown
deriving DecidableEq

/-- How an active destination was selected. -/
inductive DestinationSource
  | pinned (rank : Nat)
  | sticky
  | discovered
  | manual
deriving DecidableEq

structure PinnedPeerStatus where
  peerId : PeerId
  rank : Nat
  resolvable : Bool

inductive ConnectionEvents
  | connecting
  | connected (peer : PeerId)
  | disconnected (peer : PeerId)

/-- An IP address, byte by byte, with a port. -/
structure SocketAddr where
  ip : List UInt8
  port : Port
deriving DecidableEq

/-- Where a client wants to be connected to. -/
inductive TargetAddr
  | ip (address : SocketAddr)
  | domain (domain : String) (port : Port)
deriving DecidableEq

/-- A UUID, as a number. -/
abbrev SessionId := Nat

inductive SessionEvents
  | new (id : SessionId) (target : TargetAddr) (peer : PeerId)
  | ends (id : SessionId)

inductive BandwidthEvents
  | upload (id : SessionId) (bytes : UInt64)
  | download (id : SessionId) (bytes : UInt64)

inductive Events
  | localPeerId (peer : PeerId)
  | connection (event : ConnectionEvents)
  | session (event : SessionEvents)
  | bandwidth (event : BandwidthEvents)
  | error (message : String)
  | serverPool (port : Port) (peers : List PoolPeer)
  | peerRoute (peerId : PeerId) (address : Multiaddr) (relayed : Bool)
  | activeDestination (port : Port) (peer : Option PeerId) (source : Option DestinationSource)
  | pinnedPeerStatuses (port : Port) (statuses : List PinnedPeerStatus)
  | stickyPool (port : Port) (peers : List PoolPeer)

/-- The hub's answer to a resolve request: a map from peers to routes, in the order it is iterated in. -/
abbrev Routes := AList fun _ : PeerId => List Multiaddr

namespace Routes

/-- Collect pairs into a map; a later pair replaces an earlier one. -/
def collect (l : List (PeerId × List Multiaddr)) : Routes := l.foldl (fun m kv => m.insert kv.1 kv.2) ∅

/-- `into_values().flatten()` -/
def flatten (r : Routes) : List Multiaddr := r.entries.flatMap Sigma.snd

theorem mem_flatten {r : Routes} {a : Multiaddr} : a ∈ r.flatten ↔ ∃ p as, r.lookup p = some as ∧ a ∈ as := by
  unfold flatten
  rw [List.mem_flatMap]
  constructor
  · rintro ⟨⟨p, as⟩, he, ha⟩; exact ⟨p, as, AList.mem_lookup_iff.2 he, ha⟩
  · rintro ⟨p, as, hl, ha⟩; exact ⟨⟨p, as⟩, AList.mem_lookup_iff.1 hl, ha⟩

private theorem lookup_foldl_insert (l : List (PeerId × List Multiaddr)) (m : Routes) (p : PeerId) :
    (l.foldl (fun m kv => m.insert kv.1 kv.2) m).lookup p = m.lookup p ∨
      ∃ as, (l.foldl (fun m kv => m.insert kv.1 kv.2) m).lookup p = some as ∧ (p, as) ∈ l := by
  induction l generalizing m with
  | nil => exact .inl rfl
  | cons kv l ih =>
    rcases ih (m.insert kv.1 kv.2) with h | ⟨as, h, has⟩
    · by_cases hp : p = kv.1
      · subst hp
        exact .inr ⟨kv.2, by simpa using h, List.mem_cons_self ..⟩
      · left
        simpa [AList.lookup_insert_ne hp] using h
    · exact .inr ⟨as, h, List.mem_cons_of_mem _ has⟩

/-- A key that is collected is in the map. -/
theorem lookup_collect_isSome {l : List (PeerId × List Multiaddr)} {p : PeerId} {as : List Multiaddr}
    (h : (p, as) ∈ l) : ((collect l).lookup p).isSome := by
  suffices hfold : ∀ (l : List (PeerId × List Multiaddr)) (m : Routes), (m.lookup p).isSome ∨ (p, as) ∈ l →
      ((l.foldl (fun m kv => m.insert kv.1 kv.2) m).lookup p).isSome from hfold l ∅ (.inr h)
  intro l
  induction l with
  | nil => exact fun m hm => hm.resolve_right List.not_mem_nil
  | cons kv l ih =>
    intro m hm
    refine ih _ ?_
    by_cases hp : p = kv.1
    · subst hp
      simp
    · rw [AList.lookup_insert_ne hp]
      refine hm.imp_right fun hmem => (List.mem_cons.1 hmem).resolve_left fun heq => hp ?_
      rw [← heq]

/-- What a collected map holds under a key was collected under this key. -/
theorem mem_of_lookup_collect {l : List (PeerId × List Multiaddr)} {p : PeerId} {as : List Multiaddr}
    (h : (collect l).lookup p = some as) : (p, as) ∈ l := by
  rcases lookup_foldl_insert l ∅ p with he | ⟨as', he, has⟩
  · rw [collect, he, AList.lookup_empty] at h
    cases h
  · rw [collect, he, Option.some.injEq] at h
    exact h ▸ has

end Routes

/-- A point of the monotonic clock, in nanoseconds. -/
abbrev Instant := Nat

inductive Call
  | resolvePeers (peers : List PeerId)
  | findNodes (server : Server) (limit : Nat)
  | dialAndWait (addresses : Finset Multiaddr)
  | isConnected (peer : PeerId)
  | sleep (duration : Duration)
  | emit (event : Events)
  | utcNow
  | instantNow
  | spawnDiscoverFor (port : Port) (after : Duration)
  | reply (peer : Option PeerId)

@[reducible] def Call.Answer : Call → Type
  | .resolvePeers _ => Except DirectoryError Routes
  | .findNodes _ _ => Except DirectoryError (List PoolPeer)
  | .dialAndWait _ => Except DialError (Option PeerId)
  | .isConnected _ => Bool
  | .utcNow => DateTime
  | .instantNow => Instant
  | .sleep _ | .emit _ | .spawnDiscoverFor _ _ | .reply _ => Unit

/-- A call with its answer. -/
abbrev Io := Exchange Call Call.Answer

/-- Code with the state `σ` that uses the ports. -/
abbrev M (σ : Type) := Proc Call Call.Answer σ

variable {σ : Type}

def emit (event : Events) : M σ Unit := ask (Call.emit event)

def sleep (duration : Duration) : M σ Unit := ask (Call.sleep duration)

@[simp] theorem runs_emit {event : Events} {s s' : σ} {tr : List Io} {u : Unit} :
    Runs (emit event : M σ Unit) s tr u s' ↔ tr = [⟨.emit event, ()⟩] ∧ s' = s := by
  cases u; exact runs_ask

@[simp] theorem runs_sleep {d : Duration} {s s' : σ} {tr : List Io} {u : Unit} :
    Runs (sleep d : M σ Unit) s tr u s' ↔ tr = [⟨.sleep d, ()⟩] ∧ s' = s := by
  cases u; exact runs_ask

/-! ### Reading a trace -/

namespace Io

/-- The peer that the dialer says it has connected. -/
def dialled : Io → Option PeerId
  | ⟨.dialAndWait _, .ok peer⟩ => peer
  | _ => none

/-- The peer that a positive answer of the dialer, to a dial or to `is_connected`, names. -/
def named : Io → Option PeerId
  | ⟨.dialAndWait _, .ok peer⟩ => peer
  | ⟨.isConnected peer, true⟩ => some peer
  | _ => none

def isDial : Io → Bool
  | ⟨.dialAndWait _, _⟩ => true
  | _ => false

/-- The peer of a resolve request for a single peer. -/
def resolving : Io → Option PeerId
  | ⟨.resolvePeers [p], _⟩ => some p
  | _ => none

def isFindNodes : Io → Bool
  | ⟨.findNodes _ _, _⟩ => true
  | _ => false

/-- A call of the dialer, a dial or a check. -/
def toDialer : Io → Bool
  | ⟨.dialAndWait _, _⟩ | ⟨.isConnected _, _⟩ => true
  | _ => false

theorem not_query_of_toDialer {e : Io} (h : e.toDialer = true) : e.resolving = none ∧ e.isFindNodes = false := by
  obtain ⟨q, x⟩ := e
  cases q with
  | dialAndWait addresses => exact ⟨rfl, rfl⟩
  | isConnected peer => exact ⟨rfl, rfl⟩
  | _ => cases h

/-- The dialer only ever returns a peer that is the last `/p2p/` component of an address it was given. -/
def DialHonest : Io → Prop
  | ⟨.dialAndWait addresses, .ok (some p)⟩ => p ∈ destinationPeerIds addresses
  | _ => True

end Io

/-- What the hub returns under `p` leads to `p`, or to nobody in particular. -/
def Names (ans : Except DirectoryError Routes) (p : PeerId) : Prop :=
  ∀ routes as, ans = .ok routes → routes.lookup p = some as → ∀ a ∈ as, ∀ q, lastP2p a = some q → q = p

/-- The peers that the positive answers of the dialer name. -/
def namedPeers (tr : List Io) : List PeerId := tr.filterMap Io.named

/-- The peer named by the last positive answer of the dialer. -/
def lastNamed (tr : List Io) : Option PeerId := (namedPeers tr).getLast?

@[simp] theorem namedPeers_append (t₁ t₂ : List Io) : namedPeers (t₁ ++ t₂) = namedPeers t₁ ++ namedPeers t₂ :=
  List.filterMap_append

@[simp] theorem lastNamed_append (t₁ t₂ : List Io) :
    lastNamed (t₁ ++ t₂) = (lastNamed t₂).or (lastNamed t₁) := by
  rw [lastNamed, namedPeers_append, List.getLast?_append]
  rfl

theorem lastNamed_of_namedPeers {tr : List Io} {r : Option PeerId} (h : namedPeers tr = r.toList) :
    lastNamed tr = r := by
  rw [lastNamed, h]
  cases r <;> rfl

theorem mem_namedPeers {tr : List Io} {p : PeerId} : p ∈ namedPeers tr ↔ ∃ e ∈ tr, e.named = some p :=
  List.mem_filterMap

theorem mem_of_lastNamed {tr : List Io} {p : PeerId} (h : lastNamed tr = some p) : p ∈ namedPeers tr :=
  List.mem_of_getLast? h

/-- Does a trace begin with a dial? -/
def headDials (tr : List Io) : Bool := tr.head?.any Io.isDial

/-- The outcome of the dials at the head of a trace: the peer of the first that connects. -/
def firstReached : List Io → Option PeerId
  | [] => none
  | e :: tr => if e.isDial then e.dialled.or (firstReached tr) else none

/-- The attempts to reach a single peer, in order and with their outcomes: a resolve request for that peer followed
at once by dials. -/
def reachAttempts : List Io → List (PeerId × Option PeerId)
  | [] => []
  | e :: tr =>
    match e.resolving with
    | some p => if headDials tr then (p, firstReached tr) :: reachAttempts tr else reachAttempts tr
    | none => reachAttempts tr

theorem headDials_append {t₁ t₂ : List Io} (h : headDials t₂ = false) :
    headDials (t₁ ++ t₂) = headDials t₁ := by
  cases t₁ with
  | nil => exact h
  | cons e t₁ => rfl

theorem firstReached_append {t₁ t₂ : List Io} (h : headDials t₂ = false) :
    firstReached (t₁ ++ t₂) = firstReached t₁ := by
  induction t₁ with
  | nil =>
    cases t₂ with
    | nil => rfl
    | cons e t₂ =>
      have he : e.isDial = false := by simpa [headDials] using h
      simp [firstReached, he]
  | cons e t₁ ih => simp only [List.cons_append, firstReached, ih]

/-- Attempts do not run across the border of two traces, unless the second begins with a dial. -/
theorem reachAttempts_append {t₁ t₂ : List Io} (h : headDials t₂ = false) :
    reachAttempts (t₁ ++ t₂) = reachAttempts t₁ ++ reachAttempts t₂ := by
  induction t₁ with
  | nil => rfl
  | cons e t₁ ih =>
    simp only [List.cons_append, reachAttempts, headDials_append h, firstReached_append h, ih]
    split
    · split <;> rfl
    · rfl

theorem reachAttempts_eq_nil {tr : List Io} (h : ∀ e ∈ tr, e.resolving = none) : reachAttempts tr = [] := by
  induction tr with
  | nil => rfl
  | cons e tr ih =>
    simp only [reachAttempts, h e (List.mem_cons_self ..), ih fun e he => h e (List.mem_cons_of_mem _ he)]

/-- A stretch of a trace that does not begin with a dial: it makes the attempts `attempts` and asks the hub for
candidates `queries` times. -/
structure Segment (tr : List Io) (attempts : List (PeerId × Option PeerId)) (queries : Nat) : Prop where
  headDials_eq : headDials tr = false
  reachAttempts_eq : reachAttempts tr = attempts
  queries_eq : tr.countP Io.isFindNodes = queries

namespace Segment

variable {tr t₁ t₂ : List Io} {as as₁ as₂ : List (PeerId × Option PeerId)} {n n₁ n₂ : Nat}

theorem nil : Segment [] [] 0 := ⟨rfl, rfl, rfl⟩

theorem emit (event : Events) : Segment [⟨.emit event, ()⟩] [] 0 := ⟨rfl, rfl, rfl⟩

theorem sleep (d : Duration) : Segment [⟨.sleep d, ()⟩] [] 0 := ⟨rfl, rfl, rfl⟩

theorem append (h₁ : Segment t₁ as₁ n₁) (h₂ : Segment t₂ as₂ n₂) : Segment (t₁ ++ t₂) (as₁ ++ as₂) (n₁ + n₂) where
  headDials_eq := by rw [headDials_append h₂.headDials_eq, h₁.headDials_eq]
  reachAttempts_eq := by
    rw [reachAttempts_append h₂.headDials_eq, h₁.reachAttempts_eq, h₂.reachAttempts_eq]
  queries_eq := by rw [List.countP_append, h₁.queries_eq, h₂.queries_eq]

/-- A sequence of stretches without attempts and queries is one. -/
theorem flatten {ts : List (List Io)} (h : ∀ t ∈ ts, Segment t [] 0) : Segment ts.flatten [] 0 := by
  induction ts with
  | nil => exact nil
  | cons t ts ih =>
    exact (h t (List.mem_cons_self ..)).append (ih fun t ht => h t (List.mem_cons_of_mem _ ht))

end Segment

/-! ### A network that does not change -/

/-- A network in which the hub's routes, its candidates and the peers that can be reached stay the same. -/
structure World where
  routes : List (PeerId × List Multiaddr)
  candidates : List PoolPeer
  online : List PeerId
  connected : List PeerId

/-- The answers of such a network; a dial reaches the first peer online that one of its addresses leads to. -/
def World.answer (w : World) (_ : List Io) : (q : Call) → q.Answer
  | .resolvePeers peers => .ok (.collect (w.routes.filter (·.1 ∈ peers)))
  | .findNodes _ limit => .ok (w.candidates.take limit)
  | .dialAndWait addresses => .ok (w.online.find? (· ∈ destinationPeerIds addresses))
  | .isConnected peer => w.connected.contains peer
  | .utcNow => 0
  | .instantNow => 0
  | .sleep _ | .emit _ | .spawnDiscoverFor _ _ | .reply _ => ()

namespace World

variable {α : Type} {m : M σ α} {s : σ} {w : World}

/-- Its dialer is honest. -/
theorem dialHonest : ∀ e ∈ (exec w.answer m s).1, Io.DialHonest e := by
  intro e he
  obtain ⟨past, q, rfl⟩ := exec_answers he
  cases q with
  | dialAndWait addresses =>
    cases h : w.online.find? (· ∈ destinationPeerIds addresses) with
    | none => simp [answer, h, Io.DialHonest]
    | some p => simpa [answer, h, Io.DialHonest] using List.find?_some h
  | _ => exact True.intro

/-- Its hub names peers truthfully if the routes that it knows do. -/
theorem names (hroutes : ∀ kv ∈ w.routes, ∀ a ∈ kv.2, ∀ q, lastP2p a = some q → q = kv.1) {peers : List PeerId}
    {ans : Except DirectoryError Routes} (h : (⟨.resolvePeers peers, ans⟩ : Io) ∈ (exec w.answer m s).1)
    (p : PeerId) : Names ans p := by
  obtain ⟨past, q, he⟩ := exec_answers h
  obtain ⟨rfl, he⟩ := Exchange.mk.inj he
  obtain rfl := eq_of_heq he
  rintro routes as hr hl a ha
  cases hr
  exact hroutes (p, as) (List.mem_of_mem_filter (Routes.mem_of_lookup_collect hl)) a ha

end World

end P2Proxy
