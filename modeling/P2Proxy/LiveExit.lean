import P2Proxy.StickyConnect
import P2Proxy.PinnedConnect
import P2Proxy.PortView

/-!
# Late requests

A request for a port or a timer may be handled when the port has an exit again.  The actor connects the server anew all
the same.  The exit survives this if the dialer names it last, and the pool survives if nobody but the exit was tried in
vain (`KeepsExit`); `live_exit_kept_iff` says so of every interleaving of requests and timers.
-/

namespace P2Proxy

open Interaction

variable {S : Type} [StickyStore S] [LawfulStickyStore S] {relayAddress : Multiaddr} {server : Server} {s s' : S}
  {tr t : List Io} {p : PeerId} {pool : List PeerId}

/-! ### Connecting a server that has an exit -/

/-- The known peers that were tried in vain. -/
def triedInVain (tr : List Io) : List PeerId := ((reachAttempts tr).filter (·.2 = none)).map (·.1)

/-- The answers under which connecting `server` anew keeps the exit `p` and the pool.  The dialer names `p` last; and
if a sticky server comes to its pool, then `p` is the front of it, it is not too long, and at most `p` itself, listed
once, was tried in vain. -/
def KeepsExit (server : Server) (pool : List PeerId) (p : PeerId) (tr : List Io) : Prop :=
  lastNamed tr = some p ∧
    (server.peerOptions.sticky = true → reachAttempts tr ≠ [] ∨ 0 < tr.countP Io.isFindNodes →
      pool.head? = some p ∧ pool.length ≤ max 1 server.pool.maxTotal ∧
        (triedInVain tr = [] ∨ triedInVain tr = [p] ∧ p ∉ pool.tail))

/-- What follows the connect does not matter. -/
theorem keepsExit_append (h : Segment t [] 0) (hn : lastNamed t = none) :
    KeepsExit server pool p (tr ++ t) ↔ KeepsExit server pool p tr := by
  have hreach : reachAttempts (tr ++ t) = reachAttempts tr := by
    rw [reachAttempts_append h.headDials_eq, h.reachAttempts_eq, List.append_nil]
  have hqueries : (tr ++ t).countP Io.isFindNodes = tr.countP Io.isFindNodes := by
    rw [List.countP_append, h.queries_eq, Nat.add_zero]
  unfold KeepsExit triedInVain
  rw [hreach, hqueries, lastNamed_append, hn, Option.none_or]

omit [LawfulStickyStore S] in
/-- Without a peer that has just dropped, a connect leaves the store alone or comes to the pool and to discovery. -/
theorem connect_anew {r : Except ConnectError ConnectedDestination}
    (h : Runs (connect relayAddress server none : M S _) s tr r s') :
    (s' = s ∧ Segment tr [] 0) ∨ ∃ t₁ t₂, tr = t₁ ++ t₂ ∧ Segment t₁ [] 0 ∧
      Runs (connectPoolOrDiscover relayAddress server server.fingerprint none : M S _) s t₂ r s' := by
  unfold connect at h
  split at h
  · exact .inr ⟨[], tr, rfl, .nil, h⟩
  · rcases connectPinned_segment h with ⟨rfl, hs, -⟩ | ⟨-, t₁, t₂, rfl, hs, -, hd⟩
    · exact .inl ⟨rfl, hs⟩
    · exact .inr ⟨t₁, t₂, rfl, hs, hd⟩

omit [LawfulStickyStore S] in
/-- A server that is not sticky never touches the store. -/
theorem connect_unsticky {avoid : Option PeerId} {r : Except ConnectError ConnectedDestination}
    (hsticky : server.peerOptions.sticky = false) (h : Runs (connect relayAddress server avoid : M S _) s tr r s') :
    s' = s := by
  have hnot : ¬server.peerOptions.sticky = true := by simp [hsticky]
  exact connect_obeys (R := fun s _ s' => s' = s)
    { toLaw := Law.of_frame id
      call := fun _ _ => rfl
      pool := fun hs => absurd hs hnot
      forget := fun hs => absurd hs hnot
      adopt := fun hs => absurd hs hnot } avoid _ _ _ _ h

/-- Connecting anew keeps exit and pool under these answers and no others. -/
theorem connect_keepsExit_iff {r : Except ConnectError ConnectedDestination}
    (h : Runs (connect relayAddress server none : M S _) s tr r s') :
    (resultPeer r = some p ∧ exitPool server s' = exitPool server s) ↔
      KeepsExit server (exitPool server s) p tr := by
  unfold KeepsExit
  rw [connect_lastNamed h]
  refine and_congr_right fun hp => ?_
  rcases connect_anew h with ⟨rfl, hs⟩ | ⟨t₁, t₂, rfl, hs₁, h₂⟩
  · refine iff_of_true rfl fun _ hpool => ?_
    rw [hs.reachAttempts_eq, hs.queries_eq] at hpool
    simp at hpool
  · cases hsticky : server.peerOptions.sticky with
    | false => exact iff_of_true (by rw [connect_unsticky hsticky h]) (by simp)
    | true =>
      have hall : (exitPool server s).filter (some · ≠ none) = exitPool server s :=
        List.filter_eq_self.2 fun q _ => by simp
      rcases connectPoolOrDiscover_effect hsticky h₂ with
        ⟨pre, q, post, y, he, rfl, hs, hm⟩ | ⟨k, hs, ⟨rfl, -⟩ | ⟨y, rfl, hk, -, hm⟩⟩
      · -- a member of the pool answers, and those before it are dropped
        obtain rfl : y = p := Option.some.inj hp
        have hseg := hs₁.append hs
        have hvain : triedInVain (t₁ ++ t₂) = pre := by
          simp [triedInVain, hseg.reachAttempts_eq, List.filter_map, Function.comp_def]
        rw [hall] at he
        rw [hm, hvain, hseg.reachAttempts_eq, promote_filter_eq_iff ⟨q :: post, he.symm⟩]
        simp
      · cases hp
      · -- nobody answers, and the pool begins anew with the peer that discovery finds
        obtain rfl : y = p := Option.some.inj hp
        rw [hall] at hs
        have hseg := hs₁.append hs
        have hvain : triedInVain (t₁ ++ t₂) = exitPool server s := by
          simp [triedInVain, hseg.reachAttempts_eq, List.filter_map, Function.comp_def]
        have hempty :
            (exitPool server s).filter (some · = none) = (exitPool server s).filter (· ∉ exitPool server s) := by
          rw [List.filter_eq_nil_iff.2 fun q _ => by simp, List.filter_eq_nil_iff.2 fun q hq => by simpa using hq]
        rw [hm, hvain, hseg.queries_eq, hempty, promote_filter_eq_iff List.prefix_rfl]
        exact ⟨fun h _ _ => h, fun h => h rfl (.inr (by omega))⟩

/-! ### Requests and timers -/

/-- A request or a timer for `port`. -/
def DiscoveryEvent.Asks (port : Port) : DiscoveryEvent → Prop
  | .discoverFor q | .requestNewPeer q => q = port
  | _ => False

namespace DiscoveryActor

variable {ctx : Context} {a a' : DiscoveryActor S} {l : Label}

/-- A step that handles a request or a timer. -/
def RequestStep (ctx : Context) : DiscoveryActor S → Label → DiscoveryActor S → Prop :=
  guarded (Step ctx) fun _ l => ∃ port, l.event.Asks port

/-- The port still has the exit `p`, its pool is `pool`, and a request for it was answered with `p`. -/
structure Undisturbed (server : Server) (p : PeerId) (pool : List PeerId) (l : Label)
    (a' : DiscoveryActor S) : Prop where
  exit_eq : a'.destination server.port = some p
  pool_eq : exitPool server a'.sticky = pool
  reply_eq : l.event = .requestNewPeer server.port → l.trace.getLast? = some ⟨.reply (some p), ()⟩

/-- A discovery ends with the exit that it returns, and keeps exit and pool under the answers of `KeepsExit` only. -/
theorem discover_keepsExit_iff {r : Option PeerId} (hlookup : ctx.server? server.port = some server)
    (hport : server.port ∈ a.destinations.ports) (h : Runs (discover ctx server.port none) a tr r a') :
    a'.destination server.port = r ∧ ((a'.destination server.port = some p ∧
      exitPool server a'.sticky = exitPool server a.sticky) ↔ KeepsExit server (exitPool server a.sticky) p tr) := by
  rcases runs_discover.1 h with ⟨hn, -⟩ | ⟨other, t, result, s₁, hs, hc, rfl, rfl, rfl⟩
  · rw [hlookup] at hn; cases hn
  · obtain rfl : server = other := Option.some.inj (hlookup.symm.trans hs)
    have hdest : (a.destinations.set server.port (resultPeer result)).active server.port = resultPeer result :=
      Destinations.active_set_self hport
    have hevents : Segment [⟨.emit (poolEvent server s₁), ()⟩,
        ⟨.emit (activeEvent server.port (resultDestination result)), ()⟩] [] 0 := (Segment.emit _).append (.emit _)
    refine ⟨hdest, ?_⟩
    rw [keepsExit_append hevents rfl, ← connect_keepsExit_iff hc]
    exact and_congr_left' (by rw [destination, hdest])

/-- A request or a timer for a port with an exit leaves it undisturbed under the answers of `KeepsExit` only. -/
theorem Step.undisturbed_iff (hlookup : ctx.server? server.port = some server)
    (hexit : a.destination server.port = some p) (hl : l.event.Asks server.port) (h : Step ctx a l a') :
    Undisturbed server p (exitPool server a.sticky) l a' ↔ KeepsExit server (exitPool server a.sticky) p l.trace := by
  have hport : server.port ∈ a.destinations.ports := Destinations.mem_ports_of_active hexit
  obtain ⟨event, tr⟩ := l
  cases event with
  | discoverFor port =>
    obtain rfl : port = server.port := hl
    obtain ⟨r, hd⟩ := step_discoverFor.1 h
    obtain ⟨-, hiff⟩ := discover_keepsExit_iff (p := p) hlookup hport hd
    rw [← hiff]
    exact ⟨fun h => ⟨h.exit_eq, h.pool_eq⟩, fun h => ⟨h.1, h.2, by simp⟩⟩
  | requestNewPeer port =>
    obtain rfl : port = server.port := hl
    obtain ⟨t, r, rfl, hd⟩ := step_requestNewPeer.1 h
    obtain ⟨hr, hiff⟩ := discover_keepsExit_iff (p := p) hlookup hport hd
    have hreply : Segment [⟨.reply r, ()⟩] [] 0 := ⟨rfl, rfl, rfl⟩
    rw [keepsExit_append hreply rfl, ← hiff]
    refine ⟨fun h => ⟨h.exit_eq, h.pool_eq⟩, fun h => ⟨h.1, h.2, fun _ => ?_⟩⟩
    rw [List.getLast?_concat, ← hr, h.1]
  | peerClosed peer => cases hl
  | peerUnusable peer => cases hl
  | peerConnected peer address relayed => cases hl
  | selectPeer port peer => cases hl

/-- Late requests, exactly.  From a state in which the port has the exit `p`, a run of requests and timers for any ports
leaves the exit and the pool as they are and answers every request for the port with `p`, if and only if each request
and timer for the port meets answers that keep the exit. -/
theorem live_exit_kept_iff (hlookup : ctx.server? server.port = some server)
    (hexit : a.destination server.port = some p) {ls : List Label} (h : Reaches (RequestStep ctx) a ls a') :
    Throughout (RequestStep ctx) (fun _ l a' => Undisturbed server p (exitPool server a.sticky) l a') a ls ↔
      Reaches (guarded (RequestStep ctx) fun _ l =>
        l.event.Asks server.port → KeepsExit server (exitPool server a.sticky) p l.trace) a ls a' := by
  refine throughout_iff (J := fun b => b.destination server.port = some p ∧
    exitPool server b.sticky = exitPool server a.sticky) (fun b l b₁ b₂ h₁ h₂ => h₁.1.deterministic h₂.1)
    (fun b l b' _ _ hu => ⟨hu.exit_eq, hu.pool_eq⟩) ?_ ⟨hexit, rfl⟩ h
  rintro b l b' ⟨hb, hpool⟩ ⟨hstep, port, hport⟩
  by_cases hl : l.event.Asks server.port
  · rw [← hpool, hstep.undisturbed_iff hlookup hb hl]
    exact ⟨fun h _ => h, fun h => h hl⟩
  · -- a request for another port
    refine iff_of_true ?_ fun h => absurd h hl
    obtain ⟨event, tr⟩ := l
    have hview : portView server b' = portView server b := by
      cases event with
      | discoverFor q =>
        obtain ⟨r, hd⟩ := step_discoverFor.1 hstep
        exact (discover_same (Ne.symm hl) hd).view_eq
      | requestNewPeer q =>
        obtain ⟨t, r, -, hd⟩ := step_requestNewPeer.1 hstep
        exact (discover_same (Ne.symm hl) hd).view_eq
      | _ => cases hport
    obtain ⟨hexit', hpool'⟩ := PortView.mk.inj hview
    refine ⟨hexit'.trans hb, hpool'.trans hpool, ?_⟩
    rintro rfl
    exact absurd rfl hl

section Fixture

private def stickyContext : Context := dummyContext [discoveryServer 1080]

private def darkPort : DiscoveryActor StickyState := new .empty (.dark [1080] nodup_onePort)

/-- The hub's candidate is `[1]`, and it can be reached. -/
private def firstAnswers : World := { routes := [], candidates := [⟨⟨[1]⟩, []⟩], online := [⟨[1]⟩], connected := [] }

/-- `[1]` is connected but a new dial to it does not come up; the hub's candidate is `[2]`. -/
private def secondAnswers : World :=
  { routes := [], candidates := [⟨⟨[2]⟩, []⟩], online := [⟨[2]⟩], connected := [⟨[1]⟩] }

/-- A session's request for the port. -/
private def request (w : World) (a : DiscoveryActor StickyState) : List Io × Unit × DiscoveryActor StickyState :=
  exec w.answer (handle stickyContext (.requestNewPeer 1080)) a

private def served : DiscoveryActor StickyState := (request firstAnswers darkPort).2.2

private theorem request_step (w : World) (a : DiscoveryActor StickyState) :
    RequestStep stickyContext a ⟨.requestNewPeer 1080, (request w a).1⟩ (request w a).2.2 :=
  ⟨exec_runs _ _ _, 1080, rfl⟩

/-- A second session that asks while the hub answers as before gets the same peer. -/
theorem live_exit_kept_iff_twice :
    Throughout (RequestStep stickyContext)
      (fun _ l a' =>
        Undisturbed (discoveryServer 1080) ⟨[1]⟩ (exitPool (discoveryServer 1080) served.sticky) l a') served
      [⟨.requestNewPeer 1080, (request firstAnswers served).1⟩] :=
  (live_exit_kept_iff (by rfl) (by decide) (.cons (request_step firstAnswers served) (.nil _))).2
    (.cons ⟨request_step firstAnswers served, fun _ => ⟨by decide, fun _ _ => by decide⟩⟩ (.nil _))

/-- Two sessions find the port dark; the second request is handled when the first has been served, and gets another
peer, which takes the port. -/
theorem live_exit_displaced : ∃ l₁ l₂ a, Reaches (RequestStep stickyContext) darkPort [l₁, l₂] a ∧
    l₁.event = .requestNewPeer 1080 ∧ l₁.trace.getLast? = some ⟨.reply (some ⟨[1]⟩), ()⟩ ∧
    l₂.event = .requestNewPeer 1080 ∧ l₂.trace.getLast? = some ⟨.reply (some ⟨[2]⟩), ()⟩ ∧
    a.destination 1080 = some ⟨[2]⟩ :=
  ⟨_, _, _, .cons (request_step firstAnswers darkPort) (.cons (request_step secondAnswers served) (.nil _)),
    rfl, rfl, rfl, rfl, by decide⟩

end Fixture

end DiscoveryActor

end P2Proxy
