import P2Proxy.StickyConnect
import P2Proxy.PortView
import P2Proxy.FileSticky

/-!
# The stable exit

A sticky server without pins keeps its active exit at the front of its pool, whatever happens (`FrontIsActive`).  So
the file written by the last save names the exit first, and after a restart the first discovery for the port begins
with it: if it can be reached it is adopted again, and nobody else is asked for.
-/

namespace P2Proxy

open Interaction

/-- An active exit is the front of the pool. -/
def PortView.FrontIsActive (v : PortView) : Prop := ∀ p, v.exit = some p → v.pool.head? = some p

namespace DiscoveryActor

variable {S : Type} [StickyStore S] [LawfulStickyStore S] {ctx : Context} {server : Server}
  {a a' : DiscoveryActor S} {tr : List Io} {v v' : PortView} {event : DiscoveryEvent} {direct : Finset PeerId}
  {p : PeerId}

/-! ### The front of the pool -/

private theorem head?_filter_ne {l : List PeerId} {q : PeerId} (h : l.head? = some p) (hq : p ≠ q) :
    (l.filter (· ≠ q)).head? = some p := by
  obtain ⟨rest, rfl⟩ := List.head?_eq_some_iff.1 h
  simp [hq]

theorem Reconnected.frontIsActive {relayAddress : Multiaddr} {avoid : Option PeerId} (hserver : server.StickyExit)
    (h : Reconnected S relayAddress server avoid tr v v') : v'.FrontIsActive := by
  obtain ⟨s, s', result, hc, -, rfl⟩ := h
  intro p hp
  cases result with
  | ok d =>
    cases hp
    exact connect_front hserver hc
  | error e => cases hp

/-- No event takes the active exit off the front of the pool. -/
theorem PortEffect.frontIsActive (hserver : server.StickyExit) (hv : v.FrontIsActive)
    (h : PortEffect S ctx server direct tr v v' event) : v'.FrontIsActive := by
  rcases h.cases with ⟨rfl, hexit⟩ | ⟨_, -, rfl⟩ | ⟨avoid, t, -, hr⟩ | ⟨y, rfl, -⟩
  · intro p hp
    cases event with
    | peerUnusable peer =>
      refine head?_filter_ne (hv p hp) ?_
      rintro rfl
      exact hexit p rfl hp
    | _ => exact hv p hp
  · intro p hp
    cases hp
  · exact hr.frontIsActive hserver
  · intro p hp
    cases hp
    exact head?_promote

/-- A port without a handle has no exit. -/
theorem exit_eq_none (h : server.port ∉ a.destinations.ports) : (portView server a).exit = none :=
  a.destinations.outside _ h

theorem Step.frontIsActive {l : Label} (hlookup : ctx.server? server.port = some server) (hserver : server.StickyExit)
    (hv : (portView server a).FrontIsActive) (h : Step ctx a l a') : (portView server a').FrontIsActive := by
  by_cases hport : server.port ∈ a.destinations.ports
  · exact (h.portEffect hlookup hport).frontIsActive hserver hv
  · intro p hp
    rw [exit_eq_none (h.ports_eq ▸ hport)] at hp
    cases hp

theorem frontIsActive_of_reaches {s : S} {ports : List Port} {hports : ports.Nodup} {ls : List Label}
    (hlookup : ctx.server? server.port = some server) (hserver : server.StickyExit)
    (h : Reaches (Step ctx) (new s (.dark ports hports)) ls a) : (portView server a).FrontIsActive :=
  h.invariant (I := fun a => (portView server a).FrontIsActive) (fun _ _ _ hv hs => hs.frontIsActive hlookup hserver hv)
    fun _ hp => by cases hp

/-! ### After a restart -/

/-- Is an event about `port`, or about `p` being unusable? -/
def Concerns (port : Port) (p : PeerId) : DiscoveryEvent → Prop
  | .discoverFor q | .requestNewPeer q | .selectPeer q _ => q = port
  | .peerUnusable peer => peer = p
  | .peerClosed _ | .peerConnected _ _ _ => False

/-- A dark port whose pool begins with `p` stays so while no event is about it. -/
theorem PortEffect.stays_dark (hexit : v.exit = none) (hfront : v.pool.head? = some p)
    (hevent : ¬Concerns server.port p event) (h : PortEffect S ctx server direct tr v v' event) :
    v'.exit = none ∧ v'.pool.head? = some p := by
  have hsame : v' = v → v'.exit = none ∧ v'.pool.head? = some p := by
    rintro rfl; exact ⟨hexit, hfront⟩
  cases event with
  | discoverFor port | requestNewPeer port =>
    simp only [PortEffect] at h
    rw [if_neg (show ¬port = server.port from hevent)] at h
    exact hsame h
  | peerClosed peer =>
    simp only [PortEffect, hexit, reduceCtorEq, if_false] at h
    exact hsame h
  | peerUnusable peer =>
    simp only [PortEffect, hexit, reduceCtorEq, if_false] at h
    subst h
    exact ⟨rfl, head?_filter_ne hfront (Ne.symm hevent)⟩
  | peerConnected peer address relayed =>
    simp only [PortEffect, hexit, relayStuck, Bool.false_eq_true, false_and, and_false, if_false] at h
    exact hsame h
  | selectPeer port peer =>
    simp only [PortEffect] at h
    rw [if_neg (show ¬port = server.port from hevent)] at h
    exact hsame h

theorem stays_dark_of_reaches {ls : List Label} (hlookup : ctx.server? server.port = some server)
    (hport : server.port ∈ a.destinations.ports) (hexit : (portView server a).exit = none)
    (hfront : (portView server a).pool.head? = some p) (hls : ∀ l ∈ ls, ¬Concerns server.port p l.event)
    (h : Reaches (Step ctx) a ls a') :
    server.port ∈ a'.destinations.ports ∧ (portView server a').exit = none ∧
      (portView server a').pool.head? = some p := by
  refine ((reaches_guarded_iff h).2 hls).invariant (I := fun a => server.port ∈ a.destinations.ports ∧
    (portView server a).exit = none ∧ (portView server a).pool.head? = some p) ?_ ⟨hport, hexit, hfront⟩
  rintro a l a' ⟨hp, he, hf⟩ ⟨hs, hl⟩
  exact ⟨hs.ports_eq ▸ hp, (hs.portEffect hlookup hp).stays_dark he hf hl⟩

/-- A discovery of a dark port begins with the front of its pool. -/
theorem Step.readopts {l : Label} (hlookup : ctx.server? server.port = some server) (hserver : server.StickyExit)
    (hport : server.port ∈ a.destinations.ports) (hnodup : (view a.sticky).PoolsNodup)
    (hfront : (portView server a).pool.head? = some p) (hl : l.event = .discoverFor server.port)
    (h : Step ctx a l a') (hreach : (p, some p) ∈ reachAttempts l.trace) :
    a'.destination server.port = some p ∧ l.trace.countP Io.isFindNodes = 0 ∧
      ∀ A x, ⟨.dialAndWait A, x⟩ ∈ l.trace → ∃ ans, ⟨.resolvePeers [p], ans⟩ ∈ l.trace ∧
        A ⊆ reachRoutes ctx.relayAddress (StickyStore.directAddress server.port p a.sticky)
          (routesOf ctx.relayAddress [p] ans) p := by
  obtain ⟨event, tr⟩ := l
  obtain rfl : event = .discoverFor server.port := hl
  obtain ⟨r, hd⟩ := step_discoverFor.1 h
  rcases runs_discover.1 hd with ⟨hn, -⟩ | ⟨other, t, result, s₁, hs, hc, rfl, -, rfl⟩
  · rw [hlookup] at hn; cases hn
  · rw [hlookup] at hs
    cases hs
    have hevents : Segment [⟨.emit (poolEvent server s₁), ()⟩,
        ⟨.emit (activeEvent server.port (resultDestination result)), ()⟩] [] 0 := ⟨rfl, rfl, rfl⟩
    rw [reachAttempts_append hevents.headDials_eq, hevents.reachAttempts_eq, List.append_nil] at hreach
    obtain ⟨rfl, hq, hdials⟩ := connect_readopts hserver (nodup_exitPool hnodup) hfront hc hreach
    refine ⟨Destinations.active_set_self hport, ?_, fun A x hA => ?_⟩
    · rw [List.countP_append, hq]
      rfl
    · obtain ⟨ans, hans, hsub⟩ := hdials A x (by simpa using hA)
      exact ⟨ans, List.mem_append_left _ hans, hsub⟩

section File

variable {Raw : Type} [StickyJson Raw] [LawfulStickyJson Raw]

omit [LawfulStickyJson Raw] in
theorem Step.pools_nodup {a a' : DiscoveryActor (FileStickyStore Raw)} {l : Label} (h : Step ctx a l a')
    (ha : a.sticky.state.PoolsNodup) : a'.sticky.state.PoolsNodup := by
  have hsave : ∀ {st : FileStickyStore Raw} {state : StickyState}, state.PoolsNodup →
      (FileStickyStore.save { st with state }).state.PoolsNodup := by
    intro st state hst
    rw [FileStickyStore.state_save]
    exact hst
  exact h.sticky_invariant (I := fun st : FileStickyStore Raw => st.state.PoolsNodup)
    (fun _ _ _ hst => hsave hst.pool) (fun _ _ _ _ _ _ hst => hsave hst.remember)
    (fun _ _ _ hst => hsave hst.noteDirectAddress) (fun _ _ _ hst => hsave hst.forgetPeer) ha

theorem Step.synced {a a' : DiscoveryActor (FileStickyStore Raw)} {l : Label} (h : Step ctx a l a')
    (ha : a.sticky.Synced) : a'.sticky.Synced :=
  h.sticky_invariant (I := FileStickyStore.Synced) (fun _ _ _ hst => .save hst.renamed)
    (fun _ _ _ _ _ _ hst => .save hst.renamed) (fun _ _ _ hst => .save hst.renamed)
    (fun _ _ _ hst => .save hst.renamed) ha

/-- The stable exit.  In every reachable state an active exit is the front of the pool that the store returns; and if
all saves succeed, then after a restart on the file, whatever events come before that are not about the port or the
exit, the first discovery for the port takes the exit again when its routes reach it, without asking the hub for
candidates and without dialling anything but the exit's routes. -/
theorem stable_exit {file tmp : Stored Raw} {fates : Nat → SaveFate Raw} {ports : List Port} (hports : ports.Nodup)
    {ls : List Label} {a : DiscoveryActor (FileStickyStore Raw)}
    (hdistinct : (ctx.servers.map (·.port)).Nodup) (hpools : (FileStickyStore.load file tmp fates).state.PoolsNodup)
    (h : Reaches (Step ctx) (new (.load file tmp fates) (.dark ports hports)) ls a)
    (hconfigured : server ∈ ctx.servers) (hserver : server.StickyExit) (p : PeerId)
    (hexit : a.destination server.port = some p) :
    (StickyStore.pool server.port server.fingerprint a.sticky).1.head? = some p ∧
    ((∀ n, fates n = .renamed) → ∀ fates' ls' (b : DiscoveryActor (FileStickyStore Raw)) l b',
      Reaches (Step ctx) (new (.load a.sticky.file a.sticky.tmp fates') (.dark ports hports)) ls' b →
      (∀ l ∈ ls', ¬Concerns server.port p l.event) → l.event = .discoverFor server.port → Step ctx b l b' →
      (p, some p) ∈ reachAttempts l.trace →
      b'.destination server.port = some p ∧ l.trace.countP Io.isFindNodes = 0 ∧
        ∀ A x, ⟨.dialAndWait A, x⟩ ∈ l.trace → ∃ ans, ⟨.resolvePeers [p], ans⟩ ∈ l.trace ∧
          A ⊆ reachRoutes ctx.relayAddress (StickyStore.directAddress server.port p b.sticky)
            (routesOf ctx.relayAddress [p] ans) p) := by
  have hlookup := Context.server?_of_mem hdistinct hconfigured
  have hfront : (exitPool server a.sticky).head? = some p := frontIsActive_of_reaches hlookup hserver h p hexit
  refine ⟨by rw [pool_fst_eq_exitPool]; exact hfront, fun hfates fates' ls' b l b' hr hls hl hstep hreach => ?_⟩
  have hsynced : a.sticky.Synced :=
    h.invariant (I := fun a => a.sticky.Synced) (fun _ _ _ ha hs => hs.synced ha) (.load hfates)
  have hnodup : a.sticky.state.PoolsNodup :=
    h.invariant (I := fun a => a.sticky.state.PoolsNodup) (fun _ _ _ ha hs => hs.pools_nodup ha) hpools
  -- the restarted store has the state that the file was written from
  have hstate : (FileStickyStore.load a.sticky.file a.sticky.tmp fates').state = a.sticky.state :=
    congrArg StickyState.mk hsynced.loadPools_eq
  have hports' : server.port ∈ ports := by
    have hp := Destinations.mem_ports_of_active hexit
    rwa [h.invariant (I := fun a => a.destinations.ports = ports) (fun _ _ _ ha hs => hs.ports_eq.trans ha) rfl] at hp
  obtain ⟨hport, -, hfront'⟩ := stays_dark_of_reaches hlookup (by exact hports') (by rfl)
    (by simpa only [portView, new, exitPool, FileStickyStore.view_eq, hstate] using hfront) hls hr
  refine hstep.readopts hlookup hserver hport ?_ hfront' hl hreach
  refine hr.invariant (I := fun a => a.sticky.state.PoolsNodup) (fun _ _ _ ha hs => hs.pools_nodup ha) ?_
  show (FileStickyStore.load a.sticky.file a.sticky.tmp fates').state.PoolsNodup
  rw [hstate]
  exact hnodup

section Fixture

/-- Two candidates; only the second can be reached. -/
private def secondOnline : World :=
  { routes := [], candidates := [⟨⟨[1]⟩, []⟩, ⟨⟨[2]⟩, []⟩], online := [⟨[2]⟩], connected := [] }

private def oneHandle (store : FileStickyStore StickyFile) : DiscoveryActor (FileStickyStore StickyFile) :=
  new store (.dark [1080] nodup_onePort)

private def discoverOnce (store : FileStickyStore StickyFile) :=
  exec secondOnline.answer (handle (dummyContext [discoveryServer 1080]) (.discoverFor 1080)) (oneHandle store)

private def fresh : FileStickyStore StickyFile := .load .absent .absent fun _ => .renamed

private def restarted : FileStickyStore StickyFile :=
  let store := (discoverOnce fresh).2.2.sticky
  .load store.file store.tmp fun _ => .renamed

/-- The exit discovered before a restart is adopted again after it, without asking the hub for candidates. -/
theorem stable_exit_restarted :
    (discoverOnce restarted).2.2.destination 1080 = some ⟨[2]⟩ ∧
      (discoverOnce restarted).1.countP Io.isFindNodes = 0 := by
  have hrun : Reaches (Step (dummyContext [discoveryServer 1080])) (oneHandle fresh)
      [⟨.discoverFor 1080, (discoverOnce fresh).1⟩]
      (discoverOnce fresh).2.2 := .cons (exec_runs _ _ _) (.nil _)
  have hagain :=
    (stable_exit (by decide) (by decide) (by exact StickyState.PoolsNodup.empty) hrun (List.mem_singleton_self _)
    (discoveryServer_stickyExit 1080) ⟨[2]⟩ (by decide)).2 (fun _ => rfl) (fun _ => .renamed) [] _
    ⟨.discoverFor 1080, (discoverOnce restarted).1⟩ _ (.nil _) (by simp) rfl (exec_runs _ _ _) (by decide)
  exact ⟨hagain.1, hagain.2.1⟩

end Fixture

end File

end DiscoveryActor

end P2Proxy
