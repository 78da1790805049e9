import P2Proxy.Rediscovery

/-!
# Ports that stay dark

A port that has lost its exit is rediscovered by a cooldown task or a message that is still outstanding, as long as no
rediscovery fails: a connect that fails clears the port, and nobody schedules another.  `lit_iff` says so of every run.
-/

namespace P2Proxy

open Interaction

namespace DiscoveryActor

/-- The peer that has just dropped and is not to be tried as a member of the pool. -/
def avoided : DiscoveryEvent → Option PeerId
  | .peerClosed peer => some peer
  | _ => none

end DiscoveryActor

namespace DiscoverySystem

variable {S : Type} [StickyStore S]

/-- A rediscovery of the port is outstanding: a cooldown task, or a message in the inbox. -/
def Outstanding (s : DiscoverySystem S) (port : Port) : Prop :=
  s.tasks port ≠ [] ∨ 0 < s.startups port ∨ 0 < s.requests port

/-- A rediscovery of the port is outstanding besides the message that is being handled. -/
def OutstandingBesides (s : DiscoverySystem S) (port : Port) (origin : Origin) (event : DiscoveryEvent) : Prop :=
  s.tasksLeft port origin event ≠ [] ∨ 0 < s.startupsLeft port origin event ∨ 0 < s.requestsLeft port event

/-- Every configured port whose start-up message was handled has an exit, or a rediscovery of it is outstanding. -/
def Lit (ctx : Context) (s : DiscoverySystem S) : Prop :=
  ∀ server, ctx.server? server.port = some server → server.port ∈ s.started →
    s.actor.destination server.port ≠ none ∨ s.Outstanding server.port

/-- The event has the port connected anew. -/
def Reconnects (a : DiscoveryActor S) (port : Port) (tr : List Io) : DiscoveryEvent → Prop
  | .discoverFor q | .requestNewPeer q => q = port
  | .peerClosed peer => a.destination port = some peer ∧ closesAnew (a.lastRediscovery port) (turnOf port tr) = true
  | .peerUnusable peer => a.destination port = some peer
  | .peerConnected _ _ _ | .selectPeer _ _ => False

/-- No port is connected anew to nobody, unless another rediscovery of it is outstanding. -/
def NoneInVain (ctx : Context) (s : DiscoverySystem S) : SystemLabel → Prop
  | .startup _ | .request _ => True
  | .handles _ origin l => ∀ server, ctx.server? server.port = some server →
      server.port ∈ s.startedAfter origin l.event → Reconnects s.actor server.port l.trace l.event →
      lastNamed (turnOf server.port l.trace) = none → s.OutstandingBesides server.port origin l.event

section Effect

variable [LawfulStickyStore S] {ctx : Context} {server : Server} {a a' : DiscoveryActor S} {l : DiscoveryActor.Label}

/-- An event that has the port connected anew leaves what one connect leaves, and schedules nothing. -/
theorem reconnects_turn (hserver : ctx.server? server.port = some server) (hhandles : a.Handles ctx)
    (h : DiscoveryActor.Step ctx a l a') (hl : Reconnects a server.port l.trace l.event) :
    scheduledFor server.port l.trace = [] ∧ ∃ t v, v.pool = DiscoveryActor.poolFor (exitPool server a.sticky) l.event ∧
      lastNamed (turnOf server.port l.trace) = lastNamed t ∧
      reachAttempts (turnOf server.port l.trace) = reachAttempts t ∧
      DiscoveryActor.Reconnected S ctx.relayAddress server (DiscoveryActor.avoided l.event) t v
        (DiscoveryActor.portView server a') := by
  have heffect := h.turnEffect hserver hhandles
  obtain ⟨event, tr⟩ := l
  cases event with
  | discoverFor q | requestNewPeer q =>
    obtain ⟨hbooks, hds⟩ := heffect
    have hq : q = server.port := hl
    rw [if_pos hq] at hbooks
    obtain ⟨t, hnamed, hattempts, hrec⟩ := rediscovers_connect hbooks
    exact ⟨hds, t, _, rfl, hnamed, hattempts, hrec⟩
  | peerClosed peer =>
    obtain ⟨hexit, hcool⟩ := hl
    simp only [DiscoveryActor.TurnEffect] at heffect
    rw [if_pos (show (DiscoveryActor.portBooks server a).view.exit = some peer from hexit)] at heffect
    rcases closes_cases heffect with ⟨-, -, -, hds, -, -, t, hnamed, hattempts, hrec⟩ | ⟨hc, -⟩
    · exact ⟨hds, t, _, rfl, hnamed, hattempts, hrec⟩
    · have hcool' : closesAnew (DiscoveryActor.portBooks server a).last (turnOf server.port tr) = true := hcool
      rw [hcool'] at hc
      cases hc
  | peerUnusable peer =>
    obtain ⟨hbooks, hds⟩ := heffect
    rw [if_pos (show (DiscoveryActor.portBooks server a).view.exit = some peer from hl)] at hbooks
    obtain ⟨t, hnamed, hattempts, hrec⟩ := rediscovers_connect hbooks
    exact ⟨hds, t, _, rfl, hnamed, hattempts, hrec⟩
  | peerConnected peer address relayed => cases hl
  | selectPeer q peer => cases hl

/-- Its exit is the peer that the dialer named last. -/
theorem reconnects_effect (hserver : ctx.server? server.port = some server) (hhandles : a.Handles ctx)
    (h : DiscoveryActor.Step ctx a l a') (hl : Reconnects a server.port l.trace l.event) :
    a'.destination server.port = lastNamed (turnOf server.port l.trace) ∧ scheduledFor server.port l.trace = [] := by
  obtain ⟨hds, t, v, -, hnamed, -, hrec⟩ := reconnects_turn hserver hhandles h hl
  have hexit : a'.destination server.port = lastNamed t := hrec.exit_eq
  exact ⟨hexit.trans hnamed.symm, hds⟩

/-- An event that does not have the port connected anew leaves its exit alone, throttles the port, or gives it an
exit. -/
theorem not_reconnects_cases (hserver : ctx.server? server.port = some server) (hhandles : a.Handles ctx)
    (h : DiscoveryActor.Step ctx a l a') (hl : ¬Reconnects a server.port l.trace l.event) :
    (DiscoveryActor.portView server a' =
        { exit := a.destination server.port, pool := DiscoveryActor.poolFor (exitPool server a.sticky) l.event } ∧
      (∀ peer, l.event = .peerClosed peer → a.destination server.port ≠ some peer) ∧
      ∀ peer address, l.event = .peerConnected peer address false →
        ¬(DiscoveryActor.relayStuck a.directPeers peer (a.destination server.port) = true ∧
          peer ∈ exitPool server a.sticky)) ∨
    (∃ peer, l.event = .peerClosed peer ∧ server.port ∈ a'.pendingRediscovery ∧ a'.destination server.port = none) ∨
    ∃ peer, a'.destination server.port = some peer ∧
      ((∃ address, l.event = .peerConnected peer address false) ∨ ∃ port q, l.event = .selectPeer port q) := by
  have hport := hhandles.mem_ports (Context.mem_of_server? hserver)
  have hview := h.portEffect hserver hport
  have heffect := h.turnEffect hserver hhandles
  obtain ⟨event, tr⟩ := l
  cases event with
  | discoverFor q | requestNewPeer q =>
    have hq : ¬q = server.port := hl
    simp only [DiscoveryActor.PortEffect] at hview
    rw [if_neg hq] at hview
    exact .inl ⟨hview, by simp, by simp⟩
  | peerClosed peer =>
    simp only [DiscoveryActor.TurnEffect] at heffect
    split at heffect
    · rename_i hexit
      rcases closes_cases heffect with ⟨hc, -⟩ | ⟨-, -, hp, hnone, -⟩
      · -- a port that is rediscovered at once is connected anew
        exact absurd ⟨hexit, hc⟩ hl
      · exact .inr (.inl ⟨peer, rfl, of_decide_eq_true hp, congrArg PortView.exit hnone⟩)
    · rename_i hexit
      refine .inl ⟨congrArg PortBooks.view heffect.1, ?_, by simp⟩
      rintro p ⟨⟩
      exact hexit
  | peerUnusable peer =>
    simp only [DiscoveryActor.PortEffect] at hview
    rw [if_neg (show ¬(DiscoveryActor.portView server a).exit = some peer from hl)] at hview
    exact .inl ⟨hview, by simp, by simp⟩
  | peerConnected peer address relayed =>
    simp only [DiscoveryActor.PortEffect] at hview
    split at hview
    · rename_i hrotates
      obtain ⟨rfl, -⟩ := hrotates
      exact .inr (.inr ⟨peer, congrArg PortView.exit hview, .inl ⟨address, rfl⟩⟩)
    · rename_i hstays
      refine .inl ⟨hview, by simp, ?_⟩
      rintro p x ⟨⟩ hstuck
      exact hstays ⟨rfl, hstuck⟩
  | selectPeer q peer =>
    simp only [DiscoveryActor.PortEffect] at hview
    split at hview
    · rcases hview with hv | ⟨y, t, address, -, -, hv⟩
      · exact .inl ⟨hv, by simp, by simp⟩
      · exact .inr (.inr ⟨y, congrArg PortView.exit hv, .inr ⟨q, peer, rfl⟩⟩)
    · exact .inl ⟨hview, by simp, by simp⟩

end Effect

section Lit

variable [LawfulStickyStore S] {ctx : Context} {s s' : DiscoverySystem S} {k : SystemLabel}

omit [StickyStore S] [LawfulStickyStore S] in
/-- A message that does not have the port connected anew is none of those that its outstanding rediscoveries send. -/
theorem left_of_not_reconnects (s : DiscoverySystem S) {a : DiscoveryActor S} {port : Port} {tr : List Io}
    (origin : Origin) {event : DiscoveryEvent} (h : ¬Reconnects a port tr event) :
    (s.OutstandingBesides port origin event ↔ s.Outstanding port) ∧
      (port ∈ s.startedAfter origin event ↔ port ∈ s.started) := by
  unfold OutstandingBesides Outstanding tasksLeft startupsLeft requestsLeft startedAfter
  cases event with
  | discoverFor q =>
    have hq : ¬q = port := h
    have hq' : ¬port = q := Ne.symm hq
    cases origin <;> simp [hq, hq']
  | requestNewPeer q =>
    have hq : ¬q = port := h
    cases origin <;> simp [hq]
  | _ => cases origin <;> exact ⟨Iff.rfl, Iff.rfl⟩

omit [StickyStore S] [LawfulStickyStore S] in
theorem outstanding_after {now : Instant} {origin : Origin} {l : DiscoveryActor.Label} {a' : DiscoveryActor S}
    {port : Port} : (s.after now origin l a').Outstanding port ↔
      s.OutstandingBesides port origin l.event ∨ scheduledFor port l.trace ≠ [] := by
  unfold Outstanding OutstandingBesides after
  simp only [ne_eq, List.append_eq_nil_iff, List.map_eq_nil_iff]
  tauto

/-- A step keeps every port lit iff it connects none in vain. -/
theorem Step.keeps_lit_iff (hconfined : s.Confined ctx) (hawaited : s.Awaited) (hs : s.Lit ctx) (h : Step ctx s k s') :
    s'.Lit ctx ↔ s.NoneInVain ctx k := by
  have hawaited' := h.awaited hconfined hawaited
  cases h with
  | startup _ =>
    refine iff_of_true (fun server hserver hstarted => ?_) trivial
    refine (hs server hserver hstarted).imp_right (Or.imp_right (Or.imp_left fun hpos => ?_))
    exact lt_of_lt_of_le hpos (le_update_self_iff.2 (Nat.le_succ _) server.port)
  | request =>
    refine iff_of_true (fun server hserver hstarted => ?_) trivial
    refine (hs server hserver hstarted).imp_right (Or.imp_right (Or.imp_right fun hpos => ?_))
    exact lt_of_lt_of_le hpos (le_update_self_iff.2 (Nat.le_succ _) server.port)
  | @handles now origin l a' _ _ _ ha =>
    refine forall_congr' fun server => forall_congr' fun hserver => forall_congr' fun hstarted => ?_
    rw [outstanding_after]
    by_cases hl : Reconnects s.actor server.port l.trace l.event
    · obtain ⟨hexit, hds⟩ := reconnects_effect hserver hconfined.handles ha hl
      have hexit' : (s.after now origin l a').actor.destination server.port =
        lastNamed (turnOf server.port l.trace) := hexit
      rw [hexit', hds]
      -- the port has an exit again, unless the connect was in vain
      constructor
      · intro hlit _ hnone
        simpa [hnone] using hlit
      · intro hvain
        by_cases hnone : lastNamed (turnOf server.port l.trace) = none
        · exact .inr (.inl (hvain hl hnone))
        · exact .inl hnone
    · obtain ⟨hbesides, hstarted'⟩ := left_of_not_reconnects s origin hl
      refine iff_of_true ?_ fun hl' => absurd hl' hl
      rcases not_reconnects_cases hserver hconfined.handles ha hl with
        ⟨hview, -⟩ | ⟨_, -, hpending, -⟩ | ⟨peer, hexit, -⟩
      · -- neither the exit nor what is outstanding has changed
        have hsame : a'.destination server.port = s.actor.destination server.port := congrArg PortView.exit hview
        refine (hs server hserver (hstarted'.1 hstarted)).imp (fun hexit => ?_) fun hout => .inl (hbesides.2 hout)
        exact fun hnone => hexit (hsame ▸ hnone)
      · -- the closed port waits for its cooldown task
        exact .inr (outstanding_after.1 (.inl (hawaited' _ hpending)))
      · left
        have hexit' : (s.after now origin l a').actor.destination server.port = some peer := hexit
        rw [hexit']
        exact Option.some_ne_none peer

variable {sticky : S} {destinations : Destinations} {ks : List SystemLabel}

/-- In a run no port stays dark with nothing scheduled iff none is connected anew in vain: a port that the dialer finds
no exit for, at start-up, after its exit closed or was found unusable, or in the retry that a cooldown task or a client
asked for, stays dark unless another rediscovery of it happens to be outstanding. -/
theorem lit_iff (hhandles : (DiscoveryActor.new sticky destinations).Handles ctx)
    (h : Reaches (Step ctx) (init sticky destinations) ks s) :
    Always (Step ctx) (Lit ctx) (init sticky destinations) ks ↔
      Reaches (guarded (Step ctx) (NoneInVain ctx)) (init sticky destinations) ks s := by
  refine always_iff (J := fun s => s.Confined ctx ∧ s.Awaited) (fun _ _ _ _ => Step.deterministic)
    (fun _ _ _ hs _ h => ⟨h.confined hs.1, h.awaited hs.1 hs.2⟩) (fun _ _ _ hs hlit h => h.keeps_lit_iff hs.1 hs.2 hlit)
    ⟨.init hhandles, fun port hp => absurd hp (Finset.notMem_empty port)⟩ ?_ h
  exact fun server _ hstarted => absurd hstarted (Finset.notMem_empty server.port)

end Lit

section World

/-- An exit was found at start-up: the port is never dark. -/
theorem lit_iff_served : Always (Step oneServer) (Lit oneServer) (init StickyState.empty (.dark [1080] (by decide)))
    [.startup 1080, worldLabel oneServer oneExit .inbox (.discoverFor 1080) atStartup] := by
  refine (lit_iff handles_oneServer (.cons startup_step (.cons servedByOne_step (.nil _)))).2 ?_
  refine .cons ⟨startup_step, trivial⟩ (.cons ⟨servedByOne_step, fun server hserver _ hport hnone => ?_⟩ (.nil _))
  have hport : 1080 = server.port := hport
  rw [← hport] at hnone
  exact absurd hnone (by decide)

/-- The hub knows nobody. -/
def noExit : World := { routes := [], candidates := [], online := [], connected := [] }

/-- The start-up message was handled in a network without exits. -/
def darkAtStartup : DiscoverySystem StickyState := worldAfter oneServer noExit .inbox (.discoverFor 1080) atStartup

/-- The hub knows nobody at start-up: the port is dark, and nothing is scheduled for it. -/
theorem dark_after_startup :
    Reaches (Step oneServer) (init StickyState.empty (.dark [1080] (by decide)))
        [.startup 1080, worldLabel oneServer noExit .inbox (.discoverFor 1080) atStartup] darkAtStartup ∧
      ¬darkAtStartup.Lit oneServer := by
  refine ⟨.cons startup_step (.cons (world_step rfl (show 0 < atStartup.startups 1080 by decide)) (.nil _)), ?_⟩
  intro hlit
  rcases hlit (discoveryServer 1080) rfl (by decide) with hexit | htasks | hstartups | hrequests
  · exact hexit (by decide)
  · exact htasks (by decide)
  · exact absurd hstartups (by decide)
  · exact absurd hrequests (by decide)

end World

end DiscoverySystem

end P2Proxy
