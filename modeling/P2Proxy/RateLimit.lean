import P2Proxy.Rediscovery

/-!
# The rate limit of rediscoveries

Rediscoveries of a port that a closing peer has triggered should start at least the cooldown apart, and at most one
cooldown task should be outstanding for it.  The limit is kept in two places: `last_rediscovery` notes only what the
close itself has started, and `pending_rediscovery` is reset by every rediscovery of the port, also while the cooldown
task still sleeps.  `rateLimited_iff` says exactly which messages break the limit.
-/

namespace P2Proxy

open Interaction

/-! ### The clock -/

variable {acc tr : List Io} {port : Port}

theorem turns_sublist {e : Port × List Io} (h : e ∈ turns acc tr) : e.2.Sublist (acc ++ tr) := by
  induction tr generalizing acc with
  | nil => exact absurd h List.not_mem_nil
  | cons i tr ih =>
    rw [turns] at h
    split at h
    · rcases List.mem_cons.1 h with rfl | h
      · exact List.sublist_append_left acc (i :: tr)
      · exact (ih h).trans ((List.sublist_cons_self i tr).trans (List.sublist_append_right acc (i :: tr)))
    · split at h
      · have happend := ih h
        rwa [List.append_assoc] at happend
      · exact (ih h).trans ((List.sublist_cons_self i tr).append_left acc)

theorem turnOf_sublist : (turnOf port tr).Sublist tr := by
  unfold turnOf
  cases h : (turns [] tr).lookup port with
  | none => exact List.nil_sublist tr
  | some part =>
    obtain ⟨l₁, l₂, hturns, -⟩ := List.lookup_eq_some_iff.1 h
    exact turns_sublist (hturns ▸ List.mem_append_right l₁ (List.mem_cons_self ..))

/-- The last of a list of readings that do not decrease is the latest. -/
theorem le_getLast_of_pairwise {now r : Instant} {rs : List Instant} (h : (now :: rs).Pairwise (· ≤ ·))
    (hr : r ∈ now :: rs) : r ≤ rs.getLast?.getD now := by
  induction rs generalizing now r with
  | nil => exact (List.mem_singleton.1 hr).le
  | cons n rs ih =>
    obtain ⟨hnow, hrs⟩ := List.pairwise_cons.1 h
    rw [List.getLast?_cons, Option.getD_some]
    rcases List.mem_cons.1 hr with rfl | hr
    · exact (hnow n (List.mem_cons_self ..)).trans (ih hrs (List.mem_cons_self ..))
    · exact ih hrs hr

theorem cooldown_le_ofNanos {d : Nat} : rediscoveryCooldown ≤ Duration.ofNanos d ↔ rediscoveryCooldown.nanos ≤ d := by
  show rediscoveryCooldown.nanos ≤ min d maxNanos ↔ _
  exact le_min_iff.trans (and_iff_left rediscoveryCooldown.le_max)

/-- The two rediscoveries start at least the cooldown apart. -/
def Start.Apart (x y : Start) : Prop :=
  x.time + rediscoveryCooldown.nanos ≤ y.time ∨ y.time + rediscoveryCooldown.nanos ≤ x.time

instance : Std.Symm Start.Apart := ⟨fun _ _ h => h.symm⟩

namespace DiscoverySystem

variable {S : Type}

/-- Rediscoveries of the port that closing peers have triggered start at least the cooldown apart, and at most one
cooldown task is outstanding. -/
def RateLimitedAt (s : DiscoverySystem S) (port : Port) : Prop :=
  (s.starts port).Pairwise Start.Apart ∧ (s.tasks port).length ≤ 1

def RateLimited (s : DiscoverySystem S) : Prop := ∀ port, s.RateLimitedAt port

/-- What the throttle of the port does not look at when it handles the message: an exit that closes outside the cooldown
is not rediscovered too soon after a cooldown task has rediscovered the port, one that closes inside the cooldown finds
the port pending if a cooldown task is outstanding, and a cooldown task does not wake up too soon after a close that was
rediscovered at once. -/
def WaitsAt (s : DiscoverySystem S) (now : Instant) (origin : Origin) (l : DiscoveryActor.Label) (port : Port) : Prop :=
  (∀ peer, l.event = .peerClosed peer → s.actor.destination port = some peer →
    if closesAnew (s.actor.lastRediscovery port) (turnOf port l.trace) then
      ∀ x ∈ s.starts port, x.trigger = .task →
        x.time + rediscoveryCooldown.nanos ≤ lastReading (turnOf port l.trace)
    else port ∈ s.actor.pendingRediscovery ∨ s.tasks port = []) ∧
  ∀ due at_, origin = .task due → l.event = .discoverFor port → s.actor.lastRediscovery port = some at_ →
    at_ + rediscoveryCooldown.nanos ≤ now

def Waits (s : DiscoverySystem S) : SystemLabel → Prop
  | .startup _ | .request _ => True
  | .handles now origin l => ∀ port, s.WaitsAt now origin l port

section Steps

variable [StickyStore S] [LawfulStickyStore S] {ctx : Context} {s s' : DiscoverySystem S} {k : SystemLabel}
  {server : Server}

/-- What an event does to the throttle of a port: its exit closes and is rediscovered at once, or closes inside the
cooldown, or it is not the exit of the port that closes. -/
theorem throttle_cases {a a' : DiscoveryActor S} {l : DiscoveryActor.Label}
    (hserver : ctx.server? server.port = some server) (hhandles : a.Handles ctx) (h : DiscoveryActor.Step ctx a l a') :
    (∃ peer, l.event = .peerClosed peer ∧ a.destination server.port = some peer ∧
      closesAnew (a.lastRediscovery server.port) (turnOf server.port l.trace) = true ∧
      a'.lastRediscovery server.port = some (lastReading (turnOf server.port l.trace)) ∧
      scheduledFor server.port l.trace = [] ∧
      lastReading (turnOf server.port l.trace) ∈ readings (turnOf server.port l.trace) ∧
      ∀ at_, a.lastRediscovery server.port = some at_ →
        ∃ n, readings (turnOf server.port l.trace) = [n, lastReading (turnOf server.port l.trace)] ∧
          rediscoveryCooldown.nanos ≤ n - at_) ∨
    (∃ peer at_ n, l.event = .peerClosed peer ∧ a.destination server.port = some peer ∧
      closesAnew (a.lastRediscovery server.port) (turnOf server.port l.trace) = false ∧
      a'.lastRediscovery server.port = some at_ ∧ a.lastRediscovery server.port = some at_ ∧
      readings (turnOf server.port l.trace) = [n] ∧ n - at_ < rediscoveryCooldown.nanos ∧
      scheduledFor server.port l.trace = if server.port ∈ a.pendingRediscovery then [] else
        [rediscoveryCooldown.sub (Duration.ofNanos (n - at_))]) ∨
    ((∀ peer, l.event = .peerClosed peer → a.destination server.port ≠ some peer) ∧
      a'.lastRediscovery server.port = a.lastRediscovery server.port ∧ scheduledFor server.port l.trace = []) := by
  have heffect := h.turnEffect hserver hhandles
  obtain ⟨event, tr⟩ := l
  cases event with
  | discoverFor q | requestNewPeer q =>
    obtain ⟨hbooks, hds⟩ := heffect
    refine .inr (.inr ⟨by simp, ?_, hds⟩)
    split at hbooks
    · obtain ⟨-, -, -, -, -, hlast, -⟩ := hbooks
      exact hlast
    · exact congrArg PortBooks.last hbooks
  | peerClosed peer =>
    simp only [DiscoveryActor.TurnEffect] at heffect
    split at heffect
    · rename_i hexit
      -- the cooldown decides
      rcases closes_cases heffect with ⟨hc, hlast, -, hds, hmem, hreads, -⟩ |
        ⟨hc, hlast, -, -, at_, n, hat, hreads, hcool, hds⟩
      · refine .inl ⟨peer, rfl, hexit, hc, hlast, hds, hmem, fun at_ hat => ?_⟩
        obtain ⟨n, hn, hcool⟩ := hreads at_ hat
        exact ⟨n, hn, cooldown_le_ofNanos.1 hcool⟩
      · refine .inr (.inl ⟨peer, at_, n, rfl, hexit, hc, hlast.trans hat, hat, hreads, ?_, ?_⟩)
        · exact not_le.1 fun hle => hcool (cooldown_le_ofNanos.2 hle)
        · simpa [DiscoveryActor.portBooks] using hds
    · rename_i hexit
      refine .inr (.inr ⟨fun p hp => ?_, congrArg PortBooks.last heffect.1, heffect.2⟩)
      obtain rfl : peer = p := by simpa using hp
      exact hexit
  | peerUnusable peer =>
    obtain ⟨hbooks, hds⟩ := heffect
    refine .inr (.inr ⟨by simp, ?_, hds⟩)
    split at hbooks
    · obtain ⟨-, -, -, -, -, hlast, -⟩ := hbooks
      exact hlast
    · exact congrArg PortBooks.last hbooks
  | peerConnected peer address relayed => exact .inr (.inr ⟨by simp, heffect.1, heffect.2.2⟩)
  | selectPeer q peer => exact .inr (.inr ⟨by simp, heffect.1, heffect.2.2⟩)

/-- What is known of the throttle of a configured port. -/
structure Booked (s : DiscoverySystem S) (port : Port) : Prop where
  past : ∀ x ∈ s.starts port, x.time ≤ s.clock
  noted : ∀ at_, s.actor.lastRediscovery port = some at_ → ⟨at_, .close⟩ ∈ s.starts port
  latest : ∀ x ∈ s.starts port, x.trigger = .close →
    ∃ at_, s.actor.lastRediscovery port = some at_ ∧ x.time ≤ at_
  due : ∀ due ∈ s.tasks port, ∀ x ∈ s.starts port, x.trigger = .task →
    x.time + rediscoveryCooldown.nanos ≤ due

omit [StickyStore S] [LawfulStickyStore S] in
/-- As long as nothing is rediscovered, the books are kept if new tasks sleep long enough. -/
theorem Booked.same {port : Port} (hb : s.Booked port) (hclock : s.clock ≤ s'.clock)
    (hstarts : s'.starts port = s.starts port)
    (hlast : s'.actor.lastRediscovery port = s.actor.lastRediscovery port)
    (hdue : ∀ due ∈ s'.tasks port, due ∈ s.tasks port ∨
      ∀ x ∈ s.starts port, x.trigger = .task → x.time + rediscoveryCooldown.nanos ≤ due) : s'.Booked port := by
  refine ⟨fun x hx => ?_, fun t ht => ?_, fun x hx htrigger => ?_, fun due hmem x hx htrigger => ?_⟩
  · exact (hb.past x (hstarts ▸ hx)).trans hclock
  · exact hstarts ▸ hb.noted t (hlast.symm.trans ht)
  · obtain ⟨t, ht, hx⟩ := hb.latest x (hstarts ▸ hx) htrigger
    exact ⟨t, hlast.trans ht, hx⟩
  · have hx : x ∈ s.starts port := hstarts ▸ hx
    rcases hdue due hmem with hold | hnew
    · exact hb.due due hold x hx htrigger
    · exact hnew x hx htrigger

omit [StickyStore S] [LawfulStickyStore S] in
/-- The books are kept when the exit closes and is rediscovered at `t`. -/
theorem Booked.closed {port : Port} {t : Instant} (hb : s.Booked port) (hfrom : s.clock ≤ t) (hto : t ≤ s'.clock)
    (hstarts : s'.starts port = ⟨t, .close⟩ :: s.starts port) (htasks : s'.tasks port = s.tasks port)
    (hlast : s'.actor.lastRediscovery port = some t) : s'.Booked port := by
  refine ⟨fun x hx => ?_, fun at_ hat => ?_, fun x hx _ => ⟨t, hlast, ?_⟩, fun due hdue x hx htrigger => ?_⟩
  · rw [hstarts] at hx
    rcases List.mem_cons.1 hx with rfl | hx
    · exact hto
    · exact (hb.past x hx).trans (hfrom.trans hto)
  · rw [hlast, Option.some.injEq] at hat
    rw [hstarts, hat]
    exact List.mem_cons_self ..
  · rw [hstarts] at hx
    rcases List.mem_cons.1 hx with rfl | hx
    · exact le_rfl
    · exact (hb.past x hx).trans hfrom
  · rw [hstarts] at hx
    rw [htasks] at hdue
    rcases List.mem_cons.1 hx with rfl | hx
    · cases htrigger
    · exact hb.due due hdue x hx htrigger

omit [StickyStore S] [LawfulStickyStore S] in
/-- The books are kept when the only task wakes up at `t`. -/
theorem Booked.woken {port : Port} {t : Instant} (hb : s.Booked port) (hclock : s.clock ≤ s'.clock) (hto : t ≤ s'.clock)
    (hstarts : s'.starts port = ⟨t, .task⟩ :: s.starts port) (htasks : s'.tasks port = [])
    (hlast : s'.actor.lastRediscovery port = s.actor.lastRediscovery port) : s'.Booked port := by
  refine ⟨fun x hx => ?_, fun at_ hat => ?_, fun x hx htrigger => ?_, fun due hdue => ?_⟩
  · rw [hstarts] at hx
    rcases List.mem_cons.1 hx with rfl | hx
    · exact hto
    · exact (hb.past x hx).trans hclock
  · rw [hstarts]
    exact List.mem_cons_of_mem _ (hb.noted at_ (hlast.symm.trans hat))
  · rw [hstarts] at hx
    rcases List.mem_cons.1 hx with rfl | hx
    · cases htrigger
    · obtain ⟨at_, hat, hle⟩ := hb.latest x hx htrigger
      exact ⟨at_, hlast.trans hat, hle⟩
  · rw [htasks] at hdue
    cases hdue

variable {now : Instant} {origin : Origin} {l : DiscoveryActor.Label} {a' : DiscoveryActor S}

omit [StickyStore S] [LawfulStickyStore S] in
theorem cooldown_pos : 0 < rediscoveryCooldown.nanos := by decide

omit [StickyStore S] [LawfulStickyStore S] in
private theorem add_remaining {start n : Nat} (hle : start ≤ n) (hcool : n - start < rediscoveryCooldown.nanos) :
    n + (rediscoveryCooldown.sub (Duration.ofNanos (n - start))).nanos = start + rediscoveryCooldown.nanos := by
  have hnanos : (rediscoveryCooldown.sub (Duration.ofNanos (n - start))).nanos =
      rediscoveryCooldown.nanos - (n - start) := by
    show rediscoveryCooldown.nanos - min (n - start) maxNanos = _
    rw [Nat.min_eq_left (hcool.le.trans rediscoveryCooldown.le_max)]
  omega

omit [StickyStore S] [LawfulStickyStore S] in
private theorem add_le_of_elapsed {x start n t c : Nat} (hx : x ≤ start) (hc : c ≤ n - start) (hpos : 0 < c)
    (hn : n ≤ t) : x + c ≤ t := by omega

omit [StickyStore S] [LawfulStickyStore S] in
private theorem add_le_due {x start n c : Nat} (h : x + c ≤ start ∨ start + c ≤ x) (hx : x ≤ n)
    (hcool : n - start < c) : x + c ≤ start + c := by omega

omit [StickyStore S] [LawfulStickyStore S] in
/-- The readings of the port's turn are taken while the message is handled. -/
theorem clock_bounds (origin : Origin) (a' : DiscoveryActor S) (hclock : s.clock ≤ now)
    (hreads : (now :: readings l.trace).Pairwise (· ≤ ·)) :
    s.clock ≤ (s.after now origin l a').clock ∧ now ≤ (s.after now origin l a').clock ∧
      ∀ port, (readings (turnOf port l.trace)).Pairwise (· ≤ ·) ∧
        ∀ r ∈ readings (turnOf port l.trace), s.clock ≤ r ∧ r ≤ (s.after now origin l a').clock := by
  have hnow := le_getLast_of_pairwise hreads (List.mem_cons_self ..)
  refine ⟨hclock.trans hnow, hnow, fun port => ?_⟩
  have hsub : (readings (turnOf port l.trace)).Sublist (readings l.trace) := turnOf_sublist.filterMap _
  obtain ⟨hfirst, hrest⟩ := List.pairwise_cons.1 hreads
  refine ⟨hrest.sublist hsub, fun r hr => ⟨hclock.trans (hfirst r (hsub.subset hr)), ?_⟩⟩
  exact le_getLast_of_pairwise hreads (List.mem_cons_of_mem _ (hsub.subset hr))

omit [StickyStore S] [LawfulStickyStore S] in
/-- The exit of the port closes, and is rediscovered at once. -/
theorem closed_anew {port : Port} {peer : PeerId} (hb : s.Booked port) (hs : s.RateLimitedAt port)
    (hclock : s.clock ≤ now) (hreads : (now :: readings l.trace).Pairwise (· ≤ ·)) (hevent : l.event = .peerClosed peer)
    (hexit : s.actor.destination port = some peer)
    (hanew : closesAnew (s.actor.lastRediscovery port) (turnOf port l.trace) = true)
    (hlast : a'.lastRediscovery port = some (lastReading (turnOf port l.trace)))
    (hds : scheduledFor port l.trace = [])
    (hmem : lastReading (turnOf port l.trace) ∈ readings (turnOf port l.trace))
    (hcool : ∀ at_, s.actor.lastRediscovery port = some at_ →
      ∃ n, readings (turnOf port l.trace) = [n, lastReading (turnOf port l.trace)] ∧
        rediscoveryCooldown.nanos ≤ n - at_) :
    ((s.after now origin l a').RateLimitedAt port ↔ s.WaitsAt now origin l port) ∧
      (s.after now origin l a').Booked port := by
  obtain ⟨-, -, hturn⟩ := clock_bounds origin a' hclock hreads
  obtain ⟨hsorted, hbounds⟩ := hturn port
  obtain ⟨hfrom, hto⟩ := hbounds _ hmem
  obtain ⟨event, tr⟩ := l
  dsimp only at hevent
  subst hevent
  set t := lastReading (turnOf port tr) with ht
  have hstarts : (s.after now origin ⟨.peerClosed peer, tr⟩ a').starts port = ⟨t, .close⟩ :: s.starts port := by
    have hnew : s.newStart now port tr origin (.peerClosed peer) = some ⟨t, .close⟩ := by
      have hcond : s.actor.destination port = some peer ∧
          closesAnew (s.actor.lastRediscovery port) (turnOf port tr) = true := ⟨hexit, hanew⟩
      cases origin <;> exact if_pos hcond
    show (s.newStart now port tr origin (.peerClosed peer)).toList ++ s.starts port = _
    rw [hnew]
    rfl
  have htasks : (s.after now origin ⟨.peerClosed peer, tr⟩ a').tasks port = s.tasks port := by
    show s.tasksLeft port origin (.peerClosed peer) ++ (scheduledFor port tr).map _ = _
    rw [hds]
    cases origin <;> exact List.append_nil _
  have hpos := cooldown_pos
  refine ⟨?_, ?_⟩
  · rw [RateLimitedAt, hstarts, htasks, List.pairwise_cons, and_iff_left hs.1, and_iff_left hs.2]
    constructor
    · intro hapart
      -- no rediscovery is later than the new one
      refine ⟨fun p hp _ => ?_, by simp⟩
      rw [if_pos hanew]
      intro x hx _
      have hxt := hb.past x hx
      rcases hapart x hx with h | h
      · have h : t + rediscoveryCooldown.nanos ≤ x.time := h
        exact absurd (h.trans (hxt.trans hfrom)) (Nat.lt_add_of_pos_right hpos).not_ge
      · exact h
    · intro hwaits x hx
      refine .inr ?_
      cases htrigger : x.trigger with
      | task =>
        have hw := hwaits.1 peer rfl hexit
        rw [if_pos hanew] at hw
        exact hw x hx htrigger
      | close =>
        -- the cooldown of the last direct rediscovery is over
        obtain ⟨at_, hat, hle⟩ := hb.latest x hx htrigger
        obtain ⟨n, hn, hc⟩ := hcool at_ hat
        have hle' : n ≤ t := by
          rw [hn] at hsorted
          exact List.rel_of_pairwise_cons hsorted (List.mem_singleton_self t)
        exact add_le_of_elapsed hle hc hpos hle'
  · exact hb.closed hfrom hto hstarts htasks hlast

omit [StickyStore S] [LawfulStickyStore S] in
/-- The exit of the port closes inside the cooldown. -/
theorem closed_throttled {port : Port} {peer : PeerId} {at_ n : Instant} (hb : s.Booked port)
    (hs : s.RateLimitedAt port)
    (hclock : s.clock ≤ now) (hreads : (now :: readings l.trace).Pairwise (· ≤ ·)) (hevent : l.event = .peerClosed peer)
    (hexit : s.actor.destination port = some peer)
    (hanew : closesAnew (s.actor.lastRediscovery port) (turnOf port l.trace) = false)
    (hlast : a'.lastRediscovery port = some at_) (hat : s.actor.lastRediscovery port = some at_)
    (hn : readings (turnOf port l.trace) = [n]) (hcool : n - at_ < rediscoveryCooldown.nanos)
    (hds : scheduledFor port l.trace = if port ∈ s.actor.pendingRediscovery then [] else
      [rediscoveryCooldown.sub (Duration.ofNanos (n - at_))]) :
    ((s.after now origin l a').RateLimitedAt port ↔ s.WaitsAt now origin l port) ∧
      (s.after now origin l a').Booked port := by
  obtain ⟨hpast, -, hturn⟩ := clock_bounds origin a' hclock hreads
  obtain ⟨-, hbounds⟩ := hturn port
  obtain ⟨hfrom, hto⟩ := hbounds n (hn ▸ List.mem_singleton_self n)
  obtain ⟨event, tr⟩ := l
  dsimp only at hevent
  subst hevent
  have hstarts : (s.after now origin ⟨.peerClosed peer, tr⟩ a').starts port = s.starts port := by
    have hnew : s.newStart now port tr origin (.peerClosed peer) = none := by
      have hcond : ¬(s.actor.destination port = some peer ∧
          closesAnew (s.actor.lastRediscovery port) (turnOf port tr) = true) := by simp [hanew]
      cases origin <;> exact if_neg hcond
    show (s.newStart now port tr origin (.peerClosed peer)).toList ++ s.starts port = _
    rw [hnew]
    rfl
  have hle : at_ ≤ n := (hb.past _ (hb.noted at_ hat)).trans hfrom
  have htasks : (s.after now origin ⟨.peerClosed peer, tr⟩ a').tasks port = s.tasks port ++
      if port ∈ s.actor.pendingRediscovery then [] else [at_ + rediscoveryCooldown.nanos] := by
    have hlastReading : lastReading (turnOf port tr) = n := by rw [lastReading, hn]; rfl
    show s.tasksLeft port origin (.peerClosed peer) ++ (scheduledFor port tr).map _ = _
    have hleft : s.tasksLeft port origin (.peerClosed peer) = s.tasks port := by cases origin <;> rfl
    rw [hds, hleft, hlastReading]
    split
    · rfl
    · rw [List.map_singleton, add_remaining hle hcool]
  refine ⟨?_, ?_⟩
  · have hwaits : s.WaitsAt now origin ⟨.peerClosed peer, tr⟩ port ↔
        port ∈ s.actor.pendingRediscovery ∨ s.tasks port = [] := by
      constructor
      · intro h
        have hw := h.1 peer rfl hexit
        rwa [if_neg (by simp [hanew])] at hw
      · refine fun h => ⟨fun p _ _ => ?_, by simp⟩
        rwa [if_neg (by simp [hanew])]
    rw [RateLimitedAt, hstarts, htasks, and_iff_right hs.1, hwaits]
    by_cases hpending : port ∈ s.actor.pendingRediscovery
    · simpa [hpending] using hs.2
    · simp [hpending]
  · refine hb.same hpast hstarts (hlast.trans hat.symm) fun due hdue => ?_
    rw [htasks] at hdue
    refine (List.mem_append.1 hdue).imp_right fun hdue x hx htrigger => ?_
    -- the new task sleeps until the cooldown of the last direct rediscovery is over, which came after `x`
    have hdue : due = at_ + rediscoveryCooldown.nanos := by
      split at hdue
      · cases hdue
      · exact List.mem_singleton.1 hdue
    have hapart : x.Apart ⟨at_, .close⟩ := hs.1.forall hx (hb.noted at_ hat) fun h => by
      rw [h] at htrigger
      cases htrigger
    rw [hdue]
    exact add_le_due hapart ((hb.past x hx).trans hfrom) hcool

omit [StickyStore S] [LawfulStickyStore S] in
/-- A cooldown task wakes up. -/
theorem task_wakes {port : Port} {due : Instant} (hb : s.Booked port) (hs : s.RateLimitedAt port)
    (hclock : s.clock ≤ now) (hreads : (now :: readings l.trace).Pairwise (· ≤ ·))
    (hevent : l.event = .discoverFor port) (htakes : due ∈ s.tasks port ∧ due ≤ now)
    (hlast : a'.lastRediscovery port = s.actor.lastRediscovery port) (hds : scheduledFor port l.trace = []) :
    ((s.after now (.task due) l a').RateLimitedAt port ↔ s.WaitsAt now (.task due) l port) ∧
      (s.after now (.task due) l a').Booked port := by
  obtain ⟨hpast, hnow, -⟩ := clock_bounds (.task due) a' hclock hreads
  obtain ⟨event, tr⟩ := l
  dsimp only at hevent
  subst hevent
  obtain ⟨hmem, hdue⟩ := htakes
  have hstarts : (s.after now (.task due) ⟨.discoverFor port, tr⟩ a').starts port = ⟨now, .task⟩ :: s.starts port := by
    show (s.newStart now port tr (.task due) (.discoverFor port)).toList ++ s.starts port = _
    rw [newStart, if_pos rfl]
    rfl
  have htasks : (s.after now (.task due) ⟨.discoverFor port, tr⟩ a').tasks port = [] := by
    show s.tasksLeft port (.task due) (.discoverFor port) ++ (scheduledFor port tr).map _ = _
    obtain ⟨d, hone⟩ := List.length_eq_one_iff.1 (le_antisymm hs.2 (List.length_pos_of_mem hmem))
    rw [hone] at hmem
    rw [tasksLeft, if_pos rfl, hds, hone, List.mem_singleton.1 hmem, List.erase_cons_head]
    rfl
  have hpos := cooldown_pos
  refine ⟨?_, ?_⟩
  · rw [RateLimitedAt, hstarts, htasks, List.pairwise_cons, and_iff_left hs.1, List.length_nil,
      and_iff_left (Nat.zero_le 1)]
    constructor
    · refine fun hapart => ⟨by simp, fun d at_ _ _ hat => ?_⟩
      have hle := hb.past _ (hb.noted at_ hat)
      rcases hapart _ (hb.noted at_ hat) with h | h
      · have h : now + rediscoveryCooldown.nanos ≤ at_ := h
        exact absurd (h.trans (hle.trans hclock)) (Nat.lt_add_of_pos_right hpos).not_ge
      · exact h
    · intro hwaits x hx
      refine .inr ?_
      cases htrigger : x.trigger with
      | task => exact (hb.due due hmem x hx htrigger).trans hdue
      | close =>
        obtain ⟨at_, hat, hle⟩ := hb.latest x hx htrigger
        exact (Nat.add_le_add_right hle _).trans (hwaits.2 due at_ rfl rfl hat)
  · exact hb.woken hpast hnow hstarts htasks hlast

omit [StickyStore S] [LawfulStickyStore S] in
/-- The message triggers no rediscovery of the port on behalf of a closed peer. -/
theorem not_triggered (now : Instant) (a' : DiscoveryActor S) {port : Port}
    (hexit : ∀ peer, l.event = .peerClosed peer → s.actor.destination port ≠ some peer)
    (htask : ∀ due, origin = .task due → l.event ≠ .discoverFor port) :
    (s.after now origin l a').starts port = s.starts port ∧ s.WaitsAt now origin l port := by
  refine ⟨?_, fun peer hevent hpeer => absurd hpeer (hexit peer hevent), fun due at_ horigin hevent => ?_⟩
  · have hnew : s.newStart now port l.trace origin l.event = none := by
      unfold newStart
      split
      · rename_i due q hevent
        exact if_neg fun hq => htask due rfl (hevent.trans (congrArg _ hq))
      · rename_i peer hevent
        exact if_neg fun h => hexit peer hevent h.1
      · rfl
    show (s.newStart now port l.trace origin l.event).toList ++ s.starts port = _
    rw [hnew]
    rfl
  · exact absurd hevent (htask due horigin)

omit [StickyStore S] [LawfulStickyStore S] in
/-- The message has nothing to do with the throttle of the port. -/
theorem not_throttled {port : Port} (hb : s.Booked port) (hs : s.RateLimitedAt port)
    (hclock : s.clock ≤ now) (hreads : (now :: readings l.trace).Pairwise (· ≤ ·))
    (hexit : ∀ peer, l.event = .peerClosed peer → s.actor.destination port ≠ some peer)
    (htask : ∀ due, origin = .task due → l.event ≠ .discoverFor port)
    (hlast : a'.lastRediscovery port = s.actor.lastRediscovery port) (hds : scheduledFor port l.trace = []) :
    ((s.after now origin l a').RateLimitedAt port ↔ s.WaitsAt now origin l port) ∧
      (s.after now origin l a').Booked port := by
  obtain ⟨hpast, -, -⟩ := clock_bounds origin a' hclock hreads
  obtain ⟨hstarts, hwaits⟩ := not_triggered now a' hexit htask
  have htasks : (s.after now origin l a').tasks port = s.tasks port := by
    have hleft : s.tasksLeft port origin l.event = s.tasks port := by
      unfold tasksLeft
      split
      · rename_i due q hevent
        refine if_neg fun hq => htask due rfl (hevent.trans (congrArg _ hq))
      · rfl
    show s.tasksLeft port origin l.event ++ (scheduledFor port l.trace).map _ = _
    rw [hds, hleft]
    exact List.append_nil _
  refine ⟨?_, ?_⟩
  · rw [RateLimitedAt, hstarts, htasks]
    refine iff_of_true hs ⟨fun peer hevent hpeer => absurd hpeer (hexit peer hevent), fun due at_ horigin hevent => ?_⟩
    exact absurd hevent (htask due horigin)
  · exact hb.same hpast hstarts hlast fun due hdue => .inl (htasks ▸ hdue)

/-- What is known of the throttle of every port. -/
structure Metered (ctx : Context) (s : DiscoverySystem S) : Prop extends Confined ctx s where
  unknown : ∀ port ∉ s.actor.destinations.ports, s.starts port = []
  known : ∀ port ∈ s.actor.destinations.ports, s.Booked port

omit [StickyStore S] [LawfulStickyStore S] in
theorem Metered.init {sticky : S} {destinations : Destinations}
    (h : (DiscoveryActor.new sticky destinations).Handles ctx) : (init sticky destinations).Metered ctx where
  toConfined := .init h
  unknown _ _ := rfl
  known _ _ := ⟨fun _ hx => absurd hx List.not_mem_nil, fun _ hat => (Option.some_ne_none _ hat.symm).elim,
    fun _ hx => absurd hx List.not_mem_nil, fun _ hdue => absurd hdue List.not_mem_nil⟩

/-- As long as the rate is limited, a step keeps what is known, and keeps the rate limited iff it waits. -/
theorem Step.rateLimited (hs : s.Metered ctx) (hl : s.RateLimited) (h : Step ctx s k s') :
    (s'.RateLimited ↔ s.Waits k) ∧ s'.Metered ctx := by
  have hconfined := h.confined hs.toConfined
  cases h with
  | startup _ =>
    refine ⟨iff_of_true hl trivial, hconfined, hs.unknown, fun port hport => ?_⟩
    exact (hs.known port hport).same le_rfl rfl rfl fun due hdue => .inl hdue
  | request =>
    refine ⟨iff_of_true hl trivial, hconfined, hs.unknown, fun port hport => ?_⟩
    exact (hs.known port hport).same le_rfl rfl rfl fun due hdue => .inl hdue
  | @handles now origin l a' hclock hreads htakes ha =>
    -- a port with a handle is configured, so its books are kept
    have hknown : ∀ port ∈ s.actor.destinations.ports,
        ((s.after now origin l a').RateLimitedAt port ↔ s.WaitsAt now origin l port) ∧
          (s.after now origin l a').Booked port := by
      intro port hport
      obtain ⟨server, hserver, rfl⟩ := hs.handles.exists_server hport
      have hb := hs.known _ hport
      rcases throttle_cases hserver hs.handles ha with
        ⟨peer, hevent, hexit, hanew, hlast, hds, hmem, hcool⟩ |
        ⟨peer, at_, n, hevent, hexit, hanew, hlast, hat, hn, hcool, hds⟩ | ⟨hexit, hlast, hds⟩
      · exact closed_anew hb (hl _) hclock hreads hevent hexit hanew hlast hds hmem hcool
      · exact closed_throttled hb (hl _) hclock hreads hevent hexit hanew hlast hat hn hcool hds
      · by_cases htask : ∃ due, origin = .task due ∧ l.event = .discoverFor server.port
        · obtain ⟨due, rfl, hevent⟩ := htask
          rw [hevent] at htakes
          exact task_wakes hb (hl _) hclock hreads hevent htakes hlast hds
        · exact not_throttled hb (hl _) hclock hreads hexit (fun due ho he => htask ⟨due, ho, he⟩) hlast hds
    -- nothing is ever rediscovered on another port
    have hunknown : ∀ port ∉ s.actor.destinations.ports,
        (s.after now origin l a').starts port = [] ∧ s.WaitsAt now origin l port := by
      intro port hport
      have hexit : ∀ peer, l.event = .peerClosed peer → s.actor.destination port ≠ some peer :=
        fun peer _ h => hport (Destinations.mem_ports_of_active h)
      have htask : ∀ due, origin = .task due → l.event ≠ .discoverFor port := by
        rintro due rfl hevent
        rw [hevent] at htakes
        have hmem : due ∈ s.tasks port := htakes.1
        rw [hs.tasks port hport] at hmem
        cases hmem
      obtain ⟨hstarts, hwaits⟩ := not_triggered now a' hexit htask
      exact ⟨hstarts.trans (hs.unknown port hport), hwaits⟩
    have hports : a'.destinations.ports = s.actor.destinations.ports := ha.ports_eq
    refine ⟨forall_congr' fun port => ?_, hconfined, fun port hport => ?_, fun port hport => ?_⟩
    · by_cases hport : port ∈ s.actor.destinations.ports
      · exact (hknown port hport).1
      · obtain ⟨hstarts, hwaits⟩ := hunknown port hport
        refine iff_of_true ⟨?_, ?_⟩ hwaits
        · rw [hstarts]
          exact List.Pairwise.nil
        · rw [hconfined.tasks port fun h => hport (hports ▸ h)]
          exact Nat.zero_le 1
    · exact (hunknown port fun h => hport (hports.symm ▸ h)).1
    · exact (hknown port (hports ▸ hport)).2

variable {sticky : S} {destinations : Destinations} {ks : List SystemLabel}

/-- In a run the rediscoveries of every port that closing peers trigger stay at least the cooldown apart, with at most
one cooldown task outstanding, iff every message that is handled waits. -/
theorem rateLimited_iff (hhandles : (DiscoveryActor.new sticky destinations).Handles ctx)
    (h : Reaches (Step ctx) (init sticky destinations) ks s) :
    Always (Step ctx) RateLimited (init sticky destinations) ks ↔
      Reaches (guarded (Step ctx) Waits) (init sticky destinations) ks s := by
  refine always_iff (J := Metered ctx) (fun _ _ _ _ => Step.deterministic)
    (fun _ _ _ hs hl h => (h.rateLimited hs hl).2) (fun _ _ _ hs hl h => (h.rateLimited hs hl).1)
    (.init hhandles) ?_ h
  exact fun _ => ⟨List.Pairwise.nil, Nat.zero_le 1⟩

end Steps

section World

/-- The exit closes once: the rediscovery is the only one. -/
theorem rateLimited_iff_once :
    Always (Step oneServer) RateLimited (init StickyState.empty (.dark [1080] (by decide)))
      [.startup 1080, worldLabel oneServer oneExit .inbox (.discoverFor 1080) atStartup,
        worldLabel oneServer oneExit .inbox (.peerClosed ⟨[1]⟩) servedByOne] := by
  have hrun := Reaches.cons startup_step (.cons servedByOne_step (.cons closedOnce_step (.nil _)))
  refine (rateLimited_iff handles_oneServer hrun).2 ?_
  refine .cons ⟨startup_step, trivial⟩ (.cons ⟨servedByOne_step, fun port => ?_⟩
    (.cons ⟨closedOnce_step, fun port => ?_⟩ (.nil _)))
  · exact ⟨fun _ hevent => (DiscoveryEvent.noConfusion hevent), fun _ _ horigin => Origin.noConfusion horigin⟩
  · refine ⟨fun peer _ _ => ?_, fun _ _ horigin => Origin.noConfusion horigin⟩
    split
    · exact fun x hx => absurd hx List.not_mem_nil
    · exact .inr rfl

/-- A client asks for an exit while the cooldown task sleeps. -/
def requested : DiscoverySystem StickyState :=
  { closedTwice with requests := Function.update closedTwice.requests 1080 (closedTwice.requests 1080 + 1) }

/-- The port was reconnected for the client, and is not pending any more. -/
def servedAgain : DiscoverySystem StickyState := worldAfter oneServer oneExit .inbox (.requestNewPeer 1080) requested

/-- The exit has closed a third time, still inside the cooldown. -/
def closedThrice : DiscoverySystem StickyState := worldAfter oneServer oneExit .inbox (.peerClosed ⟨[1]⟩) servedAgain

/-- The exit closes three times inside one cooldown, and a client asks for an exit before the third time: two cooldown
tasks are outstanding. -/
theorem two_tasks_outstanding :
    Reaches (Step oneServer) (init StickyState.empty (.dark [1080] (by decide)))
        [.startup 1080, worldLabel oneServer oneExit .inbox (.discoverFor 1080) atStartup,
          worldLabel oneServer oneExit .inbox (.peerClosed ⟨[1]⟩) servedByOne,
          worldLabel oneServer oneExit .inbox (.peerClosed ⟨[1]⟩) closedOnce, .request 1080,
          worldLabel oneServer oneExit .inbox (.requestNewPeer 1080) requested,
          worldLabel oneServer oneExit .inbox (.peerClosed ⟨[1]⟩) servedAgain] closedThrice ∧
      ¬closedThrice.RateLimited := by
  have hrequest : Step oneServer requested (worldLabel oneServer oneExit .inbox (.requestNewPeer 1080) requested)
      servedAgain := world_step (by decide) (show 0 < requested.requests 1080 by decide)
  have hclose : Step oneServer servedAgain (worldLabel oneServer oneExit .inbox (.peerClosed ⟨[1]⟩) servedAgain)
      closedThrice := world_step (by decide) trivial
  refine ⟨.cons startup_step (.cons servedByOne_step (.cons closedOnce_step (.cons closedTwice_step
    (.cons .request (.cons hrequest (.cons hclose (.nil _))))))), fun hlimited => ?_⟩
  exact absurd (hlimited 1080).2 (by decide)

end World

end DiscoverySystem

end P2Proxy
