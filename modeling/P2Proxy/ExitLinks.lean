import P2Proxy.ExitSystem
import P2Proxy.Interaction.Followed

/-!
# Exits and their connections

An exit may close at any time, also while the discovery actor is busy with another port, or between the reply to a dial
and the end of the handling in which it is adopted.  Whatever happens, an exit is connected, or the notice that it has
closed waits for the actor or is being handled (`exits_tracked`).  There is one race: each notice is sent from a task of
its own, and a closing that overtakes an earlier opening of the same peer is forgotten when the opening is handled.
After a shutdown of the network actor the connections are those that were open then.
-/

namespace P2Proxy

open Interaction

namespace DiscoveryActor

variable {S : Type} [StickyStore S] [LawfulStickyStore S] {ctx : Context} {a a' : DiscoveryActor S} {l : Label}
  {port : Port} {p : PeerId}

/-- An exit was the exit before, and did not close; or the dialer has named it, or it has just connected. -/
theorem Step.exit_cases (hhandles : Handles ctx a) (h : Step ctx a l a') (hexit : a'.destination port = some p) :
    (a.destination port = some p ∧ l.event ≠ .peerClosed p) ∨ p ∈ namedPeers l.trace ∨
      ∃ address, l.event = .peerConnected p address false := by
  have hport : port ∈ a.destinations.ports := h.ports_eq ▸ Destinations.mem_ports_of_active hexit
  obtain ⟨server, hserver, rfl⟩ := hhandles.exists_server hport
  have heffect := h.portEffect hserver hport
  have hreconnected : ∀ {avoid t v}, t <:+: l.trace →
      Reconnected S ctx.relayAddress server avoid t v (portView server a') → p ∈ namedPeers l.trace := by
    intro avoid t v ht hr
    have hlast : a'.destination server.port = lastNamed t := hr.exit_eq
    obtain ⟨e, he, hnamed⟩ := mem_namedPeers.1 (mem_of_lastNamed (hlast.symm.trans hexit))
    exact mem_namedPeers.2 ⟨e, ht.subset he, hnamed⟩
  have hview : ∀ {v : PortView}, portView server a' = v → v.exit = some p := by
    rintro v rfl
    exact hexit
  by_cases hclosed : l.event = .peerClosed p
  · rw [hclosed] at heffect
    simp only [PortEffect] at heffect
    split at heffect
    · rcases heffect with heffect | ⟨t, ht, hr⟩
      · cases hview heffect
      · exact .inr (.inl (hreconnected ht hr))
    · rename_i hother
      exact absurd (hview heffect) hother
  · rcases heffect.cases with ⟨heffect, -⟩ | ⟨_, -, heffect⟩ | ⟨avoid, t, ht, hr⟩ | ⟨y, heffect, hadopts⟩
    · exact .inl ⟨hview heffect, hclosed⟩
    · cases hview heffect
    · exact .inr (.inl (hreconnected ht hr))
    · obtain rfl : y = p := Option.some.inj (hview heffect)
      rcases hadopts with ⟨address, hevent, -⟩ | ⟨peer, t, address, -, ht, hreach⟩
      · exact .inr (.inr ⟨address, hevent⟩)
      · obtain ⟨e, he, hnamed⟩ :=
          mem_namedPeers.1 (mem_of_lastNamed (lastNamed_of_namedPeers (r := some y) hreach.namedPeers_eq))
        exact .inr (.inl (mem_namedPeers.2 ⟨e, ht.subset he, hnamed⟩))

end DiscoveryActor

namespace ExitSystem

variable {S : Type} {ctx : Context} {s s' : ExitSystem S} {l : Label} {ls : List Label} {w : Swarm}
  {input : NetworkInput}
  {opened opened' : List Connection} {p : PeerId}

/-- `p` is connected, or the notice that it has closed waits for the discovery actor. -/
def Tracked (s : ExitSystem S) (p : PeerId) : Prop := Connected s.opened p ∨ .peerClosed p ∈ s.inbox

/-- The message does not announce `p`, or `p` is connected. -/
def Settled (p : PeerId) (opened : List Connection) (event : DiscoveryEvent) : Prop :=
  Connects p event → Connected opened p

/-- A closing of `p`, and an opening. -/
def Closes (p : PeerId) (closing opening : DiscoveryEvent) : Prop := closing = .peerClosed p ∧ Connects p opening

/-- A closing of `p` is taken while an opening waits that was sent before it. -/
def Overtakes (p : PeerId) (s : ExitSystem S) (l : Label) : Prop :=
  ∃ before after opening, l = .takes before.length ∧ s.inbox = before ++ .peerClosed p :: after ∧ opening ∈ before ∧
    Connects p opening

/-- What is known of `p` in every state: as an exit, in the openings that wait, and in the handling of a message. -/
structure Tracks [StickyStore S] (ctx : Context) (p : PeerId) (s : ExitSystem S) : Prop where
  handles : s.discovery.Handles ctx
  exits : ∀ port, s.discovery.destination port = some p → s.Tracked p ∨ ∃ h, s.handling = some h ∧
    h.event = .peerClosed p
  messages : Followed (Settled p s.opened) (Closes p) s.inbox
  considered : s.Considers p → s.Tracked p

/-! ### Connections that open and close -/

/-- A connection stays open, or its closing is noticed. -/
private theorem connected_or_noticed (ctx : Context) (w : Swarm) (a : NetworkActor)
    (hopened : LinkSystem.OpenAfter opened input opened') (hp : Connected opened p) :
    Connected opened' p ∨ .peerClosed p ∈ (LinkSystem.notices opened' (a.handle ctx w input).2).map (·.event) := by
  rw [LinkSystem.notices_handle]
  cases input with
  | swarm event =>
    cases event with
    | connectionEstablished peer address relayed =>
      obtain rfl := hopened
      exact .inl (List.mem_cons_of_mem _ hp)
    | connectionClosed peer =>
      obtain ⟨c, -, rfl, rfl⟩ := hopened
      by_cases hpeer : p = c.peer
      · subst hpeer
        exact .inr (List.mem_singleton_self _)
      · obtain ⟨d, hd, rfl⟩ := List.mem_map.1 hp
        refine .inl (List.mem_map_of_mem ((List.mem_erase_of_ne ?_).2 hd))
        rintro rfl
        exact hpeer rfl
    | _ =>
      obtain rfl := hopened
      exact .inl hp
  | _ =>
    obtain rfl := hopened
    exact .inl hp

private theorem tracked_afterInput (hopened : LinkSystem.OpenAfter s.opened input opened) (hp : s.Tracked p) :
    (s.afterInput ctx w input opened).Tracked p := by
  rcases hp with hp | hp
  · exact (connected_or_noticed ctx w s.network hopened hp).imp_right (List.mem_append_right _)
  · exact .inr (List.mem_append_left _ hp)

/-- What is noticed about an input makes up for the connections that it closes. -/
private theorem followed_afterInput (hopened : LinkSystem.OpenAfter s.opened input opened)
    (h : Followed (Settled p s.opened) (Closes p) s.inbox) :
    Followed (Settled p opened) (Closes p) (s.afterInput ctx w input opened).inbox := by
  have hsame : opened = s.opened → Followed (Settled p opened) (Closes p) (s.inbox ++ []) := by
    rintro rfl
    rwa [List.append_nil]
  show Followed _ _ (s.inbox ++ (LinkSystem.notices opened (s.network.handle ctx w input).2).map (·.event))
  rw [LinkSystem.notices_handle]
  cases input with
  | swarm event =>
    cases event with
    | connectionEstablished peer address relayed =>
      obtain rfl := hopened
      have hsettled : ∀ event, Settled p s.opened event → Settled p ({ peer, relayed } :: s.opened) event :=
        fun event hevent hp => List.mem_cons_of_mem _ (hevent hp)
      dsimp only
      split
      · rw [List.map_nil, List.append_nil]
        exact h.mono hsettled
      · refine h.concat ?_ fun event _ hevent => .inl (hsettled event hevent)
        rintro rfl
        exact List.mem_cons_self ..
    | connectionClosed peer =>
      refine h.concat (by rintro ⟨⟩) fun event _ hevent => ?_
      by_cases hconnects : Connects p event
      · rcases connected_or_noticed ctx w s.network hopened (hevent hconnects) with hconnected | hnoticed
        · exact .inl fun _ => hconnected
        · rw [LinkSystem.notices_handle] at hnoticed
          exact .inr ⟨(List.mem_singleton.1 hnoticed).symm, hconnects⟩
      · exact .inl fun h => absurd h hconnects
    | _ => exact hsame hopened
  | _ => exact hsame hopened

variable [StickyStore S]

/-- Whoever is tracked stays so, but for the closing that is taken. -/
private theorem Step.tracked (hs : s.Orderly ctx) (h : Step ctx s l s') (hp : s.Tracked p) :
    s'.Tracked p ∨ ∃ i h, l = .takes i ∧ s'.handling = some h ∧ h.event = .peerClosed p := by
  cases l with
  | network w input opened =>
    obtain ⟨-, -, -, hopened, rfl⟩ := h
    exact .inl (tracked_afterInput hopened hp)
  | serves w command =>
    obtain ⟨rest, -, hcommands, -, rfl⟩ := h
    obtain ⟨r, hr, -⟩ := hs.commands command (hcommands ▸ List.mem_cons_self ..)
    exact .inl (tracked_afterInput (s := { s with commands := rest }) (openAfter_of_channel hr) hp)
  | sends event =>
    obtain ⟨-, rfl⟩ := h
    exact .inl (hp.imp_right (List.mem_append_left _))
  | takes i =>
    obtain ⟨before, event, after, -, hinbox, -, rfl⟩ := h
    rcases hp with hp | hp
    · exact .inl (.inl hp)
    · rw [hinbox, List.mem_append, List.mem_cons] at hp
      rcases hp with hp | rfl | hp
      · exact .inl (.inr (List.mem_append_left _ hp))
      · exact .inr ⟨i, _, rfl, rfl, rfl⟩
      · exact .inl (.inr (List.mem_append_right _ hp))
  | commands command =>
    obtain ⟨h, q, k, -, -, -, -, rfl⟩ := h
    exact .inl hp
  | hears e =>
    obtain ⟨h, k, -, -, -, rfl⟩ := h
    exact .inl hp
  | finishes =>
    obtain ⟨h, a, -, -, rfl⟩ := h
    exact .inl hp

private theorem Step.messages (hs : s.Orderly ctx) (hm : Followed (Settled p s.opened) (Closes p) s.inbox)
    (h : Step ctx s l s') (hl : ¬Overtakes p s l) : Followed (Settled p s'.opened) (Closes p) s'.inbox := by
  cases l with
  | network w input opened =>
    obtain ⟨-, -, -, hopened, rfl⟩ := h
    exact followed_afterInput hopened hm
  | serves w command =>
    obtain ⟨rest, -, hcommands, -, rfl⟩ := h
    obtain ⟨r, hr, -⟩ := hs.commands command (hcommands ▸ List.mem_cons_self ..)
    exact followed_afterInput (s := { s with commands := rest }) (openAfter_of_channel hr) hm
  | sends event =>
    obtain ⟨hlink, rfl⟩ := h
    refine hm.concat (fun hp => ?_) fun _ _ hsettled => .inl hsettled
    cases event with
    | peerConnected peer address relayed => cases hlink
    | _ => cases hp
  | takes i =>
    obtain ⟨before, event, after, -, hinbox, rfl, rfl⟩ := h
    rw [hinbox] at hm
    refine hm.remove ?_
    rintro opening hopening ⟨rfl, hconnects⟩
    exact hl ⟨before, after, opening, rfl, hinbox, hopening, hconnects⟩
  | commands command =>
    obtain ⟨h, q, k, -, -, -, -, rfl⟩ := h
    exact hm
  | hears e =>
    obtain ⟨h, k, -, -, -, rfl⟩ := h
    exact hm
  | finishes =>
    obtain ⟨h, a, -, -, rfl⟩ := h
    exact hm

/-- Whoever is taken for connected is tracked when the message is taken. -/
private theorem Step.tracked_taken {i : Nat} (hm : Followed (Settled p s.opened) (Closes p) s.inbox)
    (h : Step ctx s (.takes i) s') (hp : s'.Considers p) : s'.Tracked p := by
  obtain ⟨before, event, after, -, hinbox, -, rfl⟩ := h
  rcases hm before event after hinbox with hsettled | ⟨closing, hclosing, rfl, -⟩
  · exact .inl (hsettled (considers_taken hp))
  · exact .inr (List.mem_append_right _ hclosing)

variable [LawfulStickyStore S]

/-- What is known of `p` stays known, unless its closing overtakes an opening. -/
theorem Step.tracks (ho : s.Orderly ctx) (hs : Tracks ctx p s) (h : Step ctx s l s') (hl : ¬Overtakes p s l) :
    Tracks ctx p s' := by
  have hconsidered : s'.Considers p → s'.Tracked p := by
    intro hp
    by_cases htakes : ∃ i, l = .takes i
    · obtain ⟨i, rfl⟩ := htakes
      exact h.tracked_taken hs.messages hp
    · rcases h.considers ho (fun i hi => htakes ⟨i, hi⟩) hp with hbefore | hconnected
      · refine (h.tracked ho (hs.considered hbefore)).resolve_right ?_
        rintro ⟨i, _, rfl, -⟩
        exact htakes ⟨i, rfl⟩
      · exact .inl hconnected
  have hmessages := h.messages ho hs.messages hl
  by_cases hfinishes : l = .finishes
  · subst hfinishes
    obtain ⟨h, a, hh, hnext, rfl⟩ := h
    have hstep := (ho.finished hh hnext).1
    refine ⟨fun port => ?_, fun port hexit => .inl ?_, hmessages, hconsidered⟩
    · rw [hstep.ports_eq]
      exact hs.handles port
    · rcases hstep.exit_cases hs.handles hexit with ⟨hbefore, hnot⟩ | hnamed | ⟨address, hevent⟩
      · refine (hs.exits port hbefore).resolve_right ?_
        rintro ⟨h', hh', hclosed⟩
        obtain rfl := Option.some.inj (hh.symm.trans hh')
        exact hnot hclosed
      · exact hs.considered (.named hh hnamed)
      · refine hs.considered (.handled hh ?_)
        rw [show h.event = .peerConnected p address false from hevent]
        rfl
  · obtain ⟨hsame, hevent⟩ := h.goes_on hfinishes
    refine ⟨hsame ▸ hs.handles, fun port hexit => ?_, hmessages, hconsidered⟩
    rw [hsame] at hexit
    rcases hs.exits port hexit with htracked | ⟨h₀, hh₀, hclosed⟩
    · exact (h.tracked ho htracked).imp_right fun ⟨_, h', _, hh', hevent⟩ => ⟨h', hh', hevent⟩
    · obtain ⟨h', hh', heq⟩ := hevent h₀ hh₀
      exact .inr ⟨h', hh', heq.trans hclosed⟩

/-- In every run an exit is connected, or the notice that it has closed waits for the discovery actor or is being
handled; or at some step of the run a closing of this peer has overtaken an opening. -/
theorem exits_tracked {sticky : S} {destinations : Destinations} {port : Port}
    (hhandles : (DiscoveryActor.new sticky destinations).Handles ctx) (hdark : ∀ port, destinations.active port = none)
    (h : Reaches (Step ctx) (init opened sticky destinations) ls s) (hexit : s.discovery.destination port = some p) :
    Connected s.opened p ∨ .peerClosed p ∈ s.inbox ∨ (∃ h, s.handling = some h ∧ h.event = .peerClosed p) ∨
      ∃ l₁ l l₂ s₁, ls = l₁ ++ l :: l₂ ∧ Reaches (Step ctx) (init opened sticky destinations) l₁ s₁ ∧
        Reaches (Step ctx) s₁ (l :: l₂) s ∧ Overtakes p s₁ l := by
  rcases h.guarded_or fun s l => ¬Overtakes p s l with hg | ⟨l₁, l, l₂, s₁, hls, h₁, h₂, hovertakes⟩
  · have hfirst : Tracks ctx p (init opened sticky destinations) := by
      refine ⟨hhandles, fun port hexit => ?_, .nil, fun hp => ?_⟩
      · rw [show (init opened sticky destinations).discovery.destination port = none from hdark port] at hexit
        cases hexit
      · cases hp with
        | handled hh _ | named hh _ | replied hh _ _ _ => cases hh
    have hinvariant := hg.invariant (I := fun s => s.Orderly ctx ∧ Tracks ctx p s)
      (fun s l s' hs hl => ⟨hl.1.orderly hs.1, hl.1.tracks hs.1 hs.2 hl.2⟩) ⟨orderly_init, hfirst⟩
    rcases hinvariant.2.exits port hexit with (hconnected | hwaits) | hhandled
    · exact .inl hconnected
    · exact .inr (.inl hwaits)
    · exact .inr (.inr (.inl hhandled))
  · exact .inr (.inr (.inr ⟨l₁, l, l₂, s₁, hls, h₁, h₂, not_not.1 hovertakes⟩))

section OneExit

open LinkSystem (oneServer exitOne)

theorem exits_tracked_selected : Connected adopted.2.opened exitOne ∨ .peerClosed exitOne ∈ adopted.2.inbox ∨
    (∃ h, adopted.2.handling = some h ∧ h.event = .peerClosed exitOne) ∨
      ∃ l₁ l l₂ s₁, selection = l₁ ++ l :: l₂ ∧ Reaches (Step oneServer) dark l₁ s₁ ∧
        Reaches (Step oneServer) s₁ (l :: l₂) adopted.2 ∧ Overtakes exitOne s₁ l :=
  exits_tracked (fun _ => Iff.rfl) (fun _ => rfl) selection_reaches
    (show adopted.2.discovery.destination 1080 = some exitOne by decide)

end OneExit

end ExitSystem

end P2Proxy
