import P2Proxy.Attempts
import P2Proxy.LiveExit
import P2Proxy.Turns

/-!
# Servers without affinity

A server that is not sticky, or that is pinned, should keep no standbys.  The connect flow asks for the flag wherever it
uses the pool, but a pinned server that falls back to discovery is still sticky by default, and adopting an exit, for
the operator or to get off the relay, does not ask at all.  `no_affinity` says that this is all: as long as nobody is
reached in one of these ways, nobody is remembered for the port and no exit of it is chosen because it was.
-/

namespace P2Proxy

open Interaction

/-- A server that should have no affinity to its exits: it is not sticky, or it is pinned. -/
def Server.Unattached (server : Server) : Prop := server.peerOptions.sticky = false ∨ server.peerOptions.pinned ≠ []

/-! ### Stores in which nobody is remembered -/

section Unremembered

variable {S : Type} [StickyStore S] {port : Port} {s s' s'' : S}

/-- The store has come from `s` without a peer being remembered for `port`, so none was added to or promoted in a pool
of the port. -/
inductive Unremembered (port : Port) (s : S) : S → Prop
  | refl : Unremembered port s s
  | pool {s' : S} (q : Port) (fp : String) :
    Unremembered port s s' → Unremembered port s (StickyStore.pool q fp s').2
  | forgetPeer {s' : S} (q : Port) (peer : PeerId) :
    Unremembered port s s' → Unremembered port s (StickyStore.forgetPeer q peer s')
  | noteDirectAddress {s' : S} (peer : PeerId) (address : Multiaddr) :
    Unremembered port s s' → Unremembered port s (StickyStore.noteDirectAddress peer address s')
  | remember {s' : S} (now : DateTime) (q : Port) (fp : String) (peer : PeerId) (max : Nat) (hne : port ≠ q) :
    Unremembered port s s' → Unremembered port s (StickyStore.remember now q fp peer max s').2

theorem Unremembered.trans (h₁ : Unremembered port s s') (h₂ : Unremembered port s' s'') : Unremembered port s s'' := by
  induction h₂ with
  | refl => exact h₁
  | pool q fp _ ih => exact ih.pool q fp
  | forgetPeer q peer _ ih => exact ih.forgetPeer q peer
  | noteDirectAddress peer address _ ih => exact ih.noteDirectAddress peer address
  | remember now q fp peer max hne _ ih => exact ih.remember now q fp peer max hne

/-- What is left of a pool of the port is in the old order. -/
theorem Unremembered.members_sublist [LawfulStickyStore S] (h : Unremembered port s s') (fp : String) :
    ((view s').members port fp).Sublist ((view s).members port fp) := by
  induction h with
  | refl => exact List.Sublist.refl _
  | pool q fp' _ ih =>
    rw [LawfulStickyStore.view_pool]
    exact StickyState.members_pool_sublist.trans ih
  | forgetPeer q peer _ ih =>
    rw [LawfulStickyStore.view_forgetPeer]
    exact StickyState.members_forgetPeer_sublist.trans ih
  | noteDirectAddress peer address _ ih =>
    rw [LawfulStickyStore.view_noteDirectAddress, StickyState.members_noteDirectAddress]
    exact ih
  | remember now q fp' peer max hne _ ih =>
    rw [LawfulStickyStore.view_remember, StickyState.members_remember_of_ne hne]
    exact ih

end Unremembered

/-! ### Connecting -/

/-- After the second question to the hub the dialer names nobody.  A pinned server asks once for its list, and once more
for each attempt that it makes when it has fallen back to discovery. -/
def FallbackFails (tr : List Io) : Prop := ∀ t₁ t₂, tr = t₁ ++ t₂ → 1 < t₁.countP Io.asksHub → namedPeers t₂ = []

namespace FallbackFails

variable {t₁ t₂ rest : List Io} {q : Io}

theorem left (h : FallbackFails (t₁ ++ t₂)) : FallbackFails t₁ := by
  rintro u v rfl hu
  have huv := h u (v ++ t₂) (List.append_assoc ..) hu
  rw [namedPeers_append] at huv
  exact (List.append_eq_nil_iff.1 huv).1

theorem right (h : FallbackFails (t₁ ++ t₂)) : FallbackFails t₂ := by
  rintro u v rfl hu
  refine h (t₁ ++ u) v (List.append_assoc ..).symm ?_
  rw [List.countP_append]
  omega

/-- The part that begins with the second question names nobody. -/
theorem namedPeers_eq_nil (h : FallbackFails (t₁ ++ q :: rest)) (hasked : ∃ e ∈ t₁, Io.asksHub e = true)
    (hq : q.asksHub = true) : namedPeers (q :: rest) = [] := by
  have hcount : 0 < t₁.countP Io.asksHub := List.countP_pos_iff.2 hasked
  have hrest : namedPeers rest = [] := by
    refine h (t₁ ++ [q]) rest (by simp) ?_
    rw [List.countP_append, List.countP_singleton, if_pos hq]
    omega
  have hnamed : q.named = none := by
    obtain ⟨q, x⟩ := q
    cases q <;> first | rfl | cases hq
  rw [namedPeers, List.filterMap_cons_none hnamed]
  exact hrest

end FallbackFails

section Connect

variable {S : Type} [StickyStore S] {relayAddress : Multiaddr} {server : Server} {s s' : S} {tr : List Io}

private theorem tryPoolMember_asks {p : PeerId} {r : Option PeerId}
    (h : Runs (tryPoolMember relayAddress server none p : M S _) s tr r s') :
    ∃ q rest, tr = q :: rest ∧ Io.asksHub q = true := by
  rcases runs_tryPoolMember.1 h with ⟨hp, -⟩ | ⟨-, ⟨ans, dials, rfl, -⟩, -⟩
  · cases hp
  · exact ⟨_, dials, rfl, rfl⟩

private theorem runDiscovery_asks {r : Except ConnectError ConnectedDestination}
    (h : Runs (runDiscovery relayAddress server server.fingerprint : M S _) s tr r s') :
    ∃ q rest, tr = q :: rest ∧ Io.asksHub q = true := by
  obtain ⟨t₁, o, s₁, t₂, rfl, h₁, h₂⟩ := runs_bind.1 h
  -- the first attempt begins with the question
  have hfirst : ∃ t₃ o s₃ t₄, t₁ = t₃ ++ t₄ ∧
      Runs (discoveryAttempt relayAddress server server.fingerprint : M S _) s t₃ o s₃ := by
    rcases runs_attempts_succ (n := 19).1 h₁ with ⟨c, -, h₃⟩ | ⟨t₃, s₃, t₄, rfl, h₃, -⟩
    · exact ⟨t₁, _, _, [], by simp, h₃⟩
    · exact ⟨t₃, _, _, t₄, rfl, h₃⟩
  obtain ⟨t₃, o, s₃, t₄, rfl, h₃⟩ := hfirst
  rcases runs_discoveryAttempt.1 h₃ with ⟨e, rfl, -⟩ | ⟨rfl, -⟩ | ⟨cs, o, u₁, u₂, -, rfl, -⟩ <;> exact ⟨_, _, rfl, rfl⟩

/-- Pool and discovery begin with a question to the hub. -/
theorem connectDiscovered_asks {r : Except ConnectError ConnectedDestination}
    (h : Runs (connectDiscovered relayAddress server none : M S _) s tr r s') :
    ∃ q rest, tr = q :: rest ∧ Io.asksHub q = true := by
  obtain ⟨t₁, o, s₁, t₂, rfl, h₁, h₂⟩ := runs_bind.1 h
  -- an empty pool is passed over
  have hempty : t₁ = [] ∧ o = none → ∃ q rest, t₁ ++ t₂ = q :: rest ∧ Io.asksHub q = true := by
    rintro ⟨rfl, rfl⟩
    exact runDiscovery_asks h₂
  unfold connectStickyPool at h₁
  split at h₁
  · obtain ⟨_, peers, _, t₃, rfl, h₃, h₄⟩ := runs_bind.1 h₁
    obtain ⟨rfl, -, -⟩ := runs_modifyGet.1 h₃
    cases peers with
    | nil =>
      obtain ⟨rfl, rfl, -⟩ := runs_findSomeM?_nil.1 h₄
      exact hempty ⟨rfl, rfl⟩
    | cons p peers =>
      rcases runs_findSomeM?_cons.1 h₄ with ⟨c, -, h₅⟩ | ⟨t₅, s₅, t₆, rfl, h₅, -⟩
      · obtain ⟨q, rest, rfl, hq⟩ := tryPoolMember_asks h₅
        exact ⟨q, _, rfl, hq⟩
      · obtain ⟨q, rest, rfl, hq⟩ := tryPoolMember_asks h₅
        exact ⟨q, _, rfl, hq⟩
  · obtain ⟨rfl, rfl, -⟩ := runs_pure.1 h₁
    exact hempty ⟨rfl, rfl⟩

/-- A server that is not sticky has no exit that was chosen from its pool. -/
theorem connectDiscovered_unsticky {avoid : Option PeerId} {d : ConnectedDestination}
    (hsticky : server.peerOptions.sticky = false)
    (h : Runs (connectDiscovered relayAddress server avoid : M S _) s tr (.ok d) s') : d.source ≠ .sticky := by
  have htarget : reconnectTarget server avoid = none := by
    cases avoid <;> simp [reconnectTarget, hsticky]
  unfold connectDiscovered at h
  rw [htarget] at h
  obtain ⟨t₁, o, s₁, t₂, rfl, h₁, h₂⟩ := runs_bind.1 h
  unfold connectStickyPool at h₁
  rw [if_neg (by simp [hsticky])] at h₁
  obtain ⟨-, rfl, -⟩ := runs_pure.1 h₁
  rw [runDiscovery_source h₂]
  simp

/-- Connecting a server without affinity remembers nobody and chooses nobody from its pool, unless it falls back. -/
theorem connect_unremembered {avoid : Option PeerId} {r : Except ConnectError ConnectedDestination}
    (hun : server.Unattached)
    (hfails : server.peerOptions.sticky = true → server.peerOptions.fallbackToDiscovery = true → FallbackFails tr)
    (h : Runs (connect relayAddress server avoid : M S _) s tr r s') :
    Unremembered server.port s s' ∧ ∀ d, r = .ok d → d.source ≠ .sticky := by
  cases hsticky : server.peerOptions.sticky with
  | false =>
    obtain rfl := connect_unsticky hsticky h
    refine ⟨.refl, ?_⟩
    rintro d rfl
    unfold connect at h
    split at h
    · exact connectDiscovered_unsticky hsticky h
    · rcases connectPinned_segment h with ⟨-, -, hsource⟩ | ⟨-, t₁, t₂, rfl, -, -, hd⟩
      · obtain ⟨rank, hrank⟩ := hsource d rfl
        simp [hrank]
      · exact connectDiscovered_unsticky hsticky hd
  | true =>
    have hpins : server.peerOptions.pinned ≠ [] := hun.resolve_left (by simp [hsticky])
    unfold connect at h
    rw [if_neg hpins] at h
    rcases connectPinned_segment h with ⟨rfl, -, hsource⟩ | ⟨hfallback, t₁, t₂, rfl, -, ⟨ans, hans⟩, hd⟩
    · refine ⟨.refl, fun d hd => ?_⟩
      obtain ⟨rank, hrank⟩ := hsource d hd
      simp [hrank]
    · -- the fallback reaches nobody, so it has nobody to remember
      obtain ⟨q, rest, rfl, hq⟩ := connectDiscovered_asks hd
      have hnobody : namedPeers (q :: rest) = [] :=
        (hfails hsticky hfallback).namedPeers_eq_nil ⟨_, hans, rfl⟩ hq
      have hlaw : ConnectLaw server fun (s : S) t s' => namedPeers t = [] → Unremembered server.port s s' :=
        { refl := fun _ _ => .refl
          trans := fun h₁ h₂ ht => by
            rw [namedPeers_append, List.append_eq_nil_iff] at ht
            exact (h₁ ht.1).trans (h₂ ht.2)
          call := fun _ _ _ => .refl
          pool := fun _ _ _ => .pool _ _ .refl
          forget := fun _ _ _ _ => .forgetPeer _ _ .refl
          adopt := fun _ _ _ _ _ _ _ hp ht => by
            rw [namedPeers_append, List.append_eq_nil_iff] at ht
            rw [lastNamed, ht.1] at hp
            cases hp }
      refine ⟨hlaw.connectDiscovered none _ _ _ _ hd hnobody, ?_⟩
      rintro d rfl
      rw [connectDiscovered_namedPeers hd] at hnobody
      cases hnobody

/-- Connecting another server remembers nobody for `port`. -/
theorem connect_unremembered_of_ne {port : Port} {avoid : Option PeerId} {r : Except ConnectError ConnectedDestination}
    (hne : port ≠ server.port) (h : Runs (connect relayAddress server avoid : M S _) s tr r s') :
    Unremembered port s s' :=
  connect_obeys (R := fun s _ s' => Unremembered port s s')
    { refl := fun _ => .refl
      trans := .trans
      call := fun _ _ => .refl
      pool := fun _ _ => .pool _ _ .refl
      forget := fun _ _ _ => .forgetPeer _ _ .refl
      adopt := fun _ _ _ _ _ _ h _ => h.remember _ _ _ _ _ hne } avoid _ _ _ _ h

end Connect

/-- The announcement of `peer` as an exit of `port` that was chosen from its pool. -/
def Io.fromPool (port : Port) (peer : PeerId) : Io := ⟨.emit (.activeDestination port (some peer) (some .sticky)), ()⟩

namespace DiscoveryActor

variable {S : Type} [StickyStore S] {ctx : Context} {server : Server} {a a' : DiscoveryActor S} {tr : List Io}
  {port q : Port} {s s₁ s' : S} {peer : PeerId} {u : Unit}

/-- Nobody is remembered for the port, and no exit of it is chosen because it was. -/
structure NoAffinity (port : Port) (s : S) (tr : List Io) (s' : S) : Prop where
  unremembered : Unremembered port s s'
  unchosen : ∀ peer, Io.fromPool port peer ∉ tr

namespace NoAffinity

theorem refl (s : S) : NoAffinity port s [] s := ⟨.refl, fun _ => List.not_mem_nil⟩

theorem trans {t₁ t₂ : List Io} (h₁ : NoAffinity port s t₁ s₁) (h₂ : NoAffinity port s₁ t₂ s') :
    NoAffinity port s (t₁ ++ t₂) s' where
  unremembered := h₁.unremembered.trans h₂.unremembered
  unchosen peer he := (List.mem_append.1 he).elim (h₁.unchosen peer) (h₂.unchosen peer)

theorem law : Law fun (a : DiscoveryActor S) tr a' => NoAffinity port a.sticky tr a'.sticky :=
  ⟨fun a => refl a.sticky, trans⟩

/-- A trace that announces no exit of the port announces none from its pool. -/
theorem of_announced (h : Unremembered port s s') (htr : ∀ e ∈ tr, Io.announced e ≠ some port) :
    NoAffinity port s tr s' :=
  ⟨h, fun _ he => htr _ he rfl⟩

end NoAffinity

/-! ### Other ports -/

private theorem announced_of_connecting {t : List Io} {s : S} {other : Server} {d : Option ConnectedDestination}
    (hne : port ≠ q) (ht : ∀ e ∈ t, Io.ofConnect e = true) :
    ∀ e ∈ t ++ [⟨.emit (poolEvent other s), ()⟩, ⟨.emit (activeEvent q d), ()⟩], Io.announced e ≠ some port := by
  intro e he hport
  rcases List.mem_append.1 he with he | he
  · rw [(Io.ofConnect_not_announced (ht e he)).1] at hport
    cases hport
  · rcases List.mem_cons.1 he with rfl | he
    · cases hport
    · obtain rfl := List.mem_singleton.1 he
      exact hne (Option.some.inj hport).symm

theorem discover_noAffinity_of_ne {avoid r : Option PeerId} (hne : port ≠ q)
    (h : Runs (discover ctx q avoid) a tr r a') : NoAffinity port a.sticky tr a'.sticky := by
  rcases runs_discover.1 h with ⟨-, rfl, -, rfl⟩ | ⟨other, t, result, s₁, hs, hc, rfl, -, rfl⟩
  · exact ⟨.refl, fun _ => List.not_mem_nil⟩
  · refine .of_announced ?_ (announced_of_connecting hne (connect_connecting avoid _ _ _ _ hc))
    rw [← Context.port_of_server? hs] at hne
    exact connect_unremembered_of_ne hne hc

theorem closePort_noAffinity_of_ne (hne : port ≠ q) (h : Runs (closePort ctx peer q) a tr u a') :
    NoAffinity port a.sticky tr a'.sticky := by
  rcases closePort_cases h with ⟨checks, now, t, r, rfl, hchecks, hd⟩ | ⟨at_, n, -, -, rfl, rfl⟩
  · have hquiet : ∀ e ∈ checks ++ [⟨.instantNow, now⟩], Io.announced e = none ∧ Io.scheduled e = none :=
      clock_quiet (hchecks.imp And.right fun ⟨_, n, _, hn, _⟩ => ⟨n, hn⟩)
    have hclock : NoAffinity port a.sticky (checks ++ [⟨.instantNow, now⟩]) a.sticky :=
      .of_announced .refl fun e he hport => by
        rw [(hquiet e he).1] at hport
        cases hport
    have hdiscovered := discover_noAffinity_of_ne hne hd
    have hboth := hclock.trans hdiscovered
    rwa [List.append_assoc] at hboth
  · refine .of_announced .refl fun e he hport => ?_
    rcases List.mem_cons.1 he with rfl | he
    · cases hport
    · rcases List.mem_cons.1 he with rfl | he
      · exact hne (Option.some.inj hport).symm
      · split at he
        · cases he
        · obtain rfl := List.mem_singleton.1 he
          cases hport

theorem adoptSpecific_noAffinity_of_ne {other : Server} {source : DestinationSource} (hne : port ≠ other.port)
    (h : Runs (adoptSpecific other peer source) a tr u a') : NoAffinity port a.sticky tr a'.sticky := by
  obtain ⟨now, s₁, rfl, rfl, rfl⟩ := runs_adoptSpecific h
  refine .of_announced (.remember _ _ _ _ _ hne .refl) ?_
  simp only [List.forall_mem_cons]
  exact ⟨by simp [Io.announced], fun hport => hne (Option.some.inj hport).symm, by simp [Io.announced, poolEvent],
    fun _ he => absurd he List.not_mem_nil⟩

/-- A port is rotated for its own sake only, and only onto a member of its pool. -/
theorem rotatePort_noAffinity (hlookup : ctx.server? server.port = some server)
    (hout : q = server.port → peer ∉ (StickyStore.pool server.port server.fingerprint a.sticky).1)
    (h : Runs (rotatePort ctx peer q) a tr u a') : NoAffinity server.port a.sticky tr a'.sticky := by
  rcases rotatePort_cases h with ⟨-, rfl, rfl⟩ | ⟨other, s₁, hs, rfl, ⟨-, rfl, rfl⟩ | ⟨hin, hr⟩⟩
  · exact .refl _
  · exact ⟨.pool _ _ .refl, fun _ => List.not_mem_nil⟩
  · have hport := Context.port_of_server? hs
    have hne : server.port ≠ other.port := by
      intro heq
      have hq : q = server.port := hport.symm.trans heq.symm
      rw [hq, hlookup] at hs
      cases hs
      exact hout hq hin
    have hread : NoAffinity server.port a.sticky [] (StickyStore.pool other.port other.fingerprint a.sticky).2 :=
      ⟨.pool _ _ .refl, fun _ => List.not_mem_nil⟩
    exact hread.trans (adoptSpecific_noAffinity_of_ne hne hr)

/-! ### The port's own turn -/

theorem discover_noAffinity {avoid r : Option PeerId} (hserver : ctx.server? server.port = some server)
    (hun : server.Unattached) (h : Runs (discover ctx server.port avoid) a tr r a') :
    ∃ part, IsTurn server.port tr part [] ∧
      ((server.peerOptions.sticky = true → server.peerOptions.fallbackToDiscovery = true → FallbackFails part) →
        NoAffinity server.port a.sticky tr a'.sticky) := by
  rcases runs_discover.1 h with ⟨hn, -⟩ | ⟨other, t, result, s₁, hs, hc, rfl, -, rfl⟩
  · rw [hserver] at hn; cases hn
  · obtain rfl := Option.some.inj (hserver.symm.trans hs)
    refine ⟨_, connect_isTurn hc, fun hfails => ?_⟩
    obtain ⟨hsticky, hsource⟩ := connect_unremembered hun (fun h₁ h₂ => (hfails h₁ h₂).left) hc
    refine ⟨hsticky, fun peer he => ?_⟩
    rcases List.mem_append.1 he with he | he
    · have hquiet := (Io.ofConnect_not_announced (connect_connecting avoid _ _ _ _ hc _ he)).1
      cases hquiet
    · rcases List.mem_cons.1 he with he | he
      · cases he
      · -- the announcement names the source of the result
        have hann := List.mem_singleton.1 he
        cases result with
        | error e => cases hann
        | ok d =>
          obtain ⟨p, source⟩ := d
          cases hann
          exact hsource _ rfl rfl

variable [LawfulStickyStore S]

theorem closePort_noAffinity (hserver : ctx.server? server.port = some server) (hun : server.Unattached)
    (h : Runs (closePort ctx peer server.port) a tr u a') :
    ∃ part ds, IsTurn server.port tr part ds ∧
      ((server.peerOptions.sticky = true → server.peerOptions.fallbackToDiscovery = true → FallbackFails part) →
        NoAffinity server.port a.sticky tr a'.sticky) := by
  rcases closePort_cases h with ⟨checks, now, t, r, rfl, hchecks, hd⟩ | ⟨at_, n, -, -, htr, rfl⟩
  · have hquiet : ∀ e ∈ checks ++ [⟨.instantNow, now⟩], Io.announced e = none ∧ Io.scheduled e = none :=
      clock_quiet (hchecks.imp And.right fun ⟨_, n, _, hn, _⟩ => ⟨n, hn⟩)
    obtain ⟨part, hturn, hnone⟩ := discover_noAffinity hserver hun hd
    have hall := hturn.prepend hquiet
    rw [List.append_assoc, List.append_assoc] at hall
    refine ⟨_, _, hall, fun hfails => ?_⟩
    have hclock : NoAffinity server.port a.sticky (checks ++ [⟨.instantNow, now⟩]) a.sticky :=
      .of_announced .refl fun e he hport => by
        rw [(hquiet e he).1] at hport
        cases hport
    have hboth := hclock.trans (hnone fun h₁ h₂ => by
      have hpart := hfails h₁ h₂
      rw [← List.singleton_append, ← List.append_assoc] at hpart
      exact hpart.right)
    rwa [List.append_assoc] at hboth
  · obtain ⟨part, ds, hturn, -⟩ := closePort_turn hserver h
    refine ⟨part, ds, hturn, fun _ => ⟨.refl, fun p he => ?_⟩⟩
    rw [htr] at he
    rcases List.mem_cons.1 he with he | he
    · cases he
    · rcases List.mem_cons.1 he with he | he
      · cases he
      · split at he
        · cases he
        · cases List.mem_singleton.1 he

/-! ### Every event -/

/-- Does the event bring an exit of the port into its pool, or out of it into service?  It does if the operator's
selection is reached, if a member of the pool connects directly while the exit is relay-only, and if a pinned server
that is sticky reaches somebody after it has fallen back. -/
def Attaches (server : Server) (a : DiscoveryActor S) (l : Label) : Prop :=
  match l.event with
  | .selectPeer port _ => port = server.port ∧ namedPeers l.trace ≠ []
  | .peerConnected peer _ relayed =>
    relayed = false ∧ relayStuck a.directPeers peer (a.destination server.port) = true ∧
      peer ∈ exitPool server a.sticky
  | .discoverFor _ | .requestNewPeer _ | .peerClosed _ | .peerUnusable _ =>
    server.peerOptions.sticky = true ∧ server.peerOptions.fallbackToDiscovery = true ∧
      ¬FallbackFails (turnOf server.port l.trace)

omit [LawfulStickyStore S] in
/-- Forgetting a peer everywhere remembers nobody. -/
private theorem unremembered_forgetAll {servers : List Server} : Unremembered port s (forgetAll servers peer s) := by
  induction servers generalizing s with
  | nil => exact .refl
  | cons other servers ih => exact (Unremembered.forgetPeer other.port peer .refl).trans ih

omit [LawfulStickyStore S] in
/-- The loop over the ports that a closing or unusable peer was serving. -/
private theorem forM_noAffinity {f : Port → M (DiscoveryActor S) Unit} {p : Option PeerId → Bool}
    {b : DiscoveryActor S}
    (hothers : ∀ q, server.port ≠ q → Obeys (fun a tr a' => NoAffinity server.port a.sticky tr a'.sticky) (f q))
    (hturns : ∀ q ∈ b.destinations.portsWhere p, ∀ c t c', Runs (f q) c t () c' → ∃ part ds, IsTurn q t part ds)
    (hown : ∀ c t c', Runs (f server.port) c t () c' → ∃ part ds, IsTurn server.port t part ds ∧
      ((server.peerOptions.sticky = true → server.peerOptions.fallbackToDiscovery = true → FallbackFails part) →
        NoAffinity server.port c.sticky t c'.sticky)) (rest : List Io)
    (hfails : server.peerOptions.sticky = true → server.peerOptions.fallbackToDiscovery = true →
      FallbackFails (turnOf server.port (tr ++ rest)))
    (h : Runs ((b.destinations.portsWhere p).forM f) a tr () a') : NoAffinity server.port a.sticky tr a'.sticky := by
  rcases runs_forM_turn NoAffinity.law (fun q hq => hothers q (Ne.symm hq)) hturns
    (b.destinations.nodup.filter _) h with
    ⟨-, hall, -⟩ | ⟨t₁, c, t, c', t₂, part, ds, -, rfl, h₁, hr, h₂, hturn, hpart, -⟩
  · exact hall
  · obtain ⟨part', ds', hturn', hnone⟩ := hown c t c' hr
    obtain ⟨rfl, -⟩ := hturn'.unique hturn
    rw [hpart] at hfails
    exact h₁.trans ((hnone hfails).trans h₂)

/-- Rotating the ports attaches none whose exit is not stuck on a relay, or whose pool lacks the peer. -/
private theorem rotations_noAffinity {b : DiscoveryActor S} {direct : Finset PeerId}
    (hserver : ctx.server? server.port = some server)
    (hidle : relayStuck direct peer (b.destination server.port) = true → peer ∉ exitPool server b.sticky)
    (h : Runs ((b.destinations.portsWhere (relayStuck (insert peer direct) peer)).forM (rotatePort ctx peer)) b tr ()
      a') :
    NoAffinity server.port b.sticky tr a'.sticky := by
  by_cases hin : peer ∈ exitPool server b.sticky
  · -- the port is not stuck on a relay, so it has no turn
    refine Obeys.forM NoAffinity.law _ (fun q hq c t _ c' hr => ?_) _ _ _ _ h
    refine rotatePort_noAffinity hserver (fun hport => absurd hin (hidle ?_)) hr
    rw [← relayStuck_insert, ← hport]
    exact (Destinations.mem_portsWhere.1 hq).2
  · -- no turn brings the candidate into the pool
    refine Obeys.forM (R := fun c t c' => peer ∉ exitPool server c.sticky → NoAffinity server.port c.sticky t c'.sticky)
      ⟨fun c _ => .refl c.sticky, fun h₁ h₂ hc => ?_⟩ _ (fun q hq c t _ c' hr hc => ?_) _ _ _ _ h hin
    · have hfirst := h₁ hc
      exact hfirst.trans (h₂ fun hmem => hc ((hfirst.unremembered.members_sublist _).subset hmem))
    · refine rotatePort_noAffinity hserver (fun _ => ?_) hr
      rw [pool_fst_eq_exitPool]
      exact hc

/-- An event that does not attach the port to its pool leaves it without affinity. -/
theorem Step.noAffinity {l : Label} (hserver : ctx.server? server.port = some server) (hun : server.Unattached)
    (hhandles : Handles ctx a) (hno : ¬Attaches server a l) (h : Step ctx a l a') :
    NoAffinity server.port a.sticky l.trace a'.sticky := by
  obtain ⟨event, tr⟩ := l
  cases event with
  | discoverFor q =>
    obtain ⟨r, hd⟩ := step_discoverFor.1 h
    by_cases hq : server.port = q
    · subst hq
      obtain ⟨part, hturn, hnone⟩ := discover_noAffinity hserver hun hd
      have hpart := hturn.turnOf_eq []
      rw [List.append_nil] at hpart
      exact hnone fun h₁ h₂ => not_not.1 fun hfails => hno ⟨h₁, h₂, by rwa [hpart]⟩
    · exact discover_noAffinity_of_ne hq hd
  | requestNewPeer q =>
    obtain ⟨t, r, rfl, hd⟩ := step_requestNewPeer.1 h
    have hreply : NoAffinity server.port a'.sticky [⟨.reply r, ()⟩] a'.sticky :=
      .of_announced .refl fun e he => by
        obtain rfl := List.mem_singleton.1 he
        simp [Io.announced]
    by_cases hq : server.port = q
    · subst hq
      obtain ⟨part, hturn, hnone⟩ := discover_noAffinity hserver hun hd
      have hpart := hturn.turnOf_eq [⟨.reply r, ()⟩]
      refine NoAffinity.trans (hnone fun h₁ h₂ => not_not.1 fun hfails => hno ⟨h₁, h₂, by rwa [hpart]⟩) hreply
    · exact (discover_noAffinity_of_ne hq hd).trans hreply
  | peerClosed peer =>
    refine forM_noAffinity (a := { a with directPeers := a.directPeers.erase peer })
      (fun q hq _ _ _ _ hr => closePort_noAffinity_of_ne hq hr) (closePort_isTurn hhandles)
      (fun c t c' hr => closePort_noAffinity hserver hun hr) [] (fun h₁ h₂ => ?_) (step_peerClosed.1 h)
    rw [List.append_nil]
    exact not_not.1 fun hfails => hno ⟨h₁, h₂, hfails⟩
  | peerUnusable peer =>
    obtain ⟨t, rfl, hloop⟩ := step_peerUnusable_cases h
    have hforgotten : NoAffinity server.port a.sticky [] (forgetAll ctx.servers peer a.sticky) :=
      ⟨unremembered_forgetAll, fun _ => List.not_mem_nil⟩
    have hpools : NoAffinity server.port a'.sticky
        (ctx.servers.map fun server => ⟨.emit (poolEvent server a'.sticky), ()⟩) a'.sticky :=
      .of_announced .refl fun e he => by
        obtain ⟨other, -, rfl⟩ := List.mem_map.1 he
        simp [Io.announced, poolEvent]
    refine hforgotten.trans (.trans ?_ hpools)
    refine forM_noAffinity (a := { a with sticky := forgetAll ctx.servers peer a.sticky }) ?_
      (discover_isTurn hhandles) ?_
      _ (fun h₁ h₂ => not_not.1 fun hfails => hno ⟨h₁, h₂, hfails⟩) hloop
    · intro q hq b t r b' hr
      obtain ⟨r, hd⟩ := runs_discard.1 hr
      exact discover_noAffinity_of_ne hq hd
    · intro b t b' hr
      obtain ⟨r, hd⟩ := runs_discard.1 hr
      obtain ⟨part, hturn, hnone⟩ := discover_noAffinity hserver hun hd
      exact ⟨part, [], hturn, hnone⟩
  | peerConnected peer address relayed =>
    cases relayed with
    | true =>
      obtain ⟨rfl, rfl⟩ := step_peerConnected_relayed.1 h
      exact ⟨.refl, fun _ => List.not_mem_nil⟩
    | false =>
      have hloop := step_peerConnected_direct.1 h
      have hnoted : NoAffinity server.port a.sticky [] (a.noteDirect peer address).sticky :=
        ⟨.noteDirectAddress _ _ .refl, fun _ => List.not_mem_nil⟩
      refine hnoted.trans ?_
      refine rotations_noAffinity hserver (fun hstuck hin => hno ⟨rfl, hstuck, ?_⟩) hloop
      simpa [noteDirect] using hin
  | selectPeer q peer =>
    rcases step_selectPeer_cases h with ⟨-, rfl, rfl⟩ | ⟨other, o, t, t', hs, rfl, hreach, ho⟩
    · exact .refl _
    · have hnamed := hreach.namedPeers_eq
      have hreached : NoAffinity server.port a.sticky t a.sticky := by
        refine .of_announced .refl fun e he => ?_
        rw [(Io.ofConnect_not_announced (hreach.ofConnect e he)).1]
        simp
      refine hreached.trans ?_
      cases o with
      | none =>
        obtain ⟨⟨message, rfl⟩, rfl⟩ := ho
        refine .of_announced .refl fun e he => ?_
        obtain rfl := List.mem_singleton.1 he
        simp [Io.announced]
      | some y =>
        refine adoptSpecific_noAffinity_of_ne (fun hport => hno ⟨?_, ?_⟩) ho
        · rw [← Context.port_of_server? hs, hport]
        · show namedPeers (t ++ t') ≠ []
          rw [namedPeers_append, hnamed]
          simp

/-- No affinity.  In a run from any store, none of whose events attaches the port to its pool, nobody is ever remembered
for the port and no exit of it is ever chosen from its pool. -/
theorem no_affinity (hserver : ctx.server? server.port = some server) (hun : server.Unattached)
    (hhandles : Handles ctx a)
    {ls : List Label} (h : Reaches (guarded (Step ctx) fun a l => ¬Attaches server a l) a ls a') :
    Throughout (Step ctx) (fun a l a' => NoAffinity server.port a.sticky l.trace a'.sticky) a ls := by
  refine h.throughout (J := Handles ctx) (fun _ _ _ _ => Step.deterministic) ?_ ?_ hhandles
  · intro b l b' hb hs port
    rw [hs.ports_eq]
    exact hb port
  · intro b l b' hb hs hno
    exact hs.noAffinity hserver hun hb hno

section Fixture

private def unstickyServer : Server := { discoveryServer 1080 with peerOptions := { options with sticky := false } }

private def unstickyContext : Context := dummyContext [unstickyServer]

private def unstickyStart : DiscoveryActor StickyState := new .empty (.dark [1080] nodup_onePort)

/-- The hub's candidate is `[1]`, and it can be reached. -/
private def reachable : World := { routes := [], candidates := [⟨⟨[1]⟩, []⟩], online := [⟨[1]⟩], connected := [] }

private def unstickyRun (event : DiscoveryEvent) : List Io × Unit × DiscoveryActor StickyState :=
  exec reachable.answer (handle unstickyContext event) unstickyStart

/-- The exit that is discovered is not remembered. -/
theorem no_affinity_discovered : Throughout (Step unstickyContext)
    (fun a l a' => NoAffinity unstickyServer.port a.sticky l.trace a'.sticky) unstickyStart
    [⟨.discoverFor 1080, (unstickyRun (.discoverFor 1080)).1⟩] :=
  no_affinity (by rfl) (.inl rfl) (fun port => Iff.rfl)
    (.cons ⟨exec_runs reachable.answer _ _, fun h => by cases h.1⟩ (.nil _))

/-- The exit that the operator selects is remembered, though the server is not sticky. -/
theorem selected_remembered : unstickyServer.peerOptions.sticky = false ∧
    ∃ ls a, Reaches (Step unstickyContext) unstickyStart ls a ∧ exitPool unstickyServer a.sticky = [⟨[1]⟩] ∧
      ¬Throughout (Step unstickyContext) (fun a l a' => NoAffinity unstickyServer.port a.sticky l.trace a'.sticky)
        unstickyStart ls := by
  have hstep : Step unstickyContext unstickyStart ⟨.selectPeer 1080 ⟨[1]⟩, (unstickyRun (.selectPeer 1080 ⟨[1]⟩)).1⟩
      (unstickyRun (.selectPeer 1080 ⟨[1]⟩)).2.2 := exec_runs reachable.answer _ _
  have hpool : exitPool unstickyServer (unstickyRun (.selectPeer 1080 ⟨[1]⟩)).2.2.sticky = [⟨[1]⟩] := by decide
  refine ⟨rfl, _, _, .cons hstep (.nil _), hpool, fun hnone => ?_⟩
  have hadded := (hnone [] _ [] _ _ rfl (.nil _) hstep).unremembered.members_sublist unstickyServer.fingerprint
  have hmem : (⟨[1]⟩ : PeerId) ∈ exitPool unstickyServer unstickyStart.sticky := by
    refine hadded.subset ?_
    show _ ∈ exitPool unstickyServer _
    rw [hpool]
    exact List.mem_singleton.2 rfl
  have hempty : exitPool unstickyServer unstickyStart.sticky = [] := by decide
  rw [hempty] at hmem
  cases hmem

end Fixture

end DiscoveryActor

end P2Proxy
