import P2Proxy.NetworkView
import P2Proxy.Interaction.Held
import P2Proxy.Interaction.Once

/-!
# The keys of the user interface

Between two frames the user interface takes one input: an event, a key, or the time.  Keys move through the tabs, the
servers and the rows of their pools, and Enter on a row asks the discovery actor to switch to its peer; until the
outcome is known the selection is pending, and its row shows that it is dialled unless it is that of the exit.  In every
run the cursor stays in the expanded pool of the focused server (`focused_of_reaches`), only listed peers are asked for
(`selected_listed`), and what is pending is the last selection, as long as nothing has resolved it (`pending_iff`).
-/

namespace P2Proxy

open Interaction

/-- The keys, as far as the interface tells them apart. -/
inductive KeyCode
  | char (c : Char)
  | tab
  | backTab
  | up
  | down
  | left
  | right
  | enter
  | esc
  | pageUp
  | pageDown
  | other
deriving DecidableEq

/-- The export prompt of the `tui_components` crate. -/
structure ExportPrompt (P : Type) where
  new : P
  isOpen : P → Bool
  opened : P → P
  handleKey : KeyCode → P → P

/-- How long a selection is shown as dialled if its outcome is never reported. -/
def selectionFeedbackTimeout : Duration := .fromSecs 30

def tabs : List String := ["OVERVIEW", "NETWORK", "LOGS"]

inductive RowStatus
  | active
  | dialling
  | standby
deriving DecidableEq

/-- The rows that are drawn for a port; a pending selection shows unless its peer is the exit. -/
def Ui.serverPoolRows (ui : Ui) (port : Port) : List (PeerId × RowStatus) :=
  let pool := ui.state.orderedPoolFor port
  let active := ui.state.activeDestinations port
  let pending := (ui.networkPendingSelection.filter fun s => s.1 = port).map fun s => s.2.1
  pool.map fun peer =>
    (peer, if active = some peer then .active else if pending = some peer then .dialling else .standby)

/-! ### The network tab -/

namespace NetworkTab

/-- Move the focus to the next server, wrapping. -/
def networkSelectNext (tab : NetworkTab) : NetworkTab :=
  let n := tab.servers.length
  if n = 0 then tab else { tab with networkSelectedIdx := (tab.networkSelectedIdx + 1) % n }

/-- Move the focus to the previous server, wrapping. -/
def networkSelectPrev (tab : NetworkTab) : NetworkTab :=
  let n := tab.servers.length
  if n = 0 then tab
  else { tab with networkSelectedIdx := if tab.networkSelectedIdx = 0 then n - 1 else tab.networkSelectedIdx - 1 }

/-- Expand or collapse the focused server; a server that collapses loses the cursor. -/
def networkToggleExpandSelected (tab : NetworkTab) : NetworkTab :=
  match tab.servers[tab.networkSelectedIdx]? with
  | none => tab
  | some server =>
    if server.port ∈ tab.networkExpanded then
      { tab with
        networkExpanded := tab.networkExpanded.erase server.port
        networkPeerCursor := tab.networkPeerCursor.filter fun c => c.1 ≠ server.port }
    else { tab with networkExpanded := insert server.port tab.networkExpanded }

/-- Move the cursor in the live pool, without wrapping; there is none in an empty pool. -/
def networkCursorStep (tab : NetworkTab) (st : UIState) (delta : Int) : NetworkTab :=
  match tab.networkPeerCursor with
  | none => tab
  | some (port, idx) =>
    match (st.orderedPoolFor port).length with
    | 0 => { tab with networkPeerCursor := none }
    | last + 1 =>
      let cur := min idx last
      let next := if delta < 0 then cur - 1 else min (cur + 1) last
      { tab with networkPeerCursor := some (port, next) }

def networkUp (tab : NetworkTab) (st : UIState) : NetworkTab :=
  if tab.networkPeerCursor.isSome then tab.networkCursorStep st (-1) else tab.networkSelectPrev

def networkDown (tab : NetworkTab) (st : UIState) : NetworkTab :=
  if tab.networkPeerCursor.isSome then tab.networkCursorStep st 1 else tab.networkSelectNext

def networkExitPeerFocus (tab : NetworkTab) : NetworkTab := { tab with networkPeerCursor := none }

end NetworkTab

/-! ### The interface -/

structure Interface (P : Type) where
  ui : Ui
  tab : NetworkTab
  tabIndex : Nat
  showLogs : Bool
  exportPrompt : P
  running : Bool

inductive InterfaceInput
  | event (event : Events)
  | key (now : Instant) (code : KeyCode)
  | render (now : Instant)
  | shutdown

namespace Interface

variable {P : Type}

/-- The first server is expanded. -/
def new (prompt : ExportPrompt P) (servers : List Server) : Interface P where
  ui := .new
  tab :=
    { servers, networkSelectedIdx := 0, networkExpanded := (servers.head?.map (·.port)).toFinset,
      networkPeerCursor := none }
  tabIndex := 0
  showLogs := false
  exportPrompt := prompt.new
  running := true

/-- The logs are on the screen, as a tab or as a panel. -/
def logsFocused (i : Interface P) : Bool := tabs[i.tabIndex]? = some "LOGS" || i.showLogs

/-- The keys that scroll the logs. -/
def scrollLogs (code : KeyCode) : Bool :=
  code ∈ [.char 'j', .down, .pageDown, .char 'k', .up, .pageUp, .esc]

def nextTab (i : Interface P) : Interface P := { i with tabIndex := (i.tabIndex + 1) % tabs.length }

def previousTab (i : Interface P) : Interface P :=
  { i with tabIndex := if 0 < i.tabIndex then i.tabIndex - 1 else tabs.length - 1 }

/-- What a key does on the network tab, and nowhere else. -/
def onNetworkTab (f : NetworkTab → UIState → NetworkTab) (i : Interface P) : Interface P :=
  if i.tabIndex = 1 then { i with tab := f i.tab i.ui.state } else i

/-- Enter: the selected peer is shown as dialled, and asked for. -/
def enter (now : Instant) (i : Interface P) : Interface P × List DiscoveryEvent :=
  if i.tabIndex = 1 then
    let r := i.tab.networkEnter i.ui.state
    match r.1 with
    | some (port, peer) =>
      ({ i with tab := r.2, ui := { i.ui with networkPendingSelection := some (port, peer, now) } },
        [.selectPeer port peer])
    | none => ({ i with tab := r.2 }, [])
  else (i, [])

/-- An open prompt takes every key, and the logs on the screen take the keys that scroll them. -/
def handleKey (prompt : ExportPrompt P) (now : Instant) (i : Interface P) (code : KeyCode) :
    Interface P × List DiscoveryEvent :=
  if prompt.isOpen i.exportPrompt then ({ i with exportPrompt := prompt.handleKey code i.exportPrompt }, [])
  else if i.logsFocused && scrollLogs code then (i, [])
  else match code with
    | .char 'q' => ({ i with running := false }, [])
    | .char 'e' | .char 'E' => ({ i with exportPrompt := prompt.opened i.exportPrompt }, [])
    | .char 'l' => ({ i with showLogs := !i.showLogs }, [])
    | .tab => (i.nextTab, [])
    | .backTab => (i.previousTab, [])
    | .up | .char 'k' => (i.onNetworkTab .networkUp, [])
    | .down | .char 'j' => (i.onNetworkTab .networkDown, [])
    | .char ' ' => (i.onNetworkTab fun tab _ => tab.networkToggleExpandSelected, [])
    | .enter => i.enter now
    | .right => (i.onNetworkTab .networkEnterPeerFocus, [])
    | .esc | .left => (i.onNetworkTab fun tab _ => tab.networkExitPeerFocus, [])
    | _ => (i, [])

/-- Has a selection been shown as dialled for too long? -/
def lapsed (now : Instant) (s : Port × PeerId × Instant) : Bool :=
  selectionFeedbackTimeout.nanos < (Duration.ofNanos (now - s.2.2)).nanos

def render (now : Instant) (i : Interface P) : Interface P :=
  { i with ui := { i.ui with networkPendingSelection := i.ui.networkPendingSelection.filter fun s => !lapsed now s } }

/-- The next state, and the messages to the discovery actor. -/
def handle (prompt : ExportPrompt P) (i : Interface P) : InterfaceInput → Interface P × List DiscoveryEvent
  | .event event => ({ i with ui := i.ui.handleSwarmEvents event }, [])
  | .key now code => handleKey prompt now i code
  | .render now => (i.render now, [])
  | .shutdown => ({ i with running := false }, [])

/-- An input, with what is sent. -/
structure Label where
  input : InterfaceInput
  sent : List DiscoveryEvent

/-- Until it quits, the interface handles an input. -/
def Step (prompt : ExportPrompt P) (i : Interface P) (l : Label) (i' : Interface P) : Prop :=
  i.running = true ∧ i.handle prompt l.input = (i', l.sent)

end Interface

/-! ### The cursor -/

namespace NetworkTab

variable {servers : List Server} {tab : NetworkTab} {st : UIState} {port : Port} {idx : Nat} {peer : PeerId}

/-- The focus is on a server, only configured servers are expanded, and the cursor is in the expanded pool of the
focused server. -/
structure Focused (servers : List Server) (tab : NetworkTab) : Prop where
  servers_eq : tab.servers = servers
  selected : servers = [] ∨ tab.networkSelectedIdx < servers.length
  expanded : ∀ port ∈ tab.networkExpanded, ∃ server ∈ servers, server.port = port
  cursor : ∀ port idx, tab.networkPeerCursor = some (port, idx) →
    (∃ server, servers[tab.networkSelectedIdx]? = some server ∧ server.port = port) ∧ port ∈ tab.networkExpanded

namespace Focused

/-- Without a cursor the focus may move to every server. -/
private theorem select (h : tab.Focused servers) (hcursor : tab.networkPeerCursor = none)
    (hidx : idx < servers.length) :
    Focused servers { tab with networkSelectedIdx := idx } where
  servers_eq := h.servers_eq
  selected := .inr hidx
  expanded := h.expanded
  cursor _ _ hc := by
    rw [show tab.networkPeerCursor = some _ from hc] at hcursor
    cases hcursor

/-- The cursor may move in its pool, and be taken away. -/
private theorem moveCursor {cursor : Option (Port × Nat)} (h : tab.Focused servers)
    (hcursor : cursor.map Prod.fst = none ∨ cursor.map Prod.fst = tab.networkPeerCursor.map Prod.fst) :
    Focused servers { tab with networkPeerCursor := cursor } where
  servers_eq := h.servers_eq
  selected := h.selected
  expanded := h.expanded
  cursor port idx hc := by
    have hc : cursor = some (port, idx) := hc
    subst hc
    rcases hcursor with hcursor | hcursor
    · cases hcursor
    · obtain ⟨⟨port', idx'⟩, htab, rfl⟩ := Option.map_eq_some_iff.1 hcursor.symm
      exact h.cursor _ _ htab

private theorem insertExpanded {server : Server} (h : tab.Focused servers) (hserver : server ∈ servers) :
    Focused servers { tab with networkExpanded := insert server.port tab.networkExpanded } where
  servers_eq := h.servers_eq
  selected := h.selected
  expanded port hport := by
    rcases Finset.mem_insert.1 hport with rfl | hport
    · exact ⟨server, hserver, rfl⟩
    · exact h.expanded port hport
  cursor port idx hc := (h.cursor port idx hc).imp_right (Finset.mem_insert_of_mem)

theorem networkSelectNext (h : tab.Focused servers) (hcursor : tab.networkPeerCursor = none) :
    tab.networkSelectNext.Focused servers := by
  obtain rfl := h.servers_eq
  unfold NetworkTab.networkSelectNext
  dsimp only
  split
  · exact h
  · exact h.select hcursor (Nat.mod_lt _ (by omega))

theorem networkSelectPrev (h : tab.Focused servers) (hcursor : tab.networkPeerCursor = none) :
    tab.networkSelectPrev.Focused servers := by
  obtain rfl := h.servers_eq
  unfold NetworkTab.networkSelectPrev
  dsimp only
  split
  · exact h
  · rename_i hlen
    refine h.select hcursor ?_
    rcases h.selected with hempty | hidx
    · exact absurd (List.length_eq_zero_iff.2 hempty) hlen
    · split <;> omega

theorem networkCursorStep (h : tab.Focused servers) {delta : Int} :
    (tab.networkCursorStep st delta).Focused servers := by
  unfold NetworkTab.networkCursorStep
  split
  · exact h
  · rename_i hcursor
    split
    · exact h.moveCursor (.inl rfl)
    · exact h.moveCursor (.inr (by rw [hcursor]; rfl))

theorem networkUp (h : tab.Focused servers) : (tab.networkUp st).Focused servers := by
  unfold NetworkTab.networkUp
  split
  · exact h.networkCursorStep
  · rename_i hcursor
    exact h.networkSelectPrev (by simpa using hcursor)

theorem networkDown (h : tab.Focused servers) : (tab.networkDown st).Focused servers := by
  unfold NetworkTab.networkDown
  split
  · exact h.networkCursorStep
  · rename_i hcursor
    exact h.networkSelectNext (by simpa using hcursor)

theorem networkExitPeerFocus (h : tab.Focused servers) : tab.networkExitPeerFocus.Focused servers :=
  h.moveCursor (.inl rfl)

/-- A server that collapses takes the cursor along, which was in its pool. -/
theorem networkToggleExpandSelected (h : tab.Focused servers) : tab.networkToggleExpandSelected.Focused servers := by
  obtain rfl := h.servers_eq
  unfold NetworkTab.networkToggleExpandSelected
  split
  · exact h
  · rename_i server hserver
    split
    · refine ⟨h.servers_eq, h.selected, fun port hport => h.expanded port (Finset.mem_of_mem_erase hport), ?_⟩
      intro port idx hc
      obtain ⟨hcursor, hne⟩ := Option.filter_eq_some_iff.1 hc
      obtain ⟨⟨focused, hfocused, hport⟩, -⟩ := h.cursor port idx hcursor
      rw [hserver] at hfocused
      cases hfocused
      exact absurd hport.symm (by simpa using hne)
    · exact h.insertExpanded (List.mem_of_getElem? hserver)

theorem networkEnterPeerFocus (h : tab.Focused servers) : (tab.networkEnterPeerFocus st).Focused servers := by
  obtain rfl := h.servers_eq
  unfold NetworkTab.networkEnterPeerFocus
  split
  · exact h
  · rename_i server hserver
    split
    · rename_i hexpanded
      refine ⟨h.servers_eq, h.selected, h.expanded, ?_⟩
      rintro port idx ⟨⟩
      exact ⟨⟨server, hserver, rfl⟩, hexpanded.1⟩
    · exact h

theorem networkEnter (h : tab.Focused servers) : (tab.networkEnter st).2.Focused servers := by
  obtain rfl := h.servers_eq
  unfold NetworkTab.networkEnter
  split
  · exact h
  · split
    · exact h
    · rename_i server hserver
      split
      · exact h.networkEnterPeerFocus
      · exact h.insertExpanded (List.mem_of_getElem? hserver)

end Focused

/-- Enter selects the row under the cursor, and nothing else. -/
theorem networkEnter_eq_some_iff : (tab.networkEnter st).1 = some (port, peer) ↔
    ∃ idx, tab.networkPeerCursor = some (port, idx) ∧ (st.orderedPoolFor port)[idx]? = some peer := by
  unfold networkEnter
  split
  · rename_i q idx hcursor
    constructor
    · intro h
      obtain ⟨p, hp, heq⟩ := Option.map_eq_some_iff.1 h
      cases heq
      exact ⟨idx, hcursor, hp⟩
    · rintro ⟨idx', hcursor', hp⟩
      rw [hcursor] at hcursor'
      cases hcursor'
      rw [hp]
      rfl
  · rename_i hcursor
    refine iff_of_false ?_ ?_
    · split
      · simp
      · split <;> simp
    · rintro ⟨idx, hcursor', -⟩
      rw [hcursor] at hcursor'
      cases hcursor'

end NetworkTab

namespace Interface

variable {P : Type} {prompt : ExportPrompt P} {i i' : Interface P} {code : KeyCode} {now since : Instant} {l : Label}
  {ls : List Label} {servers : List Server} {port : Port} {peer : PeerId} {m : DiscoveryEvent}

/-- The interface shows one of its tabs, and the network tab is focused. -/
structure Focused (servers : List Server) (i : Interface P) : Prop where
  tab : i.tab.Focused servers
  tabIndex : i.tabIndex < tabs.length

theorem focused_new : (new prompt servers).Focused servers where
  tab := by
    refine ⟨rfl, ?_, fun port hport => ?_, fun _ _ hc => by cases hc⟩
    · cases servers with
      | nil => exact .inl rfl
      | cons server servers => exact .inr (Nat.succ_pos _)
    · obtain ⟨server, hserver, rfl⟩ := Option.map_eq_some_iff.1 (Option.mem_toFinset.1 hport)
      exact ⟨server, List.mem_of_head? hserver, rfl⟩
  tabIndex := show 0 < tabs.length by decide

private theorem Focused.onNetworkTab {f : NetworkTab → UIState → NetworkTab} (h : i.Focused servers)
    (hf : ∀ {tab : NetworkTab} {st}, tab.Focused servers → (f tab st).Focused servers) :
    (i.onNetworkTab f).Focused servers := by
  unfold Interface.onNetworkTab
  split
  · exact ⟨hf h.tab, h.tabIndex⟩
  · exact h

private theorem Focused.enter (h : i.Focused servers) : (i.enter now).1.Focused servers := by
  unfold Interface.enter
  split
  · dsimp only
    split <;> exact ⟨h.tab.networkEnter, h.tabIndex⟩
  · exact h

/-- Every key keeps the focus. -/
private theorem Focused.handleKey (h : i.Focused servers) : (handleKey prompt now i code).1.Focused servers := by
  have hpos : 0 < tabs.length := by decide
  have hindex := h.tabIndex
  unfold Interface.handleKey
  split
  · exact ⟨h.tab, h.tabIndex⟩
  · split
    · exact h
    · split
      case h_5 => exact ⟨h.tab, Nat.mod_lt _ hpos⟩
      case h_6 =>
        refine ⟨h.tab, ?_⟩
        dsimp only [previousTab]
        split <;> omega
      case h_7 | h_8 => exact h.onNetworkTab .networkUp
      case h_9 | h_10 => exact h.onNetworkTab .networkDown
      case h_11 => exact h.onNetworkTab .networkToggleExpandSelected
      case h_12 => exact h.enter
      case h_13 => exact h.onNetworkTab .networkEnterPeerFocus
      case h_14 | h_15 => exact h.onNetworkTab .networkExitPeerFocus
      all_goals exact ⟨h.tab, h.tabIndex⟩

theorem Step.focused (h : i.Focused servers) (hl : Step prompt i l i') : i'.Focused servers := by
  obtain ⟨-, heq⟩ := hl
  have hi' : (i.handle prompt l.input).1 = i' := by rw [heq]
  subst hi'
  cases l.input with
  | event event => exact ⟨h.tab, h.tabIndex⟩
  | key now code => exact h.handleKey
  | render now | shutdown => exact ⟨h.tab, h.tabIndex⟩

theorem focused_of_reaches (h : Reaches (Step prompt) (new prompt servers) ls i) : i.Focused servers :=
  h.invariant (I := Focused servers) (fun _ _ _ hi hl => hl.focused hi) focused_new

/-! ### What is selected -/

/-- A key leaves what is shown alone, or it is Enter on a row, whose peer is shown as dialled and asked for. -/
private theorem handleKey_cases (prompt : ExportPrompt P) (now : Instant) (i : Interface P) (code : KeyCode) :
    ((handleKey prompt now i code).2 = [] ∧ (handleKey prompt now i code).1.ui = i.ui) ∨
    ∃ port peer, (i.tab.networkEnter i.ui.state).1 = some (port, peer) ∧
      (handleKey prompt now i code).2 = [.selectPeer port peer] ∧
      (handleKey prompt now i code).1.ui = { i.ui with networkPendingSelection := some (port, peer, now) } := by
  have honTab : ∀ f, (i.onNetworkTab f).ui = i.ui := by
    intro f
    unfold onNetworkTab
    split <;> rfl
  unfold handleKey
  split
  · exact .inl ⟨rfl, rfl⟩
  · split
    · exact .inl ⟨rfl, rfl⟩
    · split
      case h_12 =>
        unfold enter
        split
        · dsimp only
          split
          · rename_i port peer hselected
            exact .inr ⟨port, peer, hselected, rfl, rfl⟩
          · exact .inl ⟨rfl, rfl⟩
        · exact .inl ⟨rfl, rfl⟩
      case h_7 | h_8 | h_9 | h_10 | h_11 | h_13 | h_14 | h_15 => exact .inl ⟨rfl, honTab _⟩
      all_goals exact .inl ⟨rfl, rfl⟩

/-- What a step sends was selected in the rows that were shown. -/
theorem Step.sent (hl : Step prompt i l i') (hm : m ∈ l.sent) : ∃ port peer now code idx, l.input = .key now code ∧
    l.sent = [.selectPeer port peer] ∧ m = .selectPeer port peer ∧ i.tab.networkPeerCursor = some (port, idx) ∧
    (i.ui.state.orderedPoolFor port)[idx]? = some peer := by
  obtain ⟨-, heq⟩ := hl
  have hsent : (i.handle prompt l.input).2 = l.sent := by rw [heq]
  cases hinput : l.input with
  | event event | render now | shutdown =>
    rw [hinput] at hsent
    rw [← hsent] at hm
    cases hm
  | key now code =>
    rw [hinput] at hsent
    change (handleKey prompt now i code).2 = l.sent at hsent
    rcases handleKey_cases prompt now i code with
      ⟨hnone, -⟩ | ⟨port, peer, hselected, hone, -⟩
    · rw [← hsent, hnone] at hm
      cases hm
    · rw [← hsent, hone] at hm ⊢
      obtain ⟨idx, hcursor, hrow⟩ := NetworkTab.networkEnter_eq_some_iff.1 hselected
      exact ⟨port, peer, now, code, idx, rfl, rfl, List.mem_singleton.1 hm, hcursor, hrow⟩

end Interface

/-- The peers that an event names for `port`. -/
def Events.namesFor (port : Port) : Events → List PeerId
  | .serverPool q peers | .stickyPool q peers => if q = port then peers.map (·.peerId) else []
  | .activeDestination q peer _ => if q = port then peer.toList else []
  | _ => []

/-- A failure, or an announcement about the exit of `port`, also that there is none, ends a selection for `port`. -/
def Events.Resolves (port : Port) : Events → Prop
  | .error _ => True
  | .activeDestination q _ _ => q = port
  | _ => False

/-- `peer` is known to the interface as a peer of `port`. -/
def UIState.Lists (st : UIState) (port : Port) (peer : PeerId) : Prop :=
  peer ∈ st.serverPool port ∨ peer ∈ st.stickyPool port ∨ st.activeDestinations port = some peer

/-- The interface knows only peers that an event names for the port. -/
theorem Ui.lists_handleSwarmEvents {ui : Ui} {port : Port} {peer : PeerId} {event : Events}
    (h : (ui.handleSwarmEvents event).state.Lists port peer) : ui.state.Lists port peer ∨
      peer ∈ event.namesFor port := by
  have hport : (ui.handleSwarmEvents event).state.portShown port = _ := portShown_handleSwarmEvents
  have hshown := Prod.mk.inj hport
  unfold UIState.Lists UIState.stickyPool at h
  rw [serverPool_handleSwarmEvents, hshown.1, hshown.2] at h
  cases event with
  | connection event =>
    cases event with
    | disconnected closed =>
      rcases h with h | h | h
      · exact .inl (.inl (List.mem_of_mem_filter h))
      · exact .inl (.inr (.inl h))
      · exact .inl (.inr (.inr (Option.filter_eq_some_iff.1 h).1))
    | _ => exact .inl h
  | serverPool q peers =>
    by_cases hq : q = port
    · simp only [serverPoolShown, exitShown, poolShown, if_pos hq] at h
      rcases h with h | h | h
      · rcases mem_foldl_pushNew.1 h with h | h
        · exact .inr (by simpa only [Events.namesFor, if_pos hq] using h)
        · exact .inl (.inr (.inr (Option.mem_toList.1 h)))
      · exact .inl (.inr (.inl h))
      · exact .inl (.inr (.inr h))
    · simp only [serverPoolShown, exitShown, poolShown, if_neg hq] at h
      exact .inl h
  | stickyPool q peers =>
    by_cases hq : q = port
    · simp only [serverPoolShown, exitShown, poolShown, if_pos hq, Option.getD_some] at h
      rcases h with h | h | h
      · exact .inl (.inl h)
      · exact .inr (by simpa only [Events.namesFor, if_pos hq] using h)
      · exact .inl (.inr (.inr h))
    · simp only [serverPoolShown, exitShown, poolShown, if_neg hq] at h
      exact .inl h
  | activeDestination q exit source =>
    by_cases hq : q = port
    · cases exit with
      | none =>
        simp only [serverPoolShown, exitShown, poolShown, if_pos hq] at h
        rcases h with h | h | h
        · exact .inl (.inl h)
        · exact .inl (.inr (.inl h))
        · cases h
      | some exit =>
        simp only [serverPoolShown, exitShown, poolShown, if_pos hq, Option.some.injEq] at h
        rcases h with h | h | rfl
        · rcases mem_pushNew.1 h with h | rfl
          · exact .inl (.inl h)
          · exact .inr (by simp [Events.namesFor, hq])
        · exact .inl (.inr (.inl h))
        · exact .inr (by simp [Events.namesFor, hq])
    · cases exit <;>
      · simp only [serverPoolShown, exitShown, poolShown, if_neg hq] at h
        exact .inl h
  | _ => exact .inl h

namespace Interface

variable {P : Type} {prompt : ExportPrompt P} {i i' : Interface P} {code : KeyCode} {now since : Instant} {l : Label}
  {ls : List Label} {servers : List Server} {port : Port} {peer : PeerId} {m : DiscoveryEvent}

/-- Keys and time leave the lists alone. -/
private theorem Step.lists (hl : Step prompt i l i') (h : i'.ui.state.Lists port peer) :
    i.ui.state.Lists port peer ∨ ∃ event, l.input = .event event ∧ peer ∈ event.namesFor port := by
  obtain ⟨-, heq⟩ := hl
  have hi' : (i.handle prompt l.input).1 = i' := by rw [heq]
  subst hi'
  cases hinput : l.input with
  | event event =>
    rw [hinput] at h
    exact (Ui.lists_handleSwarmEvents h).imp_right fun hnamed => ⟨event, rfl, hnamed⟩
  | key now code =>
    rw [hinput] at h
    change (handleKey prompt now i code).1.ui.state.Lists port peer at h
    rcases handleKey_cases prompt now i code with
      ⟨-, hui⟩ | ⟨_, _, -, -, hui⟩ <;>
    · rw [hui] at h
      exact .inl h
  | render now | shutdown =>
    rw [hinput] at h
    exact .inl h

/-- Every message that the interface sends asks for a peer that is listed under the cursor, in the expanded pool of the
focused server, and an event has named the peer for the port of this server before. -/
theorem selected_listed (h : Reaches (Step prompt) (new prompt servers) ls i) (hl : Step prompt i l i')
    (hm : m ∈ l.sent) :
    ∃ server peer idx, m = .selectPeer server.port peer ∧ servers[i.tab.networkSelectedIdx]? = some server ∧
      server.port ∈ i.tab.networkExpanded ∧ i.tab.networkPeerCursor = some (server.port, idx) ∧
      (i.ui.state.orderedPoolFor server.port)[idx]? = some peer ∧
      ∃ k ∈ ls, ∃ event, k.input = .event event ∧ peer ∈ event.namesFor server.port := by
  obtain ⟨port, peer, now, code, idx, -, -, rfl, hcursor, hrow⟩ := hl.sent hm
  obtain ⟨⟨server, hserver, rfl⟩, hexpanded⟩ := (focused_of_reaches h).tab.cursor _ _ hcursor
  refine ⟨server, peer, idx, rfl, hserver, hexpanded, hcursor, hrow, ?_⟩
  have hlists : i.ui.state.Lists server.port peer := by
    rcases UIState.mem_orderedPoolFor.1 (List.mem_of_getElem? hrow) with hmem | hmem
    · exact .inl hmem
    · exact .inr (.inl hmem)
  refine (h.caused (fun i peer => i.ui.state.Lists server.port peer)
    (fun peer k => ∃ event, k.input = .event event ∧ peer ∈ event.namesFor server.port)
    (fun _ _ _ _ hl hx => hl.lists hx) hlists).resolve_left ?_
  rintro (hmem | hmem | hexit)
  · cases hmem
  · cases hmem
  · cases hexit

/-! ### The pending selection -/

namespace Label

/-- The selection that a key makes. -/
def selection (l : Label) : Option (Port × PeerId × Instant) :=
  match l.input, l.sent with
  | .key now _, [.selectPeer port peer] => some (port, peer, now)
  | _, _ => none

/-- Its outcome and time resolve a selection. -/
def Resolves (l : Label) (s : Port × PeerId × Instant) : Prop :=
  match l.input with
  | .event event => event.Resolves s.1
  | .render now => lapsed now s = true
  | .key _ _ | .shutdown => False

end Label

/-- A selected peer is asked for, on a configured port. -/
theorem Step.selects (hi : i.Focused servers) (hl : Step prompt i l i') (h : l.selection = some (port, peer, since)) :
    (∃ server ∈ servers, server.port = port) ∧ .selectPeer port peer ∈ l.sent := by
  unfold Label.selection at h
  split at h
  · rename_i now code port peer hinput hsent
    cases h
    have hmem : .selectPeer port peer ∈ l.sent := by rw [hsent]; exact List.mem_singleton_self _
    obtain ⟨_, _, _, _, idx, -, -, heq, hcursor, -⟩ := hl.sent hmem
    cases heq
    obtain ⟨⟨server, hserver, hport⟩, -⟩ := hi.tab.cursor _ _ hcursor
    exact ⟨⟨server, List.mem_of_getElem? hserver, hport⟩, hmem⟩
  · cases h

/-- A step makes its selection the pending one, or clears what it resolves. -/
theorem Step.pending {s : Port × PeerId × Instant} (hl : Step prompt i l i') :
    i'.ui.networkPendingSelection = some s ↔
      l.selection = some s ∨ l.selection = none ∧ ¬l.Resolves s ∧ i.ui.networkPendingSelection = some s := by
  obtain ⟨-, heq⟩ := hl
  have hi' : (i.handle prompt l.input).1 = i' := by rw [heq]
  have hsent : (i.handle prompt l.input).2 = l.sent := by rw [heq]
  subst hi'
  obtain ⟨input, sent⟩ := l
  cases input with
  | event event =>
    obtain rfl : sent = [] := hsent.symm
    change (i.ui.handleSwarmEvents event).networkPendingSelection = some s ↔ _
    cases event with
    | error message => simp [Ui.handleSwarmEvents, Label.selection, Label.Resolves, Events.Resolves]
    | activeDestination q exit source =>
      have hfilter : (i.ui.networkPendingSelection.filter fun s => s.1 ≠ q) = some s ↔
          i.ui.networkPendingSelection = some s ∧ s.1 ≠ q := by
        rw [Option.filter_eq_some_iff]
        simp
      simp only [Ui.handleSwarmEvents, hfilter, Label.selection, Label.Resolves, Events.Resolves]
      constructor
      · rintro ⟨hs, hne⟩
        exact .inr ⟨trivial, Ne.symm hne, hs⟩
      · rintro (hnone | ⟨-, hne, hs⟩)
        · cases hnone
        · exact ⟨hs, Ne.symm hne⟩
    | _ => simp [Ui.handleSwarmEvents, Label.selection, Label.Resolves, Events.Resolves]
  | key now code =>
    change (handleKey prompt now i code).2 = sent at hsent
    change (handleKey prompt now i code).1.ui.networkPendingSelection = some s ↔ _
    subst hsent
    rcases handleKey_cases prompt now i code with
      ⟨hnone, hui⟩ | ⟨port, peer, -, hone, hui⟩
    · rw [hui, hnone]
      simp [Label.selection, Label.Resolves]
    · rw [hui, hone]
      simp [Label.selection]
  | render now =>
    obtain rfl : sent = [] := hsent.symm
    change i.ui.networkPendingSelection.filter (fun s => !lapsed now s) = some s ↔ _
    rw [Option.filter_eq_some_iff]
    simp [Label.selection, Label.Resolves, and_comm]
  | shutdown => simp [handle, Label.selection, Label.Resolves]

/-- A row shows that it is dialled if its peer is the pending one of the port, and not its exit. -/
theorem dialling_mem_serverPoolRows {ui : Ui} : (peer, .dialling) ∈ ui.serverPoolRows port ↔
    peer ∈ ui.state.orderedPoolFor port ∧ ui.state.activeDestinations port ≠ some peer ∧
      ∃ since, ui.networkPendingSelection = some (port, peer, since) := by
  have hpending : (ui.networkPendingSelection.filter fun s => s.1 = port).map (fun s => s.2.1) = some peer ↔
      ∃ since, ui.networkPendingSelection = some (port, peer, since) := by
    constructor
    · intro h
      obtain ⟨⟨q, p, since⟩, hfilter, rfl⟩ := Option.map_eq_some_iff.1 h
      obtain ⟨hpending, hport⟩ := Option.filter_eq_some_iff.1 hfilter
      obtain rfl : q = port := of_decide_eq_true hport
      exact ⟨since, hpending⟩
    · rintro ⟨since, hs⟩
      simp [hs]
  unfold Ui.serverPoolRows
  simp only [List.mem_map, Prod.mk.injEq]
  constructor
  · rintro ⟨p, hp, rfl, hstatus⟩
    split at hstatus
    · cases hstatus
    · rename_i hexit
      split at hstatus
      · rename_i hdialled
        exact ⟨hp, hexit, hpending.1 hdialled⟩
      · cases hstatus
  · rintro ⟨hp, hexit, hs⟩
    exact ⟨peer, hp, rfl, by rw [if_neg hexit, if_pos (hpending.2 hs)]⟩

/-- What is pending is the last selection, as long as no failure, no announcement about its port and no late frame has
resolved it; and the rows that are shown as dialled are the one of its peer, unless that is the exit. -/
theorem pending_iff (h : Reaches (Step prompt) (new prompt servers) ls i) :
    (∀ s, i.ui.networkPendingSelection = some s ↔ HeldSince Label.selection Label.Resolves ls s) ∧
    ∀ port peer, (peer, .dialling) ∈ i.ui.serverPoolRows port ↔ peer ∈ i.ui.state.orderedPoolFor port ∧
      i.ui.state.activeDestinations port ≠ some peer ∧
        ∃ since, HeldSince Label.selection Label.Resolves ls (port, peer, since) := by
  have hheld : ∀ s, i.ui.networkPendingSelection = some s ↔ HeldSince Label.selection Label.Resolves ls s :=
    fun _ => h.held_iff (fun i => i.ui.networkPendingSelection) rfl fun _ _ _ _ hl => hl.pending
  exact ⟨hheld, fun port peer => by simp only [dialling_mem_serverPoolRows, hheld]⟩

/-! ### A selection -/

/-- A prompt that Esc closes. -/
def plainPrompt : ExportPrompt Bool :=
  { new := false, isOpen := id, opened := fun _ => true, handleKey := fun code p => p && code ≠ .esc }

/-- The hub offers a candidate, and the operator steps into the pool. -/
def stepsIn : List Label :=
  [⟨.event (.serverPool 1080 [⟨⟨[1]⟩, []⟩]), []⟩, ⟨.key 3 .tab, []⟩, ⟨.key 4 .enter, []⟩]

/-- The candidate is picked. -/
def picks : Label := ⟨.key 5 .enter, [.selectPeer 1080 ⟨[1]⟩]⟩

private def stepped (i : Interface Bool) (l : Label) : Interface Bool := (i.handle plainPrompt l.input).1

private def steppedIn : Interface Bool := stepsIn.foldl stepped (new plainPrompt [discoveryServer 1080])

private theorem steppedIn_reaches :
    Reaches (Step plainPrompt) (new plainPrompt [discoveryServer 1080]) stepsIn steppedIn :=
  .cons ⟨rfl, rfl⟩ (.cons ⟨rfl, rfl⟩ (.cons ⟨rfl, rfl⟩ (.nil _)))

private theorem picks_step : Step plainPrompt steppedIn picks (stepped steppedIn picks) := ⟨rfl, rfl⟩

theorem selected_listed_picks : 1080 ∈ steppedIn.tab.networkExpanded ∧
    ∃ k ∈ stepsIn, ∃ event, k.input = .event event ∧ ⟨[1]⟩ ∈ event.namesFor 1080 := by
  obtain ⟨server, peer, idx, hm, -, hexpanded, -, -, hnamed⟩ :=
    selected_listed steppedIn_reaches picks_step (List.mem_singleton_self _)
  obtain ⟨hport, rfl⟩ := DiscoveryEvent.selectPeer.inj hm
  rw [← hport] at hexpanded hnamed
  exact ⟨hexpanded, hnamed⟩

/-- The candidate is shown as dialled; once it is announced as the exit nothing is pending. -/
theorem pending_iff_picks :
    let picked := stepped steppedIn picks
    let announced : Label := ⟨.event (.activeDestination 1080 (some ⟨[1]⟩) (some .manual)), []⟩
    HeldSince Label.selection Label.Resolves (stepsIn ++ [picks]) (1080, ⟨[1]⟩, 5) ∧
      (⟨[1]⟩, .dialling) ∈ picked.ui.serverPoolRows 1080 ∧
      ∀ s, ¬HeldSince Label.selection Label.Resolves (stepsIn ++ [picks, announced]) s := by
  intro picked announced
  have hpicked : Reaches (Step plainPrompt) (new plainPrompt [discoveryServer 1080]) (stepsIn ++ [picks]) picked :=
    reaches_append.2 ⟨_, steppedIn_reaches, .cons picks_step (.nil _)⟩
  have hannounced : Reaches (Step plainPrompt) (new plainPrompt [discoveryServer 1080]) (stepsIn ++ [picks, announced])
      (stepped picked announced) :=
    reaches_append.2 ⟨_, steppedIn_reaches, .cons picks_step (.cons ⟨rfl, rfl⟩ (.nil _))⟩
  have hheld := ((pending_iff hpicked).1 (1080, ⟨[1]⟩, 5)).1 rfl
  refine ⟨hheld, ((pending_iff hpicked).2 1080 ⟨[1]⟩).2 ⟨?_, ?_, 5, hheld⟩, fun s hs => ?_⟩
  · exact List.mem_singleton_self _
  · exact (Option.some_ne_none _).symm
  · have hnone : (stepped picked announced).ui.networkPendingSelection = none := rfl
    rw [((pending_iff hannounced).1 s).2 hs] at hnone
    cases hnone

end Interface

end P2Proxy
