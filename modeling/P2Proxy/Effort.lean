import P2Proxy.Rediscovery
import P2Proxy.Interaction.Budget

/-!
# How much effort a connect makes

A dial, a query of the hub and a check each take at most a given time, and the pauses take theirs.  One connect then
ends within a fixed time and the time of one attempt for each remembered peer that it loses (`connect_spends`).  The
remembered peers are a potential: a peer whose attempt fails is forgotten, so over a whole run of the actor the pools
are paid for once, and every event costs a budget of its own (`Step.spends`, `effort_bounded`).
-/

namespace P2Proxy

open Interaction

/-- The longest times that a dial, a query of the hub and a check of a connection take, in nanoseconds. -/
structure Prices where
  dial : Nat
  query : Nat
  check : Nat

/-- The time that a call takes at most. -/
def Io.price (p : Prices) : Io → Nat
  | ⟨.dialAndWait _, _⟩ => p.dial
  | ⟨.resolvePeers _, _⟩ | ⟨.findNodes _ _, _⟩ => p.query
  | ⟨.isConnected _, _⟩ => p.check
  | ⟨.sleep d, _⟩ => d.nanos
  | _ => 0

namespace Prices

variable (p : Prices)

def second : Nat := 1000000000

/-- One attempt to reach a peer: a query, and a dial of the direct routes and one of the circuits. -/
def reach : Nat := p.query + 2 * p.dial

/-- One attempt of a discovery that finds nobody. -/
def discovery : Nat := p.query + (second + 2 * p.dial)

/-- The attempts to get a lost exit back, and the delays between them. -/
def reconnect : Nat := stickyReconnectAttempts * p.reach + 3 * second

/-- The pool pre-pass up to the member that answers, the discoveries, and what is added to the pool. -/
def poolOrDiscover : Nat := p.reach + (maxDiscoveryAttempts * p.discovery + p.reach)

def discovered : Nat := p.reconnect + p.poolOrDiscover

/-- One pass over `n` pinned entries. -/
def pass (n : Nat) : Nat := p.query + n * (2 * p.dial)

/-- The time that connecting `server` takes, its remembered pool apart. -/
def connect (server : Server) : Nat :=
  let n := server.peerOptions.pinned.length
  if n = 0 then p.discovered
  else if server.peerOptions.fallbackToDiscovery then p.pass n + n * p.check + p.discovered
  else maxPinnedPasses * (p.pass n + second) + n * p.check

end Prices

variable {S : Type} {relayAddress : Multiaddr} {server : Server} {p : Prices} {s s' : S} {tr : List Io}

/-! ### Reaching a peer -/

section Reaching

variable {pot : S → Nat}

theorem dialSet_spends (A : Finset Multiaddr) : Spends (Io.price p) pot (fun _ => p.dial) (dialSet A : M S _) := by
  unfold dialSet
  split
  · exact (Spends.pure none).weaken (Nat.zero_le _)
  · have hask : Spends (Io.price p) pot (fun _ => p.dial) (ask (Call.dialAndWait A) : M S _) :=
      Spends.ask fun _ => le_rfl
    refine hask.bind_const (l := 0) fun x => ?_
    cases x <;> exact Spends.pure _

theorem dial_spends (A : Finset Multiaddr) (pot : S → Nat) :
    Spends (Io.price p) pot (fun _ => 2 * p.dial) (dial A : M S _) := by
  rw [Nat.two_mul]
  refine (dialSet_spends _).bind_const fun o => ?_
  cases o with
  | some q => exact (Spends.pure _).weaken (Nat.zero_le _)
  | none => exact dialSet_spends _

theorem resolveRoutes_spends (peers : List PeerId) :
    Spends (Io.price p) pot (fun _ => p.query) (resolveRoutes relayAddress peers : M S _) := by
  have hask : Spends (Io.price p) pot (fun _ => p.query) (ask (Call.resolvePeers peers) : M S _) :=
    Spends.ask fun _ => le_rfl
  exact hask.bind_const (l := 0) fun _ => Spends.pure _

theorem sleep_spends (d : Duration) : Spends (Io.price p) pot (fun _ => d.nanos) (sleep d : M S Unit) :=
  Spends.ask (q := Call.sleep d) fun _ => le_rfl

theorem emit_spends (event : Events) : Spends (Io.price p) pot (fun _ => 0) (emit event : M S Unit) :=
  Spends.ask (q := Call.emit event) fun _ => le_rfl

variable [StickyStore S]

theorem tryReachPeer_spends (peer : PeerId) :
    Spends (Io.price p) pot (fun _ => p.reach) (tryReachPeer relayAddress server peer : M S _) := by
  have hreach : Spends (Io.price p) pot (fun _ => 0 + p.reach) (tryReachPeer relayAddress server peer : M S _) :=
    Spends.get.bind_const fun _ => (resolveRoutes_spends _).bind_const fun _ => dial_spends _ _
  rwa [Nat.zero_add] at hreach

/-- The delays between `n` attempts. -/
def delays : Nat → Backoff → Nat
  | 0, _ => 0
  | n + 1, b => if 0 < n then b.nextDelay.1.nanos + delays n b.nextDelay.2 else 0

theorem reconnectLoop_spends (peer : PeerId) (n : Nat) (b : Backoff) :
    Spends (Io.price p) pot (fun _ => n * p.reach + delays n b)
      (reconnectLoop relayAddress server peer n b : M S _) := by
  induction n generalizing b with
  | zero => exact (Spends.pure none).weaken (Nat.zero_le _)
  | succ n ih =>
    have hsum : (n + 1) * p.reach + delays (n + 1) b = p.reach + (n * p.reach + delays (n + 1) b) := by
      rw [Nat.succ_mul]
      omega
    rw [hsum]
    refine (tryReachPeer_spends peer).bind_const fun o => ?_
    cases o with
    | some q => exact (Spends.pure _).weaken (Nat.zero_le _)
    | none =>
      dsimp only
      split
      · rename_i hn
        refine ((sleep_spends _).bind_const fun _ => ih _).weaken ?_
        rw [delays, if_pos hn]
        omega
      · exact (Spends.pure _).weaken (Nat.zero_le _)

theorem reconnectStickyPeer_spends (peer : PeerId) :
    Spends (Io.price p) pot (fun _ => p.reconnect) (reconnectStickyPeer relayAddress server peer : M S _) := by
  have hdelays : delays stickyReconnectAttempts (.new (.fromSecs 1) 2 (.fromSecs 8)) = 3 * Prices.second := by decide
  refine (reconnectLoop_spends _ _ _).weaken ?_
  rw [hdelays]
  exact le_rfl

end Reaching

/-! ### The remembered pool pays for the attempts on its members -/

section Pools

variable [StickyStore S] [LawfulStickyStore S]

/-- The time of one attempt for each remembered peer. -/
def poolPrice (p : Prices) (server : Server) (s : S) : Nat := p.reach * (exitPool server s).length

theorem remember_spends (peer : PeerId) : Spends (Io.price p) (poolPrice p server) (fun _ => p.reach)
    (remember server server.fingerprint peer : M S Unit) := by
  intro s tr u s' h
  rcases runs_remember.1 h with ⟨-, now, rfl, rfl⟩ | ⟨-, rfl, rfl⟩
  · have hlength : (promote server.pool.maxTotal peer (exitPool server s)).length ≤ (exitPool server s).length + 1 :=
      length_promote_le_succ
    have hmul := Nat.mul_le_mul_left p.reach hlength
    rw [Nat.mul_succ] at hmul
    simpa [poolPrice, exitPool_remember, Io.price] using hmul
  · simp

omit [StickyStore S] [LawfulStickyStore S] in
theorem cost_dialRun {R : Finset Multiaddr} {r : Option PeerId} (h : DialRun R tr r) :
    cost (Io.price p) tr ≤ 2 * p.dial := by
  have hrun : Runs (dial R : M Unit _) () tr r () := runs_dial.2 ⟨rfl, h⟩
  simpa using dial_spends (p := p) R (fun _ => 0) _ _ _ _ hrun

omit [StickyStore S] [LawfulStickyStore S] in
theorem cost_reachRun {direct : Option Multiaddr} {peer : PeerId} {r : Option PeerId}
    (h : ReachRun relayAddress direct peer tr r) : cost (Io.price p) tr ≤ p.reach := by
  obtain ⟨ans, dials, rfl, hdials⟩ := h
  have hdial := cost_dialRun (p := p) hdials
  simp only [cost_cons, Io.price, Prices.reach]
  omega

/-- Of the entries of `l`, those that a pool without `x` lacks were lacking before, or are `x`. -/
private theorem countP_lacking {x : PeerId} {l pool : List PeerId} :
    l.countP (· ∉ pool.filter (· ≠ x)) ≤ l.countP (· ∉ pool) + l.count x := by
  induction l with
  | nil => exact le_rfl
  | cons y l ih =>
    rw [List.countP_cons, List.countP_cons, List.count_cons]
    by_cases hy : y = x
    · simp only [hy, beq_self_eq_true, if_true]
      split <;> split <;> omega
    · have hmem : y ∈ pool.filter (· ≠ x) ↔ y ∈ pool := by simp [hy]
      simp only [hmem]
      omega

/-- The pass over the pool: a member that fails is forgotten, and so pays for its attempt. -/
private theorem poolLoop_spends {skip r : Option PeerId} {l : List PeerId}
    (hcount : ∀ y ∈ exitPool server s, l.count y ≤ (exitPool server s).count y)
    (h : Runs (l.findSomeM? (tryPoolMember relayAddress server skip) : M S _) s tr r s') :
    cost (Io.price p) tr + poolPrice p server s' ≤
      poolPrice p server s + p.reach * l.countP (· ∉ exitPool server s) + onSuccess 0 p.reach r := by
  induction l generalizing s tr with
  | nil =>
    obtain ⟨rfl, rfl, rfl⟩ := runs_findSomeM?_nil.1 h
    simp [onSuccess]
  | cons x l ih =>
    have htail : ∀ y ∈ exitPool server s, l.count y ≤ (exitPool server s).count y := fun y hy =>
      (List.count_le_count_cons ..).trans (hcount y hy)
    have hle : l.countP (· ∉ exitPool server s) ≤ (x :: l).countP (· ∉ exitPool server s) :=
      (List.sublist_cons_self x l).countP_le
    rcases runs_findSomeM?_cons.1 h with ⟨c, rfl, hc⟩ | ⟨t₁, s₁, t₂, rfl, h₁, h₂⟩
    · rcases runs_tryPoolMember.1 hc with ⟨-, -, hn, -⟩ | ⟨-, hr, rfl⟩
      · cases hn
      · have hreach := cost_reachRun (p := p) hr
        simp only [onSuccess]
        omega
    rw [cost_append]
    rcases runs_tryPoolMember.1 h₁ with ⟨-, rfl, -, rfl⟩ | ⟨-, hr, rfl⟩
    · have hrest := ih htail h₂
      have hmul := Nat.mul_le_mul_left p.reach hle
      simp only [cost_nil]
      omega
    · have hreach := cost_reachRun (p := p) hr
      simp only [if_true] at h₂
      have hlost : (exitPool server s).length =
          ((exitPool server s).filter (· ≠ x)).length + (exitPool server s).count x := by
        rw [List.length_eq_countP_add_countP (· ≠ x), ← List.countP_eq_length_filter]
        simp [List.count, beq_eq_decide]
      have hlacking :
          l.countP (· ∉ (exitPool server s).filter (· ≠ x)) ≤ l.countP (· ∉ exitPool server s) + l.count x :=
        countP_lacking
      have hrest := ih (s := StickyStore.forgetPeer server.port x s) (fun y hy => by
        rw [exitPool_forgetPeer] at hy ⊢
        obtain ⟨hy, hne⟩ := List.mem_filter.1 hy
        have hsame : ((exitPool server s).filter (· ≠ x)).count y = (exitPool server s).count y := List.count_filter hne
        rw [hsame]
        exact htail y hy) h₂
      simp only [poolPrice, exitPool_forgetPeer] at hrest ⊢
      have hpaid : 1 + ((exitPool server s).filter (· ≠ x)).length + l.countP (· ∉ (exitPool server s).filter (· ≠ x)) ≤
          (exitPool server s).length + (x :: l).countP (· ∉ exitPool server s) := by
        by_cases hx : x ∈ exitPool server s
        · have hown := hcount x hx
          rw [List.count_cons_self] at hown
          omega
        · have hsame : (exitPool server s).filter (· ≠ x) = exitPool server s :=
            List.filter_eq_self.2 fun y hy => decide_eq_true fun hyx => hx (hyx ▸ hy)
          rw [hsame, List.countP_cons_of_pos (by simpa using hx)]
          omega
      have hmul := Nat.mul_le_mul_left p.reach hpaid
      simp only [Nat.mul_add, Nat.mul_one] at hmul
      omega

theorem connectStickyPool_spends (skip : Option PeerId) : Spends (Io.price p) (poolPrice p server) (fun _ => p.reach)
    (connectStickyPool relayAddress server server.fingerprint skip : M S _) := by
  unfold connectStickyPool
  split
  · intro s tr r s' h
    obtain ⟨t₁, peers, s₁, t₂, rfl, h₁, h₂⟩ := runs_bind.1 h
    obtain ⟨rfl, rfl, rfl⟩ := runs_modifyGet.1 h₁
    rw [pool_fst_eq_exitPool] at h₂
    have hloop := poolLoop_spends (p := p) (fun y _ => by rw [exitPool_pool]) h₂
    have hlacking : (exitPool server s).countP (· ∉ exitPool server s) = 0 := by simp
    simp only [poolPrice, exitPool_pool, hlacking, Nat.mul_zero, Nat.add_zero] at hloop ⊢
    have hsuccess : onSuccess 0 p.reach r ≤ p.reach := by cases r <;> simp [onSuccess]
    exact hloop.trans (Nat.add_le_add_left hsuccess _)
  · exact (Spends.pure none).weaken (Nat.zero_le _)

theorem discoveryAttempt_spends : Spends (Io.price p) (poolPrice p server) (onSuccess p.discovery p.reach)
    (discoveryAttempt relayAddress server server.fingerprint : M S _) := by
  have hsecond : (Duration.fromSecs 1).nanos = Prices.second := by decide
  intro s tr r s' h
  rcases runs_discoveryAttempt.1 h with ⟨e, rfl, rfl, rfl⟩ | ⟨rfl, rfl, rfl⟩ | ⟨cs, o, t₁, t₂, -, rfl, hd, rfl, hr⟩
  · simp only [cost_cons, cost_nil, Io.price, onSuccess, Prices.discovery, hsecond]
    omega
  · simp only [cost_cons, cost_nil, Io.price, onSuccess, Prices.discovery, hsecond]
    omega
  · have hdial := cost_dialRun (p := p) hd
    simp only [cost_cons, cost_append, Io.price, Prices.discovery]
    cases o with
    | none =>
      obtain ⟨rfl, rfl⟩ := hr
      simp only [cost_nil, Option.map_none, onSuccess]
      omega
    | some peer =>
      have hremember : cost (Io.price p) t₂ + poolPrice p server s' ≤ poolPrice p server s + p.reach :=
        remember_spends peer _ _ _ _ hr
      simp only [Option.map_some, onSuccess]
      omega

theorem connectPoolOrDiscover_spends (avoid : Option PeerId) : Spends (Io.price p) (poolPrice p server)
    (fun _ => p.poolOrDiscover) (connectPoolOrDiscover relayAddress server server.fingerprint avoid : M S _) := by
  refine (connectStickyPool_spends avoid).bind_const fun o => ?_
  cases o with
  | some peer =>
    refine ((remember_spends peer).bind_const (l := 0) fun _ => Spends.pure _).weaken ?_
    omega
  | none =>
    have hattempts : Spends (Io.price p) (poolPrice p server) (fun _ => maxDiscoveryAttempts * p.discovery + p.reach)
        (attempts (discoveryAttempt relayAddress server server.fingerprint) maxDiscoveryAttempts : M S _) :=
      (discoveryAttempt_spends.attempts maxDiscoveryAttempts).mono fun o => by cases o <;> simp [onSuccess]
    refine hattempts.bind_const (l := 0) fun o => ?_
    · cases o with
      | some d => exact Spends.pure _
      | none => exact (emit_spends _).bind_const (l := 0) fun _ => Spends.pure _

theorem connectDiscovered_spends (avoid : Option PeerId) : Spends (Io.price p) (poolPrice p server)
    (fun _ => p.discovered) (connectDiscovered relayAddress server avoid : M S _) := by
  unfold connectDiscovered
  split
  · rename_i old _
    refine (reconnectStickyPeer_spends _).bind_const fun o => ?_
    cases o with
    | some peer =>
      refine ((remember_spends peer).bind_const (l := 0) fun _ => Spends.pure _).weaken ?_
      rw [Prices.poolOrDiscover]
      omega
    | none =>
      -- the exit that is given up leaves the pool
      have hforget : Spends (Io.price p) (poolPrice p server) (fun _ => 0)
          (modify (StickyStore.forgetPeer server.port old) : M S PUnit) := Spends.update fun s => by
        rw [poolPrice, exitPool_forgetPeer]
        exact Nat.mul_le_mul_left _ (List.length_filter_le ..)
      have hafter : Spends (Io.price p) (poolPrice p server) (fun _ => p.poolOrDiscover)
          (connectPoolOrDiscover relayAddress server server.fingerprint avoid : M S _) :=
            connectPoolOrDiscover_spends avoid
      have hrest := hforget.bind_const fun _ => hafter
      rwa [Nat.zero_add] at hrest
  · refine (connectPoolOrDiscover_spends avoid).weaken ?_
    rw [Prices.discovered]
    omega

/-! ### Pinned servers -/

section Pinned

omit [StickyStore S] [LawfulStickyStore S]

variable {pot : S → Nat} {pinned : List DestinationPeerEntry}

/-- The checks whether a better rank has connected late. -/
theorem adoptBestPinnedRank_spends (rank : Nat) (peer : PeerId) : Spends (Io.price p) pot
    (fun _ => pinned.length * p.check) (adoptBestPinnedRank pinned rank peer : M S _) := by
  have hcheck : ∀ e ∈ (pinned.take rank).zipIdx, Spends (Io.price p) pot (onSuccess p.check 0) (do
      if ← ask (Call.isConnected e.1.peerId) then pure (some (e.2, e.1.peerId)) else pure none : M S _) := by
    intro e _
    have hask : Spends (Io.price p) pot (fun _ => p.check) (ask (Call.isConnected e.1.peerId) : M S _) :=
      Spends.ask fun _ => le_rfl
    refine (hask.bind_const (l := 0) fun b => ?_).mono fun o => ?_
    · cases b <;> exact Spends.pure _
    · cases o <;> simp [onSuccess]
  have hlength : (pinned.take rank).length * p.check ≤ pinned.length * p.check :=
    Nat.mul_le_mul_right _ (List.length_take_le' ..)
  have hsum : ((pinned.take rank).zipIdx.map fun _ => p.check).sum = (pinned.take rank).length * p.check := by
    rw [List.map_const', List.sum_replicate, List.length_zipIdx, smul_eq_mul]
  have hsearch :
      Spends (Io.price p) pot (fun _ => pinned.length * p.check) ((pinned.take rank).zipIdx.findSomeM? fun e => do
      if ← ask (Call.isConnected e.1.peerId) then pure (some (e.2, e.1.peerId)) else pure none : M S _) :=
    (Spends.findSomeM? _ hcheck).mono fun o => by
      rw [hsum]
      cases o <;> simpa [onSuccess] using hlength
  exact hsearch.bind_const (l := 0) fun _ => Spends.pure _

theorem dialPinned_spends (resolved : Routes) (e : DestinationPeerEntry × Nat) : Spends (Io.price p) pot
    (onSuccess (2 * p.dial) (pinned.length * p.check)) (dialPinned pinned resolved e : M S _) := by
  unfold dialPinned
  split
  · exact (Spends.pure none).mono fun _ => Nat.zero_le _
  · refine (dial_spends _ _).bind fun o => ?_
    cases o with
    | none =>
      refine ⟨fun _ => 0, Spends.pure none, fun b => ?_⟩
      cases b <;> simp [onSuccess]
    | some peer =>
      refine ⟨_, (adoptBestPinnedRank_spends e.2 peer).found, fun b => ?_⟩
      cases b <;> simp [onSuccess]

theorem pinnedPass_spends (port : Port) : Spends (Io.price p) pot
    (onSuccess (p.pass pinned.length) (pinned.length * p.check)) (pinnedPass relayAddress port pinned : M S _) := by
  refine (resolveRoutes_spends _).bind fun resolved =>
    ⟨onSuccess (pinned.length * (2 * p.dial)) (pinned.length * p.check),
    ?_, fun b => ?_⟩
  · have hentries : Spends (Io.price p) pot (onSuccess ((pinned.zipIdx.map fun _ => 2 * p.dial).sum)
        (pinned.length * p.check)) (pinned.zipIdx.findSomeM? (dialPinned pinned resolved) : M S _) :=
      Spends.findSomeM? _ fun e _ => dialPinned_spends resolved e
    rw [List.map_const', List.sum_replicate, List.length_zipIdx, smul_eq_mul] at hentries
    refine (emit_spends _).bind fun _ => ⟨_, hentries, fun b => ?_⟩
    exact (Nat.zero_add _).le
  · cases b <;> simp [onSuccess, Prices.pass]
    omega

end Pinned

/-- One round of a server that does not fall back. -/
theorem pinnedRound_spends {pinned : List DestinationPeerEntry} (hno : server.peerOptions.fallbackToDiscovery = false) :
    Spends (Io.price p) (poolPrice p server)
      (onSuccess (p.pass pinned.length + Prices.second) (pinned.length * p.check))
      (pinnedRound relayAddress server pinned : M S _) := by
  intro s tr r s' h
  obtain ⟨t₁, o, s₁, t₂, rfl, h₁, h₂⟩ := runs_bind.1 h
  have hpass : cost (Io.price p) t₁ + poolPrice p server s₁ ≤
      poolPrice p server s + onSuccess (p.pass pinned.length) (pinned.length * p.check) o :=
        pinnedPass_spends _ _ _ _ _ h₁
  rw [cost_append]
  cases o with
  | some d =>
    obtain ⟨rfl, rfl, rfl⟩ := runs_pure.1 h₂
    simp only [onSuccess, cost_nil] at hpass ⊢
    omega
  | none =>
    simp only [hno, Bool.false_eq_true, if_false] at h₂
    obtain ⟨t₃, _, s₂, _, rfl, h₃, h₄⟩ := runs_bind.1 h₂
    obtain ⟨rfl, rfl, rfl⟩ := runs_pure.1 h₄
    have hsleep : cost (Io.price p) t₃ + poolPrice p server s' ≤ poolPrice p server s₁ + Prices.second :=
      sleep_spends (.fromSecs 1) _ _ _ _ h₃
    rw [List.append_nil]
    simp only [onSuccess] at hpass ⊢
    omega

/-- The only round of a server that falls back. -/
theorem pinnedRound_fallback_spends {pinned : List DestinationPeerEntry}
    (hfallback : server.peerOptions.fallbackToDiscovery = true) : Spends (Io.price p) (poolPrice p server)
      (onSuccess 0 (p.pass pinned.length + pinned.length * p.check + p.discovered))
      (pinnedRound relayAddress server pinned : M S _) := by
  intro s tr r s' h
  obtain ⟨t₁, o, s₁, t₂, rfl, h₁, h₂⟩ := runs_bind.1 h
  have hpass : cost (Io.price p) t₁ + poolPrice p server s₁ ≤
      poolPrice p server s + onSuccess (p.pass pinned.length) (pinned.length * p.check) o :=
        pinnedPass_spends _ _ _ _ _ h₁
  rw [cost_append]
  cases o with
  | some d =>
    obtain ⟨rfl, rfl, rfl⟩ := runs_pure.1 h₂
    simp only [onSuccess, cost_nil] at hpass ⊢
    omega
  | none =>
    simp only [hfallback, if_true] at h₂
    obtain ⟨t₃, result, s₂, _, rfl, h₃, h₄⟩ := runs_bind.1 h₂
    obtain ⟨rfl, rfl, rfl⟩ := runs_pure.1 h₄
    have hdiscovered : cost (Io.price p) t₃ + poolPrice p server s' ≤ poolPrice p server s₁ + p.discovered :=
      connectDiscovered_spends none _ _ _ _ h₃
    rw [List.append_nil]
    simp only [onSuccess] at hpass ⊢
    omega

theorem connectPinned_spends {pinned : List DestinationPeerEntry} {k e : Nat}
    (hround : Spends (Io.price p) (poolPrice p server) (onSuccess k e)
      (pinnedRound relayAddress server pinned : M S _)) :
    Spends (Io.price p) (poolPrice p server) (fun _ => maxPinnedPasses * k + e)
      (connectPinned relayAddress server pinned : M S _) := by
  have hrounds : Spends (Io.price p) (poolPrice p server) (fun _ => maxPinnedPasses * k + e)
      (attempts (pinnedRound relayAddress server pinned) maxPinnedPasses : M S _) :=
    (hround.attempts maxPinnedPasses).mono fun o => by cases o <;> simp [onSuccess]
  refine hrounds.bind_const (l := 0) fun o => ?_
  cases o with
  | some result => exact Spends.pure _
  | none => exact (emit_spends _).bind_const (l := 0) fun _ => Spends.pure _

theorem connect_spends (avoid : Option PeerId) : Spends (Io.price p) (poolPrice p server) (fun _ => p.connect server)
    (connect relayAddress server avoid : M S _) := by
  unfold connect Prices.connect
  simp only [List.length_eq_zero_iff]
  split
  · exact connectDiscovered_spends avoid
  · cases hfallback : server.peerOptions.fallbackToDiscovery with
    | true =>
      refine (connectPinned_spends (pinnedRound_fallback_spends hfallback)).weaken ?_
      simp
    | false => exact connectPinned_spends (pinnedRound_spends hfallback)

end Pools

/-! ### The actor -/

/-- The configured ports. -/
def Context.ports (ctx : Context) : Finset Port := (ctx.servers.map (·.port)).toFinset

theorem Context.server?_eq_none {ctx : Context} {port : Port} (h : port ∉ ctx.ports) : ctx.server? port = none := by
  refine List.find?_eq_none.2 fun server hserver hp => h ?_
  rw [← of_decide_eq_true hp, ports, List.mem_toFinset]
  exact List.mem_map_of_mem hserver

/-- The time that connecting `port` takes, its remembered pool apart. -/
def Prices.port (p : Prices) (ctx : Context) (port : Port) : Nat := (ctx.server? port).elim 0 p.connect

/-- The time of one attempt, if somebody serves the port. -/
def Prices.adoption (p : Prices) (ctx : Context) (port : Port) : Nat := (ctx.server? port).elim 0 fun _ => p.reach

/-- The time that handling an event takes, what the pools lose apart. -/
def Prices.event (p : Prices) (ctx : Context) : DiscoveryEvent → Nat
  | .discoverFor port | .requestNewPeer port => p.port ctx port
  | .peerClosed _ | .peerUnusable _ => ∑ port ∈ ctx.ports, p.port ctx port
  | .peerConnected _ _ relayed => if relayed then 0 else ∑ port ∈ ctx.ports, p.adoption ctx port
  | .selectPeer port _ => p.adoption ctx port + p.adoption ctx port

namespace DiscoveryActor

variable [StickyStore S] [LawfulStickyStore S] {ctx : Context} {a a' : DiscoveryActor S} {port : Port}

/-- The time of one attempt for each peer that the pools of the configured ports remember. -/
def poolsPrice (p : Prices) (ctx : Context) (s : S) : Nat :=
  ∑ port ∈ ctx.ports, (ctx.server? port).elim 0 fun server => poolPrice p server s

/-- What leaves the other pools alone changes the price of all pools by what it changes that of its own. -/
theorem poolsPrice_le_of_own {c k : Nat} (hserver : ctx.server? server.port = some server)
    (hown : c + poolPrice p server s' ≤ poolPrice p server s + k)
    (hothers : ∀ other : Server, other.port ≠ server.port → exitPool other s' = exitPool other s) :
    c + poolsPrice p ctx s' ≤ poolsPrice p ctx s + k := by
  have hmem : server.port ∈ ctx.ports := by
    by_contra hout
    rw [Context.server?_eq_none hout] at hserver
    cases hserver
  have hrest : ∑ port ∈ ctx.ports.erase server.port, (ctx.server? port).elim 0 (fun other => poolPrice p other s') =
      ∑ port ∈ ctx.ports.erase server.port, (ctx.server? port).elim 0 (fun other => poolPrice p other s) := by
    refine Finset.sum_congr rfl fun port hport => ?_
    cases hs : ctx.server? port with
    | none => rfl
    | some other =>
      have hne : other.port ≠ server.port := by
        rw [Context.port_of_server? hs]
        exact Finset.ne_of_mem_erase hport
      simp only [Option.elim_some, poolPrice, hothers other hne]
  rw [poolsPrice, poolsPrice, ← Finset.add_sum_erase _ _ hmem, ← Finset.add_sum_erase _ _ hmem, hrest, hserver]
  simp only [Option.elim_some]
  omega

/-- What makes no pool longer makes none dearer. -/
theorem poolsPrice_mono (h : ∀ server : Server, (exitPool server s').length ≤ (exitPool server s).length) :
    poolsPrice p ctx s' ≤ poolsPrice p ctx s := by
  refine Finset.sum_le_sum fun port _ => ?_
  cases ctx.server? port with
  | none => exact le_rfl
  | some server => exact Nat.mul_le_mul_left _ (h server)

theorem discover_spends (avoid : Option PeerId) :
    Spends (Io.price p) (fun a => poolsPrice p ctx a.sticky) (fun _ => p.port ctx port)
      (discover ctx port avoid : M (DiscoveryActor S) _) := by
  intro a tr r a' h
  rcases runs_discover.1 h with ⟨-, rfl, -, rfl⟩ | ⟨server, t, result, s₁, hs, hc, rfl, -, rfl⟩
  · rw [cost_nil, Nat.zero_add]
    exact Nat.le_add_right ..
  · have hport := Context.port_of_server? hs
    have hconnect : cost (Io.price p) t + poolPrice p server s₁ ≤ poolPrice p server a.sticky + p.connect server :=
      connect_spends avoid _ _ _ _ hc
    have hcost : cost (Io.price p) (t ++ [⟨.emit (poolEvent server s₁), ()⟩,
        ⟨.emit (activeEvent port (resultDestination result)), ()⟩]) = cost (Io.price p) t := by
      simp [Io.price]
    simp only [hcost, Prices.port, hs, Option.elim_some]
    exact poolsPrice_le_of_own (hport.symm ▸ hs) hconnect fun other hne => exitPool_connect_of_ne hne hc

theorem closePort_spends (peer : PeerId) :
    Spends (Io.price p) (fun a => poolsPrice p ctx a.sticky) (fun _ => p.port ctx port)
      (closePort ctx peer port : M (DiscoveryActor S) _) := by
  intro a tr u a' h
  rcases closePort_cases h with ⟨checks, now, t, r, rfl, hchecks, hd⟩ | ⟨at_, n, -, -, rfl, rfl⟩
  · have hdiscover := discover_spends (p := p) (some peer) _ _ _ _ hd
    have hclock : cost (Io.price p) checks = 0 := by
      rcases hchecks with ⟨-, rfl⟩ | ⟨_, _, -, rfl, -⟩
      · rfl
      · simp [Io.price]
    simpa [hclock, Io.price] using hdiscover
  · split <;> simp [Io.price]

theorem adoptSpecific_spends (hserver : ctx.server? server.port = some server) (peer : PeerId)
    (source : DestinationSource) :
    Spends (Io.price p) (fun a => poolsPrice p ctx a.sticky) (fun _ => p.adoption ctx server.port)
      (adoptSpecific server peer source : M (DiscoveryActor S) _) := by
  intro a tr u a' h
  obtain ⟨now, s₁, rfl, rfl, rfl⟩ := runs_adoptSpecific h
  simp only [Prices.adoption, hserver, Option.elim_some]
  refine poolsPrice_le_of_own hserver ?_ fun other hne => exitPool_remember_of_ne hne
  have hlength : (promote server.pool.maxTotal peer (exitPool server a.sticky)).length ≤
      (exitPool server a.sticky).length + 1 := length_promote_le_succ
  have hmul := Nat.mul_le_mul_left p.reach hlength
  simpa [poolPrice, exitPool_remember, Io.price, Nat.mul_succ] using hmul

theorem rotatePort_spends (candidate : PeerId) :
    Spends (Io.price p) (fun a => poolsPrice p ctx a.sticky) (fun _ => p.adoption ctx port)
      (rotatePort ctx candidate port : M (DiscoveryActor S) _) := by
  intro a tr u a' h
  rcases rotatePort_cases h with ⟨-, rfl, rfl⟩ | ⟨server, s₁, hs, rfl, hrest⟩
  · rw [cost_nil, Nat.zero_add]
    exact Nat.le_add_right ..
  · have hport := Context.port_of_server? hs
    have hpool : 0 + poolsPrice p ctx (StickyStore.pool server.port server.fingerprint a.sticky).2 ≤
        poolsPrice p ctx a.sticky + 0 :=
      poolsPrice_le_of_own (hport.symm ▸ hs) (by simp [poolPrice]) fun other hne => exitPool_pool_of_ne hne
    rcases hrest with ⟨-, rfl, rfl⟩ | ⟨-, hadopt⟩
    · rw [cost_nil]
      dsimp only
      omega
    · have hspent := adoptSpecific_spends (p := p) (hport.symm ▸ hs) candidate .sticky _ _ _ _ hadopt
      rw [hport] at hspent hpool
      dsimp only at hspent ⊢
      omega

omit [StickyStore S] [LawfulStickyStore S] in
/-- The loop over the ports that `q` picks. -/
private theorem portsWhere_spends {pot : DiscoveryActor S → Nat} {q : Option PeerId → Bool} {k : Port → Nat}
    {f : Port → M (DiscoveryActor S) PUnit} (hk : ∀ port ∉ ctx.ports, k port = 0)
    (hf : ∀ port, Spends (Io.price p) pot (fun _ => k port) (f port)) (d : Destinations) :
    Spends (Io.price p) pot (fun _ => ∑ port ∈ ctx.ports, k port) ((d.portsWhere q).forM f) :=
  Spends.forM_le (d.nodup.filter _) hk fun port _ => hf port

omit [StickyStore S] [LawfulStickyStore S] in
private theorem port_eq_zero {port : Port} (h : port ∉ ctx.ports) : p.port ctx port = 0 := by
  rw [Prices.port, Context.server?_eq_none h]
  rfl

omit [StickyStore S] [LawfulStickyStore S] in
private theorem adoption_eq_zero {port : Port} (h : port ∉ ctx.ports) : p.adoption ctx port = 0 := by
  rw [Prices.adoption, Context.server?_eq_none h]
  rfl

/-- Handling an event ends within the time for the event, and the time of one attempt for each remembered peer lost. -/
theorem Step.spends {l : Label} (h : Step ctx a l a') :
    cost (Io.price p) l.trace + poolsPrice p ctx a'.sticky ≤ poolsPrice p ctx a.sticky + p.event ctx l.event := by
  obtain ⟨event, tr⟩ := l
  cases event with
  | discoverFor port =>
    obtain ⟨r, hd⟩ := step_discoverFor.1 h
    exact discover_spends none _ _ _ _ hd
  | requestNewPeer port =>
    obtain ⟨t, r, rfl, hd⟩ := step_requestNewPeer.1 h
    have hdiscover := discover_spends (p := p) none _ _ _ _ hd
    simpa [Io.price, Prices.event] using hdiscover
  | peerClosed peer =>
    have hloop := portsWhere_spends (p := p) (fun _ => port_eq_zero) (fun _ => closePort_spends peer) _ _ _ _ _
      (step_peerClosed.1 h)
    exact hloop
  | peerUnusable peer =>
    obtain ⟨t, rfl, hloop⟩ := step_peerUnusable_cases h
    have hspent := portsWhere_spends (p := p) (fun _ => port_eq_zero)
      (fun _ => (discover_spends none).discard fun _ => le_rfl) _ _ _ _ _ hloop
    have hforgotten : poolsPrice p ctx (forgetAll ctx.servers peer a.sticky) ≤ poolsPrice p ctx a.sticky :=
      poolsPrice_mono fun server => by
        rw [exitPool_forgetAll]
        split
        · exact List.length_filter_le ..
        · exact le_rfl
    have hannounced :
        cost (Io.price p) (ctx.servers.map fun server => ⟨.emit (poolEvent server a'.sticky), ()⟩) = 0 := by
      simp [cost, Io.price, Function.comp_def]
    rw [cost_append, hannounced]
    dsimp only [Prices.event] at hspent ⊢
    omega
  | peerConnected peer address relayed =>
    cases relayed with
    | true =>
      obtain ⟨rfl, rfl⟩ := step_peerConnected_relayed.1 h
      simp
    | false =>
      have hspent := portsWhere_spends (p := p) (fun _ => adoption_eq_zero) (fun _ => rotatePort_spends peer) _ _ _ _ _
        (step_peerConnected_direct.1 h)
      have hnoted : poolsPrice p ctx (a.noteDirect peer address).sticky ≤ poolsPrice p ctx a.sticky :=
        poolsPrice_mono fun server => by
          rw [noteDirect, exitPool_noteDirectAddress]
      simp only [Prices.event, Bool.false_eq_true, if_false] at hspent ⊢
      omega
  | selectPeer port peer =>
    rcases step_selectPeer_cases h with ⟨-, rfl, rfl⟩ | ⟨server, o, t, t', hs, rfl, hreach, ho⟩
    · rw [cost_nil, Nat.zero_add]
      exact Nat.le_add_right ..
    · have hport := Context.port_of_server? hs
      have hcost := cost_reachRun (p := p) hreach
      have hadoption : p.adoption ctx port = p.reach := by rw [Prices.adoption, hs, Option.elim_some]
      rw [cost_append]
      simp only [Prices.event, hadoption]
      cases o with
      | none =>
        obtain ⟨⟨message, rfl⟩, rfl⟩ := ho
        simp only [cost_cons, cost_nil, Io.price]
        omega
      | some y =>
        have hspent := adoptSpecific_spends (p := p) (hport.symm ▸ hs) y .manual _ _ _ _ ho
        rw [hport, hadoption] at hspent
        dsimp only at hspent
        omega

/-- Over a whole run every event is paid for by the time for it, and the pools are paid for once. -/
theorem effort_bounded {ls : List Label} (h : Reaches (Step ctx) a ls a') :
    (ls.map fun l => cost (Io.price p) l.trace).sum + poolsPrice p ctx a'.sticky ≤
      poolsPrice p ctx a.sticky + (ls.map fun l => p.event ctx l.event).sum :=
  h.spends (fun l => cost (Io.price p) l.trace) (fun l => p.event ctx l.event) (fun a => poolsPrice p ctx a.sticky)
    fun _ _ _ hl => hl.spends

/-- The port of one server has no exit yet. -/
private def unserved : DiscoveryActor StickyState := .new .empty (.dark [1080] nodup_onePort)

private def askedOnce : List Io × Unit × DiscoveryActor StickyState :=
  DiscoverySystem.inWorld DiscoverySystem.oneServer DiscoverySystem.oneExit (.requestNewPeer 1080) unserved

/-- Dials of five seconds and queries of one. -/
private def typical : Prices := ⟨5 * Prices.second, Prices.second, 0⟩

/-- Such a request is answered within five minutes, 23 seconds of it pauses. -/
theorem effort_bounded_asked :
    cost (Io.price typical) askedOnce.1 + poolsPrice typical DiscoverySystem.oneServer askedOnce.2.2.sticky ≤
      298 * Prices.second := by
  have hrun : Reaches (Step DiscoverySystem.oneServer) unserved [⟨.requestNewPeer 1080, askedOnce.1⟩] askedOnce.2.2 :=
    .cons (exec_runs _ _ _) (.nil _)
  have hbounded := effort_bounded (p := typical) hrun
  have hbudget : poolsPrice typical DiscoverySystem.oneServer unserved.sticky +
      ([(⟨.requestNewPeer 1080, askedOnce.1⟩ : Label)].map fun l =>
        typical.event DiscoverySystem.oneServer l.event).sum =
        298 * Prices.second := by decide
  rw [hbudget] at hbounded
  simpa using hbounded

end DiscoveryActor

end P2Proxy
