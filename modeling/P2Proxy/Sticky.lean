import P2Proxy.Config
import P2Proxy.Interaction.Mru

/-!
# The sticky store

Per listen port, a pool of proven-good exits, most recently active first, remembered under the fingerprint of the
filters they were chosen with.  `StickyState` is the in-memory store; the flows that use a store are generic in a
`StickyStore`, and `LawfulStickyStore` says that a store behaves as the `StickyState` it carries.

What a flow sees of a store is `members`: the pool of a port under a fingerprint.  `remember` promotes in that list
(`members_remember`), `forget_peer` filters it (`members_forgetPeer`), and neither touches another port.
-/

namespace P2Proxy

open Interaction (promote)

abbrev DateTime := Int

structure StickyPeer where
  peerId : PeerId
  address : Option Multiaddr
  updatedAt : DateTime

structure StickyPool where
  fingerprint : String
  peers : List StickyPeer

/-- A peer with the routes known for it. -/
structure PoolPeer where
  peerId : PeerId
  addresses : List Multiaddr

/-- The operations of the sticky-store port; `now` is the reading of the clock. -/
class StickyStore (S : Type) where
  pool (port : Port) (fingerprint : String) (s : S) : List PeerId × S
  directAddress (port : Port) (peer : PeerId) (s : S) : Option Multiaddr
  remember (now : DateTime) (port : Port) (fingerprint : String) (peer : PeerId) (max : Nat) (s : S) : Bool × S
  noteDirectAddress (peer : PeerId) (address : Multiaddr) (s : S) : S
  forgetPeer (port : Port) (peer : PeerId) (s : S) : S
  snapshot (port : Port) (fingerprint : String) (s : S) : List PoolPeer

/-- In-memory exit affinity. -/
structure StickyState where
  pools : Port → Option StickyPool

namespace StickyPool

def peerIds (pool : StickyPool) : List PeerId := pool.peers.map (·.peerId)

end StickyPool

/-- Set the address of the first entry for `peer`. -/
def noteEntry (peer : PeerId) (address : Multiaddr) : List StickyPeer → List StickyPeer
  | [] => []
  | e :: es =>
    if e.peerId = peer then (if e.address ≠ some address then { e with address := some address } else e) :: es
    else e :: noteEntry peer address es

namespace StickyState

/-- No exit is remembered for any port. -/
def empty : StickyState := { pools := fun _ => none }

def pool (port : Port) (fingerprint : String) (s : StickyState) : List PeerId × StickyState :=
  match s.pools port with
  | none => ([], s)
  | some pool =>
    if pool.fingerprint = fingerprint then (pool.peerIds, s)
    else ([], { pools := Function.update s.pools port none })

def directAddress (port : Port) (peer : PeerId) (s : StickyState) : Option Multiaddr := do
  let pool ← s.pools port
  let entry ← pool.peers.find? fun p => p.peerId = peer
  entry.address

def remember (now : DateTime) (port : Port) (fingerprint : String) (peer : PeerId) (max : Nat)
    (s : StickyState) : Bool × StickyState :=
  let max := Max.max max 1
  let pool := (s.pools port).getD { fingerprint, peers := [] }
  let pool : StickyPool := if pool.fingerprint ≠ fingerprint then { fingerprint, peers := [] } else pool
  let wasFront := pool.peers.head?.map (·.peerId) = some peer
  let entry := (pool.peers.find? fun p => p.peerId = peer).getD { peerId := peer, address := none, updatedAt := now }
  let rest := pool.peers.eraseP fun p => p.peerId = peer
  let peers := ({ entry with updatedAt := now } :: rest).take max
  (!wasFront, { pools := Function.update s.pools port (some { pool with peers }) })

def noteDirectAddress (peer : PeerId) (address : Multiaddr) (s : StickyState) : StickyState :=
  { pools := fun port => (s.pools port).map fun pool => { pool with peers := noteEntry peer address pool.peers } }

def forgetPeer (port : Port) (peer : PeerId) (s : StickyState) : StickyState :=
  match s.pools port with
  | none => s
  | some pool =>
    let peers := pool.peers.filter fun p => p.peerId ≠ peer
    { pools := Function.update s.pools port (if peers.isEmpty then none else some { pool with peers }) }

def snapshot (port : Port) (fingerprint : String) (s : StickyState) : List PoolPeer :=
  match s.pools port with
  | some pool =>
    if pool.fingerprint = fingerprint then
      pool.peers.map fun p => { peerId := p.peerId, addresses := p.address.toList }
    else []
  | none => []

instance : StickyStore StickyState where
  pool := pool
  directAddress := directAddress
  remember := remember
  noteDirectAddress := noteDirectAddress
  forgetPeer := forgetPeer
  snapshot := snapshot

/-! ### What the operations do to a pool -/

/-- The pool of `port`, whatever it was chosen with. -/
def stored (s : StickyState) (port : Port) : List PeerId := ((s.pools port).map StickyPool.peerIds).getD []

/-- The pool of `port` that is valid under `fingerprint`. -/
def members (s : StickyState) (port : Port) (fingerprint : String) : List PeerId :=
  match s.pools port with
  | some pool => if pool.fingerprint = fingerprint then pool.peerIds else []
  | none => []

/-- Every pool lists each peer at most once. -/
def PoolsNodup (s : StickyState) : Prop := ∀ port, (s.stored port).Nodup

variable {s : StickyState} {port q : Port} {fp fp' : String} {peer : PeerId} {now : DateTime} {max : Nat}
  {address : Multiaddr}

theorem pool_fst : (s.pool port fp).1 = s.members port fp := by
  unfold pool members
  cases s.pools port with
  | none => rfl
  | some pool => by_cases h : pool.fingerprint = fp <;> simp [h]

/-- The pool under a fingerprint is the stored pool or nothing. -/
theorem members_eq_stored_or_nil (s : StickyState) (port : Port) (fp : String) :
    s.members port fp = s.stored port ∨ s.members port fp = [] := by
  unfold members stored
  cases s.pools port with
  | none => exact .inr rfl
  | some pool => by_cases h : pool.fingerprint = fp <;> simp [h]

theorem PoolsNodup.members (h : s.PoolsNodup) : (s.members port fp).Nodup := by
  rcases members_eq_stored_or_nil s port fp with he | he
  · exact he ▸ h port
  · rw [he]; exact List.nodup_nil

private theorem members_congr {s s' : StickyState} (h : s'.pools q = s.pools q) :
    s'.members q fp = s.members q fp := by
  unfold StickyState.members; rw [h]

theorem pool_snd_pools_of_ne (h : q ≠ port) : (s.pool port fp).2.pools q = s.pools q := by
  unfold pool
  split
  · rfl
  · split
    · rfl
    · simp [Function.update_of_ne h]

theorem remember_pools_of_ne (h : q ≠ port) : (s.remember now port fp peer max).2.pools q = s.pools q := by
  simp [remember, Function.update_of_ne h]

theorem forgetPeer_pools_of_ne (h : q ≠ port) : (s.forgetPeer port peer).pools q = s.pools q := by
  unfold forgetPeer
  split
  · rfl
  · simp [Function.update_of_ne h]

/-- Reading the pool under a fingerprint drops a pool of other filters, and nothing that is valid. -/
@[simp] theorem members_pool : (s.pool port fp).2.members port fp = s.members port fp := by
  unfold pool
  cases h : s.pools port with
  | none => rfl
  | some pool =>
    by_cases hf : pool.fingerprint = fp
    · simp [hf]
    · simp [hf, members, h]

/-- Reading a pool that is valid under the fingerprint changes nothing. -/
theorem pool_snd_of_members (h : s.members port fp ≠ []) : (s.pool port fp).2 = s := by
  unfold members at h
  unfold pool
  split
  · rfl
  · rename_i pool hp
    rw [hp] at h
    by_cases hf : pool.fingerprint = fp
    · rw [if_pos hf]
    · simp [hf] at h

private theorem eraseP_map_peerId (l : List StickyPeer) :
    (l.eraseP fun p => p.peerId = peer).map (·.peerId) = (l.map (·.peerId)).erase peer := by
  induction l with
  | nil => rfl
  | cons e es ih =>
    by_cases h : e.peerId = peer
    · simp [List.eraseP_cons_of_pos, h]
    · rw [List.eraseP_cons_of_neg (by simpa using h), List.map_cons, List.map_cons, ih,
        List.erase_cons_tail (by simpa using h)]

theorem find_getD_peerId (l : List StickyPeer) (peer : PeerId) (d : StickyPeer) (hd : d.peerId = peer) :
    ((l.find? fun p => p.peerId = peer).getD d).peerId = peer := by
  cases h : l.find? fun p => p.peerId = peer with
  | none => exact hd
  | some e => simpa using List.find?_some h

/-- The pool of `port` after `peer` was remembered. -/
private theorem remember_pools_self (s : StickyState) (now : DateTime) (port : Port) (fp : String) (peer : PeerId)
    (max : Nat) :
    ∃ pool, (s.remember now port fp peer max).2.pools port = some pool ∧ pool.fingerprint = fp ∧
      pool.peerIds = promote max peer (s.members port fp) := by
  unfold remember
  refine ⟨_, Function.update_self .., ?_, ?_⟩
  · split
    · rfl
    · rename_i h; simpa using h
  · have hpool : (if ((s.pools port).getD { fingerprint := fp, peers := [] }).fingerprint ≠ fp then
        ({ fingerprint := fp, peers := [] } : StickyPool)
        else (s.pools port).getD { fingerprint := fp, peers := [] }).peerIds = s.members port fp := by
      unfold members
      cases s.pools port with
      | none => simp [StickyPool.peerIds]
      | some pool => by_cases h : pool.fingerprint = fp <;> simp [h, StickyPool.peerIds]
    rw [← hpool]
    simp only [StickyPool.peerIds, promote, List.map_take, List.map_cons, eraseP_map_peerId]
    rw [find_getD_peerId _ peer _ rfl, Nat.max_comm max 1]

/-- Remembering promotes in the valid pool. -/
@[simp] theorem members_remember :
    (s.remember now port fp peer max).2.members port fp = promote max peer (s.members port fp) := by
  obtain ⟨pool, hp, hf, hm⟩ := remember_pools_self s now port fp peer max
  rw [members, hp, ← hm]
  simp [hf]

/-- Under other filters nothing is left of the pool. -/
theorem members_remember_other (h : fp ≠ fp') : (s.remember now port fp peer max).2.members port fp' = [] := by
  obtain ⟨pool, hp, hf, -⟩ := remember_pools_self s now port fp peer max
  rw [members, hp]
  exact if_neg (hf ▸ h)

theorem stored_remember :
    (s.remember now port fp peer max).2.stored port = promote max peer (s.members port fp) := by
  obtain ⟨pool, hp, -, hm⟩ := remember_pools_self s now port fp peer max
  rw [stored, hp, ← hm]
  rfl

private theorem filter_map_peerId (peer : PeerId) (l : List StickyPeer) :
    (l.filter fun p => p.peerId ≠ peer).map (·.peerId) = (l.map (·.peerId)).filter (· ≠ peer) := by
  rw [List.filter_map]; rfl

@[simp] theorem stored_forgetPeer : (s.forgetPeer port peer).stored port = (s.stored port).filter (· ≠ peer) := by
  unfold forgetPeer stored
  cases h : s.pools port with
  | none => simp [h]
  | some pool =>
    have hm := filter_map_peerId peer pool.peers
    simp only [Function.update_self, Option.map_some, Option.getD_some, StickyPool.peerIds, ← hm]
    split
    · rename_i he
      rw [List.isEmpty_iff.1 he]; rfl
    · rfl

/-- Forgetting filters the pool. -/
@[simp] theorem members_forgetPeer :
    (s.forgetPeer port peer).members port fp = (s.members port fp).filter (· ≠ peer) := by
  unfold forgetPeer members
  cases h : s.pools port with
  | none => simp [h]
  | some pool =>
    have hm := filter_map_peerId peer pool.peers
    by_cases hf : pool.fingerprint = fp
    · simp only [Function.update_self, hf, if_true, StickyPool.peerIds, ← hm]
      split
      · rename_i h
        split at h
        · cases h
        · cases h; simp
      · rename_i h
        split at h
        · rename_i he; rw [List.isEmpty_iff.1 he]; rfl
        · cases h
    · simp only [Function.update_self, hf, if_false, List.filter_nil]
      split
      · rename_i h
        split at h
        · cases h
        · cases h; simp [hf]
      · rfl

private theorem noteEntry_map_peerId (l : List StickyPeer) :
    (noteEntry peer address l).map (·.peerId) = l.map (·.peerId) := by
  induction l with
  | nil => rfl
  | cons e es ih =>
    unfold noteEntry
    split
    · split <;> simp
    · simp [ih]

/-- Noting an address changes no pool's members. -/
@[simp] theorem members_noteDirectAddress :
    (s.noteDirectAddress peer address).members port fp = s.members port fp := by
  unfold noteDirectAddress members
  cases h : s.pools port with
  | none => simp [h]
  | some pool => simp [h, StickyPool.peerIds, noteEntry_map_peerId]

@[simp] theorem stored_noteDirectAddress : (s.noteDirectAddress peer address).stored port = s.stored port := by
  unfold noteDirectAddress stored
  cases h : s.pools port with
  | none => simp [h]
  | some pool => simp [h, StickyPool.peerIds, noteEntry_map_peerId]

/-! ### Another port's pool -/

theorem members_pool_of_ne (h : q ≠ port) : (s.pool port fp).2.members q fp' = s.members q fp' :=
  members_congr (pool_snd_pools_of_ne h)

theorem members_remember_of_ne (h : q ≠ port) :
    (s.remember now port fp peer max).2.members q fp' = s.members q fp' :=
  members_congr (remember_pools_of_ne h)

theorem members_forgetPeer_of_ne (h : q ≠ port) : (s.forgetPeer port peer).members q fp' = s.members q fp' :=
  members_congr (forgetPeer_pools_of_ne h)

/-- Reading a pool drops at most a pool of other filters. -/
theorem members_pool_sublist : ((s.pool port fp).2.members q fp').Sublist (s.members q fp') := by
  by_cases hq : q = port
  · subst hq
    unfold pool
    split
    · exact List.Sublist.refl _
    · split
      · exact List.Sublist.refl _
      · simp [members]
  · rw [members_pool_of_ne hq]

theorem members_forgetPeer_sublist : ((s.forgetPeer port peer).members q fp).Sublist (s.members q fp) := by
  by_cases hq : q = port
  · subst hq
    rw [members_forgetPeer]
    exact List.filter_sublist
  · rw [members_forgetPeer_of_ne hq]

/-! ### Pools without repetitions -/

private theorem stored_congr {s s' : StickyState} (h : s'.pools q = s.pools q) : s'.stored q = s.stored q := by
  unfold stored; rw [h]

theorem stored_pool_sublist : ((s.pool port fp).2.stored q).Sublist (s.stored q) := by
  by_cases hq : q = port
  · subst hq
    unfold pool
    split
    · exact List.Sublist.refl _
    · split
      · exact List.Sublist.refl _
      · simp [stored]
  · rw [stored_congr (pool_snd_pools_of_ne hq)]

theorem PoolsNodup.empty : empty.PoolsNodup := fun _ => List.nodup_nil

theorem PoolsNodup.pool (h : s.PoolsNodup) : (s.pool port fp).2.PoolsNodup :=
  fun q => (h q).sublist stored_pool_sublist

theorem PoolsNodup.remember (h : s.PoolsNodup) : (s.remember now port fp peer max).2.PoolsNodup := by
  intro q
  by_cases hq : q = port
  · subst hq
    rw [stored_remember]
    exact Interaction.nodup_promote h.members
  · rw [stored_congr (remember_pools_of_ne hq)]; exact h q

theorem PoolsNodup.forgetPeer (h : s.PoolsNodup) : (s.forgetPeer port peer).PoolsNodup := by
  intro q
  by_cases hq : q = port
  · subst hq
    rw [stored_forgetPeer]
    exact (h q).filter _
  · rw [stored_congr (forgetPeer_pools_of_ne hq)]; exact h q

theorem PoolsNodup.noteDirectAddress (h : s.PoolsNodup) : (s.noteDirectAddress peer address).PoolsNodup := by
  intro q
  rw [stored_noteDirectAddress]; exact h q

end StickyState

/-- A store that behaves as the `StickyState` it carries. -/
class LawfulStickyStore (S : Type) [StickyStore S] where
  view : S → StickyState
  pool_fst : ∀ port fp s, (StickyStore.pool port fp s : List PeerId × S).1 = ((view s).pool port fp).1
  view_pool : ∀ port fp s, view (StickyStore.pool port fp s).2 = ((view s).pool port fp).2
  directAddress_eq : ∀ port peer s, StickyStore.directAddress port peer s = (view s).directAddress port peer
  view_remember : ∀ now port fp peer max s,
    view (StickyStore.remember now port fp peer max s).2 = ((view s).remember now port fp peer max).2
  view_noteDirectAddress : ∀ peer address s,
    view (StickyStore.noteDirectAddress peer address s) = (view s).noteDirectAddress peer address
  view_forgetPeer : ∀ port peer s, view (StickyStore.forgetPeer port peer s) = (view s).forgetPeer port peer
  snapshot_eq : ∀ port fp s, StickyStore.snapshot port fp s = (view s).snapshot port fp

export LawfulStickyStore (view)

attribute [simp] LawfulStickyStore.pool_fst LawfulStickyStore.view_pool LawfulStickyStore.directAddress_eq
  LawfulStickyStore.view_remember LawfulStickyStore.view_noteDirectAddress LawfulStickyStore.view_forgetPeer
  LawfulStickyStore.snapshot_eq

instance : LawfulStickyStore StickyState where
  view := id
  pool_fst _ _ _ := rfl
  view_pool _ _ _ := rfl
  directAddress_eq _ _ _ := rfl
  view_remember _ _ _ _ _ _ := rfl
  view_noteDirectAddress _ _ _ := rfl
  view_forgetPeer _ _ _ := rfl
  snapshot_eq _ _ _ := rfl

/-! ### The exits that a server remembers -/

section ExitPool

variable {S : Type} [StickyStore S] [LawfulStickyStore S] {server server' : Server} {s : S} {port : Port}
  {fp : String} {peer : PeerId} {now : DateTime} {max : Nat} {address : Multiaddr}

/-- The pool of `server` under its current filters. -/
def exitPool (server : Server) (s : S) : List PeerId := (view s).members server.port server.fingerprint

@[simp] theorem pool_fst_eq_exitPool :
    (StickyStore.pool server.port server.fingerprint s).1 = exitPool server s := by
  rw [LawfulStickyStore.pool_fst, StickyState.pool_fst, exitPool]

@[simp] theorem exitPool_pool :
    exitPool server (StickyStore.pool server.port server.fingerprint s).2 = exitPool server s := by
  simp [exitPool]

@[simp] theorem exitPool_remember :
    exitPool server (StickyStore.remember now server.port server.fingerprint peer max s).2 =
      promote max peer (exitPool server s) := by
  simp [exitPool]

@[simp] theorem exitPool_forgetPeer :
    exitPool server (StickyStore.forgetPeer server.port peer s) = (exitPool server s).filter (· ≠ peer) := by
  simp [exitPool]

@[simp] theorem exitPool_noteDirectAddress :
    exitPool server (StickyStore.noteDirectAddress peer address s) = exitPool server s := by
  simp [exitPool]

theorem directAddress_pool (port : Port) (peer : PeerId) (h : exitPool server s ≠ []) :
    StickyStore.directAddress port peer (StickyStore.pool server.port server.fingerprint s).2 =
      StickyStore.directAddress port peer s := by
  simp only [LawfulStickyStore.directAddress_eq, LawfulStickyStore.view_pool]
  rw [StickyState.pool_snd_of_members h]

theorem exitPool_pool_of_ne (h : server.port ≠ port) :
    exitPool server (StickyStore.pool port fp s).2 = exitPool server s := by
  simp [exitPool, StickyState.members_pool_of_ne h]

theorem exitPool_remember_of_ne (h : server.port ≠ port) :
    exitPool server (StickyStore.remember now port fp peer max s).2 = exitPool server s := by
  simp [exitPool, StickyState.members_remember_of_ne h]

theorem exitPool_forgetPeer_of_ne (h : server.port ≠ port) :
    exitPool server (StickyStore.forgetPeer port peer s) = exitPool server s := by
  simp [exitPool, StickyState.members_forgetPeer_of_ne h]

theorem nodup_exitPool (h : (view s).PoolsNodup) : (exitPool server s).Nodup := h.members

end ExitPool

end P2Proxy
