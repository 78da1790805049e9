import P2Proxy.Sticky

/-!
# Runs of the sticky store

Whatever calls are made of the store, from the empty one on and with a clock that does not go back, each pool is a
most-recently-used list: not empty, without repetitions, latest first.  A row of `remember` calls has a closed form, and
the address of a peer is the last one noted since the peer entered the pool (`sticky_lru`).

A call treats every port on its own (`apply_pools`), so the proofs look at the pool of one port.
-/

namespace P2Proxy

open Interaction (promote)

/-- A call of the sticky-store port. -/
inductive StickyOp
  | pool (port : Port) (fingerprint : String)
  | directAddress (port : Port) (peer : PeerId)
  | remember (now : DateTime) (port : Port) (fingerprint : String) (peer : PeerId) (max : Nat)
  | noteDirectAddress (peer : PeerId) (address : Multiaddr)
  | forgetPeer (port : Port) (peer : PeerId)
  | snapshot (port : Port) (fingerprint : String)

namespace StickyOp

/-- The store after a call. -/
def apply {S : Type} [StickyStore S] : StickyOp → S → S
  | .pool port fingerprint, s => (StickyStore.pool port fingerprint s).2
  | .directAddress _ _, s => s
  | .remember now port fingerprint peer max, s => (StickyStore.remember now port fingerprint peer max s).2
  | .noteDirectAddress peer address, s => StickyStore.noteDirectAddress peer address s
  | .forgetPeer port peer, s => StickyStore.forgetPeer port peer s
  | .snapshot _ _, s => s

/-- The store after some calls. -/
def run {S : Type} [StickyStore S] (ops : List StickyOp) (s : S) : S := ops.foldl (fun s op => op.apply s) s

@[simp] theorem run_concat {S : Type} [StickyStore S] (ops : List StickyOp) (op : StickyOp) (s : S) :
    run (ops ++ [op]) s = op.apply (run ops s) := by
  simp [run]

/-- The reading of the clock that a call takes. -/
def clock : StickyOp → Option DateTime
  | .remember now _ _ _ _ => some now
  | _ => none

/-- The clock does not go back. -/
def Clocked (ops : List StickyOp) : Prop := (ops.filterMap clock).Pairwise (· ≤ ·)

/-- The peer that a call remembers for `port`. -/
def remembered (port : Port) : StickyOp → Option PeerId
  | .remember _ q _ peer _ => if q = port then some peer else none
  | _ => none

/-- The address that a call notes for `peer`. -/
def noted (peer : PeerId) : StickyOp → Option Multiaddr
  | .noteDirectAddress p address => if p = peer then some address else none
  | _ => none

/-- A call that remembers an exit of `port` under `fingerprint` with the cap `max`, or leaves the pool of `port` that is
valid under `fingerprint` as it is. -/
def Continues (port : Port) (fingerprint : String) (max : Nat) : StickyOp → Prop
  | .pool q f => q = port → f = fingerprint
  | .remember _ q f _ m => q = port → f = fingerprint ∧ m = max
  | .forgetPeer q _ => q ≠ port
  | _ => True

/-! ### One port -/

/-- The entries of a pool that are valid under `fingerprint`. -/
def validPeers (fingerprint : String) : Option StickyPool → List StickyPeer
  | none => []
  | some p => if p.fingerprint = fingerprint then p.peers else []

/-- The entries after `peer` was remembered. -/
def rememberEntry (now : DateTime) (peer : PeerId) (max : Nat) (es : List StickyPeer) : List StickyPeer :=
  let entry := (es.find? fun p => p.peerId = peer).getD { peerId := peer, address := none, updatedAt := now }
  ({ entry with updatedAt := now } :: es.eraseP fun p => p.peerId = peer).take (Max.max max 1)

/-- What a call does to the pool of `port`. -/
def onPool (port : Port) : StickyOp → Option StickyPool → Option StickyPool
  | .pool q fingerprint, o => if q = port then o.filter (·.fingerprint = fingerprint) else o
  | .remember now q fingerprint peer max, o =>
    if q = port then some { fingerprint, peers := rememberEntry now peer max (validPeers fingerprint o) } else o
  | .noteDirectAddress peer address, o => o.map fun p => { p with peers := noteEntry peer address p.peers }
  | .forgetPeer q peer, o =>
    if q = port then
      (o.map fun p => { p with peers := p.peers.filter fun e => e.peerId ≠ peer }).filter (!·.peers.isEmpty)
    else o
  | .directAddress _ _, o => o
  | .snapshot _ _, o => o

/-- A call treats every port on its own. -/
theorem apply_pools (op : StickyOp) (s : StickyState) (port : Port) :
    (op.apply s).pools port = op.onPool port (s.pools port) := by
  cases op with
  | pool q fp =>
    show (s.pool q fp).2.pools port = _
    by_cases hq : q = port
    · subst hq
      rw [onPool, if_pos rfl]
      unfold StickyState.pool
      -- a pool of another configuration is dropped
      cases h : s.pools q with
      | none => exact h
      | some p => by_cases hf : p.fingerprint = fp <;> simp [hf, h, Option.filter]
    · rw [onPool, if_neg hq]
      exact StickyState.pool_snd_pools_of_ne (Ne.symm hq)
  | directAddress q peer => rfl
  | remember now q fp peer max =>
    show (s.remember now q fp peer max).2.pools port = _
    by_cases hq : q = port
    · subst hq
      rw [onPool, if_pos rfl]
      refine (Function.update_self ..).trans ?_
      cases s.pools q with
      | none => simp [validPeers, rememberEntry]
      | some p => by_cases hf : p.fingerprint = fp <;> simp [hf, validPeers, rememberEntry]
    · rw [onPool, if_neg hq]
      exact StickyState.remember_pools_of_ne (Ne.symm hq)
  | noteDirectAddress peer address => rfl
  | forgetPeer q peer =>
    show (s.forgetPeer q peer).pools port = _
    by_cases hq : q = port
    · subst hq
      rw [onPool, if_pos rfl]
      unfold StickyState.forgetPeer
      cases h : s.pools q with
      | none => exact h
      | some p =>
        refine (Function.update_self ..).trans ?_
        cases he : (p.peers.filter fun e => e.peerId ≠ peer).isEmpty <;>
          simp only [Option.map_some, Option.filter_some, he] <;> rfl
    · rw [onPool, if_neg hq]
      exact StickyState.forgetPeer_pools_of_ne (Ne.symm hq)
  | snapshot q fp => rfl

/-! ### Not empty, without repetitions, latest first -/

variable {op : StickyOp} {ops : List StickyOp} {readings : List DateTime} {port : Port} {o : Option StickyPool}
  {now : DateTime} {peer p : PeerId} {max : Nat} {es : List StickyPeer} {s : StickyState} {fp : String}

/-- The entry of `peer` comes first, and some of the others follow. -/
theorem rememberEntry_eq_cons (now : DateTime) (peer : PeerId) (max : Nat) (es : List StickyPeer) :
    ∃ entry rest, rememberEntry now peer max es = entry :: rest ∧ rest.Sublist es ∧ entry.peerId = peer ∧
      entry.updatedAt = now ∧ entry.address = (es.find? fun e => e.peerId = peer).bind (·.address) := by
  obtain ⟨n, hn⟩ : ∃ n, Max.max max 1 = n + 1 := ⟨Max.max max 1 - 1, by omega⟩
  unfold rememberEntry
  rw [hn, List.take_succ_cons]
  refine ⟨_, _, rfl, (List.take_sublist ..).trans List.eraseP_sublist,
    StickyState.find_getD_peerId es peer _ rfl, rfl, ?_⟩
  cases es.find? fun e => e.peerId = peer <;> rfl

theorem noteEntry_map_updatedAt (peer : PeerId) (l : List StickyPeer) (address : Multiaddr) :
    (noteEntry peer address l).map (·.updatedAt) = l.map (·.updatedAt) := by
  induction l with
  | nil => rfl
  | cons e es ih =>
    unfold noteEntry
    split
    · split <;> simp
    · simp [ih]

/-- A pool that is not empty, whose times do not increase and were all read off the clock. -/
structure Ordered (readings : List DateTime) (pool : StickyPool) : Prop where
  ne_nil : pool.peers ≠ []
  sorted : (pool.peers.map (·.updatedAt)).Pairwise (· ≥ ·)
  read : ∀ t ∈ pool.peers.map (·.updatedAt), t ∈ readings

/-- What is left of the entries is in order. -/
theorem Ordered.sublist {kept : StickyPool} {pool : StickyPool} (h : Ordered readings pool) (hne : kept.peers ≠ [])
    (hs : kept.peers.Sublist pool.peers) : Ordered readings kept where
  ne_nil := hne
  sorted := h.sorted.sublist (hs.map _)
  read t ht := h.read t ((hs.map _).subset ht)

theorem validPeers_sublist (fp : String) (pool : StickyPool) :
    (validPeers fp (some pool)).Sublist pool.peers := by
  unfold validPeers
  dsimp only
  split
  · exact List.Sublist.refl _
  · exact List.nil_sublist _

/-- The pool with a peer that was remembered now is in order. -/
private theorem rememberEntry_ordered {now : DateTime} {fp : String} {peer : PeerId} {max : Nat}
    (hclock : ∀ t ∈ readings, t ≤ now) (h : ∀ pool ∈ o, Ordered readings pool) :
    Ordered (readings ++ [now]) { fingerprint := fp, peers := rememberEntry now peer max (validPeers fp o) } := by
  obtain ⟨entry, rest, he, hs, -, ht, -⟩ := rememberEntry_eq_cons now peer max (validPeers fp o)
  have hold : ((validPeers fp o).map (·.updatedAt)).Pairwise (· ≥ ·) ∧
      ∀ t ∈ (validPeers fp o).map (·.updatedAt), t ∈ readings := by
    cases ho : o with
    | none => simp [validPeers]
    | some p =>
      have hp := h p ho
      have hsub := (validPeers_sublist fp p).map (·.updatedAt)
      exact ⟨hp.sorted.sublist hsub, fun t ht => hp.read t (hsub.subset ht)⟩
  have hrest : ∀ t ∈ rest.map (·.updatedAt), t ∈ readings := fun t ht => hold.2 t ((hs.map _).subset ht)
  refine ⟨?_, ?_, fun t hmem => ?_⟩
  · show rememberEntry now peer max (validPeers fp o) ≠ []
    rw [he]
    exact List.cons_ne_nil _ _
  · -- the new entry comes first, and is the latest
    show ((rememberEntry now peer max (validPeers fp o)).map (·.updatedAt)).Pairwise (· ≥ ·)
    rw [he, List.map_cons, List.pairwise_cons, ht]
    exact ⟨fun t hmem => hclock t (hrest t hmem), hold.1.sublist (hs.map _)⟩
  · change t ∈ (rememberEntry now peer max (validPeers fp o)).map (·.updatedAt) at hmem
    rw [he, List.map_cons, ht] at hmem
    rcases List.mem_cons.1 hmem with rfl | hmem
    · exact List.mem_append_right _ (List.mem_singleton.2 rfl)
    · exact List.mem_append_left _ (hrest t hmem)

/-- A call keeps the pool of a port in order, if its clock is not behind. -/
theorem onPool_ordered (hclock : ∀ now ∈ op.clock, ∀ t ∈ readings, t ≤ now) (h : ∀ pool ∈ o, Ordered readings pool) :
    ∀ pool ∈ op.onPool port o, Ordered (readings ++ op.clock.toList) pool := by
  have hmore : ∀ {pool}, Ordered readings pool → Ordered (readings ++ op.clock.toList) pool :=
    fun h => ⟨h.ne_nil, h.sorted, fun t ht => List.mem_append_left _ (h.read t ht)⟩
  intro pool hpool
  cases op with
  | pool q fp =>
    simp only [onPool] at hpool
    split at hpool
    · exact hmore (h pool (Option.mem_filter_iff.1 hpool).1)
    · exact hmore (h pool hpool)
  | directAddress q peer => exact hmore (h pool hpool)
  | remember now q fp peer max =>
    simp only [onPool] at hpool
    split at hpool
    · obtain rfl := Option.mem_some_iff.1 hpool
      exact rememberEntry_ordered (fun t ht => hclock now rfl t ht) h
    · exact hmore (h pool hpool)
  | noteDirectAddress peer address =>
    obtain ⟨p, hp, rfl⟩ := Option.map_eq_some_iff.1 hpool
    obtain ⟨hne, hsorted, hread⟩ := hmore (h p hp)
    have htimes := noteEntry_map_updatedAt peer p.peers address
    refine ⟨fun hnil => hne ?_, by rwa [htimes], by rwa [htimes]⟩
    have hlen := congrArg List.length htimes
    change noteEntry peer address p.peers = [] at hnil
    rw [hnil] at hlen
    simpa using hlen.symm
  | forgetPeer q peer =>
    simp only [onPool] at hpool
    split at hpool
    · obtain ⟨hmap, hne⟩ := Option.mem_filter_iff.1 hpool
      obtain ⟨p, hp, rfl⟩ := Option.map_eq_some_iff.1 hmap
      exact hmore ((h p hp).sublist (by simpa using hne) List.filter_sublist)
    · exact hmore (h pool hpool)
  | snapshot q fp => exact hmore (h pool hpool)

theorem run_ordered (hclock : Clocked ops) :
    ∀ pool ∈ (run ops StickyState.empty).pools port, Ordered (ops.filterMap clock) pool := by
  induction ops using List.reverseRecOn with
  | nil =>
    intro pool hpool
    cases hpool
  | append_singleton ops op ih =>
    unfold Clocked at hclock
    rw [List.filterMap_append, List.pairwise_append] at hclock
    obtain ⟨hpast, -, hlate⟩ := hclock
    have hop : ∀ now ∈ op.clock, ∀ t ∈ ops.filterMap clock, t ≤ now := by
      intro now hnow t ht
      exact hlate t ht now (List.mem_filterMap.2 ⟨op, List.mem_singleton_self op, hnow⟩)
    have hreadings : (ops ++ [op]).filterMap clock = ops.filterMap clock ++ op.clock.toList := by
      rw [List.filterMap_append]
      cases hc : op.clock <;> simp [hc]
    rw [run_concat, apply_pools, hreadings]
    exact onPool_ordered hop (ih hpast)

/-- Every call keeps the pools without repetitions. -/
theorem apply_nodup (op : StickyOp) (h : s.PoolsNodup) : (op.apply s).PoolsNodup := by
  cases op with
  | pool q fp => exact h.pool
  | directAddress q peer => exact h
  | remember now q fp peer max => exact h.remember
  | noteDirectAddress peer address => exact h.noteDirectAddress
  | forgetPeer q peer => exact h.forgetPeer
  | snapshot q fp => exact h

theorem run_nodup (ops : List StickyOp) : (run ops StickyState.empty).PoolsNodup := by
  induction ops using List.reverseRecOn with
  | nil => exact .empty
  | append_singleton ops op ih =>
    rw [run_concat]
    exact apply_nodup op ih

/-! ### A row of `remember` calls -/

theorem members_apply (hop : op.Continues port fp max) :
    (op.apply s).members port fp = (op.remembered port).elim (s.members port fp) fun p =>
      promote max p (s.members port fp) := by
  cases op with
  | pool q f =>
    show (s.pool q f).2.members port fp = _
    by_cases hq : q = port
    · subst hq
      obtain rfl : f = fp := hop rfl
      exact StickyState.members_pool
    · exact StickyState.members_pool_of_ne (Ne.symm hq)
  | directAddress q peer => rfl
  | remember now q f peer m =>
    show (s.remember now q f peer m).2.members port fp = _
    by_cases hq : q = port
    · subst hq
      obtain ⟨rfl, rfl⟩ := hop rfl
      rw [StickyState.members_remember, remembered, if_pos rfl]
      rfl
    · rw [StickyState.members_remember_of_ne (Ne.symm hq), remembered, if_neg hq]
      rfl
  | noteDirectAddress peer address => exact StickyState.members_noteDirectAddress
  | forgetPeer q peer => exact StickyState.members_forgetPeer_of_ne (Ne.symm hop)
  | snapshot q f => rfl

/-- Continued calls promote one remembered exit after the other. -/
theorem members_run (hops : ∀ op ∈ ops, op.Continues port fp max) :
    (run ops s).members port fp =
      (ops.filterMap (remembered port)).foldl (fun l p => promote max p l) (s.members port fp) := by
  induction ops generalizing s with
  | nil => rfl
  | cons op ops ih =>
    obtain ⟨hop, hops⟩ := List.forall_mem_cons.1 hops
    have hstep := members_apply (s := s) hop
    show (run ops (op.apply s)).members port fp = _
    rw [ih hops, hstep]
    cases hr : op.remembered port <;> simp [hr]

/-! ### The address of a member -/

/-- The call brings `p` into the pool of `port`: it remembers `p`, who is not in the pool that is valid then. -/
def Enters (s : StickyState) (port : Port) (p : PeerId) (op : StickyOp) : Prop :=
  ∃ now fp max, op = .remember now port fp p max ∧ p ∉ s.members port fp

/-- The address of the entry of `p`, if there is an entry. -/
def entryAddress (p : PeerId) (o : Option StickyPool) : Option (Option Multiaddr) :=
  (o.bind fun pool => pool.peers.find? fun e => e.peerId = p).map (·.address)

theorem directAddress_eq_entryAddress : s.directAddress port p = (entryAddress p (s.pools port)).join := by
  unfold StickyState.directAddress entryAddress
  cases s.pools port with
  | none => rfl
  | some pool =>
    show ((pool.peers.find? fun e => e.peerId = p).bind fun e => e.address) = _
    simp only [Option.bind_some]
    cases pool.peers.find? fun e => e.peerId = p <;> rfl

theorem entryAddress_eq_none_iff : entryAddress p (s.pools port) = none ↔ p ∉ s.stored port := by
  unfold entryAddress StickyState.stored
  cases s.pools port with
  | none => simp
  | some pool => simp [StickyPool.peerIds]

theorem members_eq_validPeers : s.members port fp = (validPeers fp (s.pools port)).map (·.peerId) := by
  unfold StickyState.members validPeers
  cases s.pools port with
  | none => rfl
  | some pool =>
    dsimp only
    split <;> rfl

/-- Where no entry of `p` is new, the address of `p` is lost or the same. -/
theorem entryAddress_kept {o' : Option StickyPool} (hnodup : ∀ pool ∈ o, pool.peerIds.Nodup)
    (h : ∀ kept ∈ o', ∀ e ∈ kept.peers, e.peerId = p → ∃ pool ∈ o, e ∈ pool.peers) :
    entryAddress p o' = none ∨ entryAddress p o' = entryAddress p o := by
  cases ho' : o' with
  | none => exact .inl rfl
  | some kept =>
    cases hfind : kept.peers.find? fun e => e.peerId = p with
    | none => exact .inl (by simp only [entryAddress, Option.bind_some, hfind, Option.map_none])
    | some e =>
      have he : e.peerId = p := by simpa using List.find?_some hfind
      obtain ⟨pool, hpool, hmem⟩ := h kept ho' e (List.mem_of_find?_eq_some hfind) he
      obtain rfl : o = some pool := hpool
      cases hfind' : pool.peers.find? fun e => e.peerId = p with
      | none => simpa [he] using List.find?_eq_none.1 hfind' e hmem
      | some e' =>
        have he' : e'.peerId = p := by simpa using List.find?_some hfind'
        obtain rfl := List.inj_on_of_nodup_map (hnodup pool rfl) hmem (List.mem_of_find?_eq_some hfind')
          (he.trans he'.symm)
        exact .inr (by simp only [entryAddress, Option.bind_some, hfind, hfind'])

/-- A remembered peer keeps its address if it was in the valid pool, and else has none. -/
theorem entryAddress_remember (now : DateTime) (fp : String) (max : Nat) :
    entryAddress p (some { fingerprint := fp, peers := rememberEntry now p max (validPeers fp o) }) =
      if p ∈ (validPeers fp o).map (·.peerId) then entryAddress p o else some none := by
  obtain ⟨entry, rest, he, -, hpeer, -, haddress⟩ := rememberEntry_eq_cons now p max (validPeers fp o)
  have hfront : entryAddress p (some { fingerprint := fp, peers := rememberEntry now p max (validPeers fp o) }) =
      some entry.address := by
    rw [he]
    simp [entryAddress, hpeer]
  rw [hfront, haddress]
  split
  · rename_i hm
    cases o with
    | none => cases hm
    | some pool =>
      have hvalid : validPeers fp (some pool) = pool.peers := by
        unfold validPeers at hm ⊢
        dsimp only at hm ⊢
        split at hm
        · rename_i hf; rw [if_pos hf]
        · cases hm
      rw [hvalid] at hm ⊢
      obtain ⟨e, hmem, hep⟩ := List.mem_map.1 hm
      cases hfind : pool.peers.find? fun e => e.peerId = p with
      | none => simpa [hep] using List.find?_eq_none.1 hfind e hmem
      | some e' => simp only [entryAddress, Option.bind_some, hfind, Option.map_some]
  · rename_i hm
    have hfind : ((validPeers fp o).find? fun e => e.peerId = p) = none := by
      refine List.find?_eq_none.2 fun e hmem hep => hm (List.mem_map.2 ⟨e, hmem, by simpa using hep⟩)
    rw [hfind]
    rfl

theorem find_noteEntry (address : Multiaddr) (l : List StickyPeer) :
    ((noteEntry peer address l).find? fun e => e.peerId = p).map (·.address) =
      ((l.find? fun e => e.peerId = p).map (·.address)).map fun old =>
        ((noteDirectAddress peer address).noted p).or old := by
  induction l with
  | nil => rfl
  | cons e es ih =>
    unfold noteEntry
    by_cases he : e.peerId = peer
    · rw [if_pos he]
      by_cases hp : peer = p
      · have hfront : ∀ e' : StickyPeer, e'.peerId = e.peerId → (e' :: es).find? (fun e => e.peerId = p) = some e' :=
          fun e' h => List.find?_cons_of_pos (by simp [h, he, hp])
        rw [hfront e rfl, hfront _ (by split <;> rfl)]
        simp only [Option.map_some, noted, hp, if_true, Option.some_or]
        split
        · rfl
        · rename_i ha
          exact congrArg some (by simpa using ha)
      · have hskip : ∀ e' : StickyPeer, e'.peerId = e.peerId →
            (e' :: es).find? (fun e => e.peerId = p) = es.find? fun e => e.peerId = p :=
          fun e' h => List.find?_cons_of_neg (by simp [h, he, hp])
        rw [hskip e rfl, hskip _ (by split <;> rfl)]
        simp [noted, hp, Function.comp_def]
    · rw [if_neg he]
      by_cases hp : e.peerId = p
      · have hne : peer ≠ p := fun h => he (hp.trans h.symm)
        simp [List.find?_cons_of_pos, hp, noted, hne]
      · rw [List.find?_cons_of_neg (by simpa using hp), List.find?_cons_of_neg (by simpa using hp), ih]

theorem entryAddress_noteDirectAddress (address : Multiaddr) :
    entryAddress p (onPool port (.noteDirectAddress peer address) o) =
      (entryAddress p o).map fun old => ((noteDirectAddress peer address).noted p).or old := by
  cases o with
  | none => rfl
  | some pool => exact find_noteEntry address pool.peers

/-- A call that neither remembers `p` for the port nor notes an address adds no entry of `p`. -/
theorem onPool_entries {o : Option StickyPool} (hop : ∀ now fp max, op ≠ .remember now port fp p max)
    (hnote : ∀ peer address, op ≠ .noteDirectAddress peer address) :
    ∀ kept ∈ op.onPool port o, ∀ e ∈ kept.peers, e.peerId = p → ∃ pool ∈ o, e ∈ pool.peers := by
  intro kept hkept e he hp
  cases op with
  | pool q fp =>
    simp only [onPool] at hkept
    split at hkept
    · exact ⟨kept, (Option.mem_filter_iff.1 hkept).1, he⟩
    · exact ⟨kept, hkept, he⟩
  | directAddress q peer => exact ⟨kept, hkept, he⟩
  | remember now q fp peer max =>
    simp only [onPool] at hkept
    split at hkept
    · rename_i hq
      obtain rfl := Option.mem_some_iff.1 hkept
      obtain ⟨entry, rest, hentries, hsub, hpeer, -, -⟩ := rememberEntry_eq_cons now peer max (validPeers fp o)
      -- the new entry is not the one of `p`
      have hne : peer ≠ p := by
        rintro rfl
        exact hop now fp max (hq ▸ rfl)
      change e ∈ rememberEntry now peer max (validPeers fp o) at he
      rw [hentries] at he
      rcases List.mem_cons.1 he with rfl | he
      · exact absurd (hpeer.symm.trans hp) hne
      · cases o with
        | none => cases hsub.subset he
        | some pool => exact ⟨pool, rfl, ((hsub.trans (validPeers_sublist fp pool)).subset he)⟩
    · exact ⟨kept, hkept, he⟩
  | noteDirectAddress peer address => exact absurd rfl (hnote peer address)
  | forgetPeer q peer =>
    simp only [onPool] at hkept
    split at hkept
    · obtain ⟨hmap, -⟩ := Option.mem_filter_iff.1 hkept
      obtain ⟨pool, hpool, rfl⟩ := Option.map_eq_some_iff.1 hmap
      exact ⟨pool, hpool, List.mem_of_mem_filter he⟩
    · exact ⟨kept, hkept, he⟩
  | snapshot q fp => exact ⟨kept, hkept, he⟩

/-- A call drops the entry of `p`, makes one without an address, or keeps it with the address that it notes. -/
theorem entryAddress_apply (hs : s.PoolsNodup) (port : Port) (p : PeerId) (op : StickyOp) :
    entryAddress p ((op.apply s).pools port) = none ∨
    (Enters s port p op ∧ entryAddress p ((op.apply s).pools port) = some none) ∨
    (¬Enters s port p op ∧ ∃ old, entryAddress p (s.pools port) = some old ∧
      entryAddress p ((op.apply s).pools port) = some ((op.noted p).or old)) := by
  have hnodup : ∀ pool ∈ s.pools port, pool.peerIds.Nodup := by
    intro pool hpool
    have h := hs port
    rw [StickyState.stored, show s.pools port = some pool from hpool] at h
    exact h
  rw [apply_pools]
  by_cases hremember : ∃ now fp max, op = .remember now port fp p max
  · obtain ⟨now, fp, max, rfl⟩ := hremember
    rw [onPool, if_pos rfl, entryAddress_remember, ← members_eq_validPeers]
    split
    · rename_i hm
      refine (Option.eq_none_or_eq_some (entryAddress p (s.pools port))).imp_right ?_
      rintro ⟨old, hold⟩
      refine .inr ⟨?_, old, hold, hold⟩
      rintro ⟨now', fp', max', heq, hn⟩
      obtain ⟨-, -, rfl, -, -⟩ := StickyOp.remember.inj heq
      exact hn hm
    · rename_i hm
      exact .inr (.inl ⟨⟨now, fp, max, rfl, hm⟩, rfl⟩)
  · have hstays : ¬Enters s port p op := by
      rintro ⟨now, fp, max, he, -⟩
      exact hremember ⟨now, fp, max, he⟩
    by_cases hnote : ∃ peer address, op = .noteDirectAddress peer address
    · obtain ⟨peer, address, rfl⟩ := hnote
      rw [entryAddress_noteDirectAddress]
      refine (Option.eq_none_or_eq_some (entryAddress p (s.pools port))).imp ?_ ?_
      · intro h; rw [h]; rfl
      · rintro ⟨old, hold⟩
        exact .inr ⟨hstays, old, hold, by rw [hold]; rfl⟩
    · have hnoted : op.noted p = none := by
        cases op with
        | noteDirectAddress peer address => exact absurd ⟨peer, address, rfl⟩ hnote
        | _ => rfl
      rcases entryAddress_kept hnodup (onPool_entries (fun now fp max he => hremember ⟨now, fp, max, he⟩)
        fun peer address he => hnote ⟨peer, address, he⟩) with h | h
      · exact .inl h
      · rw [h, hnoted]
        refine (Option.eq_none_or_eq_some (entryAddress p (s.pools port))).imp_right ?_
        rintro ⟨old, hold⟩
        exact .inr ⟨hstays, old, hold, hold⟩

/-- The last address that the calls note for `p`. -/
def lastNoted (p : PeerId) (ops : List StickyOp) : Option Multiaddr := (ops.filterMap (noted p)).getLast?

/-- The calls `post` follow the last call of `ops` by which `p` entered the pool of `port`. -/
def SinceEntry (port : Port) (p : PeerId) (ops post : List StickyOp) : Prop :=
  ∃ pre op, ops = pre ++ op :: post ∧ Enters (run pre StickyState.empty) port p op ∧
    ∀ l op' l', post = l ++ op' :: l' → ¬Enters (run (pre ++ op :: l) StickyState.empty) port p op'

/-- A member's address is the last one noted since it entered the pool. -/
theorem run_entryAddress {address : Option Multiaddr}
    (h : entryAddress p ((run ops StickyState.empty).pools port) = some address) :
    ∃ post, SinceEntry port p ops post ∧ address = lastNoted p post := by
  induction ops using List.reverseRecOn generalizing address with
  | nil => cases h
  | append_singleton ops op ih =>
    rw [run_concat] at h
    rcases entryAddress_apply (run_nodup ops) port p op with hn | ⟨henters, hy⟩ | ⟨hstays, old, hold, hy⟩
    · rw [hn] at h; cases h
    · rw [hy] at h
      obtain rfl := Option.some.inj h
      exact ⟨[], ⟨ops, op, rfl, henters, by simp⟩, rfl⟩
    · rw [hy] at h
      obtain rfl := Option.some.inj h
      obtain ⟨post, ⟨pre, entry, rfl, henters, hlast⟩, rfl⟩ := ih hold
      refine ⟨post ++ [op], ⟨pre, entry, by simp, henters, fun l op' l' hl => ?_⟩, ?_⟩
      · rcases List.eq_nil_or_concat l' with rfl | ⟨l'', last, rfl⟩
        · obtain ⟨rfl, rfl⟩ := List.append_inj' hl rfl |>.imp id fun h => (List.cons.inj h).1
          exact hstays
        · refine hlast l op' l'' ?_
          rw [List.concat_eq_append, ← List.cons_append, ← List.append_assoc] at hl
          exact (List.append_inj' hl rfl).1
      · unfold lastNoted
        rw [List.filterMap_append, List.getLast?_append]
        cases hnoted : op.noted p <;> simp [hnoted]

/-! ### Together -/

/-- `s`, the store after the calls `ops` from the empty one, holds most-recently-used lists. -/
structure IsLru (ops : List StickyOp) (s : StickyState) : Prop where
  pools : ∀ port pool, s.pools port = some pool →
    pool.peers ≠ [] ∧ pool.peerIds.Nodup ∧ (pool.peers.map (·.updatedAt)).Pairwise (· ≥ ·)
  row : ∀ port fp max more, (∀ op ∈ more, op.Continues port fp max) → more.filterMap (remembered port) ≠ [] →
    ((run more s).pool port fp).1 =
      ((more.filterMap (remembered port)).reverse ++ (s.pool port fp).1).eraseDups.take (Max.max 1 max)
  remember_eq_false : ∀ now port fp peer max,
    (s.remember now port fp peer max).1 = false ↔ (s.pool port fp).1.head? = some peer
  directAddress_of_notMem : ∀ port p, p ∉ s.stored port → s.directAddress port p = none
  directAddress_of_mem : ∀ port p, p ∈ s.stored port →
    ∃ post, SinceEntry port p ops post ∧ s.directAddress port p = lastNoted p post
  snapshot_peerId : ∀ port fp, (s.snapshot port fp).map (·.peerId) = (s.pool port fp).1

theorem remember_eq_false_iff :
    (s.remember now port fp peer max).1 = false ↔ (s.pool port fp).1.head? = some peer := by
  rw [StickyState.pool_fst]
  unfold StickyState.remember StickyState.members
  cases s.pools port with
  | none => simp
  | some pool => by_cases hf : pool.fingerprint = fp <;> simp [hf, StickyPool.peerIds]

theorem snapshot_map_peerId : (s.snapshot port fp).map (·.peerId) = (s.pool port fp).1 := by
  rw [StickyState.pool_fst]
  unfold StickyState.snapshot StickyState.members
  cases s.pools port with
  | none => rfl
  | some pool => by_cases hf : pool.fingerprint = fp <;> simp [hf, StickyPool.peerIds]

/-- After every sequence of calls from the empty store, with a clock that does not go back, the store holds
most-recently-used lists. -/
theorem sticky_lru (ops : List StickyOp) (hclock : Clocked ops) : IsLru ops (run ops StickyState.empty) where
  pools port pool hpool := by
    obtain ⟨hne, hsorted, -⟩ := run_ordered hclock pool hpool
    have hnodup := run_nodup ops port
    rw [StickyState.stored, hpool] at hnodup
    exact ⟨hne, hnodup, hsorted⟩
  row port fp max more hmore hne := by
    rw [StickyState.pool_fst, StickyState.pool_fst, members_run hmore]
    exact Interaction.foldl_promote (run_nodup ops).members hne
  remember_eq_false _ _ _ _ _ := remember_eq_false_iff
  directAddress_of_notMem port p hp := by
    rw [directAddress_eq_entryAddress, entryAddress_eq_none_iff.2 hp]
    rfl
  directAddress_of_mem port p hp := by
    rw [directAddress_eq_entryAddress]
    cases haddress : entryAddress p ((run ops StickyState.empty).pools port) with
    | none => exact absurd hp (entryAddress_eq_none_iff.1 haddress)
    | some address => exact run_entryAddress haddress
  snapshot_peerId _ _ := snapshot_map_peerId

/-- Two exits are remembered and an address is noted for the second. -/
theorem sticky_lru_two :
    let ops : List StickyOp :=
      [.remember 1 1080 "NL" ⟨[1]⟩ 2, .remember 1 1080 "NL" ⟨[2]⟩ 2, .noteDirectAddress ⟨[2]⟩ []]
    IsLru ops (run ops StickyState.empty) :=
  sticky_lru _ (by unfold Clocked; decide)

end StickyOp

end P2Proxy
