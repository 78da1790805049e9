import Mathlib

/-!
# Peer ids and multiaddresses

A peer id is its multihash, printed in base58.  A multiaddress is the list of its components; the code looks only at
the `/p2p/<id>` and `/p2p-circuit` components, every other one (`/ip4/…`, `/tcp/…`, `/dnsaddr/…`) is carried along as
its protocol code and payload.  The peer an address leads to is named by its last `/p2p/` component (`lastP2p`).
-/

namespace P2Proxy

structure PeerId where
  multihash : List UInt8
deriving DecidableEq, Repr

/-- The base58 alphabet of the printed form. -/
def base58Alphabet : List Char :=
  "123456789ABCDEFGHJKLMNPQRSTUVWXYZabcdefghijkmnopqrstuvwxyz".toList

/-- The base58 digits of `n`, most significant first. -/
def base58Digits (n : Nat) : List Char :=
  ((Nat.digits 58 n).reverse).map fun d => base58Alphabet.getD d '1'

/-- `PeerId`'s `Display`: every leading zero byte is a `1`, the rest is one number in base 58. -/
def PeerId.toBase58 (p : PeerId) : String :=
  let zeros := p.multihash.takeWhile (· = 0)
  let value := p.multihash.foldl (fun n b => n * 256 + b.toNat) 0
  String.ofList (zeros.map (fun _ => '1') ++ base58Digits value)

instance : ToString PeerId := ⟨PeerId.toBase58⟩

inductive Protocol
  | p2p (peer : PeerId)
  | p2pCircuit
  | other (code : Nat) (payload : List UInt8)
deriving DecidableEq, Repr

abbrev Multiaddr := List Protocol

/-- `addr.with_p2p(peer)`: append `/p2p/<peer>` unless the address already ends in it; an address that ends in
another peer is handed back as the error. -/
def Multiaddr.withP2p (addr : Multiaddr) (peer : PeerId) : Except Multiaddr Multiaddr :=
  match addr.getLast? with
  | some (.p2p p) => if p = peer then .ok addr else .error addr
  | _ => .ok (addr ++ [.p2p peer])

def Protocol.peer? : Protocol → Option PeerId
  | .p2p pid => some pid
  | _ => none

def isRelayed (addr : Multiaddr) : Bool := addr.any fun p => p = .p2pCircuit

def lastP2p (addr : Multiaddr) : Option PeerId := (addr.filterMap Protocol.peer?).getLast?

def destinationPeerIds (addresses : Finset Multiaddr) : Finset PeerId :=
  addresses.biUnion fun a => (lastP2p a).toFinset

/-- Split routes into direct ones and relay circuits. -/
def partitionDirectFirst (addrs : Finset Multiaddr) : Finset Multiaddr × Finset Multiaddr :=
  (addrs.filter fun a => ¬isRelayed a, addrs.filter fun a => isRelayed a)

/-- The `<relay>/p2p-circuit/p2p/<id>` route through the bootstrap hub. -/
def synthesizeCircuit (relayAddress : Multiaddr) (peer : PeerId) : Option Multiaddr :=
  match Multiaddr.withP2p (relayAddress ++ [.p2pCircuit]) peer with
  | .ok addr => some addr
  | .error _ => none

theorem mem_destinationPeerIds {addresses : Finset Multiaddr} {p : PeerId} :
    p ∈ destinationPeerIds addresses ↔ ∃ a ∈ addresses, lastP2p a = some p := by
  simp [destinationPeerIds]

@[simp] theorem lastP2p_append_p2p (addr : Multiaddr) (p : PeerId) :
    lastP2p (addr ++ [.p2p p]) = some p := by
  simp [lastP2p, Protocol.peer?]

/-- An address that ends in `/p2p/<p>` leads to `p`. -/
theorem lastP2p_of_getLast? {addr : Multiaddr} {p : PeerId} (h : addr.getLast? = some (.p2p p)) :
    lastP2p addr = some p := by
  obtain ⟨l, rfl⟩ := List.getLast?_eq_some_iff.1 h
  exact lastP2p_append_p2p l p

/-- A tagged address leads to the peer it was tagged with. -/
theorem lastP2p_withP2p {addr tagged : Multiaddr} {p : PeerId} (h : addr.withP2p p = .ok tagged) :
    lastP2p tagged = some p := by
  unfold Multiaddr.withP2p at h
  split at h
  · rename_i q hq
    split at h
    · rename_i hqp
      simp only [Except.ok.injEq] at h
      subst h hqp
      exact lastP2p_of_getLast? hq
    · cases h
  · simp only [Except.ok.injEq] at h
    subst h
    exact lastP2p_append_p2p addr p

@[simp] theorem synthesizeCircuit_eq (relayAddress : Multiaddr) (p : PeerId) :
    synthesizeCircuit relayAddress p = some (relayAddress ++ [.p2pCircuit] ++ [.p2p p]) := by
  simp [synthesizeCircuit, Multiaddr.withP2p]

theorem lastP2p_synthesizeCircuit {relayAddress addr : Multiaddr} {p : PeerId}
    (h : synthesizeCircuit relayAddress p = some addr) : lastP2p addr = some p := by
  rw [synthesizeCircuit_eq, Option.some.injEq] at h
  subst h
  exact lastP2p_append_p2p _ p

example : lastP2p [.other 54 [98], .p2p ⟨[1]⟩, .p2pCircuit, .p2p ⟨[2]⟩] = some ⟨[2]⟩ := by decide

theorem partitionDirectFirst_union (addrs : Finset Multiaddr) :
    (partitionDirectFirst addrs).1 ∪ (partitionDirectFirst addrs).2 = addrs := by
  ext a
  simp only [partitionDirectFirst, Finset.mem_union, Finset.mem_filter]
  by_cases h : isRelayed a <;> simp [h]

end P2Proxy
