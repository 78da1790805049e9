import P2Proxy.Config

/-!
# The text of a pinned entry

An operator writes an entry of the pinned list as a peer id, or as an address that ends in one.  The parser takes the
last `/p2p/` component of an address, wherever it stands, so it also reads addresses that lead on from that peer:
`fromStr_grammar_iff` says for which texts it is right.  What is read is printed so that it is read again
(`display_canonical`).
-/

namespace P2Proxy

namespace DestinationPeerEntry

/-! ### What the parser reads -/

/-- The text without the white space around it. -/
def trimmed (input : String) : String := String.ofList (trim input.toList)

/-- The text is meant as an address. -/
def IsAddress (input : String) : Prop := (trim input.toList).head? = some '/'

instance (input : String) : Decidable (IsAddress input) :=
  inferInstanceAs (Decidable ((trim input.toList).head? = some '/'))

/-- The entries of the pinned list, as an operator is to write them: a peer id, `/p2p/<id>` alone, or a longer address
that ends in it. -/
inductive Denotes (lib : Parsers) (input : String) : DestinationPeerEntry → Prop
  | peer {peerId : PeerId} : ¬IsAddress input → lib.peerId (trimmed input) = .ok peerId →
      Denotes lib input { peerId, address := none }
  | pin {peerId : PeerId} : IsAddress input → lib.multiaddr (trimmed input) = .ok [.p2p peerId] →
      Denotes lib input { peerId, address := none }
  | address {peerId : PeerId} {addr : Multiaddr} : IsAddress input → lib.multiaddr (trimmed input) = .ok addr →
      addr.getLast? = some (.p2p peerId) → addr.length ≠ 1 → Denotes lib input { peerId, address := some addr }

/-- An address that names a peer ends in that name. -/
def EndsInPeer (addr : Multiaddr) : Prop := ∀ p, lastP2p addr = some p → addr.getLast? = some (.p2p p)

variable {lib : Parsers} {input : String} {addr : Multiaddr} {entry : DestinationPeerEntry} {p : PeerId}

theorem fromMultiaddr_eq_some_iff : fromMultiaddr addr = some entry ↔
    lastP2p addr = some entry.peerId ∧ entry.address = if addr.length = 1 then none else some addr := by
  obtain ⟨peerId, address⟩ := entry
  unfold fromMultiaddr
  cases hp : lastP2p addr with
  | none => simp
  | some p => simp [eq_comm]

/-- The parser reads a text without a leading slash as a peer id, and any other as an address. -/
theorem fromStr_eq_ok_iff (hempty : ∀ p, lib.peerId "" ≠ .ok p) : fromStr lib input = .ok entry ↔
    (¬IsAddress input ∧ lib.peerId (trimmed input) = .ok entry.peerId ∧ entry.address = none) ∨
      ∃ addr, IsAddress input ∧ lib.multiaddr (trimmed input) = .ok addr ∧ fromMultiaddr addr = some entry := by
  unfold fromStr IsAddress trimmed
  dsimp only
  by_cases hnil : trim input.toList = []
  · have hpeer := hempty entry.peerId
    simp [hnil, hpeer]
  · rw [if_neg hnil]
    by_cases haddr : (trim input.toList).head? = some '/'
    · rw [if_neg (not_not.2 haddr)]
      cases hparse : lib.multiaddr (String.ofList (trim input.toList)) with
      | error e => simp [haddr]
      | ok addr =>
        cases hentry : fromMultiaddr addr with
        | none => simp [haddr, hentry]
        | some e => simp [haddr, hentry]
    · rw [if_pos haddr]
      cases hparse : lib.peerId (String.ofList (trim input.toList)) with
      | error e => simp [haddr]
      | ok p =>
        obtain ⟨peerId, address⟩ := entry
        simp [haddr, eq_comm]

theorem eq_single_of_lastP2p (h : addr.length = 1) (hp : lastP2p addr = some p) : addr = [.p2p p] := by
  obtain ⟨c, rfl⟩ := List.length_eq_one_iff.1 h
  cases c with
  | p2p q => simpa [lastP2p, Protocol.peer?] using hp
  | _ => simp [lastP2p, Protocol.peer?] at hp

/-- What an operator is to write is read as it is meant. -/
theorem Denotes.fromStr (hempty : ∀ p, lib.peerId "" ≠ .ok p) (h : Denotes lib input entry) :
    fromStr lib input = .ok entry := by
  refine (fromStr_eq_ok_iff hempty).2 ?_
  cases h with
  | peer hslash hparse => exact .inl ⟨hslash, hparse, rfl⟩
  | pin hslash hparse => exact .inr ⟨_, hslash, hparse, fromMultiaddr_eq_some_iff.2 ⟨lastP2p_append_p2p [] _, rfl⟩⟩
  | address hslash hparse hlast hlong =>
    exact .inr ⟨_, hslash, hparse, fromMultiaddr_eq_some_iff.2 ⟨lastP2p_of_getLast? hlast, (if_neg hlong).symm⟩⟩

/-- The parser reads exactly the entries that an operator is to write, and as they are meant, iff the text is no address
that names a peer and leads on from it. -/
theorem fromStr_grammar_iff (hempty : ∀ p, lib.peerId "" ≠ .ok p) :
    (∀ entry, fromStr lib input = .ok entry ↔ Denotes lib input entry) ↔
      ∀ addr, IsAddress input → lib.multiaddr (trimmed input) = .ok addr → EndsInPeer addr := by
  constructor
  · intro h addr hslash hparse p hp
    have haccepted : fromStr lib input = .ok { peerId := p, address := if addr.length = 1 then none else some addr } :=
      (fromStr_eq_ok_iff hempty).2 (.inr ⟨addr, hslash, hparse, fromMultiaddr_eq_some_iff.2 ⟨hp, rfl⟩⟩)
    by_cases hone : addr.length = 1
    · rw [eq_single_of_lastP2p hone hp]
      rfl
    · rw [if_neg hone] at haccepted
      cases (h _).1 haccepted with
      | address _ _ hlast _ => exact hlast
  · intro h entry
    refine ⟨fun haccepted => ?_, fun hdenotes => hdenotes.fromStr hempty⟩
    rcases (fromStr_eq_ok_iff hempty).1 haccepted with ⟨hslash, hparse, haddr⟩ | ⟨addr, hslash, hparse, hentry⟩
    · obtain ⟨peerId, address⟩ := entry
      obtain rfl : address = none := haddr
      exact .peer hslash hparse
    · obtain ⟨peerId, address⟩ := entry
      obtain ⟨hp, haddr⟩ := fromMultiaddr_eq_some_iff.1 hentry
      have hp : lastP2p addr = some peerId := hp
      have haddr : address = if addr.length = 1 then none else some addr := haddr
      by_cases hone : addr.length = 1
      · rw [if_pos hone] at haddr
        rw [eq_single_of_lastP2p hone hp] at hparse
        exact haddr ▸ .pin hslash hparse
      · rw [if_neg hone] at haddr
        exact haddr ▸ .address hslash hparse (h addr hslash hparse peerId hp) hone

section Fixture

private def relay : PeerId := ⟨[1]⟩

private def exit : PeerId := ⟨[2]⟩

/-- Parsers that are asked about one address only. -/
private def reading (text : String) (addr : Multiaddr) : Parsers where
  peerId _ := .error "base-58 decode error"
  multiaddr s := if s = text then .ok addr else .error "unknown protocol string"
  isPrintable _ := true

private theorem reading_trimmed {text : String} {addr : Multiaddr} (h : trimmed input = text) :
    (reading text addr).multiaddr (trimmed input) = .ok addr := if_pos h

private theorem reading_empty {text : String} (p : PeerId) : (reading text addr).peerId "" ≠ .ok p := nofun

/-- A circuit that leads through a relay to the exit. -/
theorem fromStr_grammar_iff_circuit :
    let lib := reading "/p2p/2/p2p-circuit/p2p/3" [.p2p relay, .p2pCircuit, .p2p exit]
    ∀ entry, fromStr lib " /p2p/2/p2p-circuit/p2p/3" = .ok entry ↔ Denotes lib " /p2p/2/p2p-circuit/p2p/3" entry := by
  intro lib
  refine (fromStr_grammar_iff reading_empty).2 fun addr _ hparse p hp => ?_
  obtain rfl : [Protocol.p2p relay, .p2pCircuit, .p2p exit] = addr := by
    exact Except.ok.inj ((reading_trimmed (by decide)).symm.trans hparse)
  have hexit : lastP2p [.p2p relay, .p2pCircuit, .p2p exit] = some exit := by decide
  rw [hexit, Option.some.injEq] at hp
  rw [← hp]
  rfl

/-- A circuit without a destination pins its relay. -/
theorem relay_pinned :
    let lib := reading "/p2p/2/p2p-circuit" [.p2p relay, .p2pCircuit]
    fromStr lib "/p2p/2/p2p-circuit" = .ok { peerId := relay, address := some [.p2p relay, .p2pCircuit] } ∧
      ¬∀ entry, fromStr lib "/p2p/2/p2p-circuit" = .ok entry ↔ Denotes lib "/p2p/2/p2p-circuit" entry := by
  intro lib
  have haccepted : fromStr lib "/p2p/2/p2p-circuit" =
      .ok { peerId := relay, address := some [.p2p relay, .p2pCircuit] } :=
    (fromStr_eq_ok_iff reading_empty).2 (.inr ⟨_, by decide, reading_trimmed (by decide), by decide⟩)
  refine ⟨haccepted, fun hexact => ?_⟩
  cases (hexact _).1 haccepted with
  | address _ _ hlast _ => exact absurd hlast (by decide)

end Fixture

/-! ### What is printed -/

/-- `Display`: the address, if there is one, names the peer itself. -/
def display (print : Multiaddr → String) (entry : DestinationPeerEntry) : String :=
  match entry.address with
  | some addr => print addr
  | none => toString entry.peerId

/-- An entry is written as the string that it is displayed as, and read by the parser. -/
def serialize (print : Multiaddr → String) (entry : DestinationPeerEntry) : String := entry.display print

def deserialize (lib : Parsers) (raw : String) : Except String DestinationPeerEntry := fromStr lib raw

/-- The peer and the address of the entry are read again as they are printed, and printed without white space around
them. -/
structure RoundTrips (lib : Parsers) (print : Multiaddr → String) (entry : DestinationPeerEntry) : Prop where
  peer_parse : lib.peerId (toString entry.peerId) = .ok entry.peerId
  addr_parse : ∀ addr ∈ entry.address, lib.multiaddr (print addr) = .ok addr
  addr_head : ∀ addr ∈ entry.address, (print addr).toList.head? = some '/'
  addr_trim : ∀ addr ∈ entry.address, trim (print addr).toList = (print addr).toList

theorem base58_plain {c : Char} (h : c ∈ base58Alphabet) : isWhiteSpace c = false ∧ c ≠ '/' := by
  have hall : base58Alphabet.all (fun c => !isWhiteSpace c && c ≠ '/') = true := by decide +kernel
  simpa using List.all_eq_true.1 hall c h

/-- A peer id is printed in base 58. -/
theorem mem_base58Alphabet {c : Char} (h : c ∈ (toString p).toList) : c ∈ base58Alphabet := by
  have h : c ∈ (PeerId.toBase58 p).toList := h
  unfold PeerId.toBase58 at h
  rw [String.toList_ofList, List.mem_append] at h
  rcases h with h | h
  · obtain ⟨_, -, rfl⟩ := List.mem_map.1 h
    decide
  · obtain ⟨d, -, rfl⟩ := List.mem_map.1 h
    rw [List.getD_eq_getElem?_getD]
    cases hd : base58Alphabet[d]? with
    | none => decide
    | some c => exact List.mem_of_getElem? hd

theorem trim_of_plain {chars : List Char} (h : ∀ c ∈ chars, isWhiteSpace c = false) : trim chars = chars := by
  have hdrop : ∀ l : List Char, (∀ c ∈ l, isWhiteSpace c = false) → l.dropWhile isWhiteSpace = l := by
    intro l hl
    cases l with
    | nil => rfl
    | cons c l => rw [List.dropWhile_cons_of_neg (by simp [hl c])]
  rw [trim, hdrop chars h, hdrop chars.reverse fun c hc => h c (List.mem_reverse.1 hc), List.reverse_reverse]

/-- The address of an entry that was read gives the entry. -/
theorem fromMultiaddr_of_fromStr (hempty : ∀ p, lib.peerId "" ≠ .ok p) (h : fromStr lib input = .ok entry)
    (haddr : addr ∈ entry.address) : fromMultiaddr addr = some entry := by
  rcases (fromStr_eq_ok_iff hempty).1 h with ⟨-, -, hnone⟩ | ⟨read, -, -, hentry⟩
  · rw [hnone] at haddr
    cases haddr
  · have haddr' := (fromMultiaddr_eq_some_iff.1 hentry).2
    by_cases hone : read.length = 1
    · rw [haddr', if_pos hone] at haddr
      cases haddr
    · rw [haddr', if_neg hone] at haddr
      exact Option.some.inj haddr ▸ hentry

/-- What the parser has read is read again from what is printed. -/
theorem fromStr_display {print : Multiaddr → String} (hempty : ∀ p, lib.peerId "" ≠ .ok p)
    (h : fromStr lib input = .ok entry) (hround : entry.RoundTrips lib print) :
    fromStr lib (entry.display print) = .ok entry := by
  refine (fromStr_eq_ok_iff hempty).2 ?_
  unfold display IsAddress trimmed
  cases haddress : entry.address with
  | none =>
    have hplain : trim (toString entry.peerId).toList = (toString entry.peerId).toList :=
      trim_of_plain fun c hc => (base58_plain (mem_base58Alphabet hc)).1
    dsimp only
    rw [hplain, String.ofList_toList]
    refine .inl ⟨fun hhead => ?_, hround.peer_parse, rfl⟩
    exact (base58_plain (mem_base58Alphabet (List.mem_of_head? hhead))).2 rfl
  | some addr =>
    have haddr : addr ∈ entry.address := haddress
    dsimp only
    rw [hround.addr_trim addr haddr, String.ofList_toList]
    exact .inr ⟨addr, hround.addr_head addr haddr, hround.addr_parse addr haddr,
      fromMultiaddr_of_fromStr hempty h haddr⟩

/-- What was read is written so that the same is read again, and two entries are equal iff they print the same. -/
theorem display_canonical {print : Multiaddr → String} {input₁ input₂ : String} {entry₁ entry₂ : DestinationPeerEntry}
    (hempty : ∀ p, lib.peerId "" ≠ .ok p) (h₁ : fromStr lib input₁ = .ok entry₁) (h₂ : fromStr lib input₂ = .ok entry₂)
    (hround₁ : entry₁.RoundTrips lib print) (hround₂ : entry₂.RoundTrips lib print) :
    fromStr lib (entry₁.display print) = .ok entry₁ ∧ deserialize lib (entry₁.serialize print) = .ok entry₁ ∧
      (entry₁ = entry₂ ↔ entry₁.display print = entry₂.display print) := by
  have hread₁ := fromStr_display hempty h₁ hround₁
  have hread₂ := fromStr_display hempty h₂ hround₂
  refine ⟨hread₁, hread₁, ?_⟩
  constructor
  · intro h
    rw [h]
  · intro h
    rw [← h] at hread₂
    exact Except.ok.inj (hread₁.symm.trans hread₂)

section Fixture

private def circuit : Multiaddr := [.p2p relay, .p2pCircuit, .p2p exit]

/-- Parsers and printer that know the exit, and the circuit to it. -/
private def known : Parsers where
  peerId s := if s = "3" then .ok exit else .error "base-58 decode error"
  multiaddr s := if s = "/p2p/2/p2p-circuit/p2p/3" then .ok circuit else .error "unknown protocol string"
  isPrintable _ := true

private def printed (addr : Multiaddr) : String := if addr = circuit then "/p2p/2/p2p-circuit/p2p/3" else ""

private theorem toString_exit : toString exit = "3" := by decide +kernel

private theorem exit_roundTrips : RoundTrips known printed { peerId := exit, address := none } where
  peer_parse := by rw [toString_exit]; rfl
  addr_parse _ h := nomatch h
  addr_head _ h := nomatch h
  addr_trim _ h := nomatch h

private theorem circuit_roundTrips : RoundTrips known printed { peerId := exit, address := some circuit } where
  peer_parse := exit_roundTrips.peer_parse
  addr_parse := by rintro _ ⟨⟩; rfl
  addr_head := by rintro _ ⟨⟩; decide
  addr_trim := by rintro _ ⟨⟩; decide

/-- The exit alone, and the circuit to it. -/
theorem display_canonical_exit :
    deserialize known (serialize printed { peerId := exit, address := none }) =
      .ok { peerId := exit, address := none } ∧
      ¬display printed { peerId := exit, address := none } =
        display printed { peerId := exit, address := some circuit } := by
  have hempty : ∀ p, known.peerId "" ≠ .ok p := nofun
  have hexit : fromStr known " 3" = .ok { peerId := exit, address := none } :=
    (fromStr_eq_ok_iff hempty).2 (.inl ⟨by decide, by decide, rfl⟩)
  have hcircuit : fromStr known "/p2p/2/p2p-circuit/p2p/3" = .ok { peerId := exit, address := some circuit } :=
    (fromStr_eq_ok_iff hempty).2 (.inr ⟨circuit, by decide, by decide, by decide⟩)
  have h := display_canonical hempty hexit hcircuit exit_roundTrips circuit_roundTrips
  refine ⟨h.2.1, fun hsame => ?_⟩
  have hequal := h.2.2.2 hsame
  cases hequal

end Fixture

end DestinationPeerEntry

end P2Proxy
