import P2Proxy.Fingerprint
import P2Proxy.Provenance
import P2Proxy.Resolving

/-!
# The filters on their way to the hub

The filters of a server become the requirements and exclusions of a `FindNodes` request.  The two speak different
languages, as hosting is the complement of the hub's `residential`, and the least bandwidth travels as a float; but they
select the same nodes (`selects_iff`), up to the rounding.  So a hub that returns only what a request selects gives a
server no exit that its filters forbid (`exits_admitted`).
-/

namespace P2Proxy

open Interaction

/-! ### Requirements -/

inductive ProxyRestriction
  | allow
  | disallow
  | only
deriving DecidableEq

inductive NetworkPolicy
  | allowed
  | denied
  | required
deriving DecidableEq

structure Requirements where
  countries : List String
  cities : List String
  isps : List String
  asns : List UInt32
  proxy : ProxyRestriction
  mobile : NetworkPolicy
  residential : NetworkPolicy

def proxyRestriction : FilterPolicy → ProxyRestriction
  | .allow => .allow
  | .deny => .disallow
  | .require => .only

def networkPolicy : FilterPolicy → NetworkPolicy
  | .allow => .allowed
  | .deny => .denied
  | .require => .required

/-- Hosting is the inverse of the hub's `residential`. -/
def residentialPolicy : FilterPolicy → NetworkPolicy
  | .allow => .allowed
  | .require => .denied
  | .deny => .required

def requirementsFromFilters (filters : NodeFilters) : Requirements where
  countries := filters.country.toList
  cities := filters.city.toList
  isps := filters.isp.toList
  asns := filters.asn.toList
  proxy := proxyRestriction filters.proxy
  mobile := networkPolicy filters.mobile
  residential := residentialPolicy filters.hosting

/-! ### Exclusions -/

/-- `n as f64`: the nearest number with 53 significant bits, of two the even one. -/
def asF64 (n : Nat) : Nat :=
  let ulp := 2 ^ (n.log2 - 52)
  let q := n / ulp
  let r := n % ulp
  if ulp < 2 * r ∨ 2 * r = ulp ∧ q % 2 = 1 then (q + 1) * ulp else q * ulp

/-- The rounding is exact as long as the number has 53 bits. -/
theorem asF64_eq {n : Nat} (h : n < 2 ^ 53) : asF64 n = n := by
  have hlog : n.log2 - 52 = 0 := by
    by_cases hn : n = 0
    · subst hn
      rfl
    · have hlt : n.log2 < 53 := (Nat.log2_lt hn).2 h
      omega
  unfold asF64
  rw [hlog]
  simp [Nat.mod_one]

/-- The rounding loses at most one part in `2 ^ 53`. -/
theorem asF64_error (n : Nat) : 2 ^ 53 * n ≤ 2 ^ 53 * asF64 n + n := by
  by_cases h : n < 2 ^ 53
  · rw [asF64_eq h]
    exact Nat.le_add_right _ _
  · have hn : n ≠ 0 := by omega
    have hlog : 53 ≤ n.log2 := by
      by_contra hlt
      exact h ((Nat.log2_lt hn).1 (by omega))
    have hulp : 2 ^ 52 * 2 ^ (n.log2 - 52) ≤ n := by
      rw [← pow_add, show 52 + (n.log2 - 52) = n.log2 by omega]
      exact Nat.log2_self_le hn
    have hpos : 0 < 2 ^ (n.log2 - 52) := Nat.two_pow_pos _
    unfold asF64
    generalize 2 ^ (n.log2 - 52) = ulp at hulp hpos
    have hdivision := Nat.div_add_mod' n ulp
    have hlt := Nat.mod_lt n hpos
    dsimp only
    split
    · rw [Nat.add_mul]
      omega
    · omega

structure Bandwidth where
  lessThan : Option Nat
  greaterThan : Option Nat

structure Exclusions where
  bandwidth : Option Bandwidth

/-! ### The request -/

/-- The query that asks for nodes. -/
structure FindNodesRequest where
  requirements : Requirements
  exclusions : Exclusions
  limit : Nat

/-- The query protocol of the hub: how a request is signed. -/
structure FindClient where
  Request : Type
  sign : FindNodesRequest → Except String Request

namespace NetworkActor

def findNodesRequest (filters : NodeFilters) (limit : Nat) : FindNodesRequest where
  requirements := requirementsFromFilters filters
  exclusions := { bandwidth := some { lessThan := some (asF64 filters.minBandwidthBps), greaterThan := none } }
  limit := min limit 65535

/-- What the actor replies to a `FindNodes` command when the hub answers as in `ask`. -/
def findNodes (client : FindClient) (ask : client.Request → Except String QueryResponse) (filters : NodeFilters)
    (limit : Nat) : Except DirectoryError (List PoolPeer) :=
  match client.sign (findNodesRequest filters limit) with
  | .error e => .error (.rejected s!"failed to sign request: {e}")
  | .ok request =>
    match ask request with
    | .ok (.findNodes nodes) => .ok nodes
    | .ok (.error e) => .error (.rejected e)
    | .ok .findNode => .error (.rejected "expected FindNodes")
    | .error _ => .error .timeout

end NetworkActor

def NetworkHandle.findNodes : CommandOutcome (Except DirectoryError (List PoolPeer)) →
    Except DirectoryError (List PoolPeer)
  | .stopped => .error (.taskFailed "network actor stopped")
  | .dropped => .error (.taskFailed "network actor dropped reply")
  | .sent answer => answer

/-- The gateway's answer to a search; `reaches` maps the actor's reply to what becomes of the command. -/
def SwarmGateway.findNodes (client : FindClient) (ask : client.Request → Except String QueryResponse)
    (reaches : Except DirectoryError (List PoolPeer) → CommandOutcome (Except DirectoryError (List PoolPeer)))
    (server : Server) (limit : Nat) : Except DirectoryError (List PoolPeer) :=
  NetworkHandle.findNodes (reaches (NetworkActor.findNodes client ask server.peerOptions.nodeFilters limit))

/-! ### What filters and requests mean -/

/-- What the hub knows of a node. -/
structure NodeAttributes where
  country : String
  city : String
  isp : String
  asn : UInt32
  proxy : Bool
  mobile : Bool
  residential : Bool
  bandwidth : Nat

/-- A node that has the attribute, or has it not, is admitted. -/
def FilterPolicy.Admits : FilterPolicy → Bool → Prop
  | .allow, _ => True
  | .deny, has => has = false
  | .require, has => has = true

def ProxyRestriction.Admits : ProxyRestriction → Bool → Prop
  | .allow, _ => True
  | .disallow, has => has = false
  | .only, has => has = true

def NetworkPolicy.Admits : NetworkPolicy → Bool → Prop
  | .allowed, _ => True
  | .denied, has => has = false
  | .required, has => has = true

/-- One of the listed values fits, or none is listed. -/
def Listed {α : Type} (fits : α → α → Prop) (l : List α) (x : α) : Prop := l = [] ∨ ∃ y ∈ l, fits y x

section Meaning

-- how texts are compared
variable (same : String → String → Prop)

/-- The node is one that the filters admit, as their documentation says; `least` is the least bandwidth. -/
structure NodeFilters.Admits (filters : NodeFilters) (least : Nat) (node : NodeAttributes) : Prop where
  country : ∀ c ∈ filters.country, same c node.country
  city : ∀ c ∈ filters.city, same c node.city
  isp : ∀ i ∈ filters.isp, same i node.isp
  asn : ∀ n ∈ filters.asn, n = node.asn
  proxy : filters.proxy.Admits node.proxy
  mobile : filters.mobile.Admits node.mobile
  hosting : filters.hosting.Admits (!node.residential)
  bandwidth : least ≤ node.bandwidth

/-- The node meets the requirements. -/
structure Requirements.Meets (requirements : Requirements) (node : NodeAttributes) : Prop where
  countries : Listed same requirements.countries node.country
  cities : Listed same requirements.cities node.city
  isps : Listed same requirements.isps node.isp
  asns : Listed (· = ·) requirements.asns node.asn
  proxy : requirements.proxy.Admits node.proxy
  mobile : requirements.mobile.Admits node.mobile
  residential : requirements.residential.Admits node.residential

/-- The bandwidth of the node is excluded. -/
def Exclusions.Excludes (exclusions : Exclusions) (node : NodeAttributes) : Prop :=
  ∃ b ∈ exclusions.bandwidth, (∃ x ∈ b.lessThan, node.bandwidth < x) ∨ ∃ x ∈ b.greaterThan, x < node.bandwidth

def FindNodesRequest.Selects (request : FindNodesRequest) (node : NodeAttributes) : Prop :=
  request.requirements.Meets same node ∧ ¬request.exclusions.Excludes node

variable {same} {filters : NodeFilters} {node : NodeAttributes} {limit least : Nat}

private theorem listed_toList {α : Type} {fits : α → α → Prop} {o : Option α} {x : α} :
    Listed fits o.toList x ↔ ∀ y ∈ o, fits y x := by
  cases o <;> simp [Listed]

private theorem admits_proxyRestriction {policy : FilterPolicy} {has : Bool} :
    (proxyRestriction policy).Admits has ↔ policy.Admits has := by
  cases policy <;> rfl

private theorem admits_networkPolicy {policy : FilterPolicy} {has : Bool} :
    (networkPolicy policy).Admits has ↔ policy.Admits has := by
  cases policy <;> rfl

private theorem admits_residentialPolicy {policy : FilterPolicy} {has : Bool} :
    (residentialPolicy policy).Admits has ↔ policy.Admits (!has) := by
  cases policy <;> cases has <;> simp [residentialPolicy, NetworkPolicy.Admits, FilterPolicy.Admits]

theorem meets_requirementsFromFilters : (requirementsFromFilters filters).Meets same node ∧ least ≤ node.bandwidth ↔
    filters.Admits same least node := by
  constructor
  · rintro ⟨h, hbandwidth⟩
    exact ⟨listed_toList.1 h.countries, listed_toList.1 h.cities, listed_toList.1 h.isps, listed_toList.1 h.asns,
      admits_proxyRestriction.1 h.proxy, admits_networkPolicy.1 h.mobile, admits_residentialPolicy.1 h.residential,
      hbandwidth⟩
  · intro h
    exact ⟨⟨listed_toList.2 h.country, listed_toList.2 h.city, listed_toList.2 h.isp, listed_toList.2 h.asn,
      admits_proxyRestriction.2 h.proxy, admits_networkPolicy.2 h.mobile, admits_residentialPolicy.2 h.hosting⟩,
      h.bandwidth⟩

/-- The request selects the nodes that the filters admit, with the least bandwidth rounded. -/
theorem selects_iff : (NetworkActor.findNodesRequest filters limit).Selects same node ↔
    filters.Admits same (asF64 filters.minBandwidthBps) node := by
  have hexcluded : (NetworkActor.findNodesRequest filters limit).exclusions.Excludes node ↔
      node.bandwidth < asF64 filters.minBandwidthBps := by
    simp [NetworkActor.findNodesRequest, Exclusions.Excludes]
  unfold FindNodesRequest.Selects
  rw [hexcluded, not_lt]
  exact meets_requirementsFromFilters

end Meaning

/-! ### Exits that the filters admit -/

/-- A hub that knows the nodes, and that answers a request for nodes with nodes that the request selects. -/
structure NodeDirectory where
  client : FindClient
  same : String → String → Prop
  attributes : PeerId → NodeAttributes
  /-- the answers that it may give to a signed request -/
  gives : client.Request → Except String QueryResponse → Prop
  selects : ∀ request signed nodes, client.sign request = .ok signed → gives signed (.ok (.findNodes nodes)) →
    ∀ n ∈ nodes, request.Selects same (attributes n.peerId)

namespace NodeDirectory

variable {directory : NodeDirectory} {server : Server} {limit : Nat} {nodes : List PoolPeer} {p : PeerId} {e : Io}

/-- A search is answered by the gateway and this hub. -/
def Answers (directory : NodeDirectory) : Io → Prop
  | ⟨.findNodes server limit, answer⟩ => ∃ ask reaches,
      (∀ signed, directory.client.sign (NetworkActor.findNodesRequest server.peerOptions.nodeFilters limit) =
          .ok signed →
        directory.gives signed (ask signed)) ∧
      (∀ reply answer, reaches reply = .sent answer → answer = reply) ∧
      answer = SwarmGateway.findNodes directory.client ask reaches server limit
  | _ => True

/-- What the gateway returns is what the hub has answered to the request. -/
theorem admits_of_findNodes {ask : directory.client.Request → Except String QueryResponse}
    {reaches : Except DirectoryError (List PoolPeer) → CommandOutcome (Except DirectoryError (List PoolPeer))}
    (hgives : ∀ signed, directory.client.sign (NetworkActor.findNodesRequest server.peerOptions.nodeFilters limit) =
      .ok signed → directory.gives signed (ask signed))
    (hreaches : ∀ reply answer, reaches reply = .sent answer → answer = reply)
    (h : SwarmGateway.findNodes directory.client ask reaches server limit = .ok nodes) {n : PoolPeer} (hn : n ∈ nodes) :
    server.peerOptions.nodeFilters.Admits directory.same (asF64 server.peerOptions.minBandwidth)
      (directory.attributes n.peerId) := by
  have hreply : NetworkActor.findNodes directory.client ask server.peerOptions.nodeFilters limit = .ok nodes := by
    unfold SwarmGateway.findNodes at h
    cases houtcome : reaches (NetworkActor.findNodes directory.client ask server.peerOptions.nodeFilters limit) with
    | stopped =>
      rw [houtcome] at h
      cases h
    | dropped =>
      rw [houtcome] at h
      cases h
    | sent answer =>
      rw [houtcome] at h
      rw [← hreaches _ answer houtcome]
      exact h
  unfold NetworkActor.findNodes at hreply
  split at hreply
  · cases hreply
  · rename_i signed hsign
    split at hreply
    · rename_i answered hask
      cases hreply
      exact selects_iff.1 (directory.selects _ signed nodes hsign (hask ▸ hgives signed hsign) n hn)
    · cases hreply
    · cases hreply
    · cases hreply

theorem Answers.admits (h : directory.Answers e) (hoffers : Io.Offers server p e) :
    server.peerOptions.nodeFilters.Admits directory.same (asF64 server.peerOptions.minBandwidth)
      (directory.attributes p) := by
  obtain ⟨q, x⟩ := e
  cases q with
  | findNodes asked limit =>
    rcases x with _ | candidates
    · cases hoffers
    · obtain ⟨rfl, hp⟩ := hoffers
      obtain ⟨n, hn, rfl⟩ := List.mem_map.1 hp
      obtain ⟨ask, reaches, hgives, hreaches, hanswer⟩ := h
      exact admits_of_findNodes hgives hreaches hanswer.symm hn
  | _ => cases hoffers

end NodeDirectory

namespace DiscoveryActor

variable {S : Type} [StickyStore S] [LawfulStickyStore S] {ctx : Context} {server : Server} {a a' : DiscoveryActor S}
  {ls : List Label} {p : PeerId}

/-- All that is said is genuine, the hub answers searches with what they select, and nobody is selected by hand for the
port of `server`. -/
def Filtered (directory : NodeDirectory) (server : Server) (l : Label) : Prop :=
  AllGenuine l.trace ∧ (∀ e ∈ l.trace, directory.Answers e) ∧ ∀ p, l.event ≠ .selectPeer server.port p

/-- Whoever is the exit of a server at the end of a run, or remembered for it, was so at first, is pinned, or is
admitted by the filters of the server; the least bandwidth is met up to the rounding to a float. -/
theorem exits_admitted (directory : NodeDirectory) (hdistinct : (ctx.servers.map (·.port)).Nodup)
    (hserver : server ∈ ctx.servers) (hentries : ∀ e ∈ server.peerOptions.pinned, e.Coherent) (hhandles : Handles ctx a)
    (h : Reaches (guarded (Step ctx) fun _ l => Filtered directory server l) a ls a') (hp : a'.Knows server p) :
    a.Knows server p ∨ p ∈ server.pinnedPeers ∨ ∃ least, 2 ^ 53 * server.peerOptions.minBandwidth ≤
        2 ^ 53 * least + server.peerOptions.minBandwidth ∧
      (server.peerOptions.minBandwidth < 2 ^ 53 → least = server.peerOptions.minBandwidth) ∧
      server.peerOptions.nodeFilters.Admits directory.same least (directory.attributes p) := by
  rcases introduced_of_reaches (fun _ _ hg => hg.1) hdistinct hserver hentries hhandles h hp with
    hknows | hpinned | ⟨_, l, -, ⟨-, hanswers, hnobody⟩, hselected | ⟨-, e, he, hoffers⟩⟩
  · exact .inl hknows
  · exact .inr (.inl hpinned)
  · exact absurd hselected (hnobody p)
  · exact .inr (.inr ⟨_, asF64_error _, fun hlt => asF64_eq hlt, (hanswers e he).admits hoffers⟩)

section Catalogue

/-- A mobile node of one provider in one city. -/
private def nodeIn (country : String) (residential : Bool) (bandwidth : Nat) : NodeAttributes where
  country
  city := "Graz"
  isp := "Net"
  asn := 64500
  proxy := false
  mobile := true
  residential
  bandwidth

/-- The second node is in another country, the third in a data centre, and the fourth is slow. -/
private def catalogue : PeerId → NodeAttributes
  | ⟨[1]⟩ => nodeIn "AT" true 20000000
  | ⟨[2]⟩ => nodeIn "DE" true 20000000
  | ⟨[3]⟩ => nodeIn "AT" false 20000000
  | _ => nodeIn "AT" true 5000000

private def catalogued : List PoolPeer := [⟨⟨[1]⟩, []⟩, ⟨⟨[2]⟩, []⟩, ⟨⟨[3]⟩, []⟩, ⟨⟨[4]⟩, []⟩]

/-- A hub that returns the nodes of the catalogue that a request selects, and no others. -/
private def onCatalogue : NodeDirectory where
  client := { Request := FindNodesRequest, sign := .ok }
  same := Eq
  attributes := catalogue
  gives request answer := ∃ nodes, answer = .ok (.findNodes nodes) ∧
    ∀ n, n ∈ nodes ↔ n ∈ catalogued ∧ request.Selects Eq (catalogue n.peerId)
  selects _ _ _ hsign hgives n hn := by
    cases hsign
    obtain ⟨_, ⟨⟩, hnodes⟩ := hgives
    exact ((hnodes n).1 hn).2

/-- A server that filters by all criteria. -/
private def choosy : Server :=
  { discoveryServer 1080 with peerOptions := { options with
      country := some "AT", city := some "Graz", isp := some "Net", asn := some 64500, minBandwidth := 10000000,
      proxy := .deny, mobile := .require, hosting := .deny } }

private theorem admits_choosy_iff {n : PoolPeer} (hn : n ∈ catalogued) :
    choosy.peerOptions.nodeFilters.Admits Eq 10000000 (catalogue n.peerId) ↔ n.peerId = ⟨[1]⟩ := by
  simp only [catalogued, List.mem_cons, List.not_mem_nil, or_false] at hn
  rcases hn with rfl | rfl | rfl | rfl
  · refine iff_of_true ⟨?_, ?_, ?_, ?_, rfl, rfl, rfl, by decide⟩ rfl <;> rintro _ ⟨⟩ <;> rfl
  · exact iff_of_false (fun h => absurd (h.country "AT" rfl) (by decide)) (by decide)
  · exact iff_of_false (fun h => Bool.noConfusion (h.hosting : true = false)) (by decide)
  · exact iff_of_false (fun h => absurd h.bandwidth (by decide)) (by decide)

/-- All four nodes are online, and the hub offers the one that is admitted. -/
private def fourOnline : World :=
  { routes := [], candidates := [⟨⟨[1]⟩, []⟩], online := catalogued.map (·.peerId), connected := [] }

private def unfiltered : DiscoveryActor StickyState := .new .empty (.dark [1080] nodup_onePort)

private def found : List Io × Unit × DiscoveryActor StickyState :=
  exec fourOnline.answer (handle (dummyContext [choosy]) (.requestNewPeer 1080)) unfiltered

/-- The filters of a search, and its limit. -/
private def searched : Io → Option (NodeFilters × Nat)
  | ⟨.findNodes server limit, _⟩ => some (server.peerOptions.nodeFilters, limit)
  | _ => none

private theorem mem_candidates_iff {n : PoolPeer} : n ∈ fourOnline.candidates ↔
    n ∈ catalogued ∧ choosy.peerOptions.nodeFilters.Admits Eq (asF64 10000000) (catalogue n.peerId) := by
  rw [asF64_eq (by decide)]
  constructor
  · intro hn
    obtain rfl := List.mem_singleton.1 hn
    have hfirst : (⟨⟨[1]⟩, []⟩ : PoolPeer) ∈ catalogued := List.mem_cons_self ..
    exact ⟨hfirst, (admits_choosy_iff hfirst).2 rfl⟩
  · rintro ⟨hn, hadmits⟩
    have hid := (admits_choosy_iff hn).1 hadmits
    simp only [catalogued, List.mem_cons, List.not_mem_nil, or_false] at hn
    rcases hn with rfl | rfl | rfl | rfl
    · exact List.mem_singleton_self _
    all_goals exact absurd hid (by decide)

private theorem found_filtered : Filtered onCatalogue choosy ⟨.requestNewPeer 1080, found.1⟩ := by
  refine ⟨World.allGenuine (by decide) (by decide), fun e he => ?_, by simp⟩
  have hsearched : found.1.filterMap searched = [(choosy.peerOptions.nodeFilters, 25)] := by decide
  obtain ⟨past, q, rfl⟩ := exec_answers he
  cases q with
  | findNodes server limit =>
    have hsearch : (server.peerOptions.nodeFilters, limit) ∈ found.1.filterMap searched :=
      List.mem_filterMap.2 ⟨_, he, rfl⟩
    rw [hsearched, List.mem_singleton] at hsearch
    obtain ⟨hfilters, rfl⟩ := Prod.mk.inj hsearch
    refine ⟨fun _ => .ok (.findNodes fourOnline.candidates), .sent, fun signed hsign => ?_, ?_, rfl⟩
    · cases hsign
      refine ⟨_, rfl, fun n => ?_⟩
      rw [hfilters, selects_iff]
      exact mem_candidates_iff
    · rintro reply _ ⟨⟩
      rfl
  | _ => trivial

/-- Of the four nodes the admitted one becomes the exit. -/
theorem exits_admitted_found : found.2.2.destination 1080 = some ⟨[1]⟩ ∧
    choosy.peerOptions.nodeFilters.Admits Eq 10000000 (catalogue ⟨[1]⟩) ∧
    ∀ n ∈ catalogued, n.peerId ≠ ⟨[1]⟩ → ¬choosy.peerOptions.nodeFilters.Admits Eq 10000000 (catalogue n.peerId) := by
  have hstep : guarded (Step (dummyContext [choosy])) (fun _ l => Filtered onCatalogue choosy l) unfiltered
      ⟨.requestNewPeer 1080, found.1⟩ found.2.2 := ⟨exec_runs _ _ _, found_filtered⟩
  have hexit : found.2.2.destination 1080 = some ⟨[1]⟩ := by decide
  have hadmitted := exits_admitted (p := ⟨[1]⟩) onCatalogue (by decide) (List.mem_singleton_self choosy)
    (by simp [choosy, discoveryServer, options, ServerPeerOptions.pinned]) (fun _ => Iff.rfl) (.cons hstep (.nil _))
    (.inl hexit)
  obtain ⟨least, -, hleast, h⟩ := (hadmitted.resolve_left (by rintro (⟨⟨⟩⟩ | ⟨⟨⟩⟩))).resolve_left (by decide)
  obtain rfl : least = 10000000 := hleast (by decide)
  exact ⟨hexit, h, fun n hn hne hadmits => hne ((admits_choosy_iff hn).1 hadmits)⟩

end Catalogue

end DiscoveryActor

end P2Proxy
