import P2Proxy.Sticky
import P2Proxy.Interaction.Joined

/-!
# What the fingerprint identifies

The fingerprint of a server joins its port and its filters by `|`, with the free text of country, city and ISP as it is
and the empty text for an absent field.  A server whose three texts are given, not empty and without `|` shares its
fingerprint with no other port and filters; every other server shares it with some (`fingerprint_identifies_iff`), and
then a pool that was remembered under the one is found under the other.  Among servers whose texts are absent, or not
empty and without `|`, the fingerprint tells the ports and filters apart (`filterFingerprint_eq_iff`).
-/

namespace P2Proxy

/-- The criteria by which the hub selects nodes. -/
structure NodeFilters where
  country : Option String
  city : Option String
  isp : Option String
  asn : Option UInt32
  proxy : FilterPolicy
  mobile : FilterPolicy
  hosting : FilterPolicy
  minBandwidthBps : Nat
deriving DecidableEq

namespace ServerPeerOptions

def nodeFilters (o : ServerPeerOptions) : NodeFilters where
  country := o.country
  city := o.city
  isp := o.isp
  asn := o.asn
  proxy := o.proxy
  mobile := o.mobile
  hosting := o.hosting
  minBandwidthBps := o.minBandwidth

/-! ### The fields of a fingerprint -/

/-- The texts that the fingerprint joins. -/
def fingerprintFields (o : ServerPeerOptions) (port : Port) : List String :=
  ["v2", toString port, o.country.getD "", o.city.getD "", o.isp.getD "", (o.asn.map toString).getD "",
    toString o.minBandwidth, o.proxy.debug, o.mobile.debug, o.hosting.debug]

theorem toList_filterFingerprint (o : ServerPeerOptions) (port : Port) :
    (o.filterFingerprint port).toList = ['|'].intercalate ((o.fingerprintFields port).map String.toList) := by
  have hversion : "v2|".toList = "v2".toList ++ ['|'] := by simp
  have hseparator : "|".toList = ['|'] := by simp
  unfold filterFingerprint fingerprintFields
  simp only [String.toList_append, hversion, hseparator, List.map_cons, List.map_nil, List.intercalate_cons_cons,
    List.intercalate_singleton, List.append_assoc]

private theorem toList_toString_nat (n : Nat) : (toString n).toList = Nat.toDigits 10 n := by
  rw [Nat.toString_eq_repr, Nat.toList_repr]

private theorem toString_nat_inj {m n : Nat} (h : toString m = toString n) : m = n := by
  have hdigits := congrArg String.toList h
  rw [toList_toString_nat, toList_toString_nat] at hdigits
  rw [← Nat.ofDigitChars_ten_toDigits (n := m), hdigits, Nat.ofDigitChars_ten_toDigits]

private theorem separator_notMem_toString (n : Nat) : '|' ∉ (toString n).toList := by
  rw [toList_toString_nat]
  intro h
  exact absurd (Nat.isDigit_of_mem_toDigits (by decide) (by decide) h) (by decide)

private theorem toString_ne_empty (n : Nat) : toString n ≠ "" := by
  intro h
  have hdigits := congrArg String.toList h
  rw [toList_toString_nat] at hdigits
  exact Nat.toDigits_ne_nil hdigits

private theorem debug_inj {p q : FilterPolicy} (h : p.debug = q.debug) : p = q := by
  cases p <;> cases q <;> first | rfl | exact absurd h (by decide)

private theorem separator_notMem_debug (p : FilterPolicy) : '|' ∉ p.debug.toList := by
  cases p <;> decide

/-- A text that cannot be taken for another one: it is given, not empty and without the separator. -/
def Distinct (text : Option String) : Prop := ∃ t, text = some t ∧ t ≠ "" ∧ '|' ∉ t.toList

theorem Distinct.eq_of_getD {text other : Option String} (h : Distinct text) (he : text.getD "" = other.getD "") :
    text = other := by
  obtain ⟨t, rfl, hne, -⟩ := h
  cases other with
  | none => exact absurd he hne
  | some u => exact congrArg some he

private theorem asn_inj {m n : Option UInt32} (h : (m.map toString).getD "" = (n.map toString).getD "") : m = n := by
  cases m with
  | none =>
    cases n with
    | none => rfl
    | some n => exact absurd h.symm (toString_ne_empty n.toNat)
  | some m =>
    cases n with
    | none => exact absurd h (toString_ne_empty m.toNat)
    | some n => exact congrArg some (UInt32.toNat_inj.1 (toString_nat_inj h))

/-- All three texts of a server are distinct. -/
def Separated (o : ServerPeerOptions) : Prop := Distinct o.country ∧ Distinct o.city ∧ Distinct o.isp

/-- A text that is absent, or not empty and without the separator. -/
def Plain (text : Option String) : Prop := ∀ t ∈ text, t ≠ "" ∧ '|' ∉ t.toList

namespace Plain

variable {text other : Option String}

theorem separator_notMem (h : Plain text) : '|' ∉ (text.getD "").toList := by
  cases text with
  | none => simp
  | some t => exact (h t rfl).2

theorem eq_of_getD (h : Plain text) (h' : Plain other) (he : text.getD "" = other.getD "") : text = other := by
  cases text with
  | none =>
    cases other with
    | none => rfl
    | some u => exact absurd he.symm (h' u rfl).1
  | some t =>
    cases other with
    | none => exact absurd he (h t rfl).1
    | some u => exact congrArg some he

end Plain

theorem Distinct.plain {text : Option String} (h : Distinct text) : Plain text := by
  obtain ⟨t, rfl, ht⟩ := h
  rintro _ ⟨⟩
  exact ht

/-- All three texts of a server are plain. -/
def Unambiguous (o : ServerPeerOptions) : Prop := Plain o.country ∧ Plain o.city ∧ Plain o.isp

theorem Separated.unambiguous {o : ServerPeerOptions} (h : o.Separated) : o.Unambiguous :=
  ⟨h.1.plain, h.2.1.plain, h.2.2.plain⟩

private theorem separator_notMem_fields {o : ServerPeerOptions} {port : Port} (h : o.Unambiguous) :
    ∀ l ∈ (o.fingerprintFields port).map String.toList, '|' ∉ l := by
  have hasn : '|' ∉ ((o.asn.map toString).getD "").toList := by
    cases o.asn with
    | none => simp
    | some n => exact separator_notMem_toString n.toNat
  obtain ⟨hcountry, hcity, hisp⟩ := h
  simp only [fingerprintFields, List.map_cons, List.map_nil, List.forall_mem_cons]
  exact ⟨by simp, separator_notMem_toString port.toNat, hcountry.separator_notMem, hcity.separator_notMem,
    hisp.separator_notMem, hasn, separator_notMem_toString _, separator_notMem_debug _, separator_notMem_debug _,
    separator_notMem_debug _, by simp⟩

/-- With three plain texts the fingerprint determines the port and the filters, if it determines the texts. -/
private theorem eq_of_filterFingerprint {o other : ServerPeerOptions} {port q : Port} (h : o.Unambiguous)
    (hcountry : o.country.getD "" = other.country.getD "" → o.country = other.country)
    (hcity : o.city.getD "" = other.city.getD "" → o.city = other.city)
    (hisp : o.isp.getD "" = other.isp.getD "" → o.isp = other.isp)
    (he : o.filterFingerprint port = other.filterFingerprint q) : port = q ∧ o.nodeFilters = other.nodeFilters := by
  have hjoined := congrArg String.toList he
  rw [toList_filterFingerprint, toList_filterFingerprint] at hjoined
  have hfields := Interaction.intercalate_inj (by simp [fingerprintFields]) (separator_notMem_fields h) hjoined
  have hfields := (List.map_injective_iff.2 fun _ _ => String.toList_inj.1) hfields
  simp only [fingerprintFields, List.cons.injEq, true_and, and_true] at hfields
  obtain ⟨hport, hcountry', hcity', hisp', hasn, hbandwidth, hproxy, hmobile, hhosting⟩ := hfields
  refine ⟨UInt16.toNat_inj.1 (toString_nat_inj hport), ?_⟩
  simp only [nodeFilters, NodeFilters.mk.injEq]
  exact ⟨hcountry hcountry', hcity hcity', hisp hisp', asn_inj hasn, debug_inj hproxy, debug_inj hmobile,
    debug_inj hhosting, toString_nat_inj hbandwidth⟩

/-- With three distinct texts the fingerprint determines the port and the filters. -/
theorem Separated.eq_of_filterFingerprint {o other : ServerPeerOptions} {port q : Port} (h : o.Separated)
    (he : o.filterFingerprint port = other.filterFingerprint q) : port = q ∧ o.nodeFilters = other.nodeFilters :=
  ServerPeerOptions.eq_of_filterFingerprint h.unambiguous h.1.eq_of_getD h.2.1.eq_of_getD h.2.2.eq_of_getD he

/-- Among servers with plain texts the fingerprint tells the ports and the filters apart, also where texts are
absent. -/
theorem filterFingerprint_eq_iff {o other : ServerPeerOptions} {port q : Port} (h : o.Unambiguous)
    (h' : other.Unambiguous) :
    o.filterFingerprint port = other.filterFingerprint q ↔ port = q ∧ o.nodeFilters = other.nodeFilters := by
  constructor
  · intro he
    exact ServerPeerOptions.eq_of_filterFingerprint h (h.1.eq_of_getD h'.1) (h.2.1.eq_of_getD h'.2.1)
      (h.2.2.eq_of_getD h'.2.2) he
  · rintro ⟨hport, hfilters⟩
    simp only [nodeFilters, NodeFilters.mk.injEq] at hfilters
    obtain ⟨hcountry, hcity, hisp, hasn, hproxy, hmobile, hhosting, hbandwidth⟩ := hfilters
    unfold filterFingerprint
    rw [hport, hcountry, hcity, hisp, hasn, hproxy, hmobile, hhosting, hbandwidth]

/-! ### Shared fingerprints -/

/-- A text that is absent or empty can be replaced by the other of the two; any other text that is not distinct holds a
separator. -/
private theorem not_distinct_cases {text : Option String} (h : ¬Distinct text) :
    (∃ other, other ≠ text ∧ other.getD "" = text.getD "") ∨ ∃ x y, text = some (x ++ "|" ++ y) := by
  cases text with
  | none => exact .inl ⟨some "", by simp, rfl⟩
  | some t =>
    by_cases hne : t = ""
    · exact .inl ⟨none, by simp, hne.symm⟩
    · have hmem : '|' ∈ t.toList := by
        by_contra hn
        exact h ⟨t, rfl, hne, hn⟩
      obtain ⟨x, y, hxy⟩ := List.append_of_mem hmem
      refine .inr ⟨String.ofList x, String.ofList y, congrArg some (String.toList_inj.1 ?_)⟩
      simp [hxy]

private theorem append_separator_ne (x y : String) : some x ≠ some (x ++ "|" ++ y) := by
  intro h
  have hlen := congrArg String.length (Option.some.inj h)
  simp only [String.length_append] at hlen
  have hone : "|".length = 1 := by decide
  omega

/-- A server without three distinct texts shares its fingerprint with other filters. -/
theorem exists_shared_fingerprint {o : ServerPeerOptions} (h : ¬o.Separated) (port : Port) :
    ∃ other : ServerPeerOptions, o.filterFingerprint port = other.filterFingerprint port ∧
      o.nodeFilters ≠ other.nodeFilters := by
  have hsplit : ¬Distinct o.country ∨ ¬Distinct o.city ∨ ¬Distinct o.isp := by
    by_contra hn
    simp only [not_or, not_not] at hn
    exact h hn
  rcases hsplit with hc | hc | hc
  · rcases not_distinct_cases hc with ⟨country, hne, he⟩ | ⟨x, y, hxy⟩
    · exact ⟨{ o with country }, by unfold filterFingerprint; simp only [he],
        fun hf => hne (congrArg NodeFilters.country hf).symm⟩
    · -- what follows the separator in the country is taken for the city
      refine ⟨{ o with country := some x, city := some (y ++ "|" ++ o.city.getD ""), isp := o.isp }, ?_, fun hf => ?_⟩
      · unfold filterFingerprint; simp only [hxy, Option.getD_some, String.append_assoc]
      · exact append_separator_ne x y ((congrArg NodeFilters.country hf).symm.trans hxy)
  · rcases not_distinct_cases hc with ⟨city, hne, he⟩ | ⟨x, y, hxy⟩
    · exact ⟨{ o with city }, by unfold filterFingerprint; simp only [he],
        fun hf => hne (congrArg NodeFilters.city hf).symm⟩
    · refine ⟨{ o with city := some x, isp := some (y ++ "|" ++ o.isp.getD "") }, ?_, fun hf => ?_⟩
      · unfold filterFingerprint; simp only [hxy, Option.getD_some, String.append_assoc]
      · exact append_separator_ne x y ((congrArg NodeFilters.city hf).symm.trans hxy)
  · rcases not_distinct_cases hc with ⟨isp, hne, he⟩ | ⟨x, y, hxy⟩
    · exact ⟨{ o with isp }, by unfold filterFingerprint; simp only [he],
        fun hf => hne (congrArg NodeFilters.isp hf).symm⟩
    · -- what precedes the separator in the ISP is taken for a part of the city
      refine ⟨{ o with city := some (o.city.getD "" ++ "|" ++ x), isp := some y }, ?_, fun hf => ?_⟩
      · unfold filterFingerprint; simp only [hxy, Option.getD_some, String.append_assoc]
      · have hisp : o.isp = some y := congrArg NodeFilters.isp hf
        rw [hxy] at hisp
        have hlen := congrArg String.length (Option.some.inj hisp)
        simp only [String.length_append] at hlen
        have hone : "|".length = 1 := by decide
        omega

/-! ### Exactly -/

/-- No other port and no other filters have the fingerprint of `o` at `port`. -/
def Identified (o : ServerPeerOptions) (port : Port) : Prop :=
  ∀ (other : ServerPeerOptions) (q : Port), o.filterFingerprint port = other.filterFingerprint q →
    port = q ∧ o.nodeFilters = other.nodeFilters

/-- An exit that is remembered for `port` under the filters of `o` is not found there under any others. -/
def Invalidated (o : ServerPeerOptions) (port : Port) : Prop :=
  ∀ (other : ServerPeerOptions) (now : DateTime) (peer : PeerId) (max : Nat) (s : StickyState),
    o.nodeFilters ≠ other.nodeFilters →
      ((s.remember now port (o.filterFingerprint port) peer max).2.pool port (other.filterFingerprint port)).1 = []

/-- The fingerprint identifies the filters of a server, and a change of them invalidates what it remembers, if and only
if its country, city and ISP are all given, not empty and without the separator. -/
theorem fingerprint_identifies_iff (o : ServerPeerOptions) (port : Port) :
    (o.Identified port ↔ o.Separated) ∧ (o.Invalidated port ↔ o.Separated) := by
  refine ⟨⟨fun hid => ?_, fun h other q he => h.eq_of_filterFingerprint he⟩, fun hinv => ?_, fun h => ?_⟩
  · by_contra hn
    obtain ⟨other, he, hne⟩ := exists_shared_fingerprint hn port
    exact hne (hid other port he).2
  · by_contra hn
    obtain ⟨other, he, hne⟩ := exists_shared_fingerprint hn port
    have hempty := hinv other 0 ⟨[]⟩ 1 .empty hne
    rw [← he, StickyState.pool_fst, StickyState.members_remember] at hempty
    exact Interaction.promote_ne_nil hempty
  · intro other now peer max s hne
    rw [StickyState.pool_fst, StickyState.members_remember_other]
    exact fun he => hne (h.eq_of_filterFingerprint he).2

/-- A separator in the city and a separator in the ISP give one fingerprint to two sets of filters, and the exit that
was remembered under the first is reused under the second. -/
theorem fingerprint_shared :
    let o : ServerPeerOptions := { options with city := some "A|B" }
    let other : ServerPeerOptions := { options with city := some "A", isp := some "B|" }
    o.filterFingerprint 1080 = other.filterFingerprint 1080 ∧ o.nodeFilters ≠ other.nodeFilters ∧
      ((StickyState.empty.remember 0 1080 (o.filterFingerprint 1080) ⟨[1]⟩ 30).2.pool 1080
        (other.filterFingerprint 1080)).1 = [⟨[1]⟩] := by
  decide

end ServerPeerOptions

end P2Proxy
