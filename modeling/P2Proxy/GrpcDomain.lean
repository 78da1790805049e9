import P2Proxy.Interaction.Cut

/-!
# The host of the auth service

The certificate of the auth service is checked against the host of its URL, which `Config.grpcDomain` cuts out: what
stands between the last `://` and the next `/` or `:`.  For a URL that is the host exactly if it is a name, and either
the rest of the URL has no `://` and no query follows the host directly, or the last `://` happens to be followed by the
host again (`grpcDomain_eq_host_iff`).
-/

namespace P2Proxy

open Interaction

/-- The configuration, as far as the channel to the auth service reads it. -/
structure Config where
  grpcUrl : String

/-- `://` -/
def schemeEnd : List Char := [':', '/', '/']

/-- Neither `/` nor `:`. -/
def inHost (c : Char) : Bool := c ≠ '/' ∧ c ≠ ':'

/-- The host with scheme, port and path stripped. -/
def Config.grpcDomain (config : Config) : String :=
  let url := config.grpcUrl.toList
  String.ofList (((afterLast? schemeEnd url).getD url).takeWhile inHost)

/-! ### URLs -/

def isNameChar (c : Char) : Bool := c.isAlphanum || c = '-' || c = '.' || c = '_'

def isLiteralChar (c : Char) : Bool :=
  c.isDigit || ('a' ≤ c && c ≤ 'f') || ('A' ≤ c && c ≤ 'F') || c = ':' || c = '.'

/-- A DNS name, or an IPv6 address that is written in brackets. -/
inductive UrlHost
  | dnsName (name : List Char) (ne : name ≠ []) (valid : ∀ c ∈ name, isNameChar c = true)
  | ipv6 (literal : List Char) (colon : ':' ∈ literal) (valid : ∀ c ∈ literal, isLiteralChar c = true)

def UrlHost.text : UrlHost → List Char
  | .dnsName name _ _ => name
  | .ipv6 literal _ _ => '[' :: (literal ++ [']'])

/-- A decimal port. -/
structure UrlPort where
  digits : List Char
  ne : digits ≠ []
  valid : ∀ c ∈ digits, c.isDigit = true

/-- `scheme://host[:port][/path][?query]` -/
structure Url where
  scheme : List Char
  host : UrlHost
  port : Option UrlPort
  path : List Char
  absolute : ∀ c, path.head? = some c → c = '/'
  query : Option (List Char)

namespace Url

def portText (url : Url) : List Char :=
  match url.port with
  | some port => ':' :: port.digits
  | none => []

/-- What follows host and port. -/
def rest (url : Url) : List Char :=
  url.path ++ match url.query with
    | some query => '?' :: query
    | none => []

def text (url : Url) : List Char := url.scheme ++ (schemeEnd ++ (url.host.text ++ url.portText ++ url.rest))

def config (url : Url) : Config := { grpcUrl := String.ofList url.text }

/-- The host is what stands behind the last `://`. -/
def HostLast (url : Url) : Prop :=
  match url.host with
  | .dnsName name _ _ =>
    (¬schemeEnd <:+: url.rest ∧ (url.query = none ∨ url.port.isSome ∨ url.path ≠ [])) ∨
      ∃ before after, url.rest = before ++ (schemeEnd ++ (name ++ after)) ∧ ¬schemeEnd <:+: after ∧
        ∀ c, after.head? = some c → c = '/' ∨ c = ':'
  | .ipv6 _ _ _ => False

variable {url : Url} {c : Char}

theorem inHost_of_isNameChar (h : isNameChar c = true) : inHost c = true := by
  have hslash : c ≠ '/' := by rintro rfl; exact absurd h (by decide)
  have hcolon : c ≠ ':' := by rintro rfl; exact absurd h (by decide)
  simp [inHost, hslash, hcolon]

theorem not_inHost_iff : inHost c = false ↔ c = '/' ∨ c = ':' := by
  by_cases hslash : c = '/' <;> simp [inHost, hslash]

/-- No `/` stands in front of the path. -/
theorem slash_not_mem_authority : '/' ∉ url.host.text ++ url.portText := by
  have hliteral : isLiteralChar '/' = false := by decide
  have hname : isNameChar '/' = false := by decide
  have hdigit : Char.isDigit '/' = false := by decide
  rw [List.mem_append, not_or]
  constructor
  · cases hhost : url.host with
    | dnsName name ne valid =>
      intro hmem
      have hvalid := valid _ hmem
      rw [hname] at hvalid
      cases hvalid
    | ipv6 literal colon valid =>
      intro hmem
      have hin : '/' ∈ literal := by simpa [UrlHost.text] using hmem
      have hvalid := valid _ hin
      rw [hliteral] at hvalid
      cases hvalid
  · cases hport : url.port with
    | none => simp [portText, hport]
    | some port =>
      intro hmem
      have hin : '/' ∈ port.digits := by simpa [portText, hport] using hmem
      have hvalid := port.valid _ hin
      rw [hdigit] at hvalid
      cases hvalid

/-- Host and port do not end in a `:`. -/
theorem getLast?_authority : (url.host.text ++ url.portText).getLast? ≠ some ':' := by
  rw [List.getLast?_append]
  cases hport : url.port with
  | some port =>
    have hlast : url.portText.getLast? = port.digits.getLast? := by
      simp [portText, hport, List.getLast?_cons, List.getLast?_eq_some_getLast port.ne]
    rw [hlast, List.getLast?_eq_some_getLast port.ne, Option.some_or]
    intro heq
    have hvalid := port.valid _ (List.getLast_mem port.ne)
    rw [Option.some.inj heq] at hvalid
    exact absurd hvalid (by decide)
  | none =>
    have hnone : url.portText = [] := by simp [portText, hport]
    rw [hnone, List.getLast?_nil, Option.none_or]
    cases hhost : url.host with
    | dnsName name ne valid =>
      intro heq
      have hvalid := valid _ (List.mem_of_getLast? heq)
      exact absurd hvalid (by decide)
    | ipv6 literal colon valid => simp [UrlHost.text, List.getLast?_cons]

/-- What is cut out of a URL: from the rest, if it has a `://`, and else from the host on. -/
theorem grpcDomain_config : url.config.grpcDomain =
    String.ofList
      (((afterLast? schemeEnd url.rest).getD (url.host.text ++ url.portText ++ url.rest)).takeWhile inHost) := by
  have hrest : afterLast? schemeEnd (url.host.text ++ url.portText ++ url.rest) = afterLast? schemeEnd url.rest :=
    afterLast?_skip_of_second slash_not_mem_authority getLast?_authority
  have htext : afterLast? schemeEnd url.text =
      some ((afterLast? schemeEnd url.rest).getD (url.host.text ++ url.portText ++ url.rest)) := by
    rw [← hrest]
    exact afterLast?_append (by decide)
  simp only [Config.grpcDomain, config, String.toList_ofList, htext, Option.getD_some]

/-- What is cut out is never an IPv6 address, which has a `:`. -/
theorem takeWhile_ne_ipv6 {l literal : List Char} (h : ':' ∈ literal) :
    l.takeWhile inHost ≠ '[' :: (literal ++ [']']) := by
  intro heq
  have hmem : ':' ∈ l.takeWhile inHost := by
    rw [heq]
    simp [h]
  have hin := List.mem_takeWhile_imp hmem
  exact absurd hin (by decide)

/-- A name is cut out of what follows the last `://` exactly if it stands at its front. -/
theorem takeWhile_eq_name_iff {l name : List Char} (hname : ∀ c ∈ name, isNameChar c = true) :
    l.takeWhile inHost = name ↔ ∃ after, l = name ++ after ∧ ∀ c, after.head? = some c → c = '/' ∨ c = ':' := by
  rw [takeWhile_eq_iff, and_iff_right fun c hc => inHost_of_isNameChar (hname c hc)]
  simp only [not_inHost_iff]

/-- Behind the host stands the end, a `/` or a `:`, unless a query follows it directly. -/
theorem head?_after_host : (∀ c, (url.portText ++ url.rest).head? = some c → c = '/' ∨ c = ':') ↔
    (url.query = none ∨ url.port.isSome ∨ url.path ≠ []) := by
  cases hport : url.port with
  | some port => simp [portText, hport]
  | none =>
    have hnone : url.portText = [] := by simp [portText, hport]
    cases hpath : url.path with
    | cons d path =>
      have hd : d = '/' := url.absolute d (by simp [hpath])
      simp [hnone, rest, hpath, hd]
    | nil => cases hquery : url.query <;> simp [hnone, rest, hpath, hquery]

/-- The host of a URL is cut out of it exactly if it stands behind the last `://`. -/
theorem grpcDomain_eq_host_iff (url : Url) : url.config.grpcDomain = String.ofList url.host.text ↔ url.HostLast := by
  rw [grpcDomain_config, String.ofList_inj]
  cases hhost : url.host with
  | ipv6 literal colon valid =>
    have hlast : ¬url.HostLast := by simp [HostLast, hhost]
    exact iff_of_false (takeWhile_ne_ipv6 colon) hlast
  | dnsName name ne valid =>
    simp only [HostLast, hhost, UrlHost.text]
    rw [takeWhile_eq_name_iff valid]
    cases hcut : afterLast? schemeEnd url.rest with
    | none =>
      -- the host is looked for where it stands
      have hfree : ¬schemeEnd <:+: url.rest := afterLast?_eq_none_iff.1 hcut
      rw [Option.getD_none, ← head?_after_host]
      constructor
      · rintro ⟨after, heq, hafter⟩
        rw [List.append_assoc, List.append_cancel_left_eq] at heq
        exact .inl ⟨hfree, heq ▸ hafter⟩
      · rintro (⟨-, hafter⟩ | ⟨before, after, heq, -⟩)
        · exact ⟨_, List.append_assoc .., hafter⟩
        · exact absurd ⟨before, name ++ after, by rw [heq, List.append_assoc]⟩ hfree
    | some t =>
      -- it is looked for in path and query
      obtain ⟨before, hrest, hfree⟩ := (afterLast?_eq_some_iff (by decide)).1 hcut
      rw [Option.getD_some]
      constructor
      · rintro ⟨after, rfl, hafter⟩
        exact .inr ⟨before, after, hrest, fun hin => hfree (hin.trans (List.suffix_append name after).isInfix), hafter⟩
      · rintro (⟨hnone, -⟩ | ⟨before', after, heq, hafter, hhead⟩)
        · exact absurd ⟨before, t, by rw [hrest, List.append_assoc]; rfl⟩ hnone
        · have hname : ':' ∉ name := fun hmem => absurd (valid _ hmem) (by decide)
          have hfree' : ¬schemeEnd <:+: name ++ after := by
            rw [schemeEnd, ← afterLast?_eq_none_iff, afterLast?_skip hname, afterLast?_eq_none_iff]
            exact hafter
          have hcut' : afterLast? schemeEnd url.rest = some (name ++ after) :=
            (afterLast?_eq_some_iff (by decide)).2 ⟨before', heq, hfree'⟩
          rw [hcut] at hcut'
          exact ⟨after, Option.some.inj hcut', hhead⟩

/-- `https://[::1]:50051` -/
def loopback : Url where
  scheme := ['h', 't', 't', 'p', 's']
  host := .ipv6 [':', ':', '1'] (by decide) (by simp [isLiteralChar, Char.isDigit])
  port := some ⟨['5', '0', '0', '5', '1'], by decide, by simp [Char.isDigit]⟩
  path := []
  absolute := nofun
  query := none

/-- The certificate of an IPv6 host is checked against the name `[`. -/
theorem loopback_cut : loopback.config.grpcDomain = "[" ∧
    ¬∀ url : Url, url.config.grpcDomain = String.ofList url.host.text := by
  have hcut : loopback.config.grpcDomain = "[" := by decide
  refine ⟨hcut, fun h => ?_⟩
  have hhost := h loopback
  rw [hcut] at hhost
  exact absurd hhost (by decide)

end Url

end P2Proxy
