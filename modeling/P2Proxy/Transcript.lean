import P2Proxy.Socks

/-!
# What a SOCKS client is told

A server that speaks SOCKS selects a method once it has read the greeting, answers the request once, says that it has
succeeded only if it has connected the client, and after that only relays.  `legal_transcript_iff` says, for each of
these rules, which sessions break it: the client is told of success before anything was done for it, so every session
that comes to a request does.
-/

namespace P2Proxy

open Interaction

namespace SessionIo

/-- A message to the client, other than relayed bytes. -/
def isMessage : SessionIo → Bool
  | ⟨.writeMethod _, _⟩ | ⟨.writeReply _ _, _⟩ => true
  | _ => false

def isMethod : SessionIo → Bool
  | ⟨.writeMethod _, _⟩ => true
  | _ => false

def selectsNoAuth : SessionIo → Bool
  | ⟨.writeMethod .noAuth, _⟩ => true
  | _ => false

def isReply : SessionIo → Bool
  | ⟨.writeReply _ _, _⟩ => true
  | _ => false

def saysSucceeded : SessionIo → Bool
  | ⟨.writeReply .succeeded _, _⟩ => true
  | _ => false

def readsGreeting : SessionIo → Bool
  | ⟨.readGreeting, .ok _⟩ => true
  | _ => false

/-- The command of the request, when it is read. -/
def readsCommand : SessionIo → Option Command
  | ⟨.readRequest, .ok request⟩ => some request.command
  | _ => none

def opensStream : SessionIo → Bool
  | ⟨.openStream _, .ok _⟩ => true
  | _ => false

def failsToOpen : SessionIo → Bool
  | ⟨.openStream _, .error _⟩ => true
  | _ => false

def initsSession : SessionIo → Bool
  | ⟨.clientInit _ _ _, .ok _⟩ => true
  | _ => false

/-- An exit is found, known to the port or discovered just in time. -/
def findsPeer : SessionIo → Bool
  | ⟨.loadDestination, some _⟩ | ⟨.requestNewPeer _, some (some _)⟩ => true
  | _ => false

end SessionIo

open SessionIo

/-! ### The rules -/

/-- The first message is the selection of a method, after the greeting was read. -/
def SelectsFirst : List SessionIo → Prop :=
  EveryCut fun before e _ => isMessage e = true → (∀ x ∈ before, isMessage x = false) →
    isMethod e = true ∧ ∃ x ∈ before, readsGreeting x = true

/-- After no authentication was selected, at most one reply is sent. -/
def RepliesOnce : List SessionIo → Prop :=
  EveryCut fun _ e after => selectsNoAuth e = true → after.countP isReply ≤ 1

/-- Success is only reported of a request to connect, when the stream is open and the session is initialised. -/
def SucceedsTruly : List SessionIo → Prop :=
  EveryCut fun before e _ => saysSucceeded e = true → (∃ x ∈ before, readsCommand x = some .connect) ∧
    (∃ x ∈ before, opensStream x = true) ∧ ∃ x ∈ before, initsSession x = true

/-- After success was reported, no message follows. -/
def RelaysAfter : List SessionIo → Prop :=
  EveryCut fun _ e after => saysSucceeded e = true → ∀ x ∈ after, isMessage x = false

/-- A transcript that a SOCKS server may leave. -/
structure LegalTranscript (tr : List SessionIo) : Prop where
  selects_first : SelectsFirst tr
  replies_once : RepliesOnce tr
  succeeds_truly : SucceedsTruly tr
  relays_after : RelaysAfter tr

/-! ### The sessions -/

variable {ctx : SessionContext} {id : SessionId} {peer : PeerId} {request : SocksRequest} {tr : List SessionIo}
  {u v w : Unit}

theorem runs_ask_bind {α : Type} {q : SessionCall} {f : q.Answer → SessionM α} {a : α} :
    Runs (ask q >>= f) u tr a v ↔ ∃ x t, tr = ⟨q, x⟩ :: t ∧ Runs (f x) u t a v := by
  rw [runs_bind]
  constructor
  · rintro ⟨t₁, x, _, t₂, rfl, h₁, h₂⟩
    obtain ⟨rfl, -⟩ := runs_ask.1 h₁
    exact ⟨x, t₂, rfl, h₂⟩
  · rintro ⟨x, t, rfl, h⟩
    exact ⟨[_], x, u, t, rfl, runs_ask.2 ⟨rfl, rfl⟩, h⟩

private theorem runs_sendGeneralFailure (h : Runs sendGeneralFailure u tr v w) :
    ∃ x, tr = [⟨.writeReply .generalFailure .unspecified, x⟩] := by
  obtain ⟨x, t, rfl, h₁⟩ := runs_ask_bind.1 h
  obtain ⟨rfl, -⟩ := runs_pure.1 h₁
  exact ⟨x, rfl⟩

/-- Nothing is written to the client, and nothing fails to open. -/
private def Silent (x : SessionIo) : Prop := isMessage x = false ∧ failsToOpen x = false

private theorem serveStream_silent {target : TargetAddr} (h : Runs (serveStream ctx id peer target) u tr v w) :
    ∀ x ∈ tr, Silent x := by
  have hlaw : Law fun (_ : Unit) (tr : List SessionIo) (_ : Unit) => ∀ x ∈ tr, Silent x :=
    ⟨fun _ _ hx => absurd hx List.not_mem_nil, fun h₁ h₂ x hx => (List.mem_append.1 hx).elim (h₁ x) (h₂ x)⟩
  have hask : ∀ q : SessionCall, (∀ x, Silent ⟨q, x⟩) →
      Obeys (fun (_ : Unit) (tr : List SessionIo) (_ : Unit) => ∀ x ∈ tr, Silent x) (ask q) := fun q hq =>
    Obeys.ask fun _ x e he => by
      obtain rfl := List.mem_singleton.1 he
      exact hq x
  refine Obeys.bind hlaw (hask _ fun _ => ⟨rfl, rfl⟩) (fun r => ?_) _ _ _ _ h
  cases r with
  | error e => exact Obeys.pure hlaw ()
  | ok r =>
    exact Obeys.bind hlaw (hask _ fun _ => ⟨rfl, rfl⟩) fun _ =>
      Obeys.bind hlaw (hask _ fun _ => ⟨rfl, rfl⟩) fun _ =>
      Obeys.bind hlaw (hask _ fun _ => ⟨rfl, rfl⟩) fun _ =>
      Obeys.bind hlaw (hask _ fun _ => ⟨rfl, rfl⟩) fun _ => hask _ fun _ => ⟨rfl, rfl⟩

theorem runs_rejectStream {e : StreamError} (h : Runs (rejectStream peer e) u tr v w) :
    ∃ x, tr = (if e.isTerminalForPeer then [⟨.peerUnusable peer, ()⟩] else []) ++
      [⟨.writeReply .generalFailure .unspecified, x⟩] := by
  unfold rejectStream at h
  by_cases he : e.isTerminalForPeer
  · rw [if_pos he] at h ⊢
    obtain ⟨y, t, rfl, h₁⟩ := runs_ask_bind.1 h
    obtain ⟨x, rfl⟩ := runs_sendGeneralFailure h₁
    exact ⟨x, rfl⟩
  · rw [if_neg he] at h ⊢
    exact runs_sendGeneralFailure h

/-- After the request, success is reported at once; then the stream is opened, or the client is told of a failure. -/
theorem serveRequest_cases (h : Runs (serveRequest ctx id peer request) u tr v w) :
    (∃ e, tr = [⟨.writeReply .succeeded request.address, .error e⟩]) ∨
    (∃ e x, tr = ⟨.writeReply .succeeded request.address, .ok ()⟩ :: ⟨.openStream peer, .error e⟩ ::
      ((if e.isTerminalForPeer then [⟨.peerUnusable peer, ()⟩] else []) ++
        [⟨.writeReply .generalFailure .unspecified, x⟩])) ∨
    ∃ t, tr = ⟨.writeReply .succeeded request.address, .ok ()⟩ :: ⟨.openStream peer, .ok ()⟩ :: t ∧
      ∀ x ∈ t, Silent x := by
  obtain ⟨written, t, rfl, h₁⟩ := runs_ask_bind.1 h
  cases written with
  | error e =>
    obtain ⟨rfl, -⟩ := runs_pure.1 h₁
    exact .inl ⟨e, rfl⟩
  | ok _ =>
    obtain ⟨stream, t, rfl, h₂⟩ := runs_ask_bind.1 h₁
    right
    cases stream with
    | error e =>
      obtain ⟨x, rfl⟩ := runs_rejectStream h₂
      exact .inl ⟨e, x, rfl⟩
    | ok _ => exact .inr ⟨t, rfl, serveStream_silent h₂⟩

/-- A session whose exit is found ends before it has read a request, or serves the request. -/
theorem handleSocksConnection_cases (h : Runs (handleSocksConnection ctx peer) u tr v w) :
    (∃ id, (∃ e, tr = [⟨.newSessionId, id⟩, ⟨.readGreeting, .error e⟩]) ∨ ∃ methods,
      (∃ x, tr = [⟨.newSessionId, id⟩, ⟨.readGreeting, .ok methods⟩, ⟨.writeMethod .noAcceptableMethods, x⟩]) ∨
      (∃ e, tr = [⟨.newSessionId, id⟩, ⟨.readGreeting, .ok methods⟩, ⟨.writeMethod .noAuth, .error e⟩]) ∨
      ∃ e, tr = [⟨.newSessionId, id⟩, ⟨.readGreeting, .ok methods⟩, ⟨.writeMethod .noAuth, .ok ()⟩,
        ⟨.readRequest, .error e⟩]) ∨
    ∃ id methods request t,
      tr = ⟨.newSessionId, id⟩ :: ⟨.readGreeting, .ok methods⟩ :: ⟨.writeMethod .noAuth, .ok ()⟩ ::
      ⟨.readRequest, .ok request⟩ :: t ∧ Runs (serveRequest ctx id peer request) u t v w := by
  obtain ⟨id, t, rfl, h₁⟩ := runs_ask_bind.1 h
  obtain ⟨greeting, t, rfl, h₂⟩ := runs_ask_bind.1 h₁
  cases greeting with
  | error e =>
    obtain ⟨rfl, -⟩ := runs_pure.1 h₂
    exact .inl ⟨id, .inl ⟨e, rfl⟩⟩
  | ok methods =>
    dsimp only at h₂
    split at h₂
    · obtain ⟨x, t, rfl, h₃⟩ := runs_ask_bind.1 h₂
      obtain ⟨rfl, -⟩ := runs_pure.1 h₃
      exact .inl ⟨id, .inr ⟨methods, .inl ⟨x, rfl⟩⟩⟩
    · obtain ⟨written, t, rfl, h₃⟩ := runs_ask_bind.1 h₂
      cases written with
      | error e =>
        obtain ⟨rfl, -⟩ := runs_pure.1 h₃
        exact .inl ⟨id, .inr ⟨methods, .inr (.inl ⟨e, rfl⟩)⟩⟩
      | ok _ =>
        obtain ⟨request, t, rfl, h₄⟩ := runs_ask_bind.1 h₃
        cases request with
        | error e =>
          obtain ⟨rfl, -⟩ := runs_pure.1 h₄
          exact .inl ⟨id, .inr ⟨methods, .inr (.inr ⟨e, rfl⟩)⟩⟩
        | ok request => exact .inr ⟨id, methods, request, t, rfl, h₄⟩

/-- Without an exit the session ends with a failure, before anything was read. -/
theorem runSession_cases (h : Runs (runSession ctx) u tr v w) :
    (∃ r x, (∀ peer, r ≠ some (some peer)) ∧ tr = [⟨.loadDestination, none⟩, ⟨.requestNewPeer ctx.port, r⟩,
      ⟨.writeReply .generalFailure .unspecified, x⟩]) ∨
    ∃ lookup peer t, tr = lookup ++ t ∧ (lookup = [⟨.loadDestination, some peer⟩] ∨
      lookup = [⟨.loadDestination, none⟩, ⟨.requestNewPeer ctx.port, some (some peer)⟩]) ∧
      Runs (handleSocksConnection ctx peer) u t v w := by
  obtain ⟨known, t, rfl, h₁⟩ := runs_ask_bind.1 h
  cases known with
  | some peer => exact .inr ⟨[⟨.loadDestination, some peer⟩], peer, t, rfl, .inl rfl, h₁⟩
  | none =>
    obtain ⟨r, t, rfl, h₂⟩ := runs_ask_bind.1 h₁
    rcases r with _ | _ | peer
    · obtain ⟨x, rfl⟩ := runs_sendGeneralFailure h₂
      exact .inl ⟨none, x, by simp, rfl⟩
    · obtain ⟨x, rfl⟩ := runs_sendGeneralFailure h₂
      exact .inl ⟨some none, x, by simp, rfl⟩
    · exact .inr ⟨[⟨.loadDestination, none⟩, ⟨.requestNewPeer ctx.port, some (some peer)⟩], peer, t, rfl, .inr rfl, h₂⟩

/-! ### Which sessions break which rule -/

/-- Which of the rules hold of a session whose exit is found. -/
structure Keeps (tr : List SessionIo) : Prop where
  selects_first : SelectsFirst tr
  replies_once : RepliesOnce tr ↔ ∀ x ∈ tr, failsToOpen x = false
  succeeds_truly : SucceedsTruly tr ↔ ∀ x ∈ tr, readsCommand x = none
  relays_after : RelaysAfter tr ↔ ∀ x ∈ tr, failsToOpen x = false
  opens_requested : (∀ x ∈ tr, readsCommand x = none) → ∀ x ∈ tr, failsToOpen x = false

theorem everyCut_of_mem {P : List SessionIo → SessionIo → List SessionIo → Prop}
    (h : ∀ e ∈ tr, ∀ before after, P before e after) : EveryCut P tr := by
  rintro before e after rfl
  exact h e (List.mem_append_right _ (List.mem_cons_self ..)) before after

private theorem not_message {x : SessionIo} (h : isMessage x = false) :
    selectsNoAuth x = false ∧ isReply x = false ∧ saysSucceeded x = false := by
  obtain ⟨q, y⟩ := x
  cases q with
  | writeMethod method => cases h
  | writeReply reply address => cases h
  | _ => exact ⟨rfl, rfl, rfl⟩

private theorem not_succeeded {x : SessionIo} (h : isReply x = false) : saysSucceeded x = false := by
  obtain ⟨q, y⟩ := x
  cases q with
  | writeReply reply address => cases h
  | _ => rfl

/-- Nothing of the request: it is not read, no reply is sent, and no stream fails to open. -/
private def Unrequested (x : SessionIo) : Prop :=
  isReply x = false ∧ readsCommand x = none ∧ failsToOpen x = false

/-- Without a request, all rules about replies are kept. -/
private theorem Keeps.of_unrequested (hselects : SelectsFirst tr) (hnone : ∀ x ∈ tr, Unrequested x) : Keeps tr := by
  have hopens : ∀ x ∈ tr, failsToOpen x = false := fun x hx => (hnone x hx).2.2
  have hsucceeded : ∀ e ∈ tr, ¬saysSucceeded e = true := by
    intro e he h
    rw [not_succeeded (hnone e he).1] at h
    cases h
  have hreplies : RepliesOnce tr := by
    rintro before e after rfl -
    have hzero : after.countP isReply = 0 := by
      refine List.countP_eq_zero.2 fun x hx => ?_
      rw [(hnone x (List.mem_append_right _ (List.mem_cons_of_mem _ hx))).1]
      exact Bool.false_ne_true
    omega
  constructor
  · exact hselects
  · exact iff_of_true hreplies hopens
  · exact iff_of_true (everyCut_of_mem fun e he _ _ h => absurd h (hsucceeded e he)) fun x hx => (hnone x hx).2.1
  · exact iff_of_true (everyCut_of_mem fun e he _ _ h => absurd h (hsucceeded e he)) hopens
  · exact fun _ => hopens

/-- The lookup of the exit does not count for any rule. -/
private theorem Keeps.cons {x : SessionIo} (h : Keeps tr) (hmessage : isMessage x = false)
    (hread : readsGreeting x = false ∧ readsCommand x = none)
    (hopen : opensStream x = false ∧ failsToOpen x = false ∧ initsSession x = false) : Keeps (x :: tr) := by
  obtain ⟨hauth, hreply, hsucceeded⟩ := not_message hmessage
  have hselects : SelectsFirst (x :: tr) ↔ SelectsFirst tr := by
    simp [SelectsFirst, hmessage, hread.1]
  have hreplies : RepliesOnce (x :: tr) ↔ RepliesOnce tr := by
    simp [RepliesOnce, hauth]
  have hsucceeds : SucceedsTruly (x :: tr) ↔ SucceedsTruly tr := by
    simp [SucceedsTruly, hsucceeded, hread.2, hopen.1, hopen.2.2]
  have hrelays : RelaysAfter (x :: tr) ↔ RelaysAfter tr := by
    simp [RelaysAfter, hsucceeded]
  constructor
  · exact hselects.2 h.selects_first
  · rw [hreplies, h.replies_once]
    simp [hopen.2.1]
  · rw [hsucceeds, h.succeeds_truly]
    simp [hread.2]
  · rw [hrelays, h.relays_after]
    simp [hopen.2.1]
  · simpa [hopen.2.1, hread.2] using h.opens_requested

/-- The first reply is success, and the only other one is the failure to open the stream. -/
private theorem serveRequest_replies (h : Runs (serveRequest ctx id peer request) u tr v w) :
    ∃ x t, tr = ⟨.writeReply .succeeded request.address, x⟩ :: t ∧
      (∀ y ∈ t, saysSucceeded y = false ∧ selectsNoAuth y = false) ∧
      ((∀ y ∈ t, Silent y) ∨ (∃ y ∈ t, failsToOpen y = true) ∧ ∃ y ∈ t, isReply y = true) := by
  rcases serveRequest_cases h with ⟨e, rfl⟩ | ⟨e, x, rfl⟩ | ⟨t, rfl, hsilent⟩
  · exact ⟨.error e, [], rfl, by simp, .inl (by simp)⟩
  · refine ⟨.ok (), _, rfl, ?_, .inr ⟨⟨⟨.openStream peer, .error e⟩, List.mem_cons_self .., rfl⟩, ?_⟩⟩
    · by_cases he : e.isTerminalForPeer = true <;> simp [he, saysSucceeded, selectsNoAuth]
    · exact ⟨⟨.writeReply .generalFailure .unspecified, x⟩, by simp, rfl⟩
  · refine ⟨.ok (), _, rfl, ?_, .inl ?_⟩
    · intro y hy
      rcases List.mem_cons.1 hy with rfl | hy
      · exact ⟨rfl, rfl⟩
      · exact ⟨(not_message (hsilent y hy).1).2.2, (not_message (hsilent y hy).1).1⟩
    · exact List.forall_mem_cons.2 ⟨⟨rfl, rfl⟩, hsilent⟩

/-- Once a method was selected after the greeting, the first rule is kept, whatever follows. -/
private theorem selectsFirst_of_method {methods : List AuthMethod} {method : AuthMethod} {x : Except String Unit} :
    SelectsFirst (⟨.newSessionId, id⟩ :: ⟨.readGreeting, .ok methods⟩ :: ⟨.writeMethod method, x⟩ :: tr) := by
  simp only [SelectsFirst, everyCut_cons]
  refine ⟨by simp [isMessage], by simp [isMessage], fun _ _ => ⟨rfl, ⟨.readGreeting, .ok methods⟩, by simp, rfl⟩, ?_⟩
  refine everyCut_of_mem fun e _ before after _ hnone => ?_
  have hmessage := hnone ⟨.writeMethod method, x⟩ (by simp)
  cases hmessage

section Request

variable {methods : List AuthMethod} {x : Except String Unit}

/-- A session that has read a request, from its id to the first reply. -/
private def uptoReply (id : SessionId) (methods : List AuthMethod) (request : SocksRequest) (x : Except String Unit)
    (t : List SessionIo) : List SessionIo :=
  ⟨.newSessionId, id⟩ :: ⟨.readGreeting, .ok methods⟩ :: ⟨.writeMethod .noAuth, .ok ()⟩ ::
    ⟨.readRequest, .ok request⟩ ::
    ⟨.writeReply .succeeded request.address, x⟩ :: t

private theorem failsToOpen_uptoReply : (∀ y ∈ uptoReply id methods request x tr, failsToOpen y = false) ↔
    ∀ y ∈ tr, failsToOpen y = false := by
  simp [uptoReply, failsToOpen]

private theorem not_succeedsTruly : ¬SucceedsTruly (uptoReply id methods request x tr) := by
  intro h
  have hopen := (h [⟨.newSessionId, id⟩, ⟨.readGreeting, .ok methods⟩, ⟨.writeMethod .noAuth, .ok ()⟩,
    ⟨.readRequest, .ok request⟩] ⟨.writeReply .succeeded request.address, x⟩ tr rfl rfl).2.1
  simp [opensStream] at hopen

private theorem repliesOnce_iff (hquiet : ∀ y ∈ tr, saysSucceeded y = false ∧ selectsNoAuth y = false) :
    RepliesOnce (uptoReply id methods request x tr) ↔ ∀ y ∈ tr, isReply y = false := by
  have hcount : List.countP isReply (⟨.readRequest, .ok request⟩ :: ⟨.writeReply .succeeded request.address, x⟩ :: tr) =
      tr.countP isReply + 1 := by simp [List.countP_cons, isReply]
  have hnone : (∀ y ∈ tr, isReply y = false) ↔ tr.countP isReply = 0 := by
    rw [List.countP_eq_zero]
    simp
  rw [hnone]
  constructor
  · intro h
    have hle := h [⟨.newSessionId, id⟩, ⟨.readGreeting, .ok methods⟩] ⟨.writeMethod .noAuth, .ok ()⟩ _ rfl rfl
    omega
  · intro h
    simp only [RepliesOnce, uptoReply, everyCut_cons]
    refine ⟨by simp [selectsNoAuth], by simp [selectsNoAuth], fun _ => by omega, by simp [selectsNoAuth],
      by simp [selectsNoAuth], ?_⟩
    refine everyCut_of_mem fun y hy _ _ hauth => ?_
    rw [(hquiet y hy).2] at hauth
    cases hauth

private theorem relaysAfter_iff (hquiet : ∀ y ∈ tr, saysSucceeded y = false ∧ selectsNoAuth y = false) :
    RelaysAfter (uptoReply id methods request x tr) ↔ ∀ y ∈ tr, isMessage y = false := by
  constructor
  · intro h
    exact h [⟨.newSessionId, id⟩, ⟨.readGreeting, .ok methods⟩, ⟨.writeMethod .noAuth, .ok ()⟩,
      ⟨.readRequest, .ok request⟩] ⟨.writeReply .succeeded request.address, x⟩ tr rfl rfl
  · intro h
    simp only [RelaysAfter, uptoReply, everyCut_cons]
    refine ⟨by simp [saysSucceeded], by simp [saysSucceeded], by simp [saysSucceeded], by simp [saysSucceeded],
      fun _ => h, ?_⟩
    refine everyCut_of_mem fun y hy _ _ hsucceeded => ?_
    rw [(hquiet y hy).1] at hsucceeded
    cases hsucceeded

/-- A session that has read a request reports success before anything was done, and again reports a failure when the
stream cannot be opened. -/
private theorem keeps_of_request (h : Runs (serveRequest ctx id peer request) u tr v w) :
    Keeps (⟨.newSessionId, id⟩ :: ⟨.readGreeting, .ok methods⟩ :: ⟨.writeMethod .noAuth, .ok ()⟩ ::
      ⟨.readRequest, .ok request⟩ :: tr) := by
  obtain ⟨x, t, rfl, hquiet, hrest⟩ := serveRequest_replies h
  have hreplies : (∀ y ∈ t, isReply y = false) ↔ ∀ y ∈ t, failsToOpen y = false := by
    rcases hrest with hsilent | ⟨⟨y, hy, hfails⟩, z, hz, hreply⟩
    · exact iff_of_true (fun y hy => (not_message (hsilent y hy).1).2.1) fun y hy => (hsilent y hy).2
    · exact iff_of_false (fun h => by simp [h z hz] at hreply) fun h => by simp [h y hy] at hfails
  have hread : ¬∀ y ∈ uptoReply id methods request x t, readsCommand y = none := fun hnone => by
    have hcommand := hnone ⟨.readRequest, .ok request⟩ (by simp [uptoReply])
    cases hcommand
  have hmessages : (∀ y ∈ t, isMessage y = false) ↔ ∀ y ∈ t, failsToOpen y = false := by
    rcases hrest with hsilent | ⟨⟨y, hy, hfails⟩, z, hz, hreply⟩
    · exact iff_of_true (fun y hy => (hsilent y hy).1) fun y hy => (hsilent y hy).2
    · exact iff_of_false (fun h => by simp [(not_message (h z hz)).2.1] at hreply) fun h => by simp [h y hy] at hfails
  constructor
  · exact selectsFirst_of_method
  · exact (repliesOnce_iff hquiet).trans (hreplies.trans failsToOpen_uptoReply.symm)
  · exact iff_of_false not_succeedsTruly hread
  · exact (relaysAfter_iff hquiet).trans (hmessages.trans failsToOpen_uptoReply.symm)
  · exact fun hnone => absurd hnone hread

end Request

private theorem handleSocksConnection_keeps (h : Runs (handleSocksConnection ctx peer) u tr v w) : Keeps tr := by
  rcases handleSocksConnection_cases h with ⟨id, hend⟩ | ⟨id, methods, request, t, rfl, hserve⟩
  · rcases hend with ⟨e, rfl⟩ | ⟨methods, ⟨x, rfl⟩ | ⟨e, rfl⟩ | ⟨e, rfl⟩⟩
    · refine .of_unrequested (everyCut_of_mem fun y hy _ _ hmessage => ?_)
        (by simp [Unrequested, isReply, readsCommand, failsToOpen])
      rcases List.mem_cons.1 hy with rfl | hy
      · cases hmessage
      · rw [List.mem_singleton.1 hy] at hmessage
        cases hmessage
    all_goals exact .of_unrequested selectsFirst_of_method (by simp [Unrequested, isReply, readsCommand, failsToOpen])
  · exact keeps_of_request hserve

/-- A session keeps the first rule iff it finds an exit, the second and the fourth iff no stream fails to open, and the
third iff it does not read a request: it keeps all of them iff it finds an exit and ends before the request. -/
theorem legal_transcript_iff (h : Runs (runSession ctx) () tr () ()) :
    (SelectsFirst tr ↔ ∃ x ∈ tr, findsPeer x = true) ∧ (RepliesOnce tr ↔ ∀ x ∈ tr, failsToOpen x = false) ∧
      (SucceedsTruly tr ↔ ∀ x ∈ tr, readsCommand x = none) ∧ (RelaysAfter tr ↔ ∀ x ∈ tr, failsToOpen x = false) ∧
      (LegalTranscript tr ↔ (∃ x ∈ tr, findsPeer x = true) ∧ ∀ x ∈ tr, readsCommand x = none) := by
  rcases runSession_cases h with ⟨r, x, hr, rfl⟩ | ⟨lookup, peer, t, rfl, hlookup, hsession⟩
  · -- without an exit the first message is a failure
    have hnobody : findsPeer ⟨.requestNewPeer ctx.port, r⟩ = false := by
      rcases r with _ | _ | peer
      · rfl
      · rfl
      · exact absurd rfl (hr peer)
    have hfirst : ¬SelectsFirst [⟨.loadDestination, none⟩, ⟨.requestNewPeer ctx.port, r⟩,
        ⟨.writeReply .generalFailure .unspecified, x⟩] := by
      simp [SelectsFirst, isMessage, isMethod]
    have hnone : ¬∃ y ∈ ([⟨.loadDestination, none⟩, ⟨.requestNewPeer ctx.port, r⟩,
        ⟨.writeReply .generalFailure .unspecified, x⟩] : List SessionIo), findsPeer y = true := by
      rintro ⟨y, hy, hfinds⟩
      simp only [List.mem_cons, List.not_mem_nil, or_false] at hy
      rcases hy with rfl | rfl | rfl
      · cases hfinds
      · rw [hnobody] at hfinds
        cases hfinds
      · cases hfinds
    refine ⟨iff_of_false hfirst hnone, ?_, ?_, ?_,
      iff_of_false (fun hl => hfirst hl.selects_first) fun hfinds => hnone hfinds.1⟩
    · simp [RepliesOnce, selectsNoAuth, failsToOpen]
    · simp [SucceedsTruly, saysSucceeded, readsCommand]
    · simp [RelaysAfter, saysSucceeded, failsToOpen]
  · -- looking the peer up sends no message
    have hkeeps : Keeps (lookup ++ t) := by
      rcases hlookup with rfl | rfl
      · exact (handleSocksConnection_keeps hsession).cons rfl ⟨rfl, rfl⟩ ⟨rfl, rfl, rfl⟩
      · exact ((handleSocksConnection_keeps hsession).cons rfl ⟨rfl, rfl⟩ ⟨rfl, rfl, rfl⟩).cons rfl ⟨rfl, rfl⟩
          ⟨rfl, rfl, rfl⟩
    have hfinds : ∃ x ∈ lookup ++ t, findsPeer x = true := by
      rcases hlookup with rfl | rfl
      · exact ⟨⟨.loadDestination, some peer⟩, by simp, rfl⟩
      · exact ⟨⟨.requestNewPeer ctx.port, some (some peer)⟩, by simp, rfl⟩
    refine ⟨iff_of_true hkeeps.selects_first hfinds, hkeeps.replies_once, hkeeps.succeeds_truly,
      hkeeps.relays_after, ?_⟩
    rw [and_iff_right hfinds]
    constructor
    · intro hl
      exact hkeeps.succeeds_truly.1 hl.succeeds_truly
    · intro hnone
      have hopens := hkeeps.opens_requested hnone
      exact ⟨hkeeps.selects_first, hkeeps.replies_once.2 hopens, hkeeps.succeeds_truly.2 hnone,
        hkeeps.relays_after.2 hopens⟩

section Fixture

private def listening : SessionContext := { port := 1080, token := "token" }

private def exit : PeerId := ⟨[1]⟩

/-- A client that connects while the port has an exit, and does not offer to go without authentication. -/
theorem legal_transcript_iff_refused :
    LegalTranscript [⟨.loadDestination, some exit⟩, ⟨.newSessionId, 0⟩, ⟨.readGreeting, .ok [.other 2]⟩,
      ⟨.writeMethod .noAcceptableMethods, .ok ()⟩] := by
  have hrun : Runs (runSession listening) () [⟨.loadDestination, some exit⟩, ⟨.newSessionId, 0⟩,
      ⟨.readGreeting, .ok [.other 2]⟩, ⟨.writeMethod .noAcceptableMethods, .ok ()⟩] () () :=
    ⟨_, _, rfl, _, _, rfl, _, _, rfl, _, _, rfl, rfl, rfl⟩
  refine (legal_transcript_iff hrun).2.2.2.2.2 ⟨⟨⟨.loadDestination, some exit⟩, by simp, rfl⟩, ?_⟩
  simp [readsCommand]

/-- A client asks to be connected, is told of success, and then of failure, since the stream to the exit does not
open. -/
theorem failure_after_success :
    let told : List SessionIo := [⟨.loadDestination, some exit⟩, ⟨.newSessionId, 0⟩, ⟨.readGreeting, .ok [.noAuth]⟩,
      ⟨.writeMethod .noAuth, .ok ()⟩, ⟨.readRequest, .ok { command := .connect, address := .domainAddress "a" 80 }⟩,
      ⟨.writeReply .succeeded (.domainAddress "a" 80), .ok ()⟩, ⟨.openStream exit, .error (.openTimeout exit)⟩,
      ⟨.writeReply .generalFailure .unspecified, .ok ()⟩]
    Runs (runSession listening) () told () () ∧ ¬LegalTranscript told := by
  intro told
  have hrun : Runs (runSession listening) () told () () :=
    ⟨_, _, rfl, _, _, rfl, _, _, rfl, _, _, rfl, _, _, rfl, _, _, rfl, _, _, rfl, _, _, rfl, rfl, rfl⟩
  refine ⟨hrun, fun hl => ?_⟩
  have hsilent := hl.relays_after [⟨.loadDestination, some exit⟩, ⟨.newSessionId, 0⟩, ⟨.readGreeting, .ok [.noAuth]⟩,
    ⟨.writeMethod .noAuth, .ok ()⟩, ⟨.readRequest, .ok { command := .connect, address := .domainAddress "a" 80 }⟩]
    ⟨.writeReply .succeeded (.domainAddress "a" 80), .ok ()⟩ _ rfl rfl
    ⟨.writeReply .generalFailure .unspecified, .ok ()⟩
    (by simp)
  cases hsilent

end Fixture

end P2Proxy
