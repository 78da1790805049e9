import P2Proxy.Sessions

/-!
# Just-in-time requests

A session on a port without an exit sends a request and waits.  Of every request there is one message in the mail, or
one reply, and never both (`Booked`).  The actor takes the mail in the order in which it was sent, so a request is
replied to once the messages before it and itself have been handled, with the exit that the port has then
(`request_answered`).
-/

namespace P2Proxy

open Interaction

namespace Session

/-- The session waits for the reply to its request. -/
def Asks (t : Session) : Prop := t.waits = true ∧ ∃ port, t.call? = some (.requestNewPeer port)

/-- The session has not sent a request yet. -/
def Unasked (t : Session) : Prop := t.next ≠ none ∧ t.past.length ≤ 1 ∧ ¬t.Asks

end Session

namespace ProxySystem

/-- The actor is done with a message. -/
def Label.isHandles : Label → Bool
  | .handles _ => true
  | _ => false

variable {S : Type} {s s' s₁ : ProxySystem S} {i : Nat} {t : Session}

/-- The messages of session `i` that have not been handled, and the replies to it. -/
def outstanding (s : ProxySystem S) (i : Nat) : Nat :=
  s.mail.countP (fun m => m.asker = some i) + (s.replies i).toList.length

/-- A session that waits for a reply has one message or one reply, and a session that has not asked has none. -/
structure Booked (s : ProxySystem S) : Prop where
  once : ∀ i, s.outstanding i ≤ 1
  asks : ∀ i t, s.sessions[i]? = some t → t.Asks → s.outstanding i = 1
  unasked : ∀ i t, s.sessions[i]? = some t → t.Unasked → s.outstanding i = 0
  unaccepted : ∀ i, s.sessions.length ≤ i → s.outstanding i = 0

theorem Booked.init {ctx : Context} {sticky : S} {destinations : Destinations} :
    (init ctx sticky destinations).Booked where
  once _ := Nat.zero_le _
  asks _ _ ht := by cases ht
  unasked _ _ ht := by cases ht
  unaccepted _ _ := rfl

variable [StickyStore S] {ctx : Context} {token : String} {l : Label} {ls : List Label} {sticky : S}
  {destinations : Destinations}

/-- A request is always replied to. -/
theorem exists_reply {a a' : DiscoveryActor S} {tr : List Io} {port : Port}
    (h : DiscoveryActor.Step ctx a ⟨.requestNewPeer port, tr⟩ a') : ∃ r, replyIn tr = some r := by
  obtain ⟨t, r, rfl, -⟩ := DiscoveryActor.step_requestNewPeer.1 h
  exact ⟨r, by simp [replyIn]⟩

/-- Handling the current message turns a request into its reply. -/
theorem outstanding_handled {m : Message} {tr : List Io} {a : DiscoveryActor S} (hs : s.Sound ctx token)
    (hb : s.Booked) (hm : s.current = some m) (ha : DiscoveryActor.Step ctx s.actor ⟨m.event, tr⟩ a) (i : Nat) :
    outstanding { s with actor := a, current := none, replies := s.replied m tr } i = s.outstanding i := by
  have honce := hb.once i
  simp only [outstanding, mail, hm, replied, Option.toList_none, Option.toList_some, List.nil_append,
    List.singleton_append, List.countP_cons] at honce ⊢
  cases hasker : m.asker with
  | none => simp
  | some j =>
    by_cases hij : i = j
    · subst hij
      obtain ⟨t, -, hevent⟩ := hs.asked m (by simp [mail, hm]) i hasker
      rw [hevent] at ha
      obtain ⟨r, hr⟩ := exists_reply ha
      simp only [hasker, hr, decide_true, if_true, Function.update_self, Option.toList_some,
        List.length_singleton] at honce ⊢
      omega
    · have hne : ¬j = i := fun h => hij h.symm
      simp [hne, Function.update_of_ne hij]

/-- A step sends the request of session `i`, or leaves what is outstanding for it. -/
theorem Step.outstanding_cases (hs : s.Sound ctx token) (hb : s.Booked) (h : Step ctx token s l s') (i : Nat) :
    (∃ t port, s.sessions[i]? = some t ∧ t.waits = false ∧ t.call? = some (.requestNewPeer port) ∧
      s'.sessions[i]? = some { t with waits := true } ∧ s'.outstanding i = s.outstanding i + 1) ∨
    s'.outstanding i = s.outstanding i ∧ ∀ t port, l = .starts i → s.sessions[i]? = some t →
      t.call? ≠ some (.requestNewPeer port) := by
  cases l with
  | accepts port =>
    obtain ⟨-, rfl⟩ := h
    exact .inr ⟨rfl, by simp⟩
  | sends event =>
    obtain ⟨-, hpost⟩ := h
    obtain ⟨-, rfl⟩ := post_eq_some.1 hpost
    exact .inr ⟨by simp [outstanding, mail], by simp⟩
  | receives =>
    obtain ⟨m, ms, hcurrent, hinbox, rfl⟩ := h
    exact .inr ⟨by simp [outstanding, mail, hcurrent, hinbox], by simp⟩
  | handles tr =>
    obtain ⟨m, a, hm, ha, rfl⟩ := h
    exact .inr ⟨outstanding_handled hs hb hm ha i, by simp⟩
  | starts j =>
    obtain ⟨t, q, s₁, ht, hcall, hwaits, hstart, rfl⟩ := h
    rcases start_cases hstart with ⟨port, rfl, rfl⟩ | ⟨p, rfl, rfl⟩ | ⟨p, rfl, -, rfl⟩
    · by_cases hij : j = i
      · subst hij
        obtain ⟨hj, -⟩ := List.getElem?_eq_some_iff.1 ht
        refine .inl ⟨t, port, ht, hwaits, hcall, List.getElem?_set_self hj, ?_⟩
        simp only [outstanding, mail, List.countP_append, List.countP_singleton, decide_true, if_true]
        omega
      · refine .inr ⟨by simp [outstanding, mail, hij], ?_⟩
        rintro t port ⟨⟩
        exact absurd rfl hij
    all_goals
      refine .inr ⟨by simp [outstanding, mail], ?_⟩
      rintro u port ⟨⟩ hu hrequest
      obtain rfl : t = u := Option.some.inj (ht.symm.trans hu)
      rw [hcall] at hrequest
      cases hrequest
  | answers j e =>
    obtain ⟨t, k, -, -, -, rfl⟩ := h
    exact .inr ⟨rfl, by simp⟩
  | panics j =>
    obtain ⟨t, -, -, rfl⟩ := h
    exact .inr ⟨rfl, by simp⟩

omit [StickyStore S] in
/-- A session that has not asked comes from one that has not. -/
theorem Moves.unasked {t' : Session} (h : s.Moves i t l t') (hfollows : t.Follows ctx token) (ht' : t'.Unasked) :
    t.Unasked := by
  obtain ⟨hnext, hlength, hasks⟩ := ht'
  cases h with
  | starts hcall hwaits hstart =>
    refine ⟨hnext, hlength, ?_⟩
    rintro ⟨hw, -⟩
    rw [hwaits] at hw
    cases hw
  | hears hn ha =>
    refine ⟨by simp [hn], ?_, ?_⟩
    · simp only [Session.heard, List.length_append, List.length_singleton] at hlength
      omega
    · -- a request comes second
      rintro ⟨-, port, hcall⟩
      obtain ⟨-, hpast⟩ := hfollows.justified hcall
      simp [Session.heard, hpast] at hlength
  | panics => exact absurd rfl hnext

theorem Step.booked (hs : s.Sound ctx token) (hb : s.Booked) (h : Step ctx token s l s') : s'.Booked := by
  -- a session that sends its request has not asked before
  have hfirst : ∀ i t port, s.sessions[i]? = some t → t.waits = false → t.call? = some (.requestNewPeer port) →
      s.outstanding i = 0 := by
    intro i t port ht hwaits hcall
    obtain ⟨-, hpast⟩ := (hs.follows t (List.mem_of_getElem? ht)).justified hcall
    obtain ⟨k, hk⟩ := Session.call?_eq_some.1 hcall
    refine hb.unasked i t ht ⟨by simp [hk], by simp [hpast], ?_⟩
    rintro ⟨hw, -⟩
    rw [hwaits] at hw
    cases hw
  refine ⟨fun i => ?_, fun i t' ht' hasks => ?_, fun i t' ht' hunasked => ?_, fun i hi => ?_⟩
  · rcases h.outstanding_cases hs hb i with ⟨t, port, ht, hwaits, hcall, -, hsum⟩ | ⟨hsame, -⟩
    · rw [hsum, hfirst i t port ht hwaits hcall]
    · rw [hsame]
      exact hb.once i
  · rcases h.outstanding_cases hs hb i with ⟨t, port, ht, hwaits, hcall, -, hsum⟩ | ⟨hsame, hno⟩
    · rw [hsum, hfirst i t port ht hwaits hcall]
    · rw [hsame]
      rcases h.session_came_from ht' with ⟨t, ht, rfl | hmoves⟩ | ⟨port, -, rfl, -⟩
      · exact hb.asks i _ ht hasks
      · obtain ⟨hwaits, port, hcall⟩ := hasks
        cases hmoves with
        | starts hq hw hstart => exact absurd hcall (hno t port rfl ht)
        | hears => cases hwaits
        | panics => cases hwaits
      · cases hasks.1
  · rcases h.outstanding_cases hs hb i with ⟨t, port, -, -, hcall, hset, -⟩ | ⟨hsame, -⟩
    · obtain rfl := Option.some.inj (hset.symm.trans ht')
      exact absurd ⟨rfl, port, hcall⟩ hunasked.2.2
    · rw [hsame]
      rcases h.session_came_from ht' with ⟨t, ht, rfl | hmoves⟩ | ⟨port, -, -, rfl⟩
      · exact hb.unasked i _ ht hunasked
      · exact hb.unasked i t ht (hmoves.unasked (hs.follows t (List.mem_of_getElem? ht)) hunasked)
      · exact hb.unaccepted _ le_rfl
  · rcases h.outstanding_cases hs hb i with ⟨t, port, -, -, -, hset, -⟩ | ⟨hsame, -⟩
    · rw [List.getElem?_eq_none hi] at hset
      cases hset
    · rw [hsame]
      refine hb.unaccepted i (le_of_not_gt fun hlt => ?_)
      obtain ⟨t', ht', -⟩ := h.session_goes_on (List.getElem?_eq_getElem hlt)
      rw [List.getElem?_eq_none hi] at ht'
      cases ht'

/-! ### Taking turns -/

/-- The mail is a queue: its first message is handled, or something is put at its end. -/
theorem Step.mail_queue (h : Step ctx token s l s') :
    (∃ m tr, s.current = some m ∧ s.mail = m :: s'.mail ∧ l = .handles tr) ∨
      (∃ new, s'.mail = s.mail ++ new) ∧ l.isHandles = false := by
  cases l with
  | accepts port =>
    obtain ⟨-, rfl⟩ := h
    exact .inr ⟨⟨[], by simp [mail]⟩, rfl⟩
  | sends event =>
    obtain ⟨-, hpost⟩ := h
    obtain ⟨-, rfl⟩ := post_eq_some.1 hpost
    exact .inr ⟨⟨[_], by simp [mail]; rfl⟩, rfl⟩
  | receives =>
    obtain ⟨m, ms, hcurrent, hinbox, rfl⟩ := h
    exact .inr ⟨⟨[], by simp [mail, hcurrent, hinbox]⟩, rfl⟩
  | handles tr =>
    obtain ⟨m, a, hm, -, rfl⟩ := h
    exact .inl ⟨m, tr, hm, by simp [mail, hm], rfl⟩
  | starts i =>
    obtain ⟨t, q, s₁, -, -, -, hstart, rfl⟩ := h
    rcases start_cases hstart with ⟨port, -, rfl⟩ | ⟨p, -, rfl⟩ | ⟨p, -, -, rfl⟩
    · exact .inr ⟨⟨[_], by simp [mail]; rfl⟩, rfl⟩
    · exact .inr ⟨⟨[_], by simp [mail]; rfl⟩, rfl⟩
    · exact .inr ⟨⟨[], by simp [mail]⟩, rfl⟩
  | answers i e =>
    obtain ⟨t, k, -, -, -, rfl⟩ := h
    exact .inr ⟨⟨[], by simp [mail]⟩, rfl⟩
  | panics i =>
    obtain ⟨t, -, -, rfl⟩ := h
    exact .inr ⟨⟨[], by simp [mail]⟩, rfl⟩

/-- A reply is not taken back. -/
theorem Step.reply_stays (hb : s.Booked) (h : Step ctx token s l s') {r : Option PeerId}
    (hr : s.replies i = some r) : s'.replies i = some r := by
  rcases h.actor_cases with ⟨-, hsame⟩ | ⟨tr, m, -, hm, -, hreplied, -⟩
  · rwa [hsame]
  · rw [hreplied, replied]
    cases hasker : m.asker with
    | none => exact hr
    | some j =>
      by_cases hij : i = j
      · -- there is no message of a session that has its reply
        subst hij
        have honce := hb.once i
        simp [outstanding, mail, hm, hr, hasker] at honce
      · dsimp only
        rwa [Function.update_of_ne hij]

/-- Handling a request sends its reply. -/
theorem Step.replies_first {m : Message} {tr : List Io} (hs : s.Sound ctx token) (h : Step ctx token s (.handles tr) s')
    (hm : s.current = some m) (hasker : m.asker = some i) : ∃ r, s'.replies i = some r := by
  obtain ⟨m', a, hm', ha, rfl⟩ := h
  obtain rfl : m = m' := Option.some.inj (hm.symm.trans hm')
  obtain ⟨t, -, hevent⟩ := hs.asked m (by simp [mail, hm]) i hasker
  rw [hevent] at ha
  obtain ⟨r, hr⟩ := exists_reply ha
  exact ⟨r, by simp [replied, hasker, hr]⟩

/-- The reply to a request is sent when its turn comes, and stays. -/
private theorem replied_in_turn {n : Nat} {m : Message} (hs : s.Sound ctx token) (hb : s.Booked)
    (h : Reaches (Step ctx token) s ls s') (hm : s.mail[n]? = some m) (hasker : m.asker = some i)
    (hn : n < ls.countP Label.isHandles) : ∃ r, s'.replies i = some r := by
  induction h generalizing n with
  | nil s => simp at hn
  | @cons s s₁ s₂ l ls hl hrest ih =>
    have hs₁ := hl.sound hs
    have hb₁ := hl.booked hs hb
    rw [List.countP_cons] at hn
    rcases hl.mail_queue with ⟨first, tr, hcurrent, hmail, rfl⟩ | ⟨⟨new, hmail⟩, hother⟩
    · rw [Label.isHandles, if_pos rfl] at hn
      rw [hmail] at hm
      cases n with
      | zero =>
        obtain rfl : first = m := Option.some.inj hm
        obtain ⟨r, hr⟩ := hl.replies_first hs hcurrent hasker
        have hstays := hrest.invariant (I := fun s => s.Sound ctx token ∧ s.Booked ∧ s.replies i = some r)
          (fun _ _ _ hs hl => ⟨hl.sound hs.1, hl.booked hs.1 hs.2.1, hl.reply_stays hs.2.1 hs.2.2⟩) ⟨hs₁, hb₁, hr⟩
        exact ⟨r, hstays.2.2⟩
      | succ n => exact ih hs₁ hb₁ hm (by omega)
    · rw [hother] at hn
      refine ih hs₁ hb₁ ?_ (by simpa using hn)
      obtain ⟨hlt, -⟩ := List.getElem?_eq_some_iff.1 hm
      rw [hmail, List.getElem?_append_left hlt]
      exact hm

/-- The channel holds no more than its capacity. -/
theorem Step.inbox_bounded (hs : s.inbox.length ≤ inboxCapacity) (h : Step ctx token s l s') :
    s'.inbox.length ≤ inboxCapacity := by
  cases l with
  | accepts port =>
    obtain ⟨-, rfl⟩ := h
    exact hs
  | sends event =>
    obtain ⟨-, hpost⟩ := h
    obtain ⟨hroom, rfl⟩ := post_eq_some.1 hpost
    simpa using hroom
  | receives =>
    obtain ⟨m, ms, -, hinbox, rfl⟩ := h
    rw [hinbox, List.length_cons] at hs
    exact Nat.le_of_succ_le hs
  | handles tr =>
    obtain ⟨m, a, -, -, rfl⟩ := h
    exact hs
  | starts i =>
    obtain ⟨t, q, s₁, -, -, -, hstart, rfl⟩ := h
    cases q with
    | requestNewPeer port | peerUnusable port =>
      obtain ⟨hroom, rfl⟩ := post_eq_some.1 hstart
      simpa using hroom
    | openStream peer =>
      obtain ⟨-, rfl⟩ := acquire_eq_some.1 hstart
      exact hs
    | _ => cases hstart
  | answers i e =>
    obtain ⟨t, k, -, -, -, rfl⟩ := h
    exact hs
  | panics i =>
    obtain ⟨t, -, -, rfl⟩ := h
    exact hs

/-- A session that waits has its reply, or exactly one message in the mail, in front of which are no more messages than
the channel holds; once these and its own have been handled, it has the reply, with an exit that its port had
meanwhile. -/
theorem request_answered (hhandles : (DiscoveryActor.new sticky destinations).Handles ctx)
    (h : Reaches (Step ctx token) (init ctx sticky destinations) ls s) (ht : s.sessions[i]? = some t) (hasks : t.Asks) :
    ((∃ r, s.replies i = some r) ∧ ∀ m ∈ s.mail, m.asker ≠ some i) ∨
    s.replies i = none ∧ s.mail.countP (fun m => m.asker = some i) = 1 ∧ ∃ n ≤ inboxCapacity, ∃ m,
      s.mail[n]? = some m ∧ m.asker = some i ∧ ∀ ls' s', Reaches (Step ctx token) s ls' s' →
        n < ls'.countP Label.isHandles → ∃ r, s'.replies i = some r ∧ Once (Step ctx token) (ExitOf (i, r)) s ls' := by
  obtain ⟨hs, hb, hbounded⟩ := h.invariant (I := fun s => s.Sound ctx token ∧ s.Booked ∧ s.inbox.length ≤ inboxCapacity)
    (fun _ _ _ hs hl => ⟨hl.sound hs.1, hl.booked hs.1 hs.2.1, hl.inbox_bounded hs.2.2⟩)
    ⟨.init hhandles, .init, Nat.zero_le _⟩
  have hone := hb.asks i t ht hasks
  cases hreply : s.replies i with
  | some r =>
    left
    refine ⟨⟨r, rfl⟩, fun m hm hasker => ?_⟩
    have hpos : 0 < s.mail.countP (fun m => m.asker = some i) := List.countP_pos_iff.2 ⟨m, hm, by simpa using hasker⟩
    rw [outstanding, hreply, Option.toList_some, List.length_singleton] at hone
    omega
  | none =>
    right
    simp only [outstanding, hreply, Option.toList_none, List.length_nil, Nat.add_zero] at hone
    obtain ⟨m, hm, hasker⟩ := List.countP_pos_iff.1 (hone ▸ Nat.one_pos)
    obtain ⟨n, hn⟩ := List.getElem?_of_mem hm
    refine ⟨rfl, hone, n, ?_, m, hn, by simpa using hasker, fun ls' s' h' hcount => ?_⟩
    · obtain ⟨hlt, -⟩ := List.getElem?_eq_some_iff.1 hn
      have hcurrent : s.current.toList.length ≤ 1 := by cases s.current <;> simp
      rw [mail, List.length_append] at hlt
      omega
    · obtain ⟨r, hr⟩ := replied_in_turn hs hb h' hn (by simpa using hasker) hcount
      refine ⟨r, hr, ?_⟩
      have honce := h'.once (fun s (x : Nat × Option PeerId) => s.replies x.1 = some x.2) ExitOf
        (fun _ _ _ hs hl => hl.sound hs) (fun _ _ _ x hs hl hx => (hl.replies_truly hs hx).imp_right .inr) hs
        (x := (i, r)) hr
      refine honce.resolve_left fun hknown => ?_
      rw [hreply] at hknown
      cases hknown

/-- The request of the first session is on its way. -/
theorem request_answered_requesting :
    requesting.replies 0 = none ∧ requesting.mail.countP (fun m => m.asker = some 0) = 1 := by
  have hasks : requesting.sessions[0].Asks := ⟨rfl, 1080, rfl⟩
  rcases request_answered (i := 0) DiscoverySystem.handles_oneServer requesting_reaches rfl hasks with
    ⟨⟨r, hr⟩, -⟩ | ⟨hnone, hone, -⟩
  · cases hr
  · exact ⟨hnone, hone⟩

end ProxySystem

end P2Proxy
