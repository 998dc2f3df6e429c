import Elb.Dnsserver.Subscription

/-!
# Pushes for closed connections

Reference: `clearSubscribe` and `pushChange` in `dnsserver/src/Server.cc`, `SubscribeList::push` and
`SubscribeList::fetchPush` in `dnsserver/src/SubscribeList.cc`.

Subscriptions and pending pushes are keyed by descriptors. `clearSubscribe` takes the descriptor of
a closed connection out of `bookl` only, so what is pending for it stays in `pushl`, and a later
connection with the same descriptor is sent it. `AskedFor` says that this has not happened. What is
pending, fetched or subscribed comes from a request at first, so a step can only break `AskedFor` in
one of the three ways that `KeepsToRequests` excludes.
-/

namespace Elb

open Transition

namespace Handler

/-- The handler serves a request of the connection for the module. -/
def Serves (fd : ℕ) (key : UInt64) : Handler → Prop
  | .subscribing fd' modid cmdid => fd' = fd ∧ packKey modid cmdid = key
  | .reading fd' modid cmdid => fd' = fd ∧ packKey modid cmdid = key
  | .sending fd' rsp => fd' = fd ∧ packKey rsp.modid rsp.cmdid = key
  | _ => False

/-- The handler pushes the module to the connection: it has fetched the module, or it has made the
response. -/
def Pushes (fd : ℕ) (key : UInt64) : Handler → Prop
  | .pushing news => (fd, key) ∈ news
  | .pushSending fd' rsp news => fd' = fd ∧ packKey rsp.modid rsp.cmdid = key ∨ (fd, key) ∈ news
  | _ => False

/-- The module that the handler pushes next, with the descriptor. -/
def nextPush : Handler → Option (ℕ × UInt64)
  | .pushing (p :: _) => some p
  | _ => none

/-- The handler has the module of the closed connection still to unsubscribe. -/
def WillUnsubscribe (fd : ℕ) (key : UInt64) : Handler → Prop
  | .closing fd' book => fd' = fd ∧ key ∈ book
  | _ => False

/-- Only `clearSubscribe` of the descriptor unsubscribes it. -/
theorem WillUnsubscribe.closes {fd : ℕ} {key : UInt64} {h : Handler}
    (hw : h.WillUnsubscribe fd key) : h.closes fd = true := by
  cases h with
  | closing fd' book => exact decide_eq_true hw.1
  | _ => exact hw.elim

/-- A handler that serves a request works for its connection. -/
theorem Serves.uses {fd : ℕ} {key : UInt64} {h : Handler} (hs : h.Serves fd key) :
    h.Uses fd := by
  cases h with
  | subscribing fd' modid cmdid => exact hs.1
  | reading fd' modid cmdid => exact hs.1
  | sending fd' rsp => exact hs.1
  | _ => exact hs.elim

/-- So does one that pushes. -/
theorem Pushes.uses {fd : ℕ} {key : UInt64} {h : Handler} (hp : h.Pushes fd key) :
    h.Uses fd := by
  cases h with
  | pushing news => exact ⟨key, hp⟩
  | pushSending fd' rsp news => exact hp.imp And.left fun hmem => ⟨key, hmem⟩
  | _ => exact hp.elim

end Handler

namespace Server

variable {n : ℕ}

/-- There is a connection with the descriptor, and it has requested the module. -/
def Asks (s : Server n) (fd : ℕ) (key : UInt64) : Prop :=
  ∃ c, s.conns.lookup fd = some c ∧ key ∈ c.interest

/-- `pushl` holds a module for a descriptor only if its connection requested the module, and so it
is with what `pushChange` has fetched and with every route that was sent. -/
structure AskedFor (s : Server n) : Prop where
  pending : ∀ fd key, key ∈ s.list.pending fd → s.Asks fd key
  pushes : ∀ l fd key, (s.handler l).Pushes fd key → s.Asks fd key
  sent : ∀ fd c, s.conns.lookup fd = some c → ∀ rsp ∈ c.sent,
    packKey rsp.modid rsp.cmdid ∈ c.interest

/-- Nothing is pending for a connection that is closed; no module is pushed to a descriptor that is
being closed; and when `pushChange` takes the key of a module apart, the key it stands for is again
one that the connection requested, if the low half is negative. -/
def KeepsToRequests (s : Server n) : Op n → Prop
  | .close fd => s.list.pending fd = []
  | .push changes =>
    ∀ key ∈ changes, ∀ fd ∈ s.list.book key, ∀ l, (s.handler l).closes fd = false
  | .work l => ∀ p ∈ (s.handler l).nextPush, unpackLo p.2 < 0 → ∀ c ∈ s.conns.lookup p.1,
    packKey (unpackHi p.2) (unpackLo p.2) ∈ c.interest
  | _ => True

instance (s : Server n) : ∀ op, Decidable (s.KeepsToRequests op)
  | .close fd => inferInstanceAs (Decidable (s.list.pending fd = []))
  | .push changes => List.decidableBAll
      (fun key => ∀ fd ∈ s.list.book key, ∀ l, (s.handler l).closes fd = false) changes
  | .work l => inferInstanceAs (Decidable
      (∀ p ∈ (s.handler l).nextPush, unpackLo p.2 < 0 → ∀ c ∈ s.conns.lookup p.1,
        packKey (unpackHi p.2) (unpackLo p.2) ∈ c.interest))
  | .accept _ _ => inferInstanceAs (Decidable True)
  | .request _ _ _ => inferInstanceAs (Decidable True)
  | .task _ => inferInstanceAs (Decidable True)
  | .swap _ => inferInstanceAs (Decidable True)
  | .post => inferInstanceAs (Decidable True)

/-- A handler serves only what its connection requested. A descriptor is booked for a module only if
its connection requested the module, or was closed and is still to be unsubscribed. -/
structure Booked (s : Server n) : Prop where
  serves : ∀ l fd key, (s.handler l).Serves fd key → s.Asks fd key
  booked : ∀ fd key, fd ∈ s.list.book key →
    s.Asks fd key ∨ ∃ l, (s.handler l).WillUnsubscribe fd key

/-! ## What a step can do -/

/-- `send_data` alters one connection. -/
theorem lookup_deliver (s : Server n) (fd : ℕ) (rsp : GetRouteRsp) (fd' : ℕ) :
    (s.deliver fd rsp).conns.lookup fd' =
      (s.conns.lookup fd').map (Conn.alter fd (Conn.send rsp) fd') := by
  rw [deliver]
  cases hc : s.conns.lookup fd with
  | none =>
    dsimp only
    cases hc' : s.conns.lookup fd' with
    | none => rfl
    | some c' =>
      have hne : fd ≠ fd' := by
        rintro rfl
        cases hc.symm.trans hc'
      rw [Option.map_some, Conn.alter, if_neg hne]
  | some c => exact lookup_alter hc (Conn.send rsp) fd'

/-- A send moves no handler. -/
theorem deliver_handler (s : Server n) (fd : ℕ) (rsp : GetRouteRsp) :
    (s.deliver fd rsp).handler = s.handler := by
  rw [deliver]
  split <;> rfl

/-- `f` keeps the requests of a connection, and what it adds to the responses is in `rsps`. -/
def GoesOn (f : Conn n → Conn n) (rsps : List GetRouteRsp) : Prop :=
  ∀ c, c.interest ⊆ (f c).interest ∧ ∀ rsp ∈ (f c).sent, rsp ∈ c.sent ∨ rsp ∈ rsps

/-- Nothing is sent. -/
theorem goesOn_id (rsps : List GetRouteRsp) : GoesOn (id : Conn n → Conn n) rsps :=
  fun _ => ⟨fun _ h => h, fun _ h => .inl h⟩

/-- A handler sends a response. -/
theorem goesOn_send {fd fd' : ℕ} {rsp : GetRouteRsp} {rsps : List GetRouteRsp}
    (h : fd' = fd → rsp ∈ rsps) :
    GoesOn (Conn.alter (n := n) fd' (Conn.send rsp) fd) rsps := by
  intro c
  rw [Conn.alter]
  split
  · next heq =>
    refine ⟨fun _ hmem => hmem, fun rsp' hrsp => ?_⟩
    rcases List.mem_cons.mp hrsp with rfl | hrsp
    · exact .inr (h heq)
    · exact .inl hrsp
  · exact ⟨fun _ hmem => hmem, fun _ hmem => .inl hmem⟩

/-- A connection requests a module. -/
theorem goesOn_interested (fd fd' : ℕ) (key : UInt64) (rsps : List GetRouteRsp) :
    GoesOn (Conn.alter (n := n) fd' (Conn.interested key) fd) rsps := by
  intro c
  rw [Conn.alter]
  split
  · exact ⟨List.subset_cons_self _ _, fun _ hmem => .inl hmem⟩
  · exact ⟨fun _ hmem => hmem, fun _ hmem => .inl hmem⟩

/-- A handler that has a response in hand sends it, and no other handler touches a connection. -/
theorem exists_goesOn_work (s : Server n) (l : Fin n) (fd : ℕ) : ∃ f : Conn n → Conn n,
    (s.work l).conns.lookup fd = (s.conns.lookup fd).map f ∧
      GoesOn f ((s.handler l).inFlight fd) := by
  have hsame : (s.work l).conns = s.conns → ∃ f : Conn n → Conn n,
      (s.work l).conns.lookup fd = (s.conns.lookup fd).map f ∧
        GoesOn f ((s.handler l).inFlight fd) :=
    fun heq => ⟨id, by rw [heq, Option.map_id, id], goesOn_id _⟩
  cases hv : s.handler l with
  | sending fd' rsp =>
    refine ⟨Conn.alter fd' (Conn.send rsp) fd, ?_, goesOn_send fun heq => ?_⟩
    · rw [work, hv]
      exact lookup_deliver s fd' rsp fd
    · simp [heq, Handler.inFlight]
  | pushSending fd' rsp news =>
    refine ⟨Conn.alter fd' (Conn.send rsp) fd, ?_, goesOn_send fun heq => ?_⟩
    · rw [work, hv]
      exact lookup_deliver s fd' rsp fd
    · simp [heq, Handler.inFlight]
  | pushing news =>
    rw [hv] at hsame
    refine hsame ?_
    rw [work, hv]
    cases news <;> rfl
  | closing fd' book =>
    rw [hv] at hsame
    refine hsame ?_
    rw [work, hv]
    cases book <;> rfl
  | _ =>
    rw [hv] at hsame
    refine hsame ?_
    simp only [work, hv, setHandler]

/-- The responses that the step's handler has in hand for a descriptor. -/
def inHand (s : Server n) (fd : ℕ) : Op n → List GetRouteRsp
  | .work l => (s.handler l).inFlight fd
  | _ => []

/-- Only a handler has responses in hand. -/
theorem inFlight_of_inHand {s : Server n} {fd : ℕ} {op : Op n} {rsp : GetRouteRsp}
    (h : rsp ∈ s.inHand fd op) : ∃ l, rsp ∈ (s.handler l).inFlight fd := by
  cases op with
  | work l => exact ⟨l, h⟩
  | _ => cases h

/-- A step that neither makes nor closes the connection leaves it as open as it was, with its
requests. A response that is sent on it was in the hands of a handler. -/
theorem exists_goesOn (s : Server n) {op : Op n} {fd : ℕ} (haccept : ∀ l, op ≠ .accept fd l)
    (hclose : op ≠ .close fd) : ∃ f : Conn n → Conn n,
      (s.next op).conns.lookup fd = (s.conns.lookup fd).map f ∧ GoesOn f (s.inHand fd op) := by
  -- most steps do not touch the connections
  have hsame : (s.next op).conns.lookup fd = s.conns.lookup fd → ∃ f : Conn n → Conn n,
      (s.next op).conns.lookup fd = (s.conns.lookup fd).map f ∧ GoesOn f (s.inHand fd op) :=
    fun heq => ⟨id, by rw [heq, Option.map_id, id], goesOn_id _⟩
  cases op with
  | accept fd' l => exact hsame (AList.lookup_insert_ne fun heq => haccept l (heq ▸ rfl))
  | request fd' modid cmdid =>
    cases hc' : s.conns.lookup fd' with
    | none =>
      refine hsame ?_
      rw [next, hc']
    | some c' =>
      by_cases hmem : packKey modid cmdid ∈ c'.interest
      · refine hsame ?_
        simp only [next, hc', if_pos hmem]
        rfl
      · refine ⟨_, ?_, goesOn_interested fd fd' (packKey modid cmdid) _⟩
        simp only [next, hc', if_neg hmem]
        exact lookup_alter hc' (Conn.interested (packKey modid cmdid)) fd
  | close fd' =>
    have hne : fd ≠ fd' := fun heq => hclose (heq ▸ rfl)
    refine hsame ?_
    simp only [next]
    split
    · rfl
    · exact AList.lookup_erase_ne hne
  | work l => exact s.exists_goesOn_work l fd
  | task l => exact hsame rfl
  | swap data => exact hsame rfl
  | push changes => exact hsame rfl
  | post =>
    refine hsame ?_
    simp only [next]
    split <;> rfl

/-- A connection that is not closed stays, and so do its requests. A response that is sent on it was
in the hands of a handler. -/
theorem lookup_next {s : Server n} {op : Op n} (hop : s.Allowed op) {fd : ℕ} {c : Conn n}
    (hc : s.conns.lookup fd = some c) (hclose : op ≠ .close fd) :
    ∃ c', (s.next op).conns.lookup fd = some c' ∧ c.interest ⊆ c'.interest ∧
      ∀ rsp ∈ c'.sent, rsp ∈ c.sent ∨ rsp ∈ s.inHand fd op := by
  have haccept : ∀ l, op ≠ .accept fd l := by
    rintro l rfl
    cases hop.1.symm.trans hc
  obtain ⟨f, hf, hgo⟩ := s.exists_goesOn haccept hclose
  exact ⟨f c, by rw [hf, hc, Option.map_some], hgo c⟩

/-- A new connection has been sent nothing. -/
theorem sent_of_lookup_none {s : Server n} {op : Op n} {fd : ℕ} {c' : Conn n}
    (hnone : s.conns.lookup fd = none) (hc' : (s.next op).conns.lookup fd = some c') :
    c'.sent = [] := by
  by_cases haccept : ∃ l, op = .accept fd l
  · obtain ⟨l, rfl⟩ := haccept
    rw [next, AList.lookup_insert] at hc'
    cases hc'
    rfl
  · by_cases hclose : op = .close fd
    · subst hclose
      rw [next, hnone] at hc'
      cases hnone.symm.trans hc'
    · obtain ⟨f, hf, -⟩ := s.exists_goesOn (fun l heq => haccept ⟨l, heq⟩) hclose
      rw [hf, hnone] at hc'
      cases hc'

/-- What a connection has requested stays requested while it is open. -/
theorem Asks.next {s : Server n} {op : Op n} {fd : ℕ} {key : UInt64} (h : s.Asks fd key)
    (hop : s.Allowed op) (hclose : op ≠ .close fd) : (s.next op).Asks fd key := by
  obtain ⟨c, hc, hkey⟩ := h
  obtain ⟨c', hc', hsub, -⟩ := lookup_next hop hc hclose
  exact ⟨c', hc', hsub hkey⟩

/-- The handlers and the loader's push alone use the subscription list. -/
theorem list_next (s : Server n) (op : Op n) : (s.next op).list = s.list ∨
    (∃ l, op = .work l) ∨ ∃ changes, op = .push changes := by
  cases op with
  | work l => exact .inr (.inl ⟨l, rfl⟩)
  | push changes => exact .inr (.inr ⟨changes, rfl⟩)
  | request fd modid cmdid =>
    left
    simp only [next]
    split
    · rfl
    · split <;> rfl
  | close fd =>
    left
    simp only [next]
    split <;> rfl
  | post =>
    left
    simp only [next]
    split <;> rfl
  | accept fd l => exact .inl rfl
  | task l => exact .inl rfl
  | swap data => exact .inl rfl

/-- Only `push` adds to what is pending, and only for who is booked. -/
theorem pending_next {s : Server n} {op : Op n} {fd : ℕ} {key : UInt64}
    (h : key ∈ (s.next op).list.pending fd) : key ∈ s.list.pending fd ∨
      ∃ changes, op = .push changes ∧ key ∈ changes ∧ fd ∈ s.list.book key := by
  rcases s.list_next op with heq | ⟨l, rfl⟩ | ⟨changes, rfl⟩
  · exact .inl (heq ▸ h)
  · left
    simp only [next, work] at h
    split at h
    · exact h
    · exact h
    · exact h
    · rwa [setHandler, deliver_list] at h
    · exact SubscribeList.mem_pending_of_fetchPush h
    · exact h
    · exact h
    · rwa [setHandler, deliver_list] at h
    · exact h
    · rw [setHandler] at h
      rwa [SubscribeList.pending_unsubscribe] at h
  · rcases (s.list.mem_pending_push changes fd key).mp h with h | ⟨hmem, hbook⟩
    · exact .inl h
    · exact .inr ⟨changes, rfl, hmem, hbook⟩

/-- A handler moves when it goes on itself, and when a request, a close callback or a task starts on
its idle loop. -/
theorem handler_next {s : Server n} {op : Op n} (hop : s.Allowed op) (l : Fin n) :
    (s.next op).handler l = s.handler l ∨ op = .work l ∨ s.handler l = .idle ∧
      ((∃ listening, (s.next op).handler l = .fetching listening) ∨
        (∃ fd modid cmdid, ((s.next op).handler l = .reading fd modid cmdid ∨
          (s.next op).handler l = .subscribing fd modid cmdid) ∧
          (s.next op).Asks fd (packKey modid cmdid)) ∨
        ∃ fd c, op = .close fd ∧ s.conns.lookup fd = some c ∧
          (s.next op).handler l = .closing fd c.interest) := by
  -- a handler is set on one loop at a time
  have hset : ∀ (s : Server n) l' h, (s.setHandler l' h).handler l = s.handler l ∨
      l' = l ∧ (s.setHandler l' h).handler l = h := by
    intro s l' h
    -- another loop's handler may go on, not this one
    by_cases hl : l = l'
    · subst hl
      exact .inr ⟨rfl, setHandler_self s l h⟩
    · exact .inl (setHandler_of_ne s h hl)
  cases op with
  | request fd modid cmdid =>
    simp only [next]
    cases hc : s.conns.lookup fd with
    | none => exact .inl rfl
    | some c =>
      dsimp only
      split
      · next hmem =>
        refine (hset s c.loop _).imp_right ?_
        rintro ⟨hl, h⟩
        refine .inr ⟨hl ▸ hop c hc, .inr (.inl ?_)⟩
        exact ⟨fd, modid, cmdid, .inl h, c, hc, hmem⟩
      · refine (hset _ c.loop _).imp_right ?_
        rintro ⟨hl, h⟩
        refine .inr ⟨hl ▸ hop c hc, .inr (.inl ?_)⟩
        exact ⟨fd, modid, cmdid, .inr h, _, AList.lookup_insert _, List.mem_cons_self⟩
  | close fd =>
    simp only [next]
    cases hc : s.conns.lookup fd with
    | none => exact .inl rfl
    | some c =>
      refine (hset _ c.loop _).imp_right ?_
      rintro ⟨hl, h⟩
      exact .inr ⟨hl ▸ hop c hc, .inr (.inr ⟨fd, c, rfl, hc, h⟩)⟩
  | work l' =>
    by_cases hl : l = l'
    · exact .inr (.inl (congrArg Op.work hl.symm))
    · left
      have hne := fun (s : Server n) h => setHandler_of_ne s h hl
      simp only [next, work]
      split <;> simp only [hne, deliver_handler]
  | task l' =>
    refine (hset _ l' _).imp_right ?_
    rintro ⟨hl, h⟩
    exact .inr ⟨hl ▸ hop.1, .inl ⟨_, h⟩⟩
  | post =>
    left
    simp only [next]
    split <;> rfl
  | accept fd l' => exact .inl rfl
  | swap data => exact .inl rfl
  | push changes => exact .inl rfl

/-- A handler serves what it served before, or what was just requested. -/
theorem serves_next {s : Server n} {op : Op n} (hop : s.Allowed op) {l : Fin n} {fd : ℕ}
    {key : UInt64} (h : ((s.next op).handler l).Serves fd key) :
    (s.handler l).Serves fd key ∨ (s.next op).Asks fd key := by
  rcases handler_next hop l with heq | rfl | ⟨-, ⟨_, heq⟩ |
    ⟨fd', modid, cmdid, heq | heq, hasks⟩ | ⟨fd', c, -, -, heq⟩⟩
  · exact .inl (heq ▸ h)
  · left
    simp only [next, work] at h
    split at h <;> next hv => simp_all [Handler.Serves, routeRsp]
  · rw [heq] at h
    exact h.elim
  · rw [heq] at h
    obtain ⟨rfl, rfl⟩ := h
    exact .inr hasks
  · rw [heq] at h
    obtain ⟨rfl, rfl⟩ := h
    exact .inr hasks
  · rw [heq] at h
    exact h.elim

/-- A handler pushes what it has fetched, and what it has fetched was pending. -/
theorem pushes_next {s : Server n} {op : Op n} (hop : s.Allowed op) {l : Fin n} {fd : ℕ}
    {key : UInt64} (h : ((s.next op).handler l).Pushes fd key) : (s.handler l).Pushes fd key ∨
      op = .work l ∧ (key ∈ s.list.pending fd ∨
        ∃ mod, (s.handler l).nextPush = some (fd, mod) ∧
          key = packKey (unpackHi mod) (unpackLo mod)) := by
  rcases handler_next hop l with heq | rfl | ⟨-, ⟨_, heq⟩ |
    ⟨fd', modid, cmdid, heq | heq, -⟩ | ⟨fd', c, -, -, heq⟩⟩
  · exact .inl (heq ▸ h)
  · simp only [next, work] at h
    split at h
    · next hv => simp [hv, Handler.Pushes] at h
    · simp [Handler.Pushes] at h
    · simp [Handler.Pushes] at h
    · simp [Handler.Pushes] at h
    · -- what was pending is fetched
      next listening hv =>
      rw [setHandler_self] at h
      exact .inr ⟨rfl, .inl ((s.list.mem_fetchPush listening fd key).mp h).2⟩
    · simp [Handler.Pushes] at h
    · -- `pushChange` makes two ids of the next key again, which may be others
      next fd' mod news hv =>
      rw [setHandler_self] at h
      rcases h with ⟨rfl, rfl⟩ | h
      · exact .inr ⟨rfl, .inr ⟨mod, by rw [hv, Handler.nextPush], rfl⟩⟩
      · rw [hv]
        exact .inl (List.mem_cons_of_mem _ h)
    · next fd' rsp news hv =>
      rw [setHandler_self] at h
      rw [hv]
      exact .inl (.inr h)
    · simp [Handler.Pushes] at h
    · simp [Handler.Pushes] at h
  all_goals
    rw [heq] at h
    exact h.elim

/-- A descriptor is booked when its connection's request is served. -/
theorem book_next {s : Server n} {op : Op n} {fd : ℕ} {key : UInt64}
    (h : fd ∈ (s.next op).list.book key) : fd ∈ s.list.book key ∨
      ∃ l, op = .work l ∧ (s.handler l).Serves fd key := by
  rcases s.list_next op with heq | ⟨l, rfl⟩ | ⟨changes, rfl⟩
  · exact .inl (heq ▸ h)
  · simp only [next, work] at h
    split at h
    · exact .inl h
    · next fd' modid cmdid hv =>
      rcases (SubscribeList.mem_book_subscribe ..).mp h with ⟨rfl, rfl⟩ | h
      · exact .inr ⟨l, rfl, by simp [hv, Handler.Serves]⟩
      · exact .inl h
    · exact .inl h
    · rw [setHandler, deliver_list] at h
      exact .inl h
    · exact .inl h
    · exact .inl h
    · exact .inl h
    · rw [setHandler, deliver_list] at h
      exact .inl h
    · exact .inl h
    · exact .inl ((SubscribeList.mem_book_unsubscribe ..).mp h).1
  · exact .inl h

/-- A module that is to be unsubscribed is so until it is unsubscribed. -/
theorem willUnsubscribe_next {s : Server n} {op : Op n} (hop : s.Allowed op) {l : Fin n} {fd : ℕ}
    {key : UInt64} (h : (s.handler l).WillUnsubscribe fd key)
    (hbook : fd ∈ (s.next op).list.book key) :
    ((s.next op).handler l).WillUnsubscribe fd key := by
  rcases handler_next hop l with heq | rfl | ⟨hidle, -⟩
  · rwa [heq]
  · cases hv : s.handler l with
    | closing fd' book =>
      rw [hv] at h
      obtain ⟨rfl, hmem⟩ := h
      cases book with
      | nil => cases hmem
      | cons mod book =>
        simp only [next, work, hv, setHandler_self] at hbook ⊢
        -- the module at the head is unsubscribed now, and is not booked any more
        refine ⟨rfl, (List.mem_cons.mp hmem).resolve_left fun heq => ?_⟩
        exact ((SubscribeList.mem_book_unsubscribe ..).mp hbook).2 ⟨heq, rfl⟩
    | _ =>
      rw [hv] at h
      exact h.elim
  · rw [hidle] at h
    exact h.elim

/-! ## Every step -/

/-- A handler works for connections that are open. -/
theorem Inv.not_uses {s : Server n} (hinv : s.Inv) {fd : ℕ} (hop : s.Allowed (.close fd))
    (l : Fin n) : ¬(s.handler l).Uses fd := by
  intro hu
  obtain ⟨c, hc, rfl⟩ := hinv.uses l fd hu
  rw [hop c hc] at hu
  exact hu

/-- A connection is gone with its close callback, and what is pending is not looked at. -/
theorem next_close (s : Server n) (fd : ℕ) : (s.next (.close fd)).list = s.list ∧
    (s.next (.close fd)).conns.lookup fd = none := by
  simp only [next]
  cases hc : s.conns.lookup fd with
  | none => exact ⟨rfl, hc⟩
  | some c => exact ⟨rfl, AList.lookup_erase _ _⟩

/-- A closed connection has its modules still to be unsubscribed. -/
theorem willUnsubscribe_close {s : Server n} {fd : ℕ} {key : UInt64} (h : s.Asks fd key) :
    ∃ l, ((s.next (.close fd)).handler l).WillUnsubscribe fd key := by
  obtain ⟨c, hc, hkey⟩ := h
  refine ⟨c.loop, ?_⟩
  simp only [next, hc, setHandler_self]
  exact ⟨rfl, hkey⟩

/-- Every step keeps the bookkeeping. -/
theorem Booked.next {s : Server n} (h : s.Booked) (hinv : s.Inv) {op : Op n} (hop : s.Allowed op) :
    (s.next op).Booked := by
  refine ⟨fun l fd key hs => ?_, fun fd key hbook => ?_⟩
  · rcases serves_next hop hs with hold | hasks
    · refine (h.serves l fd key hold).next hop ?_
      rintro rfl
      exact hinv.not_uses hop l hold.uses
    · exact hasks
  · rcases book_next hbook with hold | ⟨l, rfl, hs⟩
    · rcases h.booked fd key hold with hasks | ⟨l, hw⟩
      · -- with its close callback, a booked module becomes one to be unsubscribed
        by_cases hclose : op = .close fd
        · subst hclose
          exact .inr (willUnsubscribe_close hasks)
        · exact .inl (hasks.next hop hclose)
      · exact .inr ⟨l, willUnsubscribe_next hop hw hbook⟩
    · exact .inl ((h.serves l fd key hs).next hop (by simp))

/-- A response in the hands of a handler is for what it serves or pushes. -/
theorem serves_or_pushes {fd : ℕ} {rsp : GetRouteRsp} {h : Handler} (hrsp : rsp ∈ h.inFlight fd) :
    h.Serves fd (packKey rsp.modid rsp.cmdid) ∨ h.Pushes fd (packKey rsp.modid rsp.cmdid) := by
  cases h with
  | sending fd' rsp' =>
    simp only [Handler.inFlight, List.mem_ite_nil_right, List.mem_singleton] at hrsp
    obtain ⟨rfl, rfl⟩ := hrsp
    exact .inl ⟨rfl, rfl⟩
  | pushSending fd' rsp' news =>
    simp only [Handler.inFlight, List.mem_ite_nil_right, List.mem_singleton] at hrsp
    obtain ⟨rfl, rfl⟩ := hrsp
    exact .inr (.inl ⟨rfl, rfl⟩)
  | _ => cases hrsp

/-- A step that keeps to the requests sends nothing else. -/
theorem AskedFor.next {s : Server n} (h : s.AskedFor) (hinv : s.Inv) (hb : s.Booked) {op : Op n}
    (hop : s.Allowed op) (hc : s.KeepsToRequests op) : (s.next op).AskedFor := by
  refine ⟨fun fd key hpend => ?_, fun l fd key hp => ?_, fun fd c' hc' rsp hrsp => ?_⟩
  · rcases pending_next hpend with hold | ⟨changes, rfl, hmem, hbook⟩
    · -- what is pending for a connection that closes would be left to the next one
      refine (h.pending fd key hold).next hop ?_
      rintro rfl
      rw [show s.list.pending fd = [] from hc] at hold
      cases hold
    · rcases hb.booked fd key hbook with hasks | ⟨l, hw⟩
      · exact hasks.next hop (by simp)
      · -- a subscriber that is being closed would be pushed to
        exact absurd hw.closes (by simp [hc key hmem fd hbook l])
  · rcases pushes_next hop hp with hold | ⟨rfl, hpend | ⟨mod, hmod, rfl⟩⟩
    · refine (h.pushes l fd key hold).next hop ?_
      rintro rfl
      exact hinv.not_uses hop l hold.uses
    · exact (h.pending fd key hpend).next hop (by simp)
    · refine Asks.next ?_ hop (by simp)
      -- the handler is about to push `mod`, which was requested
      have hasks : s.Asks fd mod := by
        refine h.pushes l fd mod ?_
        cases hv : s.handler l with
        | pushing news =>
          rw [hv] at hmod
          cases news with
          | nil => cases hmod
          | cons p news =>
            cases hmod
            exact List.mem_cons_self
        | _ =>
          rw [hv] at hmod
          cases hmod
      obtain ⟨c, hc₀, hkey⟩ := hasks
      refine ⟨c, hc₀, ?_⟩
      by_cases hlo : unpackLo mod < 0
      · exact hc (fd, mod) hmod hlo c hc₀
      · rwa [packKey_unpack (Int32.not_lt.mp hlo)]
  · cases hc₀ : s.conns.lookup fd with
    | none =>
      rw [sent_of_lookup_none hc₀ hc'] at hrsp
      cases hrsp
    | some c =>
      have hclose : op ≠ .close fd := by
        rintro rfl
        cases (next_close s fd).2.symm.trans hc'
      obtain ⟨c₁, hc₁, hsub, hsent⟩ := lookup_next hop hc₀ hclose
      obtain rfl := Option.some.inj (hc₁.symm.trans hc')
      rcases hsent rsp hrsp with hold | hin
      · exact hsub (h.sent fd c hc₀ rsp hold)
      · have hasks : s.Asks fd (packKey rsp.modid rsp.cmdid) := by
          obtain ⟨l, hin⟩ := inFlight_of_inHand hin
          exact (serves_or_pushes hin).elim (hb.serves l fd _) (h.pushes l fd _)
        obtain ⟨c₂, hc₂, hkey⟩ := hasks
        obtain rfl := Option.some.inj (hc₂.symm.trans hc₀)
        exact hsub hkey

/-- A step that does not keep to the requests leaves something behind that was not requested. -/
theorem AskedFor.keepsToRequests {s : Server n} {op : Op n} (h : (s.next op).AskedFor)
    (hinv : s.Inv) : s.KeepsToRequests op := by
  cases op with
  | close fd =>
    obtain ⟨hlist, hnone⟩ := next_close s fd
    refine List.eq_nil_iff_forall_not_mem.mpr fun key hpend => ?_
    obtain ⟨c, hc, -⟩ := h.pending fd key (by rwa [hlist])
    cases hnone.symm.trans hc
  | push changes =>
    intro key hmem fd hbook l
    have hpend : key ∈ (s.next (.push changes)).list.pending fd :=
      (s.list.mem_pending_push changes fd key).mpr (.inr ⟨hmem, hbook⟩)
    obtain ⟨c, hc, -⟩ := h.pending fd key hpend
    have hc : s.conns.lookup fd = some c := hc
    rw [Bool.eq_false_iff]
    intro hcl
    cases hv : s.handler l with
    | closing fd' book =>
      rw [hv] at hcl
      obtain rfl : fd' = fd := of_decide_eq_true hcl
      cases (hinv.closing l fd' book hv).symm.trans hc
    | _ =>
      rw [hv] at hcl
      cases hcl
  | work l =>
    rintro ⟨fd, mod⟩ hmod - c hc
    cases hv : s.handler l with
    | pushing news =>
      rw [hv] at hmod
      cases news with
      | nil => cases hmod
      | cons p news =>
        cases hmod
        have hp : ((s.next (.work l)).handler l).Pushes fd
            (packKey (unpackHi mod) (unpackLo mod)) := by
          simp only [Server.next, work, hv, setHandler_self]
          exact .inl ⟨rfl, rfl⟩
        obtain ⟨c', hc', hkey⟩ := h.pushes l fd _ hp
        have hsame : (s.next (.work l)).conns = s.conns := by
          simp only [Server.next, work, hv, setHandler]
        rw [hsame, show s.conns.lookup fd = some c from hc] at hc'
        cases hc'
        exact hkey
    | _ =>
      rw [hv] at hmod
      cases hmod
  | _ => exact trivial

/-! ## Every run -/

/-- It holds in every reachable state. -/
theorem Reachable.booked {s : Server n} (h : (system n).Reachable s) : s.Booked := by
  refine h.invariant ?_ ?_
  · rintro _ ⟨data, rfl⟩
    exact ⟨fun _ _ _ hs => hs.elim, by rintro _ _ ⟨⟩⟩
  · rintro s op _ hs hb ⟨hop, rfl⟩
    exact hb.next (Reachable.inv hs) hop

/-- A run of a new server sends and keeps only what was asked for exactly when each of its steps
keeps to the requests. -/
theorem askedFor_iff_keepsToRequests {data : RouteMap} {tr : List (Op n × Server n)}
    (h : (system n).Run (new data) tr) :
    (∀ x ∈ tr, AskedFor x.2) ↔ System.Along KeepsToRequests (new data) tr := by
  refine h.forall_iff_along (I := fun s => s.Inv ∧ s.Booked) ?_ ?_ ?_ ?_
  · rintro s op _ ⟨hinv, hb⟩ ⟨hop, rfl⟩
    exact ⟨hinv.next hop, hb.next hinv hop⟩
  · rintro s op _ ⟨hinv, hb⟩ hs ⟨hop, rfl⟩
    exact ⟨fun h => h.keepsToRequests hinv, hs.next hinv hb hop⟩
  · have hinit : (system n).Reachable (new data) := .init ⟨data, rfl⟩
    exact ⟨Reachable.inv hinit, Reachable.booked hinit⟩
  · exact ⟨by rintro _ _ ⟨⟩, fun _ _ _ hp => hp.elim, by rintro _ _ ⟨⟩⟩

/-- The route that is pushed reaches the connection that asked for it. -/
theorem askedFor_after_push : AskedFor (subscribeThenPush.foldl next (new ∅)) := by
  have hstep : ∀ (s : Server 2) op, s.Allowed op → (system 2).step s op (s.next op) :=
    fun _ _ hop => ⟨hop, rfl⟩
  have hrun : (system 2).Run (new ∅) (System.trace next (new ∅) subscribeThenPush) :=
    System.Run.trace hstep (by decide)
  obtain ⟨e, hmem⟩ := System.exists_mem_trace next (new ∅) (show subscribeThenPush ≠ [] from
    List.cons_ne_nil _ _)
  exact (askedFor_iff_keepsToRequests hrun).mpr (by decide) _ hmem

/-- A connection asks for a module and is closed between the push and the fetch. The next one with
its descriptor is sent the route. -/
def closeBeforeFetch : List (Op 1) :=
  [.accept 5 0, .request 5 1 2, .work 0, .work 0, .work 0, .swap oneRoute, .push [packKey 1 2],
    .post, .close 5, .work 0, .work 0, .accept 5 0, .task 0, .work 0, .work 0, .work 0]

/-- Descriptor 5 is closed while a push for it is pending, and reused: the new connection is sent a
route that it never requested. -/
theorem not_askedFor : ∃ s : Server 1, (system 1).Reachable s ∧
    s.conns.lookup 5 = some ⟨0, [], [⟨1, 2, [⟨10, 80⟩]⟩]⟩ ∧ ¬s.AskedFor := by
  have h : (system 1).Reachable (closeBeforeFetch.foldl next (new ∅)) :=
    foldl_reachable (by decide)
  have hc : (closeBeforeFetch.foldl next (new ∅)).conns.lookup 5 =
    some ⟨0, [], [⟨1, 2, [⟨10, 80⟩]⟩]⟩ := rfl
  exact ⟨_, h, hc, fun hs => absurd (hs.sent 5 _ hc ⟨1, 2, [⟨10, 80⟩]⟩ (by decide)) (by decide)⟩

end Server

end Elb
