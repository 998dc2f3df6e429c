import Elb.Dnsserver.Server

/-!
# Subscribers learn the current routes

Reference: `getRoute`, `clearSubscribe` and `pushChange` in `dnsserver/src/Server.cc`.

`getRoute` subscribes before it reads, and the loader swaps before it pushes. So for every module of
a connection, either the last response is current or something is still to happen that will send
another: `Owed` lists what this can be, and `Settled` is kept by every step.
-/

namespace Elb

open Transition

/-! ## Handlers -/

namespace Handler

/-- The handler works for the connection of the descriptor. -/
def Uses (fd : ℕ) : Handler → Prop
  | .subscribing fd' _ _ => fd' = fd
  | .reading fd' _ _ => fd' = fd
  | .sending fd' _ => fd' = fd
  | .fetching listening => fd ∈ listening
  | .pushing news => ∃ mod, (fd, mod) ∈ news
  | .pushSending fd' _ news => fd' = fd ∨ ∃ mod, (fd, mod) ∈ news
  | _ => False

/-- The handler is about to subscribe the connection to the module. -/
def Subscribes (fd : ℕ) (key : UInt64) : Handler → Prop
  | .subscribing fd' modid cmdid => fd' = fd ∧ packKey modid cmdid = key
  | _ => False

/-- The handler will read the hosts of the module and send them on the connection. -/
def WillRead (fd : ℕ) (key : UInt64) : Handler → Prop
  | .subscribing fd' modid cmdid => fd' = fd ∧ packKey modid cmdid = key
  | .reading fd' modid cmdid => fd' = fd ∧ packKey modid cmdid = key
  | .pushing news => (fd, key) ∈ news
  | .pushSending _ _ news => (fd, key) ∈ news
  | _ => False

/-- The response that the handler has read for the connection and not sent yet. -/
def inFlight (fd : ℕ) : Handler → List GetRouteRsp
  | .sending fd' rsp => if fd' = fd then [rsp] else []
  | .pushSending fd' rsp _ => if fd' = fd then [rsp] else []
  | _ => []

/-- The handler is about to fetch. -/
def Fetches : Handler → Prop
  | .fetching _ => True
  | _ => False

/-- A handler that is to subscribe is to read afterwards. -/
theorem Subscribes.willRead {fd : ℕ} {key : UInt64} {h : Handler} (hs : h.Subscribes fd key) :
    h.WillRead fd key := by
  cases h with
  | subscribing fd' modid cmdid => exact hs
  | _ => exact hs.elim

end Handler

/-! ## What a connection is owed -/

/-- The last response for a module. -/
def lastRsp (modid cmdid : Int32) (sent : List GetRouteRsp) : Option GetRouteRsp :=
  sent.find? fun rsp => rsp.modid = modid ∧ rsp.cmdid = cmdid

/-- The response lists exactly the hosts of the module. -/
def Lists (data : RouteMap) (modid cmdid : Int32) (rsp : GetRouteRsp) : Prop :=
  ∀ host, host ∈ rsp.hosts ↔ host ∈ (data.getHosts modid cmdid).map hostOf

/-- The tables that a connection's responses depend on, the handler of its loop, and whether a
`pushChange` is posted there or about to be. -/
structure Surroundings where
  data : RouteMap
  list : SubscribeList
  unannounced : UInt64 → Bool
  handler : Handler
  due : Prop

/-- Another response for the module is on its way: the push that announces the change is still to
come; or the module is pending and will be fetched; or the handler will read it. -/
def Owed (v : Surroundings) (fd : ℕ) (key : UInt64) : Prop :=
  v.unannounced key = true ∨ (key ∈ v.list.pending fd ∧ (v.due ∨ v.handler.Fetches)) ∨
    v.handler.WillRead fd key

/-- The last response for the module, the one in flight included, is current. -/
def Current (v : Surroundings) (fd : ℕ) (sent : List GetRouteRsp) (modid cmdid : Int32) : Prop :=
  ∃ rsp, lastRsp modid cmdid (v.handler.inFlight fd ++ sent) = some rsp ∧
    Lists v.data modid cmdid rsp

/-- A connection is fetched for with its loop, is booked for its modules, and for each of them is
owed a response or has the current one. A key with a negative low half is not the key that
`pushChange` takes apart, so such modules are left out. -/
structure Settled {n : ℕ} (v : Surroundings) (fd : ℕ) (c : Conn n) : Prop where
  listening : ∀ l, v.handler = .fetching l → fd ∈ l
  booked : ∀ key ∈ c.interest, fd ∈ v.list.book key ∨ v.handler.Subscribes fd key
  settled : ∀ modid cmdid, packKey modid cmdid ∈ c.interest → 0 ≤ cmdid →
    Owed v fd (packKey modid cmdid) ∨ Current v fd c.sent modid cmdid

namespace Server

variable {n : ℕ}

/-- What the connections of a loop see. -/
def view (s : Server n) (l : Fin n) : Surroundings :=
  ⟨s.data, s.list, s.unannounced, s.handler l, 0 < s.posted l ∨ l ∈ s.posting⟩

/-- Every connection is settled; handlers work for connections of their loop; a descriptor that is
being closed has no connection. -/
structure Inv (s : Server n) : Prop where
  settled : ∀ fd c, s.conns.lookup fd = some c → Settled (s.view c.loop) fd c
  uses : ∀ l fd, (s.handler l).Uses fd → ∃ c, s.conns.lookup fd = some c ∧ c.loop = l
  closing : ∀ l fd book, s.handler l = .closing fd book → s.conns.lookup fd = none

end Server

/-! ## Responses -/

/-- The response that is read is current. -/
theorem lists_routeRsp (data : RouteMap) (modid cmdid : Int32) :
    Lists data modid cmdid (routeRsp modid cmdid data) := fun _ => .rfl

/-- A response that is read now is current for its module and changes nothing for the others. -/
theorem current_cons {data : RouteMap} {modid cmdid m k : Int32} {sent : List GetRouteRsp}
    (h : m = modid ∧ k = cmdid ∨ ∃ rsp, lastRsp m k sent = some rsp ∧ Lists data m k rsp) :
    ∃ rsp, lastRsp m k (routeRsp modid cmdid data :: sent) = some rsp ∧ Lists data m k rsp := by
  by_cases heq : m = modid ∧ k = cmdid
  · obtain ⟨rfl, rfl⟩ := heq
    exact ⟨routeRsp m k data, by simp [lastRsp, routeRsp], lists_routeRsp data m k⟩
  · obtain ⟨rsp, hrsp, hl⟩ := h.resolve_left heq
    refine ⟨rsp, ?_, hl⟩
    rw [lastRsp, List.find?_cons_of_neg, ← lastRsp, hrsp]
    have hne : ¬(modid = m ∧ cmdid = k) := fun h => heq ⟨h.1.symm, h.2.symm⟩
    exact mt of_decide_eq_true hne

/-- A module that a swap does not alter keeps its hosts. -/
theorem Lists.swap {data data' : RouteMap} {modid cmdid : Int32} {rsp : GetRouteRsp}
    (h : Lists data modid cmdid rsp) (hsame : alters data data' (packKey modid cmdid) = false) :
    Lists data' modid cmdid rsp := by
  have hsub : data.getHosts modid cmdid ⊆ data'.getHosts modid cmdid ∧
      data'.getHosts modid cmdid ⊆ data.getHosts modid cmdid := by
    simpa [alters, RouteMap.getHosts] using hsame
  intro host
  rw [h host]
  exact ⟨fun hmem => List.map_subset hostOf hsub.1 hmem,
    fun hmem => List.map_subset hostOf hsub.2 hmem⟩

/-- The key of a module without a negative low half comes apart as it was packed. -/
theorem unpack_packKey {modid cmdid : Int32} (h : 0 ≤ cmdid) :
    unpackHi (packKey modid cmdid) = modid ∧ unpackLo (packKey modid cmdid) = cmdid :=
  ⟨by rw [unpackHi_packKey, if_neg (Int32.not_lt.mpr h)], unpackLo_packKey modid cmdid⟩

/-! ## One connection -/

section

variable {n : ℕ} {v : Surroundings} {fd : ℕ} {c c' : Conn n}

/-- Tables with more in them serve a connection as well. -/
theorem Settled.mono {list : SubscribeList} {due : Prop} (h : Settled v fd c)
    (hbook : ∀ key, fd ∈ v.list.book key → fd ∈ list.book key)
    (hpending : ∀ key, key ∈ v.list.pending fd → key ∈ list.pending fd)
    (hdue : v.due → due) : Settled { v with list := list, due := due } fd c where
  listening := h.listening
  booked key hkey := (h.booked key hkey).imp_left (hbook key)
  settled modid cmdid hkey hk := by
    refine (h.settled modid cmdid hkey hk).imp_left ?_
    exact .imp_right (.imp_left fun ⟨hmem, hor⟩ => ⟨hpending _ hmem, hor.imp_left hdue⟩)

/-- The handler goes on, and the connection may get a response. What the handler was to read, it is
still to read, or it has read it. -/
theorem Settled.goOn {handler : Handler} (h : Settled v fd c) (hint : c'.interest = c.interest)
    (hlistening : ∀ l, handler ≠ .fetching l) (hfetches : ¬v.handler.Fetches)
    (hsub : ∀ key, v.handler.Subscribes fd key → fd ∈ v.list.book key)
    (hread : ∀ modid cmdid, 0 ≤ cmdid →
      v.handler.WillRead fd (packKey modid cmdid) ∨ Current v fd c.sent modid cmdid →
      handler.WillRead fd (packKey modid cmdid) ∨
        Current { v with handler := handler } fd c'.sent modid cmdid) :
    Settled { v with handler := handler } fd c' where
  listening l hl := absurd hl (hlistening l)
  booked key hkey := .inl ((h.booked key (hint ▸ hkey)).elim id (hsub key))
  settled modid cmdid hkey hk := by
    rcases h.settled modid cmdid (hint ▸ hkey) hk with (hun | ⟨hmem, hor⟩ | hwill) | hcur
    · exact .inl (.inl hun)
    · exact .inl (.inr (.inl ⟨hmem, .inl (hor.resolve_right hfetches)⟩))
    · exact (hread modid cmdid hk (.inl hwill)).imp_left fun hw => .inr (.inr hw)
    · exact (hread modid cmdid hk (.inr hcur)).imp_left fun hw => .inr (.inr hw)

/-- `getRoute` has subscribed. -/
theorem Settled.subscribed {fd' : ℕ} {modid cmdid : Int32} (h : Settled v fd c)
    (hv : v.handler = .subscribing fd' modid cmdid) (hbook : fd' = fd →
      fd ∈ v.list.book (packKey modid cmdid)) :
    Settled { v with handler := .reading fd' modid cmdid } fd c := by
  refine h.goOn rfl (by simp) (by simp [hv, Handler.Fetches]) ?_ ?_
  · rw [hv]
    rintro key ⟨heq, rfl⟩
    exact hbook heq
  · intro m k _ hor
    rwa [Current, hv] at hor

/-- `getRoute` has read the hosts. -/
theorem Settled.read {fd' : ℕ} {modid cmdid : Int32} (h : Settled v fd c)
    (hv : v.handler = .reading fd' modid cmdid) :
    Settled { v with handler := .sending fd' (routeRsp modid cmdid v.data) } fd c := by
  refine h.goOn rfl (by simp) (by simp [hv, Handler.Fetches]) (by simp [hv, Handler.Subscribes]) ?_
  intro m k _ hor
  rw [Current, hv] at hor
  refine .inr ?_
  rw [Current]
  -- a response for this connection has the present hosts; one for another changes nothing here
  by_cases heq : fd' = fd
  · simp only [Handler.inFlight, if_pos heq, List.singleton_append]
    refine current_cons (hor.imp_left fun hwill => ?_)
    obtain ⟨hm, hk⟩ := packKey_inj hwill.2
    exact ⟨hm.symm, hk.symm⟩
  · simp only [Handler.inFlight, if_neg heq, List.nil_append]
    exact hor.resolve_left fun hwill => heq hwill.1

/-- `pushChange` has read the hosts of the next module. -/
theorem Settled.pushRead {fd' : ℕ} {mod : UInt64} {news : List (ℕ × UInt64)} (h : Settled v fd c)
    (hv : v.handler = .pushing ((fd', mod) :: news)) :
    Settled { v with
      handler := .pushSending fd' (routeRsp (unpackHi mod) (unpackLo mod) v.data) news } fd c := by
  refine h.goOn rfl (by simp) (by simp [hv, Handler.Fetches]) (by simp [hv, Handler.Subscribes]) ?_
  intro m k hk hor
  rw [Current, hv] at hor
  -- if the module comes again in `news`, it is still to be read
  by_cases htail : (fd, packKey m k) ∈ news
  · exact .inl htail
  refine .inr ?_
  rw [Current]
  by_cases heq : fd' = fd
  · simp only [Handler.inFlight, if_pos heq, List.singleton_append]
    refine current_cons (hor.imp_left fun hwill => ?_)
    obtain hhead := (List.mem_cons.mp hwill).resolve_right htail
    obtain rfl : packKey m k = mod := congrArg Prod.snd hhead
    obtain ⟨hm, hk⟩ := unpack_packKey hk
    exact ⟨hm.symm, hk.symm⟩
  · simp only [Handler.inFlight, if_neg heq, List.nil_append]
    refine hor.resolve_left fun hwill => ?_
    exact heq (congrArg Prod.fst ((List.mem_cons.mp hwill).resolve_right htail)).symm

/-- Alter the connection of the descriptor `fd'`. -/
def Conn.alter (fd' : ℕ) (f : Conn n → Conn n) (fd : ℕ) (c : Conn n) : Conn n :=
  if fd' = fd then f c else c

/-- `send_data`. -/
def Conn.send (rsp : GetRouteRsp) (c : Conn n) : Conn n := { c with sent := rsp :: c.sent }

/-- `book->m.insert(key)`. -/
def Conn.interested (key : UInt64) (c : Conn n) : Conn n := { c with interest := key :: c.interest }

/-- What was in flight is sent. -/
theorem Settled.send {fd' : ℕ} {rsp : GetRouteRsp} {handler : Handler} (h : Settled v fd c)
    (hv : v.handler = .sending fd' rsp ∧ handler = .idle ∨
      ∃ news, v.handler = .pushSending fd' rsp news ∧ handler = .pushing news) :
    Settled { v with handler := handler } fd (c.alter fd' (Conn.send rsp) fd) := by
  have hsent : handler.inFlight fd ++ (c.alter fd' (Conn.send rsp) fd).sent =
      v.handler.inFlight fd ++ c.sent := by
    rw [Conn.alter]
    rcases hv with ⟨hv, rfl⟩ | ⟨news, hv, rfl⟩ <;> rw [hv] <;> simp only [Handler.inFlight] <;>
      split <;> rfl
  have hint : (c.alter fd' (Conn.send rsp) fd).interest = c.interest := by
    rw [Conn.alter]
    split <;> rfl
  refine h.goOn hint ?_ ?_ ?_ ?_
  · rcases hv with ⟨-, rfl⟩ | ⟨news, -, rfl⟩ <;> simp
  · rcases hv with ⟨hv, -⟩ | ⟨news, hv, -⟩ <;> simp [hv, Handler.Fetches]
  · rcases hv with ⟨hv, -⟩ | ⟨news, hv, -⟩ <;> simp [hv, Handler.Subscribes]
  · intro m k _ hor
    rw [Current, hsent]
    refine hor.imp_left fun hwill => ?_
    rcases hv with ⟨hv, rfl⟩ | ⟨news, hv, rfl⟩ <;> rwa [hv] at hwill

/-- `pushChange` has fetched: what was pending for the connections of the loop is in `news`. -/
theorem Settled.fetch {listening : List ℕ} (h : Settled v fd c)
    (hv : v.handler = .fetching listening) :
    Settled { v with
      list := (v.list.fetchPush listening).2
      handler := .pushing (v.list.fetchPush listening).1 } fd c where
  listening l hl := by cases hl
  booked key hkey := by
    have hbook := h.booked key hkey
    rw [hv] at hbook
    exact .inl (hbook.resolve_right id)
  settled modid cmdid hkey hk := by
    have hs := h.settled modid cmdid hkey hk
    rw [Owed, Current, hv] at hs
    rcases hs with (hun | ⟨hmem, -⟩ | hwill) | hcur
    · exact .inl (.inl hun)
    · -- this connection is among those that the loop fetches for
      exact .inl (.inr (.inr ((v.list.mem_fetchPush listening fd _).mpr
        ⟨h.listening listening hv, hmem⟩)))
    · exact hwill.elim
    · exact .inr hcur

/-- A posted task starts: it fetches for the connections of the loop. -/
theorem Settled.start {listening : List ℕ} {due : Prop} (h : Settled v fd c)
    (hv : v.handler = .idle) (hmem : fd ∈ listening) :
    Settled { v with handler := .fetching listening, due := due } fd c where
  listening l hl := by
    cases hl
    exact hmem
  booked key hkey := by
    have hbook := h.booked key hkey
    rw [hv] at hbook
    exact .inl (hbook.resolve_right id)
  settled modid cmdid hkey hk := by
    have hs := h.settled modid cmdid hkey hk
    rw [Owed, Current, hv] at hs
    rcases hs with (hun | ⟨hpend, -⟩ | hwill) | hcur
    · exact .inl (.inl hun)
    · exact .inl (.inr (.inl ⟨hpend, .inr trivial⟩))
    · exact hwill.elim
    · exact .inr hcur

/-- `getRoute` starts, for a module that its connection has asked for before. -/
theorem Settled.ask {fd' : ℕ} {modid cmdid : Int32} (h : Settled v fd c) (hv : v.handler = .idle) :
    Settled { v with handler := .reading fd' modid cmdid } fd c := by
  refine h.goOn rfl (by simp) (by simp [hv, Handler.Fetches]) (by simp [hv, Handler.Subscribes]) ?_
  intro m k _ hor
  rw [Current, hv] at hor
  exact .inr (hor.resolve_left id)

/-- `getRoute` starts, for a module that its connection is now interested in. -/
theorem Settled.askFirst {fd' : ℕ} {modid cmdid : Int32} (h : Settled v fd c)
    (hv : v.handler = .idle) :
    Settled { v with handler := .subscribing fd' modid cmdid } fd
      (c.alter fd' (Conn.interested (packKey modid cmdid)) fd) := by
  have hidle : Settled { v with handler := .subscribing fd' modid cmdid } fd c := by
    refine ⟨by simp, fun key hkey => .inl ?_, fun m k hkey hk => ?_⟩
    · exact (h.booked key hkey).resolve_right (by simp [hv, Handler.Subscribes])
    · have hs := h.settled m k hkey hk
      rw [Owed, Current, hv] at hs
      rcases hs with (hun | ⟨hpend, hor⟩ | hwill) | hcur
      · exact .inl (.inl hun)
      · exact .inl (.inr (.inl ⟨hpend, .inl (hor.resolve_right id)⟩))
      · exact hwill.elim
      · exact .inr hcur
  rw [Conn.alter]
  split
  · next heq =>
    refine ⟨hidle.listening, fun key hkey => ?_, fun m k hkey hk => ?_⟩
    · rcases List.mem_cons.mp hkey with rfl | hkey
      · exact .inr ⟨heq, rfl⟩
      · exact hidle.booked key hkey
    · -- the module that is new here is going to be subscribed and then read
      rcases List.mem_cons.mp hkey with hnew | hkey
      · exact .inl (.inr (.inr ⟨heq, hnew.symm⟩))
      · exact hidle.settled m k hkey hk
  · exact hidle

/-- The handler has nothing more to do for the connections of its loop. -/
def Handler.Rests : Handler → Prop
  | .idle => True
  | .pushing [] => True
  | .closing _ _ => True
  | _ => False

/-- A handler that has nothing to do for a connection goes on. -/
theorem Settled.rest {handler : Handler} (h : Settled v fd c) (hv : v.handler.Rests)
    (hh : handler.Rests) : Settled { v with handler := handler } fd c := by
  have hno : ∀ g : Handler, g.Rests → (∀ l, g ≠ .fetching l) ∧ ¬g.Fetches ∧
      (∀ key, ¬g.Subscribes fd key) ∧ (∀ key, ¬g.WillRead fd key) ∧ g.inFlight fd = [] := by
    intro g hg
    cases g with
    | idle => simp [Handler.Fetches, Handler.Subscribes, Handler.WillRead, Handler.inFlight]
    | closing => simp [Handler.Fetches, Handler.Subscribes, Handler.WillRead, Handler.inFlight]
    | pushing news =>
      cases news with
      | nil => simp [Handler.Fetches, Handler.Subscribes, Handler.WillRead, Handler.inFlight]
      | cons => exact hg.elim
    | _ => exact hg.elim
  obtain ⟨-, hfetches, hsub, hwill, hin⟩ := hno v.handler hv
  obtain ⟨hlistening, -, -, -, hin'⟩ := hno handler hh
  refine h.goOn rfl hlistening hfetches (fun key hs => absurd hs (hsub key)) ?_
  intro m k _ hor
  rw [Current, hin]  at hor
  rw [Current, hin']
  exact .inr (hor.resolve_left (hwill _))

end

/-! ## One step -/

namespace Server

variable {n : ℕ}

/-- What a step of one loop leaves as it is for the others. -/
structure LoopStep (l : Fin n) (s s' : Server n) : Prop where
  data : s'.data = s.data
  unannounced : s'.unannounced = s.unannounced
  handler : ∀ l' ≠ l, s'.handler l' = s.handler l'
  due : ∀ l' ≠ l, (s.view l').due → (s'.view l').due
  conns : ∀ fd c, c.loop ≠ l → (s'.conns.lookup fd = some c ↔ s.conns.lookup fd = some c)
  book : ∀ fd c, s.conns.lookup fd = some c → c.loop ≠ l → ∀ key, fd ∈ s.list.book key →
    fd ∈ s'.list.book key
  pending : ∀ fd c, s.conns.lookup fd = some c → c.loop ≠ l → ∀ key, key ∈ s.list.pending fd →
    key ∈ s'.list.pending fd
  closed : ∀ l' ≠ l, ∀ fd book, s.handler l' = .closing fd book → s.conns.lookup fd = none →
    s'.conns.lookup fd = none

/-- A step of one loop keeps the invariant if it does so for the connections and the handler of that
loop. -/
theorem Inv.loopStep {l : Fin n} {s s' : Server n} (hinv : s.Inv) (h : LoopStep l s s')
    (hset : ∀ fd c, s'.conns.lookup fd = some c → c.loop = l → Settled (s'.view l) fd c)
    (huses : ∀ fd, (s'.handler l).Uses fd → ∃ c, s'.conns.lookup fd = some c ∧ c.loop = l)
    (hclosing : ∀ fd book, s'.handler l = .closing fd book → s'.conns.lookup fd = none) :
    s'.Inv := by
  refine ⟨fun fd c hc => ?_, fun l' fd hu => ?_, fun l' fd book heq => ?_⟩
  · by_cases hl : c.loop = l
    · rw [hl]
      exact hset fd c hc hl
    · have hc₀ := (h.conns fd c hl).mp hc
      have hmono := (hinv.settled fd c hc₀).mono (h.book fd c hc₀ hl) (h.pending fd c hc₀ hl)
        (h.due c.loop hl)
      simpa only [view, h.data, h.unannounced, h.handler c.loop hl] using hmono
  · by_cases hl : l' = l
    · subst hl
      exact huses fd hu
    · rw [h.handler l' hl] at hu
      obtain ⟨c, hc, hloop⟩ := hinv.uses l' fd hu
      exact ⟨c, (h.conns fd c (hloop ▸ hl)).mpr hc, hloop⟩
  · by_cases hl : l' = l
    · subst hl
      exact hclosing fd book heq
    · rw [h.handler l' hl] at heq
      exact h.closed l' hl fd book heq (hinv.closing l' fd book heq)

/-- The handler of the loop is set. -/
@[simp] theorem setHandler_self (s : Server n) (l : Fin n) (h : Handler) :
    (s.setHandler l h).handler l = h := by
  simp [setHandler]

/-- A send leaves the list alone. -/
theorem deliver_list (s : Server n) (fd : ℕ) (rsp : GetRouteRsp) :
    (s.deliver fd rsp).list = s.list := by
  rw [deliver]
  split <;> rfl

/-- The handlers of the other loops are not. -/
theorem setHandler_of_ne (s : Server n) {l l' : Fin n} (h : Handler) (hne : l' ≠ l) :
    (s.setHandler l h).handler l' = s.handler l' := by
  simp [setHandler, hne]

/-- The handler of a loop goes on and leaves the connections as they are. What the other loops need
of the list is still there. -/
theorem Inv.move {l : Fin n} {s : Server n} {handler : Handler} (hinv : s.Inv)
    (list : SubscribeList)
    (hbook : ∀ fd c, s.conns.lookup fd = some c → ∀ key, fd ∈ s.list.book key → fd ∈ list.book key)
    (hpending : ∀ fd c, s.conns.lookup fd = some c → c.loop ≠ l → ∀ key,
      key ∈ s.list.pending fd → key ∈ list.pending fd)
    (hset : ∀ fd c, s.conns.lookup fd = some c → Settled (s.view l) fd c →
      Settled { s.view l with list := list, handler := handler } fd c)
    (huses : ∀ fd, handler.Uses fd → ∃ c, s.conns.lookup fd = some c ∧ c.loop = l)
    (hclosing : ∀ fd book, handler = .closing fd book → s.conns.lookup fd = none) :
    ({ s with list := list }.setHandler l handler).Inv := by
  refine hinv.loopStep (l := l) ⟨rfl, rfl, fun l' hl => ?_, fun _ _ h => h, fun _ _ _ => .rfl,
    fun fd c hc _ => hbook fd c hc, hpending, fun _ _ _ _ _ h => h⟩ ?_ ?_ ?_
  · exact setHandler_of_ne _ handler hl
  · intro fd c hc hl
    have hs := hset fd c hc (hl ▸ hinv.settled fd c hc)
    rwa [view, setHandler_self]
  · intro fd hu
    rw [setHandler_self] at hu
    exact huses fd hu
  · intro fd book heq
    rw [setHandler_self] at heq
    exact hclosing fd book heq

/-- One connection of the loop is altered. -/
theorem lookup_alter {conns : HashMap ℕ (Conn n)} {fd' : ℕ} {c' : Conn n}
    (hc' : conns.lookup fd' = some c') (f : Conn n → Conn n) (fd : ℕ) :
    (conns.insert fd' (f c')).lookup fd = (conns.lookup fd).map (Conn.alter fd' f fd) := by
  rw [HashMap.lookup_insert_eq]
  split
  · next heq => rw [heq, hc', Option.map_some, Conn.alter, if_pos rfl]
  · next hne =>
    have hid : Conn.alter fd' f fd = id := funext fun _ => if_neg (Ne.symm hne)
    rw [hid, Option.map_id, id]

/-- The handler of a loop goes on and alters a connection of its loop. -/
theorem Inv.alter {l : Fin n} {s : Server n} {fd' : ℕ} {c' : Conn n} {f : Conn n → Conn n}
    {handler : Handler} (hinv : s.Inv) (hc' : s.conns.lookup fd' = some c') (hl' : c'.loop = l)
    (hf : ∀ c, (f c).loop = c.loop)
    (hset : ∀ fd c, Settled (s.view l) fd c →
      Settled { s.view l with handler := handler } fd (c.alter fd' f fd))
    (huses : ∀ fd, handler.Uses fd → ∃ c, s.conns.lookup fd = some c ∧ c.loop = l)
    (hclosing : ∀ fd book, handler ≠ .closing fd book) :
    ({ s with conns := s.conns.insert fd' (f c') }.setHandler l handler).Inv := by
  have hloop : ∀ fd c, (Conn.alter fd' f fd c).loop = c.loop := by
    intro fd c
    rw [Conn.alter]
    split
    · exact hf c
    · rfl
  -- the connections of the other loops do not have this descriptor
  have hother : ∀ fd c, c.loop ≠ l →
      ((s.conns.insert fd' (f c')).lookup fd = some c ↔ s.conns.lookup fd = some c) := by
    intro fd c hl
    rw [HashMap.lookup_insert_eq]
    split
    · next heq =>
      rw [heq, hc', Option.some_inj, Option.some_inj]
      constructor <;> rintro rfl
      · exact absurd (hf c' ▸ hl') hl
      · exact absurd hl' hl
    · exact .rfl
  refine hinv.loopStep (l := l) ⟨rfl, rfl, fun l' hl => setHandler_of_ne _ _ hl, fun _ _ h => h,
    hother, fun _ _ _ _ _ h => h, fun _ _ _ _ _ h => h, fun l' _ fd book _ hnone => ?_⟩ ?_ ?_ ?_
  · rw [setHandler, lookup_alter hc', hnone, Option.map_none]
  · intro fd c hc hl
    rw [setHandler, lookup_alter hc'] at hc
    obtain ⟨c₀, hc₀, rfl⟩ := Option.map_eq_some_iff.mp hc
    have hs := hset fd c₀ (hl ▸ hloop fd c₀ ▸ hinv.settled fd c₀ hc₀)
    rwa [view, setHandler_self]
  · intro fd hu
    rw [setHandler_self] at hu
    obtain ⟨c, hc, hl⟩ := huses fd hu
    refine ⟨c.alter fd' f fd, ?_, (hloop fd c).trans hl⟩
    rw [setHandler, lookup_alter hc', hc, Option.map_some]
  · intro fd book heq
    rw [setHandler_self] at heq
    exact absurd heq (hclosing fd book)

/-- A handler sends what it has read. -/
theorem Inv.send {l : Fin n} {s : Server n} {fd' : ℕ} {rsp : GetRouteRsp} {handler : Handler}
    (hinv : s.Inv)
    (hv : s.handler l = .sending fd' rsp ∧ handler = .idle ∨
      ∃ news, s.handler l = .pushSending fd' rsp news ∧ handler = .pushing news) :
    ((s.deliver fd' rsp).setHandler l handler).Inv := by
  have hu : (s.handler l).Uses fd' := by
    rcases hv with ⟨hv, -⟩ | ⟨news, hv, -⟩ <;> rw [hv]
    · rfl
    · exact .inl rfl
  obtain ⟨c', hc', hl'⟩ := hinv.uses l fd' hu
  rw [deliver, hc']
  refine hinv.alter (f := Conn.send rsp) hc' hl' (fun _ => rfl) (fun fd c hs => hs.send hv)
    (fun fd hu => hinv.uses l fd ?_) (fun fd book => ?_)
  · rcases hv with ⟨-, rfl⟩ | ⟨news, hv, rfl⟩
    · exact hu.elim
    · rw [hv]
      exact .inr hu
  · rcases hv with ⟨-, rfl⟩ | ⟨news, -, rfl⟩ <;> simp

/-- The next part of a handler keeps the invariant. -/
theorem Inv.work {s : Server n} (hinv : s.Inv) (l : Fin n) : (s.work l).Inv := by
  rw [Server.work]
  have huses := hinv.uses l
  split
  · exact hinv
  · next fd' modid cmdid hv =>
    rw [hv] at huses
    have hbook : ∀ fd key, fd ∈ s.list.book key →
        fd ∈ (s.list.subscribe (packKey modid cmdid) fd').book key := fun fd key hmem =>
      (SubscribeList.mem_book_subscribe ..).mpr (.inr hmem)
    refine hinv.move _ (fun fd _ _ => hbook fd) (fun _ _ _ _ _ h => h) (fun fd c _ hs => ?_)
      (fun fd hu => huses fd hu) (by simp)
    have hmono := hs.mono (hbook fd) (fun _ h => h) id
    refine hmono.subscribed hv fun heq => ?_
    exact (SubscribeList.mem_book_subscribe ..).mpr (.inl ⟨rfl, heq.symm⟩)
  · next fd' modid cmdid hv =>
    rw [hv] at huses
    exact hinv.move s.list (fun _ _ _ _ h => h) (fun _ _ _ _ _ h => h)
      (fun fd c _ hs => hs.read hv) (fun fd hu => huses fd hu) (by simp)
  · next fd' rsp hv => exact hinv.send (.inl ⟨hv, rfl⟩)
  · next listening hv =>
    rw [hv] at huses
    refine hinv.move _ (fun _ _ _ _ h => h) (fun fd c hc hl key hmem => ?_)
      (fun fd c _ hs => hs.fetch hv) (fun fd hu => huses fd ?_) (by simp)
    · rwa [SubscribeList.pending_fetchPush]
      intro hlist
      -- the loop fetches for its own connections, and this one is another loop's
      obtain ⟨c', hc', hl'⟩ := huses fd hlist
      obtain rfl := Option.some.inj (hc'.symm.trans hc)
      exact hl hl'
    · obtain ⟨mod, hmem⟩ := hu
      exact ((s.list.mem_fetchPush listening fd mod).mp hmem).1
  · next hv =>
    exact hinv.move s.list (fun _ _ _ _ h => h) (fun _ _ _ _ _ h => h)
      (fun fd c _ hs => hs.rest (by rw [view, hv]; trivial) trivial) (fun _ h => h.elim) (by simp)
  · next fd' mod news hv =>
    rw [hv] at huses
    refine hinv.move s.list (fun _ _ _ _ h => h) (fun _ _ _ _ _ h => h)
      (fun fd c _ hs => hs.pushRead hv) (fun fd hu => huses fd ?_) (by simp)
    rcases hu with rfl | ⟨mod', hmem⟩
    · exact ⟨mod, List.mem_cons_self⟩
    · exact ⟨mod', List.mem_cons_of_mem _ hmem⟩
  · next fd' rsp news hv => exact hinv.send (.inr ⟨news, hv, rfl⟩)
  · next fd' hv =>
    exact hinv.move s.list (fun _ _ _ _ h => h) (fun _ _ _ _ _ h => h)
      (fun fd c _ hs => hs.rest (by rw [view, hv]; trivial) trivial) (fun _ h => h.elim) (by simp)
  · next fd' mod book hv =>
    have hnone : s.conns.lookup fd' = none := hinv.closing l fd' _ hv
    have hbook : ∀ fd c, s.conns.lookup fd = some c → ∀ key, fd ∈ s.list.book key →
        fd ∈ (s.list.unsubscribe mod fd').book key := by
      intro fd c hc key hmem
      -- the descriptor that is unsubscribed is closed
      refine (SubscribeList.mem_book_unsubscribe ..).mpr ⟨hmem, fun ⟨_, heq⟩ => ?_⟩
      rw [heq, hnone] at hc
      cases hc
    have hpending : ∀ fd key, key ∈ s.list.pending fd →
        key ∈ (s.list.unsubscribe mod fd').pending fd := by
      intro fd key hmem
      rwa [SubscribeList.pending_unsubscribe]
    refine hinv.move _ hbook (fun fd _ _ _ => hpending fd) (fun fd c hc hs => ?_)
      (fun _ h => h.elim) (fun fd _ heq => ?_)
    · have hmono := hs.mono (hbook fd c hc) (hpending fd) id
      exact hmono.rest (by rw [view, hv]; trivial) trivial
    · cases heq
      exact hnone

/-- A connection is made. -/
theorem Inv.accept {s : Server n} (hinv : s.Inv) {fd : ℕ} {l : Fin n}
    (hop : s.Allowed (.accept fd l)) : (s.next (.accept fd l)).Inv := by
  obtain ⟨hnone, hidle, hclosed⟩ := hop
  have hlookup : ∀ fd', (s.next (.accept fd l)).conns.lookup fd' =
      if fd' = fd then some ⟨l, [], []⟩ else s.conns.lookup fd' := fun fd' =>
    HashMap.lookup_insert_eq s.conns fd fd' _
  refine ⟨fun fd' c hc => ?_, fun l' fd' hu => ?_, fun l' fd' book heq => ?_⟩
  · rw [hlookup] at hc
    split at hc
    · cases hc
      refine ⟨fun listening heq => ?_, by simp, by simp⟩
      cases hidle.symm.trans heq
    · exact hinv.settled fd' c hc
  · obtain ⟨c, hc, hl⟩ := hinv.uses l' fd' hu
    refine ⟨c, ?_, hl⟩
    rw [hlookup, if_neg, hc]
    rintro rfl
    cases hnone.symm.trans hc
  · -- a descriptor that `clearSubscribe` still works on is not given out
    rw [hlookup, if_neg]
    · exact hinv.closing l' fd' book heq
    · rintro rfl
      have hcloses := hclosed l'
      rw [show s.handler l' = .closing fd' book from heq] at hcloses
      simp [Handler.closes] at hcloses

/-- `getRoute` starts. -/
theorem Inv.request {s : Server n} (hinv : s.Inv) {fd : ℕ} {modid cmdid : Int32}
    (hop : s.Allowed (.request fd modid cmdid)) : (s.next (.request fd modid cmdid)).Inv := by
  simp only [next]
  cases hc : s.conns.lookup fd with
  | none => exact hinv
  | some c =>
    have hidle : s.handler c.loop = .idle := hop c hc
    dsimp only
    split
    · exact hinv.move s.list (fun _ _ _ _ h => h) (fun _ _ _ _ _ h => h)
        (fun fd' _ _ hs => hs.ask hidle) (fun fd' hu => ⟨c, hu ▸ hc, rfl⟩) (by simp)
    · exact hinv.alter (f := Conn.interested (packKey modid cmdid)) hc rfl (fun _ => rfl)
        (fun fd' _ hs => hs.askFirst hidle) (fun fd' hu => ⟨c, hu ▸ hc, rfl⟩) (by simp)

/-- A connection is closed: `clearSubscribe` starts. -/
theorem Inv.close {s : Server n} (hinv : s.Inv) {fd : ℕ} (hop : s.Allowed (.close fd)) :
    (s.next (.close fd)).Inv := by
  simp only [next]
  cases hc : s.conns.lookup fd with
  | none => exact hinv
  | some c =>
    have hidle : s.handler c.loop = .idle := hop c hc
    dsimp only
    have hlookup := HashMap.lookup_erase_eq s.conns fd
    refine hinv.loopStep (l := c.loop) ⟨rfl, rfl, fun l' hl => setHandler_of_ne _ _ hl,
      fun _ _ h => h, fun fd' c' hl => ?_, fun _ _ _ _ _ h => h, fun _ _ _ _ _ h => h,
      fun _ _ fd' _ _ hnone => ?_⟩ ?_ ?_ ?_
    · rw [setHandler, hlookup]
      split
      · next heq =>
        rw [heq, hc]
        constructor
        · rintro ⟨⟩
        · rintro ⟨⟩
          exact absurd rfl hl
      · exact .rfl
    · rw [setHandler, hlookup, hnone, ite_self]
    · intro fd' c' hc' hl
      rw [setHandler, hlookup] at hc'
      split at hc'
      · cases hc'
      · have hs : Settled (s.view c.loop) fd' c' := hl ▸ hinv.settled fd' c' hc'
        rw [view, setHandler_self]
        exact hs.rest (by rw [view, hidle]; trivial) trivial
    · intro fd' hu
      rw [setHandler_self] at hu
      exact hu.elim
    · intro fd' book heq
      rw [setHandler_self] at heq
      cases heq
      rw [setHandler, hlookup, if_pos rfl]

/-- A posted `pushChange` starts. -/
theorem Inv.task {s : Server n} (hinv : s.Inv) {l : Fin n} (hop : s.Allowed (.task l)) :
    (s.next (.task l)).Inv := by
  obtain ⟨hidle, -⟩ := hop
  have hmem : ∀ fd, fd ∈ s.listening l ↔ ∃ c, s.conns.lookup fd = some c ∧ c.loop = l := by
    intro fd
    simp only [listening, List.mem_map, List.mem_filter, decide_eq_true_eq]
    constructor
    · rintro ⟨⟨fd', c⟩, ⟨hc, hl⟩, rfl⟩
      exact ⟨c, HashMap.mem_entries_iff.mp hc, hl⟩
    · rintro ⟨c, hc, hl⟩
      exact ⟨⟨fd, c⟩, ⟨HashMap.mem_entries_iff.mpr hc, hl⟩, rfl⟩
  rw [next]
  refine hinv.loopStep (l := l) ⟨rfl, rfl, fun l' hl => setHandler_of_ne _ _ hl,
    fun l' hl hdue => ?_, fun _ _ _ => .rfl, fun _ _ _ _ _ h => h, fun _ _ _ _ _ h => h,
    fun _ _ _ _ _ h => h⟩ ?_ ?_ ?_
  · have hposted : Function.update s.posted l (s.posted l - 1) l' = s.posted l' :=
      Function.update_of_ne hl _ _
    simpa only [view, setHandler, hposted] using hdue
  · intro fd c hc hl
    have hs : Settled (s.view l) fd c := hl ▸ hinv.settled fd c hc
    rw [view, setHandler_self]
    exact hs.start hidle ((hmem fd).mpr ⟨c, hc, hl⟩)
  · intro fd hu
    rw [setHandler_self] at hu
    exact (hmem fd).mp hu
  · intro fd book heq
    rw [setHandler_self] at heq
    cases heq

/-- The loader swaps: what is altered is unannounced. -/
theorem Inv.swap {s : Server n} (hinv : s.Inv) (data : RouteMap) : (s.next (.swap data)).Inv := by
  refine ⟨fun fd c hc => ?_, hinv.uses, hinv.closing⟩
  have hs := hinv.settled fd c hc
  refine ⟨hs.listening, hs.booked, fun modid cmdid hkey hk => ?_⟩
  cases halters : alters s.data data (packKey modid cmdid) with
  | true => exact .inl (.inl (by simp [next, view, halters]))
  | false =>
    rcases hs.settled modid cmdid hkey hk with (hun | hor) | ⟨rsp, hrsp, hlists⟩
    · have hun : s.unannounced (packKey modid cmdid) = true := hun
      exact .inl (.inl (by simp [next, view, hun]))
    · exact .inl (.inr hor)
    · exact .inr ⟨rsp, hrsp, hlists.swap halters⟩

/-- The loader pushes: what it announces is pending for the subscribers, and a task is due on every
loop. -/
theorem Inv.push {s : Server n} (hinv : s.Inv) (changes : List UInt64) :
    (s.next (.push changes)).Inv := by
  refine ⟨fun fd c hc => ?_, hinv.uses, hinv.closing⟩
  have hs := hinv.settled fd c hc
  refine ⟨hs.listening, hs.booked, fun modid cmdid hkey hk => ?_⟩
  have hdue : ((s.next (.push changes)).view c.loop).due := .inr (List.mem_finRange c.loop)
  rcases hs.settled modid cmdid hkey hk with (hun | ⟨hpending, -⟩ | hwill) | hcur
  · -- an announced module is pending, or its handler is about to read; another one stays
    -- unannounced
    by_cases hmem : packKey modid cmdid ∈ changes
    · rcases hs.booked _ hkey with hbook | hsub
      · have hpending := (s.list.mem_pending_push changes fd _).mpr (.inr ⟨hmem, hbook⟩)
        exact .inl (.inr (.inl ⟨hpending, .inl hdue⟩))
      · exact .inl (.inr (.inr hsub.willRead))
    · have hun : s.unannounced (packKey modid cmdid) = true := hun
      exact .inl (.inl (by simp [next, view, hun, hmem]))
  · have hpending := (s.list.mem_pending_push changes fd _).mpr (.inl hpending)
    exact .inl (.inr (.inl ⟨hpending, .inl hdue⟩))
  · exact .inl (.inr (.inr hwill))
  · exact .inr hcur

/-- `run_task` posts the next task. -/
theorem Inv.post {s : Server n} (hinv : s.Inv) : (s.next .post).Inv := by
  simp only [next]
  split
  · exact hinv
  · next l posting hposting =>
    refine ⟨fun fd c hc => ?_, hinv.uses, hinv.closing⟩
    refine (hinv.settled fd c hc).mono (fun _ h => h) (fun _ h => h) ?_
    have hupdate : ∀ l', Function.update s.posted l (s.posted l + 1) l' =
        if l' = l then s.posted l + 1 else s.posted l' := Function.update_apply s.posted l _
    rintro (hposted | hmem)
    · left
      dsimp only
      rw [hupdate]
      split
      · exact Nat.succ_pos _
      · exact hposted
    · rw [hposting] at hmem
      rcases List.mem_cons.mp hmem with hl | hmem
      · left
        dsimp only
        rw [hupdate, if_pos hl]
        exact Nat.succ_pos _
      · exact .inr hmem

/-! ## Every run -/

/-- Every step keeps the invariant. -/
theorem Inv.next {s : Server n} (hinv : s.Inv) {op : Op n} (hop : s.Allowed op) :
    (s.next op).Inv := by
  cases op with
  | accept fd l => exact hinv.accept hop
  | request fd modid cmdid => exact hinv.request hop
  | close fd => exact hinv.close hop
  | work l => exact hinv.work l
  | task l => exact hinv.task hop
  | swap data => exact hinv.swap data
  | push changes => exact hinv.push changes
  | post => exact hinv.post

/-- It holds in every reachable state. -/
theorem Reachable.inv {s : Server n} (h : (system n).Reachable s) : s.Inv := by
  refine h.invariant ?_ ?_
  · rintro _ ⟨data, rfl⟩
    exact ⟨by rintro _ _ ⟨⟩, fun _ _ hu => hu.elim, by rintro _ _ _ ⟨⟩⟩
  · rintro s op _ - hinv ⟨hop, rfl⟩
    exact hinv.next hop

/-- All handlers and all posted tasks have finished, and every swap that altered a module was
followed by a push that names it. -/
structure Quiescent (s : Server n) : Prop where
  handler : ∀ l, s.handler l = .idle
  posted : ∀ l, s.posted l = 0
  posting : s.posting = []
  unannounced : ∀ key, s.unannounced key = false

/-- No subscriber is left with a stale route. -/
theorem lists_lastRsp {s : Server n} (h : (system n).Reachable s) (hq : s.Quiescent) {fd : ℕ}
    {c : Conn n} (hc : s.conns.lookup fd = some c) {modid cmdid : Int32} (hk : 0 ≤ cmdid)
    (hkey : packKey modid cmdid ∈ c.interest) :
    ∃ rsp, lastRsp modid cmdid c.sent = some rsp ∧ Lists s.data modid cmdid rsp := by
  have hs := ((Reachable.inv h).settled fd c hc).settled modid cmdid hkey hk
  rw [Owed, Current, view, hq.handler, hq.posted, hq.posting] at hs
  rcases hs with (hun | ⟨-, (hposted | hposting) | hfetches⟩ | hwill) | hcur
  · cases (hq.unannounced _).symm.trans hun
  · exact absurd hposted (lt_irrefl 0)
  · cases hposting
  · exact hfetches.elim
  · exact hwill.elim
  · exact hcur

/-- One host of module 1, 2. -/
def oneRoute : RouteMap := AList.insert (packKey 1 2) [packKey 10 80] ∅

/-- Two loops. A connection of the first asks for a module; its host comes on line between the
subscription and the push, after the hosts were read. -/
def subscribeThenPush : List (Op 2) :=
  [.accept 5 0, .request 5 1 2, .work 0, .work 0, .swap oneRoute, .push [packKey 1 2], .post,
    .work 0, .post, .task 1, .work 1, .work 1, .task 0, .work 0, .work 0, .work 0, .work 0]

/-- A list of allowed steps is a run. -/
theorem foldl_reachable {data : RouteMap} {ops : List (Op n)}
    (h : System.Legal Allowed next (new data) ops) :
    (system n).Reachable (ops.foldl next (new data)) := by
  have hinit : (system n).Reachable (new data) := .init ⟨_, rfl⟩
  refine hinit.foldl ?_ h
  exact fun _ _ hop => ⟨hop, rfl⟩

/-- The connection has the response that was read too early and, last, the one of the push. -/
theorem lists_lastRsp_after_push : ∃ rsp,
    lastRsp 1 2 [⟨1, 2, [⟨10, 80⟩]⟩, ⟨1, 2, []⟩] = some rsp ∧ Lists oneRoute 1 2 rsp := by
  have h : (system 2).Reachable (subscribeThenPush.foldl next (new ∅)) :=
    foldl_reachable (by decide)
  have hq : (subscribeThenPush.foldl next (new ∅)).Quiescent := by
    refine ⟨by decide, by decide, by decide, fun key => ?_⟩
    change ((false || alters ∅ oneRoute key) && !decide (key ∈ [packKey 1 2])) = false
    by_cases hkey : key = packKey 1 2
    · simp [hkey]
    · have hnone : oneRoute.lookup key = none := AList.lookup_insert_ne hkey
      simp [alters, hnone]
  have hc : (subscribeThenPush.foldl next (new ∅)).conns.lookup 5 =
    some ⟨0, [packKey 1 2], [⟨1, 2, [⟨10, 80⟩]⟩, ⟨1, 2, []⟩]⟩ := rfl
  exact lists_lastRsp h hq hc (by decide) (by decide)

end Server

end Elb
