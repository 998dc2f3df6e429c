import Elb.Api.CacheCoherence
import Elb.Api.Shard

/-!
# Late replies

Reference: `api/cpp/elbApi/elbApi.cc`, `getRoute4Cache`, `apiGetRoute`, `apiRegister` and the
receiving loop of `apiGetHost`; the handlers of `lbagent/src/AgentServer.cc`.

A client has one socket for each shard and waits for one reply at a time. A call whose wait times
out returns, and its reply is read by whichever call receives next on that socket. Replies to
`GetHostReq` carry a sequence number and `apiGetHost` skips the late ones; the other replies carry
none.
-/

namespace Elb

open Transition

/-! ## Requests and replies -/

/-- The agent answers the request. -/
def AgentReq.answered : AgentReq → Bool
  | .report _ => false
  | .cacheBatchRpt _ => false
  | _ => true

namespace RouteLB

variable {R : Type} [RateArith R] {cfg : LbConfigure R} {now : ℤ}

/-- The hosts that the agent has for a module. -/
def routeOf (modid cmdid : Int32) (s : RouteLB) : List HostAddr :=
  match s.routeMap.lookup (packKey modid cmdid) with
  | some lb => lb.getRoute.map HI.addr
  | none => []

/-- The replies to a request: they are of its kind; that to `GetRouteReq` has the hosts of the
module, and that to `CacheGetRouteReq` names the module. -/
def Replies (s : RouteLB) : AgentReq → Option AgentRsp → Prop
  | .getHost _, reply => ∃ rsp, reply = some (.getHost rsp)
  | .getRouteByTool q, reply =>
    reply = some (.getRouteByTool ⟨q.modid, q.cmdid, s.routeOf q.modid q.cmdid⟩)
  | .cacheGetRoute q, reply =>
    ∃ rsp, reply = some (.cacheGetRoute rsp) ∧ rsp.modid = q.modid ∧ rsp.cmdid = q.cmdid
  | .report _, reply => reply = none
  | .cacheBatchRpt _, reply => reply = none

/-- A handled request is replied to. -/
theorem exec_reply {s s' : RouteLB} {req : AgentReq} {out : Out}
    (hex : s.exec cfg now (.ofReq req) = .ok (s', out)) : s.Replies req out.reply := by
  cases req with
  | getHost q =>
    obtain ⟨⟨s₁, rsp, pulls⟩, -, heq⟩ := Except.bind_eq_ok_iff.mp hex
    cases heq
    exact ⟨rsp, rfl⟩
  | report q =>
    obtain ⟨⟨s₁, repts⟩, -, heq⟩ := Except.bind_eq_ok_iff.mp hex
    cases heq
    rfl
  | getRouteByTool q =>
    simp only [Op.ofReq, exec, getRoute] at hex
    rw [Replies, routeOf]
    cases hk : s.routeMap.lookup (packKey q.modid q.cmdid) with
    | none =>
      rw [hk] at hex
      cases hex
      rfl
    | some lb =>
      rw [hk] at hex
      cases hex
      rfl
  | cacheGetRoute q =>
    rcases CacheNet.cacheGetRoute_reply hex with ⟨-, heq⟩ | ⟨lb, -, -, heq⟩
    · exact ⟨_, heq, rfl, rfl⟩
    · exact ⟨_, heq, rfl, rfl⟩
  | cacheBatchRpt q =>
    obtain ⟨⟨s₁, repts⟩, -, heq⟩ := Except.bind_eq_ok_iff.mp hex
    cases heq
    rfl

/-- A route with a version answers `CacheGetRouteReq`. -/
theorem Replies.cacheGetRoute {s : RouteLB} {req : AgentReq} {rsp : CacheGetRouteRsp}
    (h : s.Replies req (some (.cacheGetRoute rsp))) :
    ∃ q, req = .cacheGetRoute q ∧ rsp.modid = q.modid ∧ rsp.cmdid = q.cmdid := by
  cases req with
  | cacheGetRoute q =>
    obtain ⟨rsp', heq, hm, hk⟩ := h
    cases heq
    exact ⟨q, rfl, hm, hk⟩
  | getHost q =>
    obtain ⟨rsp', heq⟩ := h
    cases heq
  | report q => cases h
  | getRouteByTool q => cases h
  | cacheBatchRpt q => cases h

/-- A whole route answers `GetRouteReq`. -/
theorem Replies.getRoute {s : RouteLB} {req : AgentReq} {rsp : GetRouteRsp}
    (h : s.Replies req (some (.getRouteByTool rsp))) :
    ∃ q, req = .getRouteByTool q ∧ rsp.hosts = s.routeOf q.modid q.cmdid := by
  cases req with
  | getRouteByTool q =>
    cases h
    exact ⟨q, rfl, rfl⟩
  | getHost q =>
    obtain ⟨rsp', heq⟩ := h
    cases heq
  | report q => cases h
  | cacheGetRoute q =>
    obtain ⟨rsp', heq, -⟩ := h
    cases heq
  | cacheBatchRpt q => cases h

end RouteLB

/-! ## Client, sockets and agent -/

/-- A reply with what is to be known about it: the request it answers and the number of that
request, how many requests the client had sent when it was made, and the shard that made it. -/
structure Reply where
  num : ℕ
  req : AgentReq
  made : ℕ
  source : RouteLB
  rsp : AgentRsp

/-- The reply is what its shard answered to its request. -/
def Reply.Answers {R : Type} [RateArith R] (cfg : LbConfigure R) (r : Reply) : Prop :=
  ∃ now agent out, r.source.exec cfg now (.ofReq r.req) = .ok (agent, out) ∧ out.reply = some r.rsp

/-- A shard of the agent and the socket that leads to it: the numbered requests that the shard has
not handled and the replies that the client has not received. -/
structure Link where
  agent : RouteLB
  reqs : List (ℕ × AgentReq)
  rsps : List Reply

/-- The numbered requests whose replies are still to come, in the order in which they will. -/
def Link.line (l : Link) : List (ℕ × AgentReq) :=
  l.rsps.map (fun r => (r.num, r.req)) ++ l.reqs.filter fun q => q.2.answered

/-- A call that waits for a reply; `retryCnt` is that of `apiRegister`, if the call is one of its
tries. -/
inductive Call
  | getRoute4Cache (modid cmdid : Int32) (ts : ℤ)
  | getHost (seq : UInt32) (modid cmdid : Int32)
  | getRoute (modid cmdid : Int32) (retryCnt : Option ℕ)

/-- The shard of the call's socket. -/
def Call.index : Call → Option (Fin 3)
  | .getRoute4Cache modid cmdid _ => Shard.slot (Shard.elbApiIndex modid cmdid).toInt
  | .getHost _ modid cmdid => Shard.slot (Shard.elbApiIndex modid cmdid).toInt
  | .getRoute modid cmdid _ => Shard.slot (Shard.elbApiIndex modid cmdid).toInt

/-- The request of the call. -/
def Call.req (c : ElbClient) : Call → AgentReq
  | .getRoute4Cache modid cmdid _ => .cacheGetRoute (c.cacheGetRouteReq modid cmdid)
  | .getHost seq modid cmdid => .getHost ⟨seq, modid, cmdid⟩
  | .getRoute modid cmdid _ => .getRouteByTool ⟨modid, cmdid⟩

/-- The client once the request is sent; `GetHostReq` takes a sequence number. -/
def Call.sent (c : ElbClient) : Call → ElbClient
  | .getHost _ _ _ => { c with seqid := c.seqid + 1 }
  | _ => c

/-- What the client is doing: nothing that concerns its sockets, waiting for the reply to its
request `n`, or sleeping between two tries of `apiRegister`. -/
inductive Phase
  | idle
  | waiting (n : ℕ) (call : Call)
  | retry (modid cmdid : Int32) (retryCnt : ℕ)

/-- The call may be made next. -/
def Phase.Starts : Phase → Call → Prop
  | .idle, .getRoute _ _ (some _) => False
  | .idle, _ => True
  | .retry modid cmdid retryCnt, call => call = .getRoute modid cmdid (some retryCnt)
  | .waiting _ _, _ => False

/-- What the client does after a try of `apiGetRoute` that appended `route`. -/
def Phase.afterGetRoute (modid cmdid : Int32) (route : List HostAddr) : Option ℕ → Phase
  | none => .idle
  | some retryCnt =>
    match ElbClient.registerRet retryCnt route with
    | none => .retry modid cmdid (retryCnt + 1)
    | some _ => .idle

/-- One client, the three shards of the agent, and how many requests were sent. -/
structure Session where
  client : ElbClient
  link : Fin 3 → Link
  next : ℕ
  phase : Phase

namespace Session

variable {R : Type} [RateArith R] {cfg : LbConfigure R}

/-- Replace the link of a shard. -/
def setLink (s : Session) (i : Fin 3) (l : Link) : Session :=
  { s with link := Function.update s.link i l }

/-- The client and its phase after a call has received a datagram, or, for `none`, has timed out.
The loop of `apiGetHost` goes on after a late answer. -/
def receive (mills : UInt64) (n : ℕ) (recv : Option AgentRsp) (c : ElbClient) :
    Call → ElbClient × Phase
  | .getRoute4Cache modid cmdid ts => ((c.recvRoute4Cache modid cmdid ts recv).1, .idle)
  | .getHost seq modid cmdid =>
    match recv with
    | some (.getHost rsp) =>
      if rsp.seq < seq then
        (c, .waiting n (.getHost seq modid cmdid))
      else if (ElbClient.recvHost seq modid cmdid [.getHost rsp]).1 = 0 then
        ({ c with tsget := mills }, .idle)
      else
        (c, .idle)
    | _ => (c, .idle)
  | .getRoute modid cmdid retryCnt =>
    (c, .afterGetRoute modid cmdid (ElbClient.recvGetRoute recv).2 retryCnt)

/-- What happens next: the client starts a call that waits, or `apiRegister`, or finds the agent
dead in one of its tries, or does something that waits for nothing; a shard handles the first
request, or anything else; the client receives the first reply, or times out. -/
inductive Op
  | send (call : Call)
  | register (modid cmdid : Int32)
  | offline
  | tell
  | handle (i : Fin 3) (now : ℤ)
  | agent (i : Fin 3) (now : ℤ) (op : RouteLB.Op)
  | receive
  | timeout

/-- One step. -/
inductive Step (cfg : LbConfigure R) (s : Session) : Op → Session → Prop
  | send {call : Call} {i : Fin 3} (hphase : s.phase.Starts call) (hi : call.index = some i)
      (hseq : ∀ seq modid cmdid, call = .getHost seq modid cmdid → seq = s.client.seqid) :
      Step cfg s (.send call)
        { s.setLink i { s.link i with
            reqs := (s.link i).reqs ++ [(s.next, call.req s.client)] } with
          client := call.sent s.client
          next := s.next + 1
          phase := .waiting s.next call }
  | register {modid cmdid : Int32} (hphase : s.phase = .idle) :
      Step cfg s (.register modid cmdid) { s with phase := .retry modid cmdid 0 }
  | offline {modid cmdid : Int32} {retryCnt : ℕ} (hphase : s.phase = .retry modid cmdid retryCnt) :
      Step cfg s .offline { s with phase := .afterGetRoute modid cmdid [] (some retryCnt) }
  | tell {modid cmdid : Int32} {i : Fin 3} {c : ElbClient} {sent : List AgentReq}
      (hphase : s.phase = .idle) (hi : Shard.slot (Shard.elbApiIndex modid cmdid).toInt = some i)
      (hcall : s.client.LocalCall modid cmdid c sent) (hsent : ∀ req ∈ sent, req.answered = false) :
      Step cfg s .tell
        { s.setLink i { s.link i with
            reqs := (s.link i).reqs ++ sent.map fun req => (s.next, req) } with
          client := c
          next := s.next + 1 }
  | handle {i : Fin 3} {n : ℕ} {req : AgentReq} {reqs : List (ℕ × AgentReq)} {now : ℤ}
      {agent : RouteLB} {out : RouteLB.Out} (hreqs : (s.link i).reqs = (n, req) :: reqs)
      (hex : (s.link i).agent.exec cfg now (.ofReq req) = .ok (agent, out)) :
      Step cfg s (.handle i now) (s.setLink i {
        agent := agent
        reqs := reqs
        rsps := (s.link i).rsps ++ (out.reply.map fun rsp =>
          (⟨n, req, s.next, (s.link i).agent, rsp⟩ : Reply)).toList })
  | agent {i : Fin 3} {now : ℤ} {op : RouteLB.Op} {agent : RouteLB} {out : RouteLB.Out}
      (hex : (s.link i).agent.exec cfg now op = .ok (agent, out)) :
      Step cfg s (.agent i now op) (s.setLink i { s.link i with agent := agent })
  | receive {n : ℕ} {call : Call} {i : Fin 3} {r : Reply} {rsps : List Reply} (mills : UInt64)
      (hphase : s.phase = .waiting n call) (hi : call.index = some i)
      (hrsps : (s.link i).rsps = r :: rsps) :
      Step cfg s .receive
        { s.setLink i { s.link i with rsps := rsps } with
          client := (Session.receive mills n (some r.rsp) s.client call).1
          phase := (Session.receive mills n (some r.rsp) s.client call).2 }
  | timeout {n : ℕ} {call : Call} (mills : UInt64) (hphase : s.phase = .waiting n call) :
      Step cfg s .timeout
        { s with
          client := (Session.receive mills n none s.client call).1
          phase := (Session.receive mills n none s.client call).2 }

/-- Runs from a new client and an agent without modules. -/
def system (cfg : LbConfigure R) : System Session Op where
  init s := s.phase = .idle ∧ (∃ agentOff, s.client = .new agentOff) ∧
    ∀ i, ∃ id, s.link i = ⟨.new id, [], []⟩
  step := Step cfg

/-- A waiting call that would accept the reply accepts its own: one that the agent made after the
request of the call was sent; for `apiGetRoute` the reply to that request, with the hosts that the
agent had for the module, and it had some if `apiRegister` then returns 0. -/
def Own (n : ℕ) (c : ElbClient) : Call → Reply → Prop
  | .getRoute4Cache modid cmdid ts, r =>
    (c.recvRoute4Cache modid cmdid ts (some r.rsp)).2 = 0 → n < r.made
  | .getHost _ _ _, _ => True
  | .getRoute modid cmdid retryCnt, r =>
    (ElbClient.recvGetRoute (some r.rsp)).1 = 0 → r.num = n ∧
      (ElbClient.recvGetRoute (some r.rsp)).2 = r.source.routeOf modid cmdid ∧
      ∀ tries, retryCnt = some tries →
        ElbClient.registerRet tries (ElbClient.recvGetRoute (some r.rsp)).2 = some 0 →
          r.source.routeOf modid cmdid ≠ []

/-- Whatever the waiting call receives next, it accepts its own reply only. -/
def AppliesOwn (s : Session) : Prop :=
  ∀ n call i r, s.phase = .waiting n call → call.index = some i →
    (s.link i).rsps.head? = some r → Own n s.client call r

/-- A new call finds no late reply that it would take for its own: none that is first in its socket
and answers `CacheGetRouteReq` for the module, and, for `apiGetRoute`, none that is first in line
and answers `GetRouteReq`. -/
def NoneInLine (s : Session) : Op → Prop
  | .send (.getRoute4Cache modid cmdid ts) => ∀ i r,
      (Call.getRoute4Cache modid cmdid ts).index = some i → (s.link i).rsps.head? = some r →
        ∀ q, r.req = .cacheGetRoute q → ¬(q.modid = modid ∧ q.cmdid = cmdid)
  | .send (.getRoute modid cmdid retryCnt) => ∀ i p,
      (Call.getRoute modid cmdid retryCnt).index = some i → (s.link i).line.head? = some p →
        ∀ q, p.2 ≠ .getRouteByTool q
  | _ => True

/-! ## The invariant -/

/-- What holds of the link of a shard while the client is in `phase` and has sent `next` requests.
Replies answer their requests, and the request of a waiting `apiGetRoute` is in line under its own
number only. The first reply was made after the request of a waiting `getRoute4Cache` was sent, or
is about something else; the first in line is the request of a waiting `apiGetRoute`, or something
else. -/
structure LinkInv (cfg : LbConfigure R) (next : ℕ) (phase : Phase) (i : Fin 3) (l : Link) :
    Prop where
  answers : ∀ r ∈ l.rsps, r.Answers cfg
  num_lt : ∀ p ∈ l.line, p.1 < next
  own : ∀ n modid cmdid t, phase = .waiting n (.getRoute modid cmdid t) →
    ∀ p ∈ l.line, p.1 = n → p.2 = .getRouteByTool ⟨modid, cmdid⟩
  fresh : ∀ n modid cmdid ts, phase = .waiting n (.getRoute4Cache modid cmdid ts) →
    (Call.getRoute4Cache modid cmdid ts).index = some i → ∀ r, l.rsps.head? = some r →
      n < r.made ∨ ∀ q, r.req = .cacheGetRoute q → ¬(q.modid = modid ∧ q.cmdid = cmdid)
  first : ∀ n modid cmdid t, phase = .waiting n (.getRoute modid cmdid t) →
    (Call.getRoute modid cmdid t).index = some i → ∀ p, l.line.head? = some p →
      p.1 = n ∨ ∀ q, p.2 ≠ .getRouteByTool q

/-- The invariant of a session. -/
structure Inv (cfg : LbConfigure R) (s : Session) : Prop where
  link : ∀ i, LinkInv cfg s.next s.phase i (s.link i)
  waiting_lt : ∀ n call, s.phase = .waiting n call → n < s.next

/-- A phase in which no call waits but the loop of `apiGetHost`. -/
def Quiet (phase : Phase) : Prop :=
  ∀ n call, phase = .waiting n call → ∃ seq modid cmdid, call = .getHost seq modid cmdid

/-- Sending and handling move requests along the line; the line itself only grows at its end. -/
theorem line_send (l : Link) (n : ℕ) {req : AgentReq} (h : req.answered = true) :
    Link.line { l with reqs := l.reqs ++ [(n, req)] } = l.line ++ [(n, req)] := by
  simp [Link.line, h]

/-- Requests that nobody answers do not join the line. -/
theorem line_tell (l : Link) (n : ℕ) {sent : List AgentReq}
    (h : ∀ req ∈ sent, req.answered = false) :
    Link.line { l with reqs := l.reqs ++ sent.map fun req => (n, req) } = l.line := by
  have hnil : (sent.map fun req => (n, req)).filter (fun q => q.2.answered) = [] := by
    rw [List.filter_eq_nil_iff]
    intro p hp
    obtain ⟨req, hreq, rfl⟩ := List.mem_map.mp hp
    simp [h req hreq]
  rw [Link.line, Link.line, List.filter_append, hnil, List.append_nil]

/-- A request that is answered moves from the requests to the replies, and keeps its place. -/
theorem line_handle {l : Link} {n : ℕ} {req : AgentReq} {reqs : List (ℕ × AgentReq)} {now : ℤ}
    {agent : RouteLB} {out : RouteLB.Out} (made : ℕ) (hreqs : l.reqs = (n, req) :: reqs)
    (hex : l.agent.exec cfg now (.ofReq req) = .ok (agent, out)) :
    Link.line ⟨agent, reqs, l.rsps ++ (out.reply.map fun rsp =>
      (⟨n, req, made, l.agent, rsp⟩ : Reply)).toList⟩ = l.line := by
  have hrep := RouteLB.exec_reply hex
  rw [Link.line, Link.line, hreqs]
  cases req with
  | getHost q =>
    obtain ⟨rsp, heq⟩ := hrep
    simp [heq, AgentReq.answered]
  | report q => simp [show out.reply = none from hrep, AgentReq.answered]
  | getRouteByTool q => simp [show out.reply = some _ from hrep, AgentReq.answered]
  | cacheGetRoute q =>
    obtain ⟨rsp, heq, -⟩ := hrep
    simp [heq, AgentReq.answered]
  | cacheBatchRpt q => simp [show out.reply = none from hrep, AgentReq.answered]

/-- The first reply is first in line. -/
theorem line_receive {l : Link} {r : Reply} {rsps : List Reply} (h : l.rsps = r :: rsps) :
    l.line = (r.num, r.req) :: Link.line { l with rsps := rsps } := by
  rw [Link.line, h]
  rfl

/-- A link that stays as it is, while the client goes on to a phase in which it waits for nothing
new. -/
theorem LinkInv.mono {next next' : ℕ} {phase phase' : Phase} {i : Fin 3} {l : Link}
    (h : LinkInv cfg next phase i l) (hnext : next ≤ next')
    (hphase : ∀ n call, phase' = .waiting n call → phase = .waiting n call) :
    LinkInv cfg next' phase' i l :=
  ⟨h.answers, fun p hp => (h.num_lt p hp).trans_le hnext,
    fun n modid cmdid t hp => h.own n modid cmdid t (hphase _ _ hp),
    fun n modid cmdid ts hp => h.fresh n modid cmdid ts (hphase _ _ hp),
    fun n modid cmdid t hp => h.first n modid cmdid t (hphase _ _ hp)⟩

/-- Where the link of a shard stands after one link was replaced. -/
theorem linkInv_setLink {s : Session} {next : ℕ} {phase : Phase} {i : Fin 3} {l : Link}
    (hi : LinkInv cfg next phase i l) (hother : ∀ j, j ≠ i → LinkInv cfg next phase j (s.link j))
    (j : Fin 3) : LinkInv cfg next phase j (Function.update s.link i l j) := by
  by_cases hj : j = i
  · subst hj
    rw [Function.update_self]
    exact hi
  · rw [Function.update_of_ne hj]
    exact hother j hj

/-- After a try of `apiGetRoute` nothing waits. -/
theorem afterGetRoute_ne (modid cmdid : Int32) (route : List HostAddr) (retryCnt : Option ℕ) (n : ℕ)
    (call : Call) : Phase.afterGetRoute modid cmdid route retryCnt ≠ .waiting n call := by
  cases retryCnt with
  | none => rintro ⟨⟩
  | some retryCnt =>
    intro h
    dsimp only [Phase.afterGetRoute] at h
    split at h <;> cases h

/-- After a receive or a time-out only the loop of `apiGetHost` waits on. -/
theorem receive_waiting {mills : UInt64} {n n' : ℕ} {recv : Option AgentRsp} {c : ElbClient}
    {call call' : Call} (h : (receive mills n recv c call).2 = .waiting n' call') :
    n' = n ∧ call' = call ∧ ∃ seq modid cmdid, call = .getHost seq modid cmdid := by
  cases call with
  | getRoute4Cache modid cmdid ts => cases h
  | getHost seq modid cmdid =>
    simp only [receive] at h
    split at h
    · split at h
      · cases h
        exact ⟨rfl, rfl, seq, modid, cmdid, rfl⟩
      · split at h <;> cases h
    · cases h
  | getRoute modid cmdid retryCnt => exact absurd h (afterGetRoute_ne _ _ _ _ _ _)

/-- Whoever waits has sent a request that is answered. -/
theorem req_answered (c : ElbClient) (call : Call) : (call.req c).answered = true := by
  cases call <;> rfl

/-- The socket of a new call. -/
theorem LinkInv.send {s : Session} {i : Fin 3} {call : Call}
    (h : LinkInv cfg s.next s.phase i (s.link i))
    (hc : s.NoneInLine (.send call)) :
    LinkInv cfg (s.next + 1) (.waiting s.next call) i
      { s.link i with reqs := (s.link i).reqs ++ [(s.next, call.req s.client)] } := by
  -- the line grows at its end, by a request with a number that none in it has
  have hline := line_send (s.link i) s.next (req_answered s.client call)
  refine ⟨h.answers, fun p hp => ?_, fun n modid cmdid t hcall p hp hn => ?_,
    fun n modid cmdid ts hcall hi r hr => ?_, fun n modid cmdid t hcall hi p hp => ?_⟩
  · rw [hline, List.mem_append, List.mem_singleton] at hp
    rcases hp with hp | rfl
    · exact (h.num_lt p hp).trans (Nat.lt_succ_self _)
    · exact Nat.lt_succ_self _
  · cases hcall
    rw [hline, List.mem_append, List.mem_singleton] at hp
    rcases hp with hp | rfl
    · exact absurd hn (h.num_lt p hp).ne
    · rfl
  · cases hcall
    exact .inr (hc i r hi hr)
  · cases hcall
    rw [hline] at hp
    -- an empty line has the new request in front, any other keeps its front
    cases hold : (s.link i).line with
    | nil =>
      rw [hold] at hp
      cases hp
      exact .inl rfl
    | cons q line =>
      rw [hold] at hp
      cases hp
      exact .inr (hc i p hi (by rw [hold]; rfl))

/-- The other sockets when a call is made. -/
theorem LinkInv.send_other {s : Session} {i j : Fin 3} {call : Call}
    (h : LinkInv cfg s.next s.phase j (s.link j)) (hi : call.index = some i) (hj : j ≠ i) :
    LinkInv cfg (s.next + 1) (.waiting s.next call) j (s.link j) := by
  refine ⟨h.answers, fun p hp => (h.num_lt p hp).trans (Nat.lt_succ_self _),
    fun n modid cmdid t hcall p hp hn => ?_, fun n modid cmdid ts hcall hi' => ?_,
    fun n modid cmdid t hcall hi' => ?_⟩
  · cases hcall
    exact absurd hn (h.num_lt p hp).ne
  · -- the call waits at its own socket only
    cases hcall
    exact absurd (Option.some.inj (hi'.symm.trans hi)) hj
  · cases hcall
    exact absurd (Option.some.inj (hi'.symm.trans hi)) hj

/-- A shard handles the first request: the line stays, and a reply that becomes the first of its
socket has just been made. -/
theorem LinkInv.handle {s : Session} {i : Fin 3} {n : ℕ} {req : AgentReq}
    {reqs : List (ℕ × AgentReq)} {now : ℤ} {agent : RouteLB} {out : RouteLB.Out}
    (h : LinkInv cfg s.next s.phase i (s.link i))
    (hlt : ∀ n call, s.phase = .waiting n call → n < s.next)
    (hreqs : (s.link i).reqs = (n, req) :: reqs)
    (hex : (s.link i).agent.exec cfg now (.ofReq req) = .ok (agent, out)) :
    LinkInv cfg s.next s.phase i ⟨agent, reqs, (s.link i).rsps ++ (out.reply.map fun rsp =>
      (⟨n, req, s.next, (s.link i).agent, rsp⟩ : Reply)).toList⟩ := by
  have hline := line_handle s.next hreqs hex
  refine ⟨fun r hr => ?_, by rw [hline]; exact h.num_lt, by rw [hline]; exact h.own,
    fun m modid cmdid ts hphase hi r hr => ?_, by rw [hline]; exact h.first⟩
  · rcases List.mem_append.mp hr with hr | hr
    · exact h.answers r hr
    · obtain ⟨rsp, hrsp, rfl⟩ := Option.map_eq_some_iff.mp (Option.mem_toList.mp hr)
      exact ⟨now, agent, out, hex, hrsp⟩
  · -- a reply that becomes the first has just been made, so after the waiting call was sent
    cases hold : (s.link i).rsps with
    | nil =>
      rw [hold, List.nil_append] at hr
      obtain ⟨rsp, -, rfl⟩ :=
        Option.map_eq_some_iff.mp (Option.mem_toList.mp (List.mem_of_mem_head? hr))
      exact .inl (hlt m _ hphase)
    | cons r' rsps =>
      rw [hold] at hr
      exact h.fresh m modid cmdid ts hphase hi r (by rw [hold]; exact hr)

/-- A socket from which the first reply has been received. -/
theorem LinkInv.receive {next : ℕ} {phase phase' : Phase} {i : Fin 3} {l : Link} {r : Reply}
    {rsps : List Reply} (h : LinkInv cfg next phase i l) (hrsps : l.rsps = r :: rsps)
    (hphase : Quiet phase') : LinkInv cfg next phase' i { l with rsps := rsps } := by
  have hline := line_receive hrsps
  refine ⟨fun r' hr' => h.answers r' (hrsps ▸ List.mem_cons_of_mem _ hr'),
    fun p hp => h.num_lt p (hline ▸ List.mem_cons_of_mem _ hp),
    fun n modid cmdid t heq => ?_, fun n modid cmdid ts heq => ?_, fun n modid cmdid t heq => ?_⟩
  all_goals
    obtain ⟨_, _, _, hcall⟩ := hphase _ _ heq
    cases hcall

/-- Every step that finds no late reply in line keeps the invariant. -/
theorem Inv.step {s s' : Session} {op : Op} (h : s.Inv cfg) (hc : s.NoneInLine op)
    (hs : Step cfg s op s') : s'.Inv cfg := by
  cases hs with
  | @send call i hphase hi hseq =>
    refine ⟨linkInv_setLink ((h.link i).send hc) fun j hj => (h.link j).send_other hi hj, ?_⟩
    rintro n call' ⟨⟩
    exact Nat.lt_succ_self _
  | @register modid cmdid hphase =>
    exact ⟨fun i => (h.link i).mono le_rfl (by rintro n call ⟨⟩), by rintro n call ⟨⟩⟩
  | @offline modid cmdid retryCnt hphase =>
    have hquiet := afterGetRoute_ne modid cmdid [] (some retryCnt)
    exact ⟨fun i => (h.link i).mono le_rfl fun n call heq => absurd heq (hquiet n call),
      fun n call heq => absurd heq (hquiet n call)⟩
  | @tell modid cmdid i c sent hphase hi hcall hsent =>
    have hline := line_tell (s.link i) s.next hsent
    have hl := (h.link i).mono (Nat.le_succ s.next) fun _ _ heq => heq
    refine ⟨linkInv_setLink ⟨hl.answers, by rw [hline]; exact hl.num_lt,
      by rw [hline]; exact hl.own, hl.fresh, by rw [hline]; exact hl.first⟩ fun j _ =>
        (h.link j).mono (Nat.le_succ s.next) fun _ _ heq => heq, fun n call heq => ?_⟩
    exact (h.waiting_lt n call heq).trans (Nat.lt_succ_self _)
  | @handle i n req reqs now agent out hreqs hex =>
    exact ⟨linkInv_setLink ((h.link i).handle h.waiting_lt hreqs hex) fun j _ => h.link j,
      h.waiting_lt⟩
  | @agent i now op agent out hex =>
    refine ⟨linkInv_setLink ?_ fun j _ => h.link j, h.waiting_lt⟩
    have hl := h.link i
    exact ⟨hl.answers, hl.num_lt, hl.own, hl.fresh, hl.first⟩
  | @receive n call i r rsps mills hphase hi hrsps =>
    -- whoever waits after a receive has waited before: it is the loop of `apiGetHost`
    have hback : ∀ n' call', (Session.receive mills n (some r.rsp) s.client call).2 =
        .waiting n' call' → s.phase = .waiting n' call' := by
      intro n' call' heq
      obtain ⟨rfl, rfl, -⟩ := receive_waiting heq
      exact hphase
    refine ⟨linkInv_setLink ((h.link i).receive hrsps fun n' call' heq => ?_) fun j _ =>
      (h.link j).mono le_rfl hback, fun n' call' heq => h.waiting_lt n' call' (hback n' call' heq)⟩
    obtain ⟨-, rfl, hget⟩ := receive_waiting heq
    exact hget
  | @timeout n call mills hphase =>
    have hback : ∀ n' call', (Session.receive mills n none s.client call).2 =
        .waiting n' call' → s.phase = .waiting n' call' := by
      intro n' call' heq
      obtain ⟨rfl, rfl, -⟩ := receive_waiting heq
      exact hphase
    exact ⟨fun i => (h.link i).mono le_rfl hback,
      fun n' call' heq => h.waiting_lt n' call' (hback n' call' heq)⟩

/-! ## Every run -/

/-- At the start nothing is on its way and no call waits. -/
theorem inv_init {s : Session} (h : (system cfg).init s) : s.Inv cfg := by
  obtain ⟨hphase, -, hlink⟩ := h
  have hquiet : ∀ n call, s.phase ≠ .waiting n call := by
    intro n call heq
    rw [hphase] at heq
    cases heq
  refine ⟨fun i => ?_, fun n call heq => absurd heq (hquiet n call)⟩
  obtain ⟨id, heq⟩ := hlink i
  rw [heq]
  exact ⟨by simp, by simp [Link.line], fun n _ _ _ hw => absurd hw (hquiet n _),
    fun n _ _ _ hw => absurd hw (hquiet n _), fun n _ _ _ hw => absurd hw (hquiet n _)⟩

/-- `getRoute4Cache` accepts only a reply that names the module. -/
theorem recvRoute4Cache_zero {c : ElbClient} {modid cmdid : Int32} {ts : ℤ} {rsp : AgentRsp}
    (h : (c.recvRoute4Cache modid cmdid ts (some rsp)).2 = 0) :
    ∃ x, rsp = .cacheGetRoute x ∧ x.modid = modid ∧ x.cmdid = cmdid := by
  have hno : ElbClient.noAnswer ≠ 0 := by decide
  cases rsp with
  | getHost x => exact absurd h hno
  | getRouteByTool x => exact absurd h hno
  | cacheGetRoute x =>
    rw [ElbClient.recvRoute4Cache] at h
    split at h
    · exact absurd h hno
    · next hids =>
      push Not at hids
      exact ⟨x, rfl, hids⟩

/-- `apiGetRoute` accepts any reply of its kind. -/
theorem recvGetRoute_zero {rsp : AgentRsp} (h : (ElbClient.recvGetRoute (some rsp)).1 = 0) :
    ∃ x, rsp = .getRouteByTool x := by
  have hno : (-1 : Int32) ≠ 0 := by decide
  cases rsp with
  | getHost x => exact absurd h hno
  | getRouteByTool x => exact ⟨x, rfl⟩
  | cacheGetRoute x => exact absurd h hno

/-- With the invariant a waiting call accepts its own reply only. -/
theorem Inv.appliesOwn {s : Session} (h : s.Inv cfg) : s.AppliesOwn := by
  intro n call i r hphase hi hr
  have hl := h.link i
  obtain ⟨now, agent, out, hex, hrsp⟩ := hl.answers r (List.mem_of_mem_head? hr)
  have hrep := RouteLB.exec_reply hex
  rw [hrsp] at hrep
  cases call with
  | getHost seq modid cmdid => trivial
  | getRoute4Cache modid cmdid ts =>
    intro hret
    obtain ⟨x, hx, hm, hk⟩ := recvRoute4Cache_zero hret
    rw [hx] at hrep
    obtain ⟨q, hreq, hqm, hqk⟩ := hrep.cacheGetRoute
    exact (hl.fresh n modid cmdid ts hphase hi r hr).resolve_right fun hother =>
      hother q hreq ⟨hqm.symm.trans hm, hqk.symm.trans hk⟩
  | getRoute modid cmdid retryCnt =>
    intro hret
    obtain ⟨x, hx⟩ := recvGetRoute_zero hret
    rw [hx] at hrep
    obtain ⟨q, hreq, hhosts⟩ := hrep.getRoute
    obtain ⟨rsps, heq⟩ := List.head?_eq_some_iff.mp hr
    have hhead : (s.link i).line.head? = some (r.num, r.req) := by
      rw [line_receive heq]
      rfl
    have hnum : r.num = n := (hl.first n modid cmdid retryCnt hphase hi _ hhead).resolve_right
      fun hother => hother q hreq
    -- under the number of the call there is the request of the call
    have hown := hl.own n modid cmdid retryCnt hphase _ (List.mem_of_mem_head? hhead) hnum
    obtain rfl : q = ⟨modid, cmdid⟩ := AgentReq.getRouteByTool.inj (hreq.symm.trans hown)
    rw [hx]
    refine ⟨hnum, hhosts, fun tries _ hzero hnil => ?_⟩
    simp only [ElbClient.registerRet, ElbClient.recvGetRoute, hhosts, hnil] at hzero
    split at hzero
    · split at hzero <;> cases hzero
    · next hne => exact hne rfl

/-- In every run whose calls find no late reply in line, a waiting call accepts its own reply only.
-/
theorem appliesOwn_of_noneInLine {s : Session}
    (h : ((system cfg).restrict NoneInLine).Reachable s) : s.AppliesOwn := by
  have hinv : s.Inv cfg := by
    refine h.invariant (P := fun s => s.Inv cfg) ?_ ?_
    · exact fun s hs => inv_init hs
    · rintro s op s' - hinv ⟨hc, hs⟩
      exact hinv.step hc hs
  exact hinv.appliesOwn

/-- A new client and a new agent. -/
def start : Session := ⟨.new false, fun i => ⟨.new i, [], []⟩, 0, .idle⟩

/-- Shard 0 is called by somebody else. -/
def served (now : ℤ) (op : RouteLB.Op) (s : Session) : Session :=
  match (s.link 0).agent.exec LbConfigure.default now op with
  | .ok (agent, _) => s.setLink 0 { s.link 0 with agent := agent }
  | .error _ => s

/-- Shard 0 handles the client's first request. -/
def handled (s : Session) : Session :=
  match (s.link 0).reqs with
  | [] => s
  | (n, req) :: reqs =>
    match (s.link 0).agent.exec LbConfigure.default 0 (.ofReq req) with
    | .error _ => s
    | .ok (agent, out) => s.setLink 0 ⟨agent, reqs, (s.link 0).rsps ++
        (out.reply.map fun rsp => (⟨n, req, s.next, (s.link 0).agent, rsp⟩ : Reply)).toList⟩

/-- A call is made on shard 0. -/
def called (call : Call) (s : Session) : Session :=
  { s.setLink 0 { s.link 0 with reqs := (s.link 0).reqs ++ [(s.next, call.req s.client)] } with
    client := call.sent s.client
    next := s.next + 1
    phase := .waiting s.next call }

/-- Module (1, 2) has one host. -/
def routed : Session := served 5 (.update ⟨1, 2, [⟨10, 80⟩]⟩) (served 5 (.getHost ⟨0, 1, 2⟩) start)

/-- The first call times out. -/
def timedOut (call : Call) (s : Session) : Session :=
  { s with
    client := (receive 0 0 none s.client call).1
    phase := (receive 0 0 none s.client call).2 }

/-- A call on this module timed out, and its reply has come since. -/
def late (call : Call) : Session := handled (timedOut call (called call routed))

/-- The run of the example starts in such a state. -/
theorem start_init : (system LbConfigure.default).init start :=
  ⟨rfl, ⟨false, rfl⟩, fun i => ⟨i, rfl⟩⟩

/-- The shard can be given its route whatever the calls have to meet. -/
theorem routed_reachable {C : Session → Op → Prop} (hC : ∀ s now op, C s (.agent 0 now op)) :
    ((system LbConfigure.default).restrict C).Reachable routed :=
  .step (e := .agent 0 5 (.update ⟨1, 2, [⟨10, 80⟩]⟩))
    (.step (e := .agent 0 5 (.getHost ⟨0, 1, 2⟩)) (.init start_init) ⟨hC _ _ _, .agent rfl⟩)
    ⟨hC _ _ _, .agent rfl⟩

/-- The reply to a first call can come late. -/
theorem late_reachable {call : Call}
    (hcall : call = .getRoute4Cache 1 2 5 ∨ call = .getRoute 1 2 none) :
    ((system LbConfigure.default).restrict NoneInLine).Reachable (late call) := by
  have h₀ := routed_reachable (C := NoneInLine) fun _ _ _ => trivial
  rcases hcall with rfl | rfl
  · have h₁ : ((system LbConfigure.default).restrict NoneInLine).Reachable
        (called (.getRoute4Cache 1 2 5) routed) :=
      h₀.step (e := .send (.getRoute4Cache 1 2 5))
        ⟨by rintro i r ⟨⟩ ⟨⟩, .send (i := 0) trivial rfl (by rintro _ _ _ ⟨⟩)⟩
    have h₂ : ((system LbConfigure.default).restrict NoneInLine).Reachable
        (timedOut (.getRoute4Cache 1 2 5) (called (.getRoute4Cache 1 2 5) routed)) :=
      h₁.step (e := .timeout) ⟨trivial, .timeout 0 rfl⟩
    exact h₂.step (e := .handle 0 0) ⟨trivial, .handle rfl rfl⟩
  · have h₁ : ((system LbConfigure.default).restrict NoneInLine).Reachable
        (called (.getRoute 1 2 none) routed) :=
      h₀.step (e := .send (.getRoute 1 2 none))
        ⟨by rintro i p ⟨⟩ ⟨⟩, .send (i := 0) trivial rfl (by rintro _ _ _ ⟨⟩)⟩
    have h₂ : ((system LbConfigure.default).restrict NoneInLine).Reachable
        (timedOut (.getRoute 1 2 none) (called (.getRoute 1 2 none) routed)) :=
      h₁.step (e := .timeout) ⟨trivial, .timeout 0 rfl⟩
    exact h₂.step (e := .handle 0 0) ⟨trivial, .handle rfl rfl⟩

/-- `apiGetRoute` waits. The late reply to a call of `getRoute4Cache` about another module is first
in its socket, and its own reply behind. -/
theorem appliesOwn_late_reply :
    ∃ s, ((system LbConfigure.default).restrict NoneInLine).Reachable s ∧ s.AppliesOwn ∧
      s.phase = .waiting 1 (.getRoute 4 2 none) ∧ (s.link 0).rsps.map Reply.num = [0, 1] := by
  have h₁ : ((system LbConfigure.default).restrict NoneInLine).Reachable
      (called (.getRoute 4 2 none) (late (.getRoute4Cache 1 2 5))) :=
    (late_reachable (.inl rfl)).step (e := .send (.getRoute 4 2 none))
      ⟨by rintro i p ⟨⟩ ⟨⟩ q ⟨⟩, .send (i := 0) trivial rfl (by rintro _ _ _ ⟨⟩)⟩
  have h₂ : ((system LbConfigure.default).restrict NoneInLine).Reachable
      (handled (called (.getRoute 4 2 none) (late (.getRoute4Cache 1 2 5)))) :=
    h₁.step (e := .handle 0 0) ⟨trivial, .handle rfl rfl⟩
  exact ⟨_, h₂, appliesOwn_of_noneInLine h₂, rfl, rfl⟩

/-- After a time-out `getRoute4Cache` accepts the reply to the call before. `apiRegister` accepts
the reply about another module, and returns 0 although the agent has no route. -/
theorem not_appliesOwn :
    (∃ s, (system LbConfigure.default).Reachable s ∧ ¬AppliesOwn s ∧
      s.phase = .waiting 1 (.getRoute4Cache 1 2 5)) ∧
    ∃ s r, (system LbConfigure.default).Reachable s ∧ ¬AppliesOwn s ∧
      s.phase = .waiting 1 (.getRoute 4 2 (some 0)) ∧ (s.link 0).rsps = [r] ∧
      ElbClient.registerRet 0 (ElbClient.recvGetRoute (some r.rsp)).2 = some 0 ∧
      ((s.link 0).agent.routeOf 4 2) = [] := by
  constructor
  · refine ⟨called (.getRoute4Cache 1 2 5) (late (.getRoute4Cache 1 2 5)),
      (late_reachable (.inl rfl)).of_restrict.step (e := .send (.getRoute4Cache 1 2 5))
        (.send (i := 0) trivial rfl (by rintro _ _ _ ⟨⟩)), fun hown => ?_, rfl⟩
    exact absurd (hown 1 _ 0 _ rfl rfl rfl rfl) (by decide)
  · have h₁ : (system LbConfigure.default).Reachable
        { late (.getRoute 1 2 none) with phase := .retry 4 2 0 } :=
      (late_reachable (.inr rfl)).of_restrict.step (e := .register 4 2) (.register rfl)
    refine ⟨called (.getRoute 4 2 (some 0))
        { late (.getRoute 1 2 none) with phase := .retry 4 2 0 }, _,
      h₁.step (e := .send (.getRoute 4 2 (some 0)))
        (.send (i := 0) rfl rfl (by rintro _ _ _ ⟨⟩)), fun hown => ?_, rfl, rfl, rfl, rfl⟩
    exact absurd (hown 1 _ 0 _ rfl rfl rfl rfl).1 (by decide)

end Session

end Elb
