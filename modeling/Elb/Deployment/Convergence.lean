import Elb.Deployment.Hosts
import Elb.Dnsserver.Subscription
import Elb.Lbagent.DssClient

/-!
# Agents come to have the current routes

Reference: `getRoute` and `pushChange` in `dnsserver/src/Server.cc`, `recvRoute` in
`lbagent/src/DssClient.cc`, `RouteLB::update` in `lbagent/src/RouteLb.cc`.

dnsserver and one agent, joined by a connection that keeps the order of what is sent on it. The last
response on a connection is current when the loops of dnsserver are at rest, and here the agent's
end is put to it: what the agent has read of the connection is what its shards have, whatever is
asked of them in the meantime.
-/

namespace Elb

open Transition

variable {R : Type} [RateArith R] {cfg : LbConfigure R} {now : ℤ}

/-! ## The route of a module over a call -/

/-- The route of a module after a call is that of the response, if the call brings one for the
module, and otherwise it was there before. -/
theorem RouteLB.Inv.route_after {s s' : RouteLB} {op : RouteLB.Op} {out : RouteLB.Out}
    (h : s.Inv cfg) (hex : s.exec cfg now op = .ok (s', out)) {modid cmdid : Int32} {lb' : LB}
    (hk' : s'.routeMap.lookup (packKey modid cmdid) = some lb') (hne : lb'.empty = false) :
    (∃ rsp, op = .update rsp ∧ rsp.modid = modid ∧ rsp.cmdid = cmdid ∧
        ∀ host : HostAddr, host.key ∈ lb'.hostMap ↔ host ∈ rsp.hosts) ∨
      (∀ rsp, op = .update rsp → ¬(rsp.modid = modid ∧ rsp.cmdid = cmdid)) ∧
        ∃ lb, s.routeMap.lookup (packKey modid cmdid) = some lb ∧ lb.empty = false ∧
          ∀ k, k ∈ lb'.hostMap ↔ k ∈ lb.hostMap := by
  by_cases hup : ∃ rsp, op = .update rsp
  · obtain ⟨rsp, rfl⟩ := hup
    have hids : packKey modid cmdid = packKey rsp.modid rsp.cmdid ↔
        rsp.modid = modid ∧ rsp.cmdid = cmdid :=
      ⟨fun heq => (packKey_inj heq).imp Eq.symm Eq.symm, fun heq => by rw [heq.1, heq.2]⟩
    cases hk : s.routeMap.lookup (packKey rsp.modid rsp.cmdid) with
    | none =>
      -- a response for a module that the shard does not have is dropped
      simp only [exec, update, hk] at hex
      obtain rfl := (Prod.mk.inj (Except.ok.inj hex)).1
      refine .inr ⟨fun rsp' heq hm => ?_, lb', hk', hne, fun _ => .rfl⟩
      cases heq
      rw [hids.mpr hm, hk] at hk'
      cases hk'
    | some lb =>
      rcases update_cases hk hex with ⟨-, rfl⟩ | ⟨lb₁, hupd, rfl⟩
      · obtain ⟨hkey, hk'⟩ := HashMap.lookup_of_erase hk'
        refine .inr ⟨fun rsp' heq hm => ?_, lb', hk', hne, fun _ => .rfl⟩
        cases heq
        exact hkey (hids.mpr hm)
      · rw [put_lookup] at hk'
        split at hk'
        · next heq =>
          obtain rfl := Option.some.inj hk'
          obtain ⟨hm, hc⟩ := hids.mp heq
          obtain ⟨-, hspec⟩ := LB.updateSpec_of_ok _ _ hupd
          refine .inl ⟨rsp, rfl, hm, hc, fun host => ?_⟩
          rw [hspec.keys, List.mem_map]
          refine ⟨?_, fun hmem => ⟨host, hmem, rfl⟩⟩
          rintro ⟨a, ha, hkey⟩
          exact HostAddr.key_inj hkey ▸ ha
        · next hkey =>
          refine .inr ⟨fun rsp' heq hm => ?_, lb', hk', hne, fun _ => .rfl⟩
          cases heq
          exact hkey (hids.mpr hm)
  · have hno : ∀ rsp, op = .update rsp → ¬(rsp.modid = modid ∧ rsp.cmdid = cmdid) :=
      fun rsp heq => absurd ⟨rsp, heq⟩ hup
    refine .inr ⟨hno, ?_⟩
    cases (h.result hex).effect with
    | same => exact ⟨lb', hk', hne, fun _ => .rfl⟩
    | @serve _ key lb lb₁ hk hserve =>
      have hroute := hserve.sameRoute (h.lb_reachable key lb hk)
      rw [put_lookup] at hk'
      split at hk'
      · next heq =>
        obtain rfl := Option.some.inj hk'
        exact ⟨lb, heq ▸ hk, hroute.empty_eq ▸ hne, hroute.mem_iff⟩
      · exact ⟨lb', hk', hne, fun _ => .rfl⟩
    | @create _ m c hk =>
      rw [create_lookup] at hk'
      split at hk'
      · obtain rfl := Option.some.inj hk'
        cases hne
      · exact ⟨lb', hk', hne, fun _ => .rfl⟩
    | update hk hne' hupd => exact absurd ⟨_, rfl⟩ hup
    | delete hnil => exact absurd ⟨_, rfl⟩ hup
    | clearPulling =>
      rw [RouteLB.clearPulling, HashMap.lookup_mapVal, Option.map_eq_some_iff] at hk'
      obtain ⟨lb, hk, rfl⟩ := hk'
      have hmap : lb.clearPulling.hostMap = lb.hostMap := by
        rw [LB.clearPulling]
        split <;> rfl
      refine ⟨lb, hk, ?_, fun k => by rw [hmap]⟩
      rwa [LB.empty, hmap] at hne

/-! ## dnsserver, the connection and the agent -/

/-- `fd` is the descriptor of the agent's connection at dnsserver, and `inbox` what was sent on it
and is not read yet, the oldest first. -/
structure Uplink (n : ℕ) where
  server : Server n
  fd : Option ℕ
  inbox : List GetRouteRsp
  shard : Fin 3 → RouteLB

/-- The last response for a module, after one more response. -/
theorem lastRsp_cons (modid cmdid : Int32) (rsp : GetRouteRsp) (sent : List GetRouteRsp) :
    lastRsp modid cmdid (rsp :: sent) =
      if rsp.modid = modid ∧ rsp.cmdid = cmdid then some rsp else lastRsp modid cmdid sent := by
  rw [lastRsp, List.find?_cons, lastRsp]
  split <;> simp_all

namespace Server

variable {n : ℕ} {s : Server n}

/-- The step closes the connection. -/
def Op.closes (fd : ℕ) : Op n → Bool
  | .close fd' => fd' = fd
  | _ => false

/-- What the step sends on a connection. -/
def sendsOn (fd : ℕ) (s : Server n) : Op n → List GetRouteRsp
  | .work l => (s.handler l).inFlight fd
  | _ => []

/-- What is sent on a connection is what the steps send. -/
theorem sent_next {op : Op n} {fd : ℕ} {c : Conn n} (hc : s.conns.lookup fd = some c)
    (hop : s.Allowed op) (hclose : op.closes fd = false) :
    ∃ c', (s.next op).conns.lookup fd = some c' ∧ c'.sent = s.sendsOn fd op ++ c.sent := by
  have hdeliver : ∀ fd' rsp, ∃ c', (s.deliver fd' rsp).conns.lookup fd = some c' ∧
      c'.sent = (if fd' = fd then [rsp] else []) ++ c.sent := by
    intro fd' rsp
    by_cases hfd : fd' = fd
    · subst hfd
      rw [deliver, hc, if_pos rfl]
      exact ⟨_, AList.lookup_insert _, rfl⟩
    · rw [deliver, if_neg hfd]
      split
      · exact ⟨c, hc, rfl⟩
      · exact ⟨c, (AList.lookup_insert_ne (Ne.symm hfd)).trans hc, rfl⟩
  cases op with
  | accept fd' l =>
    have hne : fd ≠ fd' := by
      rintro rfl
      cases hc.symm.trans hop.1
    exact ⟨c, (AList.lookup_insert_ne hne).trans hc, rfl⟩
  | request fd' modid cmdid =>
    simp only [next]
    split
    · exact ⟨c, hc, rfl⟩
    · next c₁ hc₁ =>
      split
      · exact ⟨c, hc, rfl⟩
      · by_cases hfd : fd = fd'
        · subst hfd
          obtain rfl := Option.some.inj (hc.symm.trans hc₁)
          exact ⟨_, AList.lookup_insert _, rfl⟩
        · exact ⟨c, (AList.lookup_insert_ne hfd).trans hc, rfl⟩
  | close fd' =>
    have hne : fd ≠ fd' := Ne.symm (of_decide_eq_false hclose)
    simp only [next]
    split
    · exact ⟨c, hc, rfl⟩
    · exact ⟨c, (AList.lookup_erase_ne hne).trans hc, rfl⟩
  | work l =>
    simp only [next, work, sendsOn]
    cases s.handler l with
    | sending fd' rsp => exact hdeliver fd' rsp
    | pushSending fd' rsp news => exact hdeliver fd' rsp
    | pushing news => cases news <;> exact ⟨c, hc, rfl⟩
    | closing fd' book => cases book <;> exact ⟨c, hc, rfl⟩
    | _ => exact ⟨c, hc, rfl⟩
  | post =>
    simp only [next]
    split <;> exact ⟨c, hc, rfl⟩
  | _ => exact ⟨c, hc, rfl⟩

end Server

namespace Uplink

variable {n : ℕ} {s s' : Uplink n}

/-- What happens next: anything at dnsserver; a connection of the agent is made, or is given up by
the agent; a shard is called by API or by `whenConnected`; the agent reads a response. -/
inductive Event (n : ℕ)
  | server (op : Server.Op n)
  | connect (fd : ℕ) (l : Fin n)
  | abort
  | agent (i : Fin 3) (now : ℤ) (op : RouteLB.Op)
  | recvRoute (now : ℤ)

/-- One step. What comes before the end of a closed connection can still be read, until there is
another connection. -/
inductive Step (cfg : LbConfigure R) (s : Uplink n) : Event n → Uplink n → Prop
  | server {op : Server.Op n} (hop : s.server.Allowed op) :
      Step cfg s (.server op) { s with
        server := s.server.next op
        fd := s.fd.filter fun fd => !op.closes fd
        inbox := s.inbox ++ s.fd.elim [] fun fd => s.server.sendsOn fd op }
  | connect {fd : ℕ} {l : Fin n} (hfd : s.fd = none) (hop : s.server.Allowed (.accept fd l)) :
      Step cfg s (.connect fd l) { s with
        server := s.server.next (.accept fd l), fd := some fd, inbox := [] }
  | abort : Step cfg s .abort { s with fd := none, inbox := [] }
  | agent {i : Fin 3} {now : ℤ} {op : RouteLB.Op} {shard : RouteLB} {out : RouteLB.Out}
      (hop : ∀ rsp, op ≠ .update rsp) (hex : (s.shard i).exec cfg now op = .ok (shard, out)) :
      Step cfg s (.agent i now op) { s with shard := Function.update s.shard i shard }
  | recvRoute {now : ℤ} {rsp : GetRouteRsp} {rsps : List GetRouteRsp} {i : Fin 3} {shard : RouteLB}
      {out : RouteLB.Out} (hinbox : s.inbox = rsp :: rsps)
      (hi : Shard.slot (Shard.recvRouteIndex rsp.modid rsp.cmdid).toInt = some i)
      (hex : (s.shard i).exec cfg now (.update rsp) = .ok (shard, out)) :
      Step cfg s (.recvRoute now)
        { s with inbox := rsps, shard := Function.update s.shard i shard }

/-- Runs from a server with any routes and new shards. -/
def system (cfg : LbConfigure R) : System (Uplink n) (Event n) where
  init s := (∃ data, s.server = .new data) ∧ s.fd = none ∧ s.inbox = [] ∧
    ∀ i, ∃ id, s.shard i = .new id
  step := Step cfg

/-- The shards have what was last read about the module, if they have a route of it. -/
def Applied (shard : Fin 3 → RouteLB) (read : List GetRouteRsp) : Prop :=
  ∀ modid cmdid rsp, lastRsp modid cmdid read = some rsp →
    ∀ i lb, (shard i).routeMap.lookup (packKey modid cmdid) = some lb → lb.empty = false →
      ∀ host : HostAddr, host.key ∈ lb.hostMap ↔ host ∈ rsp.hosts

/-- A module has its route in the shard that routes of the module are handed to, and what was sent
on the connection is what was read and what is to be read. -/
structure Inv (cfg : LbConfigure R) (s : Uplink n) : Prop where
  server : (Server.system n).Reachable s.server
  shard : ∀ i, (s.shard i).Inv cfg
  home : ∀ i modid cmdid lb, (s.shard i).routeMap.lookup (packKey modid cmdid) = some lb →
    lb.empty = false → Shard.slot (Shard.recvRouteIndex modid cmdid).toInt = some i
  conn : ∀ fd, s.fd = some fd → ∃ c read, s.server.conns.lookup fd = some c ∧
    c.sent = s.inbox.reverse ++ read ∧ Applied s.shard read

/-! ## The invariant -/

/-- A call of a shard that brings no route leaves what the shards have. -/
theorem Inv.agent (h : s.Inv cfg) {i : Fin 3} {op : RouteLB.Op} {shard : RouteLB}
    {out : RouteLB.Out} (hop : ∀ rsp, op ≠ .update rsp)
    (hex : (s.shard i).exec cfg now op = .ok (shard, out)) :
    Inv cfg { s with shard := Function.update s.shard i shard } := by
  -- a route that a shard has afterwards was there before
  have hbefore : ∀ j modid cmdid lb', (Function.update s.shard i shard j).routeMap.lookup
      (packKey modid cmdid) = some lb' → lb'.empty = false →
        ∃ lb, (s.shard j).routeMap.lookup (packKey modid cmdid) = some lb ∧ lb.empty = false ∧
          ∀ k, k ∈ lb'.hostMap ↔ k ∈ lb.hostMap := by
    intro j modid cmdid lb' hk' hne
    rw [Function.update_apply] at hk'
    split at hk'
    · next hj =>
      subst hj
      rcases (h.shard j).route_after hex hk' hne with ⟨rsp, heq, -⟩ | ⟨-, hold⟩
      · exact absurd heq (hop rsp)
      · exact hold
    · exact ⟨lb', hk', hne, fun _ => .rfl⟩
  refine ⟨h.server, fun j => ?_, fun j modid cmdid lb' hk' hne => ?_, fun fd hfd => ?_⟩
  · dsimp only
    rw [Function.update_apply]
    split
    · exact (h.shard i).effect ((h.shard i).result hex).effect
    · exact h.shard j
  · obtain ⟨lb, hk, hne, -⟩ := hbefore j modid cmdid lb' hk' hne
    exact h.home j modid cmdid lb hk hne
  · obtain ⟨c, read, hc, hsent, happlied⟩ := h.conn fd hfd
    refine ⟨c, read, hc, hsent, fun modid cmdid rsp hlast j lb' hk' hne host => ?_⟩
    obtain ⟨lb, hk, hne, hmem⟩ := hbefore j modid cmdid lb' hk' hne
    rw [hmem, happlied modid cmdid rsp hlast j lb hk hne]

/-- The agent reads the next response. -/
theorem Inv.recvRoute (h : s.Inv cfg) {rsp : GetRouteRsp} {rsps : List GetRouteRsp} {i : Fin 3}
    {shard : RouteLB} {out : RouteLB.Out} (hinbox : s.inbox = rsp :: rsps)
    (hi : Shard.slot (Shard.recvRouteIndex rsp.modid rsp.cmdid).toInt = some i)
    (hex : (s.shard i).exec cfg now (.update rsp) = .ok (shard, out)) :
    Inv cfg { s with inbox := rsps, shard := Function.update s.shard i shard } := by
  -- a route that a shard has afterwards is that of the response, or was there before
  have hcases : ∀ j modid cmdid lb', (Function.update s.shard i shard j).routeMap.lookup
      (packKey modid cmdid) = some lb' → lb'.empty = false →
        (j = i ∧ rsp.modid = modid ∧ rsp.cmdid = cmdid ∧
            ∀ host : HostAddr, host.key ∈ lb'.hostMap ↔ host ∈ rsp.hosts) ∨
          ¬(rsp.modid = modid ∧ rsp.cmdid = cmdid) ∧
            ∃ lb, (s.shard j).routeMap.lookup (packKey modid cmdid) = some lb ∧
              lb.empty = false ∧ ∀ k, k ∈ lb'.hostMap ↔ k ∈ lb.hostMap := by
    intro j modid cmdid lb' hk' hne
    rw [Function.update_apply] at hk'
    split at hk'
    · next hj =>
      subst hj
      rcases (h.shard j).route_after hex hk' hne with ⟨rsp', heq, hm, hc, hmem⟩ | ⟨hno, hold⟩
      · cases heq
        exact .inl ⟨rfl, hm, hc, hmem⟩
      · exact .inr ⟨hno rsp rfl, hold⟩
    · next hj =>
      refine .inr ⟨?_, lb', hk', hne, fun _ => .rfl⟩
      -- another shard has no route of the module
      rintro ⟨rfl, rfl⟩
      have hhome := h.home j rsp.modid rsp.cmdid lb' hk' hne
      exact hj (Option.some.inj (hhome.symm.trans hi))
  refine ⟨h.server, fun j => ?_, fun j modid cmdid lb' hk' hne => ?_, fun fd hfd => ?_⟩
  · dsimp only
    rw [Function.update_apply]
    split
    · exact (h.shard i).effect ((h.shard i).result hex).effect
    · exact h.shard j
  · rcases hcases j modid cmdid lb' hk' hne with ⟨rfl, rfl, rfl, -⟩ | ⟨-, lb, hk, hne, -⟩
    · exact hi
    · exact h.home j modid cmdid lb hk hne
  · obtain ⟨c, read, hc, hsent, happlied⟩ := h.conn fd hfd
    refine ⟨c, rsp :: read, hc, ?_, fun modid cmdid rsp' hlast j lb' hk' hne host => ?_⟩
    · rw [hsent, hinbox, List.reverse_cons, List.append_assoc]
      rfl
    · rcases hcases j modid cmdid lb' hk' hne with ⟨-, hm, hk, hmem⟩ | ⟨hno, lb, hk, hne, hmem⟩
      · rw [lastRsp_cons, if_pos ⟨hm, hk⟩] at hlast
        rw [hmem, Option.some.inj hlast]
      · rw [lastRsp_cons, if_neg hno] at hlast
        rw [hmem, happlied modid cmdid rsp' hlast j lb hk hne]

/-- Something happens at dnsserver. -/
theorem Inv.serverStep (h : s.Inv cfg) {op : Server.Op n} (hop : s.server.Allowed op) :
    Inv cfg { s with
      server := s.server.next op
      fd := s.fd.filter fun fd => !op.closes fd
      inbox := s.inbox ++ s.fd.elim [] fun fd => s.server.sendsOn fd op } := by
  refine ⟨h.server.step ⟨hop, rfl⟩, h.shard, h.home, fun fd hfd => ?_⟩
  obtain ⟨hfd, hclose⟩ := Option.filter_eq_some_iff.mp hfd
  obtain ⟨c, read, hc, hsent, happlied⟩ := h.conn fd hfd
  obtain ⟨c', hc', hsent'⟩ := Server.sent_next hc hop (Bool.not_eq_true' _ |>.mp hclose)
  refine ⟨c', read, hc', ?_, happlied⟩
  -- a step sends one response at most
  have hrev : (s.server.sendsOn fd op).reverse = s.server.sendsOn fd op := by
    cases op with
    | work l =>
      rw [Server.sendsOn]
      cases s.server.handler l with
      | sending fd' rsp => rw [Handler.inFlight]; split <;> rfl
      | pushSending fd' rsp news => rw [Handler.inFlight]; split <;> rfl
      | _ => rfl
    | _ => rfl
  rw [hsent', hsent, hfd, Option.elim_some, List.reverse_append, hrev, List.append_assoc]

/-- A step of either side, or of the channel between them, keeps the invariant. -/
theorem Inv.step {e : Event n} (h : s.Inv cfg) (hs : Step cfg s e s') : s'.Inv cfg := by
  cases hs with
  | server hop => exact h.serverStep hop
  | @connect fd l hfd hop =>
    refine ⟨h.server.step ⟨hop, rfl⟩, h.shard, h.home, fun fd' hfd' => ?_⟩
    obtain rfl := Option.some.inj hfd'
    -- nothing was read on a new connection
    refine ⟨⟨l, [], []⟩, [], AList.lookup_insert _, rfl, ?_⟩
    rintro modid cmdid rsp ⟨⟩
  | abort => exact ⟨h.server, h.shard, h.home, by rintro fd ⟨⟩⟩
  | agent hop hex => exact h.agent hop hex
  | recvRoute hinbox hi hex => exact h.recvRoute hinbox hi hex

/-- It holds in every reachable state. -/
theorem inv_of_reachable (h : (system cfg).Reachable s) : s.Inv cfg := by
  refine h.invariant ?_ fun _ _ _ _ ih hs => ih.step hs
  rintro s ⟨hserver, hfd, -, hshard⟩
  refine ⟨.init hserver, fun i => ?_, fun i modid cmdid lb hk => ?_, fun fd hfd' => ?_⟩
  · obtain ⟨id, heq⟩ := hshard i
    rw [heq]
    exact RouteLB.inv_new id
  · obtain ⟨id, heq⟩ := hshard i
    rw [heq] at hk
    cases hk
  · rw [hfd] at hfd'
    cases hfd'

/-! ## At rest -/

end Uplink

/-- The hosts of a module. -/
def RouteMap.hosts (modid cmdid : Int32) (data : RouteMap) : List HostAddr :=
  (data.getHosts modid cmdid).map hostOf

/-- The reply has a host of the module, or all of them. It has none while there is no route, and
when the client named the version of the route. -/
def AgentRsp.Tells (data : RouteMap) : AgentRsp → Prop
  | .getHost rsp => rsp.retcode = 0 →
      ∃ host, rsp.host = some host ∧ host ∈ data.hosts rsp.modid rsp.cmdid
  | .getRouteByTool rsp => rsp.hosts = [] ∨
      ∀ host, host ∈ rsp.hosts ↔ host ∈ data.hosts rsp.modid rsp.cmdid
  | .cacheGetRoute rsp => rsp.route = [] ∨
      ∀ host, host ∈ rsp.route ↔ host ∈ data.hosts rsp.modid rsp.cmdid

/-- A shard that has the hosts of the module, if it has a route of it, replies with these. -/
theorem RouteLB.Inv.tells {s s' : RouteLB} (h : s.Inv cfg) {data : RouteMap} {modid cmdid : Int32}
    (hroute : ∀ lb, s.routeMap.lookup (packKey modid cmdid) = some lb → lb.empty = false →
      ∀ host : HostAddr, host.key ∈ lb.hostMap ↔ host ∈ data.hosts modid cmdid)
    {req : AgentReq} (hreq : req.routeOf = some (modid, cmdid)) {out : RouteLB.Out}
    (hex : s.exec cfg now (.ofReq req) = .ok (s', out)) :
    ∀ rsp, out.reply = some rsp → rsp.Tells data := by
  intro rsp hrsp
  have hlist : ∀ lb, s.routeMap.lookup (packKey modid cmdid) = some lb → lb.empty = false →
      ∀ host, host ∈ lb.getRoute.map HI.addr ↔ host ∈ data.hosts modid cmdid := by
    intro lb hk hne host
    rw [CacheNet.mem_route (LB.repInv_of_reachable (h.lb_reachable _ lb hk)), hroute lb hk hne]
  cases req with
  | getHost req =>
    obtain ⟨rfl, rfl⟩ := Prod.mk.inj (Option.some.inj hreq)
    have hreply : s.Replies (.getHost req) out.reply := exec_reply hex
    obtain ⟨rsp₁, heq⟩ := hreply
    obtain rfl := Option.some.inj (hrsp.symm.trans heq)
    obtain ⟨-, hm, hc, -⟩ := (h.result hex).answers req rsp₁ rfl hrsp
    -- what is known of the hosts of this module
    have hvouched : s.Vouched fun m k host =>
        m = req.modid → k = req.cmdid → host ∈ data.hosts req.modid req.cmdid := by
      rintro m k lb hk host hmem rfl rfl
      have hne : lb.empty = false := by
        rw [← Bool.not_eq_true, LB.empty_iff]
        exact fun hall => hall _ hmem
      exact (hroute lb hk hne host).mp hmem
    intro h0
    obtain ⟨host, hhost, hmem⟩ := hvouched.reply h hex _ hrsp h0
    rw [hm, hc]
    exact ⟨host, hhost, hmem hm hc⟩
  | getRouteByTool req =>
    obtain ⟨rfl, rfl⟩ := Prod.mk.inj (Option.some.inj hreq)
    have heq : s.Replies (.getRouteByTool req) out.reply := exec_reply hex
    obtain rfl := Option.some.inj (hrsp.symm.trans heq)
    rw [AgentRsp.Tells, routeOf]
    cases hk : s.routeMap.lookup (packKey req.modid req.cmdid) with
    | none => exact .inl rfl
    | some lb =>
      cases hemp : lb.empty with
      | true =>
        rw [LB.empty, List.isEmpty_iff] at hemp
        exact .inl (by simp [LB.getRoute, hemp])
      | false => exact .inr (hlist lb hk hemp)
  | cacheGetRoute req =>
    obtain ⟨rfl, rfl⟩ := Prod.mk.inj (Option.some.inj hreq)
    rcases CacheNet.cacheGetRoute_reply hex with ⟨-, heq⟩ | ⟨lb, hk, hne, heq⟩
    · obtain rfl := Option.some.inj (hrsp.symm.trans heq)
      exact .inl rfl
    · obtain rfl := Option.some.inj (hrsp.symm.trans heq)
      rw [AgentRsp.Tells, CacheNet.routeReply]
      dsimp only
      split
      · exact .inr (hlist lb hk hne)
      · exact .inl rfl
  | report req => cases hreq
  | cacheBatchRpt req => cases hreq

namespace Uplink

variable {n : ℕ} {s : Uplink n}

/-- The loops of dnsserver have nothing to do, and the agent has read its connection. -/
structure AtRest (s : Uplink n) : Prop where
  handler : ∀ l, s.server.handler l = .idle
  posted : ∀ l, s.server.posted l = 0
  posting : s.server.posting = []
  inbox : s.inbox = []

/-- At rest, if a module that was asked for on the connection has been announced since it was last
altered, every shard with a route of the module has exactly the hosts that dnsserver has for it. -/
theorem Inv.mem_hosts_iff (h : s.Inv cfg) (hrest : s.AtRest) {fd : ℕ} (hfd : s.fd = some fd)
    {c : Conn n} (hc : s.server.conns.lookup fd = some c) {modid cmdid : Int32} (hk : 0 ≤ cmdid)
    (hkey : packKey modid cmdid ∈ c.interest)
    (hun : s.server.unannounced (packKey modid cmdid) = false) {i : Fin 3} {lb : LB}
    (hlb : (s.shard i).routeMap.lookup (packKey modid cmdid) = some lb) (hne : lb.empty = false)
    (host : HostAddr) : host.key ∈ lb.hostMap ↔ host ∈ s.server.data.hosts modid cmdid := by
  obtain ⟨hhandler, hposted, hposting, hinbox⟩ := hrest
  obtain ⟨c', read, hc', hsent, happlied⟩ := h.conn fd hfd
  obtain rfl := Option.some.inj (hc.symm.trans hc')
  rw [hinbox, List.reverse_nil, List.nil_append] at hsent
  -- nothing is owed to the connection, so what was sent last is current
  have hcurrent : ∃ rsp, lastRsp modid cmdid c.sent = some rsp ∧
      Lists s.server.data modid cmdid rsp := by
    have hs := ((Server.Reachable.inv h.server).settled fd c hc).settled modid cmdid hkey hk
    rw [Owed, Current, Server.view, hhandler, hposted, hposting] at hs
    rcases hs with (howed | ⟨-, (hpos | hmem) | hfetches⟩ | hwill) | hcur
    · cases hun.symm.trans howed
    · exact absurd hpos (lt_irrefl 0)
    · cases hmem
    · exact hfetches.elim
    · exact hwill.elim
    · exact hcur
  -- and it is what was read last
  obtain ⟨rsp, hlast, hlists⟩ := hcurrent
  rw [happlied modid cmdid rsp (hsent ▸ hlast) i lb hlb hne host]
  exact hlists host

/-- When dnsserver is at rest and the agent has read its connection, then for every module that was
asked for on it, every shard with a route of the module has exactly the hosts that dnsserver has for
it, and whatever request about the module comes next is answered from these. -/
theorem routes_current (h : (system cfg).Reachable s) (hq : s.server.Quiescent)
    (hinbox : s.inbox = []) {fd : ℕ} (hfd : s.fd = some fd) {c : Conn n}
    (hc : s.server.conns.lookup fd = some c) {modid cmdid : Int32} (hk : 0 ≤ cmdid)
    (hkey : packKey modid cmdid ∈ c.interest) :
    (∀ i lb, (s.shard i).routeMap.lookup (packKey modid cmdid) = some lb → lb.empty = false →
        ∀ host : HostAddr, host.key ∈ lb.hostMap ↔ host ∈ s.server.data.hosts modid cmdid) ∧
      ∀ i now req shard out, (s.shard i).exec cfg now (.ofReq req) = .ok (shard, out) →
        req.routeOf = some (modid, cmdid) →
          ∀ rsp, out.reply = some rsp → rsp.Tells s.server.data := by
  have hinv := inv_of_reachable h
  have hroute : ∀ i lb, (s.shard i).routeMap.lookup (packKey modid cmdid) = some lb →
      lb.empty = false →
        ∀ host : HostAddr, host.key ∈ lb.hostMap ↔ host ∈ s.server.data.hosts modid cmdid :=
    fun i lb hlb hne host => hinv.mem_hosts_iff ⟨hq.handler, hq.posted, hq.posting, hinbox⟩ hfd hc
      hk hkey (hq.unannounced _) hlb hne host
  exact ⟨hroute, fun i now req shard out hex hreq => (hinv.shard i).tells (hroute i) hreq hex⟩

/-- Shard 0 has been asked for the module and has read its route. -/
theorem exists_read : ∃ s : Uplink 1, (system LbConfigure.default).Reachable s ∧
    s.server.Quiescent ∧ s.inbox = [] ∧ s.fd = some 5 ∧ s.server.data = Server.oneRoute ∧
      s.server.conns.lookup 5 = some ⟨0, [packKey 1 2], [⟨1, 2, [⟨10, 80⟩]⟩]⟩ ∧
        ((s.shard 0).exec LbConfigure.default 9 (.getRoute ⟨1, 2⟩)).toOption.map (·.2.reply) =
          some (some (.getRouteByTool ⟨1, 2, [⟨10, 80⟩]⟩)) := by
  have h₀ : (system LbConfigure.default).Reachable
      (⟨.new Server.oneRoute, none, [], fun _ => .new 1⟩ : Uplink 1) :=
    .init ⟨⟨_, rfl⟩, rfl, rfl, fun _ => ⟨1, rfl⟩⟩
  have h₁ := h₀.step (e := (.connect 5 0 : Event 1)) (.connect rfl ⟨rfl, rfl, fun _ => rfl⟩)
  have h₂ := h₁.step (e := (.agent 0 7 (.getHost ⟨0, 1, 2⟩) : Event 1)) (.agent (by simp) rfl)
  have h₃ := h₂.step (e := (.server (.request 5 1 2) : Event 1)) (.server (by rintro c ⟨⟩; rfl))
  have h₄ := h₃.step (e := (.server (.work 0) : Event 1)) (.server trivial)
  have h₅ := h₄.step (e := (.server (.work 0) : Event 1)) (.server trivial)
  have h₆ := h₅.step (e := (.server (.work 0) : Event 1)) (.server trivial)
  have h₇ := h₆.step (e := (.recvRoute 8 : Event 1)) (.recvRoute (i := 0) rfl rfl rfl)
  exact ⟨_, h₇, ⟨by decide, by decide, rfl, fun _ => rfl⟩, rfl, rfl, rfl, rfl, rfl⟩

/-- The agent lists the one host of the module. -/
theorem routes_current_one_host :
    AgentRsp.Tells Server.oneRoute (.getRouteByTool ⟨1, 2, [⟨10, 80⟩]⟩) := by
  obtain ⟨s, h, hq, hinbox, hfd, hdata, hc, hreply⟩ := exists_read
  cases hex : (s.shard 0).exec LbConfigure.default 9 (.getRoute ⟨1, 2⟩) with
  | error fault =>
    rw [hex] at hreply
    cases hreply
  | ok res =>
    rw [hex] at hreply
    have htells := (routes_current h hq hinbox hfd hc (by decide) List.mem_cons_self).2 0 9
      (.getRouteByTool ⟨1, 2⟩) res.1 res.2 hex rfl _ (Option.some.inj hreply)
    exact hdata ▸ htells

end Uplink

end Elb
