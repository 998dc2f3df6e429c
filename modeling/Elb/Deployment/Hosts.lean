import Elb.Api.LateReply
import Elb.Dnsserver.Server
import Elb.Dnsserver.Snapshot

/-!
# What the parts of the system pass on

Reference: `Route::reload` and `dataLoader` in `dnsserver/src/Route.cc`, `getRoute` and `pushChange`
in `dnsserver/src/Server.cc`, `class RouteLB` in `lbagent/src/RouteLb.cc`, `class elbClient` in
`api/cpp/elbApi/elbApi.cc`.

dnsserver, agent and clients hand the hosts of a module from one to the next. `P modid cmdid host`
is anything that one may want to know of them. Each part is looked at alone here: if `P` holds of
what the part has and of what it is sent, then it holds of what it has afterwards and of what it
sends.
-/

namespace Elb

open Transition

variable {P Q : Int32 → Int32 → HostAddr → Prop}

/-! ## Messages -/

/-- A route. -/
def GetRouteRsp.Vouched (P : Int32 → Int32 → HostAddr → Prop) (rsp : GetRouteRsp) : Prop :=
  ∀ host ∈ rsp.hosts, P rsp.modid rsp.cmdid host

/-- A reply of the agent; one with the code of success has a host. -/
def AgentRsp.Vouched (P : Int32 → Int32 → HostAddr → Prop) : AgentRsp → Prop
  | .getHost rsp => rsp.retcode = 0 → ∃ host, rsp.host = some host ∧ P rsp.modid rsp.cmdid host
  | .getRouteByTool rsp => rsp.Vouched P
  | .cacheGetRoute rsp => ∀ host ∈ rsp.route, P rsp.modid rsp.cmdid host

/-- `P` may be weakened. -/
theorem GetRouteRsp.Vouched.mono {rsp : GetRouteRsp} (h : rsp.Vouched P)
    (hPQ : ∀ m k host, P m k host → Q m k host) : rsp.Vouched Q :=
  fun host hmem => hPQ _ _ host (h host hmem)

/-- `P` may be weakened. -/
theorem AgentRsp.Vouched.mono {rsp : AgentRsp} (h : rsp.Vouched P)
    (hPQ : ∀ m k host, P m k host → Q m k host) : rsp.Vouched Q := by
  cases rsp with
  | getHost rsp =>
    intro h0
    obtain ⟨host, heq, hP⟩ := h h0
    exact ⟨host, heq, hPQ _ _ host hP⟩
  | getRouteByTool rsp => exact GetRouteRsp.Vouched.mono (P := P) h hPQ
  | cacheGetRoute rsp => exact fun host hmem => hPQ _ _ host (h host hmem)

/-! ## The agent -/

/-- The hosts of every module of the shard. -/
def RouteLB.Vouched (P : Int32 → Int32 → HostAddr → Prop) (s : RouteLB) : Prop :=
  ∀ modid cmdid lb, s.routeMap.lookup (packKey modid cmdid) = some lb →
    ∀ host : HostAddr, host.key ∈ lb.hostMap → P modid cmdid host

namespace RouteLB.Vouched

variable {R : Type} [RateArith R] {cfg : LbConfigure R} {now : ℤ} {s s' : RouteLB}

/-- `P` may be weakened. -/
theorem mono (h : s.Vouched P) (hPQ : ∀ m k host, P m k host → Q m k host) : s.Vouched Q :=
  fun modid cmdid lb hk host hmem => hPQ _ _ host (h modid cmdid lb hk host hmem)

/-- A shard without modules. -/
theorem new (id : ℕ) : (RouteLB.new id).Vouched P := by
  intro modid cmdid lb hk
  cases hk

/-- The object of a module is replaced. -/
theorem put (h : s.Vouched P) {modid cmdid : Int32} {lb : LB}
    (hlb : ∀ host : HostAddr, host.key ∈ lb.hostMap → P modid cmdid host) :
    (s.put (packKey modid cmdid) lb).Vouched P := by
  intro m k lb' hk
  rw [put_lookup] at hk
  split at hk
  · next heq =>
    obtain ⟨rfl, rfl⟩ := packKey_inj heq
    exact Option.some.inj hk ▸ hlb
  · exact h m k lb' hk

/-- A call brings in no host but those of a route. -/
theorem effect (h : s.Vouched P) (hinv : s.Inv cfg) {op : Op} (he : Effect cfg now s op s')
    (hop : ∀ rsp, op = .update rsp → rsp.Vouched P) : s'.Vouched P := by
  cases he with
  | same => exact h
  | @serve _ key lb lb' hk hserve =>
    have hroute := hserve.sameRoute (hinv.lb_reachable key lb hk)
    have hkey := hinv.key_eq key lb hk
    rw [← hkey] at hk ⊢
    exact h.put fun host hmem => h _ _ lb hk host ((hroute.mem_iff _).mp hmem)
  -- the new object has no hosts yet
  | @create _ modid cmdid hk =>
    have hput : (s.put (packKey modid cmdid) (LB.new s.nextLb modid cmdid)).Vouched P := by
      refine h.put fun host hmem => ?_
      obtain ⟨hi, hlk⟩ := HashMap.mem_iff.mp hmem
      cases hlk
    intro m k lb hlb
    rw [create_lookup, ← put_lookup] at hlb
    exact hput m k lb hlb
  | @update rsp lb lb' hk hne hup =>
    obtain ⟨-, hspec⟩ := LB.updateSpec_of_ok _ _ hup
    refine h.put fun host hmem => ?_
    obtain ⟨a, ha, hkey⟩ := List.mem_map.mp ((hspec.keys _).mp hmem)
    exact HostAddr.key_inj hkey ▸ hop rsp rfl a ha
  -- what is left was there before
  | delete hnil =>
    exact fun m k lb hlb => h m k lb (HashMap.lookup_of_erase hlb).2
  | clearPulling =>
    intro m k lb hlb
    rw [RouteLB.clearPulling, HashMap.lookup_mapVal, Option.map_eq_some_iff] at hlb
    obtain ⟨lb₀, hk, rfl⟩ := hlb
    -- only the status is reset
    have hmap : lb₀.clearPulling.hostMap = lb₀.hostMap := by
      rw [LB.clearPulling]
      split <;> rfl
    rw [hmap]
    exact h m k lb₀ hk

/-- The hosts of a record table, as they are put on the wire. -/
theorem route (h : s.Vouched P) (hinv : s.Inv cfg) {modid cmdid : Int32} {lb : LB}
    (hk : s.routeMap.lookup (packKey modid cmdid) = some lb) :
    ∀ host ∈ lb.getRoute.map HI.addr, P modid cmdid host := by
  intro host hmem
  have hrep := LB.repInv_of_reachable (hinv.lb_reachable _ lb hk)
  exact h modid cmdid lb hk host ((CacheNet.mem_route hrep host).mp hmem)

/-- So do the replies. -/
theorem reply (h : s.Vouched P) (hinv : s.Inv cfg) {op : Op} {out : Out}
    (hex : s.exec cfg now op = .ok (s', out)) : ∀ rsp, out.reply = some rsp → rsp.Vouched P := by
  intro rsp hrsp
  cases op with
  | getHost req =>
    have hreply : s.Replies (.getHost req) out.reply := exec_reply hex
    obtain ⟨rsp₁, heq⟩ := hreply
    obtain rfl := Option.some.inj (hrsp.symm.trans heq)
    intro hsucc
    obtain ⟨-, hm, hc, hans⟩ := (hinv.result hex).answers req rsp₁ rfl hrsp
    have hnoexist : rsp₁.retcode ≠ Retcode.noexist := by rw [hsucc]; decide
    rw [hm, hc]
    cases hk : s.routeMap.lookup (packKey req.modid req.cmdid) with
    | none => exact absurd (hk ▸ hans).1 hnoexist
    | some lb =>
      rw [hk] at hans
      -- an answer with the code of success comes from the record table; the others have other codes
      dsimp only at hans
      split at hans
      · exact absurd hans.1 hnoexist
      · rcases hans with ⟨-, key, hi, hlk, hhost⟩ | ⟨hover, -⟩
        · refine ⟨hi.addr, hhost, h _ _ lb hk _ ?_⟩
          have hrep := LB.repInv_of_reachable (hinv.lb_reachable _ lb hk)
          rw [← HI.key, hrep.key_eq key hi hlk]
          exact HashMap.mem_iff.mpr ⟨hi, hlk⟩
        · rw [hsucc] at hover
          exact absurd hover (by decide)
  | getRoute req =>
    have heq : s.Replies (.getRouteByTool req) out.reply := exec_reply hex
    obtain rfl := Option.some.inj (hrsp.symm.trans heq)
    intro host hmem
    dsimp only [routeOf] at hmem
    split at hmem
    · next lb hk => exact h.route hinv hk host hmem
    · cases hmem
  | cacheGetRoute req =>
    rcases CacheNet.cacheGetRoute_reply hex with ⟨-, heq⟩ | ⟨lb, hk, -, heq⟩
    · obtain rfl := Option.some.inj (hrsp.symm.trans heq)
      rintro host ⟨⟩
    · obtain rfl := Option.some.inj (hrsp.symm.trans heq)
      intro host hmem
      dsimp only [CacheNet.routeReply] at hmem
      split at hmem
      · exact h.route hinv hk host hmem
      · cases hmem
  | report req =>
    have heq : s.Replies (.report req) out.reply := exec_reply hex
    cases hrsp.symm.trans heq
  | batchReport req =>
    have heq : s.Replies (.cacheBatchRpt req) out.reply := exec_reply hex
    cases hrsp.symm.trans heq
  | update rsp₁ =>
    obtain ⟨s₁, -, heq⟩ := Except.bind_eq_ok_iff.mp hex
    cases heq
    cases hrsp
  | clearPulling =>
    cases hex
    cases hrsp

end RouteLB.Vouched

/-! ## The client -/

/-- The nodes of every entry. -/
def ElbClient.Vouched (P : Int32 → Int32 → HostAddr → Prop) (c : ElbClient) : Prop :=
  ∀ modid cmdid cu, c.cache.getCache modid cmdid = some cu →
    ∀ host ∈ cu.nodeList, P modid cmdid host

/-- What the call receives. -/
def ElbClient.Env.Receives (env : ElbClient.Env) (rsp : AgentRsp) : Prop :=
  env.first = some rsp ∨ env.again = some rsp ∨ rsp ∈ env.recvs

namespace ElbClient.Vouched

variable {c c' : ElbClient}

/-- `P` may be weakened. -/
theorem mono (h : c.Vouched P) (hPQ : ∀ m k host, P m k host → Q m k host) : c.Vouched Q :=
  fun modid cmdid cu hcu host hmem => hPQ _ _ host (h modid cmdid cu hcu host hmem)

/-- A client without entries. -/
theorem new (agentOff : Bool) : (ElbClient.new agentOff).Vouched P := by
  intro modid cmdid cu hcu
  cases hcu

/-- Entries that are only used keep their nodes. -/
theorem sameRoutes (h : c.Vouched P) (hsame : SameRoutes c c') : c'.Vouched P := by
  intro modid cmdid cu' hcu' host hmem
  obtain ⟨cu, hcu, hnodes⟩ := hsame modid cmdid cu' hcu'
  exact h modid cmdid cu hcu host ((hnodes.mem_node host).mp hmem)

/-- A refresh takes its nodes from a reply about the module. -/
theorem recvRoute4Cache (h : c.Vouched P) (modid cmdid : Int32) (ts : ℤ) {recv : Option AgentRsp}
    (hrecv : ∀ rsp, recv = some rsp → rsp.Vouched P) :
    (c.recvRoute4Cache modid cmdid ts recv).1.Vouched P := by
  rcases recv with _ | (_ | _ | rsp)
  · exact h
  · exact h
  · exact h
  · rw [ElbClient.recvRoute4Cache]
    split
    · exact h
    · next hids =>
      obtain ⟨rfl, rfl⟩ := not_or.mp hids |>.imp not_not.mp not_not.mp
      intro m k cu' hcu'
      -- a module without a route loses its entry
      by_cases hv : rsp.version = -1
      · rw [applyRoute, if_pos hv, getCache_rmCache] at hcu'
        split at hcu'
        · cases hcu'
        · exact h m k cu' hcu'
      · obtain ⟨item, hcache, -, -, hnodes⟩ := applyRoute_cases rsp.modid rsp.cmdid ts rsp c hv
        rw [hcache] at hcu'
        split at hcu'
        · next hmk =>
          obtain ⟨rfl, rfl⟩ := hmk
          obtain rfl := Option.some.inj hcu'
          intro host hmem
          -- with the same version the nodes stay, otherwise they are those of the reply
          rcases hnodes with ⟨cu, hcu, -, hsame⟩ | ⟨-, hroute, -⟩
          · exact h _ _ cu hcu host ((hsame.mem_node host).mp hmem)
          · exact hrecv _ rfl host (hroute ▸ hmem)
        · exact h m k cu' hcu'

/-- The receiving loop accepts a reply about the module only. -/
theorem recvHost {seq : UInt32} {modid cmdid : Int32} {recvs : List AgentRsp}
    (hrecv : ∀ rsp ∈ recvs, rsp.Vouched P) {host : HostAddr}
    (hans : (ElbClient.recvHost seq modid cmdid recvs).2 = some host) : P modid cmdid host := by
  -- on the replies; an old one is skipped, the first other one decides
  induction recvs with
  | nil => cases hans
  | cons rsp recvs ih =>
    cases rsp with
    | getHost rsp =>
      rw [ElbClient.recvHost] at hans
      split at hans
      · exact ih (fun r hr => hrecv r (List.mem_cons_of_mem _ hr)) hans
      · split at hans
        · cases hans
        · next hids =>
          split at hans
          · next h0 =>
            obtain ⟨host', heq, hP⟩ := hrecv _ List.mem_cons_self h0
            rw [heq] at hans
            cases hans
            rw [not_or, not_or, not_not, not_not, not_not] at hids
            rwa [hids.2.1, hids.2.2] at hP
          · cases hans
    | _ => cases hans

/-- The host that the cache or the agent serves. -/
theorem pickHost (h : c.Vouched P) {modid cmdid : Int32} {env : Env}
    (hrecv : ∀ rsp, env.Receives rsp → rsp.Vouched P) {answer : Int32 × Option HostAddr}
    {sent : List AgentReq} (hp : c.pickHost modid cmdid env = some (c', answer, sent)) :
    c'.Vouched P ∧ ∀ host, answer.2 = some host → P modid cmdid host := by
  refine ⟨h.sameRoutes (pickHost_uses hp).sameRoutes, fun host hhost => ?_⟩
  rw [ElbClient.pickHost] at hp
  split at hp
  · cases hp
    cases hhost
  · next cu hcu =>
    split at hp
    · obtain ⟨⟨node, cu'⟩, hget, heq⟩ := Option.bind_eq_some_iff.mp hp
      cases heq
      obtain rfl := Option.some.inj hhost
      rw [CacheUnit.getHost] at hget
      split at hget
      · cases hget
      · next rest hnodes =>
        cases hget
        exact h modid cmdid cu hcu _ (hnodes ▸ List.mem_cons_self)
    · cases hp
      exact recvHost (fun rsp hmem => hrecv rsp (.inr (.inr hmem))) hhost

/-- The host that is served after a refresh, if there is need for one. -/
theorem refreshHost (h : c.Vouched P) {modid cmdid : Int32} {env : Env}
    (hrecv : ∀ rsp, env.Receives rsp → rsp.Vouched P) {answer : Int32 × Option HostAddr}
    {sent : List AgentReq} (hp : c.refreshHost modid cmdid env = some (c', answer, sent)) :
    c'.Vouched P ∧ ∀ host, answer.2 = some host → P modid cmdid host := by
  rw [ElbClient.refreshHost] at hp
  split at hp
  · cases hp
    exact ⟨h, by rintro host ⟨⟩⟩
  · split at hp
    · obtain ⟨⟨c₃, answer₃, sent₃⟩, hpick, heq⟩ := Option.bind_eq_some_iff.mp hp
      cases heq
      have hflush := h.sameRoutes (flush_uses modid cmdid c).sameRoutes
      exact (hflush.recvRoute4Cache modid cmdid env.now
        fun rsp heq => hrecv rsp (.inr (.inl heq))).pickHost hrecv hpick
    · exact h.pickHost hrecv hp

/-- `apiGetHost`, while the agent is judged alive. -/
theorem apiGetHost (h : c.Vouched P) {modid cmdid : Int32} {env : Env}
    (hrecv : ∀ rsp, env.Receives rsp → rsp.Vouched P) {answer : Int32 × Option HostAddr}
    {sent : List AgentReq} (hp : c.apiGetHost modid cmdid env = some (c', answer, sent)) :
    c'.Vouched P ∧ (env.die = false → ∀ host, answer.2 = some host → P modid cmdid host) := by
  rw [ElbClient.apiGetHost] at hp
  split at hp
  · next hdie =>
    -- a dead agent is not asked, and the cache stays
    have hoff : c'.Vouched P := by
      split at hp <;> cases hp <;> exact h
    exact ⟨hoff, fun halive => absurd (hdie.symm.trans halive) (by decide)⟩
  · have halive : Vouched P { c with agentOff := false } := h
    dsimp only at hp
    split at hp
    · exact (halive.refreshHost hrecv hp).imp_right fun hans _ => hans
    · have hroute := halive.recvRoute4Cache modid cmdid env.now
        fun rsp heq => hrecv rsp (.inl heq)
      split at hp
      · cases hp
        exact ⟨hroute, by rintro - host ⟨⟩⟩
      · obtain ⟨⟨c₂, answer₂, sent₂⟩, hrefresh, heq⟩ := Option.bind_eq_some_iff.mp hp
        cases heq
        exact (hroute.refreshHost hrecv hrefresh).imp_right fun hans _ => hans

/-- `apiReportRes`. -/
theorem apiReportRes (h : c.Vouched P) (modid cmdid : Int32) (host : HostAddr) (retcode : Int32)
    (mills : UInt64) : (c.apiReportRes modid cmdid host retcode mills).1.Vouched P :=
  h.sameRoutes (apiReportRes_uses modid cmdid host retcode mills c).sameRoutes

end ElbClient.Vouched

/-! ## dnsserver -/

/-- A row of `DnsServerRoute`, with the host that its columns are read as. -/
def RouteRow.Vouched (P : Int32 → Int32 → HostAddr → Prop) (row : RouteRow) : Prop :=
  P row.modid.toInt32 row.cmdid.toInt32 (hostOf row.value)

/-- The hosts of every module in the map. -/
def RouteMap.Vouched (P : Int32 → Int32 → HostAddr → Prop) (data : RouteMap) : Prop :=
  ∀ modid cmdid, ∀ value ∈ data.getHosts modid cmdid, P modid cmdid (hostOf value)

/-- An empty map has no hosts. -/
theorem RouteMap.Vouched.empty : RouteMap.Vouched P ∅ := by
  rintro modid cmdid value ⟨⟩

/-- `P` may be weakened. -/
theorem RouteMap.Vouched.mono {data : RouteMap} (h : data.Vouched P)
    (hPQ : ∀ m k host, P m k host → Q m k host) : data.Vouched Q :=
  fun modid cmdid value hmem => hPQ _ _ _ (h modid cmdid value hmem)

/-- What `reload` makes of the rows. -/
theorem RouteMap.Vouched.ofRows {rows : List RouteRow} (h : ∀ row ∈ rows, row.Vouched P) :
    (RouteMap.ofRows rows).Vouched P := by
  intro modid cmdid value hmem
  obtain ⟨row, hrow, hkey, rfl⟩ := RouteMap.mem_getHosts_ofRows.mp hmem
  obtain ⟨rfl, rfl⟩ := packKey_inj hkey
  exact h row hrow

/-- The two copies that the loader works with. -/
def Loader.Vouched (P : Int32 → Int32 → HostAddr → Prop) (l : Loader) : Prop :=
  l.data.Vouched P ∧ l.tmpData.Vouched P

/-- A step of the loader takes its hosts from the rows that there are. -/
theorem Loader.Vouched.query {l : Loader} (h : l.Vouched P) (ws : ℤ) (ok : Bool) (now : ℤ) {db : Db}
    (hdb : ∀ row ∈ db.routes, row.Vouched P) : (l.query ws ok now db).2.Vouched P := by
  rw [Loader.query]
  cases l.pc with
  | selectFirst =>
    cases ok with
    | true => exact ⟨.ofRows hdb, h.2⟩
    | false => exact h
  | reload changed =>
    cases ok with
    | true => exact ⟨h.1, .ofRows hdb⟩
    -- `reload` clears `tmpData` before the query that fails
    | false => exact ⟨h.1, .empty⟩
  -- the two maps change places
  | swap changed => exact ⟨h.2, h.1⟩
  | loadVersionFirst => cases ok <;> exact h
  | loadVersion =>
    dsimp only
    split
    · exact h
    · rw [Loader.idle]
      split <;> exact h
  | _ => exact h

/-- The queries leave the table of the routes alone. -/
theorem Loader.query_routes (ws : ℤ) (ok : Bool) (now : ℤ) (db : Db) (l : Loader) :
    (l.query ws ok now db).1.routes = db.routes ∧
      (l.query ws ok now db).1.history = db.history := by
  rw [Loader.query]
  cases l.pc with
  | rmAllChanges => cases ok <;> exact ⟨rfl, rfl⟩
  | rmChanges => cases ok <;> exact ⟨rfl, rfl⟩
  | loadVersionFirst => cases ok <;> exact ⟨rfl, rfl⟩
  | selectFirst => cases ok <;> exact ⟨rfl, rfl⟩
  | reload changed => cases ok <;> exact ⟨rfl, rfl⟩
  | loadVersion =>
    dsimp only
    split <;> exact ⟨rfl, rfl⟩
  | _ => exact ⟨rfl, rfl⟩

/-- The response that a handler has read and not sent yet. -/
def Handler.rsp : Handler → Option GetRouteRsp
  | .sending _ rsp => some rsp
  | .pushSending _ rsp _ => some rsp
  | _ => none

namespace Server

variable {n : ℕ}

/-- The routes in memory and the responses that are about to be sent. -/
def Vouched (P : Int32 → Int32 → HostAddr → Prop) (s : Server n) : Prop :=
  s.data.Vouched P ∧ ∀ l rsp, (s.handler l).rsp = some rsp → rsp.Vouched P

/-- What the step sends. -/
def sends (s : Server n) : Op n → List GetRouteRsp
  | .work l => (s.handler l).rsp.toList
  | _ => []

namespace Vouched

variable {s : Server n}

/-- `P` may be weakened. -/
theorem mono (h : s.Vouched P) (hPQ : ∀ m k host, P m k host → Q m k host) : s.Vouched Q :=
  ⟨h.1.mono hPQ, fun l rsp heq => (h.2 l rsp heq).mono hPQ⟩

/-- What a handler sends is the response that it has read. -/
theorem sends (h : s.Vouched P) (op : Op n) : ∀ rsp ∈ s.sends op, rsp.Vouched P := by
  intro rsp hmem
  cases op with
  | work l => exact h.2 l rsp (Option.mem_toList.mp hmem)
  | _ => cases hmem

/-- The response that is read has the hosts of the map. -/
theorem routeRsp {data : RouteMap} (h : data.Vouched P) (modid cmdid : Int32) :
    (routeRsp modid cmdid data).Vouched P := by
  intro host hmem
  obtain ⟨value, hvalue, rfl⟩ := List.mem_map.mp hmem
  exact h modid cmdid value hvalue

/-- A handler goes on. -/
theorem setHandler {s' : Server n} (h : s.Vouched P) {l : Fin n} {handler : Handler}
    (hdata : s'.data = s.data) (hs : s'.handler = s.handler)
    (hrsp : ∀ rsp, handler.rsp = some rsp → rsp.Vouched P) :
    (s'.setHandler l handler).Vouched P := by
  refine ⟨hdata ▸ h.1, fun l' rsp heq => ?_⟩
  simp only [Server.setHandler, Function.update_apply, hs] at heq
  split at heq
  · exact hrsp rsp heq
  · exact h.2 l' rsp heq

/-- Whatever the loops do. -/
theorem work (h : s.Vouched P) (l : Fin n) : (s.work l).Vouched P := by
  -- a send fills an outbox and nothing else
  have hdeliver : ∀ fd rsp, (s.deliver fd rsp).data = s.data ∧
      (s.deliver fd rsp).handler = s.handler := by
    intro fd rsp
    rw [deliver]
    split <;> exact ⟨rfl, rfl⟩
  rw [Server.work]
  split
  · exact h
  · exact h.setHandler rfl rfl (by rintro rsp ⟨⟩)
  · exact h.setHandler rfl rfl (by rintro rsp ⟨⟩; exact routeRsp h.1 _ _)
  · next fd rsp _ => exact h.setHandler (hdeliver fd rsp).1 (hdeliver fd rsp).2 (by rintro rsp ⟨⟩)
  · exact h.setHandler rfl rfl (by rintro rsp ⟨⟩)
  · exact h.setHandler rfl rfl (by rintro rsp ⟨⟩)
  · exact h.setHandler rfl rfl (by rintro rsp ⟨⟩; exact routeRsp h.1 _ _)
  · next fd rsp _ _ =>
    exact h.setHandler (hdeliver fd rsp).1 (hdeliver fd rsp).2 (by rintro rsp ⟨⟩)
  · exact h.setHandler rfl rfl (by rintro rsp ⟨⟩)
  · exact h.setHandler rfl rfl (by rintro rsp ⟨⟩)

/-- A step, when the routes that are swapped in are vouched for. -/
theorem next (h : s.Vouched P) {op : Op n} (hop : ∀ data, op = .swap data → data.Vouched P) :
    (s.next op).Vouched P := by
  cases op with
  | accept fd l => exact h
  | request fd modid cmdid =>
    simp only [Server.next]
    split
    · exact h
    · split
      · exact h.setHandler rfl rfl (by rintro rsp ⟨⟩)
      · exact h.setHandler rfl rfl (by rintro rsp ⟨⟩)
  | close fd =>
    simp only [Server.next]
    split
    · exact h
    · exact h.setHandler rfl rfl (by rintro rsp ⟨⟩)
  | work l => exact h.work l
  | task l => exact h.setHandler rfl rfl (by rintro rsp ⟨⟩)
  | swap data => exact ⟨hop data rfl, h.2⟩
  | push changes => exact h
  | post =>
    simp only [Server.next]
    split <;> exact h

end Vouched

end Server

end Elb
