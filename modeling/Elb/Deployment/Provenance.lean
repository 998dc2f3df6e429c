import Elb.Deployment.Hosts

/-!
# Every host was put on line

Reference: `mod-manager/ModOperator.py`, `dataLoader` in `dnsserver/src/Route.cc`,
`dnsserver/src/Server.cc`, `lbagent/src/DssClient.cc`, `lbagent/src/AgentServer.cc`,
`api/cpp/elbApi/elbApi.cc`.

The whole way of a host: an operator commits it to the database, the loader copies the table, the
loops of dnsserver send routes, the shards of any number of agents keep them, and clients get hosts
and routes from the shards. What the network does is left open: a message that was sent may be
received any number of times, at any later time and by anybody, or never. Agents serve requests that
nobody has to have sent. A host still never comes up for a module that no operator has put it on
line for.
-/

namespace Elb

open Transition

variable {R : Type} [RateArith R] {cfg : LbConfigure R}

/-- An operator has run `online` for the host of the module. A port that is negative as an `int` has
taken one from the ip on the way. -/
def Db.WentOnline (db : Db) (modid cmdid : Int32) (host : HostAddr) : Prop :=
  ∃ t ∈ db.history, t.online = true ∧ t.row.modid.toInt32 = modid ∧ t.row.cmdid.toInt32 = cmdid ∧
    t.row.serverport.toInt32 = host.port ∧
    t.row.serverip.toInt32 = if host.port < 0 then host.ip + 1 else host.ip

/-- The database, dnsserver with its loader, the shards of the agents and the clients. `routes` and
`replies` hold every message that dnsserver and the agents have sent. -/
structure Deployment (n : ℕ) (κ ι : Type) where
  db : Db
  loader : Loader
  server : Server n
  routes : List GetRouteRsp
  shard : κ → RouteLB
  replies : List AgentRsp
  client : ι → ElbClient

namespace Deployment

variable {n : ℕ} {κ ι : Type}

/-- What happens next: an operator commits, the loader does its next query, a loop of dnsserver
works, a shard is called, a client calls `apiGetHost`, `apiReportRes` or `apiGetRoute`. -/
inductive Event (n : ℕ) (κ ι : Type)
  | commit (t : ModOperator)
  | load (ok : Bool) (now : ℤ)
  | serve (op : Server.Op n)
  | agent (k : κ) (now : ℤ) (op : RouteLB.Op)
  | getHost (i : ι) (modid cmdid : Int32) (env : ElbClient.Env) (answer : Int32 × Option HostAddr)
  | reportRes (i : ι) (modid cmdid : Int32) (host : HostAddr) (retcode : Int32) (mills : UInt64)
  | getRoute (i : ι) (hosts : List HostAddr)

/-- What the step of the loader means for the loops: the constructor and `swap` show them other
routes, and `push` comes to their subscriptions. -/
def announces (s : Deployment n κ ι) (ws : ℤ) (ok : Bool) (now : ℤ) : Option (Server.Op n) :=
  match s.loader.pc with
  | .selectFirst | .swap _ => some (.swap (s.loader.query ws ok now s.db).2.data)
  | .push => some (.push s.loader.changes)
  | _ => none

/-- The steps of the loops that are not the loader's. -/
def OfLoops : Server.Op n → Prop
  | .swap _ | .push _ => False
  | _ => True

/-- One step. A loop gets its hosts from a `Route` that has been constructed. -/
inductive Step [DecidableEq κ] [DecidableEq ι] (cfg : LbConfigure R) (ws : ℤ)
    (s : Deployment n κ ι) : Event n κ ι → Deployment n κ ι → Prop
  | commit (t : ModOperator) : Step cfg ws s (.commit t) { s with db := s.db.commit t }
  | load (ok : Bool) (now : ℤ) (hok : ∀ op ∈ s.announces ws ok now, s.server.Allowed op) :
      Step cfg ws s (.load ok now) { s with
        db := (s.loader.query ws ok now s.db).1
        loader := (s.loader.query ws ok now s.db).2
        server := (s.announces ws ok now).elim s.server s.server.next }
  | serve {op : Server.Op n} (hboot : s.loader.Booted) (hop : OfLoops op)
      (hok : s.server.Allowed op) :
      Step cfg ws s (.serve op) { s with
        server := s.server.next op
        routes := s.routes ++ s.server.sends op }
  | agent {k : κ} {now : ℤ} {op : RouteLB.Op} {shard : RouteLB} {out : RouteLB.Out}
      (hroute : ∀ rsp, op = .update rsp → rsp ∈ s.routes)
      (hex : (s.shard k).exec cfg now op = .ok (shard, out)) :
      Step cfg ws s (.agent k now op) { s with
        shard := Function.update s.shard k shard
        replies := s.replies ++ out.reply.toList }
  | getHost {i : ι} {modid cmdid : Int32} {env : ElbClient.Env} {c : ElbClient}
      {answer : Int32 × Option HostAddr} {sent : List AgentReq}
      (hrecv : ∀ rsp, env.Receives rsp → rsp ∈ s.replies)
      (hcall : (s.client i).apiGetHost modid cmdid env = some (c, answer, sent)) :
      Step cfg ws s (.getHost i modid cmdid env answer)
        { s with client := Function.update s.client i c }
  | reportRes (i : ι) (modid cmdid : Int32) (host : HostAddr) (retcode : Int32) (mills : UInt64) :
      Step cfg ws s (.reportRes i modid cmdid host retcode mills) { s with
        client := Function.update s.client i
          ((s.client i).apiReportRes modid cmdid host retcode mills).1 }
  | getRoute (i : ι) {recv : Option AgentRsp} (hrecv : ∀ rsp, recv = some rsp → rsp ∈ s.replies) :
      Step cfg ws s (.getRoute i (ElbClient.recvGetRoute recv).2) s

/-- Runs from empty tables. -/
def system [DecidableEq κ] [DecidableEq ι] (cfg : LbConfigure R) (ws : ℤ) :
    System (Deployment n κ ι) (Event n κ ι) where
  init s := s.db.routes = [] ∧ s.db.history = [] ∧ s.loader = .new ∧ s.server = .new ∅ ∧
    s.routes = [] ∧ (∀ k, ∃ id, s.shard k = .new id) ∧ s.replies = [] ∧
    ∀ i, ∃ agentOff, s.client i = .new agentOff
  step := Step cfg ws

/-! ## The invariant -/

/-- Every part of the system has hosts that went on line. -/
structure Inv (cfg : LbConfigure R) (s : Deployment n κ ι) : Prop where
  rows : ∀ row ∈ s.db.routes, row.Vouched s.db.WentOnline
  loader : s.loader.Vouched s.db.WentOnline
  server : s.server.Vouched s.db.WentOnline
  routes : ∀ rsp ∈ s.routes, rsp.Vouched s.db.WentOnline
  shard_inv : ∀ k, (s.shard k).Inv cfg
  shard : ∀ k, (s.shard k).Vouched s.db.WentOnline
  replies : ∀ rsp ∈ s.replies, rsp.Vouched s.db.WentOnline
  client : ∀ i, (s.client i).Vouched s.db.WentOnline

/-- What the label of a step shows to the business. A route that comes late may be one that was
asked for another module. -/
def Event.Shows (P : Int32 → Int32 → HostAddr → Prop) : Event n κ ι → Prop
  | .getHost _ modid cmdid env answer =>
    env.die = false → ∀ host, answer.2 = some host → P modid cmdid host
  | .getRoute _ hosts => ∀ host ∈ hosts, ∃ modid cmdid, P modid cmdid host
  | _ => True

end Deployment

/-- The row that `online` inserts stands for its host. -/
theorem ModOperator.vouched {db : Db} {t : ModOperator} (ht : t ∈ db.history)
    (hon : t.online = true) : t.row.Vouched db.WentOnline := by
  have hport : (hostOf t.row.value).port = t.row.serverport.toInt32 := by
    rw [hostOf, RouteRow.value_eq, unpackLo_packKey]
  refine ⟨t, ht, hon, rfl, rfl, hport.symm, ?_⟩
  -- for a negative port the sum of the two columns borrows one from the address
  rw [hport, hostOf, RouteRow.value_eq, unpackHi_packKey]
  split
  · rw [Int32.sub_add_cancel]
  · rfl

/-- What went on line stays so. -/
theorem Db.WentOnline.of_history {db db' : Db} (h : ∀ t ∈ db.history, t ∈ db'.history)
    {modid cmdid : Int32} {host : HostAddr} (ho : db.WentOnline modid cmdid host) :
    db'.WentOnline modid cmdid host := by
  obtain ⟨t, ht, hrest⟩ := ho
  exact ⟨t, h t ht, hrest⟩

namespace Deployment

variable {n : ℕ} {κ ι : Type} {s s' : Deployment n κ ι}

/-- The history of the database grows, and its rows come from it. -/
theorem Inv.setDb (h : s.Inv cfg) {db : Db} (hhist : ∀ t ∈ s.db.history, t ∈ db.history)
    (hrows : ∀ row ∈ db.routes, row.Vouched db.WentOnline) : Inv cfg { s with db := db } := by
  -- hosts that were put on line stay so, hence every other part keeps its hosts
  have hmono : ∀ m k host, s.db.WentOnline m k host → db.WentOnline m k host :=
    fun _ _ _ => Db.WentOnline.of_history hhist
  exact ⟨hrows, ⟨h.loader.1.mono hmono, h.loader.2.mono hmono⟩, h.server.mono hmono,
    fun rsp hmem => (h.routes rsp hmem).mono hmono, h.shard_inv,
    fun k => (h.shard k).mono hmono, fun rsp hmem => (h.replies rsp hmem).mono hmono,
    fun i => (h.client i).mono hmono⟩

/-- An operator puts a host on or off line. -/
theorem Inv.commit (h : s.Inv cfg) (t : ModOperator) :
    Inv cfg { s with db := s.db.commit t } := by
  have hhist : ∀ t' ∈ s.db.history, t' ∈ (s.db.commit t).history :=
    fun t' ht' => List.mem_append_left _ ht'
  have hold : ∀ row ∈ s.db.routes, row.Vouched (s.db.commit t).WentOnline :=
    fun row hrow => Db.WentOnline.of_history hhist (h.rows row hrow)
  refine h.setDb hhist fun row hrow => ?_
  rw [Db.commit] at hrow
  dsimp only at hrow
  split at hrow
  · next hon =>
    rcases List.mem_append.mp hrow with hrow | hrow
    · exact hold row hrow
    · obtain rfl := List.mem_singleton.mp hrow
      exact ModOperator.vouched (List.mem_append_right _ List.mem_cons_self) hon
  · exact hold row (List.mem_of_mem_filter hrow)

/-- The loader takes its hosts from the rows, and the loops theirs from the loader. -/
theorem Inv.load (h : s.Inv cfg) (ws : ℤ) (ok : Bool) (now : ℤ) :
    Inv cfg { s with
      db := (s.loader.query ws ok now s.db).1
      loader := (s.loader.query ws ok now s.db).2
      server := (s.announces ws ok now).elim s.server s.server.next } := by
  obtain ⟨hroutes, hhist⟩ := s.loader.query_routes ws ok now s.db
  have hloader := h.loader.query ws ok now h.rows
  have hserver : ((s.announces ws ok now).elim s.server s.server.next).Vouched s.db.WentOnline := by
    cases hop : s.announces ws ok now with
    | none => exact h.server
    | some op =>
      refine h.server.next fun data hdata => ?_
      subst hdata
      rw [announces] at hop
      split at hop
      · -- the first `SELECT` and the swap hand over the map that the loader has just filled
        cases hop
        exact hloader.1
      · cases hop
        exact hloader.1
      · -- a push hands over names of modules only
        cases hop
      · cases hop
  have hloaded : Inv cfg { s with
      loader := (s.loader.query ws ok now s.db).2
      server := (s.announces ws ok now).elim s.server s.server.next } :=
    ⟨h.rows, hloader, hserver, h.routes, h.shard_inv, h.shard, h.replies, h.client⟩
  refine hloaded.setDb (fun t ht => hhist ▸ ht) fun row hrow => ?_
  rw [hroutes] at hrow
  exact Db.WentOnline.of_history (fun t ht => hhist ▸ ht) (h.rows row hrow)

/-- A client is replaced. -/
theorem Inv.setClient [DecidableEq ι] (h : s.Inv cfg) (i : ι) {c : ElbClient}
    (hc : c.Vouched s.db.WentOnline) :
    Inv cfg { s with client := Function.update s.client i c } := by
  refine ⟨h.rows, h.loader, h.server, h.routes, h.shard_inv, h.shard, h.replies, fun j => ?_⟩
  dsimp only
  rw [Function.update_apply]
  split
  · exact hc
  · exact h.client j

/-- A shard is called. -/
theorem Inv.agent [DecidableEq κ] (h : s.Inv cfg) {k : κ} {now : ℤ} {op : RouteLB.Op}
    {shard : RouteLB} {out : RouteLB.Out} (hroute : ∀ rsp, op = .update rsp → rsp ∈ s.routes)
    (hex : (s.shard k).exec cfg now op = .ok (shard, out)) :
    Inv cfg { s with
      shard := Function.update s.shard k shard
      replies := s.replies ++ out.reply.toList } := by
  have heff := ((h.shard_inv k).result hex).effect
  have hinv := (h.shard_inv k).effect heff
  have hshard := (h.shard k).effect (h.shard_inv k) heff
    fun rsp heq => h.routes rsp (hroute rsp heq)
  have hreply := (h.shard k).reply (h.shard_inv k) hex
  refine ⟨h.rows, h.loader, h.server, h.routes, fun k' => ?_, fun k' => ?_, fun rsp hmem => ?_,
    h.client⟩
  · dsimp only
    rw [Function.update_apply]
    split
    · exact hinv
    · exact h.shard_inv k'
  · dsimp only
    rw [Function.update_apply]
    split
    · exact hshard
    · exact h.shard k'
  · rcases List.mem_append.mp hmem with hmem | hmem
    · exact h.replies rsp hmem
    · exact hreply rsp (Option.mem_toList.mp hmem)

/-- A step keeps the invariant, and shows the business only hosts that went on line. -/
theorem Inv.step [DecidableEq κ] [DecidableEq ι] {ws : ℤ} {e : Event n κ ι} (h : s.Inv cfg)
    (hs : Step cfg ws s e s') : s'.Inv cfg ∧ e.Shows s.db.WentOnline := by
  cases hs with
  | commit t => exact ⟨h.commit t, trivial⟩
  | load ok now hok => exact ⟨h.load ws ok now, trivial⟩
  | @serve op hboot hop hok =>
    have hserver : (s.server.next op).Vouched s.db.WentOnline := by
      refine h.server.next fun data heq => ?_
      -- a swap is a step of the loader
      subst heq
      exact hop.elim
    refine ⟨⟨h.rows, h.loader, hserver, fun rsp hmem => ?_, h.shard_inv, h.shard, h.replies,
      h.client⟩, trivial⟩
    rcases List.mem_append.mp hmem with hmem | hmem
    · exact h.routes rsp hmem
    · exact h.server.sends op rsp hmem
  | agent hroute hex => exact ⟨h.agent hroute hex, trivial⟩
  | @getHost i modid cmdid env c answer sent hrecv hcall =>
    obtain ⟨hc, hshows⟩ := (h.client i).apiGetHost
      (fun rsp hr => h.replies rsp (hrecv rsp hr)) hcall
    exact ⟨h.setClient i hc, hshows⟩
  | reportRes i modid cmdid host retcode mills =>
    exact ⟨h.setClient i ((h.client i).apiReportRes modid cmdid host retcode mills), trivial⟩
  | @getRoute i recv hrecv =>
    refine ⟨h, fun host hmem => ?_⟩
    rcases recv with _ | (_ | rsp | _)
    · cases hmem
    · cases hmem
    · exact ⟨rsp.modid, rsp.cmdid, h.replies _ (hrecv _ rfl) host hmem⟩
    · cases hmem

/-- The parts are empty at first. -/
theorem inv_of_reachable [DecidableEq κ] [DecidableEq ι] {ws : ℤ}
    (h : (system cfg ws).Reachable s) : s.Inv cfg := by
  refine h.invariant ?_ fun _ _ _ _ ih hs => (ih.step hs).1
  rintro s ⟨hroutes, -, hloader, hserver, hsent, hshard, hreplies, hclient⟩
  refine ⟨by simp [hroutes], by rw [hloader]; exact ⟨.empty, .empty⟩, ?_, by simp [hsent],
    fun k => ?_, fun k => ?_, by simp [hreplies], fun i => ?_⟩
  · rw [hserver]
    exact ⟨.empty, by rintro l rsp ⟨⟩⟩
  · obtain ⟨id, heq⟩ := hshard k
    rw [heq]
    exact RouteLB.inv_new id
  · obtain ⟨id, heq⟩ := hshard k
    rw [heq]
    exact .new id
  · obtain ⟨agentOff, heq⟩ := hclient i
    rw [heq]
    exact .new agentOff

/-! ## Every run -/

/-- In every run, whatever the network does, each host that an agent has for a module, each host
that a client has cached for it, and each host that the next step shows to the business was put on
line for the module by an operator. -/
theorem hosts_wentOnline [DecidableEq κ] [DecidableEq ι] {ws : ℤ}
    (h : (system cfg ws).Reachable s) :
    (∀ k modid cmdid lb, (s.shard k).routeMap.lookup (packKey modid cmdid) = some lb →
        ∀ host : HostAddr, host.key ∈ lb.hostMap → s.db.WentOnline modid cmdid host) ∧
      (∀ i modid cmdid cu, (s.client i).cache.getCache modid cmdid = some cu →
        ∀ host ∈ cu.nodeList, s.db.WentOnline modid cmdid host) ∧
      ∀ e s', (system cfg ws).step s e s' → e.Shows s.db.WentOnline := by
  have hinv := inv_of_reachable h
  exact ⟨hinv.shard, hinv.client, fun e s' hs => (hinv.step hs).2⟩

/-- dnsserver with one loop, one shard and one client, and nothing on line. -/
def start : Deployment 1 Unit Unit where
  db := ⟨[], 0, [], [], Db.log_nil⟩
  loader := .new
  server := .new ∅
  routes := []
  shard := fun _ => .new 1
  replies := []
  client := fun _ => .new true

/-- The route of a module with one host. -/
def hostRoute : GetRouteRsp := ⟨1, 2, [⟨10, 80⟩]⟩

/-- A step of the loops. -/
theorem reachable_serve [DecidableEq κ] [DecidableEq ι] {ws : ℤ}
    (h : (system cfg ws).Reachable s) (op : Server.Op n) (hboot : s.loader.Booted)
    (hop : OfLoops op) (hok : s.server.Allowed op) :
    (system cfg ws).Reachable
      { s with server := s.server.next op, routes := s.routes ++ s.server.sends op } :=
  h.step (.serve hboot hop hok)

/-- The host goes on line, the `Route` is constructed, and a connection asks for the module. -/
theorem exists_hostRoute_sent : ∃ s : Deployment 1 Unit Unit,
    (system LbConfigure.default 10).Reachable s ∧ s.routes = [hostRoute] ∧
      s.shard = (fun _ => .new 1) ∧ s.replies = [] ∧ s.client = fun _ => .new true := by
  have h₀ : (system LbConfigure.default 10).Reachable start :=
    .init ⟨rfl, rfl, rfl, rfl, rfl, fun _ => ⟨1, rfl⟩, rfl, fun _ => ⟨true, rfl⟩⟩
  have h₁ := h₀.step (.commit ⟨true, ⟨1, 2, 10, 80⟩, 5⟩)
  have h₂ := h₁.step (.load true 6 (by rintro op ⟨⟩))
  have h₃ := h₂.step (.load true 6 (by rintro op ⟨⟩; rfl))
  have h₄ := reachable_serve h₃ (.accept 5 0) ⟨nofun, nofun, nofun⟩ trivial
    ⟨rfl, rfl, fun _ => rfl⟩
  have h₅ := reachable_serve h₄ (.request 5 1 2) ⟨nofun, nofun, nofun⟩ trivial
    (by rintro c ⟨⟩; rfl)
  have h₆ := reachable_serve h₅ (.work 0) ⟨nofun, nofun, nofun⟩ trivial trivial
  have h₇ := reachable_serve h₆ (.work 0) ⟨nofun, nofun, nofun⟩ trivial trivial
  have h₈ := reachable_serve h₇ (.work 0) ⟨nofun, nofun, nofun⟩ trivial trivial
  exact ⟨_, h₈, rfl, rfl, rfl, rfl⟩

/-- The shard that was asked for the module at second 7 and got its route at second 8. -/
def routedShard : RouteLB where
  id := 1
  routeMap := AList.insert (packKey 1 2)
    { LB.new 0 1 2 with
      effectData := 8, lstRptTime := 8, status := .isNew, version := 8, runningList := [0]
      hostMap := AList.insert (packKey 10 80) (HI.new 0 10 80 270 8) ∅, nextHI := 1 } ∅
  nextLb := 1

/-- What it replies to a client that asks for the first time. -/
theorem routedShard_reply :
    routedShard.exec LbConfigure.default 9 (.cacheGetRoute ⟨1, 2, -1⟩) =
      .ok (routedShard, ⟨some (.cacheGetRoute ⟨1, 2, 8, false, [⟨10, 80⟩]⟩), [], []⟩) := rfl

/-- The first call of the client, answered with the route that came at second 8. -/
def firstCall : ElbClient.Env where
  die := false
  staticHost := none
  now := 10
  mills := 0
  first := some (.cacheGetRoute ⟨1, 2, 8, false, [⟨10, 80⟩]⟩)
  again := none
  recvs := []

/-- There is one shard and one client. -/
theorem update_unit {α : Type} (f : Unit → α) (a : α) : Function.update f () a = fun _ => a :=
  funext fun _ => rfl

/-- A shard is asked for the module, gets its route, and replies to a client. -/
theorem exists_hostRoute_replied : ∃ s : Deployment 1 Unit Unit,
    (system LbConfigure.default 10).Reachable s ∧
      .cacheGetRoute ⟨1, 2, 8, false, [⟨10, 80⟩]⟩ ∈ s.replies ∧ s.client () = .new true := by
  obtain ⟨⟨db, loader, server, _, _, _, _⟩, h₀, rfl, rfl, rfl, rfl⟩ := exists_hostRoute_sent
  have hask : (RouteLB.new 1).exec LbConfigure.default 7 (.getHost ⟨0, 1, 2⟩) =
      .ok ((RouteLB.create (.new 1) 1 2).1, _) := rfl
  have h₁ := h₀.step (.agent (k := ()) (by simp) hask)
  simp only [update_unit] at h₁
  have hroute : (RouteLB.create (.new 1) 1 2).1.exec LbConfigure.default 8 (.update hostRoute) =
      .ok (routedShard, _) := rfl
  have h₂ := h₁.step (.agent (k := ()) (by rintro rsp ⟨⟩; exact List.mem_singleton.mpr rfl) hroute)
  simp only [update_unit] at h₂
  have h₃ := h₂.step (.agent (k := ()) (by simp) routedShard_reply)
  exact ⟨_, h₃, List.mem_append_right _ (List.mem_singleton.mpr rfl), rfl⟩

/-- The host goes the whole way and is given to the business. -/
theorem hosts_wentOnline_one_host : ∃ s s' : Deployment 1 Unit Unit,
    (system LbConfigure.default 10).step s (.getHost () 1 2 firstCall (0, some ⟨10, 80⟩)) s' ∧
      s.db.WentOnline 1 2 ⟨10, 80⟩ := by
  obtain ⟨s, h, hmem, hclient⟩ := exists_hostRoute_replied
  obtain ⟨c, sent, hcall⟩ : ∃ c sent,
      (s.client ()).apiGetHost 1 2 firstCall = some (c, (0, some ⟨10, 80⟩), sent) := by
    rw [hclient]
    exact ⟨_, _, rfl⟩
  have hrecv : ∀ rsp, firstCall.Receives rsp → rsp ∈ s.replies := by
    rintro rsp (⟨⟨⟩⟩ | ⟨⟨⟩⟩ | ⟨⟨⟩⟩)
    exact hmem
  have hstep : (system LbConfigure.default 10).step s
      (.getHost () 1 2 firstCall (0, some ⟨10, 80⟩)) _ := .getHost hrecv hcall
  exact ⟨s, _, hstep, (hosts_wentOnline h).2.2 _ _ hstep rfl ⟨10, 80⟩ rfl⟩

end Deployment

end Elb
