import Elb.Api.NodeList
import Elb.Lbagent.Isolation
import Elb.Wire.Packets

/-!
# The shard behind its sockets

Reference: the handlers in `lbagent/src/AgentServer.cc`; `recvRoute` in `lbagent/src/DssClient.cc`.

A handler parses what comes behind the header of a packet, calls the shard, and sends the reply that
it has serialized. For packets that are written as messages of its id, a shard that works on bytes
does what the shard that works on messages does, and the client reads its packets as the replies.
What a handler makes of bytes that do not parse is not modelled.
-/

namespace Elb

open Protobuf Transition

variable {R : Type} [RateArith R] {cfg : LbConfigure R} {rt : Runtime} {now : ℤ}

/-- What a handler sends: packets with replies, and the requests and reports that it queues. -/
structure Sent where
  packets : List (List UInt8)
  pulls : List GetRouteReq
  repts : List ReportStatusReq

/-! ## The handlers -/

/-- For a response that it hands to this shard. -/
def DssClient.recvRoute (rt : Runtime) (cfg : LbConfigure R) (now : ℤ) (data : List UInt8)
    (s : RouteLB) : Option (Except Fault (RouteLB × Sent)) :=
  (GetRouteRsp.format.parse rt data).map fun rsp => do
    let s ← s.update cfg now rsp
    return (s, ⟨[], [], []⟩)

namespace AgentServer

/-- `getHost`: the shard is asked for a host, and the answer goes back. -/
def getHost (rt : Runtime) (cfg : LbConfigure R) (now : ℤ) (data : List UInt8) (s : RouteLB) :
    Option (Except Fault (RouteLB × Sent)) :=
  (GetHostReq.format.parse rt data).map fun req => do
    let (s, rsp, pulls) ←
      s.getHost cfg now req.modid req.cmdid ⟨req.seq, req.modid, req.cmdid, 0, none⟩
    return (s, ⟨[datagram MsgTypeId.getHostRspId.num (GetHostRsp.format.encode rsp)], pulls, []⟩)

/-- `reportStatus`: the result of a call, to which nothing is answered. -/
def reportStatus (rt : Runtime) (cfg : LbConfigure R) (now : ℤ) (data : List UInt8) (s : RouteLB) :
    Option (Except Fault (RouteLB × Sent)) :=
  (ReportReq.format.parse rt data).map fun req => do
    let (s, repts) ← s.report cfg now req
    return (s, ⟨[], [], repts⟩)

/-- `getRouteByTool`: the hosts of a module, for the tool. -/
def getRouteByTool (rt : Runtime) (cfg : LbConfigure R) (now : ℤ) (data : List UInt8)
    (s : RouteLB) : Option (Except Fault (RouteLB × Sent)) :=
  (GetRouteReq.format.parse rt data).map fun req =>
    let (s, rsp, pulls) := s.getRoute cfg now req.modid req.cmdid ⟨req.modid, req.cmdid, []⟩
    .ok (s, ⟨[datagram MsgTypeId.getRouteByToolRspId.num (GetRouteRsp.format.encode rsp)], pulls,
      []⟩)

/-- `RouteLB::cacheGetRoute` sets `overload` only of a module with a route. -/
def hasOverload (modid cmdid : Int32) (s : RouteLB) : Bool :=
  (s.routeMap.lookup (packKey modid cmdid)).any fun lb => !lb.empty

/-- `cacheGetRoute`: the route of a module, for the cache of a client. -/
def cacheGetRoute (rt : Runtime) (cfg : LbConfigure R) (now : ℤ) (data : List UInt8)
    (s : RouteLB) : Option (Except Fault (RouteLB × Sent)) :=
  (CacheGetRouteReq.format.parse rt data).map fun req => do
    let (s', rsp, pulls) ← s.cacheGetRoute cfg now req.modid req.cmdid req.version
      ⟨req.modid, req.cmdid, 0, false, []⟩
    return (s', ⟨[datagram MsgTypeId.cacheGetRouteRspId.num
      (CacheGetRouteRsp.format.encode (rsp, hasOverload req.modid req.cmdid s))], pulls, []⟩)

/-- `batchReport`: the successes that a client has collected, to which nothing is answered. -/
def batchReport (rt : Runtime) (cfg : LbConfigure R) (now : ℤ) (data : List UInt8) (s : RouteLB) :
    Option (Except Fault (RouteLB × Sent)) :=
  (CacheBatchRptReq.format.parse rt data).map fun req => do
    let (s, repts) ← s.batchReport cfg now req
    return (s, ⟨[], [], repts⟩)

/-- The handler that `initUDPServerIns` or `dssConnectorDomain` adds for the id. -/
def handle (rt : Runtime) (cfg : LbConfigure R) (now : ℤ) (data : List UInt8) (s : RouteLB) :
    MsgTypeId → Option (Except Fault (RouteLB × Sent))
  | .getHostReqId => getHost rt cfg now data s
  | .reportReqId => reportStatus rt cfg now data s
  | .getRouteByToolReqId => getRouteByTool rt cfg now data s
  | .cacheGetRouteReqId => cacheGetRoute rt cfg now data s
  | .cacheBatchRptReqId => batchReport rt cfg now data s
  | .getRouteByAgentRspId => DssClient.recvRoute rt cfg now data s
  | _ => none

/-- What happens to the shard: bytes come under a message id, or `whenConnected` clears it. -/
inductive Event
  | packet (now : ℤ) (id : MsgTypeId) (data : List UInt8) (sent : Sent)
  | whenConnected (now : ℤ)

/-- Runs of a shard that works on bytes. -/
def system (rt : Runtime) (cfg : LbConfigure R) : System RouteLB Event where
  init s := ∃ id, s = .new id
  step s e s' := match e with
    | .packet now id data sent => handle rt cfg now data s id = some (.ok (s', sent))
    | .whenConnected _ => s' = s.clearPulling

/-! ## Bytes and messages -/

/-- The call for a message that comes under the id. -/
def opOf : (id : MsgTypeId) → id.Message → Option RouteLB.Op
  | .getHostReqId, req => some (.getHost req)
  | .reportReqId, req => some (.report req)
  | .getRouteByToolReqId, req => some (.getRoute req)
  | .cacheGetRouteReqId, req => some (.cacheGetRoute req)
  | .cacheBatchRptReqId, req => some (.batchReport req)
  | .getRouteByAgentRspId, rsp => some (.update rsp)
  | _, _ => none

/-- The bytes are a message for this call as it is written, with fields of other numbers anywhere
between its own. -/
def Written (id : MsgTypeId) (data : List UInt8) (op : RouteLB.Op) : Prop :=
  ∃ m : id.Message, id.InRange m ∧ Interleaved id.format.tags (id.format.written m) data ∧
    opOf id m = some op

/-- The clock is a `long`. -/
def OfLong (x : ℤ) : Prop := -2 ^ 63 ≤ x ∧ x < 2 ^ 63

/-- Bytes for some call, at a time that the clock can show. -/
def Event.WellFormed : Event → Prop
  | .packet now id data _ => OfLong now ∧ ∃ op, Written id data op
  | .whenConnected _ => True

/-- The packets carry the reply, and the rest is the same. -/
structure Carries (sent : Sent) (out : RouteLB.Out) : Prop where
  packets : List.Forall₂ ElbClient.Carries sent.packets out.reply.toList
  pulls : sent.pulls = out.pulls
  repts : sent.repts = out.repts

/-- The packets that are sent. -/
def Event.packets : Event → List (List UInt8)
  | .packet _ _ _ sent => sent.packets
  | .whenConnected _ => []

/-- The call that the event stands for, with what it returns. -/
inductive Event.Stands : Event → RouteLB.Call → Prop
  | packet {now : ℤ} {id : MsgTypeId} {data : List UInt8} {sent : Sent} {op : RouteLB.Op}
      {out : RouteLB.Out} (hop : Written id data op) (hout : Carries sent out) :
      Stands (.packet now id data sent) ⟨now, op, out⟩
  | whenConnected {now : ℤ} :
      Stands (.whenConnected now) ⟨now, .clearPulling, ⟨none, [], []⟩⟩

/-! ## One handler -/

/-- The versions of the routes are times that the clock has shown. -/
def VersionsFit (s : RouteLB) : Prop := ∀ key v, s.routeVersion key = some v → OfLong v

/-- A new shard has no versions. -/
theorem versionsFit_new (id : ℕ) : VersionsFit (.new id) := by
  rintro key v ⟨⟩

/-- A call keeps the versions in their range: an update sets the time of the call, which is a
`long`. -/
theorem VersionsFit.exec {s s' : RouteLB} {op : RouteLB.Op} {out : RouteLB.Out}
    (h : VersionsFit s) (hinv : s.Inv cfg) (hnow : ∀ rsp, op = .update rsp → OfLong now)
    (hex : s.exec cfg now op = .ok (s', out)) : VersionsFit s' := by
  intro key v hv
  rcases RouteLB.routeVersion_effect hinv (hinv.result hex).effect key with
    heq | heq | ⟨rsp, lb, hop, -, -, -, heq⟩
  · exact h key v (heq ▸ hv)
  · rw [heq] at hv
    cases hv
  · rw [heq] at hv
    obtain rfl := Option.some.inj hv
    exact hnow rsp hop

omit [RateArith R] in
/-- A route reply can be written: the module has no route, or its version is in range. -/
theorem cacheGetRoute_inRange {s s' : RouteLB} (h : VersionsFit s) {req : CacheGetRouteReq}
    {rsp : CacheGetRouteRsp} {pulls : List GetRouteReq}
    (hex : s.cacheGetRoute cfg now req.modid req.cmdid req.version
      ⟨req.modid, req.cmdid, 0, false, []⟩ = .ok (s', rsp, pulls)) :
    MsgTypeId.cacheGetRouteRspId.InRange (rsp, hasOverload req.modid req.cmdid s) := by
  unfold RouteLB.cacheGetRoute at hex
  -- no module, a module without hosts, or a route with its version; only the last has `overload`
  cases hk : s.routeMap.lookup (packKey req.modid req.cmdid) with
  | none =>
    simp only [hk] at hex
    cases hex
    exact ⟨by norm_num, fun _ => rfl⟩
  | some lb =>
    simp only [hk] at hex
    cases hemp : lb.empty with
    | true =>
      rw [if_pos hemp] at hex
      split at hex
      · cases hex
        exact ⟨by norm_num, fun _ => rfl⟩
      · cases hex
    | false =>
      rw [if_neg (by simp [hemp])] at hex
      cases hex
      refine ⟨h _ _ (RouteLB.routeVersion_eq_some.mpr ⟨lb, hk, hemp, rfl⟩), fun hnone => ?_⟩
      simp [hasOverload, hk, hemp] at hnone

/-- The handler does what the call does, or runs into the same fault. -/
theorem handle_rel (cfg : LbConfigure R) (now : ℤ) (hrt : rt.Documented) {s : RouteLB}
    (h : VersionsFit s) {id : MsgTypeId} {data : List UInt8} {op : RouteLB.Op}
    (hw : Written id data op) :
    ∃ r, handle rt cfg now data s id = some r ∧
      Except.Rel (fun x y => x.1 = y.1 ∧ Carries x.2 y.2) r (s.exec cfg now op) := by
  obtain ⟨m, hm, hbytes, hop⟩ := hw
  have hparse := (MsgTypeId.format_holds hrt id hm).parse_interleaved hrt hbytes
  -- one handler for each id; the other ids have none
  cases id with
  | getHostReqId =>
    obtain rfl := Option.some.inj hop
    refine ⟨_, congrArg (Option.map _) hparse, ?_⟩
    exact .bind_same fun r _ => .ok ⟨rfl, .cons (.getHost _) .nil, rfl, rfl⟩
  | reportReqId =>
    obtain rfl := Option.some.inj hop
    refine ⟨_, congrArg (Option.map _) hparse, ?_⟩
    exact .bind_same fun r _ => .ok ⟨rfl, .nil, rfl, rfl⟩
  | getRouteByToolReqId =>
    obtain rfl := Option.some.inj hop
    refine ⟨_, congrArg (Option.map _) hparse, ?_⟩
    exact .ok ⟨rfl, .cons (.getRouteByTool _) .nil, rfl, rfl⟩
  | cacheGetRouteReqId =>
    obtain rfl := Option.some.inj hop
    refine ⟨_, congrArg (Option.map _) hparse, ?_⟩
    refine .bind_same fun r hex => .ok ⟨rfl, .cons ?_ .nil, rfl, rfl⟩
    exact .cacheGetRoute _ _ (cacheGetRoute_inRange h hex)
  | cacheBatchRptReqId =>
    obtain rfl := Option.some.inj hop
    refine ⟨_, congrArg (Option.map _) hparse, ?_⟩
    exact .bind_same fun r _ => .ok ⟨rfl, .nil, rfl, rfl⟩
  | getRouteByAgentRspId =>
    obtain rfl := Option.some.inj hop
    refine ⟨_, congrArg (Option.map _) hparse, ?_⟩
    exact .bind_same fun r _ => .ok ⟨rfl, .nil, rfl, rfl⟩
  | _ => cases hop

/-! ## Runs -/

/-- What holds between any two events. -/
structure Inv (cfg : LbConfigure R) (s : RouteLB) : Prop where
  route : s.Inv cfg
  versions : VersionsFit s

/-- The shard that works on messages follows an event. -/
theorem Inv.exists_call (hrt : rt.Documented) {s s' : RouteLB} (h : Inv cfg s) {e : Event}
    (he : e.WellFormed) (hs : (system rt cfg).step s e s') :
    ∃ call, (RouteLB.recorded cfg).step s call s' ∧ e.Stands call ∧ Inv cfg s' := by
  have hnext : ∀ {now op out}, (∀ rsp, op = .update rsp → OfLong now) →
      s.exec cfg now op = .ok (s', out) → Inv cfg s' := fun hnow hex =>
    ⟨h.route.effect (h.route.result hex).effect, h.versions.exec h.route hnow hex⟩
  cases e with
  | whenConnected now =>
    obtain rfl : s' = s.clearPulling := hs
    have hex : s.exec cfg now .clearPulling = .ok (s.clearPulling, ⟨none, [], []⟩) := rfl
    exact ⟨⟨now, .clearPulling, ⟨none, [], []⟩⟩, hex, .whenConnected, hnext (by simp) hex⟩
  | packet now id data sent =>
    obtain ⟨hnow, op, hop⟩ := he
    -- what the handler gives on the bytes is unique, so it is this event
    obtain ⟨r, hr, hrel⟩ := handle_rel cfg now hrt h.versions hop
    have hstep : handle rt cfg now data s id = some (.ok (s', sent)) := hs
    obtain rfl := Option.some.inj (hr.symm.trans hstep)
    obtain ⟨⟨_, out⟩, hex, rfl, hout⟩ := hrel.of_ok
    exact ⟨⟨now, op, out⟩, hex, .packet hop hout, hnext (fun _ _ => hnow) hex⟩

/-- The packets of an event carry the reply of the call that it stands for. -/
theorem Event.Stands.carries {e : Event} {call : RouteLB.Call} (h : e.Stands call)
    {p : List UInt8} (hp : p ∈ e.packets) :
    ∃ rsp, call.out.reply = some rsp ∧ ElbClient.Carries p rsp := by
  cases h with
  | whenConnected => cases hp
  | packet _ hout =>
    obtain ⟨rsp, hrsp, hcarries⟩ := hout.packets.exists_right hp
    exact ⟨rsp, Option.mem_toList.mp hrsp, hcarries⟩

/-- A shard that works on bytes, given messages as they are written, runs as the shard that works on
messages: the same states, requests, reports and faults, and packets that carry the replies.
Whatever packets of the run come to the client, in any order, lost or doubled, if they fit into its
buffer, it does with them what it does with the replies of the calls that sent them. -/
theorem packets_refine_messages (hrt : rt.Documented) (id : ℕ) {tr : List (Event × RouteLB)}
    (h : (system rt cfg).Run (.new id) tr) (hwf : ∀ x ∈ tr, x.1.WellFormed) :
    ∃ tr', (RouteLB.recorded cfg).Run (.new id) tr' ∧
      List.Forall₂ (fun x y => x.1.Stands y.1 ∧ x.2 = y.2) tr tr' ∧
      (∀ now id' data op, Written id' data op →
        ∃ r, handle rt cfg now data (System.last (.new id) tr) id' = some r ∧
          Except.Rel (fun x y => x.1 = y.1 ∧ Carries x.2 y.2) r
            ((System.last (.new id) tr).exec cfg now op)) ∧
      ∀ (rbuf : List UInt8) (packets : List (List UInt8)),
        (∀ p ∈ packets, p.length ≤ rbuf.length ∧ ∃ x ∈ tr, p ∈ x.1.packets) →
          ∃ recvs, ElbClient.ReadAs rt rbuf packets recvs ∧
            List.Forall₂ (fun p rsp => ∃ xy ∈ tr.zip tr', p ∈ xy.1.1.packets ∧
              xy.2.1.out.reply = some rsp) packets recvs := by
  have hinit : Inv cfg (.new id) := ⟨RouteLB.inv_new id, versionsFit_new id⟩
  have hstep : ∀ (s : RouteLB) (e : Event) (s' t : RouteLB), s = t ∧ Inv cfg s → e.WellFormed →
      (system rt cfg).step s e s' → ∃ call t', (RouteLB.recorded cfg).step t call t' ∧
        e.Stands call ∧ s' = t' ∧ Inv cfg s' := by
    rintro s e s' _ ⟨rfl, hinv⟩ he hs
    obtain ⟨call, hcall, hstands, hinv'⟩ := hinv.exists_call hrt he hs
    exact ⟨call, s', hcall, hstands, rfl, hinv'⟩
  -- run against run, then the handlers in its last state, then the client on what was sent
  obtain ⟨tr', hrun, hall⟩ := h.simulate hstep hwf ⟨rfl, hinit⟩
  have hlabel : List.Forall₂ (fun x y => x.1.Stands y.1 ∧ x.2 = y.2) tr tr' :=
    hall.imp fun _ _ hxy => ⟨hxy.1, hxy.2.1⟩
  have hlast : Inv cfg (System.last (.new id) tr) := by
    refine h.last_of_along ?_ (System.along_of_forall _ hwf) hinit
    intro s e s' hs he hstep'
    obtain ⟨-, -, -, hinv⟩ := hs.exists_call hrt he hstep'
    exact hinv
  refine ⟨tr', hrun, hlabel, fun now id' data op hop => handle_rel cfg now hrt hlast.versions hop,
    fun rbuf packets hpackets => ?_⟩
  have hreply : ∀ p ∈ packets, ∃ rsp, (∃ xy ∈ tr.zip tr', p ∈ xy.1.1.packets ∧
      xy.2.1.out.reply = some rsp) ∧ ElbClient.Carries p rsp := by
    intro p hp
    obtain ⟨x, hx, hsent⟩ := (hpackets p hp).2
    rw [← List.map_fst_zip hlabel.length_eq.le] at hx
    obtain ⟨xy, hxy, rfl⟩ := List.mem_map.mp hx
    obtain ⟨hstands, -⟩ := List.forall₂_zip hlabel hxy
    obtain ⟨rsp, hrsp, hcarries⟩ := hstands.carries hsent
    exact ⟨rsp, ⟨xy, hxy, hsent, hrsp⟩, hcarries⟩
  obtain ⟨recvs, hrecvs⟩ := List.exists_forall₂ hreply
  exact ⟨recvs, .of_carries hrt (hrecvs.imp fun _ _ => And.right) fun p hp => (hpackets p hp).1,
    hrecvs.imp fun _ _ => And.left⟩

/-- A shard is asked for a module that it does not have. -/
theorem packets_refine_messages_asked :
    ∃ tr', (RouteLB.recorded LbConfigure.default).Run (.new 1) tr' ∧
      tr'.map Prod.snd = [((RouteLB.new 1).create 1 2).1] ∧
        ∃ recvs, ElbClient.ReadAs Runtime.reference (List.replicate 4096 0)
          [datagram 2 (GetHostRsp.format.encode ⟨0, 1, 2, Retcode.noexist, none⟩)] recvs := by
  have hop : Written .getHostReqId (GetHostReq.format.written ⟨0, 1, 2⟩).flatten
      (.getHost ⟨0, 1, 2⟩) :=
    ⟨GetHostReq.mk 0 1 2, trivial, interleaved_flatten _ _, rfl⟩
  have hex : (RouteLB.new 1).exec LbConfigure.default 7 (.getHost ⟨0, 1, 2⟩) =
      .ok (((RouteLB.new 1).create 1 2).1,
        ⟨some (.getHost ⟨0, 1, 2, Retcode.noexist, none⟩), [⟨1, 2⟩], []⟩) := rfl
  obtain ⟨r, hr, hrel⟩ := handle_rel LbConfigure.default 7 Runtime.reference_documented
    (versionsFit_new 1) hop
  rw [hex] at hrel
  obtain ⟨⟨s', sent⟩, rfl, rfl, hsent⟩ := hrel.exists_ok
  have hpackets : sent.packets =
      [datagram 2 (GetHostRsp.format.encode ⟨0, 1, 2, Retcode.noexist, none⟩)] := by
    obtain ⟨packets, pulls, repts⟩ := sent
    obtain ⟨⟨⟩ | ⟨⟨⟩, ⟨⟩⟩, -, -⟩ := hsent
    rfl
  have hrun : (system Runtime.reference LbConfigure.default).Run (.new 1)
      [(.packet 7 .getHostReqId (GetHostReq.format.written ⟨0, 1, 2⟩).flatten sent,
        ((RouteLB.new 1).create 1 2).1)] := .cons hr (.nil _)
  have hwf : (Event.packet 7 .getHostReqId (GetHostReq.format.written ⟨0, 1, 2⟩).flatten
      sent).WellFormed := ⟨⟨by norm_num, by norm_num⟩, _, hop⟩
  obtain ⟨tr', hrun', hall, -, hread⟩ := packets_refine_messages Runtime.reference_documented 1 hrun
    (by simpa using hwf)
  have hstates : tr'.map Prod.snd = [((RouteLB.new 1).create 1 2).1] := by
    cases hall with
    | cons hone hrest =>
      cases hrest
      rw [List.map_singleton, ← hone.2]
  have hfits : (datagram 2 (GetHostRsp.format.encode ⟨0, 1, 2, Retcode.noexist, none⟩)).length ≤
      (List.replicate 4096 (0 : UInt8)).length := by
    have hlen := GetHostRsp.length_format_encode ⟨0, 1, 2, Retcode.noexist, none⟩
    rw [length_datagram, List.length_replicate]
    omega
  have hsent₁ : datagram 2 (GetHostRsp.format.encode ⟨0, 1, 2, Retcode.noexist, none⟩) ∈
      sent.packets := by
    rw [hpackets]
    exact List.mem_singleton_self _
  obtain ⟨recvs, hrecvs, -⟩ := hread (List.replicate 4096 0) _ (List.forall_mem_singleton.mpr
    ⟨hfits, _, List.mem_singleton_self _, hsent₁⟩)
  exact ⟨tr', hrun', hstates, recvs, hrecvs⟩

end AgentServer

end Elb
