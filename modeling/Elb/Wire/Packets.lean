import Elb.Wire.Messages

/-!
# What the client receives

Reference: `api/cpp/elbApi/elbApi.cc`, from `recvfrom` on in `elbClient::apiGetHost`,
`elbClient::getRoute4Cache` and `elbClient::apiGetRoute`.

The client reads a packet into a buffer on its stack, looks at the message id in the header and
parses what comes behind the header; the length in the header it does not look at. For packets that
the agent sent, and that the buffer has room for, this does what `ElbClient` does with the messages.
-/

namespace Elb

open Protobuf

variable {rt : Runtime}

/-- An `int` as it lies in memory. -/
def intAt : List UInt8 → Int32
  | b₀ :: b₁ :: b₂ :: b₃ :: _ =>
    Int32.ofNat (b₀.toNat + 2 ^ 8 * b₁.toNat + 2 ^ 16 * b₂.toNat + 2 ^ 24 * b₃.toNat)
  | _ => 0

/-- An `int` that is written to memory is read back. -/
theorem intAt_sAddr (x : Int32) (rest : List UInt8) : intAt (PythonClient.sAddr x ++ rest) = x := by
  have hbyte : ∀ k : UInt32, k.toNat < 32 →
      (x.toUInt32 >>> k).toUInt8.toNat = x.toUInt32.toNat / 2 ^ k.toNat % 2 ^ 8 := by
    intro k hk
    rw [UInt32.toNat_toUInt8, UInt32.toNat_shiftRight, Nat.shiftRight_eq_div_pow,
      Nat.mod_eq_of_lt hk]
  have hlow : x.toUInt32.toUInt8.toNat = x.toUInt32.toNat % 2 ^ 8 := UInt32.toNat_toUInt8 _
  have hlt := x.toUInt32.toNat_lt
  simp only [PythonClient.sAddr, List.cons_append, intAt]
  rw [hlow, hbyte 8 (by decide), hbyte 16 (by decide), hbyte 24 (by decide)]
  simp only [UInt32.reduceToNat]
  have hsum : x.toUInt32.toNat % 2 ^ 8 + 2 ^ 8 * (x.toUInt32.toNat / 2 ^ 8 % 2 ^ 8) +
      2 ^ 16 * (x.toUInt32.toNat / 2 ^ 16 % 2 ^ 8) +
        2 ^ 24 * (x.toUInt32.toNat / 2 ^ 24 % 2 ^ 8) = x.toUInt32.toNat := by
    omega
  rw [hsum, ← UInt32.toInt32_ofNat', UInt32.ofNat_toNat, Int32.toInt32_toUInt32]

namespace ElbClient

/-- `recvfrom`: how many bytes come, and the buffer with them. What has no room is cut off. -/
def recvfrom (rbuf packet : List UInt8) : ℕ × List UInt8 :=
  let data := packet.take rbuf.length
  (data.length, data ++ rbuf.drop data.length)

/-- The check of `head.cmdid`, and `ParseFromArray` on what comes behind the header. -/
def unpack (rt : Runtime) (id : MsgTypeId) (pkgLen : ℕ) (rbuf : List UInt8) : Option id.Message :=
  if intAt rbuf ≠ id.num then none else id.format.parse rt ((rbuf.take pkgLen).drop 8)

/-- `recvHost` on packets. The loop uses its buffer again. -/
def recvHostPackets (rt : Runtime) (seq : UInt32) (modid cmdid : Int32) :
    List UInt8 → List (List UInt8) → Int32 × Option HostAddr
  | _, [] => (noAnswer, none)
  | rbuf, packet :: packets =>
    let (pkgLen, rbuf) := recvfrom rbuf packet
    match unpack rt .getHostRspId pkgLen rbuf with
    | none => (noAnswer, none)
    | some (rsp : GetHostRsp) =>
      if rsp.seq < seq then recvHostPackets rt seq modid cmdid rbuf packets
      else if rsp.seq ≠ seq ∨ rsp.modid ≠ modid ∨ rsp.cmdid ≠ cmdid then (noAnswer, none)
      else if rsp.retcode = 0 then (0, some (rsp.host.getD ⟨0, 0⟩))
      else (rsp.retcode, none)

/-- `recvRoute4Cache` on a packet. -/
def recvRoute4CachePacket (rt : Runtime) (rbuf : List UInt8) (modid cmdid : Int32) (ts : ℤ)
    (packet : Option (List UInt8)) (c : ElbClient) : ElbClient × Int32 :=
  match packet with
  | none => (c, noAnswer)
  | some packet =>
    let (pkgLen, rbuf) := recvfrom rbuf packet
    match unpack rt .cacheGetRouteRspId pkgLen rbuf with
    | none => (c, noAnswer)
    | some ((rsp, _) : CacheGetRouteRsp × Bool) =>
      if rsp.modid ≠ modid ∨ rsp.cmdid ≠ cmdid then (c, noAnswer)
      else (c.applyRoute modid cmdid ts rsp, 0)

/-- `recvGetRoute` on a packet. -/
def recvGetRoutePacket (rt : Runtime) (rbuf : List UInt8) (packet : Option (List UInt8)) :
    Int32 × List HostAddr :=
  match packet with
  | none => (-1, [])
  | some packet =>
    let (pkgLen, rbuf) := recvfrom rbuf packet
    match unpack rt .getRouteByToolRspId pkgLen rbuf with
    | none => (-1, [])
    | some (rsp : GetRouteRsp) => (0, rsp.hosts)

/-- The agent's reply comes as this packet. -/
inductive Carries : List UInt8 → AgentRsp → Prop
  | getHost (rsp : GetHostRsp) :
      Carries (datagram MsgTypeId.getHostRspId.num (GetHostRsp.format.encode rsp)) (.getHost rsp)
  | getRouteByTool (rsp : GetRouteRsp) :
      Carries (datagram MsgTypeId.getRouteByToolRspId.num (GetRouteRsp.format.encode rsp))
        (.getRouteByTool rsp)
  | cacheGetRoute (rsp : CacheGetRouteRsp) (hasOverload : Bool)
      (hm : MsgTypeId.cacheGetRouteRspId.InRange (rsp, hasOverload)) :
      Carries (datagram MsgTypeId.cacheGetRouteRspId.num
        (CacheGetRouteRsp.format.encode (rsp, hasOverload))) (.cacheGetRoute rsp)

/-- A packet that fits is received whole, and the end of the buffer stays as it was. -/
theorem recvfrom_of_fits {rbuf packet : List UInt8} (h : packet.length ≤ rbuf.length) :
    recvfrom rbuf packet = (packet.length, packet ++ rbuf.drop packet.length) := by
  rw [recvfrom, List.take_of_length_le h]

/-- A packet is parsed as the message of its id, and not at all under another id. -/
theorem unpack_datagram (rt : Runtime) (id id' : MsgTypeId) (body rest : List UInt8) :
    unpack rt id (datagram id'.num body).length (datagram id'.num body ++ rest) =
      if id' = id then id.format.parse rt body else none := by
  -- the id is in the first four bytes
  have hhead : intAt (datagram id'.num body ++ rest) = id'.num := by
    rw [datagram, List.append_assoc, List.append_assoc, intAt_sAddr]
  have hbody : (datagram id'.num body).drop 8 = body := rfl
  rw [unpack, hhead, List.take_left, hbody]
  by_cases hid : id' = id
  · rw [if_pos hid, if_neg (not_not.mpr (congrArg MsgTypeId.num hid))]
  · rw [if_neg hid, if_pos fun hnum => hid (MsgTypeId.num_inj hnum)]

/-- The loop of `apiGetHost`. -/
theorem recvHostPackets_eq (hrt : rt.Documented) (seq : UInt32) (modid cmdid : Int32)
    {rbuf : List UInt8} {packets : List (List UInt8)} {recvs : List AgentRsp}
    (h : List.Forall₂ Carries packets recvs) (hfits : ∀ p ∈ packets, p.length ≤ rbuf.length) :
    recvHostPackets rt seq modid cmdid rbuf packets = recvHost seq modid cmdid recvs := by
  -- on the packets; each leaves another buffer, of the same length, to the next
  induction h generalizing rbuf with
  | nil => rfl
  | @cons packet rsp packets recvs hp _ ih =>
    obtain ⟨hfit, hfits⟩ := List.forall_mem_cons.mp hfits
    have hrecv := recvfrom_of_fits hfit
    have hbuf : rbuf.length = (packet ++ rbuf.drop packet.length).length := by
      rw [List.length_append, List.length_drop]
      omega
    rw [hbuf] at hfits
    rw [recvHostPackets, hrecv]
    dsimp only
    cases hp with
    | getHost rsp =>
      rw [unpack_datagram, if_pos rfl]
      have hparse : MsgTypeId.getHostRspId.format.parse rt (GetHostRsp.format.encode rsp) =
          some rsp := (GetHostRsp.format_holds hrt rsp).parse_encode hrt
      rw [hparse]
      dsimp only
      rw [recvHost, ih hfits]
    -- a reply of another kind has another id
    | _ =>
      rw [unpack_datagram, if_neg (by decide)]
      rfl

/-- `getRoute4Cache`. -/
theorem recvRoute4CachePacket_eq (hrt : rt.Documented) (modid cmdid : Int32) (ts : ℤ)
    (c : ElbClient) {rbuf : List UInt8} {packet : Option (List UInt8)} {recv : Option AgentRsp}
    (h : Option.Rel Carries packet recv) (hfits : ∀ p ∈ packet, p.length ≤ rbuf.length) :
    recvRoute4CachePacket rt rbuf modid cmdid ts packet c =
      c.recvRoute4Cache modid cmdid ts recv := by
  cases h with
  | none => rfl
  | @some packet rsp hp =>
    rw [recvRoute4CachePacket, recvfrom_of_fits (hfits packet rfl)]
    dsimp only
    cases hp with
    | cacheGetRoute rsp hasOverload hm =>
      rw [unpack_datagram, if_pos rfl]
      have hparse : MsgTypeId.cacheGetRouteRspId.format.parse rt
          (CacheGetRouteRsp.format.encode (rsp, hasOverload)) = some (rsp, hasOverload) :=
        (MsgTypeId.format_holds hrt .cacheGetRouteRspId hm).parse_encode hrt
      rw [hparse]
      rfl
    -- a reply of another kind has another id
    | _ =>
      rw [unpack_datagram, if_neg (by decide)]
      rfl

/-- `apiGetRoute`. -/
theorem recvGetRoutePacket_eq (hrt : rt.Documented) {rbuf : List UInt8}
    {packet : Option (List UInt8)} {recv : Option AgentRsp} (h : Option.Rel Carries packet recv)
    (hfits : ∀ p ∈ packet, p.length ≤ rbuf.length) :
    recvGetRoutePacket rt rbuf packet = recvGetRoute recv := by
  cases h with
  | none => rfl
  | @some packet rsp hp =>
    rw [recvGetRoutePacket, recvfrom_of_fits (hfits packet rfl)]
    dsimp only
    cases hp with
    | getRouteByTool rsp =>
      rw [unpack_datagram, if_pos rfl]
      have hparse : MsgTypeId.getRouteByToolRspId.format.parse rt (GetRouteRsp.format.encode rsp) =
          some rsp := (GetRouteRsp.format_holds hrt rsp).parse_encode hrt
      rw [hparse]
      rfl
    | _ =>
      rw [unpack_datagram, if_neg (by decide)]
      rfl

/-- The packets are to the three calls what the replies are. -/
structure ReadAs (rt : Runtime) (rbuf : List UInt8) (packets : List (List UInt8))
    (recvs : List AgentRsp) : Prop where
  getHost : ∀ seq modid cmdid, recvHostPackets rt seq modid cmdid rbuf packets =
    recvHost seq modid cmdid recvs
  getRoute4Cache : ∀ modid cmdid ts c,
    recvRoute4CachePacket rt rbuf modid cmdid ts packets.head? c =
      c.recvRoute4Cache modid cmdid ts recvs.head?
  getRoute : recvGetRoutePacket rt rbuf packets.head? = recvGetRoute recvs.head?

/-- Packets that carry replies and fit the buffer are read as these replies, whatever the buffer
holds when each of them comes. -/
theorem ReadAs.of_carries (hrt : rt.Documented) {rbuf : List UInt8} {packets : List (List UInt8)}
    {recvs : List AgentRsp} (h : List.Forall₂ Carries packets recvs)
    (hfits : ∀ p ∈ packets, p.length ≤ rbuf.length) : ReadAs rt rbuf packets recvs := by
  have hhead : Option.Rel Carries packets.head? recvs.head? := by
    cases h with
    | nil => exact .none
    | cons hp _ => exact .some hp
  have hfit : ∀ p ∈ packets.head?, p.length ≤ rbuf.length := fun p hp =>
    hfits p (List.mem_of_mem_head? hp)
  exact ⟨fun seq modid cmdid => recvHostPackets_eq hrt seq modid cmdid h hfits,
    fun modid cmdid ts c => recvRoute4CachePacket_eq hrt modid cmdid ts c hhead hfit,
    recvGetRoutePacket_eq hrt hhead hfit⟩

/-- Packets that carry the agent's replies, and that the buffer has room for, are to the three calls
what the replies are, whatever was in the buffer. -/
theorem recvPackets_eq (hrt : rt.Documented) (modid cmdid : Int32) {rbuf : List UInt8}
    {packets : List (List UInt8)} {recvs : List AgentRsp} (h : List.Forall₂ Carries packets recvs)
    (hfits : ∀ p ∈ packets, p.length ≤ rbuf.length) :
    (∀ seq, recvHostPackets rt seq modid cmdid rbuf packets = recvHost seq modid cmdid recvs) ∧
      (∀ ts c, recvRoute4CachePacket rt rbuf modid cmdid ts packets.head? c =
        c.recvRoute4Cache modid cmdid ts recvs.head?) ∧
        recvGetRoutePacket rt rbuf packets.head? = recvGetRoute recvs.head? := by
  have hread : ReadAs rt rbuf packets recvs := .of_carries hrt h hfits
  exact ⟨fun seq => hread.getHost seq modid cmdid, hread.getRoute4Cache modid cmdid,
    hread.getRoute⟩

/-- A late reply and the answer. -/
theorem recvPackets_eq_two :
    recvHostPackets Runtime.reference 5 1 2 (List.replicate 81920 0)
      [datagram 2 (GetHostRsp.format.encode ⟨4, 1, 2, 0, some ⟨10, 80⟩⟩),
        datagram 2 (GetHostRsp.format.encode ⟨5, 1, 2, 0, some ⟨20, 80⟩⟩)] =
      (0, some ⟨20, 80⟩) := by
  have hfits : ∀ rsp : GetHostRsp, (datagram 2 (GetHostRsp.format.encode rsp)).length ≤
      (List.replicate 81920 (0 : UInt8)).length := by
    intro rsp
    have hlen := rsp.length_format_encode
    rw [length_datagram, List.length_replicate]
    omega
  exact (recvPackets_eq Runtime.reference_documented 1 2
    (.cons (.getHost _) (.cons (.getHost _) .nil))
    (List.forall_mem_cons.mpr ⟨hfits _, List.forall_mem_singleton.mpr (hfits _)⟩)).1 5

end ElbClient

end Elb
