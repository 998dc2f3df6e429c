import Elb.Api.SkipLoop
import Mathlib.Data.List.Forall2

/-!
# The Python client

Reference: the part of `elbClient.apiGetHost` in `api/python/elbApi/elbClient.py` that asks the
agent, against the one in `api/cpp/elbApi/elbApi.cc`; `MsgTypeId` in `common/proto/elb.proto`.

Both clients skip late replies, but the loop of the Python client compares the message id of what it
receives with that of the request. So it takes the first reply as the C++ client does, and no other.
What protobuf makes of the bytes of a datagram is part of the datagram here.
-/

namespace Elb

namespace PythonClient

/-! ## Datagrams -/

/-- `GetHostReqId`. -/
def getHostReqId : Int32 := 1

/-- `GetHostRspId`. -/
def getHostRspId : Int32 := 2

/-- A datagram: the message id and the length in its header, how many bytes come behind the header,
and what they parse to as a `GetHostRsp`. -/
structure Datagram where
  id : Int32
  length : Int32
  size : ℕ
  rsp : Option GetHostRsp

/-- The agent sends the reply so. -/
structure Datagram.Carries (d : Datagram) (rsp : GetHostRsp) : Prop where
  id : d.id = getHostRspId
  length : d.length.toInt = d.size
  rsp : d.rsp = some rsp

/-! ## The address of a host -/

/-- `struct.pack('I', n)`: the bytes of an unsigned number as they lie in memory, or an error. The
text that `inet_ntoa` makes of them is left as the four bytes. -/
def packI (n : ℤ) : Option (List UInt8) :=
  if 0 ≤ n ∧ n < 2 ^ 32 then
    some [UInt8.ofNat n.toNat, UInt8.ofNat (n.toNat / 2 ^ 8), UInt8.ofNat (n.toNat / 2 ^ 16),
      UInt8.ofNat (n.toNat / 2 ^ 24)]
  else none

/-- `inaddr.s_addr = host.ip()` in the C++ client: the bytes of the number in memory. -/
def sAddr (ip : Int32) : List UInt8 :=
  [ip.toUInt32.toUInt8, (ip.toUInt32 >>> 8).toUInt8, (ip.toUInt32 >>> 16).toUInt8,
    (ip.toUInt32 >>> 24).toUInt8]

/-- The four bytes say which address it is. -/
theorem sAddr_inj {ip ip' : Int32} (h : sAddr ip = sAddr ip') : ip = ip' := by
  have hbyte : ∀ k : UInt32, k.toNat < 32 →
      (ip.toUInt32 >>> k).toUInt8 = (ip'.toUInt32 >>> k).toUInt8 →
      ip.toUInt32.toNat / 2 ^ k.toNat % 2 ^ 8 = ip'.toUInt32.toNat / 2 ^ k.toNat % 2 ^ 8 := by
    intro k hk heq
    rw [← UInt8.toNat_inj, UInt32.toNat_toUInt8, UInt32.toNat_toUInt8, UInt32.toNat_shiftRight,
      UInt32.toNat_shiftRight, Nat.shiftRight_eq_div_pow, Nat.shiftRight_eq_div_pow,
      Nat.mod_eq_of_lt hk] at heq
    exact heq
  simp only [sAddr, List.cons.injEq, and_true] at h
  obtain ⟨h0, h8, h16, h24⟩ := h
  have h0 := hbyte 0 (by decide) h0
  have h8 := hbyte 8 (by decide) h8
  have h16 := hbyte 16 (by decide) h16
  have h24 := hbyte 24 (by decide) h24
  have hlt := ip.toUInt32.toNat_lt
  have hlt' := ip'.toUInt32.toNat_lt
  have heq : ip.toUInt32 = ip'.toUInt32 := by
    rw [← UInt32.toNat_inj]
    simp only [UInt32.reduceToNat] at h0 h8 h16 h24
    omega
  rw [← Int32.toInt32_toUInt32 ip, heq, Int32.toInt32_toUInt32]

/-- `ipn` in the Python client. -/
def unsignedIp (ip : Int32) : ℤ := if ip.toInt < 0 then ip.toInt + 2 ^ 32 else ip.toInt

/-- Masking the address gives its 32 bits as a number that is not negative. -/
theorem unsignedIp_eq (ip : Int32) : unsignedIp ip = (ip.toUInt32.toNat : ℤ) := by
  have hlow := ip.le_toInt
  have hhigh := ip.toInt_lt
  rw [unsignedIp, toNat_toUInt32]
  split <;> omega

/-- Both conversions of the sign give the same bytes. -/
theorem packI_unsignedIp (ip : Int32) : packI (unsignedIp ip) = some (sAddr ip) := by
  have hlt := ip.toUInt32.toNat_lt
  -- the bytes of a word, from its number
  have hbyte : ∀ k : UInt32, k.toNat < 32 →
      UInt8.ofNat (ip.toUInt32.toNat / 2 ^ k.toNat) = (ip.toUInt32 >>> k).toUInt8 := by
    intro k hk
    rw [← UInt8.toNat_inj, UInt8.toNat_ofNat', UInt32.toNat_toUInt8, UInt32.toNat_shiftRight,
      Nat.shiftRight_eq_div_pow, Nat.mod_eq_of_lt hk]
  have hfirst : UInt8.ofNat ip.toUInt32.toNat = ip.toUInt32.toUInt8 := rfl
  rw [packI, unsignedIp_eq, if_pos ⟨by omega, by omega⟩, Int.toNat_natCast, sAddr, hfirst]
  exact congrArg some (congrArg₂ _ rfl (congrArg₂ _ (hbyte 8 (by decide))
    (congrArg₂ _ (hbyte 16 (by decide)) (congrArg₂ _ (hbyte 24 (by decide)) rfl))))

/-! ## The exchange -/

/-- What a call returns or raises. A node comes as its address and port, everything else as a
message. -/
inductive Answer
  | node (ip : List UInt8) (port : ℤ)
  | error (retcode : ℤ) (message : String)
  | raised

/-- What a time-out returns. -/
def timedOut : Answer := .error (-9999) "time out when recvfrom socket"

/-- What a datagram with another header returns. -/
def formatError : Answer := .error (-9999) "message head format error"

/-- The message for a code that the agent returns. -/
def errMsg (retcode : Int32) : String :=
  if retcode = -10000 then "overload" else if retcode = -9998 then "no exist" else "agent error"

/-- The address and port of a reply with a host. -/
def nodeOf (host : HostAddr) : Answer :=
  match packI (unsignedIp host.ip) with
  | some ips => .node ips host.port.toInt
  | none => .raised

/-- The reply that ended the loop. -/
def answer (seq : UInt32) (rsp : GetHostRsp) : Answer :=
  if rsp.seq ≠ seq then
    .error (-9999) s!"request seq id is {seq}, response seq id is {rsp.seq}"
  else if rsp.retcode ≠ 0 then .error rsp.retcode.toInt (errMsg rsp.retcode)
  else nodeOf (rsp.host.getD ⟨0, 0⟩)

/-- The loop, with the reply that was received last. -/
def recvAgain (seq : UInt32) (rsp : GetHostRsp) : List Datagram → Answer
  | [] => if rsp.seq < seq then timedOut else answer seq rsp
  | d :: recvs =>
    if rsp.seq < seq then
      if d.id ≠ getHostReqId ∨ d.length.toInt ≠ d.size then formatError
      else
        match d.rsp with
        | none => .raised
        | some rsp => recvAgain seq rsp recvs
    else answer seq rsp

/-- The `try` block of `apiGetHost`: what is received, and then nothing until the time-out. -/
def recvHost (seq : UInt32) : List Datagram → Answer
  | [] => timedOut
  | d :: recvs =>
    if d.id ≠ getHostRspId ∨ d.length.toInt ≠ d.size then formatError
    else
      match d.rsp with
      | none => .raised
      | some rsp => recvAgain seq rsp recvs

/-! ## Against the C++ client -/

/-- The return code, and the address and port if there is a host. -/
def Answer.result : Answer → Option (ℤ × Option (List UInt8 × ℤ))
  | .node ip port => some (0, some (ip, port))
  | .error retcode _ => some (retcode, none)
  | .raised => none

/-- The same of what the C++ client returns. -/
def cppResult (ret : Int32 × Option HostAddr) : ℤ × Option (List UInt8 × ℤ) :=
  (ret.1.toInt, ret.2.map fun host => (sAddr host.ip, host.port.toInt))

/-- The first reply is not a late one; or the first that is not either does not come, or is none to
this request, or has the code that stands for no answer. -/
def FirstInTime (seq : UInt32) (rsps : List GetHostRsp) : Prop :=
  (∀ rsp ∈ rsps.head?, ¬rsp.seq < seq) ∨
    ∀ rsp ∈ rsps.find? fun rsp => ¬rsp.seq < seq, rsp.seq ≠ seq ∨ rsp.retcode = ElbClient.noAnswer

/-- The C++ client, given replies about the module. -/
theorem cpp_recvHost_eq {seq : UInt32} {modid cmdid : Int32} {rsps : List GetHostRsp}
    (hmod : ∀ rsp ∈ rsps, rsp.modid = modid ∧ rsp.cmdid = cmdid) :
    ElbClient.recvHost seq modid cmdid (rsps.map .getHost) =
      match rsps.find? fun rsp => ¬rsp.seq < seq with
      | some rsp => if rsp.seq ≠ seq then (ElbClient.noAnswer, none) else rsp.result
      | none => (ElbClient.noAnswer, none) := by
  have hskip : (fun r => !ElbClient.skips seq r) ∘ AgentRsp.getHost =
      fun rsp => decide ¬rsp.seq < seq := funext fun rsp => decide_not.symm
  rw [ElbClient.recvHost_eq, List.find?_map, hskip]
  cases hfind : rsps.find? fun rsp => ¬rsp.seq < seq with
  | none => rfl
  | some rsp =>
    obtain ⟨hm, hk⟩ := hmod rsp (List.mem_of_find?_eq_some hfind)
    simp [ElbClient.outcome, hm, hk]

/-- What ends the loop of the Python client is taken as the C++ client takes it. -/
theorem answer_result (seq : UInt32) (rsp : GetHostRsp) :
    (answer seq rsp).result =
      some (cppResult (if rsp.seq ≠ seq then (ElbClient.noAnswer, none) else rsp.result)) := by
  rw [answer]
  split
  · rfl
  · rw [GetHostRsp.result]
    by_cases h0 : rsp.retcode = 0
    · rw [if_neg (not_not.mpr h0), if_pos h0, nodeOf, packI_unsignedIp]
      rfl
    · rw [if_pos h0, if_neg h0]
      rfl

/-- After a late reply the next one is taken for malformed. -/
theorem recvAgain_result_of_lt {seq : UInt32} {rsp : GetHostRsp} (h : rsp.seq < seq)
    {recvs : List Datagram} {rsps : List GetHostRsp}
    (hrecvs : List.Forall₂ Datagram.Carries recvs rsps) :
    (recvAgain seq rsp recvs).result = some (-9999, none) := by
  cases hrecvs with
  | nil =>
    rw [recvAgain, if_pos h]
    rfl
  | cons hd _ =>
    have hid : getHostRspId ≠ getHostReqId := by decide
    rw [recvAgain, if_pos h, hd.id, if_pos (.inl hid)]
    rfl

/-- A reply of the C++ client's is no answer exactly if it has another number or says so. -/
theorem cppResult_eq_noAnswer_iff (seq : UInt32) (rsp : GetHostRsp) :
    cppResult (if rsp.seq ≠ seq then (ElbClient.noAnswer, none) else rsp.result) = (-9999, none) ↔
      rsp.seq ≠ seq ∨ rsp.retcode = ElbClient.noAnswer := by
  have hno : ElbClient.noAnswer.toInt = -9999 := rfl
  by_cases hseq : rsp.seq ≠ seq
  · rw [if_pos hseq]
    exact iff_of_true rfl (.inl hseq)
  · rw [if_neg hseq, or_iff_right hseq, GetHostRsp.result]
    split
    · next h0 =>
      have hne : (0 : Int32).toInt ≠ -9999 := by decide
      rw [h0]
      exact iff_of_false (fun h => hne (congrArg Prod.fst h)) (by decide)
    · rw [cppResult, Prod.mk.injEq, and_iff_left (by rfl), ← hno, Int32.toInt_inj]

/-- The two clients return the same for the replies of the agent about a module, exactly if the
first of them is not late, or no answer comes behind the late ones. -/
theorem recvHost_agrees_iff {seq : UInt32} {modid cmdid : Int32} {recvs : List Datagram}
    {rsps : List GetHostRsp} (hrecvs : List.Forall₂ Datagram.Carries recvs rsps)
    (hmod : ∀ rsp ∈ rsps, rsp.modid = modid ∧ rsp.cmdid = cmdid) :
    (recvHost seq recvs).result =
        some (cppResult (ElbClient.recvHost seq modid cmdid (rsps.map .getHost))) ↔
      FirstInTime seq rsps := by
  rw [cpp_recvHost_eq hmod, FirstInTime]
  cases hrecvs with
  | nil => exact iff_of_true rfl (.inl (by simp))
  | @cons d rsp recvs rsps hd hrest =>
    -- the first datagram is accepted whatever its sequence number
    have hstart : recvHost seq (d :: recvs) = recvAgain seq rsp recvs := by
      have hgood : ¬(d.id ≠ getHostRspId ∨ d.length.toInt ≠ d.size) := by
        simp [hd.id, hd.length]
      rw [recvHost, if_neg hgood, hd.rsp]
    rw [hstart]
    by_cases hlt : rsp.seq < seq
    · -- a late reply: the loop compares the id of the next one with that of the request
      rw [recvAgain_result_of_lt hlt hrest, List.find?_cons_of_neg (by simpa using hlt)]
      have hlate : ¬∀ rsp' ∈ (rsp :: rsps).head?, ¬rsp'.seq < seq := fun h => h rsp rfl hlt
      rw [or_iff_right hlate, Option.some_inj, eq_comm]
      cases hfind : rsps.find? fun rsp => ¬rsp.seq < seq with
      | none => exact iff_of_true rfl (by rintro rsp' ⟨⟩)
      | some rsp' =>
        rw [cppResult_eq_noAnswer_iff]
        simp only [Option.mem_some, forall_eq']
    · have htake : recvAgain seq rsp recvs = answer seq rsp := by
        cases recvs with
        | nil => rw [recvAgain, if_neg hlt]
        | cons d' recvs => rw [recvAgain, if_neg hlt]
      rw [htake, answer_result, List.find?_cons_of_pos (by simpa using hlt)]
      refine iff_of_true rfl (.inl ?_)
      rintro rsp' ⟨⟩
      exact hlt

/-- The datagram that carries a reply in ten bytes. -/
def datagram (rsp : GetHostRsp) : Datagram := ⟨getHostRspId, 10, 10, some rsp⟩

/-- The agent's datagram carries its answer. -/
theorem datagram_carries (rsp : GetHostRsp) : (datagram rsp).Carries rsp := ⟨rfl, rfl, rfl⟩

/-- Late replies to two earlier requests, and no answer behind them. -/
theorem recvHost_agrees_late :
    (recvHost 5 [datagram ⟨3, 1, 2, 0, some ⟨20, 80⟩⟩,
        datagram ⟨4, 1, 2, -10000, none⟩]).result =
      some (cppResult (ElbClient.recvHost 5 1 2 [.getHost ⟨3, 1, 2, 0, some ⟨20, 80⟩⟩,
        .getHost ⟨4, 1, 2, -10000, none⟩])) := by
  have hrecvs : List.Forall₂ Datagram.Carries
      [datagram ⟨3, 1, 2, 0, some ⟨20, 80⟩⟩, datagram ⟨4, 1, 2, -10000, none⟩]
      [⟨3, 1, 2, 0, some ⟨20, 80⟩⟩, ⟨4, 1, 2, -10000, none⟩] :=
    .cons (datagram_carries _) (.cons (datagram_carries _) .nil)
  exact (recvHost_agrees_iff hrecvs (by simp)).mpr (.inr (by rintro rsp ⟨⟩))

/-- A late reply comes before the answer. The C++ client returns the host of the answer. -/
theorem not_recvHost_agrees :
    (recvHost 1 [datagram ⟨0, 1, 2, 0, some ⟨20, 80⟩⟩,
        datagram ⟨1, 1, 2, 0, some ⟨10, 80⟩⟩]).result = some (-9999, none) ∧
      cppResult (ElbClient.recvHost 1 1 2 [.getHost ⟨0, 1, 2, 0, some ⟨20, 80⟩⟩,
        .getHost ⟨1, 1, 2, 0, some ⟨10, 80⟩⟩]) = (0, some ([10, 0, 0, 0], 80)) :=
  ⟨rfl, rfl⟩

end PythonClient

end Elb
