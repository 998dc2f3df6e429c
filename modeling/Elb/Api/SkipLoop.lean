import Elb.Api.ElbClient

/-!
# Skipping late replies

Reference: the part of `elbClient::apiGetHost` in `api/cpp/elbApi/elbApi.cc` that asks the agent.

The loop passes over replies whose sequence number is below that of the request. The numbers wrap,
so a reply of another round need not be below; and replies of other kinds, which come late on the
same socket, end the call.
-/

namespace Elb

/-- The return code and host that a reply stands for. -/
def GetHostRsp.result (rsp : GetHostRsp) : Int32 × Option HostAddr :=
  if rsp.retcode = 0 then (0, some (rsp.host.getD ⟨0, 0⟩)) else (rsp.retcode, none)

namespace ElbClient

/-! ## The loop -/

/-- The loop passes over the reply. -/
def skips (seq : UInt32) : AgentRsp → Bool
  | .getHost rsp => rsp.seq < seq
  | _ => false

/-- The place of the first reply that it does not pass over. -/
def decisive (seq : UInt32) (recvs : List AgentRsp) : ℕ := recvs.findIdx fun r => !skips seq r

/-- What the call makes of that reply. -/
def outcome (seq : UInt32) (modid cmdid : Int32) : AgentRsp → Int32 × Option HostAddr
  | .getHost rsp =>
    if rsp.seq ≠ seq ∨ rsp.modid ≠ modid ∨ rsp.cmdid ≠ cmdid then (noAnswer, none)
    else rsp.result
  | _ => (noAnswer, none)

/-- The call returns what it makes of the first reply that it does not pass over. -/
theorem recvHost_eq (seq : UInt32) (modid cmdid : Int32) (recvs : List AgentRsp) :
    recvHost seq modid cmdid recvs =
      ((recvs.find? fun r => !skips seq r).map (outcome seq modid cmdid)).getD
        (noAnswer, none) := by
  induction recvs with
  | nil => rfl
  | cons r recvs ih =>
    cases r with
    | getHost rsp =>
      rw [recvHost, List.find?_cons]
      by_cases hlt : rsp.seq < seq
      · simp only [hlt, if_true, skips, decide_true, Bool.not_true, ih]
      · simp only [hlt, if_false, skips, decide_false, Bool.not_false, Option.map_some,
          Option.getD_some, outcome, GetHostRsp.result]
    | getRouteByTool rsp => rfl
    | cacheGetRoute rsp => rfl

/-! ## Sequence numbers -/

/-- A new client after some calls that asked the agent. -/
def asked (agentOff : Bool) (calls : List (Int32 × Int32 × Env)) : ElbClient :=
  calls.foldl (fun c call => (c.askHost call.1 call.2.1 call.2.2).1) (new agentOff)

/-- The next sequence number counts them, modulo `2 ^ 32`. -/
theorem seqid_asked (agentOff : Bool) (calls : List (Int32 × Int32 × Env)) :
    (asked agentOff calls).seqid = UInt32.ofNat calls.length := by
  have hfold : ∀ c : ElbClient, (calls.foldl (fun c call =>
      (c.askHost call.1 call.2.1 call.2.2).1) c).seqid = c.seqid + UInt32.ofNat calls.length := by
    induction calls with
    | nil => exact fun c => (UInt32.add_zero _).symm
    | cons call calls ih =>
      intro c
      rw [List.foldl_cons, ih, List.length_cons, UInt32.ofNat_add]
      show c.seqid + 1 + _ = _
      rw [UInt32.add_assoc, UInt32.add_comm 1]
      rfl
  rw [asked, hfold]
  exact UInt32.zero_add _

/-- Request `n` passes over the reply to request `i` if `i` is below `n` modulo `2 ^ 32`. -/
theorem skips_getHost_iff {i n : ℕ} {rsp : GetHostRsp} (h : rsp.seq = UInt32.ofNat i) :
    skips (UInt32.ofNat n) (.getHost rsp) = true ↔ i % 2 ^ 32 < n % 2 ^ 32 := by
  rw [skips, decide_eq_true_eq, h, UInt32.lt_iff_toNat_lt, UInt32.toNat_ofNat', UInt32.toNat_ofNat']

/-! ## Replies in front of the answer -/

/-- The call returns what its answer stands for, and no host of another reply; the answer comes
behind the late replies. -/
structure AnswersOwn (c : ElbClient) (modid cmdid : Int32) (env : Env) (late : List AgentRsp)
    (answer : GetHostRsp) : Prop where
  result : (c.askHost modid cmdid env).2.1 = answer.result
  own : (c.askHost modid cmdid env).2.1.2.isSome = true →
    decisive c.seqid env.recvs = late.length

/-- The first late reply that is not passed over, if there is one, leads to the return code that the
answer has too, without a host: it has the number of the request and names its module and has that
code, or it has not and that code is `-9999`. -/
def Harmless (seq : UInt32) (modid cmdid : Int32) (answer : GetHostRsp) (late : List AgentRsp) :
    Prop :=
  ∀ r ∈ late.find? fun r => !skips seq r, answer.retcode ≠ 0 ∧
    match r with
    | .getHost rsp =>
      if rsp.seq = seq ∧ rsp.modid = modid ∧ rsp.cmdid = cmdid then rsp.retcode = answer.retcode
      else answer.retcode = noAnswer
    | _ => answer.retcode = noAnswer

/-- The outcome of a reply that is not the answer, and is the answer's. -/
theorem outcome_eq_result_iff {seq : UInt32} {modid cmdid : Int32} {answer : GetHostRsp}
    (r : AgentRsp) : (outcome seq modid cmdid r = answer.result ∧
        (outcome seq modid cmdid r).2.isSome = false) ↔
      answer.retcode ≠ 0 ∧
        match r with
        | .getHost rsp =>
          if rsp.seq = seq ∧ rsp.modid = modid ∧ rsp.cmdid = cmdid then
            rsp.retcode = answer.retcode
          else answer.retcode = noAnswer
        | _ => answer.retcode = noAnswer := by
  -- an outcome without a host is that of an answer that carries its code
  have hnone : ∀ code : Int32, code ≠ 0 → ((code, none) = answer.result ↔
      answer.retcode ≠ 0 ∧ answer.retcode = code) := by
    intro code hcode
    rw [GetHostRsp.result]
    split
    · next h0 => simp [h0]
    · next h0 => simp [h0, eq_comm]
  -- what ends the loop without being the answer gives `noAnswer`
  have hother : ((noAnswer, none) = answer.result ∧
      ((noAnswer, none) : Int32 × Option HostAddr).2.isSome = false) ↔
        answer.retcode ≠ 0 ∧ answer.retcode = noAnswer := by
    rw [hnone noAnswer (by decide)]
    simp
  cases r with
  | getHost rsp =>
    rw [outcome]
    by_cases hown : rsp.seq = seq ∧ rsp.modid = modid ∧ rsp.cmdid = cmdid
    · obtain ⟨rfl, rfl, rfl⟩ := hown
      simp only [ne_eq, not_true_eq_false, or_self, if_false, and_self, if_true]
      by_cases h0 : rsp.retcode = 0
      · simp [GetHostRsp.result, h0, eq_comm]
      · rw [show rsp.result = (rsp.retcode, none) from if_neg h0, hnone rsp.retcode h0]
        simp [eq_comm]
    · have hnot : rsp.seq ≠ seq ∨ rsp.modid ≠ modid ∨ rsp.cmdid ≠ cmdid := by
        rwa [not_and_or, not_and_or] at hown
      simp only [if_pos hnot, if_neg hown]
      exact hother
  | getRouteByTool rsp => exact hother
  | cacheGetRoute rsp => exact hother

/-- The call gives the answer behind late replies back as it is exactly when the loop passes over
all of them, or the first other one does no harm. -/
theorem askHost_answersOwn_iff {c : ElbClient} {modid cmdid : Int32} {env : Env}
    {late rest : List AgentRsp} {answer : GetHostRsp} (hseq : answer.seq = c.seqid)
    (hm : answer.modid = modid) (hk : answer.cmdid = cmdid)
    (hrecv : env.recvs = late ++ .getHost answer :: rest) :
    c.AnswersOwn modid cmdid env late answer ↔ Harmless c.seqid modid cmdid answer late := by
  have hanswer : skips c.seqid (.getHost answer) = false := by
    rw [skips, hseq]
    exact decide_eq_false (UInt32.lt_irrefl _)
  have hask : (c.askHost modid cmdid env).2.1 = recvHost c.seqid modid cmdid env.recvs := rfl
  have hiff : c.AnswersOwn modid cmdid env late answer ↔
      recvHost c.seqid modid cmdid env.recvs = answer.result ∧
        ((recvHost c.seqid modid cmdid env.recvs).2.isSome = true →
          decisive c.seqid env.recvs = late.length) :=
    ⟨fun h => ⟨h.result, h.own⟩, fun h => ⟨h.1, h.2⟩⟩
  rw [hiff, recvHost_eq, hrecv, List.find?_append, decisive, List.findIdx_append]
  cases hfind : late.find? fun r => !skips c.seqid r with
  | none =>
    -- all are passed over, and the answer decides
    have hall : late.findIdx (fun r => !skips c.seqid r) = late.length :=
      List.findIdx_eq_length.mpr fun r hr => by simpa using List.find?_eq_none.mp hfind r hr
    have hharm : Harmless c.seqid modid cmdid answer late := by
      rw [Harmless, hfind]
      rintro r ⟨⟩
    refine iff_of_true ⟨?_, fun _ => ?_⟩ hharm
    · rw [List.find?_cons_of_pos (by rw [hanswer]; rfl)]
      exact if_neg (by simp [hseq, hm, hk])
    · rw [if_neg hall.not_lt, List.findIdx_cons, hanswer]
      exact Nat.zero_add _
  | some r =>
    have hr : (!skips c.seqid r) = true := List.find?_some (p := fun r => !skips c.seqid r) hfind
    have hlt : late.findIdx (fun r => !skips c.seqid r) < late.length :=
      List.findIdx_lt_length.mpr ⟨r, List.mem_of_find?_eq_some hfind, hr⟩
    rw [Harmless, hfind, if_pos hlt]
    simp only [Option.some_or, Option.map_some, Option.getD_some, Option.mem_some, forall_eq']
    rw [← outcome_eq_result_iff]
    refine and_congr_right fun _ => ?_
    rw [imp_iff_not hlt.ne, Bool.not_eq_true]

/-- A call that receives these replies. -/
def receiving (recvs : List AgentRsp) : Env := ⟨false, none, 0, 0, none, none, recvs⟩

/-- A client whose first request timed out finds the reply to it in front of its second answer. -/
theorem askHost_answersOwn_second :
    (asked false [(1, 2, receiving [])]).AnswersOwn 1 2
      (receiving [.getHost ⟨0, 1, 2, 0, some ⟨20, 80⟩⟩, .getHost ⟨1, 1, 2, 0, some ⟨10, 80⟩⟩])
      [.getHost ⟨0, 1, 2, 0, some ⟨20, 80⟩⟩] ⟨1, 1, 2, 0, some ⟨10, 80⟩⟩ := by
  have hrecv : (receiving [.getHost ⟨0, 1, 2, 0, some ⟨20, 80⟩⟩,
      .getHost ⟨1, 1, 2, 0, some ⟨10, 80⟩⟩]).recvs = [.getHost ⟨0, 1, 2, 0, some ⟨20, 80⟩⟩] ++
        .getHost ⟨1, 1, 2, 0, some ⟨10, 80⟩⟩ :: [] := rfl
  refine (askHost_answersOwn_iff rfl rfl rfl hrecv).mpr ?_
  rintro r ⟨⟩

/-- The late reply to a refresh of the cache, in front of the answer to the second request, ends the
call. So does the late reply to the last request before the numbers wrap. -/
theorem not_answersOwn :
    ¬(asked false [(1, 2, receiving [])]).AnswersOwn 1 2
        (receiving ([.cacheGetRoute ⟨1, 2, 5, true, [⟨10, 80⟩]⟩] ++
          [.getHost ⟨1, 1, 2, 0, some ⟨10, 80⟩⟩]))
        [.cacheGetRoute ⟨1, 2, 5, true, [⟨10, 80⟩]⟩] ⟨1, 1, 2, 0, some ⟨10, 80⟩⟩ ∧
      ¬(asked false (List.replicate (2 ^ 32) (1, 2, receiving []))).AnswersOwn 1 2
        (receiving ([.getHost ⟨UInt32.ofNat (2 ^ 32 - 1), 1, 2, 0, some ⟨20, 80⟩⟩] ++
          [.getHost ⟨UInt32.ofNat (2 ^ 32), 1, 2, 0, some ⟨10, 80⟩⟩]))
        [.getHost ⟨UInt32.ofNat (2 ^ 32 - 1), 1, 2, 0, some ⟨20, 80⟩⟩]
        ⟨UInt32.ofNat (2 ^ 32), 1, 2, 0, some ⟨10, 80⟩⟩ := by
  constructor
  · exact fun h => absurd h.result (by decide)
  · intro h
    have hseq : (asked false (List.replicate (2 ^ 32) (1, 2, receiving []))).seqid =
        UInt32.ofNat (2 ^ 32) := by rw [seqid_asked, List.length_replicate]
    have hresult := h.result
    rw [askHost] at hresult
    dsimp only at hresult
    rw [hseq] at hresult
    exact absurd hresult (by decide)

end ElbClient

end Elb
