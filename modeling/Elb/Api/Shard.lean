import Elb.Lbagent.RouteLb

/-!
# The shard of a module

Reference: `recvRoute` in `lbagent/src/DssClient.cc`, `initUDPServerIns` in
`lbagent/src/AgentServer.cc`, the calls of `elbClient` in `api/cpp/elbApi/elbApi.cc` and in
`api/python/elbApi/elbClient.py`.

The agent divides the modules among three `RouteLB`s, each with a UDP server of its own. Both
clients and the handler of routes compute the shard of a module by the same formula, but not in the
same arithmetic: an `int` of C++ wraps around and its remainder takes the sign of the dividend,
while the integers of Python are unbounded and its remainder takes the sign of the divisor.
-/

namespace Elb

namespace Shard

variable {R : Type}

/-! ## The formula in each program -/

/-- `int index = (modid + cmdid) % 3` of every call of `elbClient` in C++. -/
def elbApiIndex (modid cmdid : Int32) : Int32 := (modid + cmdid) % 3

/-- `i = (modid + cmdid) % 3` of every call of `elbClient` in Python. -/
def elbClientIndex (modid cmdid : Int32) : ℤ := (modid.toInt + cmdid.toInt) % 3

/-- `int index = (modid + cmdid) % 3` of `recvRoute`. -/
def recvRouteIndex (modid cmdid : Int32) : Int32 := (modid + cmdid) % 3

/-- An access to an array of three; outside of it nothing is defined. -/
def slot (index : ℤ) : Option (Fin 3) :=
  if h : 0 ≤ index ∧ index < 3 then some ⟨index.toNat, by omega⟩ else none

/-- The ports that the three sockets of either client are connected to. -/
def port (i : Fin 3) : ℤ := 8888 + i

/-- The `RouteLB` of the UDP server on a port. -/
def server (routeLB : Fin 3 → RouteLB) (port : ℤ) : Option RouteLB :=
  (slot (port - 8888)).map routeLB

/-- The `RouteLB` that a request of the C++ client reaches. -/
def elbApiServer (modid cmdid : Int32) (routeLB : Fin 3 → RouteLB) : Option RouteLB := do
  let i ← slot (elbApiIndex modid cmdid).toInt
  server routeLB (port i)

/-- The `RouteLB` that a request of the Python client reaches. It computes the port by itself. -/
def elbClientServer (modid cmdid : Int32) (routeLB : Fin 3 → RouteLB) : Option RouteLB :=
  server routeLB (8888 + elbClientIndex modid cmdid)

/-- `recvRoute`: a route from dnsserver goes to the shard of its module. -/
def recvRoute (cfg : LbConfigure R) (now : ℤ) (rsp : GetRouteRsp) (routeLB : Fin 3 → RouteLB) :
    Option (Except Fault (Fin 3 → RouteLB)) := do
  let i ← slot (recvRouteIndex rsp.modid rsp.cmdid).toInt
  return ((routeLB i).update cfg now rsp).map (Function.update routeLB i)

/-! ## When the parties agree -/

/-- The parties compute the same number, and it is 0, 1 or 2. -/
def SameIndex (modid cmdid : Int32) : Prop :=
  ∃ i : Fin 3, (elbApiIndex modid cmdid).toInt = i ∧ elbClientIndex modid cmdid = i ∧
    (recvRouteIndex modid cmdid).toInt = i

/-- Both clients ask one `RouteLB` about the module, and a route of the module is stored there. -/
def StoredWhereServed (cfg : LbConfigure R) (modid cmdid : Int32) : Prop :=
  ∀ now hosts routeLB, ∃ s r, elbApiServer modid cmdid routeLB = some s ∧
    elbClientServer modid cmdid routeLB = some s ∧
    recvRoute cfg now ⟨modid, cmdid, hosts⟩ routeLB = some r ∧
    r.map (fun t => (elbApiServer modid cmdid t, elbClientServer modid cmdid t)) =
      (s.update cfg now ⟨modid, cmdid, hosts⟩).map fun s' => (some s', some s')

/-- The index of a shard is its slot. -/
@[simp] theorem slot_fin (i : Fin 3) : slot i = some i := by
  rw [slot, dif_pos ⟨by omega, by omega⟩]
  rfl

/-- An index that is inside the array is the number of its slot. -/
theorem toInt_of_slot {index : ℤ} {i : Fin 3} (h : slot index = some i) : index = i := by
  rw [slot] at h
  split at h
  · obtain rfl := Option.some.inj h
    exact (Int.toNat_of_nonneg (by omega)).symm
  · cases h

/-- The server on the port of a shard has this shard. -/
@[simp] theorem server_port (routeLB : Fin 3 → RouteLB) (i : Fin 3) :
    server routeLB (port i) = some (routeLB i) := by
  rw [server, port, show (8888 + (i : ℤ) - 8888) = i by omega, slot_fin, Option.map_some]

/-- The index of the C++ programs, as a number. -/
theorem elbApiIndex_toInt (modid cmdid : Int32) : (elbApiIndex modid cmdid).toInt =
    ((modid.toInt + cmdid.toInt).bmod (2 ^ 32)).tmod 3 := by
  rw [elbApiIndex, Int32.toInt_mod, Int32.toInt_add]
  rfl

/-- The sum of two `int`s wraps around at most once. -/
theorem bmod_add (modid cmdid : Int32) :
    (modid.toInt + cmdid.toInt).bmod (2 ^ 32) =
      if modid.toInt + cmdid.toInt < -2 ^ 31 then modid.toInt + cmdid.toInt + 2 ^ 32
      else if modid.toInt + cmdid.toInt < 2 ^ 31 then modid.toInt + cmdid.toInt
      else modid.toInt + cmdid.toInt - 2 ^ 32 := by
  have := modid.le_toInt
  have := modid.toInt_lt
  have := cmdid.le_toInt
  have := cmdid.toInt_lt
  rw [Int.bmod_def]
  split_ifs <;> omega

/-- The parties compute the same number exactly if the sum of the ids is an `int` and is not
negative, or is negative and divisible by 3. -/
theorem sameIndex_iff (modid cmdid : Int32) :
    SameIndex modid cmdid ↔
      0 ≤ modid.toInt + cmdid.toInt ∧ modid.toInt + cmdid.toInt < 2 ^ 31 ∨
      -2 ^ 31 ≤ modid.toInt + cmdid.toInt ∧ modid.toInt + cmdid.toInt < 0 ∧
        3 ∣ modid.toInt + cmdid.toInt := by
  have := modid.le_toInt
  have := modid.toInt_lt
  have := cmdid.le_toInt
  have := cmdid.toInt_lt
  have hsame : recvRouteIndex modid cmdid = elbApiIndex modid cmdid := rfl
  rw [SameIndex, hsame, elbApiIndex_toInt, bmod_add, elbClientIndex]
  constructor
  · rintro ⟨i, hcpp, hpy, -⟩
    rw [Int.tmod_eq_emod] at hcpp
    split_ifs at hcpp <;> omega
  · intro h
    obtain ⟨i, hi⟩ : ∃ i : Fin 3, (i : ℤ) = (modid.toInt + cmdid.toInt) % 3 :=
      ⟨⟨((modid.toInt + cmdid.toInt) % 3).toNat, by omega⟩, Int.toNat_of_nonneg (by omega)⟩
    refine ⟨i, ?_⟩
    rw [Int.tmod_eq_emod]
    split_ifs <;> omega

/-- Where the parties compute the same number, routes are stored where they are asked for. -/
theorem SameIndex.storedWhereServed {modid cmdid : Int32} (h : SameIndex modid cmdid)
    (cfg : LbConfigure R) : StoredWhereServed cfg modid cmdid := by
  obtain ⟨i, hcpp, hpy, hagent⟩ := h
  have hcpp' : ∀ t, elbApiServer modid cmdid t = some (t i) := fun t => by
    rw [elbApiServer, hcpp, slot_fin, Option.bind_eq_bind, Option.bind_some, server_port]
  have hpy' : ∀ t, elbClientServer modid cmdid t = some (t i) := fun t => by
    rw [elbClientServer, hpy]
    exact server_port t i
  intro now hosts routeLB
  refine ⟨routeLB i, _, hcpp' routeLB, hpy' routeLB, by
    rw [recvRoute, hagent, slot_fin]; rfl, ?_⟩
  cases (routeLB i).update cfg now ⟨modid, cmdid, hosts⟩ with
  | error fault => rfl
  | ok s' => simp [Except.map, hcpp', hpy']

/-- All parties agree on the shard of a module exactly if the sum of its ids is an `int` that is not
negative, or is negative and divisible by 3. -/
theorem shard_agrees_iff (cfg : LbConfigure R) (modid cmdid : Int32) :
    SameIndex modid cmdid ∧ StoredWhereServed cfg modid cmdid ↔
      0 ≤ modid.toInt + cmdid.toInt ∧ modid.toInt + cmdid.toInt < 2 ^ 31 ∨
      -2 ^ 31 ≤ modid.toInt + cmdid.toInt ∧ modid.toInt + cmdid.toInt < 0 ∧
        3 ∣ modid.toInt + cmdid.toInt := by
  rw [← sameIndex_iff]
  exact ⟨fun h => h.1, fun h => ⟨h, h.storedWhereServed cfg⟩⟩

/-- The module id -1, which the database holds as `2 ^ 32 - 1`: the agent's index is out of range
and the Python client computes another one. -/
theorem not_sameIndex : (recvRouteIndex (-1) 0).toInt = -1 ∧
    slot (recvRouteIndex (-1) 0).toInt = none ∧
    elbClientIndex (-1) 0 = 2 ∧ ¬SameIndex (-1) 0 := by
  refine ⟨by decide, by decide, by decide, ?_⟩
  rintro ⟨i, hcpp, -⟩
  have hneg : (elbApiIndex (-1) 0).toInt = -1 := by decide
  omega

end Shard

end Elb
