import Elb.Api.PyStaticRoute
import Elb.Deployment.Provenance

/-!
# Hosts that are shown while the agent is off

Reference: `RouteLB::persistRoute` in `lbagent/src/RouteLb.cc`, `elbClient::apiGetHost` in
`api/cpp/elbApi/elbApi.cc`, `api/cpp/elbApi/StaticRoute.h`, `api/python/elbApi/StaticRoute.py`.

The shards of a machine write their routes to files, and the clients of the machine get their hosts
from the files while they take the agent for dead. A file is truncated when it is opened, and filled
in place through a buffer of stdio. So a client that reads meanwhile may find a file cut off
anywhere, or begun in one text and continued in another. `Seen` allows all of this. A file that ends
within a line can name a host that nobody has put on line, so the result is about runs in which
every file that is loaded was cut off, if at all, behind a line. What is made of the others is in
`Elb.Api.DamagedFile`.
-/

namespace Elb

open Transition

variable {R : Type} [RateArith R] {cfg : LbConfigure R} {P Q : Int32 → Int32 → HostAddr → Prop}

/-! ## The files -/

/-- Each file is missing or has printed records, and the hosts of all records have the property. -/
def Disk.Vouched (P : Int32 → Int32 → HostAddr → Prop) (disk : Disk) : Prop :=
  ∃ rss, disk = Fallbacks.files rss ∧
    ∀ n, ∀ rs ∈ rss n, ∀ p ∈ rs, P p.1.modid p.1.cmdid p.2.addr

/-- The records of a table name its modules and hosts. -/
theorem RouteLB.Vouched.records {s : RouteLB} (h : s.Vouched P) (hinv : s.Inv cfg) :
    ∀ p ∈ StaticRoute.records s, P p.1.modid p.1.cmdid p.2.addr := by
  intro p hp
  obtain ⟨e, he, hp⟩ := List.mem_flatMap.mp hp
  obtain ⟨hi, hmem, rfl⟩ := List.mem_map.mp hp
  have hk := HashMap.mem_entries_iff.mp he
  rw [← hinv.key_eq e.1 e.2 hk] at hk
  exact h.route hinv hk hi.addr (List.mem_map_of_mem hmem)

/-- So does all that is read from the files. -/
theorem Disk.Vouched.hostsOf {rss : ℕ → Option (List (LB × HI))}
    (h : ∀ n, ∀ rs ∈ rss n, ∀ p ∈ rs, P p.1.modid p.1.cmdid p.2.addr) (ns : List ℕ)
    (modid cmdid : Int32) :
    ∀ host ∈ StaticRoute.hostsOf (ns.flatMap fun n => (rss n).getD []) modid cmdid,
      P modid cmdid host := by
  intro host hmem
  obtain ⟨p, hp, rfl⟩ := List.mem_map.mp hmem
  obtain ⟨hread, hids⟩ := List.mem_filter.mp hp
  obtain ⟨rfl, rfl⟩ := of_decide_eq_true hids
  obtain ⟨n, -, hread⟩ := List.mem_flatMap.mp hread
  cases hn : rss n with
  | none =>
    rw [hn] at hread
    cases hread
  | some rs =>
    rw [hn] at hread
    exact h n rs hn p hread

/-- A printed file that is cut off behind a line has the first of its records. -/
theorem StaticRoute.exists_take_of_isPrefix {rs : List (LB × HI)} {text : List Char}
    (hpre : text <+: printRecords rs) (hend : ∀ c ∈ text.getLast?, c = '\n') :
    ∃ n, text = printRecords (rs.take n) := by
  have hne : ∀ row ∈ rs.map fun p => p.1.row p.2, row ≠ [] := by
    intro row hrow
    obtain ⟨p, -, rfl⟩ := List.mem_map.mp hrow
    exact List.cons_ne_nil _ _
  obtain ⟨n, rfl⟩ := TextFile.exists_take_of_isPrefix hne hpre hend
  exact ⟨n, by rw [printRecords, List.map_take]⟩

/-! ## The two classes -/

/-- What the C++ class has loaded. -/
def StaticRoute.Vouched (P : Int32 → Int32 → HostAddr → Prop) (s : StaticRoute) : Prop :=
  ∀ modid cmdid hosts, s.route.lookup (packKey modid cmdid) = some hosts →
    ∀ a ∈ hosts, ∃ host, a = live host ∧ P modid cmdid host

/-- What the Python class has loaded. -/
def PyStaticRoute.Vouched (P : Int32 → Int32 → HostAddr → Prop) (s : PyStaticRoute) : Prop :=
  ∀ route, s.route = some route → ∀ modid cmdid : Int32, ∀ hosts,
    route.lookup (modid.toInt, cmdid.toInt) = some hosts →
      ∀ a ∈ hosts, ∃ host : HostAddr, a = (host.ip.toInt, host.port.toInt) ∧ P modid cmdid host

namespace StaticRoute.Vouched

variable {s s' : StaticRoute} {disk : Disk}

/-- `P` may be weakened. -/
theorem mono (h : s.Vouched P) (hPQ : ∀ m k host, P m k host → Q m k host) : s.Vouched Q := by
  intro modid cmdid hosts hk a ha
  obtain ⟨host, heq, hP⟩ := h modid cmdid hosts hk a ha
  exact ⟨host, heq, hPQ _ _ host hP⟩

/-- A class that has loaded nothing. -/
theorem empty : Vouched P ⟨∅⟩ := by
  rintro modid cmdid hosts ⟨⟩

/-- The map that is loaded. -/
theorem load (hdisk : disk.Vouched P) {route : HashMap UInt64 (List HostType)}
    (hload : [1, 2, 3].foldlM (loadFile disk) ∅ = some route) : Vouched P ⟨route⟩ := by
  obtain ⟨rss, rfl, hrss⟩ := hdisk
  rw [Fallbacks.foldlM_loadFile_files] at hload
  obtain rfl := Option.some.inj hload
  intro modid cmdid hosts hk a ha
  dsimp only at hk
  rw [load_lookup] at hk
  split at hk
  · cases hk
  · obtain rfl := Option.some.inj hk
    obtain ⟨host, hmem, rfl⟩ := List.mem_map.mp ha
    exact ⟨host, rfl, Disk.Vouched.hostsOf hrss _ modid cmdid host hmem⟩

/-- `getHost` answers from what it has loaded, or loads it first. -/
theorem getHost (h : s.Vouched P) (hdisk : disk.Vouched P) {rand : ℕ} {modid cmdid : Int32}
    {answer : Option HostType} (hget : s.getHost disk rand modid cmdid = some (s', answer)) :
    s'.Vouched P ∧ ∀ a ∈ answer, ∃ host, a = live host ∧ P modid cmdid host := by
  rw [getHost_eq, find] at hget
  obtain ⟨⟨s₁, hosts⟩, hfind, hget⟩ := Option.bind_eq_some_iff.mp hget
  obtain ⟨hs₁, rfl⟩ : s₁.Vouched P ∧ hosts = s₁.route.lookup (packKey modid cmdid) := by
    split at hfind
    · next hempty =>
      obtain ⟨route, hload, heq⟩ := Option.bind_eq_some_iff.mp hfind
      obtain ⟨rfl, rfl⟩ := Prod.mk.inj (Option.some.inj heq)
      have hnone : s.route = ∅ := AList.ext (List.isEmpty_iff.mp hempty)
      rw [hnone] at hload
      exact ⟨.load hdisk hload, rfl⟩
    · obtain ⟨rfl, rfl⟩ := Prod.mk.inj (Option.some.inj hfind)
      exact ⟨h, rfl⟩
  dsimp only at hget
  split at hget
  · cases hget
    exact ⟨hs₁, by simp⟩
  · next hosts hk =>
    obtain ⟨host, hhost, heq⟩ := Option.map_eq_some_iff.mp hget
    cases heq
    refine ⟨hs₁, ?_⟩
    rintro _ ⟨⟩
    exact hs₁ modid cmdid hosts hk host (List.mem_of_getElem? hhost)

end StaticRoute.Vouched

namespace PyStaticRoute.Vouched

variable {s s' : PyStaticRoute} {disk : Disk}

/-- `P` may be weakened. -/
theorem mono (h : s.Vouched P) (hPQ : ∀ m k host, P m k host → Q m k host) : s.Vouched Q := by
  intro route hroute modid cmdid hosts hk a ha
  obtain ⟨host, heq, hP⟩ := h route hroute modid cmdid hosts hk a ha
  exact ⟨host, heq, hPQ _ _ host hP⟩

/-- A client that has not loaded its class yet. -/
theorem none : Vouched P ⟨.none⟩ := by
  rintro route ⟨⟩

/-- The map that is loaded, up to the first file that is missing. -/
theorem load (hdisk : disk.Vouched P) {route : HashMap (ℤ × ℤ) (List (ℤ × ℤ))} {opened : Bool}
    (hload : loadFiles disk ∅ [1, 2, 3] = some (route, opened)) : Vouched P ⟨some route⟩ := by
  obtain ⟨rss, rfl, hrss⟩ := hdisk
  rw [Fallbacks.loadFiles_files] at hload
  obtain ⟨rfl, -⟩ := Prod.mk.inj (Option.some.inj hload)
  rintro _ ⟨⟩ modid cmdid hosts hk a ha
  rw [load_lookup] at hk
  split at hk
  · cases hk
  · obtain rfl := Option.some.inj hk
    obtain ⟨host, hmem, rfl⟩ := List.mem_map.mp ha
    exact ⟨host, rfl, Disk.Vouched.hostsOf hrss _ modid cmdid host hmem⟩

/-- `getHost` answers from what it has loaded, or loads it first. -/
theorem getHost (h : s.Vouched P) (hdisk : disk.Vouched P) {choice : ℕ} {modid cmdid : Int32}
    {answer : Option (List UInt8 × ℤ)}
    (hget : s.getHost disk choice modid cmdid = some (s', answer)) : s'.Vouched P ∧
      ∀ a ∈ answer, ∃ host, a = ((StaticRoute.live host).1, (StaticRoute.live host).2.toInt) ∧
        P modid cmdid host := by
  rw [PyStaticRoute.getHost] at hget
  obtain ⟨⟨s₁, hosts⟩, hfind, hget⟩ := Option.bind_eq_some_iff.mp hget
  -- the list that `random.choice` gets
  obtain ⟨hs₁, hhosts⟩ : s₁.Vouched P ∧ ∀ hosts' ∈ hosts, ∀ a ∈ hosts', ∃ host : HostAddr,
      a = (host.ip.toInt, host.port.toInt) ∧ P modid cmdid host := by
    rw [find] at hfind
    split at hfind
    · obtain ⟨⟨route, opened⟩, hload, heq⟩ := Option.bind_eq_some_iff.mp hfind
      obtain ⟨rfl, rfl⟩ := Prod.mk.inj (Option.some.inj heq)
      have hroute : Vouched P ⟨some route⟩ := .load hdisk hload
      refine ⟨hroute, fun hosts' hmem => ?_⟩
      cases opened with
      | true => exact hroute route rfl modid cmdid hosts' hmem
      | false => cases hmem
    · obtain ⟨rfl, rfl⟩ := Prod.mk.inj (Option.some.inj hfind)
      refine ⟨h, fun hosts' hmem => ?_⟩
      obtain ⟨route, hroute, hk⟩ := Option.bind_eq_some_iff.mp hmem
      exact h route hroute modid cmdid hosts' hk
  cases hosts with
  | none =>
    cases hget
    exact ⟨hs₁, by simp⟩
  | some hosts =>
    obtain ⟨a, ha, hget⟩ := Option.bind_eq_some_iff.mp hget
    obtain ⟨addr, haddr, heq⟩ := Option.bind_eq_some_iff.mp hget
    cases heq
    obtain ⟨host, rfl, hP⟩ := hhosts hosts rfl a (List.mem_of_getElem? ha)
    rw [address_addr] at haddr
    refine ⟨hs₁, ?_⟩
    rintro _ ⟨⟩
    exact ⟨host, (Option.some.inj haddr).symm, hP⟩

end PyStaticRoute.Vouched

/-! ## The machines -/

/-- The machines of the shards, of the C++ clients and of the Python clients. -/
structure Places (μ κ ι ν : Type) where
  shard : κ → μ
  client : ι → μ
  python : ν → μ

/-- A deployment with the files of its machines, `_staticRoute` of each C++ client and the objects
of the Python class. `texts` holds every text that was ever written to a file, from its start. -/
structure Offline (n : ℕ) (μ κ ι ν : Type) where
  parts : Deployment n κ ι
  texts : μ → ℕ → List (List Char)
  staticRoute : ι → StaticRoute
  python : ν → PyStaticRoute

namespace Offline

variable {n : ℕ} {μ κ ι ν : Type}

/-- What happens next: anything but a call of `apiGetHost`, the two halves of `persistRoute` on the
timer of a shard, `apiGetHost` of a C++ client, and the calls of a Python object. A call comes with
what it finds in the files. -/
inductive Event (n : ℕ) (κ ι ν : Type)
  | parts (e : Deployment.Event n κ ι)
  | fopen (k : κ)
  | persistRoute (k : κ)
  | getHost (i : ι) (modid cmdid : Int32) (env : ElbClient.Env) (answer : Int32 × Option HostAddr)
    (disk : Disk)
  | pyGetHost (j : ν) (modid cmdid : Int32) (answer : Option (List UInt8 × ℤ)) (disk : Disk)
  | pyFreeData (j : ν)

/-- What may be found in the files of the machine at any time: a file is missing, or each character
is where one of the texts has it. -/
def Seen (s : Offline n μ κ ι ν) (m : μ) (disk : Disk) : Prop :=
  ∀ k, ∀ text ∈ disk k, s.texts m k ≠ [] ∧
    ∀ (i : ℕ) (c : Char), text[i]? = some c → ∃ whole ∈ s.texts m k, whole[i]? = some c

/-- Each file that is found is the beginning of one text, up to the end of a line. -/
def WholeLines (s : Offline n μ κ ι ν) (m : μ) (disk : Disk) : Prop :=
  ∀ k, ∀ text ∈ disk k, (∃ whole ∈ s.texts m k, text <+: whole) ∧
    ∀ c ∈ text.getLast?, c = '\n'

/-- What has been written to the files after the table was. -/
def persisted (table : RouteLB) (texts : ℕ → List (List Char)) (k : ℕ) : List (List Char) :=
  texts k ++ (table.persistRoute true (fun _ => none) k).toList

/-- One step. `fopen` truncates the file, as if a table without modules were written, and the mutex
is taken after that. `apiGetHost` frees what the static route has loaded if the agent is alive. -/
inductive Step [DecidableEq μ] [DecidableEq κ] [DecidableEq ι] [DecidableEq ν] (cfg : LbConfigure R)
    (ws : ℤ) (places : Places μ κ ι ν) (s : Offline n μ κ ι ν) :
    Event n κ ι ν → Offline n μ κ ι ν → Prop
  | parts {e : Deployment.Event n κ ι} {p : Deployment n κ ι}
      (he : ∀ i modid cmdid env answer, e ≠ .getHost i modid cmdid env answer)
      (h : Deployment.Step cfg ws s.parts e p) :
      Step cfg ws places s (.parts e) { s with parts := p }
  | fopen (k : κ) : Step cfg ws places s (.fopen k) { s with
      texts := Function.update s.texts (places.shard k)
        (persisted (.new (s.parts.shard k).id) (s.texts (places.shard k))) }
  | persistRoute (k : κ) : Step cfg ws places s (.persistRoute k) { s with
      texts := Function.update s.texts (places.shard k)
        (persisted (s.parts.shard k) (s.texts (places.shard k))) }
  | getHost {i : ι} {modid cmdid : Int32} {env : ElbClient.Env} {answer : Int32 × Option HostAddr}
      {p : Deployment n κ ι} {disk : Disk} {rand : ℕ} {st : StaticRoute}
      (h : Deployment.Step cfg ws s.parts (.getHost i modid cmdid env answer) p)
      (hseen : s.Seen (places.client i) disk)
      (hdie : env.die = true → (s.staticRoute i).getHost disk rand modid cmdid =
        some (st, env.staticHost.map StaticRoute.live))
      (halive : env.die = false → st = StaticRoute.freeData) :
      Step cfg ws places s (.getHost i modid cmdid env answer disk)
        { s with parts := p, staticRoute := Function.update s.staticRoute i st }
  | pyGetHost {j : ν} {modid cmdid : Int32} {answer : Option (List UInt8 × ℤ)} {disk : Disk}
      {choice : ℕ} {st : PyStaticRoute} (hseen : s.Seen (places.python j) disk)
      (h : (s.python j).getHost disk choice modid cmdid = some (st, answer)) :
      Step cfg ws places s (.pyGetHost j modid cmdid answer disk)
        { s with python := Function.update s.python j st }
  | pyFreeData (j : ν) : Step cfg ws places s (.pyFreeData j)
      { s with python := Function.update s.python j PyStaticRoute.freeData }

/-- No file ends within a line when a call finds it. -/
def ReadsLines (places : Places μ κ ι ν) (s : Offline n μ κ ι ν) : Event n κ ι ν → Prop
  | .getHost i _ _ env _ disk => env.die = true → s.WholeLines (places.client i) disk
  | .pyGetHost j _ _ _ disk => s.WholeLines (places.python j) disk
  | _ => True

variable [DecidableEq μ] [DecidableEq κ] [DecidableEq ι] [DecidableEq ν]

/-- Runs from empty tables and without files. -/
def system (cfg : LbConfigure R) (ws : ℤ) (places : Places μ κ ι ν) :
    System (Offline n μ κ ι ν) (Event n κ ι ν) where
  init s := (Deployment.system cfg ws).init s.parts ∧ (∀ m k, s.texts m k = []) ∧
    (∀ i, s.staticRoute i = .new) ∧ ∀ j, s.python j = .new
  step := Step cfg ws places

/-- What a step shows to the business. -/
def Event.Shows (P : Int32 → Int32 → HostAddr → Prop) : Event n κ ι ν → Prop
  | .parts e => e.Shows P
  | .getHost _ modid cmdid _ answer _ => ∀ host, answer.2 = some host → P modid cmdid host
  | .pyGetHost _ modid cmdid answer _ => ∀ a ∈ answer, ∃ host,
      a = ((StaticRoute.live host).1, (StaticRoute.live host).2.toInt) ∧ P modid cmdid host
  | _ => True

/-- Every text names only hosts that went on line, and so does all that was loaded. -/
structure Inv (cfg : LbConfigure R) (s : Offline n μ κ ι ν) : Prop where
  parts : s.parts.Inv cfg
  texts : ∀ m k, ∀ text ∈ s.texts m k, ∃ rs, text = StaticRoute.printRecords rs ∧
    ∀ p ∈ rs, s.parts.db.WentOnline p.1.modid p.1.cmdid p.2.addr
  staticRoute : ∀ i, (s.staticRoute i).Vouched s.parts.db.WentOnline
  python : ∀ j, (s.python j).Vouched s.parts.db.WentOnline

variable {s s' : Offline n μ κ ι ν} {ws : ℤ} {places : Places μ κ ι ν}

omit [DecidableEq μ] [DecidableEq κ] [DecidableEq ι] [DecidableEq ν] in
/-- Whole lines that a client finds are records that tables have written. -/
theorem Inv.vouched (h : s.Inv cfg) {m : μ} {disk : Disk} (hlines : s.WholeLines m disk) :
    disk.Vouched s.parts.db.WentOnline := by
  have hfile : ∀ k, ∃ rs : Option (List (LB × HI)), disk k = rs.map StaticRoute.printRecords ∧
      ∀ rs' ∈ rs, ∀ p ∈ rs', s.parts.db.WentOnline p.1.modid p.1.cmdid p.2.addr := by
    intro k
    cases hk : disk k with
    | none => exact ⟨none, rfl, by simp⟩
    | some text =>
      obtain ⟨⟨whole, hmem, hpre⟩, hend⟩ := hlines k text hk
      obtain ⟨rs, rfl, hvouched⟩ := h.texts m k whole hmem
      -- what is left of the text are its first records
      obtain ⟨n, rfl⟩ := StaticRoute.exists_take_of_isPrefix hpre hend
      refine ⟨some (rs.take n), rfl, ?_⟩
      rintro _ ⟨⟩ p hp
      exact hvouched p (List.mem_of_mem_take hp)
  choose rss htext hvouched using hfile
  exact ⟨rss, funext htext, hvouched⟩

omit [DecidableEq μ] [DecidableEq κ] [DecidableEq ι] [DecidableEq ν] in
/-- The other parts of the system go on, and what went on line stays so. -/
theorem Inv.setParts (h : s.Inv cfg) {p : Deployment n κ ι} (hp : p.Inv cfg)
    (hhist : ∀ t ∈ s.parts.db.history, t ∈ p.db.history) : Inv cfg { s with parts := p } := by
  have hmono : ∀ m k host, s.parts.db.WentOnline m k host → p.db.WentOnline m k host :=
    fun _ _ _ => Db.WentOnline.of_history hhist
  refine ⟨hp, fun m k text hmem => ?_, fun i => (h.staticRoute i).mono hmono,
    fun j => (h.python j).mono hmono⟩
  obtain ⟨rs, heq, hvouched⟩ := h.texts m k text hmem
  exact ⟨rs, heq, fun p hp => hmono _ _ _ (hvouched p hp)⟩

omit [DecidableEq μ] [DecidableEq κ] [DecidableEq ν] in
/-- The static route of one client changes. -/
theorem Inv.setStaticRoute (h : s.Inv cfg) (i : ι) {st : StaticRoute}
    (hst : st.Vouched s.parts.db.WentOnline) :
    Inv cfg { s with staticRoute := Function.update s.staticRoute i st } := by
  refine ⟨h.parts, h.texts, fun i' => ?_, h.python⟩
  dsimp only
  rw [Function.update_apply]
  split
  · exact hst
  · exact h.staticRoute i'

omit [DecidableEq μ] [DecidableEq κ] [DecidableEq ι] in
/-- One object of the Python class changes. -/
theorem Inv.setPython (h : s.Inv cfg) (j : ν) {st : PyStaticRoute}
    (hst : st.Vouched s.parts.db.WentOnline) :
    Inv cfg { s with python := Function.update s.python j st } := by
  refine ⟨h.parts, h.texts, h.staticRoute, fun j' => ?_⟩
  dsimp only
  rw [Function.update_apply]
  split
  · exact hst
  · exact h.python j'

/-- A table is written to its file. -/
theorem mem_persisted {table : RouteLB} {texts : ℕ → List (List Char)} {k : ℕ} {text : List Char}
    (h : text ∈ persisted table texts k) : text ∈ texts k ∨ text = table.persist := by
  rcases List.mem_append.mp h with h | h
  · exact .inl h
  · right
    rw [RouteLB.persistRoute] at h
    split at h
    · rw [Function.update_apply] at h
      split at h
      · exact List.mem_singleton.mp h
      · cases h
    · cases h

omit [DecidableEq κ] [DecidableEq ι] [DecidableEq ν] in
/-- A table of hosts that went on line is written to the files of a machine. -/
theorem Inv.persisted (h : s.Inv cfg) (m : μ) {table : RouteLB} (hinv : table.Inv cfg)
    (hvouched : table.Vouched s.parts.db.WentOnline) : Inv cfg { s with
      texts := Function.update s.texts m (persisted table (s.texts m)) } := by
  refine ⟨h.parts, fun m' k text hmem => ?_, h.staticRoute, h.python⟩
  dsimp only at hmem
  rw [Function.update_apply] at hmem
  split at hmem
  · rcases mem_persisted hmem with hmem | rfl
    · exact h.texts m k text hmem
    · exact ⟨_, StaticRoute.persist_eq table, hvouched.records hinv⟩
  · exact h.texts m' k text hmem

end Offline

/-- Nothing is taken out of the history. -/
theorem Deployment.Step.history {n : ℕ} {κ ι : Type} [DecidableEq κ] [DecidableEq ι] {ws : ℤ}
    {s s' : Deployment n κ ι} {e : Deployment.Event n κ ι} (hs : Deployment.Step cfg ws s e s') :
    ∀ t ∈ s.db.history, t ∈ s'.db.history := by
  intro t ht
  cases hs with
  | commit t' => exact List.mem_append_left _ ht
  | load ok now hok =>
    dsimp only
    rwa [(s.loader.query_routes ws ok now s.db).2]
  | _ => exact ht

/-- While the agent is taken for dead, `apiGetHost` shows the host of the static route. -/
theorem ElbClient.staticHost_of_die {c c' : ElbClient} {modid cmdid : Int32} {env : ElbClient.Env}
    {answer : Int32 × Option HostAddr} {sent : List AgentReq} (hdie : env.die = true)
    (h : c.apiGetHost modid cmdid env = some (c', answer, sent)) : answer.2 = env.staticHost := by
  rw [ElbClient.apiGetHost, if_pos hdie] at h
  split at h
  · next hnone =>
    cases h
    exact hnone.symm
  · next host hhost =>
    cases h
    exact hhost.symm

namespace Offline

variable {n : ℕ} {μ κ ι ν : Type} [DecidableEq μ] [DecidableEq κ] [DecidableEq ι] [DecidableEq ν]
  {s s' : Offline n μ κ ι ν} {ws : ℤ} {places : Places μ κ ι ν}

/-- A step that reads whole lines keeps the invariant, and shows the business only hosts that went
on line. -/
theorem Inv.step {e : Event n κ ι ν} (h : s.Inv cfg) (hc : ReadsLines places s e)
    (hs : Step cfg ws places s e s') : s'.Inv cfg ∧ e.Shows s.parts.db.WentOnline := by
  cases hs with
  | parts he hp =>
    obtain ⟨hinv, hshows⟩ := h.parts.step hp
    exact ⟨h.setParts hinv hp.history, hshows⟩
  | fopen k => exact ⟨h.persisted _ (RouteLB.inv_new _) (.new _), trivial⟩
  | persistRoute k => exact ⟨h.persisted _ (h.parts.shard_inv k) (h.parts.shard k), trivial⟩
  | @getHost i modid cmdid env answer p disk rand st hp hseen hdie halive =>
    obtain ⟨hinv, hshows⟩ := h.parts.step hp
    obtain ⟨hst, hstatic⟩ : st.Vouched s.parts.db.WentOnline ∧
        ∀ host, answer.2 = some host → s.parts.db.WentOnline modid cmdid host := by
      cases henv : env.die with
      | false =>
        rw [halive henv]
        exact ⟨.empty, hshows henv⟩
      | true =>
        obtain ⟨hst, hans⟩ := (h.staticRoute i).getHost (h.vouched (hc henv)) (hdie henv)
        refine ⟨hst, fun host hhost => ?_⟩
        cases hp with
        | getHost hrecv hcall =>
          rw [ElbClient.staticHost_of_die henv hcall] at hhost
          obtain ⟨host', heq, hP⟩ := hans (StaticRoute.live host) (by rw [hhost]; rfl)
          exact StaticRoute.live_inj heq ▸ hP
    exact ⟨(h.setStaticRoute i hst).setParts hinv hp.history, hstatic⟩
  | @pyGetHost j modid cmdid answer disk choice st hseen hget =>
    obtain ⟨hst, hans⟩ := (h.python j).getHost (h.vouched hc) hget
    exact ⟨h.setPython j hst, hans⟩
  | pyFreeData j => exact ⟨h.setPython j .none, trivial⟩

/-- The invariant of every run in which only whole lines are read. -/
theorem inv_of_reachable (h : ((system cfg ws places).restrict (ReadsLines places)).Reachable s) :
    s.Inv cfg := by
  refine h.invariant ?_ fun _ _ _ _ ih hs => (ih.step hs.1 hs.2).1
  rintro s ⟨hparts, htexts, hstatic, hpython⟩
  refine ⟨Deployment.inv_of_reachable (.init hparts), fun m k text hmem => ?_, fun i => ?_,
    fun j => ?_⟩
  · rw [htexts] at hmem
    cases hmem
  · rw [hstatic]
    exact .empty
  · rw [hpython]
    exact .none

/-- In every run in which no file ends within a line when it is loaded, each host that a call of the
C++ client gives to the business, whether it takes the agent for dead or not, and each that an
object of the Python class gives, was put on line for the module by an operator. -/
theorem static_hosts_wentOnline
    (h : ((system cfg ws places).restrict (ReadsLines places)).Reachable s) {e : Event n κ ι ν}
    (hs : ((system cfg ws places).restrict (ReadsLines places)).step s e s') :
    e.Shows s.parts.db.WentOnline :=
  ((inv_of_reachable h).step hs.1 hs.2).2

/-- A step of the other parts, which reads no file. -/
theorem reachable_parts
    (h : ((system cfg ws places).restrict (ReadsLines places)).Reachable s)
    {e : Deployment.Event n κ ι} {p : Deployment n κ ι} (hp : Deployment.Step cfg ws s.parts e p)
    (he : ∀ i modid cmdid env answer, e ≠ .getHost i modid cmdid env answer) :
    ((system cfg ws places).restrict (ReadsLines places)).Reachable { s with parts := p } :=
  h.step (e := .parts e) ⟨trivial, .parts he hp⟩

/-- A step of dnsserver. -/
theorem reachable_serve
    (h : ((system cfg ws places).restrict (ReadsLines places)).Reachable s) (op : Server.Op n)
    (hboot : s.parts.loader.Booted) (hop : Deployment.OfLoops op)
    (hok : s.parts.server.Allowed op) :
    ((system cfg ws places).restrict (ReadsLines places)).Reachable { s with parts := { s.parts with
      server := s.parts.server.next op, routes := s.parts.routes ++ s.parts.server.sends op } } :=
  reachable_parts h (.serve hboot hop hok) (by simp)

/-- One machine with one shard and one client of each kind. -/
def onePlace : Places Unit Unit Unit Unit := ⟨id, id, id⟩

/-- The shard has got the route of a module with one host, and writes it to its file. -/
theorem exists_persisted : ∃ s : Offline 1 Unit Unit Unit Unit,
    ((system LbConfigure.default 10 onePlace).restrict (ReadsLines onePlace)).Reachable s ∧
      Deployment.routedShard.persist ∈ s.texts () 1 ∧ s.staticRoute () = .new ∧
        s.parts.client () = .new true := by
  have h₀ : ((system LbConfigure.default 10 onePlace).restrict (ReadsLines onePlace)).Reachable
      ⟨Deployment.start, fun _ _ => [], fun _ => .new, fun _ => .new⟩ :=
    .init ⟨⟨rfl, rfl, rfl, rfl, rfl, fun _ => ⟨1, rfl⟩, rfl, fun _ => ⟨true, rfl⟩⟩, fun _ _ => rfl,
      fun _ => rfl, fun _ => rfl⟩
  have h₁ := reachable_parts h₀ (.commit ⟨true, ⟨1, 2, 10, 80⟩, 5⟩) (by simp)
  have h₂ := reachable_parts h₁ (.load true 6 (by rintro op ⟨⟩)) (by simp)
  have h₃ := reachable_parts h₂ (.load true 6 (by rintro op ⟨⟩; rfl)) (by simp)
  have h₄ := reachable_serve h₃ (.accept 5 0) ⟨nofun, nofun, nofun⟩ trivial
    ⟨rfl, rfl, fun _ => rfl⟩
  have h₅ := reachable_serve h₄ (.request 5 1 2) ⟨nofun, nofun, nofun⟩ trivial
    (by rintro c ⟨⟩; rfl)
  have h₆ := reachable_serve h₅ (.work 0) ⟨nofun, nofun, nofun⟩ trivial trivial
  have h₇ := reachable_serve h₆ (.work 0) ⟨nofun, nofun, nofun⟩ trivial trivial
  have h₈ := reachable_serve h₇ (.work 0) ⟨nofun, nofun, nofun⟩ trivial trivial
  have hask : (RouteLB.new 1).exec LbConfigure.default 7 (.getHost ⟨0, 1, 2⟩) =
      .ok ((RouteLB.create (.new 1) 1 2).1, _) := rfl
  have h₉ := reachable_parts h₈ (.agent (k := ()) (by simp) hask) (by simp)
  simp only [Deployment.update_unit] at h₉
  have hroute : (RouteLB.create (.new 1) 1 2).1.exec LbConfigure.default 8
      (.update Deployment.hostRoute) = .ok (Deployment.routedShard, _) := rfl
  have h₁₀ := reachable_parts h₉ (.agent (k := ())
    (by rintro rsp ⟨⟩; exact List.mem_singleton.mpr rfl) hroute) (by simp)
  simp only [Deployment.update_unit] at h₁₀
  have h₁₁ := h₁₀.step (e := (.fopen () : Event 1 Unit Unit Unit)) ⟨trivial, .fopen ()⟩
  exact ⟨_, h₁₁.step (e := (.persistRoute () : Event 1 Unit Unit Unit)) ⟨trivial, .persistRoute ()⟩,
    List.mem_append_right _ (List.mem_singleton.mpr rfl), rfl, rfl⟩

/-- A call of a client that takes the agent for dead. -/
def offCall : ElbClient.Env where
  die := true
  staticHost := some ⟨10, 80⟩
  now := 10
  mills := 0
  first := none
  again := none
  recvs := []

/-- What the static route answers from the file. -/
theorem getHost_routedShard : ∃ st, StaticRoute.new.getHost
    (fun k => if k = 1 then some Deployment.routedShard.persist else none) 0 1 2 =
      some (st, offCall.staticHost.map StaticRoute.live) := by
  have hget : ((StaticRoute.new.getHost
      (fun k => if k = 1 then some Deployment.routedShard.persist else none) 0 1 2).map
        fun p => p.2) = some (offCall.staticHost.map StaticRoute.live) := by
    decide +kernel
  obtain ⟨⟨st, answer⟩, hget, heq⟩ := Option.map_eq_some_iff.mp hget
  exact ⟨st, hget.trans (congrArg (fun a => some (st, a)) heq)⟩

/-- The host comes from the file while the agent is off. -/
theorem static_hosts_wentOnline_agent_off : ∃ (s s' : Offline 1 Unit Unit Unit Unit) (disk : Disk),
    (system LbConfigure.default 10 onePlace).step s
        (.getHost () 1 2 offCall (0, some ⟨10, 80⟩) disk) s' ∧
      s.parts.db.WentOnline 1 2 ⟨10, 80⟩ := by
  obtain ⟨s, h, htext, hstatic, hclient⟩ := exists_persisted
  obtain ⟨st, hget⟩ := getHost_routedShard
  have hcall : ∃ c sent, (s.parts.client ()).apiGetHost 1 2 offCall =
      some (c, (0, some ⟨10, 80⟩), sent) := ⟨_, _, rfl⟩
  obtain ⟨c, sent, hcall⟩ := hcall
  -- the client finds the file as the shard has left it
  have hfound : ∀ k, ∀ text ∈ (fun k => if k = 1 then some Deployment.routedShard.persist else none :
      Disk) k, text = Deployment.routedShard.persist ∧ text ∈ s.texts () k := by
    intro k text hmem
    dsimp only at hmem
    split at hmem
    · next hk =>
      cases hmem
      exact ⟨rfl, hk ▸ htext⟩
    · cases hmem
  have hseen : s.Seen () fun k => if k = 1 then some Deployment.routedShard.persist else none :=
    fun k text hmem => ⟨List.ne_nil_of_mem (hfound k text hmem).2,
      fun i c hc => ⟨text, (hfound k text hmem).2, hc⟩⟩
  have hlines : s.WholeLines ()
      fun k => if k = 1 then some Deployment.routedShard.persist else none := by
    intro k text hmem
    obtain ⟨rfl, hold⟩ := hfound k text hmem
    exact ⟨⟨_, hold, List.prefix_rfl⟩,
      StaticRoute.persist_eq _ ▸ TextFile.eq_newline_of_getLast? _⟩
  have hrecv : ∀ rsp, offCall.Receives rsp → rsp ∈ s.parts.replies := by
    rintro rsp (⟨⟨⟩⟩ | ⟨⟨⟩⟩ | ⟨⟨⟩⟩)
  have hstep : ((system LbConfigure.default 10 onePlace).restrict (ReadsLines onePlace)).step s
      (.getHost () 1 2 offCall (0, some ⟨10, 80⟩) _) _ :=
    ⟨fun _ => hlines, .getHost (.getHost hrecv hcall) hseen (fun _ => hstatic ▸ hget) nofun⟩
  exact ⟨s, _, _, hstep.2, static_hosts_wentOnline h hstep ⟨10, 80⟩ rfl⟩

end Offline

end Elb
