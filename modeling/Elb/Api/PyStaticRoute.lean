import Elb.Api.StaticRoute
import Elb.Common.TextFile

/-!
# The static routes of the two clients

Reference: `api/python/elbApi/StaticRoute.py` against `api/cpp/elbApi/StaticRoute.h`.

Both classes load the files when they have no route, and answer from what they have loaded until
`freeData`. A file that is missing is left out by the C++ class, while the `IOError` ends the load
of the Python class: this call answers -1, and what came before the missing file is kept and answers
the next calls.
-/

namespace Elb

open Scanf TextFile Transition

/-- `class StaticRoute` in Python. A host is kept as the two numbers of its line. -/
structure PyStaticRoute where
  route : Option (HashMap (ℤ × ℤ) (List (ℤ × ℤ)))

namespace PyStaticRoute

/-! ## The Python class -/

/-- `__init__`. -/
def new : PyStaticRoute := ⟨none⟩

/-- `freeData`. -/
def freeData : PyStaticRoute := ⟨none⟩

/-- The body of the loop over the lines. There is no result if the line has no four numbers, which
raises an error that is not caught. -/
def addLine (route : HashMap (ℤ × ℤ) (List (ℤ × ℤ))) (line : List Char) :
    Option (HashMap (ℤ × ℤ) (List (ℤ × ℤ))) :=
  match ((split (strip line)).take 4).map int with
  | [some imodid, some icmdid, some ip, some port] =>
    some (route.pushBack (imodid, icmdid) (ip, port))
  | _ => none

/-- The loop over the files: the map, and whether no `open` has failed. -/
def loadFiles (disk : Disk) (route : HashMap (ℤ × ℤ) (List (ℤ × ℤ))) :
    List ℕ → Option (HashMap (ℤ × ℤ) (List (ℤ × ℤ)) × Bool)
  | [] => some (route, true)
  | n :: ns =>
    match disk n with
    | none => some (route, false)
    | some text => do
      let route ← (lines text).foldlM addLine route
      loadFiles disk route ns

/-- `not self.__route`. -/
def unloaded (s : PyStaticRoute) : Bool :=
  match s.route with
  | none => true
  | some route => route.entries.isEmpty

/-- `getHost` up to the choice of a host: the list from which it chooses, or none for -1. -/
def find (disk : Disk) (modid cmdid : Int32) (s : PyStaticRoute) :
    Option (PyStaticRoute × Option (List (ℤ × ℤ))) :=
  if s.unloaded then do
    let (route, opened) ← loadFiles disk ∅ [1, 2, 3]
    return (⟨some route⟩, if opened then route.lookup (modid.toInt, cmdid.toInt) else none)
  else
    some (s, s.route.bind fun route => route.lookup (modid.toInt, cmdid.toInt))

/-- What `getHost` returns of a host, with the address as the bytes that `inet_ntoa` gets. -/
def address (host : ℤ × ℤ) : Option (List UInt8 × ℤ) :=
  (PythonClient.packI (if host.1 < 0 then host.1 + 2 ^ 32 else host.1)).map fun ips =>
    (ips, host.2)

/-- `StaticRoute.getHost`, with the number that `random.choice` draws. -/
def getHost (disk : Disk) (choice : ℕ) (modid cmdid : Int32) (s : PyStaticRoute) :
    Option (PyStaticRoute × Option (List UInt8 × ℤ)) := do
  let (s, hosts) ← s.find disk modid cmdid
  match hosts with
  | none => return (s, none)
  | some hosts => do
    let host ← hosts[choice % hosts.length]?
    let addr ← address host
    return (s, some addr)

end PyStaticRoute

/-! ## The C++ class -/

namespace StaticRoute

/-- `StaticRoute::freeData`. -/
def freeData : StaticRoute := ⟨∅⟩

/-- `getHost` up to the choice of a host. -/
def find (disk : Disk) (modid cmdid : Int32) (s : StaticRoute) :
    Option (StaticRoute × Option (List HostType)) := do
  let route ← if s.route.entries.isEmpty then [1, 2, 3].foldlM (loadFile disk) s.route
    else some s.route
  return (⟨route⟩, route.lookup (packKey modid cmdid))

/-- `getHost` chooses from what `find` finds. -/
theorem getHost_eq (disk : Disk) (rand : ℕ) (modid cmdid : Int32) (s : StaticRoute) :
    getHost disk rand modid cmdid s = (s.find disk modid cmdid).bind fun p =>
      match p.2 with
      | none => some (p.1, none)
      | some hosts => hosts[rand % hosts.length]?.map fun host => (p.1, some host) := by
  rw [getHost, find]
  simp only [Option.bind_eq_bind, Option.pure_def, Option.bind_some]
  split
  · cases [1, 2, 3].foldlM (loadFile disk) s.route with
    | none => rfl
    | some route =>
      simp only [Option.bind_some]
      cases route.lookup (packKey modid cmdid) with
      | none => rfl
      | some hosts => exact Option.map_eq_bind.symm
  · simp only [Option.bind_some]
    cases s.route.lookup (packKey modid cmdid) with
    | none => rfl
    | some hosts => exact Option.map_eq_bind.symm

end StaticRoute

/-! ## What is loaded -/

namespace StaticRoute

/-- The hosts of a module among the records. -/
def hostsOf (rs : List (LB × HI)) (modid cmdid : Int32) : List HostAddr :=
  (rs.filter fun p => p.1.modid = modid ∧ p.1.cmdid = cmdid).map fun p => p.2.addr

/-- The map that the C++ class makes of the records. -/
def load (rs : List (LB × HI)) (route : HashMap UInt64 (List HostType)) :
    HashMap UInt64 (List HostType) :=
  rs.foldl (fun route p => route.pushBack (packKey p.1.modid p.1.cmdid) (live p.2.addr)) route

/-- A map in which each record is filed under the ids of its module, in whatever way, has the hosts
of every module. -/
theorem lookup_foldl_records {κ γ : Type} [DecidableEq κ] {key : LB × HI → κ} {f : HostAddr → γ}
    {k : κ} {modid cmdid : Int32}
    (hkey : ∀ p, key p = k ↔ p.1.modid = modid ∧ p.1.cmdid = cmdid) (rs : List (LB × HI)) :
    (rs.foldl (fun m p => m.pushBack (key p) (f p.2.addr)) (∅ : HashMap κ (List γ))).lookup k =
      if hostsOf rs modid cmdid = [] then none else some ((hostsOf rs modid cmdid).map f) := by
  -- what is filed under the key, record by record
  have hvals : (rs.flatMap fun p => if key p = k then [f p.2.addr] else []) =
      (hostsOf rs modid cmdid).map f := by
    induction rs with
    | nil => rfl
    | cons p rs ih =>
      rw [List.flatMap_cons, ih, hostsOf, hostsOf]
      by_cases hp : key p = k
      · rw [if_pos hp, List.filter_cons_of_pos (by simpa using (hkey p).mp hp)]
        rfl
      · have hnot : ¬(p.1.modid = modid ∧ p.1.cmdid = cmdid) := fun h => hp ((hkey p).mpr h)
        rw [if_neg hp, List.filter_cons_of_neg (by simpa using hnot)]
        rfl
  rw [HashMap.lookup_foldl_pushBack]
  dsimp only
  rw [hvals]
  exact if_congr List.map_eq_nil_iff rfl rfl

/-- What is loaded for a module are its hosts in the order of the records, and nothing if it has
none. -/
theorem load_lookup (rs : List (LB × HI)) (modid cmdid : Int32) :
    (load rs ∅).lookup (packKey modid cmdid) = if hostsOf rs modid cmdid = [] then none
      else some ((hostsOf rs modid cmdid).map live) := by
  refine lookup_foldl_records (fun p => ?_) rs
  exact ⟨packKey_inj, fun h => by rw [h.1, h.2]⟩

end StaticRoute

namespace PyStaticRoute

open StaticRoute

/-- The map that the Python class makes of the records. -/
def load (rs : List (LB × HI)) (route : HashMap (ℤ × ℤ) (List (ℤ × ℤ))) :
    HashMap (ℤ × ℤ) (List (ℤ × ℤ)) :=
  rs.foldl (fun route p => route.pushBack (p.1.modid.toInt, p.1.cmdid.toInt)
    (p.2.addr.ip.toInt, p.2.addr.port.toInt)) route

/-- The Python class loads the same, under tuples instead of packed keys. -/
theorem load_lookup (rs : List (LB × HI)) (modid cmdid : Int32) :
    (load rs ∅).lookup (modid.toInt, cmdid.toInt) = if hostsOf rs modid cmdid = [] then none
      else some ((hostsOf rs modid cmdid).map fun host => (host.ip.toInt, host.port.toInt)) := by
  refine lookup_foldl_records (f := fun host => (host.ip.toInt, host.port.toInt)) (fun p => ?_) rs
  rw [Prod.mk.injEq, Int32.toInt_inj, Int32.toInt_inj]

/-- A printed row is added as it was written. -/
theorem addLine_row (route : HashMap (ℤ × ℤ) (List (ℤ × ℤ))) (lb : LB) (hi : HI) :
    addLine route (printRow (lb.row hi)) = some (route.pushBack (lb.modid.toInt, lb.cmdid.toInt)
      (hi.addr.ip.toInt, hi.addr.port.toInt)) := by
  rw [addLine, split_strip, split_printRow, LB.row]
  simp only [List.map_cons, List.map_nil, List.take_succ_cons, List.take_zero, int_printInt]
  rfl

/-- Printed records are added line by line. -/
theorem foldlM_addLine_printRecords (rs : List (LB × HI))
    (route : HashMap (ℤ × ℤ) (List (ℤ × ℤ))) :
    (lines (printRecords rs)).foldlM addLine route = some (load rs route) := by
  have hne : ∀ row ∈ rs.map fun p => p.1.row p.2, row ≠ [] := by
    intro row hrow
    obtain ⟨p, -, rfl⟩ := List.mem_map.mp hrow
    exact List.cons_ne_nil _ _
  rw [printRecords, lines_flatMap_printRow hne, List.map_map]
  induction rs generalizing route with
  | nil => rfl
  | cons p rs ih =>
    rw [List.map_cons, List.foldlM_cons, Function.comp_apply, addLine_row, Option.bind_eq_bind,
      Option.bind_some, ih]
    · rfl
    · exact fun row hrow => hne row (List.mem_cons_of_mem _ hrow)

/-- Both classes make the same of the numbers of a host. -/
theorem address_addr (host : HostAddr) :
    address (host.ip.toInt, host.port.toInt) = some ((live host).1, (live host).2.toInt) := by
  have hip := PythonClient.packI_unsignedIp host.ip
  rw [PythonClient.unsignedIp] at hip
  rw [address, hip]
  rfl

end PyStaticRoute

/-! ## The two side by side -/

/-- The lists from which the two classes choose. -/
structure Answers where
  cpp : Option (List HostType)
  python : Option (List (ℤ × ℤ))

/-- Both find the module or none does, and they choose from the same hosts. -/
def Answers.Agree (a : Answers) : Prop :=
  a.python.map (List.map PyStaticRoute.address) =
    a.cpp.map (List.map fun host => some (host.1, host.2.toInt))

/-- Where they agree, the same draw gives the same host. -/
theorem Answers.Agree.getHost_eq {a : Answers} (h : a.Agree) {disk : Disk} {modid cmdid : Int32}
    {cpp cpp' : StaticRoute} {python python' : PyStaticRoute}
    (hcpp : cpp.find disk modid cmdid = some (cpp', a.cpp))
    (hpython : python.find disk modid cmdid = some (python', a.python)) (rand : ℕ) :
    ((python.getHost disk rand modid cmdid).map fun p => p.2) =
      (StaticRoute.getHost disk rand modid cmdid cpp).map fun p =>
        p.2.map fun host => (host.1, host.2.toInt) := by
  obtain ⟨hosts, pyHosts⟩ := a
  rw [StaticRoute.getHost_eq, hcpp, PyStaticRoute.getHost, hpython]
  simp only [Option.bind_eq_bind, Option.bind_some]
  cases hosts with
  | none =>
    obtain rfl := Option.map_eq_none_iff.mp h
    rfl
  | some hosts =>
    obtain ⟨pyHosts, rfl, hmap⟩ := Option.map_eq_some_iff.mp h
    have hlen := congrArg List.length hmap
    rw [List.length_map, List.length_map] at hlen
    -- the same place in both lists
    have hget := congrArg (fun l => l[rand % hosts.length]?) hmap
    simp only [List.getElem?_map] at hget
    dsimp only
    rw [hlen]
    cases hhost : hosts[rand % hosts.length]? with
    | none =>
      rw [hhost] at hget
      rw [Option.map_eq_none_iff.mp hget]
      rfl
    | some host =>
      rw [hhost] at hget
      obtain ⟨pyHost, hpy, haddr⟩ := Option.map_eq_some_iff.mp hget
      rw [hpy, Option.bind_some, haddr]
      rfl

/-- An object of each class. -/
structure Fallbacks where
  cpp : StaticRoute
  python : PyStaticRoute

namespace Fallbacks

/-- A call of both objects. -/
inductive Op
  | getHost (modid cmdid : Int32)
  | freeData

/-- Both have loaded nothing. -/
def new : Fallbacks := ⟨StaticRoute.new, PyStaticRoute.new⟩

/-- A call of both on the same files. -/
def exec (disk : Disk) (s : Fallbacks) : Op → Option (Fallbacks × Option Answers)
  | .getHost modid cmdid => do
    let (cpp, hosts) ← s.cpp.find disk modid cmdid
    let (python, pyHosts) ← s.python.find disk modid cmdid
    return (⟨cpp, python⟩, some ⟨hosts, pyHosts⟩)
  | .freeData => some (⟨StaticRoute.freeData, PyStaticRoute.freeData⟩, none)

/-- Any calls, with the lists from which they choose. -/
def system (disk : Disk) : System Fallbacks (Op × Option Answers) where
  init s := s = new
  step s e s' := exec disk s e.1 = some (s', e.2)

/-- The files, each as a table has written it or missing. A file that is read while a table is
being written to it, and ends within a line, is not among them. -/
def backup (tables : ℕ → Option RouteLB) : Disk := fun n => (tables n).map RouteLB.persist

/-- `open` succeeds. -/
def there (tables : ℕ → Option RouteLB) (n : ℕ) : Bool := (tables n).isSome

/-- The files that the Python class leaves out of its answer while the C++ class reads them: all of
them if it has to load and one is missing, and else those behind a missing one. -/
def leftOut (tables : ℕ → Option RouteLB) (s : Fallbacks) : List ℕ :=
  let behind := [1, 2, 3].dropWhile (there tables)
  if s.python.unloaded ∧ behind ≠ [] then [1, 2, 3] else behind

/-- The module has no host in the files that the Python class leaves out. -/
def Covered (tables : ℕ → Option RouteLB) (s : Fallbacks) (e : Op × Option Answers) : Prop :=
  ∀ modid cmdid, e.1 = .getHost modid cmdid → ∀ n ∈ leftOut tables s, ∀ table ∈ tables n,
    ∀ p ∈ StaticRoute.records table, ¬(p.1.modid = modid ∧ p.1.cmdid = cmdid)

/-! ## The files that are there -/

variable {tables : ℕ → Option RouteLB}

/-- The records of a file. -/
def listed (tables : ℕ → Option RouteLB) (n : ℕ) : List (LB × HI) :=
  ((tables n).map StaticRoute.records).getD []

/-- The records of the files in front of the first that is missing. -/
def before (tables : ℕ → Option RouteLB) : List (LB × HI) :=
  ([1, 2, 3].takeWhile (there tables)).flatMap (listed tables)

/-- The records of a file are those of the table that was written to it. -/
theorem mem_listed {n : ℕ} {p : LB × HI} :
    p ∈ listed tables n ↔ ∃ table ∈ tables n, p ∈ StaticRoute.records table := by
  rw [listed]
  cases tables n <;> simp

/-- Files with printed records, or missing. -/
def files (rss : ℕ → Option (List (LB × HI))) : Disk :=
  fun n => (rss n).map StaticRoute.printRecords

/-- The files of tables have their records. -/
theorem backup_eq_files : backup tables = files fun n => (tables n).map StaticRoute.records := by
  funext n
  rw [backup, files, Option.map_map]
  exact congrArg (fun f => (tables n).map f) (funext StaticRoute.persist_eq)

/-- The C++ class adds the records of a file, and none for a file that is missing. -/
theorem loadFile_files (rss : ℕ → Option (List (LB × HI))) (route : HashMap UInt64 (List HostType))
    (n : ℕ) : StaticRoute.loadFile (files rss) route n =
      some (StaticRoute.load ((rss n).getD []) route) := by
  rw [StaticRoute.loadFile, files]
  cases rss n with
  | none => rfl
  | some rs =>
    simp only [Option.map_some, Option.getD_some]
    rw [StaticRoute.readFile_printRecords, Option.map_some, List.foldl_map]
    simp only [StaticRoute.addRow_row]
    rfl

/-- So it loads the records of all files. -/
theorem foldlM_loadFile_files (rss : ℕ → Option (List (LB × HI))) (ns : List ℕ)
    (route : HashMap UInt64 (List HostType)) :
    ns.foldlM (StaticRoute.loadFile (files rss)) route =
      some (StaticRoute.load (ns.flatMap fun n => (rss n).getD []) route) := by
  induction ns generalizing route with
  | nil => rfl
  | cons n ns ih =>
    rw [List.foldlM_cons, loadFile_files, Option.bind_eq_bind, Option.bind_some, ih,
      List.flatMap_cons, StaticRoute.load, StaticRoute.load, StaticRoute.load, List.foldl_append]

/-- The Python class adds the records up to the first file that is missing. -/
theorem loadFiles_files (rss : ℕ → Option (List (LB × HI))) (ns : List ℕ)
    (route : HashMap (ℤ × ℤ) (List (ℤ × ℤ))) :
    PyStaticRoute.loadFiles (files rss) route ns =
      some (PyStaticRoute.load
          ((ns.takeWhile fun n => (rss n).isSome).flatMap fun n => (rss n).getD []) route,
        (ns.dropWhile fun n => (rss n).isSome).isEmpty) := by
  -- on the files; a missing one ends the loop, and the records loaded so far stay
  induction ns generalizing route with
  | nil => rfl
  | cons n ns ih =>
    rw [PyStaticRoute.loadFiles, files]
    cases hn : rss n with
    | none =>
      have hmissing : ¬(rss n).isSome = true := by simp [hn]
      rw [List.takeWhile_cons_of_neg (p := fun n => (rss n).isSome) hmissing,
        List.dropWhile_cons_of_neg (p := fun n => (rss n).isSome) hmissing]
      rfl
    | some rs =>
      have hthere : (rss n).isSome = true := by simp [hn]
      rw [List.takeWhile_cons_of_pos (p := fun n => (rss n).isSome) hthere,
        List.dropWhile_cons_of_pos (p := fun n => (rss n).isSome) hthere, Option.map_some]
      dsimp only
      rw [PyStaticRoute.foldlM_addLine_printRecords, Option.bind_eq_bind, Option.bind_some, ih,
        List.flatMap_cons, PyStaticRoute.load, PyStaticRoute.load, PyStaticRoute.load,
        List.foldl_append, hn]
      rfl

/-- What the C++ class loads of the files of tables. -/
theorem foldlM_loadFile_backup (ns : List ℕ) (route : HashMap UInt64 (List HostType)) :
    ns.foldlM (StaticRoute.loadFile (backup tables)) route =
      some (StaticRoute.load (ns.flatMap (listed tables)) route) := by
  rw [backup_eq_files, foldlM_loadFile_files]
  rfl

/-- What the Python class loads of them, up to the first that is missing. -/
theorem loadFiles_backup (ns : List ℕ) (route : HashMap (ℤ × ℤ) (List (ℤ × ℤ))) :
    PyStaticRoute.loadFiles (backup tables) route ns =
      some (PyStaticRoute.load
          ((ns.takeWhile (there tables)).flatMap (listed tables)) route,
        (ns.dropWhile (there tables)).isEmpty) := by
  have hthere : (fun n => ((tables n).map StaticRoute.records).isSome) = there tables := by
    funext n
    rw [Option.isSome_map, there]
  rw [backup_eq_files, loadFiles_files, hthere]
  rfl

/-- All files are those in front of the first that is missing and those behind it. -/
theorem flatMap_listed : [1, 2, 3].flatMap (listed tables) =
    before tables ++ ([1, 2, 3].dropWhile (there tables)).flatMap (listed tables) := by
  rw [before, ← List.flatMap_append, List.takeWhile_append_dropWhile]

/-! ## One call -/

/-- Where the Python class has only the first part of what the C++ class has, they agree on a module
exactly if it has no host in the other part. -/
theorem agree_iff (used left : List (LB × HI)) (modid cmdid : Int32) :
    Answers.Agree ⟨(StaticRoute.load (used ++ left) ∅).lookup (packKey modid cmdid),
      (PyStaticRoute.load used ∅).lookup (modid.toInt, cmdid.toInt)⟩ ↔
      StaticRoute.hostsOf left modid cmdid = [] := by
  -- the hosts that only the C++ class has come behind those that both have
  have happend : StaticRoute.hostsOf (used ++ left) modid cmdid =
      StaticRoute.hostsOf used modid cmdid ++ StaticRoute.hostsOf left modid cmdid := by
    rw [StaticRoute.hostsOf, List.filter_append, List.map_append]
    rfl
  rw [Answers.Agree, StaticRoute.load_lookup, PyStaticRoute.load_lookup, happend]
  generalize StaticRoute.hostsOf used modid cmdid = hosts
  generalize StaticRoute.hostsOf left modid cmdid = others
  constructor
  · -- the C++ class has as many hosts more as are in the other part
    intro h
    cases hosts with
    | nil =>
      cases others with
      | nil => rfl
      | cons host others => cases h
    | cons host hosts =>
      have hlen := congrArg (Option.map List.length) h
      simp at hlen
      exact hlen
  · rintro rfl
    rw [List.append_nil]
    split
    · rfl
    · simp only [Option.map_some, List.map_map, Option.some.injEq]
      refine List.map_congr_left fun host _ => ?_
      exact PyStaticRoute.address_addr host

/-- No record names the module. -/
theorem hostsOf_eq_nil_iff {rs : List (LB × HI)} {modid cmdid : Int32} :
    StaticRoute.hostsOf rs modid cmdid = [] ↔
      ∀ p ∈ rs, ¬(p.1.modid = modid ∧ p.1.cmdid = cmdid) := by
  rw [StaticRoute.hostsOf, List.map_eq_nil_iff, List.filter_eq_nil_iff]
  simp

/-- What each object has is what its class makes of the files. -/
structure Inv (tables : ℕ → Option RouteLB) (s : Fallbacks) : Prop where
  cpp : s.cpp.route = ∅ ∨ s.cpp.route = StaticRoute.load ([1, 2, 3].flatMap (listed tables)) ∅
  python : s.python.route = none ∨
    s.python.route = some (PyStaticRoute.load (before tables) ∅)

/-- The C++ class answers from all files that are there. -/
theorem cpp_find {s : Fallbacks} (h : Inv tables s) (modid cmdid : Int32) :
    s.cpp.find (backup tables) modid cmdid =
      some (⟨StaticRoute.load ([1, 2, 3].flatMap (listed tables)) ∅⟩,
        (StaticRoute.load ([1, 2, 3].flatMap (listed tables)) ∅).lookup
          (packKey modid cmdid)) := by
  rw [StaticRoute.find]
  -- the C++ class loads again as long as its map is empty
  by_cases hempty : s.cpp.route.entries.isEmpty = true
  · have hroute : s.cpp.route = ∅ := AList.ext (List.isEmpty_iff.mp hempty)
    rw [if_pos hempty, hroute, foldlM_loadFile_backup]
    rfl
  · rcases h.cpp with hroute | hroute
    · rw [hroute] at hempty
      exact absurd rfl hempty
    · rw [if_neg hempty, hroute]
      rfl

/-- The Python class answers from the files before the first missing one, and not at all in the call
that finds it missing. -/
theorem python_find {s : Fallbacks} (h : Inv tables s) (modid cmdid : Int32) :
    s.python.find (backup tables) modid cmdid =
      some (⟨some (PyStaticRoute.load (before tables) ∅)⟩,
        if s.python.unloaded ∧ [1, 2, 3].dropWhile (there tables) ≠ [] then none
        else (PyStaticRoute.load (before tables) ∅).lookup (modid.toInt, cmdid.toInt)) := by
  rw [PyStaticRoute.find]
  -- the Python class, too, loads as long as it has nothing, and a call that finds a file missing
  -- answers -1
  by_cases hload : s.python.unloaded = true
  · rw [if_pos hload, loadFiles_backup, ← before]
    by_cases hbehind : [1, 2, 3].dropWhile (there tables) = []
    · rw [if_neg fun hand => hand.2 hbehind, hbehind]
      rfl
    · rw [if_pos ⟨hload, hbehind⟩, Option.bind_eq_bind, Option.bind_some]
      dsimp only
      rw [if_neg fun hnil => hbehind (List.isEmpty_iff.mp hnil)]
      rfl
  · rw [if_neg hload, if_neg fun hand => hload hand.1]
    rcases h.python with hroute | hroute
    · rw [PyStaticRoute.unloaded, hroute] at hload
      exact absurd rfl hload
    · have hobj : s.python = ⟨some (PyStaticRoute.load (before tables) ∅)⟩ :=
        congrArg PyStaticRoute.mk hroute
      rw [hobj]
      rfl

/-- What a call leaves out are records. -/
theorem covered_getHost {s : Fallbacks} {modid cmdid : Int32} {out : Option Answers} :
    Covered tables s (.getHost modid cmdid, out) ↔
      StaticRoute.hostsOf ((leftOut tables s).flatMap (listed tables)) modid cmdid = [] := by
  rw [hostsOf_eq_nil_iff]
  constructor
  · intro h p hp
    obtain ⟨n, hn, hp⟩ := List.mem_flatMap.mp hp
    obtain ⟨table, ht, hp⟩ := mem_listed.mp hp
    exact h modid cmdid rfl n hn table ht p hp
  · rintro h modid' cmdid' ⟨⟩ n hn table ht p hp
    exact h p (List.mem_flatMap.mpr ⟨n, hn, mem_listed.mpr ⟨table, ht, hp⟩⟩)

/-- Every call answers, and the two objects agree exactly if the module has no host in the files
that the Python class leaves out. -/
theorem exec_spec {s : Fallbacks} (h : Inv tables s) (op : Op) :
    ∃ out s', exec (backup tables) s op = some (s', out) ∧ Inv tables s' ∧
      ((∀ a ∈ out, a.Agree) ↔ Covered tables s (op, out)) := by
  cases op with
  | freeData =>
    refine ⟨none, _, rfl, ⟨.inl rfl, .inl rfl⟩, iff_of_true (by simp) ?_⟩
    rintro modid cmdid ⟨⟩
  | getHost modid cmdid =>
    have hexec : ∀ cpp python hosts pyHosts,
        s.cpp.find (backup tables) modid cmdid = some (cpp, hosts) →
        s.python.find (backup tables) modid cmdid = some (python, pyHosts) →
        exec (backup tables) s (.getHost modid cmdid) =
          some (⟨cpp, python⟩, some ⟨hosts, pyHosts⟩) := by
      intro cpp python hosts pyHosts hcpp hpython
      rw [exec, hcpp, Option.bind_eq_bind, Option.bind_some]
      dsimp only
      rw [hpython]
      rfl
    refine ⟨_, _, hexec _ _ _ _ (cpp_find h modid cmdid) (python_find h modid cmdid),
      ⟨.inr rfl, .inr rfl⟩, ?_⟩
    simp only [Option.mem_def, Option.some.injEq, forall_eq']
    rw [covered_getHost, leftOut]
    split
    · -- the call of the Python class answers -1, as if it had nothing
      exact agree_iff [] _ modid cmdid
    · rw [flatMap_listed]
      exact agree_iff _ _ modid cmdid

/-- For any of the files, as tables have written them, and any calls of new objects: all calls
answer, and the two objects agree in all of them exactly if in each the module has no host in the
files that the Python class leaves out. -/
theorem agree_iff_covered (tables : ℕ → Option RouteLB) (ops : List Op) :
    ∃ tr, (system (backup tables)).Run new tr ∧ (tr.map fun x => x.1.1) = ops ∧
      ((∀ x ∈ tr, ∀ a ∈ x.1.2, a.Agree) ↔ System.Along (Covered tables) new tr) := by
  have hstep : ∀ s e s', Inv tables s → (system (backup tables)).step s e s' →
      Inv tables s' ∧ ((∀ a ∈ e.2, a.Agree) ↔ Covered tables s e) := by
    rintro s ⟨op, out⟩ s' h hexec
    obtain ⟨out', s'', hexec', hinv, hiff⟩ := exec_spec h op
    obtain ⟨rfl, rfl⟩ := Prod.mk.inj (Option.some.inj (hexec.symm.trans hexec'))
    exact ⟨hinv, hiff⟩
  have hinit : Inv tables new := ⟨.inl rfl, .inl rfl⟩
  have hInv := fun s e s' hs h => (hstep s e s' hs h).1
  have hexec : ∀ s op, Inv tables s → ∃ e s', e.1 = op ∧ (system (backup tables)).step s e s' := by
    intro s op hs
    obtain ⟨out, s', h, -, -⟩ := exec_spec hs op
    exact ⟨(op, out), s', rfl, h⟩
  obtain ⟨tr, htr, hops⟩ := System.exists_run (f := Prod.fst) hInv hexec hinit ops
  refine ⟨tr, htr, hops, ?_⟩
  exact htr.forall_label_iff_along (Q := fun e => ∀ a ∈ e.2, a.Agree) hInv
    (fun s e s' hs h => (hstep s e s' hs h).2) hinit

/-- The first file has the module (1, 2), the others are missing. -/
def firstOnly (i j : Fin 3) (n : ℕ) : Option RouteLB :=
  if n = 1 then some ((StaticRoute.written i j).routeLB i).table else none

/-- The C++ class finds the module in both calls, the Python class in the second one only. -/
theorem not_agree :
    (∃ s s' a a', (system (backup (firstOnly 0 1))).Run new
        [((.getHost 1 2, some a), s), ((.getHost 1 2, some a'), s')] ∧
      a.cpp.isSome = true ∧ a.python = none ∧ a'.cpp.isSome = true ∧ a'.python.isSome = true) ∧
      ¬∀ tables tr, (system (backup tables)).Run new tr → ∀ x ∈ tr, ∀ a ∈ x.1.2, a.Agree := by
  have hcalls : ((exec (backup (firstOnly 0 1)) new (.getHost 1 2)).any fun p =>
      p.2.any fun a => (a.cpp.isSome && a.python.isNone) &&
        (exec (backup (firstOnly 0 1)) p.1 (.getHost 1 2)).any fun q =>
          q.2.any fun a' => a'.cpp.isSome && a'.python.isSome) = true := by
    decide +kernel
  obtain ⟨⟨s, out⟩, hexec, hcalls⟩ := (Option.any_eq_true _ _).mp hcalls
  obtain ⟨a, rfl, hcalls⟩ := (Option.any_eq_true _ _).mp hcalls
  obtain ⟨ha, hcalls⟩ := Bool.and_eq_true_iff.mp hcalls
  obtain ⟨⟨s', out'⟩, hexec', hcalls⟩ := (Option.any_eq_true _ _).mp hcalls
  obtain ⟨a', rfl, ha'⟩ := (Option.any_eq_true _ _).mp hcalls
  obtain ⟨hcpp, hpython⟩ := Bool.and_eq_true_iff.mp ha
  obtain ⟨hcpp', hpython'⟩ := Bool.and_eq_true_iff.mp ha'
  have hnone := Option.isNone_iff_eq_none.mp hpython
  have hrun : (system (backup (firstOnly 0 1))).Run new
      [((.getHost 1 2, some a), s), ((.getHost 1 2, some a'), s')] :=
    .cons hexec (.cons hexec' (.nil s'))
  refine ⟨⟨s, s', a, a', hrun, hcpp, hnone, hcpp', hpython'⟩, fun hall => ?_⟩
  have hagree := hall _ _ hrun _ List.mem_cons_self a rfl
  rw [Answers.Agree, hnone, Option.map_none] at hagree
  rw [Option.map_eq_none_iff.mp hagree.symm] at hcpp
  cases hcpp

end Fallbacks

end Elb
