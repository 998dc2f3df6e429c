import Elb.Dnsserver.Subscription

/-!
# The module of a pushed change

Reference: `getRoute` and `pushChange` in `dnsserver/src/Server.cc`; `Route::loadChanges` and
`Route::getHosts` in `dnsserver/src/Route.cc`.

A changed module is a key from the loader through `push` and `fetchPush` to `pushChange`, which
takes it apart again. The low half of a key was added with its sign and the high half is taken
without, so that a negative cmdid makes the pushed response one about the module before.
-/

namespace Elb

/-- The key comes apart as it was packed exactly if the low half is not negative. -/
theorem unpack_packKey_iff {modid cmdid : Int32} :
    unpackHi (packKey modid cmdid) = modid ∧ unpackLo (packKey modid cmdid) = cmdid ↔
      0 ≤ cmdid := by
  constructor
  · rintro ⟨hhi, -⟩
    by_contra hneg
    rw [unpackHi_packKey, if_pos (Int32.not_le.mp hneg)] at hhi
    have hone := congrArg Int32.toInt hhi
    have h1 : (1 : Int32).toInt = 1 := rfl
    have hlow := modid.le_toInt
    have hhigh := modid.toInt_lt
    rw [Int32.toInt_sub, h1, Int.bmod_def] at hone
    split at hone <;> omega
  · exact unpack_packKey

namespace Server

variable {n : ℕ} {l : Fin n} {fd : ℕ} {modid cmdid : Int32}

/-- What `pushChange` makes of the first module of its news. -/
theorem work_pushing {s : Server n} {key : UInt64} {rest : List (ℕ × UInt64)}
    (h : s.handler l = .pushing ((fd, key) :: rest)) :
    (s.work l).handler l =
      .pushSending fd (routeRsp (unpackHi key) (unpackLo key) s.data) rest := by
  rw [work, h]
  exact Function.update_self _ _ _

/-- For a negative cmdid, the response is that of another module. -/
theorem work_pushing_of_neg {s : Server n} {rest : List (ℕ × UInt64)} (hneg : cmdid < 0)
    (h : s.handler l = .pushing ((fd, packKey modid cmdid) :: rest)) :
    (s.work l).handler l = .pushSending fd (routeRsp (modid - 1) cmdid s.data) rest := by
  rw [work_pushing h, unpackHi_packKey, if_pos hneg, unpackLo_packKey]

/-- The loop is about to fetch. It gets the change of the module for the connection, and whenever
the change is the next one, `pushChange` makes the response of the module with its hosts. -/
def PushesModule (s : Server n) (l : Fin n) (fd : ℕ) (modid cmdid : Int32) : Prop :=
  ∃ news, (s.work l).handler l = .pushing news ∧ (fd, packKey modid cmdid) ∈ news ∧
    ∀ (s' : Server n) rest, s'.handler l = .pushing ((fd, packKey modid cmdid) :: rest) →
      (s'.work l).handler l = .pushSending fd (routeRsp modid cmdid s'.data) rest

/-- What a loop fetches after a push: the changed modules for those of its connections that are
subscribed to them. -/
theorem exists_fetched {s : Server n} {listening : List ℕ} {changes : List UInt64} {key : UInt64}
    (hfetch : s.handler l = .fetching listening) (hfd : fd ∈ listening)
    (hsub : fd ∈ s.list.book key) (hchange : key ∈ changes) :
    ∃ news, ((s.next (.push changes)).work l).handler l = .pushing news ∧ (fd, key) ∈ news := by
  have hhandler : (s.next (.push changes)).handler l = .fetching listening := hfetch
  refine ⟨((s.list.push changes).fetchPush listening).1, ?_, ?_⟩
  · rw [work, hhandler]
    exact Function.update_self _ _ _
  · rw [SubscribeList.mem_fetchPush, SubscribeList.mem_pending_push]
    exact ⟨hfd, .inr ⟨hchange, hsub⟩⟩

/-- A row of `ChangeLog` is about the module, with ids that may be above the `int`s and wrap; the
loader pushes what is in the log up to some version, and a loop with a subscriber of the module
fetches. The subscriber is sent the response of the module with its hosts exactly if the cmdid is
not negative. -/
theorem pushesModule_iff {s : Server n} {listening : List ℕ} {db : Db} {v : ℤ} {row : ChangeRow}
    (hrow : row ∈ db.changeLog) (hv : row.version ≤ v) (hmodid : row.modid.toInt32 = modid)
    (hcmdid : row.cmdid.toInt32 = cmdid) (hfetch : s.handler l = .fetching listening)
    (hfd : fd ∈ listening) (hsub : fd ∈ s.list.book (packKey modid cmdid)) :
    (s.next (.push (db.selectChanges v))).PushesModule l fd modid cmdid ↔ 0 ≤ cmdid := by
  have hkey : row.key = packKey modid cmdid := by
    rw [ChangeRow.key, moduleKey, hmodid, hcmdid]
  have hchange : packKey modid cmdid ∈ db.selectChanges v := by
    refine List.mem_map.mpr ⟨row, List.mem_filter.mpr ⟨hrow, ?_⟩, hkey⟩
    exact decide_eq_true hv
  obtain ⟨news, hnews, hmem⟩ := exists_fetched hfetch hfd hsub hchange
  constructor
  · rintro ⟨-, -, -, hrsp⟩
    -- a loop that has come to the change
    have hhandler : (s.setHandler l (.pushing [(fd, packKey modid cmdid)])).handler l =
        .pushing [(fd, packKey modid cmdid)] := Function.update_self _ _ _
    have heq := hrsp _ [] hhandler
    rw [work_pushing hhandler] at heq
    injection heq with _ heq
    obtain ⟨hhi, hlo, -⟩ := GetRouteRsp.mk.inj heq
    exact unpack_packKey_iff.mp ⟨hhi, hlo⟩
  · intro hpos
    refine ⟨news, hnews, hmem, fun s' rest hhandler => ?_⟩
    obtain ⟨hhi, hlo⟩ := unpack_packKey hpos
    rw [work_pushing hhandler, hhi, hlo]

/-- The change of a module in an otherwise empty database. -/
def changed (modid cmdid : UInt32) : Db :=
  Db.commit ⟨true, ⟨modid, cmdid, 10, 80⟩, 5⟩ ⟨[], 0, [], [], Db.log_nil⟩

/-- A loop that is about to fetch for the only connection, which is subscribed to the module. -/
def subscribed (modid cmdid : Int32) : Server 1 where
  data := ∅
  list := SubscribeList.subscribe (packKey modid cmdid) 7 ⟨∅, ∅⟩
  conns := ∅
  handler := fun _ => .fetching [7]
  posted := fun _ => 0
  posting := []
  unannounced := fun _ => false

/-- A subscriber of (-2, 3), whose row has modid 4294967294. -/
theorem pushesModule_wrapped :
    ((subscribed (-2) 3).next (.push ((changed 4294967294 3).selectChanges 5))).PushesModule 0 7
      (-2) 3 ↔ (0 : Int32) ≤ 3 := by
  have hrow : (⟨0, 4294967294, 3, 5⟩ : ChangeRow) ∈ (changed 4294967294 3).changeLog := by decide
  have hfetch : (subscribed (-2) 3).handler 0 = .fetching [7] := rfl
  exact pushesModule_iff hrow (by decide) (by decide) (by decide) hfetch (by decide) (by decide)

/-- The subscriber of the module (1, -2) is sent a response about (0, -2). -/
theorem not_pushesModule :
    ¬∀ (s : Server 1) (l : Fin 1) listening fd (db : Db) v, ∀ row ∈ db.changeLog, row.version ≤ v →
      s.handler l = .fetching listening → fd ∈ listening → fd ∈ s.list.book row.key →
        (s.next (.push (db.selectChanges v))).PushesModule l fd row.modid.toInt32
          row.cmdid.toInt32 := by
  intro hall
  obtain ⟨-, -, -, hrsp⟩ := hall (subscribed 1 (-2)) 0 [7] 7 (changed 1 4294967294) 5
    ⟨0, 1, 4294967294, 5⟩ (by decide) (by decide) rfl (by decide) (by decide)
  have hhandler : ((subscribed 1 (-2)).setHandler 0 (.pushing [(7, packKey 1 (-2))])).handler 0 =
      .pushing [(7, packKey 1 (-2))] := rfl
  have hright := hrsp _ [] hhandler
  have hwrong := work_pushing_of_neg (by decide) hhandler
  have heq := hwrong.symm.trans hright
  injection heq with _ heq
  have hmodid := (GetRouteRsp.mk.inj heq).1
  revert hmodid
  decide

end Server

end Elb
