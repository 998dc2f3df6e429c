import Elb.Deployment.Convergence
import Elb.Deployment.Provenance
import Elb.Dnsserver.Announced

/-!
# Agents come to have what operators commit

Reference: `mod-manager/ModOperator.py`, `Route` and `dataLoader` in `dnsserver/src/Route.cc`,
`getRoute` and `pushChange` in `dnsserver/src/Server.cc`, `recvRoute` in `lbagent/src/DssClient.cc`,
`RouteLB::update` in `lbagent/src/RouteLb.cc`.

The way of a transaction: it is committed, the loader reads the table and pushes the modules of the
log, the loops send routes on the connection of an agent, and the agent hands them to its shards.
Operators, the loader, the loops and the agent go on in any order.
-/

namespace Elb

open Transition

variable {R : Type} [RateArith R] {cfg : LbConfigure R} {ws : ℤ}

/-! ## The way of a transaction -/

/-- The database with the loader, and the loops of dnsserver with an agent. -/
structure Pipeline (n : ℕ) where
  notifier : Notifier
  uplink : Uplink n

namespace Pipeline

variable {n : ℕ} {s s' : Pipeline n}

/-- What happens next: an operator commits, the loader does its next query, or something happens
between the loops and the agent. -/
inductive Event (n : ℕ)
  | commit (t : ModOperator)
  | query (ok : Bool) (now : ℤ)
  | uplink (e : Uplink.Event n)

/-- What the loops see of a step of the loader: the constructor of `Route` gives them their first
routes, `swap` gives them other ones, and `push` comes to their subscriptions. -/
def announce (s : Pipeline n) (l : Loader) : Server n :=
  match s.notifier.loader.pc with
  | .selectFirst => .new l.data
  | .swap _ => s.uplink.server.next (.swap l.data)
  | .push => s.uplink.server.next (.push s.notifier.loader.changes)
  | _ => s.uplink.server

/-- The event is one of dnsserver. -/
def AtServer : Uplink.Event n → Prop
  | .server _ | .connect _ _ => True
  | _ => False

/-- The loader's events are those of its queries. -/
def OfLoops : Uplink.Event n → Prop
  | .server op => Deployment.OfLoops op
  | _ => True

/-- One step. The loader has posted the tasks of its last push before its next query, and the loops
get their hosts from a `Route` that has been constructed. -/
inductive Step (cfg : LbConfigure R) (ws : ℤ) (s : Pipeline n) : Event n → Pipeline n → Prop
  | commit (t : ModOperator) : Step cfg ws s (.commit t)
      { s with notifier := { s.notifier with db := s.notifier.db.commit t } }
  | query (ok : Bool) (now : ℤ) (hposting : s.uplink.server.posting = []) :
      Step cfg ws s (.query ok now) {
        notifier := s.notifier.load ws ok now
        uplink := { s.uplink with server := s.announce (s.notifier.load ws ok now).loader } }
  | uplink {e : Uplink.Event n} {u : Uplink n} (hboot : AtServer e → s.notifier.loader.Booted)
      (hloops : OfLoops e) (hs : Uplink.Step cfg s.uplink e u) :
      Step cfg ws s (.uplink e) { s with uplink := u }

/-- Runs from a table that transactions have left, a new dnsserver and new shards. -/
def system (cfg : LbConfigure R) (ws : ℤ) : System (Pipeline n) (Event n) where
  init s := (∃ db : Db, db.Recorded ∧ s.notifier = ⟨db, .new, 0, 0, 0, false, [], [], []⟩) ∧
    s.uplink.server = .new ∅ ∧ s.uplink.fd = none ∧ s.uplink.inbox = [] ∧
    ∀ i, ∃ id, s.uplink.shard i = .new id
  step := Step cfg ws

/-- The routes of the loops are those of the loader. A module that they have not been told of since
it was altered is owed by the loader. -/
structure Inv (cfg : LbConfigure R) (s : Pipeline n) : Prop where
  notifier : s.notifier.Inv
  taken : s.notifier.Taken
  uplink : s.uplink.Inv cfg
  data : s.uplink.server.data = s.notifier.loader.data
  owes : ∀ key, s.uplink.server.unannounced key = true → s.notifier.Owes key
  start : s.notifier.loader.pc = .loadVersionFirst ∨ s.notifier.loader.pc = .selectFirst →
    s.uplink.server = .new ∅ ∧ s.uplink.fd = none

/-! ## The invariant -/

/-- The loops alone change neither the routes nor what has been announced. -/
theorem next_of_ofLoops (server : Server n) {op : Server.Op n} (hop : Deployment.OfLoops op) :
    (server.next op).data = server.data ∧ (server.next op).unannounced = server.unannounced := by
  have hdeliver : ∀ fd rsp, (server.deliver fd rsp).data = server.data ∧
      (server.deliver fd rsp).unannounced = server.unannounced := by
    intro fd rsp
    unfold Server.deliver
    split <;> exact ⟨rfl, rfl⟩
  cases op with
  | request fd modid cmdid =>
    simp only [Server.next]
    split
    · exact ⟨rfl, rfl⟩
    · split <;> exact ⟨rfl, rfl⟩
  | close fd =>
    simp only [Server.next]
    split <;> exact ⟨rfl, rfl⟩
  | post =>
    simp only [Server.next]
    split <;> exact ⟨rfl, rfl⟩
  | work l =>
    simp only [Server.next, Server.work]
    cases server.handler l with
    | sending fd rsp => exact hdeliver fd rsp
    | pushSending fd rsp news => exact hdeliver fd rsp
    | pushing news => cases news <;> exact ⟨rfl, rfl⟩
    | closing fd book => cases book <;> exact ⟨rfl, rfl⟩
    | _ => exact ⟨rfl, rfl⟩
  | swap data => exact hop.elim
  | push changes => exact hop.elim
  | _ => exact ⟨rfl, rfl⟩

/-- The loader sends nothing and closes no connection. -/
theorem uplink_announce {u : Uplink n} (h : u.Inv cfg) {op : Server.Op n}
    (hop : u.server.Allowed op) (hloader : ¬Deployment.OfLoops op) :
    Uplink.Inv cfg { u with server := u.server.next op } := by
  have hstep := h.serverStep hop
  have hquiet : ∀ fd, u.server.sendsOn fd op = [] ∧ op.closes fd = false := by
    intro fd
    cases op with
    | swap data => exact ⟨rfl, rfl⟩
    | push changes => exact ⟨rfl, rfl⟩
    | _ => exact absurd trivial hloader
  have hfd : (u.fd.filter fun fd => !op.closes fd) = u.fd := by
    cases u.fd <;> simp [hquiet]
  have hinbox : u.inbox ++ (u.fd.elim [] fun fd => u.server.sendsOn fd op) = u.inbox := by
    cases u.fd <;> simp [hquiet]
  rwa [hfd, hinbox] at hstep

/-- The constructor is not reached again. -/
theorem start_of_load {notifier : Notifier} {ok : Bool} {now : ℤ}
    (h : (notifier.load ws ok now).loader.pc = .loadVersionFirst ∨
      (notifier.load ws ok now).loader.pc = .selectFirst) :
    notifier.loader.pc = .loadVersionFirst := by
  rw [(notifier.load_db ws ok now).2, Loader.query] at h
  cases hpc : notifier.loader.pc with
  | loadVersionFirst => rfl
  | loadVersion =>
    rw [hpc] at h
    dsimp only [Loader.idle] at h
    split at h
    · simp at h
    · split at h <;> simp at h
  | swap changed =>
    rw [hpc] at h
    cases changed <;> simp at h
  | exited =>
    rw [hpc] at h
    simp [hpc] at h
  | selectFirst =>
    rw [hpc] at h
    cases ok <;> simp at h
  | reload changed =>
    rw [hpc] at h
    cases ok <;> simp at h
  | _ =>
    rw [hpc] at h
    simp at h

/-- The loader makes a query. -/
theorem Inv.query (h : s.Inv cfg) (ok : Bool) (now : ℤ) (hposting : s.uplink.server.posting = []) :
    Inv cfg {
      notifier := s.notifier.load ws ok now
      uplink := { s.uplink with server := s.announce (s.notifier.load ws ok now).loader } } := by
  have hnotifier := h.notifier.load ws ok now
  have htaken := h.taken.load h.notifier ws ok now
  unfold announce
  by_cases hsel : s.notifier.loader.pc = .selectFirst
  · -- the loops start with the routes of the constructor
    obtain ⟨-, hfd⟩ := h.start (.inr hsel)
    rw [hsel]
    refine ⟨hnotifier, htaken, ⟨.init ⟨_, rfl⟩, h.uplink.shard, h.uplink.home, fun fd heq => ?_⟩,
      rfl, (by rintro key ⟨⟩), fun hstart => ?_⟩
    · cases hfd.symm.trans heq
    · cases hsel.symm.trans (start_of_load hstart)
  · have howes : ∀ key, s.uplink.server.unannounced key = true →
        (s.notifier.loader.pc = .push → key ∉ s.notifier.loader.changes) →
          (s.notifier.load ws ok now).Owes key := fun key hun hpush =>
      (h.owes key hun).load h.taken hsel hpush ws ok now
    cases s.notifier.loads ws ok now with
    | first hpc => exact absurd hpc hsel
    | @swap changed hpc hpc' hdata =>
      rw [hpc]
      refine ⟨hnotifier, htaken, uplink_announce h.uplink hposting id, rfl, fun key hun => ?_,
        fun hstart => ?_⟩
      · rcases Bool.or_eq_true_iff.mp hun with hun | halters
        · exact howes key hun (by simp [hpc])
        · rw [hdata, h.data] at halters
          exact h.taken.owes_of_swap hpc halters ws ok now
      · cases hpc.symm.trans (start_of_load hstart)
    | push hpc hpc' hdata =>
      rw [hpc]
      refine ⟨hnotifier, htaken, uplink_announce h.uplink hposting id, ?_, fun key hun => ?_,
        fun hstart => ?_⟩
      · exact h.data.trans hdata.symm
      · obtain ⟨hun, hno⟩ := Bool.and_eq_true_iff.mp hun
        exact howes key hun fun _ => by simpa using hno
      · cases hpc.symm.trans (start_of_load hstart)
    | reload hok hpc hpc' htmp htmpSeen hdata =>
      rw [hpc]
      refine ⟨hnotifier, htaken, h.uplink, h.data.trans hdata.symm, fun key hun => ?_,
        fun hstart => ?_⟩
      · exact howes key hun (by simp [hpc])
      · cases hpc.symm.trans (start_of_load hstart)
    | other hpc hpc' hdata =>
      obtain ⟨hswap, hpush⟩ := hpc
      have hserver : (match s.notifier.loader.pc with
          | .selectFirst => .new (s.notifier.load ws ok now).loader.data
          | .swap _ => s.uplink.server.next (.swap (s.notifier.load ws ok now).loader.data)
          | .push => s.uplink.server.next (.push s.notifier.loader.changes)
          | _ => s.uplink.server) = s.uplink.server := by
        split
        · next heq => exact absurd heq hsel
        · next heq => exact absurd heq (hswap _)
        · next heq => exact absurd heq hpush
        · rfl
      rw [hserver]
      refine ⟨hnotifier, htaken, h.uplink, h.data.trans hdata.symm, fun key hun => ?_,
        fun hstart => ?_⟩
      · exact howes key hun fun heq => absurd heq hpush
      · exact h.start (.inl (start_of_load hstart))

/-- Something happens at the loops or at the agent. -/
theorem Inv.uplinkStep (h : s.Inv cfg) {e : Uplink.Event n} {u : Uplink n}
    (hboot : AtServer e → s.notifier.loader.Booted) (hloops : OfLoops e)
    (hs : Uplink.Step cfg s.uplink e u) : Inv cfg { s with uplink := u } := by
  have huplink := h.uplink.step hs
  -- before the constructor is through, nothing happens at the loops
  have hstart : AtServer e → ¬(s.notifier.loader.pc = .loadVersionFirst ∨
      s.notifier.loader.pc = .selectFirst) := fun hat =>
    not_or.mpr ⟨(hboot hat).1, (hboot hat).2.1⟩
  cases hs with
  | @server op hop =>
    obtain ⟨hdata, hun⟩ := next_of_ofLoops s.uplink.server hloops
    exact ⟨h.notifier, h.taken, huplink, hdata.trans h.data, fun key heq =>
      h.owes key (hun ▸ heq), fun hpc => absurd hpc (hstart trivial)⟩
  | connect hfd hop =>
    exact ⟨h.notifier, h.taken, huplink, h.data, h.owes, fun hpc => absurd hpc (hstart trivial)⟩
  | abort =>
    exact ⟨h.notifier, h.taken, huplink, h.data, h.owes, fun hpc => ⟨(h.start hpc).1, rfl⟩⟩
  | agent hop hex => exact ⟨h.notifier, h.taken, huplink, h.data, h.owes, h.start⟩
  | recvRoute hinbox hi hex => exact ⟨h.notifier, h.taken, huplink, h.data, h.owes, h.start⟩

/-- A step of the database, the loader, the server or the agent keeps the invariant. -/
theorem Inv.step {e : Event n} (h : s.Inv cfg) (hs : Step cfg ws s e s') : s'.Inv cfg := by
  cases hs with
  | commit t =>
    exact ⟨h.notifier.commit t, h.taken.commit h.notifier t, h.uplink, h.data,
      fun key hun => (h.owes key hun).commit t, h.start⟩
  | query ok now hposting => exact h.query ok now hposting
  | uplink hboot hloops hs => exact h.uplinkStep hboot hloops hs

/-- It holds in every reachable state. -/
theorem inv_of_reachable (h : (system cfg ws).Reachable s) : s.Inv cfg := by
  refine h.invariant ?_ fun _ _ _ _ ih hs => ih.step hs
  rintro ⟨notifier, uplink⟩ ⟨⟨db, hdb, rfl⟩, hserver, hfd, hinbox, hshard⟩
  dsimp only at hserver hfd hinbox hshard
  refine ⟨⟨Nat.zero_le _, Nat.zero_le _, by simp [Loader.new], by simp [Loader.new],
    by simp [Loader.new], fun _ => rfl⟩, ⟨hdb, rfl, by simp [Loader.new], le_rfl, by simp⟩,
    Uplink.inv_of_reachable (.init ⟨⟨_, hserver⟩, hfd, hinbox, hshard⟩), ?_, fun key hun => ?_,
    fun _ => ⟨hserver, hfd⟩⟩
  · rw [hserver]
    rfl
  · rw [hserver] at hun
    cases hun

/-! ## At rest -/

/-- At rest, the shard of a subscribed module has the hosts that are on line. -/
theorem Inv.mem_iff_onLine (h : s.Inv cfg) (hann : s.notifier.Announced) (hrest : s.uplink.AtRest)
    {fd : ℕ} (hfd : s.uplink.fd = some fd) {c : Conn n}
    (hc : s.uplink.server.conns.lookup fd = some c) {modid cmdid : Int32} (hk : 0 ≤ cmdid)
    (hkey : packKey modid cmdid ∈ c.interest) {i : Fin 3} {lb : LB}
    (hlb : (s.uplink.shard i).routeMap.lookup (packKey modid cmdid) = some lb)
    (hne : lb.empty = false) (host : HostAddr) : host.key ∈ lb.hostMap ↔
      OnLine (s.notifier.db.history.take s.notifier.dataSeen) modid cmdid host := by
  have hun : s.uplink.server.unannounced (packKey modid cmdid) = false := by
    rw [← Bool.not_eq_true]
    exact fun hun => hann.not_owes _ (h.owes _ hun)
  rw [h.uplink.mem_hosts_iff hrest hfd hc hk hkey hun hlb hne host, h.data, h.taken.data,
    RouteMap.hosts, mem_getHosts_iff_onLine]

/-- Whatever happened before: when the loops are at rest and the loader has pushed all that it has
taken in, a shard with a route of a module that its agent has asked for has exactly the hosts that
are on line after the transactions that were taken in. -/
theorem mem_hostMap_iff_onLine (h : (system cfg ws).Reachable s) (hann : s.notifier.Announced)
    (hrest : s.uplink.AtRest) {fd : ℕ} (hfd : s.uplink.fd = some fd) {c : Conn n}
    (hc : s.uplink.server.conns.lookup fd = some c) {modid cmdid : Int32} (hk : 0 ≤ cmdid)
    (hkey : packKey modid cmdid ∈ c.interest) {i : Fin 3} {lb : LB}
    (hlb : (s.uplink.shard i).routeMap.lookup (packKey modid cmdid) = some lb)
    (hne : lb.empty = false) (host : HostAddr) : host.key ∈ lb.hostMap ↔
      OnLine (s.notifier.db.history.take s.notifier.dataSeen) modid cmdid host :=
  (inv_of_reachable h).mem_iff_onLine hann hrest hfd hc hk hkey hlb hne host

/-! ## After an iteration -/

/-- No operator commits, and no query fails. -/
def Event.Undisturbed : Event n → Prop
  | .commit _ => False
  | .query ok _ => ok = true
  | .uplink _ => True

def Event.isQuery : Event n → Bool
  | .query _ _ => true
  | _ => false

/-- A step deletes no row of the log that the loader has not seen. -/
def DeletesSeen (s : Pipeline n) : Event n → Prop
  | .query ok now => s.notifier.DeletesSeen (.query ok now)
  | _ => True

/-- As long as `rmChanges` deletes only what was seen, no announcement is lost. -/
theorem kept_of_reachable (h : ((system cfg ws).restrict DeletesSeen).Reachable s) :
    s.notifier.loader.Booted → s.notifier.Kept := by
  refine h.invariant (P := fun s => s.notifier.loader.Booted → s.notifier.Kept) ?_ ?_
  · rintro ⟨notifier, uplink⟩ ⟨⟨db, -, rfl⟩, -⟩ hboot
    exact absurd rfl hboot.1
  · rintro s e s' hs hkept ⟨hc, hstep⟩ hboot
    cases hstep with
    | commit t => exact (hkept hboot).commit t
    | query ok now hposting =>
      have hinv := inv_of_reachable hs.of_restrict
      exact Notifier.Kept.load hkept hinv.notifier hc hboot
    | uplink => exact hkept hboot

/-- An undisturbed run takes the loader on by one stage with every query. -/
theorem stage_last {k : ℕ} (hinv : s.Inv cfg) (hstage : Notifier.Stage k s.notifier)
    {tr : List (Event n × Pipeline n)} (hrun : (system cfg ws).Run s tr)
    (hquiet : ∀ x ∈ tr, x.1.Undisturbed) :
    (System.last s tr).Inv cfg ∧
      Notifier.Stage (k + tr.countP fun x => x.1.isQuery) (System.last s tr).notifier := by
  refine hrun.last_of_stages (P := fun k s => s.Inv cfg ∧ Notifier.Stage k s.notifier)
    Event.isQuery ?_ hquiet ⟨hinv, hstage⟩
  rintro k s e s' ⟨hinv, hstage⟩ he hstep
  refine ⟨hinv.step hstep, ?_⟩
  cases hstep with
  | commit t => exact he.elim
  | query ok now hposting =>
    obtain rfl : ok = true := he
    exact hstage.load hinv.notifier hinv.taken ws now
  | uplink => exact hstage

/-- The loader comes upon a new version, operators rest and no query fails. Five queries later,
whenever the loops are at rest, a shard with a route of a module that its agent has asked for has
exactly the hosts on line. What happened before may be anything but the deletion of rows of the log
that the loader had not seen, and the version has to be the latest second of the history. -/
theorem mem_hostMap_iff_onLine_of_iteration
    (h : ((system cfg ws).restrict DeletesSeen).Reachable s)
    (hpc : s.notifier.loader.pc = .loadVersion)
    (hver : s.notifier.db.version ≠ s.notifier.loader.routeVersion)
    (hts : ∀ t ∈ s.notifier.db.history, t.ts ≤ s.notifier.db.version)
    {tr : List (Event n × Pipeline n)} (hrun : (system cfg ws).Run s tr)
    (hquiet : ∀ x ∈ tr, x.1.Undisturbed) (hcount : 5 ≤ tr.countP fun x => x.1.isQuery)
    (hrest : (System.last s tr).uplink.AtRest) {fd : ℕ}
    (hfd : (System.last s tr).uplink.fd = some fd) {c : Conn n}
    (hc : (System.last s tr).uplink.server.conns.lookup fd = some c) {modid cmdid : Int32}
    (hk : 0 ≤ cmdid) (hkey : packKey modid cmdid ∈ c.interest) {i : Fin 3} {lb : LB}
    (hlb : ((System.last s tr).uplink.shard i).routeMap.lookup (packKey modid cmdid) = some lb)
    (hne : lb.empty = false) (host : HostAddr) : host.key ∈ lb.hostMap ↔
      OnLine (System.last s tr).notifier.db.history modid cmdid host := by
  have hinv := inv_of_reachable h.of_restrict
  have hkept := kept_of_reachable h (by simp [Loader.Booted, hpc])
  -- a row of the log has the second of its transaction
  have hversion : ∀ row ∈ s.notifier.db.changeLog, row.version ≤ s.notifier.db.version := by
    intro row hrow
    obtain ⟨t, hget, heq⟩ := Option.map_eq_some_iff.mp (hinv.taken.recorded.version row hrow)
    exact heq ▸ hts t (List.mem_of_getElem? hget)
  obtain ⟨hlast, hstage⟩ := stage_last hinv (k := 0) ⟨hpc, hver, hkept, hversion⟩ hrun hquiet
  obtain ⟨m, hm⟩ := Nat.exists_eq_add_of_le' hcount
  rw [Nat.zero_add, hm] at hstage
  obtain ⟨hseen, hann⟩ : (System.last s tr).notifier.UpToDate := hstage
  rw [hlast.mem_iff_onLine hann hrest hfd hc hk hkey hlb hne host, hseen, List.take_length]

/-- A dnsserver with one loop and an agent, after the constructor and the purge, when a host has
gone on line. -/
def committed : Pipeline 1 where
  notifier := (Notifier.untilReload.take 4).foldl (Notifier.next 10) Notifier.start
  uplink := ⟨.new ∅, none, [], fun _ => .new 1⟩

/-- The run of the examples meets the condition. -/
theorem reachable_committed :
    ((system LbConfigure.default 10).restrict DeletesSeen).Reachable committed := by
  have h₀ : ((system LbConfigure.default 10).restrict DeletesSeen).Reachable
      { committed with notifier := Notifier.start } :=
    .init ⟨⟨_, ⟨rfl, by rintro row ⟨⟩⟩, rfl⟩, rfl, rfl, rfl, fun _ => ⟨1, rfl⟩⟩
  have h₁ := h₀.step (e := (.query true 99 : Event 1)) ⟨⟨nofun, nofun⟩, .query true 99 rfl⟩
  have h₂ := h₁.step (e := (.query true 99 : Event 1)) ⟨⟨nofun, nofun⟩, .query true 99 rfl⟩
  have h₃ := h₂.step (e := (.query true 99 : Event 1))
    ⟨⟨by rintro - - row ⟨⟩, nofun⟩, .query true 99 rfl⟩
  exact h₃.step (e := (.commit ⟨true, ⟨1, 2, 10, 80⟩, 100⟩ : Event 1)) ⟨trivial, .commit _⟩

/-- The agent connects; there is a whole iteration, and the tasks of its push run; a shard is asked
for the module, and the agent asks for its route and reads it. -/
theorem exists_iteration : ∃ tr, (system LbConfigure.default 10).Run committed tr ∧
    (∀ x ∈ tr, x.1.Undisturbed) ∧ (tr.countP fun x => x.1.isQuery) = 5 ∧
      (System.last committed tr).uplink.AtRest ∧ (System.last committed tr).uplink.fd = some 5 ∧
        (System.last committed tr).uplink.server.conns.lookup 5 =
            some ⟨0, [packKey 1 2], [⟨1, 2, [⟨10, 80⟩]⟩]⟩ ∧
          (System.last committed tr).notifier.db.history = [⟨true, ⟨1, 2, 10, 80⟩, 100⟩] ∧
            (System.last committed tr).notifier.dataSeen = 1 ∧
              (System.last committed tr).notifier.pushed = [0] ∧
                ∃ lb, ((System.last committed tr).uplink.shard 0).routeMap.lookup (packKey 1 2) =
                  some lb ∧ lb.empty = false ∧ HostAddr.key ⟨10, 80⟩ ∈ lb.hostMap := by
  refine ⟨_, .cons (e := (.uplink (.connect 5 0) : Event 1))
      (.uplink (fun _ => ⟨nofun, nofun, nofun⟩) trivial (.connect rfl ⟨rfl, rfl, fun _ => rfl⟩)) <|
    .cons (e := (.query true 101 : Event 1)) (.query true 101 rfl) <|
    .cons (e := (.query true 101 : Event 1)) (.query true 101 rfl) <|
    .cons (e := (.query true 101 : Event 1)) (.query true 101 rfl) <|
    .cons (e := (.query true 101 : Event 1)) (.query true 101 rfl) <|
    .cons (e := (.query true 101 : Event 1)) (.query true 101 rfl) <|
    .cons (e := (.uplink (.server .post) : Event 1))
      (.uplink (fun _ => ⟨nofun, nofun, nofun⟩) trivial (.server trivial)) <|
    .cons (e := (.uplink (.server (.task 0)) : Event 1))
      (.uplink (fun _ => ⟨nofun, nofun, nofun⟩) trivial (.server ⟨rfl, by decide⟩)) <|
    .cons (e := (.uplink (.server (.work 0)) : Event 1))
      (.uplink (fun _ => ⟨nofun, nofun, nofun⟩) trivial (.server trivial)) <|
    .cons (e := (.uplink (.server (.work 0)) : Event 1))
      (.uplink (fun _ => ⟨nofun, nofun, nofun⟩) trivial (.server trivial)) <|
    .cons (e := (.uplink (.agent 0 102 (.getHost ⟨0, 1, 2⟩)) : Event 1))
      (.uplink nofun trivial (.agent (by simp) rfl)) <|
    .cons (e := (.uplink (.server (.request 5 1 2)) : Event 1))
      (.uplink (fun _ => ⟨nofun, nofun, nofun⟩) trivial (.server (by rintro c ⟨⟩; rfl))) <|
    .cons (e := (.uplink (.server (.work 0)) : Event 1))
      (.uplink (fun _ => ⟨nofun, nofun, nofun⟩) trivial (.server trivial)) <|
    .cons (e := (.uplink (.server (.work 0)) : Event 1))
      (.uplink (fun _ => ⟨nofun, nofun, nofun⟩) trivial (.server trivial)) <|
    .cons (e := (.uplink (.server (.work 0)) : Event 1))
      (.uplink (fun _ => ⟨nofun, nofun, nofun⟩) trivial (.server trivial)) <|
    .cons (e := (.uplink (.recvRoute 103) : Event 1))
      (.uplink nofun trivial (.recvRoute (i := 0) rfl rfl rfl)) (.nil _), ?_⟩
  refine ⟨by simp [Event.Undisturbed], rfl, ⟨by decide, by decide, rfl, rfl⟩, rfl, rfl, rfl, rfl,
    rfl, _, rfl, rfl, by decide⟩

/-- The transaction has been taken in and pushed, and the shard has its host. -/
theorem mem_hostMap_iff_onLine_pushed :
    OnLine ([⟨true, ⟨1, 2, 10, 80⟩, 100⟩].take 1) 1 2 ⟨10, 80⟩ := by
  obtain ⟨tr, hrun, -, -, hrest, hfd, hc, hhist, hseen, hpushed, lb, hlb, hne, hmem⟩ :=
    exists_iteration
  have h := hrun.reachable_last reachable_committed.of_restrict
  have hann : (System.last committed tr).notifier.Announced := by
    intro id _ hlt
    rw [hseen, Nat.lt_one_iff] at hlt
    rw [hlt, hpushed]
    exact List.mem_cons_self
  have honline := (mem_hostMap_iff_onLine h hann hrest hfd hc (by decide) List.mem_cons_self hlb hne
    ⟨10, 80⟩).mp hmem
  rwa [hhist, hseen] at honline

/-- The iteration has brought the host that was committed before it. -/
theorem mem_hostMap_iff_onLine_committed : OnLine [⟨true, ⟨1, 2, 10, 80⟩, 100⟩] 1 2 ⟨10, 80⟩ := by
  obtain ⟨tr, hrun, hquiet, hcount, hrest, hfd, hc, hhist, -, -, lb, hlb, hne, hmem⟩ :=
    exists_iteration
  have hts : ∀ t ∈ committed.notifier.db.history, t.ts ≤ committed.notifier.db.version := by decide
  have honline := (mem_hostMap_iff_onLine_of_iteration reachable_committed rfl (by decide) hts hrun
    hquiet hcount.ge hrest hfd hc (by decide) List.mem_cons_self hlb hne ⟨10, 80⟩).mp hmem
  rwa [hhist] at honline

end Pipeline

end Elb
