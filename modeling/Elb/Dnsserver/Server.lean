import Elb.Common.Transition
import Elb.Dnsserver.Route
import Elb.Dnsserver.SubscribeList

/-!
# The worker loops of dnsserver

Reference: `dnsserver/src/Server.cc`; `swap` and `push` in `dataLoader`, `dnsserver/src/Route.cc`.

Every connection belongs to one loop, and a loop runs one handler at a time. What a handler does
between two accesses to shared tables is one step here, so `Handler` says where a handler stands.
The loader swaps in new routes and pushes changes at any moment between these steps; what it read
from the database does not matter here.
-/

namespace Elb

open Transition

/-- A connection: its loop, its `Interest` and the responses sent on it, the last one first. -/
structure Conn (n : ℕ) where
  loop : Fin n
  interest : List UInt64
  sent : List GetRouteRsp

/-- Where the handler of a loop stands.

* `getRoute` is about to subscribe, to read the hosts, or to send them;
* `pushChange` knows the connections of its loop and is about to fetch, is about to read the hosts
  of the first module of `news`, or is about to send them;
* `clearSubscribe` has a connection's modules left to unsubscribe. -/
inductive Handler
  | idle
  | subscribing (fd : ℕ) (modid cmdid : Int32)
  | reading (fd : ℕ) (modid cmdid : Int32)
  | sending (fd : ℕ) (rsp : GetRouteRsp)
  | fetching (listening : List ℕ)
  | pushing (news : List (ℕ × UInt64))
  | pushSending (fd : ℕ) (rsp : GetRouteRsp) (news : List (ℕ × UInt64))
  | closing (fd : ℕ) (book : List UInt64)
deriving DecidableEq

/-- `clearSubscribe` is at work on the descriptor. -/
def Handler.closes (fd : ℕ) : Handler → Bool
  | .closing fd' _ => fd' = fd
  | _ => false

/-- The server with `n` loops: the routes, the subscriptions, the connections, the handlers, how
many `pushChange` tasks are posted on each loop, and on which loops `run_task` has still to post
one. `unannounced` holds of the modules that a swap altered and no push has named since. -/
structure Server (n : ℕ) where
  data : RouteMap
  list : SubscribeList
  conns : HashMap ℕ (Conn n)
  handler : Fin n → Handler
  posted : Fin n → ℕ
  posting : List (Fin n)
  unannounced : UInt64 → Bool

/-- The node that a value of a host set stands for. -/
def hostOf (value : UInt64) : HostAddr := ⟨unpackHi value, unpackLo value⟩

/-- The response with the hosts of a module. -/
def routeRsp (modid cmdid : Int32) (data : RouteMap) : GetRouteRsp :=
  ⟨modid, cmdid, (data.getHosts modid cmdid).map hostOf⟩

/-- A swap alters the host set of the module. -/
def alters (data data' : RouteMap) (key : UInt64) : Bool :=
  !decide ((data.lookup key).getD [] ⊆ (data'.lookup key).getD [] ∧
    (data'.lookup key).getD [] ⊆ (data.lookup key).getD [])

namespace Server

variable {n : ℕ}

/-- `event_loop::nlistenings`: the connections of the loop. -/
def listening (l : Fin n) (s : Server n) : List ℕ :=
  (s.conns.entries.filter fun e => e.2.loop = l).map (·.1)

/-- Put the handler of a loop elsewhere. -/
def setHandler (s : Server n) (l : Fin n) (h : Handler) : Server n :=
  { s with handler := Function.update s.handler l h }

/-- `send_data` on the connection of the descriptor. -/
def deliver (fd : ℕ) (rsp : GetRouteRsp) (s : Server n) : Server n :=
  match s.conns.lookup fd with
  | none => s
  | some c => { s with conns := s.conns.insert fd { c with sent := rsp :: c.sent } }

/-- What happens next: a connection is made, asks for a route, or is closed; a loop does the next
part of its handler, or starts a posted `pushChange`; the loader swaps, pushes, or posts a task. -/
inductive Op (n : ℕ)
  | accept (fd : ℕ) (l : Fin n)
  | request (fd : ℕ) (modid cmdid : Int32)
  | close (fd : ℕ)
  | work (l : Fin n)
  | task (l : Fin n)
  | swap (data : RouteMap)
  | push (changes : List UInt64)
  | post

/-- A handler starts on an idle loop. A descriptor is not used again before its close callback has
run. The loader posts all tasks of a push before it goes on. -/
def Allowed (s : Server n) : Op n → Prop
  | .accept fd l => s.conns.lookup fd = none ∧ s.handler l = .idle ∧
      ∀ l', (s.handler l').closes fd = false
  | .request fd _ _ => ∀ c, s.conns.lookup fd = some c → s.handler c.loop = .idle
  | .close fd => ∀ c, s.conns.lookup fd = some c → s.handler c.loop = .idle
  | .work _ => True
  | .task l => s.handler l = .idle ∧ 0 < s.posted l
  | .swap _ => s.posting = []
  | .push _ => s.posting = []
  | .post => True

instance (s : Server n) : ∀ op, Decidable (s.Allowed op)
  | .accept fd l => by
    have : Decidable (s.conns.lookup fd = none) :=
      decidable_of_iff ((s.conns.lookup fd).isNone = true) Option.isNone_iff_eq_none
    exact inferInstanceAs (Decidable (_ ∧ _ ∧ _))
  | .request fd _ _ =>
    inferInstanceAs (Decidable (∀ c ∈ s.conns.lookup fd, s.handler c.loop = .idle))
  | .close fd => inferInstanceAs (Decidable (∀ c ∈ s.conns.lookup fd, s.handler c.loop = .idle))
  | .work _ => inferInstanceAs (Decidable True)
  | .task l => inferInstanceAs (Decidable (s.handler l = .idle ∧ 0 < s.posted l))
  | .swap _ => inferInstanceAs (Decidable (s.posting = []))
  | .push _ => inferInstanceAs (Decidable (s.posting = []))
  | .post => inferInstanceAs (Decidable True)

/-- The next part of the handler of a loop. -/
def work (l : Fin n) (s : Server n) : Server n :=
  match s.handler l with
  | .idle => s
  | .subscribing fd modid cmdid =>
    { s with list := s.list.subscribe (packKey modid cmdid) fd }.setHandler l
      (.reading fd modid cmdid)
  | .reading fd modid cmdid => s.setHandler l (.sending fd (routeRsp modid cmdid s.data))
  | .sending fd rsp => (s.deliver fd rsp).setHandler l .idle
  | .fetching listening =>
    let fetched := s.list.fetchPush listening
    { s with list := fetched.2 }.setHandler l (.pushing fetched.1)
  | .pushing [] => s.setHandler l .idle
  | .pushing ((fd, mod) :: news) =>
    s.setHandler l (.pushSending fd (routeRsp (unpackHi mod) (unpackLo mod) s.data) news)
  | .pushSending fd rsp news => (s.deliver fd rsp).setHandler l (.pushing news)
  | .closing _ [] => s.setHandler l .idle
  | .closing fd (mod :: book) =>
    { s with list := s.list.unsubscribe mod fd }.setHandler l (.closing fd book)

/-- One step. -/
def next (s : Server n) : Op n → Server n
  | .accept fd l => { s with conns := s.conns.insert fd ⟨l, [], []⟩ }
  | .request fd modid cmdid =>
    let key := packKey modid cmdid
    match s.conns.lookup fd with
    | none => s
    | some c =>
      if key ∈ c.interest then
        s.setHandler c.loop (.reading fd modid cmdid)
      else
        { s with conns := s.conns.insert fd { c with interest := key :: c.interest } }.setHandler
          c.loop (.subscribing fd modid cmdid)
  | .close fd =>
    match s.conns.lookup fd with
    | none => s
    | some c =>
      { s with conns := s.conns.erase fd }.setHandler c.loop (.closing fd c.interest)
  | .work l => s.work l
  | .task l =>
    { s with posted := Function.update s.posted l (s.posted l - 1) }.setHandler l
      (.fetching (s.listening l))
  | .swap data =>
    { s with
      data := data
      unannounced := fun key => s.unannounced key || alters s.data data key }
  | .push changes =>
    { s with
      list := s.list.push changes
      posting := List.finRange n
      unannounced := fun key => s.unannounced key && !decide (key ∈ changes) }
  | .post =>
    match s.posting with
    | [] => s
    | l :: posting =>
      { s with posted := Function.update s.posted l (s.posted l + 1), posting := posting }

/-- A server without connections. -/
def new (data : RouteMap) : Server n :=
  ⟨data, ⟨∅, ∅⟩, ∅, fun _ => .idle, fun _ => 0, [], fun _ => false⟩

/-- Runs of a server that starts with any routes. -/
def system (n : ℕ) : System (Server n) (Op n) where
  init s := ∃ data, s = new data
  step s op s' := s.Allowed op ∧ s' = s.next op

end Server

end Elb
