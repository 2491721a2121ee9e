/-
# `Yirang.Fleet.Model` — the API, its queues, and the agents behind them

The whole protocol: clients make requests of the API, the API sends commands
to the queues of devices, agents take them and send reports, and the API
hands the reports to clients.

    Network     the queues, and what became of the copies in them
    answer      what a call of the API finds and leaves there
    State       the network, the requests under way, the agents, and the
                reports on their way
    Step        one call of one request, one message at one agent, one
                message that arrives
    Reachable   what any order of steps leads to

A queue gives a copy to whoever asks, as often as it is asked: receiving a
copy does not take it away, so it can be received again at any time.  A call
that failed may have taken effect, and a report may be lost on its way.

Which agents there are and how each is configured is arbitrary; nothing ties
the queue or the group an agent is configured with to those the API has.
-/
import Yirang.Agent.Handle
import Yirang.Api.Model
import Yirang.Effect.Threads
import Mathlib.Logic.Function.Basic

namespace Yirang

open Fs Effect Device

namespace Api

/-- The group a request is for. -/
def Request.group : Request → String
  | .deploy request => request.group
  | .command request => request.group
  | .results => ""

end Api

namespace Fleet

/-! ## The network -/

/-- Who put a message in a queue: a request, for a group; an agent; or
somebody else. -/
inductive Origin where
  | published (request : Nat) (group : String)
  | reported (agent : Nat)
  | other
deriving DecidableEq

/-- A message in a queue. -/
structure Copy where
  id : Nat
  body : String
  origin : Origin
deriving DecidableEq

/-- The message as the API receives it. -/
def Copy.message (copy : Copy) : Api.Message := ⟨copy.id, copy.body⟩

structure Network where
  queues : String → List Copy := fun _ => []
  /-- Every copy that was ever put in a queue, newest first. -/
  log : List (String × Copy) := []
  /-- What requests deleted. -/
  deleted : List (Nat × Copy) := []
  /-- The responses of requests that were written. -/
  written : List (Nat × Api.Response) := []
  /-- The requests whose response could not be written. -/
  unwritten : List Nat := []

namespace Network

variable (net : Network)

def put (url body : String) (origin : Origin) : Network :=
  { net with
    queues := Function.update net.queues url (net.queues url ++ [⟨net.log.length, body, origin⟩])
    log := (url, ⟨net.log.length, body, origin⟩) :: net.log }

/-- The copies with these ids, as they are asked for. -/
def received (url : String) (picked : List Nat) (max : Int) : List Api.Message :=
  ((picked.filterMap fun id => (net.queues url).find? fun copy => copy.id = id).take
    max.toNat).map Copy.message

/-- The copies in a queue for which `gone` holds are deleted from it. -/
def remove (url : String) (gone : Copy → Bool) : Network :=
  { net with
    queues := Function.update net.queues url ((net.queues url).filter fun copy => !gone copy) }

end Network

/-- What one call of the API depends on beside the network. -/
structure Turn where
  /-- The call fails, with this error. -/
  fault : Option String := none
  /-- A send that fails has put the message in the queue all the same. -/
  landed : Bool := false
  /-- Which copies are received, or are deleted by a call that fails. -/
  picked : List Nat := []
  /-- In which order goroutines get to their call. -/
  order : List Nat := []

/-- A request that is served, and its number. -/
structure Serving where
  number : Nat
  request : Api.Request

def Serving.origin (serving : Serving) : Origin :=
  .published serving.number serving.request.group

def answer (serving : Serving) : Answers cloud Network Turn
  | c, .send url body, net =>
      match c.fault with
      | none => (.ok (toString net.log.length), net.put url body serving.origin)
      | some e => (.error e, if c.landed then net.put url body serving.origin else net)
  | c, .receive url max _, net =>
      match c.fault with
      | none => (.ok (net.received url c.picked max), net)
      | some e => (.error e, net)
  | c, .delete url messages, net =>
      let gone : Copy → Bool := fun copy =>
        messages.contains copy.message && (c.fault.isNone || c.picked.contains copy.id)
      (match c.fault with
        | none => .ok ()
        | some e => .error e,
        { net.remove url gone with
          deleted := ((net.queues url).filter gone).map (serving.number, ·) ++ net.deleted })
  | c, .interleaving n, net => (arrange c.order (List.range n), net)
  | c, .respond _ response, net =>
      match c.fault with
      | none => (.ok (), { net with written := (serving.number, response) :: net.written })
      | some e => (.error e, { net with unwritten := serving.number :: net.unwritten })

section Answer

variable (serving : Serving) (c : Turn) (net : Network) {url body : String}

theorem answer_send :
    (answer serving c (.send url body) net).2 = net.put url body serving.origin ∨
      (answer serving c (.send url body) net).2 = net := by
  simp only [answer]
  cases c.fault with
  | none => exact .inl rfl
  | some e =>
      cases c.landed
      · exact .inr rfl
      · exact .inl rfl

theorem answer_receive {max wait : Int} :
    (answer serving c (.receive url max wait) net).2 = net := by
  simp only [answer]
  cases c.fault <;> rfl

/-- Only copies of the messages it is given are deleted. -/
theorem answer_delete {messages : List Api.Message} :
    ∃ (gone : Copy → Bool) (deleted : List Copy),
      (answer serving c (.delete url messages) net).2 =
        { net.remove url gone with
          deleted := deleted.map (serving.number, ·) ++ net.deleted } ∧
      ∀ copy ∈ deleted, copy ∈ net.queues url ∧ copy.message ∈ messages := by
  refine ⟨_, _, rfl, fun copy hc => ?_⟩
  obtain ⟨hq, hg⟩ := List.mem_filter.mp hc
  simp only [Bool.and_eq_true] at hg
  exact ⟨hq, by simpa using hg.1⟩

theorem answer_respond {status : Nat} {response : Api.Response} :
    (answer serving c (.respond status response) net).2 =
        { net with written := (serving.number, response) :: net.written } ∨
      (answer serving c (.respond status response) net).2 =
        { net with unwritten := serving.number :: net.unwritten } := by
  simp only [answer]
  cases c.fault with
  | none => exact .inl rfl
  | some e => exact .inr rfl

end Answer

/-! ## The log -/

namespace Network

/-- What is in a queue was put there. -/
def Logged (net : Network) : Prop := ∀ url, ∀ copy ∈ net.queues url, (url, copy) ∈ net.log

namespace Logged

variable {net : Network} {url body : String} {origin : Origin} {gone : Copy → Bool}

theorem put (h : net.Logged) : (net.put url body origin).Logged := by
  intro url' copy hc
  by_cases hu : url' = url
  · subst hu
    simp only [Network.put, Function.update_self, List.mem_append, List.mem_singleton] at hc
    rcases hc with hc | rfl
    · exact List.mem_cons_of_mem _ (h _ _ hc)
    · exact List.mem_cons_self
  · simp only [Network.put, Function.update_of_ne hu] at hc
    exact List.mem_cons_of_mem _ (h _ _ hc)

theorem remove (h : net.Logged) : (net.remove url gone).Logged := by
  intro url' copy hc
  by_cases hu : url' = url
  · subst hu
    simp only [Network.remove, Function.update_self] at hc
    exact h _ _ (List.mem_filter.mp hc).1
  · simp only [Network.remove, Function.update_of_ne hu] at hc
    exact h _ _ hc

/-- A call of a request keeps the log, and forgets nothing of it. -/
theorem answered {serving : Serving} {c : Turn} {o : Api.Op} (h : net.Logged) :
    (answer serving c o net).2.Logged ∧ ∀ e ∈ net.log, e ∈ (answer serving c o net).2.log := by
  cases o with
  | send url body =>
      rcases answer_send serving c net with he | he
      · rw [he]
        exact ⟨h.put, fun e hm => List.mem_cons_of_mem _ hm⟩
      · rw [he]
        exact ⟨h, fun e hm => hm⟩
  | receive url max wait =>
      rw [answer_receive]
      exact ⟨h, fun e hm => hm⟩
  | delete url messages => exact ⟨h.remove, fun e hm => hm⟩
  | interleaving n => exact ⟨h, fun e hm => hm⟩
  | respond status response =>
      rcases answer_respond serving c net with he | he
      · rw [he]
        exact ⟨h, fun e hm => hm⟩
      · rw [he]
        exact ⟨h, fun e hm => hm⟩

end Logged

end Network

/-! ## The fleet -/

/-- How the API is configured, how each agent is, and the JSON libraries of
both. -/
structure Setup where
  api : Api.Config
  apiCodec : Codec
  agents : Nat → Agent.Configurations
  agentCodec : Codec

def Setup.service (S : Setup) (i : Nat) : Agent.AgentService :=
  (S.agents i).agentService S.agentCodec

/-- The queue an agent consumes. -/
def Setup.queueUrl (S : Setup) (i : Nat) : String := (S.agents i).queueUrl

/-- An agent: whether it runs, its host, and the copies it is done with. -/
structure Member where
  phase : Phase Agent.Memory := .down
  host : Host
  done : List Nat := []

abbrev Requests := List (Thread Serving cloud Unit (Except Api.ApiError Unit))

structure State where
  net : Network := {}
  requests : Requests := []
  members : Nat → Member
  /-- Reports on their way: the agent, the queue, and the text. -/
  flight : List (Nat × String × String) := []
  /-- The copies that agents have begun to handle, newest first. -/
  taken : List (Nat × Copy) := []

namespace State

variable (s : State)

/-- A program that an agent ran has left it so. -/
def settled (i : Nat) (member : Member) (sent : List (String × String)) : State :=
  { s with
    members := Function.update s.members i member
    flight := sent.map (i, ·) ++ s.flight }

def take (i : Nat) (copy : Copy) : State := { s with taken := (i, copy) :: s.taken }

end State

/-- A request, from its first call on. -/
def Setup.serving (S : Setup) (serving : Serving) :
    Thread Serving cloud Unit (Except Api.ApiError Unit) :=
  ⟨serving, (), (Api.serve S.api S.apiCodec serving.request).run⟩

/-- An agent runs a program on its host, and these are the messages it
sends. -/
def Ran (p : Program agent Agent.Memory (Except String Unit)) (m : Agent.Memory) (h : Host)
    (out : Outcome agent Agent.Memory (Except String Unit)) (h' : Host)
    (sent : List (String × String)) : Prop :=
  Exec Agent.answer (fun _ _ _ => True) p m h out h' ∧ h'.sent = sent ++ h.sent

inductive Step (S : Setup) : State → State → Prop
  /-- A client makes a request. -/
  | request {s : State} (r : Api.Request) :
      Step S s { s with requests := s.requests ++ [S.serving ⟨s.requests.length, r⟩] }
  /-- A request makes one call. -/
  | turn {s : State} {requests : Requests} {net : Network} :
      Pool.Step answer (fun _ _ _ _ => True) s.requests s.net requests net →
      Step S s { s with net, requests }
  /-- Somebody else sends a message. -/
  | arrive {s : State} (url body : String) : Step S s { s with net := s.net.put url body .other }
  /-- A report arrives. -/
  | land {s : State} (before after : List (Nat × String × String)) {i : Nat} {url body : String} :
      s.flight = before ++ (i, url, body) :: after →
      Step S s { s with net := s.net.put url body (.reported i), flight := before ++ after }
  /-- A report is lost. -/
  | lose {s : State} (before after : List (Nat × String × String)) {i : Nat} {url body : String} :
      s.flight = before ++ (i, url, body) :: after →
      Step S s { s with flight := before ++ after }
  /-- An agent starts. -/
  | boot {s : State} (i : Nat) {h h' : Host} {done : List Nat} {r : Except String Unit}
      {m : Agent.Memory} (sent : List (String × String)) : s.members i = ⟨.down, h, done⟩ →
      Ran (S.service i).service.boot (S.service i).service.fresh h (.done r m) h' sent →
      Step S s (s.settled i ⟨.up m, h', []⟩ sent)
  /-- An agent is killed while it starts. -/
  | bootKilled {s : State} (i : Nat) {h h' : Host} {done : List Nat} {m : Agent.Memory}
      {o : Agent.Op} (sent : List (String × String)) : s.members i = ⟨.down, h, done⟩ →
      Ran (S.service i).service.boot (S.service i).service.fresh h (.before m o) h' sent →
      Step S s (s.settled i ⟨.down, h', []⟩ sent)
  /-- An agent takes a copy from its queue and handles it.  It is done with
  the copy if `handle` returned well. -/
  | handle {s : State} (i : Nat) {h h' : Host} {done : List Nat} {m m' : Agent.Memory}
      {ret : Except String Unit} (copy : Copy) (sent : List (String × String)) :
      s.members i = ⟨.up m, h, done⟩ → copy ∈ s.net.queues (S.queueUrl i) →
      Ran ((S.service i).service.serve copy.body) m h (.done ret m') h' sent →
      Step S s (((s.take i copy).settled i
        ⟨.up m', h', if ret.isOk then copy.id :: done else done⟩ sent))
  /-- An agent is killed while it handles a copy. -/
  | killed {s : State} (i : Nat) {h h' : Host} {done : List Nat} {m m' : Agent.Memory}
      {o : Agent.Op} (copy : Copy) (sent : List (String × String)) :
      s.members i = ⟨.up m, h, done⟩ → copy ∈ s.net.queues (S.queueUrl i) →
      Ran ((S.service i).service.serve copy.body) m h (.before m' o) h' sent →
      Step S s ((s.take i copy).settled i ⟨.down, h', []⟩ sent)
  /-- An agent ends. -/
  | exit {s : State} (i : Nat) {h : Host} {done : List Nat} {m : Agent.Memory} :
      s.members i = ⟨.up m, h, done⟩ → Step S s (s.settled i ⟨.down, h, []⟩ [])
  /-- A copy that an agent is done with is deleted from its queue. -/
  | finish {s : State} (i : Nat) {id : Nat} : id ∈ (s.members i).done →
      Step S s { s with net := s.net.remove (S.queueUrl i) fun copy => copy.id = id }
  /-- What happens on a host without its agent. -/
  | device {s : State} (i : Nat) (w : World) :
      Step S s (s.settled i
        { s.members i with host := { (s.members i).host with device := w } } [])

/-- What the fleet can reach: at first nothing has been sent, and no agent
runs. -/
inductive Reachable (S : Setup) : State → Prop
  | start (hosts : Nat → Host) : Reachable S { members := fun i => { host := hosts i } }
  | step {s s' : State} : Reachable S s → Step S s s' → Reachable S s'

/-- A request that is served without a pause. -/
theorem Reachable.served {S : Setup} {s : State} {serving : Serving}
    {p : Program cloud Unit (Except Api.ApiError Unit)} (older newer : Requests)
    {r : Except Api.ApiError Unit} {net : Network} (hr : Reachable S s)
    (hs : s.requests = older ++ ⟨serving, (), p⟩ :: newer)
    (he : Exec (answer serving) (fun _ _ _ => True) p () s.net (.done r ()) net) :
    Reachable S { s with net, requests := older ++ ⟨serving, (), .pure r⟩ :: newer } := by
  refine Pool.steps_of_exec (P := fun requests net => Reachable S { s with net, requests })
    (A := fun _ _ _ _ => True) (fun _ _ _ _ h ht => .step h (.turn ht)) he ?_
  rw [← hs]
  exact hr

/-- What is in a queue was put there, and what an agent took was in its. -/
structure State.Logged (S : Setup) (s : State) : Prop where
  queued : s.net.Logged
  taken : ∀ i copy, (i, copy) ∈ s.taken → (S.queueUrl i, copy) ∈ s.net.log

theorem State.Logged.take {S : Setup} {s : State} (h : s.Logged S) {i : Nat} {copy : Copy}
    (hc : copy ∈ s.net.queues (S.queueUrl i)) : (s.take i copy).Logged S where
  queued := h.queued
  taken j copy' ht := by
    rcases List.mem_cons.mp ht with he | ht
    · cases he
      exact h.queued _ _ hc
    · exact h.taken j copy' ht

theorem Reachable.logged {S : Setup} {s : State} (hr : Reachable S s) : s.Logged S := by
  induction hr with
  | start hosts =>
      refine ⟨?_, ?_⟩
      · exact fun _ _ h => by cases h
      · exact fun _ _ h => by cases h
  | @step s s' _ hs h =>
      cases hs with
      | request r => exact ⟨h.queued, h.taken⟩
      | turn ht =>
          obtain ⟨hq, hl⟩ := ht.preserves
            (P := fun net => net.Logged ∧ ∀ e ∈ s.net.log, e ∈ net.log)
            (fun _ _ _ _ h => ⟨h.1.answered.1, fun e he => h.1.answered.2 e (h.2 e he)⟩)
            ⟨h.queued, fun _ he => he⟩
          exact ⟨hq, fun i copy hc => hl _ (h.taken i copy hc)⟩
      | arrive url body =>
          exact ⟨h.queued.put, fun i copy hc => List.mem_cons_of_mem _ (h.taken i copy hc)⟩
      | land _ _ _ =>
          exact ⟨h.queued.put, fun i copy hc => List.mem_cons_of_mem _ (h.taken i copy hc)⟩
      | lose _ _ _ => exact ⟨h.queued, h.taken⟩
      | boot i _ _ _ => exact ⟨h.queued, h.taken⟩
      | bootKilled i _ _ _ => exact ⟨h.queued, h.taken⟩
      | handle i _ _ _ hc _ => exact ⟨h.queued, (h.take hc).taken⟩
      | killed i _ _ _ hc _ => exact ⟨h.queued, (h.take hc).taken⟩
      | exit i _ => exact ⟨h.queued, h.taken⟩
      | finish i _ => exact ⟨h.queued.remove, h.taken⟩
      | device i w => exact ⟨h.queued, h.taken⟩

/-! ## A small fleet -/

namespace Sample

/-- A library that knows one text. -/
def codec (text : String) (value : Json) : Codec where
  parse s := if s = text then .ok value else .error "syntax error"
  serialize v := if Json.same v value then text else ""

/-- One queue, of one group. -/
def api : Api.Config where
  deviceQueues := [{ name := "first", url := "commands", group := "east" }]
  resultQueueUrl := "results"

/-- The one text is the command to restart the service, as the API writes
it. -/
def library : Codec :=
  codec "restart" (.object (Api.agentMessage "restart_service" (.object []) "east" "results"))

/-- All agents consume the one queue; the first is in its group. -/
def setup : Setup where
  api := api
  apiCodec := library
  agents i :=
    { Agent.Sample.configurations with
      group := if i = 0 then "east" else "west"
      serviceRoot := "" }
  agentCodec := library

/-- Nothing has happened yet. -/
def start : State := { members := fun _ => { host := Agent.Sample.host } }

end Sample

end Fleet

end Yirang
