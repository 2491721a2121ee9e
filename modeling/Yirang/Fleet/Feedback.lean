/-
# `Yirang.Fleet.Feedback` — a report that comes back as a command

A report has a `command` field, so an agent that finds one in its own queue
runs the command again.  The configuration is checked for that: the queue of
the results is not the queue of the commands.  But a message may name the
queue of its report itself, and that name nothing checks.

    handle_sends       where an agent sends what it sends
    handle_reports     that it can send, whatever the message
    no_feedback_iff    for one message: exactly when nothing goes to the
                       agent's own queue; for a run: when nothing comes back
    command_again      the run in which a report comes back
-/
import Yirang.Fleet.Model

namespace Yirang.Agent

open Fs Effect

variable {a : AgentService} {A : Host → Op → Turn → Prop}

/-- The queue a message names for its report. -/
def AgentService.reply (a : AgentService) (raw : String) : String :=
  match parseAgentMessage a.codec raw with
  | .error _ => ""
  | .ok message => message.replyQueueUrl

/-- What was sent from `h` to `h'` went to this queue. -/
def SentTo (url : String) (h h' : Host) : Prop :=
  ∃ new, h'.sent = new ++ h.sent ∧ ∀ e ∈ new, e.1 = url

theorem SentTo.nothing {url : String} {h h' : Host} (he : h'.sent = h.sent) : SentTo url h h' :=
  ⟨[], he, fun _ h => by cases h⟩

section

variable {url : String} {h h' : Host} {m : Memory}

theorem report_sends {command reply : String} {outcome : Except String Unit}
    (hs : h'.sent = h.sent) :
    wp answer A (fun _ h' _ => SentTo (destination a reply) h h')
      (report a command reply outcome).run
      (fun _ _ h' => SentTo (destination a reply) h h') m h' := by
  unfold report
  split
  · exact .nothing hs
  · refine ⟨.nothing hs, fun c _ => ⟨[(_, _)], congrArg _ hs, fun e he => ?_⟩⟩
    rw [List.mem_singleton] at he
    rw [he]

/-- All that an agent sends of a message goes to one queue, also when it is
killed. -/
theorem handle_sends {raw : String} :
    wp answer A (fun _ h' _ => SentTo (destination a (a.reply raw)) h h') (handle a raw).run
      (fun _ _ h' => SentTo (destination a (a.reply raw)) h h') m h := by
  have hsettle : ∀ {v : Verdict} {m' : Memory} {h' : Host},
      SentTo (destination a (a.reply raw)) h h' →
      wp answer A (fun _ h' _ => SentTo (destination a (a.reply raw)) h h') (settle raw v).run
        (fun _ _ h' => SentTo (destination a (a.reply raw)) h h') m' h' := by
    intro v m' h' hs
    unfold settle
    split
    · refine wp_load_seq.mpr ?_
      show wp _ _ _ (ExceptT.run (ite _ _ _)) _ _ _
      split
      · exact hs
      · exact hs
    · exact hs
  refine wp_seq_of (P := fun _ _ h' => SentTo (destination a (a.reply raw)) h h') ?_
    (fun _ _ _ hs => hsettle hs) (fun _ _ _ hs => hs)
  unfold dispatch AgentService.reply
  cases hp : parseAgentMessage a.codec raw with
  | error e =>
      exact wp_seq_of (report_sends rfl) (fun _ _ _ hs => hs) (fun _ _ _ hs => hs)
  | ok message =>
      simp only
      split
      · exact wp_seq_of (report_sends rfl) (fun _ _ _ hs => hs) (fun _ _ _ hs => hs)
      · cases hl : (messages a).lookup message.command with
        | none => exact wp_seq_of (report_sends rfl) (fun _ _ _ hs => hs) (fun _ _ _ hs => hs)
        | some handler =>
            -- a handler sends nothing
            have hquiet := quiet_spec (A := A) (h := h)
              (B := fun _ h' _ => SentTo (destination a message.replyQueueUrl) h h')
              (m := { m with failureIsPermanent := false }) (quiet_handler hl message.payload)
              fun _ _ _ hs => .nothing hs
            refine wp_load_seq.mpr (wp_store_seq.mpr ?_)
            refine wp_seq.mpr (wp_attempt.mpr (wp_conseq hquiet ?_))
            rintro ended m₁ h₁ ⟨-, hs₁⟩
            refine wp_returned_seq (fun outcome _ => ?_) fun _ _ => .nothing hs₁
            exact wp_seq_of (report_sends hs₁) (fun _ _ _ hs => hs) (fun _ _ _ hs => hs)

theorem boot_sends :
    wp answer A (fun _ h' _ => h'.sent = h.sent) a.service.boot (fun _ _ h' => h'.sent = h.sent) m
      h := by
  show wp answer A _ (resumeActive a).run _ m h
  unfold resumeActive
  cases a.engine with
  | none => exact rfl
  | some cfg =>
      refine wp_seq.mpr (wp_conseq (quiet_spec quiet_onEngine fun _ _ _ hs => hs) ?_)
      rintro (e | r) m' h' ⟨-, hs⟩
      · exact hs
      · exact hs

end

/-! ## A device that answers nothing

A message whose handler throws is not reported.  Where every call fails, no
handler gets as far as the walk that may throw. -/

/-- Every call fails. -/
def unanswered : Host → Op → Turn → Prop := fun _ _ c => c = Sample.failing

/-- The part ends without an exception. -/
def Returns {α : Type} (p : Act agent Memory Failure α) : Prop :=
  ∀ m h, wp answer unanswered Anywhere p.run (fun r _ _ => ∀ what, r ≠ .error (.threw what)) m h

section Returns

variable {α β : Type}

theorem Returns.seq {p : Act agent Memory Failure α} {k : α → Act agent Memory Failure β}
    (hp : Returns p) (hk : ∀ x, Returns (k x)) : Returns (p >>= k) := fun m h =>
  wp_seq_of (hp m h) (fun x m' h' _ => hk x m' h') fun _ _ _ hr what he => by
    cases he
    exact hr what rfl

/-- A call, which fails, and the rest. -/
theorem Returns.call_seq {o : Op} {k : o.Res → Act agent Memory Failure β}
    (hk : ∀ h, Returns (k (answer Sample.failing o h).1)) : Returns (call o >>= k) := fun m h =>
  ⟨trivial, fun c hc => by
    cases hc
    exact hk h m _⟩

theorem Returns.ite {c : Prop} [Decidable c] {p q : Act agent Memory Failure α}
    (hp : Returns p) (hq : Returns q) : Returns (if c then p else q) := by
  split
  · exact hp
  · exact hq

theorem returns_ok {x : α} : Returns (pure x) := fun _ _ _ he => by cases he

theorem returns_said {reason : String} :
    Returns (throw (.said reason) : Act agent Memory Failure α) := fun _ _ _ he => by cases he

theorem returns_permanent {reason : String} :
    Returns (permanent reason : Act agent Memory Failure α) := fun _ _ _ he => by cases he

theorem returns_orPermanent {r : Except String α} : Returns (orPermanent r) := by
  cases r with
  | ok x => exact returns_ok
  | error reason => exact returns_permanent

theorem returns_demand {c : Bool} {reason : String} : Returns (demand c reason) :=
  .ite returns_ok returns_permanent

theorem returns_setReport {s : String} : Returns (setReport s) := fun _ _ _ he => by cases he

theorem returns_call {o : Op} : Returns (call o) :=
  fun _ _ => ⟨trivial, fun _ _ _ he => by cases he⟩

theorem returns_nearest : ∀ {k : Nat} {p : Path}, Returns (nearest k p)
  | 0, _ => returns_ok
  | _ + 1, _ => .seq returns_call fun _ => .ite returns_ok returns_nearest

theorem returns_probePath : Returns (probePath a) := by
  refine .seq (.ite returns_call returns_ok) fun start => ?_
  cases start with
  | none => exact returns_call
  | some p =>
      refine .seq returns_nearest fun _ => .seq returns_call fun _ => ?_
      exact .ite returns_ok returns_call

theorem returns_attempt {ε : Type} {p : Act agent Memory ε α} : Returns (attempt p) := fun m h =>
  wp_attempt.mpr (wp_of_exec _ fun
    | .done _ _, _, _ => fun _ he => by cases he
    | .before _ _, _, _ => trivial)

theorem returns_orEngineError {done : Except Deploy.EngineError Unit}
    (h : ∀ what, done ≠ .error (.installer (.threw what))) : Returns (orEngineError done) := by
  unfold orEngineError
  split
  · exact returns_ok
  · exact absurd rfl (h _)
  · exact returns_permanent

theorem returns_throughEngine {p : Deploy.Task Unit}
    (hp : ∀ e w, wp Device.answer (fun _ _ c => c = Sample.failing.toChoice) Anywhere p.run
      (fun r _ _ => ∀ what, r ≠ .error (.installer (.threw what))) e w) :
    Returns (throughEngine p) := fun m h => by
  refine wp_seq.mpr (wp_attempt.mpr (wp_onEngine (fun _ _ c hc => congrArg Turn.toChoice hc)
    (wp_conseq (hp m.engine h.device) ?_)))
  intro done e w hdone
  have hrest : Returns (orEngineError done >>= fun _ => load >>= fun memory =>
      setReport memory.engine.lastDetail) :=
    (returns_orEngineError hdone).seq fun _ m h => returns_setReport (s := m.engine.lastDetail) m h
  exact hrest _ _

/-- What the engine checks of its configuration before anything else. -/
theorem checked_seq {cfg : Deploy.Config} {k : Unit → Deploy.Task Unit}
    {A : World → Device.Op → Choice → Prop} {e : Deploy.Engine} {w : World}
    (hk : wp Device.answer A Anywhere (k ()).run
      (fun r _ _ => ∀ what, r ≠ .error (.installer (.threw what))) e w) :
    wp Device.answer A Anywhere (do
        require cfg.configured .notConfigured
        conclude cfg.validateServiceExecutable
        k () : Deploy.Task Unit).run
      (fun r _ _ => ∀ what, r ≠ .error (.installer (.threw what))) e w := by
  refine wp_require_seq.mpr ?_
  split
  · refine wp_seq.mpr (wp_conclude.mpr ?_)
    cases hv : cfg.validateServiceExecutable with
    | ok u => exact hk
    | error e =>
        rintro what he
        cases he
        unfold Deploy.Config.validateServiceExecutable Deploy.validateReleaseRelativePath at hv
        split_ifs at hv <;> cases hv
  · exact fun what he => by cases he

end Returns

/-- Where every call fails, no handler throws. -/
theorem returns_handler {name : String} {handler : String → Handler}
    (hl : (messages a).lookup name = some handler) (payload : String) :
    Returns (handler payload) := by
  obtain ⟨before, after, hsplit, -⟩ := List.lookup_eq_some_iff.mp hl
  have hmem : (name, handler) ∈ messages a := by
    rw [hsplit]
    exact List.mem_append_right _ List.mem_cons_self
  simp only [messages, List.mem_cons, Prod.mk.injEq, List.not_mem_nil, or_false] at hmem
  rcases hmem with ⟨-, rfl⟩ | ⟨-, rfl⟩ | ⟨-, rfl⟩ | ⟨-, rfl⟩ | ⟨-, rfl⟩ | ⟨-, rfl⟩ | ⟨-, rfl⟩ |
    ⟨-, rfl⟩
  · refine .seq returns_demand fun _ => .seq returns_demand fun _ => ?_
    refine .seq returns_orPermanent fun _ => .seq returns_orPermanent fun _ => ?_
    exact .call_seq fun _ => returns_said
  · refine .seq returns_orPermanent fun _ => .seq returns_orPermanent fun _ => ?_
    refine .seq returns_orPermanent fun _ => .call_seq fun _ => ?_
    exact returns_permanent
  · refine .seq returns_probePath fun _ => .call_seq fun _ => ?_
    exact returns_said
  · refine .seq returns_demand fun _ => .call_seq fun _ => ?_
    exact returns_setReport
  · refine .seq returns_orPermanent fun _ => .seq returns_orPermanent fun _ => ?_
    refine .seq returns_orPermanent fun cfg => returns_throughEngine fun e w => ?_
    refine checked_seq (k := fun _ => _) ?_
    refine ⟨trivial, fun c hc => ?_⟩
    cases hc
    exact fun what he => by cases he
  · refine .seq returns_orPermanent fun _ => .seq returns_orPermanent fun _ => ?_
    refine .seq returns_orPermanent fun cfg => .seq returns_attempt fun found => ?_
    refine .seq returns_orPermanent fun _ => .call_seq fun _ => ?_
    exact returns_permanent
  · refine .seq returns_orPermanent fun cfg => returns_throughEngine fun e w => ?_
    refine checked_seq (k := fun _ => _) ?_
    refine wp_seq.mpr (wp_rewording.mpr (wp_zoom_nothing.mpr ?_))
    refine ⟨trivial, fun c hc => ?_⟩
    cases hc
    exact fun what he => by cases he
  · refine .seq returns_demand fun _ => .seq returns_call fun _ => ?_
    exact .seq returns_orPermanent fun _ => returns_setReport

/-- Whatever a message makes an agent do, it reports if it can. -/
theorem handle_reports {raw : String} {m : Memory} {h : Host} (hp : a.publisher = true)
    (hd : destination a (a.reply raw) ≠ "") :
    ∃ ret m' h' body, Exec answer (fun _ _ _ => True) (handle a raw).run m h (.done ret m') h' ∧
      h'.sent = (destination a (a.reply raw), body) :: h.sent := by
  have hall : ∀ (w : Host) (o : Op), ∃ c, unanswered w o c := fun _ _ => ⟨_, rfl⟩
  have hdispatch := can_of_wp (p := (dispatch a raw).run) (m := m) (w := h) hall dispatch_spec
  obtain ⟨r, m₁, h₁, he, -, hr⟩ := can_exec hdispatch
  cases hr with
  | threw hparse hl hends hs =>
      obtain ⟨_, _, _, _, -, hran, -⟩ := hends
      exact absurd rfl (wp_done hran (returns_handler hl _ _ _) _)
  | @judged v hj hrep =>
      obtain ⟨lastReport, hsent⟩ := hrep
      have hsettle := can_of_wp (p := (settle raw v).run) (m := m₁) (w := h₁) hall settle_sent
      obtain ⟨ret, m₂, h₂, hs, rfl⟩ := can_exec hsettle
      have hreply : v.replyQueueUrl = a.reply raw := by
        unfold AgentService.reply
        cases hj with
        | unparsed hp => simp [hp, Verdict.replyQueueUrl]
        | misrouted hp _ _ => simp [hp, Verdict.replyQueueUrl]
        | unknown hp _ _ => simp [hp, Verdict.replyQueueUrl]
        | ran hp _ _ _ => simp [hp, Verdict.replyQueueUrl]
      obtain ⟨body, hbody, -⟩ := reports_one v.command lastReport v.outcome hp hd
      rw [hreply, hbody] at hsent
      refine ⟨ret, m₂, _, _, ?_, hsent⟩
      exact (exec_handle.mpr (.inl ⟨v, m₁, _, he, hs⟩)).mono fun _ _ _ _ => trivial

end Yirang.Agent

namespace Yirang.Fleet

open Fs Effect Agent

variable {S : Setup}

/-- The message does not name the queue that the agent consumes. -/
def Setup.Unnamed (S : Setup) (i : Nat) (raw : String) : Prop :=
  ∀ message, parseAgentMessage S.agentCodec raw = .ok message →
    message.replyQueueUrl ≠ S.queueUrl i

/-- Nothing that an agent sends of this message goes to its own queue. -/
def Setup.Outward (S : Setup) (i : Nat) (raw : String) : Prop :=
  ∀ m h out h' sent, Ran ((S.service i).service.serve raw) m h out h' sent →
    ∀ e ∈ sent, e.1 ≠ S.queueUrl i

section Message

variable {i : Nat} {raw : String}

/-- Where a report of a message that names no queue goes is checked with the
configuration. -/
theorem destination_ne (hv : (S.agents i).validateRequired = .ok ()) (hu : S.Unnamed i raw) :
    destination (S.service i) ((S.service i).reply raw) ≠ S.queueUrl i := by
  have hvalid := Configurations.valid_of_validateRequired hv
  unfold destination AgentService.reply
  cases hp : parseAgentMessage (S.service i).codec raw with
  | error e => exact hvalid.resultQueueUrl
  | ok message =>
      simp only
      split
      · exact hvalid.resultQueueUrl
      · exact hu message hp

theorem outward_iff (hv : (S.agents i).validateRequired = .ok ()) :
    S.Outward i raw ↔ S.Unnamed i raw := by
  constructor
  · intro hout message hp hreply
    have hne : S.queueUrl i ≠ "" := (Configurations.valid_of_validateRequired hv).queueUrl
    have hdest : destination (S.service i) ((S.service i).reply raw) = S.queueUrl i := by
      have hp' : parseAgentMessage (S.service i).codec raw = .ok message := hp
      have hname : (S.service i).reply raw = message.replyQueueUrl := by
        simp only [AgentService.reply, hp']
      rw [hname, hreply]
      exact if_neg hne
    obtain ⟨ret, m', h', body, he, hs⟩ := handle_reports (a := S.service i) (m := {})
      (h := Agent.Sample.host) rfl (by rw [hdest]; exact hne)
    exact hout _ _ _ _ [_] ⟨he, hs⟩ _ List.mem_cons_self hdest
  · rintro hu m h out h' sent ⟨he, hs⟩ e hmem hq
    have hsent : SentTo (destination (S.service i) ((S.service i).reply raw)) h h' := by
      have hw := wp_sound he handle_sends
      cases out with
      | done r m' => exact hw
      | before m' o => exact hw
    obtain ⟨new, hnew, hto⟩ := hsent
    rw [hs] at hnew
    rw [List.append_cancel_right hnew] at hmem
    exact destination_ne hv hu ((hto e hmem).symm.trans hq)

end Message

/-! ## In a run -/

/-- No report of this agent is in its own queue, or on its way there. -/
structure Outbound (S : Setup) (i : Nat) (s : State) : Prop where
  flight : ∀ e ∈ s.flight, e.1 = i → e.2.1 ≠ S.queueUrl i
  log : ∀ e ∈ s.net.log, e.2.origin = .reported i → e.1 ≠ S.queueUrl i

/-- Every message that this agent took names another queue, or none. -/
def State.Polite (s : State) (S : Setup) (i : Nat) : Prop :=
  ∀ copy, (i, copy) ∈ s.taken → S.Unnamed i copy.body

theorem Step.taken_mono {s s' : State} (hs : Step S s s') : ∀ e ∈ s.taken, e ∈ s'.taken := by
  intro e he
  cases hs with
  | handle i _ _ _ _ _ => exact List.mem_cons_of_mem _ he
  | killed i _ _ _ _ _ => exact List.mem_cons_of_mem _ he
  | _ => exact he

/-- An agent that starts sends nothing. -/
theorem boot_silent {a : AgentService} {h h' : Host}
    {out : Outcome agent Memory (Except String Unit)} {sent : List (String × String)}
    (hr : Ran a.service.boot a.service.fresh h out h' sent) : sent = [] := by
  have hsame : h'.sent = h.sent := by
    have hw := wp_sound hr.1 boot_sends
    cases out with
    | done r m => exact hw
    | before m o => exact hw
  exact List.self_eq_append_left.mp (hsame.symm.trans hr.2)

namespace Outbound

variable {s : State} {i : Nat}

theorem settled (h : Outbound S i s) {j : Nat} {member : Member} {sent : List (String × String)}
    (hs : j = i → ∀ e ∈ sent, e.1 ≠ S.queueUrl i) : Outbound S i (s.settled j member sent) where
  flight e he hj := by
    rcases List.mem_append.mp he with he | he
    · obtain ⟨e', he', rfl⟩ := List.mem_map.mp he
      exact hs hj e' he'
    · exact h.flight e he hj
  log := h.log

theorem put (h : Outbound S i s) {url body : String} {origin : Origin}
    {flight : List (Nat × String × String)} (hf : ∀ e ∈ flight, e ∈ s.flight)
    (ho : origin = .reported i → url ≠ S.queueUrl i) :
    Outbound S i { s with net := s.net.put url body origin, flight } where
  flight e he := h.flight e (hf e he)
  log e he := by
    rcases List.mem_cons.mp he with rfl | he
    · exact ho
    · exact h.log e he

/-- A call of a request puts no report anywhere. -/
theorem called {serving : Serving} {c : Turn} {o : Api.Op} {net : Network}
    (h : ∀ e ∈ net.log, e.2.origin = .reported i → e.1 ≠ S.queueUrl i) :
    ∀ e ∈ (answer serving c o net).2.log, e.2.origin = .reported i → e.1 ≠ S.queueUrl i := by
  cases o with
  | send url body =>
      rcases answer_send serving c net with he | he
      · rw [he]
        rintro e hm ho
        rcases List.mem_cons.mp hm with rfl | hm
        · cases ho
        · exact h e hm ho
      · rw [he]
        exact h
  | receive url max wait =>
      rw [answer_receive]
      exact h
  | delete url messages => exact h
  | interleaving n => exact h
  | respond status response =>
      rcases answer_respond serving c net with he | he
      · rw [he]
        exact h
      · rw [he]
        exact h

end Outbound

/-- As long as no message names the agent's own queue, no report of it comes
there. -/
theorem Reachable.outbound {i : Nat} (hv : (S.agents i).validateRequired = .ok ()) {s : State}
    (hr : Reachable S s) (hp : s.Polite S i) : Outbound S i s := by
  induction hr with
  | start hosts =>
      refine ⟨?_, ?_⟩
      · exact fun _ h => by cases h
      · exact fun _ h => by cases h
  | @step s s' _ hs ih =>
      have h := ih fun copy hc => hp copy (hs.taken_mono _ hc)
      cases hs with
      | request r => exact ⟨h.flight, h.log⟩
      | turn ht =>
          exact ⟨h.flight, ht.preserves (P := fun net => ∀ e ∈ net.log,
            e.2.origin = .reported i → e.1 ≠ S.queueUrl i)
            (fun _ _ _ _ => Outbound.called) h.log⟩
      | arrive url body => exact h.put (fun _ he => he) (fun he => by cases he)
      | @land before after j url body hf =>
          refine h.put (fun e he => ?_) fun he => ?_
          · rw [hf]
            rcases List.mem_append.mp he with he | he
            · exact List.mem_append_left _ he
            · exact List.mem_append_right _ (List.mem_cons_of_mem _ he)
          · cases he
            exact h.flight (i, url, body) (by rw [hf]; simp) rfl
      | @lose before after j url body hf =>
          refine ⟨fun e he => h.flight e ?_, h.log⟩
          rw [hf]
          rcases List.mem_append.mp he with he | he
          · exact List.mem_append_left _ he
          · exact List.mem_append_right _ (List.mem_cons_of_mem _ he)
      | boot j _ _ hran =>
          exact h.settled fun _ e he => by rw [boot_silent hran] at he; cases he
      | bootKilled j _ _ hran =>
          exact h.settled fun _ e he => by rw [boot_silent hran] at he; cases he
      | handle j _ _ _ _ hran =>
          refine Outbound.settled (s := s.take _ _) ⟨h.flight, h.log⟩ fun hj => ?_
          subst hj
          exact (outward_iff hv).mpr (hp _ List.mem_cons_self) _ _ _ _ _ hran
      | killed j _ _ _ _ hran =>
          refine Outbound.settled (s := s.take _ _) ⟨h.flight, h.log⟩ fun hj => ?_
          subst hj
          exact (outward_iff hv).mpr (hp _ List.mem_cons_self) _ _ _ _ _ hran
      | exit j _ => exact h.settled fun _ e he => by cases he
      | finish j _ => exact ⟨h.flight, h.log⟩
      | device j w => exact h.settled fun _ e he => by cases he

/-- For an agent whose configuration was accepted: what it sends of a message
goes to another queue than its own just when the message does not name that
queue; and in a run whose messages all do not, none of its reports comes back
to it. -/
theorem no_feedback_iff {i : Nat} (hv : (S.agents i).validateRequired = .ok ()) :
    (∀ raw, S.Outward i raw ↔ S.Unnamed i raw) ∧
      ∀ s, Reachable S s → s.Polite S i →
        ∀ copy, (i, copy) ∈ s.taken → copy.origin ≠ .reported i := by
  refine ⟨fun raw => outward_iff hv, fun s hr hp copy ht ho => ?_⟩
  exact (hr.outbound hv hp).log (S.queueUrl i, copy) (hr.logged.taken i copy ht) ho rfl

namespace Sample

/-- An agent, a message that names its queue, and the report of it. -/
def echoing : Setup :=
  { setup with
    agentCodec := Agent.Sample.codec
      [("again", .object (reportBody (setup.service 0) "restart_service" (.error noEngine) "")),
        ("loop", .object [("command", .string "restart_service"),
          ("reply_queue_url", .string "commands")])] }

end Sample

/-- The message of the small fleet names no queue of its own. -/
theorem no_feedback_restart : Sample.setup.Outward 0 "restart" := by
  refine ((no_feedback_iff (i := 0) rfl).1 "restart").mpr fun message hp => ?_
  cases hp
  decide

/-- A message that names the agent's own queue: the report of it is taken by
the agent, and runs the command again. -/
theorem command_again : ∃ s copy, Reachable Sample.echoing s ∧
    (Sample.echoing.agents 0).validateRequired = .ok () ∧ (0, copy) ∈ s.taken ∧
    copy.origin = .reported 0 ∧ ((Sample.echoing.service 0).reached copy.body).map
      (fun reached => reached.1.command) = some "restart_service" := by
  have h₁ := Reachable.step (.start fun _ => Agent.Sample.host)
    (.arrive (S := Sample.echoing) "commands" "loop")
  have hboot := exec_freely Agent.answer (Sample.echoing.service 0).service.boot []
    (Sample.echoing.service 0).service.fresh Agent.Sample.host rfl
  have h₂ := h₁.step (.boot 0 [] rfl ⟨hboot, rfl⟩)
  have hfirst := exec_freely Agent.answer ((Sample.echoing.service 0).service.serve "loop") [{}] {}
    Agent.Sample.host rfl
  have h₃ := h₂.step (.handle 0 ⟨0, "loop", .other⟩ [("commands", "again")] rfl
    (by decide +kernel) ⟨hfirst, by decide +kernel⟩)
  have h₄ := h₃.step (.land [] [] rfl)
  obtain ⟨out, h', hsecond, sent, hsent⟩ : ∃ out h', Exec Agent.answer (fun _ _ _ => True)
      ((Sample.echoing.service 0).service.serve "again")
      { failureIsPermanent := true } ⟨Agent.Sample.host.device, [("commands", "again")]⟩
      (.done (.ok ()) out) h' ∧ ∃ sent, h'.sent = sent ++ [("commands", "again")] := by
    refine ⟨_, _, exec_freely _ _ [{}] _ _ rfl, ?_⟩
    exact ⟨[("results", "again")], by decide +kernel⟩
  have h₅ := h₄.step (.handle 0 ⟨1, "again", .reported 0⟩ _ rfl (by decide +kernel)
    ⟨hsecond, hsent⟩)
  exact ⟨_, _, h₅, rfl, List.mem_cons_self, rfl, by decide +kernel⟩

end Yirang.Fleet
