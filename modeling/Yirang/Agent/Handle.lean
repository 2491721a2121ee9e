/-
# `Yirang.Agent.Handle` — one report a message, and five tries at most

Whatever a message says and whatever its handler returns, `handle` reports
once and then settles whether the message comes again.  Two things make this
so: no handler sends anything, and none touches the count of failures.  A
handler that throws ends `handle` before either.

    Judged             what a verdict says of the message
    dispatch_spec      the report of each verdict
    exec_handle        the runs of `handle`, from those of its two parts
    Rounds             the messages an agent handles, one after another
    Remembers          the count of failures, from the history of rounds

The count is kept as one text and one number.  `streak` is what they stand
for: how many rounds in a row, up to the last, were transient failures of
the same text.  The number is the streak modulo five, because the fifth
failure empties it.
-/
import Yirang.Agent.Service

namespace Yirang.Agent

open Fs Effect Device Deploy

variable {a : AgentService} {A : Host → Op → Turn → Prop}

/-! ## What handlers leave alone -/

/-- The count of failures is of this text, at this number. -/
def Counting (text : String) (n : UInt32) (m : Memory) : Prop :=
  m.failingMessage = text ∧ m.failingAttempts = n

section Quiet

variable {t : String} {n : UInt32}

/-- The part sends nothing and leaves the count of failures as it is. -/
abbrev Quiet {ε α : Type} (t : String) (n : UInt32) (p : Act agent Memory ε α) : Prop :=
  Stays (fun o => ¬ IsSend o) (Counting t n) p.run

theorem quiet_permanent {α : Type} {reason : String} :
    Quiet t n (permanent reason : Act agent Memory Failure α) :=
  .load_seq fun _ hm => .store_seq hm trivial

theorem quiet_orPermanent {α : Type} {r : Except String α} : Quiet t n (orPermanent r) := by
  cases r with
  | ok a => trivial
  | error reason => exact quiet_permanent

theorem quiet_demand {c : Bool} {reason : String} : Quiet t n (demand c reason) :=
  .ite (fun _ => trivial) fun _ => quiet_permanent

theorem quiet_setReport {s : String} : Quiet t n (setReport s) :=
  .load_seq fun _ hm => .store hm

theorem quiet_call {ε : Type} {o : Op} (ho : ¬ IsSend o) :
    Quiet t n (call o : Act agent Memory ε o.Res) := .ask ho

theorem quiet_onDevice {ε : Type} {o : Device.Op} :
    Quiet t n (onDevice o : Act agent Memory ε o.Res) := .ask id

theorem quiet_onFile {ε : Type} {o : FileOp Content} :
    Quiet t n (onFile o : Act agent Memory ε (FileOp.Res o)) := .ask id

/-- The engine has its own part of the memory. -/
theorem quiet_onEngine {ε α : Type} {p : Deploy.Task α} :
    Quiet t n (attempt (onEngine p) : Act agent Memory ε (Except EngineError α)) := by
  refine Stays.attempt (Stays.embed_program (S := fun _ => True) (fun _ _ => id) ?_)
  exact .zoom_program _ (fun _ _ hm => hm) (uses_true _)

theorem quiet_fetch {r : String} {target : Path} {element : Json} :
    Quiet t n (fetch r target element) := by
  refine .seq quiet_orPermanent fun request => ?_
  refine .seq ?_ fun downloaded => .seq ?_ fun _ => .seq quiet_onDevice fun hashed =>
    .seq .conclude fun actual => quiet_demand
  · refine .ite (fun _ => .seq quiet_onFile fun made => ?_) fun _ => quiet_onDevice
    cases made <;> trivial
  · cases downloaded with
    | ok _ => trivial
    | error why =>
        refine .seq quiet_onDevice fun present => ?_
        match present with
        | .ok false => exact quiet_permanent
        | .ok true => trivial
        | .error _ => trivial

theorem quiet_fetchAll {r : String} {target : Path} :
    ∀ {elements : List Json}, Quiet t n (fetchAll r target elements)
  | [] => trivial
  | _ :: _ => .seq quiet_fetch fun _ => quiet_fetchAll

theorem quiet_downloadVersion {payload : String} :
    Quiet t n (downloadVersion a payload) := by
  refine .seq quiet_demand fun _ => .seq quiet_demand fun _ => ?_
  refine .seq quiet_orPermanent fun object => .seq quiet_orPermanent fun request => ?_
  refine .seq quiet_onFile fun made => .seq .conclude fun _ => .seq ?_ fun _ => quiet_setReport
  refine .seq (.attempt quiet_fetchAll) fun ended => ?_
  cases ended with
  | ok _ => trivial
  | error e => exact .seq quiet_onFile fun _ => trivial

theorem quiet_removeEntries {root : Path} :
    ∀ {names : List String} {k : UInt32}, Quiet t n (removeEntries root names k)
  | [], _ => trivial
  | _ :: _, _ => .seq quiet_onFile fun _ => .seq .conclude fun _ => quiet_removeEntries

theorem quiet_cleanOldVersion {payload : String} : Quiet t n (cleanOldVersion a payload) := by
  refine .seq quiet_demand fun _ => .seq quiet_onFile fun _ => ?_
  refine .ite (fun _ => .seq ?_ fun _ => ?_) fun _ => quiet_setReport
  · refine .ite (fun _ => trivial) fun _ => ?_
    exact .seq (quiet_call id) fun _ => .seq (quiet_call id) fun _ => quiet_demand
  · refine .seq quiet_onFile fun _ => .seq .conclude fun entries => ?_
    refine .seq quiet_removeEntries fun _ => ?_
    cases entries.broken with
    | none => exact quiet_setReport
    | some why => trivial

theorem quiet_nearest : ∀ {k : Nat} {p : Path}, Quiet t n (nearest k p)
  | 0, _ => trivial
  | _ + 1, _ => .seq quiet_onFile fun _ => .ite (fun _ => trivial) fun _ => quiet_nearest

theorem quiet_probePath : Quiet t n (probePath a) := by
  refine .seq (.ite (fun _ => quiet_call id) fun _ => .ok) fun start => ?_
  cases start with
  | none => exact quiet_call id
  | some p =>
      refine .seq quiet_nearest fun _ => .seq quiet_onFile fun _ => ?_
      exact .ite (fun _ => .ok) fun _ => quiet_call id

theorem quiet_versionNames {root : Path} :
    ∀ {names : List String}, Quiet t n (versionNames root names)
  | [] => trivial
  | _ :: _ => .seq quiet_onFile fun _ => .seq quiet_versionNames fun _ => trivial

theorem quiet_currentStatus {payload : String} : Quiet t n (currentStatus a payload) := by
  refine .seq quiet_probePath fun _ => .seq (quiet_call id) fun _ => .seq .conclude fun _ => ?_
  refine .seq (quiet_call id) fun _ => .seq ?_ fun _ => quiet_setReport
  refine .seq (.ite (fun _ => .ok) fun _ => quiet_onFile) fun _ => ?_
  refine .ite (fun _ => .seq quiet_onFile fun listed => ?_) fun _ => .ok
  cases listed with
  | error why => exact .ok
  | ok entries => exact .seq quiet_versionNames fun _ => .ok

theorem quiet_orEngineError {done : Except EngineError Unit} : Quiet t n (orEngineError done) := by
  unfold orEngineError
  split
  · trivial
  · trivial
  · exact quiet_permanent

theorem quiet_throughEngine {p : Deploy.Task Unit} : Quiet t n (throughEngine p) :=
  .seq quiet_onEngine fun _ => .seq quiet_orEngineError fun _ =>
    .load_seq fun _ _ => quiet_setReport

theorem quiet_writeJsonObject {p : Path} {document : Json.Fields} :
    Quiet t n (writeJsonObject p document) := by
  refine .seq quiet_onFile fun _ => .seq .conclude fun _ => .seq quiet_onFile fun written => ?_
  cases written with
  | error e => exact .seq quiet_onFile fun _ => trivial
  | ok _ =>
      refine .seq quiet_onFile fun replaced => ?_
      cases replaced with
      | error e => exact .seq quiet_onFile fun _ => trivial
      | ok _ => trivial

theorem quiet_readJsonObject {p : Path} : Quiet t n (readJsonObject p) := by
  refine .seq quiet_onFile fun source => ?_
  match source with
  | none => exact .ok
  | some buffer =>
      dsimp only
      cases buffer.parse with
      | none => exact .ok
      | some parsed =>
          dsimp only
          cases parsed.object? with
          | none => exact .ok
          | some object => exact .ok

theorem quiet_updateConfiguration {payload : String} :
    Quiet t n (updateConfiguration a payload) := by
  refine .seq quiet_orPermanent fun _ => .seq quiet_orPermanent fun _ => ?_
  refine .seq quiet_orPermanent fun _ => .seq quiet_onEngine fun _ => ?_
  refine .seq quiet_orPermanent fun _ => .seq quiet_onFile fun _ => .seq quiet_demand fun _ => ?_
  refine .seq quiet_readJsonObject fun _ => .seq quiet_orPermanent fun _ => ?_
  exact .seq quiet_writeJsonObject fun _ => quiet_setReport

/-- No handler sends anything or counts a failure. -/
theorem quiet_handler {name : String} {handler : String → Handler}
    (h : (messages a).lookup name = some handler) (payload : String) :
    Quiet t n (handler payload) := by
  obtain ⟨before, after, hsplit, -⟩ := List.lookup_eq_some_iff.mp h
  have hmem : (name, handler) ∈ messages a := by
    rw [hsplit]
    exact List.mem_append_right _ List.mem_cons_self
  simp only [messages, List.mem_cons, Prod.mk.injEq, List.not_mem_nil, or_false] at hmem
  rcases hmem with ⟨-, rfl⟩ | ⟨-, rfl⟩ | ⟨-, rfl⟩ | ⟨-, rfl⟩ | ⟨-, rfl⟩ | ⟨-, rfl⟩ | ⟨-, rfl⟩ |
    ⟨-, rfl⟩
  · exact quiet_downloadVersion
  · exact .seq quiet_orPermanent fun _ => .seq quiet_orPermanent fun _ =>
      .seq quiet_orPermanent fun _ => .seq quiet_onFile fun _ => .seq quiet_demand fun _ =>
        quiet_throughEngine
  · exact quiet_currentStatus
  · exact quiet_cleanOldVersion
  · exact .seq quiet_orPermanent fun _ => .seq quiet_orPermanent fun _ =>
      .seq quiet_orPermanent fun _ => quiet_throughEngine
  · exact quiet_updateConfiguration
  · exact .seq quiet_orPermanent fun _ => quiet_throughEngine
  · exact .seq quiet_demand fun _ => .seq (quiet_call id) fun _ => .seq quiet_orPermanent fun _ =>
      quiet_setReport

/-- A quiet part leaves what was sent and the count of failures as they
are. -/
theorem quiet_spec {ε α : Type} {p : Act agent Memory ε α} {B : Memory → Host → Op → Prop}
    {m : Memory} {h : Host} (hp : Quiet m.failingMessage m.failingAttempts p)
    (hB : ∀ m' h' o, h'.sent = h.sent → B m' h' o) :
    wp answer A B p.run (fun _ m' h' =>
      Counting m.failingMessage m.failingAttempts m' ∧ h'.sent = h.sent) m h :=
  wp_of_stays (I := Counting m.failingMessage m.failingAttempts)
    (R := fun h' : Host => h'.sent = h.sent) (fun _ _ _ ho _ hr => (answer_sent ho).trans hr)
    (fun _ _ _ _ _ => hB _ _ _) hp ⟨rfl, rfl⟩ rfl

end Quiet

/-! ## The verdict on a message, and its report -/

/-- The handler ran, from a state in which no failure was final, and ended so:
with this outcome, or by an exception, and saying that a failure is final or
not. -/
def Ends (A : Host → Op → Turn → Prop) (handler : Handler) (ended : Except Failure Unit)
    (final : Bool) : Prop :=
  ∃ m h m' h', m.failureIsPermanent = false ∧
    Exec answer A handler.run m h (.done ended m') h' ∧ m'.failureIsPermanent = final

/-- What a verdict says of the message it is about. -/
inductive Judged (a : AgentService) (A : Host → Op → Turn → Prop) (raw : String) :
    Verdict → Prop
  | unparsed {e : String} : parseAgentMessage a.codec raw = .error e → Judged a A raw (.unparsed e)
  | misrouted {message : AgentMessage} {reason : String} :
      parseAgentMessage a.codec raw = .ok message → message.targetGroup ≠ "" →
      message.targetGroup ≠ a.options.group → Judged a A raw (.misrouted message reason)
  | unknown {message : AgentMessage} {reason : String} :
      parseAgentMessage a.codec raw = .ok message →
      (message.targetGroup = "" ∨ message.targetGroup = a.options.group) →
      (messages a).lookup message.command = none → Judged a A raw (.unknown message reason)
  | ran {message : AgentMessage} {handler : String → Handler} {outcome : Except String Unit}
      {final : Bool} : parseAgentMessage a.codec raw = .ok message →
      (message.targetGroup = "" ∨ message.targetGroup = a.options.group) →
      (messages a).lookup message.command = some handler →
      Ends A (handler message.payload) (outcome.mapError .said) final →
      Judged a A raw (.ran message outcome final)

namespace Verdict

def command : Verdict → String
  | .unparsed _ => ""
  | .misrouted message _ | .unknown message _ | .ran message _ _ => message.command

def replyQueueUrl : Verdict → String
  | .unparsed _ => ""
  | .misrouted message _ | .unknown message _ | .ran message _ _ => message.replyQueueUrl

/-- The outcome that is reported. -/
def outcome : Verdict → Except String Unit
  | .unparsed reason | .misrouted _ reason | .unknown _ reason => .error reason
  | .ran _ outcome _ => outcome

/-- A handler ran, and succeeded. -/
def succeeded : Verdict → Bool
  | .ran _ (.ok _) _ => true
  | _ => false

/-- A handler ran, and failed in a way that may pass. -/
def transient : Verdict → Bool
  | .ran _ (.error _) false => true
  | _ => false

theorem succeeded_of_transient {v : Verdict} (h : v.transient = true) : v.succeeded = false := by
  cases v with
  | ran message outcome final =>
      cases outcome with
      | ok u => cases h
      | error e => rfl
  | _ => rfl

end Verdict

/-- The reports of one outcome: one, if there is where to send it. -/
def AgentService.reports (a : AgentService) (command replyQueueUrl : String)
    (outcome : Except String Unit) (lastReport : String) : List (String × String) :=
  if !a.publisher || destination a replyQueueUrl = "" then []
  else [(destination a replyQueueUrl,
    a.codec.serialize (.object (reportBody a command outcome lastReport)))]

theorem report_spec {command reply : String} {outcome : Except String Unit} {m : Memory}
    {h : Host} :
    wp answer A Anywhere (report a command reply outcome).run
      (fun r m' h' => r = .ok () ∧ m' = m ∧
        h'.sent = a.reports command reply outcome m.lastReport ++ h.sent) m h := by
  unfold report AgentService.reports
  split
  · exact ⟨rfl, rfl, rfl⟩
  · exact ⟨trivial, fun c _ => ⟨rfl, rfl, rfl⟩⟩

theorem wp_returned_seq {α W C : Type} {ans : Answers agent W C} {A : W → Op → C → Prop}
    {B : Memory → W → Op → Prop} {ended : Except Failure Unit}
    {k : Except String Unit → Act agent Memory String α} {Q : Except String α → Memory → W → Prop}
    {m : Memory} {w : W}
    (hk : ∀ outcome, ended = outcome.mapError .said → wp ans A B (k outcome).run Q m w)
    (hthrew : ∀ what, ended = .error (.threw what) → Q (.error what) m w) :
    wp ans A B (returned ended >>= k).run Q m w := by
  match ended with
  | .ok u => exact hk (.ok u) rfl
  | .error (.said reason) => exact hk (.error reason) rfl
  | .error (.threw what) => exact hthrew what rfl

/-- An operation of the engine, where the agent runs it. -/
theorem wp_onEngine {α : Type} {B : Memory → Host → Op → Prop} {m : Memory} {h : Host}
    {p : Deploy.Task α} {D : World → Device.Op → Choice → Prop}
    {Q : Except Deploy.EngineError α → Memory → Host → Prop}
    (hA : ∀ (h : Host) o (c : Turn), A h (.device o) c → D h.device o c.toChoice)
    (hp : wp Device.answer D
      (fun e w o => B { m with engine := e } { h with device := w } (.device o)) p.run
      (fun r e w => Q r { m with engine := e } { h with device := w }) m.engine h.device) :
    wp answer A B (onEngine p : Act agent Memory Deploy.EngineError α).run Q m h :=
  wp_embed extends_device hA ((wp_zoom_program engineLens).mpr hp)

/-- What is sent of a verdict, whatever the handler said last. -/
def Reported (a : AgentService) (v : Verdict) (h h' : Host) : Prop :=
  ∃ lastReport, h'.sent = a.reports v.command v.replyQueueUrl v.outcome lastReport ++ h.sent

/-- What came of a message before it is settled: a verdict, which was reported,
or an exception of its handler, which was not. -/
inductive Dispatched (a : AgentService) (A : Host → Op → Turn → Prop) (raw : String)
    (h h' : Host) : Except String Verdict → Prop
  | judged {v : Verdict} : Judged a A raw v → Reported a v h h' → Dispatched a A raw h h' (.ok v)
  | threw {message : AgentMessage} {handler : String → Handler} {what : String} {final : Bool} :
      parseAgentMessage a.codec raw = .ok message →
      (messages a).lookup message.command = some handler →
      Ends A (handler message.payload) (.error (.threw what)) final → h'.sent = h.sent →
      Dispatched a A raw h h' (.error what)

/-- A message is judged, its outcome is reported, and the count of failures
is as before. -/
theorem dispatch_spec {raw : String} {m : Memory} {h : Host} :
    wp answer A Anywhere (dispatch a raw).run
      (fun r m' h' => Counting m.failingMessage m.failingAttempts m' ∧ Dispatched a A raw h h' r)
      m h := by
  unfold dispatch
  cases hp : parseAgentMessage a.codec raw with
  | error e =>
      refine wp_seq_of report_spec ?_ (fun _ _ _ hr => by cases hr.1)
      rintro - m' h' ⟨-, rfl, hs⟩
      exact ⟨⟨rfl, rfl⟩, .judged (.unparsed hp) ⟨_, hs⟩⟩
  | ok message =>
      simp only
      split
      · rename_i hg
        simp only [Bool.and_eq_true, decide_eq_true_eq] at hg
        refine wp_seq_of report_spec ?_ (fun _ _ _ hr => by cases hr.1)
        rintro - m' h' ⟨-, rfl, hs⟩
        exact ⟨⟨rfl, rfl⟩, .judged (.misrouted hp hg.1 hg.2) ⟨_, hs⟩⟩
      · rename_i hg
        have hrouted : message.targetGroup = "" ∨ message.targetGroup = a.options.group := by
          simp only [Bool.and_eq_true, decide_eq_true_eq, not_and, not_not] at hg
          exact or_iff_not_imp_left.mpr hg
        cases hl : (messages a).lookup message.command with
        | none =>
            refine wp_seq_of report_spec ?_ (fun _ _ _ hr => by cases hr.1)
            rintro - m' h' ⟨-, rfl, hs⟩
            exact ⟨⟨rfl, rfl⟩, .judged (.unknown hp hrouted hl) ⟨_, hs⟩⟩
        | some handler =>
            -- the handler keeps the count, and leaves the report to `report`
            have hquiet := quiet_spec (A := A) (B := Anywhere (E := agent)) (h := h)
              (m := { m with failureIsPermanent := false }) (quiet_handler hl message.payload)
              fun _ _ _ _ => trivial
            have hends : wp answer A Anywhere (handler message.payload).run
                (fun ended m' _ => Ends A (handler message.payload) ended m'.failureIsPermanent)
                { m with failureIsPermanent := false } h :=
              wp_of_exec _ fun
                | .done _ _, _, he => ⟨_, _, _, _, rfl, he, rfl⟩
                | .before _ _, _, _ => trivial
            refine wp_load_seq.mpr (wp_store_seq.mpr ?_)
            refine wp_seq.mpr (wp_attempt.mpr (wp_conseq (wp_both hquiet hends) ?_))
            rintro ended m₁ h₁ ⟨⟨hm₁, hs₁⟩, hended⟩
            refine wp_returned_seq (fun outcome he => ?_) fun what he => ?_
            · refine wp_seq_of report_spec ?_ (fun _ _ _ hr => by cases hr.1)
              rintro - m' h' ⟨-, rfl, hs⟩
              rw [hs₁] at hs
              exact ⟨hm₁, .judged (.ran hp hrouted hl (he ▸ hended)) ⟨_, hs⟩⟩
            · exact ⟨hm₁, .threw hp hl (he ▸ hended) hs₁⟩

theorem settle_sent {raw : String} {v : Verdict} {m : Memory} {h : Host} :
    wp answer A Anywhere (settle raw v).run (fun _ _ h' => h' = h) m h := by
  unfold settle
  split
  · refine wp_load_seq.mpr ?_
    simp only
    split
    · exact rfl
    · exact rfl
  · exact rfl

/-! ## What a message reaches -/

/-- The handler that a message reaches. -/
def AgentService.reached (a : AgentService) (raw : String) :
    Option (AgentMessage × (String → Handler)) :=
  match parseAgentMessage a.codec raw with
  | .error _ => none
  | .ok message =>
      if message.targetGroup ≠ "" && message.targetGroup ≠ a.options.group then none
      else ((messages a).lookup message.command).map (message, ·)

/-- A message is refused because of its group. -/
def AgentService.Refuses (a : AgentService) (raw : String) : Prop :=
  ∃ message, parseAgentMessage a.codec raw = .ok message ∧ message.targetGroup ≠ "" ∧
    message.targetGroup ≠ a.options.group

theorem reached_routed {raw : String} {message : AgentMessage} {handler : String → Handler}
    (h : a.reached raw = some (message, handler)) :
    parseAgentMessage a.codec raw = .ok message ∧
      (message.targetGroup = "" ∨ message.targetGroup = a.options.group) := by
  unfold AgentService.reached at h
  split at h
  · cases h
  · rename_i message' hp
    split at h
    · cases h
    · rename_i hg
      obtain ⟨_, -, he⟩ := Option.map_eq_some_iff.mp h
      cases he
      simp only [Bool.and_eq_true, decide_eq_true_eq, not_and, not_not] at hg
      exact ⟨hp, or_iff_not_imp_left.mpr hg⟩

/-- `handle` is a verdict and its settlement, or an exception before either. -/
theorem exec_handle {raw : String} {m m₂ : Memory} {h h₂ : Host} {ret : Except String Unit} :
    Exec answer A (handle a raw).run m h (.done ret m₂) h₂ ↔
      (∃ v m₁ h₁, Exec answer A (dispatch a raw).run m h (.done (.ok v) m₁) h₁ ∧
        Exec answer A (settle raw v).run m₁ h₁ (.done ret m₂) h₂) ∨
      ∃ what, ret = .error what ∧
        Exec answer A (dispatch a raw).run m h (.done (.error what) m₂) h₂ := by
  rw [handle, ExceptT.run_bind, exec_bind_done]
  constructor
  · rintro ⟨v | what, m₁, h₁, he, hs⟩
    · cases hs
      exact .inr ⟨_, rfl, he⟩
    · exact .inl ⟨_, m₁, h₁, he, hs⟩
  · rintro (⟨v, m₁, h₁, he, hs⟩ | ⟨what, rfl, he⟩)
    · exact ⟨.ok v, m₁, h₁, he, hs⟩
    · exact ⟨.error what, m₂, h₂, he, .pure _ _ _⟩

/-- What the consumer is told to be done with was settled. -/
theorem exec_handle_ok {raw : String} {m m₂ : Memory} {h h₂ : Host} {u : Unit} :
    Exec answer A (handle a raw).run m h (.done (.ok u) m₂) h₂ ↔
      ∃ v m₁ h₁, Exec answer A (dispatch a raw).run m h (.done (.ok v) m₁) h₁ ∧
        Exec answer A (settle raw v).run m₁ h₁ (.done (.ok u) m₂) h₂ := by
  rw [exec_handle]
  exact or_iff_left fun ⟨_, he, _⟩ => by cases he

/-! ## Rounds -/

/-- One message handled: its text, the verdict, what the consumer was told,
and what was sent meanwhile. -/
structure Round where
  raw : String
  verdict : Verdict
  ret : Except String Unit
  sent : List (String × String)

/-- `handle` was given this text, told the consumer this, and sent this. -/
def Round.Handles (a : AgentService) (A : Host → Op → Turn → Prop) (r : Round) : Prop :=
  ∃ m h m' h', Exec answer A (handle a r.raw).run m h (.done r.ret m') h' ∧
    h'.sent = r.sent ++ h.sent

/-- No failure is counted. -/
abbrev Memory.Blank (m : Memory) : Prop := Counting "" 0 m

/-- The messages that one lifetime of an agent handles, newest first, on a
host that may change between them.  A run of `handle` that an exception of
its handler has ended came to no verdict. -/
inductive Rounds (a : AgentService) (A : Host → Op → Turn → Prop) :
    Memory → Host → List Round → Prop
  | start {m : Memory} {h : Host} : m.Blank → Rounds a A m h []
  | host {m : Memory} {h : Host} {rs : List Round} (h' : Host) :
      Rounds a A m h rs → Rounds a A m h' rs
  | round {m m₁ m₂ : Memory} {h h₁ h₂ : Host} {rs : List Round} {raw : String} {v : Verdict}
      {ret : Except String Unit} {sent : List (String × String)} : Rounds a A m h rs →
      Exec answer A (dispatch a raw).run m h (.done (.ok v) m₁) h₁ →
      Exec answer A (settle raw v).run m₁ h₁ (.done ret m₂) h₂ → h₂.sent = sent ++ h.sent →
      Rounds a A m₂ h₂ (⟨raw, v, ret, sent⟩ :: rs)
  | threw {m m₂ : Memory} {h h₂ : Host} {rs : List Round} {raw what : String} :
      Rounds a A m h rs → Exec answer A (dispatch a raw).run m h (.done (.error what) m₂) h₂ →
      Rounds a A m₂ h₂ rs

/-- An agent that has resumed its release has counted nothing yet. -/
theorem boot_blank {h h' : Host} {m : Memory} {r : Except String Unit}
    (he : Exec answer A a.service.boot a.service.fresh h (.done r m) h') : m.Blank := by
  have hstays : Quiet "" 0 (resumeActive a) := by
    unfold resumeActive
    cases a.engine with
    | none => trivial
    | some cfg => exact .seq quiet_onEngine fun _ => .ok
  have hquiet := quiet_spec (A := A) (B := Anywhere (E := agent)) (h := h)
    (m := a.service.fresh) hstays fun _ _ _ _ => trivial
  have hdone := wp_done he hquiet
  exact hdone.1

namespace Round

def transient (r : Round) : Bool := r.verdict.transient

/-- Another transient failure of this text. -/
def sameFailure (raw : String) (r : Round) : Bool := r.raw = raw && r.transient

end Round

/-- How many rounds in a row, up to the newest, were transient failures of
this text. -/
def streakOf (raw : String) (rs : List Round) : Nat :=
  (rs.takeWhile (Round.sameFailure raw)).length

/-- The same for the text of the newest round. -/
def streak : List Round → Nat
  | [] => 0
  | r :: rs => streakOf r.raw (r :: rs)

theorem streak_cons {r : Round} {rs : List Round} :
    streak (r :: rs) = if r.transient then streakOf r.raw rs + 1 else 0 := by
  simp only [streak, streakOf, Round.sameFailure, List.takeWhile_cons, decide_true, Bool.true_and]
  split
  · rfl
  · rfl

/-- The streak of a text goes on only where the newest round is of it. -/
theorem streakOf_eq (raw : String) (rs : List Round) :
    streakOf raw rs = if (rs.head?.map Round.raw) = some raw then streak rs else 0 := by
  cases rs with
  | nil => rfl
  | cons r rs =>
      simp only [List.head?_cons, Option.map_some, Option.some.injEq]
      split
      · rename_i hr
        rw [← hr]
        rfl
      · rename_i hr
        simp [streakOf, Round.sameFailure, hr]

/-- The memory counts the streak, modulo five. -/
structure Remembers (m : Memory) (rs : List Round) : Prop where
  attempts : m.failingAttempts.toNat = streak rs % 5
  text : streak rs % 5 ≠ 0 → (rs.head?.map Round.raw) = some m.failingMessage
  none : streak rs % 5 = 0 → m.failingMessage = ""

namespace Remembers

variable {m : Memory} {rs : List Round} {raw : String}

theorem blank (hm : m.Blank) : Remembers m [] where
  attempts := by simp [hm.2, streak]
  text h := absurd rfl h
  none _ := hm.1

theorem counting {m' : Memory} (h : Remembers m rs)
    (hc : Counting m.failingMessage m.failingAttempts m') : Remembers m' rs :=
  ⟨hc.2 ▸ h.attempts, hc.1 ▸ h.text, hc.1 ▸ h.none⟩

/-- A count that is empty is right after a round that ends all streaks. -/
theorem of_forget (h : streak rs % 5 = 0) : Remembers m.forgetFailure rs where
  attempts := h.symm
  text hne := absurd h hne
  none _ := rfl

/-- The count of a further failure, from the streak before it. -/
theorem counted (h : Remembers m rs) :
    (m.recordFailure raw).failingAttempts.toNat = streakOf raw rs % 5 + 1 := by
  have hlt : streak rs % 5 < 5 := Nat.mod_lt _ (by decide)
  rw [streakOf_eq]
  unfold Memory.recordFailure
  by_cases hraw : m.failingMessage = raw
  · -- the same text as before, or an empty count
    have hsum : (m.failingAttempts + 1).toNat = streak rs % 5 + 1 := by
      rw [UInt32.toNat_add, h.attempts]
      simp only [UInt32.toNat_one]
      omega
    simp only [hraw, ne_eq, not_true_eq_false, if_false, hsum]
    split
    · rfl
    · rename_i hne
      have hzero : streak rs % 5 = 0 := by
        by_contra hk
        exact hne (hraw ▸ h.text hk)
      rw [hzero]
  · simp only [ne_eq, hraw, not_false_eq_true, if_true, UInt32.toNat_one]
    split
    · rename_i heq
      have hzero : streak rs % 5 = 0 := by
        by_contra hk
        have htext := h.text hk
        rw [heq] at htext
        exact hraw (Option.some.inj htext).symm
      rw [hzero]
    · rfl

end Remembers

theorem recordFailure_text {m : Memory} {raw : String} :
    (m.recordFailure raw).failingMessage = raw := by
  unfold Memory.recordFailure
  split
  · rfl
  · rename_i h
    simpa using h

/-- What the consumer is told after a round, and what is remembered. -/
theorem settle_spec {raw : String} {v : Verdict} {m : Memory} {h : Host} {rs : List Round}
    (hm : Remembers m rs) :
    wp answer A Anywhere (settle raw v).run
      (fun ret m' _ => ∀ sent,
        Remembers m' (⟨raw, v, ret, sent⟩ :: rs) ∧
          ((∃ e, ret = .error e) ↔
            v.transient = true ∧ streak (⟨raw, v, ret, sent⟩ :: rs) % 5 ≠ 0)) m h := by
  have hforget : v.transient = false →
      wp answer A Anywhere (do
        let memory ← load
        store memory.forgetFailure : Act agent Memory String Unit).run
        (fun ret m' _ => ∀ sent, Remembers m' (⟨raw, v, ret, sent⟩ :: rs) ∧
          ((∃ e, ret = .error e) ↔
            v.transient = true ∧ streak (⟨raw, v, ret, sent⟩ :: rs) % 5 ≠ 0)) m h := by
    intro hv sent
    have hstreak : streak (⟨raw, v, .ok (), sent⟩ :: rs) % 5 = 0 := by
      simp [streak_cons, Round.transient, hv]
    refine ⟨.of_forget hstreak, ?_⟩
    simp [hv]
  match v, hforget with
  | .ran message (.error reason) false, _ =>
      have hcount : (m.recordFailure raw).failingAttempts.toNat = streakOf raw rs % 5 + 1 :=
        hm.counted
      have hstreak : ∀ ret sent,
          streak (⟨raw, .ran message (.error reason) false, ret, sent⟩ :: rs) =
            streakOf raw rs + 1 := fun ret sent => by
        simp [streak_cons, Round.transient, Verdict.transient]
      refine wp_load_seq.mpr ?_
      show wp _ _ _ (ExceptT.run (ite _ _ _)) _ _ _
      split
      · rename_i hmax
        have hfive : (streakOf raw rs + 1) % 5 = 0 := by
          have hle : (5 : UInt32).toNat ≤ (m.recordFailure raw).failingAttempts.toNat := hmax
          rw [hcount] at hle
          have h5 : (5 : UInt32).toNat = 5 := rfl
          omega
        intro sent
        refine ⟨.of_forget (by rw [hstreak]; exact hfive), ?_⟩
        simp [hstreak, hfive]
      · rename_i hmax
        have hfour : (streakOf raw rs + 1) % 5 = streakOf raw rs % 5 + 1 := by
          have hlt : ¬ (5 : UInt32).toNat ≤ (m.recordFailure raw).failingAttempts.toNat := hmax
          rw [hcount] at hlt
          have h5 : (5 : UInt32).toNat = 5 := rfl
          omega
        intro sent
        refine ⟨⟨?_, fun _ => ?_, fun hz => ?_⟩, ?_⟩
        · rw [hstreak, hfour, hcount]
        · rw [recordFailure_text]
          rfl
        · rw [hstreak, hfour] at hz
          cases hz
        · simp [hstreak, hfour, Verdict.transient]
  | .ran message (.error reason) true, hforget => exact hforget rfl
  | .ran message (.ok u) final, hforget => exact hforget rfl
  | .unparsed reason, hforget => exact hforget rfl
  | .misrouted message reason, hforget => exact hforget rfl
  | .unknown message reason, hforget => exact hforget rfl

namespace Rounds

variable {m : Memory} {h : Host} {rs : List Round}

theorem remembers (hr : Rounds a A m h rs) : Remembers m rs := by
  induction hr with
  | start hm => exact .blank hm
  | host _ _ ih => exact ih
  | round _ hd hs _ ih =>
      -- the dispatch left the count as it was
      have hm₁ := ih.counting (wp_done hd dispatch_spec).1
      exact (wp_done hs (settle_spec hm₁) _).1
  | threw _ hd ih => exact ih.counting (wp_done hd dispatch_spec).1

/-- Every beginning of a lifetime is one. -/
theorem older {newer : List Round} (hr : Rounds a A m h (newer ++ rs)) :
    ∃ m' h', Rounds a A m' h' rs := by
  generalize he : newer ++ rs = all at hr
  induction hr generalizing newer with
  | start hm =>
      obtain ⟨-, rfl⟩ := List.append_eq_nil_iff.mp he
      exact ⟨_, h, .start hm⟩
  | host _ _ ih => exact ih he
  | round hr hd hs hsent ih =>
      cases newer with
      | nil =>
          cases he
          exact ⟨_, _, .round hr hd hs hsent⟩
      | cons r newer =>
          rw [List.cons_append, List.cons.injEq] at he
          exact ih he.2
  | threw _ _ ih => exact ih he

/-- Whatever `handle` is given next and however it ends, the rounds go on. -/
theorem handled {raw : String} {m₂ : Memory} {h₂ : Host} {ret : Except String Unit}
    (hr : Rounds a A m h rs) (he : Exec answer A (handle a raw).run m h (.done ret m₂) h₂) :
    (∃ v sent, Rounds a A m₂ h₂ (⟨raw, v, ret, sent⟩ :: rs)) ∨
      ((∃ what, ret = .error what) ∧ Rounds a A m₂ h₂ rs) := by
  rcases exec_handle.mp he with ⟨v, m₁, h₁, hd, hs⟩ | ⟨what, rfl, hd⟩
  · obtain ⟨-, hdispatched⟩ := wp_done hd dispatch_spec
    cases hdispatched with
    | judged _ hrep =>
        obtain ⟨lastReport, hsent⟩ := hrep
        have hsame := wp_done hs settle_sent
        exact .inl ⟨v, _, .round hr hd hs (hsame ▸ hsent)⟩
  · exact .inr ⟨⟨what, rfl⟩, .threw hr hd⟩

/-- What one round says: it is a run of `handle`, which has told of an error
for a transient failure that is not the fifth in a row, and has sent the
report of the verdict. -/
theorem newest {r : Round} (hr : Rounds a A m h (r :: rs)) :
    ((∃ e, r.ret = .error e) ↔ r.transient = true ∧ streak (r :: rs) % 5 ≠ 0) ∧
      Judged a A r.raw r.verdict ∧ r.Handles a A ∧
      ∃ lastReport, r.sent =
        a.reports r.verdict.command r.verdict.replyQueueUrl r.verdict.outcome lastReport := by
  generalize he : r :: rs = all at hr
  induction hr with
  | start hm => cases he
  | host _ _ ih => exact ih he
  | threw _ _ ih => exact ih he
  | round hr hd hs hsent ih =>
      cases he
      obtain ⟨hcount, hdispatched⟩ := wp_done hd dispatch_spec
      have hm₁ := hr.remembers.counting hcount
      cases hdispatched with
      | judged hj hrep =>
          obtain ⟨lastReport, hrep⟩ := hrep
          refine ⟨(wp_done hs (settle_spec hm₁) _).2, hj,
            ⟨_, _, _, _, exec_handle.mpr (.inl ⟨_, _, _, hd, hs⟩), hsent⟩, lastReport, ?_⟩
          have hsame := wp_done hs settle_sent
          rw [hsame, hrep] at hsent
          exact (List.append_cancel_right hsent).symm

end Rounds

/-- Failures of one text in a row add to its streak. -/
theorem streakOf_append {raw : String} (older : List Round) :
    ∀ {newer : List Round}, (∀ r ∈ newer, r.sameFailure raw = true) →
      streakOf raw (newer ++ older) = newer.length + streakOf raw older
  | [], _ => by simp
  | r :: rest, h => by
      have hr := h r List.mem_cons_self
      have ih := streakOf_append older fun q hq => h q (List.mem_cons_of_mem _ hq)
      simp only [streakOf] at ih ⊢
      rw [List.cons_append, List.takeWhile_cons_of_pos hr, List.length_cons, ih,
        List.length_cons]
      omega

/-- Where a report is to be sent, one is: it carries the success of the
verdict. -/
theorem reports_one (command lastReport : String) {reply : String} (outcome : Except String Unit)
    (hp : a.publisher = true) (hd : destination a reply ≠ "") :
    ∃ body, a.reports command reply outcome lastReport =
        [(destination a reply, a.codec.serialize (.object body))] ∧
      body.lookup "success" = some (.bool (match outcome with
        | .ok _ => true
        | .error _ => false)) := by
  refine ⟨reportBody a command outcome lastReport, ?_, ?_⟩
  · simp [AgentService.reports, hp, hd]
  · cases outcome <;> rfl

theorem judged_outcome {raw : String} {v : Verdict} (h : Judged a A raw v) :
    (match v.outcome with
      | .ok _ => true
      | .error _ => false) = v.succeeded := by
  cases h with
  | unparsed _ => rfl
  | misrouted _ _ _ => rfl
  | unknown _ _ _ => rfl
  | @ran _ _ outcome _ _ _ _ _ => cases outcome <;> rfl

/-- Whatever the messages and however their handlers end: `handle` returns an
error for just the transient failures whose streak is no multiple of five,
so never five times in a row for one text, and each message is reported once,
with its success. -/
theorem retries_and_reports {m : Memory} {h : Host} {rs : List Round}
    (hr : Rounds a A m h rs) :
    (∀ newer r older, rs = newer ++ r :: older →
      r.Handles a A ∧ Judged a A r.raw r.verdict ∧
        ((∃ e, r.ret = .error e) ↔ r.transient = true ∧ streak (r :: older) % 5 ≠ 0) ∧
        (a.publisher = true → destination a r.verdict.replyQueueUrl ≠ "" → ∃ body,
          r.sent = [(destination a r.verdict.replyQueueUrl, a.codec.serialize (.object body))] ∧
            body.lookup "success" = some (.bool r.verdict.succeeded))) ∧
      ∀ newer five older raw, rs = newer ++ five ++ older → five.length = 5 →
        (∀ r ∈ five, r.raw = raw) → ∃ r ∈ five, r.ret = .ok () := by
  constructor
  · rintro newer r older rfl
    obtain ⟨_, _, hr'⟩ := hr.older
    obtain ⟨hret, hj, hhandles, lastReport, hsent⟩ := hr'.newest
    refine ⟨hhandles, hj, hret, fun hp hd => ?_⟩
    obtain ⟨body, hbody, hsuccess⟩ :=
      reports_one r.verdict.command lastReport r.verdict.outcome hp hd
    rw [judged_outcome hj] at hsuccess
    exact ⟨body, hsent.trans hbody, hsuccess⟩
  · rintro newer five older raw rfl hfive hraw
    by_contra hall
    have herr : ∀ r ∈ five, ∃ e, r.ret = .error e := fun r hmem => by
      cases hret : r.ret with
      | ok u => exact absurd ⟨r, hmem, hret⟩ hall
      | error e => exact ⟨e, rfl⟩
    -- what each of the five says of its streak
    have hone : ∀ before r after, five = before ++ r :: after →
        r.transient = true ∧ streak (r :: (after ++ older)) % 5 ≠ 0 := by
      rintro before r after rfl
      have hsplit : Rounds a A m h ((newer ++ before) ++ r :: (after ++ older)) := by
        simpa using hr
      obtain ⟨_, _, hr'⟩ := hsplit.older
      exact hr'.newest.1.mp (herr r (by simp))
    have hsame : ∀ r ∈ five, r.sameFailure raw = true := fun r hmem => by
      obtain ⟨before, after, hsplit⟩ := List.append_of_mem hmem
      simp [Round.sameFailure, hraw r hmem, (hone before r after hsplit).1]
    obtain ⟨r₁, r₂, r₃, r₄, r₅, rfl⟩ : ∃ r₁ r₂ r₃ r₄ r₅, five = [r₁, r₂, r₃, r₄, r₅] := by
      match five, hfive with
      | [r₁, r₂, r₃, r₄, r₅], _ => exact ⟨r₁, r₂, r₃, r₄, r₅, rfl⟩
    have hk : ∀ before r after, [r₁, r₂, r₃, r₄, r₅] = before ++ r :: after →
        (after.length + 1 + streakOf raw older) % 5 ≠ 0 := by
      intro before r after hsplit
      have hmem : ∀ q ∈ r :: after, q ∈ [r₁, r₂, r₃, r₄, r₅] := fun q hq => by
        rw [hsplit]
        exact List.mem_append_right _ hq
      have hlen := streakOf_append older fun q hq => hsame q (hmem q hq)
      have hne := (hone before r after hsplit).2
      rw [streak, hraw r (hmem r List.mem_cons_self), ← List.cons_append, hlen] at hne
      exact hne
    have h1 := hk [] r₁ [r₂, r₃, r₄, r₅] rfl
    have h2 := hk [r₁] r₂ [r₃, r₄, r₅] rfl
    have h3 := hk [r₁, r₂] r₃ [r₄, r₅] rfl
    have h4 := hk [r₁, r₂, r₃] r₄ [r₅] rfl
    have h5 := hk [r₁, r₂, r₃, r₄] r₅ [] rfl
    simp only [List.length_cons, List.length_nil] at h1 h2 h3 h4 h5
    omega

/-- A download on a disk that is full. -/
def Sample.fetcher : AgentService :=
  configurations.agentService (codec
    [("fetch", .object [("command", .string "download_version"), ("payload", .string "r1")]),
      ("r1", .object [("release_id", .string "r1"), ("artifacts", .array [.null])])])

namespace Sample

/-- What the consumer of the messages does not control. -/
abbrev freely : Host → Op → Turn → Prop := fun _ _ _ => True

/-- Whatever the agent remembers, a further try fails in the same way. -/
theorem fetch_fails (m : Memory) : ∃ v m₁ h₁,
    Exec answer freely (dispatch fetcher "fetch").run m host (.done (.ok v) m₁) h₁ ∧
      v.transient = true ∧ destination fetcher v.replyQueueUrl = "results" :=
  ⟨_, _, _, exec_freely _ _ [failing, {}] _ _ rfl, rfl, rfl⟩

theorem tried_again {m : Memory} {h : Host} {rs : List Round} (hr : Rounds fetcher freely m h rs) :
    ∃ m' h' r, Rounds fetcher freely m' h' (r :: rs) ∧ r.raw = "fetch" ∧ r.transient = true ∧
      destination fetcher r.verdict.replyQueueUrl = "results" := by
  obtain ⟨v, m₁, h₁, hd, ht, hto⟩ := fetch_fails m
  have hsettled : wp answer freely Anywhere (settle "fetch" v).run (fun _ _ h' => h' = h₁) m₁ h₁ :=
    settle_sent
  obtain ⟨ret, m₂, h₂, hs, rfl⟩ := can_exec (can_of_wp (fun _ _ => ⟨{}, trivial⟩) hsettled)
  obtain ⟨-, hdispatched⟩ := wp_done hd dispatch_spec
  cases hdispatched with
  | judged _ hrep =>
      obtain ⟨lastReport, hsent⟩ := hrep
      exact ⟨m₂, _, _, .round (hr.host host) hd hs hsent, rfl, ht, hto⟩

end Sample

/-- A download that fails five times: the consumer is told of four failures,
and all five are reported. -/
theorem retries_and_reports_five : ∃ m h r₁ r₂ r₃ r₄ r₅,
    Rounds Sample.fetcher Sample.freely m h [r₅, r₄, r₃, r₂, r₁] ∧
    (∀ r ∈ [r₁, r₂, r₃, r₄, r₅], r.raw = "fetch" ∧ r.transient = true ∧
      ∃ body, r.sent = [("results", Sample.fetcher.codec.serialize (.object body))] ∧
        body.lookup "success" = some (.bool false)) ∧
    (∀ r ∈ [r₁, r₂, r₃, r₄], ∃ e, r.ret = .error e) ∧ r₅.ret = .ok () := by
  obtain ⟨_, _, r₁, h₁, hraw₁, ht₁, hto₁⟩ :=
    Sample.tried_again (.start (h := Sample.host) (m := {}) ⟨rfl, rfl⟩)
  obtain ⟨_, _, r₂, h₂, hraw₂, ht₂, hto₂⟩ := Sample.tried_again h₁
  obtain ⟨_, _, r₃, h₃, hraw₃, ht₃, hto₃⟩ := Sample.tried_again h₂
  obtain ⟨_, _, r₄, h₄, hraw₄, ht₄, hto₄⟩ := Sample.tried_again h₃
  obtain ⟨m, h, r₅, h₅, hraw₅, ht₅, hto₅⟩ := Sample.tried_again h₄
  have hall : ∀ r ∈ [r₁, r₂, r₃, r₄, r₅], r.raw = "fetch" ∧ r.transient = true ∧
      destination Sample.fetcher r.verdict.replyQueueUrl = "results" := by
    simp only [List.forall_mem_cons]
    exact ⟨⟨hraw₁, ht₁, hto₁⟩, ⟨hraw₂, ht₂, hto₂⟩, ⟨hraw₃, ht₃, hto₃⟩, ⟨hraw₄, ht₄, hto₄⟩,
      ⟨hraw₅, ht₅, hto₅⟩, fun _ hr => by cases hr⟩
  obtain ⟨hone, -⟩ := retries_and_reports h₅
  have hsame : ∀ r ∈ [r₁, r₂, r₃, r₄, r₅], r.sameFailure "fetch" = true := fun r hr => by
    simp [Round.sameFailure, (hall r hr).1, (hall r hr).2.1]
  -- the length of the streak says which of them is told
  have hround : ∀ newer r older, [r₅, r₄, r₃, r₂, r₁] = newer ++ r :: older →
      ((∃ e, r.ret = .error e) ↔ (older.length + 1) % 5 ≠ 0) ∧
      ∃ body, r.sent = [("results", Sample.fetcher.codec.serialize (.object body))] ∧
        body.lookup "success" = some (.bool false) := by
    intro newer r older hsplit
    have hmem : ∀ q ∈ r :: older, q ∈ [r₁, r₂, r₃, r₄, r₅] := fun q hq => by
      have hq' : q ∈ [r₅, r₄, r₃, r₂, r₁] := hsplit ▸ List.mem_append_right _ hq
      simpa [or_comm, or_assoc, or_left_comm] using hq'
    obtain ⟨hraw, ht, hto⟩ := hall r (hmem r List.mem_cons_self)
    obtain ⟨-, -, hret, hrep⟩ := hone newer r older hsplit
    have hlen := streakOf_append [] fun q hq => hsame q (hmem q hq)
    rw [List.append_nil] at hlen
    refine ⟨?_, ?_⟩
    · rw [hret, streak, hraw, hlen, and_iff_right ht]
      rfl
    · obtain ⟨body, hbody, hsuccess⟩ := hrep rfl (by rw [hto]; decide)
      exact ⟨body, hto ▸ hbody, by rw [hsuccess, Verdict.succeeded_of_transient ht]⟩
  have h1 := hround [r₅, r₄, r₃, r₂] r₁ [] rfl
  have h2 := hround [r₅, r₄, r₃] r₂ [r₁] rfl
  have h3 := hround [r₅, r₄] r₃ [r₂, r₁] rfl
  have h4 := hround [r₅] r₄ [r₃, r₂, r₁] rfl
  have h5 := hround [] r₅ [r₄, r₃, r₂, r₁] rfl
  refine ⟨m, h, r₁, r₂, r₃, r₄, r₅, h₅, fun r hr => ?_, ?_, ?_⟩
  · obtain ⟨hraw, ht, -⟩ := hall r hr
    refine ⟨hraw, ht, ?_⟩
    have hfive : ∀ q ∈ [r₁, r₂, r₃, r₄, r₅], ∃ body,
        q.sent = [("results", Sample.fetcher.codec.serialize (.object body))] ∧
          body.lookup "success" = some (.bool false) := by
      simp only [List.forall_mem_cons]
      exact ⟨h1.2, h2.2, h3.2, h4.2, h5.2, fun _ hq => by cases hq⟩
    exact hfive r hr
  · simp only [List.forall_mem_cons]
    exact ⟨h1.1.mpr (by simp), h2.1.mpr (by simp), h3.1.mpr (by simp), h4.1.mpr (by simp),
      fun _ hq => by cases hq⟩
  · cases hret : r₅.ret with
    | ok u => rfl
    | error e => simpa using h5.1.mp ⟨e, hret⟩

end Yirang.Agent
