/-
# `Yirang.Fleet.Truthful` — what a client is told of a device has happened

A batch of results that a client receives says of each report which device
sent it, for which command, and whether the command succeeded.  Anybody can
put a text in the queue of the results; but a report that an agent put there
is about a message that this agent took, and says what became of it.

    Reporting    an agent came to a verdict, and sent this text of it
    Traced       every report on its way or in a queue is such a text
    batches      the messages that a request was handed
    told_what_happened
                 what a batch says of a device
-/
import Yirang.Fleet.Delivery
import Yirang.Fleet.Feedback
import Yirang.Fleet.Reports

namespace Yirang.Agent

open Effect

variable {a : AgentService} {A : Host → Op → Turn → Prop} {raw : String} {m : Memory} {h : Host}

/-- The report is the last call that a message leads to: an agent that is
killed before a call has sent nothing of the message. -/
theorem dispatch_unsent :
    wp answer A (fun _ h' _ => h'.sent = h.sent) (dispatch a raw).run (fun _ _ _ => True) m h := by
  have hreport : ∀ {command reply : String} {outcome : Except String Unit} {m' : Memory} {h' : Host},
      h'.sent = h.sent → wp answer A (fun _ h' _ => h'.sent = h.sent)
        (report a command reply outcome).run (fun _ _ _ => True) m' h' := by
    intro command reply outcome m' h' hs
    unfold report
    split
    · trivial
    · exact ⟨hs, fun _ _ => trivial⟩
  unfold dispatch
  cases hp : parseAgentMessage a.codec raw with
  | error e => exact wp_seq_of (hreport rfl) (fun _ _ _ _ => trivial) fun _ _ _ _ => trivial
  | ok message =>
      simp only
      split
      · exact wp_seq_of (hreport rfl) (fun _ _ _ _ => trivial) fun _ _ _ _ => trivial
      · cases hl : (messages a).lookup message.command with
        | none => exact wp_seq_of (hreport rfl) (fun _ _ _ _ => trivial) fun _ _ _ _ => trivial
        | some handler =>
            -- a handler sends nothing
            have hquiet := quiet_spec (A := A) (h := h) (B := fun _ h' _ => h'.sent = h.sent)
              (m := { m with failureIsPermanent := false }) (quiet_handler hl message.payload)
              fun _ _ _ hs => hs
            refine wp_load_seq.mpr (wp_store_seq.mpr ?_)
            refine wp_seq.mpr (wp_attempt.mpr (wp_conseq hquiet ?_))
            rintro ended m₁ h₁ ⟨-, hs₁⟩
            refine wp_returned_seq (fun outcome _ => ?_) fun _ _ => trivial
            exact wp_seq_of (hreport hs₁) (fun _ _ _ _ => trivial) fun _ _ _ _ => trivial

theorem handle_unsent :
    wp answer A (fun _ h' _ => h'.sent = h.sent) (handle a raw).run (fun _ _ _ => True) m h := by
  refine wp_seq_of dispatch_unsent (fun v m' h' _ => ?_) fun _ _ _ _ => trivial
  unfold settle
  split
  · refine wp_load_seq.mpr ?_
    show wp _ _ _ (ExceptT.run (ite _ _ _)) _ _ _
    split
    · trivial
    · trivial
  · trivial

end Yirang.Agent

namespace Yirang.Fleet

open Fs Effect Agent

variable {S : Setup}

/-! ## Reports -/

/-- In this run an agent took the copy from its queue, came to the verdict,
and sent the text. -/
inductive Reporting (S : Setup) : State → Nat → Copy → Verdict → String → Prop
  | sent {s : State} {i : Nat} {m m₁ m₂ : Memory} {h h₁ h₂ : Host} {done : List Nat} {copy : Copy}
      {v : Verdict} {ret : Except String Unit} {sent : List (String × String)} {text : String} :
      Reachable S s → s.members i = ⟨.up m, h, done⟩ → copy ∈ s.net.queues (S.queueUrl i) →
      Exec Agent.answer (fun _ _ _ => True) (dispatch (S.service i) copy.body).run m h
        (.done (.ok v) m₁) h₁ →
      Exec Agent.answer (fun _ _ _ => True) (settle copy.body v).run m₁ h₁ (.done ret m₂) h₂ →
      h₂.sent = sent ++ h.sent → text ∈ sent.map Prod.snd →
      Reporting S ((s.take i copy).settled i
        ⟨.up m₂, h₂, if ret.isOk then copy.id :: done else done⟩ sent) i copy v text
  | later {s s' : State} {i : Nat} {copy : Copy} {v : Verdict} {text : String} :
      Reporting S s i copy v text → Step S s s' → Reporting S s' i copy v text

/-- The text is the report of the verdict, and the verdict is about what the
copy says. -/
theorem Reporting.text {s : State} {i : Nat} {copy : Copy} {v : Verdict} {text : String}
    (h : Reporting S s i copy v text) : Judged (S.service i) (fun _ _ _ => True) copy.body v ∧
      ∃ lastReport, text = S.agentCodec.serialize
        (.object (reportBody (S.service i) v.command v.outcome lastReport)) := by
  induction h with
  | later _ _ ih => exact ih
  | @sent _ i m m₁ m₂ h h₁ h₂ done copy v ret sent text _ _ _ hd hset hsent htext =>
      obtain ⟨hj, lastReport, hrep⟩ : Judged (S.service i) (fun _ _ _ => True) copy.body v ∧
          Agent.Reported (S.service i) v h h₁ := by
        cases (wp_done hd dispatch_spec).2 with
        | judged hj hrep => exact ⟨hj, hrep⟩
      refine ⟨hj, lastReport, ?_⟩
      have hsame : h₂ = h₁ := wp_done hset settle_sent
      rw [hsame, hrep] at hsent
      rw [← List.append_cancel_right hsent] at htext
      unfold AgentService.reports at htext
      split at htext
      · cases htext
      · exact List.mem_singleton.mp htext

/-- Some agent's report of something. -/
def State.Reported (S : Setup) (s : State) (i : Nat) (text : String) : Prop :=
  ∃ copy v, Reporting S s i copy v text

theorem State.Reported.later {s s' : State} {i : Nat} {text : String} (h : s.Reported S i text)
    (hs : Step S s s') : s'.Reported S i text := by
  obtain ⟨copy, v, hr⟩ := h
  exact ⟨copy, v, hr.later hs⟩

structure Traced (S : Setup) (s : State) : Prop where
  flight : ∀ e ∈ s.flight, s.Reported S e.1 e.2.2
  log : ∀ e ∈ s.net.log, ∀ i, e.2.origin = .reported i → s.Reported S i e.2.body

/-- A call of a request reports nothing. -/
theorem reported_answered {serving : Serving} {c : Turn} {o : Api.Op} {net : Network}
    {e : String × Copy} {i : Nat} (he : e ∈ (answer serving c o net).2.log)
    (ho : e.2.origin = .reported i) : e ∈ net.log := by
  cases o with
  | send url body =>
      rcases answer_send serving c net with ha | ha <;> rw [ha] at he
      · rcases List.mem_cons.mp he with rfl | he
        · cases ho
        · exact he
      · exact he
  | receive url max wait =>
      rw [answer_receive] at he
      exact he
  | delete url messages => exact he
  | interleaving n => exact he
  | respond status response =>
      rcases answer_respond serving c net with ha | ha <;> rw [ha] at he <;> exact he

namespace Traced

variable {s s' : State}

/-- Nothing new is reported. -/
theorem same (h : Traced S s) (hs : Step S s s') (hflight : s'.flight ⊆ s.flight)
    (hlog : ∀ e ∈ s'.net.log, ∀ i, e.2.origin = .reported i → e ∈ s.net.log) : Traced S s' where
  flight e he := (h.flight e (hflight he)).later hs
  log e he i ho := (h.log e (hlog e he i ho) i ho).later hs

theorem step (hr : Reachable S s) (h : Traced S s) (hs : Step S s s') : Traced S s' := by
  cases id hs with
  | request r => exact h.same hs (List.Subset.refl _) fun _ he _ _ => he
  | turn ht =>
      refine h.same hs (List.Subset.refl _) fun e he i ho => ?_
      exact ht.preserves (P := fun net => e ∈ net.log → e ∈ s.net.log)
        (fun _ _ _ _ hold hnew => hold (reported_answered hnew ho)) (fun he => he) he
  | arrive url body =>
      refine h.same hs (List.Subset.refl _) fun e he i ho => ?_
      rcases List.mem_cons.mp he with rfl | he
      · cases ho
      · exact he
  | @land before after j url body hf =>
      have hrest : before ++ after ⊆ s.flight := by
        rw [hf]
        exact List.append_subset.mpr ⟨List.subset_append_left _ _,
          fun e he => List.mem_append_right _ (List.mem_cons_of_mem _ he)⟩
      refine ⟨fun e he => (h.flight e (hrest he)).later hs, fun e he i ho => ?_⟩
      rcases List.mem_cons.mp he with rfl | he
      · cases ho
        exact (h.flight (j, url, body) (by rw [hf]; simp)).later hs
      · exact (h.log e he i ho).later hs
  | @lose before after j url body hf =>
      refine h.same hs ?_ fun _ he _ _ => he
      show before ++ after ⊆ s.flight
      rw [hf]
      exact List.append_subset.mpr ⟨List.subset_append_left _ _,
        fun e he => List.mem_append_right _ (List.mem_cons_of_mem _ he)⟩
  | boot i sent _ hran | bootKilled i sent _ hran =>
      refine h.same hs ?_ fun _ he _ _ => he
      show sent.map _ ++ s.flight ⊆ s.flight
      rw [boot_silent hran]
      exact List.Subset.refl _
  | handle i copy sent hup hq hran =>
      rcases exec_handle.mp hran.1 with ⟨v, m₁, h₁, hd, hset⟩ | ⟨what, -, hd⟩
      · refine ⟨fun e he => ?_, fun e he j ho => (h.log e he j ho).later hs⟩
        rcases List.mem_append.mp he with he | he
        · obtain ⟨e', he', rfl⟩ := List.mem_map.mp he
          exact ⟨copy, v, .sent hr hup hq hd hset hran.2 (List.mem_map_of_mem he')⟩
        · exact (h.flight e he).later hs
      · -- what was thrown is not reported
        refine h.same hs ?_ fun _ he _ _ => he
        show sent.map _ ++ s.flight ⊆ s.flight
        have hsame := hran.2
        cases (wp_done hd dispatch_spec).2 with
        | threw _ _ _ hs₁ =>
            rw [hs₁] at hsame
            rw [List.self_eq_append_left.mp hsame]
            exact List.Subset.refl _
  | killed i copy sent hup hq hran =>
      refine h.same hs ?_ fun _ he _ _ => he
      show sent.map _ ++ s.flight ⊆ s.flight
      have hsame := wp_before hran.1 handle_unsent
      rw [List.self_eq_append_left.mp (hsame.symm.trans hran.2)]
      exact List.Subset.refl _
  | exit i _ => exact h.same hs (List.Subset.refl _) fun _ he _ _ => he
  | finish i _ => exact h.same hs (List.Subset.refl _) fun _ he _ _ => he
  | device i w => exact h.same hs (List.Subset.refl _) fun _ he _ _ => he

end Traced

theorem Reachable.traced {s : State} (hr : Reachable S s) : Traced S s := by
  induction hr with
  | start hosts => exact ⟨fun _ he => (by cases he), fun _ he => by cases he⟩
  | step hr hs ih => exact ih.step hr hs

/-! ## Batches -/

/-- A message of the queue of the results, from which the API reads this
report. -/
def Network.Arrived (S : Setup) (net : Network) (report : Api.Report) : Prop :=
  ∃ copy, (S.api.resultQueueUrl, copy) ∈ net.log ∧ S.api.resultQueueUrl ≠ "" ∧
    Api.decodeReport S.apiCodec copy.body = some report

/-- The messages that a request was handed. -/
def batches (S : Setup) : Monitor cloud (List Api.Message) where
  note
    | .receive _ _ _, .ok messages, seen => messages ++ seen
    | _, _, seen => seen
  passes
    | _, .receive url _ _ => url = S.api.resultQueueUrl ∧ url ≠ ""
    | seen, .respond _ (.batch batch) =>
        ∀ report ∈ batch.reports, ∃ message ∈ seen,
          Api.decodeReport S.apiCodec message.body = some report
    | _, _ => True
  expects _ _ := True

section Batches

variable {seen : List Api.Message}

theorem sends_seen {body : String} {targets : List Api.DeviceQueue} :
    ∀ {order : List Nat} {deliveries : List Api.Delivery},
      (batches S).Follows (Api.sends body targets order deliveries).run (fun _ _ => True) () seen
  | [], _ => trivial
  | index :: rest, deliveries => by
      unfold Api.sends
      cases targets[index]? with
      | none => exact sends_seen
      | some target => exact wp_seq.mpr ⟨trivial, fun c _ => sends_seen⟩

theorem publish_seen {command group : String} {payload : Json} :
    (batches S).Follows (Api.publish S.api S.apiCodec command group payload).run
      (fun _ _ => True) () seen := by
  unfold Api.publish
  refine wp_require_seq.mpr ?_
  split
  · refine wp_seq.mpr ⟨trivial, fun c _ => ?_⟩
    refine wp_seq_of sends_seen (fun deliveries _ seen _ => ?_) fun _ _ _ _ => trivial
    refine wp_require_seq.mpr ?_
    split <;> trivial
  · trivial

theorem published_seen {part : Api.Task Api.PublishResult} {status : Nat}
    (h : (batches S).Follows part.run (fun _ _ => True) () seen) :
    (batches S).Follows (Api.answerWith status .published part).run (fun _ _ => True) () seen := by
  refine wp_seq.mpr (wp_attempt.mpr (wp_conseq h ?_))
  rintro (e | result) - seen -
  · exact wp_seq.mpr ⟨trivial, fun _ _ => trivial⟩
  · exact wp_seq.mpr ⟨trivial, fun _ _ => trivial⟩

/-- What is handed over is read from what was received. -/
theorem results_seen :
    (batches S).Follows (Api.results S.api S.apiCodec).run
      (fun r seen => ∀ batch, r = .ok batch → ∀ report ∈ batch.reports, ∃ message ∈ seen,
        Api.decodeReport S.apiCodec message.body = some report) () seen := by
  refine wp_require_seq.mpr ?_
  split
  · rename_i hq
    refine wp_seq.mpr (wp_orFail.mpr ⟨⟨rfl, by simpa using hq⟩, fun c _ => ?_⟩)
    show settled _ _ (.ok (c (.receive S.api.resultQueueUrl S.api.resultBatchSize
      S.api.resultWaitSeconds))) () ((batches S).note (.receive S.api.resultQueueUrl
        S.api.resultBatchSize S.api.resultWaitSeconds) (c _) seen)
    cases c (.receive S.api.resultQueueUrl S.api.resultBatchSize S.api.resultWaitSeconds) with
    | error e => exact fun batch he => by cases he
    | ok messages =>
        have hread : ∀ report ∈ (Api.batchOf S.apiCodec messages).reports,
            ∃ message ∈ messages ++ seen,
              Api.decodeReport S.apiCodec message.body = some report := by
          intro report hm
          obtain ⟨message, hmessage, hdecode⟩ := List.mem_filterMap.mp hm
          exact ⟨message, List.mem_append_left _ hmessage, hdecode⟩
        refine wp_seq.mpr ?_
        unfold Api.acknowledge
        split
        · intro batch he
          cases he
          exact hread
        · refine ⟨trivial, fun c' _ batch he => ?_⟩
          cases he
          exact hread
  · exact fun batch he => by cases he

theorem serve_seen (r : Api.Request) :
    (batches S).Follows (Api.serve S.api S.apiCodec r).run (fun _ _ => True) () seen := by
  cases r with
  | deploy r =>
      refine published_seen ?_
      unfold Api.deploy
      cases Api.downloadPayload r.releaseId r.artifacts with
      | error e => trivial
      | ok payload => exact publish_seen
  | command r =>
      refine published_seen (wp_require_seq.mpr ?_)
      split
      · cases Api.commandPayload r.command (r.payload.getD (.object [])) with
        | error e => trivial
        | ok payload => exact publish_seen
      · trivial
  | results =>
      refine wp_seq.mpr (wp_attempt.mpr (wp_conseq results_seen ?_))
      rintro (e | batch) - seen hread
      · exact wp_seq.mpr ⟨trivial, fun _ _ => trivial⟩
      · exact wp_seq.mpr ⟨hread batch rfl, fun _ _ => trivial⟩

end Batches

/-- What a request was handed was in the queue of the results. -/
def Seen (S : Setup) (_ : Serving) (seen : List Api.Message) (net : Network) : Prop :=
  ∀ message ∈ seen, ∃ copy, (S.api.resultQueueUrl, copy) ∈ net.log ∧ S.api.resultQueueUrl ≠ "" ∧
    copy.message = message

structure Batched (S : Setup) (net : Network) : Prop where
  queued : net.Logged
  written : ∀ n batch, (n, .batch batch) ∈ net.written → ∀ report ∈ batch.reports,
    net.Arrived S report

section Guard

variable {net net' : Network} {serving : Serving} {seen : List Api.Message}

theorem Network.Arrived.mono {report : Api.Report} (h : net.Arrived S report)
    (hl : net.log ⊆ net'.log) : net'.Arrived S report := by
  obtain ⟨copy, hm, hrest⟩ := h
  exact ⟨copy, hl hm, hrest⟩

theorem Seen.mono (h : Seen S serving seen net) (hl : net.log ⊆ net'.log) :
    Seen S serving seen net' := by
  intro message hm
  obtain ⟨copy, hc, hrest⟩ := h message hm
  exact ⟨copy, hl hc, hrest⟩

/-- What is received is in the queue. -/
theorem mem_received {url : String} {picked : List Nat} {max : Int} {message : Api.Message}
    (h : message ∈ net.received url picked max) :
    ∃ copy ∈ net.queues url, copy.message = message := by
  obtain ⟨copy, hc, rfl⟩ := List.mem_map.mp h
  obtain ⟨id, -, hfind⟩ := List.mem_filterMap.mp (List.mem_of_mem_take hc)
  exact ⟨copy, List.mem_of_find?_eq_some hfind, rfl⟩

theorem seen_guarded : Guarded answer (fun _ _ _ _ => True) (fun _ => batches S) Serving.number
    (Batched S) (Seen S) where
  expected _ _ _ _ := trivial
  world {serving seen net o c} hb hj hp _ := by
    refine ⟨hb.queued.answered.1, fun n batch hm report hreport => ?_⟩
    have hold : (n, .batch batch) ∈ net.written → (answer serving c o net).2.Arrived S report :=
      fun hm => (hb.written n batch hm report hreport).mono log_answered
    cases o with
    | send url body =>
        rcases answer_send serving c net with he | he <;> rw [he] at hm <;> exact hold hm
    | receive url max wait =>
        rw [answer_receive] at hm
        exact hold hm
    | delete url messages => exact hold hm
    | interleaving _ => exact hold hm
    | respond status response =>
        rcases answer_respond serving c net with he | he <;> rw [he] at hm
        · rcases List.mem_cons.mp hm with he' | hm
          · -- the response of this request
            cases he'
            obtain ⟨message, hmessage, hdecode⟩ := hp report hreport
            obtain ⟨copy, hl, hne, rfl⟩ := hj message hmessage
            exact Network.Arrived.mono ⟨copy, hl, hne, hdecode⟩ log_answered
          · exact hold hm
        · exact hold hm
  own {serving seen net o c} hb hj hp _ := by
    have hold : Seen S serving seen (answer serving c o net).2 := hj.mono log_answered
    cases o with
    | send url body => exact hold
    | receive url max wait =>
        obtain ⟨rfl, hne⟩ := hp
        simp only [answer] at hold ⊢
        cases hf : c.fault with
        | none =>
            rw [hf] at hold
            intro message hm
            rcases List.mem_append.mp hm with hm | hm
            · obtain ⟨copy, hq, he⟩ := mem_received hm
              exact ⟨copy, hb.queued _ _ hq, hne, he⟩
            · exact hold message hm
        | some e =>
            rw [hf] at hold
            exact hold
    | delete url messages => exact hold
    | interleaving _ => exact hold
    | respond status response => exact hold
  others _ _ _ _ _ hj := hj.mono log_answered

end Guard

structure Handing (S : Setup) (s : State) : Prop where
  net : Batched S s.net
  watched : ∀ t ∈ s.requests, t.Watched (fun _ => batches S) (Seen S) (fun _ _ => True) s.net

namespace Handing

variable {s s' : State}

/-- Nobody but a request writes a response. -/
theorem network (h : Handing S s) (hrequests : s'.requests = s.requests)
    (hwritten : s'.net.written = s.net.written) (hqueued : s'.net.Logged)
    (hl : s.net.log ⊆ s'.net.log) : Handing S s' where
  net := ⟨hqueued, fun n batch hm report hreport =>
    (h.net.written n batch (hwritten ▸ hm) report hreport).mono hl⟩
  watched t ht := by
    obtain ⟨seen, hj, hf⟩ := h.watched t (hrequests ▸ ht)
    exact ⟨seen, hj.mono hl, hf⟩

theorem step (hn : (s.requests.map fun t => t.owner.number).Nodup) (h : Handing S s)
    (hs : Step S s s') : Handing S s' := by
  have hsub := List.Subset.refl s.net.log
  cases hs with
  | request r =>
      refine ⟨h.net, fun t ht => ?_⟩
      rcases List.mem_append.mp ht with ht | ht
      · exact h.watched t ht
      · rw [List.mem_singleton] at ht
        subst ht
        exact ⟨[], fun _ hm => (by cases hm), serve_seen r⟩
  | turn ht =>
      obtain ⟨hnet, hwatched⟩ := seen_guarded.step h.net h.watched hn ht
      exact ⟨hnet, hwatched⟩
  | arrive url body => exact h.network rfl rfl h.net.queued.put (List.subset_cons_self _ _)
  | land _ _ _ => exact h.network rfl rfl h.net.queued.put (List.subset_cons_self _ _)
  | lose _ _ _ => exact h.network rfl rfl h.net.queued hsub
  | boot i _ _ _ => exact h.network rfl rfl h.net.queued hsub
  | bootKilled i _ _ _ => exact h.network rfl rfl h.net.queued hsub
  | handle i _ _ _ _ _ => exact h.network rfl rfl h.net.queued hsub
  | killed i _ _ _ _ _ => exact h.network rfl rfl h.net.queued hsub
  | exit i _ => exact h.network rfl rfl h.net.queued hsub
  | finish i _ => exact h.network rfl rfl h.net.queued.remove hsub
  | device i w => exact h.network rfl rfl h.net.queued hsub

end Handing

theorem Reachable.handing (hv : S.api.Valid) {s : State} (hr : Reachable S s) : Handing S s := by
  induction hr with
  | start hosts =>
      refine ⟨⟨?_, ?_⟩, fun _ hm => by cases hm⟩
      · exact fun _ _ h => by cases h
      · exact fun _ _ hm => by cases hm
  | step hr hs ih =>
      refine ih.step ?_ hs
      rw [(hr.sound hv).numbers]
      exact List.nodup_range

/-! ## Reading a report -/

/-- What the API's library reads of a report that an agent's has written is
what was written. -/
def Setup.ReadsReports (S : Setup) : Prop :=
  ∀ i command outcome lastReport v,
    S.apiCodec.parse (S.agentCodec.serialize
      (.object (reportBody (S.service i) command outcome lastReport))) = .ok v →
    Json.same (.object (reportBody (S.service i) command outcome lastReport)) v = true

theorem same_bool {b : Bool} {v : Json} (h : Json.same (.bool b) v = true) : v = .bool b := by
  cases v <;> simp_all [Json.same]

/-- The detail of a report. -/
def detailOf (lastReport : String) : Except String Unit → String
  | .ok _ => lastReport
  | .error why => why

/-- The API reads a report as the agent wrote it. -/
theorem decode_report {a : AgentService} {command lastReport : String}
    {outcome : Except String Unit} {v : Json}
    (h : Json.same (.object (reportBody a command outcome lastReport)) v = true) :
    Api.Report.decode v = some
      { deviceId := a.options.deviceId
        group := a.options.group
        command
        success := outcome.isOk
        detail := detailOf lastReport outcome } := by
  obtain ⟨b, rfl, hlen, hsame⟩ := Json.same_object h
  obtain ⟨-, hfound⟩ := Api.found ["device_id", "group", "command", "success", "detail"] rfl
    (by decide) (by decide +kernel) hlen hsame
  obtain ⟨v₁, h₁, s₁⟩ := hfound "device_id" _ (by decide) rfl
  obtain ⟨v₂, h₂, s₂⟩ := hfound "group" _ (by decide) rfl
  obtain ⟨v₃, h₃, s₃⟩ := hfound "command" _ (by decide) rfl
  obtain ⟨v₄, h₄, s₄⟩ := hfound "success" _ (by decide) rfl
  obtain ⟨v₅, h₅, s₅⟩ := hfound "detail" _ (by decide) rfl
  rw [Json.same_string] at s₁ s₂ s₃ s₅
  have s₄' := same_bool s₄
  simp only [Api.Report.decode, Api.Go.field_of_under h₁, Api.Go.field_of_under h₂,
    Api.Go.field_of_under h₃, Api.Go.field_of_under h₄, Api.Go.field_of_under h₅, s₁, s₂, s₃, s₄',
    s₅, Api.Go.string, Api.Go.bool, Option.bind_eq_bind, Option.bind_some, Option.pure_def]
  cases outcome <;> rfl

/-! ## From the device to the client -/

/-- Whatever becomes of requests and agents: a report that was handed to a
client is read from a text of the queue of the results.  Somebody else put it
there, or an agent did that in this run took a message and came to a verdict
on it; and then the report names that agent and the command, and says what
became of it. -/
theorem told_what_happened (hv : S.api.validate = .ok ()) (hc : S.ReadsReports) {s : State}
    (hr : Reachable S s) {n : Nat} {batch : Api.ResultBatch}
    (hw : (n, .batch batch) ∈ s.net.written) {report : Api.Report}
    (hreport : report ∈ batch.reports) :
    ∃ text, (S.api.resultQueueUrl, text) ∈ s.net.log ∧
      Api.decodeReport S.apiCodec text.body = some report ∧ (text.origin = .other ∨
      ∃ i copy v, text.origin = .reported i ∧ Reporting S s i copy v text.body ∧
        Judged (S.service i) (fun _ _ _ => True) copy.body v ∧
        report.deviceId = (S.agents i).deviceId ∧ report.group = (S.agents i).group ∧
        report.command = v.command ∧ report.success = v.succeeded ∧
        ∀ why, v.outcome = .error why → report.detail = why) := by
  have hvalid := Api.Config.valid_of_validate hv
  obtain ⟨text, hl, hne, hdecode⟩ := (hr.handing hvalid).net.written n batch hw report hreport
  refine ⟨text, hl, hdecode, ?_⟩
  cases ho : text.origin with
  | other => exact .inl rfl
  | published m group =>
      -- no request publishes to the queue of the results
      obtain ⟨⟨queue, hq, hu⟩, -⟩ := (hr.sound hvalid).net.published _ _ _ _ hl ho
      exact absurd (hu ▸ List.mem_map_of_mem (Api.Config.mem_of_mem_queuesForGroup hq).1)
        (hvalid.result hne)
  | reported i =>
      obtain ⟨copy, v, hrep⟩ := hr.traced.log _ hl i ho
      obtain ⟨hj, lastReport, htext⟩ := hrep.text
      refine .inr ⟨i, copy, v, rfl, hrep, hj, ?_⟩
      rw [htext] at hdecode
      unfold Api.decodeReport at hdecode
      split at hdecode
      · rename_i json hparse
        rw [decode_report (hc _ _ _ _ _ hparse)] at hdecode
        cases hdecode
        refine ⟨rfl, rfl, rfl, ?_, fun why he => ?_⟩
        · rw [← judged_outcome hj]
          show v.outcome.isOk = _
          cases v.outcome <;> rfl
        · show detailOf lastReport v.outcome = why
          rw [he]
          rfl
      · cases hdecode

/-! ## A report that is handed over -/

namespace Sample

/-- Both libraries know the command, and what comes of it without an
engine. -/
def telling : Setup :=
  let texts := [("restart", .object (Api.agentMessage "restart_service" (.object []) "east"
    "results")), ("done", report)]
  { setup with
    apiCodec := dictionary texts
    agentCodec := dictionary texts }

theorem telling_reads : telling.ReadsReports := fun _ _ _ _ _ h =>
  dictionary_reads (by decide) (by decide) h

/-- The agent reports that it has no engine, and a client gets the report. -/
theorem told : ∃ s batch report, Reachable telling s ∧ (0, .batch batch) ∈ s.net.written ∧
    report ∈ batch.reports ∧ s.net.log.map (fun e => (e.1, e.2.origin)) =
      [("results", .reported 0), ("commands", .other)] := by
  have h₁ := Reachable.step (.start fun _ => Agent.Sample.host)
    (.arrive (S := telling) "commands" "restart")
  have hboot := exec_freely Agent.answer (telling.service 0).service.boot []
    (telling.service 0).service.fresh Agent.Sample.host rfl
  have h₂ := h₁.step (.boot 0 [] rfl ⟨hboot, rfl⟩)
  have hhandle := exec_freely Agent.answer ((telling.service 0).service.serve "restart") [{}] {}
    Agent.Sample.host rfl
  have h₃ := h₂.step (.handle 0 ⟨0, "restart", .other⟩ [("results", "done")] rfl
    (by decide +kernel) ⟨hhandle, by decide +kernel⟩)
  have h₄ := h₃.step (.land [] [] rfl)
  have h₅ := h₄.step (.request .results)
  have hserve := exec_freely (answer collect) (Api.serve telling.api telling.apiCodec .results).run
    [{ picked := [1] }, {}, {}] () net rfl
  have h₆ := h₅.served [] [] rfl hserve
  exact ⟨_, _, _, h₆, List.mem_cons_self, List.mem_cons_self, by decide +kernel⟩

end Sample

/-- The client reads what the agent said. -/
theorem told_what_happened_restart : ∃ s copy v text, Reachable Sample.telling s ∧
    Reporting Sample.telling s 0 copy v text ∧ ∃ n batch report,
      (n, .batch batch) ∈ s.net.written ∧ report ∈ batch.reports ∧
      Api.decodeReport Sample.telling.apiCodec text = some report ∧ report.deviceId = "dev-1" ∧
      report.success = v.succeeded := by
  obtain ⟨s, batch, report, hr, hw, hm, hlog⟩ := Sample.told
  obtain ⟨text, hl, hdecode, ho⟩ := told_what_happened rfl Sample.telling_reads hr hw hm
  have horigin : text.origin = .reported 0 := by
    have hmem : ("results", text.origin) ∈ s.net.log.map fun e => (e.1, e.2.origin) :=
      List.mem_map.mpr ⟨_, hl, rfl⟩
    rw [hlog] at hmem
    simpa using hmem
  rcases ho with ho | ⟨i, copy, v, ho, hrep, -, hdevice, -, -, hsuccess, -⟩
  · cases horigin.symm.trans ho
  · cases horigin.symm.trans ho
    exact ⟨s, copy, v, text.body, hr, hrep, 0, batch, report, hw, hm, hdecode, hdevice,
      hsuccess⟩

end Yirang.Fleet
