/-
# `Yirang.Fleet.Reports` — what becomes of a report

A request for results receives a batch, deletes it from the queue, and writes
it to its client, in this order.  A report is deleted before anybody has it:
when the write fails, it is gone.

    handed_over_of_written
                 a deleted report is in a response that was written, unless
                 the request that deleted it failed to write its own
    report_lost  the run that loses one
-/
import Yirang.Fleet.Requests

namespace Yirang.Fleet

open Fs Effect

variable {S : Setup} {s : State}

/-- A client got the report. -/
def State.HandedOver (s : State) (report : Api.Report) : Prop :=
  ∃ n batch, (n, .batch batch) ∈ s.net.written ∧ report ∈ batch.reports

/-- A request has not ended yet. -/
def State.Serves (s : State) (n : Nat) : Prop :=
  ∃ t ∈ s.requests, t.owner.number = n ∧ ∀ r, t.rest ≠ .pure r

theorem mem_batchOf {codec : Codec} {messages : List Api.Message} {message : Api.Message}
    {report : Api.Report} (hm : message ∈ messages)
    (hd : Api.decodeReport codec message.body = some report) :
    report ∈ (Api.batchOf codec messages).reports :=
  List.mem_filterMap.mpr ⟨message, hm, hd⟩

/-- Whatever requests are served at a time, and whatever calls fail: a report
that a request deleted was handed over, or will be by that request, unless
the write of its response failed. -/
theorem handed_over_of_written (hv : S.api.validate = .ok ()) (hr : Reachable S s) {n : Nat}
    {copy : Copy} {report : Api.Report} (hd : (n, copy) ∈ s.net.deleted)
    (hdec : Api.decodeReport S.apiCodec copy.body = some report) (hw : n ∉ s.net.unwritten) :
    s.HandedOver report ∨ s.Serves n := by
  have h := hr.sound (Api.Config.valid_of_validate hv)
  have hm : n ∈ s.requests.map fun t => t.owner.number := by
    rw [h.numbers]
    exact List.mem_range.mpr (h.net.deleted n copy hd).1
  obtain ⟨t, ht, rfl⟩ := List.mem_map.mp hm
  by_cases hpure : ∃ r, t.rest = .pure r
  · -- the request has ended, so it has responded
    left
    obtain ⟨r, hpure⟩ := hpure
    obtain ⟨w, htr, hf⟩ := h.watched t ht
    have hreplied : w.replied = true := by
      rw [hpure] at hf
      exact hf
    have hmem := htr.owed copy hd
    rcases htr.replied hreplied with he | he | he
    · rw [he] at hmem
      cases hmem
    · exact absurd he hw
    · exact ⟨_, _, he, mem_batchOf hmem hdec⟩
  · exact .inr ⟨t, ht, rfl, fun r hpure' => hpure ⟨r, hpure'⟩⟩

/-! ## A report -/

namespace Sample

/-- What the agent reports of a restart without an engine. -/
def report : Json :=
  .object (Agent.reportBody (setup.service 0) "restart_service" (.error Agent.noEngine) "")

def reporting : Setup :=
  { setup with
    apiCodec := codec "done" report
    agentCodec := Agent.Sample.codec
      [("restart", .object (Api.agentMessage "restart_service" (.object []) "east" "results")),
        ("done", report)] }

/-- A request for results, after nothing else. -/
def collect : Serving := ⟨0, .results⟩

/-- A command was sent, and its report has arrived. -/
def net : Network :=
  (({} : Network).put "commands" "restart" .other).put "results" "done" (.reported 0)

theorem reported : ∃ s, Reachable reporting s ∧ s.requests = [reporting.serving collect] ∧
    s.net = net := by
  have h₁ := Reachable.step (.start fun _ => Agent.Sample.host)
    (.arrive (S := reporting) "commands" "restart")
  have hboot := exec_freely Agent.answer (reporting.service 0).service.boot []
    (reporting.service 0).service.fresh Agent.Sample.host rfl
  have h₂ := h₁.step (.boot 0 [] rfl ⟨hboot, rfl⟩)
  have hhandle := exec_freely Agent.answer ((reporting.service 0).service.serve "restart") [{}] {}
    Agent.Sample.host rfl
  have h₃ := h₂.step (.handle 0 ⟨0, "restart", .other⟩ [("results", "done")] rfl
    (by decide +kernel) ⟨hhandle, by decide +kernel⟩)
  have h₄ := h₃.step (.land [] [] rfl)
  have h₅ := h₄.step (.request .results)
  exact ⟨_, h₅, rfl, rfl⟩

/-- The request receives the report, deletes it, and responds as `response`
says. -/
def collected (response : Turn) :
    Outcome cloud Unit (Except Api.ApiError Unit) × Network :=
  (Api.serve reporting.api reporting.apiCodec collect.request).run.run (answer collect)
    [{ picked := [1] }, {}, response] () net

theorem collects (response : Turn) : ∃ s r, Reachable reporting s ∧
    s.requests = [⟨collect, (), .pure r⟩] ∧ s.net = (collected response).2 := by
  obtain ⟨s, hr, hs, hn⟩ := reported
  have hend : ∃ r, (collected response).1 = .done r () := by
    unfold collected
    cases response with
    | mk fault landed picked order => cases fault <;> exact ⟨_, rfl⟩
  obtain ⟨r, hend⟩ := hend
  have he := exec_of_run (A := fun _ _ _ => True) (Program.admits_all _ _ _ _) hend
  rw [← hn] at he
  exact ⟨_, r, hr.served [] [] hs he, rfl, hn ▸ rfl⟩

end Sample

/-- A report that was handed over. -/
theorem handed_over_of_one : ∃ s report, Reachable Sample.reporting s ∧
    Api.decodeReport Sample.reporting.apiCodec "done" = some report ∧ s.HandedOver report := by
  obtain ⟨s, r, hr, hs, hn⟩ := Sample.collects {}
  obtain ⟨report, hdec⟩ : ∃ report,
      Api.decodeReport Sample.reporting.apiCodec "done" = some report := ⟨_, rfl⟩
  have hd : (0, (⟨1, "done", .reported 0⟩ : Copy)) ∈ s.net.deleted := by
    rw [hn]
    decide +kernel
  have hw : 0 ∉ s.net.unwritten := by
    rw [hn]
    decide +kernel
  rcases handed_over_of_written rfl hr hd hdec hw with h | ⟨t, ht, -, hp⟩
  · exact ⟨s, report, hr, hdec, h⟩
  · rw [hs, List.mem_singleton] at ht
    subst ht
    exact absurd rfl (hp r)

/-- The client went away: the report is deleted, no request is under way,
and nobody was handed it. -/
theorem report_lost : ∃ s n copy report, Reachable Sample.reporting s ∧
    copy.origin = .reported 0 ∧ (n, copy) ∈ s.net.deleted ∧
    Api.decodeReport Sample.reporting.apiCodec copy.body = some report ∧
    ¬ s.HandedOver report ∧ ∀ n, ¬ s.Serves n := by
  obtain ⟨s, r, hr, hs, hn⟩ := Sample.collects { fault := some "broken pipe" }
  have hd : (0, (⟨1, "done", .reported 0⟩ : Copy)) ∈ s.net.deleted := by
    rw [hn]
    decide +kernel
  have hnone : s.net.written = [] := by
    rw [hn]
    decide +kernel
  refine ⟨s, 0, ⟨1, "done", .reported 0⟩, _, hr, rfl, hd, rfl, ?_, ?_⟩
  · rintro ⟨n, batch, hm, -⟩
    rw [hnone] at hm
    cases hm
  · rintro n ⟨t, ht, -, hp⟩
    rw [hs, List.mem_singleton] at ht
    subst ht
    exact hp r rfl

end Yirang.Fleet
