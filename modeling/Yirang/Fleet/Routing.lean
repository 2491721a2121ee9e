/-
# `Yirang.Fleet.Routing` — a command reaches its group, once a queue

A command carries the group it was published to.  The API puts it in the
queues that it has for the group, and an agent refuses it when the group is
another than its own; so it does not matter which queue an agent consumes,
or which group its queue is registered under.

    parse_body     what an agent reads of a command is what the API wrote
    routing_safe   which agents run a command, and which refuse it; how often
                   a queue gets it; and that no request for results deletes it

What is relied on of the JSON libraries is `Setup.Reads`: the command and the
group of a message are read as they were written.  A payload is passed on as
it came, and what a reader makes of it does not matter here.
-/
import Yirang.Fleet.Requests

namespace Yirang.Fleet

open Fs Effect Agent

variable {S : Setup}

/-- In a message of the API's that the agents' library can read, it finds the
command and the group that the API has put there, whatever the payload. -/
def Setup.Reads (S : Setup) : Prop :=
  ∀ command group payload v,
    S.agentCodec.parse (Api.body S.api S.apiCodec command group payload) = .ok v →
    ∃ root, v = .object root ∧ Json.readString root "command" = some command ∧
      (Json.readString root "target_group").getD "" = group

/-! ## Reading a command -/

section Body

variable {command group reply : String} {payload : Json}

theorem agentMessage_nodup :
    ((Api.agentMessage command payload group reply).map Prod.fst).Nodup := by
  have hall : ["command", "payload", "target_group", "reply_queue_url"].Nodup := by decide
  refine hall.sublist ?_
  unfold Api.agentMessage
  by_cases hg : group = ""
  · by_cases hr : reply = ""
    · simp [hg, hr]
    · simp [hg, hr]
  · by_cases hr : reply = ""
    · simp [hg, hr]
    · simp [hg, hr]

theorem agentMessage_group :
    (Json.readString (Api.agentMessage command payload group reply) "target_group").getD "" =
      group := by
  unfold Api.agentMessage
  by_cases hg : group = ""
  · subst hg
    by_cases hr : reply = ""
    · rw [if_pos rfl, if_pos hr]
      rfl
    · rw [if_pos rfl, if_neg hr]
      rfl
  · rw [if_neg hg]
    rfl

/-- A text that may not be there. -/
theorem readText_getD {root : Json.Fields} {key s : String}
    (h : (Json.readString root key).getD "" = s) :
    (Json.readText root key).getD "" = Json.cString s := by
  rw [Json.readText]
  cases hs : Json.readString root key with
  | none =>
      rw [hs] at h
      exact h ▸ rfl
  | some s' =>
      rw [hs] at h
      exact h ▸ rfl

/-- A reader of the message itself, whatever it has made of the payload, finds
the command and the group. -/
theorem read_message {v : Json}
    (h : Json.same (.object (Api.agentMessage command payload group reply)) v = true) :
    ∃ root, v = .object root ∧ Json.readString root "command" = some command ∧
      (Json.readString root "target_group").getD "" = group := by
  obtain ⟨root, rfl, hlen, hsame⟩ := Json.same_object h
  have hread := Json.readString_of_sameFields hsame hlen agentMessage_nodup
  refine ⟨root, rfl, ?_, ?_⟩
  · rw [hread]
    rfl
  · rw [hread]
    exact agentMessage_group

/-- What an agent that can read a message reads in it. -/
theorem parse_body (hc : S.Reads) {message : AgentMessage}
    (h : parseAgentMessage S.agentCodec (Api.body S.api S.apiCodec command group payload) =
      .ok message) :
    message.command = Json.cString command ∧ message.targetGroup = Json.cString group := by
  unfold parseAgentMessage at h
  split at h
  · cases h
  · rename_i v hv
    obtain ⟨root, rfl, hcommand, hgroup⟩ := hc _ _ _ _ hv
    simp only [Json.object?, Json.readText, hcommand, Option.map_some] at h
    split at h
    · cases h
    · cases h
      exact ⟨rfl, readText_getD hgroup⟩

end Body

/-! ## Routing -/

/-- What the log says of a command that an agent took: it is in a queue of
its group, and an agent reads its group. -/
theorem Sound.command {s : State} (h : Sound S s) (hl : s.Logged S) {i n : Nat} {copy : Copy}
    {group : String} (ht : (i, copy) ∈ s.taken) (ho : copy.origin = .published n group) :
    (∃ queue ∈ S.api.deviceQueues, queue.url = S.queueUrl i ∧ (group = "" ∨ queue.group = group)) ∧
      S.Commands group copy.body := by
  obtain ⟨⟨queue, hq, hu⟩, hb⟩ := h.net.published _ _ _ _ (hl.taken i copy ht) ho
  obtain ⟨hm, hg⟩ := Api.Config.mem_of_mem_queuesForGroup hq
  exact ⟨⟨queue, hm, hu, hg⟩, hb⟩

/-- A registered group is read as it is. -/
theorem cString_group {group : String}
    (hnul : ∀ queue ∈ S.api.deviceQueues, '\x00' ∉ queue.group.toList)
    {queue : Api.DeviceQueue} (hq : queue ∈ S.api.deviceQueues)
    (hg : group = "" ∨ queue.group = group) : Json.cString group = group := by
  rcases hg with rfl | rfl
  · rfl
  · exact Json.cString_of_not_mem (hnul queue hq)

/-- A copy that a request published is not deleted by any request. -/
theorem Sound.spares {s : State} (hv : S.api.Valid) (h : Sound S s) {n m : Nat} {copy : Copy}
    {group : String} (hd : (n, copy) ∈ s.net.deleted) : copy.origin ≠ .published m group := by
  intro ho
  obtain ⟨-, hne, hl⟩ := h.net.deleted n copy hd
  obtain ⟨⟨queue, hq, hu⟩, -⟩ := h.net.published _ _ _ _ hl ho
  refine hv.result hne ?_
  rw [← hu]
  exact List.mem_map_of_mem (Api.Config.mem_of_mem_queuesForGroup hq).1

theorem Sound.once {s : State} (h : Sound S s) (n : Nat) (url : String) :
    s.net.copies n url ≤ 1 := by
  by_cases hn : n < s.requests.length
  · -- the request still has its thread, whether it has ended or not
    have hm : n ∈ s.requests.map fun t => t.owner.number := by
      rw [h.numbers]
      exact List.mem_range.mpr hn
    obtain ⟨t, ht, rfl⟩ := List.mem_map.mp hm
    obtain ⟨w, htr, -⟩ := h.watched t ht
    exact htr.once url
  · rw [h.net.later n url (Nat.le_of_not_lt hn)]
    exact Nat.zero_le 1

/-- In whatever order requests are served, copies are delivered and agents
live and die: a command for a group runs only on agents of the group; an
agent that is in the group of its queue refuses no command the API put
there; a request puts one copy at most in a queue; and what requests delete
was published by none. -/
theorem routing_safe (hv : S.api.validate = .ok ())
    (hnul : ∀ queue ∈ S.api.deviceQueues, '\x00' ∉ queue.group.toList) (hc : S.Reads)
    {s : State} (hr : Reachable S s) :
    (∀ i copy n group, (i, copy) ∈ s.taken → copy.origin = .published n group → group ≠ "" →
      (S.service i).reached copy.body ≠ none → (S.agents i).group = group) ∧
    (∀ i queue, queue ∈ S.api.deviceQueues → queue.url = S.queueUrl i →
      (S.agents i).group = queue.group → ∀ copy n group, (i, copy) ∈ s.taken →
        copy.origin = .published n group → ¬ (S.service i).Refuses copy.body) ∧
    (∀ n url, s.net.copies n url ≤ 1) ∧
    (∀ n copy, (n, copy) ∈ s.net.deleted → ∀ m group, copy.origin ≠ .published m group) := by
  have hvalid := Api.Config.valid_of_validate hv
  have h := hr.sound hvalid
  refine ⟨?_, ?_, h.once, fun n copy hd m group => h.spares hvalid hd⟩
  · intro i copy n group ht ho hne hreach
    obtain ⟨⟨queue, hq, -, hg⟩, _, _, hb⟩ := h.command hr.logged ht ho
    obtain ⟨⟨message, handler⟩, hsome⟩ := Option.ne_none_iff_exists'.mp hreach
    obtain ⟨hp, hrouted⟩ := reached_routed hsome
    rw [hb] at hp
    have hgroup : message.targetGroup = group :=
      (parse_body hc hp).2.trans (cString_group hnul hq hg)
    rcases hrouted with he | he
    · exact absurd (hgroup.symm.trans he) hne
    · exact (he.symm.trans hgroup)
  · rintro i queue hq hu hown copy n group ht ho ⟨message, hp, hne, hother⟩
    obtain ⟨⟨queue', hq', hu', hg⟩, _, _, hb⟩ := h.command hr.logged ht ho
    rw [hb] at hp
    have hgroup : message.targetGroup = group :=
      (parse_body hc hp).2.trans (cString_group hnul hq' hg)
    -- one queue is registered with this URL
    have hsame : queue' = queue := List.inj_on_of_nodup_map hvalid.urls hq' hq (hu'.trans hu.symm)
    rcases hg with he | he
    · exact hne (hgroup.trans he)
    · refine hother ?_
      show message.targetGroup = (S.agents i).group
      rw [hgroup, hown, ← hsame, he]

/-! ## A command that arrives -/

theorem Sample.reads : Sample.setup.Reads := by
  intro command group payload v h
  simp only [Sample.setup, Sample.library, Sample.codec, Api.body] at h
  split at h
  · rw [if_pos rfl] at h
    cases h
    exact read_message ‹_›
  · rw [if_neg (by decide)] at h
    cases h

/-- The restart of the small fleet's service. -/
def Sample.restart : Serving := ⟨0, .command ⟨"restart_service", "east", none⟩⟩

/-- An agent of the group takes the command that was published to it. -/
theorem Sample.restarted : ∃ s copy, Reachable Sample.setup s ∧ (0, copy) ∈ s.taken ∧
    copy.origin = .published 0 "east" ∧ copy.body = "restart" := by
  have h₁ := Reachable.step (.start fun _ => Agent.Sample.host)
    (.request (S := Sample.setup) Sample.restart.request)
  have hserve := exec_freely (answer Sample.restart)
    (Api.serve Sample.api Sample.library Sample.restart.request).run [{}, {}, {}] () {} rfl
  have h₂ := h₁.served [] [] rfl hserve
  have hboot := exec_freely Agent.answer (Sample.setup.service 0).service.boot []
    (Sample.setup.service 0).service.fresh Agent.Sample.host rfl
  have h₃ := h₂.step (.boot 0 [] rfl ⟨hboot, rfl⟩)
  have hhandle := exec_freely Agent.answer ((Sample.setup.service 0).service.serve "restart") [{}]
    {} Agent.Sample.host rfl
  have h₄ := h₃.step (.handle 0 ⟨0, "restart", Sample.restart.origin⟩ [("results", "")] rfl
    (by decide +kernel) ⟨hhandle, by decide +kernel⟩)
  exact ⟨_, _, h₄, List.mem_cons_self, rfl, rfl⟩

/-- The command of the small fleet runs where it should. -/
theorem routing_safe_restart : ∃ s copy, Reachable Sample.setup s ∧ (0, copy) ∈ s.taken ∧
    (Sample.setup.service 0).reached copy.body ≠ none ∧ (Sample.setup.agents 0).group = "east" ∧
    s.net.copies 0 "commands" ≤ 1 := by
  obtain ⟨s, copy, hr, ht, ho, hb⟩ := Sample.restarted
  have hreach : (Sample.setup.service 0).reached copy.body ≠ none := by
    rw [hb]
    exact fun h => by cases h
  obtain ⟨hruns, -, honce, -⟩ :=
    routing_safe rfl (by decide) Sample.reads hr
  exact ⟨s, copy, hr, ht, hreach, hruns 0 copy 0 "east" ht ho (by decide) hreach,
    honce 0 "commands"⟩

end Yirang.Fleet
