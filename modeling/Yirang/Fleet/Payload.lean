/-
# `Yirang.Fleet.Payload` — one payload, two readers

The API looks at the payload of a command and passes it on as it was written,
member by member.  It finds a field under its name in any mix of cases, takes
the last that is there, and passes over a `null`.  An agent looks under the
very name, and its library has kept the last member of that name.

    kept           an object as the agents' library keeps it
    last, given    what an agent finds under a name, and what the API finds
    command_uses   what the API sends was checked, and is what came
    heard_iff      when an agent reads what the API has checked
-/
import Yirang.Fleet.Deployment

namespace Yirang

open Fs Effect

/-! ## Members of one name -/

namespace Json

mutual

/-- A text, read by a library that keeps the last of several members of one
name. -/
def kept : Json → Json
  | .array items => .array (keptItems items)
  | .object fields => .object (keptFields fields)
  | v => v

def keptItems : List Json → List Json
  | [] => []
  | v :: rest => kept v :: keptItems rest

def keptFields : List (String × Json) → List (String × Json)
  | [] => []
  | (key, value) :: rest =>
      if (rest.lookup key).isSome then keptFields rest else (key, kept value) :: keptFields rest

end

def isNull : Json → Bool
  | .null => true
  | _ => false

/-- The last member of this very name. -/
def last (fields : Fields) (name : String) : Option Json := fields.reverse.lookup name

theorem last_cons (key name : String) (value : Json) (rest : Fields) :
    last ((key, value) :: rest) name =
      (last rest name).or (if name = key then some value else none) := by
  rw [last, last, List.reverse_cons, List.lookup_append, List.lookup_cons]
  by_cases h : name = key
  · rw [if_pos h, h, beq_self_eq_true]
  · rw [if_neg h, beq_false_of_ne h]
    rfl

theorem isSome_last {fields : Fields} {name : String} :
    (last fields name).isSome = (fields.lookup name).isSome := by
  induction fields with
  | nil => rfl
  | cons f rest ih =>
      obtain ⟨key, value⟩ := f
      rw [last_cons, List.lookup_cons, Option.isSome_or, ih]
      by_cases h : name = key
      · simp [h]
      · rw [if_neg h, beq_false_of_ne h, Option.isSome_none, Bool.or_false]

/-- Under a name that was kept stands the last member. -/
theorem lookup_keptFields {fields : Fields} {name : String} :
    (keptFields fields).lookup name = (last fields name).map kept := by
  induction fields with
  | nil => rfl
  | cons f rest ih =>
      obtain ⟨key, value⟩ := f
      rw [last_cons, keptFields]
      by_cases h : name = key
      · subst h
        cases hl : last rest name with
        | none =>
            have hnone : (rest.lookup name).isSome = false := by rw [← isSome_last, hl]; rfl
            rw [if_pos rfl, hnone, if_neg Bool.false_ne_true, List.lookup_cons_self]
            rfl
        | some v =>
            have hsome : (rest.lookup name).isSome = true := by rw [← isSome_last, hl]; rfl
            rw [if_pos hsome, ih, hl]
            rfl
      · rw [if_neg h, Option.or_none]
        split
        · exact ih
        · rw [List.lookup_cons, beq_false_of_ne h]
          exact ih

theorem mem_keptFields {fields : Fields} {name : String}
    (h : name ∈ (keptFields fields).map Prod.fst) : (fields.lookup name).isSome := by
  induction fields with
  | nil => cases h
  | cons f rest ih =>
      obtain ⟨key, value⟩ := f
      rw [List.lookup_cons]
      rw [keptFields] at h
      split at h
      · split
        · rfl
        · exact ih h
      · rcases List.mem_cons.mp h with rfl | h
        · rw [beq_self_eq_true]
          rfl
        · split
          · rfl
          · exact ih h

theorem keptFields_nodup (fields : Fields) : ((keptFields fields).map Prod.fst).Nodup := by
  induction fields with
  | nil => exact List.nodup_nil
  | cons f rest ih =>
      obtain ⟨key, value⟩ := f
      rw [keptFields]
      split
      · exact ih
      · rename_i hnew
        exact List.nodup_cons.mpr ⟨fun hm => hnew (mem_keptFields hm), ih⟩

/-- Objects of which each name is that of one member. -/
theorem keptFields_of_nodup {fields : Fields} (h : (fields.map Prod.fst).Nodup) :
    keptFields fields = fields.map fun f => (f.1, kept f.2) := by
  induction fields with
  | nil => rfl
  | cons f rest ih =>
      obtain ⟨key, value⟩ := f
      rw [List.map_cons, List.nodup_cons] at h
      have hnone : rest.lookup key = none := by
        rw [List.lookup_eq_none_iff]
        intro e he
        exact bne_iff_ne.mpr fun hk => h.1 (List.mem_map.mpr ⟨e, he, hk.symm⟩)
      rw [keptFields, hnone, if_neg (by decide), ih h.2, List.map_cons]

/-- An array, an object or a string is like its own kind only. -/
theorem object?_of_same {v v' : Json} (h : same v v' = true) :
    (object? v').isSome = (object? v).isSome := by
  cases v with
  | object a =>
      obtain ⟨b, rfl, -⟩ := same_object h
      rfl
  | _ => cases v' <;> first | rfl | simp [same] at h

end Json

/-- The reader makes of the text of a value that value, each member the last of
its name. -/
def Codec.KeepsLast (reader writer : Codec) (v : Json) : Prop :=
  ∃ v', reader.parse (writer.serialize v) = .ok v' ∧ Json.same v.kept v' = true

namespace Fleet

open Json (last)

/-! ## What an agent finds -/

theorem kept_agentMessage (command group reply : String) (payload : Json) :
    (Json.object (Api.agentMessage command payload group reply)).kept =
      .object (Api.agentMessage command payload.kept group reply) := by
  rw [Json.kept, Json.keptFields_of_nodup agentMessage_nodup]
  unfold Api.agentMessage
  by_cases hg : group = ""
  · by_cases hr : reply = ""
    · rw [if_pos hg, if_pos hr]
      rfl
    · rw [if_pos hg, if_neg hr]
      rfl
  · by_cases hr : reply = ""
    · rw [if_neg hg, if_pos hr]
      rfl
    · rw [if_neg hg, if_neg hr]
      rfl

/-- A library that keeps the last of several members finds the command and the
group of every message: the API writes each name once. -/
theorem reads_of_keepsLast {S : Setup} (h : ∀ command group payload,
    S.agentCodec.KeepsLast S.apiCodec
      (.object (Api.agentMessage command payload group S.api.resultQueueUrl))) : S.Reads := by
  intro command group payload v hv
  obtain ⟨v', hv', hsame⟩ := h command group payload
  cases hv.symm.trans hv'
  rw [kept_agentMessage] at hsame
  exact read_message hsame

/-- What an agent reads of a text of the object: of several members of one
name the last. -/
structure Finds (fields object : Json.Fields) : Prop where
  text : ∀ key, Json.readText object key =
    ((last fields key).bind Json.string?).map Json.cString
  object : ∀ key, (Json.readObject object key).isSome =
    ((last fields key).bind Json.object?).isSome

theorem finds_kept (fields : Json.Fields) : Finds fields (Json.keptFields fields) := by
  constructor
  · intro key
    rw [Json.readText, Json.readString, Json.lookup_keptFields]
    cases last fields key with
    | none => rfl
    | some v => cases v <;> rfl
  · intro key
    rw [Json.readObject, Json.lookup_keptFields]
    cases last fields key with
    | none => rfl
    | some v => cases v <;> rfl

theorem Finds.again {fields a b : Json.Fields} (h : Finds fields a)
    (hsame : Json.sameFields a b = true) (hlen : a.length = b.length)
    (hnd : (a.map Prod.fst).Nodup) : Finds fields b := by
  constructor
  · intro key
    rw [← h.text key, Json.readText, Json.readText,
      Json.readString_of_sameFields hsame hlen hnd]
  · intro key
    rw [← h.object key, Json.readObject, Json.readObject]
    cases hl : a.lookup key with
    | none => rw [Json.lookup_none_of_sameFields hsame hlen hnd hl]
    | some v =>
        obtain ⟨v', hv', hs⟩ := Json.lookup_of_sameFields hsame hl
        rw [hv', Option.bind_some, Option.bind_some, Json.object?_of_same hs]

/-- An agent that gets the command gets at the members of its payload. -/
theorem agent_finds {library api : Codec} {cfg : Api.Config} {command group text : String}
    {fields : Json.Fields} (ht : text = Api.body cfg api command group (.object fields))
    (hne : Json.cString command ≠ "")
    (hread : library.KeepsLast api
      (.object (Api.agentMessage command (.object fields) group cfg.resultQueueUrl)))
    (hpayload : ∀ message, Agent.parseAgentMessage library text = .ok message →
      library.Understands library message.payload) :
    ∃ message object, Agent.parseAgentMessage library text = .ok message ∧
      message.command = Json.cString command ∧
      Agent.parseObject library message.payload = .ok object ∧ Finds fields object := by
  obtain ⟨v, hv, hsame⟩ := hread
  rw [kept_agentMessage] at hsame
  replace hv : library.parse text = .ok v := ht ▸ hv
  obtain ⟨message, p, hparse, hname, -, hp, htext⟩ := Agent.reads_envelope hv hsame hne
  obtain ⟨a, rfl, hlen, ha⟩ := Json.same_object hp
  obtain ⟨v', hv', hs⟩ := hpayload message hparse _ htext.symm
  obtain ⟨b, rfl, hlen', hb⟩ := Json.same_object hs
  have hnd := Json.keptFields_nodup fields
  have hnd' := (Json.keys_perm_of_sameFields ha hlen hnd).nodup_iff.mp hnd
  have hfinds := ((finds_kept fields).again ha hlen hnd).again hb hlen' hnd'
  refine ⟨message, b, hparse, hname, ?_, hfinds⟩
  unfold Agent.parseObject
  rw [hv']
  rfl

/-! ## What the API finds -/

/-- The last member of this name, in any mix of cases, that is not `null`. -/
def given (fields : Json.Fields) (name : String) : Option Json :=
  ((Api.Go.under fields name).filter fun v => !v.isNull).getLast?

theorem given_of_field {fields : Json.Fields} {name s : String}
    (h : Api.Go.field Api.Go.string "" fields name = some s) (hne : s ≠ "") :
    given fields name = some (.string s) := by
  have hfold : ∀ {vs : List Json} {zero : String}, vs.foldlM Api.Go.string zero = some s →
      (vs.filter fun v => !v.isNull).getLast? = some (.string s) ∨
        ((vs.filter fun v => !v.isNull) = [] ∧ s = zero) := by
    intro vs
    induction vs with
    | nil =>
        intro zero h
        cases h
        exact Or.inr ⟨rfl, rfl⟩
    | cons v rest ih =>
        intro zero h
        rw [List.foldlM_cons] at h
        cases v with
        | null => exact ih h
        | string s' =>
            rcases ih h with hlast | ⟨hnil, rfl⟩
            · refine Or.inl ?_
              rw [List.filter_cons_of_pos rfl, List.getLast?_cons, hlast]
              rfl
            · refine Or.inl ?_
              rw [List.filter_cons_of_pos rfl, hnil]
              rfl
        | _ => cases h
  rcases hfold h with hlast | ⟨-, hs⟩
  · exact hlast
  · exact absurd hs hne

/-! ## What is sent -/

/-- The texts that a request sends: of a payload that was checked. -/
def Sends (cfg : Api.Config) (api : Codec) (request : Api.CommandRequest) (o : Api.Op) : Prop :=
  ∀ url text, o = .send url text → ∃ payload,
    Api.commandPayload request.command (request.payload.getD (.object [])) = .ok payload ∧
      text = Api.body cfg api request.command request.group payload

theorem sends_uses {S : Api.Op → Prop} {body : String} (hS : ∀ url, S (.send url body)) :
    ∀ {targets : List Api.DeviceQueue} {order : List Nat} {deliveries : List Api.Delivery},
      Uses S (Api.sends body targets order deliveries).run
  | _, [], _ => trivial
  | targets, index :: rest, deliveries => by
      rw [Api.sends]
      cases targets[index]? with
      | none => exact sends_uses hS
      | some target => exact Uses.seq (Uses.ask (hS target.url)) fun _ => sends_uses hS

/-- Every text that a request sends is of its payload, which was checked. -/
theorem command_uses (cfg : Api.Config) (api : Codec) (request : Api.CommandRequest) :
    Uses (Sends cfg api request) (Api.command cfg api request).run := by
  refine Uses.seq Uses.require fun _ => Uses.seq_conclude fun payload hp => ?_
  have hsend : ∀ url, Sends cfg api request
      (.send url (Api.body cfg api request.command request.group payload)) := by
    rintro url url' text ho
    cases ho
    exact ⟨payload, hp, rfl⟩
  have hother : Sends cfg api request
      (.interleaving (cfg.queuesForGroup request.group).length) := by
    rintro url text ho
    cases ho
  exact Uses.seq Uses.require fun _ => Uses.seq (Uses.ask hother) fun _ =>
    Uses.seq (sends_uses hsend) fun _ => Uses.seq Uses.require fun _ => trivial

/-! ## The two together -/

/-- The field that says what a command is about. -/
def subject (command : String) : String :=
  if command = "update_configuration" then "path" else "release_id"

/-- What the API has read there, and checked. -/
def checked (command : String) (payload : Json) : Option String :=
  if command = "update_configuration" then (Api.decodeConfiguration payload).map Prod.fst
  else Api.decodeVersion payload

/-- The payload passes the checks of an agent for fields and their kinds, and
the agent reads what the API has checked. -/
def Heard (library : Codec) (command : String) (payload : Json) (text : String) : Prop :=
  ∃ object, Agent.parseObject library text = .ok object ∧
    (∃ s, Agent.readString object (subject command) = .ok s ∧ checked command payload = some s) ∧
    (command = "update_configuration" → (Json.readObject object "values").isSome = true)

/-- The last member of the very name of the field is a text, and what stands
before its first NUL is in the last member of the name, in any mix of cases,
that is not `null`; and the last member of the very name `values`, where it is
asked for, is an object. -/
def Plain (command : String) (fields : Json.Fields) : Prop :=
  (∃ s, last fields (subject command) = some (.string s) ∧
    given fields (subject command) = some (.string (Json.cString s))) ∧
  (command = "update_configuration" → ∃ values, last fields "values" = some (.object values))

/-- The commands whose payload is passed on as it came. -/
def verbatim : List String := ["apply_version", "rollback_version", "update_configuration"]

/-- A payload of a version that was checked. -/
theorem given_version {payload : Json} {s : String} (h : Api.decodeVersion payload = some s)
    (hne : s ≠ "") :
    ∃ fields, payload = .object fields ∧ given fields "release_id" = some (.string s) := by
  cases payload with
  | object fields => exact ⟨fields, rfl, given_of_field h hne⟩
  | null =>
      cases h
      exact absurd rfl hne
  | _ => cases h

theorem given_configuration {payload : Json} {s : String} {values : Option Json}
    (h : Api.decodeConfiguration payload = some (s, values)) (hne : s ≠ "") :
    ∃ fields, payload = .object fields ∧ given fields "path" = some (.string s) := by
  cases payload with
  | object fields =>
      refine ⟨fields, rfl, given_of_field ?_ hne⟩
      obtain ⟨path, hpath, h⟩ := Option.bind_eq_some_iff.mp h
      cases h
      exact hpath
  | null =>
      cases h
      exact absurd rfl hne
  | _ => cases h

theorem ne_empty_of_validated {s : String} (h : Api.validateConfigurationPath s = .ok ()) :
    s ≠ "" := by
  rintro rfl
  cases h

theorem published_version {command : String} {payload sent : Json}
    (hc : command = "apply_version" ∨ command = "rollback_version")
    (h : Api.commandPayload command payload = .ok sent) :
    sent = payload ∧ ∃ s, Api.decodeVersion payload = some s ∧ s ≠ "" := by
  have hdownload : command ≠ "download_version" := by
    rcases hc with rfl | rfl
    · decide
    · decide
  have hversion : (command = "apply_version" || command = "rollback_version") = true := by
    rcases hc with rfl | rfl
    · rfl
    · rfl
  unfold Api.commandPayload at h
  rw [if_neg hdownload, if_pos hversion] at h
  cases hd : Api.decodeVersion payload with
  | none =>
      rw [hd] at h
      cases h
  | some s =>
      rw [hd] at h
      dsimp only at h
      split at h
      · cases h
      · rename_i hne
        cases h
        exact ⟨rfl, s, rfl, hne⟩

theorem published_configuration {payload sent : Json}
    (h : Api.commandPayload "update_configuration" payload = .ok sent) :
    sent = payload ∧ ∃ s values, Api.decodeConfiguration payload = some (s, values) ∧ s ≠ "" := by
  unfold Api.commandPayload at h
  rw [if_neg (by decide), if_neg (by decide), if_pos rfl] at h
  cases hd : Api.decodeConfiguration payload with
  | none =>
      rw [hd] at h
      cases h
  | some found =>
      obtain ⟨s, values⟩ := found
      rw [hd] at h
      obtain ⟨u, hvalid, h⟩ := bind_eq_ok.mp h
      refine ⟨?_, s, values, rfl, ne_empty_of_validated hvalid⟩
      split at h
      · cases h
        rfl
      · cases h

/-- What passed the checks of the API is an object, and comes as it is; what
it is about was read from its last member that is not `null`. -/
theorem published_payload {command : String} {payload sent : Json} (hc : command ∈ verbatim)
    (h : Api.commandPayload command payload = .ok sent) :
    sent = payload ∧ ∃ fields s, payload = .object fields ∧ checked command payload = some s ∧
      given fields (subject command) = some (.string s) := by
  by_cases hu : command = "update_configuration"
  · subst hu
    obtain ⟨hsent, s, values, hd, hne⟩ := published_configuration h
    obtain ⟨fields, hfields, hgiven⟩ := given_configuration hd hne
    refine ⟨hsent, fields, s, hfields, ?_, hgiven⟩
    rw [checked, if_pos rfl, hd]
    rfl
  · have hversion : command = "apply_version" ∨ command = "rollback_version" := by
      simpa [verbatim, hu] using hc
    obtain ⟨hsent, s, hd, hne⟩ := published_version hversion h
    obtain ⟨fields, hfields, hgiven⟩ := given_version hd hne
    refine ⟨hsent, fields, s, hfields, ?_, ?_⟩
    · rw [checked, if_neg hu, hd]
    · rw [subject, if_neg hu, hgiven]

theorem heard_of_finds {library : Codec} {command text : String} {fields object : Json.Fields}
    {s : String} (hparse : Agent.parseObject library text = .ok object)
    (hfinds : Finds fields object) (hs : checked command (.object fields) = some s)
    (hgiven : given fields (subject command) = some (.string s)) :
    Heard library command (.object fields) text ↔ Plain command fields := by
  have htext : ∀ s', Agent.readString object (subject command) = .ok s' ↔
      ∃ raw, last fields (subject command) = some (.string raw) ∧ Json.cString raw = s' := by
    intro s'
    rw [Agent.readString, hfinds.text]
    cases last fields (subject command) with
    | none => simp
    | some v => cases v <;> simp [Json.string?]
  have hvalues : (Json.readObject object "values").isSome = true ↔
      ∃ values, last fields "values" = some (.object values) := by
    rw [hfinds.object]
    cases last fields "values" with
    | none => simp
    | some v => cases v <;> simp [Json.object?]
  unfold Heard Plain
  rw [hs, hgiven]
  constructor
  · rintro ⟨object', hobject, ⟨s', hread, hsame⟩, hv⟩
    cases hparse.symm.trans hobject
    cases hsame
    obtain ⟨raw, hraw, rfl⟩ := (htext _).mp hread
    exact ⟨⟨raw, hraw, rfl⟩, fun hc => hvalues.mp (hv hc)⟩
  · rintro ⟨⟨raw, hraw, hsame⟩, hv⟩
    cases hsame
    exact ⟨object, hparse, ⟨_, (htext _).mpr ⟨raw, hraw, rfl⟩, rfl⟩, fun hc => hvalues.mpr (hv hc)⟩

theorem verbatim_text {command : String} (h : command ∈ verbatim) :
    Json.cString command = command ∧ command ≠ "" := by
  cases h with
  | head => exact ⟨rfl, by decide⟩
  | tail _ h =>
      cases h with
      | head => exact ⟨rfl, by decide⟩
      | tail _ h =>
          cases h with
          | head => exact ⟨rfl, by decide⟩
          | tail _ h => cases h

/-- Of every text that the API sends for one of these commands: an agent
gets the command, and reads what the API has checked, exactly if the payload
is plain. -/
theorem heard_iff {W C : Type} {ans : Answers cloud W C} {A : W → Api.Op → C → Prop} {w w' : W}
    {cfg : Api.Config} {api library : Codec} {request : Api.CommandRequest} {url text : String}
    (hc : request.command ∈ verbatim)
    (he : Exec ans A (Api.command cfg api request).run () w (.before () (.send url text)) w')
    (hread : library.KeepsLast api (.object (Api.agentMessage request.command
      (request.payload.getD (.object [])) request.group cfg.resultQueueUrl)))
    (hpayload : ∀ message, Agent.parseAgentMessage library text = .ok message →
      library.Understands library message.payload) :
    ∃ message fields, Agent.parseAgentMessage library text = .ok message ∧
      message.command = request.command ∧ request.payload = some (.object fields) ∧
      (Heard library request.command (.object fields) message.payload ↔
        Plain request.command fields) := by
  have hsends : Sends cfg api request (.send url text) := by
    have hwp : wp ans A (fun _ _ o => Sends cfg api request o) (Api.command cfg api request).run
        (fun _ _ _ => True) () w :=
      wp_of_uses (R := fun _ => True) (fun _ _ _ _ _ _ => trivial) (fun _ _ _ ho _ => ho)
        (command_uses cfg api request) trivial
    exact wp_before he hwp
  obtain ⟨sent, hsent, ht⟩ := hsends url _ rfl
  obtain ⟨hsame, fields, s, hfields, hchecked, hgiven⟩ := published_payload hc hsent
  rw [hsame, hfields] at ht
  rw [hfields] at hread
  obtain ⟨hname, hne⟩ := verbatim_text hc
  obtain ⟨message, object, hparse, hcommand, hobject, hfinds⟩ :=
    agent_finds ht (hname.symm ▸ hne) hread hpayload
  refine ⟨message, fields, hparse, hcommand.trans hname, ?_, ?_⟩
  · cases hp : request.payload with
    | none =>
        -- a payload that is left out has no members
        rw [hp] at hfields
        cases hfields
        cases hgiven
    | some v =>
        rw [hp] at hfields
        exact congrArg some hfields
  · rw [hfields] at hchecked
    exact heard_of_finds hobject hfinds hchecked hgiven

namespace Sample

/-- A payload, the command that it is sent in, and a library that knows their
texts. -/
def sending (fields : Json.Fields) : Codec :=
  dictionary
    [("command", .object (Api.agentMessage "apply_version" (.object fields) "east" "results")),
      ("payload", .object fields)]

def applying (fields : Json.Fields) : Api.CommandRequest :=
  ⟨"apply_version", "east", some (.object fields)⟩

def lower : Json.Fields := [("release_id", .string "rel_1")]

def upper : Json.Fields := [("RELEASE_ID", .string "rel_1")]

/-- The text that is sent. -/
def sent (fields : Json.Fields) : Outcome cloud Unit (Except Api.ApiError Api.PublishResult) :=
  ((Api.command api (sending fields) (applying fields)).run.run
    (answer ⟨0, .command (applying fields)⟩) [{}] () {}).1

theorem sends (fields : Json.Fields) (h : sent fields = .before () (.send "commands" "command")) :
    ∃ net, Exec (answer ⟨0, .command (applying fields)⟩) (fun _ _ _ => True)
      (Api.command api (sending fields) (applying fields)).run () {}
      (.before () (.send "commands" "command")) net :=
  ⟨_, exec_freely _ _ _ _ _ h⟩

end Sample

/-- A release that is named as the agents name it. -/
theorem heard_iff_lower : ∃ message,
    Agent.parseAgentMessage (Sample.sending Sample.lower) "command" = .ok message ∧
    Heard (Sample.sending Sample.lower) "apply_version" (.object Sample.lower) message.payload := by
  obtain ⟨net, hexec⟩ := Sample.sends Sample.lower rfl
  have hmessage : Agent.parseAgentMessage (Sample.sending Sample.lower) "command" =
    .ok ⟨"apply_version", "payload", "east", "results"⟩ := rfl
  have hpayload : ∀ message,
      Agent.parseAgentMessage (Sample.sending Sample.lower) "command" = .ok message →
      (Sample.sending Sample.lower).Understands (Sample.sending Sample.lower)
        message.payload := by
    intro message hm
    cases hmessage.symm.trans hm
    exact Sample.dictionary_understands (by decide) (by decide)
  obtain ⟨message, fields, hparse, -, hfields, hheard⟩ :=
    heard_iff (by decide) hexec ⟨_, rfl, rfl⟩ hpayload
  cases hfields
  exact ⟨message, hparse, hheard.mpr ⟨⟨"rel_1", rfl, rfl⟩, fun h => absurd h (by decide)⟩⟩

/-- A release that is named in upper case passes the checks of the API, and is
refused by every agent. -/
theorem upper_is_not_heard : ∃ net message,
    Exec (answer ⟨0, .command (Sample.applying Sample.upper)⟩) (fun _ _ _ => True)
      (Api.command Sample.api (Sample.sending Sample.upper) (Sample.applying Sample.upper)).run
      () {} (.before () (.send "commands" "command")) net ∧
    Agent.parseAgentMessage (Sample.sending Sample.upper) "command" = .ok message ∧
    ¬ Heard (Sample.sending Sample.upper) "apply_version" (.object Sample.upper)
      message.payload := by
  obtain ⟨net, hexec⟩ := Sample.sends Sample.upper rfl
  refine ⟨net, ⟨"apply_version", "payload", "east", "results"⟩, hexec, rfl, ?_⟩
  rintro ⟨object, hobject, ⟨s, hread, -⟩, -⟩
  cases hobject
  cases hread

end Fleet

end Yirang
