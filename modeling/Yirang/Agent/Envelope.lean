/-
# `Yirang.Agent.Envelope` — envelopes as texts

The payload of a command is a text.  In an envelope it stands as the value
that the text parses to, or, where it does not parse, as a string; the reader
takes a string as it is and writes any other value out.  So a payload that is
the text of a string comes back without its quotes.  Every other payload comes
back as a text of the same value, and from then on as the same text.

    serializeAgentMessage   an envelope as a text
    Carried                 the payloads that come back
    round_trip              what comes back, the first time and from then on
-/
import Yirang.Agent.Message

namespace Yirang

/-- The library reads this value as it was before it was written. -/
def Codec.Restores (codec : Codec) (v : Json) : Prop := codec.parse (codec.serialize v) = .ok v

namespace Agent

/-! ## Writing -/

/-- The payload as it stands in the envelope. -/
def payloadValue (codec : Codec) (payload : String) : Json :=
  match codec.parse payload with
  | .ok v => v
  | .error _ => .string payload

/-- A member that is left out if it is empty. -/
def optionalText (key value : String) : Json.Fields :=
  if value ≠ "" then [(key, .string value)] else []

def envelope (codec : Codec) (message : AgentMessage) : Json.Fields :=
  [("command", .string message.command), ("payload", payloadValue codec message.payload)] ++
    optionalText "target_group" message.targetGroup ++
    optionalText "reply_queue_url" message.replyQueueUrl

def serializeAgentMessage (codec : Codec) (message : AgentMessage) : String :=
  codec.serialize (.object (envelope codec message))

/-! ## Members that were left out -/

section Members

variable {codec : Codec} {message : AgentMessage}

/-- What is read of a member that may have been left out. -/
theorem readText_optionalText {key value : String} (h : '\x00' ∉ value.toList) :
    (Json.readText (optionalText key value) key).getD "" = value := by
  unfold optionalText
  split
  · simp [Json.readText, Json.readString, Json.string?, Json.cString_of_not_mem h]
  · rename_i he
    rw [not_not.mp he]
    rfl

theorem lookup_optionalText {key key' value : String} (h : key ≠ key') :
    (optionalText key' value).lookup key = none := by
  unfold optionalText
  split
  · rw [List.lookup_cons, beq_false_of_ne h]
    rfl
  · rfl

theorem envelope_command (h : '\x00' ∉ message.command.toList) :
    Json.readText (envelope codec message) "command" = some message.command := by
  show some (Json.cString message.command) = _
  rw [Json.cString_of_not_mem h]

theorem envelope_payload :
    (envelope codec message).lookup "payload" = some (payloadValue codec message.payload) := rfl

/-- A member that comes after the first two. -/
theorem lookup_envelope {key : String} (hc : key ≠ "command") (hp : key ≠ "payload") :
    (envelope codec message).lookup key =
      ((optionalText "target_group" message.targetGroup).lookup key).or
        ((optionalText "reply_queue_url" message.replyQueueUrl).lookup key) := by
  rw [envelope, List.append_assoc, List.lookup_append, List.lookup_append]
  have hfirst : [("command", Json.string message.command),
      ("payload", payloadValue codec message.payload)].lookup key = none := by
    rw [List.lookup_cons, beq_false_of_ne hc, List.lookup_cons, beq_false_of_ne hp]
    rfl
  rw [hfirst, Option.none_or]

theorem envelope_group (h : '\x00' ∉ message.targetGroup.toList) :
    (Json.readText (envelope codec message) "target_group").getD "" = message.targetGroup := by
  have hsame : Json.readText (envelope codec message) "target_group" =
      Json.readText (optionalText "target_group" message.targetGroup) "target_group" := by
    have hother : (optionalText "reply_queue_url" message.replyQueueUrl).lookup "target_group" =
      none := lookup_optionalText (by decide)
    rw [Json.readText, Json.readText, Json.readString, Json.readString,
      lookup_envelope (by decide) (by decide), hother, Option.or_none]
  rw [hsame, readText_optionalText h]

theorem envelope_reply (h : '\x00' ∉ message.replyQueueUrl.toList) :
    (Json.readText (envelope codec message) "reply_queue_url").getD "" =
      message.replyQueueUrl := by
  have hsame : Json.readText (envelope codec message) "reply_queue_url" =
      Json.readText (optionalText "reply_queue_url" message.replyQueueUrl) "reply_queue_url" := by
    have hother : (optionalText "target_group" message.targetGroup).lookup "reply_queue_url" =
      none := lookup_optionalText (by decide)
    rw [Json.readText, Json.readText, Json.readString, Json.readString,
      lookup_envelope (by decide) (by decide), hother, Option.none_or]
  rw [hsame, readText_optionalText h]

end Members

/-! ## Round trips -/

/-- An envelope whose texts are read whole, and whose payload is not the text
of a string. -/
structure Carried (codec : Codec) (message : AgentMessage) : Prop where
  named : message.command ≠ ""
  command : '\x00' ∉ message.command.toList
  targetGroup : '\x00' ∉ message.targetGroup.toList
  replyQueueUrl : '\x00' ∉ message.replyQueueUrl.toList
  /-- A payload that is no JSON is read whole as well. -/
  payload : ∀ what, codec.parse message.payload = .error what → '\x00' ∉ message.payload.toList
  unquoted : ∀ s, codec.parse message.payload ≠ .ok (.string s)

/-- What comes back of a payload: a text of its value, or the text itself if
it has none. -/
def carriedPayload (codec : Codec) (payload : String) : String :=
  match codec.parse payload with
  | .ok v => codec.serialize v
  | .error _ => payload

section RoundTrip

variable {codec : Codec} {message : AgentMessage}

theorem payloadText_carried (h : Carried codec message) :
    payloadText codec (some (payloadValue codec message.payload)) =
      carriedPayload codec message.payload := by
  unfold payloadValue carriedPayload
  cases hp : codec.parse message.payload with
  | error what => exact Json.cString_of_not_mem (h.payload what hp)
  | ok v =>
      cases v with
      | string s => exact absurd hp (h.unquoted s)
      | _ => rfl

/-- An envelope comes back, its payload as a text of the same value. -/
theorem parse_serialize_message (h : Carried codec message)
    (hread : codec.Restores (.object (envelope codec message))) :
    parseAgentMessage codec (serializeAgentMessage codec message) =
      .ok { message with payload := carriedPayload codec message.payload } := by
  unfold parseAgentMessage serializeAgentMessage
  rw [hread]
  simp only [Json.object?, envelope_command h.command, if_neg h.named, envelope_payload,
    payloadText_carried h, envelope_group h.targetGroup, envelope_reply h.replyQueueUrl]

/-- A payload that came back stands for the same value, and is as it came. -/
theorem parse_carriedPayload
    (hvalue : ∀ v, codec.parse message.payload = .ok v → codec.Restores v) :
    codec.parse (carriedPayload codec message.payload) = codec.parse message.payload := by
  unfold carriedPayload
  cases hp : codec.parse message.payload with
  | error what => exact hp
  | ok v => exact hvalue v hp

theorem carriedPayload_again
    (hvalue : ∀ v, codec.parse message.payload = .ok v → codec.Restores v) :
    carriedPayload codec (carriedPayload codec message.payload) =
      carriedPayload codec message.payload := by
  conv_lhs => rw [carriedPayload, parse_carriedPayload hvalue]
  unfold carriedPayload
  cases codec.parse message.payload with
  | error what => rfl
  | ok v => rfl

/-- The envelope of what came back is the same. -/
theorem envelope_carried (hvalue : ∀ v, codec.parse message.payload = .ok v → codec.Restores v) :
    envelope codec { message with payload := carriedPayload codec message.payload } =
      envelope codec message := by
  have hsame : payloadValue codec (carriedPayload codec message.payload) =
      payloadValue codec message.payload := by
    unfold payloadValue
    rw [parse_carriedPayload hvalue]
    cases hp : codec.parse message.payload with
    | error what => rw [carriedPayload, hp]
    | ok v => rfl
  simp only [envelope, hsame]

theorem Carried.again (h : Carried codec message)
    (hvalue : ∀ v, codec.parse message.payload = .ok v → codec.Restores v) :
    Carried codec { message with payload := carriedPayload codec message.payload } := by
  refine ⟨h.named, h.command, h.targetGroup, h.replyQueueUrl, fun what hwhat => ?_, fun s => ?_⟩
  · have hp := (parse_carriedPayload hvalue).symm.trans hwhat
    show '\x00' ∉ (carriedPayload codec message.payload).toList
    rw [carriedPayload, hp]
    exact h.payload what hp
  · show codec.parse (carriedPayload codec message.payload) ≠ _
    rw [parse_carriedPayload hvalue]
    exact h.unquoted s

/-- An envelope comes back with the same names, and a payload that stands for
the same value or, if it is no JSON, is the same text; and what came back
comes back as it is. -/
theorem round_trip (h : Carried codec message)
    (hread : codec.Restores (.object (envelope codec message)))
    (hvalue : ∀ v, codec.parse message.payload = .ok v → codec.Restores v) :
    ∃ restored, parseAgentMessage codec (serializeAgentMessage codec message) = .ok restored ∧
      restored.command = message.command ∧ restored.targetGroup = message.targetGroup ∧
      restored.replyQueueUrl = message.replyQueueUrl ∧
      (∀ v, codec.parse message.payload = .ok v → codec.parse restored.payload = .ok v) ∧
      (∀ what, codec.parse message.payload = .error what → restored.payload = message.payload) ∧
      parseAgentMessage codec (serializeAgentMessage codec restored) = .ok restored := by
  refine ⟨_, parse_serialize_message h hread, rfl, rfl, rfl, fun v hp => ?_, fun what hp => ?_, ?_⟩
  · exact (parse_carriedPayload hvalue).trans hp
  · show carriedPayload codec message.payload = _
    rw [carriedPayload, hp]
  · have hread' := hread
    rw [← envelope_carried hvalue] at hread'
    rw [parse_serialize_message (h.again hvalue) hread']
    simp only [carriedPayload_again hvalue]

end RoundTrip

namespace Sample

/-- A command with a payload, and what a library makes of the two. -/
def applied : AgentMessage :=
  ⟨"apply_version", " {}", "east", ""⟩

def library : Codec where
  parse s :=
    if s = " {}" || s = "{}" then .ok (.object [])
    else if s = "envelope" then
      .ok (.object [("command", .string "apply_version"), ("payload", .object []),
        ("target_group", .string "east")])
    else .error "syntax error"
  serialize v :=
    match v with
    | .object [] => "{}"
    | _ => "envelope"

theorem carried : Carried library applied where
  named := by decide
  command := by decide
  targetGroup := by decide
  replyQueueUrl := by decide
  payload _ h := by cases h
  unquoted _ h := by cases h

end Sample

/-- A payload that has a blank in front comes back without it. -/
theorem round_trip_apply : ∃ restored,
    parseAgentMessage Sample.library (serializeAgentMessage Sample.library Sample.applied) =
      .ok restored ∧
    restored.payload = "{}" ∧
    parseAgentMessage Sample.library (serializeAgentMessage Sample.library restored) =
      .ok restored := by
  have hvalue : ∀ v, Sample.library.parse Sample.applied.payload = .ok v →
      Sample.library.Restores v := by
    intro v hv
    cases hv
    rfl
  obtain ⟨restored, hrestored, -, -, -, -, -, hagain⟩ := round_trip Sample.carried rfl hvalue
  have hfirst : parseAgentMessage Sample.library
      (serializeAgentMessage Sample.library Sample.applied) =
    .ok { Sample.applied with payload := "{}" } := rfl
  cases hfirst.symm.trans hrestored
  exact ⟨_, hrestored, rfl, hagain⟩

end Agent

end Yirang
