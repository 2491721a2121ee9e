/-
# `Yirang.Api.Model` — the REST API in front of the queues

The API turns requests of clients into messages for devices, and hands their
reports back.  It keeps nothing itself: what there is is in the queues.

    Config.validate     the check of the configuration
    downloadPayload     what a deployment may ask for
    publish             one message to every queue of a group
    results             receive reports, acknowledge them, hand them over
    serve               a request, up to its response

A request is a program over the calls to the queues and to its client.  The
sends of `publish` are made by goroutines: in which order they get to their
call is an answer of the world (`interleaving`), and they share nothing but
the queues.
-/
import Yirang.Agent.Message

namespace Yirang.Api

open Effect

/-! ## Decoding

`encoding/json` fills a structure from an object: names are compared without
regard to case, an unknown name is passed over, `null` changes nothing, and
a value of another kind is an error. -/

namespace Go

/-- Equal up to case, for names of letters. -/
def foldChar (c : Char) : Char :=
  if c = '\u017f' then 's' else if c = '\u212a' then 'k' else c.toLower

def foldName (s : String) : String := String.ofList (s.toList.map foldChar)

/-- What stands under a name, in order. -/
def under (fields : Json.Fields) (name : String) : List Json :=
  (fields.filter fun f => foldName f.1 = foldName name).map Prod.snd

def field {α : Type} (decode : α → Json → Option α) (zero : α) (fields : Json.Fields)
    (name : String) : Option α :=
  (under fields name).foldlM decode zero

def string (old : String) : Json → Option String
  | .null => some old
  | .string s => some s
  | _ => none

def bool (old : Bool) : Json → Option Bool
  | .null => some old
  | .bool b => some b
  | _ => none

def uint64 (old : Nat) : Json → Option Nat
  | .null => some old
  | .int64 i => if 0 ≤ i then some i.toNat else none
  | .uint64 n => some n
  | _ => none

/-- The digits of a number, and the power of ten that they are taken times:
`-1.25E3` is 125 times 10 to the 1. -/
def decimal (text : String) : Nat × Int :=
  let digits (cs : List Char) : Nat := cs.foldl (fun n c => 10 * n + (c.toNat - 48)) 0
  let cs := text.toList.dropWhile (· = '-')
  let mantissa := cs.takeWhile fun c => c ≠ 'e' && c ≠ 'E'
  let whole := mantissa.takeWhile (· ≠ '.')
  let fraction := mantissa.drop (whole.length + 1)
  let exponent : Int := match cs.drop (mantissa.length + 1) with
    | '-' :: rest => -digits rest
    | '+' :: rest => digits rest
    | rest => digits rest
  (digits (whole ++ fraction), exponent - fraction.length)

/-- `strconv.ParseFloat`: what is nearer to 2 to the 1024 than to the greatest
double is out of range. -/
def inRange (text : String) : Bool :=
  let (digits, power) := decimal text
  let limit := Nat.pow 2 1024 - Nat.pow 2 970
  digits = 0 || power ≤ 308 &&
    if 0 ≤ power then digits * Nat.pow 10 power.toNat < limit
    else digits < limit * Nat.pow 10 (-power).toNat

mutual

/-- Every number is one that an `any` can hold. -/
def fits : Json → Bool
  | .double text => inRange text
  | .array items => fitsItems items
  | .object fields => fitsFields fields
  | _ => true

def fitsItems : List Json → Bool
  | [] => true
  | v :: rest => fits v && fitsItems rest

def fitsFields : List (String × Json) → Bool
  | [] => true
  | (_, value) :: rest => fits value && fitsFields rest

end

theorem fitsFields_iff {fields : Json.Fields} :
    fitsFields fields = true ↔ ∀ f ∈ fields, fits f.2 = true := by
  induction fields with
  | nil => exact ⟨fun _ _ h => (by cases h), fun _ => rfl⟩
  | cons f rest ih => rw [fitsFields, Bool.and_eq_true, ih, List.forall_mem_cons]

example : inRange "1.7976931348623157E308" = true ∧ inRange "-1.7976931348623159E308" = false ∧
    inRange "1E-400" = true ∧ inRange "1E99999" = false := by
  decide +kernel

/-- `DisallowUnknownFields`: every name is that of a field. -/
def known (names : List String) (fields : Json.Fields) : Bool :=
  fields.all fun f => names.any fun name => foldName f.1 = foldName name

/-- A slice: `null` empties it. -/
def slice {α : Type} (decode : Json → Option α) (_old : List α) : Json → Option (List α)
  | .null => some []
  | .array items => items.mapM decode
  | _ => none

end Go

/-! ## Configuration -/

structure DeviceQueue where
  name : String
  url : String
  group : String
deriving DecidableEq

structure Config where
  bindAddress : String := "127.0.0.1"
  port : Int := 8080
  deviceQueues : List DeviceQueue
  resultQueueUrl : String := ""
  resultBatchSize : Int := 10
  resultWaitSeconds : Int := 1

namespace Config

def validateQueues : Nat → List DeviceQueue → List String → List String → Except String Unit
  | _, [], _, _ => .ok ()
  | index, queue :: rest, names, urls =>
      if queue.name = "" then .error s!"DEVICE_QUEUES[{index}].name is required"
      else if queue.url = "" then .error s!"DEVICE_QUEUES[{index}].url is required"
      else if names.contains queue.name then
        .error s!"DEVICE_QUEUES[{index}].name {repr queue.name} is duplicated: a delivery report would be ambiguous"
      else if urls.contains queue.url then
        .error s!"DEVICE_QUEUES[{index}].url {repr queue.url} is duplicated"
      else validateQueues (index + 1) rest (queue.name :: names) (queue.url :: urls)

def validate (c : Config) : Except String Unit :=
  if c.port < 1 || c.port > 65535 then .error s!"PORT must be within 1-65535, got {c.port}"
  else if c.bindAddress = "" then
    .error "BIND_ADDRESS must not be empty: use \"127.0.0.1\" for local-only or \"0.0.0.0\" to expose deliberately"
  else if c.deviceQueues = [] then
    .error "DEVICE_QUEUES is required: the API has no queue to publish to"
  else
    match validateQueues 0 c.deviceQueues [] [] with
    | .error e => .error e
    | .ok _ =>
        if c.resultQueueUrl ≠ "" && (c.deviceQueues.map DeviceQueue.url).contains c.resultQueueUrl
        then .error s!"RESULT_QUEUE_URL {repr c.resultQueueUrl} is also a device queue: draining results would delete pending commands"
        else if c.resultBatchSize < 1 || c.resultBatchSize > 10 then
          .error s!"RESULT_BATCH_SIZE must be within 1-10, got {c.resultBatchSize}"
        else if c.resultWaitSeconds < 0 || c.resultWaitSeconds > 20 then
          .error s!"RESULT_WAIT_SECONDS must be within 0-20, got {c.resultWaitSeconds}"
        else .ok ()

def queuesForGroup (c : Config) (group : String) : List DeviceQueue :=
  if group = "" then c.deviceQueues else c.deviceQueues.filter fun queue => queue.group = group

/-- What a configuration that passed the check has. -/
structure Valid (c : Config) : Prop where
  urls : (c.deviceQueues.map DeviceQueue.url).Nodup
  result : c.resultQueueUrl ≠ "" → c.resultQueueUrl ∉ c.deviceQueues.map DeviceQueue.url

theorem nodup_of_validateQueues :
    ∀ {index : Nat} {queues : List DeviceQueue} {names urls : List String},
      validateQueues index queues names urls = .ok () →
      (queues.map DeviceQueue.url).Nodup ∧ ∀ url ∈ queues.map DeviceQueue.url, url ∉ urls
  | _, [], _, _, _ => ⟨List.nodup_nil, fun _ h => by cases h⟩
  | index, queue :: rest, names, urls, h => by
      unfold validateQueues at h
      split at h
      · cases h
      · split at h
        · cases h
        · split at h
          · cases h
          · split at h
            · cases h
            · rename_i hurl
              obtain ⟨hnd, hout⟩ := nodup_of_validateQueues h
              refine ⟨List.nodup_cons.mpr ⟨fun hm => ?_, hnd⟩, fun url hm => ?_⟩
              · exact hout _ hm List.mem_cons_self
              · rcases List.mem_cons.mp hm with rfl | hm
                · simpa using hurl
                · exact fun hu => hout _ hm (List.mem_cons_of_mem _ hu)

theorem valid_of_validate {c : Config} (h : c.validate = .ok ()) : c.Valid := by
  unfold validate at h
  split at h
  · cases h
  · split at h
    · cases h
    · split at h
      · cases h
      · split at h
        · cases h
        · rename_i u hq
          split at h
          · cases h
          · rename_i hr
            refine ⟨(nodup_of_validateQueues (by cases u; exact hq)).1, fun hne hm => hr ?_⟩
            simp [hne, List.mem_map.mp hm]

theorem mem_of_mem_queuesForGroup {c : Config} {group : String} {queue : DeviceQueue}
    (h : queue ∈ c.queuesForGroup group) :
    queue ∈ c.deviceQueues ∧ (group = "" ∨ queue.group = group) := by
  unfold queuesForGroup at h
  split at h
  · exact ⟨h, .inl ‹_›⟩
  · obtain ⟨hm, hg⟩ := List.mem_filter.mp h
    exact ⟨hm, .inr (of_decide_eq_true hg)⟩

theorem queuesForGroup_sublist (c : Config) (group : String) :
    (c.queuesForGroup group).Sublist c.deviceQueues := by
  unfold queuesForGroup
  split
  · exact List.Sublist.refl _
  · exact List.filter_sublist

end Config

/-! ## Messages -/

/-- `models.AgentMessage`, as JSON: the last two fields are left out where
they are empty. -/
def agentMessage (command : String) (payload : Json) (targetGroup replyQueueUrl : String) :
    Json.Fields :=
  [("command", .string command), ("payload", payload)] ++
    (if targetGroup = "" then [] else [("target_group", .string targetGroup)]) ++
    (if replyQueueUrl = "" then [] else [("reply_queue_url", .string replyQueueUrl)])

def supportedCommands : List String :=
  ["download_version", "apply_version", "current_status", "clean_old_version",
    "rollback_version", "update_configuration", "restart_service", "reboot_device"]

structure Artifact where
  installPath : String := ""
  sha256 : String := ""
  sizeBytes : Nat := 0
deriving DecidableEq

namespace Artifact

def decode : Json → Option Artifact
  | .null => some {}
  | .object fields => do
      let installPath ← Go.field Go.string "" fields "install_path"
      let sha256 ← Go.field Go.string "" fields "sha256"
      let sizeBytes ← Go.field Go.uint64 0 fields "size_bytes"
      pure { installPath, sha256, sizeBytes }
  | _ => none

/-- The same where unknown fields are not allowed. -/
def decodeStrict : Json → Option Artifact
  | .object fields =>
      if Go.known ["install_path", "sha256", "size_bytes"] fields then decode (.object fields)
      else none
  | v => decode v

def encode (a : Artifact) : Json :=
  .object ([("install_path", .string a.installPath), ("sha256", .string a.sha256)] ++
    if a.sizeBytes = 0 then [] else [("size_bytes", .uint64 a.sizeBytes)])

end Artifact

structure DownloadPayload where
  releaseId : String := ""
  artifacts : List Artifact := []

namespace DownloadPayload

def decode : Json → Option DownloadPayload
  | .null => some {}
  | .object fields => do
      let releaseId ← Go.field Go.string "" fields "release_id"
      let artifacts ← Go.field (Go.slice Artifact.decode) [] fields "artifacts"
      pure { releaseId, artifacts }
  | _ => none

def encode (p : DownloadPayload) : Json :=
  .object [("release_id", .string p.releaseId), ("artifacts", .array (p.artifacts.map (·.encode)))]

end DownloadPayload

/-- `models.VersionPayload`: the id of a release. -/
def decodeVersion : Json → Option String
  | .null => some ""
  | .object fields => Go.field Go.string "" fields "release_id"
  | _ => none

/-- `models.ConfigurationPayload`: a path, and values as they stand. -/
def decodeConfiguration : Json → Option (String × Option Json)
  | .null => some ("", none)
  | .object fields => do
      let path ← Go.field Go.string "" fields "path"
      pure (path, (Go.under fields "values").getLast?)
  | _ => none

structure Report where
  deviceId : String := ""
  group : String := ""
  command : String := ""
  success : Bool := false
  detail : String := ""
deriving DecidableEq

def Report.decode : Json → Option Report
  | .null => some {}
  | .object fields => do
      let deviceId ← Go.field Go.string "" fields "device_id"
      let group ← Go.field Go.string "" fields "group"
      let command ← Go.field Go.string "" fields "command"
      let success ← Go.field Go.bool false fields "success"
      let detail ← Go.field Go.string "" fields "detail"
      pure { deviceId, group, command, success, detail }
  | _ => none

/-! ## Errors -/

structure ApiError where
  code : String
  message : String
  status : Nat
deriving DecidableEq

namespace ApiError

def badRequest (message : String) : ApiError := ⟨"BAD_REQUEST", message, 400⟩

def unsupported (command : String) : ApiError :=
  ⟨"UNSUPPORTED_COMMAND", s!"the agent has no handler for command {repr command}", 400⟩

def tooLarge (limit : Nat) : ApiError :=
  ⟨"REQUEST_TOO_LARGE", s!"request body must not exceed {limit} bytes", 413⟩

def unsupportedMedia (got : String) : ApiError :=
  let got := if got = "" then "(none)" else got
  ⟨"UNSUPPORTED_MEDIA_TYPE", s!"Content-Type must be application/json, got {got}", 415⟩

def noTargets (group : String) : ApiError :=
  ⟨"NO_TARGETS", s!"no device queue is registered for group {repr group}", 404⟩

def noResultQueue : ApiError :=
  ⟨"NO_RESULT_QUEUE", "RESULT_QUEUE_URL is not configured, so no reports can be collected", 503⟩

def allTargetsFailed (targeted : Nat) : ApiError :=
  ⟨"PUBLISH_FAILED", s!"no queue accepted the command ({targeted} of {targeted} targets failed); see server logs for the per-queue reason", 502⟩

def internal (message : String) : ApiError := ⟨"INTERNAL", message, 500⟩

end ApiError

/-! ## Requests -/

structure DeployRequest where
  releaseId : String
  group : String
  artifacts : List Artifact

def DeployRequest.decode : Json → Option DeployRequest
  | .null => some ⟨"", "", []⟩
  | .object fields =>
      if Go.known ["release_id", "group", "artifacts"] fields then do
        let releaseId ← Go.field Go.string "" fields "release_id"
        let group ← Go.field Go.string "" fields "group"
        let artifacts ← Go.field (Go.slice Artifact.decodeStrict) [] fields "artifacts"
        pure { releaseId, group, artifacts }
      else none
  | _ => none

def maxRequestBytes : Nat := 1048576

/-- `decodeJSON`, of a body that came as JSON. -/
def decodeDeploy (codec : Codec) (body : String) : Option DeployRequest :=
  if body.utf8ByteSize > maxRequestBytes then none
  else
    match codec.parse body with
    | .ok v => DeployRequest.decode v
    | .error _ => none

structure CommandRequest where
  command : String
  group : String
  payload : Option Json

structure Delivery where
  queue : String
  queueUrl : String
  messageId : String := ""
  error : String := ""
deriving DecidableEq

structure PublishResult where
  command : String
  targeted : Nat
  published : Nat
  deliveries : List Delivery
deriving DecidableEq

structure ResultBatch where
  count : Nat
  reports : List Report
  skipped : Nat
deriving DecidableEq

/-- The body of a response. -/
inductive Response where
  | published (result : PublishResult)
  | batch (batch : ResultBatch)
  | failure (error : ApiError)
deriving DecidableEq

/-! ## Calls -/

/-- A message as it is received: the handle acknowledges it. -/
structure Message where
  id : Nat
  body : String
deriving DecidableEq

inductive Op where
  | send (queueUrl body : String)
  | receive (queueUrl : String) (max waitSeconds : Int)
  | delete (queueUrl : String) (messages : List Message)
  /-- In which order `n` goroutines get to their call. -/
  | interleaving (n : Nat)
  /-- The response is written to the client. -/
  | respond (status : Nat) (response : Response)

abbrev Op.Res : Op → Type
  | .send _ _ => Except String String
  | .receive _ _ _ => Except String (List Message)
  | .delete _ _ | .respond _ _ => Except String Unit
  | .interleaving _ => List Nat

end Yirang.Api

namespace Yirang

/-- The signature of the API. -/
abbrev cloud : Effect.Sig := ⟨Api.Op, Api.Op.Res⟩

end Yirang

namespace Yirang.Api

open Effect

abbrev Task (α : Type) := Act cloud Unit ApiError α

def call (o : Op) : Task o.Res := ask (E := cloud) o

/-! ## Deploying -/

/-- `isSHA256` -/
def isSHA256 (value : String) : Bool :=
  value.toList.length = 64 && value.toList.all fun c =>
    ('0' ≤ c && c ≤ '9') || ('a' ≤ c && c ≤ 'f') || ('A' ≤ c && c ≤ 'F')

/-- `strings.ToLower`, of a text of hexadecimal digits. -/
def toLower (value : String) : String := String.ofList (value.toList.map Char.toLower)

def validateObjectKey (releaseId installPath : String) (index : Nat) : Except ApiError Unit :=
  if releaseId = "" then .error (.badRequest "release_id is required")
  else if releaseId.toList.contains '/' || releaseId.toList.contains '\\' then
    .error (.badRequest s!"release_id must not contain a path separator: {repr releaseId}")
  else if Fs.Path.namesDrive releaseId then
    .error (.badRequest s!"release_id must not be a drive path: {repr releaseId}")
  else if releaseId = "." || releaseId = ".." then
    .error (.badRequest s!"release_id must not be a path reference: {repr releaseId}")
  else if installPath = "" then
    .error (.badRequest s!"artifacts[{index}].install_path is required")
  else if installPath.toList.contains '\\' then
    .error (.badRequest s!"artifacts[{index}].install_path must use '/' as separator: {repr installPath}")
  else if Fs.Path.isAbsolute installPath || Fs.Path.namesDrive installPath then
    .error (.badRequest s!"artifacts[{index}].install_path must be relative: {repr installPath}")
  else if (Fs.Path.splitSlash installPath.toList).contains ['.', '.'] then
    .error (.badRequest s!"artifacts[{index}].install_path must not contain '..': {repr installPath}")
  else .ok ()

def normalizeArtifacts (releaseId : String) : Nat → List Artifact → Except ApiError (List Artifact)
  | _, [] => .ok []
  | index, artifact :: rest => do
      validateObjectKey releaseId artifact.installPath index
      if isSHA256 artifact.sha256 then
        let normalized ← normalizeArtifacts releaseId (index + 1) rest
        pure ({ artifact with sha256 := toLower artifact.sha256 } :: normalized)
      else .error (.badRequest s!"artifacts[{index}].sha256 must be 64 hexadecimal characters")

def downloadPayload (releaseId : String) (artifacts : List Artifact) : Except ApiError Json :=
  if artifacts = [] then .error (.badRequest "artifacts must not be empty")
  else do
    let normalized ← normalizeArtifacts releaseId 0 artifacts
    pure (DownloadPayload.encode { releaseId, artifacts := normalized })

def validateConfigurationPath (value : String) : Except ApiError Unit :=
  if value = "" then .error (.badRequest "update_configuration requires payload.path")
  else if value.toList.contains '\\' then
    .error (.badRequest s!"payload.path must use '/' as separator: {repr value}")
  else if Fs.Path.isAbsolute value || Fs.Path.namesDrive value then
    .error (.badRequest s!"payload.path must be relative to the release directory: {repr value}")
  else if (Fs.Path.splitSlash value.toList).contains ['.', '.'] then
    .error (.badRequest s!"payload.path must not contain '..': {repr value}")
  else .ok ()

/-- What `json.Unmarshal` makes a `map[string]any` of. -/
def isMap : Option Json → Bool
  | some .null => true
  | some (.object fields) => Go.fits (.object fields)
  | _ => false

/-- The payload of a command, checked. -/
def commandPayload (command : String) (payload : Json) : Except ApiError Json :=
  if command = "download_version" then
    match DownloadPayload.decode payload with
    | none => .error
        (.badRequest "download_version payload must be an object with release_id and artifacts")
    | some download => downloadPayload download.releaseId download.artifacts
  else if command = "apply_version" || command = "rollback_version" then
    match decodeVersion payload with
    | some releaseId =>
        if releaseId = "" then .error (.badRequest s!"{command} requires payload.release_id")
        else .ok payload
    | none => .error (.badRequest s!"{command} requires payload.release_id")
  else if command = "update_configuration" then
    match decodeConfiguration payload with
    | none =>
        .error (.badRequest "update_configuration payload must be an object with path and values")
    | some (path, values) => do
        validateConfigurationPath path
        if isMap values then pure payload
        else .error (.badRequest "update_configuration requires payload.values as a JSON object")
  else .ok payload

/-! ## Publishing -/

/-- The sends, in the order in which the goroutines get to them; each fills
the slot of its target. -/
def sends (body : String) (targets : List DeviceQueue) :
    List Nat → List Delivery → Task (List Delivery)
  | [], deliveries => pure deliveries
  | index :: rest, deliveries =>
      match targets[index]? with
      | none => sends body targets rest deliveries
      | some target => do
          let sent ← call (.send target.url body)
          let delivery : Delivery := match sent with
            | .ok messageId => { queue := target.name, queueUrl := target.url, messageId }
            | .error e => { queue := target.name, queueUrl := target.url, error := e }
          sends body targets rest (deliveries.set index delivery)

variable (cfg : Config) (codec : Codec)

/-- The text of the message of a publish. -/
def body (command group : String) (payload : Json) : String :=
  codec.serialize (.object (agentMessage command payload group cfg.resultQueueUrl))

def publish (command group : String) (payload : Json) : Task PublishResult := do
  let targets := cfg.queuesForGroup group
  require (targets ≠ []) (.noTargets group)
  let order ← call (.interleaving targets.length)
  let deliveries ← sends (body cfg codec command group payload) targets order
    (targets.map fun target => { queue := target.name, queueUrl := target.url })
  let published := (deliveries.filter fun delivery => delivery.error = "").length
  require (published ≠ 0) (.allTargetsFailed targets.length)
  pure { command, targeted := targets.length, published, deliveries }

def deploy (request : DeployRequest) : Task PublishResult := do
  let payload ← conclude (downloadPayload request.releaseId request.artifacts)
  publish cfg codec "download_version" request.group payload

def command (request : CommandRequest) : Task PublishResult := do
  require (supportedCommands.contains request.command) (.unsupported request.command)
  let payload ← conclude (commandPayload request.command (request.payload.getD (.object [])))
  publish cfg codec request.command request.group payload

/-! ## Results -/

/-- A text that decodes as a report. -/
def decodeReport (body : String) : Option Report :=
  match codec.parse body with
  | .ok v => Report.decode v
  | .error _ => none

def batchOf (messages : List Message) : ResultBatch :=
  let reports := messages.filterMap fun message => decodeReport codec message.body
  { count := reports.length, reports, skipped := messages.length - reports.length }

/-- `SQS.Delete`: an empty batch makes no call. -/
def acknowledge (queueUrl : String) (messages : List Message) : Task (Except String Unit) :=
  if messages = [] then pure (.ok ()) else call (.delete queueUrl messages)

def results : Task ResultBatch := do
  require (cfg.resultQueueUrl ≠ "") .noResultQueue
  let messages ← orFail (call (.receive cfg.resultQueueUrl cfg.resultBatchSize
    cfg.resultWaitSeconds)) (fun _ => .internal "cannot receive from the result queue")
  let _ ← acknowledge cfg.resultQueueUrl messages
  pure (batchOf codec messages)

/-! ## Serving -/

inductive Request where
  | deploy (request : DeployRequest)
  | command (request : CommandRequest)
  | results

/-- `writeData`, or `writeError`; what becomes of the write is only logged. -/
def answerWith {α : Type} (status : Nat) (wrap : α → Response) (part : Task α) : Task Unit := do
  let ended ← attempt part
  match ended with
  | .ok a => do
      let _ ← call (.respond status (wrap a))
      pure ()
  | .error e => do
      let _ ← call (.respond e.status (.failure e))
      pure ()

def serve : Request → Task Unit
  | .deploy request => answerWith 202 .published (Api.deploy cfg codec request)
  | .command request => answerWith 202 .published (Api.command cfg codec request)
  | .results => answerWith 200 .batch (Api.results cfg codec)

end Yirang.Api
