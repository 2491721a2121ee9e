/-
# `Yirang.Agent.Message` — commands, configuration, and the keys of artifacts

What an agent takes from outside as texts: the envelope of a command
(`AgentMessage`), its configuration, and the names in a payload.

    parseAgentMessage    a raw text as an envelope
    Configurations       what the agent is configured with, and its check
    Loaded               the configuration before its gaps are filled
    validateReleaseId    what a release may be called in the artifact store
    makeObjectKey        the key of one file of a release

Texts are JSON.  The library that parses and writes them is a parameter
(`Codec`); what is relied on of it is said where it is.  Every string is
read up to its first NUL, as `c_str()` reads it.
-/
import Yirang.Agent.Host
import Yirang.Agent.Settings

namespace Yirang

open Fs Effect Device

/-- A JSON library: what a text parses to, or why it does not, and the text
of a value. -/
structure Codec where
  parse : String → Except String Json
  serialize : Json → String

/-- A sequence of checks that ended well passed each of them. -/
theorem bind_eq_ok {ε α β : Type} {x : Except ε α} {f : α → Except ε β} {b : β} :
    x >>= f = .ok b ↔ ∃ a, x = .ok a ∧ f a = .ok b := by
  cases x with
  | ok a => exact ⟨fun h => ⟨a, rfl, h⟩, fun ⟨a', ha, h⟩ => by cases ha; exact h⟩
  | error e => exact ⟨fun h => (by cases h), fun ⟨a', ha, _⟩ => (by cases ha)⟩

/-! ## Artifacts -/

namespace Artifact

def containsSeparator (value : String) : Bool :=
  value.toList.contains '/' || value.toList.contains '\\'

def hasParentReference (path : String) : Bool :=
  (Path.splitSlash path.toList).contains ['.', '.']

def validateReleaseId (releaseId : String) : Except String Unit :=
  if releaseId = "" then .error "release_id is required"
  else if containsSeparator releaseId then
    .error s!"release_id must not contain a path separator: '{releaseId}'"
  else if releaseId = "." || releaseId = ".." then
    .error s!"release_id must not be a path reference: '{releaseId}'"
  else if Path.namesDrive releaseId then
    .error s!"release_id must not be a drive path: '{releaseId}'"
  else .ok ()

/-- The checks of `make_object_key` on the path. -/
def validateInstallPath (installPath : String) : Except String Unit :=
  if installPath = "" then .error "install_path is required"
  else if installPath.toList.contains '\\' then
    .error s!"install_path must use '/' as separator: '{installPath}'"
  else if Path.isAbsolute installPath then
    .error s!"install_path must be relative: '{installPath}'"
  else if Path.namesDrive installPath then
    .error s!"install_path must be relative: '{installPath}'"
  else if hasParentReference installPath then
    .error s!"install_path must not contain '..': '{installPath}'"
  else .ok ()

/-- The key of an object of a release in the store. -/
def objectKey (releaseId installPath : String) : String :=
  "releases/" ++ releaseId ++ "/" ++ installPath

def makeObjectKey (releaseId installPath : String) : Except String String := do
  validateReleaseId releaseId
  validateInstallPath installPath
  pure (objectKey releaseId installPath)

end Artifact

namespace Agent

/-! ## The envelope -/

structure AgentMessage where
  command : String
  payload : String
  targetGroup : String := ""
  replyQueueUrl : String := ""
deriving DecidableEq

namespace Commands

def kDownloadVersion : String := "download_version"

def kApplyVersion : String := "apply_version"

def kCurrentStatus : String := "current_status"

def kCleanOldVersion : String := "clean_old_version"

def kRollbackVersion : String := "rollback_version"

def kUpdateConfiguration : String := "update_configuration"

def kRestartService : String := "restart_service"

def kRebootDevice : String := "reboot_device"

end Commands

/-- The payload of an envelope as a text: a string is taken as it is, any
other value is written out. -/
def payloadText (codec : Codec) : Option Json → String
  | none => "{}"
  | some (.string s) => Json.cString s
  | some v => codec.serialize v

def parseAgentMessage (codec : Codec) (text : String) : Except String AgentMessage :=
  match codec.parse text with
  | .error what => .error s!"cannot parse agent message: {what}"
  | .ok parsed =>
      match parsed.object? with
      | none => .error "agent message root is not a JSON object"
      | some root =>
          match Json.readText root "command" with
          | none => .error "agent message field 'command' is missing or not a string"
          | some command =>
              if command = "" then .error "agent message field 'command' is empty"
              else .ok
                { command
                  payload := payloadText codec (root.lookup "payload")
                  targetGroup := (Json.readText root "target_group").getD ""
                  replyQueueUrl := (Json.readText root "reply_queue_url").getD "" }

/-! ## Configuration -/

structure AgentOptions where
  deviceId : String
  group : String
  versionRoot : String
  serviceRoot : String
  resultQueueUrl : String

/-- The part of the configuration that the agent's behaviour depends on, as
the constructor leaves it: there is always a `version_root`. -/
structure Configurations where
  deviceId : String := ""
  group : String := ""
  queueUrl : String := ""
  resultQueueUrl : String := ""
  versionRoot : String
  serviceRoot : String := ""
  keepPreviousReleases : Int := 2
  s3Bucket : String := ""
  serviceExecutable : String := ""
  serviceArguments : List String := []
  serviceWorkingDirectory : String := ""
  stopTimeoutSeconds : Int := 30
  startupTimeoutSeconds : Int := 60
  healthKind : String := "process"
  healthIntervalMs : Int := 1000
  healthSuccessThreshold : Int := 1
  healthFailureThreshold : Int := 3
  versionRooted : versionRoot ≠ "" := by decide

/-- The texts of the configuration while it is read, with the defaults of the
constructor; any of them may be empty. -/
structure Loaded where
  rootPath : String
  deviceId : String := ""
  group : String := ""
  queueUrl : String := ""
  resultQueueUrl : String := ""
  versionRoot : String := ""
  serviceRoot : String := ""
  s3Bucket : String := ""
  serviceExecutable : String := ""
  serviceArguments : List String := []
  serviceWorkingDirectory : String := ""
  healthKind : String := "process"

namespace Loaded

/-- What the file says; it may not be there, or not be an object. -/
def load (file : Option Json) (loaded : Loaded) : Loaded :=
  match file.bind Json.object? with
  | none => loaded
  | some message =>
      let service := Settings.readNested message "service"
      let health := Settings.readNested message "health"
      { loaded with
        deviceId := (Json.readText message "device_id").getD loaded.deviceId
        group := (Json.readText message "group").getD loaded.group
        queueUrl := (Json.readText message "queue_url").getD loaded.queueUrl
        resultQueueUrl := (Json.readText message "result_queue_url").getD loaded.resultQueueUrl
        versionRoot := (Json.readText message "version_root").getD loaded.versionRoot
        serviceRoot := (Json.readText message "service_root").getD loaded.serviceRoot
        s3Bucket := (Json.readText message "s3_bucket").getD loaded.s3Bucket
        serviceExecutable := (Json.readText service "executable").getD loaded.serviceExecutable
        serviceArguments :=
          match Json.readArray service "arguments" with
          | some elements => elements.filterMap fun e => e.string?.map Json.cString
          | none => loaded.serviceArguments
        serviceWorkingDirectory :=
          (Json.readText service "working_directory").getD loaded.serviceWorkingDirectory
        healthKind := (Json.readText health "kind").getD loaded.healthKind }

/-- What the command line says, option by option. -/
def parse (arguments : String → Option String) (loaded : Loaded) : Loaded :=
  { loaded with
    deviceId := (arguments "--device_id").getD loaded.deviceId
    group := (arguments "--group").getD loaded.group
    queueUrl := (arguments "--queue_url").getD loaded.queueUrl
    versionRoot := (arguments "--version_root").getD loaded.versionRoot
    serviceRoot := (arguments "--service_root").getD loaded.serviceRoot
    s3Bucket := (arguments "--s3_bucket").getD loaded.s3Bucket }

/-- `(path(rootPath) / "versions").string()` -/
def versions (rootPath : String) : String :=
  if rootPath = "" || rootPath.toList.getLast? = some '/' then rootPath ++ "versions"
  else rootPath ++ "/versions"

theorem versions_ne_empty (rootPath : String) : versions rootPath ≠ "" := by
  unfold versions
  split <;> simp

def validateVersionRoot (loaded : Loaded) : String :=
  if loaded.versionRoot = "" then versions loaded.rootPath else loaded.versionRoot

theorem validateVersionRoot_ne_empty (loaded : Loaded) : loaded.validateVersionRoot ≠ "" := by
  unfold validateVersionRoot
  split
  · exact versions_ne_empty _
  · assumption

/-- The gaps are filled; the numbers have their own check. -/
def validateConfiguration (loaded : Loaded) (numbers : Settings) : Configurations where
  deviceId := loaded.deviceId
  group := loaded.group
  queueUrl := loaded.queueUrl
  resultQueueUrl := loaded.resultQueueUrl
  versionRoot := loaded.validateVersionRoot
  serviceRoot := loaded.serviceRoot
  keepPreviousReleases := numbers.keepPreviousReleases
  s3Bucket := loaded.s3Bucket
  serviceExecutable := loaded.serviceExecutable
  serviceArguments := loaded.serviceArguments
  serviceWorkingDirectory := loaded.serviceWorkingDirectory
  stopTimeoutSeconds := numbers.stopTimeoutSeconds
  startupTimeoutSeconds := numbers.startupTimeoutSeconds
  healthKind := if ["process", "tcp", "http"].contains loaded.healthKind then loaded.healthKind
    else "process"
  healthIntervalMs := numbers.healthIntervalMs
  healthSuccessThreshold := numbers.healthSuccessThreshold
  healthFailureThreshold := numbers.healthFailureThreshold
  versionRooted := loaded.validateVersionRoot_ne_empty

end Loaded

namespace Configurations

/-- The constructor, in the folder of the program. -/
def ofFile (programFolder : String) (file : Option Json) (arguments : String → Option String) :
    Configurations :=
  let loaded : Loaded := ({ rootPath := programFolder } : Loaded).load file |>.parse arguments
  loaded.validateConfiguration (.ofFile file)

variable (configurations : Configurations)

def validateRequired : Except String Unit :=
  if configurations.deviceId = "" then .error "device_id is required"
  else if configurations.queueUrl = "" then .error "queue_url is required"
  else if configurations.s3Bucket = "" then .error "s3_bucket is required"
  else if configurations.resultQueueUrl ≠ "" &&
      configurations.resultQueueUrl = configurations.queueUrl then
    .error "result_queue_url must not be the same as queue_url"
  else if configurations.serviceRoot ≠ "" &&
      configurations.versionRoot = configurations.serviceRoot then
    .error "version_root must not be the same as service_root"
  else .ok ()

def makeAgentOptions : AgentOptions where
  deviceId := configurations.deviceId
  group := configurations.group
  versionRoot := configurations.versionRoot
  serviceRoot := configurations.serviceRoot
  resultQueueUrl := configurations.resultQueueUrl

def makeServiceSpec : Deploy.ServiceSpec where
  executable := configurations.serviceExecutable
  arguments := configurations.serviceArguments
  workingDirectory := configurations.serviceWorkingDirectory
  stopTimeout := configurations.stopTimeoutSeconds
  startupTimeout := configurations.startupTimeoutSeconds

def makeHealthSpec : Health.HealthCheckSpec where
  kind :=
    if configurations.healthKind = "http" then .http
    else if configurations.healthKind = "tcp" then .tcp
    else .process
  interval := configurations.healthIntervalMs
  successThreshold := configurations.healthSuccessThreshold
  failureThreshold := configurations.healthFailureThreshold

def makeEngine : Option Deploy.Config :=
  if configurations.serviceRoot = "" || configurations.serviceExecutable = "" then none
  else some
    { installer :=
        { serviceRoot := configurations.serviceRoot
          keepPreviousReleases := configurations.keepPreviousReleases }
      service := configurations.makeServiceSpec
      health := configurations.makeHealthSpec }

/-- What a configuration that passed the check has. -/
structure Valid : Prop where
  queueUrl : configurations.queueUrl ≠ ""
  resultQueueUrl : configurations.resultQueueUrl ≠ configurations.queueUrl
  roots : configurations.serviceRoot ≠ "" →
    configurations.versionRoot ≠ configurations.serviceRoot

variable {configurations}

theorem valid_of_validateRequired (h : configurations.validateRequired = .ok ()) :
    configurations.Valid := by
  unfold validateRequired at h
  split at h
  · cases h
  · split at h
    · cases h
    · rename_i hq
      split at h
      · cases h
      · split at h
        · cases h
        · rename_i hr
          split at h
          · cases h
          · rename_i hs
            refine ⟨hq, fun e => ?_, fun hne e => hs (by simp [hne, e])⟩
            refine hr ?_
            simp only [e, ne_eq, hq, not_false_eq_true, decide_true, Bool.and_self]

end Configurations

end Agent

end Yirang
