/-
# `Yirang.Agent.Service` — the agent

`AgentService` takes the messages of its queue, one at a time.  It parses
the envelope, refuses what is meant for another group, runs the handler of
the command, reports the outcome, and tells the consumer whether to keep the
message for another try.

The functions are those of `AgentService.cpp`, call by call.

    downloadVersion       fetch and check the files of a release
    cleanOldVersion       empty the directory of the downloads
    applyVersion          hand a download to the deployment engine
    rollbackVersion       have the engine run an earlier release
    updateConfiguration   merge values into a file of the active release
    currentStatus, restartService, rebootDevice
    dispatch              all of `handle` up to its report
    settle                the rest: which failures are tried again

`handle` is split where all its returns agree: each reports first, and then
does its accounting.  An exception of a handler leaves it before either.
-/
import Yirang.Agent.Message

namespace Yirang.Agent

open Fs Effect Device Deploy

def kMaxTransientAttempts : UInt32 := 5

def kRebootDelayMinutes : Nat := 1

/-- What an agent is made from: which of its parts are there, and which
engine. -/
structure AgentService where
  options : AgentOptions
  codec : Codec
  store : Bool
  publisher : Bool
  engine : Option Deploy.Config
  system : Bool

/-- What `main` makes of a configuration. -/
def Configurations.agentService (configurations : Configurations) (codec : Codec) :
    AgentService where
  options := configurations.makeAgentOptions
  codec := codec
  store := true
  publisher := true
  engine := configurations.makeEngine
  system := true

/-- What an agent remembers. -/
structure Memory where
  engine : Engine := {}
  lastReport : String := ""
  failureIsPermanent : Bool := false
  failingMessage : String := ""
  failingAttempts : UInt32 := 0

def engineLens : Lens Memory Engine where
  get m := m.engine
  put e m := { m with engine := e }
  get_put _ _ := rfl
  put_get _ := rfl
  put_put _ _ _ := rfl

/-- How a handler fails: it returns its reason, or an exception leaves it. -/
inductive Failure where
  | said (reason : String)
  | threw (what : String)

abbrev Handler := Act agent Memory Failure Unit

section Parts

variable {ε α : Type}

/-- A call of the agent's own. -/
def call (o : Op) : Act agent Memory ε o.Res := ask (E := agent) o

def onDevice (o : Device.Op) : Act agent Memory ε o.Res := ask (E := agent) (.device o)

def onFile (o : FileOp Content) : Act agent Memory ε (FileOp.Res o) :=
  ask (E := agent) (.device (.file o))

/-- An operation of the deployment engine. -/
def onEngine (p : Deploy.Task α) : Act agent Memory EngineError α :=
  embed deviceCalls (zoom engineLens p)

/-- `if (!r) { return std::unexpected(r.error()); }` -/
abbrev orReturn (r : Except String α) : Act agent Memory Failure α := conclude (r.mapError .said)

def permanent (reason : String) : Act agent Memory Failure α := do
  let memory ← load
  store { memory with failureIsPermanent := true }
  throw (.said reason)

/-- `if (!r) { return permanent(r.error()); }` -/
def orPermanent : Except String α → Act agent Memory Failure α
  | .ok a => pure a
  | .error reason => permanent reason

/-- `if (!c) { return permanent(reason); }` -/
def demand (c : Bool) (reason : String) : Handler := if c then pure () else permanent reason

def setReport (lastReport : String) : Handler := do
  let memory ← load
  store { memory with lastReport }

end Parts

/-! ## Reading payloads -/

def readString (object : Json.Fields) (key : String) : Except String String :=
  match Json.readText object key with
  | some s => .ok s
  | none => .error s!"payload field '{key}' is missing or not a string"

def parseObject (codec : Codec) (payload : String) : Except String Json.Fields :=
  match codec.parse payload with
  | .error what => .error s!"cannot parse payload: {what}"
  | .ok parsed =>
      match parsed.object? with
      | none => .error "payload is not a JSON object"
      | some object => .ok object

def validatedReleaseId (object : Json.Fields) : Except String String := do
  let releaseId ← readString object "release_id"
  Artifact.validateReleaseId releaseId
  pure releaseId

variable (a : AgentService)

/-- The directory of the downloads. -/
def AgentService.versionRoot : Path := Path.join [] a.options.versionRoot

def AgentService.versionDirectory (releaseId : String) : Path :=
  Path.join a.versionRoot releaseId

/-! ## Downloading -/

/-- `store_->download`: the directory of the file is made, and the object
written there.  A destination that names a directory cannot be written. -/
def storeDownload (key : String) (target : Path) (installPath : String) :
    Act agent Memory Failure (Except String Unit) := do
  if Path.namesDirectory installPath then
    let made ← onFile (.createDirectories (Path.join target installPath))
    match made with
    | .error why => pure (.error s!"cannot create directory: {why}")
    | .ok _ => pure (.error s!"cannot download '{key}': Is a directory")
  else onDevice (.download key (Path.join target installPath))

/-- A download that failed is worth another try unless the object is known
to be missing. -/
def orMissing (key : String) : Except String Unit → Handler
  | .ok _ => pure ()
  | .error why => do
      let present ← onDevice (.inStore key)
      match present with
      | .ok false => permanent s!"artifact '{key}' does not exist in the store"
      | _ => throw (.said why)

def entryObject (element : Json) : Except String Json.Fields :=
  match element.object? with
  | some entry => .ok entry
  | none => .error "artifact entry is not an object"

/-- What an entry of a payload asks for: a path in the release, the digest
its file must have, and its key in the store. -/
def artifactRequest (releaseId : String) (element : Json) :
    Except String (String × String × String) := do
  let entry ← entryObject element
  let installPath ← readString entry "install_path"
  let sha256 ← readString entry "sha256"
  let key ← Artifact.makeObjectKey releaseId installPath
  pure (installPath, sha256, key)

/-- One turn of the loop of `download_version`. -/
def fetch (releaseId : String) (target : Path) (element : Json) : Handler := do
  let (installPath, sha256, key) ← orPermanent (artifactRequest releaseId element)
  let downloaded ← storeDownload key target installPath
  orMissing key downloaded
  let hashed ← onDevice (.fileSha256 (Path.join target installPath))
  let actual ← orReturn hashed
  demand (actual = sha256)
    s!"sha256 mismatch for '{installPath}': expected {sha256}, got {actual}"

def fetchAll (releaseId : String) (target : Path) : List Json → Handler
  | [] => pure ()
  | element :: rest => do
      fetch releaseId target element
      fetchAll releaseId target rest

/-- `PartialDownloadGuard`: the directory goes unless the part ended well. -/
def discardOnFailure (target : Path) (part : Handler) : Handler := do
  let ended ← attempt part
  match ended with
  | .ok _ => pure ()
  | .error e => do
      let _ ← onFile (.removeAll target)
      throw e

/-- What a payload of `download_version` asks for: a release, and the
entries of its files. -/
def downloadRequest (object : Json.Fields) : Except String (String × List Json) := do
  let releaseId ← validatedReleaseId object
  match Json.readArray object "artifacts" with
  | none => .error "payload field 'artifacts' is missing or not an array"
  | some [] => .error "payload field 'artifacts' must not be empty"
  | some artifacts => pure (releaseId, artifacts)

def downloadVersion (message : String) : Handler := do
  demand a.store "artifact store is not configured"
  demand (a.options.versionRoot ≠ "") "version_root is not configured"
  let object ← orPermanent (parseObject a.codec message)
  let (releaseId, artifacts) ← orPermanent (downloadRequest object)
  let target := a.versionDirectory releaseId
  let made ← onFile (.createDirectories target)
  orReturn (made.mapError fun why =>
    s!"cannot create version directory '{target.text}': {why}")
  discardOnFailure target (fetchAll releaseId target artifacts)
  setReport s!"downloaded release '{releaseId}' into '{target.text}'"

/-! ## Cleaning -/

def removeEntries (root : Path) : List String → UInt32 → Act agent Memory Failure UInt32
  | [], removed => pure removed
  | name :: rest, removed => do
      let gone ← onFile (.removeAll (root ++ [name]))
      orReturn (gone.mapError fun why => s!"cannot remove '{Path.text (root ++ [name])}': {why}")
      removeEntries root rest (removed + 1)

/-- Both roots are compared as the file system names them. -/
def demandApart : Handler :=
  if a.options.serviceRoot = "" then pure ()
  else do
    let versionRoot ← call (.weaklyCanonical a.versionRoot)
    let serviceRoot ← call (.weaklyCanonical (Path.join [] a.options.serviceRoot))
    demand (versionRoot ≠ serviceRoot) "version_root must not be the same as service_root"

/-- The walk over the directory: the entry that could not be reached ends
it. -/
def removeVersions : Handler := do
  let listed ← onFile (.list a.versionRoot)
  let entries ← orReturn (listed.mapError fun why =>
    s!"cannot list '{a.options.versionRoot}': {why}")
  let removed ← removeEntries a.versionRoot entries.items 0
  match entries.broken with
  | some why => throw (.said s!"cannot walk '{a.options.versionRoot}': {why}")
  | none =>
      setReport s!"removed {removed} version directories from '{a.options.versionRoot}'"

def cleanOldVersion (_message : String) : Handler := do
  demand (a.options.versionRoot ≠ "") "version_root is not configured"
  let there ← onFile (.isDirectory a.versionRoot)
  if there then
    demandApart a
    removeVersions a
  else
    setReport
      s!"version_root '{a.options.versionRoot}' is not a directory — nothing to clean"

/-! ## Status -/

/-- The nearest directory above `p` that exists. -/
def nearest : Nat → Path → Act agent Memory Failure Path
  | 0, p => pure p
  | n + 1, p => do
      let there ← onFile (.exists_ p)
      if there then pure p else nearest n p.dropLast

def startPath : Act agent Memory Failure (Option Path) :=
  if a.options.versionRoot = "" then call .currentPath else pure (some a.versionRoot)

def probePath : Act agent Memory Failure (Option Path) := do
  let start ← startPath a
  match start with
  | none => call .currentPath
  | some p => do
      let target ← nearest p.length p
      let there ← onFile (.exists_ target)
      if there then pure (some target) else call .currentPath

def versionNames (root : Path) : List String → Act agent Memory Failure (List Json)
  | [] => pure []
  | name :: rest => do
      let dir ← onFile (.isDirectory (root ++ [name]))
      let names ← versionNames root rest
      pure (if dir then .string name :: names else names)

def hasVersions : Act agent Memory Failure Bool :=
  if a.options.versionRoot = "" then pure false else onFile (.isDirectory a.versionRoot)

/-- The downloads, and the error that ended their listing. -/
def downloadedVersions : Act agent Memory Failure (List Json × Option String) := do
  let there ← hasVersions a
  if there then
    let listed ← onFile (.list a.versionRoot)
    match listed with
    | .error why => pure ([], some why)
    | .ok entries => do
        let names ← versionNames a.versionRoot entries.items
        pure (names, entries.broken)
  else pure ([], none)

def currentStatus (_message : String) : Handler := do
  let target ← probePath a
  let probed := (target.map Path.text).getD ""
  let asked ← call (.space target)
  let space ← orReturn (asked.mapError fun why =>
    s!"cannot query disk space for '{probed}': {why}")
  let cores ← call .hardwareConcurrency
  let (versions, broken) ← downloadedVersions a
  setReport (a.codec.serialize (.object
    ([("device_id", .string a.options.deviceId), ("group", .string a.options.group),
      ("version_root", .string a.options.versionRoot),
      ("disk_probe_path", .string probed),
      ("disk_capacity_bytes", .uint64 space.capacity), ("disk_free_bytes", .uint64 space.free),
      ("disk_available_bytes", .uint64 space.available),
      ("hardware_concurrency", .uint64 cores)] ++
      (broken.map fun why => ("downloaded_versions_error", Json.string why)).toList ++
      [("downloaded_versions", .array versions)])))

/-! ## The engine's commands -/

def noEngine : String :=
  "deployment engine is not configured (service_root or service.executable is missing)"

def orNoEngine : Act agent Memory Failure Deploy.Config :=
  orPermanent (match a.engine with
    | some cfg => .ok cfg
    | none => .error noEngine)

/-- An error of the engine is final; an exception of its installer goes on. -/
def orEngineError : Except EngineError Unit → Handler
  | .ok _ => pure ()
  | .error (.installer (.threw what)) => throw (.threw what)
  | .error e => permanent e.text

/-- Have the engine do something; its success is reported in its words. -/
def throughEngine (p : Deploy.Task Unit) : Handler := do
  let done ← attempt (onEngine p)
  orEngineError done
  let memory ← load
  setReport memory.engine.lastDetail

def applyVersion (message : String) : Handler := do
  let object ← orPermanent (parseObject a.codec message)
  let releaseId ← orPermanent (validatedReleaseId object)
  let cfg ← orNoEngine a
  let source := a.versionDirectory releaseId
  let there ← onFile (.isDirectory source)
  demand there s!"version '{releaseId}' is not downloaded (expected '{source.text}')"
  throughEngine (Deploy.apply cfg releaseId source)

def rollbackVersion (message : String) : Handler := do
  let object ← orPermanent (parseObject a.codec message)
  let releaseId ← orPermanent (validatedReleaseId object)
  let cfg ← orNoEngine a
  throughEngine (Deploy.rollbackTo cfg releaseId)

def restartService (_message : String) : Handler := do
  let cfg ← orNoEngine a
  throughEngine (Deploy.restart cfg)

def rebootDevice (_message : String) : Handler := do
  demand a.system "rebooting is not available on this platform"
  let requested ← call .requestReboot
  orPermanent requested
  setReport s!"reboot scheduled in {kRebootDelayMinutes} minute(s)"

/-! ## Configuration files -/

/-- `active_release_directory` -/
def activeReleaseDirectory (cfg : Deploy.Config) : Deploy.Task Path := do
  require cfg.configured .notConfigured
  let current ← installing (Install.state cfg.installer)
  require (current.active ≠ "") .noActiveRelease
  pure (cfg.installer.releaseDirectory current.active)

def readJsonObject (p : Path) : Act agent Memory Failure (Except String Json.Fields) := do
  let source ← onFile (.read p)
  match source with
  | none => pure (.error s!"cannot open '{p.text}'")
  | some buffer =>
      match buffer.parse with
      | none => pure (.error s!"cannot parse '{p.text}': syntax error")
      | some parsed =>
          match parsed.object? with
          | none => pure (.error s!"'{p.text}' is not a JSON object")
          | some object => pure (.ok object)

/-- The temporary file is opened, which empties it, and then written. -/
def writeJsonObject (p : Path) (document : Json.Fields) : Handler := do
  let temporary := Path.suffixed p ".tmp"
  let opened ← onFile (.write temporary (.text ""))
  orReturn (opened.mapError fun _ => s!"cannot open '{temporary.text}' for writing")
  let written ← onFile (.write temporary (.json (.object document)))
  match written with
  | .error _ => do
      let _ ← onFile (.remove temporary)
      throw (.said s!"cannot write '{temporary.text}'")
  | .ok _ => do
      let replaced ← onFile (.rename temporary p)
      match replaced with
      | .error why => do
          let _ ← onFile (.remove temporary)
          throw (.said s!"cannot replace '{p.text}': {why}")
      | .ok _ => pure ()

/-- What a payload of `update_configuration` asks for: a path, and the
values to merge. -/
def configurationRequest (object : Json.Fields) : Except String (String × Json.Fields) := do
  let relative ← readString object "path"
  (validateReleaseRelativePath relative "path").mapError EngineError.text
  match Json.readObject object "values" with
  | none => .error "payload requires a 'values' object"
  | some values => pure (relative, values)

def updateConfiguration (message : String) : Handler := do
  let object ← orPermanent (parseObject a.codec message)
  let (relative, values) ← orPermanent (configurationRequest object)
  let cfg ← orNoEngine a
  let found ← attempt (onEngine (activeReleaseDirectory cfg))
  let releaseRoot ← orPermanent (found.mapError EngineError.text)
  let target := Path.join releaseRoot relative
  let there ← onFile (.isRegularFile target)
  demand (there && !Path.namesDirectory relative)
    s!"configuration '{relative}' is not a file in the active release"
  let loaded ← readJsonObject target
  let document ← orPermanent loaded
  let merged := Json.mergeObject values document
  writeJsonObject target merged.1
  setReport
    s!"updated {merged.2} key(s) in '{relative}' — the service reads it on the next start (restart_service)"

/-! ## Handling a message -/

def messages : List (String × (String → Handler)) :=
  [(Commands.kDownloadVersion, downloadVersion a), (Commands.kApplyVersion, applyVersion a),
    (Commands.kCurrentStatus, currentStatus a), (Commands.kCleanOldVersion, cleanOldVersion a),
    (Commands.kRollbackVersion, rollbackVersion a),
    (Commands.kUpdateConfiguration, updateConfiguration a),
    (Commands.kRestartService, restartService a), (Commands.kRebootDevice, rebootDevice a)]

/-- Where a report goes. -/
def destination (replyQueueUrl : String) : String :=
  if replyQueueUrl = "" then a.options.resultQueueUrl else replyQueueUrl

def reportBody (command : String) (outcome : Except String Unit) (lastReport : String) :
    Json.Fields :=
  [("device_id", .string a.options.deviceId), ("group", .string a.options.group),
    ("command", .string command),
    ("success", .bool (match outcome with
      | .ok _ => true
      | .error _ => false)),
    ("detail", .string (match outcome with
      | .ok _ => lastReport
      | .error e => e))]

def report (command replyQueueUrl : String) (outcome : Except String Unit) :
    Act agent Memory String Unit :=
  if !a.publisher || destination a replyQueueUrl = "" then pure ()
  else do
    let memory ← load
    let _ ← call (.send (destination a replyQueueUrl)
      (a.codec.serialize (.object (reportBody a command outcome memory.lastReport))))
    pure ()

/-- How far a message got, and for a handler that ran, how it ended and
whether it said that a retry is useless. -/
inductive Verdict where
  | unparsed (reason : String)
  | misrouted (message : AgentMessage) (reason : String)
  | unknown (message : AgentMessage) (reason : String)
  | ran (message : AgentMessage) (outcome : Except String Unit) (permanent : Bool)

/-- What a handler returned; an exception leaves `handle` too. -/
def returned : Except Failure Unit → Act agent Memory String (Except String Unit)
  | .ok u => pure (.ok u)
  | .error (.said reason) => pure (.error reason)
  | .error (.threw what) => throw what

/-- The message as far as its report. -/
def dispatch (rawMessage : String) : Act agent Memory String Verdict :=
  match parseAgentMessage a.codec rawMessage with
  | .error e => do
      report a "" "" (.error e)
      pure (.unparsed e)
  | .ok message =>
      if message.targetGroup ≠ "" && message.targetGroup ≠ a.options.group then do
        let reason := s!"command '{message.command}' targets group '{message.targetGroup}' but this device is in group '{a.options.group}'"
        report a message.command message.replyQueueUrl (.error reason)
        pure (.misrouted message reason)
      else
        match (messages a).lookup message.command with
        | none => do
            let reason := s!"command is not found: {message.command}"
            report a message.command message.replyQueueUrl (.error reason)
            pure (.unknown message reason)
        | some handler => do
            let memory ← load
            store { memory with failureIsPermanent := false }
            let ended ← attempt (handler message.payload)
            let outcome ← returned ended
            report a message.command message.replyQueueUrl outcome
            let memory ← load
            pure (.ran message outcome memory.failureIsPermanent)

namespace Memory

/-- `record_failure`: the memory afterwards; the attempts are in it. -/
def recordFailure (m : Memory) (rawMessage : String) : Memory :=
  if m.failingMessage ≠ rawMessage then
    { m with failingMessage := rawMessage, failingAttempts := 1 }
  else { m with failingAttempts := m.failingAttempts + 1 }

def forgetFailure (m : Memory) : Memory := { m with failingMessage := "", failingAttempts := 0 }

end Memory

/-- The end of `handle`: the message is done with, or comes again. -/
def settle (rawMessage : String) : Verdict → Act agent Memory String Unit
  | .ran _ (.error reason) false => do
      let memory ← load
      let counted := memory.recordFailure rawMessage
      if counted.failingAttempts ≥ kMaxTransientAttempts then store counted.forgetFailure
      else do
        store counted
        throw reason
  | _ => do
      let memory ← load
      store memory.forgetFailure

def handle (rawMessage : String) : Act agent Memory String Unit := do
  let verdict ← dispatch a rawMessage
  settle rawMessage verdict

/-- What `main` does first; a release that cannot be resumed stops nothing. -/
def resumeActive : Act agent Memory String Unit :=
  match a.engine with
  | none => pure ()
  | some cfg => do
      let _ ← attempt (onEngine (startActive cfg))
      pure ()

/-- The agent as `main` runs it. -/
def AgentService.service : Service agent Memory String (Except String Unit) where
  fresh := {}
  boot := (resumeActive a).run
  serve rawMessage := (handle a rawMessage).run

/-! ## A small agent

The agent of the concrete runs below. -/

namespace Sample

/-- A library that knows a few texts. -/
def codec (texts : List (String × Json)) : Codec where
  parse s :=
    match texts.lookup s with
    | some v => .ok v
    | none => .error "syntax error"
  serialize v := ((texts.find? fun t => Json.same t.2 v).map Prod.fst).getD ""

/-- The downloads stand beside the service. -/
def configurations : Configurations where
  deviceId := "dev-1"
  queueUrl := "commands"
  resultQueueUrl := "results"
  s3Bucket := "bucket"
  versionRoot := "/versions"
  serviceRoot := "/srv"
  serviceExecutable := "app"

/-- A device with nothing on it. -/
def host : Host where
  device := .idle .bare "boot"

/-- A call that fails. -/
def failing : Turn := { chance := { fault := some "unreachable" } }

end Sample

end Yirang.Agent
