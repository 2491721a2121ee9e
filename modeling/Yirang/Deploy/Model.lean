/-
# `Yirang.Deploy.Model` — the deployment engine

`DeploymentEngine` runs one instance of a service from its active release.
It remembers the handle of that instance and a line about what it did last;
everything else is on the disk: the installer's `state.json`, and
`runtime.json`, the record from which the next agent adopts the instance.

The functions are those of `DeploymentEngine.cpp`, call by call.

    launch       start the instance of a release and record it
    stop         end the instance and clear the record
    resume       adopt the recorded instance, if it lives
    startActive  resume, or else launch
    recover      after a failed release: stop, roll back, launch
    apply        install, stop, activate, launch, wait for it, prune
    rollbackTo   stop, activate, launch
    restart      stop, launch, wait for it

`awaitReady` sleeps until a deadline.  Time is not modelled: how often its
loop turns is an answer of the device.
-/
import Yirang.Health
import Yirang.Install.Model

namespace Yirang.Deploy

open Fs Effect Device Install Health

structure ServiceSpec where
  executable : String
  arguments : List String := []
  workingDirectory : String := ""
  stopTimeout : Int := 30
  startupTimeout : Int := 60

structure RuntimeRecord where
  releaseId : String := ""
  processId : Int := 0
  startToken : BitVec 64 := 0
  bootIdentity : String := ""
deriving DecidableEq

/-- What an engine is made from.  `configured` is false where the installer
or the supervisor is missing. -/
structure Config where
  configured : Bool := true
  installer : InstallOptions
  service : ServiceSpec
  health : HealthCheckSpec := {}

/-- What an engine remembers. -/
structure Engine where
  handle : Option ProcessHandle := none
  lastDetail : String := ""

inductive EngineError where
  | notConfigured
  | executableNotConfigured
  | pathEmpty (label : String)
  | pathOutside (label path : String)
  | installer (e : InstallError)
  | supervisor (why : String)
  | bootIdentity (why : String)
  | noActiveRelease
  | notInstalled (releaseId : String)
  | executableMissing (executable : String)
  | cannotMakeExecutable (executable why : String)
  | cannotOpen (p : Path)
  | cannotWrite (p : Path)
  | cannotPublish (p : Path) (why : String)
  | cannotRemove (p : Path) (why : String)
  | unreadable (reason : String) (e : EngineError)
  | notRecorded (releaseId : String) (e : EngineError)
  | noProbe
  | healthFailed (why : String)
  | notReady (timeout : Int) (last : String)
  | cannotStop (e : EngineError)
  | cannotStopAdopted (releaseId : String) (e : EngineError)
  | cannotActivate (releaseId : String) (e : InstallError) (restored : Bool)
  | rolledBackToButDidNotStart (releaseId : String) (e : EngineError)
  | didNotRestart (releaseId : String) (e : EngineError)
  | restartedNotReady (releaseId : String) (e : EngineError)
  | failedReleaseDidNotStop (reason : String) (e : EngineError)
  | noRollbackTarget (reason : String) (e : InstallError)
  | rolledBackButDidNotStart (reason target : String) (e : EngineError)
  | rolledBack (reason target : String)
deriving DecidableEq

def EngineError.text : EngineError → String
  | notConfigured => "deployment engine is not configured"
  | executableNotConfigured =>
      "service.executable is not configured — the agent does not know what to run"
  | pathEmpty label => s!"{label} is empty"
  | pathOutside label path =>
      s!"{label} '{path}' must be a relative path inside the release directory"
  | installer e => e.text
  | supervisor why => why
  | bootIdentity why => why
  | noActiveRelease => "no active release to start"
  | notInstalled r => s!"cannot roll back to '{r}': it is not installed"
  | executableMissing x => s!"executable '{x}' is missing from the release"
  | cannotMakeExecutable x why => s!"cannot make '{x}' executable: {why}"
  | cannotOpen p => s!"cannot open '{p.text}'"
  | cannotWrite p => s!"cannot write '{p.text}'"
  | cannotPublish p why => s!"cannot publish '{p.text}': {why}"
  | cannotRemove p why => s!"cannot remove '{p.text}': {why}"
  | unreadable reason e => s!"{reason} and {e.text}"
  | notRecorded r e => s!"started '{r}' but cannot record the running instance: {e.text}"
  | noProbe => "cannot build a health probe for the started process"
  | healthFailed why => why
  | notReady t last => s!"readiness not confirmed within {t}s: {last}"
  | cannotStop e => s!"cannot stop the running service: {e.text}"
  | cannotStopAdopted r e => s!"cannot stop the adopted instance of '{r}': {e.text}"
  | cannotActivate r e restored =>
      s!"cannot activate '{r}': {e.text}" ++
        if restored then " (previous release restarted)"
        else " (previous release did not restart)"
  | rolledBackToButDidNotStart r e => s!"rolled back to '{r}' but it did not start: {e.text}"
  | didNotRestart r e => s!"'{r}' did not restart: {e.text}"
  | restartedNotReady r e => s!"'{r}' restarted but did not become ready: {e.text}"
  | failedReleaseDidNotStop reason e =>
      s!"{reason}; and the failed release did not stop: {e.text}"
  | noRollbackTarget reason e => s!"{reason}; and no rollback target exists: {e.text}"
  | rolledBackButDidNotStart reason r e =>
      s!"{reason}; rolled back to '{r}' but it did not start: {e.text}"
  | rolledBack reason r => s!"{reason}; rolled back to '{r}'"

abbrev Task (α : Type) := Act device Engine EngineError α

def setHandle (handle : Option ProcessHandle) : Task Unit := do
  let engine ← load
  store { engine with handle }

def setDetail (lastDetail : String) : Task Unit := do
  let engine ← load
  store { engine with lastDetail }

/-- A step of the installer, its error passed on. -/
def installing {α : Type} (p : Step α) : Task α := rewording .installer (zoom Lens.nothing p)

/-- A step of the installer, and how it ended. -/
def tryInstalling {α : Type} (p : Step α) : Task (Except InstallError α) :=
  attempt (zoom Lens.nothing p)

/-! ## The executable -/

def validateReleaseRelativePath (path label : String) : Except EngineError Unit :=
  if path = "" then .error (.pathEmpty label)
  else if Path.isAbsolute path || (lexicallyNormal path).head? = some ".." then
    .error (.pathOutside label path)
  else .ok ()

namespace Config

variable (cfg : Config)

def validateServiceExecutable : Except EngineError Unit :=
  if cfg.service.executable = "" then .error .executableNotConfigured
  else validateReleaseRelativePath cfg.service.executable "service.executable"

def recordPath : Path := cfg.installer.root ++ ["runtime.json"]

def recordTemporary : Path := cfg.installer.root ++ ["runtime.json.tmp"]

/-- The executable of a release. -/
def executable (releaseId : String) : Path :=
  Path.join (cfg.installer.releaseDirectory releaseId) cfg.service.executable

def startOptions (releaseId : String) : ProcessStartOptions where
  executablePath := cfg.executable releaseId
  arguments := cfg.service.arguments
  workingDirectory :=
    if cfg.service.workingDirectory = "" then (cfg.installer.releaseDirectory releaseId).text
    else cfg.service.workingDirectory

end Config

/-! ## The record of the running instance -/

namespace RuntimeRecord

/-- A member is taken to hold no NUL, where the code's `c_str` would end it. The ids of messages
hold none. -/
def ofFields (root : Json.Fields) : RuntimeRecord where
  releaseId := (Json.readString root "release_id").getD ""
  processId := (Json.readInt64 root "process_id").getD 0
  startToken := ((Json.readInt64 root "start_token").map (BitVec.ofInt 64)).getD 0
  bootIdentity := (Json.readString root "boot_identity").getD ""

/-- The token is written as a signed number. -/
def toJson (r : RuntimeRecord) : Json :=
  .object [("release_id", .string r.releaseId), ("process_id", .int64 r.processId),
    ("start_token", .int64 r.startToken.toInt), ("boot_identity", .string r.bootIdentity)]

/-- What a text in the record file says, or why it says nothing. -/
def load (p : Path) (c : Content) : Except String RuntimeRecord :=
  match c.parse with
  | none => .error s!"cannot parse '{p.text}': syntax error"
  | some v =>
      match v.object? with
      | none => .error s!"'{p.text}' root is not a JSON object"
      | some root => .ok (ofFields root)

end RuntimeRecord

section

variable (cfg : Config)

def clearRecord : Task Unit :=
  orFail (file (.remove cfg.recordPath)) (.cannotRemove cfg.recordPath)

def writeRecord (next : RuntimeRecord) : Task Unit := do
  orFail (file (.write cfg.recordTemporary (.json next.toJson)))
    (fun _ => .cannotWrite cfg.recordTemporary)
  let published ← file (.rename cfg.recordTemporary cfg.recordPath)
  match published with
  | .ok _ => pure ()
  | .error why => do
      let _ ← file (.remove cfg.recordTemporary)
      throw (.cannotPublish cfg.recordPath why)

def unreadableRecord (reason : String) : Task RuntimeRecord := do
  setDetail reason
  rewording (.unreadable reason) (clearRecord cfg)
  pure {}

def record : Task RuntimeRecord := do
  let there ← file (.exists_ cfg.recordPath)
  if there then
    let source ← file (.read cfg.recordPath)
    match source with
    | none => throw (.cannotOpen cfg.recordPath)
    | some buffer =>
        match RuntimeRecord.load cfg.recordPath buffer with
        | .error reason => unreadableRecord cfg reason
        | .ok loaded => pure loaded
  else pure {}

/-! ## Starting and stopping -/

def stop : Task Unit := do
  let engine ← load
  match engine.handle with
  | none => pure ()
  | some handle => do
      orFail (ask (E := device) (.stop handle cfg.service.stopTimeout)) .supervisor
      setHandle none
      clearRecord cfg

/-- The adopted instance stays if it is of the release to be run. -/
def keepOrStop (releaseId : String) (recorded : RuntimeRecord) (taken : ProcessHandle) :
    Task Unit := do
  setHandle (some taken)
  if recorded.releaseId = releaseId then
    setDetail s!"adopted the running instance of '{releaseId}' (pid {taken.id})"
  else
    rewording (.cannotStopAdopted recorded.releaseId) (stop cfg)
    setDetail
      s!"stopped the adopted instance of '{recorded.releaseId}' before starting '{releaseId}'"

def adoptRecorded (releaseId : String) (recorded : RuntimeRecord) : Task Unit := do
  let taken ← ask (E := device) (.adopt ⟨recorded.processId, recorded.startToken⟩)
  match taken with
  | .error why => do
      setDetail s!"the recorded instance of '{recorded.releaseId}' is gone: {why}"
      clearRecord cfg
  | .ok taken => keepOrStop cfg releaseId recorded taken

/-- A record is followed within one boot only. -/
def followRecord (releaseId : String) (recorded : RuntimeRecord) : Task Unit := do
  let identity ← orFail (ask (E := device) .bootIdentity) .bootIdentity
  if identity ≠ recorded.bootIdentity then
    setDetail s!"the recorded instance of '{recorded.releaseId}' belongs to an earlier boot"
    clearRecord cfg
  else adoptRecorded cfg releaseId recorded

def resume (releaseId : String) : Task Unit := do
  let recorded ← record cfg
  if recorded.processId ≤ 0 then pure ()
  else followRecord cfg releaseId recorded

/-- The owner may execute the file afterwards, if its mode can be read. -/
def makeExecutable (executable : Path) : Task Unit := do
  let mode ← file (.ownerExec executable)
  provided (mode = some false)
    (orFail (file (.addExec executable)) (.cannotMakeExecutable cfg.service.executable))

/-- The instance runs: it is held, and recorded. -/
def recordStarted (releaseId : String) (started : ProcessHandle) : Task Unit := do
  setHandle (some started)
  let identity ← orFail (ask (E := device) .bootIdentity) .bootIdentity
  rewording (.notRecorded releaseId) <|
    writeRecord cfg
      { releaseId, processId := started.id, startToken := started.startToken,
        bootIdentity := identity }

def launch (releaseId : String) : Task Unit := do
  conclude cfg.validateServiceExecutable
  let there ← file (.exists_ (cfg.executable releaseId))
  require there (.executableMissing cfg.service.executable)
  makeExecutable cfg (cfg.executable releaseId)
  let started ← orFail (ask (E := device) (.start (cfg.startOptions releaseId))) .supervisor
  recordStarted cfg releaseId started

def startActive : Task Unit := do
  require cfg.configured .notConfigured
  let current ← installing (state cfg.installer)
  require (current.active ≠ "") .noActiveRelease
  resume cfg current.active
  let engine ← load
  match engine.handle with
  | some _ => pure ()
  | none => launch cfg current.active

/-! ## Waiting for the instance -/

/-- The probe of the kind the service asks for; none where the process to be
watched is not known. -/
def makeProbe (handle : Option ProcessHandle) : Option (Task (Except String Unit)) :=
  match cfg.health.kind, handle with
  | .process, none => none
  | .process, some handle => some do
      let status ← ask (E := device) (.status handle)
      pure (processProbe handle status)
  | _, _ => some (ask (E := device) .networkProbe)

def awaitTurns (probe : Task (Except String Unit)) : Nat → HealthChecker → Task Unit
  | 0, checker =>
      throw (.notReady cfg.service.startupTimeout
        (checker.lastError.getD "no successful probe"))
  | n + 1, checker => do
      let result ← probe
      let checker := checker.evaluate (some result)
      if checker.state = .healthy then pure ()
      else if checker.state = .unhealthy then
        throw (.healthFailed (checker.lastError.getD "health check failed"))
      else awaitTurns probe n checker

def awaitReady : Task Unit := do
  let engine ← load
  match makeProbe cfg engine.handle with
  | none => throw .noProbe
  | some probe => do
      let turns ← ask (E := device) (.turns cfg.service.startupTimeout cfg.health.interval)
      awaitTurns cfg probe turns (HealthChecker.ofSpec cfg.health)

/-! ## Operations -/

def recover (reason : String) : Task Unit := do
  rewording (.failedReleaseDidNotStop reason) (stop cfg)
  let reverted ← tryInstalling (rollback cfg.installer)
  match reverted with
  | .error e => throw (.noRollbackTarget reason e)
  | .ok target => do
      rewording (.rolledBackButDidNotStart reason target) (launch cfg target)
      setDetail (EngineError.rolledBack reason target).text
      throw (.rolledBack reason target)

/-- What `apply` does once the pointer names the new release. -/
def settleIn (releaseId : String) : Task Unit := do
  let launched ← attempt (launch cfg releaseId)
  match launched with
  | .error e => recover cfg s!"cannot start '{releaseId}': {e.text}"
  | .ok _ => do
      let ready ← attempt (awaitReady cfg)
      match ready with
      | .error e => recover cfg s!"'{releaseId}' did not become ready: {e.text}"
      | .ok _ => do
          let pruned ← tryInstalling (prune cfg.installer)
          setDetail (s!"applied release '{releaseId}'" ++
            match pruned with
            | .ok n => s!" (pruned {n} old release(s))"
            | .error _ => "")

def apply (releaseId : String) (source : Path) : Task Unit := do
  require cfg.configured .notConfigured
  conclude cfg.validateServiceExecutable
  installing (install cfg.installer releaseId source)
  let _ ← installing (state cfg.installer)
  rewording .cannotStop (stop cfg)
  let activated ← tryInstalling (activate cfg.installer releaseId)
  match activated with
  | .error e => do
      let restored ← attempt (startActive cfg)
      throw (.cannotActivate releaseId e (restored matches .ok _))
  | .ok _ => settleIn cfg releaseId

def rollbackTo (releaseId : String) : Task Unit := do
  require cfg.configured .notConfigured
  conclude cfg.validateServiceExecutable
  let there ← file (.isDirectory (cfg.installer.releaseDirectory releaseId))
  require there (.notInstalled releaseId)
  rewording .cannotStop (stop cfg)
  installing (activate cfg.installer releaseId)
  rewording (.rolledBackToButDidNotStart releaseId) (launch cfg releaseId)
  setDetail s!"rolled back to release '{releaseId}'"

def restart : Task Unit := do
  require cfg.configured .notConfigured
  conclude cfg.validateServiceExecutable
  let current ← installing (state cfg.installer)
  require (current.active ≠ "") .noActiveRelease
  rewording .cannotStop (stop cfg)
  rewording (.didNotRestart current.active) (launch cfg current.active)
  rewording (.restartedNotReady current.active) (awaitReady cfg)
  setDetail s!"restarted release '{current.active}'"

/-! ## The engine as a service -/

inductive Command where
  | apply (releaseId : String) (source : Path)
  | rollbackTo (releaseId : String)
  | startActive
  | restart
  | stop
deriving DecidableEq

def Config.serve : Command → Task Unit
  | .apply releaseId source => Deploy.apply cfg releaseId source
  | .rollbackTo releaseId => Deploy.rollbackTo cfg releaseId
  | .startActive => Deploy.startActive cfg
  | .restart => Deploy.restart cfg
  | .stop => Deploy.stop cfg

/-- A fresh engine begins by resuming the active release, as `main` does. -/
def Config.engine : Service device Engine Command (Except EngineError Unit) where
  fresh := {}
  boot := (Deploy.startActive cfg).run
  serve c := (cfg.serve c).run

end

/-! ## A small device

The service of the concrete runs below: its root is `/srv`, and it runs the
file `app` of a release. -/

namespace Sample

def cfg : Config where
  installer := { serviceRoot := "/srv" }
  service := { executable := "app" }

/-- `r1` is installed and active. -/
def world : World :=
  .idle (.ofFiles
    [(["srv", "releases", "r1", "app"], .text "one"),
      (["srv", "state.json"], .json (ActivationState.toJson ⟨"r1", "", "then"⟩))]) "boot"

/-- The call that starts a process gets this handle. -/
def handle : ProcessHandle := ⟨7, 9⟩

/-- The choices of a `startActive` that launches: the sixth call is the
start. -/
def launching : List Choice :=
  List.replicate 5 ({} : Choice) ++ [({ handle } : Choice)] ++ List.replicate 3 ({} : Choice)

/-- A run of `n` calls that go well, but for these. -/
def choices (n : Nat) (special : List (Nat × Choice)) : List Choice :=
  (List.range n).map fun i => (special.lookup i).getD {}

/-- A call that fails. -/
def failing (why : String) : Choice := { chance := { fault := some why } }

/-- A downloaded release on a device without a service. -/
def fetched : World := .idle (.ofFiles [(["src", "app"], .text "two")]) "boot"

/-- The same beside the active `r1`. -/
def serving : World :=
  .idle (.ofFiles
    [(["srv", "releases", "r1", "app"], .text "one"),
      (["srv", "state.json"], .json (ActivationState.toJson ⟨"r1", "", "then"⟩)),
      (["src", "app"], .text "two")]) "boot"

end Sample

end Yirang.Deploy
