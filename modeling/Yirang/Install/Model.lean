/-
# `Yirang.Install.Model` — the release installer

`ReleaseInstaller` keeps the releases of one service below its root:

    <service_root>/releases/<id>             one directory a release
    <service_root>/releases/.staging-<id>    a copy under way
    <service_root>/releases/.retired-<id>    a copy being replaced
    <service_root>/state.json                which release is active
    <service_root>/current                   a link, for people

The functions are those of `ReleaseInstaller.cpp`, call by call.  The
installer has no memory of its own: all it knows it reads from the disk.

Two details of the source matter below.  `state` asks `exists` with an error
code and does not look at the code, so a `stat` that fails reads as "no
state".  And `sweep_retired` walks its directory with a range-for, whose
increment throws: that exception leaves `install` without `discard`
(`InstallError.threw`).
-/
import Yirang.Device
import Mathlib.Data.List.Sort

namespace Yirang

open Fs Effect Device

namespace Install

/-! ## Names -/

def kStagingPrefix : String := ".staging-"

def kRetiredPrefix : String := ".retired-"

/-- `name.rfind(prefix, 0) == 0` -/
def startsWith (name start : String) : Bool := start.toList.isPrefixOf name.toList

def isInternalName (name : String) : Bool :=
  startsWith name kStagingPrefix || startsWith name kRetiredPrefix

structure InstallOptions where
  serviceRoot : String
  keepPreviousReleases : Int := 2

structure ActivationState where
  active : String := ""
  previous : String := ""
  updatedAt : String := ""
deriving DecidableEq

inductive InstallError where
  | serviceRootNotConfigured
  | releaseIdRequired
  | releaseIdSeparator (releaseId : String)
  | releaseIdReference (releaseId : String)
  | releaseIdDrive (releaseId : String)
  | notDownloaded (releaseId : String) (source : Path)
  | cannotCreateStaging (staging : Path) (why : String)
  | cannotList (p : Path) (why : String)
  | cannotResolve (p : Path) (why : String)
  | escapesRoot (relative : Path)
  | cannotPlace (relative : Path) (why : String)
  | cannotWalk (p : Path) (why : String)
  | noFiles (releaseId : String)
  | threw (why : String)
  | cannotClear (retired : Path) (why : String)
  | cannotSetAside (target : Path) (why : String)
  | cannotPublish (p : Path) (why : String)
  | leftAside (target : Path) (why : String) (retired : Path)
  | notInstalled (releaseId : String) (expected : Path)
  | noPreviousRelease
  | previousNotInstalled (releaseId : String)
  | cannotOpen (p : Path)
  | cannotParse (p : Path) (why : String)
  | notAnObject (p : Path)
  | cannotCreate (p : Path) (why : String)
  | cannotWrite (p : Path)
  | cannotRemove (p : Path) (why : String)
deriving DecidableEq

/-- The text of a relative path. -/
def relativeText (p : Path) : String := "/".intercalate p

def InstallError.text : InstallError → String
  | serviceRootNotConfigured => "service_root is not configured"
  | releaseIdRequired => "release_id is required"
  | releaseIdSeparator r => s!"release_id must not contain a path separator: '{r}'"
  | releaseIdReference r =>
      s!"release_id must not be a path reference or an internal name: '{r}'"
  | releaseIdDrive r => s!"release_id must not be a drive path: '{r}'"
  | notDownloaded r s => s!"release '{r}' is not downloaded (expected '{s.text}')"
  | cannotCreateStaging s why => s!"cannot create staging directory '{s.text}': {why}"
  | cannotList p why => s!"cannot list '{p.text}': {why}"
  | cannotResolve p why => s!"cannot resolve '{p.text}': {why}"
  | escapesRoot p => s!"release file escapes the install root: '{relativeText p}'"
  | cannotPlace p why => s!"cannot place '{relativeText p}': {why}"
  | cannotWalk p why => s!"cannot walk '{p.text}': {why}"
  | noFiles r => s!"release '{r}' has no files to install"
  | threw why => why
  | cannotClear p why => s!"cannot clear '{p.text}': {why}"
  | cannotSetAside p why => s!"cannot set '{p.text}' aside: {why}"
  | cannotPublish p why => s!"cannot publish '{p.text}': {why}"
  | leftAside t why p =>
      s!"cannot publish '{t.text}': {why} (the release it replaces is left at '{p.text}')"
  | notInstalled r p => s!"release '{r}' is not installed (expected '{p.text}')"
  | noPreviousRelease => "no previous release to roll back to"
  | previousNotInstalled r => s!"previous release '{r}' is no longer installed"
  | cannotOpen p => s!"cannot open '{p.text}'"
  | cannotParse p why => s!"cannot parse '{p.text}': {why}"
  | notAnObject p => s!"'{p.text}' root is not a JSON object"
  | cannotCreate p why => s!"cannot create '{p.text}': {why}"
  | cannotWrite p => s!"cannot write '{p.text}'"
  | cannotRemove p why => s!"cannot remove '{p.text}': {why}"

def validateReleaseId (releaseId : String) : Except InstallError Unit :=
  if releaseId = "" then .error .releaseIdRequired
  else if releaseId.toList.contains '/' || releaseId.toList.contains '\\' then
    .error (.releaseIdSeparator releaseId)
  else if releaseId = "." || releaseId = ".." || isInternalName releaseId then
    .error (.releaseIdReference releaseId)
  else if Path.namesDrive releaseId then .error (.releaseIdDrive releaseId)
  else .ok ()

/-! ## Paths -/

namespace InstallOptions

variable (o : InstallOptions)

def root : Path := Path.join [] o.serviceRoot

def releasesRoot : Path := o.root ++ ["releases"]

def statePath : Path := o.root ++ ["state.json"]

def stateTemporary : Path := o.root ++ ["state.json.tmp"]

def currentLink : Path := o.root ++ ["current"]

def releaseDirectory (releaseId : String) : Path := Path.join o.releasesRoot releaseId

def retiredDirectory (releaseId : String) : Path :=
  Path.join o.releasesRoot (kRetiredPrefix ++ releaseId)

def stagingDirectory (releaseId : String) : Path :=
  Path.join o.releasesRoot (kStagingPrefix ++ releaseId)

/-- `std::format("{}.{}", retired, stamp)` -/
def stampedDirectory (releaseId : String) (stamp : Int) : Path :=
  o.releasesRoot ++ [kRetiredPrefix ++ releaseId ++ "." ++ toString stamp]

end InstallOptions

abbrev Step (α : Type) := Act device Unit InstallError α

/-! ## The state file -/

namespace ActivationState

/-- A member is taken to hold no NUL, where the code's `c_str` would end it. The ids of messages
hold none. -/
def ofFields (root : Json.Fields) : ActivationState where
  active := (Json.readString root "active").getD ""
  previous := (Json.readString root "previous").getD ""
  updatedAt := (Json.readString root "updated_at").getD ""

def toJson (s : ActivationState) : Json :=
  .object [("active", .string s.active), ("previous", .string s.previous),
    ("updated_at", .string s.updatedAt)]

/-- What a text in the state file says. -/
def load (p : Path) (c : Content) : Except InstallError ActivationState :=
  match c.parse with
  | none => .error (.cannotParse p "syntax error")
  | some v =>
      match v.object? with
      | none => .error (.notAnObject p)
      | some root => .ok (ofFields root)

end ActivationState

variable (o : InstallOptions)

def state : Step ActivationState := do
  let there ← file (.exists_ o.statePath)
  if there then
    let source ← file (.read o.statePath)
    match source with
    | none => throw (.cannotOpen o.statePath)
    | some buffer => conclude (ActivationState.load o.statePath buffer)
  else pure {}

def writeState (next : ActivationState) : Step Unit := do
  orFail (file (.createDirectories o.root)) (.cannotCreate o.root)
  orFail (file (.write o.stateTemporary (.json next.toJson)))
    (fun _ => .cannotWrite o.stateTemporary)
  let published ← file (.rename o.stateTemporary o.statePath)
  match published with
  | .ok _ => pure ()
  | .error why => do
      let _ ← file (.remove o.stateTemporary)
      throw (.cannotPublish o.statePath why)

def refreshCurrentLink (releaseId : String) : Step Unit := do
  let _ ← file (.remove o.currentLink)
  let _ ← file (.symlink ("releases/" ++ releaseId) o.currentLink)
  pure ()

def activate (releaseId : String) : Step Unit := do
  conclude (validateReleaseId releaseId)
  let there ← file (.isDirectory (o.releaseDirectory releaseId))
  require there (.notInstalled releaseId (o.releaseDirectory releaseId))
  let current ← state o
  let now ← ask (E := device) .utcNow
  writeState o
    { active := releaseId
      previous := if current.active = releaseId then current.previous else current.active
      updatedAt := now }
  refreshCurrentLink o releaseId

def rollback : Step String := do
  let current ← state o
  require (current.previous ≠ "") .noPreviousRelease
  let there ← file (.isDirectory (o.releaseDirectory current.previous))
  require there (.previousNotInstalled current.previous)
  let now ← ask (E := device) .utcNow
  writeState o { active := current.previous, previous := current.active, updatedAt := now }
  refreshCurrentLink o current.previous
  pure current.previous

/-! ## Installing -/

/-- One entry of the source: a directory is made, a file copied. -/
def place (source staging relative : Path) : Step UInt32 := do
  let relative ← orFail (file (.relative (source ++ relative) source))
    (.cannotResolve (source ++ relative))
  require (!relative.contains "..") (.escapesRoot relative)
  let dir ← file (.isDirectory (source ++ relative))
  if dir then
    orFail (file (.createDirectories (staging ++ relative))) (.cannotPlace relative)
    pure 0
  else
    orFail (file (.createDirectories (staging ++ relative).dropLast)) (.cannotPlace relative)
    orFail (file (.copyFile (source ++ relative) (staging ++ relative))) (.cannotPlace relative)
    pure 1

def placeAll (source staging : Path) : List Path → UInt32 → Step UInt32
  | [], copied => pure copied
  | relative :: rest, copied => do
      let n ← place source staging relative
      placeAll source staging rest (copied + n)

/-- The loop of `install` over a `recursive_directory_iterator`: the entry
that could not be reached ends it. -/
def copySource (releaseId : String) (source staging : Path) : Step Unit := do
  let entries ← orFail (file (.walk source)) (.cannotList source)
  let copied ← placeAll source staging entries.items 0
  match entries.broken with
  | some why => throw (.cannotWalk source why)
  | none => require (copied != 0) (.noFiles releaseId)

def sweepAll : List String → Step Unit
  | [] => pure ()
  | name :: rest => do
      let _ ← file (.removeAll (o.releasesRoot ++ [name]))
      sweepAll rest

def sweepRetired : Step Unit := do
  let entries ← file (.list o.releasesRoot)
  match entries with
  | .error _ => pure ()
  | .ok entries =>
      match entries.broken with
      | some why => throw (.threw why)
      | none => sweepAll o (entries.items.filter fun name => startsWith name kRetiredPrefix)

/-- The release that is there is moved aside. -/
def setAside (releaseId : String) : Step Unit := do
  orFail (file (.removeAll (o.retiredDirectory releaseId)))
    (.cannotClear (o.retiredDirectory releaseId))
  orFail (file (.rename (o.releaseDirectory releaseId) (o.retiredDirectory releaseId)))
    (.cannotSetAside (o.releaseDirectory releaseId))

/-- What `publish_staging` does when the rename onto the target failed. -/
def restore (releaseId : String) (replacing : Bool) (reason : String) : Step Unit := do
  if replacing then
    let restored ← file (.rename (o.retiredDirectory releaseId) (o.releaseDirectory releaseId))
    match restored with
    | .ok _ => throw (.cannotPublish (o.releaseDirectory releaseId) reason)
    | .error _ =>
        throw (.leftAside (o.releaseDirectory releaseId) reason (o.retiredDirectory releaseId))
  else throw (.cannotPublish (o.releaseDirectory releaseId) reason)

/-- The copy that was replaced goes, or gets a name of its own. -/
def dropRetired (releaseId : String) : Step Unit := do
  let cleanup ← file (.removeAll (o.retiredDirectory releaseId))
  match cleanup with
  | .ok _ => pure ()
  | .error _ => do
      let stamp ← ask (E := device) .steadyNow
      let _ ← file (.rename (o.retiredDirectory releaseId) (o.stampedDirectory releaseId stamp))
      pure ()

def publishStaging (staging : Path) (releaseId : String) : Step Unit := do
  sweepRetired o
  let replacing ← file (.exists_ (o.releaseDirectory releaseId))
  provided replacing (setAside o releaseId)
  let published ← file (.rename staging (o.releaseDirectory releaseId))
  match published with
  | .error reason => restore o releaseId replacing reason
  | .ok _ => dropRetired o releaseId

def discard (staging : Path) : Step Unit := do
  let _ ← file (.removeAll staging)
  pure ()

/-- Every error of the part is returned after `discard`; an exception is
not. -/
def discarding (staging : Path) (part : Step Unit) : Step Unit := do
  let ended ← attempt part
  match ended with
  | .ok _ => pure ()
  | .error (.threw why) => throw (.threw why)
  | .error e => do
      discard staging
      throw e

def install (releaseId : String) (source : Path) : Step Unit := do
  require (o.serviceRoot ≠ "") .serviceRootNotConfigured
  conclude (validateReleaseId releaseId)
  let there ← file (.isDirectory source)
  require there (.notDownloaded releaseId source)
  let _ ← file (.removeAll (o.stagingDirectory releaseId))
  orFail (file (.createDirectories (o.stagingDirectory releaseId)))
    (.cannotCreateStaging (o.stagingDirectory releaseId))
  discarding (o.stagingDirectory releaseId) do
    copySource releaseId source (o.stagingDirectory releaseId)
    publishStaging o (o.stagingDirectory releaseId) releaseId

/-! ## Listing and pruning -/

/-- The names of the release directories, each with its time. -/
def survey : List String → Step (List (Int × String))
  | [] => pure []
  | name :: rest => do
      let dir ← file (.isDirectory (o.releasesRoot ++ [name]))
      if dir && !isInternalName name then
        let written ← file (.lastWriteTime (o.releasesRoot ++ [name]))
        let found ← survey rest
        pure ((written.getD 0, name) :: found)
      else survey rest

/-- The newest first. -/
def byTime (found : List (Int × String)) : List String :=
  (found.insertionSort fun left right => left.1 ≥ right.1).map Prod.snd

def installed : Step (List String) := do
  let there ← file (.isDirectory o.releasesRoot)
  if there then
    let entries ← orFail (file (.list o.releasesRoot)) (.cannotList o.releasesRoot)
    let found ← survey o entries.items
    match entries.broken with
    | some why => throw (.cannotWalk o.releasesRoot why)
    | none => pure (byTime found)
  else pure []

def keep : Int := if o.keepPreviousReleases < 0 then 0 else o.keepPreviousReleases

def pruneAll (current : ActivationState) : List String → Int → UInt32 → Step UInt32
  | [], _, removed => pure removed
  | name :: rest, retained, removed =>
      if name = current.active || name = current.previous then
        pruneAll current rest retained removed
      else if retained < keep o then pruneAll current rest (retained + 1) removed
      else do
        orFail (file (.removeAll (o.releaseDirectory name)))
          (.cannotRemove (o.releaseDirectory name))
        pruneAll current rest retained (removed + 1)

def prune : Step UInt32 := do
  let current ← state o
  let releases ← installed o
  pruneAll o current releases 0 0

end Install

end Yirang
