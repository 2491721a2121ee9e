/-
# `Yirang.Cli.Model` — `yirang deploy`

The command line program makes a release of the files it is given: it reads
their digests, puts them in the artifact store under keys of its own making,
and asks the API to have them downloaded.

    makeReleaseId    the name of a release, from the clock
    build            what is to be uploaded, all checks made
    uploadRelease    the uploads, one after another
    deploy           the command

Any number of clients may be at work on one store.  A `Site` is that store,
and what of their calls matters to the others.
-/
import Yirang.Agent.Message
import Yirang.Calendar
import Yirang.Effect.Threads

namespace Yirang

open Fs Effect

/-! ## Calls -/

namespace DeployCli

structure RestResponse where
  statusCode : Int
  body : String

def RestResponse.ok (response : RestResponse) : Bool :=
  200 ≤ response.statusCode && response.statusCode < 300

inductive Op where
  /-- `system_clock::now`, in nanoseconds since 1970. -/
  | now
  | exists_ (path : String)
  | isRegularFile (path : String)
  | fileSha256 (path : String)
  | fileSize (path : String)
  | upload (key source : String)
  | post (path body : String)
  | present (title body : String)

abbrev Op.Res : Op → Type
  | .now => Int
  | .exists_ _ | .isRegularFile _ => Bool
  | .fileSha256 _ => Except String String
  | .fileSize _ => Except String UInt64
  | .upload _ _ => Except String Unit
  | .post _ _ => Except String RestResponse
  | .present _ _ => Unit

end DeployCli

/-- The signature of the command line program. -/
abbrev workstation : Sig := ⟨DeployCli.Op, DeployCli.Op.Res⟩

namespace DeployCli

abbrev Task (α : Type) := Act workstation Unit String α

def call (o : Op) : Task o.Res := ask (E := workstation) o

end DeployCli

/-! ## Releases -/

namespace Release

open Calendar DeployCli

structure ArtifactEntry where
  installPath : String
  sha256 : String
  sizeBytes : UInt64
  sourcePath : String

structure Manifest where
  releaseId : String
  createdAt : String
  artifacts : List ArtifactEntry

def hexDigit (n : UInt8) : Char := "0123456789abcdef".toList.getD n.toNat '0'

/-- `to_hex` -/
def toHex (bytes : List UInt8) : String :=
  String.ofList (bytes.flatMap fun b : UInt8 => [hexDigit (b >>> 4), hexDigit (b &&& 0x0F)])

/-- The SHA-256 of a file, as a text. -/
abbrev Digest := Vector UInt8 32

def Digest.text (d : Digest) : String := toHex d.toList

/-- `system_clock::to_time_t`: seconds, rounded toward zero. -/
def toTimeT (when : Int) : Int := when.tdiv 1000000000

/-- `rel_%04d%02d%02d_%02d%02d%02d` -/
def releaseIdText (utc : DateTime) : List Char :=
  "rel_".toList ++ (printed 4 utc.year ++ (padded 2 utc.month ++ (padded 2 utc.day ++
    '_' :: (padded 2 utc.hour ++ (padded 2 utc.minute ++ padded 2 utc.second)))))

/-- `%04d-%02d-%02dT%02d:%02d:%02dZ` -/
def createdAtText (utc : DateTime) : List Char :=
  printed 4 utc.year ++ '-' :: padded 2 utc.month ++ '-' :: padded 2 utc.day ++
    'T' :: padded 2 utc.hour ++ ':' :: padded 2 utc.minute ++ ':' :: padded 2 utc.second ++ ['Z']

def makeReleaseId (when : Int) : String := String.ofList (releaseIdText (gmtime (toTimeT when)))

/-- `path.filename()`: what stands after the last separator. -/
def filename (source : String) : String :=
  String.ofList ((Path.splitSlash source.toList).getLastD [])

/-- One turn of the loop of `build`. -/
def entry (claimed : List String) (source : String) : DeployCli.Task ArtifactEntry := do
  let there ← call (.exists_ source)
  require there s!"upload file does not exist: {source}"
  let regular ← call (.isRegularFile source)
  require regular s!"upload file is not a regular file: {source}"
  let installPath := filename source
  require (!claimed.contains installPath)
    s!"duplicate install path '{installPath}' — two upload files share the same file name"
  let hashed ← call (.fileSha256 source)
  let sha256 ← conclude hashed
  let measured ← call (.fileSize source)
  let sizeBytes ← conclude (measured.mapError fun why =>
    s!"cannot read size of '{source}': {why}")
  pure { installPath, sha256, sizeBytes, sourcePath := source }

def entries : List String → List String → DeployCli.Task (List ArtifactEntry)
  | [], _ => pure []
  | source :: rest, claimed => do
      let first ← entry claimed source
      let others ← entries rest (first.installPath :: claimed)
      pure (first :: others)

def build (uploadFileList : List String) (releaseId : String) (createdAt : Int) :
    DeployCli.Task Manifest := do
  require (releaseId ≠ "") "release_id is required"
  require (uploadFileList ≠ []) "upload_file_list is empty"
  let artifacts ← entries uploadFileList []
  pure { releaseId, createdAt := String.ofList (createdAtText (gmtime (toTimeT createdAt))), artifacts }

end Release

/-! ## The command -/

namespace DeployCli

open Release

/-- The part of the configuration that a deploy depends on.  Its texts are
read from a file up to their first NUL, or are arguments. -/
structure Configurations where
  controlPlaneUrl : String := ""
  uploadFileList : List String := []
  targetGroup : String := ""
  s3Bucket : String := ""
  readable : ∀ text ∈ targetGroup :: uploadFileList, '\x00' ∉ text.toList

namespace Configurations

variable (configurations : Configurations)

def validateRequired : Except String Unit :=
  if configurations.controlPlaneUrl = "" then
    .error "control_plane_url is required (set it in the configuration file or pass --control_plane_url)"
  else .ok ()

def validateForDeploy : Except String Unit := do
  configurations.validateRequired
  if configurations.uploadFileList = [] then
    .error "upload_file_list is empty (set it in the configuration file or pass --upload_file_list a.exe,b.dll)"
  else if configurations.s3Bucket = "" then
    .error "s3_bucket is required for deploy (set it in the configuration file or pass --s3_bucket)"
  else .ok ()

end Configurations

structure Commands where
  configurations : Configurations
  store : Bool
  codec : Codec

def textOf (codec : Codec) (object : Json.Fields) (key : String) : String :=
  match object.lookup key with
  | none => ""
  | some (.string s) => Json.cString s
  | some v => codec.serialize v

/-- The object under `error` in the body of a response. -/
def errorObject (codec : Codec) (body : String) : Option Json.Fields :=
  match codec.parse body with
  | .ok (.object root) => Json.readObject root "error"
  | _ => none

def failureReason (codec : Codec) (statusCode : Int) (body : String) : String :=
  match errorObject codec body with
  | some error =>
      let code := textOf codec error "code"
      let message := textOf codec error "message"
      s!"{statusCode} {code} — {message}"
  | none => s!"{statusCode} — {body}"

def uploadAll (releaseId : String) : List ArtifactEntry → Task Unit
  | [] => pure ()
  | e :: rest => do
      let key ← conclude (Artifact.makeObjectKey releaseId e.installPath)
      let sent ← call (.upload key e.sourcePath)
      conclude (sent.mapError fun why => s!"cannot upload '{e.sourcePath}' to '{key}': {why}")
      uploadAll releaseId rest

def uploadRelease (manifest : Manifest) : Task Unit :=
  uploadAll manifest.releaseId manifest.artifacts

/-- The body of the request to the API. -/
def request (manifest : Manifest) (group : String) : Json :=
  .object
    [("release_id", .string manifest.releaseId), ("group", .string group),
      ("artifacts", .array (manifest.artifacts.map fun e => .object
        [("install_path", .string e.installPath), ("sha256", .string e.sha256),
          ("size_bytes", .uint64 e.sizeBytes.toNat)]))]

def kDeployments : String := "/api/v1/deployments"

/-- A deploy, from where it has read the clock. -/
def deployAt (c : Commands) (now : Int) : Task Unit := do
  let releaseId := makeReleaseId now
  let manifest ← build c.configurations.uploadFileList releaseId now
  uploadRelease manifest
  let posted ← call (.post kDeployments
    (c.codec.serialize (request manifest c.configurations.targetGroup)))
  let response ← conclude posted
  require response.ok
    s!"deployment request rejected: {failureReason c.codec response.statusCode response.body}"
  call (.present s!"deployed {releaseId}" response.body)

def deploy (c : Commands) : Task Unit := do
  conclude c.configurations.validateForDeploy
  require c.store "artifact store is not configured"
  let now ← call .now
  deployAt c now

/-! ## Clients of one store -/

/-- The artifact store, and what it is known by: which run put an object
there and what it holds, and of each run when it started. -/
structure Site (ι : Type) where
  bucket : String → Option (ι × Content) := fun _ => none
  /-- The objects that were put there, newest first. -/
  uploads : List (ι × String) := []
  started : ι → Option Int := fun _ => none

/-- What one call depends on beside what is said in it. -/
structure Turn where
  now : Int := 0
  flag : Bool := true
  fault : Option String := none
  digest : String := ""
  size : UInt64 := 0
  /-- What the file holds that is read. -/
  content : Content := .text ""
  /-- An upload that fails may have got there all the same. -/
  arrived : Bool := false
  response : RestResponse := { statusCode := 202, body := "" }

def Turn.result {α : Type} (c : Turn) (a : α) : Except String α :=
  match c.fault with
  | none => .ok a
  | some e => .error e

section Site

variable {ι : Type}

def Site.put (w : Site ι) (run : ι) (key : String) (content : Content) : Site ι :=
  { w with
    bucket := fun k => if k = key then some (run, content) else w.bucket k
    uploads := (run, key) :: w.uploads }

variable [DecidableEq ι]

def Site.start (w : Site ι) (run : ι) (now : Int) : Site ι :=
  { w with started := fun i => if i = run then some now else w.started i }

/-- The calls of one run. -/
def answer (run : ι) : Answers workstation (Site ι) Turn
  | c, .now, w => (c.now, w.start run c.now)
  | c, .exists_ _, w => (c.flag, w)
  | c, .isRegularFile path, w => (c.flag && !Path.namesDirectory path, w)
  | c, .fileSha256 _, w => (c.result c.digest, w)
  | c, .fileSize _, w => (c.result c.size, w)
  | c, .upload key _, w =>
      (c.result (), if c.fault.isNone || c.arrived then w.put run key c.content else w)
  | c, .post _ _, w => (c.result c.response, w)
  | _, .present _ _, w => ((), w)

/-- What any number of runs can come to, each begun at any time and stopped
anywhere. -/
inductive Reached (commands : ι → Commands) (runs : List ι) :
    List (Thread ι workstation Unit (Except String Unit)) → Site ι → Prop
  | start : Reached commands runs (runs.map fun i => ⟨i, (), (deploy (commands i)).run⟩) {}
  | step {ts ts' : List (Thread ι workstation Unit (Except String Unit))} {w w' : Site ι} :
      Reached commands runs ts w →
      Pool.Step answer (fun _ _ _ _ => True) ts w ts' w' → Reached commands runs ts' w'

end Site

end DeployCli

end Yirang
