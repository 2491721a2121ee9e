/-
# `Yirang.Cli.Console` — the command line, up to its requests

The program is called with a command and options, and reads a file of
settings.  It deploys, or orders a command of the agents, or asks for their
reports; before it orders one that destroys something it has this confirmed.

    Settings               the file, and the options over it
    positionalArguments    what of a call is not an option
    Confirmation.require   the question, and the answer it takes
    command                the order, all checks made
    main                   the program

What a deploy calls is called here as well (`Embedding`); new are the
terminal and the reports.  `ArgumentParser` is not part of the repository: an
`Invocation` says what it finds.
-/
import Yirang.Cli.Model
import Yirang.Effect.Embed

namespace Yirang

open Effect

/-! ## Calls -/

namespace DeployCli

inductive Console.Op where
  | work (o : DeployCli.Op)
  | get (path : String)
  /-- A text on the terminal that no answer is waited for yet. -/
  | prompt (text : String)
  /-- `std::getline` of the standard input: nothing at its end. -/
  | getline
  | showVersion
  | showUsage

abbrev Console.Op.Res : Console.Op → Type
  | .work o => o.Res
  | .get _ => Except String RestResponse
  | .getline => Option String
  | .prompt _ | .showVersion | .showUsage => Unit

end DeployCli

/-- The signature of the whole command line program. -/
abbrev console : Sig := ⟨DeployCli.Console.Op, DeployCli.Console.Op.Res⟩

namespace DeployCli

namespace Console

abbrev Task (α : Type) := Act console Unit String α

def call (o : Op) : Task o.Res := ask (E := console) o

/-- A deploy makes its calls as they are. -/
def deploying : Embedding workstation console where
  op := .work
  res _ r := r

end Console

/-! ## Settings -/

/-- What the program is called with: the words, and the value that
`ArgumentParser` finds for an option. -/
structure Invocation where
  argv : List String
  option : String → Option String
  readable : ∀ word ∈ argv, '\x00' ∉ word.toList
  readableOption : ∀ key value, option key = some value → '\x00' ∉ value.toList

/-- What became of the file of settings. -/
inductive ConfigFile where
  | threw (what : String)
  | unopened (path : String)
  | unreadable (error : String)
  | text (text : String)

/-- `Configurations::load`: the members of the file, or the warning. -/
def load (codec : Codec) : ConfigFile → Except String Json.Fields
  | .threw what => .error s!"cannot open configuration file (defaults applied): {what}"
  | .unopened path => .error s!"cannot open configuration file (defaults applied): {path}"
  | .unreadable e => .error s!"cannot read configuration file (defaults applied): {e}"
  | .text text =>
      match codec.parse text with
      | .error what => .error s!"cannot parse configuration file (defaults applied): {what}"
      | .ok parsed =>
          match parsed.object? with
          | none => .error "configuration root is not a JSON object (defaults applied)"
          | some message => .ok message

/-- `split(text, ',')`, without what is empty. -/
def listed (text : String) : List String :=
  ((text.toList.splitOn ',').map String.ofList).filter (· ≠ "")

/-- The strings of an array, each up to its first NUL. -/
def strings (items : List Json) : List String :=
  (items.filterMap Json.string?).map Json.cString

structure Settings extends Configurations where
  outputFormat : String := "table"
  showHelp : Bool := false
  showVersion : Bool := false
  confirmToken : String := ""
  configValues : String := ""
  loadWarning : Option String := none

namespace Invocation

variable (invocation : Invocation) (message : Json.Fields)

/-- An option, or else what the file says, or else the default. -/
def text (key field default : String) : String :=
  (invocation.option key).getD ((Json.readText message field).getD default)

def uploadFileList : List String :=
  match invocation.option "--upload_file_list" with
  | some list => listed list
  | none => strings ((Json.readArray message "upload_file_list").getD [])

variable {invocation message} {key field default : String}

theorem text_readable (hd : '\x00' ∉ default.toList) :
    '\x00' ∉ (invocation.text message key field default).toList := by
  unfold text
  cases ho : invocation.option key with
  | some value => exact invocation.readableOption _ _ ho
  | none =>
      rw [Option.getD_none, Json.readText]
      cases Json.readString message field with
      | none => exact hd
      | some s => exact Json.not_mem_cString s

theorem mem_of_mem_splitOn {a c : Char} {cs piece : List Char} (hp : piece ∈ cs.splitOn a)
    (hc : c ∈ piece) : c ∈ cs := by
  obtain ⟨i, hi⟩ := List.mem_iff_getElem?.mp hp
  have hcs : [a].intercalate (cs.splitOn a) = cs := List.intercalate_splitOn a
  rw [← hcs, List.intercalate]
  refine List.mem_flatten.mpr ⟨piece, List.mem_of_getElem? (i := 2 * i) ?_, hc⟩
  exact List.getElem?_intersperse_two_mul.trans hi

theorem uploadFileList_readable :
    ∀ source ∈ invocation.uploadFileList message, '\x00' ∉ source.toList := by
  intro source hs
  unfold uploadFileList at hs
  split at hs
  · rename_i list ho
    obtain ⟨piece, hp, rfl⟩ := List.mem_map.mp (List.mem_filter.mp hs).1
    rw [String.toList_ofList]
    exact fun hc => invocation.readableOption _ _ ho (mem_of_mem_splitOn hp hc)
  · obtain ⟨s, -, rfl⟩ := List.mem_map.mp hs
    exact Json.not_mem_cString s

end Invocation

/-- The constructor of `Configurations`. -/
def settings (codec : Codec) (invocation : Invocation) (file : ConfigFile) : Settings :=
  let loaded := load codec file
  let message := loaded.toOption.getD []
  let outputFormat := invocation.text message "--output_format" "output_format" "table"
  { controlPlaneUrl := invocation.text message "--control_plane_url" "control_plane_url" ""
    uploadFileList := invocation.uploadFileList message
    targetGroup := invocation.text message "--target_group" "target_group" ""
    s3Bucket := invocation.text message "--s3_bucket" "s3_bucket" ""
    readable := by
      intro text ht
      rcases List.mem_cons.mp ht with rfl | ht
      · exact Invocation.text_readable (by decide)
      · exact Invocation.uploadFileList_readable text ht
    outputFormat := if outputFormat = "json" then "json" else "table"
    showHelp := (invocation.option "--help").isSome
    showVersion := (invocation.option "--version").isSome
    confirmToken := (invocation.option "--confirm").getD ""
    configValues := (invocation.option "--config_values").getD ""
    loadWarning := match loaded with
      | .ok _ => none
      | .error warning => some warning }

/-- `token.rfind("--", 0) == 0` -/
def isOption (token : String) : Bool := ['-', '-'].isPrefixOf token.toList

/-- What of the words is not an option: an option takes the word after it,
unless that is an option, or it is one of the two that take none. -/
def positionalArguments : List String → List String
  | [] => []
  | [token] => if isOption token then [] else [token]
  | token :: next :: rest =>
      if isOption token then
        if token ≠ "--help" && token ≠ "--version" && !isOption next then
          positionalArguments rest
        else positionalArguments (next :: rest)
      else token :: positionalArguments (next :: rest)

theorem positionalArguments_sublist :
    ∀ words : List String, (positionalArguments words).Sublist words
  | [] => .slnil
  | [token] => by
      unfold positionalArguments
      split
      · exact List.nil_sublist _
      · exact List.Sublist.refl _
  | token :: next :: rest => by
      unfold positionalArguments
      split
      · split
        · exact ((positionalArguments_sublist rest).cons _).cons _
        · exact (positionalArguments_sublist (next :: rest)).cons _
      · exact (positionalArguments_sublist (next :: rest)).cons_cons _

/-! ## Confirmation -/

def isSpace (c : Char) : Bool := c = ' ' || c = '\t' || c = '\r' || c = '\n'

def trimmed (text : String) : String :=
  String.ofList ((text.toList.dropWhile isSpace).reverse.dropWhile isSpace).reverse

structure Confirmation where
  providedToken : String
  interactive : Bool

/-- What the operator is asked. -/
def question (expectedToken scope : String) : String :=
  s!"'{expectedToken}' targets {scope}.\ntype '{expectedToken}' to continue: "

/-- What is made of the answer. -/
def accepted (expectedToken : String) : Option String → Except String Unit
  | none => .error s!"'{expectedToken}' was not confirmed — no answer on stdin"
  | some answer =>
      if trimmed answer = expectedToken then .ok ()
      else .error s!"'{expectedToken}' was not confirmed"

def Confirmation.require (confirmation : Confirmation) (expectedToken scope : String) :
    Console.Task Unit :=
  if confirmation.providedToken ≠ "" then
    Effect.require (confirmation.providedToken = expectedToken)
      s!"--confirm '{confirmation.providedToken}' does not name the command being run — pass --confirm {expectedToken}"
  else do
    Effect.require confirmation.interactive
      s!"'{expectedToken}' targets {scope} and was not confirmed — stdin is not a terminal, so pass --confirm {expectedToken}"
    Console.call (.prompt (question expectedToken scope))
    let answer ← Console.call .getline
    conclude (accepted expectedToken answer)

/-! ## The commands -/

def agentCommands : List String :=
  ["download_version", "apply_version", "current_status", "clean_old_version",
    "rollback_version", "update_configuration", "restart_service", "reboot_device"]

def destructiveCommands : List String := ["clean_old_version", "reboot_device"]

def scopeOf (group : String) : String :=
  if group = "" then "every registered device" else s!"group '{group}'"

def parseObject (codec : Codec) (text label : String) : Except String Json.Fields :=
  match codec.parse text with
  | .error what => .error s!"{label} is not valid JSON: {what}"
  | .ok parsed =>
      match parsed.object? with
      | none => .error s!"{label} root is not a JSON object"
      | some object => .ok object

/-- The class `Commands`. -/
structure Session where
  settings : Settings
  codec : Codec
  store : Bool
  confirmation : Option Confirmation

/-- What is asked of a command before it is ordered. -/
def Session.confirm (session : Session) (name : String) : Console.Task Unit :=
  let group := session.settings.targetGroup
  if destructiveCommands.contains name then
    match session.settings.loadWarning, group with
    | some warning, "" =>
        throw s!"'{name}' was not published — the configuration was not loaded ({warning}) and no target group was given, so the scope would be every registered device by default. pass --target_group <name>"
    | _, _ =>
        match session.confirmation with
        | none => throw s!"'{name}' was not published — confirmation is not available"
        | some confirmation => confirmation.require name (scopeOf group)
  else pure ()

/-- The payload, of the words after the name of the command. -/
def Session.payload (session : Session) (name : String) (rest : List String) :
    Except String Json.Fields :=
  if name = "update_configuration" then
    match rest with
    | [] => .error "update_configuration requires a configuration path relative to the release directory (yirang command update_configuration config/app.json --config_values '\x7b\"key\":1\x7d')"
    | path :: _ =>
        if session.settings.configValues = "" then
          .error "update_configuration requires --config_values <json object>"
        else do
          let values ← parseObject session.codec session.settings.configValues "--config_values"
          pure [("path", .string path), ("values", .object values)]
  else
    match rest with
    | [] => .ok []
    | releaseId :: _ => .ok [("release_id", .string releaseId)]

/-- The body of the request to the API. -/
def order (name group : String) (payload : Json.Fields) : Json :=
  .object [("command", .string name), ("group", .string group), ("payload", .object payload)]

def kCommands : String := "/api/v1/commands"

def kResults : String := "/api/v1/results"

namespace Session

variable (session : Session)

def deploy : Console.Task Unit :=
  embed Console.deploying
    (DeployCli.deploy ⟨session.settings.toConfigurations, session.store, session.codec⟩)

def command (arguments : List String) : Console.Task Unit := do
  conclude session.settings.validateRequired
  match arguments with
  | [] =>
      let names := session.codec.serialize (.array (agentCommands.map .string))
      throw s!"command name is required (one of {names})"
  | name :: rest => do
      let names := session.codec.serialize (.array (agentCommands.map .string))
      require (agentCommands.contains name) s!"'{name}' is not an agent command (one of {names})"
      session.confirm name
      let payload ← conclude (session.payload name rest)
      let posted ← Console.call (.work (.post kCommands
        (session.codec.serialize (order name session.settings.targetGroup payload))))
      let response ← conclude posted
      require response.ok
        s!"command rejected: {failureReason session.codec response.statusCode response.body}"
      Console.call (.work (.present s!"published {name}" response.body))

def results : Console.Task Unit := do
  conclude session.settings.validateRequired
  let got ← Console.call (.get kResults)
  let response ← conclude got
  require response.ok
    s!"cannot read results: {failureReason session.codec response.statusCode response.body}"
  Console.call (.work (.present "results" response.body))

def run (name : String) (arguments : List String) : Console.Task Unit :=
  if name = "deploy" then session.deploy
  else if name = "command" then session.command arguments
  else if name = "results" then session.results
  else throw s!"unknown command '{name}'"

end Session

/-- The program; its exit code is 1 where it ends with an error. -/
def main (codec : Codec) (invocation : Invocation) (file : ConfigFile) (interactive : Bool) :
    Console.Task Unit :=
  let settings := settings codec invocation file
  if settings.showVersion then Console.call .showVersion
  else if settings.showHelp then Console.call .showUsage
  else
    match positionalArguments invocation.argv with
    | [] => do
        Console.call .showUsage
        throw "no command given"
    | name :: arguments =>
        let confirmation : Confirmation := ⟨settings.confirmToken, interactive⟩
        Session.run ⟨settings, codec, true, some confirmation⟩ name arguments

end DeployCli

end Yirang
