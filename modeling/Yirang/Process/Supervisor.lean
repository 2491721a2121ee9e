/-
# `Yirang.Process.Supervisor` — the process supervisor

`PosixProcessSupervisor` as it is written: it starts processes as leaders of
groups of their own, adopts processes that somebody else started, says
whether they run, and stops them.  It remembers, by pid,

    finished   how a process ended, once it was seen to
    adopted    that a process is not its own

and nothing else: which instance of a pid it is asked about, the caller says
with a handle.
-/
import Yirang.Process.Kernel

namespace Yirang

open Effect

namespace Posix

structure Supervisor where
  finished : Int → Option ProcessStatus := fun _ => none
  adopted : Int → Bool := fun _ => false

namespace Supervisor

/-- `finished_.erase(id)` and `adopted_.erase(id)` -/
def forget (m : Supervisor) (id : Int) : Supervisor where
  finished i := if i = id then none else m.finished i
  adopted i := if i = id then false else m.adopted i

/-- `finished_.erase(id)` and `adopted_.insert(id)` -/
def take (m : Supervisor) (id : Int) : Supervisor where
  finished i := if i = id then none else m.finished i
  adopted i := if i = id then true else m.adopted i

/-- `finished_.insert({id, status})`: an entry that is there stays. -/
def finish (m : Supervisor) (id : Int) (status : ProcessStatus) : Supervisor where
  finished i := if i = id then (m.finished id).or (some status) else m.finished i
  adopted := m.adopted

/-- The same, and `adopted_.erase(id)`. -/
def release (m : Supervisor) (id : Int) (status : ProcessStatus) : Supervisor where
  finished := (m.finish id status).finished
  adopted i := if i = id then false else m.adopted i

end Supervisor

abbrev Step (α : Type) := Act posix Supervisor String α

/-- `static_cast<pid_t>` -/
def pidT (id : Int) : Int := id.bmod 4294967296

def toStatus : WaitStatus → ProcessStatus
  | .exited code => { state := .exited, exitCode := some code }
  | .signaled signal => { state := .signaled, signal := some signal }
  | .other => { state := .unknown }

def running : ProcessStatus := { state := .running }

/-- `"... {id}: {why}"` -/
def saying (what : String) (id : Int) (why : String) : String :=
  what ++ toString id ++ ": " ++ why

def start (options : ProcessStartOptions) : Step ProcessHandle := do
  require (!options.executablePath.isEmpty) "executable_path is required"
  orFail (ask (E := posix) .pipe) fun why => "cannot create report pipe: " ++ why
  orFail (ask (E := posix) .cloexec) fun why => "cannot set FD_CLOEXEC on report pipe: " ++ why
  let child ← orFail (ask (E := posix) .fork) fun why => "cannot fork: " ++ why
  ask (E := posix) (.setpgid child)
  let reported ← ask (E := posix) .report
  match reported with
  | some reason => do
      let _ ← ask (E := posix) (.waitpid child true)
      throw ("cannot start '" ++ options.executablePath.text ++ "': " ++ reason)
  | none => do
      let token ← ask (E := posix) (.startToken child)
      let m ← load
      store (m.forget child)
      pure ⟨child, token.toOption.getD 0⟩

/-- The process is there: it can be signalled, or only by somebody else. -/
def present : Except Errno Unit → Bool
  | .ok _ | .error .eperm => true
  | .error _ => false

def adopt (handle : ProcessHandle) : Step ProcessHandle := do
  require (1 < handle.id) "invalid process handle"
  require (handle.startToken ≠ 0)
    ("process " ++ toString handle.id ++ " has no start token to verify")
  let token ← orFail (ask (E := posix) (.startToken handle.id)) id
  require (token = handle.startToken)
    ("process " ++ toString handle.id ++ " is not the recorded instance")
  let asked ← ask (E := posix) (.kill (pidT handle.id) .probe)
  match asked with
  | .ok _ | .error .eperm => do
      let m ← load
      store (m.take handle.id)
      pure handle
  | .error e => throw (saying "cannot signal process " handle.id e.text)

/-- The process is gone. -/
def gone (id : Int) : Step ProcessStatus := do
  let m ← load
  store (m.release id { state := .exited })
  pure { state := .exited }

/-- Somebody has the pid: is it the process that was adopted? -/
def compareToken (handle : ProcessHandle) : Step ProcessStatus := do
  let token ← ask (E := posix) (.startToken handle.id)
  match token with
  | .ok token => if token = handle.startToken then pure running else gone handle.id
  | .error why => do
      let again ← ask (E := posix) (.kill (pidT handle.id) .probe)
      if present again then throw why else gone handle.id

def adoptedStatus (handle : ProcessHandle) : Step ProcessStatus := do
  let waited ← ask (E := posix) (.waitpid (pidT handle.id) false)
  match waited with
  | .ended status => do
      let m ← load
      store (m.release handle.id (toStatus status))
      pure (toStatus status)
  | .still => pure running
  | .failed why => throw (saying "cannot query process " handle.id why)
  | .noChild => do
      let asked ← ask (E := posix) (.kill (pidT handle.id) .probe)
      match asked with
      | .ok _ | .error .eperm => compareToken handle
      | .error .esrch => gone handle.id
      | .error e => throw (saying "cannot query process " handle.id e.text)

/-- `status` of a process that is our own. -/
def childStatus (handle : ProcessHandle) : Step ProcessStatus := do
  let waited ← ask (E := posix) (.waitpid (pidT handle.id) false)
  match waited with
  | .still => pure running
  | .noChild => pure {}
  | .failed why => throw (saying "cannot query process " handle.id why)
  | .ended status => do
      let m ← load
      store (m.finish handle.id (toStatus status))
      pure (toStatus status)

def status (handle : ProcessHandle) : Step ProcessStatus := do
  require (0 < handle.id) "invalid process handle"
  let m ← load
  match m.finished handle.id with
  | some cached => pure cached
  | none => if m.adopted handle.id then adoptedStatus handle else childStatus handle

/-- The loops that wait for the end: whether it was seen. -/
def poll (look : Step ProcessStatus) : Nat → Step Bool
  | 0 => pure false
  | turns + 1 => do
      let polled ← look
      if polled.state ≠ .running then pure true else poll look turns

def settle (handle : ProcessHandle) (timeout : Int) : Step Unit := do
  let turns ← ask (E := posix) (.turns timeout)
  let ended ← poll (adoptedStatus handle) turns
  require ended ("process " ++ toString handle.id ++ " is still alive after SIGKILL")

def reap (id : Int) : Step ProcessStatus := do
  let waited ← ask (E := posix) (.waitpid (pidT id) true)
  match waited with
  | .noChild => pure {}
  | .failed why => throw (saying "cannot wait for process " id why)
  | .still => do
      let m ← load
      store (m.finish id (toStatus (.exited 0)))
      pure (toStatus (.exited 0))
  | .ended status => do
      let m ← load
      store (m.finish id (toStatus status))
      pure (toStatus status)

/-- A signal to the whole group; that it is empty is no error. -/
def signalGroup (id : Int) (signal : Signal) (name : String) : Step Unit := do
  let sent ← ask (E := posix) (.kill (-pidT id) signal)
  match sent with
  | .ok _ | .error .esrch => pure ()
  | .error e => throw (saying ("cannot send " ++ name ++ " to ") id e.text)

def stop (handle : ProcessHandle) (timeout : Int) : Step Unit := do
  require (0 < handle.id) "invalid process handle"
  let m ← load
  let isAdopted := m.adopted handle.id
  let current ← status handle
  if current.state ≠ .running then pure ()
  else do
    signalGroup handle.id .term "SIGTERM"
    let turns ← ask (E := posix) (.turns timeout)
    let ended ← poll (status handle) turns
    if ended then pure ()
    else do
      signalGroup handle.id .kill "SIGKILL"
      if isAdopted then settle handle timeout
      else do
        let _ ← reap handle.id
        pure ()

/-! ## What `status` looks at -/

section Status

variable {A : Kernel → Op → Choice → Prop} {B : Supervisor → Kernel → Op → Prop}
  {Q : Except String ProcessStatus → Supervisor → Kernel → Prop} {m : Supervisor} {w : Kernel}
  {handle : ProcessHandle} {s : ProcessStatus}

theorem wp_status_finished (hpos : 0 < handle.id) (hm : m.finished handle.id = some s) :
    wp answer A B (status handle).run Q m w ↔ Q (.ok s) m w := by
  unfold status
  rw [wp_require_seq, if_pos (decide_eq_true hpos), wp_load_seq, hm]
  exact wp_ok

theorem wp_status_adopted (hpos : 0 < handle.id) (hm : m.finished handle.id = none)
    (ha : m.adopted handle.id = true) :
    wp answer A B (status handle).run Q m w ↔ wp answer A B (adoptedStatus handle).run Q m w := by
  unfold status
  rw [wp_require_seq, if_pos (decide_eq_true hpos), wp_load_seq, hm, ha]
  exact Iff.rfl

theorem wp_status_child (hpos : 0 < handle.id) (hm : m.finished handle.id = none)
    (ha : m.adopted handle.id = false) :
    wp answer A B (status handle).run Q m w ↔ wp answer A B (childStatus handle).run Q m w := by
  unfold status
  rw [wp_require_seq, if_pos (decide_eq_true hpos), wp_load_seq, hm, ha]
  exact Iff.rfl

theorem toStatus_state (s : WaitStatus) : (toStatus s).state ≠ .running := by
  cases s <;> simp [toStatus]

theorem pidT_of_bounded {x : Proc} (hx : x ∈ w.procs) : pidT x.pid = x.pid := by
  obtain ⟨hpos, hlt⟩ := w.bounded x hx
  exact Int.bmod_eq_of_le (by omega) (by omega)

end Status

end Posix

end Yirang
