/-
# `Yirang.Process.Spawn` — how a child says that it could not begin

`PosixProcessSupervisor::start` and `PosixSystemControl::request_reboot` fork
a child that is to run another program.  Whether it came to that the parent
learns from a pipe: the write end is closed by a successful `execve`, and a
child that fails writes the reason into it first.  `waitpid` is called once,
also where it is interrupted.

    Job          what a child is to do
    Step         one call of the parent or of the child
    Reachable    any order of these, with kills between them
    named_iff          when the parent names the reason of the child
    report_is_true     what the parent returns is what became of the child
    parent_returns     no order of calls leaves the parent waiting for ever

The two functions differ in their job, and in that `start` also moves the
child into a group of its own.  The reason is an `errno`, here its text.
-/
import Yirang.Process.Supervisor

namespace Yirang.Posix.Spawn

/-! ## The two functions -/

structure Job where
  /-- Where it runs; in the directory of the parent if this is empty. -/
  workingDirectory : String := ""
  program : String
  arguments : List String
  /-- What the parent says it could not do. -/
  verb : String
  /-- The parent calls `setpgid(child, child)`, too. -/
  groups : Bool

def startJob (options : ProcessStartOptions) : Job where
  workingDirectory := options.workingDirectory
  program := options.executablePath.text
  arguments := options.arguments
  verb := "start"
  groups := true

def kRebootDelayMinutes : Nat := 1

def kShutdownCandidates : List String := ["/sbin/shutdown", "/usr/sbin/shutdown", "/bin/shutdown"]

def locateShutdown (executable : String → Bool) : Option String :=
  kShutdownCandidates.find? executable

/-- `request_reboot`, up to the pipe. -/
def requestReboot (euid : Nat) (executable : String → Bool) : Except String Job :=
  if euid ≠ 0 then
    .error ("rebooting requires root privileges — run the agent as a service account that " ++
      "may reboot this device")
  else
    match locateShutdown executable with
    | none => .error "cannot find an executable 'shutdown' in /sbin, /usr/sbin or /bin"
    | some path => .ok
        { program := path
          arguments := ["-r", "+" ++ toString kRebootDelayMinutes]
          verb := "run"
          groups := false }

/-- Nothing but `shutdown -r +1`, by root. -/
theorem requestReboot_ok {euid : Nat} {executable : String → Bool} {job : Job}
    (h : requestReboot euid executable = .ok job) :
    euid = 0 ∧ job.program ∈ kShutdownCandidates ∧ executable job.program = true ∧
      job.arguments = ["-r", "+1"] := by
  unfold requestReboot at h
  split at h
  · cases h
  · rename_i heuid
    split at h
    · cases h
    · rename_i path hpath
      cases h
      exact ⟨not_not.mp heuid, List.mem_of_find?_eq_some hpath, List.find?_some hpath, rfl⟩

def Job.cannot (job : Job) (reason : String) : String :=
  "cannot " ++ job.verb ++ " '" ++ job.program ++ "': " ++ reason

/-! ## The parent, the child and the pipe -/

/-- What `read` gave in the end. -/
inductive Received where
  | record (reason : String)
  /-- The end of the file. -/
  | nothing
  /-- An error other than `EINTR`. -/
  | failed
deriving DecidableEq

/-- The call that the parent is in front of. -/
inductive Parent where
  | piping | flagging | forking
  /-- `close(report[1])` -/
  | releasing
  | grouping | reading
  /-- `close(report[0])` -/
  | closing (received : Received)
  | waiting (reason : String)
  | returned (result : Except String Unit)
  | killed

/-- The call that the child is in front of. -/
inductive Child where
  | unborn
  /-- `close(report[0])` -/
  | releasing
  | grouping | entering | executing
  | writing (reason : String)
  | exiting
  /-- It runs the program. -/
  | running
  /-- Nobody has waited for it yet. -/
  | ended (ran : Bool)
  | reaped (ran : Bool)
deriving DecidableEq

/-- The parent, once it has closed its write end. -/
def Job.released (job : Job) : Parent := if job.groups then .grouping else .reading

/-- The child, once it is in its group. -/
def Job.grouped (job : Job) : Child :=
  if job.workingDirectory = "" then .executing else .entering

def Child.ran : Child → Bool
  | .running => true
  | .ended ran | .reaped ran => ran
  | _ => false

/-- It can be killed. -/
def Child.alive : Child → Bool
  | .unborn | .ended _ | .reaped _ => false
  | _ => true

/-- The ends of the pipe that a process has open. -/
structure Ends where
  read : Bool := false
  write : Bool := false
deriving DecidableEq

structure State where
  parent : Parent := .piping
  child : Child := .unborn
  parentEnds : Ends := {}
  childEnds : Ends := {}
  /-- `FD_CLOEXEC` is set on the write end. -/
  cloexec : Bool := false
  /-- What is in the pipe. -/
  buffer : List String := []
  /-- All that was ever written into it. -/
  written : List String := []
  /-- What `chdir` or `execve` failed with. -/
  refusal : Option String := none
  received : Option Received := none
  /-- `waitpid` has failed, and it is called once. -/
  abandoned : Bool := false

namespace State

variable (s : State)

/-- The parent returns; it has no end of the pipe open. -/
def returns (result : Except String Unit) : State :=
  { s with parent := .returned result, parentEnds := {} }

/-- `read` is over. -/
def reads (received : Received) (buffer : List String) : State :=
  { s with parent := .closing received, received := some received, buffer }

/-- The child is gone, and its ends of the pipe with it. -/
def ends (ran : Bool) : State := { s with child := .ended ran, childEnds := {} }

def refuses (reason : String) : State :=
  { s with child := .writing reason, refusal := some reason }

end State

/-- What happens next, and whether anything makes it happen: the parent and
the child go on by themselves. -/
inductive Kind where
  | parent | child
  /-- A call is interrupted, a read fails, or a process is killed. -/
  | mishap
deriving DecidableEq

inductive Step (job : Job) : Kind → State → State → Prop
  | pipe {s : State} : s.parent = .piping →
      Step job .parent s { s with parent := .flagging, parentEnds := ⟨true, true⟩ }
  | pipeFails {s : State} (why : String) : s.parent = .piping →
      Step job .parent s (s.returns (.error ("cannot create report pipe: " ++ why)))
  | flag {s : State} : s.parent = .flagging →
      Step job .parent s { s with parent := .forking, cloexec := true }
  | flagFails {s : State} (why : String) : s.parent = .flagging →
      Step job .parent s
        (s.returns (.error ("cannot set FD_CLOEXEC on report pipe: " ++ why)))
  | fork {s : State} : s.parent = .forking →
      Step job .parent s
        { s with parent := .releasing, child := .releasing, childEnds := s.parentEnds }
  | forkFails {s : State} (why : String) : s.parent = .forking →
      Step job .parent s (s.returns (.error ("cannot fork: " ++ why)))
  | release {s : State} : s.parent = .releasing →
      Step job .parent s
        { s with parent := job.released, parentEnds := { s.parentEnds with write := false } }
  | group {s : State} : s.parent = .grouping → Step job .parent s { s with parent := .reading }
  /-- The read is made again. -/
  | interrupted {s : State} : s.parent = .reading → Step job .mishap s s
  | read {s : State} {reason : String} {rest : List String} : s.parent = .reading →
      s.buffer = reason :: rest → Step job .parent s (s.reads (.record reason) rest)
  /-- Nothing is left to be read, and nobody can write. -/
  | endOfFile {s : State} : s.parent = .reading → s.buffer = [] → s.parentEnds.write = false →
      s.childEnds.write = false → Step job .parent s (s.reads .nothing [])
  | readFails {s : State} : s.parent = .reading →
      Step job .mishap s (s.reads .failed s.buffer)
  | closeRecord {s : State} {reason : String} : s.parent = .closing (.record reason) →
      Step job .parent s { s with parent := .waiting reason, parentEnds := {} }
  | closeNone {s : State} {received : Received} : s.parent = .closing received →
      (∀ reason, received ≠ .record reason) → Step job .parent s (s.returns (.ok ()))
  | wait {s : State} {reason : String} {ran : Bool} : s.parent = .waiting reason →
      s.child = .ended ran →
      Step job .parent s
        { s.returns (.error (job.cannot reason)) with child := .reaped ran }
  /-- It is not made again where it was interrupted. -/
  | waitFails {s : State} {reason : String} : s.parent = .waiting reason →
      Step job .mishap s { s.returns (.error (job.cannot reason)) with abandoned := true }
  | childRelease {s : State} : s.child = .releasing →
      Step job .child s
        { s with child := .grouping, childEnds := { s.childEnds with read := false } }
  | childGroup {s : State} : s.child = .grouping →
      Step job .child s { s with child := job.grouped }
  | enter {s : State} : s.child = .entering → Step job .child s { s with child := .executing }
  | enterFails {s : State} (why : String) : s.child = .entering →
      Step job .child s (s.refuses why)
  /-- An end with `FD_CLOEXEC` is closed. -/
  | execute {s : State} : s.child = .executing →
      Step job .child s
        { s with
          child := .running
          childEnds := { s.childEnds with write := s.childEnds.write && !s.cloexec } }
  | executeFails {s : State} (why : String) : s.child = .executing →
      Step job .child s (s.refuses why)
  | write {s : State} {reason : String} : s.child = .writing reason →
      s.parentEnds.read = true →
      Step job .child s
        { s with
          child := .exiting
          buffer := s.buffer ++ [reason]
          written := s.written ++ [reason] }
  /-- Whether it was written the child does not ask. -/
  | writeFails {s : State} {reason : String} : s.child = .writing reason →
      Step job .child s { s with child := .exiting }
  | exit {s : State} : s.child = .exiting → Step job .child s (s.ends false)
  /-- The child is killed, or its program ends. -/
  | childEnds {s : State} : s.child.alive = true → Step job .mishap s (s.ends s.child.ran)
  | parentKilled {s : State} : (∀ result, s.parent ≠ .returned result) →
      Step job .mishap s { s with parent := .killed, parentEnds := {} }

inductive Reachable (job : Job) : State → Prop
  | start : Reachable job {}
  | step {s s' : State} {kind : Kind} : Reachable job s → Step job kind s s' → Reachable job s'

/-- What comes of `n` calls, and any number of mishaps between them. -/
inductive Calls (job : Job) : Nat → State → Prop
  | none : Calls job 0 {}
  | mishap {n : Nat} {s s' : State} : Calls job n s → Step job .mishap s s' → Calls job n s'
  | call {n : Nat} {s s' : State} {kind : Kind} : Calls job n s → kind ≠ .mishap →
      Step job kind s s' → Calls job (n + 1) s'

theorem Calls.reachable {job : Job} {s : State} {n : Nat} (h : Calls job n s) :
    Reachable job s := by
  induction h with
  | none => exact .start
  | mishap _ hs ih => exact .step ih hs
  | call _ _ hs ih => exact .step ih hs

/-! ## Who has which end of the pipe -/

/-- The child is not there yet. -/
def Parent.early : Parent → Bool
  | .piping | .flagging | .forking => true
  | _ => false

def Parent.holds : Parent → Ends
  | .piping | .returned _ | .killed | .waiting _ => {}
  | .flagging | .forking | .releasing => ⟨true, true⟩
  | .grouping | .reading | .closing _ => ⟨true, false⟩

def Child.holds : Child → Ends
  | .releasing => ⟨true, true⟩
  | .grouping | .entering | .executing | .writing _ | .exiting => ⟨false, true⟩
  | .unborn | .running | .ended _ | .reaped _ => {}

variable {job : Job} {s s' : State} {kind : Kind}

theorem Job.released_cases (job : Job) :
    job.released = .grouping ∨ job.released = .reading := by
  unfold released
  split
  · exact Or.inl rfl
  · exact Or.inr rfl

theorem Job.grouped_cases (job : Job) : job.grouped = .executing ∨ job.grouped = .entering := by
  unfold grouped
  split
  · exact Or.inl rfl
  · exact Or.inr rfl

/-- Each process has open what it has not closed; the write end is never
passed on to the program. -/
structure Held (s : State) : Prop where
  parent : s.parentEnds = s.parent.holds
  child : s.childEnds = s.child.holds
  early : s.parent.early = true → s.child = .unborn
  flagged : s.parent = .forking ∨ s.child ≠ .unborn → s.cloexec = true
  unborn : s.child = .unborn → s.parent.early = true ∨
    (∃ why, s.parent = .returned (.error why)) ∨ s.parent = .killed

namespace Held

/-- The child is there, and lives. -/
theorem lives (h : Held s) (hc : s.child.alive = true) :
    s.cloexec = true ∧ ¬ s.parent.early = true := by
  have hne : s.child ≠ .unborn := fun hu => by
    rw [hu] at hc
    cases hc
  exact ⟨h.flagged (Or.inr hne), fun he => hne (h.early he)⟩

/-- The child goes on. -/
theorem goes (h : Held s) (child : Child) (hc : s.child.alive = true) (hne : child ≠ .unborn)
    (hs : s' = { s with
      child := child, childEnds := child.holds, refusal := s'.refusal, buffer := s'.buffer,
      written := s'.written }) : Held s' := by
  obtain ⟨hflag, hlate⟩ := h.lives hc
  rw [hs]
  exact ⟨h.parent, rfl, fun he => absurd he hlate, fun _ => hflag, fun hu => absurd hu hne⟩

theorem step (h : Held s) (hs : Step job kind s s') : Held s' := by
  cases hs with
  | pipe hpc =>
      have hc : s.child = .unborn := h.early (by rw [hpc]; rfl)
      exact ⟨rfl, h.child, fun _ => hc, fun ho => (ho.elim (fun hp => by cases hp) fun hn =>
        absurd hc hn), fun _ => Or.inl rfl⟩
  | flag hpc =>
      have hc : s.child = .unborn := h.early (by rw [hpc]; rfl)
      exact ⟨h.parent.trans (by rw [hpc]; rfl), h.child, fun _ => hc, fun _ => rfl,
        fun _ => Or.inl rfl⟩
  | fork hpc =>
      refine ⟨h.parent.trans (by rw [hpc]; rfl), h.parent.trans (by rw [hpc]; rfl),
        fun he => (by cases he), fun _ => h.flagged (Or.inl hpc), fun hu => by cases hu⟩
  | pipeFails why hpc | flagFails why hpc | forkFails why hpc =>
      have hc : s.child = .unborn := h.early (by rw [hpc]; rfl)
      exact ⟨rfl, h.child, fun he => (by cases he), fun ho => (ho.elim (fun hp => by cases hp)
        fun hn => absurd hc hn), fun _ => Or.inr (Or.inl ⟨_, rfl⟩)⟩
  | release hpc =>
      have hc : s.child ≠ .unborn := fun hu => by
        rcases h.unborn hu with he | ⟨why, he⟩ | he <;> rw [hpc] at he <;> cases he
      have hends : s.parentEnds = ⟨true, true⟩ := h.parent.trans (by rw [hpc]; rfl)
      refine ⟨?_, h.child, fun he => ?_, fun _ => h.flagged (Or.inr hc), fun hu => absurd hu hc⟩
      · rcases job.released_cases with hj | hj <;> simp only [hends, hj, Parent.holds]
      · rcases job.released_cases with hj | hj <;> rw [hj] at he <;> cases he
  | group hpc | closeRecord hpc | read hpc _ | endOfFile hpc _ _ _ | readFails hpc =>
      have hc : s.child ≠ .unborn := fun hu => by
        rcases h.unborn hu with he | ⟨why, he⟩ | he <;> rw [hpc] at he <;> cases he
      first
        | exact ⟨h.parent.trans (by rw [hpc]; rfl), h.child, fun he => (by cases he),
            fun _ => h.flagged (Or.inr hc), fun hu => absurd hu hc⟩
        | exact ⟨rfl, h.child, fun he => (by cases he), fun _ => h.flagged (Or.inr hc),
            fun hu => absurd hu hc⟩
  | interrupted _ => exact h
  | closeNone hpc _ | waitFails hpc =>
      have hc : s.child ≠ .unborn := fun hu => by
        rcases h.unborn hu with he | ⟨why, he⟩ | he <;> rw [hpc] at he <;> cases he
      exact ⟨rfl, h.child, fun he => (by cases he), fun _ => h.flagged (Or.inr hc),
        fun hu => absurd hu hc⟩
  | wait hpc hended =>
      have hc : s.child ≠ .unborn := by
        rw [hended]
        exact fun hu => by cases hu
      exact ⟨rfl, h.child.trans (by rw [hended]; rfl), fun he => (by cases he),
        fun _ => h.flagged (Or.inr hc), fun hu => by cases hu⟩
  | childRelease hpc =>
      refine h.goes .grouping (by rw [hpc]; rfl) (fun hu => by cases hu) ?_
      simp only [h.child, hpc, Child.holds]
  | childGroup hpc =>
      have hends : s.childEnds = ⟨false, true⟩ := h.child.trans (by rw [hpc]; rfl)
      refine h.goes job.grouped (by rw [hpc]; rfl) ?_ ?_
      · rcases job.grouped_cases with hj | hj <;> rw [hj] <;> exact fun hu => by cases hu
      · rcases job.grouped_cases with hj | hj <;> simp only [hj, Child.holds, ← hends]
  | enter hpc =>
      have hends : s.childEnds = ⟨false, true⟩ := h.child.trans (by rw [hpc]; rfl)
      refine h.goes .executing (by rw [hpc]; rfl) (fun hu => by cases hu) ?_
      simp only [Child.holds, ← hends]
  | enterFails why hpc | executeFails why hpc =>
      have hends : s.childEnds = ⟨false, true⟩ := h.child.trans (by rw [hpc]; rfl)
      refine h.goes (.writing why) (by rw [hpc]; rfl) (fun hu => by cases hu) ?_
      simp only [State.refuses, Child.holds, ← hends]
  | write hpc _ | writeFails hpc =>
      have hends : s.childEnds = ⟨false, true⟩ := h.child.trans (by rw [hpc]; rfl)
      refine h.goes .exiting (by rw [hpc]; rfl) (fun hu => by cases hu) ?_
      simp only [Child.holds, ← hends]
  | execute hpc =>
      have hflag : s.cloexec = true := (h.lives (by rw [hpc]; rfl)).1
      refine h.goes .running (by rw [hpc]; rfl) (fun hu => by cases hu) ?_
      simp only [h.child, hpc, hflag, Child.holds, Bool.not_true, Bool.and_false]
  | exit hpc =>
      exact h.goes (.ended false) (by rw [hpc]; rfl) (fun hu => by cases hu) rfl
  | childEnds hlive =>
      exact h.goes (.ended s.child.ran) hlive (fun hu => by cases hu) rfl
  | parentKilled _ =>
      exact ⟨rfl, h.child, fun he => (by cases he), fun ho => (ho.elim (fun hp => by cases hp)
        fun hn => h.flagged (Or.inr hn)), fun _ => Or.inr (Or.inr rfl)⟩

end Held

/-! ## What the child has said -/

/-- It has failed at nothing. -/
def Child.unharmed : Child → Bool
  | .unborn | .releasing | .grouping | .entering | .executing | .running => true
  | .ended ran | .reaped ran => ran
  | .writing _ | .exiting => false

/-- A report is made at most once, by a child that will not begin, and tells
what it failed with. -/
structure Said (s : State) : Prop where
  unharmed : s.child.unharmed = true → s.refusal = none ∧ s.written = []
  writing : ∀ reason, s.child = .writing reason → s.refusal = some reason ∧ s.written = []
  report : ∀ reason ∈ s.written, s.written = [reason] ∧ s.refusal = some reason ∧
    s.child.ran = false

namespace Said

theorem same (h : Said s) (hc : s'.child = s.child) (hr : s'.refusal = s.refusal)
    (hw : s'.written = s.written) : Said s' := by
  refine ⟨fun hu => ?_, fun reason hp => ?_, fun reason hm => ?_⟩
  · rw [hr, hw]
    exact h.unharmed (hc ▸ hu)
  · rw [hr, hw]
    exact h.writing reason (hc ▸ hp)
  · rw [hr, hw, hc]
    exact h.report reason (hw ▸ hm)

/-- Nothing is said. -/
theorem calm (hr : s'.refusal = none) (hw : s'.written = [])
    (hc : ∀ reason, s'.child ≠ .writing reason) : Said s' :=
  ⟨fun _ => ⟨hr, hw⟩, fun reason hp => absurd hp (hc reason), fun reason hm => by
    rw [hw] at hm
    cases hm⟩

/-- The child fails, and has said nothing. -/
theorem refuses (h : Said s) (hc : s.child.unharmed = true) (why : String) :
    Said (s.refuses why) := by
  obtain ⟨-, hw⟩ := h.unharmed hc
  refine ⟨fun hu => (by cases hu), fun reason hp => ?_, fun reason hm => ?_⟩
  · cases hp
    exact ⟨rfl, hw⟩
  · simp only [State.refuses, hw] at hm
    cases hm

/-- The child is gone. -/
theorem ended (h : Said s) (ran : Bool) (hc : s'.child = .ended ran ∨ s'.child = .reaped ran)
    (hran : s.child.ran = ran) (hu : ran = true → s.child.unharmed = true)
    (hr : s'.refusal = s.refusal) (hw : s'.written = s.written) : Said s' := by
  have hsame : s'.child.unharmed = ran ∧ s'.child.ran = ran ∧
      ∀ reason, s'.child ≠ .writing reason := by
    rcases hc with hc | hc <;> rw [hc] <;> exact ⟨rfl, rfl, fun _ he => by cases he⟩
  refine ⟨fun hu' => ?_, fun reason hp => absurd hp (hsame.2.2 reason), fun reason hm => ?_⟩
  · rw [hr, hw]
    exact h.unharmed (hu (hsame.1 ▸ hu'))
  · rw [hr, hw, hsame.2.1, ← hran]
    exact h.report reason (hw ▸ hm)

theorem step (h : Said s) (hh : Held s) (hs : Step job kind s s') : Said s' := by
  cases hs with
  | fork hpc =>
      have hc : s.child = .unborn := hh.early (by rw [hpc]; rfl)
      obtain ⟨hr, hw⟩ := h.unharmed (by rw [hc]; rfl)
      exact calm hr hw fun _ he => by cases he
  | wait hpc hended =>
      rename_i ran
      refine h.ended ran (Or.inr rfl) (by rw [hended]; rfl) (fun hran => ?_) rfl rfl
      rw [hended]
      exact hran
  | childRelease hpc | enter hpc | execute hpc =>
      obtain ⟨hr, hw⟩ := h.unharmed (by rw [hpc]; rfl)
      exact calm hr hw fun _ he => by cases he
  | childGroup hpc =>
      obtain ⟨hr, hw⟩ := h.unharmed (by rw [hpc]; rfl)
      refine calm hr hw fun _ he => ?_
      rcases job.grouped_cases with hj | hj <;> exact absurd (hj.symm.trans he) (by simp)
  | enterFails why hpc | executeFails why hpc => exact h.refuses (by rw [hpc]; rfl) why
  | @write _ reason hpc _ =>
      obtain ⟨hr, hw⟩ := h.writing reason hpc
      refine ⟨fun hu => (by cases hu), fun _ hp => (by cases hp), fun reason' hm => ?_⟩
      simp only [hw, List.nil_append, List.mem_singleton] at hm ⊢
      subst hm
      exact ⟨rfl, hr, rfl⟩
  | @writeFails _ reason hpc =>
      obtain ⟨hr, hw⟩ := h.writing reason hpc
      refine ⟨fun hu => (by cases hu), fun _ hp => (by cases hp), fun reason' hm => ?_⟩
      simp only [hw] at hm
      cases hm
  | exit hpc =>
      exact h.ended false (Or.inl rfl) (by rw [hpc]; rfl) (fun hran => by cases hran)
        rfl rfl
  | childEnds hlive =>
      refine h.ended s.child.ran (Or.inl rfl) rfl (fun hran => ?_) rfl rfl
      cases hc : s.child <;> simp_all [Child.ran, Child.unharmed]
  | _ => exact h.same rfl rfl rfl

end Said

/-! ## What the parent has heard -/

/-- It has not read. -/
def Parent.before : Parent → Bool
  | .piping | .flagging | .forking | .releasing | .grouping | .reading => true
  | .closing _ | .waiting _ | .returned _ | .killed => false

/-- It will not write. -/
def Child.mute : Child → Bool
  | .running | .ended _ | .reaped _ => true
  | _ => false

structure Heard (job : Job) (s : State) : Prop where
  before : s.parent.before = true → s.received = none
  buffer : s.received = none → s.buffer = s.written
  closing : ∀ received, s.parent = .closing received → s.received = some received
  waiting : ∀ reason, s.parent = .waiting reason → s.received = some (.record reason)
  record : ∀ reason, s.received = some (.record reason) → s.written = [reason]
  nothing : s.received = some .nothing → s.written = [] ∧ s.child.mute = true
  ok : s.parent = .returned (.ok ()) → s.received = some .nothing ∨ s.received = some .failed
  error : ∀ why, s.parent = .returned (.error why) → s.child = .unborn ∨
    ∃ reason, why = job.cannot reason ∧ s.refusal = some reason ∧ s.written = [reason] ∧
      (s.child = .reaped false ∨ s.abandoned = true)

namespace Heard

/-- The child goes on, and writes nothing; what it has written it stands by. -/
theorem goes (h : Heard job s) (hlive : s.child.alive = true)
    (hmute : s.child.mute = true → s'.child.mute = true)
    (hrefusal : s.written ≠ [] → s'.refusal = s.refusal) (hp : s'.parent = s.parent)
    (hr : s'.received = s.received) (hb : s'.buffer = s.buffer) (hw : s'.written = s.written)
    (ha : s'.abandoned = s.abandoned) : Heard job s' := by
  refine ⟨?_, ?_, ?_, ?_, ?_, ?_, ?_, ?_⟩ <;> simp only [hp, hr, hb, hw, ha]
  · exact h.before
  · exact h.buffer
  · exact h.closing
  · exact h.waiting
  · exact h.record
  · exact fun hn => ⟨(h.nothing hn).1, hmute (h.nothing hn).2⟩
  · exact h.ok
  · intro why hret
    rcases h.error why hret with hc | ⟨reason, hwhy, hrefused, hwritten, hc | hc⟩
    · rw [hc] at hlive
      cases hlive
    · rw [hc] at hlive
      cases hlive
    · refine Or.inr ⟨reason, hwhy, ?_, hwritten, Or.inr hc⟩
      rw [hrefusal (by rw [hwritten]; simp), hrefused]

/-- The parent goes on, and has not read. -/
theorem onward (h : Heard job s) (hb : s.parent.before = true) (hb' : s'.parent.before = true)
    (hr : s'.received = s.received) (hbuf : s'.buffer = s.buffer) (hw : s'.written = s.written) :
    Heard job s' := by
  have hnone : s'.received = none := hr.trans (h.before hb)
  refine ⟨fun _ => hnone, fun _ => ?_, fun r hc => ?_, fun r hc => ?_, fun r hrec => ?_,
    fun hrec => ?_, fun hret => ?_, fun why hret => ?_⟩
  · rw [hbuf, hw]
    exact h.buffer (h.before hb)
  · rw [hc] at hb'
    cases hb'
  · rw [hc] at hb'
    cases hb'
  · rw [hnone] at hrec
    cases hrec
  · rw [hnone] at hrec
    cases hrec
  · rw [hret] at hb'
    cases hb'
  · rw [hret] at hb'
    cases hb'

/-- The parent fails before there is a child. -/
theorem early (h : Heard job s) (hh : Held s) (he : s.parent.early = true) (why : String) :
    Heard job (s.returns (.error why)) := by
  have hnone : s.received = none := h.before (by
    cases hp : s.parent <;> rw [hp] at he <;> first | rfl | cases he)
  refine ⟨fun hb => (by cases hb), fun _ => h.buffer hnone, fun _ hc => (by cases hc),
    fun _ hc => (by cases hc), fun r hrec => ?_, fun hrec => ?_, fun hret => (by cases hret),
    fun _ _ => Or.inl (hh.early he)⟩
  · exact absurd (hrec.symm.trans hnone) (by simp)
  · exact absurd (hrec.symm.trans hnone) (by simp)

theorem step (h : Heard job s) (hh : Held s) (hsaid : Said s) (hs : Step job kind s s') :
    Heard job s' := by
  cases hs with
  | pipe hpc | flag hpc | fork hpc | group hpc =>
      exact h.onward (by rw [hpc]; rfl) rfl rfl rfl rfl
  | pipeFails why hpc | flagFails why hpc | forkFails why hpc =>
      exact h.early hh (by rw [hpc]; rfl) _
  | release hpc =>
      refine h.onward (by rw [hpc]; rfl) ?_ rfl rfl rfl
      rcases job.released_cases with hj | hj <;> simp only [hj, Parent.before]
  | interrupted _ => exact h
  | @read _ reason rest hpc hbuf =>
      have hnone := h.before (by rw [hpc]; rfl)
      have hmem : reason ∈ s.written := by
        rw [← h.buffer hnone, hbuf]
        exact List.mem_cons_self
      refine ⟨fun hb => (by cases hb), fun hrec => (by cases hrec), fun r hc => ?_,
        fun _ hc => (by cases hc), fun r hrec => ?_, fun hrec => (by cases hrec),
        fun hret => (by cases hret), fun _ hret => by cases hret⟩
      · cases hc
        rfl
      · cases hrec
        exact (hsaid.report reason hmem).1
  | endOfFile hpc hbuf hpw hcw =>
      have hnone := h.before (by rw [hpc]; rfl)
      refine ⟨fun hb => (by cases hb), fun hrec => (by cases hrec), fun r hc => ?_,
        fun _ hc => (by cases hc), fun r hrec => (by cases hrec), fun _ => ⟨?_, ?_⟩,
        fun hret => (by cases hret), fun _ hret => by cases hret⟩
      · cases hc
        rfl
      · exact (h.buffer hnone).symm.trans hbuf
      · -- the child has closed its end, and so it is beyond writing
        have hends := hh.child
        cases hc : s.child <;> simp only [hc, Child.holds] at hends <;>
          simp only [hends] at hcw <;> simp_all [Child.mute, State.reads]
        rcases hh.unborn hc with he | ⟨why, he⟩ | he <;> rw [hpc] at he <;> cases he
  | readFails hpc =>
      refine ⟨fun hb => (by cases hb), fun hrec => (by cases hrec), fun r hc => ?_,
        fun _ hc => (by cases hc), fun r hrec => (by cases hrec), fun hrec => (by cases hrec),
        fun hret => (by cases hret), fun _ hret => by cases hret⟩
      cases hc
      rfl
  | closeRecord hpc =>
      have hrec := h.closing _ hpc
      refine ⟨fun hb => (by cases hb), h.buffer, fun r hc => (by cases hc), fun _ hc => ?_,
        h.record, h.nothing, fun hret => (by cases hret), fun _ hret => by cases hret⟩
      cases hc
      exact hrec
  | @closeNone _ received hpc hno =>
      have hrec := h.closing _ hpc
      refine ⟨fun hb => (by cases hb), h.buffer, fun r hc => (by cases hc),
        fun _ hc => (by cases hc), h.record, h.nothing, fun _ => ?_, fun _ hret => by cases hret⟩
      cases received with
      | record reason => exact absurd rfl (hno reason)
      | nothing => exact Or.inl hrec
      | failed => exact Or.inr hrec
  | @wait _ reason ran hpc hended =>
      have hrec := h.waiting _ hpc
      have hw := h.record _ hrec
      obtain ⟨-, hrefused, hran⟩ := hsaid.report reason (by rw [hw]; exact List.mem_cons_self)
      rw [hended] at hran
      cases hran
      refine ⟨fun hb => (by cases hb), h.buffer, fun r hc => (by cases hc),
        fun _ hc => (by cases hc), h.record, fun hn => ⟨(h.nothing hn).1, rfl⟩,
        fun hret => (by cases hret), fun why hret => ?_⟩
      cases hret
      exact Or.inr ⟨reason, rfl, hrefused, hw, Or.inl rfl⟩
  | @waitFails _ reason hpc =>
      have hrec := h.waiting _ hpc
      have hw := h.record _ hrec
      obtain ⟨-, hrefused, -⟩ := hsaid.report reason (by rw [hw]; exact List.mem_cons_self)
      refine ⟨fun hb => (by cases hb), h.buffer, fun r hc => (by cases hc),
        fun _ hc => (by cases hc), h.record, h.nothing, fun hret => (by cases hret),
        fun why hret => ?_⟩
      cases hret
      exact Or.inr ⟨reason, rfl, hrefused, hw, Or.inr rfl⟩
  | @write _ reason hpc hread =>
      obtain ⟨hrefused, hw⟩ := hsaid.writing reason hpc
      refine ⟨h.before, fun hnone => ?_, h.closing, h.waiting, fun r hrec => ?_, fun hrec => ?_,
        h.ok, fun why hret => ?_⟩
      · exact congrArg (· ++ [reason]) (h.buffer hnone)
      · exact absurd (h.record r hrec) (by rw [hw]; simp)
      · have hmute := (h.nothing hrec).2
        rw [hpc] at hmute
        cases hmute
      · rcases h.error why hret with hc | ⟨_, -, -, hwritten, -⟩
        · rw [hc] at hpc
          cases hpc
        · rw [hw] at hwritten
          cases hwritten
  | enterFails why hpc | executeFails why hpc =>
      have hw := (hsaid.unharmed (by rw [hpc]; rfl)).2
      refine h.goes (by rw [hpc]; rfl) (fun hm => ?_) (absurd hw) rfl rfl rfl rfl rfl
      rw [hpc] at hm
      cases hm
  | childRelease hpc | enter hpc | execute hpc | writeFails hpc | exit hpc | childGroup hpc =>
      refine h.goes (by rw [hpc]; rfl) (fun hm => ?_) (fun _ => rfl) rfl rfl rfl rfl rfl
      rw [hpc] at hm
      cases hm
  | childEnds hlive => exact h.goes hlive (fun _ => rfl) (fun _ => rfl) rfl rfl rfl rfl rfl
  | parentKilled _ =>
      exact ⟨fun hb => (by cases hb), h.buffer, fun r hc => (by cases hc),
        fun _ hc => (by cases hc), h.record, h.nothing, fun hret => (by cases hret),
        fun _ hret => by cases hret⟩

end Heard

/-! ## What the parent returns -/

theorem reachable_sound (hr : Reachable job s) : Held s ∧ Said s ∧ Heard job s := by
  induction hr with
  | start =>
      refine ⟨⟨rfl, rfl, fun _ => rfl, fun h => ?_, fun _ => Or.inl rfl⟩,
        ⟨fun _ => ⟨rfl, rfl⟩, fun _ h => (by cases h), fun _ h => (by cases h)⟩,
        ⟨fun _ => rfl, fun _ => rfl, fun _ h => (by cases h), fun _ h => (by cases h),
          fun _ h => (by cases h), fun h => (by cases h), fun h => (by cases h),
          fun _ h => by cases h⟩⟩
      exact h.elim (fun hp => by cases hp) fun hn => absurd rfl hn
  | step _ hs ih =>
      obtain ⟨hh, hsaid, hheard⟩ := ih
      exact ⟨hh.step hs, hsaid.step hh hs, hheard.step hh hsaid hs⟩

/-- Who has waited for the child, or has failed to, has returned. -/
theorem waited_returned (hr : Reachable job s)
    (hw : (∃ ran, s.child = .reaped ran) ∨ s.abandoned = true) :
    ∃ why, s.parent = .returned (.error why) := by
  induction hr with
  | start =>
      rcases hw with ⟨ran, hc⟩ | ha
      · cases hc
      · cases ha
  | step _ hs ih =>
      cases hs with
      | wait _ _ | waitFails _ => exact ⟨_, rfl⟩
      | pipe hpc | pipeFails _ hpc | flag hpc | flagFails _ hpc | forkFails _ hpc | release hpc
      | group hpc | interrupted hpc | read hpc _ | endOfFile hpc _ _ _ | readFails hpc
      | closeRecord hpc | closeNone hpc _ =>
          obtain ⟨why, hret⟩ := ih hw
          rw [hret] at hpc
          cases hpc
      | fork hpc =>
          obtain ⟨why, hret⟩ := ih (.inr (hw.resolve_left fun ⟨_, hc⟩ => by cases hc))
          rw [hret] at hpc
          cases hpc
      | parentKilled hno =>
          obtain ⟨why, hret⟩ := ih hw
          exact absurd hret (hno _)
      | childGroup _ =>
          refine ih (.inr (hw.resolve_left ?_))
          rintro ⟨ran, hc⟩
          rcases job.grouped_cases with hj | hj <;> rw [hj] at hc <;> cases hc
      | _ => exact ih (.inr (hw.resolve_left fun ⟨_, hc⟩ => by cases hc))

theorem Job.cannot_inj {reason reason' : String} (h : job.cannot reason = job.cannot reason') :
    reason = reason' := by
  have htext := congrArg String.toList h
  simp only [cannot, String.toList_append, List.append_cancel_left_eq] at htext
  exact String.toList_inj.mp htext

/-- The parent names what the child failed with just where the child failed
with it and was waited for, or `waitpid` failed. -/
theorem named_iff (hr : Reachable job s) (reason : String) :
    (s.parent = .returned (.error (job.cannot reason)) ∧ s.child ≠ .unborn) ↔
      s.refusal = some reason ∧ (s.child = .reaped false ∨ s.abandoned = true) := by
  obtain ⟨hh, hsaid, hheard⟩ := reachable_sound hr
  constructor
  · rintro ⟨hret, hborn⟩
    rcases hheard.error _ hret with hc | ⟨reason', hwhy, hrefused, -, hends⟩
    · exact absurd hc hborn
    · rw [Job.cannot_inj hwhy]
      exact ⟨hrefused, hends⟩
  · rintro ⟨hrefused, hends⟩
    have hborn : s.child ≠ .unborn := fun hc => by
      rw [(hsaid.unharmed (by rw [hc]; rfl)).1] at hrefused
      cases hrefused
    obtain ⟨why, hret⟩ := waited_returned hr (hends.imp_left fun hc => ⟨false, hc⟩)
    rcases hheard.error why hret with hc | ⟨reason', rfl, hrefused', -⟩
    · exact absurd hc hborn
    · cases hrefused.symm.trans hrefused'
      exact ⟨hret, hborn⟩

/-- In every order of the calls of the parent and of the child, with kills
between them: a parent that returns has no end of the pipe open.  If it
returns an error there is no child, or the child has failed with what it says
and has not begun; and of what the child has failed with it says so just where
the child is no zombie, or `waitpid` failed.  If it returns well the child has
begun, or has ended without a word, unless the parent could not read. -/
theorem report_is_true (hr : Reachable job s) :
    (∀ result, s.parent = .returned result → s.parentEnds = {}) ∧
    (∀ why, s.parent = .returned (.error why) → s.child = .unborn ∨
      ∃ reason, why = job.cannot reason ∧ s.refusal = some reason ∧ s.child.ran = false) ∧
    (∀ reason, (s.parent = .returned (.error (job.cannot reason)) ∧ s.child ≠ .unborn) ↔
      s.refusal = some reason ∧ (s.child = .reaped false ∨ s.abandoned = true)) ∧
    (s.parent = .returned (.ok ()) → s.received = some .failed ∨
      s.written = [] ∧ (s.child.ran = true ∨ s.child = .ended false)) := by
  obtain ⟨hh, hsaid, hheard⟩ := reachable_sound hr
  refine ⟨fun result hret => hh.parent.trans (by rw [hret]; rfl), fun why hret => ?_,
    named_iff hr, fun hret => ?_⟩
  · rcases hheard.error why hret with hc | ⟨reason, hwhy, hrefused, hw, -⟩
    · exact Or.inl hc
    · obtain ⟨-, -, hran⟩ := hsaid.report reason (by rw [hw]; exact List.mem_cons_self)
      exact Or.inr ⟨reason, hwhy, hrefused, hran⟩
  rcases hheard.ok hret with hnothing | hfailed
  · obtain ⟨hw, hmute⟩ := hheard.nothing hnothing
    refine Or.inr ⟨hw, ?_⟩
    cases hc : s.child with
    | running => exact Or.inl rfl
    | ended ran =>
        cases ran with
        | true => exact Or.inl rfl
        | false => exact Or.inr rfl
    | reaped ran =>
        obtain ⟨why, herr⟩ := waited_returned hr (.inl ⟨_, hc⟩)
        rw [hret] at herr
        cases herr
    | _ =>
        rw [hc] at hmute
        cases hmute
  · exact Or.inl hfailed

namespace Sample

/-- A service whose executable is gone. -/
def service : Job := startJob ⟨["srv", "app"], [], ""⟩

/-- The parent is reading, and the child has just begun. -/
theorem forked : Calls service 5
    { parent := .reading, child := .releasing, parentEnds := ⟨true, false⟩,
      childEnds := ⟨true, true⟩, cloexec := true } := by
  have hpiped : Calls service 1 _ := .call .none (by decide) (.pipe rfl)
  have hforked : Calls service 3 _ :=
    .call (.call hpiped (by decide) (.flag rfl)) (by decide) (.fork rfl)
  exact .call (.call hforked (by decide) (.release rfl)) (by decide) (.group rfl)

/-- The child could not run it, has said so, and was waited for. -/
def missing : State where
  parent := .returned (.error (service.cannot "No such file or directory"))
  child := .reaped false
  cloexec := true
  written := ["No such file or directory"]
  refusal := some "No such file or directory"
  received := some (.record "No such file or directory")

theorem refused : Calls service 13 missing := by
  have hgrouped : Calls service 7 _ :=
    .call (.call forked (by decide) (.childRelease rfl)) (by decide) (.childGroup rfl)
  have hwritten : Calls service 9 _ :=
    .call (.call hgrouped (by decide) (.executeFails "No such file or directory" rfl))
      (by decide) (.write rfl rfl)
  have hread : Calls service 11 _ :=
    .call (.call hwritten (by decide) (.read rfl rfl)) (by decide) (.closeRecord rfl)
  exact .call (.call hread (by decide) (.exit rfl)) (by decide) (.wait rfl rfl)

end Sample

/-- The parent names the reason, and the child is no zombie. -/
theorem report_is_true_refused : Reachable Sample.service Sample.missing ∧
    Sample.missing.parentEnds = {} ∧ Sample.missing.parent =
      .returned (.error (Sample.service.cannot "No such file or directory")) := by
  have hr := Sample.refused.reachable
  obtain ⟨hends, -, hnamed, -⟩ := report_is_true hr
  have hret := ((hnamed "No such file or directory").mpr ⟨rfl, .inl rfl⟩).1
  exact ⟨hr, hends _ hret, hret⟩

/-! ## The parent does return -/

/-- How many calls the parent has still to make. -/
def Parent.todo : Parent → Nat
  | .piping => 9
  | .flagging => 8
  | .forking => 7
  | .releasing => 6
  | .grouping => 5
  | .reading => 4
  | .closing _ => 3
  | .waiting _ => 2
  | .returned _ | .killed => 0

/-- How many calls the child has still to make, until it runs the program or
exits.  One that has not been made has them all to make. -/
def Child.todo : Child → Nat
  | .unborn => 7
  | .releasing => 6
  | .grouping => 5
  | .entering => 4
  | .executing => 3
  | .writing _ => 2
  | .exiting => 1
  | .running | .ended _ | .reaped _ => 0

def State.todo (s : State) : Nat := s.parent.todo + s.child.todo

/-- A mishap makes no work. -/
theorem mishap_todo (hs : Step job .mishap s s') : s'.todo ≤ s.todo := by
  cases hs with
  | interrupted _ => exact Nat.le_refl _
  | readFails hpc => simp [State.todo, State.reads, hpc, Parent.todo]
  | waitFails _ => exact Nat.add_le_add_right (Nat.zero_le _) _
  | childEnds _ => exact Nat.le_add_right _ _
  | parentKilled _ => exact Nat.add_le_add_right (Nat.zero_le _) _

/-- A call of the parent or of the child is one less to be made. -/
theorem call_todo (hh : Held s) (hk : kind ≠ .mishap) (hs : Step job kind s s') :
    s'.todo < s.todo := by
  cases hs with
  | interrupted _ | readFails _ | waitFails _ | childEnds _ | parentKilled _ => exact absurd rfl hk
  | release hpc =>
      rcases job.released_cases with hj | hj <;>
        simp [State.todo, hpc, hj, Parent.todo]
  | childGroup hpc =>
      rcases job.grouped_cases with hj | hj <;> simp [State.todo, hpc, hj, Child.todo]
  | wait hpc hended =>
      simp [State.todo, State.returns, hpc, hended, Parent.todo, Child.todo]
  | fork hpc =>
      have hc : s.child = .unborn := hh.early (by rw [hpc]; rfl)
      simp [State.todo, hpc, hc, Parent.todo, Child.todo]
  | _ =>
      simp_all [State.todo, State.returns, State.reads, State.ends, State.refuses, Parent.todo,
        Child.todo]

/-- A child that can still write goes on by itself. -/
theorem child_goes (job : Job) (hh : Held s) (hw : s.childEnds.write = true) :
    ∃ s', Step job .child s s' := by
  have hends := hh.child
  cases hc : s.child with
  | releasing => exact ⟨_, .childRelease hc⟩
  | grouping => exact ⟨_, .childGroup hc⟩
  | entering => exact ⟨_, .enter hc⟩
  | executing => exact ⟨_, .execute hc⟩
  | writing reason => exact ⟨_, .writeFails hc⟩
  | exiting => exact ⟨_, .exit hc⟩
  | unborn | running | ended _ | reaped _ =>
      rw [hends, hc] at hw
      cases hw

/-- A parent that has not returned goes on, or its child does. -/
theorem not_stuck (hr : Reachable job s) (hk : s.parent ≠ .killed)
    (hret : ∀ result, s.parent ≠ .returned result) :
    ∃ kind s', kind ≠ .mishap ∧ Step job kind s s' := by
  obtain ⟨hh, hsaid, hheard⟩ := reachable_sound hr
  cases hp : s.parent with
  | piping => exact ⟨.parent, _, by decide, .pipe hp⟩
  | flagging => exact ⟨.parent, _, by decide, .flag hp⟩
  | forking => exact ⟨.parent, _, by decide, .fork hp⟩
  | releasing => exact ⟨.parent, _, by decide, .release hp⟩
  | grouping => exact ⟨.parent, _, by decide, .group hp⟩
  | reading =>
      cases hb : s.buffer with
      | cons reason rest => exact ⟨.parent, _, by decide, .read hp hb⟩
      | nil =>
          cases hw : s.childEnds.write with
          | true =>
              obtain ⟨s', hs⟩ := child_goes job hh hw
              exact ⟨.child, s', by decide, hs⟩
          | false =>
              have hpw : s.parentEnds.write = false := by rw [hh.parent, hp]; rfl
              exact ⟨.parent, _, by decide, .endOfFile hp hb hpw hw⟩
  | closing received =>
      cases received with
      | record reason => exact ⟨.parent, _, by decide, .closeRecord hp⟩
      | nothing => exact ⟨.parent, _, by decide, .closeNone hp fun _ he => by cases he⟩
      | failed => exact ⟨.parent, _, by decide, .closeNone hp fun _ he => by cases he⟩
  | waiting reason =>
      -- the child has made its report: it exits, or has
      have hw := hheard.record _ (hheard.waiting _ hp)
      obtain ⟨-, hrefused, -⟩ := hsaid.report reason (by rw [hw]; exact List.mem_cons_self)
      cases hc : s.child with
      | exiting => exact ⟨.child, _, by decide, .exit hc⟩
      | ended ran => exact ⟨.parent, _, by decide, .wait hp hc⟩
      | reaped ran =>
          obtain ⟨why, herr⟩ := waited_returned hr (.inl ⟨_, hc⟩)
          exact absurd herr (hret _)
      | writing r =>
          have hnone := (hsaid.writing r hc).2
          rw [hw] at hnone
          cases hnone
      | unborn | releasing | grouping | entering | executing | running =>
          have hnone := (hsaid.unharmed (by rw [hc]; rfl)).1
          rw [hrefused] at hnone
          cases hnone
  | returned result => exact absurd hp (hret result)
  | killed => exact absurd hp hk

theorem Calls.todo {n : Nat} (h : Calls job n s) : n + s.todo ≤ 16 := by
  induction h with
  | none => exact Nat.le_refl _
  | mishap _ hs ih => exact Nat.le_trans (Nat.add_le_add_left (mishap_todo hs) _) ih
  | call h hk hs ih =>
      have hless := call_todo (reachable_sound h.reachable).1 hk hs
      omega

/-- The parent and the child make 16 calls at most, interrupted reads apart,
and where neither has one to make the parent has returned or was killed: it is
never left waiting for a child that has nothing to do. -/
theorem parent_returns {n : Nat} (h : Calls job n s) :
    n ≤ 16 ∧ ((∀ kind s', Step job kind s s' → kind = .mishap) →
      (∃ result, s.parent = .returned result) ∨ s.parent = .killed) := by
  refine ⟨Nat.le_trans (Nat.le_add_right _ _) h.todo, fun hdone => ?_⟩
  by_contra hno
  obtain ⟨hret, hkilled⟩ := not_or.mp hno
  obtain ⟨kind, s', hk, hs⟩ := not_stuck h.reachable hkilled fun result he => hret ⟨result, he⟩
  exact hk (hdone kind s' hs)

/-- The child that could not begin: after 13 calls nothing is left to happen,
and the parent has returned. -/
theorem parent_returns_refused : Calls Sample.service 13 Sample.missing ∧
    ((∃ result, Sample.missing.parent = .returned result) ∨
      Sample.missing.parent = .killed) := by
  refine ⟨Sample.refused, (parent_returns Sample.refused).2 fun kind s' hs => ?_⟩
  cases hs with
  | parentKilled hno => exact absurd rfl (hno _)
  | childEnds hlive => cases hlive
  | read hpc _ | endOfFile hpc _ _ _ | closeNone hpc _ | wait hpc _ | write hpc _ => cases hpc
  | _ =>
      rename_i hpc
      cases hpc

end Yirang.Posix.Spawn
