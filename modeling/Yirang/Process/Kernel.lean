/-
# `Yirang.Process.Kernel` — the processes of a POSIX system

The supervisor is written against `fork`, `waitpid`, `kill` and the start
times that the system gives out.  This is what it may rely on:

    Kernel      the process table.  No two processes have one pid, and no
                process has the pid of a group that it did not found
    Happening   what goes on without the supervisor: processes end, are born
                and change their group, and zombies vanish
    answer      what a call returns and leaves, after some happenings

A process that ended is a zombie until its parent has waited for it; the
children of the supervisor wait for the supervisor.  A group is named by the
process that founded it, with its token, so that a process which reused the
pid of a founder is told apart.  `SIGKILL` ends a process at once, and
`SIGTERM` is only noted: what comes of it is a happening.  A wait that
blocks is not interrupted, since the handlers of the program restart it.
-/
import Yirang.Device

namespace Yirang

open Effect

namespace Posix

/-! ## Processes -/

/-- What `waitpid` reports. -/
inductive WaitStatus where
  | exited (code : Int)
  | signaled (signal : Int)
  | other
deriving DecidableEq

@[ext]
structure Proc where
  pid : Int := 0
  /-- When it was started. -/
  token : BitVec 64 := 0
  /-- The founder of its group. -/
  leader : ProcessHandle := {}
  /-- A child of the supervisor. -/
  child : Bool := false
  /-- How it ended. -/
  ended : Option WaitStatus := none
  /-- It may end once it was told to, with `SIGTERM`. -/
  obeys : Bool := true
  /-- It may end by itself. -/
  ends : Bool := true
  told : Bool := false
deriving DecidableEq

def Proc.handle (q : Proc) : ProcessHandle := ⟨q.pid, q.token⟩

/-- Signal 0 only asks. -/
inductive Signal where
  | probe | term | kill
deriving DecidableEq

/-- A signal that was sent, and whom it reached. -/
structure Sent where
  signal : Signal
  target : Int
  reached : List Proc

/-- The process table, the group of the supervisor, and the signals the
supervisor sent, newest first. -/
structure Kernel where
  procs : List Proc
  home : ProcessHandle
  sent : List Sent
  distinct : (procs.map Proc.pid).Nodup
  bounded : ∀ q ∈ procs, 0 < q.pid ∧ q.pid < 2147483648
  founded : ∀ g ∈ home :: procs.map Proc.leader, ∀ x ∈ procs, g.id = x.pid → g = x.handle
  init : ∀ q ∈ procs, q.pid = 1 → q.leader.id ≤ 1

namespace Kernel

variable {w : Kernel} {p : Int} {g : ProcessHandle} {q x : Proc}

/-- The groups there are. -/
def groups (w : Kernel) : List ProcessHandle := w.home :: w.procs.map Proc.leader

/-- The processes that the supervisor can wait for. -/
def children (w : Kernel) : List ProcessHandle :=
  (w.procs.filter Proc.child).map Proc.handle

theorem eq_of_pid (hx : x ∈ w.procs) (hq : q ∈ w.procs) (h : x.pid = q.pid) : x = q :=
  List.inj_on_of_nodup_map w.distinct hx hq h

theorem mem_children : g ∈ w.children ↔ ∃ q ∈ w.procs, q.child = true ∧ q.handle = g := by
  simp [children, and_assoc]

theorem leader_mem_groups (h : q ∈ w.procs) : q.leader ∈ w.groups :=
  List.mem_cons_of_mem _ (List.mem_map_of_mem h)

/-! ## Changes of the table -/

/-- The processes stay who they are; they may found a group or join one. -/
def Respects (w : Kernel) (f : Proc → Proc) : Prop :=
  ∀ q ∈ w.procs, (f q).handle = q.handle ∧
    ((f q).leader = q.leader ∨ q.pid ≠ 1 ∧ ((f q).leader ∈ w.groups ∨ (f q).leader = q.handle))

theorem Respects.pid {f : Proc → Proc} (h : w.Respects f) (hq : q ∈ w.procs) :
    (f q).pid = q.pid :=
  congrArg ProcessHandle.id (h q hq).1

theorem Respects.leader {f : Proc → Proc} (h : w.Respects f) (hq : q ∈ w.procs) :
    (f q).leader ∈ w.groups ∨ (f q).leader = q.handle := by
  rcases (h q hq).2 with he | ⟨_, he⟩
  · exact Or.inl (he ▸ leader_mem_groups hq)
  · exact he

theorem founded_by (w : Kernel) (hg : g ∈ w.groups ∨ g = q.handle) (hq : q ∈ w.procs)
    (hx : x ∈ w.procs) (h : g.id = x.pid) : g = x.handle := by
  rcases hg with hg | rfl
  · exact w.founded g hg x hx h
  · rw [eq_of_pid hq hx h]

def change (w : Kernel) (f : Proc → Proc) (h : w.Respects f) : Kernel where
  procs := w.procs.map f
  home := w.home
  sent := w.sent
  distinct := by
    have hsame : (w.procs.map f).map Proc.pid = w.procs.map Proc.pid := by
      rw [List.map_map]
      exact List.map_congr_left fun q hq => h.pid hq
    rw [hsame]
    exact w.distinct
  bounded q hq := by
    obtain ⟨x, hx, rfl⟩ := List.mem_map.mp hq
    rw [h.pid hx]
    exact w.bounded x hx
  founded g hg y hy hid := by
    obtain ⟨x, hx, rfl⟩ := List.mem_map.mp hy
    rw [h.pid hx] at hid
    rw [(h x hx).1]
    rcases List.mem_cons.mp hg with rfl | hg
    · exact w.founded _ List.mem_cons_self x hx hid
    · obtain ⟨y, hy, rfl⟩ := List.mem_map.mp hg
      obtain ⟨q, hq, rfl⟩ := List.mem_map.mp hy
      exact w.founded_by (h.leader hq) hq hx hid
  init q hq hone := by
    obtain ⟨x, hx, rfl⟩ := List.mem_map.mp hq
    rw [h.pid hx] at hone
    rcases (h x hx).2 with he | ⟨hne, _⟩
    · rw [he]
      exact w.init x hx hone
    · exact absurd hone hne

def retain (w : Kernel) (keep : Proc → Bool) : Kernel where
  procs := w.procs.filter keep
  home := w.home
  sent := w.sent
  distinct := w.distinct.sublist (List.Sublist.map _ List.filter_sublist)
  bounded q hq := w.bounded q (List.mem_filter.mp hq).1
  founded g hg x hx hid := by
    refine w.founded g ?_ x (List.mem_filter.mp hx).1 hid
    rcases List.mem_cons.mp hg with rfl | hg
    · exact List.mem_cons_self
    · obtain ⟨q, hq, rfl⟩ := List.mem_map.mp hg
      exact leader_mem_groups (List.mem_filter.mp hq).1
  init q hq := w.init q (List.mem_filter.mp hq).1

/-- The pid is nobody's, and no group's. -/
structure Fresh (w : Kernel) (q : Proc) : Prop where
  above : 1 < q.pid
  below : q.pid < 2147483648
  pid : q.pid ∉ w.procs.map Proc.pid
  group : q.pid ∉ w.groups.map ProcessHandle.id
  leader : q.leader ∈ w.groups ∨ q.leader = q.handle

instance : Decidable (w.Fresh q) :=
  decidable_of_iff (1 < q.pid ∧ q.pid < 2147483648 ∧ q.pid ∉ w.procs.map Proc.pid ∧
      q.pid ∉ w.groups.map ProcessHandle.id ∧ (q.leader ∈ w.groups ∨ q.leader = q.handle))
    ⟨fun ⟨h₁, h₂, h₃, h₄, h₅⟩ => ⟨h₁, h₂, h₃, h₄, h₅⟩,
      fun ⟨h₁, h₂, h₃, h₄, h₅⟩ => ⟨h₁, h₂, h₃, h₄, h₅⟩⟩

def add (w : Kernel) (q : Proc) (h : w.Fresh q) : Kernel where
  procs := q :: w.procs
  home := w.home
  sent := w.sent
  distinct := List.nodup_cons.mpr ⟨h.pid, w.distinct⟩
  bounded x hx := by
    rcases List.mem_cons.mp hx with rfl | hx
    · exact ⟨Int.lt_trans (by decide) h.above, h.below⟩
    · exact w.bounded x hx
  founded g hg x hx hid := by
    have hg : g ∈ w.groups ∨ g = q.handle := by
      rcases List.mem_cons.mp hg with rfl | hg
      · exact Or.inl List.mem_cons_self
      · rcases List.mem_cons.mp hg with rfl | hg
        · exact h.leader
        · exact Or.inl (List.mem_cons_of_mem _ hg)
    rcases List.mem_cons.mp hx with rfl | hx
    · exact hg.elim (fun hg => absurd (hid ▸ List.mem_map_of_mem hg) h.group) id
    · rcases hg with hg | rfl
      · exact w.founded g hg x hx hid
      · exact absurd (List.mem_map.mpr ⟨x, hx, hid.symm⟩) h.pid
  init x hx hone := by
    rcases List.mem_cons.mp hx with rfl | hx
    · exact absurd hone (Int.ne_of_gt h.above)
    · exact w.init x hx hone

def log (w : Kernel) (s : Sent) : Kernel := { w with sent := s :: w.sent }

/-- The processes that satisfy `hit` are marked, and stay who they are. -/
def mark (w : Kernel) (hit : Proc → Bool) (ended : Option WaitStatus) (told : Bool) : Kernel :=
  w.change
    (fun q => if hit q then { q with ended := q.ended.or ended, told := q.told || told } else q)
    fun q _ => by
      dsimp only
      split <;> exact ⟨rfl, Or.inl rfl⟩

/-- The group is one that there is, or the process founds it. -/
def CanJoin (w : Kernel) (pid : Int) (g : ProcessHandle) : Prop :=
  pid ≠ 1 ∧ (g ∈ w.groups ∨ ∃ q ∈ w.procs, q.pid = pid ∧ q.handle = g)

instance : Decidable (w.CanJoin p g) :=
  inferInstanceAs (Decidable (p ≠ 1 ∧ (g ∈ w.groups ∨ ∃ q ∈ w.procs, q.pid = p ∧ q.handle = g)))

def join (w : Kernel) (pid : Int) (g : ProcessHandle) (h : w.CanJoin pid g) : Kernel :=
  w.change (fun q => if q.pid = pid then { q with leader := g } else q) fun q hq => by
    dsimp only
    split
    · rename_i hpid
      refine ⟨rfl, Or.inr ⟨hpid ▸ h.1, h.2.imp id ?_⟩⟩
      rintro ⟨x, hx, hxp, rfl⟩
      rw [eq_of_pid hx hq (hxp.trans hpid.symm)]
    · exact ⟨rfl, Or.inl rfl⟩

/-! ## What goes on without the supervisor -/

end Kernel

inductive Happening where
  /-- A process ends. -/
  | exits (pid : Int) (status : WaitStatus)
  /-- A zombie that waits for somebody else vanishes. -/
  | vanishes (pid : Int)
  | born (q : Proc)
  /-- A process founds a group or joins one. -/
  | joins (pid : Int) (g : ProcessHandle)

namespace Kernel

variable {w : Kernel} {p : Int} {g : ProcessHandle} {q x : Proc}

def happen (w : Kernel) : Happening → Kernel
  | .exits pid status => w.mark (fun q => q.pid = pid) (some status) false
  | .vanishes pid => w.retain fun q => !(q.pid = pid && !q.child && q.ended.isSome)
  | .born q => if h : w.Fresh q ∧ q.child = false then w.add q h.1 else w
  | .joins pid g => if h : w.CanJoin pid g then w.join pid g h else w

/-! ## Signals -/

/-- Whom `kill` and `waitpid` mean: a process, the own group, all processes,
or a group. -/
def aims (w : Kernel) (target : Int) (q : Proc) : Bool :=
  if 0 < target then q.pid = target
  else if target = 0 then q.leader.id = w.home.id
  else if target = -1 then q.pid ≠ 1
  else q.leader.id = -target

/-- The processes that the signal may reach get it. -/
def deliver (w : Kernel) (signal : Signal) (target : Int) (hit : Proc → Bool) : Kernel :=
  match signal with
  | .probe => w
  | .term => (w.mark hit none true).log ⟨.term, target, w.procs.filter hit⟩
  | .kill => (w.mark hit (some (.signaled 9)) false).log ⟨.kill, target, w.procs.filter hit⟩

end Kernel

/-! ## Calls -/

inductive Op where
  | pipe
  | cloexec
  | fork
  /-- `setpgid(child, child)`, in the parent; the child does the same. -/
  | setpgid (pid : Int)
  /-- What the child reports through the pipe before it runs the executable. -/
  | report
  | waitpid (target : Int) (hang : Bool)
  | startToken (id : Int)
  | kill (target : Int) (signal : Signal)
  /-- How often a loop that sleeps between its turns turns before `timeout` is over. -/
  | turns (timeout : Int)

inductive Errno where
  | esrch | eperm
  | other (why : String)
deriving DecidableEq

/-- `strerror` -/
def Errno.text : Errno → String
  | .esrch => "No such process"
  | .eperm => "Operation not permitted"
  | .other why => why

inductive Waited where
  | still
  | ended (status : WaitStatus)
  /-- `ECHILD` -/
  | noChild
  | failed (why : String)
deriving DecidableEq

abbrev Op.Res : Op → Type
  | .pipe | .cloexec => Except String Unit
  | .fork => Except String Int
  | .setpgid _ => Unit
  | .report => Option String
  | .waitpid _ _ => Waited
  | .startToken _ => Except String (BitVec 64)
  | .kill _ _ => Except Errno Unit
  | .turns _ => Nat

end Posix

abbrev posix : Sig := ⟨Posix.Op, Posix.Op.Res⟩

namespace Posix

/-- What one call depends on and the program does not decide. -/
structure Choice where
  /-- What went on before the call. -/
  happenings : List Happening := []
  fault : Option String := none
  /-- The process that `fork` makes. -/
  newcomer : Proc := {}
  /-- How the process ends that is waited for. -/
  status : WaitStatus := .exited 0
  /-- The processes that may not be signalled. -/
  denied : List Int := []
  count : Nat := 0

namespace Kernel

/-- The child that `fork` makes is still in the group of its parent. -/
def forked (w : Kernel) (q : Proc) : Proc :=
  { q with leader := w.home, child := true, ended := none, told := false }

/-- It stays there until one of the two moves it into a group of its own. -/
def setpgid (w : Kernel) (pid : Int) : Kernel :=
  match w.procs.find? fun q => q.pid = pid && q.child && q.leader = w.home with
  | some q => if h : w.CanJoin pid q.handle then w.join pid q.handle h else w
  | none => w

/-- The children that are meant: one that has ended, or else one that is
waited for. -/
def waitpid (w : Kernel) (target : Int) (hang : Bool) (status : WaitStatus) : Waited × Kernel :=
  match w.procs.find? fun q => q.child && w.aims target q && q.ended.isSome with
  | some q => (.ended (q.ended.getD status), w.retain fun x => x.pid ≠ q.pid)
  | none =>
      match w.procs.find? fun q => q.child && w.aims target q with
      | some q => if hang then (.ended status, w.retain fun x => x.pid ≠ q.pid) else (.still, w)
      | none => (.noChild, w)

def kill (w : Kernel) (target : Int) (signal : Signal) (denied : List Int) :
    Except Errno Unit × Kernel :=
  if w.procs.any (w.aims target) then
    if w.procs.any fun q => w.aims target q && !denied.contains q.pid then
      (.ok (), w.deliver signal target fun q => w.aims target q && !denied.contains q.pid)
    else (.error .eperm, w)
  else (.error .esrch, w)

/-- `/proc/<id>/stat`: the id is not cut to the width of a pid. -/
def startToken (w : Kernel) (id : Int) (fault : Option String) : Except String (BitVec 64) :=
  if id ≤ 0 then .error "invalid process id"
  else
    match w.procs.find? fun q => q.pid = id with
    | none => .error ("process " ++ toString id ++ " does not exist")
    | some q =>
        match fault with
        | some why => .error why
        | none => .ok q.token

end Kernel

/-- The call itself. -/
def perform (c : Choice) : (o : Op) → Kernel → Op.Res o × Kernel
  | .pipe, w | .cloexec, w =>
      match c.fault with
      | some why => (.error why, w)
      | none => (.ok (), w)
  | .fork, w =>
      match c.fault with
      | some why => (.error why, w)
      | none =>
          if h : w.Fresh (w.forked c.newcomer) then
            (.ok c.newcomer.pid, w.add (w.forked c.newcomer) h)
          else (.error "Resource temporarily unavailable", w)
  | .setpgid pid, w => ((), w.setpgid pid)
  | .report, w => (c.fault, w)
  | .waitpid target true, w => w.waitpid target true c.status
  | .waitpid target false, w =>
      match c.fault with
      | some why => (.failed why, w)
      | none => w.waitpid target false c.status
  | .startToken id, w => (w.startToken id c.fault, w)
  | .kill target signal, w => w.kill target signal c.denied
  | .turns timeout, w => (if timeout ≤ 0 then 0 else c.count, w)

def answer : Answers posix Kernel Choice := fun c o w =>
  perform c o (c.happenings.foldl Kernel.happen w)

/-! ## What a happening does -/

section Happenings

variable {w : Kernel} {e : Happening} {l : List Happening} {q q' x : Proc} {p : Int}

/-- What became of a process in a happening. -/
structure Became (e : Happening) (q q' : Proc) : Prop where
  handle : q'.handle = q.handle
  child : q'.child = q.child
  temper : q'.obeys = q.obeys ∧ q'.ends = q.ends ∧ q'.told = q.told
  leader : q'.leader = q.leader ∨ e = .joins q.pid q'.leader
  ended : q'.ended = q.ended ∨
    q.ended = none ∧ ∃ status, e = .exits q.pid status ∧ q'.ended = some status

theorem Became.refl : Became e q q := ⟨rfl, rfl, ⟨rfl, rfl, rfl⟩, Or.inl rfl, Or.inl rfl⟩

theorem Became.pid (h : Became e q q') : q'.pid = q.pid := congrArg ProcessHandle.id h.handle

theorem became_exits (q : Proc) (pid : Int) (status : WaitStatus) :
    Became (.exits pid status) q
      (if q.pid = pid then { q with ended := q.ended.or (some status), told := q.told || false }
        else q) := by
  split
  · rename_i hpid
    refine ⟨rfl, rfl, ⟨rfl, rfl, Bool.or_false _⟩, Or.inl rfl, ?_⟩
    cases hended : q.ended with
    | some s => exact Or.inl (by simp)
    | none => exact Or.inr ⟨rfl, status, by rw [hpid], by simp⟩
  · exact .refl

theorem became_joins {pid : Int} {g : ProcessHandle} :
    Became (.joins pid g) q (if q.pid = pid then { q with leader := g } else q) := by
  split
  · rename_i hpid
    exact ⟨rfl, rfl, ⟨rfl, rfl, rfl⟩, Or.inr (by rw [hpid]), Or.inl rfl⟩
  · exact .refl

/-- Where a process that is there afterwards comes from. -/
theorem happen_from (h : q' ∈ (w.happen e).procs) :
    (e = .born q' ∧ w.Fresh q' ∧ q'.child = false) ∨ ∃ q ∈ w.procs, Became e q q' := by
  cases e with
  | exits pid status =>
      obtain ⟨q, hq, rfl⟩ := List.mem_map.mp h
      refine Or.inr ⟨q, hq, ?_⟩
      simpa using became_exits q pid status
  | vanishes pid => exact Or.inr ⟨q', (List.mem_filter.mp h).1, .refl⟩
  | born q =>
      simp only [Kernel.happen] at h
      split at h
      · rename_i hnew
        rcases List.mem_cons.mp h with rfl | h
        · exact Or.inl ⟨rfl, hnew⟩
        · exact Or.inr ⟨q', h, .refl⟩
      · exact Or.inr ⟨q', h, .refl⟩
  | joins pid g =>
      simp only [Kernel.happen] at h
      split at h
      · obtain ⟨q, hq, rfl⟩ := List.mem_map.mp h
        exact Or.inr ⟨q, hq, became_joins⟩
      · exact Or.inr ⟨q', h, .refl⟩

/-- Where a process goes that was there before. -/
theorem happen_to (e : Happening) (h : q ∈ w.procs) :
    (e = .vanishes q.pid ∧ q.child = false ∧ q.ended.isSome) ∨
      ∃ q' ∈ (w.happen e).procs, Became e q q' := by
  cases e with
  | exits pid status =>
      refine Or.inr ⟨_, List.mem_map_of_mem h, ?_⟩
      simpa using became_exits q pid status
  | vanishes pid =>
      by_cases hgone : q.pid = pid ∧ q.child = false ∧ q.ended.isSome
      · exact Or.inl ⟨by rw [hgone.1], hgone.2⟩
      · refine Or.inr ⟨q, List.mem_filter.mpr ⟨h, ?_⟩, .refl⟩
        rw [Bool.not_eq_true', ← Bool.not_eq_true]
        simpa using hgone
  | born x =>
      refine Or.inr ⟨q, ?_, .refl⟩
      simp only [Kernel.happen]
      split
      · exact List.mem_cons_of_mem x h
      · exact h
  | joins pid g =>
      simp only [Kernel.happen]
      split
      · exact Or.inr ⟨_, List.mem_map_of_mem h, became_joins⟩
      · exact Or.inr ⟨q, h, .refl⟩

/-- Each happening is allowed where it takes place. -/
def Along (P : Kernel → Happening → Prop) : Kernel → List Happening → Prop
  | _, [] => True
  | w, e :: l => P w e ∧ Along P (w.happen e) l

instance Along.decide {P : Kernel → Happening → Prop} [∀ w e, Decidable (P w e)] :
    ∀ (w : Kernel) (l : List Happening), Decidable (Along P w l)
  | _, [] => .isTrue trivial
  | w, e :: l => @instDecidableAnd _ _ inferInstance (Along.decide (w.happen e) l)

/-- What every allowed happening keeps, all of them keep. -/
theorem Along.invariant {P : Kernel → Happening → Prop} {I : Kernel → Prop}
    (hstep : ∀ w e, I w → P w e → I (w.happen e)) (hl : Along P w l) (h : I w) :
    I (l.foldl Kernel.happen w) := by
  induction l generalizing w with
  | nil => exact h
  | cons e l ih => exact ih hl.2 (hstep w e h hl.1)

end Happenings

/-! ## One process, and one group -/

section Waiting

variable {w : Kernel} {x : Proc} {hang : Bool} {s s' : WaitStatus}

theorem aims_pid {q : Proc} (hp : 0 < x.pid) : w.aims x.pid q = decide (q.pid = x.pid) := by
  simp [Kernel.aims, hp]

theorem aims_group {p : Int} {q : Proc} (hp : 1 < p) : w.aims (-p) q = decide (q.leader.id = p) := by
  have h₁ : ¬ 0 < -p := by omega
  have h₂ : ¬ -p = 0 := by omega
  have h₃ : ¬ -p = -1 := by omega
  simp only [Kernel.aims, h₁, h₂, h₃, if_false, Int.neg_neg]

/-- Only the process itself is found. -/
theorem find_child (hx : x ∈ w.procs) (hc : x.child = true) (f : Proc → Bool) :
    (w.procs.find? fun q => q.child && w.aims x.pid q && f q) = if f x then some x else none := by
  have haims : ∀ q, w.aims x.pid q = decide (q.pid = x.pid) := fun q =>
    aims_pid (w.bounded x hx).1
  cases hfind : w.procs.find? fun q => q.child && w.aims x.pid q && f q with
  | some q =>
      have hq := List.find?_some hfind
      simp only [haims, Bool.and_eq_true, decide_eq_true_eq] at hq
      have hqx := Kernel.eq_of_pid (List.mem_of_find?_eq_some hfind) hx hq.1.2
      rw [← hqx, if_pos hq.2]
  | none =>
      have hno := List.find?_eq_none.mp hfind x hx
      simp only [haims, hc, decide_true, Bool.true_and] at hno
      rw [if_neg hno]

theorem answer_waitpid {c : Choice} {p : Int} :
    answer c (.waitpid p false) w =
      match c.fault with
      | some why => (.failed why, c.happenings.foldl Kernel.happen w)
      | none => (c.happenings.foldl Kernel.happen w).waitpid p false c.status := rfl

theorem waitpid_ended (hx : x ∈ w.procs) (hc : x.child = true) (he : x.ended = some s) :
    w.waitpid x.pid hang s' = (.ended s, w.retain fun q => q.pid ≠ x.pid) := by
  simp only [Kernel.waitpid, find_child hx hc, he, Option.isSome_some, if_true, Option.getD_some]

theorem waitpid_alive (hx : x ∈ w.procs) (hc : x.child = true) (he : x.ended = none) :
    w.waitpid x.pid hang s' =
      if hang then (.ended s', w.retain fun q => q.pid ≠ x.pid) else (.still, w) := by
  have hfound := find_child hx hc fun _ => true
  simp only [Bool.and_true, if_true] at hfound
  simp [Kernel.waitpid, find_child hx hc, he, hfound]

theorem waitpid_none {p : Int} (hp : 0 < p) (h : ∀ q ∈ w.procs, q.child = true → q.pid ≠ p) :
    w.waitpid p hang s' = (.noChild, w) := by
  have haims : ∀ q, w.aims p q = decide (q.pid = p) := fun q => by simp [Kernel.aims, hp]
  have hnone : ∀ f : Proc → Bool,
      (w.procs.find? fun q => q.child && w.aims p q && f q) = none := by
    intro f
    rw [List.find?_eq_none]
    intro q hq hall
    simp only [haims, Bool.and_eq_true, decide_eq_true_eq] at hall
    exact h q hq hall.1.1 hall.1.2
  have hnone' := hnone fun _ => true
  simp only [Bool.and_true] at hnone'
  simp only [Kernel.waitpid, hnone, hnone']

end Waiting

end Posix

end Yirang
