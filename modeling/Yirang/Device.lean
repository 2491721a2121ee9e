/-
# `Yirang.Device` — the device an agent runs on

The calls the program makes on its device: the file system, the process
supervisor, the clocks, the boot identity, the network probe and the
artifact store.  `answer` says what each returns and what it leaves.

What is promised of the supervisor is only this (`IProcessSupervisor`):

    start    makes one process, whose pid no living process has, or fails
             and makes none
    stop     succeeds only if the process is dead afterwards
    adopt    succeeds only for a living process with that pid and token
    status   says whatever it likes

Processes may die at any time: each choice names those that die just before
its call.  Everything else that can go wrong is in its `chance`.

A world carries a trace of the calls, as an observer would note them: it
decides nothing, and the statements about starts and probes are made on it.
-/
import Yirang.Json
import Yirang.Effect.Session

namespace Yirang

open Fs Effect

/-! ## Processes -/

/-- The token tells one process with a pid from a later one. -/
structure ProcessHandle where
  id : Int := 0
  startToken : BitVec 64 := 0
deriving DecidableEq

inductive ProcessState where
  | running | exited | signaled | unknown
deriving DecidableEq

structure ProcessStatus where
  state : ProcessState := .unknown
  exitCode : Option Int := none
  signal : Option Int := none
deriving DecidableEq

structure ProcessStartOptions where
  executablePath : Path
  arguments : List String
  workingDirectory : String
deriving DecidableEq

/-- A living process: its handle, and how it was started. -/
structure Process where
  handle : ProcessHandle
  options : ProcessStartOptions
deriving DecidableEq

/-! ## Calls -/

namespace Device

inductive Op where
  | file (o : FileOp Content)
  | start (options : ProcessStartOptions)
  | adopt (handle : ProcessHandle)
  | stop (handle : ProcessHandle) (timeout : Int)
  | status (handle : ProcessHandle)
  /-- One probe over TCP or HTTP. -/
  | networkProbe
  | bootIdentity
  /-- The text of the time of day. -/
  | utcNow
  /-- The count of the steady clock. -/
  | steadyNow
  /-- How often a loop that sleeps `interval` turns before `timeout` is over. -/
  | turns (timeout interval : Int)
  /-- Fetch an object of the artifact store into a file. -/
  | download (key : String) (destination : Path)
  | inStore (key : String)
  | fileSha256 (p : Path)

abbrev Op.Res : Op → Type
  | .file o => FileOp.Res o
  | .start _ | .adopt _ => Except String ProcessHandle
  | .stop _ _ | .networkProbe => Except String Unit
  | .status _ => Except String ProcessStatus
  | .bootIdentity | .fileSha256 _ => Except String String
  | .utcNow => String
  | .steadyNow => Int
  | .turns _ _ => Nat
  | .download _ _ => Except String Unit
  | .inStore _ => Except String Bool

/-- `start` may make a process. -/
def Op.IsStart : Op → Prop
  | .start _ => True
  | _ => False

/-- A call that starts and probes nothing. -/
def Op.Mute : Op → Prop
  | .start _ | .status _ | .networkProbe => False
  | _ => True

/-- The paths a call may change. -/
def Op.writes : Op → Path → Prop
  | .file o, q => o.writes q
  | .download _ d, q => q <+: d
  | _, _ => False

end Device

/-- The signature of programs that run on a device. -/
abbrev device : Sig := ⟨Device.Op, Device.Op.Res⟩

/-- What an observer notes of a call. -/
inductive Noted where
  | started (p : Process)
  /-- A probe: of a process, or else over the network. -/
  | probed (handle : Option ProcessHandle) (success : Bool)
  | called
deriving DecidableEq

/-- What a note says of a probe. -/
def Noted.probe : Noted → Option (Option ProcessHandle × Bool)
  | .probed handle success => some (handle, success)
  | _ => none

/-- How the process that a note tells of was started. -/
def Noted.launch : Noted → Option ProcessStartOptions
  | .started p => some p.options
  | _ => none

/-- The files, the living processes, the identity of the boot, and the
trace of the calls, newest first.  A pid is positive, and no two living
processes share one. -/
structure World where
  fs : FileTree Content
  live : List Process
  boot : String
  trace : List Noted
  distinct : (live.map fun p => p.handle.id).Nodup
  positive : ∀ p ∈ live, 0 < p.handle.id

/-- What one call depends on and the program does not decide. -/
structure Choice where
  /-- The processes that die just before the call. -/
  dead : List ProcessHandle := []
  /-- How the call goes. -/
  chance : Chance := {}
  /-- The pid and token of a process it starts. -/
  handle : ProcessHandle := {}
  status : ProcessStatus := {}
  /-- A text it returns. -/
  text : String := ""
  /-- A file it fetches. -/
  content : Content := .text ""
  /-- A count it returns. -/
  count : Nat := 0

namespace World

/-- A device on which nothing runs yet. -/
def idle (fs : FileTree Content) (boot : String) : World :=
  ⟨fs, [], boot, [], List.nodup_nil, fun _ h => by cases h⟩

/-- Two living processes with one handle are one. -/
theorem eq_of_handle {w : World} {p q : Process} (hp : p ∈ w.live) (hq : q ∈ w.live)
    (h : p.handle = q.handle) : p = q :=
  List.inj_on_of_nodup_map w.distinct hp hq (by rw [h])

/-- Only the processes that satisfy `keep` live on. -/
def spare (w : World) (keep : Process → Bool) : World :=
  { w with
    live := w.live.filter keep
    distinct := w.distinct.sublist (List.Sublist.map _ List.filter_sublist)
    positive := fun p hp => w.positive p (List.mem_filter.mp hp).1 }

theorem spare_true (w : World) : w.spare (fun _ => true) = w := by
  obtain ⟨fs, live, boot, trace, distinct, positive⟩ := w
  simp only [spare, World.mk.injEq, true_and, and_true]
  exact List.filter_true live

def bury (dead : List ProcessHandle) (w : World) : World :=
  w.spare fun p => !dead.contains p.handle

/-- The process that `start` makes is the newest. -/
def spawn (w : World) (p : Process)
    (h : 0 < p.handle.id ∧ p.handle.id ∉ w.live.map fun q => q.handle.id) : World :=
  { w with
    live := p :: w.live
    distinct := List.nodup_cons.mpr ⟨h.2, w.distinct⟩
    positive := fun q hq => (List.mem_cons.mp hq).elim (fun e => e ▸ h.1) (w.positive q) }

def withFiles (w : World) (t : FileTree Content) : World := { w with fs := t }

/-- How the newest process was started. -/
def launched (w : World) : Option ProcessStartOptions := w.trace.findSome? Noted.launch

/-- The last call made a process. -/
def JustStarted (w : World) : Prop := ∃ p, w.trace.head? = some (.started p)

instance (w : World) : Decidable w.JustStarted :=
  match h : w.trace.head? with
  | some (.started p) => isTrue ⟨p, h⟩
  | some (.probed _ _) => isFalse fun ⟨_, h'⟩ => by simp [h] at h'
  | some .called => isFalse fun ⟨_, h'⟩ => by simp [h] at h'
  | none => isFalse fun ⟨_, h'⟩ => by simp [h] at h'

end World

namespace Device

open World

/-- The call itself. -/
def perform (c : Choice) : (o : Op) → World → Op.Res o × World
  | .file o, w =>
      ((FileOp.answer c.chance o w.fs).1, w.withFiles (FileOp.answer c.chance o w.fs).2)
  | .start options, w =>
      match c.chance.fault with
      | some e => (.error e, w)
      | none =>
          if h : 0 < c.handle.id ∧ c.handle.id ∉ w.live.map fun q => q.handle.id then
            (.ok c.handle, w.spawn ⟨c.handle, options⟩ h)
          else (.error "cannot fork", w)
  | .adopt handle, w =>
      match c.chance.fault with
      | some e => (.error e, w)
      | none =>
          if w.live.any fun p => p.handle = handle then (.ok handle, w)
          else (.error "the process does not exist", w)
  | .stop handle _, w =>
      match c.chance.fault with
      | some e => (.error e, w)
      | none => (.ok (), w.spare fun p => p.handle ≠ handle)
  | .status _, w =>
      match c.chance.fault with
      | some e => (.error e, w)
      | none => (.ok c.status, w)
  | .networkProbe, w =>
      match c.chance.fault with
      | some e => (.error e, w)
      | none => (.ok (), w)
  | .bootIdentity, w =>
      match c.chance.fault with
      | some e => (.error e, w)
      | none => (.ok w.boot, w)
  | .utcNow, w => (c.text, w)
  | .steadyNow, w => (c.chance.number, w)
  | .turns _ _, w => (c.count, w)
  | .download _ d, w =>
      -- the directories are made first, and a transfer that fails may leave a piece
      let made := (w.fs.mkdirsAt d.dropLast).getD w.fs
      match c.chance.fault with
      | some e =>
          (.error e, w.withFiles (match c.chance.cut with
            | none => w.fs
            | some n => (made.putAt d (.file (Cuttable.cut c.content n))).getD made))
      | none =>
          match made.putAt d (.file c.content) with
          | some t => (.ok (), w.withFiles t)
          | none => (.error "cannot write", w.withFiles made)
  | .inStore _, w =>
      match c.chance.fault with
      | some e => (.error e, w)
      | none => (.ok c.chance.flag, w)
  | .fileSha256 p, w =>
      match c.chance.fault with
      | some e => (.error e, w)
      | none => if w.fs.isFile p then (.ok c.text, w) else (.error "cannot open", w)

def note : (o : Op) → Op.Res o → Noted
  | .start options, .ok handle => .started ⟨handle, options⟩
  | .status handle, r => .probed (some handle) (match r with
      | .ok s => s.state = .running
      | .error _ => false)
  | .networkProbe, r => .probed none (match r with
      | .ok _ => true
      | .error _ => false)
  | _, _ => .called

/-- The dead are buried, the call is made, and the observer notes it. -/
def answer : Answers device World Choice := fun c o w =>
  ((perform c o (w.bury c.dead)).1,
    { (perform c o (w.bury c.dead)).2 with
      trace := note o (perform c o (w.bury c.dead)).1 :: w.trace })

section

variable {c : Choice} {o : Op} {w : World}

theorem answer_fst : (answer c o w).1 = (perform c o (w.bury c.dead)).1 := rfl

theorem answer_fs : (answer c o w).2.fs = (perform c o (w.bury c.dead)).2.fs := rfl

theorem answer_live : (answer c o w).2.live = (perform c o (w.bury c.dead)).2.live := rfl

theorem answer_boot : (answer c o w).2.boot = (perform c o (w.bury c.dead)).2.boot := rfl

theorem answer_trace :
    (answer c o w).2.trace = note o (perform c o (w.bury c.dead)).1 :: w.trace := rfl

end

/-! ## What a call leaves as it was -/

/-- The call changes no path outside `X` and makes no process. -/
def Touches (X : Path → Prop) (o : Op) : Prop := (∀ q, o.writes q → X q) ∧ ¬ o.IsStart

theorem Touches.mono {X Y : Path → Prop} (h : ∀ q, X q → Y q) {o : Op} (ho : Touches X o) :
    Touches Y o :=
  ⟨fun q hq => h q (ho.1 q hq), ho.2⟩

theorem download_frame {c : Choice} {k : String} {d q : Path} {w : World} (h : ¬ q <+: d) :
    (perform c (.download k d) w).2.fs.get q = w.fs.get q := by
  have hd : ¬ q <+: d.dropLast := fun hq => h (hq.trans (List.dropLast_prefix d))
  have hne : q ≠ d := fun e => h (e ▸ List.prefix_rfl)
  have hmade := FileOp.getD_frame (FileOp.mkdirsAt_frame (t := w.fs) hd)
  simp only [perform]
  split
  · cases c.chance.cut with
    | none => rfl
    | some n => exact (FileOp.getD_frame (FileOp.putAt_frame hne)).trans hmade
  · split
    · rename_i t ht
      exact (FileOp.putAt_frame hne t ht).trans hmade
    · exact hmade

theorem perform_files {c : Choice} {o : Op} {w : World} {q : Path} (h : ¬ o.writes q) :
    (perform c o w).2.fs.get q = w.fs.get q := by
  cases o with
  | file o => exact FileOp.answer_frame c.chance o w.fs h
  | download k d => exact download_frame h
  | start options =>
      simp only [perform]
      split
      · rfl
      · split <;> rfl
  | adopt handle =>
      simp only [perform]
      split
      · rfl
      · split <;> rfl
  | fileSha256 p =>
      simp only [perform]
      split
      · rfl
      · split <;> rfl
  | stop handle t => simp only [perform]; split <;> rfl
  | status handle => simp only [perform]; split <;> rfl
  | networkProbe => simp only [perform]; split <;> rfl
  | bootIdentity => simp only [perform]; split <;> rfl
  | inStore k => simp only [perform]; split <;> rfl
  | utcNow => rfl
  | steadyNow => rfl
  | turns t i => rfl

/-- All that a call other than `start` does to a world: it changes files, and
`stop` ends processes. -/
theorem perform_shape (c : Choice) {o : Op} (w : World) (ho : ¬ o.IsStart) :
    ∃ t keep, (perform c o w).2 = (w.spare keep).withFiles t ∧
      ((∀ h n, o ≠ .stop h n) → keep = fun _ => true) := by
  have same : ∃ t keep, w = (w.spare keep).withFiles t ∧
      ((∀ h n, o ≠ .stop h n) → keep = fun _ => true) :=
    ⟨w.fs, fun _ => true, (spare_true w).symm, fun _ => rfl⟩
  have files : ∀ t₀, ∃ t keep, w.withFiles t₀ = (w.spare keep).withFiles t ∧
      ((∀ h n, o ≠ .stop h n) → keep = fun _ => true) := fun t₀ =>
    ⟨t₀, fun _ => true, by rw [spare_true], fun _ => rfl⟩
  cases o with
  | file o => exact files _
  | start options => exact absurd trivial ho
  | download k d =>
      simp only [perform]
      split
      · exact files _
      · split
        · exact files _
        · exact files _
  | stop handle n =>
      simp only [perform]
      split
      · exact same
      · exact ⟨w.fs, _, rfl, fun h => absurd rfl (h handle n)⟩
  | adopt handle =>
      simp only [perform]
      split
      · exact same
      · split <;> exact same
  | fileSha256 p =>
      simp only [perform]
      split
      · exact same
      · split <;> exact same
  | status handle => simp only [perform]; split <;> exact same
  | networkProbe => simp only [perform]; split <;> exact same
  | bootIdentity => simp only [perform]; split <;> exact same
  | inStore k => simp only [perform]; split <;> exact same
  | utcNow => exact same
  | steadyNow => exact same
  | turns t i => exact same

theorem note_ne_started {o : Op} {r : Op.Res o} (ho : ¬ o.IsStart) (p : Process) :
    note o r ≠ .started p := by
  cases o with
  | start options => exact absurd trivial ho
  | status handle => simp [note]
  | networkProbe => simp [note]
  | _ => simp [note]

/-! ## Worlds that differ little -/

/-- `w'` comes after `w`: no process was made, and no file outside `X`
changed. -/
structure Within (X : Path → Prop) (w w' : World) : Prop where
  files : ∀ {q}, ¬ X q → w'.fs.get q = w.fs.get q
  live : ∀ {p}, p ∈ w'.live → p ∈ w.live
  boot : w'.boot = w.boot
  started : ∀ {p}, .started p ∈ w'.trace ↔ .started p ∈ w.trace

namespace Within

variable {X Y : Path → Prop} {w w' w'' : World}

theorem refl : Within X w w := ⟨fun _ => rfl, id, rfl, Iff.rfl⟩

theorem trans (h : Within X w w') (h' : Within X w' w'') : Within X w w'' :=
  ⟨fun hq => (h'.files hq).trans (h.files hq), fun hp => h.live (h'.live hp),
    h'.boot.trans h.boot, h'.started.trans h.started⟩

theorem mono (hXY : ∀ q, X q → Y q) (h : Within X w w') : Within Y w w' :=
  ⟨fun hq => h.files fun hx => hq (hXY _ hx), h.live, h.boot, h.started⟩

end Within

theorem answer_within {X : Path → Prop} {c : Choice} {o : Op} {w : World}
    (ho : Touches X o) : Within X w (answer c o w).2 := by
  obtain ⟨t, keep, he, _⟩ := perform_shape c (w.bury c.dead) ho.2
  refine ⟨fun hq => ?_, fun hp => ?_, ?_, ?_⟩
  · exact perform_files fun hw => hq (ho.1 _ hw)
  · rw [answer_live, he] at hp
    exact (List.mem_filter.mp (List.mem_filter.mp hp).1).1
  · rw [answer_boot, he]
    rfl
  · intro p
    rw [answer_trace, List.mem_cons]
    exact ⟨fun hm => hm.resolve_left (note_ne_started ho.2 p).symm, Or.inr⟩

/-- A program whose calls all touch only `X` stays within `X`. -/
theorem wp_within {M α : Type} {X : Path → Prop} {A : World → Op → Choice → Prop}
    {B : M → World → Op → Prop} {p : Program device M α} {m : M} {w : World}
    (hp : Uses (Touches X) p) (hB : ∀ m w' o, Touches X o → Within X w w' → B m w' o) :
    wp answer A B p (fun _ _ w' => Within X w w') m w :=
  wp_of_uses (fun _ _ _ ho _ h => h.trans (answer_within ho)) hB hp .refl

/-- The call changes no path outside `X`; it may make a process. -/
def Only (X : Path → Prop) (o : Op) : Prop := ∀ q, o.writes q → X q

theorem Only.mono {X Y : Path → Prop} (h : ∀ q, X q → Y q) {o : Op} (ho : Only X o) :
    Only Y o :=
  fun q hq => h q (ho q hq)

/-- Outside `X` the files are the same. -/
def Alike (X : Path → Prop) (w w' : World) : Prop := ∀ q, ¬ X q → w'.fs.get q = w.fs.get q

theorem Alike.trans {X : Path → Prop} {w w' w'' : World} (h : Alike X w w')
    (h' : Alike X w' w'') : Alike X w w'' :=
  fun q hq => (h' q hq).trans (h q hq)

theorem Within.alike {X Y : Path → Prop} {w w' : World} (h : Within X w w')
    (hXY : ∀ q, X q → Y q) : Alike Y w w' :=
  fun _ hq => h.files fun hx => hq (hXY _ hx)

theorem wp_alike {M α : Type} {X : Path → Prop} {A : World → Op → Choice → Prop}
    {p : Program device M α} {m : M} {w : World} (hp : Uses (Only X) p) :
    wp answer A Anywhere p (fun _ _ w' => Alike X w w') m w :=
  wp_of_uses (fun _ _ _ ho _ h => h.trans fun _ hq => perform_files fun hw => hq (ho _ hw))
    (fun _ _ _ _ _ => trivial) hp fun _ _ => rfl

/-! ## What an observer notes -/

/-- Nothing was started or probed. -/
def Silent (w w' : World) : Prop := ∃ t, w'.trace = t ++ w.trace ∧ ∀ n ∈ t, n = .called

theorem Silent.refl {w : World} : Silent w w := ⟨[], rfl, fun _ h => by cases h⟩

theorem Silent.trans {w w' w'' : World} (h : Silent w w') (h' : Silent w' w'') :
    Silent w w'' := by
  obtain ⟨t, ht, hcalled⟩ := h
  obtain ⟨t', ht', hcalled'⟩ := h'
  refine ⟨t' ++ t, by rw [ht', ht, List.append_assoc], fun n hn => ?_⟩
  exact (List.mem_append.mp hn).elim (hcalled' n) (hcalled n)

theorem silent_call {c : Choice} {o : Op} {w : World} (ho : o.Mute) :
    Silent w (answer c o w).2 := by
  refine ⟨[.called], ?_, fun n hn => List.mem_singleton.mp hn⟩
  rw [answer_trace]
  cases o <;> first | rfl | cases ho

theorem wp_silent {M α : Type} {A : World → Op → Choice → Prop} {p : Program device M α} {m : M}
    {w : World} (hp : Uses Op.Mute p) :
    wp answer A Anywhere p (fun _ _ w' => Silent w w') m w :=
  wp_of_uses (fun _ _ _ ho _ h => h.trans (silent_call ho)) (fun _ _ _ _ _ => trivial) hp .refl

/-- Only `start` starts a process. -/
theorem launched_call {c : Choice} {o : Op} {w : World} (ho : ¬ o.IsStart) :
    (answer c o w).2.launched = w.launched := by
  have hnone : (note o (perform c o (w.bury c.dead)).1).launch = none := by
    cases hn : note o (perform c o (w.bury c.dead)).1 with
    | started p => exact absurd hn (note_ne_started ho p)
    | probed handle success => rfl
    | called => rfl
  rw [World.launched, answer_trace, List.findSome?_cons, hnone]
  rfl

/-- Whatever is called, the trace only grows. -/
theorem wp_grows {M α : Type} {A : World → Op → Choice → Prop} {p : Program device M α} {m : M}
    {w : World} : wp answer A Anywhere p (fun _ _ w' => w.trace <:+ w'.trace) m w :=
  wp_of_uses (S := fun _ => True)
    (fun _ _ _ _ _ h => h.trans (by rw [answer_trace]; exact List.suffix_cons _ _))
    (fun _ _ _ _ _ => trivial) (uses_true p) (List.suffix_refl _)
where
  uses_true {M α : Type} (p : Program device M α) : Uses (fun _ => True) p := by
    induction p with
    | pure a => trivial
    | get k ih => exact fun m => ih m
    | set m p ih => exact ih
    | call o k ih => exact ⟨trivial, fun r => ih r⟩

/-! ## What the supervisor's answers say -/

section Supervisor

variable {c : Choice} {w : World} {h h' : ProcessHandle} {t : Int} {e : String}
  {options : ProcessStartOptions}

/-- A process was made: it is the newest, and nobody has its pid. -/
structure Spawned (options : ProcessStartOptions) (h : ProcessHandle) (w w' : World) :
    Prop where
  fs : w'.fs = w.fs
  boot : w'.boot = w.boot
  trace : w'.trace = .started ⟨h, options⟩ :: w.trace
  born : ∀ p ∈ w'.live, p = ⟨h, options⟩ ∨ p ∈ w.live ∧ p.handle.id ≠ h.id
  alive : ⟨h, options⟩ ∈ w'.live

/-- `start` makes a process, or does nothing. -/
theorem perform_start (c : Choice) (options : ProcessStartOptions) (w : World) :
    (∃ free, perform c (.start options) w = (.ok c.handle, w.spawn ⟨c.handle, options⟩ free)) ∨
      ∃ e, perform c (.start options) w = (.error e, w) := by
  simp only [perform]
  split
  · exact Or.inr ⟨_, rfl⟩
  · split
    · rename_i free
      exact Or.inl ⟨free, rfl⟩
    · exact Or.inr ⟨_, rfl⟩

theorem start_ok (hr : (answer c (.start options) w).1 = .ok h) :
    Spawned options h w (answer c (.start options) w).2 := by
  rcases perform_start c options (w.bury c.dead) with ⟨free, hp⟩ | ⟨e, hp⟩
  · rw [answer_fst, hp] at hr
    cases hr
    refine ⟨?_, ?_, ?_, ?_, ?_⟩
    · rw [answer_fs, hp]
      rfl
    · rw [answer_boot, hp]
      rfl
    · rw [answer_trace, hp]
      rfl
    · intro p hmem
      rw [answer_live, hp] at hmem
      rcases List.mem_cons.mp hmem with rfl | hmem
      · exact Or.inl rfl
      · refine Or.inr ⟨(List.mem_filter.mp hmem).1, fun he => free.2 ?_⟩
        exact List.mem_map.mpr ⟨p, hmem, he⟩
    · rw [answer_live, hp]
      exact List.mem_cons_self
  · rw [answer_fst, hp] at hr
    cases hr

theorem start_error (hr : (answer c (.start options) w).1 = .error e) :
    Within (fun _ => False) w (answer c (.start options) w).2 := by
  rcases perform_start c options (w.bury c.dead) with ⟨free, hp⟩ | ⟨e', hp⟩
  · rw [answer_fst, hp] at hr
    cases hr
  · refine ⟨fun _ => ?_, fun hmem => ?_, ?_, fun {p} => ?_⟩
    · rw [answer_fs, hp]
      rfl
    · rw [answer_live, hp] at hmem
      exact (List.mem_filter.mp hmem).1
    · rw [answer_boot, hp]
      rfl
    · rw [answer_trace, hp, List.mem_cons]
      exact ⟨fun hm => hm.resolve_left (fun hn => by cases hn), Or.inr⟩

theorem stop_ok (hr : (answer c (.stop h t) w).1 = .ok ()) {p : Process}
    (hp : p ∈ (answer c (.stop h t) w).2.live) : p.handle ≠ h := by
  simp only [answer_fst, answer_live, perform] at hr hp
  split at hr
  · cases hr
  · rename_i hf
    rw [hf] at hp
    simpa using (List.mem_filter.mp hp).2

theorem stop_error (hr : (answer c (.stop h t) w).1 = .error e) :
    (answer c (.stop h t) w).2.fs = w.fs ∧
      (answer c (.stop h t) w).2.live = (w.bury c.dead).live := by
  simp only [answer_fst, answer_fs, answer_live, perform] at hr ⊢
  split at hr
  · exact ⟨rfl, rfl⟩
  · cases hr

theorem adopt_ok (hr : (answer c (.adopt h) w).1 = .ok h') :
    h' = h ∧ ∃ p ∈ (answer c (.adopt h) w).2.live, p.handle = h := by
  simp only [answer_fst, answer_live, perform] at hr ⊢
  split at hr
  · cases hr
  · split at hr
    · rename_i hf hany
      cases hr
      simp only [if_pos hany]
      simpa using hany
    · cases hr

theorem adopt_live : (answer c (.adopt h) w).2.live = (w.bury c.dead).live := by
  simp only [answer_live, perform]
  split
  · rfl
  · split <;> rfl

/-- A living process is adopted, unless the call itself fails. -/
theorem adopt_error (hr : (answer c (.adopt h) w).1 = .error e) (hf : c.chance.fault = none) :
    ∀ p ∈ (answer c (.adopt h) w).2.live, p.handle ≠ h := by
  simp only [answer_fst, answer_live, perform, hf] at hr ⊢
  split at hr
  · cases hr
  · rename_i hany
    rw [if_neg hany]
    simpa using hany

theorem bootIdentity_ok {s : String} (hr : (answer c .bootIdentity w).1 = .ok s) :
    s = w.boot := by
  simp only [answer_fst, perform] at hr
  split at hr
  · cases hr
  · cases hr
    rfl

theorem bootIdentity_error (hr : (answer c .bootIdentity w).1 = .error e) :
    c.chance.fault ≠ none := fun hf => by
  simp only [answer_fst, perform, hf] at hr
  cases hr

end Supervisor

/-- The boundaries in `X` are fit to be killed in. -/
def Safe {M : Type} (B : M → World → Op → Prop) (X : Path → Prop) (w : World) : Prop :=
  ∀ m w' o, Touches X o → Within X w w' → B m w' o

section Safe

variable {M : Type} {B : M → World → Op → Prop} {X Y : Path → Prop} {w w' : World}

theorem Safe.anywhere : Safe (Anywhere (E := device) (M := M)) X w :=
  fun _ _ _ _ _ => trivial

theorem Safe.mono (h : Safe B Y w) (hXY : ∀ q, X q → Y q) : Safe B X w :=
  fun m w' o ho hw => h m w' o (ho.mono hXY) (hw.mono hXY)

theorem Safe.after (h : Safe B X w) (hw : Within X w w') : Safe B X w' :=
  fun m w'' o ho hw' => h m w'' o ho (hw.trans hw')

end Safe

end Device

/-! ## File calls -/

/-- A call to the file system, inside a program with errors. -/
def file {M ε : Type} (o : FileOp Content) : Act device M ε (FileOp.Res o) :=
  ask (E := device) (.file o)

namespace Device

theorem wp_file {M ε : Type} {A : World → Op → Choice → Prop} {B : M → World → Op → Prop}
    {f : FileOp Content} {m : M} {w : World} {Q : Except ε (FileOp.Res f) → M → World → Prop} :
    wp answer A B (file f : Act device M ε (FileOp.Res f)).run Q m w ↔
      B m w (.file f) ∧ ∀ c, A w (.file f) c →
        Q (.ok (answer c (.file f) w).1) m (answer c (.file f) w).2 := Iff.rfl

section Files

variable {c : Choice} {w : World} {f : FileOp Content} {p a b q : Path} {x : Content}
  {e : String}

theorem get_same {w' : World} (h : w'.fs = w.fs) (q : Path) : w'.fs.get q = w.fs.get q := by
  rw [h]

theorem file_frame (h : ¬ f.writes q) :
    (answer c (.file f) w).2.fs.get q = w.fs.get q :=
  FileOp.answer_frame c.chance f w.fs h

theorem rename_ok (h : (answer c (.file (.rename a b)) w).1 = .ok ()) :
    w.fs.moveAt a b = some (answer c (.file (.rename a b)) w).2.fs :=
  FileOp.rename_ok h

theorem rename_error (h : (answer c (.file (.rename a b)) w).1 = .error e) :
    (answer c (.file (.rename a b)) w).2.fs = w.fs :=
  FileOp.rename_error h

theorem write_ok (h : (answer c (.file (.write p x)) w).1 = .ok ()) :
    w.fs.putAt p (.file x) = some (answer c (.file (.write p x)) w).2.fs :=
  FileOp.write_ok h

theorem remove_ok (h : (answer c (.file (.remove p)) w).1 = .ok ()) :
    (answer c (.file (.remove p)) w).2.fs = w.fs.removeAll p :=
  FileOp.remove_ok h

theorem remove_error (h : (answer c (.file (.remove p)) w).1 = .error e) :
    (answer c (.file (.remove p)) w).2.fs = w.fs :=
  FileOp.remove_error h

theorem removeAll_ok (h : (answer c (.file (.removeAll p)) w).1 = .ok ()) :
    (answer c (.file (.removeAll p)) w).2.fs = w.fs.removeAll p :=
  FileOp.removeAll_ok h

theorem createDirectories_ok (h : (answer c (.file (.createDirectories p)) w).1 = .ok ()) :
    w.fs.mkdirsAt p = some (answer c (.file (.createDirectories p)) w).2.fs :=
  FileOp.createDirectories_ok h

theorem copyFile_ok (h : (answer c (.file (.copyFile a b)) w).1 = .ok ()) :
    ∃ x, w.fs.get a = some (.file x) ∧
      w.fs.putAt b (.file x) = some (answer c (.file (.copyFile a b)) w).2.fs :=
  FileOp.copyFile_ok h

/-- What was read is what the file holds, or what is left of it. -/
theorem read_ok (h : (answer c (.file (.read p)) w).1 = some x) :
    ∃ y, w.fs.get p = some (.file y) ∧ (x = y ∨ ∃ n, x = Cuttable.cut y n) := by
  replace h : (FileOp.answer c.chance (.read p) w.fs).1 = some x := h
  simp only [FileOp.answer] at h
  split at h
  · rename_i y _ hy
    refine ⟨y, hy, ?_⟩
    cases hcut : c.chance.cut with
    | none =>
        rw [hcut] at h
        cases h
        exact Or.inl rfl
    | some n =>
        rw [hcut] at h
        cases h
        exact Or.inr ⟨n, rfl⟩
  · cases h

theorem read_fine (h : w.fs.get p = some (.file x)) (hfault : c.chance.fault = none)
    (hcut : c.chance.cut = none) : (answer c (.file (.read p)) w).1 = some x := by
  show (FileOp.answer c.chance (.read p) w.fs).1 = some x
  simp only [FileOp.answer, hfault, h, hcut]

/-- A download that went well: the file is there, other files are as they
were, and directories stay. -/
structure Fetched (x : Content) (d : Path) (w w' : World) : Prop where
  file : w'.fs.get d = some (.file x)
  others : ∀ {q : Path} {y : Content}, q ≠ d →
    (w'.fs.get q = some (.file y) ↔ w.fs.get q = some (.file y))
  dirs : ∀ {q : Path}, w.fs.isDir q = true → w'.fs.isDir q = true

theorem Fetched.of_fs {w' w'' : World} {d : Path} (h : Fetched x d w w')
    (he : w''.fs = w'.fs) : Fetched x d w w'' :=
  ⟨he ▸ h.file, fun hq => he ▸ h.others hq, fun hq => he ▸ h.dirs hq⟩

theorem download_ok {k : String} {d : Path}
    (h : (answer c (.download k d) w).1 = .ok ()) :
    Fetched c.content d w (answer c (.download k d) w).2 := by
  simp only [answer_fst, perform] at h
  cases hf : c.chance.fault with
  | some e => simp [hf] at h
  | none =>
      simp only [hf] at h
      split at h
      · rename_i t ht
        have hfs : (answer c (.download k d) w).2.fs = t := by
          simp only [answer_fs, perform, hf]
          rw [ht]
          rfl
        -- the directories that were made hide no file
        have hfiles : ∀ {q : Path} {y : Content},
            ((w.fs.mkdirsAt d.dropLast).getD w.fs).get q = some (.file y) ↔
              w.fs.get q = some (.file y) := fun {q y} => by
          cases hm : w.fs.mkdirsAt d.dropLast with
          | none => exact Iff.rfl
          | some t' => exact FileTree.file_mkdirsAt hm
        have hdirs : ∀ {q : Path}, w.fs.isDir q = true →
            ((w.fs.mkdirsAt d.dropLast).getD w.fs).isDir q = true := fun {q} hq => by
          cases hm : w.fs.mkdirsAt d.dropLast with
          | none => exact hq
          | some t' => exact FileTree.isDir_mkdirsAt hm hq
        refine ⟨?_, fun {q y} hq => ?_, fun hq => ?_⟩
        · rw [hfs, FileTree.get_putAt ht, if_pos rfl]
        · rw [hfs, FileTree.file_putAt ht hq]
          exact hfiles
        · rw [hfs]
          exact FileTree.isDir_putAt ht (hdirs hq)
      · cases h

/-- The digest of a file that is there, when it can be read. -/
theorem fileSha256_of_file {p : Path} {x : Content} (hf : c.chance.fault = none)
    (hx : w.fs.get p = some (.file x)) : (answer c (.fileSha256 p) w).1 = .ok c.text := by
  have hfile : (w.bury c.dead).fs.isFile p = true := FileTree.isFile_iff.mpr ⟨x, hx⟩
  simp only [answer_fst, perform, hf, hfile, if_true]

end Files

end Device

end Yirang
