/-
# `Yirang.Process.Intended` — whom `stop` signals

A supervisor is called again and again, with handles that it gave out, while
processes come and go:

    Session     the sequences of calls, and the latest handle of each pid,
                with the token of the instance that it was given out for
    Known       each of these is tracked, and its pid is one of a process
    stop_reaches_the_instance   the signals of a `stop` go to the group of
                the instance, and `status` says "running" of it alone

Only `stop` needs that no pid is given again while it is running: between
the look that finds the process and the signal the pid must not change hands.
-/
import Yirang.Process.Tracked
import Yirang.Process.Stopping

namespace Yirang

open Effect

namespace Posix

variable {handle : ProcessHandle} {t : BitVec 64} {m m' m₀ : Supervisor} {w w' w₀ : Kernel}
  {s : ProcessStatus} {c : Choice} {timeout : Int}

/-! ## Starting -/

theorem add_children {q : Proc} (hq : w.Fresh q) (hchild : q.child = true) {g : ProcessHandle} :
    g ∈ (w.add q hq).children ↔ g = q.handle ∨ g ∈ w.children := by
  rw [Kernel.mem_children, Kernel.mem_children]
  constructor
  · rintro ⟨x, hx, hc, rfl⟩
    rcases List.mem_cons.mp hx with rfl | hx
    · exact Or.inl rfl
    · exact Or.inr ⟨x, hx, hc, rfl⟩
  · rintro (rfl | ⟨x, hx, hc, rfl⟩)
    · exact ⟨q, List.mem_cons_self, hchild, rfl⟩
    · exact ⟨x, List.mem_cons_of_mem _ hx, hc, rfl⟩

/-- The child `⟨p, t⟩` was made, and nothing else. -/
structure Made (p : Int) (t : BitVec 64) (w w' : Kernel) : Prop where
  pid : 1 < p ∧ p < 2147483648
  fresh : ∀ g ∈ w.children, g.id ≠ p
  child : ∀ g, g ∈ w'.children ↔ g = ⟨p, t⟩ ∨ g ∈ w.children

theorem Made.along {p : Int} {w₁ : Kernel} (h : Made p t w w₁)
    (hw : ∀ g, g ∈ w'.children ↔ g ∈ w₁.children) : Made p t w w' :=
  ⟨h.pid, h.fresh, fun g => (hw g).trans (h.child g)⟩

theorem fork_made {child : Int} (h : (answer c .fork w).1 = .ok child) :
    ∃ t, Made child t w (answer c .fork w).2 := by
  have hsame : ∀ g, g ∈ (c.happenings.foldl Kernel.happen w).children ↔ g ∈ w.children :=
    fun _ => along_children
  simp only [answer, perform] at h ⊢
  split at h
  · cases h
  · split at h
    · rename_i hfresh
      cases h
      rw [dif_pos hfresh]
      refine ⟨c.newcomer.token, ⟨hfresh.above, hfresh.below⟩, ?_, ?_⟩
      · intro g hg hid
        obtain ⟨q, hq, _, rfl⟩ := Kernel.mem_children.mp ((hsame g).mpr hg)
        exact hfresh.pid (List.mem_map.mpr ⟨q, hq, hid⟩)
      · intro g
        exact (add_children hfresh rfl).trans (or_congr Iff.rfl (hsame g))
    · cases h

theorem fork_failed {why : String} (h : (answer c .fork w).1 = .error why) {g : ProcessHandle} :
    g ∈ (answer c .fork w).2.children ↔ g ∈ w.children := by
  refine Iff.trans ?_ (along_children (l := c.happenings))
  simp only [answer, perform] at h ⊢
  split at h
  · exact Iff.rfl
  · split at h
    · cases h
    · rename_i hfresh
      rw [dif_neg hfresh]

/-- A call of `start` leaves one more child, or all as it was. -/
inductive Began (m : Supervisor) (w : Kernel) :
    Except String ProcessHandle → Supervisor → Kernel → Prop
  | made {handle : ProcessHandle} {t : BitVec 64} {w' : Kernel} : Made handle.id t w w' →
      Began m w (.ok handle) (m.forget handle.id) w'
  | failed {why : String} {w' : Kernel} : (∀ g, g ∈ w'.children ↔ g ∈ w.children) →
      Began m w (.error why) m w'

theorem start_began {options : ProcessStartOptions} :
    wp answer Freely Anywhere (start options).run (Began m w) m w := by
  unfold start
  refine wp_require_seq.mpr ?_
  split
  case isFalse => exact .failed fun _ => Iff.rfl
  refine wp_seq.mpr (wp_orFail.mpr (wp_ask.mpr ⟨trivial, fun c₁ _ => ?_⟩))
  have h₁ : ∀ g, g ∈ (answer c₁ .pipe w).2.children ↔ g ∈ w.children :=
    fun _ => barren_children (o := .pipe) trivial
  cases (answer c₁ .pipe w).1 with
  | error why => exact .failed h₁
  | ok _ =>
  generalize (answer c₁ .pipe w).2 = w₁ at h₁ ⊢
  refine wp_seq.mpr (wp_orFail.mpr (wp_ask.mpr ⟨trivial, fun c₂ _ => ?_⟩))
  have h₂ : ∀ g, g ∈ (answer c₂ .cloexec w₁).2.children ↔ g ∈ w.children :=
    fun g => (barren_children (o := .cloexec) trivial).trans (h₁ g)
  cases (answer c₂ .cloexec w₁).1 with
  | error why => exact .failed h₂
  | ok _ =>
  generalize (answer c₂ .cloexec w₁).2 = w₂ at h₂ ⊢
  refine wp_seq.mpr (wp_orFail.mpr (wp_ask.mpr ⟨trivial, fun c₃ _ => ?_⟩))
  cases hfork : (answer c₃ .fork w₂).1 with
  | error why => exact .failed fun g => (fork_failed hfork).trans (h₂ g)
  | ok child =>
  obtain ⟨t, hmade⟩ := fork_made hfork
  replace hmade : Made child t w (answer c₃ .fork w₂).2 :=
    ⟨hmade.pid, fun g hg => hmade.fresh g ((h₂ g).mpr hg),
      fun g => (hmade.child g).trans (or_congr Iff.rfl (h₂ g))⟩
  generalize (answer c₃ .fork w₂).2 = w₃ at hmade ⊢
  refine wp_seq.mpr (wp_ask.mpr ⟨trivial, fun c₄ _ => ?_⟩)
  have h₄ : Made child t w (answer c₄ (.setpgid child) w₃).2 :=
    hmade.along fun _ => barren_children (o := .setpgid child) trivial
  generalize (answer c₄ (.setpgid child) w₃).2 = w₄ at h₄ ⊢
  refine wp_seq.mpr (wp_ask.mpr ⟨trivial, fun c₅ _ => ?_⟩)
  have h₅ : Made child t w (answer c₅ .report w₄).2 :=
    h₄.along fun _ => barren_children (o := .report) trivial
  generalize (answer c₅ .report w₄).2 = w₅ at h₅ ⊢
  cases (answer c₅ .report w₄).1 with
  | some reason =>
      refine wp_seq.mpr (wp_ask.mpr ⟨trivial, fun c₆ _ => ?_⟩)
      exact .failed (reaped h₅ c₆)
  | none =>
      refine wp_seq.mpr (wp_ask.mpr ⟨trivial, fun c₆ _ => ?_⟩)
      exact .made (h₅.along fun _ => barren_children (o := .startToken child) trivial)
where
  /-- The child is waited for where it could not run the executable. -/
  reaped {child : Int} {t : BitVec 64} {w w₅ : Kernel} (h : Made child t w w₅) (c : Choice) :
      ∀ g, g ∈ (answer c (.waitpid child true) w₅).2.children ↔ g ∈ w.children := by
    intro g
    have h₆ : Made child t w (c.happenings.foldl Kernel.happen w₅) :=
      h.along fun _ => along_children
    have hwait := waitpid_waitsFor (w := c.happenings.foldl Kernel.happen w₅)
      (Int.lt_trans (by decide) h.pid.1) true c.status
    have hanswer : answer c (.waitpid child true) w₅ =
        (c.happenings.foldl Kernel.happen w₅).waitpid child true c.status := rfl
    rw [hanswer]
    generalize c.happenings.foldl Kernel.happen w₅ = w₆ at h₆ hwait
    generalize (w₆.waitpid child true c.status).1 = waited at hwait
    generalize (w₆.waitpid child true c.status).2 = w₇ at hwait
    cases hwait with
    | ended _ _ _ =>
        refine retain_children.trans ⟨?_, ?_⟩
        · rintro ⟨hg, hne⟩
          rcases (h₆.child g).mp hg with rfl | hg
          · exact absurd rfl hne
          · exact hg
        · exact fun hg => ⟨(h₆.child g).mpr (Or.inr hg), h.fresh g hg⟩
    | still _ _ _ hno => cases hno
    | noChild hno => exact absurd rfl (hno ⟨child, t⟩ ((h₆.child _).mpr (Or.inl rfl)))

/-! ## Adopting -/

/-- A call of `adopt` takes over the instance of the handle, or nothing. -/
inductive Verified (handle : ProcessHandle) (m : Supervisor) (w : Kernel) :
    Except String ProcessHandle → Supervisor → Kernel → Prop
  | taken {w' : Kernel} : 1 < handle.id → handle.id < 2147483648 →
      (∀ g, g ∈ w'.children ↔ g ∈ w.children) →
      (∀ g ∈ w'.children, g.id = handle.id → g.startToken = handle.startToken) →
      Verified handle m w (.ok handle) (m.take handle.id) w'
  | refused {why : String} {w' : Kernel} : (∀ g, g ∈ w'.children ↔ g ∈ w.children) →
      Verified handle m w (.error why) m w'

/-- A child with the pid of an instance that is there is that instance. -/
theorem Here.child {g g' : ProcessHandle} (h : Here g w) (hg' : g' ∈ w.children)
    (hid : g'.id = g.id) : g' = g := by
  obtain ⟨q, hq, _, rfl⟩ := Kernel.mem_children.mp hg'
  exact h.owns.here q hq hid

theorem adopt_verified :
    wp answer Freely Anywhere (adopt handle).run (Verified handle m w) m w := by
  unfold adopt
  refine wp_require_seq.mpr ?_
  split
  case isFalse => exact .refused fun _ => Iff.rfl
  rename_i hone
  refine wp_require_seq.mpr ?_
  split
  case isFalse => exact .refused fun _ => Iff.rfl
  refine wp_seq.mpr (wp_orFail.mpr (wp_ask.mpr ⟨trivial, fun c₁ _ => ?_⟩))
  have h₁ : ∀ g, g ∈ (answer c₁ (.startToken handle.id) w).2.children ↔ g ∈ w.children :=
    fun _ => barren_children (o := .startToken handle.id) trivial
  cases htoken : (answer c₁ (.startToken handle.id) w).1 with
  | error why => exact .refused h₁
  | ok token =>
  have hhere : Here ⟨handle.id, token⟩ (answer c₁ (.startToken handle.id) w).2 :=
    startToken_ok htoken
  generalize (answer c₁ (.startToken handle.id) w).2 = w₁ at h₁ hhere ⊢
  refine wp_require_seq.mpr ?_
  split
  case isFalse => exact .refused h₁
  rename_i hsame
  cases of_decide_eq_true hsame
  have hlt : handle.id < 2147483648 := by
    obtain ⟨q, hq, hhandle⟩ := hhere
    rw [← congrArg ProcessHandle.id hhandle]
    exact (w₁.bounded q hq).2
  have hkin : ∀ g ∈ w₁.children, g.id = handle.id → g.startToken = handle.startToken :=
    fun g hg hid => congrArg ProcessHandle.startToken (hhere.child hg hid)
  refine wp_seq.mpr (wp_ask.mpr ⟨trivial, fun c₂ _ => ?_⟩)
  have h₂ : ∀ g, g ∈ (answer c₂ (.kill (pidT handle.id) .probe) w₁).2.children ↔
      g ∈ w₁.children := fun _ => barren_children (o := .kill (pidT handle.id) .probe) trivial
  have htaken : Verified handle m w (.ok handle) (m.take handle.id)
      (answer c₂ (.kill (pidT handle.id) .probe) w₁).2 :=
    .taken (of_decide_eq_true hone) hlt (fun g => (h₂ g).trans (h₁ g))
      fun g hg hid => hkin g ((h₂ g).mp hg) hid
  have hrefused : ∀ why, Verified handle m w (.error why) m
      (answer c₂ (.kill (pidT handle.id) .probe) w₁).2 :=
    fun _ => .refused fun g => (h₂ g).trans (h₁ g)
  cases (answer c₂ (.kill (pidT handle.id) .probe) w₁).1 with
  | ok _ => exact htaken
  | error errno =>
      cases errno with
      | eperm => exact htaken
      | esrch | other why => exact hrefused _

/-! ## The signals of one `stop` -/

/-- A call that neither makes a child nor sends a signal. -/
def Op.Quiet : Op → Prop
  | .fork => False
  | .kill _ signal => signal = .probe
  | _ => True

theorem Op.Quiet.meant {p : Int} : ∀ o : Op, o.Quiet → o.Meant p
  | .kill _ _, h => Or.inl h
  | .pipe, _ | .cloexec, _ | .setpgid _, _ | .report, _ | .waitpid _ _, _ | .startToken _, _
  | .turns _, _ => trivial

theorem waitpid_sent {target : Int} {hang : Bool} {x : WaitStatus} :
    (w.waitpid target hang x).2.sent = w.sent := by
  unfold Kernel.waitpid
  split
  · rfl
  · split
    · split <;> rfl
    · rfl

theorem quiet_sent {o : Op} (ho : o.Quiet) : (answer c o w).2.sent = w.sent := by
  refine Eq.trans ?_ (along_sent (l := c.happenings))
  cases o with
  | fork => exact ho.elim
  | pipe | cloexec =>
      simp only [answer, perform]
      split <;> rfl
  | report | startToken id | turns timeout => rfl
  | setpgid pid =>
      simp only [answer, perform, Kernel.setpgid]
      split
      · split <;> rfl
      · rfl
  | waitpid target hang =>
      cases hang with
      | true => exact waitpid_sent
      | false =>
          simp only [answer, perform]
          split
          · rfl
          · exact waitpid_sent
  | kill target signal =>
      cases ho
      simp only [answer, perform, Kernel.kill, Kernel.deliver]
      split
      · split <;> rfl
      · rfl

section Footprints

theorem gone_quiet (id : Int) : Uses Op.Quiet (gone id).run := fun _ => trivial

theorem compareToken_quiet : Uses Op.Quiet (compareToken handle).run := by
  refine Uses.seq (Uses.ask trivial) fun token => ?_
  cases token with
  | ok token => exact Uses.ite (fun _ => trivial) fun _ => gone_quiet _
  | error why =>
      refine Uses.seq (Uses.ask rfl) fun again => ?_
      exact Uses.ite (fun _ => trivial) fun _ => gone_quiet _

theorem adoptedStatus_quiet : Uses Op.Quiet (adoptedStatus handle).run := by
  refine Uses.seq (Uses.ask trivial) fun waited => ?_
  cases waited with
  | ended s => exact fun _ => trivial
  | still | failed why => trivial
  | noChild =>
      refine Uses.seq (Uses.ask rfl) fun asked => ?_
      match asked with
      | .ok _ | .error .eperm => exact compareToken_quiet
      | .error .esrch => exact gone_quiet _
      | .error (.other _) => trivial

theorem childStatus_quiet : Uses Op.Quiet (childStatus handle).run := by
  refine Uses.seq (Uses.ask trivial) fun waited => ?_
  cases waited with
  | ended s => exact fun _ => trivial
  | still | failed why | noChild => trivial

theorem status_quiet : Uses Op.Quiet (status handle).run := by
  refine Uses.seq Uses.require fun _ => Uses.load_seq fun m => ?_
  cases m.finished handle.id with
  | some cached => trivial
  | none => exact Uses.ite (fun _ => adoptedStatus_quiet) fun _ => childStatus_quiet

theorem poll_uses {S : Op → Prop} {look : Step ProcessStatus} (hlook : Uses S look.run) :
    ∀ turns, Uses S (poll look turns).run
  | 0 => trivial
  | turns + 1 =>
      Uses.seq hlook fun _ => Uses.ite (fun _ => trivial) fun _ => poll_uses hlook turns

theorem settle_quiet : Uses Op.Quiet (settle handle timeout).run :=
  Uses.seq (Uses.ask trivial) fun turns =>
    Uses.seq (poll_uses adoptedStatus_quiet turns) fun _ => Uses.require

theorem reap_quiet (id : Int) : Uses Op.Quiet (reap id).run := by
  refine Uses.seq (Uses.ask trivial) fun waited => ?_
  cases waited with
  | still | ended s => exact fun _ => trivial
  | failed why | noChild => trivial

theorem signalGroup_meant {id : Int} (hid : pidT id = id) (signal : Signal) (name : String) :
    Uses (Op.Meant id) (signalGroup id signal name).run := by
  refine Uses.seq (Uses.ask (Or.inr (by rw [hid]))) fun sent => ?_
  match sent with
  | .ok _ | .error .esrch | .error .eperm | .error (.other _) => trivial

end Footprints

/-- Wherever `stop` is, what it has sent went to the instance. -/
theorem stop_sent (hone : 1 < handle.id) (hid : pidT handle.id = handle.id)
    (h : Kept handle t m₀ w₀ m w) :
    wp answer (Keeping handle.id) (fun _ w' _ => SentTo ⟨handle.id, t⟩ w w')
      (stop handle timeout).run (fun _ _ w' => SentTo ⟨handle.id, t⟩ w w') m w := by
  have hp : 0 < handle.id := Int.lt_trans (by decide) hone
  unfold stop
  refine wp_require_seq.mpr ?_
  rw [if_pos (decide_eq_true hp)]
  refine wp_load_seq.mpr ?_
  have hquiet : wp answer (Keeping handle.id) (fun _ w' _ => SentTo ⟨handle.id, t⟩ w w')
      (status handle).run (fun _ _ w' => w'.sent = w.sent) m w :=
    wp_of_uses (S := Op.Quiet) (R := fun w' : Kernel => w'.sent = w.sent)
      (fun _ _ _ ho _ hs => (quiet_sent ho).trans hs) (fun _ _ _ _ hs => SentTo.same hs)
      status_quiet rfl
  have hlook : wp answer (Keeping handle.id) Anywhere (status handle).run
      (Looked handle t m₀ w₀ m) m w :=
    wp_mono (fun _ _ _ _ => trivial) (fun _ _ _ h => h) (fun _ _ _ h => h)
      (status_looked hp hid h)
  refine wp_seq_of (wp_both hlook hquiet) ?_ ?_
  · rintro current m₁ w₁ ⟨⟨_, hrun⟩, hsent⟩
    split
    · exact .same hsent
    rename_i hstate
    obtain ⟨_, _, hhere⟩ := hrun current rfl (not_not.mp hstate)
    refine wp_conseq (wp_of_uses (S := Op.Meant handle.id)
      (R := fun w' => Owns ⟨handle.id, t⟩ w' ∧ SentTo ⟨handle.id, t⟩ w w')
      (fun _ _ _ ho hc hR => meant_step hone ho hc hR) (fun _ _ _ _ hR => hR.2) ?_
      ⟨hhere.owns, .same hsent⟩) fun _ _ _ hR => hR.2
    have hmeant {α : Type} {p : Program posix Supervisor α} (hp : Uses Op.Quiet p) :
        Uses (Op.Meant handle.id) p := hp.mono Op.Quiet.meant
    refine Uses.seq (signalGroup_meant hid _ _) fun _ => ?_
    refine Uses.seq (Uses.ask trivial) fun turns => ?_
    refine Uses.seq (hmeant (poll_uses status_quiet turns)) fun ended => ?_
    refine Uses.ite (fun _ => trivial) fun _ => ?_
    refine Uses.seq (signalGroup_meant hid _ _) fun _ => ?_
    refine Uses.ite (fun _ => hmeant settle_quiet) fun _ => ?_
    exact Uses.seq (hmeant (reap_quiet _)) fun _ => trivial
  · rintro e m₁ w₁ ⟨_, hsent⟩
    exact .same hsent

/-! ## Sequences of calls -/

/-- The latest handle of each pid, and the token of its instance. -/
abbrev Latest := Int → Option (ProcessHandle × BitVec 64)

/-- What a call adds that may give out a handle. -/
def Latest.give (latest : Latest) (token : ProcessHandle → BitVec 64) :
    Except String ProcessHandle → Latest
  | .ok handle => fun i => if i = handle.id then some (handle, token handle) else latest i
  | .error _ => latest

/-- The token of the child with this pid. -/
def Kernel.tokenOf (w : Kernel) (id : Int) : BitVec 64 :=
  ((w.children.find? fun g => g.id = id).getD {}).startToken

/-- What the calls on one supervisor, and the time between them, can reach.
`adopt` is called with any handle, `status` and `stop` with the latest of its
pid. -/
inductive Session (w₀ : Kernel) : Supervisor → Kernel → Latest → Prop
  | fresh : Session w₀ {} w₀ fun _ => none
  | idle {m : Supervisor} {w : Kernel} {latest : Latest} (l : List Happening) :
      Session w₀ m w latest → Session w₀ m (l.foldl Kernel.happen w) latest
  | start {m m' : Supervisor} {w w' : Kernel} {latest : Latest} {options : ProcessStartOptions}
      {res : Except String ProcessHandle} : Session w₀ m w latest →
      Exec answer Freely (start options).run m w (.done res m') w' →
      Session w₀ m' w' (latest.give (fun handle => w'.tokenOf handle.id) res)
  | adopt {m m' : Supervisor} {w w' : Kernel} {latest : Latest} {handle : ProcessHandle}
      {res : Except String ProcessHandle} : Session w₀ m w latest →
      Exec answer Freely (adopt handle).run m w (.done res m') w' →
      Session w₀ m' w' (latest.give ProcessHandle.startToken res)
  | status {m m' : Supervisor} {w w' : Kernel} {latest : Latest} {handle : ProcessHandle}
      {t : BitVec 64} {res : Except String ProcessStatus} : Session w₀ m w latest →
      latest handle.id = some (handle, t) →
      Exec answer Freely (status handle).run m w (.done res m') w' → Session w₀ m' w' latest
  | stop {m m' : Supervisor} {w w' : Kernel} {latest : Latest} {handle : ProcessHandle}
      {t : BitVec 64} {timeout : Int} {res : Except String Unit} : Session w₀ m w latest →
      latest handle.id = some (handle, t) →
      Exec answer (Keeping handle.id) (stop handle timeout).run m w (.done res m') w' →
      Session w₀ m' w' latest

/-- What is known of the processes that handles were given out for. -/
structure Known (m : Supervisor) (w : Kernel) (latest : Latest) : Prop where
  done : ∀ i s, m.finished i = some s → s.state ≠ .running
  pid : ∀ i handle t, latest i = some (handle, t) →
    handle.id = i ∧ 1 < i ∧ i < 2147483648
  tracked : ∀ i handle t, latest i = some (handle, t) → Tracked handle t m w

variable {latest : Latest}

theorem Known.world (h : Known m w latest) (hw : ∀ g, g ∈ w'.children ↔ g ∈ w.children) :
    Known m w' latest :=
  ⟨h.done, h.pid, fun i handle t hl => (h.tracked i handle t hl).world hw⟩

theorem Known.kept (h : Known m w latest) (hl : latest handle.id = some (handle, t)) :
    Kept handle t m w m w :=
  ⟨h.done, h.tracked _ _ _ hl, fun _ _ => ⟨rfl, rfl⟩, fun _ _ => Iff.rfl⟩

theorem Known.of_kept (h : Known m w latest) (hl : latest handle.id = some (handle, t))
    (hk : Kept handle t m w m' w') : Known m' w' latest where
  done := hk.done
  pid := h.pid
  tracked i other t' hl' := by
    obtain ⟨hid, _⟩ := h.pid i other t' hl'
    by_cases hi : i = handle.id
    · rw [hi, hl] at hl'
      cases hl'
      exact hk.tracked
    · obtain ⟨hfin, hadopt⟩ := hk.sup other.id (hid ▸ hi)
      exact (h.tracked i other t' hl').apart hfin hadopt fun g hg => hk.kin g (hg ▸ hid ▸ hi)

/-- A handle is given out, and nothing is remembered of its pid but whether
the process was adopted. -/
theorem Known.give (h : Known m w latest) {token : ProcessHandle → BitVec 64}
    (hpid : 1 < handle.id ∧ handle.id < 2147483648)
    (hfin : m'.finished = (m.forget handle.id).finished)
    (hadopt : ∀ i, i ≠ handle.id → m'.adopted i = m.adopted i)
    (hw : ∀ g, g.id ≠ handle.id → (g ∈ w'.children ↔ g ∈ w.children))
    (ht : Tracked handle (token handle) m' w') : Known m' w' (latest.give token (.ok handle)) where
  done i s hs := by
    simp only [hfin, Supervisor.forget] at hs
    split at hs
    · cases hs
    · exact h.done i s hs
  pid i other t hl := by
    simp only [Latest.give] at hl
    split at hl
    · rename_i hi
      cases hl
      exact ⟨hi.symm, hi ▸ hpid⟩
    · exact h.pid i other t hl
  tracked i other t hl := by
    simp only [Latest.give] at hl
    split at hl
    · cases hl
      exact ht
    · rename_i hi
      obtain ⟨hid, _⟩ := h.pid i other t hl
      have hne : other.id ≠ handle.id := hid ▸ hi
      have hsame : m'.finished other.id = m.finished other.id := by
        rw [hfin]
        exact if_neg hne
      exact (h.tracked i other t hl).apart hsame (hadopt _ hne) fun g hg => hw g (hg ▸ hne)

theorem Made.tokenOf {p : Int} (h : Made p t w w') : w'.tokenOf p = t := by
  have hmem : (⟨p, t⟩ : ProcessHandle) ∈ w'.children := (h.child _).mpr (Or.inl rfl)
  unfold Kernel.tokenOf
  cases hfind : w'.children.find? fun g => g.id = p with
  | none =>
      have hno := List.find?_eq_none.mp hfind _ hmem
      simp at hno
  | some g =>
      have hid : g.id = p := by simpa using List.find?_some hfind
      rcases (h.child g).mp (List.mem_of_find?_eq_some hfind) with rfl | hg
      · rfl
      · exact absurd hid (h.fresh g hg)

theorem Known.began (h : Known m w latest) {res : Except String ProcessHandle}
    (hb : Began m w res m' w') :
    Known m' w' (latest.give (fun handle => w'.tokenOf handle.id) res) := by
  cases hb with
  | failed hw => exact h.world hw
  | made hmade =>
      refine h.give hmade.pid rfl (fun i hi => if_neg hi) ?_ ?_
      · intro g hg
        exact (hmade.child g).trans (or_iff_right fun hnew => hg (by rw [hnew]))
      · rw [hmade.tokenOf]
        exact .child (if_pos rfl) (if_pos rfl) ((hmade.child _).mpr (Or.inl rfl))

theorem Known.verified (h : Known m w latest) {res : Except String ProcessHandle}
    (hv : Verified handle m w res m' w') :
    Known m' w' (latest.give ProcessHandle.startToken res) := by
  cases hv with
  | refused hw => exact h.world hw
  | taken hone hlt hw hkin =>
      refine h.give ⟨hone, hlt⟩ rfl (fun i hi => if_neg hi) (fun g _ => hw g) ?_
      exact .adopted (if_pos rfl) (if_pos rfl) rfl hkin

theorem pidT_eq {id : Int} (hone : 1 < id) (hlt : id < 2147483648) : pidT id = id :=
  Int.bmod_eq_of_le (by omega) (by omega)

theorem Session.known (h : Session w₀ m w latest) : Known m w latest := by
  induction h with
  | fresh => exact ⟨fun _ _ hs => (by cases hs), fun _ _ _ hl => (by cases hl),
      fun _ _ _ hl => (by cases hl)⟩
  | idle l _ ih => exact ih.world fun _ => along_children
  | start _ he ih =>
      have hbegan := wp_done he start_began
      exact ih.began hbegan
  | adopt _ he ih =>
      have hverified := wp_done he adopt_verified
      exact ih.verified hverified
  | status _ hl he ih =>
      obtain ⟨_, hone, hlt⟩ := ih.pid _ _ _ hl
      have hlook := wp_done he (status_looked (Int.lt_trans (by decide) hone)
        (pidT_eq hone hlt) (ih.kept hl))
      exact ih.of_kept hl hlook.1
  | stop _ hl he ih =>
      obtain ⟨_, hone, hlt⟩ := ih.pid _ _ _ hl
      have hkept := wp_done (he.mono fun _ _ _ _ => trivial)
        (stop_kept (Int.lt_trans (by decide) hone) (pidT_eq hone hlt) (ih.kept hl))
      exact ih.of_kept hl hkept

/-- In every sequence of calls a `stop` with the latest handle of a pid
signals the group of the instance which that handle was given out for, to the
end and at every call before it; and `status` says "running" only while that
instance is in the process table. -/
theorem stop_reaches_the_instance (h : Session w₀ m w latest)
    (hl : latest handle.id = some (handle, t)) :
    (∀ timeout out w', Exec answer (Keeping handle.id) (stop handle timeout).run m w out w' →
      1 < handle.id ∧ SentTo ⟨handle.id, t⟩ w w') ∧
    ∀ s m' w', Exec answer Freely (status handle).run m w (.done (.ok s) m') w' →
      s.state = .running → Here ⟨handle.id, t⟩ w' := by
  have hknown := h.known
  obtain ⟨_, hone, hlt⟩ := hknown.pid _ _ _ hl
  have hid := pidT_eq hone hlt
  have hkept := hknown.kept hl
  constructor
  · intro timeout out w' he
    have hmeets := wp_sound he (stop_sent hone hid hkept)
    refine ⟨hone, ?_⟩
    cases out with
    | done res m' => exact hmeets
    | before m' o => exact hmeets
  · intro s m' w' he hrun
    have hlook := wp_done he (status_looked (Int.lt_trans (by decide) hone) hid hkept)
    exact (hlook.2 s rfl hrun).2.2

/-- A process of which only pid and token were written down. -/
theorem stop_reaches_the_instance_service :
    (∀ timeout out w', Exec answer (Keeping 10) (stop ⟨10, 7⟩ timeout).run
      (Supervisor.take {} 10) Sample.service out w' →
      1 < (10 : Int) ∧ SentTo ⟨10, 7⟩ Sample.service w') ∧
    ∀ s m' w', Exec answer Freely (status ⟨10, 7⟩).run (Supervisor.take {} 10) Sample.service
      (.done (.ok s) m') w' → s.state = .running → Here ⟨10, 7⟩ w' := by
  have hadopt : Exec answer Freely (adopt ⟨10, 7⟩).run {} Sample.service
      (.done (.ok ⟨10, 7⟩) (Supervisor.take {} 10)) Sample.service :=
    exec_freely answer _ [{}, {}] _ _ rfl
  have hsession : Session Sample.service (Supervisor.take {} 10) Sample.service _ :=
    .adopt .fresh hadopt
  have hlatest : Latest.give (fun _ => none) ProcessHandle.startToken (.ok ⟨10, 7⟩)
      (ProcessHandle.id ⟨10, 7⟩) = some (⟨10, 7⟩, 7) := rfl
  exact stop_reaches_the_instance hsession hlatest

end Posix

end Yirang
