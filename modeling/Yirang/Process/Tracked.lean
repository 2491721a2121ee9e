/-
# `Yirang.Process.Tracked` — what the supervisor knows of an instance

A supervisor is asked about processes that come and go.  Of the instance that
a handle was given out for it knows one of three things, and keeps it:

    Tracked     the instance was seen to end; or it was adopted, and its
                token is that of the handle; or it is a child that nobody
                has waited for, so that its pid is not free
    Kept        a call about one pid keeps that, and leaves the rest alone
    Looked      a look, besides, says "running" of a process that is there

The token is compared where a pid may have been reused, and a child is not
asked for its token because it keeps its pid.
-/
import Yirang.Process.Instance

namespace Yirang

open Effect

namespace Posix

variable {handle : ProcessHandle} {t : BitVec 64} {m m' m₀ : Supervisor} {w w' w₀ : Kernel}
  {s : ProcessStatus} {c : Choice} {timeout : Int}

def Freely (_ : Kernel) (_ : Op) (_ : Choice) : Prop := True

/-! ## What the supervisor knows of an instance -/

/-- Of the instance with the token `t`, for which `handle` was given out. -/
inductive Tracked (handle : ProcessHandle) (t : BitVec 64) (m : Supervisor) (w : Kernel) : Prop
  | finished {s : ProcessStatus} : m.finished handle.id = some s → Tracked handle t m w
  | adopted : m.finished handle.id = none → m.adopted handle.id = true → handle.startToken = t →
      (∀ g ∈ w.children, g.id = handle.id → g.startToken = t) → Tracked handle t m w
  | child : m.finished handle.id = none → m.adopted handle.id = false →
      ⟨handle.id, t⟩ ∈ w.children → Tracked handle t m w

/-- A call about `handle` changes nothing that concerns another pid. -/
structure Kept (handle : ProcessHandle) (t : BitVec 64) (m₀ : Supervisor) (w₀ : Kernel)
    (m : Supervisor) (w : Kernel) : Prop where
  done : ∀ i s, m.finished i = some s → s.state ≠ .running
  tracked : Tracked handle t m w
  sup : ∀ i, i ≠ handle.id → m.finished i = m₀.finished i ∧ m.adopted i = m₀.adopted i
  kin : ∀ g, g.id ≠ handle.id → (g ∈ w.children ↔ g ∈ w₀.children)

/-- What concerns other pids does not matter. -/
theorem Tracked.apart (h : Tracked handle t m w)
    (hfin : m'.finished handle.id = m.finished handle.id)
    (hadopt : m'.adopted handle.id = m.adopted handle.id)
    (hw : ∀ g, g.id = handle.id → (g ∈ w'.children ↔ g ∈ w.children)) :
    Tracked handle t m' w' := by
  cases h with
  | finished hm => exact .finished (hfin.trans hm)
  | adopted hm ha ht hkin =>
      exact .adopted (hfin.trans hm) (hadopt.trans ha) ht fun g hg hid =>
        hkin g ((hw g hid).mp hg) hid
  | child hm ha hkin =>
      exact .child (hfin.trans hm) (hadopt.trans ha) ((hw ⟨handle.id, t⟩ rfl).mpr hkin)

theorem Tracked.world (h : Tracked handle t m w)
    (hw : ∀ g, g ∈ w'.children ↔ g ∈ w.children) : Tracked handle t m w' :=
  h.apart rfl rfl fun g _ => hw g

theorem Kept.world (h : Kept handle t m₀ w₀ m w)
    (hw : ∀ g, g ∈ w'.children ↔ g ∈ w.children) : Kept handle t m₀ w₀ m w' where
  done := h.done
  tracked := h.tracked.world hw
  sup := h.sup
  kin g hg := (hw g).trans (h.kin g hg)

theorem Kept.happened (h : Kept handle t m₀ w₀ m w) (l : List Happening) :
    Kept handle t m₀ w₀ m (l.foldl Kernel.happen w) :=
  h.world fun _ => along_children

theorem Kept.called (h : Kept handle t m₀ w₀ m w) {o : Op} (ho : o.Barren) (c : Choice) :
    Kept handle t m₀ w₀ m (answer c o w).2 :=
  h.world fun _ => barren_children ho

/-- The end of the process was noted. -/
theorem Kept.ended (h : Kept handle t m₀ w₀ m w) (hs : s.state ≠ .running)
    (hw : ∀ g, g.id ≠ handle.id → (g ∈ w'.children ↔ g ∈ w.children))
    (hfin : m'.finished = (m.finish handle.id s).finished)
    (hadopt : ∀ i, i ≠ handle.id → m'.adopted i = m.adopted i) :
    Kept handle t m₀ w₀ m' w' where
  done i s' hi := by
    simp only [hfin, Supervisor.finish] at hi
    split at hi
    · cases hm : m.finished handle.id with
      | some s₀ =>
          rw [hm] at hi
          cases hi
          exact h.done _ _ hm
      | none =>
          rw [hm] at hi
          cases hi
          exact hs
    · exact h.done i s' hi
  tracked := by
    have hsome : ∃ s', m'.finished handle.id = some s' := by
      simp only [hfin, Supervisor.finish, if_true]
      cases m.finished handle.id with
      | some s₀ => exact ⟨s₀, rfl⟩
      | none => exact ⟨s, rfl⟩
    exact hsome.elim fun _ => .finished
  sup i hi := by
    rw [hfin, hadopt i hi]
    simp only [Supervisor.finish, if_neg hi]
    exact h.sup i hi
  kin g hg := (hw g hg).trans (h.kin g hg)

theorem Kept.finish (h : Kept handle t m₀ w₀ m w) (hs : s.state ≠ .running)
    (hw : ∀ g, g.id ≠ handle.id → (g ∈ w'.children ↔ g ∈ w.children)) :
    Kept handle t m₀ w₀ (m.finish handle.id s) w' :=
  h.ended hs hw rfl fun _ _ => rfl

theorem Kept.release (h : Kept handle t m₀ w₀ m w) (hs : s.state ≠ .running)
    (hw : ∀ g, g.id ≠ handle.id → (g ∈ w'.children ↔ g ∈ w.children)) :
    Kept handle t m₀ w₀ (m.release handle.id s) w' :=
  h.ended hs hw rfl fun _ hi => if_neg hi

/-! ## Looking -/

/-- A look: what is known stays known, and of a process that runs nothing
changes. -/
def Looked (handle : ProcessHandle) (t : BitVec 64) (m₀ : Supervisor) (w₀ : Kernel)
    (m : Supervisor) (res : Except String ProcessStatus) (m' : Supervisor) (w' : Kernel) : Prop :=
  Kept handle t m₀ w₀ m' w' ∧
    ∀ s, res = .ok s → s.state = .running →
      m' = m ∧ m.finished handle.id = none ∧ Here ⟨handle.id, t⟩ w'

theorem Looked.failed {e : String} (h : Kept handle t m₀ w₀ m' w') :
    Looked handle t m₀ w₀ m (.error e) m' w' :=
  ⟨h, fun _ hs => by cases hs⟩

theorem Looked.over (h : Kept handle t m₀ w₀ m' w') (hs : s.state ≠ .running) :
    Looked handle t m₀ w₀ m (.ok s) m' w' :=
  ⟨h, fun _ hok hrun => by cases hok; exact absurd hrun hs⟩

theorem Looked.runs (h : Kept handle t m₀ w₀ m w') (hm : m.finished handle.id = none)
    (hhere : Here ⟨handle.id, t⟩ w') : Looked handle t m₀ w₀ m (.ok running) m w' :=
  ⟨h, fun _ _ _ => ⟨rfl, hm, hhere⟩⟩

theorem startToken_ok {id : Int} {fault : Option String} {token : BitVec 64}
    (h : w.startToken id fault = .ok token) : Here ⟨id, token⟩ w := by
  unfold Kernel.startToken at h
  split at h
  · cases h
  · split at h
    · cases h
    · rename_i q hfind
      have hq := List.find?_some hfind
      have hpid : q.pid = id := by simpa using hq
      split at h
      · cases h
      · cases h
        exact ⟨q, List.mem_of_find?_eq_some hfind, by rw [Proc.handle, hpid]⟩

theorem gone_looked (h : Kept handle t m₀ w₀ m w) :
    wp answer Freely Anywhere (gone handle.id).run (Looked handle t m₀ w₀ m) m w := by
  unfold gone
  refine wp_load_seq.mpr (wp_store_seq.mpr ?_)
  exact .over (h.release (by decide) fun _ _ => Iff.rfl) (by decide)

theorem compareToken_looked (h : Kept handle t m₀ w₀ m w) (hm : m.finished handle.id = none)
    (htoken : handle.startToken = t) :
    wp answer Freely Anywhere (compareToken handle).run (Looked handle t m₀ w₀ m) m w := by
  unfold compareToken
  refine wp_seq.mpr (wp_ask.mpr ⟨trivial, fun c _ => ?_⟩)
  have h₁ := h.called (o := .startToken handle.id) trivial c
  cases hresult : (answer c (.startToken handle.id) w).1 with
  | ok token =>
      dsimp only [andThen]
      split
      · rename_i hsame
        refine .runs h₁ hm ?_
        rw [← htoken, ← hsame]
        exact startToken_ok hresult
      · exact gone_looked h₁
  | error why =>
      refine wp_seq.mpr (wp_ask.mpr ⟨trivial, fun c₂ _ => ?_⟩)
      have h₂ := h₁.called (o := .kill (pidT handle.id) .probe) trivial c₂
      dsimp only [andThen]
      split
      · exact .failed h₂
      · exact gone_looked h₂

/-- A look begins with a wait that does not block.  It fails, or it does what
a wait for the pid does, once some time has passed. -/
theorem wait_looked {k : Waited → Step ProcessStatus} (hp : 0 < handle.id)
    (hid : pidT handle.id = handle.id) (h : Kept handle t m₀ w₀ m w)
    (hfailed : ∀ why w', Kept handle t m₀ w₀ m w' →
      wp answer Freely Anywhere (k (.failed why)).run (Looked handle t m₀ w₀ m) m w')
    (hwaited : ∀ waited w' w'', Kept handle t m₀ w₀ m w' →
      (∀ g, g ∈ w'.children ↔ g ∈ w.children) → WaitsFor handle.id w' false waited w'' →
      wp answer Freely Anywhere (k waited).run (Looked handle t m₀ w₀ m) m w'') :
    wp answer Freely Anywhere
      (ask (E := posix) (.waitpid (pidT handle.id) false) >>= k).run
      (Looked handle t m₀ w₀ m) m w := by
  refine wp_seq.mpr (wp_ask.mpr ⟨trivial, fun c _ => ?_⟩)
  rw [hid]
  have h₁ := h.happened c.happenings
  rw [answer_waitpid]
  cases c.fault with
  | some why => exact hfailed why _ h₁
  | none =>
      exact hwaited _ _ _ h₁ (fun _ => along_children) (waitpid_waitsFor hp false c.status)

theorem adoptedStatus_looked (hp : 0 < handle.id) (hid : pidT handle.id = handle.id)
    (h : Kept handle t m₀ w₀ m w) (hm : m.finished handle.id = none)
    (ha : m.adopted handle.id = true) :
    wp answer Freely Anywhere (adoptedStatus handle).run (Looked handle t m₀ w₀ m) m w := by
  obtain ⟨htoken, hkin⟩ : handle.startToken = t ∧
      ∀ g ∈ w.children, g.id = handle.id → g.startToken = t := by
    cases h.tracked with
    | finished hm' => rw [hm] at hm'; cases hm'
    | adopted _ _ htoken hkin => exact ⟨htoken, hkin⟩
    | child _ ha' _ => rw [ha] at ha'; cases ha'
  unfold adoptedStatus
  refine wait_looked hp hid h (fun why w' h' => .failed h') ?_
  intro waited w₁ w₂ h₁ hsame hwait
  cases hwait with
  | ended hx hchild hpid =>
      exact .over (h₁.release (toStatus_state _) fun g hg =>
        retain_children.trans (and_iff_left hg)) (toStatus_state _)
  | still hx hchild hpid _ =>
      refine .runs h₁ hm ⟨_, hx, ?_⟩
      have htok := hkin _ ((hsame _).mp (Kernel.mem_children.mpr ⟨_, hx, hchild, rfl⟩)) hpid
      rw [← htok, ← hpid]
      rfl
  | noChild hno =>
      refine wp_seq.mpr (wp_ask.mpr ⟨trivial, fun c₂ _ => ?_⟩)
      have h₂ := h₁.called (o := .kill (pidT handle.id) .probe) trivial c₂
      cases (answer c₂ (.kill (pidT handle.id) .probe) w₁).1 with
      | ok _ => exact compareToken_looked h₂ hm htoken
      | error errno =>
          cases errno with
          | eperm => exact compareToken_looked h₂ hm htoken
          | esrch => exact gone_looked h₂
          | other why => exact .failed h₂

theorem childStatus_looked (hp : 0 < handle.id) (hid : pidT handle.id = handle.id)
    (h : Kept handle t m₀ w₀ m w) (hm : m.finished handle.id = none)
    (ha : m.adopted handle.id = false) :
    wp answer Freely Anywhere (childStatus handle).run (Looked handle t m₀ w₀ m) m w := by
  have hkin : ⟨handle.id, t⟩ ∈ w.children := by
    cases h.tracked with
    | finished hm' => rw [hm] at hm'; cases hm'
    | adopted _ ha' _ _ => rw [ha] at ha'; cases ha'
    | child _ _ hkin => exact hkin
  unfold childStatus
  refine wait_looked hp hid h (fun why w' h' => .failed h') ?_
  intro waited w₁ w₂ h₁ hsame hwait
  cases hwait with
  | ended hx hchild hpid =>
      exact .over (h₁.finish (toStatus_state _) fun g hg =>
        retain_children.trans (and_iff_left hg)) (toStatus_state _)
  | still hx hchild hpid _ =>
      obtain ⟨q, hq, _, hsame⟩ := Kernel.mem_children.mp ((hsame _).mpr hkin)
      exact .runs h₁ hm ⟨q, hq, hsame⟩
  | noChild hno => exact absurd rfl (hno ⟨handle.id, t⟩ ((hsame _).mpr hkin))

theorem status_looked (hp : 0 < handle.id) (hid : pidT handle.id = handle.id)
    (h : Kept handle t m₀ w₀ m w) :
    wp answer Freely Anywhere (status handle).run (Looked handle t m₀ w₀ m) m w := by
  cases hm : m.finished handle.id with
  | some s =>
      refine (wp_status_finished hp hm).mpr ?_
      exact .over h (h.done _ _ hm)
  | none =>
      cases ha : m.adopted handle.id with
      | true => exact (wp_status_adopted hp hm ha).mpr (adoptedStatus_looked hp hid h hm ha)
      | false => exact (wp_status_child hp hm ha).mpr (childStatus_looked hp hid h hm ha)

/-! ## `stop`, as far as other pids are concerned -/

theorem poll_kept {look : Step ProcessStatus}
    (hlook : ∀ w, Kept handle t m₀ w₀ m w →
      wp answer Freely Anywhere look.run (Looked handle t m₀ w₀ m) m w)
    (turns : Nat) (h : Kept handle t m₀ w₀ m w) :
    wp answer Freely Anywhere (poll look turns).run
      (fun res m' w' => Kept handle t m₀ w₀ m' w' ∧ (res = .ok false → m' = m)) m w := by
  induction turns generalizing w with
  | zero => exact ⟨h, fun _ => rfl⟩
  | succ n ih =>
      refine wp_seq_of (hlook w h) ?_ ?_
      · rintro polled m₁ w₁ ⟨h₁, hrun⟩
        split
        · exact ⟨h₁, fun hno => by cases hno⟩
        · rename_i hstate
          obtain ⟨rfl, _, _⟩ := hrun polled rfl (not_not.mp hstate)
          exact ih h₁
      · rintro e m₁ w₁ ⟨h₁, _⟩
        exact ⟨h₁, fun hno => by cases hno⟩

theorem signalGroup_kept (h : Kept handle t m₀ w₀ m w) (id : Int) (signal : Signal)
    (name : String) :
    wp answer Freely Anywhere (signalGroup id signal name).run
      (fun _ m' w' => Kept handle t m₀ w₀ m' w' ∧ m' = m) m w := by
  unfold signalGroup
  refine wp_seq.mpr (wp_ask.mpr ⟨trivial, fun c _ => ?_⟩)
  have h₁ := h.called (o := .kill (-pidT id) signal) trivial c
  cases (answer c (.kill (-pidT id) signal) w).1 with
  | ok _ => exact ⟨h₁, rfl⟩
  | error errno =>
      cases errno with
      | esrch | eperm | other why => exact ⟨h₁, rfl⟩

theorem settle_kept (hp : 0 < handle.id) (hid : pidT handle.id = handle.id)
    (h : Kept handle t m₀ w₀ m w) (hm : m.finished handle.id = none)
    (ha : m.adopted handle.id = true) :
    wp answer Freely Anywhere (settle handle timeout).run
      (fun _ m' w' => Kept handle t m₀ w₀ m' w') m w := by
  unfold settle
  refine wp_seq.mpr (wp_ask.mpr ⟨trivial, fun c _ => ?_⟩)
  have h₁ := h.called (o := .turns timeout) trivial c
  refine wp_seq_of (poll_kept (fun w hw => adoptedStatus_looked hp hid hw hm ha) _ h₁) ?_ ?_
  · rintro ended m₂ w₂ ⟨h₂, _⟩
    refine wp_require.mpr ?_
    split <;> exact h₂
  · rintro e m₂ w₂ ⟨h₂, _⟩
    exact h₂

theorem reap_kept (hp : 0 < handle.id) (hid : pidT handle.id = handle.id)
    (h : Kept handle t m₀ w₀ m w) :
    wp answer Freely Anywhere (reap handle.id).run
      (fun _ m' w' => Kept handle t m₀ w₀ m' w') m w := by
  unfold reap
  refine wp_seq.mpr (wp_ask.mpr ⟨trivial, fun c _ => ?_⟩)
  rw [hid]
  have h₁ := h.happened c.happenings
  have hanswer : answer c (.waitpid handle.id true) w =
      (c.happenings.foldl Kernel.happen w).waitpid handle.id true c.status := rfl
  rw [hanswer]
  revert h₁
  generalize c.happenings.foldl Kernel.happen w = w₁
  intro h₁
  have hwait := waitpid_waitsFor (w := w₁) hp true c.status
  revert hwait
  generalize (w₁.waitpid handle.id true c.status).1 = waited
  generalize (w₁.waitpid handle.id true c.status).2 = w₂
  intro hwait
  cases hwait with
  | ended hx hchild hpid =>
      exact h₁.finish (toStatus_state _) fun g hg => retain_children.trans (and_iff_left hg)
  | still _ _ _ hno => cases hno
  | noChild _ => exact h₁

theorem stop_kept (hp : 0 < handle.id) (hid : pidT handle.id = handle.id)
    (h : Kept handle t m₀ w₀ m w) :
    wp answer Freely Anywhere (stop handle timeout).run
      (fun _ m' w' => Kept handle t m₀ w₀ m' w') m w := by
  unfold stop
  refine wp_require_seq.mpr ?_
  rw [if_pos (decide_eq_true hp)]
  refine wp_load_seq.mpr ?_
  refine wp_seq_of (status_looked hp hid h) ?_ ?_
  · rintro current m₁ w₁ ⟨h₁, hrun⟩
    split
    · exact h₁
    rename_i hstate
    obtain ⟨rfl, hm, _⟩ := hrun current rfl (not_not.mp hstate)
    refine wp_seq_of (signalGroup_kept h₁ handle.id .term "SIGTERM") ?_ ?_
    · rintro _ m₂ w₂ ⟨h₂, rfl⟩
      refine wp_seq.mpr (wp_ask.mpr ⟨trivial, fun c _ => ?_⟩)
      have h₃ := h₂.called (o := .turns timeout) trivial c
      refine wp_seq_of (poll_kept (fun w hw => status_looked hp hid hw) _ h₃) ?_ ?_
      · rintro ended m₄ w₄ ⟨h₄, hsame⟩
        cases ended with
        | true => exact h₄
        | false =>
            cases hsame rfl
            refine wp_seq_of (signalGroup_kept h₄ handle.id .kill "SIGKILL") ?_ ?_
            · rintro _ m₅ w₅ ⟨h₅, rfl⟩
              split
              · rename_i ha
                exact settle_kept hp hid h₅ hm ha
              · refine wp_seq_of (reap_kept hp hid h₅) ?_ ?_
                · intro _ m₆ w₆ h₆
                  exact h₆
                · intro _ m₆ w₆ h₆
                  exact h₆
            · rintro e m₅ w₅ ⟨h₅, _⟩
              exact h₅
      · rintro e m₄ w₄ ⟨h₄, _⟩
        exact h₄
    · rintro e m₂ w₂ ⟨h₂, _⟩
      exact h₂
  · rintro e m₁ w₁ ⟨h₁, _⟩
    exact h₁

end Posix

end Yirang
