/-
# `Yirang.Process.Truth` — what the supervisor says is so

`Tracked` tells which instance a call is about.  Whether the answer is true
of that instance needs one more thing: no two instances have one pid and one
token, so that what has left the process table does not come back.

    Unrepeated   the instances that the supervisor makes are made once
    Judged       a look calls nothing dead that is in the table
    stop_true    `stop` succeeds only once the instance is not there
    Launched     `start` leaves one more instance, or none

An instance is there as long as it is in the process table: a zombie still
has its pid, and is told apart from nobody by its token.
-/
import Yirang.Process.Intended

namespace Yirang

open Effect

namespace Posix

variable {handle : ProcessHandle} {t : BitVec 64} {m m' m₀ : Supervisor} {w w' w₀ : Kernel}
  {s : ProcessStatus} {c : Choice} {timeout : Int} {g : ProcessHandle} {o : Op}
  {P : ProcessHandle → Prop} {used : List ProcessHandle}

/-! ## Nothing comes back -/

/-- The instances in `P` are the supervisor's: nobody else makes one, and it
makes none that is in `used`. -/
def Unrepeated (P : ProcessHandle → Prop) (used : List ProcessHandle) (_ : Kernel) (o : Op)
    (c : Choice) : Prop :=
  (∀ q, Happening.born q ∈ c.happenings → ¬ P q.handle) ∧
    (o = .fork → P c.newcomer.handle ∧ c.newcomer.handle ∉ used)

/-- The instances in `P` that are there were there before. -/
def Lasting (P : ProcessHandle → Prop) (w w' : Kernel) : Prop := ∀ g, P g → Here g w' → Here g w

theorem Lasting.refl : Lasting P w w := fun _ _ h => h

theorem Lasting.trans {w'' : Kernel} (h : Lasting P w w') (h' : Lasting P w' w'') :
    Lasting P w w'' := fun g hg hhere => h g hg (h' g hg hhere)

theorem happen_lasting {e : Happening} (he : ∀ q, e = .born q → ¬ P q.handle) :
    Lasting P w (w.happen e) := by
  rintro g hg ⟨q', hq', rfl⟩
  rcases happen_from hq' with ⟨rfl, _, _⟩ | ⟨q, hq, hb⟩
  · exact absurd hg (he q' rfl)
  · exact ⟨q, hq, hb.handle.symm⟩

theorem along_lasting {l : List Happening} (hl : ∀ q, Happening.born q ∈ l → ¬ P q.handle) :
    Lasting P w (l.foldl Kernel.happen w) := by
  induction l generalizing w with
  | nil => exact .refl
  | cons e l ih =>
      have he : Lasting P w (w.happen e) := by
        refine happen_lasting ?_
        rintro q rfl
        exact hl q List.mem_cons_self
      exact he.trans (ih fun q hq => hl q (List.mem_cons_of_mem _ hq))

theorem change_lasting {f : Proc → Proc} (hf : w.Respects f) : Lasting P w (w.change f hf) := by
  rintro g - ⟨q', hq', rfl⟩
  obtain ⟨q, hq, rfl⟩ := List.mem_map.mp hq'
  exact ⟨q, hq, (hf q hq).1.symm⟩

theorem mark_lasting {hit : Proc → Bool} {ended : Option WaitStatus} {told : Bool} :
    Lasting P w (w.mark hit ended told) := by
  unfold Kernel.mark
  exact change_lasting _

theorem retain_lasting {keep : Proc → Bool} : Lasting P w (w.retain keep) := by
  rintro g - ⟨q, hq, rfl⟩
  exact ⟨q, (List.mem_filter.mp hq).1, rfl⟩

theorem waitpid_lasting {target : Int} {hang : Bool} {x : WaitStatus} :
    Lasting P w (w.waitpid target hang x).2 := by
  unfold Kernel.waitpid
  split
  · exact retain_lasting
  · split
    · split
      · exact retain_lasting
      · exact .refl
    · exact .refl

theorem kill_lasting {target : Int} {signal : Signal} {denied : List Int} :
    Lasting P w (w.kill target signal denied).2 := by
  unfold Kernel.kill
  split
  · split
    · cases signal with
      | probe => exact .refl
      | term | kill => exact mark_lasting
    · exact .refl
  · exact .refl

/-- A call makes no instance of `P`, if it is no `fork`. -/
theorem answer_lasting (ho : o ≠ .fork) (hc : Unrepeated P used w o c) :
    Lasting P w (answer c o w).2 := by
  refine (along_lasting hc.1).trans ?_
  cases o with
  | fork => exact absurd rfl ho
  | pipe | cloexec =>
      simp only [answer, perform]
      split <;> exact .refl
  | report | startToken id | turns timeout => exact .refl
  | setpgid pid =>
      simp only [answer, perform, Kernel.setpgid]
      split
      · split
        · exact change_lasting _
        · exact .refl
      · exact .refl
  | waitpid target hang =>
      cases hang with
      | true => exact waitpid_lasting
      | false =>
          simp only [answer, perform]
          split
          · exact .refl
          · exact waitpid_lasting
  | kill target signal => exact kill_lasting

section Uses

theorem Op.Quiet.ne_fork : ∀ o : Op, o.Quiet → o ≠ .fork
  | .pipe, _ | .cloexec, _ | .setpgid _, _ | .report, _ | .waitpid _ _, _ | .startToken _, _
  | .kill _ _, _ | .turns _, _ => fun h => (by cases h)

theorem signalGroup_lasts (id : Int) (signal : Signal) (name : String) :
    Uses (· ≠ Op.fork) (signalGroup id signal name).run := by
  refine Uses.seq (Uses.ask fun h => by cases h) fun sent => ?_
  match sent with
  | .ok _ | .error .esrch | .error .eperm | .error (.other _) => trivial

theorem stop_lasts : Uses (· ≠ Op.fork) (stop handle timeout).run := by
  have hstatus : Uses (· ≠ Op.fork) (status handle).run := status_quiet.mono Op.Quiet.ne_fork
  refine Uses.seq Uses.require fun _ => Uses.load_seq fun m => Uses.seq hstatus fun current => ?_
  refine Uses.ite (fun _ => trivial) fun _ => Uses.seq (signalGroup_lasts _ _ _) fun _ => ?_
  refine Uses.seq (Uses.ask fun h => by cases h) fun turns => ?_
  refine Uses.seq (poll_uses hstatus turns) fun ended => Uses.ite (fun _ => trivial) fun _ => ?_
  refine Uses.seq (signalGroup_lasts _ _ _) fun _ => ?_
  refine Uses.ite (fun _ => settle_quiet.mono Op.Quiet.ne_fork) fun _ => ?_
  exact Uses.seq ((reap_quiet _).mono Op.Quiet.ne_fork) fun _ => trivial

theorem adopt_quiet : Uses Op.Quiet (adopt handle).run := by
  refine Uses.seq Uses.require fun _ => Uses.seq Uses.require fun _ => ?_
  refine Uses.seq (Uses.orFail (Uses.ask trivial)) fun token => Uses.seq Uses.require fun _ => ?_
  refine Uses.seq (Uses.ask rfl) fun asked => ?_
  match asked with
  | .ok _ | .error .eperm => exact fun _ => trivial
  | .error .esrch | .error (.other _) => trivial

/-- A program without `fork` makes no instance of `P`, wherever it is. -/
theorem wp_lasting {α : Type} {p : Program posix Supervisor α} (hp : Uses (· ≠ Op.fork) p) :
    wp answer (Unrepeated P used) (fun _ w' _ => Lasting P w w') p
      (fun _ _ w' => Lasting P w w') m w :=
  wp_of_uses (fun _ _ _ ho hc h => h.trans (answer_lasting ho hc)) (fun _ _ _ _ h => h) hp .refl

theorem exec_lasting {α : Type} {p : Program posix Supervisor α}
    {out : Outcome posix Supervisor α} (hp : Uses (· ≠ Op.fork) p)
    (he : Exec answer (Unrepeated P used) p m w out w') : Lasting P w w' := by
  have hmeets := wp_sound he (wp_lasting hp)
  cases out with
  | done a m' => exact hmeets
  | before m' o => exact hmeets

end Uses

/-! ## Looking -/

/-- What was seen to end is not there. -/
def Sure (handle : ProcessHandle) (t : BitVec 64) (m : Supervisor) (w : Kernel) : Prop :=
  ∀ s, m.finished handle.id = some s → ¬ Here ⟨handle.id, t⟩ w

theorem Sure.open (h : m.finished handle.id = none) : Sure handle t m w := fun s hs => by
  rw [h] at hs
  cases hs

theorem Sure.lasts (h : Sure handle t m w) (hP : P ⟨handle.id, t⟩) (hw : Lasting P w w') :
    Sure handle t m w' := fun s hs hhere => h s hs (hw _ hP hhere)

/-- What a look says is dead is not there. -/
def Judged (handle : ProcessHandle) (t : BitVec 64) (res : Except String ProcessStatus)
    (m' : Supervisor) (w' : Kernel) : Prop :=
  Sure handle t m' w' ∧
    ∀ s, res = .ok s → s.state ≠ .running → ¬ Here ⟨handle.id, t⟩ w'

theorem Judged.failed {e : String} (h : Sure handle t m w) : Judged handle t (.error e) m w :=
  ⟨h, fun _ hs => by cases hs⟩

theorem Judged.runs (h : Sure handle t m w) : Judged handle t (.ok running) m w :=
  ⟨h, fun _ hs hstate => by cases hs; exact absurd rfl hstate⟩

theorem Judged.dead {res : Except String ProcessStatus} (h : ¬ Here ⟨handle.id, t⟩ w) :
    Judged handle t res m w := ⟨fun _ _ => h, fun _ _ _ => h⟩

theorem not_here_retain : ¬ Here ⟨handle.id, t⟩ (w.retain fun q => q.pid ≠ handle.id) := by
  rintro ⟨q, hq, hhandle⟩
  exact of_decide_eq_true (List.mem_filter.mp hq).2 (congrArg ProcessHandle.id hhandle)

/-- Nobody has the pid that a signal did not find. -/
theorem kill_esrch {signal : Signal} (hid : 0 < handle.id)
    (h : (answer c (.kill handle.id signal) w).1 = .error .esrch) :
    ¬ Here ⟨handle.id, t⟩ (answer c (.kill handle.id signal) w).2 := by
  simp only [answer, perform, Kernel.kill] at h ⊢
  split at h
  · split at h <;> cases h
  · rename_i hnone
    rw [if_neg hnone]
    rintro ⟨q, hq, hhandle⟩
    refine hnone (List.any_eq_true.mpr ⟨q, hq, ?_⟩)
    have hpid : q.pid = handle.id := congrArg ProcessHandle.id hhandle
    simp [Kernel.aims, hid, hpid]

theorem kill_error {target : Int} {signal : Signal} {e : Errno}
    (h : (answer c (.kill target signal) w).1 = .error e) : e = .esrch ∨ e = .eperm := by
  simp only [answer, perform, Kernel.kill] at h
  split at h
  · split at h <;> cases h
    exact Or.inr rfl
  · cases h
    exact Or.inl rfl

theorem gone_judged (h : ¬ Here ⟨handle.id, t⟩ w) :
    wp answer Freely Anywhere (gone handle.id).run (Judged handle t) m w := by
  unfold gone
  exact wp_load_seq.mpr (wp_store_seq.mpr (.dead h))

theorem compareToken_judged (hp : 0 < handle.id) (hid : pidT handle.id = handle.id)
    (hm : m.finished handle.id = none) (htoken : handle.startToken = t) :
    wp answer Freely Anywhere (compareToken handle).run (Judged handle t) m w := by
  unfold compareToken
  refine wp_seq.mpr (wp_ask.mpr ⟨trivial, fun c _ => ?_⟩)
  cases hresult : (answer c (.startToken handle.id) w).1 with
  | ok token =>
      dsimp only [andThen]
      split
      · exact .runs (.open hm)
      · rename_i hother
        refine gone_judged fun hhere => hother ?_
        -- the pid is somebody's, and nobody else's
        obtain ⟨q, hq, hhandle⟩ := startToken_ok hresult
        have hsame := hhere.owns.here q hq (congrArg ProcessHandle.id hhandle)
        rw [hhandle] at hsame
        exact (congrArg ProcessHandle.startToken hsame).trans htoken.symm
  | error why =>
      refine wp_seq.mpr (wp_ask.mpr ⟨trivial, fun c₂ _ => ?_⟩)
      rw [hid]
      cases hasked : (answer c₂ (.kill handle.id .probe) (answer c (.startToken handle.id) w).2).1 with
      | ok _ => exact .failed (.open hm)
      | error e =>
          rcases kill_error hasked with rfl | rfl
          · exact gone_judged (kill_esrch hp hasked)
          · exact .failed (.open hm)

theorem adoptedStatus_judged (hp : 0 < handle.id) (hid : pidT handle.id = handle.id)
    (hm : m.finished handle.id = none) (htoken : handle.startToken = t) :
    wp answer Freely Anywhere (adoptedStatus handle).run (Judged handle t) m w := by
  unfold adoptedStatus
  refine wp_seq.mpr (wp_ask.mpr ⟨trivial, fun c _ => ?_⟩)
  rw [hid, answer_waitpid]
  cases c.fault with
  | some why => exact .failed (.open hm)
  | none =>
  have hwait := waitpid_waitsFor (w := c.happenings.foldl Kernel.happen w) hp false c.status
  revert hwait
  generalize (c.happenings.foldl Kernel.happen w).waitpid handle.id false c.status = r
  obtain ⟨waited, w'⟩ := r
  intro hwait
  cases hwait with
  | ended _ _ _ => exact .dead not_here_retain
  | still _ _ _ _ => exact .runs (.open hm)
  | noChild _ =>
      refine wp_seq.mpr (wp_ask.mpr ⟨trivial, fun c₂ _ => ?_⟩)
      cases hasked : (answer c₂ (.kill handle.id .probe) (c.happenings.foldl Kernel.happen w)).1 with
      | ok _ => exact compareToken_judged hp hid hm htoken
      | error e =>
          rcases kill_error hasked with rfl | rfl
          · exact gone_judged (kill_esrch hp hasked)
          · exact compareToken_judged hp hid hm htoken

theorem childStatus_judged (hp : 0 < handle.id) (hid : pidT handle.id = handle.id)
    (hm : m.finished handle.id = none) (hkin : ⟨handle.id, t⟩ ∈ w.children) :
    wp answer Freely Anywhere (childStatus handle).run (Judged handle t) m w := by
  unfold childStatus
  refine wp_seq.mpr (wp_ask.mpr ⟨trivial, fun c _ => ?_⟩)
  rw [hid, answer_waitpid]
  cases c.fault with
  | some why => exact .failed (.open hm)
  | none =>
  have hkin' : ⟨handle.id, t⟩ ∈ (c.happenings.foldl Kernel.happen w).children :=
    along_children.mpr hkin
  have hwait := waitpid_waitsFor (w := c.happenings.foldl Kernel.happen w) hp false c.status
  revert hwait
  generalize (c.happenings.foldl Kernel.happen w).waitpid handle.id false c.status = r
  obtain ⟨waited, w'⟩ := r
  intro hwait
  cases hwait with
  | ended _ _ _ => exact .dead not_here_retain
  | still _ _ _ _ => exact .runs (.open hm)
  | noChild hno => exact absurd rfl (hno ⟨handle.id, t⟩ hkin')

theorem status_judged (hp : 0 < handle.id) (hid : pidT handle.id = handle.id)
    (h : Kept handle t m₀ w₀ m w) (hs : Sure handle t m w) :
    wp answer Freely Anywhere (status handle).run (Judged handle t) m w := by
  cases hm : m.finished handle.id with
  | some s => exact (wp_status_finished hp hm).mpr (.dead (hs s hm))
  | none =>
      cases ha : m.adopted handle.id with
      | true =>
          refine (wp_status_adopted hp hm ha).mpr (adoptedStatus_judged hp hid hm ?_)
          cases h.tracked with
          | finished hm' => rw [hm] at hm'; cases hm'
          | adopted _ _ htoken _ => exact htoken
          | child _ ha' _ => rw [ha] at ha'; cases ha'
      | false =>
          refine (wp_status_child hp hm ha).mpr (childStatus_judged hp hid hm ?_)
          cases h.tracked with
          | finished hm' => rw [hm] at hm'; cases hm'
          | adopted _ ha' _ _ => rw [ha] at ha'; cases ha'
          | child _ _ hkin => exact hkin

/-! ## Stopping -/

/-- A wait until the end: it is told once the instance is not there. -/
theorem poll_judged {look : Step ProcessStatus} (hm : m.finished handle.id = none)
    (hlook : ∀ w, Kept handle t m₀ w₀ m w →
      wp answer Freely Anywhere look.run (Looked handle t m₀ w₀ m) m w)
    (htrue : ∀ w, Kept handle t m₀ w₀ m w →
      wp answer Freely Anywhere look.run (Judged handle t) m w)
    (turns : Nat) (h : Kept handle t m₀ w₀ m w) :
    wp answer Freely Anywhere (poll look turns).run
      (fun res m' w' => Sure handle t m' w' ∧ (res = .ok true → ¬ Here ⟨handle.id, t⟩ w')) m w := by
  induction turns generalizing w with
  | zero => exact ⟨.open hm, fun hres => by cases hres⟩
  | succ n ih =>
      refine wp_seq_of (wp_both (hlook w h) (htrue w h)) ?_ ?_
      · rintro polled m₁ w₁ ⟨⟨h₁, hrun⟩, hsure, hdead⟩
        split
        · rename_i hstate
          exact ⟨hsure, fun _ => hdead polled rfl hstate⟩
        · rename_i hstate
          obtain ⟨rfl, _, _⟩ := hrun polled rfl (not_not.mp hstate)
          exact ih h₁
      · rintro e m₁ w₁ ⟨_, hsure, _⟩
        exact ⟨hsure, fun hres => by cases hres⟩

/-- What `stop` says of the instance. -/
def Stopped (handle : ProcessHandle) (t : BitVec 64) (res : Except String Unit) (m' : Supervisor)
    (w' : Kernel) : Prop :=
  Sure handle t m' w' ∧ (res = .ok () → ¬ Here ⟨handle.id, t⟩ w')

theorem settle_true (hp : 0 < handle.id) (hid : pidT handle.id = handle.id)
    (h : Kept handle t m₀ w₀ m w) (hm : m.finished handle.id = none)
    (ha : m.adopted handle.id = true) :
    wp answer Freely Anywhere (settle handle timeout).run (Stopped handle t) m w := by
  have htoken : handle.startToken = t := by
    cases h.tracked with
    | finished hm' => rw [hm] at hm'; cases hm'
    | adopted _ _ htoken _ => exact htoken
    | child _ ha' _ => rw [ha] at ha'; cases ha'
  unfold settle
  refine wp_seq.mpr (wp_ask.mpr ⟨trivial, fun c _ => ?_⟩)
  have h₁ := h.called (o := .turns timeout) trivial c
  refine wp_seq_of (poll_judged hm (fun w hw => adoptedStatus_looked hp hid hw hm ha)
    (fun w _ => adoptedStatus_judged hp hid hm htoken) _ h₁) ?_ ?_
  · rintro ended m₂ w₂ ⟨hsure, hdead⟩
    refine wp_require.mpr ?_
    split
    · rename_i hended
      exact ⟨hsure, fun _ => hdead (by rw [hended])⟩
    · exact ⟨hsure, fun hres => by cases hres⟩
  · rintro e m₂ w₂ ⟨hsure, _⟩
    exact ⟨hsure, fun hres => by cases hres⟩

/-- A child is waited for until it is gone. -/
theorem reap_true (hp : 0 < handle.id) (hid : pidT handle.id = handle.id)
    (hkin : ⟨handle.id, t⟩ ∈ w.children) :
    wp answer Freely Anywhere (reap handle.id).run
      (fun _ _ w' => ¬ Here ⟨handle.id, t⟩ w') m w := by
  unfold reap
  refine wp_seq.mpr (wp_ask.mpr ⟨trivial, fun c _ => ?_⟩)
  rw [hid]
  have hkin' : ⟨handle.id, t⟩ ∈ (c.happenings.foldl Kernel.happen w).children :=
    along_children.mpr hkin
  have hanswer : answer c (.waitpid handle.id true) w =
      (c.happenings.foldl Kernel.happen w).waitpid handle.id true c.status := rfl
  rw [hanswer]
  have hwait := waitpid_waitsFor (w := c.happenings.foldl Kernel.happen w) hp true c.status
  revert hwait
  generalize (c.happenings.foldl Kernel.happen w).waitpid handle.id true c.status = r
  obtain ⟨waited, w'⟩ := r
  intro hwait
  cases hwait with
  | ended _ _ _ => exact not_here_retain
  | still _ _ _ hno => cases hno
  | noChild hno => exact absurd rfl (hno ⟨handle.id, t⟩ hkin')

/-- `stop` succeeds only once the instance is not there. -/
theorem stop_true (hp : 0 < handle.id) (hid : pidT handle.id = handle.id)
    (h : Kept handle t m₀ w₀ m w) (hs : Sure handle t m w) :
    wp answer Freely Anywhere (stop handle timeout).run (Stopped handle t) m w := by
  unfold stop
  refine wp_require_seq.mpr ?_
  rw [if_pos (decide_eq_true hp)]
  refine wp_load_seq.mpr ?_
  have hfailed : ∀ {e : String} {m' : Supervisor} {w' : Kernel}, Sure handle t m' w' →
      Stopped handle t (.error e) m' w' := fun hsure => ⟨hsure, fun hres => by cases hres⟩
  refine wp_seq_of (wp_both (status_looked hp hid h) (status_judged hp hid h hs)) ?_ ?_
  · rintro current m₁ w₁ ⟨⟨h₁, hrun⟩, hsure, hdead⟩
    split
    · rename_i hstate
      exact ⟨hsure, fun _ => hdead current rfl hstate⟩
    rename_i hstate
    obtain ⟨rfl, hm, _⟩ := hrun current rfl (not_not.mp hstate)
    refine wp_seq_of (signalGroup_kept h₁ handle.id .term "SIGTERM") ?_ ?_
    · rintro _ m₂ w₂ ⟨h₂, rfl⟩
      refine wp_seq.mpr (wp_ask.mpr ⟨trivial, fun c _ => ?_⟩)
      have h₃ := h₂.called (o := .turns timeout) trivial c
      have hpoll := poll_kept (fun w hw => status_looked hp hid hw)
        (answer c (.turns timeout) w₂).1 h₃
      have hjudged := poll_judged hm (fun w hw => status_looked hp hid hw)
        (fun w hw => status_judged hp hid hw (.open hm)) (answer c (.turns timeout) w₂).1 h₃
      refine wp_seq_of (wp_both hpoll hjudged) ?_ ?_
      · rintro ended m₄ w₄ ⟨⟨h₄, hsame⟩, hsure₄, hdead₄⟩
        cases ended with
        | true => exact ⟨hsure₄, fun _ => hdead₄ rfl⟩
        | false =>
            cases hsame rfl
            refine wp_seq_of (signalGroup_kept h₄ handle.id .kill "SIGKILL") ?_ ?_
            · rintro _ m₅ w₅ ⟨h₅, rfl⟩
              split
              · rename_i ha
                exact settle_true hp hid h₅ hm ha
              · rename_i ha
                have hkin : ⟨handle.id, t⟩ ∈ w₅.children := by
                  cases h₅.tracked with
                  | finished hm' => rw [hm] at hm'; cases hm'
                  | adopted _ ha' _ _ => exact absurd ha' ha
                  | child _ _ hkin => exact hkin
                refine wp_seq_of (reap_true hp hid hkin) ?_ ?_
                · exact fun _ _ _ hgone => ⟨fun _ _ => hgone, fun _ => hgone⟩
                · exact fun _ _ _ hgone => ⟨fun _ _ => hgone, fun _ => hgone⟩
            · rintro e m₅ w₅ ⟨_, rfl⟩
              exact hfailed (.open hm)
      · rintro e m₄ w₄ ⟨_, hsure₄, _⟩
        exact hfailed hsure₄
    · rintro e m₂ w₂ ⟨_, rfl⟩
      exact hfailed (.open hm)
  · rintro e m₁ w₁ ⟨_, hsure, _⟩
    exact hfailed hsure

/-! ## Starting -/

/-- One more instance was made, with a pid that none in `P` has. -/
structure Born (P : ProcessHandle → Prop) (used : List ProcessHandle) (i : ProcessHandle)
    (w w' : Kernel) : Prop where
  made : Made i.id i.startToken w w'
  mine : P i
  unused : i ∉ used
  others : ∀ g, P g → Here g w' → g = i ∨ Here g w ∧ g.id ≠ i.id

theorem Born.along {i : ProcessHandle} {w₁ : Kernel} (h : Born P used i w w₁)
    (hw : ∀ g, g ∈ w'.children ↔ g ∈ w₁.children) (hl : Lasting P w₁ w') : Born P used i w w' where
  made := h.made.along hw
  mine := h.mine
  unused := h.unused
  others g hg hhere := h.others g hg (hl g hg hhere)

/-- Where `start` is killed: it has made no instance, or one. -/
def Underway (P : ProcessHandle → Prop) (used : List ProcessHandle) (w w' : Kernel) : Prop :=
  (∀ g, g ∈ w'.children ↔ g ∈ w.children) ∧ Lasting P w w' ∨ ∃ i, Born P used i w w'

/-- `start` returns the handle of one more instance, or none was made that is
still there.  A token that could not be read is 0. -/
inductive Launched (P : ProcessHandle → Prop) (used : List ProcessHandle) (m : Supervisor)
    (w : Kernel) : Except String ProcessHandle → Supervisor → Kernel → Prop
  | made {h i : ProcessHandle} {w' : Kernel} : Born P used i w w' → h.id = i.id →
      h.startToken = i.startToken ∨ h.startToken = 0 →
      Launched P used m w (.ok h) (m.forget h.id) w'
  | failed {why : String} {w' : Kernel} : (∀ g, g ∈ w'.children ↔ g ∈ w.children) →
      Lasting P w w' → Launched P used m w (.error why) m w'

theorem fork_born {child : Int} (hc : Unrepeated P used w .fork c)
    (h : (answer c .fork w).1 = .ok child) :
    ∃ i : ProcessHandle, i.id = child ∧ Born P used i w (answer c .fork w).2 := by
  have hlast : Lasting P w (c.happenings.foldl Kernel.happen w) := along_lasting hc.1
  have hsame : ∀ g, g ∈ (c.happenings.foldl Kernel.happen w).children ↔ g ∈ w.children :=
    fun _ => along_children
  obtain ⟨hmine, hunused⟩ := hc.2 rfl
  simp only [answer, perform] at h ⊢
  split at h
  · cases h
  · split at h
    · rename_i hfresh
      cases h
      rw [dif_pos hfresh]
      refine ⟨c.newcomer.handle, rfl, ⟨⟨hfresh.above, hfresh.below⟩, ?_, ?_⟩, hmine, hunused, ?_⟩
      · intro g hg hid
        obtain ⟨q, hq, _, rfl⟩ := Kernel.mem_children.mp ((hsame g).mpr hg)
        exact hfresh.pid (List.mem_map.mpr ⟨q, hq, hid⟩)
      · intro g
        exact (add_children hfresh rfl).trans (or_congr Iff.rfl (hsame g))
      · rintro g hg ⟨q, hq, rfl⟩
        rcases List.mem_cons.mp hq with rfl | hq
        · exact Or.inl rfl
        · exact Or.inr ⟨hlast _ hg ⟨q, hq, rfl⟩, fun hid =>
            hfresh.pid (List.mem_map.mpr ⟨q, hq, hid⟩)⟩
    · cases h

theorem fork_lasting {why : String} (hc : Unrepeated P used w .fork c)
    (h : (answer c .fork w).1 = .error why) : Lasting P w (answer c .fork w).2 := by
  refine (along_lasting hc.1).trans ?_
  simp only [answer, perform] at h ⊢
  split at h
  · exact .refl
  · split at h
    · cases h
    · rename_i hfresh
      rw [dif_neg hfresh]
      exact .refl

/-- The token of a child that is there can be read, or cannot. -/
theorem Born.token {i : ProcessHandle} {w₁ : Kernel} (h : Born P used i w w₁) (c : Choice)
    {token : BitVec 64} (ht : (answer c (.startToken i.id) w₁).1 = .ok token) :
    token = i.startToken := by
  have hkin : i ∈ (answer c (.startToken i.id) w₁).2.children :=
    (barren_children (o := .startToken i.id) trivial).mpr ((h.made.child i).mpr (Or.inl rfl))
  exact (congrArg ProcessHandle.startToken ((startToken_ok ht).child hkin rfl)).symm

/-- The child that could not run the executable is waited for. -/
theorem Born.reaped {i : ProcessHandle} {w₁ : Kernel} (h : Born P used i w w₁)
    (hc : Unrepeated P used w₁ (.waitpid i.id true) c) :
    (∀ g, g ∈ (answer c (.waitpid i.id true) w₁).2.children ↔ g ∈ w.children) ∧
      Lasting P w (answer c (.waitpid i.id true) w₁).2 := by
  refine ⟨start_began.reaped h.made c, ?_⟩
  have h₂ := h.along (fun g => along_children (l := c.happenings)) (along_lasting hc.1)
  have hwait := waitpid_waitsFor (w := c.happenings.foldl Kernel.happen w₁)
    (Int.lt_trans (by decide) h.made.pid.1) true c.status
  have hanswer : answer c (.waitpid i.id true) w₁ =
      (c.happenings.foldl Kernel.happen w₁).waitpid i.id true c.status := rfl
  rw [hanswer]
  revert hwait h₂
  generalize c.happenings.foldl Kernel.happen w₁ = w₂
  generalize w₂.waitpid i.id true c.status = r
  obtain ⟨waited, w₃⟩ := r
  intro h₂ hwait
  cases hwait with
  | ended _ _ _ =>
      intro g hg hhere
      rcases h₂.others g hg (retain_lasting g hg hhere) with rfl | ⟨hold, _⟩
      · exact absurd hhere not_here_retain
      · exact hold
  | still _ _ _ hno => cases hno
  | noChild hno => exact absurd rfl (hno i ((h₂.made.child i).mpr (Or.inl rfl)))

theorem start_launched {options : ProcessStartOptions} :
    wp answer (Unrepeated P used) (fun _ w' _ => Underway P used w w') (start options).run
      (Launched P used m w) m w := by
  have hnone : Underway P used w w := Or.inl ⟨fun _ => Iff.rfl, .refl⟩
  unfold start
  refine wp_require_seq.mpr ?_
  split
  case isFalse => exact .failed (fun _ => Iff.rfl) .refl
  refine wp_seq.mpr (wp_orFail.mpr (wp_ask.mpr ⟨hnone, fun c₁ hc₁ => ?_⟩))
  have h₁ : ∀ g, g ∈ (answer c₁ .pipe w).2.children ↔ g ∈ w.children :=
    fun _ => barren_children (o := .pipe) trivial
  have l₁ : Lasting P w (answer c₁ .pipe w).2 := answer_lasting (fun h => by cases h) hc₁
  cases (answer c₁ .pipe w).1 with
  | error why => exact .failed h₁ l₁
  | ok _ =>
  generalize (answer c₁ .pipe w).2 = w₁ at h₁ l₁ ⊢
  refine wp_seq.mpr (wp_orFail.mpr (wp_ask.mpr ⟨Or.inl ⟨h₁, l₁⟩, fun c₂ hc₂ => ?_⟩))
  have h₂ : ∀ g, g ∈ (answer c₂ .cloexec w₁).2.children ↔ g ∈ w.children :=
    fun g => (barren_children (o := .cloexec) trivial).trans (h₁ g)
  have l₂ : Lasting P w (answer c₂ .cloexec w₁).2 :=
    l₁.trans (answer_lasting (fun h => by cases h) hc₂)
  cases (answer c₂ .cloexec w₁).1 with
  | error why => exact .failed h₂ l₂
  | ok _ =>
  generalize (answer c₂ .cloexec w₁).2 = w₂ at h₂ l₂ ⊢
  refine wp_seq.mpr (wp_orFail.mpr (wp_ask.mpr ⟨Or.inl ⟨h₂, l₂⟩, fun c₃ hc₃ => ?_⟩))
  cases hfork : (answer c₃ .fork w₂).1 with
  | error why =>
      exact .failed (fun g => (fork_failed hfork).trans (h₂ g)) (l₂.trans (fork_lasting hc₃ hfork))
  | ok child =>
  obtain ⟨i, rfl, hborn⟩ := fork_born hc₃ hfork
  replace hborn : Born P used i w (answer c₃ .fork w₂).2 :=
    ⟨⟨hborn.made.pid, fun g hg => hborn.made.fresh g ((h₂ g).mpr hg),
      fun g => (hborn.made.child g).trans (or_congr Iff.rfl (h₂ g))⟩, hborn.mine, hborn.unused,
      fun g hg hhere => (hborn.others g hg hhere).imp id fun ho => ⟨l₂ g hg ho.1, ho.2⟩⟩
  generalize (answer c₃ .fork w₂).2 = w₃ at hborn ⊢
  refine wp_seq.mpr (wp_ask.mpr ⟨Or.inr ⟨i, hborn⟩, fun c₄ hc₄ => ?_⟩)
  have h₄ : Born P used i w (answer c₄ (.setpgid i.id) w₃).2 :=
    hborn.along (fun _ => barren_children (o := .setpgid i.id) trivial)
      (answer_lasting (fun h => by cases h) hc₄)
  generalize (answer c₄ (.setpgid i.id) w₃).2 = w₄ at h₄ ⊢
  refine wp_seq.mpr (wp_ask.mpr ⟨Or.inr ⟨i, h₄⟩, fun c₅ hc₅ => ?_⟩)
  have h₅ : Born P used i w (answer c₅ .report w₄).2 :=
    h₄.along (fun _ => barren_children (o := .report) trivial)
      (answer_lasting (fun h => by cases h) hc₅)
  generalize (answer c₅ .report w₄).2 = w₅ at h₅ ⊢
  cases (answer c₅ .report w₄).1 with
  | some reason =>
      refine wp_seq.mpr (wp_ask.mpr ⟨Or.inr ⟨i, h₅⟩, fun c₆ hc₆ => ?_⟩)
      obtain ⟨hkin, hlast⟩ := h₅.reaped hc₆
      exact .failed hkin hlast
  | none =>
      refine wp_seq.mpr (wp_ask.mpr ⟨Or.inr ⟨i, h₅⟩, fun c₆ hc₆ => ?_⟩)
      refine .made (h₅.along (fun _ => barren_children (o := .startToken i.id) trivial)
        (answer_lasting (fun h => by cases h) hc₆)) rfl ?_
      cases htoken : (answer c₆ (.startToken i.id) w₅).1 with
      | ok token => exact Or.inl (h₅.token c₆ htoken)
      | error why => exact Or.inr rfl

/-! ## Adopting -/

/-- `adopt` takes over an instance that was there. -/
theorem adopt_true (hP : handle.startToken ≠ 0 → P handle) :
    wp answer (Unrepeated P used) Anywhere (adopt handle).run
      (fun res _ _ => ∀ h, res = .ok h → h = handle ∧ handle.startToken ≠ 0 ∧ Here handle w)
      m w := by
  unfold adopt
  refine wp_require_seq.mpr ?_
  split
  case isFalse => exact fun h hres => by cases hres
  refine wp_require_seq.mpr ?_
  split
  case isFalse => exact fun h hres => by cases hres
  rename_i hne
  replace hne := of_decide_eq_true hne
  refine wp_seq.mpr (wp_orFail.mpr (wp_ask.mpr ⟨trivial, fun c₁ hc₁ => ?_⟩))
  cases htoken : (answer c₁ (.startToken handle.id) w).1 with
  | error why => exact fun h hres => by cases hres
  | ok token =>
  have hthere : Here ⟨handle.id, token⟩ (answer c₁ (.startToken handle.id) w).2 :=
    startToken_ok htoken
  have hlast : Lasting P w (answer c₁ (.startToken handle.id) w).2 :=
    answer_lasting (fun h => by cases h) hc₁
  refine wp_require_seq.mpr ?_
  split
  case isFalse => exact fun h hres => by cases hres
  rename_i hsame
  cases of_decide_eq_true hsame
  have hhere : Here handle w := hlast handle (hP hne) hthere
  have htaken : ∀ h, (.ok handle : Except String ProcessHandle) = .ok h →
      h = handle ∧ handle.startToken ≠ 0 ∧ Here handle w := by
    rintro h ⟨⟩
    exact ⟨rfl, hne, hhere⟩
  refine wp_seq.mpr (wp_ask.mpr ⟨trivial, fun c₂ _ => ?_⟩)
  cases (answer c₂ (.kill (pidT handle.id) .probe) _).1 with
  | ok _ => exact htaken
  | error errno =>
      cases errno with
      | eperm => exact htaken
      | esrch | other why => exact fun h hres => by cases hres

end Posix

end Yirang
