/-
# `Yirang.Process.Group` — a group while it is stopped

`stop` signals the whole group of a process, and looks at the leader alone.
What it can leave depends on what is known of the group all the while.

    Tempered    the processes of the group end by themselves, if they may,
                or once they were told to, if they obey, at any time
    Dead        nobody of the group is alive
    Watch       an invariant of the group under all that
    Telling     where it holds, the end of the leader is the end of the group
    stop_watch  `stop` with such an invariant leaves nobody
-/
import Yirang.Process.Supervisor

namespace Yirang

open Effect

namespace Posix

variable {p : Int} {w w' : Kernel} {m m' : Supervisor} {e : Happening} {q q' x : Proc}
  {handle : ProcessHandle} {timeout : Int} {I : Kernel → Prop}

/-! ## The group -/

/-- What may happen to the group `p`: a process ends by itself or because it
was told to, nobody leaves it, and nobody joins. -/
def Due (p : Int) (w : Kernel) : Happening → Prop
  | .exits pid _ => ∀ q ∈ w.procs, q.pid = pid → q.leader.id = p → q.ended = none →
      q.ends = true ∨ (q.obeys = true ∧ q.told = true)
  | .vanishes _ => True
  | .born q => q.leader.id ≠ p
  | .joins pid g => g.id ≠ p ∧ ∀ q ∈ w.procs, q.pid = pid → q.leader.id ≠ p

instance Due.decide : Decidable (Due p w e) :=
  match e with
  | .exits pid _ =>
      inferInstanceAs (Decidable (∀ q ∈ w.procs, q.pid = pid → q.leader.id = p → q.ended = none →
        q.ends = true ∨ (q.obeys = true ∧ q.told = true)))
  | .vanishes _ => .isTrue trivial
  | .born q => inferInstanceAs (Decidable (q.leader.id ≠ p))
  | .joins pid g =>
      inferInstanceAs (Decidable (g.id ≠ p ∧ ∀ q ∈ w.procs, q.pid = pid → q.leader.id ≠ p))

def Tempered (p : Int) (w : Kernel) (_ : Op) (c : Choice) : Prop :=
  Along (Due p) w c.happenings ∧ c.denied = []

instance Tempered.decide {o : Op} {c : Choice} : Decidable (Tempered p w o c) :=
  inferInstanceAs (Decidable (Along (Due p) w c.happenings ∧ c.denied = []))

def Dead (p : Int) (w : Kernel) : Prop := ∀ q ∈ w.procs, q.leader.id = p → q.ended.isSome

/-- Nobody of the group is alive but the leader. -/
def Alone (p : Int) (w : Kernel) : Prop :=
  ∀ q ∈ w.procs, q.leader.id = p → q.ended = none → q.pid = p

/-- The leader is in the table, alive or not. -/
def Present (p : Int) (w : Kernel) : Prop :=
  ∃ x ∈ w.procs, x.pid = p ∧ x.child = true ∧ x.leader.id = p

theorem Due.leader (h : Due p w e) (hb : Became e q q') (hq : q ∈ w.procs) :
    q'.leader.id = p ↔ q.leader.id = p := by
  rcases hb.leader with hsame | rfl
  · rw [hsame]
  · exact ⟨fun h' => absurd h' h.1, fun h' => absurd h' (h.2 q hq rfl)⟩

theorem Dead.due (h : Dead p w) (he : Due p w e) : Dead p (w.happen e) := by
  intro q' hq' hp
  rcases happen_from hq' with ⟨rfl, _, _⟩ | ⟨q, hq, hb⟩
  · exact absurd hp he
  · have hended := h q hq ((he.leader hb hq).mp hp)
    rcases hb.ended with hsame | ⟨hnone, _⟩
    · rw [hsame]
      exact hended
    · rw [hnone] at hended
      cases hended

theorem Alone.due (h : Alone p w) (he : Due p w e) : Alone p (w.happen e) := by
  intro q' hq' hp hnone
  rcases happen_from hq' with ⟨rfl, _, _⟩ | ⟨q, hq, hb⟩
  · exact absurd hp he
  · rw [hb.pid]
    refine h q hq ((he.leader hb hq).mp hp) ?_
    rcases hb.ended with hsame | ⟨hnone', _⟩
    · rw [← hsame, hnone]
    · exact hnone'

theorem Present.due (h : Present p w) (he : Due p w e) : Present p (w.happen e) := by
  obtain ⟨x, hx, hpid, hchild, hleader⟩ := h
  rcases happen_to e hx with ⟨_, hno, _⟩ | ⟨x', hx', hb⟩
  · rw [hchild] at hno
    cases hno
  · exact ⟨x', hx', hb.pid.trans hpid, hb.child.trans hchild, (he.leader hb hx).mpr hleader⟩

/-- The leader lives, and nothing ends it but `SIGKILL`. -/
structure Steady (x : Proc) (w : Kernel) : Prop where
  mem : x ∈ w.procs
  child : x.child = true
  leads : x.leader.id = x.pid
  alive : x.ended = none
  stays : x.ends = false
  deaf : x.obeys = false ∨ x.told = false

theorem Steady.due (h : Steady x w) (he : Due x.pid w e) : Steady x (w.happen e) := by
  suffices hmem : x ∈ (w.happen e).procs from { h with mem := hmem }
  rcases happen_to e h.mem with ⟨_, hno, _⟩ | ⟨x', hx', hb⟩
  · rw [h.child] at hno
    cases hno
  have hended : x'.ended = x.ended := by
    rcases hb.ended with hsame | ⟨_, s, rfl, _⟩
    · exact hsame
    · -- neither by itself nor because it was told
      rcases he x h.mem rfl h.leads h.alive with hends | ⟨hobeys, htold⟩
      · rw [h.stays] at hends
        cases hends
      · rcases h.deaf with hno | hno
        · rw [hno] at hobeys
          cases hobeys
        · rw [hno] at htold
          cases htold
  have hleader : x'.leader = x.leader := by
    rcases hb.leader with hsame | rfl
    · exact hsame
    · exact absurd h.leads (he.2 x h.mem rfl)
  have htoken : x'.token = x.token := congrArg ProcessHandle.startToken hb.handle
  obtain ⟨hobeys, hends, htold⟩ := hb.temper
  have hsame : x' = x := Proc.ext hb.pid htoken hleader hb.child hended hobeys hends htold
  exact hsame ▸ hx'

/-! ## Looking at the leader -/

/-- What is known of the group all the while. -/
structure Watch (p : Int) (I : Kernel → Prop) : Prop where
  due : ∀ w e, I w → Due p w e → I (w.happen e)
  present : ∀ w, I w → Present p w

/-- The end of the leader is the end of the group. -/
def Telling (p : Int) (I : Kernel → Prop) : Prop :=
  ∀ w, I w → (∀ x ∈ w.procs, x.pid = p → x.ended.isSome) → Dead p (w.retain fun q => q.pid ≠ p)

theorem Watch.along {c : Choice} {o : Op} (hI : Watch p I) (h : I w) (hc : Tempered p w o c) :
    I (c.happenings.foldl Kernel.happen w) :=
  Along.invariant hI.due hc.1 h

theorem watch_present : Watch p (Present p) := ⟨fun _ _ h he => h.due he, fun _ h => h⟩

theorem watch_alone : Watch p fun w => Present p w ∧ Alone p w :=
  ⟨fun _ _ h he => ⟨h.1.due he, h.2.due he⟩, fun _ h => h.1⟩

theorem Steady.told (h : Steady x w) {target : Int} (hdeaf : x.obeys = false) :
    Steady { x with told := true }
      (w.deliver .term target fun q => decide (q.leader.id = x.pid)) where
  mem := by
    refine List.mem_map.mpr ⟨x, h.mem, ?_⟩
    rw [if_pos (decide_eq_true h.leads)]
    simp [h.alive]
  child := h.child
  leads := h.leads
  alive := h.alive
  stays := h.stays
  deaf := Or.inl hdeaf

theorem watch_steady : Watch x.pid (Steady x) :=
  ⟨fun _ _ h he => h.due he, fun _ h => ⟨x, h.mem, rfl, h.child, h.leads⟩⟩

theorem telling_alone : Telling p fun w => Present p w ∧ Alone p w := by
  intro w h _ q hq hp
  obtain ⟨hq, hne⟩ := List.mem_filter.mp hq
  cases hended : q.ended with
  | some s => rfl
  | none => exact absurd (h.2 q hq hp hended) (by simpa using hne)

theorem telling_steady : Telling x.pid (Steady x) := by
  intro w h hended
  have hx := hended x h.mem rfl
  rw [h.alive] at hx
  cases hx

/-- One look at the leader of a group of our own. -/
theorem status_watch (hI : Watch p I) (h : I w) (hid : handle.id = p)
    (hm : m.finished p = none ∧ m.adopted p = false) :
    wp answer (Tempered p) Anywhere (status handle).run
      (fun res m' w' => ∀ s, res = .ok s →
        (s.state = .running → m' = m ∧ I w') ∧
        (s.state ≠ .running → ∃ w₁, I w₁ ∧ (∀ x ∈ w₁.procs, x.pid = p → x.ended.isSome) ∧
          w' = w₁.retain fun q => q.pid ≠ p)) m w := by
  obtain ⟨x, hx, hpid, hchild, _⟩ := hI.present w h
  subst hid
  have hpos : 0 < handle.id := hpid ▸ (w.bounded x hx).1
  have hpidT : pidT handle.id = handle.id := hpid ▸ pidT_of_bounded hx
  refine (wp_status_child hpos hm.1 hm.2).mpr ?_
  refine wp_seq.mpr (wp_ask.mpr ⟨trivial, fun c hc => ?_⟩)
  rw [hpidT]
  have hI₁ := hI.along h hc
  obtain ⟨x₁, hx₁, hpid₁, hchild₁, _⟩ := hI.present _ hI₁
  rw [answer_waitpid]
  revert hI₁ hx₁
  generalize c.happenings.foldl Kernel.happen w = w₁
  intro hI₁ hx₁
  cases c.fault with
  | some why => exact fun s hs => by cases hs
  | none =>
      dsimp only
      rw [← hpid₁]
      cases hended : x₁.ended with
      | none =>
          rw [waitpid_alive hx₁ hchild₁ hended]
          intro s hs
          cases hs
          exact ⟨fun _ => ⟨rfl, hI₁⟩, fun hno => absurd rfl hno⟩
      | some status =>
          rw [waitpid_ended hx₁ hchild₁ hended]
          intro s hs
          cases hs
          refine ⟨fun hrun => absurd hrun (toStatus_state status),
            fun _ => ⟨w₁, hI₁, ?_, by rw [hpid₁]⟩⟩
          intro q hq hqp
          rw [Kernel.eq_of_pid hq hx₁ hqp, hended]
          rfl

/-- The loop: as long as it runs, all is as it was, and if it sees the end,
that was the end of the group. -/
theorem poll_watch (hI : Watch p I) (h : I w) (hid : handle.id = p)
    (hm : m.finished p = none ∧ m.adopted p = false) (turns : Nat)
    (htell : turns = 0 ∨ Telling p I) :
    wp answer (Tempered p) Anywhere (poll (status handle) turns).run
      (fun res m' w' => ∀ ended, res = .ok ended →
        if ended then Dead p w' else m' = m ∧ I w') m w := by
  induction turns generalizing w with
  | zero =>
      intro ended hended
      cases hended
      exact ⟨rfl, h⟩
  | succ n ih =>
      have htell := htell.resolve_left (Nat.succ_ne_zero n)
      refine wp_seq_of (status_watch hI h hid hm) ?_ ?_
      · intro polled m₁ w₁ hlook
        obtain ⟨hrun, hend⟩ := hlook polled rfl
        split
        · rename_i hstate
          intro ended hended
          cases hended
          obtain ⟨w₂, hI₂, hleader, rfl⟩ := hend hstate
          exact htell w₂ hI₂ hleader
        · rename_i hstate
          obtain ⟨rfl, hI₁⟩ := hrun (not_not.mp hstate)
          exact ih hI₁ (Or.inr htell)
      · intro e m₁ w₁ _ ended hended
        cases hended

/-! ## Signals to the group -/

theorem kill_present (h : Present p w) (hp : 1 < p) (signal : Signal) :
    w.kill (-p) signal [] =
      (.ok (), w.deliver signal (-p) fun q => decide (q.leader.id = p)) := by
  obtain ⟨x, hx, _, _, hleader⟩ := h
  have hfree : ∀ i : Int, (!List.contains [] i) = true := fun _ => rfl
  have haims : w.aims (-p) = fun q => decide (q.leader.id = p) := funext fun q => aims_group hp
  have hany : (w.procs.any fun q => decide (q.leader.id = p)) = true :=
    List.any_eq_true.mpr ⟨x, hx, by simp [hleader]⟩
  simp only [Kernel.kill, haims, hfree, Bool.and_true, hany, if_true]

/-- The leader gets the signal with its group. -/
theorem Present.deliver (h : Present p w) (signal : Signal) {target : Int} {hit : Proc → Bool} :
    Present p (w.deliver signal target hit) := by
  obtain ⟨x, hx, hpid, hchild, hleader⟩ := h
  cases signal with
  | probe => exact ⟨x, hx, hpid, hchild, hleader⟩
  | term | kill =>
      refine ⟨_, List.mem_map_of_mem hx, ?_⟩
      split <;> exact ⟨hpid, hchild, hleader⟩

theorem dead_killed {target : Int} :
    Dead p (w.deliver .kill target fun q => decide (q.leader.id = p)) := by
  intro q' hq' hp
  obtain ⟨q, hq, rfl⟩ := List.mem_map.mp hq'
  split at hp
  · rename_i hhit
    rw [if_pos hhit]
    cases q.ended <;> rfl
  · rename_i hhit
    exact absurd (decide_eq_true hp) hhit

theorem Alone.told (h : Alone p w) {target : Int} {hit : Proc → Bool} :
    Alone p (w.deliver .term target hit) := by
  intro q' hq' hp hnone
  obtain ⟨q, hq, rfl⟩ := List.mem_map.mp hq'
  split at hnone
  · rename_i hhit
    rw [if_pos hhit] at hp ⊢
    exact h q hq hp (by simpa using hnone)
  · rename_i hhit
    rw [if_neg hhit] at hp ⊢
    exact h q hq hp hnone

theorem signalGroup_watch (hI : Watch p I) (h : I w) (hp : 1 < p) (hid : pidT handle.id = p)
    (signal : Signal) (name : String) :
    wp answer (Tempered p) Anywhere (signalGroup handle.id signal name).run
      (fun res m' w' => res = .ok () ∧ m' = m ∧ ∃ w₁, I w₁ ∧
        w' = w₁.deliver signal (-p) fun q => decide (q.leader.id = p)) m w := by
  unfold signalGroup
  refine wp_seq.mpr (wp_ask.mpr ⟨trivial, fun c hc => ?_⟩)
  rw [hid]
  have hI₁ := hI.along h hc
  have hanswer : answer c (.kill (-p) signal) w =
      (c.happenings.foldl Kernel.happen w).kill (-p) signal c.denied := rfl
  rw [hanswer, hc.2, kill_present (hI.present _ hI₁) hp]
  exact ⟨rfl, rfl, _, hI₁, rfl⟩

/-! ## `stop` -/

theorem waitpid_sub {target : Int} {hang : Bool} {s : WaitStatus}
    (h : q ∈ (w.waitpid target hang s).2.procs) : q ∈ w.procs := by
  unfold Kernel.waitpid at h
  split at h
  · exact (List.mem_filter.mp h).1
  · split at h
    · split at h
      · exact (List.mem_filter.mp h).1
      · exact h
    · exact h

theorem Dead.along {c : Choice} {o : Op} (h : Dead p w) (hc : Tempered p w o c) :
    Dead p (c.happenings.foldl Kernel.happen w) :=
  Along.invariant (fun _ _ h he => Dead.due h he) hc.1 h

theorem reap_dead (h : Dead p w) (id : Int) :
    wp answer (Tempered p) Anywhere (reap id).run (fun _ _ w' => Dead p w') m w := by
  unfold reap
  refine wp_seq.mpr (wp_ask.mpr ⟨trivial, fun c hc => ?_⟩)
  have hdead : Dead p (answer c (.waitpid (pidT id) true) w).2 := fun q hq =>
    h.along hc q (waitpid_sub hq)
  revert hdead
  generalize (answer c (.waitpid (pidT id) true) w).2 = w₁
  intro hdead
  cases (answer c (.waitpid (pidT id) true) w).1 with
  | still | ended s | noChild | failed why => exact hdead

/-- The group is killed, and the leader waited for. -/
theorem killed_dead (hI : Watch p I) (h : I w) (hp : 1 < p) (hid : pidT handle.id = p) :
    wp answer (Tempered p) Anywhere
      (do
        signalGroup handle.id .kill "SIGKILL"
        let _ ← reap handle.id
        pure () : Step Unit).run
      (fun _ _ w' => Dead p w') m w := by
  refine wp_seq_of (signalGroup_watch hI h hp hid .kill "SIGKILL") ?_ ?_
  · rintro _ m₁ w₁ ⟨_, _, w₂, _, rfl⟩
    refine wp_seq_of (reap_dead dead_killed handle.id) ?_ ?_
    · intro _ m₂ w₃ hdead
      exact hdead
    · intro _ m₂ w₃ hdead
      exact hdead
  · rintro e m₁ w₁ ⟨h, _⟩
    cases h

/-- A `stop` with what is known of the group before it was told to end, and
after. -/
theorem stop_watch {I₀ I₁ : Kernel → Prop} (hI₀ : Watch p I₀) (htell₀ : Telling p I₀)
    (hterm : ∀ w, I₀ w → I₁ (w.deliver .term (-p) fun q => decide (q.leader.id = p)))
    (hI₁ : Watch p I₁) (htell₁ : timeout ≤ 0 ∨ Telling p I₁) (h : I₀ w) (hp : 1 < p)
    (hid : handle.id = p) (hm : m.finished p = none ∧ m.adopted p = false) :
    wp answer (Tempered p) Anywhere (stop handle timeout).run
      (fun res _ w' => res = .ok () → Dead p w') m w := by
  obtain ⟨x, hx, hpid, _⟩ := hI₀.present w h
  have hpidT : pidT handle.id = p := by rw [hid, ← hpid, pidT_of_bounded hx]
  have hpos : decide (0 < handle.id) = true := decide_eq_true (by omega)
  unfold stop
  refine wp_require_seq.mpr ?_
  rw [if_pos hpos]
  refine wp_load_seq.mpr ?_
  refine wp_seq_of (status_watch hI₀ h hid hm) ?_ ?_
  · intro current m₁ w₁ hlook
    obtain ⟨hrun, hend⟩ := hlook current rfl
    split
    · rename_i hstate
      intro _
      obtain ⟨w₂, hI₂, hleader, rfl⟩ := hend hstate
      exact htell₀ w₂ hI₂ hleader
    rename_i hstate
    obtain ⟨rfl, hw₁⟩ := hrun (not_not.mp hstate)
    refine wp_seq_of (signalGroup_watch hI₀ hw₁ hp hpidT .term "SIGTERM") ?_ ?_
    · rintro _ m₂ w₂ ⟨_, rfl, w₃, hw₃, rfl⟩
      refine wp_seq.mpr (wp_ask.mpr ⟨trivial, fun c hc => ?_⟩)
      have hw₄ := hI₁.along (hterm w₃ hw₃) hc
      have hturns : (answer c (.turns timeout) (w₃.deliver .term (-p)
          fun q => decide (q.leader.id = p))).1 = if timeout ≤ 0 then 0 else c.count := rfl
      have hzero : (if timeout ≤ 0 then 0 else c.count) = 0 ∨ Telling p I₁ :=
        htell₁.imp_left fun hle => if_pos hle
      rw [hturns]
      refine wp_seq_of (poll_watch hI₁ hw₄ hid hm _ hzero) ?_ ?_
      · intro ended m₃ w₅ hpolled
        have hpolled := hpolled ended rfl
        split
        · rename_i hended
          rw [if_pos hended] at hpolled
          exact fun _ => hpolled
        · rename_i hended
          rw [if_neg hended] at hpolled
          obtain ⟨rfl, hw₅⟩ := hpolled
          rw [hid, hm.2]
          have hforced := killed_dead (m := m₃) hI₁ hw₅ hp hpidT
          rw [hid] at hforced
          exact wp_conseq hforced fun _ _ _ hdead _ => hdead
      · intro e m₃ w₅ _ hok
        cases hok
    · rintro e m₂ w₂ ⟨h, _⟩
      cases h
  · intro e m₁ w₁ _ hok
    cases hok

end Posix

end Yirang
