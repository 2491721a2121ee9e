/-
# `Yirang.Process.Stopping` — what is left of a group after `stop`

    Started     a process that `start` made a leader, and that runs
    Eager       the timing that brings the leader's end forward
    stop_complete_iff   a `stop` that succeeds leaves nobody, however the
                exits fall, exactly if the leader is the last of its group,
                or if it stays until the group is killed
-/
import Yirang.Process.Group

namespace Yirang

open Effect

namespace Posix

variable {p : Int} {w : Kernel} {m : Supervisor} {q x : Proc} {handle : ProcessHandle}
  {timeout : Int}

/-! ## A leader that leaves the others behind -/

/-- The leader ends in front of the first look that finds it free to. -/
def hurry (p : Int) (w : Kernel) : Op → List Happening
  | .waitpid _ _ =>
      if Due p w (.exits p (.exited 0)) then [.exits p (.exited 0)] else []
  | _ => []

/-- Nobody else does anything, and no call fails. -/
def Eager (p : Int) (w : Kernel) (o : Op) (c : Choice) : Prop :=
  c = { happenings := hurry p w o, count := 1 }

theorem exists_eager (w : Kernel) (o : Op) : ∃ c, Eager p w o c := ⟨_, rfl⟩

theorem Eager.tempered {o : Op} {c : Choice} (h : Eager p w o c) : Tempered p w o c := by
  subst h
  refine ⟨?_, rfl⟩
  unfold hurry
  split
  · split
    · rename_i hdue
      exact ⟨hdue, trivial⟩
    · trivial
  · trivial

/-- Somebody else of the group is alive. -/
def Others (p : Int) (w : Kernel) : Prop :=
  ∃ q ∈ w.procs, q.leader.id = p ∧ q.ended = none ∧ q.pid ≠ p

theorem others_of_not_alone (h : ¬ Alone p w) : Others p w := by
  simpa [Alone, Others] using h

theorem Others.not_dead (h : Others p w) : ¬ Dead p w := by
  obtain ⟨q, hq, hleader, hended, _⟩ := h
  intro hdead
  have hdead := hdead q hq hleader
  rw [hended] at hdead
  cases hdead

theorem Others.exits {s : WaitStatus} (h : Others p w) : Others p (w.happen (.exits p s)) := by
  obtain ⟨q, hq, hleader, hended, hpid⟩ := h
  rcases happen_to (.exits p s) hq with ⟨hno, _⟩ | ⟨q', hq', hb⟩
  · cases hno
  refine ⟨q', hq', ?_, ?_, hb.pid ▸ hpid⟩
  · rcases hb.leader with hsame | hno
    · rw [hsame, hleader]
    · cases hno
  · rcases hb.ended with hsame | ⟨_, _, hexit, _⟩
    · rw [hsame, hended]
    · cases hexit
      exact absurd rfl hpid

theorem Others.retain (h : Others p w) : Others p (w.retain fun q => q.pid ≠ p) := by
  obtain ⟨q, hq, hleader, hended, hpid⟩ := h
  exact ⟨q, List.mem_filter.mpr ⟨hq, by simpa using hpid⟩, hleader, hended, hpid⟩

theorem Others.told {target : Int} {hit : Proc → Bool} (h : Others p w) :
    Others p (w.deliver .term target hit) := by
  obtain ⟨q, hq, hleader, hended, hpid⟩ := h
  refine ⟨_, List.mem_map_of_mem hq, ?_⟩
  split
  · exact ⟨hleader, by simp [hended], hpid⟩
  · exact ⟨hleader, hended, hpid⟩

/-- A look at a leader that is free to end. -/
theorem status_ends (hx : x ∈ w.procs) (hc : x.child = true) (hid : handle.id = x.pid)
    (hm : m.finished x.pid = none ∧ m.adopted x.pid = false) (ho : Others x.pid w)
    (hdue : Due x.pid w (.exits x.pid (.exited 0))) :
    wp answer (Eager x.pid) Anywhere (status handle).run
      (fun res _ w' => ∃ s, res = .ok s ∧ s.state ≠ .running ∧ Others x.pid w') m w := by
  rw [← hid] at hm
  refine (wp_status_child (hid ▸ (w.bounded x hx).1) hm.1 hm.2).mpr ?_
  refine wp_seq.mpr (wp_ask.mpr ⟨trivial, fun c hchoice => ?_⟩)
  rw [hid, pidT_of_bounded hx] at hchoice ⊢
  subst hchoice
  have hanswer : answer { happenings := hurry x.pid w (.waitpid x.pid false), count := 1 }
      (.waitpid x.pid false) w =
      (w.happen (.exits x.pid (.exited 0))).waitpid x.pid false (.exited 0) := by
    simp only [answer, perform, hurry, if_pos hdue]
    rfl
  rw [hanswer]
  obtain ⟨x', hx', hpid, hchild, s, hs⟩ : ∃ x' ∈ (w.happen (.exits x.pid (.exited 0))).procs,
      x'.pid = x.pid ∧ x'.child = true ∧ ∃ s, x'.ended = some s := by
    refine ⟨_, List.mem_map_of_mem hx, ?_⟩
    rw [if_pos (by simp)]
    exact ⟨rfl, hc, Option.isSome_iff_exists.mp (by cases x.ended <;> rfl)⟩
  have hwait : ∀ hang s', (w.happen (.exits x.pid (.exited 0))).waitpid x'.pid hang s' =
      (.ended s, (w.happen (.exits x.pid (.exited 0))).retain fun q => q.pid ≠ x'.pid) :=
    fun _ _ => waitpid_ended hx' hchild hs
  rw [hpid] at hwait
  rw [hwait]
  exact ⟨toStatus s, rfl, toStatus_state s, ho.exits.retain⟩

/-- A look at a leader that is not. -/
theorem status_runs (hx : x ∈ w.procs) (hc : x.child = true) (ha : x.ended = none)
    (hid : handle.id = x.pid) (hm : m.finished x.pid = none ∧ m.adopted x.pid = false)
    (hdue : ¬ Due x.pid w (.exits x.pid (.exited 0))) :
    wp answer (Eager x.pid) Anywhere (status handle).run
      (fun res m' w' => res = .ok running ∧ m' = m ∧ w' = w) m w := by
  rw [← hid] at hm
  refine (wp_status_child (hid ▸ (w.bounded x hx).1) hm.1 hm.2).mpr ?_
  refine wp_seq.mpr (wp_ask.mpr ⟨trivial, fun c hchoice => ?_⟩)
  rw [hid, pidT_of_bounded hx] at hchoice ⊢
  subst hchoice
  have hanswer : answer { happenings := hurry x.pid w (.waitpid x.pid false), count := 1 }
      (.waitpid x.pid false) w = (.still, w) := by
    simp only [answer, perform, hurry, if_neg hdue, List.foldl_nil]
    exact waitpid_alive hx hc ha
  rw [hanswer]
  exact ⟨rfl, rfl, rfl⟩

/-- A process that was started, and runs. -/
structure Started (x : Proc) (m : Supervisor) (w : Kernel) : Prop where
  mem : x ∈ w.procs
  child : x.child = true
  leads : x.leader.id = x.pid
  alive : x.ended = none
  above : 1 < x.pid
  fresh : m.finished x.pid = none ∧ m.adopted x.pid = false

/-- The first look finds the leader at its end. -/
theorem stop_at_once (h : Started x m w) (hid : handle.id = x.pid) (ho : Others x.pid w)
    (hdue : Due x.pid w (.exits x.pid (.exited 0))) :
    wp answer (Eager x.pid) Anywhere (stop handle timeout).run
      (fun res _ w' => res = .ok () ∧ Others x.pid w') m w := by
  have hpos : 0 < handle.id := hid ▸ (w.bounded x h.mem).1
  unfold stop
  refine wp_require_seq.mpr ?_
  rw [if_pos (decide_eq_true hpos)]
  refine wp_load_seq.mpr ?_
  refine wp_seq_of (status_ends h.mem h.child hid h.fresh ho hdue) ?_ ?_
  · rintro current m₁ w₁ ⟨s, hs, hstate, ho₁⟩
    cases hs
    rw [if_pos hstate]
    exact ⟨rfl, ho₁⟩
  · rintro e m₁ w₁ ⟨s, hs, _⟩
    cases hs

/-- The leader obeys, and is gone at the first turn of the loop. -/
theorem stop_soon (h : Started x m w) (hid : handle.id = x.pid) (ho : Others x.pid w)
    (hdue : ¬ Due x.pid w (.exits x.pid (.exited 0))) (hobeys : x.obeys = true)
    (ht : 0 < timeout) :
    wp answer (Eager x.pid) Anywhere (stop handle timeout).run
      (fun res _ w' => res = .ok () ∧ Others x.pid w') m w := by
  have hpos : 0 < handle.id := hid ▸ (w.bounded x h.mem).1
  have hpresent : Present x.pid w := ⟨x, h.mem, rfl, h.child, h.leads⟩
  unfold stop
  refine wp_require_seq.mpr ?_
  rw [if_pos (decide_eq_true hpos)]
  refine wp_load_seq.mpr ?_
  refine wp_seq_of (status_runs h.mem h.child h.alive hid h.fresh hdue) ?_ ?_
  · rintro current m₁ w₁ ⟨hs, rfl, rfl⟩
    cases hs
    rw [if_neg (by simp [running])]
    refine wp_seq.mpr ?_
    unfold signalGroup
    refine wp_seq.mpr (wp_ask.mpr ⟨trivial, fun c hc => ?_⟩)
    rw [hid, pidT_of_bounded h.mem] at hc ⊢
    subst hc
    have hanswer : answer { happenings := hurry x.pid w₁ (.kill (-x.pid) .term), count := 1 }
        (.kill (-x.pid) .term) w₁ =
        (.ok (), w₁.deliver .term (-x.pid) fun q => decide (q.leader.id = x.pid)) :=
      kill_present hpresent h.above .term
    rw [hanswer]
    -- now the leader is told to
    have hmem : { x with told := true } ∈
        (w₁.deliver .term (-x.pid) fun q => decide (q.leader.id = x.pid)).procs := by
      refine List.mem_map.mpr ⟨x, h.mem, ?_⟩
      rw [if_pos (decide_eq_true h.leads)]
      simp [h.alive]
    have hothers : Others x.pid
        (w₁.deliver .term (-x.pid) fun q => decide (q.leader.id = x.pid)) := ho.told
    revert hmem hothers
    generalize (w₁.deliver .term (-x.pid) fun q => decide (q.leader.id = x.pid)) = w₂
    intro hmem hothers
    have hdue₂ : Due x.pid w₂ (.exits x.pid (.exited 0)) := by
      intro q hq hqp _ _
      rw [Kernel.eq_of_pid hq hmem hqp]
      exact Or.inr ⟨hobeys, rfl⟩
    refine wp_seq.mpr (wp_ask.mpr ⟨trivial, fun c hc => ?_⟩)
    subst hc
    have hturns : answer { happenings := hurry x.pid w₂ (.turns timeout), count := 1 }
        (.turns timeout) w₂ = (1, w₂) := by
      simp only [answer, perform, hurry, List.foldl_nil, if_neg (Int.not_le.mpr ht)]
    rw [hturns]
    refine wp_seq_of (P := fun res _ w' => res = .ok true ∧ Others x.pid w') ?_ ?_ ?_
    · refine wp_seq_of (status_ends (x := { x with told := true }) hmem h.child hid h.fresh
        hothers hdue₂) ?_ ?_
      · rintro polled m₃ w₃ ⟨s, hs, hstate, ho₃⟩
        cases hs
        rw [if_pos hstate]
        exact ⟨rfl, ho₃⟩
      · rintro e m₃ w₃ ⟨s, hs, _⟩
        cases hs
    · rintro ended m₃ w₃ ⟨hended, ho₃⟩
      cases hended
      exact ⟨rfl, ho₃⟩
    · rintro e m₃ w₃ ⟨hended, _⟩
      cases hended
  · rintro e m₁ w₁ ⟨hs, _⟩
    cases hs

/-! ## `start` -/

/-- Nobody changes its group. -/
def Unmoved (_ : Kernel) (_ : Op) (c : Choice) : Prop :=
  ∀ e ∈ c.happenings, ∀ pid g, e ≠ .joins pid g

theorem happen_home (w : Kernel) (e : Happening) : (w.happen e).home = w.home := by
  cases e with
  | exits pid status => rfl
  | vanishes pid => rfl
  | born q =>
      simp only [Kernel.happen]
      split <;> rfl
  | joins pid g =>
      simp only [Kernel.happen]
      split <;> rfl

/-- The child is in the table, in the group that `L` says. -/
def Forked (p : Int) (L : Kernel → Proc → Prop) (w : Kernel) : Prop :=
  ∃ x ∈ w.procs, x.pid = p ∧ x.child = true ∧ L w x

theorem Forked.along {L : Kernel → Proc → Prop} {o : Op} {c : Choice}
    (hL : ∀ w e x x', L w x → x'.leader = x.leader → x'.pid = x.pid → L (w.happen e) x')
    (h : Forked p L w) (hc : Unmoved w o c) : Forked p L (c.happenings.foldl Kernel.happen w) := by
  unfold Unmoved at hc
  revert hc
  generalize c.happenings = l
  intro hc
  induction l generalizing w with
  | nil => exact h
  | cons e l ih =>
      refine ih ?_ fun e' he' => hc e' (List.mem_cons_of_mem e he')
      obtain ⟨x, hx, hpid, hchild, hl⟩ := h
      rcases happen_to e hx with ⟨_, hno, _⟩ | ⟨x', hx', hb⟩
      · rw [hchild] at hno
        cases hno
      · have hleader := hb.leader.resolve_right (hc e List.mem_cons_self _ _)
        exact ⟨x', hx', hb.pid.trans hpid, hb.child.trans hchild, hL w e x x' hl hleader hb.pid⟩

theorem setpgid_leads (h : Forked p (fun w x => x.leader = w.home) w) (hp : 1 < p) :
    Forked p (fun _ x => x.leader.id = x.pid) (w.setpgid p) := by
  obtain ⟨x, hx, rfl, hchild, hleader⟩ := h
  have hfound :
      (w.procs.find? fun q => q.pid = x.pid && q.child && q.leader = w.home) = some x := by
    cases hfind : w.procs.find? fun q => q.pid = x.pid && q.child && q.leader = w.home with
    | some q =>
        have hq := List.find?_some hfind
        simp only [Bool.and_eq_true, decide_eq_true_eq] at hq
        rw [Kernel.eq_of_pid (List.mem_of_find?_eq_some hfind) hx hq.1.1]
    | none =>
        have hno := List.find?_eq_none.mp hfind x hx
        simp [hchild, hleader] at hno
  have hcan : w.CanJoin x.pid x.handle := ⟨Int.ne_of_gt hp, Or.inr ⟨x, hx, rfl, rfl⟩⟩
  simp only [Kernel.setpgid, hfound, dif_pos hcan]
  refine ⟨_, List.mem_map_of_mem hx, ?_⟩
  rw [if_pos rfl]
  exact ⟨rfl, hchild, rfl⟩

/-- What `start` returns leads a group of its own. -/
theorem start_leads {options : ProcessStartOptions} :
    wp answer Unmoved Anywhere (start options).run
      (fun res m' w' => ∀ handle, res = .ok handle →
        (m'.finished handle.id = none ∧ m'.adopted handle.id = false) ∧ 1 < handle.id ∧
        Forked handle.id (fun _ x => x.leader.id = x.pid) w') m w := by
  unfold start
  refine wp_require_seq.mpr ?_
  split
  case isFalse => exact fun _ h => by cases h
  refine wp_seq.mpr (wp_orFail.mpr (wp_ask.mpr ⟨trivial, fun c₁ _ => ?_⟩))
  cases (answer c₁ .pipe w).1 with
  | error why => exact fun _ h => by cases h
  | ok _ =>
  refine wp_seq.mpr (wp_orFail.mpr (wp_ask.mpr ⟨trivial, fun c₂ _ => ?_⟩))
  cases (answer c₂ .cloexec (answer c₁ .pipe w).2).1 with
  | error why => exact fun _ h => by cases h
  | ok _ =>
  generalize (answer c₂ .cloexec (answer c₁ .pipe w).2).2 = w₂
  refine wp_seq.mpr (wp_orFail.mpr (wp_ask.mpr ⟨trivial, fun c₃ _ => ?_⟩))
  cases hfork : (answer c₃ .fork w₂).1 with
  | error why => exact fun _ h => by cases h
  | ok child =>
  obtain ⟨hp, hforked⟩ := fork_child hfork
  revert hforked
  generalize (answer c₃ .fork w₂).2 = w₃
  intro hforked
  refine wp_seq.mpr (wp_ask.mpr ⟨trivial, fun c₄ hc₄ => ?_⟩)
  have hled : Forked child (fun _ x => x.leader.id = x.pid) (answer c₄ (.setpgid child) w₃).2 :=
    setpgid_leads (hforked.along
      (fun w e x x' hl hsame _ => by rw [happen_home, hsame, hl]) hc₄) hp
  revert hled
  generalize (answer c₄ (.setpgid child) w₃).2 = w₄
  intro hled
  have hstill : ∀ (_ : Kernel) (_ : Happening) (x x' : Proc), x.leader.id = x.pid →
      x'.leader = x.leader → x'.pid = x.pid → x'.leader.id = x'.pid :=
    fun _ _ x x' hl hsame hpid => by rw [hsame, hl, hpid]
  refine wp_seq.mpr (wp_ask.mpr ⟨trivial, fun c₅ hc₅ => ?_⟩)
  have hled₅ := hled.along (L := fun _ x => x.leader.id = x.pid) hstill hc₅
  have hreport : (answer c₅ .report w₄).2 = c₅.happenings.foldl Kernel.happen w₄ := rfl
  rw [← hreport] at hled₅
  revert hled₅
  generalize (answer c₅ .report w₄).2 = w₅
  intro hled₅
  cases (answer c₅ .report w₄).1 with
  | some reason =>
      refine wp_seq.mpr (wp_ask.mpr ⟨trivial, fun c₆ _ => ?_⟩)
      exact fun _ h => by cases h
  | none =>
      refine wp_seq.mpr (wp_ask.mpr ⟨trivial, fun c₆ hc₆ => ?_⟩)
      intro handle hhandle
      cases hhandle
      have hled₆ := hled₅.along (L := fun _ x => x.leader.id = x.pid) hstill hc₆
      exact ⟨⟨if_pos rfl, if_pos rfl⟩, hp, hled₆⟩
where
  fork_child {c : Choice} {w : Kernel} {child : Int} (h : (answer c .fork w).1 = .ok child) :
      1 < child ∧ Forked child (fun w x => x.leader = w.home) (answer c .fork w).2 := by
    simp only [answer, perform] at h ⊢
    split at h
    · cases h
    · split at h
      · rename_i hfresh
        cases h
        rw [dif_pos hfresh]
        exact ⟨hfresh.above, _, List.mem_cons_self, rfl, rfl, rfl⟩
      · cases h

/-! ## The whole group -/

/-- Every `stop` that succeeds leaves nobody of the group alive, however the
exits fall, exactly if the leader is the last of its group, or if it does not
end before the group is killed: not by itself, and not because it was told. -/
theorem stop_complete_iff (h : Started x m w) (hid : handle.id = x.pid) :
    (∀ m' w', Exec answer (Tempered x.pid) (stop handle timeout).run m w (.done (.ok ()) m') w' →
      Dead x.pid w') ↔
    Alone x.pid w ∨ (x.ends = false ∧ (x.obeys = false ∨ (timeout ≤ 0 ∧ x.told = false))) := by
  have hpresent : Present x.pid w := ⟨x, h.mem, rfl, h.child, h.leads⟩
  constructor
  · intro hall
    refine or_iff_not_imp_left.mpr fun halone => ?_
    have ho := others_of_not_alone halone
    have hnone : wp answer (Eager x.pid) Anywhere (stop handle timeout).run
        (fun res _ w' => res = .ok () ∧ Others x.pid w') m w → False := by
      intro hwp
      obtain ⟨res, m', w', he, rfl, ho'⟩ := can_exec (can_of_wp exists_eager hwp)
      exact ho'.not_dead (hall m' w' (he.mono fun _ _ _ => Eager.tempered))
    have hdue : ¬ Due x.pid w (.exits x.pid (.exited 0)) := fun hdue =>
      hnone (stop_at_once h hid ho hdue)
    have hfree : ¬ (x.ends = true ∨ (x.obeys = true ∧ x.told = true)) := by
      intro hfree
      refine hdue fun q hq hqp _ _ => ?_
      rw [Kernel.eq_of_pid hq h.mem hqp]
      exact hfree
    obtain ⟨hends, hdeaf⟩ := not_or.mp hfree
    refine ⟨by simpa using hends, or_iff_not_imp_left.mpr fun hobeys => ?_⟩
    replace hobeys : x.obeys = true := by simpa using hobeys
    refine ⟨?_, Bool.not_eq_true _ ▸ fun htold => hdeaf ⟨hobeys, htold⟩⟩
    by_contra ht
    exact hnone (stop_soon h hid ho hdue hobeys (Int.not_le.mp ht))
  · rintro hcase m' w' he
    rcases hcase with halone | ⟨hends, hobeys | ⟨ht, htold⟩⟩
    · exact wp_done he (stop_watch watch_alone telling_alone
        (fun _ hw => ⟨hw.1.deliver .term, hw.2.told⟩) watch_alone (Or.inr telling_alone)
        ⟨hpresent, halone⟩ h.above hid h.fresh) rfl
    · have hsteady : Steady x w := ⟨h.mem, h.child, h.leads, h.alive, hends, Or.inl hobeys⟩
      exact wp_done he (stop_watch watch_steady telling_steady
        (fun _ hw => hw.told hobeys) (watch_steady (x := { x with told := true }))
        (Or.inr (telling_steady (x := { x with told := true }))) hsteady h.above hid h.fresh) rfl
    · have hsteady : Steady x w := ⟨h.mem, h.child, h.leads, h.alive, hends, Or.inr htold⟩
      exact wp_done he (stop_watch watch_steady telling_steady
        (fun _ hw => (watch_steady.present _ hw).deliver .term) watch_present (Or.inl ht)
        hsteady h.above hid h.fresh) rfl

namespace Sample

/-- It obeys. -/
def leader : Proc := { pid := 10, token := 7, leader := ⟨10, 7⟩, child := true, ends := false }

/-- It ignores `SIGTERM`. -/
def worker : Proc := { pid := 11, token := 8, leader := ⟨10, 7⟩, obeys := false, ends := false }

def service : Kernel where
  procs := [leader, worker]
  home := ⟨5, 1⟩
  sent := []
  distinct := by decide
  bounded := by decide
  founded := by decide
  init := by decide

/-- The leader ends when it is told to, before the second look. -/
def leaving : List Choice :=
  [{}, {}, { count := 1 }, { happenings := [.exits 10 (.exited 0)] }]

end Sample

/-- Without a timeout there is no look before `SIGKILL`. -/
theorem stop_complete_iff_service : Sample.service.procs = [Sample.leader, Sample.worker] ∧
    ∀ m' w', Exec answer (Tempered 10) (stop ⟨10, 7⟩ 0).run {} Sample.service
      (.done (.ok ()) m') w' → Dead 10 w' :=
  ⟨rfl, (stop_complete_iff (x := Sample.leader)
    ⟨List.mem_cons_self, rfl, rfl, rfl, by decide, rfl, rfl⟩ rfl).mpr
      (Or.inr ⟨rfl, Or.inr ⟨Int.le_refl 0, rfl⟩⟩)⟩

/-- The leader obeys, the worker does not, and `stop` succeeds. -/
theorem worker_is_left :
    ¬ ∀ m' w', Exec answer (Tempered 10) (stop ⟨10, 7⟩ 5).run {} Sample.service
      (.done (.ok ()) m') w' → Dead 10 w' := by
  intro h
  have hend : ((stop ⟨10, 7⟩ 5).run.run answer Sample.leaving {} Sample.service).1 =
      .done (.ok ()) (Supervisor.finish {} 10 (toStatus (.exited 0))) := rfl
  have hrun := exec_of_run (A := Tempered 10) (by decide +kernel) hend
  have hdead := h _ _ hrun { Sample.worker with told := true } (by decide) rfl
  cases hdead

end Posix

end Yirang
