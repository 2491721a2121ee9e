/-
# `Yirang.Process.Instance` — one instance of a pid

A pid names one process after another.  An instance is a pid with a start
token, and what can be said of it in the process table is this:

    children    whom the supervisor can wait for: only `fork` adds to them,
                and only `waitpid` takes away
    Owns g      the pid and the group of `g` are those of the instance `g`
    SentTo g    the signals sent since then went to the group of `g`
-/
import Yirang.Process.Supervisor

namespace Yirang

open Effect

namespace Posix

variable {w w' w₀ : Kernel} {e : Happening} {l : List Happening} {c : Choice} {o : Op}
  {g : ProcessHandle} {q x : Proc} {p : Int}

/-! ## The children -/

theorem happen_children : g ∈ (w.happen e).children ↔ g ∈ w.children := by
  rw [Kernel.mem_children, Kernel.mem_children]
  constructor
  · rintro ⟨q', hq', hchild, hg⟩
    rcases happen_from hq' with ⟨_, _, hno⟩ | ⟨q, hq, hb⟩
    · rw [hchild] at hno
      cases hno
    · exact ⟨q, hq, hb.child ▸ hchild, hb.handle ▸ hg⟩
  · rintro ⟨q, hq, hchild, hg⟩
    rcases happen_to e hq with ⟨_, hno, _⟩ | ⟨q', hq', hb⟩
    · rw [hchild] at hno
      cases hno
    · exact ⟨q', hq', hb.child.trans hchild, hb.handle.trans hg⟩

theorem along_children : g ∈ (l.foldl Kernel.happen w).children ↔ g ∈ w.children := by
  induction l generalizing w with
  | nil => exact Iff.rfl
  | cons e l ih => exact ih.trans happen_children

theorem change_children {f : Proc → Proc} (h : w.Respects f)
    (hf : ∀ q, (f q).child = q.child) : g ∈ (w.change f h).children ↔ g ∈ w.children := by
  rw [Kernel.mem_children, Kernel.mem_children]
  constructor
  · rintro ⟨q', hq', hchild, hg⟩
    obtain ⟨q, hq, rfl⟩ := List.mem_map.mp hq'
    exact ⟨q, hq, hf q ▸ hchild, (h q hq).1 ▸ hg⟩
  · rintro ⟨q, hq, hchild, hg⟩
    exact ⟨f q, List.mem_map_of_mem hq, (hf q).trans hchild, (h q hq).1.trans hg⟩

theorem deliver_children {signal : Signal} {target : Int} {hit : Proc → Bool} :
    g ∈ (w.deliver signal target hit).children ↔ g ∈ w.children := by
  have hmark : ∀ ended told, g ∈ (w.mark hit ended told).children ↔ g ∈ w.children :=
    fun ended told => change_children _ fun q => by split <;> rfl
  cases signal with
  | probe => exact Iff.rfl
  | term => exact hmark none true
  | kill => exact hmark (some (.signaled 9)) false

theorem setpgid_children : g ∈ (w.setpgid p).children ↔ g ∈ w.children := by
  unfold Kernel.setpgid
  split
  · split
    · exact change_children _ fun q => by split <;> rfl
    · exact Iff.rfl
  · exact Iff.rfl

theorem retain_children :
    g ∈ (w.retain fun q => q.pid ≠ p).children ↔ g ∈ w.children ∧ g.id ≠ p := by
  rw [Kernel.mem_children, Kernel.mem_children]
  constructor
  · rintro ⟨q, hq, hchild, rfl⟩
    obtain ⟨hq, hne⟩ := List.mem_filter.mp hq
    exact ⟨⟨q, hq, hchild, rfl⟩, of_decide_eq_true hne⟩
  · rintro ⟨⟨q, hq, hchild, rfl⟩, hne⟩
    exact ⟨q, List.mem_filter.mpr ⟨hq, decide_eq_true hne⟩, hchild, rfl⟩

/-- A call that neither makes a child nor takes one away. -/
def Op.Barren : Op → Prop
  | .fork | .waitpid _ _ => False
  | _ => True

theorem barren_children (ho : o.Barren) : g ∈ (answer c o w).2.children ↔ g ∈ w.children := by
  refine Iff.trans ?_ (along_children (l := c.happenings))
  cases o with
  | pipe | cloexec =>
      simp only [answer, perform]
      split <;> exact Iff.rfl
  | fork | waitpid => exact ho.elim
  | setpgid pid => exact setpgid_children
  | report | startToken id | turns timeout => exact Iff.rfl
  | kill target signal =>
      simp only [answer, perform, Kernel.kill]
      split
      · split
        · exact deliver_children
        · exact Iff.rfl
      · exact Iff.rfl

/-- What a wait for the pid `p` does. -/
inductive WaitsFor (p : Int) (w : Kernel) (hang : Bool) : Waited → Kernel → Prop
  | ended {x : Proc} {s : WaitStatus} : x ∈ w.procs → x.child = true → x.pid = p →
      WaitsFor p w hang (.ended s) (w.retain fun q => q.pid ≠ p)
  | still {x : Proc} : x ∈ w.procs → x.child = true → x.pid = p → hang = false →
      WaitsFor p w hang .still w
  | noChild : (∀ g ∈ w.children, g.id ≠ p) → WaitsFor p w hang .noChild w

theorem waitpid_waitsFor (hp : 0 < p) (hang : Bool) (s : WaitStatus) :
    WaitsFor p w hang (w.waitpid p hang s).1 (w.waitpid p hang s).2 := by
  by_cases hx : ∃ x ∈ w.procs, x.child = true ∧ x.pid = p
  · obtain ⟨x, hx, hchild, rfl⟩ := hx
    cases hended : x.ended with
    | some s' =>
        rw [waitpid_ended hx hchild hended]
        exact .ended hx hchild rfl
    | none =>
        rw [waitpid_alive hx hchild hended]
        cases hang with
        | true => exact .ended hx hchild rfl
        | false => exact .still hx hchild rfl rfl
  · have hno : ∀ q ∈ w.procs, q.child = true → q.pid ≠ p := fun q hq hchild hpid =>
      hx ⟨q, hq, hchild, hpid⟩
    rw [waitpid_none hp hno]
    refine .noChild fun g hg hid => ?_
    obtain ⟨q, hq, hchild, rfl⟩ := Kernel.mem_children.mp hg
    exact hno q hq hchild hid

/-! ## The pid and the group of an instance -/

/-- Whoever has the pid of `g` is `g`, and the group of that name is its
group. -/
structure Owns (g : ProcessHandle) (w : Kernel) : Prop where
  here : ∀ q ∈ w.procs, q.pid = g.id → q.handle = g
  group : ∀ g' ∈ w.groups, g'.id = g.id → g' = g

/-- The instance is in the table. -/
def Here (g : ProcessHandle) (w : Kernel) : Prop := ∃ q ∈ w.procs, q.handle = g

theorem Here.owns (h : Here g w) : Owns g w := by
  obtain ⟨x, hx, rfl⟩ := h
  exact ⟨fun q hq hpid => by rw [Kernel.eq_of_pid hq hx hpid],
    fun g' hg' hid => w.founded g' hg' x hx hid⟩

theorem Owns.change (h : Owns g w) {f : Proc → Proc} (hf : w.Respects f) :
    Owns g (w.change f hf) where
  here q' hq' hpid := by
    obtain ⟨q, hq, rfl⟩ := List.mem_map.mp hq'
    rw [(hf q hq).1]
    exact h.here q hq (hf.pid hq ▸ hpid)
  group g' hg' hid := by
    rcases List.mem_cons.mp hg' with rfl | hg'
    · exact h.group _ List.mem_cons_self hid
    · obtain ⟨q', hq', rfl⟩ := List.mem_map.mp hg'
      obtain ⟨q, hq, rfl⟩ := List.mem_map.mp hq'
      rcases hf.leader hq with hold | hown
      · exact h.group _ hold hid
      · rw [hown] at hid ⊢
        exact h.here q hq hid

theorem Owns.mark (h : Owns g w) (hit : Proc → Bool) (ended : Option WaitStatus) (told : Bool) :
    Owns g (w.mark hit ended told) := by
  unfold Kernel.mark
  exact h.change _

theorem Owns.log (h : Owns g w) (s : Sent) : Owns g (w.log s) := ⟨h.here, h.group⟩

theorem Owns.retain (h : Owns g w) (keep : Proc → Bool) : Owns g (w.retain keep) where
  here q hq := h.here q (List.mem_filter.mp hq).1
  group g' hg' := by
    refine h.group g' ?_
    rcases List.mem_cons.mp hg' with rfl | hg'
    · exact List.mem_cons_self
    · obtain ⟨q, hq, rfl⟩ := List.mem_map.mp hg'
      exact Kernel.leader_mem_groups (List.mem_filter.mp hq).1

theorem Owns.add (h : Owns g w) (hq : w.Fresh q) (hne : q.pid ≠ g.id) : Owns g (w.add q hq) where
  here x hx hpid := by
    rcases List.mem_cons.mp hx with rfl | hx
    · exact absurd hpid hne
    · exact h.here x hx hpid
  group g' hg' hid := by
    rcases List.mem_cons.mp hg' with rfl | hg'
    · exact h.group _ List.mem_cons_self hid
    rcases List.mem_cons.mp hg' with rfl | hg'
    · rcases hq.leader with hold | hown
      · exact h.group _ hold hid
      · rw [hown] at hid
        exact absurd hid hne
    · exact h.group _ (List.mem_cons_of_mem _ hg') hid

/-- The pid `p` is not given to a new process. -/
def Reserved (p : Int) (_ : Kernel) : Happening → Prop
  | .born q => q.pid ≠ p
  | _ => True

theorem Owns.happen (h : Owns g w) (he : Reserved g.id w e) : Owns g (w.happen e) := by
  cases e with
  | exits pid status => exact h.mark _ _ _
  | vanishes pid => exact h.retain _
  | born q =>
      simp only [Kernel.happen]
      split
      · rename_i hnew
        exact h.add hnew.1 he
      · exact h
  | joins pid g' =>
      simp only [Kernel.happen]
      split
      · exact h.change _
      · exact h

/-! ## Signals -/

/-- The signal went to the group of the instance, and to nobody else. -/
structure Aimed (g : ProcessHandle) (s : Sent) : Prop where
  signal : s.signal ≠ .probe
  target : s.target = -g.id
  reached : ∀ q ∈ s.reached, q.leader = g ∧ q.pid ≠ 1

/-- All the signals sent from `w` to `w'` went there. -/
def SentTo (g : ProcessHandle) (w w' : Kernel) : Prop :=
  ∃ new, w'.sent = new ++ w.sent ∧ ∀ s ∈ new, Aimed g s

theorem happen_sent : (w.happen e).sent = w.sent := by
  cases e with
  | exits pid status => rfl
  | vanishes pid => rfl
  | born q =>
      simp only [Kernel.happen]
      split <;> rfl
  | joins pid g =>
      simp only [Kernel.happen]
      split <;> rfl

theorem along_sent : (l.foldl Kernel.happen w).sent = w.sent := by
  induction l generalizing w with
  | nil => rfl
  | cons e l ih => exact ih.trans happen_sent

theorem SentTo.same (h : w'.sent = w.sent) : SentTo g w w' := ⟨[], h, fun _ hs => by cases hs⟩

theorem SentTo.of_sent {w'' : Kernel} (h : SentTo g w w') (hs : w''.sent = w'.sent) :
    SentTo g w w'' := by
  obtain ⟨new, hnew, haimed⟩ := h
  exact ⟨new, hs.trans hnew, haimed⟩

theorem SentTo.cons {w'' : Kernel} {s : Sent} (h : SentTo g w w') (hs : w''.sent = s :: w'.sent)
    (ha : Aimed g s) : SentTo g w w'' := by
  obtain ⟨new, hnew, haimed⟩ := h
  refine ⟨s :: new, by rw [hs, hnew]; rfl, fun x hx => ?_⟩
  rcases List.mem_cons.mp hx with rfl | hx
  · exact ha
  · exact haimed x hx

/-- The calls that `stop` makes once it has seen the process run. -/
def Op.Meant (p : Int) : Op → Prop
  | .fork => False
  | .kill target signal => signal = .probe ∨ target = -p
  | _ => True

/-- No pid is given again while `stop` is running. -/
def Keeping (p : Int) (w : Kernel) (_ : Op) (c : Choice) : Prop :=
  Along (Reserved p) w c.happenings

theorem reached_aimed {signal : Signal} (h : Owns g w) (hg : 1 < g.id) (hs : signal ≠ .probe)
    (may : Proc → Bool) :
    Aimed g ⟨signal, -g.id, w.procs.filter fun q => w.aims (-g.id) q && may q⟩ where
  signal := hs
  target := rfl
  reached q hq := by
    obtain ⟨hq, haims⟩ := List.mem_filter.mp hq
    rw [Bool.and_eq_true] at haims
    have hleader : q.leader.id = g.id := of_decide_eq_true (aims_group hg ▸ haims.1)
    refine ⟨h.group _ (Kernel.leader_mem_groups hq) hleader, fun hone => ?_⟩
    have hinit := w.init q hq hone
    omega

theorem meant_step (hg : 1 < g.id) (ho : o.Meant g.id) (hc : Keeping g.id w o c)
    (h : Owns g w ∧ SentTo g w₀ w) : Owns g (answer c o w).2 ∧ SentTo g w₀ (answer c o w).2 := by
  have howns : Owns g (c.happenings.foldl Kernel.happen w) :=
    Along.invariant (fun _ _ h he => Owns.happen h he) hc h.1
  have hsent : SentTo g w₀ (c.happenings.foldl Kernel.happen w) := h.2.of_sent along_sent
  unfold answer
  revert howns hsent
  generalize c.happenings.foldl Kernel.happen w = w₁
  intro howns hsent
  cases o with
  | fork => exact ho.elim
  | pipe | cloexec =>
      simp only [perform]
      split <;> exact ⟨howns, hsent⟩
  | report | startToken id | turns timeout => exact ⟨howns, hsent⟩
  | setpgid pid =>
      simp only [perform, Kernel.setpgid]
      split
      · split
        · exact ⟨howns.change _, hsent⟩
        · exact ⟨howns, hsent⟩
      · exact ⟨howns, hsent⟩
  | waitpid target hang =>
      have hwait : ∀ hang s, Owns g (w₁.waitpid target hang s).2 ∧
          SentTo g w₀ (w₁.waitpid target hang s).2 := by
        intro hang s
        unfold Kernel.waitpid
        split
        · exact ⟨howns.retain _, hsent⟩
        · split
          · split
            · exact ⟨howns.retain _, hsent⟩
            · exact ⟨howns, hsent⟩
          · exact ⟨howns, hsent⟩
      cases hang with
      | true => exact hwait true c.status
      | false =>
          simp only [perform]
          split
          · exact ⟨howns, hsent⟩
          · exact hwait false c.status
  | kill target signal =>
      simp only [perform, Kernel.kill]
      split
      · split
        · cases signal with
          | probe => exact ⟨howns, hsent⟩
          | term =>
              cases ho.resolve_left (by decide)
              exact ⟨(howns.mark _ _ _).log _, hsent.cons rfl (reached_aimed howns hg (by decide) _)⟩
          | kill =>
              cases ho.resolve_left (by decide)
              exact ⟨(howns.mark _ _ _).log _, hsent.cons rfl (reached_aimed howns hg (by decide) _)⟩
        · exact ⟨howns, hsent⟩
      · exact ⟨howns, hsent⟩

end Posix

end Yirang
