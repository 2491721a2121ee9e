/-
# `Yirang.Effect.Threads` — programs that run side by side

A pool is a list of programs under way, each with its own memory and its
owner; all of them make their calls to one world, a call at a time, in any
order.  The world may answer each owner differently.

    Program.Step   a program looks at its memory, changes it, or makes a call
    Pool.Step      some program of the pool takes a step
    Monitor        what is kept in mind of the calls of one owner
    Guarded        what one owner's calls do to the world, and leave to others

A monitor is an automaton that reads the calls of a program and their
answers.  `Follows` says that a program makes only calls that the monitor
lets pass; it is `wp` over the automaton as the world, so the rules of `wp`
prove it.  `Guarded.step` then is the induction step of every argument about
a pool: what holds of the world and of each program beside it stays so.
-/
import Yirang.Effect.Wp
import Mathlib.Data.List.Nodup
import Mathlib.Logic.Relation

namespace Yirang.Effect

variable {E : Sig} {M W C L K S α : Type}

/-! ## Steps -/

inductive Program.Step (ans : Answers E W C) (A : W → E.Op → C → Prop) :
    Program E M α → M → W → Program E M α → M → W → Prop
  | get (k : M → Program E M α) (m : M) (w : W) : Step ans A (.get k) m w (k m) m w
  | set (m' : M) (p : Program E M α) (m : M) (w : W) : Step ans A (.set m' p) m w p m' w
  | call {o : E.Op} {c : C} (k : E.Res o → Program E M α) (m : M) (w : W) : A w o c →
      Step ans A (.call o k) m w (k (ans c o w).1) m (ans c o w).2

/-- A program under way: whose it is, its memory, and what is left of it. -/
structure Thread (L : Type) (E : Sig) (M α : Type) where
  owner : L
  memory : M
  rest : Program E M α

variable {ans : L → Answers E W C} {A : L → W → E.Op → C → Prop}

inductive Pool.Step (ans : L → Answers E W C) (A : L → W → E.Op → C → Prop) :
    List (Thread L E M α) → W → List (Thread L E M α) → W → Prop
  | turn {ℓ : L} {p p' : Program E M α} {m m' : M} {w w' : W}
      (older newer : List (Thread L E M α)) : p.Step (ans ℓ) (A ℓ) m w p' m' w' →
      Pool.Step ans A (older ++ ⟨ℓ, m, p⟩ :: newer) w (older ++ ⟨ℓ, m', p'⟩ :: newer) w'

/-- What a program can do alone it can do in a pool, where the others wait. -/
theorem Pool.steps_of_exec {ℓ : L} {p : Program E M α} {m m' : M} {w w' : W} {a : α}
    {P : List (Thread L E M α) → W → Prop} {older newer : List (Thread L E M α)}
    (hP : ∀ ts v ts' v', P ts v → Pool.Step ans A ts v ts' v' → P ts' v')
    (he : Exec (ans ℓ) (A ℓ) p m w (.done a m') w') (h : P (older ++ ⟨ℓ, m, p⟩ :: newer) w) :
    P (older ++ ⟨ℓ, m', .pure a⟩ :: newer) w' := by
  generalize ho : Outcome.done a m' = out at he
  induction he with
  | pure b m w =>
      cases ho
      exact h
  | get _ ih => exact ih (hP _ _ _ _ h (.turn older newer (.get _ _ _))) ho
  | set _ ih => exact ih (hP _ _ _ _ h (.turn older newer (.set _ _ _ _))) ho
  | stop o k m w => cases ho
  | call hc _ ih => exact ih (hP _ _ _ _ h (.turn older newer (.call _ _ _ hc))) ho

/-- What every call preserves, a step of a pool does. -/
theorem Pool.Step.preserves {P : W → Prop} {ts ts' : List (Thread L E M α)} {w w' : W}
    (hP : ∀ ℓ o c w, P w → P (ans ℓ c o w).2) (hs : Pool.Step ans A ts w ts' w') (h : P w) :
    P w' := by
  cases hs with
  | turn older newer hp =>
      cases hp with
      | get k => exact h
      | set m' p => exact h
      | call k _ _ hc => exact hP _ _ _ _ h

/-- Programs that keep to their footprints still do after a step; and what it
did to the world is one call, in the footprint of its owner. -/
theorem Pool.Step.used {S : L → E.Op → Prop} {ts ts' : List (Thread L E M α)} {w w' : W}
    (hs : Pool.Step ans A ts w ts' w') (h : ∀ t ∈ ts, Uses (S t.owner) t.rest) :
    (∀ t ∈ ts', Uses (S t.owner) t.rest) ∧
      (w' = w ∨ ∃ t ∈ ts, ∃ o c, S t.owner o ∧ w' = (ans t.owner c o w).2) := by
  cases hs with
  | @turn ℓ p p' m m' _ _ older newer hp =>
      have hmem : (⟨ℓ, m, p⟩ : Thread L E M α) ∈ older ++ ⟨ℓ, m, p⟩ :: newer := by simp
      have hall : ∀ {q : Program E M α} {n : M}, Uses (S ℓ) q →
          ∀ t ∈ older ++ ⟨ℓ, n, q⟩ :: newer, Uses (S t.owner) t.rest := by
        intro q n hq t ht
        rcases List.mem_append.mp ht with ht | ht
        · exact h t (List.mem_append_left _ ht)
        · rcases List.mem_cons.mp ht with rfl | ht
          · exact hq
          · exact h t (List.mem_append_right _ (List.mem_cons_of_mem _ ht))
      have hu : Uses (S ℓ) p := h _ hmem
      cases hp with
      | get k => exact ⟨hall (hu m), Or.inl rfl⟩
      | set m₀ p => exact ⟨hall hu, Or.inl rfl⟩
      | @call o c k _ _ hc => exact ⟨hall (hu.2 _), Or.inr ⟨_, hmem, o, c, hu.1, rfl⟩⟩

/-! ## Monitors -/

structure Monitor (E : Sig) (S : Type) where
  /-- What is kept in mind after a call and its answer. -/
  note : (o : E.Op) → E.Res o → S → S
  passes : S → E.Op → Prop
  /-- Which answers are counted on. -/
  expects : (o : E.Op) → E.Res o → Prop

namespace Monitor

variable (μ : Monitor E S)

/-- The monitor as a world: any answer can be chosen. -/
def answers : Answers E S ((o : E.Op) → E.Res o) := fun c o s => (c o, μ.note o (c o) s)

/-- Every call of the program passes, as long as the answers are those that
are counted on; `Q` holds at its end. -/
def Follows (p : Program E M α) (Q : α → S → Prop) (m : M) (s : S) : Prop :=
  wp μ.answers (fun _ o c => μ.expects o (c o)) (fun _ s o => μ.passes s o) p
    (fun a _ s => Q a s) m s

variable {μ}

/-- A step of a program that follows is unseen by the monitor, or is a call
that passes. -/
theorem Follows.step {ans : Answers E W C} {A : W → E.Op → C → Prop} {p p' : Program E M α}
    {Q : α → S → Prop} {m m' : M} {w w' : W} {s : S} (h : μ.Follows p Q m s)
    (hs : p.Step ans A m w p' m' w') :
    (w' = w ∧ μ.Follows p' Q m' s) ∨
      ∃ o c, A w o c ∧ w' = (ans c o w).2 ∧ μ.passes s o ∧
        (μ.expects o (ans c o w).1 → μ.Follows p' Q m' (μ.note o (ans c o w).1 s)) := by
  cases hs with
  | get k => exact .inl ⟨rfl, h⟩
  | set m₀ p => exact .inl ⟨rfl, h⟩
  | @call o c k _ _ hc =>
      -- the answers of the world to this choice, as a choice of the monitor's
      exact .inr ⟨o, c, hc, rfl, h.1, fun hr => h.2 (fun o' => (ans c o' w).1) hr⟩

end Monitor

/-! ## Guarded pools -/

/-- The calls that monitors let pass preserve `I` of the world, the part `J`
of their owner, and that of every owner with another key. -/
structure Guarded (ans : L → Answers E W C) (A : L → W → E.Op → C → Prop)
    (μ : L → Monitor E S) (key : L → K) (I : W → Prop) (J : L → S → W → Prop) : Prop where
  expected : ∀ {ℓ s w o c}, I w → J ℓ s w → (μ ℓ).passes s o → A ℓ w o c →
    (μ ℓ).expects o (ans ℓ c o w).1
  world : ∀ {ℓ s w o c}, I w → J ℓ s w → (μ ℓ).passes s o → A ℓ w o c → I (ans ℓ c o w).2
  own : ∀ {ℓ s w o c}, I w → J ℓ s w → (μ ℓ).passes s o → A ℓ w o c →
    J ℓ ((μ ℓ).note o (ans ℓ c o w).1 s) (ans ℓ c o w).2
  others : ∀ {ℓ ℓ' s s' w o c}, I w → J ℓ s w → (μ ℓ).passes s o → A ℓ w o c → key ℓ' ≠ key ℓ →
    J ℓ' s' w → J ℓ' s' (ans ℓ c o w).2

/-- What is left of a thread follows its monitor, and `J` holds of what the
monitor keeps in mind. -/
def Thread.Watched (μ : L → Monitor E S) (J : L → S → W → Prop) (Q : α → S → Prop)
    (t : Thread L E M α) (w : W) : Prop :=
  ∃ s, J t.owner s w ∧ (μ t.owner).Follows t.rest Q t.memory s

variable {μ : L → Monitor E S} {key : L → K} {I : W → Prop} {J : L → S → W → Prop}
  {Q : α → S → Prop} {ts ts' : List (Thread L E M α)} {w w' : W}

theorem Pool.Step.owners (hs : Pool.Step ans A ts w ts' w') :
    ts'.map Thread.owner = ts.map Thread.owner := by
  cases hs with
  | turn older newer => simp

/-- One step of a guarded pool. -/
theorem Guarded.step (hg : Guarded ans A μ key I J) (hI : I w)
    (hts : ∀ t ∈ ts, t.Watched μ J Q w) (hnd : (ts.map fun t => key t.owner).Nodup)
    (hs : Pool.Step ans A ts w ts' w') : I w' ∧ ∀ t ∈ ts', t.Watched μ J Q w' := by
  cases hs with
  | @turn ℓ p p' m m' _ _ older newer hp =>
      have hmem : (⟨ℓ, m, p⟩ : Thread L E M α) ∈ older ++ ⟨ℓ, m, p⟩ :: newer := by simp
      obtain ⟨s, hj, hf⟩ := hts _ hmem
      obtain ⟨rfl, hf'⟩ | ⟨o, c, hc, rfl, hpass, hf'⟩ := hf.step hp
      · refine ⟨hI, fun t ht => ?_⟩
        rcases List.mem_append.mp ht with ht | ht
        · exact hts t (List.mem_append_left _ ht)
        · rcases List.mem_cons.mp ht with rfl | ht
          · exact ⟨s, hj, hf'⟩
          · exact hts t (List.mem_append_right _ (List.mem_cons_of_mem _ ht))
      · -- a thread beside the one that called has another key
        have hother : ∀ t, t ∈ older ∨ t ∈ newer → key t.owner ≠ key ℓ := by
          rw [List.map_append, List.map_cons, List.nodup_append] at hnd
          rintro t (ht | ht) he
          · exact hnd.2.2 _ (List.mem_map.mpr ⟨t, ht, rfl⟩) _ List.mem_cons_self he
          · exact (List.nodup_cons.mp hnd.2.1).1 (List.mem_map.mpr ⟨t, ht, he⟩)
        have hrest : ∀ t, t ∈ older ∨ t ∈ newer → t.Watched μ J Q (ans ℓ c o w).2 := by
          intro t ht
          have hold : t ∈ older ++ ⟨ℓ, m, p⟩ :: newer :=
            List.mem_append.mpr (ht.imp_right (List.mem_cons_of_mem _))
          obtain ⟨s', hj', hf''⟩ := hts t hold
          exact ⟨s', hg.others hI hj hpass hc (hother t ht) hj', hf''⟩
        refine ⟨hg.world hI hj hpass hc, fun t ht => ?_⟩
        rcases List.mem_append.mp ht with ht | ht
        · exact hrest t (.inl ht)
        · rcases List.mem_cons.mp ht with rfl | ht
          · exact ⟨_, hg.own hI hj hpass hc, hf' (hg.expected hI hj hpass hc)⟩
          · exact hrest t (.inr ht)

end Yirang.Effect
