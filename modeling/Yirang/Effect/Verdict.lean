/-
# `Yirang.Effect.Verdict` — runs that go well, and runs that do not

`wp` speaks of the runs whose choices are allowed.  Here the allowed choices
are of two kinds, and a run is judged by whether it met one of the other
kind.

    verdict ans A K Q N p m w   every run of `p` with choices in `A` ends in
                                `Q` if all its choices lie in `K`, and in `N`
                                if one does not
    verdict_run                 which of the two a run is

So a condition on the choices is shown to be exact in one pass over the
text.  From the first choice outside `K` on nothing is left but a `wp`.
-/
import Yirang.Effect.Wp

namespace Yirang.Effect

variable {E : Sig} {M N W C ε ε' α β : Type} {ans : Answers E W C}
  {A K : W → E.Op → C → Prop}

def verdict (ans : Answers E W C) (A K : W → E.Op → C → Prop) (Q N : α → M → W → Prop) :
    Program E M α → M → W → Prop
  | .pure a, m, w => Q a m w
  | .get k, m, w => verdict ans A K Q N (k m) m w
  | .set m' p, _, w => verdict ans A K Q N p m' w
  | .call o k, m, w => ∀ c, A w o c →
      (K w o c → verdict ans A K Q N (k (ans c o w).1) m (ans c o w).2) ∧
      (¬ K w o c → wp ans A Anywhere (k (ans c o w).1) N m (ans c o w).2)

/-- What holds at the end of every run that is allowed. -/
theorem wp_run {p : Program E M α} {Q : α → M → W → Prop} {cs : List C} {m m' : M} {w w' : W}
    {a : α} (h : wp ans A Anywhere p Q m w) (ha : p.Admits ans A cs m w)
    (hr : p.run ans cs m w = (.done a m', w')) : Q a m' w' := by
  have he := exec_run ha
  rw [hr] at he
  exact wp_done he h

/-- The two kinds of runs. -/
theorem verdict_run {Q N : α → M → W → Prop} {p : Program E M α} {cs : List C} {m m' : M}
    {w w' : W} {a : α} (h : verdict ans A K Q N p m w) (ha : p.Admits ans A cs m w)
    (hr : p.run ans cs m w = (.done a m', w')) :
    p.Admits ans K cs m w ∧ Q a m' w' ∨ ¬ p.Admits ans K cs m w ∧ N a m' w' := by
  induction p generalizing cs m w with
  | pure a => cases hr; exact Or.inl ⟨trivial, h⟩
  | get k ih => exact ih m h ha hr
  | set m₀ p ih => exact ih h ha hr
  | call o k ih =>
      match cs with
      | [] => cases hr
      | c :: cs =>
          obtain ⟨hgood, hbad⟩ := h c ha.1
          by_cases hK : K w o c
          · rcases ih _ (hgood hK) ha.2 hr with ⟨hK', hq⟩ | ⟨hK', hn⟩
            · exact Or.inl ⟨⟨hK, hK'⟩, hq⟩
            · exact Or.inr ⟨fun h' => hK' h'.2, hn⟩
          · exact Or.inr ⟨fun h' => hK h'.1, wp_run (hbad hK) ha.2 hr⟩

/-! ## Structural rules -/

variable {Q Q' N' : α → M → W → Prop} {m : M} {w : W}

theorem verdict_conseq {N : α → M → W → Prop} {p : Program E M α}
    (h : verdict ans A K Q N p m w) (hQ : ∀ a m' w', Q a m' w' → Q' a m' w')
    (hN : ∀ a m' w', N a m' w' → N' a m' w') : verdict ans A K Q' N' p m w := by
  induction p generalizing m w with
  | pure a => exact hQ a m w h
  | get k ih => exact ih m h
  | set m' p ih => exact ih h
  | call o k ih =>
      intro c hc
      exact ⟨fun hK => ih _ ((h c hc).1 hK), fun hK => wp_conseq ((h c hc).2 hK) hN⟩

/-- A part all of whose choices lie in `K`, whatever they are. -/
theorem verdict_of_wp {N : α → M → W → Prop} {p : Program E M α}
    (h : wp ans A (fun _ w o => ∀ c, A w o c → K w o c) p Q m w) :
    verdict ans A K Q N p m w := by
  induction p generalizing m w with
  | pure a => exact h
  | get k ih => exact ih m h
  | set m' p ih => exact ih h
  | call o k ih =>
      intro c hc
      exact ⟨fun _ => ih _ (h.2 c hc), fun hK => absurd (h.1 c hc) hK⟩

theorem verdict_bind {p : Program E M α} {f : α → Program E M β} {Q N : β → M → W → Prop} :
    verdict ans A K Q N (p >>= f) m w ↔
      verdict ans A K (fun a m' w' => verdict ans A K Q N (f a) m' w')
        (fun a m' w' => wp ans A Anywhere (f a) N m' w') p m w := by
  induction p generalizing m w with
  | pure a => exact Iff.rfl
  | get k ih => exact ih m
  | set m' p ih => exact ih
  | call o k ih =>
      exact forall_congr' fun c => imp_congr_right fun _ =>
        and_congr (imp_congr_right fun _ => ih _) (imp_congr_right fun _ => wp_bind)

/-! ## Programs with errors -/

/-- The rest of a sequence, after a part that may have failed. -/
def andJudge (ans : Answers E W C) (A K : W → E.Op → C → Prop) (f : α → Act E M ε β)
    (Q N : Except ε β → M → W → Prop) : Except ε α → M → W → Prop
  | .ok a, m, w => verdict ans A K Q N (f a).run m w
  | .error e, m, w => Q (.error e) m w

section Act

variable {p : Act E M ε α} {f : α → Act E M ε β} {Q N : Except ε β → M → W → Prop}

theorem verdict_seq :
    verdict ans A K Q N (p >>= f).run m w ↔
      verdict ans A K (andJudge ans A K f Q N) (andThen ans A Anywhere f N) p.run m w := by
  rw [ExceptT.run_bind, verdict_bind]
  constructor
  · intro h
    refine verdict_conseq h ?_ ?_ <;> rintro (e | a) m' w' h' <;> exact h'
  · intro h
    refine verdict_conseq h ?_ ?_ <;> rintro (e | a) m' w' h' <;> exact h'

/-- Enter the first part of a sequence through its verdict. -/
theorem verdict_seq_of {P P' : Except ε α → M → W → Prop}
    (hp : verdict ans A K P P' p.run m w)
    (hok : ∀ a m' w', P (.ok a) m' w' → verdict ans A K Q N (f a).run m' w')
    (herr : ∀ e m' w', P (.error e) m' w' → Q (.error e) m' w')
    (hbad : ∀ r m' w', P' r m' w' → andThen ans A Anywhere f N r m' w') :
    verdict ans A K Q N (p >>= f).run m w := by
  refine verdict_seq.mpr (verdict_conseq hp ?_ hbad)
  rintro (e | a) m' w' h
  · exact herr e m' w' h
  · exact hok a m' w' h

theorem verdict_ask {o : E.Op} {Q N : Except ε (E.Res o) → M → W → Prop} :
    verdict ans A K Q N (ask o : Act E M ε (E.Res o)).run m w ↔ ∀ c, A w o c →
      (K w o c → Q (.ok (ans c o w).1) m (ans c o w).2) ∧
      (¬ K w o c → N (.ok (ans c o w).1) m (ans c o w).2) := Iff.rfl

theorem verdict_load_seq {k : M → Act E M ε β} :
    verdict ans A K Q N (load >>= k).run m w ↔ verdict ans A K Q N (k m).run m w := Iff.rfl

theorem verdict_require_seq {c : Bool} {e : ε} {k : Unit → Act E M ε β} :
    verdict ans A K Q N (require c e >>= k).run m w ↔
      if c then verdict ans A K Q N (k ()).run m w else Q (.error e) m w := by
  cases c <;> exact Iff.rfl

theorem verdict_conclude_seq {r : Except ε α} :
    verdict ans A K Q N (conclude r >>= f).run m w ↔ andJudge ans A K f Q N r m w := by
  cases r <;> exact Iff.rfl

theorem verdict_rewording {g : ε → ε'} {Q N : Except ε' α → M → W → Prop} :
    verdict ans A K Q N (rewording g p).run m w ↔
      verdict ans A K (fun r m' w' => Q (r.mapError g) m' w')
        (fun r m' w' => N (r.mapError g) m' w') p.run m w :=
  verdict_bind

theorem verdict_orFail {δ : Type} {p : Act E M ε (Except δ α)} {wrap : δ → ε}
    {Q N : Except ε α → M → W → Prop} :
    verdict ans A K Q N (orFail p wrap).run m w ↔
      verdict ans A K (settled wrap Q) (settled wrap N) p.run m w := by
  refine verdict_seq.trans ⟨fun h => ?_, fun h => ?_⟩
  · refine verdict_conseq h ?_ ?_
    · rintro (e | (e | a)) m' w' hr <;> exact hr
    · rintro (e | r) m' w' hr
      · exact hr
      · exact (wp_conclude (r := r.mapError wrap)).mp hr
  · refine verdict_conseq h ?_ ?_
    · rintro (e | (e | a)) m' w' hr <;> exact hr
    · rintro (e | r) m' w' hr
      · exact hr
      · exact (wp_conclude (r := r.mapError wrap)).mpr hr

end Act

/-! ## A part of the memory -/

theorem verdict_zoom_program (ℓ : Lens M N) {p : Program E N α} {Q R : α → M → W → Prop} :
    verdict ans A K Q R (p.zoom ℓ) m w ↔
      verdict ans A K (fun a n w' => Q a (ℓ.put n m) w') (fun a n w' => R a (ℓ.put n m) w') p
        (ℓ.get m) w := by
  induction p generalizing m w with
  | pure a =>
      show Q a m w ↔ Q a (ℓ.put (ℓ.get m) m) w
      rw [ℓ.put_get]
  | get k ih => exact ih (ℓ.get m)
  | set n p ih =>
      refine (ih (m := ℓ.put n m)).trans ?_
      simp only [ℓ.get_put, ℓ.put_put]
      exact Iff.rfl
  | call o k ih =>
      refine forall_congr' fun c => imp_congr_right fun _ => and_congr ?_ ?_
      · exact imp_congr_right fun _ => ih _
      · refine imp_congr_right fun _ => (wp_zoom_program ℓ).trans ?_
        exact Iff.rfl

/-- A program without memory, inside one that has some. -/
theorem verdict_zoom_nothing {p : Act E Unit ε α} {Q R : Except ε α → M → W → Prop} :
    verdict ans A K Q R (zoom Lens.nothing p).run m w ↔
      verdict ans A K (fun r _ w' => Q r m w') (fun r _ w' => R r m w') p.run () w :=
  verdict_zoom_program Lens.nothing

end Yirang.Effect
