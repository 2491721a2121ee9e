/-
# `Yirang.Effect.Wp` — preconditions, boundaries and footprints

`wp ans A B p Q m w`: every execution of `p` from `(m, w)` with choices in
`A` satisfies `B` in front of each of its calls and `Q` at its end.  `B` is
what a kill meets: whoever stops the program between two calls finds a world
at such a boundary.  `wp` is computed from the program, so a proof follows
the text of the function it is about.

Two rules carry most proofs.

    wp_conseq      a function is entered through what was proved of it
    wp_of_uses     a program whose calls all lie in a footprint preserves
                   what every call of the footprint preserves

The second is one induction on programs, done here once.  `wp_of_stays` is
the same with an invariant of the memory.
-/
import Yirang.Effect.Program

namespace Yirang.Effect

variable {E : Sig} {M N W C ε ε' α β : Type} {ans : Answers E W C}
  {A A' : W → E.Op → C → Prop} {B B' : M → W → E.Op → Prop}

def wp (ans : Answers E W C) (A : W → E.Op → C → Prop) (B : M → W → E.Op → Prop) :
    Program E M α → (α → M → W → Prop) → M → W → Prop
  | .pure a, Q, m, w => Q a m w
  | .get k, Q, m, w => wp ans A B (k m) Q m w
  | .set m' p, Q, _, w => wp ans A B p Q m' w
  | .call o k, Q, m, w =>
      B m w o ∧ ∀ c, A w o c → wp ans A B (k (ans c o w).1) Q m (ans c o w).2

/-- What `B` and `Q` say of the place where a program was found. -/
def Outcome.Meets (B : M → W → E.Op → Prop) (Q : α → M → W → Prop) (w : W) :
    Outcome E M α → Prop
  | .done a m => Q a m w
  | .before m o => B m w o

/-- `wp` says of every execution what it claims. -/
theorem wp_sound {p : Program E M α} {Q : α → M → W → Prop} {m : M} {w w' : W}
    {out : Outcome E M α} (he : Exec ans A p m w out w') (h : wp ans A B p Q m w) :
    out.Meets B Q w' := by
  induction he with
  | pure a m w => exact h
  | get _ ih => exact ih h
  | set _ ih => exact ih h
  | stop o k m w => exact h.1
  | call hc _ ih => exact ih (h.2 _ hc)

theorem wp_done {p : Program E M α} {Q : α → M → W → Prop} {m m' : M} {w w' : W} {a : α}
    (he : Exec ans A p m w (.done a m') w') (h : wp ans A B p Q m w) : Q a m' w' :=
  wp_sound he h

theorem wp_before {p : Program E M α} {Q : α → M → W → Prop} {m m' : M} {w w' : W} {o : E.Op}
    (he : Exec ans A p m w (.before m' o) w') (h : wp ans A B p Q m w) : B m' w' o :=
  wp_sound he h

/-- Nothing that `wp` does not claim: it is the weakest such precondition. -/
theorem wp_of_exec {Q : α → M → W → Prop} (p : Program E M α) {m : M} {w : W}
    (h : ∀ out w', Exec ans A p m w out w' → out.Meets B Q w') : wp ans A B p Q m w := by
  induction p generalizing m w with
  | pure a => exact h _ _ (.pure a m w)
  | get k ih => exact ih m fun out w' he => h out w' (.get he)
  | set m' p ih => exact ih fun out w' he => h out w' (.set he)
  | call o k ih =>
      refine ⟨h _ _ (.stop o k m w), fun c hc => ?_⟩
      exact ih _ fun out w' he => h out w' (.call hc he)

/-! ## Structural rules -/

theorem wp_mono (hA : ∀ w o c, A' w o c → A w o c) (hB : ∀ m w o, B m w o → B' m w o)
    {Q Q' : α → M → W → Prop} (hQ : ∀ a m w, Q a m w → Q' a m w) {p : Program E M α}
    {m : M} {w : W} (h : wp ans A B p Q m w) : wp ans A' B' p Q' m w := by
  induction p generalizing m w with
  | pure a => exact hQ a m w h
  | get k ih => exact ih m h
  | set m' p ih => exact ih h
  | call o k ih => exact ⟨hB m w o h.1, fun c hc => ih _ (h.2 c (hA w o c hc))⟩

theorem wp_conseq {p : Program E M α} {Q Q' : α → M → W → Prop} {m : M} {w : W}
    (h : wp ans A B p Q m w) (hQ : ∀ a m' w', Q a m' w' → Q' a m' w') :
    wp ans A B p Q' m w :=
  wp_mono (fun _ _ _ h => h) (fun _ _ _ h => h) hQ h

theorem wp_and {p : Program E M α} {Q Q' : α → M → W → Prop} {m : M} {w : W}
    (h : wp ans A B p Q m w) (h' : wp ans A B' p Q' m w) :
    wp ans A (fun m w o => B m w o ∧ B' m w o) p (fun a m w => Q a m w ∧ Q' a m w) m w := by
  induction p generalizing m w with
  | pure a => exact ⟨h, h'⟩
  | get k ih => exact ih m h h'
  | set m' p ih => exact ih h h'
  | call o k ih => exact ⟨⟨h.1, h'.1⟩, fun c hc => ih _ (h.2 c hc) (h'.2 c hc)⟩

/-- Every place is fit to be killed in. -/
def Anywhere : M → W → E.Op → Prop := fun _ _ _ => True

/-- What was proved without regard to kills joins what was proved with it. -/
theorem wp_both {p : Program E M α} {Q Q' : α → M → W → Prop} {m : M} {w : W}
    (h : wp ans A Anywhere p Q m w) (h' : wp ans A B p Q' m w) :
    wp ans A B p (fun a m w => Q a m w ∧ Q' a m w) m w :=
  wp_mono (fun _ _ _ h => h) (fun _ _ _ h => h.2) (fun _ _ _ h => h) (wp_and h h')

theorem wp_bind {p : Program E M α} {f : α → Program E M β} {Q : β → M → W → Prop}
    {m : M} {w : W} :
    wp ans A B (p >>= f) Q m w ↔
      wp ans A B p (fun a m' w' => wp ans A B (f a) Q m' w') m w := by
  induction p generalizing m w with
  | pure a => exact Iff.rfl
  | get k ih => exact ih m
  | set m' p ih => exact ih
  | call o k ih =>
      exact and_congr_right fun _ => forall_congr' fun c => imp_congr_right fun _ => ih _

/-! ## Programs with errors -/

/-- The rest of a sequence, after a part that may have failed. -/
def andThen (ans : Answers E W C) (A : W → E.Op → C → Prop) (B : M → W → E.Op → Prop)
    (f : α → Act E M ε β) (Q : Except ε β → M → W → Prop) : Except ε α → M → W → Prop
  | .ok a, m, w => wp ans A B (f a).run Q m w
  | .error e, m, w => Q (.error e) m w

theorem wp_seq {p : Act E M ε α} {f : α → Act E M ε β} {Q : Except ε β → M → W → Prop}
    {m : M} {w : W} :
    wp ans A B (p >>= f).run Q m w ↔ wp ans A B p.run (andThen ans A B f Q) m w := by
  rw [ExceptT.run_bind, wp_bind]
  constructor
  · intro h
    refine wp_conseq h ?_
    rintro (e | a) m' w' h'
    · exact h'
    · exact h'
  · intro h
    refine wp_conseq h ?_
    rintro (e | a) m' w' h'
    · exact h'
    · exact h'

/-- Enter the first part of a sequence through what was proved of it. -/
theorem wp_seq_of {p : Act E M ε α} {f : α → Act E M ε β} {P : Except ε α → M → W → Prop}
    {Q : Except ε β → M → W → Prop} {m : M} {w : W} (h : wp ans A B p.run P m w)
    (hok : ∀ a m' w', P (.ok a) m' w' → wp ans A B (f a).run Q m' w')
    (herr : ∀ e m' w', P (.error e) m' w' → Q (.error e) m' w') :
    wp ans A B (p >>= f).run Q m w := by
  refine wp_seq.mpr (wp_conseq h ?_)
  rintro (e | a) m' w' hp
  · exact herr e m' w' hp
  · exact hok a m' w' hp

section Act

variable {Q : Except ε α → M → W → Prop} {m : M} {w : W}

@[simp] theorem wp_ok {a : α} :
    wp ans A B (pure a : Act E M ε α).run Q m w ↔ Q (.ok a) m w := Iff.rfl

@[simp] theorem wp_throw {e : ε} :
    wp ans A B (throw e : Act E M ε α).run Q m w ↔ Q (.error e) m w := Iff.rfl

@[simp] theorem wp_ask {o : E.Op} {Q : Except ε (E.Res o) → M → W → Prop} :
    wp ans A B (ask o : Act E M ε (E.Res o)).run Q m w ↔
      B m w o ∧ ∀ c, A w o c → Q (.ok (ans c o w).1) m (ans c o w).2 := Iff.rfl

@[simp] theorem wp_load {Q : Except ε M → M → W → Prop} :
    wp ans A B (load : Act E M ε M).run Q m w ↔ Q (.ok m) m w := Iff.rfl

theorem wp_load_seq {k : M → Act E M ε α} :
    wp ans A B (load >>= k).run Q m w ↔ wp ans A B (k m).run Q m w := Iff.rfl

@[simp] theorem wp_store {m' : M} {Q : Except ε Unit → M → W → Prop} :
    wp ans A B (store m' : Act E M ε Unit).run Q m w ↔ Q (.ok ()) m' w := Iff.rfl

theorem wp_store_seq {m' : M} {k : Unit → Act E M ε α} :
    wp ans A B (store m' >>= k).run Q m w ↔ wp ans A B (k ()).run Q m' w := Iff.rfl

theorem wp_require {c : Bool} {e : ε} {Q : Except ε Unit → M → W → Prop} :
    wp ans A B (require c e : Act E M ε Unit).run Q m w ↔
      if c then Q (.ok ()) m w else Q (.error e) m w := by
  cases c <;> exact Iff.rfl

theorem wp_require_seq {c : Bool} {e : ε} {k : Unit → Act E M ε α} :
    wp ans A B (require c e >>= k).run Q m w ↔
      if c then wp ans A B (k ()).run Q m w else Q (.error e) m w := by
  cases c <;> exact Iff.rfl

theorem wp_conclude {r : Except ε α} :
    wp ans A B (conclude r : Act E M ε α).run Q m w ↔ Q r m w := by
  cases r <;> exact Iff.rfl

theorem wp_provided {c : Bool} {p : Act E M ε Unit} {Q : Except ε Unit → M → W → Prop} :
    wp ans A B (provided c p).run Q m w ↔
      if c then wp ans A B p.run Q m w else Q (.ok ()) m w := by
  cases c <;> exact Iff.rfl

/-- The answer to a call, or its error wrapped. -/
def settled {δ : Type} (wrap : δ → ε) (Q : Except ε α → M → W → Prop) :
    Except ε (Except δ α) → M → W → Prop
  | .ok r, m, w => Q (r.mapError wrap) m w
  | .error e, m, w => Q (.error e) m w

theorem wp_orFail {δ : Type} {p : Act E M ε (Except δ α)} {wrap : δ → ε} :
    wp ans A B (orFail p wrap).run Q m w ↔ wp ans A B p.run (settled wrap Q) m w := by
  refine wp_seq.trans ⟨fun h => wp_conseq h ?_, fun h => wp_conseq h ?_⟩
  · rintro (e | r) m' w' hr
    · exact hr
    · exact (wp_conclude (r := r.mapError wrap)).mp hr
  · rintro (e | r) m' w' hr
    · exact hr
    · exact (wp_conclude (r := r.mapError wrap)).mpr hr

theorem wp_attempt {p : Act E M ε α} {Q : Except ε' (Except ε α) → M → W → Prop} :
    wp ans A B (attempt p : Act E M ε' (Except ε α)).run Q m w ↔
      wp ans A B p.run (fun r m' w' => Q (.ok r) m' w') m w :=
  wp_bind

theorem wp_rewording {f : ε → ε'} {p : Act E M ε α} {Q : Except ε' α → M → W → Prop} :
    wp ans A B (rewording f p).run Q m w ↔
      wp ans A B p.run (fun r m' w' => Q (r.mapError f) m' w') m w :=
  wp_bind

end Act

/-! ## A part of the memory -/

theorem wp_zoom_program (ℓ : Lens M N) {p : Program E N α} {Q : α → M → W → Prop}
    {m : M} {w : W} :
    wp ans A B (p.zoom ℓ) Q m w ↔
      wp ans A (fun n w o => B (ℓ.put n m) w o) p (fun a n w' => Q a (ℓ.put n m) w')
        (ℓ.get m) w := by
  induction p generalizing m w with
  | pure a =>
      show Q a m w ↔ Q a (ℓ.put (ℓ.get m) m) w
      rw [ℓ.put_get]
  | get k ih => exact ih (ℓ.get m)
  | set n p ih =>
      refine (ih (m := ℓ.put n m)).trans ?_
      simp only [ℓ.get_put, ℓ.put_put]
      exact Iff.rfl
  | call o k ih =>
      show (B m w o ∧ _) ↔ (B (ℓ.put (ℓ.get m) m) w o ∧ _)
      rw [ℓ.put_get]
      exact and_congr_right fun _ => forall_congr' fun c => imp_congr_right fun _ => ih _

/-- A program without memory, inside one that has some. -/
theorem wp_zoom_nothing {p : Act E Unit ε α} {Q : Except ε α → M → W → Prop} {m : M} {w : W} :
    wp ans A B (zoom Lens.nothing p).run Q m w ↔
      wp ans A (fun _ w o => B m w o) p.run (fun r _ w' => Q r m w') () w :=
  wp_zoom_program Lens.nothing

/-! ## What can happen

`can` is the other side of `wp`: some choices lead to an end that satisfies
`Q`.  It is computed from the program in the same way. -/

def can (ans : Answers E W C) (A : W → E.Op → C → Prop) :
    Program E M α → (α → M → W → Prop) → M → W → Prop
  | .pure a, Q, m, w => Q a m w
  | .get k, Q, m, w => can ans A (k m) Q m w
  | .set m' p, Q, _, w => can ans A p Q m' w
  | .call o k, Q, m, w => ∃ c, A w o c ∧ can ans A (k (ans c o w).1) Q m (ans c o w).2

theorem can_exec {Q : α → M → W → Prop} {p : Program E M α} {m : M} {w : W}
    (h : can ans A p Q m w) : ∃ a m' w', Exec ans A p m w (.done a m') w' ∧ Q a m' w' := by
  induction p generalizing m w with
  | pure a => exact ⟨a, m, w, .pure a m w, h⟩
  | get k ih =>
      obtain ⟨a, m', w', he, hq⟩ := ih m h
      exact ⟨a, m', w', .get he, hq⟩
  | set m₀ p ih =>
      obtain ⟨a, m', w', he, hq⟩ := ih h
      exact ⟨a, m', w', .set he, hq⟩
  | call o k ih =>
      obtain ⟨c, hc, h⟩ := h
      obtain ⟨a, m', w', he, hq⟩ := ih _ h
      exact ⟨a, m', w', .call hc he, hq⟩

theorem can_conseq {Q Q' : α → M → W → Prop} {p : Program E M α} {m : M} {w : W}
    (h : can ans A p Q m w) (hQ : ∀ a m' w', Q a m' w' → Q' a m' w') : can ans A p Q' m w := by
  induction p generalizing m w with
  | pure a => exact hQ a m w h
  | get k ih => exact ih m h
  | set m' p ih => exact ih h
  | call o k ih =>
      obtain ⟨c, hc, h⟩ := h
      exact ⟨c, hc, ih _ h⟩

/-- Some run ends, and what holds of every run holds of it. -/
theorem can_of_wp (hA : ∀ w o, ∃ c, A w o c) {Q : α → M → W → Prop} {p : Program E M α} {m : M}
    {w : W} (h : wp ans A B p Q m w) : can ans A p Q m w := by
  induction p generalizing m w with
  | pure a => exact h
  | get k ih => exact ih m h
  | set m' p ih => exact ih h
  | call o k ih =>
      obtain ⟨c, hc⟩ := hA w o
      exact ⟨c, hc, ih _ (h.2 c hc)⟩

theorem can_bind {p : Program E M α} {f : α → Program E M β} {Q : β → M → W → Prop} {m : M}
    {w : W} :
    can ans A (p >>= f) Q m w ↔ can ans A p (fun a m' w' => can ans A (f a) Q m' w') m w := by
  induction p generalizing m w with
  | pure a => exact Iff.rfl
  | get k ih => exact ih m
  | set m' p ih => exact ih
  | call o k ih => exact exists_congr fun c => and_congr_right fun _ => ih _

/-- The first part of a sequence can end well, and the rest go on from
there. -/
theorem can_seq {p : Act E M ε α} {f : α → Act E M ε β} {Q : Except ε β → M → W → Prop} {m : M}
    {w : W}
    (h : can ans A p.run (fun r m' w' => ∃ a, r = .ok a ∧ can ans A (f a).run Q m' w') m w) :
    can ans A (p >>= f).run Q m w := by
  rw [ExceptT.run_bind, can_bind]
  refine can_conseq h ?_
  rintro r m' w' ⟨a, rfl, hf⟩
  exact hf

/-- The first part of a sequence can fail. -/
theorem can_seq_error {p : Act E M ε α} {f : α → Act E M ε β} {Q : Except ε β → M → W → Prop}
    {m : M} {w : W}
    (h : can ans A p.run (fun r m' w' => ∃ e, r = .error e ∧ Q (.error e) m' w') m w) :
    can ans A (p >>= f).run Q m w := by
  rw [ExceptT.run_bind, can_bind]
  refine can_conseq h ?_
  rintro r m' w' ⟨e, rfl, hq⟩
  exact hq

theorem can_attempt {p : Act E M ε α} {Q : Except ε' (Except ε α) → M → W → Prop} {m : M}
    {w : W} :
    can ans A (attempt p : Act E M ε' (Except ε α)).run Q m w ↔
      can ans A p.run (fun r m' w' => Q (.ok r) m' w') m w :=
  can_bind

/-! ## Footprints -/

/-- Every call the program can ever make lies in `S`. -/
def Uses (S : E.Op → Prop) : Program E M α → Prop
  | .pure _ => True
  | .get k => ∀ m, Uses S (k m)
  | .set _ p => Uses S p
  | .call o k => S o ∧ ∀ r, Uses S (k r)

theorem Uses.mono {S S' : E.Op → Prop} (h : ∀ o, S o → S' o) {p : Program E M α}
    (hp : Uses S p) : Uses S' p := by
  induction p with
  | pure a => trivial
  | get k ih => exact fun m => ih m (hp m)
  | set m p ih => exact ih hp
  | call o k ih => exact ⟨h o hp.1, fun r => ih r (hp.2 r)⟩

theorem uses_both {S S' : E.Op → Prop} {p : Program E M α} (h : Uses S p) (h' : Uses S' p) :
    Uses (fun o => S o ∧ S' o) p := by
  induction p with
  | pure a => trivial
  | get k ih => exact fun m => ih m (h m) (h' m)
  | set m p ih => exact ih h h'
  | call o k ih => exact ⟨⟨h.1, h'.1⟩, fun r => ih r (h.2 r) (h'.2 r)⟩

theorem Uses.bind {S : E.Op → Prop} {p : Program E M α} {f : α → Program E M β}
    (hp : Uses S p) (hf : ∀ a, Uses S (f a)) : Uses S (p >>= f) := by
  induction p with
  | pure a => exact hf a
  | get k ih => exact fun m => ih m (hp m)
  | set m p ih => exact ih hp
  | call o k ih => exact ⟨hp.1, fun r => ih r (hp.2 r)⟩

theorem Uses.seq {S : E.Op → Prop} {p : Act E M ε α} {f : α → Act E M ε β}
    (hp : Uses S p.run) (hf : ∀ a, Uses S (f a).run) : Uses S (p >>= f).run := by
  rw [ExceptT.run_bind]
  refine Uses.bind hp ?_
  rintro (e | a)
  · trivial
  · exact hf a

theorem Uses.load_seq {S : E.Op → Prop} {k : M → Act E M ε α}
    (hk : ∀ m, Uses S (k m).run) : Uses S (load >>= k).run := hk

theorem Uses.store_seq {S : E.Op → Prop} {m : M} {k : Unit → Act E M ε α}
    (hk : Uses S (k ()).run) : Uses S (store m >>= k).run := hk

theorem Uses.attempt {S : E.Op → Prop} {p : Act E M ε α} (hp : Uses S p.run) :
    Uses S (attempt p : Act E M ε' (Except ε α)).run :=
  Uses.bind hp fun _ => trivial

theorem Uses.rewording {S : E.Op → Prop} {f : ε → ε'} {p : Act E M ε α}
    (hp : Uses S p.run) : Uses S (rewording f p).run :=
  Uses.bind hp fun _ => trivial

theorem Uses.require {S : E.Op → Prop} {c : Bool} {e : ε} :
    Uses S (require c e : Act E M ε Unit).run := by
  cases c <;> trivial

theorem Uses.conclude {S : E.Op → Prop} {r : Except ε α} :
    Uses S (conclude r : Act E M ε α).run := by
  cases r <;> trivial

theorem Uses.seq_conclude {S : E.Op → Prop} {r : Except ε α} {f : α → Act E M ε β}
    (hf : ∀ a, r = .ok a → Uses S (f a).run) :
    Uses S ((Effect.conclude r : Act E M ε α) >>= f).run := by
  cases r with
  | error e => trivial
  | ok a => exact hf a rfl

theorem Uses.ite {S : E.Op → Prop} {c : Prop} [Decidable c] {p q : Act E M ε α}
    (hp : c → Uses S p.run) (hq : ¬ c → Uses S q.run) :
    Uses S (if c then p else q : Act E M ε α).run := by
  split
  · exact hp ‹_›
  · exact hq ‹_›

theorem Uses.orFail {S : E.Op → Prop} {δ : Type} {p : Act E M ε (Except δ α)}
    {wrap : δ → ε} (hp : Uses S p.run) : Uses S (orFail p wrap).run :=
  Uses.seq hp fun _ => Uses.conclude

theorem Uses.provided {S : E.Op → Prop} {c : Bool} {p : Act E M ε Unit}
    (hp : Uses S p.run) : Uses S (provided c p).run := by
  cases c
  · trivial
  · exact hp

theorem Uses.ask {S : E.Op → Prop} {o : E.Op} (ho : S o) :
    Uses S (ask o : Act E M ε (E.Res o)).run :=
  ⟨ho, fun _ => trivial⟩

theorem Uses.zoom_program {S : E.Op → Prop} (ℓ : Lens M N) {p : Program E N α}
    (hp : Uses S p) : Uses S (p.zoom ℓ) := by
  induction p with
  | pure a => trivial
  | get k ih => exact fun m => ih (ℓ.get m) (hp (ℓ.get m))
  | set n p ih => exact fun _ => ih hp
  | call o k ih => exact ⟨hp.1, fun r => ih r (hp.2 r)⟩

theorem Uses.zoom {S : E.Op → Prop} {ℓ : Lens M N} {p : Act E N ε α}
    (hp : Uses S p.run) : Uses S (zoom ℓ p).run :=
  Uses.zoom_program ℓ hp

/-- A program preserves what its calls preserve. -/
theorem wp_of_uses {S : E.Op → Prop} {R : W → Prop}
    (hR : ∀ w o c, S o → A w o c → R w → R (ans c o w).2)
    (hB : ∀ m w o, S o → R w → B m w o) {p : Program E M α} {m : M} {w : W}
    (hp : Uses S p) (h : R w) : wp ans A B p (fun _ _ w' => R w') m w := by
  induction p generalizing m w with
  | pure a => exact h
  | get k ih => exact ih m (hp m) h
  | set m' p ih => exact ih hp h
  | call o k ih =>
      exact ⟨hB m w o hp.1 h, fun c hc => ih _ (hp.2 _) (hR w o c hp.1 hc h)⟩

/-! ## Footprints on calls and memory -/

/-- Every call lies in `S`, and every memory the program leaves satisfies
`I`, if those it finds do. -/
def Stays (S : E.Op → Prop) (I : M → Prop) : Program E M α → Prop
  | .pure _ => True
  | .get k => ∀ m, I m → Stays S I (k m)
  | .set m p => I m ∧ Stays S I p
  | .call o k => S o ∧ ∀ r, Stays S I (k r)

namespace Stays

variable {S S' : E.Op → Prop} {I : M → Prop}

theorem mono (h : ∀ o, S o → S' o) {p : Program E M α} (hp : Stays S I p) :
    Stays S' I p := by
  induction p with
  | pure a => trivial
  | get k ih => exact fun m hm => ih m (hp m hm)
  | set m p ih => exact ⟨hp.1, ih hp.2⟩
  | call o k ih => exact ⟨h o hp.1, fun r => ih r (hp.2 r)⟩

theorem bind {p : Program E M α} {f : α → Program E M β} (hp : Stays S I p)
    (hf : ∀ a, Stays S I (f a)) : Stays S I (p >>= f) := by
  induction p with
  | pure a => exact hf a
  | get k ih => exact fun m hm => ih m (hp m hm)
  | set m p ih => exact ⟨hp.1, ih hp.2⟩
  | call o k ih => exact ⟨hp.1, fun r => ih r (hp.2 r)⟩

theorem seq {p : Act E M ε α} {f : α → Act E M ε β} (hp : Stays S I p.run)
    (hf : ∀ a, Stays S I (f a).run) : Stays S I (p >>= f).run := by
  rw [ExceptT.run_bind]
  refine bind hp ?_
  rintro (e | a)
  · trivial
  · exact hf a

theorem ok {a : α} : Stays S I (Pure.pure a : Act E M ε α).run := trivial

theorem load_seq {k : M → Act E M ε α} (hk : ∀ m, I m → Stays S I (k m).run) :
    Stays S I (load >>= k).run := hk

theorem store {m : M} (hm : I m) : Stays S I (Effect.store m : Act E M ε Unit).run :=
  ⟨hm, trivial⟩

theorem store_seq {m : M} {k : Unit → Act E M ε α} (hm : I m) (hk : Stays S I (k ()).run) :
    Stays S I (Effect.store m >>= k).run :=
  ⟨hm, hk⟩

theorem ask {o : E.Op} (ho : S o) : Stays S I (Effect.ask o : Act E M ε (E.Res o)).run :=
  ⟨ho, fun _ => trivial⟩

theorem attempt {p : Act E M ε α} (hp : Stays S I p.run) :
    Stays S I (Effect.attempt p : Act E M ε' (Except ε α)).run :=
  bind hp fun _ => trivial

theorem conclude {r : Except ε α} : Stays S I (Effect.conclude r : Act E M ε α).run := by
  cases r <;> trivial

theorem ite {c : Prop} [Decidable c] {p q : Act E M ε α} (hp : c → Stays S I p.run)
    (hq : ¬ c → Stays S I q.run) : Stays S I (if c then p else q : Act E M ε α).run := by
  split
  · exact hp ‹_›
  · exact hq ‹_›

/-- Of a program over a part of the memory nothing need be known, where the
part does not matter to `I`. -/
theorem zoom_program (ℓ : Lens M N) (hI : ∀ n m, I m → I (ℓ.put n m)) {p : Program E N α}
    (hp : Uses S p) : Stays S I (p.zoom ℓ) := by
  induction p with
  | pure a => trivial
  | get k ih => exact fun m hm => ih (ℓ.get m) (hp (ℓ.get m))
  | set n p ih => exact fun m hm => ⟨hI n m hm, ih hp⟩
  | call o k ih => exact ⟨hp.1, fun r => ih r (hp.2 r)⟩

end Stays

/-- A program preserves what its calls preserve, and what it keeps of its
memory. -/
theorem wp_of_stays {S : E.Op → Prop} {I : M → Prop} {R : W → Prop}
    (hR : ∀ w o c, S o → A w o c → R w → R (ans c o w).2)
    (hB : ∀ m w o, S o → I m → R w → B m w o) {p : Program E M α} {m : M} {w : W}
    (hp : Stays S I p) (hm : I m) (h : R w) :
    wp ans A B p (fun _ m' w' => I m' ∧ R w') m w := by
  induction p generalizing m w with
  | pure a => exact ⟨hm, h⟩
  | get k ih => exact ih m (hp m hm) hm h
  | set m' p ih => exact ih hp.2 hp.1 h
  | call o k ih =>
      exact ⟨hB m w o hp.1 hm h, fun c hc => ih _ (hp.2 _) hm (hR w o c hp.1 hc h)⟩

end Yirang.Effect
