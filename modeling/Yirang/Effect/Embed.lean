/-
# `Yirang.Effect.Embed` — a program among programs that can do more

A component is written over the calls it needs.  Where it becomes part of a
program that makes other calls as well, its own are some of those: an
`Embedding` names them, and `Program.embed` is the same program over the
larger signature.

    Extends       the larger world answers the embedded calls as the smaller
                  one does, on the part that a lens names
    wp_embed      what is known of the component is known of it there, and
                  the rest of the world is as it was
-/
import Yirang.Effect.Wp

namespace Yirang.Effect

variable {E F : Sig} {M W V C D ε α β : Type}

/-- The calls of `E` among those of `F`. -/
structure Embedding (E F : Sig) where
  op : E.Op → F.Op
  res : ∀ o, F.Res (op o) → E.Res o

def Program.embed (i : Embedding E F) : Program E M α → Program F M α
  | .pure a => .pure a
  | .get k => .get fun m => (k m).embed i
  | .set m p => .set m (p.embed i)
  | .call o k => .call (i.op o) fun r => (k (i.res o r)).embed i

def embed (i : Embedding E F) (p : Act E M ε α) : Act F M ε α := ExceptT.mk (p.run.embed i)

/-- An embedded call sees and changes only its part of the world, as `ans`
says. -/
structure Extends (i : Embedding E F) (ans : Answers E W C) (ans' : Answers F V D)
    (ℓ : Lens V W) (γ : D → C) : Prop where
  res : ∀ d o v, i.res o (ans' d (i.op o) v).1 = (ans (γ d) o (ℓ.get v)).1
  world : ∀ d o v, (ans' d (i.op o) v).2 = ℓ.put (ans (γ d) o (ℓ.get v)).2 v

section

variable {i : Embedding E F} {ans : Answers E W C} {ans' : Answers F V D} {ℓ : Lens V W}
  {γ : D → C} {A : W → E.Op → C → Prop} {A' : V → F.Op → D → Prop}
  {B' : M → V → F.Op → Prop}

theorem wp_embed_program (hi : Extends i ans ans' ℓ γ)
    (hA : ∀ v o d, A' v (i.op o) d → A (ℓ.get v) o (γ d)) {p : Program E M α}
    {Q : α → M → V → Prop} {m : M} {v : V}
    (h : wp ans A (fun m w o => B' m (ℓ.put w v) (i.op o)) p (fun a m w => Q a m (ℓ.put w v))
      m (ℓ.get v)) :
    wp ans' A' B' (p.embed i) Q m v := by
  induction p generalizing m v with
  | pure a =>
      have hq : Q a m (ℓ.put (ℓ.get v) v) := h
      rw [ℓ.put_get] at hq
      exact hq
  | get k ih => exact ih m h
  | set m' p ih => exact ih h
  | call o k ih =>
      have hb : B' m (ℓ.put (ℓ.get v) v) (i.op o) := h.1
      rw [ℓ.put_get] at hb
      refine ⟨hb, fun d hd => ?_⟩
      have hk := h.2 (γ d) (hA v o d hd)
      refine ih (i.res o (ans' d (i.op o) v).1) ?_
      rw [hi.res d o v, hi.world d o v, ℓ.get_put]
      -- replacing the part twice is replacing it once
      simp only [ℓ.put_put]
      exact hk

theorem wp_embed (hi : Extends i ans ans' ℓ γ)
    (hA : ∀ v o d, A' v (i.op o) d → A (ℓ.get v) o (γ d)) {p : Act E M ε α}
    {Q : Except ε α → M → V → Prop} {m : M} {v : V}
    (h : wp ans A (fun m w o => B' m (ℓ.put w v) (i.op o)) p.run
      (fun r m w => Q r m (ℓ.put w v)) m (ℓ.get v)) :
    wp ans' A' B' (embed i p).run Q m v :=
  wp_embed_program hi hA h

/-- The calls of an embedded program are embedded calls. -/
theorem Uses.embed_program {S : E.Op → Prop} {S' : F.Op → Prop} (hS : ∀ o, S o → S' (i.op o))
    {p : Program E M α} (hp : Uses S p) : Uses S' (p.embed i) := by
  induction p with
  | pure a => trivial
  | get k ih => exact fun m => ih m (hp m)
  | set m p ih => exact ih hp
  | call o k ih => exact ⟨hS o hp.1, fun r => ih _ (hp.2 (i.res o r))⟩

theorem Uses.embed {S : E.Op → Prop} {S' : F.Op → Prop} (hS : ∀ o, S o → S' (i.op o))
    {p : Act E M ε α} (hp : Uses S p.run) : Uses S' (embed i p).run :=
  Uses.embed_program hS hp

theorem Stays.embed_program {S : E.Op → Prop} {S' : F.Op → Prop} {I : M → Prop}
    (hS : ∀ o, S o → S' (i.op o)) {p : Program E M α} (hp : Stays S I p) :
    Stays S' I (p.embed i) := by
  induction p with
  | pure a => trivial
  | get k ih => exact fun m hm => ih m (hp m hm)
  | set m p ih => exact ⟨hp.1, ih hp.2⟩
  | call o k ih => exact ⟨hS o hp.1, fun r => ih _ (hp.2 (i.res o r))⟩

/-- Any program makes some calls. -/
theorem uses_true (p : Program E M α) : Uses (fun _ => True) p := by
  induction p with
  | pure a => trivial
  | get k ih => exact fun m => ih m
  | set m p ih => exact ih
  | call o k ih => exact ⟨trivial, fun r => ih r⟩

end

end Yirang.Effect
