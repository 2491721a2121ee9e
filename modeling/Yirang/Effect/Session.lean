/-
# `Yirang.Effect.Session` — lifetimes of a program that serves calls

A service holds a memory and runs one program for each call it is given.

    Life       one lifetime: fresh memory, then call after call
    Runs       lifetime after lifetime: the service is killed, its memory is
               lost, the world stays, and it starts again
    Chronicle  the same, with the calls that returned in all lifetimes

Whether a call is given may depend on where the service stands (`G`), and
whether it is killed in front of a call of its own on what it finds there
(`K`).  Each notion has its invariant rule: what one call preserves, stated
with `wp`, holds of every state a run reaches.
-/
import Yirang.Effect.Wp

namespace Yirang.Effect

variable {E : Sig} {M W C Call Ret β : Type}

/-- A call that was served: where it was made, and what it returned. -/
structure Event (Call W Ret : Type) where
  call : Call
  before : W
  ret : Ret

/-- A service: its memory at birth, what it does first, and its calls. -/
structure Service (E : Sig) (M Call Ret : Type) where
  fresh : M
  boot : Program E M Ret
  serve : Call → Program E M Ret

variable {ans : Answers E W C} {A : W → E.Op → C → Prop} {B K : M → W → E.Op → Prop}
  {G : M → W → Call → Prop} {S : Service E M Call Ret} {w₀ : W}

/-! ## One lifetime -/

/-- What one lifetime can reach, and the calls it served, newest first. -/
inductive Life (ans : Answers E W C) (A : W → E.Op → C → Prop) (S : Service E M Call Ret)
    (w₀ : W) : M → W → List (Event Call W Ret) → Prop
  | fresh : Life ans A S w₀ S.fresh w₀ []
  | call {m m' : M} {w w' : W} {h : List (Event Call W Ret)} {r : Ret} (c : Call) :
      Life ans A S w₀ m w h → Exec ans A (S.serve c) m w (.done r m') w' →
      Life ans A S w₀ m' w' (⟨c, w, r⟩ :: h)

/-- What every call preserves holds all through a lifetime. -/
theorem Life.invariant {I : M → W → List (Event Call W Ret) → Prop}
    (h0 : I S.fresh w₀ [])
    (hstep : ∀ m w h c, I m w h →
      wp ans A B (S.serve c) (fun r m' w' => I m' w' (⟨c, w, r⟩ :: h)) m w)
    {m : M} {w : W} {h : List (Event Call W Ret)} (hl : Life ans A S w₀ m w h) : I m w h := by
  induction hl with
  | fresh => exact h0
  | call c _ he ih =>
      have h := wp_done he (hstep _ _ _ c ih)
      exact h

/-! ## One lifetime after another -/

/-- Whether the service is running, and with which memory. -/
inductive Phase (M : Type) where
  | down
  | up (m : M)

/-- What the service can reach when it may be killed at the boundaries in
`K` and between calls, and always begins with `boot`. -/
inductive Runs (ans : Answers E W C) (A : W → E.Op → C → Prop) (K : M → W → E.Op → Prop)
    (G : M → W → Call → Prop) (S : Service E M Call Ret) (w₀ : W) : Phase M → W → Prop
  | first : Runs ans A K G S w₀ .down w₀
  | boot {m : M} {w w' : W} {r : Ret} : Runs ans A K G S w₀ .down w →
      Exec ans A S.boot S.fresh w (.done r m) w' → Runs ans A K G S w₀ (.up m) w'
  | bootKilled {m : M} {w w' : W} {o : E.Op} : Runs ans A K G S w₀ .down w →
      Exec ans A S.boot S.fresh w (.before m o) w' → K m w' o → Runs ans A K G S w₀ .down w'
  | call {m m' : M} {w w' : W} {r : Ret} (c : Call) : Runs ans A K G S w₀ (.up m) w →
      G m w c → Exec ans A (S.serve c) m w (.done r m') w' → Runs ans A K G S w₀ (.up m') w'
  | killed {m m' : M} {w w' : W} {o : E.Op} (c : Call) : Runs ans A K G S w₀ (.up m) w →
      G m w c → Exec ans A (S.serve c) m w (.before m' o) w' → K m' w' o →
      Runs ans A K G S w₀ .down w'
  | exit {m : M} {w : W} : Runs ans A K G S w₀ (.up m) w → Runs ans A K G S w₀ .down w

/-- The invariant of a phase: `J` of the world alone while nothing runs, `I`
while the service does. -/
def Phase.Holds (J : W → Prop) (I : M → W → Prop) (w : W) : Phase M → Prop
  | .down => J w
  | .up m => I m w

/-- `J` between lifetimes and `I` within: the boundaries where a kill may
happen give `J` back. -/
theorem Runs.invariant {J : W → Prop} {I : M → W → Prop} (h0 : J w₀)
    (hkill : ∀ m w o, B m w o → K m w o → J w) (hexit : ∀ m w, I m w → J w)
    (hboot : ∀ w, J w → wp ans A B S.boot (fun _ m w' => I m w') S.fresh w)
    (hstep : ∀ m w c, I m w → G m w c →
      wp ans A B (S.serve c) (fun _ m' w' => I m' w') m w)
    {ph : Phase M} {w : W} (hr : Runs ans A K G S w₀ ph w) : ph.Holds J I w := by
  induction hr with
  | first => exact h0
  | boot _ he ih =>
      have h := wp_done he (hboot _ ih)
      exact h
  | bootKilled _ he hk ih => exact hkill _ _ _ (wp_before he (hboot _ ih)) hk
  | call c _ hg he ih =>
      have h := wp_done he (hstep _ _ c ih hg)
      exact h
  | killed c _ hg he hk ih => exact hkill _ _ _ (wp_before he (hstep _ _ c ih hg)) hk
  | exit _ ih => exact hexit _ _ ih

/-! ## Taking notes

A note is kept beside the world and changes nothing: the noted runs of a
program are its runs. -/

section Noting

variable {N α : Type}

/-- What to write down of a call: the operation, its answer, and the world
before and after. -/
abbrev Note (E : Sig) (W N : Type) := (o : E.Op) → E.Res o → W → W → N → N

def Answers.noting (ans : Answers E W C) (f : Note E W N) : Answers E (W × N) C :=
  fun c o w => ((ans c o w.1).1, (ans c o w.1).2, f o (ans c o w.1).1 w.1 (ans c o w.1).2 w.2)

/-- What is known of a program without the notes is known with them. -/
theorem wp_noting {f : Note E W N} {p : Program E M α} {Q : α → M → W → Prop} {m : M} {w : W}
    (n : N) (h : wp ans A B p Q m w) :
    wp (ans.noting f) (fun w o c => A w.1 o c) (fun m w o => B m w.1 o) p
      (fun a m w => Q a m w.1) m (w, n) := by
  induction p generalizing m w n with
  | pure a => exact h
  | get k ih => exact ih m n h
  | set m' p ih => exact ih n h
  | call o k ih => exact ⟨h.1, fun c hc => ih _ _ (h.2 c hc)⟩

/-- Where no call is one to be written down, the notes stay as they are. -/
theorem wp_noting_still {f : Note E W N} {n : N} {p : Program E M α} {Q : α → M → W → Prop}
    {m : M} {w : W} (hB : ∀ m w o, B m w o → ∀ r w', f o r w w' n = n)
    (h : wp ans A B p Q m w) :
    wp (ans.noting f) (fun w o c => A w.1 o c) (fun m w o => B m w.1 o ∧ w.2 = n) p
      (fun a m w => Q a m w.1 ∧ w.2 = n) m (w, n) := by
  induction p generalizing m w with
  | pure a => exact ⟨h, rfl⟩
  | get k ih => exact ih m h
  | set m' p ih => exact ih h
  | call o k ih =>
      refine ⟨⟨h.1, rfl⟩, fun c hc => ?_⟩
      have hstill : (ans.noting f c o (w, n)).2 = ((ans c o w).2, n) :=
        Prod.ext rfl (hB m w o h.1 _ _)
      rw [hstill]
      exact ih _ (h.2 c hc)

end Noting

/-! ## All lifetimes, and the calls that returned -/

section Chronicle

variable {N : Type} {n₀ : N}

/-- What the lifetimes of a service can reach, and the calls that returned in
any of them, newest first.  Every call has notes of its own, and whether it
may be killed can depend on them. -/
inductive Chronicle (ans : Answers E (W × N) C) (A : W × N → E.Op → C → Prop)
    (K : M → W × N → E.Op → Prop) (S : Service E M Call Ret) (n₀ : N) (w₀ : W) :
    Phase M → W → List (Event Call W Ret) → Prop
  | first : Chronicle ans A K S n₀ w₀ .down w₀ []
  | boot {m : M} {w : W} {v : W × N} {r : Ret} {h : List (Event Call W Ret)} :
      Chronicle ans A K S n₀ w₀ .down w h →
      Exec ans A S.boot S.fresh (w, n₀) (.done r m) v → Chronicle ans A K S n₀ w₀ (.up m) v.1 h
  | bootKilled {m : M} {w : W} {v : W × N} {o : E.Op} {h : List (Event Call W Ret)} :
      Chronicle ans A K S n₀ w₀ .down w h →
      Exec ans A S.boot S.fresh (w, n₀) (.before m o) v → K m v o →
      Chronicle ans A K S n₀ w₀ .down v.1 h
  | call {m m' : M} {w : W} {v : W × N} {r : Ret} {h : List (Event Call W Ret)} (c : Call) :
      Chronicle ans A K S n₀ w₀ (.up m) w h →
      Exec ans A (S.serve c) m (w, n₀) (.done r m') v →
      Chronicle ans A K S n₀ w₀ (.up m') v.1 (⟨c, w, r⟩ :: h)
  | killed {m m' : M} {w : W} {v : W × N} {o : E.Op} {h : List (Event Call W Ret)} (c : Call) :
      Chronicle ans A K S n₀ w₀ (.up m) w h →
      Exec ans A (S.serve c) m (w, n₀) (.before m' o) v → K m' v o →
      Chronicle ans A K S n₀ w₀ .down v.1 h
  | exit {m : M} {w : W} {h : List (Event Call W Ret)} :
      Chronicle ans A K S n₀ w₀ (.up m) w h → Chronicle ans A K S n₀ w₀ .down w h

/-- What every call preserves, and every kill that may happen, holds of all
that a chronicle reaches. -/
theorem Chronicle.invariant {ans : Answers E (W × N) C} {A : W × N → E.Op → C → Prop}
    {K : M → W × N → E.Op → Prop} {B : List (Event Call W Ret) → M → W × N → E.Op → Prop}
    {J : W → List (Event Call W Ret) → Prop} (h0 : J w₀ [])
    (hkill : ∀ h m v o, B h m v o → K m v o → J v.1 h)
    (hboot : ∀ w h, J w h → wp ans A (B h) S.boot (fun _ _ v => J v.1 h) S.fresh (w, n₀))
    (hstep : ∀ m w h c, J w h →
      wp ans A (B h) (S.serve c) (fun r _ v => J v.1 (⟨c, w, r⟩ :: h)) m (w, n₀))
    {ph : Phase M} {w : W} {h : List (Event Call W Ret)}
    (hc : Chronicle ans A K S n₀ w₀ ph w h) : J w h := by
  induction hc with
  | first => exact h0
  | boot _ he ih =>
      have h := wp_done he (hboot _ _ ih)
      exact h
  | bootKilled _ he hk ih => exact hkill _ _ _ _ (wp_before he (hboot _ _ ih)) hk
  | call c _ he ih =>
      have h := wp_done he (hstep _ _ _ c ih)
      exact h
  | killed c _ he hk ih => exact hkill _ _ _ _ (wp_before he (hstep _ _ _ c ih)) hk
  | exit _ ih => exact ih

end Chronicle

end Yirang.Effect
