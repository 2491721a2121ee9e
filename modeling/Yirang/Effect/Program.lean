/-
# `Yirang.Effect.Program` — programs that call the outside world

A program is a tree: it ends, or it reads or writes its own memory, or it
makes a call and goes on with the answer.  The calls and the types of their
answers are a signature `Sig`; the outside world and what it may answer are
parameters of the semantics, so one program is run against every behaviour
of its environment.

    Program E M α     calls in `E`, memory `M`, result `α`
    Act E M ε α       the same with errors `ε` (C++'s `std::expected`)
    run               executable: one choice a call, killed where they end
    Exec              the same as a relation, the choices constrained
    zoom              a program over a part of the memory

A program can stop in front of any call.  That is what being killed is
(`Outcome.before`): the memory is lost, the world stays as it is.
-/
import Mathlib.Data.List.Basic

namespace Yirang.Effect

/-- The calls a program can make, and the type of the answer to each. -/
structure Sig where
  Op : Type
  Res : Op → Type

inductive Program (E : Sig) (M α : Type) : Type where
  | pure (a : α)
  | get (k : M → Program E M α)
  | set (m : M) (p : Program E M α)
  | call (o : E.Op) (k : E.Res o → Program E M α)

/-- Programs that end with an error or a result. -/
abbrev Act (E : Sig) (M ε α : Type) := ExceptT ε (Program E M) α

variable {E : Sig} {M N W C ε α β : Type}

/-- Where a program was found: at its end, or in front of a call. -/
inductive Outcome (E : Sig) (M α : Type) : Type where
  | done (a : α) (m : M)
  | before (m : M) (o : E.Op)

/-- The error with which a program ended. -/
def Outcome.error? : Outcome E M (Except ε α) → Option ε
  | .done (.error e) _ => some e
  | _ => none

theorem Outcome.done_of_error? {out : Outcome E M (Except ε α)} {e : ε}
    (h : out.error? = some e) : ∃ m, out = .done (.error e) m := by
  match out, h with
  | .done (.error e') m, h =>
      cases h
      exact ⟨m, rfl⟩

/-- The program ended well. -/
def Outcome.isOk : Outcome E M (Except ε α) → Bool
  | .done (.ok _) _ => true
  | _ => false

theorem Outcome.done_of_isOk {out : Outcome E M (Except ε α)} (h : out.isOk = true) :
    ∃ a m, out = .done (.ok a) m := by
  match out, h with
  | .done (.ok a) m, _ => exact ⟨a, m, rfl⟩

/-- The program was found in front of a call that `f` accepts. -/
def Outcome.isBefore (f : E.Op → Bool) : Outcome E M α → Bool
  | .before _ o => f o
  | .done _ _ => false

theorem Outcome.before_of_isBefore {f : E.Op → Bool} {out : Outcome E M α}
    (h : out.isBefore f = true) : ∃ m o, out = .before m o ∧ f o = true := by
  match out, h with
  | .before m o, h => exact ⟨m, o, rfl, h⟩

/-- How the world answers: a choice settles what the program does not. -/
abbrev Answers (E : Sig) (W C : Type) := C → (o : E.Op) → W → E.Res o × W

namespace Program

def bind : Program E M α → (α → Program E M β) → Program E M β
  | .pure a, f => f a
  | .get k, f => .get fun m => (k m).bind f
  | .set m p, f => .set m (p.bind f)
  | .call o k, f => .call o fun r => (k r).bind f

instance : Monad (Program E M) where
  pure := .pure
  bind := .bind

@[simp] theorem pure_bind' (a : α) (f : α → Program E M β) :
    (Pure.pure a >>= f : Program E M β) = f a := rfl

theorem bind_end (p : Program E M α) : p.bind .pure = p := by
  induction p with
  | pure a => rfl
  | get k ih => exact congrArg Program.get (funext ih)
  | set m p ih => exact congrArg (Program.set m) ih
  | call o k ih => exact congrArg (Program.call o) (funext ih)

theorem bind_bind {γ : Type} (p : Program E M α) (f : α → Program E M β)
    (g : β → Program E M γ) : (p.bind f).bind g = p.bind fun a => (f a).bind g := by
  induction p with
  | pure a => rfl
  | get k ih => exact congrArg Program.get (funext ih)
  | set m p ih => exact congrArg (Program.set m) ih
  | call o k ih => exact congrArg (Program.call o) (funext ih)

instance : LawfulMonad (Program E M) :=
  LawfulMonad.mk' _ bind_end (fun _ _ => rfl) bind_bind

/-- One choice a call; the program is killed in front of the first call that
has none. -/
def run (ans : Answers E W C) : Program E M α → List C → M → W → Outcome E M α × W
  | .pure a, _, m, w => (.done a m, w)
  | .get k, cs, m, w => run ans (k m) cs m w
  | .set m' p, cs, _, w => run ans p cs m' w
  | .call o _, [], m, w => (.before m o, w)
  | .call o k, c :: cs, m, w => run ans (k (ans c o w).1) cs m (ans c o w).2

/-- The choices of a run are all allowed where they are taken. -/
def Admits (ans : Answers E W C) (A : W → E.Op → C → Prop) :
    Program E M α → List C → M → W → Prop
  | .pure _, _, _, _ => True
  | .get k, cs, m, w => Admits ans A (k m) cs m w
  | .set m' p, cs, _, w => Admits ans A p cs m' w
  | .call _ _, [], _, _ => True
  | .call o k, c :: cs, m, w =>
      A w o c ∧ Admits ans A (k (ans c o w).1) cs m (ans c o w).2

/-- Whether the choices of a run are allowed can be computed, where it can
for one choice. -/
instance Admits.decide {ans : Answers E W C} {A : W → E.Op → C → Prop}
    [∀ w o c, Decidable (A w o c)] :
    ∀ (p : Program E M α) (cs : List C) (m : M) (w : W), Decidable (p.Admits ans A cs m w)
  | .pure _, _, _, _ => isTrue trivial
  | .get k, cs, m, w => Admits.decide (k m) cs m w
  | .set m' p, cs, _, w => Admits.decide p cs m' w
  | .call _ _, [], _, _ => isTrue trivial
  | .call o k, c :: cs, m, w =>
      @instDecidableAnd _ _ (inferInstanceAs (Decidable (A w o c)))
        (Admits.decide (k (ans c o w).1) cs m (ans c o w).2)

end Program

/-- The ways a program can go from a memory and a world, as far as one likes
to follow it, when the choices are those that `A` allows. -/
inductive Exec (ans : Answers E W C) (A : W → E.Op → C → Prop) :
    Program E M α → M → W → Outcome E M α → W → Prop
  | pure (a : α) (m : M) (w : W) : Exec ans A (.pure a) m w (.done a m) w
  | get {k : M → Program E M α} {m : M} {w w' : W} {out : Outcome E M α} :
      Exec ans A (k m) m w out w' → Exec ans A (.get k) m w out w'
  | set {m' : M} {p : Program E M α} {m : M} {w w' : W} {out : Outcome E M α} :
      Exec ans A p m' w out w' → Exec ans A (.set m' p) m w out w'
  | stop (o : E.Op) (k : E.Res o → Program E M α) (m : M) (w : W) :
      Exec ans A (.call o k) m w (.before m o) w
  | call {o : E.Op} {k : E.Res o → Program E M α} {m : M} {w w' : W} {c : C}
      {out : Outcome E M α} : A w o c →
      Exec ans A (k (ans c o w).1) m (ans c o w).2 out w' →
      Exec ans A (.call o k) m w out w'

/-- Every allowed run is an execution. -/
theorem exec_run {ans : Answers E W C} {A : W → E.Op → C → Prop} :
    ∀ {p : Program E M α} {cs : List C} {m : M} {w : W}, p.Admits ans A cs m w →
      Exec ans A p m w (p.run ans cs m w).1 (p.run ans cs m w).2
  | .pure a, _, m, w, _ => .pure a m w
  | .get _, _, _, _, h => .get (exec_run h)
  | .set _ _, _, _, _, h => .set (exec_run h)
  | .call o k, [], m, w, _ => .stop o k m w
  | .call _ _, _ :: _, _, _, h => .call h.1 (exec_run h.2)

/-- Where every choice is allowed, so is every run. -/
theorem Program.admits_all {ans : Answers E W C} :
    ∀ (p : Program E M α) (cs : List C) (m : M) (w : W),
      p.Admits ans (fun _ _ _ => True) cs m w
  | .pure _, _, _, _ => trivial
  | .get k, cs, m, w => (k m).admits_all cs m w
  | .set m' p, cs, _, w => p.admits_all cs m' w
  | .call _ _, [], _, _ => trivial
  | .call o k, c :: cs, m, w => ⟨trivial, (k (ans c o w).1).admits_all cs m (ans c o w).2⟩

/-- A run that ended, as an execution. -/
theorem exec_of_run {ans : Answers E W C} {A : W → E.Op → C → Prop} {p : Program E M α}
    {l : List C} {m : M} {w : W} {out : Outcome E M α} (ha : p.Admits ans A l m w)
    (hr : (p.run ans l m w).1 = out) : Exec ans A p m w out (p.run ans l m w).2 :=
  hr ▸ exec_run ha

/-- The same where every choice is allowed. -/
theorem exec_freely (ans : Answers E W C) (p : Program E M α) (cs : List C) (m : M) (w : W)
    {out : Outcome E M α} (hr : (p.run ans cs m w).1 = out) :
    Exec ans (fun _ _ _ => True) p m w out (p.run ans cs m w).2 :=
  exec_of_run (p.admits_all cs m w) hr

/-- Every execution is a run: `Exec` and `run` describe the same behaviours. -/
theorem run_of_exec {ans : Answers E W C} {A : W → E.Op → C → Prop} {p : Program E M α}
    {m : M} {w w' : W} {out : Outcome E M α} (h : Exec ans A p m w out w') :
    ∃ cs, p.Admits ans A cs m w ∧ p.run ans cs m w = (out, w') := by
  induction h with
  | pure a m w => exact ⟨[], trivial, rfl⟩
  | get _ ih => exact ih
  | set _ ih => exact ih
  | stop o k m w => exact ⟨[], trivial, rfl⟩
  | call hc _ ih =>
      obtain ⟨cs, ha, hr⟩ := ih
      exact ⟨_ :: cs, ⟨hc, ha⟩, hr⟩

/-- A sequence ends where its second part ends, after its first. -/
theorem exec_bind_done {ans : Answers E W C} {A : W → E.Op → C → Prop} {p : Program E M α}
    {f : α → Program E M β} {m m' : M} {w w' : W} {b : β} :
    Exec ans A (p >>= f) m w (.done b m') w' ↔
      ∃ a m₁ w₁, Exec ans A p m w (.done a m₁) w₁ ∧ Exec ans A (f a) m₁ w₁ (.done b m') w' := by
  constructor
  · intro h
    induction p generalizing m w with
    | pure a => exact ⟨a, m, w, .pure a m w, h⟩
    | get k ih =>
        cases h with
        | get h =>
            obtain ⟨a, m₁, w₁, h₁, h₂⟩ := ih m h
            exact ⟨a, m₁, w₁, .get h₁, h₂⟩
    | set m₀ p ih =>
        cases h with
        | set h =>
            obtain ⟨a, m₁, w₁, h₁, h₂⟩ := ih h
            exact ⟨a, m₁, w₁, .set h₁, h₂⟩
    | call o k ih =>
        cases h with
        | call hc h =>
            obtain ⟨a, m₁, w₁, h₁, h₂⟩ := ih _ h
            exact ⟨a, m₁, w₁, .call hc h₁, h₂⟩
  · rintro ⟨a, m₁, w₁, h₁, h₂⟩
    generalize ho : Outcome.done a m₁ = out at h₁
    induction h₁ with
    | pure a m w =>
        cases ho
        exact h₂
    | get _ ih => exact .get (ih h₂ ho)
    | set _ ih => exact .set (ih h₂ ho)
    | stop o k m w => cases ho
    | call hc _ ih => exact .call hc (ih h₂ ho)

/-- Fewer allowed choices, fewer executions. -/
theorem Exec.mono {ans : Answers E W C} {A A' : W → E.Op → C → Prop}
    (hA : ∀ w o c, A w o c → A' w o c) {p : Program E M α} {m : M} {w w' : W}
    {out : Outcome E M α} (h : Exec ans A p m w out w') : Exec ans A' p m w out w' := by
  induction h with
  | pure a m w => exact .pure a m w
  | get _ ih => exact .get ih
  | set _ ih => exact .set ih
  | stop o k m w => exact .stop o k m w
  | call hc _ ih => exact .call (hA _ _ _ hc) ih

/-! ## Building blocks -/

/-- One call. -/
def ask (o : E.Op) : Act E M ε (E.Res o) := ExceptT.mk (.call o fun r => .pure (.ok r))

def load : Act E M ε M := ExceptT.mk (.get fun m => .pure (.ok m))

def store (m : M) : Act E M ε Unit := ExceptT.mk (.set m (.pure (.ok ())))

/-- `if (!c) { return std::unexpected(e); }` -/
def require (c : Bool) (e : ε) : Act E M ε Unit := if c then pure () else throw e

/-- The error or the result of a computation without calls. -/
def conclude (r : Except ε α) : Act E M ε α :=
  match r with
  | .ok a => pure a
  | .error e => throw e

/-- `if (error) { return std::unexpected(wrap(error)); }` after a call. -/
def orFail {ε' : Type} (p : Act E M ε (Except ε' α)) (wrap : ε' → ε) : Act E M ε α :=
  p >>= fun r => conclude (r.mapError wrap)

/-- `if (c) { p; }` -/
def provided (c : Bool) (p : Act E M ε Unit) : Act E M ε Unit := if c then p else pure ()

/-- Run a part and look at how it ended. -/
def attempt {ε' : Type} (p : Act E M ε α) : Act E M ε' (Except ε α) :=
  ExceptT.mk (p.run >>= fun r => pure (.ok r))

/-- Pass an error on, reworded. -/
def rewording {ε' : Type} (f : ε → ε') (p : Act E M ε α) : Act E M ε' α :=
  ExceptT.mk (p.run >>= fun r => pure (r.mapError f))

/-! ## A part of the memory -/

/-- A part of the memory, with the laws that make it one. -/
structure Lens (M N : Type) where
  get : M → N
  put : N → M → M
  get_put : ∀ n m, get (put n m) = n
  put_get : ∀ m, put (get m) m = m
  put_put : ∀ n n' m, put n (put n' m) = put n m

/-- The part that is empty. -/
def Lens.nothing : Lens M Unit where
  get _ := ()
  put _ m := m
  get_put _ _ := rfl
  put_get _ := rfl
  put_put _ _ _ := rfl

/-- A program over a part of the memory, as one over the whole. -/
def Program.zoom (ℓ : Lens M N) : Program E N α → Program E M α
  | .pure a => .pure a
  | .get k => .get fun m => (k (ℓ.get m)).zoom ℓ
  | .set n p => .get fun m => .set (ℓ.put n m) (p.zoom ℓ)
  | .call o k => .call o fun r => (k r).zoom ℓ

def zoom (ℓ : Lens M N) (p : Act E N ε α) : Act E M ε α := ExceptT.mk (p.run.zoom ℓ)

end Yirang.Effect
