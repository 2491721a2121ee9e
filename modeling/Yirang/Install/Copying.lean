/-
# `Yirang.Install.Copying` — what the installer copies, and what it names

Two facts about every call of the installer, whatever fails: the files that
`install` copies come from below its source and go to the same place below
the staging directory, and the state file names release ids only.

    Copying           a call that copies a file does it so
    install_copying   every call of `install` is one of these
    Named             the two names in the state file
-/
import Yirang.Install.Pointer

namespace Yirang

open Fs Effect Device

namespace Install

variable {o : InstallOptions} {r : String} {source staging : Path}

/-! ## Copies -/

/-- A call that copies no file. -/
def CopiesNothing (op : Op) : Prop := ∀ a b, op ≠ .file (.copyFile a b)

/-- The calls of the installer beside the copies: to the file system, and to
the clock. -/
inductive Filing : Op → Prop
  | file {f : FileOp Content} : (∀ a b, f ≠ .copyFile a b) → Filing (.file f)
  | clock : Filing .steadyNow

theorem Filing.copies {op : Op} (h : Filing op) : CopiesNothing op := by
  cases h with
  | file hf => exact fun a b he => hf a b (Op.file.inj he)
  | clock => exact fun _ _ he => by cases he

/-- A call that copies a file takes it from below the source to the same
place below the staging directory. -/
inductive Copying (source staging : Path) : Op → Prop
  | filing {op : Op} : Filing op → Copying source staging op
  | copy (x : Path) : Copying source staging (.file (.copyFile (source ++ x) (staging ++ x)))

theorem Copying.from_source {a b : Path} (h : Copying source staging (.file (.copyFile a b))) :
    ∃ x, a = source ++ x ∧ b = staging ++ x := by
  cases h with
  | filing hf => exact absurd rfl (hf.copies a b)
  | copy x => exact ⟨x, rfl, rfl⟩

theorem uses_other {M ε : Type} {f : FileOp Content} (h : ∀ a b, f ≠ .copyFile a b) :
    Uses Filing (file f : Act device M ε (FileOp.Res f)).run :=
  .ask (.file h)

theorem place_copying (relative : Path) :
    Uses (Copying source staging) (place source staging relative).run := by
  have other : ∀ {f : FileOp Content}, (∀ a b, f ≠ .copyFile a b) →
      Uses (Copying source staging) (file f : Step (FileOp.Res f)).run := fun h =>
    (uses_other h).mono fun _ => .filing
  unfold place
  refine .seq (.orFail (other fun _ _ he => by cases he)) fun x => ?_
  refine .seq .require fun _ => .seq (other fun _ _ he => by cases he) fun dir => ?_
  cases dir with
  | true => exact .seq (.orFail (other fun _ _ he => by cases he)) fun _ => trivial
  | false =>
      refine .seq (.orFail (other fun _ _ he => by cases he)) fun _ => ?_
      exact .seq (.orFail (.ask (.copy x))) fun _ => trivial

theorem copySource_copying :
    Uses (Copying source staging) (copySource r source staging).run := by
  have all : ∀ (entries : List Path) (copied : UInt32),
      Uses (Copying source staging) (placeAll source staging entries copied).run := by
    intro entries
    induction entries with
    | nil => exact fun _ => trivial
    | cons x rest ih => exact fun _ => .seq (place_copying x) fun _ => ih _
  unfold copySource
  refine .seq (.orFail (.ask (.filing (.file fun _ _ he => by cases he)))) fun entries => ?_
  refine .seq (all _ _) fun copied => ?_
  cases entries.broken with
  | some why => trivial
  | none => exact .require

theorem publishStaging_filing : Uses Filing (publishStaging o staging r).run := by
  have sweep : ∀ names, Uses Filing (sweepAll o names).run := by
    intro names
    induction names with
    | nil => trivial
    | cons n rest ih => exact .seq (uses_other fun _ _ he => by cases he) fun _ => ih
  unfold publishStaging
  refine .seq ?_ fun _ => .seq (uses_other fun _ _ he => by cases he) fun replacing => ?_
  · refine .seq (uses_other fun _ _ he => by cases he) fun entries => ?_
    cases entries with
    | error why => trivial
    | ok entries =>
        cases hb : entries.broken with
        | some why => simp only [hb]; trivial
        | none => simp only [hb]; exact sweep _
  refine .seq (.provided ?_) fun _ => .seq (uses_other fun _ _ he => by cases he) fun published => ?_
  · exact .seq (.orFail (uses_other fun _ _ he => by cases he)) fun _ =>
      .orFail (uses_other fun _ _ he => by cases he)
  cases published with
  | error reason =>
      cases replacing with
      | false => trivial
      | true =>
          refine .seq (uses_other fun _ _ he => by cases he) fun restored => ?_
          cases restored <;> trivial
  | ok _ =>
      refine .seq (uses_other fun _ _ he => by cases he) fun cleanup => ?_
      cases cleanup with
      | ok _ => trivial
      | error why =>
          refine .seq (.ask .clock) fun stamp => ?_
          exact .seq (uses_other fun _ _ he => by cases he) fun _ => trivial

theorem install_copying :
    Uses (Copying source (o.stagingDirectory r)) (install o r source).run := by
  have other : ∀ {M α : Type} {p : Program device M α}, Uses Filing p →
      Uses (Copying source (o.stagingDirectory r)) p := fun h =>
    h.mono fun _ => .filing
  unfold install
  refine .seq .require fun _ => .seq .conclude fun _ => ?_
  refine .seq (other (uses_other fun _ _ he => by cases he)) fun there => .seq .require fun _ => ?_
  refine .seq (other (uses_other fun _ _ he => by cases he)) fun _ => ?_
  refine .seq (.orFail (other (uses_other fun _ _ he => by cases he))) fun _ => ?_
  refine .seq (.attempt (.seq copySource_copying fun _ => other publishStaging_filing))
    fun ended => ?_
  have out : ∀ e : InstallError, Uses (Copying source (o.stagingDirectory r))
      (discard (o.stagingDirectory r) >>= fun _ => (throw e : Step Unit)).run := fun e =>
    .seq (.seq (other (uses_other fun _ _ he => by cases he)) fun _ => trivial) fun _ => trivial
  cases ended with
  | ok _ => trivial
  | error e =>
      cases e with
      | threw why => trivial
      | _ => exact out _

theorem state_filing : Uses Filing (state o).run := by
  unfold state
  refine .seq (uses_other fun _ _ he => by cases he) fun there => ?_
  cases there with
  | false => trivial
  | true =>
      refine .seq (uses_other fun _ _ he => by cases he) fun source => ?_
      cases source with
      | none => trivial
      | some buffer => exact .conclude

theorem installed_filing : Uses Filing (installed o).run := by
  have survey : ∀ names, Uses Filing (survey o names).run := by
    intro names
    induction names with
    | nil => trivial
    | cons n rest ih =>
        refine .seq (uses_other fun _ _ he => by cases he) fun dir => ?_
        refine .ite (fun _ => ?_) fun _ => ih
        exact .seq (uses_other fun _ _ he => by cases he) fun _ => .seq ih fun _ => trivial
  unfold installed
  refine .seq (uses_other fun _ _ he => by cases he) fun there => ?_
  cases there with
  | false => trivial
  | true =>
      refine .seq (.orFail (uses_other fun _ _ he => by cases he)) fun entries => ?_
      refine .seq (survey _) fun found => ?_
      cases entries.broken <;> trivial

theorem prune_filing : Uses Filing (prune o).run := by
  have all : ∀ (s : ActivationState) (names : List String) (retained : Int) (removed : UInt32),
      Uses Filing (pruneAll o s names retained removed).run := by
    intro s names
    induction names with
    | nil => exact fun _ _ => trivial
    | cons n rest ih =>
        intro retained removed
        refine .ite (fun _ => ih _ _) fun _ => .ite (fun _ => ih _ _) fun _ => ?_
        exact .seq (.orFail (uses_other fun _ _ he => by cases he)) fun _ => ih _ _
  exact .seq state_filing fun current => .seq installed_filing fun _ => all _ _ _ _

/-! ## Names in the state file -/

/-- The state file names releases, or nothing. -/
def Named (o : InstallOptions) (t : FileTree Content) : Prop :=
  ∀ r, r = (onDisk o t).active ∨ r = (onDisk o t).previous → r ≠ "" → ValidId r

variable {A : World → Op → Choice → Prop} {w w' : World}

theorem named_of_none {t : FileTree Content} (h : t.get o.statePath = none) : Named o t := by
  intro r hr hne
  rw [onDisk_of_none h] at hr
  exact absurd (hr.elim id id) hne

theorem Named.of_get (h : Named o w.fs)
    (hget : w'.fs.get o.statePath = w.fs.get o.statePath) : Named o w'.fs := by
  intro r hr
  rw [onDisk_of_get hget] at hr
  exact h r hr

theorem Named.reads (h : Named o w.fs) {s : ActivationState} (hs : Reads o A w s) {r : String}
    (hr : r = s.active ∨ r = s.previous) (hne : r ≠ "") : ValidId r := by
  rcases hs with rfl | ⟨rfl, -⟩
  · exact h r hr hne
  · exact absurd (hr.elim id id) hne

theorem Named.activated (h : Named o w.fs) (hr : ValidId r) (ha : Activated o A r w w') :
    Named o w'.fs := by
  obtain ⟨s, hs, hprevious⟩ := ha.previous
  rintro n (rfl | rfl) hne
  · rw [ha.active]
    exact hr
  · rw [hprevious] at hne ⊢
    by_cases hsame : s.active = r
    · rw [if_pos hsame] at hne ⊢
      exact h.reads hs (Or.inr rfl) hne
    · rw [if_neg hsame] at hne ⊢
      exact h.reads hs (Or.inl rfl) hne

theorem Named.rolledBack {target : String} (h : Named o w.fs) (hb : RolledBack o A target w w') :
    Named o w'.fs := by
  obtain ⟨s, hs, htarget, hprevious⟩ := hb.read
  rintro n (rfl | rfl) hne
  · rw [hb.active, ← htarget] at hne ⊢
    exact h.reads hs (Or.inr rfl) hne
  · rw [hprevious] at hne ⊢
    exact h.reads hs (Or.inl rfl) hne

end Install

end Yirang
