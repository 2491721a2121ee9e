/-
# `Yirang.Install.Pointer` — the state file

What `state` reads, and what `activate` and `rollback` leave in the state
file, under any failures.

    onDisk       what the state file says
    Honest A     a `stat` of an existing state file does not fail
    Reads        what `state` may return: what the file says, or — when the
                 `stat` failed — that there is no state at all

The write is a temporary and a rename: a call that fails leaves the file as
it was, and one that succeeds leaves the new state whole.
-/
import Yirang.Install.Frame

namespace Yirang

open Fs Effect Device

namespace Install

variable {o : InstallOptions} {A : World → Op → Choice → Prop} {B : Unit → World → Op → Prop}
  {w : World} {r : String}

/-! ## Reading the state -/

/-- What the state file says; nothing, if it cannot be understood. -/
def onDisk (o : InstallOptions) (t : FileTree Content) : ActivationState :=
  match t.get o.statePath with
  | some (.file c) => (ActivationState.load o.statePath c).toOption.getD {}
  | _ => {}

theorem ofFields_toJson (s : ActivationState) (p : Path) :
    ActivationState.load p (.json s.toJson) = .ok s := rfl

theorem onDisk_of_get {t t' : FileTree Content} (h : t'.get o.statePath = t.get o.statePath) :
    onDisk o t' = onDisk o t := by
  simp only [onDisk, h]

theorem onDisk_of_file {t : FileTree Content} {s : ActivationState}
    (h : t.get o.statePath = some (.file (.json s.toJson))) : onDisk o t = s := by
  simp only [onDisk, h, ofFields_toJson]
  rfl

theorem onDisk_of_none {t : FileTree Content} (h : t.get o.statePath = none) : onDisk o t = {} := by
  simp only [onDisk, h]

/-- A `stat` of an existing state file does not fail. -/
def Honest (o : InstallOptions) (A : World → Op → Choice → Prop) : Prop :=
  ∀ w c, A w (.file (.exists_ o.statePath)) c → w.fs.get o.statePath ≠ none →
    c.chance.fault = none

/-- What `state` may return in the world `w`. -/
def Reads (o : InstallOptions) (A : World → Op → Choice → Prop) (w : World)
    (s : ActivationState) : Prop :=
  s = onDisk o w.fs ∨ (s = {} ∧ ¬ Honest o A)

theorem Reads.honest {s : ActivationState} (h : Reads o A w s) (hA : Honest o A) :
    s = onDisk o w.fs :=
  h.elim id fun h => absurd hA h.2

/-- The state file can always be read. -/
structure Faithful (o : InstallOptions) (A : World → Op → Choice → Prop) : Prop where
  stat : ∀ w c, A w (.file (.exists_ o.statePath)) c → c.chance.fault = none
  read : ∀ w c, A w (.file (.read o.statePath)) c → c.chance.fault = none ∧ c.chance.cut = none

theorem Faithful.honest (h : Faithful o A) : Honest o A := fun w c hc _ => h.stat w c hc

/-- The state file could not be read or written. -/
inductive StateFault (o : InstallOptions) : InstallError → Prop
  | open_ : StateFault o (.cannotOpen o.statePath)
  | load {c : Content} {e : InstallError} : ActivationState.load o.statePath c = .error e →
      StateFault o e
  | create {why : String} : StateFault o (.cannotCreate o.root why)
  | write : StateFault o (.cannotWrite o.stateTemporary)
  | publish {why : String} : StateFault o (.cannotPublish o.statePath why)

/-- `state` ends with what it may read; if it fails though the file can be
read, the file says nothing. -/
theorem state_reads :
    wp answer A Anywhere (state o).run
      (fun r _ w' => w'.fs = w.fs ∧ (∀ s, r = .ok s → Reads o A w s) ∧
        ∀ e, r = .error e → StateFault o e ∧ (Faithful o A → onDisk o w.fs = {})) () w := by
  unfold state
  refine wp_seq.mpr ⟨trivial, fun c hc => ?_⟩
  show wp _ _ _ (ExceptT.run (if c.chance.fault.isNone && (w.fs.get o.statePath).isSome then _
    else _)) _ _ _
  split
  · refine wp_seq.mpr ⟨trivial, fun c' hc' => ?_⟩
    have hsame : (FileOp.answer c'.chance (.read o.statePath) w.fs).2 = w.fs := by
      simp only [FileOp.answer]
      split <;> rfl
    show wp _ _ _ (Program.pure (Except.ok (FileOp.answer c'.chance (.read o.statePath) w.fs).1))
      _ _ _
    cases hread : (FileOp.answer c'.chance (.read o.statePath) w.fs).1 with
    | none =>
        refine ⟨hsame, fun s hs => (by cases hs), fun e he => ?_⟩
        cases he
        exact ⟨.open_, fun hA => unopened hread (hA.read _ _ hc').1⟩
    | some buffer =>
        refine wp_conclude.mpr ⟨hsame, fun s hs => Or.inl (read_load hread hs).symm,
          fun e he => ⟨.load he, fun hA => ?_⟩⟩
        simp only [onDisk, read_whole hread (hA.read _ _ hc').2, he]
        rfl
  · rename_i hno
    refine ⟨rfl, fun s hs => ?_, fun e he => (by cases he)⟩
    cases hs
    by_cases hA : Honest o A
    · refine Or.inl (onDisk_of_none ?_).symm
      by_contra hne
      have hf := hA w c hc hne
      simp [hf, Option.isSome_iff_ne_none, hne] at hno
    · exact Or.inr ⟨rfl, hA⟩
where
  /-- A text that was read whole is what the file holds. -/
  read_whole {c : Chance} {t : FileTree Content} {buffer : Content}
      (hread : (FileOp.answer c (.read o.statePath) t).1 = some buffer) (hcut : c.cut = none) :
      t.get o.statePath = some (.file buffer) := by
    simp only [FileOp.answer, hcut] at hread
    split at hread
    · rename_i x _ hx
      cases hread
      exact hx
    · cases hread
  /-- A text that was read and understood was read whole. -/
  read_load {c : Chance} {t : FileTree Content} {buffer : Content} {s : ActivationState}
      (hread : (FileOp.answer c (.read o.statePath) t).1 = some buffer)
      (hs : ActivationState.load o.statePath buffer = .ok s) : onDisk o t = s := by
    cases hcut : c.cut with
    | none =>
        simp only [onDisk, read_whole hread hcut, hs]
        rfl
    | some n =>
        simp only [FileOp.answer, hcut] at hread
        split at hread
        · cases hread
          cases hs
        · cases hread
  unopened {c : Chance} {t : FileTree Content}
      (hread : (FileOp.answer c (.read o.statePath) t).1 = none) (hf : c.fault = none) :
      onDisk o t = {} := by
    simp only [FileOp.answer, hf] at hread
    simp only [onDisk]
    split at hread
    · cases hc : c.cut <;> simp [hc] at hread
    · rename_i hno
      split
      · rename_i x hx
        exact absurd hx (hno x rfl)
      · rfl

theorem state_spec (hB : Safe B Untouched w) :
    wp answer A B (state o).run
      (fun r _ w' => (w'.fs = w.fs ∧ (∀ s, r = .ok s → Reads o A w s) ∧
        ∀ e, r = .error e → StateFault o e ∧ (Faithful o A → onDisk o w.fs = {})) ∧
          Within Untouched w w') () w :=
  wp_both state_reads (wp_within state_uses hB)

/-! ## Writing it -/

theorem root_prefix_ne {n : String} : ¬ o.root ++ [n] <+: o.root := fun h => by
  have hl := h.length_le
  rw [List.length_append, List.length_singleton] at hl
  omega

theorem statePath_ne_temporary : o.statePath ≠ o.stateTemporary := fun h => by
  simpa using List.append_cancel_left h

theorem statePath_ne_link : o.statePath ≠ o.currentLink := fun h => by
  simpa using List.append_cancel_left h

/-- What a step leaves in the state file: the new state whole if it
succeeded, the old content if it failed. -/
def Writes (o : InstallOptions) (w w' : World) (next : ActivationState) :
    Except InstallError Unit → Prop
  | .ok _ => w'.fs.get o.statePath = some (.file (.json next.toJson))
  | .error e => StateFault o e ∧ w'.fs.get o.statePath = w.fs.get o.statePath

/-- The state file at a boundary: as it was, or new and whole. -/
def Whole (o : InstallOptions) (w w' : World) (next : ActivationState) : Prop :=
  w'.fs.get o.statePath = w.fs.get o.statePath ∨
    w'.fs.get o.statePath = some (.file (.json next.toJson))

theorem writeState_writes (next : ActivationState)
    (hB : ∀ m w' op, Whole o w w' next → B m w' op) :
    wp answer A B (writeState o next).run (fun r _ w' => Writes o w w' next r) () w := by
  unfold writeState
  refine wp_seq.mpr (wp_orFail.mpr (wp_file.mpr ⟨hB _ _ _ (Or.inl rfl), fun c hc => ?_⟩))
  have hmade : (answer c (.file (.createDirectories o.root)) w).2.fs.get o.statePath =
      w.fs.get o.statePath := file_frame root_prefix_ne
  cases (answer c (.file (.createDirectories o.root)) w).1 with
  | error e => exact ⟨.create, hmade⟩
  | ok _ =>
      revert hmade
      generalize (answer c (.file (.createDirectories o.root)) w).2 = w₁
      intro hmade
      refine wp_seq.mpr (wp_orFail.mpr (wp_file.mpr ⟨hB _ _ _ (Or.inl hmade), fun c₂ hc₂ => ?_⟩))
      have hput : (answer c₂ (.file (.write o.stateTemporary (.json next.toJson))) w₁).2.fs.get
          o.statePath = w.fs.get o.statePath :=
        (file_frame (f := .write _ _) statePath_ne_temporary).trans hmade
      cases hw : (answer c₂ (.file (.write o.stateTemporary (.json next.toJson))) w₁).1 with
      | error e => exact ⟨.write, hput⟩
      | ok _ =>
          have hwritten := FileTree.get_putAt (write_ok hw) o.stateTemporary
          rw [if_pos rfl] at hwritten
          revert hput hwritten
          generalize (answer c₂ (.file (.write o.stateTemporary (.json next.toJson))) w₁).2 = w₂
          intro hput hwritten
          refine wp_seq.mpr (wp_file.mpr ⟨hB _ _ _ (Or.inl hput), fun c₃ hc₃ => ?_⟩)
          cases hr : (answer c₃ (.file (.rename o.stateTemporary o.statePath)) w₂).1 with
          | ok _ =>
              have hmoved := FileTree.get_moveAt (rename_ok hr) o.statePath
              rw [if_pos List.prefix_rfl] at hmoved
              refine hmoved.trans ?_
              rw [FileTree.movedFrom, List.drop_length, List.append_nil]
              exact hwritten
          | error why =>
              have hsame : (answer c₃ (.file (.rename o.stateTemporary o.statePath)) w₂).2.fs.get
                  o.statePath = w.fs.get o.statePath := (get_same (rename_error hr) _).trans hput
              refine wp_seq.mpr (wp_file.mpr ⟨hB _ _ _ (Or.inl hsame), fun c₄ hc₄ => ?_⟩)
              exact ⟨.publish,
                (file_frame (f := .remove _) statePath_ne_temporary).trans hsame⟩

theorem refreshCurrentLink_spec
    (hB : ∀ m w' op, w'.fs.get o.statePath = w.fs.get o.statePath → B m w' op) :
    wp answer A B (refreshCurrentLink o r).run
      (fun res _ w' => res = .ok () ∧ w'.fs.get o.statePath = w.fs.get o.statePath) () w := by
  refine ⟨hB _ _ _ rfl, fun c _ => ?_⟩
  have hremoved : (answer c (.file (.remove o.currentLink)) w).2.fs.get o.statePath =
      w.fs.get o.statePath := file_frame statePath_ne_link
  refine ⟨hB _ _ _ hremoved, fun _ _ => ⟨rfl, ?_⟩⟩
  exact (file_frame (f := .symlink _ _) statePath_ne_link).trans hremoved

/-! ## `activate` and `rollback` -/

/-- The pointer was moved: from what was read as the state, `r` became
active. -/
structure Activated (o : InstallOptions) (A : World → Op → Choice → Prop) (r : String)
    (w w' : World) : Prop where
  there : w.fs.isDir (o.releaseDirectory r) = true
  active : (onDisk o w'.fs).active = r
  previous : ∃ s, Reads o A w s ∧
    (onDisk o w'.fs).previous = if s.active = r then s.previous else s.active

/-- The two fields were exchanged. -/
structure RolledBack (o : InstallOptions) (A : World → Op → Choice → Prop) (target : String)
    (w w' : World) : Prop where
  target_ne : target ≠ ""
  there : w.fs.isDir (o.releaseDirectory target) = true
  active : (onDisk o w'.fs).active = target
  read : ∃ s, Reads o A w s ∧ s.previous = target ∧ (onDisk o w'.fs).previous = s.active

theorem isDir_of_answer {c : Choice} {p : Path}
    (h : (answer c (.file (.isDirectory p)) w).1 = true) : w.fs.isDir p = true := by
  simp only [answer_fst, perform, FileOp.answer, Bool.and_eq_true] at h
  exact h.2

/-- The activation at one of its boundaries, or at its end: the state file is
as it was, or the pointer was moved. -/
def Activating (o : InstallOptions) (A : World → Op → Choice → Prop) (r : String)
    (w w' : World) : Prop :=
  w'.fs.get o.statePath = w.fs.get o.statePath ∨ ValidId r ∧ Activated o A r w w'

theorem activate_moves (hB : ∀ m w' op, Activating o A r w w' → B m w' op) :
    wp answer A B (activate o r).run
      (fun res _ w' =>
        (res = .ok () ∧ ValidId r ∧ Activated o A r w w') ∨
        (∃ e, res = .error e) ∧ w'.fs.get o.statePath = w.fs.get o.statePath) () w := by
  have same : ∀ m w' op, w'.fs = w.fs → B m w' op := fun m w' op h =>
    hB m w' op (Or.inl (get_same h _))
  unfold activate
  refine wp_seq.mpr (wp_conclude.mpr ?_)
  cases hv : validateReleaseId r with
  | error e => exact Or.inr ⟨⟨e, rfl⟩, rfl⟩
  | ok _ =>
      refine wp_seq.mpr (wp_file.mpr ⟨same _ _ _ rfl, fun c _ => ?_⟩)
      have hsame : (answer c (.file (.isDirectory (o.releaseDirectory r))) w).2.fs = w.fs := rfl
      cases hd : (answer c (.file (.isDirectory (o.releaseDirectory r))) w).1 with
      | false => exact Or.inr ⟨⟨_, rfl⟩, rfl⟩
      | true =>
          revert hsame
          generalize (answer c (.file (.isDirectory (o.releaseDirectory r))) w).2 = w₁
          intro hsame
          have hsafe : Safe B Untouched w₁ := fun m w' op _ hw =>
            hB m w' op (Or.inl ((hw.files id).trans (get_same hsame _)))
          refine wp_require_seq.mpr (wp_seq_of (state_spec (A := A) hsafe) ?_ ?_)
          · rintro current _ w₂ ⟨⟨hfs, hread, _⟩, _⟩
            rw [hsame] at hfs
            have hr := hread current rfl
            rw [Reads, hsame] at hr
            have moved : ∀ {now : String} {w'' : World}, w''.fs.get o.statePath =
                some (.file (.json (ActivationState.toJson
                  ⟨r, if current.active = r then current.previous else current.active, now⟩))) →
                ValidId r ∧ Activated o A r w w'' := fun hget => by
              have hdisk := onDisk_of_file hget
              exact ⟨validId_of_validate hv, isDir_of_answer hd, by rw [hdisk], current, hr,
                by rw [hdisk]⟩
            refine wp_seq.mpr (wp_ask.mpr ⟨same _ _ _ hfs, fun c' _ => ?_⟩)
            refine wp_seq_of (writeState_writes _ fun m w' op hwhole => hB m w' op ?_) ?_ ?_
            · exact hwhole.imp (fun h => h.trans (get_same hfs _)) moved
            · intro _ _ w₃ hw
              refine wp_conseq (refreshCurrentLink_spec fun m w' op h =>
                hB m w' op (Or.inr (moved (h.trans hw)))) ?_
              rintro res _ w' ⟨rfl, hlink⟩
              exact Or.inl ⟨rfl, moved (hlink.trans hw)⟩
            · rintro e _ w' ⟨_, hget⟩
              exact Or.inr ⟨⟨e, rfl⟩, hget.trans (get_same hfs _)⟩
          · rintro e _ w' ⟨⟨hfs, _⟩, _⟩
            exact Or.inr ⟨⟨e, rfl⟩, by rw [hfs, hsame]⟩

/-- A `stat` of the directory `p` does not fail. -/
def HonestDir (p : Path) (A : World → Op → Choice → Prop) : Prop :=
  ∀ w c, A w (.file (.isDirectory p)) c → w.fs.isDir p = true → c.chance.fault = none

/-- Why `rollback` fails: the state file, or there is nothing to roll back
to, as far as it could see. -/
inductive NoRollback (o : InstallOptions) (A : World → Op → Choice → Prop) (w : World) :
    InstallError → Prop
  | fault {e : InstallError} : StateFault o e → NoRollback o A w e
  | none {s : ActivationState} : Reads o A w s → s.previous = "" →
      NoRollback o A w .noPreviousRelease
  | gone {s : ActivationState} : Reads o A w s → s.previous ≠ "" →
      (HonestDir (o.releaseDirectory s.previous) A →
        w.fs.isDir (o.releaseDirectory s.previous) = false) →
      NoRollback o A w (.previousNotInstalled s.previous)

theorem isDir_of_refusal {c : Choice} {p : Path} (hA : HonestDir p A)
    (hc : A w (.file (.isDirectory p)) c)
    (h : (answer c (.file (.isDirectory p)) w).1 = false) : w.fs.isDir p = false := by
  by_contra hdir
  rw [Bool.not_eq_false] at hdir
  have hf := hA w c hc hdir
  have hdir' : (w.bury c.dead).fs.isDir p = true := hdir
  simp [answer_fst, perform, FileOp.answer, hf, hdir'] at h

/-- The rollback at one of its boundaries, or at its end. -/
def Reverting (o : InstallOptions) (A : World → Op → Choice → Prop) (w w' : World) : Prop :=
  w'.fs.get o.statePath = w.fs.get o.statePath ∨ ∃ target, RolledBack o A target w w'

theorem rollback_moves (hB : ∀ m w' op, Reverting o A w w' → B m w' op) :
    wp answer A B (rollback o).run
      (fun res _ w' =>
        (∃ target, res = .ok target ∧ RolledBack o A target w w') ∨
        (∃ e, res = .error e ∧ NoRollback o A w e) ∧
          w'.fs.get o.statePath = w.fs.get o.statePath) () w := by
  have hsafe : Safe B Untouched w := fun m w' op _ hw => hB m w' op (Or.inl (hw.files id))
  unfold rollback
  refine wp_seq_of (state_spec (A := A) hsafe) ?_ ?_
  · rintro current _ w₁ ⟨⟨hsame, hread, _⟩, _⟩
    have same : ∀ m w' op, w'.fs = w₁.fs → B m w' op := fun m w' op h =>
      hB m w' op (Or.inl (get_same (h.trans hsame) _))
    refine wp_require_seq.mpr ?_
    split
    · rename_i hne
      refine wp_seq.mpr (wp_file.mpr ⟨same _ _ _ rfl, fun c hc => ?_⟩)
      have hfs : (answer c (.file (.isDirectory (o.releaseDirectory current.previous)))
        w₁).2.fs = w₁.fs := rfl
      cases hd : (answer c (.file (.isDirectory (o.releaseDirectory current.previous))) w₁).1 with
      | false =>
          refine Or.inr ⟨⟨_, rfl, .gone (hread current rfl) (by simpa using hne) fun hA => ?_⟩,
            get_same hsame _⟩
          rw [← hsame]
          exact isDir_of_refusal hA hc hd
      | true =>
          revert hfs
          generalize (answer c (.file (.isDirectory (o.releaseDirectory current.previous)))
            w₁).2 = w₂
          intro hfs
          have hdir := isDir_of_answer hd
          rw [hsame] at hdir
          have moved : ∀ {now : String} {w'' : World}, w''.fs.get o.statePath =
              some (.file (.json (ActivationState.toJson
                ⟨current.previous, current.active, now⟩))) →
              RolledBack o A current.previous w w'' := fun hget => by
            have hdisk := onDisk_of_file hget
            exact ⟨by simpa using hne, hdir, by rw [hdisk], current, hread current rfl, rfl,
              by rw [hdisk]⟩
          refine wp_require_seq.mpr (wp_seq.mpr (wp_ask.mpr ⟨same _ _ _ hfs, fun c' _ => ?_⟩))
          refine wp_seq_of (writeState_writes _ fun m w' op hwhole => hB m w' op ?_) ?_ ?_
          · exact hwhole.imp (fun h => h.trans (get_same (hfs.trans hsame) _))
              fun h => ⟨_, moved h⟩
          · intro _ _ w₃ hw
            refine wp_seq_of (refreshCurrentLink_spec fun m w' op h =>
              hB m w' op (Or.inr ⟨_, moved (h.trans hw)⟩)) ?_ ?_
            · rintro _ _ w' ⟨_, hlink⟩
              exact Or.inl ⟨_, rfl, moved (hlink.trans hw)⟩
            · rintro e _ w' ⟨h, _⟩
              cases h
          · rintro e _ w' ⟨hfault, hget⟩
            exact Or.inr ⟨⟨e, rfl, .fault hfault⟩, hget.trans (get_same (hfs.trans hsame) _)⟩
    · rename_i hempty
      exact Or.inr ⟨⟨_, rfl, .none (hread current rfl) (by simpa using hempty)⟩,
        get_same hsame _⟩
  · rintro e _ w' ⟨⟨hfs, _, hfail⟩, _⟩
    exact Or.inr ⟨⟨e, rfl, .fault (hfail e rfl).1⟩, get_same hfs _⟩

/-- A kill may meet a world within the footprint, with the state file as it
was or whole and new. -/
theorem wp_pointed {X : Path → Prop} {P : World → Prop} {α : Type} {p : Program device Unit α}
    {Q : α → World → Prop} (hp : Uses (Touches X) p)
    (h : wp answer A (fun _ w' _ => P w') p (fun a _ w' => Q a w') () w)
    (hB : ∀ m w' op, Touches X op → Within X w w' → P w' → B m w' op) :
    wp answer A B p (fun a _ w' => Q a w' ∧ Within X w w') () w :=
  wp_mono (fun _ _ _ h => h) (fun m w' op h => hB m w' op h.2.1 h.2.2 h.1)
    (fun _ _ _ h => h)
    (wp_and h (wp_within (B := fun _ w' op => Touches X op ∧ Within X w w') hp
      fun _ _ _ ho hw => ⟨ho, hw⟩))

theorem activate_step
    (hB : ∀ m w' op, Touches (Pointed o) op → Within (Pointed o) w w' →
      Activating o A r w w' → B m w' op) :
    wp answer A B (activate o r).run
      (fun res _ w' =>
        ((res = .ok () ∧ ValidId r ∧ Activated o A r w w') ∨
          (∃ e, res = .error e) ∧ w'.fs.get o.statePath = w.fs.get o.statePath) ∧
        Within (Pointed o) w w') () w :=
  wp_pointed activate_uses (activate_moves fun _ _ _ h => h) hB

theorem rollback_step
    (hB : ∀ m w' op, Touches (Pointed o) op → Within (Pointed o) w w' →
      Reverting o A w w' → B m w' op) :
    wp answer A B (rollback o).run
      (fun res _ w' =>
        ((∃ target, res = .ok target ∧ RolledBack o A target w w') ∨
          (∃ e, res = .error e ∧ NoRollback o A w e) ∧
            w'.fs.get o.statePath = w.fs.get o.statePath) ∧
        Within (Pointed o) w w') () w :=
  wp_pointed rollback_uses (rollback_moves fun _ _ _ h => h) hB

theorem activate_spec (hB : Safe B (Pointed o) w) :
    wp answer A B (activate o r).run
      (fun res _ w' =>
        ((res = .ok () ∧ ValidId r ∧ Activated o A r w w') ∨
          (∃ e, res = .error e) ∧ w'.fs.get o.statePath = w.fs.get o.statePath) ∧
        Within (Pointed o) w w') () w :=
  activate_step fun m w' op ho hw _ => hB m w' op ho hw

theorem rollback_spec (hB : Safe B (Pointed o) w) :
    wp answer A B (rollback o).run
      (fun res _ w' =>
        ((∃ target, res = .ok target ∧ RolledBack o A target w w') ∨
          (∃ e, res = .error e ∧ NoRollback o A w e) ∧
            w'.fs.get o.statePath = w.fs.get o.statePath) ∧
        Within (Pointed o) w w') () w :=
  rollback_step fun m w' op ho hw _ => hB m w' op ho hw

/-! ## `prune` -/

theorem survey_names (names : List String) (h : ∀ n ∈ names, ProperName n = true) :
    wp answer A Anywhere (survey o names).run
      (fun res _ _ => ∀ found, res = .ok found → ∀ x ∈ found, ValidId x.2) () w := by
  induction names generalizing w with
  | nil =>
      intro found hf x hx
      cases hf
      cases hx
  | cons n rest ih =>
      have hrest : ∀ m ∈ rest, ProperName m = true := fun m hm => h m (List.mem_cons_of_mem n hm)
      refine wp_seq.mpr (wp_file.mpr ⟨trivial, fun c _ => ?_⟩)
      show wp _ _ _ (ExceptT.run (ite _ _ _)) _ _ _
      split
      · rename_i hdir
        simp only [Bool.and_eq_true, Bool.not_eq_true'] at hdir
        refine wp_seq.mpr (wp_file.mpr ⟨trivial, fun c' _ => ?_⟩)
        refine wp_seq_of (ih hrest) ?_ ?_
        · intro found _ w' hfound all hall x hx
          cases hall
          rcases List.mem_cons.mp hx with rfl | hx
          · exact ⟨h n List.mem_cons_self, hdir.2⟩
          · exact hfound found rfl x hx
        · intro e _ w' _ all hall
          cases hall
      · exact ih hrest

/-- What `installed` lists are names of releases. -/
theorem installed_names :
    wp answer A Anywhere (installed o).run
      (fun res _ _ => ∀ names, res = .ok names → ∀ n ∈ names, ValidId n) () w := by
  unfold installed
  refine wp_seq.mpr (wp_file.mpr ⟨trivial, fun c _ => ?_⟩)
  show wp _ _ _ (ExceptT.run (ite _ _ _)) _ _ _
  split
  · refine wp_seq.mpr (wp_orFail.mpr (wp_file.mpr ⟨trivial, fun c' _ => ?_⟩))
    cases hl : (answer c' (.file (.list o.releasesRoot))
        (answer c (.file (.isDirectory o.releasesRoot)) w).2).1 with
    | error e =>
        intro names hn
        cases hn
    | ok entries =>
        refine wp_seq_of (survey_names entries.items fun n hn => listed_proper hl hn) ?_ ?_
        · intro found _ w' hfound
          cases entries.broken with
          | some why =>
              intro names hn
              cases hn
          | none =>
              intro names hn n hmem
              cases hn
              obtain ⟨x, hx, rfl⟩ := List.mem_map.mp hmem
              exact hfound found rfl x ((List.mem_insertionSort _).mp hx)
        · intro e _ w' _ names hn
          cases hn
  · intro names hn n hmem
    cases hn
    cases hmem
where
  listed_proper {c : Choice} {w : World} {p : Path} {entries : Listing String} {n : String}
      (hl : (answer c (.file (.list p)) w).1 = .ok entries) (hn : n ∈ entries.items) :
      ProperName n = true := by
    simp only [answer_fst, perform, FileOp.answer] at hl
    split at hl
    · cases hl
      have hmem := mem_arrange.mp (Chance.mem_listing hn)
      have hp := (w.bury c.dead).fs.proper (FileTree.mem_children.mp hmem)
      exact properPath_singleton.mp (properPath_append.mp hp).2
    · cases hl

/-- `prune` removes releases, but none of the two that the state it read
names. -/
theorem prune_spec (hB : ∀ s, Reads o A w s → Safe B (Pruned o s) w) :
    wp answer A B (prune o).run
      (fun _ _ w' => ∃ s, Reads o A w s ∧ Within (Pruned o s) w w') () w := by
  have hnow : Reads o A w (onDisk o w.fs) := Or.inl rfl
  unfold prune
  refine wp_seq_of (state_spec (A := A) ((hB _ hnow).mono fun _ h => h.elim)) ?_ ?_
  · rintro current _ w₁ ⟨⟨_, hread, _⟩, hw₁⟩
    have hcur := hread current rfl
    have hw₁' : Within (Pruned o current) w w₁ := hw₁.mono fun _ h => h.elim
    have hB₁ := (hB current hcur).after hw₁'
    refine wp_seq_of (wp_both installed_names (wp_within installed_uses hB₁)) ?_ ?_
    · rintro releases _ w₂ ⟨hnames, hw₂⟩
      refine wp_conseq (wp_within (pruneAll_uses (hnames releases rfl) 0 0) (hB₁.after hw₂)) ?_
      intro _ _ w₃ hw₃
      exact ⟨current, hcur, (hw₁'.trans hw₂).trans hw₃⟩
    · rintro e _ w₂ ⟨_, hw₂⟩
      exact ⟨current, hcur, hw₁'.trans hw₂⟩
  · rintro e _ w₁ ⟨_, hw₁⟩
    exact ⟨_, hnow, hw₁.mono fun _ h => h.elim⟩

end Install

end Yirang
