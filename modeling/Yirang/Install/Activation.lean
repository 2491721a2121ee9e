/-
# `Yirang.Install.Activation` — what the state file promises

The two releases that the state file names are installed, and they are two.
Every call of the installer keeps it so, however it fails, as long as a
`stat` of the state file tells the truth: one that fails reads as "nothing is
active", and then `prune` removes what is.

    Sound             the invariant
    serve_sound       every call keeps it, and so does every kill outside of
                      the two renames of `publish_staging`
    activation_sound  so it holds all through a run, and what follows from it
-/
import Yirang.Install.Session
import Yirang.Install.Prune

namespace Yirang

open Fs Effect Device

namespace Install

variable {o : InstallOptions} {A : World → Op → Choice → Prop} {w w' : World} {r : String}

/-! ## The invariant -/

structure Sound (o : InstallOptions) (t : FileTree Content) : Prop where
  active : (onDisk o t).active ≠ "" → Installed o t (onDisk o t).active
  previous : (onDisk o t).previous ≠ "" → Installed o t (onDisk o t).previous
  apart : (onDisk o t).previous ≠ "" → (onDisk o t).previous ≠ (onDisk o t).active
  second : (onDisk o t).previous ≠ "" → (onDisk o t).active ≠ ""

theorem sound_of_none {t : FileTree Content} (h : t.get o.statePath = none) : Sound o t := by
  have hempty := onDisk_of_none h
  constructor <;> rw [hempty] <;> exact fun hne => absurd rfl hne

/-- The state file stays, and the releases that it names. -/
theorem Sound.keep {t t' : FileTree Content} (h : Sound o t)
    (hstate : t'.get o.statePath = t.get o.statePath)
    (hdirs : ∀ a, ValidId a → a = (onDisk o t).active ∨ a = (onDisk o t).previous →
      t.isDir (o.releaseDirectory a) = true → t'.isDir (o.releaseDirectory a) = true) :
    Sound o t' := by
  have hdisk := onDisk_of_get hstate
  refine ⟨?_, ?_, ?_, ?_⟩ <;> rw [hdisk]
  · intro hne
    obtain ⟨hvalid, hthere⟩ := h.active hne
    exact ⟨hvalid, hdirs _ hvalid (Or.inl rfl) hthere⟩
  · intro hne
    obtain ⟨hvalid, hthere⟩ := h.previous hne
    exact ⟨hvalid, hdirs _ hvalid (Or.inr rfl) hthere⟩
  · exact h.apart
  · exact h.second

/-- A call that writes neither the state file nor a release that it names. -/
theorem Sound.within {X : Path → Prop} (h : Sound o w.fs) (hw : Within X w w')
    (hstate : ¬ X o.statePath)
    (hdirs : ∀ a, ValidId a → a = (onDisk o w.fs).active ∨ a = (onDisk o w.fs).previous →
      ∀ x, ¬ X (o.releaseDirectory a ++ x)) : Sound o w'.fs := by
  refine h.keep (hw.files hstate) fun a ha hnamed hthere => ?_
  rw [(carries_within hw (hdirs a ha hnamed)).isDir]
  exact hthere

theorem dir_pointed (h : Within (Pointed o) w w') {a : String} (ha : ValidId a) :
    w'.fs.isDir (o.releaseDirectory a) = w.fs.isDir (o.releaseDirectory a) :=
  (carries_within h fun _ => not_pointed_release ha).isDir

theorem Sound.activated (h : Sound o w.fs) (hA : Honest o A) (hr : ValidId r)
    (hact : Activated o A r w w') (hw : Within (Pointed o) w w') : Sound o w'.fs := by
  have hinstalled : Installed o w'.fs r := ⟨hr, (dir_pointed hw hr).trans hact.there⟩
  have hkept : ∀ {a : String}, Installed o w.fs a → Installed o w'.fs a := fun ha =>
    ⟨ha.valid, (dir_pointed hw ha.valid).trans ha.there⟩
  have hne : r ≠ "" := fun he => absurd (he ▸ hr.proper) (by decide)
  obtain ⟨s, hs, hprevious⟩ := hact.previous
  rw [hs.honest hA] at hprevious
  by_cases hsame : (onDisk o w.fs).active = r
  · -- nothing but the time changes
    rw [if_pos hsame] at hprevious
    refine ⟨fun _ => hact.active ▸ hinstalled, fun hp => ?_, fun hp => ?_,
      fun _ => hact.active ▸ hne⟩
    · rw [hprevious] at hp ⊢
      exact hkept (h.previous hp)
    · rw [hprevious] at hp ⊢
      rw [hact.active, ← hsame]
      exact h.apart hp
  · rw [if_neg hsame] at hprevious
    refine ⟨fun _ => hact.active ▸ hinstalled, fun hp => ?_, fun hp => ?_,
      fun _ => hact.active ▸ hne⟩
    · rw [hprevious] at hp ⊢
      exact hkept (h.active hp)
    · rw [hprevious, hact.active]
      exact hsame

theorem Sound.rolledBack {target : String} (h : Sound o w.fs) (hA : Honest o A)
    (hback : RolledBack o A target w w') (hw : Within (Pointed o) w w') : Sound o w'.fs := by
  obtain ⟨s, hs, htarget, hprevious⟩ := hback.read
  rw [hs.honest hA] at htarget hprevious
  have hne : (onDisk o w.fs).previous ≠ "" := htarget ▸ hback.target_ne
  have hkept : ∀ {a : String}, Installed o w.fs a → Installed o w'.fs a := fun ha =>
    ⟨ha.valid, (dir_pointed hw ha.valid).trans ha.there⟩
  have hactive : (onDisk o w'.fs).active = (onDisk o w.fs).previous :=
    hback.active.trans htarget.symm
  refine ⟨fun _ => ?_, fun hp => ?_, fun hp => ?_, fun _ => ?_⟩
  · rw [hactive]
    exact hkept (h.previous hne)
  · rw [hprevious] at hp ⊢
    exact hkept (h.active hp)
  · rw [hprevious, hactive]
    exact (h.apart hne).symm
  · rw [hactive]
    exact hne

/-! ## Every call keeps it -/

/-- In front of every call but those renames. -/
def Steady (o : InstallOptions) (_ : Unit) (w : World) (op : Op) : Prop :=
  Unbroken o op → Sound o w.fs

/-- What `install` may leave: every other release, and that one if it was
there. -/
theorem Sound.installed (h : Sound o w.fs) (hw : Within (Installs o r) w w')
    (hrel : w.fs.isDir (o.releaseDirectory r) = true → w'.fs.isDir (o.releaseDirectory r) = true) :
    Sound o w'.fs := by
  refine h.keep (hw.files (not_installs_beside (by decide))) fun a ha _ hthere => ?_
  by_cases har : a = r
  · subst har
    exact hrel hthere
  · rw [(carries_within hw fun _ => not_installs_release ha har).isDir]
    exact hthere

/-- The pointer is where it was, or was moved. -/
theorem Sound.pointed (h : Sound o w.fs) (hw : Within (Pointed o) w w')
    (hstate : w'.fs.get o.statePath = w.fs.get o.statePath) : Sound o w'.fs := by
  refine h.keep hstate fun a ha _ hthere => ?_
  rw [dir_pointed hw ha]
  exact hthere

section Calls

theorem install_sound (hR : Restoring o A) (h : Sound o w.fs) (source : Path) :
    wp answer A (Steady o) (install o r source).run (fun _ _ w' => Sound o w'.fs) () w := by
  refine wp_conseq (install_spec fun hr => ?_) ?_
  · intro m w' op _ hw hstands hun
    refine h.installed (hw.mono fun _ hq => ⟨hr, hq⟩) fun hthere => ?_
    rcases hstands with hk | hdir | honto | hno
    · rw [hk.isDir]
      exact hthere
    · exact hdir
    · exact absurd honto (hun r hr)
    · exact absurd (hR r hr) hno
  · rintro res _ w' ⟨hw, hlaid⟩
    cases hlaid with
    | ok _ hdir _ => exact h.installed hw fun _ => hdir
    | failed hunpublished =>
        refine h.installed hw fun hthere => ?_
        cases hunpublished with
        | kept hk =>
            rw [hk.isDir]
            exact hthere
        | aside hno _ =>
            by_cases hr : ValidId r
            · exact absurd (hR r hr) hno
            · have hsame := hw.files (q := o.releaseDirectory r) fun hq => hr hq.1
              rw [FileTree.isDir_iff, hsame]
              exact FileTree.isDir_iff.mp hthere

variable (hA : Honest o A) (h : Sound o w.fs)

include hA h

theorem activate_sound :
    wp answer A (Steady o) (activate o r).run (fun _ _ w' => Sound o w'.fs) () w := by
  refine wp_conseq (activate_step ?_) ?_
  · intro m w' op _ hw hpoint _
    rcases hpoint with hsame | ⟨hr, hact⟩
    · exact h.pointed hw hsame
    · exact h.activated hA hr hact hw
  · rintro res _ w' ⟨⟨_, hr, hact⟩ | ⟨_, hsame⟩, hw⟩
    · exact h.activated hA hr hact hw
    · exact h.pointed hw hsame

theorem rollback_sound :
    wp answer A (Steady o) (rollback o).run (fun _ _ w' => Sound o w'.fs) () w := by
  refine wp_conseq (rollback_step ?_) ?_
  · intro m w' op _ hw hpoint _
    rcases hpoint with hsame | ⟨target, hback⟩
    · exact h.pointed hw hsame
    · exact h.rolledBack hA hback hw
  · rintro res _ w' ⟨⟨target, _, hback⟩ | ⟨_, hsame⟩, hw⟩
    · exact h.rolledBack hA hback hw
    · exact h.pointed hw hsame

/-- How many releases are kept does not matter. -/
theorem prune_sound (k : Int) :
    wp answer A (Steady o) (prune { o with keepPreviousReleases := k }).run
      (fun _ _ w' => Sound o w'.fs) () w := by
  have kept : ∀ {s : ActivationState} {w' : World}, Reads o A w s → Within (Pruned o s) w w' →
      Sound o w'.fs := by
    intro s w' hs hw
    refine h.within hw (not_pruned_beside (by decide)) fun a ha hnamed x => ?_
    rw [hs.honest hA]
    exact not_pruned_release ha hnamed
  refine wp_conseq (prune_spec (o := { o with keepPreviousReleases := k })
    fun s hs m w' op _ hw _ => kept hs hw) ?_
  rintro res _ w' ⟨s, hs, hw⟩
  exact kept hs hw

end Calls

theorem serve_sound (hA : Honest o A) (hR : Restoring o A) (h : Sound o w.fs) (c : Call) :
    wp answer A (Steady o) (serve o c).run (fun _ _ w' => Sound o w'.fs) () w := by
  cases c with
  | install r source => exact install_sound hR h source
  | activate r => exact activate_sound hA h
  | rollback => exact wp_seq_of (rollback_sound hA h) (fun _ _ _ hs => hs) fun _ _ _ hs => hs
  | prune k => exact wp_seq_of (prune_sound hA h k) (fun _ _ _ hs => hs) fun _ _ _ hs => hs

/-! ## What follows from it -/

/-- The call did what it was made for. -/
def Went : (op : Op) → Op.Res op → Prop
  | .file (.createDirectories _), res | .file (.write _ _), res | .file (.rename _ _), res =>
      res.isOk = true
  | _, _ => True

/-- No call to the file system fails. -/
def Permits (w : World) (op : Op) (c : Choice) : Prop :=
  c.chance.fault = none ∧ c.chance.cut = none ∧ Went op (answer c op w).1

theorem faithful_permits : Faithful o Permits :=
  ⟨fun _ _ h => h.1, fun _ _ h => ⟨h.1, h.2.1⟩⟩

theorem writeState_permitted (next : ActivationState) :
    wp answer Permits Anywhere (writeState o next).run (fun res _ _ => res = .ok ()) () w := by
  unfold writeState
  refine wp_seq.mpr (wp_orFail.mpr (wp_file.mpr ⟨trivial, fun c hc => ?_⟩))
  have hmade := hc.2.2
  cases hres : (answer c (.file (.createDirectories o.root)) w).1 with
  | error e =>
      rw [hres] at hmade
      cases hmade
  | ok _ =>
      refine wp_seq.mpr (wp_orFail.mpr (wp_file.mpr ⟨trivial, fun c₂ hc₂ => ?_⟩))
      have hwritten := hc₂.2.2
      generalize (answer c (.file (.createDirectories o.root)) w).2 = w₁ at *
      cases hres₂ : (answer c₂ (.file (.write o.stateTemporary (.json next.toJson))) w₁).1 with
      | error e =>
          rw [hres₂] at hwritten
          cases hwritten
      | ok _ =>
          refine wp_seq.mpr (wp_file.mpr ⟨trivial, fun c₃ hc₃ => ?_⟩)
          have hmoved := hc₃.2.2
          generalize (answer c₂ (.file (.write o.stateTemporary (.json next.toJson))) w₁).2 = w₂
            at *
          cases hres₃ : (answer c₃ (.file (.rename o.stateTemporary o.statePath)) w₂).1 with
          | error e =>
              rw [hres₃] at hmoved
              cases hmoved
          | ok _ => rfl

/-- If no call fails, there is a way back exactly if there is a release to go
back to. -/
theorem rollback_permitted (h : Sound o w.fs) :
    wp answer Permits Anywhere (rollback o).run
      (fun res _ _ => (∃ target, res = .ok target) ↔ (onDisk o w.fs).previous ≠ "") () w := by
  have failed : ∀ {e : InstallError}, (onDisk o w.fs).previous = "" →
      ((∃ target, (Except.error e : Except InstallError String) = .ok target) ↔
        (onDisk o w.fs).previous ≠ "") := by
    intro e hempty
    exact iff_of_false (fun ⟨_, he⟩ => by cases he) fun hne => hne hempty
  unfold rollback
  refine wp_seq_of state_reads ?_ ?_
  · rintro current _ w₁ ⟨hfs, hread, -⟩
    have hcurrent := (hread current rfl).honest faithful_permits.honest
    refine wp_require_seq.mpr ?_
    split
    · rename_i hne
      rw [hcurrent, decide_eq_true_eq] at hne
      refine wp_seq.mpr (wp_file.mpr ⟨trivial, fun c hc => ?_⟩)
      have hthere : (answer c (.file (.isDirectory (o.releaseDirectory current.previous)))
          w₁).1 = true := by
        have hdir : (w₁.bury c.dead).fs.isDir (o.releaseDirectory current.previous) = true := by
          show w₁.fs.isDir _ = true
          rw [hfs, hcurrent]
          exact (h.previous hne).there
        simp [answer_fst, perform, FileOp.answer, hc.1, hdir]
      rw [hthere]
      refine wp_require_seq.mpr (wp_seq.mpr (wp_ask.mpr ⟨trivial, fun c' _ => ?_⟩))
      refine wp_seq_of (writeState_permitted _) ?_ ?_
      · intro _ _ w₂ _
        refine wp_seq_of (refreshCurrentLink_spec fun _ _ _ _ => trivial) ?_ ?_
        · intro _ _ w₃ _
          exact iff_of_true ⟨_, rfl⟩ hne
        · rintro e _ w₃ ⟨he, -⟩
          cases he
      · intro e _ w₂ he
        cases he
    · rename_i hempty
      rw [hcurrent] at hempty
      exact failed (by simpa using hempty)
  · rintro e _ w₁ ⟨-, -, hfail⟩
    refine failed ?_
    rw [(hfail e rfl).2 faithful_permits]

theorem rolledBack_of_exec {target : String} {m : Unit}
    (he : Exec answer A (rollback o).run () w (.done (.ok target) m) w') :
    RolledBack o A target w w' := by
  have hends := wp_done he (rollback_moves (B := Anywhere (E := device)) fun _ _ _ _ => trivial)
  rcases hends with ⟨target', htarget, hback⟩ | ⟨⟨e, hfail, -⟩, -⟩
  · cases htarget
    exact hback
  · cases hfail

theorem activate_again (hA : Honest o A) {res : Except InstallError Unit} {m : Unit}
    (he : Exec answer A (activate o (onDisk o w.fs).active).run () w (.done res m) w') :
    (onDisk o w'.fs).active = (onDisk o w.fs).active ∧
      (onDisk o w'.fs).previous = (onDisk o w.fs).previous := by
  have hends := wp_done he (activate_moves (B := Anywhere (E := device)) fun _ _ _ _ => trivial)
  rcases hends with ⟨-, -, hact⟩ | ⟨-, hsame⟩
  · obtain ⟨s, hs, hprevious⟩ := hact.previous
    rw [hs.honest hA, if_pos rfl] at hprevious
    exact ⟨hact.active, hprevious⟩
  · rw [onDisk_of_get hsame]
    exact ⟨rfl, rfl⟩

/-- What holds of a disk, and of the calls that are made there. -/
structure Promises (o : InstallOptions) (A : World → Op → Choice → Prop) (w : World) : Prop where
  sound : Sound o w.fs
  /-- There is a way back exactly if there is a release to go back to. -/
  back : ∀ {res : Except InstallError String} {w' : World},
    Exec answer Permits (rollback o).run () w (.done res ()) w' →
      ((∃ target, res = .ok target) ↔ (onDisk o w.fs).previous ≠ "")
  /-- Back and back again. -/
  twice : ∀ {target target' : String} {w₁ w₂ : World},
    Exec answer A (rollback o).run () w (.done (.ok target) ()) w₁ →
    Exec answer A (rollback o).run () w₁ (.done (.ok target') ()) w₂ →
      (onDisk o w₂.fs).active = (onDisk o w.fs).active ∧
        (onDisk o w₂.fs).previous = (onDisk o w.fs).previous
  again : ∀ {res : Except InstallError Unit} {w' : World},
    Exec answer A (activate o (onDisk o w.fs).active).run () w (.done res ()) w' →
      (onDisk o w'.fs).active = (onDisk o w.fs).active ∧
        (onDisk o w'.fs).previous = (onDisk o w.fs).previous

theorem Sound.promises (h : Sound o w.fs) (hA : Honest o A) : Promises o A w := by
  refine ⟨h, fun he => wp_done he (rollback_permitted h), fun he he' => ?_, activate_again hA⟩
  obtain ⟨s, hs, htarget, hprevious⟩ := (rolledBack_of_exec he).read
  obtain ⟨s', hs', htarget', hprevious'⟩ := (rolledBack_of_exec he').read
  rw [hs.honest hA] at htarget hprevious
  rw [hs'.honest hA] at htarget' hprevious'
  refine ⟨?_, ?_⟩
  · rw [(rolledBack_of_exec he').active, ← htarget', hprevious]
  · rw [hprevious', (rolledBack_of_exec he).active, htarget]

/-- In every run of the installer that begins without a state file, where no
`stat` of the state file fails. -/
theorem activation_sound (hA : Honest o A) (hR : Restoring o A) {w₀ : World}
    (h0 : w₀.fs.get o.statePath = none) {ph : Phase Unit}
    (hr : Runs answer A (fun _ _ op => Unbroken o op) (fun _ _ _ => True) (installer o) w₀ ph w) :
    Promises o A w := by
  have hsound : ph.Holds (fun w => Sound o w.fs) (fun _ w => Sound o w.fs) w := by
    refine hr.invariant (B := Steady o) (J := fun w => Sound o w.fs) (I := fun _ w => Sound o w.fs)
      (sound_of_none h0) ?_ (fun _ _ h => h) ?_ ?_
    · intro _ w' op hB hK
      exact hB hK
    · intro w' h
      exact h
    · intro _ w' c h _
      exact serve_sound hA hR h c
  cases ph with
  | down => exact Sound.promises hsound hA
  | up m => exact Sound.promises hsound hA

namespace Sample

/-- A release is installed, and nothing was active yet. -/
def unused : World :=
  .idle (.ofFiles [(["srv", "releases", "r1", "app"], .text "one")]) "boot"

/-- Every rename goes through. -/
def renames (w : World) (op : Op) (c : Choice) : Bool :=
  match op with
  | .file (.rename a b) => (answer c (.file (.rename a b)) w).1.isOk
  | _ => true

def seeing (w : World) (op : Op) (c : Choice) : Prop :=
  c.chance.fault = none ∧ renames w op c = true

instance (w : World) (op : Op) (c : Choice) : Decidable (seeing w op c) :=
  inferInstanceAs (Decidable (_ ∧ _))

theorem restoring_of_renames {A : World → Op → Choice → Prop}
    (h : ∀ w op c, A w op c → renames w op c = true) : Restoring options A := by
  intro r _ w c hc
  have hok := h _ _ _ hc
  simp only [renames] at hok
  cases hres : (answer c (.file (.rename (options.retiredDirectory r)
      (options.releaseDirectory r))) w).1 with
  | ok _ => rfl
  | error e =>
      rw [hres] at hok
      cases hok

/-- `r1` becomes active, and the others are removed. -/
def activated : World :=
  ((serve options (.activate "r1")).run.run answer (List.replicate 8 {}) () unused).2

theorem activates {A : World → Op → Choice → Prop}
    (h : (serve options (.activate "r1")).run.Admits answer A (List.replicate 8 {}) () unused) :
    Exec answer A (serve options (.activate "r1")).run () unused (.done (.ok ()) ()) activated :=
  exec_run h

end Sample

theorem activation_sound_pruned :
    ∃ w', Runs answer Sample.seeing (fun _ _ op => Unbroken Sample.options op)
        (fun _ _ _ => True) (installer Sample.options) Sample.unused (.up ()) w' ∧
      Promises Sample.options Sample.seeing w' := by
  have hactivate := Sample.activates (A := Sample.seeing) (by decide +kernel)
  have hprune : Exec answer Sample.seeing (serve Sample.options (.prune 0)).run ()
      Sample.activated (.done (.ok ()) ()) _ :=
    exec_of_run (l := List.replicate 8 {}) (by decide +kernel) rfl
  have hrun : Runs answer Sample.seeing (fun _ _ op => Unbroken Sample.options op)
      (fun _ _ _ => True) (installer Sample.options) Sample.unused (.up ()) _ :=
    .call (.prune 0) (.call (.activate "r1") (.boot .first (.pure _ _ _)) trivial hactivate)
      trivial hprune
  refine ⟨_, hrun, activation_sound ?_ ?_ rfl hrun⟩
  · exact fun _ _ h _ => h.1
  · exact Sample.restoring_of_renames fun _ _ _ h => h.2

/-- A `stat` fails, and the active release is removed. -/
theorem active_is_lost :
    ∃ w', Runs answer (fun w op c => Sample.renames w op c = true)
        (fun _ _ op => Unbroken Sample.options op) (fun _ _ _ => True) (installer Sample.options)
        Sample.unused (.up ()) w' ∧
      Restoring Sample.options (fun w op c => Sample.renames w op c = true) ∧
      ¬ Sound Sample.options w'.fs := by
  have hactivate := Sample.activates (A := fun w op c => Sample.renames w op c = true)
    (by decide +kernel)
  have hprune : Exec answer (fun w op c => Sample.renames w op c = true)
      (serve Sample.options (.prune 0)).run () Sample.activated (.done (.ok ()) ()) _ :=
    exec_of_run (l := Sample.unseen :: List.replicate 8 {}) (by decide +kernel) rfl
  refine ⟨_, .call (.prune 0) (.call (.activate "r1") (.boot .first (.pure _ _ _)) trivial
    hactivate) trivial hprune, Sample.restoring_of_renames fun _ _ _ h => h, fun h => ?_⟩
  have hthere := (h.active (by decide +kernel)).there
  revert hthere
  decide +kernel

end Install

end Yirang
