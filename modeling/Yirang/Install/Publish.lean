/-
# `Yirang.Install.Publish` — how a release gets its directory

`publish_staging` replaces a release by two renames: the old copy goes
aside, the new one takes its place.  Where the second fails a third puts the
old copy back.

    Carries      what one world has at a path, another has at a path
    Unpublished  the two ways the call fails: the old copy was kept, or it is
                 left aside
    Standing     what holds of the release's directory in front of every call:
                 it is as it was, or it is there, or the next call is a rename
                 onto it
-/
import Yirang.Install.Copy

namespace Yirang

open Fs Effect Device

namespace Install

variable {o : InstallOptions} {A : World → Op → Choice → Prop} {B : Unit → World → Op → Prop}
  {w w' w'' : World} {r : String} {source : Path}

/-! ## Whole directories -/

/-- What `w` has under `p`, `w'` has under `q`. -/
def Carries (w : World) (p : Path) (w' : World) (q : Path) : Prop :=
  ∀ x, w'.fs.get (q ++ x) = w.fs.get (p ++ x)

theorem Carries.trans {p q s : Path} (h : Carries w p w' q) (h' : Carries w' q w'' s) :
    Carries w p w'' s :=
  fun x => (h' x).trans (h x)

theorem Carries.isDir {p q : Path} (h : Carries w p w' q) : w'.fs.isDir q = w.fs.isDir p := by
  have hx := h []
  rw [List.append_nil, List.append_nil] at hx
  simp only [FileTree.isDir, hx]

theorem carries_of_fs {p : Path} (h : w'.fs = w.fs) : Carries w p w' p := fun _ => by rw [h]

theorem carries_within {X : Path → Prop} {p : Path} (h : Within X w w')
    (hX : ∀ x, ¬ X (p ++ x)) : Carries w p w' p :=
  fun x => h.files (hX x)

theorem carries_frame {c : Choice} {f : FileOp Content} {p : Path}
    (h : ∀ x, ¬ f.writes (p ++ x)) : Carries w p (answer c (.file f) w).2 p :=
  fun x => file_frame (h x)

theorem carries_rename {c : Choice} {a b : Path}
    (h : (answer c (.file (.rename a b)) w).1 = .ok ()) :
    Carries w a (answer c (.file (.rename a b)) w).2 b := fun x => by
  rw [FileTree.get_moveAt (rename_ok h), if_pos (List.prefix_append b x), FileTree.movedFrom_append]

/-! ## The three names of a release -/

theorem not_under_child {base : Path} {m n : String} (h : m ≠ n) (x : Path) :
    ¬ base ++ [m] <+: base ++ [n] ++ x := fun hp =>
  h (child_unique hp (List.prefix_append _ x))

theorem staging_ne_retired (r r' : String) : kStagingPrefix ++ r ≠ kRetiredPrefix ++ r' :=
  fun h => by
    have hl := congrArg String.toList h
    simp [kStagingPrefix, kRetiredPrefix] at hl

section Names

variable (hr : ValidId r)

include hr

theorem ValidId.ne_retired (r' : String) : r ≠ kRetiredPrefix ++ r' := fun e => by
  have h := hr.not_retired
  rw [e, startsWith_append] at h
  cases h

theorem not_retired_release (x : Path) : ¬ Retired o (o.releaseDirectory r ++ x) := by
  rintro ⟨n, hn, h⟩
  rw [hr.releaseDirectory] at h
  rw [child_unique h (List.prefix_append _ x), hr.not_retired] at hn
  cases hn

theorem not_retired_staging (x : Path) : ¬ Retired o (o.stagingDirectory r ++ x) := by
  rintro ⟨n, hn, h⟩
  rw [hr.stagingDirectory] at h
  rw [child_unique h (List.prefix_append _ x)] at hn
  obtain ⟨s, hs⟩ := startsWith_iff.mp hn
  rw [String.toList_append] at hs
  simp [kStagingPrefix, kRetiredPrefix] at hs

theorem not_copied_release {a : String} (ha : ValidId a) (x : Path) :
    ¬ Copied o r (o.releaseDirectory a ++ x) := by
  rw [Copied, hr.stagingDirectory, ha.releaseDirectory]
  rintro (h | h)
  · refine ha.ne_staging r ?_
    exact (child_unique List.prefix_rfl ((List.prefix_append _ x).trans h)).symm
  · exact not_under_child (ha.ne_staging r).symm x h

/-- The moves of one release's directories leave its other ones. -/
theorem names_apart (x : Path) :
    (¬ o.retiredDirectory r <+: o.releaseDirectory r ++ x) ∧
    (¬ o.stagingDirectory r <+: o.releaseDirectory r ++ x) ∧
    (¬ o.releaseDirectory r <+: o.stagingDirectory r ++ x) ∧
    (¬ o.retiredDirectory r <+: o.stagingDirectory r ++ x) ∧
    (¬ o.releaseDirectory r <+: o.retiredDirectory r ++ x) ∧
    ¬ o.stagingDirectory r <+: o.retiredDirectory r ++ x := by
  rw [hr.releaseDirectory, hr.stagingDirectory, hr.retiredDirectory]
  exact ⟨not_under_child (hr.ne_retired r).symm x, not_under_child (hr.ne_staging r).symm x,
    not_under_child (hr.ne_staging r) x, not_under_child (staging_ne_retired r r).symm x,
    not_under_child (hr.ne_retired r) x, not_under_child (staging_ne_retired r r) x⟩

end Names

/-! ## Publishing -/

/-- The rename that puts the old copy back does not fail. -/
def Restores (o : InstallOptions) (r : String) (A : World → Op → Choice → Prop) : Prop :=
  ∀ w c, A w (.file (.rename (o.retiredDirectory r) (o.releaseDirectory r))) c →
    (answer c (.file (.rename (o.retiredDirectory r) (o.releaseDirectory r))) w).1 = .ok ()

/-- How the directory of the release stands after an error. -/
inductive Unpublished (o : InstallOptions) (A : World → Op → Choice → Prop) (r : String)
    (w w' : World) : InstallError → Prop
  | kept {e : InstallError} : Carries w (o.releaseDirectory r) w' (o.releaseDirectory r) →
      Unpublished o A r w w' e
  | aside {why : String} : ¬ Restores o r A →
      Carries w (o.releaseDirectory r) w' (o.retiredDirectory r) →
      Unpublished o A r w w' (.leftAside (o.releaseDirectory r) why (o.retiredDirectory r))

/-- The call renames something onto `q`. -/
def Onto (q : Path) : Op → Prop
  | .file (.rename _ b) => b = q
  | _ => False

def Standing (o : InstallOptions) (A : World → Op → Choice → Prop) (r : String)
    (w w' : World) (op : Op) : Prop :=
  Carries w (o.releaseDirectory r) w' (o.releaseDirectory r) ∨
    w'.fs.isDir (o.releaseDirectory r) = true ∨ Onto (o.releaseDirectory r) op ∨
    ¬ Restores o r A

/-- The boundaries of an installation that starts in `w` are fit to be
killed in. -/
def Ready (o : InstallOptions) (A : World → Op → Choice → Prop) (r : String) (w : World)
    (B : Unit → World → Op → Prop) : Prop :=
  ∀ m w' op, Touches (Staged o r) op → Within (Staged o r) w w' → Standing o A r w w' op → B m w' op

theorem ready_anywhere : Ready o A r w (Anywhere (E := device)) := fun _ _ _ _ _ _ => trivial

theorem staged_of_retired {q : Path} (h : Retired o q) : Staged o r q :=
  Or.inr (Or.inr (Or.inr h))

theorem dropRetired_ok :
    wp answer A Anywhere (dropRetired o r).run (fun res _ _ => res = .ok ()) () w := by
  refine wp_seq.mpr (wp_file.mpr ⟨trivial, fun c _ => ?_⟩)
  cases (answer c (.file (.removeAll (o.retiredDirectory r))) w).1 with
  | ok _ => rfl
  | error e => exact ⟨trivial, fun _ _ => ⟨trivial, fun _ _ => rfl⟩⟩

section Publish

variable (hr : ValidId r) (hB : Ready o A r w B)

include hr hB

theorem safe_kept (hw : Within (Staged o r) w w')
    (hk : Carries w (o.releaseDirectory r) w' (o.releaseDirectory r)) :
    Safe B (Retired o) w' := fun m w'' op ht hw' =>
  hB m w'' op (ht.mono fun _ h => staged_of_retired h)
    (hw.trans (hw'.mono fun _ h => staged_of_retired h))
    (Or.inl (hk.trans (carries_within hw' (not_retired_release hr))))

/-- The old copy goes aside, or stays where it is. -/
theorem setAside_spec (hw : Within (Staged o r) w w')
    (hk : Carries w (o.releaseDirectory r) w' (o.releaseDirectory r)) :
    wp answer A B (setAside o r).run
      (fun res _ w'' => Within (Staged o r) w w'' ∧
        Carries w' (o.stagingDirectory r) w'' (o.stagingDirectory r) ∧
        (res = .ok () ∧ Carries w (o.releaseDirectory r) w'' (o.retiredDirectory r) ∨
          (∃ e, res = .error e) ∧
            Carries w (o.releaseDirectory r) w'' (o.releaseDirectory r))) () w' := by
  have hclear : Touches (Retired o) (.file (.removeAll (o.retiredDirectory r))) :=
    ⟨fun q h => retired_of_under hr h, id⟩
  have hmove : Touches (Staged o r)
      (.file (.rename (o.releaseDirectory r) (o.retiredDirectory r))) :=
    ⟨fun q h => h.elim (fun h => Or.inr (Or.inr (Or.inl h)))
      fun h => staged_of_retired (retired_of_under hr h), id⟩
  unfold setAside
  refine wp_seq.mpr (wp_orFail.mpr (wp_file.mpr
    ⟨safe_kept hr hB hw hk () w' _ hclear .refl, fun c _ => ?_⟩))
  have hw₁ := answer_within (c := c) (w := w') hclear
  have hs₁ := carries_within hw₁ (not_retired_staging (o := o) hr)
  have hk₁ := hk.trans (carries_within hw₁ (not_retired_release hr))
  have hin₁ := hw.trans (hw₁.mono fun _ h => staged_of_retired h)
  cases (answer c (.file (.removeAll (o.retiredDirectory r))) w').1 with
  | error e => exact ⟨hin₁, hs₁, Or.inr ⟨⟨_, rfl⟩, hk₁⟩⟩
  | ok _ =>
      revert hs₁ hk₁ hin₁
      generalize (answer c (.file (.removeAll (o.retiredDirectory r))) w').2 = w₁
      intro hs₁ hk₁ hin₁
      refine wp_orFail.mpr (wp_file.mpr ⟨hB () w₁ _ hmove hin₁ (Or.inl hk₁), fun c₂ _ => ?_⟩)
      have hin₂ := hin₁.trans (answer_within (c := c₂) (w := w₁) hmove)
      have hs₂ : Carries w₁ (o.stagingDirectory r)
          (answer c₂ (.file (.rename (o.releaseDirectory r) (o.retiredDirectory r))) w₁).2
          (o.stagingDirectory r) := carries_frame fun x h =>
        h.elim (names_apart hr x).2.2.1 (names_apart hr x).2.2.2.1
      cases hren : (answer c₂ (.file (.rename (o.releaseDirectory r)
          (o.retiredDirectory r))) w₁).1 with
      | error e =>
          exact ⟨hin₂, hs₁.trans hs₂, Or.inr ⟨⟨_, rfl⟩,
            hk₁.trans (carries_of_fs (rename_error hren))⟩⟩
      | ok _ => exact ⟨hin₂, hs₁.trans hs₂, Or.inl ⟨rfl, hk₁.trans (carries_rename hren)⟩⟩

/-- The copy that was set aside comes back, if it can. -/
theorem restore_spec {replacing : Bool} {reason : String} (hw : Within (Staged o r) w w')
    (hk : replacing = false → Carries w (o.releaseDirectory r) w' (o.releaseDirectory r))
    (ha : replacing = true → Carries w (o.releaseDirectory r) w' (o.retiredDirectory r)) :
    wp answer A B (restore o r replacing reason).run
      (fun res _ w'' => Within (Staged o r) w w'' ∧
        ∃ e, res = .error e ∧ Unpublished o A r w w'' e) () w' := by
  have hmove : Touches (Staged o r)
      (.file (.rename (o.retiredDirectory r) (o.releaseDirectory r))) :=
    ⟨fun q h => h.elim (fun h => staged_of_retired (retired_of_under hr h))
      fun h => Or.inr (Or.inr (Or.inl h)), id⟩
  cases replacing with
  | false => exact ⟨hw, _, rfl, .kept (hk rfl)⟩
  | true =>
      refine wp_seq.mpr (wp_file.mpr ⟨hB () w' _ hmove hw (Or.inr (Or.inr (Or.inl rfl))),
        fun c hc => ?_⟩)
      have hin := hw.trans (answer_within (c := c) (w := w') hmove)
      cases hren : (answer c (.file (.rename (o.retiredDirectory r)
          (o.releaseDirectory r))) w').1 with
      | ok _ => exact ⟨hin, _, rfl, .kept ((ha rfl).trans (carries_rename hren))⟩
      | error e =>
          refine ⟨hin, _, rfl, .aside (fun hA => ?_) ?_⟩
          · have hok := hA w' c hc
            rw [hren] at hok
            cases hok
          · exact (ha rfl).trans (carries_of_fs (rename_error hren))

theorem publishStaging_spec (hdir : w'.fs.isDir (o.stagingDirectory r) = true)
    (hw : Within (Staged o r) w w')
    (hk : Carries w (o.releaseDirectory r) w' (o.releaseDirectory r)) :
    wp answer A B (publishStaging o (o.stagingDirectory r) r).run
      (fun res _ w'' => Within (Staged o r) w w'' ∧
        (res = .ok () ∧ Carries w' (o.stagingDirectory r) w'' (o.releaseDirectory r) ∨
          ∃ e, res = .error e ∧ Unpublished o A r w w'' e)) () w' := by
  unfold publishStaging
  refine wp_seq_of (wp_within sweepRetired_uses (safe_kept hr hB hw hk)) ?_ ?_
  · intro _ _ w₁ hw₁
    have hk₁ := hk.trans (carries_within hw₁ (not_retired_release hr))
    have hs₁ := carries_within hw₁ (not_retired_staging (o := o) hr)
    have hin₁ := hw.trans (hw₁.mono fun _ h => staged_of_retired h)
    have hstat : Touches (Retired o) (.file (.exists_ (o.releaseDirectory r))) :=
      ⟨fun _ h => h.elim, id⟩
    refine wp_seq.mpr (wp_file.mpr ⟨safe_kept hr hB hin₁ hk₁ () w₁ _ hstat .refl, fun c _ => ?_⟩)
    have hw₂ := answer_within (c := c) (w := w₁) hstat
    have hfs₂ : (answer c (.file (.exists_ (o.releaseDirectory r))) w₁).2.fs = w₁.fs := rfl
    generalize (answer c (.file (.exists_ (o.releaseDirectory r))) w₁).1 = replacing
    revert hw₂ hfs₂
    generalize (answer c (.file (.exists_ (o.releaseDirectory r))) w₁).2 = w₂
    intro hw₂ hfs₂
    have hk₂ := hk₁.trans (carries_of_fs (p := o.releaseDirectory r) hfs₂)
    have hs₂ := hs₁.trans (carries_of_fs (p := o.stagingDirectory r) hfs₂)
    have hin₂ := hin₁.trans (hw₂.mono fun _ h => staged_of_retired h)
    refine wp_seq_of (P := fun res _ w₃ => Within (Staged o r) w w₃ ∧
      Carries w' (o.stagingDirectory r) w₃ (o.stagingDirectory r) ∧
      ((∃ e, res = .error e) ∧ Carries w (o.releaseDirectory r) w₃ (o.releaseDirectory r) ∨
        res = .ok () ∧
        (replacing = false → Carries w (o.releaseDirectory r) w₃ (o.releaseDirectory r)) ∧
        (replacing = true → Carries w (o.releaseDirectory r) w₃ (o.retiredDirectory r))))
      ?_ ?_ ?_
    · refine wp_provided.mpr ?_
      cases replacing with
      | false => exact ⟨hin₂, hs₂, Or.inr ⟨rfl, fun _ => hk₂, fun h => (by cases h)⟩⟩
      | true =>
          refine wp_conseq (setAside_spec hr hB hin₂ hk₂) ?_
          rintro res _ w₃ ⟨hin₃, hs₃, ⟨rfl, ha₃⟩ | ⟨he, hk₃⟩⟩
          · exact ⟨hin₃, hs₂.trans hs₃, Or.inr ⟨rfl, fun h => (by cases h), fun _ => ha₃⟩⟩
          · exact ⟨hin₃, hs₂.trans hs₃, Or.inl ⟨he, hk₃⟩⟩
    · rintro _ _ w₃ ⟨hin₃, hs₃, ⟨⟨e, he⟩, _⟩ | ⟨_, hk₃, ha₃⟩⟩
      · cases he
      have hmove : Touches (Staged o r)
          (.file (.rename (o.stagingDirectory r) (o.releaseDirectory r))) :=
        ⟨fun q h => h.elim (fun h => Or.inr (Or.inl h)) fun h => Or.inr (Or.inr (Or.inl h)), id⟩
      refine wp_seq.mpr (wp_file.mpr ⟨hB () w₃ _ hmove hin₃ (Or.inr (Or.inr (Or.inl rfl))),
        fun c _ => ?_⟩)
      have hin₄ := hin₃.trans (answer_within (c := c) (w := w₃) hmove)
      cases hren : (answer c (.file (.rename (o.stagingDirectory r)
          (o.releaseDirectory r))) w₃).1 with
      | error reason =>
          have hfs₄ := rename_error hren
          refine wp_conseq (restore_spec hr hB hin₄ (fun h => (hk₃ h).trans (carries_of_fs hfs₄))
            fun h => (ha₃ h).trans (carries_of_fs hfs₄)) ?_
          exact fun res _ w'' ⟨hin, hfail⟩ => ⟨hin, Or.inr hfail⟩
      | ok _ =>
          have hnew := hs₃.trans (carries_rename hren)
          have hsafe : Safe B (Retired o)
              (answer c (.file (.rename (o.stagingDirectory r) (o.releaseDirectory r))) w₃).2 := by
            intro m w'' op ht hw''
            refine hB m w'' op (ht.mono fun _ h => staged_of_retired h)
              (hin₄.trans (hw''.mono fun _ h => staged_of_retired h)) (Or.inr (Or.inl ?_))
            rw [(hnew.trans (carries_within hw'' (not_retired_release hr))).isDir]
            exact hdir
          refine wp_conseq (wp_both dropRetired_ok (wp_within (dropRetired_uses hr) hsafe)) ?_
          rintro res _ w₅ ⟨rfl, hw₅⟩
          exact ⟨hin₄.trans (hw₅.mono fun _ h => staged_of_retired h), Or.inl ⟨rfl,
            hnew.trans (carries_within hw₅ (not_retired_release hr))⟩⟩
    · rintro e _ w₃ ⟨hin₃, _, ⟨_, hk₃⟩ | ⟨h, _⟩⟩
      · exact ⟨hin₃, Or.inr ⟨e, rfl, .kept hk₃⟩⟩
      · cases h
  · rintro e _ w₁ hw₁
    exact ⟨hw.trans (hw₁.mono fun _ h => staged_of_retired h),
      Or.inr ⟨e, rfl, .kept (hk.trans (carries_within hw₁ (not_retired_release hr)))⟩⟩

/-! ## The whole of `install` -/

omit hr hB in
theorem Unpublished.within {X : Path → Prop} {e : InstallError} (h : Unpublished o A r w w' e)
    (hw : Within X w' w'') (hrel : ∀ x, ¬ X (o.releaseDirectory r ++ x))
    (hret : ∀ x, ¬ X (o.retiredDirectory r ++ x)) : Unpublished o A r w w'' e := by
  cases h with
  | kept hk => exact .kept (hk.trans (carries_within hw hrel))
  | aside hA ha => exact .aside hA (ha.trans (carries_within hw hret))

omit hB in
theorem not_copied_retired (x : Path) : ¬ Copied o r (o.retiredDirectory r ++ x) := by
  rintro (h | h)
  · rw [hr.stagingDirectory, hr.retiredDirectory] at h
    have hself := (List.prefix_append _ x).trans h
    exact staging_ne_retired r r (child_unique List.prefix_rfl hself)
  · exact (names_apart hr x).2.2.2.2.2 h

/-- Every error but an exception is returned after the staging directory was
discarded. -/
theorem discarding_spec {part : Step Unit} {P : World → Prop}
    (h : wp answer A B part.run (fun res _ w'' => Within (Staged o r) w w'' ∧
      (res = .ok () ∧ P w'' ∨ ∃ e, res = .error e ∧ Unpublished o A r w w'' e)) () w') :
    wp answer A B (discarding (o.stagingDirectory r) part).run
      (fun res _ w'' => Within (Staged o r) w w'' ∧
        (res = .ok () ∧ P w'' ∨ ∃ e, res = .error e ∧ Unpublished o A r w w'' e)) () w' := by
  have hdrop : Touches (Copied o r) (.file (.removeAll (o.stagingDirectory r))) :=
    ⟨fun _ h => Or.inr h, id⟩
  unfold discarding
  refine wp_seq.mpr (wp_attempt.mpr (wp_conseq h ?_))
  rintro res _ w₁ ⟨hin, ⟨rfl, hP⟩ | ⟨e, rfl, hfail⟩⟩
  · exact ⟨hin, Or.inl ⟨rfl, hP⟩⟩
  have out : wp answer A B
      (discard (o.stagingDirectory r) >>= fun _ => (throw e : Step Unit)).run
      (fun res _ w'' => Within (Staged o r) w w'' ∧
        (res = .ok () ∧ P w'' ∨ ∃ e, res = .error e ∧ Unpublished o A r w w'' e)) () w₁ := by
    have hstands : Standing o A r w w₁ (.file (.removeAll (o.stagingDirectory r))) := by
      cases hfail with
      | kept hk => exact Or.inl hk
      | aside hA _ => exact Or.inr (Or.inr (Or.inr hA))
    refine wp_seq.mpr (wp_seq.mpr (wp_file.mpr
      ⟨hB () w₁ _ (hdrop.mono fun _ h => staged_of_copied h) hin hstands, fun c _ => ?_⟩))
    have hw := answer_within (c := c) (w := w₁) hdrop
    exact ⟨hin.trans (hw.mono fun _ h => staged_of_copied h), Or.inr ⟨e, rfl,
      hfail.within hw (not_copied_release hr hr) (not_copied_retired hr)⟩⟩
  cases e with
  | threw why => exact ⟨hin, Or.inr ⟨_, rfl, hfail⟩⟩
  | _ => exact out

end Publish

/-- What `install` leaves: the new copy, which has the files of the source;
or, after an error, the directory of the release as it was or set aside. -/
inductive Laid (o : InstallOptions) (A : World → Op → Choice → Prop) (r : String)
    (source : Path) (w w' : World) : Except InstallError Unit → Prop
  | ok : ValidId r → w'.fs.isDir (o.releaseDirectory r) = true →
      (Deletable o r A → ∀ x c, w'.fs.get (o.releaseDirectory r ++ x) = some (.file c) ↔
        w.fs.get (source ++ x) = some (.file c) ∧ ¬ o.stagingDirectory r <+: source ++ x) →
      Laid o A r source w w' (.ok ())
  | failed {e : InstallError} : Unpublished o A r w w' e → Laid o A r source w w' (.error e)

/-- The boundaries of the copying are fit, for they lie before the
publishing. -/
theorem safe_copied (hr : ValidId r) (hB : Ready o A r w B) (hw : Within (Copied o r) w w') :
    Safe B (Copied o r) w' := fun m w'' op ht hw' =>
  hB m w'' op (ht.mono fun _ h => staged_of_copied h)
    ((hw.trans hw').mono fun _ h => staged_of_copied h)
    (Or.inl (carries_within (hw.trans hw') (not_copied_release hr hr)))

theorem install_spec (hB : ValidId r → Ready o A r w B) :
    wp answer A B (install o r source).run
      (fun res _ w' => Within (Installs o r) w w' ∧ Laid o A r source w w' res) () w := by
  have kept : ∀ {e : InstallError} {w' : World}, w'.fs = w.fs →
      Laid o A r source w w' (.error e) := fun h => .failed (.kept (carries_of_fs h))
  unfold install
  refine wp_require_seq.mpr ?_
  split
  · refine wp_seq.mpr (wp_conclude.mpr ?_)
    cases hv : validateReleaseId r with
    | error e => exact ⟨.refl, kept rfl⟩
    | ok _ =>
        have hr := validId_of_validate hv
        have hstat : Touches (Copied o r) (.file (.isDirectory source)) := ⟨fun _ h => h.elim, id⟩
        have hclear : Touches (Copied o r) (.file (.removeAll (o.stagingDirectory r))) :=
          ⟨fun _ h => Or.inr h, id⟩
        have hmake : Touches (Copied o r) (.file (.createDirectories (o.stagingDirectory r))) :=
          ⟨fun _ h => Or.inl h, id⟩
        have hsafe : Safe B (Copied o r) w := safe_copied hr (hB hr) .refl
        refine wp_conseq (Q := fun res _ w' => Within (Staged o r) w w' ∧
          Laid o A r source w w' res) ?_ fun res _ w' ⟨hw, hl⟩ =>
            ⟨hw.mono fun _ h => ⟨hr, h⟩, hl⟩
        refine wp_seq.mpr (wp_file.mpr ⟨hsafe () w _ hstat .refl, fun c _ => ?_⟩)
        have hw₁ := answer_within (c := c) (w := w) hstat
        have hfs₁ : (answer c (.file (.isDirectory source)) w).2.fs = w.fs := rfl
        refine wp_require_seq.mpr ?_
        split
        · refine wp_seq.mpr (wp_file.mpr ⟨safe_copied hr (hB hr) hw₁ () _ _ hclear .refl,
            fun c₂ hc₂ => ?_⟩)
          have hw₂ := hw₁.trans (answer_within (c := c₂) hclear)
          have hfs₂ : (answer c₂ (.file (.removeAll (o.stagingDirectory r)))
            (answer c (.file (.isDirectory source)) w).2).2.fs =
              (FileOp.answer c₂.chance (.removeAll (o.stagingDirectory r)) w.fs).2 := rfl
          have hdel : Deletable o r A → c₂.chance.fault = none ∨
              w.fs.get (o.stagingDirectory r) = none := fun h => by
            have hgone := h _ _ hc₂
            exact hgone
          revert hw₂ hfs₂
          generalize (answer c₂ (.file (.removeAll (o.stagingDirectory r)))
            (answer c (.file (.isDirectory source)) w).2).2 = w₂
          intro hw₂ hfs₂
          refine wp_seq.mpr (wp_orFail.mpr (wp_file.mpr
            ⟨safe_copied hr (hB hr) hw₂ () _ _ hmake .refl, fun c₃ _ => ?_⟩))
          have hw₃ := hw₂.trans (answer_within (c := c₃) hmake)
          cases hmk : (answer c₃ (.file (.createDirectories (o.stagingDirectory r))) w₂).1 with
          | error e =>
              exact ⟨hw₃.mono fun _ h => staged_of_copied h,
                .failed (.kept (carries_within hw₃ (not_copied_release hr hr)))⟩
          | ok _ =>
              have hm := createDirectories_ok hmk
              have hmade : Deletable o r A → Emptied (o.stagingDirectory r) _ ∧ _ := fun h =>
                emptied_of_made source hfs₂ (hdel h) hm
              have hdir : (answer c₃ (.file (.createDirectories (o.stagingDirectory r)))
                  w₂).2.fs.isDir (o.stagingDirectory r) = true := by
                rw [FileTree.isDir_iff, FileTree.get_mkdirsAt hm, if_pos List.prefix_rfl]
              revert hw₃ hmade hdir
              generalize (answer c₃ (.file (.createDirectories (o.stagingDirectory r)))
                w₂).2 = w₃
              intro hw₃ hmade hdir
              refine wp_conseq (discarding_spec hr (hB hr) (P := fun w' =>
                w'.fs.isDir (o.releaseDirectory r) = true ∧ (Deletable o r A → ∀ x c,
                  w'.fs.get (o.releaseDirectory r ++ x) = some (.file c) ↔
                    w.fs.get (source ++ x) = some (.file c) ∧
                      ¬ o.stagingDirectory r <+: source ++ x)) ?_) ?_
              · refine wp_seq_of (wp_both (copySource_dir hdir)
                  (wp_within (copySource_uses source) (safe_copied hr (hB hr) hw₃))) ?_ ?_
                · rintro _ _ w₄ ⟨⟨hdir₄, hfill⟩, hw₄⟩
                  have hin₄ := hw₃.trans hw₄
                  refine wp_conseq (publishStaging_spec hr (hB hr) hdir₄
                    (hin₄.mono fun _ h => staged_of_copied h)
                    (carries_within hin₄ (not_copied_release hr hr))) ?_
                  rintro res _ w₅ ⟨hin₅, ⟨rfl, hnew⟩ | hfail⟩
                  · refine ⟨hin₅, Or.inl ⟨rfl, hnew.isDir.trans hdir₄, fun h x c => ?_⟩⟩
                    rw [hnew x, (hfill (hmade h).1 rfl).files, (hmade h).2]
                  · exact ⟨hin₅, Or.inr hfail⟩
                · rintro e _ w₄ ⟨_, hw₄⟩
                  have hin₄ := hw₃.trans hw₄
                  exact ⟨hin₄.mono fun _ h => staged_of_copied h, Or.inr ⟨e, rfl,
                    .kept (carries_within hin₄ (not_copied_release hr hr))⟩⟩
              · rintro res _ w' ⟨hin, ⟨rfl, hdir', hfiles⟩ | ⟨e, rfl, hfail⟩⟩
                · exact ⟨hin, .ok hr hdir' hfiles⟩
                · exact ⟨hin, .failed hfail⟩
        · exact ⟨hw₁.mono fun _ h => staged_of_copied h, kept hfs₁⟩
  · exact ⟨.refl, kept rfl⟩

end Install

end Yirang
