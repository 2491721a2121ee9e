/-
# `Yirang.Deploy.Confined` — where the engine writes, and what it copies

Whatever the engine is asked for, and wherever it is stopped, it writes in
a few places below the root of its service, and the state file names
releases only.  A file that it copies among the releases comes from the
source of the `apply` under way.

    Serviced         the places
    Confined         what holds in front of every call
    apply_confined   `apply` is confined, and copies from its source alone
-/
import Yirang.Deploy.Switch
import Yirang.Install.Copying

namespace Yirang.Deploy

open Fs Effect Device Install

variable {cfg : Config} {A : World → Op → Choice → Prop} {m : Engine} {w w' w₀ : World}
  {r : String} {q : Path} {copies : Path → Path → Prop}

/-! ## The places -/

def Config.places (cfg : Config) : List Path :=
  [cfg.installer.releasesRoot, cfg.installer.statePath, cfg.installer.stateTemporary,
    cfg.installer.currentLink, cfg.recordPath, cfg.recordTemporary]

/-- One of the places, below it, or on the way to it. -/
def Serviced (cfg : Config) (q : Path) : Prop := ∃ p ∈ cfg.places, q <+: p ∨ p <+: q

/-- Among the releases, or on the way to them. -/
theorem serviced_releases
    (h : q <+: cfg.installer.releasesRoot ∨ cfg.installer.releasesRoot <+: q) : Serviced cfg q :=
  ⟨_, List.mem_cons_self, h⟩

theorem serviced_noting (h : Noting cfg q) : Serviced cfg q := by
  rcases h with h | h
  · exact ⟨cfg.recordPath, by simp [Config.places], Or.inr h⟩
  · exact ⟨cfg.recordTemporary, by simp [Config.places], Or.inr h⟩

theorem serviced_pointed (h : Pointed cfg.installer q) : Serviced cfg q := by
  rcases h with h | h | h | h
  · exact serviced_releases (Or.inl (h.trans (List.prefix_append _ _)))
  · exact ⟨cfg.installer.stateTemporary, by simp [Config.places], Or.inr h⟩
  · exact ⟨cfg.installer.statePath, by simp [Config.places], Or.inr h⟩
  · exact ⟨cfg.installer.currentLink, by simp [Config.places], Or.inr h⟩

theorem serviced_installs (h : Installs cfg.installer r q) : Serviced cfg q := by
  obtain ⟨hr, h⟩ := h
  rw [Staged, hr.stagingDirectory, hr.releaseDirectory] at h
  refine serviced_releases ?_
  rcases h with h | h | h | ⟨n, -, h⟩
  · exact Path.under_total h (List.prefix_append _ _)
  · exact Or.inr ((List.prefix_append _ _).trans h)
  · exact Or.inr ((List.prefix_append _ _).trans h)
  · exact Or.inr ((List.prefix_append _ _).trans h)

theorem serviced_pruned {s : ActivationState} (h : Pruned cfg.installer s q) : Serviced cfg q := by
  obtain ⟨n, hn, -, -, h⟩ := h
  rw [hn.releaseDirectory] at h
  exact serviced_releases (Or.inr ((List.prefix_append _ _).trans h))

/-- Nothing lies both among the releases and elsewhere below the root. -/
theorem not_beside_releases {n : String} (hn : n ≠ "releases")
    (h : cfg.installer.releasesRoot <+: q) : ¬ cfg.installer.root ++ [n] <+: q :=
  fun h' => hn (child_unique h' h)

theorem not_noting_releases (h : cfg.installer.releasesRoot <+: q) : ¬ Noting cfg q := by
  rintro (h' | h')
  · exact not_beside_releases (by decide) h h'
  · exact not_beside_releases (by decide) h h'

theorem not_pointed_releases (h : cfg.installer.releasesRoot <+: q) :
    ¬ Pointed cfg.installer q := by
  rintro (h' | h' | h' | h')
  · have hlong := (h.trans h').length_le
    rw [InstallOptions.releasesRoot, List.length_append, List.length_singleton] at hlong
    omega
  · exact not_beside_releases (by decide) h h'
  · exact not_beside_releases (by decide) h h'
  · exact not_beside_releases (by decide) h h'

/-! ## What holds in front of every call -/

/-- The state file names releases, and outside of the places all is as in
`w₀`. -/
structure Stayed (cfg : Config) (w₀ w : World) : Prop where
  named : Named cfg.installer w.fs
  alike : Alike (Serviced cfg) w₀ w

structure Confined (cfg : Config) (copies : Path → Path → Prop) (w₀ w : World) (op : Op) :
    Prop extends Stayed cfg w₀ w where
  only : Only (Serviced cfg) op
  copy : ∀ a b, op = .file (.copyFile a b) → cfg.installer.releasesRoot <+: b → copies a b

theorem Stayed.after {X : Path → Prop} (h : Stayed cfg w₀ w) (hX : ∀ q, X q → Serviced cfg q)
    (hw : Alike X w w') (hnamed : Named cfg.installer w'.fs) : Stayed cfg w₀ w' :=
  ⟨hnamed, h.alike.trans fun q hq => hw q fun hx => hq (hX q hx)⟩

/-- A part of the program that writes in some of the places, but neither the
state file nor among the releases. -/
theorem wp_confined {M α : Type} {X : Path → Prop} {p : Program device M α} {m : M}
    (hp : Uses (Only X) p) (hX : ∀ q, X q → Serviced cfg q)
    (hstate : ¬ X cfg.installer.statePath)
    (hreleases : ∀ q, cfg.installer.releasesRoot <+: q → ¬ X q) (h : Stayed cfg w₀ w) :
    wp answer A (fun _ => Confined cfg copies w₀) p (fun _ _ w' => Stayed cfg w₀ w') m w := by
  refine wp_of_uses (S := Only X) ?_ ?_ hp h
  · intro w c op ho _ hw
    have halike : Alike X w (answer op c w).2 := fun q hq => perform_files fun hw => hq (ho q hw)
    exact hw.after hX halike (hw.named.of_get (halike _ hstate))
  · intro _ w op ho hw
    refine ⟨hw, ho.mono hX, ?_⟩
    rintro a b rfl hb
    exact absurd (ho b rfl) (hreleases b hb)

theorem noting_confined {M α : Type} {p : Program device M α} {m : M}
    (hp : Uses (Only (Noting cfg)) p) (h : Stayed cfg w₀ w) :
    wp answer A (fun _ => Confined cfg copies w₀) p (fun _ _ w' => Stayed cfg w₀ w') m w :=
  wp_confined hp (fun _ => serviced_noting) noting_spares_state (fun _ => not_noting_releases) h

theorem state_confined (h : Stayed cfg w₀ w) :
    wp answer A (fun _ => Confined cfg copies w₀) (state cfg.installer).run
      (fun _ _ w' => Stayed cfg w₀ w') () w :=
  wp_confined (X := Untouched) (only_of_touches state_uses) (fun _ hx => hx.elim) id
    (fun _ _ => id) h

/-! ## The installer -/

theorem install_confined {source : Path} (h : Stayed cfg w₀ w)
    (hcopies : ∀ x, copies (source ++ x) (cfg.installer.stagingDirectory r ++ x)) :
    wp answer A (fun _ => Confined cfg copies w₀) (install cfg.installer r source).run
      (fun _ _ w' => Stayed cfg w₀ w') () w := by
  refine wp_of_uses (R := Stayed cfg w₀)
    (S := fun op => Touches (Installs cfg.installer r) op ∧
      Copying source (cfg.installer.stagingDirectory r) op) ?_ ?_
    (uses_both (install_uses source) install_copying) h
  · intro w c op ho _ hw
    have halike : Alike (Installs cfg.installer r) w (answer op c w).2 := fun q hq =>
      perform_files fun hw => hq (ho.1.1 q hw)
    exact hw.after (fun _ => serviced_installs) halike
      (hw.named.of_get (halike _ installs_spares_state))
  · intro _ w op ho hw
    refine ⟨hw, fun q hq => serviced_installs (ho.1.1 q hq), ?_⟩
    rintro a b rfl _
    obtain ⟨x, rfl, rfl⟩ := ho.2.from_source
    exact hcopies x

section Pointing

/-- A step of the pointer, at one of its boundaries or at its end. -/
theorem Stayed.pointed (h : Stayed cfg w₀ w) (hw : Within (Pointed cfg.installer) w w')
    (hnamed : Named cfg.installer w'.fs) : Stayed cfg w₀ w' :=
  h.after (X := Pointed cfg.installer) (fun _ => serviced_pointed) (hw.alike fun _ => id) hnamed

theorem Stayed.confined {op : Op} (h : Stayed cfg w₀ w) (ho : Touches (Pointed cfg.installer) op) :
    Confined cfg copies w₀ w op := by
  refine ⟨h, fun q hq => serviced_pointed (ho.1 q hq), ?_⟩
  rintro a b rfl hb
  exact absurd (ho.1 b rfl) (not_pointed_releases hb)

theorem activate_confined (h : Stayed cfg w₀ w) :
    wp answer A (fun _ => Confined cfg copies w₀) (activate cfg.installer r).run
      (fun _ _ w' => Stayed cfg w₀ w') () w := by
  refine wp_conseq (activate_step ?_) ?_
  · intro _ w' op ho hw hstep
    refine (h.pointed hw ?_).confined ho
    rcases hstep with hsame | ⟨hr, hact⟩
    · exact h.named.of_get hsame
    · exact h.named.activated hr hact
  · rintro res _ w' ⟨⟨-, hr, hact⟩ | ⟨-, hsame⟩, hw⟩
    · exact h.pointed hw (h.named.activated hr hact)
    · exact h.pointed hw (h.named.of_get hsame)

theorem rollback_confined (h : Stayed cfg w₀ w) :
    wp answer A (fun _ => Confined cfg copies w₀) (rollback cfg.installer).run
      (fun _ _ w' => Stayed cfg w₀ w') () w := by
  refine wp_conseq (rollback_step ?_) ?_
  · intro _ w' op ho hw hstep
    refine (h.pointed hw ?_).confined ho
    rcases hstep with hsame | ⟨target, hback⟩
    · exact h.named.of_get hsame
    · exact h.named.rolledBack hback
  · rintro res _ w' ⟨⟨target, -, hback⟩ | ⟨-, hsame⟩, hw⟩
    · exact h.pointed hw (h.named.rolledBack hback)
    · exact h.pointed hw (h.named.of_get hsame)

end Pointing

theorem prune_confined (h : Stayed cfg w₀ w) :
    wp answer A (fun _ => Confined cfg copies w₀) (prune cfg.installer).run
      (fun _ _ w' => Stayed cfg w₀ w') () w := by
  have stayed : ∀ {s : ActivationState} {w' : World},
      Within (Pruned cfg.installer s) w w' → Stayed cfg w₀ w' := fun hw =>
    h.after (fun _ => serviced_pruned) (hw.alike fun _ => id)
      (h.named.of_get (hw.files pruned_spares_state))
  have hwrites := prune_spec (o := cfg.installer) (A := A) (w := w)
    (B := fun _ w' op => Stayed cfg w₀ w' ∧ Only (Serviced cfg) op)
    fun s _ _ w' op ho hw => ⟨stayed hw, fun q hq => serviced_pruned (ho.1 q hq)⟩
  have hcopies : wp answer A (fun _ _ op => CopiesNothing op) (prune cfg.installer).run
      (fun _ _ _ => True) () w :=
    wp_of_uses (fun _ _ _ _ _ => id) (fun _ _ _ ho _ => ho)
      (prune_filing.mono fun _ => Filing.copies) trivial
  refine wp_mono (fun _ _ _ h => h) ?_ ?_ (wp_and hwrites hcopies)
  · rintro _ w' op ⟨⟨hw, ho⟩, hno⟩
    exact ⟨hw, ho, fun a b he => absurd he (hno a b)⟩
  · rintro _ _ w' ⟨⟨s, -, hw⟩, -⟩
    exact stayed hw

/-! ## The engine -/

theorem stop_confined (h : Stayed cfg w₀ w) :
    wp answer A (fun _ => Confined cfg copies w₀) (stop cfg).run
      (fun _ _ w' => Stayed cfg w₀ w') m w :=
  noting_confined (only_of_touches stop_uses) h

theorem recover_confined {reason : String} (h : Stayed cfg w₀ w) :
    wp answer A (fun _ => Confined cfg copies w₀) (recover cfg reason).run
      (fun _ _ w' => Stayed cfg w₀ w') m w := by
  refine wp_seq.mpr (wp_rewording.mpr (wp_conseq (stop_confined h) ?_))
  rintro (e | _) m₁ w₁ h₁
  · exact h₁
  refine wp_seq.mpr (wp_tryInstalling.mpr (wp_conseq (rollback_confined h₁) ?_))
  rintro (e | target) _ w₂ h₂
  · exact h₂
  refine wp_seq.mpr (wp_rewording.mpr (wp_conseq (noting_confined launch_uses h₂) ?_))
  rintro (e | _) m₃ w₃ h₃
  · exact h₃
  · exact h₃

theorem settleIn_confined (h : Stayed cfg w₀ w) :
    wp answer A (fun _ => Confined cfg copies w₀) (settleIn cfg r).run
      (fun _ _ w' => Stayed cfg w₀ w') m w := by
  refine wp_seq.mpr (wp_attempt.mpr (wp_conseq (noting_confined launch_uses h) ?_))
  rintro (e | _) m₁ w₁ h₁
  · exact recover_confined h₁
  refine wp_seq.mpr (wp_attempt.mpr (wp_conseq
    (noting_confined (only_of_touches awaitReady_uses) h₁) ?_))
  rintro (e | _) m₂ w₂ h₂
  · exact recover_confined h₂
  refine wp_seq.mpr (wp_tryInstalling.mpr (wp_conseq (prune_confined h₂) ?_))
  intro _ _ w₃ h₃
  exact h₃

/-- `apply` copies from its source alone. -/
theorem apply_confined {source : Path} (h : Stayed cfg w₀ w)
    (hcopies : ∀ x, copies (source ++ x) (cfg.installer.stagingDirectory r ++ x)) :
    wp answer A (fun _ => Confined cfg copies w₀) (apply cfg r source).run
      (fun _ _ w' => Stayed cfg w₀ w') m w := by
  unfold apply
  refine wp_require_seq.mpr ?_
  split
  case isFalse => exact h
  refine wp_seq.mpr (wp_conclude.mpr ?_)
  cases cfg.validateServiceExecutable with
  | error e => exact h
  | ok _ =>
      refine wp_seq.mpr (wp_installing.mpr (wp_conseq (install_confined h hcopies) ?_))
      rintro (e | _) _ w₁ h₁
      · exact h₁
      refine wp_seq.mpr (wp_installing.mpr (wp_conseq (state_confined h₁) ?_))
      rintro (e | before) _ w₂ h₂
      · exact h₂
      refine wp_seq.mpr (wp_rewording.mpr (wp_conseq (stop_confined h₂) ?_))
      rintro (e | _) m₃ w₃ h₃
      · exact h₃
      refine wp_seq.mpr (wp_tryInstalling.mpr (wp_conseq (activate_confined h₃) ?_))
      rintro (e | _) _ w₄ h₄
      · refine wp_seq.mpr (wp_attempt.mpr (wp_conseq (noting_confined startActive_uses h₄) ?_))
        intro restored m₅ w₅ h₅
        exact h₅
      · exact settleIn_confined h₄

theorem rollbackTo_confined (h : Stayed cfg w₀ w) :
    wp answer A (fun _ => Confined cfg copies w₀) (rollbackTo cfg r).run
      (fun _ _ w' => Stayed cfg w₀ w') m w := by
  unfold rollbackTo
  refine wp_require_seq.mpr ?_
  split
  case isFalse => exact h
  refine wp_seq.mpr (wp_conclude.mpr ?_)
  cases cfg.validateServiceExecutable with
  | error e => exact h
  | ok _ =>
      refine wp_seq.mpr (wp_conseq (wp_confined (X := Untouched)
        (only_of_touches (uses_read fun _ => id)) (fun _ hx => hx.elim) id (fun _ _ => id) h) ?_)
      rintro (e | there) m₁ w₁ h₁
      · exact h₁
      refine wp_require_seq.mpr ?_
      split
      case isFalse => exact h₁
      refine wp_seq.mpr (wp_rewording.mpr (wp_conseq (stop_confined h₁) ?_))
      rintro (e | _) m₂ w₂ h₂
      · exact h₂
      refine wp_seq.mpr (wp_installing.mpr (wp_conseq (activate_confined h₂) ?_))
      rintro (e | _) _ w₃ h₃
      · exact h₃
      refine wp_seq.mpr (wp_rewording.mpr (wp_conseq (noting_confined launch_uses h₃) ?_))
      rintro (e | _) m₄ w₄ h₄
      · exact h₄
      · exact h₄

end Yirang.Deploy
