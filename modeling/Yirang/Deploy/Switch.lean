/-
# `Yirang.Deploy.Switch` — the pointer, through the operations

Where an operation of the engine leaves the state file, whatever fails on
the way.  Only `apply` and `rollbackTo` move the pointer; `apply` has five
ways to end.

    early     an error before the switch: the file is as it was
    stuck     the failed release did not stop: the pointer stays on it
    astray    nothing was found to roll back to: the pointer stays on it
    back      rolled back: the pointer is on what was previous
    done      the pointer is on the new release

`Moved` is the step of `activate` on the two fields.  No process is looked
at here, and nothing is asked of the device.
-/
import Yirang.Deploy.Instance

namespace Yirang.Deploy

open Fs Effect Device Install

variable {cfg : Config} {A : World → Op → Choice → Prop} {m : Engine} {w w' : World}
  {r : String}

namespace EngineError

/-- The errors of the steps before the pointer is switched. -/
def beforeSwitch : EngineError → Bool
  | notConfigured | executableNotConfigured | pathEmpty _ | pathOutside _ _ | installer _
  | cannotStop _ | cannotActivate _ _ _ => true
  | _ => false

/-- The release that was activated again in place of the failed one. -/
def rolledBackTo : EngineError → Option String
  | rolledBack _ target | rolledBackButDidNotStart _ target _ => some target
  | _ => none

end EngineError

theorem beforeSwitch_of_executable {e : EngineError}
    (h : cfg.validateServiceExecutable = .error e) : e.beforeSwitch = true := by
  unfold Config.validateServiceExecutable at h
  split at h
  · cases h
    rfl
  · unfold validateReleaseRelativePath at h
    split at h
    · cases h
      rfl
    · split at h
      · cases h
        rfl
      · cases h

/-! ## What `apply` may change -/

/-- Where an `apply` that fails may write: it has not come to pruning. -/
def Changes (cfg : Config) (r : String) (q : Path) : Prop :=
  Installs cfg.installer r q ∨ Pointed cfg.installer q ∨ Noting cfg q

theorem not_changes_release {a : String} {x : Path} (ha : ValidId a) (har : a ≠ r) :
    ¬ Changes cfg r (cfg.installer.releaseDirectory a ++ x) := by
  rintro (h | h | h)
  · exact not_installs_release ha har h
  · exact not_pointed_release ha h
  · revert h
    rw [ha.releaseDirectory, InstallOptions.releasesRoot, List.append_assoc, List.append_assoc]
    exact not_noting (by decide) (by decide)

theorem alike_noting (h : Alike (Noting cfg) w w') : Alike (Changes cfg r) w w' :=
  fun q hq => h q fun hn => hq (Or.inr (Or.inr hn))

theorem alike_pointed (h : Within (Pointed cfg.installer) w w') : Alike (Changes cfg r) w w' :=
  h.alike fun _ hq => Or.inr (Or.inl hq)

/-! ## The step of the pointer -/

/-- `activate r` takes the state `s` to `s'`; where the `stat` of the state
file failed it started from nothing. -/
structure Moved (cfg : Config) (A : World → Op → Choice → Prop) (r : String)
    (s s' : ActivationState) : Prop where
  valid : ValidId r
  active : s'.active = r
  previous : ∃ t, (t = s ∨ t = {} ∧ ¬ Honest cfg.installer A) ∧
    s'.previous = if t.active = r then t.previous else t.active

/-- What was previous in the end, if anything was. -/
theorem Moved.target {s s' : ActivationState} (h : Moved cfg A r s s') (hne : s'.previous ≠ "") :
    s'.previous = if s.active = r then s.previous else s.active := by
  obtain ⟨t, rfl | ⟨rfl, _⟩, ht⟩ := h.previous
  · exact ht
  · refine absurd ?_ hne
    rw [ht]
    split <;> rfl

theorem Moved.honest {s s' : ActivationState} (h : Moved cfg A r s s')
    (hA : Honest cfg.installer A) :
    s'.previous = if s.active = r then s.previous else s.active := by
  obtain ⟨t, rfl | ⟨_, hno⟩, ht⟩ := h.previous
  · exact ht
  · exact absurd hA hno

def Config.stateOn (cfg : Config) (w : World) : ActivationState := onDisk cfg.installer w.fs

/-- How `recover` leaves the state that `activate` left, in a world where the
files outside `Changes` are still those of `w`. -/
inductive Recovered (cfg : Config) (A : World → Op → Choice → Prop) (r : String) (w : World)
    (s s' : ActivationState) : Except EngineError Unit → Prop
  | stuck {reason : String} {e : EngineError} : s' = s →
      Recovered cfg A r w s s' (.error (.failedReleaseDidNotStop reason e))
  | astray {reason : String} {e : InstallError} {w₁ : World} : s' = s →
      Alike (Changes cfg r) w w₁ → cfg.stateOn w₁ = s → NoRollback cfg.installer A w₁ e →
      Recovered cfg A r w s s' (.error (.noRollbackTarget reason e))
  | back {e : EngineError} : s.previous ≠ "" → s'.active = s.previous →
      s'.previous = s.active → e.rolledBackTo = some s.previous →
      Recovered cfg A r w s s' (.error e)

/-- How `apply r` takes the world `w` to `w'`. -/
inductive Applied (cfg : Config) (A : World → Op → Choice → Prop) (r : String) (w w' : World) :
    Except EngineError Unit → Prop
  | early {e : EngineError} : e.beforeSwitch = true →
      w'.fs.get cfg.installer.statePath = w.fs.get cfg.installer.statePath →
      Applied cfg A r w w' (.error e)
  | recovered {s : ActivationState} {res : Except EngineError Unit} :
      Moved cfg A r (cfg.stateOn w) s → Recovered cfg A r w s (cfg.stateOn w') res →
      Applied cfg A r w w' res
  | done : Moved cfg A r (cfg.stateOn w) (cfg.stateOn w') → Applied cfg A r w w' (.ok ())

/-! ## The pass -/

theorem stop_alike :
    wp answer A Anywhere (stop cfg).run (fun _ _ w' => Alike (Noting cfg) w w') m w :=
  wp_alike (only_of_touches stop_uses)

theorem get_alike (h : Alike (Noting cfg) w w') :
    w'.fs.get cfg.installer.statePath = w.fs.get cfg.installer.statePath :=
  h _ noting_spares_state

theorem stateOn_of_get
    (h : w'.fs.get cfg.installer.statePath = w.fs.get cfg.installer.statePath) :
    cfg.stateOn w' = cfg.stateOn w :=
  onDisk_of_get h

theorem recover_moves {reason : String} {w₀ : World} (h₀ : Alike (Changes cfg r) w₀ w) :
    wp answer A Anywhere (recover cfg reason).run
      (fun res _ w' => Recovered cfg A r w₀ (cfg.stateOn w) (cfg.stateOn w') res ∧
        Alike (Changes cfg r) w₀ w') m w := by
  refine wp_seq.mpr (wp_rewording.mpr (wp_conseq stop_alike ?_))
  rintro (e | _) m₁ w₁ h₁
  · exact ⟨.stuck (stateOn_of_get (get_alike h₁)), h₀.trans (alike_noting h₁)⟩
  have hs₁ := stateOn_of_get (get_alike h₁)
  have ha₁ : Alike (Changes cfg r) w₀ w₁ := h₀.trans (alike_noting h₁)
  refine wp_seq.mpr (wp_tryInstalling.mpr (wp_conseq
    (rollback_spec (A := A) Safe.anywhere) ?_))
  rintro res _ w₂ ⟨⟨target, rfl, hrolled⟩ | ⟨⟨e, rfl, hno⟩, hget⟩, hw₂⟩
  · -- the target was read from the state file, for an empty state names none
    obtain ⟨s, hread, hprev, hback⟩ := hrolled.read
    have hs : s = cfg.stateOn w := by
      rcases hread with rfl | ⟨rfl, _⟩
      · exact hs₁
      · exact absurd hprev.symm hrolled.target_ne
    subst hs
    refine wp_seq.mpr (wp_rewording.mpr (wp_conseq (wp_alike launch_uses) ?_))
    rintro res m₃ w₃ h₃
    have hs₃ := stateOn_of_get (get_alike h₃)
    have hactive : (cfg.stateOn w₃).active = (cfg.stateOn w).previous := by
      rw [hs₃, hprev]
      exact hrolled.active
    have hprevious : (cfg.stateOn w₃).previous = (cfg.stateOn w).active := by
      rw [hs₃]
      exact hback
    have ha₃ := (ha₁.trans (alike_pointed hw₂)).trans (alike_noting h₃)
    have hne : (cfg.stateOn w).previous ≠ "" := hprev ▸ hrolled.target_ne
    cases res with
    | error e => exact ⟨.back hne hactive hprevious (by rw [hprev]; rfl), ha₃⟩
    | ok _ => exact ⟨.back hne hactive hprevious (by rw [hprev]; rfl), ha₃⟩
  · refine ⟨.astray ?_ ha₁ hs₁ hno, ha₁.trans (alike_pointed hw₂)⟩
    exact (stateOn_of_get hget).trans hs₁

theorem settleIn_moves {w₀ : World} (h₀ : Alike (Changes cfg r) w₀ w) :
    wp answer A Anywhere (settleIn cfg r).run
      (fun res _ w' =>
        (res = .ok () ∧ cfg.stateOn w' = cfg.stateOn w ∨
          Recovered cfg A r w₀ (cfg.stateOn w) (cfg.stateOn w') res) ∧
        ∀ e, res = .error e → Alike (Changes cfg r) w₀ w') m w := by
  have recovered : ∀ {reason m w₁}, Alike (Noting cfg) w w₁ →
      wp answer A Anywhere (recover cfg reason).run
        (fun res _ w' =>
          (res = .ok () ∧ cfg.stateOn w' = cfg.stateOn w ∨
            Recovered cfg A r w₀ (cfg.stateOn w) (cfg.stateOn w') res) ∧
          ∀ e, res = .error e → Alike (Changes cfg r) w₀ w') m w₁ := by
    intro reason m w₁ h₁
    refine wp_conseq (recover_moves (h₀.trans (alike_noting h₁))) ?_
    rintro res m' w' ⟨hr, ha⟩
    rw [stateOn_of_get (get_alike h₁)] at hr
    exact ⟨Or.inr hr, fun _ _ => ha⟩
  refine wp_seq.mpr (wp_attempt.mpr (wp_conseq (wp_alike launch_uses) ?_))
  rintro (e | _) m₁ w₁ h₁
  · exact recovered h₁
  refine wp_seq.mpr (wp_attempt.mpr (wp_conseq
    (wp_alike (only_of_touches awaitReady_uses)) ?_))
  rintro (e | _) m₂ w₂ h₂
  · exact recovered (h₁.trans h₂)
  refine wp_seq.mpr (wp_tryInstalling.mpr (wp_conseq
    (prune_spec (A := A) fun _ _ => Safe.anywhere) ?_))
  rintro res _ w₃ ⟨s, _, hw₃⟩
  refine ⟨Or.inl ⟨rfl, ?_⟩, fun e he => by cases he⟩
  exact (stateOn_of_get (hw₃.files pruned_spares_state)).trans
    (stateOn_of_get (get_alike (h₁.trans h₂)))

theorem moved_of_activated {w₁ : World} (hr : ValidId r)
    (h : Activated cfg.installer A r w w₁) : Moved cfg A r (cfg.stateOn w) (cfg.stateOn w₁) := by
  obtain ⟨s, hread, hprev⟩ := h.previous
  exact ⟨hr, h.active, s, hread, hprev⟩

/-- How `apply` ends, and that a failed one has changed nothing beyond the
release, the pointer and the record. -/
theorem apply_moves {source : Path} :
    wp answer A Anywhere (apply cfg r source).run
      (fun res _ w' => Applied cfg A r w w' res ∧
        ∀ e, res = .error e → Alike (Changes cfg r) w w') m w := by
  have early : ∀ {e : EngineError} {w' : World}, e.beforeSwitch = true →
      w'.fs.get cfg.installer.statePath = w.fs.get cfg.installer.statePath →
      Alike (Changes cfg r) w w' → Applied cfg A r w w' (.error e) ∧
        ∀ e', (.error e : Except EngineError Unit) = .error e' → Alike (Changes cfg r) w w' :=
    fun hb hget ha => ⟨.early hb hget, fun _ _ => ha⟩
  unfold apply
  refine wp_require_seq.mpr ?_
  split
  · refine wp_seq.mpr (wp_conclude.mpr ?_)
    cases hexe : cfg.validateServiceExecutable with
    | error e => exact early (beforeSwitch_of_executable hexe) rfl fun _ _ => rfl
    | ok _ =>
        refine wp_seq.mpr (wp_installing.mpr (wp_conseq
          (wp_within (A := A) (install_uses source) Safe.anywhere) ?_))
        rintro res _ w₁ hw₁
        have hget₁ := hw₁.files (q := cfg.installer.statePath) installs_spares_state
        have ha₁ : Alike (Changes cfg r) w w₁ := hw₁.alike fun _ hq => Or.inl hq
        cases res with
        | error e => exact early rfl hget₁ ha₁
        | ok _ =>
            refine wp_seq.mpr (wp_installing.mpr (wp_conseq (state_reads (A := A)) ?_))
            rintro res _ w₂ ⟨hfs, _, _⟩
            have hget₂ := (get_same hfs cfg.installer.statePath).trans hget₁
            have ha₂ := ha₁.trans fun q _ => get_same hfs q
            cases res with
            | error e => exact early rfl hget₂ ha₂
            | ok before =>
                refine wp_seq.mpr (wp_rewording.mpr (wp_conseq stop_alike ?_))
                rintro res m₃ w₃ h₃
                have hget₃ := (get_alike h₃).trans hget₂
                have ha₃ := ha₂.trans (alike_noting h₃)
                cases res with
                | error e => exact early rfl hget₃ ha₃
                | ok _ =>
                    refine wp_seq.mpr (wp_tryInstalling.mpr (wp_conseq
                      (activate_spec (A := A) Safe.anywhere) ?_))
                    rintro res _ w₄ ⟨⟨rfl, hvalid, hact⟩ | ⟨⟨e, rfl⟩, hget₄⟩, hw₄⟩
                    · have hmoved := moved_of_activated hvalid hact
                      rw [stateOn_of_get hget₃] at hmoved
                      refine wp_conseq (settleIn_moves (ha₃.trans (alike_pointed hw₄))) ?_
                      rintro res m' w' ⟨⟨rfl, hs⟩ | hr, hchanges⟩
                      · exact ⟨.done (hs ▸ hmoved), hchanges⟩
                      · exact ⟨.recovered hmoved hr, hchanges⟩
                    · refine wp_seq.mpr (wp_attempt.mpr (wp_conseq (wp_alike startActive_uses) ?_))
                      intro restored m' w' h'
                      exact early rfl ((get_alike h').trans (hget₄.trans hget₃))
                        ((ha₃.trans (alike_pointed hw₄)).trans (alike_noting h'))
  · exact early rfl rfl fun _ _ => rfl

/-! ## The other operations -/

/-- `rollbackTo` moves the pointer to the release it is given, or not at
all. -/
theorem rollbackTo_moves :
    wp answer A Anywhere (rollbackTo cfg r).run
      (fun _ _ w' => cfg.stateOn w' = cfg.stateOn w ∨
        Moved cfg A r (cfg.stateOn w) (cfg.stateOn w')) m w := by
  unfold rollbackTo
  refine wp_require_seq.mpr ?_
  split
  · refine wp_seq.mpr (wp_conclude.mpr ?_)
    cases cfg.validateServiceExecutable with
    | error e => exact Or.inl rfl
    | ok _ =>
        refine wp_seq.mpr (wp_file.mpr ⟨trivial, fun c _ => ?_⟩)
        have hfs : (answer c (.file (.isDirectory (cfg.installer.releaseDirectory r))) w).2.fs =
          w.fs := rfl
        revert hfs
        generalize (answer c (.file (.isDirectory (cfg.installer.releaseDirectory r))) w).2 = w₁
        intro hfs
        have hs₁ : cfg.stateOn w₁ = cfg.stateOn w := stateOn_of_get (get_same hfs _)
        refine wp_require_seq.mpr ?_
        split
        · refine wp_seq.mpr (wp_rewording.mpr (wp_conseq stop_alike ?_))
          rintro res m₂ w₂ h₂
          have hs₂ := (stateOn_of_get (get_alike h₂)).trans hs₁
          cases res with
          | error e => exact Or.inl hs₂
          | ok _ =>
              refine wp_seq.mpr (wp_installing.mpr (wp_conseq
                (activate_moves (A := A) fun _ _ _ _ => trivial) ?_))
              rintro res _ w₃ (⟨rfl, hvalid, hact⟩ | ⟨⟨e, rfl⟩, hget⟩)
              · have hmoved := moved_of_activated hvalid hact
                rw [hs₂] at hmoved
                refine wp_seq.mpr (wp_rewording.mpr (wp_conseq (wp_alike launch_uses) ?_))
                rintro res m₄ w₄ h₄
                have hmoved' : Moved cfg A r (cfg.stateOn w) (cfg.stateOn w₄) :=
                  stateOn_of_get (get_alike h₄) ▸ hmoved
                cases res with
                | error e => exact Or.inr hmoved'
                | ok _ => exact Or.inr hmoved'
              · exact Or.inl ((stateOn_of_get hget).trans hs₂)
        · exact Or.inl hs₁
  · exact Or.inl rfl

theorem restart_uses : Uses (Only (Noting cfg)) (restart cfg).run := by
  unfold restart
  refine Uses.seq Uses.require fun _ => Uses.seq Uses.conclude fun _ => ?_
  refine Uses.seq (Uses.rewording (Uses.zoom (only_of_touches state_uses))) fun current => ?_
  refine Uses.seq Uses.require fun _ => ?_
  refine Uses.seq (Uses.rewording (only_of_touches stop_uses)) fun _ => ?_
  refine Uses.seq (Uses.rewording launch_uses) fun _ => ?_
  exact Uses.seq (Uses.rewording (only_of_touches awaitReady_uses)) fun _ _ => trivial

/-- Going back writes the record and the pointer. -/
theorem rollbackTo_uses :
    Uses (Only fun q => Noting cfg q ∨ Pointed cfg.installer q) (rollbackTo cfg r).run := by
  have noted : ∀ {ε α : Type} {p : Act device Engine ε α}, Uses (Only (Noting cfg)) p.run →
      Uses (Only fun q => Noting cfg q ∨ Pointed cfg.installer q) p.run := fun hp =>
    hp.mono fun _ ho => ho.mono fun _ => .inl
  unfold rollbackTo
  refine Uses.seq Uses.require fun _ => Uses.seq Uses.conclude fun _ => ?_
  refine Uses.seq (only_of_touches (uses_read fun q h => h)) fun there => ?_
  refine Uses.seq Uses.require fun _ => ?_
  refine Uses.seq (Uses.rewording (noted (only_of_touches stop_uses))) fun _ => ?_
  refine Uses.seq (Uses.rewording (Uses.zoom ?_)) fun _ => ?_
  · exact (only_of_touches activate_uses).mono fun _ ho => ho.mono fun _ => .inr
  · exact Uses.seq (Uses.rewording (noted launch_uses)) fun _ _ => trivial

/-- An operation that only writes the record leaves the pointer. -/
theorem stays_of_uses {α : Type} {p : Program device Engine α} (hp : Uses (Only (Noting cfg)) p) :
    wp answer A Anywhere p (fun _ _ w' => cfg.stateOn w' = cfg.stateOn w) m w :=
  wp_conseq (wp_alike hp) fun _ _ _ h => stateOn_of_get (get_alike h)

end Yirang.Deploy
