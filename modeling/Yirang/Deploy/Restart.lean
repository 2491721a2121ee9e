/-
# `Yirang.Deploy.Restart` — one instance across restarts of the agent

The agent is killed at some boundary between two calls, loses its handle, and
the next agent resumes from the record.  Killed anywhere but between a start
and the record of it, no second instance ever comes to live beside the first.

    Grants     what is asked of the device: that the instance just started
               can be recorded and the recorded one adopted, and that the
               state, the record and the identity of the boot can be read
    Killable   the boundaries at which the agent may be killed

Everything else may fail: starts, stops, the removal of the record, the
writing of the state, every step of the installer, and the probes.
-/
import Yirang.Deploy.SingleInstance

namespace Yirang.Deploy

open Fs Effect Device Install

/-- The state, the record and the identity of the boot can be read. -/
def Opens (cfg : Config) : Op → Choice → Prop
  | .file (.exists_ p), c =>
      p = cfg.installer.statePath ∨ p = cfg.recordPath → c.chance.fault = none
  | .file (.read p), c =>
      p = cfg.installer.statePath ∨ p = cfg.recordPath →
        c.chance.fault = none ∧ c.chance.cut = none
  | .bootIdentity, c => c.chance.fault = none
  | _, _ => True

structure Grants (cfg : Config) (w : World) (o : Op) (c : Choice) : Prop where
  kept : Kept cfg True w o c
  opens : Opens cfg o c

instance (cfg : Config) : (o : Op) → (c : Choice) → Decidable (Opens cfg o c)
  | .file (.exists_ _), _ => inferInstanceAs (Decidable (_ ∨ _ → _ = _))
  | .file (.read _), _ => inferInstanceAs (Decidable (_ ∨ _ → _ ∧ _))
  | .bootIdentity, _ => inferInstanceAs (Decidable (_ = _))
  | .file (.isDirectory _), _ | .file (.isRegularFile _), _ | .file (.createDirectories _), _
  | .file (.remove _), _ | .file (.removeAll _), _ | .file (.rename _ _), _
  | .file (.copyFile _ _), _ | .file (.write _ _), _ | .file (.list _), _ | .file (.walk _), _
  | .file (.relative _ _), _ | .file (.lastWriteTime _), _ | .file (.canonical _), _
  | .file (.ownerExec _), _ | .file (.addExec _), _ | .file (.symlink _ _), _
  | .start _, _ | .adopt _, _ | .stop _ _, _ | .status _, _ | .networkProbe, _ | .utcNow, _
  | .steadyNow, _ | .turns _ _, _ | .download _ _, _ | .inStore _, _ | .fileSha256 _, _ =>
      isTrue trivial

instance (cfg : Config) (w : World) (o : Op) (c : Choice) : Decidable (Grants cfg w o c) :=
  decidable_of_iff (Kept cfg True w o c ∧ Opens cfg o c)
    ⟨fun h => ⟨h.1, h.2⟩, fun h => ⟨h.kept, h.opens⟩⟩

/-- Not between the start of an instance and its record. -/
def Killable (cfg : Config) (_ : Engine) (w : World) (o : Op) : Prop := ¬ Pending cfg w o

theorem grants_restarts {cfg : Config} : Restarts cfg (Grants cfg) where
  faithful :=
    { stat := fun _ _ hc => hc.opens (Or.inl rfl)
      read := fun _ _ hc => hc.opens (Or.inl rfl) }
  readable := ⟨fun _ _ hc => hc.opens (Or.inr rfl), fun _ _ hc => hc.opens (Or.inr rfl)⟩
  boot := fun _ _ hc => hc.opens

variable {cfg : Config} {w₀ w : World} {ph : Phase Engine}

theorem boot_managed (h : Accounted cfg True True w) :
    wp answer (Grants cfg) (fun _ w o => Fit cfg True True w o) cfg.engine.boot
      (fun _ m' w' => Managed cfg True True m' w') cfg.engine.fresh w :=
  startActive_managed (Or.inl trivial) (fun _ _ _ _ hc => hc.kept)
    ⟨h, Or.inr ⟨trivial, grants_restarts⟩⟩

theorem step_managed {m : Engine} (c : Command) (h : Managed cfg True True m w) :
    wp answer (Grants cfg) (fun _ w o => Fit cfg True True w o) (cfg.engine.serve c)
      (fun _ m' w' => Managed cfg True True m' w') m w :=
  serve_managed (Or.inl trivial) (fun _ _ _ _ hc => hc.kept) c h

/-- Between lifetimes the record accounts for what lives; within one the
engine holds it too. -/
theorem runs_managed (h0 : w₀.live = [])
    (hr : Runs answer (Grants cfg) (Killable cfg) (fun _ _ _ => True) cfg.engine w₀ ph w) :
    ph.Holds (Accounted cfg True True) (Managed cfg True True) w := by
  refine Runs.invariant (B := fun _ w o => Fit cfg True True w o) ?_ ?_ ?_ ?_ ?_ hr
  · refine Idle.accounted fun p hp => ?_
    rw [h0] at hp
    cases hp
  · exact fun m w o hfit hk => hfit.accounted.resolve_left hk
  · exact fun m w hm => hm.accounted
  · exact fun w hj => boot_managed hj
  · exact fun m w c hm _ => step_managed c hm

theorem Phase.Holds.accounted {ph : Phase Engine}
    (h : ph.Holds (Accounted cfg True True) (Managed cfg True True) w) :
    Accounted cfg True True w := by
  cases ph with
  | down => exact h
  | up m => exact Managed.accounted h

/-- Over any number of lifetimes: never more than one living process, also
in the middle of a call, and at every operation boundary the record names
the pid, the token and the release of the one that lives. -/
theorem no_second_instance (h0 : w₀.live = [])
    (hr : Runs answer (Grants cfg) (Killable cfg) (fun _ _ _ => True) cfg.engine w₀ ph w) :
    w.live.length ≤ 1 ∧
    (∀ m o w', Exec answer (Grants cfg) cfg.engine.boot cfg.engine.fresh w (.before m o) w' →
      ph = .down → w'.live.length ≤ 1) ∧
    (∀ m c m' o w', ph = .up m →
      Exec answer (Grants cfg) (cfg.engine.serve c) m w (.before m' o) w' → w'.live.length ≤ 1) ∧
    ∀ p ∈ w.live, (cfg.recordOn w.fs).processId = p.handle.id ∧
      (cfg.recordOn w.fs).startToken = p.handle.startToken ∧
      RunsFrom cfg (cfg.recordOn w.fs).releaseId p := by
  have hrun := runs_managed h0 hr
  have hacc := Phase.Holds.accounted hrun
  refine ⟨live_length trivial hacc.lone, ?_, ?_, ?_⟩
  · rintro m o w' he rfl
    exact live_length trivial (wp_before he (boot_managed hrun)).lone
  · rintro m c m' o w' rfl he
    exact live_length trivial (wp_before he (step_managed c hrun)).lone
  · intro p hp
    have hs := hacc.sound p hp (Or.inl trivial)
    rw [hs.recorded trivial]
    exact ⟨rfl, rfl, runsFrom_of_sound hs⟩

/-- An instance is launched, the agent goes away, and the next one finds the
process by its record. -/
theorem no_second_instance_resumed :
    ∃ w : World, w.live.length ≤ 1 ∧ (∀ p ∈ w.live,
      (Sample.cfg.recordOn w.fs).processId = p.handle.id) ∧ w.live ≠ [] := by
  obtain ⟨m, hm⟩ : ∃ m, (Sample.cfg.engine.boot.run answer Sample.launching
      Sample.cfg.engine.fresh Sample.world).1 = .done (.ok ()) m := ⟨_, rfl⟩
  have hup := Runs.boot (K := Killable Sample.cfg) (G := fun _ _ _ => True) Runs.first
    (exec_of_run (A := Grants Sample.cfg) (by decide +kernel) hm)
  obtain ⟨m', hm'⟩ : ∃ m', (Sample.cfg.engine.boot.run answer
      (List.replicate 6 ({} : Choice)) Sample.cfg.engine.fresh
      (Sample.cfg.engine.boot.run answer Sample.launching
        Sample.cfg.engine.fresh Sample.world).2).1 = .done (.ok ()) m' := ⟨_, rfl⟩
  have hagain := Runs.boot hup.exit (exec_of_run (A := Grants Sample.cfg) (by decide +kernel) hm')
  have hs := no_second_instance rfl hagain
  exact ⟨_, hs.1, fun p hp => (hs.2.2.2 p hp).1, by decide +kernel⟩

end Yirang.Deploy
