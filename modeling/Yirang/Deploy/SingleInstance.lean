/-
# `Yirang.Deploy.SingleInstance` — one instance in one engine's lifetime

An engine that is made while no service process lives never starts a second
one.  Nothing is asked of the device beyond what `Yirang.Device` promises of
the supervisor: starts, stops and adoptions, file operations, the boot
identity and the probes may fail in any pattern, processes may die at any
time, and the files may say anything.

This is the pass of `Yirang.Deploy.Instance` with `everyone` true and `noted`
false, carried along a lifetime.
-/
import Yirang.Deploy.Instance

namespace Yirang.Deploy

open Fs Effect Device Install

/-- Any choice is allowed. -/
def Anyhow : World → Op → Choice → Prop := fun _ _ _ => True

variable {cfg : Config} {w₀ : World} {m : Engine} {w : World}
  {h : List (Event Command World (Except EngineError Unit))}

theorem managed_of_life (h0 : w₀.live = [])
    (hl : Life answer Anyhow cfg.engine w₀ m w h) : Managed cfg True False m w := by
  refine Life.invariant (B := fun _ w o => Fit cfg True False w o)
    (I := fun m w _ => Managed cfg True False m w) ?_ ?_ hl
  · refine Idle.managed fun p hp => ?_
    rw [h0] at hp
    cases hp
  · exact fun m w h c hm => serve_managed (Or.inl trivial) False.elim c hm

theorem live_length {everyone : Prop} (hall : everyone) (h : Lone everyone w) :
    w.live.length ≤ 1 := by
  have hnodup : w.live.Nodup := List.Nodup.of_map _ w.distinct
  match hw : w.live, hnodup with
  | [], _ => simp
  | [p], _ => simp
  | p :: q :: rest, hnd =>
      have hpq : p = q := h p (by rw [hw]; simp) q (by rw [hw]; simp) (Or.inl hall) (Or.inl hall)
      simp [hpq] at hnd

/-- The process runs the release: started with its executable, which lies in
its directory. -/
structure RunsFrom (cfg : Config) (r : String) (p : Process) : Prop where
  options : p.options = cfg.startOptions r
  inside : cfg.installer.releaseDirectory r <+: p.options.executablePath

theorem runsFrom_of_sound {noted : Prop} {p : Process} (hs : Sound cfg noted w p) :
    RunsFrom cfg (cfg.activeOn w) p := by
  refine ⟨hs.options, ?_⟩
  have hvalid := hs.valid
  unfold Config.validateServiceExecutable at hvalid
  split at hvalid
  · cases hvalid
  · unfold validateReleaseRelativePath at hvalid
    split at hvalid
    · cases hvalid
    · split at hvalid
      · cases hvalid
      · rename_i hpath
        simp only [Bool.or_eq_true, decide_eq_true_eq, not_or, Bool.not_eq_true] at hpath
        rw [hs.options]
        exact Path.under_join hpath.1 hpath.2

/-- At every operation boundary the living process is the one the engine
holds and runs the release recorded as active, and inside no operation is a
process started while one lives. -/
theorem single_instance (h0 : w₀.live = []) (hl : Life answer Anyhow cfg.engine w₀ m w h) :
    (w.live.length ≤ 1 ∧ ∀ p ∈ w.live, m.handle = some p.handle ∧
      cfg.activeOn w ≠ "" ∧ RunsFrom cfg (cfg.activeOn w) p) ∧
    ∀ c m' w' options, Exec answer Anyhow (cfg.engine.serve c) m w
      (.before m' (.start options)) w' → w'.live = [] := by
  have hm := managed_of_life h0 hl
  refine ⟨⟨live_length trivial hm.accounted.lone, fun p hp => ?_⟩, ?_⟩
  · have hs := hm.accounted.sound p hp (Or.inl trivial)
    exact ⟨hm.held p hp (Or.inl trivial), hs.active, runsFrom_of_sound hs⟩
  · intro c m' w' options he
    have hfit := wp_before he (serve_managed (A := Anyhow) (Or.inl trivial) False.elim c hm)
    exact List.eq_nil_iff_forall_not_mem.mpr fun p hp => hfit.alone trivial p hp (Or.inl trivial)

/-- On the small device the launched instance is the one that is held. -/
theorem single_instance_launched :
    ∃ (m : Engine) (w : World),
      w.live.length ≤ 1 ∧ (∀ p ∈ w.live, m.handle = some p.handle) ∧ w.live ≠ [] := by
  obtain ⟨m, hm⟩ : ∃ m, ((Sample.cfg.engine.serve .startActive).run answer Sample.launching
      Sample.cfg.engine.fresh Sample.world).1 = .done (.ok ()) m := ⟨_, rfl⟩
  have hlife := Life.call Command.startActive Life.fresh
    (exec_of_run (A := Anyhow) (Program.admits_all _ _ _ _) hm)
  have hs := (single_instance rfl hlife).1
  exact ⟨_, _, hs.1, fun p hp => (hs.2 p hp).1, by decide +kernel⟩

end Yirang.Deploy
