/-
# `Yirang.Deploy.Recorded` — no living instance without its record

When an operation returns, a living process that the engine started should
stand in `runtime.json`, so that the next agent adopts it.  `launch` breaks
this: it starts the process first, and when the identity of the boot or the
record file then fails it returns an error and leaves the process running.
`apply` stops such an instance again (`recover`); `startActive`, `restart`
and `rollbackTo` do not.

`Kept` is exactly what keeps the record: no start followed by such a failure,
and no adoption refused for a process that lives.  Under it the law holds in
every lifetime, also beside living processes of an earlier agent.
-/
import Yirang.Deploy.SingleInstance

namespace Yirang.Deploy

open Fs Effect Device Install

variable {cfg : Config} {w₀ : World} {m : Engine} {w : World}
  {h : List (Event Command World (Except EngineError Unit))}

/-- The record on the disk is exactly the process's own. -/
structure RecordedAs (cfg : Config) (w : World) (p : Process) : Prop where
  processId : (cfg.recordOn w.fs).processId = p.handle.id
  startToken : (cfg.recordOn w.fs).startToken = p.handle.startToken
  bootIdentity : (cfg.recordOn w.fs).bootIdentity = w.boot
  release : RunsFrom cfg (cfg.recordOn w.fs).releaseId p

/-- A trace begins when its engine is made. -/
theorem recorded_of_kept (h0 : w₀.trace = [])
    (hl : Life answer (Kept cfg False) cfg.engine w₀ m w h) :
    ∀ p ∈ w.live, .started p ∈ w.trace → RecordedAs cfg w p := by
  have hm : Managed cfg False True m w := by
    refine Life.invariant (B := fun _ w o => Fit cfg False True w o)
      (I := fun m w _ => Managed cfg False True m w) ?_ ?_ hl
    · refine Idle.managed fun p _ ho => ?_
      rw [Own, h0] at ho
      exact ho.elim id fun hmem => by cases hmem
    · exact fun m w h c hm =>
        serve_managed (A := Kept cfg False) (Or.inr trivial) (fun _ _ _ _ hc => hc) c hm
  intro p hp hstarted
  have hs := hm.accounted.sound p hp (Or.inr hstarted)
  have hrec := hs.recorded trivial
  refine ⟨?_, ?_, ?_, ?_⟩
  · rw [hrec]
  · rw [hrec]
  · rw [hrec]
  · rw [hrec]
    exact runsFrom_of_sound hs

/-- A launch that goes well leaves a recorded instance. -/
theorem recorded_of_kept_launched :
    ∃ w : World, (∀ p ∈ w.live, .started p ∈ w.trace → RecordedAs Sample.cfg w p) ∧
      ∃ p ∈ w.live, .started p ∈ w.trace := by
  obtain ⟨m, hm⟩ : ∃ m, ((Sample.cfg.engine.serve .startActive).run answer Sample.launching
      Sample.cfg.engine.fresh Sample.world).1 = .done (.ok ()) m := ⟨_, rfl⟩
  have hlife := Life.call Command.startActive Life.fresh
    (exec_of_run (A := Kept Sample.cfg False) (by decide +kernel) hm)
  exact ⟨_, recorded_of_kept rfl hlife, by decide +kernel⟩

/-- The choices of a `startActive` that launches and cannot write the record
file. -/
def Sample.unrecorded : List Choice :=
  List.replicate 5 ({} : Choice) ++ [({ handle } : Choice), ({} : Choice),
    ({ chance := { fault := some "No space left on device" } } : Choice)]

/-- The instance was started and the record file could not be written: the
call fails, the process lives, and no record names it. -/
theorem unrecorded_instance :
    ∃ m w h, Life answer Anyhow Sample.cfg.engine Sample.world m w h ∧
      (∃ e, h.head?.map Event.ret = some (.error e)) ∧
      ∃ p ∈ w.live, .started p ∈ w.trace ∧ ¬ RecordedAs Sample.cfg w p := by
  obtain ⟨m, e, hm⟩ : ∃ m e, ((Sample.cfg.engine.serve .startActive).run answer
      Sample.unrecorded Sample.cfg.engine.fresh Sample.world).1 = .done (.error e) m :=
    ⟨_, _, rfl⟩
  have hlife := Life.call Command.startActive Life.fresh
    (exec_of_run (A := Anyhow) (Program.admits_all _ _ _ _) hm)
  refine ⟨_, _, _, hlife, ⟨e, rfl⟩, ⟨Sample.handle, Sample.cfg.startOptions "r1"⟩,
    by decide +kernel, by decide +kernel, fun hr => ?_⟩
  exact absurd hr.processId (by decide +kernel)

end Yirang.Deploy
