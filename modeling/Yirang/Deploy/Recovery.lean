/-
# `Yirang.Deploy.Recovery` — what a failed `apply` leaves active

Two readings of the pass of `Yirang.Deploy.Switch`.

One call: a failed `apply` puts the pointer back on the release that was
active, or says why it did not, and never touches the files of that release.

One lifetime: the engine does not know good releases from bad ones.  It goes
back to whatever the state file names as previous, so a release that never
became ready can come back: because it was left active on a device that had
nothing else, or because the active release itself was applied again and
failed, and then the two exchange places (`ActiveBy`).
-/
import Yirang.Deploy.Switch
import Yirang.Deploy.SingleInstance

namespace Yirang.Deploy

open Fs Effect Device Install

variable {cfg : Config} {A : World → Op → Choice → Prop} {m m' : Engine} {w w' : World}
  {a r x : String} {source : Path} {e : EngineError}

/-! ## One call -/

theorem get_release_alike (ha : ValidId a) (har : a ≠ r) (h : Alike (Changes cfg r) w w')
    (q : Path) :
    w'.fs.get (cfg.installer.releaseDirectory a ++ q) =
      w.fs.get (cfg.installer.releaseDirectory a ++ q) :=
  h _ (not_changes_release ha har)

theorem isDir_alike (ha : ValidId a) (har : a ≠ r) (h : Alike (Changes cfg r) w w') :
    w'.fs.isDir (cfg.installer.releaseDirectory a) =
      w.fs.isDir (cfg.installer.releaseDirectory a) := by
  have hget := get_release_alike ha har h []
  rw [List.append_nil] at hget
  simp only [FileTree.isDir, hget]

/-- Why the pointer stayed on the failed release: it did not stop, or the
state file could not be read or written. -/
inductive HeldBack (o : InstallOptions) : EngineError → Prop
  | running {reason : String} {e : EngineError} : HeldBack o (.failedReleaseDidNotStop reason e)
  | fault {reason : String} {e : InstallError} : StateFault o e →
      HeldBack o (.noRollbackTarget reason e)

/-- … or the device answered wrongly: the state file, or the directory of
the release to go back to, was there and a `stat` of it failed. -/
inductive Unseen (o : InstallOptions) (A : World → Op → Choice → Prop) (a : String) :
    EngineError → Prop
  | state {reason : String} : ¬ Honest o A →
      Unseen o A a (.noRollbackTarget reason .noPreviousRelease)
  | release {reason : String} : ¬ HonestDir (o.releaseDirectory a) A →
      Unseen o A a (.noRollbackTarget reason (.previousNotInstalled a))

theorem astray_cases {s : ActivationState} {ie : InstallError} {reason : String} {w₁ : World}
    (ha : Installed cfg.installer w.fs a) (har : a ≠ r) (hs : s.active = a)
    (hmoved : ∃ s₁, Moved cfg A r s s₁ ∧ cfg.stateOn w₁ = s₁)
    (halike : Alike (Changes cfg r) w w₁) (hno : NoRollback cfg.installer A w₁ ie) :
    HeldBack cfg.installer (.noRollbackTarget reason ie) ∨
      Unseen cfg.installer A a (.noRollbackTarget reason ie) := by
  obtain ⟨s₁, hmoved, rfl⟩ := hmoved
  have hother : ¬ s.active = r := fun h => har (hs.symm.trans h)
  cases hno with
  | fault hf => exact Or.inl (.fault hf)
  | none hread hempty =>
      refine Or.inr (.state fun hA => ?_)
      have hprev := hmoved.honest hA
      rw [if_neg hother, hs, Config.stateOn, ← hread.honest hA, hempty] at hprev
      exact (Path.properName_iff.mp ha.valid.proper).1 hprev.symm
  | gone hread hne hgone =>
      -- what was read names a release, so it is the state file's own
      rcases hread with rfl | ⟨rfl, _⟩
      · have hprev := hmoved.target hne
        rw [if_neg hother, hs] at hprev
        have hname : (onDisk cfg.installer w₁.fs).previous = a := hprev
        rw [hname] at hgone ⊢
        refine Or.inr (.release fun hA => ?_)
        have hdir := hgone hA
        rw [isDir_alike ha.valid har halike, ha.there] at hdir
        cases hdir
      · exact absurd rfl hne

/-- A failed `apply` of another release leaves the active one active, or
says that it could not put it back; its files are what they were. -/
theorem active_restored (ha : Installed cfg.installer w.fs a) (hact : cfg.activeOn w = a)
    (hne : r ≠ a)
    (he : Exec answer A (apply cfg r source).run m w (.done (.error e) m') w') :
    (cfg.activeOn w' = a ∨ cfg.activeOn w' = r ∧
      (HeldBack cfg.installer e ∨ Unseen cfg.installer A a e)) ∧
    ∀ q, w'.fs.get (cfg.installer.releaseDirectory a ++ q) =
      w.fs.get (cfg.installer.releaseDirectory a ++ q) := by
  have hspec := wp_done he apply_moves
  refine ⟨?_, get_release_alike ha.valid hne.symm (hspec.2 e rfl)⟩
  cases hspec.1 with
  | early _ hget =>
      refine Or.inl (Eq.trans ?_ hact)
      exact congrArg ActivationState.active (stateOn_of_get hget)
  | recovered hmoved hrec =>
      have hother : ¬ (cfg.stateOn w).active = r := fun h => hne (h.symm.trans hact)
      cases hrec with
      | stuck hs =>
          refine Or.inr ⟨?_, Or.inl .running⟩
          rw [← hmoved.active, ← hs]
          rfl
      | astray hs halike hon hno =>
          refine Or.inr ⟨?_, astray_cases ha hne.symm hact ⟨_, hmoved, hon⟩ halike hno⟩
          rw [← hmoved.active, ← hs]
          rfl
      | back hprev hactive _ _ =>
          refine Or.inl (hactive.trans ?_)
          rw [hmoved.target hprev, if_neg hother]
          exact hact

/-- The choices of an `apply` of `r2` whose process does not start, and that
is rolled back. -/
def Sample.rolledBack : List Choice :=
  choices 41 [(25, failing "cannot execute"), (37, { handle })]

theorem active_restored_rolled :
    ∃ e m' w', Exec answer Anyhow (apply Sample.cfg "r2" ["src"]).run {} Sample.serving
      (.done (.error e) m') w' ∧ Sample.cfg.activeOn w' = "r1" ∧
    ∀ q, w'.fs.get (Sample.cfg.installer.releaseDirectory "r1" ++ q) =
      Sample.serving.fs.get (Sample.cfg.installer.releaseDirectory "r1" ++ q) := by
  obtain ⟨m, e, hm⟩ : ∃ m e, ((apply Sample.cfg "r2" ["src"]).run.run answer
      Sample.rolledBack {} Sample.serving).1 = .done (.error e) m := ⟨_, _, rfl⟩
  have he := exec_of_run (A := Anyhow) (Program.admits_all _ _ _ _) hm
  have hr := active_restored (a := "r1") ⟨⟨by decide +kernel, by decide +kernel⟩,
    by decide +kernel⟩ (by decide +kernel) (by decide) he
  exact ⟨e, m, _, he, hr.1.resolve_right fun h => absurd h.1 (by decide +kernel), hr.2⟩

/-- The choices of an `apply` of `r2` whose process does not start, and of a
`stat` of the directory of `r1` that fails when it is to be activated again. -/
def Sample.unseen : List Choice :=
  choices 29 [(25, failing "cannot execute"), (28, failing "Input/output error")]

/-- The active release is installed and the device cannot see it: the
pointer stays on the release that does not start. -/
theorem active_not_restored :
    ∃ m' w' reason, Exec answer Anyhow (apply Sample.cfg "r2" ["src"]).run {} Sample.serving
      (.done (.error (.noRollbackTarget reason (.previousNotInstalled "r1"))) m') w' ∧
    Installed Sample.cfg.installer Sample.serving.fs "r1" ∧
    Sample.cfg.activeOn Sample.serving = "r1" ∧ Sample.cfg.activeOn w' = "r2" ∧
    ¬ HeldBack Sample.cfg.installer (.noRollbackTarget reason (.previousNotInstalled "r1")) := by
  obtain ⟨m, reason, hm⟩ : ∃ m reason, ((apply Sample.cfg "r2" ["src"]).run.run answer
      Sample.unseen {} Sample.serving).1 =
        .done (.error (.noRollbackTarget reason (.previousNotInstalled "r1"))) m := ⟨_, _, rfl⟩
  refine ⟨m, _, reason, exec_of_run (A := Anyhow) (Program.admits_all _ _ _ _) hm,
    ⟨⟨by decide +kernel, by decide +kernel⟩, by decide +kernel⟩, by decide +kernel,
    by decide +kernel, ?_⟩
  rintro ⟨⟩
  rename_i hf
  cases hf with
  | load h => exact load_ne_gone h
where
  load_ne_gone {p : Path} {c : Content} {r : String} :
      ¬ ActivationState.load p c = .error (.previousNotInstalled r) := by
    unfold ActivationState.load
    split
    · simp
    · split <;> simp

/-! ## One lifetime -/

namespace EngineError

/-- The failed release stays active. -/
def leavesActive : EngineError → Bool
  | failedReleaseDidNotStop _ _ | noRollbackTarget _ _ => true
  | _ => false

end EngineError

abbrev History := List (Event Command World (Except EngineError Unit))

/-- How a release came to be the active one. -/
inductive ActiveBy (cfg : Config) (h : History) (x : String) : Prop
  /-- It became ready in a successful `apply`. -/
  | applied {source : Path} {w : World} : ⟨.apply x source, w, .ok ()⟩ ∈ h → ActiveBy cfg h x
  /-- The operator named it. -/
  | named {w : World} {res : Except EngineError Unit} : ⟨.rollbackTo x, w, res⟩ ∈ h →
      ActiveBy cfg h x
  /-- Its `apply` failed and could not go back. -/
  | left {source : Path} {w : World} {e : EngineError} : ⟨.apply x source, w, .error e⟩ ∈ h →
      e.leavesActive = true → ActiveBy cfg h x
  /-- It was previous when the active release was applied again and failed. -/
  | exchanged {r : String} {source : Path} {w : World} {e : EngineError} :
      ⟨.apply r source, w, .error e⟩ ∈ h → cfg.activeOn w = r → e.rolledBackTo = some x →
      ActiveBy cfg h x

theorem ActiveBy.mono {h h' : History} (hsub : ∀ ev ∈ h, ev ∈ h') (hx : ActiveBy cfg h x) :
    ActiveBy cfg h' x := by
  cases hx with
  | applied hmem => exact .applied (hsub _ hmem)
  | named hmem => exact .named (hsub _ hmem)
  | left hmem hl => exact .left (hsub _ hmem) hl
  | exchanged hmem hact hback => exact .exchanged (hsub _ hmem) hact hback

/-- The active release came to be active in some way. -/
def Explained (cfg : Config) (h : History) (w : World) : Prop :=
  cfg.activeOn w = "" ∨ ActiveBy cfg h (cfg.activeOn w)

theorem explained_of_stays {h : History} (ev : Event Command World (Except EngineError Unit))
    (hx : Explained cfg h w) (hs : cfg.stateOn w' = cfg.stateOn w) :
    Explained cfg (ev :: h) w' := by
  have hact : cfg.activeOn w' = cfg.activeOn w := congrArg ActivationState.active hs
  rw [Explained, hact]
  exact hx.imp_right fun hx => hx.mono fun _ hmem => List.mem_cons_of_mem _ hmem

/-- Where a rollback goes: to the active release, or — if that is the one
that failed — to the previous one. -/
theorem target_of_applied (h : Applied cfg A r w w' (.error e)) (hx : e.rolledBackTo = some x) :
    cfg.activeOn w' = x ∧ x ≠ "" ∧
      x = if cfg.activeOn w = r then (cfg.stateOn w).previous else cfg.activeOn w := by
  cases h with
  | early hearly _ => cases e <;> cases hearly <;> cases hx
  | recovered hmoved hrec =>
      cases hrec with
      | stuck _ => cases hx
      | astray _ _ _ _ => cases hx
      | back hne hactive _ hback =>
          obtain rfl := Option.some.inj (hx.symm.trans hback)
          exact ⟨hactive, hne, hmoved.target hne⟩

theorem apply_explained {h : History} (hx : Explained cfg h w) {res : Except EngineError Unit}
    (happ : Applied cfg A r w w' res) : Explained cfg (⟨.apply r source, w, res⟩ :: h) w' := by
  cases happ with
  | early _ hget => exact explained_of_stays _ hx (stateOn_of_get hget)
  | done hmoved =>
      have hact : cfg.activeOn w' = r := hmoved.active
      exact Or.inr (hact ▸ .applied List.mem_cons_self)
  | recovered hmoved hrec =>
      -- where nothing was rolled back, the failed release is the active one
      have stays : ∀ e : EngineError, e.leavesActive = true → cfg.stateOn w' = _ →
          Explained cfg (⟨.apply r source, w, .error e⟩ :: h) w' := fun e hl hs => by
        have hact : cfg.activeOn w' = r := (congrArg ActivationState.active hs).trans hmoved.active
        exact Or.inr (hact ▸ .left List.mem_cons_self hl)
      cases hrec with
      | stuck hs => exact stays _ rfl hs
      | astray hs _ _ _ => exact stays _ rfl hs
      | back hne hactive _ hback =>
          have hact : cfg.activeOn w' = _ := hactive
          have htarget := hmoved.target hne
          by_cases hr : (cfg.stateOn w).active = r
          · exact Or.inr (hact ▸ .exchanged List.mem_cons_self hr hback)
          · rw [if_neg hr] at htarget
            have hstays : cfg.activeOn w' = cfg.activeOn w := hact.trans htarget
            rw [Explained, hstays]
            exact hx.imp_right fun hx => hx.mono fun _ hmem => List.mem_cons_of_mem _ hmem

theorem serve_explained {h : History} (c : Command) (hx : Explained cfg h w) :
    wp answer A Anywhere (cfg.engine.serve c)
      (fun res _ w' => Explained cfg (⟨c, w, res⟩ :: h) w') m w := by
  have stays : ∀ {p : Program device Engine (Except EngineError Unit)},
      Uses (Only (Noting cfg)) p → wp answer A Anywhere p
        (fun res _ w' => Explained cfg (⟨c, w, res⟩ :: h) w') m w := fun hp =>
    wp_conseq (stays_of_uses hp) fun res _ w' hs => explained_of_stays _ hx hs
  cases c with
  | apply r source =>
      exact wp_conseq apply_moves fun res m' w' happ => apply_explained hx happ.1
  | rollbackTo r =>
      refine wp_conseq rollbackTo_moves ?_
      rintro res m' w' (hs | hmoved)
      · exact explained_of_stays _ hx hs
      · have hact : cfg.activeOn w' = r := hmoved.active
        exact Or.inr (hact ▸ .named List.mem_cons_self)
  | startActive => exact stays startActive_uses
  | restart => exact stays restart_uses
  | stop => exact stays (only_of_touches stop_uses)

theorem explained_of_life {w₀ : World} {h : History}
    (h0 : w₀.fs.get cfg.installer.statePath = none)
    (hl : Life answer A cfg.engine w₀ m w h) : Explained cfg h w := by
  refine Life.invariant (B := Anywhere) (I := fun _ w h => Explained cfg h w) ?_ ?_ hl
  · exact Or.inl (congrArg ActivationState.active (onDisk_of_none h0))
  · exact fun m w h c hx => serve_explained c hx

/-- What a rollback brings back: the release that was active when `apply`
was called, which had come to be active in one of the four ways; and the
previous one only where the active release was applied again. -/
theorem rolled_back_active {w₀ w₁ : World} {h : History}
    (h0 : w₀.fs.get cfg.installer.statePath = none)
    (hl : Life answer A cfg.engine w₀ m w (⟨.apply r source, w₁, .error e⟩ :: h))
    (hx : e.rolledBackTo = some x) :
    cfg.activeOn w = x ∧
      (cfg.activeOn w₁ ≠ r → x = cfg.activeOn w₁ ∧ ActiveBy cfg h x) ∧
      (cfg.activeOn w₁ = r → x = (cfg.stateOn w₁).previous) := by
  cases hl with
  | call c hl he =>
      have happ := (wp_done he (apply_moves (A := A))).1
      obtain ⟨hactive, hempty, htarget⟩ := target_of_applied happ hx
      refine ⟨hactive, fun hne => ?_, fun hr => ?_⟩
      · rw [if_neg hne] at htarget
        refine ⟨htarget, htarget ▸ (explained_of_life h0 hl).resolve_left fun hnone => ?_⟩
        exact hempty (htarget.trans hnone)
      · rw [if_pos hr] at htarget
        exact htarget

/-- Two releases are applied on a device without a service, and neither
starts; then the first is launched again. -/
def Sample.firstFails : List Choice := choices 26 []

def Sample.secondFails : List Choice := choices 41 [(25, failing "cannot execute"), (37, { handle })]

theorem Sample.both_fail :
    ∃ m w w₁ e e', Life answer Anyhow Sample.cfg.engine fetched m w
      [⟨.apply "r2" ["src"], w₁, .error e⟩, ⟨.apply "r1" ["src"], fetched, .error e'⟩] ∧
      e.rolledBackTo = some "r1" ∧ Sample.cfg.activeOn w₁ = "r1" := by
  obtain ⟨e', hfirst⟩ : ∃ e, ((apply Sample.cfg "r1" ["src"]).run.run answer firstFails {}
      fetched).1 = .done (.error e) {} := ⟨_, rfl⟩
  have hlife := Life.call (.apply "r1" ["src"]) (S := Sample.cfg.engine) Life.fresh
    (exec_of_run (A := Anyhow) (Program.admits_all _ _ _ _) hfirst)
  have hback : (((apply Sample.cfg "r2" ["src"]).run.run answer secondFails {}
      ((apply Sample.cfg "r1" ["src"]).run.run answer firstFails {} fetched).2).1.error?.bind
        EngineError.rolledBackTo) = some "r1" := by decide +kernel
  obtain ⟨e, he, hto⟩ := Option.bind_eq_some_iff.mp hback
  obtain ⟨m, hsecond⟩ := Outcome.done_of_error? he
  have hlife₂ := Life.call (.apply "r2" ["src"]) (S := Sample.cfg.engine) hlife
    (exec_of_run (A := Anyhow) (Program.admits_all _ _ _ _) hsecond)
  exact ⟨_, _, _, _, _, hlife₂, hto, by decide +kernel⟩

/-- The release that came back is the one that had been left active. -/
theorem rolled_back_active_left :
    ∃ (w w₁ : World) (h : History), Sample.cfg.activeOn w = "r1" ∧
      "r1" = Sample.cfg.activeOn w₁ ∧ ActiveBy Sample.cfg h "r1" := by
  obtain ⟨m, w, w₁, e, e', hl, hto, hact⟩ := Sample.both_fail
  have hr := rolled_back_active (by decide +kernel) hl hto
  obtain ⟨hx, hby⟩ := hr.2.1 (by rw [hact]; decide)
  exact ⟨w, w₁, _, hr.1, hx, hby⟩

/-- It never became ready, and nobody asked for it. -/
theorem bad_release_returns :
    ∃ m w w₁ e h, Life answer Anyhow Sample.cfg.engine Sample.fetched m w
      (⟨.apply "r2" ["src"], w₁, .error e⟩ :: h) ∧ e.rolledBackTo = some "r1" ∧
      ∀ ev ∈ h, ev.ret ≠ .ok () ∧ ev.call ≠ .rollbackTo "r1" := by
  obtain ⟨m, w, w₁, e, e', hl, hto, _⟩ := Sample.both_fail
  refine ⟨m, w, w₁, e, _, hl, hto, fun ev hev => ?_⟩
  obtain rfl := List.mem_singleton.mp hev
  exact ⟨by simp, by simp⟩

end Yirang.Deploy
