/-
# `Yirang.Deploy.Outage` — what a failed `rollbackTo` leaves running

`rollbackTo` stops the instance and then moves the pointer.  `apply`, which
does the same, starts the active release again where the pointer could not be
moved; `rollbackTo` returns the error and leaves the service down.

    StaysUp   an error that left the state file as it was left an instance of
              the active release alive
    Works     the calls that must go well between the stop and the move
    rollback_up_iff   a run of `rollbackTo` stays up exactly if they do

Asked of the device is only that the supervisor stops and starts when it is
told to (`Obeys`).  One of the causes needs no failure at all: the agent takes
any name that `Artifact.validateReleaseId` admits, and of those the installer
refuses its own `.staging-` and `.retired-` directories, but only once the
service is stopped.
-/
import Yirang.Effect.Verdict
import Yirang.Deploy.Switch
import Yirang.Agent.Message

namespace Yirang.Deploy

open Fs Effect Device Install

variable {cfg : Config} {m : Engine} {w₀ w w' : World} {r a : String} {p : Process}

/-! ## What is claimed -/

/-- An instance of the active release lives. -/
def Config.Serves (cfg : Config) (w : World) : Prop :=
  ∃ q ∈ w.live, q.options = cfg.startOptions (cfg.activeOn w)

/-- If the operation failed and the pointer is where it was, the service is
up. -/
def StaysUp (cfg : Config) (w : World) (res : Except EngineError Unit) (w' : World) : Prop :=
  (∃ e, res = .error e) →
    w'.fs.get cfg.installer.statePath = w.fs.get cfg.installer.statePath → cfg.Serves w'

/-- The engine holds a living instance of the active release. -/
structure Serving (cfg : Config) (m : Engine) (w : World) (p : Process) : Prop where
  alive : p ∈ w.live
  held : m.handle = some p.handle
  runs : p.options = cfg.startOptions (cfg.activeOn w)

/-- Beside `p`, another instance of the active release lives. -/
def Another (cfg : Config) (p : Process) (w : World) : Prop :=
  ∃ q ∈ w.live, q ≠ p ∧ q.options = cfg.startOptions (cfg.activeOn w)

/-- The supervisor stops and starts when it is told to. -/
def Commanded (w : World) : Op → Choice → Prop
  | .stop _ _, c => c.chance.fault = none
  | .start _, c => c.chance.fault = none ∧ 0 < c.handle.id ∧
      ∀ q ∈ w.live, q.handle.id ≠ c.handle.id
  | _, _ => True

instance (w : World) : (o : Op) → (c : Choice) → Decidable (Commanded w o c)
  | .stop _ _, _ => inferInstanceAs (Decidable (_ = _))
  | .start _, _ => inferInstanceAs (Decidable (_ ∧ _ ∧ _))
  | .file _, _ | .adopt _, _ | .status _, _ | .networkProbe, _ | .bootIdentity, _ | .utcNow, _
  | .steadyNow, _ | .turns _ _, _ | .download _ _, _ | .inStore _, _ | .fileSha256 _, _ =>
      isTrue trivial

/-- … and no instance of `a` dies by itself. -/
def Obeys (cfg : Config) (a : String) (w : World) (o : Op) (c : Choice) : Prop :=
  (∀ q ∈ w.live, q.options = cfg.startOptions a → q.handle ∉ c.dead) ∧ Commanded w o c

instance (w : World) (o : Op) (c : Choice) : Decidable (Obeys cfg a w o c) :=
  inferInstanceAs (Decidable (_ ∧ _))

theorem start_commanded {options : ProcessStartOptions} {c : Choice}
    (h : Commanded w (.start options) c) : (answer c (.start options) w).1 = .ok c.handle := by
  obtain ⟨hf, hpos, hfree⟩ := h
  have hfresh : 0 < c.handle.id ∧
      c.handle.id ∉ (w.bury c.dead).live.map fun q => q.handle.id := by
    refine ⟨hpos, fun hmem => ?_⟩
    obtain ⟨q, hq, he⟩ := List.mem_map.mp hmem
    exact hfree q (List.mem_filter.mp hq).1 he
  simp only [answer_fst, perform, hf, dif_pos hfresh]

/-- What has to go well while the service is stopped and the state file is as
it was. -/
def Needed (cfg : Config) (r : String) (w : World) : Op → Choice → Prop
  | .file (.remove q), c =>
      q = cfg.recordPath → (answer c (.file (.remove q)) w).1 = .ok ()
  | .file (.isDirectory q), c => (answer c (.file (.isDirectory q)) w).1 = true
  | .file (.read q), c => ∃ x s, (answer c (.file (.read q)) w).1 = some x ∧
      ActivationState.load q x = .ok s
  | .file (.createDirectories q), c => (answer c (.file (.createDirectories q)) w).1 = .ok ()
  | .file (.write q x), c =>
      q = cfg.installer.stateTemporary → (answer c (.file (.write q x)) w).1 = .ok ()
  | .file (.rename q q'), c =>
      q = cfg.installer.stateTemporary → (answer c (.file (.rename q q')) w).1 = .ok ()
  | .file (.exists_ q), c =>
      q = cfg.executable r → (answer c (.file (.exists_ q)) w).1 = true
  | .file (.addExec q), c => (answer c (.file (.addExec q)) w).1 = .ok ()
  | _, _ => True

/-- The instance is stopped only for a name that the installer admits. -/
def Admitted (r : String) : Op → Prop
  | .stop _ _ => Install.validateReleaseId r = .ok ()
  | _ => True

/-- What has to go well in a rollback to `r` from the world `w₀`, in which
`p` is the instance: the installer admits the name, and once `p` is stopped
nothing that is needed fails. -/
def Works (cfg : Config) (r : String) (p : Process) (w₀ w : World) (o : Op) (c : Choice) : Prop :=
  Admitted r o ∧
    (p ∉ w.live → w.fs.get cfg.installer.statePath = w₀.fs.get cfg.installer.statePath →
      Needed cfg r w o c)

/-! ## Calls that keep the state file and the instances -/

/-- The state file and the instances of `a` are as they were. -/
structure Keeps (cfg : Config) (a : String) (w w' : World) : Prop where
  state : w'.fs.get cfg.installer.statePath = w.fs.get cfg.installer.statePath
  live : ∀ {q : Process}, q.options = cfg.startOptions a → (q ∈ w'.live ↔ q ∈ w.live)

theorem Keeps.refl : Keeps cfg a w w := ⟨rfl, fun _ => Iff.rfl⟩

theorem Keeps.trans {w'' : World} (h : Keeps cfg a w w') (h' : Keeps cfg a w' w'') :
    Keeps cfg a w w'' :=
  ⟨h'.state.trans h.state, fun hq => (h'.live hq).trans (h.live hq)⟩

/-- A call that neither starts nor stops, nor writes the state file. -/
structure Quiet (cfg : Config) (o : Op) : Prop where
  starts : ¬ o.IsStart
  stops : ∀ h n, o ≠ .stop h n
  spares : ¬ o.writes cfg.installer.statePath

theorem quiet_file {f : FileOp Content} (h : ¬ f.writes cfg.installer.statePath) :
    Quiet cfg (.file f) :=
  ⟨id, fun _ _ hs => (by cases hs), h⟩

/-- No instance of `a` dies by itself. -/
def Undying (cfg : Config) (a : String) (w : World) (c : Choice) : Prop :=
  ∀ q ∈ w.live, q.options = cfg.startOptions a → q.handle ∉ c.dead

theorem live_call {o : Op} {c : Choice} (hstart : ¬ o.IsStart) (hstop : ∀ h n, o ≠ .stop h n)
    (hc : Undying cfg a w c) {q : Process} (hq : q.options = cfg.startOptions a) :
    q ∈ (answer c o w).2.live ↔ q ∈ w.live := by
  obtain ⟨t, keep, hshape, hkeep⟩ := perform_shape c (w.bury c.dead) hstart
  rw [answer_live, hshape, hkeep hstop]
  show q ∈ (w.live.filter _).filter _ ↔ _
  simp only [List.mem_filter, and_true, Bool.not_eq_true', List.contains_eq_mem,
    decide_eq_false_iff_not]
  exact and_iff_left_of_imp fun hl => hc q hl hq

theorem keeps_call {o : Op} {c : Choice} (ho : Quiet cfg o) (hc : Undying cfg a w c) :
    Keeps cfg a w (answer c o w).2 :=
  ⟨perform_files ho.spares, live_call ho.starts ho.stops hc⟩

theorem wp_keeps {M α : Type} {A : World → Op → Choice → Prop}
    (hA : ∀ w o c, A w o c → Undying cfg a w c) {p : Program device M α} {m : M}
    (hp : Uses (Quiet cfg) p) :
    wp answer A Anywhere p (fun _ _ w' => Keeps cfg a w w') m w :=
  wp_of_uses (fun _ _ _ ho hc h => h.trans (keeps_call ho (hA _ _ _ hc)))
    (fun _ _ _ _ _ => trivial) hp .refl

/-- The instance `p` was stopped; otherwise the instances, and the state file,
are as in `w₀`. -/
structure Stopped (cfg : Config) (p : Process) (w₀ w : World) : Prop where
  state : w.fs.get cfg.installer.statePath = w₀.fs.get cfg.installer.statePath
  live : ∀ {q : Process}, q.options = cfg.startOptions (cfg.activeOn w₀) →
    (q ∈ w.live ↔ q ∈ w₀.live ∧ q ≠ p)

theorem Stopped.keeps (h : Stopped cfg p w₀ w) (hk : Keeps cfg (cfg.activeOn w₀) w w') :
    Stopped cfg p w₀ w' :=
  ⟨hk.state.trans h.state, fun hq => (hk.live hq).trans (h.live hq)⟩

theorem Stopped.active (h : Stopped cfg p w₀ w) : cfg.activeOn w = cfg.activeOn w₀ := by
  rw [Config.activeOn, onDisk_of_get h.state, Config.activeOn]

theorem Stopped.serves_iff (h : Stopped cfg p w₀ w) : cfg.Serves w ↔ Another cfg p w₀ := by
  rw [Config.Serves, h.active]
  constructor
  · rintro ⟨q, hq, ho⟩
    obtain ⟨hq₀, hne⟩ := (h.live ho).mp hq
    exact ⟨q, hq₀, hne, ho⟩
  · rintro ⟨q, hq₀, hne, ho⟩
    exact ⟨q, (h.live ho).mpr ⟨hq₀, hne⟩, ho⟩

/-- The operation failed with the service down. -/
def Failed (cfg : Config) (p : Process) (w₀ : World) (res : Except EngineError Unit)
    (w' : World) : Prop :=
  (∃ e, res = .error e) ∧ Stopped cfg p w₀ w'

theorem Failed.staysUp_iff {res : Except EngineError Unit} (h : Failed cfg p w₀ res w') :
    StaysUp cfg w₀ res w' ↔ Another cfg p w₀ :=
  ⟨fun hup => h.2.serves_iff.mp (hup h.1 h.2.state), fun hq _ _ => h.2.serves_iff.mpr hq⟩

/-! ## Stopped, and not yet moved -/

section Moving

variable (hs : Stopped cfg p w₀ w) (hp : p.options = cfg.startOptions (cfg.activeOn w₀))

include hs hp

theorem Stopped.not_live : p ∉ w.live := fun h => ((hs.live hp).mp h).2 rfl

/-- At a file call the condition is what the call itself needs. -/
theorem works_file_iff {f : FileOp Content} {c : Choice} :
    Works cfg r p w₀ w (.file f) c ↔ Needed cfg r w (.file f) c :=
  ⟨fun h => h.2 (hs.not_live hp) hs.state, fun h => ⟨trivial, fun _ _ => h⟩⟩

omit hp in
theorem Stopped.call {f : FileOp Content} {c : Choice}
    (hf : ¬ f.writes cfg.installer.statePath) (hc : Obeys cfg (cfg.activeOn w₀) w (.file f) c) :
    Stopped cfg p w₀ (answer c (.file f) w).2 :=
  hs.keeps (keeps_call (quiet_file hf) hc.1)

omit hs hp in
theorem verdict_file {M ε : Type} {A K : World → Op → Choice → Prop} {f : FileOp Content} {m : M}
    {Q N : Except ε (FileOp.Res f) → M → World → Prop} :
    verdict answer A K Q N (file f : Act device M ε (FileOp.Res f)).run m w ↔
      ∀ c, A w (.file f) c →
        (K w (.file f) c → Q (.ok (answer c (.file f) w).1) m (answer c (.file f) w).2) ∧
        (¬ K w (.file f) c → N (.ok (answer c (.file f) w).1) m (answer c (.file f) w).2) := Iff.rfl

omit hs hp in
theorem statePath_ne_record : cfg.installer.statePath ≠ cfg.recordPath := fun h => by
  simpa using List.append_cancel_left h

/-- The record goes, or the operation fails with the service down. -/
theorem clearRecord_verdict {m : Engine} :
    verdict answer (Obeys cfg (cfg.activeOn w₀)) (Works cfg r p w₀)
      (fun res _ w' => res = .ok () ∧ Stopped cfg p w₀ w')
      (fun res _ w' => Failed cfg p w₀ res w') (clearRecord cfg).run m w := by
  refine verdict_orFail.mpr (verdict_file.mpr fun c hc => ?_)
  have hs' := hs.call (f := .remove cfg.recordPath) statePath_ne_record hc
  rw [works_file_iff hs hp]
  cases hr : (answer c (.file (.remove cfg.recordPath)) w).1 with
  | ok _ => exact ⟨fun _ => ⟨rfl, hs'⟩, fun hK => absurd (fun _ => hr) hK⟩
  | error e =>
      refine ⟨fun hK => ?_, fun _ => ⟨⟨_, rfl⟩, hs'⟩⟩
      cases hr.symm.trans (hK rfl)

/-- What was asked of the installer came to nothing. -/
def Refused (cfg : Config) (p : Process) (w₀ : World) {α : Type} (res : Except InstallError α)
    (w' : World) : Prop :=
  (∃ e, res = .error e) ∧ Stopped cfg p w₀ w'

theorem state_verdict (hexe : cfg.installer.statePath ≠ cfg.executable r) :
    verdict answer (Obeys cfg (cfg.activeOn w₀)) (Works cfg r p w₀)
      (fun res _ w' => (∃ s, res = .ok s) ∧ Stopped cfg p w₀ w')
      (fun res _ w' => Refused cfg p w₀ res w') (state cfg.installer).run () w := by
  refine verdict_seq.mpr (verdict_file.mpr fun c hc => ?_)
  have hs₁ := hs.call (f := .exists_ cfg.installer.statePath) id hc
  have hthere : Works cfg r p w₀ w (.file (.exists_ cfg.installer.statePath)) c :=
    (works_file_iff hs hp).mpr fun h => absurd h hexe
  refine ⟨fun _ => ?_, fun hK => absurd hthere hK⟩
  cases (answer c (.file (.exists_ cfg.installer.statePath)) w).1 with
  | false => exact ⟨⟨_, rfl⟩, hs₁⟩
  | true =>
      revert hs₁
      generalize (answer c (.file (.exists_ cfg.installer.statePath)) w).2 = w₁
      intro hs₁
      refine verdict_seq.mpr (verdict_file.mpr fun c₂ hc₂ => ?_)
      have hs₂ := hs₁.call (f := .read cfg.installer.statePath) id hc₂
      rw [works_file_iff hs₁ hp]
      cases hr : (answer c₂ (.file (.read cfg.installer.statePath)) w₁).1 with
      | none =>
          refine ⟨fun ⟨x, s, hx, _⟩ => ?_, fun _ => ⟨⟨_, rfl⟩, hs₂⟩⟩
          cases hr.symm.trans hx
      | some x =>
          cases hl : ActivationState.load cfg.installer.statePath x with
          | ok s =>
              refine ⟨fun _ => ?_, fun hK => absurd ⟨x, s, hr, hl⟩ hK⟩
              dsimp only [andJudge]
              rw [hl]
              exact ⟨⟨s, rfl⟩, hs₂⟩
          | error e =>
              refine ⟨fun ⟨y, s, hy, hs⟩ => ?_, fun _ => ?_⟩
              · cases hr.symm.trans hy
                cases hl.symm.trans hs
              · dsimp only [andThen]
                rw [hl]
                exact ⟨⟨e, rfl⟩, hs₂⟩

/-- The instance is stopped and the pointer names `r`. -/
structure Switched (cfg : Config) (p : Process) (w₀ : World) (r : String) (w : World) :
    Prop where
  state : ∃ s : ActivationState, s.active = r ∧
    w.fs.get cfg.installer.statePath = some (.file (.json s.toJson))
  live : ∀ {q : Process}, q.options = cfg.startOptions (cfg.activeOn w₀) →
    (q ∈ w.live ↔ q ∈ w₀.live ∧ q ≠ p)

theorem writeState_verdict {next : ActivationState} (hnext : next.active = r) :
    verdict answer (Obeys cfg (cfg.activeOn w₀)) (Works cfg r p w₀)
      (fun res _ w' => res = .ok () ∧ Switched cfg p w₀ r w')
      (fun res _ w' => Refused cfg p w₀ res w') (writeState cfg.installer next).run () w := by
  refine verdict_seq.mpr (verdict_orFail.mpr (verdict_file.mpr fun c hc => ?_))
  have hs₁ := hs.call (f := .createDirectories cfg.installer.root) root_prefix_ne hc
  rw [works_file_iff hs hp]
  cases hmade : (answer c (.file (.createDirectories cfg.installer.root)) w).1 with
  | error e =>
      refine ⟨fun hK => ?_, fun _ => ⟨⟨_, rfl⟩, hs₁⟩⟩
      cases hmade.symm.trans hK
  | ok _ =>
      refine ⟨fun _ => ?_, fun hK => absurd hmade hK⟩
      revert hs₁
      generalize (answer c (.file (.createDirectories cfg.installer.root)) w).2 = w₁
      intro hs₁
      refine verdict_seq.mpr (verdict_orFail.mpr (verdict_file.mpr fun c₂ hc₂ => ?_))
      have hs₂ := hs₁.call (f := .write _ _) statePath_ne_temporary hc₂
      rw [works_file_iff hs₁ hp]
      cases hput : (answer c₂ (.file (.write cfg.installer.stateTemporary
          (.json next.toJson))) w₁).1 with
      | error e =>
          refine ⟨fun hK => ?_, fun _ => ⟨⟨_, rfl⟩, hs₂⟩⟩
          cases hput.symm.trans (hK rfl)
      | ok _ =>
          refine ⟨fun _ => ?_, fun hK => absurd (fun _ => hput) hK⟩
          have hwritten := FileTree.get_putAt (write_ok hput) cfg.installer.stateTemporary
          rw [if_pos rfl] at hwritten
          revert hs₂ hwritten
          generalize (answer c₂ (.file (.write cfg.installer.stateTemporary
            (.json next.toJson))) w₁).2 = w₂
          intro hs₂ hwritten
          refine verdict_seq.mpr (verdict_file.mpr fun c₃ hc₃ => ?_)
          rw [works_file_iff hs₂ hp]
          cases hr : (answer c₃ (.file (.rename cfg.installer.stateTemporary
              cfg.installer.statePath)) w₂).1 with
          | ok _ =>
              refine ⟨fun _ => ⟨rfl, ⟨next, hnext, ?_⟩, fun hq => ?_⟩,
                fun hK => absurd (fun _ => hr) hK⟩
              · have hmoved := FileTree.get_moveAt (rename_ok hr) cfg.installer.statePath
                rw [if_pos List.prefix_rfl] at hmoved
                refine hmoved.trans ?_
                rw [FileTree.movedFrom, List.drop_length, List.append_nil]
                exact hwritten
              · exact (live_call id (fun _ _ h => by cases h) hc₃.1 hq).trans (hs₂.live hq)
          | error e =>
              refine ⟨fun hK => ?_, fun _ => ?_⟩
              · cases hr.symm.trans (hK rfl)
              · have hs₃ : Stopped cfg p w₀ (answer c₃ (.file (.rename
                    cfg.installer.stateTemporary cfg.installer.statePath)) w₂).2 :=
                  ⟨(get_same (rename_error hr) _).trans hs₂.state, fun hq =>
                    (live_call id (fun _ _ h => by cases h) hc₃.1 hq).trans (hs₂.live hq)⟩
                refine wp_seq.mpr (wp_file.mpr ⟨trivial, fun c₄ hc₄ => ⟨⟨_, rfl⟩, ?_⟩⟩)
                exact hs₃.call (f := .remove _) statePath_ne_temporary hc₄

omit hs hp in
theorem Switched.call {f : FileOp Content} {c : Choice} (h : Switched cfg p w₀ r w)
    (hf : ¬ f.writes cfg.installer.statePath) (hc : Obeys cfg (cfg.activeOn w₀) w (.file f) c) :
    Switched cfg p w₀ r (answer c (.file f) w).2 := by
  have hk := keeps_call (quiet_file hf) hc.1
  obtain ⟨s, hr, hget⟩ := h.state
  exact ⟨⟨s, hr, hk.state.trans hget⟩, fun hq => (hk.live hq).trans (h.live hq)⟩

omit hs hp in
theorem refreshCurrentLink_verdict (h : Switched cfg p w₀ r w)
    {N : Except InstallError Unit → Unit → World → Prop} :
    verdict answer (Obeys cfg (cfg.activeOn w₀)) (Works cfg r p w₀)
      (fun res _ w' => res = .ok () ∧ Switched cfg p w₀ r w') N
      (refreshCurrentLink cfg.installer r).run () w := by
  have hother : cfg.installer.currentLink ≠ cfg.recordPath := fun h => by
    simpa using List.append_cancel_left h
  refine verdict_of_wp (wp_seq.mpr (wp_file.mpr ⟨fun c _ => ⟨trivial, fun _ _ h => ?_⟩,
    fun c hc => ?_⟩))
  · exact absurd h hother
  have h₁ := h.call (f := .remove _) statePath_ne_link hc
  refine wp_seq.mpr (wp_file.mpr ⟨fun _ _ => ⟨trivial, fun _ _ => trivial⟩, fun c₂ hc₂ => ?_⟩)
  exact ⟨rfl, h₁.call (f := .symlink _ _) statePath_ne_link hc₂⟩

/-- The pointer is moved, or the operation fails with the service down. -/
theorem activate_verdict (hv : Install.validateReleaseId r = .ok ())
    (hexe : cfg.installer.statePath ≠ cfg.executable r) :
    verdict answer (Obeys cfg (cfg.activeOn w₀)) (Works cfg r p w₀)
      (fun res _ w' => res = .ok () ∧ Switched cfg p w₀ r w')
      (fun res _ w' => Refused cfg p w₀ res w') (activate cfg.installer r).run () w := by
  have refused : ∀ {α β : Type} {f : α → Step β} {res : Except InstallError α} {m : Unit}
      {w' : World}, Refused cfg p w₀ res w' →
      andThen answer (Obeys cfg (cfg.activeOn w₀)) Anywhere f
        (fun res _ w' => Refused cfg p w₀ res w') res m w' := by
    rintro α β f _ m w' ⟨⟨e, rfl⟩, h⟩
    exact ⟨⟨e, rfl⟩, h⟩
  refine verdict_conclude_seq.mpr ?_
  rw [hv]
  refine verdict_seq.mpr (verdict_file.mpr fun c hc => ?_)
  have hs₁ := hs.call (f := .isDirectory (cfg.installer.releaseDirectory r)) id hc
  rw [works_file_iff hs hp, Needed]
  cases (answer c (.file (.isDirectory (cfg.installer.releaseDirectory r))) w).1 with
  | false => exact ⟨fun hK => (by cases hK), fun _ => ⟨⟨_, rfl⟩, hs₁⟩⟩
  | true =>
      refine ⟨fun _ => ?_, fun hK => absurd rfl hK⟩
      refine verdict_require_seq.mpr (verdict_seq_of (state_verdict hs₁ hp hexe) ?_ ?_
        fun _ _ _ => refused)
      · rintro current _ w₂ ⟨_, hs₂⟩
        refine verdict_seq.mpr (verdict_ask.mpr fun c₂ hc₂ => ⟨fun _ => ?_, fun hK =>
          absurd ⟨trivial, fun _ _ => trivial⟩ hK⟩)
        have hs₃ : Stopped cfg p w₀ (answer c₂ .utcNow w₂).2 :=
          hs₂.keeps (keeps_call ⟨id, fun _ _ h => (by cases h), id⟩ hc₂.1)
        refine verdict_seq_of (writeState_verdict hs₃ hp rfl) ?_ ?_ fun _ _ _ => refused
        · rintro _ _ w₄ ⟨_, hmoved⟩
          exact refreshCurrentLink_verdict hmoved
        · rintro e _ w₄ ⟨h, _⟩
          cases h
      · rintro e _ w₂ ⟨⟨s, h⟩, _⟩
        cases h

end Moving

/-! ## Switched, and not yet started -/

theorem admitted_of_validate (hv : Install.validateReleaseId r = .ok ()) (o : Op) :
    Admitted r o := by
  cases o with
  | stop h n => exact hv
  | _ => trivial

theorem Switched.active (h : Switched cfg p w₀ r w) : cfg.activeOn w = r := by
  obtain ⟨s, hr, hget⟩ := h.state
  rw [Config.activeOn, onDisk_of_file hget, hr]

/-- Recording the instance neither stops nor starts anything, and nothing in
it is needed. -/
theorem recordStarted_quiet {h : ProcessHandle} :
    Uses (fun o => Quiet cfg o ∧ ∀ w c, Needed cfg r w o c) (recordStarted cfg r h).run := by
  have hnew : cfg.recordTemporary ≠ cfg.recordPath := recordPath_ne_temporary.symm
  have hother : cfg.recordTemporary ≠ cfg.installer.stateTemporary := fun h => by
    simpa using List.append_cancel_left h
  have hrest : ∀ q, Noting cfg q → q ≠ cfg.installer.statePath := fun q hq he =>
    noting_spares_state (he ▸ hq)
  refine Uses.seq (fun _ => trivial) fun _ => Uses.seq (Uses.orFail (Uses.ask ?_)) fun _ =>
    Uses.rewording (Uses.seq (Uses.orFail (Uses.ask ?_)) fun _ => Uses.seq (Uses.ask ?_) ?_)
  · exact ⟨⟨id, fun _ _ h => (by cases h), id⟩, fun _ _ => trivial⟩
  · refine ⟨quiet_file fun hq => hrest _ (Or.inr List.prefix_rfl) hq.symm, fun _ _ h => ?_⟩
    exact absurd h hother
  · refine ⟨quiet_file fun hq => ?_, fun _ _ h => absurd h hother⟩
    exact noting_spares_state (Or.symm hq)
  · intro published
    cases published with
    | ok _ => trivial
    | error why =>
        refine Uses.seq (Uses.ask ⟨quiet_file fun hq => ?_, fun _ _ h => ?_⟩) fun _ => trivial
        · exact hrest _ (Or.inr List.prefix_rfl) hq.symm
        · exact absurd h hnew

/-- The instance of `r` was started, and `r` is the active release. -/
theorem recordStarted_verdict {h : ProcessHandle} (hact : cfg.activeOn w = r)
    (hv : Install.validateReleaseId r = .ok ()) (hlive : ⟨h, cfg.startOptions r⟩ ∈ w.live)
    {N : Except EngineError Unit → Engine → World → Prop} :
    verdict answer (Obeys cfg r) (Works cfg r p w₀) (fun _ _ w' => cfg.Serves w') N
      (recordStarted cfg r h).run m w := by
  refine verdict_of_wp (wp_conseq (wp_of_uses (R := fun w' => Keeps cfg r w w')
    (fun _ _ _ ho hc h => h.trans (keeps_call ho.1 hc.1))
    (fun _ _ _ ho _ c _ => ⟨admitted_of_validate hv _, fun _ _ => ho.2 _ c⟩) recordStarted_quiet .refl)
    ?_)
  intro _ _ w' hk
  refine ⟨_, (hk.live rfl).mpr hlive, ?_⟩
  rw [Config.activeOn, onDisk_of_get hk.state]
  exact congrArg cfg.startOptions hact.symm

/-- Whether the file can be executed does not matter to what lives. -/
theorem makeExecutable_verdict (hs : Stopped cfg p w₀ w)
    (hp : p.options = cfg.startOptions (cfg.activeOn w₀)) :
    verdict answer (Obeys cfg (cfg.activeOn w₀)) (Works cfg r p w₀)
      (fun res _ w' => res = .ok () ∧ Stopped cfg p w₀ w')
      (fun res _ w' => Failed cfg p w₀ res w') (makeExecutable cfg (cfg.executable r)).run m w := by
  refine verdict_seq.mpr (verdict_file.mpr fun c hc => ⟨fun _ => ?_, fun hK =>
    absurd ⟨trivial, fun _ _ => trivial⟩ hK⟩)
  have hs₁ := hs.call (f := .ownerExec (cfg.executable r)) id hc
  dsimp only [andJudge, provided]
  split
  · revert hs₁
    generalize (answer c (.file (.ownerExec (cfg.executable r))) w).2 = w₁
    intro hs₁
    refine verdict_orFail.mpr (verdict_file.mpr fun c₂ hc₂ => ?_)
    have hs₂ := hs₁.call (f := .addExec (cfg.executable r)) id hc₂
    rw [works_file_iff hs₁ hp, Needed]
    cases hr : (answer c₂ (.file (.addExec (cfg.executable r))) w₁).1 with
    | ok _ => exact ⟨fun _ => ⟨rfl, hs₂⟩, fun hK => absurd rfl hK⟩
    | error e => exact ⟨fun hK => (by cases hK), fun _ => ⟨⟨_, rfl⟩, hs₂⟩⟩
  · exact ⟨rfl, hs₁⟩

/-- The active release was activated again, and the state file was written
within one second: it is as it was. -/
theorem relaunch_verdict (hs : Stopped cfg p w₀ w) (hact : cfg.activeOn w₀ = r)
    (hp : p.options = cfg.startOptions (cfg.activeOn w₀))
    (hv : Install.validateReleaseId r = .ok ())
    (hvalid : cfg.validateServiceExecutable = .ok ()) :
    verdict answer (Obeys cfg (cfg.activeOn w₀)) (Works cfg r p w₀)
      (fun res _ w' => (∃ e, res = .error e) → cfg.Serves w')
      (fun res _ w' => Failed cfg p w₀ res w') (launch cfg r).run m w := by
  refine verdict_conclude_seq.mpr ?_
  rw [hvalid]
  refine verdict_seq.mpr (verdict_file.mpr fun c hc => ?_)
  have hs₁ := hs.call (f := .exists_ (cfg.executable r)) id hc
  rw [works_file_iff hs hp, Needed]
  cases (answer c (.file (.exists_ (cfg.executable r))) w).1 with
  | false => exact ⟨fun hK => (by cases hK rfl), fun _ => ⟨⟨_, rfl⟩, hs₁⟩⟩
  | true =>
      refine ⟨fun _ => ?_, fun hK => absurd (fun _ => rfl) hK⟩
      refine verdict_require_seq.mpr (verdict_seq_of (makeExecutable_verdict hs₁ hp) ?_ ?_ ?_)
      · rintro _ m₂ w₂ ⟨_, hs₂⟩
        refine verdict_seq.mpr (verdict_orFail.mpr
          ((verdict_ask (E := device) (o := .start (cfg.startOptions r))).mpr fun c₃ hc₃ =>
            ⟨fun _ => ?_, fun hK => absurd ⟨trivial, fun _ _ => trivial⟩ hK⟩))
        have hr := start_commanded hc₃.2
        have hspawn := start_ok hr
        rw [hr]
        have hact' : cfg.activeOn (answer c₃ (.start (cfg.startOptions r)) w₂).2 = r := by
          rw [Config.activeOn, hspawn.fs]
          exact hs₂.active.trans hact
        rw [hact]
        exact verdict_conseq (recordStarted_verdict hact' hv hspawn.alive)
          (fun _ _ _ h _ => h) fun _ _ _ h => h
      · rintro e _ w₂ ⟨h, _⟩
        cases h
      · rintro _ _ w₂ ⟨⟨e, rfl⟩, h⟩
        exact ⟨⟨e, rfl⟩, h⟩

/-- The pointer was moved: nothing more is claimed of what lives. -/
theorem launch_moved (hv : Install.validateReleaseId r = .ok ())
    (hne : w.fs.get cfg.installer.statePath ≠ w₀.fs.get cfg.installer.statePath)
    {N : Except EngineError Unit → Engine → World → Prop} :
    verdict answer (Obeys cfg a) (Works cfg r p w₀)
      (fun _ _ w' => w'.fs.get cfg.installer.statePath ≠ w₀.fs.get cfg.installer.statePath) N
      (launch cfg r).run m w := by
  refine verdict_of_wp (wp_of_uses (R := fun w : World =>
    w.fs.get cfg.installer.statePath ≠ w₀.fs.get cfg.installer.statePath) ?_ ?_ launch_uses hne)
  · intro w o c ho _ h
    have hsame : (answer c o w).2.fs.get cfg.installer.statePath =
        w.fs.get cfg.installer.statePath := perform_files fun hq => noting_spares_state (ho _ hq)
    rw [hsame]
    exact h
  · exact fun _ w o _ h c _ => ⟨admitted_of_validate hv o, fun _ he => absurd he h⟩

theorem launch_verdict (h : Switched cfg p w₀ r w)
    (hp : p.options = cfg.startOptions (cfg.activeOn w₀))
    (hv : Install.validateReleaseId r = .ok ())
    (hvalid : cfg.validateServiceExecutable = .ok ()) :
    verdict answer (Obeys cfg (cfg.activeOn w₀)) (Works cfg r p w₀)
      (fun res _ w' => StaysUp cfg w₀ res w')
      (fun res _ w' => Failed cfg p w₀ res w') (launch cfg r).run m w := by
  by_cases hsame : w.fs.get cfg.installer.statePath = w₀.fs.get cfg.installer.statePath
  · have hs : Stopped cfg p w₀ w := ⟨hsame, h.live⟩
    refine verdict_conseq (relaunch_verdict hs (hs.active.symm.trans h.active) hp hv hvalid)
      (fun _ _ _ h he _ => h he) fun _ _ _ h => h
  · exact verdict_conseq (launch_moved hv hsame) (fun _ _ _ h _ he => absurd he h)
      fun _ _ _ h => h

/-! ## The operation -/

/-- The executable of a release lies in its directory. -/
theorem executable_inside (hvalid : cfg.validateServiceExecutable = .ok ()) :
    cfg.installer.releaseDirectory r <+: cfg.executable r := by
  unfold Config.validateServiceExecutable at hvalid
  split at hvalid
  · cases hvalid
  · unfold validateReleaseRelativePath at hvalid
    split at hvalid
    · cases hvalid
    · split at hvalid
      · cases hvalid
      · rename_i hpath
        simp only [Bool.or_eq_true, decide_eq_true_eq, not_or, Bool.not_eq_true] at hpath
        exact Path.under_join hpath.1 hpath.2

theorem statePath_ne_executable (hv : ValidId r)
    (hvalid : cfg.validateServiceExecutable = .ok ()) :
    cfg.installer.statePath ≠ cfg.executable r := by
  have hinside := executable_inside (r := r) hvalid
  intro he
  rw [← he, hv.releaseDirectory, InstallOptions.releasesRoot, List.append_assoc] at hinside
  have hname := Path.under_base_iff.mp hinside
  exact absurd (List.cons_prefix_cons.mp hname).1 (by decide)

theorem Serving.stopped (h : Serving cfg m w₀ p) (hk : Keeps cfg (cfg.activeOn w₀) w₀ w)
    {c : Choice} {t : Int} (hc : Obeys cfg (cfg.activeOn w₀) w (.stop p.handle t) c) :
    Stopped cfg p w₀ (answer c (.stop p.handle t) w).2 := by
  refine ⟨(perform_files id).trans hk.state, fun {q} hq => ?_⟩
  have hlive : q ∈ (answer c (.stop p.handle t) w).2.live ↔ q ∈ w.live ∧ q.handle ≠ p.handle := by
    have hf : c.chance.fault = none := hc.2
    rw [answer_live]
    simp only [perform, hf]
    show q ∈ (w.live.filter _).filter _ ↔ _
    simp only [List.mem_filter, Bool.not_eq_true', List.contains_eq_mem,
      decide_eq_false_iff_not, decide_eq_true_eq, and_congr_left_iff]
    exact fun _ => and_iff_left_of_imp fun hl => hc.1 q hl hq
  rw [hlive, hk.live hq]
  refine and_congr_right fun hmem => not_congr ⟨fun he => ?_, fun he => he ▸ rfl⟩
  exact World.eq_of_handle hmem h.alive he

/-- The instance is stopped, and its record goes. -/
theorem stop_verdict (h : Serving cfg m w₀ p) (hk : Keeps cfg (cfg.activeOn w₀) w₀ w) :
    verdict answer (Obeys cfg (cfg.activeOn w₀)) (Works cfg r p w₀)
      (fun res _ w' => Install.validateReleaseId r = .ok () ∧ res = .ok () ∧ Stopped cfg p w₀ w')
      (fun res _ w' => ((∃ e, res = .error e) ∨ Install.validateReleaseId r ≠ .ok ()) ∧
        Stopped cfg p w₀ w') (stop cfg).run m w := by
  have halive : p ∈ w.live := (hk.live h.runs).mpr h.alive
  refine verdict_load_seq.mpr ?_
  rw [h.held]
  refine verdict_seq.mpr (verdict_orFail.mpr
    ((verdict_ask (E := device) (o := .stop p.handle cfg.service.stopTimeout)).mpr
      fun c hc => ?_))
  have hs := h.stopped hk hc
  have hok : (answer c (.stop p.handle cfg.service.stopTimeout) w).1 = .ok () := by
    have hf : c.chance.fault = none := hc.2
    simp only [answer_fst, perform, hf]
  rw [hok]
  constructor
  · rintro ⟨hv, -⟩
    exact verdict_conseq (clearRecord_verdict hs h.runs) (fun _ _ _ h => ⟨hv, h⟩)
      fun _ _ _ h => ⟨Or.inl h.1, h.2⟩
  · intro hK
    have hv : Install.validateReleaseId r ≠ .ok () := fun hv =>
      hK ⟨hv, fun hp => absurd halive hp⟩
    have hquiet : Uses (Quiet cfg) (clearRecord cfg).run :=
      Uses.orFail (Uses.ask (quiet_file statePath_ne_record))
    exact wp_setHandle_seq.mpr (wp_conseq (wp_keeps (fun _ _ _ hc => hc.1) hquiet) fun _ _ _ hk' =>
      ⟨Or.inr hv, hs.keeps hk'⟩)

theorem rollbackTo_verdict (h : Serving cfg m w₀ p) :
    verdict answer (Obeys cfg (cfg.activeOn w₀)) (Works cfg r p w₀)
      (fun res _ w' => StaysUp cfg w₀ res w')
      (fun res _ w' => Failed cfg p w₀ res w') (rollbackTo cfg r).run m w₀ := by
  have hup : ∀ {res w}, Keeps cfg (cfg.activeOn w₀) w₀ w → StaysUp cfg w₀ res w := by
    intro res w hk _ hstate
    refine ⟨p, (hk.live h.runs).mpr h.alive, ?_⟩
    rw [h.runs, Config.activeOn, Config.activeOn, onDisk_of_get hstate]
  refine verdict_require_seq.mpr ?_
  split
  case isFalse => exact hup .refl
  refine verdict_conclude_seq.mpr ?_
  cases hvalid : cfg.validateServiceExecutable with
  | error e => exact hup .refl
  | ok _ =>
      refine verdict_seq.mpr (verdict_file.mpr fun c hc => ⟨fun _ => ?_, fun hK =>
        absurd ⟨trivial, fun hp => absurd h.alive hp⟩ hK⟩)
      have hk := keeps_call (quiet_file (f := .isDirectory (cfg.installer.releaseDirectory r)) id)
        hc.1
      revert hk
      generalize (answer c (.file (.isDirectory (cfg.installer.releaseDirectory r))) w₀).2 = w₁
      intro hk
      refine verdict_require_seq.mpr ?_
      split
      case isFalse => exact hup hk
      refine verdict_seq.mpr (verdict_rewording.mpr (verdict_conseq (stop_verdict h hk) ?_ ?_))
      · rintro _ m₂ w₂ ⟨hv, rfl, hs⟩
        have hexe := statePath_ne_executable (validId_of_validate hv) hvalid
        refine verdict_seq.mpr (verdict_rewording.mpr (verdict_zoom_nothing.mpr
          (verdict_conseq (activate_verdict hs h.runs hv hexe) ?_ ?_)))
        · rintro _ _ w₃ ⟨rfl, hmoved⟩
          refine verdict_seq.mpr (verdict_rewording.mpr
            (verdict_conseq (launch_verdict hmoved h.runs hv hvalid) ?_ ?_))
          · rintro (e | _) m₄ w₄ hstays
            · exact fun _ => hstays ⟨e, rfl⟩
            · rintro ⟨e, he⟩
              cases he
          · rintro _ m₄ w₄ ⟨⟨e, rfl⟩, hdown⟩
            exact ⟨⟨_, rfl⟩, hdown⟩
        · rintro _ _ w₃ ⟨⟨e, rfl⟩, hdown⟩
          exact ⟨⟨_, rfl⟩, hdown⟩
      · rintro (e | _) m₂ w₂ ⟨hfail, hs⟩
        · exact ⟨⟨_, rfl⟩, hs⟩
        · have hv := hfail.resolve_left (by rintro ⟨e, he⟩; cases he)
          refine wp_seq.mpr (wp_installing.mpr (wp_seq.mpr (wp_conclude.mpr ?_)))
          cases hr : Install.validateReleaseId r with
          | ok _ => exact absurd hr hv
          | error e => exact ⟨⟨_, rfl⟩, hs⟩

/-- A run of `rollbackTo` that ends leaves the service up, as far as it is
asked to, exactly if another instance was there or if nothing that is needed
went wrong after the stop. -/
theorem rollback_up_iff {cs : List Choice} {res : Except EngineError Unit} {m' : Engine}
    (h : Serving cfg m w p)
    (hcs : (rollbackTo cfg r).run.Admits answer (Obeys cfg (cfg.activeOn w)) cs m w)
    (hr : (rollbackTo cfg r).run.run answer cs m w = (.done res m', w')) :
    StaysUp cfg w res w' ↔
      Another cfg p w ∨ (rollbackTo cfg r).run.Admits answer (Works cfg r p w) cs m w := by
  rcases verdict_run (rollbackTo_verdict h) hcs hr with ⟨hK, hup⟩ | ⟨hK, hdown⟩
  · exact iff_of_true hup (Or.inr hK)
  · rw [hdown.staysUp_iff]
    exact (or_iff_left hK).symm

namespace Sample

/-- The instance of `r1`. -/
def first : Process := ⟨handle, Sample.cfg.startOptions "r1"⟩

/-- `r1` is active and `r2` installed, and an interrupted install has left
its copy of `r3`. -/
def leftover : FileTree Content :=
  .ofFiles
    [(["srv", "releases", "r1", "app"], .text "one"),
      (["srv", "releases", "r2", "app"], .text "two"),
      (["srv", "releases", ".staging-r3", "app"], .text "three"),
      (["srv", "runtime.json"], .json (RuntimeRecord.toJson ⟨"r1", 7, 9, "boot"⟩)),
      (["srv", "state.json"], .json (ActivationState.toJson ⟨"r1", "", "then"⟩))]

def running : World := (World.idle leftover "boot").spawn first (by decide)

def engine : Engine := { handle := some handle }

/-- The tenth call of a rollback publishes the state. -/
def unpublished : List Choice := choices 11 [(9, failing "No space left on device")]

end Sample

theorem serving_running : Serving Sample.cfg Sample.engine Sample.running Sample.first :=
  ⟨by decide, rfl, by decide +kernel⟩

/-- A rollback to `r2` that cannot write the state file. -/
theorem rollback_up_iff_unpublished :
    ∃ res m' w', (rollbackTo Sample.cfg "r2").run.run answer Sample.unpublished Sample.engine
        Sample.running = (.done res m', w') ∧
      (StaysUp Sample.cfg Sample.running res w' ↔ Another Sample.cfg Sample.first Sample.running ∨
        (rollbackTo Sample.cfg "r2").run.Admits answer
          (Works Sample.cfg "r2" Sample.first Sample.running) Sample.unpublished Sample.engine
          Sample.running) :=
  ⟨_, _, _, rfl, rollback_up_iff serving_running (by decide +kernel) rfl⟩

/-- Nothing fails, and the service is down: the agent passes the name of the
leftover directory on, the engine finds the directory and stops the instance
of `r1`, and the installer does not take the name. -/
theorem refused_name_stops :
    Artifact.validateReleaseId ".staging-r3" = .ok () ∧
    Serving Sample.cfg Sample.engine Sample.running Sample.first ∧
    (rollbackTo Sample.cfg ".staging-r3").run.Admits answer
      (Obeys Sample.cfg (Sample.cfg.activeOn Sample.running)) (Sample.choices 3 []) Sample.engine
      Sample.running ∧
    ∃ e m' w', (rollbackTo Sample.cfg ".staging-r3").run.run answer (Sample.choices 3 [])
        Sample.engine Sample.running = (.done (.error e) m', w') ∧
      w'.live = [] ∧ ¬ StaysUp Sample.cfg Sample.running (.error e) w' := by
  refine ⟨by decide, serving_running, by decide +kernel, _, _, _, rfl, by decide +kernel, ?_⟩
  intro hup
  obtain ⟨q, hq, _⟩ := hup ⟨_, rfl⟩ rfl
  cases hq

end Yirang.Deploy
