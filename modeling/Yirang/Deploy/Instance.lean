/-
# `Yirang.Deploy.Instance` — the one running instance

What every operation of the engine keeps, in one pass over the engine's
text.  Two parameters make it serve the different readings below it.

    everyone    every living process counts as the engine's own; otherwise
                only those whose start is in the trace
    noted       the record is kept: it names the instance

    Idle        no process of the engine's own lives
    Lone        at most one does
    Sound p     the engine is configured, `p` runs the active release, and
                (if `noted`) the record on the disk is exactly its own
    Accounted   the own process is alone and sound: what a kill leaves behind
    Managed     … and is the one the engine holds: what a call leaves behind

`Kept` is what the device has to grant for the record to be kept: that the
instance just started can be recorded, and that a living recorded instance
can be adopted.  With `noted` false nothing at all is asked.
-/
import Yirang.Deploy.Record

namespace Yirang.Deploy

open Fs Effect Device Install Health

/-! ## The invariant -/

/-- The active release, as the state file has it. -/
def Config.activeOn (cfg : Config) (w : World) : String :=
  (onDisk cfg.installer w.fs).active

def Own (everyone : Prop) (w : World) (p : Process) : Prop :=
  everyone ∨ .started p ∈ w.trace

def Idle (everyone : Prop) (w : World) : Prop := ∀ p ∈ w.live, ¬ Own everyone w p

def Lone (everyone : Prop) (w : World) : Prop :=
  ∀ p ∈ w.live, ∀ q ∈ w.live, Own everyone w p → Own everyone w q → p = q

structure Sound (cfg : Config) (noted : Prop) (w : World) (p : Process) : Prop where
  configured : cfg.configured = true
  valid : cfg.validateServiceExecutable = .ok ()
  options : p.options = cfg.startOptions (cfg.activeOn w)
  active : cfg.activeOn w ≠ ""
  recorded : noted → cfg.recordOn w.fs =
    ⟨cfg.activeOn w, p.handle.id, p.handle.startToken, w.boot⟩

structure Accounted (cfg : Config) (everyone noted : Prop) (w : World) : Prop where
  lone : Lone everyone w
  sound : ∀ p ∈ w.live, Own everyone w p → Sound cfg noted w p

def Held (everyone : Prop) (m : Engine) (w : World) : Prop :=
  ∀ p ∈ w.live, Own everyone w p → m.handle = some p.handle

structure Managed (cfg : Config) (everyone noted : Prop) (m : Engine) (w : World) : Prop where
  accounted : Accounted cfg everyone noted w
  held : Held everyone m w

/-- The instance was started and its record is not yet in place. -/
def Pending (cfg : Config) (w : World) : Op → Prop
  | .file (.write p _) => p = cfg.recordTemporary
  | .file (.rename _ b) => b = cfg.recordPath
  | _ => w.JustStarted

/-- What holds in front of every call the engine makes. -/
structure Fit (cfg : Config) (everyone noted : Prop) (w : World) (o : Op) : Prop where
  alone : o.IsStart → Idle everyone w
  lone : Lone everyone w
  accounted : Pending cfg w o ∨ Accounted cfg everyone noted w

/-- What keeping the record takes of the device. -/
def Kept (cfg : Config) (everyone : Prop) (w : World) : Op → Choice → Prop
  | .file (.read p), c => p = cfg.recordPath → c.chance.cut = none
  | .file (.write p x), c =>
      p = cfg.recordTemporary → (answer c (.file (.write p x)) w).1 = .ok ()
  | .file (.rename a b), c =>
      b = cfg.recordPath → (answer c (.file (.rename a b)) w).1 = .ok ()
  | .bootIdentity, c => w.JustStarted → c.chance.fault = none
  | .adopt h, c =>
      (∃ p ∈ (w.bury c.dead).live, Own everyone w p ∧ p.handle = h) → c.chance.fault = none
  | _, _ => True

instance {everyone : Prop} [Decidable everyone] (w : World) (p : Process) :
    Decidable (Own everyone w p) :=
  inferInstanceAs (Decidable (_ ∨ _))

instance {cfg : Config} {everyone : Prop} [Decidable everyone] (w : World) (o : Op)
    (c : Choice) : Decidable (Kept cfg everyone w o c) := by
  unfold Kept
  split <;> infer_instance

section Transport

variable {cfg : Config} {everyone noted : Prop} {X : Path → Prop} {w w' : World} {m : Engine}
  {p : Process}

theorem own_within (hw : Within X w w') : Own everyone w' p ↔ Own everyone w p :=
  or_congr_right hw.started

theorem Idle.within (h : Idle everyone w) (hw : Within X w w') : Idle everyone w' :=
  fun p hp ho => h p (hw.live hp) ((own_within hw).mp ho)

theorem Held.within (h : Held everyone m w) (hw : Within X w w') : Held everyone m w' :=
  fun p hp ho => h p (hw.live hp) ((own_within hw).mp ho)

theorem Lone.within (h : Lone everyone w) (hw : Within X w w') : Lone everyone w' :=
  fun p hp q hq ho ho' =>
    h p (hw.live hp) q (hw.live hq) ((own_within hw).mp ho) ((own_within hw).mp ho')

theorem activeOn_within (hw : Within X w w') (hX : ¬ X cfg.installer.statePath) :
    cfg.activeOn w' = cfg.activeOn w := by
  rw [Config.activeOn, onDisk_of_get (hw.files hX)]
  rfl

theorem Accounted.within (h : Accounted cfg everyone noted w) (hw : Within X w w')
    (hs : ¬ X cfg.installer.statePath) (hr : noted → ¬ X cfg.recordPath) :
    Accounted cfg everyone noted w' := by
  refine ⟨h.lone.within hw, fun p hp ho => ?_⟩
  have hsound := h.sound p (hw.live hp) ((own_within hw).mp ho)
  have hact := activeOn_within hw hs
  refine ⟨hsound.configured, hsound.valid, hact ▸ hsound.options, hact ▸ hsound.active,
    fun hn => ?_⟩
  have hrecord : cfg.recordOn w'.fs = cfg.recordOn w.fs := Config.recordOn_of_get (hw.files (hr hn))
  rw [hrecord, hsound.recorded hn, hact, hw.boot]

theorem Idle.accounted (h : Idle everyone w) : Accounted cfg everyone noted w :=
  ⟨fun p hp _ _ ho _ => absurd ho (h p hp), fun p hp ho => absurd ho (h p hp)⟩

theorem Idle.managed (h : Idle everyone w) : Managed cfg everyone noted m w :=
  ⟨h.accounted, fun p hp ho => absurd ho (h p hp)⟩

theorem Managed.within (h : Managed cfg everyone noted m w) (hw : Within X w w')
    (hs : ¬ X cfg.installer.statePath) (hr : noted → ¬ X cfg.recordPath) :
    Managed cfg everyone noted m w' :=
  ⟨h.accounted.within hw hs hr, h.held.within hw⟩

theorem Managed.of_handle {m' : Engine} (h : Managed cfg everyone noted m w)
    (hm : m'.handle = m.handle) : Managed cfg everyone noted m' w :=
  ⟨h.accounted, fun p hp ho => hm ▸ h.held p hp ho⟩

/-! ### Boundaries -/

/-- Without an own process every place is fit. -/
theorem safe_of_idle {M : Type} (h : Idle everyone w) :
    Safe (fun (_ : M) w o => Fit cfg everyone noted w o) X w :=
  fun _ _ _ _ hw =>
    have haccounted : Accounted cfg everyone noted _ := (h.within hw).accounted
    ⟨fun _ => h.within hw, haccounted.lone, Or.inr haccounted⟩

theorem safe_of_accounted {M : Type} (h : Accounted cfg everyone noted w)
    (hs : ¬ X cfg.installer.statePath) (hr : noted → ¬ X cfg.recordPath) :
    Safe (fun (_ : M) w o => Fit cfg everyone noted w o) X w :=
  fun _ _ _ ho hw =>
    ⟨fun hstart => absurd hstart ho.2, h.lone.within hw, Or.inr (h.within hw hs hr)⟩

end Transport

theorem untouched_spares {q : Path} : ¬ Untouched q := id

theorem noting_spares_state {cfg : Config} : ¬ Noting cfg cfg.installer.statePath :=
  not_noting (by decide) (by decide)

theorem installs_spares_state {o : InstallOptions} {r : String} :
    ¬ Installs o r o.statePath :=
  not_installs_beside (by decide)

theorem installs_spares_record {cfg : Config} {r : String} :
    ¬ Installs cfg.installer r cfg.recordPath :=
  not_installs_beside (by decide)

theorem pruned_spares_state {o : InstallOptions} {s : ActivationState} :
    ¬ Pruned o s o.statePath :=
  not_pruned_beside (by decide)

theorem pruned_spares_record {cfg : Config} {s : ActivationState} :
    ¬ Pruned cfg.installer s cfg.recordPath :=
  not_pruned_beside (by decide)

/-! ## The pass -/

section Pass

variable {cfg : Config} {everyone noted : Prop} {A : World → Op → Choice → Prop}
  {m : Engine} {w : World} {r : String}

theorem touches_proc {o : Op} (hw : ∀ q, ¬ o.writes q) (hs : ¬ o.IsStart) :
    Touches Untouched o :=
  ⟨fun q hq => hw q hq, hs⟩

theorem untouched_noting {w w' : World} (h : Within Untouched w w') : Within (Noting cfg) w w' :=
  h.mono fun _ hq => hq.elim

theorem fit_of_managed {o : Op} (h : Accounted cfg everyone noted w) (ho : ¬ o.IsStart) :
    Fit cfg everyone noted w o :=
  ⟨fun hs => absurd hs ho, h.lone, Or.inr h⟩

/-- After a successful `stop` nothing of the engine's own lives; a `stop`
that failed left the instance as managed as it was. -/
theorem stop_managed (h : Managed cfg everyone noted m w) :
    wp answer A (fun _ w o => Fit cfg everyone noted w o) (stop cfg).run
      (fun res m' w' => Within (Noting cfg) w w' ∧
        ((res = .ok () ∧ Idle everyone w' ∧ m'.handle = none) ∨
          (∃ e, res = .error e) ∧ Managed cfg everyone noted m' w')) m w := by
  unfold stop
  refine wp_load_seq.mpr ?_
  cases hm : m.handle with
  | none =>
      refine ⟨.refl, Or.inl ⟨rfl, fun p hp ho => ?_, hm⟩⟩
      have hheld := h.held p hp ho
      rw [hm] at hheld
      cases hheld
  | some handle =>
      have htouch : Touches Untouched (.stop handle cfg.service.stopTimeout) :=
        touches_proc (fun _ hq => hq) id
      refine wp_seq.mpr (wp_orFail.mpr (wp_ask.mpr
        ⟨fit_of_managed h.accounted id, fun c _ => ?_⟩))
      have hw := answer_within (c := c) (w := w) htouch
      cases hr : (answer c (.stop handle cfg.service.stopTimeout) w).1 with
      | error e =>
          exact ⟨untouched_noting hw, Or.inr ⟨⟨_, rfl⟩,
            h.within hw untouched_spares fun _ => untouched_spares⟩⟩
      | ok _ =>
          have hidle : Idle everyone (answer c (.stop handle cfg.service.stopTimeout) w).2 := by
            intro p hp ho
            have hheld := h.held p (hw.live hp) ((own_within hw).mp ho)
            rw [hm] at hheld
            exact stop_ok hr hp (Option.some.inj hheld).symm
          refine wp_setHandle_seq.mpr (wp_conseq (clearRecord_spec (safe_of_idle hidle)) ?_)
          rintro (e | _) m' w' ⟨rfl, hw'⟩
          · exact ⟨(untouched_noting hw).trans hw', Or.inr ⟨⟨e, rfl⟩, (hidle.within hw').managed⟩⟩
          · exact ⟨(untouched_noting hw).trans hw', Or.inl ⟨rfl, hidle.within hw', rfl⟩⟩

theorem Managed.of_unnoted (h : Managed cfg everyone False m w) (hn : ¬ noted) :
    Managed cfg everyone noted m w :=
  ⟨⟨h.accounted.lone, fun p hp ho =>
    { h.accounted.sound p hp ho with recorded := fun h => absurd h hn }⟩, h.held⟩

/-- The record of the instance that the engine holds. -/
def Config.noteOf (cfg : Config) (w : World) (h : ProcessHandle) : RuntimeRecord :=
  ⟨cfg.activeOn w, h.id, h.startToken, w.boot⟩

/-- With the record in place the instance is managed for good. -/
theorem Managed.note {h : ProcessHandle} (hm : Managed cfg everyone False m w)
    (hh : m.handle = some h) (hrec : noted → cfg.recordOn w.fs = cfg.noteOf w h) :
    Managed cfg everyone noted m w := by
  refine ⟨⟨hm.accounted.lone, fun p hp ho => ?_⟩, hm.held⟩
  have hsound := hm.accounted.sound p hp ho
  have hp' : h = p.handle := Option.some.inj (hh.symm.trans (hm.held p hp ho))
  exact { hsound with recorded := fun hn => hp' ▸ hrec hn }

theorem noteOf_within {X : Path → Prop} {w' : World} {h : ProcessHandle} (hw : Within X w w')
    (hX : ¬ X cfg.installer.statePath) : cfg.noteOf w' h = cfg.noteOf w h := by
  simp only [Config.noteOf, activeOn_within hw hX, hw.boot]

section Kept

variable (hkept : noted → ∀ w o c, A w o c → Kept cfg everyone w o c)

include hkept

/-- The record of a just started instance is written, and if it could not be
the record is not what is being kept. -/
theorem writeRecord_managed {h : ProcessHandle} (hm : Managed cfg everyone False m w)
    (hh : m.handle = some h) :
    wp answer A (fun _ w o => Fit cfg everyone noted w o)
      (writeRecord cfg (cfg.noteOf w h)).run
      (fun res m' w' => Managed cfg everyone noted m' w' ∧ m' = m ∧ Within (Noting cfg) w w' ∧
        (res = .ok () → cfg.recordOn w'.fs = cfg.noteOf w' h)) m w := by
  have hwrite : Touches (Noting cfg)
      (.file (.write cfg.recordTemporary (.json (cfg.noteOf w h).toJson))) :=
    ⟨fun q hq => Or.inr (hq ▸ List.prefix_rfl), id⟩
  have hmove : Touches (Noting cfg) (.file (.rename cfg.recordTemporary cfg.recordPath)) :=
    ⟨fun q hq => hq.symm, id⟩
  have hremove : Touches (Noting cfg) (.file (.remove cfg.recordTemporary)) :=
    ⟨fun q hq => Or.inr (hq ▸ List.prefix_rfl), id⟩
  have keep : ∀ {w'}, Within (Noting cfg) w w' → Managed cfg everyone False m w' := fun hw =>
    hm.within hw noting_spares_state False.elim
  unfold writeRecord
  refine wp_seq.mpr (wp_orFail.mpr (wp_file.mpr ⟨⟨False.elim, hm.accounted.lone, Or.inl rfl⟩,
    fun c hc => ?_⟩))
  have hw₁ := answer_within (c := c) (w := w) hwrite
  cases hr : (answer c (.file (.write cfg.recordTemporary
      (.json (cfg.noteOf w h).toJson))) w).1 with
  | error e =>
      refine ⟨(keep hw₁).of_unnoted fun hn => ?_, rfl, hw₁, fun hres => by cases hres⟩
      have hok := hkept hn _ _ _ hc rfl
      rw [hr] at hok
      cases hok
  | ok _ =>
      have hput := FileTree.get_putAt (write_ok hr) cfg.recordTemporary
      rw [if_pos rfl] at hput
      revert hw₁ hput
      generalize (answer c (.file (.write cfg.recordTemporary
        (.json (cfg.noteOf w h).toJson))) w).2 = w₁
      intro hw₁ hput
      refine wp_seq.mpr (wp_file.mpr ⟨⟨False.elim, hm.accounted.lone.within hw₁, Or.inl rfl⟩,
        fun c₂ hc₂ => ?_⟩)
      have hw₂ := hw₁.trans (answer_within (c := c₂) (w := w₁) hmove)
      cases hr₂ : (answer c₂ (.file (.rename cfg.recordTemporary cfg.recordPath)) w₁).1 with
      | error e =>
          have hn : ¬ noted := fun hn => by
            have hok := hkept hn _ _ _ hc₂ rfl
            rw [hr₂] at hok
            cases hok
          have hm₂ := (keep hw₂).of_unnoted hn
          refine wp_seq.mpr (wp_file.mpr ⟨fit_of_managed hm₂.accounted id, fun c₃ hc₃ => ?_⟩)
          have hw₃ := hw₂.trans (answer_within (c := c₃) hremove)
          exact ⟨(keep hw₃).of_unnoted hn, rfl, hw₃, fun hres => by cases hres⟩
      | ok _ =>
          have hmoved := FileTree.get_moveAt (rename_ok hr₂) cfg.recordPath
          rw [if_pos List.prefix_rfl, FileTree.movedFrom, List.drop_length,
            List.append_nil] at hmoved
          have hrec : cfg.recordOn (answer c₂ (.file (.rename cfg.recordTemporary
              cfg.recordPath)) w₁).2.fs = cfg.noteOf w h :=
            recordOn_of_file (hmoved.trans hput)
          have hrec' := hrec.trans (noteOf_within hw₂ noting_spares_state).symm
          exact ⟨(keep hw₂).note hh fun _ => hrec', rfl, hw₂, fun _ => hrec'⟩

omit hkept in
theorem awaitTurns_managed {probe : Task (Except String Unit)} {n : Nat}
    {checker : HealthChecker} (hm : Managed cfg everyone noted m w)
    (hp : ∀ w, Managed cfg everyone noted m w →
      wp answer A (fun _ w o => Fit cfg everyone noted w o) probe.run
        (fun _ m' w' => m' = m ∧ Within Untouched w w') m w) :
    wp answer A (fun _ w o => Fit cfg everyone noted w o) (awaitTurns cfg probe n checker).run
      (fun _ m' w' => m' = m ∧ Within Untouched w w') m w := by
  induction n generalizing w checker with
  | zero => exact ⟨rfl, .refl⟩
  | succ n ih =>
      refine wp_seq_of (hp w hm) ?_ ?_
      · rintro result m₁ w₁ ⟨rfl, hw₁⟩
        show wp _ _ _ (ExceptT.run (ite _ _ _)) _ _ _
        split
        · exact ⟨rfl, hw₁⟩
        · split
          · exact ⟨rfl, hw₁⟩
          · refine wp_conseq (ih (hm.within hw₁ untouched_spares fun _ => untouched_spares)) ?_
            rintro res m₂ w₂ ⟨hm₂, hw₂⟩
            exact ⟨hm₂, hw₁.trans hw₂⟩
      · exact fun e m₁ w₁ h => h

omit hkept in
theorem awaitReady_managed (hm : Managed cfg everyone noted m w) :
    wp answer A (fun _ w o => Fit cfg everyone noted w o) (awaitReady cfg).run
      (fun _ m' w' => m' = m ∧ Within Untouched w w') m w := by
  have hcall : ∀ {o : Op} {w : World}, Managed cfg everyone noted m w →
      Touches Untouched o → Fit cfg everyone noted w o ∧
        ∀ c, A w o c → m = m ∧ Within Untouched w (answer c o w).2 :=
    fun h ho => ⟨fit_of_managed h.accounted ho.2, fun _ _ => ⟨rfl, answer_within ho⟩⟩
  have htouch : ∀ {o : Op}, (∀ q, ¬ o.writes q) → ¬ o.IsStart → Touches Untouched o :=
    touches_proc
  unfold awaitReady
  refine wp_load_seq.mpr ?_
  cases hprobe : makeProbe cfg m.handle with
  | none => exact ⟨rfl, .refl⟩
  | some probe =>
      have hturns := htouch (o := .turns cfg.service.startupTimeout cfg.health.interval)
        (fun _ hq => hq) id
      refine wp_seq.mpr (wp_ask.mpr ⟨(hcall hm hturns).1, fun c _ => ?_⟩)
      have hw₁ := answer_within (c := c) (w := w) hturns
      refine wp_conseq (awaitTurns_managed
        (hm.within hw₁ untouched_spares fun _ => untouched_spares) fun w₂ hm₂ => ?_) ?_
      · unfold makeProbe at hprobe
        split at hprobe
        · cases hprobe
        · cases hprobe
          exact wp_seq.mpr (wp_ask.mpr (hcall hm₂ (htouch (fun _ hq => hq) id)))
        · cases hprobe
          exact wp_ask.mpr (hcall hm₂ (htouch (fun _ hq => hq) id))
      · rintro res m₂ w₂ ⟨hm₂, hw₂⟩
        exact ⟨hm₂, hw₁.trans hw₂⟩

/-- What a successful launch of `r` leaves: the engine holds an instance
started from `r`, and the record is its own. -/
def Launched (cfg : Config) (r : String) (m : Engine) (w : World) : Prop :=
  ∃ h, m.handle = some h ∧ .started ⟨h, cfg.startOptions r⟩ ∈ w.trace ∧
    cfg.recordOn w.fs = cfg.noteOf w h

omit hkept in
theorem makeExecutable_managed {p : Path} (h : Idle everyone w) :
    wp answer A (fun _ w o => Fit cfg everyone noted w o) (makeExecutable cfg p).run
      (fun _ m' w' => m' = m ∧ Within Untouched w w') m w := by
  have hmode : Touches Untouched (.file (.ownerExec p)) := touches_none fun _ hq => hq
  have hadd : Touches Untouched (.file (.addExec p)) := touches_none fun _ hq => hq
  have hsafe : Safe (fun (_ : Engine) w o => Fit cfg everyone noted w o) Untouched w :=
    safe_of_idle h
  refine wp_seq.mpr (wp_file.mpr ⟨hsafe m w _ hmode .refl, fun c _ => ?_⟩)
  have hw := answer_within (c := c) (w := w) hmode
  refine wp_provided.mpr ?_
  split
  · refine wp_orFail.mpr (wp_file.mpr ⟨hsafe m _ _ hadd hw, fun c' _ => ?_⟩)
    exact ⟨rfl, hw.trans (answer_within hadd)⟩
  · exact ⟨rfl, hw⟩

omit hkept in
/-- The new process is the engine's only own one. -/
theorem managed_of_spawned {w' : World} {h : ProcessHandle}
    (hs : Spawned (cfg.startOptions r) h w w') (hconf : cfg.configured = true)
    (hvalid : cfg.validateServiceExecutable = .ok ())
    (hidle : Idle everyone w) (hact : cfg.activeOn w = r) (hne : r ≠ "") :
    Managed cfg everyone False { m with handle := some h } w' := by
  have hact' : cfg.activeOn w' = r := by rw [Config.activeOn, hs.fs]; exact hact
  have only : ∀ p ∈ w'.live, Own everyone w' p → p = ⟨h, cfg.startOptions r⟩ := by
    intro p hp ho
    rcases hs.born p hp with rfl | ⟨hp', hid⟩
    · rfl
    · refine absurd ?_ (hidle p hp')
      rcases ho with ho | ho
      · exact Or.inl ho
      · rw [hs.trace] at ho
        rcases List.mem_cons.mp ho with he | ho
        · cases he
          exact absurd rfl hid
        · exact Or.inr ho
  refine ⟨⟨fun p hp q hq ho ho' => (only p hp ho).trans (only q hq ho').symm,
    fun p hp ho => ?_⟩, fun p hp ho => ?_⟩
  · rw [only p hp ho]
    exact ⟨hconf, hvalid, by rw [hact'], by rw [hact']; exact hne, False.elim⟩
  · rw [only p hp ho]

/-- From the start on: the instance has to be recorded. -/
theorem launch_started {w' : World} {h : ProcessHandle}
    (hact : cfg.activeOn w = r) (hs : Spawned (cfg.startOptions r) h w w')
    (hm : Managed cfg everyone False { m with handle := some h } w') :
    wp answer A (fun _ w o => Fit cfg everyone noted w o) (recordStarted cfg r h).run
      (fun res m' w' => Managed cfg everyone noted m' w' ∧
        (res = .ok () → Launched cfg r m' w')) m w' := by
  have hboot : Touches Untouched .bootIdentity := touches_proc (fun _ hq => hq) id
  have hjust : w'.JustStarted := ⟨_, by rw [hs.trace]; rfl⟩
  refine wp_setHandle_seq.mpr (wp_seq.mpr (wp_orFail.mpr (wp_ask.mpr
    ⟨⟨False.elim, hm.accounted.lone, Or.inl hjust⟩, fun c hc => ?_⟩)))
  have hw := answer_within (c := c) (w := w') hboot
  have hm' := hm.within hw untouched_spares False.elim
  cases hr : (answer c .bootIdentity w').1 with
  | error e =>
      refine ⟨hm'.of_unnoted fun hn => ?_, fun hres => by cases hres⟩
      exact bootIdentity_error hr (hkept hn _ _ _ hc hjust)
  | ok identity =>
      have hact' : cfg.activeOn (answer c .bootIdentity w').2 = r := by
        rw [activeOn_within hw untouched_spares, Config.activeOn, hs.fs]
        exact hact
      have hnote : cfg.noteOf (answer c .bootIdentity w').2 h =
          { releaseId := r, processId := h.id, startToken := h.startToken,
            bootIdentity := identity } := by
        rw [Config.noteOf, hact', hw.boot, bootIdentity_ok hr]
      refine wp_rewording.mpr ?_
      rw [← hnote]
      refine wp_conseq (writeRecord_managed hkept hm' rfl) ?_
      rintro (e | _) m₂ w₂ ⟨hmm, rfl, hw₂, hrec⟩
      · exact ⟨hmm, fun hres => by cases hres⟩
      · refine ⟨hmm, fun _ => ⟨h, rfl, ?_, hrec rfl⟩⟩
        rw [hw₂.started, hw.started, hs.trace]
        exact List.mem_cons_self

theorem launch_managed (hconf : cfg.configured = true) (hidle : Idle everyone w)
    (hact : cfg.activeOn w = r) (hne : r ≠ "") :
    wp answer A (fun _ w o => Fit cfg everyone noted w o) (launch cfg r).run
      (fun res m' w' => Managed cfg everyone noted m' w' ∧
        (res = .ok () → Launched cfg r m' w')) m w := by
  have stays : ∀ {w'} {e : EngineError}, Within Untouched w w' →
      Managed cfg everyone noted m w' ∧
        ((.error e : Except EngineError Unit) = .ok () → Launched cfg r m w') :=
    fun hw => ⟨(hidle.within hw).managed, fun h => by cases h⟩
  have hstat : Touches Untouched (.file (.exists_ (cfg.executable r))) :=
    touches_none fun _ hq => hq
  unfold launch
  refine wp_seq.mpr (wp_conclude.mpr ?_)
  cases hvalid : cfg.validateServiceExecutable with
  | error e => exact stays .refl
  | ok _ =>
      refine wp_seq.mpr (wp_file.mpr ⟨safe_of_idle hidle m w _ hstat .refl, fun c _ => ?_⟩)
      have hw₁ := answer_within (c := c) (w := w) hstat
      refine wp_require_seq.mpr ?_
      split
      · refine wp_seq_of (makeExecutable_managed (hidle.within hw₁)) ?_ ?_
        · rintro _ m₂ w₂ ⟨rfl, hw₂⟩
          have hw := hw₁.trans hw₂
          have haccounted : Accounted cfg everyone noted w₂ := (hidle.within hw).accounted
          refine wp_seq.mpr (wp_orFail.mpr (wp_ask.mpr ⟨⟨fun _ => hidle.within hw,
            haccounted.lone, Or.inr haccounted⟩, fun c₃ _ => ?_⟩))
          cases hr : (answer c₃ (.start (cfg.startOptions r)) w₂).1 with
          | error e => exact stays (hw.trans (start_error hr))
          | ok h =>
              have hs := start_ok hr
              exact launch_started hkept ((activeOn_within hw untouched_spares).trans hact) hs
                (managed_of_spawned hs hconf hvalid (hidle.within hw)
                  ((activeOn_within hw untouched_spares).trans hact) hne)
        · rintro e m₂ w₂ ⟨rfl, hw₂⟩
          exact stays (hw₁.trans hw₂)
      · exact stays hw₁

end Kept

/-! ### Resuming -/

/-- What starting over takes of the device, beside keeping the record: that
the state, the record and the identity of the boot can be read. -/
structure Restarts (cfg : Config) (A : World → Op → Choice → Prop) : Prop where
  faithful : Faithful cfg.installer A
  readable : Readable cfg A
  boot : ∀ w c, A w .bootIdentity c → c.chance.fault = none

/-- An own process shows in the record. -/
theorem idle_of_record (hn : noted) (h : Accounted cfg everyone noted w)
    (hrec : (cfg.recordOn w.fs).processId ≤ 0) : Idle everyone w := by
  intro p hp ho
  have hpos := w.positive p hp
  rw [(h.sound p hp ho).recorded hn] at hrec
  exact absurd hrec (not_le.mpr hpos)

theorem safe_of_clearing {M : Type} (h : Accounted cfg everyone noted w)
    (hidle : noted → Idle everyone w) :
    Safe (fun (_ : M) w o => Fit cfg everyone noted w o) (Noting cfg) w := by
  by_cases hn : noted
  · exact safe_of_idle (hidle hn)
  · exact safe_of_accounted h noting_spares_state fun h => absurd h hn

theorem Accounted.clear {w' : World} (h : Accounted cfg everyone noted w)
    (hidle : noted → Idle everyone w) (hw : Within (Noting cfg) w w') :
    Accounted cfg everyone noted w' := by
  by_cases hn : noted
  · exact ((hidle hn).within hw).accounted
  · exact h.within hw noting_spares_state fun h => absurd h hn

/-- The engine holds what lives, or it can find it by the record. -/
structure Resumable (cfg : Config) (everyone noted : Prop) (A : World → Op → Choice → Prop)
    (m : Engine) (w : World) : Prop where
  accounted : Accounted cfg everyone noted w
  held : Held everyone m w ∨ noted ∧ Restarts cfg A

theorem Managed.resumable (h : Managed cfg everyone noted m w) :
    Resumable cfg everyone noted A m w :=
  ⟨h.accounted, Or.inl h.held⟩

theorem Resumable.within {X : Path → Prop} {w' : World} {m' : Engine}
    (h : Resumable cfg everyone noted A m w) (hw : Within X w w') (hm : m'.handle = m.handle)
    (hs : ¬ X cfg.installer.statePath) (hr : noted → ¬ X cfg.recordPath) :
    Resumable cfg everyone noted A m' w' :=
  ⟨h.accounted.within hw hs hr,
    h.held.imp_left fun hh p hp ho => hm ▸ hh.within hw p hp ho⟩

/-- Where the record cannot be followed any further, the engine holds all
there is. -/
theorem Resumable.managed {w' : World} {m' : Engine} (h : Resumable cfg everyone noted A m w)
    (hw : Within (Noting cfg) w w') (hm : m'.handle = m.handle)
    (hacc : Accounted cfg everyone noted w')
    (hidle : noted → Restarts cfg A → Idle everyone w) :
    Managed cfg everyone noted m' w' := by
  refine ⟨hacc, ?_⟩
  rcases h.held with hh | ⟨hn, hA⟩
  · exact fun p hp ho => hm ▸ hh.within hw p hp ho
  · exact fun p hp ho => absurd ho ((hidle hn hA).within hw p hp)

section Resume

variable (hor : everyone ∨ noted) (hkept : noted → ∀ w o c, A w o c → Kept cfg everyone w o c)

theorem keepOrStop_managed {recorded : RuntimeRecord} {taken : ProcessHandle}
    (hm : Managed cfg everyone noted { m with handle := some taken } w) :
    wp answer A (fun _ w o => Fit cfg everyone noted w o)
      (keepOrStop cfg r recorded taken).run
      (fun _ m' w' => Managed cfg everyone noted m' w' ∧ Within (Noting cfg) w w') m w := by
  refine wp_setHandle_seq.mpr ?_
  show wp _ _ _ (ExceptT.run (ite _ _ _)) _ _ _
  split
  · exact ⟨hm.of_handle rfl, .refl⟩
  · refine wp_seq.mpr (wp_rewording.mpr (wp_conseq (stop_managed hm) ?_))
    rintro res m' w' ⟨hw, ⟨rfl, hidle, _⟩ | ⟨⟨e, rfl⟩, hm'⟩⟩
    · exact ⟨hidle.managed, hw⟩
    · exact ⟨hm', hw⟩

include hor hkept

/-- The adoption that failed shows that nothing of the engine's own lives;
the one that succeeded, that it is the instance. -/
theorem adoptRecorded_managed (h : Resumable cfg everyone noted A m w) :
    wp answer A (fun _ w o => Fit cfg everyone noted w o)
      (adoptRecorded cfg r (cfg.recordOn w.fs)).run
      (fun _ m' w' => Managed cfg everyone noted m' w' ∧ Within (Noting cfg) w w') m w := by
  unfold adoptRecorded
  generalize hh : (⟨(cfg.recordOn w.fs).processId, (cfg.recordOn w.fs).startToken⟩ :
    ProcessHandle) = handle
  have htouch : Touches Untouched (.adopt handle) := touches_proc (fun _ hq => hq) id
  have named : noted → ∀ p ∈ w.live, Own everyone w p → p.handle = handle := by
    intro hn p hp ho
    rw [← hh, (h.accounted.sound p hp ho).recorded hn]
  refine wp_seq.mpr (wp_ask.mpr ⟨fit_of_managed h.accounted id, fun c hc => ?_⟩)
  have hw := answer_within (c := c) (w := w) htouch
  cases hr : (answer c (.adopt handle) w).1 with
  | error why =>
      have hgone : noted → Idle everyone (answer c (.adopt handle) w).2 := by
        intro hn p hp ho
        have hp' := named hn p (hw.live hp) ((own_within hw).mp ho)
        have hlive : p ∈ (w.bury c.dead).live := by
          rw [← adopt_live (h := handle)]
          exact hp
        have hf := hkept hn _ _ _ hc ⟨p, hlive, (own_within hw).mp ho, hp'⟩
        exact adopt_error hr hf p hp hp'
      have hacc := h.accounted.within hw untouched_spares fun _ => untouched_spares
      refine wp_setDetail_seq.mpr (wp_conseq (clearRecord_spec (safe_of_clearing hacc hgone)) ?_)
      rintro res m' w' ⟨rfl, hw'⟩
      have hw'' := (untouched_noting hw).trans hw'
      refine ⟨⟨hacc.clear hgone hw', ?_⟩, hw''⟩
      rcases h.held with hheld | ⟨hn, _⟩
      · exact hheld.within hw''
      · exact fun p hp ho => absurd ho ((hgone hn).within hw' p hp)
  | ok taken =>
      obtain ⟨rfl, q, hq, hqh⟩ := adopt_ok hr
      have hm : Managed cfg everyone noted { m with handle := some taken }
          (answer c (.adopt taken) w).2 := by
        refine ⟨h.accounted.within hw untouched_spares fun _ => untouched_spares,
          fun p hp ho => ?_⟩
        have ho' := (own_within hw).mp ho
        rcases h.held with hheld | ⟨hn, _⟩
        · rcases hor with hall | hn
          · -- whoever was adopted is an own process, so it is the one held
            have hpq := (hheld p (hw.live hp) ho').symm.trans (hheld q (hw.live hq) (Or.inl hall))
            rw [Option.some.inj hpq, hqh]
          · rw [named hn p (hw.live hp) ho']
        · rw [named hn p (hw.live hp) ho']
      refine wp_conseq (keepOrStop_managed hm) ?_
      exact fun res m' w' ⟨hm', hw'⟩ => ⟨hm', (untouched_noting hw).trans hw'⟩

/-- The record is followed within one boot only. -/
theorem followRecord_managed (h : Resumable cfg everyone noted A m w) :
    wp answer A (fun _ w o => Fit cfg everyone noted w o)
      (followRecord cfg r (cfg.recordOn w.fs)).run
      (fun _ m' w' => Managed cfg everyone noted m' w' ∧ Within (Noting cfg) w w') m w := by
  have htouch : Touches Untouched .bootIdentity := touches_proc (fun _ hq => hq) id
  refine wp_seq.mpr (wp_orFail.mpr (wp_ask.mpr ⟨fit_of_managed h.accounted id, fun c hc => ?_⟩))
  have hw := answer_within (c := c) (w := w) htouch
  have h₁ : Resumable cfg everyone noted A m (answer c .bootIdentity w).2 :=
    h.within hw rfl untouched_spares fun _ => untouched_spares
  have hrec : cfg.recordOn (answer c .bootIdentity w).2.fs = cfg.recordOn w.fs :=
    Config.recordOn_of_get (hw.files untouched_spares)
  cases hr : (answer c .bootIdentity w).1 with
  | error e =>
      refine ⟨h.managed (untouched_noting hw) rfl h₁.accounted fun _ hA => ?_,
        untouched_noting hw⟩
      exact absurd (hA.boot _ _ hc) (bootIdentity_error hr)
  | ok identity =>
      have hid := bootIdentity_ok hr
      revert hw h₁ hrec
      generalize (answer c .bootIdentity w).2 = w₁
      intro hw h₁ hrec
      show wp _ _ _ (ExceptT.run (ite _ _ _)) _ _ _
      split
      · rename_i hother
        have hgone : noted → Idle everyone w₁ := by
          intro hn p hp ho
          refine hother ?_
          rw [← hrec, (h₁.accounted.sound p hp ho).recorded hn, hw.boot]
          exact hid
        refine wp_setDetail_seq.mpr (wp_conseq
          (clearRecord_spec (safe_of_clearing h₁.accounted hgone)) ?_)
        rintro res m' w' ⟨rfl, hw'⟩
        exact ⟨h₁.managed hw' rfl (h₁.accounted.clear hgone hw') fun hn _ => hgone hn,
          (untouched_noting hw).trans hw'⟩
      · rw [← hrec]
        refine wp_conseq (adoptRecorded_managed hor hkept h₁) ?_
        exact fun res m' w' ⟨hm', hw'⟩ => ⟨hm', (untouched_noting hw).trans hw'⟩

theorem resume_managed (h : Resumable cfg everyone noted A m w) :
    wp answer A (fun _ w o => Fit cfg everyone noted w o) (resume cfg r).run
      (fun _ m' w' => Managed cfg everyone noted m' w' ∧ Within (Noting cfg) w w') m w := by
  have hempty : cfg.recordOn w.fs = {} ∨ ¬ WholeReads cfg A → noted → Idle everyone w := by
    rintro (he | hA) hn
    · exact idle_of_record hn h.accounted (by rw [he])
    · exact absurd (fun w c hc => hkept hn w (.file (.read _)) c hc rfl) hA
  unfold resume
  refine wp_seq_of (record_spec (A := A)
    (safe_of_accounted h.accounted untouched_spares fun _ => untouched_spares)
    fun he => safe_of_clearing h.accounted (hempty he)) ?_ ?_
  · rintro recorded m₁ w₁ ⟨hm₁, hread⟩
    cases hread with
    | cleared hw he hres =>
        rw [hres recorded rfl]
        exact ⟨h.managed hw hm₁ (h.accounted.clear (hempty he) hw) fun hn _ => hempty he hn, hw⟩
    | read hw hr =>
        have h₁ : Resumable cfg everyone noted A m₁ w₁ :=
          h.within hw hm₁ untouched_spares fun _ => untouched_spares
        have hrec₁ : cfg.recordOn w₁.fs = cfg.recordOn w.fs :=
          Config.recordOn_of_get (hw.files untouched_spares)
        show wp _ _ _ (ExceptT.run (ite _ _ _)) _ _ _
        split
        · rename_i hpid
          refine ⟨h.managed (untouched_noting hw) hm₁ h₁.accounted fun hn hA => ?_,
            untouched_noting hw⟩
          rcases hr with rfl | ⟨_, hbad⟩
          · exact idle_of_record hn h.accounted hpid
          · exact absurd hA.readable hbad
        · rename_i hpid
          have hrecorded : recorded = cfg.recordOn w₁.fs := by
            rcases hr with rfl | ⟨rfl, _⟩
            · exact hrec₁.symm
            · exact absurd (le_refl (0 : Int)) hpid
          subst hrecorded
          refine wp_conseq (followRecord_managed hor hkept h₁) ?_
          exact fun res m' w' ⟨hm', hw'⟩ => ⟨hm', (untouched_noting hw).trans hw'⟩
  · rintro e m₁ w₁ ⟨hm₁, hread⟩
    cases hread with
    | unread hw he =>
        refine ⟨h.managed (untouched_noting hw) hm₁
          (h.accounted.within hw untouched_spares fun _ => untouched_spares) fun hn hA => ?_,
          untouched_noting hw⟩
        exact hempty (he.imp_right fun hbad => absurd hA.readable hbad) hn
    | cleared hw he hres =>
        exact ⟨h.managed hw hm₁ (h.accounted.clear (hempty he) hw) fun hn _ => hempty he hn, hw⟩

/-! ### The operations -/

omit hor hkept in
theorem idle_of_inactive (h : Accounted cfg everyone noted w) (hact : cfg.activeOn w = "") :
    Idle everyone w :=
  fun p hp ho => (h.sound p hp ho).active hact

theorem startActive_managed (h : Resumable cfg everyone noted A m w) :
    wp answer A (fun _ w o => Fit cfg everyone noted w o) (startActive cfg).run
      (fun _ m' w' => Managed cfg everyone noted m' w') m w := by
  unfold startActive
  refine wp_require_seq.mpr ?_
  split
  · rename_i hconf
    refine wp_seq.mpr (wp_installing.mpr (wp_conseq (state_spec (A := A)
      (safe_of_accounted h.accounted untouched_spares fun _ => untouched_spares)) ?_))
    rintro (e | current) _ w₁ ⟨⟨hfs, hread, hfail⟩, hw₁⟩
    · refine h.managed (untouched_noting hw₁) rfl
        (h.accounted.within hw₁ untouched_spares fun _ => untouched_spares) fun hn hA => ?_
      refine idle_of_inactive h.accounted ?_
      rw [Config.activeOn, (hfail e rfl).2 hA.faithful]
    · have h₁ : Resumable cfg everyone noted A m w₁ :=
        h.within hw₁ rfl untouched_spares fun _ => untouched_spares
      refine wp_require_seq.mpr ?_
      split
      · rename_i hne
        have hact : cfg.activeOn w₁ = current.active := by
          rcases hread current rfl with hcur | ⟨hcur, _⟩
          · rw [Config.activeOn, hfs, hcur]
          · simp [hcur] at hne
        refine wp_seq_of (resume_managed hor hkept h₁) ?_ ?_
        · rintro _ m₂ w₂ ⟨hm₂, hw₂⟩
          refine wp_load_seq.mpr ?_
          cases hh : m₂.handle with
          | some handle => exact hm₂
          | none =>
              have hidle : Idle everyone w₂ := fun p hp ho => by
                have hheld := hm₂.held p hp ho
                rw [hh] at hheld
                cases hheld
              refine wp_conseq (launch_managed hkept hconf hidle
                ((activeOn_within hw₂ noting_spares_state).trans hact) (by simpa using hne)) ?_
              exact fun res m' w' h => h.1
        · exact fun e m₂ w₂ h => h.1
      · rename_i hempty
        refine h₁.managed .refl rfl h₁.accounted fun hn hA => idle_of_inactive h₁.accounted ?_
        rw [Config.activeOn, hfs, ← (hread current rfl).honest hA.faithful.honest]
        simpa using hempty
  · rename_i hconf
    exact h.managed .refl rfl h.accounted fun _ _ p hp ho =>
      hconf (h.accounted.sound p hp ho).configured

omit hor in
theorem recover_managed {reason : String} (hconf : cfg.configured = true)
    (h : Managed cfg everyone noted m w) :
    wp answer A (fun _ w o => Fit cfg everyone noted w o) (recover cfg reason).run
      (fun res m' w' => Managed cfg everyone noted m' w' ∧ ∃ e, res = .error e) m w := by
  refine wp_seq.mpr (wp_rewording.mpr (wp_conseq (stop_managed h) ?_))
  rintro res m₁ w₁ ⟨_, ⟨rfl, hidle, _⟩ | ⟨⟨e, rfl⟩, hm₁⟩⟩
  · refine wp_seq.mpr (wp_tryInstalling.mpr (wp_conseq (rollback_spec (A := A)
      (safe_of_idle hidle)) ?_))
    rintro res _ w₂ ⟨⟨target, rfl, hrolled⟩ | ⟨⟨e, rfl, _⟩, _⟩, hw₂⟩
    · refine wp_seq.mpr (wp_rewording.mpr (wp_conseq (launch_managed hkept hconf
        (hidle.within hw₂) hrolled.active hrolled.target_ne) ?_))
      rintro (e | _) m₃ w₃ ⟨hm₃, _⟩
      · exact ⟨hm₃, _, rfl⟩
      · exact ⟨hm₃.of_handle rfl, _, rfl⟩
    · exact ⟨(hidle.within hw₂).managed, _, rfl⟩
  · exact ⟨hm₁, _, rfl⟩

omit hkept hor in
theorem Launched.within {X : Path → Prop} {w' : World} {m' : Engine} (h : Launched cfg r m w)
    (hw : Within X w w') (hm : m'.handle = m.handle) (hs : ¬ X cfg.installer.statePath)
    (hr : ¬ X cfg.recordPath) : Launched cfg r m' w' := by
  obtain ⟨handle, hh, hstarted, hrec⟩ := h
  refine ⟨handle, hm.trans hh, hw.started.mpr hstarted, ?_⟩
  rw [Config.recordOn_of_get (hw.files hr), hrec, noteOf_within hw hs]

omit hor in
theorem settleIn_managed (hconf : cfg.configured = true) (hidle : Idle everyone w)
    (hact : cfg.activeOn w = r) (hne : r ≠ "") :
    wp answer A (fun _ w o => Fit cfg everyone noted w o) (settleIn cfg r).run
      (fun res m' w' => Managed cfg everyone noted m' w' ∧
        (res = .ok () → Launched cfg r m' w')) m w := by
  have recovered : ∀ {reason m w}, Managed cfg everyone noted m w →
      wp answer A (fun _ w o => Fit cfg everyone noted w o) (recover cfg reason).run
        (fun res m' w' => Managed cfg everyone noted m' w' ∧
          (res = .ok () → Launched cfg r m' w')) m w := by
    intro reason m w hm
    refine wp_conseq (recover_managed hkept hconf hm) ?_
    rintro res m' w' ⟨hm', e, rfl⟩
    exact ⟨hm', fun h => by cases h⟩
  refine wp_seq.mpr (wp_attempt.mpr (wp_conseq (launch_managed hkept hconf hidle hact hne) ?_))
  rintro (e | _) m₁ w₁ ⟨hm₁, hl₁⟩
  · exact recovered hm₁
  · refine wp_seq.mpr (wp_attempt.mpr (wp_conseq (awaitReady_managed hm₁) ?_))
    rintro (e | _) m₂ w₂ ⟨rfl, hw₂⟩
    · exact recovered (hm₁.within hw₂ untouched_spares fun _ => untouched_spares)
    · have hm₂ := hm₁.within hw₂ untouched_spares fun _ => untouched_spares
      refine wp_seq.mpr (wp_tryInstalling.mpr (wp_conseq (prune_spec (A := A) fun s _ =>
        safe_of_accounted hm₂.accounted pruned_spares_state fun _ => pruned_spares_record) ?_))
      rintro res _ w₃ ⟨s, _, hw₃⟩
      refine ⟨(hm₂.within hw₃ pruned_spares_state fun _ => pruned_spares_record).of_handle rfl,
        fun _ => ?_⟩
      exact ((hl₁ rfl).within hw₂ rfl untouched_spares untouched_spares).within hw₃ rfl
        pruned_spares_state pruned_spares_record

theorem apply_managed {source : Path} (h : Managed cfg everyone noted m w) :
    wp answer A (fun _ w o => Fit cfg everyone noted w o) (apply cfg r source).run
      (fun res m' w' => Managed cfg everyone noted m' w' ∧
        (res = .ok () → Launched cfg r m' w')) m w := by
  have failed : ∀ {e : EngineError} {m w}, Managed cfg everyone noted m w →
      Managed cfg everyone noted m w ∧
        ((.error e : Except EngineError Unit) = .ok () → Launched cfg r m w) :=
    fun hm => ⟨hm, fun h => by cases h⟩
  unfold apply
  refine wp_require_seq.mpr ?_
  split
  · rename_i hconf
    refine wp_seq.mpr (wp_conclude.mpr ?_)
    cases cfg.validateServiceExecutable with
    | error e => exact failed h
    | ok _ =>
        refine wp_seq.mpr (wp_installing.mpr (wp_conseq (wp_within (install_uses source)
          (safe_of_accounted h.accounted installs_spares_state
            fun _ => installs_spares_record)) ?_))
        rintro (e | _) _ w₁ hw₁
        · exact failed (h.within hw₁ installs_spares_state fun _ => installs_spares_record)
        have h₁ := h.within hw₁ installs_spares_state fun _ => installs_spares_record
        refine wp_seq.mpr (wp_installing.mpr (wp_conseq (state_spec (A := A)
          (safe_of_accounted h₁.accounted untouched_spares fun _ => untouched_spares)) ?_))
        rintro (e | before) _ w₂ ⟨_, hw₂⟩
        · exact failed (h₁.within hw₂ untouched_spares fun _ => untouched_spares)
        have h₂ := h₁.within hw₂ untouched_spares fun _ => untouched_spares
        refine wp_seq.mpr (wp_rewording.mpr (wp_conseq (stop_managed h₂) ?_))
        rintro res m₃ w₃ ⟨_, ⟨rfl, hidle, _⟩ | ⟨⟨e, rfl⟩, hm₃⟩⟩
        · refine wp_seq.mpr (wp_tryInstalling.mpr (wp_conseq (activate_spec (A := A)
            (safe_of_idle hidle)) ?_))
          rintro res _ w₄ ⟨⟨rfl, hvalid, hact⟩ | ⟨⟨e, rfl⟩, _⟩, hw₄⟩
          · refine settleIn_managed hkept hconf (hidle.within hw₄) hact.active ?_
            exact (Path.properName_iff.mp hvalid.proper).1
          · refine wp_seq.mpr (wp_attempt.mpr (wp_conseq (startActive_managed hor hkept
              (hidle.within hw₄).managed.resumable) ?_))
            exact fun restored m' w' hm' => failed hm'
        · exact failed hm₃
  · exact failed h

omit hor in
theorem rollbackTo_managed (h : Managed cfg everyone noted m w) :
    wp answer A (fun _ w o => Fit cfg everyone noted w o) (rollbackTo cfg r).run
      (fun _ m' w' => Managed cfg everyone noted m' w') m w := by
  unfold rollbackTo
  refine wp_require_seq.mpr ?_
  split
  · rename_i hconf
    refine wp_seq.mpr (wp_conclude.mpr ?_)
    cases cfg.validateServiceExecutable with
    | error e => exact h
    | ok _ =>
        have htouch : Touches Untouched
            (.file (.isDirectory (cfg.installer.releaseDirectory r))) := touches_none fun _ hq => hq
        refine wp_seq.mpr (wp_file.mpr ⟨fit_of_managed h.accounted id, fun c _ => ?_⟩)
        have h₁ := h.within (answer_within (c := c) htouch) untouched_spares
          fun _ => untouched_spares
        refine wp_require_seq.mpr ?_
        split
        · refine wp_seq.mpr (wp_rewording.mpr (wp_conseq (stop_managed h₁) ?_))
          rintro res m₂ w₂ ⟨_, ⟨rfl, hidle, _⟩ | ⟨⟨e, rfl⟩, hm₂⟩⟩
          · refine wp_seq.mpr (wp_installing.mpr (wp_conseq (activate_spec (A := A)
              (safe_of_idle hidle)) ?_))
            rintro res _ w₃ ⟨⟨rfl, hvalid, hact⟩ | ⟨⟨e, rfl⟩, _⟩, hw₃⟩
            · refine wp_seq.mpr (wp_rewording.mpr (wp_conseq (launch_managed hkept hconf
                (hidle.within hw₃) hact.active (Path.properName_iff.mp hvalid.proper).1) ?_))
              rintro (e | _) m₄ w₄ ⟨hm₄, _⟩
              · exact hm₄
              · exact hm₄.of_handle rfl
            · exact (hidle.within hw₃).managed
          · exact hm₂
        · exact h₁
  · exact h

omit hor in
theorem restart_managed (h : Managed cfg everyone noted m w) :
    wp answer A (fun _ w o => Fit cfg everyone noted w o) (restart cfg).run
      (fun _ m' w' => Managed cfg everyone noted m' w') m w := by
  unfold restart
  refine wp_require_seq.mpr ?_
  split
  · rename_i hconf
    refine wp_seq.mpr (wp_conclude.mpr ?_)
    cases cfg.validateServiceExecutable with
    | error e => exact h
    | ok _ =>
        refine wp_seq.mpr (wp_installing.mpr (wp_conseq (state_spec (A := A)
          (safe_of_accounted h.accounted untouched_spares fun _ => untouched_spares)) ?_))
        rintro (e | current) _ w₁ ⟨⟨hfs, hread, _⟩, hw₁⟩
        · exact h.within hw₁ untouched_spares fun _ => untouched_spares
        have h₁ := h.within hw₁ untouched_spares fun _ => untouched_spares
        refine wp_require_seq.mpr ?_
        split
        · rename_i hne
          have hact : cfg.activeOn w₁ = current.active := by
            rcases hread current rfl with hcur | ⟨hcur, _⟩
            · rw [Config.activeOn, hfs, hcur]
            · simp [hcur] at hne
          refine wp_seq.mpr (wp_rewording.mpr (wp_conseq (stop_managed h₁) ?_))
          rintro res m₂ w₂ ⟨hw₂, ⟨rfl, hidle, _⟩ | ⟨⟨e, rfl⟩, hm₂⟩⟩
          · refine wp_seq.mpr (wp_rewording.mpr (wp_conseq (launch_managed hkept hconf hidle
              ((activeOn_within hw₂ noting_spares_state).trans hact) (by simpa using hne)) ?_))
            rintro (e | _) m₃ w₃ ⟨hm₃, _⟩
            · exact hm₃
            · refine wp_seq.mpr (wp_rewording.mpr (wp_conseq (awaitReady_managed hm₃) ?_))
              rintro (e | _) m₄ w₄ ⟨rfl, hw₄⟩
              · exact hm₃.within hw₄ untouched_spares fun _ => untouched_spares
              · exact (hm₃.within hw₄ untouched_spares fun _ => untouched_spares).of_handle rfl
          · exact hm₂
        · exact h₁
  · exact h

/-- One call of the engine keeps the instance managed, and every boundary of
it is fit. -/
theorem serve_managed (c : Command) (h : Managed cfg everyone noted m w) :
    wp answer A (fun _ w o => Fit cfg everyone noted w o) (cfg.engine.serve c)
      (fun _ m' w' => Managed cfg everyone noted m' w') m w := by
  cases c with
  | apply releaseId source =>
      exact wp_conseq (apply_managed hor hkept h) fun _ _ _ h => h.1
  | rollbackTo releaseId => exact rollbackTo_managed hkept h
  | startActive => exact startActive_managed hor hkept h.resumable
  | restart => exact restart_managed hkept h
  | stop =>
      refine wp_conseq (stop_managed h) ?_
      rintro res m' w' ⟨_, ⟨rfl, hidle, _⟩ | ⟨_, hm'⟩⟩
      · exact hidle.managed
      · exact hm'

end Resume

end Pass

end Yirang.Deploy
