/-
# `Yirang.Agent.Ledger` — what was checked

`apply_version` copies what it finds in the directory of a release, and asks
only whether the directory is there.  So whether a file was checked before
it is installed rests on what is in these directories: `Ground` says that
every file there was checked by a download that ran to completion.

    Checked, ledger   the files of such downloads, and their digests
    Ground            every file of the downloads is in the ledger
    unchecked         what is noted of the call under way
    PlainRun          a handler that keeps `Ground` and fetches nothing

Here are the handlers that fetch nothing: all but `download_version`.
-/
import Yirang.Agent.Cleaning
import Yirang.Agent.Versions
import Yirang.Deploy.Confined

namespace Yirang.Agent

open Fs Effect Device Deploy Install

variable {a : AgentService} {hash : Content → String} {A : Host → Op → Turn → Prop}

/-! ## Calls that bring no file -/

/-- What is a file after the call was the same file before. -/
def BringsNone (o : Device.Op) : Prop :=
  ∀ (c : Choice) (w : World) (q : Path) (x : Content),
    (Device.answer c o w).2.fs.get q = some (.file x) → w.fs.get q = some (.file x)

theorem brings_of_reads {o : Device.Op} (ho : ∀ q, ¬ o.writes q) : BringsNone o := by
  intro c w q x h
  rw [answer_fs, perform_files (ho q)] at h
  exact h

section

variable {t : FileTree Content} {p q : Path} {x : Content}

/-- What is left of a directory that could not be removed. -/
theorem file_of_removePart {survivors : List Path}
    (h : (t.removePart p survivors).get q = some (.file x)) : t.get q = some (.file x) := by
  simp only [FileTree.removePart, FileTree.prune] at h
  split at h
  · exact h
  · cases h

/-- The directories, as far as they could be made. -/
theorem file_of_mkdirs (h : ((t.mkdirsAt p).getD t).get q = some (.file x)) :
    t.get q = some (.file x) := by
  cases hm : t.mkdirsAt p with
  | none =>
      rw [hm] at h
      exact h
  | some t' =>
      rw [hm] at h
      exact (FileTree.file_mkdirsAt hm).mp h

end

theorem brings_removeAll {p : Path} : BringsNone (.file (.removeAll p)) := by
  intro c w q x h
  change (FileOp.attempt c.chance w.fs (some (w.fs.removeAll p)) (w.fs.removePart p _)).2.get q
    = _ at h
  unfold FileOp.attempt at h
  split at h
  · exact file_of_removePart h
  · dsimp only at h
    rw [FileTree.get_removeAll] at h
    split at h
    · cases h
    · exact h

theorem brings_createDirectories {p : Path} : BringsNone (.file (.createDirectories p)) := by
  intro c w q x h
  change (FileOp.attempt c.chance w.fs (w.fs.mkdirsAt p) _).2.get q = _ at h
  unfold FileOp.attempt at h
  split at h
  · split at h
    · exact h
    · exact file_of_mkdirs h
  · split at h
    · rename_i t ht
      exact (FileTree.file_mkdirsAt ht).mp h
    · exact h

/-- A transfer brings one file, whether it ends well or not. -/
theorem download_brings {c : Choice} {k : String} {d q : Path} {w : World} {x : Content}
    (h : (Device.answer c (.download k d) w).2.fs.get q = some (.file x)) (hq : q ≠ d) :
    w.fs.get q = some (.file x) := by
  simp only [answer_fs, perform] at h
  split at h
  · split at h
    · exact h
    · rw [World.withFiles, FileOp.getD_frame (FileOp.putAt_frame hq)] at h
      exact file_of_mkdirs h
  · split at h
    · rename_i t ht
      exact file_of_mkdirs ((FileTree.file_putAt ht hq).mp h)
    · exact file_of_mkdirs h

/-! ## What was checked -/

/-- A file that a download asked for, and the digest it was to have. -/
structure Checked where
  releaseId : String
  installPath : String
  sha256 : String

/-- What an entry of a payload has checked. -/
def listed (r : String) (element : Json) : Option Checked :=
  match artifactRequest r element with
  | .ok (installPath, sha256, _) => some ⟨r, installPath, sha256⟩
  | .error _ => none

/-- What a payload of `download_version` has checked. -/
def AgentService.lists (a : AgentService) (payload : String) : List Checked :=
  match parseObject a.codec payload with
  | .error _ => []
  | .ok object =>
      match downloadRequest object with
      | .error _ => []
      | .ok (r, artifacts) => artifacts.filterMap (listed r)

/-- What the handler of a message has checked when it ends so: something only
if it is that of a download, and ran to completion. -/
def AgentService.gains {ε : Type} (a : AgentService) (message : AgentMessage) :
    Except ε Unit → List Checked
  | .ok _ => if message.command = Commands.kDownloadVersion then a.lists message.payload else []
  | .error _ => []

def AgentService.gained (a : AgentService) : Verdict → List Checked
  | .ran message outcome _ => a.gains message outcome
  | _ => []

/-- What is told of a message: the verdict on it, and what `handle`
returns. -/
structure Told where
  verdict : Verdict
  ret : Except String Unit

/-- A message that was handled, and what was told of it. -/
abbrev Handled := Event String Host (Except String (Option Told))

def AgentService.checks (a : AgentService) (e : Handled) : List Checked :=
  match e.ret with
  | .ok (some told) => a.gained told.verdict
  | _ => []

def AgentService.ledger (a : AgentService) (history : List Handled) : List Checked :=
  history.flatMap a.checks

/-- This content was checked as the one of this path in this release. -/
def Verified (a : AgentService) (hash : Content → String) (l : List Checked) (r : String)
    (q : Path) (x : Content) : Prop :=
  ∃ e ∈ l, e.releaseId = r ∧ Path.join (a.versionDirectory r) e.installPath = q ∧
    hash x = e.sha256

/-- Every file of the downloads was checked, and the state file of the
engine names releases. -/
structure Ground (a : AgentService) (hash : Content → String) (l : List Checked) (h : Host) :
    Prop where
  verified : ∀ r q x, Artifact.validateReleaseId r = .ok () → a.versionDirectory r <+: q →
    h.device.fs.get q = some (.file x) → Verified a hash l r q x
  named : ∀ cfg, a.engine = some cfg → Named cfg.installer h.device.fs

/-- Where the engine writes lies beside the downloads. -/
def AgentService.Beside (a : AgentService) : Prop :=
  ∀ cfg, a.engine = some cfg → ∀ p ∈ cfg.places, ¬ Near a.versionRoot p

theorem Verified.mono {l l' : List Checked} (hl : ∀ e ∈ l, e ∈ l') {r : String} {q : Path}
    {x : Content} (h : Verified a hash l r q x) : Verified a hash l' r q x := by
  obtain ⟨e, he, hrest⟩ := h
  exact ⟨e, hl e he, hrest⟩

theorem Ground.mono {l l' : List Checked} (hl : ∀ e ∈ l, e ∈ l') {h : Host}
    (hg : Ground a hash l h) : Ground a hash l' h :=
  ⟨fun r q x hr hq hx => (hg.verified r q x hr hq hx).mono hl, hg.named⟩

/-- No new file, and the same state file. -/
theorem Ground.after {l : List Checked} {h h' : Host} (hg : Ground a hash l h)
    (hfiles : ∀ q x, a.versionRoot <+: q → h'.device.fs.get q = some (.file x) →
      h.device.fs.get q = some (.file x))
    (hstate : ∀ cfg, a.engine = some cfg →
      h'.device.fs.get cfg.installer.statePath = h.device.fs.get cfg.installer.statePath) :
    Ground a hash l h' := by
  constructor
  · intro r q x hr hq hx
    have hroot : a.versionRoot <+: q := by
      rw [versionDirectory_eq hr] at hq
      exact (List.prefix_append _ _).trans hq
    exact hg.verified r q x hr hq (hfiles q x hroot hx)
  · intro cfg hcfg
    exact Named.of_get (w := h.device) (hg.named cfg hcfg) (hstate cfg hcfg)

theorem AgentService.Beside.not_serviced (hb : a.Beside) {cfg : Deploy.Config}
    (hcfg : a.engine = some cfg) {q : Path} (hq : a.versionRoot <+: q) : ¬ Serviced cfg q := by
  rintro ⟨p, hp, hqp | hpq⟩
  · exact hb cfg hcfg p hp (Or.inr (hq.trans hqp))
  · rcases Path.under_total hpq hq with h | h
    · exact hb cfg hcfg p hp (Or.inl h)
    · exact hb cfg hcfg p hp (Or.inr h)

/-- What lies near the downloads is not the state file. -/
theorem AgentService.Beside.state (hb : a.Beside) {cfg : Deploy.Config}
    (hcfg : a.engine = some cfg) : ¬ Near a.versionRoot cfg.installer.statePath :=
  hb cfg hcfg _ (by simp [Config.places])

/-! ## What is noted of a call -/

/-- Whether the call under way has fetched a file: no longer, once a
directory was taken back. -/
def unchecked (a : AgentService) : Note agent Host Bool
  | .device (.download _ d), _, _, h, n =>
      n || (decide (a.versionRoot <+: d) && h.device.fs.isFile d)
  | .device (.file (.removeAll _)), .ok _, _, _, _ => false
  | _, _, _, _, n => n

/-- What was fetched can be taken back. -/
def takesBack (fetched : Bool) (c : Turn) : Op → Bool
  | .device (.file (.removeAll _)) => !fetched || c.chance.fault.isNone
  | _ => true

/-- The digests are of the files, and what was fetched can be taken back. -/
def Allowed (hash : Content → String) (v : Host × Bool) (o : Op) (c : Turn) : Prop :=
  Hashing hash v.1 o c ∧ takesBack v.2 c o = true

instance {v : Host × Bool} {o : Op} {c : Turn} : Decidable (Allowed hash v o c) :=
  inferInstanceAs (Decidable (_ ∧ _))

/-- What is known in front of every call.  `copies` is what may be copied
into the releases. -/
structure Border (a : AgentService) (hash : Content → String) (l : List Checked)
    (copies : Path → Path → Prop) (v : Host × Bool) (o : Op) : Prop where
  ground : v.2 = false → Ground a hash l v.1
  copy : ∀ cfg s d, a.engine = some cfg → o = .device (.file (.copyFile s d)) →
    cfg.installer.releasesRoot <+: d → v.2 = false ∧ copies s d

/-! ## Handlers that fetch nothing -/

/-- The same for a call of a handler that fetches nothing. -/
structure Plain (a : AgentService) (hash : Content → String) (l : List Checked)
    (copies : Path → Path → Prop) (h : Host) (o : Op) : Prop where
  ground : Ground a hash l h
  still : ∀ r h' h'', unchecked a o r h' h'' false = false
  copy : ∀ cfg s d, a.engine = some cfg → o = .device (.file (.copyFile s d)) →
    cfg.installer.releasesRoot <+: d → copies s d

variable {l : List Checked} {copies : Path → Path → Prop} {α : Type} {m : Memory} {h : Host}

/-- A handler keeps the downloads as they were checked, and fetches nothing. -/
abbrev PlainRun (a : AgentService) (hash : Content → String) (l : List Checked)
    (copies : Path → Path → Prop) (p : Program agent Memory α) (m : Memory) (h : Host) : Prop :=
  wp answer (fun _ _ _ => True) (fun _ => Plain a hash l copies) p
    (fun _ _ h' => Ground a hash l h') m h

theorem wp_of_plain {p : Program agent Memory α} (hp : PlainRun a hash l copies p m h) :
    wp (answer.noting (unchecked a)) (Allowed hash) (fun _ => Border a hash l copies) p
      (fun _ _ v => Ground a hash l v.1 ∧ v.2 = false) m (h, false) := by
  refine wp_mono (fun _ _ _ _ => trivial) ?_ (fun _ _ _ hq => hq)
    (wp_noting_still (f := unchecked a) (n := false) (fun _ _ _ hb r h' => hb.still r _ h') hp)
  rintro _ v o ⟨hb, hv⟩
  exact ⟨fun _ => hb.ground, fun cfg s d hcfg ho hd => ⟨hv, hb.copy cfg s d hcfg ho hd⟩⟩

/-- A call of the agent that neither fetches nor copies, and whose files are
none of the downloads. -/
structure Harmless (a : AgentService) (o : Op) : Prop where
  keeps : ∀ {hash l h} (c : Turn), Ground a hash l h → Ground a hash l (answer c o h).2
  still : ∀ r h' h'', unchecked a o r h' h'' false = false
  copies : ∀ s d, o ≠ .device (.file (.copyFile s d))

theorem plain_of_uses {p : Program agent Memory α} (hp : Uses (Harmless a) p)
    (hg : Ground a hash l h) : PlainRun a hash l copies p m h := by
  refine wp_of_uses (R := Ground a hash l) (fun _ _ c ho _ hg => ho.keeps c hg) ?_ hp hg
  intro _ h o ho hg
  exact ⟨hg, ho.still, fun _ s d _ he _ => absurd he (ho.copies s d)⟩

/-- The note is taken of downloads, and of what is taken back. -/
theorem still_of_ne {o : Op} (ho : ∀ k d, o = .device (.download k d) → ¬ a.versionRoot <+: d)
    (r : agent.Res o) (h h' : Host) : unchecked a o r h h' false = false := by
  unfold unchecked
  split
  · simp [ho _ _ rfl]
  · rfl
  · rfl

/-- A call that reads. -/
def Reading : Op → Prop
  | .device o => ∀ q, ¬ o.writes q
  | _ => True

theorem Reading.harmless {o : Op} (ho : Reading o) : Harmless a o := by
  constructor
  · intro hash l h c hg
    have hget : ∀ q, (answer c o h).2.device.fs.get q = h.device.fs.get q := by
      intro q
      by_cases hd : IsDevice o
      · cases o with
        | device o => exact perform_files (ho q)
        | _ => cases hd
      · rw [answer_device hd]
    exact hg.after (fun q x _ hx => (hget q).symm.trans hx) fun cfg _ => hget _
  · refine still_of_ne ?_
    rintro k d rfl
    exact absurd List.prefix_rfl (ho d)
  · rintro s d rfl
    exact ho d rfl

theorem removeAll_harmless (hb : a.Beside) {p : Path} (hp : a.versionRoot <+: p) :
    Harmless a (.device (.file (.removeAll p))) := by
  constructor
  · intro hash l h c hg
    refine hg.after (fun q x _ hx => brings_removeAll _ _ _ _ hx) fun cfg hcfg => ?_
    exact file_frame fun hq => hb.state hcfg (Or.inr (hp.trans hq))
  · exact still_of_ne fun _ _ he => by cases he
  · intro s d he
    cases he

section Reads

theorem reads_file {o : FileOp Content} (ho : ∀ q, ¬ o.writes q) {ε : Type} :
    Uses Reading (onFile o : Act agent Memory ε (FileOp.Res o)).run := .ask ho

theorem reads_call {o : Op} (ho : ¬ IsDevice o) :
    Uses Reading (call o : Act agent Memory String _).run := by
  refine .ask ?_
  cases o with
  | device o => exact absurd trivial ho
  | _ => trivial

/-- A call that only looks: at the files, or at something else. -/
abbrev Looking : Op → Prop := Touching fun _ => False

theorem Looking.reading {o : Op} (ho : Looking o) : Reading o := by
  cases o with
  | device o => exact fun q hq => ho.1 q hq
  | _ => trivial

theorem looks_file {o : FileOp Content} (ho : ∀ q, ¬ o.writes q) {ε : Type} :
    Uses Looking (onFile o : Act agent Memory ε (FileOp.Res o)).run := .ask ⟨ho, id⟩

theorem looks_call {o : Op} (ho : ¬ IsDevice o) :
    Uses Looking (call o : Act agent Memory String _).run := by
  refine .ask ?_
  cases o with
  | device o => exact absurd trivial ho
  | _ => trivial

theorem looks_nearest : ∀ {k : Nat} {p : Path}, Uses Looking (nearest k p).run
  | 0, _ => trivial
  | _ + 1, _ => .seq (looks_file fun _ => id) fun _ =>
      .ite (fun _ => trivial) fun _ => looks_nearest

theorem looks_versionNames {root : Path} :
    ∀ {names : List String}, Uses Looking (versionNames root names).run
  | [] => trivial
  | _ :: _ => .seq (looks_file fun _ => id) fun _ => .seq looks_versionNames fun _ => trivial

theorem looks_probePath : Uses Looking (probePath a).run := by
  refine .seq (.ite (fun _ => looks_call id) fun _ => trivial) fun start => ?_
  cases start with
  | none => exact looks_call id
  | some p =>
      refine .seq looks_nearest fun _ => .seq (looks_file fun _ => id) fun _ => ?_
      exact .ite (fun _ => trivial) fun _ => looks_call id

theorem looks_currentStatus {payload : String} : Uses Looking (currentStatus a payload).run := by
  refine .seq looks_probePath fun _ => .seq (looks_call id) fun _ => .seq .conclude fun _ => ?_
  refine .seq (looks_call id) fun _ => .seq ?_ fun _ => uses_setReport
  refine .seq (.ite (fun _ => trivial) fun _ => looks_file fun _ => id) fun _ => ?_
  refine .ite (fun _ => .seq (looks_file fun _ => id) fun listed => ?_) fun _ => trivial
  cases listed with
  | error why => trivial
  | ok entries => exact .seq looks_versionNames fun _ => trivial

theorem reads_currentStatus {payload : String} : Uses Reading (currentStatus a payload).run :=
  looks_currentStatus.mono fun _ => Looking.reading

theorem reads_rebootDevice {payload : String} : Uses Reading (rebootDevice a payload).run :=
  uses_demand_seq fun _ => .seq (reads_call id) fun _ =>
    uses_orPermanent_seq fun _ _ => uses_setReport

theorem reads_report {command reply : String} {outcome : Except String Unit} :
    Uses Reading (report a command reply outcome).run :=
  .ite (fun _ => trivial) fun _ => .load_seq fun _ => .seq (reads_call id) fun _ => trivial

theorem plain_of_reads {p : Program agent Memory α} (hp : Uses Reading p)
    (hg : Ground a hash l h) : PlainRun a hash l copies p m h :=
  plain_of_uses (hp.mono fun _ => Reading.harmless) hg

end Reads

/-! ## Cleaning -/

theorem removeEntries_harmless (hb : a.Beside) :
    ∀ {names : List String} {k : UInt32},
      Uses (Harmless a) (removeEntries a.versionRoot names k).run
  | [], _ => trivial
  | _ :: _, _ => .seq (.ask (removeAll_harmless hb (List.prefix_append _ _))) fun _ =>
      .seq .conclude fun _ => removeEntries_harmless hb

theorem cleanOldVersion_harmless (hb : a.Beside) {payload : String} :
    Uses (Harmless a) (cleanOldVersion a payload).run := by
  have read : ∀ {α : Type} {p : Program agent Memory α}, Uses Reading p → Uses (Harmless a) p :=
    fun hp => hp.mono fun _ => Reading.harmless
  refine uses_demand_seq fun _ => .seq (read (reads_file fun _ => id)) fun there => ?_
  cases there with
  | false => exact uses_setReport
  | true =>
      refine .seq (read ?_) fun _ => .seq (read (reads_file fun _ => id)) fun _ =>
        .seq .conclude fun entries => ?_
      · refine .ite (fun _ => trivial) fun _ => ?_
        refine .seq (reads_call id) fun _ => .seq (reads_call id) fun _ => ?_
        exact .ite (fun _ => trivial) fun _ => uses_permanent
      · refine .seq (removeEntries_harmless hb) fun _ => ?_
        cases entries.broken with
        | none => exact uses_setReport
        | some why => trivial

/-! ## The commands of the engine -/

/-- A task of the engine that is confined keeps the downloads. -/
theorem engine_spec (hb : a.Beside) {cfg : Deploy.Config} (hcfg : a.engine = some cfg)
    {p : Deploy.Task α} {P : Except EngineError α → Prop}
    (hp : ∀ (e : Engine) (w : World), Stayed cfg w w →
      wp Device.answer (fun _ _ _ => True) (fun _ => Confined cfg copies w) p.run
        (fun r _ w' => Stayed cfg w w' ∧ P r) e w)
    (hg : Ground a hash l h) :
    wp answer (fun _ _ _ => True) (fun _ => Plain a hash l copies)
      (onEngine p : Act agent Memory EngineError α).run
      (fun r _ h' => Ground a hash l h' ∧ P r) m h := by
  have kept : ∀ {w' : World}, Stayed cfg h.device w' →
      Ground a hash l { h with device := w' } := by
    intro w' hw
    constructor
    · intro r q x hr hq hx
      have hroot : a.versionRoot <+: q := by
        rw [versionDirectory_eq hr] at hq
        exact (List.prefix_append _ _).trans hq
      exact hg.verified r q x hr hq ((hw.alike q (hb.not_serviced hcfg hroot)).symm.trans hx)
    · intro cfg' hcfg'
      cases hcfg.symm.trans hcfg'
      exact hw.named
  have hrun := hp (engineLens.get m) h.device ⟨hg.named cfg hcfg, fun _ _ => rfl⟩
  refine wp_embed (A := fun _ _ _ => True) extends_device (fun _ _ _ _ => trivial) ?_
  refine (wp_zoom_program engineLens).mpr (wp_mono (fun _ _ _ h => h) ?_ ?_ hrun)
  · intro _ w o ho
    refine ⟨kept ho.toStayed, ?_, ?_⟩
    · refine still_of_ne ?_
      rintro k d he hd
      cases he
      exact hb.not_serviced hcfg hd (ho.only d List.prefix_rfl)
    · intro cfg' s d hcfg' he hd
      cases hcfg.symm.trans hcfg'
      cases he
      exact ho.copy s d rfl hd
  · rintro r _ w ⟨hw, hr⟩
    exact ⟨kept hw, hr⟩

theorem engine_plain (hb : a.Beside) {cfg : Deploy.Config} (hcfg : a.engine = some cfg)
    {p : Deploy.Task α}
    (hp : ∀ (e : Engine) (w : World), Stayed cfg w w →
      wp Device.answer (fun _ _ _ => True) (fun _ => Confined cfg copies w) p.run
        (fun _ _ w' => Stayed cfg w w') e w)
    (hg : Ground a hash l h) :
    PlainRun a hash l copies (onEngine p : Act agent Memory EngineError α).run m h := by
  refine wp_conseq (engine_spec (P := fun _ => True) hb hcfg (fun e w hw => ?_) hg) ?_
  · exact wp_conseq (hp e w hw) fun _ _ _ h => ⟨h, trivial⟩
  · intro _ _ _ hg'
    exact hg'.1

theorem throughEngine_plain {p : Deploy.Task Unit}
    (hp : PlainRun a hash l copies (onEngine p).run m h) :
    PlainRun a hash l copies (throughEngine p).run m h := by
  refine wp_seq.mpr (wp_attempt.mpr (wp_conseq hp ?_))
  intro done m' h' hg
  exact wp_orEngineError_seq (fun _ => hg) (fun _ _ => hg) fun _ _ => hg

theorem orNoEngine_plain {k : Deploy.Config → Handler} (hg : Ground a hash l h)
    (hk : ∀ cfg, a.engine = some cfg → PlainRun a hash l copies (k cfg).run m h) :
    PlainRun a hash l copies (orNoEngine a >>= k).run m h := by
  refine wp_orPermanent_seq (fun cfg he => hk cfg ?_) fun _ _ => hg
  cases hcfg : a.engine with
  | none =>
      rw [hcfg] at he
      cases he
  | some cfg' =>
      rw [hcfg] at he
      cases he
      rfl

theorem applyVersion_plain (hb : a.Beside) {payload : String} (hg : Ground a hash l h)
    (hcopies : ∀ object r cfg x, parseObject a.codec payload = .ok object →
      validatedReleaseId object = .ok r → a.engine = some cfg →
      copies (a.versionDirectory r ++ x) (cfg.installer.stagingDirectory r ++ x)) :
    PlainRun a hash l copies (applyVersion a payload).run m h := by
  refine wp_orPermanent_seq (fun object hobj => ?_) fun _ _ => hg
  refine wp_orPermanent_seq (fun r hr => orNoEngine_plain hg fun cfg hcfg => ?_) fun _ _ => hg
  refine wp_seq.mpr (wp_conseq (plain_of_reads (reads_file fun _ => id) hg) ?_)
  rintro (e | there) m₁ h₁ hg₁
  · exact hg₁
  refine wp_demand_seq (fun _ => throughEngine_plain (engine_plain hb hcfg ?_ hg₁)) fun _ => hg₁
  intro e w hw
  exact apply_confined hw fun x => hcopies object r cfg x hobj hr hcfg

theorem rollbackVersion_plain (hb : a.Beside) {payload : String} (hg : Ground a hash l h) :
    PlainRun a hash l copies (rollbackVersion a payload).run m h := by
  refine wp_orPermanent_seq (fun object _ => ?_) fun _ _ => hg
  refine wp_orPermanent_seq (fun r _ => orNoEngine_plain hg fun cfg hcfg => ?_) fun _ _ => hg
  exact throughEngine_plain (engine_plain hb hcfg (fun _ _ hw => rollbackTo_confined hw) hg)

theorem restartService_plain (hb : a.Beside) {payload : String} (hg : Ground a hash l h) :
    PlainRun a hash l copies (restartService a payload).run m h := by
  refine orNoEngine_plain hg fun cfg hcfg => ?_
  exact throughEngine_plain
    (engine_plain hb hcfg (fun _ _ hw => noting_confined restart_uses hw) hg)

theorem resumeActive_plain (hb : a.Beside) (hg : Ground a hash l h) :
    PlainRun a hash l copies (resumeActive a).run m h := by
  unfold resumeActive
  cases hcfg : a.engine with
  | none => exact hg
  | some cfg =>
      refine wp_seq.mpr (wp_attempt.mpr (wp_conseq
        (engine_plain hb hcfg (fun _ _ hw => noting_confined startActive_uses hw) hg) ?_))
      intro _ _ _ hg'
      exact hg'

/-! ## Configuration files -/

/-- A call that writes among the releases. -/
theorem release_harmless (hb : a.Beside) {cfg : Deploy.Config} (hcfg : a.engine = some cfg)
    {o : FileOp Content} (ho : ∀ q, o.writes q → cfg.installer.releasesRoot <+: q)
    (hcopy : ∀ s d, o ≠ .copyFile s d) : Harmless a (.device (.file o)) := by
  constructor
  · intro hash l h c hg
    refine hg.after (fun q x hq hx => ?_) fun cfg' hcfg' => ?_
    · have hsame := file_frame (c := c.toChoice) (w := h.device) (f := o) fun hw =>
        hb.not_serviced hcfg hq (serviced_releases (Or.inr (ho q hw)))
      exact hsame.symm.trans hx
    · cases hcfg.symm.trans hcfg'
      exact file_frame fun hw => not_beside_releases (by decide) (ho _ hw) List.prefix_rfl
  · exact still_of_ne fun _ _ he => by cases he
  · intro s d he
    cases he
    exact hcopy s d rfl

theorem under_suffixed {base p : Path} {n s : String} (h : base ++ [n] <+: p) :
    base <+: Path.suffixed p s := by
  obtain ⟨rest, rfl⟩ := h
  rw [Path.suffixed, List.append_assoc, List.dropLast_append_of_ne_nil (by simp),
    List.append_assoc]
  exact List.prefix_append _ _

theorem writeJsonObject_harmless (hb : a.Beside) {cfg : Deploy.Config}
    (hcfg : a.engine = some cfg) {n : String} {p : Path}
    (hp : cfg.installer.releasesRoot ++ [n] <+: p) {document : Json.Fields} :
    Uses (Harmless a) (writeJsonObject p document).run := by
  have htemporary := under_suffixed (s := ".tmp") hp
  have hplace := (List.prefix_append _ _).trans hp
  have put : ∀ {x : Content}, Harmless a (.device (.file (.write (Path.suffixed p ".tmp") x))) := by
    intro x
    refine release_harmless hb hcfg ?_ fun _ _ he => by cases he
    rintro q rfl
    exact htemporary
  have away : Harmless a (.device (.file (.remove (Path.suffixed p ".tmp")))) := by
    refine release_harmless hb hcfg ?_ fun _ _ he => by cases he
    rintro q rfl
    exact htemporary
  have renamed : Harmless a (.device (.file (.rename (Path.suffixed p ".tmp") p))) := by
    refine release_harmless hb hcfg ?_ fun _ _ he => by cases he
    rintro q (hq | hq)
    · exact htemporary.trans hq
    · exact hplace.trans hq
  refine .seq (.ask put) fun _ => .seq .conclude fun _ => .seq (.ask put) fun written => ?_
  cases written with
  | error e => exact .seq (.ask away) fun _ => trivial
  | ok _ =>
      refine .seq (.ask renamed) fun replaced => ?_
      cases replaced with
      | error e => exact .seq (.ask away) fun _ => trivial
      | ok _ => trivial

theorem reads_readJsonObject {p : Path} : Uses Reading (readJsonObject p).run := by
  refine .seq (reads_file fun _ => id) fun source => ?_
  cases source with
  | none => trivial
  | some buffer =>
      dsimp only
      cases buffer.parse with
      | none => trivial
      | some parsed =>
          dsimp only
          cases parsed.object? with
          | none => trivial
          | some object => trivial

/-- The directory of the active release is that of a release. -/
theorem activeReleaseDirectory_confined {cfg : Deploy.Config} {e : Engine} {w w₀ : World}
    (hw : Stayed cfg w₀ w) :
    wp Device.answer (fun _ _ _ => True) (fun _ => Confined cfg copies w₀)
      (activeReleaseDirectory cfg).run
      (fun res _ w' => Stayed cfg w₀ w' ∧
        ∀ p, res = .ok p → ∃ n, p = cfg.installer.releasesRoot ++ [n]) e w := by
  refine wp_require_seq.mpr ?_
  split
  case isFalse => exact ⟨hw, fun _ he => by cases he⟩
  refine wp_seq.mpr (wp_installing.mpr (wp_conseq (wp_both
    (wp_conseq (state_spec (A := fun _ _ _ => True) Safe.anywhere) fun _ _ _ h => h.1.2.1)
    (state_confined hw)) ?_))
  rintro (e | current) _ w₁ ⟨hread, hw₁⟩
  · exact ⟨hw₁, fun _ he => by cases he⟩
  refine wp_require_seq.mpr ?_
  split
  case isFalse => exact ⟨hw₁, fun _ he => by cases he⟩
  rename_i hactive
  have hvalid := hw.named.reads (hread current rfl) (Or.inl rfl) (by simpa using hactive)
  refine ⟨hw₁, fun p he => ?_⟩
  cases he
  exact ⟨current.active, hvalid.releaseDirectory _⟩

theorem relative_of_request {object values : Json.Fields} {relative : String}
    (h : configurationRequest object = .ok (relative, values)) :
    Path.isAbsolute relative = false ∧ (lexicallyNormal relative).head? ≠ some ".." := by
  obtain ⟨path, -, h⟩ := bind_eq_ok.mp h
  obtain ⟨u, hpath, h⟩ := bind_eq_ok.mp h
  obtain rfl : path = relative := by
    split at h
    · cases h
    · cases h
      rfl
  unfold validateReleaseRelativePath at hpath
  split at hpath
  · cases hpath
  split at hpath
  · cases hpath
  · rename_i hno
    simpa using hno

theorem updateConfiguration_plain (hb : a.Beside) {payload : String} (hg : Ground a hash l h) :
    PlainRun a hash l copies (updateConfiguration a payload).run m h := by
  refine wp_orPermanent_seq (fun object _ => ?_) fun _ _ => hg
  refine wp_orPermanent_seq (fun request hreq => ?_) fun _ _ => hg
  obtain ⟨relative, values⟩ := request
  refine orNoEngine_plain hg fun cfg hcfg => ?_
  refine wp_seq.mpr (wp_attempt.mpr (wp_conseq
    (engine_spec hb hcfg (fun _ _ hw => activeReleaseDirectory_confined hw) hg) ?_))
  rintro found m₁ h₁ ⟨hg₁, hroot⟩
  refine wp_orPermanent_seq (fun releaseRoot he => ?_) fun _ _ => hg₁
  obtain ⟨n, rfl⟩ : ∃ n, releaseRoot = cfg.installer.releasesRoot ++ [n] := by
    cases found with
    | error e => cases he
    | ok p =>
        cases he
        exact hroot _ rfl
  -- the file that is written is one of the active release
  have htarget : cfg.installer.releasesRoot ++ [n] <+:
      Path.join (cfg.installer.releasesRoot ++ [n]) relative := by
    obtain ⟨habs, hnormal⟩ := relative_of_request hreq
    exact Path.under_join habs hnormal
  refine plain_of_uses ?_ hg₁
  have read : ∀ {α : Type} {p : Program agent Memory α}, Uses Reading p → Uses (Harmless a) p :=
    fun hp => hp.mono fun _ => Reading.harmless
  refine .seq (read (reads_file fun _ => id)) fun _ => uses_demand_seq fun _ => ?_
  refine .seq (read reads_readJsonObject) fun loaded => uses_orPermanent_seq fun document _ => ?_
  exact .seq (writeJsonObject_harmless hb hcfg htarget) fun _ => uses_setReport

end Yirang.Agent
