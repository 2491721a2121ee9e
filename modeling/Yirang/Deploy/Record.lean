/-
# `Yirang.Deploy.Record` — the record file

What the engine reads from `runtime.json`, and what it leaves there.  Beside
the state file and the releases the record is a footprint of its own
(`Noting`), so whatever concerns it alone is settled here.

A record that cannot be understood is removed: `record` is the one reader
of the program that writes.
-/
import Yirang.Deploy.Model
import Yirang.Install.Pointer

namespace Yirang

open Fs Effect Device Install

namespace Deploy

variable {cfg : Config} {A : World → Op → Choice → Prop} {m : Engine} {w : World}

/-! ## Steps of the engine -/

section Steps

variable {B : Engine → World → Op → Prop} {α : Type}

theorem wp_setHandle_seq {h : Option ProcessHandle} {k : Unit → Task α}
    {Q : Except EngineError α → Engine → World → Prop} :
    wp answer A B (setHandle h >>= k).run Q m w ↔
      wp answer A B (k ()).run Q { m with handle := h } w := Iff.rfl

theorem wp_setDetail_seq {s : String} {k : Unit → Task α}
    {Q : Except EngineError α → Engine → World → Prop} :
    wp answer A B (setDetail s >>= k).run Q m w ↔
      wp answer A B (k ()).run Q { m with lastDetail := s } w := Iff.rfl

/-- A step of the installer keeps the memory of the engine. -/
theorem wp_installing {p : Step α} {Q : Except EngineError α → Engine → World → Prop} :
    wp answer A B (installing p).run Q m w ↔
      wp answer A (fun _ w o => B m w o) p.run
        (fun r _ w' => Q (r.mapError .installer) m w') () w :=
  wp_rewording.trans wp_zoom_nothing

theorem wp_tryInstalling {p : Step α}
    {Q : Except EngineError (Except InstallError α) → Engine → World → Prop} :
    wp answer A B (tryInstalling p).run Q m w ↔
      wp answer A (fun _ w o => B m w o) p.run (fun r _ w' => Q (.ok r) m w') () w :=
  wp_attempt.trans wp_zoom_nothing

end Steps

/-! ## The footprint -/

/-- The record and its temporary. -/
def Noting (cfg : Config) (q : Path) : Prop :=
  cfg.recordPath <+: q ∨ cfg.recordTemporary <+: q

theorem not_noting {n : String} {x : Path} (hr : n ≠ "runtime.json")
    (ht : n ≠ "runtime.json.tmp") : ¬ Noting cfg (cfg.installer.root ++ n :: x) := by
  rintro (h | h)
  · exact hr (List.cons_prefix_cons.mp (Path.under_base_iff.mp h)).1.symm
  · exact ht (List.cons_prefix_cons.mp (Path.under_base_iff.mp h)).1.symm

theorem recordPath_ne_temporary : cfg.recordPath ≠ cfg.recordTemporary := fun h => by
  simpa using List.append_cancel_left h

theorem clearRecord_uses : Uses (Touches (Noting cfg)) (clearRecord cfg).run :=
  Uses.orFail (uses_file fun _ h => Or.inl (h ▸ List.prefix_rfl))

theorem writeRecord_uses (next : RuntimeRecord) :
    Uses (Touches (Noting cfg)) (writeRecord cfg next).run := by
  unfold writeRecord
  refine Uses.seq (Uses.orFail (uses_file fun q h => ?_)) fun _ => ?_
  · exact Or.inr (h ▸ List.prefix_rfl)
  refine Uses.seq (uses_file fun q h => h.symm) fun published => ?_
  cases published with
  | ok _ => trivial
  | error why =>
      refine Uses.seq (uses_file fun q h => ?_) fun _ => trivial
      exact Or.inr (h ▸ List.prefix_rfl)

theorem stop_uses : Uses (Touches (Noting cfg)) (stop cfg).run := by
  refine Uses.load_seq fun engine => ?_
  cases engine.handle with
  | none => trivial
  | some h =>
      refine Uses.seq (Uses.orFail (uses_ask ?_ id)) fun _ => ?_
      · exact fun q hq => hq
      · exact Uses.seq (fun _ => trivial) fun _ => clearRecord_uses

theorem record_uses : Uses (Touches (Noting cfg)) (record cfg).run := by
  unfold record
  refine Uses.seq (uses_read fun q h => h) fun there => ?_
  cases there with
  | false => trivial
  | true =>
      refine Uses.seq (uses_read fun q h => h) fun source => ?_
      cases source with
      | none => trivial
      | some buffer =>
          dsimp only
          cases RuntimeRecord.load cfg.recordPath buffer with
          | ok loaded => trivial
          | error reason =>
              refine Uses.seq (fun _ => trivial) fun _ => ?_
              exact Uses.seq (Uses.rewording clearRecord_uses) fun _ => trivial

theorem keepOrStop_uses {r : String} {recorded : RuntimeRecord} {taken : ProcessHandle} :
    Uses (Touches (Noting cfg)) (keepOrStop cfg r recorded taken).run := by
  refine Uses.seq (fun _ => trivial) fun _ => ?_
  split
  · exact fun _ => trivial
  · exact Uses.seq (Uses.rewording stop_uses) fun _ _ => trivial

theorem resume_uses {r : String} : Uses (Touches (Noting cfg)) (resume cfg r).run := by
  refine Uses.seq record_uses fun recorded => ?_
  split
  · trivial
  refine Uses.seq (Uses.orFail (uses_ask ?_ id)) fun identity => ?_
  · exact fun q hq => hq
  split
  · exact Uses.seq (fun _ => trivial) fun _ => clearRecord_uses
  · refine Uses.seq (uses_ask (fun q hq => hq) id) fun taken => ?_
    cases taken with
    | error why => exact Uses.seq (fun _ => trivial) fun _ => clearRecord_uses
    | ok taken => exact keepOrStop_uses

/-! ### With a start -/

theorem only_of_touches {X : Path → Prop} {M α : Type} {p : Program device M α}
    (hp : Uses (Touches X) p) : Uses (Only X) p :=
  hp.mono fun _ h => h.1

theorem makeExecutable_uses {p : Path} :
    Uses (Touches (Noting cfg)) (makeExecutable cfg p).run :=
  Uses.seq (uses_read fun _ h => h) fun _ =>
    Uses.provided (Uses.orFail (uses_read fun _ h => h))

theorem launch_uses {r : String} : Uses (Only (Noting cfg)) (launch cfg r).run := by
  unfold launch
  refine Uses.seq Uses.conclude fun _ => ?_
  refine Uses.seq (only_of_touches (uses_read fun q h => h)) fun there => ?_
  refine Uses.seq Uses.require fun _ => ?_
  refine Uses.seq (only_of_touches makeExecutable_uses) fun _ => ?_
  refine Uses.seq (Uses.orFail (Uses.ask ?_)) fun started => ?_
  · exact fun _ hq => False.elim hq
  refine Uses.seq (fun _ => trivial) fun _ => ?_
  refine Uses.seq (Uses.orFail (Uses.ask ?_)) fun identity => ?_
  · exact fun _ hq => False.elim hq
  exact Uses.rewording (only_of_touches (writeRecord_uses _))

theorem startActive_uses : Uses (Only (Noting cfg)) (startActive cfg).run := by
  unfold startActive
  refine Uses.seq Uses.require fun _ => ?_
  refine Uses.seq (Uses.rewording (Uses.zoom (only_of_touches state_uses))) fun current => ?_
  refine Uses.seq Uses.require fun _ => ?_
  refine Uses.seq (only_of_touches resume_uses) fun _ => ?_
  refine Uses.load_seq fun engine => ?_
  cases engine.handle with
  | some handle => trivial
  | none => exact launch_uses

theorem awaitTurns_uses {probe : Task (Except String Unit)}
    (hp : Uses (Touches (Noting cfg)) probe.run) (n : Nat) (checker : Health.HealthChecker) :
    Uses (Touches (Noting cfg)) (awaitTurns cfg probe n checker).run := by
  induction n generalizing checker with
  | zero => trivial
  | succ n ih =>
      unfold awaitTurns
      refine Uses.seq hp fun result => ?_
      show Uses _ (ExceptT.run (ite _ _ _))
      split
      · trivial
      · split
        · trivial
        · exact ih _

theorem awaitReady_uses : Uses (Touches (Noting cfg)) (awaitReady cfg).run := by
  refine Uses.load_seq fun engine => ?_
  cases hprobe : makeProbe cfg engine.handle with
  | none => trivial
  | some probe =>
      refine Uses.seq (uses_ask (fun q hq => hq) id) fun turns => ?_
      have hp : Uses (Touches (Noting cfg)) probe.run := by
        unfold makeProbe at hprobe
        split at hprobe
        · cases hprobe
        · cases hprobe
          exact Uses.seq (uses_ask (fun q hq => hq) id) fun _ => trivial
        · cases hprobe
          exact uses_ask (fun q hq => hq) id
      exact awaitTurns_uses hp turns _

/-! ## Reading the record -/

namespace Config

/-- What the record file says; nothing, if it cannot be understood. -/
def recordOn (cfg : Config) (t : FileTree Content) : RuntimeRecord :=
  match t.get cfg.recordPath with
  | some (.file c) => (RuntimeRecord.load cfg.recordPath c).toOption.getD {}
  | _ => {}

theorem recordOn_of_get {t t' : FileTree Content}
    (h : t'.get cfg.recordPath = t.get cfg.recordPath) : cfg.recordOn t' = cfg.recordOn t := by
  simp only [recordOn, h]

end Config

/-- The token survives being written as a signed number. -/
theorem RuntimeRecord.load_toJson (r : RuntimeRecord) (p : Path) :
    RuntimeRecord.load p (.json r.toJson) = .ok r := by
  have htoken : BitVec.ofInt 64 r.startToken.toInt = r.startToken := BitVec.ofInt_toInt
  show Except.ok ({ r with startToken := BitVec.ofInt 64 r.startToken.toInt } : RuntimeRecord) = _
  rw [htoken]

theorem recordOn_of_file {t : FileTree Content} {r : RuntimeRecord}
    (h : t.get cfg.recordPath = some (.file (.json r.toJson))) : cfg.recordOn t = r := by
  simp only [Config.recordOn, h, RuntimeRecord.load_toJson]
  rfl

/-- A read of the record file that began delivers all of it. -/
def WholeReads (cfg : Config) (A : World → Op → Choice → Prop) : Prop :=
  ∀ w c, A w (.file (.read cfg.recordPath)) c → c.chance.cut = none

/-- The record file can always be read. -/
def Readable (cfg : Config) (A : World → Op → Choice → Prop) : Prop :=
  (∀ w c, A w (.file (.exists_ cfg.recordPath)) c → c.chance.fault = none) ∧
    ∀ w c, A w (.file (.read cfg.recordPath)) c → c.chance.fault = none ∧ c.chance.cut = none

theorem Readable.whole (h : Readable cfg A) : WholeReads cfg A := fun w c hc => (h.2 w c hc).2

/-- How `record` may end: it read the file, or could not, and changed
nothing; or it found a text it did not understand, and removed it. -/
inductive RecordRead (cfg : Config) (A : World → Op → Choice → Prop) (w w' : World) :
    Except EngineError RuntimeRecord → Prop
  | read {r : RuntimeRecord} : Within Untouched w w' →
      r = cfg.recordOn w.fs ∨ (r = {} ∧ ¬ Readable cfg A) → RecordRead cfg A w w' (.ok r)
  | unread {e : EngineError} : Within Untouched w w' →
      cfg.recordOn w.fs = {} ∨ ¬ Readable cfg A → RecordRead cfg A w w' (.error e)
  | cleared {res : Except EngineError RuntimeRecord} : Within (Noting cfg) w w' →
      cfg.recordOn w.fs = {} ∨ ¬ WholeReads cfg A → (∀ r, res = .ok r → r = {}) →
      RecordRead cfg A w w' res

section Reading

variable {B : Engine → World → Op → Prop}

theorem touches_none {f : FileOp Content} (h : ∀ q, ¬ f.writes q) :
    Touches Untouched (.file f) :=
  ⟨fun q hq => h q hq, id⟩

theorem clearRecord_spec (hB : Safe B (Noting cfg) w) :
    wp answer A B (clearRecord cfg).run (fun _ m' w' => m' = m ∧ Within (Noting cfg) w w') m w := by
  have htouch : Touches (Noting cfg) (.file (.remove cfg.recordPath)) :=
    ⟨fun q h => Or.inl (h ▸ List.prefix_rfl), id⟩
  exact wp_orFail.mpr (wp_file.mpr ⟨hB m w _ htouch .refl, fun c _ => ⟨rfl, answer_within htouch⟩⟩)

theorem unreadableRecord_spec {reason : String} (hB : Safe B (Noting cfg) w) :
    wp answer A B (unreadableRecord cfg reason).run
      (fun res m' w' => m'.handle = m.handle ∧ Within (Noting cfg) w w' ∧
        ∀ r, res = .ok r → r = {}) m w := by
  refine wp_setDetail_seq.mpr (wp_seq.mpr (wp_rewording.mpr ?_))
  refine wp_conseq (clearRecord_spec hB) ?_
  rintro (e | _) m' w' ⟨rfl, hw⟩
  · exact ⟨rfl, hw, fun r hr => by cases hr⟩
  · exact ⟨rfl, hw, fun r hr => by cases hr; rfl⟩

/-- A text that was read whole is what the file holds. -/
theorem read_whole {c : Choice} {p : Path} {buffer : Content}
    (h : (answer c (.file (.read p)) w).1 = some buffer) (hcut : c.chance.cut = none) :
    w.fs.get p = some (.file buffer) := by
  simp only [answer_fst, perform, FileOp.answer, hcut] at h
  split at h
  · rename_i x _ hx
    cases h
    exact hx
  · cases h

theorem record_spec (hB : Safe B Untouched w)
    (hB' : cfg.recordOn w.fs = {} ∨ ¬ WholeReads cfg A → Safe B (Noting cfg) w) :
    wp answer A B (record cfg).run
      (fun res m' w' => m'.handle = m.handle ∧ RecordRead cfg A w w' res) m w := by
  have hstat : Touches Untouched (.file (.exists_ cfg.recordPath)) := touches_none fun _ h => h
  have hopen : Touches Untouched (.file (.read cfg.recordPath)) := touches_none fun _ h => h
  unfold record
  refine wp_seq.mpr (wp_file.mpr ⟨hB m w _ hstat .refl, fun c hc => ?_⟩)
  have hw₁ := answer_within (c := c) (w := w) hstat
  have hfs₁ : (answer c (.file (.exists_ cfg.recordPath)) w).2.fs = w.fs := rfl
  cases hex : (answer c (.file (.exists_ cfg.recordPath)) w).1 with
  | false =>
      refine ⟨rfl, .read hw₁ ?_⟩
      by_cases hA : Readable cfg A
      · -- the `stat` did not fail, so there is no file
        have hnone : w.fs.get cfg.recordPath = none := by
          simpa [answer_fst, perform, FileOp.answer, hA.1 w c hc, World.bury, World.spare]
            using hex
        exact Or.inl (by simp only [Config.recordOn, hnone])
      · exact Or.inr ⟨rfl, hA⟩
  | true =>
      revert hw₁ hfs₁
      generalize (answer c (.file (.exists_ cfg.recordPath)) w).2 = w₁
      intro hw₁ hfs₁
      refine wp_seq.mpr (wp_file.mpr ⟨hB m w₁ _ hopen hw₁, fun c₂ hc₂ => ?_⟩)
      have hw₂ := hw₁.trans (answer_within (c := c₂) (w := w₁) hopen)
      cases hrd : (answer c₂ (.file (.read cfg.recordPath)) w₁).1 with
      | none =>
          refine ⟨rfl, .unread hw₂ ?_⟩
          by_cases hA : Readable cfg A
          · exact Or.inl (unopened hrd (hA.2 w₁ c₂ hc₂).1 hfs₁)
          · exact Or.inr hA
      | some buffer =>
          dsimp only [andThen]
          cases hload : RuntimeRecord.load cfg.recordPath buffer with
          | error reason =>
              have hbad : cfg.recordOn w.fs = {} ∨ ¬ WholeReads cfg A := by
                by_cases hA : WholeReads cfg A
                · have hget := read_whole hrd (hA _ _ hc₂)
                  rw [hfs₁] at hget
                  refine Or.inl ?_
                  simp only [Config.recordOn, hget, hload]
                  rfl
                · exact Or.inr hA
              refine wp_conseq (unreadableRecord_spec ((hB' hbad).after
                (hw₂.mono fun _ h => h.elim))) ?_
              rintro res m' w' ⟨hm, hw, hres⟩
              exact ⟨hm, .cleared ((hw₂.mono fun _ h => h.elim).trans hw) hbad hres⟩
          | ok loaded =>
              refine ⟨rfl, .read hw₂ (Or.inl ?_)⟩
              cases hcut : c₂.chance.cut with
              | none =>
                  have hget := read_whole hrd hcut
                  rw [hfs₁] at hget
                  simp only [Config.recordOn, hget, hload]
                  rfl
              | some n =>
                  -- a piece of a text does not parse
                  exact absurd hload (cut_unparsed hrd hcut)
where
  cut_unparsed {c : Choice} {w : World} {buffer : Content} {n : Nat} {loaded : RuntimeRecord}
      (h : (answer c (.file (.read cfg.recordPath)) w).1 = some buffer)
      (hcut : c.chance.cut = some n) :
      ¬ RuntimeRecord.load cfg.recordPath buffer = .ok loaded := by
    simp only [answer_fst, perform, FileOp.answer, hcut] at h
    split at h
    · cases h
      intro hload
      cases hload
    · cases h
  unopened {w w₁ : World} {c : Choice}
      (h : (answer c (.file (.read cfg.recordPath)) w₁).1 = none) (hf : c.chance.fault = none)
      (hfs : w₁.fs = w.fs) : cfg.recordOn w.fs = {} := by
    simp only [answer_fst, perform, FileOp.answer, hf] at h
    rw [← hfs]
    simp only [Config.recordOn]
    split at h
    · cases hc : c.chance.cut <;> simp [hc] at h
    · rename_i hno
      split
      · rename_i x hx
        exact absurd hx (hno x rfl)
      · rfl

end Reading

end Deploy

end Yirang
