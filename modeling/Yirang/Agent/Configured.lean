/-
# `Yirang.Agent.Configured` — a configuration is replaced, and never torn

`update_configuration` reads a file of the active release, merges values into
it, writes the result beside the file under another name, and has it take the
place of the file by a rename.  Whatever fails on the way, and wherever the
agent is killed, the file is the one that was there or the whole new one.

    Holds            the file is this document
    configures       the file and the values that a payload is about
    Untorn           what is found in front of every call
    Merged           what is left when the command succeeds
    update_is_whole  the whole message
-/
import Yirang.Agent.Serve

namespace Yirang

open Fs Effect Device

namespace Fs

theorem Path.suffixed_ne {p : Path} {s : String} (hs : s ≠ "") : Path.suffixed p s ≠ p := by
  rcases List.eq_nil_or_concat p with rfl | ⟨base, n, rfl⟩
  · simp [Path.suffixed]
  · intro h
    rw [Path.suffixed, List.concat_eq_append, List.dropLast_concat, List.append_cancel_left_eq,
      List.getLastD_concat, List.singleton_inj] at h
    refine hs ((String.append_right_inj n).mp ?_)
    rw [h, String.append_empty]

end Fs

namespace Agent

open Deploy Install

variable {a : AgentService} {A : Host → Op → Turn → Prop} {B : Memory → Host → Op → Prop}
  {m : Memory} {h h' : Host} {p : Path} {document : Json.Fields}

/-! ## One file -/

/-- The file is this document. -/
def Holds (w : World) (p : Path) (document : Json.Fields) : Prop :=
  w.fs.get p = some (.file (.json (.object document)))

/-- The file under which the new document is written. -/
abbrev temporary (p : Path) : Path := Path.suffixed p ".tmp"

/-- Only these two files, and nothing was started. -/
structure Spares (p : Path) (w w' : World) : Prop where
  others : ∀ q, q ≠ p → q ≠ temporary p → w'.fs.get q = w.fs.get q
  launched : w'.launched = w.launched

theorem Spares.refl {w : World} : Spares p w w := ⟨fun _ _ _ => rfl, rfl⟩

theorem Spares.trans {w w₁ w' : World} (h : Spares p w w₁) (h' : Spares p w₁ w') :
    Spares p w w' :=
  ⟨fun q hq ht => (h'.others q hq ht).trans (h.others q hq ht), h'.launched.trans h.launched⟩

/-- What was read and understood is what the file holds. -/
theorem readJsonObject_holds :
    wp answer A Anywhere (readJsonObject p).run
      (fun r _ _ => ∃ loaded, r = .ok loaded ∧
        ∀ document, loaded = .ok document → Holds h.device p document) m h := by
  refine wp_call_seq trivial fun c _ => ?_
  have hread : ∀ {x : Content}, (answer c (.device (.file (.read p))) h).1 = some x →
      ∃ y, h.device.fs.get p = some (.file y) ∧ (x = y ∨ ∃ n, x = Cuttable.cut y n) := read_ok
  revert hread
  generalize (answer c (.device (.file (.read p))) h).1 = source
  intro hread
  cases source with
  | none => exact ⟨_, rfl, fun _ he => by cases he⟩
  | some buffer =>
      obtain ⟨y, hy, hbuffer⟩ := hread rfl
      dsimp only
      cases hparsed : buffer.parse with
      | none => exact ⟨_, rfl, fun _ he => by cases he⟩
      | some parsed =>
          dsimp only
          cases hobject : parsed.object? with
          | none => exact ⟨_, rfl, fun _ he => by cases he⟩
          | some object =>
              refine ⟨_, rfl, fun document he => ?_⟩
              cases he
              -- a text that was cut short is not understood
              obtain rfl : buffer = .json parsed := by
                cases buffer with
                | json v =>
                    cases hparsed
                    rfl
                | text s => cases hparsed
                | piece whole n => cases hparsed
              rcases hbuffer with rfl | ⟨n, hcut⟩
              · cases parsed with
                | object fields =>
                    cases hobject
                    exact hy
                | _ => cases hobject
              · cases hcut

/-- The file is as it was. -/
structure Kept (p : Path) (w w' : World) : Prop extends Spares p w w' where
  same : w'.fs.get p = w.fs.get p

/-- The file is this document, and nothing is left beside it. -/
structure Rewritten (p : Path) (document : Json.Fields) (w w' : World) : Prop
    extends Spares p w w' where
  holds : Holds w' p document
  gone : w'.fs.get (temporary p) = none

theorem Kept.of_still {w w' : World} (h : Still w w') : Kept p w w' :=
  ⟨⟨fun q _ _ => h.files q, h.launched⟩, h.files p⟩

theorem Kept.trans {w w₁ w' : World} (h : Kept p w w₁) (h' : Kept p w₁ w') : Kept p w w' :=
  ⟨h.toSpares.trans h'.toSpares, h'.same.trans h.same⟩

theorem Rewritten.after {w w₁ w' : World} (h : Kept p w w₁) (h' : Rewritten p document w₁ w') :
    Rewritten p document w w' :=
  ⟨h.toSpares.trans h'.toSpares, h'.holds, h'.gone⟩

theorem temporary_ne : temporary p ≠ p := Path.suffixed_ne (by decide)

/-- A call that writes the temporary file alone. -/
theorem kept_of_writes {o : FileOp Content} {c : Turn} (ho : ∀ q, o.writes q → q = temporary p) :
    Kept p h.device (answer c (.device (.file o)) h).2.device := by
  have hsame : ∀ q, q ≠ temporary p →
      (answer c (.device (.file o)) h).2.device.fs.get q = h.device.fs.get q :=
    fun q hq => file_frame fun hw => hq (ho q hw)
  exact ⟨⟨fun q _ hq => hsame q hq, launched_call id⟩, hsame p (Ne.symm temporary_ne)⟩

/-- The rename puts the whole document in the place of the file. -/
theorem rename_rewrites {c : Turn} {x : Content} (hx : h.device.fs.get p = some (.file x))
    (ht : Holds h.device (temporary p) document)
    (hok : (answer c (.device (.file (.rename (temporary p) p))) h).1 = .ok ()) :
    Rewritten p document h.device
      (answer c (.device (.file (.rename (temporary p) p))) h).2.device := by
  have hmoved := patched_moveAt ht (rename_ok (c := c.toChoice) hok)
  have none_below : ∀ {base q : Path} {y : Content}, h.device.fs.get base = some (.file y) →
      q ≠ base → base <+: q → h.device.fs.get q = none := fun hbase hne hq => by
    by_contra hthere
    have hdir := FileTree.get_dir_of_under hq (Ne.symm hne) hthere
    rw [hbase] at hdir
    cases hdir
  have hapart : ¬ p <+: temporary p := fun hq => by
    have hgone := none_below hx temporary_ne hq
    rw [Holds] at ht
    rw [ht] at hgone
    cases hgone
  refine ⟨⟨fun q hq htq => ?_, launched_call id⟩, ?_, ?_⟩
  · refine (hmoved q).trans ?_
    rw [Patch.replace, if_neg hq]
    split
    · rename_i hunder
      exact (hunder.elim (none_below hx hq) (none_below ht htq)).symm
    · rfl
  · refine (hmoved p).trans ?_
    rw [Patch.replace, if_pos rfl]
    rfl
  · refine (hmoved _).trans ?_
    rw [Patch.replace, if_neg temporary_ne, if_pos (Or.inr List.prefix_rfl)]
    rfl

/-- In front of every call the file is as it was; at the end it is the new
document, or as it was. -/
theorem writeJsonObject_replaces {x : Content} (hx : h.device.fs.get p = some (.file x)) :
    wp answer A (fun _ h' _ => Kept p h.device h'.device) (writeJsonObject p document).run
      (fun r _ h' => (r = .ok () ∧ Rewritten p document h.device h'.device) ∨
        ((∃ reason, r = .error (.said reason)) ∧ Kept p h.device h'.device)) m h := by
  have written : ∀ {h₁ : Host} {y : Content} {c : Turn}, Kept p h.device h₁.device →
      Kept p h.device (answer c (.device (.file (.write (temporary p) y))) h₁).2.device :=
    fun hk => hk.trans (kept_of_writes fun _ hq => hq)
  have removed : ∀ {h₁ : Host} {c : Turn}, Kept p h.device h₁.device →
      Kept p h.device (answer c (.device (.file (.remove (temporary p)))) h₁).2.device :=
    fun hk => hk.trans (kept_of_writes fun _ hq => hq)
  have hstart : Kept p h.device h.device := .of_still .refl
  refine wp_call_seq hstart fun c₁ _ => wp_orReturn_seq (fun _ _ => ?_) fun e _ => ?_
  · have hopened := written (y := .text "") (c := c₁) hstart
    revert hopened
    generalize (answer c₁ (.device (.file (.write (temporary p) (.text "")))) h).2 = h₁
    intro hopened
    refine wp_call_seq hopened fun c₂ _ => ?_
    have hwritten := written (y := .json (.object document)) (c := c₂) hopened
    have hput : (answer c₂ (.device (.file (.write (temporary p) (.json (.object document))))) h₁).1
        = .ok () → Holds (answer c₂ (.device (.file (.write (temporary p)
          (.json (.object document))))) h₁).2.device (temporary p) document := fun hok => by
      have hat := FileTree.get_putAt (write_ok (c := c₂.toChoice) hok) (temporary p)
      rw [if_pos rfl] at hat
      exact hat
    revert hwritten hput
    generalize (answer c₂ (.device (.file (.write (temporary p) (.json (.object document))))) h₁).2
      = h₂
    generalize (answer c₂ (.device (.file (.write (temporary p) (.json (.object document))))) h₁).1
      = result
    intro hwritten hput
    cases result with
    | error e =>
        exact wp_call_seq hwritten fun c₃ _ => Or.inr ⟨⟨_, rfl⟩, removed hwritten⟩
    | ok u =>
        refine wp_call_seq hwritten fun c₃ _ => ?_
        have hmoved : (answer c₃ (.device (.file (.rename (temporary p) p))) h₂).1 = .ok () →
            Rewritten p document h.device
              (answer c₃ (.device (.file (.rename (temporary p) p))) h₂).2.device :=
          fun hok => (rename_rewrites (hwritten.same.trans hx) (hput rfl) hok).after hwritten
        have hfailed : ∀ {e}, (answer c₃ (.device (.file (.rename (temporary p) p))) h₂).1 =
            .error e → Kept p h.device
              (answer c₃ (.device (.file (.rename (temporary p) p))) h₂).2.device := fun he => by
          have hfs := rename_error (c := c₃.toChoice) he
          exact hwritten.trans (.of_still ⟨fun q => get_same hfs q, launched_call id⟩)
        revert hmoved hfailed
        generalize (answer c₃ (.device (.file (.rename (temporary p) p))) h₂).2 = h₃
        generalize (answer c₃ (.device (.file (.rename (temporary p) p))) h₂).1 = replaced
        intro hmoved hfailed
        cases replaced with
        | error e =>
            exact wp_call_seq (hfailed rfl) fun c₄ _ => Or.inr ⟨⟨_, rfl⟩, removed (hfailed rfl)⟩
        | ok u => exact Or.inl ⟨rfl, hmoved rfl⟩
  · exact Or.inr ⟨⟨e, rfl⟩, written hstart⟩

/-! ## The file that a payload is about -/

/-- The payload is about the file `p` of the active release of the device, and
these values are to be merged into it. -/
def AgentService.configures (a : AgentService) (payload : String) (w : World) (p : Path)
    (values : Json.Fields) : Prop :=
  ∃ object relative cfg, parseObject a.codec payload = .ok object ∧
    configurationRequest object = .ok (relative, values) ∧ a.engine = some cfg ∧
    (cfg.stateOn w).active ≠ "" ∧
    p = Path.join (cfg.installer.releaseDirectory (cfg.stateOn w).active) relative

theorem configures_unique {payload : String} {w : World} {q : Path} {values values' : Json.Fields}
    (hp : a.configures payload w p values) (hq : a.configures payload w q values') :
    p = q ∧ values = values' := by
  obtain ⟨object, relative, cfg, hobject, hrequest, hcfg, -, rfl⟩ := hp
  obtain ⟨object', relative', cfg', hobject', hrequest', hcfg', -, rfl⟩ := hq
  cases hobject.symm.trans hobject'
  cases hrequest.symm.trans hrequest'
  cases hcfg.symm.trans hcfg'
  exact ⟨rfl, rfl⟩

/-- Nothing is written but the file and the one beside it, and the file is as
it was or the whole merged document. -/
structure Untorn (a : AgentService) (payload : String) (w w' : World) : Prop where
  others : ∀ q, (∀ p values, a.configures payload w p values → q ≠ p ∧ q ≠ temporary p) →
    w'.fs.get q = w.fs.get q
  file : ∀ p values, a.configures payload w p values → w'.fs.get p = w.fs.get p ∨
    ∃ document, Holds w p document ∧ Holds w' p (Json.mergeObject values document).1
  launched : w'.launched = w.launched

/-- The file that the payload is about was a document, and is now the merged
one. -/
def Merged (a : AgentService) (payload : String) (w w' : World) : Prop :=
  ∃ p values document, a.configures payload w p values ∧ Holds w p document ∧
    Rewritten p (Json.mergeObject values document).1 w w'

/-- The file that the payload is about is as it was. -/
def Unmerged (a : AgentService) (payload : String) (w w' : World) : Prop :=
  ∀ p values, a.configures payload w p values → w'.fs.get p = w.fs.get p

section Untorn

variable {payload : String} {w w' : World} {values : Json.Fields}

theorem untorn_of_still (h : Still w w') : Untorn a payload w w' :=
  ⟨fun q _ => h.files q, fun p _ _ => Or.inl (h.files p), h.launched⟩

theorem untorn_of_kept (hc : a.configures payload w p values) (h : Kept p w w') :
    Untorn a payload w w' := by
  refine ⟨fun q hq => ?_, fun q values' hc' => ?_, h.launched⟩
  · obtain ⟨hne, hnt⟩ := hq p values hc
    exact h.others q hne hnt
  · obtain ⟨rfl, -⟩ := configures_unique hc hc'
    exact Or.inl h.same

theorem unmerged_of_kept (hc : a.configures payload w p values) (h : Kept p w w') :
    Unmerged a payload w w' := by
  intro q values' hc'
  obtain ⟨rfl, -⟩ := configures_unique hc hc'
  exact h.same

theorem Merged.untorn (h : Merged a payload w w') : Untorn a payload w w' := by
  obtain ⟨p, values, document, hc, hheld, hnew⟩ := h
  refine ⟨fun q hq => ?_, fun q values' hc' => ?_, hnew.launched⟩
  · obtain ⟨hne, hnt⟩ := hq p values hc
    exact hnew.others q hne hnt
  · obtain ⟨rfl, rfl⟩ := configures_unique hc hc'
    exact Or.inr ⟨document, hheld, hnew.holds⟩

end Untorn

/-! ## The command -/

/-- What was read of the state file, if it is the name of a release, is what
the file says. -/
theorem activeReleaseDirectory_reads {cfg : Deploy.Config} {A : World → Device.Op → Choice → Prop}
    {e : Engine} {w : World} :
    wp Device.answer A Anywhere (activeReleaseDirectory cfg).run
      (fun r _ _ => ∀ p, r = .ok p → (cfg.stateOn w).active ≠ "" ∧
        p = cfg.installer.releaseDirectory (cfg.stateOn w).active) e w := by
  refine wp_require_seq.mpr ?_
  split
  case isFalse => exact fun _ he => by cases he
  refine wp_seq.mpr (wp_installing.mpr (wp_conseq (state_reads (A := A)) ?_))
  rintro (e | current) _ w₁ ⟨-, hread, -⟩
  · exact fun _ he => by cases he
  refine wp_require_seq.mpr ?_
  split
  case isFalse => exact fun _ he => by cases he
  rename_i hactive
  rintro p he
  cases he
  rcases hread current rfl with rfl | ⟨rfl, -⟩
  · exact ⟨of_decide_eq_true hactive, rfl⟩
  · exact absurd rfl (of_decide_eq_true hactive)

theorem looks_activeReleaseDirectory {cfg : Deploy.Config} :
    Uses Looking (onEngine (activeReleaseDirectory cfg) : Act agent Memory EngineError Path).run := by
  refine uses_onEngine (S := Touches fun _ => False) (fun _ ho => ho) ?_
  refine .seq .require fun _ => .seq (.rewording (.zoom state_uses)) fun _ => ?_
  exact .seq .require fun _ => trivial

/-- How an update goes. -/
theorem update_untorn {payload : String} :
    wp answer A (fun _ h' _ => Untorn a payload h.device h'.device)
      (updateConfiguration a payload).run
      (fun r _ h' => Untorn a payload h.device h'.device ∧
        (r = .ok () → Merged a payload h.device h'.device) ∧
        ∀ e, r = .error e → (∃ reason, e = .said reason) ∧
          Unmerged a payload h.device h'.device) m h := by
  have refused : ∀ {reason : String} {h' : Host}, Still h.device h'.device →
      Untorn a payload h.device h'.device ∧
        ((.error (.said reason) : Except Failure Unit) = .ok () →
          Merged a payload h.device h'.device) ∧
        ∀ e, (.error (.said reason) : Except Failure Unit) = .error e →
          (∃ reason, e = .said reason) ∧ Unmerged a payload h.device h'.device := fun hs =>
    ⟨untorn_of_still hs, fun he => (by cases he), fun _ he => ⟨⟨_, (Except.error.inj he).symm⟩,
      fun p _ _ => hs.files p⟩⟩
  refine wp_orPermanent_seq (fun object hobject => ?_) fun _ _ => refused .refl
  refine wp_orPermanent_seq (fun request hrequest => ?_) fun _ _ => refused .refl
  obtain ⟨relative, values⟩ := request
  refine wp_orNoEngine_seq (fun cfg hcfg => ?_) (refused .refl)
  have hreads : wp answer A Anywhere
      (onEngine (activeReleaseDirectory cfg) : Act agent Memory EngineError Path).run
      (fun r _ _ => ∀ p, r = .ok p → (cfg.stateOn h.device).active ≠ "" ∧
        p = cfg.installer.releaseDirectory (cfg.stateOn h.device).active)
      m h :=
    wp_onEngine (fun _ _ _ _ => trivial) (activeReleaseDirectory_reads (A := fun _ _ _ => True))
  refine wp_seq.mpr (wp_attempt.mpr (wp_conseq (wp_both hreads
    (wp_still looks_activeReleaseDirectory fun _ _ _ => untorn_of_still)) ?_))
  rintro found m₁ h₁ ⟨hroot, hs₁⟩
  refine wp_orPermanent_seq (fun releaseRoot he => ?_) fun _ _ => refused hs₁
  obtain ⟨hactive, rfl⟩ := hroot releaseRoot (ok_of_mapError he)
  have hc : a.configures payload h.device
      (Path.join (cfg.installer.releaseDirectory (cfg.stateOn h.device).active) relative) values :=
    ⟨object, relative, cfg, hobject, hrequest, hcfg, hactive, rfl⟩
  revert hc
  generalize Path.join (cfg.installer.releaseDirectory (cfg.stateOn h.device).active) relative = p
  intro hc
  refine wp_call_seq (untorn_of_still hs₁) fun c _ => ?_
  have hs₂ : Still h.device (answer c (.device (.file (.isRegularFile p))) h₁).2.device :=
    hs₁.trans (answer_still (o := .device (.file (.isRegularFile p))) ⟨fun _ => id, id⟩ c)
  revert hs₂
  generalize (answer c (.device (.file (.isRegularFile p))) h₁).2 = h₂
  intro hs₂
  refine wp_demand_seq (fun _ => ?_) fun _ => refused hs₂
  refine wp_seq.mpr (wp_conseq (wp_both readJsonObject_holds
    (wp_still looks_readJsonObject fun _ _ _ hs => untorn_of_still (hs₂.trans hs))) ?_)
  rintro _ m₃ h₃ ⟨⟨loaded, rfl, hloaded⟩, hs₃⟩
  refine wp_orPermanent_seq (fun document hdocument => ?_) fun _ _ => refused (hs₂.trans hs₃)
  subst hdocument
  -- from here on it is known which file is written
  have hs := hs₂.trans hs₃
  have hholds : Holds h.device p document := (hs₂.files p).symm.trans (hloaded document rfl)
  refine wp_seq.mpr (wp_mono (fun _ _ _ h => h) (fun _ _ _ hk => ?_) ?_
    (writeJsonObject_replaces ((hs.files p).trans hholds)))
  · exact untorn_of_kept hc (Kept.trans (.of_still hs) hk)
  · rintro res m₄ h₄ (⟨rfl, hnew⟩ | ⟨⟨e, rfl⟩, hk⟩)
    · have hmerged : Merged a payload h.device h₄.device :=
        ⟨p, values, document, hc, hholds, hnew.after (.of_still hs)⟩
      exact ⟨hmerged.untorn, fun _ => hmerged, fun _ he => (by cases he)⟩
    · have hkept := Kept.trans (.of_still hs) hk
      exact ⟨untorn_of_kept hc hkept, fun he => (by cases he),
        fun _ he => ⟨⟨_, (Except.error.inj he).symm⟩, unmerged_of_kept hc hkept⟩⟩

/-! ## The message -/

theorem lookup_updateConfiguration :
    (messages a).lookup Commands.kUpdateConfiguration = some (updateConfiguration a) := rfl

/-- Wherever a message with this command has come to; and at its end it is told
whether the handler succeeded, and that is what it leaves. -/
theorem update_is_whole {raw : String} {message : AgentMessage}
    {out : Outcome agent Memory (Except String (Option Told))}
    (hp : parseAgentMessage a.codec raw = .ok message)
    (hc : message.command = Commands.kUpdateConfiguration)
    (he : Exec answer A (a.telling.serve raw) m h out h') :
    Untorn a message.payload h.device h'.device ∧
      ∀ res m', out = .done res m' → ∃ told, res = .ok (some told) ∧
        if told.verdict.succeeded then Merged a message.payload h.device h'.device
        else Unmerged a message.payload h.device h'.device := by
  have hserved := serve_spec (a := a) (A := A) (m := m) (h := h) raw
    (P := Untorn a message.payload h.device)
    (Q := fun v _ w => if v.succeeded then Merged a message.payload h.device w
      else Unmerged a message.payload h.device w)
    (T := fun _ => False) (untorn_of_still .refl) (fun v hv => ?_) fun message' handler hp' hl => ?_
  · have hsound := wp_sound he hserved
    cases out with
    | before m' o => exact ⟨hsound, fun _ _ hdone => by cases hdone⟩
    | done res m' =>
        obtain ⟨huntorn, ⟨told, rfl, hq⟩ | ⟨-, hthrew⟩⟩ := hsound
        · refine ⟨huntorn, fun _ _ hdone => ?_⟩
          cases hdone
          exact ⟨told, rfl, hq⟩
        · exact hthrew.elim
  · have hno : v.succeeded = false := by
      cases v with
      | ran message' outcome final => exact absurd rfl (hv message' outcome final)
      | _ => rfl
    rw [hno]
    exact fun _ _ _ => rfl
  · cases hp.symm.trans hp'
    rw [hc, lookup_updateConfiguration] at hl
    cases hl
    refine wp_conseq update_untorn ?_
    rintro (e | u) m' h' ⟨huntorn, hok, herr⟩
    · obtain ⟨⟨reason, rfl⟩, hunmerged⟩ := herr e rfl
      exact ⟨huntorn, fun _ => hunmerged⟩
    · exact ⟨huntorn, fun _ => hok rfl⟩

/-! ## Runs -/

/-- A document that comes of another by merging into it, one after another,
values that messages of `S` carry for the file `p`. -/
inductive MergedFrom (a : AgentService) (S : String → Prop) (p : Path) (document₀ : Json.Fields) :
    Json.Fields → Prop
  | start : MergedFrom a S p document₀ document₀
  | merge {document values : Json.Fields} {raw : String} {message : AgentMessage} {w : World} :
      MergedFrom a S p document₀ document → S raw →
      parseAgentMessage a.codec raw = .ok message →
      message.command = Commands.kUpdateConfiguration →
      a.configures message.payload w p values →
      MergedFrom a S p document₀ (Json.mergeObject values document).1

/-- The file is such a document. -/
def Sustained (a : AgentService) (S : String → Prop) (document₀ : Json.Fields) (p : Path)
    (w : World) : Prop :=
  ∃ document, MergedFrom a S p document₀ document ∧ Holds w p document

/-- The message has a release installed. -/
def AgentService.Applying (a : AgentService) (raw : String) : Prop :=
  ∃ message, parseAgentMessage a.codec raw = .ok message ∧
    message.command = Commands.kApplyVersion

section Runs

variable {S : String → Prop} {document₀ : Json.Fields} {α : Type}

/-- Of the device, the call changes no path outside `X`. -/
def Writing (X : Path → Prop) : Op → Prop
  | .device o => Only X o
  | _ => True

theorem writing_of_touching {X : Path → Prop} {o : Op} (ho : Touching X o) : Writing X o := by
  cases o with
  | device o => exact ho.1
  | _ => trivial

theorem wp_sustained {X : Path → Prop} {p : Path} {prog : Program agent Memory α}
    (hprog : Uses (Writing X) prog) (hX : ¬ X p) (hs : Sustained a S document₀ p h.device) :
    wp answer A (fun _ h' _ => Sustained a S document₀ p h'.device) prog
      (fun _ _ h' => Sustained a S document₀ p h'.device) m h := by
  refine wp_of_uses (S := Writing X) (R := fun h' : Host => Sustained a S document₀ p h'.device)
    ?_ (fun _ _ _ _ hs => hs) hprog hs
  rintro h o c ho - ⟨document, hd, hholds⟩
  refine ⟨document, hd, Eq.trans ?_ hholds⟩
  by_cases hdevice : IsDevice o
  · cases o with
    | device o => exact perform_files fun hw => hX (ho p hw)
    | _ => cases hdevice
  · rw [answer_device hdevice]

theorem Untorn.sustained {raw : String} {message : AgentMessage} {p : Path} {w w' : World}
    (hS : S raw) (hp : parseAgentMessage a.codec raw = .ok message)
    (hc : message.command = Commands.kUpdateConfiguration) (hname : ∀ q, p ≠ temporary q)
    (hs : Sustained a S document₀ p w) (h : Untorn a message.payload w w') :
    Sustained a S document₀ p w' := by
  obtain ⟨document, hd, hholds⟩ := hs
  by_cases htarget : ∃ values, a.configures message.payload w p values
  · obtain ⟨values, hconfigures⟩ := htarget
    rcases h.file p values hconfigures with hsame | ⟨document', hholds', hnew⟩
    · exact ⟨document, hd, hsame.trans hholds⟩
    · cases hholds.symm.trans hholds'
      exact ⟨_, .merge hd hS hp hc hconfigures, hnew⟩
  · refine ⟨document, hd, (h.others p fun q values hq => ⟨?_, hname q⟩).trans hholds⟩
    rintro rfl
    exact htarget ⟨values, hq⟩

/-- However the agent is killed and started, and whatever fails: as long as
no release is installed, a document of the releases is the one that was there
with some of the values merged into it that the agent was given. -/
theorem configuration_is_never_torn {cfg : Deploy.Config} {p : Path}
    {K : Memory → Host → Op → Prop} {h₀ : Host} {ph : Phase Memory} (hb : a.Beside)
    (hcfg : a.engine = some cfg) (hp : cfg.installer.releasesRoot <+: p)
    (hname : ∀ q, p ≠ temporary q) (hS : ∀ raw, S raw → ¬ a.Applying raw)
    (hholds : Holds h₀.device p document₀)
    (hr : Runs answer A K (fun _ _ raw => S raw) a.telling h₀ ph h) :
    ∃ document, MergedFrom a S p document₀ document ∧ Holds h.device p document := by
  have hnoting : ¬ Noting cfg p := not_noting_releases hp
  have hnear : ¬ Near a.versionRoot p := fun hn => by
    rcases hn with hn | hn
    · exact hb cfg hcfg _ List.mem_cons_self (Or.inl (hp.trans hn))
    · exact hb.not_serviced hcfg hn (serviced_releases (Or.inr hp))
  have hspared : ¬ (Noting cfg p ∨ Pointed cfg.installer p) :=
    not_or.mpr ⟨hnoting, not_pointed_releases hp⟩
  have hengine : ∀ {q : Deploy.Task Unit} {m : Memory} {h : Host},
      Uses (Only fun q => Noting cfg q ∨ Pointed cfg.installer q) q.run →
      Sustained a S document₀ p h.device →
      wp answer A (fun _ h' _ => Sustained a S document₀ p h'.device)
        (onEngine q : Act agent Memory EngineError Unit).run
        (fun _ _ h' => Sustained a S document₀ p h'.device) m h := fun hq hs =>
    wp_sustained (uses_onEngine (T := Writing _) (fun _ ho => ho) hq) hspared hs
  have through : ∀ {q : Deploy.Task Unit} {m : Memory} {h : Host},
      Uses (Only fun q => Noting cfg q ∨ Pointed cfg.installer q) q.run →
      Sustained a S document₀ p h.device →
      wp answer A (fun _ h' _ => Sustained a S document₀ p h'.device) (throughEngine q).run
        (fun _ _ h' => Sustained a S document₀ p h'.device) m h := fun hq hs =>
    wp_seq.mpr (wp_attempt.mpr (wp_conseq (hengine hq hs) fun _ _ _ hs' =>
      wp_orEngineError_seq (fun _ => hs') (fun _ _ => hs') fun _ _ => hs'))
  have noting : ∀ {q : Deploy.Task Unit}, Uses (Only (Noting cfg)) q.run →
      Uses (Only fun q => Noting cfg q ∨ Pointed cfg.installer q) q.run := fun hq =>
    hq.mono fun _ ho => ho.mono fun _ => .inl
  have hinv := Runs.invariant (J := fun h : Host => Sustained a S document₀ p h.device)
    (I := fun _ (h : Host) => Sustained a S document₀ p h.device)
    (B := fun _ h _ => Sustained a S document₀ p h.device) ⟨document₀, .start, hholds⟩
    (fun _ _ _ hs _ => hs) (fun _ _ hs => hs) ?_ ?_ hr
  · cases ph with
    | down => exact hinv
    | up m => exact hinv
  · intro h hs
    have hresume : wp answer A (fun _ h' _ => Sustained a S document₀ p h'.device)
        (resumeActive a).run (fun _ _ h' => Sustained a S document₀ p h'.device) {} h := by
      unfold resumeActive
      rw [hcfg]
      exact wp_seq.mpr (wp_attempt.mpr (wp_conseq (hengine (noting startActive_uses) hs)
        fun _ _ _ hs => hs))
    exact wp_seq_of hresume (fun _ _ _ hs => hs) fun _ _ _ hs => hs
  · intro m h raw hs hraw
    refine wp_conseq (serve_spec raw (P := Sustained a S document₀ p) (Q := fun _ _ _ => True)
      (T := fun _ => True) hs (fun _ _ => trivial) fun message handler hparsed hl => ?_)
      fun _ _ _ hserved => hserved.1
    refine wp_conseq (Q := fun _ _ h' => Sustained a S document₀ p h'.device) ?_
      fun _ _ _ hs' => ⟨hs', ended_trivial⟩
    have looking : ∀ {q : Handler} {m : Memory}, Uses Looking q.run →
        wp answer A (fun _ h' _ => Sustained a S document₀ p h'.device) q.run
          (fun _ _ h' => Sustained a S document₀ p h'.device) m h := fun hq =>
      wp_sustained (hq.mono fun _ => writing_of_touching) id hs
    have cached : ∀ {q : Handler} {m : Memory}, Uses (Touching (Near a.versionRoot)) q.run →
        wp answer A (fun _ h' _ => Sustained a S document₀ p h'.device) q.run
          (fun _ _ h' => Sustained a S document₀ p h'.device) m h := fun hq =>
      wp_sustained (hq.mono fun _ => writing_of_touching) hnear hs
    obtain ⟨before, after, hsplit, -⟩ := List.lookup_eq_some_iff.mp hl
    have hmem : (message.command, handler) ∈ messages a := by
      rw [hsplit]
      exact List.mem_append_right _ List.mem_cons_self
    simp only [messages, List.mem_cons, Prod.mk.injEq, List.not_mem_nil, or_false] at hmem
    rcases hmem with ⟨-, rfl⟩ | ⟨hc, -⟩ | ⟨-, rfl⟩ | ⟨-, rfl⟩ | ⟨-, rfl⟩ | ⟨hc, rfl⟩ | ⟨-, rfl⟩ |
      ⟨-, rfl⟩
    · exact cached (cache_uses (Or.inr rfl) _)
    · exact absurd ⟨message, hparsed, hc⟩ (hS raw hraw)
    · exact looking looks_currentStatus
    · exact cached (cache_uses (Or.inl rfl) _)
    · refine wp_orPermanent_seq (fun _ _ => wp_orPermanent_seq (fun r _ => ?_) fun _ _ => hs)
        fun _ _ => hs
      refine wp_orNoEngine_seq (fun cfg' hcfg' => ?_) hs
      cases hcfg.symm.trans hcfg'
      exact through rollbackTo_uses hs
    · have kept : ∀ {h' : Host}, Untorn a message.payload h.device h'.device →
          Sustained a S document₀ p h'.device := fun hu => hu.sustained hraw hparsed hc hname hs
      exact wp_mono (fun _ _ _ h => h) (fun _ _ _ hu => kept hu) (fun _ _ _ hu => kept hu.1)
        update_untorn
    · refine wp_orNoEngine_seq (fun cfg' hcfg' => ?_) hs
      cases hcfg.symm.trans hcfg'
      exact through (noting restart_uses) hs
    · exact looking looks_rebootDevice

end Runs

/-! ## An update that is killed -/

namespace Sample

def settings : Json.Fields := [("name", .string "app"), ("port", .int64 8)]

/-- Its message sets the port. -/
def tunes : AgentService :=
  configurations.agentService (codec
    [("update", command Commands.kUpdateConfiguration "values"),
      ("values", .object [("path", .string "app.json"), ("values", .object [("port", .int64 9)])])])

def settingsPath : Path := ["srv", "releases", "r1", "app.json"]

/-- `r1` is active, and has its settings in a file. -/
def configured : Host where
  device := .idle (.ofFiles
    [(settingsPath, .json (.object settings)),
      (["srv", "state.json"], .json (ActivationState.toJson ⟨"r1", "", "then"⟩))]) "boot"

/-- The agent starts, and cannot start `r1`: there is no executable. -/
def tuned : Host := (tunes.telling.boot.run answer (List.replicate 9 {}) {} configured).2

/-- It is killed in front of the seventh call of the update, the rename. -/
def interrupted : Host := ((tunes.telling.serve "update").run answer (List.replicate 6 {}) {} tuned).2

/-- The rename onto the settings. -/
def replaces : Op → Bool
  | .device (.file (.rename b p)) => b = temporary settingsPath && p = settingsPath
  | _ => false

end Sample

theorem ne_temporary (base : Path) {n : String} (hn : n.toList.getLast? ≠ some 'p') (q : Path) :
    base ++ [n] ≠ temporary q := by
  intro h
  have hlast := congrArg List.getLast? h
  rw [List.getLast?_concat, temporary, Path.suffixed, List.getLast?_concat, Option.some_inj] at hlast
  refine hn ?_
  rw [hlast, String.toList_append, List.getLast?_append_of_ne_nil _ (by decide)]
  rfl

theorem Sample.tunes_beside : Sample.tunes.Beside := by
  intro cfg hcfg
  cases hcfg
  have hplaces : ∀ p ∈ Config.places (configurations.makeEngine.get rfl),
      ¬ (p <+: ["versions"] ∨ ["versions"] <+: p) := by decide +kernel
  exact hplaces

/-- Killed in front of the rename: the new document lies beside the file. -/
theorem configuration_is_never_torn_killed :
    ∃ h document, Runs answer (fun _ _ _ => True) (fun _ _ o => Sample.replaces o = true)
        (fun _ _ raw => raw = "update") Sample.tunes.telling Sample.configured .down h ∧
      h.device.fs.isFile (temporary Sample.settingsPath) = true ∧
      MergedFrom Sample.tunes (· = "update") Sample.settingsPath Sample.settings document ∧
      Holds h.device Sample.settingsPath document := by
  have hboot : Exec answer (fun _ _ _ => True) Sample.tunes.telling.boot {} Sample.configured
      (.done (.ok none) {}) Sample.tuned :=
    exec_freely _ _ _ _ _ rfl
  have hstops : ((Sample.tunes.telling.serve "update").run answer (List.replicate 6 {}) {}
      Sample.tuned).1.isBefore Sample.replaces = true := by decide +kernel
  obtain ⟨m', o, hrun, ho⟩ := Outcome.before_of_isBefore hstops
  have hruns : Runs answer (fun _ _ _ => True) (fun _ _ o => Sample.replaces o = true)
      (fun _ _ raw => raw = "update") Sample.tunes.telling Sample.configured .down
      Sample.interrupted :=
    .killed "update" (.boot .first hboot) rfl (exec_freely _ _ _ _ _ hrun) ho
  have hinstalls : ∀ raw, raw = "update" → ¬ Sample.tunes.Applying raw := by
    rintro _ rfl ⟨message, hp, hc⟩
    cases hp
    exact absurd hc (by decide)
  have hheld : Holds Sample.configured.device Sample.settingsPath Sample.settings := rfl
  obtain ⟨document, hd, hholds⟩ := configuration_is_never_torn Sample.tunes_beside rfl
    (by decide +kernel) (ne_temporary ["srv", "releases", "r1"] (n := "app.json") (by decide))
    hinstalls hheld hruns
  exact ⟨_, document, hruns, by decide +kernel, hd, hholds⟩

/-- The same message, let run to its end. -/
theorem update_is_whole_done :
    ∃ told m h, Exec answer (fun _ _ _ => True) (Sample.tunes.telling.serve "update") {}
        Sample.tuned (.done (.ok (some told)) m) h ∧ told.verdict.succeeded = true ∧
      Merged Sample.tunes "values" Sample.tuned.device h.device := by
  obtain ⟨told, m, hrun, hok⟩ : ∃ told m, ((Sample.tunes.telling.serve "update").run answer
      (List.replicate 8 {}) {} Sample.tuned).1 = .done (.ok (some told)) m ∧
      told.verdict.succeeded = true := ⟨_, _, rfl, rfl⟩
  have he := exec_freely answer _ _ _ _ hrun
  have hp : parseAgentMessage Sample.tunes.codec "update" =
      .ok ⟨Commands.kUpdateConfiguration, "values", "", ""⟩ := rfl
  obtain ⟨_, hsame, hmerged⟩ := (update_is_whole hp rfl he).2 _ m rfl
  cases hsame
  rw [if_pos hok] at hmerged
  exact ⟨told, m, _, he, hok, hmerged⟩

end Agent

end Yirang
