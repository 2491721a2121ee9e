/-
# `Yirang.Agent.Serve` — from its handlers to the whole agent

`handle` parses, routes, runs one handler, reports and counts; only the
handler touches the device.  So what is known of every handler is known of a
message, and what every message keeps is kept for as long as the agent is
killed and started.

    Still           nothing was written or started
    serve_spec      a message, from what its handler does
    Names           the state file of the engine names releases
    runs_named      it does in every state that a run reaches
-/
import Yirang.Agent.Lasting
import Yirang.Agent.Verified

namespace Yirang.Agent

open Fs Effect Device Deploy Install

variable {a : AgentService} {A : Host → Op → Turn → Prop} {B : Memory → Host → Op → Prop}
  {m : Memory} {h h' : Host} {α : Type}

theorem wp_itself (p : Program agent Memory α) :
    wp answer A Anywhere p (fun r m' h' => Exec answer A p m h (.done r m') h') m h := by
  refine wp_of_exec p fun out h' he => ?_
  cases out with
  | done r m' => exact he
  | before m' o => trivial

/-! ## The engine inside the agent -/

theorem uses_onEngine {S : Device.Op → Prop} {T : Op → Prop} (hS : ∀ o, S o → T (.device o))
    {p : Deploy.Task α} (hp : Uses S p.run) :
    Uses T (onEngine p : Act agent Memory EngineError α).run :=
  Uses.embed hS (Uses.zoom hp)

/-! ## Where nothing is written -/

/-- The same files, and nothing was started. -/
structure Still (w w' : World) : Prop where
  files : ∀ q, w'.fs.get q = w.fs.get q
  launched : w'.launched = w.launched

theorem Still.refl {w : World} : Still w w := ⟨fun _ => rfl, rfl⟩

theorem Still.trans {w w₁ w' : World} (h : Still w w₁) (h' : Still w₁ w') : Still w w' :=
  ⟨fun q => (h'.files q).trans (h.files q), h'.launched.trans h.launched⟩

theorem answer_launched {X : Path → Prop} {o : Op} (ho : Touching X o) (c : Turn) :
    (answer c o h).2.device.launched = h.device.launched := by
  by_cases hd : IsDevice o
  · cases o with
    | device o => exact launched_call ho.2
    | _ => cases hd
  · rw [answer_device hd]

theorem answer_still {o : Op} (ho : Looking o) (c : Turn) :
    Still h.device (answer c o h).2.device := by
  refine ⟨fun q => ?_, answer_launched ho c⟩
  exact (answer_hostWithin ho).files id

theorem wp_still {p : Program agent Memory α} (hp : Uses Looking p)
    (hB : ∀ m' h' o, Still h.device h'.device → B m' h' o) :
    wp answer A B p (fun _ _ h' => Still h.device h'.device) m h :=
  wp_of_uses (R := fun h' : Host => Still h.device h'.device)
    (fun _ _ c ho _ hr => hr.trans (answer_still ho c)) (fun m' h' o _ hr => hB m' h' o hr) hp .refl

/-- Nothing is started where no call starts anything. -/
theorem wp_launched {X : Path → Prop} {p : Program agent Memory α} (hp : Uses (Touching X) p) :
    wp answer A Anywhere p (fun _ _ h' => h'.device.launched = h.device.launched) m h :=
  wp_of_uses (R := fun h' : Host => h'.device.launched = h.device.launched)
    (fun _ _ c ho _ hr => (answer_launched ho c).trans hr) (fun _ _ _ _ _ => trivial) hp rfl

/-! ## A message -/

/-- A report is sent, and that is all. -/
theorem report_silent {command reply : String} {outcome : Except String Unit} {P : World → Prop}
    (hP : P h.device) :
    wp answer A (fun _ h' _ => P h'.device) (report a command reply outcome).run
      (fun r m' h' => r = .ok () ∧ m' = m ∧ h'.device = h.device) m h := by
  unfold report
  split
  · exact ⟨rfl, rfl, rfl⟩
  · exact ⟨hP, fun c _ => ⟨rfl, rfl, rfl⟩⟩

/-- What is counted is no report. -/
theorem settle_silent {raw : String} {v : Verdict} :
    wp answer A B (settle raw v).run
      (fun _ m' h' => m'.lastReport = m.lastReport ∧ h' = h) m h := by
  unfold settle
  split
  · refine wp_load_seq.mpr ?_
    have hcounted : (m.recordFailure raw).lastReport = m.lastReport := by
      unfold Memory.recordFailure
      split
      · rfl
      · rfl
    dsimp only
    split
    · exact ⟨hcounted, rfl⟩
    · exact ⟨hcounted, rfl⟩
  · exact ⟨rfl, rfl⟩

/-- A verdict without a handler. -/
def Verdict.Unserved (v : Verdict) : Prop := ∀ message outcome final, v ≠ .ran message outcome final

/-- What is to hold where a handler ended: `Q` of the outcome that it returned,
or `T` of the exception that left it. -/
def Ended (Q : Except String Unit → Prop) (T : String → Prop) : Except Failure Unit → Prop
  | .ok u => Q (.ok u)
  | .error (.said reason) => Q (.error reason)
  | .error (.threw what) => T what

theorem ended_trivial {ended : Except Failure Unit} :
    Ended (fun _ => ∀ _ : Bool, True) (fun _ => True) ended :=
  match ended with
  | .ok _ | .error (.said _) => fun _ => trivial
  | .error (.threw _) => trivial

/-- The outcome of a message, from what its handler does: `P` holds of the
device in front of every call, and at the end `Q` of the verdict and of what
the handler last said, or `T` of an exception. -/
theorem serve_spec (raw : String) {P : World → Prop} {Q : Verdict → String → World → Prop}
    {T : World → Prop} (hP : P h.device)
    (hunserved : ∀ v : Verdict, v.Unserved → Q v m.lastReport h.device)
    (hrun : ∀ message handler, parseAgentMessage a.codec raw = .ok message →
      (messages a).lookup message.command = some handler →
      wp answer A (fun _ h' _ => P h'.device) (handler message.payload).run
        (fun r m' h' => P h'.device ∧ Ended
          (fun outcome => ∀ final, Q (.ran message outcome final) m'.lastReport h'.device)
          (fun _ => T h'.device) r)
        { m with failureIsPermanent := false } h) :
    wp answer A (fun _ h' _ => P h'.device) (a.telling.serve raw)
      (fun res m' h' => P h'.device ∧ ((∃ told, res = .ok (some told) ∧
        Q told.verdict m'.lastReport h'.device) ∨ (∃ what, res = .error what) ∧ T h'.device))
      m h := by
  -- the report, and a rest that only names the verdict
  have reported : ∀ {command reply : String} {outcome : Except String Unit}
      {rest : Act agent Memory String Verdict} {verdict : Verdict} {m' : Memory} {h' : Host},
      P h'.device → Q verdict m'.lastReport h'.device →
      (∀ h'', wp answer A (fun _ h' _ => P h'.device) rest.run
        (fun res m₂ h₂ => res = .ok verdict ∧ m₂ = m' ∧ h₂ = h'') m' h'') →
      wp answer A (fun _ h' _ => P h'.device)
        (report a command reply outcome >>= fun _ => rest).run
        (fun res m' h' => P h'.device ∧ ((∃ v, res = .ok v ∧ Q v m'.lastReport h'.device) ∨
          (∃ what, res = .error what) ∧ T h'.device)) m' h' := by
    intro command reply outcome rest verdict m' h' hP hQ hrest
    refine wp_seq_of (report_silent hP) ?_ fun _ _ _ hr => by cases hr.1
    rintro _ m₂ h₂ ⟨-, rfl, hd⟩
    refine wp_conseq (hrest h₂) ?_
    rintro _ _ _ ⟨rfl, rfl, rfl⟩
    rw [hd]
    exact ⟨hP, .inl ⟨_, rfl, hQ⟩⟩
  have hdispatch : wp answer A (fun _ h' _ => P h'.device) (dispatch a raw).run
      (fun res m' h' => P h'.device ∧ ((∃ v, res = .ok v ∧ Q v m'.lastReport h'.device) ∨
        (∃ what, res = .error what) ∧ T h'.device)) m h := by
    unfold dispatch
    cases hp : parseAgentMessage a.codec raw with
    | error e => exact reported hP (hunserved _ fun _ _ _ he => by cases he) fun _ => ⟨rfl, rfl, rfl⟩
    | ok message =>
        dsimp only
        split
        · exact reported hP (hunserved _ fun _ _ _ he => by cases he) fun _ => ⟨rfl, rfl, rfl⟩
        cases hl : (messages a).lookup message.command with
        | none => exact reported hP (hunserved _ fun _ _ _ he => by cases he) fun _ => ⟨rfl, rfl, rfl⟩
        | some handler =>
            refine wp_load_seq.mpr (wp_store_seq.mpr (wp_seq.mpr (wp_attempt.mpr ?_)))
            refine wp_conseq (hrun message handler hp hl) ?_
            rintro ended m₁ h₁ ⟨hP₁, hended⟩
            match ended, hended with
            | .ok u, hQ => exact reported hP₁ (hQ _) fun _ => ⟨rfl, rfl, rfl⟩
            | .error (.said reason), hQ => exact reported hP₁ (hQ _) fun _ => ⟨rfl, rfl, rfl⟩
            | .error (.threw what), hT => exact ⟨hP₁, .inr ⟨⟨what, rfl⟩, hT⟩⟩
  refine wp_seq_of hdispatch ?_ ?_
  · rintro v m₁ h₁ ⟨hP₁, ⟨_, he, hQ₁⟩ | ⟨⟨_, he⟩, -⟩⟩
    · cases he
      refine wp_seq.mpr (wp_attempt.mpr (wp_conseq settle_silent ?_))
      rintro ret m₂ h₂ ⟨hreport, rfl⟩
      refine ⟨hP₁, .inl ⟨⟨v, ret⟩, rfl, ?_⟩⟩
      rw [hreport]
      exact hQ₁
    · cases he
  · rintro e _ _ ⟨hP₁, ⟨_, he, -⟩ | ⟨-, hT⟩⟩
    · cases he
    · exact ⟨hP₁, .inr ⟨⟨e, rfl⟩, hT⟩⟩

/-- A message whose handler ran, and the run of the handler. -/
theorem serve_ran {raw : String} {told : Told} {m' : Memory} {message : AgentMessage}
    {outcome : Except String Unit} {final : Bool}
    (he : Exec answer A (a.telling.serve raw) m h (.done (.ok (some told)) m') h')
    (hv : told.verdict = .ran message outcome final) :
    ∃ handler m₁ h₁, parseAgentMessage a.codec raw = .ok message ∧
      (messages a).lookup message.command = some handler ∧
      Exec answer A (handler message.payload).run { m with failureIsPermanent := false } h
        (.done (outcome.mapError .said) m₁) h₁ ∧ h₁.device = h'.device ∧
      m₁.lastReport = m'.lastReport := by
  have hserved := serve_spec (a := a) (A := A) (m := m) (h := h) raw (P := fun _ => True)
    (Q := fun v said w => ∀ message outcome final, v = .ran message outcome final →
      ∃ handler m₁ h₁, parseAgentMessage a.codec raw = .ok message ∧
        (messages a).lookup message.command = some handler ∧
        Exec answer A (handler message.payload).run { m with failureIsPermanent := false } h
          (.done (outcome.mapError .said) m₁) h₁ ∧ h₁.device = w ∧ m₁.lastReport = said)
    (T := fun _ => True) trivial (fun v hno _ _ _ hran => absurd hran (hno _ _ _))
    fun message handler hp hl => ?_
  · obtain ⟨-, ⟨told', he', hq⟩ | ⟨⟨_, he'⟩, -⟩⟩ := wp_done he hserved
    · cases he'
      exact hq message outcome final hv
    · cases he'
  · refine wp_conseq (wp_itself _) fun r m₁ h₁ hexec => ⟨trivial, ?_⟩
    match r, hexec with
    | .ok _, hexec | .error (.said _), hexec =>
        intro _ _ _ _ hran
        cases hran
        exact ⟨handler, m₁, h₁, hp, hl, hexec, rfl, rfl⟩
    | .error (.threw _), _ => trivial

/-! ## The state file -/

/-- The state file of the engine names releases. -/
def AgentService.Names (a : AgentService) (w : World) : Prop :=
  ∀ cfg, a.engine = some cfg → Named cfg.installer w.fs

theorem names_of_stayed {cfg : Deploy.Config} {w w' : World} (hcfg : a.engine = some cfg)
    (hw : Stayed cfg w w') : a.Names w' := by
  intro cfg' hcfg'
  cases hcfg.symm.trans hcfg'
  exact hw.named

/-- What does not write the state file. -/
theorem wp_names {X : Path → Prop} {p : Program agent Memory α} (hp : Uses (Touching X) p)
    (hX : ∀ cfg, a.engine = some cfg → ¬ X cfg.installer.statePath) (hn : a.Names h.device) :
    wp answer A (fun _ h' _ => a.Names h'.device) p (fun _ _ h' => a.Names h'.device) m h := by
  have kept : ∀ {h' : Host}, HostWithin X h h' → a.Names h'.device := fun hw cfg hcfg =>
    Named.of_get (w := h.device) (hn cfg hcfg) (hw.files (hX cfg hcfg))
  exact wp_conseq (wp_hostWithin hp fun _ _ _ hw => kept hw) fun _ _ _ hw => kept hw

theorem wp_names_looking {p : Program agent Memory α} (hp : Uses Looking p)
    (hn : a.Names h.device) :
    wp answer A (fun _ h' _ => a.Names h'.device) p (fun _ _ h' => a.Names h'.device) m h :=
  wp_names hp (fun _ _ => id) hn

/-- What the engine does confined to its places. -/
theorem engine_stays {cfg : Deploy.Config} (hcfg : a.engine = some cfg) {p : Deploy.Task α}
    {P : Except EngineError α → Prop}
    (hp : ∀ (e : Engine) (w : World), Stayed cfg w w →
      wp Device.answer (fun _ _ _ => True) (fun _ => Confined cfg (fun _ _ => True) w) p.run
        (fun r _ w' => Stayed cfg w w' ∧ P r) e w)
    (hn : a.Names h.device) :
    wp answer A (fun _ h' _ => a.Names h'.device) (onEngine p : Act agent Memory EngineError α).run
      (fun r _ h' => Stayed cfg h.device h'.device ∧ P r) m h := by
  refine wp_onEngine (D := fun _ _ _ => True) (fun _ _ _ _ => trivial) ?_
  refine wp_mono (fun _ _ _ h => h) ?_ (fun _ _ _ h => h)
    (hp m.engine h.device ⟨hn cfg hcfg, fun _ _ => rfl⟩)
  intro _ w o ho
  exact names_of_stayed hcfg ho.toStayed

theorem throughEngine_stays {cfg : Deploy.Config} (hcfg : a.engine = some cfg)
    {p : Deploy.Task Unit}
    (hp : ∀ (e : Engine) (w : World), Stayed cfg w w →
      wp Device.answer (fun _ _ _ => True) (fun _ => Confined cfg (fun _ _ => True) w) p.run
        (fun _ _ w' => Stayed cfg w w') e w)
    (hn : a.Names h.device) :
    wp answer A (fun _ h' _ => a.Names h'.device) (throughEngine p).run
      (fun _ _ h' => Stayed cfg h.device h'.device) m h := by
  refine wp_seq.mpr (wp_attempt.mpr (wp_conseq (engine_stays (P := fun _ => True) hcfg
    (fun e w hw => wp_conseq (hp e w hw) fun _ _ _ h => ⟨h, trivial⟩) hn) ?_))
  rintro done m' h' ⟨hw, -⟩
  exact wp_orEngineError_seq (fun _ => hw) (fun _ _ => hw) fun _ _ => hw

theorem wp_orNoEngine_seq {k : Deploy.Config → Handler}
    {Q : Except Failure Unit → Memory → Host → Prop}
    (hk : ∀ cfg, a.engine = some cfg → wp answer A B (k cfg).run Q m h)
    (herr : Q (.error (.said noEngine)) { m with failureIsPermanent := true } h) :
    wp answer A B (orNoEngine a >>= k).run Q m h := by
  refine wp_orPermanent_seq (fun cfg he => hk cfg ?_) fun e he => ?_
  · cases hcfg : a.engine with
    | none =>
        rw [hcfg] at he
        cases he
    | some cfg' =>
        rw [hcfg] at he
        cases he
        rfl
  · cases hcfg : a.engine with
    | none =>
        rw [hcfg] at he
        cases he
        exact herr
    | some cfg' =>
        rw [hcfg] at he
        cases he

/-! ## Files of the active release -/

theorem looks_readJsonObject {p : Path} : Uses Looking (readJsonObject p).run := by
  refine .seq (looks_file fun _ => id) fun source => ?_
  cases source with
  | none => trivial
  | some buffer =>
      dsimp only
      cases buffer.parse with
      | none => trivial
      | some parsed =>
          dsimp only
          cases parsed.object? with
          | none => trivial
          | some object => trivial

theorem uses_writeJsonObject {X : Path → Prop} {p : Path} {document : Json.Fields}
    (hp : ∀ q, p <+: q → X q) (ht : ∀ q, Path.suffixed p ".tmp" <+: q → X q) :
    Uses (Touching X) (writeJsonObject p document).run := by
  have put : ∀ {x : Content},
      Touching X (.device (.file (.write (Path.suffixed p ".tmp") x))) := fun {x} => by
    refine touching_file ?_
    rintro q rfl
    exact ht _ List.prefix_rfl
  have away : Touching X (.device (.file (.remove (Path.suffixed p ".tmp")))) := by
    refine touching_file ?_
    rintro q rfl
    exact ht _ List.prefix_rfl
  refine .seq (.ask put) fun _ => .seq .conclude fun _ => .seq (.ask put) fun written => ?_
  cases written with
  | error e => exact .seq (.ask away) fun _ => trivial
  | ok _ =>
      refine .seq (.ask (touching_file fun q hq => hq.elim (ht q) (hp q))) fun replaced => ?_
      cases replaced with
      | error e => exact .seq (.ask away) fun _ => trivial
      | ok _ => trivial

/-! ## The handlers -/

theorem updateConfiguration_names {payload : String} (hn : a.Names h.device) :
    wp answer A (fun _ h' _ => a.Names h'.device) (updateConfiguration a payload).run
      (fun _ _ h' => a.Names h'.device) m h := by
  refine wp_orPermanent_seq (fun object _ => ?_) fun _ _ => hn
  refine wp_orPermanent_seq (fun request hreq => ?_) fun _ _ => hn
  obtain ⟨relative, values⟩ := request
  refine wp_orNoEngine_seq (fun cfg hcfg => ?_) hn
  refine wp_seq.mpr (wp_attempt.mpr (wp_conseq (engine_stays hcfg
    (fun _ _ hw => activeReleaseDirectory_confined hw) hn) ?_))
  rintro found m₁ h₁ ⟨hw, hroot⟩
  have hn₁ := names_of_stayed hcfg hw
  refine wp_orPermanent_seq (fun releaseRoot he => ?_) fun _ _ => hn₁
  obtain ⟨n, rfl⟩ := hroot releaseRoot (ok_of_mapError he)
  -- the file that is written is one of the active release
  have htarget : cfg.installer.releasesRoot ++ [n] <+:
      Path.join (cfg.installer.releasesRoot ++ [n]) relative := by
    obtain ⟨habs, hnormal⟩ := relative_of_request hreq
    exact Path.under_join habs hnormal
  refine wp_names (X := fun q => cfg.installer.releasesRoot <+: q) ?_ ?_ hn₁
  · have looks : ∀ {β : Type} {p : Program agent Memory β}, Uses Looking p →
        Uses (Touching fun q => cfg.installer.releasesRoot <+: q) p := fun hp => hp.mono fun o ho =>
      by
        cases o with
        | device o => exact ho.mono fun _ hq => hq.elim
        | _ => trivial
    refine .seq (looks (looks_file fun _ => id)) fun _ => uses_demand_seq fun _ => ?_
    refine .seq (looks looks_readJsonObject) fun loaded => uses_orPermanent_seq fun document _ => ?_
    refine .seq (uses_writeJsonObject (fun q hq => ?_) fun q hq => ?_) fun _ => uses_setReport
    · exact ((List.prefix_append _ _).trans htarget).trans hq
    · exact (under_suffixed htarget).trans hq
  · intro cfg' hcfg' hq
    cases hcfg.symm.trans hcfg'
    exact not_beside_releases (by decide) hq List.prefix_rfl

theorem looks_rebootDevice {payload : String} : Uses Looking (rebootDevice a payload).run :=
  uses_demand_seq fun _ => .seq (looks_call id) fun _ =>
    uses_orPermanent_seq fun _ _ => uses_setReport

/-- No handler makes the state file name anything but releases. -/
theorem handler_names (hb : a.Beside) {name : String} {handler : String → Handler}
    (hl : (messages a).lookup name = some handler) {payload : String} (hn : a.Names h.device) :
    wp answer A (fun _ h' _ => a.Names h'.device) (handler payload).run
      (fun _ _ h' => a.Names h'.device) m h := by
  obtain ⟨before, after, hsplit, -⟩ := List.lookup_eq_some_iff.mp hl
  have hmem : (name, handler) ∈ messages a := by
    rw [hsplit]
    exact List.mem_append_right _ List.mem_cons_self
  have cached : ∀ {p : Handler}, Uses (Touching (Near a.versionRoot)) p.run →
      wp answer A (fun _ h' _ => a.Names h'.device) p.run (fun _ _ h' => a.Names h'.device) m h :=
    fun hp => wp_names hp (fun cfg hcfg => hb.state hcfg) hn
  simp only [messages, List.mem_cons, Prod.mk.injEq, List.not_mem_nil, or_false] at hmem
  rcases hmem with ⟨-, rfl⟩ | ⟨-, rfl⟩ | ⟨-, rfl⟩ | ⟨-, rfl⟩ | ⟨-, rfl⟩ | ⟨-, rfl⟩ | ⟨-, rfl⟩ |
    ⟨-, rfl⟩
  · exact cached (cache_uses (Or.inr rfl) payload)
  · refine wp_orPermanent_seq (fun object _ => ?_) fun _ _ => hn
    refine wp_orPermanent_seq (fun r _ => wp_orNoEngine_seq (fun cfg hcfg => ?_) hn) fun _ _ => hn
    refine wp_seq.mpr (wp_conseq (wp_names_looking (looks_file fun _ => id) hn) ?_)
    rintro (e | there) m₁ h₁ hn₁
    · exact hn₁
    refine wp_demand_seq (fun _ => ?_) fun _ => hn₁
    exact wp_conseq (throughEngine_stays hcfg
      (fun _ _ hw => apply_confined hw fun _ => trivial) hn₁) fun _ _ _ => names_of_stayed hcfg
  · exact wp_names_looking looks_currentStatus hn
  · exact cached (cache_uses (Or.inl rfl) payload)
  · refine wp_orPermanent_seq (fun object _ => ?_) fun _ _ => hn
    refine wp_orPermanent_seq (fun r _ => wp_orNoEngine_seq (fun cfg hcfg => ?_) hn) fun _ _ => hn
    exact wp_conseq (throughEngine_stays hcfg (fun _ _ hw => rollbackTo_confined hw) hn)
      fun _ _ _ => names_of_stayed hcfg
  · exact updateConfiguration_names hn
  · refine wp_orNoEngine_seq (fun cfg hcfg => ?_) hn
    exact wp_conseq (throughEngine_stays hcfg
      (fun _ _ hw => noting_confined restart_uses hw) hn) fun _ _ _ => names_of_stayed hcfg
  · exact wp_names_looking looks_rebootDevice hn

/-! ## Runs -/

theorem boot_names (hn : a.Names h.device) :
    wp answer A (fun _ h' _ => a.Names h'.device) a.telling.boot
      (fun _ _ h' => a.Names h'.device) m h := by
  have hresume : wp answer A (fun _ h' _ => a.Names h'.device) (resumeActive a).run
      (fun _ _ h' => a.Names h'.device) m h := by
    unfold resumeActive
    cases hcfg : a.engine with
    | none => exact hn
    | some cfg =>
        refine wp_seq.mpr (wp_attempt.mpr (wp_conseq (engine_stays (P := fun _ => True)
          hcfg (fun e w hw => wp_conseq
            (noting_confined startActive_uses hw) fun _ _ _ h => ⟨h, trivial⟩) hn) ?_))
        rintro _ _ _ ⟨hw, -⟩
        exact names_of_stayed hcfg hw
  exact wp_seq_of hresume (fun _ _ _ hn => hn) fun _ _ _ hn => hn

/-- However an agent is killed and started, and whatever it is told, the state
file names releases. -/
theorem runs_named (hb : a.Beside) {K : Memory → Host → Op → Prop}
    {G : Memory → Host → String → Prop} {h₀ : Host} {ph : Phase Memory}
    (hn : a.Names h₀.device) (hr : Runs answer A K G a.telling h₀ ph h) : a.Names h.device := by
  have hinv := Runs.invariant (J := fun h : Host => a.Names h.device)
    (I := fun _ (h : Host) => a.Names h.device) (B := fun _ h _ => a.Names h.device) hn
    (fun _ _ _ hn _ => hn) (fun _ _ hn => hn) (fun h hn => boot_names hn) ?_ hr
  · cases ph with
    | down => exact hinv
    | up m => exact hinv
  · intro m h raw hn _
    refine wp_conseq (serve_spec raw (P := a.Names) (Q := fun _ _ _ => True) (T := fun _ => True)
      hn (fun _ _ => trivial) fun message handler _ hl => ?_) fun _ _ _ hserved => hserved.1
    exact wp_conseq (handler_names hb hl hn) fun _ _ _ hn' => ⟨hn', ended_trivial⟩

end Yirang.Agent
