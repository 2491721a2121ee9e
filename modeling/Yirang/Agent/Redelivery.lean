/-
# `Yirang.Agent.Redelivery` — a message that is handled twice

A queue may deliver a message again after it was handled.  Where both handlers
succeed, the second one leaves the device as the first did: the names in the
state file, all that the releases hold, the record, how the service was last
started, and the downloads.

    Same                         what counts of a device
    throughEngine_spec           what a command of the engine leaves
    redelivery_changes_nothing   any message but that of a reboot
    redelivery_forgets_previous  a rollback whose `stat` of the state file fails

What it takes: the calls whose failure passes for an answer do not fail where
there is something to find (`Candidly`), the store keeps what it has, and the
`prune` of an `apply` ends well, which the report says.
-/
import Yirang.Agent.Configured
import Yirang.Merge

namespace Yirang.Agent

open Fs Effect Device Deploy Install

variable {a : AgentService} {A : Host → Op → Turn → Prop} {stored : String → Content}
  {m : Memory} {h : Host} {payload r : String} {cfg : Deploy.Config}

/-- What counts of a device: the service, and the downloads. -/
structure Same (a : AgentService) (w w' : World) : Prop where
  service : ∀ cfg, a.engine = some cfg → SameService cfg w w'
  versions : ∀ q, a.versionRoot <+: q → w'.fs.get q = w.fs.get q

theorem Still.same {w w' : World} (hs : Still w w') : Same a w w' :=
  ⟨fun _ _ => sameService_of_files hs.files hs.launched, fun q _ => hs.files q⟩

/-! ## The commands of the engine -/

/-- What the engine leaves, and the report in its words. -/
theorem throughEngine_spec {p : Deploy.Task Unit}
    {Q : Except EngineError Unit → Engine → World → Prop}
    (hp : wp answer A Anywhere (onEngine p : Act agent Memory EngineError Unit).run
      (fun res m' h' => Q res m'.engine h'.device) m h) :
    wp answer A Anywhere (throughEngine p).run
      (fun res m' h' => res = .ok () → Q (.ok ()) m'.engine h'.device ∧
        m'.lastReport = m'.engine.lastDetail) m h := by
  refine wp_seq.mpr (wp_attempt.mpr (wp_conseq hp fun done m₁ h₁ hq => ?_))
  refine wp_orEngineError_seq (fun hdone => ?_) (fun _ _ he => by cases he) fun _ _ he => by cases he
  subst hdone
  exact fun _ => ⟨hq, rfl⟩

/-- The directory of a release and the place where its copy is made. -/
theorem staging_apart (hb : a.Beside) (hcfg : a.engine = some cfg)
    (hr : Artifact.validateReleaseId r = .ok ()) :
    Apart (a.versionDirectory r) (cfg.installer.stagingDirectory r) := by
  have hstaging : cfg.installer.releasesRoot <+: cfg.installer.stagingDirectory r := by
    rw [InstallOptions.stagingDirectory, Path.join_of_proper
      (properName_append (Artifact.releaseId_proper hr) (by decide) (by decide))]
    exact List.prefix_append _ _
  have hversion : a.versionRoot <+: a.versionDirectory r := by
    rw [versionDirectory_eq hr]
    exact List.prefix_append _ _
  constructor
  · intro hunder
    exact hb.not_serviced hcfg (hversion.trans hunder) (serviced_releases (Or.inr hstaging))
  · intro hunder
    exact hb.not_serviced hcfg hversion (serviced_releases (Or.inr (hstaging.trans hunder)))

/-- A payload that names a release. -/
def Releases (a : AgentService) (payload r : String) : Prop :=
  ∃ object, parseObject a.codec payload = .ok object ∧ validatedReleaseId object = .ok r

theorem Releases.unique {r' : String} (hr : Releases a payload r) (hr' : Releases a payload r') :
    r = r' := by
  obtain ⟨object, hobject, hid⟩ := hr
  obtain ⟨object', hobject', hid'⟩ := hr'
  cases hobject.symm.trans hobject'
  exact Except.ok.inj (hid.symm.trans hid')

theorem Releases.valid (hr : Releases a payload r) : Artifact.validateReleaseId r = .ok () := by
  obtain ⟨object, -, hid⟩ := hr
  obtain ⟨id, -, hid⟩ := bind_eq_ok.mp hid
  obtain ⟨u, hvalid, hid⟩ := bind_eq_ok.mp hid
  cases hid
  exact hvalid

/-- Where the engine stays, whatever is known in front of its calls. -/
theorem wp_stays {A : World → Device.Op → Choice → Prop} {p : Deploy.Task Unit} {e : Engine}
    {w : World}
    (hp : wp Device.answer A (fun _ => Confined cfg (fun _ _ => True) w) p.run
      (fun _ _ w' => Stayed cfg w w') e w) :
    wp Device.answer A Anywhere p.run (fun _ _ w' => Stayed cfg w w') e w :=
  wp_mono (fun _ _ _ h => h) (fun _ _ _ _ => trivial) (fun _ _ _ h => h) hp

/-- What a success of `apply_version` leaves. -/
structure Applies (a : AgentService) (cfg : Deploy.Config) (payload : String) (w : World)
    (m' : Memory) (w' : World) : Prop where
  releases : ∃ r, Releases a payload r ∧ AppliedFrom cfg r (a.versionDirectory r) w m'.engine w'
  alike : Alike (Serviced cfg) w w'
  report : m'.lastReport = m'.engine.lastDetail

theorem applyVersion_applies (hb : a.Beside) (hn : a.Names h.device) :
    wp answer (Candidly a stored) Anywhere (applyVersion a payload).run
      (fun res m' h' => res = .ok () → ∃ cfg, a.engine = some cfg ∧
        Applies a cfg payload h.device m' h'.device) m h := by
  refine wp_orPermanent_seq (fun object hobject => ?_) fun _ _ he => by cases he
  refine wp_orPermanent_seq (fun r hr => wp_orNoEngine_seq (fun cfg hcfg => ?_)
    fun he => by cases he) fun _ _ he => by cases he
  have hreleases : Releases a payload r := ⟨object, hobject, hr⟩
  refine wp_call_seq trivial fun c _ => wp_demand_seq (fun _ => ?_) fun _ he => by cases he
  have hfs : (answer c (.device (.file (.isDirectory (a.versionDirectory r)))) h).2.device.fs =
      h.device.fs := rfl
  revert hfs
  generalize (answer c (.device (.file (.isDirectory (a.versionDirectory r)))) h).2 = h₁
  intro hfs
  have hnamed : Named cfg.installer h₁.device.fs := hfs ▸ hn cfg hcfg
  have hstays : wp Device.answer (Candid a stored) Anywhere
      (Deploy.apply cfg r (a.versionDirectory r)).run
      (fun _ _ w' => Stayed cfg h₁.device w') m.engine h₁.device :=
    wp_stays (apply_confined ⟨hnamed, fun _ _ => rfl⟩ fun _ => trivial)
  have hengine : wp answer (Candidly a stored) Anywhere
      (onEngine (Deploy.apply cfg r (a.versionDirectory r)) : Act agent Memory EngineError Unit).run
      (fun res m' h' => (res = .ok () →
        AppliedFrom cfg r (a.versionDirectory r) h₁.device m'.engine h'.device) ∧
          Stayed cfg h₁.device h'.device) m h₁ :=
    wp_onEngine (D := Candid a stored) (fun _ _ _ hc => hc)
      (wp_both (apply_applies (candid_honest hcfg) (candid_sees hcfg) (candid_deletable hcfg r)
        (staging_apart hb hcfg hreleases.valid)) hstays)
  refine wp_conseq (throughEngine_spec
    (Q := fun res e w' => (res = .ok () →
      AppliedFrom cfg r (a.versionDirectory r) h₁.device e w') ∧ Stayed cfg h₁.device w') hengine) ?_
  intro res m' h' hdone hok
  obtain ⟨⟨happlied, hstayed⟩, hreport⟩ := hdone hok
  exact ⟨cfg, hcfg, ⟨r, hreleases, (happlied rfl).of_files hfs⟩,
    Alike.trans (fun _ _ => get_same hfs _) hstayed.alike, hreport⟩

/-- What a success of `rollback_version` leaves. -/
structure Rolls (a : AgentService) (cfg : Deploy.Config) (payload : String) (w w' : World) :
    Prop where
  releases : ∃ r, Releases a payload r ∧ RolledTo cfg r w w'
  alike : Alike (Serviced cfg) w w'

theorem rollbackVersion_rolls (hn : a.Names h.device) :
    wp answer (Candidly a stored) Anywhere (rollbackVersion a payload).run
      (fun res _ h' => res = .ok () → ∃ cfg, a.engine = some cfg ∧
        Rolls a cfg payload h.device h'.device) m h := by
  refine wp_orPermanent_seq (fun object hobject => ?_) fun _ _ he => by cases he
  refine wp_orPermanent_seq (fun r hr => wp_orNoEngine_seq (fun cfg hcfg => ?_)
    fun he => by cases he) fun _ _ he => by cases he
  have hstays : wp Device.answer (Candid a stored) Anywhere (rollbackTo cfg r).run
      (fun _ _ w' => Stayed cfg h.device w') m.engine h.device :=
    wp_stays (rollbackTo_confined ⟨hn cfg hcfg, fun _ _ => rfl⟩)
  have hengine : wp answer (Candidly a stored) Anywhere
      (onEngine (rollbackTo cfg r) : Act agent Memory EngineError Unit).run
      (fun res _ h' => (res = .ok () → RolledTo cfg r h.device h'.device) ∧
        Stayed cfg h.device h'.device) m h :=
    wp_onEngine (D := Candid a stored) (fun _ _ _ hc => hc)
      (wp_both (rollbackTo_rolls (candid_honest hcfg)) hstays)
  refine wp_conseq (throughEngine_spec (Q := fun res _ w' =>
    (res = .ok () → RolledTo cfg r h.device w') ∧ Stayed cfg h.device w') hengine) ?_
  intro res m' h' hdone hok
  obtain ⟨⟨hrolled, hstayed⟩, -⟩ := hdone hok
  exact ⟨cfg, hcfg, ⟨r, ⟨object, hobject, hr⟩, hrolled rfl⟩, hstayed.alike⟩

theorem restartService_restarts :
    wp answer (Candidly a stored) Anywhere (restartService a payload).run
      (fun res _ h' => res = .ok () → ∃ cfg, a.engine = some cfg ∧
        Restarted cfg h.device h'.device) m h := by
  refine wp_orNoEngine_seq (fun cfg hcfg => ?_) fun he => by cases he
  have hengine : wp answer (Candidly a stored) Anywhere
      (onEngine (restart cfg) : Act agent Memory EngineError Unit).run
      (fun res _ h' => res = .ok () → Restarted cfg h.device h'.device) m h :=
    wp_onEngine (D := Candid a stored) (fun _ _ _ hc => hc)
      (restart_restarts (candid_honest hcfg))
  refine wp_conseq (throughEngine_spec (Q := fun res _ w' =>
    res = .ok () → Restarted cfg h.device w') hengine) ?_
  intro res m' h' hdone hok
  exact ⟨cfg, hcfg, (hdone hok).1 rfl⟩

/-! ## The second time -/

section Again

variable {w w₁ w₂ : World} {m₁ m₂ : Memory}

/-- The engine leaves the downloads as they are. -/
theorem versions_of_alike (hb : a.Beside) (hcfg : a.engine = some cfg)
    (h : Alike (Serviced cfg) w w₁) {q : Path} (hq : a.versionRoot <+: q) :
    w₁.fs.get q = w.fs.get q :=
  h q (hb.not_serviced hcfg hq)

theorem same_of_service (hb : a.Beside) (hcfg : a.engine = some cfg)
    (hs : SameService cfg w₁ w₂) (h : Alike (Serviced cfg) w₁ w₂) : Same a w₁ w₂ := by
  refine ⟨fun cfg' hcfg' => ?_, fun q hq => versions_of_alike hb hcfg h hq⟩
  cases hcfg.symm.trans hcfg'
  exact hs

theorem Applies.again (hb : a.Beside) (hcfg : a.engine = some cfg)
    (hpruned : ∀ r, Releases a payload r → ∃ n, m₁.lastReport = prunedDetail r n)
    (h : Applies a cfg payload w m₁ w₁) (h' : Applies a cfg payload w₁ m₂ w₂) :
    Same a w₁ w₂ := by
  obtain ⟨r, hr, happlied⟩ := h.releases
  obtain ⟨r', hr', happlied'⟩ := h'.releases
  cases hr.unique hr'
  obtain ⟨n, hn⟩ := hpruned r hr
  refine same_of_service hb hcfg (happlied.again happlied' (h.report.symm.trans hn) fun x => ?_)
    h'.alike
  refine versions_of_alike hb hcfg h.alike ?_
  rw [versionDirectory_eq hr.valid, List.append_assoc]
  exact List.prefix_append _ _

theorem Rolls.again (hb : a.Beside) (hcfg : a.engine = some cfg) (h : Rolls a cfg payload w w₁)
    (h' : Rolls a cfg payload w₁ w₂) : Same a w₁ w₂ := by
  obtain ⟨r, hr, hrolled⟩ := h.releases
  obtain ⟨r', hr', hrolled'⟩ := h'.releases
  cases hr.unique hr'
  exact same_of_service hb hcfg (hrolled.again hrolled') h'.alike

/-- The values of a payload are as tidy as the payload. -/
theorem tidy_values {object values : Json.Fields} {relative : String}
    (htidy : ∀ s v, a.codec.parse s = .ok v → Json.Tidy v)
    (hobject : parseObject a.codec payload = .ok object)
    (hrequest : configurationRequest object = .ok (relative, values)) :
    Json.Tidy (.object values) := by
  have hparsed : Json.Tidy (.object object) := by
    unfold parseObject at hobject
    split at hobject
    · cases hobject
    · rename_i parsed hparse
      split at hobject
      · cases hobject
      · rename_i fields hfields
        cases hobject
        have ht := htidy payload parsed hparse
        cases parsed with
        | object fields' =>
            cases hfields
            exact ht
        | _ => cases hfields
  obtain ⟨path, -, hrequest⟩ := bind_eq_ok.mp hrequest
  obtain ⟨u, -, hrequest⟩ := bind_eq_ok.mp hrequest
  split at hrequest
  · cases hrequest
  · rename_i values' hvalues
    cases hrequest
    obtain ⟨v, hlookup, hv⟩ := Option.bind_eq_some_iff.mp hvalues
    cases v with
    | object fields =>
        cases hv
        exact hparsed.lookup hlookup
    | _ => cases hv

/-- A merged document has all the values already. -/
theorem mergeObject_again {values document : Json.Fields} (ht : Json.Tidy (.object values)) :
    (Json.mergeObject values (Json.mergeObject values document).1).1 =
      (Json.mergeObject values document).1 := by
  have hnone : Json.differing values (Json.mergeObject values document).1 = 0 :=
    Json.differs_again ht (some (.object document))
  rw [Json.mergeObject_of_differing hnone]

/-- The file that a payload is about is one of a release. -/
theorem configures_place {w : World} {p : Path} {values : Json.Fields} (hn : a.Names w)
    (hc : a.configures payload w p values) : ∃ cfg n, a.engine = some cfg ∧
      cfg.installer.releasesRoot ++ [n] <+: p := by
  obtain ⟨object, relative, cfg, -, hrequest, hcfg, hactive, rfl⟩ := hc
  obtain ⟨habs, hnormal⟩ := relative_of_request hrequest
  refine ⟨cfg, (cfg.stateOn w).active, hcfg, ?_⟩
  have hvalid : ValidId (cfg.stateOn w).active := hn cfg hcfg _ (Or.inl rfl) hactive
  rw [hvalid.releaseDirectory]
  exact Path.under_join habs hnormal

/-- The second time the file that is meant is the same, for the state file is,
and the document has all the values already. -/
theorem Merged.again (hn : a.Names w) (htidy : ∀ s v, a.codec.parse s = .ok v → Json.Tidy v)
    (h : Merged a payload w w₁) (h' : Merged a payload w₁ w₂) : Still w₁ w₂ := by
  obtain ⟨p, values, document, hc, -, hnew⟩ := h
  obtain ⟨p', values', document', hc', hold', hnew'⟩ := h'
  obtain ⟨cfg, n, hcfg, hplace⟩ := configures_place hn hc
  have hstate : w₁.fs.get cfg.installer.statePath = w.fs.get cfg.installer.statePath := by
    refine hnew.others _ ?_ ?_
    · rintro rfl
      exact not_beside_releases (by decide) ((List.prefix_append _ _).trans hplace) List.prefix_rfl
    · intro he
      have hunder : cfg.installer.releasesRoot <+: temporary p := under_suffixed hplace
      rw [← he] at hunder
      exact not_beside_releases (by decide) hunder List.prefix_rfl
  obtain ⟨object, relative, cfg₁, hobject, hrequest, hcfg₁, -, rfl⟩ := hc
  obtain ⟨object', relative', cfg', hobject', hrequest', hcfg', -, rfl⟩ := hc'
  cases hobject.symm.trans hobject'
  cases hrequest.symm.trans hrequest'
  cases hcfg.symm.trans hcfg₁
  cases hcfg.symm.trans hcfg'
  rw [stateOn_of_get hstate] at hold' hnew'
  obtain rfl : document' = (Json.mergeObject values document).1 := by
    cases hold'.symm.trans hnew.holds
    rfl
  rw [mergeObject_again (tidy_values htidy hobject hrequest)] at hnew'
  refine ⟨fun q => ?_, hnew'.launched⟩
  by_cases hq : q = Path.join (cfg.installer.releaseDirectory (cfg.stateOn w).active) relative
  · rw [hq]
    exact hnew'.holds.trans hnew.holds.symm
  · by_cases ht : q = temporary
      (Path.join (cfg.installer.releaseDirectory (cfg.stateOn w).active) relative)
    · rw [ht]
      exact hnew'.gone.trans hnew.gone.symm
    · exact hnew'.others q hq ht

/-- What is laid over the files a second time is there already. -/
theorem patched_again {f : Patch Content} (h : Patched f w.fs w₁.fs) (h' : Patched f w₁.fs w₂.fs)
    (hl : w₂.launched = w₁.launched) : Still w₁ w₂ :=
  ⟨h.again h', hl⟩

end Again

/-! ## Handled twice -/

/-- The handler of a message, run twice with success. -/
theorem handler_again {message : AgentMessage} {handler : String → Handler} {m m₁ m' m₂ : Memory}
    {h h₁ h' h₂ : Host} (hb : a.Beside) (hn : a.Names h.device) (hn₁ : a.Names h₁.device)
    (htidy : ∀ s v, a.codec.parse s = .ok v → Json.Tidy v)
    (hl : (messages a).lookup message.command = some handler)
    (hreboot : message.command ≠ Commands.kRebootDevice)
    (hpruned : ∀ r, a.applies message r → ∃ n, m₁.lastReport = prunedDetail r n)
    (he₁ : Exec answer (Candidly a stored) (handler message.payload).run m h (.done (.ok ()) m₁) h')
    (hreported : h'.device = h₁.device)
    (he₂ : Exec answer (Candidly a stored) (handler message.payload).run m' h₁
      (.done (.ok ()) m₂) h₂) : Same a h₁.device h₂.device := by
  obtain ⟨before, after, hsplit, -⟩ := List.lookup_eq_some_iff.mp hl
  have hmem : (message.command, handler) ∈ messages a := by
    rw [hsplit]
    exact List.mem_append_right _ List.mem_cons_self
  simp only [messages, List.mem_cons, Prod.mk.injEq, List.not_mem_nil, or_false] at hmem
  rcases hmem with ⟨-, rfl⟩ | ⟨hc, rfl⟩ | ⟨-, rfl⟩ | ⟨-, rfl⟩ | ⟨-, rfl⟩ | ⟨-, rfl⟩ | ⟨-, rfl⟩ |
    ⟨hc, -⟩
  · obtain ⟨r, artifacts, hasks, hlaid⟩ := wp_done he₁ download_lays rfl
    obtain ⟨r', artifacts', hasks', hlaid'⟩ := wp_done he₂ download_lays rfl
    obtain ⟨rfl, rfl⟩ := hasks.unique hasks'
    rw [hreported] at hlaid
    exact (patched_again hlaid hlaid'
      (wp_done he₂ (wp_launched (cache_uses (Or.inr rfl) _)))).same
  · obtain ⟨cfg, hcfg, happlied⟩ := wp_done he₁ (applyVersion_applies hb hn) rfl
    obtain ⟨cfg', hcfg', happlied'⟩ := wp_done he₂ (applyVersion_applies hb hn₁) rfl
    cases hcfg.symm.trans hcfg'
    rw [hreported] at happlied
    exact happlied.again hb hcfg (fun r hr => hpruned r ⟨hc, hr⟩) happlied'
  · exact (wp_done he₂ (wp_still (B := fun _ _ _ => True) looks_currentStatus
      fun _ _ _ _ => trivial)).same
  · have hemptied := wp_done he₁ clean_empties rfl
    rw [hreported] at hemptied
    exact (patched_again hemptied (wp_done he₂ clean_empties rfl)
      (wp_done he₂ (wp_launched (cache_uses (Or.inl rfl) _)))).same
  · obtain ⟨cfg, hcfg, hrolled⟩ := wp_done he₁ (rollbackVersion_rolls hn) rfl
    obtain ⟨cfg', hcfg', hrolled'⟩ := wp_done he₂ (rollbackVersion_rolls hn₁) rfl
    cases hcfg.symm.trans hcfg'
    rw [hreported] at hrolled
    exact hrolled.again hb hcfg hrolled'
  · have hmerged := (wp_done he₁ update_untorn).2.1 rfl
    have hmerged' := (wp_done he₂ update_untorn).2.1 rfl
    rw [hreported] at hmerged
    exact (hmerged.again hn htidy hmerged').same
  · obtain ⟨cfg, hcfg, hrestarted⟩ := wp_done he₁ restartService_restarts rfl
    obtain ⟨cfg', hcfg', hrestarted'⟩ := wp_done he₂ restartService_restarts rfl
    cases hcfg.symm.trans hcfg'
    rw [hreported] at hrestarted
    exact same_of_service hb hcfg (hrestarted.again hrestarted') fun q hq =>
      hrestarted'.files q fun hx => hq (serviced_noting hx)
  · exact absurd hc hreboot

theorem ran_of_succeeded {v : Verdict} (hv : v.succeeded = true) :
    ∃ message final, v = .ran message (.ok ()) final := by
  cases v with
  | ran message outcome final =>
      cases outcome with
      | ok u => exact ⟨message, final, rfl⟩
      | error e => cases hv
  | _ => cases hv

/-- Wherever an agent has come to, and whatever it is told but to reboot: when
a message is handled twice in a row, and succeeds both times, nothing that
counts is different after the second time. -/
theorem redelivery_changes_nothing {raw : String} {h₀ h h₁ h₂ : Host} {m m₁ m₂ : Memory}
    {told₁ told₂ : Told} (hb : a.Beside) (hn : a.Names h₀.device)
    (htidy : ∀ s v, a.codec.parse s = .ok v → Json.Tidy v)
    (hr : Runs answer (fun _ _ _ => True) (fun _ _ _ => True) (fun _ _ _ => True) a.telling h₀
      (.up m) h)
    (he₁ : Exec answer (Candidly a stored) (a.telling.serve raw) m h
      (.done (.ok (some told₁)) m₁) h₁)
    (he₂ : Exec answer (Candidly a stored) (a.telling.serve raw) m₁ h₁
      (.done (.ok (some told₂)) m₂) h₂)
    (hok₁ : told₁.verdict.succeeded = true) (hok₂ : told₂.verdict.succeeded = true)
    (hreboot : ∀ message, parseAgentMessage a.codec raw = .ok message →
      message.command ≠ Commands.kRebootDevice)
    (hpruned : ∀ message r, parseAgentMessage a.codec raw = .ok message → a.applies message r →
      ∃ n, m₁.lastReport = prunedDetail r n) : Same a h₁.device h₂.device := by
  have hr₁ := Runs.call raw hr trivial (he₁.mono fun _ _ _ _ => trivial)
  have hnamed := runs_named hb hn hr
  have hnamed₁ := runs_named hb hn hr₁
  obtain ⟨message, final, hv₁⟩ := ran_of_succeeded hok₁
  obtain ⟨message', final', hv₂⟩ := ran_of_succeeded hok₂
  obtain ⟨handler, n₁, g₁, hp, hl, hexec₁, hdevice₁, hreport⟩ := serve_ran he₁ hv₁
  obtain ⟨handler', n₂, g₂, hp', hl', hexec₂, hdevice₂, -⟩ := serve_ran he₂ hv₂
  cases hp.symm.trans hp'
  cases hl.symm.trans hl'
  refine hdevice₂ ▸ handler_again hb hnamed hnamed₁ htidy hl (hreboot message hp)
    (fun r happlies => ?_) hexec₁ hdevice₁ hexec₂
  rw [hreport]
  exact hpruned message r hp happlies

/-! ## An update that is handled twice -/

/-- What was told at the end of a run. -/
def told? : Outcome agent Memory (Except String (Option Told)) → Option (Told × Memory)
  | .done (.ok (some told)) m => some (told, m)
  | _ => none

theorem done_of_told? {out : Outcome agent Memory (Except String (Option Told))}
    (ht : (told? out).isSome = true) :
    out = .done (.ok (some ((told? out).get ht).1)) ((told? out).get ht).2 := by
  unfold told? at ht
  split at ht
  · rfl
  · cases ht

/-- A call that goes well and fetches nothing. -/
def fine : Op → Turn → Bool
  | .device (.download _ _), _ => false
  | _, c => c.chance.fault.isNone

theorem candidly_of_fine {h : Host} {o : Op} {c : Turn} (hf : fine o c = true) :
    Candidly a stored h o c := by
  cases o with
  | device o =>
      cases o with
      | file o => exact fun _ _ _ => Option.isNone_iff_eq_none.mp hf
      | download k d => cases hf
      | _ => trivial
  | _ => trivial

theorem exec_of_fine {α : Type} {p : Program agent Memory α} {cs : List Turn} {m : Memory} {h : Host}
    {out : Outcome agent Memory α} (hf : p.Admits answer (fun _ o c => fine o c = true) cs m h)
    (hr : (p.run answer cs m h).1 = out) :
    Exec answer (Candidly a stored) p m h out (p.run answer cs m h).2 :=
  (exec_of_run hf hr).mono fun _ _ _ hf => candidly_of_fine hf

namespace Sample

def once : Outcome agent Memory (Except String (Option Told)) × Host :=
  (tunes.telling.serve "update").run answer (List.replicate 8 {}) {} tuned

theorem once_told : (told? once.1).isSome = true := by decide +kernel

def twice : Outcome agent Memory (Except String (Option Told)) × Host :=
  (tunes.telling.serve "update").run answer (List.replicate 8 {})
    ((told? once.1).get once_told).2 once.2

theorem twice_told : (told? twice.1).isSome = true := by decide +kernel

/-- A library that knows tidy texts only. -/
theorem tidy_codec {texts : List (String × Json)} (htidy : ∀ e ∈ texts, Json.Tidy e.2) {s : String}
    {v : Json} (h : (codec texts).parse s = .ok v) : Json.Tidy v := by
  dsimp only [codec] at h
  split at h
  · rename_i hlookup
    cases h
    exact htidy _ (Json.mem_of_lookup hlookup)
  · cases h

theorem tidy_tunes {s : String} {v : Json} (h : tunes.codec.parse s = .ok v) : Json.Tidy v := by
  refine tidy_codec ?_ h
  simp [command, Json.Tidy, Json.TidyFields]

theorem tunes_names : tunes.Names configured.device := by
  intro cfg hcfg
  have hstate : onDisk cfg.installer configured.device.fs = ⟨"r1", "", "then"⟩ := by
    cases hcfg
    exact onDisk_of_file (o := (configurations.makeEngine.get rfl).installer) rfl
  rintro r (rfl | rfl) hne
  · rw [hstate]
    exact ⟨by decide, by decide⟩
  · exact absurd (congrArg ActivationState.previous hstate) hne

end Sample

/-- The port is set, and set again. -/
theorem redelivery_changes_nothing_update :
    (told? Sample.twice.1).any (fun t => t.1.verdict.succeeded) = true ∧
      Same Sample.tunes Sample.once.2.device Sample.twice.2.device := by
  have hboot : Exec answer (fun _ _ _ => True) Sample.tunes.telling.boot {} Sample.configured
      (.done (.ok none) {}) Sample.tuned :=
    exec_freely _ _ _ _ _ rfl
  have honce : Exec answer (Candidly Sample.tunes fun _ => .text "")
      (Sample.tunes.telling.serve "update") {} Sample.tuned
      (.done (.ok (some ((told? Sample.once.1).get Sample.once_told).1))
        ((told? Sample.once.1).get Sample.once_told).2) Sample.once.2 :=
    exec_of_fine (by decide +kernel) (done_of_told? Sample.once_told)
  refine ⟨by decide +kernel, redelivery_changes_nothing Sample.tunes_beside
    Sample.tunes_names (fun _ _ => Sample.tidy_tunes) (.boot .first hboot) honce
    (exec_of_fine (by decide +kernel) (done_of_told? Sample.twice_told)) (by decide +kernel)
    (by decide +kernel) ?_ ?_⟩
  · intro message hp
    cases hp
    decide
  · rintro message r hp ⟨hc, -⟩
    cases hp
    exact absurd hc (by decide)

/-! ## A rollback that is handled twice -/

namespace Sample

/-- Its message rolls back to `r1`. -/
def switches : AgentService :=
  configurations.agentService (codec
    [("back", command Commands.kRollbackVersion "r1"),
      ("r1", .object [("release_id", .string "r1")])])

/-- `r1` is active, and `r2` was before it. -/
def paired : Host where
  device := .idle (.ofFiles
    [(["srv", "releases", "r1", "app"], .text "one"),
      (["srv", "releases", "r2", "app"], .text "two"),
      (["srv", "state.json"], .json (ActivationState.toJson ⟨"r1", "r2", "then"⟩))]) "boot"

/-- The agent starts, and no process can be made. -/
def idling : Host := (switches.telling.boot.run answer (List.replicate 6 {}) {} paired).2

/-- A run of `n` calls that go well, but for these. -/
def turns (n : Nat) (special : List (Nat × Turn)) : List Turn :=
  (List.range n).map fun i => (special.lookup i).getD {}

/-- The thirteenth call starts `r1`. -/
def back : Outcome agent Memory (Except String (Option Told)) × Host :=
  (switches.telling.serve "back").run answer (turns 17 [(12, { handle := ⟨7, 1⟩ })]) {} idling

theorem back_told : (told? back.1).isSome = true := by decide +kernel

/-- The fifth call is the `stat` of the state file. -/
def backAgain : Outcome agent Memory (Except String (Option Told)) × Host :=
  (switches.telling.serve "back").run answer
    (turns 18 [(4, failing), (13, { handle := ⟨8, 1⟩ })]) ((told? back.1).get back_told).2 back.2

theorem backAgain_told : (told? backAgain.1).isSome = true := by decide +kernel

end Sample

/-- When the rollback comes again the `stat` of the state file fails: it
succeeds, and has forgotten the release that was before. -/
theorem redelivery_forgets_previous :
    ∃ message h m₁ h₁ m₂ h₂ told₁ told₂, Sample.switches.Beside ∧
      parseAgentMessage Sample.switches.codec "back" = .ok message ∧
      message.command = Commands.kRollbackVersion ∧
      Runs answer (fun _ _ _ => True) (fun _ _ _ => True) (fun _ _ _ => True)
        Sample.switches.telling Sample.paired (.up {}) h ∧
      Exec answer (fun _ _ _ => True) (Sample.switches.telling.serve "back") {} h
        (.done (.ok (some told₁)) m₁) h₁ ∧
      Exec answer (fun _ _ _ => True) (Sample.switches.telling.serve "back") m₁ h₁
        (.done (.ok (some told₂)) m₂) h₂ ∧
      told₁.verdict.succeeded = true ∧ told₂.verdict.succeeded = true ∧
      ¬ Same Sample.switches h₁.device h₂.device := by
  have hboot : Exec answer (fun _ _ _ => True) Sample.switches.telling.boot {} Sample.paired
      (.done (.ok none) {}) Sample.idling :=
    exec_freely _ _ _ _ _ rfl
  have honce := exec_freely answer _ _ _ _ (done_of_told? Sample.back_told)
  have htwice := exec_freely answer _ _ _ _ (done_of_told? Sample.backAgain_told)
  refine ⟨_, _, _, _, _, _, _, _, Sample.tunes_beside, rfl, rfl, .boot .first hboot, honce,
    htwice, by decide +kernel, by decide +kernel, fun hsame => ?_⟩
  have hbefore : (Deploy.Config.stateOn (Sample.configurations.makeEngine.get rfl)
      Sample.back.2.device).previous = "r2" := by decide +kernel
  have hafter : (Deploy.Config.stateOn (Sample.configurations.makeEngine.get rfl)
      Sample.backAgain.2.device).previous = "" := by decide +kernel
  have hprevious := (hsame.service _ rfl).previous
  exact absurd (hafter.symm.trans (hprevious.trans hbefore)) (by decide)

end Yirang.Agent
