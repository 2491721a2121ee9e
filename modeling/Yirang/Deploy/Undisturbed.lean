/-
# `Yirang.Deploy.Undisturbed` — what an `apply` leaves that fails before the switch

`apply` installs the release first, then stops the service, then moves the
pointer.  Where one of these fails the state file is as it was:

    checks              nothing was done
    install             the release is as it was, or set aside; the service runs
    state               the release is the new one; the service runs
    stop                the release is the new one; the service runs, if it was
                        the supervisor that failed
    activate            the release is the new one; the active one was started
                        again, if that went well

A new copy that was published is not taken back: where the release was the
active or the previous one, its files are the new ones all the same.
-/
import Yirang.Install.Copying
import Yirang.Install.Publish
import Yirang.Deploy.Outage
import Yirang.Deploy.Recovery

namespace Yirang.Deploy

open Fs Effect Device Install

variable {cfg : Config} {A : World → Op → Choice → Prop} {m m' : Engine} {w w' w'' : World}
  {r a : String} {p : Process} {source : Path} {e : EngineError}

/-! ## What is left -/

namespace EngineError

/-- The errors of the checks in front of the installation. -/
def ofChecks : EngineError → Bool
  | notConfigured | executableNotConfigured | pathEmpty _ | pathOutside _ _ => true
  | _ => false

/-- The errors after which the instance may have been stopped. -/
def stops : EngineError → Bool
  | cannotStop (supervisor _) => false
  | cannotStop _ | cannotActivate _ _ _ => true
  | _ => false

end EngineError

/-- The directory of the release is a new copy of the source. -/
structure Renewed (o : InstallOptions) (A : World → Op → Choice → Prop) (r : String)
    (source : Path) (w w' : World) : Prop where
  there : w'.fs.isDir (o.releaseDirectory r) = true
  files : Deletable o r A → ∀ x c, w'.fs.get (o.releaseDirectory r ++ x) = some (.file c) ↔
    w.fs.get (source ++ x) = some (.file c) ∧ ¬ o.stagingDirectory r <+: source ++ x

/-- The directory of the release after an error. -/
inductive Reinstalled (o : InstallOptions) (A : World → Op → Choice → Prop) (r : String)
    (source : Path) (w w' : World) : EngineError → Prop
  | untouched {e : EngineError} : e.ofChecks = true →
      Carries w (o.releaseDirectory r) w' (o.releaseDirectory r) →
      Reinstalled o A r source w w' e
  | failed {e : InstallError} : Unpublished o A r w w' e →
      Reinstalled o A r source w w' (.installer e)
  | renewed {e : EngineError} : e.ofChecks = false → Renewed o A r source w w' →
      Reinstalled o A r source w w' e

/-- The supervisor can start the release `a`: its executable is there, and
nothing fails that a start of it needs. -/
structure Startable (cfg : Config) (A : World → Op → Choice → Prop) (a : String) (w : World) :
    Prop where
  release : ValidId a
  there : (w.fs.get (cfg.executable a)).isSome
  readable : Faithful cfg.installer A
  found : ∀ w c, A w (.file (.exists_ (cfg.executable a))) c → c.chance.fault = none
  permitted : ∀ w c, A w (.file (.addExec (cfg.executable a))) c → c.chance.fault = none
  obeyed : ∀ w c, A w (.start (cfg.startOptions a)) c → Commanded w (.start (cfg.startOptions a)) c

/-- The instance of the active release is `p`, and `apply r source` failed
with `e` before it moved the pointer. -/
structure Undisturbed (cfg : Config) (A : World → Op → Choice → Prop) (r : String)
    (source : Path) (p : Process) (w : World) (m' : Engine) (w' : World) (e : EngineError) :
    Prop where
  state : w'.fs.get cfg.installer.statePath = w.fs.get cfg.installer.statePath
  others : ∀ n, ValidId n → n ≠ r →
    Carries w (cfg.installer.releaseDirectory n) w' (cfg.installer.releaseDirectory n)
  own : Reinstalled cfg.installer A r source w w' e
  same : e.stops = false → Serving cfg m' w' p
  restarted : ∀ ie b, e = .cannotActivate r ie b →
    b = true ∨ Startable cfg A (cfg.activeOn w) w' → cfg.Serves w'

theorem Renewed.carries {o : InstallOptions} (h : Renewed o A r source w w')
    (hc : Carries w' (o.releaseDirectory r) w'' (o.releaseDirectory r)) :
    Renewed o A r source w w'' := by
  refine ⟨hc.isDir.trans h.there, fun hA x c => ?_⟩
  rw [hc x]
  exact h.files hA x c

theorem Startable.of_get (h : Startable cfg A a w)
    (hget : w'.fs.get (cfg.executable a) = w.fs.get (cfg.executable a)) :
    Startable cfg A a w' :=
  { h with there := by rw [hget]; exact h.there }

theorem not_noting_release (ha : ValidId a) (x : Path) :
    ¬ Noting cfg (cfg.installer.releaseDirectory a ++ x) := by
  rw [ha.releaseDirectory, InstallOptions.releasesRoot, List.append_assoc, List.append_assoc]
  exact not_noting (by decide) (by decide)

/-! ## Installing, and reading the state -/

theorem install_quiet : Uses (Quiet cfg) (install cfg.installer r source).run := by
  refine (uses_both (install_uses source) install_copying).mono fun op ⟨ht, hc⟩ => ?_
  refine ⟨ht.2, fun h n he => ?_, fun hw => installs_spares_state (ht.1 _ hw)⟩
  subst he
  cases hc with
  | filing hf => cases hf

theorem state_quiet : Uses (Quiet cfg) (state cfg.installer).run := by
  refine (uses_both (state_uses (X := Untouched)) state_filing).mono fun op ⟨ht, hf⟩ => ?_
  refine ⟨ht.2, fun h n he => ?_, fun hw => ht.1 _ hw⟩
  subst he
  cases hf

theorem Serving.keeps (h : Serving cfg m w p) (hk : Keeps cfg (cfg.activeOn w) w w') :
    Serving cfg m w' p := by
  refine ⟨(hk.live h.runs).mpr h.alive, h.held, h.runs.trans ?_⟩
  rw [Config.activeOn, Config.activeOn, onDisk_of_get hk.state]

/-! ## Stopping -/

/-- Where the supervisor fails the instance is still held, and lives; where
all goes well there is neither an instance nor a record. -/
theorem stop_leaves (h : Serving cfg m w p)
    (hA : ∀ w' o c, A w' o c → Undying cfg (cfg.activeOn w) w' c) :
    wp answer A Anywhere (stop cfg).run
      (fun res m' w' =>
        (∀ why, res = .error (.supervisor why) → Serving cfg m' w' p) ∧
        (res = .ok () → m'.handle = none ∧ w'.fs.get cfg.recordPath = none)) m w := by
  refine wp_load_seq.mpr ?_
  rw [h.held]
  refine wp_seq.mpr (wp_orFail.mpr (wp_ask.mpr ⟨trivial, fun c hc => ?_⟩))
  cases hr : (answer c (.stop p.handle cfg.service.stopTimeout) w).1 with
  | error why =>
      obtain ⟨hfs, hlive⟩ := stop_error hr
      refine ⟨fun _ _ => ⟨?_, h.held, h.runs.trans ?_⟩, fun hok => by cases hok⟩
      · rw [hlive]
        refine List.mem_filter.mpr ⟨h.alive, ?_⟩
        simpa using hA _ _ _ hc p h.alive h.runs
      · rw [Config.activeOn, Config.activeOn, hfs]
  | ok _ =>
      refine wp_setHandle_seq.mpr (wp_orFail.mpr (wp_file.mpr ⟨trivial, fun c' _ => ?_⟩))
      cases hrem : (answer c' (.file (.remove cfg.recordPath))
          (answer c (.stop p.handle cfg.service.stopTimeout) w).2).1 with
      | error why => exact ⟨fun _ hw => (by cases hw), fun hok => by cases hok⟩
      | ok _ =>
          refine ⟨fun _ hw => (by cases hw), fun _ => ⟨rfl, ?_⟩⟩
          rw [remove_ok hrem, FileTree.get_removeAll, if_pos List.prefix_rfl]

/-! ## Starting the active release again -/

theorem exists_answer {c : Choice} {q : Path} :
    (answer c (.file (.exists_ q)) w).1 = (c.chance.fault.isNone && (w.fs.get q).isSome) := rfl

/-- Only a fault ends it. -/
theorem makeExecutable_fine {q : Path} :
    wp answer A Anywhere (makeExecutable cfg q).run
      (fun res _ _ => (∀ w c, A w (.file (.addExec q)) c → c.chance.fault = none) →
        res = .ok ()) m w := by
  refine wp_seq.mpr (wp_file.mpr ⟨trivial, fun c _ => ?_⟩)
  generalize (answer c (.file (.ownerExec q)) w).2 = w₁
  refine wp_provided.mpr ?_
  split
  · refine wp_orFail.mpr (wp_file.mpr ⟨trivial, fun c' hc' hfine => ?_⟩)
    have hok : (answer c' (.file (.addExec q)) w₁).1 = .ok () := by
      show (FileOp.answer c'.chance (.addExec q) w₁.fs).1 = .ok ()
      simp only [FileOp.answer, hfine _ _ hc']
    rw [hok]
    rfl
  · exact fun _ => rfl

/-- A launch that goes well leaves an instance alive, and one that can go
well does. -/
theorem launch_serves (hvalid : cfg.validateServiceExecutable = .ok ())
    (hA : ∀ w o c, A w o c → Undying cfg a w c) :
    wp answer A Anywhere (launch cfg a).run
      (fun res _ w' => res = .ok () ∨ Startable cfg A a w →
        ∃ q ∈ w'.live, q.options = cfg.startOptions a) m w := by
  have failed : ∀ {e : EngineError} {w' : World}, ¬ Startable cfg A a w →
      (.error e : Except EngineError Unit) = .ok () ∨ Startable cfg A a w →
        ∃ q ∈ w'.live, q.options = cfg.startOptions a := by
    rintro e w' hno (h | h)
    · cases h
    · exact absurd h hno
  refine wp_seq.mpr (wp_conclude.mpr ?_)
  rw [hvalid]
  refine wp_seq.mpr (wp_file.mpr ⟨trivial, fun c hc => ?_⟩)
  cases hex : (answer c (.file (.exists_ (cfg.executable a))) w).1 with
  | false =>
      refine failed fun h => ?_
      rw [exists_answer, h.found _ _ hc, h.there] at hex
      cases hex
  | true =>
      refine wp_require_seq.mpr (wp_seq.mpr (wp_conseq makeExecutable_fine ?_))
      rintro (e | _) _ w₂ hfine
      · refine failed fun h => ?_
        cases hfine h.permitted
      refine wp_seq.mpr (wp_orFail.mpr (wp_ask.mpr ⟨trivial, fun c₂ hc₂ => ?_⟩))
      cases hr : (answer c₂ (.start (cfg.startOptions a)) w₂).1 with
      | error why =>
          refine failed fun h => ?_
          cases hr.symm.trans (start_commanded (h.obeyed _ _ hc₂))
      | ok started =>
          have hspawn := start_ok hr
          refine wp_conseq (wp_keeps hA (recordStarted_quiet.mono fun _ h => h.1)) ?_
          exact fun _ _ w' hk _ => ⟨_, (hk.live rfl).mpr hspawn.alive, rfl⟩

/-- With neither an instance nor a record, the active release is launched. -/
theorem startActive_serves (hconf : cfg.configured = true)
    (hvalid : cfg.validateServiceExecutable = .ok ()) (hnone : m.handle = none)
    (hrec : w.fs.get cfg.recordPath = none)
    (hA : ∀ w' o c, A w' o c → Undying cfg (cfg.activeOn w) w' c) :
    wp answer A Anywhere (startActive cfg).run
      (fun res _ w' => res = .ok () ∨ Startable cfg A (cfg.activeOn w) w →
        ∃ q ∈ w'.live, q.options = cfg.startOptions (cfg.activeOn w)) m w := by
  have hnamed : Startable cfg A (cfg.activeOn w) w → cfg.activeOn w ≠ "" := fun h =>
    (Path.properName_iff.mp h.release.proper).1
  have failed : ∀ {e : EngineError} {w' : World}, ¬ Startable cfg A (cfg.activeOn w) w →
      (.error e : Except EngineError Unit) = .ok () ∨ Startable cfg A (cfg.activeOn w) w →
        ∃ q ∈ w'.live, q.options = cfg.startOptions (cfg.activeOn w) := by
    rintro e w' hno (h | h)
    · cases h
    · exact absurd h hno
  refine wp_require_seq.mpr ?_
  rw [if_pos hconf]
  refine wp_seq.mpr (wp_installing.mpr (wp_conseq state_reads ?_))
  rintro (ie | current) _ w₁ ⟨hfs, hread, hfault⟩
  · refine failed fun h => hnamed h ?_
    exact congrArg ActivationState.active ((hfault ie rfl).2 h.readable)
  have hcurrent := hread current rfl
  refine wp_require_seq.mpr ?_
  split
  · rename_i hactive
    -- the state file was seen, for the empty state names no release
    have hname : current.active = cfg.activeOn w := by
      rcases hcurrent with rfl | ⟨rfl, -⟩
      · rfl
      · exact absurd rfl (of_decide_eq_true hactive)
    rw [hname]
    refine wp_seq.mpr (wp_seq.mpr (wp_seq.mpr (wp_file.mpr ⟨trivial, fun c _ => ?_⟩)))
    have hgone : (answer c (.file (.exists_ cfg.recordPath)) w₁).1 = false := by
      rw [exists_answer, hfs, hrec]
      exact Bool.and_false _
    rw [hgone]
    refine wp_load_seq.mpr ?_
    rw [hnone]
    refine wp_conseq (launch_serves hvalid hA) ?_
    exact fun _ _ w' h hs => h (hs.imp_right fun hs => hs.of_get (get_same hfs _))
  · rename_i hactive
    refine failed fun h => hnamed h ?_
    rw [Config.activeOn, ← hcurrent.honest h.readable.honest]
    simpa using hactive

/-! ## The operation -/

theorem ofChecks_of_executable (h : cfg.validateServiceExecutable = .error e) :
    e.ofChecks = true := by
  unfold Config.validateServiceExecutable at h
  split at h
  · cases h
    rfl
  · unfold validateReleaseRelativePath at h
    split at h
    · cases h
      rfl
    · split at h
      · cases h
        rfl
      · cases h

theorem Recovered.late {s s' : ActivationState} {res : Except EngineError Unit}
    (h : Recovered cfg A r w s s' res) : ∀ e, res = .error e → e.beforeSwitch = false := by
  rintro e rfl
  cases h with
  | stuck _ => rfl
  | astray _ _ _ _ => rfl
  | back _ _ _ hback => cases e <;> first | rfl | cases hback

/-- What is left of the release and of the instance after an error in front
of the switch. -/
def Left (cfg : Config) (A : World → Op → Choice → Prop) (r : String) (source : Path)
    (p : Process) (w : World) (res : Except EngineError Unit) (m' : Engine) (w' : World) : Prop :=
  ∀ e, res = .error e → e.beforeSwitch = true →
    Reinstalled cfg.installer A r source w w' e ∧
    (e.stops = false → Serving cfg m' w' p) ∧
    ∀ ie b, e = .cannotActivate r ie b →
      b = true ∨ Startable cfg A (cfg.activeOn w) w' → cfg.Serves w'

/-- Nothing was stopped. -/
theorem Left.running (hown : Reinstalled cfg.installer A r source w w' e)
    (hrun : Serving cfg m' w' p) (he : ∀ ie b, e ≠ .cannotActivate r ie b) :
    Left cfg A r source p w (.error e) m' w' := by
  rintro _ ⟨⟩ _
  exact ⟨hown, fun _ => hrun, fun ie b h => absurd h (he ie b)⟩

/-- The pointer could not be moved, and the active release is started again. -/
theorem restore_leaves {w₀ : World} {ie : InstallError} (hr : ValidId r)
    (hnew : Renewed cfg.installer A r source w₀ w) (hactive : cfg.activeOn w = cfg.activeOn w₀)
    (hconf : cfg.configured = true) (hvalid : cfg.validateServiceExecutable = .ok ())
    (hnone : m.handle = none) (hrec : w.fs.get cfg.recordPath = none)
    (hA : ∀ w' o c, A w' o c → Undying cfg (cfg.activeOn w₀) w' c) :
    wp answer A Anywhere
      (attempt (startActive cfg) >>= fun restored =>
        (throw (.cannotActivate r ie (restored matches .ok _)) : Task Unit)).run
      (Left cfg A r source p w₀) m w := by
  refine wp_seq.mpr (wp_attempt.mpr (wp_conseq (wp_both
    (startActive_serves hconf hvalid hnone hrec (hactive ▸ hA)) (wp_alike startActive_uses)) ?_))
  rintro restored m' w' ⟨hserves, halike⟩ _ ⟨⟩ _
  refine ⟨.renewed rfl (hnew.carries fun x => halike _ (not_noting_release hr x)),
    fun hs => (by cases hs), fun ie' b he hb => ?_⟩
  have hexe : ∀ {a}, ValidId a →
      w.fs.get (cfg.executable a) = w'.fs.get (cfg.executable a) := fun ha => by
    obtain ⟨x, hx⟩ := executable_inside hvalid
    rw [← hx]
    exact (halike _ (not_noting_release ha x)).symm
  obtain ⟨q, hq, ho⟩ := hserves (by
    rcases hb with hb | hb
    · cases he
      cases restored with
      | error e => cases hb
      | ok _ => exact Or.inl rfl
    · rw [hactive]
      exact Or.inr (hb.of_get (hexe hb.release)))
  refine ⟨q, hq, ho.trans ?_⟩
  rw [Config.activeOn, Config.activeOn, onDisk_of_get (get_alike halike)]

theorem apply_leaves (h : Serving cfg m w p)
    (hA : ∀ w' o c, A w' o c → Undying cfg (cfg.activeOn w) w' c) :
    wp answer A Anywhere (apply cfg r source).run (Left cfg A r source p w) m w := by
  have checked : ∀ {e : EngineError}, e.ofChecks = true →
      Left cfg A r source p w (.error e) m w := fun he =>
    .running (.untouched he fun _ => rfl) h fun ie b hb => by rw [hb] at he; cases he
  unfold apply
  refine wp_require_seq.mpr ?_
  split
  case isFalse => exact checked rfl
  rename_i hconf
  refine wp_seq.mpr (wp_conclude.mpr ?_)
  cases hvalid : cfg.validateServiceExecutable with
  | error e => exact checked (ofChecks_of_executable hvalid)
  | ok _ =>
      refine wp_seq.mpr (wp_installing.mpr (wp_conseq (wp_both
        (install_spec (A := A) fun _ => ready_anywhere) (wp_keeps hA install_quiet)) ?_))
      rintro res _ w₁ ⟨⟨_, hlaid⟩, hk₁⟩
      cases hlaid with
      | failed hu => exact .running (.failed hu) (h.keeps hk₁) fun _ _ he => by cases he
      | ok hr hdir hfiles =>
          have hnew : Renewed cfg.installer A r source w w₁ := ⟨hdir, hfiles⟩
          refine wp_seq.mpr (wp_installing.mpr (wp_conseq (wp_both
            (state_reads (A := A)) (wp_keeps hA state_quiet)) ?_))
          rintro res _ w₂ ⟨⟨hfs, -, -⟩, hk₂⟩
          have hk := hk₁.trans hk₂
          have hrun := h.keeps hk
          replace hnew := hnew.carries (carries_of_fs hfs)
          cases res with
          | error ie => exact .running (.renewed rfl hnew) hrun fun _ _ he => by cases he
          | ok before =>
              have hactive : cfg.activeOn w₂ = cfg.activeOn w := by
                rw [Config.activeOn, onDisk_of_get hk.state, Config.activeOn]
              refine wp_seq.mpr (wp_rewording.mpr (wp_conseq (wp_both
                (stop_leaves hrun (hactive.symm ▸ hA)) stop_alike) ?_))
              rintro res m₃ w₃ ⟨⟨hheld, hstopped⟩, h₃⟩
              replace hnew := hnew.carries fun x => h₃ _ (not_noting_release hr x)
              cases res with
              | error e =>
                  rintro _ ⟨⟩ _
                  refine ⟨.renewed rfl hnew, fun hs => ?_, fun _ _ he => by cases he⟩
                  cases e with
                  | supervisor why => exact hheld why rfl
                  | _ => cases hs
              | ok _ =>
                  obtain ⟨hnone, hrec⟩ := hstopped rfl
                  refine wp_seq.mpr (wp_tryInstalling.mpr (wp_conseq
                    (activate_spec (A := A) Safe.anywhere) ?_))
                  rintro res _ w₄ ⟨⟨rfl, -, -⟩ | ⟨⟨ie, rfl⟩, hget⟩, hw₄⟩
                  · have hsame : Alike (Changes cfg r) w₄ w₄ := fun _ _ => rfl
                    refine wp_conseq (settleIn_moves hsame) ?_
                    rintro res m' w' ⟨⟨rfl, -⟩ | hrec, -⟩ e he hb
                    · cases he
                    · rw [hrec.late e he] at hb
                      cases hb
                  · refine restore_leaves hr
                      (hnew.carries (carries_within hw₄ fun x => not_pointed_release hr)) ?_ hconf
                      hvalid hnone ((hw₄.files ?_).trans hrec) hA
                    · rw [← hactive, Config.activeOn, Config.activeOn,
                        onDisk_of_get (hget.trans (get_alike h₃))]
                    · exact not_pointed_beside (by decide) (by decide) (by decide)

theorem state_kept (he : Exec answer A (apply cfg r source).run m w (.done (.error e) m') w')
    (hb : e.beforeSwitch = true) :
    w'.fs.get cfg.installer.statePath = w.fs.get cfg.installer.statePath := by
  have happlied := (wp_done he (apply_moves (A := A))).1
  cases happlied with
  | early _ hget => exact hget
  | recovered _ hrec =>
      rw [hrec.late e rfl] at hb
      cases hb

/-- An `apply` that fails before the switch leaves the pointer and every other
release; its own release is as it was or the new one; and the service runs,
unless it was stopped and could not be started again. -/
theorem apply_undisturbed (h : Serving cfg m w p)
    (hA : ∀ w' o c, A w' o c → Undying cfg (cfg.activeOn w) w' c)
    (he : Exec answer A (apply cfg r source).run m w (.done (.error e) m') w')
    (hb : e.beforeSwitch = true) : Undisturbed cfg A r source p w m' w' e := by
  have halike := (wp_done he (apply_moves (A := A))).2 e rfl
  obtain ⟨hown, hsame, hrestarted⟩ := wp_done he (apply_leaves h hA) e rfl hb
  exact ⟨state_kept he hb, fun n hn hne x => get_release_alike hn hne halike x, hown, hsame,
    hrestarted⟩

namespace Sample

/-- `r1` is active and runs, and a copy of another program has been fetched. -/
def refetched : World :=
  (World.idle
    (.ofFiles
      [(["srv", "releases", "r1", "app"], .text "one"),
        (["srv", "releases", "r2", "app"], .text "two"),
        (["srv", "runtime.json"], .json (RuntimeRecord.toJson ⟨"r1", 7, 9, "boot"⟩)),
        (["srv", "state.json"], .json (ActivationState.toJson ⟨"r1", "r2", "then"⟩)),
        (["src", "app"], .text "new")]) "boot").spawn first (by decide)

/-- The state cannot be written, and `r1` is started again. -/
def full : List Choice :=
  choices 33 [(23, failing "No space left on device"), (29, { handle := ⟨8, 1⟩ })]

/-- The sixteenth call reads the state, after the installation. -/
def unread : List Choice := choices 16 [(15, failing "Input/output error")]

theorem serving_refetched : Serving Sample.cfg engine refetched first :=
  ⟨by decide, rfl, by decide +kernel⟩

end Sample

/-- An `apply` of the previous release on a full disk. -/
theorem apply_undisturbed_full :
    ∃ e m' w', Exec answer (Obeys Sample.cfg (Sample.cfg.activeOn Sample.refetched))
        (apply Sample.cfg "r2" ["src"]).run Sample.engine Sample.refetched
        (.done (.error e) m') w' ∧
      Undisturbed Sample.cfg (Obeys Sample.cfg (Sample.cfg.activeOn Sample.refetched)) "r2"
        ["src"] Sample.first Sample.refetched m' w' e ∧ Sample.cfg.Serves w' := by
  have herr : ((apply Sample.cfg "r2" ["src"]).run.run answer Sample.full Sample.engine
      Sample.refetched).1.error? = some (.cannotActivate "r2"
        (.cannotWrite Sample.cfg.installer.stateTemporary) true) := by decide +kernel
  obtain ⟨m, hm⟩ := Outcome.done_of_error? herr
  have he := exec_of_run (A := Obeys Sample.cfg (Sample.cfg.activeOn Sample.refetched))
    (by decide +kernel) hm
  have hu := apply_undisturbed Sample.serving_refetched (fun _ _ _ h => h.1) he rfl
  exact ⟨_, m, _, he, hu, hu.restarted _ _ rfl (Or.inl rfl)⟩

/-- The active release is applied again and the state cannot be read: the
service runs, and the files it runs from are others. -/
theorem active_is_replaced :
    Serving Sample.cfg Sample.engine Sample.refetched Sample.first ∧
    Sample.cfg.activeOn Sample.refetched = "r1" ∧
    ∃ e m' w', Exec answer (Obeys Sample.cfg "r1") (apply Sample.cfg "r1" ["src"]).run
        Sample.engine Sample.refetched (.done (.error e) m') w' ∧
      w'.fs.get Sample.cfg.installer.statePath =
        Sample.refetched.fs.get Sample.cfg.installer.statePath ∧
      ¬ Carries Sample.refetched (Sample.cfg.installer.releaseDirectory "r1") w'
        (Sample.cfg.installer.releaseDirectory "r1") := by
  have herr : ((apply Sample.cfg "r1" ["src"]).run.run answer Sample.unread Sample.engine
      Sample.refetched).1.error? = some (.installer (.cannotOpen
        Sample.cfg.installer.statePath)) := by decide +kernel
  obtain ⟨m, hm⟩ := Outcome.done_of_error? herr
  have he := exec_of_run (A := Obeys Sample.cfg "r1") (by decide +kernel) hm
  refine ⟨Sample.serving_refetched, by decide +kernel, _, m, _, he, state_kept he rfl,
    fun hc => ?_⟩
  have hnew : ((apply Sample.cfg "r1" ["src"]).run.run answer Sample.unread Sample.engine
      Sample.refetched).2.fs.get (Sample.cfg.installer.releaseDirectory "r1" ++ ["app"]) =
        some (.file (.text "new")) := rfl
  have hold : Sample.refetched.fs.get (Sample.cfg.installer.releaseDirectory "r1" ++ ["app"]) =
      some (.file (.text "one")) := rfl
  have hsame := (hnew.symm.trans (hc ["app"])).trans hold
  exact absurd hsame (by simp)

end Yirang.Deploy
