/-
# `Yirang.Deploy.Established` — what a successful `apply` has established

A success is the end of a long way: the copy is published, the pointer moved,
the instance started, recorded and seen running, and old releases removed.
Every step may undo what one before it did, so each part is followed to the
end.

    Proven        the instance was started in this call, and the last probes,
                  as many as the threshold asks for, succeeded
    Established   what a success promises
    applied_is_established   a success keeps it, if no `stat` of the state file
                  fails

A `stat` that fails reads as "nothing is active": then `activate` forgets what
was previous, and `prune` removes what it should spare.
-/
import Yirang.Install.Copying
import Yirang.Install.Publish
import Yirang.Deploy.Ready
import Yirang.Deploy.Undisturbed

namespace Yirang.Deploy

open Fs Effect Device Install Health HealthChecker

variable {cfg : Config} {A : World → Op → Choice → Prop} {m m' : Engine} {w₀ w w' w'' : World}
  {r : String} {h : ProcessHandle} {source : Path}
  {l : List (Option ProcessHandle × Bool)}

/-! ## What a success promises -/

/-- The process that the probes of the service look at, if it is one. -/
def Config.watched (cfg : Config) (h : ProcessHandle) : Option ProcessHandle :=
  if cfg.health.kind = .process then some h else none

/-- Since `w` the instance was started, and after that nothing but these
probes was made, the newest first. -/
def Since (cfg : Config) (r : String) (h : ProcessHandle) (w w' : World)
    (l : List (Option ProcessHandle × Bool)) : Prop :=
  ∃ t before, w'.trace = t ++ .started ⟨h, cfg.startOptions r⟩ :: before ∧ w.trace <:+ before ∧
    (∀ p, .started p ∉ t) ∧ t.filterMap Noted.probe = l

/-- The last probes of the instance were successes, as many as the threshold
asks for. -/
def Proven (cfg : Config) (r : String) (h : ProcessHandle) (w w' : World) : Prop :=
  ∃ rest, Since cfg r h w w'
    (List.replicate (atLeastOne cfg.health.successThreshold) (cfg.watched h, true) ++ rest)

theorem Since.silent (hs : Since cfg r h w w' l) (hw : Silent w' w'') : Since cfg r h w w'' l := by
  obtain ⟨t, before, ht, hgrows, hnone, hl⟩ := hs
  obtain ⟨t', ht', hcalled⟩ := hw
  refine ⟨t' ++ t, before, by rw [ht', ht, List.append_assoc], hgrows, fun p hp => ?_, ?_⟩
  · rcases List.mem_append.mp hp with hp | hp
    · cases hcalled _ hp
    · exact hnone p hp
  · have hmute : t'.filterMap Noted.probe = [] :=
      List.filterMap_eq_nil_iff.mpr fun n hn => by rw [hcalled n hn]; rfl
    rw [List.filterMap_append, hmute, hl, List.nil_append]

theorem Since.probed {x : Option ProcessHandle} {b : Bool} (hs : Since cfg r h w w' l)
    (ht : w''.trace = .probed x b :: w'.trace) : Since cfg r h w w'' ((x, b) :: l) := by
  obtain ⟨t, before, ht', hgrows, hnone, hl⟩ := hs
  refine ⟨.probed x b :: t, before, by rw [ht, ht', List.cons_append], hgrows, fun p hp => ?_, ?_⟩
  · rcases List.mem_cons.mp hp with hp | hp
    · cases hp
    · exact hnone p hp
  · rw [List.filterMap_cons, hl]
    rfl

/-! ## Launching -/

theorem writeRecord_records {next : RuntimeRecord} :
    wp answer A Anywhere (writeRecord cfg next).run
      (fun res m' w' => m' = m ∧ (res = .ok () → cfg.recordOn w'.fs = next)) m w := by
  refine wp_seq.mpr (wp_orFail.mpr (wp_file.mpr ⟨trivial, fun c _ => ?_⟩))
  cases hr : (answer c (.file (.write cfg.recordTemporary (.json next.toJson))) w).1 with
  | error e => exact ⟨rfl, fun hok => by cases hok⟩
  | ok _ =>
      have hput := FileTree.get_putAt (write_ok hr) cfg.recordTemporary
      rw [if_pos rfl] at hput
      revert hput
      generalize (answer c (.file (.write cfg.recordTemporary (.json next.toJson))) w).2 = w₁
      intro hput
      refine wp_seq.mpr (wp_file.mpr ⟨trivial, fun c₂ _ => ?_⟩)
      cases hr₂ : (answer c₂ (.file (.rename cfg.recordTemporary cfg.recordPath)) w₁).1 with
      | error e =>
          exact wp_seq.mpr (wp_file.mpr ⟨trivial, fun c₃ _ => ⟨rfl, fun hok => by cases hok⟩⟩)
      | ok _ =>
          have hmoved := FileTree.get_moveAt (rename_ok hr₂) cfg.recordPath
          rw [if_pos List.prefix_rfl, FileTree.movedFrom, List.drop_length,
            List.append_nil] at hmoved
          exact ⟨rfl, fun _ => recordOn_of_file (hmoved.trans hput)⟩

theorem recordStarted_mute : Uses Op.Mute (recordStarted cfg r h).run := by
  refine .seq (fun _ => trivial) fun _ => .seq (.orFail (.ask trivial)) fun _ => ?_
  refine .rewording (.seq (.orFail (.ask trivial)) fun _ => .seq (.ask trivial) fun published => ?_)
  cases published with
  | ok _ => trivial
  | error why => exact .seq (.ask trivial) fun _ => trivial

/-- The instance is held, and it is what the record names. -/
structure Recorded (cfg : Config) (r : String) (h : ProcessHandle) (m : Engine) (w : World) :
    Prop where
  held : m.handle = some h
  record : cfg.recordOn w.fs = ⟨r, h.id, h.startToken, w.boot⟩

theorem Recorded.within {X : Path → Prop} (hr : Recorded cfg r h m w) (hm : m'.handle = m.handle)
    (hw : Within X w w') (hX : ¬ X cfg.recordPath) : Recorded cfg r h m' w' := by
  refine ⟨hm.trans hr.held, ?_⟩
  rw [Config.recordOn_of_get (hw.files hX), hr.record, hw.boot]

theorem recordStarted_records :
    wp answer A Anywhere (recordStarted cfg r h).run
      (fun res m' w' => res = .ok () → Recorded cfg r h m' w') m w := by
  refine wp_setHandle_seq.mpr (wp_seq.mpr (wp_orFail.mpr (wp_ask.mpr ⟨trivial, fun c _ => ?_⟩)))
  cases hr : (answer c .bootIdentity w).1 with
  | error e => exact fun hok => by cases hok
  | ok identity =>
      have hmute : Touches Untouched .bootIdentity := touches_proc (fun _ hq => hq) id
      have hboot : identity = (answer c .bootIdentity w).2.boot :=
        (bootIdentity_ok hr).trans (answer_within hmute).boot.symm
      refine wp_rewording.mpr (wp_conseq (wp_both writeRecord_records
        (wp_within (writeRecord_uses _) fun _ _ _ _ _ => trivial)) ?_)
      rintro (e | _) m₂ w₂ ⟨⟨rfl, hrec⟩, hw⟩ hok
      · cases hok
      · exact ⟨rfl, by rw [hrec rfl, hboot, hw.boot]⟩

theorem launch_records (hgrows : w₀.trace <:+ w.trace) :
    wp answer A Anywhere (launch cfg r).run
      (fun res m' w' => res = .ok () →
        ∃ h, Since cfg r h w₀ w' [] ∧ Recorded cfg r h m' w') m w := by
  refine wp_seq.mpr (wp_conclude.mpr ?_)
  cases cfg.validateServiceExecutable with
  | error e => exact fun hok => by cases hok
  | ok _ =>
      refine wp_seq_of wp_grows ?_ fun e _ _ _ hok => by cases hok
      intro there m₁ w₁ hgrows₁
      refine wp_require_seq.mpr ?_
      split
      case isFalse => exact fun hok => by cases hok
      refine wp_seq_of wp_grows ?_ fun e _ _ _ hok => by cases hok
      intro _ m₂ w₂ hgrows₂
      refine wp_seq.mpr (wp_orFail.mpr (wp_ask.mpr ⟨trivial, fun c _ => ?_⟩))
      cases hr : (answer c (.start (cfg.startOptions r)) w₂).1 with
      | error e => exact fun hok => by cases hok
      | ok h =>
          have hspawn := start_ok hr
          have hsince : Since cfg r h w₀ (answer c (.start (cfg.startOptions r)) w₂).2 [] :=
            ⟨[], w₂.trace, hspawn.trace, (hgrows.trans hgrows₁).trans hgrows₂,
              fun _ hp => (by cases hp), rfl⟩
          refine wp_conseq (wp_both recordStarted_records (wp_silent recordStarted_mute)) ?_
          exact fun res m' w' ⟨hrec, hw⟩ hok => ⟨h, hsince.silent hw, hrec hok⟩

/-! ## Waiting -/

/-- The checker has counted the last of these probes. -/
structure Counted (cfg : Config) (h : ProcessHandle) (l : List (Option ProcessHandle × Bool))
    (checker : HealthChecker) : Prop where
  streak : ∃ (n : Nat) (rest : List (Option ProcessHandle × Bool)),
    l = List.replicate n (cfg.watched h, true) ++ rest ∧ checker.consecutiveSuccesses = n
  threshold : checker.spec.successThreshold = atLeastOne cfg.health.successThreshold
  undecided : checker.state ≠ .healthy

theorem counted_ofSpec : Counted cfg h [] (ofSpec cfg.health) :=
  ⟨⟨0, [], rfl, rfl⟩, atLeastOne_cast.symm, fun hs => by cases hs⟩

/-- One probe more: it is counted, or the count has reached the threshold. -/
theorem Counted.evaluate {checker : HealthChecker} (hc : Counted cfg h l checker)
    (result : Except String Unit) :
    ((checker.evaluate (some result)).state = .healthy →
      ∃ rest, (cfg.watched h, succeeded (some result)) :: l =
        List.replicate (atLeastOne cfg.health.successThreshold) (cfg.watched h, true) ++ rest) ∧
    ((checker.evaluate (some result)).state ≠ .healthy →
      Counted cfg h ((cfg.watched h, succeeded (some result)) :: l)
        (checker.evaluate (some result))) := by
  obtain ⟨⟨n, rest, rfl, hn⟩, hthreshold, hundecided⟩ := hc
  cases result with
  | error why =>
      have hstate : (checker.fail why).state ≠ .healthy := by
        show (if _ then HealthState.unhealthy else checker.state) ≠ .healthy
        split
        · exact fun hs => by cases hs
        · exact hundecided
      exact ⟨fun hs => absurd hs hstate, fun _ => ⟨⟨0, _, rfl, rfl⟩, hthreshold, hstate⟩⟩
  | ok _ =>
      have hmore : (cfg.watched h, succeeded (some (Except.ok ()))) ::
          (List.replicate n (cfg.watched h, true) ++ rest) =
          List.replicate (n + 1) (cfg.watched h, true) ++ rest := by
        rw [List.replicate_succ, List.cons_append]
        rfl
      constructor
      · intro hs
        have hreached : checker.consecutiveSuccesses + 1 ≥ checker.spec.successThreshold := by
          by_contra hless
          exact hundecided ((if_neg hless).symm.trans hs)
        rw [hn, hthreshold] at hreached
        obtain ⟨k, hk⟩ := Nat.exists_eq_add_of_le (by omega :
          atLeastOne cfg.health.successThreshold ≤ n + 1)
        refine ⟨List.replicate k (cfg.watched h, true) ++ rest, hmore.trans ?_⟩
        rw [hk, List.replicate_add, List.append_assoc]
      · intro hs
        refine ⟨⟨n + 1, rest, hmore, ?_⟩, hthreshold, hs⟩
        show checker.consecutiveSuccesses + 1 = _
        rw [hn]
        rfl

theorem note_status {res : Except String ProcessStatus} :
    note (.status h) res = .probed (some h) (succeeded (some (processProbe h res))) := by
  cases res with
  | error why => rfl
  | ok status =>
      obtain ⟨state, exitCode, signal⟩ := status
      cases state <;> rfl

theorem note_networkProbe {res : Except String Unit} :
    note .networkProbe res = .probed none (succeeded (some res)) := by
  cases res <;> rfl

/-- A probe of the kind the service asks for is noted with its result. -/
theorem probe_noted {probe : Task (Except String Unit)} (hp : makeProbe cfg (some h) = some probe) :
    wp answer A Anywhere probe.run
      (fun res m' w' => m' = m ∧ Within Untouched w w' ∧ ∃ result, res = .ok result ∧
        w'.trace = .probed (cfg.watched h) (succeeded (some result)) :: w.trace) m w := by
  unfold makeProbe at hp
  split at hp
  · cases hp
  · rename_i handle hkind hhandle
    cases hp
    cases hhandle
    refine wp_seq.mpr (wp_ask.mpr ⟨trivial, fun c _ => ?_⟩)
    refine ⟨rfl, answer_within (touches_proc (fun _ hq => hq) id), _, rfl, ?_⟩
    rw [answer_trace, Config.watched, if_pos hkind, note_status]
    rfl
  · rename_i hyes
    cases hp
    refine wp_ask.mpr ⟨trivial, fun c _ => ?_⟩
    refine ⟨rfl, answer_within (touches_proc (fun _ hq => hq) id), _, rfl, ?_⟩
    rw [answer_trace, Config.watched, if_neg fun hkind => hyes h hkind rfl, note_networkProbe]
    rfl

/-- A wait that succeeds ends with the last of the successes it counts. -/
theorem awaitTurns_proves {probe : Task (Except String Unit)}
    (hp : makeProbe cfg (some h) = some probe) {n : Nat} {checker : HealthChecker}
    (hs : Since cfg r h w₀ w l) (hc : Counted cfg h l checker) :
    wp answer A Anywhere (awaitTurns cfg probe n checker).run
      (fun res m' w' => m' = m ∧ Within Untouched w w' ∧
        (res = .ok () → Proven cfg r h w₀ w')) m w := by
  induction n generalizing w l checker with
  | zero => exact ⟨rfl, .refl, fun hok => by cases hok⟩
  | succ n ih =>
      refine wp_seq_of (probe_noted hp) ?_ ?_
      · rintro result _ w₁ ⟨rfl, hw₁, _, ⟨⟩, htrace⟩
        have hs₁ := hs.probed htrace
        obtain ⟨hhealthy, hgoing⟩ := hc.evaluate result
        show wp _ _ _ (ExceptT.run (ite _ _ _)) _ _ _
        split
        · rename_i hstate
          obtain ⟨rest, hrest⟩ := hhealthy hstate
          exact ⟨rfl, hw₁, fun _ => ⟨rest, hrest ▸ hs₁⟩⟩
        · rename_i hstate
          split
          · exact ⟨rfl, hw₁, fun hok => by cases hok⟩
          · refine wp_conseq (ih hs₁ (hgoing hstate)) ?_
            exact fun res m₂ w₂ ⟨hm, hw₂, hproven⟩ => ⟨hm, hw₁.trans hw₂, hproven⟩
      · rintro e _ _ ⟨_, _, _, he, _⟩
        cases he

theorem awaitReady_proves (hs : Since cfg r h w₀ w []) (hr : Recorded cfg r h m w) :
    wp answer A Anywhere (awaitReady cfg).run
      (fun res m' w' => res = .ok () → Proven cfg r h w₀ w' ∧ Recorded cfg r h m' w' ∧
        Within Untouched w w') m w := by
  unfold awaitReady
  refine wp_load_seq.mpr ?_
  rw [hr.held]
  cases hprobe : makeProbe cfg (some h) with
  | none => exact fun hok => by cases hok
  | some probe =>
      refine wp_seq.mpr (wp_ask.mpr ⟨trivial, fun c _ => ?_⟩)
      have hturns : Touches Untouched (.turns cfg.service.startupTimeout cfg.health.interval) :=
        touches_proc (fun _ hq => hq) id
      have hw₁ := answer_within (c := c) (w := w) hturns
      refine wp_conseq (awaitTurns_proves hprobe (hs.silent (silent_call trivial))
        counted_ofSpec) ?_
      rintro res _ w₂ ⟨rfl, hw₂, hproven⟩ hok
      exact ⟨hproven hok, hr.within rfl (hw₁.trans hw₂) id, hw₁.trans hw₂⟩

/-! ## The operation -/

/-- Whatever the pointer names has stayed as it was. -/
def Spares (cfg : Config) (w w' : World) : Prop :=
  ∀ n, ValidId n → n = (cfg.stateOn w').active ∨ n = (cfg.stateOn w').previous →
    Carries w (cfg.installer.releaseDirectory n) w' (cfg.installer.releaseDirectory n)

/-- The instance that the engine holds was launched from `r`, is recorded,
and has been seen running. -/
def Instated (cfg : Config) (r : String) (w : World) (m' : Engine) (w' : World) : Prop :=
  ∃ h, Recorded cfg r h m' w' ∧ Proven cfg r h w w'

theorem mute_of_filing {op : Op} (h : Filing op) : op.Mute := by
  cases h <;> trivial

theorem recover_fails {reason : String} :
    wp answer A Anywhere (recover cfg reason).run (fun res _ _ => res ≠ .ok ()) m w := by
  have hsame : Alike (Changes cfg "") w w := fun _ _ => rfl
  refine wp_conseq (recover_moves hsame) ?_
  rintro _ _ w' ⟨hrec, -⟩ rfl
  cases hrec

theorem settleIn_instates (hA : Honest cfg.installer A) (hgrows : w₀.trace <:+ w.trace) :
    wp answer A Anywhere (settleIn cfg r).run
      (fun res m' w' => res = .ok () → Instated cfg r w₀ m' w' ∧ Spares cfg w w') m w := by
  refine wp_seq.mpr (wp_attempt.mpr (wp_conseq (wp_both (launch_records hgrows)
    (wp_alike launch_uses)) ?_))
  rintro (e | _) m₁ w₁ ⟨hlaunched, h₁⟩
  · exact wp_conseq recover_fails fun _ _ _ hfails hok => absurd hok hfails
  obtain ⟨h, hsince, hrecorded⟩ := hlaunched rfl
  refine wp_seq.mpr (wp_attempt.mpr (wp_conseq (awaitReady_proves hsince hrecorded) ?_))
  rintro (e | _) m₂ w₂ hready
  · exact wp_conseq recover_fails fun _ _ _ hfails hok => absurd hok hfails
  obtain ⟨⟨rest, hproven⟩, hrecorded₂, hw₂⟩ := hready rfl
  refine wp_seq.mpr (wp_tryInstalling.mpr (wp_conseq (wp_both
    (prune_spec (A := A) fun _ _ => Safe.anywhere)
    (wp_silent (prune_filing.mono fun _ => mute_of_filing))) ?_))
  rintro res _ w₃ ⟨⟨s, hread, hw₃⟩, hsilent⟩ _
  have hrecorded₃ : Recorded cfg r h m₂ w₃ := hrecorded₂.within rfl hw₃ pruned_spares_record
  refine ⟨⟨h, ⟨hrecorded₃.held, hrecorded₃.record⟩, rest, hproven.silent hsilent⟩, ?_⟩
  -- what was read is what the state file says before and after
  have hs : s = cfg.stateOn w₃ :=
    (hread.honest hA).trans (stateOn_of_get (hw₃.files pruned_spares_state)).symm
  intro n hn hnamed
  have hlaunch : Carries w (cfg.installer.releaseDirectory n) w₁ _ := fun x =>
    h₁ _ (not_noting_release hn x)
  refine (hlaunch.trans (carries_within hw₂ fun _ => id)).trans (carries_within hw₃ fun x => ?_)
  exact not_pruned_release hn (hs ▸ hnamed)

/-- A success goes through all the steps. -/
theorem apply_instates (hA : Honest cfg.installer A) :
    wp answer A Anywhere (apply cfg r source).run
      (fun res m' w' => res = .ok () → Instated cfg r w m' w' ∧
        ∃ w₁, ValidId r ∧ Renewed cfg.installer A r source w w₁ ∧
          Alike (Changes cfg r) w w₁ ∧ Spares cfg w₁ w') m w := by
  unfold apply
  refine wp_require_seq.mpr ?_
  split
  case isFalse => exact fun hok => by cases hok
  refine wp_seq.mpr (wp_conclude.mpr ?_)
  cases cfg.validateServiceExecutable with
  | error e => exact fun hok => by cases hok
  | ok _ =>
      refine wp_seq.mpr (wp_installing.mpr (wp_conseq (wp_both
        (install_spec (A := A) fun _ => ready_anywhere) wp_grows) ?_))
      rintro res _ w₁ ⟨⟨hw₁, hlaid⟩, hgrows₁⟩
      cases hlaid with
      | failed _ => exact fun hok => by cases hok
      | ok hr hdir hfiles =>
          have hnew : Renewed cfg.installer A r source w w₁ := ⟨hdir, hfiles⟩
          have ha₁ : Alike (Changes cfg r) w w₁ := hw₁.alike fun _ hq => Or.inl hq
          refine wp_seq.mpr (wp_installing.mpr (wp_conseq (wp_both
            (state_reads (A := A)) wp_grows) ?_))
          rintro (e | before) _ w₂ ⟨⟨hfs, -, -⟩, hgrows₂⟩
          · exact fun hok => by cases hok
          refine wp_seq.mpr (wp_rewording.mpr (wp_conseq (wp_both stop_alike wp_grows) ?_))
          rintro (e | _) m₃ w₃ ⟨h₃, hgrows₃⟩
          · exact fun hok => by cases hok
          refine wp_seq.mpr (wp_tryInstalling.mpr (wp_conseq (wp_both
            (activate_spec (A := A) Safe.anywhere) wp_grows) ?_))
          rintro res _ w₄ ⟨⟨⟨rfl, -, -⟩ | ⟨⟨e, rfl⟩, -⟩, hw₄⟩, hgrows₄⟩
          · have hgrows := ((hgrows₁.trans hgrows₂).trans hgrows₃).trans hgrows₄
            refine wp_conseq (settleIn_instates hA hgrows) ?_
            intro res m' w' hdone hok
            obtain ⟨hinstated, hspares⟩ := hdone hok
            refine ⟨hinstated, w₄, hr, ?_, ?_, hspares⟩
            · exact ((hnew.carries (carries_of_fs hfs)).carries fun x =>
                h₃ _ (not_noting_release hr x)).carries
                  (carries_within hw₄ fun x => not_pointed_release hr)
            · exact ((ha₁.trans fun q _ => get_same hfs q).trans (alike_noting h₃)).trans
                (alike_pointed hw₄)
          · refine wp_seq.mpr (wp_conseq wp_grows ?_)
            rintro (e' | restored) m' w' - hok
            · cases hok
            · cases hok

/-- What a success of `apply r source`, called in `w`, promises. -/
structure Established (cfg : Config) (A : World → Op → Choice → Prop) (r : String)
    (source : Path) (w : World) (m' : Engine) (w' : World) : Prop where
  active : (cfg.stateOn w').active = r
  previous : (cfg.stateOn w').previous =
    if (cfg.stateOn w).active = r then (cfg.stateOn w).previous else (cfg.stateOn w).active
  installed : Installed cfg.installer w'.fs r
  renewed : Renewed cfg.installer A r source w w'
  instated : Instated cfg r w m' w'
  kept : Installed cfg.installer w.fs (cfg.stateOn w').previous →
    Installed cfg.installer w'.fs (cfg.stateOn w').previous

theorem apply_establishes (hA : Honest cfg.installer A)
    (he : Exec answer A (apply cfg r source).run m w (.done (.ok ()) m') w') :
    Established cfg A r source w m' w' := by
  have happlied := (wp_done he (apply_moves (A := A))).1
  obtain ⟨hinstated, w₁, hr, hnew, halike, hspares⟩ := wp_done he (apply_instates hA) rfl
  cases happlied with
  | recovered _ hrec => cases hrec
  | done hmoved =>
      have hactive : (cfg.stateOn w').active = r := hmoved.active
      have hrenewed : Renewed cfg.installer A r source w w' :=
        hnew.carries (hspares r hr (Or.inl hactive.symm))
      refine ⟨hactive, hmoved.honest hA, ⟨hr, hrenewed.there⟩, hrenewed, hinstated,
        fun ⟨hn, hthere⟩ => ⟨hn, ?_⟩⟩
      by_cases hsame : (cfg.stateOn w').previous = r
      · rw [hsame]
        exact hrenewed.there
      · rw [(hspares _ hn (Or.inr rfl)).isDir, isDir_alike hn hsame halike]
        exact hthere

/-- In every life of an engine in which no `stat` of the state file fails: an
`apply` that returned a success has done what it promises. -/
theorem applied_is_established {before : History} (hA : Honest cfg.installer A)
    (hl : Life answer A cfg.engine w₀ m w (⟨.apply r source, w', .ok ()⟩ :: before)) :
    Established cfg A r source w' m w := by
  cases hl with
  | call _ _ he => exact apply_establishes hA he

namespace Sample

/-- A run of `n` calls, of which that with the number `start` starts the
instance, which is then seen running. -/
def instating (n start : Nat) (special : List (Nat × Choice)) : List Choice :=
  choices n ((start, { handle }) :: (start + 4, { count := 1 }) ::
    (start + 5, { status := { state := .running } }) :: special)

/-- The `stat` of the state file fails when the release is activated. -/
def forgetting : List Choice := instating 38 24 [(15, failing "Input/output error")]

end Sample

/-- `r2` is applied where `r1` is active, and nothing fails. -/
theorem applied_is_established_second :
    ∃ m w, Established Sample.cfg (fun _ _ c => c.chance.fault = none) "r2" ["src"]
      Sample.serving m w := by
  have hok : ((apply Sample.cfg "r2" ["src"]).run.run answer (Sample.instating 39 25 []) {}
      Sample.serving).1.isOk = true := by decide +kernel
  obtain ⟨_, m, hm⟩ := Outcome.done_of_isOk hok
  have hlife := Life.call (.apply "r2" ["src"]) (S := Sample.cfg.engine) Life.fresh
    (exec_of_run (A := fun _ _ c => c.chance.fault = none) (by decide +kernel) hm)
  exact ⟨m, _, applied_is_established (fun _ _ h _ => h) hlife⟩

/-- `r1` is active, and the `stat` of the state file fails when `r2` is
activated: the success has forgotten `r1`. -/
theorem applied_forgets_previous :
    ∃ m w, Life answer Anyhow Sample.cfg.engine Sample.serving m w
        [⟨.apply "r2" ["src"], Sample.serving, .ok ()⟩] ∧
      Sample.serving.fs.get (Sample.cfg.installer.stagingDirectory "r2") = none ∧
      Installed Sample.cfg.installer Sample.serving.fs "r1" ∧
      (Sample.cfg.stateOn Sample.serving).active = "r1" ∧
      (Sample.cfg.stateOn w).active = "r2" ∧ (Sample.cfg.stateOn w).previous = "" := by
  have hok : ((apply Sample.cfg "r2" ["src"]).run.run answer Sample.forgetting {}
      Sample.serving).1.isOk = true := by decide +kernel
  obtain ⟨_, m, hm⟩ := Outcome.done_of_isOk hok
  have hlife := Life.call (.apply "r2" ["src"]) (S := Sample.cfg.engine) Life.fresh
    (exec_of_run (A := Anyhow) (Program.admits_all _ _ _ _) hm)
  refine ⟨m, _, hlife, rfl, ⟨⟨by decide +kernel, by decide +kernel⟩, by decide +kernel⟩, ?_⟩
  exact ⟨by decide +kernel, by decide +kernel, by decide +kernel⟩

end Yirang.Deploy
