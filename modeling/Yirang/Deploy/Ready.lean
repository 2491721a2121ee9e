/-
# `Yirang.Deploy.Ready` — what readiness says of the probes

The checker counts, so what it says is a statement about the whole history
of its probes: how long its end has been of one kind, and which kind was the
last to be long enough.  `awaitReady` asks it after each probe and so
returns at the first moment at which one of the two thresholds is reached.

    Verdict         the checker, read off the history of its probes
    ReadyAt         the moment at which the wait succeeds
    awaitReady_iff  the wait succeeds exactly at such a moment

The loop by the clock comes after that: what a sleep of one interval between
two probes makes of the time the process was seen running.
-/
import Yirang.Streak
import Yirang.Deploy.Model

namespace Yirang.Health

/-- A threshold, at least one. -/
def atLeastOne (t : Int) : Nat := if t ≤ 0 then 1 else t.toNat

theorem atLeastOne_pos {t : Int} : 0 < atLeastOne t := by
  unfold atLeastOne
  split <;> omega

theorem atLeastOne_cast {t : Int} : (atLeastOne t : Int) = if t ≤ 0 then 1 else t := by
  unfold atLeastOne
  split <;> omega

/-- `none` is a probe that is not configured. -/
def succeeded : Option (Except String Unit) → Bool
  | some (.ok _) => true
  | _ => false

def failed (r : Option (Except String Unit)) : Bool := !succeeded r

namespace HealthChecker

variable {spec : HealthCheckSpec} {l : List (Option (Except String Unit))}
  {r : Option (Except String Unit)} {c : HealthChecker}

/-- A new checker, after these probes. -/
def observe (spec : HealthCheckSpec) (l : List (Option (Except String Unit))) : HealthChecker :=
  l.foldl evaluate (ofSpec spec)

@[simp] theorem observe_nil : observe spec [] = ofSpec spec := rfl

@[simp] theorem observe_concat : observe spec (l ++ [r]) = (observe spec l).evaluate r := by
  simp [observe]

/-- What one probe does. -/
theorem evaluate_of_succeeded (h : succeeded r = true) : c.evaluate r = c.succeed := by
  match r, h with
  | some (.ok _), _ => rfl

theorem evaluate_of_failed (h : succeeded r = false) : ∃ why, c.evaluate r = c.fail why := by
  match r, h with
  | none, _ => exact ⟨_, rfl⟩
  | some (.error why), _ => exact ⟨why, rfl⟩

theorem evaluate_spec : (c.evaluate r).spec = c.spec := by
  cases h : succeeded r with
  | true => rw [evaluate_of_succeeded h]; rfl
  | false =>
      obtain ⟨why, hw⟩ := evaluate_of_failed (c := c) h
      rw [hw]
      rfl

@[simp] theorem observe_spec : (observe spec l).spec = (ofSpec spec).spec := by
  induction l using List.reverseRecOn with
  | nil => rfl
  | append_singleton l r ih => rw [observe_concat, evaluate_spec, ih]

/-- The two counters are the lengths of the two streaks, and the state says
which was the last to stand at its threshold. -/
structure Verdict (spec : HealthCheckSpec) (l : List (Option (Except String Unit)))
    (c : HealthChecker) : Prop where
  successes : c.consecutiveSuccesses = streak succeeded l
  failures : c.consecutiveFailures = streak failed l
  unknown : c.state = .unknown ↔
    NeverStood succeeded (atLeastOne spec.successThreshold)
      failed (atLeastOne spec.failureThreshold) l
  healthy : c.state = .healthy ↔
    LastStood succeeded (atLeastOne spec.successThreshold)
      failed (atLeastOne spec.failureThreshold) l
  unhealthy : c.state = .unhealthy ↔
    LastStood failed (atLeastOne spec.failureThreshold)
      succeeded (atLeastOne spec.successThreshold) l

theorem verdict_nil : Verdict spec [] (ofSpec spec) where
  successes := rfl
  failures := rfl
  unknown := ⟨fun _ => neverStood_nil atLeastOne_pos atLeastOne_pos, fun _ => rfl⟩
  healthy := ⟨fun h => (by cases h), fun h => absurd h (not_lastStood_nil atLeastOne_pos)⟩
  unhealthy := ⟨fun h => (by cases h), fun h => absurd h (not_lastStood_nil atLeastOne_pos)⟩

/-- A success lengthens the one streak and ends the other. -/
theorem Verdict.succeed (hv : Verdict spec l c) (hs : c.spec = (ofSpec spec).spec)
    (h : succeeded r = true) : Verdict spec (l ++ [r]) c.succeed := by
  have hf : failed r = false := by simp [failed, h]
  have hpos := atLeastOne_pos (t := spec.failureThreshold)
  have hstate : c.succeed.state =
      if atLeastOne spec.successThreshold ≤ streak succeeded l + 1 then .healthy
      else c.state := by
    refine if_congr ?_ rfl rfl
    rw [hv.successes, hs]
    show (streak succeeded l : Int) + 1 ≥ (if spec.successThreshold ≤ 0 then _ else _) ↔ _
    rw [← atLeastOne_cast]
    omega
  refine ⟨?_, ?_, ?_, ?_, ?_⟩
  · show c.consecutiveSuccesses + 1 = _
    rw [streak_concat_pos h, hv.successes]
    rfl
  · rw [streak_concat_neg hf]
    rfl
  · rw [hstate, neverStood_won h hf hpos, ← hv.unknown]
    split <;> simp <;> omega
  · rw [hstate, lastStood_won h hf hpos, ← hv.healthy]
    split <;> simp [*]
  · rw [hstate, lastStood_lost h hf hpos, ← hv.unhealthy]
    split <;> simp <;> omega

theorem Verdict.fail (hv : Verdict spec l c) (hs : c.spec = (ofSpec spec).spec)
    (h : succeeded r = false) {why : String} : Verdict spec (l ++ [r]) (c.fail why) := by
  have hf : failed r = true := by simp [failed, h]
  have hpos := atLeastOne_pos (t := spec.successThreshold)
  have hstate : (c.fail why).state =
      if atLeastOne spec.failureThreshold ≤ streak failed l + 1 then .unhealthy
      else c.state := by
    refine if_congr ?_ rfl rfl
    rw [hv.failures, hs]
    show (streak failed l : Int) + 1 ≥ (if spec.failureThreshold ≤ 0 then _ else _) ↔ _
    rw [← atLeastOne_cast]
    omega
  refine ⟨?_, ?_, ?_, ?_, ?_⟩
  · rw [streak_concat_neg h]
    rfl
  · show c.consecutiveFailures + 1 = _
    rw [streak_concat_pos hf, hv.failures]
    rfl
  · rw [hstate, neverStood_comm, neverStood_won hf h hpos, neverStood_comm, ← hv.unknown]
    split <;> simp <;> omega
  · rw [hstate, lastStood_lost hf h hpos, ← hv.healthy]
    split <;> simp <;> omega
  · rw [hstate, lastStood_won hf h hpos, ← hv.unhealthy]
    split <;> simp [*]

/-- After any number of probes. -/
theorem observe_verdict : Verdict spec l (observe spec l) := by
  induction l using List.reverseRecOn with
  | nil => exact verdict_nil
  | append_singleton l r ih =>
      rw [observe_concat]
      cases h : succeeded r with
      | true =>
          rw [evaluate_of_succeeded h]
          exact ih.succeed observe_spec h
      | false =>
          obtain ⟨why, hw⟩ := evaluate_of_failed (c := observe spec l) h
          rw [hw]
          exact ih.fail observe_spec h

end HealthChecker

end Yirang.Health

namespace Yirang.Deploy

open Fs Effect Device Health HealthChecker

/-! ## The moment of success -/

/-- After `n` probes: the last were successes, as many as the threshold asks
for, and before them no failures came in the number that ends the wait. -/
structure ReadyAt (spec : HealthCheckSpec) (l : List (Option (Except String Unit))) (n : Nat) :
    Prop where
  inTime : n ≤ l.length
  enough : atLeastOne spec.successThreshold ≤ n
  running : AllOn succeeded l (n - atLeastOne spec.successThreshold) n
  spared : ∀ k, k + atLeastOne spec.failureThreshold < n →
    ¬ AllOn failed l k (k + atLeastOne spec.failureThreshold)

section

variable {spec : HealthCheckSpec} {l : List (Option (Except String Unit))} {n : Nat}

/-- The same moment, by the states of the checker. -/
theorem first_healthy_iff (hn : n ≤ l.length) :
    ((observe spec (l.take n)).state = .healthy ∧
        ∀ j, j < n → (observe spec (l.take j)).state = .unknown) ↔
      atLeastOne spec.successThreshold ≤ streak succeeded (l.take n) ∧
        ∀ j, j < n → ¬ atLeastOne spec.successThreshold ≤ streak succeeded (l.take j) ∧
          ¬ atLeastOne spec.failureThreshold ≤ streak failed (l.take j) := by
  constructor
  · rintro ⟨hhealthy, hunknown⟩
    have hbefore : ∀ j, j < n →
        ¬ atLeastOne spec.successThreshold ≤ streak succeeded (l.take j) ∧
          ¬ atLeastOne spec.failureThreshold ≤ streak failed (l.take j) := by
      intro j hj
      have hnever := observe_verdict.unknown.mp (hunknown j hj) j (by simp; omega)
      rw [List.take_take, Nat.min_self] at hnever
      omega
    obtain ⟨i, hi, hstood, _⟩ := observe_verdict.healthy.mp hhealthy
    rw [List.length_take, Nat.min_eq_left hn] at hi
    rw [List.take_take, Nat.min_eq_left hi] at hstood
    by_cases hin : i = n
    · exact ⟨hin ▸ hstood, hbefore⟩
    · exact absurd hstood (hbefore i (by omega)).1
  · rintro ⟨hstood, hbefore⟩
    refine ⟨observe_verdict.healthy.mpr ⟨n, by simp [hn], ?_, fun j hj hjn => ?_⟩, fun j hj =>
      observe_verdict.unknown.mpr fun i hi => ?_⟩
    · rwa [List.take_take, Nat.min_self]
    · rw [List.length_take, Nat.min_eq_left hn] at hjn
      omega
    · rw [List.length_take, Nat.min_eq_left (by omega)] at hi
      have := hbefore i (by omega)
      rw [List.take_take, Nat.min_eq_left hi]
      omega

theorem readyAt_iff (hn : n ≤ l.length) :
    ReadyAt spec l n ↔
      atLeastOne spec.successThreshold ≤ streak succeeded (l.take n) ∧
        ∀ j, j < n → ¬ atLeastOne spec.failureThreshold ≤ streak failed (l.take j) := by
  rw [le_streak_take_iff hn]
  constructor
  · intro h
    refine ⟨⟨h.enough, h.running⟩, fun j hj hstood => ?_⟩
    obtain ⟨hle, hall⟩ := (le_streak_take_iff (by omega)).mp hstood
    refine h.spared (j - atLeastOne spec.failureThreshold) (by omega) ?_
    rwa [Nat.sub_add_cancel hle]
  · rintro ⟨⟨henough, hrunning⟩, hbefore⟩
    refine ⟨hn, henough, hrunning, fun k hk hall => hbefore _ hk ?_⟩
    refine (le_streak_take_iff (by omega)).mpr ⟨by omega, ?_⟩
    rwa [Nat.add_sub_cancel]

theorem exists_readyAt_iff :
    (∃ n, n ≤ l.length ∧ (observe spec (l.take n)).state = .healthy ∧
        ∀ j, j < n → (observe spec (l.take j)).state = .unknown) ↔
      ∃ n, ReadyAt spec l n := by
  calc (∃ n, n ≤ l.length ∧ (observe spec (l.take n)).state = .healthy ∧
        ∀ j, j < n → (observe spec (l.take j)).state = .unknown)
      ↔ ∃ n, n ≤ l.length ∧ atLeastOne spec.successThreshold ≤ streak succeeded (l.take n) ∧
          ∀ j, j < n → ¬ atLeastOne spec.successThreshold ≤ streak succeeded (l.take j) ∧
            ¬ atLeastOne spec.failureThreshold ≤ streak failed (l.take j) :=
        exists_congr fun n => and_congr_right fun hn => first_healthy_iff hn
    _ ↔ ∃ n, n ≤ l.length ∧ atLeastOne spec.successThreshold ≤ streak succeeded (l.take n) ∧
          ∀ j, j < n → ¬ atLeastOne spec.failureThreshold ≤ streak failed (l.take j) :=
        exists_first_iff l.length
    _ ↔ ∃ n, ReadyAt spec l n :=
        ⟨fun ⟨n, hn, h⟩ => ⟨n, (readyAt_iff hn).mpr h⟩,
          fun ⟨n, h⟩ => ⟨n, h.inTime, (readyAt_iff h.inTime).mp h⟩⟩

end

/-! ## The loop over the results it is going to see -/

variable {cfg : Config}

/-- `awaitTurns`, when these are the results of its probes. -/
def judge (cfg : Config) : List (Except String Unit) → HealthChecker → Except EngineError Unit
  | [], checker =>
      .error (.notReady cfg.service.startupTimeout
        (checker.lastError.getD "no successful probe"))
  | r :: rs, checker =>
      if (checker.evaluate (some r)).state = .healthy then .ok ()
      else if (checker.evaluate (some r)).state = .unhealthy then
        .error (.healthFailed ((checker.evaluate (some r)).lastError.getD "health check failed"))
      else judge cfg rs (checker.evaluate (some r))

theorem judge_observe {spec : HealthCheckSpec} {l : List (Except String Unit)}
    {before : List (Option (Except String Unit))}
    (hstill : (observe spec before).state = .unknown) :
    judge cfg l (observe spec before) = .ok () ↔
      ∃ n, n ≤ l.length ∧ (observe spec (before ++ (l.map some).take n)).state = .healthy ∧
        ∀ j, j < n → (observe spec (before ++ (l.map some).take j)).state = .unknown := by
  induction l generalizing before with
  | nil =>
      refine iff_of_false (fun h => (by cases h)) ?_
      rintro ⟨n, hn, hhealthy, _⟩
      rw [List.map_nil, List.take_nil, List.append_nil, hstill] at hhealthy
      cases hhealthy
  | cons r rs ih =>
      have hnext : ∀ n, before ++ ((r :: rs).map some).take (n + 1) =
          (before ++ [some r]) ++ (rs.map some).take n := fun n => by simp
      rw [judge, ← observe_concat]
      cases hstate : (observe spec (before ++ [some r])).state with
      | healthy =>
          refine iff_of_true rfl ⟨1, by simp, ?_, fun j hj => ?_⟩
          · rw [hnext, List.take_zero, List.append_nil, hstate]
          · rw [Nat.lt_one_iff.mp hj, List.take_zero, List.append_nil, hstill]
      | unhealthy =>
          refine iff_of_false (fun h => (by cases h)) ?_
          rintro ⟨n | n, hn, hhealthy, hunknown⟩
          · rw [List.take_zero, List.append_nil, hstill] at hhealthy
            cases hhealthy
          · rcases Nat.eq_zero_or_pos n with rfl | hpos
            · rw [hnext, List.take_zero, List.append_nil, hstate] at hhealthy
              cases hhealthy
            · have h1 := hunknown 1 (by omega)
              rw [hnext, List.take_zero, List.append_nil, hstate] at h1
              cases h1
      | unknown =>
          rw [if_neg (by decide), if_neg (by decide), ih hstate]
          constructor
          · rintro ⟨n, hn, hhealthy, hunknown⟩
            refine ⟨n + 1, Nat.succ_le_succ hn, by rwa [hnext], fun j hj => ?_⟩
            cases j with
            | zero => rw [List.take_zero, List.append_nil, hstill]
            | succ j =>
                rw [hnext]
                exact hunknown j (by omega)
          · rintro ⟨n, hn, hhealthy, hunknown⟩
            cases n with
            | zero =>
                rw [List.take_zero, List.append_nil, hstill] at hhealthy
                cases hhealthy
            | succ n =>
                refine ⟨n, Nat.le_of_succ_le_succ hn, by rwa [hnext] at hhealthy, fun j hj => ?_⟩
                rw [← hnext]
                exact hunknown (j + 1) (by omega)

theorem judge_iff {l : List (Except String Unit)} :
    judge cfg l (ofSpec cfg.health) = .ok () ↔ ∃ n, ReadyAt cfg.health (l.map some) n := by
  rw [← observe_nil, judge_observe rfl, ← exists_readyAt_iff, List.length_map]
  rfl

/-! ## The loop on a device -/

/-- What the probe of the kind the service asks for finds, and the device
after it. -/
def probeOnce (cfg : Config) (handle : Option ProcessHandle) (c : Choice) (w : World) :
    Except String Unit × World :=
  match cfg.health.kind, handle with
  | .process, some h => (processProbe h (answer c (.status h) w).1, (answer c (.status h) w).2)
  | _, _ => answer c .networkProbe w

/-- What it finds, probe after probe. -/
def probes (cfg : Config) (handle : Option ProcessHandle) :
    List Choice → World → List (Except String Unit)
  | [], _ => []
  | c :: cs, w =>
      (probeOnce cfg handle c w).1 :: probes cfg handle cs (probeOnce cfg handle c w).2

theorem run_load_seq {k : Engine → Task Unit} {cs : List Choice} {m : Engine} {w : World} :
    (load >>= k).run.run answer cs m w = (k m).run.run answer cs m w := rfl

theorem probe_run {handle : Option ProcessHandle} {probe : Task (Except String Unit)}
    (h : makeProbe cfg handle = some probe) (k : Except String Unit → Task Unit) (c : Choice)
    (cs : List Choice) (m : Engine) (w : World) :
    (probe >>= k).run.run answer (c :: cs) m w =
      (k (probeOnce cfg handle c w).1).run.run answer cs m (probeOnce cfg handle c w).2 := by
  unfold makeProbe at h
  unfold probeOnce
  split at h
  · cases h
  · cases h
    rename_i hkind
    rw [hkind]
    rfl
  · cases h
    rename_i hno hyes
    split
    · exact absurd rfl (hyes _ ‹_›)
    · rfl

theorem awaitTurns_run {handle : Option ProcessHandle} {probe : Task (Except String Unit)}
    (h : makeProbe cfg handle = some probe) (cs : List Choice) (checker : HealthChecker)
    (m : Engine) (w : World) :
    ((awaitTurns cfg probe cs.length checker).run.run answer cs m w).1 =
      .done (judge cfg (probes cfg handle cs w) checker) m := by
  induction cs generalizing checker w with
  | nil => rfl
  | cons c cs ih =>
      rw [List.length_cons, awaitTurns, probe_run h, probes, judge]
      dsimp only
      by_cases hhealthy : (checker.evaluate (some (probeOnce cfg handle c w).1)).state = .healthy
      · rw [if_pos hhealthy, if_pos hhealthy]
        rfl
      · rw [if_neg hhealthy, if_neg hhealthy]
        by_cases hfailed :
            (checker.evaluate (some (probeOnce cfg handle c w).1)).state = .unhealthy
        · rw [if_pos hfailed, if_pos hfailed]
          rfl
        · rw [if_neg hfailed, if_neg hfailed]
          exact ih _ _

/-- Only a process that is not known cannot be probed. -/
theorem makeProbe_isSome {handle : Option ProcessHandle} :
    (makeProbe cfg handle).isSome = true ↔ (cfg.health.kind = .process → handle ≠ none) := by
  cases hkind : cfg.health.kind with
  | process => cases handle <;> simp [makeProbe, hkind]
  | _ => simp [makeProbe, hkind]

/-- The checker's verdict on any history of probes; and `awaitReady`, which
turns `cs.length` times before its deadline, succeeds if and only if the
process that it is to watch, if it is to watch one, is known, and one of these
turns is the moment of success. -/
theorem readiness_characterised (cfg : Config) :
    (∀ l, Verdict cfg.health l (observe cfg.health l)) ∧
    ∀ (m : Engine) (w : World) (turning : Choice) (cs : List Choice),
      ∃ r, ((awaitReady cfg).run.run answer ({ turning with count := cs.length } :: cs) m w).1 =
          .done r m ∧
        (r = .ok () ↔ (cfg.health.kind = .process → m.handle ≠ none) ∧
          ∃ n, ReadyAt cfg.health
            ((probes cfg m.handle cs (answer { turning with count := cs.length }
              (.turns cfg.service.startupTimeout cfg.health.interval) w).2).map some) n) := by
  refine ⟨fun l => observe_verdict, fun m w turning cs => ?_⟩
  rw [← makeProbe_isSome]
  cases hprobe : makeProbe cfg m.handle with
  | none =>
      refine ⟨.error .noProbe, ?_, iff_of_false (fun h => (by cases h)) fun h => (by cases h.1)⟩
      rw [awaitReady, run_load_seq]
      dsimp only
      rw [hprobe]
      rfl
  | some probe =>
      refine ⟨_, ?_, judge_iff.trans (and_iff_right rfl).symm⟩
      rw [← awaitTurns_run hprobe]
      rw [awaitReady, run_load_seq]
      dsimp only
      rw [hprobe]
      rfl

end Yirang.Deploy
