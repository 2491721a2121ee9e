/-
# `Yirang.Deploy.Survival` — how long a ready process was seen running

The loop of `awaitReady` again, this time by the clock: it looks at the
clock, probes, and sleeps one interval.  It returns right after the last of
the successes it counts, so between the first and the last of `s` successes
it has slept `s - 1` times.

    awaitByClock       the loop, over the turns the clock gives it
    awaitByClock_iff   it succeeds as `awaitReady` does
    span_of_ready      what a success says of the time between the probes
    survival_iff       for which services that is the time the
                       documentation promises

Times are in nanoseconds, as the steady clock counts them.
-/
import Yirang.Deploy.Ready

namespace Yirang.Deploy

open Health HealthChecker

/-- One turn of the loop: the clock at its condition, the moment at which
the probe looked at the process, and what it found. -/
structure Turn where
  now : Int
  seen : Int
  result : Except String Unit

/-- `none` while the loop goes on. -/
def awaitByClock (cfg : Config) (deadline : Int) :
    List Turn → HealthChecker → Option (Except EngineError Unit)
  | [], _ => none
  | t :: ts, checker =>
      if t.now < deadline then
        if (checker.evaluate (some t.result)).state = .healthy then some (.ok ())
        else if (checker.evaluate (some t.result)).state = .unhealthy then
          some (.error (.healthFailed
            ((checker.evaluate (some t.result)).lastError.getD "health check failed")))
        else awaitByClock cfg deadline ts (checker.evaluate (some t.result))
      else
        some (.error (.notReady cfg.service.startupTimeout
          (checker.lastError.getD "no successful probe")))

/-- `std::chrono::milliseconds`, and a sleep for less than none returns at
once. -/
def Config.interval (cfg : Config) : Int := max 0 cfg.health.interval * 1000000

/-- `std::chrono::seconds`. -/
def Config.patience (cfg : Config) : Int := cfg.service.startupTimeout * 1000000000

/-- The turns of a loop that began at `start`: the probe comes after the
look at the clock, and a sleep lasts at least its interval. -/
structure Paced (cfg : Config) (start : Int) (ts : List Turn) : Prop where
  starts : ∀ t, ts.head? = some t → start ≤ t.now
  looks : ∀ i (h : i < ts.length), ts[i].now ≤ ts[i].seen
  sleeps : ∀ i (h : i + 1 < ts.length), ts[i].seen + cfg.interval ≤ ts[i + 1].now

/-- These are the turns the loop made, and this is what it returned. -/
structure Waited (cfg : Config) (start : Int) (ts : List Turn) (r : Except EngineError Unit) :
    Prop where
  paced : Paced cfg start ts
  returned : awaitByClock cfg (start + cfg.patience) ts (ofSpec cfg.health) = some r
  onward : ∀ k, k < ts.length →
    awaitByClock cfg (start + cfg.patience) (ts.take k) (ofSpec cfg.health) = none

/-- The process was seen running at two moments so far apart, and at every
probe between them. -/
def Survived (ts : List Turn) (span : Int) : Prop :=
  ∃ i j, ∃ (hi : i < ts.length) (hj : j < ts.length), i ≤ j ∧
    AllOn succeeded (ts.map fun t => some t.result) i (j + 1) ∧ span ≤ ts[j].seen - ts[i].seen

variable {cfg : Config} {start deadline : Int} {ts : List Turn} {r : Except EngineError Unit}

/-! ## The loop by the clock and the loop by its count -/

/-- The turns that begin in time. -/
def inTime (deadline : Int) (ts : List Turn) : List Turn :=
  ts.takeWhile fun t => decide (t.now < deadline)

theorem awaitByClock_judge {checker : HealthChecker} :
    awaitByClock cfg deadline ts checker = some (.ok ()) ↔
      judge cfg ((inTime deadline ts).map Turn.result) checker = .ok () := by
  induction ts generalizing checker with
  | nil => exact iff_of_false (fun h => (by cases h)) fun h => (by cases h)
  | cons t ts ih =>
      rw [awaitByClock, inTime, List.takeWhile_cons]
      by_cases hnow : t.now < deadline
      · rw [if_pos hnow, if_pos (decide_eq_true hnow), List.map_cons, judge]
        split
        · exact iff_of_true rfl rfl
        · split
          · exact iff_of_false (fun h => (by cases h)) fun h => (by cases h)
          · exact ih
      · rw [if_neg hnow, if_neg (by simp [hnow])]
        exact iff_of_false (fun h => (by cases h)) fun h => (by cases h)

/-- By the clock, too, the wait succeeds at the moment of success. -/
theorem awaitByClock_iff :
    awaitByClock cfg deadline ts (ofSpec cfg.health) = some (.ok ()) ↔
      ∃ n, ReadyAt cfg.health ((inTime deadline ts).map fun t => some t.result) n := by
  rw [awaitByClock_judge, judge_iff, List.map_map]
  rfl

/-! ## Where a successful wait ends -/

theorem ReadyAt.take {spec : HealthCheckSpec} {l : List (Option (Except String Unit))} {n : Nat}
    (h : ReadyAt spec l n) : ReadyAt spec (l.take n) n := by
  have hlen : (l.take n).length = n := by rw [List.length_take, Nat.min_eq_left h.inTime]
  refine ⟨hlen.ge, h.enough, fun i hi ha hb => ?_, fun k hk hall => h.spared k hk ?_⟩
  · rw [List.getElem_take]
    exact h.running i (by have := h.inTime; omega) ha hb
  · intro i hi ha hb
    have := hall i (by omega) ha hb
    rwa [List.getElem_take] at this

/-- A wait that succeeded ends with the turn at which it was ready, and every
turn it made was in time. -/
theorem Waited.ready (h : Waited cfg start ts (.ok ())) :
    inTime (start + cfg.patience) ts = ts ∧
      ReadyAt cfg.health (ts.map fun t => some t.result) ts.length := by
  obtain ⟨n, hn⟩ := awaitByClock_iff.mp h.returned
  have hle : n ≤ (inTime (start + cfg.patience) ts).length := by
    have := hn.inTime
    rwa [List.length_map] at this
  have hlen : (inTime (start + cfg.patience) ts).length ≤ ts.length :=
    (List.takeWhile_prefix _).length_le
  have hend : ts.length ≤ n := by
    by_contra hlt
    have hnone := h.onward n (by omega)
    have hok : awaitByClock cfg (start + cfg.patience) (ts.take n) (ofSpec cfg.health) =
        some (.ok ()) := by
      refine awaitByClock_iff.mpr ⟨n, ?_⟩
      have htake := hn.take
      rwa [← List.map_take, inTime, List.take_takeWhile, ← inTime] at htake
    rw [hok] at hnone
    cases hnone
  have hself : inTime (start + cfg.patience) ts = ts :=
    (List.takeWhile_prefix _).eq_of_length
      (Nat.le_antisymm hlen (hend.trans hle))
  rw [hself] at hn hle
  exact ⟨hself, (by omega : n = ts.length) ▸ hn⟩

/-! ## The time between probes -/

theorem succ_mul_interval {k : Nat} :
    ((k + 1 : Nat) : Int) * cfg.interval = k * cfg.interval + cfg.interval := by
  rw [Int.natCast_succ, Int.add_mul, Int.one_mul]

theorem Paced.apart (hp : Paced cfg start ts) {i k : Nat} (h : i + k < ts.length) :
    ts[i].seen + k * cfg.interval ≤ ts[i + k].seen := by
  induction k with
  | zero => simp
  | succ k ih =>
      have hk := ih (by omega)
      have hsleep := hp.sleeps (i + k) h
      have hlook := hp.looks (i + k + 1) h
      rw [succ_mul_interval]
      show _ ≤ ts[i + k + 1].seen
      omega

/-- The turn with index `k` begins at least `k` sleeps after the start. -/
theorem Paced.late (hp : Paced cfg start ts) {k : Nat} (h : k < ts.length) :
    start + k * cfg.interval ≤ ts[k].now := by
  have hfirst : start ≤ ts[0].now :=
    hp.starts ts[0] (List.head?_eq_getElem? (l := ts) ▸ List.getElem?_eq_getElem (by omega))
  cases k with
  | zero => simpa using hfirst
  | succ k =>
      have hlook := hp.looks 0 (by omega)
      have hapart := hp.apart (i := 0) (k := k) (by omega)
      have hsleep := hp.sleeps k h
      rw [succ_mul_interval]
      simp only [Nat.zero_add] at hapart
      omega

/-- `success_threshold` times `interval_ms`. -/
def Config.promised (cfg : Config) : Int :=
  atLeastOne cfg.health.successThreshold * cfg.health.interval * 1000000

/-- One probe is enough to have been seen running at a moment. -/
theorem Waited.seen (h : Waited cfg start ts (.ok ())) : Survived ts 0 := by
  have hr := h.ready.2
  have hpos := atLeastOne_pos (t := cfg.health.successThreshold)
  have hlen : 0 < ts.length := Nat.lt_of_lt_of_le hpos hr.enough
  refine ⟨ts.length - 1, ts.length - 1, by omega, by omega, le_rfl, ?_, by simp⟩
  intro i hi ha hb
  exact hr.running i hi (by omega) (by omega)

/-- What a success does say: one interval less than the documentation. -/
theorem Waited.span (h : Waited cfg start ts (.ok ())) :
    Survived ts ((atLeastOne cfg.health.successThreshold - 1 : Nat) * cfg.interval) := by
  have hr := h.ready.2
  have hpos := atLeastOne_pos (t := cfg.health.successThreshold)
  have hle := hr.enough
  refine ⟨ts.length - atLeastOne cfg.health.successThreshold, ts.length - 1, by omega, by omega,
    by omega, ?_, ?_⟩
  · intro i hi ha hb
    exact hr.running i hi ha (by omega)
  · have hapart := h.paced.apart (i := ts.length - atLeastOne cfg.health.successThreshold)
      (k := atLeastOne cfg.health.successThreshold - 1) (by omega)
    have hidx : ts.length - atLeastOne cfg.health.successThreshold +
        (atLeastOne cfg.health.successThreshold - 1) = ts.length - 1 := by omega
    simp only [hidx] at hapart
    omega

/-- A success takes as many turns as it counts, and the last is in time. -/
theorem Waited.patient (h : Waited cfg start ts (.ok ())) :
    (atLeastOne cfg.health.successThreshold - 1 : Nat) * cfg.interval < cfg.patience := by
  obtain ⟨hself, hr⟩ := h.ready
  have hpos := atLeastOne_pos (t := cfg.health.successThreshold)
  have hle := hr.enough
  have hk : atLeastOne cfg.health.successThreshold - 1 < ts.length := by omega
  have hlate := h.paced.late hk
  have hnow := List.takeWhile_eq_self_iff.mp hself _ (List.getElem_mem hk)
  have hlt := of_decide_eq_true hnow
  omega

/-! ## A service that runs from the start -/

/-- `n` turns, one interval apart, and the process runs at each of them. -/
def steadily (interval : Int) (n : Nat) : List Turn :=
  (List.range n).map fun i : Nat => ⟨i * interval, i * interval, .ok ()⟩

section Steady

variable {n : Nat} {interval : Int}

@[simp] theorem length_steadily : (steadily interval n).length = n := by simp [steadily]

theorem getElem_steadily {i : Nat} (h : i < (steadily interval n).length) :
    (steadily interval n)[i] = ⟨i * interval, i * interval, .ok ()⟩ := by
  simp [steadily]

theorem of_mem_steadily {t : Turn} (h : t ∈ steadily interval n) :
    t.result = .ok () ∧ ∃ i, i < n ∧ t.now = i * interval := by
  obtain ⟨i, hi, rfl⟩ := List.mem_map.mp h
  exact ⟨rfl, i, List.mem_range.mp hi, rfl⟩

/-- While its successes are too few the loop goes on. -/
theorem awaitByClock_few {checker : HealthChecker} (hnow : ∀ t ∈ ts, t.now < deadline)
    (hok : ∀ t ∈ ts, t.result = .ok ()) (hstate : checker.state = .unknown)
    (hfew : checker.consecutiveSuccesses + ts.length < checker.spec.successThreshold) :
    awaitByClock cfg deadline ts checker = none := by
  induction ts generalizing checker with
  | nil => rfl
  | cons t ts ih =>
      rw [List.length_cons, Int.natCast_succ] at hfew
      have hstill : checker.succeed.state = .unknown := by
        rw [← hstate]
        exact if_neg (by omega)
      have hnext : checker.evaluate (some t.result) = checker.succeed := by
        rw [hok t List.mem_cons_self]
        rfl
      rw [awaitByClock, if_pos (hnow t List.mem_cons_self), hnext, hstill, if_neg (by decide),
        if_neg (by decide)]
      refine ih (fun u hu => hnow u (List.mem_cons_of_mem t hu))
        (fun u hu => hok u (List.mem_cons_of_mem t hu)) hstill ?_
      show checker.consecutiveSuccesses + 1 + _ < checker.spec.successThreshold
      omega

/-- Where the deadline leaves the time, such a service is ready when it has
been seen as often as the threshold asks for. -/
theorem waited_steadily
    (htime : (atLeastOne cfg.health.successThreshold - 1 : Nat) * cfg.interval < cfg.patience) :
    Waited cfg 0 (steadily cfg.interval (atLeastOne cfg.health.successThreshold)) (.ok ()) := by
  have hI : 0 ≤ cfg.interval := Int.mul_nonneg (Int.le_max_left _ _) (by decide)
  have hnow : ∀ t ∈ steadily cfg.interval (atLeastOne cfg.health.successThreshold),
      t.now < 0 + cfg.patience := by
    intro t ht
    obtain ⟨_, i, hi, hti⟩ := of_mem_steadily ht
    have hle : (i : Int) * cfg.interval ≤
        (atLeastOne cfg.health.successThreshold - 1 : Nat) * cfg.interval :=
      Int.mul_le_mul_of_nonneg_right (by omega) hI
    omega
  constructor
  case paced =>
    refine ⟨fun t ht => ?_, fun i h => ?_, fun i h => ?_⟩
    · obtain ⟨_, i, hi, hti⟩ := of_mem_steadily (List.mem_of_head? ht)
      rw [hti]
      exact Int.mul_nonneg (by omega) hI
    · rw [getElem_steadily]
    · rw [getElem_steadily, getElem_steadily]
      exact succ_mul_interval.ge
  case returned =>
    have hself : inTime (0 + cfg.patience)
        (steadily cfg.interval (atLeastOne cfg.health.successThreshold)) = steadily _ _ :=
      List.takeWhile_eq_self_iff.mpr fun t ht => decide_eq_true (hnow t ht)
    have hrun : ∀ i (h : i < ((steadily cfg.interval
        (atLeastOne cfg.health.successThreshold)).map fun t => some t.result).length),
        succeeded ((steadily cfg.interval (atLeastOne cfg.health.successThreshold)).map
          fun t => some t.result)[i] = true := by
      intro i h
      rw [List.getElem_map, getElem_steadily]
      rfl
    refine awaitByClock_iff.mpr ⟨atLeastOne cfg.health.successThreshold, ?_⟩
    rw [hself]
    refine ⟨by simp, le_rfl, fun i hi _ _ => hrun i hi, fun k hk hall => ?_⟩
    have hpos := atLeastOne_pos (t := cfg.health.failureThreshold)
    have hlen : k < ((steadily cfg.interval
        (atLeastOne cfg.health.successThreshold)).map fun t => some t.result).length := by
      rw [List.length_map, length_steadily]
      omega
    have hbad := hall k hlen le_rfl (by omega)
    rw [failed, hrun k hlen] at hbad
    cases hbad
  case onward =>
    intro k hk
    rw [length_steadily] at hk
    refine awaitByClock_few (fun t ht => hnow t (List.mem_of_mem_take ht))
      (fun t ht => (of_mem_steadily (List.mem_of_mem_take ht)).1) rfl ?_
    rw [List.length_take, length_steadily, Nat.min_eq_left hk.le]
    show (0 : Int) + k < if cfg.health.successThreshold ≤ 0 then 1 else _
    rw [← atLeastOne_cast]
    omega

/-- Its probes lie one interval less apart than there are of them. -/
theorem not_survived_steadily (hI : 0 < interval) :
    ¬ Survived (steadily interval n) (n * interval) := by
  rintro ⟨i, j, hi, hj, hij, -, hspan⟩
  rw [getElem_steadily, getElem_steadily] at hspan
  rw [length_steadily] at hj
  have hi0 : 0 ≤ (i : Int) * interval := Int.mul_nonneg (by omega) hI.le
  have hlt : (j : Int) * interval < n * interval :=
    Int.mul_lt_mul_of_pos_right (by omega) hI
  dsimp only at hspan
  omega

end Steady

/-- Every success means the time that the documentation promises exactly
where no time is promised, or where the deadline comes too soon for any
success. -/
theorem survival_iff (cfg : Config) :
    (∀ start ts, Waited cfg start ts (.ok ()) → Survived ts cfg.promised) ↔
      cfg.health.interval ≤ 0 ∨
        cfg.service.startupTimeout * 1000 ≤
          (atLeastOne cfg.health.successThreshold - 1) * cfg.health.interval := by
  have hpos := atLeastOne_pos (t := cfg.health.successThreshold)
  by_cases hnone : cfg.health.interval ≤ 0
  · refine iff_of_true (fun start ts h => ?_) (Or.inl hnone)
    obtain ⟨i, j, hi, hj, hij, hall, hspan⟩ := h.seen
    refine ⟨i, j, hi, hj, hij, hall, le_trans ?_ hspan⟩
    have hle : atLeastOne cfg.health.successThreshold * cfg.health.interval ≤ 0 :=
      Int.mul_nonpos_of_nonneg_of_nonpos (by omega) hnone
    unfold Config.promised
    omega
  have hsleep : (atLeastOne cfg.health.successThreshold - 1 : Nat) * cfg.interval =
      (atLeastOne cfg.health.successThreshold - 1) * cfg.health.interval * 1000000 := by
    rw [Config.interval, Int.max_eq_right (by omega), ← Int.mul_assoc, Int.natCast_sub hpos]
    rfl
  have htime : cfg.service.startupTimeout * 1000 ≤
      (atLeastOne cfg.health.successThreshold - 1) * cfg.health.interval ↔
        ¬ (atLeastOne cfg.health.successThreshold - 1 : Nat) * cfg.interval < cfg.patience := by
    rw [hsleep, Config.patience]
    omega
  rw [htime]
  constructor
  · intro h
    refine Or.inr fun hlt => ?_
    have hno : 0 < cfg.interval →
        ¬ Survived (steadily cfg.interval (atLeastOne cfg.health.successThreshold))
          (atLeastOne cfg.health.successThreshold * cfg.interval) := not_survived_steadily
    refine hno ?_ ?_
    · rw [Config.interval, Int.max_eq_right (by omega)]
      omega
    · have hp : cfg.promised =
          (atLeastOne cfg.health.successThreshold : Int) * cfg.interval := by
        rw [Config.promised, Config.interval, Int.max_eq_right (by omega), Int.mul_assoc]
      rw [← hp]
      exact h 0 _ (waited_steadily hlt)
  · rintro (h | h) start ts hw
    · exact absurd h hnone
    · exact absurd hw.patient h

/-- With the thresholds and the interval a service has when it sets none, a
process that was seen once is good, and it may die at once. -/
theorem seen_once_is_ready :
    Sample.cfg.promised = 1000000000 ∧
      Waited Sample.cfg 0 [⟨0, 0, .ok ()⟩] (.ok ()) ∧
      ¬ Survived [⟨0, 0, .ok ()⟩] Sample.cfg.promised := by
  have hwaited : Waited Sample.cfg 0
      (steadily Sample.cfg.interval (atLeastOne Sample.cfg.health.successThreshold)) (.ok ()) :=
    waited_steadily (by decide)
  have hno : ¬ Survived (steadily Sample.cfg.interval 1) ((1 : Nat) * Sample.cfg.interval) :=
    not_survived_steadily (by decide)
  exact ⟨rfl, hwaited, hno⟩

end Yirang.Deploy
