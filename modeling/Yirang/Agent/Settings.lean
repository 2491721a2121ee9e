/-
# `Yirang.Agent.Settings` — the numbers in an agent's configuration

A number is read from the configuration file as 64 bits, kept as 32, checked
against a range, and handed on, the port of the health check as 16.

    load                    what the file says of each setting
    validateConfiguration   a number out of its range is replaced
    worksWith               the number that the agent works with
    setting_kept_iff        when that is the number given, or the replacement

A number is cut before it is checked, so a range only sees what is left of
it; and the port has no range at all.
-/
import Yirang.Json

namespace Yirang.Agent

/-- `(int)` of a 64-bit number. -/
def toInt (i : Int) : Int := i.bmod 4294967296

/-- `(uint16_t)` -/
def toUInt16 (i : Int) : Int := i % 65536

/-- The numbers of `Configurations`, as its constructor sets them. -/
structure Settings where
  writeInterval : Int := 1000
  pollWaitSeconds : Int := 20
  keepPreviousReleases : Int := 2
  stopTimeoutSeconds : Int := 30
  startupTimeoutSeconds : Int := 60
  healthPort : Int := 0
  healthTimeoutMs : Int := 2000
  healthIntervalMs : Int := 1000
  healthSuccessThreshold : Int := 1
  healthFailureThreshold : Int := 3

namespace Settings

def readInt (message : Json.Fields) (key : String) (target : Int) : Int :=
  match Json.readInt64 message key with
  | some i => toInt i
  | none => target

/-- A section that is not there says nothing. -/
def readNested (message : Json.Fields) (name : String) : Json.Fields :=
  (Json.readObject message name).getD []

/-- The file as it was parsed, if it was. -/
def load (file : Option Json) (s : Settings) : Settings :=
  match file.bind Json.object? with
  | none => s
  | some message =>
      let service := readNested message "service"
      let health := readNested message "health"
      { writeInterval := readInt message "write_interval" s.writeInterval
        pollWaitSeconds := readInt message "poll_wait_seconds" s.pollWaitSeconds
        keepPreviousReleases := readInt message "keep_previous_releases" s.keepPreviousReleases
        stopTimeoutSeconds := readInt service "stop_timeout_seconds" s.stopTimeoutSeconds
        startupTimeoutSeconds := readInt service "startup_timeout_seconds" s.startupTimeoutSeconds
        healthPort := readInt health "port" s.healthPort
        healthTimeoutMs := readInt health "timeout_ms" s.healthTimeoutMs
        healthIntervalMs := readInt health "interval_ms" s.healthIntervalMs
        healthSuccessThreshold := readInt health "success_threshold" s.healthSuccessThreshold
        healthFailureThreshold := readInt health "failure_threshold" s.healthFailureThreshold }

def validateConfiguration (s : Settings) : Settings where
  writeInterval :=
    if s.writeInterval < 0 ∨ s.writeInterval > 65535 then 1000 else s.writeInterval
  pollWaitSeconds :=
    if s.pollWaitSeconds < 0 ∨ s.pollWaitSeconds > 20 then 20 else s.pollWaitSeconds
  keepPreviousReleases := if s.keepPreviousReleases < 0 then 2 else s.keepPreviousReleases
  stopTimeoutSeconds := if s.stopTimeoutSeconds < 1 then 30 else s.stopTimeoutSeconds
  startupTimeoutSeconds := if s.startupTimeoutSeconds < 1 then 60 else s.startupTimeoutSeconds
  healthPort := s.healthPort
  healthTimeoutMs := if s.healthTimeoutMs < 1 then 2000 else s.healthTimeoutMs
  healthIntervalMs := if s.healthIntervalMs < 1 then 1000 else s.healthIntervalMs
  healthSuccessThreshold := if s.healthSuccessThreshold < 1 then 1 else s.healthSuccessThreshold
  healthFailureThreshold := if s.healthFailureThreshold < 1 then 3 else s.healthFailureThreshold

/-- The constructor; no argument of the command line is about these numbers. -/
def ofFile (file : Option Json) : Settings := validateConfiguration (load file {})

/-- The numbers of a `HealthCheckSpec`. -/
structure HealthNumbers where
  port : Int
  timeout : Int
  interval : Int
  successThreshold : Int
  failureThreshold : Int

def makeHealthSpec (s : Settings) : HealthNumbers where
  port := toUInt16 s.healthPort
  timeout := s.healthTimeoutMs
  interval := s.healthIntervalMs
  successThreshold := s.healthSuccessThreshold
  failureThreshold := s.healthFailureThreshold

end Settings

/-! ## One setting -/

inductive Setting where
  | writeInterval
  | pollWaitSeconds
  | keepPreviousReleases
  | stopTimeoutSeconds
  | startupTimeoutSeconds
  | healthPort
  | healthTimeoutMs
  | healthIntervalMs
  | healthSuccessThreshold
  | healthFailureThreshold
deriving DecidableEq

namespace Setting

/-- The section it stands in, if any, and its name there. -/
def place : Setting → Option String × String
  | .writeInterval => (none, "write_interval")
  | .pollWaitSeconds => (none, "poll_wait_seconds")
  | .keepPreviousReleases => (none, "keep_previous_releases")
  | .stopTimeoutSeconds => (some "service", "stop_timeout_seconds")
  | .startupTimeoutSeconds => (some "service", "startup_timeout_seconds")
  | .healthPort => (some "health", "port")
  | .healthTimeoutMs => (some "health", "timeout_ms")
  | .healthIntervalMs => (some "health", "interval_ms")
  | .healthSuccessThreshold => (some "health", "success_threshold")
  | .healthFailureThreshold => (some "health", "failure_threshold")

/-- The number that the file gives. -/
def given (setting : Setting) (message : Json.Fields) : Option Int :=
  match setting.place.1 with
  | none => Json.readInt64 message setting.place.2
  | some name => Json.readInt64 (Settings.readNested message name) setting.place.2

/-- What the agent works with. -/
def worksWith : Setting → Settings → Int
  | .writeInterval, s => toUInt16 s.writeInterval
  | .pollWaitSeconds, s => s.pollWaitSeconds
  | .keepPreviousReleases, s => s.keepPreviousReleases
  | .stopTimeoutSeconds, s => s.stopTimeoutSeconds
  | .startupTimeoutSeconds, s => s.startupTimeoutSeconds
  | .healthPort, s => s.makeHealthSpec.port
  | .healthTimeoutMs, s => s.makeHealthSpec.timeout
  | .healthIntervalMs, s => s.makeHealthSpec.interval
  | .healthSuccessThreshold, s => s.makeHealthSpec.successThreshold
  | .healthFailureThreshold, s => s.makeHealthSpec.failureThreshold

/-- What stands in for a number that is not there or not accepted. -/
def fallback : Setting → Int
  | .writeInterval => 1000
  | .pollWaitSeconds => 20
  | .keepPreviousReleases => 2
  | .stopTimeoutSeconds => 30
  | .startupTimeoutSeconds => 60
  | .healthPort => 0
  | .healthTimeoutMs => 2000
  | .healthIntervalMs => 1000
  | .healthSuccessThreshold => 1
  | .healthFailureThreshold => 3

def least : Setting → Int
  | .writeInterval | .pollWaitSeconds | .keepPreviousReleases | .healthPort => 0
  | .stopTimeoutSeconds | .startupTimeoutSeconds | .healthTimeoutMs | .healthIntervalMs
  | .healthSuccessThreshold | .healthFailureThreshold => 1

/-- Where only a lower bound is checked, what an `int` can hold. -/
def greatest : Setting → Int
  | .writeInterval | .healthPort => 65535
  | .pollWaitSeconds => 20
  | .keepPreviousReleases | .stopTimeoutSeconds | .startupTimeoutSeconds | .healthTimeoutMs
  | .healthIntervalMs | .healthSuccessThreshold | .healthFailureThreshold => 2147483647

/-- The range of numbers that are accepted. -/
def Accepts (setting : Setting) (v : Int) : Prop := setting.least ≤ v ∧ v ≤ setting.greatest

instance (setting : Setting) (v : Int) : Decidable (setting.Accepts v) :=
  inferInstanceAs (Decidable (_ ∧ _))

/-- What is left of a number when it comes to be checked. -/
def cut : Setting → Int → Int
  | .healthPort, v => toUInt16 v
  | _, v => toInt v

/-- The number itself, from the range, or the one that stands in for it. -/
def Keeps (setting : Setting) (v worked : Int) : Prop :=
  (worked = v ∧ setting.Accepts v) ∨ worked = setting.fallback

variable {setting : Setting} {message : Json.Fields} {v : Int}

theorem toInt_bounds (v : Int) : -2147483648 ≤ toInt v ∧ toInt v ≤ 2147483647 := by
  have hlow := Int.le_bmod (x := v) (m := 4294967296) (by decide)
  have hhigh := Int.bmod_lt (x := v) (m := 4294967296) (by decide)
  unfold toInt
  omega

theorem toInt_of_bounds (h : -2147483648 ≤ v) (h' : v ≤ 2147483647) : toInt v = v :=
  Int.bmod_eq_of_le (by omega) (by omega)

theorem toUInt16_toInt : toUInt16 (toInt v) = toUInt16 v := by
  unfold toUInt16 toInt
  rw [Int.bmod_def]
  split <;> omega

/-- Every replacement passes the check. -/
theorem accepts_fallback (setting : Setting) : setting.Accepts setting.fallback := by
  cases setting <;> decide

/-- A number in the range is left as it is. -/
theorem cut_of_accepts (h : setting.Accepts v) : setting.cut v = v := by
  obtain ⟨hlow, hhigh⟩ := h
  cases setting <;>
    first
    | exact toInt_of_bounds (by simp only [least] at hlow; omega)
        (by simp only [greatest] at hhigh; omega)
    | exact Int.emod_eq_of_lt hlow (by simp only [greatest] at hhigh; omega)

/-- What the agent works with, for every number given. -/
theorem worksWith_ofFile (h : setting.given message = some v) :
    setting.worksWith (.ofFile (some (.object message))) =
      if setting.Accepts (setting.cut v) then setting.cut v else setting.fallback := by
  obtain ⟨hlow, hhigh⟩ := toInt_bounds v
  cases setting with
  | healthPort =>
      simp only [given, place] at h
      simp only [worksWith, Settings.makeHealthSpec, Settings.ofFile, Settings.load,
        Option.bind_some, Json.object?, Settings.validateConfiguration, Settings.readInt, h, cut,
        toUInt16_toInt]
      refine (if_pos ⟨Int.emod_nonneg v (by decide), ?_⟩).symm
      exact Int.le_of_lt_add_one (Int.emod_lt_of_pos v (by decide))
  | _ =>
      simp only [given, place] at h
      split <;> rename_i haccepts <;> simp only [Accepts, least, greatest, cut] at haccepts <;>
        simp only [worksWith, Settings.makeHealthSpec, Settings.ofFile, Settings.load,
          Option.bind_some, Json.object?, Settings.validateConfiguration, Settings.readInt, h,
          toUInt16, cut, fallback]
      · split <;> omega
      · split <;> omega

/-- The agent works with the number given or with its replacement exactly if
the number is in the range, or if what is left of it after the cuts is out of
the range or is the replacement. -/
theorem setting_kept_iff (setting : Setting) (message : Json.Fields) (v : Int)
    (h : setting.given message = some v) :
    setting.Keeps v (setting.worksWith (.ofFile (some (.object message)))) ↔
      setting.Accepts v ∨ ¬ setting.Accepts (setting.cut v) ∨ setting.cut v = setting.fallback := by
  rw [worksWith_ofFile h]
  constructor
  · intro hkeeps
    split at hkeeps
    · rcases hkeeps with ⟨-, haccepts⟩ | hfallback
      · exact Or.inl haccepts
      · exact Or.inr (Or.inr hfallback)
    · exact Or.inr (Or.inl ‹_›)
  · rintro (haccepts | hout | hfallback)
    · rw [cut_of_accepts haccepts, if_pos haccepts]
      exact Or.inl ⟨rfl, haccepts⟩
    · rw [if_neg hout]
      exact Or.inr rfl
    · rw [hfallback, ite_self]
      exact Or.inr rfl

theorem setting_kept_iff_interval :
    Setting.Keeps .writeInterval 70000
      (Setting.worksWith .writeInterval
        (.ofFile (some (.object [("write_interval", .int64 70000)])))) :=
  (setting_kept_iff .writeInterval [("write_interval", .int64 70000)] 70000 rfl).mpr
    (Or.inr (Or.inl (by decide)))

/-- A port is only cut. -/
example : Setting.worksWith .healthPort
    (.ofFile (some (.object [("health", .object [("port", .int64 70000)])]))) = 4464 := by
  decide

/-- An interval that needs 33 bits is one of 5. -/
theorem number_becomes_another :
    ¬ ∀ (setting : Setting) (message : Json.Fields) (v : Int), setting.given message = some v →
      setting.Keeps v (setting.worksWith (.ofFile (some (.object message)))) := by
  intro h
  have hkeeps := h .writeInterval [("write_interval", .int64 4294967301)] 4294967301 rfl
  exact absurd hkeeps (by unfold Keeps; decide)

end Setting

end Yirang.Agent
