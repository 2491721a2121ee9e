/-
# `Yirang.Health` — when a started process counts as ready

`HealthChecker` counts probes: so many successes in a row make it healthy,
so many failures in a row unhealthy, and a probe of the other kind starts
the count again.  Once it has an opinion it keeps it until the opposite
threshold is reached.

    evaluate       one probe's result taken into account
    processProbe   what the probe of a process makes of its status
-/
import Yirang.Device

namespace Yirang.Health

inductive CheckKind where
  | process | tcp | http
deriving DecidableEq

inductive HealthState where
  | unknown | healthy | unhealthy
deriving DecidableEq

structure HealthCheckSpec where
  kind : CheckKind := .process
  interval : Int := 1000
  successThreshold : Int := 1
  failureThreshold : Int := 3

structure HealthChecker where
  spec : HealthCheckSpec
  state : HealthState
  consecutiveSuccesses : Int
  consecutiveFailures : Int
  lastError : Option String

namespace HealthChecker

/-- The constructor: thresholds are at least one. -/
def ofSpec (spec : HealthCheckSpec) : HealthChecker where
  spec :=
    { spec with
      successThreshold := if spec.successThreshold ≤ 0 then 1 else spec.successThreshold
      failureThreshold := if spec.failureThreshold ≤ 0 then 1 else spec.failureThreshold }
  state := .unknown
  consecutiveSuccesses := 0
  consecutiveFailures := 0
  lastError := none

def succeed (c : HealthChecker) : HealthChecker :=
  { c with
    consecutiveSuccesses := c.consecutiveSuccesses + 1
    consecutiveFailures := 0
    lastError := none
    state := if c.consecutiveSuccesses + 1 ≥ c.spec.successThreshold then .healthy else c.state }

def fail (c : HealthChecker) (why : String) : HealthChecker :=
  { c with
    consecutiveSuccesses := 0
    consecutiveFailures := c.consecutiveFailures + 1
    lastError := some why
    state := if c.consecutiveFailures + 1 ≥ c.spec.failureThreshold then .unhealthy else c.state }

/-- One probe; `none` where no probe is configured. -/
def evaluate (c : HealthChecker) : Option (Except String Unit) → HealthChecker
  | none => c.fail "health probe is not configured"
  | some (.ok _) => c.succeed
  | some (.error why) => c.fail why

end HealthChecker

/-- `ProcessProbe::probe`, from the status of the process. -/
def processProbe (handle : ProcessHandle) : Except String ProcessStatus → Except String Unit
  | .error why => .error why
  | .ok status =>
      match status.state with
      | .running => .ok ()
      | .exited => .error s!"process {handle.id} exited with code {status.exitCode.getD (-1)}"
      | .signaled => .error s!"process {handle.id} terminated by signal {status.signal.getD (-1)}"
      | .unknown => .error s!"process {handle.id} state is unknown"

end Yirang.Health
