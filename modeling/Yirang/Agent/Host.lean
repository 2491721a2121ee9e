/-
# `Yirang.Agent.Host` — the calls of an agent

The agent makes the calls of its device, and some of its own: it sends its
reports to a queue, asks the system for a reboot, and looks at disk space
for its status.  A host is a device and what was sent from it.

    answer         what each call returns and leaves
    extends_device the deployment engine runs in an agent as it does alone

What a queue does with a report is not the agent's: `send` says whether the
call returned well, and the host notes that it was made.
-/
import Yirang.Deploy.Model
import Yirang.Effect.Embed

namespace Yirang

open Fs Effect Device

namespace Agent

/-- `std::filesystem::space_info` -/
structure Space where
  capacity : Nat := 0
  free : Nat := 0
  available : Nat := 0
deriving DecidableEq

inductive Op where
  | device (o : Device.Op)
  | send (queueUrl body : String)
  | requestReboot
  /-- `weakly_canonical`: without symbolic links, the path itself. -/
  | weaklyCanonical (p : Path)
  | currentPath
  | space (p : Option Path)
  | hardwareConcurrency

abbrev Op.Res : Op → Type
  | .device o => o.Res
  | .send _ _ | .requestReboot => Except String Unit
  | .weaklyCanonical _ | .currentPath => Option Path
  | .space _ => Except String Space
  | .hardwareConcurrency => Nat

end Agent

/-- The signature of the agent. -/
abbrev agent : Sig := ⟨Agent.Op, Agent.Op.Res⟩

/-- A device, and the messages sent from it, newest first: the queue and the
body. -/
structure Host where
  device : World
  sent : List (String × String) := []

namespace Agent

/-- What one call of an agent depends on beside what a device's does. -/
structure Turn extends Choice where
  space : Space := {}
  /-- The directory the agent was started in. -/
  here : Path := []

def answer : Answers agent Host Turn
  | c, .device o, h =>
      ((Device.answer c.toChoice o h.device).1,
        { h with device := (Device.answer c.toChoice o h.device).2 })
  | c, .send queueUrl body, h =>
      (match c.chance.fault with
        | some e => .error e
        | none => .ok (),
        { h with sent := (queueUrl, body) :: h.sent })
  | c, .requestReboot, h =>
      (match c.chance.fault with
        | some e => .error e
        | none => .ok (), h)
  | c, .weaklyCanonical p, h =>
      (match c.chance.fault with
        | some _ => none
        | none => some p, h)
  | c, .currentPath, h =>
      (match c.chance.fault with
        | some _ => none
        | none => some c.here, h)
  | c, .space p, h =>
      (match c.chance.fault, p with
        | some e, _ => .error e
        | none, none => .error "No such file or directory"
        | none, some _ => .ok c.space, h)
  | c, .hardwareConcurrency, h => (c.count, h)

/-! ## The device as a part of the host -/

def devicePart : Lens Host World where
  get h := h.device
  put w h := { h with device := w }
  get_put _ _ := rfl
  put_get _ := rfl
  put_put _ _ _ := rfl

def deviceCalls : Embedding Yirang.device agent where
  op := .device
  res _ r := r

theorem extends_device :
    Extends deviceCalls Device.answer answer devicePart Turn.toChoice where
  res _ _ _ := rfl
  world _ _ _ := rfl

/-- The call is one of the device. -/
def IsDevice : Op → Prop
  | .device _ => True
  | _ => False

def IsSend : Op → Prop
  | .send _ _ => True
  | _ => False

/-- A call that is no `send` sends nothing. -/
theorem answer_sent {c : Turn} {o : Op} {h : Host} (ho : ¬ IsSend o) :
    (answer c o h).2.sent = h.sent := by
  cases o with
  | send q b => exact absurd trivial ho
  | device o => rfl
  | requestReboot => rfl
  | weaklyCanonical p => rfl
  | currentPath => rfl
  | space p => rfl
  | hardwareConcurrency => rfl

/-- Only a call of the device changes it. -/
theorem answer_device {c : Turn} {o : Op} {h : Host} (ho : ¬ IsDevice o) :
    (answer c o h).2.device = h.device := by
  cases o with
  | device o => exact absurd trivial ho
  | send q b => rfl
  | requestReboot => rfl
  | weaklyCanonical p => rfl
  | currentPath => rfl
  | space p => rfl
  | hardwareConcurrency => rfl

end Agent

end Yirang
