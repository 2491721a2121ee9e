/-
# `Yirang.Api.Fanout` — the goroutines of a publish

`publish` starts one goroutine for each of its targets and waits for them
all.  A goroutine takes a slot of a channel that holds at most eight, sends,
writes its delivery at its own index, gives the slot back and is done.

    Stage     where a goroutine is
    Step      one goroutine, or the loop that starts them, takes a step
    Sound     the channel and the wait group count what the stages say, and
              every goroutine has left what its stage says
    gathered  what the deliveries amount to, by the outcomes alone
    Returned  what the caller is given, entry by entry

A step moves one goroutine to its next stage, so the invariant is the frame
of the others and one line for each stage.  `publish_gathers` ties the
result to `Api.publish`, where the sends come one after another.
-/
import Yirang.Api.Model
import Mathlib.Data.List.Count
import Mathlib.Data.List.Perm.Basic

namespace Yirang.Api

/-! ## One element of a list replaced -/

section Counting

variable {α : Type} {l : List α} {i : Nat} {a b : α}

/-- The weights of a list together. -/
def total (weight : α → Nat) : List α → Nat
  | [] => 0
  | x :: rest => weight x + total weight rest

theorem total_set (weight : α → Nat) (h : l[i]? = some a) :
    total weight (l.set i b) + weight a = total weight l + weight b := by
  induction l generalizing i with
  | nil => cases h
  | cons x rest ih =>
      cases i with
      | zero =>
          cases h
          simp only [List.set_cons_zero, total]
          omega
      | succ i =>
          have := ih (i := i) h
          simp only [List.set_cons_succ, total]
          omega

theorem countP_eq_total (p : α → Bool) :
    l.countP p = total (fun x => if p x then 1 else 0) l := by
  induction l with
  | nil => rfl
  | cons x rest ih => rw [List.countP_cons, ih, total, Nat.add_comm]

theorem countP_set_add (p : α → Bool) (h : l[i]? = some a) :
    (l.set i b).countP p + (if p a then 1 else 0) = l.countP p + (if p b then 1 else 0) := by
  rw [countP_eq_total, countP_eq_total]
  exact total_set (fun x => if p x then 1 else 0) h

end Counting

/-! ## What is sent and what comes of it -/

/-- A publish to these targets, and what `Send` will say to each. -/
structure Fanout where
  command : String
  body : String
  targets : List DeviceQueue
  outcome : Nat → Except String String

def delivery (target : DeviceQueue) : Except String String → Delivery
  | .ok messageId => { queue := target.name, queueUrl := target.url, messageId }
  | .error e => { queue := target.name, queueUrl := target.url, error := e }

/-- The end of `publish`, from its deliveries. -/
def Fanout.conclusion (f : Fanout) (deliveries : List Delivery) :
    Except ApiError PublishResult :=
  let published := (deliveries.filter fun delivery => delivery.error = "").length
  if published = 0 then .error (.allTargetsFailed f.targets.length)
  else .ok { command := f.command, targeted := f.targets.length, published, deliveries }

def delivered : Except String String → Bool
  | .ok _ => true
  | .error _ => false

namespace Fanout

variable (f : Fanout)

def maxConcurrentSends : Nat := 8

/-- `min(maxConcurrentSends, len(targets))` -/
def capacity : Nat := min maxConcurrentSends f.targets.length

/-- One delivery for each target, in the order of the configuration. -/
def deliveries : List Delivery := f.targets.zipIdx.map fun t => delivery t.1 (f.outcome t.2)

def successes : Nat := (List.range f.targets.length).countP fun i => delivered (f.outcome i)

/-- What a publish returns, by the outcomes of its sends. -/
def gathered : Except ApiError PublishResult :=
  if f.successes = 0 then .error (.allTargetsFailed f.targets.length)
  else .ok
    { command := f.command
      targeted := f.targets.length
      published := f.successes
      deliveries := f.deliveries }

end Fanout

/-! ## Goroutines -/

inductive Stage where
  /-- Not started yet. -/
  | unborn
  /-- In front of `slots <- struct{}{}`. -/
  | waiting
  | holding
  /-- Inside `Send`. -/
  | sending
  | answered (sent : Except String String)
  | written
  /-- After `<-slots`. -/
  | released
  /-- After `waiter.Done()`. -/
  | finished

namespace Stage

/-- It has an element in the channel. -/
def hasSlot : Stage → Bool
  | holding | sending | answered _ | written => true
  | _ => false

/-- The wait group waits for it. -/
def running : Stage → Bool
  | unborn | finished => false
  | _ => true

def inSend : Stage → Bool
  | sending => true
  | _ => false

/-- It has called `Send`. -/
def hasSent : Stage → Bool
  | unborn | waiting | holding => false
  | _ => true

def hasWritten : Stage → Bool
  | written | released | finished => true
  | _ => false

/-- How many steps it has left. -/
def left : Stage → Nat
  | unborn => 7
  | waiting => 6
  | holding => 5
  | sending => 4
  | answered _ => 3
  | written => 2
  | released => 1
  | finished => 0

end Stage

structure Sent where
  index : Nat
  queueUrl : String
  body : String
deriving DecidableEq

/-- A publish under way.  `sent` are the calls of `Send`, oldest first. -/
structure Publishing where
  stages : List Stage
  /-- The elements of the channel. -/
  slots : Nat := 0
  /-- The count of the wait group. -/
  waiter : Nat := 0
  deliveries : List Delivery
  sent : List Sent := []
  result : Option (Except ApiError PublishResult) := none

namespace Publishing

def initial (f : Fanout) : Publishing where
  stages := List.replicate f.targets.length .unborn
  deliveries := List.replicate f.targets.length { queue := "", queueUrl := "" }

/-- Goroutine `i` gets to its next stage. -/
def move (s : Publishing) (i : Nat) (stage : Stage) : Publishing :=
  { s with stages := s.stages.set i stage }

/-- The sends that have begun and not returned. -/
def inFlight (s : Publishing) : Nat := s.stages.countP Stage.inSend

/-- The steps that are left. -/
def left (s : Publishing) : Nat :=
  total Stage.left s.stages + (if s.result.isNone then 1 else 0)

inductive Step (f : Fanout) : Publishing → Publishing → Prop
  /-- `waiter.Add(1)`, `go func() { … }()`; the loop goes through the targets
  in their order. -/
  | spawn {s : Publishing} (i : Nat) : s.stages[i]? = some .unborn →
      (∀ j, j < i → s.stages[j]? ≠ some Stage.unborn) →
      Step f s { s.move i .waiting with waiter := s.waiter + 1 }
  /-- A channel that is full makes the goroutine wait. -/
  | acquire {s : Publishing} (i : Nat) : s.stages[i]? = some .waiting → s.slots < f.capacity →
      Step f s { s.move i .holding with slots := s.slots + 1 }
  | send {s : Publishing} (i : Nat) {target : DeviceQueue} : s.stages[i]? = some .holding →
      f.targets[i]? = some target →
      Step f s { s.move i .sending with sent := s.sent ++ [⟨i, target.url, f.body⟩] }
  | answer {s : Publishing} (i : Nat) : s.stages[i]? = some .sending →
      Step f s (s.move i (.answered (f.outcome i)))
  | write {s : Publishing} (i : Nat) {target : DeviceQueue} {sent : Except String String} :
      s.stages[i]? = some (.answered sent) → f.targets[i]? = some target →
      Step f s
        { s.move i .written with deliveries := s.deliveries.set i (delivery target sent) }
  /-- A channel that is empty would make it wait. -/
  | release {s : Publishing} (i : Nat) : s.stages[i]? = some .written → 0 < s.slots →
      Step f s { s.move i .released with slots := s.slots - 1 }
  | finish {s : Publishing} (i : Nat) : s.stages[i]? = some .released →
      Step f s { s.move i .finished with waiter := s.waiter - 1 }
  /-- The loop is over, `waiter.Wait()` returns, and with it the function. -/
  | conclude {s : Publishing} : (∀ i : Nat, s.stages[i]? ≠ some Stage.unborn) → s.waiter = 0 →
      s.result = none → Step f s { s with result := some (f.conclusion s.deliveries) }

/-- The publishes that the schedules of `k` steps lead to. -/
inductive After (f : Fanout) : Nat → Publishing → Prop
  | start : After f 0 (initial f)
  | step {k : Nat} {s s' : Publishing} : After f k s → Step f s s' → After f (k + 1) s'

/-! ## The invariant -/

variable {f : Fanout} {s s' : Publishing} {i k : Nat} {target : DeviceQueue} {stage : Stage}

/-- What goroutine `i` has left behind it at its stage. -/
structure Left (f : Fanout) (i : Nat) (target : DeviceQueue) (stage : Stage)
    (delivered? : Option Delivery) (calls : List Sent) : Prop where
  calls : calls = if stage.hasSent then [⟨i, target.url, f.body⟩] else []
  wrote : stage.hasWritten = true → delivered? = some (delivery target (f.outcome i))
  answered : ∀ sent, stage = .answered sent → sent = f.outcome i

structure Sound (f : Fanout) (s : Publishing) : Prop where
  stages : s.stages.length = f.targets.length
  size : s.deliveries.length = f.targets.length
  slots : s.slots = s.stages.countP Stage.hasSlot
  bounded : s.slots ≤ f.capacity
  waiter : s.waiter = s.stages.countP Stage.running
  left : ∀ i target stage, f.targets[i]? = some target → s.stages[i]? = some stage →
    Left f i target stage s.deliveries[i]? (s.sent.filter fun c => c.index = i)
  known : ∀ c ∈ s.sent, c.index < f.targets.length
  result : ∀ r, s.result = some r →
    (∀ stage ∈ s.stages, stage = .finished) ∧ r = f.conclusion f.deliveries

theorem sound_initial : Sound f (initial f) where
  stages := by simp [initial]
  size := by simp [initial]
  slots := by
    refine (List.countP_eq_zero.mpr fun stage h => ?_).symm
    rw [List.eq_of_mem_replicate h]
    decide
  bounded := Nat.zero_le _
  waiter := by
    refine (List.countP_eq_zero.mpr fun stage h => ?_).symm
    rw [List.eq_of_mem_replicate h]
    decide
  left i target stage _ hs := by
    have := List.eq_of_mem_replicate (List.mem_of_getElem? hs)
    subst this
    exact ⟨rfl, fun h => (by cases h), fun _ h => (by cases h)⟩
  known _ h := by cases h
  result _ h := by cases h

/-- Every goroutine done, so are the deliveries. -/
theorem Sound.all_written (h : Sound f s) (hfin : ∀ stage ∈ s.stages, stage.hasWritten = true) :
    s.deliveries = f.deliveries := by
  refine List.ext_getElem? fun i => ?_
  rw [Fanout.deliveries, List.getElem?_map, List.getElem?_zipIdx]
  cases ht : f.targets[i]? with
  | none =>
      rw [List.getElem?_eq_none_iff] at ht
      exact List.getElem?_eq_none_iff.mpr (h.size ▸ ht)
  | some target =>
      have hi : i < s.stages.length := h.stages ▸ (List.getElem?_eq_some_iff.mp ht).1
      have hs := List.getElem?_eq_getElem hi
      rw [(h.left i target _ ht hs).wrote (hfin _ (List.getElem_mem hi))]
      simp

/-- While a goroutine is not finished there is no result. -/
theorem Sound.no_result (h : Sound f s) (hi : s.stages[i]? = some stage)
    (hne : stage ≠ .finished) : s.result = none := by
  cases hr : s.result with
  | none => rfl
  | some r => exact absurd ((h.result r hr).1 stage (List.mem_of_getElem? hi)) hne

/-- What a step of goroutine `i` has to respect: its channel and its wait
group count it, it leaves what its new stage says, and it writes nothing
that another goroutine left. -/
theorem Sound.turn {old new : Stage} (h : Sound f s) (hi : s.stages[i]? = some old)
    (hne : old ≠ .finished) (hstages : s'.stages = s.stages.set i new)
    (hsize : s'.deliveries.length = s.deliveries.length)
    (hslots : s'.slots + (if old.hasSlot then 1 else 0) =
      s.slots + (if new.hasSlot then 1 else 0))
    (hbounded : s'.slots ≤ f.capacity)
    (hwaiter : s'.waiter + (if old.running then 1 else 0) =
      s.waiter + (if new.running then 1 else 0))
    (hown : ∀ target, f.targets[i]? = some target →
      Left f i target new s'.deliveries[i]? (s'.sent.filter fun c => c.index = i))
    (hothers : ∀ j, j ≠ i → s'.deliveries[j]? = s.deliveries[j]? ∧
      (s'.sent.filter fun c => c.index = j) = s.sent.filter fun c => c.index = j)
    (hknown : ∀ c ∈ s'.sent, c ∈ s.sent ∨ c.index = i) (hresult : s'.result = s.result) :
    Sound f s' := by
  have hlen : i < s.stages.length := (List.getElem?_eq_some_iff.mp hi).1
  refine ⟨?_, ?_, ?_, hbounded, ?_, ?_, ?_, ?_⟩
  · rw [hstages, List.length_set, h.stages]
  · rw [hsize, h.size]
  · have hcount := countP_set_add (b := new) Stage.hasSlot hi
    rw [hstages]
    have := h.slots
    omega
  · have hcount := countP_set_add (b := new) Stage.running hi
    rw [hstages]
    have := h.waiter
    omega
  · intro j target stage ht hj
    rw [hstages, List.getElem?_set] at hj
    by_cases hij : i = j
    · subst hij
      rw [if_pos rfl, if_pos hlen] at hj
      cases hj
      exact hown target ht
    · rw [if_neg hij] at hj
      obtain ⟨hd, hc⟩ := hothers j (Ne.symm hij)
      rw [hd, hc]
      exact h.left j target stage ht hj
  · intro c hc
    rcases hknown c hc with hc | hc
    · exact h.known c hc
    · exact hc ▸ h.stages ▸ hlen
  · intro r hr
    rw [hresult, h.no_result hi hne] at hr
    cases hr

theorem Sound.step (h : Sound f s) (hs : Step f s s') : Sound f s' := by
  cases hs with
  | spawn i hi _ =>
      refine h.turn hi (by simp) rfl rfl rfl h.bounded rfl (fun target ht => ?_)
        (fun j _ => ⟨rfl, rfl⟩) (fun c hc => .inl hc) rfl
      exact ⟨(h.left i target _ ht hi).calls, fun hw => (by cases hw), fun _ hw => (by cases hw)⟩
  | acquire i hi hfree =>
      refine h.turn hi (by simp) rfl rfl rfl hfree rfl (fun target ht => ?_)
        (fun j _ => ⟨rfl, rfl⟩) (fun c hc => .inl hc) rfl
      exact ⟨(h.left i target _ ht hi).calls, fun hw => (by cases hw), fun _ hw => (by cases hw)⟩
  | @send i target hi ht =>
      refine h.turn hi (by simp) rfl rfl rfl h.bounded rfl (fun target' ht' => ?_)
        (fun j hj => ⟨rfl, ?_⟩) (fun c hc => ?_) rfl
      · rw [ht] at ht'
        cases ht'
        refine ⟨?_, fun hw => (by cases hw), fun _ hw => (by cases hw)⟩
        rw [List.filter_append, (h.left i target _ ht hi).calls]
        simp [Stage.hasSent]
      · rw [List.filter_append]
        simp [Ne.symm hj]
      · rcases List.mem_append.mp hc with hc | hc
        · exact .inl hc
        · exact .inr (by rw [List.mem_singleton.mp hc])
  | answer i hi =>
      refine h.turn hi (by simp) rfl rfl rfl h.bounded rfl (fun target ht => ?_)
        (fun j _ => ⟨rfl, rfl⟩) (fun c hc => .inl hc) rfl
      refine ⟨(h.left i target _ ht hi).calls, fun hw => (by cases hw), fun sent hw => ?_⟩
      cases hw
      rfl
  | @write i target sent hi ht =>
      have hlen : i < s.deliveries.length :=
        h.size.trans h.stages.symm ▸ (List.getElem?_eq_some_iff.mp hi).1
      refine h.turn hi (by simp) rfl (by simp) rfl h.bounded rfl (fun target' ht' => ?_)
        (fun j hj => ⟨?_, rfl⟩) (fun c hc => .inl hc) rfl
      · rw [ht] at ht'
        cases ht'
        have hleft := h.left i target _ ht hi
        refine ⟨hleft.calls, fun _ => ?_, fun _ hw => (by cases hw)⟩
        rw [List.getElem?_set_self hlen, hleft.answered sent rfl]
      · rw [List.getElem?_set_ne (Ne.symm hj)]
  | release i hi hpos =>
      refine h.turn hi (by simp) rfl rfl ?_ ?_ rfl (fun target ht => ?_)
        (fun j _ => ⟨rfl, rfl⟩) (fun c hc => .inl hc) rfl
      · show s.slots - 1 + 1 = s.slots + 0
        omega
      · have := h.bounded
        show s.slots - 1 ≤ _
        omega
      · have hleft := h.left i target _ ht hi
        exact ⟨hleft.calls, fun _ => hleft.wrote rfl, fun _ hw => (by cases hw)⟩
  | finish i hi =>
      have hpos : 0 < s.waiter := by
        rw [h.waiter, List.countP_pos_iff]
        exact ⟨_, List.mem_of_getElem? hi, rfl⟩
      refine h.turn hi (by simp) rfl rfl rfl h.bounded ?_ (fun target ht => ?_)
        (fun j _ => ⟨rfl, rfl⟩) (fun c hc => .inl hc) rfl
      · show s.waiter - 1 + 1 = s.waiter + 0
        omega
      · have hleft := h.left i target _ ht hi
        exact ⟨hleft.calls, fun _ => hleft.wrote rfl, fun _ hw => (by cases hw)⟩
  | conclude hborn hwait _ =>
      have hfin : ∀ stage ∈ s.stages, stage = .finished := by
        intro stage hm
        have hrun : stage.running = false := by
          have := h.waiter
          rw [hwait] at this
          simpa using List.countP_eq_zero.mp this.symm stage hm
        obtain ⟨i, hi⟩ := List.mem_iff_getElem?.mp hm
        cases stage with
        | unborn => exact absurd hi (hborn i)
        | finished => rfl
        | _ => cases hrun
      refine ⟨h.stages, h.size, h.slots, h.bounded, h.waiter, h.left, h.known, fun r hr => ?_⟩
      cases hr
      refine ⟨hfin, congrArg f.conclusion (h.all_written fun stage hm => ?_)⟩
      rw [hfin stage hm]
      rfl

/-- Under every schedule. -/
theorem After.sound (h : After f k s) : Sound f s := by
  induction h with
  | start => exact sound_initial
  | step _ hs ih => exact ih.step hs

/-! ## What every schedule has in common -/

theorem Sound.inFlight_le (h : Sound f s) : s.inFlight ≤ f.capacity := by
  refine le_trans (List.countP_mono_left fun stage _ hsend => ?_) (h.slots ▸ h.bounded)
  cases stage <;> first | rfl | cases hsend

/-- Each target's `Send` is called at most once, and once where the goroutine
is past it. -/
theorem Sound.calls (h : Sound f s) (ht : f.targets[i]? = some target) :
    (s.sent.filter fun c => c.index = i) = [] ∨
      (s.sent.filter fun c => c.index = i) = [⟨i, target.url, f.body⟩] := by
  have hi : i < s.stages.length := h.stages ▸ (List.getElem?_eq_some_iff.mp ht).1
  rw [(h.left i target _ ht (List.getElem?_eq_getElem hi)).calls]
  split
  · exact Or.inr rfl
  · exact Or.inl rfl

/-- A goroutine with an element in the channel has a next step. -/
theorem Sound.holder_steps (h : Sound f s) (hi : s.stages[i]? = some stage)
    (hslot : stage.hasSlot = true) : ∃ s', Step f s s' := by
  have hlen : i < f.targets.length := h.stages ▸ (List.getElem?_eq_some_iff.mp hi).1
  have ht := List.getElem?_eq_getElem hlen
  cases stage with
  | holding => exact ⟨_, .send i hi ht⟩
  | sending => exact ⟨_, .answer i hi⟩
  | answered sent => exact ⟨_, .write i hi ht⟩
  | written =>
      refine ⟨_, .release i hi ?_⟩
      rw [h.slots, List.countP_pos_iff]
      exact ⟨_, List.mem_of_getElem? hi, rfl⟩
  | _ => cases hslot

/-- Until it has its result, no schedule is stuck. -/
theorem Sound.progress (h : Sound f s) (hne : f.targets ≠ []) (hr : s.result = none) :
    ∃ s', Step f s s' := by
  have hcap : 0 < f.capacity :=
    Nat.lt_min.mpr ⟨by decide, List.length_pos_iff.mpr hne⟩
  by_cases hborn : ∃ i : Nat, s.stages[i]? = some Stage.unborn
  · -- the loop has not come to its end
    classical
    exact ⟨_, .spawn (Nat.find hborn) (Nat.find_spec hborn) fun j hj => Nat.find_min hborn hj⟩
  by_cases hwait : s.waiter = 0
  · exact ⟨_, .conclude (fun i hi => hborn ⟨i, hi⟩) hwait hr⟩
  -- some goroutine is running
  rw [h.waiter, ← ne_eq, ← Nat.pos_iff_ne_zero, List.countP_pos_iff] at hwait
  obtain ⟨stage, hm, hrun⟩ := hwait
  obtain ⟨i, hi⟩ := List.mem_iff_getElem?.mp hm
  cases hslot : stage.hasSlot with
  | true => exact h.holder_steps hi hslot
  | false =>
      cases stage with
      | unborn => cases hrun
      | finished => cases hrun
      | released => exact ⟨_, .finish i hi⟩
      | waiting =>
          by_cases hfree : s.slots < f.capacity
          · exact ⟨_, .acquire i hi hfree⟩
          · -- the channel is full, so somebody has an element in it
            have hfull : 0 < s.stages.countP Stage.hasSlot := by
              rw [← h.slots]
              omega
            obtain ⟨holder, hm', hslot'⟩ := List.countP_pos_iff.mp hfull
            obtain ⟨j, hj⟩ := List.mem_iff_getElem?.mp hm'
            exact h.holder_steps hj hslot'
      | _ => cases hslot

/-- Each step is one of those that were left. -/
theorem Step.left_lt (hs : Step f s s') : s'.left + 1 = s.left := by
  have hmove : ∀ {t : Publishing} {i : Nat} {old : Stage} (new : Stage),
      t.stages[i]? = some old → old.left = new.left + 1 → (t.move i new).left + 1 = t.left := by
    intro t i old new hi hleft
    have := total_set (b := new) Stage.left hi
    show total Stage.left (t.stages.set i new) + (if t.result.isNone then 1 else 0) + 1 =
      total Stage.left t.stages + (if t.result.isNone then 1 else 0)
    omega
  cases hs with
  | spawn i hi _ => exact hmove .waiting hi rfl
  | acquire i hi _ => exact hmove .holding hi rfl
  | send i hi _ => exact hmove .sending hi rfl
  | answer i hi => exact hmove (.answered (f.outcome i)) hi rfl
  | write i hi _ => exact hmove .written hi rfl
  | release i hi _ => exact hmove .released hi rfl
  | finish i hi => exact hmove .finished hi rfl
  | conclude _ _ hr => simp [left, hr]

theorem left_initial : (initial f).left = 7 * f.targets.length + 1 := by
  have hall : ∀ n, total Stage.left (List.replicate n .unborn) = 7 * n := by
    intro n
    induction n with
    | zero => rfl
    | succ n ih =>
        rw [List.replicate_succ, total, ih, Stage.left]
        omega
  show total Stage.left (List.replicate _ _) + 1 = _
  rw [hall]

/-- No schedule takes more than seven steps for a target, and one to return. -/
theorem After.bounded (h : After f k s) : k + s.left = 7 * f.targets.length + 1 := by
  induction h with
  | start => rw [left_initial, Nat.zero_add]
  | step _ hs ih =>
      have := hs.left_lt
      omega

/-- With errors that have a text, the code counts the successes. -/
theorem conclusion_deliveries (herr : ∀ i e, f.outcome i = .error e → e ≠ "") :
    f.conclusion f.deliveries = f.gathered := by
  have hcount : (f.deliveries.filter fun d => d.error = "").length = f.successes := by
    rw [← List.countP_eq_length_filter, Fanout.deliveries, List.countP_map, Fanout.successes,
      List.range_eq_range', ← List.zipIdx_map_snd, List.countP_map]
    refine List.countP_congr fun t _ => ?_
    show (decide ((delivery t.1 (f.outcome t.2)).error = "") = true) ↔
      delivered (f.outcome t.2) = true
    cases ho : f.outcome t.2 with
    | ok messageId => exact iff_of_true rfl rfl
    | error e =>
        refine iff_of_false (fun h => herr _ e ho (of_decide_eq_true h)) fun h => (by cases h)
  rw [Fanout.conclusion, hcount, Fanout.gathered]

/-- The entry of a target says which it is, and what came of its send. -/
structure Tells (target : DeviceQueue) (outcome : Except String String) (entry : Delivery) :
    Prop where
  queue : entry.queue = target.name
  queueUrl : entry.queueUrl = target.url
  sent : ∀ messageId, outcome = .ok messageId → entry.messageId = messageId ∧ entry.error = ""
  failed : ∀ e, outcome = .error e → entry.messageId = "" ∧ entry.error = e

theorem delivery_tells {outcome : Except String String} :
    Tells target outcome (delivery target outcome) := by
  cases outcome with
  | ok messageId => exact ⟨rfl, rfl, fun _ he => (by cases he; exact ⟨rfl, rfl⟩), fun _ he => by
      cases he⟩
  | error e => exact ⟨rfl, rfl, fun _ he => (by cases he), fun _ he => (by
      cases he; exact ⟨rfl, rfl⟩)⟩

/-- The state of a publish that has returned. -/
structure Returned (f : Fanout) (s : Publishing) (r : Except ApiError PublishResult) : Prop where
  result : r = f.gathered
  error : (∃ e, r = .error e) ↔ f.successes = 0
  published : ∀ result, r = .ok result → result.published = f.successes
  /-- One entry for each target, in the order of the configuration. -/
  entries : ∀ result, r = .ok result → result.deliveries.length = f.targets.length ∧
    ∀ i target, f.targets[i]? = some target →
      ∃ entry, result.deliveries[i]? = some entry ∧ Tells target (f.outcome i) entry
  /-- Every target's `Send` was called, once, with the one body. -/
  once : ∀ i target, f.targets[i]? = some target →
    (s.sent.filter fun c => c.index = i) = [⟨i, target.url, f.body⟩]
  only : ∀ c ∈ s.sent, c.index < f.targets.length

theorem gathered_error : (∃ e, f.gathered = .error e) ↔ f.successes = 0 := by
  unfold Fanout.gathered
  split
  · rename_i hnone
    exact iff_of_true ⟨_, rfl⟩ hnone
  · rename_i hsome
    exact iff_of_false (fun ⟨_, he⟩ => by cases he) hsome

theorem gathered_ok {result : PublishResult} (h : f.gathered = .ok result) :
    result.published = f.successes ∧ result.deliveries = f.deliveries := by
  unfold Fanout.gathered at h
  split at h
  · cases h
  · cases h
    exact ⟨rfl, rfl⟩

/-- The entry of each target is at its index. -/
theorem deliveries_tell (ht : f.targets[i]? = some target) :
    ∃ entry, f.deliveries[i]? = some entry ∧ Tells target (f.outcome i) entry := by
  refine ⟨delivery target (f.outcome i), ?_, delivery_tells⟩
  rw [Fanout.deliveries, List.getElem?_map, List.getElem?_zipIdx, ht]
  simp

theorem Sound.returned (h : Sound f s) (herr : ∀ i e, f.outcome i = .error e → e ≠ "")
    {r : Except ApiError PublishResult} (hr : s.result = some r) : Returned f s r := by
  obtain ⟨hfin, hres⟩ := h.result r hr
  have hgathered : r = f.gathered := hres.trans (conclusion_deliveries herr)
  refine ⟨hgathered, hgathered ▸ gathered_error, fun result he => ?_, fun result he => ?_,
    fun i target ht => ?_, h.known⟩
  · exact (gathered_ok (hgathered.symm.trans he)).1
  · rw [(gathered_ok (hgathered.symm.trans he)).2]
    exact ⟨by simp [Fanout.deliveries], fun i target ht => deliveries_tell ht⟩
  have hi : i < s.stages.length := h.stages ▸ (List.getElem?_eq_some_iff.mp ht).1
  rw [(h.left i target _ ht (List.getElem?_eq_getElem hi)).calls,
    hfin _ (List.getElem_mem hi)]
  rfl

/-- Under every schedule: at most `min(8, n)` sends are in flight, each
target is sent to at most once, there is a next step until the result is
there, the schedule comes to its end, and the result is the one that the
outcomes determine: an entry for each target, and an error just where no send
went well. -/
theorem fanout_exact (f : Fanout) (hne : f.targets ≠ [])
    (herr : ∀ i e, f.outcome i = .error e → e ≠ "") {k : Nat} {s : Publishing}
    (h : After f k s) :
    s.inFlight ≤ min 8 f.targets.length ∧
      (∀ i target, f.targets[i]? = some target →
        (s.sent.filter fun c => c.index = i) = [] ∨
          (s.sent.filter fun c => c.index = i) = [⟨i, target.url, f.body⟩]) ∧
      (s.result = none → ∃ s', Step f s s') ∧
      k ≤ 7 * f.targets.length + 1 ∧
      ∀ r, s.result = some r → Returned f s r :=
  ⟨h.sound.inFlight_le, fun _ _ => h.sound.calls, h.sound.progress hne,
    by have := h.bounded; omega, fun _ => h.sound.returned herr⟩

namespace Sample

/-- Two queues: one send goes well, the other does not. -/
def fanout : Fanout where
  command := "current_status"
  body := "{}"
  targets :=
    [{ name := "east", url := "https://east", group := "kiosk" },
      { name := "west", url := "https://west", group := "kiosk" }]
  outcome
    | 0 => .ok "m1"
    | _ => .error "unreachable"

/-- Both goroutines are in their `Send`, the second one longer. -/
theorem sending : ∃ s, After fanout 6 s ∧ s.inFlight = 2 ∧
    s = { initial fanout with
      stages := [.sending, .sending]
      slots := 2
      waiter := 2
      sent := [⟨1, "https://west", "{}"⟩, ⟨0, "https://east", "{}"⟩] } := by
  have h := After.start (f := fanout)
  have h := h.step (.spawn 0 rfl fun j hj => absurd hj (Nat.not_lt_zero j))
  have h := h.step (.spawn 1 rfl fun j hj => by
    obtain rfl := Nat.lt_one_iff.mp hj
    exact fun he => by cases he)
  have h := h.step (.acquire 1 rfl (by decide))
  have h := h.step (.acquire 0 rfl (by decide))
  have h := h.step (.send 1 rfl rfl)
  exact ⟨_, h.step (.send 0 rfl rfl), rfl, rfl⟩

end Sample

/-- Two sends at a time, of which the later one returns first. -/
theorem fanout_exact_two :
    ∃ s result, After Sample.fanout 15 s ∧ s.result = some (.ok result) ∧
      Returned Sample.fanout s (.ok result) ∧ result.published = 1 ∧
      result.deliveries = [⟨"east", "https://east", "m1", ""⟩,
        ⟨"west", "https://west", "", "unreachable"⟩] := by
  obtain ⟨_, h, -, rfl⟩ := Sample.sending
  have h := h.step (.answer 0 rfl)
  have h := h.step (.write 0 rfl rfl)
  have h := h.step (.answer 1 rfl)
  have h := h.step (.release 0 rfl (by decide))
  have h := h.step (.write 1 rfl rfl)
  have h := h.step (.finish 0 rfl)
  have h := h.step (.release 1 rfl (by decide))
  have h := h.step (.finish 1 rfl)
  have h := h.step (.conclude (fun i hi => by
    match i with
    | 0 | 1 => cases hi
    | i + 2 => cases hi) rfl rfl)
  have herr : ∀ i e, Sample.fanout.outcome i = .error e → e ≠ "" := fun i e he => by
    match i with
    | 0 => cases he
    | i + 1 =>
        cases he
        decide
  exact ⟨_, _, h, rfl, (fanout_exact Sample.fanout (by decide) herr h).2.2.2.2 _ rfl, rfl, rfl⟩

end Publishing

/-! ## The sends one after another -/

section InOrder

open Effect

variable {W C : Type} {ans : Answers cloud W C} {A : W → Op → C → Prop} {w : W}

/-- The deliveries of the targets that are not in the order any more. -/
def Filled (targets : List DeviceQueue) (deliveries : List Delivery) (order : List Nat) : Prop :=
  deliveries.length = targets.length ∧
    ∀ i target, targets[i]? = some target → i ∉ order →
      ∃ sent, deliveries[i]? = some (delivery target sent)

theorem sends_fill {body : String} {targets : List DeviceQueue} :
    ∀ {order : List Nat} {deliveries : List Delivery} {w : W},
      Filled targets deliveries order →
      wp ans A Anywhere (sends body targets order deliveries).run
        (fun r _ _ => ∃ ds, r = .ok ds ∧ Filled targets ds []) () w
  | [], deliveries, _, h => ⟨deliveries, rfl, h⟩
  | i :: rest, deliveries, w, h => by
      unfold sends
      cases hi : targets[i]? with
      | none =>
          refine sends_fill ⟨h.1, fun j target hj hmem => h.2 j target hj fun hcons => ?_⟩
          rcases List.mem_cons.mp hcons with rfl | hrest
          · rw [hi] at hj
            cases hj
          · exact hmem hrest
      | some target =>
          refine wp_seq.mpr ⟨trivial, fun c _ => ?_⟩
          have hlen : i < deliveries.length := h.1 ▸ (List.getElem?_eq_some_iff.mp hi).1
          refine sends_fill ⟨by rw [List.length_set, h.1], fun j other hj hmem => ?_⟩
          by_cases hij : i = j
          · subst hij
            rw [hi] at hj
            cases hj
            refine ⟨(ans c (.send target.url body) w).1, ?_⟩
            rw [List.getElem?_set_self hlen]
            cases (ans c (.send target.url body) w).1 <;> rfl
          · rw [List.getElem?_set_ne hij]
            refine h.2 j other hj fun hcons => ?_
            rcases List.mem_cons.mp hcons with rfl | hrest
            · exact hij rfl
            · exact hmem hrest

/-- `Api.publish`, which sends in some order, returns what the goroutines
return for the same answers. -/
theorem publish_gathers {cfg : Config} {codec : Codec} {command group : String} {payload : Json}
    (horder : ∀ w n c, A w (.interleaving n) c →
      ((ans c (.interleaving n) w).1 : List Nat).Perm (List.range n)) :
    wp ans A Anywhere (publish cfg codec command group payload).run
      (fun r _ _ => r = .error (.noTargets group) ∨ ∃ outcome, r = Fanout.conclusion
        ⟨command, body cfg codec command group payload, cfg.queuesForGroup group, outcome⟩
        (Fanout.deliveries ⟨command, body cfg codec command group payload,
          cfg.queuesForGroup group, outcome⟩)) () w := by
  unfold publish
  refine wp_require_seq.mpr ?_
  split
  · refine wp_seq.mpr ⟨trivial, fun c hc => ?_⟩
    refine wp_seq_of (sends_fill ⟨by simp, fun i target hi hmem => ?_⟩) ?_ ?_
    · have hlt := (List.getElem?_eq_some_iff.mp hi).1
      exact absurd ((horder w _ c hc).mem_iff.mpr (List.mem_range.mpr hlt)) hmem
    · rintro ds m w' ⟨ds', hds, hlen, hfill⟩
      cases hds
      -- every target has been answered
      have hall : ∀ i : Nat, ∃ sent, ∀ target, (cfg.queuesForGroup group)[i]? = some target →
          ds[i]? = some (delivery target sent) := by
        intro i
        cases hi : (cfg.queuesForGroup group)[i]? with
        | none => exact ⟨.ok "", fun _ h => by cases h⟩
        | some target =>
            obtain ⟨sent, hsent⟩ := hfill i target hi List.not_mem_nil
            exact ⟨sent, fun other h => by cases h; exact hsent⟩
      choose outcome houtcome using hall
      have hds : ds = Fanout.deliveries ⟨command, body cfg codec command group payload,
          cfg.queuesForGroup group, outcome⟩ := by
        refine List.ext_getElem? fun i => ?_
        rw [Fanout.deliveries, List.getElem?_map, List.getElem?_zipIdx]
        cases hi : (cfg.queuesForGroup group)[i]? with
        | none =>
            rw [List.getElem?_eq_none_iff] at hi
            exact List.getElem?_eq_none_iff.mpr (hlen ▸ hi)
        | some target =>
            rw [houtcome i target hi]
            simp
      refine wp_require_seq.mpr ?_
      split
      · rename_i hpub
        refine Or.inr ⟨outcome, ?_⟩
        rw [← hds, Fanout.conclusion, if_neg (by simpa using hpub)]
      · rename_i hpub
        refine Or.inr ⟨outcome, ?_⟩
        rw [← hds, Fanout.conclusion, if_pos (by simpa using hpub)]
    · rintro e m w' ⟨ds', hds, -⟩
      cases hds
  · exact Or.inl rfl

end InOrder

end Yirang.Api
