/-
# `Yirang.Agent.Verified` — what is installed was verified

The guard of `download_version` takes back what a failed download brought.
It does so as the handler returns, so it is of no use to an agent that is
killed: a restart finds the directory as it was left, and nothing tells it
from one that was checked to the end.

    download_guards       a download that fails or is killed
    download_gains        a download that ends well
    dispatch_grounds      a whole message
    careful_ground        a whole run
    applied_is_verified   what a run copies into the releases was checked
    unverified_is_applied a kill between two calls, and unchecked bytes
-/
import Yirang.Agent.Ledger

namespace Yirang.Agent

open Fs Effect Device Deploy Install

variable {a : AgentService} {hash : Content → String} {A : Host → Op → Turn → Prop}
  {l : List Checked} {copies : Path → Path → Prop} {α : Type} {m : Memory} {h : Host}

/-! ## A download -/

/-- A call of the loop. -/
inductive Fetches (a : AgentService) : Op → Prop
  | createDirectories (p : Path) : Fetches a (.device (.file (.createDirectories p)))
  | download (k : String) {d : Path} : a.versionRoot <+: d → Fetches a (.device (.download k d))
  | inStore (k : String) : Fetches a (.device (.inStore k))
  | fileSha256 (p : Path) : Fetches a (.device (.fileSha256 p))

theorem fetches_fetch {r : String} {target : Path} {element : Json}
    (ht : a.versionRoot <+: target) : Uses (Fetches a) (fetch r target element).run := by
  refine uses_orPermanent_seq fun request hreq => ?_
  obtain ⟨installPath, sha256, key⟩ := request
  have hu := (requested_of_ok hreq).under target
  refine .seq ?_ fun downloaded => .seq ?_ fun _ => .seq (.ask (.fileSha256 _)) fun _ =>
    .seq .conclude fun _ => .ite (fun _ => trivial) fun _ => uses_permanent
  · refine .ite (fun _ => .seq (.ask (.createDirectories _)) fun made => ?_) fun _ =>
      .ask (.download _ (ht.trans hu))
    cases made <;> trivial
  · cases downloaded with
    | ok _ => trivial
    | error why =>
        refine .seq (.ask (.inStore _)) fun present => ?_
        match present with
        | .ok false => exact uses_permanent
        | .ok true => trivial
        | .error _ => trivial

theorem fetches_fetchAll {r : String} {target : Path} (ht : a.versionRoot <+: target) :
    ∀ {elements : List Json}, Uses (Fetches a) (fetchAll r target elements).run
  | [] => trivial
  | _ :: _ => .seq (fetches_fetch ht) fun _ => fetches_fetchAll ht

/-- In the loop: it stays near its directory, and unless the note says so
there is no new file. -/
structure Midway (a : AgentService) (target : Path) (h : Host) (v : Host × Bool) : Prop where
  within : HostWithin (Near target) h v.1
  same : v.2 = false → ∀ q x, a.versionRoot <+: q → v.1.device.fs.get q = some (.file x) →
    h.device.fs.get q = some (.file x)

theorem Midway.refl {target : Path} : Midway a target h (h, false) :=
  ⟨.refl, fun _ _ _ _ hx => hx⟩

theorem Midway.step {target : Path} {v : Host × Bool} {o : Op} (hv : Midway a target h v)
    (ho : Fetches a o ∧ Touching (Near target) o) (c : Turn) :
    Midway a target h (answer.noting (unchecked a) c o v).2 := by
  refine ⟨hv.within.trans (answer_hostWithin ho.2), ?_⟩
  obtain ⟨ho, -⟩ := ho
  cases ho with
  | createDirectories p =>
      intro hn q x hq hx
      exact hv.same hn q x hq (brings_createDirectories _ _ _ _ hx)
  | download k hd =>
      rename_i d
      intro hn q x hq hx
      have hnote : (v.2 || (decide (a.versionRoot <+: d) &&
          (answer c (.device (.download k d)) v.1).2.device.fs.isFile d)) = false := hn
      simp only [hd, decide_true, Bool.true_and, Bool.or_eq_false_iff] at hnote
      have hne : q ≠ d := by
        rintro rfl
        have hfile := FileTree.isFile_iff.mpr ⟨x, hx⟩
        exact absurd (hfile.symm.trans hnote.2) (by decide)
      exact hv.same hnote.1 q x hq (download_brings hx hne)
  | inStore k =>
      intro hn q x hq hx
      exact hv.same hn q x hq (brings_of_reads (fun _ => id) _ _ _ _ hx)
  | fileSha256 p =>
      intro hn q x hq hx
      exact hv.same hn q x hq (brings_of_reads (fun _ => id) _ _ _ _ hx)

section Taking

variable {r : String} {payload : String} {artifacts : List Json}

/-- The state file is not near the directory of a release. -/
theorem Asks.state (hasks : Asks a payload r artifacts) (hb : a.Beside) {h' : Host}
    (hw : HostWithin (Near (a.versionDirectory r)) h h') :
    ∀ cfg, a.engine = some cfg →
      h'.device.fs.get cfg.installer.statePath = h.device.fs.get cfg.installer.statePath :=
  fun _ hcfg => hw.files fun hn => hb.state hcfg (hasks.near hn)

theorem Midway.ground (hasks : Asks a payload r artifacts) (hb : a.Beside)
    (hg : Ground a hash l h) {v : Host × Bool} (hv : Midway a (a.versionDirectory r) h v)
    (hn : v.2 = false) : Ground a hash l v.1 :=
  hg.after (hv.same hn) (hasks.state hb hv.within)

/-- Where the files of one release were checked, and others are as they
were. -/
theorem ground_of_release (hasks : Asks a payload r artifacts) (hb : a.Beside)
    (hg : Ground a hash l h) {h' : Host} (hw : HostWithin (Near (a.versionDirectory r)) h h')
    (hr : ∀ q x, a.versionDirectory r <+: q → h'.device.fs.get q = some (.file x) →
      Verified a hash l r q x) : Ground a hash l h' := by
  constructor
  · intro r' q x hr' hq hx
    by_cases he : r' = r
    · subst he
      exact hr q x hq hx
    · have hsame := hw.files (not_near hr' hasks.request.1 he hq)
      exact hg.verified r' q x hr' hq (hsame.symm.trans hx)
  · intro cfg hcfg
    exact Named.of_get (w := h.device) (hg.named cfg hcfg) (hasks.state hb hw cfg hcfg)

/-- The guard takes back what was fetched. -/
theorem Midway.discarded (hasks : Asks a payload r artifacts) (hb : a.Beside)
    (hg : Ground a hash l h) {v : Host × Bool} (hv : Midway a (a.versionDirectory r) h v)
    {c : Turn} (hc : takesBack v.2 c (.device (.file (.removeAll (a.versionDirectory r)))) = true) :
    Ground a hash l (answer c (.device (.file (.removeAll (a.versionDirectory r)))) v.1).2 := by
  have hw : HostWithin (Near (a.versionDirectory r)) h
      (answer c (.device (.file (.removeAll (a.versionDirectory r)))) v.1).2 :=
    hv.within.trans (answer_hostWithin (touching_file fun _ hq => Or.inr hq))
  cases hn : v.2 with
  | false =>
      refine hg.after (fun q x hq hx => ?_) (hasks.state hb hw)
      exact hv.same hn q x hq (brings_removeAll _ _ _ _ hx)
  | true =>
      rw [hn] at hc
      have hfault : c.chance.fault = none := Option.isNone_iff_eq_none.mp hc
      refine ground_of_release hasks hb hg hw fun q x hq hx => ?_
      have hgone : (answer c (.device (.file (.removeAll (a.versionDirectory r))))
          v.1).2.device.fs.get q = none := FileOp.removeAll_gone hq (Or.inl hfault)
      rw [hgone] at hx
      cases hx

end Taking

/-- How the handler leaves the downloads, if it fails or is killed. -/
theorem download_guards (hb : a.Beside) {payload : String} (hg : Ground a hash l h) :
    wp (answer.noting (unchecked a)) (Allowed hash) (fun _ => Border a hash l copies)
      (downloadVersion a payload).run
      (fun res _ v => (v.2 = false → Ground a hash l v.1) ∧
        ∀ e, res = .error e → Ground a hash l v.1) m (h, false) := by
  have untouched : ∀ {res : Except Failure Unit}, (((h, false) : Host × Bool).2 = false →
      Ground a hash l ((h, false) : Host × Bool).1) ∧
      ∀ e, res = .error e → Ground a hash l ((h, false) : Host × Bool).1 :=
    ⟨fun _ => hg, fun _ _ => hg⟩
  refine wp_demand_seq (fun hstore => ?_) fun _ => untouched
  refine wp_demand_seq (fun hroot => ?_) fun _ => untouched
  refine wp_orPermanent_seq (fun object hobj => ?_) fun _ _ => untouched
  refine wp_orPermanent_seq (fun request hreq => ?_) fun _ _ => untouched
  obtain ⟨r, artifacts⟩ := request
  have hasks : Asks a payload r artifacts := ⟨hstore, by simpa using hroot, object, hobj, hreq⟩
  have hroot : a.versionRoot <+: a.versionDirectory r := by
    rw [versionDirectory_eq hasks.request.1]
    exact List.prefix_append _ _
  refine wp_call_seq ⟨fun _ => hg, fun _ _ _ _ he => by cases he⟩ fun c _ => ?_
  -- the directory is made
  have hmade : Midway a (a.versionDirectory r) h (answer.noting (unchecked a) c
      (.device (.file (.createDirectories (a.versionDirectory r)))) (h, false)).2 :=
    Midway.refl.step ⟨.createDirectories _, touching_file fun _ hq => Or.inl hq⟩ c
  refine wp_orReturn_seq (fun _ _ => ?_) fun _ _ => ?_
  · have hloop : wp (answer.noting (unchecked a)) (Allowed hash)
        (fun _ => Border a hash l copies) (fetchAll r (a.versionDirectory r) artifacts).run
        (fun _ _ v => Midway a (a.versionDirectory r) h v) m (answer.noting (unchecked a) c
          (.device (.file (.createDirectories (a.versionDirectory r)))) (h, false)).2 := by
      refine wp_of_uses (R := Midway a (a.versionDirectory r) h)
        (fun _ _ c ho _ hv => hv.step ho c) ?_
        (uses_both (fetches_fetchAll hroot) (uses_fetchAll fun _ hq => hq)) hmade
      rintro _ v o ⟨ho, -⟩ hv
      refine ⟨fun hn => hv.ground hasks hb hg hn, ?_⟩
      rintro _ s d - rfl
      cases ho
    refine wp_seq.mpr (wp_seq.mpr (wp_attempt.mpr (wp_conseq hloop ?_)))
    intro ended m₁ v₁ hv
    cases ended with
    | ok _ => exact ⟨fun hn => hv.ground hasks hb hg hn, fun _ he => by cases he⟩
    | error e =>
        refine ⟨⟨fun hn => hv.ground hasks hb hg hn, fun _ _ _ _ he => by cases he⟩, ?_⟩
        intro c' hc'
        have hgone := hv.discarded hasks hb hg hc'.2
        exact ⟨fun _ => hgone, fun _ _ => hgone⟩
  · have hg₁ := hmade.ground hasks hb hg rfl
    exact ⟨fun _ => hg₁, fun _ _ => hg₁⟩

/-- The entry that an aim is of is among those listed. -/
theorem lists_of_asks {payload r : String} {artifacts : List Json}
    (hasks : Asks a payload r artifacts) : a.lists payload = artifacts.filterMap (listed r) := by
  obtain ⟨-, -, object, hobj, hreq⟩ := hasks
  simp only [AgentService.lists, hobj, hreq]

theorem verified_of_lists {payload r : String} {artifacts : List Json}
    (hasks : Asks a payload r artifacts) {element : Json} (hel : element ∈ artifacts) {q : Path}
    {sha256 : String} (hl : Lists r (a.versionDirectory r) element q sha256) {x : Content}
    (hx : hash x = sha256) : Verified a hash (a.lists payload) r q x := by
  unfold Lists aim at hl
  split at hl
  · rename_i installPath _ _ hreq
    cases hl
    refine ⟨⟨r, installPath, sha256⟩, ?_, rfl, rfl, hx⟩
    rw [lists_of_asks hasks]
    exact List.mem_filterMap.mpr ⟨element, hel, by simp only [listed, hreq]⟩
  · cases hl

/-- A download that ended well has every file of its release checked. -/
theorem download_gains (hb : a.Beside) {payload : String} (hg : Ground a hash l h) :
    wp answer (Hashing hash) Anywhere (downloadVersion a payload).run
      (fun res _ h' => res = .ok () → Ground a hash (a.lists payload ++ l) h') m h := by
  have hnear : Uses (Touching fun q => ∃ r artifacts, Asks a payload r artifacts ∧
      Near (a.versionDirectory r) q) (downloadVersion a payload).run :=
    download_uses fun r artifacts hasks q hq => ⟨r, artifacts, hasks, hq⟩
  have hwithin := wp_hostWithin (A := Hashing hash) (B := Anywhere (E := agent)) (m := m) (h := h)
    hnear fun _ _ _ _ => trivial
  refine wp_conseq (wp_both (download_spec digested_hashing) hwithin) ?_
  rintro res _ h' ⟨hdone, hwithin⟩ hres
  obtain ⟨r, artifacts, aims, hd⟩ := hdone hres
  have hw : HostWithin (Near (a.versionDirectory r)) h h' := by
    refine hwithin.mono ?_
    rintro q ⟨r', artifacts', hasks', hq⟩
    obtain ⟨rfl, -⟩ := hd.asks.unique hasks'
    exact hq
  refine ground_of_release hd.asks hb (hg.mono fun _ => List.mem_append_right _) hw ?_
  intro q x hq hx
  by_cases haim : q ∈ aims.map Prod.fst
  · obtain ⟨y, s, hy, hs, hhash⟩ := hd.filled.held q haim
    cases hx.symm.trans hy
    obtain ⟨element, hel, hl⟩ := (mem_aims hd.aimed).mp hs
    exact (verified_of_lists hd.asks hel hl hhash).mono fun _ => List.mem_append_left _
  · have hold := (hd.filled.others haim).mp hx
    exact (hg.verified r q x hd.asks.request.1 hq hold).mono fun _ => List.mem_append_right _

/-! ## A message -/

/-- The message has release `r` applied. -/
def AgentService.applies (a : AgentService) (message : AgentMessage) (r : String) : Prop :=
  message.command = Commands.kApplyVersion ∧ ∃ object,
    parseObject a.codec message.payload = .ok object ∧ validatedReleaseId object = .ok r

/-- What the message may copy into the releases. -/
def AgentService.mayCopy (a : AgentService) (message : AgentMessage) (s d : Path) : Prop :=
  ∃ r cfg p, a.applies message r ∧ a.engine = some cfg ∧ s = a.versionDirectory r ++ p ∧
    d = cfg.installer.stagingDirectory r ++ p

/-- Calls that read leave a note as it is. -/
theorem Reading.noted {o : Op} (ho : Reading o) (r : agent.Res o) (h h' : Host) (n : Bool) :
    unchecked a o r h h' n = n := by
  unfold unchecked
  split
  · exact absurd List.prefix_rfl (ho _)
  · exact absurd List.prefix_rfl (ho _)
  · rfl

theorem wp_of_reads {l' : List Checked} {p : Program agent Memory α} (hp : Uses Reading p)
    {v : Host × Bool} (hv : v.2 = false → Ground a hash l v.1) (hg : Ground a hash l' v.1) :
    wp (answer.noting (unchecked a)) (Allowed hash) (fun _ => Border a hash l copies) p
      (fun _ _ v' => (v'.2 = false → Ground a hash l v'.1) ∧ Ground a hash l' v'.1) m v := by
  refine wp_of_uses (S := Reading)
    (R := fun (v : Host × Bool) => (v.2 = false → Ground a hash l v.1) ∧ Ground a hash l' v.1)
    ?_ ?_ hp ⟨hv, hg⟩
  · rintro ⟨h, n⟩ o c ho - ⟨hv, hg⟩
    refine ⟨fun hn => ho.harmless.keeps c (hv ?_), ho.harmless.keeps c hg⟩
    exact (ho.noted _ _ _ n).symm.trans hn
  · rintro _ v o ho ⟨hv, -⟩
    have hharmless : Harmless a o := ho.harmless
    exact ⟨hv, fun _ s d _ he _ => absurd he (hharmless.copies s d)⟩

/-- What one message does: its handler keeps the ledger, and gains what it
has checked. -/
theorem handler_grounds (hb : a.Beside) {message : AgentMessage} {handler : String → Handler}
    (hl : (messages a).lookup message.command = some handler) (hg : Ground a hash l h) :
    wp (answer.noting (unchecked a)) (Allowed hash) (fun _ => Border a hash l (a.mayCopy message))
      (handler message.payload).run
      (fun res _ v => (v.2 = false → Ground a hash l v.1) ∧
        Ground a hash (a.gains message res ++ l) v.1) m (h, false) := by
  have plain : ∀ {p : Program agent Memory (Except Failure Unit)},
      PlainRun a hash l (a.mayCopy message) p m h →
      wp (answer.noting (unchecked a)) (Allowed hash)
        (fun _ => Border a hash l (a.mayCopy message)) p
        (fun res _ (v : Host × Bool) => (v.2 = false → Ground a hash l v.1) ∧
          Ground a hash (a.gains message res ++ l) v.1) m (h, false) := by
    intro p hp
    refine wp_conseq (wp_of_plain hp) ?_
    rintro res _ v ⟨hv, -⟩
    exact ⟨fun _ => hv, hv.mono fun _ => List.mem_append_right _⟩
  obtain ⟨before, after, hsplit, -⟩ := List.lookup_eq_some_iff.mp hl
  have hmem : (message.command, handler) ∈ messages a := by
    rw [hsplit]
    exact List.mem_append_right _ List.mem_cons_self
  simp only [messages, List.mem_cons, Prod.mk.injEq, List.not_mem_nil, or_false] at hmem
  rcases hmem with ⟨hc, rfl⟩ | ⟨hc, rfl⟩ | ⟨hc, rfl⟩ | ⟨hc, rfl⟩ | ⟨hc, rfl⟩ | ⟨hc, rfl⟩ |
    ⟨hc, rfl⟩ | ⟨hc, rfl⟩
  · have hgain : wp (answer.noting (unchecked a)) (Allowed hash) Anywhere
        (downloadVersion a message.payload).run
        (fun res _ v => res = .ok () → Ground a hash (a.lists message.payload ++ l) v.1) m
        (h, false) :=
      wp_mono (fun _ _ _ hc => hc.1) (fun _ _ _ _ => trivial) (fun _ _ _ hq => hq)
        (wp_noting false (download_gains hb hg))
    refine wp_conseq (wp_both hgain (download_guards hb hg)) ?_
    rintro (e | u) _ v ⟨hok, hv, herr⟩
    · exact ⟨hv, herr e rfl⟩
    · refine ⟨hv, ?_⟩
      rw [AgentService.gains.eq_1, if_pos hc]
      exact hok rfl
  · refine plain (applyVersion_plain hb hg fun object r cfg x hobj hr hcfg => ?_)
    exact ⟨r, cfg, x, ⟨hc, object, hobj, hr⟩, hcfg, rfl, rfl⟩
  · exact plain (plain_of_reads reads_currentStatus hg)
  · exact plain (plain_of_uses (cleanOldVersion_harmless hb) hg)
  · exact plain (rollbackVersion_plain hb hg)
  · exact plain (updateConfiguration_plain hb hg)
  · exact plain (restartService_plain hb hg)
  · exact plain (plain_of_reads reads_rebootDevice hg)

theorem report_grounds {l' : List Checked} {command reply : String}
    {outcome : Except String Unit} {v : Host × Bool} (hv : v.2 = false → Ground a hash l v.1)
    (hg : Ground a hash l' v.1) :
    wp (answer.noting (unchecked a)) (Allowed hash) (fun _ => Border a hash l copies)
      (report a command reply outcome).run
      (fun res _ v' => res = .ok () ∧ (v'.2 = false → Ground a hash l v'.1) ∧
        Ground a hash l' v'.1) m v := by
  have hends : wp (answer.noting (unchecked a)) (Allowed hash) Anywhere
      (report a command reply outcome).run (fun res _ _ => res = .ok ()) m v :=
    wp_mono (fun _ _ _ _ => trivial) (fun _ _ _ h => h) (fun _ _ _ hq => hq.1)
      (wp_noting v.2 (report_spec (A := fun _ _ _ => True)))
  exact wp_both hends (wp_of_reads reads_report hv hg)

/-- What `raw` may have copied. -/
def AgentService.carries (a : AgentService) (raw : String) (s d : Path) : Prop :=
  ∃ message, parseAgentMessage a.codec raw = .ok message ∧ a.mayCopy message s d

/-- The whole message: what is reported of it brings no file. -/
theorem dispatch_grounds (hb : a.Beside) {raw : String} (hg : Ground a hash l h) :
    wp (answer.noting (unchecked a)) (Allowed hash) (fun _ => Border a hash l (a.carries raw))
      (dispatch a raw).run
      (fun res _ v => (v.2 = false → Ground a hash l v.1) ∧
        (∀ verdict, res = .ok verdict → Ground a hash (a.gained verdict ++ l) v.1) ∧
        ∀ what, res = .error what → Ground a hash l v.1) m (h, false) := by
  -- a verdict without a handler has checked nothing
  have reported : ∀ {command reply reason : String} {verdict : Verdict},
      a.gained verdict = [] →
      wp (answer.noting (unchecked a)) (Allowed hash) (fun _ => Border a hash l (a.carries raw))
        (report a command reply (.error reason) >>= fun _ =>
          (pure verdict : Act agent Memory String Verdict)).run
        (fun res _ v => (v.2 = false → Ground a hash l v.1) ∧
          (∀ verdict, res = .ok verdict → Ground a hash (a.gained verdict ++ l) v.1) ∧
          ∀ what, res = .error what → Ground a hash l v.1) m (h, false) := by
    intro command reply reason verdict hnone
    refine wp_seq_of (report_grounds (fun _ => hg) hg) ?_ fun e _ _ hr => by cases hr.1
    rintro _ _ v ⟨-, hv, hg'⟩
    refine ⟨hv, fun _ he => ?_, fun _ he => by cases he⟩
    cases he
    rw [hnone]
    exact hg'
  unfold dispatch
  cases hp : parseAgentMessage a.codec raw with
  | error e => exact reported rfl
  | ok message =>
      simp only
      split
      · exact reported rfl
      cases hl : (messages a).lookup message.command with
      | none => exact reported rfl
      | some handler =>
          refine wp_load_seq.mpr (wp_store_seq.mpr (wp_seq.mpr (wp_attempt.mpr ?_)))
          refine wp_mono (fun _ _ _ h => h) ?_ ?_ (handler_grounds hb hl hg)
          · intro _ v o ho
            refine ⟨ho.ground, fun cfg s d hcfg he hd => ?_⟩
            obtain ⟨hv, hcopy⟩ := ho.copy cfg s d hcfg he hd
            exact ⟨hv, message, hp, hcopy⟩
          · rintro ended m₁ v₁ ⟨hv, hg₁⟩
            refine wp_returned_seq (fun outcome hret => ?_) fun what hthrew => ?_
            · refine wp_seq_of (report_grounds hv hg₁) ?_ fun e _ _ hr => by cases hr.1
              rintro _ m₂ v₂ ⟨-, hv₂, hg₂⟩
              refine ⟨hv₂, fun _ he => ?_, fun _ he => by cases he⟩
              cases he
              subst hret
              cases outcome with
              | error e => exact hg₂
              | ok u => exact hg₂
            · -- what was thrown has checked nothing
              subst hthrew
              exact ⟨hv, fun _ he => (by cases he), fun _ _ => hg₁⟩

/-- What comes after the report makes no calls. -/
theorem settle_still {raw : String} {verdict : Verdict} {v : Host × Bool} :
    wp (answer.noting (unchecked a)) (Allowed hash) (fun _ => Border a hash l copies)
      (settle raw verdict).run (fun _ _ v' => v' = v) m v := by
  unfold settle
  split
  · refine wp_load_seq.mpr ?_
    simp only
    split
    · exact rfl
    · exact rfl
  · exact rfl

/-! ## Runs -/

/-- What `handle` returns of it. -/
def answered : Except String (Option Told) → Except String Unit
  | .ok (some told) => told.ret
  | .ok none => .ok ()
  | .error e => .error e

/-- The agent, telling the verdict on each message. -/
def AgentService.telling (a : AgentService) :
    Service agent Memory String (Except String (Option Told)) where
  fresh := {}
  boot := (do
    resumeActive a
    pure none : Act agent Memory String (Option Told)).run
  serve raw := (do
    let verdict ← dispatch a raw
    let ret ← attempt (settle raw verdict)
    pure (some ⟨verdict, ret⟩) : Act agent Memory String (Option Told)).run

/-- It makes the calls of `handle`, and ends as `handle` does. -/
theorem handle_told (raw : String) :
    a.service.serve raw = a.telling.serve raw >>= fun told => pure (answered told) := by
  unfold AgentService.service AgentService.telling handle
  simp only [ExceptT.run_bind, bind_assoc, attempt]
  refine congrArg _ (funext fun res => ?_)
  cases res with
  | error e => rfl
  | ok verdict =>
      simp only [ExceptT.run_mk, bind_assoc]
      exact (bind_pure (settle raw verdict).run).symm

theorem resume_told : a.service.boot = a.telling.boot >>= fun told => pure (answered told) := by
  unfold AgentService.service AgentService.telling
  simp only [ExceptT.run_bind, bind_assoc]
  refine (bind_pure _).symm.trans (congrArg _ (funext fun res => ?_))
  cases res with
  | error e => rfl
  | ok u => rfl

/-- Nothing was downloaded yet, and the state file names releases. -/
structure Fresh (a : AgentService) (h : Host) : Prop where
  empty : ∀ q x, a.versionRoot <+: q → h.device.fs.get q ≠ some (.file x)
  named : ∀ cfg, a.engine = some cfg → Named cfg.installer h.device.fs

theorem Fresh.ground (hf : Fresh a h) : Ground a hash [] h := by
  refine ⟨fun r q x hr hq hx => ?_, hf.named⟩
  rw [versionDirectory_eq hr] at hq
  exact absurd hx (hf.empty q x ((List.prefix_append _ _).trans hq))

/-- The lifetimes of an agent that is killed only where nothing was fetched
in the call under way, and can take back what it fetched. -/
abbrev Careful (a : AgentService) (hash : Content → String) (h₀ : Host) :
    Phase Memory → Host → List Handled → Prop :=
  Chronicle (answer.noting (unchecked a)) (Allowed hash) (fun _ v _ => v.2 = false) a.telling
    false h₀

/-- All through these, the downloads are what the ledger says. -/
theorem careful_ground (hb : a.Beside) {h₀ : Host} (hf : Fresh a h₀) {ph : Phase Memory}
    {history : List Handled} (hc : Careful a hash h₀ ph h history) :
    Ground a hash (a.ledger history) h := by
  refine Chronicle.invariant (J := fun h history => Ground a hash (a.ledger history) h)
    (B := fun history _ v _ => v.2 = false → Ground a hash (a.ledger history) v.1) hf.ground ?_
    ?_ ?_ hc
  · intro _ _ v _ hv hn
    exact hv hn
  · intro h history hg
    have hresumed : PlainRun a hash (a.ledger history) (fun _ _ => True) (resumeActive a).run {} h :=
      resumeActive_plain hb hg
    have hboot : wp (answer.noting (unchecked a)) (Allowed hash)
        (fun _ => Border a hash (a.ledger history) fun _ _ => True)
        (resumeActive a >>= fun _ => (pure none : Act agent Memory String (Option Told))).run
        (fun _ _ v => Ground a hash (a.ledger history) v.1) {} (h, false) :=
      wp_seq_of (wp_of_plain hresumed) (fun _ _ _ hv => hv.1) fun _ _ _ hv => hv.1
    exact wp_mono (fun _ _ _ h => h) (fun _ _ _ ho => ho.ground) (fun _ _ _ h => h) hboot
  · intro m h history raw hg
    have hserved : wp (answer.noting (unchecked a)) (Allowed hash)
        (fun _ => Border a hash (a.ledger history) (a.carries raw)) (a.telling.serve raw)
        (fun told _ v => Ground a hash (a.ledger (⟨raw, h, told⟩ :: history)) v.1) m
        (h, false) := by
      refine wp_seq_of (dispatch_grounds hb hg) ?_ ?_
      · rintro verdict m₁ v₁ ⟨-, hjudged, -⟩
        have hg₁ := hjudged verdict rfl
        refine wp_seq.mpr (wp_attempt.mpr (wp_conseq (settle_still (v := v₁)) ?_))
        rintro ret _ v' rfl
        exact hg₁
      · rintro what _ _ ⟨-, -, hthrew⟩
        exact hthrew what rfl
    exact wp_mono (fun _ _ _ h => h) (fun _ _ _ ho => ho.ground) (fun _ _ _ h => h) hserved

/-- In front of every call of `handle`. -/
theorem handle_borders (hb : a.Beside) {raw : String} (hg : Ground a hash l h) :
    wp (answer.noting (unchecked a)) (Allowed hash) (fun _ => Border a hash l (a.carries raw))
      (handle a raw).run (fun _ _ _ => True) m (h, false) := by
  refine wp_seq_of (dispatch_grounds hb hg) ?_ fun _ _ _ _ => trivial
  intro verdict m₁ v₁ _
  exact wp_conseq settle_still fun _ _ _ _ => trivial

/-- Whatever the messages, and however the store, the disk and the processes
behave: a file that is about to be copied into the releases comes from the
download of the release that the message has applied, and its content was
checked as the one of this path by a download of this release that ran to
completion. -/
theorem applied_is_verified {h₀ : Host} {m' : Memory} {v : Host × Bool}
    {history : List Handled} {raw : String} {cfg : Deploy.Config} {s d : Path} {x : Content}
    (hb : a.Beside) (hf : Fresh a h₀) (hc : Careful a hash h₀ (.up m) h history)
    (he : Exec (answer.noting (unchecked a)) (Allowed hash) (handle a raw).run m (h, false)
      (.before m' (.device (.file (.copyFile s d)))) v)
    (hcfg : a.engine = some cfg) (hd : cfg.installer.releasesRoot <+: d)
    (hx : v.1.device.fs.get s = some (.file x)) :
    ∃ message r p, parseAgentMessage a.codec raw = .ok message ∧ a.applies message r ∧
      s = a.versionDirectory r ++ p ∧ d = cfg.installer.stagingDirectory r ++ p ∧
      Verified a hash (a.ledger history) r s x := by
  have hborder := wp_before he (handle_borders hb (careful_ground hb hf hc))
  obtain ⟨hn, message, hp, r, cfg', p, happlies, hcfg', hs, hd'⟩ :=
    hborder.copy cfg s d hcfg rfl hd
  cases hcfg.symm.trans hcfg'
  obtain ⟨-, object, -, hr⟩ := id happlies
  have hvalid : Artifact.validateReleaseId r = .ok () := by
    obtain ⟨id, -, hr⟩ := bind_eq_ok.mp hr
    obtain ⟨u, hv, hr⟩ := bind_eq_ok.mp hr
    cases hr
    exact hv
  have hunder : a.versionDirectory r <+: s := by
    rw [hs]
    exact List.prefix_append _ _
  exact ⟨message, r, p, hp, happlies, hs, hd', (hborder.ground hn).verified r s x hvalid hunder hx⟩

/-! ## An agent that is killed while it downloads -/

namespace Sample

def command (name payload : String) : Json :=
  .object [("command", .string name), ("payload", .string payload)]

/-- One release of one file. -/
def updates : AgentService :=
  configurations.agentService (codec
    [("download", command Commands.kDownloadVersion "one"),
      ("apply", command Commands.kApplyVersion "release"),
      ("one", request [entry "app" "digest of a"]),
      ("release", .object [("release_id", .string "r1")])])

abbrev noted : Answers agent (Host × Bool) Turn := answer.noting (unchecked updates)

/-- The agent starts on a device without a service. -/
def started : Host := (updates.telling.boot.run noted [{}] {} (host, false)).2.1

/-- It downloads the release. -/
def served : Outcome agent Memory (Except String (Option Told)) × (Host × Bool) :=
  (updates.telling.serve "download").run noted (({} : Turn) :: (fetching "a" ++ [({} : Turn)])) {}
    (started, false)

/-- What it remembers of that. -/
def memory : Memory :=
  match served.1 with
  | .done _ m => m
  | .before m _ => m

/-- It is killed before it has the digest of what it fetched. -/
def begun : Host :=
  ((updates.telling.serve "download").run noted [{}, { content := .text "b" }] {}
    (started, false)).2.1

/-- It starts again. -/
def restarted : Host := (updates.telling.boot.run noted [{}] {} (begun, false)).2.1

/-- The calls of `apply_version` up to the first copy. -/
def applying (m : Memory) (h : Host) :
    Outcome agent Memory (Except String Unit) × (Host × Bool) :=
  (handle updates "apply").run.run noted (List.replicate 8 {}) m (h, false)

def target : Path := ["srv", "releases", ".staging-r1", "app"]

def copiesTo (s d : Path) : Op → Bool
  | .device (.file (.copyFile a b)) => a = s && b = d
  | _ => false

theorem of_copiesTo {s d : Path} {o : Op} (h : copiesTo s d o = true) :
    o = .device (.file (.copyFile s d)) := by
  unfold copiesTo at h
  split at h
  · simp only [Bool.and_eq_true, decide_eq_true_eq] at h
    obtain ⟨rfl, rfl⟩ := h
    rfl
  · cases h

theorem updates_beside : updates.Beside := by
  intro cfg hcfg
  cases hcfg
  have hplaces : ∀ p ∈ Config.places (configurations.makeEngine.get rfl),
      ¬ (p <+: ["versions"] ∨ ["versions"] <+: p) := by decide +kernel
  exact hplaces

theorem updates_fresh : Fresh updates host := by
  constructor
  · intro q x _ hx
    have hget : host.device.fs.get q = if q = [] then some .dir else none := rfl
    rw [hget] at hx
    split at hx
    · cases hx
    · cases hx
  · intro cfg hcfg
    cases hcfg
    exact named_of_none rfl

end Sample

/-- A download that is let run to its end, and what is copied then. -/
theorem applied_is_verified_download :
    ∃ m h history m' v message r p, Careful Sample.updates Sample.digest Sample.host (.up m) h
        history ∧
      Exec Sample.noted (Allowed Sample.digest) (handle Sample.updates "apply").run m (h, false)
        (.before m' (.device (.file (.copyFile ["versions", "r1", "app"] Sample.target)))) v ∧
      parseAgentMessage Sample.updates.codec "apply" = .ok message ∧
      Sample.updates.applies message r ∧
      ["versions", "r1", "app"] = Sample.updates.versionDirectory r ++ p ∧
      ∃ x, v.1.device.fs.get ["versions", "r1", "app"] = some (.file x) ∧
        Verified Sample.updates Sample.digest (Sample.updates.ledger history) r
          ["versions", "r1", "app"] x := by
  have hboot : Exec Sample.noted (Allowed Sample.digest) Sample.updates.telling.boot {}
      (Sample.host, false) (.done (.ok none) {})
      (Sample.updates.telling.boot.run Sample.noted [{}] {} (Sample.host, false)).2 :=
    exec_of_run (by decide +kernel) rfl
  obtain ⟨told, hserved⟩ : ∃ told, Sample.served.1 = .done told Sample.memory := ⟨_, rfl⟩
  have hserved := exec_of_run (A := Allowed Sample.digest) (by decide +kernel) hserved
  have hstops : (Sample.applying Sample.memory Sample.served.2.1).1.isBefore
      (Sample.copiesTo ["versions", "r1", "app"] Sample.target) = true := by decide +kernel
  obtain ⟨m', o, hrun, ho⟩ := Outcome.before_of_isBefore hstops
  obtain rfl := Sample.of_copiesTo ho
  have hcopy := exec_of_run (A := Allowed Sample.digest) (by decide +kernel) hrun
  obtain ⟨x, hx⟩ := FileTree.isFile_iff.mp (by decide +kernel :
    (Sample.applying Sample.memory Sample.served.2.1).2.1.device.fs.isFile
      ["versions", "r1", "app"] = true)
  have hcareful : Careful Sample.updates Sample.digest Sample.host (.up Sample.memory)
      Sample.served.2.1 [⟨"download", Sample.started, told⟩] :=
    .call "download" (.boot .first hboot) hserved
  obtain ⟨message, r, p, hp, happlies, hs, -, hv⟩ := applied_is_verified Sample.updates_beside
    Sample.updates_fresh hcareful hcopy rfl (by decide +kernel) hx
  exact ⟨_, _, _, _, _, message, r, p, hcareful, hcopy, hp, happlies, hs, x, hx, hv⟩

/-- The agent fetched a file with another digest, and is killed before it can
tell.  After the restart `apply_version` finds the directory, and copies the
file: no download ever ran to completion. -/
theorem unverified_is_applied :
    ∃ m h history m' v cfg x, Sample.updates.Beside ∧ Fresh Sample.updates Sample.host ∧
      Chronicle Sample.noted (fun v o c => Hashing Sample.digest v.1 o c) (fun _ _ _ => True)
        Sample.updates.telling false Sample.host (.up m) h history ∧
      Exec Sample.noted (fun v o c => Hashing Sample.digest v.1 o c)
        (handle Sample.updates "apply").run m (h, false)
        (.before m' (.device (.file (.copyFile ["versions", "r1", "app"] Sample.target)))) v ∧
      Sample.updates.engine = some cfg ∧ cfg.installer.releasesRoot <+: Sample.target ∧
      v.1.device.fs.get ["versions", "r1", "app"] = some (.file x) ∧
      ∀ r q, ¬ Verified Sample.updates Sample.digest (Sample.updates.ledger history) r q x := by
  have hboot : Exec Sample.noted (fun v o c => Hashing Sample.digest v.1 o c)
      Sample.updates.telling.boot {} (Sample.host, false) (.done (.ok none) {})
      (Sample.updates.telling.boot.run Sample.noted [{}] {} (Sample.host, false)).2 :=
    exec_of_run (by decide +kernel) rfl
  have hagain : Exec Sample.noted (fun v o c => Hashing Sample.digest v.1 o c)
      Sample.updates.telling.boot {} (Sample.begun, false) (.done (.ok none) {})
      (Sample.updates.telling.boot.run Sample.noted [{}] {} (Sample.begun, false)).2 :=
    exec_of_run (by decide +kernel) rfl
  have hkills : ((Sample.updates.telling.serve "download").run Sample.noted
      [{}, { content := .text "b" }] {} (Sample.started, false)).1.isBefore (fun _ => true) =
        true := by decide +kernel
  obtain ⟨m₁, o₁, hkilled, -⟩ := Outcome.before_of_isBefore hkills
  have hkilled := exec_of_run (A := fun v o c => Hashing Sample.digest v.1 o c)
    (by decide +kernel) hkilled
  have hstops : (Sample.applying {} Sample.restarted).1.isBefore
      (Sample.copiesTo ["versions", "r1", "app"] Sample.target) = true := by decide +kernel
  obtain ⟨m', o, hrun, ho⟩ := Outcome.before_of_isBefore hstops
  obtain rfl := Sample.of_copiesTo ho
  have hcopy := exec_of_run (A := fun v o c => Hashing Sample.digest v.1 o c)
    (by decide +kernel) hrun
  obtain ⟨x, hx⟩ := FileTree.isFile_iff.mp (by decide +kernel :
    (Sample.applying {} Sample.restarted).2.1.device.fs.isFile ["versions", "r1", "app"] = true)
  refine ⟨{}, Sample.restarted, [], m', _, _, x, Sample.updates_beside, Sample.updates_fresh,
    .boot (.killed "download" (.boot .first hboot) hkilled trivial) hagain, hcopy, rfl,
    by decide +kernel, hx, ?_⟩
  rintro r q ⟨e, hmem, -⟩
  cases hmem

end Yirang.Agent
