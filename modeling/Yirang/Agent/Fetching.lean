/-
# `Yirang.Agent.Fetching` — a download that goes well

A device whose store hands out the objects it holds, and whose disk takes
them, carries out every `download_version` that lists the right digests.

    Serves                   calls to the store and the disk that succeed
    Offers                   an entry whose object is there as it is listed
    downloadVersion_serves   the handler then succeeds
    dispatch_downloads       and so does the command
-/
import Yirang.Agent.Download

namespace Yirang.Agent

open Fs Effect Device

/-- The store hands out its objects, the disk takes them, and the digest of a
file is that of what it holds. -/
def Serves (objects : String → Option Content) (hash : Content → String) (h : Host) :
    Op → Turn → Prop
  | .device (.file (.createDirectories p)), c =>
      (answer c (.device (.file (.createDirectories p))) h).1 = .ok ()
  | .device (.download key d), c =>
      (answer c (.device (.download key d)) h).1 = .ok () ∧ objects key = some c.content
  | .device (.fileSha256 p), c =>
      c.chance.fault = none ∧ ∀ x, h.device.fs.get p = some (.file x) → c.text = hash x
  | _, _ => True

/-- The entry asks for an object of the store, with its digest. -/
def Offers (objects : String → Option Content) (hash : Content → String) (r : String)
    (element : Json) : Prop :=
  ∃ installPath key x, artifactRequest r element = .ok (installPath, hash x, key) ∧
    Path.namesDirectory installPath = false ∧ objects key = some x

section

variable {a : AgentService} {objects : String → Option Content} {hash : Content → String}
  {r : String} {target : Path} {m : Memory} {h : Host}

theorem fetch_serves {element : Json} (ho : Offers objects hash r element) :
    wp answer (Serves objects hash) Anywhere (fetch r target element).run
      (fun res _ _ => res = .ok ()) m h := by
  obtain ⟨installPath, key, x, hreq, hdir, hobj⟩ := ho
  refine wp_orPermanent_seq (fun request he => ?_) fun e he => ?_
  · cases hreq.symm.trans he
    unfold storeDownload
    simp only [hdir, Bool.false_eq_true, if_false]
    refine wp_seq.mpr ⟨trivial, fun c ⟨hok, hc⟩ => ?_⟩
    rw [hobj, Option.some.injEq] at hc
    have hfile := (Device.download_ok hok).file
    rw [hok]
    refine wp_call_seq trivial fun c' ⟨hf, htext⟩ => ?_
    have hhashed : (answer c' (.device (.fileSha256 (Path.join target installPath)))
        (answer c (.device (.download key (Path.join target installPath))) h).2).1 =
          .ok c'.text := Device.fileSha256_of_file hf hfile
    have hlisted : c'.text = hash x := hc ▸ htext _ hfile
    rw [hhashed]
    show wp _ _ _ (demand (c'.text = hash x) _).run _ _ _
    rw [demand, if_pos (decide_eq_true hlisted)]
    rfl
  · rw [hreq] at he
    cases he

theorem fetchAll_serves :
    ∀ {elements : List Json} {m : Memory} {h : Host},
      (∀ element ∈ elements, Offers objects hash r element) →
      wp answer (Serves objects hash) Anywhere (fetchAll r target elements).run
        (fun res _ _ => res = .ok ()) m h
  | [], _, _, _ => rfl
  | element :: rest, m, h, hoffers => by
      refine wp_seq_of (fetch_serves (hoffers element List.mem_cons_self)) ?_ ?_
      · intro _ m' h' _
        exact fetchAll_serves fun e he => hoffers e (List.mem_cons_of_mem _ he)
      · intro e _ _ he
        cases he

theorem discard_serves {part : Handler}
    (hp : wp answer (Serves objects hash) Anywhere part.run (fun res _ _ => res = .ok ()) m h) :
    wp answer (Serves objects hash) Anywhere (discardOnFailure target part).run
      (fun res _ _ => res = .ok ()) m h := by
  refine wp_seq.mpr (wp_attempt.mpr (wp_conseq hp ?_))
  rintro res m' h' rfl
  rfl

theorem downloadVersion_serves {payload : String} {artifacts : List Json}
    (hasks : Asks a payload r artifacts)
    (hoffers : ∀ element ∈ artifacts, Offers objects hash r element) :
    wp answer (Serves objects hash) Anywhere (downloadVersion a payload).run
      (fun res _ _ => res = .ok ()) m h := by
  obtain ⟨hstore, hroot, object, hobj, hreq⟩ := hasks
  refine wp_demand_seq (fun _ => ?_) fun hne => ?_
  · refine wp_demand_seq (fun _ => ?_) fun hne => ?_
    · refine wp_orPermanent_seq (fun object' ho => ?_) fun e he => ?_
      · cases hobj.symm.trans ho
        refine wp_orPermanent_seq (fun request hr => ?_) fun e he => ?_
        · cases hreq.symm.trans hr
          refine wp_call_seq trivial fun c hmade => ?_
          have hok : (answer c (.device (.file (.createDirectories (a.versionDirectory r)))) h).1 =
            .ok () := hmade
          rw [hok]
          refine wp_orReturn_seq (fun _ _ => ?_) fun e he => by cases he
          refine wp_seq_of (discard_serves (fetchAll_serves hoffers)) ?_ ?_
          · intro _ _ _ _
            rfl
          · intro e _ _ he
            cases he
        · rw [hreq] at he
          cases he
      · rw [hobj] at he
        cases he
    · simp [hroot] at hne
  · rw [hstore] at hne
    cases hne

/-- A command to download that is meant for the agent succeeds if the handler
does. -/
theorem dispatch_downloads {A : Host → Op → Turn → Prop} {raw : String} {message : AgentMessage}
    (hp : parseAgentMessage a.codec raw = .ok message)
    (hcommand : message.command = Commands.kDownloadVersion)
    (hgroup : message.targetGroup = "" ∨ message.targetGroup = a.options.group)
    (hd : ∀ m h, wp answer A Anywhere (downloadVersion a message.payload).run
      (fun res _ _ => res = .ok ()) m h) :
    wp answer A Anywhere (dispatch a raw).run
      (fun res _ _ => ∃ final, res = .ok (.ran message (.ok ()) final)) m h := by
  have hlookup : (messages a).lookup message.command = some (downloadVersion a) := by
    rw [hcommand]
    rfl
  have hrouted : ¬ (message.targetGroup ≠ "" && message.targetGroup ≠ a.options.group) = true := by
    rcases hgroup with hg | hg
    · simp [hg]
    · simp [hg]
  unfold dispatch
  rw [hp]
  simp only [if_neg hrouted, hlookup]
  refine wp_load_seq.mpr (wp_store_seq.mpr (wp_seq.mpr (wp_attempt.mpr ?_)))
  refine wp_conseq (hd _ _) ?_
  rintro _ m' h' rfl
  refine wp_returned_seq (fun outcome he => ?_) fun _ he => by cases he
  refine wp_seq_of report_spec ?_ (fun _ _ _ hr => by cases hr.1)
  intro _ m₂ h₂ _
  match outcome, he with
  | .ok u, _ => exact ⟨_, rfl⟩

end

end Yirang.Agent
