/-
# `Yirang.Cli.Apart` — deploys that do not mix

Nothing keeps the deploys of several clients apart but the names that they
make for their releases, and these are made of the clock.  The clock is read
once, and rounded to seconds.

    makeReleaseId_injective    another second, another name
    objectKey_injective        another name or file, another object
    deploy_follows             a deploy puts objects only under its own name
    Recorded                   the invariant of any number of runs
-/
import Yirang.Cli.Model

namespace Yirang

open Fs Effect

/-! ## Names -/

namespace Release

open Calendar

/-- Every field but the year has two digits, so two texts are cut at the
same places. -/
theorem releaseIdText_injective {d d' : DateTime} (hd : d.TwoDigits) (hd' : d'.TwoDigits)
    (h : releaseIdText d = releaseIdText d') : d = d' := by
  have hfields := List.append_cancel_left h
  obtain ⟨hyear, hfields⟩ := List.append_inj' hfields (by
    simp only [List.length_append, List.length_cons, length_padded_two hd.month,
      length_padded_two hd.day, length_padded_two hd.hour, length_padded_two hd.minute,
      length_padded_two hd.second, length_padded_two hd'.month, length_padded_two hd'.day,
      length_padded_two hd'.hour, length_padded_two hd'.minute, length_padded_two hd'.second])
  obtain ⟨hmonth, hfields⟩ := List.append_inj hfields
    ((length_padded_two hd.month).trans (length_padded_two hd'.month).symm)
  obtain ⟨hday, hfields⟩ := List.append_inj hfields
    ((length_padded_two hd.day).trans (length_padded_two hd'.day).symm)
  obtain ⟨hhour, hfields⟩ := List.append_inj (List.cons.inj hfields).2
    ((length_padded_two hd.hour).trans (length_padded_two hd'.hour).symm)
  obtain ⟨hminute, hsecond⟩ := List.append_inj hfields
    ((length_padded_two hd.minute).trans (length_padded_two hd'.minute).symm)
  cases d
  cases d'
  rw [DateTime.mk.injEq]
  exact ⟨printed_injective hyear, padded_injective hmonth, padded_injective hday,
    padded_injective hhour, padded_injective hminute, padded_injective hsecond⟩

/-- No two seconds give a release the same name. -/
theorem makeReleaseId_injective {t t' : Int} (h : makeReleaseId t = makeReleaseId t') :
    toTimeT t = toTimeT t' := by
  have hsame := releaseIdText_injective (gmtime_twoDigits _) (gmtime_twoDigits _)
    (String.ofList_injective h)
  rw [← timegm_gmtime (toTimeT t), hsame, timegm_gmtime]

theorem not_mem_releaseIdText {c : Char} (hdigit : c.isDigit = false)
    (hc : c ∉ ['r', 'e', 'l', '_', '-']) (d : DateTime) : c ∉ releaseIdText d := by
  have hpadded : ∀ {w n : Nat}, c ∉ padded w n := by
    intro w n hmem
    rw [isDigit_of_mem_padded hmem] at hdigit
    cases hdigit
  have hprinted : c ∉ printed 4 d.year := by
    cases d.year with
    | ofNat n => exact hpadded
    | negSucc n =>
        intro hmem
        rcases List.mem_cons.mp hmem with rfl | hmem
        · exact hc (by decide)
        · exact hpadded hmem
  have hrel : c ∉ "rel_".toList := by
    intro hmem
    have hsub : ("rel_".toList.all fun x => x ∈ ['r', 'e', 'l', '_', '-']) = true := by decide
    exact hc (of_decide_eq_true (List.all_eq_true.mp hsub c hmem))
  have hline : c ≠ '_' := by
    rintro rfl
    exact hc (by decide)
  simp only [releaseIdText, List.mem_append, List.mem_cons, hpadded, hprinted, hrel, hline,
    or_self, not_false_eq_true]

/-- The name of a release is one component of a key. -/
theorem slash_not_mem_makeReleaseId (t : Int) : '/' ∉ (makeReleaseId t).toList := by
  rw [makeReleaseId, String.toList_ofList]
  exact not_mem_releaseIdText (by decide) (by decide) _

end Release

/-- An object of one release is none of another. -/
theorem Artifact.objectKey_injective {r r' p p' : String} (hr : '/' ∉ r.toList)
    (hr' : '/' ∉ r'.toList) (h : objectKey r p = objectKey r' p') : r = r' ∧ p = p' := by
  have htext := congrArg String.toList h
  simp only [objectKey, String.toList_append, List.append_assoc] at htext
  have hcut := List.append_cancel_left htext
  have hbefore : ∀ {s : String} {q : List Char}, '/' ∉ s.toList →
      (s.toList ++ ("/".toList ++ q)).takeWhile (· ≠ '/') = s.toList := by
    intro s q hs
    rw [List.takeWhile_append_of_pos]
    · simp
    · intro c hc
      exact decide_eq_true fun he => hs (he ▸ hc)
  have hname : r.toList = r'.toList := by
    rw [← hbefore hr, hcut, hbefore hr']
  rw [hname] at hcut
  exact ⟨String.toList_inj.mp hname,
    String.toList_inj.mp (List.append_cancel_left (List.append_cancel_left hcut))⟩

namespace DeployCli

open Release

/-! ## What one deploy puts in the store -/

/-- The key is that of a file of the list, in a release of this time. -/
def Commands.Names (c : Commands) (now : Int) (key : String) : Prop :=
  ∃ source ∈ c.configurations.uploadFileList,
    key = Artifact.objectKey (makeReleaseId now) (filename source)

/-- A deploy reads the clock once, and then puts objects only under the name
that it got from it. -/
def monitor (c : Commands) : Monitor workstation (Option Int) where
  note
    | .now, now, _ => some now
    | _, _, s => s
  passes
    | s, .now => s = none
    | s, .upload key _ => ∃ now, s = some now ∧ c.Names now key
    | _, _ => True
  expects _ _ := True

section Follows

variable {c : Commands} {s : Option Int}

theorem entry_follows {claimed : List String} {source : String} :
    (monitor c).Follows (entry claimed source).run
      (fun r s' => s' = s ∧ ∀ e, r = .ok e → e.installPath = filename source) () s := by
  refine wp_seq.mpr ⟨trivial, fun c₁ _ => wp_require_seq.mpr ?_⟩
  split
  · refine wp_seq.mpr ⟨trivial, fun c₂ _ => wp_require_seq.mpr ?_⟩
    split
    · refine wp_require_seq.mpr ?_
      split
      · refine wp_seq.mpr ⟨trivial, fun c₃ _ => wp_seq.mpr (wp_conclude.mpr ?_)⟩
        generalize ((monitor c).answers c₃ (.fileSha256 source) _).1 = hashed
        cases hashed with
        | error e => exact ⟨rfl, fun _ he => by cases he⟩
        | ok sha256 =>
            refine wp_seq.mpr ⟨trivial, fun c₄ _ => wp_seq.mpr (wp_conclude.mpr ?_)⟩
            generalize ((monitor c).answers c₄ (.fileSize source) _).1 = measured
            cases measured with
            | error e => exact ⟨rfl, fun _ he => by cases he⟩
            | ok size => exact ⟨rfl, fun e he => by cases he; rfl⟩
      · exact ⟨rfl, fun _ he => by cases he⟩
    · exact ⟨rfl, fun _ he => by cases he⟩
  · exact ⟨rfl, fun _ he => by cases he⟩

theorem entries_follows :
    ∀ {sources claimed : List String} {s : Option Int},
      (monitor c).Follows (entries sources claimed).run
        (fun r s' => s' = s ∧ ∀ es, r = .ok es → ∀ e ∈ es,
          ∃ source ∈ sources, e.installPath = filename source) () s
  | [], _, _ => ⟨rfl, fun es hes e he => by cases hes; cases he⟩
  | source :: rest, claimed, s => by
      refine wp_seq_of entry_follows ?_ ?_
      · rintro first - s₁ ⟨rfl, hfirst⟩
        refine wp_seq_of entries_follows ?_ ?_
        · rintro others - s₂ ⟨rfl, hothers⟩
          refine ⟨rfl, fun es hes e he => ?_⟩
          cases hes
          rcases List.mem_cons.mp he with rfl | he
          · exact ⟨source, List.mem_cons_self, hfirst _ rfl⟩
          · obtain ⟨source', hsource, hpath⟩ := hothers _ rfl e he
            exact ⟨source', List.mem_cons_of_mem _ hsource, hpath⟩
        · rintro why - s₂ ⟨rfl, -⟩
          exact ⟨rfl, fun _ he => by cases he⟩
      · rintro why - s₁ ⟨rfl, -⟩
        exact ⟨rfl, fun _ he => by cases he⟩

theorem makeObjectKey_eq {r p key : String} (h : Artifact.makeObjectKey r p = .ok key) :
    key = Artifact.objectKey r p := by
  obtain ⟨_, -, h⟩ := bind_eq_ok.mp h
  obtain ⟨_, -, h⟩ := bind_eq_ok.mp h
  cases h
  rfl

theorem uploadAll_follows {now : Int} :
    ∀ {es : List ArtifactEntry},
      (∀ e ∈ es, ∃ source ∈ c.configurations.uploadFileList, e.installPath = filename source) →
      (monitor c).Follows (uploadAll (makeReleaseId now) es).run (fun _ s => s = some now) ()
        (some now)
  | [], _ => rfl
  | e :: rest, hes => by
      obtain ⟨source, hsource, hpath⟩ := hes e List.mem_cons_self
      refine wp_seq.mpr (wp_conclude.mpr ?_)
      cases hkey : Artifact.makeObjectKey (makeReleaseId now) e.installPath with
      | error why => exact rfl
      | ok key =>
          have hnames : c.Names now key := ⟨source, hsource, by rw [makeObjectKey_eq hkey, hpath]⟩
          refine wp_seq.mpr ⟨⟨now, rfl, hnames⟩, fun c₁ _ => wp_seq.mpr (wp_conclude.mpr ?_)⟩
          generalize ((monitor c).answers c₁ (.upload key e.sourcePath) _).1 = sent
          cases sent with
          | error why => exact rfl
          | ok _ => exact uploadAll_follows fun e' he' => hes e' (List.mem_cons_of_mem _ he')

theorem build_follows {now : Int} {sources : List String} :
    (monitor c).Follows (build sources (makeReleaseId now) now).run
      (fun r s' => s' = s ∧ ∀ manifest, r = .ok manifest →
        manifest.releaseId = makeReleaseId now ∧ ∀ e ∈ manifest.artifacts,
          ∃ source ∈ sources, e.installPath = filename source) () s := by
  refine wp_require_seq.mpr ?_
  split
  · refine wp_require_seq.mpr ?_
    split
    · refine wp_seq_of entries_follows ?_ ?_
      · rintro es - s' ⟨rfl, hes⟩
        exact ⟨rfl, fun manifest hm => by cases hm; exact ⟨rfl, hes _ rfl⟩⟩
      · rintro why - s' ⟨rfl, -⟩
        exact ⟨rfl, fun _ he => by cases he⟩
    · exact ⟨rfl, fun _ he => by cases he⟩
  · exact ⟨rfl, fun _ he => by cases he⟩

theorem deployAt_follows {now : Int} :
    (monitor c).Follows (deployAt c now).run (fun _ _ => True) () (some now) := by
  refine wp_seq_of build_follows ?_ fun _ _ _ _ => trivial
  rintro manifest - s ⟨rfl, hm⟩
  obtain ⟨hid, hes⟩ := hm _ rfl
  have huploads : (monitor c).Follows (uploadRelease manifest).run (fun _ s => s = some now) ()
      (some now) := by
    rw [uploadRelease, hid]
    exact uploadAll_follows hes
  refine wp_seq_of huploads ?_ fun _ _ _ _ => trivial
  rintro - - s -
  refine wp_seq.mpr ⟨trivial, fun c₁ _ => wp_seq.mpr (wp_conclude.mpr ?_)⟩
  generalize ((monitor c).answers c₁ (.post kDeployments _) _).1 = posted
  cases posted with
  | error why => trivial
  | ok response =>
      refine wp_require_seq.mpr ?_
      split
      · exact ⟨trivial, fun _ _ => trivial⟩
      · trivial

/-- A deploy makes only calls that its monitor lets pass. -/
theorem deploy_follows : (monitor c).Follows (deploy c).run (fun _ _ => True) () none := by
  refine wp_seq.mpr (wp_conclude.mpr ?_)
  cases c.configurations.validateForDeploy with
  | error why => trivial
  | ok _ =>
      refine wp_require_seq.mpr ?_
      split
      · exact wp_seq.mpr ⟨rfl, fun c₁ _ => deployAt_follows⟩
      · trivial

end Follows

/-! ## Any number of deploys -/

section Runs

variable {ι : Type} [DecidableEq ι] {commands : ι → Commands} {runs : List ι}
  {ts : List (Thread ι workstation Unit (Except String Unit))} {w : Site ι}

/-- Each object was put there by a run that had started, under its own name;
and a run that put one there is the one it is from, or another did after
it. -/
structure Recorded (commands : ι → Commands) (w : Site ι) : Prop where
  named : ∀ {run key}, (run, key) ∈ w.uploads →
    ∃ now, w.started run = some now ∧ (commands run).Names now key
  held : ∀ {run key}, (run, key) ∈ w.uploads →
    ∃ last content, w.bucket key = some (last, content) ∧ (last, key) ∈ w.uploads

omit [DecidableEq ι] in
theorem Recorded.put (h : Recorded commands w) {run : ι} {key : String} {content : Content}
    {now : Int} (hs : w.started run = some now) (hn : (commands run).Names now key) :
    Recorded commands (w.put run key content) where
  named hm := by
    rcases List.mem_cons.mp hm with he | hm
    · cases he
      exact ⟨now, hs, hn⟩
    · exact h.named hm
  held {run' key'} hm := by
    by_cases he : key' = key
    · exact ⟨run, content, if_pos he, he ▸ List.mem_cons_self⟩
    · have hold : (run', key') ∈ w.uploads :=
        (List.mem_cons.mp hm).resolve_left fun e => he (Prod.mk.inj e).2
      obtain ⟨last, x, hb, hl⟩ := h.held hold
      exact ⟨last, x, (if_neg he).trans hb, List.mem_cons_of_mem _ hl⟩

/-- Before its clock is read a run has put nothing anywhere. -/
theorem Recorded.begin (h : Recorded commands w) {run : ι} {now : Int}
    (hs : w.started run = none) : Recorded commands (w.start run now) where
  named {run' key'} hm := by
    obtain ⟨now', hs', hn⟩ := h.named hm
    have hne : run' ≠ run := by
      rintro rfl
      rw [hs] at hs'
      cases hs'
    exact ⟨now', (if_neg hne).trans hs', hn⟩
  held hm := h.held hm

/-- The monitor of a run knows when it started. -/
def Started (run : ι) (s : Option Int) (w : Site ι) : Prop := w.started run = s

theorem guarded : Guarded answer (fun _ _ _ _ => True) (fun run => monitor (commands run)) id
    (Recorded commands) (Started (ι := ι)) where
  expected _ _ _ _ := trivial
  world {run s w o c} hI hJ hp _ := by
    cases o with
    | now =>
        have hs : w.started run = none := Eq.trans hJ hp
        exact hI.begin hs
    | upload key source =>
        obtain ⟨now, rfl, hn⟩ := hp
        show Recorded commands (if _ then w.put run key c.content else w)
        split
        · exact hI.put hJ hn
        · exact hI
    | exists_ path => exact hI
    | isRegularFile path => exact hI
    | fileSha256 path => exact hI
    | fileSize path => exact hI
    | post path body => exact hI
    | present title body => exact hI
  own {run s w o c} hI hJ hp _ := by
    cases o with
    | now => exact if_pos rfl
    | upload key source =>
        show (if _ then w.put run key c.content else w).started run = s
        split
        · exact hJ
        · exact hJ
    | exists_ path => exact hJ
    | isRegularFile path => exact hJ
    | fileSha256 path => exact hJ
    | fileSize path => exact hJ
    | post path body => exact hJ
    | present title body => exact hJ
  others {run run' s s' w o c} _ _ _ _ hne hJ := by
    cases o with
    | now => exact (if_neg hne).trans hJ
    | upload key source =>
        show (if _ then w.put run key c.content else w).started run' = s'
        split
        · exact hJ
        · exact hJ
    | exists_ path => exact hJ
    | isRegularFile path => exact hJ
    | fileSha256 path => exact hJ
    | fileSize path => exact hJ
    | post path body => exact hJ
    | present title body => exact hJ

/-- Whatever the order of their calls. -/
theorem Reached.recorded (hnd : runs.Nodup) (h : Reached commands runs ts w) :
    Recorded commands w ∧
      (∀ t ∈ ts, t.Watched (fun run => monitor (commands run)) (Started (ι := ι))
        (fun _ _ => True) w) ∧ (ts.map Thread.owner).Nodup := by
  induction h with
  | start =>
      refine ⟨⟨fun hm => (by cases hm), fun hm => (by cases hm)⟩, fun t ht => ?_, ?_⟩
      · obtain ⟨run, -, rfl⟩ := List.mem_map.mp ht
        exact ⟨none, rfl, deploy_follows⟩
      · rw [List.map_map]
        simpa [Function.comp_def] using hnd
  | step _ hs ih =>
      obtain ⟨hI, hts, hn⟩ := ih
      obtain ⟨hI', hts'⟩ := guarded.step hI hts hn hs
      exact ⟨hI', hts', hs.owners ▸ hn⟩

/-- A deploy that goes well while the other runs wait. -/
theorem Reached.deployed {run : ι}
    (older newer : List (Thread ι workstation Unit (Except String Unit)))
    (h : Reached commands runs (older ++ ⟨run, (), (deploy (commands run)).run⟩ :: newer) w)
    (cs : List Turn) (hok : ((deploy (commands run)).run.run (answer run) cs () w).1.isOk = true) :
    Reached commands runs (older ++ ⟨run, (), .pure (.ok ())⟩ :: newer)
      ((deploy (commands run)).run.run (answer run) cs () w).2 := by
  obtain ⟨_, _, he⟩ := Outcome.done_of_isOk hok
  exact Pool.steps_of_exec (P := Reached commands runs) (fun _ _ _ _ => .step)
    (exec_freely (answer run) _ cs () w he) h

/-- Two runs started in the same second, and each has a file of one name,
which in a release of that second has this key. -/
def Clash (commands : ι → Commands) (w : Site ι) (run other : ι) (key : String) : Prop :=
  ∃ now now', w.started run = some now ∧ w.started other = some now' ∧
    toTimeT now = toTimeT now' ∧
    ∃ source ∈ (commands run).configurations.uploadFileList,
      ∃ source' ∈ (commands other).configurations.uploadFileList,
        filename source = filename source' ∧
        key = Artifact.objectKey (makeReleaseId now) (filename source)

omit [DecidableEq ι] in
theorem Recorded.clash (h : Recorded commands w) {run other : ι} {key : String}
    (hk : (run, key) ∈ w.uploads) (hk' : (other, key) ∈ w.uploads) :
    Clash commands w run other key := by
  obtain ⟨now, hs, source, hsource, hkey⟩ := h.named hk
  obtain ⟨now', hs', source', hsource', hkey'⟩ := h.named hk'
  obtain ⟨hid, hname⟩ := Artifact.objectKey_injective (slash_not_mem_makeReleaseId now)
    (slash_not_mem_makeReleaseId now') (hkey.symm.trans hkey')
  exact ⟨now, now', hs, hs', makeReleaseId_injective hid, source, hsource, source', hsource',
    hname, hkey⟩

/-- Two runs put an object under one key only if they clash, and what a run
has put in the store is replaced by no other run that does not clash with
it. -/
theorem deploys_apart (commands : ι → Commands) {runs : List ι} (hnd : runs.Nodup)
    {ts : List (Thread ι workstation Unit (Except String Unit))} {w : Site ι}
    (h : Reached commands runs ts w) {run : ι} {key : String} (hk : (run, key) ∈ w.uploads) :
    (∀ other, other ≠ run → (other, key) ∈ w.uploads → Clash commands w run other key) ∧
      ∃ last content, w.bucket key = some (last, content) ∧
        (last = run ∨ Clash commands w run last key) := by
  obtain ⟨hr, -⟩ := h.recorded hnd
  obtain ⟨last, content, hb, hl⟩ := hr.held hk
  exact ⟨fun other _ hk' => hr.clash hk hk', last, content, hb, .inr (hr.clash hk hl)⟩

end Runs

/-! ### Two small deploys -/

namespace Sample

/-- Each client deploys a file of its own; both are called `app`. -/
def commands (client : Nat) : Commands where
  configurations :=
    { controlPlaneUrl := "http://control"
      uploadFileList := [if client = 0 then "first/app" else "second/app"]
      s3Bucket := "bucket"
      readable := by
        intro text ht
        simp only [List.mem_cons, List.not_mem_nil, or_false] at ht
        rcases ht with rfl | rfl
        · decide
        · split <;> decide }
  store := true
  codec := { parse := fun _ => .error "syntax error", serialize := fun _ => "" }

/-- A deploy where everything goes well. -/
def turns (now : Int) (content : Content) : List Turn :=
  [{ now }, {}, {}, {}, {}, { content }, {}, {}]

def key : String := "releases/rel_20231114_221320/app"

/-- The first client deploys. -/
def first : Outcome workstation Unit (Except String Unit) × Site Nat :=
  (deploy (commands 0)).run.run (answer 0) (turns 1700000000000000000 (.text "one")) () {}

/-- The second does so within the same second. -/
def second : Outcome workstation Unit (Except String Unit) × Site Nat :=
  (deploy (commands 1)).run.run (answer 1) (turns 1700000000900000000 (.text "two")) () first.2

end Sample

theorem Sample.both : ∃ ts, Reached Sample.commands [0, 1] ts Sample.second.2 := by
  have hstart : Reached Sample.commands [0, 1] _ {} := .start
  have hfirst := hstart.deployed [] [⟨1, (), (deploy (Sample.commands 1)).run⟩]
    (Sample.turns 1700000000000000000 (.text "one")) (by decide +kernel)
  exact ⟨_, hfirst.deployed [⟨0, (), .pure (.ok ())⟩] []
    (Sample.turns 1700000000900000000 (.text "two")) (by decide +kernel)⟩

/-- The object that the first client put in the store, and announced, is the
second one's. -/
theorem deploys_mix : ∃ ts, Reached Sample.commands [0, 1] ts Sample.second.2 ∧
    (0, Sample.key) ∈ Sample.second.2.uploads ∧ (1, Sample.key) ∈ Sample.second.2.uploads ∧
    (Sample.second.2.bucket Sample.key).map Prod.fst = some 1 := by
  obtain ⟨ts, h⟩ := Sample.both
  exact ⟨ts, h, by decide +kernel, by decide +kernel, by decide +kernel⟩

/-- The two clash. -/
theorem deploys_apart_both : ∃ ts, Reached Sample.commands [0, 1] ts Sample.second.2 ∧
    Clash Sample.commands Sample.second.2 0 1 Sample.key := by
  obtain ⟨ts, h⟩ := Sample.both
  exact ⟨ts, h, (deploys_apart Sample.commands (by decide) h (by decide +kernel)).1 1 (by decide)
    (by decide +kernel)⟩

end DeployCli

end Yirang
