/-
# `Yirang.Install.Listing` — the installed releases, and a failed `install`

`installed` lists the directories below `releases/`, but for the internal
ones, the newest first.  Here is what a list it returns says of the disk:
exactly the names of the releases, each once, in the order of their times.

    isRelease   the name is a release's directory
    Sees        a `stat` of a directory that is there does not fail
    Dates       the time of a release can be read, and is this one

With it a failed `install` is seen from outside: the state file, the
releases with all they hold and the list are what they were.
-/
import Yirang.Install.Pointer
import Yirang.Install.Publish

namespace Yirang

open Fs Effect Device

namespace Install

variable {o : InstallOptions} {A : World → Op → Choice → Prop} {w w' : World} {r : String}
  {source q : Path} {mtime : String → Int}

def isRelease (o : InstallOptions) (t : FileTree Content) (n : String) : Bool :=
  t.isDir (o.releasesRoot ++ [n]) && !isInternalName n

/-- The directories that are there are seen. -/
def Sees (o : InstallOptions) (A : World → Op → Choice → Prop) : Prop :=
  HonestDir o.releasesRoot A ∧ ∀ n, HonestDir (o.releasesRoot ++ [n]) A

/-- The times of the releases, as they are read. -/
def Dates (o : InstallOptions) (mtime : String → Int) (A : World → Op → Choice → Prop) : Prop :=
  ∀ w c n, A w (.file (.lastWriteTime (o.releasesRoot ++ [n]))) c →
    c.chance.fault = none ∧ c.chance.number = mtime n

/-! ## The order -/

theorem byTime_perm (found : List (Int × String)) :
    (byTime found).Perm (found.map Prod.snd) :=
  (List.perm_insertionSort _ found).map Prod.snd

theorem byTime_sorted {found : List (Int × String)} (h : ∀ x ∈ found, x.1 = mtime x.2) :
    (byTime found).Pairwise fun a b => mtime b ≤ mtime a := by
  have : Std.Total fun left right : Int × String => left.1 ≥ right.1 :=
    ⟨fun x y => Int.le_total y.1 x.1⟩
  have : IsTrans (Int × String) fun left right => left.1 ≥ right.1 :=
    ⟨fun _ _ _ hxy hyz => Int.le_trans hyz hxy⟩
  refine List.pairwise_map.mpr ?_
  refine (List.pairwise_insertionSort _ found).imp_of_mem fun {x y} hx hy hxy => ?_
  rw [← h x ((List.mem_insertionSort _).mp hx), ← h y ((List.mem_insertionSort _).mp hy)]
  exact hxy

/-! ## What `installed` returns -/

theorem dir_answer (hA : HonestDir q A) {c : Choice} (hc : A w (.file (.isDirectory q)) c) :
    (answer c (.file (.isDirectory q)) w).1 = w.fs.isDir q := by
  cases hd : w.fs.isDir q with
  | true =>
      have hdir : (w.bury c.dead).fs.isDir q = true := hd
      simp only [answer_fst, perform, FileOp.answer, hA w c hc hd, hdir]
      rfl
  | false =>
      cases ha : (answer c (.file (.isDirectory q)) w).1 with
      | false => rfl
      | true => exact absurd (isDir_of_answer ha) (by simp [hd])

theorem survey_spec (mtime : String → Int) (hA : Sees o A) (names : List String) :
    wp answer A Anywhere (survey o names).run
      (fun res _ w' => w'.fs = w.fs ∧ ∃ found, res = .ok found ∧
        found.map Prod.snd = names.filter (isRelease o w.fs) ∧
        (Dates o mtime A → ∀ x ∈ found, x.1 = mtime x.2)) () w := by
  induction names generalizing w with
  | nil => exact ⟨rfl, [], rfl, rfl, fun _ x hx => by cases hx⟩
  | cons n rest ih =>
      refine wp_seq.mpr (wp_file.mpr ⟨trivial, fun c hc => ?_⟩)
      have hfs : (answer c (.file (.isDirectory (o.releasesRoot ++ [n]))) w).2.fs = w.fs := rfl
      rw [dir_answer (hA.2 n) hc]
      dsimp only [andThen]
      split
      · rename_i hrel
        refine wp_seq.mpr (wp_file.mpr ⟨trivial, fun c₂ hc₂ => ?_⟩)
        refine wp_seq_of (ih (w := (answer c₂ (.file (.lastWriteTime (o.releasesRoot ++ [n])))
          (answer c (.file (.isDirectory (o.releasesRoot ++ [n]))) w).2).2)) ?_ ?_
        · rintro found _ w' ⟨hw', found', hfound, hnames, hdates⟩
          cases hfound
          refine ⟨hw', _, rfl, ?_, fun hD x hx => ?_⟩
          · rw [List.filter_cons_of_pos (p := isRelease o w.fs) hrel, List.map_cons, hnames]
            rfl
          · rcases List.mem_cons.mp hx with rfl | hx
            · obtain ⟨hf, hnum⟩ := hD _ _ _ hc₂
              simp only [answer_fst, perform, FileOp.answer, hf, hnum]
              rfl
            · exact hdates hD x hx
        · rintro e _ w' ⟨_, found', h, _⟩
          cases h
      · rename_i hrel
        refine wp_conseq ih ?_
        rintro res _ w' ⟨hw', found, hfound, hnames, hdates⟩
        refine ⟨hw', found, hfound, ?_, hdates⟩
        rw [List.filter_cons_of_neg (p := isRelease o w.fs) hrel]
        exact hnames

/-- What was listed whole is what is there. -/
theorem listed_whole {c : Choice} {p : Path} {entries : Listing String}
    (h : (answer c (.file (.list p)) w).1 = .ok entries) (hb : entries.broken = none) :
    entries.items.Nodup ∧ ∀ n, n ∈ entries.items ↔ w.fs.get (p ++ [n]) ≠ none := by
  simp only [answer_fst, perform, FileOp.answer] at h
  split at h
  · cases h
    rw [Chance.listing_whole hb]
    exact ⟨nodup_arrange (FileTree.nodup_children _ _),
      fun n => mem_arrange.trans FileTree.mem_children⟩
  · cases h

/-- The list is exactly the releases that are there. -/
structure Lists (o : InstallOptions) (t : FileTree Content) (names : List String) : Prop where
  nodup : names.Nodup
  mem : ∀ n, n ∈ names ↔ isRelease o t n = true

theorem installed_spec (mtime : String → Int) (hA : Sees o A) :
    wp answer A Anywhere (installed o).run
      (fun res _ w' => w'.fs = w.fs ∧ ∀ names, res = .ok names → Lists o w.fs names ∧
        (Dates o mtime A → names.Pairwise fun a b => mtime b ≤ mtime a)) () w := by
  unfold installed
  refine wp_seq.mpr (wp_file.mpr ⟨trivial, fun c hc => ?_⟩)
  have hfs : (answer c (.file (.isDirectory o.releasesRoot)) w).2.fs = w.fs := rfl
  rw [dir_answer hA.1 hc]
  revert hfs
  generalize (answer c (.file (.isDirectory o.releasesRoot)) w).2 = w₁
  intro hfs
  dsimp only [andThen]
  split
  · refine wp_seq.mpr (wp_orFail.mpr (wp_file.mpr ⟨trivial, fun c₂ _ => ?_⟩))
    have hfs₂ : (answer c₂ (.file (.list o.releasesRoot)) w₁).2.fs = w.fs := by
      rw [← hfs]
      simp only [answer_fs, perform, FileOp.answer]
      split <;> rfl
    cases hl : (answer c₂ (.file (.list o.releasesRoot)) w₁).1 with
    | error e => exact ⟨hfs₂, fun names h => by cases h⟩
    | ok entries =>
        refine wp_seq_of (survey_spec mtime hA entries.items) ?_ ?_
        · rintro found _ w' ⟨hw', found', hfound, hnames, hdates⟩
          cases hfound
          rw [hfs₂] at hw' hnames
          cases hb : entries.broken with
          | some why => exact ⟨hw', fun names h => by cases h⟩
          | none =>
              obtain ⟨hnodup, hmem⟩ := listed_whole hl hb
              refine ⟨hw', fun names h => ?_⟩
              cases h
              refine ⟨⟨?_, fun n => ?_⟩, fun hD => byTime_sorted (hdates hD)⟩
              · rw [(byTime_perm found).nodup_iff, hnames]
                exact hnodup.filter _
              · rw [(byTime_perm found).mem_iff, hnames, List.mem_filter, hmem, hfs]
                refine and_iff_right_of_imp fun hrel => ?_
                simp only [isRelease, Bool.and_eq_true] at hrel
                rw [FileTree.isDir_iff.mp hrel.1]
                simp
        · rintro e _ w' ⟨_, found', h, _⟩
          cases h
  · rename_i hno
    refine ⟨hfs, fun names h => ?_⟩
    cases h
    refine ⟨⟨List.nodup_nil, fun n => ⟨fun h => (by cases h), fun hrel => ?_⟩⟩,
      fun _ => List.Pairwise.nil⟩
    -- a release's directory stands in the directory of the releases
    simp only [isRelease, Bool.and_eq_true] at hrel
    have hroot := w.fs.rooted (p := o.releasesRoot) (n := n) (by
      rw [FileTree.isDir_iff.mp hrel.1]
      simp)
    exact absurd (FileTree.isDir_iff.mpr hroot) hno

/-! ## A failed `install`, from outside -/

/-- What shows of the installer: the state file, and every directory below
`releases/` with a name of its own, with all it holds. -/
structure SameOutside (o : InstallOptions) (w w' : World) : Prop where
  state : w'.fs.get o.statePath = w.fs.get o.statePath
  releases : ∀ a, isInternalName a = false →
    Carries w (o.releasesRoot ++ [a]) w' (o.releasesRoot ++ [a])

theorem SameOutside.isRelease (h : SameOutside o w w') (n : String) :
    Install.isRelease o w'.fs n = Install.isRelease o w.fs n := by
  cases hn : isInternalName n with
  | true => simp [Install.isRelease, hn]
  | false => rw [Install.isRelease, (h.releases n hn).isDir, Install.isRelease]

/-- Nothing stands where a name cannot be. -/
theorem get_improper {t : FileTree Content} {a : String} {p x : Path} (h : ProperName a ≠ true) :
    t.get (p ++ [a] ++ x) = none := by
  by_contra hne
  have hp := (properPath_append.mp (t.proper hne)).1
  exact h (properPath_singleton.mp (properPath_append.mp hp).2)

theorem sameOutside_of_kept (hw : Within (Installs o r) w w')
    (hk : ValidId r → Carries w (o.releaseDirectory r) w' (o.releaseDirectory r)) :
    SameOutside o w w' := by
  refine ⟨hw.files (not_installs_beside (x := []) (by decide)), fun a ha x => ?_⟩
  by_cases hp : ProperName a = true
  case neg => rw [get_improper hp, get_improper hp]
  have hvalid : ValidId a := ⟨hp, ha⟩
  rw [← hvalid.releaseDirectory]
  by_cases har : a = r
  · exact har ▸ hk (har ▸ hvalid) x
  · exact hw.files (not_installs_release hvalid har)

/-- An `install` that fails changes nothing that shows, provided that the old
copy can be put back where it was set aside: not the state file, not a file of
a release, and not the list of the releases. -/
theorem failed_install_keeps (hA : Restores o r A) {e : InstallError}
    (he : Exec answer A (install o r source).run () w (.done (.error e) ()) w') :
    w'.fs.get o.statePath = w.fs.get o.statePath ∧
    (∀ a, isInternalName a = false →
      ∀ x, w'.fs.get (o.releasesRoot ++ [a] ++ x) = w.fs.get (o.releasesRoot ++ [a] ++ x)) ∧
    ∀ {L : World → Op → Choice → Prop} {before after : List String} {w₁ w₂ : World},
      Sees o L → Exec answer L (installed o).run () w (.done (.ok before) ()) w₁ →
      Exec answer L (installed o).run () w' (.done (.ok after) ()) w₂ →
      after.Perm before := by
  obtain ⟨hw, hlaid⟩ := wp_done he (install_spec (A := A) fun _ => ready_anywhere)
  have hsame : SameOutside o w w' := by
    refine sameOutside_of_kept hw fun _ => ?_
    cases hlaid with
    | failed h =>
        cases h with
        | kept hk => exact hk
        | aside hno _ => exact absurd hA hno
  refine ⟨hsame.state, hsame.releases, fun hS h₁ h₂ => ?_⟩
  have hbefore := (wp_done h₁ (installed_spec (fun _ => 0) hS)).2 _ rfl
  have hafter := (wp_done h₂ (installed_spec (fun _ => 0) hS)).2 _ rfl
  refine (List.perm_ext_iff_of_nodup hafter.1.nodup hbefore.1.nodup).mpr fun n => ?_
  rw [hafter.1.mem, hbefore.1.mem, hsame.isRelease]

namespace Sample

def options : InstallOptions := { serviceRoot := "/srv" }

/-- `r1` is installed and active, and is fetched once more. -/
def fetchedAgain : World :=
  .idle (.ofFiles
    [(["srv", "releases", "r1", "app"], .text "one"),
      (["srv", "state.json"], .json (ActivationState.toJson ⟨"r1", "", "then"⟩)),
      (["src", "app"], .text "two")]) "boot"

/-- The old copy can be put back. -/
def restoring (w : World) (op : Op) (c : Choice) : Bool :=
  match op with
  | .file (.rename a b) =>
      a != options.retiredDirectory "r1" ||
        ((answer c (.file (.rename a b)) w).1 matches .ok _)
  | _ => true

/-- The thirteenth call would put the new copy in its place. -/
def swapping : List Choice :=
  (List.range 16).map fun i =>
    if i = 12 then { chance := { fault := some "Input/output error" } } else {}

end Sample

/-- A swap whose second rename fails: the list has `r1` before and after. -/
theorem failed_install_keeps_swap :
    ∃ e w', Exec answer (fun w op c => Sample.restoring w op c = true)
        (install Sample.options "r1" ["src"]).run () Sample.fetchedAgain
        (.done (.error e) ()) w' ∧
      w'.fs.get Sample.options.statePath = Sample.fetchedAgain.fs.get Sample.options.statePath ∧
      List.Perm ["r1"] ["r1"] := by
  obtain ⟨e, he⟩ : ∃ e, ((install Sample.options "r1" ["src"]).run.run answer Sample.swapping ()
      Sample.fetchedAgain).1 = .done (.error e) () := ⟨_, rfl⟩
  have hrun := exec_of_run (A := fun w op c => Sample.restoring w op c = true)
    (by decide +kernel) he
  have hA : Restores Sample.options "r1" fun w op c => Sample.restoring w op c = true := by
    intro w c hc
    simp only [Sample.restoring, bne_self_eq_false, Bool.false_or] at hc
    revert hc
    cases (answer c (.file (.rename (Sample.options.retiredDirectory "r1")
        (Sample.options.releaseDirectory "r1"))) w).1 with
    | ok _ => exact fun _ => rfl
    | error why => exact fun h => by cases h
  have hkeeps := failed_install_keeps hA hrun
  have hsees : Sees Sample.options fun _ _ c => c.chance.fault = none :=
    ⟨fun _ _ h _ => h, fun _ _ _ h _ => h⟩
  have hbefore : Exec answer (fun _ _ c => c.chance.fault = none) (installed Sample.options).run ()
      Sample.fetchedAgain (.done (.ok ["r1"]) ()) _ :=
    exec_of_run (l := List.replicate 4 {}) (by decide +kernel) rfl
  have hafter : Exec answer (fun _ _ c => c.chance.fault = none) (installed Sample.options).run ()
      ((install Sample.options "r1" ["src"]).run.run answer Sample.swapping ()
        Sample.fetchedAgain).2 (.done (.ok ["r1"]) ()) _ :=
    exec_of_run (l := List.replicate 5 {}) (by decide +kernel) rfl
  exact ⟨e, _, hrun, hkeeps.1, hkeeps.2.2 hsees hbefore hafter⟩

end Install

end Yirang
