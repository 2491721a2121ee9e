/-
# `Yirang.Install.Frame` — what each installer function may change

Every function of the installer has a footprint, a set of paths outside of
which it leaves the disk alone:

    Copied o r     the staging directory of `r`, and those on the way to it
    Staged o r     … and the release directory of `r`, and the retired
                   directories: `install r`
    Pointed o      the state file, its temporary, the link, and the root
                   directory on the way: `activate` and `rollback`
    Pruned o s     releases other than the two that `s` names: `prune`

The footprints are read off the program text (`Uses`); that they are
disjoint from the paths somebody else relies on is a fact about names.
-/
import Yirang.Install.Model

namespace Yirang

open Fs Effect Device

namespace Install

/-! ## Names of releases -/

/-- What `validate_release_id` leaves: a name that a directory entry can
have, and that the installer does not use itself. -/
structure ValidId (r : String) : Prop where
  proper : ProperName r = true
  outer : isInternalName r = false

theorem validId_of_validate {r : String} (h : validateReleaseId r = .ok ()) : ValidId r := by
  unfold validateReleaseId at h
  split at h
  · cases h
  · rename_i hne
    split at h
    · cases h
    · rename_i hsep
      split at h
      · cases h
      · rename_i href
        simp only [Bool.or_eq_true, not_or, decide_eq_true_eq, Bool.not_eq_true,
          List.contains_eq_mem] at hsep href
        exact ⟨Path.properName_iff.mpr ⟨hne, href.1.1, href.1.2, hsep.1⟩, href.2⟩

theorem startsWith_iff {name start : String} :
    startsWith name start = true ↔ start.toList <+: name.toList :=
  List.isPrefixOf_iff_prefix

theorem startsWith_append (start name : String) : startsWith (start ++ name) start = true := by
  rw [startsWith_iff, String.toList_append]
  exact List.prefix_append _ _

theorem properName_append {start name : String} (h : ProperName name = true)
    (hlong : 2 < start.toList.length) (hs : '/' ∉ start.toList) :
    ProperName (start ++ name) = true := by
  have hlen : 2 < (start ++ name).toList.length := by
    rw [String.toList_append, List.length_append]
    omega
  have hne : ∀ s : String, s.toList.length ≤ 2 → start ++ name ≠ s := fun s hs e => by
    rw [e] at hlen
    omega
  refine Path.properName_iff.mpr
    ⟨hne _ (by decide), hne _ (by decide), hne _ (by decide), ?_⟩
  rw [String.toList_append, List.mem_append]
  exact fun h' => h'.elim hs (Path.properName_iff.mp h).2.2.2

namespace ValidId

variable {r : String} (h : ValidId r) (o : InstallOptions)

include h

theorem releaseDirectory : o.releaseDirectory r = o.releasesRoot ++ [r] :=
  Path.join_of_proper h.proper _

theorem stagingDirectory : o.stagingDirectory r = o.releasesRoot ++ [kStagingPrefix ++ r] :=
  Path.join_of_proper (properName_append h.proper (by decide) (by decide)) _

theorem retiredDirectory : o.retiredDirectory r = o.releasesRoot ++ [kRetiredPrefix ++ r] :=
  Path.join_of_proper (properName_append h.proper (by decide) (by decide)) _

theorem ne_staging (r' : String) : r ≠ kStagingPrefix ++ r' := fun e => by
  have := h.outer
  rw [e, isInternalName, startsWith_append] at this
  simp at this

theorem not_retired : startsWith r kRetiredPrefix = false := by
  have := h.outer
  simp only [isInternalName, Bool.or_eq_false_iff] at this
  exact this.2

end ValidId

/-- The release has its directory. -/
structure Installed (o : InstallOptions) (t : FileTree Content) (r : String) : Prop where
  valid : ValidId r
  there : t.isDir (o.releaseDirectory r) = true

/-- A path lies in one directory of the releases only. -/
theorem child_unique {base q : Path} {m n : String} (hm : base ++ [m] <+: q)
    (hn : base ++ [n] <+: q) : m = n := by
  rcases Path.under_total hm hn with h | h
  · simpa using Path.under_base_iff.mp h
  · exact (by simpa using Path.under_base_iff.mp h : n = m).symm

/-! ## Footprints -/

def Untouched : Path → Prop := fun _ => False

def Retired (o : InstallOptions) (q : Path) : Prop :=
  ∃ n, startsWith n kRetiredPrefix = true ∧ o.releasesRoot ++ [n] <+: q

def Copied (o : InstallOptions) (r : String) (q : Path) : Prop :=
  q <+: o.stagingDirectory r ∨ o.stagingDirectory r <+: q

def Staged (o : InstallOptions) (r : String) (q : Path) : Prop :=
  q <+: o.stagingDirectory r ∨ o.stagingDirectory r <+: q ∨ o.releaseDirectory r <+: q ∨
    Retired o q

def Pointed (o : InstallOptions) (q : Path) : Prop :=
  q <+: o.root ∨ o.stateTemporary <+: q ∨ o.statePath <+: q ∨ o.currentLink <+: q

def Pruned (o : InstallOptions) (s : ActivationState) (q : Path) : Prop :=
  ∃ n, ValidId n ∧ n ≠ s.active ∧ n ≠ s.previous ∧ o.releaseDirectory n <+: q

variable {o : InstallOptions} {r : String}

section Touching

variable {X : Path → Prop} {M ε : Type}

theorem uses_file {f : FileOp Content} (h : ∀ q, f.writes q → X q) :
    Uses (Touches X) (file f : Act device M ε (FileOp.Res f)).run :=
  Uses.ask ⟨h, id⟩

/-- A call that writes nothing. -/
theorem uses_read {f : FileOp Content} (h : ∀ q, ¬ f.writes q) :
    Uses (Touches X) (file f : Act device M ε (FileOp.Res f)).run :=
  uses_file fun q hq => absurd hq (h q)

end Touching

theorem state_uses {X : Path → Prop} : Uses (Touches X) (state o).run := by
  unfold state
  refine Uses.seq (uses_read fun q h => h) fun there => ?_
  cases there with
  | false => trivial
  | true =>
      refine Uses.seq (uses_read fun q h => h) fun source => ?_
      cases source with
      | none => trivial
      | some buffer => exact Uses.conclude

theorem writeState_uses (next : ActivationState) :
    Uses (Touches (Pointed o)) (writeState o next).run := by
  unfold writeState
  refine Uses.seq (Uses.orFail (uses_file fun q h => Or.inl h)) fun _ => ?_
  refine Uses.seq (Uses.orFail (uses_file ?_)) fun _ => ?_
  · rintro q rfl
    exact Or.inr (Or.inl List.prefix_rfl)
  refine Uses.seq (uses_file ?_) fun published => ?_
  · rintro q (h | h)
    · exact Or.inr (Or.inl h)
    · exact Or.inr (Or.inr (Or.inl h))
  cases published with
  | ok _ => trivial
  | error why =>
      refine Uses.seq (uses_file ?_) fun _ => trivial
      rintro q rfl
      exact Or.inr (Or.inl List.prefix_rfl)

theorem refreshCurrentLink_uses :
    Uses (Touches fun q => q = o.currentLink) (refreshCurrentLink o r).run :=
  Uses.seq (uses_file fun _ h => h) fun _ => Uses.seq (uses_file fun _ h => h) fun _ => trivial

theorem refreshCurrentLink_pointed : Uses (Touches (Pointed o)) (refreshCurrentLink o r).run :=
  refreshCurrentLink_uses.mono fun _ h => h.mono fun _ hq =>
    Or.inr (Or.inr (Or.inr (hq ▸ List.prefix_rfl)))

theorem uses_ask {X : Path → Prop} {M ε : Type} {op : Op} (h : ∀ q, ¬ op.writes q)
    (hs : ¬ op.IsStart) : Uses (Touches X) (ask (E := device) op : Act device M ε _).run :=
  Uses.ask ⟨fun q hq => absurd hq (h q), hs⟩

theorem activate_uses : Uses (Touches (Pointed o)) (activate o r).run := by
  unfold activate
  refine Uses.seq Uses.conclude fun _ => ?_
  refine Uses.seq (uses_read fun q h => h) fun there => ?_
  refine Uses.seq Uses.require fun _ => ?_
  refine Uses.seq state_uses fun current => ?_
  refine Uses.seq (uses_ask (fun q h => h) id) fun now => ?_
  exact Uses.seq (writeState_uses _) fun _ => refreshCurrentLink_pointed

theorem rollback_uses : Uses (Touches (Pointed o)) (rollback o).run := by
  unfold rollback
  refine Uses.seq state_uses fun current => ?_
  refine Uses.seq Uses.require fun _ => ?_
  refine Uses.seq (uses_read fun q h => h) fun there => ?_
  refine Uses.seq Uses.require fun _ => ?_
  refine Uses.seq (uses_ask (fun q h => h) id) fun now => ?_
  refine Uses.seq (writeState_uses _) fun _ => ?_
  exact Uses.seq refreshCurrentLink_pointed fun _ => trivial

/-! ## The footprint of `install` -/

theorem staged_of_copied {q : Path} (h : Copied o r q) : Staged o r q := h.imp_right Or.inl

theorem copied_of_prefix {p q : Path} (h : q <+: o.stagingDirectory r ++ p) : Copied o r q :=
  Path.under_total h (List.prefix_append _ p)

/-- The calls of the copying: they remove no directory. -/
def Builds : Op → Prop
  | .file (.walk _) | .file (.relative _ _) | .file (.isDirectory _)
  | .file (.createDirectories _) | .file (.copyFile _ _) => True
  | _ => False

theorem builds_dir {c : Choice} {op : Op} {w : World} {p : Path} (hop : Builds op)
    (h : w.fs.isDir p = true) : (answer c op w).2.fs.isDir p = true := by
  have trying : ∀ {done : Option (FileTree Content)} {failed : FileTree Content},
      (∀ t', done = some t' → t'.isDir p = true) → failed.isDir p = true →
      (FileOp.attempt c.chance w.fs done failed).2.isDir p = true := by
    intro done failed hd hf
    unfold FileOp.attempt
    cases c.chance.fault with
    | some e => exact hf
    | none =>
        cases done with
        | none => exact h
        | some t' => exact hd t' rfl
  have trying' : ∀ {done : Option (FileTree Content)},
      (∀ t', done = some t' → t'.isDir p = true) → (done.getD w.fs).isDir p = true := by
    intro done hd
    cases done with
    | none => exact h
    | some t' => exact hd t' rfl
  unfold Builds at hop
  split at hop
  · simp only [answer_fs, perform, FileOp.answer]
    split <;> exact h
  · simp only [answer_fs, perform, FileOp.answer]
    split <;> exact h
  · exact h
  · refine trying (fun t' ht => FileTree.isDir_mkdirsAt ht h) ?_
    cases c.chance.cut with
    | none => exact h
    | some n => exact trying' fun t' ht => FileTree.isDir_mkdirsAt ht h
  · rename_i a b
    have hsame : (w.bury c.dead).fs = w.fs := rfl
    simp only [answer_fs, perform, FileOp.answer, hsame, World.withFiles]
    split
    · refine trying (fun t' ht => FileTree.isDir_putAt ht h) ?_
      cases c.chance.cut with
      | none => exact h
      | some n => exact trying' fun t' ht => FileTree.isDir_putAt ht h
    · exact h
  · exact hop.elim

/-- A call of the copying, within `X`. -/
def Copies (X : Path → Prop) (op : Op) : Prop := Touches X op ∧ Builds op

theorem uses_copy {X : Path → Prop} {M ε : Type} {f : FileOp Content}
    (h : ∀ q, f.writes q → X q) (hf : Builds (.file f)) :
    Uses (Copies X) (file f : Act device M ε (FileOp.Res f)).run :=
  Uses.ask ⟨⟨h, id⟩, hf⟩

theorem place_uses (source relative : Path) :
    Uses (Copies (Copied o r)) (place source (o.stagingDirectory r) relative).run := by
  unfold place
  refine Uses.seq (Uses.orFail (uses_copy (fun q h => h.elim) trivial)) fun relative => ?_
  refine Uses.seq Uses.require fun _ => ?_
  refine Uses.seq (uses_copy (fun q h => h.elim) trivial) fun dir => ?_
  have made : ∀ p q, p <+: o.stagingDirectory r ++ relative → q <+: p → Copied o r q :=
    fun p q hp hq => copied_of_prefix (hq.trans hp)
  cases dir with
  | true =>
      refine Uses.seq (Uses.orFail (uses_copy (fun q h => ?_) trivial)) fun _ => trivial
      exact made _ q List.prefix_rfl h
  | false =>
      refine Uses.seq (Uses.orFail (uses_copy (fun q h => ?_) trivial)) fun _ => ?_
      · exact made _ q (List.dropLast_prefix _) h
      refine Uses.seq (Uses.orFail (uses_copy ?_ trivial)) fun _ => trivial
      rintro q rfl
      exact copied_of_prefix List.prefix_rfl

theorem placeAll_uses (source : Path) (entries : List Path) (copied : UInt32) :
    Uses (Copies (Copied o r)) (placeAll source (o.stagingDirectory r) entries copied).run := by
  induction entries generalizing copied with
  | nil => trivial
  | cons relative rest ih => exact Uses.seq (place_uses source relative) fun n => ih _

theorem copySource_copies (source : Path) :
    Uses (Copies (Copied o r)) (copySource r source (o.stagingDirectory r)).run := by
  unfold copySource
  refine Uses.seq (Uses.orFail (uses_copy (fun q h => h.elim) trivial)) fun entries => ?_
  refine Uses.seq (placeAll_uses source _ _) fun copied => ?_
  cases entries.broken with
  | some why => trivial
  | none => exact Uses.require

theorem copySource_uses (source : Path) :
    Uses (Touches (Copied o r)) (copySource r source (o.stagingDirectory r)).run :=
  (copySource_copies source).mono fun _ h => h.1

theorem sweepAll_uses {names : List String}
    (h : ∀ n ∈ names, startsWith n kRetiredPrefix = true) :
    Uses (Touches (Retired o)) (sweepAll o names).run := by
  induction names with
  | nil => trivial
  | cons n rest ih =>
      refine Uses.seq (uses_file fun q hq => ⟨n, h n List.mem_cons_self, hq⟩) fun _ => ?_
      exact ih fun m hm => h m (List.mem_cons_of_mem n hm)

theorem sweepRetired_uses : Uses (Touches (Retired o)) (sweepRetired o).run := by
  unfold sweepRetired
  refine Uses.seq (uses_read fun q h => h) fun entries => ?_
  cases entries with
  | error why => trivial
  | ok entries =>
      cases hb : entries.broken with
      | some why => simp only [hb]; trivial
      | none =>
          simp only [hb]
          exact sweepAll_uses fun n hn => (List.mem_filter.mp hn).2

theorem retired_of_under (hr : ValidId r) {q : Path} (h : o.retiredDirectory r <+: q) :
    Retired o q :=
  ⟨kRetiredPrefix ++ r, startsWith_append _ _, hr.retiredDirectory o ▸ h⟩

theorem stamped_retired (stamp : Int) {q : Path} (h : o.stampedDirectory r stamp <+: q) :
    Retired o q :=
  ⟨_, by rw [String.append_assoc, String.append_assoc]; exact startsWith_append _ _, h⟩

section Publishing

variable (hr : ValidId r)

include hr

theorem setAside_uses : Uses (Touches (Staged o r)) (setAside o r).run := by
  have retired : ∀ q, o.retiredDirectory r <+: q → Staged o r q := fun q h =>
    Or.inr (Or.inr (Or.inr (retired_of_under hr h)))
  refine Uses.seq (Uses.orFail (uses_file retired)) fun _ => Uses.orFail (uses_file ?_)
  rintro q (h | h)
  · exact Or.inr (Or.inr (Or.inl h))
  · exact retired q h

theorem restore_uses (replacing : Bool) (reason : String) :
    Uses (Touches (Staged o r)) (restore o r replacing reason).run := by
  cases replacing with
  | false => trivial
  | true =>
      refine Uses.seq (uses_file ?_) fun restored => by cases restored <;> trivial
      rintro q (h | h)
      · exact Or.inr (Or.inr (Or.inr (retired_of_under hr h)))
      · exact Or.inr (Or.inr (Or.inl h))

theorem dropRetired_uses : Uses (Touches (Retired o)) (dropRetired o r).run := by
  unfold dropRetired
  refine Uses.seq (uses_file fun q h => retired_of_under hr h) fun cleanup => ?_
  cases cleanup with
  | ok _ => trivial
  | error why =>
      refine Uses.seq (uses_ask (fun q h => h) id) fun stamp => ?_
      refine Uses.seq (uses_file ?_) fun _ => trivial
      rintro q (h | h)
      · exact retired_of_under hr h
      · exact stamped_retired stamp h

theorem publishStaging_uses :
    Uses (Touches (Staged o r)) (publishStaging o (o.stagingDirectory r) r).run := by
  have retired : ∀ {M α : Type} {p : Program device M α},
      Uses (Touches (Retired o)) p → Uses (Touches (Staged o r)) p := fun hp =>
    hp.mono fun op h => h.mono fun q hq => Or.inr (Or.inr (Or.inr hq))
  unfold publishStaging
  refine Uses.seq (retired sweepRetired_uses) fun _ => ?_
  refine Uses.seq (uses_read fun q h => h) fun replacing => ?_
  refine Uses.seq (Uses.provided (setAside_uses hr)) fun _ => ?_
  refine Uses.seq (uses_file ?_) fun published => ?_
  · rintro q (h | h)
    · exact Or.inr (Or.inl h)
    · exact Or.inr (Or.inr (Or.inl h))
  cases published with
  | error reason => exact restore_uses hr replacing reason
  | ok _ => exact retired (dropRetired_uses hr)

end Publishing

theorem discarding_uses {X : Path → Prop} {staging : Path} {part : Step Unit}
    (hX : ∀ q, staging <+: q → X q) (hp : Uses (Touches X) part.run) :
    Uses (Touches X) (discarding staging part).run := by
  unfold discarding
  refine Uses.seq (Uses.attempt hp) fun ended => ?_
  have out : ∀ e : InstallError, Uses (Touches X) (discard staging >>= fun _ =>
      (throw e : Step Unit)).run := fun e =>
    Uses.seq (Uses.seq (uses_file hX) fun _ => trivial) fun _ => trivial
  cases ended with
  | ok _ => trivial
  | error e =>
      cases e with
      | threw why => trivial
      | _ => exact out _

/-- Where `install r` may write: nowhere, if `r` is no release id. -/
def Installs (o : InstallOptions) (r : String) (q : Path) : Prop := ValidId r ∧ Staged o r q

theorem install_uses (source : Path) :
    Uses (Touches (Installs o r)) (install o r source).run := by
  unfold install
  have staging : ∀ q, o.stagingDirectory r <+: q → Staged o r q := fun q h => Or.inr (Or.inl h)
  refine Uses.seq Uses.require fun _ => Uses.seq_conclude fun _ hv => ?_
  have hr := validId_of_validate hv
  refine Uses.mono (fun op h => Touches.mono (fun q hq => ⟨hr, hq⟩) h) ?_
  refine Uses.seq (uses_read fun q h => h) fun there => ?_
  refine Uses.seq Uses.require fun _ => ?_
  refine Uses.seq (uses_file staging) fun _ => ?_
  refine Uses.seq (Uses.orFail (uses_file fun q h => Or.inl h)) fun _ => ?_
  refine discarding_uses staging ?_
  refine Uses.seq ?_ fun _ => publishStaging_uses hr
  exact (copySource_uses source).mono fun _ h => h.mono fun _ hq => staged_of_copied hq

/-! ## The footprint of `prune` -/

theorem survey_uses {X : Path → Prop} (names : List String) :
    Uses (Touches X) (survey o names).run := by
  induction names with
  | nil => trivial
  | cons n rest ih =>
      refine Uses.seq (uses_read fun q h => h) fun dir => ?_
      split
      · exact Uses.seq (uses_read fun q h => h) fun written =>
          Uses.seq ih fun found => trivial
      · exact ih

theorem installed_uses {X : Path → Prop} : Uses (Touches X) (installed o).run := by
  unfold installed
  refine Uses.seq (uses_read fun q h => h) fun there => ?_
  cases there with
  | false => trivial
  | true =>
      refine Uses.seq (Uses.orFail (uses_read fun q h => h)) fun entries => ?_
      refine Uses.seq (survey_uses _) fun found => ?_
      cases entries.broken with
      | some why => trivial
      | none => trivial

theorem pruneAll_uses {s : ActivationState} {names : List String} (h : ∀ n ∈ names, ValidId n)
    (retained : Int) (removed : UInt32) :
    Uses (Touches (Pruned o s)) (pruneAll o s names retained removed).run := by
  induction names generalizing retained removed with
  | nil => trivial
  | cons n rest ih =>
      have hrest : ∀ m ∈ rest, ValidId m := fun m hm => h m (List.mem_cons_of_mem n hm)
      unfold pruneAll
      split
      · exact ih hrest _ _
      · rename_i hother
        simp only [Bool.or_eq_true, decide_eq_true_eq, not_or] at hother
        split
        · exact ih hrest _ _
        · refine Uses.seq (Uses.orFail (uses_file fun q hq => ?_)) fun _ => ih hrest _ _
          exact ⟨n, h n List.mem_cons_self, hother.1, hother.2, hq⟩

/-! ## Disjoint footprints -/

section Apart

variable {a n : String} {x : Path}

/-- Beside the releases: an entry of the root directory, or below one. -/
theorem not_installs_beside (hn : n ≠ "releases") : ¬ Installs o r (o.root ++ n :: x) := by
  rintro ⟨hr, h⟩
  have apart : ∀ y, ¬ o.root ++ n :: x <+: o.root ++ "releases" :: y := fun y hy =>
    hn (List.cons_prefix_cons.mp (Path.under_base_iff.mp hy)).1
  have apart' : ∀ m, ¬ o.releasesRoot ++ [m] <+: o.root ++ n :: x := fun m hm => by
    rw [InstallOptions.releasesRoot, List.append_assoc] at hm
    exact hn (List.cons_prefix_cons.mp (Path.under_base_iff.mp hm)).1.symm
  rcases h with h | h | h | ⟨m, _, h⟩
  · rw [hr.stagingDirectory, InstallOptions.releasesRoot, List.append_assoc] at h
    exact apart _ h
  · rw [hr.stagingDirectory] at h
    exact apart' _ h
  · rw [hr.releaseDirectory] at h
    exact apart' _ h
  · exact apart' m h

theorem not_installs_release (ha : ValidId a) (har : a ≠ r) :
    ¬ Installs o r (o.releaseDirectory a ++ x) := by
  rintro ⟨hr, h⟩
  rw [ha.releaseDirectory] at h
  have self : o.releasesRoot ++ [a] <+: o.releasesRoot ++ [a] ++ x := List.prefix_append _ _
  rcases h with h | h | h | ⟨m, hm, h⟩
  · rw [hr.stagingDirectory] at h
    have hs := Path.under_base_iff.mp (self.trans h)
    exact ha.ne_staging r (List.cons_prefix_cons.mp hs).1
  · rw [hr.stagingDirectory] at h
    exact ha.ne_staging r (child_unique self h)
  · rw [hr.releaseDirectory] at h
    exact har (child_unique self h)
  · have hna := ha.not_retired
    rw [child_unique self h, hm] at hna
    cases hna

theorem not_pointed_beside (hs : n ≠ "state.json") (ht : n ≠ "state.json.tmp")
    (hc : n ≠ "current") : ¬ Pointed o (o.root ++ n :: x) := by
  have apart : ∀ m, m ≠ n → ¬ o.root ++ [m] <+: o.root ++ n :: x := fun m hm h =>
    hm (List.cons_prefix_cons.mp (Path.under_base_iff.mp h)).1
  rintro (h | h | h | h)
  · have := h.length_le
    simp only [List.length_append, List.length_cons] at this
    omega
  · exact apart _ ht.symm h
  · exact apart _ hs.symm h
  · exact apart _ hc.symm h

theorem not_pointed_release (ha : ValidId a) : ¬ Pointed o (o.releaseDirectory a ++ x) := by
  rw [ha.releaseDirectory, InstallOptions.releasesRoot, List.append_assoc, List.append_assoc]
  exact not_pointed_beside (by decide) (by decide) (by decide)

theorem not_pruned_beside {s : ActivationState} (hn : n ≠ "releases") :
    ¬ Pruned o s (o.root ++ n :: x) := by
  rintro ⟨m, hm, _, _, h⟩
  rw [hm.releaseDirectory, InstallOptions.releasesRoot, List.append_assoc] at h
  exact hn (List.cons_prefix_cons.mp (Path.under_base_iff.mp h)).1.symm

theorem not_pruned_release {s : ActivationState} (ha : ValidId a)
    (hs : a = s.active ∨ a = s.previous) : ¬ Pruned o s (o.releaseDirectory a ++ x) := by
  rintro ⟨m, hm, hact, hprev, h⟩
  rw [hm.releaseDirectory, ha.releaseDirectory] at h
  have hma := child_unique h (List.prefix_append _ _)
  subst hma
  exact hs.elim hact hprev

end Apart

end Install

end Yirang
