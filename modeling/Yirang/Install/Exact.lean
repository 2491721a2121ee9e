/-
# `Yirang.Install.Exact` — when an installed release is exactly its source

`install` empties the staging directory first, but the answer of that
`remove_all` is overwritten by the next call.  What could not be removed stays
and is published with the copy.

    Overlaid      the source laid over what was in the staging directory
    Exact         the release has the entries of the source, and no other
    install_exact_iff   after a success the release is exact exactly if the
                  `remove_all` left nothing that the source does not have

The source lies apart from the staging directory: neither holds the other.
-/
import Yirang.Install.Listing

namespace Yirang

open Fs Effect Device

namespace Install

variable {o : InstallOptions} {A : World → Op → Choice → Prop} {w w' : World} {r : String}
  {source staging x : Path} {t t' t'' : FileTree Content} {done : List Path}

/-- Neither path lies on the way to the other. -/
def Apart (p q : Path) : Prop := ¬ p <+: q ∧ ¬ q <+: p

theorem Apart.below (h : Apart source staging) (x : Path) :
    ¬ source ++ x <+: staging ∧ ¬ staging <+: source ++ x :=
  ⟨fun hp => h.1 ((List.prefix_append source x).trans hp),
    fun hp => (Path.under_total hp (List.prefix_append source x)).elim h.2 h.1⟩

/-! ## The copy over what was left -/

/-- Of the entries of the source those at `done` were placed, with the
directories on the way to them; elsewhere the staging directory is as it was,
and so is the source. -/
structure Overlaid (source staging : Path) (t : FileTree Content) (done : List Path)
    (t' : FileTree Content) : Prop where
  placed : ∀ x ∈ done, ∀ y, y ≠ [] → y <+: x → t'.get (staging ++ y) = t.get (source ++ y)
  left : ∀ y, y ≠ [] → (∀ x ∈ done, ¬ y <+: x) → t'.get (staging ++ y) = t.get (staging ++ y)
  source : ∀ y, t'.get (source ++ y) = t.get (source ++ y)

theorem Overlaid.start : Overlaid source staging t [] t :=
  ⟨fun x hx => (by cases hx), fun _ _ _ => rfl, fun _ => rfl⟩

theorem Overlaid.mkdirs (ha : Apart source staging) (h : Overlaid source staging t done t')
    (hx : t.get (source ++ x) = some .dir) (hm : t'.mkdirsAt (staging ++ x) = some t'') :
    Overlaid source staging t (x :: done) t'' := by
  have hget : ∀ y, t''.get (staging ++ y) = if y <+: x then some .dir else t'.get (staging ++ y) :=
    fun y => by rw [FileTree.get_mkdirsAt hm]; simp only [Path.under_base_iff]
  refine ⟨fun z hz y hy hyz => ?_, fun y hy hno => ?_, fun y => ?_⟩
  · rw [hget]
    by_cases hyx : y <+: x
    · rw [if_pos hyx]
      by_cases heq : y = x
      · rw [heq, hx]
      · refine (FileTree.get_dir_of_under (Path.under_base_iff.mpr hyx) ?_ (by rw [hx]; simp)).symm
        exact fun e => heq (List.append_cancel_left e)
    · rw [if_neg hyx]
      rcases List.mem_cons.mp hz with rfl | hz
      · exact absurd hyz hyx
      · exact h.placed z hz y hy hyz
  · rw [hget, if_neg (hno x List.mem_cons_self)]
    exact h.left y hy fun z hz => hno z (List.mem_cons_of_mem x hz)
  · have hout : ¬ source ++ y <+: staging ++ x := fun hp =>
      (Path.under_total hp (List.prefix_append staging x)).elim (ha.below y).1 (ha.below y).2
    rw [FileTree.get_mkdirsAt hm, if_neg hout]
    exact h.source y

theorem Overlaid.put (ha : Apart source staging) (h : Overlaid source staging t done t')
    {c : Content} (hd : x.dropLast ∈ done) (hne : x ≠ [])
    (hx : t.get (source ++ x) = some (.file c))
    (hput : t'.putAt (staging ++ x) (.file c) = some t'') :
    Overlaid source staging t (x :: done) t'' := by
  have hget : ∀ y, t''.get (staging ++ y) =
      if y = x then some (.file c) else t'.get (staging ++ y) := fun y => by
    rw [FileTree.get_putAt hput]
    simp only [List.append_cancel_left_eq]
  refine ⟨fun z hz y hy hyz => ?_, fun y hy hno => ?_, fun y => ?_⟩
  · rw [hget]
    by_cases heq : y = x
    · rw [if_pos heq, heq, hx]
    · rw [if_neg heq]
      rcases List.mem_cons.mp hz with rfl | hz
      · refine h.placed _ hd y hy ?_
        rw [← List.dropLast_append_getLast hne] at hyz
        rcases List.prefix_concat_iff.mp hyz with e | hy'
        · rw [List.dropLast_append_getLast hne] at e
          exact absurd e heq
        · exact hy'
      · exact h.placed z hz y hy hyz
  · have heq : y ≠ x := fun e => hno x List.mem_cons_self (e ▸ List.prefix_rfl)
    rw [hget, if_neg heq]
    exact h.left y hy fun z hz => hno z (List.mem_cons_of_mem x hz)
  · have hout : source ++ y ≠ staging ++ x := fun e =>
      (ha.below y).2 (e ▸ List.prefix_append staging x)
    rw [FileTree.get_putAt hput, if_neg hout]
    exact h.source y

/-- A directory on the way to a placed entry need not be counted. -/
theorem Overlaid.forget {z : Path} (h : Overlaid source staging t (x :: z :: done) t')
    (hz : z <+: x) : Overlaid source staging t (x :: done) t' := by
  refine ⟨fun y hy => h.placed y ?_, fun y hy hno => h.left y hy fun v hv => ?_, h.source⟩
  · rcases List.mem_cons.mp hy with rfl | hy
    · exact List.mem_cons_self
    · exact List.mem_cons_of_mem x (List.mem_cons_of_mem z hy)
  · rcases List.mem_cons.mp hv with rfl | hv
    · exact hno _ List.mem_cons_self
    · rcases List.mem_cons.mp hv with rfl | hv
      · exact fun hp => hno x List.mem_cons_self (hp.trans hz)
      · exact hno v (List.mem_cons_of_mem x hv)

theorem Overlaid.lays (ha : Apart source staging) (hs : t.get source = some .dir)
    (hx : t.get (source ++ x) ≠ none) (h : Overlaid source staging t done t')
    (hl : Lays source staging x t' t'') : Overlaid source staging t (x :: done) t'' := by
  cases hl with
  | dir hd hm => exact h.mkdirs ha ((h.source x).symm.trans hd) hm
  | file hm hget hput =>
      rename_i t₁ c
      have hne : x ≠ [] := fun e => by
        have hsame : t₁.get source = some .dir := FileTree.isDir_iff.mp
          (FileTree.isDir_mkdirsAt hm (FileTree.isDir_iff.mpr
            ((List.append_nil source ▸ h.source []).trans hs)))
        rw [e, List.append_nil, hsame] at hget
        cases hget
      have hparent : t.get (source ++ x.dropLast) = some .dir := by
        refine FileTree.get_dir_of_under (Path.under_base_iff.mpr (List.dropLast_prefix x)) ?_ hx
        intro e
        have hlen := congrArg List.length (List.append_cancel_left e)
        rw [List.length_dropLast] at hlen
        have := List.length_pos_iff.mpr hne
        omega
      rw [List.dropLast_append_of_ne_nil hne] at hm
      have h₁ := h.mkdirs ha hparent hm
      exact (h₁.put ha List.mem_cons_self hne ((h₁.source x).symm.trans hget) hput).forget
        (List.dropLast_prefix x)

/-- A copy that went well: the source lies over what was left. -/
theorem copySource_overlays (ha : Apart source staging) (hs : w.fs.get source = some .dir) :
    wp answer A Anywhere (copySource r source staging).run
      (fun res _ w' => res = .ok () → ∀ x, x ≠ [] →
        w'.fs.get (staging ++ x) =
          (w.fs.get (source ++ x)).or (w.fs.get (staging ++ x))) () w := by
  refine wp_conseq (copySource_induct (I := Overlaid source staging w.fs)
    (fun x done t t' hx h => h.lays ha hs hx) .start) ?_
  intro res _ w' hres hok x hx
  obtain ⟨_, done, hdone, h⟩ := hres hok
  cases hget : w.fs.get (source ++ x) with
  | some e =>
      rw [h.placed x ((hdone x).mpr ⟨hx, by rw [hget]; simp⟩) x hx List.prefix_rfl, hget]
      rfl
  | none =>
      rw [h.left x hx fun y hy => ?_]
      · rfl
      · rintro ⟨z, rfl⟩
        have hthere := ((hdone _).mp hy).2
        rw [← List.append_assoc] at hthere
        exact FileTree.get_ne_none_of_append hthere hget

/-! ## From the removal on -/

/-- `install` after the `remove_all` of the staging directory. -/
def afterClearing (o : InstallOptions) (r : String) (source : Path) : Step Unit := do
  orFail (file (.createDirectories (o.stagingDirectory r)))
    (.cannotCreateStaging (o.stagingDirectory r))
  discarding (o.stagingDirectory r) do
    copySource r source (o.stagingDirectory r)
    publishStaging o (o.stagingDirectory r) r

theorem afterClearing_spec (hr : ValidId r) (ha : Apart source (o.stagingDirectory r))
    (hs : w.fs.get source = some .dir) :
    wp answer A Anywhere (afterClearing o r source).run
      (fun res _ w' => res = .ok () → w'.fs.isDir (o.releaseDirectory r) = true ∧
        ∀ x, x ≠ [] → w'.fs.get (o.releaseDirectory r ++ x) =
          (w.fs.get (source ++ x)).or (w.fs.get (o.stagingDirectory r ++ x))) () w := by
  refine wp_seq.mpr (wp_orFail.mpr (wp_file.mpr ⟨trivial, fun c _ => ?_⟩))
  cases hmk : (answer c (.file (.createDirectories (o.stagingDirectory r))) w).1 with
  | error e => exact fun h => by cases h
  | ok _ =>
      have hm := createDirectories_ok hmk
      revert hm
      generalize (answer c (.file (.createDirectories (o.stagingDirectory r))) w).2 = w₁
      intro hm
      have hsource : ∀ x, w₁.fs.get (source ++ x) = w.fs.get (source ++ x) := fun x => by
        rw [FileTree.get_mkdirsAt hm, if_neg (ha.below x).1]
      have hleft : ∀ x, x ≠ [] → w₁.fs.get (o.stagingDirectory r ++ x) =
          w.fs.get (o.stagingDirectory r ++ x) := fun x hx => by
        have hlong : ¬ o.stagingDirectory r ++ x <+: o.stagingDirectory r := fun h => by
          have hlen := h.length_le
          rw [List.length_append] at hlen
          exact hx (List.length_eq_zero_iff.mp (by omega))
        rw [FileTree.get_mkdirsAt hm, if_neg hlong]
      have hdir : w₁.fs.isDir (o.stagingDirectory r) = true := by
        rw [FileTree.isDir_iff, FileTree.get_mkdirsAt hm, if_pos List.prefix_rfl]
      have hs₁ : w₁.fs.get source = some .dir := by
        have h := hsource []
        rw [List.append_nil] at h
        exact h.trans hs
      -- only a part that ended well leaves `discarding` well
      refine wp_seq.mpr (wp_attempt.mpr (wp_conseq (Q := fun res _ w' => res = .ok () →
        w'.fs.isDir (o.releaseDirectory r) = true ∧ ∀ x, x ≠ [] →
          w'.fs.get (o.releaseDirectory r ++ x) =
            (w.fs.get (source ++ x)).or (w.fs.get (o.stagingDirectory r ++ x))) ?_ ?_))
      · refine wp_seq_of (wp_both (copySource_dir hdir)
          (copySource_overlays (r := r) ha hs₁)) ?_ ?_
        · rintro _ _ w₂ ⟨⟨hdir₂, _⟩, hover⟩
          refine wp_conseq (publishStaging_spec (A := A) (w := w₂) hr ready_anywhere hdir₂ .refl
            fun _ => rfl) ?_
          rintro res _ w₃ ⟨_, ⟨rfl, hnew⟩ | ⟨e, rfl, _⟩⟩ h
          · refine ⟨hnew.isDir.trans hdir₂, fun x hx => ?_⟩
            rw [hnew x, hover rfl x hx, hsource, hleft x hx]
          · cases h
        · rintro e _ w₂ _ h
          cases h
      · rintro (e | _) _ w₂ h
        · cases e with
          | threw why => exact fun h => by cases h
          | _ => exact ⟨trivial, fun _ _ h => by cases h⟩
        · exact h

/-! ## The whole of `install` -/

/-- The release has the entries of the source, and no others. -/
structure Exact (o : InstallOptions) (r : String) (source : Path) (w w' : World) : Prop where
  dir : w'.fs.isDir (o.releaseDirectory r) = true
  entries : ∀ x, x ≠ [] → w'.fs.get (o.releaseDirectory r ++ x) = w.fs.get (source ++ x)

/-- Where all that an earlier copy left can be deleted, every success is
exact. -/
theorem install_exact (ha : Apart source (o.stagingDirectory r)) (hdel : Deletable o r A) :
    wp answer A Anywhere (install o r source).run
      (fun res _ w' => res = .ok () → Exact o r source w w') () w := by
  unfold install
  refine wp_require_seq.mpr ?_
  split
  case isFalse => exact fun h => by cases h
  refine wp_seq.mpr (wp_conclude.mpr ?_)
  cases hv : validateReleaseId r with
  | error e => exact fun h => by cases h
  | ok _ =>
      refine wp_seq.mpr (wp_file.mpr ⟨trivial, fun c _ => ?_⟩)
      refine wp_require_seq.mpr ?_
      split
      case isFalse => exact fun h => by cases h
      rename_i hthere
      have hs : w.fs.get source = some .dir := FileTree.isDir_iff.mp (isDir_of_answer hthere)
      refine wp_seq.mpr (wp_file.mpr ⟨trivial, fun c₂ hc₂ => ?_⟩)
      have hempty := hdel _ _ hc₂
      have hgone : ∀ x, (answer c₂ (.file (.removeAll (o.stagingDirectory r)))
          (answer c (.file (.isDirectory source)) w).2).2.fs.get
            (o.stagingDirectory r ++ x) = none := fun x =>
        FileOp.removeAll_gone (List.prefix_append _ x) hempty
      have hsource : ∀ x, (answer c₂ (.file (.removeAll (o.stagingDirectory r)))
          (answer c (.file (.isDirectory source)) w).2).2.fs.get (source ++ x) =
            w.fs.get (source ++ x) := fun x => file_frame (f := .removeAll _) (ha.below x).2
      revert hgone hsource
      generalize (answer c₂ (.file (.removeAll (o.stagingDirectory r)))
        (answer c (.file (.isDirectory source)) w).2).2 = w₂
      intro hgone hsource
      have hs₂ : w₂.fs.get source = some .dir := by
        have h := hsource []
        rw [List.append_nil] at h
        exact h.trans hs
      refine wp_conseq (afterClearing_spec (A := A) (validId_of_validate hv) ha hs₂) ?_
      intro res _ w' hlaid hok
      obtain ⟨hdir, hentries⟩ := hlaid hok
      exact ⟨hdir, fun x hx => by rw [hentries x hx, hgone, hsource, Option.or_none]⟩

/-- The `remove_all` of the staging directory left nothing there that the
source does not have. -/
def NothingForeign (o : InstallOptions) (r : String) (source : Path) (w : World) (c : Choice) :
    Prop :=
  ∀ x, x ≠ [] →
    (FileOp.answer c.chance (.removeAll (o.stagingDirectory r)) w.fs).2.get
      (o.stagingDirectory r ++ x) ≠ none → w.fs.get (source ++ x) ≠ none

theorem or_eq_left_iff {α : Type} {a b : Option α} : a.or b = a ↔ (b ≠ none → a ≠ none) := by
  cases a <;> simp

section Run

variable {α β : Type} {c : Choice} {cs : List Choice} {e : InstallError}

theorem run_require_seq {b : Bool} {k : Unit → Step α} :
    (require b e >>= k).run.run answer cs () w =
      if b then (k ()).run.run answer cs () w else (.done (.error e) (), w) := by
  cases b <;> rfl

theorem run_conclude_seq {res : Except InstallError β} {k : β → Step α} :
    (conclude res >>= k).run.run answer cs () w =
      match res with
      | .ok b => (k b).run.run answer cs () w
      | .error e => (.done (.error e) (), w) := by
  cases res <;> rfl

theorem run_file_seq {f : FileOp Content} {k : FileOp.Res f → Step α} :
    (file f >>= k).run.run answer (c :: cs) () w =
      (k (answer c (.file f) w).1).run.run answer cs () (answer c (.file f) w).2 := rfl

end Run

/-- A run of `install` that ended well went through its checks, the first two
calls and the rest. -/
theorem install_run {cs : List Choice}
    (h : (install o r source).run.run answer cs () w = (.done (.ok ()) (), w')) :
    ∃ c₁ c₂ cs₀, cs = c₁ :: c₂ :: cs₀ ∧ ValidId r ∧ w.fs.isDir source = true ∧
      (afterClearing o r source).run.run answer cs₀ ()
        (answer c₂ (.file (.removeAll (o.stagingDirectory r)))
          (answer c₁ (.file (.isDirectory source)) w).2).2 = (.done (.ok ()) (), w') := by
  unfold install at h
  rw [run_require_seq] at h
  split at h
  case isFalse => cases h
  rw [run_conclude_seq] at h
  cases hv : validateReleaseId r with
  | error e =>
      rw [hv] at h
      cases h
  | ok _ =>
      rw [hv] at h
      match cs, h with
      | [], h => cases h
      | c₁ :: cs, h =>
          dsimp only at h
          rw [run_file_seq, run_require_seq] at h
          split at h
          case isFalse => cases h
          rename_i hdir
          match cs, h with
          | [], h => cases h
          | c₂ :: cs, h =>
              rw [run_file_seq] at h
              exact ⟨c₁, c₂, cs, rfl, validId_of_validate hv, isDir_of_answer hdir, h⟩

/-- The second call of an `install` is the `remove_all`: after a success the
release is exactly the source exactly if that call left nothing foreign. -/
theorem install_exact_iff {cs : List Choice} (ha : Apart source (o.stagingDirectory r))
    (h : (install o r source).run.run answer cs () w = (.done (.ok ()) (), w')) :
    Exact o r source w w' ↔ NothingForeign o r source w (cs.getD 1 {}) := by
  obtain ⟨c₁, c₂, cs₀, rfl, hr, hdir, hrest⟩ := install_run h
  have hs : w.fs.get source = some .dir := FileTree.isDir_iff.mp hdir
  have hsource : ∀ x, (FileOp.answer c₂.chance (.removeAll (o.stagingDirectory r)) w.fs).2.get
      (source ++ x) = w.fs.get (source ++ x) := fun x =>
    FileOp.answer_frame _ _ _ (ha.below x).2
  have hlaid := wp_done (exec_freely answer _ _ _ _ (congrArg Prod.fst hrest))
    (afterClearing_spec hr ha (by
      have h := hsource []
      rw [List.append_nil] at h
      exact h.trans hs)) rfl
  rw [hrest] at hlaid
  obtain ⟨hrel, hentries⟩ := hlaid
  have hover : ∀ x, x ≠ [] → w'.fs.get (o.releaseDirectory r ++ x) =
      (w.fs.get (source ++ x)).or
        ((FileOp.answer c₂.chance (.removeAll (o.stagingDirectory r)) w.fs).2.get
          (o.stagingDirectory r ++ x)) := fun x hx => by
    rw [← hsource x]
    exact hentries x hx
  constructor
  · intro hexact x hx
    exact or_eq_left_iff.mp ((hover x hx).symm.trans (hexact.entries x hx))
  · intro hclean
    exact ⟨hrel, fun x hx => (hover x hx).trans (or_eq_left_iff.mpr (hclean x hx))⟩

namespace Sample

/-- An interrupted install of `r2` has left a file that its source no longer
has. -/
def interrupted : World :=
  .idle (.ofFiles
    [(["srv", "releases", ".staging-r2", "old"], .text "zero"), (["src", "app"], .text "two")])
    "boot"

/-- The `remove_all` fails and leaves the file. -/
def stuck : List Choice :=
  {} :: { chance := { fault := some "Input/output error"
                      survivors := [["srv", "releases", ".staging-r2", "old"]] } } ::
    List.replicate 10 {}

end Sample

theorem apart_sample : Apart ["src"] (Sample.options.stagingDirectory "r2") := by
  constructor <;> decide

theorem install_exact_iff_stuck :
    ∃ w', (install Sample.options "r2" ["src"]).run.run answer Sample.stuck () Sample.interrupted =
        (.done (.ok ()) (), w') ∧
      (Exact Sample.options "r2" ["src"] Sample.interrupted w' ↔
        NothingForeign Sample.options "r2" ["src"] Sample.interrupted (Sample.stuck.getD 1 {})) :=
  ⟨_, rfl, install_exact_iff apart_sample rfl⟩

/-- The install succeeds, and the release has a file that the source never
had. -/
theorem leftover_is_published :
    ∃ w', (install Sample.options "r2" ["src"]).run.run answer Sample.stuck () Sample.interrupted =
        (.done (.ok ()) (), w') ∧
      w'.fs.get ["srv", "releases", "r2", "old"] = some (.file (.text "zero")) ∧
      ¬ Exact Sample.options "r2" ["src"] Sample.interrupted w' := by
  refine ⟨_, rfl, rfl, fun h => ?_⟩
  have hold := h.entries ["old"] (by simp)
  cases hold

end Install

end Yirang
