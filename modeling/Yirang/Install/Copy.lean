/-
# `Yirang.Install.Copy` — the copy in the staging directory

`install` empties the staging directory, walks the source once, and places
what it found entry by entry.  If all of it went well the files in the
staging directory are the files of the source.

The source may be any directory, also one that holds the staging directory
itself: what lies in there is gone when the source is walked, and does not
count as source.
-/
import Yirang.Install.Frame

namespace Yirang

open Fs Effect Device

namespace Install

variable {o : InstallOptions} {A : World → Op → Choice → Prop} {B : Unit → World → Op → Prop}
  {w : World} {r : String} {source staging : Path}

/-! ## The tree that is walked -/

/-- The staging directory of the tree is there, and empty. -/
structure Emptied (staging : Path) (t : FileTree Content) : Prop where
  dir : t.isDir staging = true
  empty : ∀ x, x ≠ [] → t.get (staging ++ x) = none

/-- Some of the tree `t` was placed: the files in the staging directory are
the files of the source at `done`, and beside it nothing has changed. -/
structure Placed (source staging : Path) (t : FileTree Content) (done : List Path)
    (t' : FileTree Content) : Prop where
  dir : t'.isDir staging = true
  files : ∀ x c, t'.get (staging ++ x) = some (.file c) ↔
    x ∈ done ∧ t.get (source ++ x) = some (.file c)
  beside : ∀ q, ¬ q <+: staging → ¬ staging <+: q → t'.get q = t.get q

variable {t t' t'' : FileTree Content} {done : List Path} {x : Path}

theorem Emptied.placed (h : Emptied staging t) : Placed source staging t [] t := by
  refine ⟨h.dir, fun x c => ⟨fun hx => ?_, fun hx => by cases hx.1⟩, fun _ _ _ => rfl⟩
  by_cases hne : x = []
  · rw [hne, List.append_nil, FileTree.isDir_iff.mp h.dir] at hx
    cases hx
  · rw [h.empty x hne] at hx
    cases hx

/-- What was found in the source is still there. -/
theorem Placed.source_iff (h : Placed source staging t done t') (he : Emptied staging t)
    (hx : t.get (source ++ x) ≠ none) (e : Entry Content) :
    t'.get (source ++ x) = some e ↔ t.get (source ++ x) = some e := by
  by_cases hup : source ++ x <+: staging
  · have both : ∀ {u : FileTree Content}, u.isDir staging = true →
        u.get (source ++ x) = some .dir := fun hu => by
      by_cases heq : source ++ x = staging
      · rw [heq]
        exact FileTree.isDir_iff.mp hu
      · exact FileTree.get_dir_of_under hup heq (by rw [FileTree.isDir_iff.mp hu]; simp)
    rw [both h.dir, both he.dir]
  · by_cases hdown : staging <+: source ++ x
    · obtain ⟨y, hy⟩ := hdown
      have hne : y ≠ [] := fun e => hup (by rw [← hy, e, List.append_nil])
      rw [← hy] at hx
      exact absurd (he.empty y hne) hx
    · rw [h.beside _ hup hdown]

theorem beside_of_under {q : Path} (hup : ¬ q <+: staging) (hdown : ¬ staging <+: q) (x : Path) :
    ¬ q <+: staging ++ x := fun h =>
  (Path.under_total h (List.prefix_append staging x)).elim hup hdown

/-- More directories in the staging directory. -/
theorem Placed.mkdirs (h : Placed source staging t done t') {p : Path} (hp : p <+: staging ++ x)
    (hm : t'.mkdirsAt p = some t'') : Placed source staging t done t'' := by
  refine ⟨FileTree.isDir_mkdirsAt hm h.dir, fun y c => ?_, fun q hup hdown => ?_⟩
  · rw [FileTree.file_mkdirsAt hm, h.files]
  · rw [FileTree.get_mkdirsAt hm, if_neg fun hq => beside_of_under hup hdown x (hq.trans hp)]
    exact h.beside q hup hdown

/-- A directory of the source counts as placed. -/
theorem Placed.visit (h : Placed source staging t done t') (hx : t.get (source ++ x) = some .dir) :
    Placed source staging t (x :: done) t' := by
  refine ⟨h.dir, fun y c => (h.files y c).trans ?_, h.beside⟩
  refine and_congr_left fun hy => ⟨List.mem_cons_of_mem x, fun hmem => ?_⟩
  refine (List.mem_cons.mp hmem).resolve_left fun e => ?_
  rw [e, hx] at hy
  cases hy

/-- A file of the source is placed. -/
theorem Placed.put (h : Placed source staging t done t') {c : Content}
    (hx : t.get (source ++ x) = some (.file c))
    (hput : t'.putAt (staging ++ x) (.file c) = some t'') :
    Placed source staging t (x :: done) t'' := by
  refine ⟨FileTree.isDir_putAt hput h.dir, fun y d => ?_, fun q hup hdown => ?_⟩
  · rw [FileTree.get_putAt hput, List.mem_cons]
    by_cases hy : y = x
    · rw [hy, if_pos rfl, hx]
      simp
    · rw [if_neg fun e => hy (List.append_cancel_left e), h.files]
      simp [hy]
  · have hne : q ≠ staging ++ x := fun e => hdown (e ▸ List.prefix_append staging x)
    rw [FileTree.get_putAt hput, if_neg hne]
    exact h.beside q hup hdown

/-! ## The loop -/

/-- What the placing of one entry does when it goes well. -/
inductive Lays (source staging x : Path) (t t' : FileTree Content) : Prop
  | dir : t.get (source ++ x) = some .dir → t.mkdirsAt (staging ++ x) = some t' →
      Lays source staging x t t'
  | file {t₁ : FileTree Content} {c : Content} :
      t.mkdirsAt (staging ++ x).dropLast = some t₁ → t₁.get (source ++ x) = some (.file c) →
      t₁.putAt (staging ++ x) (.file c) = some t' → Lays source staging x t t'

theorem place_lays :
    wp answer A Anywhere (place source staging x).run
      (fun res _ w' => ∀ n, res = .ok n → Lays source staging x w.fs w'.fs) () w := by
  have failed : ∀ {e : InstallError} {w' : World} (n : UInt32),
      (.error e : Except InstallError UInt32) = .ok n →
        Lays source staging x w.fs w'.fs := fun n hn => by cases hn
  unfold place
  refine wp_seq.mpr (wp_orFail.mpr (wp_file.mpr ⟨trivial, fun c _ => ?_⟩))
  have hfs : (answer c (.file (.relative (source ++ x) source)) w).2.fs = w.fs := by
    simp only [answer_fs, perform, FileOp.answer]
    split <;> rfl
  cases hrel : (answer c (.file (.relative (source ++ x) source)) w).1 with
  | error e => exact failed
  | ok relative =>
      obtain rfl : relative = x := by
        simp only [answer_fst, perform, FileOp.answer] at hrel
        split at hrel
        · cases hrel
        · simpa using (Except.ok.inj hrel).symm
      revert hfs
      generalize (answer c (.file (.relative (source ++ relative) source)) w).2 = w₁
      intro hfs
      refine wp_require_seq.mpr ?_
      split
      case isFalse => exact failed
      refine wp_seq.mpr (wp_file.mpr ⟨trivial, fun c₂ _ => ?_⟩)
      have hfs₂ : (answer c₂ (.file (.isDirectory (source ++ relative))) w₁).2.fs = w.fs := hfs
      cases hdir : (answer c₂ (.file (.isDirectory (source ++ relative))) w₁).1 with
      | true =>
          have hd : w.fs.get (source ++ relative) = some .dir := by
            simp only [answer_fst, perform, FileOp.answer, Bool.and_eq_true] at hdir
            rw [← hfs]
            exact FileTree.isDir_iff.mp hdir.2
          revert hfs₂
          generalize (answer c₂ (.file (.isDirectory (source ++ relative))) w₁).2 = w₂
          intro hfs₂
          refine wp_seq.mpr (wp_orFail.mpr (wp_file.mpr ⟨trivial, fun c₃ _ => ?_⟩))
          cases hmk : (answer c₃ (.file (.createDirectories (staging ++ relative))) w₂).1 with
          | error e => exact failed
          | ok _ =>
              have hm := createDirectories_ok hmk
              rw [hfs₂] at hm
              exact fun n _ => .dir hd hm
      | false =>
          revert hfs₂
          generalize (answer c₂ (.file (.isDirectory (source ++ relative))) w₁).2 = w₂
          intro hfs₂
          refine wp_seq.mpr (wp_orFail.mpr (wp_file.mpr ⟨trivial, fun c₃ _ => ?_⟩))
          cases hmk : (answer c₃ (.file (.createDirectories
              (staging ++ relative).dropLast)) w₂).1 with
          | error e => exact failed
          | ok _ =>
              have hm := createDirectories_ok hmk
              rw [hfs₂] at hm
              revert hm
              generalize (answer c₃ (.file (.createDirectories
                (staging ++ relative).dropLast)) w₂).2 = w₃
              intro hm
              refine wp_seq.mpr (wp_orFail.mpr (wp_file.mpr ⟨trivial, fun c₄ _ => ?_⟩))
              cases hcp : (answer c₄ (.file (.copyFile (source ++ relative)
                  (staging ++ relative))) w₃).1 with
              | error e => exact failed
              | ok _ =>
                  obtain ⟨content, hget, hput⟩ := copyFile_ok hcp
                  exact fun n _ => .file hm hget hput

section Induction

variable {I : List Path → FileTree Content → Prop}

/-- What every placing preserves, the loop preserves. -/
theorem placeAll_induct {entries : List Path}
    (hstep : ∀ x ∈ entries, ∀ done t t', I done t → Lays source staging x t t' → I (x :: done) t')
    (copied : UInt32) (h : I done w.fs) :
    wp answer A Anywhere (placeAll source staging entries copied).run
      (fun res _ w' => ∀ n, res = .ok n → I (entries.reverse ++ done) w'.fs) () w := by
  induction entries generalizing w done copied with
  | nil => exact fun n _ => h
  | cons x rest ih =>
      refine wp_seq_of place_lays ?_ ?_
      · intro n _ w₁ h₁
        refine wp_conseq (ih (fun y hy => hstep y (List.mem_cons_of_mem x hy)) _
          (hstep x List.mem_cons_self _ _ _ h (h₁ n rfl))) ?_
        intro res _ w' hres n' hn'
        simpa using hres n' hn'
      · intro e _ w' _ n hn
        cases hn

/-- A copy that went well has placed all that the walk found at its start. -/
theorem copySource_induct
    (hstep : ∀ x done t t', w.fs.get (source ++ x) ≠ none → I done t →
      Lays source staging x t t' → I (x :: done) t') (h : I [] w.fs) :
    wp answer A Anywhere (copySource r source staging).run
      (fun res _ w' => res = .ok () → w.fs.get source = some .dir ∧
        ∃ done, (∀ x, x ∈ done ↔ x ≠ [] ∧ w.fs.get (source ++ x) ≠ none) ∧ I done w'.fs) () w := by
  unfold copySource
  refine wp_seq.mpr (wp_orFail.mpr (wp_file.mpr ⟨trivial, fun c _ => ?_⟩))
  have hfs : (answer c (.file (.walk source)) w).2.fs = w.fs := by
    simp only [answer_fs, perform, FileOp.answer]
    split <;> rfl
  cases hwalk : (answer c (.file (.walk source)) w).1 with
  | error e => exact fun h => by cases h
  | ok entries =>
      obtain ⟨hdir, hentries⟩ := walked hwalk
      have hfound : ∀ x ∈ entries.items, w.fs.get (source ++ x) ≠ none := fun x hx => by
        rw [hentries] at hx
        exact (FileTree.mem_below.mp (mem_arrange.mp (Chance.mem_listing hx))).2
      rw [← hfs] at h
      refine wp_seq_of (placeAll_induct (fun x hx done t t' => hstep x done t t' (hfound x hx))
        0 h) ?_ ?_
      · intro n _ w₁ h₁
        cases hb : entries.broken with
        | some why => exact fun h => by cases h
        | none =>
            refine wp_require.mpr ?_
            split
            · refine fun _ => ⟨FileTree.isDir_iff.mp hdir, _, fun x => ?_, h₁ n rfl⟩
              rw [List.append_nil, List.mem_reverse, hentries,
                Chance.listing_whole (by rw [← hentries]; exact hb), mem_arrange]
              exact FileTree.mem_below
            · exact fun h => by cases h
      · intro e _ w' _ h
        cases h
where
  walked {c : Choice} {entries : Listing Path}
      (h : (answer c (.file (.walk source)) w).1 = .ok entries) :
      w.fs.isDir source = true ∧
        entries = c.chance.listing (arrange c.chance.paths (w.fs.below source)) := by
    simp only [answer_fst, perform, FileOp.answer] at h
    split at h
    · rename_i hc
      simp only [Bool.and_eq_true] at hc
      cases h
      exact ⟨hc.1, rfl⟩
    · cases h

end Induction

/-- One entry more is placed. -/
theorem Placed.lays (h : Placed source staging t done t') (he : Emptied staging t)
    (hx : t.get (source ++ x) ≠ none) (hl : Lays source staging x t' t'') :
    Placed source staging t (x :: done) t'' := by
  cases hl with
  | dir hd hm => exact (h.mkdirs List.prefix_rfl hm).visit ((h.source_iff he hx .dir).mp hd)
  | file hm hget hput =>
      have h₁ := h.mkdirs (List.dropLast_prefix _) hm
      exact h₁.put ((h₁.source_iff he hx _).mp hget) hput

/-- The files in the staging directory are those of the source. -/
structure Filled (source staging : Path) (t t' : FileTree Content) : Prop where
  dir : t'.isDir staging = true
  files : ∀ x c, t'.get (staging ++ x) = some (.file c) ↔ t.get (source ++ x) = some (.file c)

theorem copySource_spec (he : Emptied staging w.fs) :
    wp answer A Anywhere (copySource r source staging).run
      (fun res _ w' => res = .ok () → Filled source staging w.fs w'.fs) () w := by
  refine wp_conseq (copySource_induct (I := Placed source staging w.fs)
    (fun x done t t' hx h => h.lays he hx) he.placed) ?_
  intro res _ w' hres hok
  obtain ⟨hdir, done, hdone, hplaced⟩ := hres hok
  refine ⟨hplaced.dir, fun x c => (hplaced.files x c).trans (and_iff_right_of_imp fun hx => ?_)⟩
  refine (hdone x).mpr ⟨fun e => ?_, by rw [hx]; simp⟩
  rw [e, List.append_nil, hdir] at hx
  cases hx

/-- With or without leftovers, the staging directory itself stays. -/
theorem copySource_dir (h : w.fs.isDir (o.stagingDirectory r) = true) :
    wp answer A Anywhere (copySource r source (o.stagingDirectory r)).run
      (fun res _ w' => w'.fs.isDir (o.stagingDirectory r) = true ∧
        (Emptied (o.stagingDirectory r) w.fs → res = .ok () →
          Filled source (o.stagingDirectory r) w.fs w'.fs)) () w := by
  have hdir : wp answer A Anywhere (copySource r source (o.stagingDirectory r)).run
      (fun _ _ w' => w'.fs.isDir (o.stagingDirectory r) = true) () w :=
    wp_of_uses (R := fun w : World => w.fs.isDir (o.stagingDirectory r) = true)
      (fun _ _ _ ho _ h => builds_dir ho.2 h) (fun _ _ _ _ _ => trivial)
      (copySource_copies source) h
  by_cases he : Emptied (o.stagingDirectory r) w.fs
  · exact wp_conseq (wp_both hdir (copySource_spec he)) fun _ _ _ h => ⟨h.1, fun _ => h.2⟩
  · exact wp_conseq hdir fun _ _ _ h => ⟨h, fun he' => absurd he' he⟩

/-! ## From the start of `install` -/

/-- What is left of an earlier copy can be deleted. -/
def Deletable (o : InstallOptions) (r : String) (A : World → Op → Choice → Prop) : Prop :=
  ∀ w c, A w (.file (.removeAll (o.stagingDirectory r))) c →
    c.chance.fault = none ∨ w.fs.get (o.stagingDirectory r) = none

/-- The tree after the staging directory was emptied and made again: beside
it all files are as they were. -/
theorem emptied_of_made (source : Path) {c₁ : Chance} {t₁ t₂ : FileTree Content}
    (h₁ : t₁ = (FileOp.answer c₁ (.removeAll staging) t).2)
    (hdel : c₁.fault = none ∨ t.get staging = none) (h₂ : t₁.mkdirsAt staging = some t₂) :
    Emptied staging t₂ ∧ ∀ x c, t₂.get (source ++ x) = some (.file c) ↔
      t.get (source ++ x) = some (.file c) ∧ ¬ staging <+: source ++ x := by
  subst h₁
  have hgone : ∀ {q}, staging <+: q →
      (FileOp.answer c₁ (.removeAll staging) t).2.get q = none := fun hq =>
    FileOp.removeAll_gone hq hdel
  refine ⟨⟨?_, fun x hx => ?_⟩, fun x c => (FileTree.file_mkdirsAt h₂).trans ?_⟩
  · rw [FileTree.isDir_iff, FileTree.get_mkdirsAt h₂, if_pos List.prefix_rfl]
  · have hlong : ¬ staging ++ x <+: staging := fun h => by
      have hlen := h.length_le
      rw [List.length_append] at hlen
      exact hx (List.length_eq_zero_iff.mp (by omega))
    rw [FileTree.get_mkdirsAt h₂, if_neg hlong]
    exact hgone (List.prefix_append staging x)
  · by_cases hdown : staging <+: source ++ x
    · simp [hgone hdown, hdown]
    · rw [FileOp.answer_frame (o := .removeAll staging) c₁ t hdown]
      simp [hdown]

end Install

end Yirang
