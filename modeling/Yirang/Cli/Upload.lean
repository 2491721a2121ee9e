/-
# `Yirang.Cli.Upload` — what a deploy has done before it asks for anything

A deploy that gets as far as its request has read the digest of every file
of its list and put every file in the store.  While the files stay as they
are, the store then holds under each key of the request what the digest
beside it is of.

    Steady        files that nobody changes, read and sent whole
    Announced     an entry of the manifest, and the file it is of
    Stored        that file is under its key
    Asked         the request, and all this of it
-/
import Yirang.Cli.Apart

namespace Yirang.DeployCli

open Fs Effect Release

variable {ι : Type} [DecidableEq ι] {run : ι} {files : String → Option Content}
  {sha256 : Content → Digest}

/-- The digest of a file is that of what it holds, and that is what is put in
the store. -/
def Steady (files : String → Option Content) (sha256 : Content → Digest) (_ : Site ι) :
    Op → Turn → Prop
  | .fileSha256 path, c =>
      c.fault = none → ∃ x, files path = some x ∧ c.digest = (sha256 x).text
  | .upload _ source, c => files source = some c.content
  | _, _ => True

/-- The entry is of a file, listed with its digest. -/
structure Announced (files : String → Option Content) (sha256 : Content → Digest)
    (e : ArtifactEntry) : Prop where
  path : e.installPath = filename e.sourcePath
  file : Path.namesDirectory e.sourcePath = false
  digest : ∃ x, files e.sourcePath = some x ∧ e.sha256 = (sha256 x).text

def IsPost : Op → Prop
  | .post _ _ => True
  | _ => False

/-- What is asked of a boundary concerns the request alone. -/
def OfPost (B : Unit → Site ι → Op → Prop) : Prop := ∀ w o, ¬ IsPost o → B () w o

variable {B : Unit → Site ι → Op → Prop}

/-! ## The manifest -/

section Manifest

variable {w : Site ι}

theorem entry_spec (hB : OfPost B) {claimed : List String} {source : String} :
    wp (answer run) (Steady files sha256) B (entry claimed source).run
      (fun r _ w' => w' = w ∧ ∀ e, r = .ok e → e.sourcePath = source ∧
        e.installPath ∉ claimed ∧ Announced files sha256 e) () w := by
  refine wp_seq.mpr ⟨hB _ _ id, fun c₁ _ => wp_require_seq.mpr ?_⟩
  split
  · refine wp_seq.mpr ⟨hB _ _ id, fun c₂ _ => wp_require_seq.mpr ?_⟩
    split
    · rename_i hregular
      have hfile : Path.namesDirectory source = false := by
        have hflags : (c₂.flag && !Path.namesDirectory source) = true := hregular
        simpa using (Bool.and_eq_true_iff.mp hflags).2
      refine wp_require_seq.mpr ?_
      split
      · rename_i hnew
        refine wp_seq.mpr ⟨hB _ _ id, fun c₃ h₃ => wp_seq.mpr (wp_conclude.mpr ?_)⟩
        show andThen _ _ _ _ _ (c₃.result c₃.digest) () w
        unfold Turn.result
        cases hf : c₃.fault with
        | some why => exact ⟨rfl, fun _ he => by cases he⟩
        | none =>
            refine wp_seq.mpr ⟨hB _ _ id, fun c₄ _ => wp_seq.mpr (wp_conclude.mpr ?_)⟩
            show andThen _ _ _ _ _ ((c₄.result c₄.size).mapError _) () w
            unfold Turn.result
            cases c₄.fault with
            | some why => exact ⟨rfl, fun _ he => by cases he⟩
            | none =>
                refine ⟨rfl, fun e he => ?_⟩
                cases he
                exact ⟨rfl, by simpa using hnew, rfl, hfile, h₃ hf⟩
      · exact ⟨rfl, fun _ he => by cases he⟩
    · exact ⟨rfl, fun _ he => by cases he⟩
  · exact ⟨rfl, fun _ he => by cases he⟩

/-- The entries are those of the files in order, and no two of them have one
path. -/
structure Entries (files : String → Option Content) (sha256 : Content → Digest)
    (sources claimed : List String) (es : List ArtifactEntry) : Prop where
  sources : es.map ArtifactEntry.sourcePath = sources
  announced : ∀ e ∈ es, Announced files sha256 e
  fresh : ∀ e ∈ es, e.installPath ∉ claimed
  distinct : (es.map ArtifactEntry.installPath).Nodup

theorem entries_spec (hB : OfPost B) :
    ∀ {sources claimed : List String} {w : Site ι},
      wp (answer run) (Steady files sha256) B (entries sources claimed).run
        (fun r _ w' => w' = w ∧ ∀ es, r = .ok es → Entries files sha256 sources claimed es) () w
  | [], _, _ => by
      refine ⟨rfl, fun es hes => ?_⟩
      cases hes
      exact ⟨rfl, fun _ he => (by cases he), fun _ he => (by cases he), List.nodup_nil⟩
  | source :: rest, claimed, w => by
      refine wp_seq_of (entry_spec hB) ?_ ?_
      · rintro first - w₁ ⟨rfl, hfirst⟩
        obtain ⟨hsource, hnew, hann⟩ := hfirst _ rfl
        refine wp_seq_of (entries_spec hB) ?_ ?_
        · rintro others - w₂ ⟨rfl, hothers⟩
          refine ⟨rfl, fun es hes => ?_⟩
          cases hes
          have ho := hothers _ rfl
          refine ⟨by simp [hsource, ho.sources], ?_, ?_, ?_⟩
          · intro e he
            rcases List.mem_cons.mp he with rfl | he
            · exact hann
            · exact ho.announced e he
          · intro e he
            rcases List.mem_cons.mp he with rfl | he
            · exact hnew
            · exact fun hm => ho.fresh e he (List.mem_cons_of_mem _ hm)
          · rw [List.map_cons, List.nodup_cons]
            refine ⟨fun hm => ?_, ho.distinct⟩
            obtain ⟨e, he, hpath⟩ := List.mem_map.mp hm
            exact ho.fresh e he (hpath ▸ List.mem_cons_self)
        · rintro why - w₂ ⟨rfl, -⟩
          exact ⟨rfl, fun _ he => by cases he⟩
      · rintro why - w₁ ⟨rfl, -⟩
        exact ⟨rfl, fun _ he => by cases he⟩

/-- What a manifest says of the files of a list. -/
structure Listed (files : String → Option Content) (sha256 : Content → Digest)
    (sources : List String) (now : Int) (manifest : Manifest) : Prop where
  id : manifest.releaseId = makeReleaseId now
  entries : Entries files sha256 sources [] manifest.artifacts
  some : manifest.artifacts ≠ []

theorem build_spec (hB : OfPost B) {sources : List String} {now : Int} :
    wp (answer run) (Steady files sha256) B (build sources (makeReleaseId now) now).run
      (fun r _ w' => w' = w ∧
        ∀ manifest, r = .ok manifest → Listed files sha256 sources now manifest) () w := by
  refine wp_require_seq.mpr ?_
  split
  · refine wp_require_seq.mpr ?_
    split
    · rename_i hne
      refine wp_seq_of (entries_spec hB) ?_ ?_
      · rintro es - w' ⟨rfl, hes⟩
        refine ⟨rfl, fun manifest hm => ?_⟩
        cases hm
        refine ⟨rfl, hes _ rfl, fun hnil => ?_⟩
        have hsources := (hes _ rfl).sources
        simp only at hnil
        rw [hnil] at hsources
        simp [← hsources] at hne
      · rintro why - w' ⟨rfl, -⟩
        exact ⟨rfl, fun _ he => by cases he⟩
    · exact ⟨rfl, fun _ he => by cases he⟩
  · exact ⟨rfl, fun _ he => by cases he⟩

end Manifest

/-! ## The store -/

/-- The file of the entry is in the store, under the key that it has in the
release. -/
def Stored (files : String → Option Content) (run : ι) (releaseId : String) (w : Site ι)
    (e : ArtifactEntry) : Prop :=
  Artifact.makeObjectKey releaseId e.installPath = .ok (Artifact.objectKey releaseId e.installPath) ∧
    ∃ x, files e.sourcePath = some x ∧
      w.bucket (Artifact.objectKey releaseId e.installPath) = some (run, x)

/-- Entries of two paths have two keys, so no upload undoes an earlier one. -/
theorem uploadAll_spec (hB : OfPost B) {now : Int} :
    ∀ {es : List ArtifactEntry} {w : Site ι}, (es.map ArtifactEntry.installPath).Nodup →
      wp (answer run) (Steady files sha256) B (uploadAll (makeReleaseId now) es).run
        (fun r _ w' => r = .ok () →
          (∀ e ∈ es, Stored files run (makeReleaseId now) w' e) ∧
          ∀ path ∉ es.map ArtifactEntry.installPath,
            w'.bucket (Artifact.objectKey (makeReleaseId now) path) =
              w.bucket (Artifact.objectKey (makeReleaseId now) path)) () w
  | [], w, _ => fun _ => ⟨fun _ he => (by cases he), fun _ _ => rfl⟩
  | e :: rest, w, hnd => by
      rw [List.map_cons, List.nodup_cons] at hnd
      refine wp_seq.mpr (wp_conclude.mpr ?_)
      cases hkey : Artifact.makeObjectKey (makeReleaseId now) e.installPath with
      | error why => exact fun he => by cases he
      | ok key =>
          have hkey' := makeObjectKey_eq hkey
          subst hkey'
          refine wp_seq.mpr ⟨hB _ _ id, fun c hc => wp_seq.mpr (wp_conclude.mpr ?_)⟩
          show andThen _ _ _ _ _ ((c.result ()).mapError _) ()
            (if c.fault.isNone || c.arrived then _ else _)
          unfold Turn.result
          cases hf : c.fault with
          | some why => exact fun he => by cases he
          | none =>
              refine wp_conseq (uploadAll_spec hB hnd.2) fun r _ w' hrest hr => ?_
              obtain ⟨hstored, hothers⟩ := hrest hr
              refine ⟨fun e' he' => ?_, fun path hpath => ?_⟩
              · rcases List.mem_cons.mp he' with rfl | he'
                · exact ⟨hkey, c.content, hc, (hothers _ hnd.1).trans (if_pos rfl)⟩
                · exact hstored e' he'
              · rw [List.map_cons, List.mem_cons, not_or] at hpath
                refine (hothers path hpath.2).trans (if_neg fun he => hpath.1 ?_)
                exact (Artifact.objectKey_injective (slash_not_mem_makeReleaseId now)
                  (slash_not_mem_makeReleaseId now) he).2

/-! ## The request -/

/-- The text is the request for a release of the listed files, all of them in
the store. -/
structure Asked (c : Commands) (files : String → Option Content) (sha256 : Content → Digest)
    (run : ι) (w : Site ι) (body : String) (now : Int) (manifest : Manifest) : Prop where
  body : body = c.codec.serialize (request manifest c.configurations.targetGroup)
  listed : Listed files sha256 c.configurations.uploadFileList now manifest
  stored : ∀ e ∈ manifest.artifacts, Stored files run manifest.releaseId w e

def AtRequest (c : Commands) (files : String → Option Content) (sha256 : Content → Digest)
    (run : ι) (_ : Unit) (w : Site ι) : Op → Prop
  | .post _ body => ∃ now manifest, Asked c files sha256 run w body now manifest
  | _ => True

omit [DecidableEq ι] in
theorem ofPost_atRequest {c : Commands} : OfPost (AtRequest c files sha256 run) := by
  intro w o ho
  cases o with
  | post path body => exact absurd trivial ho
  | _ => trivial

theorem deployAt_asks {c : Commands} {now : Int} {w : Site ι} :
    wp (answer run) (Steady files sha256) (AtRequest c files sha256 run) (deployAt c now).run
      (fun _ _ _ => True) () w := by
  refine wp_seq_of (build_spec ofPost_atRequest) ?_ fun _ _ _ _ => trivial
  rintro manifest - w₁ ⟨rfl, hm⟩
  have hlisted := hm _ rfl
  have huploads : wp (answer run) (Steady files sha256) (AtRequest c files sha256 run)
      (uploadRelease manifest).run (fun r _ w' => r = .ok () →
        ∀ e ∈ manifest.artifacts, Stored files run manifest.releaseId w' e) () w₁ := by
    rw [uploadRelease, hlisted.id]
    refine wp_conseq (uploadAll_spec ofPost_atRequest hlisted.entries.distinct) ?_
    exact fun r _ w' hr hok => (hr hok).1
  refine wp_seq_of huploads ?_ fun _ _ _ _ => trivial
  rintro _ _ w₂ hstored
  refine wp_seq.mpr ⟨⟨now, manifest, rfl, hlisted, hstored rfl⟩, fun c₂ _ =>
    wp_seq.mpr (wp_conclude.mpr ?_)⟩
  generalize (answer run c₂ (.post kDeployments _) w₂).1 = posted
  cases posted with
  | error why => trivial
  | ok response =>
      refine wp_require_seq.mpr ?_
      split
      · exact ⟨trivial, fun _ _ => trivial⟩
      · trivial

/-- A deploy makes its request once everything it asks for is there. -/
theorem deploy_asks {c : Commands} {w : Site ι} :
    wp (answer run) (Steady files sha256) (AtRequest c files sha256 run) (deploy c).run
      (fun _ _ _ => True) () w := by
  refine wp_seq.mpr (wp_conclude.mpr ?_)
  cases c.configurations.validateForDeploy with
  | error why => trivial
  | ok _ =>
      refine wp_require_seq.mpr ?_
      split
      · exact wp_seq.mpr ⟨trivial, fun c₁ _ => deployAt_asks⟩
      · trivial

end Yirang.DeployCli
