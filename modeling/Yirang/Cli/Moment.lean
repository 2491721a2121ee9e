/-
# `Yirang.Cli.Moment` — one deploy, while its files change

A deploy reads the digests of its files in one pass, uploads the files in a
second, and then makes its request.  Nothing keeps the files as they are:
other programs write them before a call, between two and during one.  So
what a call reads of a file is settled by its turn (`Turn.content`), for each
call anew.

    Desk         the store, and what was read of each file, and for what
    artifactsOf  the artifacts of a request, as its text has them
    Told         what is so once the request is made
    kept_iff     when every object has the digest that the request announces
-/
import Yirang.Fleet.Deployment

namespace Yirang.DeployCli

open Fs Effect Release

structure Desk where
  /-- What was read of a file for its digest. -/
  hashed : String → Option Content := fun _ => none
  /-- What was read of it for its upload. -/
  sent : String → Option Content := fun _ => none
  bucket : String → Option Content := fun _ => none
  posted : Option String := none

namespace Desk

variable (w : Desk)

def hash (path : String) (content : Content) : Desk :=
  { w with hashed := fun p => if p = path then some content else w.hashed p }

def put (key source : String) (content : Content) : Desk :=
  { w with
    sent := fun s => if s = source then some content else w.sent s
    bucket := fun k => if k = key then some content else w.bucket k }

end Desk

/-- The calls of a deploy.  A digest is that of what was read. -/
def handle (sha256 : Content → Digest) : Answers workstation Desk Turn
  | c, .now, w => (c.now, w)
  | c, .exists_ _, w => (c.flag, w)
  | c, .isRegularFile path, w => (c.flag && !Path.namesDirectory path, w)
  | c, .fileSha256 path, w =>
      (c.result (sha256 c.content).text, if c.fault.isNone then w.hash path c.content else w)
  | c, .fileSize _, w => (c.result c.size, w)
  | c, .upload key source, w =>
      (c.result (), if c.fault.isNone || c.arrived then w.put key source c.content else w)
  | c, .post _ body, w => (c.result c.response, { w with posted := some body })
  | _, .present _ _, w => ((), w)

/-! ## The request -/

/-- An artifact of a request: its key and its digest. -/
def artifact? (releaseId : String) (item : Json) : Option (String × String) := do
  let fields ← item.object?
  let installPath ← Json.readString fields "install_path"
  let digest ← Json.readString fields "sha256"
  pure (Artifact.objectKey releaseId installPath, digest)

def artifactsOf (reader : Codec) (body : String) : List (String × String) :=
  match reader.parse body with
  | .error _ => []
  | .ok v =>
      match v.object? with
      | none => []
      | some root =>
          match Json.readString root "release_id", Json.readArray root "artifacts" with
          | some releaseId, some items => items.filterMap (artifact? releaseId)
          | _, _ => []

/-- For every artifact of the request, the object under its key has the
digest that is announced. -/
def Kept (reader : Codec) (sha256 : Content → Digest) (w : Desk) : Prop :=
  ∀ body, w.posted = some body → ∀ a ∈ artifactsOf reader body,
    ∃ x, w.bucket a.1 = some x ∧ a.2 = (sha256 x).text

/-- What was sent of a file is what its digest was read from. -/
def Unchanged (w : Desk) : Prop :=
  ∀ source x y, w.hashed source = some x → w.sent source = some y → x = y

/-- No two contents of one file have one digest. -/
def Separated (sha256 : Content → Digest) (w : Desk) : Prop :=
  ∀ source x y, w.hashed source = some x → w.sent source = some y → sha256 x = sha256 y → x = y

theorem artifacts_of_carries {reader : Codec} {body r : String} {artifacts : List Api.Artifact}
    {v : Json} (hparse : reader.parse body = .ok v) (h : Agent.Carries r artifacts v) :
    artifactsOf reader body =
      artifacts.map fun a => (Artifact.objectKey r a.installPath, a.sha256) := by
  obtain ⟨fields, items, rfl, hid, harts, hitems⟩ := h
  have hread : Json.readString fields "release_id" = some r := by
    rw [Json.readString, hid]
    rfl
  have hlist : Json.readArray fields "artifacts" = some items := by
    rw [Json.readArray, harts]
    rfl
  have hmap : items.filterMap (artifact? r) =
      artifacts.map fun a => (Artifact.objectKey r a.installPath, a.sha256) := by
    clear harts hlist
    induction hitems with
    | nil => rfl
    | cons hone _ ih =>
        obtain ⟨entry, rfl, hpath, hdigest⟩ := hone
        rw [List.map_cons, ← ih, List.filterMap_cons]
        simp only [artifact?, Json.object?, Json.readString, hpath, hdigest, Option.bind_some,
          Json.string?, Option.bind_eq_bind, Option.pure_def]
  rw [artifactsOf, hparse]
  simp only [Json.object?, hread, hlist, hmap]

/-- The artifacts of a request are those of the manifest. -/
theorem artifactsOf_request {reader writer : Codec} {manifest : Manifest} {group : String}
    (h : reader.Understands writer (writer.serialize (request manifest group))) :
    artifactsOf reader (writer.serialize (request manifest group)) =
      manifest.artifacts.map fun e =>
        (Artifact.objectKey manifest.releaseId e.installPath, e.sha256) := by
  obtain ⟨v, hparse, hsame⟩ := h _ rfl
  have hcarries : Agent.Carries manifest.releaseId
      (Fleet.deployRequest manifest group).artifacts (request manifest group) := by
    rw [Fleet.request_eq]
    refine ⟨_, _, rfl, rfl, rfl, ?_⟩
    rw [List.forall₂_map_right_iff, List.forall₂_same]
    exact fun a _ => ⟨_, rfl, rfl, rfl⟩
  rw [artifacts_of_carries hparse (Agent.carries_of_same hcarries hsame), Fleet.deployRequest,
    List.map_map]
  rfl

/-! ## The manifest -/

variable {sha256 : Content → Digest} {B : Unit → Desk → Op → Prop}

/-- Before the request nothing is asked of a boundary. -/
def Silent (B : Unit → Desk → Op → Prop) : Prop := ∀ w o, w.posted = none → B () w o

/-- Every choice is open to the other programs. -/
def Freely (_ : Desk) (_ : Op) (_ : Turn) : Prop := True

/-- The digest of the entry is that of what was read of its file. -/
def Hashed (sha256 : Content → Digest) (w : Desk) (e : ArtifactEntry) : Prop :=
  ∃ x, w.hashed e.sourcePath = some x ∧ e.sha256 = (sha256 x).text

/-- What one turn of the loop of `build` does. -/
structure Entered (sha256 : Content → Digest) (claimed : List String) (source : String)
    (w w' : Desk) (e : ArtifactEntry) : Prop where
  file : e.sourcePath = source
  path : e.installPath = filename source
  fresh : e.installPath ∉ claimed
  hashed : Hashed sha256 w' e
  others : ∀ s, s ≠ source → w'.hashed s = w.hashed s

theorem entry_hashes (hB : Silent B) {claimed : List String} {source : String} {w : Desk}
    (hw : w.posted = none) :
    wp (handle sha256) Freely B (entry claimed source).run
      (fun r _ w' => w'.posted = none ∧ ∀ e, r = .ok e → Entered sha256 claimed source w w' e)
      () w := by
  refine wp_seq.mpr ⟨hB _ _ hw, fun c₁ _ => wp_require_seq.mpr ?_⟩
  split
  · refine wp_seq.mpr ⟨hB _ _ hw, fun c₂ _ => wp_require_seq.mpr ?_⟩
    split
    · refine wp_require_seq.mpr ?_
      split
      · rename_i hnew
        refine wp_seq.mpr ⟨hB _ _ hw, fun c₃ _ => wp_seq.mpr (wp_conclude.mpr ?_)⟩
        show andThen _ _ _ _ _ (c₃.result (sha256 c₃.content).text) ()
          (if c₃.fault.isNone then w.hash source c₃.content else w)
        unfold Turn.result
        cases c₃.fault with
        | some why => exact ⟨hw, fun _ he => by cases he⟩
        | none =>
            refine wp_seq.mpr ⟨hB _ _ hw, fun c₄ _ => wp_seq.mpr (wp_conclude.mpr ?_)⟩
            show andThen _ _ _ _ _ ((c₄.result c₄.size).mapError _) ()
              (w.hash source c₃.content)
            unfold Turn.result
            cases c₄.fault with
            | some why => exact ⟨hw, fun _ he => by cases he⟩
            | none =>
                refine ⟨hw, fun e he => ?_⟩
                cases he
                refine ⟨rfl, rfl, by simpa using hnew, ⟨c₃.content, if_pos rfl, rfl⟩, ?_⟩
                exact fun s hs => if_neg hs
      · exact ⟨hw, fun _ he => by cases he⟩
    · exact ⟨hw, fun _ he => by cases he⟩
  · exact ⟨hw, fun _ he => by cases he⟩

/-- The entries of a list of files. -/
structure Compiled (sha256 : Content → Digest) (claimed sources : List String) (w w' : Desk)
    (es : List ArtifactEntry) : Prop where
  files : es.map ArtifactEntry.sourcePath = sources
  path : ∀ e ∈ es, e.installPath = filename e.sourcePath
  fresh : ∀ e ∈ es, e.installPath ∉ claimed
  distinct : (es.map ArtifactEntry.installPath).Nodup
  hashed : ∀ e ∈ es, Hashed sha256 w' e
  others : ∀ s, s ∉ sources → w'.hashed s = w.hashed s

/-- One file more: no later digest is read of it, since its name is taken. -/
theorem Compiled.cons {claimed rest : List String} {source : String} {w w₁ w' : Desk}
    {e : ArtifactEntry} {es : List ArtifactEntry} (he : Entered sha256 claimed source w w₁ e)
    (hes : Compiled sha256 (e.installPath :: claimed) rest w₁ w' es) :
    Compiled sha256 claimed (source :: rest) w w' (e :: es) := by
  have hnew : source ∉ rest := by
    intro hmem
    rw [← hes.files] at hmem
    obtain ⟨e', he', hsource⟩ := List.mem_map.mp hmem
    refine hes.fresh e' he' ?_
    rw [hes.path e' he', hsource, he.path]
    exact List.mem_cons_self
  refine ⟨by rw [List.map_cons, he.file, hes.files], ?_, ?_, ?_, ?_, ?_⟩
  · intro e' he'
    rcases List.mem_cons.mp he' with rfl | he'
    · rw [he.file]
      exact he.path
    · exact hes.path e' he'
  · intro e' he'
    rcases List.mem_cons.mp he' with rfl | he'
    · exact he.fresh
    · exact fun hm => hes.fresh e' he' (List.mem_cons_of_mem _ hm)
  · rw [List.map_cons, List.nodup_cons]
    refine ⟨fun hm => ?_, hes.distinct⟩
    obtain ⟨e', he', hpath⟩ := List.mem_map.mp hm
    exact hes.fresh e' he' (hpath ▸ List.mem_cons_self)
  · intro e' he'
    rcases List.mem_cons.mp he' with rfl | he'
    · obtain ⟨x, hx, hdigest⟩ := he.hashed
      refine ⟨x, ?_, hdigest⟩
      rw [hes.others _ (he.file ▸ hnew)]
      exact hx
    · exact hes.hashed e' he'
  · intro s hs
    rw [List.mem_cons, not_or] at hs
    rw [hes.others s hs.2, he.others s hs.1]

theorem entries_hash (hB : Silent B) :
    ∀ {sources claimed : List String} {w : Desk}, w.posted = none →
      wp (handle sha256) Freely B (entries sources claimed).run
        (fun r _ w' => w'.posted = none ∧
          ∀ es, r = .ok es → Compiled sha256 claimed sources w w' es) () w
  | [], claimed, w, hw => by
      refine ⟨hw, fun es hes => ?_⟩
      cases hes
      exact ⟨rfl, fun _ he => (by cases he), fun _ he => (by cases he), List.nodup_nil,
        fun _ he => (by cases he), fun _ _ => rfl⟩
  | source :: rest, claimed, w, hw => by
      refine wp_seq_of (entry_hashes hB hw) ?_ ?_
      · rintro first - w₁ ⟨hw₁, hfirst⟩
        refine wp_seq_of (entries_hash hB hw₁) ?_ ?_
        · rintro others - w₂ ⟨hw₂, hothers⟩
          refine ⟨hw₂, fun es hes => ?_⟩
          cases hes
          exact (hothers _ rfl).cons (hfirst _ rfl)
        · rintro why - w₂ ⟨hw₂, -⟩
          exact ⟨hw₂, fun _ he => by cases he⟩
      · rintro why - w₁ ⟨hw₁, -⟩
        exact ⟨hw₁, fun _ he => by cases he⟩

/-! ## The store -/

/-- What was sent of its file is under its key. -/
def Sent (releaseId : String) (w : Desk) (e : ArtifactEntry) : Prop :=
  ∃ y, w.sent e.sourcePath = some y ∧
    w.bucket (Artifact.objectKey releaseId e.installPath) = some y

/-- What the uploads of these entries do. -/
structure Uploaded (releaseId : String) (es : List ArtifactEntry) (w w' : Desk) : Prop where
  hashed : w'.hashed = w.hashed
  sent : ∀ e ∈ es, Sent releaseId w' e
  files : ∀ s, s ∉ es.map ArtifactEntry.sourcePath → w'.sent s = w.sent s
  keys : ∀ path, path ∉ es.map ArtifactEntry.installPath →
    w'.bucket (Artifact.objectKey releaseId path) = w.bucket (Artifact.objectKey releaseId path)

theorem uploadAll_sends (hB : Silent B) {now : Int} :
    ∀ {es : List ArtifactEntry} {w : Desk}, w.posted = none →
      (∀ e ∈ es, e.installPath = filename e.sourcePath) →
      (es.map ArtifactEntry.installPath).Nodup →
      wp (handle sha256) Freely B (uploadAll (makeReleaseId now) es).run
        (fun r _ w' => w'.posted = none ∧ (r = .ok () → Uploaded (makeReleaseId now) es w w')) () w
  | [], w, hw, _, _ =>
      ⟨hw, fun _ => ⟨rfl, fun _ he => (by cases he), fun _ _ => rfl, fun _ _ => rfl⟩⟩
  | e :: rest, w, hw, hpath, hnd => by
      rw [List.map_cons, List.nodup_cons] at hnd
      refine wp_seq.mpr (wp_conclude.mpr ?_)
      cases hkey : Artifact.makeObjectKey (makeReleaseId now) e.installPath with
      | error why => exact ⟨hw, fun he => by cases he⟩
      | ok key =>
          have hkey' := makeObjectKey_eq hkey
          subst hkey'
          refine wp_seq.mpr ⟨hB _ _ hw, fun c _ => wp_seq.mpr (wp_conclude.mpr ?_)⟩
          show andThen _ _ _ _ _ ((c.result ()).mapError _) ()
            (if c.fault.isNone || c.arrived then w.put _ e.sourcePath c.content else w)
          unfold Turn.result
          cases hf : c.fault with
          | some why =>
              refine ⟨?_, fun he => by cases he⟩
              split
              · exact hw
              · exact hw
          | none =>
              have hsource : e.sourcePath ∉ rest.map ArtifactEntry.sourcePath := by
                intro hmem
                obtain ⟨e', he', hsame⟩ := List.mem_map.mp hmem
                refine hnd.1 (List.mem_map.mpr ⟨e', he', ?_⟩)
                rw [hpath e' (List.mem_cons_of_mem _ he'), hsame, ← hpath e List.mem_cons_self]
              refine wp_conseq (uploadAll_sends hB hw
                (fun e' he' => hpath e' (List.mem_cons_of_mem _ he')) hnd.2) ?_
              rintro r _ w' ⟨hw', hdone⟩
              refine ⟨hw', fun hr => ?_⟩
              have hu := hdone hr
              refine ⟨hu.hashed, fun e' he' => ?_, fun s hs => ?_, fun path hp => ?_⟩
              · rcases List.mem_cons.mp he' with rfl | he'
                · exact ⟨c.content, (hu.files _ hsource).trans (if_pos rfl),
                    (hu.keys _ hnd.1).trans (if_pos rfl)⟩
                · exact hu.sent e' he'
              · rw [List.map_cons, List.mem_cons, not_or] at hs
                exact (hu.files s hs.2).trans (if_neg hs.1)
              · rw [List.map_cons, List.mem_cons, not_or] at hp
                refine (hu.keys path hp.2).trans (if_neg fun he => hp.1 ?_)
                exact (Artifact.objectKey_injective (slash_not_mem_makeReleaseId now)
                  (slash_not_mem_makeReleaseId now) he).2

/-! ## The request is made -/

/-- The release that is asked for, as the desk has it. -/
structure Released (sha256 : Content → Digest) (w : Desk) (manifest : Manifest) : Prop where
  hashed : ∀ e ∈ manifest.artifacts, Hashed sha256 w e
  sent : ∀ e ∈ manifest.artifacts, Sent manifest.releaseId w e
  only : ∀ s, w.hashed s ≠ none → s ∈ manifest.artifacts.map ArtifactEntry.sourcePath

/-- No request is made, or one for a release of files that were read twice. -/
def Told (c : Commands) (sha256 : Content → Digest) (w : Desk) : Prop :=
  w.posted = none ∨ ∃ manifest, Released sha256 w manifest ∧
    w.posted = some (c.codec.serialize (request manifest c.configurations.targetGroup))

/-- A desk where nothing was read yet. -/
structure Fresh (w : Desk) : Prop where
  hashed : ∀ s, w.hashed s = none
  posted : w.posted = none

theorem build_hashes (hB : Silent B) {sources : List String} {now : Int} {w : Desk}
    (hw : w.posted = none) :
    wp (handle sha256) Freely B (build sources (makeReleaseId now) now).run
      (fun r _ w' => w'.posted = none ∧ ∀ manifest, r = .ok manifest →
        manifest.releaseId = makeReleaseId now ∧
          Compiled sha256 [] sources w w' manifest.artifacts) () w := by
  refine wp_require_seq.mpr ?_
  split
  · refine wp_require_seq.mpr ?_
    split
    · refine wp_seq_of (entries_hash hB hw) ?_ ?_
      · rintro es - w' ⟨hw', hes⟩
        refine ⟨hw', fun manifest hm => ?_⟩
        cases hm
        exact ⟨rfl, hes _ rfl⟩
      · rintro why - w' ⟨hw', -⟩
        exact ⟨hw', fun _ he => by cases he⟩
    · exact ⟨hw, fun _ he => by cases he⟩
  · exact ⟨hw, fun _ he => by cases he⟩

/-- Every stop of a deploy, and its end, is as told. -/
theorem deployAt_tells {c : Commands} {now : Int} {w : Desk} (hfresh : Fresh w) :
    wp (handle sha256) Freely (fun _ w _ => Told c sha256 w) (deployAt c now).run
      (fun _ _ w' => Told c sha256 w') () w := by
  have hB : Silent fun _ w _ => Told c sha256 w := fun _ _ hw => Or.inl hw
  refine wp_seq_of (build_hashes hB hfresh.posted) ?_ fun _ _ _ h => Or.inl h.1
  rintro manifest - w₁ ⟨hw₁, hm⟩
  obtain ⟨hid, hcompiled⟩ := hm _ rfl
  have huploads : wp (handle sha256) Freely (fun _ w _ => Told c sha256 w)
      (uploadRelease manifest).run (fun r _ w' => w'.posted = none ∧
        (r = .ok () → Uploaded manifest.releaseId manifest.artifacts w₁ w')) () w₁ := by
    rw [uploadRelease, hid]
    exact uploadAll_sends hB hw₁ hcompiled.path hcompiled.distinct
  refine wp_seq_of huploads ?_ fun _ _ _ h => Or.inl h.1
  rintro _ - w₂ ⟨hw₂, hu⟩
  have huploaded := hu rfl
  refine wp_seq.mpr ⟨Or.inl hw₂, fun c₂ _ => wp_seq.mpr (wp_conclude.mpr ?_)⟩
  -- from the request on nothing changes that it speaks of
  have htold : Told c sha256 { w₂ with
      posted := some (c.codec.serialize (request manifest c.configurations.targetGroup)) } := by
    refine Or.inr ⟨manifest, ⟨fun e he => ?_, huploaded.sent, fun s hs => ?_⟩, rfl⟩
    · obtain ⟨x, hx, hdigest⟩ := hcompiled.hashed e he
      exact ⟨x, (congrFun huploaded.hashed _).trans hx, hdigest⟩
    · rw [hcompiled.files]
      by_contra hnew
      refine hs ?_
      show w₂.hashed s = none
      rw [huploaded.hashed, hcompiled.others s hnew, hfresh.hashed s]
  show andThen _ _ _ _ _ (c₂.result c₂.response) () _
  cases c₂.result c₂.response with
  | error why => exact htold
  | ok response =>
      refine wp_require_seq.mpr ?_
      split
      · exact ⟨htold, fun _ _ => htold⟩
      · exact htold

theorem deploy_tells {c : Commands} {w : Desk} (hfresh : Fresh w) :
    wp (handle sha256) Freely (fun _ w _ => Told c sha256 w) (deploy c).run
      (fun _ _ w' => Told c sha256 w') () w := by
  refine wp_seq.mpr (wp_conclude.mpr ?_)
  cases c.configurations.validateForDeploy with
  | error why => exact Or.inl hfresh.posted
  | ok _ =>
      refine wp_require_seq.mpr ?_
      split
      · exact wp_seq.mpr ⟨Or.inl hfresh.posted, fun c₁ _ => deployAt_tells hfresh⟩
      · exact Or.inl hfresh.posted

/-- Wherever a deploy is stopped or ends: each object that its request speaks
of has the digest that is announced exactly if no request was made, or what
was sent of each file is what its digest was read from. -/
theorem kept_iff {c : Commands} {reader : Codec} {w w' : Desk}
    {out : Outcome workstation Unit (Except String Unit)} (hfresh : Fresh w)
    (he : Exec (handle sha256) Freely (deploy c).run () w out w')
    (hread : ∀ body, w'.posted = some body → reader.Understands c.codec body)
    (hsep : Separated sha256 w') :
    Kept reader sha256 w' ↔ w'.posted = none ∨ Unchanged w' := by
  have htold : Told c sha256 w' := by
    have hmeets := wp_sound he (deploy_tells hfresh)
    cases out with
    | done _ _ => exact hmeets
    | before _ _ => exact hmeets
  rcases htold with hnone | ⟨manifest, hreleased, hposted⟩
  · refine iff_of_true (fun body hbody => ?_) (Or.inl hnone)
    rw [hnone] at hbody
    cases hbody
  · have hartifacts := artifactsOf_request (hread _ hposted)
    have hkept : Kept reader sha256 w' ↔ ∀ e ∈ manifest.artifacts, ∃ x,
        w'.bucket (Artifact.objectKey manifest.releaseId e.installPath) = some x ∧
          e.sha256 = (sha256 x).text := by
      unfold Kept
      rw [hposted]
      constructor
      · intro h e he
        have hall := h _ rfl
        rw [hartifacts] at hall
        exact hall _ (List.mem_map_of_mem he)
      · rintro h body hbody a ha
        cases hbody
        rw [hartifacts] at ha
        obtain ⟨e, he, rfl⟩ := List.mem_map.mp ha
        exact h e he
    rw [hkept]
    constructor
    · intro h
      refine Or.inr fun s x y hx hy => hsep s x y hx hy ?_
      obtain ⟨e, he, rfl⟩ := List.mem_map.mp (hreleased.only s (by rw [hx]; simp))
      obtain ⟨x', hx', hdigest⟩ := hreleased.hashed e he
      obtain ⟨y', hy', hb⟩ := hreleased.sent e he
      obtain ⟨z, hz, hannounced⟩ := h e he
      cases hx.symm.trans hx'
      cases hy.symm.trans hy'
      cases hb.symm.trans hz
      exact Digest.text_injective (hdigest.symm.trans hannounced)
    · rintro (hnone | hsame) e he
      · rw [hnone] at hposted
        cases hposted
      · obtain ⟨x, hx, hdigest⟩ := hreleased.hashed e he
        obtain ⟨y, hy, hb⟩ := hreleased.sent e he
        exact ⟨y, hb, by rw [hdigest, hsame _ _ _ hx hy]⟩

namespace Sample

/-- The digests of an empty file, and of one that holds something. -/
def digests : Content → Digest
  | .text "" => Fleet.Sample.emptyDigest
  | _ => Vector.replicate 32 0

/-- One deploy of an empty file, which may hold something else by the time it
is uploaded. -/
def changing (later : Content) : List Turn := [{}, {}, {}, {}, {}, { content := later }, {}, {}]

def changed (later : Content) : Desk :=
  ((deploy Fleet.Sample.client).run.run (handle digests) (changing later) () {}).2

theorem changed_posted (later : Content) : (changed later).posted = some "request" := rfl

theorem changed_hashed (later : Content) (s : String) :
    (changed later).hashed s = if s = "build/app" then some (.text "") else none := rfl

theorem changed_sent (later : Content) (s : String) :
    (changed later).sent s = if s = "build/app" then some later else none := rfl

end Sample

/-- A file that stays as it is. -/
theorem kept_iff_unchanged :
    Kept (Fleet.Sample.dictionary Fleet.Sample.texts) Sample.digests
      (Sample.changed (.text "")) := by
  have hexec := exec_freely (handle Sample.digests) (deploy Fleet.Sample.client).run
    (Sample.changing (.text "")) () {} rfl
  have hsame : Unchanged (Sample.changed (.text "")) := by
    intro source x y hx hy
    rw [Sample.changed_hashed] at hx
    rw [Sample.changed_sent, hx] at hy
    exact Option.some.inj hy
  refine (kept_iff ⟨fun _ => rfl, rfl⟩ hexec ?_ fun s x y hx hy _ => hsame s x y hx hy).mpr
    (Or.inr hsame)
  intro body hbody
  cases (Sample.changed_posted _).symm.trans hbody
  exact Fleet.Sample.understood (by decide)

/-- A file that is written between the two passes is announced with the digest
of what it held before. -/
theorem written_in_between :
    (Sample.changed (.text "new")).posted = some "request" ∧
      ¬ Kept (Fleet.Sample.dictionary Fleet.Sample.texts) Sample.digests
        (Sample.changed (.text "new")) := by
  refine ⟨Sample.changed_posted _, fun hkept => ?_⟩
  have hannounced : artifactsOf (Fleet.Sample.dictionary Fleet.Sample.texts) "request" =
    [("releases/rel_19700101_000000/app", Fleet.Sample.emptyDigest.text)] := rfl
  have hall := hkept "request" (Sample.changed_posted _)
  rw [hannounced] at hall
  obtain ⟨x, hx, hdigest⟩ := hall _ List.mem_cons_self
  have hstored : (Sample.changed (.text "new")).bucket "releases/rel_19700101_000000/app" =
    some (.text "new") := rfl
  cases hstored.symm.trans hx
  have hsame : Fleet.Sample.emptyDigest = Vector.replicate 32 0 :=
    Digest.text_injective hdigest
  exact absurd hsame (by decide)

end Yirang.DeployCli
