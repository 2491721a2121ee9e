/-
# `Yirang.Agent.Versions` — what downloads do to the downloads there are

Two questions about the directory of downloads.

    failed_download_keeps_iff   which failures cost an earlier download
    download_exact_iff          when a download that ended well is exactly
                                what its payload lists

The guard of `download_version` is built right after the directory is made,
and removes the directory on every failure from there on.  It does not know
whether the directory was there before: a message that comes a second time
and then fails takes the release of the first time with it.
-/
import Yirang.Agent.Download
import Yirang.Install.Frame

namespace Yirang.Agent

open Fs Effect Device Install

variable {a : AgentService} {hash : Content → String}

/-! ## Requests -/

/-- A payload asks for one thing. -/
theorem Asks.unique {payload r r' : String} {artifacts artifacts' : List Json}
    (h : Asks a payload r artifacts) (h' : Asks a payload r' artifacts') :
    r' = r ∧ artifacts' = artifacts := by
  obtain ⟨-, -, object, hobj, hreq⟩ := h
  obtain ⟨-, -, object', hobj', hreq'⟩ := h'
  rw [hobj] at hobj'
  cases hobj'
  rw [hreq] at hreq'
  cases hreq'
  exact ⟨rfl, rfl⟩

/-- No path of one release is on the way to another. -/
theorem not_near {q r : String} (hq : Artifact.validateReleaseId q = .ok ())
    (hr : Artifact.validateReleaseId r = .ok ()) (hne : q ≠ r) {p : Path}
    (hp : a.versionDirectory q <+: p) : ¬ Near (a.versionDirectory r) p := by
  rw [versionDirectory_eq hq] at hp
  rw [versionDirectory_eq hr]
  rintro (hn | hn)
  · exact hne (by simpa using Path.under_base_iff.mp (hp.trans hn))
  · exact hne (child_unique hp hn)

/-! ## Failures -/

/-- The download of a release was completed, and nothing under its directory
has changed since. -/
inductive Completed (a : AgentService) : Host → String → Prop
  | fetched {payload r : String} {artifacts : List Json} {m m' : Memory} {h h' : Host} :
      Exec answer (fun _ _ _ => True) (downloadVersion a payload).run m h
        (.done (.ok ()) m') h' →
      Asks a payload r artifacts → Completed a h' r
  | kept {r : String} {h h' : Host} : Completed a h r →
      (∀ p, a.versionDirectory r <+: p → h'.device.fs.get p = h.device.fs.get p) →
      Completed a h' r

theorem Completed.there {h : Host} {r : String} (hc : Completed a h r) :
    Artifact.validateReleaseId r = .ok () ∧
      h.device.fs.get (a.versionDirectory r) = some .dir := by
  induction hc with
  | fetched he hasks =>
      obtain ⟨r', artifacts', aims, hd⟩ :=
        wp_done he (download_spec (D := fun _ _ => True) fun _ _ _ _ _ _ => trivial) rfl
      obtain ⟨rfl, -⟩ := hasks.unique hd.asks
      exact ⟨hasks.request.1, FileTree.isDir_iff.mp hd.there⟩
  | kept _ hsame ih => exact ⟨ih.1, (hsame _ List.prefix_rfl).trans ih.2⟩

/-- The store can always be out of reach, so any fetch can fail. -/
theorem fetch_can_fail {r : String} {target : Path} {element : Json} {m : Memory} {h : Host} :
    can answer (fun _ _ _ => True) (fetch r target element).run
      (fun res _ _ => ∃ e, res = .error e) m h := by
  unfold fetch
  cases hreq : artifactRequest r element with
  | error e => exact ⟨.said e, rfl⟩
  | ok request =>
      obtain ⟨installPath, sha256, key⟩ := request
      refine can_orPermanent_seq rfl (can_seq (can_conseq
        (Q := fun res _ _ => ∃ why, res = .ok (.error why)) ?_ ?_))
      · unfold storeDownload
        split
        · exact ⟨Sample.failing, trivial, _, rfl⟩
        · exact ⟨Sample.failing, trivial, "unreachable", rfl⟩
      · rintro res m₁ h₁ ⟨why, rfl⟩
        refine ⟨_, rfl, can_seq_error ?_⟩
        exact ⟨Sample.failing, trivial, .said why, rfl, .said why, rfl⟩

theorem fetchAll_can_fail {r : String} {target : Path} {element : Json} {rest : List Json}
    {m : Memory} {h : Host} :
    can answer (fun _ _ _ => True) (fetchAll r target (element :: rest)).run
      (fun res _ _ => ∃ e, res = .error e) m h := by
  refine can_seq_error (can_conseq fetch_can_fail ?_)
  rintro res m' h' ⟨e, rfl⟩
  exact ⟨e, rfl, e, rfl⟩

/-- A payload that gets as far as the directory can fail there, and then the
directory is gone. -/
theorem download_can_lose {payload r : String} {artifacts : List Json} {m : Memory} {h : Host}
    (hasks : Asks a payload r artifacts)
    (hthere : h.device.fs.get (a.versionDirectory r) = some .dir) :
    can answer (fun _ _ _ => True) (downloadVersion a payload).run
      (fun res _ h' => (∃ e, res = .error e) ∧
        h'.device.fs.get (a.versionDirectory r) = none) m h := by
  obtain ⟨element, rest, rfl⟩ := List.exists_cons_of_ne_nil hasks.request.2
  obtain ⟨hstore, hroot, object, hobj, hreq⟩ := hasks
  refine can_demand_seq hstore (can_demand_seq (by simpa using hroot) ?_)
  refine can_orPermanent_seq hobj (can_orPermanent_seq hreq ?_)
  refine can_call_seq {} trivial ?_
  -- the directory can be made, since it is there
  obtain ⟨t, ht⟩ := FileTree.mkdirsAt_of_isDir hthere
  have hmade : (answer ({} : Turn)
      (.device (.file (.createDirectories (a.versionDirectory r)))) h).1 = .ok () := by
    show (FileOp.attempt {} h.device.fs (h.device.fs.mkdirsAt _) _).1 = _
    rw [ht]
    rfl
  refine can_orReturn_seq (x := ()) (by rw [hmade]; rfl) ?_
  refine can_seq_error (can_seq (can_attempt.mpr (can_conseq fetchAll_can_fail ?_)))
  rintro res m₁ h₁ ⟨e, rfl⟩
  refine ⟨_, rfl, {}, trivial, e, rfl, ⟨e, rfl⟩, ?_⟩
  exact FileOp.removeAll_gone List.prefix_rfl (.inl rfl)

/-- A download that fails leaves every completed download as it is, in every
run and for every order of failures, just where its payload does not get to
the directory of one. -/
theorem failed_download_keeps_iff {payload : String} {h : Host} :
    (∀ m e m' h', Exec answer (fun _ _ _ => True) (downloadVersion a payload).run m h
        (.done (.error e) m') h' →
      ∀ q, Completed a h q → ∀ p, a.versionDirectory q <+: p →
        h'.device.fs.get p = h.device.fs.get p) ↔
      ∀ r artifacts, Asks a payload r artifacts → ¬ Completed a h r := by
  constructor
  · intro hkeeps r artifacts hasks hc
    obtain ⟨-, hdir⟩ := hc.there
    obtain ⟨res, m', h', he, ⟨e, rfl⟩, hgone⟩ :=
      can_exec (download_can_lose (m := {}) hasks hdir)
    have hsame := hkeeps _ e m' h' he r hc _ List.prefix_rfl
    rw [hgone, hdir] at hsame
    cases hsame
  · intro hnone m e m' h' he q hc p hp
    have hwithin := exec_hostWithin (download_uses (X := fun p => ∃ r artifacts,
      Asks a payload r artifacts ∧ Near (a.versionDirectory r) p)
      fun r artifacts hasks p hp => ⟨r, artifacts, hasks, hp⟩) he
    refine hwithin.files ?_
    rintro ⟨r, artifacts, hasks, hnear⟩
    have hne : q ≠ r := fun e => hnone r artifacts hasks (e ▸ hc)
    exact not_near hc.there.1 hasks.request.1 hne hp hnear

/-! ## Successes -/

/-- The entry leads to this path, and lists this digest. -/
def Lists (r : String) (target : Path) (element : Json) (d : Path) (sha256 : String) : Prop :=
  aim r target element = some (d, sha256)

/-- Every entry has its file with the digest it lists, and there is no other
file. -/
structure Exactly (hash : Content → String) (r : String) (target : Path) (artifacts : List Json)
    (t : FileTree Content) : Prop where
  held : ∀ element ∈ artifacts, ∃ d sha256, Lists r target element d sha256 ∧
    ∃ x, t.get d = some (.file x) ∧ hash x = sha256
  only : ∀ q, target <+: q → t.isFile q = true →
    ∃ element ∈ artifacts, ∃ sha256, Lists r target element q sha256

/-- No two entries list different digests for one file, and every file that
is there is listed. -/
structure Unambiguous (r : String) (target : Path) (artifacts : List Json) (t : FileTree Content) :
    Prop where
  agree : ∀ element ∈ artifacts, ∀ other ∈ artifacts, ∀ d sha256 sha256',
    Lists r target element d sha256 → Lists r target other d sha256' → sha256 = sha256'
  covered : ∀ q, target <+: q → t.isFile q = true →
    ∃ element ∈ artifacts, ∃ sha256, Lists r target element q sha256

/-- What the entries list are the aims of the loop. -/
theorem mem_aims {r : String} {target : Path} {artifacts : List Json}
    {aims : List (Path × String)} (h : artifacts.map (aim r target) = aims.map some)
    {d : Path} {sha256 : String} :
    (d, sha256) ∈ aims ↔ ∃ element ∈ artifacts, Lists r target element d sha256 := by
  have hiff : some (d, sha256) ∈ artifacts.map (aim r target) ↔ (d, sha256) ∈ aims := by
    rw [h]
    simp
  rw [← hiff, List.mem_map]
  exact Iff.rfl

/-- A download that ended well has what its payload lists and nothing else,
just where the entries do not contradict each other and nothing unlisted was
there before. -/
theorem download_exact_iff {payload : String} {m m' : Memory} {h h' : Host}
    (he : Exec answer (Hashing hash) (downloadVersion a payload).run m h (.done (.ok ()) m') h') :
    ∃ r artifacts, Asks a payload r artifacts ∧
      (Exactly hash r (a.versionDirectory r) artifacts h'.device.fs ↔
        Unambiguous r (a.versionDirectory r) artifacts h.device.fs) := by
  obtain ⟨r, artifacts, aims, hd⟩ := wp_done he (download_spec digested_hashing) rfl
  have hmem : ∀ {d : Path} {s : String}, (d, s) ∈ aims ↔
      ∃ element ∈ artifacts, Lists r (a.versionDirectory r) element d s := mem_aims hd.aimed
  have hlisted : ∀ d, d ∈ aims.map Prod.fst ↔
      ∃ element ∈ artifacts, ∃ s, Lists r (a.versionDirectory r) element d s := by
    intro d
    constructor
    · intro hdm
      obtain ⟨⟨d', s⟩, hds, rfl⟩ := List.mem_map.mp hdm
      obtain ⟨element, hel, hl⟩ := hmem.mp hds
      exact ⟨element, hel, s, hl⟩
    · rintro ⟨element, hel, s, hl⟩
      exact List.mem_map.mpr ⟨(d, s), hmem.mpr ⟨element, hel, hl⟩, rfl⟩
  -- a file that no entry leads to was there before, and is there still
  have hfiles : ∀ q, q ∉ aims.map Prod.fst →
      (h'.device.fs.isFile q = true ↔ h.device.fs.isFile q = true) := fun q hq => by
    rw [FileTree.isFile_iff, FileTree.isFile_iff]
    exact exists_congr fun y => hd.filled.others hq
  refine ⟨r, artifacts, hd.asks, fun hex => ⟨?_, ?_⟩, fun hun => ⟨?_, ?_⟩⟩
  · intro element hel other hother d s s' hl hl'
    obtain ⟨d₁, s₁, hl₁, x, hx, hs₁⟩ := hex.held element hel
    obtain ⟨d₂, s₂, hl₂, y, hy, hs₂⟩ := hex.held other hother
    rw [Lists] at hl hl' hl₁ hl₂
    rw [hl] at hl₁
    rw [hl'] at hl₂
    cases hl₁
    cases hl₂
    rw [hx] at hy
    cases hy
    exact hs₁.symm.trans hs₂
  · intro q hq hfile
    by_contra hno
    exact hno (hex.only q hq ((hfiles q fun hm => hno ((hlisted q).mp hm)).mpr hfile))
  · intro element hel
    have haim : aim r (a.versionDirectory r) element ∈ aims.map some := by
      rw [← hd.aimed]
      exact List.mem_map_of_mem hel
    obtain ⟨⟨d, s⟩, hds, hl⟩ := List.mem_map.mp haim
    obtain ⟨x, s', hx, hs', hhash⟩ := hd.filled.held d (List.mem_map_of_mem hds)
    obtain ⟨other, hother, hl'⟩ := hmem.mp hs'
    refine ⟨d, s, hl.symm, x, hx, ?_⟩
    rw [hhash]
    exact (hun.agree element hel other hother d s s' hl.symm hl').symm
  · intro q hq hfile
    by_contra hno
    exact hno (hun.covered q hq ((hfiles q fun hm => hno ((hlisted q).mp hm)).mp hfile))

/-! ## A message that comes twice, and a file with two names -/

/-- Whether a choice gives the digest of the file can be computed. -/
instance {h : Host} {o : Op} {c : Turn} : Decidable (Hashing hash h o c) :=
  match o with
  | .device (.fileSha256 p) =>
      match hp : h.device.fs.get p with
      | some (.file x) => decidable_of_iff (c.text = hash x)
          ⟨fun hc _ _ he hg => by cases he; rw [hp] at hg; cases hg; exact hc,
            fun hc => hc p x rfl hp⟩
      | some .dir => .isTrue fun _ _ he hg => by cases he; rw [hp] at hg; cases hg
      | some (.link _) => .isTrue fun _ _ he hg => by cases he; rw [hp] at hg; cases hg
      | none => .isTrue fun _ _ he hg => by cases he; rw [hp] at hg; cases hg
  | .device (.file _) | .device (.start _) | .device (.adopt _) | .device (.stop _ _)
  | .device (.status _) | .device .networkProbe | .device .bootIdentity | .device .utcNow
  | .device .steadyNow | .device (.turns _ _) | .device (.download _ _) | .device (.inStore _)
  | .send _ _ | .requestReboot | .weaklyCanonical _ | .currentPath | .space _
  | .hardwareConcurrency => .isTrue fun _ _ he => by cases he

namespace Sample

/-- Digests one can read. -/
def digest : Content → String
  | .text s => "digest of " ++ s
  | _ => ""

def digestOf : Entry Content → String
  | .file x => digest x
  | _ => ""

def entry (installPath sha256 : String) : Json :=
  .object [("install_path", .string installPath), ("sha256", .string sha256)]

def request (entries : List Json) : Json :=
  .object [("release_id", .string "r1"), ("artifacts", .array entries)]

/-- One file, two files, and one file under two names. -/
def downloads : AgentService :=
  configurations.agentService (codec
    [("one", request [entry "app" "digest of a"]),
      ("both", request [entry "app" "digest of a", entry "lib" "digest of b"]),
      ("two", request [entry "app" "digest of a", entry "./app" "digest of b"])])

def fetching (s : String) : List Turn := [{ content := .text s }, { text := "digest of " ++ s }]

def downloaded : Host :=
  ((downloadVersion downloads "one").run.run answer ({} :: fetching "a") {} host).2

end Sample

theorem Sample.downloaded_run :
    ∃ m, Exec answer (Hashing Sample.digest) (downloadVersion Sample.downloads "one").run {}
      Sample.host (.done (.ok ()) m) Sample.downloaded :=
  ⟨_, exec_of_run (l := {} :: Sample.fetching "a") (by decide +kernel) rfl⟩

/-- The release that a first message downloaded is gone when the message
comes again and the store is out of reach. -/
theorem redelivered_download_loses :
    ∃ e m' h', Exec answer (Hashing Sample.digest) (downloadVersion Sample.downloads "one").run
        {} Sample.downloaded (.done (.error e) m') h' ∧
      Completed Sample.downloads Sample.downloaded "r1" ∧
      Sample.downloaded.device.fs.isFile ["versions", "r1", "app"] = true ∧
      h'.device.fs.isDir ["versions", "r1"] = false := by
  obtain ⟨m, he⟩ := Sample.downloaded_run
  have hasks : Asks Sample.downloads "one" "r1" [Sample.entry "app" "digest of a"] :=
    ⟨rfl, by decide, _, rfl, rfl⟩
  obtain ⟨e, m', hrun⟩ : ∃ e m', ((downloadVersion Sample.downloads "one").run.run answer
      [{}, Sample.failing, Sample.failing, {}] {} Sample.downloaded).1 = .done (.error e) m' :=
    ⟨_, _, rfl⟩
  refine ⟨e, m', _, exec_of_run (by decide +kernel) hrun, .fetched (he.mono ?_) hasks,
    by decide +kernel, by decide +kernel⟩
  exact fun _ _ _ _ => trivial

/-- Two files are downloaded, and the directory holds them and nothing
else. -/
theorem download_exact_two :
    ∃ m' h', Exec answer (Hashing Sample.digest) (downloadVersion Sample.downloads "both").run {}
        Sample.host (.done (.ok ()) m') h' ∧
      Exactly Sample.digest "r1" ["versions", "r1"]
        [Sample.entry "app" "digest of a", Sample.entry "lib" "digest of b"] h'.device.fs := by
  obtain ⟨m', hrun⟩ : ∃ m', ((downloadVersion Sample.downloads "both").run.run answer
      ({} :: (Sample.fetching "a" ++ Sample.fetching "b")) {} Sample.host).1 =
        .done (.ok ()) m' := ⟨_, rfl⟩
  have he := exec_of_run (A := Hashing Sample.digest) (by decide +kernel) hrun
  have hboth : Asks Sample.downloads "both" "r1"
      [Sample.entry "app" "digest of a", Sample.entry "lib" "digest of b"] :=
    ⟨rfl, by decide, _, rfl, rfl⟩
  obtain ⟨r, artifacts, hasks, hiff⟩ := download_exact_iff he
  obtain ⟨rfl, rfl⟩ := hboth.unique hasks
  have happ : aim "r1" (Sample.downloads.versionDirectory "r1")
      (Sample.entry "app" "digest of a") =
        some (["versions", "r1", "app"], "digest of a") := by decide +kernel
  have hlib : aim "r1" (Sample.downloads.versionDirectory "r1")
      (Sample.entry "lib" "digest of b") =
        some (["versions", "r1", "lib"], "digest of b") := by decide +kernel
  have hone : ∀ element ∈ [Sample.entry "app" "digest of a", Sample.entry "lib" "digest of b"],
      ∀ d s, Lists "r1" (Sample.downloads.versionDirectory "r1") element d s →
        s = if d = ["versions", "r1", "app"] then "digest of a" else "digest of b" := by
    simp only [List.forall_mem_cons]
    refine ⟨fun d s hl => ?_, fun d s hl => ?_, fun _ h => by cases h⟩
    · cases happ.symm.trans hl
      rfl
    · cases hlib.symm.trans hl
      rfl
  refine ⟨m', _, he, hiff.mpr ⟨?_, fun q _ hq => ?_⟩⟩
  · intro element hel other hother d s s' hl hl'
    rw [hone element hel d s hl, hone other hother d s' hl']
  · -- nothing was there before
    obtain ⟨_, hq⟩ := FileTree.isFile_iff.mp hq
    change (if q = [] then some Entry.dir else none) = _ at hq
    split at hq
    · cases hq
    · cases hq

/-- Both names are fetched and checked, and the second file takes the place
of the first. -/
theorem download_of_two_names_is_not_exact :
    ∃ m' h', Exec answer (Hashing Sample.digest) (downloadVersion Sample.downloads "two").run {}
        Sample.host (.done (.ok ()) m') h' ∧
      ∃ artifacts, Asks Sample.downloads "two" "r1" artifacts ∧
        ¬ Exactly Sample.digest "r1" (Sample.downloads.versionDirectory "r1") artifacts
          h'.device.fs := by
  obtain ⟨m', hrun⟩ : ∃ m', ((downloadVersion Sample.downloads "two").run.run answer
      ({} :: (Sample.fetching "a" ++ Sample.fetching "b")) {} Sample.host).1 =
        .done (.ok ()) m' := ⟨_, rfl⟩
  refine ⟨m', _, exec_of_run (by decide +kernel) hrun, _, ⟨rfl, by decide, _, rfl, rfl⟩, ?_⟩
  intro hex
  obtain ⟨d, s, hl, x, hx, hs⟩ := hex.held (Sample.entry "app" "digest of a") (by simp)
  cases hl
  have hpath : Path.join (Sample.downloads.versionDirectory "r1") (Json.cString "app") =
      ["versions", "r1", "app"] := by decide +kernel
  rw [hpath] at hx
  -- the file holds what was fetched last
  have hlast : ((((downloadVersion Sample.downloads "two").run.run answer
      ({} :: (Sample.fetching "a" ++ Sample.fetching "b")) {} Sample.host).2.device.fs.get
        ["versions", "r1", "app"]).map Sample.digestOf) = some "digest of b" := by decide +kernel
  rw [hx] at hlast
  exact absurd ((Option.some.inj hlast).symm.trans hs) (by decide)

end Yirang.Agent
