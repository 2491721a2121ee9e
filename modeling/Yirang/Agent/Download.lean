/-
# `Yirang.Agent.Download` — what a download leaves

`download_version` makes the directory of a release, fetches its files one
by one, and checks the digest of each.  If anything goes wrong after the
directory was made, a guard removes it again, whoever made it.

    Asks              a payload that gets as far as the directory
    Hashing           what is relied on of the digests: they are of the files
    fetchAll_spec     what the loop leaves when it ends well
    download_uses     the footprint: the directory, and the way to it

A path of a payload may name one file in several ways (`a`, `./a`, `a//`),
so entries are compared by the path they lead to.
-/
import Yirang.Agent.Handle

namespace Yirang.Agent

open Fs Effect Device

variable {a : AgentService} {A : Host → Op → Turn → Prop} {B : Memory → Host → Op → Prop}

/-! ## Steps of handlers -/

section Steps

variable {α β : Type} {m : Memory}

section

variable {W C : Type} {ans : Answers agent W C} {A : W → Op → C → Prop}
  {B : Memory → W → Op → Prop} {w : W} {Q : Except Failure β → Memory → W → Prop}

theorem wp_orPermanent_seq {r : Except String α} {k : α → Act agent Memory Failure β}
    (hok : ∀ x, r = .ok x → wp ans A B (k x).run Q m w)
    (herr : ∀ e, r = .error e → Q (.error (.said e)) { m with failureIsPermanent := true } w) :
    wp ans A B (orPermanent r >>= k).run Q m w := by
  cases r with
  | ok x => exact hok x rfl
  | error e => exact herr e rfl

theorem wp_demand_seq {c : Bool} {reason : String} {k : Unit → Act agent Memory Failure β}
    (hok : c = true → wp ans A B (k ()).run Q m w)
    (herr : c = false → Q (.error (.said reason)) { m with failureIsPermanent := true } w) :
    wp ans A B (demand c reason >>= k).run Q m w := by
  cases c with
  | true => exact hok rfl
  | false => exact herr rfl

theorem wp_orReturn_seq {r : Except String α} {k : α → Act agent Memory Failure β}
    (hok : ∀ x, r = .ok x → wp ans A B (k x).run Q m w)
    (herr : ∀ e, r = .error e → Q (.error (.said e)) m w) :
    wp ans A B (orReturn r >>= k).run Q m w := by
  cases r with
  | ok x => exact hok x rfl
  | error e => exact herr e rfl

theorem wp_orEngineError_seq {done : Except Deploy.EngineError Unit} {k : Unit → Handler}
    {Q : Except Failure Unit → Memory → W → Prop}
    (hok : done = .ok () → wp ans A B (k ()).run Q m w)
    (hthrew : ∀ what, done = .error (.installer (.threw what)) → Q (.error (.threw what)) m w)
    (herr : ∀ e, done = .error e →
      Q (.error (.said e.text)) { m with failureIsPermanent := true } w) :
    wp ans A B (orEngineError done >>= k).run Q m w := by
  unfold orEngineError
  split
  · exact hok rfl
  · exact hthrew _ rfl
  · exact herr _ rfl

/-- One call, and the rest with its answer. -/
theorem wp_call_seq {o : Op} {k : o.Res → Act agent Memory Failure β} (hB : B m w o)
    (hk : ∀ c, A w o c → wp ans A B (k (ans c o w).1).run Q m (ans c o w).2) :
    wp ans A B ((ask (E := agent) o : Act agent Memory Failure o.Res) >>= k).run Q m w :=
  ⟨hB, hk⟩

end

variable {h : Host} {Q : Except Failure β → Memory → Host → Prop}

theorem can_orPermanent_seq {r : Except String α} {x : α} {k : α → Act agent Memory Failure β}
    (hr : r = .ok x) (hk : can answer A (k x).run Q m h) :
    can answer A (orPermanent r >>= k).run Q m h := by
  cases hr
  exact hk

theorem can_demand_seq {c : Bool} {reason : String} {k : Unit → Act agent Memory Failure β}
    (hc : c = true) (hk : can answer A (k ()).run Q m h) :
    can answer A (demand c reason >>= k).run Q m h := by
  cases hc
  exact hk

theorem can_orReturn_seq {r : Except String α} {x : α} {k : α → Act agent Memory Failure β}
    (hr : r = .ok x) (hk : can answer A (k x).run Q m h) :
    can answer A (orReturn r >>= k).run Q m h := by
  cases hr
  exact hk

theorem can_call_seq {o : Op} {k : o.Res → Act agent Memory Failure β} (c : Turn) (hc : A h o c)
    (hk : can answer A (k (answer c o h).1).run Q m (answer c o h).2) :
    can answer A ((ask (E := agent) o : Act agent Memory Failure o.Res) >>= k).run Q m h :=
  ⟨c, hc, hk⟩

variable {S : Op → Prop}

theorem uses_permanent {reason : String} :
    Uses S (permanent reason : Act agent Memory Failure β).run := fun _ => trivial

theorem uses_orPermanent_seq {r : Except String α} {k : α → Act agent Memory Failure β}
    (hk : ∀ x, r = .ok x → Uses S (k x).run) : Uses S (orPermanent r >>= k).run := by
  cases r with
  | ok x => exact hk x rfl
  | error e => exact fun _ => trivial

theorem uses_demand_seq {c : Bool} {reason : String} {k : Unit → Act agent Memory Failure β}
    (hk : c = true → Uses S (k ()).run) : Uses S (demand c reason >>= k).run := by
  cases c with
  | true => exact hk rfl
  | false => exact fun _ => trivial

theorem uses_setReport {s : String} : Uses S (setReport s).run := fun _ => trivial

end Steps

/-! ## Footprints on a host -/

/-- Of the device, the call changes no path outside `X`, and makes no
process. -/
def Touching (X : Path → Prop) : Op → Prop
  | .device o => Touches X o
  | _ => True

/-- The device of one host comes after that of another. -/
def HostWithin (X : Path → Prop) (h h' : Host) : Prop := Within X h.device h'.device

theorem answer_hostWithin {X : Path → Prop} {c : Turn} {o : Op} {h : Host}
    (ho : Touching X o) : HostWithin X h (answer c o h).2 := by
  by_cases hd : IsDevice o
  · cases o with
    | device o => exact answer_within ho
    | _ => cases hd
  · rw [HostWithin, answer_device hd]
    exact .refl

theorem wp_hostWithin {α : Type} {X : Path → Prop} {p : Program agent Memory α} {m : Memory}
    {h : Host} (hp : Uses (Touching X) p) (hB : ∀ m h' o, HostWithin X h h' → B m h' o) :
    wp answer A B p (fun _ _ h' => HostWithin X h h') m h :=
  wp_of_uses (R := HostWithin X h) (fun _ _ _ ho _ hr => hr.trans (answer_hostWithin ho))
    (fun m h' o _ hr => hB m h' o hr) hp .refl

/-- Wherever such a program is found, it has stayed within `X`. -/
theorem exec_hostWithin {α : Type} {X : Path → Prop} {p : Program agent Memory α} {m : Memory}
    {h h' : Host} {out : Outcome agent Memory α} (hp : Uses (Touching X) p)
    (he : Exec answer A p m h out h') : HostWithin X h h' := by
  have hwp := wp_sound he (wp_hostWithin (B := fun _ h' _ => HostWithin X h h') hp
    fun _ _ _ hr => hr)
  cases out with
  | done a m' => exact hwp
  | before m' o => exact hwp

/-! ## Paths of a payload -/

theorem Artifact.releaseId_proper {r : String} (h : Artifact.validateReleaseId r = .ok ()) :
    ProperName r = true := by
  unfold Artifact.validateReleaseId at h
  split at h
  · cases h
  · rename_i hne
    split at h
    · cases h
    · rename_i hsep
      split at h
      · cases h
      · rename_i href
        simp only [Artifact.containsSeparator, Bool.or_eq_true, not_or, decide_eq_true_eq,
          List.contains_eq_mem] at hsep href
        exact Path.properName_iff.mpr ⟨hne, href.1, href.2, hsep.1⟩

theorem Artifact.installPath_below {s : String} (h : Artifact.validateInstallPath s = .ok ()) :
    Path.isAbsolute s = false ∧ ".." ∉ Path.components s := by
  unfold Artifact.validateInstallPath at h
  split at h
  · cases h
  · split at h
    · cases h
    · split at h
      · cases h
      · rename_i habs
        split at h
        · cases h
        · split at h
          · cases h
          · rename_i hpar
            refine ⟨by simpa using habs, fun hm => hpar ?_⟩
            simp only [Path.components, List.mem_filterMap, Option.ite_none_left_eq_some,
              Option.some.injEq] at hm
            obtain ⟨piece, hpiece, -, he⟩ := hm
            have hdots : piece = ['.', '.'] := by
              simpa using congrArg String.toList he
            simpa [Artifact.hasParentReference, hdots] using hpiece

/-- What an entry asks for, all checks made. -/
structure Requested (r installPath key : String) : Prop where
  valid : Artifact.validateReleaseId r = .ok ()
  below : Artifact.validateInstallPath installPath = .ok ()
  key : key = Artifact.objectKey r installPath

theorem requested_of_ok {r : String} {element : Json} {installPath sha256 key : String}
    (h : artifactRequest r element = .ok (installPath, sha256, key)) :
    Requested r installPath key := by
  unfold artifactRequest at h
  obtain ⟨entry, -, h⟩ := bind_eq_ok.mp h
  obtain ⟨path, -, h⟩ := bind_eq_ok.mp h
  obtain ⟨digest, -, h⟩ := bind_eq_ok.mp h
  obtain ⟨k, hk, h⟩ := bind_eq_ok.mp h
  cases h
  obtain ⟨_, hr, hk⟩ := bind_eq_ok.mp hk
  obtain ⟨_, hp, hk⟩ := bind_eq_ok.mp hk
  cases hk
  exact ⟨hr, hp, rfl⟩

theorem Requested.under {r installPath key : String} (h : Requested r installPath key)
    (target : Path) : target <+: Path.join target installPath := by
  obtain ⟨habs, hpar⟩ := Artifact.installPath_below h.below
  rw [Path.join_of_no_parent habs hpar]
  exact List.prefix_append _ _

/-- The directory of a release, or the way to it. -/
def Near (target q : Path) : Prop := q <+: target ∨ target <+: q

theorem near_of_prefixes {target p q : Path} (hp : target <+: p) (hq : q <+: p) :
    Near target q :=
  Path.under_total hq hp

/-! ## The footprint of a download -/

/-- The payload gets as far as the directory of the release: it asks for `r`
with these entries. -/
def Asks (a : AgentService) (payload r : String) (artifacts : List Json) : Prop :=
  a.store = true ∧ a.options.versionRoot ≠ "" ∧
    ∃ object, parseObject a.codec payload = .ok object ∧
      downloadRequest object = .ok (r, artifacts)

theorem Asks.request {payload r : String} {artifacts : List Json}
    (h : Asks a payload r artifacts) :
    Artifact.validateReleaseId r = .ok () ∧ artifacts ≠ [] := by
  obtain ⟨-, -, object, -, hreq⟩ := h
  obtain ⟨releaseId, hr, hreq⟩ := bind_eq_ok.mp hreq
  obtain ⟨id, -, hr⟩ := bind_eq_ok.mp hr
  obtain ⟨u, hv, hr⟩ := bind_eq_ok.mp hr
  cases hr
  cases hl : Json.readArray object "artifacts" with
  | none => simp [hl] at hreq
  | some list =>
      cases list with
      | nil => simp [hl] at hreq
      | cons element rest =>
          simp only [hl] at hreq
          cases hreq
          exact ⟨by cases u; exact hv, by simp⟩

theorem versionDirectory_eq {r : String} (h : Artifact.validateReleaseId r = .ok ()) :
    a.versionDirectory r = a.versionRoot ++ [r] :=
  Path.join_of_proper (Artifact.releaseId_proper h) _

theorem touching_file {X : Path → Prop} {o : FileOp Content} (h : ∀ q, o.writes q → X q) :
    Touching X (.device (.file o)) :=
  ⟨h, id⟩

theorem uses_fetch {X : Path → Prop} {r : String} {target : Path} {element : Json}
    (hX : ∀ q, Near target q → X q) : Uses (Touching X) (fetch r target element).run := by
  refine uses_orPermanent_seq fun request hreq => ?_
  obtain ⟨installPath, sha256, key⟩ := request
  have hu := (requested_of_ok hreq).under target
  refine .seq ?_ fun downloaded => .seq ?_ fun _ => .seq (.ask ⟨fun _ hq => hq.elim, id⟩) fun _ =>
    .seq .conclude fun _ => ?_
  · unfold storeDownload
    split
    · refine .seq (.ask (touching_file fun q hq => hX q (near_of_prefixes hu hq))) fun made => ?_
      cases made <;> trivial
    · exact .ask ⟨fun q hq => hX q (near_of_prefixes hu hq), id⟩
  · cases downloaded with
    | ok _ => trivial
    | error why =>
        refine .seq (.ask ⟨fun _ hq => hq.elim, id⟩) fun present => ?_
        match present with
        | .ok false => exact uses_permanent
        | .ok true => trivial
        | .error _ => trivial
  · unfold demand
    split
    · trivial
    · exact uses_permanent

theorem uses_fetchAll {X : Path → Prop} {r : String} {target : Path}
    (hX : ∀ q, Near target q → X q) :
    ∀ {elements : List Json}, Uses (Touching X) (fetchAll r target elements).run
  | [] => trivial
  | _ :: _ => .seq (uses_fetch hX) fun _ => uses_fetchAll hX

/-- A download changes nothing but the directory it is asked for, and the
way to it. -/
theorem download_uses {X : Path → Prop} {payload : String}
    (hX : ∀ r artifacts, Asks a payload r artifacts →
      ∀ q, Near (a.versionDirectory r) q → X q) :
    Uses (Touching X) (downloadVersion a payload).run := by
  refine uses_demand_seq fun hstore => uses_demand_seq fun hroot => ?_
  refine uses_orPermanent_seq fun object hobj => uses_orPermanent_seq fun request hreq => ?_
  obtain ⟨r, artifacts⟩ := request
  have hnear := hX r artifacts ⟨hstore, by simpa using hroot, object, hobj, hreq⟩
  refine .seq (.ask (touching_file fun q hq => hnear q (.inl hq))) fun made =>
    .seq .conclude fun _ => .seq ?_ fun _ => uses_setReport
  refine .seq (.attempt (uses_fetchAll hnear)) fun ended => ?_
  cases ended with
  | ok _ => trivial
  | error e =>
      exact .seq (.ask (touching_file fun q hq => hnear q (.inr hq))) fun _ => trivial

/-! ## What the loop leaves -/

/-- The digest of a file is that of what it holds. -/
def Hashing (hash : Content → String) (h : Host) (o : Op) (c : Turn) : Prop :=
  ∀ p x, o = .device (.fileSha256 p) → h.device.fs.get p = some (.file x) → c.text = hash x

/-- What `D` says of a file and a digest holds of every digest that is
computed. -/
def Digested (A : Host → Op → Turn → Prop) (D : Content → String → Prop) : Prop :=
  ∀ h c p x, A h (.device (.fileSha256 p)) c → h.device.fs.get p = some (.file x) → D x c.text

theorem digested_hashing {hash : Content → String} :
    Digested (Hashing hash) fun x s => hash x = s :=
  fun _ _ p x hc hx => (hc p x rfl hx).symm

/-- The file an entry leads to, and the digest it lists. -/
def aim (r : String) (target : Path) (element : Json) : Option (Path × String) :=
  match artifactRequest r element with
  | .ok (installPath, sha256, _) => some (Path.join target installPath, sha256)
  | .error _ => none

/-- Every aim holds a file whose digest one of its entries lists; other files
are as they were. -/
structure Filled (D : Content → String → Prop) (aims : List (Path × String)) (w w' : World) :
    Prop where
  held : ∀ d ∈ aims.map Prod.fst, ∃ x s, w'.fs.get d = some (.file x) ∧ (d, s) ∈ aims ∧ D x s
  others : ∀ {q : Path} {y : Content}, q ∉ aims.map Prod.fst →
    (w'.fs.get q = some (.file y) ↔ w.fs.get q = some (.file y))
  dirs : ∀ {q : Path}, w.fs.isDir q = true → w'.fs.isDir q = true

theorem Filled.nil {D : Content → String → Prop} {w : World} : Filled D [] w w :=
  ⟨fun _ hd => (by cases hd), fun _ => Iff.rfl, id⟩

theorem Filled.cons {D : Content → String → Prop} {aims : List (Path × String)}
    {w w₁ w' : World} {x : Content} {d : Path} {s : String} (hs : D x s) (h : Fetched x d w w₁)
    (h' : Filled D aims w₁ w') : Filled D ((d, s) :: aims) w w' where
  held q hq := by
    by_cases hmem : q ∈ aims.map Prod.fst
    · obtain ⟨y, t, hy, ht, hd⟩ := h'.held q hmem
      exact ⟨y, t, hy, List.mem_cons_of_mem _ ht, hd⟩
    · -- no later entry leads there
      have hqd : q = d := (List.mem_cons.mp hq).resolve_right hmem
      subst hqd
      exact ⟨x, s, (h'.others hmem).mpr h.file, List.mem_cons_self, hs⟩
  others hq := by
    simp only [List.map_cons, List.mem_cons, not_or] at hq
    exact (h'.others hq.2).trans (h.others hq.1)
  dirs hq := h'.dirs (h.dirs hq)

section Loop

variable {D : Content → String → Prop} {r : String} {target : Path} {m : Memory} {h : Host}

theorem orMissing_spec {key : String} {downloaded : Except String Unit} :
    wp answer A Anywhere (orMissing key downloaded).run
      (fun res m' h' => res = .ok () → downloaded = .ok () ∧ m' = m ∧ h' = h) m h := by
  cases downloaded with
  | ok u => exact fun _ => ⟨rfl, rfl, rfl⟩
  | error why =>
      refine wp_call_seq trivial fun c _ => ?_
      generalize (answer c (.device (.inStore key)) h).1 = present
      match present with
      | .ok false => exact fun he => by cases he
      | .ok true => exact fun he => by cases he
      | .error _ => exact fun he => by cases he

/-- A turn of the loop that ended well fetched its file, and the digest is
the one listed. -/
theorem fetch_spec (hA : Digested A D) {element : Json} :
    wp answer A Anywhere (fetch r target element).run
      (fun res _ h' => res = .ok () → ∃ d x s, aim r target element = some (d, s) ∧ D x s ∧
        Fetched x d h.device h'.device) m h := by
  refine wp_orPermanent_seq (fun request hreq => ?_) fun _ _ he => by cases he
  obtain ⟨installPath, sha256, key⟩ := request
  have haim : aim r target element = some (Path.join target installPath, sha256) := by
    simp [aim, hreq]
  have hrest : ∀ (m₁ : Memory) (h₁ : Host) (x : Content),
      Fetched x (Path.join target installPath) h.device h₁.device →
      wp answer A Anywhere (do
        let hashed ← onDevice (.fileSha256 (Path.join target installPath))
        let actual ← orReturn hashed
        demand (actual = sha256)
          s!"sha256 mismatch for '{installPath}': expected {sha256}, got {actual}" : Handler).run
        (fun res _ h' => res = .ok () → ∃ d x s, aim r target element = some (d, s) ∧ D x s ∧
          Fetched x d h.device h'.device) m₁ h₁ := by
    intro m₁ h₁ x hx
    refine wp_call_seq trivial fun c hc => ?_
    have htext := hA _ _ _ _ hc hx.file
    have hfs : (answer c (.device (.fileSha256 (Path.join target installPath))) h₁).2.device.fs =
        h₁.device.fs := by
      simp only [answer, answer_fs, perform]
      split
      · rfl
      · split <;> rfl
    refine wp_orReturn_seq (fun actual hact => ?_) fun _ _ he => by cases he
    have hactual : actual = c.text := by
      simp only [answer, answer_fst, perform] at hact
      split at hact
      · cases hact
      · split at hact
        · cases hact
          rfl
        · cases hact
    unfold demand
    split
    · rename_i heq
      refine fun _ => ⟨Path.join target installPath, x, sha256, haim, ?_, hx.of_fs hfs⟩
      rw [← of_decide_eq_true heq, hactual]
      exact htext
    · exact fun he => by cases he
  refine wp_seq.mpr ?_
  unfold storeDownload
  split
  · -- a destination that names a directory
    refine wp_call_seq trivial fun c _ => ?_
    generalize (answer c (.device (.file (.createDirectories (Path.join target installPath)))) h).2
      = h₁
    cases (answer c (.device (.file (.createDirectories (Path.join target installPath)))) h).1 with
    | error why =>
        refine wp_seq_of orMissing_spec (fun _ _ _ hm => ?_) fun _ _ _ _ he => by cases he
        exact absurd (hm rfl).1 (by simp)
    | ok u =>
        refine wp_seq_of orMissing_spec (fun _ _ _ hm => ?_) fun _ _ _ _ he => by cases he
        exact absurd (hm rfl).1 (by simp)
  · refine ⟨trivial, fun c _ => ?_⟩
    refine wp_seq_of orMissing_spec (fun u m₁ h₁ hm => ?_) fun _ _ _ _ he => by cases he
    obtain ⟨hok, rfl, rfl⟩ := hm (by cases u; rfl)
    exact hrest _ _ _ (download_ok hok)

theorem fetchAll_spec (hA : Digested A D) :
    ∀ {elements : List Json} {m : Memory} {h : Host},
      wp answer A Anywhere (fetchAll r target elements).run
        (fun res _ h' => res = .ok () → ∃ aims, elements.map (aim r target) = aims.map some ∧
          Filled D aims h.device h'.device) m h
  | [], _, _ => fun _ => ⟨[], rfl, .nil⟩
  | element :: rest, m, h => by
      refine wp_seq_of (fetch_spec hA) (fun u m₁ h₁ hone => ?_) fun _ _ _ _ he => by cases he
      obtain ⟨d, x, s, haim, hs, hx⟩ := hone (by cases u; rfl)
      refine wp_conseq (fetchAll_spec hA) fun res m' h' hall hres => ?_
      obtain ⟨aims, haims, hfilled⟩ := hall hres
      exact ⟨(d, s) :: aims, by simp [haim, haims], .cons hs hx hfilled⟩

end Loop

theorem discard_spec {target : Path} {part : Handler} {m : Memory} {h : Host}
    {P : Except Failure Unit → Memory → Host → Prop} (hp : wp answer A Anywhere part.run P m h) :
    wp answer A Anywhere (discardOnFailure target part).run
      (fun res m' h' => res = .ok () → P (.ok ()) m' h') m h := by
  refine wp_seq.mpr (wp_attempt.mpr (wp_conseq hp fun ended m' h' hP => ?_))
  cases ended with
  | ok u => exact fun _ => hP
  | error e => exact ⟨trivial, fun c _ he => by cases he⟩

/-- The directory of a release holds what its payload asks for: it is there,
and `Filled` since `h`. -/
structure Downloaded (a : AgentService) (D : Content → String → Prop) (payload r : String)
    (artifacts : List Json) (aims : List (Path × String)) (h h' : Host) : Prop where
  asks : Asks a payload r artifacts
  aimed : artifacts.map (aim r (a.versionDirectory r)) = aims.map some
  there : h'.device.fs.isDir (a.versionDirectory r) = true
  filled : Filled D aims h.device h'.device

/-- A download that ended well made the directory of its release, and filled
it. -/
theorem download_spec {D : Content → String → Prop} (hA : Digested A D) {payload : String}
    {m : Memory} {h : Host} :
    wp answer A Anywhere (downloadVersion a payload).run
      (fun res _ h' => res = .ok () →
        ∃ r artifacts aims, Downloaded a D payload r artifacts aims h h') m h := by
  refine wp_demand_seq (fun hstore => ?_) fun _ he => by cases he
  refine wp_demand_seq (fun hroot => ?_) fun _ he => by cases he
  refine wp_orPermanent_seq (fun object hobj => ?_) fun _ _ he => by cases he
  refine wp_orPermanent_seq (fun request hreq => ?_) fun _ _ he => by cases he
  obtain ⟨r, artifacts⟩ := request
  refine wp_call_seq trivial fun c _ => ?_
  refine wp_orReturn_seq (fun u hmade => ?_) fun _ _ he => by cases he
  have hok : (answer c (.device (.file (.createDirectories (a.versionDirectory r)))) h).1 =
      .ok () := by
    revert hmade
    cases (answer c (.device (.file (.createDirectories (a.versionDirectory r)))) h).1 with
    | ok u => exact fun _ => rfl
    | error e => exact fun hmade => by cases hmade
  have hmk := Device.createDirectories_ok hok
  refine wp_seq_of (discard_spec (fetchAll_spec hA)) (fun u m' h' hall hres => ?_)
    fun _ _ _ _ he => by cases he
  obtain ⟨aims, haims, hfilled⟩ := hall (by cases u; rfl) rfl
  refine ⟨r, artifacts, aims, ⟨hstore, by simpa using hroot, object, hobj, hreq⟩, haims, ?_, ?_⟩
  · refine hfilled.dirs (FileTree.isDir_iff.mpr ?_)
    exact (FileTree.get_mkdirsAt hmk _).trans (if_pos List.prefix_rfl)
  · exact ⟨hfilled.held, fun hq => (hfilled.others hq).trans (FileTree.file_mkdirsAt hmk),
      fun hq => hfilled.dirs (FileTree.isDir_mkdirsAt hmk hq)⟩

end Yirang.Agent
