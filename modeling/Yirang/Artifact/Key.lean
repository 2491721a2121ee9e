/-
# `Yirang.Artifact.Key` — the names of artifacts, of any bytes

The key of an artifact is made of the id of its release and its path in it.
Both come from outside, and both ends check them: the API before it asks
for a download, and the agent before it makes the key.

    makeObjectKey        the checks of the agent, and the key
    validateObjectKey    the checks of the API, in an order of their own
    names_agree          the two take the same names
    key_contained        a key, and what is downloaded, stays below its release
-/
import Yirang.Fs.Native

namespace Yirang.Native

open Lexical

variable {r r' path path' key : Bytes} {start : Nat}

def backslash : UInt8 := byte '\\'

/-- `'text'` -/
def quoted (text : Bytes) : Bytes := ascii "'" ++ text ++ ascii "'"

/-- `text.size() >= 2 && text[1] == ':'` -/
def namesDrive (text : Bytes) : Bool := 2 ≤ text.length && text[1]? = some (byte ':')

/-! ## The agent -/

def containsSeparator (value : Bytes) : Bool := value.contains slash || value.contains backslash

/-- The loop of `has_parent_reference`, from `start`. -/
def parentReferenceFrom (path : Bytes) (start : Nat) : Bool :=
  if start ≤ path.length then
    match h : find path slash start with
    | none => substr path start none = dotDot
    | some e => substr path start (some e) = dotDot || parentReferenceFrom path (e + 1)
  else false
termination_by path.length + 1 - start
decreasing_by
  have hle := find_le h
  omega

def hasParentReference (path : Bytes) : Bool := parentReferenceFrom path 0

def validateReleaseId (releaseId : Bytes) : Except Bytes Unit :=
  if releaseId = [] then .error (ascii "release_id is required")
  else if containsSeparator releaseId then
    .error (ascii "release_id must not contain a path separator: " ++ quoted releaseId)
  else if releaseId = dot || releaseId = dotDot then
    .error (ascii "release_id must not be a path reference: " ++ quoted releaseId)
  else if namesDrive releaseId then
    .error (ascii "release_id must not be a drive path: " ++ quoted releaseId)
  else .ok ()

def makeObjectKey (releaseId installPath : Bytes) : Except Bytes Bytes :=
  match validateReleaseId releaseId with
  | .error why => .error why
  | .ok _ =>
      if installPath = [] then .error (ascii "install_path is required")
      else if installPath.contains backslash then
        .error (ascii "install_path must use '/' as separator: " ++ quoted installPath)
      else if isAbsolute installPath then
        .error (ascii "install_path must be relative: " ++ quoted installPath)
      else if namesDrive installPath then
        .error (ascii "install_path must be relative: " ++ quoted installPath)
      else if hasParentReference installPath then
        .error (ascii "install_path must not contain '..': " ++ quoted installPath)
      else .ok (ascii "releases/" ++ releaseId ++ ascii "/" ++ installPath)

/-! ## The API -/

section Api

-- `%q` of `fmt`
variable (quote : Bytes → Bytes)

/-- `artifacts[%d].install_path ...` -/
def ofArtifact (index : Nat) (what : String) : Bytes :=
  ascii "artifacts[" ++ ascii (toString index) ++ ascii "].install_path " ++ ascii what

/-- The error is the message of a bad request. -/
def validateObjectKey (releaseId installPath : Bytes) (index : Nat) : Except Bytes Unit :=
  if releaseId = [] then .error (ascii "release_id is required")
  else if releaseId.any fun c => c = slash || c = backslash then
    .error (ascii "release_id must not contain a path separator: " ++ quote releaseId)
  else if namesDrive releaseId then
    .error (ascii "release_id must not be a drive path: " ++ quote releaseId)
  else if releaseId = dot || releaseId = dotDot then
    .error (ascii "release_id must not be a path reference: " ++ quote releaseId)
  else if installPath = [] then .error (ofArtifact index "is required")
  else if installPath.contains backslash then
    .error (ofArtifact index "must use '/' as separator: " ++ quote installPath)
  else if [slash].isPrefixOf installPath || namesDrive installPath then
    .error (ofArtifact index "must be relative: " ++ quote installPath)
  else if (installPath.splitOn slash).any fun segment => segment = dotDot then
    .error (ofArtifact index "must not contain '..': " ++ quote installPath)
  else .ok ()

end Api

/-! ## What is accepted -/

theorem refuse_ok {ε α : Type} {c : Prop} [Decidable c] {e : ε} {x : Except ε α} {a : α} :
    (if c then .error e else x) = .ok a ↔ ¬ c ∧ x = .ok a := by
  split
  · exact iff_of_false (by simp) fun h => h.1 ‹_›
  · exact (and_iff_right ‹_›).symm

/-- The loop sees the pieces from `start` on. -/
theorem parentReferenceFrom_iff (h : start ≤ path.length) :
    parentReferenceFrom path start = true ↔ dotDot ∈ (path.drop start).splitOn slash := by
  induction hk : path.length - start using Nat.strongRecOn generalizing start with
  | ind k ih =>
  subst hk
  rw [parentReferenceFrom, if_pos h]
  cases hfind : find path slash start with
  | none =>
      rw [splitOn_of_find_none hfind]
      simp [eq_comm]
  | some e =>
      obtain ⟨hle, hlt⟩ := find_le hfind
      have hrest := ih (path.length - (e + 1)) (by omega) hlt rfl
      rw [splitOn_of_find_some hfind, List.mem_cons, ← hrest, Bool.or_eq_true, decide_eq_true_eq]
      exact or_congr_left eq_comm

theorem hasParentReference_iff :
    hasParentReference path = true ↔ dotDot ∈ path.splitOn slash :=
  parentReferenceFrom_iff (Nat.zero_le _)

/-- An id that a release can have. -/
structure ValidId (releaseId : Bytes) : Prop where
  nonempty : releaseId ≠ []
  slash : slash ∉ releaseId
  backslash : backslash ∉ releaseId
  name : releaseId ≠ dot ∧ releaseId ≠ dotDot
  drive : namesDrive releaseId = false

/-- A path that an artifact can have in its release. -/
structure ValidPath (installPath : Bytes) : Prop where
  nonempty : installPath ≠ []
  backslash : backslash ∉ installPath
  relative : isAbsolute installPath = false
  drive : namesDrive installPath = false
  inside : dotDot ∉ installPath.splitOn Native.slash

theorem validateReleaseId_ok : validateReleaseId r = .ok () ↔ ValidId r := by
  simp only [validateReleaseId, refuse_ok, containsSeparator, Bool.or_eq_true, not_or,
    List.contains_iff_mem, decide_eq_true_eq, Bool.not_eq_true, and_true]
  constructor
  · rintro ⟨hne, ⟨hslash, hback⟩, hname, hdrive⟩
    exact ⟨hne, hslash, hback, hname, hdrive⟩
  · rintro ⟨hne, hslash, hback, hname, hdrive⟩
    exact ⟨hne, ⟨hslash, hback⟩, hname, hdrive⟩

theorem makeObjectKey_ok :
    makeObjectKey r path = .ok key ↔ ValidId r ∧ ValidPath path ∧
      key = ascii "releases/" ++ r ++ ascii "/" ++ path := by
  unfold makeObjectKey
  cases hvalid : validateReleaseId r with
  | error why =>
      refine iff_of_false (by simp) fun h => ?_
      rw [validateReleaseId_ok.mpr h.1] at hvalid
      cases hvalid
  | ok _ =>
      rw [and_iff_right (validateReleaseId_ok.mp hvalid)]
      simp only [refuse_ok, List.contains_iff_mem, Bool.not_eq_true, Except.ok.injEq,
        hasParentReference_iff]
      constructor
      · rintro ⟨hne, hback, habs, hdrive, hinside, rfl⟩
        exact ⟨⟨hne, hback, habs, hdrive, hinside⟩, rfl⟩
      · rintro ⟨⟨hne, hback, habs, hdrive, hinside⟩, rfl⟩
        exact ⟨hne, hback, habs, hdrive, hinside, rfl⟩

theorem hasPrefix_slash : [slash].isPrefixOf path = isAbsolute path := by
  cases path with
  | nil => rfl
  | cons c path =>
      rw [Bool.eq_iff_iff, List.isPrefixOf_cons_cons, List.isPrefixOf_nil_left, Bool.and_true,
        isAbsolute, List.head?_cons, beq_iff_eq, decide_eq_true_eq, Option.some.injEq]
      exact eq_comm

theorem validateObjectKey_ok {quote : Bytes → Bytes} {index : Nat} :
    validateObjectKey quote r path index = .ok () ↔ ValidId r ∧ ValidPath path := by
  simp only [validateObjectKey, refuse_ok, List.any_eq_true, Bool.or_eq_true, decide_eq_true_eq,
    not_or, List.contains_iff_mem, Bool.not_eq_true, and_true]
  constructor
  · rintro ⟨hne, hseparator, hdrive, hname, hne', hback, ⟨habs, hdrive'⟩, hinside⟩
    refine ⟨⟨hne, ?_, ?_, hname, hdrive⟩, hne', hback, ?_, hdrive', ?_⟩
    · exact fun h => hseparator ⟨slash, h, Or.inl rfl⟩
    · exact fun h => hseparator ⟨backslash, h, Or.inr rfl⟩
    · exact hasPrefix_slash ▸ habs
    · exact fun h => hinside ⟨dotDot, h, rfl⟩
  · rintro ⟨hid, hpath⟩
    refine ⟨hid.nonempty, ?_, hid.drive, hid.name, hpath.nonempty, hpath.backslash,
      ⟨?_, hpath.drive⟩, ?_⟩
    · rintro ⟨c, hc, rfl | rfl⟩
      · exact hid.slash hc
      · exact hid.backslash hc
    · exact hasPrefix_slash.trans hpath.relative
    · rintro ⟨segment, hsegment, rfl⟩
      exact hpath.inside hsegment

/-! ## The two checks -/

/-- The API and the agent take the same names, whatever bytes they are. -/
theorem names_agree (quote : Bytes → Bytes) (index : Nat) (releaseId installPath : Bytes) :
    validateObjectKey quote releaseId installPath index = .ok () ↔
      ∃ key, makeObjectKey releaseId installPath = .ok key := by
  simp only [validateObjectKey_ok, makeObjectKey_ok]
  constructor
  · rintro ⟨hid, hpath⟩
    exact ⟨_, hid, hpath, rfl⟩
  · rintro ⟨key, hid, hpath, -⟩
    exact ⟨hid, hpath⟩

/-! ## Where a name leads -/

/-- `version_directory` -/
def versionDirectory (versionRoot releaseId : Bytes) : Bytes := append versionRoot releaseId

/-- Where `download_version` puts an artifact. -/
def destination (versionRoot releaseId installPath : Bytes) : Bytes :=
  append (versionDirectory versionRoot releaseId) installPath

/-- The id as the name of a directory. -/
def ValidId.asName (h : ValidId r) : Name := ⟨r, h.nonempty, h.name.1, h.name.2⟩

/-- An entry of the directory `d`, called `n`. -/
def IsChild (d : Normal Name) (n : Bytes) (p : Normal Name) : Prop :=
  ∃ name : Name, name.bytes = n ∧ p = d.down (d.names ++ [name])

theorem splitOn_key (h : slash ∉ r) :
    (ascii "releases/" ++ r ++ ascii "/" ++ path).splitOn slash =
      ascii "releases" :: r :: path.splitOn slash := by
  have hkey : ascii "releases/" ++ r ++ ascii "/" ++ path =
      ascii "releases" ++ slash :: (r ++ slash :: path) := by simp [ascii, slash]
  rw [hkey, List.splitOn_append_cons_self, List.splitOn_append_cons_self_of_not_mem h]
  rfl

theorem key_injective (hr : slash ∉ r) (hr' : slash ∉ r')
    (h : ascii "releases/" ++ r ++ ascii "/" ++ path = ascii "releases/" ++ r' ++ ascii "/" ++ path') :
    r = r' ∧ path = path' := by
  have hsplit := congrArg (List.splitOn slash) h
  rw [splitOn_key hr, splitOn_key hr', List.cons.injEq, List.cons.injEq] at hsplit
  obtain ⟨-, rfl, -⟩ := hsplit
  exact ⟨rfl, List.append_cancel_left h⟩

theorem ValidPath.walk (h : ValidPath path) : (Lexical.walk [] (steps path)).isSome :=
  walk_of_no_up fun hup => h.inside (up_mem_steps.mp hup)

/-- A key lies under its release and goes nowhere up; different names have
different keys; and what is downloaded for a name lies at or below the
directory of its release, which is an entry of the version root. -/
theorem key_contained :
    (∀ path, hasParentReference path = true ↔ dotDot ∈ path.splitOn slash) ∧
    (∀ r path key, makeObjectKey r path = .ok key →
      ascii "releases/" ++ r ++ ascii "/" <+: key ∧ dotDot ∉ key.splitOn slash ∧
      ∀ versionRoot,
        IsChild (lexicallyNormal versionRoot) r
          (lexicallyNormal (versionDirectory versionRoot r)) ∧
        Below (lexicallyNormal (versionDirectory versionRoot r))
          (lexicallyNormal (destination versionRoot r path))) ∧
    ∀ r path r' path' key, makeObjectKey r path = .ok key → makeObjectKey r' path' = .ok key →
      r = r' ∧ path = path' := by
  refine ⟨fun _ => hasParentReference_iff, ?_, ?_⟩
  · intro r path key hkey
    obtain ⟨hid, hpath, rfl⟩ := makeObjectKey_ok.mp hkey
    refine ⟨List.prefix_append _ _, ?_, fun versionRoot => ⟨?_, ?_⟩⟩
    · rw [splitOn_key hid.slash]
      intro hmem
      rcases List.mem_cons.mp hmem with he | hmem
      · exact absurd he (by decide)
      · rcases List.mem_cons.mp hmem with he | hmem
        · exact hid.name.2 he.symm
        · exact hpath.inside hmem
    · exact ⟨hid.asName, rfl, lexicallyNormal_name hid.asName hid.slash versionRoot⟩
    · exact below_append hpath.relative hpath.walk _
  · intro r path r' path' key h h'
    obtain ⟨hid, -, rfl⟩ := makeObjectKey_ok.mp h
    obtain ⟨hid', -, hkey⟩ := makeObjectKey_ok.mp h'
    exact key_injective hid.slash hid'.slash hkey

/-- The key of one file, and where it goes on a device. -/
theorem key_contained_app :
    makeObjectKey (ascii "r1") (ascii "bin/./app") = .ok (ascii "releases/r1/bin/./app") ∧
    Below (lexicallyNormal (ascii "/srv/versions/r1"))
      (lexicallyNormal (ascii "/srv/versions/r1/bin/./app")) := by
  have hkey : makeObjectKey (ascii "r1") (ascii "bin/./app") =
      .ok (ascii "releases/r1/bin/./app") := by
    rw [makeObjectKey_ok]
    exact ⟨⟨by decide, by decide, by decide, by decide, by decide⟩,
      ⟨by decide, by decide, by decide, by decide, by decide⟩, by decide⟩
  exact ⟨hkey, ((key_contained.2.1 _ _ _ hkey).2.2 (ascii "/srv/versions")).2⟩

end Yirang.Native
