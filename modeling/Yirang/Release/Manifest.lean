/-
# `Yirang.Release.Manifest` — manifests as texts

A manifest is written and read by two functions that share nothing.  What is
written has sizes as unsigned numbers, and what is read has them signed, since
that is what the library makes of a small number; and the reader has checks of
its own.

    serialize, parse   the two functions
    reread             what the library makes of a value that it has written
    Readable           what passes the checks of the reader
    parse_serialize    a readable manifest is read as it was written
-/
import Yirang.Cli.Moment

namespace Yirang

open Fs Effect

/-! ## Values that are read again -/

namespace Json

/-- The first number that is not an `int64`. -/
def signedLimit : Nat := 9223372036854775808

mutual

/-- A value, written and read: a number that fits is signed. -/
def reread : Json → Json
  | .uint64 n => if n < signedLimit then .int64 n else .uint64 n
  | .array items => .array (rereadItems items)
  | .object fields => .object (rereadFields fields)
  | v => v

def rereadItems : List Json → List Json
  | [] => []
  | v :: rest => reread v :: rereadItems rest

def rereadFields : List (String × Json) → List (String × Json)
  | [] => []
  | (key, value) :: rest => (key, reread value) :: rereadFields rest

end

theorem rereadItems_eq_map (items : List Json) : rereadItems items = items.map reread := by
  induction items with
  | nil => rfl
  | cons v rest ih => rw [rereadItems, ih, List.map_cons]

end Json

/-- The library reads this value as it has written it. -/
def Codec.Rereads (codec : Codec) (v : Json) : Prop :=
  codec.parse (codec.serialize v) = .ok v.reread

namespace Release

open DeployCli

/-! ## The two functions -/

def kSha256HexLength : Nat := 64

/-- `std::isxdigit` -/
def isxdigit (c : Char) : Bool :=
  ('0' ≤ c && c ≤ '9') || ('a' ≤ c && c ≤ 'f') || ('A' ≤ c && c ≤ 'F')

def isSha256Hex (value : String) : Bool :=
  value.toList.length = kSha256HexLength && value.toList.all isxdigit

def readString (object : Json.Fields) (key : String) : Except String String :=
  match Json.readText object key with
  | none => .error s!"manifest field '{key}' is missing or not a string"
  | some s => .ok s

def ArtifactEntry.value (entry : ArtifactEntry) : Json :=
  .object
    [("install_path", .string entry.installPath), ("sha256", .string entry.sha256),
      ("size_bytes", .uint64 entry.sizeBytes.toNat)]

def Manifest.value (manifest : Manifest) : Json :=
  .object
    [("release_id", .string manifest.releaseId), ("created_at", .string manifest.createdAt),
      ("artifacts", .array (manifest.artifacts.map ArtifactEntry.value))]

def serialize (codec : Codec) (manifest : Manifest) : String := codec.serialize manifest.value

def parseArtifact (element : Json) : Except String ArtifactEntry :=
  match element.object? with
  | none => .error "manifest artifact entry is not an object"
  | some item => do
      let installPath ← readString item "install_path"
      if installPath = "" then .error "manifest artifact 'install_path' is empty"
      else do
        let sha256 ← readString item "sha256"
        if isSha256Hex sha256 then
          let sizeBytes := ((Json.readInt64 item "size_bytes").map UInt64.ofInt).getD 0
          pure { installPath, sha256, sizeBytes, sourcePath := "" }
        else .error s!"manifest artifact '{installPath}' has a malformed sha256"

def parseArtifacts : List Json → Except String (List ArtifactEntry)
  | [] => pure []
  | element :: rest => do
      let entry ← parseArtifact element
      let others ← parseArtifacts rest
      pure (entry :: others)

def parse (codec : Codec) (text : String) : Except String Manifest :=
  match codec.parse text with
  | .error what => .error s!"cannot parse manifest: {what}"
  | .ok parsed =>
      match parsed.object? with
      | none => .error "manifest root is not a JSON object"
      | some root => do
          let releaseId ← readString root "release_id"
          if releaseId = "" then .error "manifest field 'release_id' is empty"
          else do
            let createdAt ← readString root "created_at"
            match Json.readArray root "artifacts" with
            | none => .error "manifest field 'artifacts' is missing or not an array"
            | some elements => do
                let artifacts ← parseArtifacts elements
                pure { releaseId, createdAt, artifacts }

/-! ## Readable manifests -/

structure ArtifactEntry.Readable (entry : ArtifactEntry) : Prop where
  path : entry.installPath ≠ ""
  pathText : '\x00' ∉ entry.installPath.toList
  digest : isSha256Hex entry.sha256 = true
  size : entry.sizeBytes.toNat < Json.signedLimit

structure Manifest.Readable (manifest : Manifest) : Prop where
  id : manifest.releaseId ≠ ""
  idText : '\x00' ∉ manifest.releaseId.toList
  createdText : '\x00' ∉ manifest.createdAt.toList
  artifacts : ∀ e ∈ manifest.artifacts, e.Readable

/-- What is written of an entry, and of a manifest: not where its file is. -/
def ArtifactEntry.published (entry : ArtifactEntry) : ArtifactEntry :=
  { entry with sourcePath := "" }

def Manifest.published (manifest : Manifest) : Manifest :=
  { manifest with artifacts := manifest.artifacts.map ArtifactEntry.published }

theorem not_mem_of_isSha256Hex {value : String} (h : isSha256Hex value = true) :
    '\x00' ∉ value.toList := by
  intro hmem
  have hall := (Bool.and_eq_true_iff.mp h).2
  exact absurd (List.all_eq_true.mp hall _ hmem) (by decide)

theorem readString_of_lookup {object : Json.Fields} {key s : String}
    (h : object.lookup key = some (.string s)) (hnul : '\x00' ∉ s.toList) :
    readString object key = .ok s := by
  rw [readString, Json.readText_of_lookup h hnul]

/-- What was read carries no NUL. -/
theorem readString_text {object : Json.Fields} {key s : String}
    (h : readString object key = .ok s) : '\x00' ∉ s.toList := by
  unfold readString Json.readText at h
  cases hr : Json.readString object key with
  | none => rw [hr] at h; cases h
  | some raw =>
      rw [hr] at h
      cases h
      exact Json.not_mem_cString raw

theorem ofInt_toNat (n : UInt64) : UInt64.ofInt n.toNat = n := by
  have hlt := n.toNat_lt
  rw [← UInt64.toNat_inj]
  simp only [UInt64.ofInt, UInt64.toNat_ofNat']
  omega

theorem toNat_ofInt {i : Int} (h0 : 0 ≤ i) (h : i < Json.signedLimit) :
    (UInt64.ofInt i).toNat = i := by
  simp only [UInt64.ofInt, UInt64.toNat_ofNat', Json.signedLimit] at h ⊢
  omega

/-! ## What was written is read -/

theorem parseArtifact_reread {e : ArtifactEntry} (h : e.Readable) :
    parseArtifact e.value.reread = .ok e.published := by
  have hvalue : e.value.reread = .object
      [("install_path", .string e.installPath), ("sha256", .string e.sha256),
        ("size_bytes", .int64 e.sizeBytes.toNat)] := by
    simp only [ArtifactEntry.value, Json.reread, Json.rereadFields, if_pos h.size]
  rw [hvalue]
  show (readString _ "install_path" >>= _) = _
  rw [readString_of_lookup rfl h.pathText]
  show (if _ then _ else readString _ "sha256" >>= _) = _
  rw [if_neg h.path, readString_of_lookup rfl (not_mem_of_isSha256Hex h.digest)]
  show (if _ then _ else _) = _
  rw [if_pos h.digest]
  show Except.ok { e with sizeBytes := UInt64.ofInt e.sizeBytes.toNat, sourcePath := "" } = _
  rw [ofInt_toNat]
  rfl

theorem parseArtifacts_reread {es : List ArtifactEntry} (h : ∀ e ∈ es, e.Readable) :
    parseArtifacts ((es.map ArtifactEntry.value).map Json.reread) =
      .ok (es.map ArtifactEntry.published) := by
  induction es with
  | nil => rfl
  | cons e rest ih =>
      have hrest := ih fun e' he' => h e' (List.mem_cons_of_mem _ he')
      have hfirst := parseArtifact_reread (h e List.mem_cons_self)
      rw [List.map_cons, List.map_cons, parseArtifacts, hfirst, hrest]
      rfl

/-- A readable manifest is read as it was written. -/
theorem parse_serialize {codec : Codec} {manifest : Manifest} (h : manifest.Readable)
    (hread : codec.Rereads manifest.value) :
    parse codec (serialize codec manifest) = .ok manifest.published := by
  have hvalue : manifest.value.reread = .object
      [("release_id", .string manifest.releaseId), ("created_at", .string manifest.createdAt),
        ("artifacts", .array ((manifest.artifacts.map ArtifactEntry.value).map Json.reread))] := by
    simp only [Manifest.value, Json.reread, Json.rereadFields, Json.rereadItems_eq_map]
  rw [parse, serialize, hread, hvalue]
  show (readString _ "release_id" >>= _) = _
  rw [readString_of_lookup rfl h.idText]
  show (if _ then _ else readString _ "created_at" >>= _) = _
  rw [if_neg h.id, readString_of_lookup rfl h.createdText]
  show (parseArtifacts _ >>= _) = _
  rw [parseArtifacts_reread h.artifacts]
  rfl

/-! ## What was read is readable -/

/-- The size of an entry is left out, or is a number of 63 bits. -/
def Sized (item : Json.Fields) : Prop :=
  item.lookup "size_bytes" = none ∨
    ∃ i, item.lookup "size_bytes" = some (.int64 i) ∧ 0 ≤ i ∧ i < Json.signedLimit

theorem size_of_sized {item : Json.Fields} (h : Sized item) :
    (((Json.readInt64 item "size_bytes").map UInt64.ofInt).getD 0).toNat < Json.signedLimit := by
  unfold Json.readInt64
  rcases h with h | ⟨i, h, h0, hlt⟩
  · rw [h]
    decide
  · rw [h]
    have hnat := toNat_ofInt h0 hlt
    show (UInt64.ofInt i).toNat < _
    omega

theorem parseArtifact_readable {element : Json} {e : ArtifactEntry}
    (h : parseArtifact element = .ok e) (hsize : ∀ item, element = .object item → Sized item) :
    e.Readable ∧ e.published = e := by
  cases element with
  | object item =>
      obtain ⟨installPath, hpath, h⟩ := bind_eq_ok.mp h
      split at h
      · cases h
      · rename_i hne
        obtain ⟨sha256, hsha, h⟩ := bind_eq_ok.mp h
        split at h
        · rename_i hhex
          cases h
          exact ⟨⟨hne, readString_text hpath, hhex, size_of_sized (hsize item rfl)⟩, rfl⟩
        · cases h
  | _ => cases h

theorem parseArtifacts_readable :
    ∀ {elements : List Json} {es : List ArtifactEntry}, parseArtifacts elements = .ok es →
      (∀ item, Json.object item ∈ elements → Sized item) →
      ∀ e ∈ es, e.Readable ∧ e.published = e
  | [], es, h, _ => by
      cases h
      exact fun _ he => by cases he
  | element :: rest, es, h, hsize => by
      obtain ⟨first, hfirst, h⟩ := bind_eq_ok.mp h
      obtain ⟨others, hothers, h⟩ := bind_eq_ok.mp h
      cases h
      intro e he
      rcases List.mem_cons.mp he with rfl | he
      · refine parseArtifact_readable hfirst fun item hitem => hsize item ?_
        rw [hitem]
        exact List.mem_cons_self
      · exact parseArtifacts_readable hothers
          (fun item hitem => hsize item (List.mem_cons_of_mem _ hitem)) e he

/-- The sizes in a text. -/
def SizedText (codec : Codec) (text : String) : Prop :=
  ∀ root elements, codec.parse text = .ok (.object root) →
    Json.readArray root "artifacts" = some elements →
    ∀ item, Json.object item ∈ elements → Sized item

theorem parse_readable {codec : Codec} {text : String} {manifest : Manifest}
    (h : parse codec text = .ok manifest) (hsize : SizedText codec text) :
    manifest.Readable ∧ manifest.published = manifest := by
  unfold parse at h
  cases hparsed : codec.parse text with
  | error what => rw [hparsed] at h; cases h
  | ok parsed =>
      rw [hparsed] at h
      cases parsed with
      | object root =>
          obtain ⟨releaseId, hid, h⟩ := bind_eq_ok.mp h
          split at h
          · cases h
          · rename_i hne
            obtain ⟨createdAt, hcreated, h⟩ := bind_eq_ok.mp h
            split at h
            · cases h
            · rename_i elements helements
              obtain ⟨artifacts, hartifacts, h⟩ := bind_eq_ok.mp h
              cases h
              have hsized := hsize root elements hparsed helements
              have hall := parseArtifacts_readable hartifacts hsized
              refine ⟨⟨hne, readString_text hid, readString_text hcreated, ?_⟩, ?_⟩
              · exact fun e he => (hall e he).1
              have hsame : artifacts.map ArtifactEntry.published = artifacts.map id :=
                List.map_congr_left fun e he => (hall e he).2
              rw [Manifest.published, hsame, List.map_id]
      | _ => cases h

/-! ## What was built is readable -/

/-- No file is longer than a signed number can say. -/
def Measured (_ : Desk) : Op → Turn → Prop
  | .fileSize _, c => c.size.toNat < Json.signedLimit
  | _, _ => True

theorem createdAtText_readable (utc : Calendar.DateTime) : '\x00' ∉ createdAtText utc := by
  have hpadded : ∀ {w n : Nat}, '\x00' ∉ Calendar.padded w n := by
    intro w n hmem
    exact absurd (Calendar.isDigit_of_mem_padded hmem) (by decide)
  have hprinted : '\x00' ∉ Calendar.printed 4 utc.year := by
    cases utc.year with
    | ofNat n => exact hpadded
    | negSucc n =>
        intro hmem
        rcases List.mem_cons.mp hmem with hc | hmem
        · exact absurd hc (by decide)
        · exact hpadded hmem
  have hdash : '\x00' ≠ '-' := by decide
  have htee : '\x00' ≠ 'T' := by decide
  have hcolon : '\x00' ≠ ':' := by decide
  have hzulu : '\x00' ≠ 'Z' := by decide
  simp only [createdAtText, List.mem_append, List.mem_cons, hpadded, hprinted, hdash, htee, hcolon,
    hzulu, List.not_mem_nil, or_self, not_false_eq_true]

theorem filename_ne_empty {source : String} (h : Path.namesDirectory source = false) :
    filename source ≠ "" := by
  intro he
  rw [Path.namesDirectory, getLast?_splitSlash, he] at h
  cases h

theorem isSha256Hex_text (d : Digest) : isSha256Hex d.text = true := d.isSHA256

section Build

variable {sha256 : Content → Digest} {w : Desk}

theorem entry_readable {claimed : List String} {source : String}
    (hsource : '\x00' ∉ source.toList) :
    wp (handle sha256) Measured Anywhere (entry claimed source).run
      (fun r _ _ => ∀ e, r = .ok e → e.Readable) () w := by
  refine wp_seq.mpr ⟨trivial, fun c₁ _ => wp_require_seq.mpr ?_⟩
  split
  · refine wp_seq.mpr ⟨trivial, fun c₂ _ => wp_require_seq.mpr ?_⟩
    split
    · rename_i hregular
      have hfile : Path.namesDirectory source = false := by
        have hflags : (c₂.flag && !Path.namesDirectory source) = true := hregular
        simpa using (Bool.and_eq_true_iff.mp hflags).2
      refine wp_require_seq.mpr ?_
      split
      · refine wp_seq.mpr ⟨trivial, fun c₃ _ => wp_seq.mpr (wp_conclude.mpr ?_)⟩
        show andThen _ _ _ _ _ (c₃.result (sha256 c₃.content).text) () _
        unfold Turn.result
        cases c₃.fault with
        | some why => exact fun _ he => by cases he
        | none =>
            refine wp_seq.mpr ⟨trivial, fun c₄ h₄ => wp_seq.mpr (wp_conclude.mpr ?_)⟩
            show andThen _ _ _ _ _ ((c₄.result c₄.size).mapError _) () _
            unfold Turn.result
            cases c₄.fault with
            | some why => exact fun _ he => by cases he
            | none =>
                rintro e he
                cases he
                exact ⟨filename_ne_empty hfile, filename_readable hsource, isSha256Hex_text _, h₄⟩
      · exact fun _ he => by cases he
    · exact fun _ he => by cases he
  · exact fun _ he => by cases he

theorem entries_readable :
    ∀ {sources claimed : List String} {w : Desk}, (∀ s ∈ sources, '\x00' ∉ s.toList) →
      wp (handle sha256) Measured Anywhere (entries sources claimed).run
        (fun r _ _ => ∀ es, r = .ok es → ∀ e ∈ es, e.Readable) () w
  | [], _, _, _ => by
      intro es hes
      cases hes
      exact fun _ he => by cases he
  | source :: rest, claimed, w, hsources => by
      refine wp_seq_of (entry_readable (hsources source List.mem_cons_self)) ?_
        fun _ _ _ _ _ he => by cases he
      intro first _ w₁ hfirst
      have hrest : ∀ s ∈ rest, '\x00' ∉ s.toList := fun s hs =>
        hsources s (List.mem_cons_of_mem _ hs)
      refine wp_seq_of (entries_readable hrest) ?_ fun _ _ _ _ _ he => by cases he
      intro others _ w₂ hothers es hes
      cases hes
      intro e he
      rcases List.mem_cons.mp he with rfl | he
      · exact hfirst _ rfl
      · exact hothers _ rfl e he

theorem build_readable {sources : List String} {releaseId : String} {createdAt : Int}
    (hsources : ∀ s ∈ sources, '\x00' ∉ s.toList) (hid : '\x00' ∉ releaseId.toList) :
    wp (handle sha256) Measured Anywhere (build sources releaseId createdAt).run
      (fun r _ _ => ∀ manifest, r = .ok manifest → manifest.Readable) () w := by
  refine wp_require_seq.mpr ?_
  split
  · rename_i hne
    refine wp_require_seq.mpr ?_
    split
    · refine wp_seq_of (entries_readable hsources) ?_ fun _ _ _ _ _ he => by cases he
      intro es _ w₁ hes manifest hm
      cases hm
      refine ⟨by simpa using hne, hid, ?_, hes _ rfl⟩
      rw [String.toList_ofList]
      exact createdAtText_readable _
    · exact fun _ he => by cases he
  · exact fun _ he => by cases he

end Build

/-! ## Round trips -/

/-- What `build` returns is read as it was written, but for where the files
are; and what was read of any text whose sizes are small or left out is
written and read again without a change. -/
theorem manifest_round_trip (codec : Codec) :
    (∀ (sha256 : Content → Digest) (w w' : Desk) (sources : List String) (releaseId : String)
        (createdAt : Int) (manifest : Manifest),
      (∀ s ∈ sources, '\x00' ∉ s.toList) → '\x00' ∉ releaseId.toList →
      Exec (handle sha256) Measured (build sources releaseId createdAt).run () w
        (.done (.ok manifest) ()) w' →
      codec.Rereads manifest.value →
      parse codec (serialize codec manifest) = .ok manifest.published) ∧
    ∀ (text : String) (manifest : Manifest), parse codec text = .ok manifest →
      SizedText codec text → codec.Rereads manifest.value →
      parse codec (serialize codec manifest) = .ok manifest := by
  constructor
  · intro sha256 w w' sources releaseId createdAt manifest hsources hid he hread
    have hreadable := wp_done he (build_readable hsources hid) manifest rfl
    exact parse_serialize hreadable hread
  · intro text manifest hparse hsize hread
    obtain ⟨hreadable, hsame⟩ := parse_readable hparse hsize
    rw [parse_serialize hreadable hread, hsame]

namespace Sample

open Fleet.Sample (emptyDigest dictionary)

/-- The manifest of one empty file, at the beginning of 1970. -/
def manifest : Manifest where
  releaseId := "rel_1"
  createdAt := "1970-01-01T00:00:00Z"
  artifacts := [⟨"app", emptyDigest.text, 0, "build/app"⟩]

/-- A library that knows its text. -/
def library : Codec := dictionary [("manifest", manifest.value.reread)]

theorem rereads : library.Rereads manifest.value := rfl

theorem built : ∃ w', Exec (handle fun _ => emptyDigest) Measured
    (build ["build/app"] "rel_1" 0).run () {} (.done (.ok manifest) ()) w' := by
  have hsize : (0 : UInt64).toNat < Json.signedLimit := by decide
  have hadmits : (build ["build/app"] "rel_1" 0).run.Admits (handle fun _ => emptyDigest) Measured
      [{}, {}, {}, {}] () {} := ⟨trivial, trivial, trivial, hsize, trivial⟩
  exact ⟨_, exec_of_run hadmits rfl⟩

theorem sized : SizedText library "manifest" := by
  rintro root elements hparse helements item hitem
  cases hparse
  cases helements
  cases hitem with
  | head => exact Or.inr ⟨0, rfl, by decide⟩
  | tail _ h => cases h

end Sample

/-- The manifest of one file, built and read. -/
theorem manifest_round_trip_app :
    parse Sample.library (serialize Sample.library Sample.manifest) =
        .ok Sample.manifest.published ∧
      parse Sample.library (serialize Sample.library Sample.manifest.published) =
        .ok Sample.manifest.published := by
  obtain ⟨w', hbuilt⟩ := Sample.built
  constructor
  · exact (manifest_round_trip Sample.library).1 _ _ _ _ _ _ _ (by decide) (by decide) hbuilt
      Sample.rereads
  · exact (manifest_round_trip Sample.library).2 "manifest" _ rfl Sample.sized rfl

end Release

end Yirang
