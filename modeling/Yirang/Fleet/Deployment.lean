/-
# `Yirang.Fleet.Deployment` — from the command line to the devices

Three programs agree on a deployment without ever speaking of it.  The
command line makes the keys and lists the digests; the API checks the list
and writes it down again; an agent makes the keys anew, and compares the
digests.  Each has its own checks and its own JSON library.

    Understands        what a library makes of a text that another has written
    accepts            the API takes what the command line asks for
    reads_command      an agent reads in the envelope what the API wrote
    deploy_agrees      same keys, same digests, and the command succeeds
-/
import Yirang.Api.Decode
import Yirang.Agent.Fetching
import Yirang.Cli.Upload
import Yirang.Fleet.Routing
import Yirang.Release.Hex

namespace Yirang

open Fs Effect Release

/-- What the reader makes of a text is the value that the writer wrote. -/
def Codec.Understands (reader writer : Codec) (text : String) : Prop :=
  ∀ v, writer.serialize v = text →
    ∃ v', reader.parse text = .ok v' ∧ Json.same v v' = true

/-! ## Texts that are read as they are -/

namespace Release

theorem Digest.isSHA256 (d : Digest) : Api.isSHA256 d.text = true := by
  have hlen : d.text.toList.length = 64 := by
    rw [Digest.text, length_toHex, Vector.length_toList]
  rw [Api.isSHA256, hlen, decide_eq_true rfl, Bool.true_and, List.all_eq_true]
  intro c hc
  have hall : ("0123456789abcdef".toList.all fun c => ('0' ≤ c && c ≤ '9') ||
      ('a' ≤ c && c ≤ 'f') || ('A' ≤ c && c ≤ 'F')) = true := by decide
  exact List.all_eq_true.mp hall c (mem_toHex hc)

theorem Digest.toLower (d : Digest) : Api.toLower d.text = d.text := by
  have hall : ("0123456789abcdef".toList.all fun c => c.toLower = c) = true := by decide
  have hmap : d.text.toList.map Char.toLower = d.text.toList.map id :=
    List.map_congr_left fun c hc => of_decide_eq_true (List.all_eq_true.mp hall c (mem_toHex hc))
  rw [Api.toLower, hmap, List.map_id, String.ofList_toList]

theorem makeReleaseId_readable (t : Int) : '\x00' ∉ (makeReleaseId t).toList := by
  rw [makeReleaseId, String.toList_ofList]
  exact not_mem_releaseIdText (by decide) (by decide) _

theorem mem_of_mem_splitSlash {c : Char} :
    ∀ {cs piece : List Char}, piece ∈ Path.splitSlash cs → c ∈ piece → c ∈ cs
  | [], piece, hp, hc => by
      rw [Path.splitSlash, List.mem_singleton] at hp
      rw [hp] at hc
      cases hc
  | d :: ds, piece, hp, hc => by
      have ih : ∀ {piece}, piece ∈ Path.splitSlash ds → c ∈ piece → c ∈ ds :=
        mem_of_mem_splitSlash
      rw [Path.splitSlash] at hp
      cases hs : Path.splitSlash ds with
      | nil =>
          rw [hs, List.mem_singleton] at hp
          rw [hp, List.mem_singleton] at hc
          exact hc ▸ List.mem_cons_self
      | cons first rest =>
          rw [hs] at hp
          simp only at hp
          split at hp
          · rcases List.mem_cons.mp hp with rfl | hp
            · cases hc
            · exact List.mem_cons_of_mem _ (ih (hs ▸ hp) hc)
          · rcases List.mem_cons.mp hp with rfl | hp
            · rcases List.mem_cons.mp hc with rfl | hc
              · exact List.mem_cons_self
              · exact List.mem_cons_of_mem _ (ih (hs ▸ List.mem_cons_self) hc)
            · exact List.mem_cons_of_mem _ (ih (hs ▸ List.mem_cons_of_mem _ hp) hc)

/-- The last piece of a path is its file name. -/
theorem getLast?_splitSlash (source : String) :
    (Path.splitSlash source.toList).getLast? = some (filename source).toList := by
  rw [filename, String.toList_ofList]
  cases hs : Path.splitSlash source.toList with
  | nil =>
      -- there is always a piece
      cases hl : source.toList with
      | nil => simp [hl, Path.splitSlash] at hs
      | cons c cs =>
          rw [hl, Path.splitSlash] at hs
          split at hs
          · cases hs
          · split at hs <;> cases hs
  | cons first rest =>
      rw [List.getLast?_cons, List.getLastD_cons, List.getLastD_eq_getLast?]

theorem filename_mem (source : String) :
    (filename source).toList ∈ Path.splitSlash source.toList :=
  List.mem_of_getLast? (getLast?_splitSlash source)

theorem filename_readable {source : String} (h : '\x00' ∉ source.toList) :
    '\x00' ∉ (filename source).toList :=
  fun hc => h (mem_of_mem_splitSlash (filename_mem source) hc)

theorem namesDirectory_filename {source : String} (h : Path.namesDirectory source = false) :
    Path.namesDirectory (filename source) = false := by
  have hpiece := Path.splitSlash_of_not_mem (Path.slash_not_mem_splitSlash (filename_mem source))
  rw [Path.namesDirectory, getLast?_splitSlash] at h
  rw [Path.namesDirectory, hpiece]
  exact h

end Release

/-! ## The API -/

namespace Api

/-- The API has no check that the command line has not. -/
theorem validateObjectKey_of_key {r path key : String} {index : Nat}
    (h : Yirang.Artifact.makeObjectKey r path = .ok key) :
    validateObjectKey r path index = .ok () := by
  obtain ⟨u, hr, h⟩ := bind_eq_ok.mp h
  obtain ⟨u', hp, -⟩ := bind_eq_ok.mp h
  unfold Yirang.Artifact.validateReleaseId at hr
  unfold Yirang.Artifact.validateInstallPath at hp
  split at hr
  · cases hr
  · split at hr
    · cases hr
    · split at hr
      · cases hr
      · split at hr
        · cases hr
        · split at hp
          · cases hp
          · split at hp
            · cases hp
            · split at hp
              · cases hp
              · split at hp
                · cases hp
                · split at hp
                  · cases hp
                  · simp_all [validateObjectKey, Yirang.Artifact.containsSeparator,
                      Yirang.Artifact.hasParentReference]

theorem normalizeArtifacts_of_keys {r : String} :
    ∀ {artifacts : List Artifact} {index : Nat},
      (∀ a ∈ artifacts, (∃ key, Yirang.Artifact.makeObjectKey r a.installPath = .ok key) ∧
        ∃ d : Digest, a.sha256 = d.text) →
      normalizeArtifacts r index artifacts = .ok artifacts
  | [], _, _ => rfl
  | a :: rest, index, h => by
      obtain ⟨⟨key, hkey⟩, d, hd⟩ := h a List.mem_cons_self
      have hrest : normalizeArtifacts r (index + 1) rest = .ok rest :=
        normalizeArtifacts_of_keys fun a' ha' => h a' (List.mem_cons_of_mem _ ha')
      have hlower : { a with sha256 := toLower a.sha256 } = a := by
        rw [hd, d.toLower, ← hd]
      rw [normalizeArtifacts, validateObjectKey_of_key hkey, hrest, hd, d.isSHA256, ← hd, hlower]
      rfl

/-- The API takes what is asked for, and writes it down as it is. -/
theorem accepts {r : String} {artifacts : List Artifact} (hne : artifacts ≠ [])
    (h : ∀ a ∈ artifacts, (∃ key, Yirang.Artifact.makeObjectKey r a.installPath = .ok key) ∧
      ∃ d : Digest, a.sha256 = d.text) :
    downloadPayload r artifacts = .ok (DownloadPayload.encode { releaseId := r, artifacts }) := by
  rw [downloadPayload, if_neg hne, normalizeArtifacts_of_keys h]
  rfl

end Api

/-! ## The agent -/

namespace Agent

/-- The value carries these files of a release, under the names that an agent
looks for. -/
def Carries (r : String) (artifacts : List Api.Artifact) (v : Json) : Prop :=
  ∃ fields items, v = .object fields ∧ fields.lookup "release_id" = some (.string r) ∧
    fields.lookup "artifacts" = some (.array items) ∧
    List.Forall₂ (fun (a : Api.Artifact) item => ∃ entry, item = Json.object entry ∧
      entry.lookup "install_path" = some (.string a.installPath) ∧
      entry.lookup "sha256" = some (.string a.sha256)) artifacts items

theorem carries_encode (p : Api.DownloadPayload) : Carries p.releaseId p.artifacts p.encode := by
  refine ⟨_, _, rfl, rfl, rfl, ?_⟩
  rw [List.forall₂_map_right_iff, List.forall₂_same]
  exact fun a _ => ⟨_, rfl, rfl, rfl⟩

theorem carries_of_same {r : String} {artifacts : List Api.Artifact} {v v' : Json}
    (h : Carries r artifacts v) (hs : Json.same v v' = true) : Carries r artifacts v' := by
  obtain ⟨fields, items, rfl, hid, harts, hitems⟩ := h
  obtain ⟨fields', rfl, -, hfields⟩ := Json.same_object hs
  obtain ⟨id, hid', hids⟩ := Json.lookup_of_sameFields hfields hid
  obtain ⟨list, hlist, hcarries⟩ := Json.lookup_of_sameFields hfields harts
  obtain ⟨items', rfl, hsame⟩ := Json.same_array hcarries
  rw [Json.same_string] at hids
  refine ⟨fields', items', rfl, hids ▸ hid', hlist, ?_⟩
  clear hid harts hfields hid' hlist hcarries hs hids
  induction hitems generalizing items' with
  | nil =>
      cases hsame
      exact .nil
  | cons hentry _ ih =>
      cases hsame with
      | cons hone hrest =>
          obtain ⟨entry, rfl, hpath, hsha⟩ := hentry
          obtain ⟨entry', rfl, -, hmembers⟩ := Json.same_object hone
          obtain ⟨p, hp, hps⟩ := Json.lookup_of_sameFields hmembers hpath
          obtain ⟨d, hd, hds⟩ := Json.lookup_of_sameFields hmembers hsha
          rw [Json.same_string] at hps hds
          exact .cons ⟨entry', rfl, hps ▸ hp, hds ▸ hd⟩ (ih _ hrest)

/-- An agent finds in an envelope what was put there, up to the NULs in it. -/
theorem reads_envelope {reader : Codec} {text command group replyQueueUrl : String}
    {payload v : Json} (hparse : reader.parse text = .ok v)
    (hsame : Json.same (.object (Api.agentMessage command payload group replyQueueUrl)) v = true)
    (hne : Json.cString command ≠ "") :
    ∃ message p, parseAgentMessage reader text = .ok message ∧
      message.command = Json.cString command ∧ message.targetGroup = Json.cString group ∧
      Json.same payload p = true ∧ message.payload = payloadText reader (some p) := by
  obtain ⟨root, rfl, hlen, hfields⟩ := Json.same_object hsame
  have hread := Json.readString_of_sameFields hfields hlen Fleet.agentMessage_nodup
  have hcommand : Json.readText root "command" = some (Json.cString command) := by
    rw [Json.readText, hread]
    rfl
  have hgroup : (Json.readText root "target_group").getD "" = Json.cString group := by
    refine Fleet.readText_getD ?_
    rw [hread]
    exact Fleet.agentMessage_group
  have hpayload : (Api.agentMessage command payload group replyQueueUrl).lookup "payload" =
    some payload := rfl
  obtain ⟨p, hp, hps⟩ := Json.lookup_of_sameFields hfields hpayload
  refine ⟨{ command := Json.cString command, payload := payloadText reader (some p),
            targetGroup := Json.cString group,
            replyQueueUrl := (Json.readText root "reply_queue_url").getD "" }, p, ?_, rfl, rfl,
    hps, rfl⟩
  unfold parseAgentMessage
  rw [hparse]
  simp only [Json.object?, hcommand, if_neg hne, hp, hgroup]

/-- An agent reads a command in an envelope as the API wrote it. -/
theorem reads_command {reader writer : Codec} {cfg : Api.Config} {command group : String}
    {payload : Json} (hu : reader.Understands writer (Api.body cfg writer command group payload))
    (hne : Json.cString command ≠ "") :
    ∃ message p, parseAgentMessage reader (Api.body cfg writer command group payload) =
        .ok message ∧
      message.command = Json.cString command ∧ message.targetGroup = Json.cString group ∧
      Json.same payload p = true ∧ message.payload = payloadText reader (some p) := by
  obtain ⟨v, hparse, hsame⟩ := hu _ rfl
  exact reads_envelope hparse hsame hne

theorem readString_of_lookup {object : Json.Fields} {key s : String}
    (h : object.lookup key = some (.string s)) (hnul : '\x00' ∉ s.toList) :
    readString object key = .ok s := by
  rw [readString, Json.readText_of_lookup h hnul]

/-- An agent finds in a payload what it carries. -/
theorem asks_of_carries {a : AgentService} {payload r : String} {artifacts : List Api.Artifact}
    {v : Json} (hstore : a.store = true) (hroot : a.options.versionRoot ≠ "")
    (hparse : a.codec.parse payload = .ok v) (h : Carries r artifacts v) (hne : artifacts ≠ [])
    (hid : '\x00' ∉ r.toList)
    (hkeys : ∀ x ∈ artifacts, Artifact.makeObjectKey r x.installPath =
        .ok (Artifact.objectKey r x.installPath) ∧
      '\x00' ∉ x.installPath.toList ∧ '\x00' ∉ x.sha256.toList) :
    ∃ items, Asks a payload r items ∧ List.Forall₂ (fun (x : Api.Artifact) item =>
      artifactRequest r item = .ok (x.installPath, x.sha256, Artifact.objectKey r x.installPath))
      artifacts items := by
  obtain ⟨fields, items, rfl, hrel, harts, hitems⟩ := h
  have hvalid : Artifact.validateReleaseId r = .ok () := by
    obtain ⟨x, hx⟩ := List.exists_mem_of_ne_nil artifacts hne
    obtain ⟨u, hu, -⟩ := bind_eq_ok.mp (hkeys x hx).1
    exact hu
  have hrequest : downloadRequest fields = .ok (r, items) := by
    have hread : validatedReleaseId fields = .ok r := by
      rw [validatedReleaseId, readString_of_lookup hrel hid]
      show Artifact.validateReleaseId r >>= _ = _
      rw [hvalid]
      rfl
    have hlist : Json.readArray fields "artifacts" = some items := by
      rw [Json.readArray, harts]
      rfl
    unfold downloadRequest
    rw [hread, hlist]
    cases hitems with
    | nil => exact absurd rfl hne
    | cons _ _ => rfl
  refine ⟨items, ⟨hstore, hroot, fields, ?_, hrequest⟩, ?_⟩
  · unfold parseObject
    rw [hparse]
    rfl
  · refine List.Forall₂.imp ?_ ((List.forall₂_and_left _ _).mpr ⟨hkeys, hitems⟩)
    rintro x item ⟨⟨hkey, hpathNul, hshaNul⟩, entry, rfl, hpath, hsha⟩
    show (readString entry "install_path" >>= fun path => readString entry "sha256" >>= _) = _
    rw [readString_of_lookup hpath hpathNul, readString_of_lookup hsha hshaNul]
    show Artifact.makeObjectKey r x.installPath >>= _ = _
    rw [hkey]
    rfl

end Agent

/-! ## The whole way -/

namespace Fleet

open DeployCli

variable {ι : Type} {files : String → Option Content} {sha256 : Content → Digest}

/-- What the API reads of the request of a manifest. -/
def deployRequest (manifest : Manifest) (group : String) : Api.DeployRequest where
  releaseId := manifest.releaseId
  group := group
  artifacts := manifest.artifacts.map fun e => ⟨e.installPath, e.sha256, e.sizeBytes.toNat⟩

theorem request_eq (manifest : Manifest) (group : String) :
    request manifest group = .object (deployRequest manifest group).fields := by
  simp only [request, deployRequest, Api.DeployRequest.fields, List.map_map]
  rfl

/-- What an agent asks for is what was put in the store from this file. -/
def Agreed (run : ι) (w : Site ι) (files : String → Option Content) (sha256 : Content → Digest)
    (r source : String) (item : Json) : Prop :=
  ∃ key x, files source = some x ∧ w.bucket key = some (run, x) ∧
    Agent.artifactRequest r item = .ok (filename source, (sha256 x).text, key)

theorem Agreed.offers {run : ι} {w : Site ι} {r source : String} {item : Json}
    {objects : String → Option Content} (h : Agreed run w files sha256 r source item)
    (hfile : Path.namesDirectory source = false)
    (hstore : ∀ key x, w.bucket key = some (run, x) → objects key = some x) :
    Agent.Offers objects (fun x => (sha256 x).text) r item := by
  obtain ⟨key, x, -, hb, hreq⟩ := h
  exact ⟨filename source, key, x, hreq, namesDirectory_filename hfile, hstore key x hb⟩

/-- The entries that the API gets pass its checks, and those of the agents. -/
theorem asked_entry {c : Commands} {run : ι} {w : Site ι} {body : String} {now : Int}
    {manifest : Manifest} (h : Asked c files sha256 run w body now manifest) {e : ArtifactEntry}
    (he : e ∈ manifest.artifacts) :
    Artifact.makeObjectKey manifest.releaseId e.installPath =
        .ok (Artifact.objectKey manifest.releaseId e.installPath) ∧
      '\x00' ∉ e.installPath.toList ∧
      ∃ x, files e.sourcePath = some x ∧ e.sha256 = (sha256 x).text ∧
        w.bucket (Artifact.objectKey manifest.releaseId e.installPath) = some (run, x) := by
  obtain ⟨hkey, x, hx, hb⟩ := h.stored e he
  have hann := h.listed.entries.announced e he
  obtain ⟨x', hx', hdigest⟩ := hann.digest
  cases hx.symm.trans hx'
  refine ⟨hkey, ?_, x, hx, hdigest, hb⟩
  have hsource : e.sourcePath ∈ c.configurations.uploadFileList := by
    rw [← h.listed.entries.sources]
    exact List.mem_map_of_mem he
  rw [hann.path]
  exact filename_readable (c.configurations.readable _ (List.mem_cons_of_mem _ hsource))

/-- An agent of the group finds in what the API publishes what was put in the
store, file by file. -/
theorem asked_agrees {c : Commands} {run : ι} {w : Site ι} {body : String} {now : Int}
    {manifest : Manifest} (h : Asked c files sha256 run w body now manifest)
    {api library : Codec} {cfg : Api.Config} {configurations : Agent.Configurations}
    {queue : Api.DeviceQueue} {request : Api.DeployRequest}
    (hr : request = deployRequest manifest c.configurations.targetGroup)
    (hq : queue ∈ cfg.queuesForGroup request.group) (hg : configurations.group = queue.group)
    {text : String}
    (ht : text = Api.body cfg api "download_version" request.group
      (Api.DownloadPayload.encode ⟨request.releaseId, request.artifacts⟩))
    (hcommand : library.Understands api text)
    (hpayload : ∀ message, Agent.parseAgentMessage library text = .ok message →
      library.Understands library message.payload) :
    ∃ message items, Agent.parseAgentMessage library text = .ok message ∧
      message.command = Agent.Commands.kDownloadVersion ∧
      (message.targetGroup = "" ∨ message.targetGroup = configurations.group) ∧
      Agent.Asks (configurations.agentService library) message.payload request.releaseId items ∧
      List.Forall₂ (Agreed run w files sha256 request.releaseId)
        c.configurations.uploadFileList items := by
  subst hr ht
  obtain ⟨message, p, hparse, hname, hgroup, hsame, htext⟩ :=
    Agent.reads_command hcommand (by decide)
  have hcarries := Agent.carries_of_same (Agent.carries_encode _) hsame
  obtain ⟨fields, _, rfl, -⟩ := hcarries
  obtain ⟨v, hv, hvs⟩ := hpayload message hparse (.object fields) htext.symm
  have hfound := Agent.carries_of_same (Agent.carries_of_same (Agent.carries_encode _) hsame) hvs
  obtain ⟨items, hasks, hitems⟩ := Agent.asks_of_carries
    (a := configurations.agentService library) rfl configurations.versionRooted hv hfound
    (by simpa [deployRequest] using h.listed.some)
    (by
      show '\x00' ∉ manifest.releaseId.toList
      rw [h.listed.id]
      exact makeReleaseId_readable _)
    (by
      intro x hx
      obtain ⟨e, he, rfl⟩ := List.mem_map.mp hx
      obtain ⟨hkey, hnul, y, -, hdigest, -⟩ := asked_entry h he
      exact ⟨hkey, hnul, by rw [hdigest]; exact (sha256 y).readable⟩)
  refine ⟨message, items, hparse, hname, ?_, hasks, ?_⟩
  · -- an agent reads its own group as the queue's is registered
    have hread : message.targetGroup = c.configurations.targetGroup := by
      rw [hgroup]
      exact Json.cString_of_not_mem (c.configurations.readable _ List.mem_cons_self)
    rw [hread, hg]
    exact (Api.Config.mem_of_mem_queuesForGroup hq).2.imp_right Eq.symm
  · have hentries : List.Forall₂ (fun (e : ArtifactEntry) item =>
        Agreed run w files sha256 manifest.releaseId e.sourcePath item) manifest.artifacts items := by
      refine List.Forall₂.imp ?_ ((List.forall₂_and_left _ _).mpr
        ⟨fun e he => he, List.forall₂_map_left_iff.mp hitems⟩)
      rintro e item ⟨he, hreq⟩
      obtain ⟨-, -, x, hx, hdigest, hb⟩ := asked_entry h he
      have hpath := (h.listed.entries.announced e he).path
      exact ⟨_, x, hx, hb, by rw [← hpath, ← hdigest]; exact hreq⟩
    rw [← h.listed.entries.sources]
    exact List.forall₂_map_left_iff.mpr hentries

/-- Of every deploy that gets as far as its request: the API takes the
request, every agent it is for makes of each file the key under which it was
put in the store and expects its digest, and carries out the command if its
store and its disk do their part. -/
theorem deploy_agrees [DecidableEq ι] {run : ι} {c : Commands} {api : Codec} {w w' : Site ι}
    {path body : String}
    (he : Exec (DeployCli.answer run) (Steady files sha256) (deploy c).run () w
      (.before () (.post path body)) w')
    (hsize : body.utf8ByteSize ≤ Api.maxRequestBytes) (hread : api.Understands c.codec body) :
    ∃ request payload, Api.decodeDeploy api body = some request ∧
      Api.downloadPayload request.releaseId request.artifacts = .ok payload ∧
      ∀ (cfg : Api.Config) (library : Codec) (text : String),
        text = Api.body cfg api "download_version" request.group payload →
        library.Understands api text →
        (∀ message, Agent.parseAgentMessage library text = .ok message →
          library.Understands library message.payload) →
        ∀ (configurations : Agent.Configurations), ∀ queue ∈ cfg.queuesForGroup request.group,
          configurations.group = queue.group →
          ∃ message items, Agent.parseAgentMessage library text = .ok message ∧
            Agent.Asks (configurations.agentService library) message.payload request.releaseId
              items ∧
            List.Forall₂ (Agreed run w' files sha256 request.releaseId)
              c.configurations.uploadFileList items ∧
            ∀ objects, (∀ key x, w'.bucket key = some (run, x) → objects key = some x) →
              ∀ m h, wp Agent.answer (Agent.Serves objects fun x => (sha256 x).text) Anywhere
                (Agent.dispatch (configurations.agentService library) text).run
                (fun r _ _ => ∃ v, r = .ok v ∧ v.succeeded = true) m h := by
  obtain ⟨now, manifest, h⟩ := wp_before he deploy_asks
  obtain ⟨v, hv, hsame⟩ := hread _ h.body.symm
  rw [request_eq] at hsame
  refine ⟨deployRequest manifest c.configurations.targetGroup, _, ?_, Api.accepts ?_ ?_, ?_⟩
  · unfold Api.decodeDeploy
    rw [if_neg (Nat.not_lt.mpr hsize), hv]
    exact Api.DeployRequest.decode_of_same hsame
  · simpa [deployRequest] using h.listed.some
  · intro a ha
    obtain ⟨e, hmem, rfl⟩ := List.mem_map.mp ha
    obtain ⟨hkey, -, x, -, hdigest, -⟩ := asked_entry h hmem
    exact ⟨⟨_, hkey⟩, sha256 x, hdigest⟩
  · intro cfg library text ht hcommand hpayload configurations queue hq hg
    obtain ⟨message, items, hparse, hname, hrouted, hasks, hagreed⟩ :=
      asked_agrees h rfl hq hg ht hcommand hpayload
    refine ⟨message, items, hparse, hasks, hagreed, fun objects hstore m host => ?_⟩
    -- each entry is of a file of the list
    have hfiles : ∀ source ∈ c.configurations.uploadFileList,
        Path.namesDirectory source = false := by
      intro source hs
      rw [← h.listed.entries.sources] at hs
      obtain ⟨e, he, rfl⟩ := List.mem_map.mp hs
      exact (h.listed.entries.announced e he).file
    have hoffers : List.Forall₂ (fun item (_ : String) =>
        Agent.Offers objects (fun x => (sha256 x).text) manifest.releaseId item ∧ True)
        items c.configurations.uploadFileList := by
      refine List.Forall₂.flip (List.Forall₂.imp ?_
        ((List.forall₂_and_left _ _).mpr ⟨hfiles, hagreed⟩))
      exact fun source item ⟨hfile, hone⟩ => ⟨hone.offers hfile hstore, trivial⟩
    refine wp_conseq (Agent.dispatch_downloads hparse hname hrouted fun m h =>
      Agent.downloadVersion_serves hasks ((List.forall₂_and_left _ _).mp hoffers).1) ?_
    rintro _ _ _ ⟨final, rfl⟩
    exact ⟨_, rfl, rfl⟩

/-! ## A small deployment -/

namespace Sample

/-- A library that knows these texts. -/
def dictionary (texts : List (String × Json)) : Codec where
  parse s :=
    match texts.lookup s with
    | some v => .ok v
    | none => .error "syntax error"
  serialize v := ((texts.find? fun t => Json.same v t.2).map Prod.fst).getD ""

theorem dictionary_understands {texts : List (String × Json)} {text : String}
    (hnd : (texts.map Prod.fst).Nodup) (hne : text ≠ "") :
    (dictionary texts).Understands (dictionary texts) text := by
  intro v hv
  simp only [dictionary] at hv ⊢
  cases hf : texts.find? fun t => Json.same v t.2 with
  | none =>
      rw [hf] at hv
      exact absurd hv.symm hne
  | some t =>
      rw [hf] at hv
      have hsame : Json.same v t.2 = true := by simpa using List.find?_some hf
      have hmem : (text, t.2) ∈ texts := by
        rw [← show t.1 = text from hv]
        exact List.mem_of_find?_eq_some hf
      have hl : texts.lookup text = some t.2 := by
        obtain ⟨before, after, rfl⟩ := List.append_of_mem hmem
        refine List.lookup_eq_some_iff.mpr ⟨before, after, rfl, fun p hp => bne_iff_ne.mpr ?_⟩
        rw [List.map_append, List.nodup_append] at hnd
        exact (hnd.2.2 p.1 (List.mem_map_of_mem hp) text (by simp)).symm
      rw [hl]
      exact ⟨t.2, rfl, hsame⟩

/-- The SHA-256 of an empty file. -/
def emptyDigest : Digest := .ofNothing

/-- One empty file, deployed at the beginning of 1970. -/
def published : Api.DownloadPayload where
  releaseId := "rel_19700101_000000"
  artifacts := [⟨"app", emptyDigest.text, 0⟩]

def texts : List (String × Json) :=
  [("request", .object (Api.DeployRequest.fields ⟨published.releaseId, "east",
      published.artifacts⟩)),
    ("command", .object (Api.agentMessage "download_version" published.encode "east" "results")),
    ("payload", published.encode)]

def client : Commands where
  configurations :=
    { controlPlaneUrl := "http://control"
      uploadFileList := ["build/app"]
      targetGroup := "east"
      s3Bucket := "bucket"
      readable := by decide }
  store := true
  codec := dictionary texts

/-- All files are empty. -/
def empty (_ : String) : Option Content := some (.text "")

def turns : List DeployCli.Turn := [{}, {}, {}, { digest := emptyDigest.text }, {}, {}]

/-- The deploy as far as its request. -/
def asked : Outcome workstation Unit (Except String Unit) × Site Unit :=
  (deploy client).run.run (DeployCli.answer ()) turns () {}

theorem client_asks : Exec (DeployCli.answer ()) (Steady empty fun _ => emptyDigest)
    (deploy client).run () {} (.before () (.post kDeployments "request")) asked.2 := by
  have hexec : Exec (DeployCli.answer ()) (Steady empty fun _ => emptyDigest) (deploy client).run
      () {} asked.1 asked.2 := exec_run ⟨trivial, trivial, trivial, fun _ => ⟨_, rfl, rfl⟩,
        trivial, rfl, trivial⟩
  have hout : asked.1 = .before () (.post kDeployments "request") := rfl
  rw [← hout]
  exact hexec

/-- An agent of the group that has no configuration file, and has not been told
where versions go. -/
def eastern : Agent.Configurations :=
  .ofFile "/opt/yirang" none fun name =>
    List.lookup name [("--device_id", "dev-1"), ("--group", "east"), ("--queue_url", "commands"),
      ("--s3_bucket", "bucket")]

example : eastern.validateRequired = .ok () ∧ eastern.versionRoot = "/opt/yirang/versions" := by
  decide

theorem command_text : Api.body Sample.api (dictionary texts) "download_version" "east"
    published.encode = "command" := rfl

theorem command_parsed : Agent.parseAgentMessage (dictionary texts) "command" =
    .ok ⟨"download_version", "payload", "east", "results"⟩ := rfl

/-- The texts of this deployment are understood. -/
theorem understood {text : String} (h : text ≠ "") :
    (dictionary texts).Understands (dictionary texts) text :=
  dictionary_understands (by decide) h

end Sample

/-- The command of the small deployment succeeds on an agent of its group. -/
theorem deploy_agrees_east : ∃ request payload,
    Api.decodeDeploy (Sample.dictionary Sample.texts) "request" = some request ∧
    Api.downloadPayload request.releaseId request.artifacts = .ok payload ∧
    ∀ objects, (∀ key x, Sample.asked.2.bucket key = some ((), x) → objects key = some x) →
      ∀ m h, wp Agent.answer (Agent.Serves objects fun _ => Sample.emptyDigest.text) Anywhere
        (Agent.dispatch (Sample.eastern.agentService (Sample.dictionary Sample.texts)) "command").run
        (fun r _ _ => ∃ v, r = .ok v ∧ v.succeeded = true) m h := by
  obtain ⟨request, payload, hr, hp, hagents⟩ := deploy_agrees Sample.client_asks (by decide)
    (Sample.understood (by decide))
  have hrequest : request = ⟨"rel_19700101_000000", "east", Sample.published.artifacts⟩ :=
    Option.some.inj (hr.symm.trans rfl)
  subst hrequest
  have hpayload : payload = Sample.published.encode := Except.ok.inj (hp.symm.trans rfl)
  subst hpayload
  refine ⟨_, _, hr, hp, ?_⟩
  have hmessage : ∀ message, Agent.parseAgentMessage (Sample.dictionary Sample.texts) "command" =
      .ok message → message.payload ≠ "" := by
    intro message hm
    cases Sample.command_parsed.symm.trans hm
    decide
  obtain ⟨_, _, -, -, -, hsucceeds⟩ := hagents Sample.api (Sample.dictionary Sample.texts)
    "command" Sample.command_text.symm (Sample.understood (by decide))
    (fun message hm => Sample.understood (hmessage message hm)) Sample.eastern _
    List.mem_cons_self rfl
  exact hsucceeds

end Fleet

end Yirang
