/-
# `Yirang.Fleet.Orders` — from what was typed to what is done

A command is typed, written as a request, read by the API, written as a
message, put in queues, taken by an agent and read again.  Three programs
with three JSON libraries have it in their hands, and none of them knows what
the operator was asked.

    Asked                what a request may send
    Reachable.posted     every copy in a queue is what its request asked for
    Means                what the words of a command are on a device
    taken_as_ordered     which commands the API takes from the command line
    ordered_is_done      a device reads the words as they were typed
    destroyed_was_confirmed
                         what a device destroys the operator has named twice
-/
import Yirang.Cli.Confirmed
import Yirang.Fleet.Deployment

namespace Yirang.Fleet

open Fs Effect DeployCli

variable {S : Setup}

/-! ## What a request sends -/

/-- The command of a request, and a payload that passed its checks. -/
def publishes : Api.Request → String → Json → Prop
  | .deploy r, command, payload =>
      command = "download_version" ∧ Api.downloadPayload r.releaseId r.artifacts = .ok payload
  | .command r, command, payload =>
      command = r.command ∧
        Api.commandPayload r.command (r.payload.getD (.object [])) = .ok payload
  | .results, _, _ => False

def Asked (S : Setup) (r : Api.Request) (o : Api.Op) : Prop :=
  ∀ url text, o = .send url text → ∃ command payload, publishes r command payload ∧
    text = Api.body S.api S.apiCodec command r.group payload

section Uses

variable {cfg : Api.Config} {codec : Codec}

theorem sends_within {T : Api.Op → Prop} {body : String} (hT : ∀ url, T (.send url body)) :
    ∀ {targets : List Api.DeviceQueue} {order : List Nat} {deliveries : List Api.Delivery},
      Uses T (Api.sends body targets order deliveries).run
  | _, [], _ => trivial
  | targets, index :: rest, deliveries => by
      rw [Api.sends]
      cases targets[index]? with
      | none => exact sends_within hT
      | some target => exact Uses.seq (Uses.ask (hT target.url)) fun _ => sends_within hT

theorem publish_within {T : Api.Op → Prop} {command group : String} {payload : Json}
    (hsend : ∀ url, T (.send url (Api.body cfg codec command group payload)))
    (horder : ∀ n, T (.interleaving n)) :
    Uses T (Api.publish cfg codec command group payload).run :=
  Uses.seq Uses.require fun _ => Uses.seq (Uses.ask (horder _)) fun _ =>
    Uses.seq (sends_within hsend) fun _ => Uses.seq Uses.require fun _ => trivial

end Uses

theorem asked_of_ne {r : Api.Request} {o : Api.Op} (h : ∀ url text, o ≠ .send url text) :
    Asked S r o := fun url text ho => absurd ho (h url text)

theorem publish_asked {r : Api.Request} {command : String} {payload : Json}
    (h : publishes r command payload) :
    Uses (Asked S r) (Api.publish S.api S.apiCodec command r.group payload).run := by
  refine publish_within ?_ fun n => asked_of_ne fun _ _ he => by cases he
  intro url url' text ho
  cases ho
  exact ⟨command, payload, h, rfl⟩

theorem answerWith_asked {α : Type} {r : Api.Request} {status : Nat} {wrap : α → Api.Response}
    {part : Api.Task α} (h : Uses (Asked S r) part.run) :
    Uses (Asked S r) (Api.answerWith status wrap part).run := by
  have hrespond : ∀ {status response}, Asked S r (.respond status response) :=
    asked_of_ne fun _ _ he => by cases he
  refine Uses.seq (Uses.attempt h) fun ended => ?_
  cases ended with
  | error e => exact Uses.seq (Uses.ask hrespond) fun _ => trivial
  | ok a => exact Uses.seq (Uses.ask hrespond) fun _ => trivial

/-- A request sends what it asks for, and nothing else. -/
theorem serve_asked (r : Api.Request) :
    Uses (Asked S r) (Api.serve S.api S.apiCodec r).run := by
  cases r with
  | deploy r =>
      refine answerWith_asked (Uses.seq_conclude fun payload hp => ?_)
      exact publish_asked (r := .deploy r) ⟨rfl, hp⟩
  | command r =>
      refine answerWith_asked (Uses.seq Uses.require fun _ => Uses.seq_conclude fun payload hp => ?_)
      exact publish_asked (r := .command r) ⟨rfl, hp⟩
  | results =>
      refine answerWith_asked (Uses.seq Uses.require fun _ => Uses.seq (Uses.orFail ?_) fun _ => ?_)
      · exact Uses.ask (asked_of_ne fun _ _ he => by cases he)
      · refine Uses.seq ?_ fun _ => trivial
        unfold Api.acknowledge
        split
        · trivial
        · exact Uses.ask (asked_of_ne fun _ _ he => by cases he)

/-! ## What is in the queues -/

/-- A copy that was published is what a request asked for. -/
def Network.PostedBy (S : Setup) (servings : List Serving) (net : Network) : Prop :=
  ∀ url copy n group, (url, copy) ∈ net.log → copy.origin = .published n group →
    ∃ serving ∈ servings, serving.number = n ∧ serving.request.group = group ∧
      Asked S serving.request (.send url copy.body)

structure Posted (S : Setup) (s : State) : Prop where
  asks : ∀ t ∈ s.requests, Uses (Asked S t.owner.request) t.rest
  log : s.net.PostedBy S (s.requests.map Thread.owner)

namespace Network.PostedBy

variable {servings servings' : List Serving} {net : Network}

theorem mono (h : net.PostedBy S servings) (hs : servings ⊆ servings') :
    net.PostedBy S servings' := by
  intro url copy n group hl ho
  obtain ⟨serving, hm, hrest⟩ := h url copy n group hl ho
  exact ⟨serving, hs hm, hrest⟩

/-- A message that no request has sent. -/
theorem put (h : net.PostedBy S servings) {url body : String} {origin : Origin}
    (ho : origin.request? = none) : (net.put url body origin).PostedBy S servings := by
  intro url' copy n group hl he
  rcases List.mem_cons.mp hl with heq | hl
  · cases heq
    cases he
    cases ho
  · exact h url' copy n group hl he

/-- A call of a request, if it asks for it. -/
theorem answered (h : net.PostedBy S servings) {serving : Serving} (hs : serving ∈ servings)
    {o : Api.Op} (ha : Asked S serving.request o) {c : Turn} :
    (answer serving c o net).2.PostedBy S servings := by
  cases o with
  | send url body =>
      rcases answer_send serving c net with he | he
      · rw [he]
        intro url' copy n group hl ho
        rcases List.mem_cons.mp hl with heq | hl
        · cases heq
          cases ho
          exact ⟨serving, hs, rfl, rfl, ha⟩
        · exact h url' copy n group hl ho
      · rw [he]
        exact h
  | receive url max wait =>
      rw [answer_receive]
      exact h
  | delete url messages => exact h
  | interleaving n => exact h
  | respond status response =>
      rcases answer_respond serving c net with he | he
      · rw [he]
        exact h
      · rw [he]
        exact h

end Network.PostedBy

namespace Posted

variable {s s' : State}

/-- What an agent does leaves the requests and the network as they are. -/
theorem member (h : Posted S s) {members : Nat → Member}
    {flight : List (Nat × String × String)} {taken : List (Nat × Copy)} :
    Posted S { s with members, flight, taken } where
  asks := h.asks
  log := h.log

theorem step (h : Posted S s) (hs : Step S s s') : Posted S s' := by
  cases hs with
  | request r =>
      refine ⟨fun t ht => ?_, ?_⟩
      · rcases List.mem_append.mp ht with ht | ht
        · exact h.asks t ht
        · rw [List.mem_singleton] at ht
          subst ht
          exact serve_asked r
      · refine h.log.mono ?_
        rw [List.map_append]
        exact List.subset_append_left _ _
  | @turn requests net ht =>
      obtain ⟨hasks, hnet⟩ := ht.used (S := fun serving => Asked S serving.request) h.asks
      refine ⟨hasks, ?_⟩
      show net.PostedBy S (requests.map Thread.owner)
      rw [ht.owners]
      rcases hnet with rfl | ⟨t, hm, o, c, ha, rfl⟩
      · exact h.log
      · exact h.log.answered (List.mem_map_of_mem hm) ha
  | arrive url body => exact ⟨h.asks, h.log.put rfl⟩
  | land _ _ _ => exact ⟨h.asks, h.log.put rfl⟩
  | lose _ _ _ => exact h.member
  | boot i _ _ _ => exact h.member
  | bootKilled i _ _ _ => exact h.member
  | handle i _ _ _ _ _ => exact h.member
  | killed i _ _ _ _ _ => exact h.member
  | exit i _ => exact h.member
  | finish i _ => exact ⟨h.asks, h.log⟩
  | device i w => exact h.member

end Posted

theorem Reachable.posted {s : State} (hr : Reachable S s) : Posted S s := by
  induction hr with
  | start hosts => exact ⟨fun _ h => (by cases h), fun _ _ _ _ h => by cases h⟩
  | step _ hs ih => exact ih.step hs

/-! ## What a device reads -/

/-- What a library reads of a payload that it has written itself. -/
theorem object_of_payload {library : Codec} {fields : Json.Fields} {p : Json} {text : String}
    (hsame : Json.same (.object fields) p = true)
    (ht : text = Agent.payloadText library (some p)) (hread : library.Understands library text) :
    ∃ object, Agent.parseObject library text = .ok object ∧
      Json.same (.object fields) (.object object) = true := by
  obtain ⟨b, rfl, -⟩ := Json.same_object hsame
  obtain ⟨v, hv, hsame'⟩ := hread (.object b) ht.symm
  obtain ⟨object, rfl, -⟩ := Json.same_object hsame'
  refine ⟨object, ?_, Json.same_trans hsame hsame'⟩
  unfold Agent.parseObject
  rw [hv]
  rfl

/-! ## What was typed -/

/-- What the words after the name of a command are in its payload. -/
def Means (session : Session) (name : String) (rest : List String) (object : Json.Fields) : Prop :=
  (name = "update_configuration" → ∃ path values values', rest.head? = some path ∧
    parseObject session.codec session.settings.configValues "--config_values" = .ok values ∧
    Agent.readString object "path" = .ok path ∧
    Json.readObject object "values" = some values' ∧
    Json.same (.object values) (.object values') = true) ∧
  (name ≠ "update_configuration" → ∀ releaseId, rest.head? = some releaseId →
    Agent.readString object "release_id" = .ok releaseId)

theorem means_of_same {session : Session} {name : String} {rest : List String}
    {payload object : Json.Fields} (hp : session.payload name rest = .ok payload)
    (hwords : ∀ word ∈ rest, '\x00' ∉ word.toList)
    (hsame : Json.same (.object payload) (.object object) = true) :
    Means session name rest object := by
  obtain ⟨object', he, -, hfields⟩ := Json.same_object hsame
  cases he
  unfold Session.payload at hp
  refine ⟨fun hname => ?_, fun hname releaseId hr => ?_⟩
  · rw [if_pos hname] at hp
    cases rest with
    | nil => cases hp
    | cons path rest =>
        dsimp only at hp
        split at hp
        · cases hp
        · obtain ⟨values, hvalues, hp⟩ := bind_eq_ok.mp hp
          cases hp
          have hpath : List.lookup "path" [("path", Json.string path), ("values", .object values)] =
              some (.string path) := rfl
          have hvalues' : List.lookup "values" [("path", Json.string path),
              ("values", .object values)] = some (.object values) := rfl
          obtain ⟨v₁, h₁, s₁⟩ := Json.lookup_of_sameFields hfields hpath
          obtain ⟨v₂, h₂, s₂⟩ := Json.lookup_of_sameFields hfields hvalues'
          rw [Json.same_string] at s₁
          subst s₁
          obtain ⟨values', rfl, -⟩ := Json.same_object s₂
          refine ⟨path, values, values', rfl, hvalues, ?_, ?_, s₂⟩
          · exact Agent.readString_of_lookup h₁ (hwords path List.mem_cons_self)
          · rw [Json.readObject, h₂]
            rfl
  · rw [if_neg hname] at hp
    cases rest with
    | nil => cases hr
    | cons word rest =>
        cases hr
        cases hp
        have hword : List.lookup "release_id" [("release_id", Json.string releaseId)] =
            some (.string releaseId) := rfl
        obtain ⟨v, hv, hs⟩ := Json.lookup_of_sameFields hfields hword
        rw [Json.same_string] at hs
        subst hs
        exact Agent.readString_of_lookup hv (hwords _ List.mem_cons_self)

/-! ## What the API takes -/

/-- The commands that the API takes from the command line. -/
def Orderable (name : String) (rest : List String) : Prop :=
  name ≠ "download_version" ∧
  (name = "apply_version" ∨ name = "rollback_version" →
    ∃ releaseId, rest.head? = some releaseId ∧ releaseId ≠ "") ∧
  (name = "update_configuration" →
    ∃ path, rest.head? = some path ∧ Api.validateConfigurationPath path = .ok ())

/-- What the API takes: the numbers among the values are such as it can hold. -/
def Taken (name : String) (rest : List String) (p : Json) : Prop :=
  Orderable name rest ∧ (name = "update_configuration" → Api.Go.fits p = true)

section Checks

variable {session : Session} {name : String} {rest : List String} {payload : Json.Fields} {p : Json}

/-- A release in a payload, or none. -/
theorem version_of_same (hname : name ≠ "update_configuration")
    (hp : session.payload name rest = .ok payload)
    (hsame : Json.same (.object payload) p = true) :
    Api.decodeVersion p = some (rest.head?.getD "") ∧
      ∃ fields, p = .object fields ∧ Api.Go.under fields "artifacts" = [] ∧
        Api.Go.field Api.Go.string "" fields "release_id" = some (rest.head?.getD "") := by
  obtain ⟨b, rfl, hlen, hfields⟩ := Json.same_object hsame
  unfold Session.payload at hp
  rw [if_neg hname] at hp
  cases rest with
  | nil =>
      cases hp
      cases b with
      | nil => exact ⟨rfl, [], rfl, rfl, rfl⟩
      | cons _ _ => cases hlen
  | cons releaseId rest =>
      cases hp
      obtain ⟨hknown, hfound⟩ := Api.found ["release_id"] rfl (by decide) (by decide +kernel)
        hlen hfields
      obtain ⟨v, hv, hs⟩ := hfound "release_id" _ (by decide) rfl
      rw [Json.same_string] at hs
      subst hs
      have hfield : Api.Go.field Api.Go.string "" b "release_id" = some releaseId :=
        Api.Go.field_of_under hv
      refine ⟨hfield, b, rfl, ?_, hfield⟩
      -- the one member has another name
      rw [Api.Go.under, List.map_eq_nil_iff, List.filter_eq_nil_iff]
      intro f hf hfold
      obtain ⟨name', hname', he⟩ := List.any_eq_true.mp (List.all_eq_true.mp hknown f hf)
      rcases List.mem_singleton.mp hname' with rfl
      have hne : Api.Go.foldName "release_id" ≠ Api.Go.foldName "artifacts" := by decide +kernel
      exact hne ((of_decide_eq_true he).symm.trans (of_decide_eq_true hfold))

theorem configuration_of_same (hp : session.payload "update_configuration" rest = .ok payload)
    (hsame : Json.same (.object payload) p = true) :
    ∃ path values, rest.head? = some path ∧
      Api.decodeConfiguration p = some (path, some (.object values)) ∧
      Api.Go.fits p = Api.Go.fits (.object values) := by
  obtain ⟨b, rfl, hlen, hfields⟩ := Json.same_object hsame
  unfold Session.payload at hp
  rw [if_pos rfl] at hp
  cases rest with
  | nil => cases hp
  | cons path rest =>
      dsimp only at hp
      split at hp
      · cases hp
      · obtain ⟨values, -, hp⟩ := bind_eq_ok.mp hp
        cases hp
        obtain ⟨hknown, hfound⟩ := Api.found ["path", "values"] rfl (by decide)
          (by decide +kernel) hlen hfields
        obtain ⟨v₁, h₁, s₁⟩ := hfound "path" _ (by decide) rfl
        obtain ⟨v₂, h₂, s₂⟩ := hfound "values" _ (by decide) rfl
        rw [Json.same_string] at s₁
        subst s₁
        obtain ⟨values', rfl, -⟩ := Json.same_object s₂
        refine ⟨path, values', rfl, ?_, ?_⟩
        · simp only [Api.decodeConfiguration, Api.Go.field_of_under h₁, h₂, Api.Go.string,
            Option.bind_eq_bind, Option.bind_some, Option.pure_def, List.getLast?_singleton]
        · -- the path is a text, so only the values can have a number
          rw [Api.Go.fits, Bool.eq_iff_iff, Api.Go.fitsFields_iff]
          constructor
          · intro h
            have hmem : Json.object values' ∈ Api.Go.under b "values" := by
              rw [h₂]
              exact List.mem_cons_self
            obtain ⟨f, hf, he⟩ := List.mem_map.mp hmem
            exact he ▸ h f (List.mem_filter.mp hf).1
          · intro h f hf
            obtain ⟨name', hname', he⟩ := List.any_eq_true.mp (List.all_eq_true.mp hknown f hf)
            have hmem : f.2 ∈ Api.Go.under b name' :=
              List.mem_map_of_mem (List.mem_filter.mpr ⟨hf, he⟩)
            rcases List.mem_pair.mp hname' with rfl | rfl
            · rw [h₁, List.mem_singleton] at hmem
              rw [hmem]
              rfl
            · rw [h₂, List.mem_singleton] at hmem
              rw [hmem]
              exact h

/-- A download is not ordered so: it has no artifacts. -/
theorem download_refused (hp : session.payload "download_version" rest = .ok payload)
    (hsame : Json.same (.object payload) p = true) (sent : Json) :
    Api.commandPayload "download_version" p ≠ .ok sent := by
  obtain ⟨-, fields, rfl, hartifacts, hid⟩ := version_of_same (by decide) hp hsame
  have hnone : Api.Go.field (Api.Go.slice Api.Artifact.decode) [] fields "artifacts" = some [] := by
    rw [Api.Go.field, hartifacts]
    rfl
  have hdecode : Api.DownloadPayload.decode (.object fields) =
      some ⟨rest.head?.getD "", []⟩ := by
    simp only [Api.DownloadPayload.decode, hid, hnone, Option.bind_eq_bind, Option.bind_some,
      Option.pure_def]
  unfold Api.commandPayload
  rw [if_pos rfl, hdecode]
  exact fun h => by cases h

/-- A version is taken if it is named. -/
theorem version_taken (hname : name = "apply_version" ∨ name = "rollback_version")
    (hp : session.payload name rest = .ok payload)
    (hsame : Json.same (.object payload) p = true) (sent : Json) :
    Api.commandPayload name p = .ok sent ↔
      sent = p ∧ ∃ releaseId, rest.head? = some releaseId ∧ releaseId ≠ "" := by
  have hdownload : name ≠ "download_version" := by rcases hname with rfl | rfl <;> decide
  have hupdate : name ≠ "update_configuration" := by rcases hname with rfl | rfl <;> decide
  have hversion : (name = "apply_version" || name = "rollback_version") = true := by
    simpa using hname
  obtain ⟨hdecode, -⟩ := version_of_same hupdate hp hsame
  unfold Api.commandPayload
  rw [if_neg hdownload, if_pos hversion, hdecode]
  cases rest with
  | nil => simp
  | cons releaseId rest =>
      by_cases hne : releaseId = ""
      · simp [hne]
      · simp [hne, eq_comm]

/-- Values are taken if the API accepts the path, and can hold the numbers. -/
theorem configuration_taken (hp : session.payload "update_configuration" rest = .ok payload)
    (hsame : Json.same (.object payload) p = true) (sent : Json) :
    Api.commandPayload "update_configuration" p = .ok sent ↔
      sent = p ∧ (∃ path, rest.head? = some path ∧
        Api.validateConfigurationPath path = .ok ()) ∧ Api.Go.fits p = true := by
  obtain ⟨path, values, hpath, hdecode, hfits⟩ := configuration_of_same hp hsame
  unfold Api.commandPayload
  rw [if_neg (by decide), if_neg (by decide), if_pos rfl, hdecode, hpath, hfits]
  constructor
  · intro h
    obtain ⟨u, hvalid, h⟩ := bind_eq_ok.mp h
    split at h
    · cases h
      exact ⟨rfl, ⟨path, rfl, hvalid⟩, ‹_›⟩
    · cases h
  · rintro ⟨rfl, ⟨path', he, hvalid⟩, hrange⟩
    cases he
    exact bind_eq_ok.mpr ⟨(), hvalid, if_pos hrange⟩

/-- The API takes what can be ordered, and passes it on as it came. -/
theorem commandPayload_iff (hp : session.payload name rest = .ok payload)
    (hsame : Json.same (.object payload) p = true) (sent : Json) :
    Api.commandPayload name p = .ok sent ↔ sent = p ∧ Taken name rest p := by
  by_cases hdownload : name = "download_version"
  · subst hdownload
    exact iff_of_false (download_refused hp hsame sent) fun h => h.2.1.1 rfl
  by_cases hversion : name = "apply_version" ∨ name = "rollback_version"
  · have hupdate : name ≠ "update_configuration" := by rcases hversion with rfl | rfl <;> decide
    rw [version_taken hversion hp hsame]
    exact and_congr_right fun _ => ⟨fun h => ⟨⟨hdownload, fun _ => h, fun hu => absurd hu hupdate⟩,
      fun hu => absurd hu hupdate⟩, fun h => h.1.2.1 hversion⟩
  by_cases hupdate : name = "update_configuration"
  · subst hupdate
    rw [configuration_taken hp hsame]
    exact and_congr_right fun _ =>
      ⟨fun h => ⟨⟨hdownload, fun hv => absurd hv hversion, fun _ => h.1⟩, fun _ => h.2⟩,
        fun h => ⟨h.1.2.2 rfl, h.2 rfl⟩⟩
  -- the other commands have no payload that is looked at
  have hno : (name = "apply_version" || name = "rollback_version") = false := by
    simpa using hversion
  unfold Api.commandPayload
  rw [if_neg hdownload, if_neg (by simp [hno]), if_neg hupdate]
  exact ⟨fun h => ⟨(by cases h; rfl), ⟨hdownload, fun hv => absurd hv hversion,
    fun hu => absurd hu hupdate⟩, fun hu => absurd hu hupdate⟩, fun h => by rw [h.1]⟩

end Checks

/-! ## Errors of the checks -/

theorem validateObjectKey_error {releaseId installPath : String} {index : Nat} {e : Api.ApiError}
    (h : Api.validateObjectKey releaseId installPath index = .error e) :
    ∃ why, e = .badRequest why := by
  unfold Api.validateObjectKey at h
  iterate 8 (split at h; · cases h; exact ⟨_, rfl⟩)
  cases h

theorem normalizeArtifacts_error {releaseId : String} {e : Api.ApiError} :
    ∀ {artifacts : List Api.Artifact} {index : Nat},
      Api.normalizeArtifacts releaseId index artifacts = .error e → ∃ why, e = .badRequest why
  | [], _, h => by cases h
  | artifact :: rest, index, h => by
      unfold Api.normalizeArtifacts at h
      cases hk : Api.validateObjectKey releaseId artifact.installPath index with
      | error e' =>
          rw [hk] at h
          cases h
          exact validateObjectKey_error hk
      | ok u =>
          rw [hk] at h
          change (if _ then _ else _) = _ at h
          split at h
          · cases hr : Api.normalizeArtifacts releaseId (index + 1) rest with
            | error e' =>
                rw [hr] at h
                cases h
                exact normalizeArtifacts_error hr
            | ok normalized =>
                rw [hr] at h
                cases h
          · cases h
            exact ⟨_, rfl⟩

/-- A payload that does not pass is a bad request. -/
theorem commandPayload_error {name : String} {p : Json} {e : Api.ApiError}
    (h : Api.commandPayload name p = .error e) : ∃ why, e = .badRequest why := by
  unfold Api.commandPayload at h
  split at h
  · split at h
    · cases h
      exact ⟨_, rfl⟩
    · rename_i download _
      unfold Api.downloadPayload at h
      split at h
      · cases h
        exact ⟨_, rfl⟩
      · cases hn : Api.normalizeArtifacts download.releaseId 0 download.artifacts with
        | error e' =>
            rw [hn] at h
            cases h
            exact normalizeArtifacts_error hn
        | ok normalized =>
            rw [hn] at h
            cases h
  · split at h
    · split at h
      · split at h
        · cases h
          exact ⟨_, rfl⟩
        · cases h
      · cases h
        exact ⟨_, rfl⟩
    · split at h
      · split at h
        · cases h
          exact ⟨_, rfl⟩
        · rename_i path values _
          cases hv : Api.validateConfigurationPath path with
          | error e' =>
              rw [hv] at h
              cases h
              unfold Api.validateConfigurationPath at hv
              iterate 4 (split at hv; · cases hv; exact ⟨_, rfl⟩)
              cases hv
          | ok u =>
              rw [hv] at h
              change (if _ then _ else _) = _ at h
              split at h
              · cases h
              · cases h
                exact ⟨_, rfl⟩
      · cases h

/-! ## The whole way -/

section Ordered

variable {codec : Codec} {invocation : Invocation} {file : ConfigFile} {interactive : Bool}
  {text : String} {events : List Event}

/-- A run of the command line that comes to a request for a command. -/
def Comes (codec : Codec) (invocation : Invocation) (file : ConfigFile) (interactive : Bool)
    (text : String) (events : List Event) : Prop :=
  Exec heard (fun _ _ _ => True) (main codec invocation file interactive).run () []
    (.before () (.work (.post kCommands text))) events

theorem agentCommands_text {name : String} (h : name ∈ agentCommands) :
    Json.cString name = name ∧ name ≠ "" := by
  have hall : ∀ name ∈ agentCommands, Json.cString name = name ∧ name ≠ "" := by decide +kernel
  exact hall name h

/-- What the API reads of the order. -/
theorem read_order {api : Codec} {words : List String} {session : Session}
    (ho : session.Ordered words text events) (hread : api.Understands session.codec text) :
    ∃ v name rest payload p, api.parse text = .ok v ∧ words = name :: rest ∧
      name ∈ agentCommands ∧
      session.payload name rest = .ok payload ∧ Json.same (.object payload) p = true ∧
      Api.CommandRequest.decode v = some ⟨name, session.settings.targetGroup, some p⟩ ∧
      (name ∈ destructiveCommands → session.Confirmed name events ∧ session.Scoped) := by
  obtain ⟨name, rest, payload, hwords, hname, hpayload, htext, hconfirmed⟩ := ho
  obtain ⟨v, hv, hsame⟩ := hread _ htext.symm
  obtain ⟨p, hdecode, hp⟩ := Api.CommandRequest.decode_of_same hsame
  exact ⟨v, name, rest, payload, p, hv, hwords, hname, hpayload, hp, hdecode, hconfirmed⟩

theorem decode_of_decodeCommand {api : Codec} {r : Api.CommandRequest}
    (h : Api.decodeCommand api text = some r) :
    ∃ v, api.parse text = .ok v ∧ Api.CommandRequest.decode v = some r := by
  unfold Api.decodeCommand at h
  split at h
  · cases h
  · split at h
    · exact ⟨_, ‹_›, h⟩
    · cases h

/-- The API reads the command that was typed, with the payload that was made of
the words after it.  If that can be taken it publishes this command with this
payload to the group that was given; else it is a bad request, and nothing is
sent. -/
theorem taken_as_ordered (cfg : Api.Config) {api : Codec}
    (hrun : Comes codec invocation file interactive text events)
    (hsize : text.utf8ByteSize ≤ Api.maxRequestBytes) (hread : api.Understands codec text) :
    ∃ name rest payload p, commandWords (positionalArguments invocation.argv) = name :: rest ∧
      (session codec invocation file interactive).payload name rest = .ok payload ∧
      Json.same (.object payload) p = true ∧
      Api.decodeCommand api text =
        some ⟨name, (settings codec invocation file).targetGroup, some p⟩ ∧
      ((Taken name rest p ∧
          Api.command cfg api ⟨name, (settings codec invocation file).targetGroup, some p⟩ =
            Api.publish cfg api name (settings codec invocation file).targetGroup p) ∨
        (¬ Taken name rest p ∧ ∃ why,
          Api.command cfg api ⟨name, (settings codec invocation file).targetGroup, some p⟩ =
            throw (.badRequest why))) := by
  obtain ⟨-, ho⟩ := main_orders hrun
  obtain ⟨v, name, rest, payload, p, hv, hwords, hname, hpayload, hp, hdecode, -⟩ :=
    read_order ho hread
  refine ⟨name, rest, payload, p, hwords, hpayload, hp, ?_, ?_⟩
  · rw [Api.decodeCommand, if_neg (Nat.not_lt.mpr hsize), hv]
    exact hdecode
  · have hsupported : Api.supportedCommands.contains name = true :=
      List.contains_iff_mem.mpr hname
    have hcommand : Api.command cfg api
        ⟨name, (settings codec invocation file).targetGroup, some p⟩ =
          (conclude (Api.commandPayload name p) >>= fun payload =>
            Api.publish cfg api name (settings codec invocation file).targetGroup payload) := by
      unfold Api.command
      rw [hsupported]
      rfl
    rw [hcommand]
    by_cases htaken : Taken name rest p
    · refine Or.inl ⟨htaken, ?_⟩
      rw [(commandPayload_iff hpayload hp p).mpr ⟨rfl, htaken⟩]
      rfl
    · refine Or.inr ⟨htaken, ?_⟩
      cases hc : Api.commandPayload name p with
      | ok sent => exact absurd ((commandPayload_iff hpayload hp sent).mp hc).2 htaken
      | error e =>
          obtain ⟨why, rfl⟩ := commandPayload_error hc
          exact ⟨why, rfl⟩

/-- What an agent took that comes from a request of the command line is the
message of the command that was typed, for the group that was given. -/
theorem ordered_copy {s : State} (hv : S.api.validate = .ok ())
    (hrun : Comes codec invocation file interactive text events)
    (hread : S.apiCodec.Understands codec text) {r : Api.CommandRequest}
    (hdecode : Api.decodeCommand S.apiCodec text = some r) (hr : Reachable S s) {n : Nat}
    (hn : ⟨n, .command r⟩ ∈ s.requests.map Thread.owner) {i : Nat} {copy : Copy} {group : String}
    (ht : (i, copy) ∈ s.taken) (ho : copy.origin = .published n group) :
    ∃ name rest payload p,
      commandWords (positionalArguments invocation.argv) = name :: rest ∧ Orderable name rest ∧
      (Json.cString name = name ∧ name ≠ "") ∧
      (session codec invocation file interactive).payload name rest = .ok payload ∧
      Json.same (.object payload) p = true ∧
      copy.body = Api.body S.api S.apiCodec name
        (settings codec invocation file).targetGroup p ∧
      (name ∈ destructiveCommands →
        (session codec invocation file interactive).Confirmed name events ∧
          (session codec invocation file interactive).Scoped) := by
  obtain ⟨v, name, rest, payload, p, hparse, hwords, hname, hpayload, hp, hread', hconfirmed⟩ :=
    read_order (main_orders hrun).2 hread
  obtain ⟨v', hparse', hr'⟩ := decode_of_decodeCommand hdecode
  cases hparse.symm.trans hparse'
  cases hread'.symm.trans hr'
  -- the request with this number is this one
  have hsound := hr.sound (Api.Config.valid_of_validate hv)
  obtain ⟨serving, hs, hnumber, -, hasked⟩ :=
    hr.posted.log _ copy n group (hr.logged.taken i copy ht) ho
  have hnd : ((s.requests.map Thread.owner).map Serving.number).Nodup := by
    rw [List.map_map]
    show (s.requests.map fun t => t.owner.number).Nodup
    rw [hsound.numbers]
    exact List.nodup_range
  cases List.inj_on_of_nodup_map hnd hs hn hnumber
  obtain ⟨command, sent, ⟨rfl, hsent⟩, hbody⟩ := hasked _ _ rfl
  obtain ⟨rfl, htaken⟩ := (commandPayload_iff hpayload hp sent).mp hsent
  exact ⟨_, rest, payload, sent, hwords, htaken.1, agentCommands_text hname, hpayload, hp, hbody,
    hconfirmed⟩

/-- The group that was given carries no NUL, and is read as it is. -/
theorem cString_targetGroup : Json.cString (settings codec invocation file).targetGroup =
    (settings codec invocation file).targetGroup :=
  Json.cString_of_not_mem ((settings codec invocation file).readable _ List.mem_cons_self)

/-- Whatever else goes on: an agent that runs a command from the command line
runs the one that was typed, reads in its payload the words that were typed
after it, and is in the group that was given. -/
theorem ordered_is_done {s : State} (hv : S.api.validate = .ok ())
    (hrun : Comes codec invocation file interactive text events)
    (hread : S.apiCodec.Understands codec text) {r : Api.CommandRequest}
    (hdecode : Api.decodeCommand S.apiCodec text = some r) (hr : Reachable S s) {n : Nat}
    (hn : ⟨n, .command r⟩ ∈ s.requests.map Thread.owner) {i : Nat} {copy : Copy} {group : String}
    (ht : (i, copy) ∈ s.taken) (ho : copy.origin = .published n group)
    {message : Agent.AgentMessage} {handler : String → Agent.Handler}
    (hreach : (S.service i).reached copy.body = some (message, handler))
    (hbody : S.agentCodec.Understands S.apiCodec copy.body)
    (hpayload : S.agentCodec.Understands S.agentCodec message.payload) :
    ∃ rest, commandWords (positionalArguments invocation.argv) = message.command :: rest ∧
      Orderable message.command rest ∧
      (∃ object, Agent.parseObject S.agentCodec message.payload = .ok object ∧
        Means (session codec invocation file interactive) message.command rest object) ∧
      ((settings codec invocation file).targetGroup ≠ "" →
        (S.agents i).group = (settings codec invocation file).targetGroup) := by
  obtain ⟨hm, hrouted⟩ := Agent.reached_routed hreach
  obtain ⟨name, rest, payload, p, hwords, horder, ⟨htext, hne⟩, htyped, hp, hsent, -⟩ :=
    ordered_copy hv hrun hread hdecode hr hn ht ho
  rw [hsent] at hm hbody
  obtain ⟨message', p', hparse, hcommand, htarget, hp', hpay⟩ :=
    Agent.reads_command hbody (htext.symm ▸ hne)
  cases hparse.symm.trans hm
  rw [htext] at hcommand
  rw [cString_targetGroup] at htarget
  subst hcommand
  obtain ⟨object, hobject, hsame⟩ :=
    object_of_payload (Json.same_trans hp hp') hpay hpayload
  refine ⟨rest, hwords, horder, ⟨object, hobject, ?_⟩, fun hgroup => ?_⟩
  · refine means_of_same htyped (fun word hw => ?_) hsame
    have hmem : word ∈ commandWords (positionalArguments invocation.argv) := by
      rw [hwords]
      exact List.mem_cons_of_mem _ hw
    exact commandWords_readable word hmem
  · rw [htarget] at hrouted
    exact (hrouted.resolve_left hgroup).symm

/-- Whatever else goes on: an agent that runs a command that destroys something
does so because the operator, in the run that ordered it, has named it a second
time, for the group that the agent is in; and without a group only where the
settings could be read. -/
theorem destroyed_was_confirmed {s : State} (hv : S.api.validate = .ok ()) (hc : S.Reads)
    (hrun : Comes codec invocation file interactive text events)
    (hread : S.apiCodec.Understands codec text) {r : Api.CommandRequest}
    (hdecode : Api.decodeCommand S.apiCodec text = some r) (hr : Reachable S s) {n : Nat}
    (hn : ⟨n, .command r⟩ ∈ s.requests.map Thread.owner) {i : Nat} {copy : Copy} {group : String}
    (ht : (i, copy) ∈ s.taken) (ho : copy.origin = .published n group)
    {message : Agent.AgentMessage} {handler : String → Agent.Handler}
    (hreach : (S.service i).reached copy.body = some (message, handler))
    (hd : message.command ∈ destructiveCommands) :
    (session codec invocation file interactive).Confirmed message.command events ∧
      ((settings codec invocation file).targetGroup = "" ∧
          (settings codec invocation file).loadWarning = none ∨
        (S.agents i).group = (settings codec invocation file).targetGroup) := by
  obtain ⟨hm, hrouted⟩ := Agent.reached_routed hreach
  obtain ⟨name, rest, payload, p, -, -, ⟨htext, -⟩, -, -, hsent, hconfirmed⟩ :=
    ordered_copy hv hrun hread hdecode hr hn ht ho
  rw [hsent] at hm
  obtain ⟨hcommand, htarget⟩ := parse_body hc hm
  rw [hcommand, htext] at hd ⊢
  obtain ⟨hnamed, hscoped⟩ := hconfirmed hd
  refine ⟨hnamed, ?_⟩
  by_cases hne : (settings codec invocation file).targetGroup = ""
  · exact Or.inl ⟨hne, hscoped.resolve_right fun h => h hne⟩
  · rw [htarget, cString_targetGroup] at hrouted
    exact Or.inr (hrouted.resolve_left hne).symm

end Ordered

/-! ## A command that is confirmed -/

namespace Sample

theorem dictionary_reads {texts : List (String × Json)} (hnd : (texts.map Prod.fst).Nodup)
    (hempty : "" ∉ texts.map Prod.fst) {v v' : Json}
    (h : (dictionary texts).parse ((dictionary texts).serialize v) = .ok v') :
    Json.same v v' = true := by
  by_cases hne : (dictionary texts).serialize v = ""
  · rw [hne] at h
    have hnone : texts.lookup "" = none := by
      rw [List.lookup_eq_none_iff]
      intro t ht
      simpa using fun he : "" = t.1 => hempty (he ▸ List.mem_map_of_mem ht)
    simp only [dictionary, hnone] at h
    cases h
  · obtain ⟨v'', hv, hsame⟩ := dictionary_understands hnd hne v rfl
    cases hv.symm.trans h
    exact hsame

def release : Json.Fields := [("release_id", .string "rel_1")]

def cleaning : Codec :=
  dictionary
    [("order", order "clean_old_version" "east" release),
      ("command", .object (Api.agentMessage "clean_old_version" (.object release) "east"
        "results")),
      ("payload", .object release)]

/-- A name that the command has no use for; and there is no file of
settings. -/
def typed : Invocation where
  argv := ["command", "clean_old_version", "rel_1", "--target_group", "east"]
  option key :=
    if key = "--target_group" then some "east"
    else if key = "--control_plane_url" then some "http://control"
    else none
  readable := by decide
  readableOption := by
    intro key value h
    split at h
    · cases h
      decide
    · split at h
      · cases h
        decide
      · cases h

/-- The operator types the name again. -/
def said : (o : Console.Op) → o.Res
  | .getline => some " clean_old_version "
  | .work .now => 0
  | .work (.exists_ _) | .work (.isRegularFile _) => true
  | .work (.fileSha256 _) => .ok ""
  | .work (.fileSize _) => .ok 0
  | .work (.upload _ _) => .ok ()
  | .work (.post _ _) | .get _ => .ok { statusCode := 202, body := "" }
  | .work (.present _ _) | .prompt _ | .showVersion | .showUsage => ()

def file : ConfigFile := .unopened "settings"

theorem comes : ∃ events, Comes cleaning typed file true "order" events :=
  ⟨_, exec_freely heard _ [said, said] () [] rfl⟩

/-- The fleet, with a library that knows the command. -/
def cleaned : Setup :=
  { setup with
    apiCodec := cleaning
    agentCodec := cleaning }

theorem cleaned_reads : cleaned.Reads :=
  fun _ _ _ _ h => read_message (dictionary_reads (by decide) (by decide) h)

theorem cleaning_understands {text : String} (h : text ≠ "") :
    cleaning.Understands cleaning text :=
  dictionary_understands (by decide) h

def clean : Api.CommandRequest := ⟨"clean_old_version", "east", some (.object release)⟩

/-- An agent of the group takes the command, and is killed before it has done
anything. -/
theorem cleaning_taken : ∃ s copy, Reachable cleaned s ∧
    ⟨0, .command clean⟩ ∈ s.requests.map Thread.owner ∧ (0, copy) ∈ s.taken ∧
    copy.origin = .published 0 "east" ∧ copy.body = "command" := by
  have h₁ := Reachable.step (.start fun _ => Agent.Sample.host)
    (.request (S := cleaned) (.command clean))
  have hserve := exec_freely (answer ⟨0, .command clean⟩)
    (Api.serve api cleaning (.command clean)).run [{}, {}, {}] () {} rfl
  have h₂ := h₁.served [] [] rfl hserve
  have hboot := exec_freely Agent.answer (cleaned.service 0).service.boot []
    (cleaned.service 0).service.fresh Agent.Sample.host rfl
  have h₃ := h₂.step (.boot 0 [] rfl ⟨hboot, rfl⟩)
  have hhandle := exec_freely Agent.answer ((cleaned.service 0).service.serve "command") []
    {} Agent.Sample.host rfl
  have h₄ := h₃.step (.killed 0 ⟨0, "command", .published 0 "east"⟩ [] rfl
    (by decide +kernel) ⟨hhandle, rfl⟩)
  exact ⟨_, _, h₄, List.mem_cons_self, List.mem_cons_self, rfl, rfl⟩

theorem cleaning_reached {copy : Copy} (hb : copy.body = "command") :
    ∃ handler, (cleaned.service 0).reached copy.body =
      some (⟨"clean_old_version", "payload", "east", "results"⟩, handler) := by
  rw [hb]
  exact ⟨_, rfl⟩

end Sample

/-- The API takes the command, with the name that it has no use for. -/
theorem taken_as_ordered_clean :
    Api.decodeCommand Sample.cleaning "order" = some Sample.clean ∧
    Api.command Sample.api Sample.cleaning Sample.clean =
      Api.publish Sample.api Sample.cleaning "clean_old_version" "east"
        (.object Sample.release) := by
  obtain ⟨events, hrun⟩ := Sample.comes
  obtain ⟨name, rest, payload, p, hwords, -, -, hdecode, htaken⟩ :=
    taken_as_ordered Sample.api hrun (by decide +kernel)
      (Sample.cleaning_understands (by decide))
  cases hwords
  have hclean : Api.decodeCommand Sample.cleaning "order" = some Sample.clean := rfl
  cases hclean.symm.trans hdecode
  rcases htaken with ⟨-, hpublish⟩ | ⟨hnot, -⟩
  · exact ⟨hdecode, hpublish⟩
  · refine absurd ⟨⟨by decide, fun h => ?_, fun h => ?_⟩, fun h => ?_⟩ hnot
    · exact absurd h (by decide)
    · exact absurd h (by decide)
    · exact absurd h (by decide)

/-- The agent reads the word that was typed. -/
theorem ordered_is_done_clean : ∃ s copy, Reachable Sample.cleaned s ∧ (0, copy) ∈ s.taken ∧
    (Sample.cleaned.agents 0).group = "east" ∧
    ∃ object, Agent.parseObject Sample.cleaning "payload" = .ok object ∧
      Agent.readString object "release_id" = .ok "rel_1" := by
  obtain ⟨events, hrun⟩ := Sample.comes
  obtain ⟨s, copy, hr, hn, ht, ho, hb⟩ := Sample.cleaning_taken
  obtain ⟨handler, hreach⟩ := Sample.cleaning_reached hb
  obtain ⟨rest, hwords, -, ⟨object, hobject, hmeans⟩, hgroup⟩ :=
    ordered_is_done rfl hrun (Sample.cleaning_understands (by decide)) (r := Sample.clean) rfl hr
      hn ht ho hreach (hb ▸ Sample.cleaning_understands (by decide))
      (Sample.cleaning_understands (by decide))
  cases hwords
  exact ⟨s, copy, hr, ht, hgroup (by decide), object, hobject, hmeans.2 (by decide) "rel_1" rfl⟩

/-- The operator has answered with the name. -/
theorem destroyed_was_confirmed_clean : ∃ s copy events, Reachable Sample.cleaned s ∧
    (0, copy) ∈ s.taken ∧
    Comes Sample.cleaning Sample.typed Sample.file true "order" events ∧
    (session Sample.cleaning Sample.typed Sample.file true).Confirmed "clean_old_version"
      events := by
  obtain ⟨events, hrun⟩ := Sample.comes
  obtain ⟨s, copy, hr, hn, ht, ho, hb⟩ := Sample.cleaning_taken
  obtain ⟨handler, hreach⟩ := Sample.cleaning_reached hb
  obtain ⟨hconfirmed, -⟩ :=
    destroyed_was_confirmed rfl Sample.cleaned_reads hrun
      (Sample.cleaning_understands (by decide)) (r := Sample.clean) rfl hr hn ht ho hreach
      (by decide)
  exact ⟨s, copy, events, hr, ht, hrun, hconfirmed⟩

end Yirang.Fleet
