/-
# `Yirang.Api.Decode` — what the API makes of a request

A text that another program has written is read as a value that is the same,
with the members of its objects in any order.  `encoding/json` finds in it
what was written, field by field.

    under_of_same      what stands under the name of a field
    known_of_same      no name is unknown
    decode_of_same     a request to deploy, or for a command, whole
-/
import Yirang.Api.Model

namespace Yirang.Api

namespace Go

variable {a b : Json.Fields} {name : String} {v : Json}

theorem under_eq_of_lookup :
    ∀ {b : Json.Fields}, (b.map Prod.fst).Nodup →
      (∀ k ∈ b.map Prod.fst, foldName k = foldName name → k = name) → b.lookup name = some v →
      under b name = [v]
  | [], _, _, hl => by cases hl
  | (k, x) :: rest, hnd, hfold, hl => by
      rw [List.map_cons, List.nodup_cons] at hnd
      have hrest : ∀ k' ∈ rest.map Prod.fst, foldName k' = foldName name → k' = name :=
        fun k' hk => hfold k' (List.mem_cons_of_mem _ hk)
      by_cases hk : k = name
      · -- no later name is this one up to case
        have hnone : rest.filter (fun f => foldName f.1 = foldName name) = [] := by
          rw [List.filter_eq_nil_iff]
          intro f hf he
          have hmem : f.1 ∈ rest.map Prod.fst := List.mem_map_of_mem hf
          have hname := hrest f.1 hmem (of_decide_eq_true he)
          exact hnd.1 (hk.trans hname.symm ▸ hmem)
        subst hk
        rw [List.lookup_cons_self] at hl
        cases hl
        simp [under, hnone]
      · have hne : ¬ foldName k = foldName name := fun he => hk (hfold k List.mem_cons_self he)
        rw [List.lookup_cons, beq_eq_false_iff_ne.mpr (Ne.symm hk)] at hl
        have ih := under_eq_of_lookup hnd.2 hrest hl
        simpa [under, hne] using ih

/-- Under the name of a field stands what was written there. -/
theorem under_of_same (h : Json.sameFields a b = true) (hlen : a.length = b.length)
    (hnd : (a.map Prod.fst).Nodup)
    (hfold : ∀ k ∈ a.map Prod.fst, foldName k = foldName name → k = name)
    (hl : a.lookup name = some v) : ∃ v', under b name = [v'] ∧ Json.same v v' = true := by
  have hperm := Json.keys_perm_of_sameFields h hlen hnd
  obtain ⟨v', hv', hs⟩ := Json.lookup_of_sameFields h hl
  refine ⟨v', under_eq_of_lookup (hperm.nodup_iff.mp hnd) ?_ hv', hs⟩
  exact fun k hk => hfold k (hperm.mem_iff.mpr hk)

theorem field_of_under {α : Type} {decode : α → Json → Option α} {zero : α}
    (h : under b name = [v]) : field decode zero b name = decode zero v := by
  cases hd : decode zero v with
  | none => simp [field, h, hd]
  | some x => simp [field, h, hd]

theorem known_of_same {names : List String} (h : Json.sameFields a b = true)
    (hlen : a.length = b.length) (hnd : (a.map Prod.fst).Nodup)
    (hnames : ∀ k ∈ a.map Prod.fst, k ∈ names) : known names b = true := by
  have hperm := Json.keys_perm_of_sameFields h hlen hnd
  simp only [known, List.all_eq_true, List.any_eq_true, decide_eq_true_eq]
  intro f hf
  exact ⟨f.1, hnames _ (hperm.mem_iff.mpr (List.mem_map_of_mem hf)), rfl⟩

theorem uint64_of_same {n old : Nat} (h : Json.same (.uint64 n) v = true) :
    uint64 old v = some n := by
  cases v with
  | int64 i =>
      have hi : (n : Int) = i := by simpa [Json.same] using h
      simp [uint64, ← hi]
  | uint64 k =>
      have hk : n = k := by simpa [Json.same] using h
      simp [uint64, hk]
  | _ => simp [Json.same] at h

end Go

/-! ## Requests to deploy -/

/-- An artifact as a client writes it. -/
def Artifact.fields (a : Artifact) : Json.Fields :=
  [("install_path", .string a.installPath), ("sha256", .string a.sha256),
    ("size_bytes", .uint64 a.sizeBytes)]

/-- Fields of names that differ, also without regard to case, are found. -/
theorem found {a b : Json.Fields} (names : List String) (hkeys : a.map Prod.fst = names)
    (hnd : names.Nodup)
    (hfold : ∀ name ∈ names, ∀ k ∈ names, Go.foldName k = Go.foldName name → k = name)
    (hlen : a.length = b.length) (hsame : Json.sameFields a b = true) :
    Go.known names b = true ∧ ∀ name v, name ∈ names → a.lookup name = some v →
      ∃ v', Go.under b name = [v'] ∧ Json.same v v' = true := by
  subst hkeys
  refine ⟨Go.known_of_same hsame hlen hnd fun _ hk => hk, fun name v hname hl => ?_⟩
  exact Go.under_of_same hsame hlen hnd (hfold name hname) hl

theorem Artifact.decodeStrict_of_same {a : Artifact} {v : Json}
    (h : Json.same (.object a.fields) v = true) : Artifact.decodeStrict v = some a := by
  obtain ⟨b, rfl, hlen, hsame⟩ := Json.same_object h
  obtain ⟨hknown, hfound⟩ := found ["install_path", "sha256", "size_bytes"] rfl (by decide)
    (by decide +kernel) hlen hsame
  obtain ⟨v₁, h₁, s₁⟩ := hfound "install_path" _ (by decide) rfl
  obtain ⟨v₂, h₂, s₂⟩ := hfound "sha256" _ (by decide) rfl
  obtain ⟨v₃, h₃, s₃⟩ := hfound "size_bytes" _ (by decide) rfl
  rw [Json.same_string] at s₁ s₂
  have hdecode : decode (.object b) = some a := by
    simp only [decode, Go.field_of_under h₁, Go.field_of_under h₂, Go.field_of_under h₃, s₁, s₂,
      Go.string, Go.uint64_of_same s₃, Option.bind_eq_bind, Option.bind_some, Option.pure_def]
  exact (if_pos hknown).trans hdecode

theorem Artifact.decodeStrict_items {artifacts : List Artifact} {items : List Json}
    (h : List.Forall₂ (fun x y => Json.same x y = true)
      (artifacts.map fun a => Json.object a.fields) items) :
    items.mapM Artifact.decodeStrict = some artifacts := by
  induction artifacts generalizing items with
  | nil =>
      cases h
      rfl
  | cons a rest ih =>
      cases h with
      | cons hs hrest => simp [Artifact.decodeStrict_of_same hs, ih hrest]

/-- A request as a client writes it. -/
def DeployRequest.fields (r : DeployRequest) : Json.Fields :=
  [("release_id", .string r.releaseId), ("group", .string r.group),
    ("artifacts", .array (r.artifacts.map fun a => .object a.fields))]

/-- What was written is read. -/
theorem DeployRequest.decode_of_same {r : DeployRequest} {v : Json}
    (h : Json.same (.object r.fields) v = true) : DeployRequest.decode v = some r := by
  obtain ⟨b, rfl, hlen, hsame⟩ := Json.same_object h
  obtain ⟨hknown, hfound⟩ := found ["release_id", "group", "artifacts"] rfl (by decide)
    (by decide +kernel) hlen hsame
  obtain ⟨v₁, h₁, s₁⟩ := hfound "release_id" _ (by decide) rfl
  obtain ⟨v₂, h₂, s₂⟩ := hfound "group" _ (by decide) rfl
  obtain ⟨v₃, h₃, s₃⟩ := hfound "artifacts" _ (by decide) rfl
  obtain ⟨items, rfl, hitems⟩ := Json.same_array s₃
  rw [Json.same_string] at s₁ s₂
  refine (if_pos hknown).trans ?_
  simp only [Go.field_of_under h₁, Go.field_of_under h₂, Go.field_of_under h₃, s₁, s₂, Go.string,
    Go.slice, Artifact.decodeStrict_items hitems, Option.bind_eq_bind, Option.bind_some,
    Option.pure_def]

/-! ## Requests for a command -/

/-- The payload is kept as it stands, the last one of several. -/
def CommandRequest.decode : Json → Option CommandRequest
  | .null => some ⟨"", "", none⟩
  | .object fields =>
      if Go.known ["command", "group", "payload"] fields then do
        let command ← Go.field Go.string "" fields "command"
        let group ← Go.field Go.string "" fields "group"
        pure { command, group, payload := (Go.under fields "payload").getLast? }
      else none
  | _ => none

/-- `decodeJSON`, of a body that came as JSON. -/
def decodeCommand (codec : Codec) (body : String) : Option CommandRequest :=
  if body.utf8ByteSize > maxRequestBytes then none
  else
    match codec.parse body with
    | .ok v => CommandRequest.decode v
    | .error _ => none

/-- What was written is read, and the payload is the same. -/
theorem CommandRequest.decode_of_same {command group : String} {payload v : Json}
    (h : Json.same (.object [("command", .string command), ("group", .string group),
      ("payload", payload)]) v = true) :
    ∃ payload', CommandRequest.decode v = some ⟨command, group, some payload'⟩ ∧
      Json.same payload payload' = true := by
  obtain ⟨b, rfl, hlen, hsame⟩ := Json.same_object h
  obtain ⟨hknown, hfound⟩ := found ["command", "group", "payload"] rfl (by decide)
    (by decide +kernel) hlen hsame
  obtain ⟨v₁, h₁, s₁⟩ := hfound "command" _ (by decide) rfl
  obtain ⟨v₂, h₂, s₂⟩ := hfound "group" _ (by decide) rfl
  obtain ⟨v₃, h₃, s₃⟩ := hfound "payload" _ (by decide) rfl
  rw [Json.same_string] at s₁ s₂
  refine ⟨v₃, (if_pos hknown).trans ?_, s₃⟩
  simp only [Go.field_of_under h₁, Go.field_of_under h₂, h₃, s₁, s₂, Go.string,
    List.getLast?_singleton, Option.bind_eq_bind, Option.bind_some, Option.pure_def]

end Yirang.Api
