/-
# `Yirang.Agent.Cleaning` — the two roots

The agent keeps its downloads below `version_root`, and its service below
`service_root`.  Two commands work on the downloads alone: `download_version`
fills one directory, and `clean_old_version` removes them all.

Neither looks at the service.  What keeps them from it is only that the two
roots are different directories, which the configuration check and
`clean_old_version` both make sure of.  That is enough where neither root
lies inside the other, and not otherwise.

    cache_uses               both commands stay near `version_root`
    clean_can_remove         what `clean_old_version` can take with it
    cache_spares_service_iff when the service is out of reach
-/
import Yirang.Agent.Download

namespace Yirang.Agent

open Fs Effect Device

variable {a : AgentService} {A : Host → Op → Turn → Prop}

/-! ## Footprints -/

theorem uses_removeEntries {root : Path} :
    ∀ {names : List String} {k : UInt32},
      Uses (Touching (Near root)) (removeEntries root names k).run
  | [], _ => trivial
  | name :: _, _ => by
      refine .seq (.ask (touching_file fun q hq => .inr ?_)) fun _ => .seq .conclude fun _ =>
        uses_removeEntries
      exact (List.prefix_append root [name]).trans hq

theorem uses_read {X : Path → Prop} {o : FileOp Content} (ho : ∀ q, ¬ o.writes q) {ε : Type} :
    Uses (Touching X) (onFile o : Act agent Memory ε (FileOp.Res o)).run :=
  .ask ⟨fun q hq => absurd hq (ho q), id⟩

theorem clean_uses {payload : String} :
    Uses (Touching (Near a.versionRoot)) (cleanOldVersion a payload).run := by
  refine uses_demand_seq fun _ => .seq (uses_read fun _ => id) fun there => ?_
  cases there with
  | false => exact uses_setReport
  | true =>
      refine .seq ?_ fun _ => .seq (uses_read fun _ => id) fun _ => .seq .conclude fun entries => ?_
      · unfold demandApart
        split
        · trivial
        · refine .seq (.ask trivial) fun _ => .seq (.ask trivial) fun _ => ?_
          exact .ite (fun _ => trivial) fun _ => uses_permanent
      · refine .seq uses_removeEntries fun _ => ?_
        cases entries.broken with
        | none => exact uses_setReport
        | some why => trivial

theorem Asks.near {payload r : String} {artifacts : List Json} (h : Asks a payload r artifacts)
    {q : Path} (hq : Near (a.versionDirectory r) q) : Near a.versionRoot q := by
  rw [versionDirectory_eq h.request.1] at hq
  rcases hq with hq | hq
  · rcases Path.under_total hq (List.prefix_append a.versionRoot [r]) with h' | h'
    · exact .inl h'
    · exact .inr h'
  · exact .inr ((List.prefix_append _ _).trans hq)

/-- The handlers of the two commands. -/
def IsCacheHandler (a : AgentService) (handler : String → Handler) : Prop :=
  handler = cleanOldVersion a ∨ handler = downloadVersion a

theorem cache_uses {handler : String → Handler} (h : IsCacheHandler a handler)
    (payload : String) : Uses (Touching (Near a.versionRoot)) (handler payload).run := by
  rcases h with rfl | rfl
  · exact clean_uses
  · exact download_uses fun _ _ hasks _ hq => hasks.near hq

/-! ## The roots of a configuration -/

/-- The text of a root is empty, or an absolute path in its normal form. -/
def Normal (s : String) : Prop := s = "" ∨ s = (Path.join [] s).text

/-- The path lies at or below the service root, if there is one. -/
def UnderService (c : Configurations) (q : Path) : Prop :=
  c.serviceRoot ≠ "" ∧ Path.join [] c.serviceRoot <+: q

/-- Neither root lies at or below the other, or there is no `service_root`. -/
def RootsApart (c : Configurations) : Prop :=
  c.serviceRoot = "" ∨
    ¬ Path.join [] c.versionRoot <+: Path.join [] c.serviceRoot ∧
      ¬ Path.join [] c.serviceRoot <+: Path.join [] c.versionRoot

/-- The directories removed one by one are gone at the end. -/
theorem removeEntries_can {root : Path} :
    ∀ {names : List String} {k : UInt32} {m : Memory} {h : Host},
      can answer (fun _ _ _ => True) (removeEntries root names k).run
        (fun res _ h' => (∃ n, res = .ok n) ∧
          ∀ q, h.device.fs.get q = none ∨ (∃ n ∈ names, root ++ [n] <+: q) →
            h'.device.fs.get q = none) m h
  | [], k, m, h => ⟨⟨k, rfl⟩, fun q hq => hq.elim id fun ⟨_, hn, _⟩ => by cases hn⟩
  | name :: rest, k, m, h => by
      refine can_call_seq {} trivial (can_orReturn_seq (x := ()) rfl ?_)
      refine can_conseq removeEntries_can fun res m' h' ⟨hok, hgone⟩ => ⟨hok, fun q hq => ?_⟩
      refine hgone q ?_
      have hget : (answer ({} : Turn) (.device (.file (.removeAll (root ++ [name])))) h).2.device.fs
          = h.device.fs.removeAll (root ++ [name]) := rfl
      rw [hget, FileTree.get_removeAll]
      rcases hq with hq | ⟨n, hn, hnq⟩
      · exact .inl (by split <;> simp [hq])
      · rcases List.mem_cons.mp hn with rfl | hn
        · exact .inl (if_pos hnq)
        · exact .inr ⟨n, hn, hnq⟩

/-- A clean that is allowed at all takes what lies below `version_root` with
it. -/
theorem clean_can_remove (payload : String) {m : Memory} {h : Host} {n : String} {q : Path}
    (hroot : a.options.versionRoot ≠ "")
    (hne : a.options.serviceRoot ≠ "" → a.versionRoot ≠ Path.join [] a.options.serviceRoot)
    (hq : a.versionRoot ++ [n] <+: q) (hthere : h.device.fs.get q ≠ none) :
    can answer (fun _ _ _ => True) (cleanOldVersion a payload).run
      (fun _ _ h' => h'.device.fs.get q = none) m h := by
  obtain ⟨rest, rfl⟩ := hq
  have hentry : h.device.fs.get (a.versionRoot ++ [n]) ≠ none :=
    FileTree.get_ne_none_of_append hthere
  have hdir : h.device.fs.isDir a.versionRoot = true :=
    FileTree.isDir_iff.mpr (h.device.fs.rooted hentry)
  refine can_demand_seq (by simpa using hroot) (can_call_seq {} trivial ?_)
  have hanswer : (answer ({} : Turn) (.device (.file (.isDirectory a.versionRoot))) h).1 = true :=
    hdir
  rw [hanswer]
  refine can_seq (can_conseq (Q := fun res _ h' => res = .ok () ∧ h'.device.fs = h.device.fs)
    ?_ ?_)
  · unfold demandApart
    split
    · exact ⟨rfl, rfl⟩
    · rename_i hs
      refine can_call_seq {} trivial (can_call_seq {} trivial ?_)
      show can _ _ (ExceptT.run (demand (some a.versionRoot ≠ some (Path.join [] _)) _)) _ _ _
      unfold demand
      rw [if_pos (by simpa using hne hs)]
      exact ⟨rfl, rfl⟩
  · rintro res m₁ h₁ ⟨rfl, hfs⟩
    refine ⟨(), rfl, can_call_seq {} trivial ?_⟩
    have hlist : (answer ({} : Turn) (.device (.file (.list a.versionRoot))) h₁).1 =
        .ok ⟨arrange [] (h.device.fs.children a.versionRoot), none⟩ := by
      show (FileOp.answer {} (.list a.versionRoot) h₁.device.fs).1 = _
      rw [hfs]
      simp [FileOp.answer, hdir, Chance.listing]
    refine can_orReturn_seq (by rw [hlist]; rfl) (can_seq (can_conseq removeEntries_can ?_))
    rintro res' m' h' ⟨⟨k, rfl⟩, hgone⟩
    refine ⟨k, rfl, hgone _ (.inr ⟨n, ?_, List.prefix_append _ _⟩)⟩
    exact mem_arrange.mpr (FileTree.mem_children.mpr hentry)

/-- A device with nothing on it but this directory. -/
def hostWith (q : Path) (hq : ProperPath q = true) : Host where
  device := .idle (FileTree.bare.mkdirs q ⟨hq, fun p _ => by
    by_cases hp : p = []
    · exact .inr (by simp [FileTree.bare, hp])
    · exact .inl (by simp [FileTree.bare, hp])⟩) ""

theorem hostWith_there {q : Path} (hq : ProperPath q = true) :
    (hostWith q hq).device.fs.get q = some .dir :=
  if_pos List.prefix_rfl

theorem roots_ne {c : Configurations} (hvalid : c.Valid) (hv : Normal c.versionRoot)
    (hs : Normal c.serviceRoot) (hne : c.serviceRoot ≠ "") :
    Path.join [] c.versionRoot ≠ Path.join [] c.serviceRoot := fun e => by
  refine hvalid.roots hne ?_
  rw [hv.resolve_left c.versionRooted, hs.resolve_left hne, e]

/-- Whatever the tree, the message and the failures, the two cache commands
leave everything under `service_root` as it is, just where neither root lies
inside the other. -/
theorem cache_spares_service_iff {c : Configurations} {codec : Codec}
    (hc : c.validateRequired = .ok ()) (hv : Normal c.versionRoot) (hs : Normal c.serviceRoot) :
    (∀ handler, IsCacheHandler (c.agentService codec) handler → ∀ payload m h out h',
        Exec answer (fun _ _ _ => True) (handler payload).run m h out h' →
        ∀ q, UnderService c q → h'.device.fs.get q = h.device.fs.get q) ↔
      RootsApart c := by
  have hvalid := Configurations.valid_of_validateRequired hc
  constructor
  · intro hspares
    by_contra hap
    simp only [RootsApart, not_or] at hap
    obtain ⟨hs', hnot⟩ := hap
    have hne := roots_ne hvalid hv hs hs'
    have hproper : ∀ s : String, ProperPath (Path.join [] s) = true := fun s =>
      Path.properPath_join s rfl
    -- a directory that a clean removes, under the service root
    have hlost : ∀ n q, ProperPath q = true → Path.join [] c.versionRoot ++ [n] <+: q →
        UnderService c q → False := by
      intro n q hq hn hu
      have hthere := hostWith_there hq
      obtain ⟨res, m', h', he, hgone⟩ := can_exec (clean_can_remove ""
        (a := c.agentService codec) (m := {}) c.versionRooted (fun _ => hne) hn
        (by rw [hthere]; simp))
      have hsame := hspares _ (.inl rfl) "" _ _ _ _ he q hu
      rw [hgone, hthere] at hsame
      cases hsame
    rw [not_and_or, not_not, not_not] at hnot
    rcases hnot with hin | hin
    · obtain ⟨rest, hrest⟩ := hin
      cases rest with
      | nil => exact hne (by simpa using hrest)
      | cons n rest =>
          refine hlost n _ (hproper c.serviceRoot) ?_ ⟨hs', List.prefix_rfl⟩
          rw [← hrest]
          exact ⟨rest, by simp⟩
    · refine hlost "x" (Path.join [] c.versionRoot ++ ["x"]) ?_ List.prefix_rfl
        ⟨hs', hin.trans (List.prefix_append _ _)⟩
      exact properPath_append.mpr ⟨hproper _, by decide⟩
  · intro hap handler hh payload m h out h' he q ⟨hs', hu⟩
    rcases hap with hs'' | ⟨hvs, hsv⟩
    · exact absurd hs'' hs'
    · refine (exec_hostWithin (cache_uses hh payload) he).files ?_
      rintro (hnear | hnear)
      · exact hsv (hu.trans hnear)
      · rcases Path.under_total hnear hu with h' | h'
        · exact hvs h'
        · exact hsv h'

/-! ## One root inside the other -/

namespace Sample

/-- The service in a directory of the downloads. -/
def nested : Configurations :=
  { configurations with
    versionRoot := "/srv"
    serviceRoot := "/srv/app"
    versionRooted := by decide }

end Sample

/-- Beside the downloads, the service is out of reach. -/
theorem cache_spares_service_apart :
    RootsApart Sample.configurations ∧
      ∀ handler, IsCacheHandler (Sample.configurations.agentService (Sample.codec [])) handler →
        ∀ payload m h out h', Exec answer (fun _ _ _ => True) (handler payload).run m h out h' →
          ∀ q, UnderService Sample.configurations q →
            h'.device.fs.get q = h.device.fs.get q := by
  have hapart : RootsApart Sample.configurations := .inr (by decide)
  exact ⟨hapart,
    (cache_spares_service_iff (by decide) (.inr (by decide)) (.inr (by decide))).mpr hapart⟩

/-- The nested service passes the check, and a clean removes it. -/
theorem clean_removes_nested_service :
    Sample.nested.validateRequired = .ok () ∧ Normal Sample.nested.versionRoot ∧
      Normal Sample.nested.serviceRoot ∧ ∃ (h : Host) (res : Except Failure Unit) (m' : Memory)
        (h' : Host), Exec answer (fun _ _ _ => True)
          (cleanOldVersion (Sample.nested.agentService (Sample.codec [])) "").run {} h
          (.done res m') h' ∧
        UnderService Sample.nested ["srv", "app"] ∧
        h.device.fs.get ["srv", "app"] = some .dir ∧ h'.device.fs.get ["srv", "app"] = none := by
  refine ⟨by decide, .inr (by decide), .inr (by decide), hostWith ["srv", "app"] (by decide), ?_⟩
  have hthere := hostWith_there (q := ["srv", "app"]) (by decide)
  obtain ⟨res, m', h', he, hgone⟩ := can_exec (clean_can_remove ""
    (a := Sample.nested.agentService (Sample.codec [])) (m := {}) (n := "app")
    (q := ["srv", "app"]) (by decide) (fun _ => by decide) (by decide) (by rw [hthere]; simp))
  exact ⟨res, m', h', he, ⟨by decide, by decide⟩, hthere, hgone⟩

end Yirang.Agent
