/-
# `Yirang.Agent.Lasting` — what a command that succeeds leaves in the files

Three commands write no matter what was there: a download lays its files over
the directory of the release, a clean empties the directory of the downloads,
and a status only reads.  Each is a patch, and the patch is known from the
message and the store alone.

    Overlooked      calls whose failure passes for an answer
    Candid          these do not fail, and the store keeps what it has
    brings          what a payload of `download_version` lays over the files
    download_lays, clean_empties, status_reads
-/
import Yirang.Agent.Ledger
import Yirang.Fs.Patch
import Yirang.Deploy.Repeated

namespace Yirang

open Fs Effect Device

namespace Fs.FileTree

theorem dir_of_putAt {κ : Type} {t t' : FileTree κ} {p : Path} {e : Entry κ}
    (h : t.putAt p e = some t') : t.get p.dropLast = some .dir := by
  unfold putAt at h
  split at h
  · cases h
  · split at h
    · rename_i hc
      exact hc.2.1
    · cases h

end Fs.FileTree

namespace Device

/-- A download that went well: the way to the file, and the file. -/
theorem download_patched {c : Choice} {w : World} {k : String} {d : Path}
    (h : (answer c (.download k d) w).1 = .ok ()) :
    Patched ((Patch.mkdirs d.dropLast).andThen (.put d (.file c.content))) w.fs
      (answer c (.download k d) w).2.fs := by
  simp only [answer_fst, perform] at h
  cases hf : c.chance.fault with
  | some e => simp [hf] at h
  | none =>
      simp only [hf] at h
      split at h
      · rename_i t ht
        have hfs : (answer c (.download k d) w).2.fs = t := by
          simp only [answer_fs, perform, hf]
          rw [ht]
          rfl
        rw [hfs]
        cases hm : w.fs.mkdirsAt d.dropLast with
        | some made =>
            have hput : made.putAt d (.file c.content) = some t := by
              rw [← ht]
              exact congrArg (fun o : Option (FileTree Content) =>
                (o.getD w.fs).putAt d (.file c.content)) hm.symm
            exact (patched_mkdirsAt hm).trans (patched_putAt hput)
        | none =>
            -- the directory is there, so it could have been made
            have hput : w.fs.putAt d (.file c.content) = some t := by
              rw [← ht]
              exact congrArg (fun o : Option (FileTree Content) =>
                (o.getD w.fs).putAt d (.file c.content)) hm.symm
            obtain ⟨made, hmade⟩ := FileTree.mkdirsAt_of_isDir (FileTree.dir_of_putAt hput)
            rw [hm] at hmade
            cases hmade
      · cases h

end Device

namespace Agent

open Deploy Install

variable {a : AgentService} {A : Host → Op → Turn → Prop} {m : Memory} {h : Host}

theorem ok_of_mapError {ε δ α : Type} {x : Except ε α} {f : ε → δ} {b : α}
    (hx : x.mapError f = .ok b) : x = .ok b := by
  cases x with
  | ok y =>
      cases hx
      rfl
  | error e => cases hx

/-! ## Failures that pass for an answer -/

/-- A call that says that nothing is there, or that nothing is left there, when
it fails; and the path it says it of. -/
inductive Overlooked (a : AgentService) : FileOp Content → Path → Prop
  | downloads : Overlooked a (.isDirectory a.versionRoot) a.versionRoot
  | state {cfg : Deploy.Config} : a.engine = some cfg →
      Overlooked a (.exists_ cfg.installer.statePath) cfg.installer.statePath
  | releases {cfg : Deploy.Config} : a.engine = some cfg →
      Overlooked a (.isDirectory cfg.installer.releasesRoot) cfg.installer.releasesRoot
  | release {cfg : Deploy.Config} (n : String) : a.engine = some cfg →
      Overlooked a (.isDirectory (cfg.installer.releasesRoot ++ [n]))
        (cfg.installer.releasesRoot ++ [n])
  | staging {cfg : Deploy.Config} (r : String) : a.engine = some cfg →
      Overlooked a (.removeAll (cfg.installer.stagingDirectory r))
        (cfg.installer.stagingDirectory r)

/-- Where something is there, these calls do not fail; and an object of the
store is what it always is. -/
def Candid (a : AgentService) (stored : String → Content) (w : World) : Device.Op → Choice → Prop
  | .file o, c => ∀ p, Overlooked a o p → w.fs.get p ≠ none → c.chance.fault = none
  | .download key _, c => c.content = stored key
  | _, _ => True

/-- The same of the calls of the agent. -/
def Candidly (a : AgentService) (stored : String → Content) (h : Host) : Op → Turn → Prop
  | .device o, c => Candid a stored h.device o c.toChoice
  | _, _ => True

section

variable {stored : String → Content} {cfg : Deploy.Config}

theorem candid_honest (hcfg : a.engine = some cfg) : Honest cfg.installer (Candid a stored) :=
  fun _ _ hc hne => hc _ (.state hcfg) hne

theorem candid_sees (hcfg : a.engine = some cfg) : Sees cfg.installer (Candid a stored) :=
  ⟨fun _ _ hc hd => hc _ (.releases hcfg) (by rw [FileTree.isDir_iff.mp hd]; simp),
    fun n _ _ hc hd => hc _ (.release n hcfg) (by rw [FileTree.isDir_iff.mp hd]; simp)⟩

theorem candid_deletable (hcfg : a.engine = some cfg) (r : String) :
    Deletable cfg.installer r (Candid a stored) := by
  intro w c hc
  by_cases hne : w.fs.get (cfg.installer.stagingDirectory r) = none
  · exact Or.inr hne
  · exact Or.inl (hc _ (.staging r hcfg) hne)

end

/-! ## A download -/

/-- What an entry of a payload lays over the files. -/
def brings (stored : String → Content) (r : String) (target : Path) (element : Json) :
    Patch Content :=
  match artifactRequest r element with
  | .ok (installPath, _, key) =>
      (Patch.mkdirs (Path.join target installPath).dropLast).andThen
        (.put (Path.join target installPath) (.file (stored key)))
  | .error _ => .nothing

def bringsAll (stored : String → Content) (r : String) (target : Path) :
    List Json → Patch Content
  | [] => .nothing
  | element :: rest =>
      (brings stored r target element).andThen (bringsAll stored r target rest)

/-- What a download of the release `r` lays over the files. -/
def AgentService.downloads (a : AgentService) (stored : String → Content) (r : String)
    (artifacts : List Json) : Patch Content :=
  (Patch.mkdirs (a.versionDirectory r)).andThen
    (bringsAll stored r (a.versionDirectory r) artifacts)

section Download

variable {stored : String → Content} {r : String} {target : Path}

theorem fetch_brings {element : Json} :
    wp answer (Candidly a stored) Anywhere (fetch r target element).run
      (fun res _ h' => res = .ok () →
        Patched (brings stored r target element) h.device.fs h'.device.fs) m h := by
  refine wp_orPermanent_seq (fun request hreq => ?_) fun _ _ he => by cases he
  obtain ⟨installPath, sha256, key⟩ := request
  have hbrings : brings stored r target element =
      (Patch.mkdirs (Path.join target installPath).dropLast).andThen
        (.put (Path.join target installPath) (.file (stored key))) := by
    simp [brings, hreq]
  refine wp_seq.mpr ?_
  unfold storeDownload
  split
  · -- a destination that names a directory is refused in the end
    refine wp_call_seq trivial fun c _ => ?_
    generalize (answer c (.device (.file (.createDirectories (Path.join target installPath)))) h).2
      = h₁
    cases (answer c (.device (.file (.createDirectories (Path.join target installPath)))) h).1 with
    | error why =>
        refine wp_seq_of orMissing_spec (fun _ _ _ hm => ?_) fun _ _ _ _ he => by cases he
        exact absurd (hm rfl).1 (by simp)
    | ok u =>
        refine wp_seq_of orMissing_spec (fun _ _ _ hm => ?_) fun _ _ _ _ he => by cases he
        exact absurd (hm rfl).1 (by simp)
  · refine ⟨trivial, fun c hc => ?_⟩
    refine wp_seq_of orMissing_spec (fun u m₁ h₁ hm => ?_) fun _ _ _ _ he => by cases he
    obtain ⟨hok, rfl, rfl⟩ := hm (by cases u; rfl)
    have hlaid := Device.download_patched hok
    have hcontent : c.content = stored key := hc
    rw [hcontent, ← hbrings] at hlaid
    -- the digest is computed of what is there
    refine wp_call_seq trivial fun c' _ => ?_
    have hsame : ∀ q, (answer c' (.device (.fileSha256 (Path.join target installPath)))
        (answer c (.device (.download key (Path.join target installPath))) h).2).2.device.fs.get q =
          (answer c (.device (.download key (Path.join target installPath))) h).2.device.fs.get q :=
      fun _ => perform_files id
    refine wp_orReturn_seq (fun actual _ => ?_) fun _ _ he => by cases he
    unfold demand
    split
    · exact fun _ q => (hsame q).trans (hlaid q)
    · exact fun he => by cases he

theorem fetchAll_brings :
    ∀ {elements : List Json} {m : Memory} {h : Host},
      wp answer (Candidly a stored) Anywhere (fetchAll r target elements).run
        (fun res _ h' => res = .ok () →
          Patched (bringsAll stored r target elements) h.device.fs h'.device.fs) m h
  | [], _, _ => fun _ => .of_same fun _ => rfl
  | element :: rest, m, h => by
      refine wp_seq_of fetch_brings (fun u m₁ h₁ hone => ?_) fun _ _ _ _ he => by cases he
      refine wp_conseq fetchAll_brings fun res m' h' hall hres => ?_
      exact (hone (by cases u; rfl)).trans (hall hres)

/-- A download that succeeds has laid its files over those there were. -/
theorem download_lays {payload : String} :
    wp answer (Candidly a stored) Anywhere (downloadVersion a payload).run
      (fun res _ h' => res = .ok () → ∃ r artifacts, Asks a payload r artifacts ∧
        Patched (a.downloads stored r artifacts) h.device.fs h'.device.fs) m h := by
  refine wp_demand_seq (fun hstore => ?_) fun _ he => by cases he
  refine wp_demand_seq (fun hroot => ?_) fun _ he => by cases he
  refine wp_orPermanent_seq (fun object hobj => ?_) fun _ _ he => by cases he
  refine wp_orPermanent_seq (fun request hreq => ?_) fun _ _ he => by cases he
  obtain ⟨r, artifacts⟩ := request
  refine wp_call_seq trivial fun c _ => ?_
  refine wp_orReturn_seq (fun u hmade => ?_) fun _ _ he => by cases he
  have hok : (answer c (.device (.file (.createDirectories (a.versionDirectory r)))) h).1 =
      .ok () := ok_of_mapError hmade
  have hmk := patched_mkdirsAt (Device.createDirectories_ok hok)
  refine wp_seq_of (discard_spec fetchAll_brings) (fun u m' h' hall _ => ?_)
    fun _ _ _ _ he => by cases he
  exact ⟨r, artifacts, ⟨hstore, by simpa using hroot, object, hobj, hreq⟩,
    hmk.trans (hall (by cases u; rfl) rfl)⟩

end Download

/-! ## A clean -/

/-- Everything below the path goes. -/
def emptying (root : Path) : Patch Content := fun q =>
  if root <+: q ∧ q ≠ root then some none else none

/-- These entries of the directory go, with what is below them. -/
def clearing (root : Path) (names : List String) : Patch Content := fun q =>
  if names.any fun n => root ++ [n] <+: q then some none else none

/-- Where no entry of the directory is spared, all below it goes. -/
theorem emptying_of_clearing {root : Path} {names : List String} {t t' : FileTree Content}
    (hall : ∀ n, t.get (root ++ [n]) ≠ none → n ∈ names)
    (h : Patched (clearing root names) t t') : Patched (emptying root) t t' := by
  intro q
  rw [h q, clearing, emptying]
  by_cases hq : root <+: q ∧ q ≠ root
  · rw [if_pos hq]
    obtain ⟨⟨rest, rfl⟩, hne⟩ := hq
    cases rest with
    | nil => exact absurd (List.append_nil root) hne
    | cons n rest =>
        split
        · rfl
        · rename_i hno
          show t.get _ = none
          by_contra hthere
          have hn : t.get (root ++ [n]) ≠ none :=
            FileTree.get_ne_none_of_append (by simpa using hthere)
          refine hno (List.any_eq_true.mpr ⟨n, hall n hn, decide_eq_true ?_⟩)
          exact ⟨rest, by simp⟩
  · rw [if_neg hq, if_neg ?_]
    intro hany
    obtain ⟨n, -, hn⟩ := List.any_eq_true.mp hany
    have hn : root ++ [n] <+: q := of_decide_eq_true hn
    refine hq ⟨(List.prefix_append _ _).trans hn, ?_⟩
    rintro rfl
    have hlong := hn.length_le
    rw [List.length_append, List.length_singleton] at hlong
    omega

section Clean

variable {stored : String → Content} {root : Path}

theorem removeEntries_clears :
    ∀ {names : List String} {k : UInt32} {m : Memory} {h : Host},
      wp answer A Anywhere (removeEntries root names k).run
        (fun res _ h' => ∀ n, res = .ok n → n = k + .ofNat names.length ∧
          Patched (clearing root names) h.device.fs h'.device.fs) m h
  | [], k, m, h => by
      rintro n he
      cases he
      exact ⟨by simp, fun _ => rfl⟩
  | name :: rest, k, m, h => by
      refine wp_call_seq trivial fun c _ => wp_orReturn_seq (fun u hgone => ?_) fun _ _ => ?_
      · have hok : (answer c (.device (.file (.removeAll (root ++ [name])))) h).1 = .ok () :=
          ok_of_mapError hgone
        have hfs : (answer c (.device (.file (.removeAll (root ++ [name])))) h).2.device.fs =
            h.device.fs.removeAll (root ++ [name]) := Device.removeAll_ok hok
        refine wp_conseq removeEntries_clears fun res m' h' hrest n hn => ?_
        obtain ⟨hcount, hlaid⟩ := hrest n hn
        refine ⟨?_, fun q => ?_⟩
        · rw [hcount, List.length_cons, UInt32.ofNat_add, UInt32.add_assoc, UInt32.add_comm 1]
          rfl
        · rw [hlaid q, hfs, FileTree.get_removeAll, clearing, clearing, List.any_cons]
          by_cases hname : root ++ [name] <+: q
          · simp only [hname, if_true, decide_true, Bool.true_or]
            split
            · rfl
            · rfl
          · simp [hname]
      · exact fun _ he => by cases he

theorem demandApart_still :
    wp answer A Anywhere (demandApart a).run (fun _ _ h' => h'.device = h.device) m h := by
  refine wp_of_uses (S := fun o => ¬ IsDevice o) (R := fun h' : Host => h'.device = h.device)
    (fun _ _ _ ho _ hd => (answer_device ho).trans hd) (fun _ _ _ _ _ => trivial) ?_ rfl
  refine .ite (fun _ => trivial) fun _ => ?_
  refine .seq (.ask id) fun _ => .seq (.ask id) fun _ => ?_
  exact .ite (fun _ => trivial) fun _ => uses_permanent

/-- The walk that ends well has come to every entry. -/
theorem removeVersions_empties :
    wp answer A Anywhere (removeVersions a).run
      (fun res m' h' => res = .ok () →
        Patched (emptying a.versionRoot) h.device.fs h'.device.fs ∧
          m'.lastReport = s!"removed {UInt32.ofNat (h.device.fs.children a.versionRoot).length} version directories from '{a.options.versionRoot}'")
      m h := by
  refine wp_call_seq trivial fun c _ => ?_
  have hfs : (answer c (.device (.file (.list a.versionRoot))) h).2.device.fs = h.device.fs := by
    show (FileOp.answer c.chance (.list a.versionRoot) h.device.fs).2 = _
    simp only [FileOp.answer]
    split <;> rfl
  refine wp_orReturn_seq (fun entries hlisted => ?_) fun _ _ he => by cases he
  have hlist : (FileOp.answer c.chance (.list a.versionRoot) h.device.fs).1 = .ok entries :=
    ok_of_mapError hlisted
  refine wp_seq_of removeEntries_clears (fun n m' h' hcleared => ?_) fun _ _ _ _ he => by cases he
  obtain ⟨hcount, hlaid⟩ := hcleared n rfl
  cases hbroken : entries.broken with
  | some why => exact fun he => by cases he
  | none =>
      have hitems : entries.items = arrange c.chance.names (h.device.fs.children a.versionRoot) := by
        simp only [FileOp.answer] at hlist
        split at hlist
        · cases hlist
          exact Chance.listing_whole hbroken
        · cases hlist
      have hperm : entries.items.Perm (h.device.fs.children a.versionRoot) := by
        rw [hitems]
        exact (List.perm_ext_iff_of_nodup (nodup_arrange (FileTree.nodup_children _ _))
          (FileTree.nodup_children _ _)).mpr fun _ => mem_arrange
      refine fun _ => ⟨emptying_of_clearing (fun x hx => ?_) (hfs ▸ hlaid), ?_⟩
      · exact hperm.mem_iff.mpr (FileTree.mem_children.mpr hx)
      · rw [hcount, hperm.length_eq, UInt32.zero_add]

/-- A clean that succeeds leaves nothing below `version_root`. -/
theorem clean_empties {payload : String} :
    wp answer (Candidly a stored) Anywhere (cleanOldVersion a payload).run
      (fun res _ h' => res = .ok () →
        Patched (emptying a.versionRoot) h.device.fs h'.device.fs) m h := by
  refine wp_demand_seq (fun _ => ?_) fun _ he => by cases he
  refine wp_call_seq trivial fun c hc => ?_
  have hanswer : (answer c (.device (.file (.isDirectory a.versionRoot))) h).1 =
      (c.chance.fault.isNone && h.device.fs.isDir a.versionRoot) := rfl
  have hfs : (answer c (.device (.file (.isDirectory a.versionRoot))) h).2.device.fs =
      h.device.fs := rfl
  rw [hanswer]
  revert hfs
  generalize (answer c (.device (.file (.isDirectory a.versionRoot))) h).2 = h₁
  intro hfs
  cases hthere : c.chance.fault.isNone && h.device.fs.isDir a.versionRoot with
  | true =>
      refine wp_seq_of demandApart_still (fun _ m₂ h₂ hsame => ?_) fun _ _ _ _ he => by cases he
      refine wp_conseq removeVersions_empties fun res _ h' hdone hok => ?_
      rw [← hfs, ← hsame]
      exact (hdone hok).1
  | false =>
      -- it is no directory, so nothing is below it
      have hdir : h.device.fs.isDir a.versionRoot = false := by
        by_contra hdir
        have hdir : h.device.fs.isDir a.versionRoot = true := by simpa using hdir
        have hfault : c.chance.fault = none :=
          hc _ .downloads (by rw [FileTree.isDir_iff.mp hdir]; simp)
        simp [hfault, hdir] at hthere
      intro _
      show Patched _ _ h₁.device.fs
      rw [hfs]
      intro q
      rw [emptying]
      split
      · rename_i hq
        show h.device.fs.get q = none
        by_contra hne
        have := FileTree.get_dir_of_under hq.1 (Ne.symm hq.2) hne
        rw [← FileTree.isDir_iff, hdir] at this
        cases this
      · rfl

end Clean

end Agent

end Yirang
