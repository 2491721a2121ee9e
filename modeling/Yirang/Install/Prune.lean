/-
# `Yirang.Install.Prune` — which releases a `prune` leaves

`prune` walks the releases, the newest first, passes over the two that the
state file names, keeps as many of the others as it is told to, and removes
the rest.

    spared      the active or the previous release
    doomed      of a list, what the loop removes: the others but the first `k`
    Prunes      what a `prune` is to do, whether it ends or not
    prune_keeps_iff   it does so, whatever else fails, exactly if the `stat`
                of the state file does not fail, or if it does not matter

A `stat` that fails makes `state` say that nothing is active, and then
nothing is spared.
-/
import Yirang.Install.Listing

namespace Yirang

open Fs Effect Device

namespace Install

variable {o : InstallOptions} {A : World → Op → Choice → Prop} {w w' : World} {r : String}
  {mtime : String → Int} {s : ActivationState} {t t' : FileTree Content} {names gone : List String}
  {blind : Bool}

/-! ## The loop -/

def spared (s : ActivationState) (n : String) : Bool := n = s.active || n = s.previous

def doomed (k : Nat) (s : ActivationState) (names : List String) : List String :=
  (names.filter fun n => !spared s n).drop k

section Doomed

variable {k : Nat} {name : String} {rest : List String}

theorem doomed_spared (h : spared s name = true) :
    doomed k s (name :: rest) = doomed k s rest := by
  simp [doomed, h]

theorem doomed_kept (h : spared s name = false) :
    doomed (k + 1) s (name :: rest) = doomed k s rest := by
  simp [doomed, h]

theorem doomed_cons (h : spared s name = false) :
    doomed 0 s (name :: rest) = name :: doomed 0 s rest := by
  simp [doomed, h]

theorem mem_doomed {n : String} (h : n ∈ doomed k s names) : n ∈ names ∧ spared s n = false := by
  have hm := List.mem_filter.mp (List.mem_of_mem_drop h)
  exact ⟨hm.1, by simpa using hm.2⟩

end Doomed

/-- Below one of the releases `gone`. -/
def Below (o : InstallOptions) (gone : List String) (q : Path) : Prop :=
  ∃ n ∈ gone, o.releaseDirectory n <+: q

/-- The releases `gone` are gone with all they held; elsewhere nothing has
changed. -/
structure Removes (o : InstallOptions) (gone : List String) (t t' : FileTree Content) : Prop where
  lost : ∀ q, Below o gone q → t'.get q = none
  kept : ∀ q, ¬ Below o gone q → t'.get q = t.get q

theorem Removes.nothing : Removes o [] t t :=
  ⟨fun _ ⟨_, h, _⟩ => (by cases h), fun _ _ => rfl⟩

/-- One release more, before the others. -/
theorem Removes.cons {name : String} {t₁ : FileTree Content}
    (hlost : ∀ q, o.releaseDirectory name <+: q → t₁.get q = none)
    (hkept : ∀ q, ¬ o.releaseDirectory name <+: q → t₁.get q = t.get q)
    (h : Removes o gone t₁ t') : Removes o (name :: gone) t t' where
  lost q := by
    rintro ⟨n, hn, hq⟩
    by_cases hlater : Below o gone q
    · exact h.lost q hlater
    · rcases List.mem_cons.mp hn with rfl | hn
      · exact (h.kept q hlater).trans (hlost q hq)
      · exact absurd ⟨n, hn, hq⟩ hlater
  kept q hq := by
    have hhead : ¬ o.releaseDirectory name <+: q := fun hp => hq ⟨name, List.mem_cons_self, hp⟩
    have htail : ¬ Below o gone q := fun ⟨n, hn, hp⟩ => hq ⟨n, List.mem_cons_of_mem name hn, hp⟩
    exact (h.kept q htail).trans (hkept q hhead)

/-- The loop touches nothing but what is doomed. -/
theorem pruneAll_doomed (names : List String) (retained : Int) (removed : UInt32) :
    Uses (Touches (Below o (doomed (keep o - retained).toNat s names)))
      (pruneAll o s names retained removed).run := by
  induction names generalizing retained removed with
  | nil => trivial
  | cons name rest ih =>
      unfold pruneAll
      split
      · rename_i hspared
        have hs : spared s name = true := hspared
        rw [doomed_spared hs]
        exact ih _ _
      rename_i hother
      have hs : spared s name = false := by simpa [spared] using hother
      split
      · rename_i hkeep
        have hk : (keep o - retained).toNat = (keep o - (retained + 1)).toNat + 1 := by omega
        rw [hk, doomed_kept hs]
        exact ih _ _
      · rename_i hfull
        have hk : (keep o - retained).toNat = 0 := by omega
        rw [hk, doomed_cons hs]
        refine Uses.seq (Uses.orFail (uses_file fun q hq => ⟨name, List.mem_cons_self, hq⟩)) ?_
        intro _
        have hrest := ih retained (removed + 1)
        rw [hk] at hrest
        refine hrest.mono fun _ h => h.mono ?_
        rintro q ⟨n, hn, hq⟩
        exact ⟨n, List.mem_cons_of_mem name hn, hq⟩

theorem pruneAll_removes (names : List String) (retained : Int) (removed : UInt32) :
    wp answer A Anywhere (pruneAll o s names retained removed).run
      (fun res _ w' => ∀ n, res = .ok n →
        Removes o (doomed (keep o - retained).toNat s names) w.fs w'.fs ∧
        n = removed + UInt32.ofNat (doomed (keep o - retained).toNat s names).length) () w := by
  induction names generalizing w retained removed with
  | nil =>
      intro n hn
      cases hn
      have hnil : doomed (keep o - retained).toNat s [] = [] := by simp [doomed]
      rw [hnil]
      exact ⟨.nothing, by simp⟩
  | cons name rest ih =>
      unfold pruneAll
      split
      · rename_i hspared
        have hs : spared s name = true := hspared
        rw [doomed_spared hs]
        exact ih _ _
      rename_i hother
      have hs : spared s name = false := by simpa [spared] using hother
      split
      · rename_i hkeep
        have hk : (keep o - retained).toNat = (keep o - (retained + 1)).toNat + 1 := by omega
        rw [hk, doomed_kept hs]
        exact ih _ _
      · rename_i hfull
        have hk : (keep o - retained).toNat = 0 := by omega
        rw [hk, doomed_cons hs]
        refine wp_seq.mpr (wp_orFail.mpr (wp_file.mpr ⟨trivial, fun c _ => ?_⟩))
        have hkept : ∀ q, ¬ o.releaseDirectory name <+: q →
            (answer c (.file (.removeAll (o.releaseDirectory name))) w).2.fs.get q = w.fs.get q :=
          fun q hq => file_frame (f := .removeAll _) hq
        cases hrm : (answer c (.file (.removeAll (o.releaseDirectory name))) w).1 with
        | error e => exact fun n hn => by cases hn
        | ok _ =>
            have hlost : ∀ q, o.releaseDirectory name <+: q →
                (answer c (.file (.removeAll (o.releaseDirectory name))) w).2.fs.get q = none :=
              fun q hq => by rw [removeAll_ok hrm, FileTree.get_removeAll, if_pos hq]
            refine wp_conseq (ih retained (removed + 1)) fun res _ w' hres n hn => ?_
            rw [hk] at hres
            obtain ⟨hrem, hcount⟩ := hres n hn
            refine ⟨hrem.cons hlost hkept, ?_⟩
            rw [hcount, List.length_cons, Nat.add_comm, UInt32.ofNat_add, ← UInt32.add_assoc]
            rfl

/-! ## What the disk answers -/

/-- What the disk answers: the `stat` of the state file fails or it does not,
a directory is seen to be one, and the releases have these times. -/
def Reading (o : InstallOptions) (mtime : String → Int) (blind : Bool) : World → Op → Choice → Prop
  | _, .file (.exists_ p), c => p = o.statePath → c.chance.fault.isSome = blind
  | _, .file (.isDirectory _), c => c.chance.fault = none
  | _, .file (.lastWriteTime p), c =>
      c.chance.fault = none ∧ c.chance.number = mtime (p.getLastD "")
  | _, _, _ => True

instance Reading.decide {op : Op} {c : Choice} : Decidable (Reading o mtime blind w op c) :=
  match op with
  | .file (.exists_ p) =>
      inferInstanceAs (Decidable (p = o.statePath → c.chance.fault.isSome = blind))
  | .file (.isDirectory _) => inferInstanceAs (Decidable (c.chance.fault = none))
  | .file (.lastWriteTime p) =>
      inferInstanceAs (Decidable (c.chance.fault = none ∧ c.chance.number = mtime (p.getLastD "")))
  | .file (.isRegularFile _) | .file (.createDirectories _) | .file (.remove _)
  | .file (.removeAll _) | .file (.rename _ _) | .file (.copyFile _ _) | .file (.read _)
  | .file (.write _ _) | .file (.list _) | .file (.walk _) | .file (.relative _ _)
  | .file (.canonical _) | .file (.ownerExec _) | .file (.addExec _) | .file (.symlink _ _)
  | .start _ | .adopt _ | .stop _ _ | .status _ | .networkProbe | .bootIdentity | .utcNow
  | .steadyNow | .turns _ _ | .download _ _ | .inStore _ | .fileSha256 _ => .isTrue trivial

theorem reading_sees : Sees o (Reading o mtime blind) := ⟨fun _ _ h _ => h, fun _ _ _ h _ => h⟩

theorem reading_dates : Dates o mtime (Reading o mtime blind) := fun _ _ n h => by
  simpa [Reading] using h

theorem reading_honest : Honest o (Reading o mtime false) := fun _ c h _ => by
  simpa using h rfl

/-- What `state` takes the state to be. -/
def taken (o : InstallOptions) (blind : Bool) (t : FileTree Content) : ActivationState :=
  if blind then {} else onDisk o t

/-- There is no state file, or it can be understood. -/
def Legible (o : InstallOptions) (t : FileTree Content) : Bool :=
  match t.get o.statePath with
  | none => true
  | some (.file c) => (ActivationState.load o.statePath c).isOk
  | some _ => false

theorem state_taken :
    wp answer (Reading o mtime blind) Anywhere (state o).run
      (fun res _ w' => w'.fs = w.fs ∧ ∀ s, res = .ok s → s = taken o blind w.fs) () w := by
  cases blind with
  | false =>
      refine wp_conseq state_reads ?_
      rintro res _ w' ⟨hfs, hread, _⟩
      exact ⟨hfs, fun s hs => (hread s hs).honest reading_honest⟩
  | true =>
      unfold state
      refine wp_seq.mpr (wp_file.mpr ⟨trivial, fun c hc => ?_⟩)
      have hfault : c.chance.fault.isSome = true := hc rfl
      have hno : (answer c (.file (.exists_ o.statePath)) w).1 = false := by
        simp only [answer_fst, perform, FileOp.answer]
        rw [← Option.not_isSome, hfault]
        rfl
      rw [hno]
      exact ⟨rfl, fun s hs => by cases hs; rfl⟩

/-- A `prune` on its way: of some list of the releases, nothing is gone but
below its doomed. -/
def Pruning (o : InstallOptions) (mtime : String → Int) (blind : Bool) (w w' : World) : Prop :=
  ∃ names, Lists o w.fs names ∧ (names.Pairwise fun a b => mtime b ≤ mtime a) ∧
    ∀ q, ¬ Below o (doomed (keep o).toNat (taken o blind w.fs) names) q →
      w'.fs.get q = w.fs.get q

/-- A `prune` at its end: the doomed of some list are gone, and counted. -/
def Finished (o : InstallOptions) (mtime : String → Int) (blind : Bool) (w w' : World)
    (n : UInt32) : Prop :=
  ∃ names, Lists o w.fs names ∧ (names.Pairwise fun a b => mtime b ≤ mtime a) ∧
    Removes o (doomed (keep o).toNat (taken o blind w.fs) names) w.fs w'.fs ∧
    n = UInt32.ofNat (doomed (keep o).toNat (taken o blind w.fs) names).length

def releases (o : InstallOptions) (t : FileTree Content) : List String :=
  (t.children o.releasesRoot).filter (isRelease o t)

theorem lists_releases : Lists o t (releases o t) where
  nodup := (FileTree.nodup_children _ _).filter _
  mem n := by
    rw [releases, List.mem_filter, FileTree.mem_children]
    refine and_iff_right_of_imp fun hrel => ?_
    simp only [isRelease, Bool.and_eq_true] at hrel
    rw [FileTree.isDir_iff.mp hrel.1]
    simp

theorem exists_sorted (o : InstallOptions) (mtime : String → Int) (t : FileTree Content) :
    ∃ names, Lists o t names ∧ names.Pairwise fun a b => mtime b ≤ mtime a := by
  have : Std.Total fun a b : String => mtime b ≤ mtime a := ⟨fun a b => Int.le_total _ _⟩
  have : IsTrans String fun a b => mtime b ≤ mtime a := ⟨fun _ _ _ hab hbc => Int.le_trans hbc hab⟩
  have hperm := List.perm_insertionSort (fun a b => mtime b ≤ mtime a) (releases o t)
  refine ⟨_, ⟨hperm.nodup_iff.mpr lists_releases.nodup, fun n => ?_⟩,
    List.pairwise_insertionSort _ _⟩
  rw [hperm.mem_iff]
  exact lists_releases.mem n

theorem pruning_of_same (h : ∀ q, w'.fs.get q = w.fs.get q) : Pruning o mtime blind w w' := by
  obtain ⟨names, hnames, hsorted⟩ := exists_sorted o mtime w.fs
  exact ⟨names, hnames, hsorted, fun q _ => h q⟩

theorem prune_listed :
    wp answer (Reading o mtime blind) (fun _ w' _ => Pruning o mtime blind w w') (prune o).run
      (fun res _ w' => Pruning o mtime blind w w' ∧
        ∀ n, res = .ok n → Finished o mtime blind w w' n) () w := by
  unfold prune
  refine wp_seq_of (wp_both state_taken (wp_within (X := Untouched) state_uses
    fun _ w' _ _ hw => pruning_of_same fun _ => hw.files id)) ?_ ?_
  · rintro current _ w₁ ⟨⟨hfs, hread⟩, _⟩
    cases hread current rfl
    refine wp_seq_of (wp_both (installed_spec mtime reading_sees)
      (wp_within (X := Untouched) installed_uses
        fun _ w' _ _ hw => pruning_of_same fun _ => (hw.files id).trans (get_same hfs _))) ?_ ?_
    · rintro names _ w₂ ⟨⟨hfs₂, hlist⟩, _⟩
      rw [hfs] at hfs₂ hlist
      obtain ⟨hnames, hsorted⟩ := hlist names rfl
      have hdoomed := pruneAll_doomed (o := o) (s := taken o blind w.fs) names 0 0
      have hremoves := pruneAll_removes (o := o) (A := Reading o mtime blind) (w := w₂)
        (s := taken o blind w.fs) names 0 0
      rw [Int.sub_zero] at hdoomed hremoves
      refine wp_conseq (wp_both hremoves (wp_within hdoomed fun _ w' _ _ hw =>
        ⟨names, hnames, hsorted reading_dates, fun q hq =>
          (hw.files hq).trans (get_same hfs₂ q)⟩)) ?_
      rintro res _ w' ⟨hres, hw⟩
      refine ⟨⟨names, hnames, hsorted reading_dates, fun q hq =>
        (hw.files hq).trans (get_same hfs₂ q)⟩, fun n hn => ?_⟩
      obtain ⟨hrem, hcount⟩ := hres n hn
      rw [hfs₂] at hrem
      exact ⟨names, hnames, hsorted reading_dates, hrem, by simpa using hcount⟩
    · rintro e _ w₂ ⟨⟨hfs₂, _⟩, _⟩
      exact ⟨pruning_of_same fun q => get_same (hfs₂.trans hfs) q, fun n hn => by cases hn⟩
  · rintro e _ w₁ ⟨⟨hfs, _⟩, _⟩
    exact ⟨pruning_of_same fun q => get_same hfs q, fun n hn => by cases hn⟩

/-! ## A `prune` that ends well -/

/-- Nothing fails, but for the `stat` of the state file. -/
def Fine (o : InstallOptions) (mtime : String → Int) (blind : Bool) (w : World) (op : Op)
    (c : Choice) : Prop :=
  Reading o mtime blind w op c ∧ c.chance.cut = none ∧
    ((∀ p, op ≠ .file (.exists_ p)) → c.chance.fault = none)

theorem exists_fine (w : World) (op : Op) : ∃ c, Fine o mtime blind w op c := by
  match op with
  | .file (.exists_ p) =>
      refine ⟨{ chance := { fault := if blind then some "" else none } }, fun _ => ?_, rfl,
        fun h => absurd rfl (h p)⟩
      cases blind <;> rfl
  | .file (.lastWriteTime p) =>
      exact ⟨{ chance := { number := mtime (p.getLastD "") } }, ⟨rfl, rfl⟩, rfl, fun _ => rfl⟩
  | .file (.isDirectory p) => exact ⟨{}, rfl, rfl, fun _ => rfl⟩
  | .file (.isRegularFile _) | .file (.createDirectories _) | .file (.remove _)
  | .file (.removeAll _) | .file (.rename _ _) | .file (.copyFile _ _) | .file (.read _)
  | .file (.write _ _) | .file (.list _) | .file (.walk _) | .file (.relative _ _)
  | .file (.canonical _) | .file (.ownerExec _) | .file (.addExec _) | .file (.symlink _ _)
  | .start _ | .adopt _ | .stop _ _ | .status _ | .networkProbe | .bootIdentity | .utcNow
  | .steadyNow | .turns _ _ | .download _ _ | .inStore _ | .fileSha256 _ =>
      exact ⟨{}, trivial, rfl, fun _ => rfl⟩

theorem state_fine (h : blind = true ∨ Legible o w.fs = true) :
    wp answer (Fine o mtime blind) Anywhere (state o).run
      (fun res _ _ => ∃ s, res = .ok s) () w := by
  unfold state
  refine wp_seq.mpr (wp_file.mpr ⟨trivial, fun c hc => ?_⟩)
  have hfault : c.chance.fault.isSome = blind := hc.1 rfl
  show wp _ _ _ (ExceptT.run (if c.chance.fault.isNone && (w.fs.get o.statePath).isSome then _
    else _)) _ _ _
  split
  · rename_i hthere
    simp only [Bool.and_eq_true, ← Option.not_isSome, hfault, Bool.not_eq_true'] at hthere
    have hlegible := h.resolve_left (by simp [hthere.1])
    unfold Legible at hlegible
    refine wp_seq.mpr (wp_file.mpr ⟨trivial, fun c' hc' => ?_⟩)
    split at hlegible
    · rename_i hnone
      simp [hnone] at hthere
    · rename_i x hx
      have hread : (answer c' (.file (.read o.statePath))
          (answer c (.file (.exists_ o.statePath)) w).2).1 = some x :=
        read_fine hx (hc'.2.2 fun p hp => by cases hp) hc'.2.1
      rw [hread]
      refine wp_conclude.mpr ?_
      cases hload : ActivationState.load o.statePath x with
      | ok s => exact ⟨s, rfl⟩
      | error e => simp [hload, Except.isOk, Except.toBool] at hlegible
    · cases hlegible
  · exact ⟨_, rfl⟩

theorem installed_fine :
    wp answer (Fine o mtime blind) Anywhere (installed o).run
      (fun res _ _ => ∃ names, res = .ok names) () w := by
  have hsees : Sees o (Fine o mtime blind) :=
    ⟨fun _ _ h _ => h.1, fun _ _ _ h _ => h.1⟩
  unfold installed
  refine wp_seq.mpr (wp_file.mpr ⟨trivial, fun c hc => ?_⟩)
  rw [dir_answer hsees.1 hc]
  have hfs : (answer c (.file (.isDirectory o.releasesRoot)) w).2.fs = w.fs := rfl
  revert hfs
  generalize (answer c (.file (.isDirectory o.releasesRoot)) w).2 = w₁
  intro hfs
  dsimp only [andThen]
  split
  · rename_i hroot
    refine wp_seq.mpr (wp_orFail.mpr (wp_file.mpr ⟨trivial, fun c₂ hc₂ => ?_⟩))
    have hlist : ∃ items, (answer c₂ (.file (.list o.releasesRoot)) w₁).1 = .ok ⟨items, none⟩ := by
      have hnone : c₂.chance.fault = none := hc₂.2.2 fun p hp => by cases hp
      have hdir : (w₁.bury c₂.dead).fs.isDir o.releasesRoot = true := by
        rw [← hroot, ← hfs]
        rfl
      simp only [answer_fst, perform, FileOp.answer, hnone, hdir, Chance.listing, hc₂.2.1]
      exact ⟨_, rfl⟩
    obtain ⟨items, hitems⟩ := hlist
    rw [hitems]
    refine wp_seq_of (survey_spec mtime hsees items) ?_ ?_
    · rintro found _ w' _
      exact ⟨_, rfl⟩
    · rintro e _ w' ⟨_, found', h, _⟩
      cases h
  · exact ⟨_, rfl⟩

theorem pruneAll_fine (names : List String) (retained : Int) (removed : UInt32) :
    wp answer (Fine o mtime blind) Anywhere (pruneAll o s names retained removed).run
      (fun res _ _ => ∃ n, res = .ok n) () w := by
  induction names generalizing w retained removed with
  | nil => exact ⟨removed, rfl⟩
  | cons name rest ih =>
      unfold pruneAll
      split
      · exact ih _ _
      split
      · exact ih _ _
      · refine wp_seq.mpr (wp_orFail.mpr (wp_file.mpr ⟨trivial, fun c hc => ?_⟩))
        have hrm : (answer c (.file (.removeAll (o.releaseDirectory name))) w).1 = .ok () := by
          have hnone : c.chance.fault = none := hc.2.2 fun p hp => by cases hp
          simp only [answer_fst, perform, FileOp.answer, FileOp.attempt, hnone]
        rw [hrm]
        exact ih _ _

/-- Where the state file can be understood, or is not looked at, some `prune`
ends well. -/
theorem prune_ends (mtime : String → Int) (h : blind = true ∨ Legible o w.fs = true) :
    ∃ n w', Exec answer (Reading o mtime blind) (prune o).run () w (.done (.ok n) ()) w' := by
  have hwp : wp answer (Fine o mtime blind) Anywhere (prune o).run
      (fun res _ _ => ∃ n, res = .ok n) () w := by
    unfold prune
    refine wp_seq_of (state_fine h) ?_ ?_
    · intro current _ w₁ _
      refine wp_seq_of installed_fine ?_ ?_
      · intro names _ w₂ _
        exact pruneAll_fine names 0 0
      · rintro e _ w₂ ⟨_, h⟩
        cases h
    · rintro e _ w₁ ⟨_, h⟩
      cases h
  obtain ⟨_, _, w', he, n, rfl⟩ := can_exec (can_of_wp exists_fine hwp)
  exact ⟨n, w', he.mono fun _ _ _ h => h.1⟩

theorem state_illegible (h : Legible o w.fs = false) :
    wp answer (Reading o mtime false) Anywhere (state o).run
      (fun res _ _ => ∀ s, res ≠ .ok s) () w := by
  unfold Legible at h
  unfold state
  refine wp_seq.mpr (wp_file.mpr ⟨trivial, fun c hc => ?_⟩)
  have hfault : c.chance.fault = none := by simpa using hc rfl
  have hthere : (answer c (.file (.exists_ o.statePath)) w).1 = true := by
    show (c.chance.fault.isNone && (w.fs.get o.statePath).isSome) = true
    cases hget : w.fs.get o.statePath with
    | none => simp [hget] at h
    | some e => simp [hfault]
  rw [hthere]
  refine wp_seq.mpr (wp_file.mpr ⟨trivial, fun c' _ => ?_⟩)
  cases hread : (answer c' (.file (.read o.statePath))
      (answer c (.file (.exists_ o.statePath)) w).2).1 with
  | none => exact fun s hs => by cases hs
  | some buffer =>
      refine wp_conclude.mpr fun s hs => ?_
      obtain ⟨y, hy, rfl | ⟨n, rfl⟩⟩ := read_ok hread
      · have hget : w.fs.get o.statePath = some (.file buffer) := hy
        simp [hget, hs, Except.isOk, Except.toBool] at h
      · -- a part of a text is not understood
        cases hs

/-- Where it cannot, none does. -/
theorem prune_illegible (h : Legible o w.fs = false) :
    wp answer (Reading o mtime false) Anywhere (prune o).run
      (fun res _ _ => ∀ n, res ≠ .ok n) () w := by
  unfold prune
  refine wp_seq_of (state_illegible h) ?_ ?_
  · intro current _ w₁ hno
    exact absurd rfl (hno current)
  · rintro e _ w₁ _ n hn
    cases hn

/-! ## What is there before and after -/

theorem validId_of_isRelease {n : String} (h : isRelease o t n = true) : ValidId n := by
  simp only [isRelease, Bool.and_eq_true, Bool.not_eq_true'] at h
  refine ⟨?_, h.2⟩
  by_contra himproper
  have hnone := get_improper (t := t) (p := o.releasesRoot) (x := []) himproper
  rw [List.append_nil, FileTree.isDir_iff.mp h.1] at hnone
  cases hnone

theorem below_release (hg : ∀ n ∈ gone, ValidId n) {n : String} (x : Path) :
    Below o gone (o.releasesRoot ++ [n] ++ x) ↔ n ∈ gone := by
  constructor
  · rintro ⟨m, hm, h⟩
    rw [(hg m hm).releaseDirectory] at h
    exact child_unique (List.prefix_append _ _) h ▸ hm
  · intro hn
    exact ⟨n, hn, (hg n hn).releaseDirectory (o := o) ▸ List.prefix_append _ _⟩

theorem not_below_state (hg : ∀ n ∈ gone, ValidId n) : ¬ Below o gone o.statePath := by
  rintro ⟨m, hm, h⟩
  rw [(hg m hm).releaseDirectory, InstallOptions.releasesRoot, List.append_assoc] at h
  exact absurd (List.cons_prefix_cons.mp (Path.under_base_iff.mp h)).1 (by decide)

theorem Removes.remains (hg : ∀ n ∈ gone, ValidId n) (h : Removes o gone t t') (n : String) :
    isRelease o t' n = true ↔ isRelease o t n = true ∧ n ∉ gone := by
  have hbelow := below_release (o := o) hg (n := n) []
  rw [List.append_nil] at hbelow
  by_cases hn : n ∈ gone
  · have hlost := h.lost _ (hbelow.mpr hn)
    simp [isRelease, FileTree.isDir, hlost, hn]
  · have hkept := h.kept _ fun hb => hn (hbelow.mp hb)
    simp [isRelease, FileTree.isDir, hkept, hn]

/-- The releases that are neither active nor previous. -/
def others (o : InstallOptions) (s : ActivationState) (t : FileTree Content) : List String :=
  (releases o t).filter fun n => !spared s n

theorem mem_others {n : String} :
    n ∈ others o s t ↔ isRelease o t n = true ∧ spared s n = false := by
  simp [others, lists_releases.mem]

theorem Lists.perm (h : Lists o t names) : names.Perm (releases o t) :=
  (List.perm_ext_iff_of_nodup h.nodup lists_releases.nodup).mpr fun n =>
    (h.mem n).trans (lists_releases.mem n).symm

theorem Lists.doomed_valid {k : Nat} (h : Lists o t names) : ∀ n ∈ doomed k s names, ValidId n :=
  fun n hn => validId_of_isRelease ((h.mem n).mp (mem_doomed hn).1)

theorem Lists.length_doomed {k : Nat} (h : Lists o t names) :
    (doomed k s names).length = (others o s t).length - k := by
  rw [doomed, List.length_drop, (h.perm.filter _).length_eq]
  rfl

theorem doomed_nodup {k : Nat} (h : names.Nodup) : (doomed k s names).Nodup :=
  (List.drop_sublist k _).nodup (h.filter _)

/-- A list that falls into two. -/
theorem length_of_parts {xs ys zs : List String} (hx : xs.Nodup) (hy : ys.Nodup) (hz : zs.Nodup)
    (hmem : ∀ a, a ∈ ys ↔ a ∈ xs ∧ a ∉ zs) (hsub : ∀ a ∈ zs, a ∈ xs) :
    ys.length + zs.length = xs.length := by
  have hdisjoint : ys.Disjoint zs := fun a ha hz => ((hmem a).mp ha).2 hz
  have hperm : (ys ++ zs).Perm xs := by
    refine (List.perm_ext_iff_of_nodup (hy.append hz hdisjoint) hx).mpr fun a => ?_
    rw [List.mem_append, hmem]
    by_cases ha : a ∈ zs
    · simp [ha, hsub a ha]
    · simp [ha]
  rw [← List.length_append, hperm.length_eq]

/-- Of the others, so many are left. -/
theorem Removes.length_others (hr : Removes o gone t t') (hn : gone.Nodup)
    (hg : ∀ n ∈ gone, isRelease o t n = true) (hs : ∀ n ∈ gone, spared s n = false) :
    (others o s t').length + gone.length = (others o s t).length := by
  refine length_of_parts (lists_releases.nodup.filter _) (lists_releases.nodup.filter _) hn
    (fun a => ?_) fun a ha => mem_others.mpr ⟨hg a ha, hs a ha⟩
  rw [mem_others, mem_others, hr.remains fun n hn => validId_of_isRelease (hg n hn)]
  exact and_right_comm

/-- So many are gone. -/
theorem Removes.length_gone (hr : Removes o gone t t') (hn : gone.Nodup)
    (hg : ∀ n ∈ gone, isRelease o t n = true) :
    ((releases o t).filter fun a => !isRelease o t' a).length = gone.length := by
  refine ((List.perm_ext_iff_of_nodup (lists_releases.nodup.filter _) hn).mpr fun a => ?_).length_eq
  have hrel := hr.remains (fun n hn => validId_of_isRelease (hg n hn)) a
  rw [List.mem_filter, lists_releases.mem, Bool.not_eq_true', ← Bool.not_eq_true, hrel]
  by_cases ha : a ∈ gone
  · simp [ha, hg a ha]
  · simp [ha]

/-- A doomed one is not newer than one that is kept. -/
theorem not_newer {k : Nat} (hsorted : names.Pairwise fun a b => mtime b ≤ mtime a) {a b : String}
    (ha : a ∈ doomed k s names) (hb : b ∈ names) (hbs : spared s b = false)
    (hbk : b ∉ doomed k s names) : mtime a ≤ mtime b := by
  have hall := hsorted.filter fun n => !spared s n
  rw [← List.take_append_drop k (names.filter fun n => !spared s n)] at hall
  have hmem : b ∈ names.filter fun n => !spared s n := List.mem_filter.mpr ⟨hb, by simp [hbs]⟩
  rw [← List.take_append_drop k (names.filter fun n => !spared s n), List.mem_append] at hmem
  exact (List.pairwise_append.mp hall).2.2 b (hmem.resolve_right hbk) a ha

/-! ## A `prune` after a `prune` -/

/-- There are no more of the others than are kept. -/
def Tidied (o : InstallOptions) (s : ActivationState) (t : FileTree Content) : Prop :=
  (others o s t).length ≤ (keep o).toNat

/-- A `prune` that ends well leaves no more of the others than are kept, and
where that is so already a `prune` changes nothing. -/
theorem prune_tidies (hS : Sees o A) (hA : Honest o A) :
    wp answer A Anywhere (prune o).run
      (fun res _ w' => (∀ n, res = .ok n → Tidied o (onDisk o w.fs) w'.fs) ∧
        (Tidied o (onDisk o w.fs) w.fs → ∀ q, w'.fs.get q = w.fs.get q)) () w := by
  unfold prune
  refine wp_seq_of (state_reads (A := A)) ?_ fun e _ w₁ h =>
    ⟨fun n hn => (by cases hn), fun _ q => get_same h.1 q⟩
  rintro current _ w₁ ⟨hfs, hread, -⟩
  obtain rfl := (hread current rfl).honest hA
  refine wp_seq_of (installed_spec (fun _ => 0) hS) ?_ fun e _ w₂ h =>
    ⟨fun n hn => (by cases hn), fun _ q => get_same (h.1.trans hfs) q⟩
  rintro names _ w₂ ⟨hfs₂, hlist⟩
  rw [hfs] at hfs₂ hlist
  obtain ⟨hnames, -⟩ := hlist names rfl
  have hlength := hnames.length_doomed (s := onDisk o w.fs) (k := (keep o).toNat)
  have hremoves := pruneAll_removes (o := o) (A := A) (w := w₂) (s := onDisk o w.fs) names 0 0
  have hdoomed := pruneAll_doomed (o := o) (s := onDisk o w.fs) names 0 0
  rw [Int.sub_zero] at hremoves hdoomed
  refine wp_conseq (wp_both hremoves (wp_within hdoomed fun _ _ _ _ _ => trivial)) ?_
  rintro res _ w' ⟨hres, hw⟩
  refine ⟨fun n hn => ?_, fun hfew q => ?_⟩
  · obtain ⟨hrem, -⟩ := hres n hn
    rw [hfs₂] at hrem
    have hleft := hrem.length_others (doomed_nodup hnames.nodup)
      (fun n hn => (hnames.mem n).mp (mem_doomed hn).1) fun n hn => (mem_doomed hn).2
    unfold Tidied
    omega
  · have hnone : doomed (keep o).toNat (onDisk o w.fs) names = [] := by
      rw [← List.length_eq_zero_iff, hlength]
      unfold Tidied at hfew
      omega
    refine (hw.files ?_).trans (get_same hfs₂ q)
    rw [hnone]
    rintro ⟨n, hn, -⟩
    cases hn

/-- The others are the same where the releases beside `r` are, if `r` is
spared. -/
theorem Tidied.of_carries (hs : spared s r = true)
    (h : ∀ n, ValidId n → n ≠ r → Carries w (o.releaseDirectory n) w' (o.releaseDirectory n))
    (ht : Tidied o s w.fs) : Tidied o s w'.fs := by
  have hsame : ∀ n, n ≠ r → isRelease o w'.fs n = isRelease o w.fs n := fun n hn => by
    by_cases hvalid : ValidId n
    · have hdir := (h n hvalid hn).isDir
      rw [hvalid.releaseDirectory] at hdir
      rw [isRelease, isRelease, hdir]
    · have hno : ∀ t : FileTree Content, isRelease o t n = false := fun t =>
        Bool.eq_false_iff.mpr fun hrel => hvalid (validId_of_isRelease hrel)
      rw [hno, hno]
  have hperm : (others o s w'.fs).Perm (others o s w.fs) := by
    refine (List.perm_ext_iff_of_nodup (lists_releases.nodup.filter _)
      (lists_releases.nodup.filter _)).mpr fun n => ?_
    refine mem_others.trans ((and_congr_left fun hfree => ?_).trans mem_others.symm)
    have hne : n ≠ r := fun e => by
      rw [e, hs] at hfree
      cases hfree
    rw [hsame n hne]
  rw [Tidied, hperm.length_eq]
  exact ht

/-- How many of the others there are depends on the two names alone. -/
theorem Tidied.of_names {o : InstallOptions} {s s' : ActivationState} {t : FileTree Content}
    (hactive : s'.active = s.active) (hprevious : s'.previous = s.previous)
    (h : Tidied o s t) : Tidied o s' t := by
  have hspared : ∀ n, spared s' n = spared s n := fun n => by
    rw [spared, spared, hactive, hprevious]
  unfold Tidied others at h ⊢
  simpa only [hspared] using h

/-! ## What a `prune` is to do -/

/-- A `prune` from `w` to `w'` that ended well with the count `n`. -/
structure Leaves (o : InstallOptions) (mtime : String → Int) (blind : Bool) (w w' : World)
    (n : UInt32) : Prop where
  kept : (others o (onDisk o w.fs) w'.fs).length =
    min (keep o).toNat (others o (onDisk o w.fs) w.fs).length
  newest : ∀ a b, isRelease o w.fs a = true → isRelease o w'.fs a = false →
    b ∈ others o (onDisk o w.fs) w'.fs → ¬ mtime b < mtime a
  count : n.toNat = ((releases o w.fs).filter fun a => !isRelease o w'.fs a).length
  /-- Once more, and nothing happens. -/
  settled : ∀ {out w''}, Exec answer (Reading o mtime blind) (prune o).run () w' out w'' →
    ∀ q, w''.fs.get q = w'.fs.get q

/-- A `prune` from `w` that was found in `w'`, at its end or on its way. -/
structure Prunes (o : InstallOptions) (mtime : String → Int) (blind : Bool) (w : World)
    (out : Outcome device Unit (Except InstallError UInt32)) (w' : World) : Prop where
  spares : ∀ n, (spared (onDisk o w.fs) n || isInternalName n) = true → ∀ x,
    w'.fs.get (o.releasesRoot ++ [n] ++ x) = w.fs.get (o.releasesRoot ++ [n] ++ x)
  leaves : ∀ n, out = .done (.ok n) () → Leaves o mtime blind w w' n

/-- The failed `stat` of the state file does not matter. -/
def Harmless (o : InstallOptions) (t : FileTree Content) : Prop :=
  (releases o t).length ≤ (keep o).toNat ∨ ∀ n ∈ releases o t, spared (onDisk o t) n = false

theorem doomed_taken (h : blind = true → Harmless o t) (hn : names.Nodup)
    (hsub : ∀ n ∈ names, n ∈ releases o t) :
    doomed (keep o).toNat (taken o blind t) names = doomed (keep o).toNat (onDisk o t) names := by
  cases blind with
  | false => rfl
  | true =>
      rcases h rfl with hfew | hnone
      · have hlength : names.length ≤ (keep o).toNat :=
          (List.subperm_of_subset hn hsub).length_le.trans hfew
        have nothing : ∀ s, doomed (keep o).toNat s names = [] := fun s =>
          List.drop_eq_nil_of_le ((List.length_filter_le _ names).trans hlength)
        rw [nothing, nothing]
      · refine congrArg (List.drop _) (List.filter_congr fun n hn => ?_)
        have hvalid := validId_of_isRelease (lists_releases.mem n |>.mp (hsub n hn))
        have hne : n ≠ "" := fun h => by
          subst h
          exact absurd hvalid.proper (by decide)
        have hfree : spared (taken o true t) n = false := by simp [spared, taken, hne]
        rw [hnone n (hsub n hn), hfree]

theorem Pruning.spares (h : blind = true → Harmless o w.fs) (hp : Pruning o mtime blind w w')
    {n : String} (hn : (spared (onDisk o w.fs) n || isInternalName n) = true) (x : Path) :
    w'.fs.get (o.releasesRoot ++ [n] ++ x) = w.fs.get (o.releasesRoot ++ [n] ++ x) := by
  obtain ⟨names, hnames, _, hkept⟩ := hp
  rw [doomed_taken h hnames.nodup fun n hn => (lists_releases.mem n).mpr ((hnames.mem n).mp hn)]
    at hkept
  refine hkept _ fun hb => ?_
  have hdoomed := (below_release hnames.doomed_valid x).mp hb
  have hinternal := (hnames.doomed_valid n hdoomed).outer
  rw [(mem_doomed hdoomed).2, hinternal] at hn
  cases hn

theorem Removes.same_state (hg : ∀ n ∈ gone, ValidId n) (h : Removes o gone t t') :
    onDisk o t' = onDisk o t :=
  onDisk_of_get (h.kept _ (not_below_state hg))

theorem Finished.leaves {n : UInt32} (h : blind = true → Harmless o w.fs)
    (hfew : (others o (onDisk o w.fs) w.fs).length ≤ (keep o).toNat + 4294967295)
    (hf : Finished o mtime blind w w' n) : Leaves o mtime blind w w' n := by
  obtain ⟨names, hnames, hsorted, hrem, hcount⟩ := hf
  rw [doomed_taken h hnames.nodup fun n hn => (lists_releases.mem n).mpr ((hnames.mem n).mp hn)]
    at hrem hcount
  have hvalid := hnames.doomed_valid (s := onDisk o w.fs) (k := (keep o).toNat)
  have hrel : ∀ n ∈ doomed (keep o).toNat (onDisk o w.fs) names, isRelease o w.fs n = true :=
    fun n hn => (hnames.mem n).mp (mem_doomed hn).1
  have hnodup := doomed_nodup (k := (keep o).toNat) (s := onDisk o w.fs) hnames.nodup
  have hlength := hnames.length_doomed (s := onDisk o w.fs) (k := (keep o).toNat)
  have hleft := hrem.length_others hnodup hrel fun n hn => (mem_doomed hn).2
  have hkept : (others o (onDisk o w.fs) w'.fs).length =
      min (keep o).toNat (others o (onDisk o w.fs) w.fs).length := by omega
  refine ⟨hkept, fun a b ha ha' hb hlt => ?_, ?_, fun {out w''} he q => ?_⟩
  · -- what is gone was doomed, and what is left was not
    have hb' := mem_others.mp hb
    have hbw := (hrem.remains hvalid b).mp hb'.1
    have hadoomed : a ∈ doomed (keep o).toNat (onDisk o w.fs) names := by
      by_contra hno
      rw [(hrem.remains hvalid a).mpr ⟨ha, hno⟩] at ha'
      cases ha'
    exact absurd hlt (Int.not_lt.mpr
      (not_newer hsorted hadoomed ((hnames.mem b).mpr hbw.1) hb'.2 hbw.2))
  · rw [hrem.length_gone hnodup hrel, hcount, UInt32.toNat_ofNat_of_lt']
    show _ < 4294967296
    omega
  · have hsame := hrem.same_state hvalid
    have hpruning : Pruning o mtime blind w' w'' := by
      have hmeets := wp_sound he prune_listed
      cases out with
      | done res m => exact hmeets.1
      | before m op => exact hmeets
    obtain ⟨left, hlist, _, hkept'⟩ := hpruning
    refine hkept' q ?_
    rintro ⟨m, hm, _⟩
    have htaken : taken o blind w'.fs = taken o blind w.fs := by rw [taken, taken, hsame]
    rw [htaken, doomed_taken h hlist.nodup fun n hn => (lists_releases.mem n).mpr
      ((hrem.remains hvalid n).mp ((hlist.mem n).mp hn)).1] at hm
    have hnone : (doomed (keep o).toNat (onDisk o w.fs) left).length = 0 := by
      rw [hlist.length_doomed]
      omega
    rw [List.length_eq_zero_iff.mp hnone] at hm
    cases hm

/-- A `prune` does what it is to do exactly if the failed `stat` of the state
file, where it fails, does not matter, and if the releases that it removes can
be counted, or none is removed because the state file is not understood. -/
theorem prune_keeps_iff :
    (∀ out w', Exec answer (Reading o mtime blind) (prune o).run () w out w' →
      Prunes o mtime blind w out w') ↔
    (blind = true → Harmless o w.fs) ∧
      ((others o (onDisk o w.fs) w.fs).length ≤ (keep o).toNat + 4294967295 ∨
        (blind = false ∧ Legible o w.fs = false)) := by
  constructor
  · intro h
    have hharmless : blind = true → Harmless o w.fs := by
      intro hblind
      obtain ⟨n, w', he⟩ := prune_ends mtime (w := w) (o := o) (Or.inl hblind)
      exact harmless_of_prunes hblind he (h _ _ he)
    refine ⟨hharmless, ?_⟩
    by_contra hno
    obtain ⟨hmany, hread⟩ := not_or.mp hno
    have hlegible : blind = true ∨ Legible o w.fs = true := by
      cases blind with
      | true => exact Or.inl rfl
      | false => exact Or.inr (Bool.eq_true_of_not_eq_false fun hl => hread ⟨rfl, hl⟩)
    obtain ⟨n, w', he⟩ := prune_ends mtime hlegible
    obtain ⟨names, hnames, _, hrem, _⟩ := (wp_done he prune_listed).2 n rfl
    rw [doomed_taken hharmless hnames.nodup fun n hn =>
      (lists_releases.mem n).mpr ((hnames.mem n).mp hn)] at hrem
    -- more are gone than the count can say
    have hcount := ((h _ _ he).leaves n rfl).count
    rw [hrem.length_gone (doomed_nodup hnames.nodup)
      fun m hm => (hnames.mem m).mp (mem_doomed hm).1, hnames.length_doomed] at hcount
    have hsmall : n.toNat < 4294967296 := n.toNat_lt
    omega
  · rintro ⟨hharmless, hfew⟩ out w' he
    have hmeets := wp_sound he prune_listed
    cases out with
    | before m op =>
        exact ⟨fun n hn x => Pruning.spares hharmless hmeets hn x, fun n hn => by cases hn⟩
    | done res m =>
        refine ⟨fun n hn x => hmeets.1.spares hharmless hn x, fun n hn => ?_⟩
        cases hn
        rcases hfew with hfew | ⟨rfl, hillegible⟩
        · exact (hmeets.2 n rfl).leaves hharmless hfew
        · exact absurd rfl (wp_done he (prune_illegible hillegible) n)
where
  /-- With the active or the previous release among more releases than are
  kept, either it is removed, or one of the others too many. -/
  harmless_of_prunes {n : UInt32} {w' : World} (hblind : blind = true)
      (he : Exec answer (Reading o mtime blind) (prune o).run () w (.done (.ok n) ()) w')
      (hp : Prunes o mtime blind w (.done (.ok n) ()) w') : Harmless o w.fs := by
    by_contra hno
    simp only [Harmless, not_or, not_le, not_forall, Bool.not_eq_false] at hno
    obtain ⟨hmany, p, hp', hsp⟩ := hno
    obtain ⟨names, hnames, _, hrem, _⟩ := (wp_done he prune_listed).2 n rfl
    subst hblind
    have hfree : ∀ m ∈ releases o w.fs, spared (taken o true w.fs) m = false := by
      intro m hm
      have hne : m ≠ "" := fun h => by
        subst h
        exact absurd (validId_of_isRelease ((lists_releases.mem _).mp hm)).proper (by decide)
      simp [spared, taken, hne]
    have hall : others o (taken o true w.fs) w.fs = releases o w.fs :=
      List.filter_eq_self.mpr fun m hm => by simp [hfree m hm]
    have hlength := hnames.length_doomed (s := taken o true w.fs) (k := (keep o).toNat)
    rw [hall] at hlength
    have hrel : ∀ m ∈ doomed (keep o).toNat (taken o true w.fs) names, isRelease o w.fs m = true :=
      fun m hm => (hnames.mem m).mp (mem_doomed hm).1
    have hsafe : ∀ m ∈ doomed (keep o).toNat (taken o true w.fs) names,
        spared (onDisk o w.fs) m = false := by
      intro m hm
      by_contra hm'
      have hkept := hp.spares m (by simp [Bool.eq_true_of_not_eq_false hm']) []
      rw [hrem.lost _ ((below_release hnames.doomed_valid []).mpr hm), List.append_nil] at hkept
      have hdir := hrel m hm
      simp only [isRelease, Bool.and_eq_true] at hdir
      rw [FileTree.isDir_iff.mp hdir.1] at hkept
      cases hkept
    have hleft := hrem.length_others (doomed_nodup hnames.nodup) hrel hsafe
    have hkept := (hp.leaves n rfl).kept
    have hfewer : (others o (onDisk o w.fs) w.fs).length < (releases o w.fs).length :=
      List.length_filter_lt_length_iff_exists.mpr ⟨p, hp', by simp [hsp]⟩
    omega

namespace Sample

/-- Nothing is kept but the active and the previous release. -/
def sparing : InstallOptions := { options with keepPreviousReleases := 0 }

/-- `r2` is active, and `r1` was before it. -/
def twoReleases : World :=
  .idle (.ofFiles
    [(["srv", "releases", "r1", "app"], .text "one"),
      (["srv", "releases", "r2", "app"], .text "two"),
      (["srv", "state.json"], .json (ActivationState.toJson ⟨"r2", "r1", "then"⟩))]) "boot"

def unseen : Choice := { chance := { fault := some "Permission denied" } }

end Sample

/-- The `stat` of the state file fails, and the active release is removed. -/
theorem active_is_pruned :
    ¬ ∀ out w', Exec answer (Reading Sample.sparing (fun _ => 0) true) (prune Sample.sparing).run ()
        Sample.twoReleases out w' →
      Prunes Sample.sparing (fun _ => 0) true Sample.twoReleases out w' := by
  intro h
  have hend : ((prune Sample.sparing).run.run answer (Sample.unseen :: List.replicate 8 {}) ()
      Sample.twoReleases).1 = .done (.ok 2) () := rfl
  have hrun := exec_of_run (A := Reading Sample.sparing (fun _ => 0) true) (by decide +kernel) hend
  have hkept := congrArg Option.isSome ((h _ _ hrun).spares "r2" (by decide) [])
  revert hkept
  decide +kernel

end Install

end Yirang
