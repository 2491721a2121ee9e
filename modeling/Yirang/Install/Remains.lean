/-
# `Yirang.Install.Remains` — no release is lost

Beside the disk a ledger is kept.  The rename that puts a staging directory
in the place of a release enters what it publishes; the `remove_all` with
which `prune` turns to a release strikes its entries.

    entered          the note of a call
    Remains          a copy that was published is on the disk, in the place of
                     the release or under a retired name
    AllKept          the newest copy of every release is in its place
    Exposed          the next call puts a release in its place, and none is
                     there, though one was published
    copies_remain    a run that is never killed where a release is exposed
                     loses none

Where a release is exposed its only copy has a retired name, and the next
`install` of any release sweeps those away.
-/
import Yirang.Install.Activation

namespace Yirang

open Fs Effect Device

namespace Install

/-! ## The ledger -/

/-- What lies under a directory. -/
abbrev Copy := Path → Option (Entry Content)

/-- What was published of each release, the newest first. -/
abbrev Ledger := String → List Copy

def copyAt (w : World) (p : Path) : Copy := fun x => w.fs.get (p ++ x)

variable {o : InstallOptions} {A : World → Op → Choice → Prop} {w w' : World} {r : String}
  {op : Op} {h h' : World × Ledger}

def entered (o : InstallOptions) : Note device World Ledger
  | .file (.rename a b), .ok _, _, w', ledger => fun r =>
      if a = o.stagingDirectory r ∧ b = o.releaseDirectory r then copyAt w' b :: ledger r
      else ledger r
  | .file (.removeAll p), _, _, _, ledger => fun r =>
      if p = o.releaseDirectory r then [] else ledger r
  | _, _, _, _, ledger => ledger

/-- The device, with a ledger beside it. -/
def noted (o : InstallOptions) : Answers device (World × Ledger) Choice := answer.noting (entered o)

/-- The names that the copies of a release can have. -/
inductive Holds (o : InstallOptions) (r : String) : Path → Prop
  | place : Holds o r (o.releaseDirectory r)
  | retired : Holds o r (o.retiredDirectory r)
  | stamped (stamp : Int) : Holds o r (o.stampedDirectory r stamp)

/-- A copy that was published is whole on the disk. -/
def Remains (o : InstallOptions) (h : World × Ledger) (r : String) : Prop :=
  ∃ copy ∈ h.2 r, ∃ p, Holds o r p ∧ copyAt h.1 p = copy

/-- The newest copy lies at `p`. -/
def NewestAt (h : World × Ledger) (r : String) (p : Path) : Prop :=
  ∀ copy, (h.2 r).head? = some copy → copyAt h.1 p = copy

theorem NewestAt.remains {p : Path} (h₀ : NewestAt h r p) (hp : Holds o r p)
    (hne : h.2 r ≠ []) : Remains o h r := by
  obtain ⟨copy, older, hledger⟩ := List.exists_cons_of_ne_nil hne
  refine ⟨copy, by rw [hledger]; exact List.mem_cons_self, p, hp, h₀ copy ?_⟩
  rw [hledger]
  rfl

def AllKept (o : InstallOptions) (h : World × Ledger) : Prop :=
  ∀ r, ValidId r → NewestAt h r (o.releaseDirectory r)

def KeptBut (o : InstallOptions) (r : String) (h : World × Ledger) : Prop :=
  ∀ r', ValidId r' → r' ≠ r → NewestAt h r' (o.releaseDirectory r')

def Exposed (o : InstallOptions) (h : World × Ledger) (op : Op) : Prop :=
  ∃ r, ValidId r ∧ h.2 r ≠ [] ∧ h.1.fs.get (o.releaseDirectory r) = none ∧
    Onto (o.releaseDirectory r) op

/-- What holds in front of every call. -/
structure Boundary (o : InstallOptions) (_ : Unit) (h : World × Ledger) (op : Op) : Prop where
  remains : ∀ r, ValidId r → h.2 r ≠ [] → Remains o h r
  kept : ¬ Exposed o h op → AllKept o h

theorem AllKept.boundary (hk : AllKept o h) : Boundary o () h op :=
  ⟨fun r hr hne => (hk r hr).remains .place hne, fun _ => hk⟩

/-- A release is on its way to its place, or back. -/
structure Swapping (o : InstallOptions) (r : String) (h : World × Ledger) : Prop where
  others : KeptBut o r h
  aside : NewestAt h r (o.retiredDirectory r)
  gone : h.1.fs.get (o.releaseDirectory r) = none

theorem Swapping.boundary (hr : ValidId r) (hs : Swapping o r h)
    (honto : Onto (o.releaseDirectory r) op) : Boundary o () h op := by
  constructor
  · intro r' hr' hne
    by_cases hsame : r' = r
    · subst hsame
      exact hs.aside.remains .retired hne
    · exact (hs.others r' hr' hsame).remains .place hne
  · intro hnot r' hr'
    by_cases hsame : r' = r
    · -- it is in nobody's ledger
      subst hsame
      intro copy hhead
      have hempty : h.2 r' = [] := by
        by_contra hne
        exact hnot ⟨r', hr', hne, hs.gone, honto⟩
      rw [hempty] at hhead
      cases hhead
    · exact hs.others r' hr' hsame

/-! ## What one call does to the ledger -/

theorem entered_of_apart {res : Op.Res op} {ledger : Ledger}
    (hp : ¬ op.writes (o.releaseDirectory r)) :
    entered o op res w w' ledger r = ledger r := by
  unfold entered
  split
  · rename_i a b _ _ _
    refine if_neg fun hab => hp (Or.inr ?_)
    rw [hab.2]
  · rename_i p _ _ _
    refine if_neg fun he => hp ?_
    rw [he]
    exact List.prefix_rfl
  · rfl

/-- The call leaves what was there of a release in its place. -/
theorem newestAt_frame {c : Choice} (hp : ∀ x, ¬ op.writes (o.releaseDirectory r ++ x))
    (h₀ : NewestAt h r (o.releaseDirectory r)) :
    NewestAt (noted o c op h).2 r (o.releaseDirectory r) := by
  have hledger : (noted o c op h).2.2 r = h.2 r := by
    refine entered_of_apart fun hw => hp [] ?_
    rw [List.append_nil]
    exact hw
  intro copy hhead
  rw [hledger] at hhead
  rw [← h₀ copy hhead]
  exact funext fun x => perform_files (hp x)

def Keeps (o : InstallOptions) (op : Op) : Prop :=
  ∀ c h, AllKept o h → AllKept o (noted o c op h).2

theorem keeps_of_touches {X : Path → Prop}
    (hX : ∀ r, ValidId r → ∀ x, ¬ X (o.releaseDirectory r ++ x)) (ht : Touches X op) :
    Keeps o op :=
  fun _ _ hk r hr => newestAt_frame (fun x hw => hX r hr x (ht.1 _ hw)) (hk r hr)

/-- Below another release nothing lies. -/
theorem not_under_release {r' : String} (hr : ValidId r) (hr' : ValidId r') (hne : r' ≠ r)
    (x : Path) : ¬ o.releaseDirectory r <+: o.releaseDirectory r' ++ x := by
  rw [hr.releaseDirectory, hr'.releaseDirectory]
  exact not_under_child (Ne.symm hne) x

/-- A rename that fails changes neither the disk nor the ledger. -/
theorem noted_rename_error {c : Choice} {a b : Path} {e : String}
    (he : (answer c (.file (.rename a b)) h.1).1 = .error e) :
    (noted o c (.file (.rename a b)) h).2.1.fs = h.1.fs ∧
      (noted o c (.file (.rename a b)) h).2.2 = h.2 := by
  refine ⟨rename_error he, ?_⟩
  show entered o (.file (.rename a b)) (answer c (.file (.rename a b)) h.1).1 h.1 _ h.2 = h.2
  rw [he]
  rfl

theorem NewestAt.of_same {p : Path} (h₀ : NewestAt h r p) (hfs : h'.1.fs = h.1.fs)
    (hledger : h'.2 = h.2) : NewestAt h' r p := by
  intro copy hhead
  rw [hledger] at hhead
  rw [← h₀ copy hhead]
  exact funext fun x => get_same hfs (p ++ x)

theorem AllKept.of_same (hk : AllKept o h) (hfs : h'.1.fs = h.1.fs) (hledger : h'.2 = h.2) :
    AllKept o h' :=
  fun r hr => (hk r hr).of_same hfs hledger

theorem Swapping.of_same (hs : Swapping o r h) (hfs : h'.1.fs = h.1.fs)
    (hledger : h'.2 = h.2) : Swapping o r h' :=
  ⟨fun r' hr' hne => (hs.others r' hr' hne).of_same hfs hledger, hs.aside.of_same hfs hledger,
    (get_same hfs _).trans hs.gone⟩

section Moves

variable {c : Choice} (hr : ValidId r)

include hr

/-- The directories of one release are none of another one's place. -/
theorem moves_apart {a b : Path} {r' : String} (hr' : ValidId r') (hne : r' ≠ r)
    (ha : a = o.stagingDirectory r ∨ a = o.retiredDirectory r ∨ a = o.releaseDirectory r)
    (hb : b = o.retiredDirectory r ∨ b = o.releaseDirectory r) (x : Path) :
    ¬ Op.writes (.file (.rename a b)) (o.releaseDirectory r' ++ x) := by
  have hrelease := not_under_release (o := o) hr hr' hne x
  have hretired : ¬ o.retiredDirectory r <+: o.releaseDirectory r' ++ x := fun h =>
    not_retired_release hr' x (retired_of_under hr h)
  have hstaging : ¬ o.stagingDirectory r <+: o.releaseDirectory r' ++ x := fun h =>
    not_copied_release hr hr' x (Or.inr h)
  rintro (h | h)
  · rcases ha with rfl | rfl | rfl
    · exact hstaging h
    · exact hretired h
    · exact hrelease h
  · rcases hb with rfl | rfl
    · exact hretired h
    · exact hrelease h

/-- The new copy comes to its place: it is entered as it lies there. -/
theorem published_kept (hk : KeptBut o r h)
    (hres : (answer c (.file (.rename (o.stagingDirectory r) (o.releaseDirectory r))) h.1).1 =
      .ok ()) :
    AllKept o (noted o c (.file (.rename (o.stagingDirectory r) (o.releaseDirectory r))) h).2 := by
  intro r' hr'
  by_cases hsame : r' = r
  · subst hsame
    intro copy hhead
    have hledger : (noted o c (.file (.rename (o.stagingDirectory r') (o.releaseDirectory r')))
        h).2.2 r' = copyAt (answer c (.file (.rename (o.stagingDirectory r')
          (o.releaseDirectory r'))) h.1).2 (o.releaseDirectory r') :: h.2 r' := by
      show entered o _ (answer c (.file (.rename _ _)) h.1).1 h.1 _ h.2 r' = _
      rw [hres]
      exact if_pos ⟨rfl, rfl⟩
    rw [hledger] at hhead
    exact Option.some.inj hhead
  · exact newestAt_frame (moves_apart hr hr' hsame (Or.inl rfl) (Or.inr rfl)) (hk r' hr' hsame)

/-- The old copy goes aside, with its entries. -/
theorem setAside_swaps (hk : AllKept o h)
    (hres : (answer c (.file (.rename (o.releaseDirectory r) (o.retiredDirectory r))) h.1).1 =
      .ok ()) :
    Swapping o r
      (noted o c (.file (.rename (o.releaseDirectory r) (o.retiredDirectory r))) h).2 := by
  have hledger : (noted o c (.file (.rename (o.releaseDirectory r) (o.retiredDirectory r)))
      h).2.2 r = h.2 r := by
    show entered o _ (answer c (.file (.rename _ _)) h.1).1 h.1 _ h.2 r = _
    rw [hres]
    refine if_neg fun hab => (names_apart (o := o) hr []).1 ?_
    rw [List.append_nil, hab.2]
  refine ⟨fun r' hr' hne => ?_, fun copy hhead => ?_, ?_⟩
  · exact newestAt_frame (moves_apart hr hr' hne (Or.inr (Or.inr rfl)) (Or.inl rfl)) (hk r' hr')
  · rw [hledger] at hhead
    rw [← hk r hr copy hhead]
    exact funext fun x => carries_rename hres x
  · have hmoved := FileTree.get_moveAt (rename_ok hres) (o.releaseDirectory r)
    rw [if_neg, if_pos List.prefix_rfl] at hmoved
    · exact hmoved
    · intro h
      refine (names_apart (o := o) hr []).1 ?_
      rw [List.append_nil]
      exact h

/-- The old copy comes back. -/
theorem putBack_kept (hs : Swapping o r h)
    (hres : (answer c (.file (.rename (o.retiredDirectory r) (o.releaseDirectory r))) h.1).1 =
      .ok ()) :
    AllKept o (noted o c (.file (.rename (o.retiredDirectory r) (o.releaseDirectory r))) h).2 := by
  have hledger : (noted o c (.file (.rename (o.retiredDirectory r) (o.releaseDirectory r)))
      h).2.2 r = h.2 r := by
    show entered o _ (answer c (.file (.rename _ _)) h.1).1 h.1 _ h.2 r = _
    rw [hres]
    refine if_neg fun hab => (names_apart (o := o) hr []).2.2.2.1 ?_
    rw [List.append_nil, hab.1]
  intro r' hr'
  by_cases hsame : r' = r
  · subst hsame
    intro copy hhead
    rw [hledger] at hhead
    rw [← hs.aside copy hhead]
    exact funext fun x => carries_rename hres x
  · exact newestAt_frame (moves_apart hr hr' hsame (Or.inr (Or.inl rfl)) (Or.inr rfl))
      (hs.others r' hr' hsame)

/-- `prune` strikes the entries of what it removes. -/
theorem removal_keeps : Keeps o (.file (.removeAll (o.releaseDirectory r))) := by
  intro c h hk r' hr'
  by_cases hsame : r' = r
  · subst hsame
    intro copy hhead
    have hledger : (noted o c (.file (.removeAll (o.releaseDirectory r'))) h).2.2 r' = [] :=
      if_pos rfl
    rw [hledger] at hhead
    cases hhead
  · exact newestAt_frame (fun x => not_under_release hr hr' hsame x) (hk r' hr')

end Moves

/-! ## What the functions do -/

/-- The choices that are allowed, whatever the ledger says. -/
def allowed (A : World → Op → Choice → Prop) (h : World × Ledger) (op : Op) (c : Choice) : Prop :=
  A h.1 op c

instance [∀ w op c, Decidable (A w op c)] (h : World × Ledger) (op : Op) (c : Choice) :
    Decidable (allowed A h op c) :=
  inferInstanceAs (Decidable (A h.1 op c))

theorem wp_keeps {α : Type} {p : Program device Unit α} (hp : Uses (Keeps o) p)
    (hk : AllKept o h) :
    wp (noted o) (allowed A) (Boundary o) p (fun _ _ h' => AllKept o h') () h :=
  wp_of_uses (fun h _ c ho _ hk => ho c h hk) (fun _ _ _ _ hk => hk.boundary) hp hk

/-- One call, and what comes after it. -/
theorem wp_keeping {f : FileOp Content}
    {Q : Except InstallError (FileOp.Res f) → Unit → World × Ledger → Prop}
    (hop : Keeps o (.file f)) (hk : AllKept o h)
    (hnext : ∀ res h', AllKept o h' → Q (.ok res) () h') :
    wp (noted o) (allowed A) (Boundary o) (file f : Step (FileOp.Res f)).run Q () h :=
  ⟨hk.boundary, fun c _ => hnext _ _ (hop c h hk)⟩

theorem keeps_retired (ht : Touches (Retired o) op) : Keeps o op :=
  keeps_of_touches (fun _ hr => not_retired_release hr) ht

theorem keeps_copied (hr : ValidId r) (ht : Touches (Copied o r) op) : Keeps o op :=
  keeps_of_touches (fun _ hr' => not_copied_release hr hr') ht

/-- A call that writes nothing. -/
theorem keeps_read {f : FileOp Content} (hf : ∀ q, ¬ f.writes q) : Keeps o (.file f) :=
  keeps_of_touches (X := Untouched) (fun _ _ _ hx => hx) ⟨fun q hq => hf q hq, id⟩

section Publishing

variable (hr : ValidId r) (hR : Restores o r A)

include hr

theorem setAside_wp (hk : AllKept o h) :
    wp (noted o) (allowed A) (Boundary o) (setAside o r).run
      (fun res _ h' => res = .ok () ∧ Swapping o r h' ∨ (∃ e, res = .error e) ∧ AllKept o h')
      () h := by
  unfold setAside
  have hclear : Keeps o (.file (.removeAll (o.retiredDirectory r))) :=
    keeps_retired ⟨fun _ hq => retired_of_under hr hq, id⟩
  refine wp_seq.mpr (wp_orFail.mpr (wp_keeping hclear hk fun res h₁ hk₁ => ?_))
  cases res with
  | error e => exact Or.inr ⟨⟨_, rfl⟩, hk₁⟩
  | ok _ =>
      refine wp_orFail.mpr ⟨hk₁.boundary, fun c _ => ?_⟩
      show settled _ _ (.ok (answer c (.file (.rename _ _)) h₁.1).1) () _
      cases hres : (answer c (.file (.rename (o.releaseDirectory r) (o.retiredDirectory r)))
          h₁.1).1 with
      | ok _ => exact Or.inl ⟨rfl, setAside_swaps hr hk₁ hres⟩
      | error e =>
          obtain ⟨hfs, hledger⟩ := noted_rename_error (o := o) hres
          exact Or.inr ⟨⟨_, rfl⟩, hk₁.of_same hfs hledger⟩

include hR

/-- What was set aside comes back. -/
theorem restore_wp {replacing : Bool} {reason : String}
    (hs : replacing = false ∧ AllKept o h ∨ replacing = true ∧ Swapping o r h) :
    wp (noted o) (allowed A) (Boundary o) (restore o r replacing reason).run
      (fun _ _ h' => AllKept o h') () h := by
  rcases hs with ⟨rfl, hk⟩ | ⟨rfl, hs⟩
  · exact hk
  · refine wp_seq.mpr ⟨hs.boundary hr rfl, fun c hc => ?_⟩
    have hres := hR _ c hc
    show andThen _ _ _ _ _ (.ok (answer c (.file (.rename _ _)) h.1).1) () _
    rw [hres]
    exact putBack_kept hr hs hres

theorem publishStaging_wp (hk : AllKept o h) :
    wp (noted o) (allowed A) (Boundary o) (publishStaging o (o.stagingDirectory r) r).run
      (fun _ _ h' => AllKept o h') () h := by
  unfold publishStaging
  refine wp_seq_of (wp_keeps (sweepRetired_uses.mono fun _ ht => keeps_retired ht) hk) ?_
    fun _ _ _ hk₁ => hk₁
  intro _ _ h₁ hk₁
  refine wp_seq.mpr (wp_keeping (keeps_read fun _ hq => hq) hk₁ fun replacing h₂ hk₂ => ?_)
  refine wp_seq_of (P := fun res _ h₃ =>
    res = .ok () ∧ (replacing = false ∧ AllKept o h₃ ∨ replacing = true ∧ Swapping o r h₃) ∨
      (∃ e, res = .error e) ∧ AllKept o h₃) ?_ ?_ ?_
  · refine wp_provided.mpr ?_
    cases replacing with
    | false => exact Or.inl ⟨rfl, Or.inl ⟨rfl, hk₂⟩⟩
    | true =>
        refine wp_conseq (setAside_wp hr hk₂) ?_
        rintro res _ h₃ (⟨rfl, hs⟩ | herror)
        · exact Or.inl ⟨rfl, Or.inr ⟨rfl, hs⟩⟩
        · exact Or.inr herror
  · rintro _ _ h₃ (⟨-, hs⟩ | ⟨⟨e, he⟩, -⟩)
    · have hbut : KeptBut o r h₃ := by
        rcases hs with ⟨-, hk₃⟩ | ⟨-, hs₃⟩
        · exact fun r' hr' _ => hk₃ r' hr'
        · exact hs₃.others
      have hboundary : Boundary o () h₃
          (.file (.rename (o.stagingDirectory r) (o.releaseDirectory r))) := by
        rcases hs with ⟨-, hk₃⟩ | ⟨-, hs₃⟩
        · exact hk₃.boundary
        · exact hs₃.boundary hr rfl
      refine wp_seq.mpr ⟨hboundary, fun c _ => ?_⟩
      show andThen _ _ _ _ _ (.ok (answer c (.file (.rename _ _)) h₃.1).1) () _
      cases hres : (answer c (.file (.rename (o.stagingDirectory r) (o.releaseDirectory r)))
          h₃.1).1 with
      | ok _ =>
          have hk₄ := published_kept hr hbut hres
          exact wp_keeps ((dropRetired_uses hr).mono fun _ ht => keeps_retired ht) hk₄
      | error reason =>
          obtain ⟨hfs, hledger⟩ := noted_rename_error (o := o) hres
          refine restore_wp hr hR (hs.imp ?_ ?_)
          · exact fun ⟨hrep, hk₃⟩ => ⟨hrep, hk₃.of_same hfs hledger⟩
          · exact fun ⟨hrep, hs₃⟩ => ⟨hrep, hs₃.of_same hfs hledger⟩
    · cases he
  · rintro e _ h₃ (⟨he, -⟩ | ⟨-, hk₃⟩)
    · cases he
    · exact hk₃

omit hR in
theorem discarding_wp {part : Step Unit}
    (hpart : wp (noted o) (allowed A) (Boundary o) part.run (fun _ _ h' => AllKept o h') () h) :
    wp (noted o) (allowed A) (Boundary o) (discarding (o.stagingDirectory r) part).run
      (fun _ _ h' => AllKept o h') () h := by
  have hdrop : Uses (Keeps o) (discard (o.stagingDirectory r)).run :=
    Uses.seq (Uses.ask (keeps_copied hr ⟨fun _ hq => Or.inr hq, id⟩)) fun _ => trivial
  unfold discarding
  refine wp_seq.mpr (wp_attempt.mpr (wp_conseq hpart ?_))
  intro res _ h₁ hk₁
  have hout : ∀ e : InstallError, wp (noted o) (allowed A) (Boundary o)
      (discard (o.stagingDirectory r) >>= fun _ => (throw e : Step Unit)).run
      (fun _ _ h' => AllKept o h') () h₁ := fun e =>
    wp_seq_of (wp_keeps hdrop hk₁) (fun _ _ _ hk₂ => hk₂) fun _ _ _ hk₂ => hk₂
  cases res with
  | ok _ => exact hk₁
  | error e =>
      cases e with
      | threw why => exact hk₁
      | _ => exact hout _

end Publishing

theorem install_wp (hR : Restoring o A) (hk : AllKept o h) (source : Path) :
    wp (noted o) (allowed A) (Boundary o) (install o r source).run
      (fun _ _ h' => AllKept o h') () h := by
  unfold install
  refine wp_require_seq.mpr ?_
  split
  case isFalse => exact hk
  refine wp_seq.mpr (wp_conclude.mpr ?_)
  cases hv : validateReleaseId r with
  | error e => exact hk
  | ok _ =>
      have hr := validId_of_validate hv
      have hclear : Keeps o (.file (.removeAll (o.stagingDirectory r))) :=
        keeps_copied hr ⟨fun _ hq => Or.inr hq, id⟩
      have hmake : Keeps o (.file (.createDirectories (o.stagingDirectory r))) :=
        keeps_copied hr ⟨fun _ hq => Or.inl hq, id⟩
      refine wp_seq.mpr (wp_keeping (keeps_read fun _ hq => hq) hk fun there h₁ hk₁ => ?_)
      refine wp_require_seq.mpr ?_
      split
      case isFalse => exact hk₁
      refine wp_seq.mpr (wp_keeping hclear hk₁ fun _ h₂ hk₂ => ?_)
      refine wp_seq.mpr (wp_orFail.mpr (wp_keeping hmake hk₂ fun made h₃ hk₃ => ?_))
      cases made with
      | error e => exact hk₃
      | ok _ =>
          refine discarding_wp hr (wp_seq_of (wp_keeps
            ((copySource_uses source).mono fun _ ht => keeps_copied hr ht) hk₃) ?_
            fun _ _ _ hk₄ => hk₄)
          exact fun _ _ h₄ hk₄ => publishStaging_wp hr (hR r hr) hk₄

theorem keeps_pointed (ht : Touches (Pointed o) op) : Keeps o op :=
  keeps_of_touches (fun _ hr _ => not_pointed_release hr) ht

theorem keeps_untouched (ht : Touches Untouched op) : Keeps o op :=
  keeps_of_touches (fun _ _ _ hx => hx) ht

theorem pruneAll_keeps {s : ActivationState} {names : List String} {k : Int}
    (hnames : ∀ n ∈ names, ValidId n) (retained : Int) (removed : UInt32) :
    Uses (Keeps o)
      (pruneAll { o with keepPreviousReleases := k } s names retained removed).run := by
  induction names generalizing retained removed with
  | nil => trivial
  | cons n rest ih =>
      have hrest : ∀ m ∈ rest, ValidId m := fun m hm => hnames m (List.mem_cons_of_mem n hm)
      unfold pruneAll
      split
      · exact ih hrest _ _
      · split
        · exact ih hrest _ _
        · refine Uses.seq (Uses.orFail (Uses.ask ?_)) fun _ => ih hrest _ _
          exact removal_keeps (hnames n List.mem_cons_self)

theorem prune_wp (hk : AllKept o h) (k : Int) :
    wp (noted o) (allowed A) (Boundary o) (prune { o with keepPreviousReleases := k }).run
      (fun _ _ h' => AllKept o h') () h := by
  unfold prune
  refine wp_seq_of (wp_keeps (state_uses.mono fun _ ht => keeps_untouched ht) hk) ?_
    fun _ _ _ hk₁ => hk₁
  intro current _ h₁ hk₁
  have hnames : wp (noted o) (allowed A) Anywhere
      (installed { o with keepPreviousReleases := k }).run
      (fun res _ _ => ∀ names, res = .ok names → ∀ n ∈ names, ValidId n) () h₁ :=
    wp_noting h₁.2 installed_names
  refine wp_seq_of (wp_both hnames
    (wp_keeps (installed_uses.mono fun _ ht => keeps_untouched ht) hk₁)) ?_ ?_
  · rintro releases _ h₂ ⟨hvalid, hk₂⟩
    exact wp_keeps (pruneAll_keeps (hvalid releases rfl) 0 0) hk₂
  · rintro e _ h₂ ⟨-, hk₂⟩
    exact hk₂

theorem serve_wp (hR : Restoring o A) (hk : AllKept o h) (c : Call) :
    wp (noted o) (allowed A) (Boundary o) (serve o c).run (fun _ _ h' => AllKept o h') () h := by
  cases c with
  | install r source => exact install_wp hR hk source
  | activate r => exact wp_keeps (activate_uses.mono fun _ ht => keeps_pointed ht) hk
  | rollback =>
      exact wp_seq_of (wp_keeps (rollback_uses.mono fun _ ht => keeps_pointed ht) hk)
        (fun _ _ _ hk₁ => hk₁) fun _ _ _ hk₁ => hk₁
  | prune k => exact wp_seq_of (prune_wp hk k) (fun _ _ _ hk₁ => hk₁) fun _ _ _ hk₁ => hk₁

/-- A run in which every copy that was set aside can be put back, and that is
never killed where a release is exposed: of every release that was published
and not pruned since, a copy that was published is on the disk, in front of
every call and at the end of each. -/
theorem copies_remain (hR : Restoring o A) {w₀ : World} {ph : Phase Unit}
    (hr : Runs (noted o) (allowed A) (fun _ h op => ¬ Exposed o h op) (fun _ _ _ => True)
      (installer o) (w₀, fun _ => []) ph h)
    {c : Call} {out : Outcome device Unit (Except InstallError Unit)}
    (he : Exec (noted o) (allowed A) (serve o c).run () h out h') (hvalid : ValidId r)
    (hpublished : h'.2 r ≠ []) : Remains o h' r := by
  have hkept : ph.Holds (AllKept o) (fun _ h => AllKept o h) h := by
    refine hr.invariant (B := Boundary o) (J := AllKept o) (I := fun _ h => AllKept o h)
      ?_ ?_ (fun _ _ hk => hk) ?_ ?_
    · intro r' _ copy hhead
      cases hhead
    · intro _ h₁ op hB hK
      exact hB.kept hK
    · intro h₁ hk
      exact hk
    · intro _ h₁ c' hk _
      exact serve_wp hR hk c'
  have hall : AllKept o h := by
    cases ph with
    | down => exact hkept
    | up m => exact hkept
  have hmeets := wp_sound he (serve_wp hR hall c)
  cases out with
  | done res m => exact (hmeets r hvalid).remains .place hpublished
  | before m op => exact hmeets.remains r hvalid hpublished

namespace Sample

/-- Nothing is installed yet. -/
def empty : World × Ledger := (.idle (.ofFiles [(["src", "app"], .text "one")]) "boot", fun _ => [])

def after (r : String) (cs : List Choice) (h : World × Ledger) : World × Ledger :=
  ((serve options (.install r ["src"])).run.run (noted options) cs () h).2

/-- `r1` is published, and is being replaced when the installer is killed
between the two renames; then `r2` is installed. -/
def published : World × Ledger := after "r1" (List.replicate 12 {}) empty

def killed : World × Ledger := after "r1" (List.replicate 12 {}) published

def swept : World × Ledger := after "r2" (List.replicate 14 {}) killed

/-- An install that goes as the choices say. -/
def Goes (r : String) (cs : List Choice) (h : World × Ledger)
    (out : Outcome device Unit (Except InstallError Unit)) : Prop :=
  Exec (noted options) (allowed seeing) (serve options (.install r ["src"])).run () h out
    (after r cs h)

theorem publishes : Goes "r1" (List.replicate 12 {}) empty (.done (.ok ()) ()) :=
  exec_of_run (by decide +kernel) rfl

theorem dies : Goes "r1" (List.replicate 12 {}) published
    (.before () (.file (.rename (options.stagingDirectory "r1")
      (options.releaseDirectory "r1")))) :=
  exec_of_run (by decide +kernel) rfl

theorem sweeps : Goes "r2" (List.replicate 14 {}) killed (.done (.ok ()) ()) :=
  exec_of_run (by decide +kernel) rfl

end Sample

theorem copies_remain_killed :
    Sample.killed.2 "r1" ≠ [] ∧ Remains Sample.options Sample.killed "r1" := by
  have hpublished : Sample.killed.2 "r1" ≠ [] := List.cons_ne_nil _ _
  have hrun : Runs (noted Sample.options) (allowed Sample.seeing)
      (fun _ h op => ¬ Exposed Sample.options h op) (fun _ _ _ => True) (installer Sample.options)
      Sample.empty (.up ()) Sample.published :=
    .call (.install "r1" ["src"]) (.boot .first (.pure _ _ _)) trivial Sample.publishes
  refine ⟨hpublished, copies_remain ?_ hrun Sample.dies ⟨by decide, by decide⟩ hpublished⟩
  exact Sample.restoring_of_renames fun _ _ _ h => h.2

/-- A reinstall of `r1` is killed between the two renames, and the next
install sweeps the only copy away. -/
theorem only_copy_is_swept :
    Runs (noted Sample.options) (allowed Sample.seeing) (fun _ _ _ => True) (fun _ _ _ => True)
        (installer Sample.options) Sample.empty (.up ()) Sample.swept ∧
      Sample.swept.2 "r1" ≠ [] ∧ ¬ Remains Sample.options Sample.swept "r1" := by
  refine ⟨?_, List.cons_ne_nil _ _, ?_⟩
  · refine .call (.install "r2" ["src"]) (.boot ?_ (.pure _ _ _)) trivial Sample.sweeps
    refine .killed (.install "r1" ["src"]) ?_ trivial Sample.dies trivial
    exact .call (.install "r1" ["src"]) (.boot .first (.pure _ _ _)) trivial Sample.publishes
  · rintro ⟨copy, hcopy, p, hp, hlies⟩
    -- a copy that was published is a directory, and under no name is there one
    have hdir : copy [] = some .dir := by
      have hledger : Sample.swept.2 "r1" =
          [copyAt Sample.published.1 (Sample.options.releaseDirectory "r1")] := rfl
      rw [hledger, List.mem_singleton] at hcopy
      rw [hcopy, copyAt, List.append_nil]
      exact FileTree.isDir_iff.mp (by decide +kernel)
    have hchildren : Sample.swept.1.fs.children Sample.options.releasesRoot =
        ["r2", ".staging-r1"] := by decide +kernel
    have hnone : ∀ n, startsWith n kRetiredPrefix = true →
        Sample.swept.1.fs.get (Sample.options.releasesRoot ++ [n]) = none := by
      intro n hn
      by_contra hthere
      have hmem := FileTree.mem_children.mpr hthere
      rw [hchildren] at hmem
      simp only [List.mem_cons, List.not_mem_nil, or_false] at hmem
      rcases hmem with rfl | rfl
      · exact absurd hn (by decide)
      · exact absurd hn (by decide)
    have hempty : copyAt Sample.swept.1 p [] = none := by
      rw [copyAt, List.append_nil]
      cases hp with
      | place => decide +kernel
      | retired => decide +kernel
      | stamped stamp =>
          refine hnone _ ?_
          rw [String.append_assoc, String.append_assoc]
          exact startsWith_append _ _
    rw [hlies, hdir] at hempty
    cases hempty

end Install

end Yirang
