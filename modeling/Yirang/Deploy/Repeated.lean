/-
# `Yirang.Deploy.Repeated` — an operation that is done once more

What a success of each operation leaves, said so that the success of a second
one can be laid beside it.

    SameService   what counts of the service is as it was
    RolledTo      what a success of `rollbackTo` leaves
    Restarted     what one of `restart` leaves
    AppliedFrom   what one of `apply` leaves; and `SettledIn`, what its last
                  part does

The second `apply` finds its release active, so it moves the pointer from the
release to itself, and what was previous stays.  It finds as many releases as
the `prune` of the first has left, so its own has nothing to remove.
-/
import Yirang.Deploy.Established
import Yirang.Install.Exact
import Yirang.Install.Prune

namespace Yirang.Deploy

open Fs Effect Device Install

variable {cfg : Config} {A : World → Op → Choice → Prop} {m m' : Engine} {w w' w₁ w₂ : World}
  {r : String} {h : ProcessHandle} {source : Path} {l : List (Option ProcessHandle × Bool)}

/-! ## What counts of the service -/

/-- The two names in the state file, all that the releases hold, the release
that the record names, and how the newest instance was started. -/
structure SameService (cfg : Config) (w w' : World) : Prop where
  active : (cfg.stateOn w').active = (cfg.stateOn w).active
  previous : (cfg.stateOn w').previous = (cfg.stateOn w).previous
  releases : ∀ n, ValidId n →
    Carries w (cfg.installer.releaseDirectory n) w' (cfg.installer.releaseDirectory n)
  recorded : (cfg.recordOn w'.fs).releaseId = (cfg.recordOn w.fs).releaseId
  launched : w'.launched = w.launched

/-- The same files, and nothing was started. -/
theorem sameService_of_files (h : ∀ q, w'.fs.get q = w.fs.get q) (hl : w'.launched = w.launched) :
    SameService cfg w w' where
  active := by rw [stateOn_of_get (h _)]
  previous := by rw [stateOn_of_get (h _)]
  releases _ _ x := h _
  recorded := by rw [Config.recordOn_of_get (h _)]
  launched := hl

/-- The newest instance is one of `r`, and the record says so. -/
structure Current (cfg : Config) (r : String) (w : World) : Prop where
  recorded : (cfg.recordOn w.fs).releaseId = r
  launched : w.launched = some (cfg.startOptions r)

theorem Since.launched (hs : Since cfg r h w w' l) :
    w'.launched = some (cfg.startOptions r) := by
  obtain ⟨t, before, ht, -, hnone, -⟩ := hs
  have hmute : t.findSome? Noted.launch = none := List.findSome?_eq_none_iff.mpr fun n hn => by
    cases n with
    | started p => exact absurd hn (hnone p)
    | probed handle success => rfl
    | called => rfl
  rw [World.launched, ht, List.findSome?_append, hmute]
  rfl

theorem Recorded.current (hr : Recorded cfg r h m w') (hs : Since cfg r h w w' l) :
    Current cfg r w' :=
  ⟨by rw [hr.record], hs.launched⟩

/-! ## Rolling back -/

/-- What a success of `rollbackTo r`, called in `w`, leaves. -/
structure RolledTo (cfg : Config) (r : String) (w w' : World) : Prop where
  active : (cfg.stateOn w').active = r
  previous : (cfg.stateOn w').previous =
    if (cfg.stateOn w).active = r then (cfg.stateOn w).previous else (cfg.stateOn w).active
  releases : ∀ n, ValidId n →
    Carries w (cfg.installer.releaseDirectory n) w' (cfg.installer.releaseDirectory n)
  current : Current cfg r w'

theorem rollbackTo_rolls (hA : Honest cfg.installer A) :
    wp answer A Anywhere (rollbackTo cfg r).run
      (fun res _ w' => res = .ok () → RolledTo cfg r w w') m w := by
  unfold rollbackTo
  refine wp_require_seq.mpr ?_
  split
  case isFalse => exact fun hok => by cases hok
  refine wp_seq.mpr (wp_conclude.mpr ?_)
  cases cfg.validateServiceExecutable with
  | error e => exact fun hok => by cases hok
  | ok _ =>
      refine wp_seq.mpr (wp_file.mpr ⟨trivial, fun c _ => ?_⟩)
      have hfs : (answer c (.file (.isDirectory (cfg.installer.releaseDirectory r))) w).2.fs =
        w.fs := rfl
      revert hfs
      generalize (answer c (.file (.isDirectory (cfg.installer.releaseDirectory r))) w).2 = w₁
      intro hfs
      refine wp_require_seq.mpr ?_
      split
      case isFalse => exact fun hok => by cases hok
      refine wp_seq.mpr (wp_rewording.mpr (wp_conseq stop_alike ?_))
      rintro (e | _) m₂ w₂ h₂
      · exact fun hok => by cases hok
      have hs₂ : cfg.stateOn w₂ = cfg.stateOn w :=
        (stateOn_of_get (get_alike h₂)).trans (stateOn_of_get (get_same hfs _))
      refine wp_seq.mpr (wp_installing.mpr (wp_conseq (activate_spec (A := A) Safe.anywhere) ?_))
      rintro res _ w₃ ⟨⟨rfl, hvalid, hact⟩ | ⟨⟨e, rfl⟩, -⟩, hw₃⟩
      case inr => exact fun hok => by cases hok
      have hmoved := moved_of_activated hvalid hact
      rw [hs₂] at hmoved
      refine wp_seq.mpr (wp_rewording.mpr (wp_conseq (wp_both
        (launch_records (List.suffix_refl _)) (wp_alike launch_uses)) ?_))
      rintro (e | _) m₄ w₄ ⟨hlaunched, h₄⟩
      · exact fun hok => by cases hok
      obtain ⟨h, hsince, hrec⟩ := hlaunched rfl
      have hs₄ : cfg.stateOn w₄ = cfg.stateOn w₃ := stateOn_of_get (get_alike h₄)
      refine fun _ => ⟨?_, ?_, fun n hn => ?_, hrec.current hsince⟩
      · rw [hs₄]
        exact hmoved.active
      · rw [hs₄]
        exact hmoved.honest hA
      · exact (((carries_of_fs hfs).trans fun x => h₂ _ (not_noting_release hn x)).trans
          (carries_within hw₃ fun x => not_pointed_release hn)).trans
            fun x => h₄ _ (not_noting_release hn x)

/-- The second time the release is active already. -/
theorem RolledTo.again (h : RolledTo cfg r w w₁) (h' : RolledTo cfg r w₁ w₂) :
    SameService cfg w₁ w₂ where
  active := by rw [h'.active, h.active]
  previous := by rw [h'.previous, if_pos h.active]
  releases := h'.releases
  recorded := by rw [h'.current.recorded, h.current.recorded]
  launched := by rw [h'.current.launched, h.current.launched]

/-! ## Restarting -/

/-- What a success of `restart`, called in `w`, leaves. -/
structure Restarted (cfg : Config) (w w' : World) : Prop where
  current : Current cfg (cfg.stateOn w).active w'
  files : Alike (Noting cfg) w w'

theorem restart_restarts (hA : Honest cfg.installer A) :
    wp answer A Anywhere (restart cfg).run
      (fun res _ w' => res = .ok () → Restarted cfg w w') m w := by
  have hcurrent : wp answer A Anywhere (restart cfg).run
      (fun res _ w' => res = .ok () → Current cfg (cfg.stateOn w).active w') m w := by
    unfold restart
    refine wp_require_seq.mpr ?_
    split
    case isFalse => exact fun hok => by cases hok
    refine wp_seq.mpr (wp_conclude.mpr ?_)
    cases cfg.validateServiceExecutable with
    | error e => exact fun hok => by cases hok
    | ok _ =>
        refine wp_seq.mpr (wp_installing.mpr (wp_conseq (state_reads (A := A)) ?_))
        rintro (e | current) _ w₁ ⟨-, hread, -⟩
        · exact fun hok => by cases hok
        obtain rfl : current = cfg.stateOn w := (hread current rfl).honest hA
        refine wp_require_seq.mpr ?_
        split
        case isFalse => exact fun hok => by cases hok
        refine wp_seq.mpr (wp_rewording.mpr (wp_conseq stop_alike ?_))
        rintro (e | _) m₂ w₂ -
        · exact fun hok => by cases hok
        refine wp_seq.mpr (wp_rewording.mpr (wp_conseq
          (launch_records (List.suffix_refl _)) ?_))
        rintro (e | _) m₃ w₃ hlaunched
        · exact fun hok => by cases hok
        obtain ⟨h, hsince, hrec⟩ := hlaunched rfl
        refine wp_seq.mpr (wp_rewording.mpr (wp_conseq (awaitReady_proves hsince hrec) ?_))
        rintro (e | _) m₄ w₄ hready
        · exact fun hok => by cases hok
        obtain ⟨⟨rest, hsince₄⟩, hrec₄, -⟩ := hready rfl
        exact fun _ => hrec₄.current hsince₄
  refine wp_conseq (wp_both hcurrent (wp_alike restart_uses)) ?_
  exact fun _ _ _ ⟨hdone, hfiles⟩ hok => ⟨hdone hok, hfiles⟩

theorem Restarted.again (h : Restarted cfg w w₁) (h' : Restarted cfg w₁ w₂) :
    SameService cfg w₁ w₂ where
  active := by rw [stateOn_of_get (get_alike h'.files)]
  previous := by rw [stateOn_of_get (get_alike h'.files)]
  releases n hn x := h'.files _ (not_noting_release hn x)
  recorded := by
    rw [h'.current.recorded, h.current.recorded, stateOn_of_get (get_alike h.files)]
  launched := by
    rw [h'.current.launched, h.current.launched, stateOn_of_get (get_alike h.files)]

/-! ## Applying -/

/-- What `apply` reports of a `prune` that ended well. -/
def prunedDetail (r : String) (n : UInt32) : String :=
  s!"applied release '{r}'" ++ s!" (pruned {n} old release(s))"

theorem pruned_toList_ne {n : UInt32} : s!" (pruned {n} old release(s))".toList ≠ [] := by
  intro h
  have hlength := congrArg List.length h
  simp only [String.toList_append, toString, List.length_append] at hlength
  simp only [List.length_nil, Nat.add_eq_zero_iff] at hlength
  exact absurd hlength.1.1 (by decide)

theorem prunedDetail_ne {n : UInt32} : s!"applied release '{r}'" ++ "" ≠ prunedDetail r n := by
  intro h
  have hsuffix := (String.append_right_inj _).mp h
  exact pruned_toList_ne (n := n) (congrArg String.toList hsuffix).symm

/-- What a success of the last part of `apply r`, from `w` on, leaves: the
`prune` began in a world that has only another record. -/
structure SettledIn (cfg : Config) (r : String) (w : World) (m' : Engine) (w' : World) :
    Prop where
  current : Current cfg r w'
  pruned : ∃ w₁, Alike (Noting cfg) w w₁ ∧
    Within (Pruned cfg.installer (cfg.stateOn w₁)) w₁ w' ∧
    (Tidied cfg.installer (cfg.stateOn w₁) w₁.fs → ∀ q, w'.fs.get q = w₁.fs.get q) ∧
    ∀ n, m'.lastDetail = prunedDetail r n → Tidied cfg.installer (cfg.stateOn w₁) w'.fs

theorem settleIn_settles (hA : Honest cfg.installer A) (hS : Sees cfg.installer A) :
    wp answer A Anywhere (settleIn cfg r).run
      (fun res m' w' => res = .ok () → SettledIn cfg r w m' w') m w := by
  refine wp_seq.mpr (wp_attempt.mpr (wp_conseq (wp_both
    (launch_records (List.suffix_refl _)) (wp_alike launch_uses)) ?_))
  rintro (e | _) m₁ w₁ ⟨hlaunched, h₁⟩
  · exact wp_conseq recover_fails fun _ _ _ hfails hok => absurd hok hfails
  obtain ⟨h, hsince, hrecorded⟩ := hlaunched rfl
  refine wp_seq.mpr (wp_attempt.mpr (wp_conseq (awaitReady_proves hsince hrecorded) ?_))
  rintro (e | _) m₂ w₂ hready
  · exact wp_conseq recover_fails fun _ _ _ hfails hok => absurd hok hfails
  obtain ⟨⟨rest, hsince₂⟩, hrecorded₂, hw₂⟩ := hready rfl
  refine wp_seq.mpr (wp_tryInstalling.mpr (wp_conseq (wp_both
    (prune_spec (A := A) fun _ _ => Safe.anywhere)
    (wp_both (prune_tidies hS hA) (wp_silent (prune_filing.mono fun _ => mute_of_filing)))) ?_))
  rintro res _ w₃ ⟨⟨s, hread, hw₃⟩, ⟨htidied, hsame⟩, hsilent⟩ _
  obtain rfl : s = cfg.stateOn w₂ := hread.honest hA
  have hrecorded₃ : Recorded cfg r h m₂ w₃ := hrecorded₂.within rfl hw₃ pruned_spares_record
  have halike : Alike (Noting cfg) w w₂ := h₁.trans fun q _ => hw₂.files id
  refine ⟨Recorded.current hrecorded₃ (hsince₂.silent hsilent), w₂, halike, hw₃, hsame, ?_⟩
  intro n hn
  cases res with
  | ok n' => exact htidied n' rfl
  | error e => exact absurd hn prunedDetail_ne

/-- What a success of `apply r source`, called in `w`, leaves. -/
structure AppliedFrom (cfg : Config) (r : String) (source : Path) (w : World) (m' : Engine)
    (w' : World) : Prop where
  active : (cfg.stateOn w').active = r
  previous : (cfg.stateOn w').previous =
    if (cfg.stateOn w).active = r then (cfg.stateOn w).previous else (cfg.stateOn w).active
  exact : Exact cfg.installer r source w w'
  /-- The other releases stay, if there are no more of them than are kept. -/
  beside : Tidied cfg.installer (cfg.stateOn w') w.fs → ∀ n, ValidId n → n ≠ r →
    Carries w (cfg.installer.releaseDirectory n) w' (cfg.installer.releaseDirectory n)
  tidied : ∀ n, m'.lastDetail = prunedDetail r n →
    Tidied cfg.installer (cfg.stateOn w') w'.fs
  current : Current cfg r w'

/-- Of the world that it was called in only the files count. -/
theorem AppliedFrom.of_files (h : AppliedFrom cfg r source w₁ m' w') (hfs : w₁.fs = w.fs) :
    AppliedFrom cfg r source w m' w' := by
  have hs : cfg.stateOn w₁ = cfg.stateOn w := congrArg (onDisk cfg.installer) hfs
  refine ⟨h.active, hs ▸ h.previous, ⟨h.exact.dir, fun x hx => ?_⟩, fun hfew n hn hne x => ?_,
    h.tidied, h.current⟩
  · exact (h.exact.entries x hx).trans (get_same hfs _)
  · exact (h.beside (hfs ▸ hfew) n hn hne x).trans (get_same hfs _)

/-- The last part, after the pointer was moved to the copied release. -/
theorem SettledIn.applied (hr : ValidId r) (hexact : Exact cfg.installer r source w w₁)
    (halike : Alike (Changes cfg r) w w₁) (hactive : (cfg.stateOn w₁).active = r)
    (hprevious : (cfg.stateOn w₁).previous =
      if (cfg.stateOn w).active = r then (cfg.stateOn w).previous else (cfg.stateOn w).active)
    (h : SettledIn cfg r w₁ m' w') : AppliedFrom cfg r source w m' w' := by
  obtain ⟨w₂, h₂, hw', hsame, htidied⟩ := h.pruned
  have hs₂ : cfg.stateOn w₂ = cfg.stateOn w₁ := stateOn_of_get (get_alike h₂)
  have hs' : cfg.stateOn w' = cfg.stateOn w₂ := stateOn_of_get (hw'.files pruned_spares_state)
  have hspared : spared (cfg.stateOn w₂) r = true := by simp [spared, hs₂, hactive]
  have hcarries : Carries w₁ (cfg.installer.releaseDirectory r) w'
      (cfg.installer.releaseDirectory r) :=
    Carries.trans (fun x => h₂ _ (not_noting_release hr x)) (carries_within hw' fun x =>
      not_pruned_release hr (Or.inl (by rw [hs₂, hactive])))
  have hbeside : ∀ n, ValidId n → n ≠ r → Carries w (cfg.installer.releaseDirectory n) w₂
      (cfg.installer.releaseDirectory n) := fun n hn hne x =>
    (halike.trans (alike_noting h₂)) _ (not_changes_release hn hne)
  refine ⟨?_, ?_, ?_, fun hfew n hn hne x => ?_, fun n hn => hs' ▸ htidied n hn, h.current⟩
  · rw [hs', hs₂, hactive]
  · rw [hs', hs₂, hprevious]
  · exact ⟨hcarries.isDir.trans hexact.dir, fun x hx => (hcarries x).trans (hexact.entries x hx)⟩
  · exact (hsame ((hs' ▸ hfew).of_carries hspared hbeside) _).trans (hbeside n hn hne x)

theorem apply_applies (hA : Honest cfg.installer A) (hS : Sees cfg.installer A)
    (hD : Deletable cfg.installer r A) (ha : Apart source (cfg.installer.stagingDirectory r)) :
    wp answer A Anywhere (apply cfg r source).run
      (fun res m' w' => res = .ok () → AppliedFrom cfg r source w m' w') m w := by
  unfold apply
  refine wp_require_seq.mpr ?_
  split
  case isFalse => exact fun hok => by cases hok
  refine wp_seq.mpr (wp_conclude.mpr ?_)
  cases cfg.validateServiceExecutable with
  | error e => exact fun hok => by cases hok
  | ok _ =>
      refine wp_seq.mpr (wp_installing.mpr (wp_conseq (wp_both (install_exact ha hD)
        (wp_within (install_uses source) fun _ _ _ _ _ => trivial)) ?_))
      rintro (e | _) _ w₁ ⟨hexact, hw₁⟩
      · exact fun hok => by cases hok
      have ha₁ : Alike (Changes cfg r) w w₁ := hw₁.alike fun _ hq => Or.inl hq
      refine wp_seq.mpr (wp_installing.mpr (wp_conseq (state_reads (A := A)) ?_))
      rintro (e | before) _ w₂ ⟨hfs, -, -⟩
      · exact fun hok => by cases hok
      refine wp_seq.mpr (wp_rewording.mpr (wp_conseq stop_alike ?_))
      rintro (e | _) m₃ w₃ h₃
      · exact fun hok => by cases hok
      refine wp_seq.mpr (wp_tryInstalling.mpr (wp_conseq
        (activate_spec (A := A) Safe.anywhere) ?_))
      rintro res _ w₄ ⟨⟨rfl, hr, hact⟩ | ⟨⟨e, rfl⟩, -⟩, hw₄⟩
      case inr =>
        refine wp_seq.mpr (wp_conseq (wp_grows (A := A)) ?_)
        rintro (e' | restored) m' w' - hok
        · cases hok
        · cases hok
      have hs₃ : cfg.stateOn w₃ = cfg.stateOn w :=
        ((stateOn_of_get (get_alike h₃)).trans (stateOn_of_get (get_same hfs _))).trans
          (stateOn_of_get (hw₁.files installs_spares_state))
      have hmoved := moved_of_activated hr hact
      rw [hs₃] at hmoved
      have hcarries : Carries w₁ (cfg.installer.releaseDirectory r) w₄
          (cfg.installer.releaseDirectory r) :=
        ((carries_of_fs hfs).trans fun x => h₃ _ (not_noting_release hr x)).trans
          (carries_within hw₄ fun x => not_pointed_release hr)
      have ha₄ : Alike (Changes cfg r) w w₄ :=
        ((ha₁.trans fun q _ => get_same hfs q).trans (alike_noting h₃)).trans (alike_pointed hw₄)
      refine wp_conseq (settleIn_settles hA hS) fun res m' w' hdone hok => ?_
      refine (hdone hok).applied hr ?_ ha₄ hmoved.active (hmoved.honest hA)
      exact ⟨hcarries.isDir.trans (hexact rfl).dir, fun x hx =>
        (hcarries x).trans ((hexact rfl).entries x hx)⟩

/-- The second time the release is active already, the source is the same,
and there is nothing left to remove. -/
theorem AppliedFrom.again {m₁ m₂ : Engine} {n : UInt32}
    (h : AppliedFrom cfg r source w m₁ w₁) (h' : AppliedFrom cfg r source w₁ m₂ w₂)
    (hpruned : m₁.lastDetail = prunedDetail r n) (hsource : Carries w source w₁ source) :
    SameService cfg w₁ w₂ := by
  have hactive : (cfg.stateOn w₂).active = (cfg.stateOn w₁).active := by rw [h'.active, h.active]
  have hprevious : (cfg.stateOn w₂).previous = (cfg.stateOn w₁).previous := by
    rw [h'.previous, if_pos h.active]
  refine ⟨hactive, hprevious, fun a ha => ?_, ?_, ?_⟩
  · by_cases har : a = r
    · subst har
      intro x
      by_cases hx : x = []
      · rw [hx, List.append_nil, FileTree.isDir_iff.mp h.exact.dir,
          FileTree.isDir_iff.mp h'.exact.dir]
      · rw [h'.exact.entries x hx, h.exact.entries x hx]
        exact hsource x
    · exact h'.beside ((h.tidied n hpruned).of_names hactive hprevious) a ha har
  · rw [h'.current.recorded, h.current.recorded]
  · rw [h'.current.launched, h.current.launched]

end Yirang.Deploy
