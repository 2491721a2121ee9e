/-
# `Yirang.Merge` — what `merge_object` makes of a configuration

A merge goes down both documents as long as it finds an object on both
sides.  Where it does not, the change is assigned, unless the document
already says the same.

    Tidy          an object has each key once, at every depth
    differing     how many values of the changes the document does not have
    Assigned      the merge ends at this path and the change takes over
    MergeLaws     what is kept, what is merged, what is given
    merge_laws    every merge obeys them, and what its count says

A value is compared and merged member by member, and members are found by
their keys, so every proof here is an induction on the value with one lemma
about `lookup` inside.
-/
import Yirang.Json

namespace Yirang.Json

/-! ## Values, from the inside out -/

/-- An induction that has the members of a value before the value. -/
@[elab_as_elim]
theorem nested {P : Json → Prop} (leaf : ∀ v, v.array? = none → v.object? = none → P v)
    (array : ∀ items, (∀ v ∈ items, P v) → P (.array items))
    (object : ∀ fields : Fields, (∀ e ∈ fields, P e.2) → P (.object fields)) : ∀ v, P v
  | .null => leaf _ rfl rfl
  | .bool _ => leaf _ rfl rfl
  | .int64 _ => leaf _ rfl rfl
  | .uint64 _ => leaf _ rfl rfl
  | .double _ => leaf _ rfl rfl
  | .string _ => leaf _ rfl rfl
  | .array items => array items fun v _ => nested leaf array object v
  | .object fields => object fields fun e he =>
      have : sizeOf e.2 < 1 + sizeOf fields := by
        have hmem := List.sizeOf_lt_of_mem he
        obtain ⟨key, v⟩ := e
        simp only [Prod.mk.sizeOf_spec] at hmem
        show sizeOf v < _
        omega
      nested leaf array object e.2

/-- The same where an array is as good as any other value without members. -/
@[elab_as_elim]
theorem byMembers {P : Json → Prop} (leaf : ∀ v, v.object? = none → P v)
    (object : ∀ fields : Fields, (∀ e ∈ fields, P e.2) → P (.object fields)) (v : Json) : P v :=
  nested (fun v _ h => leaf v h) (fun items _ => leaf (.array items) rfl) object v

mutual

/-- Each object in the value has each of its keys once. -/
def Tidy : Json → Prop
  | .array items => TidyItems items
  | .object fields => (fields.map Prod.fst).Nodup ∧ TidyFields fields
  | _ => True

def TidyItems : List Json → Prop
  | [] => True
  | v :: rest => Tidy v ∧ TidyItems rest

def TidyFields : List (String × Json) → Prop
  | [] => True
  | (_, v) :: rest => Tidy v ∧ TidyFields rest

end

theorem tidyItems_iff {items : List Json} : TidyItems items ↔ ∀ v ∈ items, Tidy v := by
  induction items with
  | nil => simp [TidyItems]
  | cons v rest ih => simp [TidyItems, ih]

theorem tidyFields_iff {fields : Fields} : TidyFields fields ↔ ∀ e ∈ fields, Tidy e.2 := by
  induction fields with
  | nil => simp [TidyFields]
  | cons e rest ih =>
      obtain ⟨key, v⟩ := e
      simp [TidyFields, ih]

variable {changes target a b : Fields} {key k : String} {v e : Json}

theorem tidy_object_iff :
    Tidy (.object a) ↔ (a.map Prod.fst).Nodup ∧ ∀ e ∈ a, Tidy e.2 := by
  rw [Tidy, tidyFields_iff]

theorem mem_of_lookup (h : a.lookup k = some v) : (k, v) ∈ a := by
  obtain ⟨l₁, l₂, rfl, -⟩ := List.lookup_eq_some_iff.mp h
  simp

theorem lookup_of_mem (hnd : (a.map Prod.fst).Nodup) (h : (k, v) ∈ a) : a.lookup k = some v := by
  induction a with
  | nil => cases h
  | cons e rest ih =>
      rw [List.map_cons, List.nodup_cons] at hnd
      rw [List.lookup_cons]
      rcases List.mem_cons.mp h with rfl | hrest
      · simp
      · have hne : (k == e.1) = false := by
          rw [beq_eq_false_iff_ne]
          intro hk
          exact hnd.1 (hk ▸ List.mem_map_of_mem (f := Prod.fst) hrest)
        rw [hne]
        exact ih hnd.2 hrest

theorem Tidy.lookup (h : Tidy (.object a)) (hl : a.lookup k = some v) : Tidy v :=
  (tidy_object_iff.mp h).2 _ (mem_of_lookup hl)

/-! ## A value is the same as itself -/

theorem sameFields_iff :
    sameFields a b = true ↔ ∀ e ∈ a, ∃ v, b.lookup e.1 = some v ∧ same e.2 v = true := by
  induction a with
  | nil => simp [sameFields]
  | cons e rest ih =>
      obtain ⟨key, x⟩ := e
      rw [sameFields, Bool.and_eq_true, ih, List.forall_mem_cons]
      refine and_congr_left fun _ => ?_
      cases b.lookup key <;> simp

theorem same_refl : Tidy v → same v v = true := by
  induction v using nested with
  | leaf v harray hobject =>
      intro _
      cases v <;> simp_all [same, sameDouble, array?, object?]
  | array items ih =>
      intro h
      rw [Tidy, tidyItems_iff] at h
      rw [same]
      induction items with
      | nil => rfl
      | cons x rest ihrest =>
          rw [List.forall_mem_cons] at ih h
          rw [sameItems, Bool.and_eq_true]
          exact ⟨ih.1 h.1, ihrest ih.2 h.2⟩
  | object fields ih =>
      intro h
      obtain ⟨hnd, htidy⟩ := tidy_object_iff.mp h
      rw [same, Bool.and_eq_true]
      refine ⟨by simp, sameFields_iff.mpr fun e he => ⟨e.2, lookup_of_mem hnd he, ?_⟩⟩
      exact ih e he (htidy e he)

/-! ## Members -/

theorem lookup_setField :
    (setField key v a).lookup k = if k = key then some v else a.lookup k := by
  induction a with
  | nil =>
      rw [setField, List.lookup_cons, List.lookup_nil]
      by_cases h : k = key
      · simp [h]
      · simp [h, beq_eq_false_iff_ne.mpr h]
  | cons e rest ih =>
      obtain ⟨j, x⟩ := e
      rw [setField]
      by_cases hj : j = key
      · subst hj
        rw [if_pos rfl, List.lookup_cons, List.lookup_cons]
        by_cases h : k = j
        · simp [h]
        · simp [h, beq_eq_false_iff_ne.mpr h]
      · rw [if_neg hj, List.lookup_cons, List.lookup_cons, ih]
        by_cases h : k = key
        · subst h
          rw [beq_eq_false_iff_ne.mpr (Ne.symm hj), if_pos rfl]
        · rw [if_neg h, if_neg h]

/-- A member that is there already. -/
theorem setField_lookup (h : a.lookup key = some v) : setField key v a = a := by
  induction a with
  | nil => cases h
  | cons e rest ih =>
      obtain ⟨j, x⟩ := e
      rw [List.lookup_cons] at h
      rw [setField]
      by_cases hj : j = key
      · subst hj
        simp only [beq_self_eq_true] at h
        cases h
        rw [if_pos rfl]
      · rw [beq_eq_false_iff_ne.mpr (Ne.symm hj)] at h
        rw [if_neg hj, ih h]

theorem mem_setField {e : String × Json} (h : e ∈ setField key v a) : e = (key, v) ∨ e ∈ a := by
  induction a with
  | nil => exact Or.inl (List.mem_singleton.mp h)
  | cons x rest ih =>
      rw [setField] at h
      split at h
      · rename_i hk
        subst hk
        rcases List.mem_cons.mp h with rfl | hrest
        · exact Or.inl rfl
        · exact Or.inr (List.mem_cons_of_mem x hrest)
      · rcases List.mem_cons.mp h with rfl | hrest
        · exact Or.inr List.mem_cons_self
        · exact (ih hrest).imp id (List.mem_cons_of_mem x)

theorem nodup_setField (hnd : (a.map Prod.fst).Nodup) :
    ((setField key v a).map Prod.fst).Nodup := by
  induction a with
  | nil => simp [setField]
  | cons x rest ih =>
      rw [List.map_cons, List.nodup_cons] at hnd
      rw [setField]
      split
      · exact List.nodup_cons.mpr hnd
      · rename_i hk
        refine List.nodup_cons.mpr ⟨fun hmem => ?_, ih hnd.2⟩
        obtain ⟨e, he, hfst⟩ := List.mem_map.mp hmem
        rcases mem_setField he with rfl | hrest
        · exact hk hfst.symm
        · exact hnd.1 (hfst ▸ List.mem_map_of_mem hrest)

theorem tidy_setField (h : Tidy (.object a)) (hv : Tidy v) : Tidy (.object (setField key v a)) := by
  obtain ⟨hnd, htidy⟩ := tidy_object_iff.mp h
  refine tidy_object_iff.mpr ⟨nodup_setField hnd, fun e he => ?_⟩
  rcases mem_setField he with rfl | hrest
  · exact hv
  · exact htidy e hrest

/-! ## One merge -/

/-- With a key once in the changes, what stands under it afterwards depends
on what stood there before and on nothing else. -/
theorem lookup_mergeObject (target : Fields) (hnd : (changes.map Prod.fst).Nodup) :
    (mergeObject changes target).1.lookup k =
      (match changes.lookup k with
        | none => target.lookup k
        | some v => some (mergeValue v (target.lookup k)).1) := by
  induction changes generalizing target with
  | nil => rfl
  | cons e rest ih =>
      obtain ⟨key, v⟩ := e
      rw [List.map_cons, List.nodup_cons] at hnd
      rw [mergeObject, ih _ hnd.2, List.lookup_cons, lookup_setField]
      by_cases h : k = key
      · subst h
        have hrest : rest.lookup k = none := by
          rw [List.lookup_eq_none_iff]
          intro e he
          rw [bne_iff_ne]
          exact fun hk => hnd.1 (List.mem_map.mpr ⟨e, he, hk.symm⟩)
        rw [hrest, beq_self_eq_true, if_pos rfl]
      · rw [if_neg h, beq_eq_false_iff_ne.mpr h]

mutual

/-- How many values the change under one key sets. -/
def differs : Json → Option Json → Nat
  | .object changes, some (.object existing) => differing changes existing
  | value, some existing => if same existing value then 0 else 1
  | _, none => 1

/-- How many values the changes set: those that the document does not have. -/
def differing : List (String × Json) → Fields → Nat
  | [], _ => 0
  | (key, value) :: rest, target => differs value (target.lookup key) + differing rest target

end

/-- Where one side is no object, a change is compared as a whole. -/
theorem differs_some (h : v.object? = none ∨ e.object? = none) :
    differs v (some e) = if same e v then 0 else 1 := by
  cases v with
  | object c =>
      cases e with
      | object t => simp [object?] at h
      | _ => rfl
  | _ => rfl

theorem mergeValue_some (h : v.object? = none ∨ e.object? = none) :
    mergeValue v (some e) = if same e v then (e, 0) else (v, 1) := by
  cases v with
  | object c =>
      cases e with
      | object t => simp [object?] at h
      | _ => rfl
  | _ => rfl

theorem differs_none : differs v none = 1 := by cases v <;> rfl

theorem mergeValue_none : mergeValue v none = (v, 1) := by cases v <;> rfl

/-- The three ways in which a change can meet the document. -/
theorem meeting (v : Json) (under : Option Json) :
    under = none ∨ (∃ c t, v = .object c ∧ under = some (.object t)) ∨
      ∃ e, under = some e ∧ (v.object? = none ∨ e.object? = none) := by
  cases under with
  | none => exact Or.inl rfl
  | some e =>
      cases hv : v.object? with
      | none => exact Or.inr (Or.inr ⟨e, rfl, Or.inl rfl⟩)
      | some c =>
          cases he : e.object? with
          | none => exact Or.inr (Or.inr ⟨e, rfl, Or.inr he⟩)
          | some t =>
              refine Or.inr (Or.inl ⟨c, t, ?_, ?_⟩)
              · cases v <;> simp_all [object?]
              · cases e <;> simp_all [object?]

theorem differing_congr {t t' : Fields}
    (h : ∀ k ∈ changes.map Prod.fst, t.lookup k = t'.lookup k) :
    differing changes t = differing changes t' := by
  induction changes with
  | nil => rfl
  | cons e rest ih =>
      obtain ⟨key, v⟩ := e
      rw [List.map_cons, List.forall_mem_cons] at h
      rw [differing, differing, h.1, ih h.2]

/-- Setting a key leaves what the other keys differ in. -/
theorem differing_setField (hk : key ∉ changes.map Prod.fst) :
    differing changes (setField key v target) = differing changes target := by
  refine differing_congr fun k hmem => ?_
  rw [lookup_setField, if_neg]
  rintro rfl
  exact hk hmem

/-- The count of a merge is the number of values set, in 32 bits. -/
theorem mergeValue_count : Tidy v → ∀ under : Option Json,
    (mergeValue v under).2 = UInt32.ofNat (differs v under) := by
  induction v using byMembers with
  | leaf v hobject =>
      rintro - (_ | e)
      · rw [mergeValue_none, differs_none]
        rfl
      · rw [mergeValue_some (Or.inl hobject), differs_some (Or.inl hobject)]
        split <;> rfl
  | object changes ih =>
      intro h under
      obtain ⟨hnd, htidy⟩ := tidy_object_iff.mp h
      have hmembers : ∀ target, (mergeObject changes target).2 =
          UInt32.ofNat (differing changes target) := by
        clear h
        induction changes with
        | nil => exact fun target => rfl
        | cons e rest ihrest =>
            obtain ⟨key, v⟩ := e
            intro target
            rw [List.map_cons, List.nodup_cons] at hnd
            rw [List.forall_mem_cons] at ih htidy
            rw [mergeObject, differing, UInt32.ofNat_add, ← ih.1 htidy.1,
              ← differing_setField hnd.1, ← ihrest ih.2 hnd.2 htidy.2]
      rcases meeting (.object changes) under with rfl | ⟨c, t, hc, rfl⟩ | ⟨e, rfl, he⟩
      · rfl
      · cases hc
        exact hmembers t
      · rw [mergeValue_some he, differs_some he]
        split <;> rfl

theorem mergeObject_count (h : Tidy (.object changes)) :
    (mergeObject changes target).2 = UInt32.ofNat (differing changes target) :=
  mergeValue_count h (some (.object target))

/-! ## Nothing to change -/

/-- A merge that sets nothing leaves the document as it is, to the letter. -/
theorem mergeValue_none_differs : ∀ e : Json, differs v (some e) = 0 →
    mergeValue v (some e) = (e, 0) := by
  induction v using byMembers with
  | leaf v hobject =>
      intro e h
      rw [differs_some (Or.inl hobject)] at h
      rw [mergeValue_some (Or.inl hobject)]
      split at h
      · rw [if_pos ‹_›]
      · cases h
  | object changes ih =>
      intro e h
      rcases meeting (.object changes) (some e) with hnone | ⟨c, t, hc, ht⟩ | ⟨e', he', hno⟩
      · cases hnone
      · cases hc
        cases ht
        have hmembers : mergeObject changes t = (t, 0) := by
          induction changes with
          | nil => rfl
          | cons x rest ihrest =>
              obtain ⟨key, v⟩ := x
              rw [List.forall_mem_cons] at ih
              change differs v (t.lookup key) + differing rest t = 0 at h
              obtain ⟨hv, hrest⟩ := Nat.add_eq_zero_iff.mp h
              cases hl : t.lookup key with
              | none =>
                  rw [hl, differs_none] at hv
                  cases hv
              | some e =>
                  rw [hl] at hv
                  rw [mergeObject, hl, ih.1 e hv]
                  dsimp only
                  rw [setField_lookup hl, ihrest ih.2 hrest]
                  rfl
        rw [mergeValue, hmembers]
      · cases he'
        rw [differs_some hno] at h
        rw [mergeValue_some hno]
        split at h
        · rw [if_pos ‹_›]
        · cases h

theorem mergeObject_of_differing (h : differing changes target = 0) :
    mergeObject changes target = (target, 0) := by
  have hm := mergeValue_none_differs (v := .object changes) (.object target) h
  rw [mergeValue, Prod.mk.injEq, Json.object.injEq] at hm
  exact Prod.ext hm.1 hm.2

/-- A tidy value sets nothing in itself. -/
theorem differs_self : Tidy v → differs v (some v) = 0 := by
  induction v using byMembers with
  | leaf v hobject =>
      intro h
      rw [differs_some (Or.inl hobject), same_refl h, if_pos rfl]
  | object fields ih =>
      intro h
      obtain ⟨hnd, htidy⟩ := tidy_object_iff.mp h
      have hpart : ∀ part : Fields, part ⊆ fields → differing part fields = 0 := by
        intro part
        induction part with
        | nil => exact fun _ => rfl
        | cons e rest ihrest =>
            obtain ⟨key, v⟩ := e
            intro hsub
            rw [List.cons_subset] at hsub
            rw [differing, lookup_of_mem hnd hsub.1, ih _ hsub.1 (htidy _ hsub.1),
              ihrest hsub.2]
      exact hpart fields fun _ h => h

/-- What a merge made of a value needs no second one. -/
theorem differs_again : Tidy v → ∀ under : Option Json,
    differs v (some (mergeValue v under).1) = 0 := by
  induction v using byMembers with
  | leaf v hobject =>
      rintro h (_ | e)
      · rw [mergeValue_none]
        exact differs_self h
      · rw [mergeValue_some (Or.inl hobject), differs_some (Or.inl hobject)]
        by_cases hs : same e v = true
        · rw [if_pos hs, if_pos hs]
        · rw [if_neg hs, same_refl h, if_pos rfl]
  | object changes ih =>
      intro h under
      obtain ⟨hnd, htidy⟩ := tidy_object_iff.mp h
      rcases meeting (.object changes) under with rfl | ⟨c, t, hc, rfl⟩ | ⟨e, rfl, hno⟩
      · rw [mergeValue_none]
        exact differs_self h
      · cases hc
        have hpart : ∀ part : Fields, part ⊆ changes →
            differing part (mergeObject changes t).1 = 0 := by
          intro part
          induction part with
          | nil => exact fun _ => rfl
          | cons e rest ihrest =>
              obtain ⟨key, v⟩ := e
              intro hsub
              rw [List.cons_subset] at hsub
              rw [differing, lookup_mergeObject _ hnd, lookup_of_mem hnd hsub.1]
              dsimp only
              rw [ih _ hsub.1 (htidy _ hsub.1), ihrest hsub.2]
        exact hpart changes fun _ h => h
      · rw [mergeValue_some hno]
        by_cases hs : same e (.object changes) = true
        · rw [if_pos hs, differs_some hno, if_pos hs]
        · rw [if_neg hs]
          exact differs_self h

/-- The document is the same after the merge exactly when nothing was set. -/
theorem same_merged_iff : Tidy v → ∀ e, Tidy e →
    (same e (mergeValue v (some e)).1 = true ↔ differs v (some e) = 0) := by
  induction v using byMembers with
  | leaf v hobject =>
      intro _ e he
      rw [mergeValue_some (Or.inl hobject), differs_some (Or.inl hobject)]
      by_cases hs : same e v = true
      · rw [if_pos hs, if_pos hs]
        exact iff_of_true (same_refl he) rfl
      · rw [if_neg hs, if_neg hs]
        exact iff_of_false hs (by decide)
  | object changes ih =>
      intro h e he
      refine ⟨fun hsame => ?_, fun hzero => ?_⟩
      · obtain ⟨hnd, htidy⟩ := tidy_object_iff.mp h
        rcases meeting (.object changes) (some e) with hnone | ⟨c, t, hc, ht⟩ | ⟨e', he', hno⟩
        · cases hnone
        · cases hc
          cases ht
          rw [mergeValue, same, Bool.and_eq_true, decide_eq_true_eq] at hsame
          have hpart : ∀ part : Fields, part ⊆ changes → differing part t = 0 := by
            intro part
            induction part with
            | nil => exact fun _ => rfl
            | cons x rest ihrest =>
                obtain ⟨key, v⟩ := x
                intro hsub
                rw [List.cons_subset] at hsub
                have hafter := lookup_mergeObject t (k := key) hnd
                rw [lookup_of_mem hnd hsub.1] at hafter
                dsimp only at hafter
                have hunder : differs v (t.lookup key) = 0 := by
                  cases hl : t.lookup key with
                  | none =>
                      -- a key that is new is missing in the document before
                      have := lookup_none_of_sameFields hsame.2 hsame.1
                        (tidy_object_iff.mp he).1 hl
                      rw [hafter] at this
                      cases this
                  | some e =>
                      obtain ⟨e', hl', hs⟩ := lookup_of_sameFields hsame.2 hl
                      rw [hafter, hl] at hl'
                      cases hl'
                      exact (ih _ hsub.1 (htidy _ hsub.1) e (he.lookup hl)).mp hs
                rw [differing, hunder, ihrest hsub.2]
          exact hpart changes fun _ h => h
        · cases he'
          rw [mergeValue_some hno] at hsame
          rw [differs_some hno]
          by_cases hs : same e (.object changes) = true
          · rw [if_pos hs]
          · rw [if_neg hs] at hsame
            exact absurd hsame hs
      · rw [mergeValue_none_differs e hzero]
        exact same_refl he

/-- The merge of tidy documents is tidy. -/
theorem tidy_mergeValue : Tidy v → ∀ under : Option Json, (∀ e, under = some e → Tidy e) →
    Tidy (mergeValue v under).1 := by
  induction v using byMembers with
  | leaf v hobject =>
      rintro h (_ | e) hu
      · rwa [mergeValue_none]
      · rw [mergeValue_some (Or.inl hobject)]
        split
        · exact hu e rfl
        · exact h
  | object changes ih =>
      intro h under hu
      rcases meeting (.object changes) under with rfl | ⟨c, t, hc, rfl⟩ | ⟨e, rfl, hno⟩
      · rwa [mergeValue_none]
      · cases hc
        have htidy := (tidy_object_iff.mp h).2
        have ht := hu _ rfl
        clear h hu
        show Tidy (.object (mergeObject changes t).1)
        induction changes generalizing t with
        | nil => exact ht
        | cons x rest ihrest =>
            obtain ⟨key, v⟩ := x
            rw [List.forall_mem_cons] at ih htidy
            rw [mergeObject]
            exact ihrest ih.2 _ htidy.2
              (tidy_setField ht (ih.1 htidy.1 _ fun e he => ht.lookup he))
      · rw [mergeValue_some hno]
        split
        · exact hu e rfl
        · exact h

/-! ## Along a path -/

/-- The value at the end of a path of keys. -/
def atPath : Json → List String → Option Json
  | v, [] => some v
  | .object fields, key :: rest => (fields.lookup key).bind fun v => v.atPath rest
  | _, _ :: _ => none

theorem atPath_cons {rest : List String} :
    atPath (.object a) (k :: rest) = (a.lookup k).bind fun v => v.atPath rest := rfl

/-- The changes have a value here that is not merged into an object of the
document. -/
def Assigned (changes target : Fields) (path : List String) : Prop :=
  ∃ v, atPath (.object changes) path = some v ∧
    ¬ ∃ c t, v = .object c ∧ atPath (.object target) path = some (.object t)

/-- The merge comes to the end of the path: before it, no change took over. -/
def Reached (changes target : Fields) (path : List String) : Prop :=
  ∀ q, q <+: path → q ≠ path → ¬ Assigned changes target q

/-- What a merge does along the paths of both documents. -/
structure MergeLaws (changes target doc : Fields) : Prop where
  tidy : Tidy (.object doc)
  /-- What the changes do not mention stays. -/
  kept : ∀ path v, atPath (.object target) path = some v →
    (∀ q, q <+: path → ¬ Assigned changes target q) →
    atPath (.object changes) path = none → atPath (.object doc) path = some v
  /-- Two objects are merged in their turn. -/
  merged : ∀ path c t, Reached changes target path →
    atPath (.object changes) path = some (.object c) →
    atPath (.object target) path = some (.object t) →
    atPath (.object doc) path = some (.object (mergeObject c t).1)
  /-- Anything else is given as the changes say. -/
  given : ∀ path v, Reached changes target path → Assigned changes target path →
    atPath (.object changes) path = some v →
    ∃ v', atPath (.object doc) path = some v' ∧ same v' v = true
  /-- A merged object loses no key. -/
  noneLost : ∀ path key, (∀ q, q <+: path → ¬ Assigned changes target q) →
    (atPath (.object target) (path ++ [key])).isSome →
    (atPath (.object doc) (path ++ [key])).isSome
  /-- The second time there is nothing left to do. -/
  again : mergeObject changes doc = (doc, 0)

section Paths

variable {path : List String}

/-- Where the first key is not assigned, the changes do not have it, or both
sides have an object under it, and the merge goes on there. -/
theorem unassigned (hnd : (changes.map Prod.fst).Nodup) (h : ¬ Assigned changes target [k]) :
    (changes.lookup k = none ∧ (mergeObject changes target).1.lookup k = target.lookup k) ∨
      ∃ c t, changes.lookup k = some (.object c) ∧ target.lookup k = some (.object t) ∧
        (mergeObject changes target).1.lookup k = some (.object (mergeObject c t).1) := by
  have hafter := lookup_mergeObject target (k := k) hnd
  cases hl : changes.lookup k with
  | none =>
      rw [hl] at hafter
      exact Or.inl ⟨rfl, hafter⟩
  | some v =>
      have hboth : ∃ c t, v = .object c ∧ target.lookup k = some (.object t) := by
        by_contra hno
        refine h ⟨v, by rw [atPath_cons, hl]; rfl, ?_⟩
        rintro ⟨c, t, hc, ht⟩
        rw [atPath_cons, Option.bind_eq_some_iff] at ht
        obtain ⟨e, he, hv⟩ := ht
        cases hv
        exact hno ⟨c, t, hc, he⟩
      obtain ⟨c, t, rfl, ht⟩ := hboth
      rw [hl, ht] at hafter
      exact Or.inr ⟨c, t, rfl, ht, hafter⟩

/-- Below a key that is merged, a path is assigned as in the merge there. -/
theorem assigned_cons {c t : Fields} (hc : changes.lookup k = some (.object c))
    (ht : target.lookup k = some (.object t)) :
    Assigned changes target (k :: path) ↔ Assigned c t path := by
  unfold Assigned
  rw [atPath_cons, atPath_cons, hc, ht]
  rfl

theorem unassigned_below {c t : Fields} (hc : changes.lookup k = some (.object c))
    (ht : target.lookup k = some (.object t))
    (h : ∀ q, q <+: k :: path → ¬ Assigned changes target q) (q : List String)
    (hq : q <+: path) : ¬ Assigned c t q := by
  rw [← assigned_cons hc ht]
  exact h (k :: q) (List.cons_prefix_cons.mpr ⟨rfl, hq⟩)

theorem Reached.below {c t : Fields} (hc : changes.lookup k = some (.object c))
    (ht : target.lookup k = some (.object t)) (h : Reached changes target (k :: path)) :
    Reached c t path := by
  intro q hq hne
  rw [← assigned_cons hc ht]
  exact h (k :: q) (List.cons_prefix_cons.mpr ⟨rfl, hq⟩) fun he => hne (List.cons.inj he).2

theorem Reached.first {j : String} (h : Reached changes target (k :: j :: path)) :
    ¬ Assigned changes target [k] :=
  h [k] (List.cons_prefix_cons.mpr ⟨rfl, List.nil_prefix⟩) (by simp)

theorem kept_along (h : Tidy (.object changes)) {v : Json}
    (hv : atPath (.object target) path = some v)
    (hfree : ∀ q, q <+: path → ¬ Assigned changes target q)
    (hno : atPath (.object changes) path = none) :
    atPath (.object (mergeObject changes target).1) path = some v := by
  induction path generalizing changes target with
  | nil => cases hno
  | cons k rest ih =>
      have hfirst := hfree [k] (List.cons_prefix_cons.mpr ⟨rfl, List.nil_prefix⟩)
      rcases unassigned (tidy_object_iff.mp h).1 hfirst with ⟨-, hsame⟩ | ⟨c, t, hc, ht, hafter⟩
      · rw [atPath_cons, hsame]
        exact hv
      · rw [atPath_cons, hafter]
        rw [atPath_cons, hc] at hno
        rw [atPath_cons, ht] at hv
        exact ih (h.lookup hc) hv (unassigned_below hc ht hfree) hno

theorem merged_along (h : Tidy (.object changes)) {c t : Fields}
    (hreach : Reached changes target path)
    (hc : atPath (.object changes) path = some (.object c))
    (ht : atPath (.object target) path = some (.object t)) :
    atPath (.object (mergeObject changes target).1) path =
      some (.object (mergeObject c t).1) := by
  induction path generalizing changes target with
  | nil =>
      cases hc
      cases ht
      rfl
  | cons k rest ih =>
      have hfirst : ¬ Assigned changes target [k] := by
        cases rest with
        | cons j rest => exact hreach.first
        | nil =>
            rintro ⟨v, hv, hno⟩
            rw [hc] at hv
            cases hv
            exact hno ⟨c, t, rfl, ht⟩
      rcases unassigned (tidy_object_iff.mp h).1 hfirst with
        ⟨hnone, -⟩ | ⟨c', t', hc', ht', hafter⟩
      · rw [atPath_cons, hnone] at hc
        cases hc
      · rw [atPath_cons, hafter]
        rw [atPath_cons, hc'] at hc
        rw [atPath_cons, ht'] at ht
        exact ih (h.lookup hc') (hreach.below hc' ht') hc ht

theorem given_along (h : Tidy (.object changes)) {v : Json}
    (hreach : Reached changes target path) (hassigned : Assigned changes target path)
    (hv : atPath (.object changes) path = some v) :
    ∃ v', atPath (.object (mergeObject changes target).1) path = some v' ∧
      same v' v = true := by
  induction path generalizing changes target with
  | nil =>
      obtain ⟨w, hw, hno⟩ := hassigned
      cases hw
      exact absurd ⟨changes, target, rfl, rfl⟩ hno
  | cons k rest ih =>
      have hnd := (tidy_object_iff.mp h).1
      cases rest with
      | nil =>
          rw [atPath_cons, Option.bind_eq_some_iff] at hv
          obtain ⟨v', hl, hv'⟩ := hv
          cases hv'
          have hafter := lookup_mergeObject target (k := k) hnd
          rw [hl] at hafter
          refine ⟨_, by rw [atPath_cons, hafter]; rfl, ?_⟩
          rcases meeting v (target.lookup k) with hnone | ⟨c, t, rfl, ht⟩ | ⟨e, he, hno⟩
          · rw [hnone, mergeValue_none]
            exact same_refl (h.lookup hl)
          · obtain ⟨w, hw, hno⟩ := hassigned
            rw [atPath_cons, hl] at hw
            cases hw
            exact absurd ⟨c, t, rfl, by rw [atPath_cons, ht]; rfl⟩ hno
          · rw [he, mergeValue_some hno]
            split
            · assumption
            · exact same_refl (h.lookup hl)
      | cons j rest =>
          rcases unassigned hnd hreach.first with ⟨hnone, -⟩ | ⟨c, t, hc, ht, hafter⟩
          · rw [atPath_cons, hnone] at hv
            cases hv
          · rw [atPath_cons, hafter]
            rw [atPath_cons, hc] at hv
            exact ih (h.lookup hc) (hreach.below hc ht) ((assigned_cons hc ht).mp hassigned) hv

theorem noneLost_along (h : Tidy (.object changes))
    (hfree : ∀ q, q <+: path → ¬ Assigned changes target q)
    (hsome : (atPath (.object target) (path ++ [key])).isSome) :
    (atPath (.object (mergeObject changes target).1) (path ++ [key])).isSome := by
  induction path generalizing changes target with
  | nil =>
      rw [List.nil_append, atPath_cons] at hsome ⊢
      rw [lookup_mergeObject _ (tidy_object_iff.mp h).1]
      cases hl : changes.lookup key with
      | none => exact hsome
      | some v => rfl
  | cons k rest ih =>
      have hfirst := hfree [k] (List.cons_prefix_cons.mpr ⟨rfl, List.nil_prefix⟩)
      rw [List.cons_append, atPath_cons] at hsome ⊢
      rcases unassigned (tidy_object_iff.mp h).1 hfirst with ⟨-, hsame⟩ | ⟨c, t, hc, ht, hafter⟩
      · rwa [hsame]
      · rw [hafter]
        rw [ht] at hsome
        exact ih (h.lookup hc) (unassigned_below hc ht hfree) hsome

end Paths

/-- Every merge of tidy documents obeys these laws; its count is the number
of values it set, modulo `2 ^ 32`, and that number is zero exactly when the
document is the same as before. -/
theorem merge_laws (target changes : Fields) (ht : Tidy (.object target))
    (hc : Tidy (.object changes)) :
    MergeLaws changes target (mergeObject changes target).1 ∧
      (mergeObject changes target).2 = UInt32.ofNat (differing changes target) ∧
      (differing changes target = 0 ↔
        same (.object target) (.object (mergeObject changes target).1) = true) := by
  refine ⟨⟨?_, fun path v => kept_along hc, fun path c t => merged_along hc,
    fun path v => given_along hc, fun path key => noneLost_along hc, ?_⟩,
    mergeObject_count hc, (same_merged_iff hc _ ht).symm⟩
  · exact tidy_mergeValue hc (some (.object target)) fun e he => (Option.some.inj he) ▸ ht
  · exact mergeObject_of_differing (differs_again hc (some (.object target)))

namespace Sample

def document : Fields :=
  [("retries", .int64 1), ("nested", .object [("a", .int64 1), ("b", .int64 2)])]

def values : Fields := [("nested", .object [("b", .int64 9)])]

end Sample

theorem merge_laws_nested :
    MergeLaws Sample.values Sample.document (mergeObject Sample.values Sample.document).1 ∧
      (mergeObject Sample.values Sample.document).2 = 1 := by
  have h := merge_laws Sample.document Sample.values (by simp [Sample.document, Tidy, TidyFields])
    (by simp [Sample.values, Tidy, TidyFields])
  exact ⟨h.1, h.2.1.trans rfl⟩

/-! ## A count that comes round -/

/-- As many members as one likes. -/
def many (n : Nat) : Fields :=
  (List.range n).map fun i => (String.ofList (Nat.toDigits 10 i), .bool true)

theorem length_many {n : Nat} : (many n).length = n := by simp [many]

theorem tidy_many {n : Nat} : Tidy (.object (many n)) := by
  refine tidy_object_iff.mpr ⟨?_, fun e he => ?_⟩
  · rw [many, List.map_map]
    refine List.nodup_range.map fun i j h => ?_
    have hdigits := congrArg (fun s => Nat.ofDigitChars 10 s.toList 0) h
    simpa using hdigits
  · obtain ⟨i, -, rfl⟩ := List.mem_map.mp he
    trivial

theorem differing_nil : differing changes [] = changes.length := by
  induction changes with
  | nil => rfl
  | cons e rest ih =>
      obtain ⟨key, v⟩ := e
      rw [differing, ih, List.lookup_nil, differs_none, List.length_cons, Nat.add_comm]

/-- Four objects. -/
def quarters (o : Fields) : Fields :=
  [("a", .object o), ("b", .object o), ("c", .object o), ("d", .object o)]

theorem tidy_quarters {o : Fields} (h : Tidy (.object o)) : Tidy (.object (quarters o)) := by
  refine tidy_object_iff.mpr ⟨?_, fun e he => ?_⟩
  · show ["a", "b", "c", "d"].Nodup
    decide
  · simp only [quarters, List.mem_cons, List.not_mem_nil, or_false] at he
    rcases he with rfl | rfl | rfl | rfl <;> exact h

theorem differing_quarters {o : Fields} :
    differing (quarters o) (quarters []) = 4 * o.length := by
  have h : ∀ key, (quarters []).lookup key = some (.object []) →
      differs (.object o) ((quarters []).lookup key) = o.length := by
    intro key hl
    rw [hl]
    exact differing_nil
  have ha := h "a" rfl
  have hb := h "b" rfl
  have hc := h "c" rfl
  have hd := h "d" rfl
  show differs (.object o) ((quarters []).lookup "a") +
    (differs (.object o) ((quarters []).lookup "b") +
      (differs (.object o) ((quarters []).lookup "c") +
        (differs (.object o) ((quarters []).lookup "d") + 0))) = _
  omega

/-- Where they have as many members as 32 bits can tell apart, the merge sets
them all and counts none. -/
theorem quarters_come_round {o : Fields} (h : Tidy (.object o))
    (hlen : 4 * o.length = 4294967296) :
    (mergeObject (quarters o) (quarters [])).2 = 0 ∧
      ¬ same (.object (quarters []))
        (.object (mergeObject (quarters o) (quarters [])).1) = true := by
  have hset : differing (quarters o) (quarters []) = 4294967296 :=
    differing_quarters.trans hlen
  refine ⟨?_, fun hsame => ?_⟩
  · rw [mergeObject_count (tidy_quarters h), hset]
    rfl
  · have hzero := (same_merged_iff (tidy_quarters h) (.object (quarters []))
      (tidy_quarters ⟨List.nodup_nil, trivial⟩)).mp hsame
    have hset' : differs (.object (quarters o)) (some (.object (quarters []))) = 4294967296 :=
      hset
    rw [hset'] at hzero
    cases hzero

theorem count_comes_round :
    Tidy (.object (quarters [])) ∧ Tidy (.object (quarters (many 1073741824))) ∧
      (mergeObject (quarters (many 1073741824)) (quarters [])).2 = 0 ∧
      ¬ same (.object (quarters []))
        (.object (mergeObject (quarters (many 1073741824)) (quarters [])).1) = true :=
  ⟨tidy_quarters ⟨List.nodup_nil, trivial⟩, tidy_quarters tidy_many,
    quarters_come_round tidy_many (by rw [length_many])⟩

end Yirang.Json
