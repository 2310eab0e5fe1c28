/-
Tables with a primary key.

A `KeyedTable κ ν` is a list of rows in insertion order, no two with the same
key; the type carries that fact, so no operation can break it.  The operations
are those of a key-value store and of a database table:

* `update p f` — `UPDATE … SET f WHERE p`;
* `modify k f` — the same for the one row with key `k`;
* `upsert k v f` — `INSERT … ON DUPLICATE KEY UPDATE f`;
* `delete k` — `DELETE … WHERE key = k`.

Each comes with its effect on `find?`, on `keys` and, where a proof needs it,
on the sum of a column over all rows (`total`).
-/
import Mathlib.Tactic

/-- Rows in insertion order, with distinct keys. -/
structure KeyedTable (κ ν : Type) where
  entries : List (κ × ν)
  nodup : (entries.map Prod.fst).Nodup

namespace KeyedTable

variable {κ ν : Type}

@[ext] theorem ext {s t : KeyedTable κ ν} (h : s.entries = t.entries) : s = t := by
  cases s
  cases t
  cases h
  rfl

/-- The table without rows. -/
def empty : KeyedTable κ ν := ⟨[], List.nodup_nil⟩

def keys (t : KeyedTable κ ν) : List κ := t.entries.map Prod.fst

theorem nodup_keys (t : KeyedTable κ ν) : t.keys.Nodup := t.nodup

/-- The values of the rows that satisfy `p`. -/
def valuesWhere (t : KeyedTable κ ν) (p : κ → ν → Bool) : List ν :=
  (t.entries.filter fun e => p e.1 e.2).map Prod.snd

/-- Change the rows that satisfy `p`. -/
def update (t : KeyedTable κ ν) (p : κ → ν → Bool) (f : ν → ν) : KeyedTable κ ν where
  entries := t.entries.map fun e => (e.1, if p e.1 e.2 then f e.2 else e.2)
  nodup := by simpa only [List.map_map, Function.comp_def] using t.nodup

theorem entries_update (t : KeyedTable κ ν) (p : κ → ν → Bool) (f : ν → ν) :
    (t.update p f).entries = t.entries.map fun e => (e.1, if p e.1 e.2 then f e.2 else e.2) :=
  rfl

@[simp] theorem keys_update (t : KeyedTable κ ν) (p : κ → ν → Bool) (f : ν → ν) :
    (t.update p f).keys = t.keys := by
  rw [keys, keys, entries_update, List.map_map]
  rfl

/-- The sum of a column over all rows. -/
def total (t : KeyedTable κ ν) (g : ν → ℤ) : ℤ := (t.entries.map fun e => g e.2).sum

/-- An update that leaves the column alone leaves its sum alone. -/
theorem total_update_of_eq (t : KeyedTable κ ν) (p : κ → ν → Bool) (f : ν → ν) (g : ν → ℤ)
    (h : ∀ v, g (f v) = g v) : (t.update p f).total g = t.total g := by
  rw [total, total, entries_update, List.map_map]
  congr 1
  refine List.map_congr_left fun e _ => ?_
  simp only [Function.comp_apply]
  split
  · exact h e.2
  · rfl

variable [DecidableEq κ]

/-- The value stored under a key. -/
def find? (t : KeyedTable κ ν) (k : κ) : Option ν :=
  (t.entries.find? fun e => e.1 = k).map Prod.snd

/-- Change the row with key `k`, if there is one. -/
def modify (t : KeyedTable κ ν) (k : κ) (f : ν → ν) : KeyedTable κ ν :=
  t.update (fun k' _ => k' = k) f

/-- Insert a row, or change the row that already has its key. -/
def upsert (t : KeyedTable κ ν) (k : κ) (v : ν) (f : ν → ν) : KeyedTable κ ν :=
  if h : k ∈ t.keys then t.modify k f
  else
    { entries := t.entries ++ [(k, v)]
      nodup := by
        rw [List.map_append, List.nodup_append]
        refine ⟨t.nodup, by simp, ?_⟩
        intro a ha b hb hab
        have hbk : b = k := by simpa using hb
        exact h (hbk ▸ hab ▸ ha) }

/-- Remove the row with key `k`. -/
def delete (t : KeyedTable κ ν) (k : κ) : KeyedTable κ ν where
  entries := t.entries.filter fun e => e.1 ≠ k
  nodup := t.nodup.sublist (List.filter_sublist.map _)

@[simp] theorem find?_empty (k : κ) : (empty : KeyedTable κ ν).find? k = none := rfl

theorem find?_eq_some {t : KeyedTable κ ν} {k : κ} {v : ν} :
    t.find? k = some v ↔ (k, v) ∈ t.entries := by
  constructor
  · intro h
    obtain ⟨⟨k', v'⟩, he, rfl⟩ := Option.map_eq_some_iff.mp h
    have hk : k' = k := by simpa using List.find?_some he
    exact hk ▸ List.mem_of_find?_eq_some he
  · intro h
    have hsome : (t.entries.find? fun e => e.1 = k).isSome := by
      rw [List.find?_isSome]
      exact ⟨(k, v), h, by simp⟩
    obtain ⟨⟨k', v'⟩, he⟩ := Option.isSome_iff_exists.mp hsome
    have hk : k' = k := by simpa using List.find?_some he
    have hmem := List.mem_of_find?_eq_some he
    have heq := List.inj_on_of_nodup_map t.nodup hmem h hk
    rw [find?, he, heq]
    rfl

theorem mem_keys {t : KeyedTable κ ν} {k : κ} : k ∈ t.keys ↔ ∃ v, t.find? k = some v := by
  simp only [find?_eq_some, keys, List.mem_map, Prod.exists]
  constructor
  · rintro ⟨_, v, h, rfl⟩
    exact ⟨v, h⟩
  · rintro ⟨v, h⟩
    exact ⟨k, v, h, rfl⟩

theorem find?_eq_none {t : KeyedTable κ ν} {k : κ} : t.find? k = none ↔ k ∉ t.keys := by
  rw [mem_keys, Option.eq_none_iff_forall_ne_some, not_exists]

theorem valuesWhere_eq (t : KeyedTable κ ν) (p : κ → ν → Bool) :
    t.valuesWhere p = t.keys.filterMap fun k => (t.find? k).filter (p k) := by
  rw [valuesWhere, keys, List.filterMap_map, ← List.filterMap_eq_map, ← List.filterMap_eq_filter,
    List.filterMap_filterMap]
  refine List.filterMap_congr fun e he => ?_
  have hfind : t.find? e.1 = some e.2 := find?_eq_some.mpr he
  rw [Function.comp_apply, hfind]
  by_cases hp : p e.1 e.2
  · simp [hp, Option.guard, Option.filter]
  · simp [hp, Option.guard, Option.filter]

/-- A table that extends another and agrees with it on the rows that satisfy
`p` has the same values there. -/
theorem valuesWhere_congr {t t' : KeyedTable κ ν} {p : κ → ν → Bool} (hkeys : t.keys <+: t'.keys)
    (hold : ∀ k v v', t.find? k = some v → t'.find? k = some v' →
      (p k v = true ∨ p k v' = true) → v = v')
    (hnew : ∀ k v', t.find? k = none → t'.find? k = some v' → p k v' = false) :
    t'.valuesWhere p = t.valuesWhere p := by
  obtain ⟨new, hnew'⟩ := hkeys
  have hnd := t'.nodup_keys
  rw [← hnew'] at hnd
  rw [valuesWhere_eq, valuesWhere_eq, ← hnew', List.filterMap_append]
  -- the rows behind the old ones are new, and none of them is selected
  have hnil : new.filterMap (fun k => (t'.find? k).filter (p k)) = [] := by
    rw [List.filterMap_eq_nil_iff]
    intro k hk
    have hnone : t.find? k = none :=
      find?_eq_none.mpr fun hmem => (List.disjoint_of_nodup_append hnd) hmem hk
    cases hv : t'.find? k with
    | none => rfl
    | some v => simp [Option.filter, hnew k v hnone hv]
  rw [hnil, List.append_nil]
  refine List.filterMap_congr fun k hk => ?_
  obtain ⟨v, hv⟩ := mem_keys.mp hk
  obtain ⟨v', hv'⟩ := mem_keys.mp (hnew' ▸ List.mem_append_left new hk : k ∈ t'.keys)
  rw [hv, hv']
  by_cases hp : p k v = true ∨ p k v' = true
  · rw [hold k v v' hv hv' hp]
  · rw [not_or] at hp
    simp [Option.filter, hp.1, hp.2]

/-! ### Updates -/

@[simp] theorem find?_update (t : KeyedTable κ ν) (p : κ → ν → Bool) (f : ν → ν) (k : κ) :
    (t.update p f).find? k = (t.find? k).map fun v => if p k v then f v else v := by
  rw [find?, find?, entries_update, List.find?_map, Option.map_map, Option.map_map]
  have hcomp : ((fun e : κ × ν => decide (e.1 = k)) ∘
      fun e : κ × ν => (e.1, if p e.1 e.2 then f e.2 else e.2)) = fun e => decide (e.1 = k) := rfl
  rw [hcomp]
  cases he : t.entries.find? fun e => e.1 = k with
  | none => rfl
  | some e =>
    have hk : e.1 = k := by simpa using List.find?_some he
    simp only [Option.map_some, Function.comp_apply, hk]

/-- An update that leaves some columns alone leaves them alone in every row. -/
theorem bind_find?_update_of_eq {β : Type} (t : KeyedTable κ ν) (p : κ → ν → Bool) (f : ν → ν)
    (g : ν → Option β) (h : ∀ v, g (f v) = g v) (k : κ) :
    ((t.update p f).find? k).bind g = (t.find? k).bind g := by
  rw [find?_update, Option.bind_map]
  congr 1
  funext v
  rw [Function.comp_apply]
  split
  · exact h v
  · rfl

theorem map_find?_update_of_eq {β : Type} (t : KeyedTable κ ν) (p : κ → ν → Bool) (f : ν → ν)
    (g : ν → β) (h : ∀ v, g (f v) = g v) (k : κ) :
    ((t.update p f).find? k).map g = (t.find? k).map g := by
  rw [Option.map_eq_bind, Option.map_eq_bind]
  exact bind_find?_update_of_eq t p f (some ∘ g) (fun v => congrArg some (h v)) k

@[simp] theorem keys_modify (t : KeyedTable κ ν) (k : κ) (f : ν → ν) :
    (t.modify k f).keys = t.keys := keys_update t _ f

theorem find?_modify (t : KeyedTable κ ν) (k k' : κ) (f : ν → ν) :
    (t.modify k f).find? k' = if k' = k then (t.find? k).map f else t.find? k' := by
  rw [modify, find?_update]
  by_cases h : k' = k
  · subst h
    simp
  · simp [h]

@[simp] theorem find?_modify_self (t : KeyedTable κ ν) (k : κ) (f : ν → ν) :
    (t.modify k f).find? k = (t.find? k).map f := by
  rw [find?_modify, if_pos rfl]

theorem find?_modify_ne (t : KeyedTable κ ν) {k k' : κ} (h : k' ≠ k) (f : ν → ν) :
    (t.modify k f).find? k' = t.find? k' := by
  rw [find?_modify, if_neg h]

/-! ### Insertions and deletions -/

theorem upsert_of_mem {t : KeyedTable κ ν} {k : κ} (h : k ∈ t.keys) (v : ν) (f : ν → ν) :
    t.upsert k v f = t.modify k f := dif_pos h

theorem entries_upsert_of_notMem {t : KeyedTable κ ν} {k : κ} (h : k ∉ t.keys) (v : ν)
    (f : ν → ν) : (t.upsert k v f).entries = t.entries ++ [(k, v)] := by
  rw [upsert, dif_neg h]

theorem keys_upsert (t : KeyedTable κ ν) (k : κ) (v : ν) (f : ν → ν) :
    (t.upsert k v f).keys = if k ∈ t.keys then t.keys else t.keys ++ [k] := by
  by_cases h : k ∈ t.keys
  · rw [upsert_of_mem h, keys_modify, if_pos h]
  · rw [keys, entries_upsert_of_notMem h, List.map_append, if_neg h]
    rfl

theorem mem_keys_upsert {t : KeyedTable κ ν} {k k' : κ} {v : ν} {f : ν → ν} :
    k' ∈ (t.upsert k v f).keys ↔ k' = k ∨ k' ∈ t.keys := by
  rw [keys_upsert]
  by_cases h : k ∈ t.keys
  · rw [if_pos h]
    exact ⟨Or.inr, fun h' => h'.elim (fun e => e ▸ h) id⟩
  · rw [if_neg h, List.mem_append, List.mem_singleton, or_comm]

theorem find?_upsert_self (t : KeyedTable κ ν) (k : κ) (v : ν) (f : ν → ν) :
    (t.upsert k v f).find? k = some ((t.find? k).elim v f) := by
  by_cases h : k ∈ t.keys
  · obtain ⟨v', hv'⟩ := mem_keys.mp h
    rw [upsert_of_mem h, find?_modify_self, hv']
    rfl
  · rw [find?_eq_none.mpr h, find?_eq_some, entries_upsert_of_notMem h]
    simp

theorem find?_upsert_ne (t : KeyedTable κ ν) {k k' : κ} (h : k' ≠ k) (v : ν) (f : ν → ν) :
    (t.upsert k v f).find? k' = t.find? k' := by
  by_cases hk : k ∈ t.keys
  · rw [upsert_of_mem hk, find?_modify_ne t h]
  · ext v'
    rw [find?_eq_some, find?_eq_some, entries_upsert_of_notMem hk]
    simp [h]

theorem entries_delete (t : KeyedTable κ ν) (k : κ) :
    (t.delete k).entries = t.entries.filter fun e => e.1 ≠ k := rfl

theorem keys_delete (t : KeyedTable κ ν) (k : κ) :
    (t.delete k).keys = t.keys.filter fun k' => k' ≠ k := by
  rw [keys, entries_delete, keys, List.filter_map]
  rfl

theorem find?_delete (t : KeyedTable κ ν) (k k' : κ) :
    (t.delete k).find? k' = if k' = k then none else t.find? k' := by
  by_cases h : k' = k
  · subst h
    rw [if_pos rfl, find?_eq_none, keys, entries_delete]
    simp
  · rw [if_neg h]
    ext v
    rw [find?_eq_some, find?_eq_some, entries_delete, List.mem_filter]
    simp [h]

/-! ### The sum of a column -/

/-- Changing one row changes the sum by the change of that row. -/
theorem total_modify {t : KeyedTable κ ν} {k : κ} {v : ν} (hv : t.find? k = some v) (f : ν → ν)
    (g : ν → ℤ) : (t.modify k f).total g = t.total g + (g (f v) - g v) := by
  have hmem := find?_eq_some.mp hv
  have hnd := t.nodup
  rw [total, total, modify, entries_update]
  revert hmem hnd
  induction t.entries with
  | nil =>
    intro h
    cases h
  | cons e es ih =>
    intro hmem hnd
    rw [List.map_cons, List.nodup_cons] at hnd
    rw [List.map_cons, List.map_cons, List.map_cons, List.sum_cons, List.sum_cons]
    rcases List.mem_cons.mp hmem with rfl | hes
    · -- the remaining rows have other keys, so they are unchanged
      have hrest : (es.map fun e => (e.1, if decide (e.1 = k) then f e.2 else e.2)) = es := by
        refine (List.map_congr_left fun e he => ?_).trans (List.map_id es)
        have hne : e.1 ≠ k := fun hk => hnd.1 (List.mem_map.mpr ⟨e, he, hk⟩)
        simp [hne]
      rw [hrest]
      simp only [decide_true, if_true]
      ring
    · have hne : e.1 ≠ k := fun hk => hnd.1 (List.mem_map.mpr ⟨(k, v), hes, hk.symm⟩)
      rw [ih hes hnd.2]
      simp only [hne, decide_false, Bool.false_eq_true, if_false]
      ring

theorem total_upsert_of_notMem {t : KeyedTable κ ν} {k : κ} (h : k ∉ t.keys) (v : ν) (f : ν → ν)
    (g : ν → ℤ) : (t.upsert k v f).total g = t.total g + g v := by
  rw [total, total, entries_upsert_of_notMem h, List.map_append, List.sum_append]
  simp

end KeyedTable
