import Mathlib.Data.List.Nodup

/-!
# Looking up in lists of pairs

Tables of spellings, the entries of contexts and of configuration tables, the fields of JSON objects
and the uses of operators are all lists of pairs in which a key is looked up from the front.  This
file has what they share.
-/

namespace SchemaLex

variable {α β γ : Type} [BEq α]

theorem lookup_map (f : β → γ) (table : List (α × β)) (key : α) :
    (table.map fun (key, value) ↦ (key, f value)).lookup key = (table.lookup key).map f := by
  induction table with
  | nil => rfl
  | cons pair table ih =>
    rw [List.map_cons, List.lookup_cons, List.lookup_cons, ih]
    cases key == pair.1 <;> rfl

variable [LawfulBEq α] {table : List (α × β)} {key : α} {value : β}

theorem lookup_cons_of_ne {first : α} (h : key ≠ first) (value : β) (table : List (α × β)) :
    ((first, value) :: table).lookup key = table.lookup key := by
  rw [List.lookup_cons, beq_false_of_ne h]

theorem mem_of_lookup_eq_some (h : table.lookup key = some value) : (key, value) ∈ table := by
  obtain ⟨before, after, rfl, -⟩ := List.lookup_eq_some_iff.mp h
  simp

theorem lookup_eq_none_iff_notMem : table.lookup key = none ↔ key ∉ table.map (·.1) := by
  simp only [List.lookup_eq_none_iff, bne_iff_ne, ne_eq, List.mem_map, not_exists, not_and]
  exact forall₂_congr fun _ _ ↦ not_congr eq_comm

/-- If no key stands twice, the lookup finds every pair. -/
theorem lookup_eq_some_of_mem (hnodup : (table.map (·.1)).Nodup) (h : (key, value) ∈ table) :
    table.lookup key = some value := by
  induction table with
  | nil => cases h
  | cons pair table ih =>
    obtain ⟨hfirst, hrest⟩ := List.nodup_cons.mp hnodup
    rcases List.mem_cons.mp h with rfl | hmem
    · exact List.lookup_cons_self
    · have hne : key ≠ pair.1 := by
        rintro rfl
        exact hfirst (List.mem_map.mpr ⟨_, hmem, rfl⟩)
      rw [lookup_cons_of_ne hne]
      exact ih hrest hmem

theorem mem_iff_lookup_eq_some (hnodup : (table.map (·.1)).Nodup) :
    (key, value) ∈ table ↔ table.lookup key = some value :=
  ⟨lookup_eq_some_of_mem hnodup, mem_of_lookup_eq_some⟩

/-- If no key stands twice, the last value of a key is its first. -/
theorem lookup_reverse (hnodup : (table.map (·.1)).Nodup) (key : α) :
    table.reverse.lookup key = table.lookup key := by
  have hreverse : (table.reverse.map (·.1)).Nodup :=
    ((List.reverse_perm table).map _).nodup_iff.mpr hnodup
  refine Option.ext fun value ↦ ?_
  rw [← mem_iff_lookup_eq_some hreverse, ← mem_iff_lookup_eq_some hnodup, List.mem_reverse]

theorem lookup_zip {keys : List α} (hnodup : keys.Nodup) {i : Nat} (hkey : keys[i]? = some key)
    (values : List β) : (keys.zip values).lookup key = values[i]? := by
  induction keys generalizing i values with
  | nil => cases hkey
  | cons first keys ih =>
    obtain ⟨hfirst, hkeys⟩ := List.nodup_cons.mp hnodup
    cases values with
    | nil => rfl
    | cons value values =>
      cases i with
      | zero =>
        cases hkey
        exact List.lookup_cons_self
      | succ i =>
        have hne : key ≠ first := by
          rintro rfl
          exact hfirst (List.mem_of_getElem? hkey)
        exact (lookup_cons_of_ne hne value _).trans (ih hkeys hkey values)

end SchemaLex
