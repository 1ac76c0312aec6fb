import Mathlib.Data.List.Nodup

/-!
# Finding by name

Kinds, strategies and levels are read by searching a list of all of them for a name.  If the names
are different, the search for a text finds exactly what has this name.
-/

namespace SchemaLex

variable {α : Type} {all : List α} {name : α → String}

theorem find?_name_eq_some_iff (hmem : ∀ a, a ∈ all) (hnodup : (all.map name).Nodup) {text : String}
    {a : α} : all.find? (fun b ↦ name b == text) = some a ↔ name a = text := by
  constructor
  · intro hfind
    exact beq_iff_eq.mp (List.find?_some (p := fun b ↦ name b == text) hfind)
  · rintro rfl
    have hsome : (all.find? fun b ↦ name b == name a).isSome = true :=
      List.find?_isSome.mpr ⟨a, hmem a, beq_self_eq_true _⟩
    obtain ⟨b, hb⟩ := Option.isSome_iff_exists.mp hsome
    have hname := List.find?_some (p := fun b ↦ name b == name a) hb
    rw [hb, List.inj_on_of_nodup_map hnodup (List.mem_of_find?_eq_some hb) (hmem a)
      (beq_iff_eq.mp hname)]

end SchemaLex
