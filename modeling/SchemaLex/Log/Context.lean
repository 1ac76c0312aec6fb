/-! # Event contexts

A context maps keys to values. Its entries are kept in increasing order of their keys, so that the
order in which they were added leaves no trace. -/

namespace SchemaLex

structure Context where
  entries : List (String × String)
  /-- The keys increase, so that no key has two entries. -/
  ordered : entries.Pairwise (·.1 < ·.1)
deriving DecidableEq, Repr

namespace Context

instance : EmptyCollection Context := ⟨⟨[], .nil⟩⟩

/-- Puts an entry in its place, in place of an earlier one with the same key. -/
def insertEntry (key value : String) : List (String × String) → List (String × String)
  | [] => [(key, value)]
  | (k, v) :: rest =>
    if key < k then (key, value) :: (k, v) :: rest
    else if key = k then (key, value) :: rest
    else (k, v) :: insertEntry key value rest

theorem mem_insertEntry {key value : String} {entries : List (String × String)}
    {entry : String × String} (h : entry ∈ insertEntry key value entries) :
    entry = (key, value) ∨ entry ∈ entries := by
  induction entries with
  | nil => exact .inl (List.mem_singleton.mp h)
  | cons first rest ih =>
    rw [insertEntry] at h
    split at h
    · exact List.mem_cons.mp h
    · split at h
      · exact (List.mem_cons.mp h).imp id (List.mem_cons_of_mem _)
      · rcases List.mem_cons.mp h with rfl | hrest
        · exact .inr List.mem_cons_self
        · exact (ih hrest).imp id (List.mem_cons_of_mem _)

theorem ordered_insertEntry (key value : String) {entries : List (String × String)}
    (h : entries.Pairwise (·.1 < ·.1)) :
    (insertEntry key value entries).Pairwise (·.1 < ·.1) := by
  induction entries with
  | nil => exact List.pairwise_singleton _ _
  | cons first rest ih =>
    obtain ⟨hfirst, hrest⟩ := List.pairwise_cons.mp h
    rw [insertEntry]
    split
    · rename_i hlt
      refine List.pairwise_cons.mpr ⟨?_, h⟩
      intro entry hentry
      rcases List.mem_cons.mp hentry with rfl | hmem
      · exact hlt
      · exact String.lt_trans hlt (hfirst entry hmem)
    · split
      · rename_i heq
        subst heq
        exact List.pairwise_cons.mpr ⟨hfirst, hrest⟩
      · rename_i hlt hne
        have hgt : first.1 < key :=
          Decidable.byContradiction fun hle =>
            hne (String.le_antisymm (String.not_lt.mp hle) (String.not_lt.mp hlt))
        refine List.pairwise_cons.mpr ⟨?_, ih hrest⟩
        intro entry hentry
        rcases mem_insertEntry hentry with rfl | hmem
        · exact hgt
        · exact hfirst entry hmem

def insert (c : Context) (key value : String) : Context :=
  ⟨insertEntry key value c.entries, ordered_insertEntry key value c.ordered⟩

def ofList (entries : List (String × String)) : Context :=
  entries.foldl (fun c (key, value) => c.insert key value) {}

def get? (c : Context) (key : String) : Option String := c.entries.lookup key

def isEmpty (c : Context) : Bool := c.entries.isEmpty

end Context

end SchemaLex
