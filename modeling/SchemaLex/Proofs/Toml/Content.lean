import SchemaLex.Proofs.Toml.Statements
import SchemaLex.Toml.Record

/-!
# The content of items

Content is what a reader of choices and flags can tell of an item.  It does not depend on the order
of keys: neither on the order within a value (`Reordered.content_eq`), nor on the order in which a
document states what is at and below a key (`Makes.content_eq`).
-/

namespace SchemaLex.Toml

/-- What a reader of choices and flags can tell of an item. -/
inductive Content where
  | text (s : String)
  | flag (b : Bool)
  | other
deriving DecidableEq, Repr

/-- A table with one key and nothing under it tells the key. -/
def content : Toml → Content
  | .string s => .text s
  | .boolean b => .flag b
  | .table _ [(key, item)] => if item.isHollow then .text key else .other
  | _ => .other

/-- Whether an item has nothing that could be taken for fields. -/
def isScalar : Toml → Bool
  | .string _ | .integer _ | .float _ | .boolean _ => true
  | _ => false

theorem content_eq_text_iff {item : Toml} {s : String} :
    item.content = .text s ↔ item.name? = some s := by
  cases item with
  | table origin es =>
    match es with
    | [] => simp [content, name?]
    | [(key, item)] => cases hhollow : item.isHollow <;> simp [content, name?, hhollow]
    | _ :: _ :: _ => simp [content, name?]
  | _ => simp [content, name?]

theorem content_eq_flag_iff {item : Toml} {b : Bool} :
    item.content = .flag b ↔ item = .boolean b := by
  cases item with
  | table origin es =>
    match es with
    | [] => simp [content]
    | [(key, item)] => cases hhollow : item.isHollow <;> simp [content, hhollow]
    | _ :: _ :: _ => simp [content]
  | _ => simp [content]

theorem isValue_of_isScalar {item : Toml} (h : item.isScalar = true) : item.isValue = true := by
  cases item with
  | table | tables => cases h
  | _ => rfl

/-! ## The order of keys -/

/-- `Reordered item item'`: the items are the same but for the order of keys in the tables of which
they are made. -/
inductive Reordered : Toml → Toml → Prop
  | refl (item : Toml) : Reordered item item
  | trans {a b c : Toml} : Reordered a b → Reordered b c → Reordered a c
  | keys {origin : Origin} {es es' : Entries} : es.Perm es' →
      Reordered (.table origin es) (.table origin es')
  | entry {origin : Origin} {key : String} {item item' : Toml} (before after : Entries) :
      Reordered item item' →
      Reordered (.table origin (before ++ (key, item) :: after))
        (.table origin (before ++ (key, item') :: after))
  | element {item item' : Toml} (before after : List Toml) : Reordered item item' →
      Reordered (.array (before ++ item :: after)) (.array (before ++ item' :: after))

namespace Reordered

variable {item item' : Toml}

theorem isValue_eq (h : Reordered item item') : item.isValue = item'.isValue := by
  induction h with
  | refl _ => rfl
  | trans _ _ ih ih' => exact ih.trans ih'
  | keys _ | entry _ _ _ _ | element _ _ _ _ => rfl

theorem isHollow_eq (h : Reordered item item') : item.isHollow = item'.isHollow := by
  induction h with
  | refl _ => rfl
  | trans _ _ ih ih' => exact ih.trans ih'
  | keys hperm => exact hperm.isEmpty_eq
  | entry before _ _ _ => cases before <;> rfl
  | element before _ _ _ => cases before <;> rfl

theorem content_eq (h : Reordered item item') : item.content = item'.content := by
  induction h with
  | refl _ => rfl
  | trans _ _ ih ih' => exact ih.trans ih'
  | @keys origin es es' hperm =>
    match es, es', hperm.length_eq with
    | [], [], _ => rfl
    | [_], [_], _ =>
      cases List.singleton_perm_singleton.mp hperm
      rfl
    | _ :: _ :: _, _ :: _ :: _, _ => rfl
  | entry before after hitem _ =>
    -- the item counts only if its key stands alone
    match before, after with
    | [], [] =>
      change (if _ then _ else _) = _
      rw [hitem.isHollow_eq]
      rfl
    | [], _ :: _ => rfl
    | [_], _ => rfl
    | _ :: _ :: _, _ => rfl
  | element _ _ _ _ => rfl

end Reordered

/-- What `S` states is stated by `T` too, but for the order of keys in items. -/
def StatedIn (S T : Set Statement) : Prop :=
  ∀ s ∈ S, ∃ item, ⟨s.path, item⟩ ∈ T ∧ Reordered s.item item

namespace StatedIn

variable {S T : Set Statement}

theorem inside (h : StatedIn S T) (key : String) : StatedIn (inside S key) (inside T key) :=
  fun s hs ↦ h (s.into key) hs

theorem nonempty (h : StatedIn S T) (hne : S.Nonempty) : T.Nonempty := by
  obtain ⟨s, hs⟩ := hne
  obtain ⟨item, hmem, -⟩ := h s hs
  exact ⟨_, hmem⟩

end StatedIn

/-! ## What statements tell -/

namespace Makes

variable {S T : Set Statement} {item item' : Toml}

/-- Whether an item is hollow is up to the statements that make it. -/
theorem isHollow_iff (h : Makes S item) :
    item.isHollow = true ↔ ∀ s ∈ S, s.path = [] ∧ s.item.isHollow = true := by
  cases h with
  | value _ hS => simp [hS]
  | @table S origin es _ _ hheader _ hpresent habsent =>
    constructor
    · rintro hhollow ⟨_ | ⟨key, path⟩, item⟩ hs
      · rw [hheader item hs]
        exact ⟨rfl, rfl⟩
      · have hnone := habsent key (by rw [List.isEmpty_iff.mp hhollow]; rfl)
        exact absurd hs (Set.eq_empty_iff_forall_notMem.mp hnone ⟨path, item⟩)
    · intro hall
      cases es with
      | nil => rfl
      | cons e es =>
        obtain ⟨s, hs⟩ := (hpresent e.1 e.2 List.lookup_cons_self).nonempty
        exact absurd (hall _ hs).1 (List.cons_ne_nil _ _)
  | tables hne hheader =>
    refine iff_of_false (fun hhollow ↦ hne (List.isEmpty_iff.mp hhollow)) fun hall ↦ ?_
    cases (hall _ hheader).2

/-- Items are hollow alike if they are stated alike. -/
theorem isHollow_of_statedIn (h : Makes S item) (h' : Makes T item') (hTS : StatedIn T S)
    (hhollow : item.isHollow = true) : item'.isHollow = true := by
  refine h'.isHollow_iff.mpr fun s hs ↦ ?_
  obtain ⟨reordered, hmem, hitem⟩ := hTS s hs
  obtain ⟨hpath, hhollow⟩ := h.isHollow_iff.mp hhollow _ hmem
  exact ⟨hpath, hitem.isHollow_eq.trans hhollow⟩

/-- A key is in no table in which nothing is stated for it. -/
theorem lookup_eq_none_of_statedIn {es es' : Entries} (h : MakesEntries S es)
    (h' : MakesEntries T es') (hTS : StatedIn T S) {key : String} (hnone : es.lookup key = none) :
    es'.lookup key = none := by
  by_contra hlookup
  obtain ⟨item, hitem⟩ := Option.ne_none_iff_exists'.mp hlookup
  have hne := (hTS.inside key).nonempty (h'.present key item hitem).nonempty
  rw [h.absent key hnone] at hne
  exact Set.not_nonempty_empty hne

/-- Tables that are stated alike have the same keys. -/
theorem perm_keys {es es' : Entries} (h : MakesEntries S es) (h' : MakesEntries T es')
    (hST : StatedIn S T) (hTS : StatedIn T S) : (es.map Prod.fst).Perm (es'.map Prod.fst) := by
  refine (List.perm_ext_iff_of_nodup h.nodup h'.nodup).mpr fun key ↦ ?_
  rw [← not_iff_not, ← lookup_eq_none_iff_notMem, ← lookup_eq_none_iff_notMem]
  exact ⟨lookup_eq_none_of_statedIn h h' hTS, lookup_eq_none_of_statedIn h' h hST⟩

theorem content_table {origin origin' : Origin} {es es' : Entries} (h : MakesEntries S es)
    (h' : MakesEntries T es') (hST : StatedIn S T) (hTS : StatedIn T S) :
    (Toml.table origin es).content = (Toml.table origin' es').content := by
  have hperm := perm_keys h h' hST hTS
  -- no key stands twice, so tables with the same keys have as many entries
  match es, es', hperm.length_eq with
  | [], [], _ => rfl
  | [(key, item)], [(key', item')], _ =>
    obtain rfl : key = key' := by simpa using hperm
    have hitem := h.present key item List.lookup_cons_self
    have hitem' := h'.present key item' List.lookup_cons_self
    have hhollow : item.isHollow = item'.isHollow := by
      rw [Bool.eq_iff_iff]
      exact ⟨hitem.isHollow_of_statedIn hitem' (hTS.inside key),
        hitem'.isHollow_of_statedIn hitem (hST.inside key)⟩
    rw [content, content, hhollow]
  | _ :: _ :: _, _ :: _ :: _, _ => rfl

/-- A value and an item that is stated alike have the same content. -/
theorem content_of_value (h : Makes S item) (hvalue : item'.isValue = true)
    (hTS : StatedIn {⟨[], item'⟩} S) : item.content = item'.content := by
  obtain ⟨value, hmem, hitem⟩ := hTS _ (Set.mem_singleton _)
  rw [h.eq_of_isValue (hitem.isValue_eq.symm.trans hvalue) hmem, hitem.content_eq]

/-- Where a table is stated, no array of tables is. -/
theorem not_statedIn_of_tables (hheader : ∀ item, ⟨[], item⟩ ∈ S → item = .table .header [])
    (hmem : ⟨[], .tables [[]]⟩ ∈ T) : ¬ StatedIn T S := by
  intro hTS
  obtain ⟨item, hitem, hreordered⟩ := hTS _ hmem
  cases hheader item hitem
  cases hreordered.isHollow_eq

/-- Items that are stated alike have the same content. -/
theorem content_eq (h : Makes S item) (h' : Makes T item') (hST : StatedIn S T)
    (hTS : StatedIn T S) : item.content = item'.content := by
  cases h with
  | value hvalue hS => exact (h'.content_of_value hvalue (hS ▸ hST)).symm
  | table horigin hne hheader hnodup hpresent habsent =>
    cases h' with
    | value hvalue hT =>
      have h := MakesEntries.table ⟨hnodup, hpresent, habsent⟩ horigin hne hheader
      exact h.content_of_value hvalue (hT ▸ hTS)
    | table _ _ _ hnodup' hpresent' habsent' =>
      exact content_table ⟨hnodup, hpresent, habsent⟩ ⟨hnodup', hpresent', habsent'⟩ hST hTS
    | tables _ hmem => exact absurd hTS (not_statedIn_of_tables hheader hmem)
  | tables hne hmem hheader =>
    cases h' with
    | value hvalue hT => exact (Makes.tables hne hmem hheader).content_of_value hvalue (hT ▸ hTS)
    | table _ _ hheader' => exact absurd hST (not_statedIn_of_tables hheader' hmem)
    | tables => rfl

end Makes

end SchemaLex.Toml
