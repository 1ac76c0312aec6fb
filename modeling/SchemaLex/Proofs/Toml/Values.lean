import SchemaLex.Proofs.Toml.Statements
import SchemaLex.Toml.Reader

/-!
# Items that are read

Whatever a reader of items returns is a value (`isValue_of_readItem?`), so all pairs of a document
that is read hold values (`hasValues_of_readDocument?`).
-/

namespace SchemaLex.Toml

variable {cs rest : List Char} {item : Toml}

/-! ## Scalars -/

theorem isValue_of_ofMagnitude? {negative : Bool} {n : Nat}
    (h : ofMagnitude? negative n = some item) : item.isValue = true := by
  unfold ofMagnitude? at h
  split at h <;> split at h <;> cases h <;> rfl

theorem isValue_of_integer? (h : integer? cs = some item) : item.isValue = true := by
  unfold integer? at h
  split at h
  all_goals
    obtain ⟨digits, -, hinteger⟩ := Option.bind_eq_some_iff.mp h
    exact isValue_of_ofMagnitude? hinteger

theorem isValue_of_finiteFloat? (h : finiteFloat? cs = some item) : item.isValue = true := by
  simp only [finiteFloat?, Option.ite_none_left_eq_some, Option.bind_eq_bind,
    Option.bind_eq_some_iff, Option.some.injEq] at h
  obtain ⟨-, _, -, _, -, _, -, -, rfl⟩ := h
  rfl

theorem isValue_of_float? (h : float? cs = some item) : item.isValue = true := by
  simp only [float?] at h
  split at h
  · cases h
    rfl
  · split at h
    · cases h
      rfl
    · exact isValue_of_finiteFloat? h

theorem isValue_of_boolean? (h : boolean? cs = some item) : item.isValue = true := by
  unfold boolean? at h
  split at h
  · cases h
    rfl
  · split at h <;> cases h
    rfl

theorem isValue_of_datetime? (h : datetime? cs = some item) : item.isValue = true := by
  simp only [datetime?, Option.ite_none_right_eq_some, Option.some.injEq] at h
  obtain ⟨-, rfl⟩ := h
  rfl

theorem isValue_of_scalar? (h : scalar? cs = some item) : item.isValue = true := by
  simp only [scalar?, Option.or_eq_some_iff] at h
  obtain h | ⟨-, h | ⟨-, h | ⟨-, h⟩⟩⟩ := h
  · exact isValue_of_boolean? h
  · exact isValue_of_integer? h
  · exact isValue_of_float? h
  · exact isValue_of_datetime? h

theorem isValue_of_readScalar? (h : readScalar? cs = some (item, rest)) : item.isValue = true := by
  simp only [readScalar?] at h
  split at h
  · split at h <;> cases h
    rfl
  · obtain ⟨_, hscalar, heq⟩ := Option.map_eq_some_iff.mp h
    cases heq
    exact isValue_of_scalar? hscalar

/-! ## Items and pairs -/

theorem isValue_of_readItem? {fuel : Nat} (h : readItem? fuel cs = some (item, rest)) :
    item.isValue = true := by
  unfold readItem? at h
  split at h
  · cases h
  · split at h
    · obtain ⟨_, -, heq⟩ := Option.map_eq_some_iff.mp h
      cases heq
      rfl
    · obtain ⟨_, -, heq⟩ := Option.map_eq_some_iff.mp h
      cases heq
      rfl
    · obtain ⟨_, -, heq⟩ := Option.map_eq_some_iff.mp h
      cases heq
      rfl
    · dsimp only at h
      split at h
      all_goals
        obtain ⟨_, -, h⟩ := Option.bind_eq_some_iff.mp h
        obtain ⟨_, -, heq⟩ := Option.bind_eq_some_iff.mp h
        cases heq
        rfl
    · exact isValue_of_readScalar? h

theorem isValue_of_readPair? {fuel : Nat} {pair : Pair}
    (h : readPair? fuel cs = some (pair, rest)) : pair.item.isValue = true := by
  unfold readPair? at h
  split at h
  · cases h
  · obtain ⟨_, -, h⟩ := Option.bind_eq_some_iff.mp h
    dsimp only at h
    split at h
    · obtain ⟨_, hitem, heq⟩ := Option.bind_eq_some_iff.mp h
      cases heq
      exact isValue_of_readItem? hitem
    · cases h

theorem isValue_of_readPairs? {size fuel : Nat} {pairs : List Pair}
    (h : readPairs? size fuel cs = some (pairs, rest)) : ∀ p ∈ pairs, p.item.isValue = true := by
  induction fuel generalizing cs pairs with
  | zero => cases h
  | succ fuel ih =>
    rw [readPairs?] at h
    obtain ⟨next, -, h⟩ := Option.bind_eq_some_iff.mp h
    split at h
    · cases h
      exact List.forall_mem_nil _
    · cases h
      exact List.forall_mem_nil _
    · obtain ⟨⟨pair, _⟩, hpair, h⟩ := Option.bind_eq_some_iff.mp h
      obtain ⟨_, -, h⟩ := Option.bind_eq_some_iff.mp h
      obtain ⟨_, hpairs, heq⟩ := Option.bind_eq_some_iff.mp h
      cases heq
      exact List.forall_mem_cons.mpr ⟨isValue_of_readPair? hpair, ih hpairs⟩

/-! ## Documents -/

theorem isValue_of_readSections? {size fuel : Nat} {sections : List Section}
    (h : readSections? size fuel cs = some sections) :
    ∀ s ∈ sections, ∀ p ∈ s.pairs, p.item.isValue = true := by
  induction fuel generalizing cs sections with
  | zero => cases h
  | succ fuel ih =>
    unfold readSections? at h
    split at h
    · obtain ⟨_, -, h⟩ := Option.bind_eq_some_iff.mp h
      obtain ⟨_, hpairs, h⟩ := Option.bind_eq_some_iff.mp h
      obtain ⟨_, hsections, heq⟩ := Option.bind_eq_some_iff.mp h
      cases heq
      exact List.forall_mem_cons.mpr ⟨isValue_of_readPairs? hpairs, ih hsections⟩
    · cases h
      exact List.forall_mem_nil _
    · cases h

/-- All pairs of a document that is read hold values. -/
theorem hasValues_of_readDocument? {d : Document} (h : readDocument? cs = some d) :
    d.HasValues := by
  obtain ⟨_, hpairs, h⟩ := Option.bind_eq_some_iff.mp h
  obtain ⟨_, hsections, heq⟩ := Option.bind_eq_some_iff.mp h
  cases heq
  exact ⟨isValue_of_readPairs? hpairs, isValue_of_readSections? hsections⟩

end SchemaLex.Toml
