import SchemaLex.Proofs.Journal

/-!
# Contexts in the order of their keys

The entries of a context are what sorting by key makes of its keys and values, in whatever order
they are given (`Context.mergeSort_eq_entries`), so a context is determined by what it maps its keys
to (`Context.eq_of_get?`).  Therefore neither form of an event shows in which order its entries were
added, or which values were replaced on the way (`Event.formats_of_lastValue?`).
-/

namespace SchemaLex

namespace Context

theorem nodup_keys (c : Context) : (c.entries.map (·.1)).Nodup := by
  refine List.pairwise_map.mpr (c.ordered.imp ?_)
  intro a b hlt heq
  exact String.lt_irrefl b.1 (heq ▸ hlt)

theorem mem_entries_iff {c : Context} {key value : String} :
    (key, value) ∈ c.entries ↔ c.get? key = some value :=
  mem_iff_lookup_eq_some c.nodup_keys

/-- Sorting by key whatever list of pairs has a context's keys and values, in any order, gives the
entries of the context. -/
theorem mergeSort_eq_entries (c : Context) {pairs : List (String × String)}
    (hnodup : (pairs.map (·.1)).Nodup) (h : ∀ key, pairs.lookup key = c.get? key) :
    pairs.mergeSort (fun a b ↦ a.1 ≤ b.1) = c.entries := by
  have hmem : ∀ pair, pair ∈ pairs ↔ pair ∈ c.entries := by
    rintro ⟨key, value⟩
    rw [mem_iff_lookup_eq_some hnodup, h, mem_entries_iff]
  have hperm : (pairs.mergeSort fun a b ↦ a.1 ≤ b.1).Perm c.entries :=
    (List.mergeSort_perm _ _).trans <|
      (List.perm_ext_iff_of_nodup (.of_map _ hnodup) (.of_map _ c.nodup_keys)).mpr hmem
  have hsorted : (pairs.mergeSort fun a b ↦ a.1 ≤ b.1).Pairwise (·.1 ≤ ·.1) := by
    refine (List.pairwise_mergeSort ?_ ?_ pairs).imp of_decide_eq_true
    · intro a b d hab hbd
      exact decide_eq_true (String.le_trans (of_decide_eq_true hab) (of_decide_eq_true hbd))
    · intro a b
      rcases String.le_total a.1 b.1 with hab | hba
      · rw [decide_eq_true hab, Bool.true_or]
      · rw [decide_eq_true hba, Bool.or_true]
  have hordered : c.entries.Pairwise (·.1 ≤ ·.1) :=
    c.ordered.imp fun hlt ↦ String.not_lt.mp (String.lt_asymm hlt)
  refine hperm.eq_of_pairwise ?_ hsorted hordered
  -- pairs with the same key are the same
  rintro ⟨key, value⟩ ⟨key', value'⟩ ha hb hle hge
  obtain rfl : key = key' := String.le_antisymm hle hge
  have hvalue := mem_entries_iff.mp (hperm.mem_iff.mp ha)
  rw [mem_entries_iff.mp hb] at hvalue
  cases hvalue
  rfl

/-- A context is determined by what it maps its keys to. -/
theorem eq_of_get? {c c' : Context} (h : ∀ key, c.get? key = c'.get? key) : c = c' := by
  have hentries : c.entries = c'.entries := by
    rw [← c.mergeSort_eq_entries c'.nodup_keys fun key ↦ (h key).symm,
      c'.mergeSort_eq_entries c'.nodup_keys fun _ ↦ rfl]
  cases c
  cases c'
  cases hentries
  rfl

end Context

namespace Event

/-- The value that an event has under a key after entries were added: the last that was given, or
else the one that it had before. -/
def lastValue? (e : Event) (entries : List (String × String)) (key : String) : Option String :=
  (entries.reverse.lookup key).or (e.context.get? key)

/-- What the detailed form says before the context: the first line and the advice. -/
def heading (e : Event) : String :=
  e.adviceLines.foldl (fun text line ↦ text ++ "\n" ++ line) e.format

/-- How entries are listed below an event, a line for each in their order. -/
def listing (entries : List (String × String)) : String :=
  if entries.isEmpty then ""
  else "\n  Context:" ++
    String.join (entries.map fun (key, value) ↦ "\n    " ++ key ++ ": " ++ value)

theorem foldl_lines (text : String) (lines : List String) :
    lines.foldl (fun text line ↦ text ++ "\n" ++ line) text =
      text ++ String.join (lines.map ("\n" ++ ·)) := by
  induction lines generalizing text with
  | nil => simp
  | cons line lines ih =>
    rw [List.foldl_cons, ih, List.map_cons, String.join_cons, String.append_assoc,
      String.append_assoc, String.append_assoc]

theorem join_contextLines (e : Event) :
    String.join (e.contextLines.map ("\n" ++ ·)) = listing e.context.entries := by
  unfold contextLines listing Context.isEmpty
  split
  · rfl
  · have hline : ∀ key value : String,
        "\n" ++ ("    " ++ key ++ ": " ++ value) = "\n    " ++ key ++ ": " ++ value := by
      intro key value
      rw [← String.append_assoc, ← String.append_assoc, ← String.append_assoc]
      rfl
    rw [List.map_cons, String.join_cons, List.map_map]
    simp only [Function.comp_def, hline]
    rfl

/-- The detailed form lists the entries of the context below its heading. -/
theorem formatDetailed_eq (e : Event) :
    e.formatDetailed = e.heading ++ listing e.context.entries := by
  rw [formatDetailed, List.foldl_append, foldl_lines, join_contextLines]
  rfl

theorem heading_withEntries (e : Event) (entries : List (String × String)) :
    (e.withEntries entries).heading = e.heading := by
  rw [withEntries_frame]
  rfl

/-- Events agree after two sequences of entries that give every key the same last value. -/
theorem withEntries_eq {e : Event} {entries entries' : List (String × String)}
    (h : ∀ key, e.lastValue? entries key = e.lastValue? entries' key) :
    e.withEntries entries = e.withEntries entries' := by
  have hcontext : (e.withEntries entries).context = (e.withEntries entries').context := by
    refine Context.eq_of_get? fun key ↦ ?_
    rw [get?_withEntries, get?_withEntries]
    exact h key
  rw [withEntries_frame, hcontext, ← withEntries_frame]

/-- After two sequences of entries that give every key the same last value, both forms of an event
are the same.  The detailed form lists every key once, in increasing order and with its last value,
below a heading that does not depend on the entries. -/
theorem formats_of_lastValue? (e : Event) (stamp : String)
    (entries entries' : List (String × String))
    (h : ∀ key, e.lastValue? entries key = e.lastValue? entries' key) :
    (e.withEntries entries).formatDetailed = (e.withEntries entries').formatDetailed ∧
      (e.withEntries entries).formatJson stamp = (e.withEntries entries').formatJson stamp ∧
      ∃ listed, (e.withEntries entries).formatDetailed = e.heading ++ listing listed ∧
        listed.Pairwise (·.1 < ·.1) ∧
        ∀ key value, (key, value) ∈ listed ↔ e.lastValue? entries key = some value := by
  have heq := withEntries_eq h
  refine ⟨congrArg formatDetailed heq, congrArg (formatJson · stamp) heq,
    (e.withEntries entries).context.entries, ?_, Context.ordered _, ?_⟩
  · rw [formatDetailed_eq, heading_withEntries]
  · intro key value
    rw [Context.mem_entries_iff, get?_withEntries]
    rfl

theorem formats_of_lastValue?_reordered :
    let e := (Event.warning .unterminatedComment "Open").withContext "c" "3"
    let entries := [("b", "2"), ("a", "0"), ("a", "1")]
    let entries' := [("a", "1"), ("b", "2")]
    (∀ key, e.lastValue? entries key = e.lastValue? entries' key) ∧
      (e.withEntries entries).formatDetailed = (e.withEntries entries').formatDetailed ∧
      (e.withEntries entries).formatJson "T" = (e.withEntries entries').formatJson "T" := by
  intro e entries entries'
  have hlast : ∀ key, e.lastValue? entries key = e.lastValue? entries' key := by
    intro key
    refine congrArg (Option.or · (e.context.get? key)) ?_
    change [("a", "1"), ("a", "0"), ("b", "2")].lookup key = [("b", "2"), ("a", "1")].lookup key
    by_cases ha : key = "a"
    · subst ha
      rfl
    · rw [lookup_cons_of_ne ha, lookup_cons_of_ne ha, List.lookup_cons, List.lookup_cons,
        lookup_cons_of_ne ha]
  obtain ⟨hdetailed, hjson, -⟩ := formats_of_lastValue? e "T" entries entries' hlast
  exact ⟨hlast, hdetailed, hjson⟩

end Event

end SchemaLex
