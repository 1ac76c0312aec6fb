import SchemaLex.Config.Document
import SchemaLex.Proofs.Toml.Lines

/-!
# Written configurations

A written configuration has a section for each of its two tables, with a line for every preference.
`parse?_render` says that reading it gives these two tables.
-/

namespace SchemaLex.Config

open Toml (Lines Sections Pair)

/-- The items of the lexical preferences under their keys. -/
def lexicalItems (p : LexicalPreferences) : Toml.Entries :=
  [("strategy", .string p.strategy.name),
    ("collect_detailed_metrics", .boolean p.detailedMetrics),
    ("track_operator_patterns", .boolean p.trackOperators),
    ("log_unknown_tokens", .boolean p.logUnknown)]

/-- The items of the logging preferences under their keys. -/
def loggingItems (p : LoggingPreferences) : Toml.Entries :=
  [("min_log_level", .string p.minLevel.key),
    ("use_structured_logging", .boolean p.structured),
    ("detailed_console_output", .boolean p.detailed)]

/-- The root table of a written configuration. -/
def written (c : Config) : Toml.Entries :=
  [("lexical", .table .header (lexicalItems c.lexical)),
    ("logging", .table .header (loggingItems c.logging))]

/-- Pairs of single keys. -/
def pairsOf (es : Toml.Entries) : List Pair := es.map fun e ↦ ⟨[], e.1, e.2⟩

def writtenSections (c : Config) : List Toml.Section :=
  [⟨false, [], "lexical", pairsOf (lexicalItems c.lexical)⟩,
    ⟨false, [], "logging", pairsOf (loggingItems c.logging)⟩]

theorem isPlainChar_name (s : Strategy) : ∀ c ∈ s.name.toList, Toml.isPlainChar c = true :=
  List.all_eq_true.mp (by cases s <;> decide)

theorem isPlainChar_key (l : Level) : ∀ c ∈ l.key.toList, Toml.isPlainChar c = true :=
  List.all_eq_true.mp (by cases l <;> decide)

theorem sections_render (c : Config) : Sections (render c).toList (writtenSections c) := by
  have hlexical := Lines.text "strategy" "strategy = \"" (by decide)
      (isPlainChar_name c.lexical.strategy) <|
    Lines.flag "collect_detailed_metrics" "collect_detailed_metrics = " (by decide)
      c.lexical.detailedMetrics <|
    Lines.flag "track_operator_patterns" "track_operator_patterns = " (by decide)
      c.lexical.trackOperators <|
    Lines.flag "log_unknown_tokens" "log_unknown_tokens = " (by decide) c.lexical.logUnknown .nil
  have hlogging := Lines.text "min_log_level" "min_log_level = \"" (by decide)
      (isPlainChar_key c.logging.minLevel) <|
    Lines.flag "use_structured_logging" "use_structured_logging = " (by decide)
      c.logging.structured <|
    Lines.flag "detailed_console_output" "detailed_console_output = " (by decide)
      c.logging.detailed .nil
  have h := Sections.header "lexical" "[lexical]\n" (by decide) hlexical <|
    Sections.spaced "[logging]\n" "\n[logging]\n" (by decide) <|
    Sections.header "logging" "[logging]\n" (by decide) hlogging .nil
  simp only [List.append_assoc, List.append_nil] at h
  -- `unfold` spares the equation of `render`, which takes all its literals apart
  unfold render
  simp only [String.toList_append, List.append_assoc]
  exact h

theorem root?_writtenSections (c : Config) :
    Toml.Document.root? ⟨[], writtenSections c⟩ = some (written c) := rfl

theorem skipMark_render (c : Config) : Toml.skipMark (render c).toList = (render c).toList := by
  unfold render
  simp only [String.toList_append, List.append_assoc]
  rfl

theorem parse?_render (c : Config) : Toml.parse? (render c) = some (written c) := by
  rw [Toml.parse?, skipMark_render, Toml.readDocument?_sections (sections_render c),
    Option.bind_some, root?_writtenSections]

end SchemaLex.Config
