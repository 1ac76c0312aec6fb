import Mathlib.Tactic.MkIffOfInductiveProp
import SchemaLex.Config.Document
import SchemaLex.Proofs.Text.Names
import SchemaLex.Proofs.Toml.Content

/-!
# Settings

A preference has a place in documents, a variable in the environment and a fixed default.  `Setting`
holds them together with the two ways in which its values are written, and there are seven settings.
A configuration is read from a document exactly if every setting takes its value from the first of
the three layers that has one (`parse_eq_ok_iff`).  So a document is refused for what it says alone,
whatever the environment holds (`exists_parse_iff`).

The settings are grouped in two records.  A record need not be a table: an array gives its elements
to the settings by their position, and a time gives them nothing.
-/

namespace SchemaLex.Config

/-! ## Settings -/

/-- Where the layers hold a preference. -/
structure Place where
  /-- The key of the record. -/
  table : String
  key : String
  /-- Where the field stands in a record without keys. -/
  position : Nat
  /-- The name of the variable. -/
  source : String
deriving DecidableEq, Repr

namespace Place

/-- The field of a record: under its key in a table, at its position in an array. -/
def item? (p : Place) : Toml → Option Toml
  | .table _ es => es.lookup p.key
  | .array items => items[p.position]?
  | .tables elements => elements[p.position]?.map (.table .header)
  | _ => none

/-- What a document says at the place. -/
def content? (p : Place) (root : Toml.Entries) : Option Toml.Content :=
  ((root.lookup p.table).bind p.item?).map Toml.content

/-- The bytes of the variable. -/
def raw? (p : Place) (env : Environment) : Option ByteArray := env.raw? ("PROTO_LEXER_" ++ p.source)

end Place

/-- A preference with its place, the spelling of its values in documents and in variables, and its
fixed default. -/
structure Setting (α : Type) where
  place : Place
  spelling : α → Toml.Content
  ofText? : String → Option α
  fixed : α

namespace Setting

variable {α : Type}

/-- The value without a document: that of the variable if it is set, is UTF-8 and can be read, else
the fixed default. -/
def fallback (s : Setting α) (env : Environment) : α :=
  (((s.place.raw? env).bind String.fromUTF8?).bind s.ofText?).getD s.fixed

/-- The value is the one that the document spells, or the fallback if it says nothing. -/
def Takes (s : Setting α) (env : Environment) (root : Toml.Entries) (x : α) : Prop :=
  match s.place.content? root with
  | some c => c = s.spelling x
  | none => x = s.fallback env

/-- The document says nothing or spells a value. -/
def Proper (s : Setting α) (root : Toml.Entries) : Prop :=
  ∀ c ∈ s.place.content? root, ∃ x, c = s.spelling x

end Setting

def strategy : Setting Strategy :=
  ⟨⟨"lexical", "strategy", 0, "LEXICAL_STRATEGY"⟩, fun s ↦ .text s.name, Strategy.ofText?, .builder⟩

def minLevel : Setting Level :=
  ⟨⟨"logging", "min_log_level", 0, "LOGGING_MIN_LEVEL"⟩, fun l ↦ .text l.key, Level.ofText?, .info⟩

def flag (place : Place) (fixed : Bool) : Setting Bool := ⟨place, .flag, Environment.flagOf?, fixed⟩

def detailedMetrics : Setting Bool :=
  flag ⟨"lexical", "collect_detailed_metrics", 1, "LEXICAL_DETAILED_METRICS"⟩ true

def trackOperators : Setting Bool :=
  flag ⟨"lexical", "track_operator_patterns", 2, "LEXICAL_TRACK_OPERATORS"⟩ false

def logUnknown : Setting Bool :=
  flag ⟨"lexical", "log_unknown_tokens", 3, "LEXICAL_LOG_UNKNOWN"⟩ false

def structured : Setting Bool :=
  flag ⟨"logging", "use_structured_logging", 1, "LOGGING_USE_STRUCTURED"⟩ false

def detailed : Setting Bool :=
  flag ⟨"logging", "detailed_console_output", 2, "LOGGING_DETAILED"⟩ false

def places : List Place :=
  [strategy.place, detailedMetrics.place, trackOperators.place, logUnknown.place, minLevel.place,
    structured.place, detailed.place]

/-- The records of the settings are tables, arrays or times where they are present. -/
def HasRecords (root : Toml.Entries) : Prop :=
  ∀ p ∈ places, ∀ item ∈ root.lookup p.table, item.isScalar = false

/-- Every setting takes its value. -/
@[mk_iff]
structure Assigned (env : Environment) (root : Toml.Entries) (c : Config) : Prop where
  strategy : strategy.Takes env root c.lexical.strategy
  detailedMetrics : detailedMetrics.Takes env root c.lexical.detailedMetrics
  trackOperators : trackOperators.Takes env root c.lexical.trackOperators
  logUnknown : logUnknown.Takes env root c.lexical.logUnknown
  minLevel : minLevel.Takes env root c.logging.minLevel
  structured : structured.Takes env root c.logging.structured
  detailed : detailed.Takes env root c.logging.detailed

/-- Whatever a document says about a setting spells a value of it. -/
structure Proper (root : Toml.Entries) : Prop where
  records : HasRecords root
  strategy : strategy.Proper root
  detailedMetrics : detailedMetrics.Proper root
  trackOperators : trackOperators.Proper root
  logUnknown : logUnknown.Proper root
  minLevel : minLevel.Proper root
  structured : structured.Proper root
  detailed : detailed.Proper root

/-! ## Fields -/

namespace Setting

variable {α : Type}

/-- A reader accepts exactly the items that spell a value of the setting. -/
def ReadBy (s : Setting α) (f : Toml → Option α) : Prop :=
  ∀ item x, f item = some x ↔ item.content = s.spelling x

theorem readBy_strategyOf? : strategy.ReadBy strategyOf? := by
  intro item x
  have hname : ∀ text, Strategy.ofName? text = some x ↔ x.name = text := fun _ ↦
    find?_name_eq_some_iff (fun s ↦ by cases s <;> decide) (by decide)
  simp [strategyOf?, strategy, Toml.content_eq_text_iff, Option.bind_eq_some_iff, hname]

theorem readBy_levelOf? : minLevel.ReadBy levelOf? := by
  intro item x
  have hname : ∀ text, Level.ofKey? text = some x ↔ x.key = text := fun _ ↦
    find?_name_eq_some_iff (fun l ↦ by cases l <;> decide) (by decide)
  simp [levelOf?, minLevel, Toml.content_eq_text_iff, Option.bind_eq_some_iff, hname]

theorem readBy_flagOf? (place : Place) (fixed : Bool) : (flag place fixed).ReadBy flagOf? := by
  intro item x
  rw [flag, Toml.content_eq_flag_iff]
  cases item <;> simp [flagOf?]

end Setting

/-! ## Records -/

section Records

variable {env : Environment} {root es : Toml.Entries} {item : Toml}

/-- The fields of a record are those of the places. -/
theorem lookup_fields? {keys : List String} (hnodup : keys.Nodup) {p : Place}
    (hkey : keys[p.position]? = some p.key) (h : item.fields? keys = some es) :
    es.lookup p.key = p.item? item := by
  cases item with
  | table | datetime =>
    cases h
    rfl
  | array items =>
    cases h
    exact lookup_zip hnodup hkey items
  | tables elements =>
    cases h
    rw [lookup_zip hnodup hkey, List.getElem?_map]
    rfl
  | _ => cases h

theorem exists_fields?_iff {keys : List String} :
    (∃ es, item.fields? keys = some es) ↔ item.isScalar = false := by
  cases item <;> simp [Toml.fields?, Toml.isScalar]

theorem Place.content?_of_lookup {p : Place} (h : root.lookup p.table = some item) :
    p.content? root = (p.item? item).map Toml.content := by
  rw [content?, h, Option.bind_some]

/-- A field of a record is what its setting takes. -/
theorem Setting.field?_eq_some_iff {α : Type} {s : Setting α} {f : Toml → Option α} (h : s.ReadBy f)
    (env : Environment) (hroot : root.lookup s.place.table = some item)
    (hes : es.lookup s.place.key = s.place.item? item) (x : α) :
    field? s.place.key f (s.fallback env) es = some x ↔ s.Takes env root x := by
  rw [Takes, Place.content?_of_lookup hroot, field?, hes]
  cases s.place.item? item with
  | none => simp [eq_comm]
  | some field => exact h field x

/-- A setting whose record is absent takes the fallback. -/
theorem Setting.takes_of_lookup_none {α : Type} {s : Setting α} {x : α}
    (h : root.lookup s.place.table = none) : s.Takes env root x ↔ x = s.fallback env := by
  rw [Takes, Place.content?, h, Option.bind_none, Option.map_none]

/-- A record is read where it is present, and nothing else is read in its place. -/
theorem field?_record_iff {α : Type} {t : String} {f : Toml → Option α} {default x : α} {P : Prop}
    (hscalar : ∀ item, item.isScalar = true → f item = none)
    (hnone : root.lookup t = none → (default = x ↔ P))
    (hrecord : ∀ item, root.lookup t = some item → item.isScalar = false →
      (f item = some x ↔ P)) :
    field? t f default root = some x ↔ (∀ item ∈ root.lookup t, item.isScalar = false) ∧ P := by
  unfold field?
  split
  · rename_i hlookup
    rw [Option.some.injEq, hnone hlookup, hlookup]
    exact (and_iff_right fun _ h ↦ nomatch h).symm
  · rename_i item hlookup
    rw [hlookup]
    cases hitem : item.isScalar with
    | true =>
      rw [hscalar item hitem]
      refine iff_of_false (fun h ↦ nomatch h) fun h ↦ ?_
      rw [h.1 item rfl] at hitem
      cases hitem
    | false =>
      rw [hrecord item hlookup hitem]
      refine (and_iff_right ?_).symm
      rintro _ ⟨⟩
      exact hitem

theorem Setting.fallback_eq {α : Type} (s : Setting α) :
    s.fallback env = ((env.get? s.place.source).bind s.ofText?).getD s.fixed := rfl

theorem lexical_ofEnvironment : LexicalPreferences.ofEnvironment env =
    ⟨strategy.fallback env, detailedMetrics.fallback env, trackOperators.fallback env,
      logUnknown.fallback env⟩ := by
  simp only [LexicalPreferences.ofEnvironment, Environment.flag, Setting.fallback_eq, strategy,
    detailedMetrics, trackOperators, logUnknown, flag]

theorem logging_ofEnvironment : LoggingPreferences.ofEnvironment env =
    ⟨minLevel.fallback env, structured.fallback env, detailed.fallback env⟩ := by
  simp only [LoggingPreferences.ofEnvironment, Environment.flag, Setting.fallback_eq, minLevel,
    structured, detailed, flag]

theorem lexicalOf?_record (hroot : root.lookup "lexical" = some item)
    (hscalar : item.isScalar = false) {p : LexicalPreferences} :
    lexicalOf? (.ofEnvironment env) item = some p ↔
      strategy.Takes env root p.strategy ∧ detailedMetrics.Takes env root p.detailedMetrics ∧
        trackOperators.Takes env root p.trackOperators ∧
        logUnknown.Takes env root p.logUnknown := by
  obtain ⟨es, hes⟩ := exists_fields?_iff.mpr hscalar
  have hflag := Setting.readBy_flagOf?
  have hnodup : lexicalKeys.Nodup := by decide
  have hlookup := fun p hkey ↦ lookup_fields? (p := p) hnodup hkey hes
  have hstrategy :=
    Setting.field?_eq_some_iff Setting.readBy_strategyOf? env hroot (hlookup strategy.place rfl)
  have hmetrics := Setting.field?_eq_some_iff (s := detailedMetrics) (hflag _ _) env hroot
    (hlookup detailedMetrics.place rfl)
  have htrack := Setting.field?_eq_some_iff (s := trackOperators) (hflag _ _) env hroot
    (hlookup trackOperators.place rfl)
  have hlog := Setting.field?_eq_some_iff (s := logUnknown) (hflag _ _) env hroot
    (hlookup logUnknown.place rfl)
  simp only [lexicalOf?, hes, lexical_ofEnvironment, Option.bind_eq_bind, Option.bind_some,
    Option.bind_eq_some_iff, Option.some.injEq]
  constructor
  · rintro ⟨a, ha, b, hb, c, hc, d, hd, rfl⟩
    exact ⟨(hstrategy a).mp ha, (hmetrics b).mp hb, (htrack c).mp hc, (hlog d).mp hd⟩
  · rintro ⟨ha, hb, hc, hd⟩
    exact ⟨_, (hstrategy _).mpr ha, _, (hmetrics _).mpr hb, _, (htrack _).mpr hc, _,
      (hlog _).mpr hd, rfl⟩

theorem loggingOf?_record (hroot : root.lookup "logging" = some item)
    (hscalar : item.isScalar = false) {p : LoggingPreferences} :
    loggingOf? (.ofEnvironment env) item = some p ↔
      minLevel.Takes env root p.minLevel ∧ structured.Takes env root p.structured ∧
        detailed.Takes env root p.detailed := by
  obtain ⟨es, hes⟩ := exists_fields?_iff.mpr hscalar
  have hflag := Setting.readBy_flagOf?
  have hnodup : loggingKeys.Nodup := by decide
  have hlookup := fun p hkey ↦ lookup_fields? (p := p) hnodup hkey hes
  have hlevel :=
    Setting.field?_eq_some_iff Setting.readBy_levelOf? env hroot (hlookup minLevel.place rfl)
  have hstructured := Setting.field?_eq_some_iff (s := structured) (hflag _ _) env hroot
    (hlookup structured.place rfl)
  have hdetailed := Setting.field?_eq_some_iff (s := detailed) (hflag _ _) env hroot
    (hlookup detailed.place rfl)
  simp only [loggingOf?, hes, logging_ofEnvironment, Option.bind_eq_bind, Option.bind_some,
    Option.bind_eq_some_iff, Option.some.injEq]
  constructor
  · rintro ⟨a, ha, b, hb, c, hc, rfl⟩
    exact ⟨(hlevel a).mp ha, (hstructured b).mp hb, (hdetailed c).mp hc⟩
  · rintro ⟨ha, hb, hc⟩
    exact ⟨_, (hlevel _).mpr ha, _, (hstructured _).mpr hb, _, (hdetailed _).mpr hc, rfl⟩

theorem lexical_eq_some_iff {p : LexicalPreferences} :
    field? "lexical" (lexicalOf? (.ofEnvironment env)) (.ofEnvironment env) root = some p ↔
      (∀ item ∈ root.lookup "lexical", item.isScalar = false) ∧
        strategy.Takes env root p.strategy ∧ detailedMetrics.Takes env root p.detailedMetrics ∧
        trackOperators.Takes env root p.trackOperators ∧
        logUnknown.Takes env root p.logUnknown := by
  refine field?_record_iff ?_ ?_ fun item hroot hscalar ↦ lexicalOf?_record hroot hscalar
  · intro item hscalar
    cases item <;> first | rfl | cases hscalar
  · intro hnone
    rw [Setting.takes_of_lookup_none hnone, Setting.takes_of_lookup_none hnone,
      Setting.takes_of_lookup_none hnone, Setting.takes_of_lookup_none hnone,
      lexical_ofEnvironment]
    obtain ⟨a, b, c, d⟩ := p
    simp only [LexicalPreferences.mk.injEq, eq_comm]

theorem logging_eq_some_iff {p : LoggingPreferences} :
    field? "logging" (loggingOf? (.ofEnvironment env)) (.ofEnvironment env) root = some p ↔
      (∀ item ∈ root.lookup "logging", item.isScalar = false) ∧
        minLevel.Takes env root p.minLevel ∧ structured.Takes env root p.structured ∧
        detailed.Takes env root p.detailed := by
  refine field?_record_iff ?_ ?_ fun item hroot hscalar ↦ loggingOf?_record hroot hscalar
  · intro item hscalar
    cases item <;> first | rfl | cases hscalar
  · intro hnone
    rw [Setting.takes_of_lookup_none hnone, Setting.takes_of_lookup_none hnone,
      Setting.takes_of_lookup_none hnone, logging_ofEnvironment]
    obtain ⟨a, b, c⟩ := p
    simp only [LoggingPreferences.mk.injEq, eq_comm]

theorem hasRecords_iff : HasRecords root ↔ (∀ item ∈ root.lookup "lexical", item.isScalar = false) ∧
    ∀ item ∈ root.lookup "logging", item.isScalar = false := by
  constructor
  · intro h
    exact ⟨h strategy.place (by decide), h minLevel.place (by decide)⟩
  · rintro ⟨hlexical, hlogging⟩ p hp
    have htable : p.table = "lexical" ∨ p.table = "logging" := by
      revert p
      decide
    rcases htable with htable | htable <;> rw [htable]
    · exact hlexical
    · exact hlogging

theorem ofTable?_eq_some_iff {c : Config} :
    ofTable? (ofEnvironment env) root = some c ↔ HasRecords root ∧ Assigned env root c := by
  obtain ⟨lexical, logging⟩ := c
  have hsplit : ofTable? (ofEnvironment env) root = some ⟨lexical, logging⟩ ↔
      field? "lexical" (lexicalOf? (.ofEnvironment env)) (.ofEnvironment env) root = some lexical ∧
      field? "logging" (loggingOf? (.ofEnvironment env)) (.ofEnvironment env) root =
        some logging := by
    simp only [ofTable?, ofEnvironment, Option.bind_eq_bind, Option.bind_eq_some_iff,
      Option.some.injEq, Config.mk.injEq]
    constructor
    · rintro ⟨_, hlexical, _, hlogging, rfl, rfl⟩
      exact ⟨hlexical, hlogging⟩
    · rintro ⟨hlexical, hlogging⟩
      exact ⟨_, hlexical, _, hlogging, rfl, rfl⟩
  rw [hsplit, lexical_eq_some_iff, logging_eq_some_iff, hasRecords_iff]
  constructor
  · rintro ⟨⟨ht, ha, hb, hc, hd⟩, ht', he, hf, hg⟩
    exact ⟨⟨ht, ht'⟩, ha, hb, hc, hd, he, hf, hg⟩
  · rintro ⟨⟨ht, ht'⟩, ha, hb, hc, hd, he, hf, hg⟩
    exact ⟨⟨ht, ha, hb, hc, hd⟩, ht', he, hf, hg⟩

end Records

/-! ## Layers -/

/-- A configuration is read from a document exactly if every setting takes its value from the first
layer that has one. -/
theorem parse_eq_ok_iff {env : Environment} {document : String} {c : Config} :
    parse env document = .ok c ↔
      ∃ root, Toml.parse? document = some root ∧ HasRecords root ∧ Assigned env root c := by
  simp only [← ofTable?_eq_some_iff, ← Option.bind_eq_some_iff]
  rw [parse]
  split
  · rename_i heq
    rw [heq]
    simp
  · rename_i heq
    rw [heq]
    simp

/-- Two readings that accept the same configurations are the same. -/
theorem parse_congr {env env' : Environment} {document document' : String}
    (h : ∀ c, parse env document = .ok c ↔ parse env' document' = .ok c) :
    parse env document = parse env' document' := by
  have herror : ∀ (env : Environment) (document : String) (e : ConfigError),
      parse env document = .error e → e = .parse := by
    intro env document e he
    rw [parse] at he
    split at he
    · cases he
    · cases he
      rfl
  cases hread : parse env document with
  | ok c => exact ((h c).mp hread).symm
  | error e =>
    cases hread' : parse env' document' with
    | ok c =>
      rw [(h c).mpr hread'] at hread
      cases hread
    | error e' => rw [herror _ _ _ hread, herror _ _ _ hread']

theorem Setting.exists_takes_iff {α : Type} {s : Setting α} {env : Environment}
    {root : Toml.Entries} : (∃ x, s.Takes env root x) ↔ s.Proper root := by
  rw [Proper]
  simp only [Takes]
  cases s.place.content? root with
  | none => simp
  | some c => simp

/-- Whether a document can be read does not depend on the environment. -/
theorem exists_parse_iff {env : Environment} {document : String} :
    (∃ c, parse env document = .ok c) ↔ ∃ root, Toml.parse? document = some root ∧ Proper root := by
  simp only [parse_eq_ok_iff]
  constructor
  · rintro ⟨c, root, hroot, htables, ha, hb, hc, hd, he, hf, hg⟩
    exact ⟨root, hroot, htables, Setting.exists_takes_iff.mp ⟨_, ha⟩,
      Setting.exists_takes_iff.mp ⟨_, hb⟩, Setting.exists_takes_iff.mp ⟨_, hc⟩,
      Setting.exists_takes_iff.mp ⟨_, hd⟩, Setting.exists_takes_iff.mp ⟨_, he⟩,
      Setting.exists_takes_iff.mp ⟨_, hf⟩, Setting.exists_takes_iff.mp ⟨_, hg⟩⟩
  · rintro ⟨root, hroot, htables, ha, hb, hc, hd, he, hf, hg⟩
    obtain ⟨a, ha⟩ := Setting.exists_takes_iff.mpr ha
    obtain ⟨b, hb⟩ := Setting.exists_takes_iff.mpr hb
    obtain ⟨c, hc⟩ := Setting.exists_takes_iff.mpr hc
    obtain ⟨d, hd⟩ := Setting.exists_takes_iff.mpr hd
    obtain ⟨e, he⟩ := Setting.exists_takes_iff.mpr he
    obtain ⟨f, hf⟩ := Setting.exists_takes_iff.mpr hf
    obtain ⟨g, hg⟩ := Setting.exists_takes_iff.mpr hg
    exact ⟨⟨⟨a, b, c, d⟩, ⟨e, f, g⟩⟩, root, hroot, htables, ha, hb, hc, hd, he, hf, hg⟩

/-! ## What a configuration does not depend on -/

section Congruence

variable {env env' : Environment} {root root' : Toml.Entries}

theorem Setting.takes_congr {α : Type} {s : Setting α} {x : α}
    (hcontent : s.place.content? root = s.place.content? root')
    (henv : s.place.content? root = none → s.place.raw? env = s.place.raw? env') :
    s.Takes env root x ↔ s.Takes env' root' x := by
  rw [Takes, Takes, ← hcontent]
  cases hsaid : s.place.content? root with
  | some c => rfl
  | none => rw [fallback, fallback, henv hsaid]

theorem assigned_congr
    (h : ∀ p ∈ places, p.content? root = p.content? root' ∧
      (p.content? root = none → p.raw? env = p.raw? env')) {c : Config} :
    Assigned env root c ↔ Assigned env' root' c := by
  have htakes : ∀ {α : Type} (s : Setting α), s.place ∈ places → ∀ x,
      s.Takes env root x ↔ s.Takes env' root' x :=
    fun s hs x ↦ Setting.takes_congr (h s.place hs).1 (h s.place hs).2
  rw [assigned_iff, assigned_iff, htakes strategy (by decide), htakes detailedMetrics (by decide),
    htakes trackOperators (by decide), htakes logUnknown (by decide), htakes minLevel (by decide),
    htakes structured (by decide), htakes detailed (by decide)]

/-- Only the variables of settings that a document says nothing about matter. -/
theorem parse_eq_of_raw? {document : String} (h : ∀ root, Toml.parse? document = some root →
    ∀ p ∈ places, p.content? root = none → p.raw? env = p.raw? env') :
    parse env document = parse env' document := by
  refine parse_congr fun c ↦ ?_
  simp only [parse_eq_ok_iff]
  refine exists_congr fun root ↦ and_congr_right fun hroot ↦ and_congr_right fun _ ↦ ?_
  exact assigned_congr fun p hp ↦ ⟨rfl, h root hroot p hp⟩

end Congruence

end SchemaLex.Config
