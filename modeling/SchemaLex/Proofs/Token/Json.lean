import SchemaLex.Proofs.Contextual.Coverage
import SchemaLex.Proofs.Json.Number
import SchemaLex.Proofs.Text.Names
import SchemaLex.Token.Json

/-!
# Tokens read back from their JSON text

The text of a token is read as the JSON form that was written (`parse?_render`), and the sort of its
value is recovered from the shape of the JSON value alone: a string is a text, a numeral with a
point or an exponent is a float, any other numeral an integer.  So texts and integers come back
unchanged, a finite float comes back as a float, and what has no numeral does not come back
(`json_reads_back`).
-/

namespace SchemaLex

open Json

/-! ## Strings and kinds -/

theorem Json.wellFormed_encode (text : List Char) : ∀ u ∈ encode text, u.WellFormed := by
  intro u hu
  obtain ⟨c, -, rfl⟩ := List.mem_map.mp hu
  trivial

theorem Json.wellFormed_ofString (text : String) : (ofString text).WellFormed :=
  .string (wellFormed_encode _)

namespace Kind

theorem mem_all (kind : Kind) : kind ∈ all := by
  cases kind with
  | unknown | identifier | literal => decide
  | keyword word => cases word with
    | scalar type => cases type <;> decide
    | _ => decide
  | number reading => cases reading <;> decide
  | operator op => cases op <;> decide
  | delimiter mark => cases mark <;> decide
  | comment part => cases part <;> decide

theorem nodup_names : (all.map name).Nodup := by decide +kernel

theorem ofName?_name (kind : Kind) : ofName? kind.name = some kind :=
  (find?_name_eq_some_iff mem_all nodup_names).mpr rfl

theorem ofJson?_toJson (kind : Kind) : ofJson? kind.toJson = some kind := by
  rw [toJson, ofString, ofJson?, ofUnits?, decode_encode, Option.bind_some, String.ofList_toList,
    ofName?_name]

end Kind

namespace Value

theorem wellFormed_toJson (value : Value) : value.toJson.WellFormed := by
  cases value with
  | integer n => exact .number (Numeral.wellFormed_integer _)
  | text s => exact wellFormed_ofString s
  | float x =>
    cases x with
    | nan => exact .null
    | infinity negative => exact .null
    | finite negative code =>
      obtain ⟨n, hjson, hwell, -⟩ := exists_numeral negative code
      rw [toJson, hjson]
      exact .number hwell

theorem ofJson?_text (s : String) : ofJson? (toJson (.text s)) = some (.text s) := by
  rw [toJson, ofString, ofJson?, decode_encode, Option.map_some, String.ofList_toList]

theorem ofJson?_integer (n : Int64) : ofJson? (toJson (.integer n)) = some (.integer n) := by
  rw [toJson, ofInt, ofJson?, Numeral.toInt64?_integer]

/-- A finite float is written as a number and comes back as a float of the same sign. -/
theorem ofJson?_finite (negative : Bool) (code : Fin Binary64.codes) :
    (∃ numeral, toJson (.float (.finite negative code)) = .number numeral) ∧
      ∃ code', ofJson? (toJson (.float (.finite negative code))) =
        some (.float (.finite negative code')) := by
  obtain ⟨n, hjson, -, hinteger, code', hfloat⟩ := exists_numeral negative code
  rw [toJson, hjson, ofJson?, hinteger, hfloat]
  exact ⟨⟨n, rfl⟩, code', rfl⟩

theorem toJson_eq_null {x : Binary64} (h : x.isFinite = false) : toJson (.float x) = .null := by
  cases x with
  | finite negative code => cases h
  | nan | infinity _ => rfl

end Value

namespace Token

theorem wellFormed_toJson (token : Token) : token.toJson.WellFormed := by
  refine .object ?_ ?_
  · simp only [List.forall_mem_cons]
    exact ⟨wellFormed_encode _, wellFormed_encode _, fun _ h ↦ nomatch h⟩
  · simp only [List.forall_mem_cons]
    exact ⟨wellFormed_ofString _, token.value.wellFormed_toJson, fun _ h ↦ nomatch h⟩

/-- The text of a token is read as the JSON form that was written. -/
theorem parse?_render (token : Token) : Json.parse? token.render = some token.toJson :=
  parse?_text token.wellFormed_toJson

theorem ofJson?_toJson (token : Token) :
    ofJson? token.toJson = (Value.ofJson? token.value.toJson).map (⟨token.kind, ·⟩) := by
  have hpair : ofJson? token.toJson = ofPair? token.kind.toJson token.value.toJson := by
    simp [toJson, ofJson?, decodeKeys?, single?]
  rw [hpair, ofPair?, Kind.ofJson?_toJson]
  cases Value.ofJson? token.value.toJson <;> rfl

/-- Texts and integers come back unchanged. -/
theorem ofJson?_of_ne_float {token : Token} (h : ∀ x, token.value ≠ .float x) :
    ofJson? token.toJson = some token := by
  obtain ⟨kind, value⟩ := token
  rw [ofJson?_toJson]
  cases value with
  | integer n => rw [Value.ofJson?_integer]; rfl
  | text s => rw [Value.ofJson?_text]; rfl
  | float x => exact absurd rfl (h x)

theorem parse?_of_ne_float {token : Token} (h : ∀ x, token.value ≠ .float x) :
    parse? token.render = some token := by
  rw [parse?, parse?_render, Option.bind_some, ofJson?_of_ne_float h]

theorem parseAll?_of_ne_float {tokens : List Token}
    (h : ∀ token ∈ tokens, ∀ x, token.value ≠ .float x) :
    parseAll? (renderAll tokens) = some tokens := by
  have hwell : (Json.array (tokens.map toJson)).WellFormed := by
    refine .array fun item hitem ↦ ?_
    obtain ⟨token, -, rfl⟩ := List.mem_map.mp hitem
    exact token.wellFormed_toJson
  rw [parseAll?, renderAll, parse?_text hwell, Option.bind_some, listOfJson?]
  clear hwell
  induction tokens with
  | nil => rfl
  | cons token tokens ih =>
    obtain ⟨htoken, htokens⟩ := List.forall_mem_cons.mp h
    rw [List.map_cons, List.mapM_cons, ofJson?_of_ne_float htoken, ih htokens]
    rfl

/-- A scan by context yields texts only. -/
theorem ne_float_of_mem_contextual {preferences : LexicalPreferences} {source : String}
    {token : Token}
    (h : token ∈ (scan { preferences with strategy := .contextual } source).tokens) (x : Binary64) :
    token.value ≠ .float x := by
  have hlossless := Contextual.lossless_layout (Contextual.composed_segments source.toList)
  have htokens : (scan { preferences with strategy := .contextual } source).tokens =
      (Contextual.layout (Contextual.segments source.toList)).map (·.token) := by
    rw [Contextual.layout, List.map_map]
    exact tokensOf_eq_map_located 0 _
  rw [htokens] at h
  obtain ⟨p, hp, rfl⟩ := List.mem_map.mp h
  obtain ⟨s, hs⟩ := hlossless.carries_text p hp
  rw [hs]
  rintro ⟨⟩

/-- Tokens with texts or integers come back unchanged from their JSON text, alone and in lists, and
so do the tokens of every scan by context.  A finite float is written as a number and comes back as
a float of the same sign; any other float is written as null and does not come back. -/
theorem json_reads_back :
    (∀ token : Token, Json.parse? token.render = some token.toJson) ∧
    (∀ token : Token, (∀ x, token.value ≠ .float x) → parse? token.render = some token) ∧
    (∀ tokens : List Token, (∀ token ∈ tokens, ∀ x, token.value ≠ .float x) →
      parseAll? (renderAll tokens) = some tokens) ∧
    (∀ (preferences : LexicalPreferences) (source : String),
      let tokens := (scan { preferences with strategy := .contextual } source).tokens
      parseAll? (renderAll tokens) = some tokens) ∧
    (∀ (kind : Kind) (negative : Bool) (code : Fin Binary64.codes),
      let token : Token := ⟨kind, .float (.finite negative code)⟩
      (∃ numeral, token.value.toJson = .number numeral) ∧
        ∃ code', parse? token.render = some ⟨kind, .float (.finite negative code')⟩) ∧
    ∀ (kind : Kind) (x : Binary64), x.isFinite = false →
      let token : Token := ⟨kind, .float x⟩
      token.value.toJson = .null ∧ parse? token.render = none := by
  refine ⟨parse?_render, fun _ ↦ parse?_of_ne_float, fun _ ↦ parseAll?_of_ne_float, ?_, ?_, ?_⟩
  · intro preferences source tokens
    exact parseAll?_of_ne_float fun _ htoken ↦ ne_float_of_mem_contextual htoken
  · intro kind negative code token
    obtain ⟨hnumber, code', hread⟩ := Value.ofJson?_finite negative code
    refine ⟨hnumber, code', ?_⟩
    rw [parse?, parse?_render, Option.bind_some, ofJson?_toJson, hread]
    rfl
  · intro kind x hx token
    have hnull : token.value.toJson = .null := Value.toJson_eq_null hx
    refine ⟨hnull, ?_⟩
    rw [parse?, parse?_render, Option.bind_some, ofJson?_toJson, hnull]
    rfl

end Token

end SchemaLex
