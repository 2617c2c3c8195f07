import MatchingEngine.Sidecar.Price
import Mathlib.Data.List.Perm.Basic

/-!
# FIX order messages

`rust/src/fix.rs`: the fields of a message are collected in a map from tags to values, and
the map is read in an order that depends on the message type.

A message that carries the fields of an order is read as that order, wherever its fields
stand and whatever else it carries, and without one of them it is refused with the tag of
that field. What the order of the fields could change is kept out by the map: `splitFields`
depends on the text only through the fields in it, and `parseFields` on the map only through
the tags of its message type.
-/

namespace MatchingEngine.Sidecar

open MatchingEngine.Foundation

/-! ### The code -/

/-- `enum FixSide`. -/
inductive FixSide where
  /-- `Buy`. -/
  | buy
  /-- `Sell`. -/
  | sell
  deriving DecidableEq

/-- `enum FixOrdType`. -/
inductive FixOrdType where
  /-- `Limit`. -/
  | limit
  /-- `Market`. -/
  | market
  deriving DecidableEq

/-- `enum ParsedFixMessage`. -/
inductive ParsedFixMessage where
  /-- `NewOrderSingle`. -/
  | newOrderSingle (clOrdId symbol : Str) (side : FixSide) (ordType : FixOrdType) (price : Option Int64)
      (qty : UInt64)
  /-- `CancelRequest`. -/
  | cancelRequest (clOrdId origClOrdId symbol : Str) (side : FixSide)
  /-- `CancelReplaceRequest`. -/
  | cancelReplaceRequest (clOrdId origClOrdId symbol : Str) (side : FixSide) (ordType : FixOrdType)
      (price : Option Int64) (qty : UInt64)
  deriving DecidableEq

/-- The values by their tags: `HashMap<u32, String>`. -/
abbrev Fields := UInt32 → Option Str

/-- What a function of the module does: it panics, or it returns a `Result`. -/
abbrev Parsed (α : Type) := ExceptT FixParseError (Except Panic) α

/-- The delimiter on the wire. -/
def soh : Char := Char.ofNat 1

/-- The closure of `split_fields`. -/
def splitField (field : Str) : Option (UInt32 × Str) :=
  (after '=' field).bind fun value => (parseU32 (trim (before '=' field))).map fun tag => (tag, value)

/-- `collect` into a map: of two values for a tag the later one stays. -/
def collect (pairs : List (UInt32 × Str)) : Fields :=
  pairs.foldl (fun fields pair => Function.update fields pair.1 (some pair.2)) fun _ => none

/-- `split_fields`. -/
def splitFields (raw : Str) : Fields :=
  let delim := if soh ∈ raw then soh else '|'
  collect ((raw.splitOn delim).filterMap splitField)

/-- `get`. -/
def get (fields : Fields) (tag : UInt32) : Parsed Str :=
  match fields tag with
  | some s => pure s
  | none => throw (.missingTag tag)

/-- `parse_side`. -/
def parseSide (raw : Str) : Parsed FixSide :=
  match raw with
  | ['1'] => pure .buy
  | ['2'] => pure .sell
  | other => throw (.badSide other)

/-- `parse_ord_type`. -/
def parseOrdType (raw : Str) : Parsed FixOrdType :=
  match raw with
  | ['1'] => pure .market
  | ['2'] => pure .limit
  | other => throw (.badOrdType other)

/-- `parse_qty`. -/
def parseQty (fields : Fields) : Parsed UInt64 := do
  match parseU64 (← get fields 38) with
  | some qty => return qty
  | none => throw (.badInteger 38)

/-- `price` in `parse`, which only a limit order has. -/
def parsePriceOf (fields : Fields) : FixOrdType → Parsed (Option Int64)
  | .limit => do
    let raw ← get fields 44
    let price ← ExceptT.mk (parsePrice raw)
    return some price
  | .market => return none

/-- The branch of `parse` for a new order. -/
def parseNewOrderSingle (fields : Fields) : Parsed ParsedFixMessage := do
  let clOrdId ← get fields 11
  let symbol ← get fields 55
  let side ← parseSide (← get fields 54)
  let ordType ← parseOrdType (← get fields 40)
  let qty ← parseQty fields
  let price ← parsePriceOf fields ordType
  return .newOrderSingle clOrdId symbol side ordType price qty

/-- The branch of `parse` for a cancel. -/
def parseCancelRequest (fields : Fields) : Parsed ParsedFixMessage := do
  let clOrdId ← get fields 11
  let origClOrdId ← get fields 41
  let symbol ← get fields 55
  let side ← parseSide (← get fields 54)
  return .cancelRequest clOrdId origClOrdId symbol side

/-- The branch of `parse` for a replacement. -/
def parseCancelReplaceRequest (fields : Fields) : Parsed ParsedFixMessage := do
  let clOrdId ← get fields 11
  let origClOrdId ← get fields 41
  let symbol ← get fields 55
  let side ← parseSide (← get fields 54)
  let ordType ← parseOrdType (← get fields 40)
  let qty ← parseQty fields
  let price ← parsePriceOf fields ordType
  return .cancelReplaceRequest clOrdId origClOrdId symbol side ordType price qty

/-- `parse` after the split. -/
def parseFields (fields : Fields) : Parsed ParsedFixMessage := do
  match ← get fields 35 with
  | ['D'] => parseNewOrderSingle fields
  | ['F'] => parseCancelRequest fields
  | ['G'] => parseCancelReplaceRequest fields
  | other => throw (.unknownMsgType other)

/-- `parse`. -/
def parse (raw : Str) : Parsed ParsedFixMessage :=
  if trim raw = [] then throw .empty else parseFields (splitFields raw)

/-! ### Messages as they are written -/

/-- The value of tag 54. -/
def FixSide.text : FixSide → Str
  | .buy => ['1']
  | .sell => ['2']

/-- A price as it is written: sign, whole part, point and four digits. -/
def PriceText (price : Int64) (text : Str) : Prop :=
  ∃ d : Decimal, d.text = text ∧ d.ticks = price.toInt ∧ ∃ places, d.frac = some places ∧ places.length = 4

/-- The fields that say the order type: a limit order has its price, a market order none. -/
inductive TermFields : FixOrdType → Option Int64 → List (ℕ × Str) → Prop where
  /-- A limit order. -/
  | limit {price : Int64} {text : Str} (h : PriceText price text) :
    TermFields .limit (some price) [(40, ['2']), (44, text)]
  /-- A market order. -/
  | market : TermFields .market none [(40, ['1'])]

/-- The fields that a message requires, with its values. -/
inductive Requires : ParsedFixMessage → List (ℕ × Str) → Prop where
  /-- A new order. -/
  | newOrderSingle {clOrdId symbol : Str} {side : FixSide} {ordType : FixOrdType} {price : Option Int64}
      {qty : UInt64} {terms : List (ℕ × Str)} (h : TermFields ordType price terms) :
    Requires (.newOrderSingle clOrdId symbol side ordType price qty)
      ([(35, ['D']), (11, clOrdId), (55, symbol), (54, side.text), (38, digitsOf qty.toNat)] ++ terms)
  /-- A cancel. -/
  | cancelRequest {clOrdId origClOrdId symbol : Str} {side : FixSide} :
    Requires (.cancelRequest clOrdId origClOrdId symbol side)
      [(35, ['F']), (11, clOrdId), (41, origClOrdId), (55, symbol), (54, side.text)]
  /-- A replacement. -/
  | cancelReplaceRequest {clOrdId origClOrdId symbol : Str} {side : FixSide} {ordType : FixOrdType}
      {price : Option Int64} {qty : UInt64} {terms : List (ℕ × Str)} (h : TermFields ordType price terms) :
    Requires (.cancelReplaceRequest clOrdId origClOrdId symbol side ordType price qty)
      ([(35, ['G']), (11, clOrdId), (41, origClOrdId), (55, symbol), (54, side.text),
        (38, digitsOf qty.toNat)] ++ terms)

/-- A field as it is written. -/
def fieldText (field : ℕ × Str) : Str := digitsOf field.1 ++ '=' :: field.2

/-- A message as it is written, with or without a delimiter at its end. -/
def messageText (delim : Char) (closed : Bool) (fields : List (ℕ × Str)) : Str :=
  [delim].intercalate (fields.map fieldText) ++ if closed then [delim] else []

/-- The fields of a message in some order, mixed with others, and a delimiter for them. -/
structure Rendering (m : ParsedFixMessage) where
  /-- The fields that the message requires. -/
  required : List (ℕ × Str)
  /-- The other fields. -/
  extra : List (ℕ × Str)
  /-- All fields, as they stand in the text. -/
  fields : List (ℕ × Str)
  /-- The delimiter. -/
  delim : Char
  requires : Requires m required
  extra_tags : ∀ field ∈ extra, field.1 ∉ required.map Prod.fst
  order : fields.Perm (required ++ extra)
  delim_eq : delim = soh ∨ delim = '|'
  values : ∀ field ∈ fields, delim ∉ field.2 ∧ soh ∉ field.2

/-- The decimal number of a price, with the digits its ticks call for. -/
def priceDecimal (price : Int64) : Decimal where
  sign := if price.toInt < 0 then .minus else .none
  whole := digitsOf (price.toInt.natAbs / 10000)
  frac := some (fixedDigits 4 (price.toInt.natAbs % 10000))
  whole_ne := digitsOf_ne_nil
  whole_digits := allDigits_digitsOf
  frac_digits := fun _ h => Option.some.inj h ▸ allDigits_fixedDigits

/-- **Every price can be written.** -/
theorem priceText_priceDecimal (price : Int64) : PriceText price (priceDecimal price).text := by
  have hlength : (fixedDigits 4 (price.toInt.natAbs % 10000)).length = 4 :=
    length_fixedDigits (by decide) (Nat.mod_lt _ (by decide))
  refine ⟨priceDecimal price, rfl, ?_, _, rfl, hlength⟩
  have hplaces : toPlaces 4 (priceDecimal price).fraction = fixedDigits 4 (price.toInt.natAbs % 10000) := by
    show ((fixedDigits 4 _) ++ List.replicate (4 - (fixedDigits 4 _).length) '0').take 4 = _
    rw [hlength, Nat.sub_self, List.replicate_zero, List.append_nil, List.take_of_length_le hlength.le]
  have hnumber : number ((priceDecimal price).whole ++ toPlaces 4 (priceDecimal price).fraction) =
      price.toInt.natAbs := by
    rw [hplaces, number_append, hlength, number_fixedDigits]
    show number (digitsOf _) * 10 ^ 4 + _ = _
    rw [number_digitsOf]
    omega
  rw [Decimal.ticks_eq, hnumber]
  show (if price.toInt < 0 then Sign.minus else Sign.none).factor * _ = _
  split_ifs with hneg <;> simp only [Sign.factor] <;> omega

/-! ### From the text to its fields -/

section Text

variable {fields : List (ℕ × Str)} {delim : Char} {closed : Bool}

/-- No digit is a sign of the format. -/
theorem notMem_digitsOf {c : Char} (hc : c.isDigit = false) (n : ℕ) : c ∉ digitsOf n := fun h => by
  have hdigit := allDigits_digitsOf c h
  rw [hc] at hdigit
  exact nomatch hdigit

/-- What `split_fields` makes of a field. -/
theorem splitField_fieldText (field : ℕ × Str) :
    splitField (fieldText field) =
      if field.1 < 2 ^ 32 then some (UInt32.ofNat field.1, field.2) else none := by
  have heq : '=' ∉ digitsOf field.1 := notMem_digitsOf rfl field.1
  have htrim : trim (digitsOf field.1) = digitsOf field.1 :=
    trim_of_none fun c hc => isWhitespace_digit (allDigits_digitsOf c hc)
  rw [splitField, fieldText, after_append heq, before_append heq, htrim, parseU32_digitsOf, Option.bind_some]
  split_ifs <;> rfl

/-- The delimiters are no digits and no equality signs. -/
theorem notMem_fieldText {c : Char} (hc : c = soh ∨ c = '|') {field : ℕ × Str} (h : c ∉ field.2) :
    c ∉ fieldText field := by
  have hdigit : c.isDigit = false := by rcases hc with rfl | rfl <;> rfl
  have heq : c ≠ '=' := by rcases hc with rfl | rfl <;> decide
  simp only [fieldText, List.mem_append, List.mem_cons, not_or]
  exact ⟨notMem_digitsOf hdigit field.1, heq, h⟩

/-- The text begins with its first field. -/
theorem fieldText_subset (field : ℕ × Str) : fieldText field ⊆ messageText delim closed (field :: fields) := by
  have hsub : fieldText field ⊆ [delim].intercalate ((field :: fields).map fieldText) := by
    cases fields with
    | nil => rw [List.map_singleton, List.intercalate_singleton]; exact List.Subset.refl _
    | cons next rest =>
      rw [List.map_cons, List.map_cons, List.intercalate_cons_cons, List.append_assoc]
      exact List.subset_append_left _ _
  exact List.subset_append_of_subset_left _ hsub

/-- Two fields have a delimiter between them. -/
theorem delim_mem (h : 2 ≤ fields.length) : delim ∈ messageText delim closed fields := by
  match fields, h with
  | first :: second :: rest, _ =>
    rw [messageText, List.map_cons, List.map_cons, List.intercalate_cons_cons]
    simp

/-- The text has the delimiter and the characters of the fields only. -/
theorem mem_messageText {c : Char} (h : c ∈ messageText delim closed fields) :
    c = delim ∨ ∃ field ∈ fields, c ∈ fieldText field := by
  rcases List.mem_append.mp h with h | h
  · induction fields with
    | nil => exact nomatch h
    | cons first rest ih =>
      cases rest with
      | nil =>
        rw [List.map_singleton, List.intercalate_singleton] at h
        exact .inr ⟨first, List.mem_cons_self, h⟩
      | cons second rest =>
        rw [List.map_cons, List.map_cons, List.intercalate_cons_cons, List.append_assoc, List.mem_append] at h
        rcases h with h | h
        · exact .inr ⟨first, List.mem_cons_self, h⟩
        rcases List.mem_append.mp h with h | h
        · exact .inl (List.mem_singleton.mp h)
        · have htail : c ∈ messageText delim closed (second :: rest) := List.mem_append_left _ h
          exact (ih htail h).imp_right fun ⟨field, hfield, hc⟩ => ⟨field, List.mem_cons_of_mem _ hfield, hc⟩
  · split at h
    · exact .inl (List.mem_singleton.mp h)
    · exact nomatch h

/-- The delimiter that `split_fields` picks is the one of the text. -/
theorem delim_picked (hdelim : delim = soh ∨ delim = '|') (hlength : 2 ≤ fields.length)
    (hvalues : ∀ field ∈ fields, delim ∉ field.2 ∧ soh ∉ field.2) :
    (if soh ∈ messageText delim closed fields then soh else '|') = delim := by
  rcases hdelim with rfl | rfl
  · rw [if_pos (delim_mem hlength)]
  · refine if_neg fun hsoh => ?_
    rcases mem_messageText hsoh with h | ⟨field, hfield, h⟩
    · exact absurd h (by decide)
    · exact notMem_fieldText (.inl rfl) (hvalues field hfield).2 h

/-- Splitting gives the fields back, and an empty one after a delimiter at the end. -/
theorem splitOn_messageText (hdelim : delim = soh ∨ delim = '|') (hne : fields ≠ [])
    (hvalues : ∀ field ∈ fields, delim ∉ field.2 ∧ soh ∉ field.2) :
    (messageText delim closed fields).splitOn delim = fields.map fieldText ++ if closed then [[]] else [] := by
  have hparts : ([delim].intercalate (fields.map fieldText)).splitOn delim = fields.map fieldText := by
    refine List.splitOn_intercalate delim ?_ (by simpa using hne)
    rintro text htext
    obtain ⟨field, hfield, rfl⟩ := List.mem_map.mp htext
    exact notMem_fieldText hdelim (hvalues field hfield).1
  cases closed with
  | false => simp only [messageText, Bool.false_eq_true, if_false, List.append_nil, hparts]
  | true =>
    simp only [messageText, if_true]
    rw [List.splitOn_append_cons_self, hparts, List.splitOn_nil]

/-- A field as the map takes it. -/
def tagged (field : ℕ × Str) : Option (UInt32 × Str) :=
  if field.1 < 2 ^ 32 then some (UInt32.ofNat field.1, field.2) else none

/-- **What `split_fields` sees of a text.** The map is that of the fields, whatever their
delimiter. -/
theorem splitFields_messageText (hdelim : delim = soh ∨ delim = '|') (hlength : 2 ≤ fields.length)
    (hvalues : ∀ field ∈ fields, delim ∉ field.2 ∧ soh ∉ field.2) :
    splitFields (messageText delim closed fields) = collect (fields.filterMap tagged) := by
  have hne : fields ≠ [] := List.ne_nil_of_length_pos (by omega)
  have hfields : (fields.map fieldText).filterMap splitField = fields.filterMap tagged := by
    rw [List.filterMap_map]
    exact List.filterMap_congr fun field _ => splitField_fieldText field
  have hempty : (if closed then [[]] else []).filterMap splitField = [] := by
    cases closed <;> rfl
  unfold splitFields
  simp only [delim_picked hdelim hlength hvalues]
  rw [splitOn_messageText hdelim hne hvalues, List.filterMap_append, hfields, hempty, List.append_nil]

theorem mem_filterMap_tagged {tag : UInt32} {value : Str} :
    (tag, value) ∈ fields.filterMap tagged ↔ (tag.toNat, value) ∈ fields := by
  rw [List.mem_filterMap]
  constructor
  · rintro ⟨field, hfield, htag⟩
    unfold tagged at htag
    split_ifs at htag with hlt
    obtain ⟨rfl, rfl⟩ := Prod.mk.inj (Option.some.inj htag)
    rwa [UInt32.toNat_ofNat_of_lt' hlt]
  · intro h
    refine ⟨_, h, ?_⟩
    rw [tagged, if_pos tag.toNat_lt, UInt32.ofNat_toNat]

end Text

/-! ### From the fields to the map -/

section Map

variable {pairs : List (UInt32 × Str)} {tag : UInt32} {value : Str}

theorem collect_concat (pair : UInt32 × Str) :
    collect (pairs ++ [pair]) = Function.update (collect pairs) pair.1 (some pair.2) := by
  simp only [collect, List.foldl_append, List.foldl_cons, List.foldl_nil]

/-- A tag without a field has no value. -/
theorem collect_eq_none (h : ∀ value, (tag, value) ∉ pairs) : collect pairs tag = none := by
  induction pairs using List.reverseRecOn with
  | nil => rfl
  | append_singleton pairs pair ih =>
    have hne : tag ≠ pair.1 := by
      rintro rfl
      exact h pair.2 (by simp)
    rw [collect_concat, Function.update_of_ne hne]
    exact ih fun value hmem => h value (List.mem_append_left _ hmem)

/-- A tag whose fields all have one value has that value. -/
theorem collect_eq_some (hmem : (tag, value) ∈ pairs) (h : ∀ other, (tag, other) ∈ pairs → other = value) :
    collect pairs tag = some value := by
  induction pairs using List.reverseRecOn with
  | nil => exact nomatch hmem
  | append_singleton pairs pair ih =>
    rw [collect_concat]
    by_cases htag : tag = pair.1
    · subst htag
      rw [Function.update_self, h pair.2 (by simp)]
    · rw [Function.update_of_ne htag]
      refine ih ?_ fun other hother => h other (List.mem_append_left _ hother)
      rcases List.mem_append.mp hmem with hmem | hmem
      · exact hmem
      · exact absurd (congrArg Prod.fst (List.mem_singleton.mp hmem)) htag

end Map

/-! ### From the map to the message -/

section Reading

variable {α β : Type} {missing : Option UInt32} {tags more : List UInt32} {x : Parsed α} {a : α}

/-- A computation that reads these tags: it gives its value if none of them is missing, and
the error of the missing one if one is. -/
structure Reads (missing : Option UInt32) (tags : List UInt32) (x : Parsed α) (a : α) : Prop where
  throws : ∀ tag ∈ tags, missing = some tag → x = throw (.missingTag tag)
  returns : (∀ tag ∈ tags, missing ≠ some tag) → x = pure a

namespace Reads

theorem of_eq (h : x = pure a) : Reads missing [] x a := ⟨fun _ hmem => absurd hmem List.not_mem_nil, fun _ => h⟩

/-- After an error nothing more is read. -/
theorem bind {f : α → Parsed β} {b : β} (h : Reads missing tags x a) (hf : Reads missing more (f a) b) :
    Reads missing (tags ++ more) (x >>= f) b := by
  constructor
  · intro tag htag hmissing
    by_cases hfirst : tag ∈ tags
    · rw [h.throws tag hfirst hmissing]
      rfl
    · have hnone : ∀ other ∈ tags, missing ≠ some other := by
        intro other hother heq
        rw [hmissing] at heq
        exact hfirst (Option.some.inj heq ▸ hother)
      rw [h.returns hnone, pure_bind]
      exact hf.throws tag ((List.mem_append.mp htag).resolve_left hfirst) hmissing
  · intro hnone
    rw [h.returns fun tag htag => hnone tag (List.mem_append_left _ htag), pure_bind]
    exact hf.returns fun tag htag => hnone tag (List.mem_append_right _ htag)

/-- The order in which tags are read does not show. -/
theorem congr (h : Reads missing tags x a) (hsame : ∀ tag, tag ∈ more ↔ tag ∈ tags) : Reads missing more x a :=
  ⟨fun tag htag => h.throws tag ((hsame tag).mp htag),
    fun hnone => h.returns fun tag htag => hnone tag ((hsame tag).mpr htag)⟩

end Reads

end Reading

section Message

variable {fields : Fields} {m : ParsedFixMessage} {required : List (ℕ × Str)} {missing : Option UInt32}

/-- The map has the values of these fields, but for the tag that is missing. -/
def Carries (fields : Fields) (missing : Option UInt32) (required : List (ℕ × Str)) : Prop :=
  ∀ tag value, (tag.toNat, value) ∈ required →
    fields tag = if missing = some tag then none else some value

theorem Carries.mono {some' : List (ℕ × Str)} (h : Carries fields missing required) (hsub : some' ⊆ required) :
    Carries fields missing some' := fun tag value hmem => h tag value (hsub hmem)

theorem Carries.get (h : Carries fields missing required) (tag : UInt32) (value : Str)
    (hmem : (tag.toNat, value) ∈ required) : Reads missing [tag] (get fields tag) value := by
  have hfield := h tag value hmem
  constructor
  · intro other hother hmissing
    obtain rfl := List.mem_singleton.mp hother
    rw [if_pos hmissing] at hfield
    rw [Sidecar.get, hfield]
  · intro hnone
    rw [if_neg (hnone tag List.mem_cons_self)] at hfield
    rw [Sidecar.get, hfield]

theorem parseSide_text (side : FixSide) : parseSide side.text = pure side := by cases side <;> rfl

theorem parsePrice_text {price : Int64} {text : Str} (h : PriceText price text) :
    (ExceptT.mk (parsePrice text) : Parsed Int64) = pure price := by
  obtain ⟨d, rfl, hticks, -⟩ := h
  rw [parsePrice_of_fits hticks]
  rfl

theorem Carries.qty {qty : UInt64} (h : Carries fields missing required)
    (hmem : (38, digitsOf qty.toNat) ∈ required) : Reads missing [38] (parseQty fields) qty := by
  refine (h.get 38 (digitsOf qty.toNat) hmem).bind (.of_eq ?_)
  rw [parseU64_digitsOf]

/-- What is read of the terms of an order: the order type, the quantity and the price. -/
theorem Carries.terms {α : Type} {ordType : FixOrdType} {price : Option Int64} {qty : UInt64}
    {terms : List (ℕ × Str)} (h : Carries fields missing ((38, digitsOf qty.toNat) :: terms))
    (hterms : TermFields ordType price terms) (f : FixOrdType → UInt64 → Option Int64 → Parsed α) {a : α}
    (hf : Reads missing [] (f ordType qty price) a) :
    Reads missing (38 :: terms.map fun field => UInt32.ofNat field.1)
      (do
        let ordType ← parseOrdType (← Sidecar.get fields 40)
        let qty ← parseQty fields
        let price ← parsePriceOf fields ordType
        f ordType qty price) a := by
  have hqty : Reads missing [38] (parseQty fields) qty := h.qty List.mem_cons_self
  cases hterms with
  | @limit price text htext =>
    have hprice : Reads missing [44] (parsePriceOf fields .limit) (some price) := by
      have hvalue : Reads missing [] (ExceptT.mk (parsePrice text)) price := .of_eq (parsePrice_text htext)
      exact (h.get 44 text (by simp)).bind (hvalue.bind (.of_eq rfl))
    refine .congr ((h.get 40 ['2'] (by simp)).bind
      (.bind (.of_eq rfl) (hqty.bind (hprice.bind hf)))) fun tag => ?_
    simp
    tauto
  | market =>
    refine .congr ((h.get 40 ['1'] (by simp)).bind
      (.bind (.of_eq rfl) (hqty.bind (.bind (.of_eq rfl) hf)))) fun tag => ?_
    simp
    tauto

theorem Carries.side {α : Type} {more : List UInt32} (h : Carries fields missing required) (side : FixSide)
    (hmem : (54, side.text) ∈ required) (f : FixSide → Parsed α) {a : α} (hf : Reads missing more (f side) a) :
    Reads missing (54 :: more) (Sidecar.get fields 54 >>= fun raw => parseSide raw >>= f) a := by
  have hside : Reads missing [] (parseSide side.text) side := .of_eq (parseSide_text side)
  exact (h.get 54 side.text hmem).bind (hside.bind hf)

/-- **What `parse` reads of the fields**: the required ones and no others. -/
theorem parseFields_reads (h : Requires m required) (hc : Carries fields missing required) :
    Reads missing (required.map fun field => UInt32.ofNat field.1) (parseFields fields) m := by
  cases h with
  | @newOrderSingle clOrdId symbol side ordType price qty terms hterms =>
    have htail := hc.mono (List.subset_append_right
      [(35, ['D']), (11, clOrdId), (55, symbol), (54, side.text)] ((38, digitsOf qty.toNat) :: terms))
    have hrest := htail.terms hterms
      (fun ordType qty price => pure (ParsedFixMessage.newOrderSingle clOrdId symbol side ordType price qty))
      (.of_eq rfl)
    have hbranch : Reads missing (11 :: 55 :: 54 :: 38 :: terms.map fun field => UInt32.ofNat field.1)
        (parseNewOrderSingle fields) (.newOrderSingle clOrdId symbol side ordType price qty) :=
      (hc.get 11 clOrdId (by simp)).bind
        ((hc.get 55 symbol (by simp)).bind (hc.side side (by simp) _ hrest))
    exact .congr ((hc.get 35 ['D'] (by simp)).bind hbranch) fun tag => by simp
  | @cancelRequest clOrdId origClOrdId symbol side =>
    have hbranch : Reads missing [11, 41, 55, 54] (parseCancelRequest fields)
        (.cancelRequest clOrdId origClOrdId symbol side) :=
      (hc.get 11 clOrdId (by simp)).bind
        ((hc.get 41 origClOrdId (by simp)).bind
          ((hc.get 55 symbol (by simp)).bind (hc.side side (by simp) _ (.of_eq rfl))))
    exact .congr ((hc.get 35 ['F'] (by simp)).bind hbranch) fun tag => by simp
  | @cancelReplaceRequest clOrdId origClOrdId symbol side ordType price qty terms hterms =>
    have htail := hc.mono (List.subset_append_right
      [(35, ['G']), (11, clOrdId), (41, origClOrdId), (55, symbol), (54, side.text)]
      ((38, digitsOf qty.toNat) :: terms))
    have hrest := htail.terms hterms
      (fun ordType qty price =>
        pure (ParsedFixMessage.cancelReplaceRequest clOrdId origClOrdId symbol side ordType price qty))
      (.of_eq rfl)
    have hbranch : Reads missing (11 :: 41 :: 55 :: 54 :: 38 :: terms.map fun field => UInt32.ofNat field.1)
        (parseCancelReplaceRequest fields)
        (.cancelReplaceRequest clOrdId origClOrdId symbol side ordType price qty) :=
      (hc.get 11 clOrdId (by simp)).bind
        ((hc.get 41 origClOrdId (by simp)).bind
          ((hc.get 55 symbol (by simp)).bind (hc.side side (by simp) _ hrest)))
    exact .congr ((hc.get 35 ['G'] (by simp)).bind hbranch) fun tag => by simp

end Message

/-! ### Messages in any order -/

/-- The required fields have small tags, each once. -/
theorem Requires.tags {m : ParsedFixMessage} {required : List (ℕ × Str)} (h : Requires m required) :
    5 ≤ required.length ∧ (required.map Prod.fst).Nodup ∧ ∀ field ∈ required, field.1 < 2 ^ 32 := by
  cases h with
  | newOrderSingle hterms => cases hterms <;> simp
  | cancelRequest => simp
  | cancelReplaceRequest hterms => cases hterms <;> simp

/-- Where a list of fields has the required ones, each with one value, the map carries them. -/
theorem carries_collect {required fields : List (ℕ × Str)} {missing : Option UInt32}
    (hmissing : ∀ tag ∈ missing, ∀ value, (tag.toNat, value) ∉ fields)
    (hothers : ∀ tag value, (tag.toNat, value) ∈ required → missing ≠ some tag →
      (tag.toNat, value) ∈ fields ∧ ∀ other, (tag.toNat, other) ∈ fields → other = value) :
    Carries (collect (fields.filterMap tagged)) missing required := by
  intro tag value hmem
  split_ifs with htag
  · exact collect_eq_none fun other hother => hmissing tag htag other (mem_filterMap_tagged.mp hother)
  · obtain ⟨hfield, hunique⟩ := hothers tag value hmem htag
    exact collect_eq_some (mem_filterMap_tagged.mpr hfield) fun other hother =>
      hunique other (mem_filterMap_tagged.mp hother)

/-- A text with fields is not empty. -/
theorem parse_messageText {fields : List (ℕ × Str)} {delim : Char} {closed : Bool} (hlength : 2 ≤ fields.length)
    (hdelim : delim = soh ∨ delim = '|') (hvalues : ∀ field ∈ fields, delim ∉ field.2 ∧ soh ∉ field.2) :
    parse (messageText delim closed fields) = parseFields (collect (fields.filterMap tagged)) := by
  have hne : trim (messageText delim closed fields) ≠ [] := by
    match fields, hlength with
    | first :: rest, _ =>
      refine trim_ne_nil (c := '=') (fieldText_subset first ?_) rfl
      simp [fieldText]
  rw [parse, if_neg hne, splitFields_messageText hdelim hlength hvalues]

namespace Rendering

variable {m : ParsedFixMessage} (r : Rendering m)

/-- Another field has another tag. -/
theorem unique {n : ℕ} {value other : Str} (hvalue : (n, value) ∈ r.required) (hother : (n, other) ∈ r.fields) :
    other = value := by
  rcases List.mem_append.mp (r.order.subset hother) with h | h
  · exact congrArg Prod.snd (List.inj_on_of_nodup_map r.requires.tags.2.1 h hvalue rfl)
  · exact absurd (List.mem_map.mpr ⟨_, hvalue, rfl⟩) (r.extra_tags (n, other) h)

theorem mem_fields {field : ℕ × Str} (h : field ∈ r.required) : field ∈ r.fields :=
  r.order.symm.subset (List.mem_append_left _ h)

/-- A required tag stands in the text once. -/
theorem tag_notMem {l₁ l₂ : List (ℕ × Str)} {field : ℕ × Str} (h : r.fields = l₁ ++ field :: l₂)
    (hfield : field ∈ r.required) (value : Str) : (field.1, value) ∉ l₁ ++ l₂ := by
  intro hmem
  have hperm := r.order.map Prod.fst
  have hcount := hperm.count_eq field.1
  have hextra : (r.extra.map Prod.fst).count field.1 = 0 := by
    rw [List.count_eq_zero]
    intro htag
    obtain ⟨other, hother, htag⟩ := List.mem_map.mp htag
    exact r.extra_tags other hother (htag ▸ List.mem_map_of_mem hfield)
  have hrequired : (r.required.map Prod.fst).count field.1 = 1 :=
    List.count_eq_one_of_mem r.requires.tags.2.1 (List.mem_map_of_mem hfield)
  have hrest : 0 < ((l₁ ++ l₂).map Prod.fst).count field.1 :=
    List.count_pos_iff.mpr (List.mem_map.mpr ⟨_, hmem, rfl⟩)
  rw [h] at hcount
  simp only [List.map_append, List.map_cons, List.count_append, List.count_cons_self, hextra, hrequired] at hcount hrest
  omega

/-- **FIX parsing recovers a message from its fields in any order.** Whatever order the
fields of an order message stand in, whatever other fields stand between them, and with
either delimiter, `parse` returns the message; without one of the required fields it returns
that this field's tag is missing. -/
theorem parse_text (r : Rendering m) (closed : Bool) :
    parse (messageText r.delim closed r.fields) = pure m ∧
      ∀ l₁ field l₂, r.fields = l₁ ++ field :: l₂ → field ∈ r.required →
        parse (messageText r.delim closed (l₁ ++ l₂)) = throw (.missingTag (UInt32.ofNat field.1)) := by
  obtain ⟨hlength, -, hsmall⟩ := r.requires.tags
  have hfields : 5 ≤ r.fields.length := by
    rw [r.order.length_eq, List.length_append]
    omega
  constructor
  · rw [parse_messageText (by omega) r.delim_eq r.values]
    have hcarries : Carries (collect (r.fields.filterMap tagged)) none r.required :=
      carries_collect (fun _ h => nomatch h) fun tag value hmem _ => ⟨r.mem_fields hmem, fun _ => r.unique hmem⟩
    exact (parseFields_reads r.requires hcarries).returns fun _ _ h => nomatch h
  · intro l₁ field l₂ h hfield
    have hsub : l₁ ++ l₂ ⊆ r.fields := by
      rw [h]
      intro other hother
      simp only [List.mem_append, List.mem_cons] at hother ⊢
      tauto
    have hlen : 4 ≤ (l₁ ++ l₂).length := by
      rw [h, List.length_append, List.length_cons] at hfields
      rw [List.length_append]
      omega
    have htag : (UInt32.ofNat field.1).toNat = field.1 := UInt32.toNat_ofNat_of_lt' (hsmall field hfield)
    have hcarries : Carries (collect ((l₁ ++ l₂).filterMap tagged)) (some (UInt32.ofNat field.1)) r.required := by
      refine carries_collect ?_ ?_
      · rintro tag htagged value
        obtain rfl := Option.some.inj htagged
        rw [htag]
        exact r.tag_notMem h hfield value
      · intro tag value hmem hne
        refine ⟨?_, fun other hother => r.unique hmem (hsub hother)⟩
        have hin := r.mem_fields hmem
        rw [h] at hin
        rcases List.mem_append.mp hin with hin | hin
        · exact List.mem_append_left _ hin
        rcases List.mem_cons.mp hin with rfl | hin
        · exact absurd (by rw [UInt32.ofNat_toNat]) hne
        · exact List.mem_append_right _ hin
    rw [parse_messageText (by omega) r.delim_eq fun other hother => r.values other (hsub hother)]
    refine (parseFields_reads r.requires hcarries).throws _ ?_ rfl
    exact List.mem_map_of_mem (f := fun field : ℕ × Str => UInt32.ofNat field.1) hfield

end Rendering

/-- A cancel with its fields turned around and a further field with an equality sign. -/
def turnedCancel : Rendering (.cancelRequest ['B'] ['A'] ['X'] .sell) where
  required := [(35, ['F']), (11, ['B']), (41, ['A']), (55, ['X']), (54, ['2'])]
  extra := [(58, ['a', '=', 'b'])]
  fields := [(54, ['2']), (55, ['X']), (58, ['a', '=', 'b']), (41, ['A']), (11, ['B']), (35, ['F'])]
  delim := '|'
  requires := .cancelRequest
  extra_tags := by decide
  order := by decide
  delim_eq := .inr rfl
  values := by decide

/-- A limit order at -1.5 whose price comes first, on the wire. -/
def turnedLimit : Rendering (.newOrderSingle ['A'] ['X'] .buy .limit (some (-15000)) 7) where
  required := [(35, ['D']), (11, ['A']), (55, ['X']), (54, ['1']), (38, ['7']), (40, ['2']),
    (44, ['-', '1', '.', '5', '0', '0', '0'])]
  extra := []
  fields := [(44, ['-', '1', '.', '5', '0', '0', '0']), (40, ['2']), (38, ['7']), (35, ['D']), (11, ['A']),
    (54, ['1']), (55, ['X'])]
  delim := soh
  requires := .newOrderSingle (.limit (priceText_priceDecimal (-15000)))
  extra_tags := by decide
  order := by decide
  delim_eq := .inl rfl
  values := by decide

/-- The turned messages are read; without its symbol the cancel is refused, and without its price the limit order. -/
theorem parse_text_turned :
    (parse (messageText '|' true turnedCancel.fields) = pure (.cancelRequest ['B'] ['A'] ['X'] .sell) ∧
      parse (messageText '|' true ([(54, ['2'])] ++
        [(58, ['a', '=', 'b']), (41, ['A']), (11, ['B']), (35, ['F'])])) = throw (.missingTag 55)) ∧
    (parse (messageText soh false turnedLimit.fields) =
        pure (.newOrderSingle ['A'] ['X'] .buy .limit (some (-15000)) 7) ∧
      parse (messageText soh false ([] ++ [(40, ['2']), (38, ['7']), (35, ['D']), (11, ['A']), (54, ['1']),
        (55, ['X'])])) = throw (.missingTag 44)) :=
  ⟨⟨(turnedCancel.parse_text true).1, (turnedCancel.parse_text true).2 [(54, ['2'])] (55, ['X']) _ rfl (by decide)⟩,
    (turnedLimit.parse_text false).1,
    (turnedLimit.parse_text false).2 [] (44, ['-', '1', '.', '5', '0', '0', '0']) _ rfl (by decide)⟩

end MatchingEngine.Sidecar
