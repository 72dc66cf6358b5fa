import CrossBook.Chain.OrderJson
import CrossBook.Proofs.Decimal.Text
import CrossBook.Proofs.Json.Writing

/-!
# Orders written and read

Many texts are the same order: an object in any order of its fields or a list, its decimals as
numbers or as strings. An order is written in one way, and what is written is read as the order it
came from. Only a zero with a sign, which an exponent can leave behind, is read without its sign; it
is the same by value, and written without the sign from then on.

## Main definitions

* `Chain.Order.IsWord` — the whole numbers of a tick or an order
* `Chain.Order.withPlainZeros` — the same order, but no zero is negative
* `Chain.Order.SameFields` — orders that are the same field by field

## Main results

* `Chain.Order.ofText?_toText` — what a written order is read as
* `Chain.Order.toText_withPlainZeros_iff` — when it is written the same again
* `Chain.Order.encoding_of_decoded` — decoded orders, encoded and decoded again
-/

namespace CrossBook.Chain.Order

/-! ### What a decoded order holds -/

/-- A signed word of sixty-four bits. -/
def IsWord (i : Int) : Prop := -(twoTo 63 : Int) ≤ i ∧ i < twoTo 63

instance (i : Int) : Decidable (IsWord i) := inferInstanceAs (Decidable (_ ∧ _))

variable {raw : String} {o : Order}

theorem isWord_of_signedOf? {v : Json} {i : Int} (h : signedOf? v = some i) : IsWord i := by
  obtain ⟨j, read, small⟩ := Option.bind_eq_some_iff.mp h
  split_ifs at small with high
  obtain rfl := Option.some.inj small
  refine ⟨?_, high⟩
  cases v with
  | number n =>
    simp only [Json.integer?, Json.Numeral.integer?] at read
    split at read
    · split_ifs at read <;> obtain rfl := Option.some.inj read <;> omega
    · cases read
  | _ => cases read

theorem isWord_of_ofValues?
    {tick id tag owner quantity etas claimBounty placedQuantity placedAt : Json}
    (h : ofValues? tick id tag owner quantity etas claimBounty placedQuantity placedAt = some o) :
    IsWord o.tick ∧ IsWord o.id := by
  simp only [ofValues?, Option.bind_eq_bind, Option.bind_eq_some_iff] at h
  obtain ⟨t, tickRead, i, idRead, _, -, _, -, _, -, _, -, _, -, _, -, _, -, eq⟩ := h
  obtain rfl := Option.some.inj eq
  exact ⟨isWord_of_signedOf? tickRead, isWord_of_signedOf? idRead⟩

/-- The numbers of a decoded order are words, whatever the shape it came in. -/
theorem isWord_of_ofText? (h : ofText? raw = some o) : IsWord o.tick ∧ IsWord o.id := by
  obtain ⟨v, -, read⟩ := Option.bind_eq_some_iff.mp h
  -- an object has its fields by name, a list by place, and both go through the same values
  unfold ofJson? at read
  split at read
  next fields =>
    simp only [ofFields?, Option.bind_eq_bind] at read
    split at read
    · simp only [Option.bind_eq_some_iff] at read
      obtain ⟨_, -, _, -, _, -, _, -, _, -, _, -, _, -, _, -, _, -, values⟩ := read
      exact isWord_of_ofValues? values
    · cases read
  next rest =>
    split at read
    all_goals first | exact isWord_of_ofValues? read | cases read
  next => cases read

/-! ### What a written order is read as -/

/-- The same order, but no zero is negative. -/
def withPlainZeros (o : Order) : Order :=
  { o with quantity := o.quantity.withPlainZero
           placedQuantity := o.placedQuantity.map Decimal.withPlainZero }

theorem decimal?_ofText (d : Decimal) : (Json.ofText d.text).decimal? = some d.withPlainZero := by
  rw [Json.ofText, Json.decimal?, Json.charsOfUnits?_unitsOfText, Option.bind_some]
  exact d.ofText?_text

theorem optionalText?_textOrNull (s : Option String) : optionalText? (textOrNull s) = some s := by
  cases s with
  | none => rfl
  | some s => exact congrArg (Option.map some) (Json.text?_ofText s)

theorem optionalDecimal?_decimalOrNull (d : Option Decimal) :
    optionalDecimal? (decimalOrNull d) = some (d.map Decimal.withPlainZero) := by
  cases d with
  | none => rfl
  | some d => exact congrArg (Option.map some) (decimal?_ofText d)

theorem signedOf?_ofInt {i : Int} (h : IsWord i) : signedOf? (Json.ofInt i) = some i := by
  rw [signedOf?, Json.integer?_ofInt h.1 h.2, Option.bind_some, if_pos h.2]

/-- Every field of a written order is there once and is read back. -/
theorem ofJson?_toJson (tick : IsWord o.tick) (id : IsWord o.id) :
    ofJson? o.toJson = some o.withPlainZeros := by
  have values : ofValues? (Json.ofInt o.tick) (Json.ofInt o.id) (Json.ofText o.tag)
      (Json.ofText o.owner) (Json.ofText o.quantity.text) (textOrNull o.etas)
      (textOrNull o.claimBounty) (decimalOrNull o.placedQuantity) (textOrNull o.placedAt) =
        some o.withPlainZeros := by
    simp only [ofValues?, signedOf?_ofInt tick, signedOf?_ofInt id, Json.text?_ofText,
      decimal?_ofText, optionalText?_textOrNull, optionalDecimal?_decimalOrNull]
    rfl
  change ofFields? (Json.builtFields _) = _
  simp only [ofFields?, Json.fieldsNamed_builtFields, Json.names_builtFields, if_true]
  exact values

theorem spelling_textOrNull (s : Option String) :
    Json.Spelling (textOrNull s) (textOrNull s).renderChars := by
  cases s with
  | none => exact .null
  | some s => exact Json.spelling_ofText s

theorem spelling_decimalOrNull (d : Option Decimal) :
    Json.Spelling (decimalOrNull d) (decimalOrNull d).renderChars := by
  cases d with
  | none => exact .null
  | some d => exact Json.spelling_ofText d.text

theorem read?_toText (o : Order) : Json.read? o.toText = some o.toJson := by
  refine Json.read?_render (Json.spelling_object (List.cons_ne_nil _ _) ?_)
  simp only [List.forall_mem_cons]
  exact ⟨Json.spelling_ofInt _, Json.spelling_ofInt _, Json.spelling_ofText _,
    Json.spelling_ofText _, Json.spelling_ofText _, spelling_textOrNull _, spelling_textOrNull _,
    spelling_decimalOrNull _, spelling_textOrNull _, nofun⟩

theorem ofText?_toText (tick : IsWord o.tick) (id : IsWord o.id) :
    ofText? o.toText = some o.withPlainZeros := by
  rw [ofText?, read?_toText, Option.bind_some, ofJson?_toJson tick id]

/-! ### Written again -/

/-- Some decimal of the order is a zero with a sign. -/
def HasNegativeZero (o : Order) : Prop :=
  o.quantity.IsNegativeZero ∨ ∃ d ∈ o.placedQuantity, d.IsNegativeZero

theorem withPlainZeros_of_not (h : ¬ o.HasNegativeZero) : o.withPlainZeros = o := by
  obtain ⟨quantity, placed⟩ := not_or.mp h
  have placedSame : o.placedQuantity.map Decimal.withPlainZero = o.placedQuantity := by
    cases held : o.placedQuantity with
    | none => rfl
    | some d =>
      exact congrArg some (Decimal.withPlainZero_of_not fun zero => placed ⟨d, held, zero⟩)
  rw [withPlainZeros, Decimal.withPlainZero_of_not quantity, placedSame]

/-- A decimal that is written the same without the sign of a zero has none. -/
theorem not_isNegativeZero_of_ofText {d : Decimal}
    (same : Json.ofText d.withPlainZero.text = Json.ofText d.text) : ¬ d.IsNegativeZero := by
  have texts := congrArg Json.text? same
  rw [Json.text?_ofText, Json.text?_ofText] at texts
  exact Decimal.text_withPlainZero_iff.mp (Option.some.inj texts)

/-- The text of an order shows the sign of a zero, and reading loses nothing else of it. -/
theorem toText_withPlainZeros_iff : o.withPlainZeros.toText = o.toText ↔ ¬ o.HasNegativeZero := by
  refine ⟨fun same => ?_, fun plain => congrArg toText (withPlainZeros_of_not plain)⟩
  -- equal texts are read as equal values, whose fields hold the texts of the decimals
  have values := read?_toText o.withPlainZeros
  rw [same, read?_toText, Option.some.injEq] at values
  simp only [toJson, Json.ofFields, List.map_cons, List.map_nil, Json.object.injEq, List.cons.injEq,
    Prod.mk.injEq, true_and, and_true] at values
  obtain ⟨-, -, -, -, quantity, -, -, placed, -⟩ := values
  rintro (zero | ⟨d, held, zero⟩)
  · exact not_isNegativeZero_of_ofText quantity.symm zero
  · rw [withPlainZeros, Option.mem_def.mp held] at placed
    exact not_isNegativeZero_of_ofText placed.symm zero

/-- The orders are the same field by field: decimals by value and with the same scale. -/
structure SameFields (a b : Order) : Prop where
  tick : a.tick = b.tick
  id : a.id = b.id
  tag : a.tag = b.tag
  owner : a.owner = b.owner
  quantity : a.quantity.SameValue b.quantity ∧ a.quantity.scale = b.quantity.scale
  etas : a.etas = b.etas
  claimBounty : a.claimBounty = b.claimBounty
  placedQuantity : Option.Rel (fun d e => d.SameValue e ∧ d.scale = e.scale) a.placedQuantity
    b.placedQuantity
  placedAt : a.placedAt = b.placedAt

theorem sameFields_withPlainZeros (o : Order) : o.SameFields o.withPlainZeros where
  tick := rfl
  id := rfl
  tag := rfl
  owner := rfl
  quantity := ⟨Decimal.sameValue_withPlainZero, rfl⟩
  etas := rfl
  claimBounty := rfl
  placedQuantity := by
    rw [withPlainZeros]
    cases o.placedQuantity with
    | none => exact .none
    | some d => exact .some ⟨Decimal.sameValue_withPlainZero, rfl⟩
  placedAt := rfl

/-- An order that a text is read as, in whatever shape, is written as a text of an order with the
same nine fields, decimals by value and with their scales. Unless some decimal of the order is a
zero with a sign, that order is written as the same text again; where one is, the sign is gone. What
is written the second time stays as it is. -/
theorem encoding_of_decoded (raw : String) (o : Order) (decoded : ofText? raw = some o) :
    ∃ o', ofText? o.toText = some o' ∧ o.SameFields o' ∧
      (o'.toText = o.toText ↔ ¬ o.HasNegativeZero) ∧
      ¬ o'.HasNegativeZero ∧ ofText? o'.toText = some o' := by
  obtain ⟨tick, id⟩ := isWord_of_ofText? decoded
  have plain : ¬ o.withPlainZeros.HasNegativeZero := by
    rintro (zero | ⟨d, held, zero⟩)
    · exact Decimal.not_isNegativeZero_withPlainZero zero
    · obtain ⟨e, -, rfl⟩ := Option.map_eq_some_iff.mp held
      exact Decimal.not_isNegativeZero_withPlainZero zero
  have again := ofText?_toText (o := o.withPlainZeros) tick id
  rw [withPlainZeros_of_not plain] at again
  exact ⟨o.withPlainZeros, ofText?_toText tick id, o.sameFields_withPlainZeros,
    toText_withPlainZeros_iff, plain, again⟩

/-- An order with a control character and a quote in one of its texts. -/
def sample : Order where
  tick := -1
  id := 2
  tag := "bid"
  owner := "o"
  quantity := ⟨false, 15, 1, by decide, by decide⟩
  etas := none
  claimBounty := some "\x1f\""
  placedQuantity := some ⟨false, 50, 2, by decide, by decide⟩
  placedAt := none

/-- The sample as a list without its last field, its quantity as a number with an exponent. -/
def sampleList : String := "[-1, 2,\"b\\u0069d\",\"o\",15e-1,null,\"\\u001F\\u0022\",\"0.50\"]"

theorem encoding_of_decoded_of_sample :
    ofText? sampleList = some sample ∧
    ∃ o, ofText? sample.toText = some o ∧ sample.SameFields o ∧ o.toText = sample.toText := by
  have decoded : ofText? sampleList = some sample := by decide +kernel
  obtain ⟨o, again, same, text, -⟩ := encoding_of_decoded sampleList sample decoded
  refine ⟨decoded, o, again, same, text.mpr ?_⟩
  simp [HasNegativeZero, Decimal.IsNegativeZero, sample]

/-- An order as a list, its quantity rounded to a zero by its exponent. -/
def dustList : String := "[1,2,\"bid\",\"o\",\"-0.1e-28\"]"

/-- That order: the zero has its sign. -/
def dust : Order where
  tick := 1
  id := 2
  tag := "bid"
  owner := "o"
  quantity := { Decimal.zero with isNegative := true, scale := 28, scale_le := by decide }
  etas := none
  claimBounty := none
  placedQuantity := none
  placedAt := none

/-- The sign of the zero is written, but what is written is read without it, so the second text is
another one. -/
theorem toText_of_negative_dust :
    ofText? dustList = some dust ∧ ∃ o, ofText? dust.toText = some o ∧ o.toText ≠ dust.toText := by
  refine ⟨by decide +kernel, dust.withPlainZeros, ofText?_toText (by decide) (by decide), ?_⟩
  exact fun same => toText_withPlainZeros_iff.mp same (.inl (by decide))

end CrossBook.Chain.Order
