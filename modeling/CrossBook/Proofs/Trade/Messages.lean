import CrossBook.Proofs.Chain.Encoding
import CrossBook.Text.Blank
import CrossBook.Trade.Claim

/-!
# Messages of claims

The contract takes a message as it is written, so the text itself matters: one object with one
field, the claims in their order as pairs of whole numbers, and nothing between the tokens. Whoever
reads the text gets the claims back, every digit of them, so no two lists of claims share a message.

## Main definitions

* `Trade.Claim.IsWords` — a claim of signed words
* `Trade.Claim.text` — a claim as it stands in a message
* `Trade.claimsOfText?` — the claims a message lists

## Main results

* `Trade.batchText_eq` — the text of a message
* `Trade.claimsOfText?_batchText` — a message is read back
* `Trade.batchText_injective` — different claims have different messages
* `Trade.batchText_exact` — all of this
-/

namespace CrossBook.Trade

open Text

/-! ### The text -/

/-- A claim between brackets: its tick and its order. -/
def Claim.text (c : Claim) : String := "[" ++ writeInt c.tick ++ "," ++ writeInt c.order ++ "]"

theorem Claim.renderChars_toJson (c : Claim) : c.toJson.renderChars = c.text.toList := by
  rw [toJson, Json.renderChars_array]
  simp [text, writeInt, Json.renderChars_ofInt]

/-- The text of a message: the claims in their order, with commas between them. -/
theorem batchText_eq (claims : List Claim) :
    batchText claims =
      "\x7b\"batch_claim\":\x7b\"orders\":[" ++ String.intercalate "," (claims.map Claim.text)
        ++ "]\x7d\x7d" := by
  have listed : (claims.map Claim.toJson).map Json.renderChars =
      (claims.map Claim.text).map String.toList := by
    rw [List.map_map, List.map_map]
    exact List.map_congr_left fun c _ => c.renderChars_toJson
  apply String.toList_inj.mp
  rw [batchText, Json.render, String.toList_ofList, batchMessage]
  simp only [Json.ofFields, List.map_cons, List.map_nil, Json.renderChars, Json.renderFields,
    Json.renderChars_array, listed, String.toList_append, String.toList_intercalate]
  simp [Json.quote, Json.unitsOfText, Json.escapeUnit, Json.escapeChar]

/-! ### No white space -/

/-- Characters none of which is white space. -/
def Unspaced (cs : List Char) : Prop := ∀ c ∈ cs, ¬ isBlank c

-- character by character of the text, and not over all characters there are
instance (cs : List Char) : Decidable (Unspaced cs) := List.decidableBAll _ cs

theorem Unspaced.append {cs ds : List Char} (h : Unspaced cs) (h' : Unspaced ds) :
    Unspaced (cs ++ ds) :=
  List.forall_mem_append.mpr ⟨h, h'⟩

theorem not_isBlank_of_isDigit {c : Char} (h : isDigit c) : ¬ isBlank c := by
  simp only [isDigit, Bool.and_eq_true, decide_eq_true_eq] at h
  simp only [isBlank, blankRanges, List.any_cons, List.any_nil, Bool.or_eq_true, Bool.and_eq_true,
    decide_eq_true_eq, Bool.false_eq_true, or_false]
  omega

theorem unspaced_writeInt (i : Int) : Unspaced (writeInt i).toList := by
  have digits : Unspaced (digits i.natAbs) := fun _ among =>
    not_isBlank_of_isDigit (isDigit_of_mem_digits among)
  rw [writeInt, String.toList_ofList, intChars]
  split_ifs
  · exact List.forall_mem_cons.mpr ⟨by decide, digits⟩
  · exact digits

theorem Claim.unspaced_text (c : Claim) : Unspaced c.text.toList := by
  simp only [text, String.toList_append]
  have bracket : Unspaced "[".toList ∧ Unspaced ",".toList ∧ Unspaced "]".toList := by decide
  obtain ⟨opening, comma, closing⟩ := bracket
  exact (((opening.append (unspaced_writeInt _)).append comma).append
    (unspaced_writeInt _)).append closing

theorem unspaced_intercalate {parts : List (List Char)} (h : ∀ cs ∈ parts, Unspaced cs) :
    Unspaced ([','].intercalate parts) := by
  induction parts with
  | nil => exact nofun
  | cons first rest ih =>
    obtain ⟨here, behind⟩ := List.forall_mem_cons.mp h
    cases rest with
    | nil => rwa [List.intercalate_singleton]
    | cons second rest =>
      rw [List.intercalate_cons_cons]
      exact (here.append (by decide)).append (ih behind)

theorem unspaced_batchText (claims : List Claim) : Unspaced (batchText claims).toList := by
  rw [batchText_eq, String.toList_append, String.toList_append, String.toList_intercalate]
  refine (Unspaced.append (by decide) (unspaced_intercalate ?_)).append (by decide)
  simp only [List.map_map, List.forall_mem_map]
  exact fun c _ => c.unspaced_text

/-! ### Reading a message -/

/-- The claim a pair of signed words is. -/
def Claim.ofJson? : Json → Option Claim
  | .array [tick, order] =>
    return ⟨← Chain.Order.signedOf? tick, ← Chain.Order.signedOf? order⟩
  | _ => none

/-- The value of an object with this field and no other. -/
def onlyField? (name : String) : Json → Option Json
  | .object [(units, v)] => if Json.textOfUnits? units = some name then some v else none
  | _ => none

/-- The claims of a list of pairs. -/
def claimsOfJson? : Json → Option (List Claim)
  | .array items => items.mapM Claim.ofJson?
  | _ => none

/-- The claims a message lists: nothing but a field with a field with the orders. -/
def claimsOfText? (message : String) : Option (List Claim) := do
  let batch ← onlyField? "batch_claim" (← Json.read? message)
  claimsOfJson? (← onlyField? "orders" batch)

/-- The tick and the order of a claim are signed words. -/
def Claim.IsWords (c : Claim) : Prop := Chain.Order.IsWord c.tick ∧ Chain.Order.IsWord c.order

instance (c : Claim) : Decidable c.IsWords := inferInstanceAs (Decidable (_ ∧ _))

theorem onlyField?_ofFields (name : String) (v : Json) :
    onlyField? name (Json.ofFields [(name, v)]) = some v :=
  if_pos (Json.textOfUnits?_unitsOfText name)

theorem Claim.ofJson?_toJson {c : Claim} (words : c.IsWords) : ofJson? c.toJson = some c := by
  simp only [toJson, ofJson?, Chain.Order.signedOf?_ofInt words.1,
    Chain.Order.signedOf?_ofInt words.2]
  rfl

theorem claimsOfJson?_toJson {claims : List Claim} (words : ∀ c ∈ claims, c.IsWords) :
    claimsOfJson? (.array (claims.map Claim.toJson)) = some claims := by
  rw [claimsOfJson?]
  induction claims with
  | nil => rfl
  | cons c rest ih =>
    obtain ⟨here, behind⟩ := List.forall_mem_cons.mp words
    rw [List.map_cons, List.mapM_cons, Claim.ofJson?_toJson here, ih behind]
    rfl

theorem spelling_batchMessage (claims : List Claim) :
    Json.Spelling (batchMessage claims) (batchMessage claims).renderChars := by
  have pairs : ∀ v ∈ claims.map Claim.toJson, Json.Spelling v v.renderChars := by
    refine List.forall_mem_map.mpr fun c _ => Json.spelling_array ?_
    exact List.forall_mem_cons.mpr ⟨Json.spelling_ofInt _, List.forall_mem_singleton.mpr
      (Json.spelling_ofInt _)⟩
  have orders := Json.spelling_object (List.cons_ne_nil ("orders", _) [])
    (List.forall_mem_singleton.mpr (Json.spelling_array pairs))
  exact Json.spelling_object (List.cons_ne_nil _ _) (List.forall_mem_singleton.mpr orders)

theorem read?_batchText (claims : List Claim) :
    Json.read? (batchText claims) = some (batchMessage claims) :=
  Json.read?_render (spelling_batchMessage claims)

/-- A message lists the claims it was written for. -/
theorem claimsOfText?_batchText {claims : List Claim} (words : ∀ c ∈ claims, c.IsWords) :
    claimsOfText? (batchText claims) = some claims := by
  rw [claimsOfText?, read?_batchText]
  simp only [batchMessage, Option.bind_eq_bind, Option.bind_some, onlyField?_ofFields,
    claimsOfJson?_toJson words]

theorem Claim.toJson_injective : Function.Injective toJson := by
  rintro ⟨tick, order⟩ ⟨tick', order'⟩ same
  simp only [toJson, Json.array.injEq, List.cons.injEq, and_true] at same
  rw [Json.ofInt_injective same.1, Json.ofInt_injective same.2]

/-- Different lists of claims have different messages, of words or not. -/
theorem batchText_injective : Function.Injective batchText := by
  intro claims others same
  have messages := read?_batchText claims
  rw [same, read?_batchText, Option.some.injEq] at messages
  simp only [batchMessage, Json.ofFields, List.map_cons, List.map_nil, Json.object.injEq,
    List.cons.injEq, Prod.mk.injEq, true_and, and_true, Json.array.injEq] at messages
  exact (List.map_injective_iff.mpr Claim.toJson_injective messages).symm

/-- The message for a list of claims of words is exactly this text, without white space. It is read
as JSON with the same claims in the same order, digit for digit, so any other list of claims has
another message. -/
theorem batchText_exact (claims : List Claim) (words : ∀ c ∈ claims, c.IsWords) :
    batchText claims =
        "\x7b\"batch_claim\":\x7b\"orders\":[" ++ String.intercalate "," (claims.map Claim.text)
          ++ "]\x7d\x7d" ∧
      (∀ c ∈ (batchText claims).toList, ¬ isBlank c) ∧
      claimsOfText? (batchText claims) = some claims ∧
      ∀ others, batchText others = batchText claims → others = claims :=
  ⟨batchText_eq claims, unspaced_batchText claims, claimsOfText?_batchText words,
    fun _ same => batchText_injective same⟩

/-- The lowest and the highest word, whose last digits a float would round away, and two claims in
another order. -/
theorem batchText_exact_of_extremes :
    let claims : List Claim := [⟨-9223372036854775808, 9223372036854775807⟩, ⟨-1500, 7⟩]
    (∀ c ∈ claims, c.IsWords) ∧
      batchText claims =
        "\x7b\"batch_claim\":\x7b\"orders\":[[-9223372036854775808,9223372036854775807],"
          ++ "[-1500,7]]\x7d\x7d" ∧
      (∀ c ∈ (batchText claims).toList, ¬ isBlank c) ∧
      claimsOfText? (batchText claims) = some claims ∧
      batchText claims.reverse ≠ batchText claims := by
  intro claims
  have words : ∀ c ∈ claims, c.IsWords := by decide
  obtain ⟨written, unspaced, read, same⟩ := batchText_exact claims words
  refine ⟨words, written.trans (by decide +kernel), unspaced, read, fun reversed => ?_⟩
  exact absurd (same _ reversed) (by decide)

end CrossBook.Trade
