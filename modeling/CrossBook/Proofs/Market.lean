import CrossBook.Proofs.Settings
import Mathlib.Data.List.Forall2

/-!
# What pairs are called

A pair has its display name and its symbol on the venue from the symbols of its assets, written one
behind the other. Two pairs that are not the same are called the same when the base of one runs into
its quote where the other has its base end, and only then.

## Main definitions

* `PairSymbols.RunsInto` — the base of another pair reaches into the quote of this one
* `Settings.NamesApart` — no two entries have one display name

## Main results

* `Pair.name_eq_iff`, `Pair.venueSymbol_eq_iff` — when two pairs are called the same
* `Settings.symbols_of_pairs` — pairs have the symbols of their entries
* `Settings.namesApart_of_no_slash` — entries without slashes have different display names
-/

namespace CrossBook

/-- The base of another pair is the base of this one, the separator, and a part of the quote that
ends at the separator; the rest of the quote is the quote of the other pair. -/
def PairSymbols.RunsInto (separator : String) (p q : PairSymbols) : Prop :=
  ∃ part, q.base = p.base ++ separator ++ part ∧ p.quote = part ++ separator ++ q.quote

/-- Two pairs are written in the same way with a separator of one character, or without one. -/
theorem PairSymbols.joined_eq_iff {separator : String} (short : separator.toList.length ≤ 1)
    (p q : PairSymbols) :
    p.base ++ separator ++ p.quote = q.base ++ separator ++ q.quote ↔
      p = q ∨ p.RunsInto separator q ∨ q.RunsInto separator p := by
  -- the part of the longer base behind the shorter one starts with the separator, if there is any
  have runs {p q : PairSymbols} {part : List Char} (base : q.base.toList = p.base.toList ++ part)
      (rest : separator.toList ++ p.quote.toList =
        part ++ (separator.toList ++ q.quote.toList)) :
      p = q ∨ p.RunsInto separator q := by
    rcases part with _ | ⟨c, part⟩
    · rw [List.append_nil, String.toList_inj] at base
      rw [List.nil_append, List.append_cancel_left_eq, String.toList_inj] at rest
      exact .inl (by cases p; cases q; exact congrArg₂ _ base.symm rest)
    · right
      rcases chars : separator.toList with _ | ⟨d, _ | _⟩
      · rw [chars] at rest
        refine ⟨.ofList (c :: part), ?_, ?_⟩ <;>
          simp only [← String.toList_inj, String.toList_append, String.toList_ofList, chars,
            List.append_nil]
        · exact base
        · exact rest
      · rw [chars] at rest
        obtain ⟨starts, behind⟩ := List.cons.inj rest
        subst starts
        refine ⟨.ofList part, ?_, ?_⟩ <;>
          simp only [← String.toList_inj, String.toList_append, String.toList_ofList, chars,
            List.append_assoc]
        · exact base
        · exact behind
      · rw [chars] at short
        simp at short
  constructor
  · intro same
    rw [← String.toList_inj] at same
    simp only [String.toList_append, List.append_assoc] at same
    rcases List.append_eq_append_iff.mp same with ⟨part, base, rest⟩ | ⟨part, base, rest⟩
    · exact (runs base rest).imp_right .inl
    · exact (runs base rest).imp Eq.symm .inr
  · rintro (rfl | ⟨part, base, quote⟩ | ⟨part, base, quote⟩)
    · rfl
    all_goals
      rw [base, quote]
      simp only [String.append_assoc]

namespace Pair

/-- The symbols of a pair. -/
def symbols (p : Pair) : PairSymbols := ⟨p.base.symbol, p.quote.symbol⟩

/-- Two pairs have one display name when they have the same symbols, or when the base of one runs
over a slash into the quote of the other. -/
theorem name_eq_iff {p q : Pair} : p.name = q.name ↔
    p.symbols = q.symbols ∨ p.symbols.RunsInto "/" q.symbols ∨ q.symbols.RunsInto "/" p.symbols :=
  PairSymbols.joined_eq_iff (by decide) p.symbols q.symbols

/-- Two pairs have one symbol on the venue when they have the same symbols, or when the base of one
runs into the quote of the other. -/
theorem venueSymbol_eq_iff {p q : Pair} : p.venueSymbol = q.venueSymbol ↔
    p.symbols = q.symbols ∨ p.symbols.RunsInto "" q.symbols ∨ q.symbols.RunsInto "" p.symbols := by
  rw [← PairSymbols.joined_eq_iff (by decide) p.symbols q.symbols, String.append_empty,
    String.append_empty]
  exact Iff.rfl

end Pair

/-! ### Assets by symbol -/

theorem AssetTable.symbol_of_extend {t t' : AssetTable} {assets : List Asset}
    (keyed : ∀ symbol a, t.get? symbol = some a → a.symbol = symbol)
    (h : t.extend assets = .ok t') :
    ∀ symbol a, t'.get? symbol = some a → a.symbol = symbol := by
  induction assets generalizing t with
  | nil =>
    obtain rfl := Except.ok.inj h
    exact keyed
  | cons first rest ih =>
    rw [extend] at h
    split_ifs at h
    refine ih (fun symbol a found => ?_) h
    by_cases same : symbol = first.symbol
    · rw [same, Table.get?_insert_self] at found
      rw [same, Option.some.inj found]
    · rw [Table.get?_insert_of_ne _ same] at found
      exact keyed symbol a found

theorem AssetTable.symbol_of_ofAssets {t : AssetTable} {assets : List Asset} {symbol : String}
    {a : Asset} (h : AssetTable.ofAssets assets = .ok t) (found : t.get? symbol = some a) :
    a.symbol = symbol :=
  symbol_of_extend (by simp) h symbol a found

namespace Settings

variable {s : Settings} {found : List Pair}

theorem pairOf_eq_ok {t : AssetTable} {symbols : PairSymbols} {p : Pair}
    (h : pairOf t symbols = .ok p) :
    t.get? symbols.base = some p.base ∧ t.get? symbols.quote = some p.quote := by
  obtain ⟨base, baseFound, h⟩ := bind_eq_ok.mp h
  obtain ⟨quote, quoteFound, h⟩ := bind_eq_ok.mp h
  obtain rfl := Except.ok.inj h
  exact ⟨orError_eq_ok.mp baseFound, orError_eq_ok.mp quoteFound⟩

/-- A list of results, each of its own element. -/
theorem forall₂_of_mapM {ε α β : Type} {f : α → Except ε β} {xs : List α} {ys : List β}
    (h : xs.mapM f = .ok ys) : List.Forall₂ (fun x y => f x = .ok y) xs ys := by
  induction xs generalizing ys with
  | nil =>
    obtain rfl := Except.ok.inj (show Except.ok [] = Except.ok ys from h)
    exact .nil
  | cons x xs ih =>
    rw [List.mapM_cons] at h
    obtain ⟨y, first, h⟩ := bind_eq_ok.mp h
    obtain ⟨rest, others, h⟩ := bind_eq_ok.mp h
    obtain rfl := Except.ok.inj h
    exact .cons first (ih others)

/-- Each pair has the symbols of its entry, and there is one pair with them. -/
theorem symbols_of_pairs (h : s.pairs = .ok found) :
    found.map Pair.symbols = s.pairSymbols ∧
      ∀ p ∈ found, ∀ q ∈ found, p.symbols = q.symbols → p = q := by
  obtain ⟨t, table, h⟩ := bind_eq_ok.mp h
  have keyed : ∀ {symbol a}, t.get? symbol = some a → a.symbol = symbol := by
    rw [assetTable] at table
    cases built : AssetTable.ofAssets s.assets with
    | error symbol => simp [built] at table
    | ok t' =>
      rw [built] at table
      obtain rfl := Except.ok.inj table
      exact AssetTable.symbol_of_ofAssets built
  have all := forall₂_of_mapM h
  have symbols_eq {entry : PairSymbols} {p : Pair} (resolved : pairOf t entry = .ok p) :
      p.symbols = entry := by
    obtain ⟨base, quote⟩ := pairOf_eq_ok resolved
    rw [Pair.symbols, keyed base, keyed quote]
  constructor
  · have same : List.Forall₂ (· = ·) (found.map Pair.symbols) s.pairSymbols :=
      List.forall₂_map_left_iff.mpr (List.Forall₂.flip (all.imp fun _ _ => symbols_eq))
    rwa [List.forall₂_eq_eq_eq] at same
  · -- a pair is looked up by its symbols
    have resolved : ∀ p ∈ found, pairOf t p.symbols = .ok p := by
      intro p among
      obtain ⟨i, at_i, rfl⟩ := List.getElem_of_mem among
      have here := all.get (by rw [all.length_eq]; exact at_i) at_i
      rw [List.get_eq_getElem, List.get_eq_getElem] at here
      rwa [symbols_eq here]
    intro p among q among' same
    exact Except.ok.inj ((resolved p among).symm.trans (same ▸ resolved q among'))

/-- No two entries have one display name. -/
def NamesApart (s : Settings) : Prop :=
  s.pairSymbols.Pairwise fun p q => p ≠ q ∧ ¬ p.RunsInto "/" q ∧ ¬ q.RunsInto "/" p

/-- No two entries have one symbol on the venue. -/
def SymbolsApart (s : Settings) : Prop :=
  s.pairSymbols.Pairwise fun p q => p ≠ q ∧ ¬ p.RunsInto "" q ∧ ¬ q.RunsInto "" p

theorem namesApart_iff (h : s.pairs = .ok found) :
    s.NamesApart ↔ found.Pairwise fun p q => p.name ≠ q.name := by
  rw [NamesApart, ← (symbols_of_pairs h).1, List.pairwise_map]
  simp only [ne_eq, Pair.name_eq_iff, not_or]

theorem symbolsApart_iff (h : s.pairs = .ok found) :
    s.SymbolsApart ↔ found.Pairwise fun p q => p.venueSymbol ≠ q.venueSymbol := by
  rw [SymbolsApart, ← (symbols_of_pairs h).1, List.pairwise_map]
  simp only [ne_eq, Pair.venueSymbol_eq_iff, not_or]

/-- Different entries whose bases have no slash have different display names. -/
theorem namesApart_of_no_slash (different : s.pairSymbols.Nodup)
    (slashless : ∀ p ∈ s.pairSymbols, '/' ∉ p.base.toList) : s.NamesApart := by
  have apart : ∀ p q : PairSymbols, q ∈ s.pairSymbols → ¬ p.RunsInto "/" q := by
    rintro p q among ⟨part, base, -⟩
    refine slashless q among ?_
    rw [base]
    simp
  exact different.imp_of_mem fun among among' other =>
    ⟨other, apart _ _ among', apart _ _ among⟩

end Settings

end CrossBook
