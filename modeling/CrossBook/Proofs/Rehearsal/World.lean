import CrossBook.Proofs.Engine.Likeness
import CrossBook.Proofs.Text.Digits
import CrossBook.Rehearsal.World

/-!
# Rehearsals are impartial

A world that answers from memory keeps what it is sent and numbers what it accepts. Nothing else of
its answers depends on that.

## Main definitions

* `Rehearsal.World.blank` — a world that was sent nothing

## Main results

* `Engine.unnumbered_append_digits` — references without numbers
* `Rehearsal.impartial_network` — nothing but references depends on what was sent before
-/

namespace CrossBook

open Text

/-- References of one kind are the same without their numbers. -/
theorem Engine.unnumbered_append_digits (kind : String) {number : List Char}
    (digits : ∀ c ∈ number, isDigit c) :
    unnumbered (kind ++ String.ofList number) = unnumbered kind := by
  rw [unnumbered, unnumbered, String.toList_append, String.toList_ofList]
  congr 1
  induction number using List.reverseRecOn with
  | nil => rw [List.append_nil]
  | append_singleton number last ih =>
    rw [← List.append_assoc, List.rdropWhile_concat_pos _ _ _ (digits last (by simp))]
    exact ih fun c among => digits c (List.mem_append_left _ among)

namespace Rehearsal

open Engine

namespace World

/-- The world as it would be if it had been sent nothing. -/
def blank (w : World) : World where
  venue := { w.venue with accepted := 0, orders := [] }
  chain := { w.chain with transactions := 0, tickQueries := [], simulations := [], swaps := []
                          contractCalls := [] }
  faults := w.faults

theorem waits_blank (c : Call) (w : World) : waits c w.blank = waits c w := by
  cases c <;> rfl

theorem unnumbered_nextHash (c c' : Chain) (kind : String) :
    Engine.unnumbered (c.nextHash kind) = Engine.unnumbered (c'.nextHash kind) := by
  have padded (n : Nat) : ∀ d ∈ padZeros 4 (digits n), isDigit d :=
    fun _ => isDigit_of_mem_padZeros
  rw [Chain.nextHash, Chain.nextHash, unnumbered_append_digits kind (padded _),
    unnumbered_append_digits kind (padded _)]

/-- A world that was sent something answers like one that was not. -/
theorem alike_respond_blank (c : Call) (w : World) :
    c.ResultsAlike (w.respond c).2 (w.blank.respond c).2 := by
  cases c with
  | placeOrder order =>
    dsimp only [respond, ofVenue, Venue.place, blank]
    split_ifs
    · exact .error _
    · refine .ok ((unnumbered_append_digits "venue-" ?_).trans
        (unnumbered_append_digits "venue-" ?_).symm) <;> exact fun _ => isDigit_of_mem_digits
  | activeTicks pool =>
    dsimp only [respond, ofChain, Chain.activeTicks, blank]
    split_ifs <;> exact Call.resultsAlike_refl _
  | swap request =>
    dsimp only [respond, ofChain, Chain.swap, blank]
    split_ifs
    · exact .error _
    · refine .ok (congrArg (Receipt.mk · _ _) (unnumbered_nextHash _ _ "SWAP"))
    · refine .ok (congrArg (Receipt.mk · _ _) (unnumbered_nextHash _ _ "SWAP"))
  | execute contract message =>
    exact .ok (congrArg (Receipt.mk · _ _) (unnumbered_nextHash _ _ "CLAIM"))
  | _ => exact Call.resultsAlike_refl _

/-- What a world is sent does not change what it would be otherwise. -/
theorem blank_respond (c : Call) (w : World) : (w.respond c).1.blank = w.blank := by
  cases c with
  | placeOrder order =>
    dsimp only [respond, ofVenue, Venue.place]
    split_ifs <;> rfl
  | activeTicks pool =>
    dsimp only [respond, ofChain, Chain.activeTicks]
    split_ifs <;> rfl
  | swap request =>
    dsimp only [respond, ofChain, Chain.swap]
    split_ifs <;> rfl
  | _ => rfl

theorem alike_answer_blank (c : Call) (w : World) :
    c.ResultsAlike (answer c w).2 (answer c w.blank).2 := by
  rw [answer, answer, show w.blank.faultOf c = w.faultOf c from rfl]
  cases (w.faultOf c).result? c with
  | some r => exact Call.resultsAlike_refl r
  | none => exact alike_respond_blank c w

theorem blank_answer (c : Call) (w : World) : (answer c w).1.blank = w.blank := by
  rw [answer]
  cases (w.faultOf c).result? c with
  | some r => rfl
  | none => exact blank_respond c w

end World

/-- Nothing but the references in the answers of a rehearsal depends on what was sent before. -/
theorem impartial_network (limitSecs : Nat) : (network limitSecs).Impartial World.blank where
  waits {w w'} same c := by
    rw [show (network limitSecs).waits = World.waits from rfl, ← World.waits_blank c w, same,
      World.waits_blank]
  answer {w w'} same c := by
    refine (World.alike_answer_blank c w).trans ?_
    rw [same]
    exact (World.alike_answer_blank c w').symm
  view_eq := World.blank_answer

end Rehearsal

end CrossBook
