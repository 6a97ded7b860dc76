import Mathlib.Data.List.Chain
import Mathlib.Logic.Relation

/-!
# Turns

A process that takes turns is a relation between its states. Of its runs it is said how many turns
they can have, what holds all along, and where they end.
-/

namespace BeanSynthesis

variable {α : Type} {turn : α → α → Prop} {start : α}

/-- No sequence of turns from a state is longer than this. -/
def EndsWithinTurns (turn : α → α → Prop) (bound : Nat) (start : α) : Prop :=
  ∀ states, List.IsChain turn (start :: states) → states.length ≤ bound

/-- No turn is possible any more. -/
def AtRest (turn : α → α → Prop) (state : α) : Prop := ∀ next, ¬turn state next

/-- Where every turn costs something, there are no more turns than the budget allows. -/
theorem endsWithinTurns_of_budget {Keeps : α → Prop} {budget : α → Nat}
    (hturn : ∀ a b, Keeps a → turn a b → Keeps b ∧ budget b < budget a) (hstart : Keeps start) :
    EndsWithinTurns turn (budget start) start := by
  intro states hchain
  induction states generalizing start with
  | nil => exact Nat.zero_le _
  | cons next rest ih =>
    obtain ⟨hnext, hrest⟩ := List.isChain_cons_cons.mp hchain
    obtain ⟨hkept, hless⟩ := hturn start next hstart hnext
    have hlength := ih hkept hrest
    rw [List.length_cons]
    omega

/-- What every turn keeps is kept by every run. -/
theorem keeps_of_run {Keeps : α → Prop} (hturn : ∀ a b, Keeps a → turn a b → Keeps b) {state : α}
    (hrun : Relation.ReflTransGen turn start state) (hstart : Keeps start) : Keeps state := by
  induction hrun with
  | refl => exact hstart
  | tail _ hlast ih => exact hturn _ _ ih hlast

private theorem eq_of_run_of_atRest {state next : α} (h : Relation.ReflTransGen turn state next)
    (hrest : AtRest turn state) : state = next := by
  cases Relation.ReflTransGen.cases_head h with
  | inl heq => exact heq
  | inr hturn =>
    obtain ⟨_, hfirst, -⟩ := hturn
    exact absurd hfirst (hrest _)

/-- Where no state has two turns, all runs that have come to rest have come to the same state. -/
theorem eq_of_atRest (hunique : Relator.RightUnique turn) {a b : α}
    (ha : Relation.ReflTransGen turn start a) (hrest : AtRest turn a)
    (hb : Relation.ReflTransGen turn start b) (hrest' : AtRest turn b) : a = b := by
  rcases Relation.ReflTransGen.total_of_right_unique hunique ha hb with hab | hba
  · exact eq_of_run_of_atRest hab hrest
  · exact (eq_of_run_of_atRest hba hrest').symm

end BeanSynthesis
