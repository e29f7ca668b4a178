import ObjectRelational.OrderedMap
import ObjectRelational.Span

/-!
# Usages of store elements

Which elements of a store a source refers to, and where.

* `Symbol` names an element that can be referred to; symbols are ordered by kind and then by name.
* `Usage` is one reference, `Usages` collects the places of all references to a symbol.
-/

namespace ObjectRelational

/-- An element of a store, by the names of all that it is declared in. -/
inductive Symbol where
  | database (name : String)
  | table (database schema table : String)
  | column (database schema table column : String)
  | join (database join : String)
  | filter (database filter : String)
deriving DecidableEq

namespace Symbol

/-- The place of a kind of symbol in the order. -/
def rank : Symbol → Nat
  | database _ => 0
  | table _ _ _ => 1
  | column _ _ _ _ => 2
  | join _ _ => 3
  | filter _ _ => 4

/-- The name of a kind of symbol. -/
def kindText : Symbol → String
  | database _ => "database"
  | table _ _ _ => "table"
  | column _ _ _ _ => "column"
  | join _ _ => "join"
  | filter _ _ => "filter"

/-- The names of a symbol, the outermost one first. -/
def names : Symbol → List String
  | database d => [d]
  | table d s t => [d, s, t]
  | column d s t c => [d, s, t, c]
  | join d j => [d, j]
  | filter d f => [d, f]

/-- The symbol in one text. -/
def text : Symbol → String
  | database d => d
  | table d s t => s!"{d}.{s}.{t}"
  | column d s t c => s!"{d}.{s}.{t}.{c}"
  | join d j => s!"{d}@{j}"
  | filter d f => s!"{d}!{f}"

/-- Symbols are ordered by kind and then by their names. -/
instance : LT Symbol := ⟨fun a b => a.rank < b.rank ∨ a.rank = b.rank ∧ a.names < b.names⟩

instance : DecidableLT Symbol := fun a b =>
  inferInstanceAs (Decidable (a.rank < b.rank ∨ a.rank = b.rank ∧ a.names < b.names))

/-- Kind and names determine a symbol. -/
theorem eq_of_rank_of_names {a b : Symbol} (hrank : a.rank = b.rank) (hnames : a.names = b.names) :
    a = b := by
  cases a <;> cases b <;> simp_all [rank, names]

instance : KeyOrder Symbol where
  irrefl := by
    rintro a (h | ⟨_, h⟩)
    · exact Nat.lt_irrefl _ h
    · exact List.lt_irrefl _ h
  trans := by
    rintro a b c (hab | ⟨rab, hab⟩) (hbc | ⟨rbc, hbc⟩)
    · exact .inl (Nat.lt_trans hab hbc)
    · exact .inl (rbc ▸ hab)
    · exact .inl (rab ▸ hbc)
    · exact .inr ⟨rab.trans rbc, List.lt_trans hab hbc⟩
  connected := by
    intro a b hab hba
    have hrank : a.rank = b.rank := by
      rcases Nat.lt_trichotomy a.rank b.rank with h | h | h
      · exact absurd (.inl h) hab
      · exact h
      · exact absurd (.inl h) hba
    refine eq_of_rank_of_names hrank (List.le_antisymm (fun h => hba (.inr ⟨hrank.symm, h⟩))
      (fun h => hab (.inr ⟨hrank, h⟩)))

end Symbol

/-- One reference to an element of a store. -/
structure Usage where
  symbol : Symbol
  span : Span
deriving DecidableEq

/-- The places of the references to every symbol, in the order of the symbols. -/
abbrev Usages := OrderedMap Symbol (List Span)

namespace Usages

/-- Adds a reference behind those to the same symbol. -/
def record (usages : Usages) (usage : Usage) : Usages :=
  usages.insert usage.symbol ((usages.find? usage.symbol).getD [] ++ [usage.span])

/-- Collects references. -/
def ofList (usages : List Usage) : Usages := usages.foldl record .empty

/-- The places of the references to a symbol. -/
def spansOf (usages : Usages) (symbol : Symbol) : List Span := (usages.find? symbol).getD []

end Usages

end ObjectRelational
