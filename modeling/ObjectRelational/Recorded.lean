import ObjectRelational.Fault
import ObjectRelational.Store.Usage

/-!
# Recording resolutions

A resolution that records a usage for every name it resolves. The usages are written and never
read, so they cannot change the result; and those recorded before a failure are kept.
-/

namespace ObjectRelational

/-- A resolution that has recorded usages, in order, and has ended with a value or a failure. -/
structure Recorded (α : Type) where
  usages : List Usage
  result : Resolved α

namespace Recorded

variable {α β : Type}

/-- Records nothing. -/
def ofResult (result : Resolved α) : Recorded α := ⟨[], result⟩

/-- Goes on with the value of a resolution, if it has one. -/
def andThen (x : Recorded α) (f : α → Recorded β) : Recorded β :=
  match x.result with
  | .error failure => ⟨x.usages, .error failure⟩
  | .ok a => ⟨x.usages ++ (f a).usages, (f a).result⟩

instance : Monad Recorded where
  pure a := ofResult (.ok a)
  bind := andThen

instance : MonadLift Resolved Recorded := ⟨ofResult⟩

/-- Records a usage. -/
def record (symbol : Symbol) (span : Span) : Recorded Unit := ⟨[⟨symbol, span⟩], .ok ()⟩

/-- Resolves the items of a list one after the other. -/
def forAll (f : α → Recorded β) : List α → Recorded (List β)
  | [] => pure []
  | a :: rest => do
    let b ← f a
    let bs ← forAll f rest
    return b :: bs

/-- Mapping the identity changes nothing. -/
theorem id_map_eq (x : Recorded α) : id <$> x = x := by
  rcases x with ⟨usages, _ | a⟩ <;> simp [Functor.map, andThen, ofResult]

/-- A value goes straight on. -/
theorem pure_bind_eq (a : α) (f : α → Recorded β) : pure a >>= f = f a := by
  simp [bind, pure, andThen, ofResult]

/-- Going on twice is going on with both. -/
theorem bind_assoc_eq {γ : Type} (x : Recorded α) (f : α → Recorded β) (g : β → Recorded γ) :
    x >>= f >>= g = x >>= fun a => f a >>= g := by
  rcases x with ⟨usages, _ | a⟩
  · simp [bind, andThen]
  · rcases h : f a with ⟨usages', _ | b⟩ <;> simp [bind, andThen, h]

instance : LawfulMonad Recorded := LawfulMonad.mk' Recorded id_map_eq pure_bind_eq bind_assoc_eq

end Recorded

end ObjectRelational
