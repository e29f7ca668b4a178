import Mathlib.Data.List.Forall2
import ObjectRelational.Recorded

/-!
# How resolutions end

A resolution that ends with a value has gone through all of its steps, each of which had a value to go
on with. One that fails has failed at one of them.

* `bind_eq_ok_iff`, `Recorded.result_bind_eq_ok_iff` take the first step off.
* `mapM_eq_ok_iff`, `Recorded.result_forAll_eq_ok_iff`: a list is resolved item by item.
* `foldlM_invariant`: what every step keeps holds at the end. `forall₂_of_foldlM`: what every step adds is
  there at the end.
* `bind_eq_map`, `mapM_eq_map`, `Recorded.bind_eq_map`: what two resolutions that go step by step end
  with is the same up to a map.
* `FailsWith`: a resolution that fails with some faults only.
-/

namespace ObjectRelational

variable {α β α' β' ε : Type}

theorem bind_eq_ok_iff {x : Except ε α} {f : α → Except ε β} {b : β} :
    x >>= f = .ok b ↔ ∃ a, x = .ok a ∧ f a = .ok b := by
  cases x <;> simp [bind, Except.bind]

theorem map_eq_ok_iff {x : Except ε α} {f : α → β} {b : β} :
    x.map f = .ok b ↔ ∃ a, x = .ok a ∧ f a = b := by
  cases x <;> simp [Except.map]

theorem pure_eq_ok_iff {a b : α} : (pure a : Except ε α) = .ok b ↔ a = b := by
  simp [pure, Except.pure]

@[simp]
theorem found_ne_ok (fault : Fault) (span : Span) (a : α) :
    (fault.found span : Resolved α) ≠ .ok a := by
  simp [Fault.found]

theorem mapM_eq_ok_iff {f : α → Except ε β} {l : List α} {bs : List β} :
    l.mapM f = .ok bs ↔ List.Forall₂ (fun a b => f a = .ok b) l bs := by
  induction l generalizing bs with
  | nil => simp [pure, Except.pure, eq_comm]
  | cons a rest ih =>
    simp only [List.mapM_cons, bind_eq_ok_iff, pure_eq_ok_iff, ih, List.forall₂_cons_left_iff]
    grind

theorem foldlM_invariant {P : β → Prop} {f : β → α → Except ε β} {l : List α} {b b' : β}
    (hstep : ∀ b, ∀ a ∈ l, ∀ b', P b → f b a = .ok b' → P b') (hb : P b)
    (h : l.foldlM f b = .ok b') : P b' := by
  induction l generalizing b with
  | nil => exact pure_eq_ok_iff.1 h ▸ hb
  | cons a rest ih =>
    rw [List.foldlM_cons] at h
    obtain ⟨next, hnext, hrest⟩ := bind_eq_ok_iff.1 h
    exact ih (fun b a ha => hstep b a (List.mem_cons_of_mem _ ha))
      (hstep b a List.mem_cons_self next hb hnext) hrest

/-- When each step adds to a list what stands for the parts of its item, what is added in the end stands for
the parts of all items. -/
theorem forall₂_of_foldlM {γ δ : Type} {R : γ → δ → Prop} (added : β → List δ) (parts : α → List γ)
    {f : β → α → Except ε β} {l : List α} {b b' : β}
    (hstep : ∀ b, ∀ a ∈ l, ∀ b', f b a = .ok b' →
      ∃ more, added b' = added b ++ more ∧ List.Forall₂ R (parts a) more)
    (h : l.foldlM f b = .ok b') :
    ∃ more, added b' = added b ++ more ∧ List.Forall₂ R (l.flatMap parts) more := by
  induction l generalizing b with
  | nil =>
    obtain rfl := pure_eq_ok_iff.1 h
    exact ⟨[], (List.append_nil _).symm, .nil⟩
  | cons a rest ih =>
    rw [List.foldlM_cons] at h
    obtain ⟨next, hnext, hrest⟩ := bind_eq_ok_iff.1 h
    obtain ⟨first, hfirst, hparts⟩ := hstep b a List.mem_cons_self next hnext
    obtain ⟨others, hothers, hall⟩ :=
      ih (fun b a ha => hstep b a (List.mem_cons_of_mem _ ha)) hrest
    exact ⟨first ++ others, by rw [hothers, hfirst, List.append_assoc], List.rel_append hparts hall⟩

/-- Resolutions that agree up to a map after each step agree up to a map. -/
theorem bind_eq_map {x : Except ε α} {x' : Except ε α'} {f : α → α'} {k : α → Except ε β}
    {k' : α' → Except ε β'} {g : β → β'} (hx : x' = f <$> x)
    (hk : ∀ a, x = .ok a → k' (f a) = g <$> k a) : x' >>= k' = g <$> (x >>= k) := by
  subst hx
  cases x with
  | error failure => rfl
  | ok a => exact hk a rfl

theorem bind_congr_map {x : Except ε α} {k : α → Except ε β} {k' : α → Except ε β'} {g : β → β'}
    (hk : ∀ a, x = .ok a → k' a = g <$> k a) : x >>= k' = g <$> (x >>= k) :=
  bind_eq_map (id_map x).symm hk

/-- A list goes through to the same when its items do, up to a map. -/
theorem mapM_eq_map {f : α → Except ε β} {f' : α → Except ε β'} {g : β → β'} {l : List α}
    (h : ∀ a ∈ l, f' a = g <$> f a) : l.mapM f' = List.map g <$> l.mapM f := by
  induction l with
  | nil => rfl
  | cons a rest ih =>
    rw [List.mapM_cons, List.mapM_cons]
    refine bind_eq_map (h a List.mem_cons_self) fun b _ => ?_
    refine bind_eq_map (ih fun a' ha' => h a' (List.mem_cons_of_mem _ ha')) fun bs _ => ?_
    rfl

namespace Recorded

@[simp]
theorem result_pure (a : α) : (pure a : Recorded α).result = .ok a := rfl

@[simp]
theorem result_ofResult (x : Resolved α) : (ofResult x).result = x := rfl

@[simp]
theorem result_monadLift (x : Resolved α) : (monadLift x : Recorded α).result = x := rfl

@[simp]
theorem result_record (symbol : Symbol) (span : Span) : (record symbol span).result = .ok () := rfl

theorem result_bind_eq_ok_iff {x : Recorded α} {f : α → Recorded β} {b : β} :
    (x >>= f).result = .ok b ↔ ∃ a, x.result = .ok a ∧ (f a).result = .ok b := by
  rcases x with ⟨usages, _ | a⟩ <;> simp [bind, andThen]

/-- A step that has a value is followed by what comes next. -/
theorem result_bind {x : Recorded α} {f : α → Recorded β} {a : α} (h : x.result = .ok a) :
    (x >>= f).result = (f a).result := by
  rcases x with ⟨usages, _ | _⟩
  · cases h
  · obtain rfl := Except.ok.inj h
    rfl

/-- A step that fails is the last one. -/
theorem result_bind_of_error {x : Recorded α} {f : α → Recorded β} {failure : Failure}
    (h : x.result = .error failure) : (x >>= f).result = .error failure := by
  rcases x with ⟨usages, _ | _⟩
  · obtain rfl := Except.error.inj h
    rfl
  · cases h

/-- A step that has a value records before what comes next. -/
theorem usages_bind {x : Recorded α} {f : α → Recorded β} {a : α} (h : x.result = .ok a) :
    (x >>= f).usages = x.usages ++ (f a).usages := by
  rcases x with ⟨usages, _ | _⟩
  · cases h
  · obtain rfl := Except.ok.inj h
    rfl

/-- Folding records nothing that the result depends on. -/
theorem result_foldlM (f : β → α → Recorded β) (l : List α) (b : β) :
    (l.foldlM f b).result = l.foldlM (fun b a => (f b a).result) b := by
  induction l generalizing b with
  | nil => rfl
  | cons a rest ih =>
    rw [List.foldlM_cons, List.foldlM_cons]
    rcases h : f b a with ⟨usages, _ | next⟩
    · simp [bind, andThen, Except.bind]
    · simp [bind, andThen, Except.bind, ih]

theorem result_forAll_eq_ok_iff {f : α → Recorded β} {l : List α} {bs : List β} :
    (forAll f l).result = .ok bs ↔ List.Forall₂ (fun a b => (f a).result = .ok b) l bs := by
  induction l generalizing bs with
  | nil => simp [forAll, eq_comm]
  | cons a rest ih =>
    simp only [forAll, result_bind_eq_ok_iff, result_pure, ih, List.forall₂_cons_left_iff,
      Except.ok.injEq]
    grind

theorem ext_result {x y : Recorded α} (husages : x.usages = y.usages) (hresult : x.result = y.result) :
    x = y := by
  cases x
  cases y
  simp_all

@[simp]
theorem result_map (f : α → β) (x : Recorded α) : (f <$> x).result = f <$> x.result := by
  rcases x with ⟨usages, _ | a⟩ <;> rfl

@[simp]
theorem usages_map (f : α → β) (x : Recorded α) : (f <$> x).usages = x.usages := by
  rcases x with ⟨usages, _ | a⟩ <;> simp [Functor.map, andThen, ofResult]

theorem monadLift_map (f : α → β) (x : Resolved α) :
    (monadLift (f <$> x) : Recorded β) = f <$> (monadLift x : Recorded α) := by
  cases x <;> rfl

/-- Resolutions that agree up to a map after each step agree up to a map. -/
theorem bind_eq_map {x : Recorded α} {x' : Recorded α'} {f : α → α'} {k : α → Recorded β}
    {k' : α' → Recorded β'} {g : β → β'} (hx : x' = f <$> x)
    (hk : ∀ a, x.result = .ok a → k' (f a) = g <$> k a) : x' >>= k' = g <$> (x >>= k) := by
  subst hx
  rw [bind_map_left, map_bind]
  rcases x with ⟨usages, _ | a⟩
  · rfl
  · simp only [bind, andThen, hk a rfl]

theorem bind_congr_map {x : Recorded α} {k : α → Recorded β} {k' : α → Recorded β'} {g : β → β'}
    (hk : ∀ a, x.result = .ok a → k' a = g <$> k a) : x >>= k' = g <$> (x >>= k) :=
  bind_eq_map (id_map x).symm hk

/-- A list is resolved to the same when its items are, up to a map. -/
theorem forAll_eq_map {f : α → Recorded β} {f' : α → Recorded β'} {g : β → β'} {l : List α}
    (h : ∀ a ∈ l, f' a = g <$> f a) : forAll f' l = List.map g <$> forAll f l := by
  induction l with
  | nil => rfl
  | cons a rest ih =>
    refine bind_eq_map (h a List.mem_cons_self) fun b _ => ?_
    refine bind_eq_map (ih fun a' ha' => h a' (List.mem_cons_of_mem _ ha')) fun bs _ => ?_
    simp

end Recorded

/-! ## What resolutions fail with -/

section FailsWith

variable {P : Fault → Prop}

/-- The resolution fails with such faults only. -/
def FailsWith (P : Fault → Prop) (x : Resolved α) : Prop :=
  ∀ failure, x = .error failure → P failure.fault

@[simp]
theorem failsWith_ok (a : α) : FailsWith P (.ok a) := by
  intro failure h
  cases h

@[simp]
theorem failsWith_pure (a : α) : FailsWith P (pure a) := failsWith_ok a

@[simp]
theorem failsWith_found_iff {fault : Fault} {span : Span} :
    FailsWith P (fault.found span : Resolved α) ↔ P fault := by
  constructor
  · intro h
    exact h _ rfl
  · intro h failure hfound
    cases hfound
    exact h

/-- A resolution that goes on fails like one of its parts. -/
theorem FailsWith.bind {x : Resolved α} {f : α → Resolved β} (hx : FailsWith P x)
    (hf : ∀ a, FailsWith P (f a)) : FailsWith P (x >>= f) := by
  intro failure h
  cases hcase : x with
  | error found =>
    rw [hcase] at h
    cases h
    exact hx _ hcase
  | ok a =>
    rw [hcase] at h
    exact hf a _ h

theorem FailsWith.map {x : Resolved α} (hx : FailsWith P x) (f : α → β) : FailsWith P (x.map f) := by
  intro failure h
  cases hcase : x with
  | error found =>
    rw [hcase] at h
    cases h
    exact hx _ hcase
  | ok a =>
    rw [hcase] at h
    cases h

theorem FailsWith.mapM {f : α → Resolved β} {l : List α} (hf : ∀ a ∈ l, FailsWith P (f a)) :
    FailsWith P (l.mapM f) := by
  induction l with
  | nil => exact failsWith_pure []
  | cons a rest ih =>
    rw [List.mapM_cons]
    refine (hf a List.mem_cons_self).bind fun b => ?_
    refine (ih fun c hc => hf c (List.mem_cons_of_mem _ hc)).bind fun bs => ?_
    exact failsWith_pure (b :: bs)

theorem FailsWith.foldlM {f : β → α → Resolved β} (hf : ∀ b a, FailsWith P (f b a)) (l : List α)
    (b : β) : FailsWith P (l.foldlM f b) := by
  induction l generalizing b with
  | nil => exact failsWith_pure b
  | cons a rest ih =>
    rw [List.foldlM_cons]
    exact (hf b a).bind ih

/-- So does one that records usages on its way. -/
theorem FailsWith.andThen {x : Recorded α} {f : α → Recorded β} (hx : FailsWith P x.result)
    (hf : ∀ a, FailsWith P (f a).result) : FailsWith P (x >>= f).result := by
  intro failure h
  rcases x with ⟨usages, _ | a⟩
  · cases h
    exact hx _ rfl
  · exact hf a _ h

theorem FailsWith.forAll {f : α → Recorded β} (hf : ∀ a, FailsWith P (f a).result) (l : List α) :
    FailsWith P (Recorded.forAll f l).result := by
  induction l with
  | nil => exact failsWith_ok []
  | cons a rest ih =>
    unfold Recorded.forAll
    exact (hf a).andThen fun b => ih.andThen fun bs => failsWith_ok (b :: bs)

end FailsWith

end ObjectRelational
