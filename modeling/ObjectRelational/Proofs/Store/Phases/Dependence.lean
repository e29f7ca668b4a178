import ObjectRelational.Proofs.Store.Phases.Schemas
import ObjectRelational.Proofs.Store.ViewSimulation

/-!
# Which databases depend on each other

The conditions of joins and filters go along joins, and views read columns of views. Such a join or view
may be declared by another database that is included, and is then found only when that database has been
gone through before.

* `Sees`: a database includes another one, directly or not.
* `DependsOn`: a database may use what another one registers in the same phase. `InSameOrder`: databases
  that depend on each other are listed in the same order.
* `Store.exists_sees_of_visible`: what a database sees is included by it.
-/

namespace ObjectRelational

/-- The joins that the conditions of a database go along. -/
def Source.Database.joinReferences (d : Source.Database) : List Source.JoinReference :=
  d.joins.flatMap (·.condition.joinReferences) ++ d.filters.flatMap (·.condition.joinReferences)

/-- The columns that the views of a database read. -/
def Source.Database.viewReferences (d : Source.Database) : List Source.ColumnReference :=
  d.schemas.flatMap fun s => s.views.flatMap (·.columnReferences)

/-- The name of the database that an element is addressed in. -/
def Source.Database.addressedName (d : Source.Database) : Option Name → String
  | some name => name.value
  | none => d.name.value

/-- One database includes another one, directly or not, or is the same. -/
def Sees (sources : List Source.Database) : String → String → Prop :=
  Relation.ReflTransGen fun x y =>
    ∃ d ∈ sources, d.name.value = x ∧ ∃ name ∈ d.includes, name.value = y

/-- A database may use a join or view that another one declares. -/
inductive DependsOn (defaultSchema : String) (sources : List Source.Database)
    (d e : Source.Database) : Prop where
  /-- A condition goes along a join that has the name of one of the other database. -/
  | join (reference : Source.JoinReference) (hreference : reference ∈ d.joinReferences)
      (hsees : Sees sources (d.addressedName reference.database) e.name.value)
      (hdeclares : ∃ join ∈ e.joins, join.name.value = reference.name.value)
  /-- A view reads a column of what has the name of a view of the other database. -/
  | view (reference : Source.ColumnReference) (hreference : reference ∈ d.viewReferences)
      (hsees : Sees sources (d.addressedName reference.database) e.name.value)
      (hdeclares : ∃ s ∈ e.schemas,
        s.name.value = (reference.schema.map (·.value)).getD defaultSchema ∧
          ∃ view ∈ s.views, view.name.value = reference.table.value)

/-- Of two databases one of which depends on the other, the same one is in front in both lists. -/
def InSameOrder (defaultSchema : String) (sources sources' : List Source.Database) : Prop :=
  ∀ d ∈ sources, ∀ e ∈ sources, DependsOn defaultSchema sources d e →
    (e ∈ inFront sources d ↔ e ∈ inFront sources' d)

variable {sources sources' : List Source.Database} {d e : Source.Database} {defaultSchema : String}

theorem Sees.of_perm {x y : String} (h : Sees sources x y) (hperm : sources'.Perm sources) :
    Sees sources' x y :=
  Relation.ReflTransGen.mono (fun _ _ ⟨d, hd, hincludes⟩ => ⟨d, hperm.mem_iff.2 hd, hincludes⟩) _ _ h

theorem DependsOn.of_perm (h : DependsOn defaultSchema sources d e) (hperm : sources'.Perm sources) :
    DependsOn defaultSchema sources' d e := by
  cases h with
  | join reference hreference hsees hdeclares =>
    exact .join reference hreference (hsees.of_perm hperm) hdeclares
  | view reference hreference hsees hdeclares =>
    exact .view reference hreference (hsees.of_perm hperm) hdeclares

theorem InSameOrder.symm (h : InSameOrder defaultSchema sources sources')
    (hperm : sources'.Perm sources) : InSameOrder defaultSchema sources' sources :=
  fun d hd e he hdepends => (h d (hperm.subset hd) e (hperm.subset he)
    (hdepends.of_perm hperm.symm)).symm

/-- Of the databases that one depends on, those in front of it are the same in both lists. -/
theorem InSameOrder.mem_iff (h : InSameOrder defaultSchema sources sources')
    (hnames : DistinctNames sources) (hperm : sources'.Perm sources)
    {pre post pre' post' : List Source.Database} (hsplit : sources = pre ++ d :: post)
    (hsplit' : sources' = pre' ++ d :: post') :
    ∀ e ∈ sources, DependsOn defaultSchema sources d e → (e ∈ pre ↔ e ∈ pre') := by
  intro e he hdepends
  have hsame := h d (by simp [hsplit]) e he hdepends
  have hfront := inFront_append (hsplit ▸ hnames)
  have hfront' := inFront_append (hsplit' ▸ hnames.of_perm hperm)
  rwa [hsplit, hfront, hsplit', hfront'] at hsame

namespace Store

variable {s t : Store}

theorem IncludesNamed.of_keepsNames (hs : IncludesNamed sources s) (h : KeepsNames s t) :
    IncludesNamed sources t := by
  unfold IncludesNamed
  rw [h.includesOf_eq]
  exact hs

theorem Named.of_keepsNames (hs : Named sources s) (h : KeepsNames s t) : Named sources t := by
  have hbare : ∀ s : Store, s.databases.map (·.name) = (s.databases.map Database.bare).map (·.name) := by
    intro s
    rw [List.map_map]
    rfl
  unfold Named
  rw [hbare, h.databases, ← hbare]
  exact hs

/-- What a database sees are databases that it includes. -/
theorem exists_sees_of_visible (hincludes : IncludesNamed sources s) (hd : d ∈ sources)
    {id : DatabaseId} (hid : id ∈ s.visibleDatabases (handleIn sources d)) :
    ∃ e ∈ sources, id = handleIn sources e ∧ Sees sources d.name.value e.name.value := by
  obtain ⟨start, hstart, hreaches⟩ := Graph.reaches_of_mem_breadthFirst hid
  obtain rfl := List.mem_singleton.1 hstart
  clear hid
  induction hreaches with
  | refl => exact ⟨d, hd, rfl, .refl⟩
  | tail _ hstep ih =>
    obtain ⟨e, he, rfl, hsees⟩ := ih
    obtain ⟨name, hname, next, hnext, hsame, rfl⟩ := hincludes e he _ hstep
    exact ⟨next, hnext, rfl, hsees.tail ⟨e, he, rfl, name, hname, hsame.symm⟩⟩

/-- The database that an element is addressed in is one of the list. -/
theorem exists_handleIn_of_lookupAddressed (hs : Named sources s) (h : DistinctNames sources)
    (hd : d ∈ sources) {marker : Option Name} {id : DatabaseId}
    (hlookup : (s.resolverIn defaultSchema (handleIn sources d)).lookupAddressed marker = .ok id) :
    ∃ e ∈ sources, id = handleIn sources e ∧ e.name.value = d.addressedName marker := by
  cases marker with
  | none =>
    obtain rfl := Except.ok.inj hlookup
    exact ⟨d, hd, rfl, rfl⟩
  | some name =>
    by_contra hnone
    have hname : ∀ e ∈ sources, e.name.value ≠ name.value := by
      intro e he hsame
      refine hnone ⟨e, he, ?_, hsame⟩
      have hnamed := hs.databaseNamed?_of_mem h he
      rw [hsame] at hnamed
      simp only [Resolver.lookupAddressed, Resolver.lookupDatabase, resolverIn, hnamed] at hlookup
      exact (Except.ok.inj hlookup).symm
    simp only [Resolver.lookupAddressed, Resolver.lookupDatabase, resolverIn,
      hs.databaseNamed?_eq_none hname] at hlookup
    exact found_ne_ok _ _ _ hlookup

end Store

end ObjectRelational
