import ObjectRelational.Proofs.Lookup
import ObjectRelational.Proofs.Recorded
import ObjectRelational.Proofs.Store.Milestoning.Grammar

/-!
# Reading milestoning

The clauses of a table are read one after the other, and their columns are checked afterwards. What is read is what
the grammar says: in whatever order clauses and arguments come, they stand for the same.

* `Source.MilestoningClause.business_eq_ok_iff`, `Source.MilestoningClause.processing_eq_ok_iff`: what a clause is
  read as is what it gives.
* `foldlM_add_eq_ok_iff`: each keyword has room for one clause. `denotes_of_read`, `read_of_denotes`: what is read is
  what the clauses stand for.
* `ofClauses?_eq_some_iff`: the milestoning of a table is what its clauses stand for, when they name its columns.
* `failsWith_read`, `kind_eq_parse_iff`: malformed text is what breaks the grammar, and nothing else is.
* `milestoning_exact`: what is accepted, what it is taken for, and what is malformed.
-/

namespace ObjectRelational

open MilestoningClause

/-! ## Reading an argument -/

/-- A flag is what the word becomes when its letters are made small. -/
theorem isFlag_iff {text : String} {flag : Bool} :
    IsFlag text flag ↔ text.map Char.toLower = if flag then "true" else "false" := by
  rw [IsFlag, ← map_toLower_eq_iff (by cases flag <;> simp), ← String.toList_map, String.toList_inj]

theorem marked_not_date {rest : List Char} : '%' :: rest ∉ dateText := by
  have hmarker : isDecimalDigit '%' = false := by decide +kernel
  rw [← isDateText_iff]
  simp [isDateText, dropDigits?, hmarker]

/-- A date is what is left behind the marker, when that has the shape of one. -/
theorem isDate_iff {text date : String} :
    IsDate text date ↔ isDateText (dateChars text) = true ∧ String.ofList (dateChars text) = date := by
  rw [IsDate, isDateText_iff, ← String.toList_inj, String.toList_ofList]
  unfold dateChars
  split
  · rename_i rest htext
    rw [htext, List.cons.injEq]
    constructor
    · rintro ⟨hdate, hmarked | ⟨-, rfl⟩⟩
      · exact absurd (hmarked ▸ hdate) marked_not_date
      · exact ⟨hdate, rfl⟩
    · rintro ⟨hdate, rfl⟩
      exact ⟨hdate, .inr ⟨rfl, rfl⟩⟩
  · rename_i hnot
    constructor
    · rintro ⟨hdate, hsame | hmarked⟩
      · exact ⟨hsame ▸ hdate, hsame⟩
      · exact absurd hmarked (hnot _)
    · rintro ⟨hdate, hsame⟩
      exact ⟨hsame ▸ hdate, .inl hsame⟩

namespace Source.MilestoningClause

variable {clause : MilestoningClause}

theorem gives_content_iff {key value : String} : clause.content.Gives key value ↔
    ∃ argument ∈ clause.arguments, argument.key.value = key ∧ argument.value.value = value := by
  simp [ClauseContent.Gives, content]

theorem has_content_iff {key : String} :
    clause.content.Has key ↔ ∃ argument ∈ clause.arguments, argument.key.value = key := by
  simp [ClauseContent.Has, gives_content_iff]

/-- What is checked from some argument on: those before it are not to be repeated. -/
theorem checkArguments_eq_ok_iff {allowed before : List String} {arguments : List MilestoningArgument} :
    clause.checkArguments allowed before arguments = .ok () ↔
      (∀ argument ∈ arguments, argument.key.value ∈ allowed ∧ argument.key.value ∉ before) ∧
        (arguments.map (·.key.value)).Nodup := by
  induction arguments generalizing before with
  | nil => simp [checkArguments]
  | cons argument rest ih =>
    unfold checkArguments
    dsimp only
    split
    · simp_all
    · split
      · simp_all
      · rw [ih]
        simp only [List.mem_cons, not_or, List.map_cons, List.nodup_cons, List.mem_map]
        grind

theorem checkArguments_iff {allowed : List String} :
    clause.checkArguments allowed [] clause.arguments = .ok () ↔ clause.content.Allows allowed := by
  have hkeys : clause.content.arguments.map Prod.fst = (clause.arguments.map (·.key.value) : List String) := by
    simp [content, Function.comp_def]
  rw [checkArguments_eq_ok_iff]
  constructor
  · rintro ⟨hknown, honce⟩
    refine ⟨fun key hkey => ?_, by rwa [hkeys, Multiset.coe_nodup]⟩
    obtain ⟨argument, hargument, rfl⟩ := has_content_iff.1 hkey
    exact (hknown argument hargument).1
  · rintro ⟨hknown, honce⟩
    refine ⟨fun argument hargument => ⟨?_, List.not_mem_nil⟩, by rwa [hkeys, Multiset.coe_nodup] at honce⟩
    exact hknown _ (has_content_iff.2 ⟨argument, hargument, rfl⟩)

theorem argument?_eq_none_iff {key : String} : clause.argument? key = none ↔ ¬ clause.content.Has key := by
  simp [argument?, has_content_iff]

section Allows

variable {allowed : List String} (h : clause.content.Allows allowed)
include h

/-- The value of an argument is what stands there. -/
theorem gives_iff {key value : String} :
    clause.content.Gives key value ↔ ∃ name, clause.argument? key = some name ∧ name.value = value := by
  have honce : (clause.arguments.map (·.key.value)).Nodup := (checkArguments_eq_ok_iff.1 (checkArguments_iff.2 h)).2
  simp only [argument?, Option.map_eq_some_iff, find?_eq_some_iff_of_nodup honce, gives_content_iff]
  grind

theorem requiredArgument_eq_ok_iff {key value : String} :
    clause.requiredArgument key = .ok value ↔ clause.content.Gives key value := by
  rw [gives_iff h, requiredArgument]
  cases clause.argument? key <;> simp

theorem flag_eq_ok_iff {key : String} {flag : Bool} :
    clause.flag key = .ok flag ↔ clause.content.GivesFlag key flag := by
  rw [ClauseContent.GivesFlag, ← argument?_eq_none_iff, MilestoningClause.flag]
  simp only [gives_iff h, isFlag_iff]
  cases clause.argument? key with
  | none => simp [eq_comm]
  | some name =>
    simp only [Option.some.injEq, exists_eq_left', reduceCtorEq, false_and, or_false]
    split
    · rename_i htrue
      cases flag <;> simp [htrue]
    · rename_i hnot
      split
      · rename_i hfalse
        cases flag <;> simp [hfalse]
      · rename_i hneither
        cases flag <;> simp [hnot, hneither]

theorem infinity_eq_ok_iff {date : Option String} :
    clause.infinity = .ok date ↔ clause.content.GivesInfinity date := by
  rw [MilestoningClause.infinity]
  cases date with
  | none =>
    rw [ClauseContent.GivesInfinity, ← argument?_eq_none_iff]
    cases clause.argument? infinityDate with
    | none => simp
    | some name => simp [apply_ite (· = Except.ok none)]
  | some date =>
    simp only [ClauseContent.GivesInfinity, gives_iff h, isDate_iff]
    cases clause.argument? infinityDate with
    | none => simp
    | some name => simp [apply_ite (· = Except.ok (some date))]

end Allows

/-! ## Reading a clause -/

theorem business_eq_ok_iff {x : BusinessMilestoning ⊕ BusinessSnapshotMilestoning}
    (hkeyword : clause.keyword.value = businessKeyword) :
    clause.business = .ok x ↔ Sum.elim clause.content.GivesRange clause.content.GivesSnapshot x := by
  rw [MilestoningClause.business]
  simp only [bind_eq_ok_iff]
  constructor
  · rintro ⟨⟨⟩, hchecked, infinity, hinfinity, h⟩
    have hallows := checkArguments_iff.1 hchecked
    rw [infinity_eq_ok_iff hallows] at hinfinity
    split at h
    · rename_i snapshot hsnapshot
      split at h
      · exact absurd h (found_ne_ok _ _ _)
      · rename_i hrange
        obtain rfl := pure_eq_ok_iff.1 h
        refine ⟨hkeyword, hallows, fun key hkey => ?_, (gives_iff hallows).2 ⟨snapshot, hsnapshot, rfl⟩, hinfinity⟩
        rw [← argument?_eq_none_iff, ← Option.not_isSome_iff_eq_none]
        exact fun hsome => hrange (List.any_eq_true.2 ⟨key, hkey, hsome⟩)
    · rename_i hsnapshot
      simp only [bind_eq_ok_iff, pure_eq_ok_iff] at h
      obtain ⟨fromColumn, hfrom, thruColumn, hthru, inclusive, hinclusive, rfl⟩ := h
      exact ⟨hkeyword, hallows, argument?_eq_none_iff.1 hsnapshot, (requiredArgument_eq_ok_iff hallows).1 hfrom,
        (requiredArgument_eq_ok_iff hallows).1 hthru, (flag_eq_ok_iff hallows).1 hinclusive, hinfinity⟩
  · intro h
    cases x with
    | inl b =>
      obtain ⟨-, hallows, hsnapshot, hfrom, hthru, hinclusive, hinfinity⟩ := h
      refine ⟨(), checkArguments_iff.2 hallows, _, (infinity_eq_ok_iff hallows).2 hinfinity, ?_⟩
      rw [argument?_eq_none_iff.2 hsnapshot]
      simp only [bind_eq_ok_iff]
      exact ⟨_, (requiredArgument_eq_ok_iff hallows).2 hfrom, _, (requiredArgument_eq_ok_iff hallows).2 hthru,
        _, (flag_eq_ok_iff hallows).2 hinclusive, rfl⟩
    | inr s =>
      obtain ⟨-, hallows, hrange, hdate, hinfinity⟩ := h
      obtain ⟨snapshot, hsnapshot, hvalue⟩ := (gives_iff hallows).1 hdate
      refine ⟨(), checkArguments_iff.2 hallows, _, (infinity_eq_ok_iff hallows).2 hinfinity, ?_⟩
      have hnone : ([busFrom, busThru, thruIsInclusive].any fun key => (clause.argument? key).isSome) ≠ true := by
        rw [Ne, List.any_eq_true]
        rintro ⟨key, hkey, hsome⟩
        rw [argument?_eq_none_iff.2 (hrange key hkey)] at hsome
        cases hsome
      simp only [hsnapshot]
      rw [if_neg hnone, hvalue]
      rfl

theorem processing_eq_ok_iff {p : ProcessingMilestoning} (hkeyword : clause.keyword.value = processingKeyword) :
    clause.processing = .ok p ↔ clause.content.GivesProcessing p := by
  rw [MilestoningClause.processing]
  simp only [bind_eq_ok_iff, pure_eq_ok_iff]
  constructor
  · rintro ⟨⟨⟩, hchecked, inColumn, hin, outColumn, hout, inclusive, hinclusive, infinity, hinfinity, rfl⟩
    have hallows := checkArguments_iff.1 hchecked
    exact ⟨hkeyword, hallows, (requiredArgument_eq_ok_iff hallows).1 hin, (requiredArgument_eq_ok_iff hallows).1 hout,
      (flag_eq_ok_iff hallows).1 hinclusive, (infinity_eq_ok_iff hallows).1 hinfinity⟩
  · rintro ⟨-, hallows, hin, hout, hinclusive, hinfinity⟩
    exact ⟨(), checkArguments_iff.2 hallows, _, (requiredArgument_eq_ok_iff hallows).2 hin,
      _, (requiredArgument_eq_ok_iff hallows).2 hout, _, (flag_eq_ok_iff hallows).2 hinclusive,
      _, (infinity_eq_ok_iff hallows).2 hinfinity, rfl⟩

end Source.MilestoningClause

/-! ## Reading the clauses -/

namespace Milestoning

/-- What the clauses of one keyword put where there is room for one of them. -/
inductive Fills {α : Type} (R : Source.MilestoningClause → α → Prop) :
    Option α → List Source.MilestoningClause → Option α → Prop
  | nothing {slot : Option α} : Fills R slot [] slot
  | one {clause : Source.MilestoningClause} {a : α} : R clause a → Fills R none [clause] (some a)

section Fills

variable {α : Type} {R : Source.MilestoningClause → α → Prop} {slot slot' : Option α}
  {clause : Source.MilestoningClause} {clauses : List Source.MilestoningClause}

@[simp]
theorem fills_nil_iff : Fills R slot [] slot' ↔ slot' = slot := by
  constructor
  · rintro ⟨⟩
    rfl
  · rintro rfl
    exact .nothing

theorem fills_cons_iff : Fills R slot (clause :: clauses) slot' ↔
    slot = none ∧ ∃ a, R clause a ∧ Fills R (some a) clauses slot' := by
  constructor
  · rintro ⟨⟩
    exact ⟨rfl, _, ‹_›, .nothing⟩
  · rintro ⟨rfl, a, ha, ⟨⟩⟩
    exact .one ha

end Fills

/-- One more clause is read when its keyword is known and has room for it. -/
theorem add_eq_ok_iff {read read' : ReadClauses} {clause : Source.MilestoningClause} :
    read.add clause = .ok read' ↔
      (clause.keyword.value = businessKeyword ∧ read.business = none ∧
        ∃ x, Sum.elim clause.content.GivesRange clause.content.GivesSnapshot x ∧
          { read with business := some x } = read') ∨
      (clause.keyword.value = processingKeyword ∧ read.processing = none ∧
        ∃ p, clause.content.GivesProcessing p ∧ { read with processing := some (p, clause.span) } = read') := by
  have hne : businessKeyword ≠ processingKeyword := by decide
  rw [ReadClauses.add]
  split
  · rename_i hkeyword
    simp only [hkeyword, hne, true_and, false_and, or_false, ← Source.MilestoningClause.business_eq_ok_iff hkeyword]
    cases read.business with
    | none => simp only [Option.isSome_none, Bool.false_eq_true, if_false, bind_eq_ok_iff, pure_eq_ok_iff, true_and]
    | some x => simp
  · rename_i hnot
    simp only [hnot, false_and, false_or]
    split
    · rename_i hkeyword
      simp only [hkeyword, true_and, ← Source.MilestoningClause.processing_eq_ok_iff hkeyword]
      cases read.processing with
      | none => simp only [Option.isSome_none, Bool.false_eq_true, if_false, bind_eq_ok_iff, pure_eq_ok_iff, true_and]
      | some x => simp
    · rename_i hneither
      simp [hneither]

/-- Reading goes through if and only if all keywords are known and each finds room for its clauses. -/
theorem foldlM_add_eq_ok_iff {clauses : List Source.MilestoningClause} {read read' : ReadClauses} :
    clauses.foldlM ReadClauses.add read = .ok read' ↔
      (∀ clause ∈ clauses, clause.keyword.value = businessKeyword ∨ clause.keyword.value = processingKeyword) ∧
      Fills (fun clause x => Sum.elim clause.content.GivesRange clause.content.GivesSnapshot x) read.business
        (clauses.filter (·.keyword.value = businessKeyword)) read'.business ∧
      Fills (fun clause x => clause.content.GivesProcessing x.1 ∧ x.2 = clause.span) read.processing
        (clauses.filter (·.keyword.value = processingKeyword)) read'.processing := by
  have hne : businessKeyword ≠ processingKeyword := by decide
  induction clauses generalizing read with
  | nil =>
    cases read
    cases read'
    simp [pure_eq_ok_iff, eq_comm]
  | cons clause rest ih =>
    rw [List.foldlM_cons, bind_eq_ok_iff, List.forall_mem_cons]
    simp only [add_eq_ok_iff, ih]
    constructor
    · rintro ⟨_, ⟨hkeyword, hroom, x, hx, rfl⟩ | ⟨hkeyword, hroom, p, hp, rfl⟩, hrest, hbusiness, hprocessing⟩
      · rw [List.filter_cons_of_pos (by simpa using hkeyword), List.filter_cons_of_neg (by simp [hkeyword, hne])]
        exact ⟨⟨.inl hkeyword, hrest⟩, fills_cons_iff.2 ⟨hroom, x, hx, hbusiness⟩, hprocessing⟩
      · rw [List.filter_cons_of_neg (by simp [hkeyword, hne.symm]), List.filter_cons_of_pos (by simpa using hkeyword)]
        exact ⟨⟨.inr hkeyword, hrest⟩, hbusiness, fills_cons_iff.2 ⟨hroom, (p, _), ⟨hp, rfl⟩, hprocessing⟩⟩
    · rintro ⟨⟨hkeyword | hkeyword, hrest⟩, hbusiness, hprocessing⟩
      · rw [List.filter_cons_of_pos (by simpa using hkeyword), fills_cons_iff] at hbusiness
        rw [List.filter_cons_of_neg (by simp [hkeyword, hne])] at hprocessing
        obtain ⟨hroom, x, hx, hbusiness⟩ := hbusiness
        exact ⟨_, .inl ⟨hkeyword, hroom, x, hx, rfl⟩, hrest, hbusiness, hprocessing⟩
      · rw [List.filter_cons_of_neg (by simp [hkeyword, hne.symm])] at hbusiness
        rw [List.filter_cons_of_pos (by simpa using hkeyword), fills_cons_iff] at hprocessing
        obtain ⟨hroom, ⟨p, span⟩, ⟨hp, hspan⟩, hprocessing⟩ := hprocessing
        obtain rfl : span = clause.span := hspan
        exact ⟨_, .inr ⟨hkeyword, hroom, p, hp, rfl⟩, hrest, hbusiness, hprocessing⟩

theorem contents_eq_zero_iff {clauses : List Source.MilestoningClause} : contents clauses = 0 ↔ clauses = [] := by
  rw [contents, Multiset.coe_eq_zero, List.map_eq_nil_iff]

/-- The clauses of one keyword are told by what they say. -/
theorem contents_filter (clauses : List Source.MilestoningClause) (keyword : String) :
    contents (clauses.filter (·.keyword.value = keyword)) = (contents clauses).filter (·.keyword = keyword) := by
  rw [contents, contents, Multiset.filter_coe, List.filter_map]
  rfl

theorem filter_eq_nil {clauses : List Source.MilestoningClause} {keyword : String}
    (h : ∀ c ∈ contents clauses, c.keyword ≠ keyword) : clauses.filter (·.keyword.value = keyword) = [] := by
  rwa [← contents_eq_zero_iff, contents_filter, Multiset.filter_eq_nil]

/-- The only clause of a keyword is found by it. -/
theorem filter_eq_singleton {clauses : List Source.MilestoningClause} {keyword : String} {c : ClauseContent}
    {others : Multiset ClauseContent} (h : contents clauses = c ::ₘ others) (hc : c.keyword = keyword)
    (hothers : ∀ d ∈ others, d.keyword ≠ keyword) :
    ∃ clause, clauses.filter (·.keyword.value = keyword) = [clause] ∧ clause.content = c := by
  rw [← List.map_eq_singleton_iff, ← Multiset.coe_eq_singleton]
  calc contents (clauses.filter (·.keyword.value = keyword))
    _ = (c ::ₘ others).filter (·.keyword = keyword) := by rw [contents_filter, h]
    _ = {c} := by simp [Multiset.filter_cons_of_pos, hc, Multiset.filter_eq_nil.2 hothers]

theorem known_keywords_iff {clauses : List Source.MilestoningClause} :
    (∀ clause ∈ clauses, clause.keyword.value = businessKeyword ∨ clause.keyword.value = processingKeyword) ↔
      ∀ c ∈ contents clauses, c.keyword = businessKeyword ∨ c.keyword = processingKeyword := by
  simp [contents, Source.MilestoningClause.content]

theorem denotes_of_read {clauses : List Source.MilestoningClause} {m? : Option Milestoning}
    (h : clauses.foldlM ReadClauses.add {} >>= ReadClauses.combine = .ok m?) :
    (clauses = [] ∧ m? = none) ∨ ∃ m, Denotes (contents clauses) m ∧ m? = some m := by
  obtain ⟨⟨business, processing⟩, hfold, hcombine⟩ := bind_eq_ok_iff.1 h
  obtain ⟨hkeywords, hbusiness, hprocessing⟩ := foldlM_add_eq_ok_iff.1 hfold
  have hall := filter_add_filter (known_keywords_iff.1 hkeywords)
  rw [← contents_filter, ← contents_filter] at hall
  rw [← contents_eq_zero_iff, ← hall]
  clear hall
  generalize clauses.filter (·.keyword.value = businessKeyword) = ofBusiness at hbusiness ⊢
  generalize clauses.filter (·.keyword.value = processingKeyword) = ofProcessing at hprocessing ⊢
  dsimp only at hbusiness hprocessing
  cases hbusiness with
  | nothing =>
    cases hprocessing with
    | nothing => exact .inl ⟨rfl, (Except.ok.inj hcombine).symm⟩
    | one hp => exact .inr ⟨_, .processing hp.1, (Except.ok.inj hcombine).symm⟩
  | @one _ x hx =>
    cases hprocessing with
    | nothing =>
      cases x with
      | inl b => exact .inr ⟨_, .business hx, (Except.ok.inj hcombine).symm⟩
      | inr s => exact .inr ⟨_, .businessSnapshot hx, (Except.ok.inj hcombine).symm⟩
    | one hp =>
      cases x with
      | inl b => exact .inr ⟨_, .bitemporal hx hp.1, (Except.ok.inj hcombine).symm⟩
      | inr s => exact absurd hcombine (found_ne_ok _ _ _)

theorem read_of_denotes {clauses : List Source.MilestoningClause} {m : Milestoning}
    (h : Denotes (contents clauses) m) :
    clauses.foldlM ReadClauses.add {} >>= ReadClauses.combine = .ok (some m) := by
  have hne : businessKeyword ≠ processingKeyword := by decide
  have hkeywords := known_keywords_iff.2 h.keyword
  rw [bind_eq_ok_iff]
  -- the clauses of each keyword are found among all, wherever they stand
  generalize hall : contents clauses = all at h
  cases h with
  | @business _ b hrange =>
    obtain ⟨clause, hone, rfl⟩ := filter_eq_singleton hall hrange.keyword (by simp)
    have hnone : clauses.filter (·.keyword.value = processingKeyword) = [] :=
      filter_eq_nil (by simp [hall, hrange.keyword, hne])
    exact ⟨⟨some (.inl b), none⟩, foldlM_add_eq_ok_iff.2 ⟨hkeywords, hone ▸ .one hrange, hnone ▸ .nothing⟩, rfl⟩
  | @businessSnapshot _ s hsnapshot =>
    obtain ⟨clause, hone, rfl⟩ := filter_eq_singleton hall hsnapshot.keyword (by simp)
    have hnone : clauses.filter (·.keyword.value = processingKeyword) = [] :=
      filter_eq_nil (by simp [hall, hsnapshot.keyword, hne])
    exact ⟨⟨some (.inr s), none⟩, foldlM_add_eq_ok_iff.2 ⟨hkeywords, hone ▸ .one hsnapshot, hnone ▸ .nothing⟩, rfl⟩
  | @processing _ p hprocessing =>
    obtain ⟨clause, hone, rfl⟩ := filter_eq_singleton hall hprocessing.keyword (by simp)
    have hnone : clauses.filter (·.keyword.value = businessKeyword) = [] :=
      filter_eq_nil (by simp [hall, hprocessing.keyword, hne.symm])
    exact ⟨⟨none, some (p, clause.span)⟩,
      foldlM_add_eq_ok_iff.2 ⟨hkeywords, hnone ▸ .nothing, hone ▸ .one ⟨hprocessing, rfl⟩⟩, rfl⟩
  | @bitemporal c d p b hrange hprocessing =>
    obtain ⟨clause, hone, rfl⟩ := filter_eq_singleton hall hrange.keyword (by simp [hprocessing.keyword, hne.symm])
    obtain ⟨other, hother, rfl⟩ :=
      filter_eq_singleton (hall.trans (Multiset.pair_comm _ _)) hprocessing.keyword (by simp [hrange.keyword, hne])
    exact ⟨⟨some (.inl b), some (p, other.span)⟩,
      foldlM_add_eq_ok_iff.2 ⟨hkeywords, hone ▸ .one hrange, hother ▸ .one ⟨hprocessing, rfl⟩⟩, rfl⟩

end Milestoning

/-! ## What reading fails with -/

namespace Source.MilestoningClause

variable (clause : MilestoningClause)

theorem failsWith_checkArguments (allowed before : List String) (arguments : List MilestoningArgument) :
    FailsWith (·.kind = .parse) (clause.checkArguments allowed before arguments) := by
  induction arguments generalizing before with
  | nil => exact failsWith_ok ()
  | cons argument rest ih =>
    unfold checkArguments
    dsimp only
    split
    · exact failsWith_found_iff.2 rfl
    · split
      · exact failsWith_found_iff.2 rfl
      · exact ih _

theorem failsWith_requiredArgument (key : String) :
    FailsWith (·.kind = .parse) (clause.requiredArgument key) := by
  unfold requiredArgument
  split
  · exact failsWith_ok _
  · exact failsWith_found_iff.2 rfl

theorem failsWith_flag (key : String) : FailsWith (·.kind = .parse) (clause.flag key) := by
  unfold MilestoningClause.flag
  split
  · exact failsWith_ok false
  · dsimp only
    split
    · exact failsWith_ok true
    · split
      · exact failsWith_ok false
      · exact failsWith_found_iff.2 rfl

theorem failsWith_infinity : FailsWith (·.kind = .parse) clause.infinity := by
  unfold MilestoningClause.infinity
  split
  · exact failsWith_ok none
  · dsimp only
    split
    · exact failsWith_ok _
    · exact failsWith_found_iff.2 rfl

theorem failsWith_business : FailsWith (·.kind = .parse) clause.business := by
  unfold MilestoningClause.business
  refine (clause.failsWith_checkArguments _ _ _).bind fun _ => clause.failsWith_infinity.bind fun infinity => ?_
  split
  · split
    · exact failsWith_found_iff.2 rfl
    · exact failsWith_pure _
  · refine (clause.failsWith_requiredArgument _).bind fun start => ?_
    refine (clause.failsWith_requiredArgument _).bind fun thru => ?_
    exact (clause.failsWith_flag _).bind fun inclusive => failsWith_pure _

theorem failsWith_processing : FailsWith (·.kind = .parse) clause.processing := by
  unfold MilestoningClause.processing
  refine (clause.failsWith_checkArguments _ _ _).bind fun _ => ?_
  refine (clause.failsWith_requiredArgument _).bind fun inColumn => ?_
  refine (clause.failsWith_requiredArgument _).bind fun outColumn => ?_
  exact (clause.failsWith_flag _).bind fun inclusive => clause.failsWith_infinity.bind fun _ => failsWith_pure _

end Source.MilestoningClause

namespace Milestoning

theorem failsWith_add (read : ReadClauses) (clause : Source.MilestoningClause) :
    FailsWith (·.kind = .parse) (read.add clause) := by
  unfold ReadClauses.add
  dsimp only
  split
  · split
    · exact failsWith_found_iff.2 rfl
    · exact clause.failsWith_business.bind fun x => failsWith_pure _
  · split
    · split
      · exact failsWith_found_iff.2 rfl
      · exact clause.failsWith_processing.bind fun p => failsWith_pure _
    · exact failsWith_found_iff.2 rfl

theorem failsWith_combine (read : ReadClauses) : FailsWith (·.kind = .parse) read.combine := by
  unfold ReadClauses.combine
  split
  all_goals first | exact failsWith_ok _ | exact failsWith_found_iff.2 rfl

/-- Where clauses cannot be read, they are malformed text. -/
theorem failsWith_read (clauses : List Source.MilestoningClause) :
    FailsWith (·.kind = .parse) (clauses.foldlM ReadClauses.add {} >>= ReadClauses.combine) :=
  (FailsWith.foldlM failsWith_add clauses {}).bind failsWith_combine

/-- Where the columns do not fit, the text is not malformed. -/
theorem failsWith_checkColumnsExist (table : String) (clauses : List Source.MilestoningClause)
    (columns : List (String × DataType)) (names : List String) :
    FailsWith (·.kind = .compilation) (checkColumnsExist table clauses columns names) := by
  induction names with
  | nil => exact failsWith_ok ()
  | cons name rest ih =>
    unfold checkColumnsExist
    split
    · exact ih
    · exact failsWith_found_iff.2 rfl

theorem failsWith_checkSnapshotType (table : String) (clauses : List Source.MilestoningClause)
    (columns : List (String × DataType)) (m : Milestoning) :
    FailsWith (·.kind = .compilation) (checkSnapshotType table clauses columns m) := by
  unfold checkSnapshotType
  split
  · exact failsWith_ok ()
  · split
    · exact failsWith_ok ()
    · split
      · exact failsWith_ok ()
      · exact failsWith_found_iff.2 rfl

theorem checkColumnsExist_eq_ok_iff {table : String} {clauses : List Source.MilestoningClause}
    {columns : List (String × DataType)} {names : List String} :
    checkColumnsExist table clauses columns names = .ok () ↔ ∀ name ∈ names, ∃ column ∈ columns, column.1 = name := by
  induction names with
  | nil => simp [checkColumnsExist]
  | cons name rest ih =>
    unfold checkColumnsExist
    split
    · rename_i hexists
      rw [ih, List.forall_mem_cons, and_iff_right (by simpa using hexists)]
    · rename_i hmissing
      simp only [found_ne_ok, List.forall_mem_cons, false_iff, not_and]
      exact fun hexists => absurd (by simpa using hexists) hmissing

theorem checkSnapshotType_eq_ok_iff {table : String} {clauses : List Source.MilestoningClause}
    {columns : List (String × DataType)} {m : Milestoning}
    (h : ∀ name ∈ m.columns, ∃ column ∈ columns, column.1 = name) :
    checkSnapshotType table clauses columns m = .ok () ↔
      ∀ snapshot, m.snapshot? = some snapshot → columns.lookup snapshot.snapshotDateColumn = some .date := by
  cases m with
  | businessSnapshot snapshot =>
    obtain ⟨column, hcolumn, hname⟩ := h snapshot.snapshotDateColumn List.mem_cons_self
    have hsome : (columns.lookup snapshot.snapshotDateColumn).isSome := by
      rw [List.lookup_isSome_iff]
      exact ⟨column, hcolumn, by simp [hname]⟩
    obtain ⟨type, htype⟩ := Option.isSome_iff_exists.1 hsome
    simp [checkSnapshotType, snapshot?, htype, DataType.isDate]
  | _ => simp [checkSnapshotType, snapshot?]

/-! ## The milestoning of a table -/

section OfClauses

variable {table : String} {clauses : List Source.MilestoningClause} {columns : List (String × DataType)}

/-- What is checked of the columns once the clauses are read. -/
theorem checks_eq_ok_iff {m : Milestoning} {m? : Option Milestoning} :
    (do
      checkColumnsExist table clauses columns m.columns
      checkSnapshotType table clauses columns m
      return some m : Resolved (Option Milestoning)) = .ok m? ↔
      ((∀ name ∈ m.columns, ∃ column ∈ columns, column.1 = name) ∧
        ∀ snapshot, m.snapshot? = some snapshot → columns.lookup snapshot.snapshotDateColumn = some .date) ∧
      some m = m? := by
  simp only [bind_eq_ok_iff, pure_eq_ok_iff]
  constructor
  · rintro ⟨⟨⟩, hexist, ⟨⟩, htype, hm⟩
    rw [checkColumnsExist_eq_ok_iff] at hexist
    exact ⟨⟨hexist, (checkSnapshotType_eq_ok_iff hexist).1 htype⟩, hm⟩
  · rintro ⟨⟨hexist, htype⟩, hm⟩
    exact ⟨(), checkColumnsExist_eq_ok_iff.2 hexist, (), (checkSnapshotType_eq_ok_iff hexist).2 htype, hm⟩

/-- The clauses are read before their columns are checked. -/
theorem ofClauses?_eq : ofClauses? table clauses columns =
    (clauses.foldlM ReadClauses.add {} >>= ReadClauses.combine) >>= fun read => match read with
      | none => pure none
      | some m => do
        checkColumnsExist table clauses columns m.columns
        checkSnapshotType table clauses columns m
        return some m := by
  rw [bind_assoc]
  rfl

theorem ofClauses?_eq_none_iff : ofClauses? table clauses columns = .ok none ↔ clauses = [] := by
  rw [ofClauses?_eq, bind_eq_ok_iff]
  constructor
  · rintro ⟨_ | m, hread, hchecked⟩
    · rcases denotes_of_read hread with ⟨hempty, -⟩ | ⟨m, -, hm⟩
      · exact hempty
      · cases hm
    · cases (checks_eq_ok_iff.1 hchecked).2
  · rintro rfl
    exact ⟨none, rfl, rfl⟩

/-- The milestoning of a table is what its clauses stand for, when they name its columns. -/
theorem ofClauses?_eq_some_iff {m : Milestoning} : ofClauses? table clauses columns = .ok (some m) ↔
    Denotes (contents clauses) m ∧ NamesColumns (contents clauses) columns := by
  rw [ofClauses?_eq, bind_eq_ok_iff]
  constructor
  · rintro ⟨_ | m', hread, hchecked⟩
    · cases hchecked
    · obtain ⟨hcolumns, hm'⟩ := checks_eq_ok_iff.1 hchecked
      obtain rfl := Option.some.inj hm'
      rcases denotes_of_read hread with ⟨-, hnone⟩ | ⟨m, hm, hread⟩
      · cases hnone
      · obtain rfl := Option.some.inj hread
        exact ⟨hm, hm.namesColumns_iff.2 hcolumns⟩
  · rintro ⟨hm, hcolumns⟩
    exact ⟨some m, read_of_denotes hm, checks_eq_ok_iff.2 ⟨hm.namesColumns_iff.1 hcolumns, rfl⟩⟩

/-- What is accepted does not depend on how clauses and their arguments are listed. -/
theorem ofClauses?_eq_ok_iff_of_contents {clauses' : List Source.MilestoningClause}
    (h : contents clauses' = contents clauses) {m? : Option Milestoning} :
    ofClauses? table clauses' columns = .ok m? ↔ ofClauses? table clauses columns = .ok m? := by
  cases m? with
  | none => rw [ofClauses?_eq_none_iff, ofClauses?_eq_none_iff, ← contents_eq_zero_iff, ← contents_eq_zero_iff, h]
  | some m => rw [ofClauses?_eq_some_iff, ofClauses?_eq_some_iff, h]

/-- Clauses that fail are malformed text if and only if they are not well-formed. -/
theorem kind_eq_parse_iff {failure : Failure} (h : ofClauses? table clauses columns = .error failure) :
    failure.diagnostic.kind = .parse ↔ ¬ WellFormed (contents clauses) := by
  rw [ofClauses?_eq] at h
  cases hread : clauses.foldlM ReadClauses.add {} >>= ReadClauses.combine with
  | error found =>
    obtain rfl : found = failure := by rw [hread] at h; exact Except.error.inj h
    refine iff_of_true (failsWith_read clauses _ hread) fun hwell => ?_
    rcases wellFormed_iff.1 hwell with hempty | ⟨m, hm⟩
    · rw [contents_eq_zero_iff.1 hempty] at hread
      cases hread
    · rw [read_of_denotes hm] at hread
      cases hread
  | ok m? =>
    rw [hread] at h
    have hkind : failure.fault.kind = .compilation := by
      cases m? with
      | none => cases h
      | some m =>
        refine FailsWith.bind (failsWith_checkColumnsExist table clauses columns m.columns) (fun _ => ?_) failure h
        exact (failsWith_checkSnapshotType table clauses columns m).bind fun _ => failsWith_pure _
    have hwell : WellFormed (contents clauses) := by
      rw [wellFormed_iff, contents_eq_zero_iff]
      exact (denotes_of_read hread).imp And.left fun ⟨m, hm, _⟩ => ⟨m, hm⟩
    refine iff_of_false (fun hparse => ?_) (not_not_intro hwell)
    cases hkind.symm.trans hparse

end OfClauses

/-- There is no milestoning exactly when there are no clauses, and there is one exactly when the clauses are
well-formed and name columns. It is what the clauses stand for, in whatever order they and their arguments come.
What fails is malformed text exactly when the clauses are not well-formed. -/
theorem milestoning_exact (table : String) (clauses : List Source.MilestoningClause)
    (columns : List (String × DataType)) :
    (ofClauses? table clauses columns = .ok none ↔ clauses = []) ∧
    ((∃ m, ofClauses? table clauses columns = .ok (some m)) ↔
      clauses ≠ [] ∧ WellFormed (contents clauses) ∧ NamesColumns (contents clauses) columns) ∧
    (∀ m, ofClauses? table clauses columns = .ok (some m) ↔
      Denotes (contents clauses) m ∧ NamesColumns (contents clauses) columns) ∧
    (∀ clauses', contents clauses' = contents clauses → ∀ m?,
      ofClauses? table clauses' columns = .ok m? ↔ ofClauses? table clauses columns = .ok m?) ∧
    ∀ failure, ofClauses? table clauses columns = .error failure →
      (failure.diagnostic.kind = .parse ↔ ¬ WellFormed (contents clauses)) := by
  refine ⟨ofClauses?_eq_none_iff, ?_, fun m => ofClauses?_eq_some_iff,
    fun clauses' h m? => ofClauses?_eq_ok_iff_of_contents h, fun failure => kind_eq_parse_iff⟩
  simp only [ofClauses?_eq_some_iff, exists_and_right]
  constructor
  · rintro ⟨⟨m, hm⟩, hcolumns⟩
    exact ⟨fun hnone => hm.ne_zero (contents_eq_zero_iff.2 hnone), hm.wellFormed, hcolumns⟩
  · rintro ⟨hsome, hwell, hcolumns⟩
    exact ⟨(wellFormed_iff.1 hwell).resolve_left fun hzero => hsome (contents_eq_zero_iff.1 hzero), hcolumns⟩

/-- A business clause and a processing clause. -/
def bitemporalClauses : List Source.MilestoningClause :=
  [{ keyword := ⟨"business", {}⟩
     arguments :=
      [⟨⟨"BUS_FROM", {}⟩, ⟨"from_z", {}⟩⟩, ⟨⟨"BUS_THRU", {}⟩, ⟨"thru_z", {}⟩⟩,
        ⟨⟨"INFINITY_DATE", {}⟩, ⟨"%9999-12-31", {}⟩⟩] },
   { keyword := ⟨"processing", {}⟩
     arguments :=
      [⟨⟨"PROCESSING_IN", {}⟩, ⟨"in_z", {}⟩⟩, ⟨⟨"PROCESSING_OUT", {}⟩, ⟨"out_z", {}⟩⟩,
        ⟨⟨"OUT_IS_INCLUSIVE", {}⟩, ⟨"True", {}⟩⟩] }]

/-- The columns that these clauses name. -/
def bitemporalColumns : List (String × DataType) :=
  [("from_z", .date), ("thru_z", .date), ("in_z", .timestamp), ("out_z", .timestamp)]

/-- What these clauses stand for. -/
def bitemporalMilestoning : Milestoning :=
  .bitemporal ⟨"in_z", "out_z", true, none⟩ ⟨"from_z", "thru_z", false, some "9999-12-31"⟩

/-- The clauses and their arguments are read in either order; the same clause twice is malformed. -/
theorem milestoning_exact_of_bitemporal :
    Denotes (contents bitemporalClauses) bitemporalMilestoning ∧
    ofClauses? "t" (bitemporalClauses.reverse.map fun c => { c with arguments := c.arguments.reverse })
      bitemporalColumns = .ok (some bitemporalMilestoning) ∧
    ¬ WellFormed (contents (bitemporalClauses ++ bitemporalClauses)) := by
  have hread : ofClauses? "t" bitemporalClauses bitemporalColumns = .ok (some bitemporalMilestoning) := by
    decide +kernel
  obtain ⟨-, -, hdenotes, horder, -⟩ := milestoning_exact "t" bitemporalClauses bitemporalColumns
  refine ⟨((hdenotes _).1 hread).1, (horder _ ?_ _).2 hread, ?_⟩
  · refine (contents_map_of_perm ?_).trans (contents_of_perm (List.reverse_perm bitemporalClauses))
    exact fun clause _ => ⟨rfl, List.reverse_perm clause.arguments⟩
  · obtain ⟨-, -, -, -, hmalformed⟩ := milestoning_exact "t" (bitemporalClauses ++ bitemporalClauses) bitemporalColumns
    exact (hmalformed ⟨.conflictingMilestoning (.repeatedClause "business"), {}⟩ (by decide +kernel)).1 rfl

end Milestoning

end ObjectRelational
