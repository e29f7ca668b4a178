import Mathlib.Data.Multiset.Filter
import ObjectRelational.Proofs.Store.Milestoning.ArgumentText

/-!
# The grammar of milestoning

What clauses mean depends on what they say, and on nothing else: neither on the places where they stand nor on the
order in which they or their arguments come. `ClauseContent` is what is left of a clause, and the clauses of a table
are a multiset of them.

* `Denotes`: what clauses stand for, the values that they give.
* `WellFormed`: the conditions that clauses have to meet, whatever the columns of the table are.
* `wellFormed_iff`: clauses are well-formed if and only if there are none or they stand for something.
* `NamesColumns`: the conditions on the columns. `Denotes.namesColumns_iff` reads them off what clauses stand for.
-/

namespace ObjectRelational

open MilestoningClause

/-! ## What clauses say -/

/-- What a clause says: its keyword, and the values of its arguments. -/
structure ClauseContent where
  keyword : String
  arguments : Multiset (String × String)

/-- What the clause says. -/
def Source.MilestoningClause.content (clause : Source.MilestoningClause) : ClauseContent where
  keyword := clause.keyword.value
  arguments := clause.arguments.map fun argument => (argument.key.value, argument.value.value)

namespace ClauseContent

/-- The clause has the argument, with this value. -/
def Gives (c : ClauseContent) (key value : String) : Prop := (key, value) ∈ c.arguments

/-- The clause has the argument. -/
def Has (c : ClauseContent) (key : String) : Prop := ∃ value, c.Gives key value

/-- The arguments are among the allowed ones, each at most once. -/
structure Allows (c : ClauseContent) (allowed : List String) : Prop where
  known : ∀ key, c.Has key → key ∈ allowed
  once : (c.arguments.map Prod.fst).Nodup

end ClauseContent

/-- The text is the flag, in any letter case. -/
def IsFlag (text : String) (flag : Bool) : Prop :=
  InAnyCase (if flag then "true" else "false").toList text.toList

/-- The text is the date, with or without a marker in front of it. -/
def IsDate (text date : String) : Prop :=
  date.toList ∈ dateText ∧ (text.toList = date.toList ∨ text.toList = '%' :: date.toList)

namespace ClauseContent

variable (c : ClauseContent)

/-- The flag that the clause gives; without the argument it is false. -/
def GivesFlag (key : String) (flag : Bool) : Prop :=
  (∃ text, c.Gives key text ∧ IsFlag text flag) ∨ ¬ c.Has key ∧ flag = false

/-- The date that stands for infinity in the clause, if it gives one. -/
def GivesInfinity : Option String → Prop
  | some date => ∃ text, c.Gives infinityDate text ∧ IsDate text date
  | none => ¬ c.Has infinityDate

/-- A business clause that gives a range of dates. -/
structure GivesRange (b : BusinessMilestoning) : Prop where
  keyword : c.keyword = businessKeyword
  allows : c.Allows businessArguments
  noSnapshot : ¬ c.Has busSnapshotDate
  fromColumn : c.Gives busFrom b.fromColumn
  thruColumn : c.Gives busThru b.thruColumn
  inclusive : c.GivesFlag thruIsInclusive b.thruIsInclusive
  infinity : c.GivesInfinity b.infinityDate

/-- A business clause that gives one day. -/
structure GivesSnapshot (s : BusinessSnapshotMilestoning) : Prop where
  keyword : c.keyword = businessKeyword
  allows : c.Allows businessArguments
  noRange : ∀ key ∈ [busFrom, busThru, thruIsInclusive], ¬ c.Has key
  snapshotDate : c.Gives busSnapshotDate s.snapshotDateColumn
  infinity : c.GivesInfinity s.infinityDate

/-- A processing clause. -/
structure GivesProcessing (p : ProcessingMilestoning) : Prop where
  keyword : c.keyword = processingKeyword
  allows : c.Allows processingArguments
  inColumn : c.Gives processingIn p.inColumn
  outColumn : c.Gives processingOut p.outColumn
  inclusive : c.GivesFlag outIsInclusive p.outIsInclusive
  infinity : c.GivesInfinity p.infinityDate

end ClauseContent

namespace Milestoning

/-- What the clauses of a table say. -/
def contents (clauses : List Source.MilestoningClause) : Multiset ClauseContent :=
  clauses.map Source.MilestoningClause.content

/-- It is the same in whatever order the clauses come. -/
theorem contents_of_perm {clauses clauses' : List Source.MilestoningClause} (h : clauses'.Perm clauses) :
    contents clauses' = contents clauses :=
  Multiset.coe_eq_coe.2 (h.map _)

/-- It is the same in whatever order the arguments of each clause come. -/
theorem contents_map_of_perm {clauses : List Source.MilestoningClause}
    {reorder : Source.MilestoningClause → Source.MilestoningClause}
    (h : ∀ clause ∈ clauses, (reorder clause).keyword = clause.keyword ∧
      (reorder clause).arguments.Perm clause.arguments) :
    contents (clauses.map reorder) = contents clauses := by
  rw [contents, contents, List.map_map]
  congr 1
  refine List.map_congr_left fun clause hclause => ?_
  obtain ⟨hkeyword, harguments⟩ := h clause hclause
  simp only [Function.comp_apply, Source.MilestoningClause.content, hkeyword, ClauseContent.mk.injEq, true_and]
  exact Multiset.coe_eq_coe.2 (harguments.map _)

/-- What clauses stand for: the values that they give. -/
inductive Denotes : Multiset ClauseContent → Milestoning → Prop
  | business {c : ClauseContent} {b : BusinessMilestoning} :
    c.GivesRange b → Denotes {c} (.business b)
  | businessSnapshot {c : ClauseContent} {s : BusinessSnapshotMilestoning} :
    c.GivesSnapshot s → Denotes {c} (.businessSnapshot s)
  | processing {c : ClauseContent} {p : ProcessingMilestoning} :
    c.GivesProcessing p → Denotes {c} (.processing p)
  | bitemporal {c d : ClauseContent} {p : ProcessingMilestoning} {b : BusinessMilestoning} :
    c.GivesRange b → d.GivesProcessing p → Denotes {c, d} (.bitemporal p b)

end Milestoning

/-! ## The conditions of the grammar -/

namespace ClauseContent

/-- The arguments that clauses of a keyword can have. -/
def argumentsOf (keyword : String) : List String :=
  if keyword = businessKeyword then businessArguments else processingArguments

/-- A business clause has either a snapshot date and nothing of a range, or both ends of a range. -/
def SnapshotOrRange (c : ClauseContent) : Prop :=
  (c.Has busSnapshotDate ∧ ¬ c.Has busFrom ∧ ¬ c.Has busThru ∧ ¬ c.Has thruIsInclusive) ∨
    (¬ c.Has busSnapshotDate ∧ c.Has busFrom ∧ c.Has busThru)

/-- The conditions that a clause has to meet by itself. -/
structure WellFormed (c : ClauseContent) : Prop where
  keyword : c.keyword = businessKeyword ∨ c.keyword = processingKeyword
  allows : c.Allows (argumentsOf c.keyword)
  business : c.keyword = businessKeyword → c.SnapshotOrRange
  processing : c.keyword = processingKeyword → c.Has processingIn ∧ c.Has processingOut
  flags : ∀ key ∈ [thruIsInclusive, outIsInclusive], ∀ text, c.Gives key text → ∃ flag, IsFlag text flag
  infinity : ∀ text, c.Gives infinityDate text → ∃ date, IsDate text date

/-- The clause names the column. -/
def Names (c : ClauseContent) (column : String) : Prop :=
  ∃ key ∈ [busFrom, busThru, busSnapshotDate, processingIn, processingOut], c.Gives key column

end ClauseContent

namespace Milestoning

/-- The conditions that clauses have to meet, whatever the columns of the table are. -/
structure WellFormed (clauses : Multiset ClauseContent) : Prop where
  clause : ∀ c ∈ clauses, c.WellFormed
  once : (clauses.map ClauseContent.keyword).Nodup
  snapshotAlone : ∀ c ∈ clauses, ∀ d ∈ clauses, c.Has busSnapshotDate → d.keyword ≠ processingKeyword

/-- The columns that clauses name exist, and the one of a snapshot date is of the type of days. -/
structure NamesColumns (clauses : Multiset ClauseContent) (columns : List (String × DataType)) : Prop where
  exist : ∀ c ∈ clauses, ∀ name, c.Names name → ∃ column ∈ columns, column.1 = name
  snapshotDate : ∀ c ∈ clauses, ∀ name, c.Gives busSnapshotDate name → columns.lookup name = some .date

end Milestoning

/-! ## Well-formed clauses stand for something -/

namespace ClauseContent

variable {c : ClauseContent} {allowed : List String} {key : String}

theorem Allows.unique (h : c.Allows allowed) {value value' : String} (hvalue : c.Gives key value)
    (hvalue' : c.Gives key value') : value = value' :=
  congrArg Prod.snd (Multiset.inj_on_of_nodup_map h.once _ hvalue _ hvalue' rfl)

theorem exists_givesFlag (h : ∀ text, c.Gives key text → ∃ flag, IsFlag text flag) :
    ∃ flag, c.GivesFlag key flag := by
  by_cases hhas : c.Has key
  · obtain ⟨text, htext⟩ := hhas
    obtain ⟨flag, hflag⟩ := h text htext
    exact ⟨flag, .inl ⟨text, htext, hflag⟩⟩
  · exact ⟨false, .inr ⟨hhas, rfl⟩⟩

theorem GivesFlag.exists_isFlag {flag : Bool} (h : c.GivesFlag key flag) (hallows : c.Allows allowed)
    {text : String} (htext : c.Gives key text) : ∃ flag, IsFlag text flag := by
  rcases h with ⟨text', htext', hflag⟩ | ⟨hnone, -⟩
  · exact ⟨flag, hallows.unique htext' htext ▸ hflag⟩
  · exact absurd ⟨text, htext⟩ hnone

theorem exists_givesInfinity (h : ∀ text, c.Gives infinityDate text → ∃ date, IsDate text date) :
    ∃ date, c.GivesInfinity date := by
  by_cases hhas : c.Has infinityDate
  · obtain ⟨text, htext⟩ := hhas
    obtain ⟨date, hdate⟩ := h text htext
    exact ⟨some date, text, htext, hdate⟩
  · exact ⟨none, hhas⟩

theorem GivesInfinity.exists_isDate {date : Option String} (h : c.GivesInfinity date)
    (hallows : c.Allows allowed) {text : String} (htext : c.Gives infinityDate text) : ∃ date, IsDate text date := by
  cases date with
  | none => exact absurd ⟨text, htext⟩ h
  | some date =>
    obtain ⟨text', htext', hdate⟩ := h
    exact ⟨date, hallows.unique htext' htext ▸ hdate⟩

theorem GivesRange.wellFormed {b : BusinessMilestoning} (h : c.GivesRange b) : c.WellFormed where
  keyword := .inl h.keyword
  allows := by
    rw [argumentsOf, if_pos h.keyword]
    exact h.allows
  business _ := .inr ⟨h.noSnapshot, ⟨_, h.fromColumn⟩, ⟨_, h.thruColumn⟩⟩
  processing hkeyword := absurd (h.keyword.symm.trans hkeyword) (by decide)
  flags key hkey text htext := by
    obtain rfl | rfl : key = thruIsInclusive ∨ key = outIsInclusive := by simpa using hkey
    · exact h.inclusive.exists_isFlag h.allows htext
    · exact absurd (h.allows.known _ ⟨text, htext⟩) (by decide)
  infinity _ htext := h.infinity.exists_isDate h.allows htext

theorem GivesSnapshot.wellFormed {s : BusinessSnapshotMilestoning} (h : c.GivesSnapshot s) : c.WellFormed where
  keyword := .inl h.keyword
  allows := by
    rw [argumentsOf, if_pos h.keyword]
    exact h.allows
  business _ :=
    .inl ⟨⟨_, h.snapshotDate⟩, h.noRange _ (by simp), h.noRange _ (by simp), h.noRange _ (by simp)⟩
  processing hkeyword := absurd (h.keyword.symm.trans hkeyword) (by decide)
  flags key hkey text htext := by
    obtain rfl | rfl : key = thruIsInclusive ∨ key = outIsInclusive := by simpa using hkey
    · exact absurd ⟨text, htext⟩ (h.noRange _ (by simp))
    · exact absurd (h.allows.known _ ⟨text, htext⟩) (by decide)
  infinity _ htext := h.infinity.exists_isDate h.allows htext

theorem GivesProcessing.wellFormed {p : ProcessingMilestoning} (h : c.GivesProcessing p) : c.WellFormed where
  keyword := .inr h.keyword
  allows := by
    rw [argumentsOf, if_neg (by rw [h.keyword]; decide)]
    exact h.allows
  business hkeyword := absurd (h.keyword.symm.trans hkeyword) (by decide)
  processing _ := ⟨⟨_, h.inColumn⟩, ⟨_, h.outColumn⟩⟩
  flags key hkey text htext := by
    obtain rfl | rfl : key = thruIsInclusive ∨ key = outIsInclusive := by simpa using hkey
    · exact absurd (h.allows.known _ ⟨text, htext⟩) (by decide)
    · exact h.inclusive.exists_isFlag h.allows htext
  infinity _ htext := h.infinity.exists_isDate h.allows htext

/-- A processing clause gives no day of business. -/
theorem GivesProcessing.noSnapshot {p : ProcessingMilestoning} (h : c.GivesProcessing p) : ¬ c.Has busSnapshotDate :=
  fun hhas => absurd (h.allows.known _ hhas) (by decide)

/-- A well-formed business clause gives a range or a day. -/
theorem WellFormed.exists_business (h : c.WellFormed) (hkeyword : c.keyword = businessKeyword) :
    (∃ b, c.GivesRange b) ∨ ∃ s, c.GivesSnapshot s := by
  have hallows : c.Allows businessArguments := by
    have := h.allows
    rwa [argumentsOf, if_pos hkeyword] at this
  obtain ⟨inclusive, hinclusive⟩ := exists_givesFlag (h.flags thruIsInclusive (by simp))
  obtain ⟨infinity, hinfinity⟩ := exists_givesInfinity h.infinity
  rcases h.business hkeyword with ⟨⟨snapshot, hsnapshot⟩, hfrom, hthru, hflag⟩ | ⟨hnone, ⟨start, hstart⟩, ⟨thru, hthru⟩⟩
  · exact .inr ⟨⟨snapshot, infinity⟩, hkeyword, hallows, by simp [hfrom, hthru, hflag], hsnapshot, hinfinity⟩
  · exact .inl ⟨⟨start, thru, inclusive, infinity⟩, hkeyword, hallows, hnone, hstart, hthru, hinclusive, hinfinity⟩

/-- A well-formed processing clause gives the time of processing. -/
theorem WellFormed.exists_processing (h : c.WellFormed) (hkeyword : c.keyword = processingKeyword) :
    ∃ p, c.GivesProcessing p := by
  have hallows : c.Allows processingArguments := by
    have := h.allows
    rwa [argumentsOf, if_neg (by rw [hkeyword]; decide)] at this
  obtain ⟨⟨inColumn, hin⟩, ⟨outColumn, hout⟩⟩ := h.processing hkeyword
  obtain ⟨inclusive, hinclusive⟩ := exists_givesFlag (h.flags outIsInclusive (by simp))
  obtain ⟨infinity, hinfinity⟩ := exists_givesInfinity h.infinity
  exact ⟨⟨inColumn, outColumn, inclusive, infinity⟩, hkeyword, hallows, hin, hout, hinclusive, hinfinity⟩

end ClauseContent

namespace Milestoning

/-- Under known keywords, there are no other clauses than those of the two keywords. -/
theorem filter_add_filter {all : Multiset ClauseContent}
    (h : ∀ c ∈ all, c.keyword = businessKeyword ∨ c.keyword = processingKeyword) :
    all.filter (·.keyword = businessKeyword) + all.filter (·.keyword = processingKeyword) = all := by
  have hne : businessKeyword ≠ processingKeyword := by decide
  have hother : all.filter (·.keyword = processingKeyword) = all.filter fun c => ¬ c.keyword = businessKeyword := by
    refine Multiset.filter_congr fun c hc => ?_
    rcases h c hc with hkeyword | hkeyword <;> simp [hkeyword, hne, hne.symm]
  rw [hother, Multiset.filter_add_not]

theorem Denotes.keyword {all : Multiset ClauseContent} {m : Milestoning} (h : Denotes all m) :
    ∀ c ∈ all, c.keyword = businessKeyword ∨ c.keyword = processingKeyword := by
  cases h with
  | business hrange => simp [hrange.keyword]
  | businessSnapshot hsnapshot => simp [hsnapshot.keyword]
  | processing hprocessing => simp [hprocessing.keyword]
  | bitemporal hrange hprocessing => simp [hrange.keyword, hprocessing.keyword]

theorem Denotes.ne_zero {all : Multiset ClauseContent} {m : Milestoning} (h : Denotes all m) : all ≠ 0 := by
  cases h <;> simp

theorem Denotes.wellFormed {all : Multiset ClauseContent} {m : Milestoning} (h : Denotes all m) : WellFormed all := by
  have hne : businessKeyword ≠ processingKeyword := by decide
  cases h with
  | business hrange => exact ⟨by simpa using hrange.wellFormed, by simp, by simp [hrange.noSnapshot]⟩
  | businessSnapshot hsnapshot => exact ⟨by simpa using hsnapshot.wellFormed, by simp, by simp [hsnapshot.keyword, hne]⟩
  | processing hprocessing =>
    exact ⟨by simpa using hprocessing.wellFormed, by simp, by simp [hprocessing.noSnapshot]⟩
  | bitemporal hrange hprocessing =>
    refine ⟨by simpa using ⟨hrange.wellFormed, hprocessing.wellFormed⟩, ?_, ?_⟩
    · simp [hrange.keyword, hprocessing.keyword, hne]
    · simp [hrange.noSnapshot, hprocessing.noSnapshot]

/-- Of clauses of different keywords, at most one has a given keyword. -/
theorem filter_eq_zero_or_singleton {all : Multiset ClauseContent} (h : (all.map ClauseContent.keyword).Nodup)
    (keyword : String) : all.filter (·.keyword = keyword) = 0 ∨
      ∃ c ∈ all, c.keyword = keyword ∧ all.filter (·.keyword = keyword) = {c} := by
  rcases Multiset.empty_or_exists_mem (all.filter (·.keyword = keyword)) with hnone | ⟨c, hc⟩
  · exact .inl hnone
  · obtain ⟨hall, hkeyword⟩ := Multiset.mem_filter.1 hc
    obtain ⟨others, hothers⟩ := Multiset.exists_cons_of_mem hc
    -- another one would repeat the keyword
    have hnodup : ((c ::ₘ others).map ClauseContent.keyword).Nodup :=
      hothers ▸ Multiset.nodup_of_le (Multiset.map_le_map (Multiset.filter_le _ _)) h
    rw [Multiset.map_cons, Multiset.nodup_cons] at hnodup
    have hempty : others = 0 := by
      refine Multiset.eq_zero_of_forall_notMem fun d hd => hnodup.1 (Multiset.mem_map.2 ⟨d, hd, ?_⟩)
      have hd' : d ∈ all.filter (·.keyword = keyword) := hothers ▸ Multiset.mem_cons_of_mem hd
      exact (Multiset.mem_filter.1 hd').2.trans hkeyword.symm
    exact .inr ⟨c, hall, hkeyword, by rw [hothers, hempty, Multiset.cons_zero]⟩

/-- Clauses are well-formed if and only if there are none or they stand for something. -/
theorem wellFormed_iff {all : Multiset ClauseContent} : WellFormed all ↔ all = 0 ∨ ∃ m, Denotes all m := by
  constructor
  · intro h
    rw [← filter_add_filter fun c hc => (h.clause c hc).keyword]
    rcases filter_eq_zero_or_singleton h.once businessKeyword with hbusiness | ⟨c, hc, hkeyword, hbusiness⟩ <;>
      rcases filter_eq_zero_or_singleton h.once processingKeyword with hprocessing | ⟨d, hd, hkeyword', hprocessing⟩ <;>
      rw [hbusiness, hprocessing]
    · exact .inl rfl
    · obtain ⟨p, hp⟩ := (h.clause d hd).exists_processing hkeyword'
      exact .inr ⟨_, .processing hp⟩
    · rcases (h.clause c hc).exists_business hkeyword with ⟨b, hb⟩ | ⟨s, hs⟩
      · exact .inr ⟨_, .business hb⟩
      · exact .inr ⟨_, .businessSnapshot hs⟩
    · obtain ⟨p, hp⟩ := (h.clause d hd).exists_processing hkeyword'
      rcases (h.clause c hc).exists_business hkeyword with ⟨b, hb⟩ | ⟨s, hs⟩
      · exact .inr ⟨_, .bitemporal hb hp⟩
      · exact absurd hkeyword' (h.snapshotAlone c hc d hd ⟨_, hs.snapshotDate⟩)
  · rintro (rfl | ⟨m, hm⟩)
    · exact ⟨by simp, by simp, by simp⟩
    · exact hm.wellFormed

end Milestoning

/-! ## The columns -/

namespace ClauseContent

variable {c : ClauseContent} {column : String}

theorem names_iff : c.Names column ↔ c.Gives busFrom column ∨ c.Gives busThru column ∨
    c.Gives busSnapshotDate column ∨ c.Gives processingIn column ∨ c.Gives processingOut column := by
  simp [Names]

theorem GivesRange.names_iff {b : BusinessMilestoning} (h : c.GivesRange b) :
    c.Names column ↔ column = b.fromColumn ∨ column = b.thruColumn := by
  rw [ClauseContent.names_iff]
  constructor
  · rintro (hfrom | hthru | hsnapshot | hin | hout)
    · exact .inl (h.allows.unique hfrom h.fromColumn)
    · exact .inr (h.allows.unique hthru h.thruColumn)
    · exact absurd ⟨column, hsnapshot⟩ h.noSnapshot
    · exact absurd (h.allows.known _ ⟨column, hin⟩) (by decide)
    · exact absurd (h.allows.known _ ⟨column, hout⟩) (by decide)
  · rintro (rfl | rfl)
    · exact .inl h.fromColumn
    · exact .inr (.inl h.thruColumn)

theorem GivesSnapshot.names_iff {s : BusinessSnapshotMilestoning} (h : c.GivesSnapshot s) :
    c.Names column ↔ column = s.snapshotDateColumn := by
  rw [ClauseContent.names_iff]
  constructor
  · rintro (hfrom | hthru | hsnapshot | hin | hout)
    · exact absurd ⟨column, hfrom⟩ (h.noRange _ (by simp))
    · exact absurd ⟨column, hthru⟩ (h.noRange _ (by simp))
    · exact h.allows.unique hsnapshot h.snapshotDate
    · exact absurd (h.allows.known _ ⟨column, hin⟩) (by decide)
    · exact absurd (h.allows.known _ ⟨column, hout⟩) (by decide)
  · rintro rfl
    exact .inr (.inr (.inl h.snapshotDate))

theorem GivesProcessing.names_iff {p : ProcessingMilestoning} (h : c.GivesProcessing p) :
    c.Names column ↔ column = p.inColumn ∨ column = p.outColumn := by
  rw [ClauseContent.names_iff]
  constructor
  · rintro (hfrom | hthru | hsnapshot | hin | hout)
    · exact absurd (h.allows.known _ ⟨column, hfrom⟩) (by decide)
    · exact absurd (h.allows.known _ ⟨column, hthru⟩) (by decide)
    · exact absurd ⟨column, hsnapshot⟩ h.noSnapshot
    · exact .inl (h.allows.unique hin h.inColumn)
    · exact .inr (h.allows.unique hout h.outColumn)
  · rintro (rfl | rfl)
    · exact .inr (.inr (.inr (.inl h.inColumn)))
    · exact .inr (.inr (.inr (.inr h.outColumn)))

end ClauseContent

namespace Milestoning

/-- Clauses name the columns of what they stand for. -/
theorem Denotes.mem_columns_iff {all : Multiset ClauseContent} {m : Milestoning} (h : Denotes all m)
    {column : String} : column ∈ m.columns ↔ ∃ c ∈ all, c.Names column := by
  cases h with
  | business hrange => simp [columns, hrange.names_iff]
  | businessSnapshot hsnapshot => simp [columns, hsnapshot.names_iff]
  | processing hprocessing => simp [columns, hprocessing.names_iff]
  | bitemporal hrange hprocessing => simp [columns, hrange.names_iff, hprocessing.names_iff, or_assoc]

/-- The column of a snapshot date is the one that the clauses give. -/
theorem Denotes.snapshotDate_iff {all : Multiset ClauseContent} {m : Milestoning} (h : Denotes all m)
    {column : String} : (∃ snapshot, m.snapshot? = some snapshot ∧ snapshot.snapshotDateColumn = column) ↔
      ∃ c ∈ all, c.Gives busSnapshotDate column := by
  cases h with
  | @business c b hrange =>
    have hnone : ¬ c.Gives busSnapshotDate column := fun hgives => hrange.noSnapshot ⟨column, hgives⟩
    simp [snapshot?, hnone]
  | @businessSnapshot c s hsnapshot =>
    simp only [snapshot?, Option.some.injEq, exists_eq_left', Multiset.mem_singleton, exists_eq_left]
    constructor
    · rintro rfl
      exact hsnapshot.snapshotDate
    · exact hsnapshot.allows.unique hsnapshot.snapshotDate
  | @processing c p hprocessing =>
    have hnone : ¬ c.Gives busSnapshotDate column := fun hgives => hprocessing.noSnapshot ⟨column, hgives⟩
    simp [snapshot?, hnone]
  | @bitemporal c d p b hrange hprocessing =>
    have hnone : ¬ c.Gives busSnapshotDate column := fun hgives => hrange.noSnapshot ⟨column, hgives⟩
    have hnone' : ¬ d.Gives busSnapshotDate column := fun hgives => hprocessing.noSnapshot ⟨column, hgives⟩
    simp [snapshot?, hnone, hnone']

theorem Denotes.namesColumns_iff {all : Multiset ClauseContent} {m : Milestoning} (h : Denotes all m)
    {columns : List (String × DataType)} : NamesColumns all columns ↔
      (∀ name ∈ m.columns, ∃ column ∈ columns, column.1 = name) ∧
        ∀ snapshot, m.snapshot? = some snapshot → columns.lookup snapshot.snapshotDateColumn = some .date := by
  have hdate (P : String → Prop) : (∀ snapshot, m.snapshot? = some snapshot → P snapshot.snapshotDateColumn) ↔
      ∀ column, (∃ c ∈ all, c.Gives busSnapshotDate column) → P column := by
    simp only [← h.snapshotDate_iff]
    grind
  simp only [h.mem_columns_iff]
  rw [hdate fun column => columns.lookup column = some .date]
  constructor
  · rintro ⟨hexist, htype⟩
    exact ⟨fun name ⟨c, hc, hname⟩ => hexist c hc name hname, fun column ⟨c, hc, hcolumn⟩ => htype c hc column hcolumn⟩
  · rintro ⟨hexist, htype⟩
    exact ⟨fun c hc name hname => hexist name ⟨c, hc, hname⟩, fun c hc column hcolumn => htype column ⟨c, hc, hcolumn⟩⟩

end Milestoning

end ObjectRelational
