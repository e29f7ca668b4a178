import ObjectRelational.Fault
import ObjectRelational.Source.Database
import ObjectRelational.Text.Digit

/-!
# Milestoning

How the rows of a table are versioned over time. A table carries up to two clauses, `business(...)`
and `processing(...)`, whose arguments name columns, flags and the date that stands for infinity.

* `Milestoning` is the meaning of the clauses of a table.
* `Milestoning.ofClauses?` reads them; malformed clauses are parse errors, wrong columns are not.
-/

namespace ObjectRelational

/-- Rows with the time during which they were known. -/
structure ProcessingMilestoning where
  inColumn : String
  outColumn : String
  outIsInclusive : Bool
  infinityDate : Option String
deriving DecidableEq

/-- Rows with the time during which they hold. -/
structure BusinessMilestoning where
  fromColumn : String
  thruColumn : String
  thruIsInclusive : Bool
  infinityDate : Option String
deriving DecidableEq

/-- Rows with the one day on which they hold. -/
structure BusinessSnapshotMilestoning where
  snapshotDateColumn : String
  infinityDate : Option String
deriving DecidableEq

/-- How the rows of a table are versioned. -/
inductive Milestoning where
  | processing (processing : ProcessingMilestoning)
  | business (business : BusinessMilestoning)
  | businessSnapshot (snapshot : BusinessSnapshotMilestoning)
  | bitemporal (processing : ProcessingMilestoning) (business : BusinessMilestoning)
deriving DecidableEq

namespace Milestoning

/-- The processing time of the rows, if they have one. -/
def processing? : Milestoning → Option ProcessingMilestoning
  | .processing p => some p
  | .bitemporal p _ => some p
  | _ => none

/-- The business time of the rows, if they have one. -/
def business? : Milestoning → Option BusinessMilestoning
  | .business b => some b
  | .bitemporal _ b => some b
  | _ => none

/-- The business day of the rows, if they have one. -/
def snapshot? : Milestoning → Option BusinessSnapshotMilestoning
  | .businessSnapshot s => some s
  | _ => none

/-- The columns that hold the times. -/
def columns : Milestoning → List String
  | .processing p => [p.inColumn, p.outColumn]
  | .business b => [b.fromColumn, b.thruColumn]
  | .businessSnapshot s => [s.snapshotDateColumn]
  | .bitemporal p b => [b.fromColumn, b.thruColumn, p.inColumn, p.outColumn]

end Milestoning

/-! ## The grammar of the clauses -/

namespace MilestoningClause

/-- The keyword of a business clause. -/
def businessKeyword : String := "business"

/-- The keyword of a processing clause. -/
def processingKeyword : String := "processing"

def busFrom : String := "BUS_FROM"
def busThru : String := "BUS_THRU"
def thruIsInclusive : String := "THRU_IS_INCLUSIVE"
def busSnapshotDate : String := "BUS_SNAPSHOT_DATE"
def processingIn : String := "PROCESSING_IN"
def processingOut : String := "PROCESSING_OUT"
def outIsInclusive : String := "OUT_IS_INCLUSIVE"
def infinityDate : String := "INFINITY_DATE"

/-- The arguments that a business clause can have. -/
def businessArguments : List String :=
  [busFrom, busThru, thruIsInclusive, busSnapshotDate, infinityDate]

/-- The arguments that a processing clause can have. -/
def processingArguments : List String := [processingIn, processingOut, outIsInclusive, infinityDate]

/-- The rest of a text behind so many decimal digits. -/
def dropDigits? : (count : Nat) → List Char → Option (List Char)
  | 0, text => some text
  | count + 1, c :: rest => if isDecimalDigit c then dropDigits? count rest else none
  | _ + 1, [] => none

/-- The rest of a text behind a given character. -/
def dropChar? (c : Char) : List Char → Option (List Char)
  | d :: rest => if d = c then some rest else none
  | [] => none

/-- Is the text empty, or a point with at least one digit behind it? -/
def isFractionOrEnd : List Char → Bool
  | [] => true
  | '.' :: c :: rest => (c :: rest).all isDecimalDigit
  | _ => false

/-- Is the text empty, or seconds behind a colon, with or without a fraction? -/
def isSecondsOrEnd : List Char → Bool
  | [] => true
  | text =>
    match dropChar? ':' text >>= dropDigits? 2 with
    | some rest => isFractionOrEnd rest
    | none => false

/-- Is the text empty, or a time of day behind a `T`? -/
def isTimeOrEnd : List Char → Bool
  | [] => true
  | text =>
    match dropChar? 'T' text >>= dropDigits? 2 >>= dropChar? ':' >>= dropDigits? 2 with
    | some rest => isSecondsOrEnd rest
    | none => false

/-- Does the text have the shape of a date, `YYYY-MM-DD`, with or without a time of day? -/
def isDateText (text : List Char) : Bool :=
  match dropDigits? 4 text >>= dropChar? '-' >>= dropDigits? 2 >>= dropChar? '-' >>=
      dropDigits? 2 with
  | some rest => isTimeOrEnd rest
  | none => false

/-- The text of a date behind the marker `%`, if it has one. -/
def dateChars (text : String) : List Char :=
  match text.toList with
  | '%' :: rest => rest
  | chars => chars

end MilestoningClause

namespace Source.MilestoningClause

open ObjectRelational.MilestoningClause

/-- The first argument that the clause must not have: one that is not allowed, or one that stands
there already. -/
def checkArguments (clause : MilestoningClause) (allowed : List String) :
    (before : List String) → List MilestoningArgument → Resolved Unit
  | _, [] => .ok ()
  | before, argument :: rest =>
    let key := argument.key
    if key.value ∉ allowed then
      (Fault.unknownMilestoningArgument clause.keyword.value key.value).found key.span
    else if key.value ∈ before then
      (Fault.conflictingMilestoning (.repeatedArgument key.value)).found key.span
    else checkArguments clause allowed (key.value :: before) rest

/-- The value of an argument. -/
def argument? (clause : MilestoningClause) (key : String) : Option Name :=
  (clause.arguments.find? fun a => a.key.value = key).map (·.value)

/-- The value of an argument that has to be there. -/
def requiredArgument (clause : MilestoningClause) (key : String) : Resolved String :=
  match clause.argument? key with
  | some value => .ok value.value
  | none => (Fault.missingMilestoningArgument clause.keyword.value key).found clause.span

/-- A flag, true or false in any letter case; without the argument it is false. -/
def flag (clause : MilestoningClause) (key : String) : Resolved Bool :=
  match clause.argument? key with
  | none => .ok false
  | some value =>
    let lower := value.value.map Char.toLower
    if lower = "true" then .ok true
    else if lower = "false" then .ok false
    else (Fault.invalidMilestoningValue key value.value).found value.span

/-- The date that stands for infinity, without its marker. -/
def infinity (clause : MilestoningClause) : Resolved (Option String) :=
  match clause.argument? infinityDate with
  | none => .ok none
  | some value =>
    let date := dateChars value.value
    if isDateText date then .ok (some (String.ofList date))
    else (Fault.invalidMilestoningValue infinityDate value.value).found value.span

/-- The meaning of a business clause: a range of dates or a snapshot date. -/
def business (clause : MilestoningClause) :
    Resolved (BusinessMilestoning ⊕ BusinessSnapshotMilestoning) := do
  clause.checkArguments businessArguments [] clause.arguments
  let infinity ← clause.infinity
  match clause.argument? busSnapshotDate with
  | some snapshot =>
    if [busFrom, busThru, thruIsInclusive].any fun key => (clause.argument? key).isSome then
      (Fault.conflictingMilestoning .snapshotWithRange).found snapshot.span
    else return .inr ⟨snapshot.value, infinity⟩
  | none =>
    let fromColumn ← clause.requiredArgument busFrom
    let thruColumn ← clause.requiredArgument busThru
    let inclusive ← clause.flag thruIsInclusive
    return .inl ⟨fromColumn, thruColumn, inclusive, infinity⟩

/-- The meaning of a processing clause. -/
def processing (clause : MilestoningClause) : Resolved ProcessingMilestoning := do
  clause.checkArguments processingArguments [] clause.arguments
  let inColumn ← clause.requiredArgument processingIn
  let outColumn ← clause.requiredArgument processingOut
  let inclusive ← clause.flag outIsInclusive
  let infinity ← clause.infinity
  return ⟨inColumn, outColumn, inclusive, infinity⟩

end Source.MilestoningClause

namespace Milestoning

open ObjectRelational.MilestoningClause

/-- The clauses of a table that have been read; a processing clause with its place. -/
structure ReadClauses where
  business : Option (BusinessMilestoning ⊕ BusinessSnapshotMilestoning) := none
  processing : Option (ProcessingMilestoning × Span) := none

/-- Reads one more clause. -/
def ReadClauses.add (read : ReadClauses) (clause : Source.MilestoningClause) :
    Resolved ReadClauses := do
  let keyword := clause.keyword
  if keyword.value = businessKeyword then
    if read.business.isSome then
      (Fault.conflictingMilestoning (.repeatedClause keyword.value)).found keyword.span
    else return { read with business := some (← clause.business) }
  else if keyword.value = processingKeyword then
    if read.processing.isSome then
      (Fault.conflictingMilestoning (.repeatedClause keyword.value)).found keyword.span
    else return { read with processing := some (← clause.processing, clause.span) }
  else (Fault.unknownMilestoningKeyword keyword.value).found keyword.span

/-- What the clauses of a table mean together. -/
def ReadClauses.combine (read : ReadClauses) : Resolved (Option Milestoning) :=
  match read.business, read.processing with
  | none, none => .ok none
  | some (.inl b), none => .ok (some (.business b))
  | some (.inr s), none => .ok (some (.businessSnapshot s))
  | none, some (p, _) => .ok (some (.processing p))
  | some (.inl b), some (p, _) => .ok (some (.bitemporal p b))
  | some (.inr _), some (_, span) =>
    (Fault.conflictingMilestoning .snapshotWithProcessing).found span

/-- The place of the first argument with the given value. -/
def argumentSpan (clauses : List Source.MilestoningClause) (value : String) : Span :=
  match (clauses.flatMap (·.arguments)).find? fun a => a.value.value = value with
  | some argument => argument.value.span
  | none => {}

/-- Every column that is named has to exist. -/
def checkColumnsExist (table : String) (clauses : List Source.MilestoningClause)
    (columns : List (String × DataType)) : List String → Resolved Unit
  | [] => .ok ()
  | name :: rest =>
    if columns.any fun c => c.1 = name then checkColumnsExist table clauses columns rest
    else (Fault.unknownColumn name table).found (argumentSpan clauses name)

/-- The column of a snapshot date has to be of the type of days. -/
def checkSnapshotType (table : String) (clauses : List Source.MilestoningClause)
    (columns : List (String × DataType)) (milestoning : Milestoning) : Resolved Unit :=
  match milestoning.snapshot? with
  | none => .ok ()
  | some snapshot =>
    match columns.lookup snapshot.snapshotDateColumn with
    | none => .ok ()
    | some type =>
      if type.isDate then .ok ()
      else
        (Fault.snapshotColumnType table snapshot.snapshotDateColumn type.text).found
          (argumentSpan clauses snapshot.snapshotDateColumn)

/-- The milestoning of a table, from its clauses and its columns; none without clauses. -/
def ofClauses? (table : String) (clauses : List Source.MilestoningClause)
    (columns : List (String × DataType)) : Resolved (Option Milestoning) := do
  let read ← clauses.foldlM ReadClauses.add {}
  match ← read.combine with
  | none => return none
  | some milestoning =>
    checkColumnsExist table clauses columns milestoning.columns
    checkSnapshotType table clauses columns milestoning
    return some milestoning

end Milestoning

end ObjectRelational
