import NixHomeServer.Search.Dates
import NixHomeServer.Search.Filters

/-! The filters of a search as clauses of the index, how the index reads a clause, and when both sides
of a search filter alike. -/
namespace NixHomeServer.Search

open NixHomeServer.Library

section Params

structure SearchParams where
  q : String
  contentType : Option String := none
  source : Option String := none
  kind : Option String := none
  owner : Option String := none
  author : Option String := none
  tag : Option String := none
  series : Option String := none
  year : Option String := none
  after : Option String := none
  before : Option String := none
  page : Option Nat := none
  pageSize : Option Nat := none

def nonempty (value : Option String) : Option String := (value.map trim).filter (· ≠ "")

def SearchParams.pageLength (params : SearchParams) : Nat := min (max (params.pageSize.getD 50) 1) 200

def dateError : String := "Use a valid date in YYYY-MM-DD format."

/-- A date is accepted as it is written only. -/
def validDate (calendar : Calendar) (date : String) : Bool :=
  (calendar.parseDay date).any fun n => String.ofList (dateText (calendar.civil n)) = date

def SearchParams.validate (calendar : Calendar) (params : SearchParams) : Except String Unit :=
  if 2048 < params.q.utf8ByteSize then .error "Search terms must be at most 2048 bytes."
  else if ((params.after.toList ++ params.before.toList).filter (trim · ≠ "")).any (!validDate calendar ·) then .error dateError
  else if ((nonempty params.after).any fun after => (nonempty params.before).any fun before => before < after) then
    .error "The start date must be on or before the end date."
  else if ((nonempty params.year).any fun value => (parseI64 value).isNone) then .error "Year must be a number."
  else if 10000 < min (params.page.getD 0 * params.pageLength) (2 ^ 64 - 1) then
    .error "Narrow your search to load more than 10,000 results."
  else .ok ()

def SearchParams.filters (params : SearchParams) : SearchFilters where
  source := nonempty params.source
  kind := nonempty params.kind
  contentType := nonempty params.contentType
  owner := nonempty params.owner
  author := nonempty params.author
  tag := nonempty params.tag
  series := nonempty params.series
  year := (nonempty params.year).bind parseI64
  createdAfter := nonempty params.after
  createdBefore := nonempty params.before

end Params

section Building

abbrev Line := List Char

def tagged (tag field : String) (term : Line) : Line :=
  "\x7b!tag=".toList ++ tag.toList ++ '}' :: (field.toList ++ ':' :: term)

end Building

section Reading

/-- A clause by its structure: one of some exact values, a number, or a range. -/
inductive Clause
  | values (field : Line) (accepted : List Line)
  | number (field : Line) (value : Int)
  | range (field : Line) (lower upper : Option Line)
  deriving DecidableEq, Repr

end Reading

section Structure

variable {text : Line} {field : String}

end Structure

section Meaning

variable (calendar : Calendar)

/-- The exact values of a string field. -/
def stringsAt (json : Json) (field : Line) : List String :=
  match json.get (String.ofList field) with
  | some (.string text) => [text]
  | some (.array items) => items.filterMap Json.asStr
  | _ => []

/-- Whether a clause holds of the fields of a document; a range compares instants. -/
def Clause.Holds (json : Json) : Clause → Prop
  | .values field accepted => ∃ value ∈ stringsAt json field, value.toList ∈ accepted
  | .number field value => json.get (String.ofList field) = some (.number (.int value))
  | .range field lower upper => ∃ text instant, (json.get (String.ofList field)).bind Json.asStr = some text ∧
      calendar.readInstant text.toList = some instant ∧
      (∀ line, lower = some line → ∃ least, calendar.readInstant line = some least ∧ least ≤ instant) ∧
      ∀ line, upper = some line → ∃ most, calendar.readInstant line = some most ∧ instant ≤ most

variable {calendar} {doc : SolrDocument}

@[simp] theorem asStr_string (text : String) : (Json.string text).asStr = some text := rfl

end Meaning

section Validity

variable {calendar : Calendar} {filters : SearchFilters}

/-- A date filter of an accepted request is the text of a day. -/
def IsDay (calendar : Calendar) (date : String) (n : Int) : Prop :=
  calendar.representable n = true ∧ calendar.parseDay date = some n ∧ date = String.ofList (dateText (calendar.civil n))

/-- What an accepted request guarantees of its filters. -/
structure Wellformed (calendar : Calendar) (filters : SearchFilters) : Prop where
  owner : ∀ owner, filters.owner = some owner → owner ≠ ""
  year : ∀ year, filters.year = some year → inI64 year = true
  after : ∀ date, filters.createdAfter = some date → ∃ n, IsDay calendar date n
  before : ∀ date, filters.createdBefore = some date → ∃ n, IsDay calendar date n

end Validity

section Intended

variable {calendar : Calendar} {filters : SearchFilters}

end Intended

section Agreement

variable (calendar : Calendar)

def FederatedHit.accepts (hit : FederatedHit) (filters : SearchFilters) : Bool :=
  hit.matchesFilters calendar.calendarYear calendar.epochToSolrDate filters

/-- A record of a source as the index holds it. -/
def indexed (source : String) (record : DocumentRecord) (owner : String) : SolrDocument :=
  .fromRecord (fun epoch => (calendar.calendarYear epoch).filter inI64) source record owner

/-- The days of the date filters stand around the day of a document. -/
def DayWithin (filters : SearchFilters) (created : Int) : Prop :=
  (∀ date n, filters.createdAfter = some date → calendar.parseDay date = some n → n ≤ calendar.settled created / 86400) ∧
    ∀ date n, filters.createdBefore = some date → calendar.parseDay date = some n → calendar.settled created / 86400 ≤ n

/-- The texts of the date filters stand around the first ten characters of a document's date. -/
def TextWithin (filters : SearchFilters) (created : Int) : Prop :=
  let date := String.ofList ((calendar.epochToSolrDate created).toList.take 10)
  (∀ after, filters.createdAfter = some after → ¬ date < after) ∧ ∀ before, filters.createdBefore = some before → ¬ before < date

variable {calendar} {filters : SearchFilters} {source owner : String} {record : DocumentRecord}

theorem IsDay.readInstant {date : String} {n : Int} (day : IsDay calendar date n) {time : List Char} {ms : Nat}
    (read : readClock time = some ms) : calendar.readInstant (date.toList ++ 'T' :: time) = some (n * 86400000 + ms) := by
  obtain ⟨inside, -, written⟩ := day
  rw [written, String.toList_ofList, readInstant_append inside read]

variable (calendar filters) in
/-- The live comparison of dates as text comes out as the comparison of days. -/
def InStep (created : Int) : Prop := TextWithin calendar filters created ↔ DayWithin calendar filters created

theorem take_epochToSolrDate (created : Int) : ((calendar.epochToSolrDate created).toList.take 10) =
    (dateText (calendar.civil (calendar.settled created / 86400)) ++
      'T' :: (clockText (calendar.settled created % 86400).toNat ++ ['Z'])).take 10 := by
  rw [Calendar.epochToSolrDate, String.toList_ofList]

/-- Dates of four-digit years compare as text as they do as days. -/
theorem inStep_of_plain (formed : Wellformed calendar filters) {created : Int}
    (year : 0 ≤ (calendar.civil (calendar.settled created / 86400)).year ∧ (calendar.civil (calendar.settled created / 86400)).year < 10000)
    (years : ∀ date n, filters.createdAfter = some date ∨ filters.createdBefore = some date → calendar.parseDay date = some n →
      0 ≤ (calendar.civil n).year ∧ (calendar.civil n).year < 10000) : InStep calendar filters created := by
  have plain := calendar.plain year
  have text : (calendar.epochToSolrDate created).toList.take 10 = dateText (calendar.civil (calendar.settled created / 86400)) := by
    rw [take_epochToSolrDate, List.take_left' plain.length_dateText]
  have inside := settled_representable calendar created
  have order (date : String) (n : Int) (day : IsDay calendar date n) (bound : (calendar.civil n).Plain) :
      (String.ofList (dateText (calendar.civil (calendar.settled created / 86400))) < date ↔ calendar.settled created / 86400 < n) ∧
        (date < String.ofList (dateText (calendar.civil (calendar.settled created / 86400))) ↔ n < calendar.settled created / 86400) := by
    obtain ⟨own, -, written⟩ := day
    rw [String.lt_iff_toList_lt, String.lt_iff_toList_lt, written, String.toList_ofList, String.toList_ofList,
      plain.dateText_lt bound, bound.dateText_lt plain, calendar.earlier_iff inside own, calendar.earlier_iff own inside]
    exact ⟨Iff.rfl, Iff.rfl⟩
  unfold InStep TextWithin DayWithin
  rw [text]
  refine and_congr ⟨fun all date n found parsed => ?_, fun all date found less => ?_⟩
    ⟨fun all date n found parsed => ?_, fun all date found less => ?_⟩
  · obtain ⟨m, day⟩ := formed.after date found
    cases day.2.1.symm.trans parsed
    exact not_lt.mp fun less => all date found ((order date n day (calendar.plain (years date n (.inl found) parsed))).1.mpr less)
  · obtain ⟨n, day⟩ := formed.after date found
    exact not_lt.mpr (all date n found day.2.1) ((order date n day (calendar.plain (years date n (.inl found) day.2.1))).1.mp less)
  · obtain ⟨m, day⟩ := formed.before date found
    cases day.2.1.symm.trans parsed
    exact not_lt.mp fun less => all date found ((order date n day (calendar.plain (years date n (.inr found) parsed))).2.mpr less)
  · obtain ⟨n, day⟩ := formed.before date found
    exact not_lt.mpr (all date n found day.2.1) ((order date n day (calendar.plain (years date n (.inr found) day.2.1))).2.mp less)

end Agreement

end NixHomeServer.Search
