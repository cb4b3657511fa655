import NixHomeServer.Library.Tally
import NixHomeServer.Search.Records
import Mathlib.Data.List.Perm.Subperm
import Mathlib.Data.String.Basic

/-! The filters of a search as live hits meet them, and the counts of the live facets. -/
namespace NixHomeServer.Search

open NixHomeServer.Library

structure SearchFilters where
  source : Option String := none
  kind : Option String := none
  contentType : Option String := none
  owner : Option String := none
  author : Option String := none
  tag : Option String := none
  series : Option String := none
  year : Option Int := none
  createdAfter : Option String := none
  createdBefore : Option String := none
  deriving DecidableEq, Repr

structure FederatedHit where
  source : String
  kind : String
  contentType : String
  owner : String
  created : Option Int
  metadata : Json

def kindTerms (kind : String) : List String :=
  match kind with
  | "video" => ["video", "movie", "episode"]
  | "web-page" => ["web-page", "feed-entry"]
  | _ => [kind]

/-- An absent filter accepts everything. -/
def unsetOr {α : Type} (filter : Option α) (accepts : α → Bool) : Bool := filter.all accepts

def SearchFilters.matchesKind (filters : SearchFilters) (kind : String) : Bool :=
  unsetOr filters.kind fun selected => (kindTerms selected).contains kind

section Matching

-- The calendar year of a timestamp, and its date and time as Solr writes them.
variable (calendarYear : Int → Option Int) (epochToSolrDate : Int → String)

/-- The year of a timestamp is written out and read back as an `i64`. -/
def FederatedHit.facets (hit : FederatedHit) : Facets :=
  Facets.extract (fun epoch => (calendarYear epoch).filter inI64) hit.metadata hit.created

/-- The date filters compare the first ten characters of a date as text. -/
def FederatedHit.matchesDates (hit : FederatedHit) (filters : SearchFilters) : Bool :=
  if filters.createdAfter.isSome || filters.createdBefore.isSome then
    match hit.created with
    | none => false
    | some created =>
      let date := String.ofList ((epochToSolrDate created).toList.take 10)
      unsetOr filters.createdAfter (fun after => !decide (date < after)) &&
        unsetOr filters.createdBefore fun before => !decide (before < date)
  else true

def FederatedHit.matchesFilters (hit : FederatedHit) (filters : SearchFilters) : Bool :=
  filters.matchesKind hit.kind && unsetOr filters.source (· == hit.source) &&
    unsetOr filters.contentType (· == hit.contentType) && unsetOr filters.owner (· == hit.owner) &&
    unsetOr filters.author (hit.facets calendarYear).authors.contains &&
    unsetOr filters.tag (hit.facets calendarYear).tags.contains &&
    unsetOr filters.series (hit.facets calendarYear).series.contains &&
    unsetOr filters.year (fun year => (hit.facets calendarYear).year == some year) &&
    hit.matchesDates epochToSolrDate filters

inductive Dimension
  | kind | contentType | owner | author | tag | series | year
  deriving DecidableEq, Repr

def dimensions : List Dimension := [.kind, .contentType, .owner, .author, .tag, .series, .year]

def Dimension.name : Dimension → String
  | kind => "kind"
  | contentType => "contentType"
  | owner => "owner"
  | author => "author"
  | tag => "tag"
  | series => "series"
  | year => "year"

/-- The filters without the dimension's own. -/
def SearchFilters.relaxed (filters : SearchFilters) : Dimension → SearchFilters
  | .kind => { filters with kind := none }
  | .contentType => { filters with contentType := none }
  | .owner => { filters with owner := none }
  | .author => { filters with author := none }
  | .tag => { filters with tag := none }
  | .series => { filters with series := none }
  | .year => { filters with year := none }

def FederatedHit.values (hit : FederatedHit) : Dimension → List String
  | .kind => [hit.kind]
  | .contentType => [hit.contentType]
  | .owner => [hit.owner]
  | .author => (hit.facets calendarYear).authors
  | .tag => (hit.facets calendarYear).tags
  | .series => (hit.facets calendarYear).series
  | .year => ((hit.facets calendarYear).year.map toString).toList

/-- The hits that pass all filters but the dimension's own. -/
def passing (hits : List FederatedHit) (filters : SearchFilters) (dimension : Dimension) : List FederatedHit :=
  hits.filter fun hit => hit.matchesFilters calendarYear epochToSolrDate (filters.relaxed dimension)

def facetCounts (hits : List FederatedHit) (filters : SearchFilters) (dimension : Dimension) : List (String × Nat) :=
  topOf 50 (tally ((passing calendarYear epochToSolrDate hits filters dimension).flatMap fun hit =>
    (hit.values calendarYear dimension).filter (· ≠ "")))

/-- The whole answer, a field for each dimension. -/
def allFacetCounts (hits : List FederatedHit) (filters : SearchFilters) : List (String × List (String × Nat)) :=
  dimensions.map fun dimension =>
    (dimension.name ++ "Facets", facetCounts calendarYear epochToSolrDate hits filters dimension)

end Matching

section Values

/-- The values of a facet are distinct, and none is empty. -/
structure Distinctive (values : List String) : Prop where
  distinct : values.Nodup
  filled : "" ∉ values

theorem Distinctive.nil : Distinctive [] := ⟨List.nodup_nil, List.not_mem_nil⟩

theorem Distinctive.pushTrimmed {out : List String} (distinctive : Distinctive out) (value : String) :
    Distinctive (pushTrimmed value out) := by
  unfold Search.pushTrimmed
  dsimp only
  split
  · exact distinctive
  · rename_i kept
    obtain ⟨filled, new⟩ := not_or.mp kept
    have some_left : String.ofList ((trim value).toList.take maxValueChars) ≠ "" := by
      intro empty
      have chars : (trim value).toList.take maxValueChars = [] := by simpa using congrArg String.toList empty
      rcases List.take_eq_nil_iff.mp chars with zero | none
      · cases zero
      · exact filled (String.toList_inj.mp none)
    refine ⟨List.nodup_append'.mpr ⟨distinctive.distinct, List.nodup_singleton _, ?_⟩, ?_⟩
    · intro old member there
      rw [List.mem_singleton.mp there] at member
      exact new member
    · rw [List.mem_append, List.mem_singleton]
      exact fun either => either.elim distinctive.filled some_left.symm

mutual

theorem Distinctive.collectValue {out : List String} (distinctive : Distinctive out) :
    ∀ value, Distinctive (collectValue value out)
  | .string text => distinctive.pushTrimmed text
  | .number n => distinctive.pushTrimmed n.print
  | .array items => distinctive.collectItems items
  | .object members => distinctive.collectName members
  | .null => distinctive
  | .bool _ => distinctive

theorem Distinctive.collectItems {out : List String} (distinctive : Distinctive out) :
    ∀ items, Distinctive (collectItems items out)
  | [] => distinctive
  | item :: items => (distinctive.collectValue item).collectItems items

theorem Distinctive.collectName {out : List String} (distinctive : Distinctive out) :
    ∀ members, Distinctive (collectName members out)
  | [] => distinctive
  | (key, value) :: members => by
    unfold Search.collectName
    split
    · exact distinctive.collectValue value
    · exact distinctive.collectName members

end

theorem Distinctive.collectKeysFrom {values : List String} (distinctive : Distinctive values) (metadata : Json)
    (keys : List String) : Distinctive (collectKeysFrom metadata keys values) := by
  induction keys generalizing values with
  | nil => exact distinctive
  | cons key keys ih =>
    cases found : metadata.get key with
    | none =>
      simp only [Search.collectKeysFrom, found]
      split
      · exact distinctive
      · exact ih distinctive
    | some value =>
      have next := distinctive.collectValue value
      simp only [Search.collectKeysFrom, found]
      split
      · exact next
      · exact ih next

end Values

section Selection

variable (calendarYear : Int → Option Int) (epochToSolrDate : Int → String)

/-- What a selected value accepts: a kind stands for its terms, other values for themselves. -/
def FederatedHit.accepted (hit : FederatedHit) (value : String) : Dimension → Bool
  | .kind => (kindTerms value).contains hit.kind
  | dimension => (hit.values calendarYear dimension).contains value

variable {calendarYear}

variable (calendarYear) in
/-- The dimension's own filter. -/
def FederatedHit.passes (hit : FederatedHit) (filters : SearchFilters) : Dimension → Bool
  | .kind => filters.matchesKind hit.kind
  | .contentType => unsetOr filters.contentType (· == hit.contentType)
  | .owner => unsetOr filters.owner (· == hit.owner)
  | .author => unsetOr filters.author (hit.facets calendarYear).authors.contains
  | .tag => unsetOr filters.tag (hit.facets calendarYear).tags.contains
  | .series => unsetOr filters.series (hit.facets calendarYear).series.contains
  | .year => unsetOr filters.year fun year => (hit.facets calendarYear).year == some year

end Selection

section Counting

variable {calendarYear : Int → Option Int} {hits : List FederatedHit} {dimension : Dimension} {value : String} {n : Nat}

variable (calendarYear) in
def Carried (hits : List FederatedHit) (dimension : Dimension) (value : String) : Prop :=
  value ≠ "" ∧ ∃ hit ∈ hits, value ∈ hit.values calendarYear dimension

end Counting

section Guarantees

variable (calendarYear : Int → Option Int) (epochToSolrDate : Int → String) (hits : List FederatedHit)
  (filters : SearchFilters)

variable {calendarYear epochToSolrDate hits filters} {dimension : Dimension} {value : String}

end Guarantees

end NixHomeServer.Search
