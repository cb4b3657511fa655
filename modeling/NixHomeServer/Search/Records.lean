import Mathlib.Algebra.Group.Int.Defs
import NixHomeServer.Library.Json
import Mathlib.Data.List.Basic

/-! One document as the extractors emit it, as PostgreSQL stores it and as Solr indexes it. -/
namespace NixHomeServer.Search

open NixHomeServer.Library

def inI64 (n : Int) : Bool := -2 ^ 63 ≤ n && n < 2 ^ 63

def asI64 : Number → Option Int
  | .int n => if inI64 n then some n else none
  | .float _ => none

structure DocumentRecord where
  externalId : String
  kind : String
  title : String
  bodyText : String
  contentType : String
  originUrl : String
  appUrl : String
  filePath : String
  sizeBytes : Int
  checksum : String
  contentCreatedAt : Option Int
  contentModifiedAt : Option Int
  metadata : Json

structure SolrDocument where
  id : String
  source : String
  kind : String
  title : String
  body : String
  contentType : String
  originUrl : String
  appUrl : String
  filePath : String
  sizeBytes : Int
  contentCreated : Option Int
  contentModified : Option Int
  owner : String
  authors : List String
  tags : List String
  series : List String
  year : Option Int
  deriving DecidableEq, Repr

structure SourceConfig where
  id : String
  sourceType : String
  appBase : String
  settings : List (String × Json)

def isFederated (sourceType : String) : Bool := sourceType == "paperless-api"

section Text

def isWhitespace (c : Char) : Bool :=
  (9 ≤ c.val && c.val ≤ 13) || c.val = 32 || c.val = 0x85 || c.val = 0xA0 || c.val = 0x1680 ||
    (0x2000 ≤ c.val && c.val ≤ 0x200A) || c.val = 0x2028 || c.val = 0x2029 || c.val = 0x202F ||
    c.val = 0x205F || c.val = 0x3000

def trim (text : String) : String :=
  String.ofList ((text.toList.dropWhile isWhitespace).reverse.dropWhile isWhitespace).reverse

def parseDigits (digits : List Char) : Option Nat :=
  if digits.isEmpty || digits.any (fun c => !c.isDigit) then none
  else some (digits.foldl (fun n c => 10 * n + (c.toNat - '0'.toNat)) 0)

/-- `str::parse::<i64>`. -/
def parseI64 (text : String) : Option Int :=
  let value : Option Int := match text.toList with
    | '-' :: digits => (parseDigits digits).map fun n => -(n : Int)
    | '+' :: digits => (parseDigits digits).map Int.ofNat
    | digits => (parseDigits digits).map Int.ofNat
  value.filter inI64

end Text

section Nul

def stripNulStr (value : String) : String :=
  String.ofList (value.toList.filter fun c => c != '\x00')

/-- A later member of one name replaces the earlier one. -/
def insertMember (members : List (String × Json)) (member : String × Json) : List (String × Json) :=
  if members.any fun m => m.1 == member.1 then
    members.map fun m => if m.1 == member.1 then member else m
  else members ++ [member]

mutual

def stripNulJson : Json → Json
  | .string text => .string (stripNulStr text)
  | .array items => .array (stripNulItems items)
  | .object members => .object ((stripNulMembers members).foldl insertMember [])
  | .null => .null
  | .bool b => .bool b
  | .number n => .number n

def stripNulItems : List Json → List Json
  | [] => []
  | item :: items => stripNulJson item :: stripNulItems items

def stripNulMembers : List (String × Json) → List (String × Json)
  | [] => []
  | (key, value) :: members => (stripNulStr key, stripNulJson value) :: stripNulMembers members

end

/-- The record as `upsert_document` binds it. -/
def DocumentRecord.stored (record : DocumentRecord) : DocumentRecord :=
  { record with
    kind := stripNulStr record.kind
    title := stripNulStr record.title
    bodyText := stripNulStr record.bodyText
    contentType := stripNulStr record.contentType
    originUrl := stripNulStr record.originUrl
    appUrl := stripNulStr record.appUrl
    filePath := stripNulStr record.filePath
    metadata := stripNulJson record.metadata }

end Nul

section Facets

structure Facets where
  authors : List String
  tags : List String
  series : List String
  year : Option Int
  deriving DecidableEq, Repr

def authorKeys : List String := ["authors", "author", "narrators", "from", "correspondent"]
def tagKeys : List String := ["tags", "genres"]
def seriesKeys : List String := ["series", "feed"]
def maxValuesPerField : Nat := 32
def maxValueChars : Nat := 160

def pushTrimmed (value : String) (out : List String) : List String :=
  let trimmed := trim value
  let bounded := String.ofList (trimmed.toList.take maxValueChars)
  if trimmed = "" ∨ bounded ∈ out then out else out ++ [bounded]

mutual

def collectValue : Json → List String → List String
  | .string text, out => pushTrimmed text out
  | .number n, out => pushTrimmed n.print out
  | .array items, out => collectItems items out
  | .object members, out => collectName members out
  | .null, out => out
  | .bool _, out => out

def collectItems : List Json → List String → List String
  | [], out => out
  | item :: items, out => collectItems items (collectValue item out)

def collectName : List (String × Json) → List String → List String
  | [], out => out
  | (key, value) :: members, out => if key = "name" then collectValue value out else collectName members out

end

def collectKeysFrom (metadata : Json) : List String → List String → List String
  | [], values => values
  | key :: keys, values =>
    let values := match metadata.get key with
      | some value => collectValue value values
      | none => values
    if values.length ≥ maxValuesPerField then values else collectKeysFrom metadata keys values

def collectKeys (metadata : Json) (keys : List String) : List String :=
  (collectKeysFrom metadata keys []).take maxValuesPerField

def metadataYear (metadata : Json) : Option Int :=
  match metadata.get "year" with
  | some (.number n) => asI64 n
  | some (.string text) => parseI64 (trim text)
  | _ => none

-- The calendar year of a timestamp, where there is one.
variable (calendarYear : Int → Option Int)

def Facets.extract (metadata : Json) (contentCreatedAt : Option Int) : Facets where
  authors := collectKeys metadata authorKeys
  tags := collectKeys metadata tagKeys
  series := collectKeys metadata seriesKeys
  year := (metadataYear metadata).or (contentCreatedAt.bind calendarYear)

end Facets

section Projection

def sharedOwner : String := "shared"

def documentOwner (record : DocumentRecord) : String :=
  match (record.metadata.get "owner").bind Json.asStr with
  | some owner => if trim owner = "" then sharedOwner else trim owner
  | none => sharedOwner

def fullDocumentId (source externalId : String) : String := source ++ ":" ++ externalId

theorem fullDocumentId_inj {source a b : String} :
    fullDocumentId source a = fullDocumentId source b ↔ a = b := by
  simp only [fullDocumentId, String.append_right_inj]

variable (calendarYear : Int → Option Int)

def SolrDocument.fromRecord (source : String) (record : DocumentRecord) (owner : String) : SolrDocument :=
  let extracted := Facets.extract calendarYear record.metadata record.contentCreatedAt
  { id := fullDocumentId source record.externalId
    source := source
    kind := record.kind
    title := record.title
    body := record.bodyText
    contentType := record.contentType
    originUrl := record.originUrl
    appUrl := record.appUrl
    filePath := record.filePath
    sizeBytes := record.sizeBytes
    contentCreated := record.contentCreatedAt
    contentModified := record.contentModifiedAt
    owner := owner
    authors := extracted.authors
    tags := extracted.tags
    series := extracted.series
    year := extracted.year }

/-- The document that a pass and a rebuild push for a record. -/
def SolrDocument.project (source : String) (record : DocumentRecord) : SolrDocument :=
  .fromRecord calendarYear source record (documentOwner record)

end Projection

end NixHomeServer.Search
