import NixHomeServer.Browsertrix.Revisits

/-! The HTML documents of an archive, and the documents that their frames embed. The
URL library, the decoders of HTTP content and the HTML parser are parameters. -/
namespace NixHomeServer.Browsertrix.Engine

open NixHomeServer.Library

def maxHtml : Nat := 2 * 1024 * 1024

def Record.isHtml (record : Record) : Bool :=
  record.mime = "text/html".toList || record.mime = "application/xhtml+xml".toList

/-- The capture that a row of the page inventory belongs to. -/
structure PageCapture where
  recordId : Text
  member : Text
  offset : Nat
  bodyOffset : Nat
  deriving DecidableEq

def PageCapture.of (record : Record) : PageCapture where
  recordId := record.field "warc-record-id"
  member := record.member
  offset := record.offset
  bodyOffset := (record.source.map BodySource.bodyOffset).getD 0

/-- A row of the page inventory. -/
structure PageMetadata where
  url : Text := []
  title : Text := []
  ts : Text := []
  text : Text := []
  bytes : Nat := 0
  status : Nat := 0
  resourceUrls : List Text := []
  id : Text := []
  capture : Option PageCapture := none

section dom

/-- A node of a parsed document; what is not an element is the document itself, a text
or a comment. -/
inductive Node
  | element (name : Text) (attrs : List (Text × Text)) (children : List Node)
  | other (children : List Node)

namespace Node

def children : Node → List Node
  | element _ _ children => children
  | other children => children

def elementName : Node → Option Text
  | element name _ _ => some name
  | other _ => none

def attrs : Node → List (Text × Text)
  | element _ attrs _ => attrs
  | other _ => []

def attr (node : Node) (key : Text) : Option Text := (node.attrs.find? fun a => a.1 = key).map Prod.snd

mutual

/-- The nodes from the first to the last. -/
def forward : Node → List Node
  | element name attrs children => element name attrs children :: forwardAll children
  | other children => other children :: forwardAll children

def forwardAll : List Node → List Node
  | [] => []
  | node :: rest => node.forward ++ forwardAll rest

end

mutual

/-- The nodes in the order in which a stack of children gives them. -/
def backward : Node → List Node
  | element name attrs children => element name attrs children :: backwardAll children
  | other children => other children :: backwardAll children

def backwardAll : List Node → List Node
  | [] => []
  | node :: rest => backwardAll rest ++ node.backward

end

mutual

def depth : Node → Nat
  | element _ _ children => depthAll children
  | other children => depthAll children

def depthAll : List Node → Nat
  | [] => 0
  | node :: rest => max (node.depth + 1) (depthAll rest)

end

/-- The node itself, and what lies in it. -/
inductive Within : Node → Node → Prop
  | self (node : Node) : Within node node
  | under {root child node : Node} (there : child ∈ root.children) (inside : Within child node) : Within root node

theorem backward_subset_backwardAll {nodes : List Node} {child : Node} (there : child ∈ nodes) :
    child.backward ⊆ backwardAll nodes := by
  induction nodes with
  | nil => cases there
  | cons first rest ih =>
    intro node inside
    rcases List.mem_cons.mp there with rfl | there
    · exact List.mem_append_right _ inside
    · exact List.mem_append_left _ (ih there inside)

mutual

theorem within_of_mem_backward : (root : Node) → ∀ node ∈ root.backward, root.Within node
  | element name attrs children, node, there => by
    rcases List.mem_cons.mp there with rfl | there
    · exact .self _
    · obtain ⟨child, own, inside⟩ := within_of_mem_backwardAll children node there
      exact .under own inside
  | other children, node, there => by
    rcases List.mem_cons.mp there with rfl | there
    · exact .self _
    · obtain ⟨child, own, inside⟩ := within_of_mem_backwardAll children node there
      exact .under own inside

theorem within_of_mem_backwardAll : (nodes : List Node) → ∀ node ∈ backwardAll nodes, ∃ child ∈ nodes, child.Within node
  | [], node, there => absurd there List.not_mem_nil
  | first :: rest, node, there => by
    rcases List.mem_append.mp there with there | there
    · obtain ⟨child, own, inside⟩ := within_of_mem_backwardAll rest node there
      exact ⟨child, List.mem_cons_of_mem _ own, inside⟩
    · exact ⟨first, List.mem_cons_self, within_of_mem_backward first node there⟩

end

/-- Every node is come to. -/
theorem mem_backward {root node : Node} : node ∈ root.backward ↔ root.Within node := by
  refine ⟨within_of_mem_backward root node, fun inside => ?_⟩
  induction inside with
  | self node => cases node <;> exact List.mem_cons_self
  | @under root child node there inside ih =>
    cases root <;> exact List.mem_cons_of_mem _ (backward_subset_backwardAll there ih)

end Node

end dom

/-- The URL library. -/
structure UrlCrate where
  Url : Type
  parse : Text → Option Url
  join : Url → Text → Option Url
  withoutFragment : Url → Url
  text : Url → Text
  scheme : Url → Text
  host : Url → Option Text

def UrlCrate.pageBase (urls : UrlCrate) (url : Text) : Text :=
  match urls.parse url with
  | some u => urls.text (urls.withoutFragment u)
  | none => url

/-- What content is read with: the reader of bodies, the decoders of HTTP content and the
HTML parser. -/
structure Content where
  urls : UrlCrate
  reader : Reader
  inflate : Text → Bytes → Nat → Result Bytes
  parseHtml : Bytes → Result Node

section content

variable (content : Content)

def bounded (bytes : Bytes) (limit : Nat) : Result Bytes :=
  if limit < bytes.length then .fails "Inflated byte limit exceeded" else .returns bytes

def eagerBodyLimited (record : Record) (limit : Nat) : Result Record := do
  let body ← record.bodyReader content.reader
  let block ← bounded body limit
  .ensure (record.httpHeaders.length ≤ block.length ∨ record.httpHeaders = []) "Truncated lazy HTTP body"
  return { record with
    block := block
    payload := block.drop record.httpHeaders.length
    source := none
    payloadSource := none }

def decodeContent (h : Headers) (bytes : Bytes) (limit : Nat) : Result Bytes :=
  match h.field "content-encoding".toList with
  | none => .returns bytes
  | some encoding =>
    let encoding := toAsciiLowercase encoding
    if encoding = "identity".toList then .returns bytes
    else if encoding = "gzip".toList ∨ encoding = "x-gzip".toList ∨ encoding = "deflate".toList then
      content.inflate encoding bytes limit
    else .fails "Unsupported HTTP content encoding for text transformation"

def containsText (part text : Text) : Bool := text.tails.any part.isPrefixOf

def foreignCharset (h : Headers) : Bool :=
  match h.field "content-type".toList with
  | none => false
  | some s =>
    let lower := toAsciiLowercase s
    containsText "charset=".toList lower && !containsText "charset=utf-8".toList lower &&
      !containsText "charset=\"utf-8\"".toList lower && !containsText "charset=us-ascii".toList lower

def payloadLimited (record : Record) (limit : Nat) : Result Bytes := do
  .ensure (record.payloadLength ≤ limit) "Resource decoding exceeds byte analysis bound"
  let loaded ← eagerBodyLimited content record (limit + 64 * 1024)
  let bytes ← transferPayload loaded.kind loaded.block loaded.payload
  if loaded.kind = "resource".toList then .returns bytes
  else do
    let split ← .ofOption "HTTP header missing" (positionOf (crlf ++ crlf) loaded.block)
    let (_, h) ← headers (loaded.block.take split)
    let bytes ← decodeContent content h bytes limit
    .ensure (foreignCharset h = false) "Non-UTF8 HTML transformation unsupported"
    return bytes

def dom (bytes : Bytes) : Result Node := do
  .ensure (bytes.length ≤ 2 * 1024 * 1024) "HTML analysis exceeds 2 MiB limit"
  .ensure ((fromUtf8 bytes).isSome) "Non-UTF8 HTML unsupported"
  let document ← content.parseHtml bytes
  .ensure (document.forward.length ≤ maxItems ∧ document.depth ≤ 128) "HTML DOM node/depth limit exceeded"
  return document

/-- The document of a record whose body is loaded, if there is one to be analysed. -/
def documentOf (loaded : Record) : Result (Option Node) :=
  match payloadLimited content loaded maxHtml >>= dom content with
  | .returns document => .returns (some document)
  | .fails _ => .returns none
  | .panics => .panics

end content

section frames

variable (urls : UrlCrate)

/-- What a `base` element makes the base of the document's links. -/
def baseHref (base : urls.Url) (node : Node) : Option urls.Url :=
  if node.elementName = some "base".toList then (node.attr "href".toList).bind (urls.join base) else none

def baseOf (base : urls.Url) (document : Node) : urls.Url := (document.forward.findSome? (baseHref urls base)).getD base

def frameKey (node : Node) : Option Text :=
  if node.elementName = some "iframe".toList ∨ node.elementName = some "frame".toList ∨
      node.elementName = some "embed".toList then some "src".toList
  else if node.elementName = some "object".toList then some "data".toList
  else none

def isHttp (url : urls.Url) : Bool := urls.scheme url = "http".toList || urls.scheme url = "https".toList

/-- The document that an element embeds. -/
def frameLink (base : urls.Url) (node : Node) : Option Text :=
  (((frameKey node).bind node.attr).bind (urls.join base)).bind fun url =>
    if isHttp urls url then some (urls.text url) else none

/-- An element that may bring documents that are not to be seen in it. -/
def unforeseen (node : Node) : Bool :=
  (node.attr "srcdoc".toList).isSome || node.elementName = some "script".toList ||
    node.attrs.any fun a => "on".toList.isPrefixOf a.1

local instance lawfulDocuments : LawfulBEq (List Char) := inferInstance

def gatherLinks (base : urls.Url) : List Node → List Text → Option (List Text)
  | [], links => some links
  | node :: rest, links =>
    let links := match frameLink urls base node with
      | some link => if link ∈ links then links else links ++ [link]
      | none => links
    if unforeseen node then none else gatherLinks base rest links

def textLe (a b : Text) : Bool := !decide (b < a)

variable (content : Content)

/-- The links of the documents that a record's document embeds, unless they are not known. -/
def embeddedDocuments (record : Record) : Result (Option (List Text)) :=
  if maxHtml < record.payloadLength then .returns none
  else do
    let loaded ← eagerBodyLimited content record (maxHtml + 64 * 1024)
    let document ← documentOf content loaded
    match document with
    | none => return none
    | some document =>
      match content.urls.parse record.url with
      | none => return none
      | some base =>
        let links := gatherLinks content.urls (baseOf content.urls base document) document.backward []
        return links.map fun links => links.mergeSort textLe

variable {urls content} {base : urls.Url} {nodes : List Node} {links out : List Text}

theorem gatherLinks_eq_some (gathered : gatherLinks urls base nodes links = some out) :
    (∀ node ∈ nodes, unforeseen node = false) ∧
      ∀ link, link ∈ out ↔ link ∈ links ∨ ∃ node ∈ nodes, frameLink urls base node = some link := by
  induction nodes generalizing links with
  | nil =>
    cases gathered
    simp
  | cons node rest ih =>
    unfold gatherLinks at gathered
    dsimp only at gathered
    split at gathered
    case isTrue => cases gathered
    case isFalse plain =>
      obtain ⟨others, listed⟩ := ih gathered
      refine ⟨List.forall_mem_cons.mpr ⟨Bool.eq_false_iff.mpr plain, others⟩, fun link => ?_⟩
      rw [listed, List.exists_mem_cons_iff, ← or_assoc]
      refine or_congr_left ?_
      cases found : frameLink urls base node with
      | none => simp
      | some own =>
        dsimp only
        split
        case isTrue already =>
          refine ⟨.inl, fun either => either.elim id fun same => ?_⟩
          cases same
          exact already
        case isFalse => simp [eq_comm]

/-- A frame of a captured document, and the document it embeds. -/
def Embeds (content : Content) (record : Record) (link : Text) : Prop :=
  ∃ loaded document base node, eagerBodyLimited content record (maxHtml + 64 * 1024) = .returns loaded ∧
    documentOf content loaded = .returns (some document) ∧ content.urls.parse record.url = some base ∧
    document.Within node ∧ frameLink content.urls (baseOf content.urls base document) node = some link

/-- Links that are known are those of all frames. -/
theorem embeddedDocuments_eq_some {record : Record} (known : embeddedDocuments content record = .returns (some out)) :
    ∀ link, link ∈ out ↔ Embeds content record link := by
  unfold embeddedDocuments at known
  split at known
  · cases known
  obtain ⟨loaded, read, known⟩ := Checked.bind_eq_returns.mp known
  obtain ⟨found, parsed, known⟩ := Checked.bind_eq_returns.mp known
  cases found with
  | none => cases known
  | some document =>
    dsimp only at known
    cases located : content.urls.parse record.url with
    | none =>
      rw [located] at known
      cases known
    | some base =>
      rw [located] at known
      injection known with known
      obtain ⟨links, gathered, rfl⟩ := Option.map_eq_some_iff.mp known
      have listed := (gatherLinks_eq_some gathered).2
      intro link
      rw [List.mem_mergeSort, listed]
      constructor
      · rintro (absent | ⟨node, there, own⟩)
        · exact absurd absent List.not_mem_nil
        · exact ⟨loaded, document, base, node, read, parsed, located, Node.mem_backward.mp there, own⟩
      · rintro ⟨loaded', document', base', node, read', parsed', located', inside, own⟩
        rw [read] at read'
        cases read'
        rw [parsed] at parsed'
        cases parsed'
        rw [located] at located'
        cases located'
        exact .inr ⟨node, Node.mem_backward.mpr inside, own⟩

end frames

end NixHomeServer.Browsertrix.Engine
