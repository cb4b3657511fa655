import Mathlib.Algebra.GroupWithZero.Nat
import Mathlib.Algebra.Order.BigOperators.Group.List
import Mathlib.Algebra.Order.Group.Nat
import Mathlib.Data.List.Dedup
import NixHomeServer.Browsertrix.Selectors
import NixHomeServer.Library.Exploration

/-! Which records an export of an archive keeps: those of the selected pages, with the
documents that these embed. -/
namespace NixHomeServer.Browsertrix.Engine

open NixHomeServer.Library

structure ExportOptions where
  includeUrls : List Text := []
  excludeUrls : List Text := []
  excludeDomains : List Text := []
  excludeMimePrefixes : List Text := []
  removeSelectors : List Text := []
  title : Text := []
  deduplicate : Bool := false

/-- An archive that is loaded, with its page inventory. -/
structure Package where
  archive : Archive
  pages : List PageMetadata
  title : Text

/-- In which order URLs, the records of a URL and the links of a record are come to. -/
structure Visiting where
  urls : Nat → List Text → List Text
  records : List Record → List Record
  links : List Text → List Text
  urls_perm : ∀ n l, (urls n l).Perm l
  records_perm : ∀ l, (records l).Perm l
  links_perm : ∀ l, (links l).Perm l

/-- The last URL that was put off, and records and links as they come. -/
def Visiting.stack : Visiting where
  urls _ := id
  records := id
  links := id
  urls_perm _ := .refl
  records_perm := .refl
  links_perm := .refl

section exploring

/-- The URLs that are kept, those of them that are still to be visited, and what the
visits have cost. -/
structure Closure where
  retained : List Text
  pending : List Text
  work : Nat := 0
  linkBytes : Nat := 0

/-- A visit, or the end of all visits where what is embedded is not known. -/
inductive Walk
  | goes (s : Closure)
  | stops (retained : List Text)

variable (content : Content) (order : Visiting)

local instance lawfulSelection : LawfulBEq (List Char) := inferInstance

def followLink (s : Closure) (link : Text) : Walk :=
  if maxMetadata < s.linkBytes + (utf8 link).length then .stops s.retained
  else
    let s := { s with linkBytes := s.linkBytes + (utf8 link).length }
    let base := content.urls.pageBase link
    if base ∈ s.retained then .goes s
    else .goes { s with retained := s.retained ++ [base], pending := base :: s.pending }

def followLinks : List Text → Closure → Walk
  | [], s => .goes s
  | link :: rest, s =>
    match followLink content s link with
    | .goes s => followLinks rest s
    | .stops retained => .stops retained

def followRecord (s : Closure) (record : Record) : Result Walk :=
  if maxMetadata < s.work + record.payloadLength then .returns (.stops s.retained)
  else do
    let links ← embeddedDocuments content record
    match links with
    | none => return .stops s.retained
    | some links => return followLinks content (order.links links) { s with work := s.work + record.payloadLength }

def followRecords : List Record → Closure → Result Walk
  | [], s => .returns (.goes s)
  | record :: rest, s => do
    let walk ← followRecord content order s record
    match walk with
    | .goes s => followRecords rest s
    | .stops retained => return .stops retained

variable (records : List Record)

/-- The HTML records of a URL. -/
def documentsAt (url : Text) : List Record :=
  records.filter fun r => r.isHtml && content.urls.pageBase r.url = url

/-- The loop over the URLs; each is put off once. -/
def explore : Nat → Closure → Result Walk
  | 0, _ => .panics
  | left + 1, s =>
    match order.urls left s.pending with
    | [] => .returns (.goes s)
    | url :: rest => do
      let walk ← followRecords content order (order.records (documentsAt content records url)) { s with pending := rest }
      match walk with
      | .goes s => explore left s
      | .stops retained => return .stops retained

/-- How many links the documents have that can be analysed. -/
def linkCount (record : Record) : Nat :=
  match embeddedDocuments content record with
  | .returns (some links) => links.length
  | _ => 0

end exploring

section selection

variable (content : Content) (order : Visiting) (options : ExportOptions)

/-- The URLs of the page inventory. -/
def inventoryOf (package : Package) : List Text := (package.pages.map fun p => content.urls.pageBase p.url).dedup

/-- The included URLs, and those of HTML records that are no pages. -/
local instance lawfulStarts : LawfulBEq (List Char) := inferInstance

def startsOf (package : Package) : List Text :=
  (options.includeUrls.map content.urls.pageBase ++
    ((package.archive.records.filter Record.isHtml).map fun r => content.urls.pageBase r.url).filter
      (· ∉ inventoryOf content package)).dedup

def selectedPages (package : Package) : Result (List Text) :=
  if options.includeUrls = [] then .returns (inventoryOf content package)
  else do
    let starts := startsOf content options package
    let visits := starts.length + (package.archive.records.map (linkCount content)).sum + 1
    let walk ← explore content order package.archive.records visits
      { retained := starts, pending := (starts.mergeSort textLe).reverse }
    match walk with
    | .goes s => return s.retained
    | .stops retained => return retained ++ inventoryOf content package

def domainOf (record : Record) : Text := (((content.urls.parse record.url).bind content.urls.host)).getD []

/-- A record that the user excludes. -/
def explicitlyExcluded (record : Record) : Bool :=
  options.excludeUrls.any (· = record.url) ||
    options.excludeDomains.any (fun d => toAsciiLowercase (domainOf content record) = toAsciiLowercase d ||
      ('.' :: toAsciiLowercase d).isSuffixOf (toAsciiLowercase (domainOf content record))) ||
    options.excludeMimePrefixes.any fun m => m.isPrefixOf record.mime

def excluded (package : Package) (retained : List Text) (record : Record) : Bool :=
  explicitlyExcluded content options record ||
    (decide (content.urls.pageBase record.url ∈ inventoryOf content package) && !options.includeUrls.isEmpty &&
      decide (content.urls.pageBase record.url ∉ retained))

/-- A record that is left out, as the provenance of the export names it. -/
structure Omission where
  url : Text
  date : Text
  recordId : Text
  reason : String

structure Kept where
  records : List Record := []
  omitted : List Omission := []

end selection

section links

variable {content : Content} {order : Visiting} {s s' s'' : Closure} {fresh fresh' links : List Text} {docs : List Record}

/-- What a visit adds: URLs that were not there, all of them still to be visited. -/
structure Grows (s s' : Closure) (fresh : List Text) : Prop where
  retained : s'.retained = s.retained ++ fresh
  pending : s'.pending.Perm (s.pending ++ fresh)
  distinct : fresh.Nodup
  new : ∀ b ∈ fresh, b ∉ s.retained

theorem Grows.still (retained : s'.retained = s.retained) (pending : s'.pending = s.pending) : Grows s s' [] where
  retained := by rw [retained, List.append_nil]
  pending := by rw [pending, List.append_nil]
  distinct := List.nodup_nil
  new _ absent := absurd absent List.not_mem_nil

theorem Grows.trans (first : Grows s s' fresh) (second : Grows s' s'' fresh') : Grows s s'' (fresh ++ fresh') where
  retained := by rw [second.retained, first.retained, List.append_assoc]
  pending := by
    rw [← List.append_assoc]
    exact second.pending.trans (first.pending.append_right fresh')
  distinct := by
    refine List.nodup_append'.mpr ⟨first.distinct, second.distinct, fun b old there => second.new b there ?_⟩
    rw [first.retained]
    exact List.mem_append_right _ old
  new b there := by
    rcases List.mem_append.mp there with there | there
    · exact first.new b there
    · intro old
      refine second.new b there ?_
      rw [first.retained]
      exact List.mem_append_left _ old

theorem Grows.subset (grows : Grows s s' fresh) : s.retained ⊆ s'.retained := by
  rw [grows.retained]
  exact List.subset_append_left _ _

def bytesOf (links : List Text) : Nat := (links.map fun link => (utf8 link).length).sum

theorem followLinks_goes (done : followLinks content links s = .goes s') : ∃ fresh, Grows s s' fresh ∧
    (∀ b ∈ fresh, ∃ link ∈ links, content.urls.pageBase link = b) ∧
    (∀ link ∈ links, content.urls.pageBase link ∈ s'.retained) ∧ s'.work = s.work ∧
    s'.linkBytes = s.linkBytes + bytesOf links ∧ (s.linkBytes ≤ maxMetadata → s'.linkBytes ≤ maxMetadata) := by
  induction links generalizing s with
  | nil =>
    cases done
    exact ⟨[], .still rfl rfl, by simp, by simp, rfl, rfl, id⟩
  | cons link rest ih =>
    unfold followLinks followLink at done
    dsimp only at done
    by_cases spent : maxMetadata < s.linkBytes + (utf8 link).length
    · rw [if_pos spent] at done
      cases done
    rw [if_neg spent] at done
    have bytes : bytesOf (link :: rest) = (utf8 link).length + bytesOf rest := List.sum_cons
    by_cases already : content.urls.pageBase link ∈ s.retained
    · rw [if_pos already] at done
      obtain ⟨fresh, grows, among, all, work, linkBytes, bounded⟩ := ih done
      refine ⟨fresh, ⟨grows.retained, grows.pending, grows.distinct, grows.new⟩, fun b there => ?_,
        List.forall_mem_cons.mpr ⟨grows.subset already, all⟩, work, ?_, fun _ => bounded (Nat.le_of_not_lt spent)⟩
      · exact (among b there).imp fun _ both => ⟨List.mem_cons_of_mem _ both.1, both.2⟩
      · rw [linkBytes, bytes, Nat.add_assoc]
    · rw [if_neg already] at done
      obtain ⟨fresh, grows, among, all, work, linkBytes, bounded⟩ := ih done
      have first : Grows s { s with
          linkBytes := s.linkBytes + (utf8 link).length
          retained := s.retained ++ [content.urls.pageBase link]
          pending := content.urls.pageBase link :: s.pending } [content.urls.pageBase link] :=
        ⟨rfl, (List.perm_append_singleton _ _).symm, List.nodup_singleton _, by simpa using already⟩
      refine ⟨_, first.trans grows, ?_, List.forall_mem_cons.mpr ⟨?_, all⟩, work, ?_, fun _ => bounded (Nat.le_of_not_lt spent)⟩
      · intro b there
        rcases List.mem_cons.mp there with rfl | there
        · exact ⟨link, List.mem_cons_self, rfl⟩
        · exact (among b there).imp fun _ both => ⟨List.mem_cons_of_mem _ both.1, both.2⟩
      · exact grows.subset (List.mem_append_right _ List.mem_cons_self)
      · rw [linkBytes, bytes, Nat.add_assoc]

theorem followLinks_stops {retained : List Text} (done : followLinks content links s = .stops retained) :
    maxMetadata < s.linkBytes + bytesOf links := by
  induction links generalizing s with
  | nil => cases done
  | cons link rest ih =>
    unfold followLinks followLink at done
    dsimp only at done
    have bytes : bytesOf (link :: rest) = (utf8 link).length + bytesOf rest := List.sum_cons
    rw [bytes, ← Nat.add_assoc]
    by_cases spent : maxMetadata < s.linkBytes + (utf8 link).length
    · exact Nat.lt_of_lt_of_le spent (Nat.le_add_right _ _)
    rw [if_neg spent] at done
    split at done
    next after step =>
      split at step <;> cases step <;> exact ih done
    next step => split at step <;> cases step

/-- The bytes of a record's links, where these are known. -/
def recordBytes (content : Content) (record : Record) : Nat :=
  match embeddedDocuments content record with
  | .returns (some links) => bytesOf links
  | _ => 0

def payloads (docs : List Record) : Nat := (docs.map Record.payloadLength).sum

def linksOf (content : Content) (docs : List Record) : Nat := (docs.map (recordBytes content)).sum

/-- A link that a record is known to have. -/
def HasLink (content : Content) (record : Record) (b : Text) : Prop :=
  ∃ links, embeddedDocuments content record = .returns (some links) ∧ ∃ link ∈ links, content.urls.pageBase link = b

theorem bytesOf_ordered (order : Visiting) {record : Record}
    (known : embeddedDocuments content record = .returns (some links)) :
    bytesOf (order.links links) = recordBytes content record := by
  rw [recordBytes, known]
  exact ((order.links_perm links).map _).sum_nat

theorem followRecord_goes {record : Record} (done : followRecord content order s record = .returns (.goes s')) :
    ∃ fresh links, Grows s s' fresh ∧ embeddedDocuments content record = .returns (some links) ∧
      (∀ b ∈ fresh, HasLink content record b) ∧ (∀ link ∈ links, content.urls.pageBase link ∈ s'.retained) ∧
      s'.work = s.work + record.payloadLength ∧ s'.work ≤ maxMetadata ∧
      s'.linkBytes = s.linkBytes + recordBytes content record ∧ (s.linkBytes ≤ maxMetadata → s'.linkBytes ≤ maxMetadata) := by
  unfold followRecord at done
  split at done
  case isTrue => cases done
  case isFalse within =>
    obtain ⟨found, known, done⟩ := Checked.bind_eq_returns.mp done
    cases found with
    | none => cases done
    | some links =>
      injection done with done
      obtain ⟨fresh, grows, among, all, work, linkBytes, bounded⟩ := followLinks_goes done
      have same := order.links_perm links
      have bytes := bytesOf_ordered order known
      refine ⟨fresh, links, ⟨grows.retained, grows.pending, grows.distinct, grows.new⟩, known, fun b there => ?_,
        fun link there => all link (same.mem_iff.mpr there), work, ?_, bytes ▸ linkBytes, bounded⟩
      · obtain ⟨link, there, own⟩ := among b there
        exact ⟨links, known, link, same.mem_iff.mp there, own⟩
      · rw [work]
        exact Nat.le_of_not_lt within

theorem followRecord_stops {record : Record} {retained : List Text}
    (done : followRecord content order s record = .returns (.stops retained)) :
    embeddedDocuments content record = .returns none ∨ maxMetadata < s.work + record.payloadLength ∨
      maxMetadata < s.linkBytes + recordBytes content record := by
  unfold followRecord at done
  split at done
  case isTrue spent => exact .inr (.inl spent)
  case isFalse =>
    obtain ⟨found, known, done⟩ := Checked.bind_eq_returns.mp done
    cases found with
    | none => exact .inl known
    | some links =>
      injection done with done
      have spent := followLinks_stops done
      have bytes := bytesOf_ordered order known
      exact .inr (.inr (bytes ▸ spent))

theorem followRecords_goes (done : followRecords content order docs s = .returns (.goes s')) (low : s.work ≤ maxMetadata) :
    ∃ fresh, Grows s s' fresh ∧ (∀ b ∈ fresh, ∃ r ∈ docs, HasLink content r b) ∧
      (∀ r ∈ docs, ∃ links, embeddedDocuments content r = .returns (some links)) ∧
      (∀ r ∈ docs, ∀ b, HasLink content r b → b ∈ s'.retained) ∧ s'.work = s.work + payloads docs ∧ s'.work ≤ maxMetadata ∧
      s'.linkBytes = s.linkBytes + linksOf content docs ∧ (s.linkBytes ≤ maxMetadata → s'.linkBytes ≤ maxMetadata) := by
  induction docs generalizing s with
  | nil =>
    cases done
    exact ⟨[], .still rfl rfl, by simp, by simp, by simp, rfl, low, rfl, id⟩
  | cons record rest ih =>
    obtain ⟨walk, first, done⟩ := Checked.bind_eq_returns.mp done
    cases walk with
    | stops => cases done
    | goes mid =>
      obtain ⟨fresh, links, grows, known, among, all, work, low, linkBytes, bounded⟩ := followRecord_goes first
      obtain ⟨fresh', grows', among', known', all', work', low', linkBytes', bounded'⟩ := ih done low
      have payload : payloads (record :: rest) = record.payloadLength + payloads rest := List.sum_cons
      have bytes : linksOf content (record :: rest) = recordBytes content record + linksOf content rest := List.sum_cons
      refine ⟨_, grows.trans grows', fun b there => ?_, List.forall_mem_cons.mpr ⟨⟨links, known⟩, known'⟩,
        List.forall_mem_cons.mpr ⟨?_, all'⟩, ?_, low', ?_, fun low => bounded' (bounded low)⟩
      · rcases List.mem_append.mp there with there | there
        · exact ⟨record, List.mem_cons_self, among b there⟩
        · exact (among' b there).imp fun _ both => ⟨List.mem_cons_of_mem _ both.1, both.2⟩
      · rintro b ⟨links', own, link, there, rfl⟩
        rw [known] at own
        cases own
        exact grows'.subset (all link there)
      · rw [work', work, payload, Nat.add_assoc]
      · rw [linkBytes', linkBytes, bytes, Nat.add_assoc]

theorem followRecords_stops {retained : List Text} (done : followRecords content order docs s = .returns (.stops retained)) :
    (∃ r ∈ docs, embeddedDocuments content r = .returns none) ∨ maxMetadata < s.work + payloads docs ∨
      maxMetadata < s.linkBytes + linksOf content docs := by
  induction docs generalizing s with
  | nil => cases done
  | cons record rest ih =>
    have payload : payloads (record :: rest) = record.payloadLength + payloads rest := List.sum_cons
    have bytes : linksOf content (record :: rest) = recordBytes content record + linksOf content rest := List.sum_cons
    rw [payload, bytes]
    obtain ⟨walk, first, done⟩ := Checked.bind_eq_returns.mp done
    cases walk with
    | stops =>
      rcases followRecord_stops first with unknown | spent | spent
      · exact .inl ⟨record, List.mem_cons_self, unknown⟩
      · exact .inr (.inl (by omega))
      · exact .inr (.inr (by omega))
    | goes mid =>
      obtain ⟨_, _, _, _, _, _, work, _, linkBytes, _⟩ := followRecord_goes first
      rcases ih done with ⟨r, there, unknown⟩ | spent | spent
      · exact .inl ⟨r, List.mem_cons_of_mem _ there, unknown⟩
      · exact .inr (.inl (by omega))
      · exact .inr (.inr (by omega))

end links

section visits

variable {content : Content} {order : Visiting} {records : List Record} {start : Text → Prop} {s s' : Closure}
  {visited : List Text} {url : Text} {rest : List Text}

/-- What the documents of a URL are known to embed. -/
def KnownTo (content : Content) (records : List Record) (u v : Text) : Prop :=
  ∃ r ∈ documentsAt content records u, HasLink content r v

def workAt (content : Content) (records : List Record) (urls : List Text) : Nat :=
  (urls.map fun u => payloads (documentsAt content records u)).sum

def bytesAt (content : Content) (records : List Record) (urls : List Text) : Nat :=
  (urls.map fun u => linksOf content (documentsAt content records u)).sum

/-- A document that is come to cannot be analysed, or the documents that are come to
exceed a budget together. -/
def Unforeseen (content : Content) (records : List Record) (reached : Text → Prop) : Prop :=
  (∃ u, reached u ∧ ∃ r ∈ documentsAt content records u, embeddedDocuments content r = .returns none) ∨
    ∃ urls : List Text, urls.Nodup ∧ (∀ u ∈ urls, reached u) ∧
      (maxMetadata < workAt content records urls ∨ maxMetadata < bytesAt content records urls)

/-- The state of the visits: the documents of every URL visited were analysed, and cost
what was counted. -/
structure Visited (content : Content) (records : List Record) (start : Text → Prop) (s : Closure) (visited : List Text) :
    Prop where
  exploring : Exploring start (KnownTo content records) s.retained s.pending visited
  known : ∀ u ∈ visited, ∀ r ∈ documentsAt content records u, ∃ links, embeddedDocuments content r = .returns (some links)
  work : s.work = workAt content records visited
  linkBytes : s.linkBytes = bytesAt content records visited
  lowWork : s.work ≤ maxMetadata
  lowBytes : s.linkBytes ≤ maxMetadata

theorem workAt_append (urls : List Text) (u : Text) :
    workAt content records (urls ++ [u]) = workAt content records urls + payloads (documentsAt content records u) := by
  simp [workAt]

theorem bytesAt_append (urls : List Text) (u : Text) :
    bytesAt content records (urls ++ [u]) = bytesAt content records urls + linksOf content (documentsAt content records u) := by
  simp [bytesAt]

theorem payloads_ordered (docs : List Record) : payloads (order.records docs) = payloads docs :=
  ((order.records_perm docs).map _).sum_nat

theorem linksOf_ordered (docs : List Record) : linksOf content (order.records docs) = linksOf content docs :=
  ((order.records_perm docs).map _).sum_nat

theorem Visited.reorder {pending : List Text} (state : Visited content records start s visited) (same : pending.Perm s.pending) :
    Visited content records start { s with pending } visited where
  exploring := state.exploring.reorder same
  known := state.known
  work := state.work
  linkBytes := state.linkBytes
  lowWork := state.lowWork
  lowBytes := state.lowBytes

/-- A URL's documents are analysed, all of them. -/
theorem Visited.goes (state : Visited content records start { s with pending := url :: rest } visited)
    (done : followRecords content order (order.records (documentsAt content records url)) { s with pending := rest } =
      .returns (.goes s')) : Visited content records start s' (visited ++ [url]) := by
  obtain ⟨fresh, grows, among, known, all, work, lowWork, linkBytes, lowBytes⟩ := followRecords_goes done state.lowWork
  have same := order.records_perm (documentsAt content records url)
  have here : ∀ b, KnownTo content records url b → b ∈ s.retained ++ fresh := by
    rintro b ⟨r, there, has⟩
    have own := all r (same.mem_iff.mpr there) b has
    rwa [grows.retained] at own
  have new : ∀ b ∈ fresh, b ∉ s.retained ∧ KnownTo content records url b := by
    intro b there
    obtain ⟨r, own, has⟩ := among b there
    exact ⟨grows.new b there, r, same.mem_iff.mp own, has⟩
  have explored := state.exploring.visit grows.distinct new here
  rw [payloads_ordered] at work
  rw [linksOf_ordered] at linkBytes
  have before : s.work = workAt content records visited := state.work
  have before' : s.linkBytes = bytesAt content records visited := state.linkBytes
  refine ⟨?_, fun u there r own => ?_, ?_, ?_, lowWork, lowBytes state.lowBytes⟩
  · rw [grows.retained]
    exact explored.reorder grows.pending
  · rcases List.mem_append.mp there with there | there
    · exact state.known u there r own
    · rw [List.mem_singleton.mp there] at own
      exact known r (same.mem_iff.mpr own)
  · rw [workAt_append, ← before, work]
  · rw [bytesAt_append, ← before', linkBytes]

/-- A visit that ends all visits has found what cannot be known. -/
theorem Visited.stops {retained : List Text} (state : Visited content records start { s with pending := url :: rest } visited)
    (done : followRecords content order (order.records (documentsAt content records url)) { s with pending := rest } =
      .returns (.stops retained)) : Unforeseen content records (Reached start (KnownTo content records)) := by
  have reached : ∀ u ∈ visited ++ [url], Reached start (KnownTo content records) u := by
    intro u there
    refine state.exploring.reached ?_
    rcases List.mem_append.mp there with there | there
    · exact List.mem_append_left _ there
    · rw [List.mem_singleton.mp there]
      exact List.mem_append_right _ List.mem_cons_self
  have distinct : (visited ++ [url]).Nodup := by
    refine state.exploring.nodup_split.sublist (List.Sublist.append_left ?_ visited)
    exact List.singleton_sublist.mpr List.mem_cons_self
  have before : s.work = workAt content records visited := state.work
  have before' : s.linkBytes = bytesAt content records visited := state.linkBytes
  rcases followRecords_stops done with ⟨r, there, unknown⟩ | spent | spent
  · have here := (order.records_perm _).mem_iff.mp there
    exact .inl ⟨url, reached url (List.mem_append_right _ List.mem_cons_self), r, here, unknown⟩
  · refine .inr ⟨_, distinct, reached, .inl ?_⟩
    rwa [workAt_append, ← before, ← @payloads_ordered order]
  · refine .inr ⟨_, distinct, reached, .inr ?_⟩
    rwa [bytesAt_append, ← before', ← @linksOf_ordered content order]

theorem explore_goes {left : Nat} (state : Visited content records start s visited)
    (done : explore content order records left s = .returns (.goes s')) :
    s'.pending = [] ∧ ∃ visited, Visited content records start s' visited := by
  induction left generalizing s visited with
  | zero => cases done
  | succ left ih =>
    unfold explore at done
    have same := order.urls_perm left s.pending
    split at done
    case h_1 none =>
      cases done
      rw [none] at same
      exact ⟨same.symm.eq_nil, visited, state⟩
    case h_2 url rest next =>
      rw [next] at same
      obtain ⟨walk, first, done⟩ := Checked.bind_eq_returns.mp done
      cases walk with
      | stops => cases done
      | goes mid => exact ih ((state.reorder same).goes first) done

theorem explore_stops {left : Nat} {retained : List Text} (state : Visited content records start s visited)
    (done : explore content order records left s = .returns (.stops retained)) :
    Unforeseen content records (Reached start (KnownTo content records)) := by
  induction left generalizing s visited with
  | zero => cases done
  | succ left ih =>
    unfold explore at done
    have same := order.urls_perm left s.pending
    split at done
    case h_1 => cases done
    case h_2 url rest next =>
      rw [next] at same
      obtain ⟨walk, first, done⟩ := Checked.bind_eq_returns.mp done
      cases walk with
      | stops => exact (state.reorder same).stops first
      | goes mid => exact ih ((state.reorder same).goes first) done

/-- Sums over some of the URLs are no more than those over all. -/
theorem sum_le_of_nodup {urls all : List Text} (distinct : urls.Nodup) (inside : ∀ u ∈ urls, u ∈ all) (cost : Text → Nat) :
    (urls.map cost).sum ≤ (all.map cost).sum := by
  obtain ⟨some, same, part⟩ := distinct.subperm inside
  rw [← (same.map cost).sum_nat]
  exact (part.map cost).sum_le_sum fun _ _ => Nat.zero_le _

/-- Visits that came to an end have found all documents known, and within the budgets. -/
theorem Visited.foreseen (state : Visited content records start s visited) (ended : s.pending = []) :
    ¬ Unforeseen content records (Reached start (KnownTo content records)) := by
  have explored := state.exploring
  rw [ended] at explored
  have inside : ∀ u, Reached start (KnownTo content records) u → u ∈ visited := by
    intro u reached
    have split := explored.split.mem_iff.mp (explored.complete.mpr reached)
    rwa [List.append_nil] at split
  rintro (⟨u, reached, r, there, unknown⟩ | ⟨urls, distinct, reached, spent⟩)
  · obtain ⟨links, known⟩ := state.known u (inside u reached) r there
    rw [known] at unknown
    cases unknown
  · have within := fun u there => inside u (reached u there)
    have lowWork := state.lowWork
    have lowBytes := state.lowBytes
    rw [state.work] at lowWork
    rw [state.linkBytes] at lowBytes
    have work := sum_le_of_nodup distinct within fun u => payloads (documentsAt content records u)
    have bytes := sum_le_of_nodup distinct within fun u => linksOf content (documentsAt content records u)
    unfold workAt bytesAt at *
    rcases spent with spent | spent <;> omega

theorem followRecords_panics {docs : List Record} (fault : followRecords content order docs s = .panics) :
    ∃ r ∈ docs, embeddedDocuments content r = .panics := by
  induction docs generalizing s with
  | nil => cases fault
  | cons record rest ih =>
    rcases Checked.bind_eq_panics.mp fault with here | ⟨walk, -, later⟩
    · unfold followRecord at here
      split at here
      · cases here
      · rcases Checked.bind_eq_panics.mp here with known | ⟨found, -, later⟩
        · exact ⟨record, List.mem_cons_self, known⟩
        · cases found <;> cases later
    · cases walk with
      | goes mid => exact (ih later).imp fun _ both => ⟨List.mem_cons_of_mem _ both.1, both.2⟩
      | stops => cases later

/-- The URLs that can be come to: the first ones, and those of all links that are known. -/
def nodesOf (content : Content) (records : List Record) (starts : List Text) : List Text :=
  starts ++ records.flatMap fun r => match embeddedDocuments content r with
    | .returns (some links) => links.map content.urls.pageBase
    | _ => []

theorem length_nodesOf (starts : List Text) :
    (nodesOf content records starts).length = starts.length + (records.map (linkCount content)).sum := by
  unfold nodesOf
  rw [List.length_append, List.length_flatMap]
  congr 3
  funext r
  unfold linkCount
  split <;> simp

theorem mem_nodesOf {starts : List Text} {u : Text} (reached : Reached (· ∈ starts) (KnownTo content records) u) :
    u ∈ nodesOf content records starts := by
  refine reached.invariant (fun u here => List.mem_append_left _ here) fun u v _ _ step => ?_
  obtain ⟨r, there, links, known, link, listed, rfl⟩ := step
  refine List.mem_append_right _ (List.mem_flatMap.mpr ⟨r, (List.mem_filter.mp there).1, ?_⟩)
  rw [known]
  exact List.mem_map_of_mem listed

/-- Each URL is visited once, so that the visits come to an end. -/
theorem explore_panics {starts : List Text} {left : Nat} (state : Visited content records (· ∈ starts) s visited)
    (enough : (nodesOf content records starts).length < visited.length + left)
    (fault : explore content order records left s = .panics) :
    ∃ u, Reached (· ∈ starts) (KnownTo content records) u ∧
      ∃ r ∈ documentsAt content records u, embeddedDocuments content r = .panics := by
  have few := state.exploring.visited_le fun u there => mem_nodesOf (state.exploring.sound u there)
  induction left generalizing s visited with
  | zero => omega
  | succ left ih =>
    unfold explore at fault
    have same := order.urls_perm left s.pending
    split at fault
    case h_1 => cases fault
    case h_2 url rest next =>
      rw [next] at same
      have state := state.reorder same
      rcases Checked.bind_eq_panics.mp fault with here | ⟨walk, first, later⟩
      · obtain ⟨r, there, unread⟩ := followRecords_panics here
        have own := state.exploring.reached (List.mem_append_right _ List.mem_cons_self)
        exact ⟨url, own, r, (order.records_perm _).mem_iff.mp there, unread⟩
      · cases walk with
        | stops => cases later
        | goes mid =>
          have onward := state.goes first
          refine ih onward ?_ later (onward.exploring.visited_le fun u there => mem_nodesOf (onward.exploring.sound u there))
          rw [List.length_append, List.length_singleton]
          omega

/-- What the frames of a URL's documents embed. -/
def FrameTo (content : Content) (records : List Record) (u v : Text) : Prop :=
  ∃ r ∈ documentsAt content records u, ∃ link, Embeds content r link ∧ content.urls.pageBase link = v

theorem frameTo_of_knownTo {u v : Text} (known : KnownTo content records u v) : FrameTo content records u v := by
  obtain ⟨r, there, links, own, link, listed, same⟩ := known
  exact ⟨r, there, link, (embeddedDocuments_eq_some own link).mp listed, same⟩

theorem Visited.reached (state : Visited content records start s visited) (ended : s.pending = []) {u : Text} :
    Reached start (FrameTo content records) u ↔ u ∈ s.retained := by
  have explored := state.exploring
  rw [ended] at explored
  rw [explored.complete]
  refine ⟨fun frames => ?_, fun known => known.mono fun _ _ _ => frameTo_of_knownTo⟩
  refine frames.invariant (fun u here => .start here) fun u v _ known step => .edge known ?_
  obtain ⟨r, there, link, embeds, same⟩ := step
  have split := explored.split.mem_iff.mp (explored.complete.mpr known)
  rw [List.append_nil] at split
  obtain ⟨links, own⟩ := state.known u split r there
  exact ⟨r, there, links, own, link, (embeddedDocuments_eq_some own link).mpr embeds, same⟩

end visits

section result

variable {content : Content} {order : Visiting} {options : ExportOptions} {package : Package} {retained : List Text}

/-- The URLs that are included or not listed, and what they embed, and so on. -/
def Embedded (content : Content) (options : ExportOptions) (package : Package) : Text → Prop :=
  Reached (· ∈ startsOf content options package) (FrameTo content package.archive.records)

theorem unforeseen_mono {records : List Record} {p q : Text → Prop} (wider : ∀ u, p u → q u) :
    Unforeseen content records p → Unforeseen content records q := by
  rintro (⟨u, reached, rest⟩ | ⟨urls, distinct, reached, spent⟩)
  · exact .inl ⟨u, wider u reached, rest⟩
  · exact .inr ⟨urls, distinct, fun u there => wider u (reached u there), spent⟩

theorem starts_visited : Visited content package.archive.records (· ∈ startsOf content options package)
    { retained := startsOf content options package
      pending := ((startsOf content options package).mergeSort textLe).reverse } [] := by
  have begun : Exploring (· ∈ startsOf content options package) (KnownTo content package.archive.records)
      (startsOf content options package) (startsOf content options package) [] :=
    .begin (List.nodup_dedup _) fun _ => Iff.rfl
  have sorted : ((startsOf content options package).mergeSort textLe).reverse.Perm (startsOf content options package) :=
    (List.reverse_perm _).trans (List.mergeSort_perm _ _)
  exact ⟨begun.reorder sorted, by simp, rfl, rfl, Nat.zero_le _, Nat.zero_le _⟩

/-- What is selected is what is embedded, or all pages where that is not to be foreseen. -/
theorem selectedPages_spec (some : options.includeUrls ≠ [])
    (done : selectedPages content order options package = .returns retained) :
    (Unforeseen content package.archive.records (Embedded content options package) ∧ inventoryOf content package ⊆ retained) ∨
      (¬ Unforeseen content package.archive.records (Embedded content options package) ∧
        ∀ u, u ∈ retained ↔ Embedded content options package u) := by
  unfold selectedPages at done
  rw [if_neg some] at done
  obtain ⟨walk, walked, done⟩ := Checked.bind_eq_returns.mp done
  cases walk with
  | goes s =>
    cases done
    obtain ⟨ended, visited, state⟩ := explore_goes starts_visited walked
    refine .inr ⟨fun unforeseen => state.foreseen ended ?_, fun u => (state.reached ended).symm⟩
    have explored := state.exploring
    rw [ended] at explored
    exact unforeseen_mono (fun u reached => explored.complete.mp ((state.reached ended).mp reached)) unforeseen
  | stops part =>
    cases done
    have unforeseen := explore_stops starts_visited walked
    exact .inl ⟨unforeseen_mono (fun u reached => reached.mono fun _ _ _ => frameTo_of_knownTo) unforeseen,
      List.subset_append_right _ _⟩

/-- The selection itself never panics; only the analysis of a document that is come to may. -/
theorem selectedPages_panics (fault : selectedPages content order options package = .panics) :
    ∃ u, Embedded content options package u ∧
      ∃ r ∈ documentsAt content package.archive.records u, embeddedDocuments content r = .panics := by
  unfold selectedPages at fault
  split at fault
  case isTrue => cases fault
  case isFalse =>
    rcases Checked.bind_eq_panics.mp fault with walked | ⟨walk, -, later⟩
    · have enough := @length_nodesOf content package.archive.records (startsOf content options package)
      obtain ⟨u, reached, unread⟩ := explore_panics starts_visited (by rw [List.length_nil]; omega) walked
      exact ⟨u, reached.mono fun _ _ _ => frameTo_of_knownTo, unread⟩
    · cases walk <;> cases later

/-- Whether a record is kept: it is not excluded by the user, and it is no page, or one
that is embedded, or all pages are kept. -/
def Keeps (content : Content) (options : ExportOptions) (package : Package) (record : Record) : Prop :=
  explicitlyExcluded content options record = false ∧
    (content.urls.pageBase record.url ∉ inventoryOf content package ∨
      Unforeseen content package.archive.records (Embedded content options package) ∨
      Embedded content options package (content.urls.pageBase record.url))

theorem excluded_iff (some : options.includeUrls ≠ [])
    (done : selectedPages content order options package = .returns retained) (record : Record) :
    excluded content options package retained record = false ↔ Keeps content options package record := by
  have given : options.includeUrls.isEmpty = false := by
    rw [List.isEmpty_eq_false_iff]
    exact some
  have listed : (content.urls.pageBase record.url ∈ inventoryOf content package →
      content.urls.pageBase record.url ∈ retained) ↔
        (content.urls.pageBase record.url ∉ inventoryOf content package ∨
          Unforeseen content package.archive.records (Embedded content options package) ∨
          Embedded content options package (content.urls.pageBase record.url)) := by
    rcases selectedPages_spec some done with ⟨unforeseen, all⟩ | ⟨foreseen, exact'⟩
    · exact ⟨fun _ => .inr (.inl unforeseen), fun _ there => all there⟩
    · rw [exact', imp_iff_not_or]
      exact or_congr_right ⟨.inr, fun either => either.resolve_left foreseen⟩
  rw [Keeps, ← listed]
  simp [excluded, given]

end result

section sample

end sample

end NixHomeServer.Browsertrix.Engine
