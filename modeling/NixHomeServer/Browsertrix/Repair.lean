import Mathlib.Data.List.Forall2
import Mathlib.Data.Prod.Lex
import NixHomeServer.Browsertrix.Sites
import NixHomeServer.Library.Ranking

/-! The page rows of a repair: which row of the inventory tells of which capture. The
calendar, which reads a date as an instant, is a parameter. -/
namespace NixHomeServer.Browsertrix.Engine

open NixHomeServer.Library

/-- Dates as instants, and the second of an instant. -/
structure Calendar (Stamp : Type) where
  parse : Text → Option Stamp
  second : Stamp → Int

def repairWork : Nat := 2000000

section model

variable {Stamp : Type} [DecidableEq Stamp] (calendar : Calendar Stamp) (successful : List Text)

/-- Failures and variants of a request count among the captures of a URL. -/
def Record.repairCapture (record : Record) : Bool :=
  successful.contains record.url && (record.kind = "response".toList || record.kind = "resource".toList) && record.isHtml

def captures (records : List Record) : List (Nat × Record) :=
  (records.mapIdx fun i record => (i, record)).filter fun c => c.2.repairCapture successful

def captureGroup (records : List Record) (url : Text) : List (Nat × Record) :=
  (captures successful records).filter fun c => c.2.url = url

def isSuccess (status : Nat) : Bool := 200 ≤ status && status < 400

def PageMetadata.failed (page : PageMetadata) : Bool := page.status ≠ 0 && !isSuccess page.status

/-- How many rows are of one URL, one instant and one capture. -/
def pageCount (pages : List PageMetadata) (url : Text) (stamp : Stamp) (capture : Option PageCapture) : Nat :=
  pages.countP fun page => page.url = url && calendar.parse page.ts = some stamp && page.capture = capture

/-- How well a capture fits a row of no capture: by the page's identity, and by the very date. -/
abbrev Score := Bool ×ₗ Bool

def pageScore (page : PageMetadata) (stamp : Stamp) (record : Record) : Option Score :=
  match calendar.parse (record.field "warc-date") with
  | none => none
  | some date =>
    let id := record.field "warc-page-id"
    let matchingId := page.id ≠ [] ∧ page.id = id
    if (page.id ≠ [] ∧ id ≠ [] ∧ page.id ≠ id) ∨ (¬ matchingId ∧ calendar.second stamp ≠ calendar.second date) then none
    else some (toLex (decide (¬ matchingId), decide (stamp ≠ date)))

/-- The loop over the captures of the row's URL. -/
def chooseOwner (page : PageMetadata) (stamp : Stamp) : List (Nat × Record) → Option Score → Option Nat → Option Nat
  | [], _, owner => owner
  | (i, record) :: rest, best, owner =>
    match page.capture with
    | some capture => if capture = .of record then some i else chooseOwner page stamp rest best owner
    | none =>
      match pageScore calendar page stamp record with
      | none => chooseOwner page stamp rest best owner
      | some score =>
        match best with
        | none => chooseOwner page stamp rest (some score) (some i)
        | some previous =>
          if score < previous then chooseOwner page stamp rest (some score) (some i)
          else if score = previous then chooseOwner page stamp rest best none
          else chooseOwner page stamp rest best owner

/-- The capture that a row of the inventory is of, by its place among the records. -/
def ownerOf (pages : List PageMetadata) (records : List Record) (page : PageMetadata) : Option Nat :=
  match calendar.parse page.ts with
  | none => none
  | some stamp =>
    if pageCount calendar pages page.url stamp page.capture ≠ 1 then none
    else chooseOwner calendar page stamp (captureGroup successful records page.url) none none

/-- The loop over the rows, with the work that is left. -/
def associate (pages : List PageMetadata) (records : List Record) : List PageMetadata → Nat → List (Nat × PageMetadata)
  | [], _ => []
  | page :: rest, work =>
    let group := captureGroup successful records page.url
    if page.failed ∨ group = [] ∨ work < group.length then associate pages records rest work
    else
      match ownerOf calendar successful pages records page with
      | none => associate pages records rest (work - group.length)
      | some i => (i, page) :: associate pages records rest (work - group.length)

/-- A row without what a native one has of its page. -/
def Record.barePage (record : Record) : PageMetadata where
  url := record.url
  ts := record.field "warc-date"
  id := record.field "warc-page-id"

/-- The row of a capture, and whether it is a fallback. -/
def capturePage (associated : List (Nat × PageMetadata)) (c : Nat × Record) : PageMetadata × Bool :=
  match (associated.filter fun row => row.1 = c.1).map Prod.snd with
  | [page] => ({ page with capture := some (.of c.2) }, false)
  | _ => ({ c.2.barePage with capture := some (.of c.2) }, true)

/-- The captures by their URLs, each in the order of the records. -/
def groupedCaptures (records : List Record) : List (Nat × Record) :=
  ((((captures successful records).map fun c => c.2.url).dedup).mergeSort textLe).flatMap (captureGroup successful records)

def repairPageMetadata (pages : List PageMetadata) (records : List Record) : List PageMetadata × Nat :=
  let associated := associate calendar successful pages records pages repairWork
  let rows := ((groupedCaptures successful records).filter fun c => isSuccess c.2.status).map (capturePage associated)
  (rows.map Prod.fst, rows.countP Prod.snd)

end model

section meaning

variable {Stamp : Type} (calendar : Calendar Stamp) (successful : List Text)

/-- A row of no capture is not contradicted by one: the page's identity is not another
one, and it is the same or the capture is of the same second. -/
def Compatible (page : PageMetadata) (stamp : Stamp) (record : Record) : Prop :=
  (page.id = [] ∨ record.field "warc-page-id" = [] ∨ page.id = record.field "warc-page-id") ∧
    ∃ date, calendar.parse (record.field "warc-date") = some date ∧
      ((page.id ≠ [] ∧ page.id = record.field "warc-page-id") ∨ calendar.second stamp = calendar.second date)

/-- The one capture has the page's identity or the very date, and the other has not. -/
def Better (page : PageMetadata) (stamp : Stamp) (record other : Record) : Prop :=
  let same (r : Record) := page.id ≠ [] ∧ page.id = r.field "warc-page-id"
  let dated (r : Record) := calendar.parse (r.field "warc-date") = some stamp
  (same record ∧ ¬ same other) ∨ ((same record ↔ same other) ∧ dated record ∧ ¬ dated other)

/-- A row of the inventory tells of a capture: it did not fail, no other row is of its URL,
instant and capture, and it is bound to this capture, or it is bound to none and this one
is the best of those that do not contradict it, with no other one as good. -/
structure TellsOf (pages : List PageMetadata) (records : List Record) (page : PageMetadata) (record : Record) : Prop where
  listed : page ∈ pages
  live : page.failed = false
  capture : record ∈ records ∧ record.repairCapture successful = true ∧ record.url = page.url
  single : ∃ stamp, calendar.parse page.ts = some stamp ∧
    (∃ before after, pages = before ++ page :: after ∧ ∀ other ∈ before ++ after,
      ¬ (other.url = page.url ∧ calendar.parse other.ts = some stamp ∧ other.capture = page.capture)) ∧
    match page.capture with
    | some capture => capture = .of record
    | none => Compatible calendar page stamp record ∧ ∀ other ∈ records, other ≠ record → other.repairCapture successful = true →
        other.url = page.url → Compatible calendar page stamp other → Better calendar page stamp record other

/-- The only row that tells of a capture. -/
def OnlyRow (pages : List PageMetadata) (records : List Record) (page : PageMetadata) (record : Record) : Prop :=
  TellsOf calendar successful pages records page record ∧
    ∀ other, TellsOf calendar successful pages records other record → other = page

/-- The row that a capture is given. -/
def GivenRow (pages : List PageMetadata) (records : List Record) (record : Record) (row : PageMetadata) : Prop :=
  (∃ page, OnlyRow calendar successful pages records page record ∧ row = { page with capture := some (.of record) }) ∨
    ((¬ ∃ page, OnlyRow calendar successful pages records page record) ∧ row = { record.barePage with capture := some (.of record) })

variable {calendar} {page : PageMetadata} {stamp : Stamp} {record other : Record}

variable {successful} {pages : List PageMetadata} {records : List Record} {row : PageMetadata}

theorem OnlyRow.unique {page page' : PageMetadata} (first : OnlyRow calendar successful pages records page record)
    (second : OnlyRow calendar successful pages records page' record) : page = page' :=
  second.2 page first.1

theorem GivenRow.unique {row' : PageMetadata} (first : GivenRow calendar successful pages records record row)
    (second : GivenRow calendar successful pages records record row') : row = row' := by
  rcases first with ⟨page, only, rfl⟩ | ⟨none, rfl⟩
  · rcases second with ⟨page', only', rfl⟩ | ⟨none', -⟩
    · rw [only.unique only']
    · exact absurd ⟨page, only⟩ none'
  · rcases second with ⟨page', only', -⟩ | ⟨-, rfl⟩
    · exact absurd ⟨page', only'⟩ none
    · rfl

theorem GivenRow.capture (given : GivenRow calendar successful pages records record row) : row.capture = some (.of record) := by
  rcases given with ⟨page, -, rfl⟩ | ⟨-, rfl⟩ <;> rfl

/-- What is made for a capture: its row, and whether it is a fallback. -/
def Made (calendar : Calendar Stamp) (successful : List Text) (pages : List PageMetadata) (records : List Record) (record : Record)
    (made : PageMetadata × Bool) : Prop :=
  GivenRow calendar successful pages records record made.1 ∧ (made.2 = true ↔ ¬ ∃ page, OnlyRow calendar successful pages records page record)

theorem Made.unique {made made' : PageMetadata × Bool} (first : Made calendar successful pages records record made)
    (second : Made calendar successful pages records record made') : made = made' :=
  Prod.ext (first.1.unique second.1) (Bool.eq_iff_iff.mpr (first.2.trans second.2.symm))

end meaning

section candidates

variable {Stamp : Type} [DecidableEq Stamp] {calendar : Calendar Stamp} {successful : List Text} {pages : List PageMetadata}
  {records : List Record} {page : PageMetadata} {stamp : Stamp} {record other : Record}

theorem pageScore_eq_some {score : Score} : pageScore calendar page stamp record = some score ↔
    Compatible calendar page stamp record ∧ score = toLex (decide ¬ (page.id ≠ [] ∧ page.id = record.field "warc-page-id"),
      decide ¬ calendar.parse (record.field "warc-date") = some stamp) := by
  unfold pageScore Compatible
  cases calendar.parse (record.field "warc-date") with
  | none => simp
  | some date =>
    have instant : decide (stamp ≠ date) = decide ¬ some date = some stamp := by
      rw [decide_eq_decide, Option.some.injEq, eq_comm]
    dsimp only
    rw [instant]
    generalize record.field "warc-page-id" = id
    split
    case isTrue conflict =>
      refine iff_of_false nofun ?_
      rintro ⟨⟨agree, date', same, near⟩, -⟩
      cases same
      tauto
    case isFalse clear =>
      have agree : page.id = [] ∨ id = [] ∨ page.id = id := by tauto
      have near : (page.id ≠ [] ∧ page.id = id) ∨ calendar.second stamp = calendar.second date := by tauto
      rw [Option.some.injEq, eq_comm]
      exact ⟨fun same => ⟨⟨agree, date, rfl, near⟩, same⟩, fun both => both.2⟩

/-- The order of scores: first what the one has and the other has not, then the other. -/
theorem toLex_not_lt {a b c d : Prop} [Decidable a] [Decidable b] [Decidable c] [Decidable d] :
    (toLex (decide ¬ a, decide ¬ c) : Score) < toLex (decide ¬ b, decide ¬ d) ↔ (a ∧ ¬ b) ∨ ((a ↔ b) ∧ c ∧ ¬ d) := by
  rw [Prod.Lex.toLex_lt_toLex]
  by_cases a <;> by_cases b <;> by_cases c <;> by_cases d <;> simp [*]

theorem score_lt {score score' : Score} (scored : pageScore calendar page stamp record = some score)
    (scored' : pageScore calendar page stamp other = some score') : score < score' ↔ Better calendar page stamp record other := by
  obtain ⟨-, rfl⟩ := pageScore_eq_some.mp scored
  obtain ⟨-, rfl⟩ := pageScore_eq_some.mp scored'
  exact toLex_not_lt

/-- For a row of no capture the loop is the general one. -/
theorem chooseOwner_unbound (unbound : page.capture = none) (group : List (Nat × Record)) (best : Option Score)
    (owner : Option (Nat × Record)) : chooseOwner calendar page stamp group best (owner.map Prod.fst) =
      (onlyBest (fun c => pageScore calendar page stamp c.2) group best owner).map Prod.fst := by
  induction group generalizing best owner with
  | nil => rfl
  | cons c rest ih =>
    obtain ⟨i, record⟩ := c
    rw [chooseOwner, unbound, onlyBest]
    dsimp only
    cases pageScore calendar page stamp record with
    | none => exact ih best owner
    | some score =>
      cases best with
      | none => exact ih (some score) (some (i, record))
      | some previous =>
        dsimp only
        split
        · exact ih (some score) (some (i, record))
        · split
          · exact ih (some previous) none
          · exact ih (some previous) owner

theorem chooseOwner_bound {capture : PageCapture} (bound : page.capture = some capture) (group : List (Nat × Record))
    (best : Option Score) : chooseOwner calendar page stamp group best none =
      (group.find? fun c => capture = .of c.2).map Prod.fst := by
  induction group with
  | nil => rfl
  | cons c rest ih =>
    obtain ⟨i, record⟩ := c
    rw [chooseOwner, bound]
    dsimp only
    split
    · rename_i same
      rw [List.find?_cons_of_pos (by simpa using same)]
      rfl
    · rename_i other
      rw [List.find?_cons_of_neg (by simpa using other), ih]

end candidates

section captures

variable {successful : List Text} {records records' : List Record} {record : Record} {i j : Nat} {url : Text}

theorem mem_captures : (i, record) ∈ captures successful records ↔ records[i]? = some record ∧ record.repairCapture successful = true := by
  simp only [captures, List.mem_filter, List.mem_mapIdx, Prod.mk.injEq]
  constructor
  · rintro ⟨⟨i, inside, rfl, rfl⟩, capture⟩
    exact ⟨List.getElem?_eq_getElem inside, capture⟩
  · rintro ⟨there, capture⟩
    obtain ⟨inside, same⟩ := List.getElem?_eq_some_iff.mp there
    exact ⟨⟨i, inside, rfl, same⟩, capture⟩

theorem captures_nodup : (captures successful records).Nodup := by
  refine List.Nodup.filter _ (List.Nodup.of_map Prod.fst ?_)
  have places : (records.mapIdx fun i record => (i, record)).map Prod.fst = List.range records.length := by
    apply List.ext_getElem
    · simp
    · intro i inside inside'
      simp
  rw [places]
  exact List.nodup_range

theorem captures_records : (captures successful records).map Prod.snd = records.filter (Record.repairCapture successful) := by
  have all : (records.mapIdx fun i record => (i, record)).map Prod.snd = records := by
    apply List.ext_getElem
    · simp
    · intro i inside inside'
      simp
  conv_rhs => rw [← all]
  rw [List.filter_map]
  rfl

theorem mem_captureGroup : (i, record) ∈ captureGroup successful records url ↔
    records[i]? = some record ∧ record.repairCapture successful = true ∧ record.url = url := by
  rw [captureGroup, List.mem_filter, mem_captures, decide_eq_true_iff, and_assoc]

/-- The captures by their URLs are all of them. -/
theorem groupedCaptures_perm : (groupedCaptures successful records).Perm (captures successful records) := by
  refine (List.perm_ext_iff_of_nodup ?_ captures_nodup).mpr fun c => ?_
  · refine List.nodup_flatMap.mpr ⟨fun url _ => captures_nodup.filter _, ?_⟩
    have distinct : ((((captures successful records).map fun c => c.2.url).dedup).mergeSort textLe).Nodup :=
      (List.mergeSort_perm _ _).nodup_iff.mpr (List.nodup_dedup _)
    refine distinct.imp fun apart c there there' => apart ?_
    rw [← (mem_captureGroup.mp there).2.2, ← (mem_captureGroup.mp there').2.2]
  · constructor
    · intro there
      obtain ⟨url, -, there⟩ := List.mem_flatMap.mp there
      exact (List.mem_filter.mp there).1
    · intro there
      refine List.mem_flatMap.mpr ⟨c.2.url, ?_, List.mem_filter.mpr ⟨there, by simp⟩⟩
      exact (List.mergeSort_perm _ _).mem_iff.mpr (List.mem_dedup.mpr (List.mem_map_of_mem there))

theorem Apart.Sites.nodup (apart : Apart.Sites records) : records.Nodup := List.Nodup.of_map Record.site apart

theorem Apart.Sites.perm (apart : Apart.Sites records) (perm : records'.Perm records) : Apart.Sites records' :=
  (perm.map Record.site).nodup_iff.mpr apart

theorem site_of_capture {other : Record} (same : PageCapture.of record = .of other) : record.site = other.site := by
  simp only [PageCapture.of, PageCapture.mk.injEq] at same
  obtain ⟨-, member, offset, body⟩ := same
  simp only [Record.site, member, offset, body]

/-- A capture is of one record. -/
theorem Apart.Sites.eq_of_capture {other : Record} (apart : Apart.Sites records) (there : record ∈ records) (there' : other ∈ records)
    (same : PageCapture.of record = .of other) : record = other :=
  List.inj_on_of_nodup_map apart there there' (site_of_capture same)

theorem Apart.Sites.place (apart : Apart.Sites records) (here : records[i]? = some record) (there : records[j]? = some record) : i = j :=
  (List.getElem?_inj (List.getElem?_eq_some_iff.mp here).1 apart.nodup).mp (here.trans there.symm)

end captures

section owners

variable {Stamp : Type} [DecidableEq Stamp] {calendar : Calendar Stamp} {successful : List Text} {pages pages' : List PageMetadata}
  {records records' : List Record} {page : PageMetadata} {stamp : Stamp} {record other : Record} {i : Nat}

theorem countP_eq_one_iff {α : Type} {holds : α → Bool} {l : List α} {a : α} (there : a ∈ l) (here : holds a = true) :
    l.countP holds = 1 ↔ ∃ before after, l = before ++ a :: after ∧ ∀ b ∈ before ++ after, holds b = false := by
  constructor
  · intro one
    obtain ⟨before, after, rfl⟩ := List.append_of_mem there
    refine ⟨before, after, rfl, fun b inside => ?_⟩
    rw [List.countP_append, List.countP_cons_of_pos here] at one
    have none : (before ++ after).countP holds = 0 := by
      rw [List.countP_append]
      omega
    simpa using List.countP_eq_zero.mp none b inside
  · rintro ⟨before, after, rfl, none⟩
    have zero : (before ++ after).countP holds = 0 := List.countP_eq_zero.mpr fun b inside => by simp [none b inside]
    rw [List.countP_append] at zero
    rw [List.countP_append, List.countP_cons_of_pos here]
    omega

theorem pageCount_eq_one_iff (there : page ∈ pages) (dated : calendar.parse page.ts = some stamp) :
    pageCount calendar pages page.url stamp page.capture = 1 ↔ ∃ before after, pages = before ++ page :: after ∧
      ∀ other ∈ before ++ after, ¬ (other.url = page.url ∧ calendar.parse other.ts = some stamp ∧ other.capture = page.capture) := by
  rw [pageCount, countP_eq_one_iff there (by simp [dated])]
  simp only [Bool.and_eq_false_iff, decide_eq_false_iff_not, not_and_or, or_assoc]

/-- The loop over the captures of a URL finds the one that the row tells of. -/
theorem chooseOwner_eq_some_iff (apart : Apart.Sites records) :
    chooseOwner calendar page stamp (captureGroup successful records page.url) none none = some i ↔
      ∃ record, records[i]? = some record ∧ (record.repairCapture successful = true ∧ record.url = page.url) ∧
        match page.capture with
        | some capture => capture = .of record
        | none => Compatible calendar page stamp record ∧ ∀ other ∈ records, other ≠ record → other.repairCapture successful = true →
            other.url = page.url → Compatible calendar page stamp other → Better calendar page stamp record other := by
  cases bound : page.capture with
  | some capture =>
    rw [chooseOwner_bound bound]
    constructor
    · intro found
      obtain ⟨⟨j, record⟩, listed, rfl⟩ := Option.map_eq_some_iff.mp found
      have same : capture = .of record := by simpa using List.find?_some listed
      obtain ⟨there, here⟩ := mem_captureGroup.mp (List.mem_of_find?_eq_some listed)
      exact ⟨record, there, here, same⟩
    · rintro ⟨record, there, here, same⟩
      have listed : (i, record) ∈ captureGroup successful records page.url := mem_captureGroup.mpr ⟨there, here⟩
      cases found : (captureGroup successful records page.url).find? fun c => capture = .of c.2 with
      | none => exact absurd (List.find?_eq_none.mp found _ listed) (by simpa using same)
      | some c =>
        obtain ⟨j, other⟩ := c
        have same' : capture = .of other := by simpa using List.find?_some found
        have there' := (mem_captureGroup.mp (List.mem_of_find?_eq_some found)).1
        obtain rfl := apart.eq_of_capture (List.mem_of_getElem? there) (List.mem_of_getElem? there') (same.symm.trans same')
        rw [Option.map_some, apart.place there there']
  | none =>
    have distinct : (captureGroup successful records page.url).Nodup := captures_nodup.filter _
    have loop := @chooseOwner_unbound _ _ calendar page stamp bound (captureGroup successful records page.url) none none
    rw [Option.map_none] at loop
    rw [loop, Option.map_eq_some_iff]
    constructor
    · rintro ⟨⟨j, record⟩, found, rfl⟩
      obtain ⟨listed, score, scored, less⟩ := (onlyBest_eq_some_iff distinct).mp found
      obtain ⟨there, here⟩ := mem_captureGroup.mp listed
      refine ⟨record, there, here, (pageScore_eq_some.mp scored).1, fun other inside differ capture same fits => ?_⟩
      obtain ⟨k, there'⟩ := List.getElem?_of_mem inside
      have scored' := pageScore_eq_some.mpr ⟨fits, rfl⟩
      have lower := less (k, other) (mem_captureGroup.mpr ⟨there', capture, same⟩) (fun equal => differ (Prod.mk.inj equal).2) _ scored'
      exact (score_lt scored scored').mp lower
    · rintro ⟨record, there, here, fits, best⟩
      refine ⟨(i, record), (onlyBest_eq_some_iff distinct).mpr ⟨mem_captureGroup.mpr ⟨there, here⟩, _, pageScore_eq_some.mpr ⟨fits, rfl⟩,
        fun c listed differ score' scored' => ?_⟩, rfl⟩
      obtain ⟨k, other⟩ := c
      obtain ⟨there', capture, same⟩ := mem_captureGroup.mp listed
      have other' : other ≠ record := by
        rintro rfl
        exact differ (Prod.ext (apart.place there' there) rfl)
      exact (score_lt (pageScore_eq_some.mpr ⟨fits, rfl⟩) scored').mpr
        (best other (List.mem_of_getElem? there') other' capture same (pageScore_eq_some.mp scored').1)

/-- The capture that is found for a row is the one that it tells of. -/
theorem ownerOf_eq_some_iff (apart : Apart.Sites records) (there : page ∈ pages) (live : page.failed = false) :
    ownerOf calendar successful pages records page = some i ↔
      ∃ record, records[i]? = some record ∧ TellsOf calendar successful pages records page record := by
  unfold ownerOf
  cases dated : calendar.parse page.ts with
  | none =>
    refine iff_of_false nofun ?_
    rintro ⟨record, -, tells⟩
    obtain ⟨stamp, dated', -⟩ := tells.single
    rw [dated] at dated'
    cases dated'
  | some stamp =>
    have single := @pageCount_eq_one_iff _ _ calendar pages page stamp there dated
    dsimp only
    split
    case isTrue several =>
      refine iff_of_false nofun ?_
      rintro ⟨record, -, tells⟩
      obtain ⟨stamp', dated', alone, -⟩ := tells.single
      rw [dated] at dated'
      cases dated'
      exact several (single.mpr alone)
    case isFalse one =>
      have alone := single.mp (not_not.mp one)
      rw [chooseOwner_eq_some_iff apart]
      constructor
      · rintro ⟨record, found, here, fits⟩
        exact ⟨record, found, there, live, ⟨List.mem_of_getElem? found, here⟩, stamp, dated, alone, fits⟩
      · rintro ⟨record, found, tells⟩
        obtain ⟨stamp', dated', -, fits⟩ := tells.single
        rw [dated] at dated'
        cases dated'
        exact ⟨record, found, tells.capture.2, fits⟩

/-- A row tells of one capture at most. -/
theorem TellsOf.unique (apart : Apart.Sites records) (first : TellsOf calendar successful pages records page record)
    (second : TellsOf calendar successful pages records page other) : record = other := by
  obtain ⟨i, here⟩ := List.getElem?_of_mem first.capture.1
  obtain ⟨j, there⟩ := List.getElem?_of_mem second.capture.1
  have owner := (ownerOf_eq_some_iff apart first.listed first.live).mpr ⟨record, here, first⟩
  have owner' := (ownerOf_eq_some_iff apart second.listed second.live).mpr ⟨other, there, second⟩
  rw [owner] at owner'
  cases owner'
  exact Option.some.inj (here.symm.trans there)

end owners

section rows

variable {Stamp : Type} [DecidableEq Stamp] {calendar : Calendar Stamp} {successful : List Text} {pages pages' : List PageMetadata}
  {records records' : List Record} {page : PageMetadata} {record other : Record} {row : PageMetadata} {i : Nat}

/-- What the search for the captures of the rows costs. -/
def repairCost (successful : List Text) (pages : List PageMetadata) (records : List Record) : Nat :=
  (pages.map fun page => if page.failed then 0 else (captureGroup successful records page.url).length).sum

theorem ownerOf_of_nil (none : captureGroup successful records page.url = []) :
    ownerOf calendar successful pages records page = .none := by
  unfold ownerOf
  rw [none]
  split
  · rfl
  · split <;> rfl

/-- With enough work left the loop is a search for every row that did not fail. -/
theorem associate_eq {rest : List PageMetadata} {work : Nat} (cheap : repairCost successful rest records ≤ work) :
    associate calendar successful pages records rest work =
      rest.filterMap fun page => if page.failed then none else
        (ownerOf calendar successful pages records page).map fun i => (i, page) := by
  induction rest generalizing work with
  | nil => rfl
  | cons page rest ih =>
    simp only [repairCost, List.map_cons, List.sum_cons] at cheap ih
    rw [associate, List.filterMap_cons]
    by_cases failed : page.failed = true
    · rw [if_pos (.inl failed), if_pos failed]
      rw [if_pos failed] at cheap
      exact ih (by omega)
    · rw [if_neg failed]
      rw [if_neg failed] at cheap
      by_cases none : captureGroup successful records page.url = []
      · rw [if_pos (.inr (.inl none)), ownerOf_of_nil none]
        exact ih (by omega)
      · have enough : ¬ (page.failed = true ∨ captureGroup successful records page.url = [] ∨
            work < (captureGroup successful records page.url).length) := by
          rintro (yes | yes | short)
          · exact failed yes
          · exact none yes
          · omega
        rw [if_neg enough]
        have rest' := ih (show _ ≤ work - (captureGroup successful records page.url).length by omega)
        cases ownerOf calendar successful pages records page with
        | none => exact rest'
        | some i => exact congrArg _ rest'

/-- The rows that were associated with a capture. -/
theorem associate_filter (cheap : repairCost successful pages records ≤ repairWork) (i : Nat) :
    ((associate calendar successful pages records pages repairWork).filter fun row => row.1 = i).map Prod.snd =
      pages.filter fun page => !page.failed && decide (ownerOf calendar successful pages records page = some i) := by
  rw [associate_eq cheap]
  generalize ownerOf calendar successful pages records = owner
  clear cheap
  induction pages with
  | nil => rfl
  | cons page rest ih =>
    rw [List.filterMap_cons, List.filter_cons]
    cases page.failed with
    | true => simpa using ih
    | false =>
      cases owner page with
      | none => simpa using ih
      | some j =>
        by_cases same : j = i
        · simpa [same] using ih
        · simpa [same] using ih

theorem mem_associated (apart : Apart.Sites records) (here : records[i]? = some record) :
    (page ∈ pages.filter fun page => !page.failed && decide (ownerOf calendar successful pages records page = some i)) ↔
      TellsOf calendar successful pages records page record := by
  rw [List.mem_filter, Bool.and_eq_true, Bool.not_eq_true', decide_eq_true_iff]
  constructor
  · rintro ⟨there, live, owned⟩
    obtain ⟨record', here', tells⟩ := (ownerOf_eq_some_iff apart there live).mp owned
    exact Option.some.inj (here.symm.trans here') ▸ tells
  · intro tells
    exact ⟨tells.listed, tells.live, (ownerOf_eq_some_iff apart tells.listed tells.live).mpr ⟨record, here, tells⟩⟩

/-- A row is the only one for a capture just where the list of them is that row. -/
theorem associated_eq_singleton (apart : Apart.Sites records) (here : records[i]? = some record) :
    (pages.filter fun page => !page.failed && decide (ownerOf calendar successful pages records page = some i)) = [page] ↔
      OnlyRow calendar successful pages records page record := by
  have member : ∀ other, (other ∈ pages.filter fun page => !page.failed && decide (ownerOf calendar successful pages records page = some i)) ↔
      TellsOf calendar successful pages records other record := fun other => mem_associated apart here
  constructor
  · intro only
    refine ⟨(member page).mp (only ▸ List.mem_singleton_self page), fun other tells => ?_⟩
    exact List.mem_singleton.mp (only ▸ (member other).mpr tells)
  · rintro ⟨tells, only⟩
    obtain ⟨stamp, dated, ⟨before, after, split, others⟩, -⟩ := tells.single
    have chosen := (member page).mpr tells
    -- another row that tells of the capture would be this one, and this one stands here only
    have none : ∀ part : List PageMetadata, (∀ other ∈ part, other ∈ before ++ after) →
        (part.filter fun page => !page.failed && decide (ownerOf calendar successful pages records page = some i)) = [] := by
      intro part inside
      refine List.filter_eq_nil_iff.mpr fun other there here' => ?_
      have listed : other ∈ pages := by
        rw [split]
        rcases List.mem_append.mp (inside other there) with there | there
        · exact List.mem_append_left _ there
        · exact List.mem_append_right _ (List.mem_cons_of_mem _ there)
      have same := only other ((member other).mp (List.mem_filter.mpr ⟨listed, here'⟩))
      refine others other (inside other there) ?_
      rw [same]
      exact ⟨rfl, dated, rfl⟩
    have kept : (!page.failed && decide (ownerOf calendar successful pages records page = some i)) = true := (List.mem_filter.mp chosen).2
    conv_lhs => rw [show pages.filter _ = (before ++ page :: after).filter _ from congrArg _ split]
    rw [List.filter_append, List.filter_cons, if_pos kept, none before fun other there => List.mem_append_left _ there,
      none after fun other there => List.mem_append_right _ there, List.nil_append]

/-- Every capture is given its row, and counted where it is a fallback. -/
theorem capturePage_given (apart : Apart.Sites records) (cheap : repairCost successful pages records ≤ repairWork)
    (here : records[i]? = some record) :
    GivenRow calendar successful pages records record
        (capturePage (associate calendar successful pages records pages repairWork) (i, record)).1 ∧
      ((capturePage (associate calendar successful pages records pages repairWork) (i, record)).2 = true ↔
        ¬ ∃ page, OnlyRow calendar successful pages records page record) := by
  have only : ∀ page, _ ↔ _ := fun page => @associated_eq_singleton _ _ calendar successful pages records page record i apart here
  unfold capturePage
  rw [associate_filter cheap]
  generalize (pages.filter fun page => !page.failed && decide (ownerOf calendar successful pages records page = some i)) = rows at only
  split
  · rename_i page
    have sole := (only page).mp rfl
    exact ⟨.inl ⟨page, sole, rfl⟩, iff_of_false nofun fun none => none ⟨page, sole⟩⟩
  · rename_i several
    have none : ¬ ∃ page, OnlyRow calendar successful pages records page record := by
      rintro ⟨page, sole⟩
      exact several page ((only page).mpr sole)
    exact ⟨.inr ⟨none, rfl⟩, iff_of_true rfl none⟩

/-- What a row tells of does not depend on the order of the rows or of the records. -/
theorem tellsOf_perm (perm : pages'.Perm pages) (perm' : records'.Perm records) :
    TellsOf calendar successful pages' records' page record ↔ TellsOf calendar successful pages records page record := by
  suffices half : ∀ {pages pages' : List PageMetadata} {records records' : List Record}, pages'.Perm pages → records'.Perm records →
      TellsOf calendar successful pages' records' page record → TellsOf calendar successful pages records page record from
    ⟨half perm perm', half perm.symm perm'.symm⟩
  intro pages pages' records records' perm perm' tells
  obtain ⟨stamp, dated, alone, fits⟩ := tells.single
  have listed := perm.mem_iff.mp tells.listed
  have count : pageCount calendar pages page.url stamp page.capture = 1 :=
    (perm.countP_eq _).symm.trans ((pageCount_eq_one_iff tells.listed dated).mpr alone)
  refine ⟨listed, tells.live, ⟨perm'.mem_iff.mp tells.capture.1, tells.capture.2⟩, stamp, dated,
    (pageCount_eq_one_iff listed dated).mp count, ?_⟩
  cases bound : page.capture with
  | some capture =>
    rw [bound] at fits
    exact fits
  | none =>
    rw [bound] at fits
    exact ⟨fits.1, fun other there => fits.2 other (perm'.mem_iff.mpr there)⟩

theorem onlyRow_perm (perm : pages'.Perm pages) (perm' : records'.Perm records) :
    OnlyRow calendar successful pages' records' page record ↔ OnlyRow calendar successful pages records page record := by
  simp only [OnlyRow, tellsOf_perm perm perm']

theorem givenRow_perm (perm : pages'.Perm pages) (perm' : records'.Perm records) :
    GivenRow calendar successful pages' records' record row ↔ GivenRow calendar successful pages records record row := by
  simp only [GivenRow, onlyRow_perm perm perm']

/-- The captures that a repair takes over. -/
def repairedCaptures (successful : List Text) (records : List Record) : List Record :=
  records.filter fun record => isSuccess record.status && record.repairCapture successful

/-- There is one row for each of them, in some order. -/
theorem repair_made (apart : Apart.Sites records) (cheap : repairCost successful pages records ≤ repairWork) :
    ∃ order made, order.Perm (repairedCaptures successful records) ∧ List.Forall₂ (Made calendar successful pages records) order made ∧
      repairPageMetadata calendar successful pages records = (made.map Prod.fst, made.countP Prod.snd) := by
  refine ⟨((groupedCaptures successful records).filter fun c => isSuccess c.2.status).map Prod.snd, _, ?_, ?_, rfl⟩
  · have kept := (((@groupedCaptures_perm successful records).filter fun c => isSuccess c.2.status).map Prod.snd)
    refine kept.trans (List.Perm.of_eq ?_)
    rw [repairedCaptures, ← List.filter_filter, ← captures_records, List.filter_map]
    rfl
  · rw [List.forall₂_map_left_iff, List.forall₂_map_right_iff, List.forall₂_same]
    intro c there
    have listed := groupedCaptures_perm.mem_iff.mp (List.mem_filter.mp there).1
    exact capturePage_given apart cheap (mem_captures.mp listed).1

/-- One row for every capture, bound to it, with what the only row says that tells of it. -/
structure SoundRows (calendar : Calendar Stamp) (successful : List Text) (pages : List PageMetadata) (records : List Record)
    (rows : List PageMetadata) : Prop where
  each : ∃ order, order.Perm (repairedCaptures successful records) ∧
    List.Forall₂ (fun record row => row.capture = some (.of record) ∧ GivenRow calendar successful pages records record row) order rows
  bound : (rows.map PageMetadata.capture).Nodup
  once : ∀ page record other, TellsOf calendar successful pages records page record →
    TellsOf calendar successful pages records page other → record = other

theorem repair_sound (apart : Apart.Sites records) (cheap : repairCost successful pages records ≤ repairWork) :
    SoundRows calendar successful pages records (repairPageMetadata calendar successful pages records).1 := by
  obtain ⟨order, made, perm, each, same⟩ := @repair_made _ _ calendar successful pages records apart cheap
  rw [same]
  have given : List.Forall₂ (fun record row => row.capture = some (.of record) ∧ GivenRow calendar successful pages records record row)
      order (made.map Prod.fst) :=
    List.forall₂_map_right_iff.mpr (each.imp fun record made here => ⟨here.1.capture, here.1⟩)
  refine ⟨⟨order, perm, given⟩, ?_, fun page record other first second => first.unique apart second⟩
  have named : (made.map Prod.fst).map PageMetadata.capture = order.map fun record => some (.of record) := by
    generalize made.map Prod.fst = rows at given
    clear perm each
    induction given with
    | nil => rfl
    | cons head _ ih => rw [List.map_cons, List.map_cons, head.1, ih]
  have inside : ∀ record ∈ order, record ∈ records := fun record there => (List.mem_filter.mp (perm.mem_iff.mp there)).1
  have distinct : order.Nodup := perm.nodup_iff.mpr (apart.nodup.filter _)
  rw [named]
  refine distinct.map_on fun record there other there' same => ?_
  exact apart.eq_of_capture (inside record there) (inside other there') (Option.some.inj same)

/-- The rows are the same ones in whatever order rows and records are given. -/
theorem repair_perm (apart : Apart.Sites records) (cheap : repairCost successful pages records ≤ repairWork)
    (perm : pages'.Perm pages) (perm' : records'.Perm records) :
    (repairPageMetadata calendar successful pages' records').1.Perm (repairPageMetadata calendar successful pages records).1 ∧
      (repairPageMetadata calendar successful pages' records').2 = (repairPageMetadata calendar successful pages records).2 := by
  have group : ∀ url, (captureGroup successful records' url).length = (captureGroup successful records url).length := by
    intro url
    have counted : ∀ all : List Record, (captureGroup successful all url).length =
        (all.filter (Record.repairCapture successful)).countP fun record => record.url = url := by
      intro all
      rw [captureGroup, ← List.countP_eq_length_filter, ← captures_records, List.countP_map]
      rfl
    rw [counted, counted, (perm'.filter _).countP_eq]
  have cost : repairCost successful pages' records' = repairCost successful pages records := by
    unfold repairCost
    simp only [group]
    exact (perm.map _).sum_nat
  obtain ⟨order, made, ordered, each, same⟩ := @repair_made _ _ calendar successful pages records apart cheap
  obtain ⟨order', made', ordered', each', same'⟩ := @repair_made _ _ calendar successful pages' records' (apart.perm perm') (cost ▸ cheap)
  have both : order'.Perm order := ordered'.trans ((perm'.filter _).trans ordered.symm)
  obtain ⟨made'', each'', shuffled⟩ := List.perm_comp_forall₂ both each
  have equal : made' = made'' := by
    clear shuffled ordered' both same' each ordered
    induction each' generalizing made'' with
    | nil => cases each''; rfl
    | cons head _ ih =>
      cases each'' with
      | cons head' rest =>
        have here : Made calendar successful pages records _ _ := ⟨(givenRow_perm perm perm').mp head.1, by
          rw [head.2]
          simp only [onlyRow_perm perm perm']⟩
        rw [here.unique head', ih _ rest]
  rw [same, same', equal]
  exact ⟨shuffled.map _, shuffled.countP_eq _⟩

theorem repair_rows_match {reading : Reading} {file : ZipDirectory.File} {id : Nat} {loaded : Loaded} {inputs : List Archive}
    {sha256 : Text} {archive : Archive} (read : load reading file id = .returns loaded)
    (ready : hydrate inputs ⟨loaded.records, sha256⟩ = .returns archive)
    (cheap : repairCost successful pages archive.records ≤ repairWork) :
    SoundRows calendar successful pages archive.records (repairPageMetadata calendar successful pages archive.records).1 ∧
      ∀ pages' records', pages'.Perm pages → records'.Perm archive.records →
        (repairPageMetadata calendar successful pages' records').1.Perm (repairPageMetadata calendar successful pages archive.records).1 ∧
          (repairPageMetadata calendar successful pages' records').2 = (repairPageMetadata calendar successful pages archive.records).2 := by
  have apart := hydrate_sites read ready
  exact ⟨repair_sound apart cheap, fun pages' records' perm perm' => repair_perm apart cheap perm perm'⟩

end rows

section sample

def pageText : Text :=
  "WARC/1.0\r\nWARC-Type: resource\r\nWARC-Target-URI: u\r\nWARC-Date: now\r\nContent-Type: text/html\r\nContent-Length: 0\r\n\r\n\r\n\r\n".toList

/-- A file with one capture of a page. -/
def pageReading : Reading :=
  { packedReading with
    sources := fun size start stop => { wholeSource size start stop with
      decode := fun w => { (wholeSource size start stop).decode w with chunks := [utf8 pageText] } } }

/-- A calendar to which every text is an instant of one second. -/
def flatCalendar : Calendar Text := ⟨some, fun _ => 0⟩

def pageRow : PageMetadata := { url := ['u'], ts := "now".toList, text := ['t'] }

theorem rows_of_a_page : ∃ loaded archive, load pageReading packedFile 0 = .returns loaded ∧
    hydrate [] ⟨loaded.records, []⟩ = .returns archive ∧
      (repairPageMetadata flatCalendar [['u']] [pageRow] archive.records).1.map PageMetadata.text = [['t']] ∧
      SoundRows flatCalendar [['u']] [pageRow] archive.records (repairPageMetadata flatCalendar [['u']] [pageRow] archive.records).1 := by
  have placed : (load pageReading packedFile 0 >>= fun loaded => hydrate [] ⟨loaded.records, []⟩ >>= fun archive =>
      Checked.ensure (repairCost [['u']] [pageRow] archive.records ≤ repairWork ∧
        (repairPageMetadata flatCalendar [['u']] [pageRow] archive.records).1.map PageMetadata.text = [['t']]) "") = .returns () := by
    decide +kernel
  obtain ⟨loaded, read, placed⟩ := Checked.bind_eq_returns.mp placed
  obtain ⟨archive, ready, placed⟩ := Checked.bind_eq_returns.mp placed
  obtain ⟨cheap, text⟩ := Checked.ensure_eq_returns.mp placed
  exact ⟨loaded, archive, read, ready, text, (repair_rows_match read ready cheap).1⟩

end sample

end NixHomeServer.Browsertrix.Engine
