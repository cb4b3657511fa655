import Mathlib.Algebra.GroupWithZero.Nat
import Mathlib.Logic.Relation
import NixHomeServer.Browsertrix.Scan

/-! Where the gzip members of a WARC file lie: the scan takes their places from the
position of its reader, which is ahead of what is consumed by what is buffered. -/
namespace NixHomeServer.Browsertrix.Engine

open NixHomeServer.Library

section reader

/-- A buffered reader of a part of the file. -/
structure Window (start stop : Nat) where
  position : Nat
  buffered : Nat
  held : start + buffered ≤ position
  inside : position ≤ stop

variable {size start stop : Nat}

/-- What the reader allows: to fill its buffer or read past it where it is empty, and to
consume what is buffered. -/
inductive Window.Step : Window start stop → Window start stop → Prop
  | fill {w w' : Window start stop} (empty : w.buffered = 0) (read : w'.position = w.position + w'.buffered) : Step w w'
  | direct {w w' : Window start stop} (empty : w.buffered = 0) (still : w'.buffered = 0)
      (read : w.position ≤ w'.position) : Step w w'
  | consume {w w' : Window start stop} (still : w'.position = w.position) (taken : w'.buffered ≤ w.buffered) : Step w w'

/-- How much of the part is consumed. -/
def Window.offset (w : Window start stop) : Nat := w.position - start - w.buffered

theorem Window.position_eq (w : Window start stop) : w.position = start + w.offset + w.buffered := by
  have held := w.held
  unfold Window.offset
  omega

theorem Window.Step.offset_le {w w' : Window start stop} (step : Window.Step w w') : w.offset ≤ w'.offset := by
  have before := w.position_eq
  have after := w'.position_eq
  cases step <;> omega

/-- No reading goes back. -/
theorem Window.offset_le {w w' : Window start stop} (steps : Relation.ReflTransGen Window.Step w w') :
    w.offset ≤ w'.offset := by
  induction steps with
  | refl => exact Nat.le_refl _
  | tail _ step ih => exact Nat.le_trans ih step.offset_le

/-- A gzip member as the decoder delivers it, and where it leaves the reader. -/
structure Decoding (w : Window start stop) where
  chunks : List Bytes
  failure : Option String := none
  after : Window start stop
  reached : Relation.ReflTransGen Window.Step w after

/-- The buffer after it is filled. -/
structure Filled (w : Window start stop) where
  after : Window start stop
  read : after.position = w.position + after.buffered
  some : 0 < after.buffered

/-- Where the reader reads from, and what it is read with. Short of its size a file has
at least one more byte. -/
structure Source (size start stop : Nat) where
  read : (w : Window start stop) → w.buffered = 0 → w.position < stop → w.position < size → Except String (Filled w)
  decode : (w : Window start stop) → Decoding w

def Source.fill (source : Source size start stop) (w : Window start stop) : Except String (Window start stop) :=
  if empty : w.buffered = 0 then
    if left : w.position < stop ∧ w.position < size then (source.read w empty left.1 left.2).map Filled.after else .ok w
  else .ok w

/-- To fill the buffer consumes nothing, and it stays empty at the end only, of the
part or of the file. -/
theorem Source.fill_eq_ok {source : Source size start stop} {w w' : Window start stop} (filled : source.fill w = .ok w') :
    w'.offset = w.offset ∧ (w'.buffered = 0 → w'.position = stop ∨ size ≤ w'.position) := by
  have inside := w.inside
  unfold Source.fill at filled
  split at filled
  case isFalse held =>
    cases filled
    exact ⟨rfl, fun none => absurd none held⟩
  case isTrue empty =>
    split at filled
    case isFalse done =>
      cases filled
      exact ⟨rfl, fun _ => by omega⟩
    case isTrue left =>
      cases answer : source.read w empty left.1 left.2 with
      | error e =>
        rw [answer] at filled
        cases filled
      | ok next =>
        rw [answer] at filled
        cases filled
        have before := w.position_eq
        have after := next.after.position_eq
        have read := next.read
        have some := next.some
        exact ⟨by omega, fun none => by omega⟩

end reader

section scan

variable (sha256 : Bytes → Text) (file : Nat) (name : Text) {size start stop : Nat} (source : Source size start stop)

def warcOf (start stop : Nat) (members : List GzipMember) (failure : Option String) : Warc where
  name := name
  start := start
  length := stop - start
  members := members
  failure := failure

/-- The member that the decoder finds where the reader stands. -/
def Source.gzipMember (w : Window start stop) : GzipMember where
  chunks := (source.decode w).chunks
  failure := (source.decode w).failure
  span := (source.decode w).after.offset - w.offset

theorem Source.offset_add_span (w : Window start stop) :
    w.offset + (source.gzipMember w).span = (source.decode w).after.offset :=
  Nat.add_sub_of_le (Window.offset_le (source.decode w).reached)

/-- The loop over the members: it stops where the reader has nothing more. -/
def scanSpans (w : Window start stop) (progress : Progress) : Result Progress :=
  match _ : source.fill w with
  | .error e => .fails e
  | .ok w =>
    if w.buffered = 0 then .returns progress
    else do
      let progress ← scanMember sha256 file (warcOf name start stop [] none) (source.gzipMember w)
        { progress with offset := w.offset }
      -- a member that takes up nothing is refused above
      if w.offset < (source.decode w).after.offset then scanSpans (source.decode w).after progress
      else .fails "Invalid gzip span"
termination_by stop - start - w.offset
decreasing_by
  have same := (source.fill_eq_ok (by assumption)).1
  have placed := (source.decode w).after.position_eq
  have inside := (source.decode w).after.inside
  omega

/-- The members one after the other, and the error where the file cannot be read. -/
def Source.members (w : Window start stop) : List GzipMember × Option String :=
  match _ : source.fill w with
  | .error e => ([], some e)
  | .ok w =>
    if w.buffered = 0 then ([], none)
    else if w.offset < (source.decode w).after.offset then
      let later := Source.members (source.decode w).after
      (source.gzipMember w :: later.1, later.2)
    else ([source.gzipMember w], none)
termination_by stop - start - w.offset
decreasing_by
  all_goals
    have same := (source.fill_eq_ok (by assumption)).1
    have placed := (source.decode w).after.position_eq
    have inside := (source.decode w).after.inside
    omega

theorem Source.members_cons {w w' : Window start stop} (filled : source.fill w = .ok w') (some : w'.buffered ≠ 0) :
    ∃ rest, (source.members w).1 = source.gzipMember w' :: rest := by
  rw [Source.members, filled]
  dsimp only
  rw [if_neg some]
  split <;> exact ⟨_, rfl⟩

def Window.opened (start length : Nat) : Window start (start + length) where
  position := start
  buffered := 0
  held := Nat.le_refl _
  inside := Nat.le_add_right _ _

def readWarc (length : Nat) (source : Source size start (start + length)) (progress : Progress) : Result Progress := do
  .ensure (start + length < 2 ^ 64) "Invalid WARC ZIP span"
  scanSpans sha256 file name source (Window.opened start length) { progress with offset := 0 }

/-- A WARC member of the archive: its name, where its data start and their length. -/
structure Held where
  name : Text
  start : Nat
  length : Nat

variable (sources : (start stop : Nat) → Source size start stop)

def readWarcs : List Held → Progress → Result Progress
  | [], progress => .returns progress
  | held :: rest, progress => do
    let progress ← readWarc sha256 file held.name held.length (sources held.start (held.start + held.length)) progress
    readWarcs rest progress

/-- The WARC file as its decoder delivers it. -/
def Held.decoded (held : Held) : Warc :=
  let found := (sources held.start (held.start + held.length)).members (Window.opened held.start held.length)
  warcOf held.name held.start (held.start + held.length) found.1 found.2

end scan

section records

variable {sha256 : Bytes → Text} {file : Nat} {warc : Warc} {g : GzipMember} {progress next : Progress} {place : Place}
  {scan scan' : Scan}

theorem scanRecord_adds (done : scanRecord place scan = .returns (some scan')) :
    ∃ r, scan'.records = scan.records ++ [r] ∧ r.member = place.member ∧ r.offset = place.offset := by
  obtain ⟨opened, -, done⟩ := Checked.bind_eq_returns.mp done
  cases opened with
  | none => cases done
  | some o =>
    obtain ⟨body, -, done⟩ := Checked.bind_eq_returns.mp done
    obtain ⟨closed, shut, done⟩ := Checked.bind_eq_returns.mp done
    cases done
    obtain ⟨_, -, shut⟩ := Checked.bind_eq_returns.mp shut
    obtain ⟨_, -, shut⟩ := Checked.bind_eq_returns.mp shut
    obtain ⟨_, -, shut⟩ := Checked.bind_eq_returns.mp shut
    obtain ⟨_, -, shut⟩ := Checked.bind_eq_returns.mp shut
    cases shut
    exact ⟨_, rfl, rfl, rfl⟩

/-- The records of a member are put behind those there are. -/
theorem scanRecords_adds {left : Nat} (done : scanRecords place left scan = .returns scan') :
    ∃ added, scan'.records = scan.records ++ added ∧ ∀ r ∈ added, r.member = place.member ∧ r.offset = place.offset := by
  induction left generalizing scan with
  | zero => cases done
  | succ left ih =>
    obtain ⟨step, stepped, done⟩ := Checked.bind_eq_returns.mp done
    cases step with
    | none =>
      cases done
      exact ⟨[], (List.append_nil _).symm, fun r absent => absurd absent List.not_mem_nil⟩
    | some scan'' =>
      obtain ⟨r, appended, placed⟩ := scanRecord_adds stepped
      obtain ⟨added, behind, all⟩ := ih done
      refine ⟨r :: added, ?_, List.forall_mem_cons.mpr ⟨placed, all⟩⟩
      rw [behind, appended, List.append_assoc, List.singleton_append]

/-- The shares of a total are equal up to one, which the first ones have more. -/
theorem sum_shares (span count n : Nat) :
    ((List.range n).map fun i => span / count + if i < span % count then 1 else 0).sum =
      n * (span / count) + min n (span % count) := by
  induction n with
  | zero => simp
  | succ n ih =>
    rw [List.range_succ, List.map_append, List.sum_append, ih, List.map_singleton, List.sum_singleton, Nat.add_mul]
    split <;> omega

theorem stored_sum (span : Nat) {added : List Record} (some : added ≠ []) :
    ((added.mapIdx (finishRecord span added.length)).map Record.stored).sum = span := by
  have shares : (added.mapIdx (finishRecord span added.length)).map Record.stored =
      (List.range added.length).map fun i => span / added.length + if i < span % added.length then 1 else 0 := by
    apply List.ext_getElem
    · simp
    · intro i inside inside'
      simp [finishRecord]
  have positive : 0 < added.length := List.length_pos_iff.mpr some
  have less := Nat.mod_lt span positive
  rw [shares, sum_shares, Nat.min_eq_right (Nat.le_of_lt less)]
  exact Nat.div_add_mod span added.length

/-- Records of one gzip member: each names its place, and together they have all of it. -/
structure Piece (name : Text) (offset span : Nat) (piece : List Record) : Prop where
  filled : 0 < span
  some : piece ≠ []
  placed : ∀ r ∈ piece, r.member = name ∧ r.offset = offset ∧ r.length = span
  shared : (piece.map Record.stored).sum = span

theorem scanMember_piece (done : scanMember sha256 file warc g progress = .returns next) :
    next.offset = progress.offset + g.span ∧
      ∃ piece, next.records = progress.records ++ piece ∧ Piece warc.name progress.offset g.span piece := by
  obtain ⟨left, -, done⟩ := Checked.bind_eq_returns.mp done
  obtain ⟨scan, scanned, done⟩ := Checked.bind_eq_returns.mp done
  obtain ⟨_, -, done⟩ := Checked.bind_eq_returns.mp done
  obtain ⟨_, filled, done⟩ := Checked.bind_eq_returns.mp done
  obtain ⟨_, some, done⟩ := Checked.bind_eq_returns.mp done
  cases done
  obtain ⟨added, behind, all⟩ := scanRecords_adds scanned
  have own : scan.records.drop progress.records.length = added := by rw [behind, List.drop_left]
  rw [own] at some ⊢
  have some : added ≠ [] := List.length_pos_iff.mp (Nat.pos_of_ne_zero (Checked.ensure_eq_returns.mp some))
  refine ⟨rfl, _, rfl, Checked.ensure_eq_returns.mp filled, ?_, fun r there => ?_, stored_sum g.span some⟩
  · simpa using some
  · obtain ⟨i, inside, rfl⟩ := List.mem_mapIdx.mp there
    obtain ⟨member, offset⟩ := all _ (List.getElem_mem inside)
    exact ⟨member, offset, rfl⟩

end records

/-- The records of a file, member by member, without a gap between the members. -/
inductive Tiles (name : Text) : Nat → List Record → Nat → Prop
  | done (p : Nat) : Tiles name p [] p
  | member {p span stop : Nat} {piece rest : List Record} (here : Piece name p span piece)
      (others : Tiles name (p + span) rest stop) : Tiles name p (piece ++ rest) stop

theorem Tiles.sum_stored {name : Text} {p stop : Nat} {records : List Record} (tiles : Tiles name p records stop) :
    p + (records.map Record.stored).sum = stop := by
  induction tiles with
  | done p => rfl
  | member here _ ih =>
    rw [List.map_append, List.sum_append, here.shared]
    omega

section tiling

variable {sha256 : Bytes → Text} {file : Nat} {name : Text} {size start stop : Nat} {source : Source size start stop}
  {w : Window start stop} {progress final : Progress}

/-- From where the reader stands to the end, members lie without gap or overlap. -/
theorem scanSpans_tiles (inside : stop ≤ size) (done : scanSpans sha256 file name source w progress = .returns final) :
    ∃ added, final.records = progress.records ++ added ∧ Tiles name w.offset added (stop - start) := by
  fun_induction scanSpans sha256 file name source w progress with
  | case1 => cases done
  | case2 w progress w' filled none =>
    cases done
    obtain ⟨same, ends⟩ := source.fill_eq_ok filled
    have placed := w'.position_eq
    have below := w'.inside
    have end' := ends none
    have all : w.offset = stop - start := by omega
    exact ⟨[], (List.append_nil _).symm, all ▸ .done _⟩
  | case3 w progress w' filled some ih =>
    obtain ⟨same, -⟩ := source.fill_eq_ok filled
    obtain ⟨next, scanned, done⟩ := Checked.bind_eq_returns.mp done
    obtain ⟨moved, piece, behind, here⟩ := scanMember_piece scanned
    split at done
    case isFalse => cases done
    case isTrue forward =>
      obtain ⟨added, behind', tiles⟩ := ih next forward done
      refine ⟨piece ++ added, by rw [behind', behind, List.append_assoc], .member (same ▸ here) ?_⟩
      have reached : w.offset + (source.gzipMember w').span = (source.decode w').after.offset := by
        rw [← same, source.offset_add_span]
      rwa [reached]

theorem scanMember_congr {warc warc' : Warc} (named : warc.name = warc'.name) (begins : warc.start = warc'.start)
    (g : GzipMember) : scanMember sha256 file warc g progress = scanMember sha256 file warc' g progress := by
  unfold scanMember placeOf
  rw [named, begins]

/-- The scan by the reader's positions is the scan of the members that are decoded, each
placed where the one before it ends. -/
theorem scanSpans_eq {warc : Warc} (named : warc.name = name) (begins : warc.start = start)
    (failed : warc.failure = (source.members w).2) (placed : progress.offset = w.offset) :
    scanSpans sha256 file name source w progress = scanMembers sha256 file warc (source.members w).1 progress := by
  fun_induction scanSpans sha256 file name source w progress with
  | case1 w progress e refused =>
    have listed : source.members w = ([], some e) := by rw [Source.members, refused]
    rw [listed] at failed ⊢
    rw [scanMembers, failed]
  | case2 w progress w' filled none =>
    have listed : source.members w = ([], .none) := by
      rw [Source.members, filled]
      exact if_pos none
    rw [listed] at failed ⊢
    rw [scanMembers, failed]
  | case3 w progress w' filled some ih =>
    have here : ({ progress with offset := w'.offset } : Progress) = progress := by
      rw [(source.fill_eq_ok filled).1, ← placed]
    have member := @scanMember_congr sha256 file progress (warcOf name start stop [] none) warc
      named.symm begins.symm (source.gzipMember w')
    rw [here, member]
    cases scanned : scanMember sha256 file warc (source.gzipMember w') progress with
    | returns next =>
      obtain ⟨moved, piece, -, filled'⟩ := scanMember_piece scanned
      have reached := source.offset_add_span w'
      have forward : w'.offset < (source.decode w').after.offset := by
        have some := filled'.filled
        omega
      have listed : source.members w = (source.gzipMember w' :: (source.members (source.decode w').after).1,
          (source.members (source.decode w').after).2) := by
        rw [Source.members, filled]
        exact (if_neg some).trans (if_pos forward)
      have arrived : next.offset = (source.decode w').after.offset := by
        rw [moved, placed, ← (source.fill_eq_ok filled).1, reached]
      rw [listed] at failed ⊢
      rw [scanMembers, scanned, Checked.returns_bind, Checked.returns_bind, if_pos forward]
      exact ih next forward failed arrived
    | fails e =>
      obtain ⟨rest, listed⟩ := source.members_cons filled some
      rw [listed, scanMembers, scanned]
      rfl
    | panics =>
      obtain ⟨rest, listed⟩ := source.members_cons filled some
      rw [listed, scanMembers, scanned]
      rfl

variable {sources : (start stop : Nat) → Source size start stop}

theorem readWarc_eq (held : Held) (progress : Progress) :
    readWarc sha256 file held.name held.length (sources held.start (held.start + held.length)) progress =
      scanWarc sha256 file (held.decoded sources) progress := by
  have opened : (Window.opened held.start held.length).offset = 0 := Nat.sub_self held.start
  have length : (held.decoded sources).length = held.length := Nat.add_sub_cancel_left held.start held.length
  have scanned : scanSpans sha256 file held.name (sources held.start (held.start + held.length))
      (Window.opened held.start held.length) { progress with offset := 0 } =
        scanMembers sha256 file (held.decoded sources) (held.decoded sources).members { progress with offset := 0 } :=
    scanSpans_eq rfl rfl rfl opened.symm
  rw [readWarc, scanWarc, length, scanned]
  rfl

/-- All files are read as their decoded members are scanned. -/
theorem readWarcs_eq (helds : List Held) (progress : Progress) :
    readWarcs sha256 file sources helds progress = scanWarcs sha256 file (helds.map (Held.decoded sources)) progress := by
  induction helds generalizing progress with
  | nil => rfl
  | cons held rest ih =>
    rw [readWarcs, List.map_cons, scanWarcs, readWarc_eq]
    exact congrArg _ (funext ih)

theorem readWarcs_tiles {helds : List Held} (inside : ∀ held ∈ helds, held.start + held.length ≤ size)
    (done : readWarcs sha256 file sources helds progress = .returns final) :
    ∃ pieces, final.records = progress.records ++ pieces.flatten ∧
      List.Forall₂ (fun held piece => Tiles held.name 0 piece held.length) helds pieces := by
  induction helds generalizing progress with
  | nil =>
    cases done
    exact ⟨[], (List.append_nil _).symm, .nil⟩
  | cons held rest ih =>
    obtain ⟨next, read, done⟩ := Checked.bind_eq_returns.mp done
    obtain ⟨_, -, scanned⟩ := Checked.bind_eq_returns.mp read
    obtain ⟨first, rest⟩ := List.forall_mem_cons.mp inside
    obtain ⟨piece, behind, tiles⟩ := scanSpans_tiles first scanned
    obtain ⟨pieces, behind', others⟩ := ih rest done
    have opened : (Window.opened held.start held.length).offset = 0 := Nat.sub_self held.start
    rw [opened, Nat.add_sub_cancel_left] at tiles
    refine ⟨piece :: pieces, ?_, .cons tiles others⟩
    rw [behind', behind, List.append_assoc, List.flatten_cons]

end tiling

end NixHomeServer.Browsertrix.Engine
