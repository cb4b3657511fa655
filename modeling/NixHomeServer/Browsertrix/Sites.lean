import NixHomeServer.Browsertrix.Accounts

/-! No two records of an archive lie at one place: records of a gzip member have bodies of
their own, members of a file begin apart, and no two files have one name. -/
namespace NixHomeServer.Browsertrix.Engine

open NixHomeServer.Library

/-- Where a record lies: its file, its gzip member, and its body in there. -/
def Record.site (record : Record) : Text × Nat × Nat :=
  (record.member, record.offset, (record.source.map BodySource.bodyOffset).getD 0)

def Apart.Sites (records : List Record) : Prop := (records.map Record.site).Nodup

section scan

variable {sha256 : Bytes → Text} {file : Nat} {place : Place} {scan scan' : Scan} {warc : Warc} {g : GzipMember}
  {progress next final : Progress}

theorem readHeader_consumes {skipEmpty : Bool} {s rest : Stream} {header : Bytes}
    (read : readHeader skipEmpty s = .returns (some (header, rest))) : rest.bytes.length < s.bytes.length := by
  obtain ⟨lines, block, -⟩ := readHeader_eq_some.mp read
  obtain ⟨blanks, split, -⟩ := block.split
  have length := congrArg List.length split
  simp only [List.length_append, show crlf.length = 2 from rfl] at length
  omega

theorem openRecord_consumes {o : Opened} (opened : openRecord place scan = .returns (some o)) :
    o.raw.bytes.length < scan.raw.bytes.length := by
  obtain ⟨read, found, opened⟩ := Checked.bind_eq_returns.mp opened
  cases read with
  | none => cases opened
  | some read =>
    obtain ⟨header, raw⟩ := read
    obtain ⟨_, -, opened⟩ := Checked.bind_eq_returns.mp opened
    obtain ⟨_, -, opened⟩ := Checked.bind_eq_returns.mp opened
    obtain ⟨_, -, opened⟩ := Checked.bind_eq_returns.mp opened
    obtain ⟨⟨version, h⟩, -, opened⟩ := Checked.bind_eq_returns.mp opened
    obtain ⟨_, -, opened⟩ := Checked.bind_eq_returns.mp opened
    obtain ⟨_, -, opened⟩ := Checked.bind_eq_returns.mp opened
    obtain ⟨_, -, opened⟩ := Checked.bind_eq_returns.mp opened
    cases opened
    exact readHeader_consumes found

/-- The body of a record lies between what is read before it and what is left behind it. -/
theorem scanRecord_site (inside : scan.raw.bytes.length ≤ place.total) (done : scanRecord place scan = .returns (some scan')) :
    ∃ r b, scan'.records = scan.records ++ [r] ∧ r.site = (place.member, place.offset, b) ∧
      place.total - scan.raw.bytes.length < b ∧ b ≤ place.total - scan'.raw.bytes.length ∧
      scan'.raw.bytes.length ≤ place.total := by
  obtain ⟨opened, first, done⟩ := Checked.bind_eq_returns.mp done
  cases opened with
  | none => cases done
  | some o =>
    obtain ⟨body, -, done⟩ := Checked.bind_eq_returns.mp done
    obtain ⟨closed, shut, done⟩ := Checked.bind_eq_returns.mp done
    cases done
    obtain ⟨_, -, shut⟩ := Checked.bind_eq_returns.mp shut
    obtain ⟨_, -, shut⟩ := Checked.bind_eq_returns.mp shut
    obtain ⟨_, -, shut⟩ := Checked.bind_eq_returns.mp shut
    obtain ⟨_, -, shut⟩ := Checked.bind_eq_returns.mp shut
    cases shut
    have consumed := openRecord_consumes first
    have left : (o.raw.bytes.drop o.size).length ≤ o.raw.bytes.length := by simp
    refine ⟨_, place.total - o.raw.bytes.length, rfl, rfl, by omega, ?_, ?_⟩
    · exact Nat.sub_le_sub_left left place.total
    · show (o.raw.bytes.drop o.size).length ≤ place.total
      omega

theorem scanRecords_sites {left : Nat} (inside : scan.raw.bytes.length ≤ place.total)
    (done : scanRecords place left scan = .returns scan') :
    ∃ added, scan'.records = scan.records ++ added ∧ Apart.Sites added ∧
      ∀ r ∈ added, ∃ b, r.site = (place.member, place.offset, b) ∧ place.total - scan.raw.bytes.length < b := by
  induction left generalizing scan with
  | zero => cases done
  | succ left ih =>
    obtain ⟨step, stepped, done⟩ := Checked.bind_eq_returns.mp done
    cases step with
    | none =>
      cases done
      exact ⟨[], (List.append_nil _).symm, List.nodup_nil, fun _ absent => absurd absent List.not_mem_nil⟩
    | some scan'' =>
      obtain ⟨r, b, appended, placed, above, below, inside'⟩ := scanRecord_site inside stepped
      obtain ⟨added, behind, apart, all⟩ := ih inside' done
      refine ⟨r :: added, ?_, ?_, List.forall_mem_cons.mpr ⟨⟨b, placed, above⟩, fun r' there => ?_⟩⟩
      · rw [behind, appended, List.append_assoc, List.singleton_append]
      · refine List.nodup_cons.mpr ⟨fun again => ?_, apart⟩
        obtain ⟨r', there, same⟩ := List.mem_map.mp again
        obtain ⟨b', placed', above'⟩ := all r' there
        have equal : (place.member, place.offset, b') = (place.member, place.offset, b) := placed'.symm.trans (same.trans placed)
        simp only [Prod.mk.injEq, true_and] at equal
        omega
      · obtain ⟨b', placed', above'⟩ := all r' there
        exact ⟨b', placed', by omega⟩

theorem scanMember_sites (done : scanMember sha256 file warc g progress = .returns next) :
    ∃ piece, next.records = progress.records ++ piece ∧ next.offset = progress.offset + g.span ∧ 0 < g.span ∧ Apart.Sites piece ∧
      ∀ r ∈ piece, r.member = warc.name ∧ r.offset = progress.offset := by
  obtain ⟨moved, piece, behind, here⟩ := scanMember_piece done
  refine ⟨piece, behind, moved, here.filled, ?_, fun r there => ⟨(here.placed r there).1, (here.placed r there).2.1⟩⟩
  obtain ⟨left, -, done⟩ := Checked.bind_eq_returns.mp done
  obtain ⟨scan, scanned, done⟩ := Checked.bind_eq_returns.mp done
  obtain ⟨_, -, done⟩ := Checked.bind_eq_returns.mp done
  obtain ⟨_, -, done⟩ := Checked.bind_eq_returns.mp done
  obtain ⟨_, -, done⟩ := Checked.bind_eq_returns.mp done
  obtain ⟨added, own, apart, -⟩ := scanRecords_sites (Nat.le_refl _) scanned
  cases done
  have dropped : scan.records.drop progress.records.length = added := by rw [own, List.drop_left]
  have kept : piece = added.mapIdx (finishRecord g.span added.length) := by
    have same := List.append_cancel_left behind
    rw [dropped] at same
    exact same.symm
  have sites : (added.mapIdx (finishRecord g.span added.length)).map Record.site = added.map Record.site := by
    apply List.ext_getElem
    · simp
    · intro i inside inside'
      simp [finishRecord, Record.site, Function.comp_def, Option.map_map]
  rw [kept, Apart.Sites, sites]
  exact apart

theorem Apart.Sites.append {records records' : List Record} (first : Apart.Sites records) (second : Apart.Sites records')
    (apart : ∀ r ∈ records, ∀ r' ∈ records', (r.member, r.offset) ≠ (r'.member, r'.offset)) : Apart.Sites (records ++ records') := by
  rw [Apart.Sites, List.map_append]
  refine List.Nodup.append first second fun site there there' => ?_
  obtain ⟨r, inside, rfl⟩ := List.mem_map.mp there
  obtain ⟨r', inside', same⟩ := List.mem_map.mp there'
  simp only [Record.site, Prod.mk.injEq] at same
  exact apart r inside r' inside' (by rw [same.1, same.2.1])

variable {name : Text} {size start stop : Nat} {source : Source size start stop} {w : Window start stop}

theorem scanSpans_sites (done : scanSpans sha256 file name source w progress = .returns final) :
    ∃ added, final.records = progress.records ++ added ∧ Apart.Sites added ∧ ∀ r ∈ added, r.member = name ∧ w.offset ≤ r.offset := by
  fun_induction scanSpans sha256 file name source w progress with
  | case1 => cases done
  | case2 w progress w' filled none =>
    cases done
    exact ⟨[], (List.append_nil _).symm, List.nodup_nil, fun _ absent => absurd absent List.not_mem_nil⟩
  | case3 w progress w' filled some ih =>
    have same := (source.fill_eq_ok filled).1
    obtain ⟨next, scanned, done⟩ := Checked.bind_eq_returns.mp done
    obtain ⟨piece, behind, -, -, apart, here⟩ := scanMember_sites scanned
    split at done
    case isFalse => cases done
    case isTrue forward =>
      obtain ⟨added, behind', apart', all⟩ := ih next forward done
      have begins : ∀ r ∈ piece, r.member = name ∧ r.offset = w'.offset := here
      refine ⟨piece ++ added, by rw [behind', behind, List.append_assoc], apart.append apart' fun r there r' there' equal => ?_,
        List.forall_mem_append.mpr ⟨fun r there => ⟨(begins r there).1, ?_⟩, fun r there => ⟨(all r there).1, ?_⟩⟩⟩
      · have first := (begins r there).2
        have later := (all r' there').2
        simp only [Prod.mk.injEq] at equal
        omega
      · rw [(begins r there).2, same]
      · have later := (all r there).2
        omega

variable {sources : (start stop : Nat) → Source size start stop}

theorem readWarcs_sites {helds : List Held} (distinct : (helds.map Held.name).Nodup)
    (done : readWarcs sha256 file sources helds progress = .returns final) :
    ∃ added, final.records = progress.records ++ added ∧ Apart.Sites added ∧ ∀ r ∈ added, r.member ∈ helds.map Held.name := by
  induction helds generalizing progress with
  | nil =>
    cases done
    exact ⟨[], (List.append_nil _).symm, List.nodup_nil, fun _ absent => absurd absent List.not_mem_nil⟩
  | cons held rest ih =>
    obtain ⟨fresh, distinct⟩ := List.nodup_cons.mp distinct
    obtain ⟨next, read, done⟩ := Checked.bind_eq_returns.mp done
    obtain ⟨_, -, scanned⟩ := Checked.bind_eq_returns.mp read
    obtain ⟨piece, behind, apart, named⟩ := scanSpans_sites scanned
    obtain ⟨added, behind', apart', named'⟩ := ih distinct done
    refine ⟨piece ++ added, by rw [behind', behind, List.append_assoc], apart.append apart' fun r there r' there' equal => ?_,
      List.forall_mem_append.mpr ⟨fun r there => List.mem_cons.mpr (.inl (named r there).1),
        fun r there => List.mem_cons_of_mem _ (named' r there)⟩⟩
    have one : r.member = r'.member := (Prod.mk.injEq _ _ _ _ ▸ equal).1
    rw [(named r there).1] at one
    exact fresh (one ▸ named' r' there')

end scan

section archive

variable {reading : Reading} {file : ZipDirectory.File} {expected : Text → Option (Nat × Text)} {walk walk' : Members}
  {entry : Entry} {inputs : List Archive}

/-- The WARC members have names of their own, among those that were met. -/
structure Named (walk : Members) : Prop where
  distinct : (walk.warcs.map Held.name).Nodup
  met : ∀ held ∈ walk.warcs, held.name ∈ walk.names

theorem loadNamed_walk (done : loadNamed reading expected walk entry = .returns walk') :
    walk'.names = walk.names ∧ (walk'.warcs = walk.warcs ∨ ∃ held, walk'.warcs = walk.warcs ++ [held] ∧ held.name = entry.name) := by
  unfold loadNamed at done
  split at done
  case isTrue =>
    cases done
    exact ⟨rfl, .inl rfl⟩
  case isFalse =>
    split at done
    case isTrue =>
      obtain ⟨_, -, done⟩ := Checked.bind_eq_returns.mp done
      cases done
      exact ⟨rfl, .inl rfl⟩
    case isFalse =>
      obtain ⟨⟨length, hash⟩, -, done⟩ := Checked.bind_eq_returns.mp done
      obtain ⟨_, -, done⟩ := Checked.bind_eq_returns.mp done
      obtain ⟨_, -, done⟩ := Checked.bind_eq_returns.mp done
      split at done
      case isTrue =>
        obtain ⟨_, -, done⟩ := Checked.bind_eq_returns.mp done
        obtain ⟨start, -, done⟩ := Checked.bind_eq_returns.mp done
        obtain ⟨digest, -, done⟩ := Checked.bind_eq_returns.mp done
        obtain ⟨_, -, done⟩ := Checked.bind_eq_returns.mp done
        obtain ⟨_, -, done⟩ := Checked.bind_eq_returns.mp done
        obtain ⟨_, -, done⟩ := Checked.bind_eq_returns.mp done
        cases done
        exact ⟨rfl, .inr ⟨_, rfl, rfl⟩⟩
      case isFalse =>
        obtain ⟨_, -, done⟩ := Checked.bind_eq_returns.mp done
        cases done
        exact ⟨rfl, .inl rfl⟩

theorem loadEntry_named (named : Named walk) (done : loadEntry reading expected walk entry = .returns walk') : Named walk' := by
  obtain ⟨_, -, done⟩ := Checked.bind_eq_returns.mp done
  obtain ⟨_, fresh, done⟩ := Checked.bind_eq_returns.mp done
  have fresh := Checked.ensure_eq_returns.mp fresh
  dsimp only at done
  split at done
  case isTrue =>
    cases done
    exact ⟨named.distinct, fun held there => List.mem_append_left _ (named.met held there)⟩
  case isFalse =>
    obtain ⟨_, -, done⟩ := Checked.bind_eq_returns.mp done
    obtain ⟨names, same | ⟨held, one, called⟩⟩ := loadNamed_walk done
    · exact ⟨same ▸ named.distinct, fun held there => names ▸ List.mem_append_left _ (named.met held (same ▸ there))⟩
    · refine ⟨?_, fun held' there => ?_⟩
      · rw [one, List.map_append]
        refine List.Nodup.append named.distinct (List.nodup_singleton _) fun name there there' => ?_
        obtain ⟨held', inside, rfl⟩ := List.mem_map.mp there
        rw [List.map_singleton, List.mem_singleton, called] at there'
        exact fresh (there' ▸ named.met held' inside)
      · rw [one] at there
        rw [names]
        rcases List.mem_append.mp there with there | there
        · exact List.mem_append_left _ (named.met held' there)
        · exact List.mem_append_right _ (by rw [List.mem_singleton.mp there, called]; exact List.mem_singleton_self _)

theorem loadEntries_named {entries : List Entry} (named : Named walk)
    (done : loadEntries reading expected entries walk = .returns walk') : Named walk' := by
  induction entries generalizing walk with
  | nil =>
    cases done
    exact named
  | cons entry rest ih =>
    obtain ⟨next, stepped, done⟩ := Checked.bind_eq_returns.mp done
    exact ih (loadEntry_named named stepped) done

theorem Advances.sites_eq {records after : List Record} (advances : Advances records after) :
    after.map Record.site = records.map Record.site := by
  induction advances with
  | nil => rfl
  | cons settles _ ih =>
    rw [List.map_cons, List.map_cons, ih]
    rcases settles with rfl | ⟨-, target, rfl⟩ <;> rfl

theorem resolveLocal_sites {records after : List Record} (done : resolveLocal records = .returns after) :
    after.map Record.site = records.map Record.site := by
  obtain ⟨s, rounds, done⟩ := Checked.bind_eq_returns.mp done
  cases done
  exact (resolveRounds_advances rounds).sites_eq

/-- What is loaded lies apart. -/
theorem load_sites {id : Nat} {loaded : Loaded} (done : load reading file id = .returns loaded) : Apart.Sites loaded.records := by
  obtain ⟨warcs, listed, done⟩ := Checked.bind_eq_returns.mp done
  obtain ⟨progress, read, done⟩ := Checked.bind_eq_returns.mp done
  obtain ⟨_, -, done⟩ := Checked.bind_eq_returns.mp done
  obtain ⟨_, -, done⟩ := Checked.bind_eq_returns.mp done
  obtain ⟨records, resolved, done⟩ := Checked.bind_eq_returns.mp done
  cases done
  obtain ⟨_, -, listed⟩ := Checked.bind_eq_returns.mp listed
  obtain ⟨directory, -, listed⟩ := Checked.bind_eq_returns.mp listed
  obtain ⟨_, -, listed⟩ := Checked.bind_eq_returns.mp listed
  obtain ⟨expected, -, listed⟩ := Checked.bind_eq_returns.mp listed
  obtain ⟨walk, entries, listed⟩ := Checked.bind_eq_returns.mp listed
  cases listed
  have start : Named {} := ⟨List.nodup_nil, fun _ absent => absurd absent List.not_mem_nil⟩
  have named := loadEntries_named start entries
  obtain ⟨added, all, apart, -⟩ := readWarcs_sites named.distinct read
  rw [List.nil_append] at all
  rw [Apart.Sites, resolveLocal_sites resolved, all]
  exact apart

theorem hydrateRecord_site {record record' : Record} {work left : Nat}
    (done : hydrateRecord inputs record work = .returns (record', left)) : record'.site = record.site := by
  unfold hydrateRecord at done
  split at done
  · cases done
  · split at done
    · cases done
      rfl
    · split at done
      · cases done
        rfl
      · obtain ⟨⟨targets, left'⟩, -, done⟩ := Checked.bind_eq_returns.mp done
        dsimp only at done
        split at done
        · cases done
          rfl
        · cases done

theorem hydrateRecords_sites {records after : List Record} {work : Nat} (done : hydrateRecords inputs records work = .returns after) :
    after.map Record.site = records.map Record.site := by
  induction records generalizing work after with
  | nil =>
    cases done
    rfl
  | cons record rest ih =>
    obtain ⟨⟨record', left⟩, first, done⟩ := Checked.bind_eq_returns.mp done
    obtain ⟨others, later, done⟩ := Checked.bind_eq_returns.mp done
    cases done
    rw [List.map_cons, List.map_cons, ih later, hydrateRecord_site first]

/-- An archive that is loaded and made ready has no two records at one place. -/
theorem hydrate_sites {id : Nat} {loaded : Loaded} {sha256 : Text} {archive : Archive}
    (read : load reading file id = .returns loaded) (ready : hydrate inputs ⟨loaded.records, sha256⟩ = .returns archive) :
    Apart.Sites archive.records := by
  obtain ⟨records, hydrated, ready⟩ := Checked.bind_eq_returns.mp ready
  cases ready
  rw [Apart.Sites, hydrateRecords_sites hydrated]
  exact load_sites read

end archive

end NixHomeServer.Browsertrix.Engine
