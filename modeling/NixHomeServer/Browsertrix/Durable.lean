import NixHomeServer.Browsertrix.Intents

/-! The files of the archives: every step of a publication keeps what is at a destination or a
retained name, and a catalogue row stands for a file with its digest. -/
namespace NixHomeServer.Browsertrix

open NixHomeServer.Library

def FileName.archive : FileName → Nat
  | .payload archive _ | .staging archive | .retained archive _ => archive

/-- A destination or a retained name. -/
def FileName.final : FileName → Bool
  | .staging _ => false
  | _ => true

section Files

variable {store store' : Store} {at_root r : Root} {name source target : FileName} {content : Content}

@[simp] theorem Store.put_self (content : Option Content) :
    (store.put at_root name content).files at_root name = content := by
  simp only [Store.put, and_self, if_true]

theorem Store.put_of_ne (content : Option Content) (other : ¬(r = at_root ∧ target = name)) :
    (store.put at_root name content).files r target = store.files r target := by
  simp only [Store.put, if_neg other]

theorem Store.renameExclusive_some (distinct : source ≠ target)
    (moved : store.renameExclusive at_root source target = some store') :
    ∃ content, store.files at_root source = some content ∧ store.files at_root target = none ∧
      store'.files at_root target = some content ∧ store'.files at_root source = none ∧
      store'.sources = store.sources ∧
      ∀ r n, ¬(r = at_root ∧ (n = source ∨ n = target)) → store'.files r n = store.files r n := by
  unfold Store.renameExclusive at moved
  split at moved
  · rename_i content found free
    cases moved
    refine ⟨content, found, free, ?_, Store.put_self none, rfl, ?_⟩
    · rw [Store.put_of_ne _ (fun same => distinct same.2.symm), Store.put_self]
    · intro r n other
      rw [Store.put_of_ne _ (fun same => other ⟨same.1, Or.inl same.2⟩),
        Store.put_of_ne _ (fun same => other ⟨same.1, Or.inr same.2⟩)]
  · cases moved

end Files

section Place

variable {sha256 : Content → String} {store store' : Store} {a number : Nat} {archive : Archive} {source : String}
  {torn : Option Content} {step : Placing} {placed : Placed}

/-- What one step of a publication does to the files: nothing, or it writes the staging copy, or moves
it to a free name of the same archive. -/
inductive Moves (store : Store) (a : Nat) (archive : Archive) : Store → Prop
  | none : Moves store a archive store
  | staged (content : Content) : Moves store a archive (store.put (root archive) (.staging a) (some content))
  | renamed (target : FileName) (final : target.final = true) (own : target.archive = a) {store' : Store}
      (moved : store.renameExclusive (root archive) (.staging a) target = some store') : Moves store a archive store'

theorem place_moves (step : Placing) :
    Moves store a archive (place sha256 store a archive source number torn step).1 := by
  cases step <;> simp only [place]
  case retain =>
    split
    · rename_i moved
      exact .renamed (.retained a number) rfl rfl moved
    · exact .none
  case rename =>
    split
    · rename_i moved
      exact .renamed (.payload a archive.archiveFile) rfl rfl moved
    · exact .none
  case create =>
    split
    · exact .none
    · exact .staged []
  case copy =>
    split
    · exact .staged _
    · exact .none
  all_goals
    repeat' split
    all_goals exact .none

theorem spill_moves (step : Placing) : Moves store a archive (spill store a archive torn step) := by
  cases step <;> simp only [spill]
  case copy => exact .staged _
  all_goals exact .none

theorem Moves.sources (moves : Moves store a archive store') : store'.sources = store.sources := by
  cases moves with
  | none => rfl
  | staged content => rfl
  | renamed target final own moved =>
    have distinct : FileName.staging a ≠ target := fun same => by
      subst same
      cases final
    obtain ⟨_, _, _, _, _, same, _⟩ := Store.renameExclusive_some distinct moved
    exact same

/-- Nothing at a destination or a retained name is overwritten or removed. -/
theorem Moves.kept (moves : Moves store a archive store') {r : Root} {name : FileName} {content : Content}
    (final : name.final = true) (found : store.files r name = some content) :
    store'.files r name = some content := by
  have other : name ≠ .staging a := fun same => by
    subst same
    cases final
  cases moves with
  | none => exact found
  | staged content =>
    rw [Store.put_of_ne _ (fun same => other same.2)]
    exact found
  | renamed target final' own moved =>
    have distinct : FileName.staging a ≠ target := fun same => by
      subst same
      cases final'
    obtain ⟨_, _, free, _, _, _, frame⟩ := Store.renameExclusive_some distinct moved
    rw [frame r name]
    · exact found
    · rintro ⟨rfl, same | same⟩
      · exact other same
      · rw [same] at found
        cases free.symm.trans found

/-- Only names of the archive itself change. -/
theorem Moves.others (moves : Moves store a archive store') {r : Root} {name : FileName}
    (other : name.archive ≠ a) : store'.files r name = store.files r name := by
  cases moves with
  | none => rfl
  | staged content =>
    apply Store.put_of_ne
    rintro ⟨_, rfl⟩
    exact other rfl
  | renamed target final own moved =>
    have distinct : FileName.staging a ≠ target := fun same => by
      subst same
      cases final
    obtain ⟨_, _, _, _, _, _, frame⟩ := Store.renameExclusive_some distinct moved
    apply frame
    rintro ⟨_, rfl | rfl⟩
    · exact other rfl
    · exact other own

/-- The staging copy, if there is one, has the digest of the archive. -/
def Complete (sha256 : Content → String) (store : Store) (a : Nat) (archive : Archive) : Prop :=
  ∀ content, store.files (root archive) (.staging a) = some content → sha256 content = archive.sha256

/-- The destination is there with the digest of the archive. -/
def InPlace (sha256 : Content → String) (store : Store) (a : Nat) (archive : Archive) (digest : String) : Prop :=
  ∃ content, store.files (root archive) (.payload a archive.archiveFile) = some content ∧ sha256 content = digest

/-- What is true of the files at a place of the worker. -/
def Staged (sha256 : Content → String) (store : Store) : Pc → Prop
  | .place .again a intent _ | .place .permissions a intent _ | .place .rename a intent _ =>
    Complete sha256 store a intent.archive
  | .finalize a intent _ => InPlace sha256 store a intent.archive intent.archive.sha256
  | _ => True

theorem InPlace.moves {digest : String} {b : Nat} {other : Archive} (moves : Moves store b other store')
    (there : InPlace sha256 store a archive digest) : InPlace sha256 store' a archive digest := by
  obtain ⟨content, found, same⟩ := there
  exact ⟨content, moves.kept rfl found, same⟩

/-- Files that are kept at final names, and no new staging copies, keep what is true at a place. -/
theorem Staged.files {pc : Pc}
    (staging : ∀ r b content, store'.files r (.staging b) = some content → store.files r (.staging b) = some content)
    (kept : ∀ r name content, name.final = true → store.files r name = some content →
      store'.files r name = some content) (staged : Staged sha256 store pc) : Staged sha256 store' pc := by
  cases pc with
  | place step b intent k =>
    cases step with
    | again | permissions | rename => exact fun content found => staged content (staging _ _ _ found)
    | _ => trivial
  | finalize b intent k =>
    obtain ⟨content, found, same⟩ := staged
    exact ⟨content, kept _ _ _ rfl found, same⟩
  | _ => trivial

end Place

section Steps

variable (sha256 : Content → String) {s : System} {a : Nat} {intent : PublicationIntent} {k : Return}

theorem place_staged {store store' : Store} {number : Nat} {torn : Option Content} {step : Placing} {placed : Placed}
    (staged : Staged sha256 store (.place step a intent k))
    (result : place sha256 store a intent.archive intent.source number torn step = (store', placed)) :
    (∀ next, placed = .next next → Staged sha256 store' (.place next a intent k)) ∧
      (placed = .done → InPlace sha256 store' a intent.archive intent.archive.sha256) := by
  have failed : placed = .failed → (∀ next, placed = .next next → Staged sha256 store' (.place next a intent k)) ∧
      (placed = .done → InPlace sha256 store' a intent.archive intent.archive.sha256) := by
    rintro rfl
    exact ⟨fun next impossible => (by cases impossible), fun impossible => (by cases impossible)⟩
  have goes : ∀ next, placed = .next next → Staged sha256 store' (.place next a intent k) →
      (∀ next, placed = .next next → Staged sha256 store' (.place next a intent k)) ∧
        (placed = .done → InPlace sha256 store' a intent.archive intent.archive.sha256) := by
    rintro next rfl holds
    exact ⟨fun _ same => by cases same; exact holds, fun impossible => by cases impossible⟩
  have vacuous : ∀ store : Store, store.files (root intent.archive) (.staging a) = none →
      Complete sha256 store a intent.archive := by
    intro store absent content found
    cases absent.symm.trans found
  cases step with
  | destination =>
    simp only [place] at result
    split at result
    · split at result <;> cases result <;> exact goes _ rfl trivial
    · cases result
      exact failed rfl
  | conflict =>
    simp only [place] at result
    split at result
    · rename_i content found
      split at result
      · rename_i same
        cases result
        exact ⟨fun _ impossible => (by cases impossible), fun _ => ⟨content, found, same⟩⟩
      · cases result
        exact failed rfl
    · cases result
      exact failed rfl
  | staging =>
    simp only [place] at result
    split at result
    · cases result
      exact goes _ rfl trivial
    · rename_i absent
      cases result
      exact goes _ rfl (vacuous _ absent)
  | incomplete =>
    simp only [place] at result
    split at result
    · rename_i content found
      by_cases same : sha256 content = intent.archive.sha256
      · rw [if_pos same] at result
        cases result
        refine goes _ rfl fun other there => ?_
        cases found.symm.trans there
        exact same
      · rw [if_neg same] at result
        cases result
        exact goes _ rfl trivial
    · cases result
      exact failed rfl
  | retain =>
    simp only [place] at result
    split at result
    · rename_i moved
      cases result
      obtain ⟨_, _, _, _, gone, _⟩ := Store.renameExclusive_some (by simp) moved
      exact goes _ rfl (vacuous _ gone)
    · cases result
      exact failed rfl
  | again =>
    simp only [place] at result
    split at result
    · cases result
      exact goes _ rfl staged
    · cases result
      exact goes _ rfl trivial
  | source | create =>
    simp only [place] at result
    split at result
    · cases result
      first | exact goes _ rfl trivial | exact failed rfl
    · cases result
      first | exact goes _ rfl trivial | exact failed rfl
  | copy =>
    simp only [place] at result
    split at result
    · cases result
      exact goes _ rfl trivial
    · cases result
      exact failed rfl
  | check =>
    simp only [place] at result
    split at result
    · rename_i content found
      split at result
      · rename_i same
        cases result
        refine goes _ rfl fun other there => ?_
        cases found.symm.trans there
        exact same
      · cases result
        exact failed rfl
    · cases result
      exact failed rfl
  | permissions =>
    simp only [place] at result
    cases result
    exact goes _ rfl staged
  | rename =>
    simp only [place] at result
    split at result
    · rename_i moved
      cases result
      obtain ⟨content, found, _, there, _⟩ := Store.renameExclusive_some (by simp) moved
      exact ⟨fun _ impossible => (by cases impossible), fun _ => ⟨content, there, staged content found⟩⟩
    · cases result
      exact failed rfl

/-- A place at which the files are not spoken of. -/
def Pc.quiet (pc : Pc) : Prop := ∀ store, Staged sha256 store pc

theorem Return.failed_quiet (k : Return) : k.failed.quiet sha256 := by
  cases k <;> exact fun _ => trivial

theorem Return.next_quiet (k : Return) : k.next.quiet sha256 := by
  cases k with
  | captured id rt final =>
    simp only [Return.next]
    split <;> exact fun _ => trivial
  | _ => exact fun _ => trivial

theorem Pc.failed_quiet (pc : Pc) : pc.failed.quiet sha256 := by
  cases pc with
  | pending k | admitting _ _ k | place _ _ _ k | finalize _ _ k | put _ k => exact k.failed_quiet sha256
  | _ => exact fun _ => trivial

/-- A step that leaves the files and speaks of none. -/
structure Silent (s s' : System) : Prop where
  store : s'.store = s.store
  quiet : s'.pc.quiet sha256

/-- Only the steps of a placement write files. -/
theorem work_silent (s : System) (now : Nat) (input : Input)
    (other : ∀ step a intent k, s.pc ≠ .place step a intent k) : Silent sha256 s (work sha256 s now input) := by
  cases place : s.pc with
  | place step a intent k => exact absurd place (other step a intent k)
  | admitting a intent k =>
    simp only [work, place]
    split
    · exact ⟨rfl, k.failed_quiet sha256⟩
    · exact ⟨rfl, k.next_quiet sha256⟩
    · exact ⟨rfl, fun _ => trivial⟩
  | finalize a intent k =>
    simp only [work, place]
    split
    · exact ⟨rfl, k.failed_quiet sha256⟩
    · exact ⟨rfl, k.next_quiet sha256⟩
  | put intent k =>
    simp only [work, place]
    split
    · exact ⟨rfl, k.failed_quiet sha256⟩
    · split
      · exact ⟨rfl, k.failed_quiet sha256⟩
      · exact ⟨rfl, fun _ => trivial⟩
  | pending k =>
    cases k with
    | boot rest | reconcile _ rest =>
      cases rest with
      | nil =>
        simp only [work, place]
        exact ⟨rfl, fun _ => trivial⟩
      | cons id rest =>
        simp only [work, place]
        split <;> exact ⟨rfl, fun _ => trivial⟩
    | captured id rt final | operated id =>
      simp only [work, place]
      exact ⟨rfl, fun _ => trivial⟩
  | list ids jobs boot =>
    cases ids with
    | nil =>
      simp only [work, place]
      exact ⟨rfl, fun _ => trivial⟩
    | cons id ids =>
      simp only [work, place]
      split <;> exact ⟨rfl, fun _ => trivial⟩
  | each jobs boot =>
    cases jobs with
    | nil =>
      simp only [work, place]
      cases boot <;> exact ⟨rfl, fun _ => trivial⟩
    | cons job jobs =>
      simp only [work, place]
      split
      · exact ⟨rfl, fun _ => trivial⟩
      · split <;> exact ⟨rfl, fun _ => trivial⟩
  | stopped =>
    simp only [work, place]
    exact ⟨rfl, fun _ => by rw [place]; trivial⟩
  | status id status after =>
    simp only [work, place]
    cases after <;> exact ⟨rfl, fun _ => trivial⟩
  | package id job rt outcome =>
    simp only [work, place]
    split
    · exact ⟨rfl, fun _ => trivial⟩
    · split
      · cases rt.canResume <;> exact ⟨rfl, fun _ => trivial⟩
      · split <;> exact ⟨rfl, fun _ => trivial⟩
  | crawling id job rt reason =>
    cases input with
    | poll limit =>
      simp only [work, place]
      split <;> exact ⟨rfl, fun _ => trivial⟩
    | sync _ _ _ | exit _ =>
      simp only [work, place]
      exact ⟨rfl, fun _ => trivial⟩
    | _ =>
      simp only [work, place]
      exact ⟨rfl, fun _ => by rw [place]; trivial⟩
  | working id job =>
    simp only [work, place]
    split
    all_goals
      repeat' split
      all_goals first | exact ⟨rfl, fun _ => trivial⟩ | exact ⟨rfl, fun _ => by rw [place]; trivial⟩
  | inspect id job rt final =>
    cases input with
    | inspected archive report source coverage =>
      simp only [work, place]
      split <;> exact ⟨rfl, fun _ => trivial⟩
    | _ =>
      simp only [work, place]
      exact ⟨rfl, fun _ => by rw [place]; trivial⟩
  | _ =>
    simp only [work, place]
    repeat' split
    all_goals exact ⟨rfl, fun _ => trivial⟩

end Steps

section Catalogue

variable (sha256 : Content → String) {s : System}

/-- Every catalogue row stands for its file, and every intent agrees with the row under its id and with its job's. -/
structure Catalogued (s : System) : Prop where
  files : ∀ a row, s.db.archives a = some row → InPlace sha256 s.store a row.document row.sha256
  agrees : ∀ a intent row, s.db.intents.get a = some intent → s.db.archives a = some row →
    row.owner = intent.archive.createdBy ∧ row.sha256 = intent.archive.sha256
  drawn : ∀ a row, s.db.archives a = some row → a < s.db.intents.next
  owners : ∀ a intent, s.db.intents.get a = some intent → ∀ id, intent.jobId = some id →
    Holds s.db id fun job => job.createdBy = intent.archive.createdBy

/-- What a row becomes when its document is saved with the same place and digest. -/
theorem saved_row {db : Db} {a : Nat} {document : Archive} {row : ArchiveRow} (found : db.archives a = some row)
    (owner : row.owner = document.createdBy) :
    (saveArchiveMetadata db a document).archives =
      Function.update db.archives a (some { row with document := document, sha256 := document.sha256 }) := by
  simp only [saveArchiveMetadata, found, if_pos owner]

theorem Catalogued.saved {s' : System} (catalogued : Catalogued sha256 s) {a : Nat} {document : Archive} {row : ArchiveRow}
    (found : s.db.archives a = some row) (owner : row.owner = document.createdBy) (digest : row.sha256 = document.sha256)
    (file : document.archiveFile = row.document.archiveFile) (visibility : document.visibility = row.document.visibility)
    (result : s'.db = saveArchiveMetadata s.db a document) (store : s'.store = s.store) : Catalogued sha256 s' := by
  have archives := saved_row found owner
  have rows : ∀ x new, s'.db.archives x = some new → ∃ old, s.db.archives x = some old ∧ new.owner = old.owner ∧
      new.sha256 = old.sha256 ∧ new.document.archiveFile = old.document.archiveFile ∧
      new.document.visibility = old.document.visibility := by
    intro x new there
    rw [result, archives] at there
    by_cases same : x = a
    · subst same
      rw [Function.update_self] at there
      cases there
      exact ⟨row, found, rfl, digest.symm, file, visibility⟩
    · rw [Function.update_of_ne same] at there
      exact ⟨new, there, rfl, rfl, rfl, rfl⟩
  have intents : s'.db.intents = s.db.intents := by
    rw [result]
    rfl
  have jobs : s'.db.jobs = s.db.jobs := by
    rw [result]
    rfl
  constructor
  · intro x new there
    obtain ⟨old, was, _, same, name, place⟩ := rows x new there
    obtain ⟨content, exists_file, hash⟩ := catalogued.files x old was
    refine ⟨content, ?_, hash.trans same.symm⟩
    rw [store, name, show root new.document = root old.document by unfold root; rw [place]]
    exact exists_file
  · intro x intent new there here
    obtain ⟨old, was, same_owner, same, _⟩ := rows x new here
    rw [intents] at there
    rw [same_owner, same]
    exact catalogued.agrees x intent old there was
  · intro x new there
    obtain ⟨old, was, _⟩ := rows x new there
    rw [intents]
    exact catalogued.drawn x old was
  · intro x intent there id job
    rw [intents] at there
    unfold Holds
    rw [jobs]
    exact catalogued.owners x intent there id job

/-- A request changes no row of the catalogue but the one edited. -/
theorem Catalogued.requests {s' : System} (catalogued : Catalogued sha256 s) (ok : DbOk s.db)
    (requests : Requests s.db s'.db) (archives : s'.db.archives = s.db.archives)
    (files : ∀ r name content, name.final = true → s.store.files r name = some content →
      s'.store.files r name = some content) : Catalogued sha256 s' := by
  have stored : ∀ a intent', s'.db.intents.get a = some intent' → ∃ intent, s.db.intents.get a = some intent ∧
      intent'.archive = intent.archive ∧ intent'.jobId = intent.jobId := by
    intro a intent' found
    cases was : s.db.intents.get a with
    | none =>
      rw [requests.absent a was] at found
      cases found
    | some intent =>
      rcases requests.invalidated a intent was with same | ⟨_, after, _⟩
      · cases same.symm.trans found
        exact ⟨intent', rfl, rfl, rfl⟩
      · cases after.symm.trans found
        exact ⟨intent, rfl, rfl, rfl⟩
  constructor
  · intro a row found
    rw [archives] at found
    obtain ⟨content, there, same⟩ := catalogued.files a row found
    exact ⟨content, files _ _ _ rfl there, same⟩
  · intro a intent' row found there
    rw [archives] at there
    obtain ⟨intent, was, same, _⟩ := stored a intent' found
    rw [same]
    exact catalogued.agrees a intent row was there
  · intro a row found
    rw [archives] at found
    rw [requests.intents]
    exact catalogued.drawn a row found
  · intro a intent' found id owner
    obtain ⟨intent, was, same, job⟩ := stored a intent' found
    rw [same]
    exact (catalogued.owners a intent was id (job.symm.trans owner)).requests ok requests (owner_stable _)

theorem Publishes.archives {s' : System} (publishes : Publishes s s') {a : Nat} {row' : ArchiveRow}
    (found : s'.db.archives a = some row') :
    (∃ row, s.db.archives a = some row ∧ row'.owner = row.owner ∧ row'.sha256 = row.sha256 ∧
      row'.document.archiveFile = row.document.archiveFile ∧ row'.document.visibility = row.document.visibility) ∨
    ∃ intent k, s.pc = .finalize a intent k ∧ s.db.archives a = none ∧ row' = intent.row none := by
  have same : ∀ row, s.db.archives a = some row → row' = row →
      (∃ row, s.db.archives a = some row ∧ row'.owner = row.owner ∧ row'.sha256 = row.sha256 ∧
        row'.document.archiveFile = row.document.archiveFile ∧ row'.document.visibility = row.document.visibility) ∨
      ∃ intent k, s.pc = .finalize a intent k ∧ s.db.archives a = none ∧ row' = intent.row none := by
    rintro row there rfl
    exact Or.inl ⟨row', there, rfl, rfl, rfl, rfl⟩
  cases publishes with
  | quiet _ archives _ =>
    rw [archives] at found
    exact same row' found rfl
  | admitted b refused k place pass result _ =>
    rw [(admit_some result).1] at found
    exact same row' found rfl
  | put stored k place _ result _ =>
    rw [(putIntent_some result).1] at found
    exact same row' found rfl
  | finalized b final k place result _ =>
    rw [(finalize_some result).2.2.1] at found
    by_cases here : a = b
    · subst here
      rw [Function.update_self] at found
      cases found
      cases before : s.db.archives a with
      | none => exact Or.inr ⟨final, k, place, rfl, rfl⟩
      | some row => exact Or.inl ⟨row, rfl, rfl, rfl, rfl, rfl⟩
    · rw [Function.update_of_ne here] at found
      exact same row' found rfl
  | verified b row document place there digest result =>
    rw [result, saved_row there rfl] at found
    by_cases here : a = b
    · subst here
      rw [Function.update_self] at found
      cases found
      exact Or.inl ⟨row, there, rfl, digest.symm, rfl, rfl⟩
    · rw [Function.update_of_ne here] at found
      exact same row' found rfl

/-- A step that leaves the files adds a row only where its file is in place. -/
theorem Catalogued.publishes {s' : System} (catalogued : Catalogued sha256 s) (publishes : Publishes s s')
    (works : Works s.directories s.pc s.db s'.db) (staged : Staged sha256 s.store s.pc) (ok : SystemOk s)
    (store : s'.store = s.store) : Catalogued sha256 s' := by
  constructor
  · intro a row' found
    rcases publishes.archives found with ⟨row, was, _, same, file, visibility⟩ | ⟨intent, k, place, _, rfl⟩
    · obtain ⟨content, there, digest⟩ := catalogued.files a row was
      refine ⟨content, ?_, digest.trans same.symm⟩
      rw [store, file, show root row'.document = root row.document by unfold root; rw [visibility]]
      exact there
    · rw [place] at staged
      rw [store]
      exact staged
  · intro a intent' row' found there
    rcases publishes.archives there with ⟨row, was, owner, same, _⟩ | ⟨intent, k, place, _, rfl⟩
    · rcases publishes.origin found with ⟨intent, completed, before, rfl⟩ | ⟨_, _, _, rfl, _⟩
      · rw [owner, same]
        exact catalogued.agrees a intent row before was
      · exact absurd (catalogued.drawn _ row was) (Nat.lt_irrefl _)
    · rcases publishes.origin found with ⟨stored, completed, before, rfl⟩ | ⟨_, _, other, _⟩
      · have admitted := ok.pc
        rw [place] at admitted
        cases before.symm.trans admitted.1.1
        exact ⟨rfl, rfl⟩
      · cases place.symm.trans other
  · intro a row' found
    rcases publishes.archives found with ⟨row, was, _⟩ | ⟨intent, k, place, _, rfl⟩
    · exact Nat.lt_of_lt_of_le (catalogued.drawn a row was) publishes.next
    · have admitted := ok.pc
      rw [place] at admitted
      exact Nat.lt_of_lt_of_le (Table.lt_next_of_get _ _ _ admitted.1.1) publishes.next
  · intro a intent' found id owner
    rcases publishes.origin found with ⟨intent, completed, before, rfl⟩ | ⟨stored, k, place, rfl, rfl, result⟩
    · refine (catalogued.owners a intent before id owner).works works fun job job' _ worked same => ?_
      exact worked.identity.1.trans same
    · obtain ⟨db, allowed⟩ := putIntent_some result
      obtain ⟨job, there, same, _⟩ := allowed id owner
      rw [db]
      exact .read there same

theorem Catalogued.moves {s' : System} {a : Nat} {archive : Archive} (catalogued : Catalogued sha256 s)
    (db : s'.db = s.db) (moves : Moves s.store a archive s'.store) : Catalogued sha256 s' where
  files b row found := by
    rw [db] at found
    exact (catalogued.files b row found).moves moves
  agrees b intent row found there := by
    rw [db] at found there
    exact catalogued.agrees b intent row found there
  drawn b row found := by
    rw [db] at found ⊢
    exact catalogued.drawn b row found
  owners b intent found id owner := by
    rw [db] at found ⊢
    exact catalogued.owners b intent found id owner

end Catalogue

end NixHomeServer.Browsertrix
