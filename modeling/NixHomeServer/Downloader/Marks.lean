import NixHomeServer.Downloader.Jobs
import Mathlib.Data.List.Nodup

/-! What the database makes of a job's status, request after request. -/
namespace NixHomeServer.Downloader

/-- The status of a job, and how often it has waited for the user. -/
structure Mark where
  status : Status
  alerts : Nat
  deriving DecidableEq, Repr

def Job.mark (job : Job) : Mark := ⟨job.status, job.alerts⟩

namespace Db

def mark (db : Db) (id : Nat) : Option Mark := (db.find id).map Job.mark

/-- The id is the table's primary key. -/
def Unique (db : Db) : Prop := (db.rows.map Job.id).Nodup

/-- What a request can do to one job. -/
inductive Moves (db : Db) (query : Query) (reply : Reply) (id : Nat) : Option Mark → Option Mark → Prop
  | same (m : Option Mark) : Moves db query reply id m m
  | written (status s : Status) (n : Nat) (asks : query = .setStatus id status) (done : reply = .done) :
    Moves db query reply id (some ⟨s, n⟩) (some ⟨status, n⟩)
  | raised (alert : Alert) (s : Status) (n : Nat) (asks : query = .setAlert id alert) (done : reply = .done) :
    Moves db query reply id (some ⟨s, n⟩) (some ⟨.alert, n + 1⟩)
  | requeued (request : CreateJobRequest) (n : Nat) (asks : query = .requeue id request) :
    Moves db query reply id (some ⟨.alert, n⟩) (some ⟨.queued, n⟩)
  | claimed (n : Nat) (asks : query = .claim) : Moves db query reply id (some ⟨.queued, n⟩) (some ⟨.probing, n⟩)
  | created (m : Mark) (new : id = db.next) : Moves db query reply id none (some m)
  | deleted (m : Mark) (spent : m.status.terminal = true) : Moves db query reply id (some m) none

section Marks

variable {db : Db} {now id : Nat} {job : Job} {change : Job → Job}

theorem Unique.find_iff (unique : db.Unique) : db.find id = some job ↔ job ∈ db.rows ∧ job.id = id := by
  refine ⟨find_some, fun ⟨member, same⟩ => ?_⟩
  cases found : db.find id with
  | none =>
    have some_row := find_isSome.mpr ⟨job, member, same⟩
    rw [found] at some_row
    cases some_row
  | some other =>
    obtain ⟨there, at_id⟩ := find_some found
    exact congrArg some (List.inj_on_of_nodup_map unique there member (at_id.trans same.symm))

theorem find_modify (change : Job → Job) (keeps : ∀ job, (change job).id = job.id) (other : Nat) :
    (db.modify now id change).find other =
      if other = id then (db.find other).map fun job => { change job with updatedAt := now } else db.find other := by
  have key : ∀ job : Job, (if job.id = id then { change job with updatedAt := now } else job).id = job.id := by
    intro job
    split
    · exact keeps job
    · rfl
  simp only [find, modify, List.find?_map, Function.comp_def, key]
  cases found : db.rows.find? fun job => job.id = other with
  | none => split <;> rfl
  | some job =>
    have at_other : job.id = other := (@find_some db _ _ found).2
    simp only [Option.map_some, at_other]
    split <;> rfl

theorem mark_modify (change : Job → Job) (keeps : ∀ job, (change job).id = job.id) (other : Nat) :
    (db.modify now id change).mark other =
      if other = id then (db.find other).map fun job => (change job).mark else db.mark other := by
  rw [mark, find_modify change keeps]
  split
  · rw [Option.map_map]
    rfl
  · rfl

/-- A change that leaves the status alone. -/
theorem mark_touched (change : Job → Job) (keeps : ∀ job, (change job).id = job.id)
    (same : ∀ job, (change job).mark = job.mark) (other : Nat) : (db.modify now id change).mark other = db.mark other := by
  rw [mark_modify change keeps]
  simp only [same]
  split <;> rfl

theorem mark_withEvent (change : Job → Job) (keeps : ∀ job, (change job).id = job.id) (other : Nat) :
    (db.withEvent now id change).1.mark other = db.mark other ∨
      (other = id ∧ (db.withEvent now id change).2 = .done ∧
        ∃ job, db.find id = some job ∧ (db.withEvent now id change).1.mark id = some (change job).mark) := by
  unfold withEvent
  cases found : db.find id with
  | none => exact Or.inl rfl
  | some job =>
    dsimp only
    rw [mark_modify change keeps, mark_modify change keeps, if_pos rfl, found]
    split
    · exact Or.inr ⟨by assumption, rfl, job, rfl, rfl⟩
    · exact Or.inl rfl

theorem mark_filter (unique : db.Unique) (keep : Job → Bool) (gone : ∀ job, keep job = false → job.status.terminal = true)
    (other : Nat) : ({ db with rows := db.rows.filter keep } : Db).mark other = db.mark other ∨
      ∃ m : Mark, m.status.terminal = true ∧ db.mark other = some m ∧
        ({ db with rows := db.rows.filter keep } : Db).mark other = none := by
  have fewer : ({ db with rows := db.rows.filter keep } : Db).Unique :=
    (List.filter_sublist.map Job.id).nodup unique
  cases left : ({ db with rows := db.rows.filter keep } : Db).find other with
  | some job =>
    obtain ⟨member, same⟩ := find_some left
    have old := unique.find_iff.mpr ⟨List.mem_of_mem_filter member, same⟩
    exact Or.inl (by rw [mark, mark, left, old])
  | none =>
    cases found : db.find other with
    | none => exact Or.inl (by rw [mark, mark, left, found])
    | some job =>
      obtain ⟨member, same⟩ := find_some found
      have dropped : keep job = false := Bool.eq_false_iff.mpr fun kept => by
        rw [fewer.find_iff.mpr ⟨List.mem_filter.mpr ⟨member, kept⟩, same⟩] at left
        cases left
      refine Or.inr ⟨job.mark, gone job dropped, ?_, ?_⟩
      · rw [mark, found]
        rfl
      · rw [mark, left]
        rfl

theorem terminal_of_dropped {status : Status} {a b : Bool} (dropped : (!(a && b && status.terminal)) = false) :
    status.terminal = true := by
  rw [Bool.not_eq_false', Bool.and_eq_true] at dropped
  exact dropped.2

/-- A request changes a job's status by what it asks, or not at all. -/
theorem handle_moves (unique : db.Unique) (now : Nat) (query : Query) (id : Nat) :
    Moves db query (db.handle now query).2 id (db.mark id) ((db.handle now query).1.mark id) := by
  have same : ∀ {reply : Reply} {m : Option Mark}, m = db.mark id → Moves db query reply id (db.mark id) m :=
    fun same => same ▸ Moves.same _
  have found_mark : ∀ {other : Nat} {job : Job}, db.find other = some job → db.mark other = some job.mark :=
    fun found => by rw [mark, found]; rfl
  have fewer : ∀ (keep : Job → Bool), (∀ job, keep job = false → job.status.terminal = true) → ∀ {reply : Reply},
      Moves db query reply id (db.mark id) (({ db with rows := db.rows.filter keep } : Db).mark id) := by
    intro keep gone reply
    rcases mark_filter unique keep gone id with kept | ⟨m, spent, there, none⟩
    · exact same kept
    · rw [there, none]
      exact .deleted m spent
  cases query with
  | createJob createdBy tag request alert =>
    simp only [handle, mark, find, List.find?_append, List.find?_cons, List.find?_nil]
    cases found : db.rows.find? fun job => job.id = id with
    | some job => exact .same _
    | none =>
      by_cases new : db.next = id
      · simp only [new, decide_true]
        exact .created _ new.symm
      · simp only [new, decide_false]
        exact .same none
  | claim =>
    rcases handle_claim now db with ⟨nothing, -⟩ | ⟨job, member, queued, taken⟩
    · rw [nothing]
      exact .same _
    · rw [taken]
      have found := unique.find_iff.mpr ⟨member, rfl⟩
      dsimp only
      rw [mark_modify (fun job => { job with status := .probing }) fun _ => rfl]
      split
      · rename_i here
        rw [here, found_mark found, found]
        have before : job.mark = ⟨.queued, job.alerts⟩ := by rw [Job.mark, queued]
        rw [before]
        exact .claimed job.alerts rfl
      · exact .same _
  | setStatus other status =>
    rcases @mark_withEvent db now other (setStatus status) (fun _ => rfl) id with kept | ⟨rfl, done, job, found, after⟩
    · exact same kept
    · rw [handle, after, found_mark found]
      exact .written status job.status job.alerts rfl done
  | setAlert other alert =>
    rcases @mark_withEvent db now other (setAlert alert) (fun _ => rfl) id with kept | ⟨rfl, done, job, found, after⟩
    · exact same kept
    · rw [handle, after, found_mark found]
      exact .raised alert job.status job.alerts rfl done
  | requeue other request =>
    unfold handle
    dsimp only
    cases found : db.find other with
    | none => exact .same _
    | some job =>
      dsimp only
      split
      · rename_i waits
        dsimp only
        rw [mark_modify (fun job => { job with status := .queued, request := request, alert := none })
          fun _ => rfl]
        split
        · rename_i here
          rw [here, found_mark found, found]
          have before : job.mark = ⟨.alert, job.alerts⟩ := by rw [Job.mark, waits]
          rw [before]
          exact .requeued request job.alerts rfl
        · exact .same _
      · exact .same _
  | updateRequest other request =>
    exact same (mark_touched (fun job => { job with request := request }) (fun _ => rfl) (fun _ => rfl) id)
  | update other => exact same (mark_touched (fun job => job) (fun _ => rfl) (fun _ => rfl) id)
  | deleteJob other createdBy => exact fewer _ fun job dropped => terminal_of_dropped dropped
  | clearHistory createdBy =>
    refine fewer _ fun job dropped => ?_
    rw [Bool.not_eq_false', Bool.and_eq_true] at dropped
    exact dropped.2
  | _ => exact .same _

theorem Unique.handle (unique : db.Unique) (known : db.Known) (now : Nat) (query : Query) :
    (db.handle now query).1.Unique := by
  have modified : ∀ id change, (∀ job, (change job).id = job.id) → (db.modify now id change).Unique := by
    intro id change keeps
    have keys : (db.modify now id change).rows.map Job.id = db.rows.map Job.id := by
      simp only [modify, List.map_map]
      refine List.map_congr_left fun job _ => ?_
      simp only [Function.comp_apply]
      split
      · exact keeps job
      · rfl
    rw [Unique, keys]
    exact unique
  have evented : ∀ id change, (∀ job, (change job).id = job.id) → (db.withEvent now id change).1.Unique := by
    intro id change keeps
    unfold withEvent
    split
    · exact modified id change keeps
    · exact unique
  have fewer : ∀ keep : Job → Bool, ({ db with rows := db.rows.filter keep } : Db).Unique :=
    fun keep => (List.filter_sublist.map Job.id).nodup unique
  cases query with
  | createJob createdBy tag request alert =>
    simp only [Db.handle, Unique, List.map_append, List.map_cons, List.map_nil, List.nodup_append, List.nodup_cons,
      List.not_mem_nil, not_false_eq_true, List.nodup_nil, and_self, List.mem_singleton, true_and]
    refine ⟨unique, fun key member other same => ?_⟩
    obtain ⟨job, there, rfl⟩ := List.mem_map.mp member
    exact Nat.ne_of_lt (same ▸ known job there)
  | claim =>
    rcases handle_claim now db with ⟨nothing, -⟩ | ⟨job, member, queued, taken⟩
    · rw [nothing]
      exact unique
    · rw [taken]
      exact modified job.id (fun job => { job with status := .probing }) fun _ => rfl
  | setStatus id status => exact evented id (setStatus status) fun _ => rfl
  | setAlert id alert => exact evented id (setAlert alert) fun _ => rfl
  | requeue id request =>
    unfold Db.handle
    dsimp only
    split
    · split
      · exact modified id (fun job => { job with status := .queued, request := request, alert := none })
          fun _ => rfl
      · exact unique
    · exact unique
  | updateRequest id request => exact modified id (fun job => { job with request := request }) fun _ => rfl
  | update id => exact modified id (fun job => job) fun _ => rfl
  | deleteJob id createdBy => exact fewer _
  | clearHistory createdBy => exact fewer _
  | _ => exact unique

end Marks

end Db

end NixHomeServer.Downloader
