import NixHomeServer.Browsertrix.Pending

/-! Which jobs their owner can still act on, and that a job whose archive was finalized as
completed is not recorded as failed. -/
namespace NixHomeServer.Browsertrix

open NixHomeServer.Library

/-- The worker is done with the job, and nothing of it awaits a clean-up. -/
def Settled (job : Job) : Prop :=
  job.status ≠ .queued ∧ job.status ≠ .starting ∧ job.status ≠ .running ∧ job.status ≠ .cancelling ∧
    job.status ≠ .packaging ∧ job.discardCleanupPending = false

instance (job : Job) : Decidable (Settled job) := inferInstanceAs (Decidable (_ ∧ _))

/-- One of `resume`, `request_cancel` and `delete_job` accepts the owner's request. -/
def Accepted (db : Db) (id : Nat) (owner : String) : Prop :=
  (∃ ext, (Browsertrix.resume db id owner ext).isSome = true) ∨ (requestCancel db id).2 = true ∨
    (deleteJob db id owner).2 = true

/-- A completed or failed job is not marked resumable. -/
def Released (job : Job) : Prop := job.status = .completed ∨ job.status = .failed → job.runtime.canResume = false

/-- The place after a publication of the job's archive. -/
def Pc.concluding : Pc → Option Nat
  | .tidy id _ | .published id _ | .record id _ | .inbox id | .scratch id => some id
  | _ => none

/-- A job that this place is about to record as completed or failed is marked resumable. -/
def Pc.strands (pc : Pc) (id : Nat) (job : Job) : Bool :=
  job.runtime.control != some .discard && job.runtime.canResume &&
    (pc.records id job == some .completed || pc.records id job == some .failed)

/-- The worker records a job as completed or failed only where the stored document is not marked
resumable, does not fail after it finalized the job's archive as completed, and finds all pending
intents when it starts. -/
def Orderly (s : System) : Event → Prop
  | .work _ _ => s.db.jobs.select s.pc.strands = []
  | .fail _ =>
    match s.pc.concluding with
    | none => True
    | some id => ¬Concluded s.db id
  | .start =>
    s.pc = .stopped → (s.db.intents.select fun _ intent => intent.completed == .pending).length ≤ 1000
  | _ => True

/-- The condition on a failure, for any place. -/
def decidableUnconcluded (s : System) : (concluding : Option Nat) → Decidable (match concluding with
    | none => True
    | some id => ¬Concluded s.db id)
  | none => isTrue trivial
  | some id => inferInstanceAs (Decidable ¬Concluded s.db id)

instance (s : System) (event : Event) : Decidable (Orderly s event) :=
  match event with
  | .work _ _ => inferInstanceAs (Decidable (s.db.jobs.select s.pc.strands = []))
  | .fail _ => decidableUnconcluded s s.pc.concluding
  | .start => inferInstanceAs (Decidable
      (s.pc = .stopped → (s.db.intents.select fun _ intent => intent.completed == .pending).length ≤ 1000))
  | .create _ _ _ | .batch _ _ _ | .operation _ _ _ _ | .control _ _ _ | .resume _ _ _ | .cancel _ | .delete _ _ | .clear _
  | .records _ _ | .edit _ _ | .crash _ | .crawler _ _ | .source _ _ | .outside _ _ _ _ => isTrue trivial

section Rows

variable {gone admits : Prop} {records : Option JobStatus} {job job' : Job}

theorem Requested.released (requested : Requested job job') (released : Released job) : Released job' := by
  cases requested with
  | same => exact released
  | controlled control accepted _ _ =>
    intro ended
    exfalso
    rcases accepted with status | status | status <;> simp [Job.controlled, Job.store, status] at ended
  | resumed _ _ _ _ => exact fun _ => rfl
  | ended _ => exact fun _ => rfl
  | ending _ => exact fun _ => rfl

theorem Worked.released (worked : Worked gone admits records job job') (row : RowOk job) (released : Released job)
    (orderly : ¬Discarded job → (records = some .completed ∨ records = some .failed) →
      job.runtime.canResume = false) : Released job' := by
  have recorded : ∀ {status : JobStatus}, records = some status → ¬Discarded job →
      status = .completed ∨ status = .failed → job.runtime.canResume = false := by
    intro status here free ended
    apply orderly free
    rcases ended with rfl | rfl
    · exact Or.inl here
    · exact Or.inr here
  cases worked with
  | same => exact released
  | claimed _ => exact fun ended => by rcases ended with same | same <;> cases same
  | begun rt _ _ _ fresh _ => exact fun _ => fresh
  | preserved rt place _ =>
    intro ended
    exfalso
    rcases place with running | recovered
    · rcases running with status | status <;> simp [Job.preserving, status] at ended
    · rcases recovered with status | status | status <;> simp [Job.preserving, status] at ended
  | frozen rt _ _ _ _ => exact fun ended => by rcases ended with same | same <;> cases same
  | operating _ _ => exact fun ended => by rcases ended with same | same <;> cases same
  | dropped discarded => exact fun _ => row.final discarded
  | refused _ => exact fun _ => rfl
  | admitted _ _ => exact fun ended => by rcases ended with same | same <;> cases same
  | finalized a intent here packaging _ =>
    have status : job.status = .packaging := packaging
    have free : ¬Discarded job := by
      intro discarded
      rcases row.discarded.mp discarded with same | same <;> simp [status] at same
    unfold Job.finalized
    split
    · exact recorded here free
    · exact released
  | stored rt place _ _ =>
    intro ended
    rcases place with packaging | ⟨_, final⟩
    · have status : job.status = .packaging := packaging
      simp [Job.store, status] at ended
    · exact final
  | status status here _ free => exact recorded here free
  | interrupted here _ free => exact recorded here free
  | restored saved paused _ => exact fun ended => by simp [paused] at ended
  | cleaned _ _ => exact fun _ => rfl

end Rows

section Step

variable {s : System} (sha256 : Content → String)

/-- What the runs of an orderly system keep. -/
structure Standing (s : System) : Prop where
  ok : SystemOk s
  queue : QueueOk s.db
  placed : PlaceOk s.db s.pc
  released : ∀ id job, s.db.jobs.get id = some job → Released job

theorem Orderly.records {now : Nat} {input : Input} (orderly : Orderly s (.work now input)) {id : Nat} {job : Job}
    (found : s.db.jobs.get id = some job) (free : ¬Discarded job)
    (records : s.pc.records id job = some .completed ∨ s.pc.records id job = some .failed) :
    job.runtime.canResume = false := by
  have kept := (Table.select_eq_nil _ _).mp orderly id job found
  have control : (job.runtime.control != some .discard) = true := by simpa [Discarded] using free
  cases resumable : job.runtime.canResume with
  | false => rfl
  | true =>
    rcases records with same | same <;> simp [Pc.strands, control, resumable, same] at kept

theorem Standing.fail (standing : Standing s) {id : Nat} (failed : s.pc.failed = .fail id)
    (orderly : s.pc.concluding = some id → ¬Concluded s.db id) : Unconcluded s.db id := by
  have before := standing.ok.pc
  have placed := standing.placed
  have queue := standing.queue
  have starting : ∀ {x : Nat}, Holds s.db x Starting → Unconcluded s.db x := fun held =>
    queue.unconcluded held fun job holds => (starting_apart job holds).2
  have running : ∀ {x : Nat}, Holds s.db x Running → Unconcluded s.db x := fun held =>
    queue.unconcluded held fun job holds => (running_apart job holds).2
  have packaging : ∀ {x : Nat}, Holds s.db x Packaging → Unconcluded s.db x := fun held =>
    queue.unconcluded held packaging_apart
  have returned : ∀ {a : Nat} {intent : PublicationIntent} {k : Return} {now : List Nat}, k.Ok s.db a intent →
      k.Waits s.db now → k.failed = .fail id → Unconcluded s.db id := by
    intro a intent k now fine waits same
    have all := Return.Waits.failed queue fine waits
    rw [same] at all
    exact all
  cases place : s.pc with
  | pending k =>
    rw [place] at before placed failed
    cases k with
    | reconcile x rest =>
      cases failed
      exact packaging placed.1
    | boot _ => cases failed
    | _ => exact before.elim
  | admitting a intent k | place _ a intent k | finalize a intent k =>
    rw [place] at before placed failed
    exact returned before.2 placed failed
  | put intent k =>
    rw [place] at before failed
    cases k with
    | captured x rt final =>
      cases failed
      exact packaging before.1
    | operated x =>
      cases failed
      exact packaging before.1
    | _ => exact before.elim
  | prepare x job | before x job | begin x job rt | operate x job =>
    rw [place] at before failed
    cases failed
    exact starting before.1
  | reread x =>
    rw [place] at before failed
    cases failed
    exact starting before
  | crawling x _ _ _ | settle x _ _ _ | drop x _ | latest x _ _ _ | reason x _ _ _ | package x _ _ _ =>
    rw [place] at before failed
    cases failed
    exact running before.1
  | inspect x _ _ _ | estimate x _ _ _ | working x _ | document x _ =>
    rw [place] at before failed
    cases failed
    exact packaging before.1
  | status x status after =>
    rw [place] at placed failed
    cases failed
    exact placed.2
  | tidy x _ | published x _ | record x _ =>
    rw [place] at before failed
    cases failed
    exact ⟨before.1.1, fun _ _ => orderly (by rw [place]; rfl)⟩
  | inbox x | scratch x =>
    rw [place] at before failed
    cases failed
    exact ⟨before, fun _ _ => orderly (by rw [place]; rfl)⟩
  | _ =>
    rw [place] at failed
    cases failed

theorem Pc.failed_cases (pc : Pc) : pc.failed = .stopped ∨ ∃ id, pc.failed = .fail id := by
  have returned : ∀ k : Return, k.failed = .stopped ∨ ∃ id, k.failed = .fail id := by
    intro k
    cases k with
    | boot _ => exact Or.inl rfl
    | _ => exact Or.inr ⟨_, rfl⟩
  cases pc with
  | pending k | admitting _ _ k | place _ _ _ k | finalize _ _ k | put _ k => exact returned k
  | stopped | interrupt | list _ _ _ | each _ _ | clock _ _ _ | checkpoint _ _ | restore _ _ _ | cleanup _ _ _
  | cleaned _ _ _ | top | dispatch | claim | claimed _ | fail _ => exact Or.inl rfl
  | _ => exact Or.inr ⟨_, rfl⟩

theorem Standing.event (standing : Standing s) (event : Event) (orderly : Orderly s event)
    (user : ∀ now input, event ≠ .work now input) (requests : Requests s.db (s.step sha256 event).db) :
    PlaceOk (s.step sha256 event).db (s.step sha256 event).pc := by
  have same : (s.step sha256 event).pc = s.pc → PlaceOk (s.step sha256 event).db (s.step sha256 event).pc := by
    intro stays
    rw [stays]
    exact standing.placed.requests requests standing.ok.db
  cases event with
  | work now input => exact absurd rfl (user now input)
  | fail torn =>
    simp only [System.step, System.spilled_db]
    rcases Pc.failed_cases s.pc with stopped | ⟨id, failed⟩
    · rw [stopped]
      trivial
    · rw [failed]
      refine standing.fail failed fun concluding => ?_
      simp only [Orderly, concluding] at orderly
      exact orderly
  | crash torn => trivial
  | start =>
    by_cases stopped : s.pc = .stopped
    · simp only [System.step, if_pos stopped]
      intro a intent found pending
      have short := orderly stopped
      rw [List.nil_append, pendingIntentIds, List.take_of_length_le (by rw [List.length_map]; exact short)]
      exact List.mem_map.mpr ⟨(a, intent), (Table.mem_select _ _ _ _).mpr ⟨found, by simp [pending]⟩, rfl⟩
    · apply same
      simp only [System.step, if_neg stopped]
  | edit id document =>
    apply same
    simp only [System.step]
    split <;> rfl
  | outside at_root archive name content =>
    apply same
    simp only [System.step]
    split <;> rfl
  | _ => exact same rfl

theorem Standing.step (event : Event) (orderly : Orderly s event) (standing : Standing s) :
    Standing (s.step sha256 event) := by
  have ok := step_ok sha256 standing.ok event
  have fresh_released : ∀ {job : Job}, Fresh job → Released job := by
    intro job fresh ended
    rw [fresh.status] at ended
    rcases ended with same | same <;> cases same
  by_cases user : ∀ now input, event ≠ .work now input
  · rcases step_cases (s := s) sha256 event with ⟨now, input, same⟩ | ⟨requests, _⟩
    · exact absurd same (user now input)
    refine ⟨ok, standing.queue.requests standing.ok.db requests,
      standing.event sha256 event orderly user requests, ?_⟩
    intro id job' found
    rcases requests.rows id job' found with ⟨job, was, requested⟩ | ⟨_, fresh⟩
    · exact requested.released (standing.released id job was)
    · exact fresh_released fresh
  · push Not at user
    obtain ⟨now, input, rfl⟩ := user
    have works := (work_stepped sha256 standing.ok now input).works
    have publishes := work_publishes sha256 s now input
    refine ⟨ok, standing.queue.publishes publishes works standing.ok standing.placed,
      work_placed sha256 now input standing.ok standing.queue standing.placed, ?_⟩
    intro id job' found
    rcases works.rows id job' found with ⟨job, was, worked⟩ | ⟨_, _, fresh⟩
    · exact worked.released (standing.ok.db.rows id job was) (standing.released id job was)
        fun free records => orderly.records was free records
    · exact fresh_released fresh

theorem start_standing : Standing {} := by
  refine ⟨start_ok, ⟨?_, ?_, ?_, ?_⟩, trivial, ?_⟩
  · intro a intent found
    cases found
  · intro a intent found
    cases found
  · intro a b first second found
    cases found
  · intro id concluded
    exact absurd rfl concluded
  · intro id job found
    cases found

/-- Where no job awaits its clean-up, a settled job that is not marked resumable can be cancelled or deleted. -/
theorem accepted_of_released {db : Db} {id : Nat} {job : Job} (row : RowOk job) (found : db.jobs.get id = some job)
    (released : Released job) (settled : Settled job) : Accepted db id job.createdBy := by
  obtain ⟨queued, starting, running, cancelling, packaging, unflagged⟩ := settled
  have deletable : (job.status = .completed ∨ job.status = .failed ∨ job.status = .cancelled) →
      job.runtime.canResume = false → Accepted db id job.createdBy := by
    intro ended final
    refine Or.inr (Or.inr ?_)
    have old : job.deletable = true := by
      rcases ended with same | same | same <;> simp [Job.deletable, same, final, unflagged]
    simp only [deleteJob, found, old, and_self, if_true]
  cases status : job.status with
  | queued => exact absurd status queued
  | starting => exact absurd status starting
  | running => exact absurd status running
  | cancelling => exact absurd status cancelling
  | packaging => exact absurd status packaging
  | completed => exact deletable (Or.inl status) (released (Or.inl status))
  | failed => exact deletable (Or.inr (Or.inl status)) (released (Or.inr status))
  | cancelled =>
    exact deletable (Or.inr (Or.inr status)) (row.final (row.discarded.mpr (Or.inr status)))
  | paused | partly =>
    refine Or.inr (Or.inl ?_)
    simp only [requestCancel, found, status]

/-- A completed or failed job that is marked resumable is refused by all three. -/
theorem stranded_refused {db : Db} {id : Nat} {job : Job} (found : db.jobs.get id = some job)
    (ended : job.status = .completed ∨ job.status = .failed) (resumable : job.runtime.canResume = true)
    (owner : String) : ¬Accepted db id owner := by
  rintro (⟨ext, resumed⟩ | cancelled | deleted)
  · have refused : job.extended ext = none := by
      unfold Job.extended
      rw [if_pos (Or.inr (Or.inl (by rcases ended with same | same <;> simp [same])))]
    simp only [Browsertrix.resume, found, refused] at resumed
    split at resumed <;> cases resumed
  · rcases ended with same | same <;> simp [requestCancel, found, same] at cancelled
  · simp [deleteJob, found, Job.deletable, resumable] at deleted

theorem concluded_requests {db db' : Db} (requests : Requests db db') {id : Nat} (concluded : Concluded db id) :
    Concluded db' id := by
  obtain ⟨a, intent, found, owner, completed, finalized⟩ := concluded_iff.mp concluded
  refine concluded_iff.mpr ⟨a, intent, ?_, owner, completed, finalized⟩
  rcases requests.invalidated a intent found with same | ⟨pending, _⟩
  · exact same
  · rw [finalized] at pending
    cases pending

theorem concluded_step (ok : SystemOk s) {id : Nat} (concluded : Concluded s.db id) (event : Event) :
    Concluded (s.step sha256 event).db id := by
  rcases step_cases (s := s) sha256 event with ⟨now, input, rfl⟩ | ⟨requests, _⟩
  · obtain ⟨a, intent, found, owner, completed, finalized⟩ := concluded_iff.mp concluded
    refine concluded_iff.mpr ⟨a, intent, ?_, owner, completed, finalized⟩
    rcases (work_publishes sha256 s now input).kept ok found with same | ⟨_, _, _, _, same⟩ | ⟨_, _, _, pending, _⟩
    · exact same
    · rw [← finalized] at same
      exact same
    · rw [finalized] at pending
      cases pending
  · exact concluded_requests requests concluded

/-- In a run where no step records a job as completed or failed while its document is marked
resumable, none fails after it finalized the job's archive as completed, and the worker finds all
pending intents when it starts: the owner of a settled job can always resume, cancel or delete it, and a
job whose archive was finalized as completed is not failed from then on. -/
theorem no_job_is_stranded (events : List Event) (orderly : Runs.Along (System.step sha256) Orderly {} events) :
    let s := Runs.run (System.step sha256) {} events
    (∀ id job, s.db.jobs.get id = some job → Settled job → Accepted s.db id job.createdBy) ∧
      ∀ before after, events = before ++ after → ∀ id,
        Concluded (Runs.run (System.step sha256) {} before).db id →
        ∀ job, s.db.jobs.get id = some job → job.status ≠ .failed := by
  intro s
  have standing : Standing s := Runs.run_invariant_along (System.step sha256) Orderly Standing
    (fun _ event orderly standing => standing.step sha256 event orderly) {} events orderly start_standing
  constructor
  · intro id job found settled
    exact accepted_of_released (standing.ok.db.rows id job found) found (standing.released id job found) settled
  · intro before after same id concluded job found failed
    have both : SystemOk s ∧ Concluded s.db id := by
      have there : s = Runs.run (System.step sha256) (Runs.run (System.step sha256) {} before) after := by
        rw [← Runs.run_append, ← same]
      rw [there]
      exact Runs.run_invariant (System.step sha256) (fun t => SystemOk t ∧ Concluded t.db id)
        (fun t event kept => ⟨step_ok sha256 kept.1 event, concluded_step sha256 kept.1 kept.2 event⟩)
        _ after ⟨run_ok sha256 before, concluded⟩
    have finished : job.status = .completed := (standing.queue.concluded id both.2).2 job found
    rw [finished] at failed
    cases failed

end Step

section Runs

/-- A capture of one page up to the exit of its crawler. -/
def crawl (saved : Option String) (outcome : Outcome) : List Event :=
  [.create 0 "ann" { url := "https://a.example/" }, .start] ++ List.replicate 14 (.work 0 .step) ++
    [.crawler 1 saved, .source "a" (some [1]), .work 9 (.exit outcome)]

def digest : Content → String := fun _ => "0123456789abcdef0123456789abcdef0123456789abcdef0123456789abcdef"

/-- The same capture up to its archive in the catalogue. -/
def publish : List Event :=
  crawl none {} ++ List.replicate 4 (.work 9 .step) ++
    [.work 9 (.inspected { createdBy := "", archiveFile := "a.wacz", archiveBytes := 1, sha256 := digest [] }
      { sha256 := digest [] } "a" [])] ++ List.replicate 12 (.work 9 .step)

/-- A capture is published, and its checkpoint removed. -/
theorem a_published_capture :
    let s := Runs.run (System.step digest) {} (publish ++ List.replicate 3 (.work 9 .step))
    ∀ id job, s.db.jobs.get id = some job → Settled job → Accepted s.db id job.createdBy :=
  (no_job_is_stranded digest _ (by decide +kernel)).1

/-- The policy driver of a capture did not load, and the checkpoint of a published one cannot be removed. -/
theorem stranded_and_failed :
    (let s := Runs.run (System.step digest) {}
      (crawl (some "state") { policyReady := false } ++ List.replicate 5 (.work 9 .step))
    ¬∀ id job, s.db.jobs.get id = some job → Settled job → Accepted s.db id job.createdBy) ∧
    (let s := Runs.run (System.step digest) {} publish
    let s' := Runs.run (System.step digest) s [.fail none, .work 9 .step]
    Concluded s.db 1 ∧ ∃ job, s'.db.jobs.get 1 = some job ∧ job.status = .failed) := by
  constructor
  · intro s all
    have found : ∃ job, s.db.jobs.get 1 = some job ∧ Settled job ∧ job.status = .failed ∧
        job.runtime.canResume = true := by
      refine ⟨(s.db.jobs.get 1).get (by decide +kernel), by decide +kernel, by decide +kernel, by decide +kernel,
        by decide +kernel⟩
    obtain ⟨job, found, settled, failed, resumable⟩ := found
    exact stranded_refused found (Or.inr failed) resumable _ (all 1 job found settled)
  · intro s s'
    exact ⟨by decide +kernel, (s'.db.jobs.get 1).get (by decide +kernel), by decide +kernel, by decide +kernel⟩

end Runs

end NixHomeServer.Browsertrix
