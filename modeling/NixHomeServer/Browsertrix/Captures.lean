import NixHomeServer.Browsertrix.Steps

/-! At most one active capture of an address for each owner: who checks, and which operations
make a job active without a check. -/
namespace NixHomeServer.Browsertrix

open NixHomeServer.Library

/-- No owner has two active captures, samples or repairs of one address. -/
def OneCapture (db : Db) : Prop :=
  ∀ owner url x y first second, db.jobs.get x = some first → db.jobs.get y = some second →
    first.captures owner url = true → second.captures owner url = true → x = y

/-- No active capture, sample or repair of the owner for the address. -/
def Unclaimed (db : Db) (owner url : String) : Prop := (db.activeCaptures owner url).isEmpty = true

instance (db : Db) (owner url : String) : Decidable (Unclaimed db owner url) :=
  inferInstanceAs (Decidable (_ = true))

/-- Where an operation makes a capture active without a check of its own, no other one is active. -/
def Apart (s : System) : Event → Prop
  | .batch _ owner requests =>
    (requests.map CreateJobRequest.url).Nodup ∧ ∀ request ∈ requests, Unclaimed s.db owner request.url
  | .operation _ owner request operation =>
    operation.isCapture = true → Unclaimed s.db owner request.url
  | .resume id _ _ =>
    match s.db.jobs.get id with
    | none => True
    | some job => (job.status = .partly ∨ job.status = .paused) ∧ job.runtime.operation.isCapture = true →
        Unclaimed s.db job.createdBy job.request.url
  | .work _ _ =>
    match s.pc with
    | .admitting _ intent _ =>
      match intent.jobId.bind s.db.jobs.get with
      | none => True
      | some job => job.status.active = false ∧ job.runtime.operation.isCapture = true →
          Unclaimed s.db job.createdBy job.request.url
    | _ => True
  | _ => True

instance (s : System) (event : Event) : Decidable (Apart s event) := by
  unfold Apart
  split
  · infer_instance
  · infer_instance
  · split <;> infer_instance
  · split
    · split <;> infer_instance
    · infer_instance
  · infer_instance

section Rows

variable {db db' : Db} {owner url : String}

theorem unclaimed_iff : Unclaimed db owner url ↔
    ∀ id job, db.jobs.get id = some job → job.captures owner url = false := by
  unfold Unclaimed Db.activeCaptures
  rw [List.isEmpty_iff, Table.select_eq_nil]

theorem Job.captures_iff {job : Job} : job.captures owner url = true ↔
    job.createdBy = owner ∧ job.status.active = true ∧ job.request.url = url ∧
      job.runtime.operation.isCapture = true := by
  simp only [Job.captures, Bool.and_eq_true, beq_iff_eq, and_assoc]

theorem OneCapture.insert (one : OneCapture db) {job : Job}
    (unclaimed : job.runtime.operation.isCapture = true → Unclaimed db job.createdBy job.request.url) :
    OneCapture (db.insertJob job) := by
  have alone : ∀ owner url id other, db.jobs.get id = some other → other.captures owner url = true →
      job.captures owner url = true → False := by
    intro owner url id other found captures new
    obtain ⟨rfl, _, rfl, capture⟩ := Job.captures_iff.mp new
    rw [unclaimed_iff.mp (unclaimed capture) id other found] at captures
    cases captures
  intro owner url x y first second there here captures captures'
  rcases Table.get_insert_cases _ _ _ _ there with old | ⟨rfl, rfl⟩
  · rcases Table.get_insert_cases _ _ _ _ here with old' | ⟨rfl, rfl⟩
    · exact one owner url x y first second old old' captures captures'
    · exact (alone owner url x first old captures captures').elim
  · rcases Table.get_insert_cases _ _ _ _ here with old' | ⟨rfl, rfl⟩
    · exact (alone owner url y second old' captures' captures).elim
    · rfl

/-- Rows that come from rows, where at most one of them becomes active and then unclaimed. -/
theorem OneCapture.rows (one : OneCapture db) (fresh : Nat → Prop)
    (single : ∀ x y, fresh x → fresh y → x = y)
    (rows : ∀ id job', db'.jobs.get id = some job' → ∃ job, db.jobs.get id = some job ∧
      ∀ owner url, job'.captures owner url = true →
        job.captures owner url = true ∨ (fresh id ∧ Unclaimed db owner url)) : OneCapture db' := by
  intro owner url x y first second there here captures captures'
  obtain ⟨old, was, before⟩ := rows x first there
  obtain ⟨old', was', before'⟩ := rows y second here
  rcases before owner url captures with same | ⟨new, unclaimed⟩
  · rcases before' owner url captures' with same' | ⟨_, unclaimed⟩
    · exact one owner url x y old old' was was' same same'
    · rw [unclaimed_iff.mp unclaimed x old was] at same
      cases same
  · rcases before' owner url captures' with same' | ⟨new', _⟩
    · rw [unclaimed_iff.mp unclaimed y old' was'] at same'
      cases same'
    · exact single x y new new'

/-- A change of one row that makes no capture active. -/
theorem OneCapture.modify (one : OneCapture db) (id : Nat) (f : Job → Job)
    (quiet : ∀ job owner url, db.jobs.get id = some job → (f job).captures owner url = true →
      job.captures owner url = true) : OneCapture (db.modifyJob id f) := by
  apply one.rows (fun _ => False) (fun _ _ impossible => impossible.elim)
  intro x job' found
  obtain ⟨job, was, rfl⟩ := Table.get_modify_cases _ _ _ _ _ found
  refine ⟨job, was, fun owner url captures => Or.inl ?_⟩
  split at captures
  · rename_i same
    subst same
    exact quiet job owner url was captures
  · exact captures

theorem OneCapture.filter (one : OneCapture db) (keep : Nat → Job → Bool) :
    OneCapture { db with jobs := db.jobs.filterRows keep } := by
  intro owner url x y first second there here
  exact one owner url x y first second ((Table.get_filterRows _ _ _ _).mp there).1
    ((Table.get_filterRows _ _ _ _).mp here).1

theorem Job.inactive_captures {job : Job} (inactive : job.status.active = false) :
    job.captures owner url = false := by
  simp only [Job.captures, inactive, Bool.and_false, Bool.false_and]

end Rows

section Operations

variable {db : Db}

theorem createUniqueCapture_one (one : OneCapture db) (now : Nat) (owner : String) (request : CreateJobRequest) :
    OneCapture (createUniqueCapture db now owner request).1 := by
  unfold createUniqueCapture
  split
  · rename_i unclaimed
    exact one.insert fun _ => unclaimed
  · exact one

theorem queueBatch_one (one : OneCapture db) (now : Nat) (owner : String) (requests : List CreateJobRequest)
    (distinct : (requests.map CreateJobRequest.url).Nodup)
    (unclaimed : ∀ request ∈ requests, Unclaimed db owner request.url) :
    OneCapture (queueBatch db now owner requests) := by
  induction requests generalizing db with
  | nil => exact one
  | cons request rest ih =>
    simp only [List.map_cons, List.nodup_cons] at distinct
    have queued : OneCapture (db.insertJob (Job.new now owner request .capture)) :=
      one.insert fun _ => unclaimed request List.mem_cons_self
    refine ih queued distinct.2 ?_
    intro later member
    rw [unclaimed_iff]
    intro id job found
    rcases Table.get_insert_cases _ _ _ _ found with old | ⟨_, rfl⟩
    · exact unclaimed_iff.mp (unclaimed later (List.mem_cons_of_mem _ member)) id job old
    · cases captures : (Job.new now owner request .capture).captures owner later.url with
      | false => rfl
      | true =>
        have same : request.url = later.url := (Job.captures_iff.mp captures).2.2.1
        exact absurd (List.mem_map.mpr ⟨later, member, same.symm⟩) distinct.1

theorem dispatchOne_one (now : Nat) (dispatched : Db × Nat) (due : Nat × Schedule)
    (one : OneCapture dispatched.1) : OneCapture (dispatchOne now dispatched due).1 := by
  obtain ⟨db, count⟩ := dispatched
  obtain ⟨id, schedule⟩ := due
  simp only [dispatchOne]
  split
  · exact one
  · split
    · exact one
    · rename_i recipe _
      split
      · exact one
      · rename_i none
        apply OneCapture.insert one
        intro _
        show (db.activeCaptures schedule.owner recipe.request.url).isEmpty = true
        rw [List.isEmpty_iff]
        exact List.head?_eq_none_iff.mp none

theorem dispatchDueSchedules_one (one : OneCapture db) (now : Nat) :
    OneCapture (dispatchDueSchedules db now).1 := by
  unfold dispatchDueSchedules
  generalize ((db.schedules.select _).take 10) = due
  have all : ∀ dispatched : Db × Nat, OneCapture dispatched.1 →
      OneCapture (due.foldl (dispatchOne now) dispatched).1 := by
    induction due with
    | nil => exact fun _ one => one
    | cons first rest ih => exact fun dispatched one => ih _ (dispatchOne_one now dispatched first one)
  exact all (db, 0) one

theorem requestControl_one (one : OneCapture db) (id : Nat) (owner : String) (control : Control) :
    OneCapture ((requestControl db id owner control).getD db) := by
  have controlled : OneCapture (db.modifyJob id fun job => job.controlled control) := by
    apply one.modify
    intro job owner url _ captures
    obtain ⟨same, active, url, capture⟩ := Job.captures_iff.mp captures
    refine Job.captures_iff.mpr ⟨same, ?_, url, capture⟩
    simp only [Job.controlled] at active
    split at active
    · cases active
    · exact active
  unfold requestControl
  cases db.jobs.get id with
  | none => exact one
  | some job =>
    simp only []
    split
    · exact one
    · split
      · split
        · exact controlled
        · exact one
      · split
        · exact controlled
        · exact one
      · split
        · exact controlled
        · exact one
      · exact one

theorem resume_one (one : OneCapture db) (id : Nat) (owner : String) (ext : ResumeOptions)
    (unclaimed : ∀ job, db.jobs.get id = some job → (job.status = .partly ∨ job.status = .paused) →
      job.runtime.operation.isCapture = true → Unclaimed db job.createdBy job.request.url) :
    OneCapture ((Browsertrix.resume db id owner ext).getD db) := by
  unfold Browsertrix.resume
  cases found : db.jobs.get id with
  | none => exact one
  | some job =>
    by_cases other : job.createdBy ≠ owner
    · simp only [if_pos other]
      exact one
    simp only [if_neg other]
    cases extended : job.extended ext with
    | none => exact one
    | some request =>
      obtain ⟨_, accepted, same⟩ := Job.extended_accepted extended
      apply one.rows (fun x => x = id) (fun _ _ first second => first.trans second.symm)
      intro x job' there
      obtain ⟨old, was, rfl⟩ := Table.get_modify_cases _ _ _ _ _ there
      refine ⟨old, was, fun owner url captures => ?_⟩
      split at captures
      · rename_i here
        subst here
        cases found.symm.trans was
        obtain ⟨rfl, _, rfl, capture⟩ := Job.captures_iff.mp captures
        refine Or.inr ⟨rfl, ?_⟩
        have free := unclaimed job found accepted capture
        rw [← same] at free
        exact free
      · exact Or.inl captures

theorem requestCancel_one (one : OneCapture db) (id : Nat) : OneCapture (requestCancel db id).1 := by
  have ended : ∀ next : JobStatus, next.active = false →
      OneCapture (db.modifyJob id fun job => job.discarded next) := by
    intro next inactive
    apply one.modify
    intro job owner url _ captures
    rw [show (job.discarded next).captures owner url = false from Job.inactive_captures inactive] at captures
    cases captures
  unfold requestCancel
  cases db.jobs.get id with
  | none => exact one
  | some job =>
    simp only []
    cases job.status with
    | queued | paused | partly => exact ended .cancelled rfl
    | starting | running => exact ended .cancelling rfl
    | _ => exact one

theorem deleteJob_one (one : OneCapture db) (id : Nat) (owner : String) : OneCapture (deleteJob db id owner).1 := by
  unfold deleteJob
  split
  · exact one
  · split
    · exact one.filter _
    · exact one

end Operations

section Worker

variable {gone admits : Prop} {records : Option JobStatus} {job job' : Job} {owner url : String}

/-- The worker makes a job active only by admitting an intent of it. -/
theorem Worked.captures (worked : Worked gone admits records job job') (captures : job'.captures owner url = true) :
    job.captures owner url = true ∨ (admits ∧ job.status.active = false) := by
  obtain ⟨same, active, address, capture⟩ := Job.captures_iff.mp captures
  obtain ⟨owned, requested, kind⟩ := worked.identity
  rw [owned] at same
  rw [requested] at address
  rw [kind] at capture
  have stays : job.status.active = true → job.captures owner url = true := fun before =>
    Job.captures_iff.mpr ⟨same, before, address, capture⟩
  cases worked with
  | same => exact Or.inl captures
  | claimed queued => exact Or.inl (stays (by rw [queued]; rfl))
  | begun rt starting _ _ _ _ => exact Or.inl (stays (by rw [starting]; rfl))
  | preserved rt _ _ => exact Or.inl (stays active)
  | frozen rt running _ _ _ => exact Or.inl (stays (by rw [running]; rfl))
  | operating starting _ => exact Or.inl (stays (by rw [starting]; rfl))
  | dropped _ => cases active
  | refused _ => cases active
  | admitted here _ =>
    cases before : job.status.active with
    | true => exact Or.inl (stays before)
    | false => exact Or.inr ⟨here, rfl⟩
  | finalized a intent _ packaging _ => exact Or.inl (stays (by rw [show job.status = .packaging from packaging]; rfl))
  | stored rt _ _ _ => exact Or.inl (stays active)
  | status status _ other _ => rcases other with rfl | rfl | rfl <;> cases active
  | interrupted _ alive _ =>
    rcases alive with before | before | before <;> exact Or.inl (stays (by rw [before]; rfl))
  | restored saved _ _ => exact Or.inl (stays active)
  | cleaned _ _ => exact Or.inl (stays active)

end Worker

section Runs

variable (sha256 : Content → String)

theorem work_one {s : System} (ok : SystemOk s) (one : OneCapture s.db) (now : Nat) (input : Input)
    (apart : Apart s (.work now input)) : OneCapture (work sha256 s now input).db := by
  by_cases dispatching : s.pc = .dispatch
  · simp only [work, dispatching]
    exact dispatchDueSchedules_one one now
  have works := (work_stepped sha256 ok now input).works
  refine one.rows s.pc.admits ?_ ?_
  · intro x y first second
    obtain ⟨a, intent, k, place, here⟩ := Pc.admits_iff.mp first
    obtain ⟨_, _, _, place', there⟩ := Pc.admits_iff.mp second
    cases place.symm.trans place'
    exact Option.some.inj (here.symm.trans there)
  · intro id job' found
    rcases works.rows id job' found with ⟨job, was, worked⟩ | ⟨there, _⟩
    · refine ⟨job, was, fun owner url captures => ?_⟩
      rcases worked.captures captures with same | ⟨here, inactive⟩
      · exact Or.inl same
      · refine Or.inr ⟨here, ?_⟩
        obtain ⟨same, _, address, capture⟩ := Job.captures_iff.mp captures
        obtain ⟨owned, requested, kind⟩ := worked.identity
        rw [owned] at same
        rw [requested] at address
        rw [kind] at capture
        obtain ⟨a, intent, k, place, of⟩ := Pc.admits_iff.mp here
        simp only [Apart, place, of, Option.bind_some, was] at apart
        have free := apart ⟨inactive, capture⟩
        rw [same, address] at free
        exact free
    · exact absurd there dispatching

theorem step_one (s : System) (event : Event) (apart : Apart s event) (before : SystemOk s ∧ OneCapture s.db) :
    SystemOk (s.step sha256 event) ∧ OneCapture (s.step sha256 event).db := by
  obtain ⟨ok, one⟩ := before
  refine ⟨step_ok sha256 ok event, ?_⟩
  cases event with
  | create now owner request => exact createUniqueCapture_one one now owner request
  | batch now owner requests => exact queueBatch_one one now owner requests apart.1 apart.2
  | operation now owner request operation => exact one.insert apart
  | control id owner stop => exact requestControl_one one id owner _
  | resume id owner ext =>
    refine resume_one one id owner ext fun job found accepted capture => ?_
    simp only [Apart, found] at apart
    exact apart ⟨accepted, capture⟩
  | cancel id => exact requestCancel_one one id
  | delete id owner => exact deleteJob_one one id owner
  | clear owner => exact one.filter _
  | work now input => exact work_one sha256 ok one now input apart
  | edit id document =>
    simp only [System.step]
    split <;> exact one
  | start =>
    simp only [System.step]
    split <;> exact one
  | fail torn =>
    simp only [System.step, System.spilled_db]
    exact one
  | crash torn =>
    simp only [System.step, System.spilled_db]
    exact one
  | outside at_root archive name content =>
    simp only [System.step]
    split <;> exact one
  | _ => exact one

/-- In a run where every operation that checks nothing makes a capture active only when no other
one of its owner and address is, there never are two. -/
theorem one_active_capture (events : List Event) (apart : Runs.Along (System.step sha256) Apart {} events) :
    OneCapture (Runs.run (System.step sha256) {} events).db := by
  have both := Runs.run_invariant_along (System.step sha256) Apart (fun s => SystemOk s ∧ OneCapture s.db)
    (fun s event apart before => step_one sha256 s event apart before) {} events apart
  refine (both ⟨start_ok, ?_⟩).2
  intro owner url x y first second found
  cases found

/-- A capture is paused before it starts, and resumed. -/
theorem one_capture_of_a_resumed_job :
    OneCapture (Runs.run (System.step fun _ => "") {}
      [.create 0 "ann" { url := "https://a.example/" }, .control 1 "ann" false,
        .batch 1 "ann" [{ url := "https://b.example/" }], .resume 1 "ann" {}, .start, .work 2 .step]).db :=
  one_active_capture (fun _ => "") _ (by decide)

/-- A recipe is run twice. -/
theorem two_active_captures :
    ¬OneCapture (Runs.run (System.step fun _ => "") {}
      [.operation 0 "ann" { url := "https://a.example/" } .capture,
        .operation 1 "ann" { url := "https://a.example/" } .capture]).db := by
  intro one
  have same := one "ann" "https://a.example/" 1 2
    (Job.new 0 "ann" { url := "https://a.example/" } .capture) (Job.new 1 "ann" { url := "https://a.example/" } .capture)
    (by decide) (by decide) (by decide) (by decide)
  cases same

end Runs

end NixHomeServer.Browsertrix
