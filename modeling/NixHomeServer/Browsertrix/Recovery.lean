import NixHomeServer.Browsertrix.Custodian

/-! An uninterrupted recovery: the steps of a placement lead to the destination from whatever a
cut has left, and the intents that recovery takes up are finalized one after the other. -/
namespace NixHomeServer.Browsertrix

open NixHomeServer.Library

section Placement

variable (sha256 : Content → String) (a : Nat) (archive : Archive) (source : String) (number : Nat)

/-- From these files and this step on, an uninterrupted placement ends with those files. -/
inductive Leads : Store → Placing → Store → Prop
  | done {store store' : Store} {step : Placing}
      (result : place sha256 store a archive source number none step = (store', .done)) : Leads store step store'
  | next {store store₁ store' : Store} {step step₁ : Placing}
      (result : place sha256 store a archive source number none step = (store₁, .next step₁))
      (rest : Leads store₁ step₁ store') : Leads store step store'

/-- A payload is in place, or its destination is free and a complete copy or the source is there. -/
def Present (store : Store) : Prop :=
  match store.files (root archive) (.payload a archive.archiveFile) with
  | some content => sha256 content = archive.sha256
  | none =>
    (∃ content, store.files (root archive) (.staging a) = some content ∧ sha256 content = archive.sha256) ∨
      ∃ content, store.sources source = some content ∧ sha256 content = archive.sha256

variable {sha256 a archive source number} {store store' : Store} {content : Content}

theorem Leads.after {step : Placing} (store₁ : Store) (step₁ : Placing)
    (result : place sha256 store a archive source number none step = (store₁, .next step₁))
    (rest : ∃ store', Leads sha256 a archive source number store₁ step₁ store') :
    ∃ store', Leads sha256 a archive source number store step store' := by
  obtain ⟨store', leads⟩ := rest
  exact ⟨store', .next result leads⟩

theorem leads_permissions (staged : store.files (root archive) (.staging a) = some content)
    (free : store.files (root archive) (.payload a archive.archiveFile) = none) :
    ∃ store', Leads sha256 a archive source number store .permissions store' := by
  apply Leads.after store .rename rfl
  cases moved : store.renameExclusive (root archive) (.staging a) (.payload a archive.archiveFile) with
  | none => simp [Store.renameExclusive, staged, free] at moved
  | some store₁ => exact ⟨store₁, .done (by simp only [place, moved])⟩

theorem leads_again_staged (staged : store.files (root archive) (.staging a) = some content)
    (free : store.files (root archive) (.payload a archive.archiveFile) = none) :
    ∃ store', Leads sha256 a archive source number store .again store' :=
  Leads.after store .permissions (by simp only [place, staged]) (leads_permissions staged free)

theorem leads_again_source (unstaged : store.files (root archive) (.staging a) = none)
    (free : store.files (root archive) (.payload a archive.archiveFile) = none)
    (found : store.sources source = some content) (digest : sha256 content = archive.sha256) :
    ∃ store', Leads sha256 a archive source number store .again store' := by
  apply Leads.after store .source (by simp only [place, unstaged])
  apply Leads.after store .create (by simp only [place, found])
  apply Leads.after (store.put (root archive) (.staging a) (some [])) .copy (by simp only [place, unstaged])
  have copied : (store.put (root archive) (.staging a) (some [])).sources source = some content := found
  apply Leads.after ((store.put (root archive) (.staging a) (some [])).put (root archive) (.staging a) (some content))
    .check (by simp only [place, copied, Option.getD_none])
  apply Leads.after _ .permissions (by simp only [place, Store.put_self, digest, if_true]; rfl)
  apply leads_permissions (Store.put_self _)
  rw [Store.put_of_ne _ (by rintro ⟨_, same⟩; cases same), Store.put_of_ne _ (by rintro ⟨_, same⟩; cases same)]
  exact free

theorem leads_destination (valid : validDestination archive.archiveFile = true)
    (present : Present sha256 a archive source store)
    (unretained : ∀ r, store.files r (.retained a number) = none) :
    ∃ store', Leads sha256 a archive source number store .destination store' := by
  unfold Present at present
  cases found : store.files (root archive) (.payload a archive.archiveFile) with
  | some content =>
    simp only [found] at present
    exact Leads.after store .conflict (by simp only [place, valid, found, if_true])
      ⟨store, .done (by simp only [place, found, present, if_true])⟩
  | none =>
    simp only [found] at present
    apply Leads.after store .staging (by simp only [place, valid, found, if_true])
    cases staged : store.files (root archive) (.staging a) with
    | none =>
      apply Leads.after store .again (by simp only [place, staged])
      rcases present with ⟨content, copy, _⟩ | ⟨content, there, digest⟩
      · cases staged.symm.trans copy
      · exact leads_again_source staged found there digest
    | some copy =>
      apply Leads.after store .incomplete (by simp only [place, staged])
      by_cases complete : sha256 copy = archive.sha256
      · exact Leads.after store .again (by simp only [place, staged, complete, if_true])
          (leads_again_staged staged found)
      · apply Leads.after store .retain (by simp only [place, staged, complete, if_false])
        rcases present with ⟨content, same, digest⟩ | ⟨content, there, digest⟩
        · cases staged.symm.trans same
          exact absurd digest complete
        · cases moved : store.renameExclusive (root archive) (.staging a) (.retained a number) with
          | none => simp [Store.renameExclusive, staged, unretained] at moved
          | some store₁ =>
            apply Leads.after store₁ .again (by simp only [place, moved])
            obtain ⟨_, _, _, _, gone, sources, frame⟩ := Store.renameExclusive_some (by simp) moved
            refine leads_again_source gone ?_ (by rw [sources]; exact there) digest
            rw [frame _ _ (by rintro ⟨_, same | same⟩ <;> cases same)]
            exact found

theorem Leads.frame {step : Placing} (leads : Leads sha256 a archive source number store step store') :
    store'.sources = store.sources ∧
      ∀ r (name : FileName), name.archive ≠ a → store'.files r name = store.files r name := by
  have once : ∀ {store store₁ : Store} {step : Placing} {placed : Placed},
      place sha256 store a archive source number none step = (store₁, placed) →
        Moves store a archive store₁ := by
    intro store store₁ step placed result
    have moves : Moves store a archive (place sha256 store a archive source number none step).1 := place_moves step
    rw [result] at moves
    exact moves
  induction leads with
  | done result => exact ⟨(once result).sources, fun r name other => (once result).others other⟩
  | next result rest ih =>
    exact ⟨ih.1.trans (once result).sources, fun r name other => (ih.2 r name other).trans ((once result).others other)⟩

end Placement

section Reaches

variable (sha256 : Content → String) (now number : Nat)

/-- The worker gets there by its own steps alone. -/
def Reaches (s t : System) : Prop :=
  ∃ n, Runs.run (System.step sha256) s (List.replicate n (.work now (.random number))) = t

variable {sha256 now number} {s t u : System}

theorem Reaches.refl : Reaches sha256 now number s s := ⟨0, rfl⟩

theorem Reaches.head (rest : Reaches sha256 now number (work sha256 s now (.random number)) t) :
    Reaches sha256 now number s t := by
  obtain ⟨n, same⟩ := rest
  exact ⟨n + 1, same⟩

theorem Reaches.trans (first : Reaches sha256 now number s t) (second : Reaches sha256 now number t u) :
    Reaches sha256 now number s u := by
  obtain ⟨m, rfl⟩ := first
  obtain ⟨n, rfl⟩ := second
  exact ⟨m + n, by rw [List.replicate_add, Runs.run_append]⟩

theorem Reaches.durable (reaches : Reaches sha256 now number s t) (durable : Durable sha256 s) : Durable sha256 t := by
  obtain ⟨n, rfl⟩ := reaches
  exact Runs.run_invariant (System.step sha256) (Durable sha256)
    (fun _ event durable => durable.step sha256 event) s _ durable

theorem Leads.reaches {a : Nat} {intent : PublicationIntent} {k : Return} {store store' : Store} {step : Placing}
    (leads : Leads sha256 a intent.archive intent.source number store step store') :
    Reaches sha256 now number { s with store := store, pc := .place step a intent k }
      { s with store := store', pc := .finalize a intent k } := by
  induction leads with
  | done result =>
    apply Reaches.head
    simp only [work, Input.number, Input.content, result]
    exact .refl
  | next result rest ih =>
    apply Reaches.head
    simp only [work, Input.number, Input.content, result]
    exact ih

end Reaches

section Recover

variable {sha256 : Content → String} {now number : Nat} {s : System} {b : Nat} {rest : List Nat}
  {intent : PublicationIntent}

/-- An intent that is pending is taken up, or invalidated where its job was discarded. -/
theorem admit_result {db : Db} (found : db.intents.get b = some intent) (pending : intent.completed = .pending)
    (owners : ∀ id, intent.jobId = some id → Holds db id fun job => job.createdBy = intent.archive.createdBy) :
    (∃ db', admitPendingPublication db b intent = some (db', true) ∧ db'.intents = db.intents ∧
      db'.archives = db.archives) ∨
    ∃ db', admitPendingPublication db b intent = some (db', false) ∧
      db'.intents = db.intents.modify b (fun stored => { stored with completed := .invalidated }) ∧
      Refused db' intent := by
  unfold admitPendingPublication
  rw [if_pos (by simp [found, pending])]
  cases owner : intent.jobId with
  | none => exact Or.inl ⟨db, rfl, rfl, rfl⟩
  | some id =>
    simp only []
    cases row : db.jobs.get id with
    | none => exact Or.inl ⟨db, rfl, rfl, rfl⟩
    | some job =>
      have own : ¬job.createdBy ≠ intent.archive.createdBy := fun other => other ((owners id owner).2 job row)
      simp only [if_neg own]
      by_cases ended : job.status = .cancelling ∨ job.status = .cancelled ∨ job.runtime.control = some .discard
      · rw [if_pos ended]
        refine Or.inr ⟨_, rfl, rfl, id, ?_⟩
        simp only [Table.get_modify_self, row, Option.map_some]
        exact ⟨_, owner, rfl, rfl⟩
      · rw [if_neg ended]
        exact Or.inl ⟨_, rfl, rfl, rfl⟩

/-- What the recovery of one intent leaves of the others, and of their files. -/
structure Spared (s t : System) (ids : List Nat) : Prop where
  intents : ∀ c, c ∉ ids → t.db.intents.get c = s.db.intents.get c
  sources : t.store.sources = s.store.sources
  files : ∀ r (name : FileName), name.archive ∉ ids → t.store.files r name = s.store.files r name

/-- The intent was finalized, or its job was discarded and it is invalidated. -/
def Published (db : Db) (b : Nat) (intent : PublicationIntent) : Prop :=
  db.intents.get b = some { intent with completed := .finalized } ∨
    (db.intents.get b = some { intent with completed := .invalidated } ∧ Refused db intent)

theorem recover_one (now : Nat) (durable : Durable sha256 s) (place : s.pc = .pending (.boot (b :: rest)))
    (found : s.db.intents.get b = some intent) (pending : intent.completed = .pending)
    (valid : validDestination intent.archive.archiveFile = true)
    (present : Present sha256 b intent.archive intent.source s.store)
    (unretained : ∀ r, s.store.files r (.retained b number) = none) :
    ∃ t, Reaches sha256 now number s t ∧ t.pc = .pending (.boot rest) ∧ Spared s t [b] ∧
      Published t.db b intent := by
  have stored : pendingIntent s.db b = some intent := by simp [pendingIntent, found, pending]
  have first : work sha256 s now (.random number) = { s with pc := .admitting b intent (.boot rest) } := by
    simp only [work, place, stored]
  have others : ∀ (f : PublicationIntent → PublicationIntent) c, c ∉ [b] →
      (s.db.intents.modify b f).get c = s.db.intents.get c := by
    intro f c other
    exact Table.get_modify_of_ne _ _ _ _ (fun same => other (by simp [same]))
  rcases admit_result found pending (durable.catalogued.owners b intent found) with
    ⟨db, result, intents, archives⟩ | ⟨db, result, intents, refused⟩
  · obtain ⟨store', leads⟩ := leads_destination valid present unretained
    obtain ⟨sources, files⟩ := leads.frame
    have second : work sha256 { s with pc := .admitting b intent (.boot rest) } now (.random number) =
        { s with db := db, pc := .place .destination b intent (.boot rest) } := by
      simp only [work, result]
    have agrees : (intent.row (db.archives b)).owner = intent.archive.createdBy ∧
        (intent.row (db.archives b)).sha256 = intent.archive.sha256 := by
      rw [archives]
      cases there : s.db.archives b with
      | none => exact ⟨rfl, rfl⟩
      | some row => exact durable.catalogued.agrees b intent row found there
    obtain ⟨again, final, _⟩ := finalize_own db b intent agrees.1 agrees.2
    have last : work sha256 { s with db := db, store := store', pc := .finalize b intent (.boot rest) } now
        (.random number) = { s with db := again, store := store', pc := .pending (.boot rest) } := by
      simp only [work, final, Return.next]
    have placing : Reaches sha256 now number { s with db := db, pc := .place .destination b intent (.boot rest) }
        { s with db := db, store := store', pc := .finalize b intent (.boot rest) } :=
      Leads.reaches (s := { s with db := db }) leads
    have ended : again.intents = s.db.intents.modify b (fun stored => { stored with completed := .finalized }) := by
      rw [(finalize_some final).2.2.2.1, intents]
    refine ⟨{ s with db := again, store := store', pc := .pending (.boot rest) }, ?_, rfl, ⟨?_, sources, ?_⟩, Or.inl ?_⟩
    · apply Reaches.head
      rw [first]
      apply Reaches.head
      rw [second]
      refine placing.trans ?_
      apply Reaches.head
      rw [last]
      exact .refl
    · intro c other
      rw [ended]
      exact others _ c other
    · exact fun r name other => files r name (fun same => other (by simp [same]))
    · rw [ended, Table.get_modify_self, found]
      rfl
  · refine ⟨{ s with db := db, pc := .pending (.boot rest) }, ?_, rfl, ⟨?_, rfl, fun _ _ _ => rfl⟩, Or.inr ⟨?_, refused⟩⟩
    · apply Reaches.head
      rw [first]
      apply Reaches.head
      simp only [work, result, Return.next]
      exact .refl
    · intro c other
      rw [intents]
      exact others _ c other
    · rw [intents, Table.get_modify_self, found]
      rfl

/-- What recovery needs of a pending intent: a destination it may have, and what it is published from. -/
def Publishable (sha256 : Content → String) (s : System) (b : Nat) : Prop :=
  ∃ intent, s.db.intents.get b = some intent ∧ intent.completed = .pending ∧
    validDestination intent.archive.archiveFile = true ∧ Present sha256 b intent.archive intent.source s.store

theorem Spared.present {t : System} {ids : List Nat} {archive : Archive} {source : String} (spared : Spared s t ids) (other : b ∉ ids)
    (present : Present sha256 b archive source s.store) : Present sha256 b archive source t.store := by
  unfold Present at present ⊢
  rw [spared.files _ (.payload b archive.archiveFile) other, spared.files _ (.staging b) other, spared.sources]
  exact present

theorem Spared.publishable {t : System} {ids : List Nat} (spared : Spared s t ids) (other : b ∉ ids)
    (publishable : Publishable sha256 s b) : Publishable sha256 t b := by
  obtain ⟨intent, found, pending, valid, present⟩ := publishable
  exact ⟨intent, by rw [spared.intents b other]; exact found, pending, valid, spared.present other present⟩

/-- An uninterrupted recovery comes to the intent after those that it can publish. -/
theorem recover_early (now number : Nat) (early : List Nat) (durable : Durable sha256 s) (distinct : early.Nodup)
    (place : s.pc = .pending (.boot (early ++ rest))) (publishable : ∀ c ∈ early, Publishable sha256 s c)
    (unretained : ∀ r c, c ∈ early → s.store.files r (.retained c number) = none) :
    ∃ t, Reaches sha256 now number s t ∧ t.pc = .pending (.boot rest) ∧ Spared s t early := by
  induction early generalizing s with
  | nil => exact ⟨s, .refl, place, fun _ _ => rfl, rfl, fun _ _ _ => rfl⟩
  | cons c early ih =>
    obtain ⟨intent, found, pending, valid, present⟩ := publishable c List.mem_cons_self
    obtain ⟨absent, distinct⟩ := List.nodup_cons.mp distinct
    obtain ⟨t, reaches, at_rest, spared, _⟩ := recover_one now durable place found pending valid present
      (fun r => unretained r c List.mem_cons_self)
    have apart : ∀ d ∈ early, d ∉ [c] := fun d member same => by
      cases List.mem_singleton.mp same
      exact absent member
    obtain ⟨u, more, here, spared'⟩ := ih (reaches.durable durable) distinct at_rest
      (fun d member => spared.publishable (apart d member) (publishable d (List.mem_cons_of_mem _ member)))
      (fun r d member => by
        rw [spared.files r (.retained d number) (apart d member)]
        exact unretained r d (List.mem_cons_of_mem _ member))
    refine ⟨u, reaches.trans more, here, fun d other => ?_, spared'.sources.trans spared.sources, fun r name other => ?_⟩
    · simp only [List.mem_cons, not_or] at other
      rw [spared'.intents d other.2, spared.intents d (by simpa using other.1)]
    · simp only [List.mem_cons, not_or] at other
      rw [spared'.files r name other.2, spared.files r name (by simpa using other.1)]

/-- Where recovery takes up an intent after intents that it can publish, it finalizes it. -/
theorem recover_finalizes {a : Nat} {early late : List Nat} (durable : Durable sha256 s) (stopped : s.pc = .stopped)
    (listed : pendingIntentIds s.db = early ++ a :: late)
    (publishable : ∀ c ∈ early ++ [a], Publishable sha256 s c)
    (unretained : ∀ r c, s.store.files r (.retained c number) = none) :
    ∃ n intent, s.db.intents.get a = some intent ∧
      Published (Runs.run (System.step sha256) s (.start :: List.replicate n (.work now (.random number)))).db a intent := by
  have distinct : (early ++ a :: late).Nodup := by
    rw [← listed, pendingIntentIds, Table.select_ids]
    exact ((List.nodup_range).filter _).sublist (List.take_sublist _ _)
  have begun : s.step sha256 .start = { s with pc := .pending (.boot (early ++ a :: late)) } := by
    simp only [System.step, if_pos stopped, listed]
  have fresh : Durable sha256 { s with pc := .pending (.boot (early ++ a :: late)) } := by
    rw [← begun]
    exact durable.step sha256 .start
  have outside : a ∉ early := fun member =>
    (List.nodup_append.mp distinct).2.2 a member a List.mem_cons_self rfl
  obtain ⟨t, reaches, here, spared⟩ := recover_early now number early fresh
    (List.nodup_append.mp distinct).1 rfl
    (fun c member => publishable c (List.mem_append_left _ member)) (fun r c _ => unretained r c)
  have publishable' : Publishable sha256 t a :=
    spared.publishable outside (publishable a (List.mem_append_right _ List.mem_cons_self))
  obtain ⟨intent, found, pending, valid, present⟩ := publishable'
  obtain ⟨u, more, _, _, published⟩ := recover_one now (reaches.durable fresh) here found pending valid present
    (fun r => by rw [spared.files r (.retained a number) outside]; exact unretained r a)
  obtain ⟨n, same⟩ := reaches.trans more
  refine ⟨n, intent, ?_, ?_⟩
  · rw [← spared.intents a outside]
    exact found
  · show Published (Runs.run (System.step sha256) (s.step sha256 .start) _).db a intent
    rw [begun, same]
    exact published

end Recover

end NixHomeServer.Browsertrix
