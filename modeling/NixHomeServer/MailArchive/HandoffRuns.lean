import NixHomeServer.MailArchive.Handoff

/-! Runs in which the checks for a content cover each other: no content is published twice. -/
namespace NixHomeServer.MailArchive.Paperless

open NixHomeServer.Library

/-- The key whose lock file the call has made and not yet removed. -/
def Place.holds : Place → Option String
  | .item _ _ (.locking _) | .item _ _ (.unlinking _) => none
  | .item key _ _ => some key
  | _ => none

/-- The key whose content the call has looked up by its hash and may still publish. -/
def Place.publishing : Place → Option String
  | .item key _ stage =>
    match stage with
    | .payload | .checksum | .reserving | .staging _ | .linking _ | .across _ | .copying _ _
    | .relinking _ _ => some key
    | _ => none
  | _ => none

theorem Place.holds_of_publishing {p : Place} {key : String} (publishing : p.publishing = some key) :
    p.holds = some key := by
  cases p with
  | item key' b stage => cases stage <;> first | exact publishing | cases publishing
  | _ => cases publishing

section Runs

variable (attachment : String → Attachment) (md5 : String → String)

/-- The content is in the index of the consume directory or in the snapshot that the call has opened. -/
def Batch.Sees (b : Batch) (sha256 : String) : Prop :=
  (b.consumeFilename? sha256).isSome ∨ (loadPaperlessDocumentByChecksum b.documents (md5 sha256)).isSome

/-- The conditions on single steps. An index is read while no temporary copy is in the directory. A
lock is removed as stale when no call holds it. A content is looked up by its hash while no call
for another key is about to publish it, and if it was published before, a row, the index or the
snapshot shows it. A checksum fails only for a content not published before. -/
def Meets (s : System) : Event → Prop
  | .work n _ =>
    match s.place n with
    | .indexing _ _ => ∀ f ∈ s.consume, f.temporary = false
    | .item key _ (.unlinking _) => ∀ p ∈ s.calls, p.holds ≠ some key
    | .item key b .bySha =>
      (∀ p ∈ s.calls, ∀ other ∈ p.publishing, other ≠ key →
        (attachment other).sha256 ≠ (attachment key).sha256) ∧
      ((attachment key).sha256 ∈ s.published →
        (loadAttachmentPaperlessHandoffBySha s.handoffs (attachment key).sha256).isSome ∨
          b.Sees md5 (attachment key).sha256)
    | _ => True
  | .fail n =>
    match s.place n with
    | .item key _ .checksum => (attachment key).sha256 ∉ s.published
    | _ => True
  | _ => True

instance (b : Batch) (sha256 : String) : Decidable (b.Sees md5 sha256) :=
  inferInstanceAs (Decidable (_ ∨ _))

instance (s : System) (event : Event) : Decidable (Meets attachment md5 s event) := by
  unfold Meets
  split
  · split <;> infer_instance
  · split <;> infer_instance
  · infer_instance

theorem System.place_goto (s : System) {n : Nat} (here : s.place n ≠ .idle) (p : Place) :
    (s.goto n p).place = Function.update s.place n p := by
  have bound : n < s.calls.length := by
    by_contra out
    exact here (by rw [System.place, List.getElem?_eq_none (by omega), Option.getD_none])
  funext m
  by_cases same : m = n
  · subst same
    simp only [System.place, System.goto, Function.update_self, List.getElem?_set_self bound,
      Option.getD_some]
  · simp only [System.place, System.goto, Function.update_of_ne same, List.getElem?_set_ne (Ne.symm same)]

theorem System.place_crash (s : System) (n : Nat) : (s.goto n .idle).place = Function.update s.place n .idle := by
  by_cases here : s.place n = .idle
  · funext m
    by_cases same : m = n
    · subst same
      simp only [System.place, System.goto, Function.update_self, List.getElem?_set, if_true]
      split <;> rfl
    · simp only [System.place, System.goto, Function.update_of_ne same, List.getElem?_set_ne (Ne.symm same)]
  · exact s.place_goto here .idle

theorem System.place_call (s : System) (keys : List String) :
    (s.step attachment md5 (.call keys)).place = Function.update s.place s.calls.length (.opening keys) := by
  funext m
  rcases Nat.lt_trichotomy m s.calls.length with below | same | above
  · rw [Function.update_of_ne (by omega)]
    simp only [System.place, System.step, List.getElem?_append_left below]
  · subst same
    rw [Function.update_self]
    simp only [System.place, System.step, List.getElem?_concat_length, Option.getD_some]
  · rw [Function.update_of_ne (by omega)]
    have longer : (s.calls ++ [Place.opening keys]).length ≤ m := by
      rw [List.length_append, List.length_singleton]
      omega
    simp only [System.place, System.step, List.getElem?_eq_none longer, List.getElem?_eq_none (Nat.le_of_lt above)]

theorem System.place_mem (s : System) {m : Nat} (here : s.place m ≠ .idle) : s.place m ∈ s.calls := by
  unfold System.place at here ⊢
  cases found : s.calls[m]? with
  | none =>
    rw [found] at here
    exact absurd rfl here
  | some p => exact List.mem_of_getElem? found

/-- What a call that may still publish knows: a content published before is in the places it has
yet to check, and past the checks its content has not been published. -/
def Unseen (published : List String) : Place → Prop
  | .item key b stage =>
    match stage with
    | .payload => (attachment key).sha256 ∈ published → b.Sees md5 (attachment key).sha256
    | .checksum => (attachment key).sha256 ∈ published →
      (loadPaperlessDocumentByChecksum b.documents (md5 (attachment key).sha256)).isSome
    | .reserving | .staging _ | .linking _ | .across _ | .copying _ _ | .relinking _ _ =>
      (attachment key).sha256 ∉ published
    | _ => True
  | _ => True

variable {attachment md5} {place : Nat → Place} {locks : String → Option Nat} {published : List String}

theorem Unseen.of_quiet {p : Place} (quiet : p.publishing = none) : Unseen attachment md5 published p := by
  cases p with
  | item key b stage =>
    cases stage with
    | payload | checksum | reserving | staging | linking | across | copying | relinking => cases quiet
    | _ => trivial
  | _ => trivial

/-- A publication of another content changes nothing for a call. -/
theorem Unseen.other {p : Place} {sha256 : String}
    (other : ∀ key, p.publishing = some key → (attachment key).sha256 ≠ sha256)
    (unseen : Unseen attachment md5 published p) : Unseen attachment md5 (sha256 :: published) p := by
  have before : ∀ key, p.publishing = some key →
      ((attachment key).sha256 ∈ sha256 :: published ↔ (attachment key).sha256 ∈ published) := by
    intro key publishing
    rw [List.mem_cons]
    exact or_iff_right (other key publishing)
  cases p with
  | item key b stage =>
    cases stage <;> first
      | trivial
      | exact fun member => unseen ((before key rfl).mp member)
  | _ => trivial

variable (attachment md5 place locks published) in
/-- A lock file has at most one holder, of the calls about to publish no two have one content, and
no content was published twice. -/
structure Sound : Prop where
  once : published.Nodup
  held : ∀ n key, (place n).holds = some key → locks key ≠ none
  alone : ∀ n m key, (place n).holds = some key → (place m).holds = some key → n = m
  apart : ∀ n m k k', (place n).publishing = some k → (place m).publishing = some k' →
    (attachment k).sha256 = (attachment k').sha256 → n = m
  unseen : ∀ n, Unseen attachment md5 published (place n)

/-- A place that holds and publishes no more than the last one. -/
theorem Sound.goto (sound : Sound attachment md5 place locks published) (n : Nat) (p : Place)
    (holds : ∀ key, p.holds = some key → (place n).holds = some key)
    (publishing : ∀ key, p.publishing = some key → (place n).publishing = some key)
    (unseen : Unseen attachment md5 published p) :
    Sound attachment md5 (Function.update place n p) locks published := by
  have holdsBefore : ∀ m key, (Function.update place n p m).holds = some key → (place m).holds = some key := by
    intro m key
    by_cases same : m = n
    · subst same
      rw [Function.update_self]
      exact holds key
    · rw [Function.update_of_ne same]
      exact id
  have publishingBefore : ∀ m key, (Function.update place n p m).publishing = some key →
      (place m).publishing = some key := by
    intro m key
    by_cases same : m = n
    · subst same
      rw [Function.update_self]
      exact publishing key
    · rw [Function.update_of_ne same]
      exact id
  constructor
  · exact sound.once
  · exact fun m key here => sound.held m key (holdsBefore m key here)
  · exact fun m m' key one two => sound.alone m m' key (holdsBefore m key one) (holdsBefore m' key two)
  · exact fun m m' k k' one two => sound.apart m m' k k' (publishingBefore m k one) (publishingBefore m' k' two)
  · intro m
    by_cases same : m = n
    · subst same
      rw [Function.update_self]
      exact unseen
    · rw [Function.update_of_ne same]
      exact sound.unseen m

theorem Sound.quiet (sound : Sound attachment md5 place locks published) (n : Nat) (p : Place)
    (holds : ∀ key, p.holds = some key → (place n).holds = some key) (quiet : p.publishing = none) :
    Sound attachment md5 (Function.update place n p) locks published :=
  sound.goto n p holds (fun _ publishing => nomatch quiet.symm.trans publishing) (.of_quiet quiet)

/-- A call makes the lock file of a key, which no call holds while there is none. -/
theorem Sound.lock (sound : Sound attachment md5 place locks published) (n : Nat) (p : Place) {key : String}
    (now : Nat) (free : locks key = none) (holds : p.holds = some key) (quiet : p.publishing = none) :
    Sound attachment md5 (Function.update place n p) (Function.update locks key (some now)) published := by
  have unheld : ∀ m, (place m).holds ≠ some key := fun m here => sound.held m key here free
  have before : ∀ m k, k ≠ key → (Function.update place n p m).holds = some k → (place m).holds = some k := by
    intro m k other here
    by_cases same : m = n
    · subst same
      rw [Function.update_self, holds] at here
      exact absurd (Option.some.inj here).symm other
    · rwa [Function.update_of_ne same] at here
  have mine : ∀ m, (Function.update place n p m).holds = some key → m = n := by
    intro m here
    by_contra same
    rw [Function.update_of_ne same] at here
    exact unheld m here
  have silent : ∀ m k, (Function.update place n p m).publishing = some k → m ≠ n ∧ (place m).publishing = some k := by
    intro m k here
    by_cases same : m = n
    · subst same
      rw [Function.update_self, quiet] at here
      cases here
    · rw [Function.update_of_ne same] at here
      exact ⟨same, here⟩
  constructor
  · exact sound.once
  · intro m k here
    by_cases same : k = key
    · subst same
      rw [Function.update_self]
      exact Option.some_ne_none _
    · rw [Function.update_of_ne same]
      exact sound.held m k (before m k same here)
  · intro m m' k one two
    by_cases same : k = key
    · subst same
      exact (mine m one).trans (mine m' two).symm
    · exact sound.alone m m' k (before m k same one) (before m' k same two)
  · exact fun m m' k k' one two => sound.apart m m' k k' (silent m k one).2 (silent m' k' two).2
  · intro m
    by_cases same : m = n
    · subst same
      rw [Function.update_self]
      exact .of_quiet quiet
    · rw [Function.update_of_ne same]
      exact sound.unseen m

theorem Sound.unlock (sound : Sound attachment md5 place locks published) {key : String}
    (unheld : ∀ m, (place m).holds ≠ some key) :
    Sound attachment md5 place (Function.update locks key none) published where
  once := sound.once
  held m k here := by
    have other : k ≠ key := fun same => unheld m (same ▸ here)
    rw [Function.update_of_ne other]
    exact sound.held m k here
  alone := sound.alone
  apart := sound.apart
  unseen := sound.unseen

/-- A call looks a content up by its hash that no other call is about to publish. -/
theorem Sound.look (sound : Sound attachment md5 place locks published) (n : Nat) {p : Place} {key : String}
    (holds : (place n).holds = some key) (still : p.holds = some key) (publishing : p.publishing = some key)
    (free : ∀ m k, m ≠ n → (place m).publishing = some k → (attachment k).sha256 ≠ (attachment key).sha256)
    (unseen : Unseen attachment md5 published p) :
    Sound attachment md5 (Function.update place n p) locks published := by
  have before : ∀ m k, (Function.update place n p m).holds = some k → (place m).holds = some k := by
    intro m k here
    by_cases same : m = n
    · subst same
      rw [Function.update_self, still] at here
      exact holds.trans here
    · rwa [Function.update_of_ne same] at here
  constructor
  · exact sound.once
  · exact fun m k here => sound.held m k (before m k here)
  · exact fun m m' k one two => sound.alone m m' k (before m k one) (before m' k two)
  · intro m m' k k' one two equal
    by_cases first : m = n <;> by_cases second : m' = n
    · exact first.trans second.symm
    · subst first
      rw [Function.update_self, publishing] at one
      rw [Function.update_of_ne second] at two
      cases one
      exact absurd equal.symm (free m' k' second two)
    · subst second
      rw [Function.update_self, publishing] at two
      rw [Function.update_of_ne first] at one
      cases two
      exact absurd equal (free m k first one)
    · rw [Function.update_of_ne first] at one
      rw [Function.update_of_ne second] at two
      exact sound.apart m m' k k' one two equal
  · intro m
    by_cases same : m = n
    · subst same
      rw [Function.update_self]
      exact unseen
    · rw [Function.update_of_ne same]
      exact sound.unseen m

/-- The publication of a content that was not published before. -/
theorem Sound.publish (sound : Sound attachment md5 place locks published) (n : Nat) {p : Place} {key : String}
    (publishing : (place n).publishing = some key) (fresh : (attachment key).sha256 ∉ published)
    (still : p.holds = some key) (quiet : p.publishing = none) :
    Sound attachment md5 (Function.update place n p) locks ((attachment key).sha256 :: published) := by
  have kept := sound.quiet n p
    (fun k here => by
      cases still.symm.trans here
      exact Place.holds_of_publishing publishing) quiet
  constructor
  · exact List.nodup_cons.mpr ⟨fresh, sound.once⟩
  · exact kept.held
  · exact kept.alone
  · exact kept.apart
  · intro m
    by_cases same : m = n
    · subst same
      rw [Function.update_self]
      exact .of_quiet quiet
    · rw [Function.update_of_ne same]
      refine Unseen.other (fun k here equal => same ?_) (sound.unseen m)
      exact sound.apart m n k key here publishing equal

variable (attachment md5) in
def System.Safe (s : System) : Prop := Sound attachment md5 s.place s.locks s.published

variable {s : System} {n : Nat} {key : String} {b : Batch} {stage : Stage}

theorem System.Safe.of_sound {p : Place} (here : s.place n ≠ .idle)
    (sound : Sound attachment md5 (Function.update s.place n p) s.locks s.published) :
    (s.goto n p).Safe attachment md5 := by
  unfold System.Safe
  rw [s.place_goto here]
  exact sound

theorem System.Safe.moves (safe : s.Safe attachment md5) (here : s.place n ≠ .idle) (p : Place)
    (holds : ∀ key, p.holds = some key → (s.place n).holds = some key) (quiet : p.publishing = none) :
    (s.goto n p).Safe attachment md5 :=
  .of_sound here (Sound.quiet safe n p holds quiet)

/-- The call gives the key up without a lock file of its own. -/
theorem System.Safe.leaves (safe : s.Safe attachment md5) (here : s.place n ≠ .idle) (p : Place)
    (free : p.holds = none) : (s.goto n p).Safe attachment md5 := by
  refine safe.moves here p (fun key holds => nomatch free.symm.trans holds) ?_
  cases publishing : p.publishing with
  | none => rfl
  | some key => cases free.symm.trans (Place.holds_of_publishing publishing)

/-- A later check of the same key. -/
theorem System.Safe.checks (safe : s.Safe attachment md5) (here : s.place n = .item key b stage) (p : Place)
    (holds : p.holds = some key) (before : (s.place n).publishing = some key)
    (unseen : Unseen attachment md5 s.published p) : (s.goto n p).Safe attachment md5 := by
  refine .of_sound (by rw [here]; exact Place.noConfusion)
    (Sound.goto safe n p (fun k same => ?_) (fun k same => ?_) unseen)
  · cases holds.symm.trans same
    exact Place.holds_of_publishing before
  · cases holds.symm.trans (Place.holds_of_publishing same)
    exact before

/-- The call stays with a key whose lock file it has made. -/
theorem System.Safe.keeps (safe : s.Safe attachment md5) (here : s.place n = .item key b stage)
    (holds : (s.place n).holds = some key) {c : Batch} {next : Stage}
    (quiet : (Place.item key c next).publishing = none) : (s.goto n (.item key c next)).Safe attachment md5 := by
  refine safe.moves (by rw [here]; exact Place.noConfusion) _ (fun k same => ?_) quiet
  cases next <;> first | exact holds.trans same | cases same

theorem System.Safe.workItem (safe : s.Safe attachment md5) (here : s.place n = .item key b stage)
    (input : Input) (met : Meets attachment md5 s (.work n input)) :
    (s.workItem attachment md5 n key b input stage).Safe attachment md5 := by
  have busy : s.place n ≠ .idle := by rw [here]; exact Place.noConfusion
  have unseen := safe.unseen n
  simp only [Meets, here] at met
  rw [here] at unseen
  cases stage with
  | locking tries =>
    cases tries with
    | zero => exact safe.leaves busy _ rfl
    | succ tries =>
      simp only [System.workItem]
      split
      · rename_i free
        exact System.Safe.of_sound busy (Sound.lock safe n _ s.now free rfl rfl)
      · split
        · exact safe.leaves busy _ rfl
        · exact safe.leaves busy _ rfl
  | unlinking tries =>
    have unheld : ∀ m, (s.place m).holds ≠ some key := by
      intro m holds
      have busy' : s.place m ≠ .idle := fun idle => by
        rw [idle] at holds
        cases holds
      exact met _ (s.place_mem busy') holds
    have unlocked : System.Safe attachment md5 { s with locks := Function.update s.locks key none } :=
      Sound.unlock safe unheld
    exact unlocked.leaves busy _ rfl
  | syncing => exact safe.keeps here (by rw [here]; rfl) rfl
  | byKey =>
    simp only [System.workItem]
    split <;> exact safe.keeps here (by rw [here]; rfl) rfl
  | loading => exact safe.keeps here (by rw [here]; rfl) rfl
  | bySha =>
    simp only [System.workItem]
    split
    · exact safe.keeps here (by rw [here]; rfl) rfl
    · rename_i unrecorded
      obtain ⟨others, shown⟩ := met
      refine .of_sound busy (Sound.look safe n (by rw [here]; rfl) rfl rfl ?_ ?_)
      · intro m k different publishing
        have busy' : s.place m ≠ .idle := fun idle => by
          rw [idle] at publishing
          cases publishing
        refine others _ (s.place_mem busy') k publishing fun same => different ?_
        subst same
        exact safe.alone m n k (Place.holds_of_publishing publishing) (by rw [here]; rfl)
      · intro published
        refine (shown published).resolve_left fun recorded => ?_
        rw [unrecorded] at recorded
        cases recorded
  | payload =>
    simp only [System.workItem]
    split
    · exact safe.keeps here (by rw [here]; rfl) rfl
    · rename_i unindexed
      refine safe.checks here _ rfl (by rw [here]; rfl) fun published => ?_
      refine (unseen published).resolve_left fun indexed => ?_
      rw [unindexed] at indexed
      cases indexed
  | checksum =>
    simp only [System.workItem]
    split
    · exact safe.keeps here (by rw [here]; rfl) rfl
    · rename_i absent
      refine safe.checks here _ rfl (by rw [here]; rfl) fun published => ?_
      have known := unseen published
      rw [absent] at known
      cases known
  | reserving => exact safe.checks here _ rfl (by rw [here]; rfl) unseen
  | staging target => exact safe.checks here _ rfl (by rw [here]; rfl) unseen
  | linking target =>
    simp only [System.workItem]
    split
    · exact safe.keeps here (by rw [here]; rfl) rfl
    · split
      · exact safe.checks here _ rfl (by rw [here]; rfl) unseen
      · exact System.Safe.of_sound busy (Sound.publish safe n (by rw [here]; rfl) unseen rfl rfl)
  | across target =>
    simp only [System.workItem]
    split
    · split
      · exact safe.keeps here (by rw [here]; rfl) rfl
      · exact System.Safe.checks safe here _ rfl (by rw [here]; rfl) unseen
    · exact safe
  | copying target tmp =>
    simp only [System.workItem]
    split
    · exact safe
    · exact System.Safe.checks safe here _ rfl (by rw [here]; rfl) unseen
  | relinking target tmp =>
    simp only [System.workItem]
    split
    · split
      · exact System.Safe.checks safe here _ rfl (by rw [here]; rfl) unseen
      · exact System.Safe.keeps safe here (by rw [here]; rfl) rfl
    · split
      · exact System.Safe.of_sound busy (Sound.publish safe n (by rw [here]; rfl) unseen rfl rfl)
      · exact safe.keeps here (by rw [here]; rfl) rfl
  | linked target tmp => exact System.Safe.keeps safe here (by rw [here]; rfl) rfl
  | recording row sent => exact System.Safe.keeps safe here (by rw [here]; rfl) rfl
  | releasing abort =>
    have left : Sound attachment md5 (Function.update s.place n (if abort then .returned none else .next b))
        s.locks s.published :=
      Sound.quiet safe n _ (fun k same => by cases abort <;> cases same) (by cases abort <;> rfl)
    refine System.Safe.of_sound busy (left.unlock fun m holds => ?_)
    by_cases same : m = n
    · subst same
      rw [Function.update_self] at holds
      cases abort <;> cases holds
    · rw [Function.update_of_ne same] at holds
      exact same (safe.alone m n key holds (by rw [here]; rfl))

theorem System.Safe.failItem (safe : s.Safe attachment md5) (here : s.place n = .item key b stage)
    (met : Meets attachment md5 s (.fail n)) : (s.failItem attachment n key b stage).Safe attachment md5 := by
  have busy : s.place n ≠ .idle := by rw [here]; exact Place.noConfusion
  simp only [Meets, here] at met
  cases stage with
  | locking | unlinking | syncing => exact safe.leaves busy _ rfl
  | byKey | bySha | loading | payload => exact safe.keeps here (by rw [here]; rfl) rfl
  | checksum => exact safe.checks here _ rfl (by rw [here]; rfl) met
  | reserving => exact safe
  | staging | linking | across | linked | recording => exact safe.keeps here (by rw [here]; rfl) rfl
  | copying | relinking => exact System.Safe.keeps safe here (by rw [here]; rfl) rfl
  | releasing abort => cases abort <;> exact safe.leaves busy _ rfl

theorem System.Safe.step (safe : s.Safe attachment md5) (event : Event) (met : Meets attachment md5 s event) :
    (s.step attachment md5 event).Safe attachment md5 := by
  cases event with
  | call keys =>
    unfold System.Safe
    rw [s.place_call]
    exact Sound.quiet safe _ _ (fun _ holds => nomatch holds) rfl
  | work n input =>
    simp only [System.step, System.work]
    cases here : s.place n with
    | idle | returned => exact safe
    | opening =>
      simp only []
      split <;> exact safe.leaves (by rw [here]; exact Place.noConfusion) _ rfl
    | indexing => exact safe.leaves (by rw [here]; exact Place.noConfusion) _ rfl
    | next b =>
      have busy : s.place n ≠ .idle := by rw [here]; exact Place.noConfusion
      simp only []
      split
      · exact safe.leaves busy _ rfl
      · split <;> exact safe.leaves busy _ rfl
    | item key b stage => exact safe.workItem here input met
  | fail n =>
    simp only [System.step, System.fail]
    cases here : s.place n with
    | idle | returned | next => exact safe
    | opening | indexing => exact safe.leaves (by rw [here]; exact Place.noConfusion) _ rfl
    | item key b stage => exact safe.failItem here met
  | crash n =>
    unfold System.Safe
    simp only [System.step]
    rw [s.place_crash]
    exact Sound.quiet safe n _ (fun _ holds => nomatch holds) rfl
  | arrive name sha256 =>
    simp only [System.step]
    split <;> exact safe
  | tick | snapshot | take | store => exact safe

end Runs

end NixHomeServer.MailArchive.Paperless
