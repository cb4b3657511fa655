import NixHomeServer.MediaManager.Replace

/-! What the helpers of the broker leave behind when other processes create files
between their calls, and what they return when nothing disturbs them. -/
namespace NixHomeServer.MediaManager

open NixHomeServer.Library

/-- Others only add files, and leave the broker its temporary file. -/
structure Interference (w w' : World) : Prop where
  keeps : ∀ p n, w.nodes p = some n → w'.nodes p = some n
  scratch : w'.scratch = w.scratch

theorem Interference.refl (w : World) : Interference w w := ⟨fun _ _ found => found, rfl⟩

theorem Interference.trans {u v w : World} (first : Interference u v) (second : Interference v w) :
    Interference u w :=
  ⟨fun p n found => second.keeps p n (first.keeps p n found), second.scratch.trans first.scratch⟩

/-- Calls may fail, and other processes create files between them. -/
def shared (permitted : World → Op → Prop) : Setting Op Reply World Choice where
  perform := perform
  possible _ := True
  rely := Interference
  permitted := permitted
  refl := Interference.refl
  trans := Interference.trans

/-- No call fails, and nobody else is there. -/
def alone : Setting Op Reply World Choice where
  perform := perform
  possible c := c.fault = none
  rely := Eq
  permitted _ _ := True
  refl _ := rfl
  trans first second := first.trans second

section Replies

/-- The calls that leave the files as they are. -/
def Op.looks : Op → Bool
  | .openRoot _ | .openDirectory _ | .stat _ | .openFile _ | .read _ | .syncFile _ | .syncDirectory _ => true
  | _ => false

theorem perform_looks (c : Choice) (w : World) (op : Op) (looks : op.looks = true) :
    (perform c w op).1 = w := by
  unfold perform
  cases c.fault with
  | some fault => cases op <;> first | rfl | cases looks
  | none =>
    cases op with
    | syncFile | syncDirectory => rfl
    | openRoot | openDirectory | stat | openFile | read =>
      simp only [answer]
      split <;> rfl
    | _ => cases looks

theorem perform_clean (c : Choice) (w : World) (op : Op) (clean : c.fault = none) :
    perform c w op = answer c.now w op := by
  unfold perform
  rw [clean]

theorem perform_refused (c : Choice) (w : World) (op : Op) (written : ∀ p b, op ≠ .append p b)
    (refused : c.fault ≠ none) : ∃ text, perform c w op = (w, .error (.other text)) := by
  cases fault : c.fault with
  | none => exact absurd fault refused
  | some failure =>
    refine ⟨failure.1, ?_⟩
    unfold perform
    rw [fault]
    cases op with
    | append p b => exact absurd rfl (written p b)
    | _ => rfl

/-- The reply to a call: a failure that changes nothing but a part of a write, or the answer. -/
theorem perform_eq (c : Choice) (w : World) (op : Op) (written : ∀ p b, op ≠ .append p b) :
    perform c w op = answer c.now w op ∨
      c.fault ≠ none ∧ ∃ text, perform c w op = (w, .error (.other text)) := by
  by_cases clean : c.fault = none
  · exact Or.inl (perform_clean c w op clean)
  · exact Or.inr ⟨clean, perform_refused c w op written clean⟩

theorem answer_rename (now : Int) (w : World) (place target : Place) :
    answer now w (.rename place target) = (w, .error .noEntry) ∧ w.nodes place = none ∨
      answer now w (.rename place target) = (w, .error .exists_) ∧ w.nodes target ≠ none ∨
      answer now w (.rename place target) = (w.rename place target, .ok ()) ∧
        w.nodes target = none ∧ ∃ n, w.nodes place = some n := by
  simp only [answer]
  cases w.nodes place with
  | none => exact Or.inl ⟨rfl, rfl⟩
  | some n =>
    cases w.nodes target with
    | none => exact Or.inr (Or.inr ⟨rfl, rfl, n, rfl⟩)
    | some m => exact Or.inr (Or.inl ⟨rfl, by simp only [ne_eq, reduceCtorEq, not_false_eq_true]⟩)

theorem answer_unlink (now : Int) (w : World) (place : Place) :
    (∃ e, answer now w (.unlink place) = (w, .error e)) ∨
      answer now w (.unlink place) = (w.unlink place, .ok ()) := by
  simp only [answer]
  split
  · exact Or.inl ⟨_, rfl⟩
  · exact Or.inl ⟨_, rfl⟩
  · exact Or.inr rfl

theorem answer_create (now : Int) (w : World) (place : Place) :
    answer now w (.createExclusive place) = (w, .error .exists_) ∧ w.nodes place ≠ none ∨
      answer now w (.createExclusive place) =
        ({ w.set place (some (.file ⟨[], now⟩)) with scratch := some place }, .ok ()) ∧
        w.nodes place = none := by
  simp only [answer]
  cases w.nodes place with
  | none => exact Or.inr ⟨rfl, rfl⟩
  | some n => exact Or.inl ⟨rfl, by simp only [ne_eq, reduceCtorEq, not_false_eq_true]⟩

theorem openDirectory_ok {c : Choice} {w : World} {dir : Place} {u : Unit}
    (opened : (perform c w (.openDirectory dir)).2 = .ok u) : w.nodes dir = some .directory := by
  rcases perform_eq c w (.openDirectory dir) (by simp) with same | ⟨_, text, same⟩
  · rw [same] at opened
    simp only [answer] at opened
    split at opened
    · assumption
    · cases opened
    · cases opened
  · rw [same] at opened
    cases opened

theorem set_free_grows (w : World) (place : Place) (node : Node) (free : w.nodes place = none) :
    Interference w (w.set place (some node)) := by
  refine ⟨?_, rfl⟩
  intro p n found
  simp only [World.set]
  split
  · rename_i same
    rw [same, free] at found
    cases found
  · exact found

theorem create_grows (made : Place × Node) (w : World) : Interference w (World.create made w) := by
  unfold World.create
  split
  · rename_i free
    exact set_free_grows w made.1 made.2 free
  · exact Interference.refl w

theorem makeDirectory_grows (c : Choice) (w : World) (dir : Place) :
    Interference w (perform c w (.makeDirectory dir)).1 := by
  rcases perform_eq c w (.makeDirectory dir) (by simp) with same | ⟨_, _, same⟩
  · rw [same]
    simp only [answer]
    split
    · rename_i free
      exact set_free_grows w dir .directory free
    · exact Interference.refl w
  · rw [same]
    exact Interference.refl w

end Replies

section Shared

variable {permitted : World → Op → Prop} (looks : ∀ w op, op.looks = true → permitted w op)
  {α : Type} {post : α → World → Prop}

theorem shared_pure (a : α) (w : World) (met : ∀ w', Interference w w' → post a w') :
    Prog.Safe (shared permitted) (Prog.onOk post) (pure a : Broker α).run w := by
  intro w' moved b same
  cases same
  exact met w' moved

theorem shared_fail (message : String) (w : World) :
    Prog.Safe (shared permitted) (Prog.onOk post) (fail message : Broker α).run w := by
  intro w' moved b impossible
  cases impossible

theorem shared_throw (e : BrokerError) (w : World) :
    Prog.Safe (shared permitted) (Prog.onOk post) (throw e : Broker α).run w := by
  intro w' moved b impossible
  cases impossible

theorem shared_call {op : Op} {f : Reply op → Broker α} {w : World} {post : Except BrokerError α → World → Prop}
    (allowed : ∀ w', Interference w w' → permitted w' op)
    (next : ∀ w' c, Interference w w' →
      Prog.Safe (shared permitted) post (f (perform c w' op).2).run (perform c w' op).1) :
    Prog.Safe (shared permitted) post (call op >>= f).run w :=
  fun w' moved => ⟨allowed w' moved, fun c _ => next w' c moved⟩

include looks in
/-- A call that only looks: whatever the reply, the files have only grown. -/
theorem shared_look {op : Op} {f : Reply op → Broker α} {w : World}
    {post : Except BrokerError α → World → Prop} (look : op.looks = true)
    (next : ∀ w' c, Interference w w' →
      Prog.Safe (shared permitted) post (f (perform c w' op).2).run w') :
    Prog.Safe (shared permitted) post (call op >>= f).run w := by
  apply shared_call
  · exact fun w' _ => looks w' op look
  · intro w' c moved
    rw [perform_looks c w' op look]
    exact next w' c moved

theorem shared_bind {β : Type} {x : Broker α} {f : α → Broker β} {w : World}
    {mid : α → World → Prop} {post : β → World → Prop}
    (first : Prog.Safe (shared permitted) (Prog.onOk mid) x.run w)
    (next : ∀ a w', mid a w' → Prog.Safe (shared permitted) (Prog.onOk post) (f a).run w') :
    Prog.Safe (shared permitted) (Prog.onOk post) (x >>= f).run w :=
  Prog.Safe.andThen first next

theorem shared_ofOk {x : Except BrokerError α} {β : Type} {f : α → Broker β} {w : World}
    {post : β → World → Prop}
    (next : ∀ a, x = .ok a → Prog.Safe (shared permitted) (Prog.onOk post) (f a).run w) :
    Prog.Safe (shared permitted) (Prog.onOk post) (ofOk x >>= f).run w := by
  cases x with
  | ok a => exact next a rfl
  | error e => exact shared_throw e w

theorem shared_attempt {x : Broker α} {w : World} {post : Except BrokerError α → World → Prop}
    (part : Prog.Safe (shared permitted) post x.run w) :
    Prog.Safe (shared permitted) (Prog.onOk post) (attempt x).run w := by
  apply Prog.Safe.map _ part
  intro r w' met b same
  cases same
  exact met

include looks

theorem openRoot_shared (root : Root) (w : World) :
    Prog.Safe (shared permitted) (Prog.onOk fun dir w' => dir = ⟨root, []⟩ ∧ Interference w w')
      (openRoot root).run w := by
  apply shared_look looks rfl
  intro w' c moved
  cases (perform c w' (.openRoot root)).2 with
  | ok _ => exact shared_pure _ w' fun u further => ⟨rfl, moved.trans further⟩
  | error e => exact shared_fail _ w'

/-- The directory a chain of components leads to, seen as one where there is a component. -/
def Leads (current : Place) (components : List String) (w : World) (dir : Place) (w' : World) : Prop :=
  dir = ⟨current.root, current.path ++ components⟩ ∧ Interference w w' ∧
    (components ≠ [] → w'.nodes dir = some .directory)

/-- How the chain goes on from a directory that was just made. -/
def openMade (create : Bool) (component : String) (rest : List String) (current : Place) : Broker Place := do
  match ← call (.openDirectory (current.child component)) with
  | .ok _ => openDirectoryChain create rest (current.child component)
  | .error e => fail ("open created destination directory: " ++ e.text)

theorem openDirectoryChain_shared (create : Bool) (components : List String) (current : Place) (w : World)
    (makes : create = true → ∀ dir w', dir <+: components → dir ≠ [] →
      permitted w' (.makeDirectory ⟨current.root, current.path ++ dir⟩)) :
    Prog.Safe (shared permitted) (Prog.onOk fun dir w' => Leads current components w dir w')
      (openDirectoryChain create components current).run w := by
  induction components generalizing current w with
  | nil =>
    apply shared_pure
    intro u further
    refine ⟨?_, further, fun impossible => absurd rfl impossible⟩
    rw [List.append_nil]
  | cons component rest ih =>
    have onward : ∀ w', Interference w w' → w'.nodes (current.child component) = some .directory →
        Prog.Safe (shared permitted) (Prog.onOk fun dir w' => Leads current (component :: rest) w dir w')
          (openDirectoryChain create rest (current.child component)).run w' := by
      intro w' moved there
      apply (ih (current.child component) w' ?_).mono
      · intro r u met dir ok
        obtain ⟨same, further, seen⟩ := met dir ok
        refine ⟨?_, moved.trans further, ?_⟩
        · rw [same, Place.child, List.append_assoc]
          rfl
        · intro _
          cases rest with
          | nil =>
            rw [same, List.append_nil]
            exact further.keeps _ _ there
          | cons next rest => exact seen (by simp)
      · intro creating dir u start some_
        rw [Place.child, List.append_assoc]
        exact makes creating _ u ((List.prefix_append_right_inj [component]).mpr start) (by simp)
    apply shared_look looks rfl
    intro w' c moved
    cases reply : (perform c w' (.openDirectory (current.child component))).2 with
    | ok _ => exact onward w' moved (openDirectory_ok reply)
    | error e =>
      cases e with
      | noEntry =>
        simp only
        split
        · rename_i creating
          apply shared_call
          · exact fun u _ => makes creating [component] u (List.prefix_append [component] rest) (by simp)
          · intro u c' further
            have grown := makeDirectory_grows c' u (current.child component)
            have opened : Prog.Safe (shared permitted)
                (Prog.onOk fun dir w' => Leads current (component :: rest) w dir w')
                (openMade create component rest current).run
                (perform c' u (.makeDirectory (current.child component))).1 := by
              apply shared_look looks rfl
              intro v c'' last
              cases reply' : (perform c'' v (.openDirectory (current.child component))).2 with
              | ok _ =>
                exact onward v (((moved.trans further).trans grown).trans last) (openDirectory_ok reply')
              | error e => exact shared_fail _ v
            cases (perform c' u (.makeDirectory (current.child component))).2 with
            | ok _ => exact opened
            | error e =>
              cases e with
              | exists_ => exact opened
              | _ => exact shared_fail _ _
        · exact shared_fail _ w'
      | _ => exact shared_fail _ w'

theorem fingerprintOptionalAt_shared (place : Place) (w : World) :
    Prog.Safe (shared permitted)
      (Prog.onOk fun r w' => Interference w w' ∧ ∀ fingerprint, r = some fingerprint →
        ∃ f, w'.nodes place = some (.file f) ∧ fingerprintFromStat f = fingerprint)
      (fingerprintOptionalAt place).run w := by
  apply shared_look looks rfl
  intro w' c moved
  rcases perform_eq c w' (.stat place) (by simp) with same | ⟨_, text, same⟩
  · rw [same]
    simp only [answer]
    cases found : w'.nodes place with
    | none =>
      apply shared_pure
      intro u further
      exact ⟨moved.trans further, fun _ impossible => by cases impossible⟩
    | some n =>
      cases n with
      | file f =>
        apply shared_pure
        intro u further
        refine ⟨moved.trans further, ?_⟩
        intro fingerprint known
        cases known
        exact ⟨f, further.keeps _ _ found, rfl⟩
      | _ => exact shared_fail _ w'
  · rw [same]
    exact shared_fail _ w'

theorem fileStat_shared (place : Place) (w : World) :
    Prog.Safe (shared permitted)
      (Prog.onOk fun f w' => Interference w w' ∧ w'.nodes place = some (.file f))
      (fileStat place).run w := by
  apply shared_look looks rfl
  intro w' c moved
  rcases perform_eq c w' (.stat place) (by simp) with same | ⟨_, text, same⟩
  · rw [same]
    simp only [answer]
    cases found : w'.nodes place with
    | none => exact shared_fail _ w'
    | some n =>
      cases n with
      | file f =>
        apply shared_pure
        exact fun u further => ⟨moved.trans further, further.keeps _ _ found⟩
      | _ => exact shared_fail _ w'
  · rw [same]
    exact shared_fail _ w'

theorem openRegularAt_shared (place : Place) (w : World) :
    Prog.Safe (shared permitted) (Prog.onOk fun _ w' => Interference w w') (openRegularAt place).run w := by
  apply shared_look looks rfl
  intro w' c moved
  cases (perform c w' (.openFile place)).2 with
  | error e => exact shared_fail _ w'
  | ok _ =>
    apply shared_bind (fileStat_shared looks place w')
    intro f u met
    exact shared_pure _ u fun v further => moved.trans (met.1.trans further)

theorem syncDirectory_shared (dir : Place) (w : World) :
    Prog.Safe (shared permitted) (Prog.onOk fun _ w' => Interference w w') (syncDirectory dir).run w := by
  apply shared_look looks rfl
  intro w' c moved
  have finished : Prog.Safe (shared permitted) (Prog.onOk fun _ w' => Interference w w')
      (pure () : Broker Unit).run w' := shared_pure _ w' fun u further => moved.trans further
  cases (perform c w' (.syncDirectory dir)).2 with
  | ok _ => exact finished
  | error e =>
    cases e with
    | badDescriptor | invalid => exact finished
    | _ => exact shared_fail _ w'

omit looks in
/-- A rename that succeeds took a free place; one that fails changed nothing. -/
theorem renameNoreplace_shared (place target : Place) (operation : String) (w : World)
    (allowed : ∀ w', Interference w w' → permitted w' (.rename place target)) :
    Prog.Safe (shared permitted)
      (fun r w' => (∃ e, r = .error e ∧ Interference w w') ∨
        ∃ n before, r = .ok () ∧ Interference w before ∧ before.nodes place = some n ∧
          before.nodes target = none ∧ Interference (before.rename place target) w')
      (renameNoreplace place target operation).run w := by
  apply shared_call allowed
  intro w' c moved
  have failed : ∀ message, Prog.Safe (shared permitted)
      (fun r w' => (∃ e, r = .error e ∧ Interference w w') ∨
        ∃ n before, r = .ok () ∧ Interference w before ∧ before.nodes place = some n ∧
          before.nodes target = none ∧ Interference (before.rename place target) w')
      (fail message : Broker Unit).run w' :=
    fun message u further => Or.inl ⟨_, rfl, moved.trans further⟩
  rcases perform_eq c w' (.rename place target) (by simp) with same | ⟨_, text, same⟩
  · rw [same]
    rcases answer_rename c.now w' place target with ⟨reply, _⟩ | ⟨reply, _⟩ | ⟨reply, free, n, there⟩
    · rw [reply]
      exact failed _
    · rw [reply]
      exact failed _
    · rw [reply]
      exact fun u further => Or.inr ⟨n, w', rfl, moved, there, free, further⟩
  · rw [same]
    exact failed _

omit looks in
theorem unlinkAtIfPresent_shared (place : Place) (w : World)
    (allowed : ∀ w', Interference w w' → permitted w' (.unlink place)) :
    Prog.Safe (shared permitted)
      (Prog.onOk fun _ w' => ∃ before, Interference w before ∧
        (Interference before w' ∨ Interference (before.unlink place) w'))
      (unlinkAtIfPresent place).run w := by
  apply shared_call allowed
  intro w' c moved
  rcases perform_eq c w' (.unlink place) (by simp) with same | ⟨_, text, same⟩
  · rw [same]
    rcases answer_unlink c.now w' place with ⟨e, reply⟩ | reply
    · rw [reply]
      exact shared_pure _ w' fun u further => ⟨w', moved, Or.inl further⟩
    · rw [reply]
      exact shared_pure _ _ fun u further => ⟨w', moved, Or.inr further⟩
  · rw [same]
    exact shared_pure _ w' fun u further => ⟨w', moved, Or.inl further⟩

theorem unlinkRegularAt_shared (place : Place) (w : World)
    (allowed : ∀ w', Interference w w' → permitted w' (.unlink place)) :
    Prog.Safe (shared permitted)
      (Prog.onOk fun _ w' => ∃ before, Interference w before ∧ Interference (before.unlink place) w')
      (unlinkRegularAt place).run w := by
  apply shared_bind (openRegularAt_shared looks place w)
  intro _ opened grown
  apply shared_bind (fileStat_shared looks place opened)
  intro f w₁ met
  have reached := grown.trans met.1
  apply shared_call
  · exact fun w' moved => allowed w' (reached.trans moved)
  · intro w' c moved
    rcases perform_eq c w' (.unlink place) (by simp) with same | ⟨_, text, same⟩
    · rw [same]
      rcases answer_unlink c.now w' place with ⟨e, reply⟩ | reply
      · rw [reply]
        exact shared_fail _ w'
      · rw [reply]
        exact shared_pure _ _ fun u further => ⟨w', reached.trans moved, further⟩
    · rw [same]
      exact shared_fail _ w'

omit looks in
/-- The temporary file is new, empty, and the broker's. -/
theorem createTemporaryFile_shared (dir : Place) (pid tries sequence : Nat) (w : World)
    (allowed : ∀ w' sequence, permitted w' (.createExclusive (dir.child (temporaryName pid sequence)))) :
    Prog.Safe (shared permitted)
      (Prog.onOk fun temporary w' => (∃ sequence, temporary = dir.child (temporaryName pid sequence)) ∧
        w.nodes temporary = none ∧ w'.scratch = some temporary ∧
        (∃ now, w'.nodes temporary = some (.file ⟨[], now⟩)) ∧
        ∀ p n, w.nodes p = some n → w'.nodes p = some n)
      (createTemporaryFile dir pid tries sequence).run w := by
  induction tries generalizing sequence w with
  | zero => exact shared_fail _ w
  | succ tries ih =>
    apply shared_call fun w' _ => allowed w' sequence
    intro w' c moved
    rcases perform_eq c w' (.createExclusive (dir.child (temporaryName pid sequence))) (by simp) with
      same | ⟨_, text, same⟩
    · rw [same]
      rcases answer_create c.now w' (dir.child (temporaryName pid sequence)) with ⟨reply, _⟩ | ⟨reply, free⟩
      · rw [reply]
        apply (ih (sequence + 1) w').mono
        intro r u met temporary ok
        obtain ⟨named, absent, rest, created, kept⟩ := met temporary ok
        refine ⟨named, ?_, rest, created, fun p n found => kept p n (moved.keeps p n found)⟩
        cases before : w.nodes temporary with
        | none => rfl
        | some n =>
          rw [moved.keeps _ _ before] at absent
          cases absent
      · rw [reply]
        apply shared_pure
        intro u further
        have placed : u.nodes (dir.child (temporaryName pid sequence)) = some (.file ⟨[], c.now⟩) := by
          apply further.keeps
          simp only [World.set, ↓reduceIte]
        refine ⟨⟨sequence, rfl⟩, ?_, further.scratch, ⟨c.now, placed⟩, ?_⟩
        · cases before : w.nodes (dir.child (temporaryName pid sequence)) with
          | none => rfl
          | some n =>
            rw [moved.keeps _ _ before] at free
            cases free
        · intro p n found
          apply further.keeps
          exact (set_free_grows w' _ _ free).keeps p n (moved.keeps p n found)
    · rw [same]
      exact shared_fail _ w'

/-- Only one file is written to, and it stays the broker's. -/
structure Writes (temporary : Place) (w w' : World) : Prop where
  keeps : ∀ p n, p ≠ temporary → w.nodes p = some n → w'.nodes p = some n
  scratch : w'.scratch = w.scratch

omit looks in
theorem Writes.of_grows {temporary : Place} {w w' : World} (grown : Interference w w') :
    Writes temporary w w' :=
  ⟨fun p n _ found => grown.keeps p n found, grown.scratch⟩

omit looks in
theorem Writes.trans {temporary : Place} {u v w : World} (first : Writes temporary u v)
    (second : Writes temporary v w) : Writes temporary u w :=
  ⟨fun p n other found => second.keeps p n other (first.keeps p n other found),
    second.scratch.trans first.scratch⟩

omit looks in
theorem set_writes (w : World) (temporary : Place) (node : Option Node) :
    Writes temporary w (w.set temporary node) := by
  refine ⟨?_, rfl⟩
  intro p n other found
  simp only [World.set, other, ↓reduceIte]
  exact found

omit looks in
theorem torn_writes (w : World) (now : Int) (temporary : Place) (block : Bytes) :
    Writes temporary w (torn w now temporary block) := by
  unfold torn
  split
  · exact set_writes w temporary _
  · exact Writes.of_grows (Interference.refl w)

omit looks in
theorem appendAll_shared (temporary : Place) (blocks : List Bytes) (w : World) (f : File)
    (there : w.nodes temporary = some (.file f)) (mine : w.scratch = some temporary)
    (allowed : ∀ w' block, w'.scratch = some temporary → permitted w' (.append temporary block)) :
    Prog.Safe (shared permitted)
      (fun r w' => Writes temporary w w' ∧ (r = .ok () →
        ∃ now, w'.nodes temporary = some (.file ⟨f.content ++ blocks.flatten, now⟩)))
      (appendAll temporary blocks).run w := by
  induction blocks generalizing w f with
  | nil =>
    intro w' moved
    refine ⟨Writes.of_grows moved, fun _ => ⟨f.modified, ?_⟩⟩
    rw [List.flatten_nil, List.append_nil]
    exact moved.keeps _ _ there
  | cons block rest ih =>
    apply shared_call fun w' moved => allowed w' block (moved.scratch.trans mine)
    intro w' c moved
    have still := moved.keeps _ _ there
    cases fault : c.fault with
    | some failure =>
      simp only [perform, fault]
      intro u further
      refine ⟨(Writes.of_grows moved).trans ((torn_writes ..).trans (Writes.of_grows further)), ?_⟩
      intro impossible
      cases impossible
    | none =>
      have written : perform c w' (.append temporary block) =
          (w'.set temporary (some (.file ⟨f.content ++ block, c.now⟩)), .ok ()) := by
        simp only [perform, fault, answer, torn, still]
      rw [written]
      apply (ih _ ⟨f.content ++ block, c.now⟩ ?_ ?_).mono
      · intro r u met
        refine ⟨(Writes.of_grows moved).trans ((set_writes ..).trans met.1), ?_⟩
        intro ok
        obtain ⟨now, found⟩ := met.2 ok
        rw [List.append_assoc] at found
        exact ⟨now, found⟩
      · simp only [World.set, ↓reduceIte]
      · exact moved.scratch.trans mine

theorem copyStaged_shared (blocks : Blocks) (staged temporary : Place) (source : File) (w : World)
    (now : Int) (there : w.nodes temporary = some (.file ⟨[], now⟩)) (mine : w.scratch = some temporary)
    (known : w.nodes staged = some (.file source))
    (appends : ∀ w' block, w'.scratch = some temporary → permitted w' (.append temporary block))
    (stamps : ∀ w' m, w'.scratch = some temporary → permitted w' (.setTimes temporary m)) :
    Prog.Safe (shared permitted)
      (fun r w' => Writes temporary w w' ∧ (r = .ok () → w'.nodes temporary = some (.file source)))
      (copyStaged blocks staged temporary source).run w := by
  have failed : ∀ message w', Writes temporary w w' → Prog.Safe (shared permitted)
      (fun r w' => Writes temporary w w' ∧ (r = .ok () → w'.nodes temporary = some (.file source)))
      (fail message : Broker Unit).run w' := by
    intro message w' written u further
    exact ⟨written.trans (Writes.of_grows further), fun impossible => by cases impossible⟩
  apply shared_look looks rfl
  intro w₁ c moved
  rcases perform_eq c w₁ (.read staged) (by simp) with same | ⟨_, text, same⟩
  · rw [same]
    simp only [answer, moved.keeps _ _ known]
    apply Prog.Safe.chain (appendAll_shared temporary (blocks.cut source.content) w₁ _
      (moved.keeps _ _ there) (moved.scratch.trans mine) appends)
    · intro _ w₂ ⟨written, copied⟩
      obtain ⟨m, found⟩ := copied rfl
      rw [List.nil_append, blocks.whole] at found
      have kept := (Writes.of_grows moved).trans written
      apply shared_call fun w' further => stamps w' _ (further.scratch.trans (kept.scratch.trans mine))
      intro w₃ c' further
      have still := further.keeps _ _ found
      rcases perform_eq c' w₃ (.setTimes temporary source.modified) (by simp) with same | ⟨_, text, same⟩
      · rw [same]
        simp only [answer, still]
        apply shared_look looks rfl
        intro w₄ c'' last
        have stamped : w₄.nodes temporary = some (.file source) := by
          apply last.keeps
          simp only [World.set, ↓reduceIte]
        have all : Writes temporary w w₄ :=
          kept.trans ((Writes.of_grows further).trans ((set_writes ..).trans (Writes.of_grows last)))
        cases (perform c'' w₄ (.syncFile temporary)).2 with
        | ok _ => exact fun u final => ⟨all.trans (Writes.of_grows final), fun _ => final.keeps _ _ stamped⟩
        | error e => exact failed _ w₄ all
      · rw [same]
        exact failed _ w₃ (kept.trans (Writes.of_grows further))
    · intro e w₂ ⟨written, _⟩ u further
      exact ⟨((Writes.of_grows moved).trans written).trans (Writes.of_grows further),
        fun impossible => by cases impossible⟩
  · rw [same]
    exact failed _ w₁ (Writes.of_grows moved)

end Shared

end NixHomeServer.MediaManager
