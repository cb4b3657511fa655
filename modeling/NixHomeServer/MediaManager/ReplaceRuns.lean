import NixHomeServer.MediaManager.Completion

/-! Runs of executions of one replacement, cut short anywhere, with any call failing
and other processes creating files in between. -/
namespace NixHomeServer.MediaManager

open NixHomeServer.Library

abbrev ReplaceSession := Session Op Reply World (Except BrokerError Bool)

/-- Executions start under a process id and the next number of its temporary files. -/
abbrev ReplaceEvent := SessionEvent Choice (Place × Node) (Nat × Nat)

section Runs

variable (config : Config) (username : String) (a : ReplaceArtworkAction) (blocks : Blocks)
  (kind : ReplaceKind)

def replaceStep (s : ReplaceSession) (event : ReplaceEvent) : ReplaceSession :=
  s.next perform World.create
    (fun job => (executeReplace config username a blocks job.1 job.2 kind).run) event

def replaceRun (w : World) (events : List ReplaceEvent) : ReplaceSession :=
  Runs.run (replaceStep config username a blocks kind) ⟨w, none⟩ events

variable {config username a blocks kind} {l : Layout}

theorem resolveRoot_ok {rootId missing missing' : String} {category : LibraryCategory}
    (resolved : resolveRoot config username rootId missing = .ok category) :
    resolveRoot config username rootId missing' = .ok category := by
  unfold resolveRoot at resolved ⊢
  obtain ⟨u, valid, resolved⟩ := bind_ok resolved
  rw [valid]
  dsimp only [bind, Except.bind]
  cases known : config.resolveVisibleRoot username rootId with
  | none =>
    rw [known] at resolved
    cases resolved
  | some found =>
    rw [known] at resolved
    exact resolved

theorem validate_root (valid : kind.validate config username a = .ok ()) :
    ∃ category, resolveRoot config username a.rootId "artwork root ID is not registered" = .ok category := by
  have metadata : ∀ {categories extensions unsupported misplaced moved mismatch},
      validateReplaceMetadata categories extensions unsupported misplaced moved mismatch config username a
        = .ok () → ∃ category,
          resolveRoot config username a.rootId "artwork root ID is not registered" = .ok category := by
    intro _ _ _ _ _ _ valid
    obtain ⟨_, _, valid⟩ := bind_ok valid
    obtain ⟨category, resolved, _⟩ := bind_ok valid
    exact ⟨category, resolveRoot_ok resolved⟩
  cases kind with
  | metadataSidecar => exact metadata valid
  | embeddedMetadata => exact metadata valid
  | artwork =>
    obtain ⟨_, _, valid⟩ := bind_ok valid
    obtain ⟨category, resolved, _⟩ := bind_ok valid
    exact ⟨category, resolved⟩

/-- What every event keeps: calls are permitted, a success is a replacement, the original is kept. -/
structure Sound (a : ReplaceArtworkAction) (l : Layout) (original : Node) (s : ReplaceSession) : Prop where
  safe : s.Sound (shared (Permitted a l)) (Prog.onOk fun _ w => Replaced a l w)
  held : Held s.world
  kept : Kept l original s.world

/-- An event adds files, or makes a permitted call. -/
theorem step_cases {s : ReplaceSession}
    (safe : s.Sound (shared (Permitted a l)) (Prog.onOk fun _ w => Replaced a l w)) (event : ReplaceEvent) :
    Interference s.world (replaceStep config username a blocks kind s event).world ∨
      Effect a l s.world (replaceStep config username a blocks kind s event).world := by
  rcases Session.next_world World.create
    (fun job : Nat × Nat => (executeReplace config username a blocks job.1 job.2 kind).run) safe event with
    same | ⟨made, _, same⟩ | ⟨c, op, _, allowed, same⟩
  · left
    rw [show (replaceStep config username a blocks kind s event).world = s.world from same]
    exact Interference.refl _
  · left
    rw [show (replaceStep config username a blocks kind s event).world = World.create made s.world from same]
    exact create_grows made s.world
  · right
    rw [show (replaceStep config username a blocks kind s event).world = (perform c s.world op).1 from same]
    exact perform_effect c s.world op allowed

theorem step_safe (parsed : Parsed a l) {s : ReplaceSession}
    (safe : s.Sound (shared (Permitted a l)) (Prog.onOk fun _ w => Replaced a l w)) (event : ReplaceEvent) :
    (replaceStep config username a blocks kind s event).Sound (shared (Permitted a l))
      (Prog.onOk fun _ w => Replaced a l w) := by
  apply Session.next_sound World.create _ safe event
  · exact fun _ _ => trivial
  · exact fun made _ => create_grows made s.world
  · exact fun job _ => executeReplace_shared parsed blocks kind job.1 job.2 s.world

theorem step_sound (parsed : Parsed a l) {original : Node} (s : ReplaceSession) (event : ReplaceEvent)
    (sound : Sound a l original s) :
    Sound a l original (replaceStep config username a blocks kind s event) := by
  rcases step_cases sound.safe event with grown | effect
  · exact ⟨step_safe parsed sound.safe event, sound.held.grows grown, sound.kept.grows grown⟩
  · exact ⟨step_safe parsed sound.safe event, effect_held effect sound.held,
      effect_kept effect sound.held sound.kept⟩

theorem run_sound (parsed : Parsed a l) {original : Node} {w : World}
    (there : w.nodes l.source = some original) (fresh : w.scratch = none) (events : List ReplaceEvent) :
    Sound a l original (replaceRun config username a blocks kind w events) := by
  apply Runs.run_invariant (replaceStep config username a blocks kind) _ (step_sound parsed)
  constructor
  · exact fun p impossible => by cases impossible
  · intro p mine
    rw [fresh] at mine
    cases mine
  · refine ⟨l.source, Or.inl rfl, there, ?_⟩
    rw [fresh]
    exact fun impossible => by cases impossible

/-- A run without other processes stays in the phases. -/
theorem run_settled (parsed : Parsed a l) {original staged : File} {w : World}
    (untemporary : ∀ pid sequence, l.sourceLeaf ≠ temporaryName pid sequence)
    (settled : Settled l original staged w) (events : List ReplaceEvent)
    (undisturbed : ∀ made, SessionEvent.outside made ∉ events) :
    Settled l original staged (replaceRun config username a blocks kind w events).world := by
  have invariant : (replaceRun config username a blocks kind w events).Sound (shared (Permitted a l))
      (Prog.onOk fun _ w => Replaced a l w) ∧
      Settled l original staged (replaceRun config username a blocks kind w events).world := by
    apply Runs.run_invariant_mem (replaceStep config username a blocks kind)
      (fun s : ReplaceSession => s.Sound (shared (Permitted a l)) (Prog.onOk fun _ w => Replaced a l w) ∧
        Settled l original staged s.world)
    · intro s event member ⟨safe, settled⟩
      refine ⟨step_safe parsed safe event, ?_⟩
      rcases Session.next_world World.create
        (fun job : Nat × Nat => (executeReplace config username a blocks job.1 job.2 kind).run) safe event with
        same | ⟨made, outside, _⟩ | ⟨c, op, _, allowed, same⟩
      · rw [show (replaceStep config username a blocks kind s event).world = s.world from same]
        exact settled
      · rw [outside] at member
        exact absurd member (undisturbed made)
      · rw [show (replaceStep config username a blocks kind s event).world = (perform c s.world op).1 from same]
        exact effect_settled (perform_effect c s.world op allowed) parsed untemporary settled
    · refine ⟨?_, settled⟩
      intro p impossible
      cases impossible
  exact invariant.2

/-- The files as the preview of the action saw them. -/
structure Ready (a : ReplaceArtworkAction) (l : Layout) (original staged : File) (w : World) : Prop where
  staging : w.nodes ⟨.staging, []⟩ = some .directory
  parents : ∀ start, start <+: l.parent → w.nodes ⟨.library, start⟩ = some .directory
  superseded : w.nodes l.superseded = none ∨ w.nodes l.superseded = some .directory
  source : w.nodes l.source = some (.file original)
  archive : w.nodes l.archive = none
  replacement : l.source ≠ l.replacement → w.nodes l.replacement = none
  copy : w.nodes l.staged = some (.file staged)
  expectedSource : fingerprintFromStat original = a.expectedSource
  expectedReplacement : fingerprintFromStat staged = a.expectedReplacement
  scratch : w.scratch = none

theorem Ready.settled {original staged : File} {w : World} (ready : Ready a l original staged w) :
    Settled l original staged w where
  staging := ready.staging
  parents := ready.parents
  superseded := ready.superseded
  archived n there := by
    rw [ready.archive] at there
    cases there
  scratch p mine := by
    rw [ready.scratch] at mine
    cases mine
  phase := ⟨.initial, ready.source, ready.archive, ready.replacement, ready.copy⟩

/-- No step loses or overwrites a file, a success is a replacement, and an undisturbed execution
with a free temporary name completes whatever was cut short before it. -/
theorem replacement_never_loses_a_file (config : Config) (username : String) (a : ReplaceArtworkAction)
    (blocks : Blocks) (kind : ReplaceKind) (valid : kind.validate config username a = .ok ()) :
    ∃ l, Parsed a l ∧
      (∀ w original, w.nodes l.source = some original → w.scratch = none → ∀ events,
        ((replaceRun config username a blocks kind w events).world.nodes l.source = some original ∨
          (replaceRun config username a blocks kind w events).world.nodes l.archive = some original) ∧
        (∀ event p n, p.root = .library →
          (replaceRun config username a blocks kind w events).world.scratch ≠ some p →
          (replaceRun config username a blocks kind w events).world.nodes p = some n →
          (replaceRun config username a blocks kind w (events ++ [event])).world.nodes p = some n ∨
            ∃ q, (replaceRun config username a blocks kind w events).world.nodes q = none ∧
              (replaceRun config username a blocks kind w (events ++ [event])).world.nodes q = some n) ∧
        ∀ recovered, (replaceRun config username a blocks kind w events).result = some (.ok recovered) →
          Replaced a l (replaceRun config username a blocks kind w events).world) ∧
      ∀ w original staged, Ready a l original staged w →
        (∀ pid sequence, l.sourceLeaf ≠ temporaryName pid sequence) →
        ∀ events, (∀ made, SessionEvent.outside made ∉ events) →
        ¬Phase.restored.At l original staged (replaceRun config username a blocks kind w events).world →
        ∀ pid sequence (choices : Nat → Choice), (∀ i, (choices i).fault = none) →
        (∃ k, k < 16 ∧ (replaceRun config username a blocks kind w events).world.nodes
          (l.dir.child (temporaryName pid (sequence + k))) = none) →
        ∃ count recovered, (replaceRun config username a blocks kind w
            (events ++ [.crash, .start (pid, sequence)] ++
              (List.range count).map fun i => .step (choices i))).result = some (.ok recovered) ∧
          Done l original staged (replaceRun config username a blocks kind w
            (events ++ [.crash, .start (pid, sequence)] ++
              (List.range count).map fun i => .step (choices i))).world := by
  obtain ⟨l, parsed⟩ := validate_parsed valid
  refine ⟨l, parsed, ?_, ?_⟩
  · intro w original there fresh events
    have sound : Sound a l original (replaceRun config username a blocks kind w events) :=
      run_sound parsed there fresh events
    refine ⟨?_, ?_, ?_⟩
    · obtain ⟨p, rfl | rfl, found, _⟩ := sound.kept
      · exact Or.inl found
      · exact Or.inr found
    · intro event p n library other found
      rw [show replaceRun config username a blocks kind w (events ++ [event]) =
        replaceStep config username a blocks kind (replaceRun config username a blocks kind w events) event
        from Runs.run_snoc ..]
      rcases step_cases sound.safe event with grown | effect
      · exact Or.inl (grown.keeps p n found)
      · exact effect_loses_nothing effect p n library other found
    · intro recovered finished
      simp only [Session.result] at finished
      split at finished
      · rename_i r ended
        cases finished
        exact sound.safe _ ended _ (Interference.refl _) recovered rfl
      · cases finished
  · intro w original staged ready untemporary events undisturbed unrestored pid sequence choices clean free
    obtain ⟨category, known⟩ := validate_root valid
    have settled : Settled l original staged (replaceRun config username a blocks kind w events).world :=
      run_settled parsed untemporary ready.settled events undisturbed
    have safe := executeReplace_alone parsed valid known ready.expectedSource ready.expectedReplacement
      untemporary blocks pid sequence settled unrestored free
    obtain ⟨count, r, w', ⟨recovered, rfl, finished⟩, reached⟩ :=
      Session.finishes World.create
        (fun job : Nat × Nat => (executeReplace config username a blocks job.1 job.2 kind).run) _ _ safe
        choices clean
    have run : replaceRun config username a blocks kind w
        (events ++ [.crash, .start (pid, sequence)] ++ (List.range count).map fun i => .step (choices i)) =
        ⟨w', some (.done (.ok recovered))⟩ := by
      rw [← reached]
      unfold replaceRun
      rw [Runs.run_append, Runs.run_append]
      rfl
    exact ⟨count, recovered, by rw [run]; rfl, by rw [run]; exact finished⟩

end Runs

section Samples

instance decidableEqExcept {ε α : Type} [DecidableEq ε] [DecidableEq α] : DecidableEq (Except ε α)
  | .error e, .error e' => decidable_of_iff (e = e') (by simp)
  | .ok a, .ok a' => decidable_of_iff (a = a') (by simp)
  | .error _, .ok _ => isFalse (by simp)
  | .ok _, .error _ => isFalse (by simp)

def oneRoot : Config where
  validIdentity _ := true
  resolveVisibleRoot _ _ := some .videos

def coverAction : ReplaceArtworkAction where
  stagingFilename := "cover.staged"
  rootId := "videos"
  sourceRelativePath := "film/cover.jpg"
  archivedRelativePath := "film/superseded/cover.jpg"
  replacementRelativePath := "film/cover.png"
  expectedSource := "3:10"
  expectedReplacement := "2:20"

def coverWorld : World where
  nodes p :=
    if p = ⟨.library, []⟩ ∨ p = ⟨.library, ["film"]⟩ ∨ p = ⟨.staging, []⟩ then some .directory
    else if p = ⟨.library, ["film", "cover.jpg"]⟩ then some (.file ⟨[1, 2, 3], 10⟩)
    else if p = ⟨.staging, ["cover.staged"]⟩ then some (.file ⟨[4, 5], 20⟩)
    else none

def oneBlock : Blocks where
  cut content := [content]
  whole content := by rw [List.flatten_singleton]

def coverRun (events : List ReplaceEvent) : ReplaceSession :=
  replaceRun oneRoot "owner" coverAction oneBlock .artwork coverWorld events

def coverLayout : Layout where
  parent := ["film"]
  sourceLeaf := "cover.jpg"
  archiveLeaf := "cover.jpg"
  replacementLeaf := "cover.png"
  staging := "cover.staged"

theorem coverLayout_eq {l : Layout} (parsed : Parsed coverAction l) : l = coverLayout := by
  have source := parsed.source
  have archive := parsed.archive
  have replacement := parsed.replacement
  have staging := parsed.staging
  rw [show safeParentAndLeaf coverAction.sourceRelativePath = .ok (["film"], "cover.jpg") by decide]
    at source
  rw [show safeParentAndLeaf coverAction.archivedRelativePath = .ok (["film", "superseded"], "cover.jpg")
    by decide] at archive
  rw [show safeParentAndLeaf coverAction.replacementRelativePath = .ok (["film"], "cover.png") by decide]
    at replacement
  cases l
  simp only [Except.ok.injEq, Prod.mk.injEq] at source archive replacement staging
  obtain ⟨rfl, rfl⟩ := source
  obtain ⟨_, rfl⟩ := archive
  obtain ⟨_, rfl⟩ := replacement
  cases staging
  rfl

theorem coverReady : Ready coverAction coverLayout ⟨[1, 2, 3], 10⟩ ⟨[4, 5], 20⟩ coverWorld where
  staging := by decide
  parents start within := by
    rcases List.prefix_concat_iff.mp (show start <+: [] ++ ["film"] from within) with rfl | empty
    · decide
    · rw [List.prefix_nil.mp empty]
      decide
  superseded := by decide
  source := by decide
  archive := by decide
  replacement _ := by decide
  copy := by decide
  expectedSource := by decide
  expectedReplacement := by decide
  scratch := rfl

def steps (count : Nat) : List ReplaceEvent := List.replicate count (.step {})

/-- An execution cut short between the two renames. -/
def cutShort : List ReplaceEvent := [.start (7, 1)] ++ steps 26 ++ [.crash]

/-- A replacement cut short between its renames is completed under the same process id. -/
theorem replacement_of_a_cover : ∃ count recovered,
    (coverRun (cutShort ++ [.crash, .start (7, 1)] ++ (List.range count).map fun _ => .step {})).result =
        some (.ok recovered) ∧
      Done coverLayout ⟨[1, 2, 3], 10⟩ ⟨[4, 5], 20⟩
        (coverRun (cutShort ++ [.crash, .start (7, 1)] ++ (List.range count).map fun _ => .step {})).world := by
  obtain ⟨l, parsed, _, completes⟩ := replacement_never_loses_a_file oneRoot "owner" coverAction oneBlock
    .artwork (by decide)
  cases coverLayout_eq parsed
  refine completes coverWorld _ _ coverReady ?_ cutShort ?_ ?_ 7 1 (fun _ => {}) (fun _ => rfl) ⟨1, by decide, ?_⟩
  · intro pid sequence same
    have ending := temporaryName_extension pid sequence
    rw [← same] at ending
    exact absurd ending (by decide)
  · intro made outside
    simp [cutShort, steps] at outside
  · intro restored
    exact absurd restored.2.1 (by decide)
  · decide

/-- Sixteen executions of one process id, each cut short right after it made its temporary file. -/
def exhausting : List ReplaceEvent :=
  (List.range 16).flatMap fun k =>
    [.start (7, 1)] ++ steps (if k = 0 then 21 else 23 + k) ++ [.crash]

/-- An execution cut short after the installation, and one that twice fails to open the archive. -/
def misjudged : List ReplaceEvent :=
  [.start (7, 1)] ++ steps 30 ++ [.crash, .start (8, 1)] ++ steps 2 ++
    [.step { fault := some ("Too many open files (os error 24)", 0) }] ++ steps 2 ++
    [.step { fault := some ("Too many open files (os error 24)", 0) }] ++ steps 20 ++ [.crash]

/-- Executions that nothing disturbs can fail for ever after: the temporary names of a process id
are used up, or the original was put back beside the installed replacement. -/
theorem undisturbed_executions_fail :
    (coverRun (exhausting ++ [.start (7, 1)] ++ steps 60)).result =
      some (.error ⟨"could not allocate a unique temporary subtitle name"⟩) ∧
    (coverRun (exhausting ++ [.start (7, 1)] ++ steps 60)).world.nodes coverLayout.archive = none ∧
    (coverRun (misjudged ++ [.start (9, 1)] ++ steps 60)).result =
      some (.error ⟨"replacement inputs changed after the mutation preview"⟩) ∧
    (coverRun (misjudged ++ [.start (9, 1)] ++ steps 60)).world.nodes coverLayout.archive = none := by
  decide +kernel

end Samples

end NixHomeServer.MediaManager
