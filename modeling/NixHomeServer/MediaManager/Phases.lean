import NixHomeServer.MediaManager.Replacement

/-! The states a replacement goes through when the broker is alone: however its
executions are cut short, the files stay in one of four phases. -/
namespace NixHomeServer.MediaManager

open NixHomeServer.Library

section Names

theorem temporaryName_toList (pid sequence : Nat) : ∃ start, (temporaryName pid sequence).toList =
    start ++ ".partial".toList := by
  unfold temporaryName
  exact ⟨_, String.toList_append⟩

theorem temporaryName_extension (pid sequence : Nat) :
    extension (temporaryName pid sequence) = some "partial" := by
  obtain ⟨start, same⟩ := temporaryName_toList pid sequence
  unfold extension
  rw [same]
  have dotted : (start ++ ".partial".toList).contains '.' = true := by
    simp
  rw [if_pos dotted, List.reverse_append]
  rfl

theorem temporaryName_suffix (pid sequence : Nat) (e : String) (image : e ∈ imageExtensions) :
    hasSuffix (temporaryName pid sequence) e = false := by
  obtain ⟨start, same⟩ := temporaryName_toList pid sequence
  rw [hasSuffix, same, List.map_append]
  cases suffix : e.toList.isSuffixOf (start.map Char.toLower ++ ".partial".toList.map Char.toLower) with
  | false => rfl
  | true =>
    have ends := List.isSuffixOf_iff_suffix.mp suffix
    have partial_ : ".partial".toList.map Char.toLower <:+
        start.map Char.toLower ++ ".partial".toList.map Char.toLower := List.suffix_append ..
    have fits := List.suffix_of_suffix_length_le ends partial_ (by
      simp only [imageExtensions, List.mem_cons, List.not_mem_nil, or_false] at image
      rcases image with rfl | rfl | rfl | rfl | rfl <;> decide)
    simp only [imageExtensions, List.mem_cons, List.not_mem_nil, or_false] at image
    rcases image with rfl | rfl | rfl | rfl | rfl <;> exact absurd fits (by decide)

variable {a : ReplaceArtworkAction} {l : Layout}

/-- The replacement never has the name of a temporary file. -/
theorem Parsed.replacement_named (parsed : Parsed a l) (pid sequence : Nat) :
    l.replacementLeaf ≠ temporaryName pid sequence := by
  intro same
  rcases parsed.installed with ⟨e, image, suffix⟩ | ⟨e, known, ending⟩
  · rw [same, temporaryName_suffix pid sequence e image] at suffix
    cases suffix
  · rw [same, temporaryName_extension] at ending
    cases ending
    exact absurd known (by decide)

theorem Parsed.source_superseded (parsed : Parsed a l) : l.sourceLeaf ≠ "superseded" := by
  intro same
  have dotted := parsed.dotted
  rw [same] at dotted
  exact absurd dotted (by decide)

theorem Parsed.replacement_superseded (parsed : Parsed a l) : l.replacementLeaf ≠ "superseded" := by
  intro same
  rcases parsed.installed with ⟨e, image, suffix⟩ | ⟨e, known, ending⟩
  · rw [same] at suffix
    simp only [imageExtensions, List.mem_cons, List.not_mem_nil, or_false] at image
    rcases image with rfl | rfl | rfl | rfl | rfl <;> exact absurd suffix (by decide)
  · rw [same, show extension "superseded" = none by decide] at ending
    cases ending

theorem temporaryName_superseded (pid sequence : Nat) : temporaryName pid sequence ≠ "superseded" := by
  intro same
  have ending := temporaryName_extension pid sequence
  rw [same, show extension "superseded" = none by decide] at ending
  cases ending

theorem safeParentAndLeaf_toList {path leaf : String} {parents : List String}
    (split : safeParentAndLeaf path = .ok (parents, leaf)) :
    (path.toList.splitOn '/').map String.ofList = parents ++ [leaf] := by
  unfold safeParentAndLeaf at split
  simp only at split
  split at split
  · cases split
  · split at split
    · cases split
    · split at split
      · cases split
      · rename_i last
        cases split
        obtain ⟨start, same⟩ := List.getLast?_eq_some_iff.mp last
        rw [same, List.dropLast_concat]

/-- A path is determined by its components. -/
theorem safeParentAndLeaf_injective {path path' : String} {parts : List String × String}
    (split : safeParentAndLeaf path = .ok parts) (split' : safeParentAndLeaf path' = .ok parts) :
    path = path' := by
  have same := (safeParentAndLeaf_toList split).trans (safeParentAndLeaf_toList split').symm
  have parts := (List.map_inj_right (fun _ _ same => String.ofList_injective same)).mp same
  have joined := congrArg (List.intercalate ['/']) parts
  rw [List.intercalate_splitOn, List.intercalate_splitOn] at joined
  exact String.toList_injective joined

end Names

section Phases

inductive Phase
  | initial | archivedOnly | complete
  | restored -- the original is back at the source path beside an installed replacement
  deriving DecidableEq, Repr

/-- What the source, archive and replacement paths and the staged file hold in a phase. -/
def Phase.Holds (apart : Prop) (original staged : File) : Phase → Option Node → Option Node →
    Option Node → Option Node → Prop
  | .initial, source, archive, replacement, staging =>
    source = some (.file original) ∧ archive = none ∧ (apart → replacement = none) ∧
      staging = some (.file staged)
  | .archivedOnly, source, archive, replacement, staging =>
    source = none ∧ archive = some (.file original) ∧ replacement = none ∧ staging = some (.file staged)
  | .complete, source, archive, replacement, staging =>
    (apart → source = none) ∧ archive = some (.file original) ∧ replacement = some (.file staged) ∧
      (staging = none ∨ staging = some (.file staged))
  | .restored, source, archive, replacement, staging =>
    apart ∧ source = some (.file original) ∧ archive = none ∧ replacement = some (.file staged) ∧
      (staging = none ∨ staging = some (.file staged))

variable (l : Layout) (original staged : File)

def Phase.At (phase : Phase) (w : World) : Prop :=
  phase.Holds (l.source ≠ l.replacement) original staged (w.nodes l.source) (w.nodes l.archive)
    (w.nodes l.replacement) (w.nodes l.staged)

/-- The directories of the layout, the broker's file among its temporary names, and a phase. -/
structure Settled (w : World) : Prop where
  staging : w.nodes ⟨.staging, []⟩ = some .directory
  parents : ∀ start, start <+: l.parent → w.nodes ⟨.library, start⟩ = some .directory
  superseded : w.nodes l.superseded = none ∨ w.nodes l.superseded = some .directory
  archived : ∀ n, w.nodes l.archive = some n → w.nodes l.superseded = some .directory
  scratch : ∀ p, w.scratch = some p → ∃ pid sequence, p = l.dir.child (temporaryName pid sequence)
  phase : ∃ phase : Phase, phase.At l original staged w

/-- The places a phase speaks of. -/
def Watched (p : Place) : Prop :=
  p = ⟨.staging, []⟩ ∨ (∃ start, start <+: l.parent ∧ p = ⟨.library, start⟩) ∨ p = l.superseded ∨
    p = l.source ∨ p = l.archive ∨ p = l.replacement ∨ p = l.staged

variable {l original staged} {a : ReplaceArtworkAction}

theorem Settled.frame {w w' : World} (settled : Settled l original staged w)
    (same : ∀ p, Watched l p → w'.nodes p = w.nodes p)
    (named : ∀ p, w'.scratch = some p → ∃ pid sequence, p = l.dir.child (temporaryName pid sequence)) :
    Settled l original staged w' := by
  have superseded := same l.superseded (Or.inr (Or.inr (Or.inl rfl)))
  have source := same l.source (Or.inr (Or.inr (Or.inr (Or.inl rfl))))
  have archive := same l.archive (Or.inr (Or.inr (Or.inr (Or.inr (Or.inl rfl)))))
  have replacement := same l.replacement (Or.inr (Or.inr (Or.inr (Or.inr (Or.inr (Or.inl rfl))))))
  have staging := same l.staged (Or.inr (Or.inr (Or.inr (Or.inr (Or.inr (Or.inr rfl))))))
  constructor
  · exact (same _ (Or.inl rfl)).trans settled.staging
  · exact fun start within => (same _ (Or.inr (Or.inl ⟨start, within, rfl⟩))).trans
      (settled.parents start within)
  · rw [superseded]
    exact settled.superseded
  · rw [superseded, archive]
    exact settled.archived
  · exact named
  · simp only [Phase.At, source, archive, replacement, staging]
    exact settled.phase

theorem child_ne_start (dir : Place) (leaf : String) (start : List String) (root : Root)
    (within : start <+: dir.path) : dir.child leaf ≠ ⟨root, start⟩ := by
  intro same
  have sizes := congrArg (fun p : Place => p.path.length) same
  have bound := within.length_le
  simp only [Place.child, List.length_append, List.length_cons, List.length_nil] at sizes
  omega

theorem child_ne_child (dir : Place) (leaf leaf' : String) (other : leaf ≠ leaf') :
    dir.child leaf ≠ dir.child leaf' := by
  intro same
  have paths := congrArg Place.path same
  exact other (List.cons.inj (List.append_cancel_left paths)).1

theorem archive_ne_child (leaf : String) : l.archive ≠ l.dir.child leaf := by
  intro same
  have sizes := congrArg (fun p : Place => p.path.length) same
  simp only [Layout.archive, Layout.superseded, Place.child, List.length_append, List.length_cons,
    List.length_nil] at sizes
  omega

theorem staged_ne_root : l.staged ≠ ⟨.staging, []⟩ := by
  intro same
  cases same

/-- A temporary file is at none of the places of a phase. -/
theorem temporary_unwatched (parsed : Parsed a l) (pid sequence : Nat)
    (untemporary : ∀ pid sequence, l.sourceLeaf ≠ temporaryName pid sequence) :
    ¬Watched l (l.dir.child (temporaryName pid sequence)) := by
  rintro (same | ⟨start, within, same⟩ | same | same | same | same | same)
  · cases same
  · exact child_ne_start l.dir _ start .library within same
  · exact child_ne_child l.dir _ _ (temporaryName_superseded pid sequence) same
  · exact child_ne_child l.dir _ _ (untemporary pid sequence).symm same
  · exact archive_ne_child _ same.symm
  · exact child_ne_child l.dir _ _ (parsed.replacement_named pid sequence).symm same
  · cases same

/-- Where the four paths of a phase may change: the directories stay as they are. -/
theorem Settled.change {w w' : World} (settled : Settled l original staged w) (parsed : Parsed a l)
    (same : ∀ p, p ≠ l.source → p ≠ l.archive → p ≠ l.replacement → p ≠ l.staged →
      Watched l p → w'.nodes p = w.nodes p)
    (named : ∀ p, w'.scratch = some p → ∃ pid sequence, p = l.dir.child (temporaryName pid sequence))
    (archived : ∀ n, w'.nodes l.archive = some n → w.nodes l.superseded = some .directory)
    (phase : ∃ phase : Phase, phase.At l original staged w') : Settled l original staged w' := by
  have superseded : w'.nodes l.superseded = w.nodes l.superseded := by
    apply same l.superseded
    · exact child_ne_child l.dir _ _ parsed.source_superseded.symm
    · exact (archive_ne_child _).symm
    · exact child_ne_child l.dir _ _ parsed.replacement_superseded.symm
    · exact fun impossible => by cases impossible
    · exact Or.inr (Or.inr (Or.inl rfl))
  constructor
  · refine (same _ ?_ ?_ ?_ ?_ (Or.inl rfl)).trans settled.staging
    · exact fun impossible => by cases impossible
    · exact fun impossible => by cases impossible
    · exact fun impossible => by cases impossible
    · exact staged_ne_root.symm
  · intro start within
    refine (same _ ?_ ?_ ?_ ?_ (Or.inr (Or.inl ⟨start, within, rfl⟩))).trans (settled.parents start within)
    · exact (child_ne_start l.dir _ start .library within).symm
    · exact (child_ne_start l.superseded _ start .library (within.trans (List.prefix_append ..))).symm
    · exact (child_ne_start l.dir _ start .library within).symm
    · exact fun impossible => by cases impossible
  · rw [superseded]
    exact settled.superseded
  · rw [superseded]
    exact archived
  · exact named
  · exact phase

theorem replacement_ne_archive : l.replacement ≠ l.archive := (archive_ne_child _).symm

theorem rename_named {w : World} {p q : Place}
    (named : ∀ x, w.scratch = some x → ∃ pid sequence, x = l.dir.child (temporaryName pid sequence)) :
    ∀ x, (w.rename p q).scratch = some x → ∃ pid sequence, x = l.dir.child (temporaryName pid sequence) :=
  fun x mine => named x (release_scratch _ p x mine).2

theorem archiving_phase {w : World} (settled : Settled l original staged w) (n : Node)
    (there : w.nodes l.source = some n) (free : w.nodes l.archive = none) :
    ∃ phase : Phase, phase.At l original staged (w.rename l.source l.archive) := by
  have source := rename_source w l.source l.archive n there free
  have archive := rename_target w l.source l.archive
  have staging : (w.rename l.source l.archive).nodes l.staged = w.nodes l.staged :=
    rename_other w _ _ _ (fun impossible => by cases impossible) (fun impossible => by cases impossible)
  have replacement : l.source ≠ l.replacement →
      (w.rename l.source l.archive).nodes l.replacement = w.nodes l.replacement :=
    fun apart => rename_other w _ _ _ apart.symm replacement_ne_archive
  obtain ⟨phase, holds⟩ := settled.phase
  cases phase with
  | initial =>
    obtain ⟨original_there, _, absent, staged_there⟩ := holds
    refine ⟨.archivedOnly, source, archive.trans original_there, ?_, staging.trans staged_there⟩
    by_cases same : l.source = l.replacement
    · rw [← same]
      exact source
    · exact (replacement same).trans (absent same)
  | archivedOnly =>
    rw [holds.1] at there
    cases there
  | complete =>
    rw [holds.2.1] at free
    cases free
  | restored =>
    obtain ⟨apart, original_there, _, installed, left⟩ := holds
    refine ⟨.complete, fun _ => source, archive.trans original_there, (replacement apart).trans installed, ?_⟩
    rw [staging]
    exact left

theorem restoring_phase {w : World} (settled : Settled l original staged w) (n : Node)
    (there : w.nodes l.archive = some n) (free : w.nodes l.source = none) :
    ∃ phase : Phase, phase.At l original staged (w.rename l.archive l.source) := by
  have archive := rename_source w l.archive l.source n there free
  have source := rename_target w l.archive l.source
  have staging : (w.rename l.archive l.source).nodes l.staged = w.nodes l.staged :=
    rename_other w _ _ _ (fun impossible => by cases impossible) (fun impossible => by cases impossible)
  have replacement : l.source ≠ l.replacement →
      (w.rename l.archive l.source).nodes l.replacement = w.nodes l.replacement :=
    fun apart => rename_other w _ _ _ replacement_ne_archive apart.symm
  obtain ⟨phase, holds⟩ := settled.phase
  cases phase with
  | initial =>
    rw [holds.2.1] at there
    cases there
  | archivedOnly =>
    obtain ⟨_, original_there, absent, staged_there⟩ := holds
    exact ⟨.initial, source.trans original_there, archive, fun apart => (replacement apart).trans absent,
      staging.trans staged_there⟩
  | complete =>
    obtain ⟨_, original_there, installed, left⟩ := holds
    have apart : l.source ≠ l.replacement := by
      intro same
      rw [same, installed] at free
      cases free
    refine ⟨.restored, apart, source.trans original_there, archive, (replacement apart).trans installed, ?_⟩
    rw [staging]
    exact left
  | restored =>
    rw [holds.2.2.1] at there
    cases there

theorem installing_phase {w : World} (settled : Settled l original staged w) (temporary : Place) (f : File)
    (unwatched : ¬Watched l temporary) (there : w.nodes temporary = some (.file f))
    (copied : w.nodes l.staged = some (.file f)) (free : w.nodes l.replacement = none) :
    ∃ phase : Phase, phase.At l original staged (w.rename temporary l.replacement) := by
  have replacement := rename_target w temporary l.replacement
  have watched : ∀ p, Watched l p → p ≠ temporary := by
    rintro p seen rfl
    exact unwatched seen
  have archive : (w.rename temporary l.replacement).nodes l.archive = w.nodes l.archive :=
    rename_other w _ _ _ (watched _ (Or.inr (Or.inr (Or.inr (Or.inr (Or.inl rfl))))))
      replacement_ne_archive.symm
  have staging : (w.rename temporary l.replacement).nodes l.staged = w.nodes l.staged :=
    rename_other w _ _ _ (watched _ (Or.inr (Or.inr (Or.inr (Or.inr (Or.inr (Or.inr rfl)))))))
      (fun impossible => by cases impossible)
  have source : l.source ≠ l.replacement →
      (w.rename temporary l.replacement).nodes l.source = w.nodes l.source :=
    fun apart => rename_other w _ _ _ (watched _ (Or.inr (Or.inr (Or.inr (Or.inl rfl))))) apart
  obtain ⟨phase, holds⟩ := settled.phase
  cases phase with
  | initial =>
    obtain ⟨original_there, absent, _, staged_there⟩ := holds
    have apart : l.source ≠ l.replacement := by
      intro same
      rw [← same, original_there] at free
      cases free
    rw [copied] at staged_there
    cases staged_there
    exact ⟨.restored, apart, (source apart).trans original_there, archive.trans absent,
      replacement.trans there, Or.inr (staging.trans copied)⟩
  | archivedOnly =>
    obtain ⟨absent, original_there, _, staged_there⟩ := holds
    rw [copied] at staged_there
    cases staged_there
    exact ⟨.complete, fun apart => (source apart).trans absent, archive.trans original_there,
      replacement.trans there, Or.inr (staging.trans copied)⟩
  | complete =>
    rw [holds.2.2.1] at free
    cases free
  | restored =>
    rw [holds.2.2.2.1] at free
    cases free

theorem discarding_phase {w : World} (settled : Settled l original staged w) (n m : Node)
    (archived : w.nodes l.archive = some n) (installed : w.nodes l.replacement = some m) :
    ∃ phase : Phase, phase.At l original staged (w.unlink l.staged) := by
  have library : ∀ p : Place, p.root = .library → (w.unlink l.staged).nodes p = w.nodes p :=
    fun p library => unlink_other w l.staged p (fun same => by rw [same] at library; cases library)
  obtain ⟨phase, holds⟩ := settled.phase
  cases phase with
  | initial =>
    rw [holds.2.1] at archived
    cases archived
  | archivedOnly =>
    rw [holds.2.2.1] at installed
    cases installed
  | complete =>
    obtain ⟨absent, original_there, there, _⟩ := holds
    exact ⟨.complete, fun apart => (library l.source rfl).trans (absent apart),
      (library l.archive rfl).trans original_there, (library l.replacement rfl).trans there,
      Or.inl (unlink_self w l.staged)⟩
  | restored =>
    rw [holds.2.2.1] at archived
    cases archived

/-- Whatever a permitted call does, the files are in a phase again. -/
theorem effect_settled {w w' : World} (effect : Effect a l w w') (parsed : Parsed a l)
    (untemporary : ∀ pid sequence, l.sourceLeaf ≠ temporaryName pid sequence)
    (settled : Settled l original staged w) : Settled l original staged w' := by
  have away : ∀ temporary, (∃ pid sequence, temporary = l.dir.child (temporaryName pid sequence)) →
      ∀ p, Watched l p → p ≠ temporary := by
    rintro temporary ⟨pid, sequence, rfl⟩ p seen rfl
    exact temporary_unwatched parsed pid sequence untemporary seen
  cases effect with
  | nothing => exact settled
  | makes start within some_ free =>
    have superseded : (⟨.library, start⟩ : Place) = l.superseded := by
      rcases List.prefix_concat_iff.mp within with rfl | shorter
      · rfl
      · rw [settled.parents start shorter] at free
        cases free
    rw [superseded]
    constructor
    · rw [set_other w _ _ _ (fun impossible => by cases impossible)]
      exact settled.staging
    · intro start' within'
      have other : (⟨.library, start'⟩ : Place) ≠ l.superseded :=
        (child_ne_start l.dir "superseded" start' .library within').symm
      rw [set_other w _ _ _ other]
      exact settled.parents start' within'
    · exact Or.inr (set_self w _ _)
    · exact fun _ _ => set_self w _ _
    · exact settled.scratch
    · obtain ⟨phase, holds⟩ := settled.phase
      refine ⟨phase, ?_⟩
      have elsewhere : ∀ p, p ≠ l.superseded → (w.set l.superseded (some .directory)).nodes p = w.nodes p :=
        fun p other => set_other w _ _ _ other
      unfold Phase.At
      rw [elsewhere l.source (child_ne_child l.dir _ _ parsed.source_superseded),
        elsewhere l.archive (archive_ne_child _),
        elsewhere l.replacement (child_ne_child l.dir _ _ parsed.replacement_superseded),
        elsewhere l.staged (fun impossible => by cases impossible)]
      exact holds
  | creates pid sequence now free =>
    apply settled.frame
    · exact fun p seen => set_other w _ _ _ (away _ ⟨pid, sequence, rfl⟩ p seen)
    · intro p mine
      exact ⟨pid, sequence, (Option.some.inj mine).symm⟩
  | writes p f mine =>
    apply settled.frame
    · exact fun x seen => set_other w _ _ _ (away p (settled.scratch p mine) x seen)
    · exact settled.scratch
  | renames p q n allowed there free =>
    have kept : ∀ x, x ≠ p → x ≠ q → (w.rename p q).nodes x = w.nodes x := rename_other w p q
    rcases allowed with ⟨rfl, rfl, made⟩ | ⟨rfl, rfl⟩ | ⟨rfl, mine, f, copy, copied, _⟩
    · exact settled.change parsed (fun x source archive _ _ _ => kept x source archive)
        (rename_named settled.scratch) (fun _ _ => made) (archiving_phase settled n there free)
    · exact settled.change parsed (fun x source archive _ _ _ => kept x archive source)
        (rename_named settled.scratch) (fun _ _ => settled.archived n there)
        (restoring_phase settled n there free)
    · have named := settled.scratch p mine
      have unwatched : ¬Watched l p := fun seen => away p named p seen rfl
      have archive : (w.rename p l.replacement).nodes l.archive = w.nodes l.archive :=
        kept _ (away p named _ (Or.inr (Or.inr (Or.inr (Or.inr (Or.inl rfl))))))
          replacement_ne_archive.symm
      exact settled.change parsed (fun x _ _ replacement _ seen => kept x (away p named x seen) replacement)
        (rename_named settled.scratch) (fun m found => settled.archived m (archive.symm.trans found))
        (installing_phase settled p f unwatched copy copied free)
  | unlinks p allowed =>
    have named : ∀ x, (w.unlink p).scratch = some x →
        ∃ pid sequence, x = l.dir.child (temporaryName pid sequence) :=
      fun x mine => settled.scratch x (release_scratch _ p x mine).2
    rcases allowed with mine | ⟨rfl, ⟨n, archived⟩, m, installed⟩
    · exact settled.frame (fun x seen => unlink_other w p x (away p (settled.scratch p mine) x seen)) named
    · exact settled.change parsed (fun x _ _ _ staging _ => unlink_other w _ x staging) named
        (fun _ _ => settled.archived n archived) (discarding_phase settled n m archived installed)

end Phases

end NixHomeServer.MediaManager
