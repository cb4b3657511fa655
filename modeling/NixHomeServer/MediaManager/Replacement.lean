import NixHomeServer.MediaManager.Calls

/-! No step of a replacement loses a file: which calls the broker makes of a validated
action, whatever fails and whoever else creates files, and what follows from that. -/
namespace NixHomeServer.MediaManager

open NixHomeServer.Library

/-- The places of a replacement below its root. -/
structure Layout where
  parent : List String
  sourceLeaf : String
  archiveLeaf : String
  replacementLeaf : String
  staging : String

namespace Layout

def dir (l : Layout) : Place := ⟨.library, l.parent⟩

def superseded (l : Layout) : Place := l.dir.child "superseded"

def source (l : Layout) : Place := l.dir.child l.sourceLeaf

def archive (l : Layout) : Place := l.superseded.child l.archiveLeaf

def replacement (l : Layout) : Place := l.dir.child l.replacementLeaf

def staged (l : Layout) : Place := stagedPlace l.staging

end Layout

/-- What validation establishes of the paths of an action. -/
structure Parsed (a : ReplaceArtworkAction) (l : Layout) : Prop where
  source : safeParentAndLeaf a.sourceRelativePath = .ok (l.parent, l.sourceLeaf)
  archive : safeParentAndLeaf a.archivedRelativePath = .ok (l.parent ++ ["superseded"], l.archiveLeaf)
  replacement : safeParentAndLeaf a.replacementRelativePath = .ok (l.parent, l.replacementLeaf)
  staging : l.staging = a.stagingFilename
  dotted : (extension l.sourceLeaf).isSome = true
  installed : (∃ e ∈ imageExtensions, hasSuffix l.replacementLeaf e = true) ∨
    ∃ e ∈ ["nfo", "opf", "epub", "cbz"], extension l.replacementLeaf = some e

section Validated

theorem bind_ok {α β : Type} {x : Except BrokerError α} {f : α → Except BrokerError β} {b : β}
    (h : (x >>= f) = .ok b) : ∃ a, x = .ok a ∧ f a = .ok b := by
  cases x with
  | error e => cases h
  | ok a => exact ⟨a, rfl, h⟩

theorem require_ok {condition : Bool} {message : String} {u : Unit}
    (h : require condition message = .ok u) : condition = true := by
  unfold require at h
  split at h
  · assumption
  · cases h

theorem validateReplaceMetadata_parsed {categories : List LibraryCategory} {extensions : List String}
    {unsupported misplaced moved mismatch : String} {config : Config} {username : String}
    {a : ReplaceArtworkAction} (known : ∀ e ∈ extensions, e ∈ ["nfo", "opf", "epub", "cbz"])
    (valid : validateReplaceMetadata categories extensions unsupported misplaced moved mismatch config
      username a = .ok ()) : ∃ l, Parsed a l := by
  obtain ⟨_, _, valid⟩ := bind_ok valid
  obtain ⟨category, _, valid⟩ := bind_ok valid
  obtain ⟨_, _, valid⟩ := bind_ok valid
  obtain ⟨source, source_ok, valid⟩ := bind_ok valid
  obtain ⟨archive, archive_ok, valid⟩ := bind_ok valid
  obtain ⟨replacement, replacement_ok, valid⟩ := bind_ok valid
  obtain ⟨_, placed, valid⟩ := bind_ok valid
  obtain ⟨_, _, valid⟩ := bind_ok valid
  have placed := require_ok placed
  have named := require_ok valid
  simp only [Bool.and_eq_true, beq_iff_eq, List.any_eq_true] at placed named
  obtain ⟨⟨same, _⟩, e, member, ending⟩ := named
  refine ⟨⟨source.1, source.2, archive.2, replacement.2, a.stagingFilename⟩, source_ok, ?_, ?_, rfl, ?_, ?_⟩
  · rw [archive_ok, ← placed.1]
  · rw [replacement_ok, ← placed.2]
  · rw [ending]
    rfl
  · exact Or.inr ⟨e, known e member, same.symm.trans ending⟩

theorem validateReplaceArtwork_parsed {config : Config} {username : String} {a : ReplaceArtworkAction}
    (valid : validateReplaceArtworkAction config username a = .ok ()) : ∃ l, Parsed a l := by
  obtain ⟨_, _, valid⟩ := bind_ok valid
  obtain ⟨category, _, valid⟩ := bind_ok valid
  obtain ⟨_, _, valid⟩ := bind_ok valid
  obtain ⟨source, source_ok, valid⟩ := bind_ok valid
  obtain ⟨archive, archive_ok, valid⟩ := bind_ok valid
  obtain ⟨replacement, replacement_ok, valid⟩ := bind_ok valid
  obtain ⟨_, placed, valid⟩ := bind_ok valid
  obtain ⟨_, _, valid⟩ := bind_ok valid
  obtain ⟨_, dotted, valid⟩ := bind_ok valid
  have placed := require_ok placed
  have named := require_ok valid
  simp only [Bool.and_eq_true, beq_iff_eq, List.any_eq_true] at placed named
  refine ⟨⟨source.1, source.2, archive.2, replacement.2, a.stagingFilename⟩, source_ok, ?_, ?_, rfl,
    require_ok dotted, Or.inl named⟩
  · rw [archive_ok, ← placed.1]
  · rw [replacement_ok, ← placed.2]

/-- A validated action has its places beside the source and in the superseded child. -/
theorem validate_parsed {kind : ReplaceKind} {config : Config} {username : String}
    {a : ReplaceArtworkAction} (valid : kind.validate config username a = .ok ()) : ∃ l, Parsed a l := by
  cases kind with
  | metadataSidecar => exact validateReplaceMetadata_parsed (by decide) valid
  | embeddedMetadata => exact validateReplaceMetadata_parsed (by decide) valid
  | artwork => exact validateReplaceArtwork_parsed valid

end Validated

section Effects

/-- The calls the broker may make of a replacement, and in which worlds. -/
def Permitted (a : ReplaceArtworkAction) (l : Layout) (w : World) : Op → Prop
  | .rename p q => (p = l.source ∧ q = l.archive ∧ w.nodes l.superseded = some .directory) ∨
      (p = l.archive ∧ q = l.source) ∨ (q = l.replacement ∧ w.scratch = some p ∧ ∃ f, w.nodes p = some (.file f) ∧
        w.nodes l.staged = some (.file f) ∧ fingerprintFromStat f = a.expectedReplacement)
  | .unlink p => w.scratch = some p ∨
      (p = l.staged ∧ (∃ n, w.nodes l.archive = some n) ∧ ∃ n, w.nodes l.replacement = some n)
  | .append p _ => w.scratch = some p
  | .setTimes p _ => w.scratch = some p
  | .createExclusive p => ∃ pid sequence, p = l.dir.child (temporaryName pid sequence)
  | .makeDirectory p => ∃ start, start <+: l.parent ++ ["superseded"] ∧ start ≠ [] ∧ p = ⟨.library, start⟩
  | _ => True

theorem permitted_looks (a : ReplaceArtworkAction) (l : Layout) (w : World) (op : Op)
    (looks : op.looks = true) : Permitted a l w op := by
  cases op <;> first | exact trivial | cases looks

variable {a : ReplaceArtworkAction} {l : Layout}

/-- What a permitted call does to the world. -/
inductive Effect (a : ReplaceArtworkAction) (l : Layout) (w : World) : World → Prop
  | nothing : Effect a l w w
  | makes (start : List String) (within : start <+: l.parent ++ ["superseded"]) (some_ : start ≠ [])
      (free : w.nodes ⟨.library, start⟩ = none) :
      Effect a l w (w.set ⟨.library, start⟩ (some .directory))
  | creates (pid sequence : Nat) (now : Int)
      (free : w.nodes (l.dir.child (temporaryName pid sequence)) = none) :
      Effect a l w { w.set (l.dir.child (temporaryName pid sequence)) (some (.file ⟨[], now⟩)) with
        scratch := some (l.dir.child (temporaryName pid sequence)) }
  | writes (p : Place) (f : File) (mine : w.scratch = some p) : Effect a l w (w.set p (some (.file f)))
  | renames (p q : Place) (n : Node) (allowed : Permitted a l w (.rename p q))
      (there : w.nodes p = some n) (free : w.nodes q = none) : Effect a l w (w.rename p q)
  | unlinks (p : Place) (allowed : Permitted a l w (.unlink p)) : Effect a l w (w.unlink p)

theorem torn_effect (w : World) (now : Int) (p : Place) (block : Bytes) (mine : w.scratch = some p) :
    Effect a l w (torn w now p block) := by
  unfold torn
  split
  · exact .writes p _ mine
  · exact .nothing

theorem answer_effect (now : Int) (w : World) (op : Op) (allowed : Permitted a l w op) :
    Effect a l w (answer now w op).1 := by
  cases op with
  | openRoot | openDirectory | stat | openFile | read =>
    simp only [answer]
    split <;> exact .nothing
  | syncFile | syncDirectory => exact .nothing
  | makeDirectory p =>
    obtain ⟨start, within, some_, rfl⟩ := allowed
    simp only [answer]
    split
    · rename_i free
      exact .makes start within some_ free
    · exact .nothing
  | createExclusive p =>
    obtain ⟨pid, sequence, rfl⟩ := allowed
    rcases answer_create now w (l.dir.child (temporaryName pid sequence)) with ⟨same, _⟩ | ⟨same, free⟩
    · rw [same]
      exact .nothing
    · rw [same]
      exact .creates pid sequence now free
  | append p block => exact torn_effect w now p block allowed
  | setTimes p modified =>
    simp only [answer]
    split
    · exact .writes p _ allowed
    · exact .nothing
  | rename p q =>
    rcases answer_rename now w p q with ⟨same, _⟩ | ⟨same, _⟩ | ⟨same, free, n, there⟩
    · rw [same]
      exact .nothing
    · rw [same]
      exact .nothing
    · rw [same]
      exact .renames p q n allowed there free
  | unlink p =>
    rcases answer_unlink now w p with ⟨e, same⟩ | same
    · rw [same]
      exact .nothing
    · rw [same]
      exact .unlinks p allowed

theorem perform_effect (c : Choice) (w : World) (op : Op) (allowed : Permitted a l w op) :
    Effect a l w (perform c w op).1 := by
  unfold perform
  split
  · exact answer_effect c.now w op allowed
  · split
    · exact torn_effect w c.now _ _ allowed
    · exact .nothing

theorem set_self (w : World) (p : Place) (node : Option Node) : (w.set p node).nodes p = node := by
  simp only [World.set, ↓reduceIte]

theorem set_other (w : World) (p q : Place) (node : Option Node) (other : q ≠ p) :
    (w.set p node).nodes q = w.nodes q := by
  simp only [World.set, other, ↓reduceIte]

theorem rename_target (w : World) (p q : Place) : (w.rename p q).nodes q = w.nodes p := by
  simp only [World.rename, World.release, World.set, ↓reduceIte]

theorem rename_source (w : World) (p q : Place) (n : Node) (there : w.nodes p = some n)
    (free : w.nodes q = none) : (w.rename p q).nodes p = none := by
  have other : p ≠ q := by
    intro same
    rw [same, free] at there
    cases there
  simp only [World.rename, World.release, World.set, other, ↓reduceIte]

theorem rename_other (w : World) (p q x : Place) (here : x ≠ p) (there : x ≠ q) :
    (w.rename p q).nodes x = w.nodes x := by
  simp only [World.rename, World.release, World.set, here, there, ↓reduceIte]

theorem rename_scratch (w : World) (p q : Place) :
    (w.rename p q).scratch = if w.scratch = some p then none else w.scratch := rfl

theorem unlink_self (w : World) (p : Place) : (w.unlink p).nodes p = none := by
  simp only [World.unlink, World.release, World.set, ↓reduceIte]

theorem unlink_other (w : World) (p x : Place) (other : x ≠ p) : (w.unlink p).nodes x = w.nodes x := by
  simp only [World.unlink, World.release, World.set, other, ↓reduceIte]

/-- A library file other than the broker's own stays, or moves to a free place. -/
theorem effect_loses_nothing {w w' : World} (effect : Effect a l w w') (x : Place) (n : Node)
    (library : x.root = .library) (other : w.scratch ≠ some x) (there : w.nodes x = some n) :
    w'.nodes x = some n ∨ ∃ q, w.nodes q = none ∧ w'.nodes q = some n := by
  cases effect with
  | nothing => exact Or.inl there
  | makes start within some_ free => exact Or.inl ((set_free_grows w _ _ free).keeps x n there)
  | creates pid sequence now free => exact Or.inl ((set_free_grows w _ _ free).keeps x n there)
  | writes p f mine =>
    left
    rw [set_other w p x _ (fun same => other (same ▸ mine))]
    exact there
  | renames p q m allowed source free =>
    by_cases moved : x = p
    · cases moved
      exact Or.inr ⟨q, free, (rename_target w x q).trans there⟩
    · left
      have apart : x ≠ q := by
        intro same
        rw [same, free] at there
        cases there
      rw [rename_other w p q x moved apart]
      exact there
  | unlinks p allowed =>
    left
    rw [unlink_other w p x]
    · exact there
    · rintro rfl
      rcases allowed with mine | ⟨rfl, _⟩
      · exact other mine
      · cases library

/-- The broker's temporary file is there. -/
def Held (w : World) : Prop := ∀ p, w.scratch = some p → ∃ n, w.nodes p = some n

theorem Held.grows {w w' : World} (held : Held w) (grown : Interference w w') : Held w' := by
  intro p mine
  rw [grown.scratch] at mine
  obtain ⟨n, there⟩ := held p mine
  exact ⟨n, grown.keeps p n there⟩

theorem release_scratch (w : World) (p x : Place) (mine : (w.release p).scratch = some x) :
    x ≠ p ∧ w.scratch = some x := by
  simp only [World.release] at mine
  split at mine
  · cases mine
  · rename_i other
    refine ⟨?_, mine⟩
    rintro rfl
    exact other mine

theorem effect_held {w w' : World} (effect : Effect a l w w') (held : Held w) : Held w' := by
  cases effect with
  | nothing => exact held
  | makes start within some_ free => exact held.grows (set_free_grows w _ _ free)
  | creates pid sequence now free =>
    intro x mine
    cases mine
    exact ⟨_, set_self w _ _⟩
  | writes p f mine =>
    intro x mine'
    obtain rfl : p = x := Option.some.inj (mine.symm.trans mine')
    exact ⟨_, set_self w p _⟩
  | renames p q m allowed source free =>
    intro x mine
    obtain ⟨other, mine⟩ := release_scratch _ p x mine
    obtain ⟨n, there⟩ := held x mine
    refine ⟨n, (rename_other w p q x other ?_).trans there⟩
    rintro rfl
    rw [free] at there
    cases there
  | unlinks p allowed =>
    intro x mine
    obtain ⟨other, mine⟩ := release_scratch _ p x mine
    obtain ⟨n, there⟩ := held x mine
    exact ⟨n, (unlink_other w p x other).trans there⟩

/-- The original is at one of its two places, and not as the broker's temporary file. -/
def Kept (l : Layout) (original : Node) (w : World) : Prop :=
  ∃ p, (p = l.source ∨ p = l.archive) ∧ w.nodes p = some original ∧ w.scratch ≠ some p

theorem Kept.grows {original : Node} {w w' : World} (kept : Kept l original w) (grown : Interference w w') :
    Kept l original w' := by
  obtain ⟨p, place, there, other⟩ := kept
  refine ⟨p, place, grown.keeps p _ there, ?_⟩
  rw [grown.scratch]
  exact other

theorem effect_kept {original : Node} {w w' : World} (effect : Effect a l w w') (held : Held w)
    (kept : Kept l original w) : Kept l original w' := by
  obtain ⟨x, place, there, other⟩ := kept
  cases effect with
  | nothing => exact ⟨x, place, there, other⟩
  | makes start within some_ free =>
    exact ⟨x, place, (set_free_grows w _ _ free).keeps x _ there, other⟩
  | creates pid sequence now free =>
    refine ⟨x, place, (set_free_grows w _ _ free).keeps x _ there, ?_⟩
    intro same
    cases same
    rw [free] at there
    cases there
  | writes p f mine =>
    refine ⟨x, place, ?_, other⟩
    rw [set_other w p x _ (fun same => other (same ▸ mine))]
    exact there
  | renames p q m allowed source free =>
    have apart : x ≠ q := by
      intro same
      rw [same, free] at there
      cases there
    by_cases moved : x = p
    · cases moved
      have target : q = l.source ∨ q = l.archive := by
        rcases allowed with ⟨_, same, _⟩ | ⟨_, same⟩ | ⟨_, mine, _⟩
        · exact Or.inr same
        · exact Or.inl same
        · exact absurd mine other
      refine ⟨q, target, (rename_target w x q).trans there, ?_⟩
      rw [rename_scratch, if_neg other]
      intro mine
      obtain ⟨_, taken⟩ := held q mine
      rw [free] at taken
      cases taken
    · refine ⟨x, place, (rename_other w p q x moved apart).trans there, ?_⟩
      rw [rename_scratch]
      split
      · exact fun impossible => by cases impossible
      · exact other
  | unlinks p allowed =>
    have apart : x ≠ p := by
      rintro rfl
      rcases allowed with mine | ⟨rfl, _⟩
      · exact other mine
      · rcases place with same | same <;> cases same
    refine ⟨x, place, (unlink_other w p x apart).trans there, ?_⟩
    simp only [World.unlink, World.release]
    split
    · exact fun impossible => by cases impossible
    · exact other

end Effects

section Programs

variable {config : Config} {username : String} {a : ReplaceArtworkAction} {l : Layout}

/-- The files that tell a completed replacement. -/
def Replaced (a : ReplaceArtworkAction) (l : Layout) (w : World) : Prop :=
  (∃ f, w.nodes l.archive = some (.file f) ∧ fingerprintFromStat f = a.expectedSource) ∧
    ∃ f, w.nodes l.replacement = some (.file f) ∧ fingerprintFromStat f = a.expectedReplacement

theorem Replaced.grows {w w' : World} (replaced : Replaced a l w) (grown : Interference w w') :
    Replaced a l w' := by
  obtain ⟨⟨f, there, same⟩, g, installed, equal⟩ := replaced
  exact ⟨⟨f, grown.keeps _ _ there, same⟩, g, grown.keeps _ _ installed, equal⟩

theorem Replaced.unlink_staged {w : World} (replaced : Replaced a l w) :
    Replaced a l (w.unlink l.staged) := by
  obtain ⟨⟨f, there, same⟩, g, installed, equal⟩ := replaced
  refine ⟨⟨f, ?_, same⟩, g, ?_, equal⟩
  · rw [unlink_other w l.staged l.archive (fun impossible => by cases impossible)]
    exact there
  · rw [unlink_other w l.staged l.replacement (fun impossible => by cases impossible)]
    exact installed

theorem Replaced.permits {w : World} (replaced : Replaced a l w) :
    Permitted a l w (.unlink l.staged) := by
  obtain ⟨⟨f, there, _⟩, g, installed, _⟩ := replaced
  exact Or.inr ⟨rfl, ⟨_, there⟩, _, installed⟩

/-- Removing the staged file of a completed replacement. -/
theorem unlinkStaged_shared (w : World) (replaced : Replaced a l w) :
    Prog.Safe (shared (Permitted a l)) (Prog.onOk fun _ w' => Replaced a l w')
      (unlinkRegularAt l.staged).run w := by
  apply (unlinkRegularAt_shared (permitted_looks a l) l.staged w
    (fun w' moved => (replaced.grows moved).permits)).mono
  intro r w' met u same
  obtain ⟨before, grown, removed⟩ := met u same
  exact ((replaced.grows grown).unlink_staged).grows removed

theorem syncReplaced_shared (dir : Place) (w : World) (replaced : Replaced a l w) :
    Prog.Safe (shared (Permitted a l)) (Prog.onOk fun _ w' => Replaced a l w')
      (syncDirectory dir).run w := by
  apply (syncDirectory_shared (permitted_looks a l) dir w).mono
  exact fun r w' met u same => replaced.grows (met u same)

/-- A replacement is recovered only where the archive and the replacement are in place. -/
theorem recoverReplacedFile_shared (parsed : Parsed a l) (w : World) :
    Prog.Safe (shared (Permitted a l)) (Prog.onOk fun r w' => r = true → Replaced a l w')
      (recoverReplacedFile config username a).run w := by
  have looks := permitted_looks a l
  have unfinished : ∀ w', Prog.Safe (shared (Permitted a l))
      (Prog.onOk fun r w' => r = true → Replaced a l w') (pure false : Broker Bool).run w' :=
    fun w' => shared_pure _ _ fun _ _ impossible => by cases impossible
  unfold recoverReplacedFile
  rw [parsed.archive, parsed.replacement]
  apply shared_ofOk
  intro category _
  apply shared_bind (openRoot_shared looks .library w)
  rintro _ w₁ ⟨rfl, _⟩
  apply shared_bind (shared_attempt (openDirectoryChain_shared looks false (l.parent ++ ["superseded"])
    ⟨.library, []⟩ w₁ (fun impossible => by cases impossible)))
  rintro (e | archiveDir) w₂ met
  · exact unfinished w₂
  · obtain ⟨rfl, _⟩ := met archiveDir rfl
    apply shared_bind (openDirectoryChain_shared looks false l.parent ⟨.library, []⟩ w₂
      (fun impossible => by cases impossible))
    rintro _ w₃ ⟨rfl, _⟩
    apply shared_bind (fingerprintOptionalAt_shared looks l.archive w₃)
    rintro archived w₄ ⟨_, archived_there⟩
    split
    · exact unfinished w₄
    · rename_i archived_same
      apply shared_bind (fingerprintOptionalAt_shared looks l.replacement w₄)
      rintro replacement w₅ ⟨grown₅, replacement_there⟩
      split
      · exact unfinished w₅
      · rename_i replacement_same
        obtain ⟨f, there, equal⟩ := archived_there _ (Decidable.not_not.mp archived_same)
        have replaced : Replaced a l w₅ := ⟨⟨f, grown₅.keeps _ _ there, equal⟩,
          replacement_there _ (Decidable.not_not.mp replacement_same)⟩
        apply shared_bind (openRoot_shared looks .staging w₅)
        rintro _ w₆ ⟨rfl, grown₆⟩
        have staged : (Place.mk .staging []).child a.stagingFilename = l.staged := by
          rw [Layout.staged, parsed.staging]
          rfl
        rw [staged]
        apply shared_bind (fingerprintOptionalAt_shared looks l.staged w₆)
        rintro found w₇ ⟨grown₇, _⟩
        have replaced₇ := (replaced.grows grown₆).grows grown₇
        cases found with
        | none => exact shared_pure _ _ fun u further _ => replaced₇.grows further
        | some fingerprint =>
          simp only
          split
          · apply shared_bind (unlinkStaged_shared w₇ replaced₇)
            intro _ w₈ replaced₈
            apply shared_bind (syncReplaced_shared _ w₈ replaced₈)
            exact fun _ w₉ replaced₉ => shared_pure _ _ fun u further _ => replaced₉.grows further
          · exact shared_fail _ w₇

/-- A finished copy of the staged file, still the broker's. -/
structure Copied (a : ReplaceArtworkAction) (l : Layout) (temporary : Place) (w : World) : Prop where
  mine : w.scratch = some temporary
  named : ∃ pid sequence, temporary = l.dir.child (temporaryName pid sequence)
  copy : ∃ f, w.nodes temporary = some (.file f) ∧ w.nodes l.staged = some (.file f) ∧
    fingerprintFromStat f = a.expectedReplacement

theorem Copied.grows {temporary : Place} {w w' : World} (copied : Copied a l temporary w)
    (grown : Interference w w') : Copied a l temporary w' := by
  obtain ⟨f, there, staged, equal⟩ := copied.copy
  exact ⟨grown.scratch.trans copied.mine, copied.named, f, grown.keeps _ _ there, grown.keeps _ _ staged, equal⟩

theorem prepareStagedCopy_shared (parsed : Parsed a l) (blocks : Blocks) (pid sequence : Nat) (w : World) :
    Prog.Safe (shared (Permitted a l))
      (Prog.onOk fun r w' => r.1 = ⟨.staging, []⟩ ∧ w.nodes r.2 = none ∧ Copied a l r.2 w' ∧
        ∀ p n, w.nodes p = some n → w'.nodes p = some n)
      (prepareStagedCopy a blocks pid sequence l.dir).run w := by
  have looks := permitted_looks a l
  unfold prepareStagedCopy
  apply shared_bind (openRoot_shared looks .staging w)
  rintro _ w₁ ⟨rfl, grown₁⟩
  have staged : (Place.mk .staging []).child a.stagingFilename = l.staged := by
    rw [Layout.staged, parsed.staging]
    rfl
  rw [staged]
  apply shared_bind (openRegularAt_shared looks l.staged w₁)
  intro _ w₂ grown₂
  apply shared_bind (fileStat_shared looks l.staged w₂)
  rintro source w₃ ⟨grown₃, staged_there⟩
  split
  · exact shared_fail _ w₃
  · rename_i same
    have equal := Decidable.not_not.mp same
    apply shared_bind (createTemporaryFile_shared l.dir pid 16 sequence w₃
      (fun _ sequence => ⟨pid, sequence, rfl⟩))
    rintro temporary w₄ ⟨⟨k, named⟩, free, mine, ⟨now, created⟩, kept⟩
    apply shared_bind (shared_attempt (copyStaged_shared looks blocks l.staged temporary source w₄ now
      created mine (kept _ _ staged_there) (fun _ _ allowed => allowed) (fun _ _ allowed => allowed)))
    rintro r w₅ ⟨written, copied⟩
    have mine₅ := written.scratch.trans mine
    cases r with
    | error e =>
      apply shared_bind (unlinkAtIfPresent_shared temporary w₅
        (fun w' moved => Or.inl (moved.scratch.trans mine₅)))
      exact fun _ u _ => shared_throw e u
    | ok _ =>
      apply shared_pure
      intro u further
      have apart : l.staged ≠ temporary := by
        rintro rfl
        cases named
      have staged₅ := written.keeps _ _ apart (kept _ _ staged_there)
      have grown := (grown₁.trans grown₂).trans grown₃
      have other : ∀ p n, w.nodes p = some n → p ≠ temporary := by
        rintro p n there rfl
        rw [grown.keeps p n there] at free
        cases free
      have absent : w.nodes temporary = none := by
        cases before : w.nodes temporary with
        | none => rfl
        | some n => exact absurd rfl (other temporary n before)
      refine ⟨rfl, absent, ⟨further.scratch.trans mine₅, ⟨pid, k, named⟩, source,
        further.keeps _ _ (copied rfl), further.keeps _ _ staged₅, equal⟩, ?_⟩
      exact fun p n there =>
        further.keeps p n (written.keeps p n (other p n there) (kept p n (grown.keeps p n there)))

/-- The opened directories are those of the layout. -/
def Opens (l : Layout) (o : Opened) : Prop :=
  o.sourceDir = l.dir ∧ o.replacementDir = l.dir ∧ o.archiveDir = l.superseded ∧
    o.source = l.source ∧ o.archive = l.archive ∧ o.replacement = l.replacement

theorem openParents_shared (parsed : Parsed a l) (w : World) :
    Prog.Safe (shared (Permitted a l)) (Prog.onOk fun o w' => Opens l o ∧ w'.nodes l.superseded = some .directory)
      (openParents config username a).run w := by
  have looks := permitted_looks a l
  unfold openParents
  rw [parsed.source, parsed.archive, parsed.replacement]
  apply shared_ofOk
  intro category _
  apply shared_bind (openRoot_shared looks .library w)
  rintro _ w₁ ⟨rfl, _⟩
  apply shared_bind (openDirectoryChain_shared looks false l.parent ⟨.library, []⟩ w₁
    (fun impossible => by cases impossible))
  rintro _ w₂ ⟨rfl, _⟩
  apply shared_bind (openDirectoryChain_shared looks true (l.parent ++ ["superseded"]) ⟨.library, []⟩ w₂
    (fun _ start _ within some_ => ⟨start, within, some_, rfl⟩))
  rintro _ w₃ ⟨rfl, _, seen⟩
  apply shared_bind (openDirectoryChain_shared looks false l.parent ⟨.library, []⟩ w₃
    (fun impossible => by cases impossible))
  rintro _ w₄ ⟨rfl, grown, _⟩
  have superseded := grown.keeps _ _ (seen (by simp))
  exact shared_pure _ w₄ fun _ further => ⟨⟨rfl, rfl, rfl, rfl, rfl, rfl⟩, further.keeps _ _ superseded⟩

variable {o : Opened}

theorem restoreAfterConflict_shared (opens : Opens l o) (conflict : Bool) (w : World) :
    Prog.Safe (shared (Permitted a l)) (Prog.onOk fun _ _ => True)
      (restoreAfterConflict o conflict).run w := by
  have looks := permitted_looks a l
  obtain ⟨_, _, _, source, archive, _⟩ := opens
  unfold restoreAfterConflict
  split
  · apply shared_bind (shared_attempt (renameNoreplace_shared o.archive o.source _ w
      (fun w' _ => Or.inr (Or.inl ⟨archive, source⟩))))
    intro r w₁ _
    cases r with
    | error e => exact shared_pure _ w₁ fun _ _ => trivial
    | ok _ =>
      apply shared_bind (syncDirectory_shared looks o.archiveDir w₁)
      intro _ w₂ _
      apply (syncDirectory_shared looks o.sourceDir w₂).mono
      exact fun _ _ _ _ _ => trivial
  · exact shared_pure _ w fun _ _ => trivial

/-- A rename between the two paths of the original leaves the copy alone. -/
theorem Copied.rename {temporary p q : Place} {w : World} (copied : Copied a l temporary w)
    (library : p.root = .library) (library' : q.root = .library) (other : temporary ≠ p)
    (free : w.nodes q = none) : Copied a l temporary (w.rename p q) := by
  obtain ⟨f, there, staged, equal⟩ := copied.copy
  have apart : temporary ≠ q := by
    rintro rfl
    rw [free] at there
    cases there
  refine ⟨?_, copied.named, f, (rename_other w p q temporary other apart).trans there, ?_, equal⟩
  · rw [rename_scratch, copied.mine, if_neg (fun same => other (Option.some.inj same))]
  · rw [rename_other w p q l.staged (fun same => by rw [← same] at library; cases library)
      (fun same => by rw [← same] at library'; cases library')]
    exact staged

/-- Archiving moves what the source path held to the archive path. -/
theorem archiveCurrent_shared (opens : Opens l o) (temporary : Place) (f : File) (w : World)
    (copied : Copied a l temporary w) (there : w.nodes l.source = some (.file f))
    (other : temporary ≠ l.source) (superseded : w.nodes l.superseded = some .directory) :
    Prog.Safe (shared (Permitted a l))
      (Prog.onOk fun _ w' => Copied a l temporary w' ∧ w'.nodes l.archive = some (.file f))
      (archiveCurrent o temporary).run w := by
  have looks := permitted_looks a l
  obtain ⟨_, _, _, source, archive, _⟩ := opens
  unfold archiveCurrent
  rw [source, archive]
  apply shared_bind (shared_attempt (renameNoreplace_shared l.source l.archive _ w
    (fun w' moved => Or.inl ⟨rfl, rfl, moved.keeps _ _ superseded⟩)))
  rintro r w₁ (⟨e, rfl, grown⟩ | ⟨n, before, rfl, grown, there', free, after⟩)
  · apply shared_bind (unlinkAtIfPresent_shared temporary w₁
      (fun w' moved => Or.inl ((moved.scratch.trans grown.scratch).trans copied.mine)))
    exact fun _ u _ => shared_throw e u
  · have moved : (before.rename l.source l.archive).nodes l.archive = some (.file f) :=
      (rename_target before l.source l.archive).trans (grown.keeps _ _ there)
    have copied₁ := ((copied.grows grown).rename rfl rfl other free).grows after
    apply shared_bind (syncDirectory_shared looks o.sourceDir w₁)
    intro _ w₂ grown₂
    apply (syncDirectory_shared looks o.archiveDir w₂).mono
    intro r w₃ met u same
    have grown₃ := grown₂.trans (met u same)
    exact ⟨copied₁.grows grown₃, grown₃.keeps _ _ (after.keeps _ _ moved)⟩

theorem installReplacement_shared (parsed : Parsed a l) (opens : Opens l o) (temporary : Place) (f : File)
    (w : World) (copied : Copied a l temporary w) (there : w.nodes l.archive = some (.file f))
    (same : fingerprintFromStat f = a.expectedSource) :
    Prog.Safe (shared (Permitted a l)) (Prog.onOk fun _ w' => Replaced a l w')
      (installReplacement a o ⟨.staging, []⟩ temporary).run w := by
  have looks := permitted_looks a l
  obtain ⟨_, _, _, source, archive, replacement⟩ := opens
  unfold installReplacement
  rw [source, archive, replacement]
  apply shared_bind (shared_attempt (renameNoreplace_shared temporary l.replacement _ w ?_))
  · rintro r w₁ (⟨e, rfl, grown⟩ | ⟨n, before, rfl, grown, there', free, after⟩)
    · apply shared_bind (unlinkAtIfPresent_shared temporary w₁
        (fun w' moved => Or.inl ((moved.scratch.trans grown.scratch).trans copied.mine)))
      intro _ w₂ _
      apply shared_bind (shared_attempt (renameNoreplace_shared l.archive l.source _ w₂
        (fun w' _ => Or.inr (Or.inl ⟨rfl, rfl⟩))))
      intro r' w₃ _
      cases r' with
      | error e' => exact shared_fail _ w₃
      | ok _ =>
        apply shared_bind (syncDirectory_shared looks o.archiveDir w₃)
        intro _ w₄ _
        apply shared_bind (syncDirectory_shared looks o.sourceDir w₄)
        exact fun _ w₅ _ => shared_throw e w₅
    · obtain ⟨g, copy, _, equal⟩ := (copied.grows grown).copy
      have replaced : Replaced a l (before.rename temporary l.replacement) := by
        obtain ⟨pid, sequence, named⟩ := copied.named
        have kept := grown.keeps _ _ there
        refine ⟨⟨f, ?_, same⟩, g, (rename_target before temporary l.replacement).trans copy, equal⟩
        rw [rename_other before temporary l.replacement l.archive]
        · exact kept
        · rintro apart
          rw [named] at apart
          have sizes := congrArg (fun p : Place => p.path.length) apart
          simp only [Layout.archive, Layout.superseded, Layout.dir, Place.child, List.length_append,
            List.length_cons, List.length_nil] at sizes
          omega
        · rintro apart
          rw [← apart, kept] at free
          cases free
      have replaced₁ := replaced.grows after
      apply shared_bind (syncReplaced_shared o.replacementDir w₁ replaced₁)
      intro _ w₂ replaced₂
      have staged : (Place.mk .staging []).child a.stagingFilename = l.staged := by
        rw [Layout.staged, parsed.staging]
        rfl
      rw [staged]
      apply shared_bind (unlinkStaged_shared w₂ replaced₂)
      intro _ w₃ replaced₃
      exact syncReplaced_shared _ w₃ replaced₃
  · intro w' moved
    have still := copied.grows moved
    exact Or.inr (Or.inr ⟨rfl, still.mine, still.copy⟩)

theorem applyReplaceFile_shared (parsed : Parsed a l) (blocks : Blocks) (pid sequence : Nat) (w : World) :
    Prog.Safe (shared (Permitted a l)) (Prog.onOk fun _ w' => Replaced a l w')
      (applyReplaceFile config username a blocks pid sequence).run w := by
  have looks := permitted_looks a l
  unfold applyReplaceFile
  apply shared_bind (recoverReplacedFile_shared parsed w)
  intro recovered w₁ replaced
  cases recovered with
  | true => exact shared_pure _ w₁ fun u further => (replaced rfl).grows further
  | false =>
    apply shared_bind (openParents_shared parsed w₁)
    rintro o w₂ ⟨opens, superseded⟩
    have ⟨_, dir, _, source_at, archive_at, replacement_at⟩ := opens
    simp only [source_at, archive_at, replacement_at]
    apply shared_bind (fingerprintOptionalAt_shared looks l.source w₂)
    rintro source w₃ ⟨grown₃, source_there⟩
    apply shared_bind (fingerprintOptionalAt_shared looks l.archive w₃)
    rintro archived w₄ ⟨grown₄, archived_there⟩
    apply shared_bind (fingerprintOptionalAt_shared looks l.replacement w₄)
    rintro replacement w₅ ⟨grown₅, _⟩
    split
    · apply shared_bind (restoreAfterConflict_shared opens _ w₅)
      exact fun _ u _ => shared_fail _ u
    · rename_i ready
      rw [dir]
      apply shared_bind (prepareStagedCopy_shared parsed blocks pid sequence w₅)
      rintro ⟨staging, temporary⟩ w₆ ⟨rfl, free, copied, kept⟩
      simp only
      split
      · rename_i initial
        simp only [Bool.and_eq_true, decide_eq_true_eq] at initial
        obtain ⟨f, there, same⟩ := source_there _ initial.1.1
        have there₅ := grown₅.keeps _ _ (grown₄.keeps _ _ there)
        have other : temporary ≠ l.source := by
          rintro rfl
          rw [free] at there₅
          cases there₅
        have superseded₅ := grown₅.keeps _ _ (grown₄.keeps _ _ (grown₃.keeps _ _ superseded))
        apply shared_bind (archiveCurrent_shared opens temporary f w₆ copied (kept _ _ there₅) other
          (kept _ _ superseded₅))
        rintro _ w₇ ⟨copied₇, there₇⟩
        exact installReplacement_shared parsed opens temporary f w₇ copied₇ there₇ same
      · rename_i initial
        have archivedOnly : archived = some a.expectedSource := by
          simp only [Bool.not_eq_true] at initial
          simp only [initial, Bool.not_false, Bool.true_and, Bool.not_eq_eq_eq_not, Bool.not_true,
            Bool.not_eq_false, Bool.and_eq_true, decide_eq_true_eq] at ready
          exact ready.1.2
        obtain ⟨f, there, same⟩ := archived_there _ archivedOnly
        exact installReplacement_shared parsed opens temporary f w₆ copied
          (kept _ _ (grown₅.keeps _ _ there)) same

/-- An execution makes permitted calls only, and succeeds only where the replacement is in place. -/
theorem executeReplace_shared (parsed : Parsed a l) (blocks : Blocks) (kind : ReplaceKind)
    (pid sequence : Nat) (w : World) :
    Prog.Safe (shared (Permitted a l)) (Prog.onOk fun _ w' => Replaced a l w')
      (executeReplace config username a blocks pid sequence kind).run w := by
  unfold executeReplace
  apply shared_ofOk
  intro _ _
  apply shared_bind (recoverReplacedFile_shared parsed w)
  intro recovered w₁ replaced
  cases recovered with
  | true => exact shared_pure _ w₁ fun u further => (replaced rfl).grows further
  | false =>
    apply shared_ofOk
    intro _ _
    apply shared_bind (applyReplaceFile_shared parsed blocks pid sequence w₁)
    exact fun _ w₂ replaced₂ => shared_pure _ w₂ fun u further => replaced₂.grows further

end Programs

end NixHomeServer.MediaManager
