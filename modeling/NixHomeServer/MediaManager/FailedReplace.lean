import NixHomeServer.MediaManager.Rollback
import NixHomeServer.MediaManager.ReplaceRuns

/-! When a failed replacement put everything back: from every state of the files, whichever
calls failed. -/
namespace NixHomeServer.MediaManager

open NixHomeServer.Library

variable {config : Config} {username : String} {a : ReplaceArtworkAction} {l : Layout} {w : World}

section Quiet

def Tracked (l : Layout) (p : Place) : Prop :=
  p = l.source ∨ p = l.archive ∨ p = l.replacement ∨ p = l.staged ∨
    ∃ pid sequence, p = temporaryPlace l pid sequence

/-- So far nothing was moved: at most a new temporary file is there that was not there before. -/
structure Quiet (a : ReplaceArtworkAction) (l : Layout) (w : World) (extra : Option Place)
    (s : Observed) : Prop where
  agree : ∀ p, Tracked l p → extra ≠ some p → s.world.nodes p = w.nodes p
  fresh : ∀ p, extra = some p → w.nodes p = none ∧ ∃ pid sequence, p = temporaryPlace l pid sequence
  cleared : Cleared l s.log
  unreturned : ¬GivenBack l s.log
  spared : AtHome a l w → Spared a l s.log

theorem Quiet.begin (w : World) : Quiet a l w none ⟨w, []⟩ where
  agree _ _ _ := rfl
  fresh _ impossible := by cases impossible
  cleared _ impossible := by cases impossible
  unreturned := by
    rintro ⟨_, impossible, _⟩
    cases impossible
  spared _ _ impossible := by cases impossible

variable {extra : Option Place} {s : Observed}

theorem Quiet.archived (quiet : Quiet a l w extra s) : s.world.nodes l.archive = w.nodes l.archive := by
  apply quiet.agree _ (Or.inr (Or.inl rfl))
  intro same
  obtain ⟨_, pid, sequence, named⟩ := quiet.fresh _ same
  exact archive_ne_child _ named

theorem Quiet.replaced (quiet : Quiet a l w extra s) (parsed : Parsed a l) :
    s.world.nodes l.replacement = w.nodes l.replacement := by
  apply quiet.agree _ (Or.inr (Or.inr (Or.inl rfl)))
  intro same
  obtain ⟨_, pid, sequence, named⟩ := quiet.fresh _ same
  exact child_ne_child l.dir _ _ (parsed.replacement_named pid sequence) named

theorem Quiet.copied (quiet : Quiet a l w extra s) : s.world.nodes l.staged = w.nodes l.staged := by
  apply quiet.agree _ (Or.inr (Or.inr (Or.inr (Or.inl rfl))))
  intro same
  obtain ⟨_, pid, sequence, named⟩ := quiet.fresh _ same
  cases named

theorem Quiet.home (quiet : Quiet a l w extra s) (home : AtHome a l w) : AtHome a l s.world := by
  obtain ⟨⟨f, there, same⟩, free⟩ := home
  refine ⟨⟨f, ?_, same⟩, quiet.archived.trans free⟩
  rw [← there]
  apply quiet.agree _ (Or.inl rfl)
  intro same
  rw [(quiet.fresh _ same).1] at there
  cases there

/-- A call that removes no temporary file and gives nothing back keeps the quiet. -/
theorem Quiet.snoc (quiet : Quiet a l w extra s) {extra' : Option Place} {w' : World} {op : Op} {c : Choice}
    (agree : ∀ p, Tracked l p → extra' ≠ some p → w'.nodes p = w.nodes p)
    (fresh : ∀ p, extra' = some p →
      w.nodes p = none ∧ ∃ pid sequence, p = temporaryPlace l pid sequence)
    (idle : c.refuses → ∀ pid sequence, op ≠ .unlink (temporaryPlace l pid sequence))
    (stays : op = .rename l.archive l.source → c.refuses) :
    Quiet a l w extra' ⟨w', s.log ++ [⟨s.world, op, c⟩]⟩ where
  agree := agree
  fresh := fresh
  cleared := quiet.cleared.snoc idle
  unreturned back := quiet.unreturned (back.of_snoc stays)
  spared home := (quiet.spared home).snoc fun _ => Or.inl (quiet.home home)

theorem Quiet.lasting : Lasting (Quiet a l w extra) := by
  intro s op c looks quiet
  apply quiet.snoc quiet.agree quiet.fresh
  · rintro _ pid sequence rfl
    cases looks
  · rintro rfl
    cases looks

variable {p : Place}

/-- Writing to the temporary file. -/
theorem Quiet.write (quiet : Quiet a l w (some p) s) {node : Option Node} {op : Op} {c : Choice}
    (other : (∀ q, op ≠ .unlink q) ∧ ∀ q r, op ≠ .rename q r) :
    Quiet a l w (some p) ⟨s.world.set p node, s.log ++ [⟨s.world, op, c⟩]⟩ := by
  apply quiet.snoc _ quiet.fresh
  · exact fun _ _ _ => other.1 _
  · exact fun impossible => absurd impossible (other.2 _ _)
  · intro q tracked apart
    have different : q ≠ p := fun same => apart (same ▸ rfl)
    exact (set_other s.world p q _ different).trans (quiet.agree q tracked apart)

/-- A temporary copy stays whose removal was refused. -/
def Littered (a : ReplaceArtworkAction) (l : Layout) (w : World) (s : Observed) : Prop :=
  ¬Cleared l s.log ∧ ¬Restored a l w s.world

theorem Littered.lasting : Lasting (Littered a l w) :=
  fun _ _ _ _ littered => ⟨fun cleared => littered.1 cleared.of_snoc, littered.2⟩

end Quiet

section Verdicts

variable {s : Observed} {p : Place}

/-- Whether a failed replacement was undone is told by the calls that were made. -/
def Judged (a : ReplaceArtworkAction) (l : Layout) (w : World) (s : Observed) : Prop :=
  Restored a l w s.world ↔ Recoverable a l w s.log

/-- What a result has to meet. -/
def Verdict (a : ReplaceArtworkAction) (l : Layout) (w : World) (r : Except BrokerError Unit)
    (s : Observed) : Prop :=
  ∀ e, r = .error e → ¬RollbackFailed e → Judged a l w s

theorem Quiet.judged (quiet : Quiet a l w none s) (parsed : Parsed a l) : Judged a l w s := by
  have source := quiet.agree l.source (Or.inl rfl) nofun
  constructor
  · intro restored
    obtain ⟨f, same, _, there⟩ := restored.source
    have home : AtHome a l w :=
      ⟨⟨f, source.symm.trans there, same⟩, quiet.archived.symm.trans restored.archive⟩
    refine ⟨quiet.cleared, ?_, Or.inl ⟨home, quiet.spared home⟩⟩
    rintro ⟨apart, g, found, fingerprint⟩
    exact restored.uninstalled ⟨apart, g, (quiet.replaced parsed).trans found, fingerprint⟩
  · intro recoverable
    rcases recoverable.original with ⟨⟨⟨f, there, same⟩, free⟩, _⟩ | back
    · refine ⟨⟨f, same, Or.inl there, source.trans there⟩, quiet.archived.trans free, ?_, ?_⟩
      · rintro ⟨apart, g, found, fingerprint⟩
        exact recoverable.uninstalled ⟨apart, g, (quiet.replaced parsed).symm.trans found, fingerprint⟩
      · intro pid sequence _ n found
        exact (quiet.agree _ (Or.inr (Or.inr (Or.inr (Or.inr ⟨pid, sequence, rfl⟩)))) nofun).symm.trans found
    · exact absurd back quiet.unreturned

theorem Littered.judged (littered : Littered a l w s) : Judged a l w s :=
  ⟨fun restored => absurd restored littered.2, fun recoverable => absurd recoverable.cleared littered.1⟩

/-- Something other than a rename was refused while the archive path was taken. -/
def Strayed (l : Layout) (log : List (Made Op World Choice)) : Prop :=
  ∃ made ∈ log, made.choice.refuses ∧ made.world.nodes l.archive ≠ none ∧ ∀ p q, made.op ≠ .rename p q

theorem Strayed.not_spared {log : List (Made Op World Choice)} (strayed : Strayed l log) :
    ¬Spared a l log := by
  obtain ⟨made, member, refused, taken, other⟩ := strayed
  intro spared
  rcases spared made member refused with home | ⟨pid, sequence, same⟩
  · exact taken home.2
  · exact other _ _ same

theorem LookRefused.strayed {log : List (Made Op World Choice)} {u : World} (refused : LookRefused u log)
    (taken : u.nodes l.archive ≠ none) : Strayed l log := by
  obtain ⟨made, member, refuses, rfl, looks⟩ := refused
  refine ⟨made, member, refuses, taken, ?_⟩
  intro p q same
  rw [same] at looks
  cases looks

/-- The original is in the archive, and not because a call was refused at home. -/
theorem away_judged (taken : s.world.nodes l.archive ≠ none) (unreturned : ¬GivenBack l s.log)
    (strayed : AtHome a l w → Strayed l s.log) : Judged a l w s := by
  constructor
  · exact fun restored => absurd restored.archive taken
  · intro recoverable
    rcases recoverable.original with ⟨home, spared⟩ | back
    · exact absurd spared (strayed home).not_spared
    · exact absurd back unreturned

/-- The original was given back and everything else is as it was. -/
structure Mended (a : ReplaceArtworkAction) (l : Layout) (w : World) (s : Observed) : Prop where
  restored : Restored a l w s.world
  cleared : Cleared l s.log
  uninstalled : ¬Installed a l w
  back : GivenBack l s.log

theorem Mended.judged (mended : Mended a l w s) : Judged a l w s :=
  ⟨fun _ => ⟨mended.cleared, mended.uninstalled, Or.inr mended.back⟩, fun _ => mended.restored⟩

theorem Mended.lasting : Lasting (Mended a l w) := by
  intro s op c looks mended
  refine ⟨mended.restored, mended.cleared.snoc ?_, mended.uninstalled, mended.back.snoc⟩
  rintro _ pid sequence rfl
  cases looks

/-- Right before the installation: the original is in the archive, the copy is complete. -/
structure Poised (a : ReplaceArtworkAction) (l : Layout) (w : World) (p : Place) (s : Observed) : Prop where
  original : ∃ f, fingerprintFromStat f = a.expectedSource ∧
    (w.nodes l.source = some (.file f) ∨ w.nodes l.archive = some (.file f)) ∧
    s.world.nodes l.archive = some (.file f)
  away : p ≠ l.source → s.world.nodes l.source = none
  free : s.world.nodes l.replacement = none
  absent : w.nodes p = none
  named : ∃ pid sequence, p = temporaryPlace l pid sequence
  copy : ∃ g, s.world.nodes p = some (.file g) ∧ s.world.nodes l.staged = some (.file g)
  others : ∀ pid sequence, temporaryPlace l pid sequence ≠ p → temporaryPlace l pid sequence ≠ l.source →
    s.world.nodes (temporaryPlace l pid sequence) = w.nodes (temporaryPlace l pid sequence)
  uninstalled : ¬Installed a l w
  cleared : Cleared l s.log
  unreturned : ¬GivenBack l s.log

theorem Poised.taken (poised : Poised a l w p s) : s.world.nodes l.archive ≠ none := by
  obtain ⟨f, _, _, there⟩ := poised.original
  rw [there]
  nofun

theorem temporary_ne_archive (pid sequence : Nat) : temporaryPlace l pid sequence ≠ l.archive :=
  (archive_ne_child _).symm

/-- An installation that fails leaves what it found. -/
theorem Poised.refused (poised : Poised a l w p s) (c : Choice) :
    Poised a l w p ⟨s.world, s.log ++ [⟨s.world, .rename p l.replacement, c⟩]⟩ := by
  obtain ⟨pid, sequence, named⟩ := poised.named
  refine { poised with cleared := poised.cleared.snoc nofun, unreturned := ?_ }
  intro back
  apply poised.unreturned (back.of_snoc _)
  intro same
  rw [named] at same
  exact absurd (Op.rename.inj same).1 (temporary_ne_archive pid sequence)

end Verdicts

section Installing

variable {s : Observed} {p : Place} {o : Opened}

/-- The original is in the archive and nothing gave it back. -/
structure Placed (l : Layout) (s : Observed) : Prop where
  taken : s.world.nodes l.archive ≠ none
  unreturned : ¬GivenBack l s.log

theorem Placed.lasting : Lasting (Placed l) := by
  intro s op c looks placed
  refine ⟨placed.taken, fun back => placed.unreturned (back.of_snoc ?_)⟩
  rintro rfl
  cases looks

theorem Placed.judged {u : World} (placed : Placed l s) (refused : LookRefused u s.log)
    (taken : u.nodes l.archive ≠ none) : Judged a l w s :=
  away_judged placed.taken placed.unreturned fun _ => refused.strayed taken

end Installing

section Replacing

variable {s : Observed} {p : Place} {o : Opened}

theorem Poised.lasting : Lasting (Poised a l w p) := by
  intro s op c looks poised
  refine { poised with cleared := poised.cleared.snoc ?_, unreturned := ?_ }
  · rintro _ pid sequence rfl
    cases looks
  · intro back
    apply poised.unreturned (back.of_snoc _)
    rintro rfl
    cases looks

/-- Whether a place may take the replacement. -/
def Vacant (l : Layout) (w : World) : Prop := l.replacement = l.source ∨ w.nodes l.replacement = none

theorem Vacant.uninstalled (vacant : Vacant l w) : ¬Installed a l w := by
  rintro ⟨apart, f, there, _⟩
  rcases vacant with same | free
  · exact apart same
  · rw [free] at there
    cases there

/-- An installed replacement stays beside the original that was given back. -/
def Doubled (a : ReplaceArtworkAction) (l : Layout) (w : World) (s : Observed) : Prop :=
  Installed a l w ∧ Installed a l s.world

theorem Doubled.lasting : Lasting (Doubled a l w) := fun _ _ _ _ doubled => doubled

theorem Doubled.judged (doubled : Doubled a l w s) : Judged a l w s :=
  ⟨fun restored => absurd doubled.2 restored.uninstalled,
    fun recoverable => absurd doubled.1 recoverable.uninstalled⟩

end Replacing

section Executions

variable {s : Observed}

/-- The directories that the broker makes are at none of the places of a replacement. -/
theorem tracked_ne_start (parsed : Parsed a l) {p : Place} (tracked : Tracked l p) (start : List String)
    (within : start <+: l.parent ++ ["superseded"]) : p ≠ ⟨.library, start⟩ := by
  have child : ∀ leaf, leaf ≠ "superseded" → l.dir.child leaf ≠ ⟨.library, start⟩ := by
    intro leaf other
    rcases List.prefix_concat_iff.mp within with rfl | above
    · exact child_ne_child l.dir leaf "superseded" other
    · exact child_ne_start l.dir leaf start .library above
  rcases tracked with rfl | rfl | rfl | rfl | ⟨pid, sequence, rfl⟩
  · exact child _ parsed.source_superseded
  · exact child_ne_start l.superseded _ start .library within
  · exact child _ parsed.replacement_superseded
  · nofun
  · exact child _ (temporaryName_superseded pid sequence)

theorem Quiet.makeDirectory (quiet : Quiet a l w none s) (parsed : Parsed a l) (start : List String)
    (within : start <+: l.parent ++ ["superseded"]) (c : Choice) :
    Quiet a l w none ⟨(perform c s.world (.makeDirectory ⟨.library, start⟩)).1,
      s.log ++ [⟨s.world, .makeDirectory ⟨.library, start⟩, c⟩]⟩ := by
  refine quiet.snoc ?_ quiet.fresh nofun nofun
  intro p tracked apart
  rw [← quiet.agree p tracked apart]
  rcases perform_eq c s.world (.makeDirectory ⟨.library, start⟩) (by simp) with same | ⟨_, text, same⟩
  · rw [same]
    simp only [answer]
    split
    · exact set_other s.world _ p _ (tracked_ne_start parsed tracked start within)
    · rfl
  · rw [same]

theorem Describes.none {node : Option Node} {fingerprint : Option String} (described : Describes node fingerprint)
    (nothing : fingerprint.isNone = true) : node = .none := by
  rcases described with ⟨absent, _⟩ | ⟨f, _, rfl⟩
  · exact absent
  · cases nothing

theorem Describes.some {node : Option Node} {fingerprint : String}
    (described : Describes node (.some fingerprint)) :
    ∃ f, node = .some (.file f) ∧ fingerprintFromStat f = fingerprint := by
  rcases described with ⟨_, impossible⟩ | ⟨f, there, same⟩
  · cases impossible
  · exact ⟨f, there, (Option.some.inj same).symm⟩

end Executions

section Samples

theorem RollbackFailed.length {e : BrokerError} (failed : RollbackFailed e) : 78 ≤ e.message.length := by
  obtain ⟨install, rollback, same⟩ := failed
  have between : "; the original remains preserved at the archive path because rollback failed: ".length = 78 := by
    decide
  rw [same, String.length_append, String.length_append, between]
  omega

end Samples

end NixHomeServer.MediaManager
