import NixHomeServer.MediaManager.Completion

/-! What the helpers of the broker leave behind when any of their calls may fail, in terms
of the calls that were made: a failed replacement that put everything back, and one that did not. -/
namespace NixHomeServer.MediaManager

open NixHomeServer.Library

abbrev Observed := Logged Op World Choice

/-- Nobody else is there, any call may fail, and the calls are logged. -/
def observed : Setting Op Reply Observed Choice where
  perform := Logged.perform perform
  possible _ := True
  rely := Eq
  permitted _ _ := True
  refl _ := rfl
  trans first second := first.trans second

section Aftermath

variable (a : ReplaceArtworkAction) (l : Layout)

def temporaryPlace (pid sequence : Nat) : Place := l.dir.child (temporaryName pid sequence)

/-- The original is at its source path and the archive path is free. -/
def AtHome (w : World) : Prop :=
  (∃ f, w.nodes l.source = some (.file f) ∧ fingerprintFromStat f = a.expectedSource) ∧
    w.nodes l.archive = none

def Installed (w : World) : Prop :=
  l.replacement ≠ l.source ∧
    ∃ f, w.nodes l.replacement = some (.file f) ∧ fingerprintFromStat f = a.expectedReplacement

/-- The original is back, the archive path is free, nothing of the replacement is
installed, and the library directory has no temporary copy that it did not have before. -/
structure Restored (w w' : World) : Prop where
  source : ∃ f, fingerprintFromStat f = a.expectedSource ∧
    (w.nodes l.source = some (.file f) ∨ w.nodes l.archive = some (.file f)) ∧
    w'.nodes l.source = some (.file f)
  archive : w'.nodes l.archive = none
  uninstalled : ¬Installed a l w'
  cleared : ∀ pid sequence, temporaryPlace l pid sequence ≠ l.source →
    ∀ n, w'.nodes (temporaryPlace l pid sequence) = some n →
      w.nodes (temporaryPlace l pid sequence) = some n

def Choice.refuses (c : Choice) : Prop := c.fault ≠ none

/-- No removal of a temporary copy was refused. -/
def Cleared (log : List (Made Op World Choice)) : Prop :=
  ∀ made ∈ log, made.choice.refuses → ∀ pid sequence, made.op ≠ .unlink (temporaryPlace l pid sequence)

/-- No call was refused while the original was away, the installation apart. -/
def Spared (log : List (Made Op World Choice)) : Prop :=
  ∀ made ∈ log, made.choice.refuses → AtHome a l made.world ∨
    ∃ pid sequence, made.op = .rename (temporaryPlace l pid sequence) l.replacement

/-- The broker got as far as moving the archived original back, and was not refused that. -/
def GivenBack (log : List (Made Op World Choice)) : Prop :=
  ∃ made ∈ log, made.op = .rename l.archive l.source ∧ ¬made.choice.refuses

structure Recoverable (w : World) (log : List (Made Op World Choice)) : Prop where
  cleared : Cleared l log
  uninstalled : ¬Installed a l w
  original : AtHome a l w ∧ Spared a l log ∨ GivenBack l log

/-- The error that says that the rename back failed. -/
def RollbackFailed (e : BrokerError) : Prop :=
  ∃ install rollback : String, e.message = install ++
    "; the original remains preserved at the archive path because rollback failed: " ++ rollback

end Aftermath

section Logs

variable {a : ReplaceArtworkAction} {l : Layout} {log : List (Made Op World Choice)}
  {made : Made Op World Choice}

theorem Cleared.snoc (cleared : Cleared l log)
    (last : made.choice.refuses → ∀ pid sequence, made.op ≠ .unlink (temporaryPlace l pid sequence)) :
    Cleared l (log ++ [made]) := by
  intro m member
  rcases List.mem_append.mp member with earlier | now
  · exact cleared m earlier
  · rw [List.mem_singleton.mp now]
    exact last

theorem Cleared.of_snoc (cleared : Cleared l (log ++ [made])) : Cleared l log :=
  fun m member => cleared m (List.mem_append_left _ member)

theorem Spared.snoc (spared : Spared a l log)
    (last : made.choice.refuses → AtHome a l made.world ∨
      ∃ pid sequence, made.op = .rename (temporaryPlace l pid sequence) l.replacement) :
    Spared a l (log ++ [made]) := by
  intro m member
  rcases List.mem_append.mp member with earlier | now
  · exact spared m earlier
  · rw [List.mem_singleton.mp now]
    exact last

theorem GivenBack.snoc (back : GivenBack l log) : GivenBack l (log ++ [made]) := by
  obtain ⟨m, member, same⟩ := back
  exact ⟨m, List.mem_append_left _ member, same⟩

theorem GivenBack.of_snoc (back : GivenBack l (log ++ [made]))
    (other : made.op = .rename l.archive l.source → made.choice.refuses) : GivenBack l log := by
  obtain ⟨m, member, same, granted⟩ := back
  rcases List.mem_append.mp member with earlier | now
  · exact ⟨m, earlier, same, granted⟩
  · cases List.mem_singleton.mp now
    exact absurd (other same) granted

end Logs

section Observing

variable {α β : Type} {s : Observed}

/-- What calls that only look do not change. -/
def Lasting (holds : Observed → Prop) : Prop :=
  ∀ s op c, op.looks = true → holds s → holds ⟨s.world, s.log ++ [⟨s.world, op, c⟩]⟩

theorem Lasting.at {holds : Observed → Prop} (lasting : Lasting holds) (w : World) :
    Lasting fun s => holds s ∧ s.world = w :=
  fun s op c looks met => ⟨lasting s op c looks met.1, met.2⟩

end Observing

section Looking

variable {s : Observed} {holds : Observed → Prop}

/-- A look at a world was refused. -/
def LookRefused (w : World) (log : List (Made Op World Choice)) : Prop :=
  ∃ made ∈ log, made.choice.refuses ∧ made.world = w ∧ made.op.looks = true

theorem LookRefused.last {w : World} {log : List (Made Op World Choice)} {op : Op} {c : Choice}
    (looks : op.looks = true) (refused : c.refuses) : LookRefused w (log ++ [⟨w, op, c⟩]) :=
  ⟨⟨w, op, c⟩, List.mem_append_right _ (List.mem_singleton_self _), refused, rfl, looks⟩

/-- What a stat of the node says of its file. -/
def Describes (node : Option Node) (fingerprint : Option String) : Prop :=
  node = none ∧ fingerprint = none ∨
    ∃ f, node = some (.file f) ∧ fingerprint = some (fingerprintFromStat f)

variable (lasting : Lasting holds) (met : holds s)

include lasting met

end Looking

end NixHomeServer.MediaManager
