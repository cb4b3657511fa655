import NixHomeServer.Browsertrix.Revisits

/-! What a revisit becomes, where its target lies in its own archive and where it lies
in a dependency. -/
namespace NixHomeServer.Browsertrix.Engine

open NixHomeServer.Library

section lookup

variable {record v t r : Record} {records starting : List Record} {found : Option Record} {indices : List Nat}

theorem matches_resolved (matched : revisitMatches record r = .returns true) :
    r.resolved = true ∧ named record r = true := by
  unfold revisitMatches at matched
  split at matched
  case isFalse => cases matched
  case isTrue resolved =>
    obtain ⟨same, -, done⟩ := Checked.bind_eq_returns.mp matched
    injection done with all
    rw [Bool.and_eq_true, Bool.and_eq_true] at all
    exact ⟨resolved, all.1.2⟩

/-- The records that match lie at these places only. -/
def MatchesOnly (record : Record) (records : List Record) (places : Nat → Prop) : Prop :=
  ∀ (i : Nat) r, records[i]? = some r → revisitMatches record r = .returns true → places i

theorem onlyMatch_cons {i : Nat} {rest : List Nat} {result : Option Record}
    (done : RecordLookup.onlyMatch record records found (i :: rest) = .returns result) :
    ∃ r, records[i]? = some r ∧
      ((revisitMatches record r = .returns false ∧ RecordLookup.onlyMatch record records found rest = .returns result) ∨
        (revisitMatches record r = .returns true ∧ (found.isSome = true ∧ result = none ∨
          found = none ∧ RecordLookup.onlyMatch record records (some r) rest = .returns result))) := by
  obtain ⟨r, there, done⟩ := Checked.bind_eq_returns.mp done
  obtain ⟨matched, told, done⟩ := Checked.bind_eq_returns.mp done
  refine ⟨r, Checked.unwrap_eq_returns.mp there, ?_⟩
  cases matched with
  | false => exact .inl ⟨told, done⟩
  | true =>
    cases found with
    | none => exact .inr ⟨told, .inr ⟨rfl, done⟩⟩
    | some first =>
      cases done
      exact .inr ⟨told, .inl ⟨rfl, rfl⟩⟩

/-- A search finds a match. -/
theorem onlyMatch_sound {target : Record}
    (done : RecordLookup.onlyMatch record records found indices = .returns (some target)) :
    found = some target ∨ ∃ i : Nat, records[i]? = some target ∧ revisitMatches record target = .returns true := by
  induction indices generalizing found with
  | nil =>
    cases done
    exact .inl rfl
  | cons i rest ih =>
    obtain ⟨r, there, ⟨-, later⟩ | ⟨matched, ⟨-, none⟩ | ⟨-, later⟩⟩⟩ := onlyMatch_cons done
    · exact ih later
    · cases none
    · cases ih later with
      | inl same =>
        cases same
        exact .inr ⟨i, there, matched⟩
      | inr found => exact .inr found

/-- The records still have the headers under which they were listed. -/
def SameHeaders (starting records : List Record) : Prop :=
  List.Forall₂ (fun before after => after.headers = before.headers) starting records

theorem SameHeaders.keyed {i : Nat} (same : SameHeaders starting records) (there : records[i]? = some r) :
    ∃ before, starting[i]? = some before ∧ r.headers = before.headers := by
  obtain ⟨short, rfl⟩ := List.getElem?_eq_some_iff.mp there
  have short' : i < starting.length := same.length_eq ▸ short
  exact ⟨starting[i], List.getElem?_eq_getElem short', same.get short' short⟩

theorem find_sound {work left : Nat} {target : Record} (lookup : RecordLookup)
    (done : lookup.find record records work = .returns (some target, left)) :
    ∃ i : Nat, records[i]? = some target ∧ revisitMatches record target = .returns true := by
  unfold RecordLookup.find at done
  split at done
  · cases done
  · obtain ⟨-, -, done⟩ := Checked.bind_eq_returns.mp done
    obtain ⟨found, searched, done⟩ := Checked.bind_eq_returns.mp done
    cases done
    exact (onlyMatch_sound searched).resolve_left nofun

end lookup

section resolution

variable {v t r : Record} {records after starting loaded : List Record} {s s' : Resolving}

/-- A revisit that looks for its target among the records at hand. -/
structure Open (v : Record) : Prop where
  revisit : v.kind = "revisit".toList
  unresolved : v.resolved = false
  free : v.field "warc-x-dependency-sha256" = []

/-- What becomes of a record: a revisit may take its target's content, once. -/
def Settles (r r' : Record) : Prop := r' = r ∨ (r.resolved = false ∧ ∃ target, r' = r.takeLocal target)

theorem Settles.trans {a b c : Record} (first : Settles a b) (second : Settles b c) : Settles a c := by
  rcases first with rfl | ⟨unresolved, target, rfl⟩
  · exact second
  · rcases second with rfl | ⟨resolved, -⟩
    · exact .inr ⟨unresolved, target, rfl⟩
    · cases resolved

theorem Settles.of_resolved {r r' : Record} (settles : Settles r r') (resolved : r.resolved = true) : r' = r := by
  rcases settles with same | ⟨unresolved, -⟩
  · exact same
  · rw [resolved] at unresolved
    cases unresolved

def Advances (records after : List Record) : Prop := List.Forall₂ Settles records after

theorem Advances.refl (records : List Record) : Advances records records :=
  List.forall₂_same.mpr fun _ _ => .inl rfl

theorem Advances.trans (first : Advances records after) (second : Advances after loaded) : Advances records loaded := by
  induction first generalizing loaded with
  | nil => exact second
  | cons head _ ih =>
    cases second with
    | cons next others => exact .cons (head.trans next) (ih others)

theorem Advances.at {i : Nat} (advances : Advances records after) (there : records[i]? = some r) :
    ∃ r', after[i]? = some r' ∧ Settles r r' := by
  obtain ⟨short, rfl⟩ := List.getElem?_eq_some_iff.mp there
  have short' : i < after.length := advances.length_eq ▸ short
  exact ⟨after[i], List.getElem?_eq_getElem short', advances.get short short'⟩

/-- What matches stays, so that what is the only match in the end always was. -/
theorem MatchesOnly.earlier {places : Nat → Prop} (only : MatchesOnly v after places) (advances : Advances records after) :
    MatchesOnly v records places := by
  intro i r there matched
  obtain ⟨r', later, settles⟩ := advances.at there
  obtain rfl := settles.of_resolved (matches_resolved matched).1
  exact only i r' later matched

theorem advances_set {i : Nat} {target : Record} (there : records[i]? = some r) (unresolved : r.resolved = false) :
    Advances records (records.set i (r.takeLocal target)) := by
  refine List.forall₂_iff_get.mpr ⟨(List.length_set ..).symm, fun n short short' => ?_⟩
  simp only [List.get_eq_getElem, List.getElem_set]
  split
  case isTrue same =>
    subst same
    rw [List.getElem?_eq_getElem short] at there
    cases there
    exact .inr ⟨unresolved, target, rfl⟩
  case isFalse => exact .inl rfl

/-- A step leaves the records or resolves the one at its place. -/
theorem resolveOne_cases {lookup : RecordLookup} {i : Nat} (done : resolveOne lookup s i = .returns s') :
    ∃ r, s.records[i]? = some r ∧
      ((¬ Open r ∧ s' = s) ∨
        (Open r ∧ ∃ target left, lookup.find r s.records s.work = .returns (target, left) ∧
          ((target = none ∧ s'.records = s.records) ∨
            ∃ found, target = some found ∧ s'.records = s.records.set i (r.takeLocal found)))) := by
  obtain ⟨r, there, done⟩ := Checked.bind_eq_returns.mp done
  refine ⟨r, Checked.unwrap_eq_returns.mp there, ?_⟩
  split at done
  case isTrue closed =>
    cases done
    refine .inl ⟨fun isOpen => ?_, rfl⟩
    rcases closed with other | resolved | bound
    · exact other isOpen.revisit
    · exact absurd resolved (Bool.eq_false_iff.mp isOpen.unresolved)
    · exact bound isOpen.free
  case isFalse isOpen =>
    rw [not_or, not_or, not_not, not_not, Bool.not_eq_true] at isOpen
    obtain ⟨⟨target, left⟩, found, done⟩ := Checked.bind_eq_returns.mp done
    refine .inr ⟨⟨isOpen.1, isOpen.2.1, isOpen.2.2⟩, target, left, found, ?_⟩
    cases target with
    | none =>
      cases done
      exact .inl ⟨rfl, rfl⟩
    | some target =>
      obtain ⟨_, _, matched⟩ := find_sound lookup found
      dsimp only at done
      rw [if_pos (matches_resolved matched).1] at done
      cases done
      exact .inr ⟨target, rfl, rfl⟩

theorem resolveOne_advances {lookup : RecordLookup} {i : Nat} (done : resolveOne lookup s i = .returns s') :
    Advances s.records s'.records := by
  obtain ⟨r, there, ⟨-, rfl⟩ | ⟨isOpen, target, left, -, ⟨-, same⟩ | ⟨found, -, set⟩⟩⟩ := resolveOne_cases done
  · exact .refl _
  · exact same ▸ .refl _
  · exact set ▸ advances_set there isOpen.unresolved

theorem resolveRound_advances {lookup : RecordLookup} {places : List Nat}
    (done : resolveRound lookup places s = .returns s') : Advances s.records s'.records := by
  induction places generalizing s with
  | nil =>
    cases done
    exact .refl _
  | cons i rest ih =>
    obtain ⟨mid, stepped, done⟩ := Checked.bind_eq_returns.mp done
    exact (resolveOne_advances stepped).trans (ih done)

theorem resolveRounds_advances {lookup : RecordLookup} {left : Nat}
    (done : resolveRounds lookup left s = .returns s') : Advances s.records s'.records := by
  induction left generalizing s with
  | zero =>
    cases done
    exact .refl _
  | succ left ih =>
    unfold resolveRounds at done
    split at done
    · obtain ⟨mid, stepped, done⟩ := Checked.bind_eq_returns.mp done
      have first := resolveRound_advances stepped
      exact first.trans (ih done)
    · cases done
      exact .refl _

section ownArchive

variable {i j : Nat} (isOpen : Open v)

end ownArchive

section otherArchive

variable {k : Nat}

end otherArchive

end resolution

section hydration

variable {v t r exported : Record} {records hydrated : List Record} {inputs before after : List Archive} {input : Archive}
  {targets : List Record} {work left : Nat}

/-- Each record that is hydrated is hydrated by itself. -/
theorem hydrateRecords_at {k : Nat} (done : hydrateRecords inputs records work = .returns hydrated)
    (here : records[k]? = some r) (there : hydrated[k]? = some exported) :
    ∃ work left, hydrateRecord inputs r work = .returns (exported, left) := by
  induction records generalizing k work hydrated with
  | nil => cases here
  | cons first rest ih =>
    obtain ⟨⟨next, left⟩, stepped, done⟩ := Checked.bind_eq_returns.mp done
    obtain ⟨others, later, done⟩ := Checked.bind_eq_returns.mp done
    cases done
    cases k with
    | zero =>
      cases here
      cases there
      exact ⟨work, left, stepped⟩
    | succ k => exact ih later here there

end hydration

end NixHomeServer.Browsertrix.Engine
