import NixHomeServer.MediaManager.TrackOrder

/-! When a playlist is said to differ from the order of playback. -/
namespace NixHomeServer.MediaManager.TrackOrder

open NixHomeServer.Library

variable {files : List TrackOrderFile} {playlistEntries : List String}

section Positions

theorem eq_of_name (distinct : (names files).Nodup) {a b : TrackOrderFile} (own : a ∈ files) (other : b ∈ files)
    (same : a.fileName = b.fileName) : a = b :=
  List.inj_on_of_nodup_map distinct own other same

theorem name_of_filenameKey {a b : TrackOrderFile} (same : a.filenameKey = b.filenameKey) : a.fileName = b.fileName :=
  congrArg (fun key => (ofLex key).2) same

theorem name_of_effectiveKey {a b : TrackOrderFile} (same : a.effectiveKey = b.effectiveKey) : a.fileName = b.fileName :=
  congrArg (fun key => (ofLex (ofLex (ofLex key).2).2).2) same

theorem telling_filenameKey (distinct : (names files).Nodup) : Telling TrackOrderFile.filenameKey files :=
  fun _ own _ other same => eq_of_name distinct own other (name_of_filenameKey same)

theorem index_of_name (distinct : (names files).Nodup) {i j : Fin files.length}
    (same : (files.get i).fileName = (files.get j).fileName) : i = j := by
  have inside : i.val < (names files).length := by simp [names]
  have places : (names files)[i.val]? = (names files)[j.val]? := by simpa [names] using same
  exact Fin.ext ((List.getElem?_inj inside distinct).mp places)

theorem telling_effective (distinct : (names files).Nodup) :
    Telling (fun i : Fin files.length => (files.get i).effectiveKey) (List.finRange files.length) :=
  fun _ _ _ _ same => index_of_name distinct (name_of_effectiveKey same)

/-- Files play in the order of their tags, their numbers and their names. -/
theorem effectivePosition_lt_iff (distinct : (names files).Nodup) (i j : Fin files.length) :
    effectivePosition files i < effectivePosition files j ↔
      (files.get i).effectiveKey < (files.get j).effectiveKey := by
  rw [effectivePosition, effectivePosition, Nat.succ_lt_succ_iff]
  exact (telling_effective distinct).idxOf_lt_iff (List.mem_finRange i) (List.mem_finRange j)

theorem effectivePosition_perm (files : List TrackOrderFile) :
    ((List.finRange files.length).map (effectivePosition files)).Perm (List.range' 1 files.length) := by
  have places := places_perm (fun i : Fin files.length => files[i].effectiveKey) (List.nodup_finRange files.length)
  rwa [List.length_finRange] at places

theorem indexOf_name (distinct : (names files).Nodup) (i : Fin files.length) :
    indexOf files (files.get i).fileName = some i := by
  have own : i ∈ (List.finRange files.length).filter fun j => files[j].fileName = (files.get i).fileName :=
    List.mem_filter.mpr ⟨List.mem_finRange i, by simp⟩
  cases found : indexOf files (files.get i).fileName with
  | none => exact absurd (List.getLast?_eq_none_iff.mp found) (List.ne_nil_of_mem own)
  | some j =>
    have same := of_decide_eq_true (List.mem_filter.mp (List.mem_of_getLast? found)).2
    exact congrArg some (index_of_name distinct same)

end Positions

section Assessed

theorem assessed_eq (few : files.length ≤ maxTrackOrderFiles) : assessed files = sortBy TrackOrderFile.filenameKey files := by
  refine List.take_of_length_le ?_
  rw [(sortBy_perm _ files).length_eq]
  exact few

theorem assessed_perm (few : files.length ≤ maxTrackOrderFiles) : (assessed files).Perm files :=
  assessed_eq few ▸ sortBy_perm _ files

theorem assessed_distinct (distinct : (names files).Nodup) (few : files.length ≤ maxTrackOrderFiles) :
    (names (assessed files)).Nodup :=
  ((assessed_perm few).map _).nodup_iff.mpr distinct

theorem assessed_sorted (distinct : (names files).Nodup) (few : files.length ≤ maxTrackOrderFiles) :
    (assessed files).Pairwise fun a b => a.filenameKey < b.filenameKey := by
  have sorted := sortBy_pairwise TrackOrderFile.filenameKey files
  rw [← assessed_eq few] at sorted
  have apart : (assessed files).Pairwise fun a b => a.fileName ≠ b.fileName :=
    List.pairwise_map.mp (assessed_distinct distinct few)
  exact sorted.imp₂ (fun a b le differs => lt_of_le_of_ne le fun same => differs (name_of_filenameKey same)) apart

/-- The order in which files are passed does not matter. -/
theorem assessed_congr (distinct : (names files).Nodup) {other : List TrackOrderFile} (perm : files.Perm other) :
    assessed files = assessed other := by
  rw [assessed, assessed, (telling_filenameKey distinct).sortBy_congr perm]

end Assessed

section Agreement

variable (files playlistEntries) in
/-- Two listed files stand in the playlist against the order of playback. -/
def PlaylistDisagrees : Prop :=
  ∃ a ∈ files, ∃ b ∈ files, a.fileName ∈ playlistEntries ∧ b.fileName ∈ playlistEntries ∧
    playlistEntries.idxOf a.fileName < playlistEntries.idxOf b.fileName ∧ b.effectiveKey < a.effectiveKey

variable (files playlistEntries) in
/-- Two listed files stand by their names against the order of playback. -/
def FilenamesDisagree : Prop :=
  ∃ a ∈ files, ∃ b ∈ files, a.fileName ∈ playlistEntries ∧ b.fileName ∈ playlistEntries ∧
    a.filenameKey < b.filenameKey ∧ b.effectiveKey < a.effectiveKey

theorem mem_listed {file : TrackOrderFile} :
    file ∈ listed files playlistEntries ↔ file ∈ files ∧ file.fileName ∈ playlistEntries := by
  simp [listed, playlistRank]

theorem placeOf_lt_iff (distinct : (names files).Nodup) {a b : TrackOrderFile} (own : a ∈ files) (other : b ∈ files) :
    placeOf files a.fileName < placeOf files b.fileName ↔ a.effectiveKey < b.effectiveKey := by
  obtain ⟨i, inside, rfl⟩ := List.getElem_of_mem own
  obtain ⟨j, inside', rfl⟩ := List.getElem_of_mem other
  have first := indexOf_name distinct ⟨i, inside⟩
  have second := indexOf_name distinct ⟨j, inside'⟩
  have order := effectivePosition_lt_iff distinct ⟨i, inside⟩ ⟨j, inside'⟩
  simp only [List.get_eq_getElem] at first second order
  rw [placeOf, placeOf, first, second, ← order]
  rfl

theorem listed_sorted (sorted : files.Pairwise fun a b => a.filenameKey < b.filenameKey) :
    (listed files playlistEntries).Pairwise fun a b => a.filenameKey < b.filenameKey := sorted.filter _

/-- The listed files differ from their order of playback where two of them do. -/
theorem names_eq_iff (distinct : (names files).Nodup) (sorted : files.Pairwise fun a b => a.filenameKey < b.filenameKey) :
    names (listed files playlistEntries) = names (byEffective files playlistEntries) ↔ ¬ FilenamesDisagree files playlistEntries := by
  have along : (listed files playlistEntries).Pairwise (fun a b => placeOf files a.fileName ≤ placeOf files b.fileName) ↔
      ¬ FilenamesDisagree files playlistEntries := by
    rw [pairwise_iff_of_sorted (listed_sorted sorted)]
    simp only [FilenamesDisagree, not_exists, not_and, ← not_lt]
    constructor
    · intro all a own b other named named' less later
      exact all a (mem_listed.mpr ⟨own, named⟩) b (mem_listed.mpr ⟨other, named'⟩) less ((placeOf_lt_iff distinct other own).mpr later)
    · intro all a own b other less later
      obtain ⟨own, named⟩ := mem_listed.mp own
      obtain ⟨other, named'⟩ := mem_listed.mp other
      exact all a own b other named named' less ((placeOf_lt_iff distinct other own).mp later)
  have telling : Telling (fun file => placeOf files file.fileName) (listed files playlistEntries) := by
    intro a own b other same
    obtain ⟨own, -⟩ := mem_listed.mp own
    obtain ⟨other, -⟩ := mem_listed.mp other
    have before := (not_congr (placeOf_lt_iff distinct own other)).mp same.not_lt
    have after := (not_congr (placeOf_lt_iff distinct other own)).mp same.not_gt
    exact eq_of_name distinct own other (name_of_effectiveKey (le_antisymm (not_lt.mp after) (not_lt.mp before)))
  rw [← along]
  constructor
  · intro same
    have order : (names (byEffective files playlistEntries)).Pairwise fun a b => placeOf files a ≤ placeOf files b :=
      List.pairwise_map.mpr (sortBy_pairwise (fun file => placeOf files file.fileName) (listed files playlistEntries))
    rw [← same, names, List.pairwise_map] at order
    exact order
  · exact fun order => congrArg names (telling.sortBy_eq_iff.mpr order).symm

theorem FilenamesDisagree.perm {other : List TrackOrderFile} (perm : files.Perm other) :
    FilenamesDisagree files playlistEntries ↔ FilenamesDisagree other playlistEntries := by
  simp only [FilenamesDisagree, perm.mem_iff]

/-- What is said of the playlist is said where the names of listed files disagree with the order of playback. -/
theorem differs_iff (distinct : (names files).Nodup) (few : files.length ≤ maxTrackOrderFiles) (playlistName : Option String)
    (unrecognisedAudio : List String) :
    (∃ problem ∈ (assessTrackOrder files playlistName playlistEntries unrecognisedAudio).problems,
      problem.code = "playlist-order-differs") ↔ playlistName.isSome = true ∧ FilenamesDisagree files playlistEntries := by
  have own : (∃ problem ∈ (differsProblem (assessed files) playlistEntries).toList, problem.code = "playlist-order-differs") ↔
      FilenamesDisagree files playlistEntries := by
    rw [← FilenamesDisagree.perm (assessed_perm few), ← not_iff_not,
      ← names_eq_iff (assessed_distinct distinct few) (assessed_sorted distinct few)]
    unfold differsProblem
    split
    · simp [*]
    · simp [*, groupedProblem]
  have others (playlist : List TrackOrderProblem) : (∃ problem ∈ (mismatchProblem (assessed files)).toList ++
      (sequenceProblem (assessed files)).toList ++ (missingProblem (assessed files)).toList ++ playlist ++
      (unrecognisedProblem unrecognisedAudio).toList, problem.code = "playlist-order-differs") ↔
      ∃ problem ∈ playlist, problem.code = "playlist-order-differs" := by
    have mismatch : ∀ problem ∈ (mismatchProblem (assessed files)).toList, problem.code ≠ "playlist-order-differs" := by
      unfold mismatchProblem
      split <;> simp [groupedProblem]
    have sequence : ∀ problem ∈ (sequenceProblem (assessed files)).toList, problem.code ≠ "playlist-order-differs" := by
      unfold sequenceProblem
      dsimp only
      split
      · simp [groupedProblem]
      · split <;> simp [groupedProblem]
    have missing : ∀ problem ∈ (missingProblem (assessed files)).toList, problem.code ≠ "playlist-order-differs" := by
      unfold missingProblem
      split <;> simp [groupedProblem]
    have unrecognised : ∀ problem ∈ (unrecognisedProblem unrecognisedAudio).toList, problem.code ≠ "playlist-order-differs" := by
      unfold unrecognisedProblem
      split <;> simp [groupedProblem]
    constructor
    · rintro ⟨problem, member, same⟩
      simp only [List.mem_append] at member
      rcases member with (((member | member) | member) | member) | member
      · exact absurd same (mismatch problem member)
      · exact absurd same (sequence problem member)
      · exact absurd same (missing problem member)
      · exact ⟨problem, member, same⟩
      · exact absurd same (unrecognised problem member)
    · rintro ⟨problem, member, same⟩
      exact ⟨problem, by simp [member], same⟩
  refine (others _).trans ?_
  split
  · rename_i named
    have unresolved : ∀ problem ∈ (unresolvedProblem (assessed files) playlistEntries).toList, problem.code ≠ "playlist-order-differs" := by
      unfold unresolvedProblem
      dsimp only
      split <;> simp [groupedProblem]
    rw [← own, and_iff_right named]
    constructor
    · rintro ⟨problem, member, same⟩
      rcases List.mem_append.mp member with early | late
      · exact absurd same (unresolved problem early)
      · exact ⟨problem, late, same⟩
    · rintro ⟨problem, member, same⟩
      exact ⟨problem, List.mem_append_right _ member, same⟩
  · rename_i unnamed
    simp [unnamed]

end Agreement

section Report

variable (files) in
/-- The rows of a report are those of the files, and their positions are 1 to n in the order of playback. -/
def RowsInOrder (report : TrackOrderReport) : Prop :=
  (report.files.map TrackOrderFileRow.fileName).Perm (names files) ∧
    (report.files.map TrackOrderFileRow.effectivePosition).Perm (List.range' 1 files.length) ∧
    ∀ a ∈ files, ∀ b ∈ files, ∀ row ∈ report.files, ∀ row' ∈ report.files, row.fileName = a.fileName → row'.fileName = b.fileName →
      (row.effectivePosition < row'.effectivePosition ↔ a.effectiveKey < b.effectiveKey)

theorem rows_in_order (distinct : (names files).Nodup) (few : files.length ≤ maxTrackOrderFiles) (playlistName : Option String)
    (playlistEntries unrecognisedAudio : List String) :
    RowsInOrder files (assessTrackOrder files playlistName playlistEntries unrecognisedAudio) := by
  have perm := assessed_perm few
  have apart := assessed_distinct distinct few
  have rows : (assessTrackOrder files playlistName playlistEntries unrecognisedAudio).files =
      (List.finRange (assessed files).length).map (row (assessed files) playlistEntries) := rfl
  refine ⟨?_, ?_, fun a own b other first there second there' named named' => ?_⟩
  · have whole : (List.finRange (assessed files).length).map (fun i => (assessed files)[i].fileName) = names (assessed files) := by
      refine List.ext_getElem (by simp [names]) fun i _ _ => ?_
      simp [names]
    rw [rows, List.map_map]
    exact (List.Perm.of_eq whole).trans (perm.map _)
  · rw [rows, List.map_map, ← perm.length_eq]
    exact effectivePosition_perm (assessed files)
  · rw [rows] at there there'
    obtain ⟨i, -, rfl⟩ := List.mem_map.mp there
    obtain ⟨j, -, rfl⟩ := List.mem_map.mp there'
    have left : (assessed files)[i] = a := eq_of_name distinct (perm.mem_iff.mp (List.getElem_mem _)) own named
    have right : (assessed files)[j] = b := eq_of_name distinct (perm.mem_iff.mp (List.getElem_mem _)) other named'
    rw [← left, ← right]
    exact effectivePosition_lt_iff apart i j

/-- A report has its positions in order and does not depend on the order of the files. It says that the playlist differs just
when it does, if and only if it disagrees with playback where the names of its files do. -/
theorem playlist_reported_iff (files : List TrackOrderFile) (distinct : (names files).Nodup)
    (few : files.length ≤ maxTrackOrderFiles) (playlistName : Option String) (playlistEntries unrecognisedAudio : List String) :
    (RowsInOrder files (assessTrackOrder files playlistName playlistEntries unrecognisedAudio) ∧
      (∀ other, files.Perm other → assessTrackOrder other playlistName playlistEntries unrecognisedAudio =
        assessTrackOrder files playlistName playlistEntries unrecognisedAudio) ∧
      ((∃ problem ∈ (assessTrackOrder files playlistName playlistEntries unrecognisedAudio).problems,
        problem.code = "playlist-order-differs") ↔ playlistName.isSome = true ∧ PlaylistDisagrees files playlistEntries)) ↔
    (playlistName.isSome = true → (PlaylistDisagrees files playlistEntries ↔ FilenamesDisagree files playlistEntries)) := by
  have order := rows_in_order distinct few playlistName playlistEntries unrecognisedAudio
  have same : ∀ other, files.Perm other → assessTrackOrder other playlistName playlistEntries unrecognisedAudio =
      assessTrackOrder files playlistName playlistEntries unrecognisedAudio := fun other perm => by
    rw [assessTrackOrder, assessTrackOrder, assessed_congr distinct perm]
  rw [and_iff_right order, and_iff_right same, differs_iff distinct few]
  constructor
  · intro agree named
    simpa only [named, true_and] using agree.symm
  · exact fun agree => and_congr_right fun named => (agree named).symm

def album : List TrackOrderFile := [⟨"01.mp3", none, some 1⟩, ⟨"02.mp3", none, some 2⟩]

theorem album_files : (names album).Nodup ∧ album.length ≤ maxTrackOrderFiles ∧ ["02.mp3", "01.mp3"].Nodup := by decide

theorem album_plays : (⟨"01.mp3", none, some 1⟩ : TrackOrderFile).effectiveKey < (⟨"02.mp3", none, some 2⟩ : TrackOrderFile).effectiveKey :=
  Prod.Lex.right _ (Prod.Lex.left _ _ (by decide))

theorem album_named : (⟨"01.mp3", none, some 1⟩ : TrackOrderFile).filenameKey < (⟨"02.mp3", none, some 2⟩ : TrackOrderFile).filenameKey := by
  have first : filenameSequenceNumber "01.mp3" = some (1, 1) := by decide
  have second : filenameSequenceNumber "02.mp3" = some (1, 2) := by decide
  rw [TrackOrderFile.filenameKey, TrackOrderFile.filenameKey, first, second]
  exact Prod.Lex.left _ _ (WithBot.coe_lt_coe.mpr (Prod.Lex.right _ (by decide)))

/-- A playlist in the opposite order is not reported where the names and the tags of the files agree. -/
theorem reversed_not_reported : (names album).Nodup ∧ album.length ≤ maxTrackOrderFiles ∧ ["02.mp3", "01.mp3"].Nodup ∧
    ¬ ((∃ problem ∈ (assessTrackOrder album (some "list.m3u") ["02.mp3", "01.mp3"] []).problems, problem.code = "playlist-order-differs") ↔
      (some "list.m3u").isSome = true ∧ PlaylistDisagrees album ["02.mp3", "01.mp3"]) := by
  obtain ⟨distinct, few, unrepeated⟩ := album_files
  refine ⟨distinct, few, unrepeated, fun reported => ?_⟩
  rw [differs_iff distinct few] at reported
  have disagrees : PlaylistDisagrees album ["02.mp3", "01.mp3"] :=
    ⟨_, List.mem_cons_of_mem _ List.mem_cons_self, _, List.mem_cons_self, by decide, by decide, by decide, album_plays⟩
  obtain ⟨-, a, own, b, other, -, -, less, later⟩ := reported.mpr ⟨rfl, disagrees⟩
  simp only [album, List.mem_cons, List.not_mem_nil, or_false] at own other
  rcases own with rfl | rfl <;> rcases other with rfl | rfl
  · exact lt_irrefl _ less
  · exact lt_asymm later album_plays
  · exact lt_asymm less album_named
  · exact lt_irrefl _ less

theorem playlist_reported_iff_album :
    (RowsInOrder album (assessTrackOrder album (some "list.m3u") ["02.mp3", "01.mp3"] []) ∧
      (∀ other, album.Perm other → assessTrackOrder other (some "list.m3u") ["02.mp3", "01.mp3"] [] =
        assessTrackOrder album (some "list.m3u") ["02.mp3", "01.mp3"] []) ∧
      ((∃ problem ∈ (assessTrackOrder album (some "list.m3u") ["02.mp3", "01.mp3"] []).problems,
        problem.code = "playlist-order-differs") ↔ (some "list.m3u").isSome = true ∧ PlaylistDisagrees album ["02.mp3", "01.mp3"])) ↔
    ((some "list.m3u").isSome = true →
      (PlaylistDisagrees album ["02.mp3", "01.mp3"] ↔ FilenamesDisagree album ["02.mp3", "01.mp3"])) :=
  playlist_reported_iff album album_files.1 album_files.2.1 (some "list.m3u") ["02.mp3", "01.mp3"] []

end Report

end NixHomeServer.MediaManager.TrackOrder
