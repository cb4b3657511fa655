import NixHomeServer.Library.Spacing
import NixHomeServer.MailArchive.ZipNames

/-! The folder of a download: what its normalisation leaves is left as it is by another. -/
namespace NixHomeServer.MailArchive.ZipNames

open NixHomeServer.Library
open NixHomeServer.MailArchive.Paperless (filenameComponent squeeze trimMatches)

section Words

variable {words : List Text} {p : Char → Bool}

theorem splitOnP_intercalate {separator : Char} (parted : p separator = true) {parts : List Text}
    (filled : parts ≠ []) (clean : ∀ part ∈ parts, ∀ c ∈ part, p c = false) :
    ([separator].intercalate parts).splitOnP p = parts := by
  induction parts with
  | nil => exact (filled rfl).elim
  | cons part rest ih =>
    obtain ⟨first, others⟩ := List.forall_mem_cons.mp clean
    cases rest with
    | nil => rw [List.intercalate_singleton, List.splitOnP_eq_singleton first]
    | cons next rest =>
      rw [List.intercalate_cons_cons, List.append_assoc, List.singleton_append,
        List.splitOnP_append_cons_of_forall_mem first separator parted, ih (List.cons_ne_nil _ _) others]

theorem splitOnP_solid {text part : Text} {c : Char} (among : part ∈ text.splitOnP p) (member : c ∈ part) :
    p c = false := by
  induction text generalizing part with
  | nil =>
    rw [List.splitOnP_nil, List.mem_singleton] at among
    exact absurd (among ▸ member) List.not_mem_nil
  | cons x text ih =>
    rw [List.splitOnP_cons_eq_if_modifyHead] at among
    split at among
    · rcases List.mem_cons.mp among with rfl | later
      · exact absurd member List.not_mem_nil
      · exact ih later member
    · rename_i solid
      cases parts : text.splitOnP p with
      | nil => exact absurd parts (List.splitOnP_ne_nil p text)
      | cons front back =>
        rw [parts, List.modifyHead_cons] at among
        rcases List.mem_cons.mp among with rfl | later
        · rcases List.mem_cons.mp member with rfl | inside
          · simpa using solid
          · exact ih (parts ▸ List.mem_cons_self) inside
        · exact ih (parts ▸ List.mem_cons_of_mem _ later) member

/-- Words have characters, none of them a blank. -/
def Words (words : List Text) : Prop := ∀ word ∈ words, word ≠ [] ∧ ∀ c ∈ word, Paperless.isWhitespace c = false

def unwords (words : List Text) : Text := [' '].intercalate words

@[simp] theorem unwords_nil : unwords [] = [] := rfl

theorem unwords_cons (word : Text) (rest : List Text) :
    unwords (word :: rest) = word ++ if rest = [] then [] else ' ' :: unwords rest := by
  cases rest with
  | nil => simp [unwords]
  | cons next rest => simp [unwords, List.intercalate_cons_cons]

theorem unwords_eq_nil (each : Words words) : unwords words = [] ↔ words = [] := by
  cases words with
  | nil => exact ⟨fun _ => rfl, fun _ => rfl⟩
  | cons word rest => simp [unwords_cons, (each word List.mem_cons_self).1]

/-- What `squeeze` makes is words with single spaces between them. -/
theorem squeeze_words (text : Text) : ∃ words, Words words ∧ squeeze text = unwords words := by
  refine ⟨_, ?_, rfl⟩
  intro word member
  obtain ⟨among, some_char⟩ := List.mem_filter.mp member
  refine ⟨by simpa using some_char, fun c inside => ?_⟩
  exact splitOnP_solid among inside

theorem squeeze_unwords (each : Words words) : squeeze (unwords words) = unwords words := by
  by_cases none_there : words = []
  · subst none_there
    rfl
  · have nonempty : words.filter (fun word => !word.isEmpty) = words :=
      List.filter_eq_self.mpr fun word member => by simp [(each word member).1]
    rw [squeeze, unwords, splitOnP_intercalate (by decide) none_there fun word member => (each word member).2, nonempty]

theorem words_dropWhile (spaces : p ' ' = true) (each : Words words) :
    ∃ kept, Words kept ∧ (unwords words).dropWhile p = unwords kept := by
  induction words with
  | nil => exact ⟨[], each, rfl⟩
  | cons word rest ih =>
    obtain ⟨first, others⟩ := List.forall_mem_cons.mp each
    rw [unwords_cons, List.dropWhile_append]
    by_cases gone : word.dropWhile p = []
    · simp only [gone, List.isEmpty_nil, if_true]
      split
      · exact ⟨[], by simp [Words], rfl⟩
      · rw [List.dropWhile_cons_of_pos spaces]
        exact ih others
    · simp only [List.isEmpty_iff, gone, if_false]
      refine ⟨word.dropWhile p :: rest, ?_, by rw [unwords_cons]⟩
      refine List.forall_mem_cons.mpr ⟨⟨gone, fun c member => first.2 c ?_⟩, others⟩
      exact (List.dropWhile_suffix p).subset member

theorem rdropWhile_append (left right : Text) :
    (left ++ right).rdropWhile p = if right.rdropWhile p = [] then left.rdropWhile p else left ++ right.rdropWhile p := by
  induction left with
  | nil => simp +contextual
  | cons c left ih =>
    rw [List.cons_append, rdropWhile_cons, ih, rdropWhile_cons]
    by_cases gone : right.rdropWhile p = []
    · simp only [gone, if_true]
    · simp [gone]

theorem words_rdropWhile (spaces : p ' ' = true) (each : Words words) :
    ∃ kept, Words kept ∧ (unwords words).rdropWhile p = unwords kept := by
  induction words with
  | nil => exact ⟨[], each, rfl⟩
  | cons word rest ih =>
    obtain ⟨first, others⟩ := List.forall_mem_cons.mp each
    obtain ⟨kept, kept_words, same⟩ := ih others
    have alone : ∃ left, Words left ∧ word.rdropWhile p = unwords left := by
      by_cases gone : word.rdropWhile p = []
      · exact ⟨[], by simp [Words], gone⟩
      · refine ⟨[word.rdropWhile p], ?_, by simp [unwords]⟩
        refine List.forall_mem_singleton.mpr ⟨gone, fun c member => first.2 c ?_⟩
        exact (List.rdropWhile_prefix p word).subset member
    rw [unwords_cons, rdropWhile_append]
    split
    · simpa using alone
    · by_cases none_left : kept = []
      · simpa [rdropWhile_cons, same, spaces, unwords_eq_nil kept_words, none_left] using alone
      · simp only [rdropWhile_cons, same, spaces, unwords_eq_nil kept_words, none_left, false_and, if_false, reduceCtorEq]
        refine ⟨word :: kept, List.forall_mem_cons.mpr ⟨first, kept_words⟩, ?_⟩
        simp [none_left, unwords_cons]

end Words

section Components

variable {words : List Text}

/-- A component that the sanitiser leaves as it is. -/
structure Settled (name : String) : Prop where
  unchanged : filenameComponent name "" = name
  trimmed : Trimmed name.toList
  first : ∃ c rest, name.toList = c :: rest ∧ Paperless.isWhitespace c = false
  last : ∃ front c, name.toList = front ++ [c] ∧ Paperless.isWhitespace c = false

theorem sanitised_words (raw fallback : String) : filenameComponent raw fallback = fallback ∨
    ∃ words, Words words ∧ words ≠ [] ∧ (filenameComponent raw fallback).toList = unwords words := by
  unfold filenameComponent
  dsimp only
  split
  · exact .inl rfl
  · rename_i kept
    right
    rw [String.toList_ofList]
    set spaced := raw.toList.map fun c => if c = '\x00' || c = '/' || c = '\\' || Paperless.isControl c then ' ' else c
    obtain ⟨words, each, squeezed⟩ := squeeze_words spaced
    obtain ⟨later, each', front⟩ := words_dropWhile (p := fun c => c = '.' || c = ' ') rfl each
    obtain ⟨left, each'', back⟩ := words_rdropWhile (p := fun c => c = '.' || c = ' ') rfl each'
    have trimmed : trimMatches (fun c => c = '.' || c = ' ') (squeeze spaced) = unwords left := by
      rw [squeezed, ← back, ← front]
      rfl
    rw [trimmed] at kept ⊢
    refine ⟨left, each'', ?_, rfl⟩
    rintro rfl
    exact kept (.inl rfl)

theorem unwords_ends (each : Words words) (filled : words ≠ []) :
    (∃ c rest, unwords words = c :: rest ∧ Paperless.isWhitespace c = false) ∧
      ∃ front c, unwords words = front ++ [c] ∧ Paperless.isWhitespace c = false := by
  induction words with
  | nil => exact (filled rfl).elim
  | cons word rest ih =>
    obtain ⟨⟨some_char, solid⟩, others⟩ := List.forall_mem_cons.mp each
    rw [unwords_cons]
    constructor
    · obtain ⟨c, tail, rfl⟩ := List.exists_cons_of_ne_nil some_char
      exact ⟨c, _, rfl, solid c List.mem_cons_self⟩
    · by_cases none_after : rest = []
      · refine ⟨word.dropLast, word.getLast some_char, ?_, solid _ (List.getLast_mem some_char)⟩
        rw [if_pos none_after, List.append_nil, List.dropLast_append_getLast]
      · obtain ⟨-, front, c, same, last⟩ := ih others none_after
        exact ⟨word ++ ' ' :: front, c, by simp [none_after, same], last⟩

/-- What the sanitiser leaves it leaves again. -/
theorem settled_filenameComponent (raw : String) (nonempty : filenameComponent raw "" ≠ "") :
    Settled (filenameComponent raw "") := by
  have trimmed := (filenameComponent_cases raw "").resolve_left nonempty
  obtain ⟨words, each, some_word, same⟩ := (sanitised_words raw "").resolve_left nonempty
  generalize filenameComponent raw "" = name at trimmed same nonempty
  obtain ⟨first, last⟩ := unwords_ends each some_word
  rw [← same] at first last
  have spaced : (name.toList.map fun c => if c = '\x00' || c = '/' || c = '\\' || Paperless.isControl c then ' ' else c) =
      name.toList := by
    refine (List.map_congr_left fun c member => ?_).trans (List.map_id name.toList)
    obtain ⟨slash, backslash, zero, control⟩ := trimmed.clean c member
    simp [slash, backslash, zero, control]
  have ends : trimMatches (fun c => c = '.' || c = ' ') name.toList = name.toList := by
    refine trimBy_of_ends (fun c rest begins => ?_) fun front c finishes => ?_
    · obtain ⟨x, tail, whole, solid⟩ := first
      obtain ⟨rfl, -⟩ := List.cons.inj (begins.symm.trans whole)
      have dot : c ≠ '.' := fun dot => trimmed.first rest (dot ▸ begins)
      have space : c ≠ ' ' := fun space => by
        rw [space] at solid
        cases solid
      simp [dot, space]
    · obtain ⟨before, x, whole, solid⟩ := last
      obtain rfl := List.singleton_inj.mp (List.append_inj' (finishes.symm.trans whole) rfl).2
      have dot : c ≠ '.' := fun dot => trimmed.last front (dot ▸ finishes)
      have space : c ≠ ' ' := fun space => by
        rw [space] at solid
        cases solid
      simp [dot, space]
  have squeezed : squeeze name.toList = name.toList := by
    rw [same]
    exact squeeze_unwords each
  refine ⟨?_, trimmed, first, last⟩
  unfold filenameComponent
  dsimp only
  rw [spaced, squeezed, ends, String.ofList_toList]
  split
  · rename_i gone
    rcases gone with gone | gone | gone
    · exact gone.symm
    · exact (trimmed.inside.1 (by rw [gone]; rfl)).elim
    · exact (trimmed.inside.2 (by rw [gone]; rfl)).elim
  · rfl

theorem addComponent_settled {name : String} (settled : Settled name) (components : List String) :
    addComponent components name.toList = .ok (components ++ [name]) := by
  have nonempty : name ≠ "" := fun gone => settled.trimmed.filled (by rw [gone]; rfl)
  have inside : ¬ (name = "." ∨ name = "..") := by
    rintro (rfl | rfl)
    · exact settled.trimmed.inside.1 rfl
    · exact settled.trimmed.inside.2 rfl
  simp [addComponent, settled.unchanged, nonempty, inside]

theorem addComponents_settled {names : List String} (settled : ∀ name ∈ names, Settled name) (components : List String) :
    List.foldlM addComponent components (names.map String.toList) = .ok (components ++ names) := by
  induction names generalizing components with
  | nil => simp [pure, Except.pure]
  | cons name rest ih =>
    obtain ⟨first, others⟩ := List.forall_mem_cons.mp settled
    rw [List.map_cons, List.foldlM_cons, addComponent_settled first]
    exact (ih others _).trans (by simp)

theorem settled_components {components made : List String} {parts : List Text}
    (added : List.foldlM addComponent components parts = .ok made) (settled : ∀ name ∈ components, Settled name) :
    ∀ name ∈ made, Settled name := by
  induction parts generalizing components with
  | nil =>
    cases added
    exact settled
  | cons part parts ih =>
    rw [List.foldlM_cons] at added
    cases first : addComponent components part with
    | error e =>
      rw [first] at added
      cases added
    | ok next =>
      rw [first] at added
      refine ih added ?_
      simp only [addComponent] at first
      split at first
      · cases first
        exact settled
      · rename_i kept
        split at first
        · cases first
        · cases first
          intro name member
          rcases List.mem_append.mp member with before | last
          · exact settled name before
          · rw [List.mem_singleton.mp last]
            exact settled_filenameComponent _ kept

/-- Names with slashes between them start and end as the first and the last of them do. -/
theorem joined_ends {names : List String} (settled : ∀ name ∈ names, Settled name) (filled : names ≠ []) :
    (∃ c rest, ['/'].intercalate (names.map String.toList) = c :: rest ∧ Paperless.isWhitespace c = false) ∧
      ∃ front c, ['/'].intercalate (names.map String.toList) = front ++ [c] ∧ Paperless.isWhitespace c = false := by
  induction names with
  | nil => exact (filled rfl).elim
  | cons name rest ih =>
    obtain ⟨own, others⟩ := List.forall_mem_cons.mp settled
    cases rest with
    | nil =>
      rw [List.map_singleton, List.intercalate_singleton]
      exact ⟨own.first, own.last⟩
    | cons next rest =>
      rw [List.map_cons, List.map_cons, List.intercalate_cons_cons, ← List.map_cons]
      obtain ⟨c, tail, starts, solid⟩ := own.first
      obtain ⟨-, front, d, ends, solid'⟩ := ih others (List.cons_ne_nil _ _)
      exact ⟨⟨c, _, by rw [starts]; rfl, solid⟩, ⟨name.toList ++ ['/'] ++ front, d, by rw [ends]; simp, solid'⟩⟩

/-- A normalised subfolder has no blanks at its ends and is left as it is. -/
theorem normalizeDownloadSubfolder_normalized {raw subfolder : String} (accepted : normalizeDownloadSubfolder raw = .ok subfolder) :
    Paperless.trim subfolder = subfolder ∧ normalizeDownloadSubfolder subfolder = .ok subfolder := by
  simp only [normalizeDownloadSubfolder] at accepted
  split at accepted
  · cases accepted
    exact ⟨rfl, rfl⟩
  · cases added : List.foldlM addComponent [] ((Paperless.trim raw).toList.splitOnP fun c => c = '/' || c = '\\') with
    | error e =>
      rw [added] at accepted
      cases accepted
    | ok names =>
      rw [added] at accepted
      cases accepted
      have settled := settled_components added (by simp)
      by_cases none_left : names = []
      · subst none_left
        exact ⟨rfl, rfl⟩
      · obtain ⟨⟨c, rest, starts, solid⟩, front, d, finishes, solid'⟩ := joined_ends settled none_left
        have trimmed : Paperless.trim (String.ofList (['/'].intercalate (names.map String.toList))) =
            String.ofList (['/'].intercalate (names.map String.toList)) := by
          refine congrArg String.ofList ?_
          rw [String.toList_ofList]
          refine trimBy_of_ends (fun x tail begins => ?_) fun before x ends => ?_
          · rw [(List.cons.inj (begins.symm.trans starts)).1]
            exact solid
          · rw [List.singleton_inj.mp (List.append_inj' (ends.symm.trans finishes) rfl).2]
            exact solid'
        have parts : (['/'].intercalate (names.map String.toList)).splitOnP (fun c => c = '/' || c = '\\') =
            names.map String.toList := by
          refine splitOnP_intercalate (by decide) (by simpa using none_left) fun part member x inside => ?_
          obtain ⟨name, among, rfl⟩ := List.mem_map.mp member
          obtain ⟨slash, backslash, -⟩ := (settled name among).trimmed.clean x inside
          simp [slash, backslash]
        refine ⟨trimmed, ?_⟩
        have nonempty : String.ofList (['/'].intercalate (names.map String.toList)) ≠ "" := by
          rw [starts]
          intro gone
          have := congrArg String.toList gone
          rw [String.toList_ofList] at this
          cases this
        rw [normalizeDownloadSubfolder]
        dsimp only
        rw [trimmed, if_neg nonempty, String.toList_ofList, parts, addComponents_settled settled]
        rfl

end Components

end NixHomeServer.MailArchive.ZipNames
