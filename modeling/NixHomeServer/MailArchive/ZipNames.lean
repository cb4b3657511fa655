import NixHomeServer.Library.Numbering
import NixHomeServer.Library.Numerals
import NixHomeServer.Library.Paths
import NixHomeServer.MailArchive.Handoff

/-! The names under which a ZIP download holds the selected attachments. -/
namespace NixHomeServer.MailArchive.ZipNames

open NixHomeServer.Library
open NixHomeServer.MailArchive.Paperless (filenameComponent squeeze trimMatches)

abbrev Text := List Char

/-- What is read of the account, the message and the attachment of a selected file. -/
structure Selected where
  displayName : String
  subject : String
  timestamp : Int
  originalFilename : String
  deriving DecidableEq, Repr

section Names

/-- A year beyond four digits has its sign. -/
def yearText (year : Int) : Text :=
  let sign := if year < 0 then ['-'] else if 9999 < year then ['+'] else []
  sign ++ (Nat.toDigits 10 year.natAbs).leftpad 4 '0'

/-- `%Y-%m-%d`. -/
def dayText (year : Int) (month day : Nat) : Text :=
  yearText year ++ '-' :: (Nat.toDigits 10 month).leftpad 2 '0' ++ '-' :: (Nat.toDigits 10 day).leftpad 2 '0'

def dateText (date : Option (Int × Nat × Nat)) : Text :=
  match date with
  | none => "unknown-date".toList
  | some (year, month, day) => dayText year month day

def addComponent (components : List String) (part : Text) : Except String (List String) :=
  let component := filenameComponent (String.ofList part) ""
  if component = "" then .ok components
  else if component = "." ∨ component = ".." then
    .error "Download subfolder cannot contain . or .. path components."
  else .ok (components ++ [component])

def normalizeDownloadSubfolder (raw : String) : Except String String :=
  let trimmed := Paperless.trim raw
  if trimmed = "" then .ok ""
  else (List.foldlM addComponent [] (trimmed.toList.splitOnP fun c => c = '/' || c = '\\')).map fun components =>
    String.ofList (['/'].intercalate (components.map String.toList))

/-- `calendar` is the date of a timestamp, where it has one. -/
def zipEntryName (calendar : Int → Option (Int × Nat × Nat)) (file : Selected) (downloadSubfolder : String) : Text :=
  let accountName := (filenameComponent file.displayName "mailbox").toList
  let subjectName := (filenameComponent file.subject "message").toList
  let entry := accountName ++ '/' :: (dateText (calendar file.timestamp) ++ " - ".toList ++ subjectName) ++
    '/' :: (filenameComponent file.originalFilename "attachment").toList
  if Paperless.trim downloadSubfolder = "" then entry else downloadSubfolder.toList ++ '/' :: entry

def numberText (suffix : Nat) : Text := ' ' :: '(' :: Nat.toDigits 10 suffix ++ [')']

def suffixedFilename (filename : Text) (suffix : Nat) : Text :=
  match cutAtLast '.' filename with
  | some (stem, extension) =>
    if stem = [] ∨ extension = [] then filename ++ numberText suffix
    else stem ++ numberText suffix ++ '.' :: extension
  | none => filename ++ numberText suffix

def zipEntryNameWithNumericSuffix (base : Text) (suffix : Nat) : Text :=
  let suffixed := suffixedFilename ((fileName base).getD base) suffix
  match (parent base).filter (· ≠ []) with
  | some folder => join folder suffixed
  | none => suffixed

def uniqueZipEntryName (base : Text) (usedNames : Text → Nat) : Text × (Text → Nat) :=
  let count := usedNames base
  if count = 0 then (base, Function.update usedNames base 1)
  else (zipEntryNameWithNumericSuffix base count, Function.update usedNames base (count + 1))

/-- The entries one after the other, with one map of counters. -/
def entryNames : List Text → (Text → Nat) → List Text
  | [], _ => []
  | base :: rest, usedNames =>
    (uniqueZipEntryName base usedNames).1 :: entryNames rest (uniqueZipEntryName base usedNames).2

theorem entryNames_eq (bases : List Text) (usedNames : Text → Nat) :
    entryNames bases usedNames =
      (marks bases usedNames).map fun mark => labelled zipEntryNameWithNumericSuffix mark.1 mark.2 := by
  induction bases generalizing usedNames with
  | nil => rfl
  | cons base rest ih =>
    rw [entryNames, ih, marks, List.map_cons]
    by_cases zero : usedNames base = 0 <;> simp [uniqueZipEntryName, labelled, zero]

end Names

section Components

abbrev Clean (c : Char) : Prop := c ≠ '/' ∧ c ≠ '\\' ∧ c ≠ '\x00' ∧ Paperless.isControl c = false

/-- What may stand between the slashes of an entry's name. -/
structure Safe (part : Text) : Prop where
  filled : part ≠ []
  inside : part ≠ ['.'] ∧ part ≠ ['.', '.']
  clean : ∀ c ∈ part, Clean c

/-- A file's own name, as it comes out of the sanitiser. -/
structure Trimmed (part : Text) : Prop extends Safe part where
  first : ∀ rest, part ≠ '.' :: rest
  last : ∀ rest, part ≠ rest ++ ['.']

variable {part text : Text} {c : Char}

theorem digit_clean (digit : c.isDigit = true) : Clean c := by
  have range := isDigit_iff.mp digit
  have low : ¬ c.val < 32 := by
    rw [UInt32.lt_iff_toNat_lt]
    exact Nat.not_lt.mpr (le_trans (by decide) range.1)
  have high : ¬ 127 ≤ c.val := by
    rw [UInt32.le_iff_toNat_le]
    exact Nat.not_le.mpr (lt_of_le_of_lt range.2 (by decide))
  refine ⟨?_, ?_, ?_, by simp [Paperless.isControl, low, high]⟩
  all_goals
    rintro rfl
    exact absurd range (by decide)

/-- A word without dots is a name. -/
theorem trimmed_of_word (filled : part ≠ []) (word : ∀ c ∈ part, Clean c ∧ c ≠ '.') : Trimmed part := by
  have first : ∀ rest, part ≠ '.' :: rest := by
    rintro rest rfl
    exact (word '.' List.mem_cons_self).2 rfl
  have last : ∀ rest, part ≠ rest ++ ['.'] := by
    rintro rest rfl
    exact (word '.' (by simp)).2 rfl
  exact ⟨⟨filled, ⟨first [], first ['.']⟩, fun c member => (word c member).1⟩, first, last⟩

theorem mem_splitOnP {p : Char → Bool} (among : part ∈ text.splitOnP p) (member : c ∈ part) : c ∈ text := by
  induction text generalizing part with
  | nil =>
    rw [List.splitOnP_nil, List.mem_singleton] at among
    exact absurd (among ▸ member) List.not_mem_nil
  | cons x text ih =>
    rw [List.splitOnP_cons_eq_if_modifyHead] at among
    split at among
    · rcases List.mem_cons.mp among with rfl | later
      · exact absurd member List.not_mem_nil
      · exact List.mem_cons_of_mem _ (ih later member)
    · cases parts : text.splitOnP p with
      | nil => exact absurd parts (List.splitOnP_ne_nil p text)
      | cons front back =>
        rw [parts, List.modifyHead_cons] at among
        rcases List.mem_cons.mp among with rfl | later
        · rcases List.mem_cons.mp member with rfl | inside
          · exact List.mem_cons_self
          · exact List.mem_cons_of_mem _ (ih (parts ▸ List.mem_cons_self) inside)
        · exact List.mem_cons_of_mem _ (ih (parts ▸ List.mem_cons_of_mem _ later) member)

theorem mem_squeeze (member : c ∈ squeeze text) : c = ' ' ∨ c ∈ text := by
  rcases mem_intercalate member with same | ⟨word, among, inside⟩
  · exact .inl same
  · exact .inr (mem_splitOnP (List.mem_of_mem_filter among) inside)

/-- What the sanitiser leaves is safe, or it is the fallback. -/
theorem filenameComponent_cases (raw fallback : String) :
    filenameComponent raw fallback = fallback ∨ Trimmed (filenameComponent raw fallback).toList := by
  unfold filenameComponent
  dsimp only
  split
  · exact .inl rfl
  · rename_i kept
    right
    rw [String.toList_ofList]
    set spaced := raw.toList.map fun c => if c = '\x00' || c = '/' || c = '\\' || Paperless.isControl c then ' ' else c
    have trimmed : trimMatches (fun c => c = '.' || c = ' ') (squeeze spaced) =
        trimBy (fun c => c = '.' || c = ' ') (squeeze spaced) := rfl
    rw [trimmed] at kept ⊢
    set body := trimBy (fun c => c = '.' || c = ' ') (squeeze spaced) with body_eq
    have filled : body ≠ [] := by
      intro empty
      rw [empty] at kept
      exact kept (.inl rfl)
    have clean : ∀ c ∈ body, Clean c := by
      intro c member
      rcases mem_squeeze (mem_of_mem_trimBy member) with rfl | spaced_char
      · decide
      · obtain ⟨own, -, rfl⟩ := List.mem_map.mp spaced_char
        split
        · decide
        · rename_i plain
          simp only [Bool.or_eq_true, decide_eq_true_eq, not_or, Bool.not_eq_true] at plain
          exact ⟨plain.1.1.2, plain.1.2, plain.1.1.1, plain.2⟩
    obtain ⟨⟨x, rest, front, first⟩, before, y, back, last⟩ := solid_of_trimBy_ends filled
    rw [← body_eq] at front back
    have unstarted : ∀ rest, body ≠ '.' :: rest := by
      intro others same
      rw [front] at same
      have dot : x = '.' := (List.cons.inj same).1
      rw [dot] at first
      cases first
    have unended : ∀ rest, body ≠ rest ++ ['.'] := by
      intro others same
      rw [back] at same
      have dot : y = '.' := List.singleton_inj.mp (List.append_inj' same rfl).2
      rw [dot] at last
      cases last
    exact ⟨⟨filled, ⟨unstarted [], unstarted ['.']⟩, clean⟩, unstarted, unended⟩

theorem filenameComponent_trimmed (raw : String) {fallback : String} (safe : Trimmed fallback.toList) :
    Trimmed (filenameComponent raw fallback).toList := by
  rcases filenameComponent_cases raw fallback with same | trimmed
  · rw [same]
    exact safe
  · exact trimmed

theorem componentOf_safe (safe : Safe part) : componentOf part = some (.normal part) := by
  simp [componentOf, safe.filled, safe.inside.1, safe.inside.2]

theorem single_of_safe (safe : Safe part) : '/' ∉ part := fun member => (safe.clean '/' member).1 rfl

theorem splitAll_safe (safe : Safe part) : splitAll '/' part = [part] := splitAll_of_not_mem (single_of_safe safe)

end Components

section Entries

variable {folder file base : Text} {k k' : Nat}

/-- A name below a folder, all its components safe. -/
structure Entry (base folder file : Text) : Prop where
  whole : base = folder ++ '/' :: file
  parts : ∀ part ∈ splitAll '/' folder, Safe part
  name : Trimmed file

theorem Entry.under {sub : Text} (entry : Entry base folder file) (parts : ∀ part ∈ splitAll '/' sub, Safe part) :
    Entry (sub ++ '/' :: base) (sub ++ '/' :: folder) file where
  whole := by rw [entry.whole, List.append_assoc, List.cons_append]
  parts part member := by
    rw [splitAll_append] at member
    exact (List.mem_append.mp member).elim (parts part) (entry.parts part)
  name := entry.name

theorem filled_of_parts (parts : ∀ part ∈ splitAll '/' folder, Safe part) : folder ≠ [] := by
  rintro rfl
  exact (parts [] List.mem_cons_self).filled rfl

/-- A folder of safe components is relative. -/
theorem frontLength_of_parts (parts : ∀ part ∈ splitAll '/' folder, Safe part) :
    frontLength (folder ++ '/' :: file) = 0 := by
  obtain ⟨c, rest, rfl⟩ := List.exists_cons_of_ne_nil (filled_of_parts parts)
  have relative : c ≠ '/' := by
    rintro rfl
    exact (parts [] (by simp [splitAll])).filled rfl
  refine if_neg ?_
  rintro (absolute | dot | start)
  · exact relative (Option.some.inj (beq_iff_eq.mp absolute))
  · have long := congrArg List.length dot
    simp at long
  · obtain ⟨after, same⟩ := start
    obtain ⟨rfl, later⟩ := List.cons.inj same
    refine (parts ['.'] ?_).inside.1 rfl
    cases rest with
    | nil => simp [splitAll]
    | cons d rest =>
      have slash : '/' = d := (List.cons.inj later).1
      simp [splitAll, slash.symm]

theorem suffixedFilename_safe (safe : Trimmed file) : Safe (suffixedFilename file k) := by
  have digits : ∀ c ∈ numberText k, Clean c := by
    intro c member
    simp only [numberText, List.cons_append, List.mem_cons, List.mem_append, List.not_mem_nil, or_false] at member
    rcases member with rfl | rfl | digit | rfl
    · decide
    · decide
    · exact digit_clean (Nat.isDigit_of_mem_toDigits (by decide) (by decide) digit)
    · decide
  have long : 4 ≤ (numberText k).length := by
    have some_digit : 0 < (Nat.toDigits 10 k).length := List.length_pos_iff.mpr Nat.toDigits_ne_nil
    simp only [numberText, List.cons_append, List.length_cons, List.length_append, List.length_nil]
    omega
  have made : (∀ c ∈ suffixedFilename file k, c ∈ file ∨ c ∈ numberText k) ∧ 4 ≤ (suffixedFilename file k).length := by
    unfold suffixedFilename
    split
    · rename_i stem extension cut
      obtain ⟨rfl, -⟩ := cutAtLast_eq_some.mp cut
      split
      · exact ⟨fun c member => List.mem_append.mp member, by rw [List.length_append]; omega⟩
      · refine ⟨fun c member => ?_, by simp only [List.length_append]; omega⟩
        rcases List.mem_append.mp member with front | back
        · rcases List.mem_append.mp front with own | number
          · exact .inl (List.mem_append_left _ own)
          · exact .inr number
        · exact .inl (List.mem_append_right _ back)
    · exact ⟨fun c member => List.mem_append.mp member, by rw [List.length_append]; omega⟩
  refine ⟨?_, ⟨?_, ?_⟩, fun c member => (made.1 c member).elim (safe.clean c) (digits c)⟩
  all_goals
    intro same
    have short := made.2
    rw [same] at short
    exact absurd short (by decide)

/-- The number of a later file goes into the last component. -/
theorem Entry.numbered (entry : Entry base folder file) :
    zipEntryNameWithNumericSuffix base k = folder ++ '/' :: suffixedFilename file k := by
  obtain ⟨rfl, parts, name⟩ := entry
  have single := single_of_safe name.toSafe
  obtain ⟨above, own⟩ := parent_append (frontLength_of_parts parts) single (componentOf_safe name.toSafe)
    fun part member => by rw [componentOf_safe (parts part member)]; exact nofun
  have filled := filled_of_parts parts
  have ended : folder.getLast? ≠ some '/' := by
    intro slash
    obtain ⟨front, rfl⟩ := List.getLast?_eq_some_iff.mp slash
    have empty : ([] : Text) ∈ splitAll '/' (front ++ ['/']) := by
      rw [splitAll_append]
      simp [splitAll]
    exact (parts [] empty).filled rfl
  have relative : isAbsolute (suffixedFilename file k) = false := by
    have inside := single_of_safe (suffixedFilename_safe (k := k) name)
    cases text : suffixedFilename file k with
    | nil => rfl
    | cons c rest =>
      rw [text] at inside
      refine beq_eq_false_iff_ne.mpr fun same => inside ?_
      rw [show c = '/' from Option.some.inj same]
      exact List.mem_cons_self
  have kept : (some folder).filter (fun folder => folder ≠ []) = some folder := by
    simp [Option.filter, filled]
  rw [zipEntryNameWithNumericSuffix, above, own]
  simp only [kept, Option.getD_some]
  rw [join, relative, if_neg Bool.false_ne_true, if_neg (not_or.mpr ⟨filled, ended⟩)]

theorem numberText_injective {left right : Text} (same : left ++ numberText k = right ++ numberText k') :
    left = right ∧ k = k' := by
  have inside : ∀ j, '(' ∉ Nat.toDigits 10 j ++ [')'] := by
    intro j member
    rcases List.mem_append.mp member with digit | last
    · exact absurd (isDigit_iff.mp (Nat.isDigit_of_mem_toDigits (by decide) (by decide) digit)) (by decide)
    · exact absurd (List.mem_singleton.mp last) (by decide)
  have cut : cutAtLast '(' (left ++ numberText k) = some (left ++ [' '], Nat.toDigits 10 k ++ [')']) :=
    cutAtLast_eq_some.mpr ⟨by simp [numberText], inside k⟩
  have cut' : cutAtLast '(' (right ++ numberText k') = some (right ++ [' '], Nat.toDigits 10 k' ++ [')']) :=
    cutAtLast_eq_some.mpr ⟨by simp [numberText], inside k'⟩
  rw [same, cut'] at cut
  obtain ⟨front, back⟩ := Prod.mk.inj (Option.some.inj cut)
  have digits : Nat.toDigits 10 k' = Nat.toDigits 10 k := List.append_cancel_right back
  refine ⟨(List.append_cancel_right front).symm, ?_⟩
  have read := numeral_leftpad 0 k
  rw [← digits, numeral_leftpad 0 k'] at read
  exact (Option.some.inj read).symm

theorem dotless_number : '.' ∉ numberText k := by
  simp only [numberText, List.cons_append, List.mem_cons, List.mem_append, List.not_mem_nil, or_false, not_or]
  refine ⟨by decide, by decide, fun digit => ?_, by decide⟩
  exact absurd (isDigit_iff.mp (Nat.isDigit_of_mem_toDigits (by decide) (by decide) digit)) (by decide)

/-- A trimmed name is numbered before its extension, if it has one. -/
theorem suffixedFilename_cases (trimmed : Trimmed file) :
    (∃ stem extension, file = stem ++ '.' :: extension ∧ '.' ∉ extension ∧
      suffixedFilename file k = stem ++ numberText k ++ '.' :: extension) ∨
    ('.' ∉ file ∧ suffixedFilename file k = file ++ numberText k) := by
  cases cut : cutAtLast '.' file with
  | none => exact .inr ⟨cutAtLast_eq_none.mp cut, by rw [suffixedFilename, cut]⟩
  | some parts =>
    obtain ⟨stem, extension⟩ := parts
    obtain ⟨whole, dotless⟩ := cutAtLast_eq_some.mp cut
    refine .inl ⟨stem, extension, whole, dotless, ?_⟩
    rw [suffixedFilename, cut]
    refine if_neg ?_
    rintro (rfl | rfl)
    · exact trimmed.first _ whole
    · exact trimmed.last _ whole

theorem suffixedFilename_injective {file' : Text} (trimmed : Trimmed file) (trimmed' : Trimmed file')
    (same : suffixedFilename file k = suffixedFilename file' k') : file = file' ∧ k = k' := by
  rcases suffixedFilename_cases (k := k) trimmed with ⟨stem, extension, rfl, dotless, made⟩ | ⟨dotless, made⟩ <;>
    rcases suffixedFilename_cases (k := k') trimmed' with ⟨stem', extension', rfl, dotless', made'⟩ | ⟨dotless', made'⟩ <;>
    rw [made, made'] at same
  · have cut := cutAtLast_eq_some.mpr ⟨same, dotless'⟩
    rw [cutAtLast_eq_some.mpr ⟨rfl, dotless⟩] at cut
    obtain ⟨front, rfl⟩ := Prod.mk.inj (Option.some.inj cut)
    obtain ⟨rfl, number⟩ := numberText_injective front
    exact ⟨rfl, number⟩
  · have dot : '.' ∈ file' ++ numberText k' := same ▸ by simp
    exact ((List.mem_append.mp dot).elim dotless' dotless_number).elim
  · have dot : '.' ∈ file ++ numberText k := same ▸ by simp
    exact ((List.mem_append.mp dot).elim dotless dotless_number).elim
  · exact numberText_injective same

theorem Entry.injective {base' folder' file' : Text} (entry : Entry base folder file) (entry' : Entry base' folder' file')
    (same : zipEntryNameWithNumericSuffix base k = zipEntryNameWithNumericSuffix base' k') : base = base' ∧ k = k' := by
  rw [entry.numbered, entry'.numbered] at same
  have cut := cutAtLast_eq_some.mpr ⟨same, single_of_safe (suffixedFilename_safe entry'.name)⟩
  rw [cutAtLast_eq_some.mpr ⟨rfl, single_of_safe (suffixedFilename_safe entry.name)⟩] at cut
  obtain ⟨rfl, names⟩ := Prod.mk.inj (Option.some.inj cut)
  obtain ⟨rfl, number⟩ := suffixedFilename_injective entry.name entry'.name names
  exact ⟨entry.whole.trans entry'.whole.symm, number⟩

theorem Entry.numbered_ne (entry : Entry base folder file) : zipEntryNameWithNumericSuffix base k ≠ base := by
  intro same
  rw [entry.numbered, entry.whole] at same
  have name := (List.cons.inj (List.append_cancel_left same)).2
  have long := congrArg List.length name
  rcases suffixedFilename_cases (k := k) entry.name with ⟨stem, extension, own, -, made⟩ | ⟨-, made⟩ <;>
    rw [made] at long
  · rw [own] at long
    simp only [numberText, List.length_append, List.length_cons] at long
    omega
  · simp [numberText] at long

/-- A name with a number before the extension of its last component, or after it where it has none. -/
def Numbered (k : Nat) (base name : Text) : Prop :=
  (∃ stem extension, base = stem ++ '.' :: extension ∧ '.' ∉ extension ∧ '/' ∉ extension ∧
    name = stem ++ numberText k ++ '.' :: extension) ∨
  (∃ folder file, base = folder ++ '/' :: file ∧ '/' ∉ file ∧ '.' ∉ file ∧ name = base ++ numberText k)

theorem Entry.numbered_iff {name : Text} (entry : Entry base folder file) :
    Numbered k base name ↔ name = zipEntryNameWithNumericSuffix base k := by
  have single := single_of_safe entry.name.toSafe
  have slash : cutAtLast '/' base = some (folder, file) := cutAtLast_eq_some.mpr ⟨entry.whole, single⟩
  rw [entry.numbered]
  rcases suffixedFilename_cases (k := k) entry.name with ⟨stem, extension, own, dotless, made⟩ | ⟨dotless, made⟩
  · have inside : '/' ∉ extension := fun member => single (by rw [own]; simp [member])
    have whole : base = (folder ++ '/' :: stem) ++ '.' :: extension := by rw [entry.whole, own]; simp
    have dot : cutAtLast '.' base = some (folder ++ '/' :: stem, extension) := cutAtLast_eq_some.mpr ⟨whole, dotless⟩
    have target : folder ++ '/' :: suffixedFilename file k = folder ++ '/' :: stem ++ numberText k ++ '.' :: extension := by
      rw [made]
      simp
    rw [target]
    constructor
    · rintro (⟨stem', extension', same, dotless', -, rfl⟩ | ⟨folder', file', same, single', dotless', -⟩)
      · rw [cutAtLast_eq_some.mpr ⟨same, dotless'⟩] at dot
        obtain ⟨rfl, rfl⟩ := Prod.mk.inj (Option.some.inj dot)
        rfl
      · rw [cutAtLast_eq_some.mpr ⟨same, single'⟩] at slash
        obtain ⟨rfl, rfl⟩ := Prod.mk.inj (Option.some.inj slash)
        exact (dotless' (by rw [own]; simp)).elim
    · rintro rfl
      exact .inl ⟨_, extension, whole, dotless, inside, rfl⟩
  · have target : folder ++ '/' :: suffixedFilename file k = base ++ numberText k := by
      rw [made, entry.whole]
      simp
    rw [target]
    constructor
    · rintro (⟨stem, extension, same, -, inside, -⟩ | ⟨-, -, -, -, -, rfl⟩)
      · exfalso
        rw [entry.whole] at same
        rcases List.append_eq_append_iff.mp same with ⟨middle, rfl, back⟩ | ⟨middle, rfl, back⟩
        · cases middle with
          | nil => cases back
          | cons c middle =>
            have within : file = middle ++ '.' :: extension := (List.cons.inj back).2
            exact dotless (by rw [within]; simp)
        · cases middle with
          | nil => cases back
          | cons c middle =>
            have within : extension = middle ++ '/' :: file := (List.cons.inj back).2
            exact inside (by rw [within]; simp)
      · rfl
    · rintro rfl
      exact .inr ⟨folder, file, entry.whole, single, dotless, rfl⟩

end Entries

section Downloads

theorem dateText_clean (date : Option (Int × Nat × Nat)) :
    ∀ c ∈ dateText date, Clean c := by
  cases date with
  | none => exact forall_of_all (by decide)
  | some date =>
    obtain ⟨year, month, day⟩ := date
    intro c member
    have cases_of : (c = '-' ∨ c = '+') ∨ c.isDigit = true := by
      change c ∈ dayText year month day at member
      simp only [dayText, yearText, List.mem_append, List.mem_cons] at member
      rcases member with ((sign | digit) | dash | digit) | dash | digit
      · split at sign
        · exact .inl (.inl (List.mem_singleton.mp sign))
        · split at sign
          · exact .inl (.inr (List.mem_singleton.mp sign))
          · exact absurd sign List.not_mem_nil
      · exact .inr (digits_of_leftpad digit)
      · exact .inl (.inl dash)
      · exact .inr (digits_of_leftpad digit)
      · exact .inl (.inl dash)
      · exact .inr (digits_of_leftpad digit)
    rcases cases_of with (rfl | rfl) | digit
    · decide
    · decide
    · exact digit_clean digit

theorem addComponent_safe {components made : List String} {part : Text} (added : addComponent components part = .ok made)
    (safe : ∀ name ∈ components, Safe name.toList) : ∀ name ∈ made, Safe name.toList := by
  simp only [addComponent] at added
  split at added
  · cases added
    exact safe
  · rename_i kept
    split at added
    · cases added
    · cases added
      intro name member
      rcases List.mem_append.mp member with before | last
      · exact safe name before
      · rw [List.mem_singleton.mp last]
        rcases filenameComponent_cases (String.ofList part) "" with same | trimmed
        · exact (kept same).elim
        · exact trimmed.toSafe

theorem addComponents_safe {components made : List String} {parts : List Text}
    (added : List.foldlM addComponent components parts = .ok made) (safe : ∀ name ∈ components, Safe name.toList) :
    ∀ name ∈ made, Safe name.toList := by
  induction parts generalizing components with
  | nil =>
    cases added
    exact safe
  | cons part parts ih =>
    rw [List.foldlM_cons] at added
    cases first : addComponent components part with
    | error e =>
      rw [first] at added
      cases added
    | ok next =>
      rw [first] at added
      exact ih added (addComponent_safe first safe)

theorem splitAll_join {parts : List Text} (filled : parts ≠ []) (safe : ∀ part ∈ parts, Safe part) :
    splitAll '/' (['/'].intercalate parts) = parts :=
  splitAll_intercalate '/' filled fun part member => single_of_safe (safe part member)

/-- An accepted subfolder is empty or a path of safe components. -/
theorem normalizeDownloadSubfolder_safe {raw subfolder : String} (accepted : normalizeDownloadSubfolder raw = .ok subfolder) :
    subfolder = "" ∨ ∀ part ∈ splitAll '/' subfolder.toList, Safe part := by
  simp only [normalizeDownloadSubfolder] at accepted
  split at accepted
  · cases accepted
    exact .inl rfl
  · cases added : List.foldlM addComponent [] ((Paperless.trim raw).toList.splitOnP fun c => c = '/' || c = '\\') with
    | error e =>
      rw [added] at accepted
      cases accepted
    | ok components =>
      rw [added] at accepted
      cases accepted
      by_cases none_left : components = []
      · left
        rw [none_left]
        rfl
      · right
        have safe := addComponents_safe added nofun
        have filled : components.map String.toList ≠ [] := by simpa using none_left
        have parts : ∀ part ∈ components.map String.toList, Safe part := by
          intro part member
          obtain ⟨name, among, rfl⟩ := List.mem_map.mp member
          exact safe name among
        rw [String.toList_ofList, splitAll_join filled parts]
        exact parts

variable {calendar : Int → Option (Int × Nat × Nat)} {file : Selected} {raw subfolder : String}

theorem zipEntryName_entry (accepted : normalizeDownloadSubfolder raw = .ok subfolder) :
    ∃ folder name, Entry (zipEntryName calendar file subfolder) folder name := by
  have account : Trimmed (filenameComponent file.displayName "mailbox").toList :=
    filenameComponent_trimmed _ (trimmed_of_word (by decide) (forall_of_all (by decide)))
  have subject : Trimmed (filenameComponent file.subject "message").toList :=
    filenameComponent_trimmed _ (trimmed_of_word (by decide) (forall_of_all (by decide)))
  have own : Trimmed (filenameComponent file.originalFilename "attachment").toList :=
    filenameComponent_trimmed _ (trimmed_of_word (by decide) (forall_of_all (by decide)))
  have message : Safe (dateText (calendar file.timestamp) ++ " - ".toList ++ (filenameComponent file.subject "message").toList) := by
    have long : 3 ≤ (dateText (calendar file.timestamp) ++ " - ".toList ++
        (filenameComponent file.subject "message").toList).length := by
      simp only [List.length_append]
      have dash : (" - ".toList).length = 3 := rfl
      omega
    refine ⟨?_, ⟨?_, ?_⟩, fun c member => ?_⟩
    · intro same
      rw [same] at long
      exact absurd long (by decide)
    · intro same
      rw [same] at long
      exact absurd long (by decide)
    · intro same
      rw [same] at long
      exact absurd long (by decide)
    · rcases List.mem_append.mp member with front | name
      · rcases List.mem_append.mp front with date | dash
        · exact dateText_clean _ c date
        · exact (show ∀ c ∈ " - ".toList, Clean c from forall_of_all (by decide)) c dash
      · exact subject.clean c name
  set above := (filenameComponent file.displayName "mailbox").toList ++
    '/' :: (dateText (calendar file.timestamp) ++ " - ".toList ++ (filenameComponent file.subject "message").toList)
  have entry : Entry (above ++ '/' :: (filenameComponent file.originalFilename "attachment").toList) above _ :=
    ⟨rfl, ?_, own⟩
  · unfold zipEntryName
    split
    · exact ⟨_, _, entry⟩
    · rename_i given
      rcases normalizeDownloadSubfolder_safe accepted with rfl | parts
      · exact (given rfl).elim
      · exact ⟨_, _, entry.under parts⟩
  · intro part member
    rw [splitAll_append, splitAll_safe account.toSafe, splitAll_safe message] at member
    rcases List.mem_append.mp member with first | second
    · exact List.mem_singleton.mp first ▸ account.toSafe
    · exact List.mem_singleton.mp second ▸ message

/-- A file in a folder is no file at the top. -/
theorem Entry.ne_of_single {base folder file top : Text} (entry : Entry base folder file) (single : '/' ∉ top) : base ≠ top := by
  rintro rfl
  exact single (by rw [entry.whole]; simp)

theorem Entry.all_safe {base folder file : Text} (entry : Entry base folder file) (k : Nat) :
    ∀ part ∈ splitAll '/' (labelled zipEntryNameWithNumericSuffix base k), Safe part := by
  intro part member
  rw [labelled] at member
  split at member
  · rw [entry.whole, splitAll_append, splitAll_safe entry.name.toSafe] at member
    rcases List.mem_append.mp member with above | last
    · exact entry.parts part above
    · exact List.mem_singleton.mp last ▸ entry.name.toSafe
  · have safe := suffixedFilename_safe (k := k) entry.name
    rw [entry.numbered, splitAll_append, splitAll_safe safe] at member
    rcases List.mem_append.mp member with above | last
    · exact entry.parts part above
    · exact List.mem_singleton.mp last ▸ safe

/-- No name of a download leaves the folder or is that of the manifest. -/
theorem entries_safe (accepted : normalizeDownloadSubfolder raw = .ok subfolder) (files : List Selected) :
    ∀ name ∈ entryNames (files.map fun file => zipEntryName calendar file subfolder) fun _ => 0,
      name ≠ "manifest.json".toList ∧ ∀ part ∈ splitAll '/' name, Safe part := by
  intro name member
  rw [entryNames_eq] at member
  obtain ⟨⟨base, k⟩, mark, rfl⟩ := List.mem_map.mp member
  have few : k < 0 + List.count base (files.map fun file => zipEntryName calendar file subfolder) := (mem_marks.mp mark).2
  have listed : base ∈ files.map fun file => zipEntryName calendar file subfolder :=
    List.count_pos_iff.mp (by omega)
  obtain ⟨file, -, rfl⟩ := List.mem_map.mp listed
  obtain ⟨folder, own, entry⟩ : ∃ folder own, Entry (zipEntryName calendar file subfolder) folder own :=
    zipEntryName_entry accepted
  refine ⟨?_, entry.all_safe k⟩
  rw [labelled]
  split
  · exact entry.ne_of_single (by decide)
  · rw [entry.numbered]
    intro same
    have slash : '/' ∈ "manifest.json".toList := same ▸ by simp
    exact absurd slash (by decide)

/-- The names differ exactly if no file's own name is that of another with a number put in. -/
theorem entry_names_iff (calendar : Int → Option (Int × Nat × Nat)) (files : List Selected)
    (accepted : normalizeDownloadSubfolder raw = .ok subfolder) :
    let bases := files.map fun file => zipEntryName calendar file subfolder
    let names := entryNames bases fun _ => 0
    (names.Nodup ∧ ∀ name ∈ names, name ≠ "manifest.json".toList ∧ ∀ part ∈ splitAll '/' name, Safe part) ↔
      ∀ k base name, 0 < k → k < bases.count base → Numbered k base name → name ∉ bases := by
  intro bases names
  have entries : ∀ base ∈ bases, ∃ folder own, Entry base folder own := by
    intro base member
    obtain ⟨file, -, rfl⟩ := List.mem_map.mp member
    exact zipEntryName_entry accepted
  have distinct : names.Nodup ↔
      ∀ base k, 0 < k → k < bases.count base → zipEntryNameWithNumericSuffix base k ∉ bases := by
    rw [show names = (marks bases fun _ => 0).map fun mark => labelled zipEntryNameWithNumericSuffix mark.1 mark.2 from
      entryNames_eq bases _]
    refine nodup_labelled zipEntryNameWithNumericSuffix (fun base member k => ?_)
      fun base member base' member' k k' same => ?_
    · obtain ⟨_, _, entry⟩ := entries base member
      exact entry.numbered_ne
    · obtain ⟨_, _, entry⟩ := entries base member
      obtain ⟨_, _, entry'⟩ := entries base' member'
      exact entry.injective entry' same
  rw [and_iff_left (entries_safe accepted files), distinct]
  constructor
  · intro apart k base name positive few numbered
    obtain ⟨_, _, entry⟩ := entries base (List.count_pos_iff.mp (by omega))
    exact entry.numbered_iff.mp numbered ▸ apart base k positive few
  · intro apart base k positive few
    obtain ⟨_, _, entry⟩ := entries base (List.count_pos_iff.mp (by omega))
    exact apart k base _ positive few (entry.numbered_iff.mpr rfl)

/-- Three attachments of one message. -/
def threeFiles : List Selected :=
  ["a.pdf", "a.pdf", "a (1).pdf"].map fun name =>
    { displayName := "Post", subject := "Bill", timestamp := 0, originalFilename := name }

theorem threeFiles_clash : normalizeDownloadSubfolder "" = .ok "" ∧
    ¬ (entryNames (threeFiles.map fun file => zipEntryName (fun _ => some (1970, 1, 1)) file "") fun _ => 0).Nodup := by
  refine ⟨by decide +kernel, by decide +kernel⟩

theorem oneFile_named : normalizeDownloadSubfolder "2024/" = .ok "2024" ∧
    (let bases := [zipEntryName (fun _ => none) { displayName := "", subject := "", timestamp := 0, originalFilename := ".." } "2024"]
     let names := entryNames bases fun _ => 0
     (names.Nodup ∧ ∀ name ∈ names, name ≠ "manifest.json".toList ∧ ∀ part ∈ splitAll '/' name, Safe part) ↔
       ∀ k base name, 0 < k → k < bases.count base → Numbered k base name → name ∉ bases) :=
  have accepted : normalizeDownloadSubfolder "2024/" = .ok "2024" := by decide +kernel
  ⟨accepted, entry_names_iff (fun _ => none) [{ displayName := "", subject := "", timestamp := 0, originalFilename := ".." }] accepted⟩

end Downloads

end NixHomeServer.MailArchive.ZipNames
