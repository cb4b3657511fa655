import Mathlib.Data.Char
import Mathlib.Data.List.Lex
import Mathlib.Data.Set.Function
import NixHomeServer.Library.Delimited
import NixHomeServer.Library.Lossy
import NixHomeServer.Library.Numerals
import NixHomeServer.Library.Sorting

/-! The digests that decide whether a document or the files of a source have changed, and which
documents and inventories they tell apart from all others. -/
namespace NixHomeServer.Search.Digests

open NixHomeServer.Library

abbrev Text := List Char
abbrev Bytes := List UInt8

section Digests

/-- JSON values as they are written: each in its own way, and with control characters escaped. -/
structure Serde (Value : Type) where
  text : Value → Text
  injective : Function.Injective text
  escaped : ∀ value, Char.ofNat 0x1F ∉ text value

variable {Value : Type} (json : Serde Value) (sha256 : Bytes → Text)

def unitSeparator : Char := Char.ofNat 0x1F

def sha256Hex (parts : List Text) : Text := sha256 (utf8 (terminated unitSeparator parts))

structure ExtractedDocument (Value : Type) where
  kind : Text
  title : Text
  bodyText : Text
  contentType : Text
  originUrl : Text
  appUrl : Text
  filePath : Text
  contentCreatedAt : Option Int64
  contentModifiedAt : Option Int64
  metadata : Value

def dateText (date : Option Int64) : Text := (date.map fun value => intText value.toInt).getD []

def ExtractedDocument.checksum (document : ExtractedDocument Value) : Text :=
  sha256Hex sha256 [document.kind, document.title, document.bodyText, document.contentType, document.originUrl,
    document.appUrl, document.filePath, json.text document.metadata, dateText document.contentCreatedAt,
    dateText document.contentModifiedAt]

/-- The sources that are watched by their files. -/
inductive SourceType
  | mailArchive
  | browsertrix
  | freshrss
  | calibre
  | mediaSnapshot
  | paperless
  deriving DecidableEq, Repr

def SourceType.text : SourceType → Text
  | mailArchive => "mail-archive".toList
  | browsertrix => "browsertrix".toList
  | freshrss => "freshrss".toList
  | calibre => "calibre".toList
  | mediaSnapshot => "media-snapshot".toList
  | paperless => "paperless".toList

@[ext] structure SourceConfig (Value : Type) where
  sourceType : SourceType
  settings : Value

/-- A path that a file can have. -/
def Path := {bytes : Bytes // bytes ≠ [] ∧ 0 ∉ bytes}

/-- Nanoseconds since the start of 1970, in the range of 64-bit seconds. -/
def SystemTime := {t : Int // -(2 ^ 63 * 10 ^ 9) ≤ t ∧ t < 2 ^ 63 * 10 ^ 9}

@[ext] structure Metadata where
  len : UInt64
  modified : Option SystemTime

def Path.display (path : Path) : Text := fromUtf8Lossy path.val

def SystemTime.sinceEpoch (time : SystemTime) : Option Nat := if 0 ≤ time.val then some time.val.toNat else none

def mtimeNanos (modified : Option SystemTime) : Nat := (modified.bind SystemTime.sinceEpoch).getD 0

def inventoryLine (path : Path) (stat : Metadata) : Text :=
  path.display ++ unitSeparator :: (Nat.toDigits 10 stat.len.toNat ++ unitSeparator :: Nat.toDigits 10 (mtimeNanos stat.modified))

/-- Each file comes with what the file system says of it. -/
def fileInventoryFingerprint (source : SourceConfig Value) (files : List (Path × Option Metadata)) : Option Text := do
  let parts ← files.mapM fun file => file.2.map (inventoryLine file.1)
  return sha256Hex sha256 [source.sourceType.text, json.text source.settings, ['\n'].intercalate (sortBy id parts)]

end Digests

section Documents

variable {Value : Type} {json : Serde Value} {sha256 : Bytes → Text} {parts parts' : List Text}

theorem sha256Hex_inj (collisionFree : Function.Injective sha256) : sha256Hex sha256 parts = sha256Hex sha256 parts' ↔
    terminated unitSeparator parts = terminated unitSeparator parts' :=
  ⟨fun same => utf8_injective (collisionFree same), fun same => congrArg (fun text => sha256 (utf8 text)) same⟩

theorem dateText_clean (date : Option Int64) : unitSeparator ∉ dateText date := by
  cases date with
  | none => exact List.not_mem_nil
  | some value => exact fun member => (chars_of_intText member).elim (by decide) (by decide)

theorem dateText_injective {date date' : Option Int64} (same : dateText date = dateText date') : date = date' := by
  cases date with
  | none =>
    cases date' with
    | none => rfl
    | some value => exact absurd same.symm (intText_ne_nil _)
  | some value =>
    cases date' with
    | none => exact absurd same (intText_ne_nil _)
    | some value' => rw [Int64.toInt_inj.mp (intText_injective same)]

/-- The fields that are hashed as they came. -/
def ExtractedDocument.fields (document : ExtractedDocument Value) : List Text :=
  [document.kind, document.title, document.bodyText, document.contentType, document.originUrl, document.appUrl, document.filePath]

/-- The fields that are written out to be hashed. -/
def ExtractedDocument.values (json : Serde Value) (document : ExtractedDocument Value) : List Text :=
  [json.text document.metadata, dateText document.contentCreatedAt, dateText document.contentModifiedAt]

theorem checksum_inj (collisionFree : Function.Injective sha256) {document other : ExtractedDocument Value} :
    other.checksum json sha256 = document.checksum json sha256 ↔
      terminated unitSeparator (other.fields ++ other.values json) =
        terminated unitSeparator (document.fields ++ document.values json) :=
  sha256Hex_inj collisionFree

theorem values_clean (document : ExtractedDocument Value) : ∀ part ∈ document.values json, unitSeparator ∉ part := by
  simpa [ExtractedDocument.values] using
    ⟨json.escaped document.metadata, dateText_clean document.contentCreatedAt, dateText_clean document.contentModifiedAt⟩

/-- A document is told apart from all others exactly if its texts have no unit separators. -/
theorem document_apart_iff (collisionFree : Function.Injective sha256) (document : ExtractedDocument Value) :
    (∀ other : ExtractedDocument Value, other.checksum json sha256 = document.checksum json sha256 → other = document) ↔
      ∀ field ∈ document.fields, unitSeparator ∉ field := by
  constructor
  · intro apart
    by_contra clean
    have dirty : ∃ field ∈ document.fields, unitSeparator ∈ field := by simpa using clean
    have several : 2 ≤ document.fields.length := by simp [ExtractedDocument.fields]
    obtain ⟨fields, lengths, differ, same⟩ := terminated_ambiguous several dirty
    match fields, lengths with
    | [kind, title, bodyText, contentType, originUrl, appUrl, filePath], _ =>
      refine differ (congrArg ExtractedDocument.fields (apart { document with
        kind, title, bodyText, contentType, originUrl, appUrl, filePath } ((checksum_inj collisionFree).mpr ?_)))
      rw [terminated_append, terminated_append]
      exact congrArg (· ++ terminated unitSeparator (document.values json)) same
  · intro clean other same
    have all : ∀ part ∈ document.fields ++ document.values json, unitSeparator ∉ part := by
      intro part member
      exact (List.mem_append.mp member).elim (clean part) (values_clean document part)
    have lengths : (document.fields ++ document.values json).length = (other.fields ++ other.values json).length := rfl
    have equal := eq_of_terminated all lengths ((checksum_inj collisionFree).mp same).symm
    cases document
    cases other
    simp only [ExtractedDocument.fields, ExtractedDocument.values, List.cons_append, List.nil_append, List.cons.injEq,
      and_true] at equal
    obtain ⟨rfl, rfl, rfl, rfl, rfl, rfl, rfl, metadata, created, modified⟩ := equal
    rw [json.injective metadata, dateText_injective created, dateText_injective modified]

end Documents

section Lines

variable {x y : Text} {s t : Metadata} {path path' : Path} {n m : Nat}

/-- The end of a line: what the file system says of the file. -/
def statText (stat : Metadata) : Text :=
  unitSeparator :: (Nat.toDigits 10 stat.len.toNat ++ unitSeparator :: Nat.toDigits 10 (mtimeNanos stat.modified))

theorem inventoryLine_eq (path : Path) (stat : Metadata) : inventoryLine path stat = path.display ++ statText stat := rfl

theorem toDigits_injective (same : Nat.toDigits 10 n = Nat.toDigits 10 m) : n = m := by
  have read (k : Nat) : numeral 10 (Nat.toDigits 10 k) = some k := by simpa [List.leftpad] using numeral_leftpad 0 k
  have first := read n
  rw [same, read m] at first
  exact (Option.some.inj first).symm

theorem not_mem_digits {c : Char} (other : c.isDigit = false) (n : Nat) : c ∉ Nat.toDigits 10 n := fun member => by
  rw [Nat.isDigit_of_mem_toDigits (by decide) (by decide) member] at other
  cases other

/-- Length and time stand behind the last two separators of a line. -/
theorem append_statText_inj (same : x ++ statText s = y ++ statText t) :
    x = y ∧ s.len = t.len ∧ mtimeNanos s.modified = mtimeNanos t.modified := by
  have clean (k : Nat) : unitSeparator ∉ Nat.toDigits 10 k := not_mem_digits (by decide) k
  have parted : (x ++ unitSeparator :: Nat.toDigits 10 s.len.toNat) ++ unitSeparator :: Nat.toDigits 10 (mtimeNanos s.modified) =
      (y ++ unitSeparator :: Nat.toDigits 10 t.len.toNat) ++ unitSeparator :: Nat.toDigits 10 (mtimeNanos t.modified) := by
    simpa [statText] using same
  obtain ⟨front, times⟩ := last_cut parted (clean _) (clean _)
  obtain ⟨paths, lengths⟩ := last_cut front (clean _) (clean _)
  exact ⟨paths, UInt64.toNat_inj.mp (toDigits_injective lengths), toDigits_injective times⟩

theorem statText_chars {c : Char} (member : c ∈ statText s) : c = unitSeparator ∨ c.isDigit = true := by
  have digit {k : Nat} (inside : c ∈ Nat.toDigits 10 k) : c.isDigit = true :=
    Nat.isDigit_of_mem_toDigits (by decide) (by decide) inside
  rcases List.mem_cons.mp member with same | member
  · exact .inl same
  · rcases List.mem_append.mp member with inside | member
    · exact .inr (digit inside)
    · exact (List.mem_cons.mp member).imp_right digit

/-- A text that is a path as it stands. -/
def Legal (text : Text) : Prop := text ≠ [] ∧ Char.ofNat 0 ∉ text

theorem zero_of_utf8 {text : Text} (member : 0 ∈ utf8 text) : Char.ofNat 0 ∈ text := by
  obtain ⟨c, inside, encoded⟩ := List.mem_flatMap.mp member
  obtain ⟨-, value⟩ := encode_of_low encoded (by decide)
  have same : c = Char.ofNat 0 := Char.ext (UInt32.toNat_inj.mp value)
  exact same ▸ inside

def Path.ofText (text : Text) (legal : Legal text) : Path :=
  ⟨utf8 text, by
    refine ⟨fun empty => legal.1 ?_, fun member => legal.2 (zero_of_utf8 member)⟩
    exact utf8_injective (empty.trans utf8_nil.symm)⟩

theorem display_ofText {text : Text} (legal : Legal text) : (Path.ofText text legal).display = text := fromUtf8Lossy_utf8 text

theorem display_legal (path : Path) : Legal path.display := by
  have decodes := decodes_fromUtf8Lossy path.val
  constructor
  · intro empty
    rw [show fromUtf8Lossy path.val = [] from empty] at decodes
    exact path.property.1 decodes.eq_nil
  · intro member
    have zero := decodes.mem member (by decide) 0
    exact path.property.2 (zero (by decide))

/-- A path without replacements is told by how it is displayed. -/
theorem display_injective (clean : replacement ∉ path.display) (same : path.display = path'.display) : path = path' := by
  have first := (decodes_fromUtf8Lossy path.val).eq_utf8 clean
  have second := (decodes_fromUtf8Lossy path'.val).eq_utf8 (show replacement ∉ path'.display from same ▸ clean)
  exact Subtype.ext ((first.trans (congrArg utf8 same)).trans second.symm)

/-- One with a replacement is not. -/
theorem display_ambiguous (dirty : replacement ∈ path.display) : ∃ other : Path, other ≠ path ∧ other.display = path.display := by
  obtain ⟨left, right, split⟩ := List.append_of_mem dirty
  have legal := display_legal path
  by_cases whole : Path.ofText path.display legal = path
  · have bytes : path.val = utf8 left ++ ([0xEF, 0xBF, 0xBD] ++ utf8 right) := by
      have own : path.val = utf8 path.display := congrArg Subtype.val whole.symm
      rw [own, split, utf8_append, utf8_cons]
      rfl
    have zero : 0 ∉ utf8 left ++ 0xFF :: utf8 right := by
      intro member
      refine legal.2 ?_
      rw [split]
      rcases List.mem_append.mp member with inside | member
      · exact List.mem_append_left _ (zero_of_utf8 inside)
      · rcases List.mem_cons.mp member with same | inside
        · exact absurd same (by decide)
        · exact List.mem_append_right _ (List.mem_cons_of_mem _ (zero_of_utf8 inside))
    refine ⟨⟨utf8 left ++ 0xFF :: utf8 right, by simp, zero⟩, fun same => ?_, ?_⟩
    · have values := congrArg Subtype.val same
      rw [bytes] at values
      have head := (List.cons.inj (List.append_cancel_left values)).1
      exact absurd head (by decide)
    · rw [split]
      have broken : lossyFrom none (0xFF :: utf8 right) = replacement :: right :=
        congrArg (replacement :: ·) (fromUtf8Lossy_utf8 right)
      exact (lossyFrom_utf8 left _).trans (congrArg (left ++ ·) broken)
  · exact ⟨_, whole, display_ofText legal⟩

end Lines

section Inventories

structure Inventory (Value : Type) where
  source : SourceConfig Value
  files : List (Path × Metadata)

variable {Value : Type} {json : Serde Value} {sha256 : Bytes → Text} {I I' : Inventory Value} {path : Path} {stat : Metadata}

variable (json sha256) in
/-- The fingerprint of files that the file system knows. -/
def Inventory.fingerprint (I : Inventory Value) : Option Text :=
  fileInventoryFingerprint json sha256 I.source (I.files.map fun file => (file.1, some file.2))

/-- The source, its settings, and the files with their lengths and times in some order. -/
def Inventory.Same (I I' : Inventory Value) : Prop := I.source = I'.source ∧ I.files.Perm I'.files

def Inventory.lines (I : Inventory Value) : List Text := sortBy id (I.files.map fun file => inventoryLine file.1 file.2)

theorem lines_perm (I : Inventory Value) : I.lines.Perm (I.files.map fun file => inventoryLine file.1 file.2) := sortBy_perm id _

theorem fingerprint_eq (I : Inventory Value) : I.fingerprint json sha256 =
    some (sha256Hex sha256 [I.source.sourceType.text, json.text I.source.settings, ['\n'].intercalate I.lines]) := by
  have parts : (I.files.map fun file => (file.1, some file.2)).mapM (fun file => file.2.map (inventoryLine file.1)) =
      some (I.files.map fun file => inventoryLine file.1 file.2) := by
    induction I.files with
    | nil => rfl
    | cons file rest ih => simp [ih]
  rw [Inventory.fingerprint, fileInventoryFingerprint, parts]
  rfl

theorem sourceType_clean (source : SourceType) : unitSeparator ∉ source.text := by
  cases source <;> decide

theorem sourceType_injective {source source' : SourceType} (same : source.text = source'.text) : source = source' := by
  revert same
  cases source <;> cases source' <;> decide

theorem json_clean (value : Value) : unitSeparator ∉ json.text value := json.escaped value

/-- Equal fingerprints are equal sources and equal lines written one after another. -/
theorem fingerprint_eq_iff (collisionFree : Function.Injective sha256) : I.fingerprint json sha256 = I'.fingerprint json sha256 ↔
    I.source = I'.source ∧ ['\n'].intercalate I.lines = ['\n'].intercalate I'.lines := by
  rw [fingerprint_eq, fingerprint_eq, Option.some.injEq, sha256Hex_inj collisionFree,
    terminated_cons_inj (sourceType_clean _) (sourceType_clean _),
    terminated_cons_inj (json_clean I.source.settings) (json_clean I'.source.settings), ← and_assoc]
  refine and_congr ⟨?_, ?_⟩ (by simp [terminated_cons])
  · rintro ⟨types, settings⟩
    exact SourceConfig.ext (sourceType_injective types) (json.injective settings)
  · rintro same
    rw [same]
    exact ⟨rfl, rfl⟩

theorem line_filled (file : Path × Metadata) : inventoryLine file.1 file.2 ≠ [] := by
  simp [inventoryLine]

theorem mem_lines {line : Text} : line ∈ I.lines ↔ ∃ file ∈ I.files, inventoryLine file.1 file.2 = line := by
  rw [Inventory.lines, mem_sortBy, List.mem_map]

theorem length_lines (I : Inventory Value) : I.lines.length = I.files.length := by
  rw [(lines_perm I).length_eq, List.length_map]

theorem joined_eq_nil : ['\n'].intercalate I.lines = [] ↔ I.files = [] := by
  rw [← List.length_eq_zero_iff (l := I.files), ← length_lines]
  constructor
  · intro empty
    cases lines : I.lines with
    | nil => rfl
    | cons line rest =>
      obtain ⟨file, -, same⟩ := mem_lines.mp (lines ▸ List.mem_cons_self : line ∈ I.lines)
      obtain ⟨c, text, whole⟩ := List.exists_cons_of_ne_nil (line_filled file)
      rw [lines, ← same, whole] at empty
      cases rest <;> simp [List.intercalate_cons_cons] at empty
  · intro none
    rw [List.length_eq_zero_iff.mp none]
    rfl

theorem lines_single (only : I.files = [(path, stat)]) : ['\n'].intercalate I.lines = inventoryLine path stat := by
  have perm := lines_perm I
  rw [only] at perm
  rw [List.perm_singleton.mp perm]
  exact List.intercalate_singleton

/-- Time stamps after the first nanosecond of 1970 are what they are written as. -/
def Timed (stat : Metadata) : Prop := ∃ time, stat.modified = some time ∧ 0 < time.val

/-- The path is the line of a file, a line break and another path, and these would be the lines of two
files in order. -/
def Splits (path : Path) (stat : Metadata) : Prop := ∃ (first : Path) (before : Metadata) (second : Path),
  path.display = inventoryLine first before ++ '\n' :: second.display ∧ inventoryLine first before ≤ inventoryLine second stat

theorem mtimeNanos_timed {t : Metadata} (timed : Timed stat) (same : mtimeNanos t.modified = mtimeNanos stat.modified) :
    t.modified = stat.modified := by
  obtain ⟨time, modified, after⟩ := timed
  have value : mtimeNanos stat.modified = time.val.toNat := by
    simp [mtimeNanos, SystemTime.sinceEpoch, modified, after.le]
  rw [value] at same
  cases own : t.modified with
  | none =>
    rw [own] at same
    simp [mtimeNanos] at same
    omega
  | some time' =>
    rw [own] at same
    rw [modified]
    by_cases positive : 0 ≤ time'.val
    · simp [mtimeNanos, SystemTime.sinceEpoch, positive] at same
      exact congrArg some (Subtype.ext (by omega))
    · simp [mtimeNanos, SystemTime.sinceEpoch, positive] at same
      omega

theorem untimed_ambiguous (untimed : ¬ Timed stat) :
    ∃ other : Metadata, other ≠ stat ∧ other.len = stat.len ∧ mtimeNanos other.modified = mtimeNanos stat.modified := by
  have zero : mtimeNanos stat.modified = 0 := by
    cases own : stat.modified with
    | none => rfl
    | some time =>
      by_cases positive : 0 ≤ time.val
      · have start : ¬ 0 < time.val := fun after => untimed ⟨time, own, after⟩
        simp [mtimeNanos, SystemTime.sinceEpoch, positive]
        omega
      · simp [mtimeNanos, SystemTime.sinceEpoch, positive]
  rw [zero]
  let epoch : SystemTime := ⟨0, by decide⟩
  let earlier : SystemTime := ⟨-1, by decide⟩
  by_cases start : stat.modified = some epoch
  · refine ⟨{ stat with modified := some earlier }, fun same => ?_, rfl, rfl⟩
    have modified := congrArg Metadata.modified same
    rw [start] at modified
    exact absurd (congrArg Subtype.val (Option.some.inj modified)) (by decide)
  · exact ⟨{ stat with modified := some epoch }, fun same => start (congrArg Metadata.modified same).symm, rfl, rfl⟩

theorem zero_not_mem_line (path : Path) (stat : Metadata) : Char.ofNat 0 ∉ inventoryLine path stat := by
  intro member
  rcases List.mem_append.mp (inventoryLine_eq path stat ▸ member) with inside | after
  · exact (display_legal path).2 inside
  · exact (statText_chars after).elim (by decide) (by decide)

/-- Lines one after another are the line of a longer path. -/
theorem joined_line {lines : List Text} (filled : lines ≠ []) (each : ∀ line ∈ lines, ∃ path stat, inventoryLine path stat = line) :
    ∃ path stat, ['\n'].intercalate lines = inventoryLine path stat := by
  induction lines with
  | nil => exact absurd rfl filled
  | cons line rest ih =>
    obtain ⟨path, stat, rfl⟩ := each line List.mem_cons_self
    cases rest with
    | nil => exact ⟨path, stat, List.intercalate_singleton⟩
    | cons next rest =>
      obtain ⟨later, stat', joined⟩ := ih (List.cons_ne_nil _ _) fun line member => each line (List.mem_cons_of_mem _ member)
      have legal : Legal (inventoryLine path stat ++ '\n' :: later.display) := by
        refine ⟨by simp, fun member => ?_⟩
        rcases List.mem_append.mp member with inside | member
        · exact zero_not_mem_line path stat inside
        · exact (List.mem_cons.mp member).elim (by decide) (display_legal later).2
      refine ⟨.ofText _ legal, stat', ?_⟩
      rw [List.intercalate_cons_cons, joined, inventoryLine_eq (.ofText _ legal), display_ofText, inventoryLine_eq later]
      simp

theorem lines_each (I : Inventory Value) : ∀ line ∈ I.lines, ∃ path stat, inventoryLine path stat = line := by
  intro line member
  obtain ⟨file, -, same⟩ := mem_lines.mp member
  exact ⟨file.1, file.2, same⟩

theorem le_joined (line : Text) (rest : List Text) : line ≤ ['\n'].intercalate (line :: rest) := by
  cases rest with
  | nil => exact le_of_eq List.intercalate_singleton.symm
  | cons next rest =>
    rw [List.intercalate_cons_cons, List.append_assoc]
    exact not_lt.mp List.le_append_left

/-- An inventory whose lines are those of one file is that file, unless the path splits. -/
theorem files_of_line (timed : Timed stat) (whole : replacement ∉ path.display) (unsplit : ¬ Splits path stat)
    (joined : ['\n'].intercalate I.lines = inventoryLine path stat) : I.files = [(path, stat)] := by
  have count := length_lines I
  cases lines : I.lines with
  | nil =>
    rw [lines] at joined
    exact absurd joined.symm (line_filled (path, stat))
  | cons line rest =>
    rw [lines] at count
    cases rest with
    | nil =>
      obtain ⟨⟨path', stat'⟩, only⟩ := List.length_eq_one_iff.mp count.symm
      rw [lines_single only, inventoryLine_eq, inventoryLine_eq] at joined
      obtain ⟨paths, lengths, times⟩ := append_statText_inj joined
      rw [only, display_injective whole paths.symm, Metadata.ext lengths (mtimeNanos_timed timed times)]
    | cons next rest =>
      refine absurd ?_ unsplit
      have sorted := sortBy_pairwise id (I.files.map fun file => inventoryLine file.1 file.2)
      obtain ⟨first, before, own⟩ := lines_each I line (lines ▸ List.mem_cons_self)
      obtain ⟨second, after, later⟩ := joined_line (List.cons_ne_nil next rest) fun line member =>
        lines_each I line (lines ▸ List.mem_cons_of_mem _ member)
      rw [lines, List.intercalate_cons_cons, later, ← own, inventoryLine_eq second, inventoryLine_eq path] at joined
      have parted : (inventoryLine first before ++ '\n' :: second.display) ++ statText after = path.display ++ statText stat := by
        simpa using joined
      obtain ⟨display, lengths, times⟩ := append_statText_inj parted
      refine ⟨first, before, second, display.symm, ?_⟩
      have ordered : line ≤ next := (List.pairwise_cons.mp (lines ▸ sorted : (line :: next :: rest).Pairwise _)).1 next List.mem_cons_self
      rw [own]
      refine ordered.trans ((le_joined next rest).trans (le_of_eq (later.trans ?_)))
      rw [inventoryLine, inventoryLine, lengths, times]

/-- Files whose lines are the same are the same to the fingerprint. -/
theorem same_of_joined (collisionFree : Function.Injective sha256) (files : List (Path × Metadata))
    (apart : ∀ other : Inventory Value, other.fingerprint json sha256 = I.fingerprint json sha256 → other.Same I)
    (joined : ['\n'].intercalate (sortBy id (files.map fun file => inventoryLine file.1 file.2)) = ['\n'].intercalate I.lines) :
    files.Perm I.files :=
  (apart ⟨I.source, files⟩ ((fingerprint_eq_iff collisionFree).mpr ⟨rfl, joined⟩)).2

/-- An inventory is told apart from all others exactly if it has no files, or one whose time is after the start of
1970 and whose path needs no replacement and does not split. -/
theorem inventory_apart_iff (collisionFree : Function.Injective sha256) (I : Inventory Value) :
    (∀ other : Inventory Value, other.fingerprint json sha256 = I.fingerprint json sha256 → other.Same I) ↔
      I.files = [] ∨ ∃ path stat, I.files = [(path, stat)] ∧ Timed stat ∧ replacement ∉ path.display ∧ ¬ Splits path stat := by
  constructor
  · intro apart
    match files : I.files with
    | [] => exact .inl rfl
    | [(path, stat)] =>
      have own := lines_single files
      have single (path' : Path) (stat' : Metadata) (same : inventoryLine path' stat' = inventoryLine path stat) :
          (path', stat') = (path, stat) := by
        have perm := same_of_joined collisionFree [(path', stat')] apart (by
          rw [own, ← same]
          exact lines_single (I := ⟨I.source, _⟩) rfl)
        rw [files] at perm
        exact (List.cons.inj (List.perm_singleton.mp perm)).1
      refine .inr ⟨path, stat, rfl, ?_, ?_, ?_⟩
      · by_contra untimed
        obtain ⟨stat', differ, lengths, times⟩ := untimed_ambiguous untimed
        exact differ (Prod.mk.inj (single path stat' (by rw [inventoryLine, inventoryLine, lengths, times]))).2
      · intro dirty
        obtain ⟨path', differ, display⟩ := display_ambiguous dirty
        exact differ (Prod.mk.inj (single path' stat (by rw [inventoryLine, inventoryLine, display]))).1
      · rintro ⟨first, before, second, display, ordered⟩
        have sorted : sortBy id [inventoryLine first before, inventoryLine second stat] =
            [inventoryLine first before, inventoryLine second stat] :=
          (Telling.sortBy_eq_iff fun _ _ _ _ same => same).mpr (by simpa using ordered)
        have perm := same_of_joined collisionFree [(first, before), (second, stat)] apart (by
          rw [own, List.map_cons, List.map_cons, List.map_nil, sorted, List.intercalate_cons_cons, List.intercalate_singleton,
            inventoryLine_eq path, display]
          simp [inventoryLine_eq second])
        simpa [files] using perm.length_eq
    | first :: second :: rest =>
      have filled : I.lines ≠ [] := by
        rw [ne_eq, ← List.length_eq_zero_iff, length_lines, files]
        simp
      obtain ⟨path, stat, joined⟩ := joined_line filled (lines_each I)
      have perm := same_of_joined collisionFree [(path, stat)] apart (by
        rw [joined]
        exact lines_single (I := ⟨I.source, _⟩) rfl)
      simpa [files] using perm.length_eq
  · intro condition other same
    obtain ⟨source, joined⟩ := (fingerprint_eq_iff collisionFree).mp same
    refine ⟨source, ?_⟩
    rcases condition with none | ⟨path, stat, only, timed, whole, unsplit⟩
    · rw [joined_eq_nil.mpr none] at joined
      rw [none, joined_eq_nil.mp joined]
    · rw [lines_single only] at joined
      rw [only, files_of_line timed whole unsplit joined]

/-- A file whose path has no line break and needs no replacement, with a time after the start of 1970. -/
def Plain (file : Path × Metadata) : Prop :=
  '\n' ∉ file.1.display ∧ replacement ∉ file.1.display ∧ Timed file.2

theorem line_injOn : Set.InjOn (fun file : Path × Metadata => inventoryLine file.1 file.2) {file | Plain file} := by
  rintro ⟨path, stat⟩ ⟨-, whole, -⟩ ⟨path', stat'⟩ ⟨-, -, timed⟩ same
  obtain ⟨paths, lengths, times⟩ := append_statText_inj same
  exact Prod.ext (display_injective whole paths) (Metadata.ext lengths (mtimeNanos_timed timed times))

theorem plain_unbroken {file : Path × Metadata} (plain : Plain file) : '\n' ∉ inventoryLine file.1 file.2 := by
  intro member
  rcases List.mem_append.mp (inventoryLine_eq file.1 file.2 ▸ member) with inside | after
  · exact plain.1 inside
  · exact (statText_chars after).elim (by decide) (by decide)

/-- Inventories of plain files are told apart. -/
theorem plain_apart (collisionFree : Function.Injective sha256) (plain : ∀ file ∈ I.files, Plain file)
    (plain' : ∀ file ∈ I'.files, Plain file) (same : I.fingerprint json sha256 = I'.fingerprint json sha256) : I.Same I' := by
  obtain ⟨source, joined⟩ := (fingerprint_eq_iff collisionFree).mp same
  refine ⟨source, ?_⟩
  have unbroken {J : Inventory Value} (plain : ∀ file ∈ J.files, Plain file) : ∀ line ∈ J.lines, '\n' ∉ line := by
    intro line member
    obtain ⟨file, own, rfl⟩ := mem_lines.mp member
    exact plain_unbroken (plain file own)
  by_cases none : I.files = []
  · rw [none, joined_eq_nil.mp (joined.symm.trans (joined_eq_nil.mpr none))]
  · have none' : I'.files ≠ [] := fun empty => none (joined_eq_nil.mp (joined.trans (joined_eq_nil.mpr empty)))
    have filled {J : Inventory Value} (some : J.files ≠ []) : J.lines ≠ [] := fun empty =>
      some (List.length_eq_zero_iff.mp ((length_lines J).symm.trans (congrArg List.length empty)))
    have lines : I.lines = I'.lines := by
      rw [← splitAll_intercalate '\n' (filled none) (unbroken plain), joined,
        splitAll_intercalate '\n' (filled none') (unbroken plain')]
    have perm := (lines_perm I).symm.trans (lines ▸ lines_perm I')
    -- a plain file is read back from its line
    obtain ⟨file, -⟩ := List.exists_mem_of_ne_nil _ none
    have : Nonempty (Path × Metadata) := ⟨file⟩
    have back {files : List (Path × Metadata)} (plain : ∀ file ∈ files, Plain file) :
        (files.map fun file => inventoryLine file.1 file.2).map
          (Function.invFunOn (fun file : Path × Metadata => inventoryLine file.1 file.2) {file | Plain file}) = files := by
      rw [List.map_map]
      exact (List.map_congr_left fun file own => line_injOn.leftInvOn_invFunOn (plain file own)).trans (List.map_id files)
    have files := perm.map (Function.invFunOn (fun file : Path × Metadata => inventoryLine file.1 file.2) {file | Plain file})
    rwa [back plain, back plain'] at files

end Inventories

section Results

variable {Value : Type} {json : Serde Value} {sha256 : Bytes → Text}

/-- Which documents and inventories the digests tell apart, with a hash that has no collisions. -/
theorem digests_separate (collisionFree : Function.Injective sha256) :
    (∀ document : ExtractedDocument Value,
      (∀ other : ExtractedDocument Value, other.checksum json sha256 = document.checksum json sha256 → other = document) ↔
        ∀ field ∈ document.fields, unitSeparator ∉ field) ∧
    (∀ I : Inventory Value,
      (∀ other : Inventory Value, other.fingerprint json sha256 = I.fingerprint json sha256 → other.Same I) ↔
        I.files = [] ∨ ∃ path stat, I.files = [(path, stat)] ∧ Timed stat ∧ replacement ∉ path.display ∧ ¬ Splits path stat) ∧
    (∀ I I' : Inventory Value, (∀ file ∈ I.files, Plain file) → (∀ file ∈ I'.files, Plain file) →
      I.fingerprint json sha256 = I'.fingerprint json sha256 → I.Same I') :=
  ⟨document_apart_iff collisionFree, inventory_apart_iff collisionFree, fun _ _ => plain_apart collisionFree⟩

def boolJson : Serde Bool where
  text value := if value then ['t', 'r', 'u', 'e'] else ['f', 'a', 'l', 's', 'e']
  injective := fun a b => by cases a <;> cases b <;> decide
  escaped := by decide

def note : ExtractedDocument Bool where
  kind := "note".toList
  title := "Groceries".toList
  bodyText := "milk and bread".toList
  contentType := "text/plain".toList
  originUrl := "https://notes.test/1".toList
  appUrl := "https://notes.test/app/1".toList
  filePath := []
  contentCreatedAt := some 1700000000
  contentModifiedAt := none
  metadata := true

/-- A hash without collisions that is SHA-256 on the note. -/
def noteDigest (bytes : Bytes) : Text :=
  if bytes = utf8 (terminated unitSeparator (note.fields ++ note.values boolJson)) then
    'd' :: "0f12607117c0226619c59e7e967c4562061e28fe0728ae21d1dc718bab21230".toList
  else 'x' :: bytes.map fun b => Char.ofNat b.toNat

theorem noteDigest_injective : Function.Injective noteDigest := by
  intro bytes bytes' same
  unfold noteDigest at same
  split at same
  · split at same
    · rename_i own own'
      exact own.trans own'.symm
    · exact absurd (List.cons.inj same).1 (by decide)
  · split at same
    · exact absurd (List.cons.inj same).1 (by decide)
    · refine List.map_injective_iff.mpr (fun a b equal => ?_) (List.cons.inj same).2
      have table : ∀ k < 256, (Char.ofNat k).toNat = k := by decide +kernel
      have values := congrArg Char.toNat equal
      rw [table _ a.toNat_lt, table _ b.toNat_lt] at values
      exact UInt8.toNat_inj.mp values

theorem note_told_apart : (∀ field ∈ note.fields, unitSeparator ∉ field) ∧ ∀ other : ExtractedDocument Bool,
    other.checksum boolJson noteDigest = note.checksum boolJson noteDigest → other = note :=
  ⟨by decide, ((digests_separate noteDigest_injective).1 note).mpr (by decide)⟩

/-- A unit separator that moves from the title to the text changes nothing that is hashed. -/
theorem not_told_apart : ¬ ∀ document other : ExtractedDocument Bool,
    document.checksum boolJson noteDigest = other.checksum boolJson noteDigest → document = other := by
  intro apart
  have same := apart { note with title := ['a', unitSeparator, 'b'], bodyText := ['c'] }
    { note with title := ['a'], bodyText := ['b', unitSeparator, 'c'] } rfl
  exact absurd (congrArg ExtractedDocument.title same) (by decide)

end Results

end NixHomeServer.Search.Digests
