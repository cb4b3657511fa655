import NixHomeServer.MailArchive.Refresh
import Mathlib.Data.List.Induction
import Mathlib.Data.List.Nodup

/-! What a refresh leaves under each message key, and exactly when that agrees with a rebuild. -/
namespace NixHomeServer.MailArchive.Catalogue

open NixHomeServer.Library

section Rows

variable {c : Catalog} {key other : String}

theorem messagesOf_deleteAttachments : (c.deleteAttachments other).messagesOf key = c.messagesOf key := rfl

theorem attachmentsOf_deleteMessages (gone : MessageRow → Bool) :
    (c.deleteMessages gone).attachmentsOf key = c.attachmentsOf key := rfl

theorem attachmentsOf_deleteAttachments : (c.deleteAttachments other).attachmentsOf key =
    if key = other then [] else c.attachmentsOf key := by
  simp only [Catalog.attachmentsOf, Catalog.deleteAttachments, List.filter_filter]
  split
  · rename_i same
    subst same
    refine List.filter_eq_nil_iff.mpr fun row _ => ?_
    simp only [Bool.and_eq_true, beq_iff_eq, bne_iff_ne, ne_eq]
    exact fun both => both.2 both.1
  · rename_i different
    refine List.filter_congr fun row _ => ?_
    cases equal : row.messageKey == key with
    | false => rfl
    | true =>
      rw [Bool.true_and, bne_iff_ne, beq_iff_eq.mp equal]
      exact different

theorem messagesOf_deleteMessages (gone : MessageRow → Bool) :
    (c.deleteMessages gone).messagesOf key = (c.messagesOf key).filter fun row => !gone row := by
  simp only [Catalog.messagesOf, Catalog.deleteMessages, List.filter_filter]
  exact List.filter_congr fun row _ => Bool.and_comm _ _

theorem mem_messagesOf {row : MessageRow} : row ∈ c.messagesOf key ↔ row ∈ c.messages ∧ row.messageKey = key := by
  simp only [Catalog.messagesOf, List.mem_filter, beq_iff_eq]

theorem messagesOf_insert (row : MessageRow) (attachments : List AttachmentRow) :
    (c.insert row attachments).messagesOf key =
      c.messagesOf key ++ if row.messageKey = key then [row] else [] := by
  simp only [Catalog.messagesOf, Catalog.insert, List.filter_append, List.filter_cons, List.filter_nil, beq_iff_eq]

theorem attachmentRows_filter (m : Message) (now : Nat) :
    (attachmentRows m now).filter (fun row => row.messageKey == key) =
      if m.key = key then attachmentRows m now else [] := by
  have each : ∀ row ∈ attachmentRows m now, row.messageKey = m.key := by
    intro row member
    obtain ⟨index, _, rfl⟩ := List.mem_mapIdx.mp member
    rfl
  split
  · rename_i same
    refine List.filter_eq_self.mpr fun row member => ?_
    rw [each row member, same, beq_self_eq_true]
  · rename_i different
    refine List.filter_eq_nil_iff.mpr fun row member equal => different ?_
    rw [← each row member]
    exact beq_iff_eq.mp equal

theorem attachmentsOf_insert (row : MessageRow) (m : Message) (now : Nat) :
    (c.insert row (attachmentRows m now)).attachmentsOf key =
      c.attachmentsOf key ++ if m.key = key then attachmentRows m now else [] := by
  simp only [Catalog.attachmentsOf, Catalog.insert, List.filter_append, attachmentRows_filter]

end Rows

section Listing

variable {message : MessageFile → Message} {files : List MessageFile} {file : MessageFile} {key : String}

theorem firstOf_some (found : firstOf message files key = some file) :
    file ∈ files ∧ (message file).key = key := by
  have same := List.find?_some found
  exact ⟨List.mem_of_find?_eq_some found, beq_iff_eq.mp same⟩

theorem firstOf_none : firstOf message files key = none ↔ key ∉ files.map fun file => (message file).key := by
  simp only [firstOf, List.find?_eq_none, beq_iff_eq, List.mem_map, not_exists, not_and]

theorem firstOf_snoc : firstOf message (files ++ [file]) key =
    (firstOf message files key).or (if (message file).key = key then some file else none) := by
  simp only [firstOf, List.find?_append, List.find?_singleton, beq_iff_eq]

theorem after_snoc_of_mem (seen : (firstOf message files key).isSome) :
    after message (files ++ [file]) key = after message files key ++ [file] := by
  induction files with
  | nil => cases seen
  | cons f rest ih =>
    unfold after
    by_cases same : (message f).key = key
    · rw [List.cons_append, List.dropWhile_cons_of_neg (by simp [same]), List.dropWhile_cons_of_neg (by simp [same])]
      rfl
    · have later : (firstOf message rest key).isSome := by
        rwa [firstOf, List.find?_cons_of_neg (by simp [same])] at seen
      rw [List.cons_append, List.dropWhile_cons_of_pos (by simp [same]), List.dropWhile_cons_of_pos (by simp [same])]
      exact ih later

theorem unseen_before (unseen : firstOf message files key = none) :
    ∀ f ∈ files, ((message f).key != key) = true := by
  intro f member
  rw [bne_iff_ne]
  exact fun same => firstOf_none.mp unseen (List.mem_map.mpr ⟨f, member, same⟩)

theorem after_snoc_of_none (unseen : firstOf message files key = none) :
    after message (files ++ [file]) key = [] := by
  rw [after, List.dropWhile_append_of_pos (unseen_before unseen)]
  by_cases same : (message file).key = key
  · rw [List.dropWhile_cons_of_neg (by simp [same])]
    rfl
  · rw [List.dropWhile_cons_of_pos (by simp [same])]
    rfl

theorem mem_of_mem_after (member : file ∈ after message files key) : file ∈ files :=
  (List.dropWhile_sublist _).subset ((List.tail_sublist _).subset member)

end Listing

section Visits

variable (message : MessageFile → Message) (existing : List MessageRow)

/-- The files of a listing that a refresh reads and catalogues. -/
def takes (files : List MessageFile) (file : MessageFile) : Bool :=
  (unchangedRow existing file).isNone && firstOf message files (message file).key == some file

def owned (file : MessageFile) (key : String) : Bool :=
  existing.any fun row => row.relpath == file.relpath && row.messageKey == key

/-- The messages under a key once the files have been visited, from those before. -/
def shownMessages (c : Catalog) (files : List MessageFile) (now : Nat) (key : String) : List MessageRow :=
  match firstOf message files key with
  | some file => if (unchangedRow c.messages file).isSome then c.messagesOf key else [.of (message file) file now]
  | none => (c.messagesOf key).filter fun row =>
    !files.any fun file => takes message c.messages files file && file.relpath == row.relpath

def shownAttachments (c : Catalog) (files : List MessageFile) (now : Nat) (key : String) : List AttachmentRow :=
  match firstOf message files key with
  | some file =>
    if (unchangedRow c.messages file).isSome then c.attachmentsOf key
    else if (after message files key).any (fun h => takes message c.messages files h && owned c.messages h key) then []
    else attachmentRows (message file) now
  | none =>
    if files.any (fun h => takes message c.messages files h && owned c.messages h key) then []
    else c.attachmentsOf key

structure Visited (c : Catalog) (now : Nat) (files : List MessageFile) (p : Pass) : Prop where
  keys : ∀ key, key ∈ p.seenMessageKeys ↔ (firstOf message files key).isSome
  relpaths : ∀ relpath, relpath ∈ p.seenRelpaths ↔ ∃ file ∈ files, file.relpath = relpath ∧
    ((unchangedRow c.messages file).isSome ∨ takes message c.messages files file = true)
  messages : ∀ key, p.catalog.messagesOf key = shownMessages message c files now key
  attachments : ∀ key, p.catalog.attachmentsOf key = shownAttachments message c files now key

/-- A catalogue that an earlier listing accounts for. -/
structure Accounted (c : Catalog) : Prop where
  single : ∀ row ∈ c.messages, c.messagesOf row.messageKey = [row]
  origin : ∀ row ∈ c.messages, ∃ file now, (message file).key = row.messageKey ∧
    row = .of (message file) file now ∧ c.attachmentsOf row.messageKey = attachmentRows (message file) now
  relpaths : ∀ row ∈ c.messages, ∀ row' ∈ c.messages, row.relpath = row'.relpath → row = row'
  orphans : ∀ key, c.messagesOf key = [] → c.attachmentsOf key = []

variable {message existing} {c : Catalog} {now : Nat} {files : List MessageFile} {file : MessageFile} {p : Pass}
  {key : String}

theorem existing_mem {row : MessageRow} (found : existingByRelpath existing file.relpath = some row) :
    row ∈ existing ∧ row.relpath = file.relpath := by
  have same := List.find?_some found
  exact ⟨List.mem_of_find?_eq_some found, beq_iff_eq.mp same⟩

theorem Accounted.lookup (accounted : Accounted message c) {row : MessageRow} (member : row ∈ c.messages)
    (same : row.relpath = file.relpath) : existingByRelpath c.messages file.relpath = some row := by
  cases found : existingByRelpath c.messages file.relpath with
  | none => exact absurd (beq_iff_eq.mpr same) (List.find?_eq_none.mp found row member)
  | some other =>
    obtain ⟨there, equal⟩ := existing_mem found
    rw [accounted.relpaths other there row member (equal.trans same.symm)]

/-- An unchanged file has the key of its row. -/
theorem Accounted.unchanged (accounted : Accounted message c) {row : MessageRow}
    (found : unchangedRow c.messages file = some row) :
    row ∈ c.messages ∧ row.relpath = file.relpath ∧ row.messageKey = (message file).key ∧
      ∃ now, row = .of (message file) file now ∧ c.attachmentsOf row.messageKey = attachmentRows (message file) now := by
  obtain ⟨there, stamp⟩ := Option.filter_eq_some_iff.mp found
  obtain ⟨member, same⟩ := existing_mem there
  obtain ⟨origin, time, keyed, rfl, attachments⟩ := accounted.origin row member
  simp only [Bool.and_eq_true, beq_iff_eq] at stamp
  have equal : origin = file := by
    cases origin
    cases file
    simp only [MessageRow.of] at same stamp
    rw [same, stamp.1, stamp.2]
  subst equal
  exact ⟨member, rfl, rfl, time, rfl, attachments⟩

variable (message existing) in
/-- The next file is read and catalogued. -/
def takenNext (files : List MessageFile) (file : MessageFile) : Bool :=
  (unchangedRow existing file).isNone && (firstOf message files (message file).key).isNone

theorem any_agree {l : List MessageFile} {q r : MessageFile → Bool} (agree : ∀ h ∈ l, q h = r h) : l.any q = l.any r := by
  rw [Bool.eq_iff_iff, List.any_eq_true, List.any_eq_true]
  constructor
  · rintro ⟨h, member, yes⟩
    exact ⟨h, member, agree h member ▸ yes⟩
  · rintro ⟨h, member, yes⟩
    exact ⟨h, member, (agree h member).symm ▸ yes⟩

theorem takes_snoc_of_mem {h : MessageFile} (member : h ∈ files) :
    takes message existing (files ++ [file]) h = takes message existing files h := by
  have seen : (firstOf message files (message h).key).isSome := by
    rw [Option.isSome_iff_ne_none]
    exact fun unseen => firstOf_none.mp unseen (List.mem_map.mpr ⟨h, member, rfl⟩)
  obtain ⟨first, found⟩ := Option.isSome_iff_exists.mp seen
  simp only [takes, firstOf_snoc, found, Option.some_or]

theorem takes_snoc_self (absent : file ∉ files) : takes message existing (files ++ [file]) file =
    takenNext message existing files file := by
  simp only [takes, takenNext, firstOf_snoc, if_true]
  cases found : firstOf message files (message file).key with
  | none => simp only [Option.none_or, beq_self_eq_true, Option.isNone_none]
  | some first =>
    have other : first ≠ file := fun same => absent (same ▸ (firstOf_some found).1)
    have differs : (some first == some file) = false := by
      rw [beq_eq_false_iff_ne]
      exact fun same => other (Option.some.inj same)
    simp only [Option.some_or, Option.isNone_some, differs, Bool.and_false]

/-- What a later file adds to the files taken. -/
theorem any_takes_snoc (absent : file ∉ files) {l : List MessageFile} (within : ∀ h ∈ l, h ∈ files)
    (q : MessageFile → Bool) :
    (l ++ [file]).any (fun h => takes message existing (files ++ [file]) h && q h) =
      (l.any (fun h => takes message existing files h && q h) || (takenNext message existing files file && q file)) := by
  have before : l.any (fun h => takes message existing (files ++ [file]) h && q h) =
      l.any fun h => takes message existing files h && q h :=
    any_agree fun h member => by rw [takes_snoc_of_mem (within h member)]
  simp only [List.any_append, before, List.any_cons, List.any_nil, Bool.or_false, takes_snoc_self absent]

variable (c now) in
theorem shown_snoc_of_some {first : MessageFile} (absent : file ∉ files) (found : firstOf message files key = some first) :
    shownMessages message c (files ++ [file]) now key = shownMessages message c files now key ∧
    shownAttachments message c (files ++ [file]) now key =
      if (unchangedRow c.messages first).isSome then c.attachmentsOf key
      else if takenNext message c.messages files file && owned c.messages file key then []
      else shownAttachments message c files now key := by
  have still : firstOf message (files ++ [file]) key = some first := by rw [firstOf_snoc, found, Option.some_or]
  have seen : (firstOf message files key).isSome := by rw [found]; rfl
  constructor
  · simp only [shownMessages, still, found]
  · simp only [shownAttachments, still, found, after_snoc_of_mem seen,
      any_takes_snoc absent fun h member => mem_of_mem_after member]
    cases (unchangedRow c.messages first).isSome with
    | true => rfl
    | false =>
      cases takenNext message c.messages files file && owned c.messages file key with
      | true => simp only [Bool.or_true, if_true]
      | false => simp only [Bool.or_false, Bool.false_eq_true, if_false]

variable (c now) in
/-- The first file of a key, unchanged or catalogued. -/
theorem shown_snoc_of_first (unseen : firstOf message files (message file).key = none) :
    shownMessages message c (files ++ [file]) now (message file).key =
      (if (unchangedRow c.messages file).isSome then c.messagesOf (message file).key
        else [.of (message file) file now]) ∧
    shownAttachments message c (files ++ [file]) now (message file).key =
      if (unchangedRow c.messages file).isSome then c.attachmentsOf (message file).key
      else attachmentRows (message file) now := by
  have first : firstOf message (files ++ [file]) (message file).key = some file := by
    rw [firstOf_snoc, unseen, Option.none_or, if_pos rfl]
  constructor
  · simp only [shownMessages, first]
  · simp only [shownAttachments, first, after_snoc_of_none unseen, List.any_nil, Bool.false_eq_true, if_false]

variable (c now) in
/-- A key that no listed file has yet. -/
theorem shown_snoc_of_none (absent : file ∉ files) (unseen : firstOf message files key = none)
    (other : (message file).key ≠ key) :
    shownMessages message c (files ++ [file]) now key = (shownMessages message c files now key).filter (fun row =>
      !(takenNext message c.messages files file && file.relpath == row.relpath)) ∧
    shownAttachments message c (files ++ [file]) now key =
      if takenNext message c.messages files file && owned c.messages file key then []
      else shownAttachments message c files now key := by
  have still : firstOf message (files ++ [file]) key = none := by
    rw [firstOf_snoc, unseen, Option.none_or, if_neg other]
  constructor
  · simp only [shownMessages, still, unseen, any_takes_snoc absent fun h member => member, List.filter_filter]
    refine List.filter_congr fun row _ => ?_
    rw [Bool.not_or, Bool.and_comm]
  · simp only [shownAttachments, still, unseen, any_takes_snoc absent fun h member => member]
    cases takenNext message c.messages files file && owned c.messages file key with
    | true => simp only [Bool.or_true, if_true]
    | false => simp only [Bool.or_false, Bool.false_eq_true, if_false]

theorem Accounted.owned_iff (accounted : Accounted message c) : owned c.messages file key = true ↔
    ∃ row, existingByRelpath c.messages file.relpath = some row ∧ row.messageKey = key := by
  simp only [owned, List.any_eq_true, Bool.and_eq_true, beq_iff_eq]
  constructor
  · rintro ⟨row, member, path, keyed⟩
    exact ⟨row, accounted.lookup member path, keyed⟩
  · rintro ⟨row, found, keyed⟩
    obtain ⟨member, path⟩ := existing_mem found
    exact ⟨row, member, path, keyed⟩

/-- No file visited before is at the place of an unchanged file, and none owns its key. -/
theorem Accounted.untouched (accounted : Accounted message c) {row : MessageRow}
    (distinct : file.relpath ∉ files.map MessageFile.relpath) (stamped : unchangedRow c.messages file = some row) :
    (files.any (fun h => takes message c.messages files h && h.relpath == row.relpath)) = false ∧
    (files.any (fun h => takes message c.messages files h && owned c.messages h row.messageKey)) = false := by
  obtain ⟨member, path, _, _⟩ := accounted.unchanged stamped
  have elsewhere : ∀ h ∈ files, h.relpath ≠ row.relpath := fun h there same =>
    distinct (List.mem_map.mpr ⟨h, there, same.trans path⟩)
  constructor <;> rw [List.any_eq_false] <;> intro h there both <;> rw [Bool.and_eq_true] at both
  · exact elsewhere h there (beq_iff_eq.mp both.2)
  · obtain ⟨other, found, keyed⟩ := accounted.owned_iff.mp both.2
    obtain ⟨otherMember, otherPath⟩ := existing_mem found
    have only := accounted.single row member
    have same : other ∈ c.messagesOf row.messageKey := mem_messagesOf.mpr ⟨otherMember, keyed⟩
    rw [only, List.mem_singleton] at same
    exact elsewhere h there (otherPath.symm.trans (congrArg MessageRow.relpath same))

theorem shown_unchanged {first : MessageFile} (found : firstOf message files key = some first)
    (unchanged : (unchangedRow c.messages first).isSome) :
    shownMessages message c files now key = c.messagesOf key ∧
      shownAttachments message c files now key = c.attachmentsOf key := by
  constructor
  · simp only [shownMessages, found, unchanged, if_true]
  · simp only [shownAttachments, found, unchanged, if_true]

variable (now key) in
/-- A file that is not taken changes nothing that is shown. -/
theorem shown_snoc_of_quiet (accounted : Accounted message c) (absent : file ∉ files)
    (distinct : file.relpath ∉ files.map MessageFile.relpath)
    (quiet : takenNext message c.messages files file = false) :
    shownMessages message c (files ++ [file]) now key = shownMessages message c files now key ∧
      shownAttachments message c (files ++ [file]) now key = shownAttachments message c files now key := by
  cases found : firstOf message files key with
  | some first =>
    obtain ⟨messages, attachments⟩ := shown_snoc_of_some c now absent found
    refine ⟨messages, ?_⟩
    rw [attachments, quiet, Bool.false_and]
    cases unchanged : (unchangedRow c.messages first).isSome with
    | true => exact (shown_unchanged found unchanged).2.symm
    | false => rfl
  | none =>
    by_cases keyed : (message file).key = key
    · subst keyed
      have stamped : (unchangedRow c.messages file).isSome := by
        cases stamp : unchangedRow c.messages file with
        | some row => rfl
        | none =>
          rw [takenNext, stamp, found] at quiet
          cases quiet
      obtain ⟨row, stamp⟩ := Option.isSome_iff_exists.mp stamped
      obtain ⟨member, _, keyed, _⟩ := accounted.unchanged stamp
      obtain ⟨unplaced, unowned⟩ := @Accounted.untouched message c files file accounted _ distinct stamp
      obtain ⟨messages, attachments⟩ := shown_snoc_of_first c now found
      rw [messages, attachments, if_pos stamped, if_pos stamped]
      simp only [shownMessages, shownAttachments, found]
      rw [← keyed, unowned, accounted.single row member]
      refine ⟨?_, rfl⟩
      rw [List.filter_cons, unplaced]
      rfl
    · obtain ⟨messages, attachments⟩ := shown_snoc_of_none c now absent found keyed
      rw [messages, attachments, quiet, Bool.false_and]
      exact ⟨List.filter_eq_self.mpr fun _ _ => by rw [Bool.false_and]; rfl, rfl⟩

theorem seen_snoc (absent : file ∉ files) (relpath : String) :
    (∃ h ∈ files ++ [file], h.relpath = relpath ∧
      ((unchangedRow c.messages h).isSome ∨ takes message c.messages (files ++ [file]) h = true)) ↔
    (∃ h ∈ files, h.relpath = relpath ∧
      ((unchangedRow c.messages h).isSome ∨ takes message c.messages files h = true)) ∨
    file.relpath = relpath ∧
      ((unchangedRow c.messages file).isSome ∨ takenNext message c.messages files file = true) := by
  constructor
  · rintro ⟨h, member, path, seen⟩
    rcases List.mem_append.mp member with before | last
    · rw [takes_snoc_of_mem before] at seen
      exact Or.inl ⟨h, before, path, seen⟩
    · cases List.mem_singleton.mp last
      rw [takes_snoc_self absent] at seen
      exact Or.inr ⟨path, seen⟩
  · rintro (⟨h, before, path, seen⟩ | ⟨path, seen⟩)
    · rw [← takes_snoc_of_mem before] at seen
      exact ⟨h, List.mem_append_left _ before, path, seen⟩
    · rw [← takes_snoc_self absent] at seen
      exact ⟨file, List.mem_append_right _ (List.mem_singleton_self _), path, seen⟩

theorem seenKeys_snoc (key : String) : (firstOf message (files ++ [file]) key).isSome ↔
    (firstOf message files key).isSome ∨ key = (message file).key := by
  rw [firstOf_snoc]
  cases firstOf message files key with
  | some first => simp only [Option.some_or, Option.isSome_some, true_or]
  | none =>
    simp only [Option.none_or, Option.isSome_none, Bool.false_eq_true, false_or]
    split
    · rename_i same
      simp only [Option.isSome_some, same]
    · rename_i other
      simp only [Option.isSome_none, Bool.false_eq_true, false_iff]
      exact fun same => other same.symm

/-- Every row shown is at the place of a file that was visited, or is an old row. -/
theorem shown_keyed {row : MessageRow} (accounted : Accounted message c)
    (member : row ∈ shownMessages message c files now key) :
    row.messageKey = key ∧ ((firstOf message files key).isSome → ∃ h ∈ files, h.relpath = row.relpath) := by
  cases found : firstOf message files key with
  | some first =>
    obtain ⟨there, keyed⟩ := firstOf_some found
    simp only [shownMessages, found] at member
    split at member
    · rename_i unchanged
      obtain ⟨stamped, stamp⟩ := Option.isSome_iff_exists.mp unchanged
      obtain ⟨old, path, same, _⟩ := accounted.unchanged stamp
      have only := accounted.single stamped old
      rw [same, keyed] at only
      rw [only, List.mem_singleton] at member
      subst member
      exact ⟨same.trans keyed, fun _ => ⟨first, there, path.symm⟩⟩
    · cases List.mem_singleton.mp member
      exact ⟨keyed, fun _ => ⟨first, there, rfl⟩⟩
  | none =>
    simp only [shownMessages, found] at member
    exact ⟨(mem_messagesOf.mp (List.mem_filter.mp member).1).2, fun impossible => nomatch impossible⟩

theorem visit_messages (changed : unchangedRow existing file = none) (fresh : (message file).key ∉ p.seenMessageKeys) :
    (visit message existing now p file).catalog.messagesOf key =
      ((p.catalog.messagesOf key).filter fun row =>
        !(row.relpath == file.relpath || row.messageKey == (message file).key)) ++
      if (message file).key = key then [.of (message file) file now] else [] := by
  simp only [visit, changed, if_neg fresh]
  rw [messagesOf_insert, messagesOf_deleteMessages, messagesOf_deleteAttachments]
  cases existingByRelpath existing file.relpath <;> rfl

theorem visit_attachments (changed : unchangedRow existing file = none)
    (fresh : (message file).key ∉ p.seenMessageKeys) :
    (visit message existing now p file).catalog.attachmentsOf key =
      if (message file).key = key then attachmentRows (message file) now
      else if (existingByRelpath existing file.relpath).any (fun row => row.messageKey == key) then []
      else p.catalog.attachmentsOf key := by
  simp only [visit, changed, if_neg fresh]
  rw [attachmentsOf_insert, attachmentsOf_deleteMessages, attachmentsOf_deleteAttachments]
  by_cases own : (message file).key = key
  · rw [if_pos own.symm, if_pos own, if_pos own, List.nil_append]
  · rw [if_neg (Ne.symm own), if_neg own, if_neg own, List.append_nil]
    cases existingByRelpath existing file.relpath with
    | none => rfl
    | some row =>
      simp only [attachmentsOf_deleteAttachments, Option.any_some, beq_iff_eq, @eq_comm _ key]

/-- A file that is read and catalogued. -/
theorem Visited.take (accounted : Accounted message c) (visited : Visited message c now files p)
    (absent : file ∉ files) (distinct : file.relpath ∉ files.map MessageFile.relpath)
    (changed : unchangedRow c.messages file = none) (unseen : firstOf message files (message file).key = none) :
    Visited message c now (files ++ [file]) (visit message c.messages now p file) := by
  have next : takenNext message c.messages files file = true := by rw [takenNext, changed, unseen]; rfl
  have fresh : (message file).key ∉ p.seenMessageKeys := fun seen => by
    rw [visited.keys, unseen] at seen
    cases seen
  constructor
  · intro key
    simp only [visit, changed, if_neg fresh]
    rw [List.mem_cons, visited.keys, seenKeys_snoc, or_comm]
  · intro relpath
    simp only [visit, changed, if_neg fresh]
    rw [List.mem_cons, visited.relpaths, seen_snoc absent, or_comm, next]
    simp only [or_true, and_true, eq_comm]
  · intro key
    rw [visit_messages changed fresh, visited.messages]
    by_cases own : (message file).key = key
    · subst own
      have first := (shown_snoc_of_first c now unseen).1
      rw [changed] at first
      rw [first, if_pos rfl, List.filter_eq_nil_iff.mpr, List.nil_append]
      · rfl
      · intro row member
        rw [(shown_keyed accounted member).1, beq_self_eq_true, Bool.or_true]
        exact Bool.false_ne_true
    · rw [if_neg own, List.append_nil]
      have unkeyed : ∀ row ∈ shownMessages message c files now key, (row.messageKey == (message file).key) = false := by
        intro row member
        rw [(shown_keyed accounted member).1, beq_eq_false_iff_ne]
        exact Ne.symm own
      cases found : firstOf message files key with
      | some first =>
        rw [(shown_snoc_of_some c now absent found).1]
        refine List.filter_eq_self.mpr fun row member => ?_
        obtain ⟨h, there, path⟩ := (shown_keyed accounted member).2 (by rw [found]; rfl)
        have elsewhere : (row.relpath == file.relpath) = false := by
          rw [beq_eq_false_iff_ne, ← path]
          exact fun same => distinct (List.mem_map.mpr ⟨h, there, same⟩)
        rw [elsewhere, unkeyed row member]
        rfl
      | none =>
        rw [(shown_snoc_of_none c now absent found own).1, next]
        refine List.filter_congr fun row member => ?_
        rw [unkeyed row member, Bool.or_false, Bool.true_and, Bool.beq_comm]
  · intro key
    rw [visit_attachments changed fresh, visited.attachments]
    have lost : (existingByRelpath c.messages file.relpath).any (fun row => row.messageKey == key) =
        owned c.messages file key := by
      rw [Bool.eq_iff_iff, accounted.owned_iff]
      simp only [Option.any_eq_true, beq_iff_eq]
    rw [lost]
    by_cases own : (message file).key = key
    · subst own
      have first := (shown_snoc_of_first c now unseen).2
      rw [changed] at first
      rw [first, if_pos rfl]
      rfl
    · rw [if_neg own]
      cases found : firstOf message files key with
      | some first =>
        rw [(shown_snoc_of_some c now absent found).2, next, Bool.true_and]
        cases unchanged : (unchangedRow c.messages first).isSome with
        | false => rfl
        | true =>
          obtain ⟨row, stamp⟩ := Option.isSome_iff_exists.mp unchanged
          obtain ⟨member, path, keyed, _⟩ := accounted.unchanged stamp
          obtain ⟨there, same⟩ := firstOf_some found
          have unowned : owned c.messages file key = false := by
            rw [Bool.eq_false_iff]
            intro yes
            obtain ⟨other, lookup, otherKey⟩ := accounted.owned_iff.mp yes
            obtain ⟨otherMember, otherPath⟩ := existing_mem lookup
            have only := accounted.single row member
            have equal : other ∈ c.messagesOf row.messageKey :=
              mem_messagesOf.mpr ⟨otherMember, otherKey.trans (same.symm.trans keyed.symm)⟩
            rw [only, List.mem_singleton] at equal
            subst equal
            exact distinct (List.mem_map.mpr ⟨first, there, path.symm.trans otherPath⟩)
          rw [unowned, (shown_unchanged found unchanged).2]
          rfl
      | none => rw [(shown_snoc_of_none c now absent found own).2, next, Bool.true_and]

/-- A file that is skipped, as unchanged or as a later one of its key. -/
theorem Visited.skip (accounted : Accounted message c) (visited : Visited message c now files p)
    (absent : file ∉ files) (distinct : file.relpath ∉ files.map MessageFile.relpath)
    (quiet : takenNext message c.messages files file = false) :
    Visited message c now (files ++ [file]) (visit message c.messages now p file) := by
  have shown := fun key => shown_snoc_of_quiet now key accounted absent distinct quiet
  cases stamp : unchangedRow c.messages file with
  | some row =>
    obtain ⟨_, _, keyed, _⟩ := accounted.unchanged stamp
    simp only [visit, stamp]
    constructor
    · intro key
      rw [List.mem_cons, visited.keys, seenKeys_snoc, keyed, or_comm]
    · intro relpath
      rw [List.mem_cons, visited.relpaths, seen_snoc absent, or_comm, stamp]
      simp only [Option.isSome_some, true_or, and_true, eq_comm]
    · exact fun key => (visited.messages key).trans (shown key).1.symm
    · exact fun key => (visited.attachments key).trans (shown key).2.symm
  | none =>
    have seen : (firstOf message files (message file).key).isSome := by
      cases found : firstOf message files (message file).key with
      | some first => rfl
      | none =>
        rw [takenNext, stamp, found] at quiet
        cases quiet
    simp only [visit, stamp, if_pos ((visited.keys _).mpr seen)]
    constructor
    · intro key
      rw [visited.keys, seenKeys_snoc]
      exact ⟨Or.inl, fun either => either.elim id fun same => same ▸ seen⟩
    · intro relpath
      rw [visited.relpaths, seen_snoc absent, stamp, quiet]
      simp only [Option.isSome_none, Bool.false_eq_true, or_self, and_false, or_false]
    · exact fun key => (visited.messages key).trans (shown key).1.symm
    · exact fun key => (visited.attachments key).trans (shown key).2.symm

/-- What a refresh has done when it has visited all files. -/
theorem Visited.all (accounted : Accounted message c) (now : Nat) (files : List MessageFile)
    (distinct : (files.map MessageFile.relpath).Nodup) :
    Visited message c now files (files.foldl (visit message c.messages now) { catalog := c }) := by
  induction files using List.reverseRecOn with
  | nil =>
    constructor
    · intro key
      simp only [List.foldl_nil, List.not_mem_nil, firstOf, List.find?_nil, Option.isSome_none, Bool.false_eq_true]
    · intro relpath
      simp only [List.foldl_nil, List.not_mem_nil, false_and, exists_false]
    · exact fun key => (List.filter_eq_self.mpr fun _ _ => rfl).symm
    · exact fun key => rfl
  | append_singleton files file ih =>
    rw [List.map_append, List.nodup_append] at distinct
    have visited := ih distinct.1
    have apart : file.relpath ∉ files.map MessageFile.relpath := fun member =>
      distinct.2.2 file.relpath member file.relpath (List.mem_singleton_self _) rfl
    have absent : file ∉ files := fun member => apart (List.mem_map.mpr ⟨file, member, rfl⟩)
    rw [List.foldl_append]
    cases next : takenNext message c.messages files file with
    | false => exact visited.skip accounted absent apart next
    | true =>
      simp only [takenNext, Bool.and_eq_true, Option.isNone_iff_eq_none] at next
      exact visited.take accounted absent apart next.1 next.2

theorem sweeps (stale : List MessageRow) (c : Catalog) (key : String) :
    (stale.foldl sweep c).messagesOf key =
      (if stale.any (fun row => row.messageKey == key) then [] else c.messagesOf key) ∧
    (stale.foldl sweep c).attachmentsOf key =
      if stale.any (fun row => row.messageKey == key) then [] else c.attachmentsOf key := by
  induction stale generalizing c with
  | nil => exact ⟨rfl, rfl⟩
  | cons row rest ih =>
    obtain ⟨messages, attachments⟩ := ih (sweep c row)
    rw [List.foldl_cons, messages, attachments, List.any_cons]
    have swept : (sweep c row).messagesOf key = (if row.messageKey == key then [] else c.messagesOf key) ∧
        (sweep c row).attachmentsOf key = if row.messageKey == key then [] else c.attachmentsOf key := by
      rw [sweep, messagesOf_deleteMessages, attachmentsOf_deleteMessages, messagesOf_deleteAttachments,
        attachmentsOf_deleteAttachments]
      cases same : row.messageKey == key with
      | true =>
        rw [if_pos (beq_iff_eq.mp same).symm]
        refine ⟨List.filter_eq_nil_iff.mpr fun other member => ?_, rfl⟩
        rw [(mem_messagesOf.mp member).2, Bool.beq_comm, same]
        exact Bool.false_ne_true
      | false =>
        rw [if_neg (Ne.symm (beq_eq_false_iff_ne.mp same))]
        refine ⟨List.filter_eq_self.mpr fun other member => ?_, rfl⟩
        rw [(mem_messagesOf.mp member).2, Bool.beq_comm, same]
        rfl
    rw [swept.1, swept.2]
    cases row.messageKey == key with
    | true => simp only [Bool.true_or, if_true, ite_self, and_self]
    | false => exact ⟨rfl, rfl⟩

/-- The rows under a key that the sweep deletes again. -/
def swept (c : Catalog) (seen : List String) (key : String) : Bool :=
  (c.messages.filter fun row => !seen.contains row.relpath).any fun row => row.messageKey == key

theorem swept_iff {seen : List String} : swept c seen key = true ↔
    ∃ row ∈ c.messages, row.messageKey = key ∧ row.relpath ∉ seen := by
  simp only [swept, List.any_eq_true, List.mem_filter, Bool.not_eq_true', List.contains_eq_mem,
    decide_eq_false_iff_not, beq_iff_eq]
  constructor
  · rintro ⟨row, ⟨member, unseen⟩, keyed⟩
    exact ⟨row, member, keyed, unseen⟩
  · rintro ⟨row, member, keyed, unseen⟩
    exact ⟨row, ⟨member, unseen⟩, keyed⟩

theorem refresh_rows (accounted : Accounted message c) (now : Nat) (files : List MessageFile)
    (distinct : (files.map MessageFile.relpath).Nodup) (key : String) :
    let seen := (files.foldl (visit message c.messages now) { catalog := c }).seenRelpaths
    (refreshAttachmentCatalog message c files now).messagesOf key =
      (if swept c seen key then [] else shownMessages message c files now key) ∧
    (refreshAttachmentCatalog message c files now).attachmentsOf key =
      if swept c seen key then [] else shownAttachments message c files now key := by
  have visited := Visited.all accounted now files distinct
  obtain ⟨messages, attachments⟩ := sweeps (c.messages.filter fun row =>
    !(files.foldl (visit message c.messages now) { catalog := c }).seenRelpaths.contains row.relpath)
    (files.foldl (visit message c.messages now) { catalog := c }).catalog key
  rw [visited.messages] at messages
  rw [visited.attachments] at attachments
  exact ⟨messages, attachments⟩

theorem same_file {first second : MessageFile} (distinct : (files.map MessageFile.relpath).Nodup)
    (one : first ∈ files) (two : second ∈ files) (same : first.relpath = second.relpath) : first = second :=
  List.inj_on_of_nodup_map distinct one two same

/-- A catalogue that agrees with a listing is accounted for by it. -/
theorem Agrees.accounted (distinct : (files.map MessageFile.relpath).Nodup) (agrees : Agrees message files c) :
    Accounted message c := by
  have origin : ∀ row ∈ c.messages, ∃ file ∈ files, (message file).key = row.messageKey ∧
      ∃ now, row = .of (message file) file now ∧ c.messagesOf row.messageKey = [row] ∧
        c.attachmentsOf row.messageKey = attachmentRows (message file) now := by
    intro row member
    have here : row ∈ c.messagesOf row.messageKey := mem_messagesOf.mpr ⟨member, rfl⟩
    obtain ⟨listed, unlisted⟩ := agrees row.messageKey
    by_cases known : row.messageKey ∈ files.map fun file => (message file).key
    · obtain ⟨file, there, keyed, now, messages, attachments⟩ := listed known
      have same : row = .of (message file) file now := by
        rw [messages, List.mem_singleton] at here
        exact here
      exact ⟨file, there, keyed, now, same, same ▸ messages, attachments⟩
    · rw [(unlisted known).1] at here
      cases here
  constructor
  · intro row member
    obtain ⟨_, _, _, _, _, single, _⟩ := origin row member
    exact single
  · intro row member
    obtain ⟨file, _, keyed, now, same, _, attachments⟩ := origin row member
    exact ⟨file, now, keyed, same, attachments⟩
  · intro row member row' member' path
    obtain ⟨file, there, keyed, _, same, single, _⟩ := origin row member
    obtain ⟨file', there', keyed', _, same', _, _⟩ := origin row' member'
    have equal : file = file' := by
      rw [same, same'] at path
      exact same_file distinct there there' path
    subst equal
    have both : row' ∈ c.messagesOf row.messageKey := mem_messagesOf.mpr ⟨member', keyed'.symm.trans keyed⟩
    rw [single, List.mem_singleton] at both
    exact both.symm
  · intro key empty
    obtain ⟨listed, unlisted⟩ := agrees key
    by_cases known : key ∈ files.map fun file => (message file).key
    · obtain ⟨_, _, _, _, messages, _⟩ := listed known
      rw [empty] at messages
      cases messages
    · exact (unlisted known).2

theorem not_mem_after {first : MessageFile} (distinct : (files.map MessageFile.relpath).Nodup)
    (found : firstOf message files key = some first) : first ∉ after message files key := by
  induction files with
  | nil => cases found
  | cons f rest ih =>
    rw [List.map_cons, List.nodup_cons] at distinct
    by_cases same : (message f).key = key
    · rw [firstOf, List.find?_cons_of_pos (by simp [same])] at found
      cases found
      rw [after, List.dropWhile_cons_of_neg (by simp [same]), List.tail_cons]
      exact fun member => distinct.1 (List.mem_map.mpr ⟨first, member, rfl⟩)
    · rw [firstOf, List.find?_cons_of_neg (by simp [same])] at found
      rw [after, List.dropWhile_cons_of_pos (by simp [same])]
      exact ih distinct.2 found

/-- The first file of its key is either unchanged or taken. -/
theorem seen_of_first (first : firstOf message files (message file).key = some file) :
    (unchangedRow existing file).isSome ∨ takes message existing files file = true := by
  rw [takes, first, beq_self_eq_true, Bool.and_true]
  cases unchangedRow existing file with
  | none => exact Or.inr rfl
  | some row => exact Or.inl rfl

theorem Accounted.row_of_owned (accounted : Accounted message c) (owns : owned c.messages file key = true) :
    ∃ row ∈ c.messages, row.relpath = file.relpath ∧ row.messageKey = key := by
  obtain ⟨row, found, keyed⟩ := accounted.owned_iff.mp owns
  obtain ⟨member, path⟩ := existing_mem found
  exact ⟨row, member, path, keyed⟩

theorem Accounted.unique (accounted : Accounted message c) {row other : MessageRow} (one : row ∈ c.messages)
    (two : other ∈ c.messages) (same : row.messageKey = other.messageKey) : row = other := by
  have both : row ∈ c.messagesOf other.messageKey := mem_messagesOf.mpr ⟨one, same⟩
  rwa [accounted.single other two, List.mem_singleton] at both

/-- An unchanged first file of a key is the file of the key's row. -/
theorem Accounted.first_unchanged (accounted : Accounted message c) {first : MessageFile}
    (found : firstOf message files key = some first) (unchanged : (unchangedRow c.messages first).isSome)
    {row : MessageRow} (member : row ∈ c.messages) (keyed : row.messageKey = key) : first.relpath = row.relpath := by
  obtain ⟨stamped, stamp⟩ := Option.isSome_iff_exists.mp unchanged
  obtain ⟨there, path, same, _⟩ := accounted.unchanged stamp
  have equal := accounted.unique member there (keyed.trans ((firstOf_some found).2.symm.trans same.symm))
  rw [equal, path]

section Agreement

variable (accounted : Accounted message c) (distinct : (files.map MessageFile.relpath).Nodup)

include accounted distinct

theorem seen_iff (relpath : String) :
    relpath ∈ (files.foldl (visit message c.messages now) { catalog := c }).seenRelpaths ↔
      ∃ file ∈ files, file.relpath = relpath ∧
        ((unchangedRow c.messages file).isSome ∨ takes message c.messages files file = true) :=
  (Visited.all accounted now files distinct).relpaths relpath

/-- A refresh that agrees with the listing meets the condition. -/
theorem meets_of_agrees (agrees : Agrees message files (refreshAttachmentCatalog message c files now)) :
    Meets message c files := by
  intro row member file first apart
  have found : firstOf message files row.messageKey = some file := first
  obtain ⟨messages, attachments⟩ := refresh_rows accounted now files distinct row.messageKey
  obtain ⟨there, keyed⟩ := firstOf_some found
  have known : row.messageKey ∈ files.map fun file => (message file).key := List.mem_map.mpr ⟨file, there, keyed⟩
  obtain ⟨other, _, _, time, single, rows⟩ := (agrees row.messageKey).1 known
  have kept : swept c (files.foldl (visit message c.messages now) { catalog := c }).seenRelpaths row.messageKey = false := by
    cases gone : swept c (files.foldl (visit message c.messages now) { catalog := c }).seenRelpaths row.messageKey with
    | false => rfl
    | true =>
      rw [gone, if_pos rfl, single] at messages
      cases messages
  have changed : (unchangedRow c.messages file).isSome = false := by
    rw [Bool.eq_false_iff]
    exact fun unchanged => apart (accounted.first_unchanged found unchanged member rfl)
  have seen : row.relpath ∈ (files.foldl (visit message c.messages now) { catalog := c }).seenRelpaths := by
    by_contra unseen
    rw [swept_iff.mpr ⟨row, member, rfl, unseen⟩] at kept
    cases kept
  obtain ⟨own, listed, path, unchanged | taken⟩ := (seen_iff accounted distinct row.relpath).mp seen
  · exact ⟨own, listed, path, Or.inl unchanged⟩
  · have first : firstOf message files (message own).key = some own := by
      simp only [takes, Bool.and_eq_true, beq_iff_eq] at taken
      exact taken.2
    refine ⟨own, listed, path, Or.inr ⟨first, ?_⟩⟩
    by_cases later : own ∈ after message files row.messageKey
    · right
      rw [kept, if_neg Bool.false_ne_true] at messages attachments
      have lost : (after message files row.messageKey).any (fun h =>
          takes message c.messages files h && owned c.messages h row.messageKey) = true := by
        rw [List.any_eq_true]
        refine ⟨own, later, ?_⟩
        rw [taken, accounted.owned_iff.mpr ⟨row, accounted.lookup member path.symm, rfl⟩]
        rfl
      simp only [shownMessages, shownAttachments, found, changed, Bool.false_eq_true, if_false, lost, if_true]
        at messages attachments
      rw [single] at messages
      rw [rows] at attachments
      have same : other = file := by
        have fields := List.singleton_inj.mp messages
        simp only [MessageRow.of, MessageRow.mk.injEq] at fields
        cases other
        cases file
        simp only [MessageFile.mk.injEq]
        exact ⟨fields.2.1, fields.2.2.1, fields.2.2.2.1⟩
      subst same
      exact List.mapIdx_eq_nil_iff.mp attachments
    · exact Or.inl later

/-- A refresh that meets the condition agrees with the listing. -/
theorem agrees_of_meets (meets : Meets message c files) :
    Agrees message files (refreshAttachmentCatalog message c files now) := by
  intro key
  obtain ⟨messages, attachments⟩ := refresh_rows accounted now files distinct key
  rw [messages, attachments]
  constructor
  · intro known
    obtain ⟨file, found⟩ := Option.ne_none_iff_exists'.mp fun unseen => firstOf_none.mp unseen known
    obtain ⟨there, keyed⟩ := firstOf_some found
    have kept : swept c (files.foldl (visit message c.messages now) { catalog := c }).seenRelpaths key = false := by
      rw [Bool.eq_false_iff]
      intro gone
      obtain ⟨row, member, same, unseen⟩ := swept_iff.mp gone
      subst same
      refine unseen ((seen_iff accounted distinct row.relpath).mpr ?_)
      by_cases own : file.relpath = row.relpath
      · exact ⟨file, there, own, seen_of_first (keyed.symm ▸ found)⟩
      · obtain ⟨own, listed, path, unchanged | ⟨first, _⟩⟩ := meets row member file found own
        · exact ⟨own, listed, path, Or.inl unchanged⟩
        · exact ⟨own, listed, path, seen_of_first first⟩
    rw [kept]
    simp only [Bool.false_eq_true, if_false]
    cases unchanged : (unchangedRow c.messages file).isSome with
    | true =>
      obtain ⟨row, stamp⟩ := Option.isSome_iff_exists.mp unchanged
      obtain ⟨member, _, same, time, equal, rows⟩ := accounted.unchanged stamp
      have only := accounted.single row member
      rw [same, keyed] at only rows
      refine ⟨file, there, keyed, time, ?_, ?_⟩
      · rw [(shown_unchanged found unchanged).1, only, equal]
      · rw [(shown_unchanged found unchanged).2, rows]
    | false =>
      refine ⟨file, there, keyed, now, ?_, ?_⟩
      · simp only [shownMessages, found, unchanged, Bool.false_eq_true, if_false]
      · simp only [shownAttachments, found, unchanged, Bool.false_eq_true, if_false]
        split
        · rename_i lost
          obtain ⟨own, later, both⟩ := List.any_eq_true.mp lost
          rw [Bool.and_eq_true] at both
          obtain ⟨row, member, path, same⟩ := accounted.row_of_owned both.2
          subst same
          have apart : file.relpath ≠ row.relpath := fun equal => by
            cases same_file distinct there (mem_of_mem_after later) (equal.trans path)
            exact not_mem_after distinct found later
          obtain ⟨own', listed, path', rest⟩ := meets row member file found apart
          cases same_file distinct listed (mem_of_mem_after later) (path'.trans path)
          simp only [takes, Bool.and_eq_true, Option.isNone_iff_eq_none] at both
          rcases rest with stamped | ⟨_, early | bare⟩
          · rw [both.1.1] at stamped
            cases stamped
          · exact absurd later early
          · rw [attachmentRows, bare]
            rfl
        · rfl
  · intro unknown
    have unseen := firstOf_none.mpr unknown
    -- A row of a key that no file has: its file is gone, or was read under another key.
    have gone : ∀ row ∈ c.messages, row.messageKey = key →
        row.relpath ∈ (files.foldl (visit message c.messages now) { catalog := c }).seenRelpaths →
        ∃ own ∈ files, own.relpath = row.relpath ∧ takes message c.messages files own = true := by
      intro row member same seen
      obtain ⟨own, listed, path, unchanged | taken⟩ := (seen_iff accounted distinct row.relpath).mp seen
      · obtain ⟨stamped, stamp⟩ := Option.isSome_iff_exists.mp unchanged
        obtain ⟨there, path', keyed, _⟩ := accounted.unchanged stamp
        cases accounted.relpaths stamped there row member (path'.trans path)
        exact absurd (List.mem_map.mpr ⟨own, listed, keyed.symm.trans same⟩) unknown
      · exact ⟨own, listed, path, taken⟩
    cases removed : swept c (files.foldl (visit message c.messages now) { catalog := c }).seenRelpaths key with
    | true => exact ⟨rfl, rfl⟩
    | false =>
      have seen : ∀ row ∈ c.messages, row.messageKey = key →
          row.relpath ∈ (files.foldl (visit message c.messages now) { catalog := c }).seenRelpaths := by
        intro row member same
        by_contra missed
        rw [swept_iff.mpr ⟨row, member, same, missed⟩] at removed
        cases removed
      simp only [Bool.false_eq_true, if_false, shownMessages, shownAttachments, unseen]
      constructor
      · refine List.filter_eq_nil_iff.mpr fun row member => ?_
        obtain ⟨there, same⟩ := mem_messagesOf.mp member
        obtain ⟨own, listed, path, taken⟩ := gone row there same (seen row there same)
        rw [Bool.not_eq_true, Bool.not_eq_false', List.any_eq_true]
        exact ⟨own, listed, by rw [taken, path, beq_self_eq_true]; rfl⟩
      · split
        · rfl
        · rename_i unowned
          refine accounted.orphans key (List.eq_nil_iff_forall_not_mem.mpr fun row member => unowned ?_)
          obtain ⟨there, same⟩ := mem_messagesOf.mp member
          obtain ⟨own, listed, path, taken⟩ := gone row there same (seen row there same)
          rw [List.any_eq_true]
          refine ⟨own, listed, ?_⟩
          rw [taken, accounted.owned_iff.mpr ⟨row, accounted.lookup there path.symm, same⟩]
          rfl

end Agreement

theorem accounted_empty : Accounted message {} where
  single _ member := nomatch member
  origin _ member := nomatch member
  relpaths _ member := nomatch member
  orphans _ _ := rfl

variable (message) in
/-- The catalogue agrees with the listing, and with a refresh from an empty catalogue up to the time
of the scan and the choice among copies of one message. -/
def AgreesWithRebuild (files : List MessageFile) (c : Catalog) : Prop :=
  Agrees message files c ∧ ∀ now key,
    let rebuilt := refreshAttachmentCatalog message {} files now
    (c.messagesOf key).map MessageRow.messageKey = (rebuilt.messagesOf key).map MessageRow.messageKey ∧
    ((∀ file ∈ files, ∀ copy ∈ files, (message file).key = key → (message copy).key = key →
        message file = message copy) →
      (c.attachmentsOf key).map (fun row => { row with lastSeenAt := 0 }) =
        (rebuilt.attachmentsOf key).map fun row => { row with lastSeenAt := 0 })

theorem attachmentRows_untimed (m : Message) (early late : Nat) :
    (attachmentRows m early).map (fun row => { row with lastSeenAt := 0 }) =
      (attachmentRows m late).map fun row => { row with lastSeenAt := 0 } := by
  refine List.ext_getElem ?_ fun index _ _ => ?_
  · simp only [attachmentRows, List.length_map, List.length_mapIdx]
  · simp only [attachmentRows, List.getElem_map, List.getElem_mapIdx]

theorem agreesWithRebuild_iff (distinct : (files.map MessageFile.relpath).Nodup) :
    AgreesWithRebuild message files c ↔ Agrees message files c := by
  refine ⟨And.left, fun agrees => ⟨agrees, fun now key => ?_⟩⟩
  have rebuilt : Agrees message files (refreshAttachmentCatalog message {} files now) :=
    agrees_of_meets accounted_empty distinct fun _ member => nomatch member
  dsimp only
  by_cases known : key ∈ files.map fun file => (message file).key
  · obtain ⟨file, there, keyed, early, messages, attachments⟩ := (agrees key).1 known
    obtain ⟨copy, there', keyed', late, messages', attachments'⟩ := (rebuilt key).1 known
    rw [messages, messages', attachments, attachments']
    refine ⟨?_, fun copies => ?_⟩
    · simp only [List.map_cons, List.map_nil, MessageRow.of, keyed, keyed']
    · rw [copies file there copy there' keyed keyed']
      exact attachmentRows_untimed _ _ _
  · rw [((agrees key).2 known).1, ((agrees key).2 known).2, ((rebuilt key).2 known).1, ((rebuilt key).2 known).2]
    exact ⟨rfl, fun _ => rfl⟩

end Visits

section Runs

variable (message : MessageFile → Message)

theorem System.step_agrees_iff (s : System) (event : Event) (agrees : Agrees message s.listed.val s.catalog) :
    Agrees message (s.step message event).listed.val (s.step message event).catalog ↔ s.Meets message event := by
  cases event with
  | refresh files now =>
    have accounted := agrees.accounted s.listed.property
    exact ⟨meets_of_agrees accounted files.property, agrees_of_meets accounted files.property⟩
  | rollback => exact ⟨fun _ => trivial, fun _ => agrees⟩

/-- After every refresh of a sequence the catalogue agrees with a rebuild exactly if each refresh
meets the condition on the rows before it and its listing. -/
theorem refresh_agrees_with_rebuild (events : List Event) :
    (∀ early late, events = early ++ late →
      let s := Runs.run (System.step message) {} early
      AgreesWithRebuild message s.listed.val s.catalog) ↔
    Runs.Along (System.step message) (System.Meets message) {} events := by
  have exactly := Runs.prefixes_iff_along (System.step message) (System.Meets message) (fun _ => True)
    (fun s => Agrees message s.listed.val s.catalog) (fun _ _ _ => trivial)
    (fun s event _ agrees => s.step_agrees_iff message event agrees) {} events trivial
    (fun key => ⟨fun member => (nomatch member), fun _ => ⟨rfl, rfl⟩⟩)
  rw [← exactly]
  refine forall_congr' fun early => forall_congr' fun late => imp_congr_right fun _ => ?_
  exact agreesWithRebuild_iff (Runs.run (System.step message) {} early).listed.property

end Runs

section Inputs

/-- Every file is a copy of one message with an attachment. -/
def letter : MessageFile → Message := fun _ =>
  { key := "message-id:1", sha256 := "m", attachments := [⟨"a", "a.pdf", "application/pdf", 1, false⟩] }

def renamed : System := Runs.run (System.step letter) {}
  [.refresh ⟨[⟨"cur/1:2,", 1, 9⟩], by decide⟩ 1, .refresh ⟨[⟨"cur/1:2,S", 1, 9⟩], by decide⟩ 2]

def copyDeleted : System := Runs.run (System.step letter) {}
  [.refresh ⟨[⟨"cur/1:2,", 1, 9⟩, ⟨"cur/2:2,", 1, 9⟩], by decide⟩ 1, .refresh ⟨[⟨"cur/2:2,", 1, 9⟩], by decide⟩ 2]

/-- A renamed message and the other copy of a deleted one lose their rows. -/
theorem rename_drops_attachments :
    renamed.catalog = {} ∧ copyDeleted.catalog = {} ∧
    ¬AgreesWithRebuild letter renamed.listed.val renamed.catalog ∧
    ¬AgreesWithRebuild letter copyDeleted.listed.val copyDeleted.catalog := by
  have first : renamed.catalog = {} := by decide +kernel
  have second : copyDeleted.catalog = {} := by decide +kernel
  refine ⟨first, second, fun agrees => ?_, fun agrees => ?_⟩
  · obtain ⟨_, _, _, _, messages, _⟩ := (agrees.1 "message-id:1").1 (by decide +kernel)
    rw [first] at messages
    cases messages
  · obtain ⟨_, _, _, _, messages, _⟩ := (agrees.1 "message-id:1").1 (by decide +kernel)
    rw [second] at messages
    cases messages

end Inputs

end NixHomeServer.MailArchive.Catalogue
