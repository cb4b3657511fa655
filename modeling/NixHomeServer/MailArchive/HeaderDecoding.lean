import Mathlib.Data.List.Infix
import NixHomeServer.MailArchive.HeaderPieces

/-! When the decoding of a header gives its meaning: nothing but the encoded words is
decoded, and between visible pieces the whitespace comes out right. -/
namespace NixHomeServer.MailArchive.HeaderWords

open NixHomeServer.Library

section Meaning

/-- The whitespace before the first token, and the tokens with the whitespace after them. -/
def split : Text → Text × List (Text × Text)
  | [] => ([], [])
  | c :: rest =>
    let (blanks, items) := split rest
    if isWhitespace c then (c :: blanks, items)
    else match blanks, items with
      | [], (token, gap) :: items => ([], (c :: token, gap) :: items)
      | blanks, items => ([], ([c], blanks) :: items)

def join (items : List (Text × Text)) : Text := items.flatMap fun item => item.1 ++ item.2

def isWord (token : Text) : Bool := (wordText token).isSome

/-- What a token stands for. -/
def piece (token : Text) : Text := (wordText token).getD token

/-- The whitespace after a token, given what stays between it and the next one. -/
def gapAfter (between : Text → Text → Text → Text) (token gap : Text) : List (Text × Text) → Text
  | [] => gap
  | (next, _) :: _ => between token gap next

def render (between : Text → Text → Text → Text) : List (Text × Text) → Text
  | [] => []
  | (token, gap) :: rest => piece token ++ gapAfter between token gap rest ++ render between rest

/-- Between two encoded words whitespace does not count. -/
def properGap (token gap next : Text) : Text := if isWord token && isWord next then [] else gap

/-- The text that a header stands for. -/
def meaning (raw : Text) : Text := (split raw).1 ++ render properGap (split raw).2

/-- The answer for a header: none if it has no encoded word. -/
def expected (raw : Text) : Option Text := if (split raw).2.any fun item => isWord item.1 then some (trim (meaning raw)) else none

/-- What the loop leaves between two tokens. -/
def actualGap (token gap next : Text) : Text :=
  if isWord next && ['?', '='].isSuffixOf token && gap.getLast? == some ' ' then gap.dropLast else gap

/-- Nothing that starts in another token is decoded. -/
def Clean : List (Text × Text) → Prop
  | [] => True
  | (token, gap) :: rest => (isWord token = true ∨ ∀ back ∈ token.tails, wordAt (back ++ gap ++ join rest) = none) ∧ Clean rest

def spaced : List (Text × Text) → List (Spaced Char)
  | [] => []
  | (token, gap) :: rest => ⟨piece token, gapAfter actualGap token gap rest, gapAfter properGap token gap rest⟩ :: spaced rest

/-- No other text of a header is decoded, and between two visible pieces the loop leaves what belongs there. -/
def Steady (raw : Text) : Prop :=
  Clean (split raw).2 ∧ Level isWhitespace false (split raw).1 (split raw).1 (spaced (split raw).2)

/-- Tokens are not empty and have no whitespace; between two of them there is some. -/
def Tokens : List (Text × Text) → Prop
  | [] => True
  | (token, gap) :: rest => token ≠ [] ∧ (∀ c ∈ token, isWhitespace c = false) ∧ (∀ c ∈ gap, isWhitespace c = true) ∧
      (rest ≠ [] → gap ≠ []) ∧ Tokens rest

theorem join_cons (token gap : Text) (rest : List (Text × Text)) : join ((token, gap) :: rest) = token ++ (gap ++ join rest) := by
  simp [join]

theorem split_spec (raw : Text) : raw = (split raw).1 ++ join (split raw).2 ∧ (∀ c ∈ (split raw).1, isWhitespace c = true) ∧
    Tokens (split raw).2 := by
  induction raw with
  | nil => exact ⟨rfl, nofun, trivial⟩
  | cons c rest ih =>
    obtain ⟨whole, blanks, tokens⟩ := ih
    rw [split]
    generalize split rest = parts at whole blanks tokens
    obtain ⟨front, items⟩ := parts
    dsimp only at whole blanks tokens ⊢
    split
    · rename_i blank
      refine ⟨congrArg (c :: ·) whole, ?_, tokens⟩
      rintro x (_ | ⟨_, member⟩)
      · exact blank
      · exact blanks x member
    · rename_i solid
      have solid : isWhitespace c = false := Bool.not_eq_true _ ▸ solid
      split
      · rename_i token gap items
        obtain ⟨-, clean, gaps, between, later⟩ := tokens
        refine ⟨by rw [whole, List.nil_append, join_cons, List.nil_append, join_cons]; rfl, nofun, List.cons_ne_nil _ _, ?_, gaps, between, later⟩
        rintro x (_ | ⟨_, member⟩)
        · exact solid
        · exact clean x member
      · rename_i front items neither
        refine ⟨by rw [whole, List.nil_append, join_cons]; rfl, nofun, List.cons_ne_nil _ _, ?_, blanks, ?_, tokens⟩
        · rintro x (_ | ⟨_, ⟨⟩⟩)
          exact solid
        · intro some_item empty
          obtain ⟨⟨token, gap⟩, others, same⟩ := List.exists_cons_of_ne_nil some_item
          exact neither token gap others empty same

end Meaning

section Weights

variable {token decoded charset encoding payload front after : Text} {bytes : Bytes}

/-- Visible ASCII characters: what is decoded has fewer of them than the word it is decoded from. -/
def visible (c : Char) : Bool := 0x21 ≤ c.toNat && c.toNat < 0x7F

def weight (text : Text) : Nat := text.countP visible

@[simp] theorem weight_nil : weight [] = 0 := rfl

@[simp] theorem weight_append (left right : Text) : weight (left ++ right) = weight left + weight right := List.countP_append

@[simp] theorem weight_cons (c : Char) (text : Text) : weight (c :: text) = weight text + if visible c then 1 else 0 := List.countP_cons

theorem visible_facts {c : Char} (shown : visible c = true) : 0 < c.toNat ∧ c.toNat < 128 ∧ isWhitespace c = false := by
  simp only [visible, Bool.and_eq_true, decide_eq_true_eq] at shown
  refine ⟨by omega, by omega, ?_⟩
  simp only [isWhitespace, Bool.or_eq_false_iff, Bool.and_eq_false_iff, decide_eq_false_iff_not, beq_eq_false_iff_ne]
  omega

theorem weight_blank {text : Text} (blank : ∀ c ∈ text, isWhitespace c = true) : weight text = 0 := by
  rw [weight, List.countP_eq_zero]
  intro c member shown
  have solid := (visible_facts shown).2.2
  rw [blank c member] at solid
  cases solid

/-- Trimming takes no visible character away. -/
theorem weight_trim (text : Text) : weight (trim text) = weight text := by
  rcases blank_or_split isWhitespace text with blank | ⟨left, x, right, rfl, solid⟩
  · rw [trim, trimBy_blank blank, weight_blank blank, weight_nil]
  · have front : weight (left.dropWhile isWhitespace) = weight left := by
      conv => rhs; rw [← List.takeWhile_append_dropWhile (p := isWhitespace) (l := left)]
      rw [weight_append, weight_blank fun c member => List.mem_takeWhile_imp member, Nat.zero_add]
    have back : weight (right.rdropWhile isWhitespace) = weight right := by
      conv => rhs; rw [← List.rdropWhile_append_rtakeWhile (p := isWhitespace) (l := right)]
      rw [weight_append, weight_blank fun c member => List.mem_rtakeWhile_imp member, Nat.add_zero]
    rw [trim, trimBy_append_solid _ _ solid]
    simp [front, back]

theorem weight_of_decodeHeaderBytes (charset : Text) (bytes : Bytes) :
    weight (decodeHeaderBytes charset bytes) ≤ bytes.countP fun b => visible (Char.ofNat b.toNat) := by
  have lossy : weight (fromUtf8Lossy bytes) ≤ bytes.countP fun b => visible (Char.ofNat b.toNat) :=
    countP_fromUtf8Lossy (fun c shown => ⟨(visible_facts shown).1, (visible_facts shown).2.1⟩) bytes
  have windows : ∀ n < 256, visible (windows1252 (UInt8.ofNat n)) = true → visible (Char.ofNat (UInt8.ofNat n).toNat) = true := by
    decide +kernel
  unfold decodeHeaderBytes
  split
  · exact lossy
  · split
    · rw [weight, decodeWindows1252, List.countP_map]
      refine List.countP_mono_left fun b _ shown => ?_
      have same := windows b.toNat b.toNat_lt
      rw [UInt8.ofNat_toNat] at same
      exact same shown
    · split
      · rw [weight, List.countP_map]
        exact Nat.le_refl _
      · exact lossy

theorem countP_decodeRfc2047Q {encoded : Bytes} (read : decodeRfc2047Q encoded = some bytes) (shown : UInt8 → Bool)
    (space : shown 0x20 = false) (escape : shown 0x3D = true) : bytes.countP shown ≤ encoded.countP shown := by
  induction encoded using decodeRfc2047Q.induct generalizing bytes with
  | case1 =>
    cases read
    exact Nat.le_refl 0
  | case2 rest ih =>
    rw [decodeRfc2047Q.eq_def] at read
    simp only [if_true, Option.map_eq_some_iff] at read
    obtain ⟨bytes, rest, rfl⟩ := read
    have tail := ih rest
    simp only [List.countP_cons, space, Bool.false_eq_true, if_false]
    omega
  | case3 other high low rest ih =>
    rw [decodeRfc2047Q.eq_def] at read
    simp only [show (0x3D : UInt8) ≠ 0x5F by decide, if_false, if_true, Option.bind_eq_bind, Option.bind_eq_some_iff, Option.pure_def,
      Option.some.injEq] at read
    obtain ⟨value, -, bytes, rest, rfl⟩ := read
    have tail := ih rest
    simp only [List.countP_cons, escape, if_true]
    split <;> omega
  | case4 rest short other =>
    rw [decodeRfc2047Q.eq_def] at read
    simp only [show (0x3D : UInt8) ≠ 0x5F by decide, if_false, if_true] at read
    cases read
  | case5 b rest other other' ih =>
    rw [decodeRfc2047Q.eq_def] at read
    simp only [other, other', if_false, Option.map_eq_some_iff] at read
    obtain ⟨bytes, rest, rfl⟩ := read
    have tail := ih rest
    simp only [List.countP_cons]
    omega

theorem countP_utf8 (text : Text) : ((utf8 text).countP fun b => visible (Char.ofNat b.toNat)) = weight text := by
  induction text with
  | nil => rfl
  | cons c rest ih =>
    rw [utf8_cons, List.countP_append, ih, weight_cons, Nat.add_comm]
    congr 1
    by_cases small : c.toNat < 128
    · have value : (UInt8.ofNat c.toNat).toNat = c.toNat := by
        rw [UInt8.toNat_ofNat', Nat.mod_eq_of_lt (by omega)]
      rw [encode_of_ascii small, List.countP_cons, List.countP_nil, value, Char.ofNat_toNat]
      simp
    · have hidden : visible c = false := by
        cases shown : visible c with
        | false => rfl
        | true => exact (small (visible_facts shown).2.1).elim
      obtain ⟨b, bs, encoded, first, -, -, -, others⟩ := encode_of_large (Nat.le_of_not_lt small)
      have wide : ∀ x ∈ b :: bs, 0x80 ≤ x.toNat := by
        rintro x (_ | ⟨_, member⟩)
        · omega
        · exact (others x member).1
      rw [encoded, hidden]
      simp only [Bool.false_eq_true, if_false, List.countP_eq_zero]
      intro x member shown
      have facts := visible_facts shown
      have large := wide x member
      rcases toNat_ofNat_wide large with zero | wide
      · omega
      · omega

theorem visible_of_isBase64 {c : Char} (letter : isBase64 c = true) : visible c = true := by
  simp only [isBase64, Bool.or_eq_true, beq_iff_eq] at letter
  rcases letter with ((letter | rfl) | rfl) | rfl
  · change ((decide (c.val ≥ 'A'.val ∧ c.val ≤ 'Z'.val) || (decide (c.val ≥ 'a'.val) && decide (c.val ≤ 'z'.val))) ||
      (decide (c.val ≥ '0'.val) && decide (c.val ≤ '9'.val))) = true at letter
    simp only [Bool.or_eq_true, Bool.and_eq_true, decide_eq_true_eq, ge_iff_le, UInt32.le_iff_toNat_le] at letter
    change ((65 ≤ c.toNat ∧ c.toNat ≤ 90) ∨ (97 ≤ c.toNat ∧ c.toNat ≤ 122)) ∨ (48 ≤ c.toNat ∧ c.toNat ≤ 57) at letter
    simp only [visible, Bool.and_eq_true, decide_eq_true_eq]
    omega
  all_goals rfl

theorem weight_of_decoded (word : decodeRfc2047Word charset encoding payload = some decoded) : weight decoded ≤ weight payload := by
  obtain ⟨bytes, read, rfl⟩ := Option.map_eq_some_iff.mp word
  refine Nat.le_trans (weight_of_decodeHeaderBytes charset bytes) ?_
  split at read
  · rw [← countP_utf8]
    exact countP_decodeRfc2047Q read _ (by decide) (by decide)
  · split at read
    · obtain rfl := fromBase64_eq_some.mp read
      have alphabet : ∀ c ∈ base64 bytes, visible c = true := fun c member => visible_of_isBase64 (isBase64_of_mem member)
      rw [weight, List.countP_eq_length.mpr alphabet]
      exact Nat.le_trans List.countP_le_length (length_le_base64 bytes)
    · cases read

end Weights

section Regions

variable {token decoded charset encoding encoded front after tail text : Text} {c : Char}

theorem wordAt_eq_some (word : wordAt text = some (decoded, after)) : ∃ charset encoding encoded,
    text = encodedWord charset encoding encoded ++ after ∧ '?' ∉ charset ∧ '?' ∉ encoding ∧
      decodeRfc2047Word charset encoding encoded = some decoded := by
  unfold wordAt at word
  split at word
  · simp only [Option.bind_eq_bind, Option.bind_eq_some_iff, Option.pure_def, Option.some.injEq, Prod.exists, Prod.mk.injEq] at word
    obtain ⟨charset, encoding, encoded, after, read, decoded, fine, rfl, rfl⟩ := word
    obtain ⟨rfl, clean, clean'⟩ := readWord_eq_some read
    exact ⟨charset, encoding, encoded, by simp [encodedWord], clean, clean', fine⟩
  · cases word

theorem weight_word (fine : decodeRfc2047Word charset encoding encoded = some decoded) :
    weight decoded < weight (encodedWord charset encoding encoded) := by
  have small := weight_of_decoded fine
  have mark : visible '=' = true := rfl
  simp only [encodedWord, weight_cons, weight_append, mark, if_true]
  omega

theorem letter_of_decoded (fine : decodeRfc2047Word charset encoding encoded = some decoded) : encoding.length = 1 := by
  obtain ⟨bytes, read, -⟩ := Option.map_eq_some_iff.mp fine
  have upper : encoding.map Char.toUpper = ['Q'] ∨ encoding.map Char.toUpper = ['B'] := by
    split at read
    · exact .inl ‹_›
    · split at read
      · exact .inr ‹_›
      · cases read
  rcases upper with same | same
  all_goals simpa using congrArg List.length same

/-- A blank, an equals sign and a question mark, where a first question mark stands before the rest. -/
theorem question_split {left right more : Text} (clean : '?' ∉ left) (blank : c ≠ '?') (same : left ++ '?' :: right = front ++ c :: '=' :: '?' :: more) :
    (left = front ++ [c, '='] ∧ right = more) ∨ ∃ later, right = later ++ c :: '=' :: '?' :: more := by
  induction left generalizing front with
  | nil =>
    cases front with
    | nil => exact (blank (List.cons.inj same).1.symm).elim
    | cons x front => exact .inr ⟨front, (List.cons.inj same).2⟩
  | cons x left ih =>
    rw [List.mem_cons, not_or] at clean
    cases front with
    | nil =>
      simp only [List.cons_append, List.nil_append, List.cons.injEq] at same
      obtain ⟨rfl, tails⟩ := same
      match left, tails with
      | [y], tails =>
        simp only [List.cons_append, List.nil_append, List.cons.injEq, true_and] at tails
        obtain ⟨rfl, rest⟩ := tails
        exact .inl ⟨rfl, rest⟩
      | y :: z :: left, tails =>
        simp only [List.cons_append, List.cons.injEq] at tails
        exact (clean.2 (by simp [tails.2.1])).elim
    | cons y front =>
      simp only [List.cons_append, List.cons.injEq] at same
      obtain ⟨rfl, tails⟩ := same
      rcases ih clean.2 tails with ⟨rfl, rest⟩ | later
      · exact .inl ⟨rfl, rest⟩
      · exact .inr later

/-- What is decoded has no blank before an equals sign that a question mark or nothing follows. -/
theorem no_blank_equals (fine : decodeRfc2047Word charset encoding (front ++ c :: '=' :: tail) = some decoded)
    (blank : isWhitespace c = true) (marked : tail = [] ∨ ∃ rest, tail = '?' :: rest) : False := by
  obtain ⟨bytes, read, -⟩ := Option.map_eq_some_iff.mp fine
  split at read
  · have bytes_of : utf8 (front ++ c :: '=' :: tail) = utf8 (front ++ [c]) ++ 0x3D :: utf8 tail := by
      rw [show front ++ c :: '=' :: tail = front ++ [c] ++ '=' :: tail by simp, utf8_append, utf8_ascii (c := '=') _ (by decide)]
      rfl
    rw [bytes_of] at read
    obtain ⟨high, low, rest, starts, digits⟩ := escape_of_decoded (by rw [read]; exact Option.some_ne_none _)
    obtain ⟨v, digits⟩ := Option.ne_none_iff_exists'.mp digits
    rcases marked with rfl | ⟨rest', rfl⟩
    · cases starts
    · rw [utf8_ascii (c := '?') _ (by decide)] at starts
      obtain ⟨rfl, -⟩ := List.cons.inj starts
      exact (byte_of_hexByte digits _ List.mem_cons_self).2 rfl
  · split at read
    · have written := fromBase64_eq_some.mp read
      have member : c ∈ base64 bytes := by
        rw [written]
        simp
      have letter : isBase64 c = true := isBase64_of_mem member
      have solid := (visible_facts (visible_of_isBase64 letter)).2.2
      rw [blank] at solid
      cases solid
    · cases read

/-- No encoded word of the header starts inside of what is decoded. -/
theorem no_word_inside {last : Text} (fine : decodeRfc2047Word charset encoding encoded = some decoded) (clean : '?' ∉ charset)
    (clean' : '?' ∉ encoding) (blank : isWhitespace c = true) (some_last : last ≠ []) {meant : Text} (word : EncodedWord token meant)
    (region : encodedWord charset encoding encoded = front ++ c :: last) (whole : last ++ after = token ++ tail) : False := by
  have question : c ≠ '?' := by
    rintro rfl
    cases blank
  obtain ⟨charset', encoding', payload', bytes', rfl, known, -⟩ := word
  cases last with
  | nil => exact some_last rfl
  | cons x last =>
    simp only [encodedWord, List.cons_append, List.cons.injEq] at whole
    obtain ⟨rfl, whole⟩ := whole
    cases last with
    | nil =>
      have ends := congrArg (fun text => text.reverse) region
      simp only [encodedWord, List.reverse_cons, List.reverse_append, List.append_assoc] at ends
      simp only [List.reverse_nil, List.nil_append, List.cons_append, List.cons.injEq, true_and] at ends
      exact question ends.1.symm
    | cons y last =>
      simp only [List.cons_append, List.cons.injEq] at whole
      obtain ⟨rfl, whole⟩ := whole
      rcases front with _ | ⟨z, _ | ⟨z', front⟩⟩
      · obtain ⟨rfl, -⟩ := List.cons.inj region
        cases blank
      · exact question (List.cons.inj (List.cons.inj region).2).1.symm
      · -- the word begins inside the payload, or where a part ends
        have inner := (List.cons.inj (List.cons.inj region).2).2
        rcases question_split clean question inner with ⟨-, rfl⟩ | ⟨later, inner⟩
        · have cut := cutAt_append '?' (encoded ++ ['?', '='] ++ after) clean'
          have cut' := cutAt_append '?' (encoding' ++ '?' :: (payload' ++ ['?', '=']) ++ tail) fun member => (charset_facts known).2 _ member rfl
          have texts : encoding ++ '?' :: (encoded ++ ['?', '='] ++ after) = charset' ++ '?' :: (encoding' ++ '?' :: (payload' ++ ['?', '=']) ++ tail) := by
            simpa using whole
          rw [texts, cut'] at cut
          have long := (charset_facts known).1
          rw [(Prod.mk.inj (Option.some.inj cut)).1, letter_of_decoded fine] at long
          exact Nat.lt_irrefl 1 long
        · rcases question_split clean' question inner with ⟨long, -⟩ | ⟨later', inner⟩
          · have length := letter_of_decoded fine
            rw [long] at length
            simp at length
          · have cut : encoded ++ ['?', '='] = (later' ++ [c, '=']) ++ '?' :: last := by simpa using inner
            rcases List.append_eq_append_iff.mp cut with ⟨middle, own, ends⟩ | ⟨middle, rfl, ends⟩
            · cases middle with
              | nil =>
                rw [List.append_nil] at own
                rw [← own] at fine
                rw [show later' ++ [c, '='] = later' ++ c :: '=' :: [] from rfl] at fine
                exact no_blank_equals fine blank (.inl rfl)
              | cons w middle =>
                rcases middle with _ | ⟨w', _ | ⟨w'', middle⟩⟩ <;> cases ends
            · rw [List.append_assoc] at fine
              refine no_blank_equals fine blank ?_
              cases middle with
              | nil => exact .inl rfl
              | cons w middle => exact .inr ⟨middle, by rw [← (List.cons.inj ends).1]; rfl⟩

end Regions

section Strays

variable {token gap decoded charset encoding encoded front after output before : Text} {items rest : List (Text × Text)} {any : Bool}

/-- The visible characters of what the tokens stand for. -/
def load (items : List (Text × Text)) : Nat := (items.map fun item => weight (piece item.1)).sum

/-- A text to be copied ends before the next token. -/
def Parted (front : Text) (items : List (Text × Text)) : Prop :=
  items ≠ [] → front = [] ∨ ∃ body c, front = body ++ [c] ∧ isWhitespace c = true

/-- Nothing is decoded in a text to be copied, nor in the tokens after it that are none. -/
def Silent (front : Text) (items : List (Text × Text)) : Prop :=
  (∀ a c b, front = a ++ c :: b → wordAt (c :: (b ++ join items)) = none) ∧ Clean items

theorem load_cons (token gap : Text) (rest : List (Text × Text)) : load ((token, gap) :: rest) = weight (piece token) + load rest := by
  simp [load]

theorem piece_other (other : isWord token = false) : piece token = token := by
  rw [isWord, Option.isSome_eq_false_iff, Option.isNone_iff_eq_none] at other
  rw [piece, other]
  rfl

theorem wordAt_blank {text : Text} (blank : ∀ c ∈ text.head?, isWhitespace c = true) : wordAt text = none := by
  unfold wordAt
  split
  · have space := blank '=' rfl
    cases space
  · rfl

theorem parted_gap (text : Text) (blank : ∀ c ∈ gap, isWhitespace c = true) (between : rest ≠ [] → gap ≠ []) : Parted (text ++ gap) rest := by
  intro more
  obtain ⟨body, c, rfl⟩ := (List.eq_nil_or_concat gap).resolve_left (between more)
  exact .inr ⟨text ++ body, c, by simp, blank c (by simp)⟩

/-- A part of what is decoded is copied by the meaning, as far as it reaches. -/
theorem cut_region (tokens : Tokens items) (parted : Parted front items) (some_front : front ≠ [])
    (fine : decodeRfc2047Word charset encoding encoded = some decoded) (clean : '?' ∉ charset) (clean' : '?' ∉ encoding)
    (same : front ++ join items = encodedWord charset encoding encoded ++ after) :
    ∃ front' items', after = front' ++ join items' ∧ Tokens items' ∧ Parted front' items' ∧
      weight (encodedWord charset encoding encoded) + weight front' + load items' = weight front + load items := by
  induction items generalizing front with
  | nil =>
    refine ⟨after, [], by simp [join], trivial, fun none => (none rfl).elim, ?_⟩
    rw [show front = encodedWord charset encoding encoded ++ after by simpa [join] using same]
    simp
  | cons item rest ih =>
    obtain ⟨token, gap⟩ := item
    obtain ⟨nonempty, solid, blank, between, later⟩ := tokens
    obtain ⟨body, c, ends, space⟩ := (parted (List.cons_ne_nil _ _)).resolve_left some_front
    rcases List.append_eq_append_iff.mp same with ⟨middle, region, whole⟩ | ⟨middle, region, whole⟩
    · by_cases done : middle = []
      · subst done
        refine ⟨[], (token, gap) :: rest, by simpa using whole.symm, ⟨nonempty, solid, blank, between, later⟩, fun _ => .inl rfl, ?_⟩
        rw [region]
        simp
      · cases word : isWord token with
        | true =>
          obtain ⟨meant, text⟩ := Option.isSome_iff_exists.mp word
          rw [join_cons] at whole
          have split : encodedWord charset encoding encoded = body ++ c :: middle := by
            rw [region, ends]
            simp
          exact (no_word_inside fine clean clean' space done (wordText_eq_some.mp text) split whole.symm).elim
        | false =>
          have again : front ++ (token ++ gap) ++ join rest = encodedWord charset encoding encoded ++ after := by
            rw [← same, join_cons]
            simp
          have parted' : Parted (front ++ (token ++ gap)) rest := by
            rw [← List.append_assoc]
            exact parted_gap _ blank between
          obtain ⟨front', items', cut, tokens', parted'', weights⟩ := ih later parted' (by simp [some_front]) again
          refine ⟨front', items', cut, tokens', parted'', ?_⟩
          rw [weights, load_cons, piece_other word]
          simp only [weight_append, weight_blank blank]
          omega
    · refine ⟨middle, (token, gap) :: rest, whole, ⟨nonempty, solid, blank, between, later⟩, fun _ => ?_, ?_⟩
      · rcases List.eq_nil_or_concat middle with none | ⟨middle, x, rfl⟩
        · exact .inl none
        · rw [ends, List.concat_eq_append, ← List.append_assoc] at region
          have last := (List.append_inj' region rfl).2
          exact .inr ⟨middle, x, List.concat_eq_append, by rw [← (List.cons.inj last).1]; exact space⟩
      · rw [region]
        simp

theorem weight_takenBack (before output : Text) : weight (takenBack before output) = weight output := by
  unfold takenBack
  split
  · rename_i space
    obtain ⟨body, rfl⟩ := List.getLast?_eq_some_iff.mp space.1
    rw [List.dropLast_concat, weight_append]
    rfl
  · rfl

/-- What the loop makes of a rest of the header. -/
structure Outcome (output front : Text) (any : Bool) (items : List (Text × Text)) (out : Text) (decodedAny : Bool) : Prop where
  bounded : weight out ≤ weight output + weight front + load items
  keeps : any = true → decodedAny = true
  strays : ¬ Silent front items → decodedAny = true ∧ weight out < weight output + weight front + load items

theorem loop_weight (n : Nat) : ∀ before front output items any, (front ++ join items).length = n → Tokens items → Parted front items →
    ∃ out decodedAny, loop (before ++ (front ++ join items)) (utf8 before).length output any = .returns (finish out decodedAny) ∧
      Outcome output front any items out decodedAny := by
  induction n using Nat.strongRecOn with
  | _ n ih =>
    have shorter : ∀ before front output items any, (front ++ join items).length < n → Tokens items → Parted front items →
        ∃ out decodedAny, loop (before ++ (front ++ join items)) (utf8 before).length output any = .returns (finish out decodedAny) ∧
          Outcome output front any items out decodedAny :=
      fun before front output items any small => ih _ small before front output items any rfl
    have copies : ∀ before c front output items any, (c :: front ++ join items).length = n → Tokens items → Parted (c :: front) items →
        ∃ out decodedAny, loop (before ++ (c :: front ++ join items)) (utf8 before).length output any = .returns (finish out decodedAny) ∧
          Outcome output (c :: front) any items out decodedAny := by
      intro before c front output items any size tokens parted
      cases here : wordAt (c :: front ++ join items) with
      | some found =>
        obtain ⟨decoded, after⟩ := found
        obtain ⟨charset, encoding, encoded, whole, clean, clean', fine⟩ := wordAt_eq_some here
        obtain ⟨front', items', rfl, tokens', parted', weights⟩ := cut_region tokens parted (List.cons_ne_nil c front) fine clean clean' whole
        rw [whole] at here size ⊢
        rw [← List.append_assoc, loop_word here]
        have long : 0 < (encodedWord charset encoding encoded).length := Nat.zero_lt_succ _
        obtain ⟨out, decodedAny, runs, outcome⟩ := shorter (before ++ encodedWord charset encoding encoded) front'
          (takenBack before output ++ decoded) items' true (by rw [List.length_append] at size; omega) tokens' parted'
        have lighter := weight_word fine
        have bounded := outcome.bounded
        rw [weight_append, weight_takenBack] at bounded
        exact ⟨out, decodedAny, runs, by omega, fun _ => outcome.keeps rfl, fun _ => ⟨outcome.keeps rfl, by omega⟩⟩
      | none =>
        have parted' : Parted front items := by
          intro more
          rcases parted more with none | ⟨body, x, ends, space⟩
          · cases none
          · cases body with
            | nil => exact .inl (List.cons.inj ends).2
            | cons y body => exact .inr ⟨body, x, (List.cons.inj ends).2, space⟩
        obtain ⟨out, decodedAny, runs, outcome⟩ := shorter (before ++ [c]) front (output ++ [c]) items any
          (by rw [List.cons_append, List.length_cons] at size; omega) tokens parted'
        rw [List.cons_append] at here ⊢
        rw [loop_char here]
        refine ⟨out, decodedAny, by simpa using runs, ?_, outcome.keeps, fun heard => ?_⟩
        · have bounded := outcome.bounded
          simp only [weight_append, weight_cons, weight_nil] at bounded ⊢
          omega
        · have later : ¬ Silent front items := by
            refine fun silent => heard ⟨fun a d b split => ?_, silent.2⟩
            cases a with
            | nil =>
              obtain ⟨rfl, rfl⟩ := List.cons.inj split
              exact here
            | cons y a => exact silent.1 a d b (List.cons.inj split).2
          obtain ⟨some_word, less⟩ := outcome.strays later
          simp only [weight_append, weight_cons, weight_nil] at less ⊢
          exact ⟨some_word, by omega⟩
    intro before front output items any size tokens parted
    cases front with
    | cons c front => exact copies before c front output items any size tokens parted
    | nil =>
      cases items with
      | nil =>
        refine ⟨output, any, ?_, by simp [load], id, fun heard => ?_⟩
        · simpa [join] using loop_end before output any
        · exact (heard ⟨fun a c b split => by simp at split, trivial⟩).elim
      | cons item rest =>
        obtain ⟨token, gap⟩ := item
        obtain ⟨nonempty, solid, blank, between, later⟩ := tokens
        have apart : Parted gap rest := parted_gap [] blank between
        rw [List.nil_append, join_cons] at size ⊢
        cases word : isWord token with
        | true =>
          obtain ⟨meant, text⟩ := Option.isSome_iff_exists.mp word
          have here := wordAt_encodedWord (wordText_eq_some.mp text) (gap ++ join rest)
          have long : 0 < token.length := List.length_pos_iff.mpr nonempty
          obtain ⟨out, decodedAny, runs, outcome⟩ := shorter (before ++ token) gap (takenBack before output ++ meant) rest true
            (by rw [List.length_append] at size; omega) later apart
          rw [← List.append_assoc, loop_word here]
          have own : piece token = meant := by rw [piece, text]; rfl
          refine ⟨out, decodedAny, runs, ?_, fun _ => outcome.keeps rfl, fun heard => ?_⟩
          · have bounded := outcome.bounded
            simp only [weight_append, weight_takenBack, weight_blank blank] at bounded
            rw [load_cons, own, weight_nil]
            omega
          · have unclean : ¬ Silent gap rest := fun silent =>
              heard ⟨fun a c b split => by simp at split, .inl word, silent.2⟩
            obtain ⟨some_word, less⟩ := outcome.strays unclean
            simp only [weight_append, weight_takenBack, weight_blank blank] at less
            rw [load_cons, own, weight_nil]
            exact ⟨some_word, by omega⟩
        | false =>
          obtain ⟨c, token, rfl⟩ := List.exists_cons_of_ne_nil nonempty
          obtain ⟨out, decodedAny, runs, outcome⟩ := copies before c (token ++ gap) output rest any (by simpa using size) later
            (by rw [← List.cons_append]; exact parted_gap _ blank between)
          refine ⟨out, decodedAny, by simpa using runs, ?_, outcome.keeps, fun heard => ?_⟩
          · have bounded := outcome.bounded
            rw [← List.cons_append, weight_append, weight_blank blank] at bounded
            rw [load_cons, piece_other word, weight_nil]
            omega
          · have stray : ¬ Silent (c :: (token ++ gap)) rest := by
              refine fun silent => heard ⟨fun a d b split => by simp at split, .inr fun back member => ?_, silent.2⟩
              obtain ⟨front, own⟩ := (List.mem_tails _ _).mp member
              cases back with
              | nil =>
                refine wordAt_blank fun d first => ?_
                cases gap with
                | nil =>
                  by_cases last : rest = []
                  · simp [last, join] at first
                  · exact (between last rfl).elim
                | cons x gap =>
                  obtain rfl : x = d := by simpa using first
                  exact blank x List.mem_cons_self
              | cons d back =>
                have split : c :: (token ++ gap) = front ++ d :: (back ++ gap) := by
                  rw [← List.cons_append, ← own]
                  simp
                have none_here := silent.1 front d (back ++ gap) split
                simpa using none_here
            obtain ⟨some_word, less⟩ := outcome.strays stray
            rw [← List.cons_append, weight_append, weight_blank blank] at less
            rw [load_cons, piece_other word, weight_nil]
            exact ⟨some_word, by omega⟩

end Strays

section Exact

variable {token gap next front rest output before : Text} {items : List (Text × Text)} {any : Bool}

theorem loop_front (before output : Text) (silent : ∀ a c b, front = a ++ c :: b → wordAt (c :: (b ++ rest)) = none) :
    loop (before ++ (front ++ rest)) (utf8 before).length output any =
      loop (before ++ (front ++ rest)) (utf8 (before ++ front)).length (output ++ front) any := by
  induction front generalizing before output with
  | nil => simp
  | cons c front ih =>
    have later := ih (before ++ [c]) (output ++ [c]) fun a d b split => silent (c :: a) d b (by rw [split]; rfl)
    rw [List.cons_append, loop_char (silent [] c front rfl)]
    simpa using later

theorem silent_blank (blank : ∀ c ∈ gap, isWhitespace c = true) (rest : Text) : ∀ a c b, gap = a ++ c :: b → wordAt (c :: (b ++ rest)) = none := by
  rintro a c b rfl
  exact wordAt_blank fun d first => by
    obtain rfl : c = d := by simpa using first
    exact blank c (by simp)

theorem silent_token (other : ∀ back ∈ token.tails, wordAt (back ++ gap ++ rest) = none) (blank : ∀ c ∈ gap, isWhitespace c = true) :
    ∀ a c b, token ++ gap = a ++ c :: b → wordAt (c :: (b ++ rest)) = none := by
  intro a c b split
  rcases List.append_eq_append_iff.mp split with ⟨middle, rfl, own⟩ | ⟨middle, rfl, own⟩
  · exact silent_blank blank rest middle c b own
  · cases middle with
    | nil => exact silent_blank blank rest [] c b own.symm
    | cons d middle =>
      obtain ⟨rfl, rfl⟩ := List.cons.inj own
      simpa using other (c :: middle) ((List.mem_tails _ _).mpr ⟨a, rfl⟩)

/-- A token with what is before it: nothing at all, or a text that ends in whitespace. -/
def Follows (before token gap : Text) : Prop :=
  (token = [] ∧ before = []) ∨ (token ≠ [] ∧ (∀ c ∈ token, isWhitespace c = false) ∧ gap ≠ [] ∧
    (before = [] ∨ ∃ body c, before = body ++ [c] ∧ isWhitespace c = true))

theorem trimEnd_append (text : Text) (blank : ∀ c ∈ gap, isWhitespace c = true) : trimEnd (text ++ gap) = trimEnd text := by
  rw [trimEnd, List.rdropWhile, List.reverse_append, List.dropWhile_append_of_pos, trimEnd, List.rdropWhile]
  exact fun c member => blank c (List.mem_reverse.mp member)

/-- What the loop sees before a word is the token before it. -/
theorem takenBack_follows (follows : Follows before token gap) (blank : ∀ c ∈ gap, isWhitespace c = true) (word : isWord next = true)
    (output : Text) : takenBack (before ++ token ++ gap) (output ++ gap) = output ++ actualGap token gap next := by
  unfold takenBack actualGap
  rw [trimEnd_append _ blank]
  rcases follows with ⟨rfl, rfl⟩ | ⟨nonempty, solid, some_gap, apart⟩
  · simp [trimEnd]
  · obtain ⟨body, x, rfl⟩ := (List.eq_nil_or_concat token).resolve_left nonempty
    have kept : trimEnd (before ++ body.concat x) = before ++ body.concat x := by
      rw [List.concat_eq_append, ← List.append_assoc, trimEnd, List.rdropWhile_concat_neg]
      rw [solid x (by simp)]
      exact Bool.false_ne_true
    have same : ['?', '='].isSuffixOf (before ++ body.concat x) = ['?', '='].isSuffixOf (body.concat x) := by
      rw [Bool.eq_iff_iff, List.isSuffixOf_iff_suffix, List.isSuffixOf_iff_suffix]
      constructor
      · intro ends
        cases body with
        | nil =>
          exfalso
          obtain ⟨front, whole⟩ := ends
          have parts : (front ++ ['?']) ++ ['='] = before ++ [x] := by simpa using whole
          have own := (List.append_inj' parts rfl).1
          rcases apart with none | ⟨body, c, ends, space⟩
          · rw [none] at own
            simp at own
          · rw [ends] at own
            obtain ⟨-, last⟩ := List.append_inj' own rfl
            rw [← (List.cons.inj last).1] at space
            cases space
        | cons y body =>
          refine List.suffix_of_suffix_length_le ends (List.suffix_append before _) ?_
          simp
      · exact fun ends => ends.trans (List.suffix_append before _)
    have last : (output ++ gap).getLast? = gap.getLast? := List.getLast?_append_of_ne_nil _ some_gap
    rw [kept, same, last, word, Bool.true_and]
    by_cases both : gap.getLast? = some ' ' ∧ ['?', '='].isSuffixOf (body.concat x) = true
    · rw [if_pos both, if_pos (by rw [both.1, both.2]; rfl), List.dropLast_append_of_ne_nil some_gap]
    · rw [if_neg both, if_neg (by simpa [and_comm] using both)]

theorem loop_items (tokens : Tokens items) (clean : Clean items) (before token gap output : Text) (any : Bool)
    (blank : ∀ c ∈ gap, isWhitespace c = true) (follows : items ≠ [] → Follows before token gap) :
    loop (before ++ token ++ gap ++ join items) (utf8 (before ++ token ++ gap)).length (output ++ gap) any =
      .returns (finish (output ++ gapAfter actualGap token gap items ++ render actualGap items) (any || items.any fun item => isWord item.1)) := by
  induction items generalizing before token gap output any with
  | nil =>
    have done := loop_end (before ++ token ++ gap) (output ++ gap) any
    simpa [join, gapAfter, render] using done
  | cons item rest ih =>
    obtain ⟨next, gap'⟩ := item
    obtain ⟨nonempty, solid, blank', between, later⟩ := tokens
    obtain ⟨silent, clean⟩ := clean
    have follows := follows (List.cons_ne_nil _ _)
    have follows' : rest ≠ [] → Follows (before ++ token ++ gap) next gap' := by
      refine fun more => .inr ⟨nonempty, solid, between more, ?_⟩
      rcases follows with ⟨rfl, rfl⟩ | ⟨-, -, some_gap, -⟩
      · rcases List.eq_nil_or_concat gap with none | ⟨body, c, rfl⟩
        · exact .inl (by simpa using none)
        · exact .inr ⟨body, c, by simp, blank c (by simp)⟩
      · obtain ⟨body, c, rfl⟩ := (List.eq_nil_or_concat gap).resolve_left some_gap
        exact .inr ⟨before ++ token ++ body, c, by simp, blank c (by simp)⟩
    rw [join_cons, gapAfter]
    cases word : isWord next with
    | true =>
      obtain ⟨meant, text⟩ := Option.isSome_iff_exists.mp word
      have here := wordAt_encodedWord (wordText_eq_some.mp text) (gap' ++ join rest)
      have own : piece next = meant := by rw [piece, text]; rfl
      have copied : loop (before ++ token ++ gap ++ next ++ (gap' ++ join rest)) (utf8 (before ++ token ++ gap ++ next)).length
          (output ++ actualGap token gap next ++ meant) true =
          loop (before ++ token ++ gap ++ next ++ (gap' ++ join rest)) (utf8 (before ++ token ++ gap ++ next ++ gap')).length
            (output ++ actualGap token gap next ++ meant ++ gap') true := loop_front _ _ (silent_blank blank' _)
      rw [← List.append_assoc, loop_word here, takenBack_follows follows blank word, copied]
      have goes_on := ih later clean (before ++ token ++ gap) next gap' (output ++ actualGap token gap next ++ meant) true blank' follows'
      simpa [render, own, word] using goes_on
    | false =>
      have silent := silent_token (silent.resolve_left (by simp [word])) blank'
      rw [← List.append_assoc next, loop_front _ _ silent]
      have goes_on := ih later clean (before ++ token ++ gap) next gap' (output ++ gap ++ next) any blank' follows'
      have plain : actualGap token gap next = gap := by simp [actualGap, word]
      simpa [render, piece_other word, word, plain] using goes_on

end Exact

section Result

variable {items : List (Text × Text)}

theorem joinHere_spaced (items : List (Text × Text)) : joinHere (spaced items) = render actualGap items := by
  induction items with
  | nil => rfl
  | cons item rest ih =>
    obtain ⟨token, gap⟩ := item
    rw [spaced, render, ← ih]
    simp [joinHere]

theorem joinThere_spaced (items : List (Text × Text)) : joinThere (spaced items) = render properGap items := by
  induction items with
  | nil => rfl
  | cons item rest ih =>
    obtain ⟨token, gap⟩ := item
    rw [spaced, render, ← ih]
    simp [joinThere]

theorem spaced_blank (tokens : Tokens items) : ∀ s ∈ spaced items,
    (∀ c ∈ s.here, isWhitespace c = true) ∧ ∀ c ∈ s.there, isWhitespace c = true := by
  induction items with
  | nil => exact nofun
  | cons item rest ih =>
    obtain ⟨token, gap⟩ := item
    obtain ⟨-, -, blank, -, later⟩ := tokens
    rintro s (_ | ⟨_, member⟩)
    · cases rest with
      | nil => exact ⟨blank, blank⟩
      | cons item rest =>
        obtain ⟨next, gap'⟩ := item
        constructor
        · intro c inside
          change c ∈ actualGap token gap next at inside
          unfold actualGap at inside
          split at inside
          · exact blank c (List.dropLast_subset gap inside)
          · exact blank c inside
        · intro c inside
          change c ∈ properGap token gap next at inside
          unfold properGap at inside
          split at inside
          · cases inside
          · exact blank c inside
    · exact ih later s member

theorem weight_render (tokens : Tokens items) : weight (render properGap items) = load items := by
  induction items with
  | nil => rfl
  | cons item rest ih =>
    obtain ⟨token, gap⟩ := item
    have blank := (spaced_blank tokens ⟨piece token, gapAfter actualGap token gap rest, gapAfter properGap token gap rest⟩
      List.mem_cons_self).2
    rw [render, weight_append, weight_append, weight_blank blank, ih tokens.2.2.2.2, load_cons]
    omega

theorem render_unchanged (none_word : ∀ item ∈ items, isWord item.1 = false) : render actualGap items = render properGap items := by
  induction items with
  | nil => rfl
  | cons item rest ih =>
    obtain ⟨token, gap⟩ := item
    have own : isWord token = false := none_word _ List.mem_cons_self
    have later := ih fun item member => none_word item (List.mem_cons_of_mem _ member)
    cases rest with
    | nil => rfl
    | cons item rest =>
      obtain ⟨next, gap'⟩ := item
      have next_other : isWord next = false := none_word (next, gap') (by simp)
      have same : gapAfter actualGap token gap ((next, gap') :: rest) = gapAfter properGap token gap ((next, gap') :: rest) := by
        simp [gapAfter, actualGap, properGap, own, next_other]
      rw [render, later, same, ← render]

/-- Where nothing else is decoded, the loop gives the tokens with the whitespace it leaves. -/
theorem clean_result {raw : Text} (clean : Clean (split raw).2) : decodeRfc2047Words raw =
    .returns (finish ((split raw).1 ++ render actualGap (split raw).2) ((split raw).2.any fun item => isWord item.1)) := by
  obtain ⟨whole, blank, tokens⟩ := split_spec raw
  have front : loop ((split raw).1 ++ join (split raw).2) (utf8 []).length [] false =
      loop ((split raw).1 ++ join (split raw).2) (utf8 (split raw).1).length (split raw).1 false := by
    simpa using loop_front [] [] (silent_blank blank (join (split raw).2))
  have items := loop_items tokens clean [] [] (split raw).1 [] false blank fun _ => .inl ⟨rfl, rfl⟩
  simp only [List.nil_append, Bool.false_or] at items
  conv => lhs; rw [whole]
  rw [decodeRfc2047Words, show (0 : Nat) = (utf8 []).length from rfl, front, items]
  congr 2
  cases same : (split raw).2 with
  | nil => simp [gapAfter, render]
  | cons item rest =>
    obtain ⟨token, gap⟩ := item
    simp [gapAfter, actualGap]

/-- The decoding always ends with an answer, and the answer is the right one exactly if nothing but the
encoded words is decoded and the whitespace between visible pieces comes out right. -/
theorem words_iff (raw : Text) : (∃ answer, decodeRfc2047Words raw = .returns answer) ∧
    (decodeRfc2047Words raw = .returns (expected raw) ↔ Steady raw) := by
  obtain ⟨whole, blank, tokens⟩ := split_spec raw
  have level := level_iff blank blank (fun s member => (spaced_blank tokens s member).1) fun s member => (spaced_blank tokens s member).2
  rw [joinHere_spaced, joinThere_spaced] at level
  by_cases clean : Clean (split raw).2
  · refine ⟨⟨_, clean_result clean⟩, ?_⟩
    rw [clean_result clean, Steady, ← level]
    simp only [clean, true_and, Checked.returns.injEq]
    cases words : (split raw).2.any fun item => isWord item.1 with
    | true => simp [expected, words, finish, meaning, trim]
    | false =>
      rw [render_unchanged (by simpa using words)]
      simp [expected, words, finish]
  · obtain ⟨out, decodedAny, runs, outcome⟩ := loop_weight _ [] (split raw).1 [] (split raw).2 false rfl tokens fun _ => by
      rcases List.eq_nil_or_concat (split raw).1 with none | ⟨body, c, ends⟩
      · exact .inl none
      · rw [List.concat_eq_append] at ends
        exact .inr ⟨body, c, ends, blank c (by simp [ends])⟩
    rw [List.nil_append, ← whole] at runs
    obtain ⟨rfl, less⟩ := outcome.strays fun silent => clean silent.2
    refine ⟨⟨_, runs⟩, ?_⟩
    rw [decodeRfc2047Words, show (0 : Nat) = (utf8 []).length from rfl, runs]
    constructor
    · intro same
      unfold expected at same
      split at same
      · simp only [finish, if_true, Checked.returns.injEq, Option.some.injEq] at same
        have weights := congrArg weight same
        rw [weight_trim, weight_trim, meaning, weight_append, weight_blank blank, weight_render tokens] at weights
        rw [weight_blank blank, weight_nil] at less
        omega
      · simp [finish] at same
    · exact fun steady => (clean steady.1).elim

theorem two_spaces : decodeRfc2047Words "=?utf-8?Q?a?=  =?utf-8?Q?b?=".toList = .returns (some "a b".toList) ∧
    expected "=?utf-8?Q?a?=  =?utf-8?Q?b?=".toList = some "ab".toList := by
  decide +kernel

end Result

end NixHomeServer.MailArchive.HeaderWords
