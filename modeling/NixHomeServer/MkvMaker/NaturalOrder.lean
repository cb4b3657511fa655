import Mathlib.Data.List.TakeWhile
import Mathlib.Data.Prod.Lex
import NixHomeServer.Library.Numerals
import NixHomeServer.Library.PrefixOrder
import NixHomeServer.Library.Utf8

/-! The natural order of disc and queue names: what it compares, and when it is an order that
puts smaller numbers first. -/
namespace NixHomeServer.MkvMaker

open NixHomeServer.Library

abbrev Text := List Char
abbrev Bytes := List UInt8

section Comparison

def isAsciiDigit (b : UInt8) : Bool := 48 ≤ b.toNat && b.toNat ≤ 57

def toAsciiLowercase (b : UInt8) : UInt8 := if 65 ≤ b.toNat ∧ b.toNat ≤ 90 then b + 32 else b

/-- The value of a run of digits; one beyond 128 bits counts as none. -/
def runNumber (run : Bytes) : Nat := (parseUnsigned 10 (2 ^ 128) (run.map fun b => Char.ofNat b.toNat)).getD 0

/-- The loop on what is left of either text; the whole lengths decide at its end. -/
def loop (aLen bLen : Nat) : Bytes → Bytes → Ordering
  | x :: a, y :: b =>
    if isAsciiDigit x && isAsciiDigit y then
      match compare (runNumber (x :: a.takeWhile isAsciiDigit)) (runNumber (y :: b.takeWhile isAsciiDigit)) with
      | .eq => loop aLen bLen (a.dropWhile isAsciiDigit) (b.dropWhile isAsciiDigit)
      | o => o
    else match compare (toAsciiLowercase x).toNat (toAsciiLowercase y).toNat with
      | .eq => loop aLen bLen a b
      | o => o
  | _, _ => compare aLen bLen
termination_by a b => a.length + b.length
decreasing_by
  · have first := (List.dropWhile_sublist isAsciiDigit (l := a)).length_le
    have second := (List.dropWhile_sublist isAsciiDigit (l := b)).length_le
    simp only [List.length_cons]
    omega
  · simp only [List.length_cons]
    omega

def naturalCmp (a b : Text) : Ordering := loop (utf8 a).length (utf8 b).length (utf8 a) (utf8 b)

end Comparison

section Tokens

/-- What is compared at once: a number, between the bytes before the digits and those after them, or a
byte in lower case. -/
abbrev Token := Nat ×ₗ Nat

def numberToken (n : Nat) : Token := toLex (1, n)

def byteToken (b : UInt8) : Token := toLex (if (toAsciiLowercase b).toNat < 48 then 0 else 2, (toAsciiLowercase b).toNat)

def tokens : Bytes → List Token
  | [] => []
  | b :: rest =>
    if isAsciiDigit b then
      numberToken (runNumber (b :: rest.takeWhile isAsciiDigit)) :: tokens (rest.dropWhile isAsciiDigit)
    else byteToken b :: tokens rest
termination_by bytes => bytes.length
decreasing_by
  · have shorter := (List.dropWhile_sublist isAsciiDigit (l := rest)).length_le
    simp only [List.length_cons]
    omega
  · simp

variable {x y b : UInt8} {m n : Nat} {bytes : Bytes}

theorem compare_number (m n : Nat) : compare (numberToken m) (numberToken n) = compare m n := by
  rcases lt_trichotomy m n with less | rfl | greater
  · rw [compare_lt_iff_lt.mpr less, compare_lt_iff_lt.mpr]
    exact Prod.Lex.toLex_lt_toLex.mpr (.inr ⟨rfl, less⟩)
  · rw [compare_eq_iff_eq.mpr rfl, compare_eq_iff_eq.mpr rfl]
  · rw [compare_gt_iff_gt.mpr greater, compare_gt_iff_gt.mpr]
    exact Prod.Lex.toLex_lt_toLex.mpr (.inr ⟨rfl, greater⟩)

theorem lowercase_facts (b : UInt8) : ((isAsciiDigit b = true) → toAsciiLowercase b = b) ∧
    (isAsciiDigit b = false → (toAsciiLowercase b).toNat < 48 ∨ 57 < (toAsciiLowercase b).toNat) := by
  have table : ∀ k < 256, ((isAsciiDigit (UInt8.ofNat k) = true) → toAsciiLowercase (UInt8.ofNat k) = UInt8.ofNat k) ∧
      (isAsciiDigit (UInt8.ofNat k) = false →
        (toAsciiLowercase (UInt8.ofNat k)).toNat < 48 ∨ 57 < (toAsciiLowercase (UInt8.ofNat k)).toNat) := by
    decide +kernel
  simpa only [UInt8.ofNat_toNat] using table b.toNat b.toNat_lt

theorem digit_range (digit : isAsciiDigit b = true) : 48 ≤ b.toNat ∧ b.toNat ≤ 57 := by
  simpa [isAsciiDigit] using digit

theorem compare_byte (first : isAsciiDigit x = false) (second : isAsciiDigit y = false) :
    compare (byteToken x) (byteToken y) = compare (toAsciiLowercase x).toNat (toAsciiLowercase y).toNat := by
  have range := (lowercase_facts x).2 first
  have range' := (lowercase_facts y).2 second
  rcases lt_trichotomy (toAsciiLowercase x).toNat (toAsciiLowercase y).toNat with less | same | greater
  · rw [compare_lt_iff_lt.mpr less, compare_lt_iff_lt, byteToken, byteToken, Prod.Lex.toLex_lt_toLex]
    split <;> split <;> omega
  · rw [byteToken, byteToken, same, compare_eq_iff_eq.mpr rfl, compare_eq_iff_eq.mpr rfl]
  · rw [compare_gt_iff_gt.mpr greater, compare_gt_iff_gt, byteToken, byteToken, Prod.Lex.toLex_lt_toLex]
    split <;> split <;> omega

/-- A number stands among the other bytes where its digits do. -/
theorem compare_number_byte (n : Nat) (first : isAsciiDigit x = true) (second : isAsciiDigit y = false) :
    compare (numberToken n) (byteToken y) = compare (toAsciiLowercase x).toNat (toAsciiLowercase y).toNat ∧
      (toAsciiLowercase x).toNat ≠ (toAsciiLowercase y).toNat := by
  have range := digit_range first
  rw [(lowercase_facts x).1 first]
  rcases (lowercase_facts y).2 second with low | high
  · refine ⟨?_, by omega⟩
    rw [compare_gt_iff_gt.mpr (show (toAsciiLowercase y).toNat < x.toNat by omega), compare_gt_iff_gt, byteToken, if_pos low,
      numberToken, Prod.Lex.toLex_lt_toLex]
    exact .inl Nat.zero_lt_one
  · refine ⟨?_, by omega⟩
    rw [compare_lt_iff_lt.mpr (show x.toNat < (toAsciiLowercase y).toNat by omega), compare_lt_iff_lt, byteToken,
      if_neg (by omega), numberToken, Prod.Lex.toLex_lt_toLex]
    exact .inl Nat.one_lt_two

def headToken (b : UInt8) (n : Nat) : Token := if isAsciiDigit b then numberToken n else byteToken b

@[simp] theorem tokens_nil : tokens [] = [] := by
  rw [tokens]

theorem tokens_digit (digit : isAsciiDigit b = true) (rest : Bytes) : tokens (b :: rest) =
    numberToken (runNumber (b :: rest.takeWhile isAsciiDigit)) :: tokens (rest.dropWhile isAsciiDigit) := by
  rw [tokens, if_pos digit]

theorem tokens_byte (other : isAsciiDigit b = false) (rest : Bytes) : tokens (b :: rest) = byteToken b :: tokens rest := by
  rw [tokens, if_neg (by simp [other])]

theorem tokens_cons (b : UInt8) (rest : Bytes) : ∃ n later, tokens (b :: rest) = headToken b n :: later := by
  cases digit : isAsciiDigit b with
  | true => exact ⟨_, _, (tokens_digit digit rest).trans (by rw [headToken, if_pos digit])⟩
  | false => exact ⟨0, _, (tokens_byte digit rest).trans (by rw [headToken, if_neg (by simp [digit])])⟩

/-- Unless both are digits, the bytes decide as their tokens do. -/
theorem compare_heads (m n : Nat) (apart : ¬ (isAsciiDigit x && isAsciiDigit y) = true) :
    compare (headToken x m) (headToken y n) = compare (toAsciiLowercase x).toNat (toAsciiLowercase y).toNat ∧
      ((toAsciiLowercase x).toNat = (toAsciiLowercase y).toNat → isAsciiDigit x = false ∧ isAsciiDigit y = false) := by
  unfold headToken
  cases first : isAsciiDigit x with
  | true =>
    have second : isAsciiDigit y = false := by simpa [first] using apart
    obtain ⟨same, ne⟩ := compare_number_byte m first second
    simpa [second] using ⟨same, ne⟩
  | false =>
    cases second : isAsciiDigit y with
    | true =>
      obtain ⟨same, ne⟩ := compare_number_byte n second first
      have turned : compare (byteToken x) (numberToken n) =
          compare (toAsciiLowercase x).toNat (toAsciiLowercase y).toNat := by
        have flip : compare (byteToken x) (numberToken n) = (compare (numberToken n) (byteToken x)).swap :=
          Std.OrientedCmp.eq_swap
        rw [flip, same]
        exact Std.OrientedCmp.eq_swap.symm
      simpa [turned] using ne.symm
    | false => simpa using compare_byte first second

theorem then_decided {o : Ordering} (decided : o = .eq → False) (p : Ordering) : o.then p = o := by
  cases o with
  | eq => exact (decided rfl).elim
  | lt => rfl
  | gt => rfl

/-- The loop compares the tokens, and the lengths where they leave it open. -/
theorem loop_eq (aLen bLen : Nat) (a b : Bytes) :
    loop aLen bLen a b = (firstDifference (tokens a) (tokens b)).then (compare aLen bLen) := by
  fun_induction loop aLen bLen a b with
  | case1 x a y b both same ih =>
    obtain ⟨first, second⟩ := Bool.and_eq_true_iff.mp both
    rw [tokens_digit first, tokens_digit second, firstDifference, compare_number, same, ih]
    rfl
  | case2 x a y b both decided =>
    obtain ⟨first, second⟩ := Bool.and_eq_true_iff.mp both
    rw [tokens_digit first, tokens_digit second, firstDifference, compare_number, then_decided decided, then_decided decided]
  | case3 x a y b apart same ih =>
    obtain ⟨first, second⟩ := (compare_heads 0 0 apart).2 (compare_eq_iff_eq.mp same)
    rw [tokens_byte first, tokens_byte second, firstDifference, compare_byte first second, same, ih]
    rfl
  | case4 x a y b apart decided =>
    obtain ⟨m, later, front⟩ := tokens_cons x a
    obtain ⟨n, later', front'⟩ := tokens_cons y b
    rw [front, front', firstDifference, (compare_heads m n apart).1, then_decided decided, then_decided decided]
  | case5 a b ends =>
    cases a with
    | nil => simp [Ordering.then]
    | cons x a =>
      cases b with
      | nil => simp [Ordering.then]
      | cons y b => exact absurd rfl (ends x a y b rfl)

theorem naturalCmp_eq (a b : Text) : naturalCmp a b = ranked (tokens ∘ utf8) (fun text => (utf8 text).length) a b :=
  loop_eq _ _ _ _

end Tokens

section Runs

variable {a c : Bytes} {u v r : Text} {m n : Nat}

/-- No run of digits goes on from one to the other. -/
def Divided (a c : Bytes) : Prop := ∀ x ∈ a.getLast?, ∀ y ∈ c.head?, ¬ (isAsciiDigit x = true ∧ isAsciiDigit y = true)

theorem dropWhile_divided (digits : ∀ x ∈ a, isAsciiDigit x = true) (filled : a ≠ []) (divided : Divided a c) :
    c.takeWhile isAsciiDigit = [] ∧ c.dropWhile isAsciiDigit = c := by
  cases c with
  | nil => exact ⟨rfl, rfl⟩
  | cons y c =>
    have last := digits _ (List.getLast_mem filled)
    have other : isAsciiDigit y ≠ true := fun digit => divided _ (List.getLast?_eq_getLast_of_ne_nil filled) y rfl ⟨last, digit⟩
    exact ⟨List.takeWhile_cons_of_neg other, List.dropWhile_cons_of_neg other⟩

theorem Divided.of_suffix {tail : Bytes} (divided : Divided a c) (ends : tail <:+ a) (filled : tail ≠ []) : Divided tail c := by
  obtain ⟨front, rfl⟩ := ends
  rwa [Divided, List.getLast?_append_of_ne_nil front filled] at divided

theorem tokens_append (divided : Divided a c) : tokens (a ++ c) = tokens a ++ tokens c := by
  fun_induction tokens a with
  | case1 => rfl
  | case2 b rest digit ih =>
    rw [List.cons_append, tokens_digit digit]
    by_cases all : rest.dropWhile isAsciiDigit = []
    · have digits : ∀ x ∈ rest, isAsciiDigit x = true := List.dropWhile_eq_nil_iff.mp all
      obtain ⟨none, same⟩ := dropWhile_divided (by simpa using ⟨digit, digits⟩) (List.cons_ne_nil b rest) divided
      rw [List.takeWhile_append_of_pos digits, List.dropWhile_append_of_pos digits, none, same, List.append_nil, all,
        List.takeWhile_eq_self_iff.mpr digits, tokens_nil]
      rfl
    · have stays : (rest.takeWhile isAsciiDigit).length ≠ rest.length := by
        intro whole
        have split := congrArg List.length (List.takeWhile_append_dropWhile (p := isAsciiDigit) (l := rest))
        rw [List.length_append] at split
        exact all (List.eq_nil_of_length_eq_zero (by omega))
      have left : Divided (rest.dropWhile isAsciiDigit) c :=
        divided.of_suffix ((List.dropWhile_suffix isAsciiDigit).trans (List.suffix_cons b rest)) all
      rw [List.takeWhile_append, if_neg stays, List.dropWhile_append, if_neg (by simpa using all), ih left]
      rfl
  | case3 b rest other ih =>
    rw [List.cons_append, tokens_byte (by simpa using other)]
    by_cases empty : rest = []
    · simp [empty]
    · rw [ih (divided.of_suffix (List.suffix_cons b rest) empty)]
      rfl

theorem tokens_digits (digits : ∀ x ∈ a, isAsciiDigit x = true) (filled : a ≠ []) : tokens a = [numberToken (runNumber a)] := by
  cases a with
  | nil => exact absurd rfl filled
  | cons b rest =>
    have later : ∀ x ∈ rest, isAsciiDigit x = true := fun x member => digits x (List.mem_cons_of_mem b member)
    rw [tokens_digit (digits b List.mem_cons_self), List.takeWhile_eq_self_iff.mpr later, List.dropWhile_eq_nil_iff.mpr later,
      tokens_nil]

theorem digit_of_encode {c : Char} {x : UInt8} (member : x ∈ String.utf8EncodeChar c) (digit : isAsciiDigit x = true) :
    c.isDigit = true := by
  obtain ⟨low, high⟩ := digit_range digit
  obtain ⟨-, same⟩ := encode_of_low member (by omega)
  exact isDigit_iff.mpr (by rw [Char.toNat, same]; exact ⟨low, high⟩)

/-- A run of digits between the two is all of it. -/
def Around (u v : Text) : Prop := (∀ c ∈ u.getLast?, c.isDigit = false) ∧ ∀ c ∈ v.head?, c.isDigit = false

theorem last_of_utf8 (other : ∀ c ∈ u.getLast?, c.isDigit = false) {x : UInt8} (last : x ∈ (utf8 u).getLast?) :
    isAsciiDigit x = false := by
  rcases List.eq_nil_or_concat u with rfl | ⟨front, c, rfl⟩
  · cases last
  · have inside : x ∈ String.utf8EncodeChar c := by
      rw [List.concat_eq_append, utf8_append, utf8_cons, utf8_nil, List.append_nil,
        List.getLast?_append_of_ne_nil _ String.utf8EncodeChar_ne_nil] at last
      exact List.mem_of_getLast? last
    have plain := other c (by simp)
    cases digit : isAsciiDigit x with
    | false => rfl
    | true => exact absurd (digit_of_encode inside digit) (by simp [plain])

theorem head_of_utf8 (other : ∀ c ∈ v.head?, c.isDigit = false) {x : UInt8} (first : x ∈ (utf8 v).head?) :
    isAsciiDigit x = false := by
  cases v with
  | nil => cases first
  | cons c rest =>
    have inside : x ∈ String.utf8EncodeChar c := by
      rw [utf8_cons, List.head?_append_of_ne_nil _ String.utf8EncodeChar_ne_nil] at first
      exact List.mem_of_head? first
    have plain := other c rfl
    cases digit : isAsciiDigit x with
    | false => rfl
    | true => exact absurd (digit_of_encode inside digit) (by simp [plain])

theorem utf8_of_digits (digits : ∀ c ∈ r, c.isDigit = true) : utf8 r = r.map fun c => UInt8.ofNat c.toNat := by
  induction r with
  | nil => rfl
  | cons c rest ih =>
    obtain ⟨low, high⟩ := isDigit_iff.mp (digits c List.mem_cons_self)
    rw [utf8_cons, encode_of_ascii (by omega), ih fun x member => digits x (List.mem_cons_of_mem c member)]
    rfl

theorem runNumber_utf8 (digits : ∀ c ∈ r, c.isDigit = true) (read : numeral 10 r = some n) :
    runNumber (utf8 r) = if n < 2 ^ 128 then n else 0 := by
  have back : (utf8 r).map (fun b => Char.ofNat b.toNat) = r := by
    rw [utf8_of_digits digits, List.map_map]
    refine (List.map_congr_left fun c member => ?_).trans (List.map_id r)
    have small := (isDigit_iff.mp (digits c member)).2
    rw [Function.comp_apply, UInt8.toNat_ofNat', Nat.mod_eq_of_lt (by omega)]
    exact Char.ofNat_toNat c
  rw [runNumber, back, parseUnsigned_of_digits digits, read, Option.filter_some]
  split <;> simp_all

theorem digits_of_read (read : numeral 10 r = some n) : r ≠ [] ∧ ∀ c ∈ r, c.isDigit = true := by
  obtain ⟨filled, digits⟩ := digits_of_numeral read
  refine ⟨filled, fun c member => ?_⟩
  obtain ⟨d, digit⟩ := digits c member
  obtain ⟨low, high, -⟩ := digitOf_decimal.mp digit
  exact isDigit_iff.mpr ⟨low, high⟩

/-- A whole run of digits is one token of the name. -/
theorem tokens_run (around : Around u v) (read : numeral 10 r = some n) : tokens (utf8 (u ++ (r ++ v))) =
    tokens (utf8 u) ++ numberToken (if n < 2 ^ 128 then n else 0) :: tokens (utf8 v) := by
  obtain ⟨filled, digits⟩ := digits_of_read read
  have bytes : ∀ x ∈ utf8 r, isAsciiDigit x = true := by
    rw [utf8_of_digits digits]
    intro x member
    obtain ⟨c, inside, rfl⟩ := List.mem_map.mp member
    obtain ⟨low, high⟩ := isDigit_iff.mp (digits c inside)
    simp [isAsciiDigit, UInt8.toNat_ofNat', Nat.mod_eq_of_lt (show c.toNat < 256 by omega), low, high]
  have nonempty : utf8 r ≠ [] := by
    rw [utf8_of_digits digits]
    simpa using filled
  have after : Divided (utf8 r) (utf8 v) := fun x _ y first both =>
    absurd both.2 (by simp [head_of_utf8 around.2 first])
  have before : Divided (utf8 u) (utf8 r ++ utf8 v) := fun x last y _ both =>
    absurd both.1 (by simp [last_of_utf8 around.1 last])
  rw [utf8_append, utf8_append, tokens_append before, tokens_append after, tokens_digits bytes nonempty,
    runNumber_utf8 digits read]
  rfl

end Runs

section Order

/-- An order of names that puts the smaller number first where nothing else differs. -/
structure NaturalOn (S : Set Text) : Prop where
  refl {a : Text} (own : a ∈ S) : naturalCmp a a = .eq
  swap {a b : Text} (first : a ∈ S) (second : b ∈ S) : naturalCmp b a = (naturalCmp a b).swap
  trans {a b c : Text} (first : a ∈ S) (second : b ∈ S) (third : c ∈ S) (le : naturalCmp a b ≠ .gt)
    (le' : naturalCmp b c ≠ .gt) : naturalCmp a c ≠ .gt
  runs {u r s v : Text} {m n : Nat} (first : u ++ (r ++ v) ∈ S) (second : u ++ (s ++ v) ∈ S) (around : Around u v)
    (smaller : numeral 10 r = some m) (larger : numeral 10 s = some n) (less : m < n) :
    naturalCmp (u ++ (r ++ v)) (u ++ (s ++ v)) = .lt

/-- No name continues into two that differ later on while its length is between theirs the other way
round, and where two differ in one number only, the larger is below 128 bits or both count as none
and the run of the larger is the longer one. -/
structure Consistent (S : Set Text) : Prop where
  forkless {p x y : Text} (own : p ∈ S) (first : x ∈ S) (second : y ∈ S) :
    ¬ Fork (tokens ∘ utf8) (fun text => (utf8 text).length) p x y
  numbers {u r s v : Text} {m n : Nat} (first : u ++ (r ++ v) ∈ S) (second : u ++ (s ++ v) ∈ S) (around : Around u v)
    (smaller : numeral 10 r = some m) (larger : numeral 10 s = some n) (less : m < n) :
    n < 2 ^ 128 ∨ (m = 0 ∨ 2 ^ 128 ≤ m) ∧ r.length < s.length

variable {S : Set Text} {u v r s : Text} {m n : Nat}

theorem run_lt_iff (around : Around u v) (smaller : numeral 10 r = some m) (larger : numeral 10 s = some n) (less : m < n) :
    naturalCmp (u ++ (r ++ v)) (u ++ (s ++ v)) = .lt ↔ n < 2 ^ 128 ∨ (m = 0 ∨ 2 ^ 128 ≤ m) ∧ r.length < s.length := by
  have lengths : (utf8 (u ++ (r ++ v))).length < (utf8 (u ++ (s ++ v))).length ↔ r.length < s.length := by
    simp only [utf8_append, List.length_append, utf8_of_digits (digits_of_read smaller).2,
      utf8_of_digits (digits_of_read larger).2, List.length_map]
    omega
  rw [naturalCmp_eq, ranked, Function.comp_apply, Function.comp_apply, tokens_run around smaller, tokens_run around larger,
    firstDifference_append, firstDifference, compare_number]
  by_cases small : n < 2 ^ 128
  · rw [if_pos (less.trans small), if_pos small, compare_lt_iff_lt.mpr less]
    exact iff_of_true rfl (.inl small)
  · rw [if_neg small]
    by_cases absent : m = 0 ∨ 2 ^ 128 ≤ m
    · have zero : (if m < 2 ^ 128 then m else 0) = 0 := by
        split <;> omega
      rw [zero, compare_eq_iff_eq.mpr rfl, firstDifference_initial List.prefix_rfl]
      simp only [Ordering.then, compare_lt_iff_lt, lengths, small, absent, false_or, true_and]
    · have kept : (if m < 2 ^ 128 then m else 0) = m := if_pos (by omega)
      rw [kept, compare_gt_iff_gt.mpr (show 0 < m by omega)]
      simp only [Ordering.then, small, absent, false_or, false_and, reduceCtorEq]

/-- On a set of names the comparison is a natural order exactly where they are consistent. -/
theorem naturalOn_iff (S : Set Text) : NaturalOn S ↔ Consistent S := by
  have compared : naturalCmp = ranked (tokens ∘ utf8) fun text => (utf8 text).length :=
    funext fun a => funext fun b => naturalCmp_eq a b
  have forks : (∀ a ∈ S, ∀ b ∈ S, ∀ c ∈ S, naturalCmp a b ≠ .gt → naturalCmp b c ≠ .gt → naturalCmp a c ≠ .gt) ↔
      ∀ p ∈ S, ∀ x ∈ S, ∀ y ∈ S, ¬ Fork (tokens ∘ utf8) (fun text => (utf8 text).length) p x y := by
    rw [compared]
    exact ranked_trans_iff
  constructor
  · intro natural
    constructor
    · intro p x y own first second
      exact forks.mp (fun a first b second c third => natural.trans first second third) p own x first y second
    · intro u r s v m n first second around smaller larger less
      exact (run_lt_iff around smaller larger less).mp (natural.runs first second around smaller larger less)
  · intro consistent
    constructor
    · intro a own
      rw [compared]
      exact ranked_self _ _ a
    · intro a b first second
      rw [compared]
      exact ranked_swap _ _ a b
    · intro a b c first second third
      exact forks.mpr (fun p own x first y second => consistent.forkless own first second) a first b second c third
    · intro u r s v m n first second around smaller larger less
      exact (run_lt_iff around smaller larger less).mpr (consistent.numbers first second around smaller larger less)

/-- Leading zeros make three names follow each other in a circle. -/
theorem not_naturalOn_univ : ¬ NaturalOn Set.univ := by
  intro natural
  have circle := natural.trans (a := "0001".toList) (b := "1aaaa".toList) (c := "1b".toList) trivial trivial trivial
    (by decide +kernel) (by decide +kernel)
  exact circle (by decide +kernel)

end Order

end NixHomeServer.MkvMaker
