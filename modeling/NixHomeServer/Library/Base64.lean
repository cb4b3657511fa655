import Mathlib.Data.List.Basic

/-! Base64 with padding, read in its canonical form only. -/
namespace NixHomeServer.Library

def sextetChar (n : Nat) : Char :=
  if n < 26 then Char.ofNat (65 + n)
  else if n < 52 then Char.ofNat (71 + n)
  else if n < 62 then Char.ofNat (n - 4)
  else if n = 62 then '+'
  else '/'

def sextet (c : Char) : Nat :=
  let n := c.toNat
  if 65 ≤ n ∧ n < 91 then n - 65
  else if 97 ≤ n ∧ n < 123 then n - 71
  else if 48 ≤ n ∧ n < 58 then n + 4
  else if c = '+' then 62
  else 63

def isBase64 (c : Char) : Bool := c.isAlphanum || c == '+' || c == '/' || c == '='

def base64 : List UInt8 → List Char
  | [] => []
  | [a] => [sextetChar (a.toNat / 4), sextetChar (a.toNat % 4 * 16), '=', '=']
  | [a, b] => [sextetChar (a.toNat / 4), sextetChar (a.toNat % 4 * 16 + b.toNat / 16), sextetChar (b.toNat % 16 * 4), '=']
  | a :: b :: c :: rest =>
    sextetChar (a.toNat / 4) :: sextetChar (a.toNat % 4 * 16 + b.toNat / 16) ::
      sextetChar (b.toNat % 16 * 4 + c.toNat / 64) :: sextetChar (c.toNat % 64) :: base64 rest

/-- The bytes that a text would stand for. -/
def quads : List Char → List UInt8
  | w :: x :: y :: z :: rest =>
    let a := UInt8.ofNat (sextet w * 4 + sextet x / 16)
    let b := UInt8.ofNat (sextet x % 16 * 16 + sextet y / 4)
    let c := UInt8.ofNat (sextet y % 4 * 64 + sextet z)
    if y = '=' then [a]
    else if z = '=' then [a, b]
    else a :: b :: c :: quads rest
  | _ => []

def fromBase64 (text : List Char) : Option (List UInt8) :=
  if base64 (quads text) = text then some (quads text) else none

theorem sextetChar_facts : ∀ n < 64, sextet (sextetChar n) = n ∧ sextetChar n ≠ '=' ∧ isBase64 (sextetChar n) = true := by
  decide

theorem sextet_sextetChar {n : Nat} (small : n < 64) : sextet (sextetChar n) = n := (sextetChar_facts n small).1

theorem sextetChar_ne {n : Nat} (small : n < 64) : sextetChar n ≠ '=' := (sextetChar_facts n small).2.1

theorem isBase64_sextetChar {n : Nat} (small : n < 64) : isBase64 (sextetChar n) = true := (sextetChar_facts n small).2.2

theorem byte_of {n : Nat} {a : UInt8} (same : n = a.toNat) : UInt8.ofNat n = a := by
  rw [same, UInt8.ofNat_toNat]

theorem quads_base64 (bytes : List UInt8) : quads (base64 bytes) = bytes := by
  induction bytes using base64.induct with
  | case1 => rfl
  | case2 a =>
    have large := a.toNat_lt
    simp only [base64, quads, if_true, sextet_sextetChar (n := a.toNat / 4) (by omega), sextet_sextetChar (n := a.toNat % 4 * 16) (by omega)]
    rw [byte_of (a := a) (by omega)]
  | case3 a b =>
    have large := a.toNat_lt
    have large' := b.toNat_lt
    simp only [base64, quads, if_true, sextetChar_ne (n := b.toNat % 16 * 4) (by omega), if_false,
      sextet_sextetChar (n := a.toNat / 4) (by omega), sextet_sextetChar (n := a.toNat % 4 * 16 + b.toNat / 16) (by omega),
      sextet_sextetChar (n := b.toNat % 16 * 4) (by omega)]
    rw [byte_of (a := a) (by omega), byte_of (a := b) (by omega)]
  | case4 a b c rest ih =>
    have large := a.toNat_lt
    have large' := b.toNat_lt
    have large'' := c.toNat_lt
    simp only [base64, quads, sextetChar_ne (n := b.toNat % 16 * 4 + c.toNat / 64) (by omega), sextetChar_ne (n := c.toNat % 64) (by omega),
      if_false, sextet_sextetChar (n := a.toNat / 4) (by omega), sextet_sextetChar (n := a.toNat % 4 * 16 + b.toNat / 16) (by omega),
      sextet_sextetChar (n := b.toNat % 16 * 4 + c.toNat / 64) (by omega), sextet_sextetChar (n := c.toNat % 64) (by omega), ih]
    rw [byte_of (a := a) (by omega), byte_of (a := b) (by omega), byte_of (a := c) (by omega)]

/-- A text is read if it is the one that the bytes are written as. -/
theorem fromBase64_eq_some {text : List Char} {bytes : List UInt8} : fromBase64 text = some bytes ↔ base64 bytes = text := by
  unfold fromBase64
  constructor
  · intro read
    split at read
    · rename_i canonical
      cases read
      exact canonical
    · cases read
  · rintro rfl
    rw [quads_base64, if_pos rfl]

theorem length_le_base64 (bytes : List UInt8) : bytes.length ≤ (base64 bytes).length := by
  induction bytes using base64.induct with
  | case1 => exact Nat.le_refl 0
  | case2 a => simp [base64]
  | case3 a b => simp [base64]
  | case4 a b c rest ih =>
    simp only [base64, List.length_cons]
    omega

theorem isBase64_of_mem {bytes : List UInt8} {x : Char} (member : x ∈ base64 bytes) : isBase64 x = true := by
  induction bytes using base64.induct with
  | case1 => exact absurd member List.not_mem_nil
  | case2 a =>
    have large := a.toNat_lt
    simp only [base64, List.mem_cons, List.not_mem_nil, or_false] at member
    rcases member with rfl | rfl | rfl | rfl
    · exact isBase64_sextetChar (by omega)
    · exact isBase64_sextetChar (by omega)
    all_goals rfl
  | case3 a b =>
    have large := a.toNat_lt
    have large' := b.toNat_lt
    simp only [base64, List.mem_cons, List.not_mem_nil, or_false] at member
    rcases member with rfl | rfl | rfl | rfl
    · exact isBase64_sextetChar (by omega)
    · exact isBase64_sextetChar (by omega)
    · exact isBase64_sextetChar (by omega)
    · rfl
  | case4 a b c rest ih =>
    have large := a.toNat_lt
    have large' := b.toNat_lt
    have large'' := c.toNat_lt
    simp only [base64, List.mem_cons] at member
    rcases member with rfl | rfl | rfl | rfl | later
    · exact isBase64_sextetChar (by omega)
    · exact isBase64_sextetChar (by omega)
    · exact isBase64_sextetChar (by omega)
    · exact isBase64_sextetChar (by omega)
    · exact ih later

end NixHomeServer.Library
