import NixHomeServer.Library.Text

/-! The cookie that a sign-in at the identity server carries from step to step. -/
namespace NixHomeServer.Homepage

open NixHomeServer.Library

/-- What `String.prototype.trim` takes off. -/
def isWhitespace (c : Char) : Bool :=
  (9 ≤ c.val && c.val ≤ 13) || c.val = 32 || c.val = 0xA0 || c.val = 0x1680 ||
    (0x2000 ≤ c.val && c.val ≤ 0x200A) || c.val = 0x2028 || c.val = 0x2029 || c.val = 0x202F ||
    c.val = 0x205F || c.val = 0x3000 || c.val = 0xFEFF

def trim (text : List Char) : List Char := trimBy isWhitespace text

def kanidmCookieName : List Char := "auth-session-id".toList

/-- A `Map` of cookies in the order of their first insertion. -/
abbrev Jar := List (List Char × List Char)

def Jar.set (jar : Jar) (name value : List Char) : Jar :=
  if jar.any fun cookie => cookie.1 = name then
    jar.map fun cookie => if cookie.1 = name then (name, value) else cookie
  else jar ++ [(name, value)]

def absorbPart (jar : Jar) (part : List Char) : Jar :=
  match cutAt '=' part with
  | some (left, right) =>
    if left = [] ∨ trim left = [] then jar else jar.set (trim left) (trim right)
  | none => jar

def absorb (jar : Jar) (entry : List Char) : Jar := (splitAll ';' entry).foldl absorbPart jar

def render (jar : Jar) : List Char :=
  [';', ' '].intercalate (jar.map fun cookie => cookie.1 ++ '=' :: cookie.2)

def mergeCookies (current : List Char) (additions : List (List Char)) : List Char :=
  render ((current :: additions).foldl absorb [])

/-- One `set-cookie` header as far as it is kept. -/
def collectKanidmCookie (entry : List Char) : Option (List Char) :=
  match cutAt '=' entry with
  | some (left, right) =>
    if left ≠ [] ∧ trim left = kanidmCookieName then
      some (trim (left ++ '=' :: right.takeWhile fun c => c ≠ ';'))
    else none
  | none => none

def collectKanidmCookies (setCookies : List (List Char)) : List (List Char) :=
  setCookies.filterMap collectKanidmCookie

section Kanidm

/-- The value that a header gives to the session cookie. -/
def cookieValue (entry : List Char) : Option (List Char) :=
  match cutAt '=' entry with
  | some (left, right) =>
    if trim left = kanidmCookieName then some (trim (right.takeWhile fun c => c ≠ ';')) else none
  | none => none

/-- The last value that the headers give to the session cookie. -/
def lastCookie (setCookies : List (List Char)) : Option (List Char) := (setCookies.filterMap cookieValue).getLast?

/-- The header that carries a session cookie, empty where there is none. -/
def cookieHeader : Option (List Char) → List Char
  | some value => kanidmCookieName ++ '=' :: value
  | none => []

def Plain (value : List Char) : Prop := trim value = value ∧ ';' ∉ value

def jarOf (value : Option (List Char)) : Jar := (value.map fun v => (kanidmCookieName, v)).toList

theorem set_jarOf (old : Option (List Char)) (value : List Char) :
    (jarOf old).set kanidmCookieName value = jarOf (some value) := by
  cases old with
  | none => rfl
  | some _ => simp [jarOf, Jar.set]

/-- A part that names the session cookie sets it. -/
theorem absorbPart_kanidm (old : Option (List Char)) {left : List Char} (right : List Char) (absent : '=' ∉ left)
    (named : trim left = kanidmCookieName) :
    absorbPart (jarOf old) (left ++ '=' :: right) = jarOf (some (trim right)) := by
  have filled : ¬(left = [] ∨ trim left = []) := by
    rintro (rfl | empty)
    · cases named
    · rw [named] at empty
      cases empty
  rw [absorbPart, cutAt_append '=' right absent]
  dsimp only
  rw [if_neg filled, named, set_jarOf]

theorem absorb_header (old : Option (List Char)) {value : List Char} (plain : Plain value) :
    absorb (jarOf old) (cookieHeader (some value)) = jarOf (some value) := by
  have whole : ';' ∉ kanidmCookieName ++ '=' :: value := by
    rw [List.mem_append, List.mem_cons]
    rintro (named | same | inside)
    · exact absurd named (by decide)
    · cases same
    · exact plain.2 inside
  rw [absorb, cookieHeader, splitAll_of_not_mem whole, List.foldl_cons, List.foldl_nil,
    absorbPart_kanidm old value (by decide) (by decide), plain.1]

/-- A kept header is one part, which sets the session cookie to its value. -/
theorem absorb_collected (old : Option (List Char)) {entry cookie : List Char}
    (kept : collectKanidmCookie entry = some cookie) :
    ∃ value, cookieValue entry = some value ∧ Plain value ∧ absorb (jarOf old) cookie = jarOf (some value) := by
  unfold collectKanidmCookie at kept
  cases cut : cutAt '=' entry with
  | none =>
    rw [cut] at kept
    cases kept
  | some parts =>
    obtain ⟨left, right⟩ := parts
    rw [cut] at kept
    dsimp only at kept
    split at kept
    case isFalse => cases kept
    case isTrue named =>
      obtain ⟨_, absent⟩ := cutAt_eq_some cut
      generalize value_is : right.takeWhile (fun c => decide (c ≠ ';')) = value at kept
      have solid : isWhitespace '=' = false := by decide
      have bounded : ';' ∉ value := fun member => by
        rw [← value_is] at member
        have other := List.mem_takeWhile_imp member
        exact absurd rfl (of_decide_eq_true other)
      have clean : ';' ∉ left := fun member => by
        have kept := mem_trimBy member (show isWhitespace ';' = false by decide)
        rw [← trim, named.2] at kept
        exact absurd kept (by decide)
      rw [trim, trimBy_append_solid left value solid] at kept
      obtain rfl := Option.some.inj kept
      refine ⟨trim value, ?_, ⟨trimBy_trimBy _, fun member => bounded (mem_of_mem_trimBy member)⟩, ?_⟩
      · rw [cookieValue, cut]
        dsimp only
        rw [if_pos named.2, value_is]
      · have whole : ';' ∉ left.dropWhile isWhitespace ++ '=' :: value.rdropWhile isWhitespace := by
          rw [List.mem_append, List.mem_cons]
          rintro (before | same | after)
          · exact clean (List.dropWhile_subset _ before)
          · cases same
          · exact bounded ((List.rdropWhile_prefix _ _).subset after)
        have kept_name : trim (left.dropWhile isWhitespace) = kanidmCookieName :=
          (trimBy_dropWhile left).trans named.2
        rw [absorb, splitAll_of_not_mem whole, List.foldl_cons, List.foldl_nil,
          absorbPart_kanidm old _ (fun member => absent (List.dropWhile_subset _ member)) kept_name]
        exact congrArg (fun v => jarOf (some v)) (trimBy_rdropWhile value)

theorem cookieValue_of_dropped {entry : List Char} (dropped : collectKanidmCookie entry = none) :
    cookieValue entry = none := by
  unfold collectKanidmCookie at dropped
  unfold cookieValue
  cases cut : cutAt '=' entry with
  | none => rfl
  | some parts =>
    obtain ⟨left, right⟩ := parts
    rw [cut] at dropped
    dsimp only at dropped ⊢
    split at dropped
    case isTrue => cases dropped
    case isFalse other =>
      rw [if_neg]
      intro named
      refine other ⟨?_, named⟩
      rintro rfl
      cases named

theorem absorb_all (old : Option (List Char)) (setCookies : List (List Char)) :
    (collectKanidmCookies setCookies).foldl absorb (jarOf old) = jarOf ((lastCookie setCookies).or old) := by
  induction setCookies generalizing old with
  | nil => rfl
  | cons entry rest ih =>
    unfold collectKanidmCookies lastCookie at ih ⊢
    cases kept : collectKanidmCookie entry with
    | none =>
      rw [List.filterMap_cons_none kept, List.filterMap_cons_none (cookieValue_of_dropped kept)]
      exact ih old
    | some cookie =>
      obtain ⟨value, valued, _, absorbed⟩ := absorb_collected old kept
      rw [List.filterMap_cons_some kept, List.filterMap_cons_some valued, List.foldl_cons, absorbed, ih]
      cases rest.filterMap cookieValue with
      | nil => rfl
      | cons x xs => rw [List.getLast?_cons_cons, List.getLast?_cons]; rfl

theorem plain_cookieValue {entry value : List Char} (valued : cookieValue entry = some value) : Plain value := by
  cases kept : collectKanidmCookie entry with
  | none =>
    rw [cookieValue_of_dropped kept] at valued
    cases valued
  | some cookie =>
    obtain ⟨found, same, plain, _⟩ := absorb_collected none kept
    rw [valued] at same
    exact Option.some.inj same ▸ plain

theorem plain_lastCookie {setCookies : List (List Char)} {value : List Char}
    (last : lastCookie setCookies = some value) : Plain value := by
  obtain ⟨entry, _, valued⟩ := List.mem_filterMap.mp (List.mem_of_getLast? last)
  exact plain_cookieValue valued

theorem render_jarOf (value : Option (List Char)) : render (jarOf value) = cookieHeader value := by
  cases value with
  | none => rfl
  | some v => simp [jarOf, render, cookieHeader]

/-- Merging the cookies of an answer keeps the last value of the session cookie. -/
theorem mergeCookies_kanidm {current : Option (List Char)} (plain : ∀ value, current = some value → Plain value)
    (setCookies : List (List Char)) :
    mergeCookies (cookieHeader current) (collectKanidmCookies setCookies) =
      cookieHeader ((lastCookie setCookies).or current) := by
  have begun : absorb [] (cookieHeader current) = jarOf current := by
    cases current with
    | none => rfl
    | some value => exact absorb_header none (plain value rfl)
  rw [mergeCookies, List.foldl_cons, begun, absorb_all, render_jarOf]

theorem lastCookie_append (early late : List (List Char)) :
    lastCookie (early ++ late) = (lastCookie late).or (lastCookie early) := by
  rw [lastCookie, List.filterMap_append, List.getLast?_append]
  rfl

end Kanidm

end NixHomeServer.Homepage
