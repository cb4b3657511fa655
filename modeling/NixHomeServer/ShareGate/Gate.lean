import NixHomeServer.Library.Numerals
import NixHomeServer.Library.UrlPaths

/-! The gate in front of public share links: a visitor is let in with a signed cookie, which
is issued once the storage behind the gate has answered for the share of the request. -/
namespace NixHomeServer.ShareGate

open NixHomeServer.Library

abbrev Text := List Char

/-- The address of the storage, a scheme and an authority. -/
structure Origin where
  authority : Text
  plain : ∀ c ∈ authority, 0x20 < c.toNat ∧ isSlash c = false ∧ endsPath c = false

structure Settings where
  opencloud : Origin
  cookieName : Text
  cookieDomain : Text
  cookieTtl : Nat

def Settings.opencloudUrl (settings : Settings) : Text := "http://".toList ++ settings.opencloud.authority

/-- The target of a request; that of `CONNECT` has no path. -/
structure Uri where
  pathAndQuery : Option (Text × Option Text)

def Uri.path (uri : Uri) : Text :=
  match uri.pathAndQuery with
  | none => []
  | some (path, _) => if path = [] then ['/'] else path

def Uri.target (uri : Uri) : Text :=
  match uri.pathAndQuery with
  | none => ['/']
  | some (path, none) => if path = [] then ['/'] else path
  | some (path, some query) => path ++ '?' :: query

structure Reply where
  status : Nat
  location : Option Text := none
  setCookie : Option Text := none
  deriving DecidableEq, Repr

/-- A reply and what the storage was asked for before it. -/
structure Outcome where
  reply : Reply
  asked : Option (Text × List Text) := none
  deriving DecidableEq, Repr

section Cookies

-- The HMAC of a message in hexadecimal, under the key of the service.
variable (sign : Text → Text)

def constantTimeEq (left right : List UInt8) : Bool :=
  left.length == right.length &&
    (left.zip right).foldl (fun difference pair => difference ||| (pair.1 ^^^ pair.2)) 0 == (0 : UInt8)

def issueCookie (now ttl : Nat) : Text :=
  let expiry := Nat.toDigits 10 (now + ttl)
  expiry ++ '.' :: sign ("v1|".toList ++ expiry)

def cookieIsValid (now : Nat) (value : Text) : Bool :=
  match cutAt '.' value with
  | none => false
  | some (expiry, signature) =>
    match parseUnsigned 10 (2 ^ 64) expiry with
    | none => false
    | some expiry =>
      if expiry ≤ now then false
      else constantTimeEq (utf8 (sign ("v1|".toList ++ Nat.toDigits 10 expiry))) (utf8 signature)

def readCookie (header : Option Text) (name : Text) : Option Text :=
  header.bind fun raw => (splitAll ';' raw).findSome? fun part =>
    ((trim part).dropPrefix? name).bind fun rest => rest.dropPrefix? ['=']

def setCookie (settings : Settings) (value : Text) : Text :=
  settings.cookieName ++ '=' :: value ++ "; Path=/; Secure; HttpOnly; SameSite=Lax; Max-Age=".toList ++
    Nat.toDigits 10 settings.cookieTtl ++
    (if settings.cookieDomain = [] then [] else "; Domain=".toList ++ settings.cookieDomain)

theorem differences_eq_zero {start : UInt8} {left right : List UInt8} (long : left.length = right.length) :
    (left.zip right).foldl (fun difference pair => difference ||| (pair.1 ^^^ pair.2)) start = 0 ↔ start = 0 ∧ left = right := by
  induction left generalizing start right with
  | nil =>
    obtain rfl := List.length_eq_zero_iff.mp long.symm
    simp
  | cons x left ih =>
    cases right with
    | nil => cases long
    | cons y right =>
      rw [List.zip_cons_cons, List.foldl_cons, ih (Nat.succ.inj long), UInt8.or_eq_zero_iff, UInt8.xor_eq_zero_iff,
        List.cons.injEq, and_assoc]

theorem constantTimeEq_iff {left right : List UInt8} : constantTimeEq left right = true ↔ left = right := by
  rw [constantTimeEq, Bool.and_eq_true, beq_iff_eq, beq_iff_eq]
  constructor
  · rintro ⟨long, same⟩
    exact ((differences_eq_zero long).mp same).2
  · rintro rfl
    exact ⟨rfl, (differences_eq_zero rfl).mpr ⟨rfl, rfl⟩⟩

/-- A cookie that was issued is valid until it expires. -/
theorem cookieIsValid_issued {now issued ttl : Nat} (fits : issued + ttl < 2 ^ 64) :
    cookieIsValid sign now (issueCookie sign issued ttl) = true ↔ now < issued + ttl := by
  have dotless : '.' ∉ Nat.toDigits 10 (issued + ttl) := fun member =>
    absurd (Nat.isDigit_of_mem_toDigits (by decide) (by decide) member) (by decide)
  have read : parseUnsigned 10 (2 ^ 64) (Nat.toDigits 10 (issued + ttl)) = some (issued + ttl) := by
    simpa using parseUnsigned_leftpad 0 fits
  have cut := cutAt_append '.' (sign ("v1|".toList ++ Nat.toDigits 10 (issued + ttl))) dotless
  simp only [cookieIsValid, issueCookie, cut, read]
  split
  · rename_i expired
    simp only [Bool.false_eq_true, false_iff]
    omega
  · rename_i fresh
    rw [constantTimeEq_iff]
    simp only [true_iff]
    omega

/-- What the value of a header may hold. -/
def isHeaderValue (text : Text) : Bool := (utf8 text).all fun b => (0x20 ≤ b && b != 0x7F) || b == 0x09

end Cookies

section Navigation

def isTokenByte (b : UInt8) : Bool :=
  (0x30 ≤ b && b ≤ 0x39) || (0x41 ≤ b && b ≤ 0x5A) || (0x61 ≤ b && b ≤ 0x7A) || b ∈ [0x2D, 0x5F, 0x2E, 0x7E]

def shareToken (path : Text) : Option Text := do
  let path := (path.dropPrefix? "/index.php".toList).getD path
  let rest ← path.dropPrefix? "/s/".toList
  let token := firstPart '/' rest
  if token = [] then none
  else if (utf8 token).all isTokenByte then some token else none

/-- The URL that the storage is asked for. -/
def shareUrl (settings : Settings) (token : Text) : Text :=
  settings.opencloudUrl ++ "/remote.php/dav/public-files/".toList ++ token ++ ['/']

/-- `upstream` is the storage with the client before it: a status, or no answer. -/
def validateShare (upstream : Text × List Text → Except Text Nat) (settings : Settings) (token : Text) : Except Text Bool :=
  match httpUrl (shareUrl settings token) with
  | none => .error "builder error".toList
  | some url => (upstream url).map fun status => (200 ≤ status && status ≤ 299) || status == 401

def redirectTo (uri : Uri) : Reply := { status := 302, location := some uri.target }

/-- The clock is read when a cookie is checked and when one is issued. -/
def shareNavigation (sign : Text → Text) (upstream : Text × List Text → Except Text Nat) (settings : Settings)
    (checked issued : Nat) (uri : Uri) (cookies : Option Text) : Outcome :=
  match shareToken uri.path with
  | none => { reply := { status := 404 } }
  | some token =>
    if (readCookie cookies settings.cookieName).any (cookieIsValid sign checked) then { reply := redirectTo uri }
    else
      let asked := httpUrl (shareUrl settings token)
      match validateShare upstream settings token with
      | .ok true =>
        let cookie := setCookie settings (issueCookie sign issued settings.cookieTtl)
        { reply := if isHeaderValue cookie then { redirectTo uri with setCookie := some cookie } else redirectTo uri
          asked := asked }
      | .ok false => { reply := { status := 404 }, asked := asked }
      | .error _ => { reply := { status := 502 }, asked := asked }

end Navigation

section Tokens

variable {token path : Text} {c : Char}

/-- The segments of the endpoint of a public link. -/
def endpoint (token : Text) : List Text :=
  ["remote.php".toList, "dav".toList, "public-files".toList, token, []]

theorem kept_of_plain (low : c.toNat ≤ 0x7E) (high : 0x20 < c.toNat)
    (other : c.toNat ∉ [0x22, 0x23, 0x2F, 0x3C, 0x3E, 0x3F, 0x5C, 0x5E, 0x60, 0x7B, 0x7D]) : Kept c := by
  simp only [List.mem_cons, List.not_mem_nil, or_false, not_or] at other
  have apart : ∀ d : Char, c.toNat ≠ d.toNat → (c == d) = false := by
    intro d differ
    exact beq_eq_false_iff_ne.mpr fun same => differ (congrArg Char.toNat same)
  refine ⟨?_, ?_, ?_⟩
  · refine if_neg ?_
    simp only [List.mem_cons, List.not_mem_nil, or_false]
    omega
  · rw [isSlash, apart '/' (by simpa using other.2.2.1), apart '\\' (by simpa using other.2.2.2.2.2.2.1)]
    rfl
  · rw [endsPath, apart '?' (by simpa using other.2.2.2.2.2.1), apart '#' (by simpa using other.2.1)]
    rfl

/-- A token's characters stand for themselves in a path. -/
theorem kept_of_token (valid : (utf8 token).all isTokenByte = true) : ∀ c ∈ token, Kept c ∧ 0x20 < c.toNat := by
  intro c member
  have bytes : ∀ b ∈ String.utf8EncodeChar c, isTokenByte b = true := fun b inside =>
    List.all_eq_true.mp valid b (List.mem_flatMap.mpr ⟨c, member, inside⟩)
  by_cases small : c.toNat < 128
  · rw [encode_of_ascii small] at bytes
    have table : ∀ n < 128, isTokenByte (UInt8.ofNat n) = true → n ≤ 0x7E ∧ 0x20 < n ∧
        n ∉ [0x22, 0x23, 0x2F, 0x3C, 0x3E, 0x3F, 0x5C, 0x5E, 0x60, 0x7B, 0x7D] := by decide
    obtain ⟨low, high, other⟩ := table _ small (bytes _ List.mem_cons_self)
    exact ⟨kept_of_plain low high other, high⟩
  · obtain ⟨b, bs, encoded, first, -⟩ := encode_of_large (Nat.not_lt.mp small)
    have token_byte := bytes b (encoded ▸ List.mem_cons_self)
    have table : ∀ n < 256, 0xC0 ≤ n → isTokenByte (UInt8.ofNat n) = false := by decide +kernel
    have byte := table b.toNat b.toNat_lt (by omega)
    rw [UInt8.ofNat_toNat, token_byte] at byte
    cases byte

theorem shareToken_eq_some (found : shareToken path = some token) :
    token ≠ [] ∧ (utf8 token).all isTokenByte = true ∧ ("/s/".toList <+: path ∨ "/index.php/s/".toList <+: path) := by
  simp only [shareToken, Option.bind_eq_bind, Option.bind_eq_some_iff] at found
  obtain ⟨rest, opened, read⟩ := found
  split at read
  · cases read
  · rename_i filled
    split at read
    · rename_i valid
      cases read
      refine ⟨filled, valid, ?_⟩
      obtain ⟨start, whole, same⟩ := List.dropPrefix?_eq_some_iff.mp opened
      obtain rfl := beq_iff_eq.mp same
      cases index : path.dropPrefix? "/index.php".toList with
      | none =>
        rw [index, Option.getD_none] at whole
        exact .inl ⟨rest, whole.symm⟩
      | some under =>
        rw [index, Option.getD_some] at whole
        obtain ⟨front, split, same⟩ := List.dropPrefix?_eq_some_iff.mp index
        obtain rfl := beq_iff_eq.mp same
        exact .inr ⟨rest, by rw [split, whole]; rfl⟩
    · cases read

theorem kept_word {word : Text} (plain : ∀ c ∈ word, c.toNat ≤ 0x7E ∧ 0x20 < c.toNat ∧
    c.toNat ∉ [0x22, 0x23, 0x2F, 0x3C, 0x3E, 0x3F, 0x5C, 0x5E, 0x60, 0x7B, 0x7D]) : ∀ c ∈ word, Kept c :=
  fun c member => kept_of_plain (plain c member).1 (plain c member).2.1 (plain c member).2.2

theorem publicFiles_words : "/remote.php/dav/public-files/".toList =
    '/' :: ("remote.php".toList ++ '/' :: ("dav".toList ++ '/' :: ("public-files".toList ++ ['/']))) := by decide

theorem httpUrl_share (settings : Settings) (valid : (utf8 token).all isTokenByte = true) :
    httpUrl (shareUrl settings token) = some (settings.opencloud.authority,
      closeSegment (closeSegment ["remote.php".toList, "dav".toList, "public-files".toList] token true) [] false) := by
  have token_chars := kept_of_token valid
  have slash : 0x20 < '/'.toNat := by decide
  have whole : shareUrl settings token = "http://".toList ++ settings.opencloud.authority ++
      '/' :: ("remote.php".toList ++ '/' :: ("dav".toList ++ '/' :: ("public-files".toList ++ '/' :: (token ++ ['/'])))) := by
    unfold shareUrl Settings.opencloudUrl
    rw [publicFiles_words]
    simp only [List.append_assoc, List.cons_append, List.nil_append]
  have visible : ∀ c ∈ "remote.php".toList ++ '/' :: ("dav".toList ++ '/' :: ("public-files".toList ++ '/' :: (token ++ ['/']))),
      0x20 < c.toNat :=
    List.forall_mem_append.mpr ⟨forall_of_all (by decide), List.forall_mem_cons.mpr ⟨slash, List.forall_mem_append.mpr
      ⟨forall_of_all (by decide), List.forall_mem_cons.mpr ⟨slash, List.forall_mem_append.mpr ⟨forall_of_all (by decide),
        List.forall_mem_cons.mpr ⟨slash, List.forall_mem_append.mpr ⟨fun c own => (token_chars c own).2,
          forall_of_all (by decide)⟩⟩⟩⟩⟩⟩⟩
  rw [whole, httpUrl_append settings.opencloud.plain visible, readPath_segment (kept_word (forall_of_all (by decide))),
    readPath_segment (kept_word (forall_of_all (by decide))), readPath_segment (kept_word (forall_of_all (by decide))),
    readPath_segment fun c member => (token_chars c member).1]
  rfl

theorem percent_free (valid : (utf8 token).all isTokenByte = true) : '%' ∉ token := by
  intro member
  have byte : isTokenByte 0x25 = true :=
    List.all_eq_true.mp valid _ (List.mem_flatMap.mpr ⟨'%', member, by decide⟩)
  exact absurd byte (by decide)

theorem eq_of_toLower {d : Char} (lower : c.toLower = d) (small : d.toNat < 97) : c = d := by
  unfold Char.toLower at lower
  split at lower
  · rename_i upper
    exfalso
    have value := congrArg Char.toNat lower
    have first : 65 ≤ c.toNat := UInt32.le_iff_toNat_le.mp upper.1
    have last : c.toNat ≤ 90 := UInt32.le_iff_toNat_le.mp upper.2
    have moved : (c.val + ('a'.val - 'A'.val)).toNat = c.toNat + 32 := by
      rw [UInt32.toNat_add, show ('a'.val - 'A'.val).toNat = 32 from rfl]
      exact Nat.mod_eq_of_lt (by have : c.val.toNat = c.toNat := rfl; omega)
    change (c.val + ('a'.val - 'A'.val)).toNat = d.toNat at value
    omega
  · exact lower

/-- No other token stands for a dot segment: an escape has a percent sign. -/
theorem no_dots (valid : (utf8 token).all isTokenByte = true) (dot : token ≠ ['.']) (up : token ≠ ['.', '.']) :
    isSingleDot token = false ∧ isDoubleDot token = false := by
  have free := percent_free valid
  have escaped : ∀ front back : Text, token.map Char.toLower ≠ front ++ '%' :: back := by
    intro front back same
    obtain ⟨left, right, rfl, -, tail⟩ := List.map_eq_append_iff.mp same
    obtain ⟨c, right, rfl, lower, -⟩ := List.map_eq_cons_iff.mp tail
    obtain rfl := eq_of_toLower lower (by decide)
    exact free (by simp)
  have dots : ∀ n, token.map Char.toLower = List.replicate n '.' → token = List.replicate n '.' := by
    intro n same
    refine List.eq_replicate_iff.mpr ⟨by simpa using congrArg List.length same, fun c member => ?_⟩
    have lower : c.toLower ∈ List.replicate n '.' := same ▸ List.mem_map_of_mem member
    exact eq_of_toLower (List.eq_of_mem_replicate lower) (by decide)
  constructor
  · refine decide_eq_false fun member => ?_
    rcases List.mem_cons.mp member with same | member
    · exact dot (dots 1 same)
    · exact escaped [] _ (List.mem_singleton.mp member)
  · refine decide_eq_false fun member => ?_
    rcases List.mem_cons.mp member with same | member
    · exact up (dots 2 same)
    · rcases List.mem_cons.mp member with same | member
      · exact escaped ['.'] _ same
      · rcases List.mem_cons.mp member with same | member
        · exact escaped [] _ same
        · exact escaped [] _ (List.mem_singleton.mp member)

/-- The dot segments are the tokens that the URL's path loses. -/
theorem endpoint_iff (valid : (utf8 token).all isTokenByte = true) (settings : Settings) :
    httpUrl (shareUrl settings token) = some (settings.opencloud.authority, endpoint token) ↔
      token ≠ ['.'] ∧ token ≠ ['.', '.'] := by
  rw [httpUrl_share settings valid, Option.some.injEq, Prod.mk.injEq, eq_self, true_and]
  by_cases dot : token = ['.']
  · subst dot
    simp only [ne_eq, not_true, false_and, iff_false]
    decide
  · by_cases up : token = ['.', '.']
    · subst up
      simp only [ne_eq, not_true, and_false, iff_false]
      decide
    · obtain ⟨single, double⟩ := no_dots valid dot up
      have empty : isSingleDot [] = false ∧ isDoubleDot [] = false := by decide
      rw [closeSegment_plain single double, closeSegment_plain empty.1 empty.2]
      simp [dot, up, endpoint]

end Tokens

section Gate

variable {upstream : Text × List Text → Except Text Nat} {settings : Settings} {token : Text}

/-- The storage is asked for the share of the request only, and a redirect stays at the request's path. -/
structure Faithful (upstream : Text × List Text → Except Text Nat) (settings : Settings) (uri : Uri) (outcome : Outcome) : Prop where
  url : ∀ token, shareToken uri.path = some token →
    httpUrl (shareUrl settings token) = some (settings.opencloud.authority, endpoint token)
  asked : ∀ url, outcome.asked = some url →
    ∃ token, shareToken uri.path = some token ∧ url = (settings.opencloud.authority, endpoint token)
  cookie : ∀ cookie, outcome.reply.setCookie = some cookie → ∃ token status, shareToken uri.path = some token ∧
    outcome.asked = some (settings.opencloud.authority, endpoint token) ∧
    upstream (settings.opencloud.authority, endpoint token) = .ok status ∧ (200 ≤ status ∧ status ≤ 299 ∨ status = 401)
  location : ∀ target, outcome.reply.location = some target →
    uri.path <+: target ∧ target = uri.target ∧ ("/s/".toList <+: uri.path ∨ "/index.php/s/".toList <+: uri.path)

theorem path_prefix_target (uri : Uri) (some_path : uri.path ≠ []) (slash : uri.path ≠ ['/']) : uri.path <+: uri.target := by
  match uri with
  | ⟨none⟩ => exact (some_path rfl).elim
  | ⟨some (path, none)⟩ => exact List.prefix_refl _
  | ⟨some (path, some query)⟩ =>
    by_cases empty : path = []
    · exact (slash (if_pos empty)).elim
    · have own : Uri.path ⟨some (path, some query)⟩ = path := if_neg empty
      rw [own]
      exact List.prefix_append path ('?' :: query)

/-- What the storage answered, where a share is found valid. -/
theorem validateShare_true (plain : httpUrl (shareUrl settings token) = some (settings.opencloud.authority, endpoint token))
    (valid : validateShare upstream settings token = .ok true) :
    ∃ status, upstream (settings.opencloud.authority, endpoint token) = .ok status ∧
      (200 ≤ status ∧ status ≤ 299 ∨ status = 401) := by
  simp only [validateShare, plain] at valid
  cases answer : upstream (settings.opencloud.authority, endpoint token) with
  | error e =>
    rw [answer] at valid
    cases valid
  | ok status =>
    rw [answer] at valid
    refine ⟨status, rfl, ?_⟩
    simpa [Except.map] using valid

/-- The gate asks for the share of the request exactly if its token is no dot segment. -/
theorem gate_iff (sign : Text → Text) (upstream : Text × List Text → Except Text Nat) (settings : Settings)
    (checked issued : Nat) (uri : Uri) (cookies : Option Text) :
    Faithful upstream settings uri (shareNavigation sign upstream settings checked issued uri cookies) ↔
      shareToken uri.path ≠ some ['.'] ∧ shareToken uri.path ≠ some ['.', '.'] := by
  constructor
  · intro faithful
    refine ⟨fun dot => ?_, fun up => ?_⟩
    · obtain ⟨-, valid, -⟩ := shareToken_eq_some dot
      exact ((endpoint_iff valid settings).mp (faithful.url _ dot)).1 rfl
    · obtain ⟨-, valid, -⟩ := shareToken_eq_some up
      exact ((endpoint_iff valid settings).mp (faithful.url _ up)).2 rfl
  · rintro ⟨dot, up⟩
    cases found : shareToken uri.path with
    | none =>
      have outcome : shareNavigation sign upstream settings checked issued uri cookies = { reply := { status := 404 } } := by
        simp [shareNavigation, found]
      rw [outcome]
      exact ⟨by simp [found], nofun, nofun, nofun⟩
    | some token =>
      obtain ⟨-, valid, under⟩ := shareToken_eq_some found
      rw [found, ne_eq, Option.some.injEq] at dot up
      have plain := (endpoint_iff valid settings).mpr ⟨dot, up⟩
      have url : ∀ token', shareToken uri.path = some token' →
          httpUrl (shareUrl settings token') = some (settings.opencloud.authority, endpoint token') := by
        intro token' same
        rw [found, Option.some.injEq] at same
        exact same ▸ plain
      have target : uri.path <+: uri.target := by
        refine path_prefix_target uri ?_ ?_
        · rintro empty
          rw [empty] at under
          exact absurd under (by decide)
        · rintro slash
          rw [slash] at under
          exact absurd under (by decide)
      have location : ∀ place, (redirectTo uri).location = some place →
          uri.path <+: place ∧ place = uri.target ∧ ("/s/".toList <+: uri.path ∨ "/index.php/s/".toList <+: uri.path) := by
        rintro place ⟨rfl⟩
        exact ⟨target, rfl, under⟩
      simp only [shareNavigation, found, plain]
      split
      · exact ⟨url, nofun, nofun, location⟩
      · have asked : ∀ asked, some (settings.opencloud.authority, endpoint token) = some asked →
            ∃ token, shareToken uri.path = some token ∧ asked = (settings.opencloud.authority, endpoint token) := by
          rintro asked ⟨rfl⟩
          exact ⟨token, found, rfl⟩
        split
        · rename_i answered
          obtain ⟨status, answer, ok⟩ := validateShare_true plain answered
          refine ⟨url, asked, fun cookie set => ⟨token, status, found, rfl, answer, ok⟩, ?_⟩
          dsimp only
          split
          · exact location
          · exact location
        · exact ⟨url, asked, nofun, nofun⟩
        · exact ⟨url, asked, nofun, nofun⟩

/-- A storage that answers 401 to whoever asks, and a token of two dots. -/
def publicSettings : Settings where
  opencloud := { authority := "127.0.0.1:9200".toList, plain := forall_of_all (by decide) }
  cookieName := "__Secure-ocshare".toList
  cookieDomain := []
  cookieTtl := 43200

theorem dots_opened : shareToken "/s/../".toList = some "..".toList ∧
    (let outcome := shareNavigation (fun _ => []) (fun _ => .ok 401) publicSettings 0 0
        { pathAndQuery := some ("/s/../".toList, none) } none
     outcome.asked = some ("127.0.0.1:9200".toList, ["remote.php".toList, "dav".toList, []]) ∧
     outcome.reply.setCookie.isSome = true ∧
     ¬ Faithful (fun _ => .ok 401) publicSettings { pathAndQuery := some ("/s/../".toList, none) } outcome) := by
  have token : shareToken "/s/../".toList = some "..".toList := by decide +kernel
  have asked : (shareNavigation (fun _ => []) (fun _ => .ok 401) publicSettings 0 0
      { pathAndQuery := some ("/s/../".toList, none) } none).asked =
        some ("127.0.0.1:9200".toList, ["remote.php".toList, "dav".toList, []]) := by decide +kernel
  refine ⟨token, asked, by decide +kernel, fun faithful => ?_⟩
  obtain ⟨own, -, same⟩ := faithful.asked _ asked
  exact absurd (congrArg List.length (Prod.mk.inj same).2) (by simp [endpoint])

end Gate

end NixHomeServer.ShareGate
