import NixHomeServer.Homepage.Vault
import NixHomeServer.Library.History

/-! What a sign-in must look like, from the entries on record of it. -/
namespace NixHomeServer.Homepage

open NixHomeServer.Library

def answersOf (acts : List Act) : List Answer := acts.filterMap fun act => match act with
  | .answered a => some a
  | _ => none

def postsOf (acts : List Act) : List Request := acts.filterMap fun act => match act with
  | .posted _ _ request => some request
  | _ => none

/-- The cookie and the session header that answers have given last. -/
def carriedBy (answers : List Answer) : Carried where
  cookie := cookieHeader (lastCookie (answers.flatMap Answer.setCookies))
  sessionHeader := (answers.filterMap Answer.sessionHeader).getLast?

def Answer.Offers (a : Answer) : AuthStep → Prop
  | .init2 _ => False
  | .begin mech => ∃ mechs, a.state = some (.choose mechs) ∧ mech ∈ mechs
  | .password _ => ∃ allowed, a.state = some (.continues allowed) ∧ "password" ∈ allowed
  | .totp _ => ∃ allowed, a.state = some (.continues allowed) ∧ "totp" ∈ allowed

/-- The sign-in began with `init2` for the user. -/
def BeganFor (username : String) (acts : List Act) : Prop :=
  ∃ password address rest,
    acts = .began username password :: .posted username address (.of (.init2 username) {}) :: rest

/-- No request is unanswered. -/
def Settled (acts : List Act) : Prop := (postsOf acts).length = (answersOf acts).length

def Awaiting (acts : List Act) : Prop := (postsOf acts).length = (answersOf acts).length + 1

def LastAnswer (acts : List Act) (p : Answer → Prop) : Prop := ∃ a, (answersOf acts).getLast? = some a ∧ p a

/-- The credential comes from the request that began the sign-in or that resumed it. -/
def Supplied (acts : List Act) : AuthStep → Prop
  | .password password => ∃ username, .began username password ∈ acts
  | .totp code => ∃ username time, .resumed username code time ∈ acts
  | _ => True

/-- A further step of a sign-in. -/
structure Follows (username : String) (acts : List Act) (request : Request) : Prop where
  began : BeganFor username acts
  settled : Settled acts
  offered : LastAnswer acts fun a => a.Offers request.step
  carries : request = .of request.step (carriedBy (answersOf acts))
  supplied : Supplied acts request.step

/-- What the acts before an act must be. -/
def Reason (acts : List Act) : Act → Prop
  | .began _ _ => acts = []
  | .posted username _ request =>
    (∃ password, acts = [.began username password]) ∧ request = .of (.init2 username) {} ∨
      Follows username acts request
  | .answered _ => Awaiting acts
  | .refused username _ => BeganFor username acts ∧ LastAnswer acts fun a => ∃ m, a.state = some (.denied m)
  | .registered username _ => BeganFor username acts ∧ ∀ u t, .registered u t ∉ acts
  | .resumed username _ time =>
    BeganFor username acts ∧ (∀ u c t, .resumed u c t ∉ acts) ∧
      ∃ start, .registered username start ∈ acts ∧ time - start < pendingTotpTtlMs
  | .unlocked username _ =>
    BeganFor username acts ∧ Settled acts ∧ LastAnswer acts fun a => ∃ token, a.state = some (.success token)

section Answers

variable {acts more : List Act}

@[simp] theorem answersOf_append (acts more : List Act) : answersOf (acts ++ more) = answersOf acts ++ answersOf more :=
  List.filterMap_append

@[simp] theorem postsOf_append (acts more : List Act) : postsOf (acts ++ more) = postsOf acts ++ postsOf more :=
  List.filterMap_append

theorem BeganFor.append {username : String} (began : BeganFor username acts) (more : List Act) :
    BeganFor username (acts ++ more) := by
  obtain ⟨password, address, rest, rfl⟩ := began
  exact ⟨password, address, rest ++ more, rfl⟩

theorem plain_carriedBy (answers : List Answer) (value : List Char)
    (last : lastCookie (answers.flatMap Answer.setCookies) = some value) : Plain value :=
  plain_lastCookie last

theorem collectKanidmCookies_append (early late : List (List Char)) :
    collectKanidmCookies (early ++ late) = collectKanidmCookies early ++ collectKanidmCookies late :=
  List.filterMap_append

/-- Taking over an answer gives what all answers so far have given last. -/
theorem carriedBy_snoc (answers : List Answer) (a : Answer) :
    (carriedBy answers).after a.cookies a.sessionHeader = carriedBy (answers ++ [a]) := by
  unfold Carried.after carriedBy Answer.cookies
  rw [mergeCookies_kanidm (plain_carriedBy answers), List.flatMap_append, lastCookie_append, List.flatMap_singleton,
    List.filterMap_append, List.getLast?_append]
  cases given : a.sessionHeader with
  | none => rw [List.filterMap_cons_none given]; rfl
  | some header => rw [List.filterMap_cons_some given]; rfl

theorem carriedBy_first (a : Answer) : Carried.after {} a.cookies a.sessionHeader = carriedBy [a] :=
  carriedBy_snoc [] a

/-- The cookies of the first answer may be merged twice. -/
theorem carriedBy_second (first a : Answer) :
    (carriedBy [first]).after (first.cookies ++ a.cookies) a.sessionHeader = carriedBy [first, a] := by
  rw [← show [first] ++ [a] = [first, a] from rfl, ← carriedBy_snoc]
  unfold Carried.after carriedBy Answer.cookies
  simp only [List.flatMap_singleton, ← collectKanidmCookies_append]
  rw [mergeCookies_kanidm (fun _ => plain_lastCookie), mergeCookies_kanidm (fun _ => plain_lastCookie),
    lastCookie_append]
  cases lastCookie a.setCookies <;> cases lastCookie first.setCookies <;> rfl

end Answers

end NixHomeServer.Homepage
