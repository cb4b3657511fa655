import NixHomeServer.Homepage.Cookies
import NixHomeServer.Library.Json

/-! One sign-in at Kanidm, from answer to answer. -/
namespace NixHomeServer.Homepage

open NixHomeServer.Library

inductive KanidmAuthState
  | choose (mechs : List String)
  | continues (allowed : List String)
  | success (token : String)
  | denied (message : String)
  deriving DecidableEq, Repr

def parseKanidmState (body : Json) : Option KanidmAuthState :=
  match body.get "state" with
  | some (.object [(kind, value)]) =>
    match kind, value with
    | "choose", .array items =>
      if items.all fun item => item.asStr.isSome then some (.choose (items.filterMap Json.asStr)) else none
    | "continue", .array items => some (.continues (items.filterMap Json.asStr))
    | "success", .string token => some (.success token)
    | "denied", .string message => some (.denied message)
    | _, _ => none
  | _ => none

/-- A response of the server; its body is there if it is JSON. -/
structure Response where
  status : Nat
  setCookies : List (List Char) := []
  sessionHeader : Option String := none
  body : Option Json := none

structure Answer where
  status : Nat
  state : Option KanidmAuthState
  setCookies : List (List Char)
  sessionHeader : Option String
  deriving DecidableEq, Repr

def Answer.cookies (a : Answer) : List (List Char) := collectKanidmCookies a.setCookies

/-- What `postKanidmAuth` resolves to; it throws where there is no response or another status. -/
def postKanidmAuth (response : Option Response) : Option Answer :=
  match response with
  | some r =>
    if r.status ≠ 200 ∧ r.status ≠ 401 then none
    else some {
      status := r.status
      state := if r.status = 401 then some (.denied "") else r.body.bind parseKanidmState
      setCookies := r.setCookies
      sessionHeader := r.sessionHeader }
  | none => none

inductive AuthStep
  | init2 (username : String)
  | begin (mech : String)
  | password (password : String)
  | totp (code : Nat)
  deriving DecidableEq, Repr

/-- What a sign-in carries from step to step. -/
structure Carried where
  cookie : List Char := []
  sessionHeader : Option String := none
  deriving DecidableEq, Repr

def Carried.after (carried : Carried) (cookies : List (List Char)) (sessionHeader : Option String) : Carried where
  cookie := mergeCookies carried.cookie cookies
  sessionHeader := sessionHeader.or carried.sessionHeader

/-- A request as it is sent; an empty session header is not. -/
structure Request where
  step : AuthStep
  cookie : List Char
  sessionHeader : Option String
  deriving DecidableEq, Repr

def Request.of (step : AuthStep) (carried : Carried) : Request where
  step := step
  cookie := carried.cookie
  sessionHeader := carried.sessionHeader.filter fun header => header != ""

structure PendingTotp where
  id : { id : String // id ≠ "" }
  username : String
  carried : Carried
  createdAt : Int
  password : Option String
  /-- The sign-in that it belongs to. -/
  chain : Nat
  deriving DecidableEq, Repr

/-- What a request waits for. -/
inductive Phase
  | init (password : String)
  | begun (password : String) (initCookies : List (List Char)) (carried : Carried)
  | cred (carried : Carried)
  | totp (pending : PendingTotp)
  | totpPassword (carried : Carried)
  | revoking
  | finished
  deriving DecidableEq, Repr

/-- A credential has been sent and not answered yet. -/
def Phase.credential : Phase → Bool
  | .cred _ | .totp _ | .totpPassword _ => true
  | _ => false

inductive Move
  | post (step : AuthStep) (carried : Carried) (phase : Phase)
  | register (carried : Carried) (password : Option String)
  | revoke
  | deny
  | fail
  deriving DecidableEq, Repr

/-- What follows on an answer. -/
def Phase.next : Phase → Answer → Move
  | .init password, a =>
    match a.state with
    | some (.denied _) => .deny
    | some (.choose mechs) =>
      if a.status ≠ 200 then .fail
      else if "password" ∉ mechs ∧ "passwordmfa" ∉ mechs then .fail
      else
        let mech := if "passwordmfa" ∈ mechs then "passwordmfa" else "password"
        let carried := Carried.after {} a.cookies a.sessionHeader
        .post (.begin mech) carried (.begun password a.cookies carried)
    | _ => .fail
  | .begun password initCookies carried, a =>
    match a.state with
    | some (.denied _) => .deny
    | some (.continues allowed) =>
      let carried := carried.after (initCookies ++ a.cookies) a.sessionHeader
      if "totp" ∈ allowed then .register carried (some password)
      else if "password" ∉ allowed then .fail
      else .post (.password password) carried (.cred carried)
    | _ => .fail
  | .cred carried, a =>
    match a.state with
    | some (.denied _) => .deny
    | none => .fail
    | some state =>
      if a.status ≠ 200 then .fail
      else
        let carried := carried.after a.cookies a.sessionHeader
        match state with
        | .success _ => .revoke
        | .continues allowed => if "totp" ∈ allowed then .register carried none else .deny
        | _ => .deny
  | .totp pending, a =>
    let carried := pending.carried.after a.cookies a.sessionHeader
    match a.state with
    | some (.continues allowed) =>
      match pending.password with
      | some password =>
        if "password" ∈ allowed then .post (.password password) carried (.totpPassword carried) else .fail
      | none => .fail
    | some (.denied _) => .deny
    | some (.success _) => .revoke
    | _ => .fail
  | .totpPassword _, a =>
    match a.state with
    | some (.denied _) => .deny
    | some (.success _) => .revoke
    | _ => .fail
  | .revoking, _ => .fail
  | .finished, _ => .fail

end NixHomeServer.Homepage
