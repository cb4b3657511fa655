import NixHomeServer.Library.Expressions
import NixHomeServer.Library.Patterns
import NixHomeServer.Library.Sorting
import Mathlib.Data.List.Destutter
import Mathlib.Data.String.Basic

/-! The rules that the crawler is given for a capture, and those that discovery evaluates itself. -/
namespace NixHomeServer.Browsertrix.CaptureRules

open NixHomeServer.Library

inductive CrawlScope
  | page | pageSpa | pathPrefix | host | domain
  deriving DecidableEq, Repr

structure CaptureOptions (π : Type) where
  seeds : List String
  includeRules : List π
  excludeRules : List π
  blockAds : Bool
  blockRules : List π
  allowRules : List π
  behaviors : List String
  clickSelector : String

structure CreateJobRequest (π : Type) where
  url : String
  scope : CrawlScope
  options : CaptureOptions π

variable {π : Type}

section Config

structure CaptureConfig (π : Type) where
  seeds : List String
  behaviors : List String
  clickSelector : String
  blockAds : Bool
  driver : String
  policy : CaptureOptions π
  blockMessage : String
  adBlockMessage : String
  blockRules : List (Expr π)
  exclude : Option (List (Expr π))
  resumeConfig : Option String

/-- Each pattern stands in a group of its own. -/
def alternatives (patterns : List π) : Expr π := .oneOf (patterns.map fun p => .group (.pattern p))

def blockRule (allowRules : List π) (block : π) : Expr π :=
  if allowRules.isEmpty then .pattern block
  else .seq .start (.seq (.never (.seq .run (.group (alternatives allowRules)))) (.seq .run (.group (.pattern block))))

def includeFilter (includeRules : List π) : Expr π :=
  .seq .start (.seq (.never (.group (alternatives includeRules))) .run)

def CaptureOptions.excludes (options : CaptureOptions π) : List (Expr π) :=
  options.excludeRules.map .pattern ++ if options.includeRules.isEmpty then [] else [includeFilter options.includeRules]

def writeCaptureConfig (request : CreateJobRequest π) (resume : Option String) : CaptureConfig π where
  seeds := (sortBy id (request.url :: request.options.seeds)).destutter (· ≠ ·)
  behaviors := request.options.behaviors
  clickSelector := request.options.clickSelector
  blockAds := request.options.blockAds
  driver := "file:///crawls/policy.js"
  policy := request.options
  blockMessage := "Intentionally omitted by frozen capture policy"
  adBlockMessage := "Intentionally omitted advertisement"
  blockRules := request.options.blockRules.map (blockRule request.options.allowRules)
  exclude := if request.options.excludes.isEmpty then none else some request.options.excludes
  resumeConfig := resume

variable (patterns : Patterns π)

def alternativesText (rules : List π) : List Char :=
  ['|'].intercalate (rules.map fun p => "(?:".toList ++ (patterns.text p).toList ++ [')'])

theorem print_alternatives (rules : List π) : (alternatives rules).print patterns = alternativesText patterns rules := by
  rw [alternatives, Expr.print_oneOf, List.map_map]
  rfl

theorem print_blockRule {allowRules : List π} (some : allowRules ≠ []) (block : π) :
    (blockRule allowRules block).print patterns = "^(?!.*(?:".toList ++ alternativesText patterns allowRules ++ ")).*(?:".toList ++
      (patterns.text block).toList ++ [')'] := by
  rw [blockRule, if_neg (by simpa using some)]
  simp [Expr.print, print_alternatives]

theorem print_includeFilter (includeRules : List π) :
    (includeFilter includeRules).print patterns = "^(?!(?:".toList ++ alternativesText patterns includeRules ++ ")).*".toList := by
  simp [includeFilter, Expr.print, print_alternatives]

end Config

section Discovery

/-- What is read of a parsed URL. An origin that is not of a scheme, host and port is like no other. -/
structure Url where
  scheme : String
  hostStr : Option String
  portOrKnownDefault : Option Nat
  path : String
  withoutFragment : String
  origin : Option (String × String × Nat)
  deriving DecidableEq, Repr

def Url.sameOrigin (a b : Url) : Bool := a.origin.isSome && a.origin == b.origin

def Url.pathUpToSlash (url : Url) : List Char :=
  match cutAtLast '/' url.path.toList with
  | some (v, _) => v ++ ['/']
  | none => ['/']

/-- The host without a first label `www`, perhaps with digits. -/
def Url.domain (url : Url) : List Char :=
  let baseHost := (url.hostStr.getD "").toList
  match cutAt '.' baseHost with
  | some (first, rest) => if "www".toList.isPrefixOf first && (first.drop 3).all Char.isDigit then rest else baseHost
  | none => baseHost

def Url.covers (scope : CrawlScope) (base target : Url) : Bool :=
  match scope with
  | .page => base.withoutFragment == target.withoutFragment
  | .pageSpa => base.withoutFragment == target.withoutFragment
  | .pathPrefix => base.sameOrigin target && base.pathUpToSlash.isPrefixOf target.path.toList
  | .host => base.sameOrigin target
  | .domain =>
    let host := (target.hostStr.getD "").toList
    base.scheme == target.scheme && base.portOrKnownDefault == target.portOrKnownDefault &&
      (host == base.domain || ('.' :: base.domain).isSuffixOf host)

variable (parse : String → Option Url) (patterns : Patterns π)

def baseScope (request : CreateJobRequest π) (target : Url) : Bool :=
  (request.url :: request.options.seeds).any fun seed => (parse seed).any fun base => base.covers request.scope target

def isMatch (candidate : String) (p : π) : Bool :=
  (List.range (candidate.toList.length + 1)).any fun i =>
    (List.range (candidate.toList.length + 1)).any fun j => patterns.spans p candidate.toList i j

def inScope (request : CreateJobRequest π) (candidate : String) : Bool :=
  match parse candidate with
  | none => false
  | some target => baseScope parse request target &&
      (request.options.includeRules.isEmpty || request.options.includeRules.any (isMatch patterns candidate)) &&
      !request.options.excludeRules.any (isMatch patterns candidate)

end Discovery

section Meaning

variable {patterns : Patterns π} {candidate : String} {request : CreateJobRequest π} {parse : String → Option Url}

theorem isMatch_iff {p : π} : isMatch patterns candidate p = true ↔ (Expr.pattern p).Found patterns candidate.toList := by
  simp only [isMatch, List.any_eq_true, List.mem_range, Expr.Found, Expr.Spans]
  constructor
  · rintro ⟨i, inside, j, -, spans⟩
    exact ⟨i, j, Nat.le_of_lt_succ inside, spans⟩
  · rintro ⟨i, j, inside, spans⟩
    exact ⟨i, Nat.lt_succ_of_le inside, j, Nat.lt_succ_of_le (patterns.inside p _ i j spans).2, spans⟩

theorem spans_alternatives {rules : List π} (some : rules ≠ []) {i j : Nat} :
    (alternatives rules).Spans patterns candidate.toList i j ↔ ∃ p ∈ rules, patterns.spans p candidate.toList i j = true := by
  rw [alternatives, Expr.spans_oneOf (by simpa using some)]
  simp [Expr.Spans]

/-- The crawler leaves a page out where one of the expressions is found in its URL. -/
def Excluded (patterns : Patterns π) (config : CaptureConfig π) (candidate : String) : Prop :=
  ∃ e ∈ config.exclude.getD [], e.Found patterns candidate.toList

def Blocked (patterns : Patterns π) (config : CaptureConfig π) (candidate : String) : Prop :=
  ∃ e ∈ config.blockRules, e.Found patterns candidate.toList

def MatchesAtStart (patterns : Patterns π) (candidate : String) (p : π) : Prop := ∃ j, patterns.spans p candidate.toList 0 j = true

theorem found_includeFilter {includeRules : List π} (some : includeRules ≠ []) :
    (includeFilter includeRules).Found patterns candidate.toList ↔ ¬ ∃ p ∈ includeRules, MatchesAtStart patterns candidate p := by
  rw [includeFilter, Expr.found_start, Expr.spans_never]
  have run : ∃ j, (Expr.run : Expr π).Spans patterns candidate.toList 0 j := ⟨0, Nat.le_refl 0, Nat.zero_le _, by simp⟩
  rw [and_iff_left run, not_iff_not]
  simp only [Expr.Spans, spans_alternatives some, MatchesAtStart]
  exact ⟨fun ⟨j, p, own, spans⟩ => ⟨p, own, j, spans⟩, fun ⟨p, own, j, spans⟩ => ⟨j, p, own, spans⟩⟩

theorem found_blockRule (oneLine : ∀ c ∈ candidate.toList, c ∉ Expr.newlines) {allowRules : List π} {block : π} :
    (blockRule allowRules block).Found patterns candidate.toList ↔
      isMatch patterns candidate block = true ∧ ¬ ∃ p ∈ allowRules, isMatch patterns candidate p = true := by
  unfold blockRule
  split
  · rename_i none
    rw [List.isEmpty_iff.mp none, ← isMatch_iff]
    simp
  · rename_i some
    have some : allowRules ≠ [] := by simpa using some
    rw [Expr.found_start, Expr.spans_never, Expr.spans_after_run oneLine, Expr.spans_after_run oneLine, and_comm, isMatch_iff]
    refine and_congr Iff.rfl (not_congr ?_)
    simp only [isMatch_iff, Expr.Found, Expr.Spans, spans_alternatives some]
    exact ⟨fun ⟨i, j, inside, p, own, spans⟩ => ⟨p, own, i, j, inside, spans⟩,
      fun ⟨p, own, i, j, inside, spans⟩ => ⟨i, j, inside, p, own, spans⟩⟩

end Meaning

section Agreement

variable {patterns : Patterns π} {candidate : String} {request : CreateJobRequest π} {parse : String → Option Url}

theorem grouped_alternatives (rules : List π) : (alternatives rules).Grouped :=
  Expr.grouped_oneOf fun e member => by
    obtain ⟨p, -, rfl⟩ := List.mem_map.mp member
    trivial

theorem grouped_blockRule (allowRules : List π) (block : π) : (blockRule allowRules block).Grouped := by
  unfold blockRule
  split
  · trivial
  · simp [Expr.Grouped, Expr.Closed, grouped_alternatives]

theorem mem_exclude {resume : Option String} {e : Expr π} :
    e ∈ (writeCaptureConfig request resume).exclude.getD [] ↔ e ∈ request.options.excludes := by
  unfold writeCaptureConfig
  dsimp only
  split
  · rename_i none
    simp [List.isEmpty_iff.mp none]
  · rfl

theorem mem_excludes {options : CaptureOptions π} {e : Expr π} : e ∈ options.excludes ↔
    (∃ p ∈ options.excludeRules, .pattern p = e) ∨ options.includeRules ≠ [] ∧ e = includeFilter options.includeRules := by
  rw [CaptureOptions.excludes, List.mem_append, List.mem_map]
  refine or_congr Iff.rfl ?_
  split
  · rename_i none
    simp [List.isEmpty_iff.mp none]
  · rename_i some
    have some : options.includeRules ≠ [] := by simpa using some
    simp [some]

/-- Every rule's text is read as the expression that is meant. -/
theorem grouped_rules (resume : Option String) {e : Expr π}
    (own : e ∈ (writeCaptureConfig request resume).blockRules ++ (writeCaptureConfig request resume).exclude.getD []) : e.Grouped := by
  rcases List.mem_append.mp own with block | exclude
  · obtain ⟨p, -, rfl⟩ := List.mem_map.mp block
    exact grouped_blockRule _ p
  · rcases mem_excludes.mp (mem_exclude.mp exclude) with ⟨p, -, rfl⟩ | ⟨-, rfl⟩
    · trivial
    · simp [includeFilter, Expr.Grouped, Expr.Closed, grouped_alternatives]

theorem excluded_iff (resume : Option String) : Excluded patterns (writeCaptureConfig request resume) candidate ↔
    (∃ p ∈ request.options.excludeRules, isMatch patterns candidate p = true) ∨
      request.options.includeRules ≠ [] ∧ ¬ ∃ p ∈ request.options.includeRules, MatchesAtStart patterns candidate p := by
  simp only [Excluded, mem_exclude, mem_excludes]
  constructor
  · rintro ⟨_, ⟨p, own, rfl⟩ | ⟨some, rfl⟩, found⟩
    · exact .inl ⟨p, own, isMatch_iff.mpr found⟩
    · exact .inr ⟨some, (found_includeFilter some).mp found⟩
  · rintro (⟨p, own, found⟩ | ⟨some, none⟩)
    · exact ⟨_, .inl ⟨p, own, rfl⟩, isMatch_iff.mp found⟩
    · exact ⟨_, .inr ⟨some, rfl⟩, (found_includeFilter some).mpr none⟩

theorem blocked_iff (oneLine : ∀ c ∈ candidate.toList, c ∉ Expr.newlines) (resume : Option String) :
    Blocked patterns (writeCaptureConfig request resume) candidate ↔
      (∃ p ∈ request.options.blockRules, isMatch patterns candidate p = true) ∧
        ¬ ∃ p ∈ request.options.allowRules, isMatch patterns candidate p = true := by
  constructor
  · rintro ⟨e, member, found⟩
    obtain ⟨p, own, rfl⟩ := List.mem_map.mp member
    obtain ⟨found, none⟩ := (found_blockRule oneLine).mp found
    exact ⟨⟨p, own, found⟩, none⟩
  · rintro ⟨⟨p, own, found⟩, none⟩
    exact ⟨_, List.mem_map_of_mem own, (found_blockRule oneLine).mpr ⟨found, none⟩⟩

variable (parse patterns candidate request) in
/-- The URL parses and lies within the scope of a seed. -/
def WithinSeeds : Prop := ∃ target, parse candidate = some target ∧ baseScope parse request target = true

theorem outOfScope_iff (within : WithinSeeds candidate request parse) : inScope parse patterns request candidate = false ↔
    (∃ p ∈ request.options.excludeRules, isMatch patterns candidate p = true) ∨
      request.options.includeRules ≠ [] ∧ ¬ ∃ p ∈ request.options.includeRules, isMatch patterns candidate p = true := by
  obtain ⟨target, parsed, based⟩ := within
  rw [inScope, parsed]
  simp only [based, Bool.true_and, Bool.and_eq_false_iff, Bool.or_eq_false_iff, Bool.not_eq_false', List.any_eq_true,
    List.any_eq_false, List.isEmpty_eq_false_iff, not_exists, not_and]
  exact or_comm

theorem alike_iff {excluded some started found : Prop} (start : started → found) (filled : found → some) :
    ((excluded ∨ some ∧ ¬ started) ↔ (excluded ∨ some ∧ ¬ found)) ↔ (excluded ∨ (found → started)) := by
  by_cases out : excluded
  · simp [out]
  · simp only [out, false_or]
    constructor
    · exact fun same hit => Classical.not_not.mp fun miss => (same.mp ⟨filled hit, miss⟩).2 hit
    · exact fun reached => and_congr_right fun _ => not_congr ⟨start, reached⟩

/-- The block rules and the grouping always mean what the request says. Pages are left out just where discovery leaves them out,
if and only if an include pattern that is found in the URL is one that is found at its start. -/
theorem rules_agree_iff (patterns : Patterns π) (parse : String → Option Url) (request : CreateJobRequest π) (resume : Option String)
    {candidate : String} (oneLine : ∀ c ∈ candidate.toList, c ∉ Expr.newlines) (within : WithinSeeds candidate request parse) :
    ((Excluded patterns (writeCaptureConfig request resume) candidate ↔ inScope parse patterns request candidate = false) ∧
      (Blocked patterns (writeCaptureConfig request resume) candidate ↔
        (∃ p ∈ request.options.blockRules, isMatch patterns candidate p = true) ∧
          ¬ ∃ p ∈ request.options.allowRules, isMatch patterns candidate p = true) ∧
      ∀ e ∈ (writeCaptureConfig request resume).blockRules ++ (writeCaptureConfig request resume).exclude.getD [], e.Grouped) ↔
    ((∃ p ∈ request.options.excludeRules, isMatch patterns candidate p = true) ∨
      ((∃ p ∈ request.options.includeRules, isMatch patterns candidate p = true) →
        ∃ p ∈ request.options.includeRules, MatchesAtStart patterns candidate p)) := by
  have start : (∃ p ∈ request.options.includeRules, MatchesAtStart patterns candidate p) →
      ∃ p ∈ request.options.includeRules, isMatch patterns candidate p = true := by
    rintro ⟨p, own, j, spans⟩
    exact ⟨p, own, isMatch_iff.mpr ⟨0, j, Nat.zero_le _, spans⟩⟩
  have some : (∃ p ∈ request.options.includeRules, isMatch patterns candidate p = true) → request.options.includeRules ≠ [] := by
    rintro ⟨p, own, -⟩
    exact List.ne_nil_of_mem own
  rw [and_iff_left ⟨blocked_iff oneLine resume, fun e own => grouped_rules resume own⟩, excluded_iff, outOfScope_iff within]
  exact alike_iff start some

/-- Patterns without special characters match where they stand. -/
def literal : Patterns String where
  text := id
  spans p text i j := (text.drop i).take p.toList.length = p.toList && i + p.toList.length = j && j ≤ text.length
  inside p text i j spans := by
    simp only [Bool.and_eq_true, decide_eq_true_eq] at spans
    omega

def blogRequest : CreateJobRequest String where
  url := "https://example.com/"
  scope := .host
  options := ⟨[], ["/blog/"], [], false, [], [], [], "a"⟩

def parseExample (url : String) : Option Url :=
  if url = "https://example.com/" then
    some ⟨"https", some "example.com", some 443, "/", url, some ("https", "example.com", 443)⟩
  else if url = "https://example.com/blog/post" then
    some ⟨"https", some "example.com", some 443, "/blog/post", url, some ("https", "example.com", 443)⟩
  else none

theorem post_oneLine : ∀ c ∈ "https://example.com/blog/post".toList, c ∉ Expr.newlines :=
  forall_of_all (by decide)

theorem post_within : WithinSeeds "https://example.com/blog/post" blogRequest parseExample := ⟨_, rfl, by decide⟩

/-- A page that discovery keeps for an include pattern in its path is left out by the crawler. -/
theorem post_left_out : (∀ c ∈ "https://example.com/blog/post".toList, c ∉ Expr.newlines) ∧
    WithinSeeds "https://example.com/blog/post" blogRequest parseExample ∧
    ¬ (Excluded literal (writeCaptureConfig blogRequest none) "https://example.com/blog/post" ↔
      inScope parseExample literal blogRequest "https://example.com/blog/post" = false) := by
  refine ⟨post_oneLine, post_within, fun alike => ?_⟩
  have kept : inScope parseExample literal blogRequest "https://example.com/blog/post" = true := by decide
  have left : Excluded literal (writeCaptureConfig blogRequest none) "https://example.com/blog/post" := by
    refine (excluded_iff none).mpr (.inr ⟨by decide, ?_⟩)
    rintro ⟨p, own, j, spans⟩
    obtain rfl := List.mem_singleton.mp own
    simp only [literal, Bool.and_eq_true, decide_eq_true_eq] at spans
    exact absurd spans.1.1 (by decide)
  rw [alike.mp left] at kept
  cases kept

theorem rules_agree_iff_post :
    ((Excluded literal (writeCaptureConfig blogRequest none) "https://example.com/blog/post" ↔
        inScope parseExample literal blogRequest "https://example.com/blog/post" = false) ∧
      (Blocked literal (writeCaptureConfig blogRequest none) "https://example.com/blog/post" ↔
        (∃ p ∈ blogRequest.options.blockRules, isMatch literal "https://example.com/blog/post" p = true) ∧
          ¬ ∃ p ∈ blogRequest.options.allowRules, isMatch literal "https://example.com/blog/post" p = true) ∧
      ∀ e ∈ (writeCaptureConfig blogRequest none).blockRules ++ (writeCaptureConfig blogRequest none).exclude.getD [], e.Grouped) ↔
    ((∃ p ∈ blogRequest.options.excludeRules, isMatch literal "https://example.com/blog/post" p = true) ∨
      ((∃ p ∈ blogRequest.options.includeRules, isMatch literal "https://example.com/blog/post" p = true) →
        ∃ p ∈ blogRequest.options.includeRules, MatchesAtStart literal "https://example.com/blog/post" p)) :=
  rules_agree_iff literal parseExample blogRequest none post_oneLine post_within

end Agreement

end NixHomeServer.Browsertrix.CaptureRules
