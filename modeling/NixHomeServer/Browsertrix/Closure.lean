import NixHomeServer.Browsertrix.Custody
import NixHomeServer.Library.DepthFirst
import NixHomeServer.Library.Keyed
import NixHomeServer.Library.Text

/-! The dependencies of an archive, checked and listed depth first. -/
namespace NixHomeServer.Browsertrix.Closure

open NixHomeServer.Library

structure Archive where
  id : String
  createdBy : String
  visibility : String
  sha256 : String
  archiveFile : String
  dependencies : List String
  dependencyHashes : List (String × String)
  deriving DecidableEq, Repr

/-- A row has the id and the owner of its document. -/
abbrev Catalogue := Keyed Archive.id

/-- What is found at a path without following a link. -/
inductive Found
  | absent (error : String)
  | directory
  | regular (content : Except String Content)
  | other

structure Custody where
  roots : Root → Found
  files : Root → String → Found

structure Env where
  catalogue : Catalogue
  custody : Custody
  /-- The digest in hexadecimal. -/
  sha256 : Content → String

section Checks

def archiveForUser (catalogue : Catalogue) (id owner : String) : Option Archive :=
  (catalogue.get id).filter fun archive => archive.createdBy = owner

def rootOf (archive : Archive) : Root := if archive.visibility = "private" then .owned else .shared

/-- One normal component: a `.` counts at the start only. -/
def oneNormalComponent (name : String) : Bool :=
  let parts := splitAll '/' name.toList
  let normal := parts.filter fun part => part ≠ [] ∧ part ≠ ['.']
  normal.length = 1 && normal ≠ [['.', '.']] && parts.head? ≠ some [] && parts.head? ≠ some ['.']

def checkedFile (custody : Custody) (at_root : Root) (name : String) : Except String Unit :=
  if !oneNormalComponent name then .error "unsafe payload name"
  else match custody.roots at_root with
    | .absent error => .error error
    | .directory => match custody.files at_root name with
      | .absent error => .error error
      | .regular _ => .ok ()
      | _ => .error "payload is not a regular file"
    | _ => .error "payload root is not a real directory"

/-- The digest of the file, read once more after the check of its name. -/
def fileDigest (env : Env) (at_root : Root) (name : String) : Except String String :=
  match env.custody.files at_root name with
  | .regular content => content.map env.sha256
  | .absent error => .error error
  | _ => .error "payload is not regular"

def checkedArchive (env : Env) (owner id hash : String) : Except String Archive :=
  match archiveForUser env.catalogue id owner with
  | none => .error "archive not found"
  | some a =>
    if a.sha256 ≠ hash ∨ hash.utf8ByteSize ≠ 64 then
      .error "archive immutable identity changed or legacy fixity is not established"
    else do
      checkedFile env.custody (rootOf a) a.archiveFile
      let digest ← fileDigest env (rootOf a) a.archiveFile
      if digest ≠ hash then .error "archive payload does not match catalogue digest" else .ok a

end Checks

section Visit

structure Listing where
  seen : List String := []
  out : List Archive := []
  deriving DecidableEq, Repr

variable (env : Env) (root : Archive)

/-- The rows that are not on the stack, and one more for an archive that has no row. -/
def unvisited (stack : List String) (a : Archive) : Nat :=
  (env.catalogue.rows.filter fun row => row.id ∉ stack).length + if a ∈ env.catalogue.rows then 0 else 1

theorem checkedArchive_ok {owner id hash : String} {dep : Archive} (checked : checkedArchive env owner id hash = .ok dep) :
    env.catalogue.get id = some dep ∧ dep.createdBy = owner ∧ dep.sha256 = hash := by
  unfold checkedArchive at checked
  split at checked
  · cases checked
  · rename_i a found
    split at checked
    · cases checked
    · rename_i same
      obtain ⟨there, owned⟩ := Option.filter_eq_some_iff.mp found
      cases file : checkedFile env.custody (rootOf a) a.archiveFile with
      | error e =>
        rw [file] at checked
        cases checked
      | ok u =>
        cases digest : fileDigest env (rootOf a) a.archiveFile with
        | error e =>
          rw [file, digest] at checked
          cases checked
        | ok d =>
          rw [file, digest] at checked
          simp only [bind, Except.bind] at checked
          split at checked
          · cases checked
          · cases checked
            exact ⟨there, of_decide_eq_true owned, not_not.mp (not_or.mp same).1⟩

theorem unvisited_cons {stack : List String} {a dep : Archive} (new : a.id ∉ stack) (there : dep ∈ env.catalogue.rows) :
    unvisited env (a.id :: stack) dep < unvisited env stack a := by
  have fewer : (env.catalogue.rows.filter fun row => row.id ∉ a.id :: stack) =
      (env.catalogue.rows.filter fun row => row.id ∉ stack).filter fun row => row.id ≠ a.id := by
    rw [List.filter_filter]
    refine List.filter_congr fun row _ => ?_
    simp only [List.mem_cons, not_or, ne_eq, Bool.decide_and]
  unfold unvisited
  rw [if_pos there, fewer]
  split
  · rename_i own
    have counted : a ∈ env.catalogue.rows.filter fun row => row.id ∉ stack :=
      List.mem_filter.mpr ⟨own, decide_eq_true new⟩
    have smaller := List.length_filter_lt_length_iff_exists (p := fun row : Archive => decide (row.id ≠ a.id)).mpr
      ⟨a, counted, by simp⟩
    omega
  · have smaller := List.length_filter_le (fun row : Archive => decide (row.id ≠ a.id))
      (env.catalogue.rows.filter fun row => row.id ∉ stack)
    omega

/-- A visit of an archive. What it puts on the stack it takes off again before it returns, so the stack
is only handed down. -/
def visit (stack : List String) (a : Archive) (listing : Listing) : Except String Listing :=
  if _new : 100 < listing.out.length ∨ a.id ∈ stack then .error "archive dependency cycle or limit exceeded"
  else a.dependencies.foldlM (fun listing id =>
    if id ∈ listing.seen then .ok listing
    else match a.dependencyHashes.lookup id with
      | none => .error "dependency has no immutable digest"
      | some hash => match _found : checkedArchive env root.createdBy id hash with
        | .error e => .error e
        | .ok dep =>
          if dep.visibility ≠ root.visibility then .error "dependency visibility differs from archive"
          else do
            let listing ← visit (a.id :: stack) dep listing
            .ok { seen := id :: listing.seen, out := listing.out ++ [dep] }) listing
termination_by unvisited env stack a
decreasing_by
  exact unvisited_cons env (not_or.mp _new).2 (Keyed.get_eq_some.mp (checkedArchive_ok env _found).1).1

def authorizedDependencies : Except String (List Archive) := do
  let listing ← visit env root [] root {}
  .ok listing.out

end Visit

section Steps

variable (env : Env) (root : Archive)

/-- What is done for one reference of an archive. -/
def enter (a : Archive) (visit : Archive → Listing → Except String Listing) (listing : Listing) (id : String) :
    Except String Listing :=
  if id ∈ listing.seen then .ok listing
  else match a.dependencyHashes.lookup id with
    | none => .error "dependency has no immutable digest"
    | some hash => match checkedArchive env root.createdBy id hash with
      | .error e => .error e
      | .ok dep =>
        if dep.visibility ≠ root.visibility then .error "dependency visibility differs from archive"
        else do
          let listing ← visit dep listing
          .ok { seen := id :: listing.seen, out := listing.out ++ [dep] }

theorem visit_eq (stack : List String) (a : Archive) (listing : Listing) :
    visit env root stack a listing =
      if 100 < listing.out.length ∨ a.id ∈ stack then .error "archive dependency cycle or limit exceeded"
      else a.dependencies.foldlM (enter env root a (visit env root (a.id :: stack))) listing := by
  rw [visit]
  split
  · rfl
  · congr 1
    funext listing id
    unfold enter
    split
    · rfl
    · split
      · rfl
      · rename_i hash _
        split <;> rename_i same <;> rw [same]

/-- The reference is to an archive that passes every check of it. -/
def GoodRef (a : Archive) (id : String) : Prop :=
  ∃ hash dep, a.dependencyHashes.lookup id = some hash ∧ checkedArchive env root.createdBy id hash = .ok dep ∧
    dep.visibility = root.visibility

theorem enter_ok {a : Archive} {visit : Archive → Listing → Except String Listing} {listing after : Listing} {id : String}
    (new : id ∉ listing.seen) :
    enter env root a visit listing id = .ok after ↔
      ∃ hash dep inner, a.dependencyHashes.lookup id = some hash ∧ checkedArchive env root.createdBy id hash = .ok dep ∧
        dep.visibility = root.visibility ∧ visit dep listing = .ok inner ∧
          after = { seen := id :: inner.seen, out := inner.out ++ [dep] } := by
  rw [enter, if_neg new]
  constructor
  · intro done
    cases recorded : a.dependencyHashes.lookup id with
    | none =>
      rw [recorded] at done
      cases done
    | some hash =>
      cases checked : checkedArchive env root.createdBy id hash with
      | error e =>
        simp only [recorded, checked] at done
        cases done
      | ok dep =>
        simp only [recorded, checked] at done
        split at done
        · cases done
        · rename_i same
          cases visited : visit dep listing with
          | error e =>
            rw [visited] at done
            cases done
          | ok inner =>
            rw [visited] at done
            cases done
            exact ⟨hash, dep, inner, rfl, checked, not_not.mp same, visited, rfl⟩
  · rintro ⟨hash, dep, inner, recorded, checked, same, visited, rfl⟩
    simp only [recorded, checked, same, ne_eq, not_true, if_false, visited]
    rfl

end Steps

section Listed

variable (env : Env) (root : Archive)

/-- What an archive depends on, directly or through others. -/
abbrev DependsOn (a : Archive) (id : String) : Prop := Below env.catalogue.get Archive.dependencies a id

abbrev Follows (known : String → Prop) (before : List String) (id : String) : Prop :=
  Covered env.catalogue.get Archive.dependencies known before id

abbrev GoesThrough (known : String → Prop) (a : Archive) : Prop :=
  Passes env.catalogue.get Archive.dependencies (GoodRef env root) 100 known a

/-- What is listed is listed once, after its own dependencies, and has passed its checks. -/
structure Listed (listing : Listing) : Prop where
  seen : ∀ id, id ∈ listing.seen ↔ id ∈ listing.out.map Archive.id
  distinct : (listing.out.map Archive.id).Nodup
  ordered : ∀ before dep after, listing.out = before ++ dep :: after →
    ∀ id ∈ dep.dependencies, id ∈ before.map Archive.id
  sound : ∀ dep ∈ listing.out,
    checkedArchive env root.createdBy dep.id dep.sha256 = .ok dep ∧ dep.visibility = root.visibility

structure Visited (stack : List String) (a : Archive) (listing after : Listing) : Prop where
  fresh : a.id ∉ stack
  room : listing.out.length ≤ 100
  listed : Listed env root after
  covers : ∀ id, id ∈ after.seen ↔ Follows env (· ∈ listing.seen) a.dependencies id
  clear : ∀ s ∈ a.id :: stack, s ∉ after.seen
  passes : GoesThrough env root (· ∈ listing.seen) a

variable {env root} {listing after : Listing}

theorem Listed.empty : Listed env root {} where
  seen _ := Iff.rfl
  distinct := List.nodup_nil
  ordered before dep after split := by simp at split
  sound _ member := absurd member List.not_mem_nil

theorem Listed.push (listed : Listed env root listing) {dep : Archive} (new : dep.id ∉ listing.seen)
    (below : ∀ id ∈ dep.dependencies, id ∈ listing.seen)
    (checked : checkedArchive env root.createdBy dep.id dep.sha256 = .ok dep) (same : dep.visibility = root.visibility) :
    Listed env root { seen := dep.id :: listing.seen, out := listing.out ++ [dep] } where
  seen id := by
    simp only [List.mem_cons, List.map_append, List.map_cons, List.map_nil, List.mem_append, List.not_mem_nil, or_false,
      listed.seen id]
    exact Or.comm
  distinct := by
    rw [List.map_append, List.map_cons, List.map_nil]
    refine List.nodup_append'.mpr ⟨listed.distinct, List.nodup_singleton _, fun id old there => ?_⟩
    obtain rfl := List.mem_singleton.mp there
    exact new ((listed.seen _).mpr old)
  ordered before d later split id member := by
    rcases List.eq_nil_or_concat later with rfl | ⟨later, e, rfl⟩
    · obtain ⟨rfl, last⟩ := List.append_inj' split rfl
      cases last
      exact (listed.seen id).mp (below id member)
    · rw [List.concat_eq_append, ← List.cons_append, ← List.append_assoc] at split
      exact listed.ordered before d later (List.append_inj' split rfl).1 id member
  sound d member := by
    rcases List.mem_append.mp member with old | here
    · exact listed.sound d old
    · rw [List.mem_singleton.mp here]
      exact ⟨checked, same⟩

theorem Listed.row (listed : Listed env root listing) {id : String} (seen : id ∈ listing.seen) :
    ∃ dep ∈ listing.out, dep.id = id ∧ env.catalogue.get id = some dep := by
  obtain ⟨dep, member, rfl⟩ := List.mem_map.mp ((listed.seen id).mp seen)
  exact ⟨dep, member, rfl, (checkedArchive_ok env (listed.sound dep member).1).1⟩

theorem Listed.closed (listed : Listed env root listing) :
    Closed env.catalogue.get Archive.dependencies (· ∈ listing.seen) := by
  intro id b seen found l ref
  obtain ⟨dep, member, -, row⟩ := listed.row seen
  rw [found] at row
  cases row
  obtain ⟨before, later, split⟩ := List.append_of_mem member
  obtain ⟨d, there, same⟩ := List.mem_map.mp (listed.ordered before b later split l ref)
  refine (listed.seen l).mpr (List.mem_map.mpr ⟨d, ?_, same⟩)
  rw [split]
  exact List.mem_append_left _ there

theorem Listed.atMost (listed : Listed env root listing) {limit : Nat} (room : listing.out.length ≤ limit) :
    AtMost limit (· ∈ listing.seen) := by
  intro ids distinct all
  have inside : ids ⊆ listing.out.map Archive.id := fun id member => (listed.seen id).mp (all id member)
  have count := (distinct.subperm inside).length_le
  rw [List.length_map] at count
  omega

/-- What a reference that is visited leaves behind. -/
theorem Visited.next {stack : List String} {dep : Archive} {known : String → Prop} {before : List String}
    (visited : Visited env root stack dep listing after) (row : env.catalogue.get dep.id = some dep)
    (checked : checkedArchive env root.createdBy dep.id dep.sha256 = .ok dep) (same : dep.visibility = root.visibility)
    (covers : ∀ id, id ∈ listing.seen ↔ Follows env known before id) :
    Listed env root { seen := dep.id :: after.seen, out := after.out ++ [dep] } ∧
      (∀ s ∈ stack, s ∉ dep.id :: after.seen) ∧
      ∀ id, id ∈ dep.id :: after.seen ↔ Follows env known (before ++ [dep.id]) id := by
  have new : dep.id ∉ after.seen := visited.clear _ List.mem_cons_self
  have inside : ∀ id ∈ dep.dependencies, id ∈ after.seen := fun id ref =>
    (visited.covers id).mpr (covered_refs.mpr (.inr (.ref ref)))
  refine ⟨visited.listed.push new inside checked same, fun s member there => ?_, fun id => ?_⟩
  · rcases List.mem_cons.mp there with rfl | there
    · exact visited.fresh member
    · exact visited.clear s (List.mem_cons_of_mem _ member) there
  · have reached : id ∈ after.seen ↔ Follows env known before id ∨ DependsOn env dep id :=
      (visited.covers id).trans (covered_refs.trans (or_congr_left (covers id)))
    have single : Covered env.catalogue.get Archive.dependencies (Follows env known before) [dep.id] id ↔ _ :=
      covered_single row
    exact List.mem_cons.trans ((or_congr_right reached).trans (single.symm.trans covered_append.symm))

/-- A reference to something that is listed changes nothing. -/
theorem Listed.again {known : String → Prop} {before : List String} {id : String} (listed : Listed env root listing)
    (covers : ∀ id, id ∈ listing.seen ↔ Follows env known before id) (seen : id ∈ listing.seen) (k : String) :
    k ∈ listing.seen ↔ Follows env known (before ++ [id]) k := by
  have known_eq : (· ∈ listing.seen) = Follows env known before := funext fun x => propext (covers x)
  have nothing := (known_eq ▸ listed.closed).covered_single (l := k) ((covers id).mp seen)
  exact (covers k).trans (nothing.symm.trans covered_append.symm)

/-- The references of an archive from some place on, where every visit of a row does what it should. -/
theorem follow (before : List String) {known : String → Prop} {a : Archive} {stack : List String}
    {inner : Archive → Listing → Except String Listing}
    (visits : ∀ dep ∈ env.catalogue.rows, ∀ listing after, Listed env root listing → (∀ s ∈ stack, s ∉ listing.seen) →
      dep.id ∉ listing.seen → inner dep listing = .ok after → Visited env root stack dep listing after)
    {later : List String} (listed : Listed env root listing) (clear : ∀ s ∈ stack, s ∉ listing.seen)
    (covers : ∀ id, id ∈ listing.seen ↔ Follows env known before id)
    (done : later.foldlM (enter env root a inner) listing = .ok after) :
    Listed env root after ∧ (∀ s ∈ stack, s ∉ after.seen) ∧ (∀ id, id ∈ after.seen ↔ Follows env known (before ++ later) id) ∧
      ∀ middle id rest, later = middle ++ id :: rest → ¬ Follows env known (before ++ middle) id →
        GoodRef env root a id ∧ AtMost 100 (Follows env known (before ++ middle)) ∧
          ∀ b, env.catalogue.get id = some b → GoesThrough env root (Follows env known (before ++ middle)) b := by
  induction later generalizing before listing with
  | nil =>
    cases done
    rw [List.append_nil]
    exact ⟨listed, clear, covers, fun middle id rest split => by simp at split⟩
  | cons id later ih =>
    have step : before ++ id :: later = before ++ [id] ++ later := by rw [List.append_assoc, List.singleton_append]
    have known_eq : (· ∈ listing.seen) = Follows env known before := funext fun x => propext (covers x)
    -- what holds of the later references and of this one holds of all
    have gather (first : ¬ Follows env known before id → GoodRef env root a id ∧ AtMost 100 (Follows env known before) ∧
        ∀ b, env.catalogue.get id = some b → GoesThrough env root (Follows env known before) b)
        {next : Listing} (listed : Listed env root next) (clear : ∀ s ∈ stack, s ∉ next.seen)
        (covers : ∀ x, x ∈ next.seen ↔ Follows env known (before ++ [id]) x)
        (done : later.foldlM (enter env root a inner) next = .ok after) :=
      have ⟨listed', clear', covers', rest'⟩ := ih _ listed clear covers done
      (⟨listed', clear', step ▸ covers', fun middle k rest split new => by
        cases middle with
        | nil =>
          cases split
          rw [List.append_nil] at new ⊢
          exact first new
        | cons x middle =>
          cases split
          rw [show before ++ id :: middle = before ++ [id] ++ middle by rw [List.append_assoc, List.singleton_append]] at new ⊢
          exact rest' middle k rest rfl new⟩ :
        Listed env root after ∧ (∀ s ∈ stack, s ∉ after.seen) ∧
          (∀ x, x ∈ after.seen ↔ Follows env known (before ++ id :: later) x) ∧
          ∀ middle k rest, id :: later = middle ++ k :: rest → ¬ Follows env known (before ++ middle) k →
            GoodRef env root a k ∧ AtMost 100 (Follows env known (before ++ middle)) ∧
              ∀ b, env.catalogue.get k = some b → GoesThrough env root (Follows env known (before ++ middle)) b)
    rw [List.foldlM_cons] at done
    by_cases seen : id ∈ listing.seen
    · rw [enter, if_pos seen] at done
      exact gather (fun new => absurd ((covers id).mp seen) new) listed clear (listed.again covers seen) done
    · cases entered : enter env root a inner listing id with
      | error e =>
        rw [entered] at done
        cases done
      | ok next =>
        rw [entered] at done
        obtain ⟨hash, dep, mid, recorded, checked, same, visited, rfl⟩ := (enter_ok env root seen).mp entered
        obtain ⟨row, owned, digest⟩ := checkedArchive_ok env checked
        obtain rfl := Keyed.key_of_get row
        have visited := visits dep (Keyed.get_eq_some.mp row).1 listing mid listed clear seen visited
        obtain ⟨listed', clear', covers'⟩ := visited.next row (digest ▸ checked) same covers
        refine gather (fun _ => ⟨⟨hash, dep, recorded, checked, same⟩, known_eq ▸ listed.atMost visited.room, fun b found => ?_⟩)
          listed' clear' covers' done
        rw [row] at found
        cases found
        exact known_eq ▸ visited.passes

/-- A visit that goes through lists what the archive depends on and has checked it. -/
theorem visit_visited {stack : List String} {a : Archive} {listing after : Listing} (listed : Listed env root listing)
    (clear : ∀ s ∈ stack, s ∉ listing.seen) (own : a.id ∉ listing.seen)
    (done : visit env root stack a listing = .ok after) : Visited env root stack a listing after := by
  rw [visit_eq] at done
  split at done
  · cases done
  · rename_i fresh
    have fresh := not_or.mp fresh
    have visits (dep : Archive) (there : dep ∈ env.catalogue.rows) (listing after : Listing) (listed : Listed env root listing)
        (clear : ∀ s ∈ a.id :: stack, s ∉ listing.seen) (own : dep.id ∉ listing.seen)
        (done : visit env root (a.id :: stack) dep listing = .ok after) :
        Visited env root (a.id :: stack) dep listing after := visit_visited listed clear own done
    obtain ⟨listed', clear', covers, each⟩ := follow [] visits listed
      (List.forall_mem_cons.mpr ⟨own, clear⟩) (fun _ => covered_nil.symm) done
    rw [List.nil_append] at covers
    refine ⟨fresh.2, by omega, listed', covers, clear', .visit (fun before id rest split new => ?_) fun before id rest b split new found => ?_⟩
    · have checks := each before id rest split new
      exact ⟨checks.1, checks.2.1⟩
    · exact (each before id rest split new).2.2 b found
termination_by unvisited env stack a
decreasing_by exact unvisited_cons env fresh.2 there

end Listed

section Complete

variable {env : Env} {root : Archive}

variable (env root) in
/-- An archive of the closure under its id: the given one, or the row of one it depends on. -/
def Stands (id : String) (a : Archive) : Prop :=
  (id = root.id ∧ a = root) ∨ (DependsOn env root id ∧ env.catalogue.get id = some a)

variable (env root) in
/-- No archive of the closure depends on itself. -/
def Acyclic : Prop := ∀ id a, Stands env root id a → ¬ DependsOn env a id

theorem Stands.below {id k : String} {a : Archive} (stands : Stands env root id a) (below : DependsOn env a k) :
    DependsOn env root k := by
  rcases stands with ⟨-, rfl⟩ | ⟨reached, row⟩
  · exact below
  · exact reached.trans row below

theorem Stands.row {id k : String} {a b : Archive} (stands : Stands env root id a) (below : DependsOn env a k)
    (found : env.catalogue.get k = some b) : Stands env root k b :=
  .inr ⟨stands.below below, found⟩

/-- What leads to an archive leads on to what it depends on. -/
theorem Stands.through {id k l : String} {a b : Archive} (acyclic : Acyclic env root) (stands : Stands env root id a)
    (other : Stands env root k b) (to_other : DependsOn env a k) (on : DependsOn env b l) : DependsOn env a l := by
  rcases other with ⟨rfl, rfl⟩ | ⟨-, row⟩
  · exact absurd (stands.below to_other) (acyclic _ _ (.inl ⟨rfl, rfl⟩))
  · exact to_other.trans row on

theorem follow_goes (before : List String) {known : String → Prop} {a : Archive} {stack : List String}
    {inner : Archive → Listing → Except String Listing} {later : List String} {listing : Listing}
    (visits : ∀ dep ∈ env.catalogue.rows, ∀ listing after, Listed env root listing → (∀ s ∈ stack, s ∉ listing.seen) →
      dep.id ∉ listing.seen → inner dep listing = .ok after → Visited env root stack dep listing after)
    (goes : ∀ middle id rest dep listing, later = middle ++ id :: rest → ¬ Follows env known (before ++ middle) id →
      env.catalogue.get id = some dep → Listed env root listing → (∀ s ∈ stack, s ∉ listing.seen) →
      (∀ x, x ∈ listing.seen ↔ Follows env known (before ++ middle) x) → ∃ after, inner dep listing = .ok after)
    (good : ∀ middle id rest, later = middle ++ id :: rest → ¬ Follows env known (before ++ middle) id →
      GoodRef env root a id)
    (listed : Listed env root listing) (clear : ∀ s ∈ stack, s ∉ listing.seen)
    (covers : ∀ id, id ∈ listing.seen ↔ Follows env known before id) :
    ∃ after, later.foldlM (enter env root a inner) listing = .ok after := by
  induction later generalizing before listing with
  | nil => exact ⟨listing, rfl⟩
  | cons id later ih =>
    have shift (middle : List String) : before ++ id :: middle = before ++ [id] ++ middle := by
      rw [List.append_assoc, List.singleton_append]
    have rest {next : Listing} (listed : Listed env root next) (clear : ∀ s ∈ stack, s ∉ next.seen)
        (covers : ∀ x, x ∈ next.seen ↔ Follows env known (before ++ [id]) x) :
        ∃ after, later.foldlM (enter env root a inner) next = .ok after := by
      refine ih _ (fun middle k rest dep listing split new => ?_) (fun middle k rest split new => ?_) listed clear covers
      · rw [← shift] at new ⊢
        exact goes (id :: middle) k rest dep listing (by rw [split, List.cons_append]) new
      · rw [← shift] at new
        exact good (id :: middle) k rest (by rw [split, List.cons_append]) new
    rw [List.foldlM_cons]
    by_cases seen : id ∈ listing.seen
    · rw [enter, if_pos seen]
      exact rest listed clear (listed.again covers seen)
    · have new : ¬ Follows env known (before ++ []) id := by
        rw [List.append_nil, ← covers id]
        exact seen
      obtain ⟨hash, dep, recorded, checked, same⟩ := good [] id later rfl new
      obtain ⟨row, owned, digest⟩ := checkedArchive_ok env checked
      obtain rfl := Keyed.key_of_get row
      obtain ⟨mid, visited⟩ := goes [] _ later dep listing rfl new row listed clear (by rwa [List.append_nil])
      have entered := (enter_ok env root seen).mpr ⟨hash, dep, mid, recorded, checked, same, visited, rfl⟩
      have visited := visits dep (Keyed.get_eq_some.mp row).1 listing mid listed clear seen visited
      obtain ⟨listed', clear', covers'⟩ := visited.next row (digest ▸ checked) same covers
      rw [entered]
      exact rest listed' clear' covers'

/-- Without cycles a visit goes through where its checks do. -/
theorem visit_goes (acyclic : Acyclic env root) {known : String → Prop} {a : Archive}
    (passes : GoesThrough env root known a) {stack : List String} {listing : Listing} (stands : Stands env root a.id a)
    (path : ∀ s ∈ stack, ∃ b, Stands env root s b ∧ DependsOn env b a.id) (listed : Listed env root listing)
    (clear : ∀ s ∈ a.id :: stack, s ∉ listing.seen) (room : listing.out.length ≤ 100)
    (covers : ∀ id, id ∈ listing.seen ↔ known id) : ∃ after, visit env root stack a listing = .ok after := by
  induction passes generalizing stack listing with
  | @visit known a enters deeper ih =>
    have off : a.id ∉ stack := fun member => by
      obtain ⟨b, other, below⟩ := path _ member
      exact acyclic _ b other below
    rw [visit_eq, if_neg (not_or.mpr ⟨by omega, off⟩)]
    refine follow_goes [] (fun dep _ listing after listed clear own done => visit_visited listed clear own done)
      (fun middle id rest dep listing split new row listed clear covers => ?_)
      (fun middle id rest split new => (enters middle id rest split new).1) listed clear
      (fun id => (covers id).trans covered_nil.symm)
    obtain rfl := Keyed.key_of_get row
    rw [List.nil_append] at new covers
    have ref : DependsOn env a dep.id := .ref (split ▸ List.mem_append_right _ List.mem_cons_self)
    have few := (enters middle dep.id rest split new).2
    refine ih middle dep.id rest dep split new row (stands.row ref row) (fun s member => ?_) listed ?_ ?_ covers
    · rcases List.mem_cons.mp member with rfl | member
      · exact ⟨a, stands, ref⟩
      · obtain ⟨b, other, below⟩ := path s member
        exact ⟨b, other, other.through acyclic stands below ref⟩
    · exact List.forall_mem_cons.mpr ⟨fun there => new ((covers _).mp there), clear⟩
    · have count := few (listing.out.map Archive.id) listed.distinct fun id member =>
        (covers id).mp ((listed.seen id).mpr member)
      rwa [List.length_map] at count

end Complete

section Guarantees

variable (env : Env) (root : Archive)

/-- Every reference of the closure is to an archive of the owner and the visibility of the given one
whose payload has the digest the reference records, and nothing depends on itself. -/
structure WellFormed : Prop where
  refs : ∀ id a, Stands env root id a → ∀ k ∈ a.dependencies, GoodRef env root a k
  acyclic : Acyclic env root

structure ListsClosure (out : List Archive) : Prop where
  once : (out.map Archive.id).Nodup
  complete : ∀ id, id ∈ out.map Archive.id ↔ DependsOn env root id
  ordered : ∀ before dep after, out = before ++ dep :: after → ∀ id ∈ dep.dependencies, id ∈ before.map Archive.id
  owned : ∀ dep ∈ out,
    env.catalogue.get dep.id = some dep ∧ dep.createdBy = root.createdBy ∧ dep.visibility = root.visibility
  digests : ∀ id a, Stands env root id a → ∀ dep ∈ out, dep.id ∈ a.dependencies →
    a.dependencyHashes.lookup dep.id = some dep.sha256

structure AuthorizesClosure : Prop where
  listed : ∀ out, authorizedDependencies env root = .ok out → ListsClosure env root out
  refused : ¬ WellFormed env root → ∃ e, authorizedDependencies env root = .error e
  accepted : WellFormed env root → AtMost 100 (DependsOn env root) → ∃ out, authorizedDependencies env root = .ok out

/-- All archives of the closure record one digest for what they depend on. -/
def Agreed : Prop :=
  ∀ id a id' a', Stands env root id a → Stands env root id' a' → ∀ k, k ∈ a.dependencies → k ∈ a'.dependencies →
    a.dependencyHashes.lookup k = a'.dependencyHashes.lookup k

/-- Nothing depends on itself, and the checks that are made on first references, depth first, pass. -/
def FirstChecksPass : Prop := Acyclic env root ∧ GoesThrough env root (fun _ => False) root

variable {env root}

theorem Listed.before {listing : Listing} (listed : Listed env root listing) {before after : List Archive} {a : Archive}
    {k : String} (split : listing.out = before ++ a :: after) (below : DependsOn env a k) : k ∈ before.map Archive.id := by
  induction below generalizing before after with
  | ref here => exact listed.ordered before _ after split _ here
  | @through a b j l here found _ ih =>
    obtain ⟨d, member, rfl⟩ := List.mem_map.mp (listed.ordered before _ after split _ here)
    obtain ⟨front, back, rfl⟩ := List.append_of_mem member
    have own : d ∈ listing.out := by
      rw [split]
      exact List.mem_append_left _ member
    rw [(checkedArchive_ok env (listed.sound d own).1).1] at found
    cases found
    have early := ih (split.trans (by rw [List.append_assoc, List.cons_append]))
    rw [List.map_append]
    exact List.mem_append_left _ early

theorem authorized_ok {out : List Archive} (done : authorizedDependencies env root = .ok out) :
    ∃ listing, visit env root [] root {} = .ok listing ∧ listing.out = out := by
  unfold authorizedDependencies at done
  cases visited : visit env root [] root {} with
  | error e =>
    rw [visited] at done
    cases done
  | ok listing =>
    rw [visited] at done
    cases done
    exact ⟨listing, rfl, rfl⟩

theorem root_visited {listing : Listing} (done : visit env root [] root {} = .ok listing) :
    Visited env root [] root {} listing ∧ ∀ id, id ∈ listing.seen ↔ DependsOn env root id := by
  have visited := visit_visited Listed.empty (fun _ absent => absurd absent List.not_mem_nil) List.not_mem_nil done
  refine ⟨visited, fun id => (visited.covers id).trans (covered_refs.trans (or_iff_right ?_))⟩
  exact List.not_mem_nil

theorem acyclic_of_visit {listing : Listing} (done : visit env root [] root {} = .ok listing) : Acyclic env root := by
  obtain ⟨visited, all⟩ := root_visited done
  rintro id a (⟨rfl, rfl⟩ | ⟨reached, row⟩) below
  · exact visited.clear _ List.mem_cons_self ((all _).mpr below)
  · obtain ⟨dep, member, rfl, found⟩ := visited.listed.row ((all id).mpr reached)
    rw [row] at found
    cases found
    obtain ⟨before, after, split⟩ := List.append_of_mem member
    have early := visited.listed.before split below
    have distinct := visited.listed.distinct
    rw [split, List.map_append, List.map_cons] at distinct
    exact (List.nodup_append'.mp distinct).2.2 early List.mem_cons_self

theorem authorized_iff : (∃ out, authorizedDependencies env root = .ok out) ↔ FirstChecksPass env root := by
  constructor
  · rintro ⟨out, done⟩
    obtain ⟨listing, visited, -⟩ := authorized_ok done
    refine ⟨acyclic_of_visit visited, ?_⟩
    have none : (· ∈ ({} : Listing).seen) = fun _ => False := funext fun id => propext (iff_false_intro List.not_mem_nil)
    exact none ▸ (root_visited visited).1.passes
  · rintro ⟨acyclic, passes⟩
    have stands : Stands env root root.id root := .inl ⟨rfl, rfl⟩
    obtain ⟨after, done⟩ := visit_goes acyclic passes stands (fun _ absent => absurd absent List.not_mem_nil) Listed.empty
      (fun _ _ => List.not_mem_nil) (Nat.zero_le _) fun id => iff_false_intro List.not_mem_nil
    exact ⟨after.out, by rw [authorizedDependencies, done]; rfl⟩

/-- Where first references pass and all references agree, all of them pass. -/
theorem wellFormed_of_agreed (first : FirstChecksPass env root) (agreed : Agreed env root) : WellFormed env root where
  acyclic := first.1
  refs id a stands k ref := by
    have below : DependsOn env root k := stands.below (.ref ref)
    obtain ⟨c, place, member, hash, dep, recorded, rest⟩ := first.2.first closed_empty below not_false
    have other : ∃ j, Stands env root j c := by
      rcases place with rfl | ⟨j, between, row⟩
      · exact ⟨c.id, .inl ⟨rfl, rfl⟩⟩
      · exact ⟨j, .inr ⟨between, row⟩⟩
    obtain ⟨j, stands'⟩ := other
    exact ⟨hash, dep, (agreed _ a j c stands stands' k ref member).trans recorded, rest⟩

theorem wellFormed_passes (formed : WellFormed env root) (few : AtMost 100 (DependsOn env root)) :
    FirstChecksPass env root := by
  have stands : Stands env root root.id root := .inl ⟨rfl, rfl⟩
  refine ⟨formed.acyclic, Passes.of_good (env.catalogue.rows.map Archive.id) (fun k b found => ?_)
    (formed.refs _ root stands) (fun k b below row => formed.refs k b (.inr ⟨below, row⟩))
    (fun k b below row => formed.acyclic k b (.inr ⟨below, row⟩))
    (few.mono fun k either => either.resolve_left id)⟩
  obtain ⟨member, rfl⟩ := Keyed.get_eq_some.mp found
  exact List.mem_map_of_mem member

theorem listsClosure_of_formed {out : List Archive} (done : authorizedDependencies env root = .ok out)
    (formed : WellFormed env root) : ListsClosure env root out := by
  obtain ⟨listing, visited, rfl⟩ := authorized_ok done
  obtain ⟨visited, all⟩ := root_visited visited
  refine
    { once := visited.listed.distinct
      complete := fun id => (visited.listed.seen id).symm.trans (all id)
      ordered := visited.listed.ordered
      owned := fun dep member => ?_
      digests := fun id a stands dep member ref => ?_ }
  · obtain ⟨checked, same⟩ := visited.listed.sound dep member
    obtain ⟨row, owned, -⟩ := checkedArchive_ok env checked
    exact ⟨row, owned, same⟩
  · obtain ⟨hash, dep', recorded, checked, -⟩ := formed.refs id a stands dep.id ref
    have row := (checkedArchive_ok env (visited.listed.sound dep member).1).1
    obtain ⟨row', -, rfl⟩ := checkedArchive_ok env checked
    rw [row] at row'
    cases row'
    exact recorded

theorem authorizesClosure_iff (env : Env) (root : Archive) :
    AuthorizesClosure env root ↔ (FirstChecksPass env root → Agreed env root) := by
  constructor
  · intro claim first id a id' a' stands stands' k ref ref'
    obtain ⟨out, done⟩ := authorized_iff.mpr first
    have lists := claim.listed out done
    obtain ⟨dep, member, rfl⟩ := List.mem_map.mp ((lists.complete k).mpr (stands.below (.ref ref)))
    exact (lists.digests id a stands dep member ref).trans (lists.digests id' a' stands' dep member ref').symm
  · intro condition
    have formed {out : List Archive} (done : authorizedDependencies env root = .ok out) : WellFormed env root :=
      have first := authorized_iff.mp ⟨out, done⟩
      wellFormed_of_agreed first (condition first)
    refine
      { listed := fun out done => listsClosure_of_formed done (formed done)
        refused := fun broken => ?_
        accepted := fun formed few => authorized_iff.mpr (wellFormed_passes formed few) }
    cases done : authorizedDependencies env root with
    | error e => exact ⟨e, rfl⟩
    | ok out => exact absurd (formed done) broken

def digestOf (letter : Char) : String := String.ofList (List.replicate 64 letter)

def article : Archive := ⟨"x", "anna", "shared", digestOf 'a', "x.wacz", [], []⟩

/-- Depends on the article by a digest that is not the article's. -/
def stale : Archive := ⟨"y", "anna", "shared", digestOf 'b', "y.wacz", ["x"], [("x", digestOf 'c')]⟩

def parent : Archive :=
  ⟨"r", "anna", "shared", digestOf 'd', "r.wacz", ["x", "y"], [("x", digestOf 'a'), ("y", digestOf 'b')]⟩

def clashing : Env where
  catalogue := ⟨[article, stale, parent], by decide⟩
  custody :=
    { roots := fun _ => .directory
      files := fun _ name => .regular (.ok (if name = "x.wacz" then [1] else [2])) }
  sha256 content := if content = [1] then digestOf 'a' else digestOf 'b'

theorem clashing_not_authorized : ¬ AuthorizesClosure clashing parent := by
  intro claim
  have done : authorizedDependencies clashing parent = .ok [article, stale] := by decide +kernel
  have below : DependsOn clashing parent "y" := .ref (by decide)
  have recorded := (claim.listed _ done).digests "y" stale (.inr ⟨below, by decide +kernel⟩) article (by decide) (by decide)
  exact absurd recorded (by decide)

end Guarantees

end NixHomeServer.Browsertrix.Closure
