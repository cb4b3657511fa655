import NixHomeServer.MediaManager.Artwork

/-! When the walk up the directories and the ranking of all rows choose alike. -/
namespace NixHomeServer.MediaManager.Artwork

open NixHomeServer.Library

section Directories

theorem slash_of_between {x : Char} (low : ¬ x < '/') (high : x < '0') : x = '/' := by
  have below : 47 ≤ x.val.toNat := Nat.not_lt.mp low
  have above : x.val.toNat < 48 := high
  have value : x.val.toNat = 47 := by omega
  exact Char.ext (UInt32.toNat_inj.mp value)

/-- What lies from `directory/` up to below `directory0` starts with the former. -/
theorem starts_of_range {d path : Path} (low : ¬ path < d ++ ['/']) (high : path < d ++ ['0']) :
    ∃ name, path = d ++ '/' :: name := by
  induction d generalizing path with
  | nil =>
    cases path with
    | nil => exact absurd (List.nil_lt_cons _ _) low
    | cons x rest =>
      simp only [List.nil_append, List.cons_lt_cons_iff, List.not_lt_nil, and_false, or_false] at low high
      exact ⟨rest, congrArg (· :: rest) (slash_of_between low high)⟩
  | cons c d ih =>
    cases path with
    | nil => exact absurd (List.nil_lt_cons _ _) low
    | cons x rest =>
      simp only [List.cons_append, List.cons_lt_cons_iff, not_or, not_and] at low high
      rcases high with below | ⟨rfl, below⟩
      · exact absurd below low.1
      · obtain ⟨name, rfl⟩ := ih (low.2 rfl) below
        exact ⟨name, rfl⟩

theorem range_of_starts (d name : Path) : ¬ d ++ '/' :: name < d ++ ['/'] ∧ d ++ '/' :: name < d ++ ['0'] := by
  induction d with
  | nil => simp [List.cons_lt_cons_iff]
  | cons c d ih => simpa [List.cons_lt_cons_iff] using ih

/-- A row is found in the directory that is its parent. -/
theorem inDirectory_iff {directory path : Path} (relative : path.head? ≠ some '/') :
    inDirectory directory path = true ↔ parentOf path = directory := by
  rw [inDirectory, parentOf]
  split
  · rename_i root
    subst root
    rw [decide_eq_true_eq, ← cutAtLast_eq_none]
    cases cut : cutAtLast '/' path with
    | none => simp
    | some parts =>
      obtain ⟨parent, name⟩ := parts
      obtain ⟨rfl, -⟩ := cutAtLast_eq_some.mp cut
      have deeper : parent ≠ [] := by
        rintro rfl
        exact relative rfl
      simpa using deeper
  · rename_i deeper
    simp only [Bool.and_eq_true, decide_eq_true_eq]
    constructor
    · rintro ⟨⟨low, high⟩, flat⟩
      obtain ⟨name, rfl⟩ := starts_of_range (not_lt.mpr low) high
      have rest : (directory ++ '/' :: name).drop (directory ++ ['/']).length = name := by
        rw [show directory ++ '/' :: name = (directory ++ ['/']) ++ name by simp, List.drop_left]
      rw [rest] at flat
      rw [cutAtLast_eq_some.mpr ⟨rfl, flat⟩]
      rfl
    · intro parent
      cases cut : cutAtLast '/' path with
      | none =>
        rw [cut] at parent
        exact absurd parent.symm deeper
      | some parts =>
        obtain ⟨before, name⟩ := parts
        rw [cut] at parent
        obtain rfl : before = directory := parent
        obtain ⟨rfl, flat⟩ := cutAtLast_eq_some.mp cut
        refine ⟨(range_of_starts before name).imp_left not_lt.mp, ?_⟩
        rwa [show before ++ '/' :: name = (before ++ ['/']) ++ name by simp, List.drop_left]

end Directories

/-- Rows that the ranking leaves in. -/
def eligible (rows : List CatalogItem) : List CatalogItem :=
  rows.filter fun row => !isSupplementalArtwork row.relativePath

def Named (rows : List CatalogItem) (targetPath : Path) (directory : Path) : Prop :=
  ∃ row ∈ rows, parentOf row.relativePath = directory ∧
    artworkNameMatched row.relativePath (artworkTargetStem targetPath) = true

def Occupied (rows : List CatalogItem) (directory : Path) : Prop := ∃ row ∈ rows, parentOf row.relativePath = directory

/-- The nearest directory of the chain where a name matches leads; where no name matches in any of
them, the nearest that has a row. -/
def Leads (rows : List CatalogItem) (targetPath directory : Path) : Prop :=
  Nearest (artworkAncestorChain targetPath) (Named rows targetPath) directory ∨
    ((∀ d ∈ artworkAncestorChain targetPath, ¬ Named rows targetPath d) ∧
      Nearest (artworkAncestorChain targetPath) (Occupied rows) directory)

section Leading

variable {rows : List CatalogItem} {targetPath d e : Path}

theorem Leads.unique (first : Leads rows targetPath d) (second : Leads rows targetPath e) : d = e := by
  rcases first with named | ⟨unnamed, occupied⟩ <;> rcases second with named' | ⟨unnamed', occupied'⟩
  · exact named.unique named'
  · exact absurd named.here (unnamed' d named.mem)
  · exact absurd named'.here (unnamed e named'.mem)
  · exact occupied.unique occupied'

theorem Leads.occupied (leads : Leads rows targetPath d) : d ∈ artworkAncestorChain targetPath ∧ Occupied rows d := by
  rcases leads with named | ⟨-, occupied⟩
  · obtain ⟨row, member, parent, -⟩ := named.here
    exact ⟨named.mem, row, member, parent⟩
  · exact ⟨occupied.mem, occupied.here⟩

end Leading

section Walk

variable {level : Path → List CatalogItem} {stem : List Char}

/-- The walk gives the first directory with a matched name, or else what it fell back on first. -/
theorem resolveFrom_eq (chain : List Path) (fallback : Option (List CatalogItem)) :
    resolveFrom level stem chain fallback =
      match chain.find? fun d => (level d).any fun row => artworkNameMatched row.relativePath stem with
      | some d => level d
      | none => (fallback.or ((chain.find? fun d => level d ≠ []).map level)).getD [] := by
  induction chain generalizing fallback with
  | nil => cases fallback <;> rfl
  | cons d rest ih =>
    rw [resolveFrom]
    by_cases empty : level d = []
    · rw [if_pos empty, ih]
      simp [empty]
    · rw [if_neg empty]
      by_cases named : (level d).any (fun row => artworkNameMatched row.relativePath stem) = true
      · simp only [List.find?_cons, named, if_true]
      · simp only [ih, List.find?_cons, Bool.not_eq_true _ ▸ named, ne_eq, empty, not_false_eq_true,
          decide_true, Bool.false_eq_true, if_false]
        cases fallback <;> rfl

end Walk

section Agreement

variable {catalog : List CatalogItem} {rootId : String} {owner : Option String} {targetPath : Path}

theorem mem_artworkInDirectory {row : CatalogItem} {directory : Path} :
    row ∈ artworkInDirectory catalog rootId owner directory ↔
      row ∈ artworkRows catalog rootId owner ∧ parentOf row.relativePath = directory := by
  rw [artworkInDirectory, List.mem_mergeSort, List.mem_filter, inDirectory_iff row.relative]

theorem resolve_cases (catalog : List CatalogItem) (rootId : String) (owner : Option String) (targetPath : Path) :
    (∃ d, Leads (artworkRows catalog rootId owner) targetPath d ∧
      resolveArtworkCandidates catalog rootId owner targetPath = artworkInDirectory catalog rootId owner d) ∨
    ((∀ d ∈ artworkAncestorChain targetPath, ¬ Occupied (artworkRows catalog rootId owner) d) ∧
      resolveArtworkCandidates catalog rootId owner targetPath = []) := by
  have named : ∀ d, ((artworkInDirectory catalog rootId owner d).any fun row =>
      artworkNameMatched row.relativePath (artworkTargetStem targetPath)) = true ↔
        Named (artworkRows catalog rootId owner) targetPath d := by
    intro d
    simp only [List.any_eq_true, mem_artworkInDirectory, Named, and_assoc]
  have occupied : ∀ d, decide (artworkInDirectory catalog rootId owner d ≠ []) = true ↔
      Occupied (artworkRows catalog rootId owner) d := by
    intro d
    rw [decide_eq_true_eq, ← List.isEmpty_eq_false_iff, List.isEmpty_eq_false_iff_exists_mem]
    simp only [mem_artworkInDirectory, Occupied]
  rw [resolveArtworkCandidates, resolveFrom_eq]
  cases first : (artworkAncestorChain targetPath).find? fun d => (artworkInDirectory catalog rootId owner d).any
      fun row => artworkNameMatched row.relativePath (artworkTargetStem targetPath) with
  | some d => exact .inl ⟨d, .inl (nearest_of_find? named first), rfl⟩
  | none =>
    have unnamed : ∀ d ∈ artworkAncestorChain targetPath, ¬ Named (artworkRows catalog rootId owner) targetPath d :=
      fun d member found => List.find?_eq_none.mp first d member ((named d).mpr found)
    cases second : (artworkAncestorChain targetPath).find? fun d => artworkInDirectory catalog rootId owner d ≠ [] with
    | some d => exact .inl ⟨d, .inr ⟨unnamed, nearest_of_find? occupied second⟩, rfl⟩
    | none => exact .inr ⟨fun d member found => List.find?_eq_none.mp second d member ((occupied d).mpr found), rfl⟩

theorem mem_candidates {items : List CatalogItem} {candidate : CatalogItem} {distance : Nat} :
    (candidate, distance) ∈ candidates items targetPath ↔
      candidate ∈ items ∧ candidate.mediaKind = .artwork ∧ isSupplementalArtwork candidate.relativePath = false ∧
        (artworkAncestorChain targetPath).findIdx? (· = parentOf candidate.relativePath) = some distance := by
  rw [candidates, List.mem_filterMap]
  constructor
  · rintro ⟨row, member, kept⟩
    split at kept
    · cases kept
    · rename_i plain
      obtain ⟨k, found, same⟩ := Option.map_eq_some_iff.mp kept
      cases same
      rw [not_or, not_not, Bool.not_eq_true] at plain
      exact ⟨member, plain.1, plain.2, found⟩
  · rintro ⟨member, artwork, plain, found⟩
    exact ⟨candidate, member, by rw [if_neg (by simp [artwork, plain]), found]; rfl⟩

theorem exists_findIdx? {chain : List Path} {p : Path} (member : p ∈ chain) :
    ∃ k, chain.findIdx? (· = p) = some k := by
  cases found : chain.findIdx? (· = p) with
  | none => exact absurd (List.findIdx?_eq_none_iff.mp found p member) (by simp)
  | some k => exact ⟨k, rfl⟩

theorem nearer_of_findIdx? {chain : List Path} {p : Path} {k : Nat} (found : chain.findIdx? (· = p) = some k) :
    ∃ nearer farther, chain = nearer ++ p :: farther ∧ ∀ e ∈ nearer, ∃ j < k, chain.findIdx? (· = e) = some j := by
  obtain ⟨inside, here, -⟩ := List.findIdx?_eq_some_iff_getElem.mp found
  obtain rfl : chain[k] = p := by simpa using here
  refine ⟨chain.take k, chain.drop (k + 1), by rw [← List.drop_eq_getElem_cons inside, List.take_append_drop], ?_⟩
  intro e member
  obtain ⟨i, below, rfl⟩ := List.mem_take_iff_getElem.mp member
  have there : chain[i] ∈ chain := List.getElem_mem _
  obtain ⟨j, first⟩ := exists_findIdx? there
  obtain ⟨_, -, before⟩ := List.findIdx?_eq_some_iff_getElem.mp first
  refine ⟨j, Nat.lt_of_not_le fun late => ?_, first⟩
  exact before i (by omega) (by simp)

theorem flag_le {stem : List Char} {a b : CatalogItem × Nat} (le : rank stem a ≤ rank stem b) :
    (artworkNameMatched b.1.relativePath stem = true → artworkNameMatched a.1.relativePath stem = true) ∧
      (artworkNameMatched a.1.relativePath stem = artworkNameMatched b.1.relativePath stem → a.2 ≤ b.2) := by
  simp only [rank, Prod.Lex.toLex_le_toLex, artworkNameMatched, decide_eq_true_eq, decide_eq_decide] at le ⊢
  split at le <;> split at le <;> simp_all
  all_goals exact le.elim le_of_lt fun same => le_of_eq same.1

section Winner

variable {rows : List CatalogItem} {row : CatalogItem} {distance : Nat}

theorem candidate_of_eligible (artwork : ∀ row ∈ rows, row.mediaKind = .artwork) (member : row ∈ eligible rows)
    (place : (artworkAncestorChain targetPath).findIdx? (· = parentOf row.relativePath) = some distance) :
    (row, distance) ∈ candidates rows targetPath := by
  obtain ⟨inside, plain⟩ := List.mem_filter.mp member
  exact mem_candidates.mpr ⟨inside, artwork row inside, by simpa using plain, place⟩

/-- The row that the ranking takes is in the directory that leads among the eligible rows. -/
theorem winner_leads (artwork : ∀ row ∈ rows, row.mediaKind = .artwork)
    (found : (candidates rows targetPath).argmin (rank (artworkTargetStem targetPath)) = some (row, distance)) :
    Leads (eligible rows) targetPath (parentOf row.relativePath) := by
  obtain ⟨member, -, plain, place⟩ := mem_candidates.mp (List.argmin_mem found)
  obtain ⟨nearer, farther, chain, before⟩ := nearer_of_findIdx? place
  have inside : row ∈ eligible rows := List.mem_filter.mpr ⟨member, by rw [plain]; rfl⟩
  have least : ∀ other ∈ eligible rows, ∀ k,
      (artworkAncestorChain targetPath).findIdx? (· = parentOf other.relativePath) = some k →
        rank (artworkTargetStem targetPath) (row, distance) ≤ rank (artworkTargetStem targetPath) (other, k) :=
    fun other there k at_k => List.le_of_mem_argmin (candidate_of_eligible artwork there at_k) found
  by_cases matched : artworkNameMatched row.relativePath (artworkTargetStem targetPath) = true
  · refine .inl ⟨nearer, farther, chain, ⟨row, inside, rfl, matched⟩, ?_⟩
    rintro e closer ⟨other, there, rfl, matched'⟩
    obtain ⟨k, below, at_k⟩ := before _ closer
    have le := (flag_le (least other there k at_k)).2 (matched.trans matched'.symm)
    exact absurd below (Nat.not_lt.mpr le)
  · have unmatched : ∀ other ∈ eligible rows, parentOf other.relativePath ∈ artworkAncestorChain targetPath →
        artworkNameMatched other.relativePath (artworkTargetStem targetPath) = false := by
      intro other there on_chain
      obtain ⟨k, at_k⟩ := exists_findIdx? on_chain
      exact Bool.not_eq_true _ ▸ fun matched' => matched ((flag_le (least other there k at_k)).1 matched')
    refine .inr ⟨?_, nearer, farther, chain, ⟨row, inside, rfl⟩, ?_⟩
    · rintro d on_chain ⟨other, there, rfl, matched'⟩
      exact absurd matched' (by rw [unmatched other there on_chain]; exact Bool.false_ne_true)
    · rintro e closer ⟨other, there, rfl⟩
      obtain ⟨k, below, at_k⟩ := before _ closer
      have on_chain : parentOf other.relativePath ∈ artworkAncestorChain targetPath :=
        chain ▸ List.mem_append_left _ closer
      have same := (Bool.not_eq_true _ ▸ matched : _ = false).trans (unmatched other there on_chain).symm
      exact absurd below (Nat.not_lt.mpr ((flag_le (least other there k at_k)).2 same))

theorem not_occupied_of_no_winner (artwork : ∀ row ∈ rows, row.mediaKind = .artwork)
    (none : (candidates rows targetPath).argmin (rank (artworkTargetStem targetPath)) = none) :
    ∀ d ∈ artworkAncestorChain targetPath, ¬ Occupied (eligible rows) d := by
  rintro d on_chain ⟨row, member, rfl⟩
  obtain ⟨k, at_k⟩ := exists_findIdx? on_chain
  have there := candidate_of_eligible artwork member at_k
  rw [List.argmin_eq_none.mp none] at there
  exact absurd there List.not_mem_nil

end Winner

theorem artwork_of_artworkRows : ∀ row ∈ artworkRows catalog rootId owner, row.mediaKind = .artwork := fun _ member =>
  (of_decide_eq_true (List.mem_filter.mp member).2).2.1

theorem path_of_rank_eq {stem : List Char} {a b : CatalogItem × Nat} (same : rank stem a = rank stem b) :
    a.1.relativePath = b.1.relativePath := by
  simp only [rank, toLex_inj, Prod.mk.injEq] at same
  exact same.2.2.2

/-- Rows of one path stand in a directory's rows as they stand in the catalogue. -/
theorem filter_artworkInDirectory (path : Path) (relative : path.head? ≠ some '/') :
    (artworkInDirectory catalog rootId owner (parentOf path)).filter (fun row => row.relativePath = path) =
      (artworkRows catalog rootId owner).filter fun row => row.relativePath = path := by
  rw [artworkInDirectory, filter_mergeSort]
  · rw [List.filter_filter]
    refine List.filter_congr fun row _ => ?_
    by_cases same : row.relativePath = path
    · simp [same, (inDirectory_iff relative).mpr rfl]
    · simp [same]
  · intro a b c
    simpa using le_trans
  · intro a b
    simpa using le_total a.relativePath b.relativePath
  · intro a _ b _ here there
    simp only [decide_eq_true_eq] at here there
    simp [here, there]

theorem filter_candidates {items : List CatalogItem} {stem : List Char} (m : CatalogItem × Nat) :
    ((candidates items targetPath).filter fun c => rank stem c = rank stem m) =
      (candidates (items.filter fun row => row.relativePath = m.1.relativePath) targetPath).filter
        fun c => rank stem c = rank stem m := by
  rw [candidates, candidates, List.filterMap_filter, List.filter_filterMap, List.filter_filterMap]
  refine List.filterMap_congr fun row _ => ?_
  by_cases same : row.relativePath = m.1.relativePath
  · simp [same]
  · simp only [same, decide_false, Bool.false_eq_true, if_false, Option.filter_none]
    rw [Option.filter_eq_none_iff]
    intro c made
    split at made
    · cases made
    · obtain ⟨k, -, rfl⟩ := Option.map_eq_some_iff.mp made
      simpa using fun equal => same (path_of_rank_eq equal)

/-- The rows of the winner's directory have the same winner. -/
theorem preferred_of_level {row : CatalogItem} {distance : Nat}
    (found : (candidates (artworkRows catalog rootId owner) targetPath).argmin (rank (artworkTargetStem targetPath)) =
      some (row, distance)) :
    preferredArtwork (artworkInDirectory catalog rootId owner (parentOf row.relativePath)) targetPath = some row := by
  have part : (candidates (artworkInDirectory catalog rootId owner (parentOf row.relativePath)) targetPath).argmin
      (rank (artworkTargetStem targetPath)) = some (row, distance) := by
    refine argmin_of_part found (fun c member => ?_) ?_
    · obtain ⟨inside, rest⟩ := mem_candidates.mp member
      exact mem_candidates.mpr ⟨(mem_artworkInDirectory.mp inside).1, rest⟩
    · rw [filter_candidates, filter_artworkInDirectory _ row.relative, ← filter_candidates]
  rw [preferredArtwork, part]
  rfl

theorem mem_of_preferred {items : List CatalogItem} {row : CatalogItem}
    (taken : preferredArtwork items targetPath = some row) : row ∈ items := by
  obtain ⟨⟨_, distance⟩, found, rfl⟩ := Option.map_eq_some_iff.mp taken
  exact (mem_candidates.mp (List.argmin_mem found)).1

theorem preferred_eq_none {items rows : List CatalogItem} (inside : ∀ row ∈ items, row ∈ rows)
    (none : preferredArtwork rows targetPath = .none) : preferredArtwork items targetPath = .none := by
  rw [preferredArtwork, Option.map_eq_none_iff, List.argmin_eq_none] at none ⊢
  refine List.eq_nil_iff_forall_not_mem.mpr fun c member => ?_
  obtain ⟨there, rest⟩ := mem_candidates.mp member
  have lost : c ∈ candidates rows targetPath := mem_candidates.mpr ⟨inside _ there, rest⟩
  exact List.not_mem_nil (none ▸ lost)

/-- Both choices are one if and only if no row of the chain is eligible, or one directory leads among all
rows and among the eligible ones. -/
theorem preferred_agree_iff (catalog : List CatalogItem) (rootId : String) (owner : Option String) (targetPath : Path) :
    preferredArtwork (resolveArtworkCandidates catalog rootId owner targetPath) targetPath =
        preferredArtwork (artworkRows catalog rootId owner) targetPath ↔
      (∀ d ∈ artworkAncestorChain targetPath, ¬ Occupied (eligible (artworkRows catalog rootId owner)) d) ∨
        ∃ d, Leads (artworkRows catalog rootId owner) targetPath d ∧
          Leads (eligible (artworkRows catalog rootId owner)) targetPath d := by
  cases found : (candidates (artworkRows catalog rootId owner) targetPath).argmin
      (rank (artworkTargetStem targetPath)) with
  | none =>
    have nothing : preferredArtwork (artworkRows catalog rootId owner) targetPath = none := by
      rw [preferredArtwork, found]
      rfl
    have inside : ∀ row ∈ resolveArtworkCandidates catalog rootId owner targetPath,
        row ∈ artworkRows catalog rootId owner := by
      rcases resolve_cases catalog rootId owner targetPath with ⟨d, -, same⟩ | ⟨-, same⟩
      · exact fun row member => (mem_artworkInDirectory.mp (same ▸ member)).1
      · exact fun row member => absurd (same ▸ member) List.not_mem_nil
    rw [nothing, preferred_eq_none inside nothing]
    exact iff_of_true rfl (.inl (not_occupied_of_no_winner artwork_of_artworkRows found))
  | some winner =>
    obtain ⟨row, distance⟩ := winner
    have best : preferredArtwork (artworkRows catalog rootId owner) targetPath = some row := by
      rw [preferredArtwork, found]
      rfl
    have leads := winner_leads artwork_of_artworkRows found
    rw [best]
    constructor
    · intro taken
      rcases resolve_cases catalog rootId owner targetPath with ⟨d, all, same⟩ | ⟨-, same⟩
      · rw [same] at taken
        obtain rfl := (mem_artworkInDirectory.mp (mem_of_preferred taken)).2
        exact .inr ⟨_, all, leads⟩
      · rw [same] at taken
        cases taken
    · rintro (nothing | ⟨d, all, eligible⟩)
      · exact absurd leads.occupied.2 (nothing _ leads.occupied.1)
      · obtain rfl := leads.unique eligible
        rcases resolve_cases catalog rootId owner targetPath with ⟨e, all', same⟩ | ⟨empty, -⟩
        · obtain rfl := all.unique all'
          rw [same]
          exact preferred_of_level found
        · exact absurd all.occupied.2 (empty _ all.occupied.1)

end Agreement

def artworkAt (path : String) (relative : path.toList.head? ≠ some '/') : CatalogItem :=
  ⟨path, "films", none, path.toList, .artwork, 1, 1, "", relative⟩

/-- The fan art of the season hides the cover of the show. -/
theorem fanart_hides_cover :
    preferredArtwork (resolveArtworkCandidates
        [artworkAt "Show/S1/fanart.jpg" (by decide), artworkAt "Show/cover.jpg" (by decide)] "films" none
        "Show/S1/e.mkv".toList) "Show/S1/e.mkv".toList ≠
      preferredArtwork (artworkRows
        [artworkAt "Show/S1/fanart.jpg" (by decide), artworkAt "Show/cover.jpg" (by decide)] "films" none)
        "Show/S1/e.mkv".toList := by
  decide +kernel

end NixHomeServer.MediaManager.Artwork
