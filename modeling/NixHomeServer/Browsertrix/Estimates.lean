import NixHomeServer.Library.Checked
import NixHomeServer.Library.Keyed
import NixHomeServer.Library.Saturating

/-! The size that a capture is expected to take, from measured pages and from a stored sample. -/
namespace NixHomeServer.Browsertrix.Sizing

open NixHomeServer.Library

abbrev U64 := Fin (2 ^ 64)

def u64Max : Nat := 2 ^ 64 - 1

theorem le_u64Max (n : U64) : n.val ≤ u64Max := Nat.le_sub_one_of_lt n.isLt

structure DigestBytes where
  digest : String
  bytes : U64
  deriving DecidableEq, Repr

abbrev DigestMap := Keyed DigestBytes.digest

structure PageSample where
  url : String
  bytes : U64
  sharedBytes : U64
  resourceDigests : DigestMap
  measured : Bool

structure Estimate where
  measured : Bool := false
  lowerBytes : Nat := 0
  upperBytes : Nat := 0
  expectedBytes : Nat := 0
  samplePages : Nat := 0
  discoveredPages : Nat := 0
  unknownScope : Bool := false
  sharedBytes : Nat := 0
  marginalPageBytes : Nat := 0
  peakDiskBytes : Nat := 0
  assumptions : List String := []
  warnings : List String := []
  deriving DecidableEq, Repr

section Estimating

/-- How many samples have a digest, and the most bytes that one of them has under it. -/
structure DigestUse where
  digest : String
  count : Nat
  bytes : Nat
  deriving DecidableEq, Repr

abbrev DigestUses := Keyed DigestUse.digest

def DigestUses.note (digests : DigestUses) (entry : DigestBytes) : Checked Empty DigestUses := do
  let old := (digests.get entry.digest).getD ⟨entry.digest, 0, 0⟩
  let count ← .within (2 ^ 64) (old.count + 1)
  return digests.put ⟨entry.digest, count, max old.bytes entry.bytes⟩

def PageSample.marginal (shared : DigestUses) (sample : PageSample) : Nat :=
  let common := (sample.resourceDigests.rows.filter fun entry => (shared.get entry.digest).isSome).map fun entry => entry.bytes.val
  sample.bytes - max (satSum u64Max common) sample.sharedBytes

def unmeasuredAssumption : String :=
  "Discovery estimate only: no measured browser samples; stored/transfer/peak bytes are unknown"

def samplingWarning : String := "Run a bounded browser sampling job before choosing byte/disk budgets"

def samplesAssumption (samplePages target : Nat) : String :=
  "Browser-measured stored samples: " ++ toString samplePages ++
    "; shared payloads counted once; marginal median projected onto " ++ toString target ++ " bounded pages"

def rangeAssumption : String :=
  "Range is a heuristic, not a capture guarantee; transfer bytes are not measured by stored-byte samples; peak disk reserves 3x upper stored estimate for scratch and publication"

def scopeWarning : String :=
  "Discovered links do not bound a dynamic website; page/time/byte budgets remain mandatory"

def unboundedWarning : String :=
  "Unknown scope without a page bound: upper and peak bytes are unbounded (u64::MAX)"

def manyWarning : String := "Estimate uses at most 1024 measured samples"

/-- The samples that an estimate uses. -/
def measuredOf (samples : List PageSample) : List PageSample := (samples.filter PageSample.measured).take 1024

/-- The bytes that samples share, and in ascending order what each sample adds to them. -/
def measure (measured : List PageSample) : Checked Empty (Nat × List Nat) := do
  let digests ← (measured.flatMap fun sample => sample.resourceDigests.rows).foldlM DigestUses.note Keyed.empty
  let shared := digests.filter fun use => 1 < use.count
  let sharedBytes := satSum u64Max (shared.rows.map DigestUse.bytes)
  let sharedBytes := max sharedBytes ((measured.map fun sample => sample.sharedBytes.val).max?.getD 0)
  return (sharedBytes, ascending (measured.map (PageSample.marginal shared)))

def estimateSize (samples : List PageSample) (discoveredPages pageLimit : Nat) (unknownScope : Bool) : Checked Empty Estimate := do
  let measured := measuredOf samples
  let unbounded := pageLimit == 0 && unknownScope
  if measured.isEmpty then
    return {
      discoveredPages
      unknownScope
      upperBytes := u64Max
      peakDiskBytes := u64Max
      assumptions := [unmeasuredAssumption]
      warnings := [samplingWarning] }
  let (sharedBytes, marginal) ← measure measured
  let median ← .unwrap marginal[marginal.length / 2]?
  let known := max discoveredPages measured.length
  let cap := if pageLimit = 0 then known else pageLimit
  let target := min known cap
  let expectedBytes := satAdd u64Max sharedBytes (satMul u64Max median target)
  let least ← .unwrap marginal[0]?
  let lowerBytes := satAdd u64Max sharedBytes (satMul u64Max least target / 2)
  let upperPages := if unknownScope then cap else target
  let upperBytes ← if unbounded then pure u64Max else do
    let last ← .minus marginal.length 1
    let greatest ← .unwrap marginal[last]?
    pure (max (satAdd u64Max sharedBytes (satMul u64Max (satMul u64Max greatest upperPages) 2)) expectedBytes)
  return {
    discoveredPages
    unknownScope
    measured := true
    samplePages := measured.length
    sharedBytes
    marginalPageBytes := median
    expectedBytes
    lowerBytes
    upperBytes
    peakDiskBytes := satMul u64Max upperBytes 3
    assumptions := [samplesAssumption measured.length target, rangeAssumption]
    warnings := (if unknownScope then [scopeWarning] else []) ++ (if unbounded then [unboundedWarning] else []) ++
      if 1024 < samples.length then [manyWarning] else [] }

end Estimating

section Stored

structure PageRecord where
  url : String
  bytes : U64
  resourceUrls : List String

structure ResourceRecord where
  url : String
  bytes : U64
  digest : String
  pages : List String

structure ArchiveReport where
  archiveBytes : U64
  pages : List PageRecord
  resources : List ResourceRecord

/-- The largest payload under each key. -/
def DigestMap.keepLargest (digests : DigestMap) (entry : DigestBytes) : DigestMap :=
  digests.put (match digests.get entry.digest with
    | some old => ⟨entry.digest, max old.bytes entry.bytes⟩
    | none => entry)

def DigestMap.total (digests : DigestMap) : Nat := satSum u64Max (digests.rows.map fun entry => entry.bytes.val)

def ResourceRecord.key (resource : ResourceRecord) : String :=
  if resource.digest.isEmpty then "unknown-digest:" ++ resource.url else resource.digest

/-- Whether a resource counts for a page: its own document, or what it uses that is no page. -/
def ResourceRecord.servesPage (pageUrls : List String) (page : PageRecord) (resource : ResourceRecord) : Bool :=
  resource.url == page.url ||
    !pageUrls.contains resource.url && (resource.pages.contains page.url || page.resourceUrls.contains resource.url)

def ArchiveReport.sample (report : ArchiveReport) (page : PageRecord) : PageSample :=
  let pageUrls := report.pages.map PageRecord.url
  let resourceDigests := ((report.resources.filter (ResourceRecord.servesPage pageUrls page)).map fun resource =>
    ⟨resource.key, resource.bytes⟩).foldl DigestMap.keepLargest Keyed.empty
  let ownDocument := report.resources.any fun resource => resource.url == page.url
  let bytes := satAdd u64Max (DigestMap.total resourceDigests) (if ownDocument then 0 else page.bytes)
  { url := page.url
    bytes := ⟨bytes, Nat.lt_of_le_of_lt satAdd_le (by decide)⟩
    sharedBytes := 0
    resourceDigests
    measured := 0 < bytes }

def pageSamples (report : ArchiveReport) : List PageSample := (report.pages.take 20).map report.sample

def observedAssumption (archiveBytes known overhead : Nat) : String :=
  "Observed sample package " ++ toString archiveBytes ++ "B; distinct attributed resource spans " ++ toString known ++
    "B; measured unattributed/duplicate/ZIP/baseline overhead " ++ toString overhead ++
    "B. Each page includes its own document once plus distinct attributed assets."

def projectionAssumption (scale : Nat) : String :=
  "Overhead projection is uncertain: lower includes observed overhead once, expected scales it " ++ toString scale ++
    "x by target/sample pages, upper allows twice that projection. Stored samples do not measure network transfer."

def unattributedWarning (payloads bytes : Nat) : String :=
  toString payloads ++ " distinct resource payloads (" ++ toString bytes ++
    "B) have no sampled-page attribution, including possible dynamic API/XHR and browser baselines; counted conservatively in capture overhead, not silently omitted or assumed to be fixed shared assets."

def storedEstimate (report : ArchiveReport) (targetPages : Nat) : Checked Empty Estimate := do
  let samples := pageSamples report
  let targetPages := max targetPages samples.length
  let estimate ← estimateSize samples targetPages targetPages true
  if !estimate.measured then return estimate
  let attributed := (samples.flatMap fun sample => sample.resourceDigests.rows).foldl DigestMap.keepLargest Keyed.empty
  let known := DigestMap.total attributed
  let overhead := report.archiveBytes - known
  let unknown := ((report.resources.filter fun resource => (attributed.get resource.digest).isNone).map fun resource =>
    ⟨resource.digest, resource.bytes⟩).foldl DigestMap.keepLargest Keyed.empty
  let unattributed := DigestMap.total unknown
  let pages := max estimate.samplePages 1
  let scale := max ((targetPages + pages - 1) / pages) 1
  let lowerBytes := max (satAdd u64Max estimate.lowerBytes overhead) report.archiveBytes
  let expectedBytes := max (satAdd u64Max estimate.expectedBytes (satMul u64Max overhead scale)) report.archiveBytes
  let upperBytes := max (max (satAdd u64Max estimate.upperBytes (satMul u64Max (satMul u64Max overhead scale) 2)) expectedBytes)
    lowerBytes
  return { estimate with
    lowerBytes
    expectedBytes
    upperBytes
    peakDiskBytes := satMul u64Max upperBytes 3
    assumptions := estimate.assumptions ++ [observedAssumption report.archiveBytes known overhead, projectionAssumption scale]
    warnings := estimate.warnings ++ if unknown.rows.isEmpty then [] else [unattributedWarning unknown.rows.length unattributed] }

end Stored

section Measuring

variable {entries other : List DigestBytes} {digests : DigestUses} {measured samples : List PageSample}

/-- The use of a digest in some entries. -/
def useOf (entries : List DigestBytes) (digest : String) : DigestUse :=
  let own := (entries.filter fun entry => entry.digest = digest).map fun entry => entry.bytes.val
  ⟨digest, own.length, own.foldl max 0⟩

@[simp] theorem useOf_digest (entries : List DigestBytes) (digest : String) : (useOf entries digest).digest = digest := rfl

/-- The table holds the use of each digest that there is. -/
def Counted (entries : List DigestBytes) (digests : DigestUses) : Prop :=
  ∀ digest, digests.get digest = if (useOf entries digest).count = 0 then none else some (useOf entries digest)

theorem counted_empty : Counted [] Keyed.empty := fun _ => rfl

theorem useOf_append (entries : List DigestBytes) (entry : DigestBytes) (digest : String) :
    useOf (entries ++ [entry]) digest =
      if entry.digest = digest then ⟨digest, (useOf entries digest).count + 1, max (useOf entries digest).bytes entry.bytes⟩
      else useOf entries digest := by
  by_cases same : entry.digest = digest <;> simp [useOf, same]

theorem useOf_perm (perm : entries.Perm other) (digest : String) : useOf entries digest = useOf other digest := by
  have own := (perm.filter fun entry => entry.digest = digest).map fun entry => entry.bytes.val
  simp only [useOf, own.length_eq, foldl_max_perm own]

theorem Counted.getD (counted : Counted entries digests) (digest : String) :
    (digests.get digest).getD ⟨digest, 0, 0⟩ = useOf entries digest := by
  rw [counted digest]
  split
  · rename_i none
    have empty : (entries.filter fun entry => entry.digest = digest) = [] := by simpa [useOf] using none
    simp [useOf, empty]
  · rfl

theorem Counted.note (counted : Counted entries digests) (entry : DigestBytes) (few : (useOf entries entry.digest).count + 1 < 2 ^ 64) :
    ∃ after, digests.note entry = .returns after ∧ Counted (entries ++ [entry]) after := by
  refine ⟨digests.put (useOf (entries ++ [entry]) entry.digest), ?_, fun digest => ?_⟩
  · rw [useOf_append, if_pos rfl, DigestUses.note]
    simp only [counted.getD, Checked.within_of_lt few]
    rfl
  · rw [Keyed.get_put, useOf_digest]
    by_cases same : entry.digest = digest
    · subst same
      rw [if_pos rfl, useOf_append, if_pos rfl]
      rfl
    · rw [if_neg same, useOf_append entries entry digest, if_neg same]
      exact counted digest

theorem useOf_count_le (entries later : List DigestBytes) (digest : String) :
    (useOf entries digest).count ≤ (useOf (entries ++ later) digest).count := by
  simp [useOf]

theorem Counted.foldlM (counted : Counted entries digests) (later : List DigestBytes)
    (few : ∀ digest, (useOf (entries ++ later) digest).count < 2 ^ 64) :
    ∃ after, later.foldlM DigestUses.note digests = .returns after ∧ Counted (entries ++ later) after := by
  induction later generalizing entries digests with
  | nil => exact ⟨digests, rfl, by rwa [List.append_nil]⟩
  | cons entry later ih =>
    have split : entries ++ entry :: later = entries ++ [entry] ++ later := by rw [List.append_assoc, List.singleton_append]
    have small : (useOf entries entry.digest).count + 1 < 2 ^ 64 := by
      have bound := useOf_count_le (entries ++ [entry]) later entry.digest
      have total := few entry.digest
      rw [useOf_append, if_pos rfl] at bound
      rw [split] at total
      exact Nat.lt_of_le_of_lt bound total
    obtain ⟨next, noted, counted⟩ := counted.note entry small
    obtain ⟨after, done, counted⟩ := ih counted (split ▸ few)
    refine ⟨after, ?_, split ▸ counted⟩
    rw [List.foldlM_cons, noted]
    exact done

def entriesOf (measured : List PageSample) : List DigestBytes := measured.flatMap fun sample => sample.resourceDigests.rows

/-- Each sample has a digest once at most. -/
theorem useOf_entries_le (measured : List PageSample) (digest : String) :
    (useOf (entriesOf measured) digest).count ≤ measured.length := by
  induction measured with
  | nil => exact Nat.le_refl 0
  | cons sample measured ih =>
    have once : (sample.resourceDigests.rows.filter fun entry => entry.digest = digest).length ≤ 1 := by
      have single := List.nodup_iff_count_le_one.mp sample.resourceDigests.distinct digest
      rw [List.count, List.countP_map, List.countP_eq_length_filter] at single
      simpa only [Function.comp_def, beq_eq_decide] using single
    simp only [useOf, entriesOf, List.length_map, List.flatMap_cons, List.filter_append, List.length_append,
      List.length_cons] at ih ⊢
    omega

/-- What is measured of the samples, from the table of their digests. -/
def measuredFrom (digests : DigestUses) (measured : List PageSample) : Nat × List Nat :=
  let shared := digests.filter fun use => 1 < use.count
  (max (satSum u64Max (shared.rows.map DigestUse.bytes)) ((measured.map fun sample => sample.sharedBytes.val).max?.getD 0),
    ascending (measured.map (PageSample.marginal shared)))

theorem measure_returns (few : measured.length ≤ 1024) :
    ∃ digests, Counted (entriesOf measured) digests ∧ measure measured = .returns (measuredFrom digests measured) := by
  obtain ⟨digests, done, counted⟩ := counted_empty.foldlM (entriesOf measured) fun digest =>
    Nat.lt_of_le_of_lt (useOf_entries_le measured digest) (by omega)
  refine ⟨digests, counted, ?_⟩
  unfold entriesOf at done
  rw [measure, done]
  rfl

theorem marginal_congr {shared other : DigestUses} (alike : ∀ digest, shared.get digest = other.get digest) :
    PageSample.marginal shared = PageSample.marginal other := by
  funext sample
  simp only [PageSample.marginal, alike]

/-- The order of the samples changes nothing that is measured. -/
theorem measure_perm {measured' : List PageSample} (perm : measured.Perm measured') (few : measured.length ≤ 1024) :
    measure measured = measure measured' := by
  obtain ⟨digests, counted, done⟩ := measure_returns few
  obtain ⟨digests', counted', done'⟩ := measure_returns (perm.length_eq ▸ few)
  have together : (entriesOf measured).Perm (entriesOf measured') := perm.flatMap_right _
  have same (digest : String) : digests.get digest = digests'.get digest := by
    rw [counted, counted', useOf_perm together digest]
  have shared (digest : String) : (digests.filter fun use => 1 < use.count).get digest =
      (digests'.filter fun use => 1 < use.count).get digest := by
    rw [Keyed.get_filter, Keyed.get_filter, same]
  rw [done, done']
  unfold measuredFrom
  dsimp only
  rw [marginal_congr shared, ascending_congr (perm.map _), largest_perm (perm.map _),
    satSum_perm ((Keyed.rows_perm shared).map DigestUse.bytes)]

end Measuring

section Projecting

/-- What measured samples say: the bytes that they share, and the least, the middle and the greatest that one adds. -/
structure Figures where
  samplePages : Nat
  sharedBytes : Nat
  least : Nat
  median : Nat
  greatest : Nat
  ordered : least ≤ median ∧ median ≤ greatest
  fit : sharedBytes ≤ u64Max ∧ greatest ≤ u64Max

def capOf (known pageLimit : Nat) : Nat := if pageLimit = 0 then known else pageLimit

def targetOf (known pageLimit : Nat) : Nat := min known (capOf known pageLimit)

variable (figures : Figures) (discoveredPages pageLimit : Nat) (unknownScope : Bool)

def Figures.known : Nat := max discoveredPages figures.samplePages

def Figures.target : Nat := targetOf (figures.known discoveredPages) pageLimit

def Figures.expectedBytes : Nat :=
  satAdd u64Max figures.sharedBytes (satMul u64Max figures.median (figures.target discoveredPages pageLimit))

def Figures.lowerBytes : Nat :=
  satAdd u64Max figures.sharedBytes (satMul u64Max figures.least (figures.target discoveredPages pageLimit) / 2)

def Figures.upperBytes : Nat :=
  if pageLimit == 0 && unknownScope then u64Max
  else
    let upperPages := if unknownScope then capOf (figures.known discoveredPages) pageLimit else figures.target discoveredPages pageLimit
    max (satAdd u64Max figures.sharedBytes (satMul u64Max (satMul u64Max figures.greatest upperPages) 2))
      (figures.expectedBytes discoveredPages pageLimit)

/-- The estimate from what was measured. -/
def Figures.estimate (samples : List PageSample) : Estimate where
  discoveredPages := discoveredPages
  unknownScope := unknownScope
  measured := true
  samplePages := figures.samplePages
  sharedBytes := figures.sharedBytes
  marginalPageBytes := figures.median
  expectedBytes := figures.expectedBytes discoveredPages pageLimit
  lowerBytes := figures.lowerBytes discoveredPages pageLimit
  upperBytes := figures.upperBytes discoveredPages pageLimit unknownScope
  peakDiskBytes := satMul u64Max (figures.upperBytes discoveredPages pageLimit unknownScope) 3
  assumptions := [samplesAssumption figures.samplePages (figures.target discoveredPages pageLimit), rangeAssumption]
  warnings := (if unknownScope then [scopeWarning] else []) ++
    (if pageLimit == 0 && unknownScope then [unboundedWarning] else []) ++ if 1024 < samples.length then [manyWarning] else []

def unmeasured : Estimate where
  discoveredPages := discoveredPages
  unknownScope := unknownScope
  upperBytes := u64Max
  peakDiskBytes := u64Max
  assumptions := [unmeasuredAssumption]
  warnings := [samplingWarning]

variable {figures discoveredPages pageLimit unknownScope} {samples : List PageSample}

theorem marginal_le (shared : DigestUses) (sample : PageSample) : sample.marginal shared ≤ u64Max :=
  (Nat.sub_le _ _).trans (le_u64Max sample.bytes)

theorem measuredOf_length (samples : List PageSample) : (measuredOf samples).length ≤ 1024 := List.length_take_le _ _

theorem estimateSize_unmeasured (none : measuredOf samples = []) :
    estimateSize samples discoveredPages pageLimit unknownScope = .returns (unmeasured discoveredPages unknownScope) := by
  simp only [estimateSize, none]
  rfl

theorem measure_fits (few : samples.length ≤ 1024) : ∃ sharedBytes values, measure samples = .returns (sharedBytes, ascending values) ∧
    sharedBytes ≤ u64Max ∧ (∀ value ∈ values, value ≤ u64Max) ∧ values.length = samples.length := by
  obtain ⟨digests, -, done⟩ := measure_returns few
  refine ⟨_, _, done, max_le (satSum_le _) (largest_le fun value member => ?_), fun value member => ?_, List.length_map _⟩
  · obtain ⟨sample, -, rfl⟩ := List.mem_map.mp member
    exact le_u64Max _
  · obtain ⟨sample, -, rfl⟩ := List.mem_map.mp member
    exact marginal_le _ sample

/-- Measured samples have figures, whatever is asked of them. -/
theorem estimateSize_measured (some : measuredOf samples ≠ []) : ∃ figures : Figures, ∀ discoveredPages pageLimit unknownScope,
    estimateSize samples discoveredPages pageLimit unknownScope =
      .returns (figures.estimate discoveredPages pageLimit unknownScope samples) := by
  obtain ⟨sharedBytes, values, done, shared, each, length⟩ := measure_fits (measuredOf_length samples)
  have filled : 0 < (ascending values).length := by
    rw [(ascending_perm values).length_eq, length]
    exact List.length_pos_iff.mpr some
  have middle : (ascending values).length / 2 < (ascending values).length := Nat.div_lt_self filled (by decide)
  have final : (ascending values).length - 1 < (ascending values).length := Nat.sub_lt filled Nat.one_pos
  have top := each _ ((ascending_perm values).mem_iff.mp (List.getElem_mem final))
  refine ⟨⟨(measuredOf samples).length, sharedBytes, (ascending values)[0], (ascending values)[(ascending values).length / 2],
    (ascending values)[(ascending values).length - 1],
    ⟨ascending_le (Nat.zero_le _) middle, ascending_le (by omega) final⟩, shared, top⟩,
    fun discoveredPages pageLimit unknownScope => ?_⟩
  have last : (Checked.minus (ascending values).length 1 : Checked Empty Nat) = .returns ((ascending values).length - 1) := if_pos filled
  rw [estimateSize, if_neg (by simpa using some), done]
  simp only [Checked.returns_bind, List.getElem?_eq_getElem middle, List.getElem?_eq_getElem filled,
    List.getElem?_eq_getElem final, last, Checked.unwrap_some]
  by_cases unbounded : (pageLimit == 0 && unknownScope) = true
  · simp only [Figures.estimate, Figures.upperBytes, unbounded, if_true]
    rfl
  · simp only [Figures.estimate, Figures.upperBytes, unbounded, Bool.false_eq_true, if_false]
    rfl

section Order

theorem Figures.lower_le_expected : figures.lowerBytes discoveredPages pageLimit ≤ figures.expectedBytes discoveredPages pageLimit := by
  have product : satMul u64Max figures.least (figures.target discoveredPages pageLimit) ≤
      satMul u64Max figures.median (figures.target discoveredPages pageLimit) := satMul_mono figures.ordered.1 (Nat.le_refl _)
  exact satAdd_mono (Nat.le_refl _) (by omega)

theorem Figures.expected_le_upper :
    figures.expectedBytes discoveredPages pageLimit ≤ figures.upperBytes discoveredPages pageLimit unknownScope := by
  unfold Figures.upperBytes
  split
  · exact satAdd_le
  · exact Nat.le_max_right _ _

theorem Figures.upper_fits : figures.upperBytes discoveredPages pageLimit unknownScope ≤ u64Max := by
  unfold Figures.upperBytes
  split
  · exact Nat.le_refl _
  · exact max_le satAdd_le satAdd_le

variable {discoveredPages' pageLimit' : Nat}

/-- A limit grows, from a positive one on. -/
def Grows (pageLimit pageLimit' : Nat) : Prop := pageLimit = pageLimit' ∨ 0 < pageLimit ∧ pageLimit ≤ pageLimit'

theorem capOf_mono {known known' : Nat} (more : known ≤ known') (grows : Grows pageLimit pageLimit') :
    capOf known pageLimit ≤ capOf known' pageLimit' := by
  unfold capOf
  rcases grows with rfl | ⟨positive, larger⟩
  · split <;> omega
  · rw [if_neg (by omega), if_neg (by omega)]
    exact larger

theorem Figures.target_mono (more : discoveredPages ≤ discoveredPages') (grows : Grows pageLimit pageLimit') :
    figures.target discoveredPages pageLimit ≤ figures.target discoveredPages' pageLimit' := by
  have known : figures.known discoveredPages ≤ figures.known discoveredPages' := by
    unfold Figures.known
    omega
  exact le_min (Nat.min_le_left _ _ |>.trans known) ((Nat.min_le_right _ _).trans (capOf_mono known grows))

theorem Figures.expected_mono (more : discoveredPages ≤ discoveredPages') (grows : Grows pageLimit pageLimit') :
    figures.expectedBytes discoveredPages pageLimit ≤ figures.expectedBytes discoveredPages' pageLimit' :=
  satAdd_mono (Nat.le_refl _) (satMul_mono (Nat.le_refl _) (figures.target_mono more grows))

theorem Figures.lower_mono (more : discoveredPages ≤ discoveredPages') (grows : Grows pageLimit pageLimit') :
    figures.lowerBytes discoveredPages pageLimit ≤ figures.lowerBytes discoveredPages' pageLimit' :=
  satAdd_mono (Nat.le_refl _) (Nat.div_le_div_right (satMul_mono (Nat.le_refl _) (figures.target_mono more grows)))

theorem Figures.upper_mono (more : discoveredPages ≤ discoveredPages') (grows : Grows pageLimit pageLimit') :
    figures.upperBytes discoveredPages pageLimit unknownScope ≤ figures.upperBytes discoveredPages' pageLimit' unknownScope := by
  have known : figures.known discoveredPages ≤ figures.known discoveredPages' := by
    unfold Figures.known
    omega
  have same : (pageLimit == 0) = (pageLimit' == 0) := by
    rcases grows with rfl | ⟨positive, larger⟩
    · rfl
    · rw [beq_false_of_ne (by omega), beq_false_of_ne (by omega)]
  unfold Figures.upperBytes
  rw [same]
  split
  · exact Nat.le_refl _
  · refine max_le_max (satAdd_mono (Nat.le_refl _) (satMul_mono (satMul_mono (Nat.le_refl _) ?_) (Nat.le_refl _)))
      (figures.expected_mono more grows)
    split
    · exact capOf_mono known grows
    · exact figures.target_mono more grows

end Order

section Claims

/-- The bytes of an estimate stand in order, and all of them fit. -/
def Estimate.Ordered (estimate : Estimate) : Prop :=
  estimate.lowerBytes ≤ estimate.expectedBytes ∧ estimate.expectedBytes ≤ estimate.upperBytes ∧
    estimate.upperBytes ≤ estimate.peakDiskBytes ∧ estimate.peakDiskBytes ≤ u64Max ∧
    estimate.sharedBytes ≤ u64Max ∧ estimate.marginalPageBytes ≤ u64Max

/-- No number of bytes is less in the one than in the other. -/
def Estimate.Below (one other : Estimate) : Prop :=
  one.lowerBytes ≤ other.lowerBytes ∧ one.expectedBytes ≤ other.expectedBytes ∧ one.upperBytes ≤ other.upperBytes ∧
    one.peakDiskBytes ≤ other.peakDiskBytes

theorem Figures.estimate_ordered : (figures.estimate discoveredPages pageLimit unknownScope samples).Ordered :=
  ⟨figures.lower_le_expected, figures.expected_le_upper, le_satMul figures.upper_fits (by decide), satMul_le, figures.fit.1,
    figures.ordered.2.trans figures.fit.2⟩

theorem unmeasured_ordered : (unmeasured discoveredPages unknownScope).Ordered := by
  unfold Estimate.Ordered unmeasured
  simp

theorem estimateSize_ordered (samples : List PageSample) (discoveredPages pageLimit : Nat) (unknownScope : Bool) :
    ∃ estimate, estimateSize samples discoveredPages pageLimit unknownScope = .returns estimate ∧ estimate.Ordered := by
  by_cases none : measuredOf samples = []
  · exact ⟨_, estimateSize_unmeasured none, unmeasured_ordered⟩
  · obtain ⟨figures, returns⟩ := estimateSize_measured none
    exact ⟨_, returns _ _ _, figures.estimate_ordered⟩

theorem estimateSize_mono (samples : List PageSample) {discoveredPages discoveredPages' pageLimit pageLimit' : Nat} (unknownScope : Bool)
    (more : discoveredPages ≤ discoveredPages') (grows : Grows pageLimit pageLimit') :
    ∃ estimate estimate', estimateSize samples discoveredPages pageLimit unknownScope = .returns estimate ∧
      estimateSize samples discoveredPages' pageLimit' unknownScope = .returns estimate' ∧ estimate.Below estimate' := by
  by_cases none : measuredOf samples = []
  · exact ⟨_, _, estimateSize_unmeasured none, estimateSize_unmeasured none, Nat.le_refl _, Nat.le_refl _, Nat.le_refl _, Nat.le_refl _⟩
  · obtain ⟨figures, returns⟩ := estimateSize_measured none
    have upper : figures.upperBytes discoveredPages pageLimit unknownScope ≤
        figures.upperBytes discoveredPages' pageLimit' unknownScope := figures.upper_mono more grows
    exact ⟨_, _, returns _ _ _, returns _ _ _, figures.lower_mono more grows, figures.expected_mono more grows, upper,
      satMul_mono upper (Nat.le_refl _)⟩

/-- The order of at most as many samples as are used changes nothing. -/
theorem estimateSize_perm {samples other : List PageSample} (perm : samples.Perm other)
    (few : (samples.filter PageSample.measured).length ≤ 1024) (discoveredPages pageLimit : Nat) (unknownScope : Bool) :
    estimateSize samples discoveredPages pageLimit unknownScope = estimateSize other discoveredPages pageLimit unknownScope := by
  have kept := perm.filter PageSample.measured
  have all : measuredOf samples = samples.filter PageSample.measured := List.take_of_length_le few
  have all' : measuredOf other = other.filter PageSample.measured := List.take_of_length_le (kept.length_eq ▸ few)
  have measured : (measuredOf samples).Perm (measuredOf other) := by rwa [all, all']
  have empty : (measuredOf samples).isEmpty = (measuredOf other).isEmpty := measured.isEmpty_eq
  rw [estimateSize, estimateSize, empty, measure_perm measured (measuredOf_length samples), measured.length_eq, perm.length_eq]

theorem measuredOf_eq_nil : measuredOf samples = [] ↔ ∀ sample ∈ samples, sample.measured = false := by
  rw [measuredOf, List.take_eq_nil_iff, or_iff_right (by decide), List.filter_eq_nil_iff]
  simp

/-- The figures of a sample with a measured page, with the overhead of its package. -/
theorem storedEstimate_measured (report : ArchiveReport) (targetPages : Nat) (some : ∃ sample ∈ pageSamples report, sample.measured = true) :
    ∃ estimate, storedEstimate report targetPages = .returns estimate ∧ estimate.Ordered ∧
      report.archiveBytes ≤ estimate.lowerBytes := by
  have filled : measuredOf (pageSamples report) ≠ [] := fun none => by
    obtain ⟨sample, member, measured⟩ := some
    rw [measuredOf_eq_nil.mp none sample member] at measured
    cases measured
  obtain ⟨figures, returns⟩ := estimateSize_measured filled
  rw [storedEstimate, returns]
  refine ⟨_, rfl, ?_, Nat.le_max_right _ _⟩
  have archive := le_u64Max report.archiveBytes
  refine ⟨max_le_max (satAdd_mono figures.lower_le_expected (le_satMul ((Nat.sub_le _ _).trans archive) ?_)) (Nat.le_refl _),
    (Nat.le_max_right _ _).trans (Nat.le_max_left _ _),
    le_satMul (max_le (max_le satAdd_le (max_le satAdd_le archive)) (max_le satAdd_le archive)) (by decide), satMul_le,
    figures.fit.1, figures.ordered.2.trans figures.fit.2⟩
  exact Nat.le_max_right _ _

theorem storedEstimate_unmeasured (report : ArchiveReport) (targetPages : Nat)
    (none : ∀ sample ∈ pageSamples report, sample.measured = false) :
    storedEstimate report targetPages =
      .returns (unmeasured (max targetPages (pageSamples report).length) true) := by
  rw [storedEstimate, estimateSize_unmeasured (measuredOf_eq_nil.mpr none)]
  rfl

def unvisited : ArchiveReport := ⟨100, [], []⟩

/-- The estimates of a stored sample without a measured page are less than its archive. -/
theorem unvisited_estimate : ∃ estimate, storedEstimate unvisited 1 = .returns estimate ∧ estimate.lowerBytes < unvisited.archiveBytes ∧
    estimate.expectedBytes < unvisited.archiveBytes :=
  ⟨_, storedEstimate_unmeasured unvisited 1 (fun _ member => nomatch member), by decide, by decide⟩

/-- Estimates return in order within their range. They do not decrease as more pages are known or allowed, and the order of
the samples does not matter. With a measured page, a stored sample is estimated at its archive's bytes at least. Without one
its estimate says that nothing is known. -/
theorem estimates_ordered :
    (∀ samples discoveredPages pageLimit unknownScope,
      ∃ estimate, estimateSize samples discoveredPages pageLimit unknownScope = .returns estimate ∧ estimate.Ordered) ∧
    (∀ samples discoveredPages discoveredPages' pageLimit pageLimit' unknownScope, discoveredPages ≤ discoveredPages' →
      Grows pageLimit pageLimit' → ∃ estimate estimate', estimateSize samples discoveredPages pageLimit unknownScope = .returns estimate ∧
        estimateSize samples discoveredPages' pageLimit' unknownScope = .returns estimate' ∧ estimate.Below estimate') ∧
    (∀ samples other discoveredPages pageLimit unknownScope, samples.Perm other → (samples.filter PageSample.measured).length ≤ 1024 →
      estimateSize samples discoveredPages pageLimit unknownScope = estimateSize other discoveredPages pageLimit unknownScope) ∧
    ∀ report targetPages, ∃ estimate, storedEstimate report targetPages = .returns estimate ∧ estimate.Ordered ∧
      ((∃ sample ∈ pageSamples report, sample.measured = true) → report.archiveBytes ≤ estimate.lowerBytes) ∧
      ((∀ sample ∈ pageSamples report, sample.measured = false) →
        estimate = unmeasured (max targetPages (pageSamples report).length) true) := by
  refine ⟨estimateSize_ordered, fun samples _ _ _ _ unknownScope more grows => estimateSize_mono samples unknownScope more grows,
    fun samples other d l u perm few => estimateSize_perm perm few d l u, fun report targetPages => ?_⟩
  by_cases some : ∃ sample ∈ pageSamples report, sample.measured = true
  · obtain ⟨estimate, done, ordered, covers⟩ := storedEstimate_measured report targetPages some
    refine ⟨estimate, done, ordered, fun _ => covers, fun none => ?_⟩
    obtain ⟨sample, member, measured⟩ := some
    rw [none sample member] at measured
    cases measured
  · have none : ∀ sample ∈ pageSamples report, sample.measured = false := by simpa using some
    exact ⟨_, storedEstimate_unmeasured report targetPages none, unmeasured_ordered, fun some' => absurd some' some, fun _ => rfl⟩

def visited : ArchiveReport := ⟨100, [⟨"page", 10, []⟩], []⟩

theorem estimates_ordered_visited : (∃ sample ∈ pageSamples visited, sample.measured = true) ∧
    ∃ estimate, storedEstimate visited 1 = .returns estimate ∧ estimate.Ordered ∧
      ((∃ sample ∈ pageSamples visited, sample.measured = true) → visited.archiveBytes ≤ estimate.lowerBytes) ∧
      ((∀ sample ∈ pageSamples visited, sample.measured = false) → estimate = unmeasured (max 1 (pageSamples visited).length) true) :=
  ⟨⟨_, List.mem_singleton_self _, by decide⟩, estimates_ordered.2.2.2 visited 1⟩

end Claims

end Projecting

end NixHomeServer.Browsertrix.Sizing
