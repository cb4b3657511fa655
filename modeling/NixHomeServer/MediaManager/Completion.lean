import NixHomeServer.MediaManager.Phases

/-! An execution that nothing disturbs completes the replacement from every phase
but the one where the original is back beside an installed replacement. -/
namespace NixHomeServer.MediaManager

open NixHomeServer.Library

section Alone

variable {α β : Type} {post : α → World → Prop}

theorem alone_pure (a : α) (w : World) (met : post a w) :
    Prog.Safe alone (Prog.succeeds post) (pure a : Broker α).run w := by
  rintro _ rfl
  exact ⟨a, rfl, met⟩

theorem alone_call {op : Op} {f : Reply op → Broker α} {w : World}
    {post : Except BrokerError α → World → Prop}
    (next : ∀ now, Prog.Safe alone post (f (answer now w op).2).run (answer now w op).1) :
    Prog.Safe alone post (call op >>= f).run w := by
  rintro _ rfl
  refine ⟨trivial, ?_⟩
  intro c clean
  change Prog.Safe alone post (f (perform c w op).2).run (perform c w op).1
  rw [perform_clean c w op clean]
  exact next c.now

theorem alone_bind {x : Broker α} {f : α → Broker β} {w : World} {post' : β → World → Prop}
    (first : Prog.Safe alone (Prog.succeeds post) x.run w)
    (next : ∀ a w', post a w' → Prog.Safe alone (Prog.succeeds post') (f a).run w') :
    Prog.Safe alone (Prog.succeeds post') (x >>= f).run w :=
  Prog.Safe.followed first next

/-- A part that returns one value and leaves the world as it is. -/
def Returns (x : Broker α) (w : World) (a : α) : Prop :=
  Prog.Safe alone (Prog.succeeds fun r w' => r = a ∧ w' = w) x.run w

theorem Returns.bind {x : Broker α} {f : α → Broker β} {w : World} {a : α} {post' : β → World → Prop}
    (first : Returns x w a) (next : Prog.Safe alone (Prog.succeeds post') (f a).run w) :
    Prog.Safe alone (Prog.succeeds post') (x >>= f).run w := by
  apply alone_bind first
  rintro r w' ⟨rfl, rfl⟩
  exact next

theorem openRoot_alone {root : Root} {w : World} (there : w.nodes ⟨root, []⟩ = some .directory) :
    Returns (openRoot root) w ⟨root, []⟩ := by
  apply alone_call
  intro now
  simp only [answer, there]
  exact alone_pure _ w ⟨rfl, rfl⟩

theorem openDirectoryChain_alone (create : Bool) (components : List String) (current : Place) (w : World)
    (there : ∀ start, start <+: components → start ≠ [] →
      w.nodes ⟨current.root, current.path ++ start⟩ = some .directory) :
    Returns (openDirectoryChain create components current) w
      ⟨current.root, current.path ++ components⟩ := by
  induction components generalizing current with
  | nil =>
    apply alone_pure
    rw [List.append_nil]
    exact ⟨rfl, rfl⟩
  | cons component rest ih =>
    apply alone_call
    intro now
    have first := there [component] (List.prefix_append [component] rest) (by simp)
    change w.nodes (current.child component) = some .directory at first
    simp only [answer, first]
    have onward := ih (current.child component) (by
      intro start within some_
      rw [Place.child, List.append_assoc]
      exact there _ ((List.prefix_append_right_inj [component]).mpr within) (by simp))
    rw [Place.child, List.append_assoc] at onward
    exact onward

theorem fingerprintOptionalAt_none {place : Place} {w : World} (absent : w.nodes place = none) :
    Returns (fingerprintOptionalAt place) w none := by
  apply alone_call
  intro now
  simp only [answer, absent]
  exact alone_pure _ w ⟨rfl, rfl⟩

theorem fingerprintOptionalAt_file {place : Place} {w : World} {f : File}
    (there : w.nodes place = some (.file f)) :
    Returns (fingerprintOptionalAt place) w (some (fingerprintFromStat f)) := by
  apply alone_call
  intro now
  simp only [answer, there]
  exact alone_pure _ w ⟨rfl, rfl⟩

theorem fileStat_alone {place : Place} {w : World} {f : File} (there : w.nodes place = some (.file f)) :
    Returns (fileStat place) w f := by
  apply alone_call
  intro now
  simp only [answer, there]
  exact alone_pure _ w ⟨rfl, rfl⟩

theorem openRegularAt_alone {place : Place} {w : World} {f : File}
    (there : w.nodes place = some (.file f)) : Returns (openRegularAt place) w () := by
  apply alone_call
  intro now
  simp only [answer, there]
  apply (fileStat_alone there).bind
  apply alone_pure
  exact ⟨trivial, rfl⟩

theorem syncDirectory_alone (dir : Place) (w : World) : Returns (syncDirectory dir) w () := by
  apply alone_call
  intro now
  apply alone_pure
  exact ⟨rfl, rfl⟩

theorem unlinkRegularAt_alone {place : Place} {w : World} {f : File}
    (there : w.nodes place = some (.file f)) :
    Prog.Safe alone (Prog.succeeds fun _ w' => w' = w.unlink place) (unlinkRegularAt place).run w := by
  apply (openRegularAt_alone there).bind
  apply (fileStat_alone there).bind
  apply alone_call
  intro now
  simp only [answer, there]
  exact alone_pure _ _ rfl

theorem renameNoreplace_alone {place target : Place} {operation : String} {w : World} {n : Node}
    (there : w.nodes place = some n) (free : w.nodes target = none) :
    Prog.Safe alone (Prog.succeeds fun _ w' => w' = w.rename place target)
      (renameNoreplace place target operation).run w := by
  apply alone_call
  intro now
  simp only [answer, there, free]
  exact alone_pure _ _ rfl

/-- With a free name among those it tries, a temporary file is made. -/
theorem createTemporaryFile_alone (dir : Place) (pid tries sequence : Nat) (w : World)
    (free : ∃ k, k < tries ∧ w.nodes (dir.child (temporaryName pid (sequence + k))) = none) :
    Prog.Safe alone
      (Prog.succeeds fun temporary w' => (∃ k, temporary = dir.child (temporaryName pid k)) ∧
        w.nodes temporary = none ∧ (∃ now, w'.nodes temporary = some (.file ⟨[], now⟩)) ∧
        ∀ p, p ≠ temporary → w'.nodes p = w.nodes p)
      (createTemporaryFile dir pid tries sequence).run w := by
  induction tries generalizing sequence with
  | zero =>
    obtain ⟨k, bound, _⟩ := free
    omega
  | succ tries ih =>
    apply alone_call
    intro now
    rcases answer_create now w (dir.child (temporaryName pid sequence)) with ⟨reply, taken⟩ | ⟨reply, absent⟩
    · rw [reply]
      apply ih
      obtain ⟨k, bound, absent⟩ := free
      cases k with
      | zero => exact absurd absent taken
      | succ k => exact ⟨k, by omega, by rw [show sequence + 1 + k = sequence + (k + 1) by omega]; exact absent⟩
    · rw [reply]
      exact alone_pure _ _ ⟨⟨sequence, rfl⟩, absent, ⟨now, set_self w _ _⟩,
        fun p other => set_other w _ _ _ other⟩

theorem appendAll_alone (temporary : Place) (blocks : List Bytes) (w : World) (f : File)
    (there : w.nodes temporary = some (.file f)) :
    Prog.Safe alone
      (Prog.succeeds fun _ w' => ∃ now,
        w'.nodes temporary = some (.file ⟨f.content ++ blocks.flatten, now⟩) ∧
        w'.scratch = w.scratch ∧ ∀ p, p ≠ temporary → w'.nodes p = w.nodes p)
      (appendAll temporary blocks).run w := by
  induction blocks generalizing w f with
  | nil =>
    apply alone_pure
    refine ⟨f.modified, ?_, rfl, fun _ _ => rfl⟩
    rw [List.flatten_nil, List.append_nil]
    exact there
  | cons block rest ih =>
    apply alone_call
    intro now
    have written : answer now w (.append temporary block) =
        (w.set temporary (some (.file ⟨f.content ++ block, now⟩)), .ok ()) := by
      simp only [answer, torn, there]
    rw [written]
    apply (ih _ ⟨f.content ++ block, now⟩ (set_self w temporary _)).mono
    rintro r w' ⟨_, rfl, later, found, mine, others⟩
    rw [List.append_assoc] at found
    exact ⟨_, rfl, later, found, mine, fun p other => (others p other).trans (set_other w _ _ _ other)⟩

theorem copyStaged_alone (blocks : Blocks) (staged temporary : Place) (source : File) (w : World) (now : Int)
    (there : w.nodes temporary = some (.file ⟨[], now⟩)) (known : w.nodes staged = some (.file source)) :
    Prog.Safe alone
      (Prog.succeeds fun _ w' => w'.nodes temporary = some (.file source) ∧ w'.scratch = w.scratch ∧
        ∀ p, p ≠ temporary → w'.nodes p = w.nodes p)
      (copyStaged blocks staged temporary source).run w := by
  apply alone_call
  intro _
  simp only [answer, known]
  apply alone_bind (appendAll_alone temporary (blocks.cut source.content) w _ there)
  rintro _ w₁ ⟨later, found, mine, others⟩
  rw [List.nil_append, blocks.whole] at found
  apply alone_call
  intro _
  simp only [answer, found]
  apply alone_call
  intro _
  exact alone_pure _ _ ⟨set_self w₁ temporary _, mine,
    fun p other => (set_other w₁ _ _ _ other).trans (others p other)⟩

end Alone

section Completing

variable {config : Config} {username : String} {a : ReplaceArtworkAction} {l : Layout}
  {original staged : File}

/-- The original is archived, the replacement installed and the staged file removed. -/
def Done (l : Layout) (original staged : File) (w : World) : Prop :=
  w.nodes l.archive = some (.file original) ∧ w.nodes l.replacement = some (.file staged) ∧
    w.nodes l.staged = none

theorem Settled.root {w : World} (settled : Settled l original staged w) :
    w.nodes ⟨.library, []⟩ = some .directory := settled.parents [] (List.nil_prefix ..)

theorem Settled.opens_parent {w : World} (settled : Settled l original staged w) :
    Returns (openDirectoryChain false l.parent ⟨.library, []⟩) w l.dir :=
  openDirectoryChain_alone false l.parent ⟨.library, []⟩ w fun start within _ => settled.parents start within

theorem Settled.opens_superseded {w : World} (settled : Settled l original staged w) (create : Bool)
    (made : w.nodes l.superseded = some .directory) :
    Returns (openDirectoryChain create (l.parent ++ ["superseded"]) ⟨.library, []⟩) w l.superseded := by
  apply openDirectoryChain_alone create (l.parent ++ ["superseded"]) ⟨.library, []⟩ w
  intro start within _
  rcases List.prefix_concat_iff.mp within with rfl | shorter
  · exact made
  · exact settled.parents start shorter

/-- A chain whose last component is missing is refused or made. -/
theorem openDirectoryChain_missing (create : Bool) (components : List String) (leaf : String)
    (current : Place) (w : World)
    (there : ∀ start, start <+: components → start ≠ [] →
      w.nodes ⟨current.root, current.path ++ start⟩ = some .directory)
    (missing : w.nodes ⟨current.root, current.path ++ (components ++ [leaf])⟩ = none) :
    Prog.Safe alone
      (fun r w' => if create then r = .ok ⟨current.root, current.path ++ (components ++ [leaf])⟩ ∧
          w' = w.set ⟨current.root, current.path ++ (components ++ [leaf])⟩ (some .directory)
        else (∃ e, r = .error e) ∧ w' = w)
      (openDirectoryChain create (components ++ [leaf]) current).run w := by
  induction components generalizing current with
  | nil =>
    change w.nodes (current.child leaf) = none at missing
    apply alone_call
    intro now
    simp only [answer, missing]
    cases create with
    | false =>
      rintro _ rfl
      exact ⟨⟨_, rfl⟩, rfl⟩
    | true =>
      apply alone_call
      intro now
      simp only [answer, missing]
      apply alone_call
      intro now
      simp only [answer, set_self]
      rintro _ rfl
      exact ⟨rfl, rfl⟩
  | cons component rest ih =>
    apply alone_call
    intro now
    have first := there [component] (List.prefix_append [component] rest) (by simp)
    change w.nodes (current.child component) = some .directory at first
    simp only [answer, first]
    have shifted : ∀ tail : List String, (⟨(current.child component).root,
        (current.child component).path ++ tail⟩ : Place) = ⟨current.root, current.path ++ component :: tail⟩ := by
      intro tail
      rw [Place.child, List.append_assoc]
      rfl
    have onward := ih (current.child component) (by
      intro start within some_
      rw [shifted]
      exact there _ ((List.prefix_append_right_inj [component]).mpr within) (by simp)) (by
      rw [shifted]
      exact missing)
    rw [shifted] at onward
    exact onward

theorem ofOk_alone {α β : Type} {x : Except BrokerError α} {v : α} {f : α → Broker β} {w : World}
    {post : Except BrokerError β → World → Prop} (known : x = .ok v)
    (next : Prog.Safe alone post (f v).run w) : Prog.Safe alone post (ofOk x >>= f).run w := by
  rw [known]
  exact next

theorem attempt_alone {α β : Type} {x : Broker α} {f : Except BrokerError α → Broker β} {w : World}
    {mid : Except BrokerError α → World → Prop} {post : Except BrokerError β → World → Prop}
    (part : Prog.Safe alone mid x.run w)
    (next : ∀ r w', mid r w' → Prog.Safe alone post (f r).run w') :
    Prog.Safe alone post (attempt x >>= f).run w := by
  have mapped : Prog.Safe alone (fun r w' => ∃ a, r = .ok a ∧ mid a w') (attempt x).run w :=
    Prog.Safe.map _ part fun r w' met => ⟨r, rfl, met⟩
  apply Prog.Safe.bind mapped
  rintro _ w' ⟨r, rfl, met⟩
  exact next r w' met

variable {category : LibraryCategory}

/-- Without the archive nothing is recovered. -/
theorem recover_unfinished (parsed : Parsed a l)
    (known : resolveRoot config username a.rootId "artwork root ID is not registered" = .ok category)
    {w : World} (settled : Settled l original staged w)
    (unfinished : w.nodes l.archive = none ∨
      (w.nodes l.archive = some (.file original) ∧ w.nodes l.replacement = none)) :
    Returns (recoverReplacedFile config username a) w false := by
  unfold recoverReplacedFile
  apply ofOk_alone known
  apply ofOk_alone parsed.archive
  apply ofOk_alone parsed.replacement
  apply (openRoot_alone settled.root).bind
  rcases settled.superseded with missing | made
  · apply attempt_alone (openDirectoryChain_missing false l.parent "superseded" ⟨.library, []⟩ w
      (fun start within _ => settled.parents start within) missing)
    rintro r w' ⟨⟨e, rfl⟩, rfl⟩
    exact alone_pure _ w' ⟨rfl, rfl⟩
  · apply attempt_alone (settled.opens_superseded false made)
    rintro r w' ⟨_, rfl, rfl, rfl⟩
    apply settled.opens_parent.bind
    rcases unfinished with absent | ⟨there, absent⟩
    · apply (fingerprintOptionalAt_none absent).bind
      rw [if_pos (by simp)]
      exact alone_pure _ _ ⟨rfl, rfl⟩
    · apply (fingerprintOptionalAt_file there).bind
      split
      · exact alone_pure _ _ ⟨rfl, rfl⟩
      · apply (fingerprintOptionalAt_none absent).bind
        rw [if_pos (by simp)]
        exact alone_pure _ _ ⟨rfl, rfl⟩

/-- A completed replacement is recovered, and its staged file removed. -/
theorem recover_complete (parsed : Parsed a l)
    (known : resolveRoot config username a.rootId "artwork root ID is not registered" = .ok category)
    (source : fingerprintFromStat original = a.expectedSource)
    (replacement : fingerprintFromStat staged = a.expectedReplacement)
    {w : World} (settled : Settled l original staged w)
    (archived : w.nodes l.archive = some (.file original))
    (installed : w.nodes l.replacement = some (.file staged))
    (left : w.nodes l.staged = none ∨ w.nodes l.staged = some (.file staged)) :
    Prog.Safe alone (Prog.succeeds fun r w' => r = true ∧ Done l original staged w')
      (recoverReplacedFile config username a).run w := by
  unfold recoverReplacedFile
  apply ofOk_alone known
  apply ofOk_alone parsed.archive
  apply ofOk_alone parsed.replacement
  apply (openRoot_alone settled.root).bind
  apply attempt_alone (settled.opens_superseded false (settled.archived _ archived))
  rintro r w' ⟨_, rfl, rfl, rfl⟩
  apply settled.opens_parent.bind
  apply (fingerprintOptionalAt_file archived).bind
  rw [if_neg (by simp [source])]
  apply (fingerprintOptionalAt_file installed).bind
  rw [if_neg (by simp [replacement])]
  apply (openRoot_alone settled.staging).bind
  have place : (Place.mk .staging []).child a.stagingFilename = l.staged := by
    rw [Layout.staged, parsed.staging]
    rfl
  rw [place]
  rcases left with absent | there
  · apply (fingerprintOptionalAt_none absent).bind
    exact alone_pure _ _ ⟨rfl, archived, installed, absent⟩
  · apply (fingerprintOptionalAt_file there).bind
    simp only [replacement, ↓reduceIte]
    apply alone_bind (unlinkRegularAt_alone there)
    rintro _ _ rfl
    apply (syncDirectory_alone _ _).bind
    refine alone_pure _ _ ⟨rfl, ?_, ?_, unlink_self _ _⟩
    · rw [unlink_other _ _ l.archive (fun impossible => by cases impossible)]
      exact archived
    · rw [unlink_other _ _ l.replacement (fun impossible => by cases impossible)]
      exact installed

/-- Opening the directories makes the archive directory where it is missing. -/
theorem openParents_alone (parsed : Parsed a l)
    (known : resolveRoot config username a.rootId "artwork root ID is not registered" = .ok category)
    {w : World} (settled : Settled l original staged w) :
    Prog.Safe alone
      (Prog.succeeds fun o w' => Opens l o ∧ w'.nodes l.superseded = some .directory ∧
        w'.scratch = w.scratch ∧ ∀ p, p ≠ l.superseded → w'.nodes p = w.nodes p)
      (openParents config username a).run w := by
  unfold openParents
  apply ofOk_alone known
  apply ofOk_alone parsed.source
  apply ofOk_alone parsed.archive
  apply ofOk_alone parsed.replacement
  apply (openRoot_alone settled.root).bind
  apply settled.opens_parent.bind
  rcases settled.superseded with missing | made
  · have makes := openDirectoryChain_missing true l.parent "superseded" ⟨.library, []⟩ w
      (fun start within _ => settled.parents start within) missing
    apply Prog.Safe.chain makes
    · rintro _ w' ⟨same, rfl⟩
      cases same
      have parents : ∀ start, start <+: l.parent → start ≠ [] →
          (w.set l.superseded (some .directory)).nodes ⟨.library, [] ++ start⟩ = some .directory := by
        intro start within _
        have other : (⟨.library, start⟩ : Place) ≠ l.superseded :=
          (child_ne_start l.dir "superseded" start .library within).symm
        exact (set_other w _ _ _ other).trans (settled.parents start within)
      apply (openDirectoryChain_alone false l.parent ⟨.library, []⟩ _ parents).bind
      exact alone_pure _ _ ⟨⟨rfl, rfl, rfl, rfl, rfl, rfl⟩, set_self w _ _, rfl,
        fun p other => set_other w _ _ _ other⟩
    · rintro e w' ⟨impossible, _⟩
      cases impossible
  · apply (settled.opens_superseded true made).bind
    apply settled.opens_parent.bind
    exact alone_pure _ _ ⟨⟨rfl, rfl, rfl, rfl, rfl, rfl⟩, made, rfl, fun _ _ => rfl⟩

/-- The copy is finished where a temporary name is free. -/
theorem prepareStagedCopy_alone (parsed : Parsed a l) (blocks : Blocks) (pid sequence : Nat) {w : World}
    (staging : w.nodes ⟨.staging, []⟩ = some .directory)
    (there : w.nodes l.staged = some (.file staged))
    (replacement : fingerprintFromStat staged = a.expectedReplacement)
    (free : ∃ k, k < 16 ∧ w.nodes (l.dir.child (temporaryName pid (sequence + k))) = none) :
    Prog.Safe alone
      (Prog.succeeds fun r w' => r.1 = ⟨.staging, []⟩ ∧
        (∃ k, r.2 = l.dir.child (temporaryName pid k)) ∧ w.nodes r.2 = none ∧
        w'.nodes r.2 = some (.file staged) ∧ ∀ p, p ≠ r.2 → w'.nodes p = w.nodes p)
      (prepareStagedCopy a blocks pid sequence l.dir).run w := by
  unfold prepareStagedCopy
  apply (openRoot_alone staging).bind
  have place : (Place.mk .staging []).child a.stagingFilename = l.staged := by
    rw [Layout.staged, parsed.staging]
    rfl
  rw [place]
  apply (openRegularAt_alone there).bind
  apply (fileStat_alone there).bind
  rw [if_neg (by simp [replacement])]
  apply alone_bind (createTemporaryFile_alone l.dir pid 16 sequence w free)
  rintro temporary w₁ ⟨⟨k, named⟩, absent, ⟨now, created⟩, kept⟩
  have apart : l.staged ≠ temporary := by
    rintro rfl
    cases named
  apply attempt_alone (copyStaged_alone blocks l.staged temporary staged w₁ now created
    ((kept l.staged apart).trans there))
  rintro r w₂ ⟨_, rfl, copied, _, others⟩
  apply alone_pure
  exact ⟨rfl, ⟨k, named⟩, absent, copied,
    fun p other => (others p other).trans (kept p other)⟩

variable {o : Opened}

/-- Installing a finished copy at the free replacement path completes the replacement. -/
theorem installReplacement_alone (parsed : Parsed a l) (opens : Opens l o) (temporary : Place) {w : World}
    (unwatched : ¬Watched l temporary) (copied : w.nodes temporary = some (.file staged))
    (archived : w.nodes l.archive = some (.file original)) (free : w.nodes l.replacement = none)
    (there : w.nodes l.staged = some (.file staged)) :
    Prog.Safe alone (Prog.succeeds fun _ w' => Done l original staged w')
      (installReplacement a o ⟨.staging, []⟩ temporary).run w := by
  obtain ⟨_, _, _, _, _, replacement⟩ := opens
  have watched : ∀ p, Watched l p → p ≠ temporary := by
    rintro p seen rfl
    exact unwatched seen
  unfold installReplacement
  rw [replacement]
  apply attempt_alone (renameNoreplace_alone copied free)
  rintro _ _ ⟨_, rfl, rfl⟩
  have archive : (w.rename temporary l.replacement).nodes l.archive = some (.file original) :=
    (rename_other w _ _ _ (watched _ (Or.inr (Or.inr (Or.inr (Or.inr (Or.inl rfl))))))
      replacement_ne_archive.symm).trans archived
  have installed : (w.rename temporary l.replacement).nodes l.replacement = some (.file staged) :=
    (rename_target w _ _).trans copied
  have staging : (w.rename temporary l.replacement).nodes l.staged = some (.file staged) :=
    (rename_other w _ _ _ (watched _ (Or.inr (Or.inr (Or.inr (Or.inr (Or.inr (Or.inr rfl)))))))
      (fun impossible => by cases impossible)).trans there
  apply (syncDirectory_alone _ _).bind
  have place : (Place.mk .staging []).child a.stagingFilename = l.staged := by
    rw [Layout.staged, parsed.staging]
    rfl
  rw [place]
  apply alone_bind (unlinkRegularAt_alone staging)
  rintro _ _ rfl
  apply (syncDirectory_alone _ _).mono
  rintro r _ ⟨_, rfl, _, rfl⟩
  refine ⟨_, rfl, ?_, ?_, unlink_self _ _⟩
  · rw [unlink_other _ _ l.archive (fun impossible => by cases impossible)]
    exact archive
  · rw [unlink_other _ _ l.replacement (fun impossible => by cases impossible)]
    exact installed

theorem archiveCurrent_alone (opens : Opens l o) (temporary : Place) {w : World} {n : Node}
    (there : w.nodes l.source = some n) (free : w.nodes l.archive = none) :
    Prog.Safe alone (Prog.succeeds fun _ w' => w' = w.rename l.source l.archive)
      (archiveCurrent o temporary).run w := by
  obtain ⟨_, _, _, source, archive, _⟩ := opens
  unfold archiveCurrent
  rw [source, archive]
  apply attempt_alone (renameNoreplace_alone there free)
  rintro _ _ ⟨_, rfl, rfl⟩
  apply (syncDirectory_alone _ _).bind
  apply (syncDirectory_alone _ _).mono
  rintro r _ ⟨_, rfl, _, rfl⟩
  exact ⟨_, rfl, rfl⟩

theorem applyReplaceFile_alone (parsed : Parsed a l)
    (known : resolveRoot config username a.rootId "artwork root ID is not registered" = .ok category)
    (source : fingerprintFromStat original = a.expectedSource)
    (replacement : fingerprintFromStat staged = a.expectedReplacement)
    (untemporary : ∀ pid sequence, l.sourceLeaf ≠ temporaryName pid sequence)
    (blocks : Blocks) (pid sequence : Nat) {w : World} (settled : Settled l original staged w)
    (phase : Phase.initial.At l original staged w ∨ Phase.archivedOnly.At l original staged w)
    (free : ∃ k, k < 16 ∧ w.nodes (l.dir.child (temporaryName pid (sequence + k))) = none) :
    Prog.Safe alone (Prog.succeeds fun _ w' => Done l original staged w')
      (applyReplaceFile config username a blocks pid sequence).run w := by
  have unfinished : w.nodes l.archive = none ∨
      (w.nodes l.archive = some (.file original) ∧ w.nodes l.replacement = none) := by
    rcases phase with holds | holds
    · exact Or.inl holds.2.1
    · exact Or.inr ⟨holds.2.1, holds.2.2.1⟩
  unfold applyReplaceFile
  apply (recover_unfinished parsed known settled unfinished).bind
  apply alone_bind (openParents_alone parsed known settled)
  rintro o w₁ ⟨opens, made, _, others⟩
  have ⟨_, dir, _, source_at, archive_at, replacement_at⟩ := opens
  have at_source := others l.source (child_ne_child l.dir _ _ parsed.source_superseded)
  have at_archive := others l.archive (archive_ne_child _)
  have at_replacement := others l.replacement (child_ne_child l.dir _ _ parsed.replacement_superseded)
  have at_staged := others l.staged (fun impossible => by cases impossible)
  have at_root := (others ⟨.staging, []⟩ (fun impossible => by cases impossible)).trans settled.staging
  have free₁ : ∃ k, k < 16 ∧ w₁.nodes (l.dir.child (temporaryName pid (sequence + k))) = none := by
    obtain ⟨k, bound, absent⟩ := free
    exact ⟨k, bound, (others _ (child_ne_child l.dir _ _ (temporaryName_superseded _ _))).trans absent⟩
  simp only [source_at, archive_at, replacement_at]
  rcases phase with ⟨there, absent, vacant, copy⟩ | ⟨absent, there, vacant, copy⟩
  · rw [← at_source] at there
    rw [← at_archive] at absent
    rw [← at_staged] at copy
    have same_path : l.source = l.replacement → a.sourceRelativePath = a.replacementRelativePath := by
      intro same
      have leaf : l.sourceLeaf = l.replacementLeaf := by
        have paths := congrArg Place.path same
        exact (List.cons.inj (List.append_cancel_left paths)).1
      have split := parsed.source
      rw [leaf] at split
      exact safeParentAndLeaf_injective split parsed.replacement
    have seen : ∃ found, Returns (fingerprintOptionalAt l.replacement) w₁ found ∧
        (decide (a.sourceRelativePath = a.replacementRelativePath) || found.isNone) = true := by
      by_cases same : l.source = l.replacement
      · rw [← same]
        refine ⟨_, fingerprintOptionalAt_file there, ?_⟩
        rw [decide_eq_true (same_path same), Bool.true_or]
      · refine ⟨none, fingerprintOptionalAt_none (at_replacement.trans (vacant same)), ?_⟩
        rw [Option.isNone_none, Bool.or_true]
    obtain ⟨found, reads, initial⟩ := seen
    apply (fingerprintOptionalAt_file there).bind
    apply (fingerprintOptionalAt_none absent).bind
    apply reads.bind
    simp only [source, decide_true, Option.isNone_none, Bool.and_self, initial, Bool.not_true,
      Bool.false_and, Bool.false_eq_true, ↓reduceIte, dir]
    apply alone_bind (prepareStagedCopy_alone parsed blocks pid sequence at_root copy replacement free₁)
    rintro ⟨staging, temporary⟩ w₂ ⟨rfl, ⟨k, named⟩, new, copied, kept⟩
    have unwatched : ¬Watched l temporary := by
      have same : temporary = l.dir.child (temporaryName pid k) := named
      rw [same]
      exact temporary_unwatched parsed pid k untemporary
    have watched : ∀ p, Watched l p → w₂.nodes p = w₁.nodes p := by
      intro p seen
      apply kept
      rintro rfl
      exact unwatched seen
    have source₂ := (watched l.source (Or.inr (Or.inr (Or.inr (Or.inl rfl))))).trans there
    have archive₂ := (watched l.archive (Or.inr (Or.inr (Or.inr (Or.inr (Or.inl rfl)))))).trans absent
    have staged₂ := (watched l.staged (Or.inr (Or.inr (Or.inr (Or.inr (Or.inr (Or.inr rfl))))))).trans copy
    apply alone_bind (archiveCurrent_alone opens temporary source₂ archive₂)
    rintro _ _ rfl
    have apart : temporary ≠ l.source := by
      rintro rfl
      exact unwatched (Or.inr (Or.inr (Or.inr (Or.inl rfl))))
    have apart' : temporary ≠ l.archive := by
      rintro rfl
      exact unwatched (Or.inr (Or.inr (Or.inr (Or.inr (Or.inl rfl)))))
    apply installReplacement_alone parsed opens temporary unwatched
    · exact (rename_other w₂ _ _ _ apart apart').trans copied
    · exact (rename_target w₂ _ _).trans source₂
    · by_cases same : l.source = l.replacement
      · rw [← same]
        exact rename_source w₂ _ _ _ source₂ archive₂
      · have vacant₂ := (watched l.replacement (Or.inr (Or.inr (Or.inr (Or.inr (Or.inr (Or.inl rfl))))))).trans
          (at_replacement.trans (vacant same))
        exact (rename_other w₂ _ _ _ (fun equal => same equal.symm) replacement_ne_archive).trans vacant₂
    · exact (rename_other w₂ _ _ _ (fun impossible => by cases impossible)
        (fun impossible => by cases impossible)).trans staged₂
  · rw [← at_source] at absent
    rw [← at_archive] at there
    rw [← at_replacement] at vacant
    rw [← at_staged] at copy
    apply (fingerprintOptionalAt_none absent).bind
    apply (fingerprintOptionalAt_file there).bind
    apply (fingerprintOptionalAt_none vacant).bind
    simp only [source, decide_true, Option.isNone_none, Bool.and_self, Bool.not_true, Bool.and_false,
      Bool.false_eq_true, ↓reduceIte, dir]
    apply alone_bind (prepareStagedCopy_alone parsed blocks pid sequence at_root copy replacement free₁)
    rintro ⟨staging, temporary⟩ w₂ ⟨rfl, ⟨k, named⟩, new, copied, kept⟩
    have unwatched : ¬Watched l temporary := by
      have same : temporary = l.dir.child (temporaryName pid k) := named
      rw [same]
      exact temporary_unwatched parsed pid k untemporary
    have watched : ∀ p, Watched l p → w₂.nodes p = w₁.nodes p := by
      intro p seen
      apply kept
      rintro rfl
      exact unwatched seen
    simp only [reduceCtorEq, decide_false, Bool.false_and, Bool.false_eq_true, ↓reduceIte]
    apply installReplacement_alone parsed opens temporary unwatched copied
    · exact (watched l.archive (Or.inr (Or.inr (Or.inr (Or.inr (Or.inl rfl)))))).trans there
    · exact (watched l.replacement (Or.inr (Or.inr (Or.inr (Or.inr (Or.inr (Or.inl rfl))))))).trans vacant
    · exact (watched l.staged (Or.inr (Or.inr (Or.inr (Or.inr (Or.inr (Or.inr rfl))))))).trans copy

/-- An undisturbed execution completes the replacement. -/
theorem executeReplace_alone (parsed : Parsed a l) {kind : ReplaceKind}
    (valid : kind.validate config username a = .ok ())
    (known : resolveRoot config username a.rootId "artwork root ID is not registered" = .ok category)
    (source : fingerprintFromStat original = a.expectedSource)
    (replacement : fingerprintFromStat staged = a.expectedReplacement)
    (untemporary : ∀ pid sequence, l.sourceLeaf ≠ temporaryName pid sequence)
    (blocks : Blocks) (pid sequence : Nat) {w : World} (settled : Settled l original staged w)
    (unrestored : ¬Phase.restored.At l original staged w)
    (free : ∃ k, k < 16 ∧ w.nodes (l.dir.child (temporaryName pid (sequence + k))) = none) :
    Prog.Safe alone (Prog.succeeds fun _ w' => Done l original staged w')
      (executeReplace config username a blocks pid sequence kind).run w := by
  unfold executeReplace
  apply ofOk_alone valid
  have applied : Phase.initial.At l original staged w ∨ Phase.archivedOnly.At l original staged w →
      Prog.Safe alone (Prog.succeeds fun _ w' => Done l original staged w')
        (do
          ofOk (kind.validate config username a)
          applyReplaceFile config username a blocks pid sequence
          pure false : Broker Bool).run w := by
    intro phase
    apply ofOk_alone valid
    apply alone_bind (applyReplaceFile_alone parsed known source replacement untemporary blocks pid
      sequence settled phase free)
    exact fun _ w' finished => alone_pure false w' finished
  obtain ⟨phase, holds⟩ := settled.phase
  cases phase with
  | initial =>
    apply (recover_unfinished parsed known settled (Or.inl holds.2.1)).bind
    exact applied (Or.inl holds)
  | archivedOnly =>
    apply (recover_unfinished parsed known settled (Or.inr ⟨holds.2.1, holds.2.2.1⟩)).bind
    exact applied (Or.inr holds)
  | complete =>
    apply alone_bind (recover_complete parsed known source replacement settled holds.2.1 holds.2.2.1
      holds.2.2.2)
    rintro recovered w' ⟨rfl, finished⟩
    exact alone_pure true w' finished
  | restored => exact absurd holds unrestored

end Completing

end NixHomeServer.MediaManager
