import AgentsServer.Activation.Terminal

/-!
# Between the effects

Up to the moment when the directory of the transaction has its last name, every tree that a call of
`finish` leaves behind is one that a call accepts. The three effects up to then, a staged file that
goes, the candidate that is parked and the directory that is renamed, each keep that.
-/

namespace AgentsServer.Activation

open Library Program

/-! ## Paths -/

theorem child_eq_of_below {root p : Path} {a b : String} (ha : root.child a <+: p)
    (hb : root.child b <+: p) : a = b := by
  have h := List.prefix_of_prefix_length_le ha hb (by simp [Path.child])
  have same := h.eq_of_length (by simp [Path.child])
  simpa [Path.child] using same

theorem InTransaction.child {root : Path} {name : String} (h : isTransactionName name = true) :
    InTransaction root (root.child name) :=
  ⟨name, h, List.prefix_refl _⟩

theorem InTransaction.below {root p q : Path} (h : InTransaction root p) (below : p <+: q) :
    InTransaction root q := by
  obtain ⟨name, hname, hp⟩ := h
  exact ⟨name, hname, hp.trans below⟩

theorem not_below_other {root p : Path} {a b : String} (ha : root.child a <+: p) (hne : a ≠ b) :
    ¬ root.child b <+: p :=
  fun hb => hne (child_eq_of_below ha hb)

theorem isTransactionName_releases : isTransactionName "releases" = false := by decide

theorem isRetiredName_live : isRetiredName ".activation-transaction" = false := by decide

theorem isTransactionName_retired {name : String} (h : isRetiredName name = true) :
    isTransactionName name = true := by
  unfold isTransactionName
  rw [h, Bool.or_true]

theorem isHexNamed_append {before after digits : String} (h : isHexOf 24 digits.toList = true) :
    isHexNamed before after (before ++ digits ++ after) = true := by
  have hlength : digits.toList.length = 24 := by
    unfold isHexOf at h
    rw [Bool.and_eq_true, beq_iff_eq] at h
    exact h.1
  have hdigits : (((before ++ digits ++ after).toList.drop before.length).take 24) =
      digits.toList := by
    rw [String.toList_append, String.toList_append, List.append_assoc, ← String.length_toList,
      List.drop_left, ← hlength, List.take_left]
  unfold isHexNamed
  dsimp only
  rw [hdigits, h]
  simp [String.toList_append]

theorem isRetiredName_id {transactionId : String} (h : isTransactionId transactionId = true) :
    isRetiredName (".activation-transaction-gc-" ++ transactionId) = true := by
  unfold isTransactionId isPrefixedHex at h
  rw [Bool.and_eq_true, List.isPrefixOf_iff_prefix] at h
  obtain ⟨⟨digits, hdigits⟩, hhex⟩ := h
  have hid : transactionId = "activation-" ++ String.ofList digits := by
    apply String.toList_injective
    simp [← hdigits]
  rw [hid, ← String.length_toList, String.toList_append, List.drop_left] at hhex
  have hnamed := @isHexNamed_append ".activation-transaction-gc-activation-" "" _ hhex
  unfold isRetiredName
  rw [hid]
  rw [String.append_empty] at hnamed
  rw [← String.append_assoc]
  rw [show ".activation-transaction-gc-" ++ "activation-" =
    ".activation-transaction-gc-activation-" from rfl, hnamed, Bool.true_or]

theorem controlNames_plain : ∀ name ∈ controlNames,
    isManifestTemp name = false ∧ name ≠ "candidate.retired" := by
  decide

/-! ## The candidate -/

section Candidate

variable [Host] [Sha256] {t u : FileTree} {release : Release} {p q : Path}

theorem firstMatch_cons (p : Path) (rest : List Path) :
    firstMatch t release (p :: rest) = (do
      if ← releaseMatches t p release then return some p
      else firstMatch t release rest) :=
  rfl

/-- The places before come first. -/
theorem firstMatch_append (places more : List Path) :
    firstMatch t release (places ++ more) = (do
      match ← firstMatch t release places with
      | some p => pure (some p)
      | none => firstMatch t release more) := by
  induction places with
  | nil => rfl
  | cons p rest ih =>
      rw [List.cons_append, firstMatch_cons, firstMatch_cons]
      cases hp : releaseMatches t p release with
      | error e => rfl
      | ok matched =>
          cases matched with
          | true => rfl
          | false => exact ih

theorem firstMatch_some {places : List Path}
    (h : firstMatch t release places = .ok (some p)) :
    p ∈ places ∧ releaseMatches t p release = .ok true := by
  induction places with
  | nil => cases h
  | cons q rest ih =>
      unfold firstMatch at h
      obtain ⟨matched, hmatched, h⟩ := (bind_eq_ok _ _ _).mp h
      cases matched with
      | true =>
          cases h
          exact ⟨List.mem_cons_self, hmatched⟩
      | false =>
          obtain ⟨hmem, hp⟩ := ih h
          exact ⟨List.mem_cons_of_mem q hmem, hp⟩

theorem firstMatch_none {places : List Path}
    (h : ∀ p ∈ places, releaseMatches t p release = .ok false) :
    firstMatch t release places = .ok none := by
  induction places with
  | nil => rfl
  | cons p rest ih =>
      unfold firstMatch
      rw [h p List.mem_cons_self, ok_bind]
      exact ih fun q hq => h q (List.mem_cons_of_mem p hq)

theorem releaseMatches_directory (h : (t.node p).any (isReleaseDirectory release) = true) :
    releaseMatches t p release = do
      let digest ← ownedRegularSha256 t (p.child "VERSION")
      return digest == release.versionSha256 := by
  unfold releaseMatches
  cases hnode : t.node p with
  | none =>
      rw [hnode] at h
      cases h
  | some n =>
      rw [hnode, Option.any_some] at h
      cases n with
      | directory id owned mode =>
          simp only [isReleaseDirectory, Bool.and_eq_true, beq_iff_eq] at h
          dsimp only
          rw [if_pos ⟨h.1.1.1, h.1.1.2, h.1.2, h.2⟩]
      | _ => cases h

theorem releaseMatches_other (h : (t.node p).any (isReleaseDirectory release) = false) :
    releaseMatches t p release = .ok false := by
  unfold releaseMatches
  cases hnode : t.node p with
  | none => rfl
  | some n =>
      rw [hnode, Option.any_some] at h
      cases n with
      | directory id owned mode =>
          dsimp only
          rw [if_neg]
          rintro ⟨howned, hmode, hdevice, hinode⟩
          simp [isReleaseDirectory, howned, hmode, hdevice, hinode] at h
      | _ => rfl

theorem isReleaseDirectory_of_matches (h : releaseMatches t p release = .ok true) :
    (t.node p).any (isReleaseDirectory release) = true := by
  by_contra hother
  rw [releaseMatches_other (Bool.eq_false_iff.mpr hother)] at h
  cases h

omit [Host] [Sha256] in
theorem isReleaseDirectory_node (h : (t.node p).any (isReleaseDirectory release) = true) :
    ∃ id mode, t.node p = some (.directory id true mode) ∧ id.device = release.device ∧
      id.inode = release.inode := by
  cases hnode : t.node p with
  | none =>
      rw [hnode] at h
      cases h
  | some n =>
      rw [hnode, Option.any_some] at h
      cases n with
      | directory id owned mode =>
          simp only [isReleaseDirectory, Bool.and_eq_true, beq_iff_eq] at h
          obtain ⟨⟨⟨rfl, -⟩, hdevice⟩, hinode⟩ := h
          exact ⟨id, mode, rfl, hdevice, hinode⟩
      | _ => cases h

omit [Host] [Sha256] in
/-- A release has one directory. -/
theorem releaseDirectory_unique (wf : t.WellFormed)
    (hp : (t.node p).any (isReleaseDirectory release) = true)
    (hq : (t.node q).any (isReleaseDirectory release) = true) : p = q := by
  obtain ⟨⟨device, inode, _, _⟩, mode, hnode, rfl, rfl⟩ := isReleaseDirectory_node hp
  obtain ⟨⟨device', inode', _, _⟩, mode', hnode', hdevice, hinode⟩ := isReleaseDirectory_node hq
  cases hdevice
  cases hinode
  exact wf.one_place hnode hnode'

/-- Where the directory of a release stands, no other place matches. -/
theorem releaseMatches_elsewhere (wf : t.WellFormed)
    (hp : (t.node p).any (isReleaseDirectory release) = true) (hne : q ≠ p) :
    releaseMatches t q release = .ok false := by
  apply releaseMatches_other
  rw [Bool.eq_false_iff]
  intro hq
  exact hne (releaseDirectory_unique wf hq hp)

end Candidate

/-! ## Entries that may be gone -/

section Fewer

variable {t u : FileTree} {directory directory' : Path} {name : String} {n : Node}

theorem isPrivateFile_follows (h : isPrivateFile t n = true) (follows : Follows t u) {p : Path}
    (there : u.node p = some n) : isPrivateFile u n = true := by
  unfold isPrivateFile at h ⊢
  cases n with
  | file id =>
      simp only [Bool.and_eq_true, beq_iff_eq] at h ⊢
      rw [follows.inodes]
      exact ⟨⟨h.1.1, follows.nlink_one h.1.2 there⟩, h.2⟩
  | _ => cases h

theorem isRemovable_follows (h : isRemovable t name n = true) (follows : Follows t u) {p : Path}
    (there : u.node p = some n) : isRemovable u name n = true := by
  unfold isRemovable at h ⊢
  split
  · next hname =>
      rw [if_pos hname] at h
      exact h
  · next hname =>
      rw [if_neg hname, Bool.and_eq_true] at h
      rw [h.1, isPrivateFile_follows h.2 follows there]
      rfl

/-- A directory that may be removed may be removed when some of its entries are gone, and under
another name. -/
theorem Removable.fewer (h : Removable t directory) (follows : Follows t u)
    (top : ∀ n, u.node directory' = some n → t.node directory = some n)
    (entries : ∀ name n, u.node (directory'.child name) = some n →
      t.node (directory.child name) = some n) : Removable u directory' := by
  constructor
  · intro n hn
    exact h.top n (top n hn)
  · intro name _ n hn
    have hn' := entries name n hn
    refine isRemovable_follows (h.entries name ?_ n hn') follows hn
    rw [FileTree.mem_children, hn']
    rfl

variable [Host] [Sha256] {p : Path}

theorem stagedIfPresent_none (h : t.node p = none) : stagedIfPresent t p = .ok none := by
  unfold stagedIfPresent stagedConfigMetadata openChecked
  rw [h]
  rfl

/-- A staged file that is seen is a file. -/
theorem stagedIfPresent_some {staged : Metadata × FileId}
    (h : stagedIfPresent t p = .ok (some staged)) :
    stagedConfigMetadata t p = .ok staged ∧ t.node p = some (.file staged.2) := by
  unfold stagedIfPresent at h
  split at h
  · next hstaged =>
      cases h
      exact ⟨hstaged, (stagedConfigMetadata_eq_ok hstaged).1⟩
  · cases h
  · cases h

theorem stagedIfPresent_absent (h : stagedIfPresent t p = .ok none) : t.node p = none := by
  unfold stagedIfPresent at h
  split at h
  · cases h
  · next hstaged =>
      unfold stagedConfigMetadata at hstaged
      rw [bind_eq_error] at hstaged
      rcases hstaged with hopen | ⟨_, _, hopen⟩
      · unfold openChecked at hopen
        split at hopen
        · assumption
        · cases hopen
        · simp only [bind_eq_error, require_eq_error, reduceCtorEq, and_false, false_or] at hopen
          simp [pure_ne_error] at hopen
        · cases hopen
      · exact absurd hopen (pure_ne_error _ _)
  · cases h

theorem stagedIfPresent_same {staged : Option (Metadata × FileId)}
    (h : stagedIfPresent t p = .ok staged) (follows : Follows t u)
    (node : u.node p = t.node p) : stagedIfPresent u p = .ok staged := by
  cases staged with
  | none => exact stagedIfPresent_none (node.trans (stagedIfPresent_absent h))
  | some staged =>
      have hstaged := stagedConfigMetadata_same (stagedIfPresent_some h).1 follows node
      unfold stagedIfPresent
      rw [hstaged]

theorem stagedIfPresent_fewer {staged : Option (Metadata × FileId)}
    (h : stagedIfPresent t p = .ok staged) (follows : Follows t u)
    (node : u.node p = none ∨ u.node p = t.node p) :
    ∃ left, stagedIfPresent u p = .ok left ∧ (left = none ∨ left = staged) := by
  rcases node with gone | same
  · exact ⟨none, stagedIfPresent_none gone, Or.inl rfl⟩
  · exact ⟨staged, stagedIfPresent_same h follows same, Or.inr rfl⟩

omit [Host] [Sha256] in
theorem checkSource_fewer {desired : Option Desired} {secured left : Option (Metadata × FileId)}
    {source : Metadata × FileId} (h : checkSource t desired secured source = .ok ())
    (follows : Follows t u) (there : u.node p = some (.file source.2))
    (hleft : left = none ∨ left = secured) : checkSource u desired left source = .ok () := by
  have draft : isDraft t source = true → isDraft u source = true := by
    unfold isDraft
    simp only [Bool.and_eq_true, beq_iff_eq]
    rintro ⟨one, mode⟩
    exact ⟨follows.nlink_one one there, mode⟩
  unfold checkSource at h ⊢
  cases desired with
  | none =>
      rw [require_eq_ok] at h ⊢
      exact draft h
  | some desired =>
      rw [require_eq_ok, Bool.or_eq_true, Bool.and_eq_true] at h ⊢
      rcases h with h | ⟨hdraft, hsecured⟩
      · exact Or.inl h
      · refine Or.inr ⟨draft hdraft, ?_⟩
        rcases hleft with rfl | rfl
        · rfl
        · exact hsecured

/-- Staged files that may be removed may be removed when some of them are gone. -/
theorem Cleanable.fewer {record : ConfigRecord} {transactionId : String} {kind : Kind}
    (h : Cleanable t record transactionId kind) (follows : Follows t u)
    (source : u.node (stagingPaths record transactionId kind).1 = none ∨
      u.node (stagingPaths record transactionId kind).1 =
        t.node (stagingPaths record transactionId kind).1)
    (secured : u.node (stagingPaths record transactionId kind).2 = none ∨
      u.node (stagingPaths record transactionId kind).2 =
        t.node (stagingPaths record transactionId kind).2) :
    Cleanable u record transactionId kind := by
  obtain ⟨staged, draft, hstaged, hdraft, hsource, hsecured⟩ := h
  obtain ⟨staged', hstaged', left⟩ := stagedIfPresent_fewer hstaged follows secured
  obtain ⟨draft', hdraft', left'⟩ := stagedIfPresent_fewer hdraft follows source
  refine ⟨staged', draft', hstaged', hdraft', ?_, ?_⟩
  · rintro d hd
    rcases left' with rfl | rfl
    · cases hd
    · cases hd
      exact checkSource_fewer (hsource d rfl) follows (stagedIfPresent_some hdraft').2 left
  · rintro s hs
    rcases left with rfl | rfl
    · cases hs
    · exact hsecured s hs

end Fewer

/-! ## The trees between -/

section Ready

variable [Host] [Sha256]

/-- The places of a candidate, the one in the transaction directory last. -/
theorem locateCandidate_eq (root directory : Path) (m : Manifest) (t : FileTree) :
    locateCandidate root directory m t = firstMatch t m.candidateRelease
      (candidatePlaces root m ++ [candidateParked directory]) :=
  rfl

/-- The candidate was looked for. Where it is outside and on its way out, it comes from its home. -/
structure Located (args : Invocation) (m : Manifest) (t : FileTree) (directory : Path)
    (b : FileTree) (place : Option Path) : Prop where
  found : locateCandidate (absolute args.root) directory m b = .ok place
  there : place.isSome = true ∨ m.phase = .rollbackHealthy
  home : ∀ p, place = some p → m.phase = .rollbackHealthy → p ≠ candidateParked directory →
    candidateHome args m t = some p ∧ b.node (candidateParked directory) = none

variable [FloatText]

/-- A later tree of a call that started from `t`, with the transaction in a directory. -/
structure Ready (args : Invocation) (m : Manifest) (t : FileTree) (directory : Path)
    (b : FileTree) : Prop where
  tree : b.WellFormed
  follows : Follows t b
  same : ∀ p, ¬ Loose args m t p → b.node p = t.node p
  top : (b.node directory).any isPrivateDirectory = true
  entries : ∀ name n, b.node (directory.child name) = some n →
    isExpected m name = true ∧ isRemovable b name n = true
  manifest : readManifestFile (absolute args.root) directory b = .ok m
  candidate : ∃ place, Located args m t directory b place
  staging : Cleanable b m.env m.transactionId .env ∧
    Cleanable b m.service m.transactionId .service
  others : ∀ name, isRetiredName name = true → Removable b ((absolute args.root).child name)

variable {args : Invocation} {m : Manifest} {t b b' : FileTree} {directory : Path}

omit [FloatText] in
/-- A candidate that is found beside the transaction, of a rolled back activation. -/
theorem candidateHome_of_found {home : Path} (phase : m.phase = .rollbackHealthy)
    (h : firstMatch t m.candidateRelease (candidatePlaces (absolute args.root) m) =
      .ok (some home)) : candidateHome args m t = some home := by
  unfold candidateHome
  rw [phase, h]

/-- A terminal transaction is ready to be finished. -/
theorem Terminal.ready (h : Terminal args m t) : Ready args m t (liveDirectory args) t where
  tree := h.tree
  follows := .refl t
  same _ _ := rfl
  top := by
    obtain ⟨n, hn⟩ := Option.isSome_iff_exists.mp h.live
    rw [hn]
    exact h.directory.top n hn
  entries name n hn := by
    have hmem : name ∈ t.children (liveDirectory args) := by
      rw [FileTree.mem_children, hn]
      rfl
    exact ⟨h.expected name hmem, h.directory.entries name hmem n hn⟩
  manifest := h.manifest
  candidate := by
    obtain ⟨place, hplace, hthere⟩ := validateInvocation_candidate h.valid
    refine ⟨place, hplace, hthere.imp_right of_decide_eq_true, ?_⟩
    rintro p rfl phase hne
    have hhome : candidateHome args m t = some p := by
      apply candidateHome_of_found phase
      rw [locateCandidate_eq, firstMatch_append] at hplace
      obtain ⟨found, hfound, hplace⟩ := (bind_eq_ok _ _ _).mp hplace
      cases found with
      | some q =>
          cases hplace
          exact hfound
      | none => exact absurd (List.mem_singleton.mp (firstMatch_some hplace).1) hne
    refine ⟨hhome, h.vacant ?_⟩
    rw [hhome]
    rfl
  staging := h.staging
  others name hname := by
    cases hnode : t.node ((absolute args.root).child name) with
    | some n =>
        refine h.others name ?_ hname
        rw [FileTree.mem_children, hnode]
        rfl
    | none =>
        constructor
        · intro n hn
          rw [hnode] at hn
          cases hn
        · intro other _ n hn
          rw [h.tree.absent hnode (FileTree.prefix_child _ other)] at hn
          cases hn

/-! ### Paths of a call -/

omit [Sha256] [FloatText] in
theorem isCandidatePlace_child {root : Path}
    (h : isCandidatePlace (root.child "releases") m.releaseDir m.releaseVersion
      m.candidateRelease = true) :
    ∀ p ∈ candidatePlaces root m, root.child "releases" <+: p ∧
      p.length = (root.child "releases").length + 1 := by
  have child : ∀ q : Path, q.parent = root.child "releases" →
      root.child "releases" <+: q ∧ q.length = (root.child "releases").length + 1 := by
    intro q hq
    have hne : q ≠ [] := by
      rintro rfl
      exact FileTree.child_ne_nil root "releases" hq.symm
    rw [FileTree.child_eq_iff.mpr ⟨hne, hq, rfl⟩]
    exact ⟨FileTree.prefix_child _ _, by simp [Path.child]⟩
  unfold isCandidatePlace at h
  simp only [Bool.and_eq_true, decide_eq_true_eq] at h
  obtain ⟨⟨⟨⟨⟨⟨-, hplace⟩, -⟩, -⟩, hsource⟩, -⟩, htarget⟩ := h
  intro p hp
  apply child
  simp only [candidatePlaces, List.mem_cons, List.not_mem_nil, or_false] at hp
  rcases hp with rfl | rfl | rfl
  · exact hsource
  · rw [htarget, hplace, FileTree.parent_child]
  · exact FileTree.parent_child _ _

omit [Host] [Sha256] [FloatText] in
theorem releases_apart {root p q : Path} (hp : root.child "releases" <+: p)
    (hq : InTransaction root q) : ¬ p <+: q := by
  obtain ⟨name, hname, hunder⟩ := hq
  intro below
  rw [child_eq_of_below hunder (hp.trans below), isTransactionName_releases] at hname
  cases hname

/-- The places that a manifest gives its candidate are among the releases. -/
theorem Ready.places (h : Ready args m t directory b) :
    ∀ p ∈ candidatePlaces (absolute args.root) m,
      (absolute args.root).child "releases" <+: p ∧
        p.length = ((absolute args.root).child "releases").length + 1 := by
  obtain ⟨value, hvalue⟩ := readManifestFile_dictionary h.manifest
  exact isCandidatePlace_child (readDictionary_candidatePlace hvalue)

theorem Ready.place_apart (h : Ready args m t directory b) {p q : Path}
    (hp : p ∈ candidatePlaces (absolute args.root) m)
    (hq : InTransaction (absolute args.root) q) : ¬ p <+: q :=
  releases_apart (h.places p hp).1 hq

omit [FloatText] in
/-- What was looked for is found where it is then, the place in the transaction directory being
the one that it was. -/
theorem Located.moved {directory' : Path} {place : Option Path}
    (h : Located args m t directory b place) (follows : Follows b b')
    (outer : ∀ p ∈ candidatePlaces (absolute args.root) m, SameRelease b p b' p)
    (parked : SameRelease b (candidateParked directory) b' (candidateParked directory'))
    (apart : ∀ p ∈ candidatePlaces (absolute args.root) m, p ≠ candidateParked directory) :
    ∃ place', Located args m t directory' b' place' ∧
      ∀ p, place' = some p → p ≠ candidateParked directory' → place = some p := by
  obtain ⟨hfound, hthere, hhome⟩ := h
  rw [locateCandidate_eq, firstMatch_append] at hfound
  obtain ⟨first, hfirst, hrest⟩ := (bind_eq_ok _ _ _).mp hfound
  have hfirst' := firstMatch_same hfirst follows outer
  cases first with
  | some p =>
      cases hrest
      refine ⟨some p, ⟨?_, Or.inl rfl, ?_⟩, fun _ h _ => h⟩
      · rw [locateCandidate_eq, firstMatch_append, hfirst']
        rfl
      · rintro q ⟨⟩ phase -
        obtain ⟨home, free⟩ := hhome p rfl phase (apart p (firstMatch_some hfirst).1)
        exact ⟨home, parked.top.trans free⟩
  | none =>
      rw [show firstMatch b m.candidateRelease [candidateParked directory] =
        (do
          if ← releaseMatches b (candidateParked directory) m.candidateRelease then
            return some (candidateParked directory)
          else .ok none) from rfl] at hrest
      obtain ⟨matched, hmatched, hrest⟩ := (bind_eq_ok _ _ _).mp hrest
      have hmatched' := releaseMatches_moved hmatched follows parked
      have only : ∀ q, (if matched then some (candidateParked directory') else none) = some q →
          q = candidateParked directory' := by
        intro q hq
        cases matched with
        | true => exact (Option.some.inj hq).symm
        | false => cases hq
      refine ⟨if matched then some (candidateParked directory') else none, ⟨?_, ?_, ?_⟩, ?_⟩
      · rw [locateCandidate_eq, firstMatch_append, hfirst', ok_bind, firstMatch_cons, hmatched']
        cases matched <;> rfl
      · cases matched with
        | true => exact Or.inl rfl
        | false =>
            cases hrest
            exact Or.inr (hthere.resolve_left Bool.false_ne_true)
      · intro q hq _ hne
        exact absurd (only q hq) hne
      · intro q hq hne
        exact absurd (only q hq) hne

/-- What may go before the directory has its last name: a staged file or a draft of the manifest. -/
def Spare (m : Manifest) (directory p : Path) : Prop :=
  p ∈ stagedPaths m ∨ ∃ name, isManifestTemp name = true ∧ p = directory.child name

/-- The directory of a transaction, live or retired. -/
def IsTransaction (root directory : Path) : Prop :=
  ∃ name, isTransactionName name = true ∧ directory = root.child name

section Erase

variable {p : Path}

omit [FloatText] in
theorem Spare.loose (h : Spare m directory p)
    (dir : IsTransaction (absolute args.root) directory) : Loose args m t p := by
  rcases h with h | ⟨name, -, rfl⟩
  · exact Or.inr (Or.inl h)
  · obtain ⟨dn, hdn, rfl⟩ := dir
    exact Or.inl ((InTransaction.child hdn).below (FileTree.prefix_child _ _))

omit [FloatText] in
/-- Within the directory, only drafts of the manifest may go. -/
theorem Spare.ne_child (h : Spare m directory p) (apart : Separate args m t)
    (dir : IsTransaction (absolute args.root) directory) {name : String} (rest : List String)
    (plain : isManifestTemp name = false ∨ rest ≠ []) : directory.child name ++ rest ≠ p := by
  rintro rfl
  rcases h with h | ⟨temp, htemp, hsame⟩
  · obtain ⟨dn, hdn, rfl⟩ := dir
    apply (apart.staged _ h).1
    exact (InTransaction.child hdn).below
      ((FileTree.prefix_child _ name).trans (List.prefix_append _ rest))
  · have hlist : [name] ++ rest = [temp] := by
      apply @List.append_cancel_left _ directory
      rw [← List.append_assoc]
      exact hsame
    cases rest with
    | nil =>
        cases hlist
        rcases plain with h | h
        · rw [h] at htemp
          cases htemp
        · exact h rfl
    | cons a rest => simp at hlist

/-- The places of the candidate beside the transaction stay as they are. -/
theorem Ready.spare_outer (h : Ready args m t directory b) (apart : Separate args m t)
    (dir : IsTransaction (absolute args.root) directory) (hp : Spare m directory p) {q : Path}
    (hq : q ∈ candidatePlaces (absolute args.root) m) (rest : List String)
    (read : rest = [] ∨ rest = ["VERSION"]) : q ++ rest ≠ p := by
  rintro rfl
  by_cases home : candidateHome args m t = some q
  · rcases hp with hstaged | ⟨name, -, hsame⟩
    · exact (apart.staged _ hstaged).2 q home (List.prefix_append q rest)
    · obtain ⟨dn, hdn, rfl⟩ := dir
      refine h.place_apart hq ((InTransaction.child hdn).below (FileTree.prefix_child _ name)) ?_
      rw [← hsame]
      exact List.prefix_append q rest
  · refine apart.reads (q ++ rest) ?_ (hp.loose dir)
    refine List.mem_append_right _ (List.mem_flatMap.mpr ⟨q, ?_, ?_⟩)
    · exact List.mem_append_right _ (List.mem_filter.mpr ⟨hq, decide_eq_true home⟩)
    · rcases read with rfl | rfl
      · simp
      · simp [Path.child]

omit [FloatText] in
theorem Spare.node_child (h : Spare m directory p) (apart : Separate args m t)
    (dir : IsTransaction (absolute args.root) directory) (name : String) (rest : List String)
    (plain : isManifestTemp name = false ∨ rest ≠ []) :
    (b.erase p).node (directory.child name ++ rest) = b.node (directory.child name ++ rest) := by
  rw [FileTree.node_erase, if_neg (h.ne_child apart dir rest plain)]

/-- The places where the candidate is looked for stay as they are. -/
theorem Ready.spare_same (h : Ready args m t directory b) (apart : Separate args m t)
    (dir : IsTransaction (absolute args.root) directory) (hp : Spare m directory p) :
    ∀ q ∈ candidatePlaces (absolute args.root) m ++ [candidateParked directory],
      SameRelease b q (b.erase p) q := by
  intro q hq
  rcases List.mem_append.mp hq with hq | hq
  · constructor
    · have hne := h.spare_outer apart dir hp hq [] (Or.inl rfl)
      rw [List.append_nil] at hne
      rw [FileTree.node_erase, if_neg hne]
    · have hne := h.spare_outer apart dir hp hq ["VERSION"] (Or.inr rfl)
      rw [FileTree.node_erase, if_neg]
      exact hne
  · rw [List.mem_singleton.mp hq]
    constructor
    · have top := hp.node_child (b := b) apart dir "candidate.retired" [] (Or.inl (by decide))
      rwa [List.append_nil] at top
    · exact hp.node_child apart dir "candidate.retired" ["VERSION"] (Or.inr (List.cons_ne_nil _ _))

theorem Ready.spare_found (h : Ready args m t directory b) (apart : Separate args m t)
    (dir : IsTransaction (absolute args.root) directory) (hp : Spare m directory p) :
    locateCandidate (absolute args.root) directory m (b.erase p) =
      locateCandidate (absolute args.root) directory m b := by
  obtain ⟨place, located⟩ := h.candidate
  rw [located.found]
  exact firstMatch_same located.found (.of_smaller (.erase b p)) (h.spare_same apart dir hp)

theorem Ready.erase (h : Ready args m t directory b) (apart : Separate args m t)
    (dir : IsTransaction (absolute args.root) directory) (hp : Spare m directory p)
    (leaf : b.Leaf p) : Ready args m t directory (b.erase p) := by
  have smaller := FileTree.Smaller.erase b p
  have follows := Follows.of_smaller smaller
  have fewer : ∀ q, (b.erase p).node q = none ∨ (b.erase p).node q = b.node q := by
    intro q
    rw [FileTree.node_erase]
    split
    · exact Or.inl rfl
    · exact Or.inr rfl
  obtain ⟨place, located⟩ := h.candidate
  exact {
    tree := h.tree.erase leaf
    follows := h.follows.trans follows
    same := fun q hq => by
      rw [FileTree.node_erase, if_neg, h.same q hq]
      rintro rfl
      exact hq (hp.loose dir)
    top := by
      rw [FileTree.node_erase, if_neg]
      · exact h.top
      · rintro rfl
        rcases hp with hstaged | ⟨name, -, hsame⟩
        · obtain ⟨dn, hdn, hdir⟩ := dir
          apply (apart.staged _ hstaged).1
          rw [hdir]
          exact InTransaction.child hdn
        · simp [Path.child] at hsame
    entries := fun name n hn => by
      have hn' := smaller.node _ n hn
      exact ⟨(h.entries name n hn').1, isRemovable_follows (h.entries name n hn').2 follows hn⟩
    manifest := by
      refine readManifestFile_moved h.manifest follows fun name hname => ?_
      have plain := hp.node_child (b := b) apart dir name []
        (Or.inl (controlNames_plain name hname).1)
      rwa [List.append_nil] at plain
    candidate := by
      refine ⟨place, (h.spare_found apart dir hp).trans located.found, located.there, ?_⟩
      intro q hq phase hne
      obtain ⟨home, free⟩ := located.home q hq phase hne
      have same := h.spare_same apart dir hp (candidateParked directory)
        (List.mem_append_right _ (List.mem_singleton_self _))
      exact ⟨home, same.top.trans free⟩
    staging := ⟨h.staging.1.fewer follows (fewer _) (fewer _),
      h.staging.2.fewer follows (fewer _) (fewer _)⟩
    others := fun name hname => (h.others name hname).fewer follows
      (fun n hn => smaller.node _ n hn) fun other n hn => smaller.node _ n hn }

end Erase

/-! ### The candidate is parked -/

omit [Sha256] [FloatText] in
theorem live_isTransaction : IsTransaction (absolute args.root) (liveDirectory args) :=
  ⟨".activation-transaction", by decide, rfl⟩

omit [Sha256] [FloatText] in
theorem live_inTransaction : InTransaction (absolute args.root) (liveDirectory args) :=
  InTransaction.child (by decide)

section Park

variable {home : Path} (h : Ready args m t (liveDirectory args) b)
  (located : Located args m t (liveDirectory args) b (some home))
  (phase : m.phase = .rollbackHealthy) (outside : home ≠ candidateParked (liveDirectory args))

include h located phase outside

/-- The candidate is a directory among the releases, and its new place is free. -/
theorem Ready.park_facts : home ∈ candidatePlaces (absolute args.root) m ∧
    releaseMatches b home m.candidateRelease = .ok true ∧
    candidateHome args m t = some home ∧
    (∀ q, candidateParked (liveDirectory args) <+: q → b.node q = none) ∧
    ¬ home <+: candidateParked (liveDirectory args) ∧
    ¬ candidateParked (liveDirectory args) <+: home := by
  obtain ⟨hhome, free⟩ := located.home home rfl phase outside
  have found := located.found
  rw [locateCandidate_eq] at found
  obtain ⟨hmem, matched⟩ := firstMatch_some found
  have hplace : home ∈ candidatePlaces (absolute args.root) m := by
    rcases List.mem_append.mp hmem with hmem | hmem
    · exact hmem
    · exact absurd (List.mem_singleton.mp hmem) outside
  have parked : InTransaction (absolute args.root) (candidateParked (liveDirectory args)) :=
    live_inTransaction.below (FileTree.prefix_child _ _)
  refine ⟨hplace, matched, hhome, fun q hq => h.tree.absent free hq,
    h.place_apart hplace parked, ?_⟩
  intro below
  exact h.place_apart hplace (parked.below below) (List.prefix_refl home)

theorem Ready.rename_parked :
    b.rename home (candidateParked (liveDirectory args)) =
      .ok (b.move home (candidateParked (liveDirectory args))) := by
  obtain ⟨-, matched, -, free, hst, -⟩ := h.park_facts located phase outside
  obtain ⟨id, mode, hnode, -⟩ := isReleaseDirectory_node (isReleaseDirectory_of_matches matched)
  exact FileTree.rename_directory hnode hst free

/-- Nothing else in a transaction directory changes. -/
theorem Ready.park_inside {q : Path} (hq : InTransaction (absolute args.root) q)
    (other : ¬ candidateParked (liveDirectory args) <+: q) :
    (b.move home (candidateParked (liveDirectory args))).node q = b.node q := by
  obtain ⟨hplace, -, -, -, hst, hts⟩ := h.park_facts located phase outside
  exact FileTree.node_move_other hst hts (h.place_apart hplace hq) other

/-- After the move, the candidate is found in the transaction directory and nowhere else. -/
theorem Ready.park_found :
    locateCandidate (absolute args.root) (liveDirectory args) m
        (b.move home (candidateParked (liveDirectory args))) =
      .ok (some (candidateParked (liveDirectory args))) := by
  obtain ⟨hplace, matched, hhome, free, hst, hts⟩ := h.park_facts located phase outside
  have moved := FileTree.node_move_target (t := b) hst hts
  have same : SameRelease b home (b.move home (candidateParked (liveDirectory args)))
      (candidateParked (liveDirectory args)) := by
    constructor
    · have top := moved []
      rwa [List.append_nil, List.append_nil] at top
    · exact moved ["VERSION"]
  have follows : Follows b (b.move home (candidateParked (liveDirectory args))) :=
    ⟨rfl, fun id => Nat.le_of_eq (FileTree.nlink_move fun rel => free _ (List.prefix_append _ rel))⟩
  have matched' := releaseMatches_moved matched follows same
  rw [locateCandidate_eq, firstMatch_append, firstMatch_none, ok_bind, firstMatch_cons, matched']
  · rfl
  intro q hq
  by_cases hsame : q = home
  · apply releaseMatches_other
    rw [hsame, FileTree.node_move_source hst hts (List.prefix_refl home)]
    rfl
  · -- the directory of the candidate stands at one place, so no other place matches
    have other := releaseMatches_elsewhere h.tree (isReleaseDirectory_of_matches matched) hsame
    have apart : ∀ rest, (b.move home (candidateParked (liveDirectory args))).node (q ++ rest) =
        b.node (q ++ rest) := by
      intro rest
      apply FileTree.node_move_other hst hts
      · intro below
        have hlen := (h.places home hplace).2.trans (h.places q hq).2.symm
        exact hsame (((List.prefix_of_prefix_length_le below (List.prefix_append q rest)
          (Nat.le_of_eq hlen)).eq_of_length hlen).symm)
      · intro below
        exact releases_apart ((h.places q hq).1.trans (List.prefix_append q rest))
          (live_inTransaction.below ((FileTree.prefix_child _ _).trans below)) (List.prefix_refl _)
    refine releaseMatches_moved other follows ⟨?_, apart ["VERSION"]⟩
    have top := apart []
    rwa [List.append_nil] at top

theorem Ready.park (apart : Separate args m t) :
    Ready args m t (liveDirectory args) (b.move home (candidateParked (liveDirectory args))) := by
  obtain ⟨hplace, matched, hhome, free, hst, hts⟩ := h.park_facts located phase outside
  have follows : Follows b (b.move home (candidateParked (liveDirectory args))) :=
    ⟨rfl, fun id => Nat.le_of_eq (FileTree.nlink_move fun rel => free _ (List.prefix_append _ rel))⟩
  have live : InTransaction (absolute args.root) (liveDirectory args) := live_inTransaction
  have parked : InTransaction (absolute args.root) (candidateParked (liveDirectory args)) :=
    live.below (FileTree.prefix_child _ _)
  have inside : ∀ name, name ≠ "candidate.retired" →
      (b.move home (candidateParked (liveDirectory args))).node
        ((liveDirectory args).child name) = b.node ((liveDirectory args).child name) := by
    intro name hname
    exact h.park_inside located phase outside (live.below (FileTree.prefix_child _ name))
      (not_below_other (List.prefix_refl _) hname)
  have outer : ∀ q, ¬ InTransaction (absolute args.root) q → ¬ home <+: q →
      (b.move home (candidateParked (liveDirectory args))).node q = b.node q :=
    fun q hq hhome => FileTree.node_move_other hst hts hhome fun below => hq (parked.below below)
  have staged : ∀ q ∈ stagedPaths m,
      (b.move home (candidateParked (liveDirectory args))).node q = b.node q :=
    fun q hq => outer q (apart.staged q hq).1 ((apart.staged q hq).2 home hhome)
  exact {
    tree := by
      refine h.tree.move hst hts rfl ?_
      have top := h.top
      cases hnode : b.node (liveDirectory args) with
      | none =>
          rw [hnode] at top
          cases top
      | some n =>
          rw [hnode] at top
          cases n with
          | directory id owned mode => rfl
          | _ => cases top
    follows := h.follows.trans follows
    same := fun q hq => by
      rw [outer q (fun hin => hq (Or.inl hin)) fun below => hq (Or.inr (Or.inr ⟨home, hhome, below⟩))]
      exact h.same q hq
    top := by
      rw [h.park_inside located phase outside live]
      · exact h.top
      · intro below
        have hlen := below.length_le
        simp [candidateParked, Path.child] at hlen
    entries := fun name n hn => by
      by_cases hname : name = "candidate.retired"
      · subst hname
        have moved := FileTree.node_move_target (t := b) hst hts []
        rw [List.append_nil, List.append_nil] at moved
        obtain ⟨id, mode, hnode, -⟩ :=
          isReleaseDirectory_node (isReleaseDirectory_of_matches matched)
        have hn' : n = .directory id true mode :=
          Option.some.inj (hn.symm.trans (moved.trans hnode))
        refine ⟨by simp [isExpected, phase], ?_⟩
        rw [hn']
        rfl
      · have hn' := (inside name hname).symm.trans hn
        exact ⟨(h.entries name n hn').1,
          isRemovable_follows (h.entries name n hn').2 follows hn⟩
    manifest := readManifestFile_moved h.manifest follows fun name hname =>
      inside name (controlNames_plain name hname).2
    candidate := by
      refine ⟨_, h.park_found located phase outside, Or.inl rfl, ?_⟩
      rintro p ⟨⟩ - hne
      exact absurd rfl hne
    staging := by
      have keep : ∀ q ∈ stagedPaths m,
          (b.move home (candidateParked (liveDirectory args))).node q = none ∨
          (b.move home (candidateParked (liveDirectory args))).node q = b.node q :=
        fun q hq => Or.inr (staged q hq)
      exact ⟨h.staging.1.fewer follows (keep _ (by simp [stagedPaths]))
          (keep _ (by simp [stagedPaths])),
        h.staging.2.fewer follows (keep _ (by simp [stagedPaths]))
          (keep _ (by simp [stagedPaths]))⟩
    others := fun name hname => by
      have hretired : InTransaction (absolute args.root) ((absolute args.root).child name) :=
        InTransaction.child (isTransactionName_retired hname)
      have hne : name ≠ ".activation-transaction" := by
        rintro rfl
        rw [isRetiredName_live] at hname
        cases hname
      have same : ∀ q, (absolute args.root).child name <+: q →
          (b.move home (candidateParked (liveDirectory args))).node q = b.node q := by
        intro q below
        refine h.park_inside located phase outside (hretired.below below) fun below' => ?_
        exact not_below_other below hne ((FileTree.prefix_child _ _).trans below')
      refine (h.others name hname).fewer follows (fun n hn => ?_) fun entry n hn => ?_
      · exact (same _ (List.prefix_refl _)).symm.trans hn
      · exact (same _ (FileTree.prefix_child _ entry)).symm.trans hn }

end Park

/-! ### The directory gets its last name -/

section Retire

variable (h : Ready args m t (liveDirectory args) b)
  (id : isTransactionId args.transactionId = true) (free : b.node (goneDirectory args) = none)

omit [Sha256] [FloatText] in
theorem gone_inTransaction (id : isTransactionId args.transactionId = true) :
    InTransaction (absolute args.root) (goneDirectory args) :=
  InTransaction.child (isTransactionName_retired (isRetiredName_id id))

omit [Sha256] [FloatText] in
/-- The two names of a transaction directory stand apart. -/
theorem live_apart_gone (id : isTransactionId args.transactionId = true) :
    ¬ liveDirectory args <+: goneDirectory args ∧ ¬ goneDirectory args <+: liveDirectory args := by
  have hne : ".activation-transaction" ≠ ".activation-transaction-gc-" ++ args.transactionId := by
    intro hsame
    have hretired := isRetiredName_id id
    rw [← hsame, isRetiredName_live] at hretired
    cases hretired
  exact ⟨not_below_other (List.prefix_refl _) hne.symm, not_below_other (List.prefix_refl _) hne⟩

include h id free

theorem Ready.rename_gone :
    b.rename (liveDirectory args) (goneDirectory args) =
      .ok (b.move (liveDirectory args) (goneDirectory args)) := by
  have top := h.top
  cases hnode : b.node (liveDirectory args) with
  | none =>
      rw [hnode] at top
      cases top
  | some n =>
      rw [hnode] at top
      cases n with
      | directory fileId owned mode =>
          exact FileTree.rename_directory hnode (live_apart_gone id).1
            fun q hq => h.tree.absent free hq
      | _ => cases top

/-- The candidate is found where it was found, the place in the directory under its new name. -/
theorem Ready.retire_located {place : Option Path}
    (located : Located args m t (liveDirectory args) b place) :
    ∃ place', Located args m t (goneDirectory args)
        (b.move (liveDirectory args) (goneDirectory args)) place' ∧
      ∀ p, place' = some p → p ≠ candidateParked (goneDirectory args) → place = some p := by
  obtain ⟨hst, hts⟩ := live_apart_gone id
  have live : InTransaction (absolute args.root) (liveDirectory args) := live_inTransaction
  have gone := gone_inTransaction id
  have moved := FileTree.node_move_target (t := b) hst hts
  have vacant : ∀ rel, b.node (goneDirectory args ++ rel) = none :=
    fun rel => h.tree.absent free (List.prefix_append _ rel)
  have place : ∀ q ∈ candidatePlaces (absolute args.root) m, ∀ rest,
      (b.move (liveDirectory args) (goneDirectory args)).node (q ++ rest) = b.node (q ++ rest) := by
    intro q hq rest
    have under := (h.places q hq).1.trans (List.prefix_append q rest)
    apply FileTree.node_move_other hst hts
    · exact fun below => releases_apart under (live.below below) (List.prefix_refl _)
    · exact fun below => releases_apart under (gone.below below) (List.prefix_refl _)
  refine located.moved ⟨rfl, fun id => Nat.le_of_eq (FileTree.nlink_move vacant)⟩
    (fun q hq => ⟨?_, place q hq ["VERSION"]⟩) ⟨moved ["candidate.retired"], ?_⟩
    fun q hq hsame => ?_
  · have same := place q hq []
    rwa [List.append_nil] at same
  · simpa [candidateParked, Path.child] using moved ["candidate.retired", "VERSION"]
  · apply h.place_apart hq (live.below (FileTree.prefix_child _ "candidate.retired"))
    rw [hsame]
    exact List.prefix_refl _

theorem Ready.retire (apart : Separate args m t) :
    Ready args m t (goneDirectory args) (b.move (liveDirectory args) (goneDirectory args)) := by
  obtain ⟨hst, hts⟩ := live_apart_gone id
  have vacant : ∀ q, goneDirectory args <+: q → b.node q = none :=
    fun q hq => h.tree.absent free hq
  have follows : Follows b (b.move (liveDirectory args) (goneDirectory args)) :=
    ⟨rfl, fun id =>
      Nat.le_of_eq (FileTree.nlink_move fun rel => vacant _ (List.prefix_append _ rel))⟩
  have live : InTransaction (absolute args.root) (liveDirectory args) := live_inTransaction
  have gone := gone_inTransaction id
  have moved := FileTree.node_move_target (t := b) hst hts
  have outer : ∀ q, ¬ InTransaction (absolute args.root) q →
      (b.move (liveDirectory args) (goneDirectory args)).node q = b.node q :=
    fun q hq => FileTree.node_move_other hst hts (fun below => hq (live.below below))
      fun below => hq (gone.below below)
  have top : (b.move (liveDirectory args) (goneDirectory args)).node (goneDirectory args) =
      b.node (liveDirectory args) := by
    have same := moved []
    rwa [List.append_nil, List.append_nil] at same
  have entry : ∀ name n,
      (b.move (liveDirectory args) (goneDirectory args)).node ((goneDirectory args).child name) =
        some n → isExpected m name = true ∧
          isRemovable (b.move (liveDirectory args) (goneDirectory args)) name n = true := by
    intro name n hn
    have hn' := (moved [name]).symm.trans hn
    exact ⟨(h.entries name n hn').1, isRemovable_follows (h.entries name n hn').2 follows hn⟩
  exact {
    tree := by
      have hparent : (b.node ((absolute args.root).child ".activation-transaction")).isSome = true →
          (b.node (absolute args.root)).any FileTree.isDirectory = true := h.tree.parent
      refine h.tree.move hst hts rfl (hparent ?_)
      cases hnode : b.node (liveDirectory args) with
      | none =>
          have htop := h.top
          rw [hnode] at htop
          cases htop
      | some n =>
          rw [show (absolute args.root).child ".activation-transaction" = liveDirectory args from rfl,
            hnode]
          rfl
    follows := h.follows.trans follows
    same := fun q hq => by
      rw [outer q fun hin => hq (Or.inl hin)]
      exact h.same q hq
    top := by
      rw [top]
      exact h.top
    entries := entry
    manifest := readManifestFile_moved h.manifest follows fun name _ => moved [name]
    candidate := by
      obtain ⟨found, located⟩ := h.candidate
      exact (h.retire_located id free located).imp fun _ h => h.1
    staging := by
      have keep : ∀ q ∈ stagedPaths m,
          (b.move (liveDirectory args) (goneDirectory args)).node q = none ∨
          (b.move (liveDirectory args) (goneDirectory args)).node q = b.node q :=
        fun q hq => Or.inr (outer q (apart.staged q hq).1)
      exact ⟨h.staging.1.fewer follows (keep _ (by simp [stagedPaths]))
          (keep _ (by simp [stagedPaths])),
        h.staging.2.fewer follows (keep _ (by simp [stagedPaths]))
          (keep _ (by simp [stagedPaths]))⟩
    others := fun name hname => by
      by_cases hsame : (absolute args.root).child name = goneDirectory args
      · rw [hsame]
        constructor
        · intro n hn
          have htop := h.top
          rw [← top, hn] at htop
          exact htop
        · intro other _ n hn
          exact (entry other n hn).2
      · have hne : name ≠ ".activation-transaction" := by
          rintro rfl
          rw [isRetiredName_live] at hname
          cases hname
        have same : ∀ q, (absolute args.root).child name <+: q →
            (b.move (liveDirectory args) (goneDirectory args)).node q = b.node q := by
          intro q below
          apply FileTree.node_move_other hst hts
          · exact not_below_other below hne
          · apply not_below_other below
            rintro rfl
            exact hsame rfl
        refine (h.others name hname).fewer follows (fun n hn => ?_) fun other n hn => ?_
        · exact (same _ (List.prefix_refl _)).symm.trans hn
        · exact (same _ (FileTree.prefix_child _ other)).symm.trans hn }

end Retire

end Ready

end AgentsServer.Activation
