import AgentsServer.Activation.ReplaceConfig
import AgentsServer.Activation.RoundTrip
import AgentsServer.Library.JsonSize

/-!
# What a publication leaves

A call that returns has put the journaled file in the place of the configuration. It is the draft
that the call found, unless the second name of an earlier draft was there.
-/

namespace AgentsServer.Activation

open Library Program

/-! ## Steps -/

section Steps

variable {I : Store → Prop} {s : Store}

theorem holds_readTree {α : Type} (read : FileTree → Except Failure α) :
    Holds I (readTree read) (fun a t => t = s ∧ read s.tree = .ok a) s :=
  .look fun _ ha => ⟨rfl, ha⟩

theorem holds_onTree {change : FileTree → Except OsError FileTree}
    (hI : ∀ tree, change s.tree = .ok tree → I { s with tree }) :
    Holds I (onTree change) (fun _ t => ∃ tree, change s.tree = .ok tree ∧
      t = { s with tree }) s := by
  refine .act fun t ht => ?_
  cases hc : change s.tree with
  | error e =>
      rw [hc] at ht
      cases ht
  | ok tree =>
      rw [hc] at ht
      cases ht
      exact ⟨hI tree hc, tree, rfl, rfl⟩

theorem holds_require {c : Prop} [Decidable c] (e : Failure) :
    Holds I (look fun _ => require c e) (fun _ t => t = s ∧ c) s :=
  .look fun _ ha => ⟨rfl, (require_eq_ok _ _ _).mp ha⟩

end Steps

/-! ## Changes that keep every file -/

theorem rename_inodes {t t' : FileTree} {source target : Path}
    (h : t.rename source target = .ok t') : t'.inodes = t.inodes := by
  unfold FileTree.rename at h
  split at h
  · cases h
  · split at h
    · cases h
      rfl
    · split at h
      · cases h
      · split at h
        · cases h
        · split at h <;> cases h <;> rfl
  · split at h
    · cases h
    · split at h <;> cases h <;> rfl
    · split at h <;> cases h <;> rfl

theorem unlink_inodes {t t' : FileTree} {p : Path} (h : t.unlink p = .ok t') :
    t'.inodes = t.inodes := by
  unfold FileTree.unlink at h
  split at h <;> cases h
  rfl

theorem link_eq_ok {t t' : FileTree} {source target : Path} (h : t.link source target = .ok t') :
    ∃ n, t.node source = some n ∧ t' = t.put target n := by
  unfold FileTree.link at h
  cases hsource : t.node source with
  | none =>
      rw [hsource] at h
      cases h
  | some n =>
      rw [hsource] at h
      split at h <;> cases h
      next hsame _ =>
        cases hsame
        exact ⟨_, rfl, rfl⟩

/-- The same files, under whatever names, and the same transactions. -/
structure Keeps (s t : Store) : Prop where
  transactions : t.transactions = s.transactions
  inodes : t.tree.inodes = s.tree.inodes

theorem Keeps.refl (s : Store) : Keeps s s := ⟨rfl, rfl⟩

theorem Keeps.trans {s t u : Store} (h : Keeps s t) (h' : Keeps t u) : Keeps s u :=
  ⟨h'.transactions.trans h.transactions, h'.inodes.trans h.inodes⟩

section Publication

variable [Host] [Sha256] {s t : Store}

/-! ## Files that are read -/

omit [Sha256] in
theorem openChecked_eq_ok {tree : FileTree} {p : Path} {access : Nat}
    {allowed : FileId → Inode → Bool} {message : String} {id : FileId} {i : Inode}
    (h : openChecked tree p access allowed message = .ok (id, i)) :
    tree.node p = some (.file id) ∧ i = tree.inodes id := by
  unfold openChecked at h
  split at h
  · cases h
  · cases h
  · next id' hnode =>
      simp only [bind_eq_ok, pure_eq_ok, Prod.mk.injEq] at h
      obtain ⟨-, -, -, -, rfl, rfl⟩ := h
      exact ⟨hnode, rfl⟩
  · cases h

theorem stagedConfigMetadata_eq_ok {tree : FileTree} {p : Path} {metadata : Metadata}
    {id : FileId} (h : stagedConfigMetadata tree p = .ok (metadata, id)) :
    tree.node p = some (.file id) ∧ metadata.sha256 = Sha256.hexdigest (tree.inodes id).bytes ∧
      metadata.mode = (tree.inodes id).mode := by
  unfold stagedConfigMetadata at h
  simp only [bind_eq_ok, pure_eq_ok, Prod.exists, Prod.mk.injEq] at h
  obtain ⟨id', i, hopen, rfl, rfl⟩ := h
  obtain ⟨hnode, rfl⟩ := openChecked_eq_ok hopen
  exact ⟨hnode, rfl, rfl⟩

omit [Sha256] in
theorem openConfigStagingSource_eq_ok {tree : FileTree} {p : Path} {id : FileId}
    {payload : Bytes} (h : openConfigStagingSource tree p = .ok (id, payload)) :
    tree.node p = some (.file id) ∧ payload = (tree.inodes id).bytes := by
  unfold openConfigStagingSource at h
  simp only [bind_eq_ok, pure_eq_ok, Prod.exists, Prod.mk.injEq] at h
  obtain ⟨id', i, hopen, rfl, rfl⟩ := h
  obtain ⟨hnode, rfl⟩ := openChecked_eq_ok hopen
  exact ⟨hnode, rfl⟩

/-- A file is the one that a journal entry describes. -/
structure Desired.Describes (desired : Desired) (tree : FileTree) (id : FileId) : Prop where
  identity : desired.isFile id = true
  sha256 : desired.sha256 = Sha256.hexdigest (tree.inodes id).bytes
  mode : desired.mode = (tree.inodes id).mode

theorem configPathMatchesDesired_eq_true {tree : FileTree} {p : Path} {desired : Desired}
    (h : configPathMatchesDesired tree p desired = .ok true) :
    ∃ id, tree.node p = some (.file id) ∧ desired.Describes tree id := by
  unfold configPathMatchesDesired currentConfigMetadata readOwnedRegular at h
  split at h
  · cases h
  · next info hnode =>
      split at h
      · next hidentity =>
          simp only [bind_eq_ok, pure_eq_ok, Prod.exists] at h
          obtain ⟨metadata, ⟨payload, ⟨id, i, hopen, rfl⟩, rfl⟩, hsame⟩ := h
          obtain ⟨hfile, rfl⟩ := openChecked_eq_ok hopen
          rw [hnode] at hfile
          cases hfile
          have hmetadata := Option.some.inj (beq_iff_eq.mp hsame)
          exact ⟨id, hnode, hidentity, (congrArg Metadata.sha256 hmetadata).symm,
            (congrArg Metadata.mode hmetadata).symm⟩
      · cases h

omit [Host] [Sha256] in
/-- A journal entry has one file. -/
theorem isFile_unique {desired : Desired} {id id' : FileId} (h : desired.isFile id = true)
    (h' : desired.isFile id' = true) : id = id' := by
  obtain ⟨hd, hi⟩ := of_decide_eq_true h
  obtain ⟨hd', hi'⟩ := of_decide_eq_true h'
  obtain ⟨d, i, _, _⟩ := id
  obtain ⟨d', i', _, _⟩ := id'
  simp only at hd hi hd' hi'
  have hdevice : d = d' := by omega
  have hinode : i = i' := by omega
  subst hdevice hinode
  rfl

/-! ## The second name is published -/

omit [Host] [Sha256] in
theorem holds_unlinkIfSameFile (p : Path) (identity : FileId) :
    Holds (Keeps s) (unlinkIfSameFile p identity) (fun _ t => Keeps s t) s := by
  refine (holds_readTree _).bind ?_
  rintro same t ⟨rfl, -⟩
  split
  · refine (holds_onTree fun tree htree => ⟨rfl, unlink_inodes htree⟩).weaken (fun _ h => h) ?_
    rintro - t ⟨tree, htree, rfl⟩
    exact ⟨rfl, unlink_inodes htree⟩
  · exact .pure (.refl t)

omit [Host] [Sha256] in
theorem holds_restoreSourceName (staged source : Path) :
    Holds (Keeps s) (restoreSourceName staged source) (fun _ t => Keeps s t) s := by
  refine (holds_readTree _).bind ?_
  rintro ⟨hasStaged, hasSource⟩ t ⟨rfl, -⟩
  dsimp only
  split
  · refine (holds_onTree fun tree htree => ⟨rfl, rename_inodes htree⟩).weaken (fun _ h => h) ?_
    rintro - t ⟨tree, htree, rfl⟩
    exact ⟨rfl, rename_inodes htree⟩
  · exact .pure (.refl t)

/-- The file under the second name stands in the place of the configuration. -/
structure Placed (staged destination : Path) (desired : Desired) (s t : Store) : Prop where
  keeps : Keeps s t
  placed : ∃ id, s.tree.node staged = some (.file id) ∧
    t.tree.node destination = some (.file id) ∧ desired.Describes t.tree id

theorem holds_publishStagedConfig (staged source destination : Path) (desired : Desired) :
    Holds (Keeps s) (publishStagedConfig staged source destination desired)
      (fun _ t => Placed staged destination desired s t) s := by
  refine (holds_readTree _).bind ?_
  rintro ⟨metadata, identity⟩ t ⟨rfl, hstaged⟩
  obtain ⟨hnode, -, -⟩ := stagedConfigMetadata_eq_ok hstaged
  refine (holds_require _).bind ?_
  rintro - u ⟨rfl, -, hidentity⟩
  refine (holds_unlinkIfSameFile source identity).bind ?_
  intro _ v hkeeps
  have hrename : Holds (Keeps u)
      ((onTree fun t => t.rename staged destination).rescue fun e => do
        restoreSourceName staged source
        raise e)
      (fun _ t => Keeps u t) v := by
    refine Holds.rescue ?_ hkeeps ?_
    · refine (holds_onTree fun tree htree => hkeeps.trans ⟨rfl, rename_inodes htree⟩).weaken
        (fun _ h => h) ?_
      rintro - t ⟨tree, htree, rfl⟩
      exact hkeeps.trans ⟨rfl, rename_inodes htree⟩
    · intro e t ht
      refine Holds.bind ((holds_restoreSourceName staged source).weaken
        (fun _ h => ht.trans h) (fun _ _ h => h)) ?_
      intro _ _ _
      exact .raise
  refine hrename.bind ?_
  intro _ w hkeeps'
  refine (holds_readTree _).bind ?_
  rintro published x ⟨rfl, hpublished⟩
  refine (holds_require _).weaken (fun _ h => h) ?_
  rintro - y ⟨rfl, htrue⟩
  rw [htrue] at hpublished
  obtain ⟨id, hdestination, hdescribes⟩ := configPathMatchesDesired_eq_true hpublished
  cases isFile_unique hidentity hdescribes.identity
  exact ⟨hkeeps', identity, hnode, hdestination, hdescribes⟩

/-! ## What the manifest says -/

/-- What the dictionary in `manifest.json` says of the configuration that is published. -/
def journaledDesired (kind : Kind) (value : Json) : Option Desired :=
  (value.obj?.bind fun fields => Json.lookup fields (desiredKey kind)).bind desired?

omit [Sha256] in
theorem readDesired_eq_some {fields : List (String × Json)} {kind : Kind}
    {transactionId path : String} {desired : Desired}
    (h : readDesired fields kind transactionId path = .ok (some desired)) :
    (Json.lookup fields (desiredKey kind)).bind desired? = some desired := by
  unfold readDesired at h
  simp only [bind_eq_ok, required_eq_ok, require_eq_ok, pure_eq_ok] at h
  obtain ⟨item, hitem, -, -, rfl⟩ := h
  obtain ⟨value, hvalue, hdecoded⟩ := Option.bind_eq_some_iff.mp hitem
  rw [hvalue, Option.bind_some]
  unfold nullable at hdecoded
  split at hdecoded
  · cases hdecoded
  · obtain ⟨item, hitem, hsame⟩ := Option.map_eq_some_iff.mp hdecoded
    cases hsame
    exact hitem

omit [Sha256] in
theorem readDictionary_desired {root releases : Path} {sha256 : String → Except Failure String}
    {value : Json} {m : Manifest} {kind : Kind} {desired : Desired}
    (h : readDictionary root releases sha256 value = .ok m)
    (hdesired : (m.config kind).desired = some desired) :
    journaledDesired kind value = some desired := by
  unfold readDictionary at h
  refine of_bind_ok h fun fields hfields h => ?_
  iterate 3 refine of_bind_ok h fun _ _ h => ?_
  refine of_bind_ok h fun transactionId _ h => ?_
  iterate 3 refine of_bind_ok h fun _ _ h => ?_
  refine of_bind_ok h fun envPath _ h => ?_
  refine of_bind_ok h fun servicePath _ h => ?_
  iterate 15 refine of_bind_ok h fun _ _ h => ?_
  refine of_bind_ok h fun _ henv h => ?_
  refine of_bind_ok h fun _ hservice h => ?_
  iterate 11 refine of_bind_ok h fun _ _ h => ?_
  cases h
  unfold journaledDesired
  rw [(required_eq_ok _ _ _).mp hfields, Option.bind_some]
  cases kind with
  | env => exact readDesired_eq_some (henv.trans (congrArg Except.ok hdesired))
  | service => exact readDesired_eq_some (hservice.trans (congrArg Except.ok hdesired))

omit [Host] [Sha256] in
theorem journal_desired (m : Manifest) (kind : Kind) (desired : Desired) :
    journaledDesired kind (journal m kind desired).encode = some desired := by
  have hlookup : Json.lookup (journal m kind desired).fields (desiredKey kind) =
      some desired.encode := by
    cases kind <;>
      simp [Json.lookup, Manifest.fields, List.lookup_cons, desiredKey, journal, Manifest.setConfig,
        encodeOption]
  unfold journaledDesired Manifest.encode
  rw [show (Json.obj (journal m kind desired).fields).obj? = some _ from rfl, Option.bind_some,
    hlookup, Option.bind_some, desired?_encode]

/-- The dictionary in `manifest.json` of a transaction. -/
def manifestValue (s : Store) (directory : Path) : Option Json :=
  (s.transactions directory).bind Transaction.manifest

theorem readManifest_desired {root directory : Path} {m : Manifest} {kind : Kind}
    {desired : Desired} (h : readManifest root directory s = .ok m)
    (hdesired : (m.config kind).desired = some desired) :
    ∃ value, manifestValue s directory = some value ∧
      journaledDesired kind value = some desired := by
  unfold readManifest at h
  simp only [bind_eq_ok, required_eq_ok] at h
  obtain ⟨-, -, releases, -, transaction, htransaction, value, hvalue, -, -, hread⟩ := h
  refine ⟨value, ?_, readDictionary_desired hread hdesired⟩
  unfold manifestValue
  rw [htransaction]
  exact hvalue

/-! ## Every way to return -/

/-- What a call on a manifest leaves behind: a file in the place of the configuration, with the
mode that was asked for, which the manifest describes. It has the bytes of the draft that the call
found, and if there was none, it is the file that was journaled. -/
structure PublishedOf (directory source destination : Path) (m : Manifest) (kind : Kind)
    (mode : Nat) (s t : Store) : Prop where
  published : ∃ value desired id, manifestValue t directory = some value ∧
    journaledDesired kind value = some desired ∧
    t.tree.node destination = some (.file id) ∧ desired.Describes t.tree id ∧
    desired.mode = mode ∧
    match s.tree.node source with
    | none => (m.config kind).desired = some desired
    | some n => ∃ found, n = .file found ∧
        (t.tree.inodes id).bytes = (s.tree.inodes found).bytes

/-- There is no draft, or no second name of an earlier one, or both name the same bytes. -/
def Settled (source secured : Path) (t : FileTree) : Prop :=
  t.node source = none ∨ t.node secured = none ∨
    ∃ id id', t.node source = some (.file id) ∧ t.node secured = some (.file id') ∧
      (t.inodes id).bytes = (t.inodes id').bytes

omit [Host] [Sha256] in
theorem manifestValue_keeps {t : Store} (h : Keeps s t) (directory : Path) :
    manifestValue t directory = manifestValue s directory := by
  unfold manifestValue
  rw [h.transactions]

omit [Host] [Sha256] in
theorem holds_journaled {m : Manifest} {kind : Kind} {mode : Nat} {message : String} {s : Store} :
    Holds (fun _ => True) (journaled m kind mode message)
      (fun desired t => t = s ∧ (m.config kind).desired = some desired ∧ desired.mode = mode) s := by
  refine .look ?_
  intro desired h
  cases hdesired : (m.config kind).desired with
  | none =>
      rw [hdesired] at h
      cases h
  | some d =>
      rw [hdesired] at h
      simp only [bind_eq_ok, require_eq_ok, pure_eq_ok] at h
      obtain ⟨-, hmode, rfl⟩ := h
      exact ⟨rfl, rfl, hmode⟩

variable {directory source secured destination : Path} {m : Manifest} {kind : Kind} {mode : Nat}

/-- A draft is published. -/
theorem holds_publishDraft :
    Holds (fun _ => True) (publishDraft directory source secured destination m kind mode)
      (fun _ t => ∃ found, s.tree.node source = some (.file found) ∧
        PublishedOf directory source destination m kind mode s t) s := by
  refine (holds_readTree _).bind ?_
  rintro ⟨found, payload⟩ t ⟨rfl, hopen⟩
  obtain ⟨hsource, rfl⟩ := openConfigStagingSource_eq_ok hopen
  have hwrite : Holds (fun _ => True)
      (writeManifest directory
        (journal m kind (draft source mode found (t.tree.inodes found).bytes)))
      (fun _ u => u.tree = t.tree ∧ manifestValue u directory =
        some (journal m kind (draft source mode found (t.tree.inodes found).bytes)).encode) t := by
    refine .act fun u hu => ⟨trivial, ?_⟩
    cases htransaction : t.transactions directory with
    | none =>
        rw [htransaction] at hu
        cases hu
    | some transaction =>
        rw [htransaction] at hu
        cases hu
        refine ⟨rfl, ?_⟩
        unfold manifestValue Store.setTransaction
        simp
  refine hwrite.bind ?_
  rintro - u ⟨htree, hmanifest⟩
  refine (holds_onTree fun _ _ => trivial).bind ?_
  rintro - v ⟨_, ⟨⟩, rfl⟩
  refine (holds_onTree fun _ _ => trivial).bind ?_
  rintro - w ⟨tree, hlink, rfl⟩
  obtain ⟨n, -, rfl⟩ := link_eq_ok hlink
  refine (holds_readTree _).bind ?_
  rintro ⟨⟩ x ⟨rfl, hrequired⟩
  have hsecured := (require_eq_ok _ _ _).mp hrequired
  refine ((holds_publishStagedConfig secured source destination _).weaken
    (fun _ _ => trivial) (fun _ _ h => h)).weaken (fun _ h => h) ?_
  rintro - y ⟨hkeeps, id, hnode, hdestination, hdescribes⟩
  rw [hsecured] at hnode
  cases hnode
  refine ⟨found, hsource, ⟨_, _, found, ?_, journal_desired m kind _, hdestination, hdescribes,
    rfl, ?_⟩⟩
  · rw [manifestValue_keeps hkeeps]
    exact hmanifest
  · rw [hsource]
    refine ⟨found, rfl, ?_⟩
    rw [hkeeps.inodes]
    simp [FileTree.chmod, FileTree.setInode, htree]

/-- What the second name of an earlier draft is published as. -/
theorem publishedOf_placed {root : Path} {desired : Desired} {t : Store}
    (hread : readManifest root directory s = .ok m)
    (hdesired : (m.config kind).desired = some desired) (hmode : desired.mode = mode)
    (h : Placed secured destination desired s t) :
    PublishedOf directory source destination m kind mode s t ↔
      Settled source secured s.tree := by
  obtain ⟨hkeeps, id, hsecured, hdestination, hdescribes⟩ := h
  obtain ⟨value, hvalue, hjournaled⟩ := readManifest_desired hread hdesired
  rw [← manifestValue_keeps hkeeps] at hvalue
  constructor
  · rintro ⟨_, _, id', -, -, hdestination', -, -, hbytes⟩
    rw [hdestination] at hdestination'
    cases hdestination'
    cases hsource : s.tree.node source with
    | none => exact .inl hsource
    | some n =>
        rw [hsource] at hbytes
        obtain ⟨found, rfl, hbytes⟩ := hbytes
        rw [hkeeps.inodes] at hbytes
        exact .inr (.inr ⟨found, id, hsource, hsecured, hbytes.symm⟩)
  · intro hsettled
    refine ⟨value, desired, id, hvalue, hjournaled, hdestination, hdescribes, hmode, ?_⟩
    rcases hsettled with hnone | hnone | ⟨found, id', hsource, hsecured', hbytes⟩
    · rw [hnone]
      exact hdesired
    · rw [hsecured] at hnone
      cases hnone
    · rw [hsecured] at hsecured'
      cases hsecured'
      rw [hsource]
      refine ⟨found, rfl, ?_⟩
      rw [hkeeps.inodes]
      exact hbytes.symm

theorem holds_publish {root : Path} (hread : readManifest root directory s = .ok m) :
    Holds (fun _ => True) (publish directory source secured destination m kind mode)
      (fun _ t => PublishedOf directory source destination m kind mode s t ↔
        Settled source secured s.tree) s := by
  refine (holds_readTree _).bind ?_
  rintro ⟨hasSource, hasSecured⟩ t ⟨rfl, hnames⟩
  cases hnames
  dsimp only
  split
  · next hnone =>
      have hsource : t.tree.node source = none := by
        simpa using hnone
      refine holds_journaled.bind ?_
      rintro desired u ⟨rfl, hdesired, hmode⟩
      split
      · refine (holds_publishStagedConfig secured source destination desired).weaken
          (fun _ _ => trivial) ?_
        intro _ v hplaced
        exact publishedOf_placed hread hdesired hmode hplaced
      · refine (holds_readTree _).bind ?_
        rintro published v ⟨rfl, hpublished⟩
        refine (holds_require _).weaken (fun _ h => h) ?_
        rintro - w ⟨rfl, htrue⟩
        rw [htrue] at hpublished
        obtain ⟨id, hdestination, hdescribes⟩ := configPathMatchesDesired_eq_true hpublished
        obtain ⟨value, hvalue, hjournaled⟩ := readManifest_desired hread hdesired
        refine iff_of_true ⟨value, desired, id, hvalue, hjournaled, hdestination, hdescribes,
          hmode, ?_⟩ (.inl hsource)
        rw [hsource]
        exact hdesired
  · split
    · refine holds_journaled.bind ?_
      rintro desired u ⟨rfl, hdesired, hmode⟩
      refine (holds_publishStagedConfig secured source destination desired).weaken
        (fun _ _ => trivial) ?_
      intro _ v hplaced
      exact publishedOf_placed hread hdesired hmode hplaced
    · next hnone =>
        refine holds_publishDraft.weaken (fun _ h => h) ?_
        rintro - u ⟨found, hsource, hpublished⟩
        refine iff_of_true hpublished (.inr (.inl ?_))
        simpa using hnone

/-! ## A call -/

/-- What a call that returns has done, where `m` is the manifest that it found. -/
def Published (args : Invocation) (kind : Kind) (sourceArg : String) (mode : Nat)
    (s t : Store) : Prop :=
  ∃ m, readManifest (absolute args.root) (transactionDirectory (absolute args.root)) s = .ok m ∧
    PublishedOf (transactionDirectory (absolute args.root)) (absolute sourceArg)
      (absolute (m.config kind).path) m kind mode s t

/-- No second name of an earlier draft is in the way of another draft. -/
def NoneUnpublished (args : Invocation) (kind : Kind) (sourceArg : String) (s : Store) : Prop :=
  ∃ m, readManifest (absolute args.root) (transactionDirectory (absolute args.root)) s = .ok m ∧
    Settled (absolute sourceArg)
      (configStagingPaths (absolute (m.config kind).path) m.transactionId kind).2 s.tree

/-- A call that returns has published the draft exactly if no second name of another draft was
there when it started. -/
theorem replaceConfig_published_iff (args : Invocation) (kind : Kind) (sourceArg : String)
    (mode : Nat) (s : Store)
    (h : ((replaceConfig args kind sourceArg mode).run s).2 = .ok ()) :
    Published args kind sourceArg mode s ((replaceConfig args kind sourceArg mode).final s) ↔
      NoneUnpublished args kind sourceArg s := by
  have hcall : Holds (fun _ => True) (replaceConfig args kind sourceArg mode)
      (fun _ t => Published args kind sourceArg mode s t ↔
        NoneUnpublished args kind sourceArg s) s := by
    refine (Holds.look (Q := fun m t => t = s ∧ readManifest (absolute args.root)
      (transactionDirectory (absolute args.root)) s = .ok m) fun _ hm => ⟨rfl, hm⟩).bind ?_
    rintro m t ⟨rfl, hread⟩
    refine (holds_readTree _).bind ?_
    rintro - t ⟨rfl, -⟩
    refine (holds_require _).bind ?_
    rintro - t ⟨rfl, -⟩
    refine (holds_require _).bind ?_
    rintro - t ⟨rfl, -⟩
    refine (holds_require _).bind ?_
    rintro - t ⟨rfl, -⟩
    refine (holds_publish hread).weaken (fun _ h => h) ?_
    intro _ u hiff
    constructor
    · rintro ⟨m', hm', hpublished⟩
      rw [hread] at hm'
      cases hm'
      exact ⟨m, hread, hiff.mp hpublished⟩
    · rintro ⟨m', hm', hsettled⟩
      rw [hread] at hm'
      cases hm'
      exact ⟨m, hread, hiff.mpr hsettled⟩
  exact hcall.2 () h

end Publication

/-! ## Another draft after an interrupted call -/

@[reducible] def rootHost : Host where
  workingDirectory := []
  expanduser := id
  superuser := false
  ipAddress _ := none

@[reducible] def paddedSha : Sha256 where
  digest text := (text ++ List.replicate 32 0).take 32
  length_digest text := by
    rw [List.length_take, List.length_append, List.length_replicate]
    omega

section Example

attribute [local instance] rootHost paddedSha

def linkedManifest : Manifest where
  transactionId := "activation-000000000000000000000000"
  releaseVersion := "1"
  releaseDir := "/r/releases/1"
  candidateRelease := {
    source := "/r/releases/s"
    target := "/r/releases/1"
    device := 1
    inode := 2
    versionSha256 := Sha256.hexdigest [49] }
  oldTarget := ""
  oldRelease := none
  current := .missing
  previous := .missing
  previousRelease := none
  env := {
    path := "/e"
    original := { existed := false, backup := "env.backup", sha256 := none, mode := none }
    desired := none
    observed := [none] }
  service := {
    path := "/s"
    original := { existed := false, backup := "service.backup", sha256 := none, mode := none }
    desired := none
    observed := [none] }
  serviceState := .absent
  serviceEnabled := false
  legacyServiceState := .absent
  legacyServiceEnabled := false
  priorPort := 80
  priorBindAddress := "localhost"
  intent := .ordinary
  clientBinding := ""
  phase := .linked
  rollbackFrom := none
  hub := none
  guard := none
  authorityPending := false

def fileId (n : Nat) (h : 0 < n) : FileId := ⟨1, n, Nat.one_pos, h⟩

def draftPath : Path := [".e.activation-activation-000000000000000000000000-env.source"]
def publicationPath : Path := [".e.activation-activation-000000000000000000000000-env.publication"]

def linkedTree : FileTree where
  entries := [(["r"], .directory (fileId 7 (by decide)) true 0o700),
    (["r", "releases"], .directory (fileId 4 (by decide)) true 0o700),
    (["r", "releases", "1"], .directory (fileId 2 (by decide)) true 0o700),
    (["r", "releases", "1", "VERSION"], .file (fileId 3 (by decide))),
    (["r", "current"], .symlink "/r/releases/1"),
    (draftPath, .file (fileId 5 (by decide)))]
  inodes id :=
    if id.inode = 3 then { owned := true, mode := 0o644, bytes := [49] }
    else { owned := true, mode := 0o600, bytes := if id.inode = 5 then [97] else [98] }
  unique := by decide

def linkedInvocation : Invocation where
  root := "/r"
  current := "/r/current"
  previous := "/r/previous"
  env := "/e"
  service := "/s"
  releaseDir := "/r/releases/1"
  releaseVersion := "1"
  transactionId := "activation-000000000000000000000000"

/-- A draft of the environment of an activation that has taken its links over. -/
def draftStore : Store where
  tree := linkedTree
  transactions p :=
    if p = ["r", ".activation-transaction"] then
      some { manifest := some linkedManifest.encode, backups := fun _ => none }
    else none

def journaledManifest : Manifest :=
  journal linkedManifest .env (draft draftPath 0o600 (fileId 5 (by decide)) [97])

/-- The call was cut off after it gave the draft its second name. -/
def interruptedStore : Store :=
  { draftStore.setTransaction ["r", ".activation-transaction"]
      { manifest := some journaledManifest.encode, backups := fun _ => none } with
    tree := (linkedTree.chmod (fileId 5 (by decide)) 0o600).put publicationPath
      (.file (fileId 5 (by decide))) }

/-- The caller has written another draft since. -/
def redraftedStore : Store :=
  { interruptedStore with
    tree := interruptedStore.tree.put draftPath (.file (fileId 6 (by decide))) }

set_option maxRecDepth 8000

theorem linkedManifest_valid :
    linkedManifest.Valid ["r"] ["r", "releases"] (backupSha256 fun _ => none) where
  origin := by decide
  transactionId := by decide
  releaseVersion := by decide
  releaseDir := by decide
  path := by rintro (_ | _) <;> decide
  oldTarget := by decide
  identities := by decide
  links := by decide
  original := by rintro (_ | _) <;> decide
  kept := by rintro (_ | _) h <;> cases h
  priorPort := by decide
  priorBind := by decide
  clientBinding := by decide
  desired := by rintro (_ | _) <;> decide
  observed := by rintro (_ | _) <;> decide
  candidatePlace := by decide
  oldPlace := by decide
  previousPlace := by decide
  hub := rfl
  guard := rfl

theorem journaledManifest_valid :
    journaledManifest.Valid ["r"] ["r", "releases"] (backupSha256 fun _ => none) where
  __ := linkedManifest_valid
  path := by rintro (_ | _) <;> decide
  original := by rintro (_ | _) <;> decide
  kept := by rintro (_ | _) h <;> cases h
  desired := by rintro (_ | _) <;> decide
  observed := by rintro (_ | _) <;> decide

theorem canonicalSize_eq (value : Json) :
    canonicalSize value = Json.size Json.escapeAscii value + 1 := by
  unfold canonicalSize
  rw [← Json.size_sortKeys]
  rfl

/-- A manifest is read where the directories are safe, and it is valid and of the size allowed. -/
theorem readManifest_eq_ok {root directory releases : Path} {s : Store}
    {backups : String → Option Bytes} {m : Manifest} (hroot : validateRoot root s.tree = .ok ())
    (hreleases : validateReleasesRoot root s.tree = .ok releases)
    (htransaction : s.transactions directory = some { manifest := some m.encode, backups })
    (hsize : Json.size Json.escapeAscii m.encode < maxControlBytes)
    (hvalid : m.Valid root releases (backupSha256 backups)) : readManifest root directory s = .ok m := by
  unfold readManifest
  simp only [bind_eq_ok, required_eq_ok, require_eq_ok]
  refine ⟨(), hroot, releases, hreleases, _, htransaction, _, rfl, (), ?_, ?_⟩
  · rw [canonicalSize_eq]
    exact hsize
  · exact readDictionary_eq_ok.mpr ⟨rfl, hvalid⟩

theorem readManifest_draft :
    readManifest ["r"] ["r", ".activation-transaction"] draftStore = .ok linkedManifest :=
  readManifest_eq_ok rfl rfl rfl (by decide) linkedManifest_valid

theorem readManifest_redrafted :
    readManifest ["r"] ["r", ".activation-transaction"] redraftedStore = .ok journaledManifest :=
  readManifest_eq_ok rfl rfl rfl (by decide) journaledManifest_valid

def draftText : String := "/.e.activation-activation-000000000000000000000000-env.source"

def linkedCall : Program Store Failure Unit :=
  replaceConfig linkedInvocation .env draftText 0o600

theorem linkedCall_run (s : Store) (m : Manifest)
    (h : readManifest ["r"] ["r", ".activation-transaction"] s = .ok m) :
    linkedCall.run s =
      (replaceFrom linkedInvocation .env draftText 0o600 ["r", ".activation-transaction"] m).run s :=
  replaceConfig_run h

theorem linkedCall_redrafted :
    (linkedCall.run redraftedStore).2 = .ok () ∧
      (linkedCall.final redraftedStore).tree.node ["e"] =
        some (.file (fileId 5 (by decide))) ∧
      (linkedCall.final redraftedStore).tree.inodes (fileId 5 (by decide)) =
        redraftedStore.tree.inodes (fileId 5 (by decide)) := by
  unfold final
  rw [linkedCall_run _ _ readManifest_redrafted]
  exact ⟨rfl, rfl, rfl⟩

theorem interruptedStore_mem : interruptedStore ∈ linkedCall.cuts draftStore := by
  unfold cuts
  rw [linkedCall_run _ _ readManifest_draft]
  refine List.mem_cons_of_mem _ (List.mem_of_getElem? (i := 2) ?_)
  rfl

/-- The call returns, and the first draft is in the place of the configuration. -/
theorem second_draft_unpublished :
    interruptedStore ∈ linkedCall.cuts draftStore ∧
      (linkedCall.run redraftedStore).2 = .ok () ∧
      ¬Published linkedInvocation .env draftText 0o600 redraftedStore
        (linkedCall.final redraftedStore) := by
  obtain ⟨hreturns, hplaced, hinode⟩ := linkedCall_redrafted
  refine ⟨interruptedStore_mem, hreturns, ?_⟩
  rintro ⟨m, hread, _, _, id, -, -, hdestination, -, -, hbytes⟩
  cases Except.ok.inj (readManifest_redrafted.symm.trans hread)
  rw [show absolute (journaledManifest.config .env).path = ["e"] from by decide, hplaced]
    at hdestination
  cases hdestination
  rw [show redraftedStore.tree.node (absolute draftText) =
    some (.file (fileId 6 (by decide))) from by decide] at hbytes
  obtain ⟨found, hfound, hbytes⟩ := hbytes
  cases hfound
  rw [hinode] at hbytes
  exact absurd hbytes (by decide)

theorem linkedCall_draft : (linkedCall.run draftStore).2 = .ok () := by
  rw [linkedCall_run _ _ readManifest_draft]
  rfl

theorem replaceConfig_published_draft :
    (linkedCall.run draftStore).2 = .ok () ∧
      (Published linkedInvocation .env draftText 0o600 draftStore
        (linkedCall.final draftStore) ↔
        NoneUnpublished linkedInvocation .env draftText draftStore) :=
  ⟨linkedCall_draft, replaceConfig_published_iff linkedInvocation .env draftText 0o600 draftStore
    linkedCall_draft⟩

end Example

end AgentsServer.Activation
