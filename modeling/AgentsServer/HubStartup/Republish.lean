import AgentsServer.HubStartup.Residues
import AgentsServer.Library.JsonLines
import Mathlib.Data.Bool.AllAny

/-!
# Publishing the authority again

After any run of publications, clearances and starts, each of which may be cut
off after any of its effects, the next publication for the current fence
succeeds exactly where the authority file can be read: it is missing, or holds
at least one byte and at most the control size.
-/

namespace AgentsServer.HubStartup

open Library Program Activation FileTree Json

/-! ## The size of the file -/

section Size

variable {c : Char} {s : String} {fields : List (String × Json)}

theorem simple_alnum (h : isAlnum c = true) : Simple c := simple_of_isAlphanum h

theorem simple_of_isNameOf {first rest : Char → Bool} {low high : Nat} {cs : List Char}
    (h : isNameOf first rest low high cs = true) (hfirst : ∀ c, first c = true → Simple c)
    (hrest : ∀ c, rest c = true → Simple c) :
    (∀ c ∈ cs, Simple c) ∧ cs.length ≤ high + 1 := by
  cases cs with
  | nil => cases h
  | cons c cs =>
      simp only [isNameOf, Bool.and_eq_true, List.all_eq_true, decide_eq_true_eq] at h
      obtain ⟨⟨head, tail⟩, -, bound⟩ := h
      constructor
      · intro d hd
        rcases List.mem_cons.mp hd with rfl | hd
        · exact hfirst d head
        · exact hrest d (tail d hd)
      · rw [List.length_cons]
        omega

/-- A letter, a digit or one of a few marks. -/
theorem simple_allowed {marks : String} (simple : (marks.toList.all fun c => Simple c) = true)
    (h : (isAlnum c || marks.toList.contains c) = true) : Simple c := by
  rcases Bool.or_eq_true _ _ |>.mp h with h | h
  · exact simple_alnum h
  · exact List.all_iff_forall_prop.mp simple c (by simpa using h)

theorem size_hubId (h : isHubId s = true) : size escape (.str s) ≤ 242 := by
  have allowed : ∀ c, (isAlnum c || "_.:-".toList.contains c) = true → Simple c :=
    fun c => simple_allowed (by decide)
  obtain ⟨simple, short⟩ := simple_of_isNameOf h allowed allowed
  rw [size_simple simple]
  rw [String.length_toList] at short
  omega

theorem size_hostIdentity (h : isHostIdentity s = true) : size escape (.str s) ≤ 242 := by
  obtain ⟨simple, short⟩ := simple_of_isNameOf h (fun c => simple_alnum)
    fun c => simple_allowed (by decide)
  rw [size_simple simple]
  rw [String.length_toList] at short
  omega

theorem size_operationId (h : isOperationId s = true) : size escape (.str s) ≤ 130 := by
  obtain ⟨simple, short⟩ := simple_of_isNameOf h (fun c => simple_alnum)
    fun c => simple_allowed (by decide)
  rw [size_simple simple]
  rw [String.length_toList] at short
  omega

theorem size_snapshotName (h : isSnapshotName s = true) (short : utf8Size s.toList ≤ nameMax) :
    size escape (.str s) ≤ 257 := by
  have simple : ∀ c ∈ s.toList, Simple c := by
    unfold isSnapshotName at h
    simp only [Bool.and_eq_true, List.isPrefixOf_iff_prefix, List.all_eq_true, Bool.or_eq_true,
      beq_iff_eq] at h
    obtain ⟨⟨tail, htail⟩, -, rest⟩ := h
    rw [← htail] at rest ⊢
    have before : ∀ c ∈ "snapshot_".toList, Simple c :=
      List.all_iff_forall_prop.mp (by decide)
    intro c hc
    rcases List.mem_append.mp hc with hc | hc
    · exact before c hc
    · rcases rest c (by simpa using hc) with h | rfl
      · exact simple_alnum h
      · decide
  have chars : ∀ cs : List Char, cs.length ≤ utf8Size cs := by
    intro cs
    induction cs with
    | nil => exact Nat.le_refl 0
    | cons c cs ih =>
        have one := c.utf8Size_pos
        rw [utf8Size_cons, List.length_cons]
        omega
  have bound := (chars s.toList).trans short
  rw [String.length_toList] at bound
  rw [size_simple simple]
  unfold nameMax at bound
  omega

theorem simple_lowerHex (h : isLowerHex c = true) : Simple c := by
  apply simple_alnum
  unfold isLowerHex at h
  unfold isAlnum
  rcases Bool.or_eq_true _ _ |>.mp h with digit | letter
  · rw [digit, Bool.or_true]
  · rw [Bool.and_eq_true, decide_eq_true_eq, decide_eq_true_eq] at letter
    have lower : c.isLower = true := by
      unfold Char.isLower
      rw [Bool.and_eq_true, decide_eq_true_eq, decide_eq_true_eq]
      exact ⟨letter.1, UInt32.le_trans (b := 'f'.val) letter.2 (by decide)⟩
    unfold Char.isAlpha
    rw [lower, Bool.or_true, Bool.true_or]

theorem size_digest (h : isDigest s = true) : size escape (.str s) ≤ 66 := by
  unfold isDigest isHexOf at h
  rw [Bool.and_eq_true, beq_iff_eq, List.all_eq_true] at h
  have simple : ∀ c ∈ s.toList, Simple c := fun c hc => simple_lowerHex (h.2 c hc)
  have length := h.1
  rw [String.length_toList] at length
  rw [size_simple simple, length]

/-- What a fence says about an operation. -/
structure Named (expected : Expected) (digest : String) : Prop where
  hubId : isHubId expected.hubId = true
  hostIdentity : isHostIdentity expected.hostIdentity = true
  reason : expected.reason.length ≤ 80
  operationId : isOperationId expected.operationId = true
  snapshot : isSnapshotName expected.snapshot.name = true
  short : utf8Size expected.snapshot.name.toList ≤ nameMax
  digest : isDigest digest = true

theorem size_authorityPayload {expected : Expected} {digest : String} (h : Named expected digest) :
    32 ≤ (authorityPayload expected digest).length ∧
      (authorityPayload expected digest).length ≤ 4096 := by
  have hub := size_hubId h.hubId
  have host := size_hostIdentity h.hostIdentity
  have reason := size_str_le expected.reason
  have bound := h.reason
  have operation := size_operationId h.operationId
  have snapshot := size_snapshotName h.snapshot h.short
  have hash := size_digest h.digest
  have one : size escape (.num (.ofNat 1)) = 1 := by decide
  have whole : (authorityPayload expected digest).length =
      size escape (.obj (authorityFields expected digest)) + 1 := by
    unfold authorityPayload
    have line : utf8Size ['\n'] = 1 := by decide
    rw [length_utf8, utf8Size_append, utf8Size_canonical, line]
  have keys : utf8Size (quote escape "format") = 8 ∧ utf8Size (quote escape "reason") = 8 ∧
      utf8Size (quote escape "hub_id") = 8 ∧
      utf8Size (quote escape "host_server_identity") = 22 ∧
      utf8Size (quote escape "operation_id") = 14 ∧ utf8Size (quote escape "snapshot") = 10 ∧
      utf8Size (quote escape "snapshot_manifest_sha256") = 26 := by decide
  obtain ⟨k₁, k₂, k₃, k₄, k₅, k₆, k₇⟩ := keys
  rw [whole, size_obj, if_neg (by simp [authorityFields])]
  simp only [authorityFields, List.map_cons, List.map_nil, List.sum_cons, List.sum_nil, fieldSize,
    k₁, k₂, k₃, k₄, k₅, k₆, k₇, one]
  omega

end Size

/-! ## What the reads give -/

section Reading

variable {α : Type} {x : Except Failure α} {a : α} {t : FileTree} {p root : Path} {message : String}
  {maximum : Nat} {bytes : Bytes} {id : FileId}

theorem ifThere_eq_some (h : ifThere x = .ok (some a)) : x = .ok a := by
  unfold ifThere at h
  split at h <;> cases h
  rfl

theorem ifThere_eq_none (h : ifThere x = .ok none) : x = .error (.osError .fileNotFound) := by
  unfold ifThere at h
  split at h <;> cases h
  rfl

theorem openFile_eq_ok (h : openFile t p message = .ok id) :
    (∀ name ∈ p, utf8Size name.toList ≤ nameMax) ∧ t.node p = some (.file id) := by
  unfold openFile at h
  simp only [bind_eq_ok, require_eq_ok] at h
  obtain ⟨-, short, h⟩ := h
  refine ⟨short, ?_⟩
  split at h
  · cases h
  · next there =>
      cases h
      exact there
  · cases h
  · cases h

theorem openFile_missing (h : openFile t p message = .error (.osError .fileNotFound)) :
    t.node p = none := by
  unfold openFile at h
  rw [bind_eq_error] at h
  rcases h with h | ⟨-, -, h⟩
  · rw [require_eq_error] at h
    cases h.2
  · split at h
    · next missing => exact missing
    · cases h
    · cases h
    · cases h

theorem readPrivateRegularFile_eq_ok (h : readPrivateRegularFile t p maximum = .ok bytes) :
    ∃ id, (∀ name ∈ p, utf8Size name.toList ≤ nameMax) ∧ t.node p = some (.file id) ∧
      bytes = (t.inodes id).bytes ∧ 1 ≤ bytes.length ∧ bytes.length ≤ maximum := by
  unfold readPrivateRegularFile at h
  simp only [bind_eq_ok, require_eq_ok, pure_eq_ok] at h
  obtain ⟨id, opened, -, ⟨-, least, most⟩, rfl⟩ := h
  obtain ⟨short, there⟩ := openFile_eq_ok opened
  exact ⟨id, short, there, rfl, least, most⟩

theorem readPrivateRegularFile_missing
    (h : readPrivateRegularFile t p maximum = .error (.osError .fileNotFound)) :
    t.node p = none := by
  unfold readPrivateRegularFile at h
  rw [bind_eq_error] at h
  rcases h with h | ⟨id, -, h⟩
  · exact openFile_missing h
  · rw [bind_eq_error] at h
    rcases h with h | ⟨-, -, h⟩
    · rw [require_eq_error] at h
      cases h.2
    · cases h

/-- The authority file is missing or can be read. -/
def Readable (root : Path) (t : FileTree) : Prop :=
  ∀ id, t.node (authorityPath root) = some (.file id) →
    1 ≤ (t.inodes id).bytes.length ∧ (t.inodes id).bytes.length ≤ maxControlSize

theorem short_authorityPath (short : ∀ name ∈ root, utf8Size name.toList ≤ nameMax) :
    ∀ name ∈ authorityPath root, utf8Size name.toList ≤ nameMax := by
  intro name hname
  rcases List.mem_append.mp hname with hname | hname
  · exact short name hname
  · rw [List.mem_singleton.mp hname]
    decide

theorem read_authority (residual : Residual root t) (readable : Readable root t)
    (short : ∀ name ∈ root, utf8Size name.toList ≤ nameMax) :
    ∃ o, ifThere (readPrivateRegularFile t (authorityPath root) maxControlSize) = .ok o := by
  cases there : t.node (authorityPath root) with
  | none =>
      refine ⟨none, ?_⟩
      unfold readPrivateRegularFile openFile
      rw [require_bind (short_authorityPath short), there]
      rfl
  | some n =>
      obtain ⟨id, rfl, links, owned, content⟩ := residual.file n there
      obtain ⟨least, most⟩ := readable id there
      have mode : (t.inodes id).mode = 0o600 := by
        rcases content with empty | mode
        · rw [empty] at least
          cases least
        · exact mode
      have safe : isPrivate t id = true := by
        unfold isPrivate
        rw [links, owned, mode]
        rfl
      refine ⟨some (t.inodes id).bytes, ?_⟩
      unfold readPrivateRegularFile openFile
      rw [require_bind (short_authorityPath short), there]
      dsimp only
      rw [ok_bind, require_bind ⟨safe, least, most⟩]
      rfl

end Reading

theorem holds_unlinkAuthority (root : Path) (t : FileTree) :
    Holds (Residual root) (change fun t => t.unlink (authorityPath root)) (fun _ _ => True) t := by
  refine .act fun u hu => ⟨?_, trivial⟩
  dsimp only at hu
  cases hr : t.unlink (authorityPath root) with
  | error e =>
      rw [hr] at hu
      cases hu
  | ok v =>
      rw [hr] at hu
      cases hu
      unfold unlink at hr
      split at hr
      · cases hr
      · cases hr
      · cases hr
        refine ⟨fun n hn => ?_⟩
        rw [node_erase, if_pos rfl] at hn
        cases hn

/-! ## The fence of a publication -/

section Fence

variable [FloatText] [Sha256] {root : Path} {expected given : Expected} {t u : FileTree}
  {digest hostIdentity : String} {fields : List (String × Json)}

omit [FloatText] [Sha256] in
theorem isText_of {key : String} {check : String → Bool} {value : String}
    (h : isText fields key check = true) (named : textOf fields key = some value) :
    check value = true := by
  unfold isText at h
  rwa [named] at h

omit [FloatText] in
theorem snapshotDigest_short {snapshot : Path} (h : snapshotDigest t snapshot = .ok digest) :
    utf8Size snapshot.name.toList ≤ nameMax := by
  unfold snapshotDigest sha256PrivateRegularFile at h
  simp only [bind_eq_ok, required_eq_ok] at h
  obtain ⟨-, read, rfl⟩ := h
  have opened := ifThere_eq_some read
  simp only [bind_eq_ok] at opened
  obtain ⟨id, opened, -⟩ := opened
  have short := (openFile_eq_ok opened).1
  unfold Path.name
  cases hlast : snapshot.getLast? with
  | none =>
      rw [List.getLast?_eq_none_iff.mp hlast]
      decide
  | some name =>
      rw [List.getLastD_eq_getLast?, hlast]
      exact short name (List.mem_append_left _ (List.mem_of_getLast? hlast))

/-- A publication is only made for a fence that names the operation. -/
theorem authenticateFence_eq_ok (h : authenticateFence root expected t = .ok digest) :
    (∀ name ∈ root, utf8Size name.toList ≤ nameMax) ∧
      ∀ operationId, maintenanceOperationId expected.operationId = .ok operationId →
        Named { expected with operationId } digest := by
  unfold authenticateFence at h
  simp only [bind_eq_ok, required_eq_ok, Option.bind_eq_some_iff] at h
  obtain ⟨-, control, digest', ⟨fields, rfl, named⟩, h⟩ := h
  have same : digest' = digest := by
    split at h
    · simp only [bind_eq_ok, pure_eq_ok] at h
      obtain ⟨-, -, same⟩ := h
      exact same
    · exact (pure_eq_ok _ _).mp h
  subst same
  unfold maintenanceFenceControl at control
  rw [bind_eq_ok] at control
  obtain ⟨read, hread, control⟩ := control
  cases read with
  | none => cases control
  | some raw =>
      obtain ⟨-, short, -, -, -, -⟩ := readPrivateRegularFile_eq_ok (ifThere_eq_some hread)
      refine ⟨fun name hname => short name (List.mem_append_left _ hname), ?_⟩
      simp only [bind_eq_ok, require_eq_ok] at control
      obtain ⟨marker, -, -, ⟨valid, hub, host, reason⟩, operation, hoperation, -, hid, -, snapshot,
        rest⟩ := control
      have hfields : marker = .obj fields ∧ textOf fields "snapshot_manifest_sha256" =
          some digest' ∧ ∃ actual, snapshotDigest t expected.snapshot = .ok actual := by
        cases marker with
        | obj fields' =>
            split at rest
            · cases rest
              next missing =>
                change textOf fields' _ = some digest' at named
                change textOf fields' _ = none at missing
                rw [missing] at named
                cases named
            · simp only [bind_eq_ok, require_eq_ok, pure_eq_ok] at rest
              obtain ⟨actual, hactual, -, -, done⟩ := rest
              cases done
              exact ⟨rfl, named, actual, hactual⟩
        | _ => cases valid
      obtain ⟨rfl, -, actual, hactual⟩ := hfields
      intro operationId hoperation'
      rw [hoperation] at hoperation'
      cases hoperation'
      simp only [isFencePayload, Bool.and_eq_true] at valid
      obtain ⟨⟨⟨⟨⟨⟨⟨⟨-, -⟩, vhub⟩, vhost⟩, vreason⟩, vid⟩, vsnapshot⟩, -⟩, vdigest⟩ := valid
      exact {
        hubId := isText_of vhub hub
        hostIdentity := isText_of vhost host
        reason := (of_decide_eq_true (isText_of vreason reason)).2
        operationId := isText_of vid hid
        snapshot := isText_of vsnapshot snapshot
        short := snapshotDigest_short hactual
        digest := by
          rcases Bool.or_eq_true _ _ |>.mp vdigest with missing | digested
          · have there : hasDigest fields = true := by
              unfold hasDigest
              unfold textOf at named
              cases hd : Json.lookup fields "snapshot_manifest_sha256" with
              | none =>
                  rw [hd] at named
                  cases named
              | some value => rfl
            rw [there] at missing
            cases missing
          · exact isText_of digested named }

/-- The fence that a publication is for: the one that is there, named exactly, in a directory
that the control lock has made private. -/
structure CurrentFence (root : Path) (given : Expected) (hostIdentity digest : String)
    (t : FileTree) : Prop where
  identity : identity given.hostIdentity = .ok hostIdentity
  operation : maintenanceOperationId given.operationId = .ok given.operationId
  fence : authenticateFence root { given with hostIdentity } t = .ok digest
  directory : OwnDirectory t root

/-- The file of a publication for a fence. -/
def fencePayload (given : Expected) (hostIdentity digest : String) : Bytes :=
  authorityPayload { given with hostIdentity } digest

omit [FloatText] [Sha256] in
theorem short_temporaryPath (token : Token)
    (short : ∀ name ∈ root, utf8Size name.toList ≤ nameMax) :
    ∀ name ∈ temporaryPath (authorityPath root) token, utf8Size name.toList ≤ nameMax := by
  unfold temporaryPath
  rw [authorityPath_parent]
  intro name hname
  rcases List.mem_append.mp hname with hname | hname
  · exact short name hname
  · have hex : utf8Size token.text.toList = 24 := by
      have digits : ∀ cs : List Char, cs.all isLowerHex = true → utf8Size cs = cs.length := by
        intro cs
        induction cs with
        | nil => intro _; rfl
        | cons c cs ih =>
            intro h
            rw [List.all_cons, Bool.and_eq_true] at h
            rw [utf8Size_cons, utf8Size_simple (simple_lowerHex h.1).2.1, ih h.2, List.length_cons]
            omega
      have hex := token.hex
      unfold isHexOf at hex
      rw [Bool.and_eq_true, beq_iff_eq] at hex
      rw [digits _ hex.2, hex.1]
    have last : (authorityPath root).name = ".managed-startup-authority.json" := by
      simp [authorityPath, Path.child, Path.name]
    rw [List.mem_singleton.mp hname, last]
    simp only [String.toList_append, utf8Size_append, hex]
    decide

/-- Either the publication finds a readable file and completes it, or something is missing. -/
theorem meets_publish (system : System) (given : Expected) (token : Token)
    (residual : Residual root t) :
    Meets (Residual root) (publishManagedStartupAuthority system root given token)
      (fun _ u => ∃ hostIdentity digest, identity given.hostIdentity = .ok hostIdentity ∧
        authenticateFence root { given with hostIdentity } t = .ok digest ∧ Readable root t ∧
        Holding (authorityPath root) (fencePayload given hostIdentity digest) u)
      (fun _ _ => ¬ ((∃ hostIdentity digest, CurrentFence root given hostIdentity digest t) ∧
        t.node (temporaryPath (authorityPath root) token) = none ∧ Readable root t)) t := by
  unfold publishManagedStartupAuthority
  refine Meets.bind (R := fun hostIdentity u => u = t ∧
    identity given.hostIdentity = .ok hostIdentity) (Meets.look ?_ ?_) ?_
  · intro hostIdentity h
    exact ⟨rfl, h⟩
  · rintro e he ⟨⟨hostIdentity, digest, current⟩, -⟩
    rw [current.identity] at he
    cases he
  rintro hostIdentity t ⟨rfl, hidentity⟩
  refine Meets.bind (R := fun digest u => u = t ∧
    authenticateFence root { given with hostIdentity } t = .ok digest) (Meets.look ?_ ?_) ?_
  · intro digest h
    exact ⟨rfl, h⟩
  · rintro e he ⟨⟨hostIdentity', digest, current⟩, -⟩
    have same := current.identity
    rw [hidentity] at same
    cases same
    rw [current.fence] at he
    cases he
  rintro digest t ⟨rfl, hfence⟩
  have same : ∀ {hostIdentity' digest'}, CurrentFence root given hostIdentity' digest' t →
      hostIdentity' = hostIdentity ∧ digest' = digest := by
    intro hostIdentity' digest' current
    have h := current.identity
    rw [hidentity] at h
    cases h
    have h := current.fence
    rw [hfence] at h
    cases h
    exact ⟨rfl, rfl⟩
  obtain ⟨short, named⟩ := authenticateFence_eq_ok hfence
  refine Meets.bind (R := fun current u => u = t ∧
    ifThere (readPrivateRegularFile t (authorityPath root) maxControlSize) = .ok current)
    (Meets.look ?_ ?_) ?_
  · intro current h
    exact ⟨rfl, h⟩
  · rintro e he ⟨-, -, readable⟩
    obtain ⟨o, ho⟩ := read_authority residual readable short
    rw [ho] at he
    cases he
  rintro current t ⟨rfl, hread⟩
  cases current with
  | none =>
      have free := readPrivateRegularFile_missing (ifThere_eq_none hread)
      have readable : Readable root t := by
        intro id there
        rw [free] at there
        cases there
      refine (meets_createOwnedMaintenanceFence residual free).imp (fun _ h => h) ?_ ?_
      · intro _ u held
        exact ⟨hostIdentity, digest, hidentity, hfence, readable, held⟩
      · rintro e u foreign ⟨⟨hostIdentity', digest', current⟩, -⟩
        exact foreign current.directory
  | some bytes =>
      obtain ⟨id, -, there, rfl, least, most⟩ := readPrivateRegularFile_eq_ok (ifThere_eq_some hread)
      have readable : Readable root t := by
        intro id' there'
        rw [there] at there'
        cases there'
        exact ⟨least, most⟩
      dsimp only
      split
      · next complete =>
          refine Meets.pure ⟨hostIdentity, digest, hidentity, hfence, readable, id, there, ?_⟩
          obtain ⟨id', ⟨⟩, links, owned, content⟩ := residual.file _ there
          refine ⟨links, ?_⟩
          have mode : (t.inodes id).mode = 0o600 := by
            rcases content with empty | mode
            · rw [empty] at least
              cases least
            · exact mode
          cases hinode : t.inodes id with
          | mk own mode' content' =>
              rw [hinode] at owned mode complete
              simp only at owned mode complete
              rw [owned, mode, complete]
              rfl
      · refine (meets_replacePrivateControlFile token residual).imp (fun _ h => h) ?_ ?_
        · intro _ u held
          exact ⟨hostIdentity, digest, hidentity, hfence, readable, held⟩
        · rintro e u unable ⟨⟨hostIdentity', digest', current⟩, free, -⟩
          obtain ⟨rfl, rfl⟩ := same current
          have whole := named _ current.operation
          exact unable ⟨current.directory, free, short_temporaryPath token short,
            size_authorityPayload whole⟩

/-! ## Residues -/

omit [Sha256] in
theorem holds_clear (residual : Residual root t) :
    Holds (Residual root) (clearManagedStartupAuthority root expected) (fun _ _ => True) t := by
  unfold clearManagedStartupAuthority
  refine (Holds.look (Q := fun _ u => u = t) fun _ _ => rfl).bind ?_
  rintro read t rfl
  cases read with
  | none => exact .pure trivial
  | some fields =>
      refine (Holds.look (Q := fun _ u => u = t) fun _ _ => rfl).bind ?_
      rintro - t rfl
      exact (holds_unlinkAuthority root t).bind fun _ _ _ => .pure trivial

omit [FloatText] [Sha256] in
theorem holds_discard (residual : Residual root t) :
    Holds (Residual root) (discardStartupAuthority root) (fun _ _ => True) t := by
  unfold discardStartupAuthority
  refine (Holds.look (Q := fun _ u => u = t) fun _ _ => rfl).bind ?_
  rintro - t rfl
  refine (Holds.look (Q := fun _ u => u = t) fun _ _ => rfl).bind ?_
  rintro there t rfl
  split
  · refine (Holds.look (Q := fun _ u => u = t) fun _ _ => rfl).bind ?_
    rintro - t rfl
    exact holds_unlinkAuthority root t
  · exact .pure trivial

/-- What is left of the authority file by publications, clearances and starts that may each be
cut off, with anything else happening in between to other files. -/
inductive Residue (root : Path) : FileTree → Prop
  | absent {t : FileTree} : t.node (authorityPath root) = none → Residue root t
  | elsewhere {t u : FileTree} : Residue root t → Elsewhere root t u → Residue root u
  | published {t u : FileTree} (system : System) (given : Expected) (token : Token) :
      Residue root t → u ∈ (publishManagedStartupAuthority system root given token).cuts t →
      Residue root u
  | cleared {t u : FileTree} (expected : Expected) :
      Residue root t → u ∈ (clearManagedStartupAuthority root expected).cuts t → Residue root u
  | discarded {t u : FileTree} :
      Residue root t → u ∈ (discardStartupAuthority root).cuts t → Residue root u

theorem Residue.residual (h : Residue root t) : Residual root t := by
  have cut : ∀ {α : Type} {p : Program FileTree Failure α} {t u : FileTree} {Q},
      Residual root t → Holds (Residual root) p Q t → u ∈ p.cuts t → Residual root u := by
    intro α p t u Q before holds cut
    rcases List.mem_cons.mp cut with rfl | cut
    · exact before
    · exact holds.1 _ cut
  induction h with
  | absent missing =>
      refine ⟨fun n hn => ?_⟩
      rw [missing] at hn
      cases hn
  | elsewhere _ change ih => exact change.residual ih
  | published system given token _ hu ih => exact cut ih (meets_publish system given token ih).holds hu
  | cleared expected _ hu ih => exact cut ih (holds_clear ih) hu
  | discarded _ hu ih => exact cut ih (holds_discard ih) hu

/-- The call ends well and leaves the complete file. -/
structure Republishes (system : System) (root : Path) (given : Expected) (token : Token)
    (payload : Bytes) (t : FileTree) : Prop where
  ends : ((publishManagedStartupAuthority system root given token).run t).2 = .ok ()
  complete : Holding (authorityPath root) payload
    ((publishManagedStartupAuthority system root given token).final t)

/-- Whatever earlier operations left, the next publication for the current fence succeeds exactly
where the authority file is missing or can be read. -/
theorem publish_again_iff (system : System) (root : Path) (given : Expected) (token : Token)
    (hostIdentity digest : String) (t : FileTree) (residue : Residue root t)
    (current : CurrentFence root given hostIdentity digest t)
    (free : t.node (temporaryPath (authorityPath root) token) = none) :
    Republishes system root given token (fencePayload given hostIdentity digest) t ↔
      Readable root t := by
  have call := meets_publish system given token residue.residual
  constructor
  · rintro ⟨ends, -⟩
    obtain ⟨-, -, -, -, readable, -⟩ := call.ok ends
    exact readable
  · intro readable
    cases outcome : ((publishManagedStartupAuthority system root given token).run t).2 with
    | ok _ =>
        obtain ⟨hostIdentity', digest', same, same', -, held⟩ := call.ok outcome
        rw [current.identity] at same
        cases same
        rw [current.fence] at same'
        cases same'
        exact ⟨outcome, held⟩
    | error e => exact absurd ⟨⟨_, _, current⟩, free, readable⟩ (call.error outcome)

/-! ## A cut right after the creation -/

/-- The tree with an empty authority file, right after it was created. -/
def justCreated (system : System) (root : Path) (id : FileId) (t : FileTree) : FileTree :=
  let hardened := t.put root (.directory id true 0o700)
  (hardened.put (authorityPath root) (.file hardened.fresh)).setInode hardened.fresh
    { owned := true, mode := 0o600 &&& (0o777 ^^^ system.umask), bytes := [] }

theorem justCreated_mem_cuts {system : System} {token : Token} {id : FileId} {mode : Nat}
    (current : CurrentFence root given hostIdentity digest t)
    (directory : t.node root = some (.directory id true mode))
    (missing : t.node (authorityPath root) = none) :
    justCreated system root id t ∈
      (publishManagedStartupAuthority system root given token).cuts t := by
  obtain ⟨short, -⟩ := authenticateFence_eq_ok current.fence
  have absent : ifThere (readPrivateRegularFile t (authorityPath root) maxControlSize) =
      .ok none := by
    unfold readPrivateRegularFile openFile
    rw [require_bind (short_authorityPath short), missing]
    rfl
  have ensured : (ensurePrivateDirectory root).run t =
      ([t.put root (.directory id true 0o700)], .ok ()) := by
    unfold ensurePrivateDirectory makeDirectories
    refine (run_still_bind (a := ()) ?_).trans ?_
    · refine (run_look_bind rfl).trans ?_
      rw [directory]
      rfl
    · refine (run_look_bind (a := id) ?_).trans rfl
      rw [directory]
  have free : (t.put root (.directory id true 0o700)).node (authorityPath root) = none := by
    rw [node_put, if_neg (apart_of_above (List.prefix_refl root)).symm]
    exact missing
  have created : createFile system (authorityPath root) (t.put root (.directory id true 0o700)) =
      .ok (justCreated system root id t) := by
    unfold createFile
    rw [free]
    rfl
  have goes : (publishManagedStartupAuthority system root given token).cuts t =
      (createOwnedMaintenanceFence system (authorityPath root)
        (fencePayload given hostIdentity digest)).cuts t := by
    unfold publishManagedStartupAuthority
    refine (cuts_look_bind (f := fun _ => identity given.hostIdentity) (s := t)
      current.identity).trans ?_
    refine (cuts_look_bind current.fence).trans ?_
    exact cuts_look_bind (s := t) (f := fun t => ifThere (readPrivateRegularFile t
      (authorityPath root) maxControlSize)) absent
  rw [goes]
  unfold createOwnedMaintenanceFence
  rw [authorityPath_parent]
  refine mem_cuts_one_bind ensured (mem_cuts_act_bind (u := justCreated system root id t) ?_ ?_)
  · rw [created]
    rfl
  · exact List.mem_cons_self

end Fence

/-! ## An empty file -/

section Example

/-- A digest that tells short texts apart. -/
@[reducible] def shortDigest : Sha256 where
  digest bytes := (bytes ++ List.replicate 32 0).take 32
  length_digest := Sha256.length_padded

@[reducible] def wholeNumbers : FloatText := ⟨fun _ => none⟩

attribute [local instance] shortDigest wholeNumbers

set_option maxRecDepth 8000

def updateFence : Expected where
  hostIdentity := "host:0001"
  hubId := "hub_0001"
  reason := "server-update"
  operationId := "update-1"
  snapshot := ["hub", "maintenance-backups", "snapshot_1"]

def updateFields : List (String × Json) :=
  [("created_at", .str "2026-01-01T00:00:00Z"), ("format", .num (.ofNat 1)),
    ("host_server_identity", .str "host:0001"), ("hub_id", .str "hub_0001"),
    ("operation_id", .str "update-1"), ("reason", .str "server-update"),
    ("snapshot", .str "snapshot_1"),
    ("snapshot_manifest_sha256", .str (Sha256.hexdigest [123, 125]))]

def updateFenceBytes : Bytes :=
  dumpsAscii (.obj updateFields) ++ [newline]

def fileNumber (n : Nat) (pos : 0 < n) : FileId where
  device := 1
  inode := n
  device_pos := Nat.one_pos
  inode_pos := pos

/-- A Hub behind the fence of an update, without an authority file. -/
def fencedTree : FileTree where
  entries := [(["hub"], .directory (fileNumber 1 Nat.one_pos) true 0o700),
    (["hub", "maintenance-fence.json"], .file (fileNumber 2 Nat.two_pos)),
    (["hub", "maintenance-backups", "snapshot_1", "manifest.json"],
      .file (fileNumber 3 FileId.three_pos))]
  inodes id :=
    if id.inode = 2 then { owned := true, mode := 0o600, bytes := updateFenceBytes }
    else { owned := true, mode := 0o600, bytes := [123, 125] }
  unique := by decide

def plainSystem : System where
  umask := 0o077
  pieces value := [value]
  pieces_flatten value := List.append_nil value

def zeroToken : Token where
  text := "000000000000000000000000"
  hex := by decide

theorem updateFields_proper : Proper (.obj updateFields) := by
  refine .obj (by decide) ?_
  simp only [updateFields, List.forall_mem_cons]
  exact ⟨.str _, .num rfl, .str _, .str _, .str _, .str _, .str _, .str _,
    fun _ h => absurd h List.not_mem_nil⟩

/-- The fence of the update, wherever its file and the manifest of its snapshot are. -/
theorem updateFence_authenticated {t : FileTree} {f m : FileId}
    (fence : t.node (fencePath ["hub"]) = some (.file f)) (fenceLink : t.nlink f = 1)
    (fenceInode : t.inodes f = { owned := true, mode := 0o600, bytes := updateFenceBytes })
    (manifest : t.node (updateFence.snapshot.child "manifest.json") = some (.file m))
    (manifestLink : t.nlink m = 1)
    (manifestInode : t.inodes m = { owned := true, mode := 0o600, bytes := [123, 125] }) :
    authenticateFence ["hub"] updateFence t = .ok (Sha256.hexdigest [123, 125]) := by
  have small : 1 ≤ updateFenceBytes.length ∧ updateFenceBytes.length ≤ maxControlSize := by
    rw [updateFenceBytes, List.length_append, dumpsAscii_eq, List.length_map]
    decide
  have read : readPrivateRegularFile t (fencePath ["hub"]) maxControlSize =
      .ok updateFenceBytes := by
    unfold readPrivateRegularFile openFile isPrivate
    rw [require_bind (by decide), fence]
    dsimp only
    rw [ok_bind, fenceInode, fenceLink, require_bind ⟨rfl, small⟩]
    rfl
  have loaded : loadControl updateFenceBytes "Team Hub maintenance fence is invalid" =
      .ok (.obj updateFields) := by
    unfold loadControl
    rw [updateFenceBytes, loadsBytes_line updateFields_proper]
    rfl
  have valid : isFencePayload (.obj updateFields) = true := by decide +kernel
  have hashed : snapshotDigest t updateFence.snapshot = .ok (Sha256.hexdigest [123, 125]) := by
    unfold snapshotDigest sha256PrivateRegularFile openFile isPrivate
    rw [require_bind (by decide), manifest]
    dsimp only
    rw [ok_bind, manifestInode, manifestLink]
    rfl
  have control : maintenanceFenceControl ["hub"] updateFence t = .ok (some updateFields) := by
    have there : ifThere (.ok updateFenceBytes) = .ok (some updateFenceBytes) := rfl
    have operation : maintenanceOperationId updateFence.operationId = .ok "update-1" := by rfl
    unfold maintenanceFenceControl
    rw [read, there, ok_bind]
    dsimp only
    have named : textOf updateFields "operation_id" = some "update-1" ∧
        textOf updateFields "snapshot" = some updateFence.snapshot.name := ⟨rfl, rfl⟩
    have fields : (Json.obj updateFields).obj?.getD [] = updateFields := rfl
    rw [loaded, ok_bind, fields, require_bind ⟨valid, rfl, rfl, rfl⟩, operation, ok_bind,
      require_bind named.1, require_bind named.2, hashed]
    rfl
  unfold authenticateFence
  rw [control]
  rfl

theorem updateFence_current {t : FileTree} {f m : FileId} (directory : OwnDirectory t ["hub"])
    (fence : t.node (fencePath ["hub"]) = some (.file f)) (fenceLink : t.nlink f = 1)
    (fenceInode : t.inodes f = { owned := true, mode := 0o600, bytes := updateFenceBytes })
    (manifest : t.node (updateFence.snapshot.child "manifest.json") = some (.file m))
    (manifestLink : t.nlink m = 1)
    (manifestInode : t.inodes m = { owned := true, mode := 0o600, bytes := [123, 125] }) :
    CurrentFence ["hub"] updateFence "host:0001" (Sha256.hexdigest [123, 125]) t where
  identity := rfl
  operation := rfl
  fence := updateFence_authenticated fence fenceLink fenceInode manifest manifestLink manifestInode
  directory := directory

theorem fencedTree_current :
    CurrentFence ["hub"] updateFence "host:0001" (Sha256.hexdigest [123, 125]) fencedTree :=
  updateFence_current (f := fileNumber 2 (by decide)) (m := fileNumber 3 (by decide))
    ⟨_, _, rfl⟩ rfl rfl rfl rfl rfl rfl

/-- A publication that succeeds. -/
theorem publish_again_fenced :
    Republishes plainSystem ["hub"] updateFence zeroToken
      (fencePayload updateFence "host:0001" (Sha256.hexdigest [123, 125])) fencedTree ↔
      Readable ["hub"] fencedTree :=
  publish_again_iff plainSystem ["hub"] updateFence zeroToken "host:0001"
    (Sha256.hexdigest [123, 125]) fencedTree (.absent rfl) fencedTree_current rfl

/-- What the first publication leaves when it is cut off right after the creation of the file. -/
def emptyTree : FileTree :=
  justCreated plainSystem ["hub"] (fileNumber 1 Nat.one_pos) fencedTree

theorem emptyTree_current :
    CurrentFence ["hub"] updateFence "host:0001" (Sha256.hexdigest [123, 125]) emptyTree :=
  updateFence_current (f := fileNumber 2 (by decide)) (m := fileNumber 3 (by decide))
    ⟨_, _, rfl⟩ rfl rfl rfl rfl rfl rfl

theorem emptyTree_residue : Residue ["hub"] emptyTree :=
  .published plainSystem updateFence zeroToken (.absent rfl)
    (justCreated_mem_cuts fencedTree_current rfl rfl)

/-- A residue that no publication gets past. -/
theorem not_always_republished :
    ¬ ∀ (system : System) (root : Path) (given : Expected) (token : Token)
      (hostIdentity digest : String) (t : FileTree), Residue root t →
      CurrentFence root given hostIdentity digest t →
      t.node (temporaryPath (authorityPath root) token) = none →
      Republishes system root given token (fencePayload given hostIdentity digest) t := by
  intro always
  obtain ⟨ends, -⟩ := always plainSystem ["hub"] updateFence zeroToken _ _ emptyTree
    emptyTree_residue emptyTree_current rfl
  obtain ⟨-, -, -, -, readable, -⟩ :=
    (meets_publish plainSystem updateFence zeroToken emptyTree_residue.residual).ok ends
  obtain ⟨least, -⟩ := readable _ rfl
  exact absurd least (by decide)

end Example

end AgentsServer.HubStartup
