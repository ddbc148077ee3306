import AgentsServer.Activation.Reader

/-!
# A manifest is read back as it was written

The reader accepts the dictionary of a manifest exactly when the manifest is
valid, and then returns that manifest.
-/

namespace AgentsServer.Activation

open Library Json

/-- What the reader demands of a manifest besides its shape. -/
structure Manifest.Valid [Host] (root releases : Path)
    (sha256 : String → Except Failure String) (m : Manifest) : Prop where
  origin : isOrigin m.phase m.rollbackFrom = true
  transactionId : isSafeText 64 m.transactionId = true ∧ isTransactionId m.transactionId = true
  releaseVersion : isSafeText 128 m.releaseVersion = true
  releaseDir : isSafeText 4096 m.releaseDir = true
  path : ∀ kind, isSafeText 4096 (m.config kind).path = true
  oldTarget : isOneLine m.oldTarget = true
  identities : m.candidateRelease.isValid = true ∧ m.oldRelease.all Release.isValid = true ∧
    m.previousRelease.all Release.isValid = true
  links : m.current.isValid true = true ∧ m.previous.isValid false = true
  original : ∀ kind, (m.config kind).original.isValid = true
  kept : ∀ kind, (m.config kind).original.existed = true →
    ∃ digest, sha256 (m.config kind).original.backup = .ok digest ∧
      (m.config kind).original.sha256 = some digest
  priorPort : 1 ≤ m.priorPort ∧ m.priorPort ≤ 65535
  priorBind : isSafeText 64 m.priorBindAddress = true ∧
    (m.priorBindAddress = "localhost" ∨ Host.ipAddress m.priorBindAddress = some m.priorBindAddress)
  clientBinding : isClientBinding m.clientBinding = true
  desired : ∀ kind, (m.config kind).desired.all (fun item =>
    item.isValid kind (configStagingPaths (absolute (m.config kind).path) m.transactionId kind).1)
      = true
  observed : ∀ kind, (m.config kind).observed.all (fun item => item.all isSha256) = true
  candidatePlace :
    isCandidatePlace releases m.releaseDir m.releaseVersion m.candidateRelease = true
  oldPlace : isOldPlace root releases m.oldTarget m.oldRelease = true
  previousPlace : isPreviousPlace releases m.previousRelease = true
  hub : validateHubMetadata m.intent m.hub = .ok ()
  guard : validateGuardMetadata m.guard = .ok ()

/-! ## Decoding what was encoded -/

@[simp] theorem int?_encodeInt (n : Int) : (encodeInt n).int? = some n :=
  NumLit.toInt?_ofInt n

@[simp] theorem integer?_encodeInt (n : Int) : (encodeInt n).integer? = some n :=
  NumLit.toInt?_ofInt n

theorem safeText_eq_ok {name s s' : String} {maximum : Nat} :
    safeText name maximum s = .ok s' ↔ s = s' ∧ isSafeText maximum s = true := by
  simp only [safeText, bind_eq_ok, require_eq_ok, pure_eq_ok]
  constructor
  · rintro ⟨_, h, rfl⟩
    exact ⟨rfl, h⟩
  · rintro ⟨rfl, h⟩
    exact ⟨(), h, rfl⟩

@[simp] theorem int?_encodeNat (n : Nat) : (encodeNat n).int? = some (n : Int) :=
  NumLit.toInt?_ofInt n

@[simp] theorem integer?_encodeNat (n : Nat) : (encodeNat n).integer? = some (n : Int) :=
  NumLit.toInt?_ofInt n

theorem release?_encode (release : Release) :
    release? (.obj release.fields) = if release.isValid then some release else none := by
  have hinode : release.isValid = true → 0 < release.inode := by
    intro h
    simp only [Release.isValid, Bool.and_eq_true, decide_eq_true_eq] at h
    exact h.1.2
  by_cases h : release.isValid = true
  · have hpos := hinode h
    simp [release?, Release.fields, hasKeys, lookup, List.lookup_cons, str?, h, hpos]
  · by_cases hpos : 0 < release.inode
    · simp [release?, Release.fields, hasKeys, lookup, List.lookup_cons, str?, h, hpos]
    · simp [release?, Release.fields, hasKeys, lookup, List.lookup_cons, str?, h, hpos]

theorem nullable_encode {α β : Type} {encode : α → Json} {decode : Json → Option β} {f : α → β}
    (back : ∀ a, decode (encode a) = some (f a)) (value : ∀ a, encode a ≠ .null) (o : Option α) :
    nullable decode (encodeOption encode o) = some (o.map f) := by
  cases o with
  | none => rfl
  | some a =>
      have hdecode : nullable decode (encode a) = (decode (encode a)).map some := by
        cases he : encode a with
        | null => exact absurd he (value a)
        | _ => rfl
      rw [encodeOption, hdecode, back]
      rfl

@[simp] theorem nullable_text (o : Option String) :
    nullable str? (encodeOption .str o) = some o := by
  have h : nullable str? (encodeOption .str o) = some (o.map id) :=
    @nullable_encode _ _ .str str? id (fun _ => rfl) (fun _ h => by cases h) o
  rwa [Option.map_id, id] at h

@[simp] theorem nullable_mode (o : Option Nat) :
    nullable int? (encodeOption encodeNat o) = some (o.map fun mode : Nat => (mode : Int)) :=
  nullable_encode int?_encodeNat (fun _ h => by cases h) o

theorem backup?_encode (item : Backup) : (item.encode.obj?).bind backup? = some item := by
  obtain ⟨existed, backup, sha256, mode⟩ := item
  have hmode : (mode.map fun n : Nat => (n : Int)).all (fun n => decide (0 ≤ n)) = true := by
    cases mode <;> simp
  simp [Backup.encode, backup?, hasKeys, lookup, List.lookup_cons, str?, bool?, obj?, hmode,
    Function.comp_def]

theorem linkState?_encode (state : LinkState) : linkState? state.encode = some state := by
  simp [LinkState.encode, linkState?, hasKeys, lookup, List.lookup_cons, str?]

theorem desired?_encode (desired : Desired) : desired? desired.encode = some desired := by
  simp [Desired.encode, desired?, hasKeys, lookup, List.lookup_cons, str?]

@[simp] theorem nullable_desired (o : Option Desired) :
    nullable desired? (encodeOption Desired.encode o) = some o := by
  rw [nullable_encode (f := id) desired?_encode (fun _ h => by cases h), Option.map_id, id]

theorem hub?_encode (hub : Option Hub) : hub? (encodeRecord Hub.fields hub) = some hub := by
  cases hub with
  | none => rfl
  | some hub => simp [encodeRecord, Hub.fields, hub?, hasKeys, lookup, List.lookup_cons, str?]

theorem guard?_encode (guard : Option Guard) :
    guard? (encodeRecord Guard.fields guard) = some guard := by
  cases guard with
  | none => rfl
  | some guard => simp [encodeRecord, Guard.fields, guard?, hasKeys, lookup, List.lookup_cons, str?]

theorem observed_encode (items : List (Option String)) :
    (items.map (encodeOption .str)).mapM (nullable str?) = some items := by
  induction items with
  | nil => rfl
  | cons item rest ih => simp [ih]

/-! ## The parts of a manifest -/

section Parts

variable {m : Manifest}

theorem hasKeys_fields (m : Manifest) : hasKeys manifestKeys m.fields = true := by
  simp [hasKeys, manifestKeys, Manifest.fields]

theorem lookup_format (m : Manifest) : (lookup m.fields "format").bind integer? = some 1 := by
  simp [lookup, Manifest.fields]

theorem readText_eq_ok {key name text s : String} {maximum : Nat}
    (h : lookup m.fields key = some (.str text)) :
    readText m.fields key name maximum = .ok s ↔ text = s ∧ isSafeText maximum text = true := by
  have hbind : (lookup m.fields key).bind str? = some text := by
    rw [h]
    rfl
  simp only [readText, bind_eq_ok, required_eq_ok, hbind, Option.some.injEq, safeText_eq_ok]
  constructor
  · rintro ⟨_, rfl, h⟩
    exact h
  · rintro ⟨rfl, h⟩
    exact ⟨text, rfl, rfl, h⟩

theorem readPhase_eq_ok {phase : Phase} : readPhase m.fields = .ok phase ↔ m.phase = phase := by
  simp [readPhase, lookup, Manifest.fields, List.lookup_cons, str?]

theorem readRollbackFrom_eq_ok {phase : Phase} {origin : Option Phase} :
    readRollbackFrom m.fields phase = .ok origin ↔
      m.rollbackFrom = origin ∧ isOrigin phase m.rollbackFrom = true := by
  have hlookup : lookup m.fields "rollback_from" =
      some (encodeOption (fun phase => .str phase.text) m.rollbackFrom) := by
    simp [lookup, Manifest.fields, List.lookup_cons]
  cases hr : m.rollbackFrom with
  | none =>
      simp [readRollbackFrom, hlookup, hr, encodeOption, require_return_eq_ok]
  | some from_ =>
      simp [readRollbackFrom, hlookup, hr, encodeOption, str?, require_return_eq_ok]

theorem readOldTarget_eq_ok {text : String} :
    readOldTarget m.fields = .ok text ↔ m.oldTarget = text ∧ isOneLine m.oldTarget = true := by
  simp [readOldTarget, lookup, Manifest.fields, List.lookup_cons, str?, require_return_eq_ok]

theorem readRelease_eq_ok {key name : String} {release result : Option Release}
    (h : lookup m.fields key = some (encodeRecord Release.fields release)) :
    readRelease m.fields key name = .ok result ↔
      release = result ∧ release.all Release.isValid = true := by
  cases release with
  | none => simp [readRelease, h, encodeRecord]
  | some release =>
      have hread : readRelease m.fields key name =
          some <$> required (release? (.obj release.fields))
            (.runtimeError s!"activation transaction {name} release is invalid") := by
        simp only [readRelease, h, encodeRecord, Release.fields]
        rfl
      rw [hread, release?_encode]
      by_cases hv : release.isValid = true
      · rw [if_pos hv, Option.all_some]
        simp [required, hv, Functor.map, Except.map]
      · rw [if_neg hv, Option.all_some]
        simp [required, hv, Functor.map, Except.map]

theorem readLink_eq_ok {key : String} {allowDirectory : Bool} {state result : LinkState}
    (h : lookup m.fields key = some state.encode) :
    readLink m.fields key allowDirectory = .ok result ↔
      state = result ∧ state.isValid allowDirectory = true := by
  simp [readLink, h, linkState?_encode, require_return_eq_ok]

theorem readBackup_eq_ok {sha256 : String → Except Failure String} {kind : Kind}
    {result : Backup} :
    readBackup m.fields sha256 kind = .ok result ↔
      (m.config kind).original = result ∧ (m.config kind).original.isValid = true ∧
        ((m.config kind).original.existed = true →
          ∃ digest, sha256 (m.config kind).original.backup = .ok digest ∧
            (m.config kind).original.sha256 = some digest) := by
  have hlookup : lookup m.fields kind.text = some (m.config kind).original.encode := by
    cases kind <;> simp [Kind.text, lookup, Manifest.fields, List.lookup_cons, Manifest.config]
  have hdecode : ((lookup m.fields kind.text).bind obj?).bind backup? =
      some (m.config kind).original := by
    rw [hlookup]
    exact backup?_encode _
  generalize (m.config kind).original = item at hdecode
  simp only [readBackup, hdecode, required_eq_ok, bind_eq_ok, require_eq_ok, Option.some.injEq]
  constructor
  · rintro ⟨_, rfl, _, hvalid, h⟩
    by_cases hexisted : item.existed = true
    · rw [if_pos hexisted] at h
      simp only [bind_eq_ok, require_eq_ok, pure_eq_ok] at h
      obtain ⟨digest, hdigest, _, heq, rfl⟩ := h
      exact ⟨rfl, hvalid, fun _ => ⟨digest, hdigest, heq.symm⟩⟩
    · rw [if_neg hexisted] at h
      simp only [pure_eq_ok] at h
      exact ⟨h, hvalid, fun he => absurd he hexisted⟩
  · rintro ⟨rfl, hvalid, hkept⟩
    refine ⟨item, rfl, (), hvalid, ?_⟩
    by_cases hexisted : item.existed = true
    · rw [if_pos hexisted]
      obtain ⟨digest, hdigest, heq⟩ := hkept hexisted
      simp only [bind_eq_ok, require_eq_ok, pure_eq_ok]
      exact ⟨digest, hdigest, (), heq.symm, trivial⟩
    · rw [if_neg hexisted]
      rfl

theorem readServiceState_eq_ok {key name : String} {state result : ServiceState}
    (h : lookup m.fields key = some (.str state.text)) :
    readServiceState m.fields key name = .ok result ↔ state = result := by
  simp [readServiceState, h, str?]

theorem readBool_eq_ok {key name : String} {value result : Bool}
    (h : lookup m.fields key = some (.bool value)) :
    readBool m.fields key name = .ok result ↔ value = result := by
  simp [readBool, h, bool?]

theorem readPriorPort_eq_ok {port : Int} :
    readPriorPort m.fields = .ok port ↔
      m.priorPort = port ∧ 1 ≤ m.priorPort ∧ m.priorPort ≤ 65535 := by
  simp [readPriorPort, lookup, Manifest.fields, List.lookup_cons, require_return_eq_ok]

theorem readPriorBind_eq_ok [Host] {text : String} :
    readPriorBind m.fields = .ok text ↔
      m.priorBindAddress = text ∧ isSafeText 64 m.priorBindAddress = true ∧
        (m.priorBindAddress = "localhost" ∨
          Host.ipAddress m.priorBindAddress = some m.priorBindAddress) := by
  have hlookup : lookup m.fields "prior_bind_address" = some (.str m.priorBindAddress) := by
    simp [lookup, Manifest.fields, List.lookup_cons]
  simp only [readPriorBind, bind_eq_ok, readText_eq_ok hlookup]
  constructor
  · rintro ⟨_, ⟨rfl, hsafe⟩, h⟩
    by_cases hlocal : m.priorBindAddress = "localhost"
    · rw [if_pos hlocal] at h
      simp only [pure_eq_ok] at h
      exact ⟨h, hsafe, Or.inl hlocal⟩
    · rw [if_neg hlocal] at h
      simp only [bind_eq_ok, required_eq_ok, require_eq_ok, pure_eq_ok] at h
      obtain ⟨parsed, hparsed, _, rfl, h⟩ := h
      exact ⟨h, hsafe, Or.inr hparsed⟩
  · rintro ⟨rfl, hsafe, h⟩
    refine ⟨_, ⟨rfl, hsafe⟩, ?_⟩
    by_cases hlocal : m.priorBindAddress = "localhost"
    · rw [if_pos hlocal]
      rfl
    · rw [if_neg hlocal]
      simp only [bind_eq_ok, required_eq_ok, require_eq_ok, pure_eq_ok]
      exact ⟨_, h.resolve_left hlocal, (), rfl, trivial⟩

theorem readIntent_eq_ok {intent : Intent} :
    readIntent m.fields = .ok intent ↔ m.intent = intent := by
  simp [readIntent, lookup, Manifest.fields, List.lookup_cons, str?]

theorem readClientBinding_eq_ok {text : String} :
    readClientBinding m.fields = .ok text ↔
      m.clientBinding = text ∧ isClientBinding m.clientBinding = true := by
  simp [readClientBinding, lookup, Manifest.fields, List.lookup_cons, str?, require_return_eq_ok]

theorem readDesired_eq_ok [Host] {kind : Kind} {transactionId path : String}
    {result : Option Desired} :
    readDesired m.fields kind transactionId path = .ok result ↔
      (m.config kind).desired = result ∧ (m.config kind).desired.all (fun item =>
        item.isValid kind (configStagingPaths (absolute path) transactionId kind).1) = true := by
  have hlookup : (lookup m.fields (desiredKey kind)).bind (nullable desired?) =
      some (m.config kind).desired := by
    cases kind <;>
      simp [desiredKey, lookup, Manifest.fields, List.lookup_cons, Manifest.config]
  simp only [readDesired, hlookup, required_eq_ok, bind_eq_ok, require_eq_ok, pure_eq_ok,
    Option.some.injEq]
  constructor
  · rintro ⟨_, rfl, _, hvalid, h⟩
    exact ⟨h, hvalid⟩
  · rintro ⟨h, hvalid⟩
    exact ⟨_, rfl, (), hvalid, h⟩

theorem readObserved_eq_ok {kind : Kind} {result : List (Option String)} :
    readObserved m.fields kind = .ok result ↔
      (m.config kind).observed = result ∧
        (m.config kind).observed.all (fun item => item.all isSha256) = true := by
  have hlookup : ((lookup m.fields (observedKey kind)).bind arr?).bind
      (fun items => items.mapM (nullable str?)) = some (m.config kind).observed := by
    have hfield : lookup m.fields (observedKey kind) =
        some (.arr ((m.config kind).observed.map (encodeOption .str))) := by
      cases kind <;>
        simp [observedKey, lookup, Manifest.fields, List.lookup_cons, Manifest.config]
    rw [hfield]
    exact observed_encode _
  simp only [readObserved, hlookup, required_eq_ok, bind_eq_ok, require_eq_ok, pure_eq_ok,
    Option.some.injEq]
  constructor
  · rintro ⟨_, rfl, _, hvalid, h⟩
    exact ⟨h, hvalid⟩
  · rintro ⟨h, hvalid⟩
    exact ⟨_, rfl, (), hvalid, h⟩

/-! The same under the keys the reader uses. -/

theorem readTransactionId_eq_ok {text : String} :
    readText m.fields "transaction_id" "id" 64 = .ok text ↔
      m.transactionId = text ∧ isSafeText 64 m.transactionId = true :=
  readText_eq_ok (by simp [lookup, Manifest.fields, List.lookup_cons])

theorem readReleaseVersion_eq_ok {text : String} :
    readText m.fields "release_version" "version" 128 = .ok text ↔
      m.releaseVersion = text ∧ isSafeText 128 m.releaseVersion = true :=
  readText_eq_ok (by simp [lookup, Manifest.fields, List.lookup_cons])

theorem readReleaseDir_eq_ok {text : String} :
    readText m.fields "release_dir" "release_dir" 4096 = .ok text ↔
      m.releaseDir = text ∧ isSafeText 4096 m.releaseDir = true :=
  readText_eq_ok (by simp [lookup, Manifest.fields, List.lookup_cons])

theorem readEnvPath_eq_ok {text : String} :
    readText m.fields "env_path" "env_path" 4096 = .ok text ↔
      m.env.path = text ∧ isSafeText 4096 m.env.path = true :=
  readText_eq_ok (by simp [lookup, Manifest.fields, List.lookup_cons])

theorem readServicePath_eq_ok {text : String} :
    readText m.fields "service_path" "service_path" 4096 = .ok text ↔
      m.service.path = text ∧ isSafeText 4096 m.service.path = true :=
  readText_eq_ok (by simp [lookup, Manifest.fields, List.lookup_cons])

theorem readOldRelease_eq_ok {release : Option Release} :
    readRelease m.fields "old_release" "rollback" = .ok release ↔
      m.oldRelease = release ∧ m.oldRelease.all Release.isValid = true :=
  readRelease_eq_ok (by simp [lookup, Manifest.fields, List.lookup_cons])

theorem readPreviousRelease_eq_ok {release : Option Release} :
    readRelease m.fields "previous_release" "previous" = .ok release ↔
      m.previousRelease = release ∧ m.previousRelease.all Release.isValid = true :=
  readRelease_eq_ok (by simp [lookup, Manifest.fields, List.lookup_cons])

theorem readCurrent_eq_ok {state : LinkState} :
    readLink m.fields "current" true = .ok state ↔
      m.current = state ∧ m.current.isValid true = true :=
  readLink_eq_ok (by simp [lookup, Manifest.fields, List.lookup_cons])

theorem readPrevious_eq_ok {state : LinkState} :
    readLink m.fields "previous" false = .ok state ↔
      m.previous = state ∧ m.previous.isValid false = true :=
  readLink_eq_ok (by simp [lookup, Manifest.fields, List.lookup_cons])

theorem readService_eq_ok {state : ServiceState} :
    readServiceState m.fields "service_state" "service state" = .ok state ↔ m.serviceState = state :=
  readServiceState_eq_ok (by simp [lookup, Manifest.fields, List.lookup_cons])

theorem readLegacyService_eq_ok {state : ServiceState} :
    readServiceState m.fields "legacy_service_state" "legacy service state" = .ok state ↔ m.legacyServiceState = state :=
  readServiceState_eq_ok (by simp [lookup, Manifest.fields, List.lookup_cons])

theorem readServiceEnabled_eq_ok {value : Bool} :
    readBool m.fields "service_enabled" "service enablement" = .ok value ↔ m.serviceEnabled = value :=
  readBool_eq_ok (by simp [lookup, Manifest.fields, List.lookup_cons])

theorem readLegacyEnabled_eq_ok {value : Bool} :
    readBool m.fields "legacy_service_enabled" "legacy enablement" = .ok value ↔ m.legacyServiceEnabled = value :=
  readBool_eq_ok (by simp [lookup, Manifest.fields, List.lookup_cons])

theorem readAuthorityPending_eq_ok {value : Bool} :
    readBool m.fields "authority_pending" "authority state" = .ok value ↔ m.authorityPending = value :=
  readBool_eq_ok (by simp [lookup, Manifest.fields, List.lookup_cons])

theorem candidate_eq_some {release : Release} :
    (lookup m.fields "candidate_release").bind release? = some release ↔
      m.candidateRelease = release ∧ m.candidateRelease.isValid = true := by
  have hlookup : lookup m.fields "candidate_release" = some (.obj m.candidateRelease.fields) := by
    simp [lookup, Manifest.fields, List.lookup_cons]
  rw [hlookup, Option.bind_some, release?_encode]
  split
  · next h => simp [h]
  · next h => simp [h]

theorem hub_eq_some {hub : Option Hub} :
    (lookup m.fields "hub").bind hub? = some hub ↔ m.hub = hub := by
  have hlookup : lookup m.fields "hub" = some (encodeRecord Hub.fields m.hub) := by
    simp [lookup, Manifest.fields, List.lookup_cons]
  rw [hlookup, Option.bind_some, hub?_encode, Option.some.injEq]

theorem guard_eq_some {guard : Option Guard} :
    (lookup m.fields "guard").bind guard? = some guard ↔ m.guard = guard := by
  have hlookup : lookup m.fields "guard" = some (encodeRecord Guard.fields m.guard) := by
    simp [lookup, Manifest.fields, List.lookup_cons]
  rw [hlookup, Option.bind_some, guard?_encode, Option.some.injEq]

end Parts

/-! ## The whole -/

section Reader

variable [Host] {root releases : Path} {sha256 : String → Except Failure String}
  {m result : Manifest}

/-- The reader of a dictionary that a manifest was written as. -/
theorem readDictionary_eq_ok :
    readDictionary root releases sha256 m.encode = .ok result ↔
      m = result ∧ m.Valid root releases sha256 := by
  have hobj : ∀ fields, m.encode.obj? = some fields ↔ m.fields = fields := by
    intro fields
    constructor
    · intro h
      exact Option.some.inj h
    · intro h
      exact congrArg some h
  unfold readDictionary
  simp only [bind_eq_ok, required_eq_ok, require_eq_ok, pure_eq_ok, hobj, exists_eq_left']
  simp only [readPhase_eq_ok, readRollbackFrom_eq_ok, readTransactionId_eq_ok,
    readReleaseVersion_eq_ok, readReleaseDir_eq_ok, readEnvPath_eq_ok, readServicePath_eq_ok,
    readOldTarget_eq_ok, readOldRelease_eq_ok, readPreviousRelease_eq_ok, readCurrent_eq_ok,
    readPrevious_eq_ok, readBackup_eq_ok, readService_eq_ok, readServiceEnabled_eq_ok,
    readLegacyService_eq_ok, readLegacyEnabled_eq_ok, readPriorPort_eq_ok, readPriorBind_eq_ok,
    readIntent_eq_ok, readClientBinding_eq_ok, readDesired_eq_ok, readAuthorityPending_eq_ok,
    readObserved_eq_ok, candidate_eq_some, hub_eq_some, guard_eq_some, and_assoc,
    exists_eq_left', exists_const]
  constructor
  · rintro ⟨_, _, horigin, hid, hid', hversion, hdir, henvPath, hservicePath, hold, holdRelease,
      hprevRelease, hcurrent, hprevious, henv, henvKept, hservice, hserviceKept, hlow, hhigh, hsafe,
      hbind, hbinding, hdesiredEnv, hdesiredService, hobservedEnv, hobservedService, hcandidate,
      hcandidatePlace, holdPlace, hpreviousPlace, _, hhub, _, hguard, heq⟩
    exact ⟨heq, {
      origin := horigin
      transactionId := ⟨hid, hid'⟩
      releaseVersion := hversion
      releaseDir := hdir
      path := Kind.both henvPath hservicePath
      oldTarget := hold
      identities := ⟨hcandidate, holdRelease, hprevRelease⟩
      links := ⟨hcurrent, hprevious⟩
      original := Kind.both henv hservice
      kept := Kind.both henvKept hserviceKept
      priorPort := ⟨hlow, hhigh⟩
      priorBind := ⟨hsafe, hbind⟩
      clientBinding := hbinding
      desired := Kind.both hdesiredEnv hdesiredService
      observed := Kind.both hobservedEnv hobservedService
      candidatePlace := hcandidatePlace
      oldPlace := holdPlace
      previousPlace := hpreviousPlace
      hub := hhub
      guard := hguard }⟩
  · rintro ⟨rfl, h⟩
    exact ⟨hasKeys_fields m, lookup_format m, h.origin, h.transactionId.1, h.transactionId.2,
      h.releaseVersion, h.releaseDir, h.path .env, h.path .service, h.oldTarget, h.identities.2.1,
      h.identities.2.2, h.links.1, h.links.2, h.original .env, h.kept .env, h.original .service,
      h.kept .service, h.priorPort.1, h.priorPort.2, h.priorBind.1, h.priorBind.2, h.clientBinding,
      h.desired .env, h.desired .service, h.observed .env, h.observed .service, h.identities.1,
      h.candidatePlace, h.oldPlace, h.previousPlace, (), h.hub, (), h.guard, rfl⟩

end Reader

end AgentsServer.Activation
