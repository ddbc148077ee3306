import AgentsServer.Activation.FinishCalls
import AgentsServer.Library.JsonLines

/-!
# Finishing again

Calls of `finish` on one transaction, each of which may be cut off after any of its effects, and
the call that is made next.
-/

namespace AgentsServer.Activation

open Library Program

section FinishAgain

variable [Host] [Sha256] [FloatText] {args : Invocation} {m : Manifest} {t u : FileTree}

/-- What is left after any number of calls, each of which was cut off somewhere. -/
inductive CutOff (args : Invocation) (t : FileTree) : FileTree → Prop
  | start : CutOff args t t
  | again {u v : FileTree} (listing : Listing) :
      CutOff args t u → v ∈ (finish listing args).cuts u → CutOff args t v

theorem CutOff.between (terminal : Terminal args m t) (apart : Separate args m t)
    (cut : CutOff args t u) : Between args m t u := by
  induction cut with
  | start => exact Or.inl terminal.pending
  | @again before after listing _ cut ih =>
      rcases List.mem_cons.mp cut with rfl | cut
      · exact ih
      · by_cases stuck : Stuck args m before
        · exact (meets_finish_stuck listing terminal apart ih stuck).1 after cut
        · exact (meets_finish (E := fun _ _ => False) listing terminal apart ih stuck).1 after cut

/-- A call that reads the manifest of the live directory goes on from it. -/
theorem finish_run_live {listing : Listing} (root : validateRoot (absolute args.root) t = .ok ())
    (releases : validateReleasesRoot (absolute args.root) t =
      .ok ((absolute args.root).child "releases"))
    (id : isTransactionId args.transactionId = true)
    (live : (t.node (liveDirectory args)).isSome = true)
    (read : (readManifestAt listing (absolute args.root) (liveDirectory args)).run t =
      ([], .ok m)) :
    (finish listing args).run t = (finishFrom listing args (liveDirectory args) m).run t := by
  unfold finish
  refine (run_look_bind (a := ()) root).trans ?_
  refine (run_look_bind releases).trans ?_
  refine (run_look_bind (a := ()) ?_).trans ?_
  · rw [require_eq_ok]
    exact id
  refine (run_look_bind (a := true) ?_).trans ?_
  · exact congrArg Except.ok live
  rw [if_pos rfl]
  exact run_still_bind read

/-- However calls on a terminal transaction are cut off, another call with the same arguments ends
well exactly if what is left is not stuck. -/
theorem finish_again_iff (listing : Listing) (args : Invocation) (m : Manifest)
    (t u : FileTree) (terminal : Terminal args m t) (apart : Separate args m t)
    (cut : CutOff args t u) : Finishes args listing t u ↔ ¬ Stuck args m u := by
  have between := cut.between terminal apart
  constructor
  · rintro ⟨ok, -⟩ stuck
    exact (meets_finish_stuck listing terminal apart between stuck).ok ok
  · intro free
    have call := meets_finish (E := fun _ _ => False) listing terminal apart between free
    cases outcome : ((finish listing args).run u).2 with
    | ok value => exact ⟨outcome, call.ok outcome⟩
    | error e => exact (call.error outcome).elim

end FinishAgain

/-! ## A candidate without its version -/

section Example

@[reducible] def noFloatText : FloatText := ⟨fun _ => none⟩

attribute [local instance] rootHost paddedSha noFloatText

set_option maxRecDepth 8000

/-- An activation that was rolled back, whose candidate is still among the releases. -/
def rolledBackManifest : Manifest :=
  { linkedManifest with phase := .rollbackHealthy, rollbackFrom := some .linked }

def encodeMissing : Json :=
  .obj [("kind", .str "missing"), ("target", .str "")]

def encodeAbsent (backup : String) : Json :=
  .obj [("backup", .str backup), ("existed", .bool false), ("mode", .null), ("sha256", .null)]

/-- The dictionary of the manifest with its keys sorted. -/
def rolledBackFields : List (String × Json) :=
  [("authority_pending", .bool false),
    ("candidate_release", .obj [("device", encodeNat 1), ("inode", encodeNat 2),
      ("source", .str "/r/releases/s"), ("target", .str "/r/releases/1"),
      ("version_sha256", .str (Sha256.hexdigest [49]))]),
    ("client_binding", .str ""), ("current", encodeMissing), ("desired_env", .null),
    ("desired_service", .null), ("env", encodeAbsent "env.backup"), ("env_path", .str "/e"),
    ("format", encodeInt 1), ("guard", .obj []), ("hub", .obj []), ("intent", .str "ordinary"),
    ("legacy_service_enabled", .bool false), ("legacy_service_state", .str "absent"),
    ("observed_env_sha256", .arr [.null]), ("observed_service_sha256", .arr [.null]),
    ("old_release", .obj []), ("old_target", .str ""), ("phase", .str "rollback-healthy"),
    ("previous", encodeMissing), ("previous_release", .obj []),
    ("prior_bind_address", .str "localhost"), ("prior_port", encodeInt 80),
    ("release_dir", .str "/r/releases/1"), ("release_version", .str "1"),
    ("rollback_from", .str "linked"), ("service", encodeAbsent "service.backup"),
    ("service_enabled", .bool false), ("service_path", .str "/s"),
    ("service_state", .str "absent"),
    ("transaction_id", .str "activation-000000000000000000000000")]

theorem proper_missing : Json.Proper encodeMissing := by
  refine .obj (by decide) ?_
  simp only [List.forall_mem_cons]
  exact ⟨.str _, .str _, fun _ h => absurd h List.not_mem_nil⟩

theorem proper_absent (backup : String) : Json.Proper (encodeAbsent backup) := by
  refine .obj (by simp) ?_
  simp only [List.forall_mem_cons]
  exact ⟨.str _, .bool _, .null, .null, fun _ h => absurd h List.not_mem_nil⟩

theorem proper_empty : Json.Proper (.obj []) :=
  .obj (by decide) fun _ h => absurd h List.not_mem_nil

theorem proper_observed : Json.Proper (.arr [.null]) := by
  refine .arr ?_
  simp only [List.forall_mem_cons]
  exact ⟨.null, fun _ h => absurd h List.not_mem_nil⟩

theorem rolledBackFields_proper : Json.Proper (.obj rolledBackFields) := by
  have candidate : Json.Proper (.obj [("device", encodeNat 1), ("inode", encodeNat 2),
      ("source", .str "/r/releases/s"), ("target", .str "/r/releases/1"),
      ("version_sha256", .str (Sha256.hexdigest [49]))]) := by
    refine .obj (by decide) ?_
    simp only [List.forall_mem_cons]
    exact ⟨.num rfl, .num rfl, .str _, .str _, .str _, fun _ h => absurd h List.not_mem_nil⟩
  refine .obj (by decide) ?_
  simp only [rolledBackFields, List.forall_mem_cons]
  exact ⟨.bool _, candidate, .str _, proper_missing, .null, .null, proper_absent _, .str _,
    .num rfl, proper_empty, proper_empty, .str _, .bool _, .str _, proper_observed,
    proper_observed, proper_empty, .str _, .str _, proper_missing, proper_empty, .str _, .num rfl,
    .str _, .str _, .str _, proper_absent _, .bool _, .str _, .str _, .str _,
    fun _ h => absurd h List.not_mem_nil⟩

def rolledBackBytes : Bytes :=
  Json.dumpsAscii (.obj rolledBackFields) ++ [Json.newline]

def rolledBackTree : FileTree where
  entries := [([], .directory (fileId 9 (by decide)) true 0o755),
    (["r"], .directory (fileId 7 FileId.seven_pos) true 0o700),
    (["r", "releases"], .directory (fileId 4 FileId.four_pos) true 0o700),
    (["r", "releases", "s"], .directory (fileId 2 Nat.two_pos) true 0o700),
    (["r", "releases", "s", "VERSION"], .file (fileId 3 FileId.three_pos)),
    (["r", ".activation-transaction"], .directory (fileId 8 (by decide)) true 0o700),
    (["r", ".activation-transaction", "manifest.json"], .file (fileId 5 FileId.five_pos))]
  inodes id :=
    if id.inode = 3 then { owned := true, mode := 0o644, bytes := [49] }
    else { owned := true, mode := 0o600, bytes := rolledBackBytes }
  unique := by decide

theorem read_rolledBack {directory : Path} {t : FileTree} {id : FileId}
    (there : t.node (directory.child "manifest.json") = some (.file id))
    (inode : t.inodes id = { owned := true, mode := 0o600, bytes := rolledBackBytes })
    (one : t.nlink id = 1) :
    readManifestFile ["r"] directory t = .ok rolledBackManifest := by
  have size : rolledBackBytes.length ≤ maxControlBytes := by
    rw [rolledBackBytes, List.length_append, Json.dumpsAscii_eq, List.length_map]
    decide
  have hread : readPrivate t (directory.child "manifest.json") maxControlBytes =
      .ok rolledBackBytes := by
    unfold readPrivate openChecked
    rw [there]
    simp [inode, one, size, require_bind]
    rfl
  unfold readManifestFile
  rw [hread, ok_bind, rolledBackBytes, Json.loadsBytes_line rolledBackFields_proper]
  rfl

def rolledBackCall : Invocation :=
  linkedInvocation

theorem rolledBackTree_terminal : Terminal rolledBackCall rolledBackManifest rolledBackTree where
  tree := ⟨by decide, by decide⟩
  phase := Or.inr rfl
  id := by decide
  root := rfl
  releases := rfl
  live := by decide
  manifest := read_rolledBack rfl rfl (by decide)
  valid := rfl
  backups := ⟨rfl, rfl⟩
  directory := ⟨by decide, by decide⟩
  expected := by decide
  vacant _ := rfl
  staging := ⟨⟨none, none, rfl, rfl, by simp, by simp⟩, ⟨none, none, rfl, rfl, by simp, by simp⟩⟩
  gone := rfl
  others name hname retired := by
    have plain : ∀ name ∈ rolledBackTree.children (absolute rolledBackCall.root),
        isRetiredName name = false := by decide
    rw [plain name hname] at retired
    cases retired

theorem rolledBackTree_separate : Separate rolledBackCall rolledBackManifest rolledBackTree :=
  ⟨by decide, by decide⟩

/-- The candidate is parked, the directory has its last name, and the first file of the candidate
is gone. -/
def stuckTree : FileTree :=
  let live := liveDirectory rolledBackCall
  let gone := goneDirectory rolledBackCall
  let parked := rolledBackTree.move ["r", "releases", "s"] (candidateParked live)
  (parked.move live gone).erase ((candidateParked gone).child "VERSION")

theorem stuckTree_stuck : Stuck rolledBackCall rolledBackManifest stuckTree :=
  ⟨by decide, rfl, read_rolledBack rfl rfl (by decide)⟩

theorem readManifestAt_rolledBack :
    (readManifestAt Listing.deepestFirst (absolute rolledBackCall.root)
      (liveDirectory rolledBackCall)).run rolledBackTree = ([], .ok rolledBackManifest) := by
  unfold readManifestAt
  refine (run_look_bind (a := ()) ?_).trans ?_
  · rfl
  refine (run_look_bind (a := ["r", "releases"]) ?_).trans ?_
  · rfl
  refine (run_look_bind (a := ()) ?_).trans ?_
  · rfl
  refine (run_still_bind (a := ()) ?_).trans ?_
  · rfl
  exact congrArg (Prod.mk []) rolledBackTree_terminal.manifest

/-- After the two renames, the candidate is the first entry to go. -/
theorem stuckTree_third : ((finishFrom Listing.deepestFirst rolledBackCall
    (liveDirectory rolledBackCall) rolledBackManifest).run rolledBackTree).1[2]? =
      some stuckTree :=
  rfl

theorem stuckTree_cut : stuckTree ∈ (finish Listing.deepestFirst rolledBackCall).cuts
    rolledBackTree := by
  unfold cuts
  rw [finish_run_live rolledBackTree_terminal.root rolledBackTree_terminal.releases
    rolledBackTree_terminal.id rolledBackTree_terminal.live readManifestAt_rolledBack]
  exact List.mem_cons_of_mem _ (List.mem_of_getElem? stuckTree_third)

theorem stuckTree_cutOff : CutOff rolledBackCall rolledBackTree stuckTree :=
  .again Listing.deepestFirst .start stuckTree_cut

theorem finish_again_rolledBack :
    ¬ Finishes rolledBackCall Listing.deepestFirst rolledBackTree stuckTree ∧
      Finishes rolledBackCall Listing.deepestFirst rolledBackTree rolledBackTree := by
  constructor
  · intro finishes
    exact (finish_again_iff _ _ rolledBackManifest _ _ rolledBackTree_terminal
      rolledBackTree_separate stuckTree_cutOff).mp finishes stuckTree_stuck
  · refine (finish_again_iff _ _ rolledBackManifest _ _ rolledBackTree_terminal
      rolledBackTree_separate .start).mpr ?_
    rintro ⟨parked, -⟩
    cases parked

/-- A call that is cut off when the parked candidate has lost its first file cannot be made
again. -/
theorem not_always_finished :
    ¬ ∀ (listing later : Listing) (args : Invocation) (m : Manifest) (t u : FileTree),
      Terminal args m t → Separate args m t → u ∈ (finish listing args).cuts t →
        Finishes args later t u := by
  intro always
  have between : Between rolledBackCall rolledBackManifest rolledBackTree stuckTree :=
    stuckTree_cutOff.between rolledBackTree_terminal rolledBackTree_separate
  have finishes := always Listing.deepestFirst Listing.deepestFirst rolledBackCall
    rolledBackManifest rolledBackTree stuckTree rolledBackTree_terminal rolledBackTree_separate
    stuckTree_cut
  exact (meets_finish_stuck Listing.deepestFirst rolledBackTree_terminal rolledBackTree_separate
    between stuckTree_stuck).ok finishes.1

end Example

end AgentsServer.Activation
