import AgentsServer.HubStartup.Authority
import AgentsServer.Library.Directories
import AgentsServer.Library.JsonSize

/-!
# What is left of an authority file

Every operation on the authority file, cut off wherever it may be, leaves no
file or a private one with one name, which is empty or has its final mode. A
publication that is not cut off puts the complete file there, if it can read
what it finds.
-/

namespace AgentsServer.HubStartup

open Library Program Activation FileTree

/-! ## Trees -/

section Trees

variable {t u v : FileTree} {p : Path} {id other : FileId} {i j : Inode} {n : Node}

theorem setInode_setInode : (t.setInode id i).setInode id j = t.setInode id j := by
  unfold setInode
  congr 1
  funext other
  dsimp only
  split <;> rfl

theorem setInode_inodes_self : (t.setInode id i).inodes id = i :=
  if_pos rfl

theorem setInode_inodes_other (h : other ≠ id) : (t.setInode id i).inodes other = t.inodes other :=
  if_neg h

theorem nlink_put_other (before : t.node p ≠ some (.file id)) (after : n ≠ .file id) :
    (t.put p n).nlink id = t.nlink id := by
  have counted : (t.put p n).nlink id + (if t.node p = some (.file id) then 1 else 0) =
      t.nlink id + (if n = .file id then 1 else 0) := nlink_put
  rwa [if_neg before, if_neg after] at counted

theorem nlink_erase_other (h : t.node p ≠ some (.file id)) : (t.erase p).nlink id = t.nlink id := by
  have counted : (t.erase p).nlink id + (if t.node p = some (.file id) then 1 else 0) =
      t.nlink id := nlink_erase
  rwa [if_neg h] at counted

theorem ne_fresh (h : t.node p = some (.file id)) : id ≠ t.fresh := by
  rintro rfl
  have positive := nlink_pos h
  rw [nlink_fresh] at positive
  exact Nat.lt_irrefl 0 positive

end Trees

/-! ## Changes elsewhere -/

/-- A change that leaves the authority file alone. -/
structure Elsewhere (root : Path) (t u : FileTree) : Prop where
  node : u.node (authorityPath root) = t.node (authorityPath root)
  file : ∀ id, t.node (authorityPath root) = some (.file id) →
    u.inodes id = t.inodes id ∧ u.nlink id = t.nlink id

/-- No authority file, or a private one with one name. -/
structure Residual (root : Path) (t : FileTree) : Prop where
  file : ∀ n, t.node (authorityPath root) = some n → ∃ id, n = .file id ∧ t.nlink id = 1 ∧
    (t.inodes id).owned = true ∧ ((t.inodes id).bytes = [] ∨ (t.inodes id).mode = 0o600)

section Changes

variable {root p : Path} {t u v : FileTree} {id directory : FileId} {i : Inode} {owned : Bool}
  {mode : Nat}

theorem Elsewhere.refl (root : Path) (t : FileTree) : Elsewhere root t t :=
  ⟨rfl, fun _ _ => ⟨rfl, rfl⟩⟩

theorem Elsewhere.trans (h : Elsewhere root t u) (h' : Elsewhere root u v) :
    Elsewhere root t v := by
  refine ⟨h'.node.trans h.node, fun id there => ?_⟩
  obtain ⟨inode, links⟩ := h.file id there
  obtain ⟨inode', links'⟩ := h'.file id (h.node.trans there)
  exact ⟨inode'.trans inode, links'.trans links⟩

theorem Elsewhere.residual (h : Elsewhere root t u) (residual : Residual root t) :
    Residual root u := by
  refine ⟨fun n hn => ?_⟩
  have there := h.node.symm.trans hn
  obtain ⟨id, rfl, links, rest⟩ := residual.file n there
  obtain ⟨inode, links'⟩ := h.file id there
  refine ⟨id, rfl, links'.trans links, ?_⟩
  rw [inode]
  exact rest

theorem Elsewhere.putDirectory (apart : p ≠ authorityPath root)
    (free : ∀ id, t.node p ≠ some (.file id)) :
    Elsewhere root t (t.put p (.directory directory owned mode)) := by
  refine ⟨?_, fun id there => ⟨rfl, nlink_put_other (free id) (by simp)⟩⟩
  rw [node_put, if_neg (Ne.symm apart)]

theorem Elsewhere.create (apart : p ≠ authorityPath root) (free : t.node p = none) :
    Elsewhere root t ((t.put p (.file t.fresh)).setInode t.fresh i) := by
  refine ⟨?_, fun id there => ?_⟩
  · rw [node_setInode, node_put, if_neg (Ne.symm apart)]
  · have old : id ≠ t.fresh := ne_fresh there
    refine ⟨setInode_inodes_other old, ?_⟩
    rw [nlink_setInode]
    apply nlink_put_other
    · rw [free]
      simp
    · intro same
      cases same
      exact old rfl

theorem Elsewhere.erase (residual : Residual root t) (apart : p ≠ authorityPath root) :
    Elsewhere root t (t.erase p) := by
  refine ⟨?_, fun id there => ⟨rfl, ?_⟩⟩
  · rw [node_erase, if_neg (Ne.symm apart)]
  · apply nlink_erase_other
    intro same
    obtain ⟨id', ⟨⟩, links, -⟩ := residual.file _ there
    exact apart (eq_of_nlink_one links there same)

end Changes

/-! ## Names -/

theorem authorityPath_parent (root : Path) : (authorityPath root).parent = root :=
  parent_child root _

theorem temporaryPath_parent (root : Path) (token : Token) :
    (temporaryPath (authorityPath root) token).parent = root := by
  unfold temporaryPath
  rw [parent_child, authorityPath_parent]

theorem temporaryPath_apart (root : Path) (token : Token) :
    temporaryPath (authorityPath root) token ≠ authorityPath root := by
  unfold temporaryPath
  rw [authorityPath_parent]
  unfold authorityPath Path.child
  intro same
  have names := List.append_cancel_left same
  rw [List.cons.injEq] at names
  have lengths := congrArg String.length names.1
  have name : (root ++ [".managed-startup-authority.json"]).name =
      ".managed-startup-authority.json" := by
    simp [Path.name]
  have dot : ".".length = 1 := rfl
  rw [name, String.length_append, String.length_append, String.length_append,
    String.length_append, dot] at lengths
  omega

theorem apart_of_above {root p : Path} (h : p <+: root) : p ≠ authorityPath root := by
  rintro rfl
  have lengths := h.length_le
  simp [authorityPath, Path.child] at lengths

/-! ## Writing -/

section Writing

variable {root p : Path} {t u : FileTree} {system : System} {id : FileId} {value : Bytes}
  {I : FileTree → Prop} {E : Failure → FileTree → Prop} {mode : Nat}

theorem meets_change {f : FileTree → Except OsError FileTree} {Q : Unit → FileTree → Prop}
    (h : f t = .ok u) (hI : I u) (hQ : Q () u) : Meets I (change f) Q E t := by
  apply Meets.act (t := u)
  · rw [h]
    rfl
  · exact hI
  · exact hQ

/-- A file that holds these bytes. -/
def holding (t : FileTree) (id : FileId) (bytes : Bytes) : FileTree :=
  t.setInode id { owned := true, mode := 0o600, bytes }

/-- A new file gets its mode, then one piece after the other. -/
theorem meets_fill (owned : (t.inodes id).owned = true) (empty : (t.inodes id).bytes = [])
    (hI : ∀ written, written <+: value → I (holding t id written)) :
    Meets I (fill system id value) (fun _ u => u = holding t id value) E t := by
  unfold fill
  have start : t.chmod id 0o600 = holding t id [] := by
    unfold chmod holding
    dsimp only
    rw [owned, empty]
  refine Meets.bind (R := fun _ u => u = holding t id []) (meets_change rfl ?_ ?_) ?_
  · rw [start]
    exact hI [] List.nil_prefix
  · exact start
  rintro - u rfl
  have loop : Meets I _ _ E (holding t id []) :=
    Meets.each (f := fun piece => change fun t => .ok (appendBytes id piece t))
      (J := fun rest u => ∃ written, written ++ rest.flatten = value ∧ u = holding t id written)
      ?_ (system.pieces value) ⟨[], system.pieces_flatten value, rfl⟩
  · refine loop.weaken (fun _ h => h) ?_
    rintro - u ⟨written, whole, rfl⟩
    rw [List.flatten_nil, List.append_nil] at whole
    rw [whole]
  · rintro piece rest _ ⟨written, whole, rfl⟩
    rw [List.flatten_cons, ← List.append_assoc] at whole
    have appended : appendBytes id piece (holding t id written) = holding t id (written ++ piece) := by
      unfold appendBytes holding
      rw [setInode_setInode, setInode_inodes_self]
    refine meets_change (congrArg Except.ok appended) ?_ ⟨_, whole, rfl⟩
    exact hI _ ⟨_, whole⟩

/-- A directory of the user. -/
def OwnDirectory (t : FileTree) (p : Path) : Prop :=
  ∃ id mode, t.node p = some (.directory id true mode)

theorem meets_makeDirectories (root : Path) (t : FileTree) :
    Meets (Elsewhere root t) (makeDirectories root)
      (fun _ u => Elsewhere root t u ∧ (OwnDirectory t root → u = t)) E t := by
  unfold makeDirectories
  refine Meets.bind (R := fun missing u => u = t ∧ missing = (t.node root).isNone)
    (Meets.read rfl ⟨rfl, rfl⟩) ?_
  rintro missing t ⟨rfl, rfl⟩
  split
  · next absent =>
      have missing : ¬ OwnDirectory t root := by
        rintro ⟨id, mode, there⟩
        rw [there] at absent
        cases absent
      refine Meets.weaken (Meets.each (I := Elsewhere root t)
        (J := fun rest u => Elsewhere root t u ∧ ∀ q ∈ rest, q <+: root) ?_ root.inits
        ⟨.refl root t, fun q hq => (List.mem_inits q root).mp hq⟩) (fun _ h => h) ?_
      · rintro q rest u ⟨elsewhere, above⟩
        have later : ∀ q ∈ rest, q <+: root := fun q hq => above q (List.mem_cons_of_mem _ hq)
        unfold makeDirectory
        refine Meets.bind (R := fun missing v => v = u ∧ missing = (u.node q).isNone)
          (Meets.read rfl ⟨rfl, rfl⟩) ?_
        rintro missing u ⟨rfl, rfl⟩
        split
        · next free =>
            have more : Elsewhere root t (u.put q (.directory u.fresh true 0o700)) := by
              refine elsewhere.trans (.putDirectory ?_ fun id there => ?_)
              · exact apart_of_above (above q List.mem_cons_self)
              · rw [there] at free
                cases free
            exact meets_change rfl more ⟨more, later⟩
        · exact Meets.pure ⟨elsewhere, later⟩
      · rintro - u ⟨elsewhere, -⟩
        exact ⟨elsewhere, fun own => absurd own missing⟩
  · exact Meets.pure ⟨.refl root t, fun _ => rfl⟩

/-- A directory of the user stays in its place. Nothing else is made above the authority file
but directories. -/
theorem meets_ensurePrivateDirectory (root : Path) (t : FileTree) :
    Meets (Elsewhere root t) (ensurePrivateDirectory root)
      (fun _ u => Elsewhere root t u ∧
        (OwnDirectory t root → ∀ q, q ≠ root → u.node q = t.node q))
      (fun _ u => Elsewhere root t u ∧ ¬ OwnDirectory t root) t := by
  unfold ensurePrivateDirectory
  refine Meets.bind (meets_makeDirectories root t) ?_
  rintro - u ⟨elsewhere, same⟩
  refine Meets.bind (R := fun id v => v = u ∧ ∃ mode, u.node root = some (.directory id true mode))
    ?_ ?_
  · apply Meets.look
    · intro id hid
      split at hid
      · next id' mode there =>
          cases hid
          exact ⟨rfl, mode, there⟩
      · cases hid
      · cases hid
    · intro e he
      refine ⟨elsewhere, fun own => ?_⟩
      rw [same own] at he
      obtain ⟨id, mode, there⟩ := own
      rw [there] at he
      cases he
  · rintro id u ⟨rfl, mode, there⟩
    have more : Elsewhere root t (u.put root (.directory id true 0o700)) := by
      refine elsewhere.trans (.putDirectory (apart_of_above (List.prefix_refl root)) ?_)
      intro id' there'
      rw [there] at there'
      cases there'
    refine meets_change rfl more ⟨more, fun own q other => ?_⟩
    rw [node_put, if_neg other, same own]

theorem createFile_eq_ok (h : createFile system p t = .ok u) :
    t.node p = none ∧ ∃ mode, u = (t.put p (.file t.fresh)).setInode t.fresh
      { owned := true, mode, bytes := [] } := by
  unfold createFile at h
  split at h
  · cases h
  · next free =>
      cases h
      exact ⟨Option.not_isSome_iff_eq_none.mp free, _, rfl⟩

/-- A name that a new file may get. -/
theorem meets_createFile {F : Failure → FileTree → Prop}
    (taken : ∀ e, t.node p ≠ none → F e t)
    (hI : ∀ mode, t.node p = none → I ((t.put p (.file t.fresh)).setInode t.fresh
      { owned := true, mode, bytes := [] })) :
    Meets I (change (createFile system p))
      (fun _ u => t.node p = none ∧ ∃ mode, u = (t.put p (.file t.fresh)).setInode t.fresh
        { owned := true, mode, bytes := [] }) F t := by
  cases hc : createFile system p t with
  | ok u =>
      obtain ⟨free, mode, rfl⟩ := createFile_eq_ok hc
      exact meets_change hc (hI mode free) ⟨free, mode, rfl⟩
  | error e =>
      refine ⟨?_, ?_⟩
      · simp [change, act, hc, Except.mapError]
      · have there : t.node p ≠ none := by
          intro free
          unfold createFile at hc
          rw [free] at hc
          cases hc
        simp only [change, act, hc, Except.mapError, final, List.getLastD_nil]
        exact taken _ there

theorem nlink_put_fresh (free : t.node p = none) :
    (t.put p (.file t.fresh)).nlink t.fresh = 1 := by
  have counted : (t.put p (.file t.fresh)).nlink t.fresh +
      (if t.node p = some (.file t.fresh) then 1 else 0) =
      t.nlink t.fresh + (if Node.file t.fresh = .file t.fresh then 1 else 0) := nlink_put
  rwa [if_neg (by rw [free]; simp), if_pos rfl, nlink_fresh] at counted

/-- A file that holds exactly these bytes stands at a path, under no other name. -/
structure Holding (p : Path) (bytes : Bytes) (t : FileTree) : Prop where
  file : ∃ id, t.node p = some (.file id) ∧ t.nlink id = 1 ∧
    t.inodes id = { owned := true, mode := 0o600, bytes }

theorem holding_create (free : t.node p = none) (bytes : Bytes) :
    Holding p bytes (holding (t.put p (.file t.fresh)) t.fresh bytes) := by
  refine ⟨t.fresh, ?_, ?_, setInode_inodes_self⟩
  · unfold holding
    rw [node_setInode, node_put, if_pos rfl]
  · unfold holding
    rw [nlink_setInode]
    exact nlink_put_fresh free

theorem Holding.residual {bytes : Bytes} (h : Holding (authorityPath root) bytes t) :
    Residual root t := by
  obtain ⟨id, there, links, inode⟩ := h.file
  refine ⟨fun n hn => ⟨id, ?_, links, ?_⟩⟩
  · rw [there] at hn
    exact (Option.some.inj hn).symm
  · rw [inode]
    exact ⟨rfl, Or.inr rfl⟩

/-! ## Creating and replacing -/

/-- Nothing stands in the way of a temporary file. -/
structure Able (root : Path) (token : Token) (value : Bytes) (t : FileTree) : Prop where
  directory : OwnDirectory t root
  free : t.node (temporaryPath (authorityPath root) token) = none
  short : ∀ name ∈ temporaryPath (authorityPath root) token, Json.utf8Size name.toList ≤ nameMax
  size : 32 ≤ value.length ∧ value.length ≤ 4096

/-- The whole of the file is written before anything else happens under its name. -/
theorem meets_createSecretFile (system : System) (root : Path) (token : Token) (value : Bytes)
    (t : FileTree) :
    Meets (Elsewhere root t)
      (createSecretFile system (temporaryPath (authorityPath root) token) value)
      (fun _ u => Elsewhere root t u ∧ Holding (temporaryPath (authorityPath root) token) value u)
      (fun _ u => Elsewhere root t u ∧ ¬ Able root token value t) t := by
  have apart := temporaryPath_apart root token
  have below : temporaryPath (authorityPath root) token ≠ root := by
    unfold temporaryPath
    rw [authorityPath_parent]
    simp [Path.child]
  unfold createSecretFile
  rw [temporaryPath_parent]
  obtain ⟨tmp, htmp⟩ : ∃ tmp, tmp = temporaryPath (authorityPath root) token := ⟨_, rfl⟩
  rw [← htmp] at apart below ⊢
  refine Meets.bind (R := fun _ u => Elsewhere root t u ∧
    (OwnDirectory t root → ∀ q, q ≠ root → u.node q = t.node q)) ?_ ?_
  · refine (meets_ensurePrivateDirectory root t).imp (fun _ h => h) (fun _ _ h => h) ?_
    rintro e u ⟨elsewhere, foreign⟩
    exact ⟨elsewhere, fun able => foreign able.directory⟩
  rintro - u ⟨elsewhere, same⟩
  refine Meets.bind (meets_createFile (I := Elsewhere root t) ?_ ?_) ?_
  · intro e taken
    refine ⟨elsewhere, fun able => taken ?_⟩
    rw [same able.directory tmp below, htmp]
    exact able.free
  · intro mode free
    exact elsewhere.trans (.create apart free)
  rintro - v ⟨free, mode, rfl⟩
  have there : ((u.put tmp (.file u.fresh)).setInode u.fresh
      { owned := true, mode, bytes := [] }).node tmp = some (.file u.fresh) := by
    rw [node_setInode, node_put, if_pos rfl]
  refine Meets.bind (R := fun id v => id = u.fresh ∧ v = (u.put tmp (.file u.fresh)).setInode u.fresh
    { owned := true, mode, bytes := [] }) (Meets.read (a := u.fresh) ?_ ⟨rfl, rfl⟩) ?_
  · unfold fileAt
    rw [there]
  rintro id v ⟨rfl, rfl⟩
  have written : ∀ bytes, holding ((u.put tmp (.file u.fresh)).setInode u.fresh
      { owned := true, mode, bytes := [] }) u.fresh bytes =
      holding (u.put tmp (.file u.fresh)) u.fresh bytes := fun _ => setInode_setInode
  refine Meets.bind (R := fun _ v => v = holding (u.put tmp (.file u.fresh)) u.fresh value)
    ((meets_fill ?_ ?_ ?_).weaken (fun _ h => h) ?_) ?_
  · rw [setInode_inodes_self]
  · rw [setInode_inodes_self]
  · intro bytes _
    rw [written]
    exact elsewhere.trans (.create apart free)
  · rintro - v rfl
    exact written value
  rintro - v rfl
  have held := holding_create free value
  have after := elsewhere.trans (.create (i := { owned := true, mode := 0o600, bytes := value })
    apart free)
  apply Meets.look
  · intro _ _
    exact ⟨after, held⟩
  · intro e he
    refine ⟨after, fun able => ?_⟩
    have passes : validateSecretFile (holding (u.put tmp (.file u.fresh)) u.fresh value) tmp =
        .ok () := by
      obtain ⟨id, there, links, inode⟩ := held.file
      have short := able.short
      rw [← htmp] at short
      unfold validateSecretFile openFile
      simp only [there, bind_eq_ok, require_eq_ok]
      refine ⟨id, ⟨(), short, rfl⟩, (), ⟨links, ?_⟩, (), ?_, ?_⟩
      · rw [inode]
      · rw [inode]
      · rw [inode]
        exact able.size
    rw [passes] at he
    cases he

/-- A temporary file is renamed over the authority file. -/
theorem rename_authority {tmp : Path} {bytes : Bytes} (residual : Residual root t)
    (apart : tmp ≠ authorityPath root) (held : Holding tmp bytes t) :
    ∃ u, t.rename tmp (authorityPath root) = .ok u ∧ Holding (authorityPath root) bytes u := by
  obtain ⟨id, there, links, inode⟩ := held.file
  have gone : (t.erase tmp).nlink id = 0 := by
    have counted : (t.erase tmp).nlink id + (if t.node tmp = some (.file id) then 1 else 0) =
        t.nlink id := nlink_erase
    rw [if_pos there, links] at counted
    omega
  have renamed : Holding (authorityPath root) bytes
      ((t.erase tmp).put (authorityPath root) (.file id)) := by
    refine ⟨id, ?_, ?_, inode⟩
    · rw [node_put, if_pos rfl]
    · have counted : ((t.erase tmp).put (authorityPath root) (.file id)).nlink id +
          (if (t.erase tmp).node (authorityPath root) = some (.file id) then 1 else 0) =
          (t.erase tmp).nlink id + (if Node.file id = .file id then 1 else 0) := nlink_put
      have other : (t.erase tmp).node (authorityPath root) ≠ some (.file id) := by
        intro same
        have positive := nlink_pos same
        omega
      rwa [if_neg other, if_pos rfl, gone] at counted
  cases old : t.node (authorityPath root) with
  | none =>
      refine ⟨_, ?_, renamed⟩
      unfold rename
      rw [there, old]
      exact if_neg apart
  | some n =>
      obtain ⟨id', rfl, links', -⟩ := residual.file n old
      have other : Node.file id ≠ .file id' := by
        rintro ⟨⟩
        exact apart (eq_of_nlink_one links' old there)
      refine ⟨_, ?_, renamed⟩
      unfold rename
      rw [there, old]
      exact if_neg other

theorem meets_replacePrivateControlFile (token : Token) (residual : Residual root t) :
    Meets (Residual root)
      (replacePrivateControlFile system (authorityPath root) token value)
      (fun _ u => Holding (authorityPath root) value u)
      (fun _ _ => ¬ Able root token value t) t := by
  have apart := temporaryPath_apart root token
  have secret := meets_createSecretFile system root token value t
  unfold replacePrivateControlFile
  refine Meets.rescue (F := fun _ u => Elsewhere root t u ∧ ¬ Able root token value t) ?_ ?_
  · refine Meets.bind (secret.weaken (fun u h => h.residual residual) fun _ _ h => h) ?_
    rintro - u ⟨elsewhere, held⟩
    obtain ⟨v, renamed, complete⟩ := rename_authority (elsewhere.residual residual) apart held
    exact meets_change renamed complete.residual complete
  · rintro e u ⟨elsewhere, unable⟩
    have here := elsewhere.residual residual
    have raised : ∀ v : FileTree, Meets (Residual root)
        (raise e : Program FileTree Failure Unit) (fun _ u => Holding (authorityPath root) value u)
        (fun _ _ => ¬ Able root token value t) v :=
      fun v => Meets.raise unable
    refine Meets.bind (R := fun there v => v = u ∧
      there = (u.node (temporaryPath (authorityPath root) token)).isSome)
      (Meets.read rfl ⟨rfl, rfl⟩) ?_
    rintro there u ⟨rfl, rfl⟩
    split
    · refine Meets.bind (R := fun _ _ => True) ?_ fun _ v _ => raised v
      cases removed : u.unlink (temporaryPath (authorityPath root) token) with
      | ok v =>
          refine meets_change removed ?_ trivial
          unfold unlink at removed
          split at removed
          · cases removed
          · cases removed
          · cases removed
            exact (Elsewhere.erase here apart).residual here
      | error e' =>
          refine ⟨?_, ?_⟩
          · simp [change, act, removed, Except.mapError]
          · simp only [change, act, removed, Except.mapError]
            exact unable
    · exact raised u

/-- The first authority file. -/
theorem meets_createOwnedMaintenanceFence (residual : Residual root t)
    (free : t.node (authorityPath root) = none) :
    Meets (Residual root) (createOwnedMaintenanceFence system (authorityPath root) value)
      (fun _ u => Holding (authorityPath root) value u) (fun _ _ => ¬ OwnDirectory t root) t := by
  unfold createOwnedMaintenanceFence
  rw [authorityPath_parent]
  refine Meets.bind (R := fun _ u => Elsewhere root t u)
    ((meets_ensurePrivateDirectory root t).imp (fun u h => h.residual residual)
      (fun _ _ h => h.1) fun _ _ h => h.2) ?_
  rintro - u elsewhere
  have free' : u.node (authorityPath root) = none := elsewhere.node.trans free
  have created : ∀ mode bytes, bytes = [] ∨ mode = 0o600 →
      Residual root ((u.put (authorityPath root) (.file u.fresh)).setInode u.fresh
        { owned := true, mode, bytes }) := by
    intro mode bytes hbytes
    refine ⟨fun n hn => ⟨u.fresh, ?_, ?_, ?_⟩⟩
    · rw [node_setInode, node_put, if_pos rfl] at hn
      exact (Option.some.inj hn).symm
    · rw [nlink_setInode]
      exact nlink_put_fresh free'
    · rw [setInode_inodes_self]
      exact ⟨rfl, hbytes⟩
  refine Meets.bind (meets_createFile (fun _ taken => absurd free' taken)
    fun mode _ => created mode [] (Or.inl rfl)) ?_
  rintro - v ⟨-, mode, rfl⟩
  refine Meets.bind (R := fun id v => id = u.fresh ∧ v =
    (u.put (authorityPath root) (.file u.fresh)).setInode u.fresh
      { owned := true, mode, bytes := [] }) (Meets.read (a := u.fresh) ?_ ⟨rfl, rfl⟩) ?_
  · unfold fileAt
    rw [node_setInode, node_put, if_pos rfl]
  rintro id v ⟨rfl, rfl⟩
  have written : ∀ bytes, holding ((u.put (authorityPath root) (.file u.fresh)).setInode u.fresh
      { owned := true, mode, bytes := [] }) u.fresh bytes =
      holding (u.put (authorityPath root) (.file u.fresh)) u.fresh bytes :=
    fun _ => setInode_setInode
  refine Meets.rescue (F := fun _ _ => False) ?_ fun _ _ h => h.elim
  refine Meets.bind (R := fun _ v => v =
    holding (u.put (authorityPath root) (.file u.fresh)) u.fresh value)
    ((meets_fill ?_ ?_ ?_).weaken (fun _ h => h) ?_) ?_
  · rw [setInode_inodes_self]
  · rw [setInode_inodes_self]
  · intro bytes _
    rw [written]
    exact created 0o600 bytes (Or.inr rfl)
  · rintro - v rfl
    exact written value
  rintro - v rfl
  have held := holding_create free' value
  apply Meets.read (a := ())
  · obtain ⟨id, there, links, inode⟩ := held.file
    have same : id = u.fresh := by
      unfold holding at there
      rw [node_setInode, node_put, if_pos rfl] at there
      cases there
      rfl
    subst same
    unfold checkCreated fileAt
    simp only [there, links, inode, bind_eq_ok, require_eq_ok]
    exact ⟨(), ⟨trivial, trivial, trivial⟩, u.fresh, rfl, rfl, trivial⟩
  · exact held

end Writing

end AgentsServer.HubStartup
