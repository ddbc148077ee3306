import AgentsServer.Library.Crash
import AgentsServer.Library.FileTree
import Mathlib.Data.List.Perm.Subperm
import Mathlib.Data.List.Sort

/-!
# Directories

What a directory lists, the removal of entries one by one, and trees that have lost
some of their entries. The order in which the system lists a directory is a parameter;
the removal of a whole directory takes every entry after all that stand below it.
-/

namespace AgentsServer.Library

namespace FileTree

/-! ## Listing -/

/-- The names of the entries right below a directory. -/
def children (t : FileTree) (p : Path) : List String :=
  (t.entries.filter fun e => e.1 ≠ [] ∧ e.1.parent = p).map fun e => e.1.name

/-- The paths of the entries at a path and below it. -/
def below (t : FileTree) (p : Path) : List Path :=
  (t.entries.map Prod.fst).filter fun q => p <+: q

section Listing

variable {t u v : FileTree} {p q : Path} {name : String} {id : FileId}

theorem child_eq_iff : p = q.child name ↔ p ≠ [] ∧ p.parent = q ∧ p.name = name := by
  unfold Path.child Path.parent Path.name
  constructor
  · rintro rfl
    simp
  · rintro ⟨hne, rfl, rfl⟩
    have hlast : p.getLastD "" = p.getLast hne := by
      rw [List.getLastD_eq_getLast?, List.getLast?_eq_some_getLast hne]
      rfl
    rw [hlast, List.dropLast_append_getLast hne]

theorem node_isSome : (t.node p).isSome = true ↔ p ∈ t.entries.map Prod.fst := by
  rw [Option.isSome_iff_exists, List.mem_map]
  constructor
  · rintro ⟨n, hn⟩
    exact ⟨_, node_eq_some.mp hn, rfl⟩
  · rintro ⟨e, he, rfl⟩
    exact ⟨e.2, node_eq_some.mpr he⟩

theorem mem_children : name ∈ t.children p ↔ (t.node (p.child name)).isSome = true := by
  rw [node_isSome, children, List.mem_map, List.mem_map]
  constructor
  · rintro ⟨e, he, hname⟩
    obtain ⟨hmem, hkeep⟩ := List.mem_filter.mp he
    obtain ⟨hne, hparent⟩ := of_decide_eq_true hkeep
    exact ⟨e, hmem, child_eq_iff.mpr ⟨hne, hparent, hname⟩⟩
  · rintro ⟨e, he, hpath⟩
    obtain ⟨hne, hparent, hname⟩ := child_eq_iff.mp hpath
    exact ⟨e, List.mem_filter.mpr ⟨he, decide_eq_true ⟨hne, hparent⟩⟩, hname⟩

theorem children_nodup (t : FileTree) (p : Path) : (t.children p).Nodup := by
  have hpaths := (t.unique.sublist ((List.filter_sublist (l := t.entries)
    (p := fun e => decide (e.1 ≠ [] ∧ e.1.parent = p))).map Prod.fst))
  have hnames : t.children p = ((t.entries.filter fun e => decide (e.1 ≠ [] ∧ e.1.parent = p)).map
      Prod.fst).map Path.name := by
    rw [List.map_map]
    rfl
  rw [hnames]
  apply List.Nodup.map_on _ hpaths
  intro a ha b hb hname
  obtain ⟨e, he, rfl⟩ := List.mem_map.mp ha
  obtain ⟨f, hf, rfl⟩ := List.mem_map.mp hb
  obtain ⟨hne, hparent⟩ := of_decide_eq_true (List.mem_filter.mp he).2
  obtain ⟨hne', hparent'⟩ := of_decide_eq_true (List.mem_filter.mp hf).2
  rw [child_eq_iff.mpr ⟨hne, hparent, rfl⟩, child_eq_iff.mpr ⟨hne', hparent', rfl⟩, hname]

theorem mem_below : q ∈ t.below p ↔ p <+: q ∧ (t.node q).isSome = true := by
  rw [below, List.mem_filter, decide_eq_true_eq, node_isSome, and_comm]

theorem below_nodup (t : FileTree) (p : Path) : (t.below p).Nodup :=
  t.unique.sublist List.filter_sublist

theorem hasChildren_iff :
    t.hasChildren p = true ↔ ∃ q, p <+: q ∧ q ≠ p ∧ (t.node q).isSome = true := by
  rw [hasChildren, List.any_eq_true]
  constructor
  · rintro ⟨e, he, hbelow⟩
    obtain ⟨hunder, hne⟩ := of_decide_eq_true hbelow
    exact ⟨e.1, hunder, hne, node_isSome.mpr (List.mem_map_of_mem he)⟩
  · rintro ⟨q, hunder, hne, hq⟩
    obtain ⟨e, he, rfl⟩ := List.mem_map.mp (node_isSome.mp hq)
    exact ⟨e, he, decide_eq_true ⟨hunder, hne⟩⟩

/-! ## Removing -/

def rmdir (t : FileTree) (p : Path) : Except OsError FileTree :=
  match t.node p with
  | none => .error .fileNotFound
  | some (.directory ..) => if t.hasChildren p then .error .notEmpty else .ok (t.erase p)
  | some _ => .error .notADirectory

/-- `rmdir` of a directory, `unlink` of anything else. -/
def remove (t : FileTree) (p : Path) : Except OsError FileTree :=
  match t.node p with
  | some (.directory ..) => t.rmdir p
  | _ => t.unlink p

/-- Nothing stands strictly below a path. -/
def Leaf (t : FileTree) (p : Path) : Prop :=
  ∀ q, p <+: q → q ≠ p → t.node q = none

theorem rmdir_leaf {owned : Bool} {mode : Nat} (there : t.node p = some (.directory id owned mode))
    (leaf : t.Leaf p) : t.rmdir p = .ok (t.erase p) := by
  unfold rmdir
  rw [there]
  dsimp only
  rw [if_neg]
  intro children
  obtain ⟨q, hunder, hne, hq⟩ := hasChildren_iff.mp children
  rw [leaf q hunder hne] at hq
  cases hq

theorem remove_leaf (there : (t.node p).isSome = true) (leaf : t.Leaf p) :
    t.remove p = .ok (t.erase p) := by
  unfold remove
  cases hn : t.node p with
  | none =>
      rw [hn] at there
      cases there
  | some n =>
      cases n with
      | directory id owned mode => exact rmdir_leaf hn leaf
      | _ =>
          dsimp only
          unfold unlink
          rw [hn]

end Listing

/-! ## Trees with fewer entries -/

/-- A tree that has lost some of its entries. -/
structure Smaller (t u : FileTree) : Prop where
  inodes : u.inodes = t.inodes
  node : ∀ p n, u.node p = some n → t.node p = some n

namespace Smaller

variable {t u v : FileTree} {p : Path} {id : FileId}

theorem refl (t : FileTree) : Smaller t t :=
  ⟨rfl, fun _ _ h => h⟩

theorem trans (h : Smaller t u) (h' : Smaller u v) : Smaller t v :=
  ⟨h'.inodes.trans h.inodes, fun p n hn => h.node p n (h'.node p n hn)⟩

theorem erase (t : FileTree) (p : Path) : Smaller t (t.erase p) := by
  refine ⟨rfl, ?_⟩
  intro q n hn
  rw [node_erase] at hn
  split at hn
  · cases hn
  · exact hn

theorem gone (h : Smaller t u) (hp : t.node p = none) : u.node p = none := by
  cases hn : u.node p with
  | none => rfl
  | some n =>
      rw [h.node p n hn] at hp
      cases hp

/-- A file keeps no more names than it had. -/
theorem nlink_le (h : Smaller t u) (id : FileId) : u.nlink id ≤ t.nlink id := by
  have subset : u.entries ⊆ t.entries := by
    intro e he
    exact node_eq_some.mp (h.node e.1 e.2 (node_eq_some.mpr he))
  have sub : u.entries.Subperm t.entries :=
    List.subperm_of_subset (List.Nodup.of_map _ u.unique) subset
  obtain ⟨kept, perm, sublist⟩ := sub
  calc u.nlink id = (kept.map Prod.snd).count (.file id) := ((perm.map Prod.snd).count_eq _).symm
    _ ≤ t.nlink id := (sublist.map Prod.snd).count_le _

end Smaller

/-! ## Where things are after a move -/

section Move

variable {t : FileTree} {p q source target : Path} {n : Node}

theorem node_move_target (hst : ¬ source <+: target) (hts : ¬ target <+: source) (rest : Path) :
    (t.move source target).node (target ++ rest) = t.node (source ++ rest) := by
  rw [node_move hst hts, if_pos (List.prefix_append target rest), List.drop_left]

theorem node_move_source (hst : ¬ source <+: target) (hts : ¬ target <+: source)
    (h : source <+: q) : (t.move source target).node q = none := by
  rw [node_move hst hts, if_neg, if_pos h]
  intro h'
  rcases List.prefix_or_prefix_of_prefix h h' with h | h
  · exact hst h
  · exact hts h

theorem node_move_other (hst : ¬ source <+: target) (hts : ¬ target <+: source)
    (h : ¬ source <+: q) (h' : ¬ target <+: q) : (t.move source target).node q = t.node q := by
  rw [node_move hst hts, if_neg h', if_neg h]

/-- A directory is renamed to a free place. -/
theorem rename_directory {id : FileId} {owned : Bool} {mode : Nat}
    (there : t.node source = some (.directory id owned mode)) (hst : ¬ source <+: target)
    (free : ∀ q, target <+: q → t.node q = none) :
    t.rename source target = .ok (t.move source target) := by
  have hne : source ≠ target := by
    rintro rfl
    exact hst (List.prefix_refl _)
  have hempty : t.hasChildren target = false := by
    rw [Bool.eq_false_iff]
    intro children
    obtain ⟨q, hunder, -, hq⟩ := hasChildren_iff.mp children
    rw [free q hunder] at hq
    cases hq
  unfold rename
  rw [there]
  dsimp only
  rw [if_neg hne, if_neg hst, hempty, free target (List.prefix_refl target)]
  rfl

theorem unlink_file (there : t.node p = some n) (file : ∀ id owned mode,
    n ≠ .directory id owned mode) : t.unlink p = .ok (t.erase p) := by
  unfold unlink
  rw [there]
  cases n with
  | directory id owned mode => exact absurd rfl (file id owned mode)
  | _ => rfl

end Move

/-! ## Trees in which every entry stands in a directory -/

def isDirectory : Node → Bool
  | .directory .. => true
  | _ => false

def directoryId : Node → Option FileId
  | .directory id .. => some id
  | _ => none

/-- Every entry stands in a directory, and a directory stands at one place. -/
structure WellFormed (t : FileTree) : Prop where
  rooted : ∀ e ∈ t.entries, e.1 ≠ [] → (t.node e.1.parent).any isDirectory = true
  distinct : (t.entries.filterMap fun e => directoryId e.2).Nodup

section WellFormed

variable {t u : FileTree} {p q source target : Path} {name : String} {n : Node}

theorem child_ne_nil (p : Path) (name : String) : p.child name ≠ [] :=
  List.append_ne_nil_of_right_ne_nil p (List.cons_ne_nil name [])

theorem parent_child (p : Path) (name : String) : (p.child name).parent = p :=
  List.dropLast_concat

theorem prefix_child (p : Path) (name : String) : p <+: p.child name :=
  List.prefix_append p [name]

/-- What stands below a directory is a child of it, or stands below one. -/
theorem child_below (h : p <+: q) (other : q ≠ p) : ∃ name, p.child name <+: q := by
  obtain ⟨rest, rfl⟩ := h
  cases rest with
  | nil => exact absurd (List.append_nil p) other
  | cons name rest =>
      refine ⟨name, rest, ?_⟩
      rw [Path.child, List.append_assoc]
      rfl

theorem WellFormed.parent (wf : t.WellFormed) (h : (t.node (p.child name)).isSome = true) :
    (t.node p).any isDirectory = true := by
  obtain ⟨e, he, hpath⟩ := List.mem_map.mp (node_isSome.mp h)
  have there := wf.rooted e he (by rw [hpath]; exact child_ne_nil p name)
  rwa [hpath, parent_child] at there

theorem WellFormed.of_parents
    (rooted : ∀ p name, (t.node (p.child name)).isSome = true →
      (t.node p).any isDirectory = true)
    (distinct : (t.entries.filterMap fun e => directoryId e.2).Nodup) : t.WellFormed := by
  refine ⟨fun e he hne => ?_, distinct⟩
  apply rooted e.1.parent e.1.name
  rw [← child_eq_iff.mpr ⟨hne, rfl, rfl⟩]
  exact node_isSome.mpr (List.mem_map_of_mem he)

theorem isSome_of_any {o : Option Node} (h : o.any isDirectory = true) : o.isSome = true := by
  cases o with
  | none => cases h
  | some n => rfl

/-- Above an entry there are directories. -/
theorem WellFormed.above (wf : t.WellFormed) (rest : List String) (hne : rest ≠ [])
    (h : (t.node (p ++ rest)).isSome = true) : (t.node p).any isDirectory = true := by
  induction rest using List.reverseRecOn with
  | nil => exact absurd rfl hne
  | append_singleton rest name ih =>
      rw [← List.append_assoc] at h
      have there := wf.parent h
      cases rest with
      | nil => simpa using there
      | cons a rest => exact ih (List.cons_ne_nil a rest) (isSome_of_any there)

theorem WellFormed.ancestor (wf : t.WellFormed) (h : p <+: q) (there : (t.node q).isSome = true) :
    (t.node p).isSome = true := by
  obtain ⟨rest, rfl⟩ := h
  by_cases hne : rest = []
  · simpa [hne] using there
  · exact isSome_of_any (wf.above rest hne there)

theorem WellFormed.absent (wf : t.WellFormed) (h : t.node p = none) (below : p <+: q) :
    t.node q = none := by
  by_contra there
  have above := wf.ancestor below (Option.isSome_iff_ne_none.mpr there)
  rw [h] at above
  cases above

/-- Nothing stands below a file. -/
theorem WellFormed.leaf (wf : t.WellFormed) (h : t.node p = some n) (file : isDirectory n = false) :
    t.Leaf p := by
  rintro q ⟨rest, rfl⟩ other
  by_contra there
  have above := wf.above rest (by rintro rfl; exact other (List.append_nil p))
    (Option.isSome_iff_ne_none.mpr there)
  rw [h, Option.any_some, file] at above
  cases above

theorem nodup_filterMap {l : List (Path × Node)}
    (h : (l.filterMap fun e => directoryId e.2).Nodup) {e f : Path × Node} (he : e ∈ l)
    (hf : f ∈ l) {id : FileId} (hid : directoryId e.2 = some id)
    (hid' : directoryId f.2 = some id) : e = f := by
  induction l with
  | nil => cases he
  | cons a rest ih =>
      have tail : (rest.filterMap fun e => directoryId e.2).Nodup :=
        h.sublist ((List.sublist_cons_self a rest).filterMap _)
      have fresh : ∀ g ∈ rest, directoryId a.2 = some id → directoryId g.2 ≠ some id := by
        intro g hg ha hg'
        rw [List.filterMap_cons, ha] at h
        exact (List.nodup_cons.mp h).1 (List.mem_filterMap.mpr ⟨g, hg, hg'⟩)
      rcases List.mem_cons.mp he with hea | he
      · rcases List.mem_cons.mp hf with hfa | hf
        · exact hea.trans hfa.symm
        · exact absurd hid' (fresh f hf (hea ▸ hid))
      · rcases List.mem_cons.mp hf with hfa | hf
        · exact absurd hid (fresh e he (hfa ▸ hid'))
        · exact ih tail he hf

theorem WellFormed.one_place (wf : t.WellFormed) {id : FileId} {owned owned' : Bool}
    {mode mode' : Nat} (hp : t.node p = some (.directory id owned mode))
    (hq : t.node q = some (.directory id owned' mode')) : p = q :=
  congrArg Prod.fst
    (nodup_filterMap wf.distinct (node_eq_some.mp hp) (node_eq_some.mp hq) rfl rfl)

theorem WellFormed.erase (wf : t.WellFormed) (leaf : t.Leaf p) : (t.erase p).WellFormed := by
  apply WellFormed.of_parents
  · intro q name h
    rw [node_erase] at h ⊢
    split at h
    · cases h
    have there := wf.parent h
    rw [if_neg]
    · exact there
    · rintro rfl
      rw [leaf _ (prefix_child q name) (by simp [Path.child])] at h
      cases h
  · exact wf.distinct.sublist (List.filter_sublist.filterMap _)

/-- A directory goes to a free place in another directory. -/
theorem WellFormed.move {d : Path} (wf : t.WellFormed) (hst : ¬ source <+: target)
    (hts : ¬ target <+: source) (htarget : target = d.child name)
    (inside : (t.node d).any isDirectory = true) : (t.move source target).WellFormed := by
  apply WellFormed.of_parents
  · intro q other h
    rw [node_move hst hts] at h ⊢
    by_cases hq : target <+: q
    · have hdrop : (q.child other).drop target.length =
          Path.child (q.drop target.length) other :=
        List.drop_append_of_le_length hq.length_le
      rw [if_pos (hq.trans (prefix_child q other)), hdrop, Path.child, ← List.append_assoc] at h
      rw [if_pos hq]
      exact wf.parent h
    · rw [if_neg hq]
      by_cases hchild : target <+: q.child other
      · -- the place itself, in the directory that it is in
        have hsame : target = q.child other := by
          obtain ⟨rest, hrest⟩ := hchild
          by_cases hnil : rest = []
          · rw [hnil, List.append_nil] at hrest
            exact hrest
          · have hparent := congrArg List.dropLast hrest
            rw [List.dropLast_append_of_ne_nil hnil] at hparent
            rw [show (q.child other).dropLast = q from parent_child q other] at hparent
            exact absurd ⟨_, hparent⟩ hq
        have hd : q = d := by
          have hparents := congrArg Path.parent (hsame.symm.trans htarget)
          rwa [parent_child, parent_child] at hparents
        rw [if_neg, hd]
        · exact inside
        · rw [hd]
          intro hsource
          rw [htarget] at hst
          exact hst (hsource.trans (prefix_child d name))
      · rw [if_neg hchild] at h
        split at h
        · cases h
        · next hout =>
            rw [if_neg fun hsource => hout (hsource.trans (prefix_child q other))]
            exact wf.parent h
  · have kept : (t.move source target).entries.filterMap (fun e => directoryId e.2) =
        (t.entries.filter fun e => ¬ target <+: e.1).filterMap fun e => directoryId e.2 := by
      unfold FileTree.move
      rw [List.filterMap_map]
      rfl
    rw [kept]
    exact wf.distinct.sublist (List.filter_sublist.filterMap _)

end WellFormed

end FileTree

/-! ## The order of listings -/

/-- The orders in which the system lists directories, and in which the removal of a
directory comes to its entries. -/
structure Listing where
  names : FileTree → Path → List String
  names_perm : ∀ t p, (names t p).Perm (t.children p)
  walk : FileTree → Path → List Path
  walk_perm : ∀ t p, (walk t p).Perm (t.below p)
  /-- nothing comes before what stands below it -/
  walk_last : ∀ t p, (walk t p).Pairwise fun a b => ¬(a <+: b ∧ a ≠ b)

namespace Listing

variable {listing : Listing} {t : FileTree} {p q : Path} {name : String}

theorem mem_names : name ∈ listing.names t p ↔ (t.node (p.child name)).isSome = true := by
  rw [(listing.names_perm t p).mem_iff, FileTree.mem_children]

theorem names_nodup (listing : Listing) (t : FileTree) (p : Path) : (listing.names t p).Nodup :=
  (listing.names_perm t p).nodup_iff.mpr (t.children_nodup p)

theorem mem_walk : q ∈ listing.walk t p ↔ p <+: q ∧ (t.node q).isSome = true := by
  rw [(listing.walk_perm t p).mem_iff, FileTree.mem_below]

theorem walk_nodup (listing : Listing) (t : FileTree) (p : Path) : (listing.walk t p).Nodup :=
  (listing.walk_perm t p).nodup_iff.mpr (t.below_nodup p)

/-- The order of the entries, and the deepest ones first. -/
def deepestFirst : Listing where
  names := FileTree.children
  names_perm _ _ := List.Perm.refl _
  walk t p := (t.below p).insertionSort fun a b => b.length ≤ a.length
  walk_perm _ _ := List.perm_insertionSort _ _
  walk_last t p := by
    have trans : IsTrans Path fun a b => b.length ≤ a.length := ⟨fun _ _ _ h h' => h'.trans h⟩
    have total : Std.Total fun a b : Path => b.length ≤ a.length := ⟨fun a b => Nat.le_total _ _⟩
    have sorted := List.pairwise_insertionSort (fun a b : Path => b.length ≤ a.length) (t.below p)
    apply sorted.imp
    rintro a b hle ⟨hunder, hne⟩
    exact hne (hunder.eq_of_length (Nat.le_antisymm hunder.length_le hle))

end Listing

/-! ## Removing a whole directory -/

section RemoveAll

variable {ε : Type} {I : FileTree → Prop} {E : ε → FileTree → Prop}

open FileTree Program

/-- `shutil.rmtree` -/
def removeAll (listing : Listing) (raised : OsError → ε) (p : Path) : Program FileTree ε Unit :=
  Program.look (fun t => .ok (listing.walk t p)) >>=
    each fun q => Program.act fun t => (t.remove q).mapError raised

/-- Every entry is removed, each when nothing stands below it any more. -/
theorem meets_removeAll (listing : Listing) (raised : OsError → ε) {p : Path} {t : FileTree}
    (h : I t)
    (keep : ∀ u q, I u → p <+: q → (u.node q).isSome = true → u.Leaf q → I (u.erase q)) :
    Meets I (removeAll listing raised p)
      (fun _ u => I u ∧ (∀ q, p <+: q → u.node q = none) ∧
        (∀ q, ¬ p <+: q → u.node q = t.node q) ∧ Smaller t u) E t := by
  unfold removeAll
  refine Meets.bind (R := fun paths u => u = t ∧ paths = listing.walk t p) (Meets.look ?_ ?_) ?_
  · rintro paths ⟨⟩
    exact ⟨rfl, rfl⟩
  · rintro e ⟨⟩
  rintro paths u ⟨rfl, rfl⟩
  have loop := Meets.each (I := I) (E := E) (s := u)
    (f := fun q => Program.act fun t => (t.remove q).mapError raised)
    (J := fun rest v => I v ∧ (∀ q, p <+: q → ((v.node q).isSome = true ↔ q ∈ rest)) ∧
      (∀ q, ¬ p <+: q → v.node q = u.node q) ∧ Smaller u v ∧ rest.Nodup ∧
      (∀ q ∈ rest, p <+: q) ∧ rest.Pairwise fun a b => ¬(a <+: b ∧ a ≠ b))
    ?_ (listing.walk u p) ?_
  · refine loop.weaken (fun _ h => h) ?_
    rintro _ v ⟨hI, left, outside, smaller, _⟩
    refine ⟨hI, ?_, outside, smaller⟩
    intro q hq
    have absent := (left q hq).not.mpr List.not_mem_nil
    exact Option.not_isSome_iff_eq_none.mp absent
  · rintro q rest v ⟨hI, left, outside, smaller, nodup, inside, last⟩
    have hq := inside q List.mem_cons_self
    have there := (left q hq).mpr List.mem_cons_self
    have leaf : v.Leaf q := by
      intro r hunder hne
      cases hr : v.node r with
      | none => rfl
      | some n =>
          have hmem := (left r (hq.trans hunder)).mp (by rw [hr]; rfl)
          rcases List.mem_cons.mp hmem with rfl | hmem
          · exact absurd rfl hne
          · exact absurd ⟨hunder, Ne.symm hne⟩ ((List.pairwise_cons.mp last).1 r hmem)
    have hI' := keep v q hI hq there leaf
    refine Meets.act (t := v.erase q) (by rw [remove_leaf there leaf]; rfl) hI' ?_
    refine ⟨hI', ?_, ?_, smaller.trans (.erase v q), (List.nodup_cons.mp nodup).2,
      fun r hr => inside r (List.mem_cons_of_mem q hr), (List.pairwise_cons.mp last).2⟩
    · intro r hr
      rw [node_erase]
      split
      · next same =>
          subst same
          simp [(List.nodup_cons.mp nodup).1]
      · next other =>
          rw [left r hr, List.mem_cons]
          simp [other]
    · intro r hr
      rw [node_erase, if_neg, outside r hr]
      rintro rfl
      exact hr hq
  · refine ⟨h, ?_, fun _ _ => rfl, .refl u, listing.walk_nodup u p, ?_, listing.walk_last u p⟩
    · intro q hq
      rw [Listing.mem_walk]
      simp [hq]
    · intro q hq
      exact (Listing.mem_walk.mp hq).1

end RemoveAll

end AgentsServer.Library
