import Mathlib.Data.List.Nodup
import Mathlib.Data.List.Infix
import AgentsServer.Library.Bytes

/-!
# A file tree

A tree of files, directories and symbolic links, each entry under its absolute
path. Files are inodes, which several names may share, so a file has a link
count. The operations are those of the operating system: a rename takes a
directory with everything below it, and replaces a file or a link under its
new name.

Paths are looked up name by name as they are spelled. A link is read, never
followed, unless a caller looks its target up itself.
-/

namespace AgentsServer.Library

/-- An absolute path: the names from the root directory down. -/
abbrev Path := List String

namespace Path

def parent (p : Path) : Path :=
  p.dropLast

def name (p : Path) : String :=
  p.getLastD ""

def child (p : Path) (name : String) : Path :=
  p ++ [name]

/-- `str(path)`. -/
def text (p : Path) : String :=
  String.ofList ('/' :: ['/'].intercalate (p.map String.toList))

/-- One component of `os.path.normpath`. -/
def step (p : Path) (part : List Char) : Path :=
  if part = [] ∨ part = ['.'] then p
  else if part = ['.', '.'] then p.dropLast
  else p ++ [String.ofList part]

/-- The path that a text names when it is read from a directory. -/
def resolve (start : Path) (text : List Char) : Path :=
  (text.splitOn '/').foldl step (if text.head? = some '/' then [] else start)

end Path

/-- The device and inode numbers of a file or directory. Both count from one. -/
structure FileId where
  device : Nat
  inode : Nat
  device_pos : 0 < device
  inode_pos : 0 < inode
  deriving DecidableEq

theorem FileId.three_pos : 0 < 3 := Nat.succ_pos 2

theorem FileId.four_pos : 0 < 4 := Nat.succ_pos 3

theorem FileId.five_pos : 0 < 5 := Nat.succ_pos 4

theorem FileId.seven_pos : 0 < 7 := Nat.succ_pos 6

/-- A regular file: who owns it, its permission bits and its bytes. -/
structure Inode where
  owned : Bool
  mode : Nat
  bytes : Bytes
  deriving DecidableEq

inductive Node where
  | file (id : FileId)
  | directory (id : FileId) (owned : Bool) (mode : Nat)
  | symlink (target : String)
  | special
  deriving DecidableEq

inductive OsError where
  | fileNotFound
  | fileExists
  | isADirectory
  | notADirectory
  | notEmpty
  | invalidArgument
  | tooManyLinks
  | notPermitted
  deriving DecidableEq

/-- No path stands twice in a tree. -/
structure FileTree where
  entries : List (Path × Node)
  inodes : FileId → Inode
  unique : (entries.map Prod.fst).Nodup

namespace FileTree

def node (t : FileTree) (p : Path) : Option Node :=
  t.entries.lookup p

/-- `st_nlink`. -/
def nlink (t : FileTree) (id : FileId) : Nat :=
  (t.entries.map Prod.snd).count (.file id)

def erase (t : FileTree) (p : Path) : FileTree where
  entries := t.entries.filter fun e => e.1 ≠ p
  inodes := t.inodes
  unique := t.unique.sublist (List.filter_sublist.map _)

def put (t : FileTree) (p : Path) (n : Node) : FileTree where
  entries := (p, n) :: (t.erase p).entries
  inodes := t.inodes
  unique := by
    rw [List.map_cons, List.nodup_cons]
    constructor
    · intro hp
      obtain ⟨e, he, hep⟩ := List.mem_map.mp hp
      simp [erase, hep] at he
    · exact (t.erase p).unique

def setInode (t : FileTree) (id : FileId) (i : Inode) : FileTree where
  entries := t.entries
  inodes := fun other => if other = id then i else t.inodes other
  unique := t.unique

/-- Where an entry stands after everything below `source` has gone to `target`. -/
def moved (source target p : Path) : Path :=
  if source <+: p then target ++ p.drop source.length else p

theorem moved_inj {source target p q : Path} (hp : ¬ target <+: p) (hq : ¬ target <+: q)
    (h : moved source target p = moved source target q) : p = q := by
  unfold moved at h
  split at h
  · next hsp =>
      split at h
      · next hsq =>
          have hdrop := List.append_cancel_left h
          obtain ⟨a, rfl⟩ := hsp
          obtain ⟨b, rfl⟩ := hsq
          simpa using hdrop
      · exact absurd ⟨_, h⟩ hq
  · split at h
    · exact absurd ⟨_, h.symm⟩ hp
    · exact h

/-- Everything below `source` goes to `target`, in place of what was there. -/
def move (t : FileTree) (source target : Path) : FileTree where
  entries := (t.entries.filter fun e => ¬ target <+: e.1).map
    fun e => (moved source target e.1, e.2)
  inodes := t.inodes
  unique := by
    have hkeys : ((t.entries.filter fun e => ¬ target <+: e.1).map
        fun e => (moved source target e.1, e.2)).map Prod.fst =
        ((t.entries.filter fun e => ¬ target <+: e.1).map Prod.fst).map (moved source target) := by
      rw [List.map_map, List.map_map]
      rfl
    rw [hkeys]
    apply List.Nodup.map_on
    · intro p hp q hq h
      obtain ⟨e, he, rfl⟩ := List.mem_map.mp hp
      obtain ⟨f, hf, rfl⟩ := List.mem_map.mp hq
      exact moved_inj (by simpa using (List.mem_filter.mp he).2)
        (by simpa using (List.mem_filter.mp hf).2) h
    · exact t.unique.sublist (List.filter_sublist.map _)

/-! ## Looking up -/

section Lookup

variable {t : FileTree} {p q source target : Path} {n : Node} {id : FileId} {i : Inode}

theorem lookup_eq_some {entries : List (Path × Node)} (unique : (entries.map Prod.fst).Nodup) :
    entries.lookup p = some n ↔ (p, n) ∈ entries := by
  induction entries with
  | nil => simp
  | cons e rest ih =>
      simp only [List.map_cons, List.nodup_cons] at unique
      rw [List.lookup_cons, List.mem_cons]
      by_cases h : p = e.1
      · subst h
        have hout : (e.1, n) ∉ rest := fun hm => unique.1 (List.mem_map.mpr ⟨_, hm, rfl⟩)
        simp [hout, Prod.ext_iff, eq_comm]
      · have hne : (p == e.1) = false := beq_eq_false_iff_ne.mpr h
        rw [hne, ih unique.2]
        simp [Prod.ext_iff, h]

theorem node_eq_some : t.node p = some n ↔ (p, n) ∈ t.entries :=
  lookup_eq_some t.unique

theorem node_erase : (t.erase p).node q = if q = p then none else t.node q := by
  apply Option.ext
  intro n
  rw [node_eq_some]
  split
  · next h => simp [erase, h]
  · next h => simp [erase, h, node_eq_some]

theorem node_put : (t.put p n).node q = if q = p then some n else t.node q := by
  split
  · next h =>
      subst h
      rw [node_eq_some]
      exact List.mem_cons_self
  · next h =>
      have he := node_erase (t := t) (p := p) (q := q)
      rw [if_neg h] at he
      rw [← he]
      unfold node put
      rw [List.lookup_cons, beq_eq_false_iff_ne.mpr h]

@[simp] theorem node_setInode : (t.setInode id i).node q = t.node q := rfl

@[simp] theorem inodes_put : (t.put p n).inodes = t.inodes := rfl

@[simp] theorem inodes_erase : (t.erase p).inodes = t.inodes := rfl

@[simp] theorem inodes_move : (t.move source target).inodes = t.inodes := rfl

theorem node_move (hst : ¬ source <+: target) (hts : ¬ target <+: source) :
    (t.move source target).node q =
      if target <+: q then t.node (source ++ q.drop target.length)
      else if source <+: q then none
      else t.node q := by
  apply Option.ext
  intro n
  rw [node_eq_some]
  have hmem : (q, n) ∈ (t.move source target).entries ↔
      ∃ p, (p, n) ∈ t.entries ∧ ¬ target <+: p ∧ moved source target p = q := by
    simp [move, and_assoc]
  rw [hmem]
  split
  · next h =>
      obtain ⟨rel, rfl⟩ := h
      rw [List.drop_left, node_eq_some]
      constructor
      · rintro ⟨p, hp, hout, he⟩
        unfold moved at he
        split at he
        · next hs =>
            obtain ⟨a, rfl⟩ := hs
            rw [List.drop_left] at he
            rw [← List.append_cancel_left he]
            exact hp
        · exact absurd ⟨rel, he.symm⟩ hout
      · intro hp
        refine ⟨_, hp, ?_, ?_⟩
        · intro hcontra
          rcases List.prefix_or_prefix_of_prefix hcontra (List.prefix_append source rel) with h | h
          · exact hts h
          · exact hst h
        · rw [moved, if_pos (List.prefix_append source rel), List.drop_left]
  · next h =>
      constructor
      · rintro ⟨p, hp, hout, he⟩
        unfold moved at he
        split at he
        · exact absurd ⟨_, he⟩ h
        · next hs =>
            subst he
            rw [if_neg hs, node_eq_some]
            exact hp
      · intro hq
        split at hq
        · cases hq
        · next hs =>
            rw [node_eq_some] at hq
            exact ⟨q, hq, h, by rw [moved, if_neg hs]⟩

end Lookup

/-! ## Link counts -/

section Links

variable {t : FileTree} {p q source target : Path} {n : Node} {id : FileId} {i : Inode}

theorem count_filter {entries : List (Path × Node)} (unique : (entries.map Prod.fst).Nodup) :
    ((entries.filter fun e => e.1 ≠ p).map Prod.snd).count n +
      (if entries.lookup p = some n then 1 else 0) = (entries.map Prod.snd).count n := by
  induction entries with
  | nil => simp
  | cons e rest ih =>
      have hstep := ih (List.nodup_cons.mp unique).2
      rw [List.map_cons, List.count_cons, List.lookup_cons]
      by_cases h : p = e.1
      · subst h
        have hout : rest.lookup e.1 = none := by
          rw [List.lookup_eq_none_iff]
          intro f hf
          rw [bne_iff_ne]
          intro he
          apply (List.nodup_cons.mp unique).1
          rw [he]
          exact List.mem_map_of_mem hf
        rw [hout] at hstep
        rw [if_neg (by simp), Nat.add_zero] at hstep
        rw [List.filter_cons_of_neg (by simp), hstep]
        simp
      · have hne : (p == e.1) = false := beq_eq_false_iff_ne.mpr h
        rw [hne, List.filter_cons_of_pos (by simpa using Ne.symm h), List.map_cons,
          List.count_cons]
        simp only at hstep ⊢
        omega

theorem nlink_erase :
    (t.erase p).nlink id + (if t.node p = some (.file id) then 1 else 0) = t.nlink id :=
  count_filter t.unique

theorem nlink_put :
    (t.put p n).nlink id + (if t.node p = some (.file id) then 1 else 0) =
      t.nlink id + (if n = .file id then 1 else 0) := by
  have he : (t.erase p).nlink id + (if t.node p = some (.file id) then 1 else 0) = t.nlink id :=
    nlink_erase
  have hc : (t.put p n).nlink id = (t.erase p).nlink id + (if n = .file id then 1 else 0) := by
    unfold nlink put
    rw [List.map_cons, List.count_cons]
    simp
  omega

@[simp] theorem nlink_setInode {other : FileId} :
    (t.setInode other i).nlink id = t.nlink id := rfl

/-- A move onto a place with nothing below it keeps every link. -/
theorem nlink_move (h : ∀ rel, t.node (target ++ rel) = none) :
    (t.move source target).nlink id = t.nlink id := by
  have hall : (t.entries.filter fun e => ¬ target <+: e.1) = t.entries := by
    rw [List.filter_eq_self]
    intro e he
    have hout : ¬ target <+: e.1 := by
      rintro ⟨rel, hrel⟩
      have hn := h rel
      rw [hrel, node_eq_some.mpr he] at hn
      cases hn
    simpa using hout
  have hentries : (t.move source target).entries =
      t.entries.map fun e => (moved source target e.1, e.2) :=
    congrArg (List.map fun e : Path × Node => (moved source target e.1, e.2)) hall
  rw [nlink, hentries, List.map_map]
  rfl

theorem nlink_pos (h : t.node p = some (.file id)) : 0 < t.nlink id := by
  have he : (t.erase p).nlink id + (if t.node p = some (.file id) then 1 else 0) = t.nlink id :=
    nlink_erase
  rw [if_pos h] at he
  omega

/-- A file with one link has one name. -/
theorem eq_of_nlink_one (h : t.nlink id = 1) (hp : t.node p = some (.file id))
    (hq : t.node q = some (.file id)) : q = p := by
  have he : (t.erase p).nlink id + (if t.node p = some (.file id) then 1 else 0) = t.nlink id :=
    nlink_erase
  rw [if_pos hp, h] at he
  by_contra hne
  have hpos : 0 < (t.erase p).nlink id := by
    apply nlink_pos (p := q)
    rw [node_erase, if_neg hne]
    exact hq
  omega

end Links

/-! ## Operating system calls -/

def hasChildren (t : FileTree) (p : Path) : Bool :=
  t.entries.any fun e => decide (p <+: e.1 ∧ e.1 ≠ p)

def rename (t : FileTree) (source target : Path) : Except OsError FileTree :=
  match t.node source with
  | none => .error .fileNotFound
  | some (.directory ..) =>
      if source = target then .ok t
      else if source <+: target then .error .invalidArgument
      else if t.hasChildren target then .error .notEmpty
      else
        match t.node target with
        | none | some (.directory ..) => .ok (t.move source target)
        | some _ => .error .notADirectory
  | some n =>
      match t.node target with
      | some (.directory ..) => .error .isADirectory
      | some (.file id) =>
          -- two names of one file: nothing happens
          if n = .file id then .ok t else .ok ((t.erase source).put target n)
      | _ => if source = target then .ok t else .ok ((t.erase source).put target n)

def unlink (t : FileTree) (p : Path) : Except OsError FileTree :=
  match t.node p with
  | none => .error .fileNotFound
  | some (.directory ..) => .error .isADirectory
  | some _ => .ok (t.erase p)

/-- A second name for a file, `follow_symlinks=False`. -/
def link (t : FileTree) (source target : Path) : Except OsError FileTree :=
  match t.node source, t.node target with
  | none, _ => .error .fileNotFound
  | some _, some _ => .error .fileExists
  | some (.directory ..), none => .error .notPermitted
  | some n, none => .ok (t.put target n)

/-- The inode number of an entry. -/
def inodeOf : Node → Nat
  | .file id | .directory id .. => id.inode
  | _ => 0

/-- An identity that no entry has. -/
def fresh (t : FileTree) : FileId where
  device := 1
  inode := 1 + (t.entries.map fun e => inodeOf e.2).foldr max 0
  device_pos := by decide
  inode_pos := by omega

theorem nlink_fresh (t : FileTree) : t.nlink t.fresh = 0 := by
  have hle : ∀ (entries : List (Path × Node)), ∀ e ∈ entries,
      inodeOf e.2 ≤ (entries.map fun e => inodeOf e.2).foldr max 0 := by
    intro entries
    induction entries with
    | nil => simp
    | cons f rest ih =>
        intro e he
        rw [List.map_cons, List.foldr_cons]
        rcases List.mem_cons.mp he with rfl | he
        · exact le_max_left _ _
        · exact (ih e he).trans (le_max_right _ _)
  unfold nlink
  rw [List.count_eq_zero]
  intro hm
  obtain ⟨e, he, hnode⟩ := List.mem_map.mp hm
  have hbound := hle t.entries e he
  rw [hnode] at hbound
  simp only [inodeOf, fresh] at hbound
  omega

/-- `fchmod` of an open file. -/
def chmod (t : FileTree) (id : FileId) (mode : Nat) : FileTree :=
  t.setInode id { t.inodes id with mode }

end FileTree

end AgentsServer.Library
