import AgentsServer.Library.JsonSize
import AgentsServer.TeamHub.AdminPages
import Mathlib.Data.Bool.AllAny

/-!
# Cursors and the ledger of the administration lists

A cursor is read back under the scope that minted it, and refused under every other one. The rows
of a list keep their places and their numbers, and new rows get higher numbers.
-/

namespace AgentsServer.TeamHub

open Library Json

/-! ## The cursor codec -/

section Codec

variable {scope scope' : CursorScope} {b : Boundary}

/-- A boundary that a page can mint. -/
structure Boundary.Stored (b : Boundary) : Prop where
  highwater : b.highwater ≤ maxRowId
  timestamp : b.timestamp ≤ maxRowId
  plain : identity b.resourceId = some b.resourceId

theorem sortKeys_boundary (b : Boundary) :
    b.json.sortKeys = .obj [("h", .num (.ofNat b.highwater)), ("i", .str b.resourceId),
      ("t", .num (.ofNat b.timestamp)), ("v", .num (.ofNat 1))] := by
  simp [Boundary.json, Json.sortKeys, Json.sortFields, List.mergeSort,
    List.MergeSort.Internal.splitInTwo]

theorem sortKeys_scope (scope : CursorScope) :
    scope.json.sortKeys = .obj [("f", .str scope.visibility), ("k", .str scope.resourceKind.text),
      ("s", .str scope.scopeId), ("u", .str scope.viewerId)] := by
  simp [CursorScope.json, Json.sortKeys, Json.sortFields, List.mergeSort,
    List.MergeSort.Internal.splitInTwo]

theorem CursorScope.bytes_eq (scope : CursorScope) :
    scope.bytes = utf8 "agentsdock-team-hub-human-admin-cursor-v1\x00".toList ++
      utf8 (render escape (.obj [("f", .str scope.visibility),
        ("k", .str scope.resourceKind.text), ("s", .str scope.scopeId),
        ("u", .str scope.viewerId)])) := by
  rw [CursorScope.bytes, Json.canonical, sortKeys_scope]

/-- Lists of different kinds, viewers, scopes or visibilities bind their cursors differently. -/
theorem CursorScope.bytes_inj (h : scope.bytes = scope'.bytes) : scope = scope' := by
  have htext := utf8_inj (List.append_cancel_left h)
  unfold Json.canonical at htext
  rw [sortKeys_scope, sortKeys_scope] at htext
  have hend : Json.Delimited [] := by rintro _ _ ⟨⟩
  have hsame := (Json.render_inj _ _ hend hend (congrArg (· ++ []) htext)).1
  simp only [Json.obj.injEq, List.cons.injEq, Prod.mk.injEq, Json.str.injEq, true_and,
    and_true] at hsame
  obtain ⟨hvisibility, hkind, hscope, hviewer⟩ := hsame
  have htexts : ∀ k k' : ResourceKind, k.text = k'.text → k = k' := by
    intro k k'
    cases k <;> cases k' <;> decide
  cases scope
  cases scope'
  simp only [CursorScope.mk.injEq]
  exact ⟨htexts _ _ hkind, hscope, hviewer, hvisibility⟩

theorem length_toDigits {n : Nat} (h : n ≤ maxRowId) : (Nat.toDigits 10 n).length ≤ 19 := by
  rw [Nat.length_toDigits_le_iff (by omega) (by omega)]
  unfold maxRowId at h
  omega

section Reads

variable [FloatText]

theorem proper_boundary (hb : b.Stored) : Json.Proper b.json.sortKeys := by
  have number : ∀ n ≤ maxRowId, Json.Proper (.num (.ofNat n)) := by
    intro n hn
    exact .num (loadNumber_ofNat ((length_toDigits hn).trans (by omega)))
  rw [sortKeys_boundary]
  refine .obj (by simp) ?_
  simp only [List.forall_mem_cons]
  exact ⟨number _ hb.highwater, .str _, number _ hb.timestamp, number 1 (by decide),
    List.forall_mem_nil _⟩

omit [FloatText] in
theorem storedInteger_ofNat {n : Nat} (h : n ≤ maxRowId) :
    storedInteger (.num (.ofNat n)) = some n := by
  unfold storedInteger
  rw [int?_ofNat]
  change (if 0 ≤ (n : Int) ∧ (n : Int) ≤ maxRowId then some (n : Int).toNat else none) = some n
  rw [if_pos ⟨Int.natCast_nonneg n, Int.ofNat_le.mpr h⟩, Int.toNat_natCast]

/-- What is sealed into a cursor is read back. -/
theorem boundaryOf_canonical (hb : b.Stored) : boundaryOf (utf8 b.json.canonical) = .ok b := by
  have hload : Json.loadsBytes (utf8 b.json.canonical) = some b.json.sortKeys :=
    Json.loadsBytes_dumps (proper_boundary hb)
  have hone : equalsOne (.num (.ofNat 1)) = true := by decide +kernel
  unfold boundaryOf
  rw [hload, sortKeys_boundary]
  simp only [required, ok_bind, Json.obj?]
  rw [require_bind (by simp [hasKeys])]
  have hh : get [("h", .num (.ofNat b.highwater)), ("i", .str b.resourceId),
      ("t", .num (.ofNat b.timestamp)), ("v", .num (.ofNat 1))] "h" =
      Json.num (.ofNat b.highwater) := rfl
  have hi : get [("h", .num (.ofNat b.highwater)), ("i", .str b.resourceId),
      ("t", .num (.ofNat b.timestamp)), ("v", .num (.ofNat 1))] "i" = Json.str b.resourceId := rfl
  have ht : get [("h", .num (.ofNat b.highwater)), ("i", .str b.resourceId),
      ("t", .num (.ofNat b.timestamp)), ("v", .num (.ofNat 1))] "t" =
      Json.num (.ofNat b.timestamp) := rfl
  have hv : get [("h", .num (.ofNat b.highwater)), ("i", .str b.resourceId),
      ("t", .num (.ofNat b.timestamp)), ("v", .num (.ofNat 1))] "v" = Json.num (.ofNat 1) := rfl
  rw [hh, hi, ht, hv, require_bind hone, storedInteger_ofNat hb.highwater,
    storedInteger_ofNat hb.timestamp]
  simp only [ok_bind, Json.str?, hb.plain]
  rfl

end Reads

/-- An id is at most 240 characters that JSON holds as they are. -/
theorem identity_simple {value text : String} (h : identity value = some text) :
    text.length ≤ 240 ∧ ∀ c ∈ text.toList, Json.Simple c := by
  unfold identity at h
  dsimp only at h
  split at h
  · cases h
  · next c rest hstrip =>
      split at h
      · next hplain =>
          have htext := Option.some.inj h
          rw [hstrip] at htext
          subst htext
          simp only [Bool.and_eq_true, decide_eq_true_eq, List.all_eq_true,
            Bool.or_eq_true] at hplain
          obtain ⟨⟨⟨hfirst, -⟩, hlong⟩, hrest⟩ := hplain
          rw [String.length_ofList, String.toList_ofList, List.forall_mem_cons, List.length_cons]
          refine ⟨by omega, simple_of_isAlphanum hfirst.1, ?_⟩
          intro d hd
          rcases hrest d hd with hplain | hmark
          · exact simple_of_isAlphanum hplain.1
          · have marks : ∀ d ∈ "._:-@/".toList, Json.Simple d :=
              List.all_iff_forall_prop.mp (by decide)
            exact marks d (List.contains_iff_mem.mp hmark)
      · cases h

/-- The sealed text of a boundary is short. -/
theorem length_boundary (hb : b.Stored) : (utf8 b.json.canonical).length ≤ 346 := by
  obtain ⟨hshort, hsimple⟩ := identity_simple hb.plain
  have number : ∀ n ≤ maxRowId, size escape (.num (.ofNat n)) ≤ 19 := by
    intro n hn
    rw [size_ofNat]
    exact length_toDigits hn
  have hid : size escape (.str b.resourceId) = b.resourceId.length + 2 := size_simple hsimple
  have hh := number b.highwater hb.highwater
  have ht := number b.timestamp hb.timestamp
  have hv := number 1 (by decide)
  have key : ∀ k ∈ ["h", "i", "t", "v"], utf8Size (quote escape k) = 3 := by decide
  rw [Json.length_utf8, utf8Size_canonical, ← size_sortKeys, sortKeys_boundary, size_obj,
    if_neg (List.cons_ne_nil _ _)]
  simp only [List.map_cons, List.map_nil, List.sum_cons, List.sum_nil, fieldSize]
  rw [key "h" (by simp), key "i" (by simp), key "t" (by simp), key "v" (by simp), hid]
  omega

section Sealed

variable [CursorSeal]

/-- The text of a cursor with a sealed text. -/
def sealedCursor (scope : CursorScope) (plaintext : Bytes) (nonce : Nonce) : String :=
  String.ofList (['v', '1', '.'] ++ Base64.encode
    (nonce.bytes ++ CursorSeal.encrypt nonce.bytes plaintext scope.bytes))

theorem length_sealedCursor (scope : CursorScope) (plaintext : Bytes) (nonce : Nonce) :
    (sealedCursor scope plaintext nonce).length = 3 + (4 * (28 + plaintext.length) + 2) / 3 := by
  have hbytes : (nonce.bytes ++ CursorSeal.encrypt nonce.bytes plaintext scope.bytes).length =
      28 + plaintext.length := by
    rw [List.length_append, nonce.length, CursorSeal.length_encrypt]
    omega
  rw [sealedCursor, String.length_ofList, List.length_append, Base64.length_encode, hbytes]
  rfl

/-- A short sealed text is what a cursor is decrypted from. -/
theorem humanAdminPageCursor_sealed [FloatText] {plaintext : Bytes} (h : plaintext.length ≤ 346)
    (nonce : Nonce) :
    humanAdminPageCursor scope' (some (sealedCursor scope plaintext nonce)) =
      (required (CursorSeal.decrypt nonce.bytes
        (CursorSeal.encrypt nonce.bytes plaintext scope.bytes) scope'.bytes) invalidCursor >>=
          fun plaintext => boundaryOf plaintext >>= fun b => pure (some b)) := by
  have hlength := length_sealedCursor scope plaintext nonce
  have hdrop : (sealedCursor scope plaintext nonce).toList.drop 3 = Base64.encode
      (nonce.bytes ++ CursorSeal.encrypt nonce.bytes plaintext scope.bytes) := by
    rw [sealedCursor, String.toList_ofList]
    rfl
  have hcursor : isCursor (sealedCursor scope plaintext nonce).toList = true := by
    have htake : (sealedCursor scope plaintext nonce).toList.take 3 = ['v', '1', '.'] := by
      rw [sealedCursor, String.toList_ofList]
      rfl
    have hletters : ∀ c ∈ Base64.encode
        (nonce.bytes ++ CursorSeal.encrypt nonce.bytes plaintext scope.bytes),
        (Base64.value? c).isSome = true := Base64.forall_encode (by decide) _
    unfold isCursor
    rw [htake, hdrop, String.length_toList]
    simp only [Bool.and_eq_true, decide_eq_true_eq, beq_self_eq_true, List.all_eq_true]
    refine ⟨⟨⟨⟨by omega, trivial⟩, by omega⟩, by omega⟩, hletters⟩
  have hcipher : 12 + 16 ≤
      (nonce.bytes ++ CursorSeal.encrypt nonce.bytes plaintext scope.bytes).length := by
    rw [List.length_append, nonce.length, CursorSeal.length_encrypt]
    omega
  unfold humanAdminPageCursor
  dsimp only
  rw [require_bind hcursor, hdrop, Base64.decode_encode]
  simp only [required, ok_bind]
  rw [require_bind hcipher, List.take_left' nonce.length, List.drop_left' nonce.length]

theorem encode_stored (scope : CursorScope) (hb : b.Stored) (nonce : Nonce) :
    encodeHumanAdminPageCursor scope b nonce =
      .ok (sealedCursor scope (utf8 b.json.canonical) nonce) := by
  have hshort := length_boundary hb
  have hlength := length_sealedCursor scope (utf8 b.json.canonical) nonce
  unfold encodeHumanAdminPageCursor
  rw [hb.plain]
  simp only [required, ok_bind]
  change (require ((sealedCursor scope (utf8 b.json.canonical) nonce).length ≤ 512) _ >>= _) = _
  rw [require_bind (by omega)]
  rfl

/-- The list that minted a cursor reads its boundary back. -/
theorem humanAdminPageCursor_encode [FloatText] (hb : b.Stored) {nonce : Nonce} {cursor : String}
    (h : encodeHumanAdminPageCursor scope b nonce = .ok cursor) :
    humanAdminPageCursor scope (some cursor) = .ok (some b) := by
  rw [encode_stored scope hb] at h
  cases h
  rw [humanAdminPageCursor_sealed (length_boundary hb), CursorSeal.decrypt_encrypt]
  simp only [required, ok_bind, boundaryOf_canonical hb]
  rfl

/-- Any other list refuses it, where decryption raises for other associated data. -/
theorem humanAdminPageCursor_other [FloatText] (scope' : CursorScope) (hb : b.Stored) {nonce : Nonce} {cursor : String}
    (h : encodeHumanAdminPageCursor scope b nonce = .ok cursor) (hother : scope ≠ scope')
    (hraises : scope.bytes ≠ scope'.bytes → ∀ plaintext, CursorSeal.decrypt nonce.bytes
      (CursorSeal.encrypt nonce.bytes plaintext scope.bytes) scope'.bytes = none) :
    humanAdminPageCursor scope' (some cursor) = .error invalidCursor := by
  rw [encode_stored scope hb] at h
  cases h
  have hbytes : scope.bytes ≠ scope'.bytes := fun heq => hother (CursorScope.bytes_inj heq)
  rw [humanAdminPageCursor_sealed (length_boundary hb), hraises hbytes]
  rfl

end Sealed

end Codec

/-! ## The ledger -/

theorem PlainId.eq_of_text {a b : PlainId} (h : a.text = b.text) : a = b := by
  cases a
  cases b
  cases h
  rfl

/-- The columns of a row that never change: who owns it, its id, and its place in the list. -/
structure RowKey where
  owner : String
  id : PlainId
  createdAt : Nat
  name : PlainId

namespace AdminDb

variable {db db' : AdminDb} {kind : ResourceKind}

def keys (db : AdminDb) : ResourceKind → List RowKey
  | .deviceSession => db.deviceSessions.map fun s =>
      ⟨s.humanPrincipalId.text, s.id, s.createdAt, s.id⟩
  | .membership => db.memberships.map fun m => ⟨m.teamId, m.id, m.createdAt, m.principalId⟩
  | .invitation => db.invitations.map fun i => ⟨i.teamId, i.id, i.createdAt, i.id⟩

/-- What a statement does to the ledger: nothing, or it adds one row under a new number. -/
inductive Grows (db db' : AdminDb) : Prop where
  | same (entries : db'.entries = db.entries) (keys : ∀ kind, db'.keys kind = db.keys kind)
  | insert (kind : ResourceKind) (key : RowKey) (room : db.newest < maxRowId)
      (dated : key.createdAt ≤ maxRowId)
      (unnumbered : ∀ e ∈ db.entries, ¬ (e.kind = kind ∧ e.resourceId = key.id))
      (unnamed : ∀ old ∈ db.keys kind, ¬ (old.owner = key.owner ∧ old.name = key.name))
      (entries : db'.entries = db.entries ++ [⟨db.newest + 1, kind, key.id⟩])
      (keys : db'.keys kind = db.keys kind ++ [key])
      (others : ∀ other, other ≠ kind → db'.keys other = db.keys other)

theorem insertEntry_eq {resourceId : PlainId} (h : db.insertEntry kind resourceId = .ok db') :
    (∀ e ∈ db.entries, ¬ (e.kind = kind ∧ e.resourceId = resourceId)) ∧ db.newest < maxRowId ∧
      db' = { db with entries := db.entries ++ [⟨db.newest + 1, kind, resourceId⟩] } := by
  unfold insertEntry at h
  simp only [bind_eq_ok, require_eq_ok, pure_eq_ok] at h
  obtain ⟨_, hfresh, _, hroom, rfl⟩ := h
  exact ⟨hfresh, hroom, rfl⟩

theorem write_grows {w : AdminWrite} (h : db.write w = .ok db') : Grows db db' := by
  cases w with
  | insertPrincipal row =>
      simp only [write, bind_eq_ok, require_eq_ok, pure_eq_ok] at h
      obtain ⟨_, -, rfl⟩ := h
      exact .same rfl fun kind => by cases kind <;> rfl
  | updatePrincipal id displayName status =>
      simp only [write, pure_eq_ok] at h
      subst h
      exact .same rfl fun kind => by cases kind <;> rfl
  | insertHuman row =>
      simp only [write, bind_eq_ok, require_eq_ok, pure_eq_ok] at h
      obtain ⟨_, -, rfl⟩ := h
      exact .same rfl fun kind => by cases kind <;> rfl
  | insertDeviceSession row =>
      simp only [write, bind_eq_ok, require_eq_ok] at h
      obtain ⟨_, hdated, _, hid, h⟩ := h
      obtain ⟨hfresh, hroom, rfl⟩ := insertEntry_eq h
      refine .insert .deviceSession ⟨row.humanPrincipalId.text, row.id, row.createdAt, row.id⟩ hroom
        hdated hfresh ?_ rfl List.map_append ?_
      · intro old hold hsame
        obtain ⟨s, hs, rfl⟩ := List.mem_map.mp hold
        exact hid s hs hsame.2
      · intro other hother
        cases other with
        | deviceSession => exact absurd rfl hother
        | invitation => rfl
        | membership => rfl
  | updateDeviceSession id lastSeenAt revokedAt =>
      simp only [write, pure_eq_ok] at h
      subst h
      refine .same rfl fun kind => ?_
      cases kind with
      | deviceSession =>
          simp only [keys, List.map_map]
          apply List.map_congr_left
          intro s _
          simp only [Function.comp_apply]
          split <;> rfl
      | invitation => rfl
      | membership => rfl
  | insertMembership row =>
      simp only [write, bind_eq_ok, require_eq_ok] at h
      obtain ⟨_, hdated, _, hid, h⟩ := h
      obtain ⟨hfresh, hroom, rfl⟩ := insertEntry_eq h
      refine .insert .membership ⟨row.teamId, row.id, row.createdAt, row.principalId⟩ hroom hdated
        hfresh ?_ rfl List.map_append ?_
      · intro old hold hsame
        obtain ⟨m, hm, rfl⟩ := List.mem_map.mp hold
        exact (hid m hm).2 hsame
      · intro other hother
        cases other with
        | membership => exact absurd rfl hother
        | invitation => rfl
        | deviceSession => rfl
  | updateMembership teamId principalId role status =>
      simp only [write, pure_eq_ok] at h
      subst h
      refine .same rfl fun kind => ?_
      cases kind with
      | membership =>
          simp only [keys, List.map_map]
          apply List.map_congr_left
          intro m _
          simp only [Function.comp_apply]
          split <;> rfl
      | invitation => rfl
      | deviceSession => rfl
  | insertInvitation row =>
      simp only [write, bind_eq_ok, require_eq_ok] at h
      obtain ⟨_, hdated, _, hid, h⟩ := h
      obtain ⟨hfresh, hroom, rfl⟩ := insertEntry_eq h
      refine .insert .invitation ⟨row.teamId, row.id, row.createdAt, row.id⟩ hroom hdated hfresh ?_
        rfl List.map_append ?_
      · intro old hold hsame
        obtain ⟨i, hi, rfl⟩ := List.mem_map.mp hold
        exact hid i hi hsame.2
      · intro other hother
        cases other with
        | invitation => exact absurd rfl hother
        | deviceSession => rfl
        | membership => rfl
  | updateInvitation id redeemedAt revokedAt =>
      simp only [write, pure_eq_ok] at h
      subst h
      refine .same rfl fun kind => ?_
      cases kind with
      | invitation =>
          simp only [keys, List.map_map]
          apply List.map_congr_left
          intro i _
          simp only [Function.comp_apply]
          split <;> rfl
      | deviceSession => rfl
      | membership => rfl

theorem afterWrite_grows (db : AdminDb) (w : AdminWrite) : Grows db (db.afterWrite w) := by
  unfold afterWrite
  split
  · next after h => exact write_grows h
  · exact .same rfl fun _ => rfl

theorem le_newest {e : PageEntry} (h : e ∈ db.entries) : e.sequence ≤ db.newest := by
  unfold newest
  revert h
  induction db.entries with
  | nil =>
      intro h
      cases h
  | cons first rest ih =>
      intro h
      rw [List.foldr_cons]
      rcases List.mem_cons.mp h with rfl | hrest
      · exact Nat.le_max_left _ _
      · exact (ih hrest).trans (Nat.le_max_right _ _)

theorem newest_append {e : PageEntry} (h : db'.entries = db.entries ++ [e]) :
    db'.newest = max db.newest e.sequence := by
  unfold newest
  rw [h]
  induction db.entries with
  | nil => simp
  | cons first rest ih =>
      rw [List.cons_append, List.foldr_cons, List.foldr_cons, ih, Nat.max_assoc]

/-- The number of a row. -/
def numberOf (db : AdminDb) (kind : ResourceKind) (id : PlainId) : Option Nat :=
  (db.entries.find? fun e => e.kind = kind && e.resourceId = id).map PageEntry.sequence

/-- Every row is numbered, and no two rows of one owner share a name. -/
structure LedgerSound (db : AdminDb) : Prop where
  numbered : ∀ kind, ∀ k ∈ db.keys kind, (db.numberOf kind k.id).isSome = true
  named : ∀ kind, (db.keys kind).Pairwise fun a b => ¬ (a.owner = b.owner ∧ a.name = b.name)
  dated : ∀ kind, ∀ k ∈ db.keys kind, k.createdAt ≤ maxRowId
  room : db.newest ≤ maxRowId

theorem find?_append_number {id : PlainId} {e : PageEntry}
    (hentries : db'.entries = db.entries ++ [e]) (h : (db.numberOf kind id).isSome = true) :
    db'.numberOf kind id = db.numberOf kind id := by
  unfold numberOf at h ⊢
  rw [Option.isSome_map] at h
  obtain ⟨found, hfound⟩ := Option.isSome_iff_exists.mp h
  rw [hentries, List.find?_append, hfound]
  rfl

theorem numberOf_new {key : RowKey} {n : Nat}
    (hentries : db'.entries = db.entries ++ [⟨n, kind, key.id⟩])
    (hnew : ∀ e ∈ db.entries, ¬ (e.kind = kind ∧ e.resourceId = key.id)) :
    db'.numberOf kind key.id = some n := by
  have hnone : db.entries.find? (fun e => e.kind = kind && e.resourceId = key.id) = none := by
    rw [List.find?_eq_none]
    intro e he
    simpa using hnew e he
  unfold numberOf
  rw [hentries, List.find?_append, hnone, Option.none_or]
  simp

theorem LedgerSound.grows (h : db.LedgerSound) (hgrows : Grows db db') : db'.LedgerSound := by
  cases hgrows with
  | same hentries hkeys =>
      have hnumber : ∀ kind id, db'.numberOf kind id = db.numberOf kind id := by
        intro kind id
        rw [numberOf, hentries, numberOf]
      have hnewest : db'.newest = db.newest := by rw [newest, hentries, newest]
      refine ⟨?_, ?_, ?_, ?_⟩
      · intro kind k hk
        rw [hkeys] at hk
        rw [hnumber]
        exact h.numbered kind k hk
      · intro kind
        rw [hkeys]
        exact h.named kind
      · intro kind k hk
        rw [hkeys] at hk
        exact h.dated kind k hk
      · rw [hnewest]
        exact h.room
  | insert kind key hroom hdated hunnumbered hunnamed hentries hkeys hothers =>
      have hold : ∀ other, ∀ k ∈ db.keys other, (db'.numberOf other k.id).isSome = true := by
        intro other k hk
        rw [find?_append_number hentries (h.numbered other k hk)]
        exact h.numbered other k hk
      have hcases : ∀ other, ∀ k ∈ db'.keys other,
          k ∈ db.keys other ∨ other = kind ∧ k = key := by
        intro other k hk
        by_cases hother : other = kind
        · subst hother
          rw [hkeys, List.mem_append, List.mem_singleton] at hk
          rcases hk with hk | hk
          · exact .inl hk
          · exact .inr ⟨rfl, hk⟩
        · rw [hothers other hother] at hk
          exact .inl hk
      refine ⟨?_, ?_, ?_, ?_⟩
      · intro other k hk
        rcases hcases other k hk with hk | ⟨rfl, rfl⟩
        · exact hold other k hk
        · rw [numberOf_new hentries hunnumbered]
          rfl
      · intro other
        by_cases hother : other = kind
        · subst hother
          rw [hkeys, List.pairwise_append]
          refine ⟨h.named other, List.pairwise_singleton _ _, ?_⟩
          intro old hold k hk
          rw [List.mem_singleton.mp hk]
          exact hunnamed old hold
        · rw [hothers other hother]
          exact h.named other
      · intro other k hk
        rcases hcases other k hk with hk | ⟨rfl, rfl⟩
        · exact h.dated other k hk
        · exact hdated
      · rw [newest_append hentries]
        exact Nat.max_le.mpr ⟨h.room, hroom⟩

/-! ### The rows of one owner -/

/-- The rows of an owner without their contents. -/
def placed (db : AdminDb) (kind : ResourceKind) (owner : String) : List (Placed Unit) :=
  ((db.keys kind).filter fun k => k.owner = owner).filterMap fun k =>
    (db.numberOf kind k.id).map fun n => ⟨k.createdAt, k.name.text, n, ()⟩

theorem mem_placed {owner : String} {r : Placed Unit} :
    r ∈ db.placed kind owner ↔ ∃ k ∈ db.keys kind, k.owner = owner ∧
      ∃ n, db.numberOf kind k.id = some n ∧ r = ⟨k.createdAt, k.name.text, n, ()⟩ := by
  unfold placed
  simp only [List.mem_filterMap, List.mem_filter, decide_eq_true_eq, Option.map_eq_some_iff,
    and_assoc]
  constructor
  · rintro ⟨k, hk, howner, n, hn, rfl⟩
    exact ⟨k, hk, howner, n, hn, rfl⟩
  · rintro ⟨k, hk, howner, n, hn, rfl⟩
    exact ⟨k, hk, howner, n, hn, rfl⟩

theorem numberOf_le {id : PlainId} {n : Nat} (h : db.numberOf kind id = some n) :
    n ≤ db.newest := by
  obtain ⟨e, he, rfl⟩ := Option.map_eq_some_iff.mp h
  exact le_newest (List.mem_of_find?_eq_some he)

theorem LedgerSound.names (h : db.LedgerSound) (kind : ResourceKind) (owner : String) :
    ((db.placed kind owner).map Placed.resourceId).Nodup := by
  unfold placed
  rw [List.Nodup, List.pairwise_map]
  apply List.Pairwise.filterMap (R := fun a b : RowKey =>
    ¬ (a.owner = b.owner ∧ a.name = b.name) ∧ a.owner = b.owner)
  · rintro a b ⟨hne, howner⟩ r hr r' hr' hsame
    obtain ⟨n, -, rfl⟩ := Option.map_eq_some_iff.mp hr
    obtain ⟨n', -, rfl⟩ := Option.map_eq_some_iff.mp hr'
    exact hne ⟨howner, PlainId.eq_of_text hsame⟩
  · refine List.Pairwise.imp_of_mem ?_ ((h.named kind).filter _)
    intro a b ha hb hne
    have ha := of_decide_eq_true (List.mem_filter.mp ha).2
    have hb := of_decide_eq_true (List.mem_filter.mp hb).2
    exact ⟨hne, ha.trans hb.symm⟩

/-- The rows of some keys. -/
def placedOf (db : AdminDb) (kind : ResourceKind) (owner : String) (keys : List RowKey) :
    List (Placed Unit) :=
  (keys.filter fun k => k.owner = owner).filterMap fun k =>
    (db.numberOf kind k.id).map fun n => ⟨k.createdAt, k.name.text, n, ()⟩

theorem placedOf_congr {owner : String} {keys : List RowKey}
    (h : ∀ k ∈ keys, db'.numberOf kind k.id = db.numberOf kind k.id) :
    db'.placedOf kind owner keys = db.placedOf kind owner keys := by
  unfold placedOf
  apply List.filterMap_congr
  intro k hk
  rw [h k (List.mem_of_mem_filter hk)]

/-- The rows of an owner stay, and those that follow have higher numbers. -/
theorem LedgerSound.placed_grows (h : db.LedgerSound) (hgrows : Grows db db') (kind : ResourceKind)
    (owner : String) :
    ∃ new, db'.placed kind owner = db.placed kind owner ++ new ∧
      ∀ r ∈ new, db.newest < r.sequence := by
  cases hgrows with
  | same hentries hkeys =>
      refine ⟨[], ?_, by simp⟩
      have hsame : db'.placedOf kind owner (db.keys kind) = db.placedOf kind owner (db.keys kind) :=
        placedOf_congr fun k _ => by rw [numberOf, hentries, numberOf]
      rw [List.append_nil, placed, hkeys]
      exact hsame
  | insert other key hroom hdated hunnumbered hunnamed hentries hkeys hothers =>
      have hsame : db'.placedOf kind owner (db.keys kind) = db.placedOf kind owner (db.keys kind) :=
        placedOf_congr fun k hk => find?_append_number hentries (h.numbered kind k hk)
      by_cases hkind : kind = other
      · subst hkind
        refine ⟨db'.placedOf kind owner [key], ?_, ?_⟩
        · rw [placed, hkeys, List.filter_append, List.filterMap_append]
          exact congrArg (· ++ db'.placedOf kind owner [key]) hsame
        · intro r hr
          obtain ⟨k, hk, hr⟩ := List.mem_filterMap.mp hr
          obtain ⟨n, hn, rfl⟩ := Option.map_eq_some_iff.mp hr
          rw [List.mem_singleton.mp (List.mem_of_mem_filter hk),
            numberOf_new hentries hunnumbered] at hn
          cases hn
          exact Nat.lt_succ_self _
      · refine ⟨[], ?_, by simp⟩
        rw [List.append_nil, placed, hothers kind hkind]
        exact hsame

/-- What later tables keep of the rows of an owner. -/
structure Extends (kind : ResourceKind) (owner : String) (first db : AdminDb) : Prop where
  sound : db.LedgerSound
  rows : ∃ new, db.placed kind owner = first.placed kind owner ++ new ∧
    ∀ r ∈ new, first.newest < r.sequence
  newest : first.newest ≤ db.newest

theorem Grows.newest_le (h : Grows db db') : db.newest ≤ db'.newest := by
  cases h with
  | same hentries hkeys => rw [newest, newest, hentries]
  | insert other key hroom hdated hunnumbered hunnamed hentries hkeys hothers =>
      rw [newest_append hentries]
      exact Nat.le_max_left _ _

theorem Extends.afterWrites {first : AdminDb} {owner : String} (h : Extends kind owner first db)
    (writes : List AdminWrite) : Extends kind owner first (db.afterWrites writes) := by
  unfold AdminDb.afterWrites
  induction writes generalizing db with
  | nil => exact h
  | cons w rest ih =>
      rw [List.foldl_cons]
      apply ih
      have hgrows := afterWrite_grows db w
      obtain ⟨new, hrows, hnew⟩ := h.rows
      obtain ⟨more, hmore, hhigher⟩ := h.sound.placed_grows hgrows kind owner
      refine ⟨h.sound.grows hgrows, ⟨new ++ more, ?_, ?_⟩, h.newest.trans hgrows.newest_le⟩
      · rw [hmore, hrows, List.append_assoc]
      · intro r hr
        rcases List.mem_append.mp hr with hr | hr
        · exact hnew r hr
        · exact lt_of_le_of_lt h.newest (hhigher r hr)

theorem ledgerSound_empty : AdminDb.empty.LedgerSound := by
  refine ⟨?_, ?_, ?_, Nat.zero_le _⟩
  · intro kind k hk
    cases kind <;> cases hk
  · intro kind
    cases kind <;> exact List.Pairwise.nil
  · intro kind k hk
    cases kind <;> cases hk

theorem Extends.refl (h : db.LedgerSound) (kind : ResourceKind) (owner : String) :
    Extends kind owner db db :=
  ⟨h, ⟨[], (List.append_nil _).symm, by simp⟩, Nat.le_refl _⟩

theorem ledgerSound_afterWrites (writes : List AdminWrite) :
    (AdminDb.empty.afterWrites writes).LedgerSound :=
  ((Extends.refl ledgerSound_empty .membership "").afterWrites writes).sound

end AdminDb

end AgentsServer.TeamHub
