import AgentsServer.Library.JsonLoads

/-!
# Cut JSON text

What `json.loads` takes from a text does not depend on what follows, numbers apart. A text of
an object that was cut is therefore no JSON.
-/

namespace AgentsServer.Library.Json

theorem dropWhile_append_cons {p : Char → Bool} {text tail more : List Char} {c : Char}
    (h : text.dropWhile p = c :: tail) : (text ++ more).dropWhile p = c :: (tail ++ more) := by
  rw [List.dropWhile_append, h]
  rfl

/-! ## Characters -/

section Characters

variable {text rest more : List Char}

theorem unit?_append {n : Nat} (h : unit? text = some (n, rest)) :
    unit? (text ++ more) = some (n, rest ++ more) := by
  match text, h with
  | a :: b :: c :: d :: tail, h =>
      simp only [unit?, Option.bind_eq_bind, Option.bind_eq_some_iff] at h
      obtain ⟨_, ha, _, hb, _, hc, _, hd, heq⟩ := h
      cases heq
      simp only [List.cons_append, unit?, ha, hb, hc, hd, Option.bind_eq_bind, Option.bind_some]

theorem unicode?_append {c : Char} (h : unicode? text = some (c, rest)) :
    unicode? (text ++ more) = some (c, rest ++ more) := by
  unfold unicode? at h ⊢
  obtain ⟨⟨high, tail⟩, hunit, h⟩ := Option.bind_eq_some_iff.mp h
  rw [unit?_append hunit]
  simp only [Option.bind_eq_bind, Option.bind_some] at h ⊢
  split at h
  · next hplain =>
    obtain ⟨rfl, rfl⟩ := Prod.mk.inj (Option.some.inj h)
    rw [if_pos hplain]
  · next hplain =>
    rw [if_neg hplain]
    split at h
    · next hhigh =>
      rw [if_pos hhigh]
      split at h
      · next low =>
        obtain ⟨⟨code, after⟩, hlow, h⟩ := Option.bind_eq_some_iff.mp h
        simp only [List.cons_append, unit?_append hlow, Option.bind_some]
        split at h
        · next hpair =>
          obtain ⟨rfl, rfl⟩ := Prod.mk.inj (Option.some.inj h)
          rw [if_pos hpair]
        · cases h
      · cases h
    · cases h

theorem character?_append {c : Char} (h : character? text = some (c, rest)) :
    character? (text ++ more) = some (c, rest ++ more) := by
  unfold character? at h
  split at h
  · exact unicode?_append h
  · next d tail hne =>
    rw [List.cons_append, List.cons_append, character?.eq_2 _ _ hne]
    repeat' split at h
    all_goals cases h
    all_goals simp_all
  · next d tail _ _ =>
    split at h
    · cases h
    · next hplain =>
      obtain ⟨rfl, rfl⟩ := Prod.mk.inj (Option.some.inj h)
      rw [not_or] at hplain
      rw [List.cons_append, character?.eq_3, if_neg (not_or.mpr hplain)]
      · rintro _ hslash _
        exact hplain.1 hslash
      · rintro _ _ hslash _
        exact hplain.1 hslash
  · cases h

theorem chars?_append {cs : List Char} {fuel : Nat} (h : chars? fuel text = some (cs, rest))
    (more : List Char) (fuel' : Nat) (hle : fuel ≤ fuel') :
    chars? fuel' (text ++ more) = some (cs, rest ++ more) := by
  induction fuel generalizing text cs fuel' with
  | zero => cases h
  | succ fuel ih =>
      obtain ⟨k, rfl⟩ : ∃ k, fuel' = k + 1 := ⟨fuel' - 1, by omega⟩
      unfold chars? at h
      split at h
      · obtain ⟨rfl, rfl⟩ := Prod.mk.inj (Option.some.inj h)
        rfl
      · next hquote =>
        obtain ⟨⟨c, tail⟩, hc, h⟩ := Option.bind_eq_some_iff.mp h
        obtain ⟨⟨ds, after⟩, hds, h⟩ := Option.bind_eq_some_iff.mp h
        obtain ⟨rfl, rfl⟩ := Prod.mk.inj (Option.some.inj h)
        rw [chars?.eq_3]
        · rw [character?_append hc]
          simp only [Option.bind_eq_bind, Option.bind_some, ih hds k (Nat.le_of_succ_le_succ hle)]
        · intro tail' heq
          cases text with
          | nil => cases hc
          | cons d text =>
              obtain ⟨rfl, -⟩ := List.cons.inj heq
              exact hquote _ rfl

end Characters

/-! ## Values -/

section Values

variable [FloatText] {text rest more : List Char}

theorem loadNumber_nil : loadNumber [] = none := rfl

/-- A number that is followed by something. -/
theorem scalar?_append {v : Json} (h : scalar? text = some (v, rest)) (hrest : rest ≠ [])
    (more : List Char) : scalar? (text ++ more) = some (v, rest ++ more) := by
  unfold scalar? at h
  split at h
  · cases h; rfl
  · cases h; rfl
  · cases h; rfl
  · next hnull htrue hfalse =>
    obtain ⟨literal, hliteral, h⟩ := Option.bind_eq_some_iff.mp h
    obtain ⟨rfl, hdrop⟩ := Prod.mk.inj (Option.some.inj h)
    obtain ⟨c, tail, rfl⟩ := List.exists_cons_of_ne_nil hrest
    have htake : (text ++ more).takeWhile (fun c => isNumeral c || c == 'E') =
        text.takeWhile fun c => isNumeral c || c == 'E' := by
      rw [List.takeWhile_append, if_neg]
      intro hall
      have hlength := congrArg List.length
        (List.takeWhile_append_dropWhile (p := fun c => isNumeral c || c == 'E') (l := text))
      rw [hdrop, List.length_append, hall, List.length_cons] at hlength
      omega
    have hfirst : ∀ d more', text ++ more = d :: more' → (isNumeral d || d == 'E') = true := by
      intro d more' heq
      by_contra hne
      cases text with
      | nil => cases hliteral
      | cons e text =>
          obtain ⟨rfl, -⟩ := List.cons.inj heq
          have hnone : (e :: text).takeWhile (fun c => isNumeral c || c == 'E') = [] :=
            List.takeWhile_cons_of_neg hne
          rw [hnone, loadNumber_nil] at hliteral
          cases hliteral
    rw [scalar?.eq_4]
    · rw [htake, hliteral]
      simp only [Option.bind_eq_bind, Option.bind_some, dropWhile_append_cons hdrop]
      rfl
    all_goals
      intro tail' heq
      have hd := hfirst _ _ heq
      cases hd

theorem value?_nil (fuel : Nat) : value? fuel [] = none := by
  cases fuel with
  | zero => rfl
  | succ fuel => rfl

theorem items?_nil (fuel : Nat) : items? fuel [] = none := by
  cases fuel with
  | zero => rfl
  | succ fuel => rw [items?, value?_nil]; rfl

theorem fields?_nil (fuel : Nat) : fields? fuel [] = none := by
  cases fuel with
  | zero => rfl
  | succ fuel => rfl

/-- With this fuel and more a value is read from a text that goes on. -/
def LocalValue (fuel : Nat) : Prop :=
  ∀ {text v rest}, value? fuel text = some (v, rest) →
    (rest ≠ [] ∨ ∃ tail, text.dropWhile isSpace = '{' :: tail) →
    ∀ more fuel', fuel ≤ fuel' → value? fuel' (text ++ more) = some (v, rest ++ more)

def LocalItems (fuel : Nat) : Prop :=
  ∀ {text items rest}, items? fuel text = some (items, rest) →
    ∀ more fuel', fuel ≤ fuel' → items? fuel' (text ++ more) = some (items, rest ++ more)

def LocalFields (fuel : Nat) : Prop :=
  ∀ {text fields rest}, fields? fuel text = some (fields, rest) →
    ∀ more fuel', fuel ≤ fuel' → fields? fuel' (text ++ more) = some (fields, rest ++ more)

variable {fuel : Nat}

theorem localItems_succ (hvalue : LocalValue fuel) (hitems : LocalItems fuel) :
    LocalItems (fuel + 1) := by
  intro text items rest h more fuel' hle
  obtain ⟨k, rfl⟩ : ∃ k, fuel' = k + 1 := ⟨fuel' - 1, by omega⟩
  have hk : fuel ≤ k := Nat.le_of_succ_le_succ hle
  unfold items? at h ⊢
  obtain ⟨⟨item, tail⟩, hitem, h⟩ := Option.bind_eq_some_iff.mp h
  dsimp only at h
  have hfirst : tail ≠ [] → value? k (text ++ more) = some (item, tail ++ more) :=
    fun hne => hvalue hitem (.inl hne) more k hk
  split at h
  · next after hclose =>
    obtain ⟨rfl, rfl⟩ := Prod.mk.inj (Option.some.inj h)
    rw [hfirst (by rintro rfl; cases hclose)]
    simp only [Option.bind_eq_bind, Option.bind_some, dropWhile_append_cons hclose]
  · next after hcomma =>
    obtain ⟨⟨others, last⟩, hothers, h⟩ := Option.bind_eq_some_iff.mp h
    obtain ⟨rfl, rfl⟩ := Prod.mk.inj (Option.some.inj h)
    rw [hfirst (by rintro rfl; cases hcomma)]
    simp only [Option.bind_eq_bind, Option.bind_some, dropWhile_append_cons hcomma,
      hitems hothers more k hk]
  · cases h

theorem localFields_succ (hvalue : LocalValue fuel) (hfields : LocalFields fuel) :
    LocalFields (fuel + 1) := by
  intro text fields rest h more fuel' hle
  obtain ⟨k, rfl⟩ : ∃ k, fuel' = k + 1 := ⟨fuel' - 1, by omega⟩
  have hk : fuel ≤ k := Nat.le_of_succ_le_succ hle
  unfold fields? at h ⊢
  split at h
  swap
  · cases h
  next body hquote =>
  obtain ⟨⟨key, named⟩, hkey, h⟩ := Option.bind_eq_some_iff.mp h
  have hkey' := chars?_append hkey more ((body ++ more).length + 1)
    (by rw [List.length_append]; omega)
  simp only [dropWhile_append_cons hquote, hkey', Option.bind_eq_bind, Option.bind_some]
  dsimp only at h
  split at h
  swap
  · cases h
  next valued hcolon =>
  obtain ⟨⟨value, tail⟩, hvalued, h⟩ := Option.bind_eq_some_iff.mp h
  dsimp only at h
  have hfirst : tail ≠ [] → value? k (valued ++ more) = some (value, tail ++ more) :=
    fun hne => hvalue hvalued (.inl hne) more k hk
  simp only [dropWhile_append_cons hcolon]
  split at h
  · next after hclose =>
    obtain ⟨rfl, rfl⟩ := Prod.mk.inj (Option.some.inj h)
    rw [hfirst (by rintro rfl; cases hclose)]
    simp only [Option.bind_some, dropWhile_append_cons hclose]
  · next after hcomma =>
    obtain ⟨⟨others, last⟩, hothers, h⟩ := Option.bind_eq_some_iff.mp h
    obtain ⟨rfl, rfl⟩ := Prod.mk.inj (Option.some.inj h)
    rw [hfirst (by rintro rfl; cases hcomma)]
    simp only [Option.bind_some, dropWhile_append_cons hcomma, hfields hothers more k hk]
  · cases h

theorem localValue_succ (hitems : LocalItems fuel) (hfields : LocalFields fuel) :
    LocalValue (fuel + 1) := by
  intro text v rest h hends more fuel' hle
  obtain ⟨k, rfl⟩ : ∃ k, fuel' = k + 1 := ⟨fuel' - 1, by omega⟩
  have hk : fuel ≤ k := Nat.le_of_succ_le_succ hle
  unfold value? at h ⊢
  split at h
  · next body hquote =>
    obtain ⟨⟨cs, tail⟩, hcs, h⟩ := Option.bind_eq_some_iff.mp h
    obtain ⟨rfl, rfl⟩ := Prod.mk.inj (Option.some.inj h)
    have hcs' := chars?_append hcs more ((body ++ more).length + 1)
      (by rw [List.length_append]; omega)
    simp only [dropWhile_append_cons hquote, hcs', Option.bind_eq_bind, Option.bind_some]
  · next body hopen =>
    simp only [dropWhile_append_cons hopen]
    split at h
    · next after hclose =>
      obtain ⟨rfl, rfl⟩ := Prod.mk.inj (Option.some.inj h)
      simp only [dropWhile_append_cons hclose]
    · next hne =>
      obtain ⟨⟨items, tail⟩, hread, h⟩ := Option.bind_eq_some_iff.mp h
      obtain ⟨rfl, rfl⟩ := Prod.mk.inj (Option.some.inj h)
      cases hbody : body.dropWhile isSpace with
      | nil =>
          rw [hbody, items?_nil] at hread
          cases hread
      | cons c tail' =>
          rw [hbody] at hread
          have hread' := hitems hread more k hk
          simp only [dropWhile_append_cons hbody]
          split
          · next hclose =>
            obtain ⟨rfl, -⟩ := List.cons.inj hclose
            exact absurd hbody (hne _)
          · rw [List.cons_append] at hread'
            simp only [hread', Option.bind_eq_bind, Option.bind_some]
  · next body hopen =>
    simp only [dropWhile_append_cons hopen]
    split at h
    · next after hclose =>
      obtain ⟨rfl, rfl⟩ := Prod.mk.inj (Option.some.inj h)
      simp only [dropWhile_append_cons hclose]
    · next hne =>
      obtain ⟨⟨fields, tail⟩, hread, h⟩ := Option.bind_eq_some_iff.mp h
      obtain ⟨rfl, rfl⟩ := Prod.mk.inj (Option.some.inj h)
      cases hbody : body.dropWhile isSpace with
      | nil =>
          rw [hbody, fields?_nil] at hread
          cases hread
      | cons c tail' =>
          rw [hbody] at hread
          have hread' := hfields hread more k hk
          simp only [dropWhile_append_cons hbody]
          split
          · next hclose =>
            obtain ⟨rfl, -⟩ := List.cons.inj hclose
            exact absurd hbody (hne _)
          · rw [List.cons_append] at hread'
            simp only [hread', Option.bind_eq_bind, Option.bind_some]
  · next hstr harr hobj =>
    have hrest : rest ≠ [] := by
      rcases hends with hrest | ⟨tail, hopen⟩
      · exact hrest
      · exact absurd hopen (hobj tail)
    cases htext : text.dropWhile isSpace with
    | nil =>
        rw [htext] at h
        cases h
    | cons c tail =>
        rw [htext] at h
        have hread := scalar?_append h hrest more
        rw [List.cons_append] at hread
        simp only [dropWhile_append_cons htext]
        split
        · next heq =>
          obtain ⟨rfl, -⟩ := List.cons.inj heq
          exact absurd htext (hstr tail)
        · next heq =>
          obtain ⟨rfl, -⟩ := List.cons.inj heq
          exact absurd htext (harr tail)
        · next heq =>
          obtain ⟨rfl, -⟩ := List.cons.inj heq
          exact absurd htext (hobj tail)
        · exact hread

theorem local_all (fuel : Nat) : LocalValue fuel ∧ LocalItems fuel ∧ LocalFields fuel := by
  induction fuel with
  | zero =>
      refine ⟨?_, ?_, ?_⟩
      · rintro _ _ _ ⟨⟩
      · rintro _ _ _ ⟨⟩
      · rintro _ _ _ ⟨⟩
  | succ fuel ih =>
      obtain ⟨hvalue, hitems, hfields⟩ := ih
      exact ⟨localValue_succ hitems hfields, localItems_succ hvalue hitems,
        localFields_succ hvalue hfields⟩

/-- The text of an object that was cut is no JSON. -/
theorem loads_cut {esc : Char → List Char} (hesc : Escapes esc) {fields : List (String × Json)}
    (hproper : Proper (.obj fields)) {head tail : List Char} (htail : tail ≠ [])
    (hcut : render esc (.obj fields) = head ++ tail) : loads head = none := by
  by_contra hloads
  obtain ⟨v, hv⟩ := Option.ne_none_iff_exists'.mp hloads
  obtain ⟨⟨v', rest⟩, hread, -⟩ := Option.bind_eq_some_iff.mp hv
  have hopen : ∃ body, head.dropWhile isSpace = '{' :: body := by
    cases head with
    | nil =>
        rw [value?_nil] at hread
        cases hread
    | cons c head =>
        have hfirst : c = '{' := by
          cases fields with
          | nil => exact (List.cons.inj hcut).1.symm
          | cons field fields => exact (List.cons.inj hcut).1.symm
        subst hfirst
        exact ⟨head, List.dropWhile_cons_of_neg (by decide)⟩
  have hlonger := (local_all _).1 hread (.inr hopen) tail ((head ++ tail).length + 1)
    (by rw [List.length_append]; omega)
  have hwhole := value?_render hesc hproper
  rw [hcut, hlonger] at hwhole
  have hnone : rest ++ tail = [] := (Prod.mk.inj (Option.some.inj hwhole)).2
  exact htail (List.append_eq_nil_iff.mp hnone).2

end Values

end AgentsServer.Library.Json
