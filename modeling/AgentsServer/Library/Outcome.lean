import Mathlib.Logic.Basic

/-!
# Checked computations and transactions

`Except` computations that raise, with one inversion rule for each way of
building them, and the transaction that rolls back when its body raises.
-/

namespace AgentsServer.Library

variable {ε α β σ : Type}

/-- Raise unless the condition holds. -/
def require (c : Prop) [Decidable c] (e : ε) : Except ε Unit :=
  if c then .ok () else .error e

@[simp] theorem require_eq_ok (c : Prop) [Decidable c] (e : ε) (u : Unit) :
    require c e = .ok u ↔ c := by
  unfold require
  split <;> simp_all

/-- The value, or an error where there is none. -/
def required (o : Option α) (e : ε) : Except ε α :=
  match o with
  | some a => .ok a
  | none => .error e

@[simp] theorem required_eq_ok (o : Option α) (e : ε) (a : α) :
    required o e = .ok a ↔ o = some a := by
  cases o <;> simp [required]

@[simp] theorem pure_eq_ok (a b : α) :
    (pure a : Except ε α) = .ok b ↔ a = b := by
  constructor
  · rintro h
    cases h
    rfl
  · rintro rfl
    rfl

@[simp] theorem bind_eq_ok (x : Except ε α) (f : α → Except ε β) (b : β) :
    (x >>= f) = .ok b ↔ ∃ a, x = .ok a ∧ f a = .ok b := by
  cases x with
  | ok a =>
      constructor
      · intro h
        exact ⟨a, rfl, h⟩
      · rintro ⟨_, h, hf⟩
        cases h
        exact hf
  | error e =>
      constructor
      · intro h
        cases h
      · rintro ⟨_, h, _⟩
        cases h

/-- The steps of a computation that ends with a value, one after the other. -/
theorem of_bind_ok {P : Prop} {x : Except ε α} {f : α → Except ε β} {b : β}
    (h : (x >>= f) = .ok b) (k : ∀ a, x = .ok a → f a = .ok b → P) : P := by
  obtain ⟨a, ha, hb⟩ := (bind_eq_ok _ _ _).mp h
  exact k a ha hb

@[simp] theorem require_eq_error (c : Prop) [Decidable c] (e e' : ε) :
    require c e = .error e' ↔ ¬ c ∧ e = e' := by
  unfold require
  split <;> simp_all

theorem pure_ne_error (a : α) (e : ε) : (pure a : Except ε α) ≠ .error e := by
  intro h
  cases h

theorem bind_eq_error (x : Except ε α) (f : α → Except ε β) (e : ε) :
    (x >>= f) = .error e ↔ x = .error e ∨ ∃ a, x = .ok a ∧ f a = .error e := by
  cases x with
  | ok a =>
      constructor
      · intro h
        exact Or.inr ⟨a, rfl, h⟩
      · rintro (h | ⟨_, h, hf⟩)
        · cases h
        · cases h
          exact hf
  | error e' =>
      constructor
      · intro h
        cases h
        exact Or.inl rfl
      · rintro (h | ⟨_, h, _⟩)
        · cases h
          rfl
        · cases h

/-- A check before a value that is already there. -/
theorem require_return_eq_ok (c : Prop) [Decidable c] (e : ε) (a b : α) :
    ((fun _ => a) <$> require c e) = .ok b ↔ a = b ∧ c := by
  unfold require
  split <;> simp_all [Functor.map, Except.map]

theorem map_eq_ok {f : α → β} {x : Except ε α} {b : β} :
    x.map f = .ok b ↔ ∃ a, x = .ok a ∧ f a = b := by
  cases x <;> simp [Except.map]

theorem ok_bind (a : α) (f : α → Except ε β) : ((Except.ok a : Except ε α) >>= f) = f a := rfl

theorem require_bind {c : Prop} [Decidable c] (h : c) (e : ε) (f : Unit → Except ε β) :
    (require c e >>= f) = f () := by
  simp only [require, if_pos h]
  rfl

/-! ## Values that may be lost -/

/-- The same value, unless it was lost to an error. -/
def Fades (lost : Prop) (e : ε) (x y : Except ε α) : Prop :=
  ∀ a, x = .ok a → y = .ok a ∨ lost ∧ y = .error e

section Fades

variable {lost : Prop} {e : ε} {x y : Except ε α} {f g : α → Except ε β}

theorem Fades.refl (x : Except ε α) : Fades lost e x x :=
  fun _ h => Or.inl h

theorem Fades.bind (hx : Fades lost e x y) (hf : ∀ a, x = .ok a → Fades lost e (f a) (g a)) :
    Fades lost e (x >>= f) (y >>= g) := by
  intro b hb
  obtain ⟨a, ha, hb⟩ := (bind_eq_ok _ _ _).mp hb
  rcases hx a ha with hy | ⟨hlost, hy⟩
  · rw [hy]
    exact hf a ha b hb
  · rw [hy]
    exact Or.inr ⟨hlost, rfl⟩

/-- Two computations that start with the same step. -/
theorem Fades.step {f g : α → Except ε β} (hf : ∀ a, Fades lost e (f a) (g a)) :
    Fades lost e (x >>= f) (x >>= g) :=
  (Fades.refl x).bind fun a _ => hf a

end Fades

/-- What every step of a fold relates, the fold relates. -/
theorem foldlM_related {R : σ → σ → Prop} (refl : ∀ s, R s s)
    (trans : ∀ s t u, R s t → R t u → R s u) {f : σ → α → Except ε σ}
    (one : ∀ s a t, f s a = .ok t → R s t) {items : List α} {s t : σ}
    (h : items.foldlM f s = .ok t) : R s t := by
  induction items generalizing s with
  | nil =>
      cases h
      exact refl _
  | cons a rest ih =>
      rw [List.foldlM_cons, bind_eq_ok] at h
      obtain ⟨u, hu, hrest⟩ := h
      exact trans s u t (one s a u hu) (ih hrest)

/-- A loop of checks passes exactly when every check does. -/
theorem forM_eq_ok {f : α → Except ε Unit} {items : List α} {u : Unit} :
    forM items f = .ok u ↔ ∀ a ∈ items, f a = .ok () := by
  induction items with
  | nil => simp
  | cons a rest ih =>
      rw [List.forM_cons, bind_eq_ok, List.forall_mem_cons, ← ih]
      exact ⟨fun ⟨_, h⟩ => h, fun h => ⟨(), h⟩⟩

theorem mapM_isSome {α β : Type} {f : α → Option β} {items : List α}
    (h : ∀ a ∈ items, (f a).isSome = true) : ∃ values, items.mapM f = some values := by
  induction items with
  | nil => exact ⟨[], rfl⟩
  | cons a rest ih =>
      obtain ⟨b, hb⟩ := Option.isSome_iff_exists.mp (h a List.mem_cons_self)
      obtain ⟨values, hrest⟩ := ih fun c hc => h c (List.mem_cons_of_mem a hc)
      refine ⟨b :: values, ?_⟩
      rw [List.mapM_cons, hb, hrest]
      rfl

/-! ## Which errors are raised -/

/-- Every error the computation raises is of a kind. -/
def OnlyRaises (P : ε → Prop) (x : Except ε α) : Prop := ∀ e, x = .error e → P e

section
variable {P : ε → Prop} {e : ε}

theorem OnlyRaises.ok (a : α) : OnlyRaises P (.ok a : Except ε α) := by
  rintro _ ⟨⟩

theorem OnlyRaises.error (h : P e) : OnlyRaises P (.error e : Except ε α) := by
  rintro _ ⟨⟩
  exact h

theorem OnlyRaises.require {c : Prop} [Decidable c] (h : P e) :
    OnlyRaises P (require c e) := by
  intro e' he
  rw [require_eq_error] at he
  exact he.2 ▸ h

theorem OnlyRaises.required {o : Option α} (h : P e) : OnlyRaises P (required o e) := by
  cases o with
  | none => exact .error h
  | some a => exact .ok a

/-- What comes after a computation has to raise its own errors only where it is reached. -/
theorem OnlyRaises.bind {x : Except ε α} {f : α → Except ε β} (hx : OnlyRaises P x)
    (hf : ∀ a, x = .ok a → OnlyRaises P (f a)) : OnlyRaises P (x >>= f) := by
  intro e he
  rcases (bind_eq_error x f e).mp he with hx' | ⟨a, ha, he⟩
  · exact hx e hx'
  · exact hf a ha e he

theorem OnlyRaises.forM {f : α → Except ε Unit} {items : List α}
    (h : ∀ a ∈ items, OnlyRaises P (f a)) : OnlyRaises P (forM items f) := by
  induction items with
  | nil => exact .ok ()
  | cons a rest ih =>
      rw [List.forM_cons]
      exact .bind (h a List.mem_cons_self) fun _ _ =>
        ih fun b hb => h b (List.mem_cons_of_mem a hb)

end

/-- One transaction: a body that raises leaves the state unchanged. -/
def atomically (s : σ) (body : Except ε (α × σ)) : σ × Except ε α :=
  match body with
  | .ok (a, t) => (t, .ok a)
  | .error e => (s, .error e)

@[simp] theorem atomically_ok (s t : σ) (a : α) :
    atomically s (.ok (a, t) : Except ε (α × σ)) = (t, .ok a) := rfl

@[simp] theorem atomically_error (s : σ) (e : ε) :
    atomically s (.error e : Except ε (α × σ)) = (s, .error e) := rfl

/-- A transaction either commits its body or changes nothing. -/
theorem atomically_cases (s : σ) (body : Except ε (α × σ)) :
    (∃ a t, body = .ok (a, t) ∧ atomically s body = (t, .ok a)) ∨
      (∃ e, body = .error e ∧ atomically s body = (s, .error e)) := by
  cases body with
  | ok r => exact Or.inl ⟨r.1, r.2, rfl, rfl⟩
  | error e => exact Or.inr ⟨e, rfl, rfl⟩

/-- What holds of the old state and of every committed state holds after the
transaction. -/
theorem atomically_keep {P : σ → Prop} {s : σ} {body : Except ε (α × σ)}
    (old : P s) (new : ∀ a t, body = .ok (a, t) → P t) : P (atomically s body).1 := by
  rcases atomically_cases s body with ⟨a, t, hb, h⟩ | ⟨e, hb, h⟩
  · rw [h]
    exact new a t hb
  · rw [h]
    exact old

/-- A transaction answers `a` exactly when its body commits with `a`. -/
theorem atomically_eq_ok {s : σ} {body : Except ε (α × σ)} {a : α}
    (h : (atomically s body).2 = .ok a) :
    ∃ t, body = .ok (a, t) ∧ (atomically s body).1 = t := by
  rcases atomically_cases s body with ⟨b, t, hb, hs⟩ | ⟨e, hb, hs⟩
  · rw [hs] at h ⊢
    cases h
    exact ⟨t, hb, rfl⟩
  · rw [hs] at h
    cases h

end AgentsServer.Library
