import AgentsServer.Library.Outcome

/-!
# Programs that may be cut off

A program runs on a state, changes it by single effects and ends with a value
or an error. Its meaning lists the states after each effect, so the places
where a run may be cut off are part of it.

Three judgements speak about every such place. `Holds` bounds what a run may
leave behind whatever its outcome. `Ensures` says besides that the run ends
with a value. `Meets` says how it ends with a value and how with an error. All
are closed under sequencing, and a program that `Ensures` its postcondition from
every state of an invariant also does so after it has been cut off any number of
times.
-/

namespace AgentsServer.Library

variable {σ ε α β : Type}

/-- A program: the states after each of its effects, in order, and its outcome. -/
structure Program (σ ε α : Type) where
  run : σ → List σ × Except ε α

namespace Program

/-- The state a run ends in. -/
def final (p : Program σ ε α) (s : σ) : σ :=
  (p.run s).1.getLastD s

/-- The states a run may be cut off in. -/
def cuts (p : Program σ ε α) (s : σ) : List σ :=
  s :: (p.run s).1

protected def pure (a : α) : Program σ ε α where
  run _ := ([], .ok a)

protected def bind (p : Program σ ε α) (f : α → Program σ ε β) : Program σ ε β where
  run s :=
    match (p.run s).2 with
    | .ok a => ((p.run s).1 ++ ((f a).run (p.final s)).1, ((f a).run (p.final s)).2)
    | .error e => ((p.run s).1, .error e)

instance : Monad (Program σ ε) where
  pure := Program.pure
  bind := Program.bind

/-- A check or a read: no effect. -/
def look (f : σ → Except ε α) : Program σ ε α where
  run s := ([], f s)

/-- A single effect. -/
def act (f : σ → Except ε σ) : Program σ ε Unit where
  run s :=
    match f s with
    | .ok t => ([t], .ok ())
    | .error e => ([], .error e)

def raise (e : ε) : Program σ ε α where
  run _ := ([], .error e)

/-- `try` with a handler, which goes on where the error was raised. -/
def rescue (p : Program σ ε α) (handler : ε → Program σ ε α) : Program σ ε α where
  run s :=
    match (p.run s).2 with
    | .ok a => ((p.run s).1, .ok a)
    | .error e =>
        ((p.run s).1 ++ ((handler e).run (p.final s)).1, ((handler e).run (p.final s)).2)

/-- A loop. -/
def each (f : α → Program σ ε Unit) : List α → Program σ ε Unit
  | [] => Pure.pure ()
  | a :: rest => f a >>= fun _ => each f rest

/-! ## Whatever the outcome -/

/-- Every state left behind satisfies `I`, and a run that ends with a value
ends as `Q` says. -/
def Holds (I : σ → Prop) (p : Program σ ε α) (Q : α → σ → Prop) (s : σ) : Prop :=
  (∀ t ∈ (p.run s).1, I t) ∧ ∀ a, (p.run s).2 = .ok a → Q a (p.final s)

/-- Every state left behind satisfies `I`, a value ends the run as `Q` says and an
error as `E` says. -/
def Meets (I : σ → Prop) (p : Program σ ε α) (Q : α → σ → Prop) (E : ε → σ → Prop) (s : σ) :
    Prop :=
  (∀ t ∈ (p.run s).1, I t) ∧
    match (p.run s).2 with
    | .ok a => Q a (p.final s)
    | .error e => E e (p.final s)

variable {I J : σ → Prop} {p : Program σ ε α} {f : α → Program σ ε β}
  {Q R : α → σ → Prop} {S : β → σ → Prop} {E : ε → σ → Prop} {s t : σ} {a : α} {e : ε}

theorem bind_ok (h : (p.run s).2 = .ok a) :
    (p >>= f).run s =
      ((p.run s).1 ++ ((f a).run (p.final s)).1, ((f a).run (p.final s)).2) := by
  change (Program.bind p f).run s = _
  simp only [Program.bind, h]

theorem bind_error (h : (p.run s).2 = .error e) : (p >>= f).run s = ((p.run s).1, .error e) := by
  change (Program.bind p f).run s = _
  simp only [Program.bind, h]

theorem rescue_ok {handler : ε → Program σ ε α} (h : (p.run s).2 = .ok a) :
    (p.rescue handler).run s = ((p.run s).1, .ok a) := by
  simp only [rescue, h]

theorem rescue_error {handler : ε → Program σ ε α} (h : (p.run s).2 = .error e) :
    (p.rescue handler).run s =
      ((p.run s).1 ++ ((handler e).run (p.final s)).1, ((handler e).run (p.final s)).2) := by
  simp only [rescue, h]

theorem getLastD_append (l m : List σ) : (l ++ m).getLastD s = m.getLastD (l.getLastD s) := by
  cases m with
  | nil => rw [List.append_nil, List.getLastD_nil]
  | cons u us => simp [List.getLastD_eq_getLast?, List.getLast?_append, List.getLast?_cons]

theorem final_bind (h : (p.run s).2 = .ok a) :
    (p >>= f).final s = (f a).final (p.final s) := by
  rw [final, bind_ok h, getLastD_append]
  rfl

theorem act_ok {f : σ → Except ε σ} (h : f s = .ok t) :
    (Program.act f).run s = ([t], .ok ()) := by
  simp only [act, h]

theorem act_error {f : σ → Except ε σ} (h : f s = .error e) :
    (Program.act f).run s = ([], .error e) := by
  simp only [act, h]

/-! ## Running a program to its end -/

theorem run_look_bind {f : σ → Except ε α} {g : α → Program σ ε β} (h : f s = .ok a) :
    (look f >>= g).run s = (g a).run s :=
  bind_ok h

theorem final_look_bind {f : σ → Except ε α} {g : α → Program σ ε β} (h : f s = .ok a) :
    (look f >>= g).final s = (g a).final s :=
  final_bind h

/-- A program that ends without an effect. -/
theorem final_still_bind {p : Program σ ε α} {g : α → Program σ ε β}
    (h : p.run s = ([], .ok a)) : (p >>= g).final s = (g a).final s := by
  have hfinal : p.final s = s := by
    rw [final, h]
    rfl
  rw [final_bind (by rw [h]), hfinal]

/-- A program that ends after one effect. -/
theorem final_one_bind {p : Program σ ε α} {g : α → Program σ ε β}
    (h : p.run s = ([t], .ok a)) : (p >>= g).final s = (g a).final t := by
  have hfinal : p.final s = t := by
    rw [final, h]
    rfl
  rw [final_bind (by rw [h]), hfinal]

theorem final_act_bind {f : σ → Except ε σ} {g : Unit → Program σ ε β} (h : f s = .ok t) :
    (act f >>= g).final s = (g ()).final t :=
  final_one_bind (act_ok h)

/-- A program that ends without an effect. -/
theorem run_still_bind {p : Program σ ε α} {g : α → Program σ ε β} (h : p.run s = ([], .ok a)) :
    (p >>= g).run s = (g a).run s := by
  have hfinal : p.final s = s := by
    rw [final, h]
    rfl
  rw [bind_ok (by rw [h]), h, hfinal]
  rfl

/-- A program that ends after one effect. -/
theorem run_one_bind {p : Program σ ε α} {g : α → Program σ ε β} (h : p.run s = ([t], .ok a)) :
    (p >>= g).run s = (t :: ((g a).run t).1, ((g a).run t).2) := by
  have hfinal : p.final s = t := by
    rw [final, h]
    rfl
  rw [bind_ok (by rw [h]), h, hfinal]
  rfl

theorem run_act_bind {f : σ → Except ε σ} {g : Unit → Program σ ε β} (h : f s = .ok t) :
    (act f >>= g).run s = (t :: ((g ()).run t).1, ((g ()).run t).2) :=
  run_one_bind (act_ok h)

theorem cuts_look_bind {f : σ → Except ε α} {g : α → Program σ ε β} (h : f s = .ok a) :
    (look f >>= g).cuts s = (g a).cuts s := by
  unfold cuts
  rw [run_look_bind h]

/-- A program may be cut off after an effect, or in what follows. -/
theorem mem_cuts_one_bind {p : Program σ ε α} {g : α → Program σ ε β} {u : σ}
    (h : p.run s = ([u], .ok a)) (ht : t ∈ (g a).cuts u) : t ∈ (p >>= g).cuts s := by
  unfold cuts
  rw [run_one_bind h]
  exact List.mem_cons_of_mem s ht

theorem mem_cuts_act_bind {f : σ → Except ε σ} {g : Unit → Program σ ε β} {u : σ}
    (h : f s = .ok u) (ht : t ∈ (g ()).cuts u) : t ∈ (act f >>= g).cuts s :=
  mem_cuts_one_bind (act_ok h) ht

theorem final_pure_bind (a : α) {g : α → Program σ ε β} :
    ((Pure.pure a : Program σ ε α) >>= g).final s = (g a).final s :=
  final_still_bind rfl

/-! ## Rules -/

theorem Holds.pure (h : Q a s) : Holds I (Pure.pure a : Program σ ε α) Q s := by
  constructor
  · intro t ht
    cases ht
  · intro b hb
    cases hb
    exact h

theorem Holds.raise : Holds I (Program.raise e : Program σ ε α) Q s := by
  constructor
  · intro t ht
    cases ht
  · intro b hb
    cases hb

theorem Holds.look {f : σ → Except ε α} (h : ∀ a, f s = .ok a → Q a s) :
    Holds I (Program.look f) Q s := by
  constructor
  · intro t ht
    cases ht
  · intro a ha
    exact h a ha

theorem Holds.act {f : σ → Except ε σ} {Q : Unit → σ → Prop}
    (h : ∀ t, f s = .ok t → I t ∧ Q () t) : Holds I (Program.act f) Q s := by
  cases hf : f s with
  | ok t =>
      obtain ⟨hI, hQ⟩ := h t hf
      simp [Holds, final, act_ok hf, hI, hQ]
  | error e => simp [Holds, act_error hf]

theorem Holds.bind (hp : Holds I p R s) (hf : ∀ a t, R a t → Holds I (f a) S t) :
    Holds I (p >>= f) S s := by
  cases hr : (p.run s).2 with
  | error e =>
      rw [Holds, bind_error hr]
      constructor
      · exact hp.1
      · intro b hb
        cases hb
  | ok a =>
      have next := hf a _ (hp.2 a hr)
      constructor
      · rw [bind_ok hr]
        intro t ht
        rcases List.mem_append.mp ht with ht | ht
        · exact hp.1 t ht
        · exact next.1 t ht
      · intro b hb
        rw [bind_ok hr] at hb
        rw [final_bind hr]
        exact next.2 b hb

theorem Holds.weaken (hp : Holds I p Q s) (hI : ∀ t, I t → J t) (hQ : ∀ a t, Q a t → R a t) :
    Holds J p R s :=
  ⟨fun t ht => hI t (hp.1 t ht), fun a ha => hQ a _ (hp.2 a ha)⟩

/-- What holds before a run and of every state left behind holds where it ends. -/
theorem Holds.at_end (hp : Holds I p Q s) (h : I s) : I (p.final s) := by
  have hm : p.final s ∈ p.cuts s := List.getLastD_mem_cons
  rcases List.mem_cons.mp hm with he | hm
  · rw [he]
    exact h
  · exact hp.1 _ hm

/-- A handler starts from a state that the program left behind. -/
theorem Holds.rescue {handler : ε → Program σ ε α} (hp : Holds I p Q s) (h : I s)
    (hh : ∀ e t, I t → Holds I (handler e) Q t) : Holds I (p.rescue handler) Q s := by
  cases hr : (p.run s).2 with
  | ok a =>
      rw [Holds, final, rescue_ok hr]
      refine ⟨hp.1, ?_⟩
      rintro _ ⟨⟩
      exact hp.2 a hr
  | error e =>
      have next := hh e _ (hp.at_end h)
      rw [Holds, final, rescue_error hr]
      constructor
      · intro t ht
        rcases List.mem_append.mp ht with ht | ht
        · exact hp.1 t ht
        · exact next.1 t ht
      · intro a ha
        rw [getLastD_append]
        exact next.2 a ha

/-- A handler that only raises leaves nothing more behind. -/
theorem Holds.rescue_raise {change : ε → ε} (hp : Holds I p Q s) :
    Holds I (p.rescue fun e => Program.raise (change e)) Q s := by
  cases hr : (p.run s).2 with
  | ok a =>
      rw [Holds, final, rescue_ok hr]
      refine ⟨hp.1, ?_⟩
      rintro _ ⟨⟩
      exact hp.2 a hr
  | error e =>
      rw [Holds, final, rescue_error hr]
      constructor
      · intro t ht
        rw [show ((Program.raise (change e) : Program σ ε α).run (p.final s)).1 = [] from rfl,
          List.append_nil] at ht
        exact hp.1 t ht
      · rintro a ⟨⟩

/-! ## With a value or an error -/

theorem Meets.pure (h : Q a s) : Meets I (Pure.pure a : Program σ ε α) Q E s :=
  ⟨fun _ ht => absurd ht List.not_mem_nil, h⟩

theorem Meets.raise (h : E e s) : Meets I (Program.raise e : Program σ ε α) Q E s :=
  ⟨fun _ ht => absurd ht List.not_mem_nil, h⟩

theorem Meets.look {f : σ → Except ε α} (hv : ∀ a, f s = .ok a → Q a s)
    (he : ∀ e, f s = .error e → E e s) : Meets I (Program.look f) Q E s := by
  refine ⟨fun _ ht => absurd ht List.not_mem_nil, ?_⟩
  change match f s with
    | .ok a => Q a s
    | .error e => E e s
  cases hf : f s with
  | ok a => exact hv a hf
  | error e => exact he e hf

/-- A check that passes, or a read that succeeds. -/
theorem Meets.read {f : σ → Except ε α} (h : f s = .ok a) (hQ : Q a s) :
    Meets I (Program.look f) Q E s := by
  apply Meets.look
  · intro b hb
    rw [h] at hb
    cases hb
    exact hQ
  · intro e he
    rw [h] at he
    cases he

theorem Meets.act {f : σ → Except ε σ} {Q : Unit → σ → Prop} (h : f s = .ok t) (hI : I t)
    (hQ : Q () t) : Meets I (Program.act f) Q E s := by
  simp [Meets, final, act_ok h, hI, hQ]

theorem Meets.bind (hp : Meets I p R E s) (hf : ∀ a t, R a t → Meets I (f a) S E t) :
    Meets I (p >>= f) S E s := by
  obtain ⟨hI, hend⟩ := hp
  cases hr : (p.run s).2 with
  | error e =>
      rw [hr] at hend
      unfold Meets final
      rw [bind_error hr]
      exact ⟨hI, hend⟩
  | ok a =>
      rw [hr] at hend
      obtain ⟨hI', hend'⟩ := hf a _ hend
      constructor
      · rw [bind_ok hr]
        intro t ht
        rcases List.mem_append.mp ht with ht | ht
        · exact hI t ht
        · exact hI' t ht
      · rw [final_bind hr, bind_ok hr]
        exact hend'

/-- A loop whose steps each take an invariant of what is left to the next one. -/
theorem Meets.each {f : α → Program σ ε Unit} {J : List α → σ → Prop}
    (step : ∀ a rest s, J (a :: rest) s → Meets I (f a) (fun _ t => J rest t) E s)
    (items : List α) (h : J items s) : Meets I (Program.each f items) (fun _ t => J [] t) E s := by
  induction items generalizing s with
  | nil => exact Meets.pure h
  | cons a rest ih => exact Meets.bind (step a rest s h) fun _ t ht => ih ht

/-- A handler starts where the error was raised, and knows which one it was. -/
theorem Meets.rescue {handler : ε → Program σ ε α} {F : ε → σ → Prop} (hp : Meets I p Q F s)
    (hh : ∀ e t, F e t → Meets I (handler e) Q E t) : Meets I (p.rescue handler) Q E s := by
  obtain ⟨hI, hend⟩ := hp
  cases hr : (p.run s).2 with
  | ok a =>
      rw [hr] at hend
      unfold Meets final
      rw [rescue_ok hr]
      exact ⟨hI, hend⟩
  | error e =>
      rw [hr] at hend
      obtain ⟨hI', hend'⟩ := hh e _ hend
      unfold Meets final
      rw [rescue_error hr, getLastD_append]
      refine ⟨?_, hend'⟩
      intro t ht
      rcases List.mem_append.mp ht with ht | ht
      · exact hI t ht
      · exact hI' t ht

/-- Another reading of every place where a run may stop. -/
theorem Meets.imp {F : ε → σ → Prop} (hp : Meets I p Q F s) (hI : ∀ t, I t → J t)
    (hQ : ∀ a t, Q a t → R a t) (hE : ∀ e t, F e t → E e t) : Meets J p R E s := by
  refine ⟨fun t ht => hI t (hp.1 t ht), ?_⟩
  have hend := hp.2
  cases hr : (p.run s).2 with
  | ok a =>
      rw [hr] at hend
      exact hQ a _ hend
  | error e =>
      rw [hr] at hend
      exact hE e _ hend

theorem Meets.weaken (hp : Meets I p Q E s) (hI : ∀ t, I t → J t)
    (hQ : ∀ a t, Q a t → R a t) : Meets J p R E s :=
  hp.imp hI hQ fun _ _ h => h

theorem Meets.holds (hp : Meets I p Q E s) : Holds I p Q s := by
  refine ⟨hp.1, ?_⟩
  intro a ha
  have hend := hp.2
  rwa [ha] at hend

theorem Meets.ok (hp : Meets I p Q E s) (h : (p.run s).2 = .ok a) : Q a (p.final s) := by
  have hend := hp.2
  rwa [h] at hend

theorem Meets.error (hp : Meets I p Q E s) (h : (p.run s).2 = .error e) : E e (p.final s) := by
  have hend := hp.2
  rwa [h] at hend

end Program

end AgentsServer.Library
