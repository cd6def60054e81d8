import Mathlib.Data.List.Forall2

/-! What the outcome of a computation says of its parts. -/
namespace Hologram

variable {ε α β σ : Type}

@[simp] theorem ok_bind (a : α) (f : α → Except ε β) : (Except.ok a >>= f) = f a := rfl

@[simp] theorem error_bind (e : ε) (f : α → Except ε β) :
    (Except.error e >>= f) = .error e := rfl

theorem pure_eq_ok {a b : α} : (pure a : Except ε α) = .ok b ↔ a = b :=
  Except.ok.injEq a b ▸ Iff.rfl

theorem toOption_eq_some_iff {x : Except ε α} {a : α} : x.toOption = some a ↔ x = .ok a := by
  cases x with
  | error e => exact ⟨nofun, nofun⟩
  | ok b => simp [Except.toOption]

/-- A chain succeeds when its parts do, one after the other. -/
theorem bind_eq_ok {x : Except ε α} {f : α → Except ε β} {b : β} :
    (x >>= f) = .ok b ↔ ∃ a, x = .ok a ∧ f a = .ok b := by
  cases x with
  | error e => simp
  | ok a => simp

/-- Computations for the items of a list all succeed when they succeed one after the other. -/
theorem forall₂_of_mapM_eq_ok {f : α → Except ε β} {items : List α} {results : List β}
    (h : items.mapM f = .ok results) : List.Forall₂ (fun a b => f a = .ok b) items results := by
  induction items generalizing results with
  | nil =>
    rw [List.mapM_nil] at h
    rw [← pure_eq_ok.mp h]
    exact .nil
  | cons item rest ih =>
    rw [List.mapM_cons] at h
    obtain ⟨b, hb, h⟩ := bind_eq_ok.mp h
    obtain ⟨more, hmore, h⟩ := bind_eq_ok.mp h
    rw [← pure_eq_ok.mp h]
    exact .cons hb (ih hmore)

theorem mapM_eq_ok_of_forall₂ {f : α → Except ε β} {items : List α} {results : List β}
    (h : List.Forall₂ (fun a b => f a = .ok b) items results) : items.mapM f = .ok results := by
  induction h with
  | nil => rfl
  | cons hitem _ ih =>
    rw [List.mapM_cons, hitem, ok_bind, ih]
    rfl

/-- Computations that succeed for each item succeed one after the other. -/
theorem mapM_eq_ok_of_forall {f : α → Except ε β} {g : α → β} {items : List α}
    (h : ∀ item ∈ items, f item = .ok (g item)) : items.mapM f = .ok (items.map g) :=
  mapM_eq_ok_of_forall₂ (List.forall₂_map_right_iff.mpr (List.forall₂_same.mpr h))

theorem mapM_cons_eq_error_iff {f : α → Except ε β} {first : α} {rest : List α} {e : ε} :
    (first :: rest).mapM f = .error e ↔
      f first = .error e ∨ (∃ b, f first = .ok b) ∧ rest.mapM f = .error e := by
  rw [List.mapM_cons]
  cases f first with
  | error found => simp
  | ok b =>
    rw [ok_bind]
    cases rest.mapM f <;> simp [pure, Except.pure]

/-- Computations for the items of a list fail as the first of them does that fails. -/
theorem mapM_eq_error_iff {f : α → Except ε β} {items : List α} {e : ε} :
    items.mapM f = .error e ↔ ∃ before item after, items = before ++ item :: after ∧
      (∀ other ∈ before, ∃ b, f other = .ok b) ∧ f item = .error e := by
  induction items with
  | nil => simp [pure, Except.pure]
  | cons first rest ih =>
    rw [mapM_cons_eq_error_iff, ih]
    constructor
    · rintro (hfirst | ⟨hfirst, before, item, after, rfl, hbefore, hitem⟩)
      · exact ⟨[], first, rest, rfl, by simp, hfirst⟩
      · exact ⟨first :: before, item, after, rfl,
          List.forall_mem_cons.mpr ⟨hfirst, hbefore⟩, hitem⟩
    · rintro ⟨before, item, after, hitems, hbefore, hitem⟩
      cases before with
      | nil =>
        obtain ⟨rfl, -⟩ := List.cons.inj hitems
        exact .inl hitem
      | cons other before =>
        obtain ⟨rfl, rfl⟩ := List.cons.inj hitems
        obtain ⟨hother, hbefore⟩ := List.forall_mem_cons.mp hbefore
        exact .inr ⟨hother, before, item, after, rfl, hbefore, hitem⟩

/-- A part that succeeds without a state gives way to its result. -/
theorem lift_ok_bind (a : α) (f : α → StateT σ (Except ε) β) :
    ((liftM (Except.ok a : Except ε α) : StateT σ (Except ε) α) >>= f) = f a :=
  rfl

/-- A chain with a state that is passed on. -/
theorem run_bind_eq_ok {x : StateT σ (Except ε) α} {f : α → StateT σ (Except ε) β} {s t : σ}
    {b : β} :
    (x >>= f).run s = .ok (b, t) ↔ ∃ a u, x.run s = .ok (a, u) ∧ (f a).run u = .ok (b, t) := by
  rw [StateT.run_bind, bind_eq_ok]
  constructor
  · rintro ⟨⟨a, u⟩, ha, hf⟩
    exact ⟨a, u, ha, hf⟩
  · rintro ⟨a, u, ha, hf⟩
    exact ⟨(a, u), ha, hf⟩

/-- A computation without a state leaves the state as it is. -/
theorem run_lift_eq_ok {x : Except ε α} {s t : σ} {a : α} :
    (liftM x : StateT σ (Except ε) α).run s = .ok (a, t) ↔ x = .ok a ∧ t = s := by
  cases x with
  | error e =>
    constructor
    · nofun
    · rintro ⟨h, -⟩
      contradiction
  | ok b =>
    change Except.ok (b, s) = Except.ok (a, t) ↔ _
    simp [eq_comm]

/-- A chain that begins with a computation without a state. -/
theorem run_lift_bind_eq_ok {x : Except ε α} {f : α → StateT σ (Except ε) β} {s t : σ} {b : β} :
    ((liftM x : StateT σ (Except ε) α) >>= f).run s = .ok (b, t) ↔
      ∃ a, x = .ok a ∧ (f a).run s = .ok (b, t) := by
  rw [run_bind_eq_ok]
  constructor
  · rintro ⟨a, u, ha, hf⟩
    obtain ⟨rfl, rfl⟩ := run_lift_eq_ok.mp ha
    exact ⟨a, rfl, hf⟩
  · rintro ⟨a, rfl, hf⟩
    exact ⟨a, s, run_lift_eq_ok.mpr ⟨rfl, rfl⟩, hf⟩

theorem run_pure_eq_ok {s t : σ} {a b : α} :
    (pure a : StateT σ (Except ε) α).run s = .ok (b, t) ↔ b = a ∧ t = s := by
  change Except.ok (a, s) = Except.ok (b, t) ↔ _
  simp [eq_comm]

/-- Computations for the items of a list that pass a state on all succeed, each from some state. -/
theorem forall₂_of_run_mapM_eq_ok {f : α → StateT σ (Except ε) β} {items : List α}
    {results : List β} {s t : σ} (h : (items.mapM f).run s = .ok (results, t)) :
    List.Forall₂ (fun a b => ∃ s t, (f a).run s = .ok (b, t)) items results := by
  induction items generalizing results s t with
  | nil =>
    rw [List.mapM_nil, run_pure_eq_ok] at h
    rw [h.1]
    exact .nil
  | cons item rest ih =>
    rw [List.mapM_cons] at h
    obtain ⟨b, u, hb, h⟩ := run_bind_eq_ok.mp h
    obtain ⟨more, v, hmore, h⟩ := run_bind_eq_ok.mp h
    rw [(run_pure_eq_ok.mp h).1]
    exact .cons ⟨s, u, hb⟩ (ih hmore)

end Hologram
