import Mathlib.Data.List.Forall2

/-!
# Computations that succeed or fail

What it takes for a computation made of others to give a result, and which failure it has else.
-/

namespace ReductionTables

variable {α β ε ε' : Type}

theorem bind_eq_ok {x : Except ε α} {f : α → Except ε β} {b : β} :
    x.bind f = .ok b ↔ ∃ a, x = .ok a ∧ f a = .ok b := by
  cases x with
  | error e => simp [Except.bind]
  | ok a => simp [Except.bind]

theorem map_eq_ok {x : Except ε α} {f : α → β} {b : β} :
    x.map f = .ok b ↔ ∃ a, x = .ok a ∧ f a = b := by
  cases x with
  | error e => simp [Except.map]
  | ok a => simp [Except.map]

theorem bind_eq_error {x : Except ε α} {f : α → Except ε β} {e : ε} :
    x.bind f = .error e ↔ x = .error e ∨ ∃ a, x = .ok a ∧ f a = .error e := by
  cases x with
  | error e => simp [Except.bind]
  | ok a => simp [Except.bind]

theorem map_eq_error {x : Except ε α} {f : α → β} {e : ε} : x.map f = .error e ↔ x = .error e := by
  cases x with
  | error e => simp [Except.map]
  | ok a => simp [Except.map]

theorem exists_of_isOk {x : Except ε α} (h : x.isOk) : ∃ a, x = .ok a := by
  cases x with
  | error e => cases h
  | ok a => exact ⟨a, rfl⟩

theorem eq_ok_of_mem_toOption {x : Except ε α} {a : α} (h : a ∈ x.toOption) : x = .ok a := by
  cases x with
  | error e => cases h
  | ok b => rw [Option.some.inj h]

theorem forall₂_of_mapM {f : α → Except ε β} : {l : List α} → {l' : List β} →
    l.mapM f = .ok l' → List.Forall₂ (fun a b => f a = .ok b) l l'
  | [], l', h => by
    obtain rfl := Except.ok.inj h
    exact .nil
  | a :: l, l', h => by
    rw [List.mapM_cons] at h
    obtain ⟨b, hb, h⟩ := bind_eq_ok.1 h
    obtain ⟨bs, hbs, h⟩ := bind_eq_ok.1 h
    obtain rfl := Except.ok.inj h
    exact .cons hb (forall₂_of_mapM hbs)

theorem exists_mapM_iff {f : α → Except ε β} {l : List α} :
    (∃ l', l.mapM f = .ok l') ↔ ∀ a ∈ l, ∃ b, f a = .ok b := by
  induction l with
  | nil => exact ⟨fun _ a ha => absurd ha List.not_mem_nil, fun _ => ⟨[], rfl⟩⟩
  | cons a l ih =>
    rw [List.forall_mem_cons, ← ih]
    constructor
    · rintro ⟨l', h⟩
      rw [List.mapM_cons] at h
      obtain ⟨b, hb, h⟩ := bind_eq_ok.1 h
      obtain ⟨bs, hbs, -⟩ := bind_eq_ok.1 h
      exact ⟨⟨b, hb⟩, bs, hbs⟩
    · rintro ⟨⟨b, hb⟩, bs, hbs⟩
      refine ⟨b :: bs, ?_⟩
      rw [List.mapM_cons, hb, hbs]
      rfl

theorem mapM_singleton (f : α → Except ε β) (a : α) : [a].mapM f = (f a).map fun b => [b] := by
  rw [List.mapM_cons]
  cases f a with
  | error e => rfl
  | ok b => rfl

/-! ## The first failure -/

theorem mapM_cons_eq_error {f : α → Except ε β} {a : α} {l : List α} {e : ε} :
    (a :: l).mapM f = .error e ↔ f a = .error e ∨ ∃ b, f a = .ok b ∧ l.mapM f = .error e := by
  rw [List.mapM_cons]
  refine bind_eq_error.trans (or_congr_right ⟨?_, ?_⟩)
  · rintro ⟨b, hb, h⟩
    exact ⟨b, hb, map_eq_error.1 h⟩
  · rintro ⟨b, hb, h⟩
    exact ⟨b, hb, map_eq_error.2 h⟩

theorem mapM_append_of_error {f : α → Except ε β} {l : List α} {e : ε} (h : l.mapM f = .error e)
    (l' : List α) : (l ++ l').mapM f = .error e := by
  rw [List.mapM_append, h]
  rfl

theorem mapM_eq_error_iff {f : α → Except ε β} {l : List α} {e : ε} :
    l.mapM f = .error e ↔ ∃ before a after, l = before ++ a :: after ∧ f a = .error e ∧
      ∀ x ∈ before, ∃ b, f x = .ok b := by
  constructor
  · intro h
    induction l with
    | nil => cases h
    | cons x l ih =>
      rcases mapM_cons_eq_error.1 h with hx | ⟨b, hb, h⟩
      · exact ⟨[], x, l, rfl, hx, by simp⟩
      · obtain ⟨before, a, after, rfl, ha, hbefore⟩ := ih h
        exact ⟨x :: before, a, after, rfl, ha, List.forall_mem_cons.2 ⟨⟨b, hb⟩, hbefore⟩⟩
  · rintro ⟨before, a, after, rfl, ha, hbefore⟩
    induction before with
    | nil => exact mapM_cons_eq_error.2 (Or.inl ha)
    | cons x before ih =>
      obtain ⟨⟨b, hb⟩, hbefore⟩ := List.forall_mem_cons.1 hbefore
      exact mapM_cons_eq_error.2 (Or.inr ⟨b, hb, ih hbefore⟩)

theorem foldlM_eq_error_iff {σ : Type} {f : σ → α → Except ε σ} {l : List α} {s : σ} {e : ε} :
    l.foldlM f s = .error e ↔ ∃ before a after s', l = before ++ a :: after ∧
      before.foldlM f s = .ok s' ∧ f s' a = .error e := by
  constructor
  · intro h
    induction l generalizing s with
    | nil => cases h
    | cons x l ih =>
      rw [List.foldlM_cons] at h
      rcases bind_eq_error.1 h with hx | ⟨s₁, hs₁, h⟩
      · exact ⟨[], x, l, s, rfl, rfl, hx⟩
      · obtain ⟨before, a, after, s', rfl, hs', ha⟩ := ih h
        refine ⟨x :: before, a, after, s', rfl, ?_, ha⟩
        rw [List.foldlM_cons, hs₁]
        exact hs'
  · rintro ⟨before, a, after, s', rfl, hs', ha⟩
    have hrest : (a :: after).foldlM f s' = .error e := by
      rw [List.foldlM_cons]
      exact bind_eq_error.2 (Or.inl ha)
    rw [List.foldlM_append]
    exact bind_eq_error.2 (Or.inr ⟨s', hs', hrest⟩)

/-! ## Failures in other words -/

theorem mapError_eq_ok {x : Except ε α} {f : ε → ε'} {a : α} :
    x.mapError f = .ok a ↔ x = .ok a := by
  cases x with
  | error e => simp [Except.mapError]
  | ok a => simp [Except.mapError]

theorem mapM_mapError (f : α → Except ε β) (g : ε → ε') (l : List α) :
    l.mapM (fun a => (f a).mapError g) = (l.mapM f).mapError g := by
  induction l with
  | nil => rfl
  | cons a l ih =>
    rw [List.mapM_cons, List.mapM_cons, ih]
    cases f a with
    | error e => rfl
    | ok b =>
      cases l.mapM f with
      | error e => rfl
      | ok bs => rfl

end ReductionTables
