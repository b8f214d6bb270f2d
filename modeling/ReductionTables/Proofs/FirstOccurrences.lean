import Mathlib.Data.List.Induction
import Mathlib.Data.List.Nodup

/-!
# First occurrences

A list without its repetitions keeps each member where it first occurs. One more member goes to the end
unless it is there already, which is how collections in first-seen order grow. Searching for the first
match is no choice when all matches say the same.
-/

namespace ReductionTables

variable {α β : Type} [BEq α] [LawfulBEq α] [BEq β] [LawfulBEq β]

theorem eraseDups_concat (l : List α) (a : α) :
    (l ++ [a]).eraseDups = if a ∈ l then l.eraseDups else l.eraseDups ++ [a] := by
  by_cases ha : a ∈ l <;> simp [List.eraseDups_append, List.eraseDups_cons, List.removeAll, ha]

theorem nodup_eraseDups (l : List α) : l.eraseDups.Nodup := by
  induction l using List.reverseRecOn with
  | nil => simp
  | append_singleton l a ih =>
    by_cases ha : a ∈ l
    · simpa [eraseDups_concat, ha] using ih
    · simpa [eraseDups_concat, ha] using ih.append (List.nodup_singleton a) (by simpa using ha)

theorem eraseDups_map {f : α → β} (hf : Function.Injective f) (l : List α) :
    (l.map f).eraseDups = l.eraseDups.map f := by
  induction l using List.reverseRecOn with
  | nil => rfl
  | append_singleton l a ih =>
    by_cases ha : a ∈ l
    · simp [eraseDups_concat, List.mem_map_of_injective hf, ha, ih]
    · simp [eraseDups_concat, List.mem_map_of_injective hf, ha, ih]

/-- A list grows to one without repetitions when each new member is appended. -/
theorem foldl_concat_new (l l' : List α) :
    l'.foldl (fun l a => if a ∈ l then l else l ++ [a]) l.eraseDups = (l ++ l').eraseDups := by
  induction l' generalizing l with
  | nil => simp
  | cons a l' ih =>
    have hstep : (if a ∈ l.eraseDups then l.eraseDups else l.eraseDups ++ [a]) =
        (l ++ [a]).eraseDups := by
      simp only [eraseDups_concat, List.mem_eraseDups]
    rw [List.foldl_cons, hstep, ih, List.append_assoc, List.singleton_append]

/-! ## Repetitions in parts of a list -/

theorem eraseDups_append_eraseDups (l l' : List α) :
    (l ++ l'.eraseDups).eraseDups = (l ++ l').eraseDups := by
  induction l' using List.reverseRecOn with
  | nil => rfl
  | append_singleton l' a ih =>
    by_cases ha : a ∈ l'
    · simp [eraseDups_concat, ← List.append_assoc, ha, ih]
    · simp [eraseDups_concat, ← List.append_assoc, ha, ih]

theorem eraseDups_eraseDups_append (l l' : List α) :
    (l.eraseDups ++ l').eraseDups = (l ++ l').eraseDups := by
  induction l' using List.reverseRecOn with
  | nil => simpa using eraseDups_append_eraseDups [] l
  | append_singleton l' a ih => simp [eraseDups_concat, ← List.append_assoc, ih]

/-- It does not matter whether repetitions are erased in the parts of a list before. -/
theorem eraseDups_flatMap_eraseDups {γ : Type} (g : γ → List α) (bs : List γ) :
    (bs.flatMap fun b => (g b).eraseDups).eraseDups = (bs.flatMap g).eraseDups := by
  induction bs with
  | nil => rfl
  | cons b bs ih =>
    rw [List.flatMap_cons, List.flatMap_cons, eraseDups_eraseDups_append,
      ← eraseDups_append_eraseDups, ih, eraseDups_append_eraseDups]

/-! ## Searches -/

/-- What the first match of a search is mapped to, when all matches are mapped to the same. -/
theorem find?_map_eq_some_iff {γ δ : Type} {p : γ → Prop} [DecidablePred p] {f : γ → δ} {l : List γ}
    {d : δ} (h : ∀ c ∈ l, ∀ c' ∈ l, p c → p c' → f c = f c') :
    (l.find? p).map f = some d ↔ ∃ c ∈ l, p c ∧ f c = d := by
  rw [Option.map_eq_some_iff]
  constructor
  · rintro ⟨c, hfind, rfl⟩
    exact ⟨c, List.mem_of_find?_eq_some hfind, by simpa using List.find?_some hfind, rfl⟩
  · rintro ⟨c, hc, hp, rfl⟩
    have hsome : (l.find? p).isSome := List.find?_isSome.2 ⟨c, hc, by simpa using hp⟩
    obtain ⟨c', hfind⟩ := Option.isSome_iff_exists.1 hsome
    have hp' : p c' := by simpa using List.find?_some hfind
    exact ⟨c', hfind, h c' (List.mem_of_find?_eq_some hfind) c hc hp' hp⟩

end ReductionTables
