import ReductionTables.Proofs.Text.Characters

/-!
# The grammar of terms

A term is printed as its tokens with blanks around them: words, parentheses and commas. Terms that
can be printed have words of the right characters at their leaves and constructors, and each
constructor has as many arguments as its name asks for.
-/

namespace ReductionTables

/-! ## Tokens -/

/-- The text is the tokens in order, with blanks before each and after the last. -/
inductive Spaced : List Text → Text → Prop where
  | nil {b : Text} (hb : Text.Blanks b) : Spaced [] b
  | cons {b w t : Text} {ws : List Text} (hb : Text.Blanks b) (h : Spaced ws t) :
    Spaced (w :: ws) (b ++ w ++ t)

namespace Spaced

variable {ws vs : List Text} {b t u w : Text}

theorem nil_iff : Spaced [] t ↔ Text.Blanks t := by
  constructor
  · intro h
    cases h with
    | nil hb => exact hb
  · exact .nil

theorem cons_iff : Spaced (w :: ws) t ↔ ∃ b u, t = b ++ w ++ u ∧ Text.Blanks b ∧ Spaced ws u := by
  constructor
  · intro h
    cases h with
    | cons hb h => exact ⟨_, _, rfl, hb, h⟩
  · rintro ⟨b, u, rfl, hb, h⟩
    exact .cons hb h

theorem singleton_iff :
    Spaced [w] t ↔ ∃ b b', t = b ++ w ++ b' ∧ Text.Blanks b ∧ Text.Blanks b' := by
  simp only [cons_iff, nil_iff]

theorem blanks_append (hb : Text.Blanks b) (h : Spaced ws t) : Spaced ws (b ++ t) := by
  cases h with
  | nil hb' => exact .nil (hb.append hb')
  | cons hb' h =>
    rw [← List.append_assoc, ← List.append_assoc]
    exact .cons (hb.append hb') h

theorem append (ht : Spaced ws t) (hu : Spaced vs u) : Spaced (ws ++ vs) (t ++ u) := by
  induction ht with
  | nil hb => exact hu.blanks_append hb
  | cons hb _ ih =>
    rw [List.append_assoc, List.cons_append]
    exact .cons hb ih

theorem split (h : Spaced (ws ++ vs) t) : ∃ t₁ t₂, t = t₁ ++ t₂ ∧ Spaced ws t₁ ∧ Spaced vs t₂ := by
  induction ws generalizing t with
  | nil => exact ⟨[], t, rfl, .nil Text.blanks_nil, h⟩
  | cons w ws ih =>
    obtain ⟨b, u, rfl, hb, hu⟩ := cons_iff.1 h
    obtain ⟨t₁, t₂, rfl, h₁, h₂⟩ := ih hu
    exact ⟨b ++ w ++ t₁, t₂, (List.append_assoc _ _ _).symm, .cons hb h₁, h₂⟩

theorem append_blanks (h : Spaced ws t) (hb : Text.Blanks b) : Spaced ws (t ++ b) := by
  simpa using h.append (.nil hb)

theorem append_blank {c : Char} (h : Spaced ws t) (hc : Text.isBlank c) : Spaced ws (t ++ [c]) :=
  h.append_blanks (Text.blanks_singleton hc)

theorem append_token (h : Spaced ws t) (w : Text) : Spaced (ws ++ [w]) (t ++ w) := by
  have hw : Spaced [w] w := singleton_iff.2 ⟨[], [], by simp, Text.blanks_nil, Text.blanks_nil⟩
  exact h.append hw

end Spaced

/-! ## Terms -/

namespace Term

mutual

/-- Leaves are words without colons, constructors have names, and they have at least one argument
and exactly two when they belong to an operator. -/
def WellFormed : Term → Prop
  | leaf word => word ≠ [] ∧ IsName word ∧ ':' ∉ word
  | call name args =>
    IsName name ∧ args ≠ [] ∧ ((Operator.ofName? name).isSome → args.length = 2) ∧
      WellFormedList args

def WellFormedList : List Term → Prop
  | [] => True
  | t :: ts => t.WellFormed ∧ WellFormedList ts

end

mutual

/-- The tokens that a term is printed with. -/
def tokens : Term → List Text
  | leaf word => [word]
  | call name args => (name ++ constructorMark) :: ['('] :: (tokensOfList args ++ [[')']])

/-- The tokens of the terms, with commas between them. -/
def tokensOfList : List Term → List Text
  | [] => []
  | [t] => t.tokens
  | t :: u :: ts => t.tokens ++ [','] :: tokensOfList (u :: ts)

end

theorem spaced_call {b t b' : Text} (name : Text) {args : List Term} (hb : Text.Blanks b)
    (ht : Spaced (tokensOfList args) t) (hb' : Text.Blanks b') :
    Spaced (call name args).tokens (name ++ constructorMark ++ (b ++ ['('] ++ t ++ b') ++ [')']) := by
  have hclose : Spaced [[')']] (b' ++ [')']) :=
    Spaced.singleton_iff.2 ⟨b', [], by simp, hb', Text.blanks_nil⟩
  have h : Spaced (call name args).tokens
      ([] ++ (name ++ constructorMark) ++ (b ++ ['('] ++ (t ++ (b' ++ [')'])))) :=
    .cons Text.blanks_nil (.cons hb (ht.append hclose))
  simpa using h

theorem spaced_call_iff {name t : Text} {args : List Term} :
    Spaced (call name args).tokens t ↔ ∃ b b₁ u b₂ b₃, Text.Blanks b ∧ Text.Blanks b₁ ∧
      Spaced (tokensOfList args) u ∧ Text.Blanks b₂ ∧ Text.Blanks b₃ ∧
      t = b ++ (name ++ constructorMark ++ (b₁ ++ ['('] ++ u ++ b₂) ++ [')']) ++ b₃ := by
  constructor
  · intro h
    obtain ⟨b, t₁, rfl, hb, ht₁⟩ := Spaced.cons_iff.1 h
    obtain ⟨b₁, t₂, rfl, hb₁, ht₂⟩ := Spaced.cons_iff.1 ht₁
    obtain ⟨u, t₃, rfl, hu, ht₃⟩ := ht₂.split
    obtain ⟨b₂, b₃, rfl, hb₂, hb₃⟩ := Spaced.singleton_iff.1 ht₃
    exact ⟨b, b₁, u, b₂, b₃, hb, hb₁, hu, hb₂, hb₃, by simp⟩
  · rintro ⟨b, b₁, u, b₂, b₃, hb, hb₁, hu, hb₂, hb₃, rfl⟩
    exact ((spaced_call name hb₁ hu hb₂).blanks_append hb).append_blanks hb₃

theorem wellFormedList_iff {ts : List Term} : WellFormedList ts ↔ ∀ t ∈ ts, t.WellFormed := by
  induction ts with
  | nil => simp [WellFormedList]
  | cons t ts ih => simp [WellFormedList, ih]

mutual

theorem wellFormed_of_mem_leaves {w : Text} : (t : Term) → t.WellFormed → w ∈ t.leaves →
    (leaf w).WellFormed
  | leaf v, ht, hw => by
    rw [leaves] at hw
    rwa [List.mem_singleton.1 hw]
  | call _ args, ht, hw => wellFormed_of_mem_leavesOfList args ht.2.2.2 hw

theorem wellFormed_of_mem_leavesOfList {w : Text} : (ts : List Term) → WellFormedList ts →
    w ∈ leavesOfList ts → (leaf w).WellFormed
  | [], _, hw => absurd hw List.not_mem_nil
  | t :: ts, ht, hw => by
    rw [leavesOfList] at hw
    rcases List.mem_append.1 hw with hw | hw
    · exact wellFormed_of_mem_leaves t ht.1 hw
    · exact wellFormed_of_mem_leavesOfList ts ht.2 hw

end

theorem tokensOfList_cons {t : Term} {ts : List Term} (h : ts ≠ []) :
    tokensOfList (t :: ts) = t.tokens ++ [','] :: tokensOfList ts := by
  cases ts with
  | nil => exact absurd rfl h
  | cons u ts => rw [tokensOfList]

theorem tokensOfList_append (ts : List Term) (t : Term) :
    tokensOfList (ts ++ [t]) = ts.flatMap (fun t => t.tokens ++ [[',']]) ++ t.tokens := by
  induction ts with
  | nil => simp [tokensOfList]
  | cons u ts ih =>
    rw [List.cons_append, tokensOfList_cons (by simp), ih]
    simp

end Term

end ReductionTables
