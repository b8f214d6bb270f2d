import ReductionTables.Proofs.Text.SinglePass
import ReductionTables.Proofs.Verdict.Exchange

/-!
# How far the exchange reaches

The exchange takes the underscore from `_x0`, because the placeholder is written so, and a text does not
get a character back. In every other text it exchanges the two names and nothing else. The exchange
makes `_x0` of `_y0`, so it undoes itself in the texts that hold neither.
-/

namespace ReductionTables

variable {t u : Text} {r : Rule}

/-- Each of the two variables for the other. -/
def namesExchanged : List Rule := [⟨"x0", "y0"⟩, ⟨"y0", "x0"⟩]

theorem namesExchanged_unambiguous : Rule.Unambiguous namesExchanged := ⟨by decide, by decide⟩

theorem namesExchanged_symm (h : Rewrites namesExchanged t u) : Rewrites namesExchanged u t :=
  h.symm (by decide) (by decide)

theorem length_eq_of_namesExchanged (h : Rewrites namesExchanged t u) : u.length = t.length := by
  have hle : ∀ r ∈ namesExchanged, r.new.length ≤ r.old.length := by decide
  exact Nat.le_antisymm (h.length_le hle) ((namesExchanged_symm h).length_le hle)

/-- An underscore before one of the variables comes to stand before the other one. -/
theorem marked_of_marked (h : Rewrites namesExchanged t u) (hr : r ∈ namesExchanged)
    (hocc : '_' :: r.old <:+: t) : '_' :: r.new <:+: u := by
  have hclear : ∀ q ∈ namesExchanged, ∀ r ∈ namesExchanged, Text.Avoids q.old ('_' :: r.old) := by
    decide
  induction h with
  | nil => cases List.infix_nil.1 hocc
  | hit hq _ ih =>
    exact (ih ((hclear _ hq r hr).of_append hocc)).trans (List.suffix_append _ _).isInfix
  | miss _ h ih =>
    rcases List.infix_cons_iff.1 hocc with hbegin | hocc
    · obtain ⟨rfl, s, rfl⟩ := List.cons_prefix_cons.1 hbegin
      obtain ⟨u, rfl, -⟩ := h.of_hit namesExchanged_unambiguous hr
      exact (List.prefix_append ('_' :: r.new) u).isInfix
    · exact (ih hocc).trans (List.suffix_cons _ _).isInfix

/-! ## Texts with a marked variable -/

theorem length_exchange_le (t : Text) : (exchange t).length ≤ t.length :=
  (rewrites_exchange t).length_le (by decide)

theorem length_lt_of_marked (h : Rewrites exchangePass t u) (hocc : "_x0".toList <:+: t) :
    u.length < t.length := by
  have hle : ∀ r ∈ exchangePass, r.new.length ≤ r.old.length := by decide
  have hshorter : ∀ r ∈ exchangePass, r.new.length < r.old.length ∨ Text.Avoids r.old "_x0" := by
    decide
  induction h with
  | nil => cases List.infix_nil.1 hocc
  | hit hr h ih =>
    simp only [List.length_append]
    rcases hshorter _ hr with hlt | hclear
    · exact Nat.add_lt_add_of_lt_of_le hlt (h.length_le hle)
    · exact Nat.add_lt_add_of_le_of_lt (hle _ hr) (ih (hclear.of_append hocc))
  | miss hc _ ih =>
    rcases List.infix_cons_iff.1 hocc with hbegin | hocc
    · exact absurd hbegin (hc ⟨"_x0", "x0"⟩ (by decide))
    · exact Nat.succ_lt_succ (ih hocc)

theorem length_exchange_lt (hocc : "_x0".toList <:+: t) : (exchange t).length < t.length :=
  length_lt_of_marked (rewrites_exchange t) hocc

/-! ## Texts without -/

theorem rewrites_of_unmarked (h : ¬ "_x0".toList <:+: t) : Rewrites namesExchanged t (exchange t) :=
  (rewrites_exchange t).of_cons_absent h

theorem exchange_eq_applyAtOnce_iff :
    exchange t = Rule.applyAtOnce namesExchanged t ↔ ¬ "_x0".toList <:+: t := by
  constructor
  · intro h hocc
    have hpass := Rewrites.applyAtOnce namesExchanged_unambiguous.old_ne_nil t
    have hlt := length_exchange_lt hocc
    rw [h, length_eq_of_namesExchanged hpass] at hlt
    exact Nat.lt_irrefl _ hlt
  · intro h
    exact (Rewrites.applyAtOnce_eq namesExchanged_unambiguous (rewrites_of_unmarked h)).symm

theorem exchange_exchange_eq_self_iff :
    exchange (exchange t) = t ↔ ¬ "_x0".toList <:+: t ∧ ¬ "_y0".toList <:+: t := by
  constructor
  · intro h
    have hle := length_exchange_le (exchange t)
    rw [h] at hle
    have hx : ¬ "_x0".toList <:+: t := fun hocc => Nat.not_le.2 (length_exchange_lt hocc) hle
    refine ⟨hx, fun hocc => ?_⟩
    have hmarked : "_x0".toList <:+: exchange t :=
      marked_of_marked (r := ⟨"y0", "x0"⟩) (rewrites_of_unmarked hx) (by decide) hocc
    have hlt := length_exchange_lt hmarked
    rw [h] at hlt
    exact Nat.not_le.2 hlt (length_exchange_le t)
  · rintro ⟨hx, hy⟩
    have hback := namesExchanged_symm (rewrites_of_unmarked hx)
    have hx' : ¬ "_x0".toList <:+: exchange t := fun hocc =>
      hy (marked_of_marked (r := ⟨"x0", "y0"⟩) hback (by decide) hocc)
    exact Rewrites.unique namesExchanged_unambiguous (rewrites_of_unmarked hx') hback

/-- The exchange is that of all names of the two variables at once exactly in the texts without `_x0`,
and it undoes itself exactly in those that hold neither `_x0` nor `_y0`. -/
theorem exchange_reaches_unmarked_names (t : Text) :
    (exchange t = Rule.applyAtOnce namesExchanged t ↔ ¬ "_x0".toList <:+: t) ∧
      (exchange (exchange t) = t ↔ ¬ "_x0".toList <:+: t ∧ ¬ "_y0".toList <:+: t) :=
  ⟨exchange_eq_applyAtOnce_iff, exchange_exchange_eq_self_iff⟩

end ReductionTables
