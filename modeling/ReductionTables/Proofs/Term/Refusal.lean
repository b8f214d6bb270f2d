import ReductionTables.Proofs.Term.Reading
import ReductionTables.Proofs.Text.Decoding

/-!
# Where reading fails

A character is refused for what stands before it, so the reason names its place and does not depend on
what follows. The text before it has only ended too early: it is a whole term when nothing may follow,
and else it lacks a term or the end of the arguments. The message of the reason says the place and, when
it quotes a character, that character.
-/

namespace ReductionTables

namespace Reason

/-- The byte that a reason names. -/
def byte? : Reason → Option Nat
  | unexpected _ byte | notClosed _ byte | trailing byte => some byte
  | unexpectedEnd | unclosedEnd | noArguments _ | noConstructor _ | wrongArity _ _ => none

/-- The character that a reason quotes. -/
def quoted? : Reason → Option Char
  | unexpected c _ | notClosed c _ => some c
  | unexpectedEnd | unclosedEnd | noArguments _ | noConstructor _ | wrongArity _ _ | trailing _ => none

variable {reason : Reason} {front last : Text} {c : Char} {p q : Nat}

/-! ## Messages -/

/-- A text ends in a byte when its last word is the number and the words before say that it is one. -/
theorem at_byte_suffix_iff (hspace : ' ' ∉ last) :
    " at byte ".toList ++ Text.ofNat p <:+ front ++ ' ' :: last ↔
      " at byte".toList <:+ front ∧ Text.ofNat p = last := by
  constructor
  · rintro ⟨start, h⟩
    have hwords : (start ++ " at byte".toList) ++ ' ' :: Text.ofNat p = front ++ ' ' :: last := by
      rw [← h]
      simp
    obtain ⟨hfront, hlast⟩ := Text.append_cons_inj_of_right (Text.space_not_mem_ofNat p) hspace hwords
    exact ⟨⟨start, hfront⟩, hlast⟩
  · rintro ⟨⟨start, rfl⟩, rfl⟩
    exact ⟨start, by simp⟩

theorem at_byte_suffix_append (front : Text) (p : Nat) :
    " at byte ".toList ++ Text.ofNat p <:+ front ++ " at byte ".toList ++ Text.ofNat q ↔ q = p := by
  have hwords : front ++ " at byte ".toList ++ Text.ofNat q =
      (front ++ " at byte".toList) ++ ' ' :: Text.ofNat q := by simp
  rw [hwords, at_byte_suffix_iff (Text.space_not_mem_ofNat q), Text.ofNat_injective.eq_iff]
  exact ⟨fun h => h.2.symm, fun h => ⟨List.suffix_append _ _, h.symm⟩⟩

theorem not_at_byte_suffix (front : Text) {last : Text} (hspace : ' ' ∉ last)
    (hword : ∃ d ∈ last, ¬ d.isDigit) :
    ¬ " at byte ".toList ++ Text.ofNat p <:+ front ++ ' ' :: last := by
  rw [at_byte_suffix_iff hspace]
  rintro ⟨-, rfl⟩
  obtain ⟨d, hd, hdigit⟩ := hword
  exact hdigit (Text.isDigit_of_mem_ofNat hd)

/-- A message ends in the byte that the reason names, and in none when it names none. -/
theorem byte?_eq_some_iff :
    reason.byte? = some p ↔ " at byte ".toList ++ Text.ofNat p <:+ reason.message := by
  cases reason with
  | unexpected d byte =>
    rw [byte?, Option.some_inj]
    exact (at_byte_suffix_append ("unexpected `".toList ++ [d] ++ "`".toList) p).symm
  | notClosed d byte =>
    rw [byte?, Option.some_inj]
    exact (at_byte_suffix_append ("expected `)` but found `".toList ++ [d] ++ "`".toList) p).symm
  | trailing byte =>
    rw [byte?, Option.some_inj]
    exact (at_byte_suffix_append "trailing input" p).symm
  | unexpectedEnd =>
    exact iff_of_false (by simp [byte?])
      (not_at_byte_suffix "unexpected end of" (by decide) ⟨'i', by decide⟩)
  | unclosedEnd =>
    exact iff_of_false (by simp [byte?])
      (not_at_byte_suffix "expected `)` but input" (by decide) ⟨'e', by decide⟩)
  | noArguments word =>
    have hmessage : (noArguments word).message =
        ("constructor `".toList ++ word ++ "` has no".toList) ++ ' ' :: "arguments".toList := by
      rw [List.append_assoc]
      rfl
    have hspace : ' ' ∉ "arguments".toList := by decide
    have hword : ∃ d ∈ "arguments".toList, ¬ d.isDigit := ⟨'a', by decide, by decide⟩
    rw [hmessage]
    exact iff_of_false (by simp [byte?]) (not_at_byte_suffix _ hspace hword)
  | noConstructor word =>
    have hmessage : (noConstructor word).message =
        ("`".toList ++ word ++ "` is not a `::make`".toList) ++ ' ' :: "constructor".toList := by
      rw [List.append_assoc]
      rfl
    have hspace : ' ' ∉ "constructor".toList := by decide
    have hword : ∃ d ∈ "constructor".toList, ¬ d.isDigit := ⟨'c', by decide, by decide⟩
    rw [hmessage]
    exact iff_of_false (by simp [byte?]) (not_at_byte_suffix _ hspace hword)
  | wrongArity word count =>
    -- The message ends in a number, but the word before it is another.
    have hmessage : (wrongArity word count).message =
        ("`".toList ++ word ++ "` takes 2 arguments, got".toList) ++ ' ' :: Text.ofNat count :=
      calc (wrongArity word count).message = "`".toList ++ word ++
            ("` takes 2 arguments, got".toList ++ [' ']) ++ Text.ofNat count := rfl
        _ = _ := by simp only [List.append_assoc, List.singleton_append]
    rw [hmessage, at_byte_suffix_iff (Text.space_not_mem_ofNat count)]
    refine iff_of_false (by simp [byte?]) ?_
    rintro ⟨⟨start, h⟩, -⟩
    have hlast := congrArg List.getLast? h
    rw [List.getLast?_append_of_ne_nil _ (by simp), List.getLast?_append_of_ne_nil _ (by simp)] at hlast
    exact absurd hlast (by decide)

theorem eq_of_quotes {start : Text} {d : Char}
    (h : start ++ ("`".toList ++ [c] ++ "`".toList) = front ++ [d] ++ "`".toList) : c = d := by
  rw [← List.append_assoc, ← List.append_assoc] at h
  exact List.singleton_inj.1 (List.append_inj_right' (List.append_cancel_right h) rfl)

/-- Before the byte, a message quotes the character that the reason quotes, and none when it quotes
none. -/
theorem quoted?_eq_some_iff : reason.quoted? = some c ↔
    ∃ p, "`".toList ++ [c] ++ "`".toList ++ (" at byte ".toList ++ Text.ofNat p) <:+ reason.message := by
  constructor
  · intro h
    cases reason with
    | unexpected d byte =>
      obtain rfl := Option.some.inj h
      exact ⟨byte, "unexpected ".toList, rfl⟩
    | notClosed d byte =>
      obtain rfl := Option.some.inj h
      exact ⟨byte, "expected `)` but found ".toList, rfl⟩
    | unexpectedEnd | unclosedEnd | noArguments _ | noConstructor _ | wrongArity _ _ | trailing _ => cases h
  · rintro ⟨p, start, h⟩
    have hbyte : reason.byte? = some p := byte?_eq_some_iff.2 ((List.suffix_append _ _).trans ⟨start, h⟩)
    rw [← List.append_assoc] at h
    cases reason with
    | unexpected d byte =>
      obtain rfl := Option.some.inj hbyte
      have hquote : _ = "unexpected `".toList ++ [d] ++ "`".toList := List.append_cancel_right h
      exact congrArg some (eq_of_quotes hquote).symm
    | notClosed d byte =>
      obtain rfl := Option.some.inj hbyte
      have hquote : _ = "expected `)` but found `".toList ++ [d] ++ "`".toList :=
        List.append_cancel_right h
      exact congrArg some (eq_of_quotes hquote).symm
    | trailing byte =>
      -- What stands before the byte is no quote.
      obtain rfl := Option.some.inj hbyte
      have hquote : _ = "trailing input".toList := List.append_cancel_right h
      have hlast := congrArg List.getLast? hquote
      simp at hlast
    | unexpectedEnd | unclosedEnd | noArguments _ | noConstructor _ | wrongArity _ _ => cases hbyte

/-- What is said to be expected is the end of the arguments, never their beginning. -/
theorem eq_of_expected {d : Char}
    (h : "expected `".toList ++ [d] <+: reason.message) : d = ')' := by
  obtain ⟨rest, h⟩ := h
  -- The first character tells the reasons that expect something, and the eleventh is what they expect.
  have hfirst : some 'e' = reason.message.head? := congrArg List.head? h
  have hnext : some d = reason.message[10]? := congrArg (fun t => t[10]?) h
  cases reason with
  | notClosed _ _ | unclosedEnd => exact Option.some.inj hnext
  | unexpected _ _ | unexpectedEnd | noArguments _ | noConstructor _ | wrongArity _ _ | trailing _ =>
    exact absurd (Option.some.inj hfirst) (by decide)

end Reason

/-! ## Words and arguments -/

theorem Term.byte?_of_ofWord {w : Text} {e : Reason} (h : Term.ofWord w = .error e) : e.byte? = none := by
  rw [ofWord] at h
  split at h
  · obtain rfl := Except.error.inj h
    rfl
  · cases h

theorem Frame.byte?_of_ofWord {w : Text} {e : Reason} (h : Frame.ofWord w = .error e) :
    e.byte? = none := by
  rw [ofWord] at h
  split at h
  · cases h
  · obtain rfl := Except.error.inj h
    rfl

theorem Frame.byte?_of_close {f : Frame} {e : Reason} (h : f.close = .error e) : e.byte? = none := by
  rw [close] at h
  split at h
  · obtain rfl := Except.error.inj h
    rfl
  · cases h

namespace Reader

variable {r r' : Reader} {c : Char} {t w : Text} {s : Term} {e : Reason}

/-! ## Places -/

theorem afterTerm_byte (h : r.afterTerm s c = .ok r') : r'.byte = r.byte + c.utf8Size := by
  rw [afterTerm] at h
  split at h
  · obtain rfl := Except.ok.inj h
    rfl
  · split at h
    · cases h
    · split at h
      · obtain rfl := Except.ok.inj h
        rfl
      · split at h
        · obtain ⟨u, -, rfl⟩ := map_eq_ok.1 h
          rfl
        · cases h

theorem afterWord_byte (h : r.afterWord w c = .ok r') : r'.byte = r.byte + c.utf8Size := by
  rw [afterWord] at h
  split at h
  · obtain rfl := Except.ok.inj h
    rfl
  · split at h
    · obtain ⟨f, -, rfl⟩ := map_eq_ok.1 h
      rfl
    · obtain ⟨u, -, h⟩ := bind_eq_ok.1 h
      exact afterTerm_byte h

theorem feed_byte (h : r.feed c = .ok r') : r'.byte = r.byte + c.utf8Size := by
  rw [feed] at h
  split at h
  · split at h
    · obtain rfl := Except.ok.inj h
      rfl
    · split at h
      · obtain rfl := Except.ok.inj h
        rfl
      · cases h
  · split at h
    · obtain rfl := Except.ok.inj h
      rfl
    · exact afterWord_byte h
  · exact afterWord_byte h
  · exact afterTerm_byte h

/-- A reader counts the bytes of the text that it has passed. -/
theorem run_byte (h : r.run t = .ok r') : r'.byte = r.byte + (String.ofList t).utf8ByteSize := by
  induction t generalizing r with
  | nil =>
    obtain rfl := Except.ok.inj h
    simp
  | cons c t ih =>
    rw [run_cons] at h
    obtain ⟨r₁, hc, h⟩ := bind_eq_ok.1 h
    rw [ih h, feed_byte hc, String.ofList_cons, String.utf8ByteSize_append, String.utf8ByteSize_singleton,
      Nat.add_assoc]

/-! ## Refused characters -/

/-- What the reason to refuse a character says of its place and of the text before it. -/
def Refused (r : Reader) (c : Char) : Reason → Prop
  | .unexpected d byte => d = c ∧ byte = r.byte ∧ r.finish = .error .unexpectedEnd
  | .notClosed d byte => d = c ∧ byte = r.byte ∧ r.finish = .error .unclosedEnd
  | .trailing byte => byte = r.byte ∧ ∃ s, r.finish = .ok s
  | .unexpectedEnd | .unclosedEnd | .noArguments _ | .noConstructor _ | .wrongArity _ _ => True

theorem Refused.place {p : Nat} (h : r.Refused c e) (hp : e.byte? = some p) :
    p = r.byte ∧ ∀ d ∈ e.quoted?, d = c := by
  cases e with
  | unexpected d byte | notClosed d byte =>
    obtain ⟨rfl, rfl, -⟩ := h
    obtain rfl := Option.some.inj hp
    exact ⟨rfl, fun d hd => (Option.some.inj hd).symm⟩
  | trailing byte =>
    obtain ⟨rfl, -⟩ := h
    obtain rfl := Option.some.inj hp
    exact ⟨rfl, fun d hd => by cases hd⟩
  | unexpectedEnd | unclosedEnd | noArguments _ | noConstructor _ | wrongArity _ _ => cases hp

theorem refused_of_byte?_eq_none (h : e.byte? = none) : r.Refused c e := by
  cases e with
  | unexpected _ _ | notClosed _ _ | trailing _ => cases h
  | unexpectedEnd | unclosedEnd | noArguments _ | noConstructor _ | wrongArity _ _ => trivial

theorem afterTerm_refused (hfinish : r.finish = r.endAfter s) (h : r.afterTerm s c = .error e) :
    r.Refused c e := by
  rw [endAfter] at hfinish
  rw [afterTerm] at h
  split at h
  · cases h
  · split at h
    · rename_i hframes
      obtain rfl := Except.error.inj h
      exact ⟨rfl, s, by simpa [hframes] using hfinish⟩
    · rename_i f fs hframes
      split at h
      · cases h
      · split at h
        · exact refused_of_byte?_eq_none (Frame.byte?_of_close (map_eq_error.1 h))
        · obtain rfl := Except.error.inj h
          exact ⟨rfl, rfl, by simpa [hframes] using hfinish⟩

theorem afterWord_refused (hfinish : r.finish = (Term.ofWord w).bind r.endAfter)
    (h : r.afterWord w c = .error e) : r.Refused c e := by
  rw [afterWord] at h
  split at h
  · cases h
  · split at h
    · exact refused_of_byte?_eq_none (Frame.byte?_of_ofWord (map_eq_error.1 h))
    · rcases bind_eq_error.1 h with hleaf | ⟨s, hleaf, h⟩
      · exact refused_of_byte?_eq_none (Term.byte?_of_ofWord hleaf)
      · rw [hleaf] at hfinish
        exact afterTerm_refused hfinish h

theorem feed_refused (h : r.feed c = .error e) : r.Refused c e := by
  rw [feed] at h
  split at h
  · rename_i hphase
    split at h
    · cases h
    · split at h
      · cases h
      · obtain rfl := Except.error.inj h
        exact ⟨rfl, rfl, by rw [finish, hphase]⟩
  · rename_i w hphase
    split at h
    · cases h
    · exact afterWord_refused (by rw [finish, hphase]) h
  · rename_i w hphase
    exact afterWord_refused (by rw [finish, hphase]) h
  · rename_i s hphase
    exact afterTerm_refused (by rw [finish, hphase]) h

theorem byte?_of_endAfter (h : r.endAfter s = .error e) : e.byte? = none := by
  rw [endAfter] at h
  split at h
  · cases h
  · obtain rfl := Except.error.inj h
    rfl

/-- A text that is not refused at a character fails, if it does, for what it lacks as a whole. -/
theorem byte?_of_finish (h : r.finish = .error e) : e.byte? = none := by
  have hword : ∀ w, (Term.ofWord w).bind r.endAfter = .error e → e.byte? = none := by
    intro w hw
    rcases bind_eq_error.1 hw with hleaf | ⟨s, -, hend⟩
    · exact Term.byte?_of_ofWord hleaf
    · exact byte?_of_endAfter hend
  rw [finish] at h
  split at h
  · obtain rfl := Except.error.inj h
    rfl
  · exact hword _ h
  · exact hword _ h
  · exact byte?_of_endAfter h

end Reader

/-! ## Whole texts -/

namespace Term

variable {r : Reader} {t s : Text} {c : Char} {e : Reason} {p : Nat}

theorem ofText_of_run (h : Reader.initial.run t = .ok r) : ofText t = r.finish := by
  have hrun : ofText t = (Reader.initial.run t).bind Reader.finish := rfl
  rw [hrun, h]
  rfl

theorem ofText_of_refused (hs : Reader.initial.run s = .ok r) (hc : r.feed c = .error e) (u : Text) :
    ofText (s ++ c :: u) = .error e := by
  have hrun : Reader.initial.run (s ++ c :: u) = .error e :=
    foldlM_eq_error_iff.2 ⟨s, c, u, r, rfl, hs, hc⟩
  exact bind_eq_error.2 (Or.inl hrun)

theorem exists_refused (h : ofText t = .error e) (hp : e.byte? = some p) :
    ∃ s c u r, t = s ++ c :: u ∧ Reader.initial.run s = .ok r ∧ r.feed c = .error e := by
  rcases bind_eq_error.1 h with hrun | ⟨r, -, hfinish⟩
  · exact foldlM_eq_error_iff.1 hrun
  · rw [Reader.byte?_of_finish hfinish] at hp
    cases hp

/-- The byte that a reason names is the place of a character, the one that is quoted. -/
theorem exists_place (h : ofText t = .error e) (hp : e.byte? = some p) :
    ∃ s c u r, t = s ++ c :: u ∧ Reader.initial.run s = .ok r ∧ r.feed c = .error e ∧
      (String.ofList s).utf8ByteSize = p ∧ ∀ d ∈ e.quoted?, d = c := by
  obtain ⟨s, c, u, r, rfl, hs, hc⟩ := exists_refused h hp
  obtain ⟨rfl, hquoted⟩ := (Reader.feed_refused hc).place hp
  refine ⟨s, c, u, r, rfl, hs, hc, ?_, hquoted⟩
  rw [Reader.run_byte hs]
  exact (Nat.zero_add _).symm

/-- A message that ends in a byte tells the place of a character, and what it quotes before the byte is
that character. -/
theorem message_tells_place (h : ofText t = .error e)
    (hp : " at byte ".toList ++ Text.ofNat p <:+ e.message) :
    ∃ s c u, t = s ++ c :: u ∧ (String.ofList s).utf8ByteSize = p ∧
      ∀ d, "`".toList ++ [d] ++ "`".toList ++ (" at byte ".toList ++ Text.ofNat p) <:+ e.message →
        d = c := by
  obtain ⟨s, c, u, -, htext, -, -, hbyte, hquoted⟩ := exists_place h (Reason.byte?_eq_some_iff.2 hp)
  exact ⟨s, c, u, htext, hbyte, fun d hd => hquoted d (Reason.quoted?_eq_some_iff.2 ⟨p, hd⟩)⟩

/-- A reason that names a byte names the place of a character of the text, the one that it quotes, and
stays the same whatever follows the character. The text before it is a term when the reason is that
something follows, and else lacks what the reason asks for. No reason asks for an opening parenthesis. -/
theorem failures_stand_at_their_place :
    (∀ t e p, ofText t = .error e → e.byte? = some p →
      ∃ s c u, t = s ++ c :: u ∧ (String.ofList s).utf8ByteSize = p ∧ (∀ d ∈ e.quoted?, d = c) ∧
        (∀ u', ofText (s ++ c :: u') = .error e) ∧
        (e = .trailing p → (∃ x, ofText s = .ok x) ∧
          ∀ v, v <+: t → s.length < v.length → ∀ x, ofText v ≠ .ok x) ∧
        (e = .unexpected c p → ofText s = .error .unexpectedEnd) ∧
        (e = .notClosed c p → ofText s = .error .unclosedEnd)) ∧
      ∀ t e, ofText t = .error e → ∀ d, "expected `".toList ++ [d] <+: e.message → d = ')' := by
  refine ⟨fun t e p h hp => ?_, fun t e _ d => Reason.eq_of_expected⟩
  obtain ⟨s, c, u, r, rfl, hs, hc, hbyte, hquoted⟩ := exists_place h hp
  have hrefused := Reader.feed_refused hc
  have hother : ∀ u', ofText (s ++ c :: u') = .error e := ofText_of_refused hs hc
  refine ⟨s, c, u, rfl, hbyte, hquoted, hother, ?_, ?_, ?_⟩
  · rintro rfl
    obtain ⟨-, x, hx⟩ := hrefused
    refine ⟨⟨x, (ofText_of_run hs).trans hx⟩, fun v hv hlen x hx => ?_⟩
    obtain ⟨w, rfl⟩ := List.prefix_of_prefix_length_le (List.prefix_append s _) hv (Nat.le_of_lt hlen)
    obtain ⟨z, hz⟩ := (List.prefix_append_right_inj s).1 hv
    -- A longer prefix goes on with the character that is refused.
    cases w with
    | nil => simp at hlen
    | cons d w =>
      obtain rfl := (List.cons.inj hz).1
      rw [hother w] at hx
      cases hx
  · rintro rfl
    obtain ⟨-, -, hfinish⟩ := hrefused
    exact (ofText_of_run hs).trans hfinish
  · rintro rfl
    obtain ⟨-, -, hfinish⟩ := hrefused
    exact (ofText_of_run hs).trans hfinish

theorem second_argument_without_comma_is_refused :
    ofText "Max::make(x0\u3000y0)" = .error (.notClosed 'y' 15) ∧
      (∃ s u, "Max::make(x0\u3000y0)".toList = s ++ 'y' :: u ∧ (String.ofList s).utf8ByteSize = 15 ∧
        ofText s = .error .unclosedEnd ∧ ofText (s ++ 'y' :: "1, x0))") = .error (.notClosed 'y' 15)) ∧
      (∀ d, "expected `".toList ++ [d] <+: (Reason.notClosed 'y' 15).message → d = ')') ∧
      ofText "x0\u3000 (" = .error (.noConstructor "x0") ∧ ofText "x0\u3000y0" = .error (.trailing 5) ∧
      ∃ s c u, "x0\u3000y0".toList = s ++ c :: u ∧ (∃ x, ofText s = .ok x) ∧
        ofText (s ++ c :: " (") = .error (.trailing 5) := by
  have hclosed : ofText "Max::make(x0\u3000y0)" = .error (.notClosed 'y' 15) := by rfl
  have htrailing : ofText "x0\u3000y0" = .error (.trailing 5) := by rfl
  obtain ⟨s, c, u, hs, hbyte, hquoted, hlocal, -, -, hend⟩ := failures_stand_at_their_place.1 _ _ 15 hclosed rfl
  obtain rfl := hquoted 'y' rfl
  obtain ⟨s', c', u', hs', -, -, hlocal', hwhole, -⟩ := failures_stand_at_their_place.1 _ _ 5 htrailing rfl
  refine ⟨hclosed, ⟨s, u, hs, hbyte, hend rfl, hlocal _⟩, failures_stand_at_their_place.2 _ _ hclosed, rfl,
    htrailing, s', c', u', hs', (hwhole rfl).1, hlocal' _⟩

end Term

end ReductionTables
