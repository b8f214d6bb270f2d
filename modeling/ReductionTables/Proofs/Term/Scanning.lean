import ReductionTables.Proofs.Term.Recognition

/-!
# The words of a text

The words of a text can be listed without reading terms: each is a run of name characters, and it is
called when an opening parenthesis follows, blanks apart. In a text that is read as a term the called
words name its constructors and the others are its leaves, both in the order of the text.
-/

namespace ReductionTables

/-! ## Scanning -/

namespace Text

/-- An opening parenthesis comes next, blanks apart. -/
def opens (t : Text) : Bool := (t.dropWhile isBlank).head? = some '('

/-- The words that begin in a text, each with whether it is called. The text may begin inside a word. -/
def wordsAfter (inside : Bool) : Text → List (Text × Bool)
  | [] => []
  | c :: cs =>
    if isNameCharacter c then
      if inside then wordsAfter true cs
      else
        ((c :: cs).takeWhile isNameCharacter, opens ((c :: cs).dropWhile isNameCharacter)) ::
          wordsAfter true cs
    else wordsAfter false cs

def words (t : Text) : List (Text × Bool) := wordsAfter false t

/-- The words that are followed by an opening parenthesis. -/
def calledWords (t : Text) : List Text := (t.words.filter Prod.snd).map Prod.fst

/-- The called words without the ending that marks them as constructors. -/
def constructorNames (t : Text) : List Text := t.calledWords.filterMap constructorMark.isSuffixOf?

/-- The words that are not called. -/
def plainWords (t : Text) : List Text := (t.words.filter fun p => !p.2).map Prod.fst

variable {b t w : Text} {c : Char}

theorem Blanks.opens_append (hb : Blanks b) (t : Text) : opens (b ++ t) = opens t := by
  rw [opens, opens, List.dropWhile_append_of_pos hb]

theorem opens_cons (hc : ¬ isBlank c) (t : Text) : opens (c :: t) = decide (c = '(') := by
  simp [opens, hc]

theorem Gap.words_append (hb : Gap b) (t : Text) : words (b ++ t) = words t := by
  induction b with
  | nil => rfl
  | cons c b ih =>
    obtain ⟨hc, hb⟩ := List.forall_mem_cons.1 hb
    simpa [words, wordsAfter, hc] using ih hb

theorem Ends.wordsAfter_eq (ht : Ends t) (inside : Bool) : wordsAfter inside t = words t := by
  cases t with
  | nil => rfl
  | cons c t =>
    have hc : ¬ isNameCharacter c := ht c (by simp)
    simp [words, wordsAfter, hc]

theorem wordsAfter_append (hw : IsName w) (t : Text) : wordsAfter true (w ++ t) = wordsAfter true t := by
  induction w with
  | nil => rfl
  | cons c w ih =>
    obtain ⟨hc, hw⟩ := List.forall_mem_cons.1 hw
    simpa [wordsAfter, hc] using ih hw

theorem words_append (hne : w ≠ []) (hw : IsName w) (ht : Ends t) :
    words (w ++ t) = (w, opens t) :: words t := by
  have htake : t.takeWhile isNameCharacter = [] ∧ t.dropWhile isNameCharacter = t := by
    cases t with
    | nil => exact ⟨rfl, rfl⟩
    | cons c t =>
      have hc : ¬ isNameCharacter c := ht c (by simp)
      simp [hc]
  cases w with
  | nil => exact absurd rfl hne
  | cons c w =>
    have hwhole : ((c :: w) ++ t).takeWhile isNameCharacter = c :: w ∧
        ((c :: w) ++ t).dropWhile isNameCharacter = t := by
      rw [List.takeWhile_append_of_pos hw, List.dropWhile_append_of_pos hw, htake.1, htake.2]
      exact ⟨List.append_nil _, rfl⟩
    obtain ⟨hc, hw⟩ := List.forall_mem_cons.1 hw
    simp only [List.cons_append] at hwhole
    rw [List.cons_append, words, wordsAfter, if_pos hc, if_neg (by simp), hwhole.1, hwhole.2,
      wordsAfter_append hw, ht.wordsAfter_eq]

/-- A word before the text ends there and is not called. -/
def Closes (t : Text) : Prop := Ends t ∧ opens t = false

theorem closes_nil : Closes [] := ⟨ends_nil, rfl⟩

theorem Closes.blanks_append (hb : Blanks b) (ht : Closes t) : Closes (b ++ t) :=
  ⟨hb.gap.append_ends ht.1, (hb.opens_append t).trans ht.2⟩

theorem closes_cons (hname : ¬ isNameCharacter c) (hblank : ¬ isBlank c) (hopen : c ≠ '(') (t : Text) :
    Closes (c :: t) :=
  ⟨(gap_singleton hname).ends_append (by simp) t, by simp [opens_cons hblank, hopen]⟩

/-! ## Plain words -/

theorem plainWords_nil : plainWords [] = [] := rfl

theorem Gap.plainWords_append (hb : Gap b) (t : Text) : plainWords (b ++ t) = plainWords t := by
  rw [plainWords, hb.words_append, plainWords]

theorem plainWords_word (hne : w ≠ []) (hw : IsName w) (hb : Blanks b) : plainWords (w ++ b) = [w] := by
  have hcloses : Closes b := by simpa using closes_nil.blanks_append hb
  have hblanks : words b = [] := by simpa [words, wordsAfter] using hb.gap.words_append []
  simp [plainWords, words_append hne hw hcloses.1, hcloses.2, hblanks]

end Text

/-! ## Prints -/

namespace Term

mutual

/-- The words that a term is printed with, each with whether it is called. -/
def words : Term → List (Text × Bool)
  | leaf word => [(word, false)]
  | call name args => (name ++ constructorMark, true) :: wordsOfList args

def wordsOfList : List Term → List (Text × Bool)
  | [] => []
  | t :: ts => t.words ++ wordsOfList ts

end

mutual

theorem called_words : (t : Term) →
    (t.words.filter Prod.snd).map Prod.fst = t.heads.map (· ++ constructorMark)
  | leaf _ => rfl
  | call _ args => by simp [words, heads, called_wordsOfList args]

theorem called_wordsOfList : (ts : List Term) →
    ((wordsOfList ts).filter Prod.snd).map Prod.fst = (headsOfList ts).map (· ++ constructorMark)
  | [] => rfl
  | t :: ts => by simp [wordsOfList, headsOfList, called_words t, called_wordsOfList ts]

end

mutual

theorem plain_words : (t : Term) → (t.words.filter fun p => !p.2).map Prod.fst = t.leaves
  | leaf _ => rfl
  | call _ args => by simp [words, leaves, plain_wordsOfList args]

theorem plain_wordsOfList : (ts : List Term) →
    ((wordsOfList ts).filter fun p => !p.2).map Prod.fst = leavesOfList ts
  | [] => rfl
  | t :: ts => by simp [wordsOfList, leavesOfList, plain_words t, plain_wordsOfList ts]

end

mutual

theorem words_print : (t : Term) → t.WellFormed → ∀ {x z : Text}, Spaced t.tokens x →
    Text.Closes z → Text.words (x ++ z) = t.words ++ Text.words z
  | leaf w, ht, x, z, hx, hz => by
    obtain ⟨b, b', rfl, hb, hb'⟩ := Spaced.singleton_iff.1 hx
    have hend := hz.blanks_append hb'
    calc Text.words (b ++ w ++ b' ++ z) = Text.words (b ++ (w ++ (b' ++ z))) := by
          simp only [List.append_assoc]
      _ = (w, false) :: Text.words z := by
        rw [hb.gap.words_append, Text.words_append ht.1 ht.2.1 hend.1, hend.2, hb'.gap.words_append]
      _ = (leaf w).words ++ Text.words z := by simp [words]
  | call name args, ht, x, z, hx, hz => by
    obtain ⟨hname, -, -, hargs⟩ := ht
    obtain ⟨b, b₁, u, b₂, b₃, hb, hb₁, hu, hb₂, hb₃, rfl⟩ := spaced_call_iff.1 hx
    have hopen : Text.Gap (b₁ ++ ['(']) := hb₁.gap.append (Text.gap_singleton (by decide))
    have hclose : Text.Gap (b₂ ++ [')'] ++ b₃) :=
      (hb₂.gap.append (Text.gap_singleton (by decide))).append hb₃.gap
    have hcloses : Text.Closes (b₂ ++ [')'] ++ b₃ ++ z) := by
      have := (Text.closes_cons (c := ')') (by decide) (by decide) (by decide) (b₃ ++ z)).blanks_append hb₂
      simpa using this
    have hcalled : Text.opens (b₁ ++ ['('] ++ (u ++ (b₂ ++ [')'] ++ b₃ ++ z))) = true := by
      rw [List.append_assoc, hb₁.opens_append]
      exact Text.opens_cons (by decide) _
    calc Text.words (b ++ (name ++ constructorMark ++ (b₁ ++ ['('] ++ u ++ b₂) ++ [')']) ++ b₃ ++ z)
        = Text.words (b ++ ((name ++ constructorMark) ++ (b₁ ++ ['('] ++
            (u ++ (b₂ ++ [')'] ++ b₃ ++ z))))) := by simp only [List.append_assoc]
      _ = (name ++ constructorMark, true) :: (wordsOfList args ++ Text.words z) := by
        rw [hb.gap.words_append, Text.words_append (by simp [constructorMark])
          (hname.append isName_constructorMark) (hopen.ends_append (by simp) _), hcalled,
          hopen.words_append, words_printList args hargs hu hcloses, hclose.words_append]
      _ = (call name args).words ++ Text.words z := by simp [words]

theorem words_printList : (ts : List Term) → WellFormedList ts → ∀ {x z : Text},
    Spaced (tokensOfList ts) x → Text.Closes z →
    Text.words (x ++ z) = wordsOfList ts ++ Text.words z
  | [], _, x, z, hx, _ => by
    have hblanks : Text.Blanks x := Spaced.nil_iff.1 hx
    simp [wordsOfList, hblanks.gap.words_append]
  | [t], ht, x, z, hx, hz => by
    rw [tokensOfList] at hx
    simp [wordsOfList, words_print t ht.1 hx hz]
  | t :: u :: ts, ht, x, z, hx, hz => by
    rw [tokensOfList] at hx
    obtain ⟨x₁, x₂, rfl, hx₁, hx₂⟩ := hx.split
    obtain ⟨b, x₃, rfl, hb, hx₃⟩ := Spaced.cons_iff.1 hx₂
    have hcomma : Text.Gap (b ++ [',']) := hb.gap.append (Text.gap_singleton (by decide))
    have hcloses : Text.Closes (b ++ [','] ++ (x₃ ++ z)) := by
      have := (Text.closes_cons (c := ',') (by decide) (by decide) (by decide) (x₃ ++ z)).blanks_append hb
      simpa using this
    calc Text.words (x₁ ++ (b ++ [','] ++ x₃) ++ z)
        = Text.words (x₁ ++ (b ++ [','] ++ (x₃ ++ z))) := by simp only [List.append_assoc]
      _ = t.words ++ (wordsOfList (u :: ts) ++ Text.words z) := by
        rw [words_print t ht.1 hx₁ hcloses, hcomma.words_append, words_printList (u :: ts) ht.2 hx₃ hz]
      _ = wordsOfList (t :: u :: ts) ++ Text.words z := by simp [wordsOfList]

end

variable {s : Text} {t : Term}

theorem words_eq (h : ofText s = .ok t) : Text.words s = t.words := by
  obtain ⟨ht, hs⟩ := ofText_eq_ok_iff.1 h
  simpa [Text.words, Text.wordsAfter] using words_print t ht hs Text.closes_nil

/-- The constructors of a term are named in its text from left to right. -/
theorem calledWords_eq (h : ofText s = .ok t) :
    Text.calledWords s = t.heads.map (· ++ constructorMark) := by
  rw [Text.calledWords, words_eq h, called_words]

theorem constructorNames_eq (h : ofText s = .ok t) : Text.constructorNames s = t.heads := by
  have hname (n : Text) : constructorMark.isSuffixOf? (n ++ constructorMark) = some n :=
    List.isSuffixOf?_eq_some_iff_append_eq.2 rfl
  simp [Text.constructorNames, calledWords_eq h, List.filterMap_map, hname]

/-- So are its leaves. -/
theorem plainWords_eq (h : ofText s = .ok t) : Text.plainWords s = t.leaves := by
  rw [Text.plainWords, words_eq h, plain_words]

end Term

end ReductionTables
