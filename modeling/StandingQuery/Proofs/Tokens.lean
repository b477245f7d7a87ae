import StandingQuery.Proofs.Scanning
import StandingQuery.Text.Token

/-! Reading a text token by token.

What a text begins with is told by its first character, but for the kinds that share one: so a
lexeme of one kind is found by ruling out the kinds before it (`lexeme?_iri` and the lemmas
like it), and white space begins nothing (`lexeme?_blank`). A front of a text with its tokens
and what is left behind it is a relation of its own, `Reads`, which is built up token by token.
The tokens of a whole text are those of a front and those of what it leaves
(`Reads.tokenise`). -/
namespace StandingQuery.Text

variable {c : Char} {s w : List Char}

/-! ### What a character begins -/

/-- The characters that punctuation begins with. -/
def marks : List Char := "\x7b\x7d()[].;,*=/|^+<>!?&".toList

/-- The characters that tell the kind of what they begin, and signs of numbers. -/
def leaders : List Char := ['#', '<', '"', '+', '-', '?', '$']

theorem not_mem_of_class {p : Char → Bool} {l : List Char} (hc : p c = true)
    (h : (l.all fun d => !p d) = true) : c ∉ l := by
  intro hm
  simpa [hc] using List.all_eq_true.1 h c hm

theorem punct_of_not_mem (h : c ∉ marks) : punct (c :: s) = none := by
  have hmarks : marks = "\x7b\x7d()[].;,*=/|^+<>!?".toList ++ ['&'] := by decide
  unfold punct
  split
  case h_6 d _ _ _ _ _ _ heq =>
    obtain ⟨rfl, -⟩ := List.cons.inj heq
    rw [if_neg]
    intro hd
    exact h (hmarks ▸ List.mem_append_left _ (List.contains_iff_mem.1 hd))
  case h_7 heq => cases heq
  all_goals
    next heq =>
      obtain ⟨rfl, -⟩ := List.cons.inj heq
      exact absurd (by decide) h

/-- Other characters begin punctuation or words. -/
theorem lexeme?_of_not_mem (hc : c ∉ leaders) (hdigit : isDigit c = false) :
    lexeme? (c :: s) = ((punct (c :: s)).map (some .punct, ·)).or
      ((word (c :: s)).map (some .word, ·)) := by
  have hne : c ≠ '#' ∧ c ≠ '<' ∧ c ≠ '"' ∧ c ≠ '+' ∧ c ≠ '-' ∧ c ≠ '?' ∧ c ≠ '$' := by
    simpa [leaders] using hc
  simp [lexeme?, comment, iri, bracketed, literal, number, unsigned, run, variableName,
    Variable.isSigil, hdigit, hne]

theorem lexeme?_blank (h : isBlank c = true) : lexeme? (c :: s) = none := by
  have hdigit : isDigit c = false := inRanges_disjoint (by decide +kernel) h
  have hletter : isLetter c = false := by
    rw [isLetter_eq]
    exact inRanges_disjoint (by decide) h
  have hother : c ∉ "_:".toList := not_mem_of_class h (by decide)
  have hword : word (c :: s) = none := by
    have hne : c ≠ '_' ∧ c ≠ ':' := by simpa using hother
    simp [word, name, isNameStart, hletter, hne]
  rw [lexeme?_of_not_mem (not_mem_of_class h (by decide)) hdigit,
    punct_of_not_mem (not_mem_of_class h (by decide)), hword]
  rfl

/-! ### Lexemes by their kind -/

theorem bracketed_append {p : Char → Bool} (hw : ∀ c ∈ w, p c = true) (hclose : p '>' = false) :
    bracketed p ('<' :: w ++ '>' :: s) = some ('<' :: w ++ ['>']) := by
  have hstop : ∀ c ∈ ('>' :: s).head?, p c = false := by
    rintro _ ⟨rfl⟩
    exact hclose
  rw [List.cons_append, bracketed, dropWhile_append_of_stop hw hstop,
    takeWhile_append_of_stop hw hstop]
  rfl

theorem lexeme?_iri (hw : ∀ d ∈ w, isIriChar d = true) :
    lexeme? ('<' :: w ++ '>' :: s) = some (some .iri, '<' :: w ++ ['>']) := by
  have hiri : iri ('<' :: w ++ '>' :: s) = some ('<' :: w ++ ['>']) :=
    bracketed_append hw (by decide)
  simp only [List.cons_append] at hiri
  simp [lexeme?, comment, hiri]

theorem lexeme?_literal (h : literal s = some w) : lexeme? s = some (some .literal, w) := by
  obtain ⟨after, rfl⟩ : ∃ after, s = '"' :: after := by
    unfold literal at h
    split at h
    · exact ⟨_, rfl⟩
    · cases h
  simp [lexeme?, comment, iri, bracketed, h]

theorem run_append {p : Char → Bool} (hne : w ≠ []) (hw : ∀ d ∈ w, p d = true)
    (hs : ∀ d ∈ s.head?, p d = false) : run p (w ++ s) = some w := by
  rw [run, takeWhile_append_of_stop hw hs]
  cases w with
  | nil => exact absurd rfl hne
  | cons => rfl

theorem unsigned_integer (hne : w ≠ []) (hw : ∀ d ∈ w, isDigit d = true)
    (hs : ∀ d ∈ s.head?, isDigit d = false ∧ d ≠ '.') : unsigned (w ++ s) = some w := by
  have hfraction : fraction s = [] := by
    unfold fraction
    split
    · exact absurd rfl (hs '.' rfl).2
    · rfl
  simp [unsigned, run_append hne hw fun d hd => (hs d hd).1, hfraction]

theorem unsigned_decimal {places : List Char} (hne : w ≠ []) (hw : ∀ d ∈ w, isDigit d = true)
    (hplaces : places ≠ []) (hall : ∀ d ∈ places, isDigit d = true)
    (hs : ∀ d ∈ s.head?, isDigit d = false) :
    unsigned (w ++ '.' :: places ++ s) = some (w ++ '.' :: places) := by
  have hpoint : ∀ d ∈ ('.' :: (places ++ s)).head?, isDigit d = false := by
    rintro _ ⟨rfl⟩
    decide +kernel
  rw [List.append_assoc, List.cons_append, unsigned, run_append hne hw hpoint]
  simp [fraction, run_append hplaces hall hs]

theorem lexeme?_number {sign : List Char} (hsign : sign ∈ [[], ['+'], ['-']]) (hne : w ≠ [])
    (hw : ∀ d ∈ w.head?, isDigit d = true) (h : unsigned (w ++ s) = some w) :
    lexeme? (sign ++ w ++ s) = some (some .number, sign ++ w) := by
  obtain ⟨c, w, rfl⟩ := List.exists_cons_of_ne_nil hne
  have hother : c ∉ leaders := not_mem_of_class (hw c rfl) (by decide +kernel)
  have hc : c ≠ '#' ∧ c ≠ '<' ∧ c ≠ '"' ∧ c ≠ '+' ∧ c ≠ '-' ∧ c ≠ '?' ∧ c ≠ '$' := by
    simpa [leaders] using hother
  simp only [List.cons_append] at h
  obtain rfl | rfl | rfl : sign = [] ∨ sign = ['+'] ∨ sign = ['-'] := by simpa using hsign
  all_goals simp [lexeme?, comment, iri, bracketed, literal, number, h, hc]

theorem lexeme?_variable {sigil : Char} (hsigil : Variable.isSigil sigil = true)
    (hc : isNameStart c = true) (hw : ∀ d ∈ w, (isLetterOrDigit d || d == '_') = true)
    (hs : ∀ d ∈ s.head?, (isLetterOrDigit d || d == '_') = false) :
    lexeme? (sigil :: c :: w ++ s) = some (some .variable, sigil :: c :: w) := by
  have hname : variableName (sigil :: c :: (w ++ s)) = some (sigil :: c :: w) := by
    simp [variableName, hsigil, name, hc, takeWhile_append_of_stop hw hs]
  have hdigit : isDigit '?' = false ∧ isDigit '$' = false := by decide +kernel
  obtain rfl | rfl : sigil = '?' ∨ sigil = '$' := by simpa [Variable.isSigil] using hsigil
  all_goals simp [lexeme?, comment, iri, bracketed, literal, number, unsigned, run, hdigit, hname]

/-- Brackets and separators begin nothing but themselves. -/
theorem lexeme?_separator (hc : c ∈ "\x7b\x7d()[].;,*=".toList) :
    lexeme? (c :: s) = some (some .punct, [c]) := by
  have hother : c ∉ leaders := by
    intro h
    have hnone : ∀ d ∈ leaders, d ∉ "\x7b\x7d()[].;,*=".toList := by decide
    exact hnone c h hc
  have hdigit : isDigit c = false := by
    have hall : ("\x7b\x7d()[].;,*=".toList.all fun d => !isDigit d) = true := by decide +kernel
    simpa using List.all_eq_true.1 hall c hc
  have hpunct : punct (c :: s) = some [c] := by
    unfold punct
    split
    case h_6 d _ _ _ _ _ _ heq =>
      obtain ⟨rfl, rfl⟩ := List.cons.inj heq
      have hmem : "\x7b\x7d()[].;,*=/|^+<>!?".toList.contains c = true :=
        List.contains_iff_mem.2 (List.mem_append_left "/|^+<>!?".toList hc)
      rw [if_pos hmem]
    case h_7 heq => cases heq
    all_goals
      next heq =>
        obtain ⟨rfl, -⟩ := List.cons.inj heq
        exact absurd hc (by decide)
  rw [lexeme?_of_not_mem hother hdigit, hpunct]
  rfl

theorem lexeme?_notEqual : lexeme? ('!' :: '=' :: s) = some (some .punct, ['!', '=']) :=
  lexeme?_of_not_mem (by decide) (by decide +kernel)

/-- What begins a word begins nothing else. -/
theorem word_start (hc : (isNameStart c || c == ':') = true) :
    c ∉ leaders ∧ isDigit c = false ∧ c ∉ marks := by
  rcases Bool.or_eq_true_iff.1 hc with hstart | hcolon
  · rcases Bool.or_eq_true_iff.1 hstart with hletter | hline
    · have hdigit : isDigit c = false := by
        rw [isLetter_eq] at hletter
        exact inRanges_disjoint (by decide +kernel) hletter
      exact ⟨not_mem_of_class hletter (by decide), hdigit, not_mem_of_class hletter (by decide)⟩
    · obtain rfl := eq_of_beq hline
      decide +kernel
  · obtain rfl := eq_of_beq hcolon
    decide +kernel

theorem lexeme?_word (hc : (isNameStart c || c == ':') = true)
    (hw : ∀ d ∈ w, (isNameChar d || d == ':') = true)
    (hs : ∀ d ∈ s.head?, (isNameChar d || d == ':') = false) :
    lexeme? (c :: w ++ s) = some (some .word, c :: w) := by
  have hword : word (c :: (w ++ s)) = some (c :: w) := by
    simp [word, name, hc, takeWhile_append_of_stop hw hs]
  obtain ⟨hleader, hdigit, hmark⟩ := word_start hc
  rw [List.cons_append, lexeme?_of_not_mem hleader hdigit, punct_of_not_mem hmark, hword]
  rfl

/-! ### No lexeme is empty -/

theorem run_ne_nil (p : Char → Bool) : run p s ≠ some [] := by
  unfold run
  split <;> simp_all

theorem name_ne_nil (p q : Char → Bool) : name p q s ≠ some [] := by
  unfold name
  split <;> try split
  all_goals simp

theorem unsigned_ne_nil : unsigned s ≠ some [] := by
  intro h
  obtain ⟨digits, hdigits, hnil⟩ := Option.map_eq_some_iff.1 h
  exact run_ne_nil isDigit ((List.append_eq_nil_iff.1 hnil).1 ▸ hdigits)

theorem number_ne_nil : number s ≠ some [] := by
  unfold number
  split <;> simp [unsigned_ne_nil]

theorem bracketed_ne_nil (p : Char → Bool) : bracketed p s ≠ some [] := by
  unfold bracketed
  split <;> try split
  all_goals simp

theorem variableName_ne_nil : variableName s ≠ some [] := by
  unfold variableName
  split <;> try split
  all_goals simp

theorem punct_ne_nil : punct s ≠ some [] := by
  unfold punct
  split <;> try split
  all_goals simp

/-- No lexeme is empty. -/
theorem lexeme?_ne_nil {kind : Option TokenKind} : lexeme? s ≠ some (kind, []) := by
  have hcomment : comment s ≠ some [] := by
    unfold comment
    split <;> simp
  have hliteral : literal s ≠ some [] := by
    unfold literal
    split <;> simp
  simp [lexeme?, Option.or_eq_some_iff, hcomment, hliteral, iri, bracketed_ne_nil, number_ne_nil,
    variableName_ne_nil, punct_ne_nil, word, name_ne_nil]

/-! ### Texts read in part -/

/-- The tokens at the front of a text, and what is left of it. -/
inductive Reads : List Char → List Token → List Char → Prop where
  | here {s : List Char} : Reads s [] s
  | blank {c : Char} {s rest : List Char} {ts : List Token} :
      isBlank c = true → Reads s ts rest → Reads (c :: s) ts rest
  | comment {text s rest : List Char} {ts : List Token} :
      lexeme? (text ++ s) = some (none, text) → Reads s ts rest → Reads (text ++ s) ts rest
  | token {t : Token} {s rest : List Char} {ts : List Token} :
      lexeme? (t.text.toList ++ s) = some (some t.kind, t.text.toList) → Reads s ts rest →
      Reads (t.text.toList ++ s) (t :: ts) rest

theorem Reads.one {kind : TokenKind} {rest : List Char}
    (hl : lexeme? (w ++ rest) = some (some kind, w)) : Reads (w ++ rest) [⟨kind, .ofList w⟩] rest := by
  simpa using Reads.token (t := ⟨kind, .ofList w⟩) (by simpa using hl) .here

theorem Reads.trans {a b d : List Char} {ts us : List Token} (h : Reads a ts b)
    (h' : Reads b us d) : Reads a (ts ++ us) d := by
  induction h with
  | here => exact h'
  | blank hc _ ih => exact .blank hc (ih h')
  | comment hl _ ih => exact .comment hl (ih h')
  | token hl _ ih => exact .token hl (ih h')

/-! ### The tokens of a text -/

theorem scan_skip (n : Nat) (gap : List Char) : scan n gap s = scan 0 gap (s.drop n) := by
  induction n generalizing s with
  | zero => rfl
  | succ n ih =>
    cases s with
    | nil => rfl
    | cons c s => rw [scan, ih, List.drop_succ_cons]

theorem checkGap_append {g : List Char} (hw : White w) : checkGap (w ++ g) = checkGap g := by
  unfold checkGap
  rw [trim_append hw]

/-- White space in front of what is scanned is skipped. -/
theorem scan_white {g : List Char} (hw : White w) : scan 0 (w ++ g) s = scan 0 g s := by
  induction s generalizing g with
  | nil => rw [scan, scan, checkGap_append hw]
  | cons c s ih =>
    rw [scan, scan]
    cases lexeme? (c :: s) with
    | none => simpa using ih (g := g ++ [c])
    | some found => simp only [checkGap_append hw]

theorem checkGap_nil : checkGap [] = .ok () := rfl

theorem scan_blank (hc : isBlank c = true) : scan 0 [] (c :: s) = scan 0 [] s := by
  rw [scan, lexeme?_blank hc]
  exact scan_white (w := [c]) (g := []) (by simpa [White] using hc)

theorem scan_lexeme {kind : Option TokenKind} (h : lexeme? (w ++ s) = some (kind, w)) :
    scan 0 [] (w ++ s) =
      (scan 0 [] s).map ((kind.map fun k => (⟨k, .ofList w⟩ : Token)).toList ++ ·) := by
  cases w with
  | nil => exact absurd h lexeme?_ne_nil
  | cons c w =>
    rw [List.cons_append] at h ⊢
    rw [scan, h]
    have hskip : scan ((c :: w).length - 1) [] (w ++ s) = scan 0 [] s := by
      rw [scan_skip, List.length_cons, Nat.add_sub_cancel, List.drop_left]
    simp only [checkGap_nil, hskip]
    cases kind <;> cases scan 0 [] s <;> rfl

/-- What is left of a text gives the tokens behind those that have been read. -/
theorem Reads.scan_eq {rest : List Char} {ts : List Token} (h : Reads s ts rest) :
    scan 0 [] s = (scan 0 [] rest).map (ts ++ ·) := by
  induction h with
  | here =>
    cases scan 0 [] _ <;> rfl
  | blank hc _ ih => rw [scan_blank hc, ih]
  | comment hl _ ih =>
    rw [scan_lexeme hl, ih]
    cases scan 0 [] _ <;> rfl
  | token hl _ ih =>
    rw [scan_lexeme hl, ih, String.ofList_toList]
    cases scan 0 [] _ <;> rfl

theorem Reads.tokenise {text : String} {rest : List Char} {ts us : List Token}
    (h : Reads text.toList ts rest) (hus : Text.tokenise (.ofList rest) = .ok us) :
    Text.tokenise text = .ok (ts ++ us) := by
  rw [Text.tokenise, String.toList_ofList] at hus
  rw [Text.tokenise, h.scan_eq, hus, Except.map]

end StandingQuery.Text
