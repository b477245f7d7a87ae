import StandingQuery.Proofs.Literal

/-! How the tokens of each kind are spelled.

Whatever stands behind it, what is taken as a token is spelled as its kind asks
(`spelled_of_lexeme?`). What is spelled so is taken as that kind wherever white space or the end
of the text follows (`Spelled.lexeme?`), so a token found in one place is found in another. -/
namespace StandingQuery.Text

variable {c : Char} {s v w : List Char} {k : TokenKind}

/-- The marks of one character. -/
def singles : List Char := "\x7b\x7d()[].;,*=/|^+<>!?".toList

/-- The marks of two. -/
def pairs : List (List Char) := ["!=".toList, "<=".toList, ">=".toList, "&&".toList, "||".toList]

/-- How the tokens of a kind are spelled. -/
inductive Spelled : TokenKind → List Char → Prop where
  | iri {body : List Char} : (∀ c ∈ body, isIriChar c = true) → Spelled .iri ('<' :: body ++ ['>'])
  | literal (l : Literal) : Spelled .literal l.text
  | integer {sign digits : List Char} : sign ∈ [[], ['+'], ['-']] → digits ≠ [] →
      (∀ c ∈ digits, isDigit c = true) → Spelled .number (sign ++ digits)
  | decimal {sign digits places : List Char} : sign ∈ [[], ['+'], ['-']] → digits ≠ [] →
      (∀ c ∈ digits, isDigit c = true) → places ≠ [] → (∀ c ∈ places, isDigit c = true) →
      Spelled .number (sign ++ digits ++ '.' :: places)
  | var {sigil c : Char} {w : List Char} : Variable.isSigil sigil = true →
      isNameStart c = true → (∀ d ∈ w, (isLetterOrDigit d || d == '_') = true) →
      Spelled .variable (sigil :: c :: w)
  | single {c : Char} : c ∈ singles → Spelled .punct [c]
  | pair {w : List Char} : w ∈ pairs → Spelled .punct w
  | word {c : Char} {w : List Char} : (isNameStart c || c == ':') = true →
      (∀ d ∈ w, (isNameChar d || d == ':') = true) → Spelled .word (c :: w)

/-! ### What is taken is spelled as its kind asks -/

theorem eq_of_quotedBody (h : quotedBody s = some w) : Quoted (· ≠ '\n') w ∧ w <+: s := by
  fun_induction quotedBody s generalizing w with
  | case1 s =>
    obtain rfl := Option.some.inj h
    exact ⟨.close, by simp⟩
  | case2 => cases h
  | case3 c s hline ih =>
    obtain ⟨body, hbody, rfl⟩ := Option.map_eq_some_iff.1 h
    obtain ⟨hquoted, hfront⟩ := ih hbody
    exact ⟨.escape hline hquoted, by simpa using hfront⟩
  | case4 => cases h
  | case5 c s hquote hescape hplain ih =>
    obtain ⟨body, hbody, rfl⟩ := Option.map_eq_some_iff.1 h
    obtain ⟨hquoted, hfront⟩ := ih hbody
    rw [not_or] at hplain
    exact ⟨.plain hquote hplain.2 hplain.1 hquoted, by simpa using hfront⟩
  | case6 => cases h

theorem eq_of_literal (h : literal s = some w) : ∃ l : Literal, w = l.text ∧ w <+: s := by
  unfold literal at h
  split at h
  · next s =>
    obtain ⟨body, hbody, rfl⟩ := Option.map_eq_some_iff.1 h
    obtain ⟨hquoted, after, rfl⟩ := eq_of_quotedBody hbody
    rw [List.drop_left]
    obtain ⟨x, hvalid, heq, hfront⟩ := literalSuffix_valid after
    rw [heq]
    exact ⟨⟨body, x, hquoted, hvalid⟩, rfl, by simpa using hfront⟩
  · cases h

theorem eq_of_run {p : Char → Bool} (h : run p s = some w) :
    w ≠ [] ∧ (∀ c ∈ w, p c = true) ∧ w <+: s := by
  unfold run at h
  split at h
  · cases h
  · next hne =>
    obtain rfl := Option.some.inj h
    exact ⟨hne, fun c hc => List.mem_takeWhile_imp hc, List.takeWhile_prefix p⟩

theorem eq_of_name {p q : Char → Bool} (h : name p q s = some w) :
    ∃ c r, w = c :: r ∧ p c = true ∧ (∀ d ∈ r, q d = true) ∧ w <+: s := by
  unfold name at h
  split at h
  · next c s =>
    split at h
    · next hc =>
      obtain rfl := Option.some.inj h
      exact ⟨c, s.takeWhile q, rfl, hc, fun d hd => List.mem_takeWhile_imp hd, by
        simpa using List.takeWhile_prefix q⟩
    · cases h
  · cases h

theorem eq_of_unsigned (h : unsigned s = some w) :
    ∃ digits, digits ≠ [] ∧ (∀ c ∈ digits, isDigit c = true) ∧ w <+: s ∧ (w = digits ∨
      ∃ places, places ≠ [] ∧ (∀ c ∈ places, isDigit c = true) ∧ w = digits ++ '.' :: places) := by
  obtain ⟨digits, hrun, rfl⟩ := Option.map_eq_some_iff.1 h
  obtain ⟨hne, hdigits, after, rfl⟩ := eq_of_run hrun
  refine ⟨digits, hne, hdigits, ?_⟩
  rw [List.drop_left, List.prefix_append_right_inj]
  unfold fraction
  split
  · next s =>
    cases hplaces : run isDigit s with
    | none => simp
    | some places =>
      obtain ⟨hne, hall, hfront⟩ := eq_of_run hplaces
      exact ⟨by simpa using hfront, .inr ⟨places, hne, hall, rfl⟩⟩
  · simp

/-- A sign belongs to the number behind it. -/
theorem spelled_signed {sign : List Char} (hsign : sign ∈ [[], ['+'], ['-']])
    (h : unsigned s = some w) : Spelled .number (sign ++ w) ∧ sign ++ w <+: sign ++ s := by
  obtain ⟨digits, hne, hdigits, hfront, rfl | ⟨places, hplaces, hall, rfl⟩⟩ := eq_of_unsigned h
  · exact ⟨.integer hsign hne hdigits, (List.prefix_append_right_inj sign).2 hfront⟩
  · rw [← List.append_assoc]
    refine ⟨.decimal hsign hne hdigits hplaces hall, ?_⟩
    rw [List.append_assoc]
    exact (List.prefix_append_right_inj sign).2 hfront

theorem spelled_of_number (h : number s = some w) : Spelled .number w ∧ w <+: s := by
  unfold number at h
  split at h
  · obtain ⟨w, hw, rfl⟩ := Option.map_eq_some_iff.1 h
    exact spelled_signed (by simp : ['+'] ∈ [[], ['+'], ['-']]) hw
  · obtain ⟨w, hw, rfl⟩ := Option.map_eq_some_iff.1 h
    exact spelled_signed (by simp : ['-'] ∈ [[], ['+'], ['-']]) hw
  · exact spelled_signed (by simp : [] ∈ [[], ['+'], ['-']]) h

theorem spelled_of_variableName (h : variableName s = some w) :
    Spelled .variable w ∧ w <+: s := by
  unfold variableName at h
  split at h
  · next sigil s =>
    split at h
    · next hsigil =>
      obtain ⟨w, hw, rfl⟩ := Option.map_eq_some_iff.1 h
      obtain ⟨c, r, rfl, hc, hr, hfront⟩ := eq_of_name hw
      exact ⟨.var hsigil hc hr, by simpa using hfront⟩
    · cases h
  · cases h

theorem spelled_of_punct (h : punct s = some w) : Spelled .punct w ∧ w <+: s := by
  unfold punct at h
  split at h
  case h_6 c s _ _ _ _ _ =>
    split at h
    · next hc =>
      obtain rfl := Option.some.inj h
      exact ⟨.single (List.contains_iff_mem.1 hc), by simp⟩
    · cases h
  case h_7 => cases h
  all_goals
    obtain rfl := Option.some.inj h
    exact ⟨.pair (by decide), by simp⟩

theorem spelled_of_word (h : word s = some w) : Spelled .word w ∧ w <+: s := by
  obtain ⟨c, r, rfl, hc, hr, hfront⟩ := eq_of_name h
  exact ⟨.word hc hr, hfront⟩

/-- What is taken as a token is spelled as its kind asks. -/
theorem spelled_of_lexeme? (h : lexeme? s = some (some k, w)) : Spelled k w ∧ w <+: s := by
  simp only [lexeme?, Option.orElse_eq_orElse, Option.orElse_eq_or, Option.or_eq_some_iff,
    Option.map_eq_some_iff, Prod.mk.injEq, reduceCtorEq, false_and, and_false, exists_false,
    false_or] at h
  obtain ⟨-, ⟨_, hw, ⟨⟩, rfl⟩ | ⟨-, ⟨_, hw, ⟨⟩, rfl⟩ | ⟨-, ⟨_, hw, ⟨⟩, rfl⟩ | ⟨-, ⟨_, hw, ⟨⟩, rfl⟩ |
    ⟨-, ⟨_, hw, ⟨⟩, rfl⟩ | ⟨-, _, hw, ⟨⟩, rfl⟩⟩⟩⟩⟩⟩ := h
  · obtain ⟨body, hbody, rfl, hfront⟩ := eq_of_bracketed hw
    exact ⟨.iri hbody, hfront⟩
  · obtain ⟨l, rfl, hfront⟩ := eq_of_literal hw
    exact ⟨.literal l, hfront⟩
  · exact spelled_of_number hw
  · exact spelled_of_variableName hw
  · exact spelled_of_punct hw
  · exact spelled_of_word hw

/-- A comment goes on to the end of its line. -/
theorem comment_of_lexeme? (h : lexeme? s = some (none, w)) : ∃ body rest,
    w = '#' :: body ∧ '\n' ∉ body ∧ s = w ++ rest ∧ ∀ c ∈ rest.head?, c = '\n' := by
  obtain ⟨_, hw, rfl⟩ : ∃ v, comment s = some v ∧ v = w := by
    simpa [lexeme?, Option.or_eq_some_iff] using h
  unfold comment at hw
  split at hw
  · next s =>
    obtain rfl := Option.some.inj hw
    refine ⟨s.takeWhile (· ≠ '\n'), s.dropWhile (· ≠ '\n'), rfl, fun hmem => ?_, ?_, fun c hc => ?_⟩
    · simpa using List.mem_takeWhile_imp hmem
    · rw [List.cons_append, List.takeWhile_append_dropWhile]
    · have hstop := List.head?_dropWhile_not (· ≠ '\n') s
      rw [hc] at hstop
      simpa using hstop
  · cases hw

theorem prefix_of_lexeme? {kind : Option TokenKind} (h : lexeme? s = some (kind, w)) : w <+: s := by
  cases kind with
  | some k => exact (spelled_of_lexeme? h).2
  | none =>
    obtain ⟨-, rest, -, -, rfl, -⟩ := comment_of_lexeme? h
    exact List.prefix_append w rest

/-! ### What is spelled so is taken -/

/-- White space ends every class that has none in it. -/
theorem stop_of_ends {p : Char → Bool} (hv : Line.Ends v) (hp : ∀ c, isBlank c = true → p c = false) :
    ∀ c ∈ v.head?, p c = false :=
  fun c hc => hp c (hv c hc)

theorem isDigit_of_blank (h : isBlank c = true) : isDigit c = false :=
  inRanges_disjoint (by decide +kernel) h

theorem isNameChar_of_blank (h : isBlank c = true) : isNameChar c = false := by
  have hword : isWord c = false := inRanges_disjoint (by decide +kernel) h
  have hdash : c ∉ ['-'] := not_mem_of_class h (by decide)
  simpa [isNameChar, hword] using hdash

theorem isNameStart_of_blank (h : isBlank c = true) : isNameStart c = false := by
  have hletter : isLetter c = false := by
    rw [isLetter_eq]
    exact inRanges_disjoint (by decide) h
  have hline : c ∉ ['_'] := not_mem_of_class h (by decide)
  simpa [isNameStart, hletter] using hline

/-- An angle bracket with white space in front of its partner does not begin an IRI. -/
theorem iri_of_ends (hw : ∀ d ∈ w, isIriChar d = true) (hv : Line.Ends v) :
    iri ('<' :: (w ++ v)) = none := by
  have hstop : ∀ d ∈ v.head?, isIriChar d = false :=
    stop_of_ends hv fun d hd => by simp [isIriChar, hd]
  rw [iri, bracketed, dropWhile_append_of_stop hw hstop]
  split
  · exact absurd (hv '>' rfl) (by decide)
  · rfl

theorem punct_single (hc : c ∈ singles) (hv : Line.Ends v) : punct (c :: v) = some [c] := by
  unfold punct
  split
  case h_6 heq =>
    obtain ⟨rfl, -⟩ := List.cons.inj heq
    have hmem : "\x7b\x7d()[].;,*=/|^+<>!?".toList.contains c = true :=
      List.contains_iff_mem.2 hc
    rw [if_pos hmem]
  case h_7 heq => cases heq
  all_goals
    next heq =>
      obtain ⟨-, rfl⟩ := List.cons.inj heq
      exact absurd (hv _ rfl) (by decide)

theorem lexeme?_single (hc : c ∈ singles) (hv : Line.Ends v) :
    lexeme? (c :: v) = some (some .punct, [c]) := by
  have hpunct := punct_single hc hv
  have hdigit : isDigit c = false := by
    have hall : (singles.all fun d => !isDigit d) = true := by decide +kernel
    simpa using List.all_eq_true.1 hall c hc
  by_cases hleader : c ∈ leaders
  · have hopen : iri ('<' :: v) = none := iri_of_ends (w := []) (by simp) hv
    have hnext : ∀ d ∈ v.head?, isDigit d = false ∧ isNameStart d = false := fun d hd =>
      ⟨isDigit_of_blank (hv d hd), isNameStart_of_blank (hv d hd)⟩
    have hrun : run isDigit v = none := by
      cases v with
      | nil => rfl
      | cons d v => simp [run, hnext d rfl]
    have hname : name isNameStart (fun c => isLetterOrDigit c || c == '_') v = none := by
      cases v with
      | nil => rfl
      | cons d v => simp [name, hnext d rfl]
    have hboth : ∀ d ∈ singles, d ∈ leaders → d = '<' ∨ d = '+' ∨ d = '?' := by decide
    obtain rfl | rfl | rfl := hboth c hc hleader
    · simp [lexeme?, comment, hopen, literal, number, unsigned, run, hdigit, variableName,
        Variable.isSigil, hpunct]
    · simp [lexeme?, comment, iri, bracketed, literal, number, unsigned, hrun, variableName,
        Variable.isSigil, hpunct]
    · have hunsigned : unsigned ('?' :: v) = none := by simp [unsigned, run, hdigit]
      simp [lexeme?, comment, iri, bracketed, literal, number, hunsigned, variableName,
        Variable.isSigil, hname, hpunct]
  · rw [lexeme?_of_not_mem hleader hdigit, hpunct]
    rfl

theorem lexeme?_pair (hw : w ∈ pairs) (hv : Line.Ends v) :
    lexeme? (w ++ v) = some (some .punct, w) := by
  have hopen : iri ('<' :: '=' :: v) = none :=
    iri_of_ends (w := ['=']) (by decide) hv
  obtain rfl | rfl | rfl | rfl | rfl : w = ['!', '='] ∨ w = ['<', '='] ∨ w = ['>', '='] ∨
      w = ['&', '&'] ∨ w = ['|', '|'] := by simpa [pairs] using hw
  · exact lexeme?_notEqual
  · have hdigit : isDigit '<' = false := by decide +kernel
    simp [lexeme?, comment, hopen, literal, number, unsigned, run, variableName,
      Variable.isSigil, hdigit, punct]
  all_goals exact lexeme?_of_not_mem (by decide) (by decide +kernel)

/-- A word that is spelled as a kind asks is taken as that kind. -/
theorem Spelled.lexeme? (hw : Spelled k w) (hv : Line.Ends v) :
    Text.lexeme? (w ++ v) = some (some k, w) := by
  have hdigit : ∀ d ∈ v.head?, isDigit d = false := stop_of_ends hv fun _ => isDigit_of_blank
  cases hw with
  | iri hbody => simpa using lexeme?_iri (s := v) hbody
  | literal l => exact lexeme?_literal (l.whole_of_ends hv).literal
  | integer hsign hne hdigits =>
    have hstop : ∀ d ∈ v.head?, isDigit d = false ∧ d ≠ '.' := fun d hd => ⟨hdigit d hd, by
      rintro rfl
      exact absurd (hv _ hd) (by decide)⟩
    exact lexeme?_number hsign hne (fun d hd => hdigits d (List.mem_of_mem_head? hd))
      (unsigned_integer hne hdigits hstop)
  | @decimal sign digits places hsign hne hdigits hplaces hall =>
    have hhead : ∀ d ∈ (digits ++ '.' :: places).head?, isDigit d = true := by
      obtain ⟨c, digits, rfl⟩ := List.exists_cons_of_ne_nil hne
      rintro _ ⟨rfl⟩
      exact hdigits c List.mem_cons_self
    rw [List.append_assoc sign]
    exact lexeme?_number hsign (by simp) hhead (unsigned_decimal hne hdigits hplaces hall hdigit)
  | var hsigil hc hrest =>
    refine lexeme?_variable hsigil hc hrest (stop_of_ends hv fun d hd => ?_)
    have hchar : isLetterOrDigit d = false := by
      rw [isLetterOrDigit_eq]
      exact inRanges_disjoint (by decide) hd
    have hline : d ∉ ['_'] := not_mem_of_class hd (by decide)
    simpa [hchar] using hline
  | single hc => exact lexeme?_single hc hv
  | pair hp => exact lexeme?_pair hp hv
  | word hc hrest =>
    refine lexeme?_word hc hrest (stop_of_ends hv fun d hd => ?_)
    have hcolon : d ∉ [':'] := not_mem_of_class hd (by decide)
    simpa [isNameChar_of_blank hd] using hcolon

end StandingQuery.Text
