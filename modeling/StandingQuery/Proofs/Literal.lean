import StandingQuery.Proofs.Grammar
import StandingQuery.Proofs.Statement
import StandingQuery.Proofs.Tokens

/-! Literals in queries and on lines of data.

A literal of a query is a quoted body and what it ends in (`Literal`). The lexer takes the longest
one: every suffix in front of a text is within the one that is taken, and the one that is taken
is a suffix, so a literal that cannot be prolonged is taken as a whole (`Literal.Whole.literal`).

The parser looks for a datatype behind the last two carets of the token, wherever these stand
(`expandLiteral_eq`). So it takes a literal for its term exactly if no other carets mislead it
(`Literal.Kept`), and such a literal, unless its datatype is prefixed, is the same term wherever
it stands in a query and on any layout of a line of data (`Literal.read_alike`). -/
namespace StandingQuery.Text

/-! ### Literals of queries -/

/-- The subtags of a language tag. -/
inductive Subtags : List Char → Prop where
  | nil : Subtags []
  | cons {tag rest : List Char} : tag ≠ [] → (∀ c ∈ tag, isLetterOrDigit c = true) → Subtags rest →
      Subtags ('-' :: tag ++ rest)

/-- What a literal ends in. -/
inductive Literal.Suffix where
  | none
  | language (tag : List Char)
  | datatype (iri : List Char)
  | prefixed (front name : List Char)

namespace Literal.Suffix

def text : Suffix → List Char
  | .none => []
  | .language tag => '@' :: tag
  | .datatype iri => '^' :: '^' :: '<' :: iri ++ ['>']
  | .prefixed front name => '^' :: '^' :: front ++ ':' :: name

/-- What a query admits: a language tag is a word of letters with subtags, an IRI has neither
white space nor angle brackets in it, and a prefix begins with a letter. -/
def Valid : Suffix → Prop
  | .none => True
  | .language tag => ∃ word rest, tag = word ++ rest ∧ word ≠ [] ∧
      (∀ c ∈ word, isLetter c = true) ∧ Subtags rest
  | .datatype iri => ∀ c ∈ iri, c ≠ '<' ∧ c ≠ '>' ∧ isBlank c = false
  | .prefixed front name => (∀ c ∈ front.head?, isLetter c = true) ∧
      (∀ c ∈ front, isNameChar c = true) ∧ ∀ c ∈ name, isNameChar c = true

end Literal.Suffix

/-- A literal of a query. The body has the closing quote with it. -/
structure Literal where
  body : List Char
  suffix : Literal.Suffix
  quoted : Quoted (· ≠ '\n') body
  valid : suffix.Valid

namespace Literal

def text (l : Literal) : List Char := '"' :: l.body ++ l.suffix.text

/-- The term that is meant: the text as it is, but for the prefix. -/
def term (prefixes : Prefixes) (l : Literal) : Option Term :=
  match l.suffix with
  | .prefixed front name => prefixes[String.ofList front]?.map fun iri =>
      ⟨.ofList ('"' :: l.body) ++ "^^" ++ ("<" ++ iri ++ .ofList name ++ ">")⟩
  | _ => some ⟨.ofList l.text⟩

end Literal

variable {s rest w : List Char} {c : Char}

/-! ### Recognising literals -/

theorem Quoted.mono {p q : Char → Prop} (hs : Quoted p s) (hpq : ∀ c, p c → q c) : Quoted q s := by
  induction hs with
  | close => exact .close
  | plain hquote hback hc _ ih => exact .plain hquote hback (hpq _ hc) ih
  | escape hc _ ih => exact .escape (hpq _ hc) ih

theorem quotedBody_append {body : List Char} (hb : Quoted (· ≠ '\n') body) (rest : List Char) :
    quotedBody (body ++ rest) = some body := by
  induction hb with
  | close => rfl
  | @plain c s hquote hback hline _ ih => simp [quotedBody, hback, hline, ih]
  | @escape c s hline _ ih => simp [quotedBody, hline, ih]

theorem subtags_append {tag : List Char} (htag : ∀ c ∈ tag, isLetterOrDigit c = true) :
    subtags true (tag ++ rest) = tag ++ subtags true rest := by
  induction tag with
  | nil => rfl
  | cons c tag ih =>
    have hc := htag c List.mem_cons_self
    have hdash : c ≠ '-' := by
      rintro rfl
      exact absurd hc (by decide)
    rw [List.cons_append, subtags.eq_2 _ _ _ fun _ _ h => absurd h hdash, Bool.true_and, if_pos hc,
      ih fun d hd => htag d (List.mem_cons_of_mem c hd), List.cons_append]

theorem Subtags.chars (hs : Subtags s) : ∀ c ∈ s, (c.isAlphanum || c == '-') = true := by
  induction hs with
  | nil => simp
  | cons _ htag _ ih =>
    intro c hc
    rcases List.mem_append.1 hc with hc | hc
    · rcases List.mem_cons.1 hc with rfl | hc
      · decide
      · have hchar : c.isAlphanum = true := htag c hc
        simp [hchar]
    · exact ih c hc

/-- Subtags are read to their end. -/
theorem Subtags.within_subtags (hs : Subtags s) (inside : Bool) (rest : List Char) :
    s <+: subtags inside (s ++ rest) := by
  induction hs generalizing inside with
  | nil => exact List.nil_prefix
  | @cons tag s hne htag _ ih =>
    obtain ⟨c, tag, rfl⟩ := List.exists_cons_of_ne_nil hne
    have hc := htag c List.mem_cons_self
    have hread : subtags inside ('-' :: (c :: tag) ++ s ++ rest) =
        '-' :: c :: tag ++ subtags true (s ++ rest) := by
      rw [List.append_assoc, List.cons_append, List.cons_append, subtags, if_pos hc,
        subtags_append fun d hd => htag d (List.mem_cons_of_mem c hd)]
      rfl
    rw [hread, List.prefix_append_right_inj]
    exact ih true

/-- What is read as subtags is the rest of a tag, if it stands inside one, and subtags. -/
theorem subtags_front (inside : Bool) (s : List Char) :
    subtags inside s <+: s ∧ ∃ tag t, subtags inside s = tag ++ t ∧ (inside = false → tag = []) ∧
      (∀ c ∈ tag, isLetterOrDigit c = true) ∧ Subtags t := by
  fun_induction subtags inside s with
  | case1 inside c s hc ih =>
    obtain ⟨hfront, tag, t, heq, -, htag, ht⟩ := ih
    refine ⟨by simpa using hfront, [], '-' :: (c :: tag) ++ t, by simp [heq], by simp, by simp, ?_⟩
    exact .cons (by simp) (List.forall_mem_cons.2 ⟨hc, htag⟩) ht
  | case3 inside c s hne hc ih =>
    obtain ⟨hfront, tag, t, heq, -, htag, ht⟩ := ih
    obtain ⟨rfl, hc⟩ := Bool.and_eq_true_iff.1 hc
    exact ⟨by simpa using hfront, c :: tag, t, by simp [heq], by simp,
      List.forall_mem_cons.2 ⟨hc, htag⟩, ht⟩
  | _ => exact ⟨List.nil_prefix, [], [], rfl, by simp, by simp, .nil⟩

section
variable {p q : Char → Bool}

theorem eq_of_bracketed (h : bracketed p s = some w) :
    ∃ body, (∀ c ∈ body, p c = true) ∧ w = '<' :: body ++ ['>'] ∧ w <+: s := by
  unfold bracketed at h
  split at h
  · next s =>
    split at h
    · next after hafter =>
      obtain rfl := Option.some.inj h
      refine ⟨s.takeWhile p, fun c hc => List.mem_takeWhile_imp hc, rfl, after, ?_⟩
      rw [List.append_assoc, List.singleton_append, List.cons_append, ← hafter,
        List.takeWhile_append_dropWhile]
    · cases h
  · cases h

theorem run_of_ne_nil (h : s.takeWhile p ≠ []) : run p s = some (s.takeWhile p) := by
  unfold run
  split
  · contradiction
  · rfl

theorem name_cons (hc : p c = true) : name p q (c :: s) = some (c :: s.takeWhile q) := by
  rw [name, if_pos hc]

theorem prefixed_append {front name : List Char} (hhead : ∀ c ∈ front.head?, isLetter c = true)
    (hfront : ∀ c ∈ front, isNameChar c = true) (hname : ∀ c ∈ name, isNameChar c = true) :
    prefixed (front ++ ':' :: name ++ rest) =
      some (front ++ ':' :: (name ++ rest.takeWhile isNameChar)) := by
  have hcolon : isNameChar ':' = false := by decide +kernel
  have hread : (Text.name isLetter isNameChar (front ++ ':' :: name ++ rest)).getD [] = front := by
    cases front with
    | nil => rfl
    | cons c front =>
      have hstop : ∀ d ∈ (':' :: (name ++ rest)).head?, isNameChar d = false := by
        rintro _ ⟨rfl⟩
        exact hcolon
      rw [List.cons_append, List.cons_append, name_cons (hhead c rfl), List.append_assoc,
        List.cons_append,
        takeWhile_append_of_stop (fun d hd => hfront d (List.mem_cons_of_mem c hd)) hstop]
      rfl
  rw [prefixed, hread, List.append_assoc, List.drop_left, List.cons_append]
  simp only [List.takeWhile_append_of_pos hname]

/-- What stands in front of the colon. -/
theorem front_of_name (s : List Char) : ∃ front, (Text.name isLetter isNameChar s).getD [] = front ∧
    front <+: s ∧ (∀ c ∈ front.head?, isLetter c = true) ∧ ∀ c ∈ front, isNameChar c = true := by
  refine ⟨_, rfl, ?_⟩
  cases s with
  | nil => simp [Text.name]
  | cons c s =>
    cases hc : isLetter c with
    | false => simp [Text.name, hc]
    | true =>
      have hchar : isNameChar c = true := by simp [isNameChar, isWord_of_letter hc]
      rw [name_cons hc]
      refine ⟨by simpa using List.takeWhile_prefix isNameChar, by simpa using hc, ?_⟩
      exact List.forall_mem_cons.2 ⟨hchar, fun d hd => List.mem_takeWhile_imp hd⟩

theorem eq_of_prefixed (h : prefixed s = some w) :
    ∃ front name, (Literal.Suffix.prefixed front name).Valid ∧ w = front ++ ':' :: name ∧ w <+: s := by
  obtain ⟨front, heq, ⟨after, rfl⟩, hhead, hfront⟩ := front_of_name s
  rw [prefixed, heq, List.drop_left] at h
  split at h
  · next name =>
    obtain rfl := Option.some.inj h
    refine ⟨front, name.takeWhile isNameChar,
      ⟨hhead, hfront, fun c hc => List.mem_takeWhile_imp hc⟩, rfl, ?_⟩
    rw [List.prefix_append_right_inj, List.cons_prefix_cons]
    exact ⟨rfl, List.takeWhile_prefix isNameChar⟩
  · cases h

end

/-! ### The longest suffix -/

theorem literalSuffix_language {tag : List Char} (hne : s.takeWhile isLetter ≠ [])
    (htag : s.takeWhile isLetter = tag) :
    literalSuffix ('@' :: s) = '@' :: tag ++ subtags false (s.drop tag.length) := by
  rw [literalSuffix, run_of_ne_nil hne, htag]

theorem literalSuffix_datatype {iri : List Char}
    (hiri : ∀ c ∈ iri, c ≠ '<' ∧ c ≠ '>' ∧ isBlank c = false) :
    literalSuffix ('^' :: '^' :: '<' :: iri ++ '>' :: s) =
      '^' :: '^' :: '<' :: iri ++ ['>'] := by
  have hall : ∀ c ∈ iri, (!(c == '<' || c == '>' || isBlank c)) = true := fun c hc => by
    simp [hiri c hc]
  have hopen := bracketed_append (p := fun c => !(c == '<' || c == '>' || isBlank c)) (s := s)
    hall (by decide)
  simp only [List.cons_append] at hopen ⊢
  rw [literalSuffix, hopen]
  rfl

theorem literalSuffix_prefixed (hs : s.head? ≠ some '<') (hw : prefixed s = some w) :
    literalSuffix ('^' :: '^' :: s) = '^' :: '^' :: w := by
  have hnone : bracketed (fun c => !(c == '<' || c == '>' || isBlank c)) s = none := by
    unfold bracketed
    split
    · simp at hs
    · rfl
  rw [literalSuffix, hnone, hw]
  rfl

theorem Literal.Suffix.Valid.head_ne {front name : List Char} (hx : (prefixed front name).Valid) :
    (front ++ ':' :: s).head? ≠ some '<' := by
  cases front with
  | nil => simp
  | cons c front =>
    rintro ⟨rfl⟩
    exact absurd (hx.1 '<' rfl) (by decide)

/-- Every suffix at the front of a text is within the one that is taken. -/
theorem Literal.Suffix.Valid.within_literalSuffix {x : Suffix} (hx : x.Valid) (rest : List Char) :
    x.text <+: literalSuffix (x.text ++ rest) := by
  cases x with
  | none => exact List.nil_prefix
  | language tag =>
    obtain ⟨word, sub, rfl, hne, hword, hsub⟩ := hx
    have hletters : (word ++ (sub ++ rest)).takeWhile isLetter =
        word ++ (sub ++ rest).takeWhile isLetter := List.takeWhile_append_of_pos hword
    have hnonempty : (word ++ (sub ++ rest)).takeWhile isLetter ≠ [] := by
      rw [hletters]
      exact List.append_ne_nil_of_left_ne_nil hne _
    have hread := literalSuffix_language hnonempty hletters
    have htext : (language (word ++ sub)).text ++ rest = '@' :: (word ++ (sub ++ rest)) := by
      simp [text]
    rw [htext, hread]
    -- Without subtags the word may go on in what follows; before a subtag it has ended.
    cases hsub with
    | nil => simp [text]
    | @cons tag sub htag hall hsub =>
      have hstop : ('-' :: tag ++ sub ++ rest).takeWhile isLetter = [] := rfl
      rw [hstop, List.append_nil, List.drop_left]
      have hwithin := (Subtags.cons htag hall hsub).within_subtags false rest
      exact List.cons_prefix_cons.2 ⟨rfl, (List.prefix_append_right_inj word).2 hwithin⟩
  | datatype iri =>
    have hread := literalSuffix_datatype (s := rest) hx
    have htext : (datatype iri).text ++ rest = '^' :: '^' :: '<' :: iri ++ '>' :: rest := by
      simp [text]
    rw [htext, hread]
    exact List.prefix_rfl
  | prefixed front name =>
    have hother : (front ++ ':' :: name ++ rest).head? ≠ some '<' := by
      simpa using hx.head_ne (s := name ++ rest)
    obtain ⟨hhead, hfront, hname⟩ := hx
    have hread := literalSuffix_prefixed hother (prefixed_append hhead hfront hname)
    have htext : (prefixed front name).text ++ rest = '^' :: '^' :: (front ++ ':' :: name ++ rest) := by
      simp [text]
    rw [htext, hread]
    simp [text]

/-- What is read behind carets is a datatype. -/
theorem datatype_valid
    (h : (bracketed (fun c => !(c == '<' || c == '>' || isBlank c)) s <|> prefixed s) = some w) :
    ∃ x : Literal.Suffix, x.Valid ∧ '^' :: '^' :: w = x.text ∧ x.text <+: '^' :: '^' :: s := by
  have hcarets {v : List Char} (hv : v <+: s) : '^' :: '^' :: v <+: '^' :: '^' :: s :=
    List.cons_prefix_cons.2 ⟨rfl, List.cons_prefix_cons.2 ⟨rfl, hv⟩⟩
  -- A prefixed name is looked for only where no IRI stands.
  cases hiri : bracketed (fun c => !(c == '<' || c == '>' || isBlank c)) s with
  | some v =>
    obtain rfl : v = w := by
      rw [hiri] at h
      exact Option.some.inj h
    obtain ⟨iri, hall, rfl, hs⟩ := eq_of_bracketed hiri
    refine ⟨.datatype iri, fun c hc => ?_, rfl, hcarets hs⟩
    simpa [and_assoc] using hall c hc
  | none =>
    rw [hiri] at h
    obtain ⟨front, name, hvalid, rfl, hs⟩ := eq_of_prefixed h
    exact ⟨.prefixed front name, hvalid, rfl, hcarets hs⟩

/-- What is read behind an at sign is a language tag. -/
theorem language_valid (h : run isLetter s = some w) :
    ∃ x : Literal.Suffix, x.Valid ∧ '@' :: w ++ subtags false (s.drop w.length) = x.text ∧
      x.text <+: '@' :: s := by
  obtain ⟨hne, rfl⟩ : s.takeWhile isLetter ≠ [] ∧ s.takeWhile isLetter = w := by
    unfold run at h
    split at h
    · cases h
    · next hne => exact ⟨hne, Option.some.inj h⟩
  obtain ⟨hfront, tag, t, heq, htag, -, ht⟩ :=
    subtags_front false (s.drop (s.takeWhile isLetter).length)
  rw [htag rfl, List.nil_append] at heq
  rw [heq] at hfront ⊢
  have hword : ∀ c ∈ s.takeWhile isLetter, isLetter c = true := fun c hc =>
    List.mem_takeWhile_imp hc
  refine ⟨.language (s.takeWhile isLetter ++ t), ⟨_, t, rfl, hne, hword, ht⟩, rfl,
    List.cons_prefix_cons.2 ⟨rfl, ?_⟩⟩
  calc s.takeWhile isLetter ++ t
      <+: s.takeWhile isLetter ++ s.drop (s.takeWhile isLetter).length :=
        (List.prefix_append_right_inj _).2 hfront
    _ = s := List.prefix_iff_eq_append.1 (List.takeWhile_prefix isLetter)

theorem literalSuffix_valid (s : List Char) :
    ∃ x : Literal.Suffix, x.Valid ∧ literalSuffix s = x.text ∧ x.text <+: s := by
  unfold literalSuffix
  split
  · split
    · next hw => exact datatype_valid hw
    · exact ⟨.none, trivial, rfl, List.nil_prefix⟩
  · split
    · next hw => exact language_valid hw
    · exact ⟨.none, trivial, rfl, List.nil_prefix⟩
  · exact ⟨.none, trivial, rfl, List.nil_prefix⟩

/-! ### Literals in a text -/

namespace Literal

variable {l m : Literal} {post : List Char}

/-- No longer literal begins where this one does. -/
def Whole (l : Literal) (post : List Char) : Prop :=
  ∀ m : Literal, m.text <+: l.text ++ post → m.text.length ≤ l.text.length

theorem literal_append (l : Literal) (post : List Char) :
    literal (l.text ++ post) = some ('"' :: l.body ++ literalSuffix (l.suffix.text ++ post)) := by
  have hbody : quotedBody (l.body ++ (l.suffix.text ++ post)) = some l.body :=
    quotedBody_append l.quoted _
  rw [text, List.append_assoc, List.cons_append, literal, hbody]
  simp

/-- A literal that cannot be prolonged is taken as a whole. -/
theorem Whole.literal (h : l.Whole post) : Text.literal (l.text ++ post) = some l.text := by
  obtain ⟨x, hx, heq, hfront⟩ := literalSuffix_valid (l.suffix.text ++ post)
  have hwithin := l.valid.within_literalSuffix post
  have hlonger := h ⟨l.body, x, l.quoted, hx⟩ (by
    simpa [text] using hfront)
  have hlength : x.text.length ≤ l.suffix.text.length := by simpa [text] using hlonger
  rw [heq] at hwithin
  rw [literal_append, heq, ← hwithin.eq_of_length_le hlength]
  rfl

theorem Suffix.Valid.not_blank {x : Suffix} (hx : x.Valid) : ∀ c ∈ x.text, isBlank c = false := by
  have hchar : ∀ c, isNameChar c = true → isBlank c = false := by
    intro c hc
    rcases Bool.or_eq_true_iff.1 hc with hword | hdash
    · exact inRanges_disjoint (by decide +kernel) hword
    · obtain rfl := eq_of_beq hdash
      decide
  cases x with
  | none => simp [text]
  | language tag =>
    obtain ⟨word, rest, rfl, -, hword, hrest⟩ := hx
    intro c hc
    rcases List.mem_cons.1 hc with rfl | hc
    · decide
    rcases List.mem_append.1 hc with hc | hc
    · exact hchar c (by simp [isNameChar, isWord_of_letter (hword c hc)])
    · exact Line.not_blank_of_tag (hrest.chars c hc)
  | datatype iri =>
    have hends : isBlank '^' = false ∧ isBlank '<' = false ∧ isBlank '>' = false := by decide
    simpa [text, or_imp, forall_and, hends] using fun c hc => (hx c hc).2.2
  | prefixed front name =>
    have hends : isBlank '^' = false ∧ isBlank ':' = false := by decide
    simpa [text, or_imp, forall_and, hends] using
      ⟨fun c hc => hchar c (hx.2.1 c hc), fun c hc => hchar c (hx.2.2 c hc)⟩

/-- White space behind a literal ends it. -/
theorem whole_of_ends (l : Literal) (h : Line.Ends post) : l.Whole post := by
  rintro m ⟨after, heq⟩
  have hbodies : m.body ++ (m.suffix.text ++ after) = l.body ++ (l.suffix.text ++ post) := by
    simpa [text] using heq
  have hm := quotedBody_append m.quoted (m.suffix.text ++ after)
  rw [hbodies, quotedBody_append l.quoted] at hm
  have hbody : l.body = m.body := Option.some.inj hm
  rw [hbody, List.append_cancel_left_eq] at hbodies
  have hsuffix : m.suffix.text.length ≤ l.suffix.text.length := by
    rcases List.append_eq_append_iff.1 hbodies with ⟨more, hmore, -⟩ | ⟨more, hmore, hpost⟩
    · simp [hmore]
    · cases more with
      | nil => simp [hmore]
      | cons c more =>
        have hblank : isBlank c = true := h c (by simp [hpost])
        have hnone : isBlank c = false := m.valid.not_blank c (by simp [hmore])
        rw [hblank] at hnone
        cases hnone
  simpa [text, hbody] using hsuffix

end Literal

/-! ### The last two carets -/

/-- The last two carets in a row, with what stands in front of them and behind them. -/
structure SplitsAt (s front back : List Char) : Prop where
  eq : s = front ++ '^' :: '^' :: back
  last : ¬ ['^', '^'] <:+: '^' :: back

theorem splitCarets_append {r x : List Char} (hr : ¬ ['^', '^'] <:+: r ++ ['^']) (after : List Char) :
    splitCarets after (r ++ '^' :: '^' :: x) = some (x.reverse, r.reverse ++ after) := by
  induction r generalizing after with
  | nil => rfl
  | cons c r ih =>
    have hpair : ¬ ['^', '^'] <+: c :: (r ++ ['^']) := fun h => hr h.isInfix
    have htail : ¬ ['^', '^'] <:+: r ++ ['^'] := fun h => hr (h.trans (List.suffix_cons c _).isInfix)
    -- No pair begins here, also not with the first caret of the one that is looked for.
    have hskip : splitCarets after (c :: (r ++ '^' :: '^' :: x)) =
        splitCarets (c :: after) (r ++ '^' :: '^' :: x) := by
      rw [splitCarets]
      rintro before rfl hbefore
      cases r with
      | nil => exact hpair (by simp)
      | cons d r =>
        obtain ⟨rfl, -⟩ := List.cons.inj hbefore
        exact hpair (by simp)
    rw [List.cons_append, hskip, ih htail]
    simp

theorem eq_of_splitCarets {after f b : List Char} (h : splitCarets after s = some (f, b)) :
    ∃ r, s = r ++ '^' :: '^' :: f.reverse ∧ b = r.reverse ++ after ∧ ¬ ['^', '^'] <:+: r ++ ['^'] := by
  fun_induction splitCarets after s with
  | case1 after before =>
    obtain ⟨rfl, rfl⟩ := Prod.mk.inj (Option.some.inj h)
    exact ⟨[], by simp, rfl, by decide⟩
  | case2 after c before hne ih =>
    obtain ⟨r, rfl, rfl, hr⟩ := ih h
    refine ⟨c :: r, rfl, by simp, fun hinfix => ?_⟩
    rcases List.infix_cons_iff.1 hinfix with hfront | hinfix
    · obtain ⟨rfl, hnext⟩ := List.cons_prefix_cons.1 hfront
      cases r with
      | nil => exact hne _ rfl rfl
      | cons d r =>
        obtain ⟨rfl, -⟩ := List.cons_prefix_cons.1 hnext
        exact hne _ rfl rfl
    · exact hr hinfix
  | case3 => cases h

theorem splitCarets_eq_some_iff {front back : List Char} :
    splitCarets [] s.reverse = some (front, back) ↔ SplitsAt s front back := by
  have hreverse (l : List Char) : ['^', '^'] <:+: l.reverse ++ ['^'] ↔ ['^', '^'] <:+: '^' :: l := by
    rw [← List.reverse_infix]
    simp
  constructor
  · intro h
    obtain ⟨r, hs, rfl, hr⟩ := eq_of_splitCarets h
    refine ⟨?_, ?_⟩
    · rw [← List.reverse_reverse s, hs]
      simp
    · rw [List.append_nil, ← hreverse]
      simpa using hr
  · rintro ⟨rfl, hlast⟩
    have hr := splitCarets_append (x := front.reverse) (mt (hreverse back).1 hlast) []
    simpa using hr

/-- The datatype that is expanded is what follows the last two carets. -/
theorem expandLiteral_eq {text : String} {front back : List Char} {prefixes : Prefixes}
    (h : SplitsAt text.toList front back) :
    expandLiteral prefixes text = if back.head? = some '<' then .ok ⟨text⟩ else
      (expandPrefixed prefixes back).map fun iri => ⟨.ofList front ++ "^^" ++ iri⟩ := by
  rw [expandLiteral, splitCarets_eq_some_iff.2 h]

/-- Only a text with an angle bracket behind its last two carets, or without two carets, stays
as it is. -/
theorem expandLiteral_eq_self_iff {text : String} {prefixes : Prefixes} :
    expandLiteral prefixes text = .ok ⟨text⟩ ↔
      ∀ front back, SplitsAt text.toList front back → back.head? = some '<' := by
  constructor
  · intro h front back hsplit
    by_contra hother
    -- Expanding puts an angle bracket behind the carets, and the text has none there.
    rw [expandLiteral_eq hsplit, if_neg hother] at h
    obtain ⟨_, hiri, heq⟩ := map_eq_ok_iff.1 h
    obtain ⟨_, _, _, -, -, -, rfl⟩ := expandPrefixed_eq_ok_iff.1 hiri
    have hback := congrArg String.toList (Term.mk.inj heq)
    rw [hsplit.eq] at hback
    refine hother ?_
    simp only [String.toList_append, String.toList_ofList, List.append_assoc,
      List.append_cancel_left_eq] at hback
    obtain ⟨-, -, rfl⟩ : '^' = '^' ∧ '^' = '^' ∧ _ = back := by simpa using hback
    rfl
  · intro h
    cases hsplit : splitCarets [] text.toList.reverse with
    | none => simp [expandLiteral, hsplit]
    | some split =>
      obtain ⟨front, back⟩ := split
      have hat := splitCarets_eq_some_iff.1 hsplit
      rw [expandLiteral_eq hat, if_pos (h front back hat)]

namespace Literal

variable {l m : Literal} {post : List Char} {P : Prefixes}

/-- The datatype is a prefixed name. -/
def Prefixed (l : Literal) : Prop := ∃ front name, l.suffix = .prefixed front name

/-- What follows the last two carets, if there are any, is the prefixed datatype or begins with
an angle bracket. -/
def Kept (l : Literal) : Prop :=
  l.Prefixed ∨ ∀ front back, SplitsAt l.text front back → back.head? = some '<'

/-- A prefixed datatype has no carets in it. -/
theorem splitsAt_prefixed {front name : List Char} (hs : l.suffix = .prefixed front name) :
    SplitsAt l.text ('"' :: l.body) (front ++ ':' :: name) := by
  have hvalid : (Suffix.prefixed front name).Valid := hs ▸ l.valid
  obtain ⟨hhead, hfront, hname⟩ := hvalid
  have hcaret : isNameChar '^' = false := by decide +kernel
  have hnone : '^' ∉ front ++ ':' :: name := by
    simp only [List.mem_append, List.mem_cons, not_or]
    exact ⟨fun h => by simp [hfront _ h] at hcaret, by decide, fun h => by simp [hname _ h] at hcaret⟩
  refine ⟨by rw [text, hs]; rfl, fun h => ?_⟩
  have hmem : '^' ∈ front ++ ':' :: name := by
    rcases List.infix_cons_iff.1 h with h | h
    · exact (List.cons_prefix_cons.1 h).2.subset List.mem_cons_self
    · exact h.subset List.mem_cons_self
  exact hnone hmem

theorem expandLiteral_eq_term_iff {t : Term} (ht : l.term P = some t) :
    expandLiteral P (.ofList l.text) = .ok t ↔ l.Kept := by
  unfold term at ht
  split at ht
  · next front name hs =>
    obtain ⟨iri, hiri, rfl⟩ := Option.map_eq_some_iff.1 ht
    have hvalid : (Suffix.prefixed front name).Valid := hs ▸ l.valid
    have hcolon : ':' ∉ front := fun h =>
      absurd (hvalid.2.1 ':' h) (by decide +kernel)
    have hexpand := expandPrefixed_eq_ok_iff.2 ⟨front, name, iri, rfl, hcolon, hiri, rfl⟩
    have hsplit : SplitsAt (String.ofList l.text).toList ('"' :: l.body) (front ++ ':' :: name) := by
      rw [String.toList_ofList]
      exact splitsAt_prefixed hs
    rw [expandLiteral_eq hsplit, if_neg hvalid.head_ne, hexpand]
    simp only [Except.map, true_iff]
    exact .inl ⟨front, name, hs⟩
  · next hs =>
    obtain rfl := Option.some.inj ht
    have hkept : l.Kept ↔ ∀ front back, SplitsAt l.text front back → back.head? = some '<' :=
      or_iff_right fun ⟨front, name, h⟩ => hs front name h
    rw [hkept, expandLiteral_eq_self_iff, String.toList_ofList]

/-! ### Literals on lines of data -/

/-- A literal without a prefixed datatype can stand on a line of data too. -/
theorem object (hl : ¬ l.Prefixed) : Line.Object l.text := by
  have hbody : Quoted (fun _ => True) l.body := l.quoted.mono fun _ _ => trivial
  refine .literal (.intro hbody ?_)
  have hvalid := l.valid
  cases hs : l.suffix with
  | none => exact .none
  | language tag =>
    rw [hs] at hvalid
    obtain ⟨word, rest, rfl, hne, hword, hrest⟩ := hvalid
    refine .language (List.append_ne_nil_of_left_ne_nil hne rest) fun c hc => ?_
    rcases List.mem_append.1 hc with hc | hc
    · have hletter : c.isAlpha = true := hword c hc
      simp [Char.isAlphanum, hletter]
    · exact hrest.chars c hc
  | datatype iri =>
    rw [hs] at hvalid
    exact .datatype (.intro fun c hc => (hvalid c hc).2)
  | prefixed front name => exact absurd ⟨front, name, hs⟩ hl

/-! ### Literals in queries -/

/-- The token of the literal. -/
def token (l : Literal) : Token := ⟨.literal, .ofList l.text⟩

/-- The reading of slots in which the literal is its term. -/
def reading (l : Literal) (prefixes : Prefixes) (t : Token) (s : Slot) : Prop :=
  if t = l.token then ∃ term, l.term prefixes = some term ∧ s = .const term
  else SlotToken prefixes t s

theorem reading_token {term : Term} (h : l.term P = some term) :
    l.reading P l.token (.const term) := by
  unfold reading
  rw [if_pos rfl]
  exact ⟨term, h, rfl⟩

theorem reading_of_kind_ne {t : Token} {s : Slot} (hk : t.kind ≠ .literal) (h : SlotToken P t s) :
    l.reading P t s := by
  unfold reading
  rwa [if_neg]
  rintro rfl
  exact hk rfl

theorem reading.slotToken (hl : l.Kept) {t : Token} {s : Slot} (h : l.reading P t s) :
    SlotToken P t s := by
  unfold reading at h
  split at h
  · next ht =>
    obtain ⟨term, hterm, rfl⟩ := h
    exact ht ▸ .literal rfl ((expandLiteral_eq_term_iff hterm).2 hl)
  · exact h

theorem Whole.reads (h : l.Whole post) : Reads (l.text ++ post) [l.token] post :=
  .one (lexeme?_literal h.literal)

theorem slot_token {s : Slot} : slot P l.token = .ok s ↔
    ∃ term, expandLiteral P (.ofList l.text) = .ok term ∧ .const term = s :=
  map_eq_ok_iff

end Literal

/-- A literal whose carets mislead nothing is the same term in queries and on lines of data. -/
theorem Literal.read_alike (l : Literal) :
    (¬ l.Prefixed → ∀ (s p : Term) (g : Option Term) (line : String),
      Line.Node s.text.toList → Line.Iri p.text.toList → (∀ x ∈ g, Line.Node x.text.toList) →
      Line.Layout ⟨[s, p, ⟨.ofList l.text⟩] ++ g.toList⟩ line →
      Tuple.ofLine? line = .ok (some ⟨[s, p, ⟨.ofList l.text⟩] ++ g.toList⟩)) ∧
    (l.Kept → ∀ (text : String) (post : List Char) (before after : List Token) (q : ParsedQuery),
      Reads text.toList before (l.text ++ post) → l.Whole post →
      tokenise (.ofList post) = .ok after →
      Grammar.Sentence l.reading (before ++ l.token :: after) q →
      Query.ofText? text = .ok q.toQuery) ∧
    ∀ (P : Prefixes) (term : Term), l.term P = some term →
      (slot P l.token = .ok (.const term) ↔ l.Kept) := by
  refine ⟨fun hl s p g line hs hp hg hline => ?_, fun hl text post before after q hread hwhole hpost hq => ?_,
    fun P term hterm => ?_⟩
  · have hobject : Line.Object (⟨.ofList l.text⟩ : Term).text.toList := by
      simpa using l.object hl
    refine hline.read ?_
    cases g with
    | none => exact .triple hs hp hobject
    | some g => exact .quad hs hp hobject (hg g rfl)
  · have htokens := (hread.trans hwhole.reads).tokenise hpost
    have hparsed := hq.read fun P t s h => Literal.reading.slotToken hl h
    rw [List.append_assoc, List.singleton_append] at htokens
    rw [Query.ofText?, ParsedQuery.ofText?, htokens]
    simp only [bind, Except.bind, hparsed, Except.map]
  · rw [← Literal.expandLiteral_eq_term_iff hterm, Literal.slot_token]
    simp

/-- A literal with carets, an escaped quote and the sign of a comment in it. -/
def thorny : Literal where
  body := "^^<\\\"#\"".toList
  suffix := .language "en-1".toList
  quoted := by
    refine .plain ?_ ?_ ?_ (.plain ?_ ?_ ?_ (.plain ?_ ?_ ?_ (.escape ?_ (.plain ?_ ?_ ?_ .close)))) <;>
      decide
  valid := ⟨"en".toList, "-1".toList, rfl, by decide, by decide,
    @Subtags.cons ['1'] [] (by decide) (by decide) .nil⟩

def thornyQuery : String :=
  "SELECT * WHERE \x7b ?s <p> \"^^<\\\"#\"@en-1 FILTER(?s != \"^^<\\\"#\"@en-1) \x7d"

def thornyParsed : ParsedQuery :=
  let term : Slot := .const ⟨"\"^^<\\\"#\"@en-1"⟩
  { form := .select .none none
    group := ⟨[⟨[.var ⟨"s"⟩, .const ⟨"<p>"⟩, term]⟩], [⟨.var ⟨"s"⟩, .notEqual, term⟩]⟩ }

theorem Literal.read_alike_thorny :
    Tuple.ofLine? "_:a <p> \"^^<\\\"#\"@en-1 ." =
      .ok (some ⟨[⟨"_:a"⟩, ⟨"<p>"⟩, ⟨"\"^^<\\\"#\"@en-1"⟩]⟩) ∧
    Query.ofText? thornyQuery = .ok thornyParsed.toQuery ∧
    slot ∅ thorny.token = .ok (.const ⟨"\"^^<\\\"#\"@en-1"⟩) := by
  have hplain : ¬ thorny.Prefixed := by
    rintro ⟨front, name, h⟩
    cases h
  have hsplit : splitCarets [] thorny.text.reverse = some (['"'], "<\\\"#\"@en-1".toList) := by decide
  have hkept : thorny.Kept := .inr fun front back h => by
    rw [splitCarets_eq_some_iff.2 h] at hsplit
    obtain ⟨-, rfl⟩ := Prod.mk.inj (Option.some.inj hsplit)
    decide
  have hread : Reads thornyQuery.toList
      [⟨.word, "SELECT"⟩, ⟨.punct, "*"⟩, ⟨.word, "WHERE"⟩, ⟨.punct, "\x7b"⟩, ⟨.variable, "?s"⟩, ⟨.iri, "<p>"⟩]
      (thorny.text ++ " FILTER(?s != \"^^<\\\"#\"@en-1) \x7d".toList) :=
    .token (t := ⟨.word, "SELECT"⟩) (by decide +kernel) (.blank (by decide)
      (.token (t := ⟨.punct, "*"⟩) (by decide +kernel) (.blank (by decide)
        (.token (t := ⟨.word, "WHERE"⟩) (by decide +kernel) (.blank (by decide)
          (.token (t := ⟨.punct, "\x7b"⟩) (by decide +kernel) (.blank (by decide)
            (.token (t := ⟨.variable, "?s"⟩) (by decide +kernel) (.blank (by decide)
              (.token (t := ⟨.iri, "<p>"⟩) (by decide +kernel) (.blank (by decide) .here)))))))))))
  have hpost : tokenise (.ofList " FILTER(?s != \"^^<\\\"#\"@en-1) \x7d".toList) =
      .ok [⟨.word, "FILTER"⟩, ⟨.punct, "("⟩, ⟨.variable, "?s"⟩, ⟨.punct, "!="⟩, thorny.token,
        ⟨.punct, ")"⟩, ⟨.punct, "\x7d"⟩] := by
    decide +kernel
  have hwhole : thorny.Whole " FILTER(?s != \"^^<\\\"#\"@en-1) \x7d".toList :=
    thorny.whole_of_ends (by
      rintro _ ⟨rfl⟩
      decide)
  have hlay : Line.Layout ⟨[⟨"_:a"⟩, ⟨"<p>"⟩, ⟨.ofList thorny.text⟩] ++ (none : Option Term).toList⟩
      "_:a <p> \"^^<\\\"#\"@en-1 ." := by
    have hspace : White [' '] := by decide
    exact @Line.Layout.intro _ _ [] _ [' '] [] (by decide)
      (.more hspace (by decide) (.more hspace (by decide) .last)) hspace (by decide) rfl
  have hterm : thorny.term ∅ = some ⟨"\"^^<\\\"#\"@en-1"⟩ := rfl
  have hliteral := Literal.reading_token hterm
  have hs : thorny.reading ∅ ⟨.variable, "?s"⟩ (.var ⟨"s"⟩) :=
    Literal.reading_of_kind_ne (by decide) (.var rfl)
  have hp : thorny.reading ∅ ⟨.iri, "<p>"⟩ (.const ⟨"<p>"⟩) :=
    Literal.reading_of_kind_ne (by decide) (.iri rfl)
  have hkey : Token.isKeyword ⟨.word, "FILTER"⟩ "FILTER" = true := by decide
  have hselect : Token.isKeyword ⟨.word, "SELECT"⟩ "SELECT" = true := by decide
  have hwhere : ∃ w, Token.isKeyword w "WHERE" = true ∧ [(⟨.word, "WHERE"⟩ : Token)] = [w] :=
    ⟨_, by decide, rfl⟩
  have hfilter := Grammar.Body.filter hkey hs .notEqual hliteral .close
  have hobject : Grammar.Properties (thorny.reading ∅) (.var ⟨"s"⟩) false _ _ :=
    .last (.slot (by decide) (by decide) hp) (.last hliteral)
  have hgroup := Grammar.Body.block hs hobject ⟨_, rfl, .inr (.inr ⟨rfl, hkey⟩)⟩ hfilter
  have hheading := Grammar.Heading.select (S := thorny.reading ∅) hselect .none .all
  have hsentence : Grammar.Sentence thorny.reading _ thornyParsed :=
    .intro .nil hheading (.inr hwhere) (.intro hgroup) (by decide) .nil
  have hall := Literal.read_alike thorny
  refine ⟨?_, ?_, (hall.2.2 _ _ hterm).2 hkept⟩
  · exact hall.1 hplain ⟨"_:a"⟩ ⟨"<p>"⟩ none _
      (.blank (@Line.BlankNode.intro ['a'] (by decide) (by decide)))
      (@Line.Iri.intro ['p'] (by decide)) (by simp) hlay
  · exact hall.2.1 hkept _ _ _ _ _ hread hwhole hpost hsentence

/-- What follows the last two carets is taken for a datatype, also within the quotes. So a query
refuses a literal without a suffix that a line of data has. -/
theorem Literal.refused_within_quotes :
    Tuple.ofLine? "_:a <p> \"a^^b\" ." = .ok (some ⟨[⟨"_:a"⟩, ⟨"<p>"⟩, ⟨"\"a^^b\""⟩]⟩) ∧
      ParsedQuery.ofText? "SELECT * WHERE \x7b ?s <p> \"a^^b\" \x7d" =
        .error (.invalidQuery (.notPrefixed "b\"")) := by
  decide +kernel

end StandingQuery.Text
