import StandingQuery.Proofs.Spelling

/-! The layout of a query text.

A text that is accepted is nothing but its tokens, comments and white space, from left to right
(`reads_of_tokenise`). Its tokens can be laid out anew, with any separators that begin with white
space: each of them is found again, since what ended it before is not needed to end it
(`Spaced.reads`). So the layout of a query says nothing (`tokenise_written`). -/
namespace StandingQuery.Text

variable {s v gap rest : List Char} {ts : List Token}

/-! ### Separators -/

/-- White space and comments, each with the end of its line. -/
inductive Filler : List Char → Prop where
  | nil : Filler []
  | blank {c : Char} {s : List Char} : isBlank c = true → Filler s → Filler (c :: s)
  | comment {body s : List Char} : '\n' ∉ body → Filler s → Filler ('#' :: body ++ '\n' :: s)

/-- What stands between two tokens. -/
structure Separator (gap : List Char) : Prop where
  filler : Filler gap
  blank : ∃ c ∈ gap.head?, isBlank c = true

/-- What may stand in front of the tokens and behind them. -/
def Margin (gap : List Char) : Prop := gap = [] ∨ Separator gap

/-- Tokens with separators between them. -/
inductive Spaced : List Token → List Char → Prop where
  | nil : Spaced [] []
  | one (t : Token) : Spaced [t] t.text.toList
  | cons {t u : Token} {ts : List Token} {gap s : List Char} :
      Separator gap → Spaced (u :: ts) s → Spaced (t :: u :: ts) (t.text.toList ++ gap ++ s)

/-- A text in which tokens are written down in turn. -/
inductive Written (ts : List Token) (text : String) : Prop where
  | intro {lead s trail : List Char} : Margin lead → Spaced ts s → Margin trail →
      text.toList = lead ++ s ++ trail → Written ts text

/-- A text that consists of tokens, comments and white space. -/
inductive MadeOf : List Token → List Char → Prop where
  | nil : MadeOf [] []
  | blank {c : Char} {s : List Char} {ts : List Token} : isBlank c = true → MadeOf ts s →
      MadeOf ts (c :: s)
  | comment {body s : List Char} {ts : List Token} : '\n' ∉ body → (∀ c ∈ s.head?, c = '\n') →
      MadeOf ts s → MadeOf ts ('#' :: body ++ s)
  | token {s : List Char} {ts : List Token} (t : Token) : MadeOf ts s →
      MadeOf (t :: ts) (t.text.toList ++ s)

/-! ### What an accepted text is made of -/

theorem checkGap_eq_ok (h : checkGap gap = .ok ()) : White gap := by
  unfold checkGap at h
  split at h
  · next hnil => exact white_of_trim hnil
  · cases h

/-- What is scanned is read to its end, and the gap in front of it holds white space only. -/
theorem reads_of_scan {skip : Nat} (h : scan skip gap s = .ok ts) :
    White gap ∧ Reads (s.drop skip) ts [] := by
  induction s generalizing skip gap ts with
  | nil =>
    rw [scan] at h
    obtain ⟨_, hgap, hts⟩ := bind_eq_ok_iff.1 h
    cases hts
    rw [List.drop_nil]
    exact ⟨checkGap_eq_ok hgap, .here⟩
  | cons c s ih =>
    cases skip with
    | succ skip => exact ih h
    | zero =>
      rw [scan] at h
      split at h
      · obtain ⟨hgap, hread⟩ := ih h
        obtain ⟨hgap, hblank⟩ := List.forall_mem_append.1 hgap
        exact ⟨hgap, .blank (hblank c (by simp)) hread⟩
      · next kind text hlexeme =>
        obtain ⟨_, hgap, h⟩ := bind_eq_ok_iff.1 h
        obtain ⟨us, hus, h⟩ := bind_eq_ok_iff.1 h
        refine ⟨checkGap_eq_ok hgap, ?_⟩
        obtain ⟨-, hread⟩ := ih hus
        -- What is skipped is the rest of the lexeme.
        obtain ⟨rest, hsplit⟩ := prefix_of_lexeme? hlexeme
        have hrest : s.drop (text.length - 1) = rest := by
          cases text with
          | nil => exact absurd hlexeme lexeme?_ne_nil
          | cons d text =>
            obtain ⟨-, rfl⟩ := List.cons.inj hsplit
            simp
        rw [hrest] at hread
        rw [← hsplit] at hlexeme
        rw [List.drop_zero, ← hsplit]
        cases kind with
        | none =>
          cases h
          exact .comment hlexeme hread
        | some kind =>
          cases h
          simpa using Reads.token (t := ⟨kind, .ofList text⟩) (by simpa using hlexeme) hread

theorem reads_of_tokenise {text : String} (h : tokenise text = .ok ts) :
    Reads text.toList ts [] :=
  (reads_of_scan h).2

theorem Reads.spelled (h : Reads s ts rest) : ∀ t ∈ ts, Spelled t.kind t.text.toList := by
  induction h with
  | here => simp
  | blank _ _ ih => exact ih
  | comment _ _ ih => exact ih
  | token hl _ ih => exact List.forall_mem_cons.2 ⟨(spelled_of_lexeme? hl).1, ih⟩

theorem Reads.madeOf (h : Reads s ts rest) (hrest : rest = []) : MadeOf ts s := by
  induction h with
  | here => exact hrest ▸ .nil
  | blank hc _ ih => exact .blank hc (ih hrest)
  | comment hl _ ih =>
    obtain ⟨body, after, rfl, hbody, hsplit, hstop⟩ := comment_of_lexeme? hl
    obtain rfl := List.append_cancel_left hsplit
    exact .comment hbody hstop (ih hrest)
  | token _ _ ih => exact .token _ (ih hrest)

/-! ### Reading it again -/

theorem lexeme?_comment {body : List Char} (hbody : '\n' ∉ body) (hs : ∀ c ∈ s.head?, c = '\n') :
    lexeme? ('#' :: body ++ s) = some (none, '#' :: body) := by
  have hall : ∀ c ∈ body, (decide (c ≠ '\n')) = true := by
    intro c hc
    refine decide_eq_true ?_
    rintro rfl
    exact hbody hc
  have htake := takeWhile_append_of_stop hall fun c hc => by simpa using hs c hc
  have hcomment : comment ('#' :: (body ++ s)) = some ('#' :: body) := by
    rw [comment, htake]
  simp [lexeme?, hcomment]

theorem Filler.reads (h : Filler gap) : Reads (gap ++ s) [] s := by
  induction h with
  | nil => exact .here
  | blank hc _ ih => exact .blank hc ih
  | @comment body gap hbody _ ih =>
    have hline : lexeme? ('#' :: body ++ ('\n' :: (gap ++ s))) = some (none, '#' :: body) :=
      lexeme?_comment hbody (by simp)
    rw [List.append_assoc, List.cons_append]
    exact .comment hline (.blank (by decide) ih)

theorem Separator.ends (h : Separator gap) : Line.Ends (gap ++ s) := by
  obtain ⟨c, hhead, hblank⟩ := h.blank
  cases gap with
  | nil => cases hhead
  | cons d gap =>
    obtain rfl : d = c := by simpa using hhead
    rintro _ ⟨rfl⟩
    exact hblank

theorem separator_of_white (hw : White gap) (hne : gap ≠ []) : Separator gap := by
  have hfiller : ∀ {l : List Char}, White l → Filler l := by
    intro l hl
    induction l with
    | nil => exact .nil
    | cons c l ih =>
      obtain ⟨hc, hl⟩ := List.forall_mem_cons.1 hl
      exact .blank hc (ih hl)
  obtain ⟨c, gap, rfl⟩ := List.exists_cons_of_ne_nil hne
  exact ⟨hfiller hw, c, rfl, hw c List.mem_cons_self⟩

theorem Margin.ends (h : Margin gap) : Line.Ends gap := by
  rcases h with rfl | h
  · exact Line.ends_nil
  · simpa using h.ends (s := [])

theorem Margin.reads (h : Margin gap) : Reads (gap ++ s) [] s := by
  rcases h with rfl | h
  · exact .here
  · exact h.filler.reads

/-- Tokens that are spelled as their kinds ask are found again between separators. -/
theorem Spaced.reads (h : Spaced ts s) (hts : ∀ t ∈ ts, Spelled t.kind t.text.toList)
    (hv : Line.Ends v) : Reads (s ++ v) ts v := by
  induction h with
  | nil => exact .here
  | one t => exact .token ((hts t List.mem_cons_self).lexeme? hv) .here
  | @cons t u ts gap s hgap _ ih =>
    obtain ⟨ht, hts⟩ := List.forall_mem_cons.1 hts
    rw [List.append_assoc, List.append_assoc]
    exact .token (ht.lexeme? hgap.ends) (hgap.filler.reads.trans (ih hts))

theorem Written.tokens {text : String} (h : Written ts text)
    (hts : ∀ t ∈ ts, Spelled t.kind t.text.toList) : Text.tokenise text = .ok ts := by
  obtain @⟨lead, s, trail, hlead, hspaced, htrail, htext⟩ := h
  have htokens := hspaced.reads hts htrail.ends
  have hend : Reads trail [] [] := by simpa using htrail.reads (s := [])
  have hall : Reads text.toList ts [] := by
    simpa [htext] using hlead.reads.trans (htokens.trans hend)
  simpa using hall.tokenise rfl

/-- A text that is accepted consists of its tokens, comments and white space; and every text in
which the same tokens are written down is accepted with these tokens, and is the same query or
refused for the same reason. -/
theorem tokenise_written {text : String} (h : Text.tokenise text = .ok ts) :
    MadeOf ts text.toList ∧ ∀ other : String, Written ts other → Text.tokenise other = .ok ts ∧
      ParsedQuery.ofText? other = ParsedQuery.ofText? text ∧
      Query.ofText? other = Query.ofText? text := by
  have hread := reads_of_tokenise h
  refine ⟨hread.madeOf rfl, fun other hother => ?_⟩
  have hsame := hother.tokens hread.spelled
  have hparsed : ParsedQuery.ofText? other = ParsedQuery.ofText? text := by
    rw [ParsedQuery.ofText?, ParsedQuery.ofText?, hsame, h]
  exact ⟨hsame, hparsed, congrArg (Except.map ParsedQuery.toQuery) hparsed⟩

/-- A query without any white space. -/
def dense : String := "ASK\x7b?s<p>+1.5\x7d"

def denseTokens : List Token :=
  [⟨.word, "ASK"⟩, ⟨.punct, "\x7b"⟩, ⟨.variable, "?s"⟩, ⟨.iri, "<p>"⟩, ⟨.number, "+1.5"⟩,
    ⟨.punct, "\x7d"⟩]

/-- The same query with a comment that opens what it does not close. -/
def airy : String := "\tASK \x7b #\"<\n\n?s <p> +1.5\n\x7d"

theorem tokenise_written_dense :
    Text.tokenise airy = .ok denseTokens ∧ Query.ofText? airy = Query.ofText? dense ∧
      MadeOf denseTokens dense.toList := by
  have hdense : Text.tokenise dense = .ok denseTokens := by decide +kernel
  have hspace : Separator [' '] := separator_of_white (by decide) (by decide)
  have hline : Separator ['\n'] := separator_of_white (by decide) (by decide)
  have hcomment : Separator [' ', '#', '"', '<', '\n', '\n'] :=
    ⟨.blank (by decide) (@Filler.comment ['"', '<'] ['\n'] (by decide) (.blank (by decide) .nil)),
      ' ', rfl, by decide⟩
  have hairy : Written denseTokens airy :=
    @Written.intro _ _ ['\t'] _ [] (.inr (separator_of_white (by decide) (by decide)))
      (.cons hspace (.cons hcomment (.cons hspace (.cons hspace (.cons hline (.one _))))))
      (.inl rfl) (by decide)
  obtain ⟨hmade, hother⟩ := tokenise_written hdense
  obtain ⟨htokens, -, hquery⟩ := hother airy hairy
  exact ⟨htokens, hquery, hmade⟩

end StandingQuery.Text
