import StandingQuery.Proofs.Grammar
import StandingQuery.Proofs.Pattern
import StandingQuery.Proofs.Tokens

/-! Queries written down and read back.

A query of the form `SELECT` whose names and IRIs the language can spell (`SelectQuery`) has a
text: its pieces with spaces between them. A piece is the text of its tokens wherever a space
or a parenthesis ends it (`Writes`), and pieces that follow each other are the text of all
their tokens (`Pieces.writes`); so what the lexer does is settled piece by piece. The tokens of
the whole are a sentence (`SelectQuery.derives`), and reading the text gives the query back
(`Query.ofText_text`). -/
namespace StandingQuery
open Text Text.Token

/-! ### What can be written -/

/-- A name that can stand behind a sigil. -/
def Variable.Writable (v : Variable) : Prop :=
  ∃ c cs, v.name.toList = c :: cs ∧ isNameStart c = true ∧
    ∀ d ∈ cs, (isLetterOrDigit d || d == '_') = true

/-- An IRI that can stand in a query. -/
def Term.Writable (t : Term) : Prop :=
  ∃ body, t.text.toList = '<' :: body ++ ['>'] ∧ ∀ c ∈ body, isIriChar c = true

def Slot.Writable : Slot → Prop
  | .var v => v.Writable
  | .const t => t.Writable

/-- A query of the form `SELECT` that can be written down. No variables stand for all of them. -/
structure SelectQuery where
  patterns : List TuplePattern
  comparisons : List Comparison
  vars : Option (List Variable)
  distinctness : Distinctness
  limit : Option Nat
  offset : Option Nat
  patterns_ne : patterns ≠ []
  triples : ∀ p ∈ patterns, p.arity = 3 ∧ ∀ s ∈ p.slots, s.Writable
  sides : ∀ c ∈ comparisons, c.left.Writable ∧ c.right.Writable
  names : ∀ vs ∈ vars, vs ≠ [] ∧ ∀ v ∈ vs, v.Writable
  limit_lt : ∀ n ∈ limit, n < UInt64.size
  offset_lt : ∀ n ∈ offset, n < UInt64.size

namespace SelectQuery

/-- The keyword of a distinctness. -/
def keyword : Distinctness → List String
  | .none => []
  | .distinct => ["DISTINCT"]
  | .reduced => ["REDUCED"]

/-- What is selected. -/
def selection : Option (List Variable) → List String
  | none => ["*"]
  | some vs => vs.map toString

/-- A clause behind the group. -/
def clause (name : String) : Option Nat → List String
  | none => []
  | some n => [name, toString n]

/-- The pieces of the text, in order. -/
def pieces (q : SelectQuery) : List String :=
  ["SELECT"] ++ keyword q.distinctness ++ selection q.vars ++
    ["WHERE \x7b", " . ".intercalate (q.patterns.map toString)] ++
    (q.comparisons.map fun c => "FILTER(" ++ toString c ++ ")") ++ ["\x7d"] ++
    clause "LIMIT" q.limit ++ clause "OFFSET" q.offset

/-- The query as a text. -/
def text (q : SelectQuery) : String := " ".intercalate q.pieces

def query (q : SelectQuery) : Query :=
  { pattern := q.patterns
    modifiers :=
      { projection := q.vars.elim .all .only
        distinctness := q.distinctness
        limit := q.limit
        offset := q.offset
        filters := q.comparisons.map Comparison.holds } }

end SelectQuery

namespace Text

variable {c : Char} {s w : List Char} {ts us : List Token}

/-! ### Pieces and their tokens -/

/-- A piece ends in front of this. -/
def Stop (rest : List Char) : Prop := ∀ c ∈ rest.head?, c = ' ' ∨ c = '(' ∨ c = ')'

/-- A piece is the text of tokens wherever it ends. -/
def Writes (w : List Char) (ts : List Token) : Prop := ∀ rest, Stop rest → Reads (w ++ rest) ts rest

theorem Writes.append {v : List Char} (hw : Writes w ts) (hv : Writes v us)
    (hstop : ∀ rest, Stop (v ++ rest)) : Writes (w ++ v) (ts ++ us) := by
  intro rest hrest
  rw [List.append_assoc]
  exact (hw _ (hstop rest)).trans (hv rest hrest)

theorem Writes.nil : Writes [] [] := fun _ _ => .here

theorem reads_separator (hc : c ∈ "\x7b\x7d()[].;,*=".toList) (rest : List Char) :
    Reads (c :: rest) [mark (.ofList [c])] rest :=
  .one (w := [c]) (lexeme?_separator hc)

theorem Writes.relation (r : Relation) : Writes (toString r).toList [mark (toString r)] := by
  cases r with
  | equal => exact fun rest _ => reads_separator (by decide) rest
  | notEqual => exact fun rest _ => .one (w := ['!', '=']) lexeme?_notEqual

/-- A keyword is a word. -/
theorem Writes.word {text : String} (hne : text ≠ "") (htext : ∀ d ∈ text.toList, isLetter d = true) :
    Writes text.toList [⟨.word, text⟩] := by
  intro rest hrest
  obtain ⟨c, w, hw⟩ := List.exists_cons_of_ne_nil (String.toList_eq_nil_iff.not.2 hne)
  rw [hw] at htext
  have hstart : (isNameStart c || c == ':') = true := by
    simp [isNameStart, htext c List.mem_cons_self]
  have hlater : ∀ d ∈ w, (isNameChar d || d == ':') = true := fun d hd => by
    simp [isNameChar, isWord_of_letter (htext d (List.mem_cons_of_mem c hd))]
  have hstop : ∀ d ∈ rest.head?, (isNameChar d || d == ':') = false := by
    intro d hd
    rcases hrest d hd with rfl | rfl | rfl <;> decide +kernel
  have hone := Reads.one (lexeme?_word hstart hlater hstop)
  rwa [← hw, String.ofList_toList] at hone

theorem Writes.number (n : Nat) : Writes (toString n).toList [⟨.number, toString n⟩] := by
  intro rest hrest
  have hdigits : (toString n).toList = Nat.toDigits 10 n := by
    simp
  have hstop : ∀ d ∈ rest.head?, isDigit d = false ∧ d ≠ '.' := by
    intro d hd
    rcases hrest d hd with rfl | rfl | rfl <;> decide +kernel
  have hne : Nat.toDigits 10 n ≠ [] := Nat.toDigits_ne_nil
  have hall : ∀ d ∈ Nat.toDigits 10 n, isDigit d = true := fun d hd =>
    isDigit_of_ascii (Nat.isDigit_of_mem_toDigits (by decide) (by decide) hd)
  have hunsigned : ([] : List Char) ∈ [[], ['+'], ['-']] := by simp
  have hone := Reads.one (lexeme?_number hunsigned hne
    (fun d hd => hall d (List.mem_of_mem_head? hd)) (unsigned_integer hne hall hstop))
  rwa [List.nil_append, ← hdigits, String.ofList_toList] at hone

theorem stop_space (rest : List Char) : Stop (' ' :: rest) := by
  rintro _ ⟨rfl⟩
  exact .inl rfl

theorem Writes.spaced {v : List Char} (hw : Writes w ts) (hv : Writes v us) :
    Writes (w ++ ' ' :: v) (ts ++ us) := by
  refine hw.append (fun rest hrest => ?_) fun rest => stop_space _
  exact .blank (by decide) (hv rest hrest)

/-- Pieces, and their tokens. -/
inductive Pieces : List String → List Token → Prop where
  | nil : Pieces [] []
  | cons {w : String} {ts us : List Token} {ws : List String} :
      Writes w.toList ts → Pieces ws us → Pieces (w :: ws) (ts ++ us)

theorem Pieces.append {ws vs : List String} (h : Pieces ws ts) (h' : Pieces vs us) :
    Pieces (ws ++ vs) (ts ++ us) := by
  induction h with
  | nil => exact h'
  | cons hw _ ih => simpa using Pieces.cons hw ih

theorem Pieces.map {α : Type} {f : α → String} {g : α → List Token} {l : List α}
    (h : ∀ a ∈ l, Writes (f a).toList (g a)) : Pieces (l.map f) (l.flatMap g) := by
  induction l with
  | nil => exact .nil
  | cons a l ih =>
    exact .cons (h a List.mem_cons_self) (ih fun b hb => h b (List.mem_cons_of_mem a hb))

/-- Pieces are written with a space between them. -/
theorem Pieces.writes {ws : List String} (h : Pieces ws ts) :
    Writes (" ".intercalate ws).toList ts := by
  induction h with
  | nil => exact .nil
  | @cons w ts us ws hw h ih =>
    cases h with
    | nil => simpa using hw
    | cons hv h => simpa using hw.spaced ih

/-! ### Slots, patterns and comparisons -/

/-- The token of a slot. -/
def slotToken : Slot → Token
  | .var v => ⟨.variable, "?" ++ v.name⟩
  | .const t => ⟨.iri, t.text⟩

/-- The tokens of a comparison with its keyword. -/
def comparisonTokens (c : Comparison) : List Token :=
  [⟨.word, "FILTER"⟩, mark "(", slotToken c.left, mark (toString c.relation), slotToken c.right,
    mark ")"]

end Text

open Text

variable {s : Slot}

theorem Slot.Writable.writes (hs : s.Writable) : Writes (toString s).toList [slotToken s] := by
  cases s with
  | var v =>
    obtain ⟨c, w, hname, hc, hw⟩ := hs
    have htext : (toString (Slot.var v)).toList = '?' :: c :: w := by
      simp [toString, hname]
    have htoken : slotToken (.var v) = ⟨.variable, .ofList ('?' :: c :: w)⟩ := by
      rw [slotToken, ← htext, String.ofList_toList]
      rfl
    intro rest hrest
    have hstop : ∀ d ∈ rest.head?, (isLetterOrDigit d || d == '_') = false := by
      intro d hd
      rcases hrest d hd with rfl | rfl | rfl <;> decide
    rw [htext, htoken]
    exact .one (lexeme?_variable (by decide) hc hw hstop)
  | const t =>
    obtain ⟨body, htext, hbody⟩ := hs
    have hstring : (toString (Slot.const t)).toList = '<' :: body ++ ['>'] := htext
    have htoken : slotToken (.const t) = ⟨.iri, .ofList ('<' :: body ++ ['>'])⟩ := by
      rw [slotToken, ← htext, String.ofList_toList]
    intro rest _
    have hl : lexeme? ('<' :: body ++ ['>'] ++ rest) = some (some .iri, '<' :: body ++ ['>']) := by
      simpa using lexeme?_iri hbody (s := rest)
    rw [hstring, htoken]
    exact .one hl

/-- The sigil is dropped and nothing of the name. -/
theorem Variable.Writable.ofSpelling {v : Variable} (hv : v.Writable) :
    Variable.ofSpelling ("?" ++ v.name) = v := by
  obtain ⟨c, w, hname, hc, hw⟩ := hv
  have hsigil : Variable.isSigil c = false := by
    cases h : Variable.isSigil c with
    | false => rfl
    | true =>
      simp only [Variable.isSigil, Bool.or_eq_true, beq_iff_eq] at h
      rcases h with rfl | rfl <;> exact absurd hc (by decide)
  have hspelling : ("?" ++ v.name).toList = '?' :: c :: w := by simp [hname]
  rw [Variable.ofSpelling, hspelling, List.dropWhile_cons_of_pos (by decide),
    List.dropWhile_cons_of_neg (by simp [hsigil]), ← hname, String.ofList_toList]

theorem Variable.Writable.not_blank {v : Variable} (hv : v.Writable) :
    isBlankNode v.name = false := by
  obtain ⟨c, w, hname, hc, hw⟩ := hv
  rw [Bool.eq_false_iff]
  intro hblank
  obtain ⟨label, hlabel⟩ := isBlankNode_iff.1 hblank
  rw [hname] at hlabel
  obtain ⟨rfl, rfl⟩ := List.cons.inj hlabel
  exact absurd (hw ':' List.mem_cons_self) (by decide)

theorem Slot.Writable.slotToken (hs : s.Writable) (P : Prefixes) :
    SlotToken P (Text.slotToken s) s := by
  cases s with
  | const t => exact .iri rfl
  | var v =>
    have hslot : SlotToken P ⟨.variable, "?" ++ v.name⟩ (.var (.ofSpelling ("?" ++ v.name))) :=
      .var rfl
    rwa [hs.ofSpelling] at hslot

theorem TuplePattern.writes {p : TuplePattern} (hp : ∀ s ∈ p.slots, s.Writable) :
    Writes (toString p).toList (p.slots.map Text.slotToken) := by
  rw [List.map_eq_flatMap]
  exact (Pieces.map fun s hs => (hp s hs).writes).writes

theorem Comparison.writes {c : Comparison} (hl : c.left.Writable) (hr : c.right.Writable) :
    Writes ("FILTER(" ++ toString c ++ ")").toList (comparisonTokens c) := by
  intro rest hrest
  have hword : Writes "FILTER".toList [⟨.word, "FILTER"⟩] := .word (by decide) (by decide)
  have hbody := hl.writes.spaced ((Writes.relation c.relation).spaced hr.writes)
  have htext : ("FILTER(" ++ toString c ++ ")").toList ++ rest = "FILTER".toList ++
      '(' :: ((toString c.left).toList ++ ' ' :: ((toString c.relation).toList ++
        ' ' :: (toString c.right).toList) ++ ')' :: rest) := by
    simp [toString]
  have hopen (rest : List Char) : Stop ('(' :: rest) := by
    rintro _ ⟨rfl⟩
    exact .inr (.inl rfl)
  have hclose : Stop (')' :: rest) := by
    rintro _ ⟨rfl⟩
    exact .inr (.inr rfl)
  rw [htext]
  exact (hword _ (hopen _)).trans ((reads_separator (by decide) _).trans
    ((hbody _ hclose).trans (reads_separator (by decide) _)))

namespace SelectQuery

variable (q : SelectQuery)

/-! ### Whole queries -/

/-- The tokens of what is selected. -/
def selectionTokens : Option (List Variable) → List Token
  | none => [mark "*"]
  | some vs => vs.map fun v => slotToken (.var v)

/-- The tokens of a clause. -/
def clauseTokens (name : String) : Option Nat → List Token
  | none => []
  | some n => [⟨.word, name⟩, ⟨.number, toString n⟩]

/-- The tokens of the group behind its brace. -/
def groupTokens : List Token :=
  [mark "."].intercalate (q.patterns.map fun p => p.slots.map slotToken) ++
    (q.comparisons.flatMap comparisonTokens ++ [mark "\x7d"])

theorem keyword_pieces (d : Distinctness) :
    Pieces (keyword d) ((keyword d).map fun k => ⟨.word, k⟩) := by
  cases d with
  | none => exact .nil
  | distinct => exact .cons (.word (by decide) (by decide)) .nil
  | reduced => exact .cons (.word (by decide) (by decide)) .nil

theorem selection_pieces : Pieces (selection q.vars) (selectionTokens q.vars) := by
  cases hvars : q.vars with
  | none =>
    have hstar : Writes "*".toList [mark "*"] := fun rest _ => reads_separator (by decide) rest
    exact .cons hstar .nil
  | some vs =>
    have hvs := Pieces.map fun v hv => Slot.Writable.writes (s := .var v) ((q.names vs hvars).2 v hv)
    rwa [← List.map_eq_flatMap] at hvs

theorem patterns_writes {ps : List TuplePattern} (hps : ∀ p ∈ ps, ∀ s ∈ p.slots, s.Writable) :
    Writes (" . ".intercalate (ps.map toString)).toList
      ([mark "."].intercalate (ps.map fun p => p.slots.map slotToken)) := by
  induction ps with
  | nil => exact .nil
  | cons p ps ih =>
    have hp := TuplePattern.writes (hps p List.mem_cons_self)
    have hrest := ih fun p' hp' => hps p' (List.mem_cons_of_mem p hp')
    have hdot : Writes ['.'] [mark "."] := fun rest _ => reads_separator (by decide) rest
    cases ps with
    | nil => simpa using hp
    | cons p' ps => simpa using hp.spaced (hdot.spaced hrest)

theorem clause_pieces {name : String} {n : Option Nat} (hne : name ≠ "")
    (hname : ∀ c ∈ name.toList, isLetter c = true) :
    Pieces (clause name n) (clauseTokens name n) := by
  cases n with
  | none => exact .nil
  | some n => exact .cons (.word hne hname) (.cons (.number n) .nil)

/-- The tokens of the text. -/
def tokens : List Token :=
  (⟨.word, "SELECT"⟩ :: (keyword q.distinctness).map fun k => ⟨.word, k⟩) ++
    selectionTokens q.vars ++ [⟨.word, "WHERE"⟩] ++ (mark "\x7b" :: q.groupTokens) ++
    (clauseTokens "LIMIT" q.limit ++ clauseTokens "OFFSET" q.offset)

theorem where_writes : Writes "WHERE \x7b".toList [⟨.word, "WHERE"⟩, mark "\x7b"] := by
  have hword : Writes "WHERE".toList [⟨.word, "WHERE"⟩] := .word (by decide) (by decide)
  have hopen : Writes ['\x7b'] [mark "\x7b"] := fun rest _ => reads_separator (by decide) rest
  exact hword.spaced hopen

theorem pieces_tokens : Pieces q.pieces q.tokens := by
  have hselect : Writes "SELECT".toList [⟨.word, "SELECT"⟩] := .word (by decide) (by decide)
  have hclose : Writes "\x7d".toList [mark "\x7d"] := fun rest _ => reads_separator (by decide) rest
  have hcomparisons : Pieces (q.comparisons.map fun c => "FILTER(" ++ toString c ++ ")")
      (q.comparisons.flatMap comparisonTokens) :=
    .map fun c hc => Comparison.writes (q.sides c hc).1 (q.sides c hc).2
  have hfront := (Pieces.cons hselect (keyword_pieces q.distinctness)).append q.selection_pieces
  have hgroup := Pieces.cons where_writes (.cons (patterns_writes fun p hp => (q.triples p hp).2)
    (hcomparisons.append (.cons hclose .nil)))
  have hclauses := (clause_pieces (n := q.limit) (by decide : "LIMIT" ≠ "") (by decide)).append
    (clause_pieces (n := q.offset) (by decide : "OFFSET" ≠ "") (by decide))
  have hall := (hfront.append hgroup).append hclauses
  simpa [pieces, tokens, groupTokens] using hall

/-! ### The tokens as a sentence -/

open Grammar

variable {P : Prefixes}

theorem derives_pattern {p : TuplePattern} {ts : List Token} {g : Group}
    (hp : p.arity = 3 ∧ ∀ s ∈ p.slots, s.Writable) (hts : Closes false ts)
    (hg : Body (SlotToken P) ts g) :
    Body (SlotToken P) (p.slots.map slotToken ++ ts) ⟨p :: g.patterns, g.comparisons⟩ := by
  obtain ⟨slots⟩ := p
  obtain ⟨s, v, o, rfl⟩ : ∃ s v o, slots = [s, v, o] := by
    match slots, hp.1 with
    | [s, v, o], _ => exact ⟨s, v, o, rfl⟩
  have hs : s.Writable := hp.2 s (by simp)
  have hv : v.Writable := hp.2 v (by simp)
  have ho : o.Writable := hp.2 o (by simp)
  have hkind : (slotToken v).kind ≠ .literal ∧ (slotToken v).kind ≠ .number := by
    cases v <;> simp [slotToken]
  exact .block (hs.slotToken P)
    (.last (.slot hkind.1 hkind.2 (hv.slotToken P)) (.last (ho.slotToken P))) hts hg

theorem derives_patterns {ps : List TuplePattern} {ts : List Token} {cs : List Comparison}
    (hps : ∀ p ∈ ps, p.arity = 3 ∧ ∀ s ∈ p.slots, s.Writable) (hts : Closes false ts)
    (hg : Body (SlotToken P) ts ⟨[], cs⟩) :
    Body (SlotToken P) ([mark "."].intercalate (ps.map fun p => p.slots.map slotToken) ++ ts)
      ⟨ps, cs⟩ := by
  induction ps with
  | nil => exact hg
  | cons p ps ih =>
    have hp := hps p List.mem_cons_self
    have hrest := ih fun p' hp' => hps p' (List.mem_cons_of_mem p hp')
    cases ps with
    | nil => simpa using derives_pattern hp hts hg
    | cons p' ps =>
      have hdot : Closes false (mark "." :: ([mark "."].intercalate
          ((p' :: ps).map fun p => p.slots.map slotToken) ++ ts)) := ⟨_, rfl, .inl rfl⟩
      simpa using derives_pattern hp hdot (.dot hrest)

theorem derives_comparisons {cs : List Comparison}
    (hcs : ∀ c ∈ cs, c.left.Writable ∧ c.right.Writable) :
    Body (SlotToken P) (cs.flatMap comparisonTokens ++ [mark "\x7d"]) ⟨[], cs⟩ ∧
      Closes false (cs.flatMap comparisonTokens ++ [mark "\x7d"]) := by
  induction cs with
  | nil => exact ⟨.close, _, rfl, .inr (.inl rfl)⟩
  | cons c cs ih =>
    obtain ⟨hl, hr⟩ := hcs c List.mem_cons_self
    have hrest := (ih fun c' hc' => hcs c' (List.mem_cons_of_mem c hc')).1
    have hcomparator : Comparator (mark (toString c.relation)) c.relation := by
      cases c.relation with
      | equal => exact .equal
      | notEqual => exact .notEqual
    have hfilter : Token.isKeyword ⟨.word, "FILTER"⟩ "FILTER" = true := by decide
    exact ⟨.filter hfilter (hl.slotToken P) hcomparator (hr.slotToken P) hrest,
      _, rfl, .inr (.inr ⟨rfl, hfilter⟩)⟩

theorem count_toString {n : Nat} (hn : n < UInt64.size) : Count ⟨.number, toString n⟩ n := by
  have hdigits : (toString n).toList = Nat.toDigits 10 n := by
    simp
  refine .intro rfl (.inl hdigits) Nat.toDigits_ne_nil (fun c hc => ?_) ?_ hn
  · exact Nat.isDigit_of_mem_toDigits (by decide) (by decide) hc
  · exact Nat.ofDigitChars_ten_toDigits

theorem derives_clauses : Clauses {} (clauseTokens "LIMIT" q.limit ++ clauseTokens "OFFSET" q.offset)
    ⟨q.limit, q.offset⟩ := by
  have hoffset : Clauses { limit := q.limit } (clauseTokens "OFFSET" q.offset) ⟨q.limit, q.offset⟩ := by
    cases ho : q.offset with
    | none => exact .nil
    | some n => exact .offset (by decide) (count_toString (q.offset_lt n ho)) .nil
  cases hl : q.limit with
  | none =>
    rw [hl] at hoffset
    exact hoffset
  | some n =>
    rw [hl] at hoffset
    exact .limit (by decide) (count_toString (q.limit_lt n hl)) hoffset

theorem derives_selection :
    Selection q.distinctness (selectionTokens q.vars) (.select q.distinctness q.vars) := by
  cases hvars : q.vars with
  | none => exact .all
  | some vs =>
    obtain ⟨hne, hnames⟩ := q.names vs hvars
    have hspelling : (selectionTokens (some vs)).map (fun t => Variable.ofSpelling t.text) = vs := by
      rw [selectionTokens, List.map_map]
      exact (List.map_congr_left fun v hv => (hnames v hv).ofSpelling).trans (List.map_id vs)
    have hselection : Selection q.distinctness (selectionTokens (some vs)) (.select q.distinctness
        (some ((selectionTokens (some vs)).map fun t => .ofSpelling t.text))) := by
      refine .only (by simpa [selectionTokens] using hne) fun t ht => ?_
      obtain ⟨v, -, rfl⟩ := List.mem_map.1 ht
      rfl
    rwa [hspelling] at hselection

theorem derives : Sentence SlotToken q.tokens
    ⟨.select q.distinctness q.vars, ⟨q.patterns, q.comparisons⟩, ⟨q.limit, q.offset⟩⟩ := by
  have hmodifier : Modifier ((keyword q.distinctness).map fun k => ⟨.word, k⟩) q.distinctness := by
    cases q.distinctness with
    | none => exact .none
    | distinct => exact .distinct (by decide)
    | reduced => exact .reduced (by decide)
  obtain ⟨hfilters, hcloses⟩ := derives_comparisons (P := ∅) q.sides
  have hgroup : Body (SlotToken ∅) q.groupTokens ⟨q.patterns, q.comparisons⟩ :=
    derives_patterns q.triples hcloses hfilters
  have hselect : Token.isKeyword ⟨.word, "SELECT"⟩ "SELECT" = true := by decide
  have hwhere : ∃ w, Token.isKeyword w "WHERE" = true ∧ [(⟨.word, "WHERE"⟩ : Token)] = [w] :=
    ⟨_, by decide, rfl⟩
  have hheading := Heading.select (S := SlotToken ∅) hselect hmodifier q.derives_selection
  have hall := Sentence.intro .nil hheading (.inr hwhere) (.intro hgroup) q.patterns_ne
    q.derives_clauses
  exact hall

/-- No variable that can be written down is a blank node. -/
theorem allNamed_patterns : ParsedQuery.allNamed q.patterns = .all := by
  unfold ParsedQuery.allNamed
  rw [if_pos]
  refine List.all_eq_true.2 fun v hv => ?_
  unfold GraphPattern.vars at hv
  rw [Std.ExtTreeSet.mem_toList, Std.ExtTreeSet.mem_ofList, List.contains_iff_mem] at hv
  obtain ⟨p, hp, hv⟩ := List.mem_flatMap.1 hv
  have hwritable : (Slot.var v).Writable := (q.triples p hp).2 _ (TuplePattern.mem_vars.1 hv)
  simp [Variable.Writable.not_blank hwritable]

end SelectQuery

/-- Reading a query that has been written down gives the query. -/
theorem Query.ofText_text (q : SelectQuery) : Query.ofText? q.text = .ok q.query := by
  have hreads : Reads (q.text.toList ++ []) q.tokens [] :=
    q.pieces_tokens.writes [] (by simp [Stop])
  have htokens : tokenise q.text = .ok q.tokens := by
    rw [List.append_nil] at hreads
    simpa using hreads.tokenise rfl
  have hparsed := Grammar.Sentence.read (fun _ _ _ h => h) q.derives
  rw [Query.ofText?, ParsedQuery.ofText?, htokens]
  simp only [bind, Except.bind, hparsed, Except.map]
  simp only [ParsedQuery.toQuery, SelectQuery.query]
  cases q.vars with
  | none => simp [q.allNamed_patterns]
  | some vs => simp

/-- A query with the signs of comments and of comparisons in its IRIs. -/
def SelectQuery.signed : SelectQuery where
  patterns := [⟨[.var ⟨"s"⟩, .const ⟨"<a#b>"⟩, .var ⟨"_1"⟩]⟩]
  comparisons := [⟨.var ⟨"s"⟩, .notEqual, .const ⟨"<=>"⟩⟩]
  vars := some [⟨"s"⟩]
  distinctness := .distinct
  limit := some 10
  offset := none
  patterns_ne := by decide
  triples := by
    refine List.forall_mem_singleton.2 ⟨rfl, ?_⟩
    simp only [List.forall_mem_cons]
    exact ⟨⟨'s', [], rfl, by decide, by decide⟩, ⟨"a#b".toList, rfl, by decide +kernel⟩,
      ⟨'_', ['1'], rfl, by decide, by decide⟩, by simp⟩
  sides := List.forall_mem_singleton.2
    ⟨⟨'s', [], rfl, by decide, by decide⟩, ⟨"=".toList, rfl, by decide +kernel⟩⟩
  names := by
    rintro _ ⟨rfl⟩
    exact ⟨by decide, List.forall_mem_singleton.2 ⟨'s', [], rfl, by decide, by decide⟩⟩
  limit_lt := by
    rintro _ ⟨rfl⟩
    decide
  offset_lt := by simp

theorem Query.ofText_text_signed :
    Query.ofText? "SELECT DISTINCT ?s WHERE \x7b ?s <a#b> ?_1 FILTER(?s != <=>) \x7d LIMIT 10" =
      .ok SelectQuery.signed.query := by
  have htext : SelectQuery.signed.text =
      "SELECT DISTINCT ?s WHERE \x7b ?s <a#b> ?_1 FILTER(?s != <=>) \x7d LIMIT 10" := by
    decide +kernel
  have hread := Query.ofText_text SelectQuery.signed
  rwa [htext] at hread

end StandingQuery
