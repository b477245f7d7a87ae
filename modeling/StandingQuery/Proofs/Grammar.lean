import StandingQuery.Proofs.Scanning
import StandingQuery.Text.ParsedQuery

/-! The grammar of the query language.

A query is a list of tokens that can be derived: prefix declarations, a heading, a group in
braces and its clauses, each by rules of its own. A rule says which tokens stand where and
what they mean; whatever is not named by a rule is not in the language. Which tokens stand
for slots is a parameter of the rules, `SlotToken` being the reading that queries have.

A token that has a meaning as a slot is none of those that the parser tells apart otherwise
(`SlotToken.isOneOf` and the lemmas like it). So the parser goes from state to state as the
rules go from token to token, and what can be derived is read as it is derived
(`Grammar.Sentence.read`). -/
namespace StandingQuery.Text
open Std

variable {prefixes : Prefixes} {t : Token} {s : Slot}

/-- The token of a punctuation mark. -/
def Token.mark (text : String) : Token := ⟨.punct, text⟩

open Token (mark)

/-! ### Rules -/

/-- What a token stands for as subject, object or side of a comparison. -/
inductive SlotToken (prefixes : Prefixes) (t : Token) : Slot → Prop where
  | var : t.kind = .variable → SlotToken prefixes t (.var (.ofSpelling t.text))
  | iri : t.kind = .iri → SlotToken prefixes t (.const ⟨t.text⟩)
  | literal {term : Term} : t.kind = .literal → expandLiteral prefixes t.text = .ok term →
      SlotToken prefixes t (.const term)
  | number : t.kind = .number → SlotToken prefixes t (.const (numberTerm t.text))
  | boolean : t.kind = .word → t.text = "true" ∨ t.text = "false" →
      SlotToken prefixes t (.const (typed t.text "boolean"))
  | blank {label : List Char} : t.kind = .word → t.text.toList = '_' :: ':' :: label →
      SlotToken prefixes t (.var (.ofSpelling t.text))
  | prefixed {front name : List Char} {iri : String} : t.kind = .word →
      t.text.toList = front ++ ':' :: name → ':' ∉ front → front ≠ ['_'] →
      prefixes[String.ofList front]? = some iri →
      SlotToken prefixes t (.const ⟨"<" ++ iri ++ .ofList name ++ ">"⟩)

namespace Grammar

section
variable (S : Token → Slot → Prop)

/-- What a token stands for as a predicate. -/
inductive Predicate (t : Token) : Slot → Prop where
  | a : t.isKeyword "A" → Predicate t (.const rdfType)
  | slot {p : Slot} : t.kind ≠ .literal → t.kind ≠ .number → S t p → Predicate t p

/-- Objects with commas between them. -/
inductive Objects (s p : Slot) : List Token → List TuplePattern → Prop where
  | last {t : Token} {o : Slot} : S t o → Objects s p [t] [⟨[s, p, o]⟩]
  | more {t : Token} {o : Slot} {ts : List Token} {ps : List TuplePattern} :
      S t o → Objects s p ts ps → Objects s p (t :: mark "," :: ts) (⟨[s, p, o]⟩ :: ps)

/-- Predicates with their objects, semicolons between them; there may be one more semicolon
at the end. -/
inductive Properties (s : Slot) : (trailing : Bool) → List Token → List TuplePattern → Prop where
  | last {t : Token} {p : Slot} {os : List Token} {ps : List TuplePattern} :
      Predicate S t p → Objects S s p os ps → Properties s false (t :: os) ps
  | trailing {t : Token} {p : Slot} {os : List Token} {ps : List TuplePattern} :
      Predicate S t p → Objects S s p os ps → Properties s true (t :: os ++ [mark ";"]) ps
  | more {t : Token} {p : Slot} {os ts : List Token} {ps qs : List TuplePattern} {b : Bool} :
      Predicate S t p → Objects S s p os ps → Properties s b ts qs →
      Properties s b (t :: os ++ mark ";" :: ts) (ps ++ qs)

/-- What may stand behind a block: a dot, a brace or, unless the block ends in a semicolon,
a filter. -/
def Closes (trailing : Bool) (ts : List Token) : Prop :=
  ∃ t ∈ ts.head?, t = mark "." ∨ t = mark "\x7d" ∨ (trailing = false ∧ t.isKeyword "FILTER")

/-- What a token stands for between the sides of a comparison. -/
inductive Comparator : Token → Relation → Prop where
  | equal : Comparator (mark "=") .equal
  | notEqual : Comparator (mark "!=") .notEqual

/-- A group behind its opening brace. -/
inductive Body : List Token → Group → Prop where
  | close : Body [mark "\x7d"] {}
  | dot {ts : List Token} {g : Group} : Body ts g → Body (mark "." :: ts) g
  | filter {k l c r : Token} {left right : Slot} {relation : Relation} {ts : List Token} {g : Group} :
      k.isKeyword "FILTER" → S l left → Comparator c relation → S r right → Body ts g →
      Body (k :: mark "(" :: l :: c :: r :: mark ")" :: ts)
        ⟨g.patterns, ⟨left, relation, right⟩ :: g.comparisons⟩
  | block {t : Token} {s : Slot} {b : Bool} {bs ts : List Token} {ps : List TuplePattern} {g : Group} :
      S t s → Properties S s b bs ps → Closes b ts → Body ts g →
      Body (t :: bs ++ ts) ⟨ps ++ g.patterns, g.comparisons⟩

/-- A group in braces. -/
inductive Braced : List Token → Group → Prop where
  | intro {ts : List Token} {g : Group} : Body S ts g → Braced (mark "\x7b" :: ts) g

/-- A keyword that says how often a solution is delivered. -/
inductive Modifier : List Token → Distinctness → Prop where
  | none : Modifier [] .none
  | distinct {t : Token} : t.isKeyword "DISTINCT" → Modifier [t] .distinct
  | reduced {t : Token} : t.isKeyword "REDUCED" → Modifier [t] .reduced

/-- What is selected: all variables, or some. -/
inductive Selection (d : Distinctness) : List Token → Form → Prop where
  | all : Selection d [mark "*"] (.select d none)
  | only {vs : List Token} : vs ≠ [] → (∀ v ∈ vs, v.kind = .variable) →
      Selection d vs (.select d (some (vs.map fun v => .ofSpelling v.text)))

/-- What a query wants. A template holds no filter. -/
inductive Heading : List Token → Form → Prop where
  | select {t : Token} {ms vs : List Token} {d : Distinctness} {form : Form} :
      t.isKeyword "SELECT" → Modifier ms d → Selection d vs form → Heading (t :: ms ++ vs) form
  | ask {t : Token} : t.isKeyword "ASK" → Heading [t] .ask
  | construct {t : Token} {ts : List Token} {g : Group} : t.isKeyword "CONSTRUCT" → Braced S ts g →
      g.comparisons = [] → Heading (t :: ts) (.construct g.patterns)

end

/-- Prefix declarations, and the namespaces with them. A name ends in its only colon. -/
inductive Declarations : Prefixes → List Token → Prefixes → Prop where
  | nil {P : Prefixes} : Declarations P [] P
  | cons {P P' : Prefixes} {k n i : Token} {front : List Char} {ts : List Token} :
      k.isKeyword "PREFIX" → n.kind = .word → n.text.toList = front ++ [':'] → ':' ∉ front →
      i.kind = .iri →
      Declarations (P.insert (.ofList front) (.ofList (i.text.toList.drop 1).dropLast)) ts P' →
      Declarations P (k :: n :: i :: ts) P'

/-- A number without a point or a minus, and its value, which is below 2^64. -/
inductive Count (t : Token) : Nat → Prop where
  | intro {digits : List Char} {n : Nat} : t.kind = .number →
      t.text.toList = digits ∨ t.text.toList = '+' :: digits → digits ≠ [] →
      (∀ c ∈ digits, c.isDigit) → Nat.ofDigitChars 10 digits 0 = n → n < UInt64.size → Count t n

/-- Limits and offsets; the last one of each counts. -/
inductive Clauses : Paging → List Token → Paging → Prop where
  | nil {p : Paging} : Clauses p [] p
  | limit {p p' : Paging} {k t : Token} {n : Nat} {ts : List Token} : k.isKeyword "LIMIT" →
      Count t n → Clauses { p with limit := some n } ts p' → Clauses p (k :: t :: ts) p'
  | offset {p p' : Paging} {k t : Token} {n : Nat} {ts : List Token} : k.isKeyword "OFFSET" →
      Count t n → Clauses { p with offset := some n } ts p' → Clauses p (k :: t :: ts) p'

/-- A whole query. Its group is not empty; the word before it may be left out. -/
inductive Sentence (S : Prefixes → Token → Slot → Prop) : List Token → ParsedQuery → Prop where
  | intro {prefixes : Prefixes} {form : Form} {group : Group} {paging : Paging}
      {ds hs ws gs cs : List Token} :
      Declarations ∅ ds prefixes → Heading (S prefixes) hs form →
      ws = [] ∨ (∃ w, w.isKeyword "WHERE" ∧ ws = [w]) →
      Braced (S prefixes) gs group → group.patterns ≠ [] → Clauses {} cs paging →
      Sentence S (ds ++ hs ++ ws ++ gs ++ cs) ⟨form, group, paging⟩

end Grammar

/-! ### Slots -/

theorem splitColon_eq_some_iff {l front name : List Char} :
    splitColon l = some (front, name) ↔ l = front ++ ':' :: name ∧ ':' ∉ front := by
  unfold splitColon
  constructor
  · intro h
    have hsplit := List.takeWhile_append_dropWhile (p := (· ≠ ':')) (l := l)
    have hfirst := List.head?_dropWhile_not (· ≠ ':') l
    split at h
    · next c after hd =>
      rw [hd] at hsplit hfirst
      obtain rfl : c = ':' := by simpa using hfirst
      obtain ⟨rfl, rfl⟩ := Prod.mk.inj (Option.some.inj h)
      exact ⟨hsplit.symm, fun hmem => by simpa using List.mem_takeWhile_imp hmem⟩
    · cases h
  · rintro ⟨rfl, hfront⟩
    have hpos : ∀ c ∈ front, decide (c ≠ ':') = true := fun c hc =>
      decide_eq_true fun h => hfront (h ▸ hc)
    rw [List.dropWhile_append_of_pos hpos, List.takeWhile_append_of_pos hpos]
    simp

theorem expandPrefixed_eq_ok_iff {l : List Char} {term : String} :
    expandPrefixed prefixes l = .ok term ↔
      ∃ front name iri, l = front ++ ':' :: name ∧ ':' ∉ front ∧
        prefixes[String.ofList front]? = some iri ∧ term = "<" ++ iri ++ .ofList name ++ ">" := by
  unfold expandPrefixed
  constructor
  · intro h
    split at h
    · cases h
    · next front name hsplit =>
      split at h
      · cases h
      · next iri hiri =>
        obtain ⟨hl, hfront⟩ := splitColon_eq_some_iff.1 hsplit
        exact ⟨front, name, iri, hl, hfront, hiri, (Except.ok.inj h).symm⟩
  · rintro ⟨front, name, iri, hl, hfront, hiri, rfl⟩
    rw [splitColon_eq_some_iff.2 ⟨hl, hfront⟩]
    simp only [hiri]

theorem isBlankNode_iff {text : String} :
    isBlankNode text = true ↔ ∃ label, text.toList = '_' :: ':' :: label := by
  unfold isBlankNode
  rw [List.isPrefixOf_iff_prefix]
  exact ⟨fun ⟨label, h⟩ => ⟨label, h.symm⟩, fun ⟨label, h⟩ => ⟨label, h.symm⟩⟩

/-- A text with a colon is a blank node or a prefixed name, by what stands in front of the colon. -/
theorem isBlankNode_iff_front {text : String} {front name : List Char}
    (htext : text.toList = front ++ ':' :: name) (hfront : ':' ∉ front) :
    isBlankNode text = true ↔ front = ['_'] := by
  rw [isBlankNode_iff]
  constructor
  · rintro ⟨label, hlabel⟩
    have hsplit := splitColon_eq_some_iff.2 ⟨htext, hfront⟩
    have hblank : splitColon text.toList = some (['_'], label) :=
      splitColon_eq_some_iff.2 ⟨hlabel, by decide⟩
    rw [hsplit] at hblank
    exact (Prod.mk.inj (Option.some.inj hblank)).1
  · rintro rfl
    exact ⟨name, htext⟩

theorem SlotToken.of_read (h : slot prefixes t = .ok s) : SlotToken prefixes t s := by
  unfold slot at h
  split at h
  case h_1 hk => exact Except.ok.inj h ▸ .var hk
  case h_2 hk => exact Except.ok.inj h ▸ .iri hk
  case h_3 hk =>
    obtain ⟨term, hterm, rfl⟩ := map_eq_ok_iff.1 h
    exact .literal hk hterm
  case h_4 hk => exact Except.ok.inj h ▸ .number hk
  case h_5 hk =>
    split at h
    · next hblank =>
      obtain ⟨label, hlabel⟩ := isBlankNode_iff.1 hblank
      exact Except.ok.inj h ▸ .blank hk hlabel
    · next hblank =>
      split at h
      · next htruth => exact Except.ok.inj h ▸ .boolean hk htruth
      split at h
      · obtain ⟨_, hexpand, rfl⟩ := map_eq_ok_iff.1 h
        obtain ⟨front, name, iri, htext, hfront, hiri, rfl⟩ := expandPrefixed_eq_ok_iff.1 hexpand
        exact .prefixed hk htext hfront (mt (isBlankNode_iff_front htext hfront).2 hblank) hiri
      · cases h
  case h_6 hk =>
    split at h <;> cases h

theorem SlotToken.read (h : SlotToken prefixes t s) : slot prefixes t = .ok s := by
  unfold slot
  cases h with
  | var hk => simp only [hk]
  | iri hk => simp only [hk]
  | literal hk hterm => simp only [hk, hterm, Except.map]
  | number hk => simp only [hk]
  | boolean hk htruth =>
    have hblank : isBlankNode t.text = false := by
      rcases htruth with h | h <;> rw [h] <;> decide
    simp only [hk, hblank, Bool.false_eq_true, if_false, htruth, if_true]
  | blank hk hlabel => simp only [hk, isBlankNode_iff.2 ⟨_, hlabel⟩, if_true]
  | @prefixed front name iri hk htext hfront hne hiri =>
    have hblank : ¬ isBlankNode t.text = true := mt (isBlankNode_iff_front htext hfront).1 hne
    have hcolon : ':' ∈ t.text.toList := by simp [htext]
    have htruth : ¬ (t.text = "true" ∨ t.text = "false") := by
      rintro (h | h) <;> rw [h] at hcolon <;> revert hcolon <;> decide
    have hexpand := expandPrefixed_eq_ok_iff.2 ⟨_, _, _, htext, hfront, hiri, rfl⟩
    simp only [hk, hblank, htruth, if_false, List.contains_iff_mem.2 hcolon, if_true, hexpand]
    rfl

/-! ### What a slot is not -/

theorem Token.isPunct_iff {text : String} : t.isPunct text = true ↔ t = mark text := by
  obtain ⟨kind, own⟩ := t
  simp [isPunct, mark]

theorem Token.isOneOf_iff {texts : List String} :
    t.isOneOf texts = true ↔ ∃ text ∈ texts, t = mark text := by
  obtain ⟨kind, own⟩ := t
  simp only [isOneOf, mark, Token.mk.injEq, Bool.and_eq_true, beq_iff_eq, List.contains_iff_mem]
  exact ⟨fun ⟨hk, ho⟩ => ⟨own, ho, hk, rfl⟩, fun ⟨_, ho, hk, he⟩ => ⟨hk, he ▸ ho⟩⟩

theorem Token.isPunct_of_kind_ne (h : t.kind ≠ .punct) (text : String) :
    t.isPunct text = false := by
  simp [isPunct, h]

theorem Token.isOneOf_of_kind_ne (h : t.kind ≠ .punct) (texts : List String) :
    t.isOneOf texts = false := by
  simp [isOneOf, h]

theorem Token.kind_of_isKeyword {k : String} (h : t.isKeyword k = true) : t.kind = .word := by
  by_contra hk
  simp [isKeyword, keyword?, hk] at h

theorem Token.isKeyword_iff {k : String} : t.isKeyword k = true ↔ t.keyword? = some k :=
  beq_iff_eq

theorem Token.isPunct_of_isKeyword {k : String} (h : t.isKeyword k = true) (text : String) :
    t.isPunct text = false := by
  simp [isPunct, kind_of_isKeyword h]

theorem Token.isOneOf_of_isKeyword {k : String} (h : t.isKeyword k = true) (texts : List String) :
    t.isOneOf texts = false := by
  simp [isOneOf, kind_of_isKeyword h]

namespace SlotToken

theorem kind_ne (h : SlotToken prefixes t s) : t.kind ≠ .punct := by
  cases h <;> simp [*]

theorem isPunct (h : SlotToken prefixes t s) (text : String) : t.isPunct text = false :=
  Token.isPunct_of_kind_ne h.kind_ne text

theorem isOneOf (h : SlotToken prefixes t s) (texts : List String) : t.isOneOf texts = false :=
  Token.isOneOf_of_kind_ne h.kind_ne texts

/-- Words with a colon are no keywords, so only the truth values are. -/
theorem keyword? (h : SlotToken prefixes t s) {k : String} (hk : t.keyword? = some k) :
    k = "TRUE" ∨ k = "FALSE" := by
  unfold Token.keyword? at hk
  split at hk
  · next hword =>
    obtain ⟨hkind, hcolon⟩ := hword
    cases h with
    | boolean _ ht =>
      rcases ht with ht | ht <;> rw [ht] at hk
      · exact .inl (Option.some.inj hk).symm
      · exact .inr (Option.some.inj hk).symm
    | blank _ hl => simp [hl] at hcolon
    | prefixed _ hl => simp [hl] at hcolon
    | _ => simp_all
  · cases hk

theorem isKeyword (h : SlotToken prefixes t s) {k : String} (hk : k ≠ "TRUE" ∧ k ≠ "FALSE") :
    t.isKeyword k = false := by
  rw [Bool.eq_false_iff]
  intro hkey
  rcases h.keyword? (eq_of_beq hkey) with h | h
  · exact hk.1 h
  · exact hk.2 h

theorem unsupported? (h : SlotToken prefixes t s) : t.unsupported? = none := by
  unfold Token.unsupported?
  cases hk : t.keyword? with
  | none => rfl
  | some k => rcases h.keyword? hk with rfl | rfl <;> rfl

end SlotToken

theorem predicate_eq_ok_iff {next : Option Token} {p : Slot} :
    predicate prefixes t next = .ok p ↔
      t.isOneOf ["^", "!", "("] = false ∧ t.kind ≠ .literal ∧ t.kind ≠ .number ∧
        next.any (·.isOneOf ["/", "|", "^", "+", "*", "?"]) = false ∧
        (t.isKeyword "A" = true ∧ .const rdfType = p ∨
          t.isKeyword "A" = false ∧ slot prefixes t = .ok p) := by
  unfold predicate
  by_cases hmark : t.isOneOf ["^", "!", "("] = true
  · simp [hmark, throw, throwThe, MonadExceptOf.throw, bind, Except.bind]
  by_cases hliteral : t.kind = .literal ∨ t.kind = .number
  · simp only [hmark, hliteral, throw, throwThe, MonadExceptOf.throw, bind, Except.bind]
    grind
  have hkind := not_or.1 hliteral
  by_cases hpath : next.any (·.isOneOf ["/", "|", "^", "+", "*", "?"]) = true
  · by_cases ha : t.isKeyword "A" = true <;> cases slot prefixes t <;>
      simp [hmark, hliteral, hpath, ha, throw, throwThe, MonadExceptOf.throw, bind, Except.bind,
        pure, Except.pure]
  · by_cases ha : t.isKeyword "A" = true <;> cases slot prefixes t <;>
      simp [hmark, hkind, hpath, ha, bind, Except.bind, pure, Except.pure]

/-! ### What is derived is read

Every rule takes the reading of a group from one place to another. -/

variable {S : Token → Slot → Prop} {g h : Group} {r r' : Reading} {next : Option Token}
variable {ts rest : List Token} {ps : List TuplePattern} {p : Slot} {trailing : Bool}

/-- What has been read, and more. -/
def Group.append (g h : Group) : Group :=
  ⟨g.patterns ++ h.patterns, g.comparisons ++ h.comparisons⟩

theorem readItems_cons {a : Reading}
    (ht : readToken prefixes g t rest.head? r = .ok (.reading a h)) :
    readItems prefixes r g (t :: rest) = readItems prefixes a h rest := by
  rw [readItems, ht]
  rfl

theorem readItems_ended (ht : readToken prefixes g t rest.head? r = .ok .ended) :
    readItems prefixes r g (t :: rest) = .ok (g, rest) := by
  rw [readItems, ht]
  rfl

namespace Grammar

theorem Predicate.read (hS : ∀ t s, S t s → SlotToken prefixes t s) (hp : Predicate S t p)
    (hnext : ∀ n ∈ next, n.kind ≠ .punct) : predicate prefixes t next = .ok p := by
  have hpath : next.any (·.isOneOf ["/", "|", "^", "+", "*", "?"]) = false := by
    cases next with
    | none => rfl
    | some n => exact Token.isOneOf_of_kind_ne (hnext n rfl) _
  refine predicate_eq_ok_iff.2 ?_
  cases hp with
  | a ha =>
    have hword := Token.kind_of_isKeyword ha
    exact ⟨Token.isOneOf_of_isKeyword ha _, by simp [hword], by simp [hword], hpath, .inl ⟨ha, rfl⟩⟩
  | slot hliteral hnumber hs =>
    have hslot := hS t p hs
    exact ⟨hslot.isOneOf _, hliteral, hnumber, hpath,
      .inr ⟨hslot.isKeyword (by decide), hslot.read⟩⟩

section
variable (hS : ∀ t s, S t s → SlotToken prefixes t s)
include hS

theorem Objects.read (hos : Objects S s p ts ps) :
    readItems prefixes (.object s p) g (ts ++ rest) =
      readItems prefixes (.separator s p) ⟨g.patterns ++ ps, g.comparisons⟩ rest := by
  induction hos generalizing g with
  | @last t o ho =>
    refine readItems_cons ?_
    simp [readToken, (hS t o ho).read, Except.map]
  | @more t o ts ps ho _ ih =>
    rw [List.cons_append, readItems_cons (a := .separator s p)
        (h := ⟨g.patterns ++ [⟨[s, p, o]⟩], g.comparisons⟩), List.cons_append,
      readItems_cons (a := .object s p) (h := ⟨g.patterns ++ [⟨[s, p, o]⟩], g.comparisons⟩), ih]
    · simp
    · simp [readToken, Token.isPunct, mark]
    · simp [readToken, (hS t o ho).read, Except.map]

theorem Objects.head_kind (hos : Objects S s p ts ps) :
    ∀ n ∈ (ts ++ rest).head?, n.kind ≠ .punct := by
  intro n hn
  cases hos with
  | last ho => exact Option.some.inj hn ▸ (hS _ _ ho).kind_ne
  | more ho _ => exact Option.some.inj hn ▸ (hS _ _ ho).kind_ne

theorem Predicate.isOneOf (hp : Predicate S t p) (texts : List String) : t.isOneOf texts = false := by
  cases hp with
  | a ha => exact Token.isOneOf_of_isKeyword ha texts
  | slot _ _ hs => exact (hS t p hs).isOneOf texts

omit hS in
theorem readItems_separator (hrest : Closes false rest) :
    readItems prefixes (.separator s p) g rest = readItems prefixes .items g rest := by
  obtain ⟨t, ht, hclose⟩ := hrest
  obtain ⟨after, rfl⟩ := List.head?_eq_some_iff.1 ht
  rw [readItems, readItems]
  have hread : readToken prefixes g t after.head? (.separator s p) =
      readToken prefixes g t after.head? .items := by
    rcases hclose with rfl | rfl | ⟨-, hfilter⟩
    · simp [readToken, Token.isPunct, Token.isOneOf, mark]
    · simp [readToken, Token.isPunct, Token.isOneOf, mark]
    · simp [readToken, Token.isPunct_of_isKeyword hfilter, hfilter]
  rw [hread]

omit hS in
theorem readItems_continuation (hrest : Closes true rest) :
    readItems prefixes (.continuation s) g rest = readItems prefixes .items g rest := by
  obtain ⟨t, ht, hclose⟩ := hrest
  obtain ⟨after, rfl⟩ := List.head?_eq_some_iff.1 ht
  rw [readItems, readItems]
  rcases hclose with rfl | rfl | ⟨hfalse, -⟩
  · simp [readToken, Token.isOneOf, mark]
  · simp [readToken, Token.isOneOf, mark]
  · cases hfalse

/-- A predicate behind a semicolon is read as any other. -/
theorem readItems_predicate (hp : Predicate S t p) :
    readItems prefixes (.continuation s) g (t :: rest) =
      readItems prefixes (.predicate s) g (t :: rest) := by
  rw [readItems, readItems]
  simp [readToken, hp.isOneOf hS]

theorem Objects.read_behind (hp : Predicate S t p) (hos : Objects S s p ts ps) :
    readItems prefixes (.predicate s) g (t :: (ts ++ rest)) =
      readItems prefixes (.separator s p) ⟨g.patterns ++ ps, g.comparisons⟩ rest := by
  have hhead : ∀ n ∈ (ts ++ rest).head?, n.kind ≠ .punct := hos.head_kind hS
  have hread := hp.read hS hhead
  rw [readItems_cons (a := .object s p) (h := g), hos.read hS]
  rw [readToken, hread]
  rfl

omit hS in
theorem Properties.head (hps : Properties S s trailing ts ps) :
    ∃ t after p, ts = t :: after ∧ Predicate S t p := by
  cases hps with
  | last hp _ => exact ⟨_, _, _, rfl, hp⟩
  | trailing hp _ => exact ⟨_, _, _, rfl, hp⟩
  | more hp _ _ => exact ⟨_, _, _, rfl, hp⟩

/-- The objects of one predicate, and a semicolon in front of the next one. -/
theorem Objects.read_more {b : Bool} {os : List Token} {qs : List TuplePattern}
    (hos : Objects S s p os ps) (hp : Predicate S t p) (hts : Properties S s b ts qs) :
    readItems prefixes (.predicate s) g (t :: os ++ mark ";" :: ts ++ rest) =
      readItems prefixes (.predicate s) ⟨g.patterns ++ ps, g.comparisons⟩ (ts ++ rest) := by
  obtain ⟨n, after, q, rfl, hn⟩ := hts.head
  rw [List.append_assoc, List.cons_append, hos.read_behind hS hp, List.cons_append,
    readItems_cons (a := .continuation s) (h := ⟨g.patterns ++ ps, g.comparisons⟩),
    List.cons_append, readItems_predicate hS hn]
  simp [readToken, Token.isPunct, mark]

/-- Behind a last semicolon the subject may be described further. -/
theorem Properties.read_trailing (hps : Properties S s true ts ps) :
    readItems prefixes (.predicate s) g (ts ++ rest) =
      readItems prefixes (.continuation s) ⟨g.patterns ++ ps, g.comparisons⟩ rest := by
  generalize htrailing : true = trailing at hps
  induction hps generalizing g with
  | last => cases htrailing
  | @trailing t p os ps hp hos =>
    rw [List.append_assoc, List.cons_append, hos.read_behind hS hp, List.singleton_append,
      readItems_cons (a := .continuation s) (h := ⟨g.patterns ++ ps, g.comparisons⟩)]
    simp [readToken, Token.isPunct, mark]
  | @more t p os ts ps qs b hp hos hts ih =>
    rw [hos.read_more hS hp hts, ih htrailing]
    simp

theorem Properties.read (hps : Properties S s trailing ts ps) (hrest : Closes trailing rest) :
    readItems prefixes (.predicate s) g (ts ++ rest) =
      readItems prefixes .items ⟨g.patterns ++ ps, g.comparisons⟩ rest := by
  cases trailing with
  | true => rw [hps.read_trailing hS, readItems_continuation hrest]
  | false =>
    generalize htrailing : false = trailing at hps
    induction hps generalizing g with
    | @last t p os ps hp hos =>
      rw [List.cons_append, hos.read_behind hS hp, readItems_separator hrest]
    | trailing => cases htrailing
    | @more t p os ts ps qs b hp hos hts ih =>
      rw [hos.read_more hS hp hts, ih htrailing]
      simp

theorem readItem_of_slot (hs : S t s) :
    readItem prefixes g t = .ok (.reading (.predicate s) g) := by
  have hslot := hS t s hs
  have hfilter : t.isKeyword "FILTER" = false := hslot.isKeyword (by decide)
  simp [readItem, hslot.isPunct, hfilter, hslot.unsupported?, hslot.read, Except.map]

theorem operand_of_slot (hs : S t s) (hnext : ∀ n ∈ next, n.isPunct "(" = false) :
    operand prefixes t next = .ok s := by
  have hslot := hS t s hs
  have hcall : next.any (·.isPunct "(") = false := by
    cases next with
    | none => rfl
    | some n => exact hnext n rfl
  simp [operand, hslot.isPunct, hcall, hslot.read]

omit hS in
theorem Comparator.read {relation : Relation} (hc : Comparator t relation) :
    StandingQuery.Text.relation t = .ok relation := by
  cases hc <;> simp [StandingQuery.Text.relation, Token.isPunct, mark]

omit hS in
theorem readItems_dot :
    readItems prefixes .items g (mark "." :: rest) = readItems prefixes .items g rest :=
  readItems_cons (by simp [readToken, readItem, Token.isPunct, mark])

theorem readItems_filter {k l c r : Token} {left right : Slot} {relation : Relation}
    (hk : k.isKeyword "FILTER") (hl : S l left) (hc : Comparator c relation) (hr : S r right) :
    readItems prefixes .items g (k :: mark "(" :: l :: c :: r :: mark ")" :: rest) =
      readItems prefixes .items ⟨g.patterns, g.comparisons ++ [⟨left, relation, right⟩]⟩ rest := by
  have hfilter (next) : readToken prefixes g k next .items = .ok (.reading .filter g) := by
    simp [readToken, readItem, Token.isPunct_of_isKeyword hk, hk]
  have hopen (next) : readToken prefixes g (mark "(") next .filter = .ok (.reading .left g) := by
    simp [readToken, Token.isPunct, mark]
  have hleft : readToken prefixes g l (some c) .left = .ok (.reading (.relation left) g) := by
    have hcall : ∀ n ∈ some c, n.isPunct "(" = false := by
      rintro _ ⟨rfl⟩
      cases hc <;> simp [Token.isPunct, mark]
    simp [readToken, operand_of_slot hS hl hcall, Except.map]
  have hrelation (next) : readToken prefixes g c next (.relation left) =
      .ok (.reading (.right left relation) g) := by
    simp [readToken, hc.read, Except.map]
  have hright : readToken prefixes g r (some (mark ")")) (.right left relation) =
      .ok (.reading (.close ⟨left, relation, right⟩) g) := by
    have hcall : ∀ n ∈ some (mark ")"), n.isPunct "(" = false := by
      rintro _ ⟨rfl⟩
      simp [Token.isPunct, mark]
    simp [readToken, operand_of_slot hS hr hcall, Except.map]
  have hclose (next) : readToken prefixes g (mark ")") next (.close ⟨left, relation, right⟩) =
      .ok (.reading .items ⟨g.patterns, g.comparisons ++ [⟨left, relation, right⟩]⟩) := by
    simp [readToken, Token.isPunct, mark]
  rw [readItems_cons (hfilter _), readItems_cons (hopen _), readItems_cons hleft,
    readItems_cons (hrelation _), readItems_cons hright, readItems_cons (hclose _)]

theorem readItems_subject (hs : S t s) :
    readItems prefixes .items g (t :: rest) = readItems prefixes (.predicate s) g rest :=
  readItems_cons (readItem_of_slot hS hs)

theorem readItems_block (hs : S t s) (hps : Properties S s trailing ts ps)
    (hrest : Closes trailing rest) :
    readItems prefixes .items g (t :: ts ++ rest) =
      readItems prefixes .items ⟨g.patterns ++ ps, g.comparisons⟩ rest := by
  rw [List.cons_append, readItems_subject hS hs, hps.read hS hrest]

theorem Body.read (hb : Body S ts h) :
    readItems prefixes .items g (ts ++ rest) = .ok (g.append h, rest) := by
  induction hb generalizing g with
  | close =>
    rw [List.singleton_append, readItems_ended]
    · simp [Group.append]
    · simp [readToken, readItem, Token.isPunct, mark]
  | dot _ ih => rw [List.cons_append, readItems_dot, ih]
  | @filter k l c r left right relation ts h hk hl hc hr _ ih =>
    simp only [List.cons_append]
    rw [readItems_filter hS hk hl hc hr, ih]
    simp [Group.append]
  | @block t s b bs ts ps h hs hps hclose _ ih =>
    have hclose' : Closes b (ts ++ rest) := by
      obtain ⟨u, hu, hmark⟩ := hclose
      exact ⟨u, by simp [Option.mem_def.1 hu], hmark⟩
    rw [List.append_assoc, readItems_block hS hs hps hclose', ih]
    simp [Group.append]

end

/-! ### Groups in braces -/

theorem append_empty : ({} : Group).append h = h := by
  simp [Group.append]

theorem Braced.read (hS : ∀ t s, S t s → SlotToken prefixes t s) (hb : Braced S ts h) :
    readGroup prefixes (ts ++ rest) = .ok (h, rest) := by
  obtain ⟨hb⟩ := hb
  rw [List.cons_append, readGroup, if_pos (Token.isPunct_iff.2 rfl), hb.read hS, append_empty]

/-! ### Prefix declarations -/

variable {P P' : Prefixes} {tokens : List Token}

theorem prefixName?_eq_some_iff {front : String} :
    prefixName? t = some front ↔
      t.kind = .word ∧ t.text.toList = front.toList ++ [':'] ∧ ':' ∉ front.toList := by
  unfold prefixName?
  constructor
  · intro h
    split at h
    · next back hkind hback =>
      split at h
      · cases h
      · next hcolon =>
        obtain rfl := Option.some.inj h
        refine ⟨hkind, ?_, by simpa using hcolon⟩
        rw [← List.reverse_reverse t.text.toList, hback]
        simp
    · cases h
  · rintro ⟨hkind, htext, hcolon⟩
    have hback : t.text.toList.reverse = ':' :: front.toList.reverse := by simp [htext]
    rw [hkind, hback]
    simp [hcolon]

theorem Declarations.read (hd : Declarations P ts P')
    (hrest : ∀ t ∈ rest.head?, t.isKeyword "PREFIX" = false) :
    readPrologue P (ts ++ rest) = .ok (P', rest) := by
  induction hd with
  | nil =>
    cases rest with
    | nil => rfl
    | cons t rest =>
      unfold readPrologue
      simp [hrest t rfl]
  | @cons P P' k n i front ts hk hn hname hcolon hi _ ih =>
    have hfront : prefixName? n = some (.ofList front) :=
      prefixName?_eq_some_iff.2 ⟨hn, by simpa using hname, by simpa using hcolon⟩
    rw [List.cons_append, List.cons_append, List.cons_append, ← ih, readPrologue]
    simp only [hk, hfront, hi, Bool.not_true, Bool.false_eq_true, if_false, if_true]

/-! ### Headings -/

variable {form : Form}

theorem Selection.read {d : Distinctness} (hs : Selection d ts form)
    (hrest : ∀ t ∈ rest.head?, t.kind ≠ .variable ∧ t.isPunct "(" = false) :
    readSelection d (ts ++ rest) = .ok (form, rest) := by
  cases hs with
  | all => simp [readSelection, Token.isPunct, mark]
  | only hne hvars =>
    have hrun : ∀ v ∈ ts, (v.kind == TokenKind.variable) = true := fun v hv => by
      simp [hvars v hv]
    have hstop : ∀ t ∈ rest.head?, (t.kind == TokenKind.variable) = false := fun t ht => by
      simp [(hrest t ht).1]
    have hopen : rest.head?.any (·.isPunct "(") = false := by
      cases hr : rest.head? with
      | none => rfl
      | some t => exact (hrest t hr).2
    have hstar : (ts ++ rest).head?.map (·.isPunct "*") = some false := by
      obtain ⟨v, vs, rfl⟩ := List.exists_cons_of_ne_nil hne
      simp [Token.isPunct, hvars v List.mem_cons_self]
    simp only [readSelection, hstar, takeWhile_append_of_stop hrun hstop,
      dropWhile_append_of_stop hrun hstop, hopen]
    simp [hne]

/-- What is selected does not begin with a keyword. -/
theorem Selection.keyword?_head {d : Distinctness} (hs : Selection d ts form) :
    (ts ++ rest).head?.bind Token.keyword? = none := by
  cases hs with
  | all => rfl
  | only hne hvars =>
    obtain ⟨v, vs, rfl⟩ := List.exists_cons_of_ne_nil hne
    simp [Token.keyword?, hvars v List.mem_cons_self]

theorem Heading.read (hS : ∀ t s, S t s → SlotToken prefixes t s) (hh : Heading S ts form)
    (hrest : ∀ t ∈ rest.head?, t.kind ≠ .variable ∧ t.isPunct "(" = false) :
    readForm prefixes (ts ++ rest) = .ok (form, rest) := by
  cases hh with
  | @select t ms vs d _ ht hm hs =>
    have hselect := hs.read hrest
    cases hm with
    | none =>
      rw [List.append_assoc, List.cons_append, readForm]
      simp only [Token.isKeyword_iff.1 ht, List.nil_append, hs.keyword?_head, hselect]
    | distinct hd => simp [readForm, Token.isKeyword_iff.1 ht, Token.isKeyword_iff.1 hd, hselect]
    | reduced hr => simp [readForm, Token.isKeyword_iff.1 ht, Token.isKeyword_iff.1 hr, hselect]
  | @ask t ht => simp [readForm, Token.isKeyword_iff.1 ht]
  | @construct t ts g ht hb hnone =>
    have hopen : (ts ++ rest).head?.any (·.isPunct "\x7b") = true := by
      obtain ⟨hb⟩ := hb
      simp [Token.isPunct, mark]
    have hread : readGroup prefixes (ts ++ rest) = .ok (g, rest) := hb.read hS
    simp only [readForm, List.cons_append, Token.isKeyword_iff.1 ht, hopen, hread]
    simp [hnone, bind, Except.bind, pure, Except.pure]

/-! ### Clauses -/

theorem decimalValue?_eq_some_iff {digits : List Char} {n : Nat} :
    decimalValue? digits = some n ↔
      digits ≠ [] ∧ (∀ c ∈ digits, c.isDigit) ∧ Nat.ofDigitChars 10 digits 0 = n := by
  -- The fold with a value of its own to start from.
  have hfold (m : Nat) : digits.foldl (fun n c =>
      if c.isDigit then n.map fun n => n * 10 + (c.toNat - '0'.toNat) else none) (some m) =
        if ∀ c ∈ digits, c.isDigit then some (Nat.ofDigitChars 10 digits m) else none := by
    induction digits generalizing m with
    | nil => simp
    | cons c digits ih =>
      by_cases hc : c.isDigit
      · rw [List.foldl_cons, if_pos hc, Option.map_some, ih]
        simp [hc, Nat.ofDigitChars_cons, Nat.mul_comm]
      · rw [List.foldl_cons, if_neg hc, if_neg fun h => hc (h c List.mem_cons_self)]
        clear ih
        induction digits with
        | nil => rfl
        | cons d digits ih =>
          rw [List.foldl_cons]
          split <;> exact ih
  unfold decimalValue?
  rw [hfold]
  by_cases hempty : digits = []
  · simp [hempty]
  · simp [hempty]

theorem count?_eq_some_iff {n : Nat} : count? t = some n ↔ Count t n := by
  unfold count?
  constructor
  · intro h
    split at h
    · next hk =>
      obtain ⟨hvalue, hlt⟩ := Option.filter_eq_some_iff.1 h
      obtain ⟨hne, hdigits, hn⟩ := decimalValue?_eq_some_iff.1 hvalue
      refine .intro hk ?_ hne hdigits hn (by simpa using hlt)
      split <;> simp_all
    · cases h
  · rintro ⟨hk, htext, hne, hdigits, hn, hlt⟩
    have hvalue := decimalValue?_eq_some_iff.2 ⟨hne, hdigits, hn⟩
    rw [if_pos hk]
    rcases htext with htext | htext <;> rw [htext]
    · split
      · next after => exact absurd (hdigits '+' List.mem_cons_self) (by decide)
      · simp [hvalue, hlt]
    · simp [hvalue, hlt]

theorem readCount_eq_ok_iff {name : String} {n : Nat} :
    readCount name [t] = .ok n ↔ Count t n := by
  rw [← count?_eq_some_iff, readCount]
  cases count? t <;> simp

theorem clauses_iff {p p' : Paging} : readPaging p ts = .ok p' ↔ Clauses p ts p' := by
  constructor
  · intro h
    fun_induction readPaging p ts with
    | case1 p =>
      cases h
      exact .nil
    | case2 p k hk | case3 p k hk =>
      obtain ⟨n, hn, -⟩ := bind_eq_ok_iff.1 h
      cases hn
    | case5 p k t rest hk ih =>
      obtain ⟨n, hn, hrest⟩ := bind_eq_ok_iff.1 h
      exact .limit (Token.isKeyword_iff.2 hk) (readCount_eq_ok_iff.1 hn) (ih n hrest)
    | case6 p k t rest hk ih =>
      obtain ⟨n, hn, hrest⟩ := bind_eq_ok_iff.1 h
      exact .offset (Token.isKeyword_iff.2 hk) (readCount_eq_ok_iff.1 hn) (ih n hrest)
    | _ => cases h
  · intro h
    induction h with
    | nil => rfl
    | @limit p p' k t n ts hk hc _ ih =>
      rw [readPaging]
      simp [Token.isKeyword_iff.1 hk, readCount_eq_ok_iff.2 hc, ih, bind, Except.bind]
    | @offset p p' k t n ts hk hc _ ih =>
      rw [readPaging]
      simp [Token.isKeyword_iff.1 hk, readCount_eq_ok_iff.2 hc, ih, bind, Except.bind]

/-! ### Queries -/

/-- What follows a heading is the word before the group or its brace. -/
theorem head_of_where {ws : List Token} (hws : ws = [] ∨ ∃ w, w.isKeyword "WHERE" ∧ ws = [w]) :
    ∀ t ∈ (ws ++ mark "\x7b" :: rest).head?, t.kind ≠ .variable ∧ t.isPunct "(" = false := by
  intro t ht
  rcases hws with rfl | ⟨w, hw, rfl⟩
  · obtain rfl := Option.some.inj ht
    exact ⟨by simp [mark], by simp [mark, Token.isPunct]⟩
  · obtain rfl := Option.some.inj ht
    exact ⟨by simp [Token.kind_of_isKeyword hw], Token.isPunct_of_isKeyword hw "("⟩

/-- A heading begins with a keyword of its own. -/
theorem Heading.head (hh : Heading S ts form) :
    ∀ t ∈ (ts ++ rest).head?, t.isKeyword "PREFIX" = false := by
  intro t ht
  have hother {k : String} (hk : t.isKeyword k = true) (hne : k ≠ "PREFIX") :
      t.isKeyword "PREFIX" = false := by
    simp [Token.isKeyword, Token.isKeyword_iff.1 hk, hne]
  cases hh with
  | select hk _ _ =>
    obtain rfl := Option.some.inj ht
    exact hother hk (by decide)
  | ask hk =>
    obtain rfl := Option.some.inj ht
    exact hother hk (by decide)
  | construct hk _ _ =>
    obtain rfl := Option.some.inj ht
    exact hother hk (by decide)

/-- What is left to do behind the group. -/
def finish (form : Form) (found : Group × List Token) : Except Error ParsedQuery := do
  if found.1.patterns.isEmpty then throw (.invalidQuery .emptyGroup)
  let paging ← readPaging {} found.2
  return { form, group := found.1, paging }

/-- A query is read up to the brace of its group. -/
theorem Heading.read_group {ds hs ws : List Token} (hd : Declarations ∅ ds prefixes)
    (hS : ∀ t s, S t s → SlotToken prefixes t s) (hh : Heading S hs form)
    (hws : ws = [] ∨ ∃ w, w.isKeyword "WHERE" ∧ ws = [w]) (rest : List Token) :
    ParsedQuery.ofTokens? (ds ++ (hs ++ (ws ++ mark "\x7b" :: rest))) =
      readItems prefixes .items {} rest >>= finish form := by
  have hdeclared : readPrologue ∅ (ds ++ (hs ++ (ws ++ mark "\x7b" :: rest))) =
      .ok (prefixes, hs ++ (ws ++ mark "\x7b" :: rest)) := hd.read hh.head
  have hheading : readForm prefixes (hs ++ (ws ++ mark "\x7b" :: rest)) =
      .ok (form, ws ++ mark "\x7b" :: rest) := hh.read hS (head_of_where hws)
  have hwhere : (if (ws ++ mark "\x7b" :: rest).head?.any (·.isKeyword "WHERE")
      then (ws ++ mark "\x7b" :: rest).tail else ws ++ mark "\x7b" :: rest) =
        mark "\x7b" :: rest := by
    rcases hws with rfl | ⟨w, hw, rfl⟩
    · rfl
    · simp [hw]
  have hgroup : readGroup prefixes (mark "\x7b" :: rest) = readItems prefixes .items {} rest := by
    rw [readGroup, if_pos (Token.isPunct_iff.2 rfl)]
  unfold ParsedQuery.ofTokens?
  rw [hdeclared]
  simp only [bind, Except.bind]
  rw [hheading]
  simp only [hwhere]
  rw [hgroup]
  rfl

theorem Sentence.read {S : Prefixes → Token → Slot → Prop} {q : ParsedQuery}
    (hS : ∀ P t s, S P t s → SlotToken P t s) (hq : Sentence S tokens q) :
    ParsedQuery.ofTokens? tokens = .ok q := by
  obtain @⟨prefixes, form, group, paging, ds, hs, ws, gs, cs, hd, hh, hws, hb, hne, hc⟩ := hq
  obtain ⟨hb⟩ := hb
  have hpaging := clauses_iff.2 hc
  simp only [List.append_assoc, List.cons_append]
  rw [hh.read_group hd (hS prefixes) hws, hb.read (hS prefixes), append_empty]
  simp [finish, hne, hpaging, bind, Except.bind, pure, Except.pure]

end Grammar

end StandingQuery.Text
