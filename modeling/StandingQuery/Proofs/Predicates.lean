import StandingQuery.Proofs.Layout
import StandingQuery.Proofs.Parsing

/-! What can be a predicate.

A predicate stands behind a front of its group: whole items of the group, and a subject with what
has been said of it so far (`Front`). Every pattern of a group has its predicate there
(`Body.found`), and there the parser is where it reads one (`Front.read`). A number or a literal
in quotes is refused in this place. The words for truth values are not: what is accepted as a
predicate is a variable, an IRI or one of these (`predicate_of_text`). -/
namespace StandingQuery.Text

open Token (mark)

namespace Grammar

variable {prefixes P P' : Prefixes} {S : Token → Slot → Prop} {t : Token} {s p : Slot}
variable {g h : Group} {r : Reading} {ts rest tokens after : List Token} {b : Bool}
variable {ps : List TuplePattern} {form : Form}

/-! ### Where predicates stand -/

/-- A subject whose next predicate follows. -/
inductive Subject (S : Token → Slot → Prop) (s : Slot) : List Token → Prop where
  | first {t : Token} : S t s → Subject S s [t]
  | next {t : Token} {bs : List Token} {ps : List TuplePattern} : S t s →
      Properties S s true bs ps → Subject S s (t :: bs)

/-- The front of a group behind its brace, up to a predicate. -/
inductive Front (S : Token → Slot → Prop) (s : Slot) : List Token → Prop where
  | here {ts : List Token} : Subject S s ts → Front S s ts
  | dot {ts : List Token} : Front S s ts → Front S s (mark "." :: ts)
  | filter {k l c r : Token} {left right : Slot} {relation : Relation} {ts : List Token} :
      k.isKeyword "FILTER" → S l left → Comparator c relation → S r right → Front S s ts →
      Front S s (k :: mark "(" :: l :: c :: r :: mark ")" :: ts)
  | block {t : Token} {u : Slot} {b : Bool} {bs ts : List Token} {ps : List TuplePattern} :
      S t u → Properties S u b bs ps → Closes b ts → Front S s ts → Front S s (t :: bs ++ ts)

/-- The front of a query up to a predicate of its group. -/
inductive GroupFront : List Token → Prop where
  | intro {prefixes : Prefixes} {form : Form} {s : Slot} {ds hs ws ts : List Token} :
      Declarations ∅ ds prefixes → Heading (SlotToken prefixes) hs form →
      ws = [] ∨ (∃ w, w.isKeyword "WHERE" ∧ ws = [w]) → Front (SlotToken prefixes) s ts →
      GroupFront (ds ++ hs ++ ws ++ mark "\x7b" :: ts)

/-- The front of a query up to a predicate of its template. -/
inductive TemplateFront : List Token → Prop where
  | intro {prefixes : Prefixes} {s : Slot} {k : Token} {ds ts : List Token} :
      Declarations ∅ ds prefixes → k.isKeyword "CONSTRUCT" → Front (SlotToken prefixes) s ts →
      TemplateFront (ds ++ k :: mark "\x7b" :: ts)

theorem Subject.ne_nil (h : Subject S s ts) : ts ≠ [] := by
  cases h <;> simp

theorem Front.ne_nil (h : Front S s ts) : ts ≠ [] := by
  cases h with
  | here hs => exact hs.ne_nil
  | _ => simp

/-- The objects of a predicate belong to it. -/
theorem Objects.mem_eq {pr : Slot} (hos : Objects S s pr ts ps) {p : TuplePattern} (hp : p ∈ ps) :
    ∃ o, p = ⟨[s, pr, o]⟩ := by
  induction hos with
  | last => exact ⟨_, List.mem_singleton.1 hp⟩
  | more _ _ ih =>
    rcases List.mem_cons.1 hp with rfl | hp
    · exact ⟨_, rfl⟩
    · exact ih hp

/-- A predicate of a block follows its subject, or what has been said of it. -/
theorem Properties.found (hps : Properties S s b ts ps) {p : TuplePattern} (hp : p ∈ ps) :
    ∃ front t after pr o, ts = front ++ t :: after ∧
      (front = [] ∨ ∃ qs, Properties S s true front qs) ∧ Predicate S t pr ∧ p = ⟨[s, pr, o]⟩ := by
  induction hps with
  | @last t pr os ps hpr hos =>
    obtain ⟨o, rfl⟩ := hos.mem_eq hp
    exact ⟨[], t, os, pr, o, rfl, .inl rfl, hpr, rfl⟩
  | @trailing t pr os ps hpr hos =>
    obtain ⟨o, rfl⟩ := hos.mem_eq hp
    exact ⟨[], t, os ++ [mark ";"], pr, o, rfl, .inl rfl, hpr, rfl⟩
  | @more t pr os ts ps qs b hpr hos _ ih =>
    rcases List.mem_append.1 hp with hp | hp
    · obtain ⟨o, rfl⟩ := hos.mem_eq hp
      exact ⟨[], t, os ++ mark ";" :: ts, pr, o, rfl, .inl rfl, hpr, rfl⟩
    · obtain ⟨front, u, after, pr', o, rfl, hfront, hpr', rfl⟩ := ih hp
      refine ⟨t :: os ++ mark ";" :: front, u, after, pr', o, by simp, .inr ?_, hpr', rfl⟩
      rcases hfront with rfl | ⟨qs, hqs⟩
      · exact ⟨_, .trailing hpr hos⟩
      · exact ⟨_, .more hpr hos hqs⟩

theorem Body.found (hb : Body S ts g) {p : TuplePattern} (hp : p ∈ g.patterns) :
    ∃ front t after s pr o, ts = front ++ t :: after ∧ Front S s front ∧ Predicate S t pr ∧
      p = ⟨[s, pr, o]⟩ := by
  induction hb with
  | close => cases hp
  | dot _ ih =>
    obtain ⟨front, t, after, s, pr, o, rfl, hfront, hpr, rfl⟩ := ih hp
    exact ⟨_, t, after, s, pr, o, rfl, .dot hfront, hpr, rfl⟩
  | filter hk hl hc hr _ ih =>
    obtain ⟨front, t, after, s, pr, o, rfl, hfront, hpr, rfl⟩ := ih hp
    exact ⟨_, t, after, s, pr, o, rfl, .filter hk hl hc hr hfront, hpr, rfl⟩
  | @block u v b bs ts ps h hu hps hclose _ ih =>
    rcases List.mem_append.1 hp with hp | hp
    · obtain ⟨front, t, after, pr, o, rfl, hfront, hpr, rfl⟩ := hps.found hp
      refine ⟨u :: front, t, after ++ ts, v, pr, o, by simp, .here ?_, hpr, rfl⟩
      rcases hfront with rfl | ⟨qs, hqs⟩
      · exact .first hu
      · exact .next hu hqs
    · obtain ⟨front, t, after, s, pr, o, rfl, hfront, hpr, rfl⟩ := ih hp
      have hclose' : Closes b front := by
        obtain ⟨c, hc, hmark⟩ := hclose
        obtain ⟨d, front, rfl⟩ := List.exists_cons_of_ne_nil hfront.ne_nil
        exact ⟨c, by simpa using hc, hmark⟩
      exact ⟨u :: bs ++ front, t, after, s, pr, o, by simp, .block hu hps hclose' hfront, hpr, rfl⟩

/-! ### Reading up to a predicate -/

/-- A place where a predicate is read. -/
def Awaits (s : Slot) (r : Reading) : Prop := r = .predicate s ∨ r = .continuation s

theorem Front.read (hS : ∀ t s, S t s → SlotToken prefixes t s) (hf : Front S s ts) (g : Group) :
    ∃ r h, Awaits s r ∧ ∀ rest,
      readItems prefixes .items g (ts ++ rest) = readItems prefixes r h rest := by
  induction hf generalizing g with
  | here hs =>
    cases hs with
    | first hs => exact ⟨_, g, .inl rfl, fun rest => readItems_subject hS hs⟩
    | @next t bs ps hs hps =>
      refine ⟨_, ⟨g.patterns ++ ps, g.comparisons⟩, .inr rfl, fun rest => ?_⟩
      rw [List.cons_append, readItems_subject hS hs, hps.read_trailing hS]
  | dot _ ih =>
    obtain ⟨r, h, hr, hread⟩ := ih g
    exact ⟨r, h, hr, fun rest => readItems_dot.trans (hread rest)⟩
  | @filter k l c r left right relation ts hk hl hc hr _ ih =>
    obtain ⟨r, h, hr', hread⟩ := ih ⟨g.patterns, g.comparisons ++ [⟨left, relation, right⟩]⟩
    exact ⟨r, h, hr', fun rest => (readItems_filter hS hk hl hc hr).trans (hread rest)⟩
  | @block u v b bs ts ps hu hps hclose hfront ih =>
    obtain ⟨r, h, hr, hread⟩ := ih ⟨g.patterns ++ ps, g.comparisons⟩
    refine ⟨r, h, hr, fun rest => ?_⟩
    have hclose' : Closes b (ts ++ rest) := by
      obtain ⟨c, hc, hmark⟩ := hclose
      exact ⟨c, by simp [Option.mem_def.1 hc], hmark⟩
    rw [List.append_assoc, readItems_block hS hu hps hclose', hread]

theorem predicate_literal {next : Option Token} (ht : t.kind = .literal ∨ t.kind = .number) :
    predicate prefixes t next = .error (.invalidQuery (.literalPredicate t.text)) := by
  have hmark : t.isOneOf ["^", "!", "("] = false :=
    Token.isOneOf_of_kind_ne (by rcases ht with h | h <;> simp [h]) _
  simp [predicate, hmark, ht, throw, throwThe, MonadExceptOf.throw, bind, Except.bind]

/-- Where a predicate is read, a token that closes nothing is read as one. -/
theorem Awaits.readToken (hr : Awaits s r) (ht : t.isOneOf [".", "\x7d"] = false)
    (next : Option Token) : Text.readToken prefixes g t next r =
      (predicate prefixes t next).map fun p => .reading (.object s p) g := by
  rcases hr with rfl | rfl
  · rfl
  · simp [Text.readToken, ht]

theorem Awaits.refuses (hr : Awaits s r) (ht : t.kind = .literal ∨ t.kind = .number) :
    readItems prefixes r g (t :: after) = .error (.invalidQuery (.literalPredicate t.text)) := by
  have hclose : t.isOneOf [".", "\x7d"] = false :=
    Token.isOneOf_of_kind_ne (by rcases ht with h | h <;> simp [h]) _
  rw [readItems, hr.readToken hclose, predicate_literal ht]
  rfl

/-- A predicate that is read is that of a pattern. -/
theorem Awaits.reads (hr : Awaits s r) (ht : t.isOneOf [".", "\x7d"] = false)
    (hread : readItems prefixes r g (t :: after) = .ok (h, rest)) :
    ∃ pr o, predicate prefixes t after.head? = .ok pr ∧ ⟨[s, pr, o]⟩ ∈ h.patterns := by
  rw [readItems, hr.readToken ht] at hread
  obtain ⟨_, hpredicate, hread⟩ := bind_eq_ok_iff.1 hread
  obtain ⟨pr, hpr, rfl⟩ := map_eq_ok_iff.1 hpredicate
  cases after with
  | nil => cases hread
  | cons u after =>
    dsimp only at hread
    rw [readItems] at hread
    obtain ⟨_, hobject, hread⟩ := bind_eq_ok_iff.1 hread
    obtain ⟨o, -, rfl⟩ := map_eq_ok_iff.1 hobject
    obtain ⟨_, h', -, -, rfl⟩ := Remains.of_readItems hread
    exact ⟨pr, o, hpr, by simp [Group.append]⟩

theorem GroupFront.read (hf : GroupFront ts) : ∃ P form s r g, Awaits s r ∧ ∀ rest,
    ParsedQuery.ofTokens? (ts ++ rest) = readItems P r g rest >>= finish form := by
  obtain @⟨P, form, s, ds, hs, ws, ts, hd, hh, hws, hfront⟩ := hf
  obtain ⟨r, g, hr, hread⟩ := hfront.read (fun _ _ h => h) {}
  refine ⟨P, form, s, r, g, hr, fun rest => ?_⟩
  simp only [List.append_assoc, List.cons_append]
  rw [hh.read_group hd (fun _ _ h => h) hws, hread]

theorem TemplateFront.read (hf : TemplateFront ts) : ∃ P s r g, Awaits s r ∧ ∀ rest e,
    readItems P r g rest = .error e → ParsedQuery.ofTokens? (ts ++ rest) = .error e := by
  obtain @⟨P, s, k, ds, ts, hd, hk, hfront⟩ := hf
  obtain ⟨r, g, hr, hread⟩ := hfront.read (fun _ _ h => h) {}
  refine ⟨P, s, r, g, hr, fun rest e he => ?_⟩
  have hother : ∀ t ∈ (k :: mark "\x7b" :: (ts ++ rest)).head?, t.isKeyword "PREFIX" = false := by
    rintro _ ⟨rfl⟩
    simp [Token.isKeyword, Token.isKeyword_iff.1 hk]
  have hdeclared : readPrologue ∅ (ds ++ k :: mark "\x7b" :: (ts ++ rest)) =
      .ok (P, k :: mark "\x7b" :: (ts ++ rest)) := hd.read hother
  have hgroup : readGroup P (mark "\x7b" :: (ts ++ rest)) = .error e := by
    rw [readGroup, if_pos (Token.isPunct_iff.2 rfl), hread, he]
  have hform : readForm P (k :: mark "\x7b" :: (ts ++ rest)) = .error e := by
    simp only [readForm, Token.isKeyword_iff.1 hk, hgroup]
    rfl
  rw [List.append_assoc, List.cons_append, List.cons_append]
  unfold ParsedQuery.ofTokens?
  rw [hdeclared]
  simp only [bind, Except.bind]
  rw [hform]

/-- A literal that is written as a literal is no predicate. -/
theorem literal_refused (hf : GroupFront ts ∨ TemplateFront ts)
    (ht : t.kind = .literal ∨ t.kind = .number) :
    ParsedQuery.ofTokens? (ts ++ t :: after) = .error (.invalidQuery (.literalPredicate t.text)) := by
  rcases hf with hf | hf
  · obtain ⟨P, form, s, r, g, hr, hread⟩ := hf.read
    rw [hread, hr.refuses ht]
    rfl
  · obtain ⟨P, s, r, g, hr, hread⟩ := hf.read
    exact hread _ _ (hr.refuses ht)

/-! ### What predicates look like -/

/-- A word for a truth value. -/
def TruthValue (t : Token) : Prop := t.kind = .word ∧ (t.text = "true" ∨ t.text = "false")

/-- A truth value in the place of a predicate is taken for one. -/
theorem truthValue_accepted (hf : GroupFront ts) (ht : TruthValue t) {q : ParsedQuery}
    (hq : ParsedQuery.ofTokens? (ts ++ t :: after) = .ok q) :
    ∃ s o, ⟨[s, .const (typed t.text "boolean"), o]⟩ ∈ q.group.patterns := by
  obtain ⟨P, form, s, r, g, hr, hread⟩ := hf.read
  rw [hread] at hq
  obtain ⟨⟨h, rest⟩, hitems, hfinish⟩ := bind_eq_ok_iff.1 hq
  have hclose : t.isOneOf [".", "\x7d"] = false := Token.isOneOf_of_kind_ne (by simp [ht.1]) _
  obtain ⟨pr, o, hpr, hmem⟩ := hr.reads hclose hitems
  have hslot : SlotToken P t (.const (typed t.text "boolean")) := .boolean ht.1 ht.2
  obtain rfl : Slot.const (typed t.text "boolean") = pr := by
    obtain ⟨-, -, -, -, ⟨ha, -⟩ | ⟨-, hs⟩⟩ := predicate_eq_ok_iff.1 hpr
    · rw [hslot.isKeyword (by decide)] at ha
      cases ha
    · exact Except.ok.inj (hslot.read.symm.trans hs)
  refine ⟨s, o, ?_⟩
  unfold finish at hfinish
  dsimp only at hfinish
  split at hfinish
  · cases hfinish
  · obtain ⟨paging, -, heq⟩ := bind_eq_ok_iff.1 hfinish
    exact Except.ok.inj heq ▸ hmem

/-- What can stand between angle brackets on a line of data. -/
def Inside (s : List Char) : Prop := ∀ c ∈ s, c ≠ '>' ∧ isBlank c = false

theorem inside_of_class {q : Char → Bool} {l : List Char} (hl : ∀ c ∈ l, q c = true)
    (hclose : q '>' = false) (hblank : ∀ c, isBlank c = true → q c = false) : Inside l := by
  intro c hc
  have hq := hl c hc
  constructor
  · rintro rfl
    rw [hclose] at hq
    cases hq
  · rw [Bool.eq_false_iff]
    intro hb
    rw [hblank c hb] at hq
    cases hq

theorem inside_of_iri {w : List Char} (h : Spelled .iri w) :
    ∃ body, Inside body ∧ w = '<' :: body ++ ['>'] := by
  cases h with
  | @iri body hbody =>
    exact ⟨body, inside_of_class hbody (by decide) fun c hc => by simp [isIriChar, hc], rfl⟩

theorem inside_of_word {w : List Char} (h : Spelled .word w) : Inside w := by
  cases h with
  | @word c w hc hw =>
    have hname : isNameStart '>' = false ∧ isNameChar '>' = false := by decide +kernel
    have hfirst : Inside [c] := by
      refine inside_of_class (q := fun c => isNameStart c || c == ':') (by simpa using hc) ?_ ?_
      · simp [hname]
      · intro d hd
        have hcolon : d ∉ [':'] := not_mem_of_class hd (by decide)
        simpa [isNameStart_of_blank hd] using hcolon
    have hrest : Inside w := by
      refine inside_of_class (q := fun c => isNameChar c || c == ':') hw ?_ ?_
      · simp [hname]
      · intro d hd
        have hcolon : d ∉ [':'] := not_mem_of_class hd (by decide)
        simpa [isNameChar_of_blank hd] using hcolon
    exact List.forall_mem_cons.2 ⟨hfirst c List.mem_cons_self, hrest⟩

/-- Namespaces that have been written as IRIs. -/
def Namespaces (P : Prefixes) : Prop :=
  ∀ (front iri : String), P[front]? = some iri → Inside iri.toList

theorem namespaces_empty : Namespaces ∅ := by
  intro front iri h
  simp at h

theorem Declarations.namespaces (hd : Declarations P ts P')
    (hts : ∀ t ∈ ts, Spelled t.kind t.text.toList) (hP : Namespaces P) : Namespaces P' := by
  induction hd with
  | nil => exact hP
  | @cons P P' k n i front ts _ _ _ _ hi _ ih =>
    have hspelled := hts i (by simp)
    rw [hi] at hspelled
    obtain ⟨body, hbody, heq⟩ := inside_of_iri hspelled
    refine ih (fun t ht => hts t (by simp [ht])) fun other iri hiri => ?_
    rw [Std.ExtTreeMap.getElem?_insert] at hiri
    split at hiri
    · cases hiri
      simpa [heq] using hbody
    · exact hP other iri hiri

/-- A predicate is a variable, an IRI or a truth value. -/
theorem Predicate.cases_spelled (hp : Predicate (SlotToken P) t p)
    (ht : Spelled t.kind t.text.toList) (hP : Namespaces P) :
    (∃ v, p = .var v) ∨ (∃ iri : Term, p = .const iri ∧ Line.Iri iri.text.toList) ∨
      TruthValue t ∧ p = .const (typed t.text "boolean") := by
  cases hp with
  | a =>
    have htype : Line.Iri rdfType.text.toList :=
      @Line.Iri.intro "http://www.w3.org/1999/02/22-rdf-syntax-ns#type".toList (by decide)
    exact .inr (.inl ⟨_, rfl, htype⟩)
  | slot hliteral hnumber hs =>
    cases hs with
    | var => exact .inl ⟨_, rfl⟩
    | iri hk =>
      rw [hk] at ht
      obtain ⟨body, hbody, heq⟩ := inside_of_iri ht
      exact .inr (.inl ⟨_, rfl, heq ▸ .intro hbody⟩)
    | literal hk => exact absurd hk hliteral
    | number hk => exact absurd hk hnumber
    | boolean hk htruth => exact .inr (.inr ⟨⟨hk, htruth⟩, rfl⟩)
    | blank => exact .inl ⟨_, rfl⟩
    | @prefixed front name iri hk htext _ _ hiri =>
      rw [hk, htext] at ht
      have hname : Inside name := fun c hc => inside_of_word ht c (by simp [hc])
      have hbody : Inside (iri.toList ++ name) := List.forall_mem_append.2 ⟨hP _ _ hiri, hname⟩
      refine .inr (.inl ⟨_, rfl, ?_⟩)
      simpa using Line.Iri.intro hbody

end Grammar

/-- Every IRI is the predicate of some line of data. -/
theorem Line.Iri.stands {iri : Term} (h : Line.Iri iri.text.toList) :
    ∃ line t, Tuple.ofLine? line = .ok (some t) ∧ t.terms[1]? = some iri := by
  have hblank : Line.Node (⟨"_:x"⟩ : Term).text.toList :=
    .blank (@Line.BlankNode.intro ['x'] (by decide) (by decide))
  have hspace : White [' '] := by decide
  have hlay : Line.Layout ⟨[⟨"_:x"⟩, iri, ⟨"_:x"⟩]⟩
      (.ofList ("_:x ".toList ++ iri.text.toList ++ " _:x .".toList)) :=
    @Line.Layout.intro _ _ [] _ [' '] [] (by decide)
      (.more hspace (by decide) (.more hspace (by decide) .last)) hspace (by decide) (by simp)
  exact ⟨_, _, hlay.read (.triple hblank h (.node hblank)), rfl⟩

open Grammar in
/-- A predicate of an accepted query is a variable, an IRI that a line of data can hold, or a truth
value where the words for one stand; these are taken for predicates wherever one is due. Any other
literal there is refused. -/
theorem predicate_of_text (text : String) :
    (∀ q, Query.ofText? text = .ok q → ∀ p ∈ q.pattern, ∃ s pr o, p = ⟨[s, pr, o]⟩ ∧
      ((∃ v, pr = .var v) ∨
        (∃ iri : Term, pr = .const iri ∧ Line.Iri iri.text.toList ∧
          ∃ line t, Tuple.ofLine? line = .ok (some t) ∧ t.terms[1]? = some iri) ∨
        ∃ front t after, tokenise text = .ok (front ++ t :: after) ∧ GroupFront front ∧
          TruthValue t ∧ pr = .const (typed t.text "boolean"))) ∧
    ∀ front t after, tokenise text = .ok (front ++ t :: after) →
      (GroupFront front → TruthValue t → ∀ q, Query.ofText? text = .ok q →
        ∃ s o, ⟨[s, .const (typed t.text "boolean"), o]⟩ ∈ q.pattern) ∧
      (GroupFront front ∨ TemplateFront front → t.kind = .literal ∨ t.kind = .number →
        Query.ofText? text = .error (.invalidQuery (.literalPredicate t.text))) := by
  refine ⟨fun q hq p hp => ?_, fun front t after htokens => ⟨fun hf ht q hq => ?_, fun hf ht => ?_⟩⟩
  · obtain ⟨parsed, hparsed, rfl⟩ := map_eq_ok_iff.1 hq
    obtain ⟨tokens, htokens, hparsed⟩ := bind_eq_ok_iff.1 hparsed
    have hspelled := (reads_of_tokenise htokens).spelled
    obtain @⟨P, form, group, paging, ds, hs, ws, gs, cs, hd, hh, hws, hb, -, -⟩ :=
      ParsedQuery.ofTokens_eq_ok_iff.1 hparsed
    obtain ⟨hb⟩ := hb
    obtain ⟨front, t, after, s, pr, o, rfl, hfront, hpr, rfl⟩ := hb.found hp
    have hnamespaces := hd.namespaces (fun t ht => hspelled t (by simp [ht])) namespaces_empty
    refine ⟨s, pr, o, rfl, ?_⟩
    rcases hpr.cases_spelled (hspelled t (by simp)) hnamespaces with
      hvar | ⟨iri, rfl, hiri⟩ | ⟨htruth, rfl⟩
    · exact .inl hvar
    · exact .inr (.inl ⟨iri, rfl, hiri, hiri.stands⟩)
    · refine .inr (.inr ⟨ds ++ hs ++ ws ++ mark "\x7b" :: front, t, after ++ cs, ?_,
        .intro hd hh hws hfront, htruth, rfl⟩)
      simpa using htokens
  · obtain ⟨parsed, hparsed, rfl⟩ := map_eq_ok_iff.1 hq
    rw [ParsedQuery.ofText?, htokens] at hparsed
    exact truthValue_accepted hf ht hparsed
  · rw [Query.ofText?, ParsedQuery.ofText?, htokens]
    simp only [bind, Except.bind, literal_refused hf ht]
    rfl

/-- A truth value in the place of a predicate. -/
def answered : String := "ASK \x7b ?s true ?o \x7d"

/-- A number in the place of a second predicate. -/
def numbered : String := "ASK \x7b ?s <p> ?o ; 1.5 ?o \x7d"

theorem predicate_of_text_answered :
    (∃ q, Query.ofText? answered = .ok q ∧
      ⟨[.var ⟨"s"⟩, .const (typed "true" "boolean"), .var ⟨"o"⟩]⟩ ∈ q.pattern ∧
      ∃ s o, ⟨[s, .const (typed "true" "boolean"), o]⟩ ∈ q.pattern) ∧
    (∃ front t after, tokenise answered = .ok (front ++ t :: after) ∧ Grammar.GroupFront front ∧
      Grammar.TruthValue t) ∧
    Query.ofText? numbered = .error (.invalidQuery (.literalPredicate "1.5")) := by
  have hparsed : ParsedQuery.ofText? answered = .ok ⟨.ask,
      ⟨[⟨[.var ⟨"s"⟩, .const (typed "true" "boolean"), .var ⟨"o"⟩]⟩], []⟩, {}⟩ := by decide +kernel
  have hquery := congrArg (Except.map ParsedQuery.toQuery) hparsed
  have htokens : tokenise answered = .ok ([⟨.word, "ASK"⟩, mark "\x7b", ⟨.variable, "?s"⟩] ++
      ⟨.word, "true"⟩ :: [⟨.variable, "?o"⟩, mark "\x7d"]) := by decide +kernel
  have hnumbered : tokenise numbered = .ok ([⟨.word, "ASK"⟩, mark "\x7b", ⟨.variable, "?s"⟩,
      ⟨.iri, "<p>"⟩, ⟨.variable, "?o"⟩, mark ";"] ++ ⟨.number, "1.5"⟩ ::
        [⟨.variable, "?o"⟩, mark "\x7d"]) := by decide +kernel
  have hask : Token.isKeyword ⟨.word, "ASK"⟩ "ASK" = true := by decide
  have hfront : Grammar.GroupFront [⟨.word, "ASK"⟩, mark "\x7b", ⟨.variable, "?s"⟩] :=
    .intro .nil (.ask hask) (.inl rfl) (.here (.first (.var rfl)))
  have hbehind : Grammar.GroupFront [⟨.word, "ASK"⟩, mark "\x7b", ⟨.variable, "?s"⟩,
      ⟨.iri, "<p>"⟩, ⟨.variable, "?o"⟩, mark ";"] :=
    .intro .nil (.ask hask) (.inl rfl) (.here (.next (.var rfl)
      (.trailing (.slot (by decide) (by decide) (.iri rfl)) (.last (.var rfl)))))
  obtain ⟨haccepted, hplaces⟩ := predicate_of_text answered
  have hmem : (⟨[.var ⟨"s"⟩, .const (typed "true" "boolean"), .var ⟨"o"⟩]⟩ : TuplePattern) ∈
      [⟨[.var ⟨"s"⟩, .const (typed "true" "boolean"), .var ⟨"o"⟩]⟩] := List.mem_singleton_self _
  refine ⟨⟨_, hquery, hmem, (hplaces _ _ _ htokens).1 hfront ⟨rfl, .inl rfl⟩ _ hquery⟩, ?_,
    ((predicate_of_text numbered).2 _ _ _ hnumbered).2 (.inl hbehind) (.inr rfl)⟩
  obtain ⟨s, pr, o, heq, hpr⟩ := haccepted _ hquery _ hmem
  obtain ⟨rfl, rfl, rfl⟩ : Slot.var ⟨"s"⟩ = s ∧ .const (typed "true" "boolean") = pr ∧
      .var ⟨"o"⟩ = o := by simpa using heq
  rcases hpr with ⟨v, hv⟩ | ⟨iri, hiri, hline, -⟩ | ⟨front, t, after, hread, hf, ht, -⟩
  · cases hv
  · cases hiri
    -- An IRI begins with its bracket.
    cases hline
  · exact ⟨front, t, after, hread, hf, ht⟩

end StandingQuery.Text
