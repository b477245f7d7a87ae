import StandingQuery.Proofs.Grammar

/-! What the parser reads is in the language.

Wherever the reading of a group stands, what remains of the group is derived by rules of its
own (`Remains`): a token that is read is put in front of what the later ones derive. So a run
of the parser over a group is a derivation of it, from its last token to its first, and with
the readers around it the parser accepts the sentences of the grammar and no other lists of
tokens (`ofTokens_eq_ok_iff`). -/
namespace StandingQuery.Text

open Token (mark)

namespace Grammar

variable {prefixes P P' : Prefixes} {S : Token → Slot → Prop} {t : Token} {s p : Slot}
variable {g h : Group} {r r' : Reading} {next : Option Token} {ts rest tokens : List Token}
variable {form : Form}

/-! ### What remains of a group -/

/-- What remains of a group behind a subject. -/
inductive Described (S : Token → Slot → Prop) (s : Slot) : List Token → Group → Prop where
  | intro {b : Bool} {bs ts : List Token} {ps : List TuplePattern} {h : Group} :
      Properties S s b bs ps → Closes b ts → Body S ts h →
      Described S s (bs ++ ts) ⟨ps ++ h.patterns, h.comparisons⟩

/-- What remains behind a semicolon. -/
inductive Continued (S : Token → Slot → Prop) (s : Slot) (ts : List Token) (h : Group) : Prop where
  | closed : Closes true ts → Body S ts h → Continued S s ts h
  | described : Described S s ts h → Continued S s ts h

/-- What remains behind the last object of a predicate. -/
inductive Separated (S : Token → Slot → Prop) (s : Slot) : List Token → Group → Prop where
  | closed {ts : List Token} {h : Group} : Closes false ts → Body S ts h → Separated S s ts h
  | continued {ts : List Token} {h : Group} : Continued S s ts h → Separated S s (mark ";" :: ts) h

/-- What remains behind a predicate. -/
inductive Listed (S : Token → Slot → Prop) (s p : Slot) : List Token → Group → Prop where
  | intro {os ts : List Token} {ps : List TuplePattern} {h : Group} :
      Objects S s p os ps → Separated S s ts h → Listed S s p (os ++ ts) ⟨ps ++ h.patterns, h.comparisons⟩

/-- What remains of a group in the midst of a triple or filter. -/
inductive Remains (S : Token → Slot → Prop) : Reading → List Token → Group → Prop where
  | items {ts : List Token} {h : Group} : Body S ts h → Remains S .items ts h
  | predicate {s : Slot} {ts : List Token} {h : Group} : Described S s ts h →
      Remains S (.predicate s) ts h
  | object {s p : Slot} {ts : List Token} {h : Group} : Listed S s p ts h →
      Remains S (.object s p) ts h
  | separator {s p : Slot} {ts : List Token} {h : Group} : Separated S s ts h →
      Remains S (.separator s p) ts h
  | comma {s p : Slot} {ts : List Token} {h : Group} : Listed S s p ts h →
      Remains S (.separator s p) (mark "," :: ts) h
  | continuation {s : Slot} {ts : List Token} {h : Group} : Continued S s ts h →
      Remains S (.continuation s) ts h
  | filter {ts : List Token} {h : Group} : Remains S .left ts h →
      Remains S .filter (mark "(" :: ts) h
  | left {l : Token} {s : Slot} {ts : List Token} {h : Group} : S l s →
      Remains S (.relation s) ts h → Remains S .left (l :: ts) h
  | relation {t : Token} {relation : Relation} {s : Slot} {ts : List Token} {h : Group} :
      Comparator t relation → Remains S (.right s relation) ts h → Remains S (.relation s) (t :: ts) h
  | right {r : Token} {s p : Slot} {relation : Relation} {ts : List Token} {h : Group} : S r p →
      Remains S (.close ⟨s, relation, p⟩) ts h → Remains S (.right s relation) (r :: ts) h
  | close {c : Comparison} {ts : List Token} {h : Group} : Body S ts h →
      Remains S (.close c) (mark ")" :: ts) ⟨h.patterns, c :: h.comparisons⟩

theorem Described.of_listed (hp : Predicate S t p) (hl : Listed S s p ts h) :
    Described S s (t :: ts) h := by
  obtain ⟨hos, hsep⟩ := hl
  cases hsep with
  | closed hclose hb => exact .intro (.last hp hos) hclose hb
  | continued hc =>
    rename_i ts _
    cases hc with
    | closed hclose hb =>
      have := Described.intro (.trailing hp hos) hclose hb
      simpa using this
    | described hd =>
      obtain ⟨hps, hclose, hb⟩ := hd
      have := Described.intro (.more hp hos hps) hclose hb
      simpa using this

theorem Listed.of_object {o : Slot} (ho : S t o) (hr : Remains S (.separator s p) ts h) :
    Listed S s p (t :: ts) ⟨⟨[s, p, o]⟩ :: h.patterns, h.comparisons⟩ := by
  cases hr with
  | separator hsep => exact .intro (.last ho) hsep
  | comma hl =>
    obtain ⟨hos, hsep⟩ := hl
    exact .intro (.more ho hos) hsep

/-- What an item begins with. -/
theorem Body.of_readItem {g' : Group} (hread : readItem prefixes g t = .ok (.reading r' g'))
    (hr : Remains (SlotToken prefixes) r' ts h) : g' = g ∧ Body (SlotToken prefixes) (t :: ts) h := by
  unfold readItem at hread
  split at hread
  · cases hread
  split at hread
  · next hdot =>
    cases hread
    cases hr with
    | items hb => exact ⟨rfl, Token.isPunct_iff.1 hdot ▸ .dot hb⟩
  split at hread
  · cases hread
  split at hread
  · next hfilter =>
    cases hread
    cases hr with | filter hr =>
    cases hr with | left hl hr =>
    cases hr with | relation hc hr =>
    cases hr with | right hright hr =>
    cases hr with | close hb =>
    exact ⟨rfl, .filter hfilter hl hc hright hb⟩
  · split at hread
    · cases hread
    · obtain ⟨s, hs, heq⟩ := map_eq_ok_iff.1 hread
      cases heq
      cases hr with
      | predicate hd =>
        obtain ⟨hps, hclose, hb⟩ := hd
        exact ⟨rfl, .block (.of_read hs) hps hclose hb⟩

theorem eq_mark_of_ended (hread : readItem prefixes g t = .ok .ended) : t = mark "\x7d" := by
  unfold readItem at hread
  split at hread
  · next hbrace => exact Token.isPunct_iff.1 hbrace
  split at hread
  · cases hread
  split at hread
  · cases hread
  split at hread
  · cases hread
  split at hread
  · cases hread
  · obtain ⟨_, _, h⟩ := map_eq_ok_iff.1 hread
    cases h

theorem Predicate.of_read (hread : predicate prefixes t next = .ok p) :
    Predicate (SlotToken prefixes) t p := by
  obtain ⟨-, hliteral, hnumber, -, ⟨ha, rfl⟩ | ⟨-, hs⟩⟩ := predicate_eq_ok_iff.1 hread
  · exact .a ha
  · exact .slot hliteral hnumber (.of_read hs)

theorem Comparator.of_read {relation : Relation}
    (hread : StandingQuery.Text.relation t = .ok relation) : Comparator t relation := by
  unfold StandingQuery.Text.relation at hread
  split at hread
  · next h =>
    cases hread
    exact Token.isPunct_iff.1 h ▸ .equal
  split at hread
  · next h =>
    cases hread
    exact Token.isPunct_iff.1 h ▸ .notEqual
  split at hread <;> cases hread

theorem slotToken_of_operand (hread : operand prefixes t next = .ok s) : SlotToken prefixes t s := by
  unfold operand at hread
  split at hread
  · cases hread
  · exact .of_read hread

theorem closes_of_mark (b : Bool) (h : t.isOneOf [".", "\x7d"] = true) : Closes b (t :: ts) := by
  obtain ⟨text, htext, rfl⟩ := Token.isOneOf_iff.1 h
  refine ⟨_, rfl, ?_⟩
  simp only [List.mem_cons, List.not_mem_nil, or_false] at htext
  rcases htext with rfl | rfl
  · exact .inl rfl
  · exact .inr (.inl rfl)

/-- A keyword that is refused closes nothing. -/
theorem closes_of_readItem {a : Advance} (hread : readItem prefixes g t = .ok a)
    (hend : (t.isOneOf [".", "\x7d"] || t.isKeyword "FILTER" || t.unsupported?.isSome) = true) :
    Closes false (t :: ts) := by
  by_cases hmark : t.isOneOf [".", "\x7d"] = true
  · exact closes_of_mark false hmark
  by_cases hfilter : t.isKeyword "FILTER" = true
  · exact ⟨t, rfl, .inr (.inr ⟨rfl, hfilter⟩)⟩
  · obtain ⟨k, hk⟩ := Option.isSome_iff_exists.1 (by simpa [hmark, hfilter] using hend)
    have hword : t.kind = .word := by
      by_contra hne
      simp [Token.unsupported?, Token.keyword?, hne] at hk
    simp [readItem, Token.isPunct, hword, hfilter, hk] at hread

/-- One token of a group. -/
theorem Remains.of_readToken {g' : Group}
    (hread : readToken prefixes g t next r = .ok (.reading r' g'))
    (hr : Remains (SlotToken prefixes) r' ts h) :
    ∃ h', Remains (SlotToken prefixes) r (t :: ts) h' ∧ g'.append h = g.append h' := by
  cases r with
  | items =>
    obtain ⟨rfl, hb⟩ := Body.of_readItem hread hr
    exact ⟨h, .items hb, rfl⟩
  | predicate s =>
    obtain ⟨p, hp, heq⟩ := map_eq_ok_iff.1 hread
    cases heq
    cases hr with | object hl =>
    exact ⟨h, .predicate (.of_listed (.of_read hp) hl), rfl⟩
  | object s p =>
    obtain ⟨o, ho, heq⟩ := map_eq_ok_iff.1 hread
    cases heq
    exact ⟨_, .object (.of_object (.of_read ho) hr), by simp [Group.append]⟩
  | separator s p =>
    rw [readToken] at hread
    split at hread
    · next hcomma =>
      cases hread
      cases hr with | object hl =>
      exact ⟨h, Token.isPunct_iff.1 hcomma ▸ .comma hl, rfl⟩
    split at hread
    · next hsemicolon =>
      cases hread
      cases hr with | continuation hc =>
      exact ⟨h, Token.isPunct_iff.1 hsemicolon ▸ .separator (.continued hc), rfl⟩
    split at hread
    · next hend =>
      obtain ⟨rfl, hb⟩ := Body.of_readItem hread hr
      exact ⟨h, .separator (.closed (closes_of_readItem hread hend) hb), rfl⟩
    · cases hread
  | continuation s =>
    rw [readToken] at hread
    split at hread
    · next hend =>
      obtain ⟨rfl, hb⟩ := Body.of_readItem hread hr
      exact ⟨h, .continuation (.closed (closes_of_mark true hend) hb), rfl⟩
    · obtain ⟨p, hp, heq⟩ := map_eq_ok_iff.1 hread
      cases heq
      cases hr with | object hl =>
      exact ⟨h, .continuation (.described (.of_listed (.of_read hp) hl)), rfl⟩
  | filter =>
    rw [readToken] at hread
    split at hread
    · next hopen =>
      cases hread
      exact ⟨h, Token.isPunct_iff.1 hopen ▸ .filter hr, rfl⟩
    · cases hread
  | left =>
    obtain ⟨l, hl, heq⟩ := map_eq_ok_iff.1 hread
    cases heq
    exact ⟨h, .left (slotToken_of_operand hl) hr, rfl⟩
  | relation l =>
    obtain ⟨c, hc, heq⟩ := map_eq_ok_iff.1 hread
    cases heq
    exact ⟨h, .relation (.of_read hc) hr, rfl⟩
  | right l c =>
    obtain ⟨o, ho, heq⟩ := map_eq_ok_iff.1 hread
    cases heq
    exact ⟨h, .right (slotToken_of_operand ho) hr, rfl⟩
  | close c =>
    rw [readToken] at hread
    split at hread
    · next hclose =>
      cases hread
      cases hr with | items hb =>
      obtain rfl := Token.isPunct_iff.1 hclose
      exact ⟨_, .close hb, by simp [Group.append]⟩
    · split at hread <;> cases hread

/-- The last token of a group. -/
theorem Remains.of_ended (hread : readToken prefixes g t next r = .ok .ended) :
    Remains (SlotToken prefixes) r [t] {} := by
  have hclose (hitem : readItem prefixes g t = .ok .ended) : Body (SlotToken prefixes) [t] {} :=
    eq_mark_of_ended hitem ▸ .close
  cases r with
  | items => exact .items (hclose hread)
  | separator s p =>
    rw [readToken] at hread
    split at hread
    · cases hread
    split at hread
    · cases hread
    split at hread
    · next hend => exact .separator (.closed (closes_of_readItem hread hend) (hclose hread))
    · cases hread
  | continuation s =>
    rw [readToken] at hread
    split at hread
    · next hend => exact .continuation (.closed (closes_of_mark true hend) (hclose hread))
    · obtain ⟨p, -, heq⟩ := map_eq_ok_iff.1 hread
      cases heq
  | filter | close =>
    rw [readToken] at hread
    split at hread
    · cases hread
    · first | cases hread | split at hread <;> cases hread
  | _ =>
    obtain ⟨_, -, heq⟩ := map_eq_ok_iff.1 hread
    cases heq

theorem Remains.of_readItems {tokens : List Token} {g' : Group}
    (hread : readItems prefixes r g tokens = .ok (g', rest)) :
    ∃ ts h, tokens = ts ++ rest ∧ Remains (SlotToken prefixes) r ts h ∧ g' = g.append h := by
  induction tokens generalizing r g with
  | nil => cases hread
  | cons t tokens ih =>
    rw [readItems, bind_eq_ok_iff] at hread
    obtain ⟨a, ha, hread⟩ := hread
    cases a with
    | ended =>
      cases hread
      exact ⟨[t], {}, rfl, .of_ended ha, by simp [Group.append]⟩
    | reading r' g₁ =>
      obtain ⟨ts, h, rfl, hr, rfl⟩ := ih hread
      obtain ⟨h', hr', hg⟩ := Remains.of_readToken ha hr
      exact ⟨t :: ts, h', rfl, hr', hg⟩

/-! ### Readers of whole parts -/

theorem Braced.of_read {tokens : List Token} (hread : readGroup prefixes tokens = .ok (g, rest)) :
    ∃ ts, tokens = ts ++ rest ∧ Braced (SlotToken prefixes) ts g := by
  cases tokens with
  | nil => cases hread
  | cons t tokens =>
    rw [readGroup] at hread
    split at hread
    · next hopen =>
      obtain ⟨ts, h, rfl, hr, rfl⟩ := Remains.of_readItems hread
      cases hr with | items hb =>
      exact ⟨t :: ts, rfl, Token.isPunct_iff.1 hopen ▸ append_empty ▸ .intro hb⟩
    · cases hread

theorem Declarations.of_read (hread : readPrologue P tokens = .ok (P', rest)) :
    ∃ ts, tokens = ts ++ rest ∧ Declarations P ts P' := by
  fun_induction readPrologue P tokens with
  | case1 P =>
    cases hread
    exact ⟨[], rfl, .nil⟩
  | case2 P t tokens ht =>
    cases hread
    exact ⟨[], rfl, .nil⟩
  | case6 P k hk n front hname i tokens hi ih =>
    obtain ⟨ts, rfl, hd⟩ := ih hread
    obtain ⟨hn, htext, hcolon⟩ := prefixName?_eq_some_iff.1 hname
    exact ⟨k :: n :: i :: ts, rfl,
      .cons (by simpa using hk) hn htext hcolon hi (String.ofList_toList ▸ hd)⟩
  | _ => cases hread

theorem Selection.of_read {d : Distinctness} (hread : readSelection d tokens = .ok (form, rest)) :
    ∃ ts, tokens = ts ++ rest ∧ Selection d ts form := by
  unfold readSelection at hread
  split at hread
  · next hstar =>
    cases hread
    obtain ⟨t, ht, hmark⟩ := Option.map_eq_some_iff.1 hstar
    obtain ⟨after, rfl⟩ := List.head?_eq_some_iff.1 ht
    exact ⟨[t], rfl, Token.isPunct_iff.1 hmark ▸ .all⟩
  · dsimp only at hread
    split at hread
    · cases hread
    split at hread
    · cases hread
    · next hne =>
      cases hread
      refine ⟨_, List.takeWhile_append_dropWhile.symm, .only (by simpa using hne) fun v hv => ?_⟩
      simpa using List.mem_takeWhile_imp hv

theorem Heading.of_read (hread : readForm prefixes tokens = .ok (form, rest)) :
    ∃ ts, tokens = ts ++ rest ∧ Heading (SlotToken prefixes) ts form := by
  cases tokens with
  | nil => cases hread
  | cons t tokens =>
    rw [readForm] at hread
    split at hread
    · next ht =>
      have hselect := Token.isKeyword_iff.2 ht
      split at hread
      · next hm =>
        obtain ⟨m, hm, hk⟩ := Option.bind_eq_some_iff.1 hm
        obtain ⟨after, rfl⟩ := List.head?_eq_some_iff.1 hm
        obtain ⟨vs, rfl, hs⟩ := Selection.of_read hread
        exact ⟨t :: [m] ++ vs, rfl, .select hselect (.distinct (Token.isKeyword_iff.2 hk)) hs⟩
      · next hm =>
        obtain ⟨m, hm, hk⟩ := Option.bind_eq_some_iff.1 hm
        obtain ⟨after, rfl⟩ := List.head?_eq_some_iff.1 hm
        obtain ⟨vs, rfl, hs⟩ := Selection.of_read hread
        exact ⟨t :: [m] ++ vs, rfl, .select hselect (.reduced (Token.isKeyword_iff.2 hk)) hs⟩
      · obtain ⟨vs, rfl, hs⟩ := Selection.of_read hread
        exact ⟨t :: vs, rfl, .select hselect .none hs⟩
    · next ht =>
      cases hread
      exact ⟨[t], rfl, .ask (Token.isKeyword_iff.2 ht)⟩
    · next ht =>
      split at hread
      · cases hread
      · obtain ⟨⟨g, after⟩, hgroup, hform⟩ := bind_eq_ok_iff.1 hread
        obtain ⟨ts, rfl, hb⟩ := Braced.of_read hgroup
        dsimp only at hform
        split at hform
        · cases hform
        · next hnone =>
          cases hform
          exact ⟨t :: ts, rfl, .construct (Token.isKeyword_iff.2 ht) hb (by simpa using hnone)⟩
    · cases hread
    · cases hread

end Grammar

open Grammar in
/-- The parser reads exactly what can be derived, as derived. -/
theorem ParsedQuery.ofTokens_eq_ok_iff {tokens : List Token} {q : ParsedQuery} :
    ParsedQuery.ofTokens? tokens = .ok q ↔ Sentence SlotToken tokens q := by
  refine ⟨fun h => ?_, Sentence.read fun _ _ _ h => h⟩
  unfold ofTokens? at h
  obtain ⟨⟨prefixes, behind⟩, hprologue, h⟩ := bind_eq_ok_iff.1 h
  obtain ⟨⟨form, body⟩, hform, h⟩ := bind_eq_ok_iff.1 h
  obtain ⟨⟨group, clauses⟩, hgroup, h⟩ := bind_eq_ok_iff.1 h
  dsimp only at hform hgroup h
  split at h
  · cases h
  next hne =>
  obtain ⟨paging, hpaging, h⟩ := bind_eq_ok_iff.1 h
  obtain rfl := Except.ok.inj h
  obtain ⟨ds, rfl, hd⟩ := Declarations.of_read hprologue
  obtain ⟨hs, rfl, hh⟩ := Heading.of_read hform
  obtain ⟨gs, hbody, hb⟩ := Braced.of_read hgroup
  obtain ⟨ws, hws, rfl⟩ : ∃ ws : List Token,
      (ws = [] ∨ ∃ w, w.isKeyword "WHERE" ∧ ws = [w]) ∧ body = ws ++ (gs ++ clauses) := by
    split at hbody
    · next hwhere =>
      obtain ⟨w, hw, hk⟩ := (Option.any_eq_true _ _).1 hwhere
      obtain ⟨after, rfl⟩ := List.head?_eq_some_iff.1 hw
      exact ⟨[w], .inr ⟨w, hk, rfl⟩, congrArg (w :: ·) hbody⟩
    · exact ⟨[], .inl rfl, hbody⟩
  have hpatterns : group.patterns ≠ [] := by simpa using hne
  simpa using Sentence.intro hd hh hws hb hpatterns (clauses_iff.1 hpaging)

end StandingQuery.Text
