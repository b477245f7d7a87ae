import StandingQuery.Proofs.Scanning
import StandingQuery.Text.Statement

/-! Lines of data and the statements on them.

A statement is a tuple whose terms may stand where they stand: IRIs and blank nodes as subjects
and graphs, IRIs as predicates, and literals too as objects. A layout of it is a line that holds
its terms in order, with white space between them, and a dot. Every reader takes a term to its
end, wherever white space or nothing follows, and whatever a reader takes is a term of its
kind. So every layout of a statement is read as the statement, and whatever is read from any
line is a statement that its own text gives back (`Tuple.ofLine_layout`). -/
namespace StandingQuery.Text

variable {s rest gap : List Char} {t : Term} {role : String}

/-! ### What stands on a line -/

/-- A quoted body with its closing quote. A backslash takes the next character along. -/
inductive Quoted (allowed : Char → Prop) : List Char → Prop where
  | close : Quoted allowed ['"']
  | plain {c : Char} {s : List Char} : c ≠ '"' → c ≠ '\\' → allowed c → Quoted allowed s →
      Quoted allowed (c :: s)
  | escape {c : Char} {s : List Char} : allowed c → Quoted allowed s →
      Quoted allowed ('\\' :: c :: s)

namespace Line

/-- An IRI in its angle brackets. -/
inductive Iri : List Char → Prop where
  | intro {body : List Char} : (∀ c ∈ body, c ≠ '>' ∧ isBlank c = false) → Iri ('<' :: body ++ ['>'])

/-- A blank node with its label. -/
inductive BlankNode : List Char → Prop where
  | intro {label : List Char} : label ≠ [] → (∀ c ∈ label, isBlank c = false) →
      BlankNode ('_' :: ':' :: label)

/-- What belongs to a literal behind its closing quote. -/
inductive Suffix : List Char → Prop where
  | none : Suffix []
  | language {tag : List Char} : tag ≠ [] → (∀ c ∈ tag, (c.isAlphanum || c == '-') = true) →
      Suffix ('@' :: tag)
  | datatype {iri : List Char} : Iri iri → Suffix ('^' :: '^' :: iri)

/-- A literal. -/
inductive Literal : List Char → Prop where
  | intro {body suffix : List Char} : Quoted (fun _ => True) body → Suffix suffix →
      Literal ('"' :: body ++ suffix)

/-- What can be a subject or a graph. -/
inductive Node (s : List Char) : Prop where
  | iri : Iri s → Node s
  | blank : BlankNode s → Node s

/-- What can be an object. -/
inductive Object (s : List Char) : Prop where
  | node : Node s → Object s
  | literal : Literal s → Object s

/-- A tuple that can stand on a line: subject, predicate, object and, with four terms, a graph. -/
inductive Statement : Tuple → Prop where
  | triple {s p o : Term} : Node s.text.toList → Iri p.text.toList → Object o.text.toList →
      Statement ⟨[s, p, o]⟩
  | quad {s p o g : Term} : Node s.text.toList → Iri p.text.toList → Object o.text.toList →
      Node g.text.toList → Statement ⟨[s, p, o, g]⟩

/-- Terms with white space between them. -/
inductive Spread : List Term → List Char → Prop where
  | last {t : Term} : Spread [t] t.text.toList
  | more {t : Term} {ts : List Term} {gap s : List Char} : White gap → gap ≠ [] → Spread ts s →
      Spread (t :: ts) (t.text.toList ++ gap ++ s)

/-- A line with the terms of a tuple and a dot; there may be more white space around them. -/
inductive Layout (t : Tuple) (line : String) : Prop where
  | intro {lead s before after : List Char} : White lead → Spread t.terms s → White before →
      White after → line.toList = lead ++ s ++ before ++ '.' :: after → Layout t line

end Line

/-! ### Literals -/

theorem bodyLength?_append {p : Char → Prop} {body : List Char} (hb : Quoted p body) :
    bodyLength? false (body ++ rest) = some body.length := by
  induction hb with
  | close => rfl
  | @plain c s hquote hback _ _ ih => simp [bodyLength?, hquote, hback, ih]
  | @escape c s _ _ ih => simp [bodyLength?, ih]

theorem quoted_of_bodyLength? {escaped : Bool} {n : Nat} (h : bodyLength? escaped s = some n) :
    Quoted (fun _ => True) ((if escaped then ['\\'] else []) ++ s.take n) := by
  induction s generalizing escaped n with
  | nil => cases h
  | cons c s ih =>
    rw [bodyLength?] at h
    split at h
    · next hescaped =>
      obtain ⟨m, hm, rfl⟩ := Option.map_eq_some_iff.1 h
      rw [if_pos hescaped]
      exact .escape trivial (ih hm)
    rw [if_neg ‹_›]
    split at h
    · next hback =>
      obtain ⟨m, hm, rfl⟩ := Option.map_eq_some_iff.1 h
      exact hback ▸ ih hm
    split at h
    · next hquote =>
      obtain rfl := Option.some.inj h
      exact hquote ▸ .close
    · next hback hquote =>
      obtain ⟨m, hm, rfl⟩ := Option.map_eq_some_iff.1 h
      exact .plain hquote hback trivial (ih hm)

namespace Line

/-! ### Readers

A term is read to its end wherever white space or nothing follows it. -/

/-- White space follows, or nothing. -/
def Ends (rest : List Char) : Prop := ∀ c ∈ rest.head?, isBlank c = true

theorem readIri_white (hw : White gap) : readIri role (gap ++ s) = readIri role s := by
  simp only [readIri, trimStart_append hw]

theorem readObject_white (hw : White gap) : readObject (gap ++ s) = readObject s := by
  simp only [readObject, trimStart_append hw]

theorem Iri.read (hs : Iri s) : readIri role (s ++ rest) = .ok (⟨.ofList s⟩, rest) := by
  obtain @⟨body, hbody⟩ := hs
  have hrun : ∀ c ∈ body, decide (c ≠ '>') = true := fun c hc => decide_eq_true (hbody c hc).1
  have hstop : ∀ c ∈ ('>' :: rest).head?, decide (c ≠ '>') = false := by
    rintro _ ⟨rfl⟩
    decide
  have hblank : body.any isBlank = false := List.any_eq_false.2 fun c hc => by simp [hbody c hc]
  have htrim : trimStart ('<' :: body ++ ['>'] ++ rest) = '<' :: (body ++ '>' :: rest) := by
    rw [trimStart_of_head]
    · simp
    · rintro _ ⟨rfl⟩
      decide
  simp only [readIri, htrim, takeWhile_append_of_stop hrun hstop, hblank]
  simp

theorem takeTerm_append : takeTerm s.length (s ++ rest) = (⟨.ofList s⟩, rest) := by
  rw [takeTerm, List.take_left, List.drop_left]

theorem BlankNode.read (hs : BlankNode s) (hrest : Ends rest) :
    readBlankNode (s ++ rest) = .ok (⟨.ofList s⟩, rest) := by
  obtain @⟨label, hne, hlabel⟩ := hs
  have hrun : ∀ c ∈ '_' :: ':' :: label, (!isBlank c) = true := by
    intro c hc
    rcases List.mem_cons.1 hc with rfl | hc
    · rfl
    rcases List.mem_cons.1 hc with rfl | hc
    · rfl
    · simp [hlabel c hc]
  have hstop : ∀ c ∈ rest.head?, (!isBlank c) = false := fun c hc => by simp [hrest c hc]
  have hlong : ¬ ('_' :: ':' :: label).length ≤ 2 := by
    have := List.length_pos_iff.2 hne
    simp only [List.length_cons]
    omega
  unfold readBlankNode
  rw [takeWhile_append_of_stop hrun hstop, if_neg hlong, takeTerm_append]

theorem not_blank_of_tag {c : Char} (h : (c.isAlphanum || c == '-') = true) :
    isBlank c = false := by
  rcases Bool.or_eq_true_iff.1 h with hc | hc
  · have hword : isLetterOrDigit c = true := hc
    rw [isLetterOrDigit_eq] at hword
    exact inRanges_disjoint (by decide) hword
  · obtain rfl := eq_of_beq hc
    decide

/-- No tag goes on behind white space. -/
theorem tag_stops (hrest : Ends rest) :
    ∀ c ∈ rest.head?, (c.isAlphanum || c == '-') = false := by
  intro c hc
  rw [Bool.eq_false_iff]
  intro htag
  have hblank := hrest c hc
  rw [not_blank_of_tag htag] at hblank
  cases hblank

theorem Suffix.read (hs : Suffix s) (hrest : Ends rest) :
    suffixLength (s ++ rest) = .ok s.length := by
  cases hs with
  | none =>
    unfold suffixLength
    split
    · next heq => exact absurd (hrest '^' (by simp_all)) (by decide)
    · next heq => exact absurd (hrest '@' (by simp_all)) (by decide)
    · rfl
  | @language tag hne htag =>
    have hrun := takeWhile_append_of_stop htag (tag_stops hrest)
    obtain ⟨c, tag, rfl⟩ := List.exists_cons_of_ne_nil hne
    rw [List.cons_append, suffixLength, hrun]
    simp [Nat.add_comm]
  | @datatype iri hiri =>
    have hread : readIri "datatype" (iri ++ rest) = .ok (⟨.ofList iri⟩, rest) := hiri.read
    obtain ⟨hbody⟩ := hiri
    simp only [List.cons_append] at hread ⊢
    rw [suffixLength, hread]
    simp only [Except.map, String.length_ofList, List.length_cons]
    rw [Nat.add_comm]

theorem Literal.read (hs : Literal s) (hrest : Ends rest) :
    readLiteral (s ++ rest) = .ok (⟨.ofList s⟩, rest) := by
  obtain @⟨body, suffix, hbody, hsuffix⟩ := hs
  have hlength : bodyLength? false (body ++ (suffix ++ rest)) = some body.length :=
    bodyLength?_append hbody
  have hdrop : ('"' :: (body ++ (suffix ++ rest))).drop (body.length + 1) = suffix ++ rest := by
    simp
  have hall : body.length + 1 + suffix.length = ('"' :: body ++ suffix).length := by
    simp
    omega
  have hterm : takeTerm ('"' :: body ++ suffix).length (('"' :: body ++ suffix) ++ rest) =
      (⟨.ofList ('"' :: body ++ suffix)⟩, rest) := takeTerm_append
  simp only [List.cons_append, List.append_assoc] at hall hterm ⊢
  simp only [readLiteral, List.tail_cons, hlength, hdrop, hsuffix.read hrest, Except.map, hall, hterm]

theorem Node.read (hs : Node s) (hrest : Ends rest) :
    readNode role (s ++ rest) = .ok (⟨.ofList s⟩, rest) := by
  -- The reader is chosen by the first characters, which stand bare once the kind is taken apart.
  cases hs with
  | iri hs =>
    have hread : readIri role (s ++ rest) = .ok (⟨.ofList s⟩, rest) := hs.read
    obtain ⟨hbody⟩ := hs
    exact hread
  | blank hs =>
    have hread := hs.read hrest
    obtain ⟨hne, hlabel⟩ := hs
    exact hread

theorem Object.read (hs : Object s) (hrest : Ends rest) :
    readObject (s ++ rest) = .ok (⟨.ofList s⟩, rest) := by
  cases hs with
  | node hs =>
    cases hs with
    | iri hs =>
      have hread : readIri "object" (s ++ rest) = .ok (⟨.ofList s⟩, rest) := hs.read
      obtain ⟨hbody⟩ := hs
      exact hread
    | blank hs =>
      have hread := hs.read hrest
      obtain ⟨hne, hlabel⟩ := hs
      exact hread
  | literal hs =>
    have hread := hs.read hrest
    obtain ⟨hbody, hsuffix⟩ := hs
    exact hread

/-! ### The ends of a term -/

/-- No white space at either end, and no comment. -/
structure Tight (s : List Char) : Prop where
  head : ∃ c ∈ s.head?, isBlank c = false ∧ c ≠ '#'
  last : ∃ c ∈ s.getLast?, isBlank c = false

theorem Iri.tight (hs : Iri s) : Tight s := by
  obtain ⟨-⟩ := hs
  exact ⟨⟨'<', rfl, by decide, by decide⟩, ⟨'>', List.getLast?_concat, by decide⟩⟩

theorem BlankNode.tight (hs : BlankNode s) : Tight s := by
  obtain @⟨label, hne, hlabel⟩ := hs
  refine ⟨⟨'_', rfl, by decide, by decide⟩, label.getLast hne, ?_, hlabel _ (List.getLast_mem hne)⟩
  simp [List.getLast?_cons, List.getLast?_eq_some_getLast hne]

theorem Node.tight (hs : Node s) : Tight s := by
  cases hs with
  | iri hs => exact hs.tight
  | blank hs => exact hs.tight

theorem getLast?_of_quoted {p : Char → Prop} {body : List Char} (hb : Quoted p body) :
    body.getLast? = some '"' := by
  induction hb with
  | close => rfl
  | plain _ _ _ _ ih => simp [List.getLast?_cons, ih]
  | escape _ _ ih => simp [List.getLast?_cons, ih]

theorem Literal.tight (hs : Literal s) : Tight s := by
  obtain @⟨body, suffix, hbody, hsuffix⟩ := hs
  refine ⟨⟨'"', rfl, by decide, by decide⟩, ?_⟩
  cases hsuffix with
  | none => exact ⟨'"', by simp [List.getLast?_cons, getLast?_of_quoted hbody], by decide⟩
  | @language tag hne htag =>
    refine ⟨tag.getLast hne, ?_, ?_⟩
    · simp [List.getLast?_append, List.getLast?_cons, List.getLast?_eq_some_getLast hne]
    · exact not_blank_of_tag (htag _ (List.getLast_mem hne))
  | datatype hiri =>
    obtain ⟨c, hc, hblank⟩ := hiri.tight.last
    exact ⟨c, by simp [List.getLast?_append, List.getLast?_cons, Option.mem_def.1 hc], hblank⟩

theorem Object.tight (hs : Object s) : Tight s := by
  cases hs with
  | node hs => exact hs.tight
  | literal hs => exact hs.tight

theorem Tight.append {s' : List Char} (hs : Tight s) (hs' : Tight s') : Tight (s ++ gap ++ s') := by
  obtain ⟨c, hc, hhead⟩ := hs.head
  obtain ⟨d, hd, hlast⟩ := hs'.last
  refine ⟨⟨c, ?_, hhead⟩, ⟨d, ?_, hlast⟩⟩
  · simp [List.append_assoc, List.head?_append, Option.mem_def.1 hc]
  · simp [List.getLast?_append, Option.mem_def.1 hd]

theorem Spread.tight {ts : List Term} (hs : Spread ts s) (hts : ∀ t ∈ ts, Tight t.text.toList) :
    Tight s := by
  induction hs with
  | last => exact hts _ List.mem_cons_self
  | more _ _ _ ih =>
    exact (hts _ List.mem_cons_self).append (ih fun t ht => hts t (List.mem_cons_of_mem _ ht))

theorem Statement.tight {t : Tuple} (ht : Statement t) : ∀ x ∈ t.terms, Tight x.text.toList := by
  cases ht with
  | triple hs hp ho => simp [hs.tight, hp.tight, ho.tight]
  | quad hs hp ho hg => simp [hs.tight, hp.tight, ho.tight, hg.tight]

/-! ### Layouts are read -/

theorem ends_of_white (hw : White gap) (hne : gap ≠ []) : Ends (gap ++ s) := by
  obtain ⟨c, gap, rfl⟩ := List.exists_cons_of_ne_nil hne
  rintro _ ⟨rfl⟩
  exact hw _ List.mem_cons_self

theorem Tight.trim (hs : Tight s) (hw : White gap) : Text.trim (gap ++ s) = s := by
  obtain ⟨c, hc, hhead, -⟩ := hs.head
  obtain ⟨d, hd, hlast⟩ := hs.last
  have h := trim_between (s := s) hw (v := []) (by simp [White])
    (by simpa [Option.mem_def.1 hc] using hhead) (by simpa [Option.mem_def.1 hd] using hlast)
  simpa using h

theorem Tight.ne_nil (hs : Tight s) : s ≠ [] := by
  rintro rfl
  obtain ⟨c, hc, -⟩ := hs.head
  cases hc

theorem ends_nil : Ends [] := by
  simp [Ends]

theorem Node.read_term (ht : Node t.text.toList) (hrest : Ends rest) :
    readNode role (t.text.toList ++ rest) = .ok (t, rest) := by
  simpa using ht.read hrest

theorem Iri.read_term (ht : Iri t.text.toList) (hw : White gap) :
    readIri role (gap ++ (t.text.toList ++ rest)) = .ok (t, rest) := by
  simpa [readIri_white hw] using ht.read

theorem Object.read_term (ht : Object t.text.toList) (hw : White gap) (hrest : Ends rest) :
    readObject (gap ++ (t.text.toList ++ rest)) = .ok (t, rest) := by
  simpa [readObject_white hw] using ht.read hrest

theorem Statement.read {t : Tuple} (ht : Statement t) (hs : Spread t.terms s) :
    readTerms s = .ok t := by
  cases ht with
  | @triple s p o hsubject hpredicate hobject =>
    cases hs with | @more _ _ gap _ hw hne hs =>
    cases hs with | @more _ _ gap' _ hw' hne' hs =>
    cases hs with
    | more _ _ hs => cases hs
    | last =>
      have hread := hobject.read_term hw' ends_nil
      rw [List.append_nil] at hread
      simp only [readTerms, List.append_assoc, hsubject.read_term (ends_of_white hw hne),
        hpredicate.read_term hw, hread, bind, Except.bind]
      rfl
  | @quad s p o g hsubject hpredicate hobject hgraph =>
    cases hs with | @more _ _ gap _ hw hne hs =>
    cases hs with | @more _ _ gap' _ hw' hne' hs =>
    cases hs with | @more _ _ gap'' _ hw'' hne'' hs =>
    cases hs with
    | more _ _ hs => cases hs
    | last =>
      have hread : readNode "subject" (g.text.toList ++ []) = .ok (g, []) :=
        hgraph.read_term ends_nil
      rw [List.append_nil] at hread
      have hlast : g.text.toList ≠ [] := hgraph.tight.ne_nil
      simp only [readTerms, List.append_assoc, hsubject.read_term (ends_of_white hw hne),
        hpredicate.read_term hw, hobject.read_term hw' (ends_of_white hw'' hne''),
        hgraph.tight.trim hw'', hread, bind, Except.bind]
      rfl

theorem readStatement_of_trim {line : List Char} (h : trim line = s) (hs : ∃ c ∈ s.head?, c ≠ '#')
    (hdot : s.getLast? = some '.') :
    readStatement line = (readTerms (trimEnd s.dropLast)).map some := by
  obtain ⟨c, hc, hcomment⟩ := hs
  obtain ⟨behind, rfl⟩ := List.head?_eq_some_iff.1 hc
  simp only [readStatement, h]
  split
  · next heq => cases heq
  · next heq =>
    obtain ⟨rfl, -⟩ := List.cons.inj heq
    exact absurd rfl hcomment
  · rw [if_pos hdot]

theorem Layout.read {t : Tuple} {line : String} (ht : Statement t) (hl : Layout t line) :
    Tuple.ofLine? line = .ok (some t) := by
  obtain @⟨lead, s, before, after, hlead, hs, hbefore, hafter, hline⟩ := hl
  have htight := hs.tight ht.tight
  obtain ⟨c, hc, hhead, hcomment⟩ := htight.head
  obtain ⟨d, hd, hlast⟩ := htight.last
  have htrim : trim line.toList = s ++ before ++ ['.'] := by
    have hsplit : line.toList = lead ++ (s ++ before ++ ['.']) ++ after := by simp [hline]
    rw [hsplit, trim_between hlead hafter]
    · simpa [List.head?_append, Option.mem_def.1 hc] using hhead
    · rw [List.getLast?_concat]
      rintro _ ⟨rfl⟩
      decide
  have hbody : trimEnd (s ++ before ++ ['.']).dropLast = s := by
    rw [List.dropLast_concat, trimEnd_append hbefore, trimEnd_of_last]
    simpa [Option.mem_def.1 hd] using hlast
  have hfirst : ∃ c ∈ (s ++ before ++ ['.']).head?, c ≠ '#' :=
    ⟨c, by simp [List.head?_append, Option.mem_def.1 hc], hcomment⟩
  have hread : readStatement line.toList = .ok (some t) := by
    rw [readStatement_of_trim htrim hfirst List.getLast?_concat, hbody, ht.read hs, Except.map]
  rw [Tuple.ofLine?, hread, Except.mapError]

/-! ### What is read is well-formed -/

theorem Iri.of_read {l : List Char} (h : readIri role l = .ok (t, rest)) : Iri t.text.toList := by
  unfold readIri at h
  split at h
  · next s hs =>
    dsimp only at h
    split at h
    · cases h
    split at h
    · cases h
    · next hblank =>
      obtain ⟨rfl, -⟩ := Prod.mk.inj (Except.ok.inj h)
      rw [String.toList_ofList]
      refine .intro fun c hc => ⟨by simpa using List.mem_takeWhile_imp hc, ?_⟩
      simpa using List.any_eq_false.1 (Bool.eq_false_iff.2 hblank) c hc
  · cases h

theorem BlankNode.of_read (h : readBlankNode ('_' :: ':' :: s) = .ok (t, rest)) :
    BlankNode t.text.toList := by
  have hrun : ('_' :: ':' :: s).takeWhile (!isBlank ·) = '_' :: ':' :: s.takeWhile (!isBlank ·) :=
    rfl
  have htake := List.prefix_iff_eq_take.1 (List.takeWhile_prefix (!isBlank ·) (l := '_' :: ':' :: s))
  unfold readBlankNode at h
  dsimp only at h
  split at h
  · cases h
  · next hlong =>
    obtain ⟨rfl, -⟩ := Prod.mk.inj (Except.ok.inj h)
    rw [String.toList_ofList, ← htake, hrun]
    refine .intro ?_ fun c hc => by simpa using List.mem_takeWhile_imp hc
    rintro hnil
    simp [hrun, hnil] at hlong

/-- An IRI stands at the front of the text that it is read from. -/
theorem trimStart_of_readIri {l : List Char} (h : readIri role l = .ok (t, rest)) :
    trimStart l = t.text.toList ++ rest := by
  unfold readIri at h
  split at h
  · next s hs =>
    dsimp only at h
    split at h
    · cases h
    next hclosed =>
    split at h
    · cases h
    · obtain ⟨rfl, rfl⟩ := Prod.mk.inj (Except.ok.inj h)
      have hsplit := List.takeWhile_append_dropWhile (p := (· ≠ '>')) (l := s)
      have hstop := List.head?_dropWhile_not (· ≠ '>') s
      cases hd : s.dropWhile (· ≠ '>') with
      | nil =>
        rw [hd, List.append_nil] at hsplit
        exact absurd (congrArg List.length hsplit) hclosed
      | cons c after =>
        rw [hd] at hsplit hstop
        obtain rfl : c = '>' := by simpa using hstop
        generalize s.takeWhile (· ≠ '>') = body at hsplit ⊢
        subst hsplit
        rw [hs]
        simp
  · cases h

theorem Suffix.of_length {n : Nat} (h : suffixLength s = .ok n) : Suffix (s.take n) := by
  unfold suffixLength at h
  split at h
  · split at h
    · next s =>
      obtain ⟨⟨iri, rest⟩, hiri, rfl⟩ := map_eq_ok_iff.1 h
      have hfront : '<' :: s = iri.text.toList ++ rest := by
        rw [← trimStart_of_readIri hiri, trimStart_of_head]
        rintro _ ⟨rfl⟩
        decide
      have htake : ('^' :: '^' :: '<' :: s).take (2 + iri.text.length) = '^' :: '^' :: iri.text.toList := by
        rw [hfront, Nat.add_comm, List.take_succ_cons, List.take_succ_cons, ← String.length_toList,
          List.take_left]
      exact htake ▸ .datatype (.of_read hiri)
    · cases h
  · next s =>
    have htake := List.prefix_iff_eq_take.1
      (List.takeWhile_prefix (fun c => c.isAlphanum || c == '-') (l := s))
    split at h
    · cases h
    · next hne =>
      obtain rfl := Except.ok.inj h
      rw [Nat.add_comm, List.take_succ_cons, ← htake]
      refine .language (fun hnil => hne (by rw [hnil]; rfl)) fun c hc => ?_
      exact List.mem_takeWhile_imp (p := fun c => c.isAlphanum || c == '-') hc
  · obtain rfl := Except.ok.inj h
    exact .none

theorem Literal.of_read (h : readLiteral ('"' :: s) = .ok (t, rest)) : Literal t.text.toList := by
  unfold readLiteral at h
  split at h
  · cases h
  · next n hn =>
    obtain ⟨m, hm, heq⟩ := map_eq_ok_iff.1 h
    obtain ⟨rfl, -⟩ := Prod.mk.inj heq
    have hbody := quoted_of_bodyLength? hn
    have hsuffix := Suffix.of_length hm
    have htake : ('"' :: s).take (n + 1 + m) = '"' :: s.take n ++ (s.drop n).take m := by
      rw [Nat.add_right_comm, List.take_succ_cons, List.take_add, List.cons_append]
    rw [String.toList_ofList, htake]
    exact .intro hbody hsuffix

theorem Node.of_read {l : List Char} (h : readNode role l = .ok (t, rest)) : Node t.text.toList := by
  unfold readNode at h
  split at h
  · exact .blank (.of_read h)
  · exact .iri (.of_read h)

theorem Object.of_read {l : List Char} (h : readObject l = .ok (t, rest)) :
    Object t.text.toList := by
  unfold readObject at h
  split at h
  · exact .node (.iri (.of_read h))
  · exact .node (.blank (.of_read h))
  · exact .literal (.of_read h)
  · cases h

theorem Statement.of_read {t : Tuple} (h : readTerms s = .ok t) : Statement t := by
  unfold readTerms at h
  obtain ⟨⟨subject, s₁⟩, hs, h⟩ := bind_eq_ok_iff.1 h
  obtain ⟨⟨predicate, s₂⟩, hp, h⟩ := bind_eq_ok_iff.1 h
  obtain ⟨⟨object, s₃⟩, ho, h⟩ := bind_eq_ok_iff.1 h
  dsimp only at hp ho h
  split at h
  · obtain rfl := Except.ok.inj h
    exact .triple (.of_read hs) (.of_read hp) (.of_read ho)
  · obtain ⟨⟨graph, s₄⟩, hg, h⟩ := bind_eq_ok_iff.1 h
    dsimp only at hg h
    split at h
    · obtain rfl := Except.ok.inj h
      exact .quad (.of_read hs) (.of_read hp) (.of_read ho) (.of_read hg)
    · cases h

theorem Statement.of_line {t : Tuple} {line : String} (h : Tuple.ofLine? line = .ok (some t)) :
    Statement t := by
  have hread : readStatement line.toList = .ok (some t) := by
    unfold Tuple.ofLine? at h
    cases hr : readStatement line.toList with
    | error e => simp [hr, Except.mapError] at h
    | ok o => simpa [hr, Except.mapError] using h
  unfold readStatement at hread
  split at hread
  · cases hread
  · cases hread
  · split at hread
    · obtain ⟨t', ht, heq⟩ := map_eq_ok_iff.1 hread
      exact Option.some.inj heq ▸ .of_read ht
    · cases hread

/-! ### The text of a statement -/

theorem Spread.intercalate {ts : List Term} (hne : ts ≠ []) :
    Spread ts (" ".intercalate (ts.map Term.text)).toList := by
  induction ts with
  | nil => exact absurd rfl hne
  | cons t ts ih =>
    cases ts with
    | nil => simpa using Spread.last
    | cons u us =>
      have hspace : White [' '] := by decide
      simpa [String.toList_intercalate] using
        (ih (List.cons_ne_nil u us)).more (t := t) hspace (List.cons_ne_nil ' ' [])

theorem Statement.layout {t : Tuple} (ht : Statement t) : Layout t (toString t) := by
  have hne : t.terms ≠ [] := by
    cases ht <;> simp
  have hnone : White [] := by decide
  have hspace : White [' '] := by decide
  exact .intro hnone (.intercalate hne) hspace hnone (by simp [toString])

end Line

end StandingQuery.Text

namespace StandingQuery.Tuple
open Text.Line

/-- Every layout of a statement is read as that statement, and whatever is read from a line is
a statement, which is read again from its own text. -/
theorem ofLine_layout :
    (∀ t line, Statement t → Layout t line → ofLine? line = .ok (some t)) ∧
    ∀ t line, ofLine? line = .ok (some t) →
      Statement t ∧ ofLine? (toString t) = .ok (some t) := by
  refine ⟨fun t line ht hl => hl.read ht, fun t line h => ?_⟩
  have ht := Statement.of_line h
  exact ⟨ht, ht.layout.read ht⟩

/-- A label, an IRI and a literal with the characters that other terms begin or end with. -/
def knotted : Tuple :=
  ⟨[⟨"_:b.\"<x>"⟩, ⟨"<p\"_:.>"⟩, ⟨"\"a . \\\" <b> \\\\\"@en-1"⟩, ⟨"_:g."⟩]⟩

def knottedLine : String :=
  "\t_:b.\"<x> \u3000 <p\"_:.>\n\"a . \\\" <b> \\\\\"@en-1\u00a0_:g..  "

theorem ofLine_layout_knotted :
    Statement knotted ∧ Layout knotted knottedLine ∧ ofLine? knottedLine = .ok (some knotted) ∧
      ofLine? (toString knotted) = .ok (some knotted) := by
  have hlength : Text.bodyLength? false "a . \\\" <b> \\\\\"".toList = some 14 := by decide
  have hbody : Text.Quoted (fun _ => True) "a . \\\" <b> \\\\\"".toList :=
    Text.quoted_of_bodyLength? hlength
  have hst : Statement knotted :=
    .quad (.blank (@BlankNode.intro "b.\"<x>".toList (by decide) (by decide)))
      (@Iri.intro "p\"_:.".toList (by decide))
      (.literal (.intro hbody (@Suffix.language "en-1".toList (by decide) (by decide))))
      (.blank (@BlankNode.intro "g.".toList (by decide) (by decide)))
  have hwhite : Text.White " \u3000 ".toList ∧ Text.White ['\n'] ∧ Text.White ['\u00a0'] := by decide
  have hlay : Layout knotted knottedLine :=
    @Layout.intro _ _ ['\t'] _ [] [' ', ' '] (by decide)
      (.more hwhite.1 (by decide) (.more hwhite.2.1 (by decide) (.more hwhite.2.2 (by decide) .last)))
      (by decide) (by decide) rfl
  have hread := ofLine_layout.1 knotted _ hst hlay
  exact ⟨hst, hlay, hread, (ofLine_layout.2 knotted _ hread).2⟩

end StandingQuery.Tuple
