import StandingQuery.Proofs.Consistency

/-! Visits, seen from one query.

A tuple that is added visits the patterns that it could match. In which order it
visits those of one query depends on the query alone (`visitsOf`), so the *hits* of
the tuple are the same in any two indexes that hold the query. While a query is
registered and active its joins are faithful to the book of its hits (`Follows`): a
visit of another query leaves it as it is (`idle_visit`), a visit of its own records
a hit (`follows_visit`) and sends what the hit completes (`exists_fresh`). -/
namespace StandingQuery
open Std

/-- A tuple that is added, with the instant and the end of its life. -/
structure Arrival where
  now : Nat
  tuple : Tuple
  expiration : Expiration
  [timely : expiration.Timely]

instance (a : Arrival) : a.expiration.Timely := a.timely

namespace GraphPattern

/-- What pattern `i` binds on a tuple, if there is such a pattern and it matches. -/
def matchAt (g : GraphPattern) (i : Nat) (t : Tuple) : Option Binding := g[i]?.bind (·.match? t)

/-- The patterns of a query that a tuple visits, in order: those that it would visit in an
index that holds nothing else. -/
def visitsOf (id : QueryId) (g : GraphPattern) (t : Tuple) : List PatternRef :=
  (PatternIndex.empty.insertQuery id g).lookup t

/-- The hit of a visit. -/
def hitAt (g : GraphPattern) (a : Arrival) (ref : PatternRef) : Option Hit :=
  (g.matchAt ref.pattern a.tuple).map fun m => ⟨a.now, ref.pattern, m, a.expiration⟩

/-- The hits of an arrival. -/
def hitsOf (id : QueryId) (g : GraphPattern) (a : Arrival) : List Hit :=
  (visitsOf id g a.tuple).filterMap (g.hitAt a)

variable {g : GraphPattern} {id : QueryId} {i : Nat} {t : Tuple} {m : Binding} {h : Hit}
variable {a : Arrival} {hits : List Hit}

/-- Every pattern that matches is visited. -/
theorem mem_visitsOf (hm : g.matchAt i t = some m) : ⟨id, i⟩ ∈ visitsOf id g t := by
  obtain ⟨p, hp, hpt⟩ := Option.bind_eq_some_iff.1 hm
  have hlists := PatternIndex.lists_insertQuery PatternIndex.lists_empty id g
  refine (PatternIndex.mem_lookup hlists).2 ⟨⟨⟨id, i⟩, .ofPattern p⟩, ?_, rfl, ?_⟩
  · exact mem_filings.2 ⟨rfl, p, hp, rfl⟩
  · exact (Signature.ofTuple_eq_ofPattern hpt).symm

theorem hitAt_eq_some {ref : PatternRef} : g.hitAt a ref = some h ↔
    g.matchAt ref.pattern a.tuple = some h.binding ∧ h.now = a.now ∧ h.pattern = ref.pattern ∧
      h.expiration = a.expiration := by
  unfold hitAt
  rw [Option.map_eq_some_iff]
  constructor
  · intro ⟨m, hm, he⟩
    subst he
    exact ⟨hm, rfl, rfl, rfl⟩
  · intro ⟨hm, hnow, hpattern, hexp⟩
    refine ⟨h.binding, hm, ?_⟩
    rw [← hnow, ← hpattern, ← hexp]

theorem mem_hitsOf : h ∈ hitsOf id g a ↔ g.matchAt h.pattern a.tuple = some h.binding ∧
    h.now = a.now ∧ h.expiration = a.expiration := by
  unfold hitsOf
  rw [List.mem_filterMap]
  constructor
  · intro ⟨ref, _, hh⟩
    obtain ⟨hm, hnow, hpattern, hexp⟩ := hitAt_eq_some.1 hh
    exact ⟨hpattern ▸ hm, hnow, hexp⟩
  · intro ⟨hm, hnow, hexp⟩
    exact ⟨⟨id, h.pattern⟩, mem_visitsOf hm, hitAt_eq_some.2 ⟨hm, hnow, rfl, hexp⟩⟩

/-- The latest expiration does not depend on order or repetitions. -/
theorem maximum_eq_of_mem {l l' : List Expiration} (h : ∀ e, e ∈ l ↔ e ∈ l') :
    l.maximum = l'.maximum := by
  have hle : ∀ {l l' : List Expiration}, (∀ e ∈ l, e ∈ l') → l.maximum ≤ l'.maximum :=
    fun hsub => List.maximum_le_of_forall_le fun e he => List.le_maximum_of_mem' (hsub e he)
  exact (hle fun e => (h e).1).antisymm (hle fun e => (h e).2)

/-- For each pattern and binding, the latest expiration of a tuple that the pattern matches
with the binding. -/
def latest (g : GraphPattern) (arrivals : List Arrival) : Book := fun i m =>
  ((arrivals.filter fun a => g.matchAt i a.tuple = some m).map Arrival.expiration).maximum

/-- If all tuples expire at the same time, that is when a match does that one of them gives. -/
theorem latest_eq_coe_iff {arrivals : List Arrival} {d : Expiration}
    (hall : ∀ a ∈ arrivals, a.expiration = d) :
    g.latest arrivals i m = d ↔ ∃ t ∈ arrivals.map Arrival.tuple, g.matchAt i t = some m := by
  unfold latest
  constructor
  · intro he
    obtain ⟨a, ha, -⟩ := List.mem_map.1 (List.maximum_mem he)
    obtain ⟨ha, hm⟩ := List.mem_filter.1 ha
    exact ⟨a.tuple, List.mem_map_of_mem ha, of_decide_eq_true hm⟩
  · intro ⟨t, ht, hm⟩
    obtain ⟨a, ha, rfl⟩ := List.mem_map.1 ht
    have hmem : d ∈ (arrivals.filter fun a => g.matchAt i a.tuple = some m).map Arrival.expiration :=
      List.mem_map.2 ⟨a, List.mem_filter.2 ⟨ha, decide_eq_true hm⟩, hall a ha⟩
    refine (List.maximum_le_of_forall_le fun e he => ?_).antisymm (List.le_maximum_of_mem' hmem)
    obtain ⟨a', ha', rfl⟩ := List.mem_map.1 he
    rw [hall a' (List.mem_filter.1 ha').1]

/-- The hits of the arrivals make up the book of the arrivals. -/
theorem ofHits_flatMap (id : QueryId) (g : GraphPattern) (arrivals : List Arrival) :
    Book.ofHits (arrivals.flatMap (hitsOf id g)) = g.latest arrivals := by
  funext i m
  refine maximum_eq_of_mem fun e => ?_
  simp only [List.mem_map, List.mem_filter, List.mem_flatMap, decide_eq_true_eq]
  constructor
  · intro ⟨h, ⟨⟨a, ha, hh⟩, hi, hm⟩, he⟩
    obtain ⟨hmatch, -, hexp⟩ := mem_hitsOf.1 hh
    exact ⟨a, ⟨ha, hi ▸ hm ▸ hmatch⟩, hexp.symm.trans he⟩
  · intro ⟨a, ⟨ha, hmatch⟩, he⟩
    exact ⟨⟨a.now, i, m, a.expiration⟩, ⟨⟨a, ha, mem_hitsOf.2 ⟨hmatch, rfl, rfl⟩⟩, rfl, rfl⟩, he⟩

end GraphPattern

/-- What a registered query was asked. -/
def Registered.asked (q : Registered) : Query := ⟨q.pattern, q.modifiers⟩

namespace QueryIndex
open JoinState Watched

def asked? (x : QueryIndex) (id : QueryId) : Option Query :=
  (x.registry.get? id).map Registered.asked

/-- A registered query without what deliveries change. -/
def settled? (x : QueryIndex) (id : QueryId) : Option Registered :=
  (x.registry.get? id).map Registered.settled

/-- How long the single matches of a query are stored. -/
def stored (x : QueryIndex) (id : QueryId) : Book := fun i m => x.joins.life ⟨id, .single i, m⟩

/-- The solutions of a log that went to a query. -/
def sentTo (id : QueryId) (log : List Solution) : List Solution := log.filter (·.query = id)

/-- Nothing about a query has changed: what it was asked, its activity, what is stored for it. -/
structure Unmoved (id : QueryId) (x y : QueryIndex) : Prop where
  asked : y.asked? id = x.asked? id
  active : id ∈ y.active ↔ id ∈ x.active
  strategy : y.joins.strategy = x.joins.strategy
  life : ∀ P b, y.joins.life ⟨id, P, b⟩ = x.joins.life ⟨id, P, b⟩

/-- A registered and active query whose joins are faithful to a book, and for which nothing
is stored for longer than the book allows. -/
structure Follows (x : QueryIndex) (τ : Life) (id : QueryId) (query : Query) (L : Book) : Prop where
  asked : x.asked? id = some query
  active : id ∈ x.active
  faithful : x.joins.Faithful id query.pattern τ L
  grounded : ∀ P b, query.pattern.Fits P b → x.joins.Keeps P →
    x.joins.life ⟨id, P, b⟩ ≤ query.pattern.joinLife L P b

variable {x y z : QueryIndex} {τ τ' : Life} {id : QueryId} {query : Query} {L : Book} {now : Nat}
variable {w : Addition Inbox} {ref : PatternRef} {a : Arrival} {t : Tuple} {e : Expiration}

theorem asked?_eq_some : x.asked? id = some query ↔
    ∃ q, x.registry.get? id = some q ∧ q.asked = query := Option.map_eq_some_iff

/-- What was asked is among what deliveries do not change. -/
theorem asked?_eq (x : QueryIndex) (id : QueryId) :
    x.asked? id = (x.settled? id).map Registered.asked := by
  unfold asked? settled?
  rw [Option.map_map]
  rfl

theorem sentTo_append (id : QueryId) (l l' : List Solution) :
    sentTo id (l ++ l') = sentTo id l ++ sentTo id l' := List.filter_append ..

theorem sentTo_nil : sentTo id [] = [] := rfl

theorem sentTo_of_all {l : List Solution} (h : ∀ s ∈ l, s.query = id) : sentTo id l = l :=
  List.filter_eq_self.2 fun s hs => decide_eq_true (h s hs)

theorem sentTo_of_none {l : List Solution} (h : ∀ s ∈ l, s.query ≠ id) : sentTo id l = [] :=
  List.filter_eq_nil_iff.2 fun s hs he => h s hs (of_decide_eq_true he)

theorem Unmoved.refl : Unmoved id x x := ⟨rfl, Iff.rfl, rfl, fun _ _ => rfl⟩

theorem Unmoved.trans (h : Unmoved id x y) (h' : Unmoved id y z) : Unmoved id x z where
  asked := h'.asked.trans h.asked
  active := h'.active.trans h.active
  strategy := h'.strategy.trans h.strategy
  life P b := (h'.life P b).trans (h.life P b)

theorem Unmoved.stored (h : Unmoved id x y) : y.stored id = x.stored id := by
  funext i m
  exact h.life (.single i) m

theorem Follows.mono (h : x.Follows τ id query L) (hle : τ ≤ τ') : x.Follows τ' id query L where
  asked := h.asked
  active := h.active
  faithful P b hb hkeeps := Life.sup_eq_of_le (h.faithful P b hb hkeeps) hle
  grounded := h.grounded

theorem Follows.unmoved (h : x.Follows τ id query L) (hu : Unmoved id x y) :
    y.Follows τ id query L where
  asked := hu.asked.trans h.asked
  active := hu.active.2 h.active
  faithful P b hb hkeeps := by
    rw [hu.life]
    exact h.faithful P b hb fun hs => hkeeps (hu.strategy.trans hs)
  grounded P b hb hkeeps := by
    rw [hu.life]
    exact h.grounded P b hb fun hs => hkeeps (hu.strategy.trans hs)

/-! ### One visit -/

/-- What a visit adds to the hits of a query. -/
def hitFor (id : QueryId) (g : GraphPattern) (a : Arrival) (ref : PatternRef) : List Hit :=
  if ref.query = id then (g.hitAt a ref).toList else []

/-- Of the records a visit changes counters and memories only, whatever the subscribers do. -/
theorem settled?_visit {σ : Type} {receive : Subscriber σ} {w : Addition σ}
    (hc : w.index.Consistent []) (t : Tuple) (e : Expiration) (now : Nat) (ref : PatternRef)
    (id : QueryId) : (visit receive t e now w ref).index.settled? id = w.index.settled? id := by
  rcases visit_cases receive t e now w ref with hsame | ⟨q, b, hfailed, hq, hactive, hb⟩
  · rw [hsame]
  · have hid := (hc.accepted _ q hq).id
    have hsettled : (q.deliver receive now w.index.active w.state (w.index.joins.advance
        w.index.expirations q ref.pattern ⟨b, e⟩ now).candidates).query.settled = q.settled :=
      Registered.settled_deliver q _ _ _
    rw [visit_match hfailed hq hactive hb]
    unfold settled?
    dsimp only
    rw [Registry.get?_update, Registered.id_of_settled hsettled, hid]
    split
    · next hi =>
      rw [← hi, hq, Option.map_some, Option.map_some, hsettled]
    · rfl

theorem asked?_visit {σ : Type} {receive : Subscriber σ} {w : Addition σ}
    (hc : w.index.Consistent []) (t : Tuple) (e : Expiration) (now : Nat) (ref : PatternRef)
    (id : QueryId) : (visit receive t e now w ref).index.asked? id = w.index.asked? id := by
  rw [asked?_eq, asked?_eq, settled?_visit hc]

theorem settings_visit {σ : Type} {receive : Subscriber σ} {w : Addition σ}
    (hc : w.index.Consistent []) (t : Tuple) (e : Expiration) [e.Timely] (now : Nat) (ref : PatternRef) :
    (visit receive t e now w ref).index.settings = w.index.settings := by
  rcases visit_cases receive t e now w ref with hsame | ⟨q, b, hfailed, hq, hactive, hb⟩
  · rw [hsame]
  · rw [visit_match hfailed hq hactive hb]
    exact congrArg (Settings.mk _ _) (taken_advance (hc.takes hq hb e) now).strategy

/-- What a visit that finds a match does: the joins take it in, the subscriber of its query is told. -/
theorem visit_effects {q : Registered} {b : Binding} (hc : w.index.Consistent [])
    (hfailed : w.failed = false) (hq : w.index.registry.get? ref.query = some q)
    (hactive : ref.query ∈ w.index.active)
    (hb : q.pattern[ref.pattern]?.bind (·.match? t) = some b) (e : Expiration) (now : Nat) :
    (visit receive t e now w ref).index.joins =
        (w.index.joins.advance w.index.expirations q ref.pattern ⟨b, e⟩ now).joins ∧
      Concerns ref.query w.index.active (visit receive t e now w ref).index.active w.state
        (visit receive t e now w ref).state := by
  have hid := (hc.accepted _ q hq).id
  rw [visit_match hfailed hq hactive hb]
  refine ⟨rfl, ?_⟩
  rw [← hid]
  exact concerns_deliver q now _ _ _

/-- A visit of another query, or of one that is not active or not registered, leaves a query
as it is. -/
theorem idle_visit (hc : w.index.Consistent []) (t : Tuple) (e : Expiration) [e.Timely] (now : Nat)
    (ref : PatternRef)
    (hidle : ref.query ≠ id ∨ id ∉ w.index.active ∨ w.index.registry.get? id = none) :
    Unmoved id w.index (visit receive t e now w ref).index ∧
      sentTo id (visit receive t e now w ref).state.2 = sentTo id w.state.2 := by
  rcases visit_cases receive t e now w ref with hsame | ⟨q, b, hfailed, hq, hactive, hb⟩
  · rw [hsame]
    exact ⟨.refl, rfl⟩
  · have hne : ref.query ≠ id := by
      intro hi
      subst hi
      rcases hidle with h | h | h
      · exact h rfl
      · exact h hactive
      · rw [hq] at h
        cases h
    obtain ⟨hjoins, hconcerns⟩ := visit_effects hc hfailed hq hactive hb e now
    have htaken := taken_advance (hc.takes hq hb e) now
    obtain ⟨fresh, hlog, hfresh⟩ := hconcerns.log
    refine ⟨⟨asked?_visit hc t e now ref id, hconcerns.active id hne.symm,
      congrArg Settings.strategy (settings_visit hc t e now ref), fun P b => ?_⟩, ?_⟩
    · rw [hjoins]
      exact htaken.others ⟨id, P, b⟩ fun he => hne (he.trans (hc.accepted _ q hq).id).symm
    · have hnone : sentTo id fresh = [] := sentTo_of_none fun s hs => (hfresh s hs).trans_ne hne
      rw [hlog, sentTo_append, hnone, List.append_nil]

/-! ### A visit that finds a match -/

/-- A tuple visits a pattern of a query that is followed, and the pattern matches. -/
structure Meets (w : Addition Inbox) (ref : PatternRef) (a : Arrival) (query : Query) (L : Book)
    (q : Registered) (b : Binding) : Prop where
  consistent : w.index.Consistent []
  failed : w.failed = false
  follows : w.index.Follows (.upTo a.now) ref.query query L
  registered : w.index.registry.get? ref.query = some q
  matched : q.pattern[ref.pattern]?.bind (·.match? a.tuple) = some b

/-- A visit does nothing for a query that is followed, or it is a hit. -/
theorem visit_split (hc : w.index.Consistent []) (hfailed : w.failed = false)
    (h : w.index.Follows (.upTo a.now) id query L) (ref : PatternRef) :
    (hitFor id query.pattern a ref = [] ∧
      Unmoved id w.index (visit receive a.tuple a.expiration a.now w ref).index ∧
      sentTo id (visit receive a.tuple a.expiration a.now w ref).state.2 = sentTo id w.state.2) ∨
    (ref.query = id ∧ ∃ q b, Meets w ref a query L q b ∧
      hitFor id query.pattern a ref = [⟨a.now, ref.pattern, b, a.expiration⟩]) := by
  by_cases hid : ref.query = id
  · subst hid
    obtain ⟨q, hq, hasked⟩ := asked?_eq_some.1 h.asked
    have hpattern : q.pattern = query.pattern := congrArg Query.pattern hasked
    unfold hitFor GraphPattern.hitAt GraphPattern.matchAt
    rw [if_pos rfl, ← hpattern]
    cases hb : q.pattern[ref.pattern]?.bind (·.match? a.tuple) with
    | none =>
      rw [visit_no_match hq hb]
      exact .inl ⟨rfl, .refl, rfl⟩
    | some b => exact .inr ⟨rfl, q, b, ⟨hc, hfailed, h, hq, hb⟩, rfl⟩
  · exact .inl ⟨if_neg hid, idle_visit hc _ _ _ ref (.inl hid)⟩

namespace Meets

variable {q : Registered} {b : Binding} {P : PatternSet}

theorem asked (h : Meets w ref a query L q b) : q.asked = query := by
  obtain ⟨r, hr, hasked⟩ := asked?_eq_some.1 h.follows.asked
  rw [h.registered] at hr
  cases hr
  exact hasked

theorem pattern (h : Meets w ref a query L q b) : q.pattern = query.pattern :=
  congrArg Query.pattern h.asked

theorem modifiers (h : Meets w ref a query L q b) : q.modifiers = query.modifiers :=
  congrArg Query.modifiers h.asked

theorem accepted (h : Meets w ref a query L q b) : w.index.Accepted ref.query q :=
  h.consistent.accepted _ q h.registered

theorem takes (h : Meets w ref a query L q b) :
    Takes w.index.joins w.index.expirations q ref.pattern ⟨b, a.expiration⟩ :=
  h.consistent.takes h.registered h.matched a.expiration

theorem faithful (h : Meets w ref a query L q b) :
    w.index.joins.Faithful q.id q.pattern (.upTo a.now) L := by
  rw [h.accepted.id, h.pattern]
  exact h.follows.faithful

theorem effects (h : Meets w ref a query L q b) :
    (visit receive a.tuple a.expiration a.now w ref).index.joins =
        (w.index.joins.advance w.index.expirations q ref.pattern ⟨b, a.expiration⟩ a.now).joins ∧
      Concerns ref.query w.index.active
        (visit receive a.tuple a.expiration a.now w ref).index.active w.state
        (visit receive a.tuple a.expiration a.now w ref).state :=
  visit_effects h.consistent h.failed h.registered h.follows.active h.matched _ _

theorem strategy (h : Meets w ref a query L q b) :
    (visit receive a.tuple a.expiration a.now w ref).index.joins.strategy =
      w.index.joins.strategy :=
    congrArg Settings.strategy (settings_visit h.consistent _ _ _ ref)

/-- The match is recorded. -/
theorem follows_visit (h : Meets w ref a query L q b)
    (hactive : ref.query ∈ (visit receive a.tuple a.expiration a.now w ref).index.active) :
    (visit receive a.tuple a.expiration a.now w ref).index.Follows (.upTo a.now) ref.query query
      (L.hit ref.pattern b a.expiration) where
  asked := by
    rw [asked?_visit h.consistent]
    exact h.follows.asked
  active := hactive
  faithful := by
    have hF := faithful_advance h.takes h.faithful
    rw [h.accepted.id, h.pattern] at hF
    rw [h.effects.1]
    exact hF
  grounded P c hP hkeeps := by
    have hkeeps : w.index.joins.Keeps P := fun hs => hkeeps (h.strategy.trans hs)
    have hle := life_advance_le h.takes h.faithful (h.pattern ▸ hP) hkeeps
    rw [h.accepted.id, h.pattern] at hle
    rw [h.effects.1]
    refine hle.trans (sup_le ?_ le_rfl)
    exact (h.follows.grounded P c hP hkeeps).trans GraphPattern.joinLife_le_hit

/-- The match is stored. -/
theorem stored_visit (h : Meets w ref a query L q b) :
    (visit receive a.tuple a.expiration a.now w ref).index.stored ref.query =
      (w.index.stored ref.query).hit ref.pattern b a.expiration := by
  have hfitting := (taken_advance h.takes a.now).fitting
  have hsound := (taken_advance h.takes a.now).sound
  funext i m
  unfold stored Book.hit
  dsimp only
  rw [h.effects.1, ← h.accepted.id]
  by_cases hm : q.pattern.Fits (.single i) m
  · exact life_advance_single h.takes h.faithful hm
  · rw [life_eq_bot_of_not_fits hsound hfitting hm, life_eq_bot_of_not_fits h.takes.sound
      h.takes.fitting hm, if_neg]
    intro hsame
    rw [hsame.1, hsame.2] at hm
    exact hm h.takes.fits

/-- What the match completes, once each, is sent to a query that takes solutions as they
come: all of it if the query is still active afterwards, and the beginning otherwise. -/
theorem exists_fresh (h : Meets w ref a query L q b) :
    ∃ fresh, fresh.Pairwise (fun c d : Candidate => c.binding ≠ d.binding) ∧
      (∀ c, c ∈ fresh ↔ query.pattern.Completes w.index.joins.strategy L
        ⟨a.now, ref.pattern, b, a.expiration⟩ c) ∧
      (query.modifiers.Plain → ∃ new,
        sentTo ref.query (visit receive a.tuple a.expiration a.now w ref).state.2 =
          sentTo ref.query w.state.2 ++ new ∧ new <+: query.modifiers.sent ref.query fresh ∧
        (ref.query ∈ (visit receive a.tuple a.expiration a.now w ref).index.active →
          new = query.modifiers.sent ref.query fresh)) := by
  have hid := h.accepted.id
  refine ⟨(w.index.joins.advance w.index.expirations q ref.pattern ⟨b, a.expiration⟩
    a.now).candidates.filter (fun c => !c.expiration.expiredAt a.now), ?_, fun c => ?_, fun hplain => ?_⟩
  · exact (pairwise_advance h.takes h.faithful).filter _
  · rw [List.mem_filter, Bool.not_eq_true', Expiration.not_expiredAt_iff, ← h.pattern]
    constructor
    · intro ⟨hc, halive⟩
      exact (mem_advance h.takes h.faithful halive).1 hc
    · intro hc
      exact ⟨(mem_advance h.takes h.faithful hc.alive).2 hc, hc.alive⟩
  · have hplain' : q.modifiers.Plain := h.modifiers ▸ hplain
    have hmemory := h.accepted.memory hplain'.distinctness
    obtain ⟨new, hlog, hbegins, hall⟩ := deliver_plain (s := w.state) hplain' hmemory a.now
      (hid ▸ h.follows.active) (w.index.joins.advance w.index.expirations q ref.pattern
        ⟨b, a.expiration⟩ a.now).candidates
    rw [hid, h.modifiers] at hbegins hall
    have hnew : sentTo ref.query new = new := sentTo_of_all fun s hs => by
      obtain ⟨c, -, rfl⟩ := List.mem_map.1 (hbegins.subset hs)
      rfl
    refine ⟨new, ?_, hbegins, fun hactive => ?_⟩
    · rw [visit_match h.failed h.registered h.follows.active h.matched]
      dsimp only
      rw [hlog, sentTo_append, hnew]
    · rw [visit_match h.failed h.registered h.follows.active h.matched] at hactive
      exact (hall hactive).1

/-- Without a quota a query that takes solutions as they come stays active. -/
theorem active_visit (h : Meets w ref a query L q b) (hplain : query.modifiers.Plain)
    (hquota : w.state.1[ref.query]? = none) :
    ref.query ∈ (visit receive a.tuple a.expiration a.now w ref).index.active := by
  have hplain' : q.modifiers.Plain := h.modifiers ▸ hplain
  have hmemory := h.accepted.memory hplain'.distinctness
  rw [visit_match h.failed h.registered h.follows.active h.matched]
  dsimp only
  rw [active_deliver_plain hplain' hmemory a.now _ (h.accepted.id ▸ hquota)]
  exact h.follows.active

end Meets

end QueryIndex

end StandingQuery
