import StandingQuery.Proofs.Reachability

/-! What an addition changes.

An addition tells whether something was stored or has come to live longer. If it says no,
the index is the same as before, and no solution has been delivered; if it says yes, then
what is stored differs, or a query has left with all that was stored for it. What is
stored of a tuple says which it is: if every match of it is held for long enough
(`Holds`), every visit leaves the index as it is (`add_held`). After an addition every match is
held by the queries that are still there, so adding the tuple again, for no longer, does
nothing (`add_truthful`). -/
namespace StandingQuery
open Std (ExtTreeSet)

/-! ### Lives do not get shorter -/

namespace SolutionStore
open PartialSolution PartialStore

variable {a : Analysis} {now : Nat} {s : Progress} {p : PartialSolution PatternSet}

/-- A store in which nothing lives shorter than in another one. -/
structure Outlasts (s' s : SolutionStore) : Prop where
  sound : s'.Sound
  life : ∀ k, s.life k ≤ s'.life k

theorem Outlasts.trans {s s' s'' : SolutionStore} (h : Outlasts s' s) (h' : Outlasts s'' s') :
    Outlasts s'' s where
  sound := h'.sound
  life k := (h.life k).trans (h'.life k)

theorem outlasts_absorb (h : s.store.Sound) (a : Analysis) (now : Nat)
    (p : PartialSolution PatternSet) : Outlasts (absorb a now s p).1.store s.store := by
  rw [absorb_store h]
  exact ⟨sound_insert h p, le_life_insert h.toSound p⟩

theorem outlasts_round (h : s.store.Sound) (a : Analysis) (now : Nat)
    (work : List (PartialSolution PatternSet)) :
    Outlasts (round a now s work).1.store s.store := by
  induction work generalizing s with
  | nil => exact ⟨h, fun _ => le_rfl⟩
  | cons p work ih =>
    have hfirst := outlasts_absorb h a now p
    exact hfirst.trans (ih hfirst.sound)

theorem outlasts_rounds (h : s.store.Sound) (a : Analysis) (now n : Nat)
    (work : List (PartialSolution PatternSet)) :
    Outlasts (rounds a now n s work).store s.store := by
  induction n generalizing s work with
  | zero => exact ⟨h, fun _ => le_rfl⟩
  | succ n ih =>
    cases work with
    | nil => exact ⟨h, fun _ => le_rfl⟩
    | cons p work =>
      have hfirst := outlasts_round h a now (p :: work)
      exact hfirst.trans (ih hfirst.sound _)

section Propagate

variable {s : SolutionStore} {x : Expirations} {seed : PartialSolution PatternSet}

/-- The first round stores the seed. -/
theorem propagate_eq : propagate s x seed a now =
    rounds a now a.size (absorb a now { store := s, expirations := x } seed).1
      ((absorb a now { store := s, expirations := x } seed).2 ++ []) :=
  rfl

/-- The seed lives from then on for as long as it says, and nothing lives shorter. -/
theorem outlasts_propagate (h : s.Sound) (x : Expirations) (seed : PartialSolution PatternSet)
    (a : Analysis) (now : Nat) : Outlasts (propagate s x seed a now).store s ∧
      (seed.expiration : Life) ≤ (propagate s x seed a now).store.life seed.key := by
  have hstore : (absorb a now { store := s, expirations := x } seed).1.store = (s.insert seed).2 :=
    absorb_store h
  have hrest := outlasts_rounds (hstore ▸ sound_insert h seed) a now a.size
    ((absorb a now { store := s, expirations := x } seed).2 ++ [])
  rw [← propagate_eq, hstore] at hrest
  have hself := hrest.life seed.key
  rw [toPartialStore_insert, life_insert_self h.toSound] at hself
  exact ⟨Outlasts.trans ⟨sound_insert h seed, le_life_insert h.toSound seed⟩ hrest,
    le_sup_right.trans hself⟩

/-- A seed that is held already is joined with nothing. -/
theorem propagate_none (h : (s.insert seed).1.id? = none) :
    propagate s x seed a now = { store := s, expirations := x } := by
  have habsorb : absorb a now { store := s, expirations := x } seed =
      ({ store := s, expirations := x }, []) := absorb_none h
  rw [propagate_eq, habsorb]
  cases a.size <;> rfl

end Propagate

end SolutionStore

namespace JoinState
open PartialSolution PartialStore

variable {j : JoinState} {x : Expirations} {q : Registered} {i now : Nat} {m : Candidate}

theorem le_life_advance (h : j.Sound) (k : Key PatternSet) :
    j.life k ≤ (j.advance x q i m now).joins.life k := by
  cases j with
  | symmetric s => exact (SolutionStore.outlasts_propagate h x _ q.analysis now).1.life k
  | caching c =>
    unfold advance
    dsimp only
    rw [MatchCache.addMatch_cache h]
    unfold life
    dsimp only
    split
    · exact le_life_insert h.toSound _ _
    · exact le_rfl

/-- A match that is taken in lives from then on for as long as it says. -/
theorem expiration_le_life_advance (h : j.Sound) :
    (m.expiration : Life) ≤ (j.advance x q i m now).joins.life ⟨q.id, .single i, m.binding⟩ := by
  cases j with
  | symmetric s =>
    exact (SolutionStore.outlasts_propagate h x (.ofPattern q.id i m.binding m.expiration)
      q.analysis now).2
  | caching c =>
    have hself := life_insert_self h.toSound ⟨q.id, i, m.binding, m.expiration⟩
    unfold advance
    dsimp only
    rw [MatchCache.addMatch_cache h, life_caching]
    exact le_of_le_of_eq le_sup_right hself.symm

/-- A match that changes nothing completes nothing. -/
theorem advance_unchanged (h : (j.advance x q i m now).changed = false) :
    j.advance x q i m now = { changed := false, candidates := [], joins := j, expirations := x } := by
  cases j with
  | symmetric s =>
    have hchanged := SolutionStore.changed_propagate s x (.ofPattern q.id i m.binding m.expiration)
      q.analysis now
    have hnone : (s.insert (.ofPattern q.id i m.binding m.expiration)).1.id? = none :=
      Option.isNone_iff_eq_none.1 (Option.isSome_eq_false_iff.1 (hchanged.symm.trans h))
    simp only [advance, SolutionStore.propagate_none hnone, List.map_nil]
  | caching c =>
    cases hn : (c.insert ⟨q.id, i, m.binding, m.expiration⟩).1.id? with
    | none => simp only [advance, MatchCache.addMatch_none hn, Option.isSome_none, Option.getD_none]
    | some n =>
      simp only [advance, MatchCache.addMatch_some hn, Option.isSome_some] at h
      cases h

end JoinState

/-! ### Subscribers that interfere little -/

/-- The subscriber never fails, and it activates no query. -/
structure Subscriber.Meek {σ : Type} (receive : Subscriber σ) : Prop where
  succeeds : ∀ active s x, (receive active s x).failed = false
  active : ∀ active s x (id : QueryId), id ∈ (receive active s x).active → id ∈ active

section Meek

variable {σ : Type} {receive : Subscriber σ} {id : QueryId}

theorem Registered.active_deliver (h : receive.Meek) (q : Registered) (now : Nat) (active : Active)
    (s : σ) (cs : List Candidate) (hid : id ∈ (q.deliver receive now active s cs).active) :
    id ∈ active := by
  induction cs generalizing q active s with
  | nil => exact hid
  | cons c rest ih =>
    rw [deliver] at hid
    split at hid
    · exact ih q active s hid
    · split at hid
      · exact ih _ active s hid
      · exact (ExtTreeSet.mem_erase.1 hid).2
      · next solution last _ _ =>
        have hkept := h.active active s solution id
        dsimp only at hid
        split at hid
        · exact hkept hid
        · split at hid
          · exact hkept (ExtTreeSet.mem_erase.1 hid).2
          · exact hkept (ih _ _ _ hid)

theorem Registered.failed_deliver (h : receive.Meek) (q : Registered) (now : Nat) (active : Active)
    (s : σ) (cs : List Candidate) : (q.deliver receive now active s cs).failed = false :=
  (deliver_succeeds (P := fun _ => True) (fun active s x _ => ⟨h.succeeds active s x, trivial⟩) q now
    active trivial cs).1

end Meek

namespace QueryIndex
open JoinState

variable {σ : Type} {receive : Subscriber σ} {x : QueryIndex} {w : Addition σ}
variable {ref : PatternRef} {q : Registered} {b : Binding} {t : Tuple} {e : Expiration}
variable {now ttl : Nat}

/-- A match of the tuple by a pattern of an active query is held until `e` or longer. -/
def HoldsAt (x : QueryIndex) (t : Tuple) (e : Expiration) (ref : PatternRef) : Prop :=
  ∀ query b, x.asked? ref.query = some query → ref.query ∈ x.active →
    query.pattern.matchAt ref.pattern t = some b →
      (e : Life) ≤ x.joins.life ⟨ref.query, .single ref.pattern, b⟩

/-- All matches of the tuple by active queries are held until `e` or longer. -/
def Holds (x : QueryIndex) (t : Tuple) (e : Expiration) : Prop := ∀ ref, x.HoldsAt t e ref

theorem Holds.mono {e' : Expiration} (h : x.Holds t e) (hle : e' ≤ e) : x.Holds t e' :=
  fun ref query b hasked hactive hm =>
    (WithBot.coe_le_coe.2 hle).trans (h ref query b hasked hactive hm)

/-- A tuple of another arity has no match. -/
theorem holds_of_arity (hc : x.Consistent []) (harity : t.arity ≠ x.arity) : x.Holds t e := by
  intro ref query b hasked _ hm
  obtain ⟨q, hq, rfl⟩ := asked?_eq_some.1 hasked
  exact absurd (hc.arity_of_matchAt hq hm) harity

/-- Every pattern that matches is looked up. -/
theorem mem_lookup_of_matchAt {query : Query} (hc : x.Consistent [])
    (hasked : x.asked? ref.query = some query)
    (hm : query.pattern.matchAt ref.pattern t = some b) : ref ∈ x.patterns.lookup t := by
  obtain ⟨q, hq, rfl⟩ := asked?_eq_some.1 hasked
  have hvisit : ref ∈ q.pattern.visitsOf ref.query t := GraphPattern.mem_visitsOf hm
  have hfound : (x.patterns.lookup t).filter (·.query = ref.query) =
      q.pattern.visitsOf ref.query t := by
    rw [filter_lookup_eq hc, hq]
    rfl
  rw [← hfound] at hvisit
  exact (List.mem_filter.1 hvisit).1

/-! ### Visits that change nothing -/

theorem visit_unchanged (hc : w.index.Consistent []) (hfailed : w.failed = false)
    (hq : w.index.registry.get? ref.query = some q) (hactive : ref.query ∈ w.index.active)
    (hb : q.pattern[ref.pattern]?.bind (·.match? t) = some b)
    (hsame : (w.index.joins.advance w.index.expirations q ref.pattern ⟨b, e⟩ now).changed = false) :
    visit receive t e now w ref = w := by
  have hid := (hc.accepted _ q hq).id
  rw [visit_match hfailed hq hactive hb, advance_unchanged hsame]
  simp only [Registered.deliver, Bool.false_eq_true, if_false, Bool.or_false]
  rw [Registry.update_self (hid ▸ hq), ← hfailed]

/-- A match that is held already changes nothing. -/
theorem visit_held (hc : w.index.Consistent []) (h : w.index.HoldsAt t e ref) :
    visit receive t e now w ref = w := by
  rcases visit_cases receive t e now w ref with hsame | ⟨q, b, hfailed, hq, hactive, hb⟩
  · exact hsame
  · refine visit_unchanged hc hfailed hq hactive hb (Bool.eq_false_iff.2 fun hchanged => ?_)
    have hlonger := (advance_changed_iff hc.joins).1 hchanged
    rw [(hc.accepted _ q hq).id] at hlonger
    exact (h q.asked b (asked?_eq_some.2 ⟨q, hq, rfl⟩) hactive hb).not_gt hlonger

/-- If all matches are held already, an addition does nothing. -/
theorem add_held (hc : x.Consistent []) (h : x.Holds t (.ofTtl now ttl)) (receive : Subscriber σ)
    (s : σ) : x.add receive t ttl now s = { index := x, state := s } := by
  have hvisits : (x.patterns.lookup t).foldl (visit receive t (.ofTtl now ttl) now)
      { index := x, state := s } = { index := x, state := s } :=
    List.foldl_fixed' (fun ref => visit_held hc (h ref)) _
  unfold add
  split
  · rfl
  · rw [hvisits]
    rfl

/-! ### What visits change -/

theorem consistent_foldl_visit [e.Timely] (hc : w.index.Consistent []) (refs : List PatternRef) :
    (refs.foldl (visit receive t e now) w).index.Consistent [] := by
  induction refs generalizing w with
  | nil => exact hc
  | cons ref refs ih => exact ih (consistent_visit hc receive t e now ref)

theorem le_life_visit (hc : w.index.Consistent []) (ref : PatternRef)
    (k : PartialSolution.Key PatternSet) :
    w.index.joins.life k ≤ (visit receive t e now w ref).index.joins.life k := by
  rcases visit_cases receive t e now w ref with hsame | ⟨q, b, hfailed, hq, hactive, hb⟩
  · rw [hsame]
  · rw [visit_match hfailed hq hactive hb]
    exact le_life_advance hc.joins k

theorem le_life_foldl_visit [e.Timely] (hc : w.index.Consistent []) (refs : List PatternRef)
    (k : PartialSolution.Key PatternSet) :
    w.index.joins.life k ≤ (refs.foldl (visit receive t e now) w).index.joins.life k := by
  induction refs generalizing w with
  | nil => exact le_rfl
  | cons ref refs ih =>
    exact (le_life_visit hc ref k).trans (ih (consistent_visit hc receive t e now ref))

/-- A match that a visit finds is held from then on. -/
theorem expiration_le_life_visit (hc : w.index.Consistent []) (hfailed : w.failed = false)
    (hq : w.index.registry.get? ref.query = some q) (hactive : ref.query ∈ w.index.active)
    (hb : q.pattern[ref.pattern]?.bind (·.match? t) = some b) : (e : Life) ≤
      (visit receive t e now w ref).index.joins.life ⟨ref.query, .single ref.pattern, b⟩ := by
  rw [visit_match hfailed hq hactive hb, ← (hc.accepted _ q hq).id]
  exact expiration_le_life_advance (m := ⟨b, e⟩) hc.joins

theorem changed_foldl_visit (refs : List PatternRef) (h : w.changed = true) :
    (refs.foldl (visit receive t e now) w).changed = true := by
  induction refs generalizing w with
  | nil => exact h
  | cons ref refs ih =>
    refine ih ?_
    rcases visit_cases receive t e now w ref with hsame | ⟨q, b, hfailed, hq, hactive, hb⟩
    · rw [hsame]
      exact h
    · rw [visit_match hfailed hq hactive hb]
      exact Bool.or_eq_true_iff.2 (.inl h)

/-- A visit that changes nothing leaves the addition where it was, and a match it has found was
held already. -/
theorem visit_of_unchanged (hc : w.index.Consistent [])
    (h : (visit receive t e now w ref).changed = false) :
    visit receive t e now w ref = w ∧ (w.failed = false → w.index.HoldsAt t e ref) := by
  have hadvance : ∀ q b, w.failed = false → w.index.registry.get? ref.query = some q →
      ref.query ∈ w.index.active → q.pattern[ref.pattern]?.bind (·.match? t) = some b →
        (w.index.joins.advance w.index.expirations q ref.pattern ⟨b, e⟩ now).changed = false := by
    intro q b hfailed hq hactive hb
    rw [visit_match hfailed hq hactive hb] at h
    exact (Bool.or_eq_false_iff.1 h).2
  constructor
  · rcases visit_cases receive t e now w ref with hsame | ⟨q, b, hfailed, hq, hactive, hb⟩
    · exact hsame
    · exact visit_unchanged hc hfailed hq hactive hb (hadvance q b hfailed hq hactive hb)
  · intro hfailed query b hasked hactive hm
    obtain ⟨q, hq, rfl⟩ := asked?_eq_some.1 hasked
    have hsame := hadvance q b hfailed hq hactive hm
    rw [← Bool.not_eq_true, advance_changed_iff hc.joins, not_lt, (hc.accepted _ q hq).id] at hsame
    exact hsame

theorem holdsAt_of_unchanged (hc : w.index.Consistent []) (hfailed : w.failed = false)
    (refs : List PatternRef) (h : (refs.foldl (visit receive t e now) w).changed = false) :
    ∀ ref ∈ refs, w.index.HoldsAt t e ref := by
  induction refs with
  | nil => exact fun ref href => absurd href List.not_mem_nil
  | cons ref refs ih =>
    have hfirst : (visit receive t e now w ref).changed = false :=
      Bool.eq_false_iff.2 fun hchanged => Bool.eq_false_iff.1 h (changed_foldl_visit refs hchanged)
    obtain ⟨hsame, hheld⟩ := visit_of_unchanged hc hfirst
    rw [List.foldl_cons, hsame] at h
    exact List.forall_mem_cons.2 ⟨hheld hfailed, ih h⟩

theorem changed_add (harity : t.arity = x.arity) (s : σ) : (x.add receive t ttl now s).changed =
    ((x.patterns.lookup t).foldl (visit receive t (.ofTtl now ttl) now)
      { index := x, state := s }).changed := by
  unfold add
  rw [if_neg (not_not_intro harity)]
  dsimp only
  split <;> rfl

/-- If an addition changes nothing, all matches were held already. -/
theorem holds_of_unchanged (hc : x.Consistent []) {s : σ}
    (h : (x.add receive t ttl now s).changed = false) : x.Holds t (.ofTtl now ttl) := by
  intro ref query b hasked hactive hm
  obtain ⟨q, hq, rfl⟩ := asked?_eq_some.1 hasked
  rw [changed_add (hc.arity_of_matchAt hq hm)] at h
  exact holdsAt_of_unchanged (w := { index := x, state := s }) hc rfl _ h ref
    (mem_lookup_of_matchAt hc hasked hm) q.asked b hasked hactive hm

/-- Visits that change something make something live longer that is stored for a query. -/
theorem longer_of_changed [e.Timely] (hc : w.index.Consistent []) (hw : w.changed = false)
    (refs : List PatternRef) (h : (refs.foldl (visit receive t e now) w).changed = true) :
    ∃ (k : PartialSolution.Key PatternSet) (query : Query), w.index.asked? k.query = some query ∧
      w.index.joins.life k < (refs.foldl (visit receive t e now) w).index.joins.life k := by
  induction refs with
  | nil =>
    rw [List.foldl_nil, hw] at h
    cases h
  | cons ref refs ih =>
    by_cases hfirst : (visit receive t e now w ref).changed = true
    · rcases visit_cases receive t e now w ref with hsame | ⟨q, b, hfailed, hq, hactive, hb⟩
      · rw [hsame, hw] at hfirst
        cases hfirst
      · have hadvance := hfirst
        rw [visit_match hfailed hq hactive hb, Bool.or_eq_true_iff, hw, Bool.false_eq_true, false_or,
          advance_changed_iff hc.joins, (hc.accepted _ q hq).id] at hadvance
        refine ⟨⟨ref.query, .single ref.pattern, b⟩, q.asked, asked?_eq_some.2 ⟨q, hq, rfl⟩, ?_⟩
        exact (hadvance.trans_le (expiration_le_life_visit hc hfailed hq hactive hb)).trans_le
          (le_life_foldl_visit (consistent_visit hc receive t e now ref) refs _)
    · have hsame := (visit_of_unchanged hc (Bool.eq_false_iff.2 hfirst)).1
      rw [List.foldl_cons, hsame] at h ⊢
      exact ih h

/-! ### Satisfied queries leave -/

/-- What is stored for the other queries is not touched. -/
theorem longer_unregister {k : PartialSolution.Key PatternSet} {l : Life} (hc : x.Consistent [])
    (h : x.asked? k.query = none ∨ l < x.joins.life k) (id : QueryId) :
    (x.unregister id).2.asked? k.query = none ∨ l < (x.unregister id).2.joins.life k := by
  by_cases hid : id = k.query
  · left
    rw [asked?_unregister, if_pos hid]
  · have hsame := unmoved_unregister hc hid
    exact h.imp hsame.asked.trans fun hl => hl.trans_eq (hsame.life k.part k.binding).symm

/-- If an addition changes something, a query has left, or something that is stored for it lives
longer. -/
theorem longer_of_changed_add (hc : x.Consistent []) {s : σ}
    (h : (x.add receive t ttl now s).changed = true) :
    ∃ (k : PartialSolution.Key PatternSet) (query : Query), x.asked? k.query = some query ∧
      ((x.add receive t ttl now s).index.asked? k.query = none ∨
        x.joins.life k < (x.add receive t ttl now s).index.joins.life k) := by
  by_cases harity : t.arity = x.arity
  · rw [changed_add harity] at h
    obtain ⟨k, query, hasked, hlonger⟩ := longer_of_changed (w := { index := x, state := s }) hc rfl _ h
    refine ⟨k, query, hasked, ?_⟩
    unfold add
    rw [if_neg (not_not_intro harity)]
    dsimp only
    split
    · exact .inr hlonger
    · exact (foldl_unregister_induct (P := fun y => y.Consistent [] ∧
        (y.asked? k.query = none ∨ x.joins.life k < y.joins.life k))
        (fun y id hy => ⟨consistent_unregister hy.1 id, longer_unregister hy.1 hy.2 id⟩) _
        ⟨consistent_foldl_visit hc _, .inr hlonger⟩).2
  · unfold add at h
    rw [if_pos harity] at h
    cases h

/-! ### What is held after an addition -/

theorem patterns_foldl_visit (w : Addition σ) (refs : List PatternRef) :
    (refs.foldl (visit receive t e now) w).index.patterns = w.index.patterns := by
  induction refs generalizing w with
  | nil => rfl
  | cons ref refs ih => exact (ih _).trans (patterns_visit receive t e now w ref)

theorem holds_unregister (hc : x.Consistent []) (h : x.Holds t e) (id : QueryId) :
    (x.unregister id).2.Holds t e := by
  intro ref query b hasked hactive hm
  have hold := asked?_of_unregister hasked
  by_cases hid : id = ref.query
  · rw [asked?_unregister, if_pos hid] at hasked
    cases hasked
  · have hsame := unmoved_unregister hc hid
    rw [hsame.life]
    exact h ref query b hold (hsame.active.1 hactive) hm

section Held

variable (hmeek : receive.Meek)
include hmeek

theorem meek_visit (w : Addition σ) (ref : PatternRef) :
    (visit receive t e now w ref).failed = w.failed ∧
      ∀ id ∈ (visit receive t e now w ref).index.active, id ∈ w.index.active := by
  rcases visit_cases receive t e now w ref with hsame | ⟨q, b, hfailed, hq, hactive, hb⟩
  · rw [hsame]
    exact ⟨rfl, fun _ => id⟩
  · rw [visit_match hfailed hq hactive hb, hfailed]
    exact ⟨Registered.failed_deliver hmeek q now _ _ _,
      fun id => Registered.active_deliver hmeek q now _ _ _⟩

/-- What is held stays held, and a query that is not active any more asks for nothing. -/
theorem holdsAt_visit (hc : w.index.Consistent []) {ref' : PatternRef}
    (h : w.index.HoldsAt t e ref') (ref : PatternRef) :
    (visit receive t e now w ref).index.HoldsAt t e ref' := by
  intro query b hasked hactive hm
  rw [asked?_visit hc] at hasked
  exact (h query b hasked ((meek_visit hmeek w ref).2 _ hactive) hm).trans (le_life_visit hc ref _)

theorem holdsAt_visit_self (hc : w.index.Consistent []) (hfailed : w.failed = false)
    (ref : PatternRef) : (visit receive t e now w ref).index.HoldsAt t e ref := by
  intro query b hasked hactive hm
  rw [asked?_visit hc] at hasked
  obtain ⟨q, hq, rfl⟩ := asked?_eq_some.1 hasked
  exact expiration_le_life_visit hc hfailed hq ((meek_visit hmeek w ref).2 _ hactive) hm

theorem holdsAt_foldl_visit [e.Timely] (hc : w.index.Consistent []) {ref' : PatternRef}
    (h : w.index.HoldsAt t e ref') (refs : List PatternRef) :
    (refs.foldl (visit receive t e now) w).index.HoldsAt t e ref' := by
  induction refs generalizing w with
  | nil => exact h
  | cons ref refs ih =>
    exact ih (consistent_visit hc receive t e now ref) (holdsAt_visit hmeek hc h ref)

theorem holdsAt_visited [e.Timely] (hc : w.index.Consistent []) (hfailed : w.failed = false)
    (refs : List PatternRef) :
    ∀ ref ∈ refs, (refs.foldl (visit receive t e now) w).index.HoldsAt t e ref := by
  induction refs generalizing w with
  | nil => exact fun ref href => absurd href List.not_mem_nil
  | cons ref refs ih =>
    have hnext := consistent_visit hc receive t e now ref
    refine List.forall_mem_cons.2 ⟨?_, ih hnext ((meek_visit hmeek w ref).1.trans hfailed)⟩
    exact holdsAt_foldl_visit hmeek hnext (holdsAt_visit_self hmeek hc hfailed ref) refs

/-- After an addition every match of the tuple by a query that is still active is held. -/
theorem holds_add (hc : x.Consistent []) (t : Tuple) (ttl now : Nat) (s : σ) :
    (x.add receive t ttl now s).index.Holds t (.ofTtl now ttl) := by
  unfold add
  split
  · next harity => exact holds_of_arity hc harity
  · have hvisited : ((x.patterns.lookup t).foldl (visit receive t (.ofTtl now ttl) now)
        { index := x, state := s }).index.Holds t (.ofTtl now ttl) := by
      intro ref query b hasked hactive hm
      have hlookup := mem_lookup_of_matchAt (consistent_foldl_visit hc _) hasked hm
      rw [patterns_foldl_visit] at hlookup
      exact holdsAt_visited hmeek (w := { index := x, state := s }) hc rfl _ ref hlookup
        query b hasked hactive hm
    dsimp only
    split
    · exact hvisited
    · exact (foldl_unregister_induct (P := fun y => y.Consistent [] ∧ y.Holds t (.ofTtl now ttl))
        (fun y id hy => ⟨consistent_unregister hy.1 id, holds_unregister hy.1 hy.2 id⟩) _
        ⟨consistent_foldl_visit hc _, hvisited⟩).2

end Held

/-! ### Telling the truth -/

/-- Nothing has changed of what an index keeps: the records of the registered queries with their
counters and memories, the filed patterns, what is stored and until when, and the book of
expirations. -/
structure Unaltered (x y : QueryIndex) : Prop where
  registry : y.registry = x.registry
  patterns : y.patterns = x.patterns
  stored : ∀ p, (∃ n, y.joins.held n = some p) ↔ ∃ n, x.joins.held n = some p
  expirations : y.expirations = x.expirations

theorem Unaltered.refl (x : QueryIndex) : x.Unaltered x := ⟨rfl, rfl, fun _ => Iff.rfl, rfl⟩

/-- If nothing has changed, no life has become longer and no query has left. -/
theorem Unaltered.unchanged (hc : x.Consistent []) {s : σ}
    (h : x.Unaltered (x.add receive t ttl now s).index) :
    (x.add receive t ttl now s).changed = false := by
  refine Bool.eq_false_iff.2 fun hchanged => ?_
  obtain ⟨k, query, hasked, hleft | hlonger⟩ := longer_of_changed_add hc hchanged
  · rw [asked?, h.registry] at hleft
    rw [asked?, hleft] at hasked
    cases hasked
  · have hsame := life_congr (k := k) hc.joins (consistent_add hc receive t ttl now s).joins
      fun p _ => h.stored p
    exact hlonger.ne hsame.symm

/-- In every state an addition tells the truth: it says that nothing has changed exactly if
nothing has. Then the index is the same as before, whoever subscribes, and nobody is told
anything. If no subscriber fails or activates queries, then the same tuple, added once more
right after an addition and for no longer, changes nothing. -/
theorem add_truthful {c : Config} (h : Reachable c x) (receive : Subscriber σ) (t : Tuple)
    (ttl now : Nat) (s : σ) :
    ((x.add receive t ttl now s).changed = false ↔
        x.Unaltered (x.add receive t ttl now s).index) ∧
      ((x.add receive t ttl now s).changed = false →
        ∀ {τ : Type} (receive' : Subscriber τ) (s' : τ),
          x.add receive' t ttl now s' = { index := x, state := s' }) ∧
      (receive.Meek → ∀ {τ : Type} (receive' : Subscriber τ) (ttl' now' : Nat) (s' : τ),
        Expiration.ofTtl now' ttl' ≤ .ofTtl now ttl →
          (x.add receive t ttl now s).index.add receive' t ttl' now' s' =
            { index := (x.add receive t ttl now s).index, state := s' }) := by
  have hc := h.consistent
  have hsame : (x.add receive t ttl now s).changed = false →
      ∀ {τ : Type} (receive' : Subscriber τ) (s' : τ),
        x.add receive' t ttl now s' = { index := x, state := s' } :=
    fun hunchanged _ receive' s' => add_held hc (holds_of_unchanged hc hunchanged) receive' s'
  refine ⟨⟨fun hunchanged => ?_, Unaltered.unchanged hc⟩, hsame, ?_⟩
  · rw [hsame hunchanged receive s]
    exact .refl x
  · exact fun hmeek _ receive' ttl' now' s' hle =>
      add_held (consistent_add hc receive t ttl now s) ((holds_add hmeek hc t ttl now s).mono hle)
        receive' s'

/-- A loop matches both patterns of two queries, and one of them has its answer with it and leaves.
The same loop a second later, for a shorter time, changes nothing more. -/
theorem add_truthful_answered :
    let x := ((Watched.new {}).run [(0, .register 1 ⟨twoEdges, {}⟩ 0),
      (0, .register 2 ⟨twoEdges, { ask := true }⟩ 0)]).2.index
    let a := x.add Subscriber.recorder loop 5 0 []
    a.changed = true ∧ a.satisfied = [2] ∧ ¬ x.Unaltered a.index ∧
      a.index.Unaltered (a.index.add Subscriber.recorder loop 2 1000 []).index ∧
      a.index.add Watched.receive loop 2 1000 (∅, []) = { index := a.index, state := (∅, []) } := by
  intro x a
  have hx : Reachable {} x := Watched.reachable_run {} _
  have hmeek : Subscriber.recorder.Meek := ⟨fun _ _ _ => rfl, fun _ _ _ _ => id⟩
  obtain ⟨htruth, -, hagain⟩ := add_truthful hx Subscriber.recorder loop 5 0 []
  obtain ⟨htruth', hsilent', -⟩ :=
    add_truthful (hx.add Subscriber.recorder loop 5 0 []) Subscriber.recorder loop 2 1000 []
  have hchanged : a.changed = true := by decide +kernel
  have hrepeat := hagain hmeek Subscriber.recorder 2 1000 [] (by decide)
  have hunchanged := congrArg Addition.changed hrepeat
  refine ⟨hchanged, by decide +kernel, fun h => ?_, htruth'.1 hunchanged, hsilent' hunchanged _ _⟩
  exact Bool.eq_false_iff.1 (htruth.2 h) hchanged

end QueryIndex

end StandingQuery
