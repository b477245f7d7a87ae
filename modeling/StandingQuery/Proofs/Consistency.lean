import StandingQuery.Proofs.Delivery
import StandingQuery.Proofs.JoinState
import StandingQuery.Proofs.PatternIndex

/-! The parts of a query index agree.

The registry, the pattern index, the stored partial solutions and the book of
expirations say the same about the same queries (`Consistent`): what is stored
belongs to registered queries, what expires is written down at its instant, and each
pattern of each registered query is filed once. Every operation keeps this, whatever
the subscribers do.

An eviction strikes out all that is due before it removes any of it. In between, the
book does not mention what is still to be removed; the list of it is the second
argument of `Consistent`. -/
namespace StandingQuery
open Std

namespace Registry

variable {r : Registry} {id i : QueryId} {q : Registered}

theorem get?_insert (queries : ExtTreeMap QueryId Registered) :
    ({ r with queries := queries.insert i q } : Registry).get? id =
      if i = id then some q else queries[id]? := by
  show (queries.insert i q)[id]? = _
  rw [ExtTreeMap.getElem?_insert]
  simp only [Std.compare_eq_iff_eq]

theorem get?_update : (r.update q).get? id = if q.id = id then some q else r.get? id :=
  get?_insert r.queries

/-- Putting back the record that is there changes nothing. -/
theorem update_self (h : r.get? q.id = some q) : r.update q = r := by
  have hsame : (r.update q).queries = r.queries := by
    refine ExtTreeMap.ext_getElem? fun id => ?_
    have hget : (r.update q).get? id = if q.id = id then some q else r.get? id := get?_update
    refine hget.trans ?_
    split
    · next hid => exact (hid ▸ h).symm
    · rfl
  exact congrArg (fun queries => ({ r with queries } : Registry)) hsame

theorem get?_erase :
    ({ r with queries := r.queries.erase i } : Registry).get? id =
      if i = id then none else r.get? id := by
  show (r.queries.erase i)[id]? = _
  rw [ExtTreeMap.getElem?_erase]
  simp only [Std.compare_eq_iff_eq]
  rfl

theorem contains_eq (r : Registry) (id : QueryId) : r.contains id = (r.get? id).isSome :=
  ExtTreeMap.contains_eq_isSome_getElem?

theorem contains_iff : r.contains id = true ↔ ∃ q, r.get? id = some q := by
  rw [contains_eq, Option.isSome_iff_exists]

theorem mem_ids : id ∈ r.ids ↔ (r.get? id).isSome = true := by
  unfold ids get?
  rw [ExtTreeMap.mem_keys, ExtTreeMap.mem_iff_isSome_getElem?]

/-- Whether a query is admitted depends on whether it is in the table and, if there is a bound, on
how many are. -/
theorem refusal?_congr {r' : Registry} (hbound : r'.maxQueries = r.maxQueries)
    (hid : (r'.get? id).isSome = (r.get? id).isSome) (hsize : r.maxQueries ≠ none → r'.size = r.size) :
    r'.refusal? id = r.refusal? id := by
  unfold refusal?
  rw [contains_eq, contains_eq, hid, hbound]
  cases hmax : r.maxQueries with
  | none => rfl
  | some n => rw [hsize (by rw [hmax]; exact Option.some_ne_none n)]

/-- A query that is admitted is new, and is in the table afterwards. -/
theorem register_eq_ok {r' : Registry} (h : r.register q = .ok r') :
    r.get? q.id = none ∧ r' = { r with queries := r.queries.insert q.id q } := by
  unfold register refusal? at h
  split at h
  · cases h
  · next hnone =>
    cases h
    refine ⟨?_, rfl⟩
    cases hq : r.get? q.id with
    | none => rfl
    | some p =>
      rw [if_pos (contains_iff.2 ⟨p, hq⟩)] at hnone
      cases hnone

end Registry

namespace QueryIndex
open JoinState

variable {x y : QueryIndex} {struck : List Mortal} {id i : QueryId} {q : Registered} {e : Mortal}
variable {n : SolutionId} {p : PartialSolution PatternSet} {now : Nat}

/-- When something ends, according to the registry and the store. -/
def lifetime (x : QueryIndex) : Mortal → Option Nat
  | .query id => (x.registry.get? id).bind (·.expiration.millis?)
  | .solution n => (x.joins.held n).bind (·.expiration.millis?)

theorem lifetime_query (x : QueryIndex) (id : QueryId) :
    x.lifetime (.query id) = (x.registry.get? id).bind (·.expiration.millis?) := rfl

theorem lifetime_solution (x : QueryIndex) (n : SolutionId) :
    x.lifetime (.solution n) = (x.joins.held n).bind (·.expiration.millis?) := rfl

/-- What an index is given when it is made, and keeps. -/
structure Settings where
  arity : Nat
  maxQueries : Option Nat
  strategy : JoinStrategy

def settings (x : QueryIndex) : Settings := ⟨x.arity, x.registry.maxQueries, x.joins.strategy⟩

theorem settings_new (c : Config) :
    (QueryIndex.new c).settings = ⟨c.arity, c.maxQueries, c.joinStrategy⟩ :=
  congrArg (Settings.mk c.arity c.maxQueries) (strategy_new c.joinStrategy)

/-- What a registered query has filed. -/
def filed (x : QueryIndex) (id : QueryId) : List Filing :=
  ((x.registry.get? id).map fun q => filings id q.pattern).getD []

/-- A registered query is what it was accepted as. -/
structure Accepted (x : QueryIndex) (id : QueryId) (q : Registered) : Prop where
  id : q.id = id
  analysed : q.pattern.analyse = .ok q.analysis
  arity : ∀ p ∈ q.pattern, p.arity = x.arity
  memory : q.modifiers.distinctness = .none → q.memory = .none

theorem Accepted.of_arity {x y : QueryIndex} {id : QueryId} {q : Registered}
    (h : x.Accepted id q) (harity : y.arity = x.arity) : y.Accepted id q :=
  ⟨h.id, h.analysed, harity ▸ h.arity, h.memory⟩

/-- The parts of the index agree, but for what has been struck out and is still to be removed. -/
structure Consistent (x : QueryIndex) (struck : List Mortal) : Prop where
  accepted : ∀ id q, x.registry.get? id = some q → x.Accepted id q
  joins : x.joins.Sound
  held : ∀ n p, x.joins.held n = some p →
    ∃ q, x.registry.get? p.query = some q ∧ q.pattern.Fits p.part p.binding
  expirations : x.expirations.Sound
  tracked : ∀ e, x.expirations.find? e = if e ∈ struck then none else x.lifetime e
  patterns : ∃ l, x.patterns.Lists l ∧ ∀ id, l.filter (·.ref.query = id) = x.filed id

theorem consistent_new (c : Config) : Consistent (.new c) [] where
  accepted id q h := by simp [QueryIndex.new, Registry.get?] at h
  joins := sound_new _
  held n p h := by
    rw [QueryIndex.new, held_new] at h
    cases h
  expirations := Expirations.sound_empty
  tracked e := by
    have hempty : (QueryIndex.new c).expirations.find? e = none := by
      simp [QueryIndex.new, Expirations.find?]
    rw [hempty]
    cases e with
    | query id => simp [lifetime, QueryIndex.new, Registry.get?]
    | solution n => simp [lifetime, QueryIndex.new, held_new]
  patterns := ⟨[], PatternIndex.lists_empty, fun id => by
    simp [filed, QueryIndex.new, Registry.get?]⟩

theorem Consistent.tracked_query (h : x.Consistent []) (id : QueryId) :
    x.expirations.find? (.query id) = (x.registry.get? id).bind (·.expiration.millis?) :=
  h.tracked (.query id)

theorem Consistent.trackedBy (h : x.Consistent []) : x.joins.TrackedBy x.expirations :=
  fun n => h.tracked (.solution n)

theorem Consistent.fitting (h : x.Consistent struck) (hq : x.registry.get? id = some q) :
    x.joins.Fitting id q.pattern := by
  intro n p hp hid
  obtain ⟨q', hq', hfits⟩ := h.held n p hp
  rw [hid, hq] at hq'
  cases hq'
  exact hfits

/-- Nothing is stored for a query that is not registered. -/
theorem Consistent.life_eq_bot (h : x.Consistent struck) (hid : x.registry.get? id = none)
    (P : PatternSet) (b : Binding) : x.joins.life ⟨id, P, b⟩ = ⊥ := by
  induction hl : x.joins.life ⟨id, P, b⟩ using WithBot.recBotCoe with
  | bot => rfl
  | coe e =>
    obtain ⟨n, p, hp, hk, -⟩ := (life_eq_coe_iff h.joins).1 hl
    obtain ⟨q, hq, -⟩ := h.held n p hp
    have hquery : p.query = id := congrArg PartialSolution.Key.query hk
    rw [hquery, hid] at hq
    cases hq

/-- What has gone need not be struck out. -/
theorem Consistent.drop (h : x.Consistent (e :: struck)) (he : x.lifetime e = none) :
    x.Consistent struck where
  accepted := h.accepted
  joins := h.joins
  held := h.held
  expirations := h.expirations
  tracked f := by
    rw [h.tracked]
    by_cases hf : f = e
    · rw [hf, if_pos List.mem_cons_self, he, ite_self]
    · simp [hf]
  patterns := h.patterns

/-! ### Registering and renewing -/

theorem filed_of_get? (hq : x.registry.get? id = some q) : x.filed id = filings id q.pattern := by
  rw [filed, hq]
  rfl

theorem filed_of_none (hq : x.registry.get? id = none) : x.filed id = [] := by
  rw [filed, hq]
  rfl

/-- The record of a query that is registered. -/
def entry (x : QueryIndex) (r : Registration) (now : Nat) : Registered :=
  .new r.id r.query r.analysis (.ofTtl now r.ttl) now x.reducedCapacity

/-- What a successful registration comes to. -/
theorem register_eq_ok {r : Registration} (h : x.register r now = .ok y) :
    x.registry.get? r.id = none ∧ y = { x with
      registry := { x.registry with queries := x.registry.queries.insert r.id (x.entry r now) }
      patterns := x.patterns.insertQuery r.id r.query.pattern
      expirations := x.expirations.track (.query r.id) (.ofTtl now r.ttl) } := by
  unfold register at h
  change (x.registry.register (x.entry r now)).bind _ = _ at h
  cases hr : x.registry.register (x.entry r now) with
  | error reason =>
    rw [hr] at h
    cases h
  | ok registry =>
    rw [hr] at h
    obtain ⟨hnone, rfl⟩ := Registry.register_eq_ok hr
    cases h
    exact ⟨hnone, rfl⟩

theorem get?_register {r : Registration} (h : x.register r now = .ok y) (id : QueryId) :
    y.registry.get? id = if r.id = id then some (x.entry r now) else x.registry.get? id := by
  obtain ⟨-, rfl⟩ := register_eq_ok h
  exact Registry.get?_insert x.registry.queries

theorem consistent_register (h : x.Consistent []) {r : Registration}
    (hr : x.register r now = .ok y) (hanalysed : r.query.pattern.analyse = .ok r.analysis)
    (harity : ∀ p ∈ r.query.pattern, p.arity = x.arity) : y.Consistent [] := by
  have hget := get?_register hr
  obtain ⟨hnone, hy⟩ := register_eq_ok hr
  have hjoins : y.joins = x.joins := by rw [hy]
  have harity' : y.arity = x.arity := by rw [hy]
  have hexpirations : y.expirations = x.expirations.track (.query r.id) (.ofTtl now r.ttl) := by
    rw [hy]
  have hpatterns : y.patterns = x.patterns.insertQuery r.id r.query.pattern := by rw [hy]
  constructor
  · intro id q hq
    rw [hget] at hq
    split at hq
    · next hid =>
      cases hq
      refine ⟨hid, hanalysed, harity' ▸ harity, fun hd => ?_⟩
      show Memory.ofDistinctness r.query.modifiers.distinctness _ = _
      rw [show r.query.modifiers.distinctness = .none from hd]
      rfl
    · exact (h.accepted id q hq).of_arity harity'
  · rw [hjoins]
    exact h.joins
  · intro n p hp
    rw [hjoins] at hp
    obtain ⟨q, hq, hfits⟩ := h.held n p hp
    refine ⟨q, ?_, hfits⟩
    rw [hget, if_neg, hq]
    intro hid
    rw [← hid, hnone] at hq
    cases hq
  · rw [hexpirations]
    exact Expirations.sound_track h.expirations _ _
  · intro e
    have hold := h.tracked e
    rw [if_neg List.not_mem_nil] at hold ⊢
    rw [hexpirations, Expirations.find?_track, hold]
    cases e with
    | solution n =>
      rw [if_neg (by simp), lifetime_solution, lifetime_solution, hjoins]
    | query id =>
      rw [lifetime_query, lifetime_query, hget]
      by_cases hid : r.id = id
      · rw [if_pos (congrArg _ hid), if_pos hid]
        rfl
      · rw [if_neg fun he => hid (Mortal.query.inj he), if_neg hid]
  · obtain ⟨l, hl, hfiled⟩ := h.patterns
    rw [hpatterns]
    refine ⟨_, PatternIndex.lists_insertQuery hl r.id r.query.pattern, fun id => ?_⟩
    rw [List.filter_append, hfiled]
    by_cases hid : r.id = id
    · subst hid
      rw [filed_of_none hnone, filed_of_get? ((hget r.id).trans (if_pos rfl))]
      exact List.filter_eq_self.2 fun f hf => decide_eq_true (mem_filings.1 hf).1
    · have hothers : (filings r.id r.query.pattern).filter (·.ref.query = id) = [] :=
        List.filter_eq_nil_iff.2 fun f hf he =>
          hid ((mem_filings.1 hf).1.symm.trans (of_decide_eq_true he))
      rw [hothers, List.append_nil, filed, filed, hget, if_neg hid]

/-- What giving a query a new lifetime comes to. -/
theorem renew_cases (x : QueryIndex) (id : QueryId) (ttl now : Nat) :
    (x.renew id ttl now).2 = x ∨ ∃ q, x.registry.get? id = some q ∧ id ∈ x.active ∧
      (x.renew id ttl now).2 = { x with
        registry := x.registry.update { q with expiration := .ofTtl now ttl }
        expirations := x.expirations.track (.query id) (.ofTtl now ttl) } := by
  unfold renew
  cases hq : x.registry.get? id with
  | none => exact .inl rfl
  | some q =>
    dsimp only
    split
    · exact .inl rfl
    · next hactive =>
      refine .inr ⟨q, rfl, ?_, rfl⟩
      rw [ExtTreeSet.mem_iff_contains]
      simpa using hactive

theorem get?_renew (h : x.Consistent struck) (i : QueryId) (ttl now : Nat) (id : QueryId) :
    (x.renew i ttl now).2.registry.get? id = if i = id ∧ i ∈ x.active
      then (x.registry.get? id).map fun q => { q with expiration := .ofTtl now ttl }
      else x.registry.get? id := by
  cases hq : x.registry.get? i with
  | none =>
    have hsame : (x.renew i ttl now).2 = x := by
      unfold renew
      rw [hq]
    rw [hsame]
    split
    · next hi => rw [← hi.1, hq, Option.map_none]
    · rfl
  | some q =>
    by_cases hactive : i ∈ x.active
    · have hcontains : x.active.contains i = true := ExtTreeSet.mem_iff_contains.1 hactive
      have hrenewed : (x.renew i ttl now).2.registry =
          x.registry.update { q with expiration := .ofTtl now ttl } := by
        unfold renew
        simp only [hq, hcontains, Bool.not_true, Bool.false_eq_true, if_false]
      obtain rfl : q.id = i := (h.accepted i q hq).id
      rw [hrenewed, Registry.get?_update]
      dsimp only
      by_cases hi : q.id = id
      · subst hi
        rw [if_pos rfl, if_pos ⟨rfl, hactive⟩, hq, Option.map_some]
      · rw [if_neg hi, if_neg fun h => hi h.1]
    · have hsame : (x.renew i ttl now).2 = x := by
        unfold renew
        simp only [hq, contains_eq_false hactive, Bool.not_false, if_true]
      rw [hsame, if_neg fun h => hactive h.2]

/-- A new lifetime changes neither what is active nor what is stored. -/
theorem renew_frame (x : QueryIndex) (id : QueryId) (ttl now : Nat) :
    (x.renew id ttl now).2.active = x.active ∧ (x.renew id ttl now).2.joins = x.joins := by
  rcases renew_cases x id ttl now with hsame | ⟨q, -, -, hrenewed⟩
  · rw [hsame]
    exact ⟨rfl, rfl⟩
  · rw [hrenewed]
    exact ⟨rfl, rfl⟩

/-- A record that may take the place of another: it is of the same query. -/
structure Succeeds (r q : Registered) : Prop where
  id : r.id = q.id
  pattern : r.pattern = q.pattern
  modifiers : r.modifiers = q.modifiers
  analysis : r.analysis = q.analysis
  memory : q.memory = .none → r.memory = .none

section Update

variable {r : Registered}

theorem get?_update_succeeds (hr : Succeeds r q) (i : QueryId) :
    (x.registry.update r).get? i = if q.id = i then some r else x.registry.get? i := by
  rw [Registry.get?_update, hr.id]

theorem accepted_update (h : x.Consistent struck) (hq : x.registry.get? q.id = some q)
    (hr : Succeeds r q) {r' : Registered} (hr' : (x.registry.update r).get? i = some r') :
    x.Accepted i r' := by
  rw [get?_update_succeeds hr] at hr'
  split at hr'
  · next hi =>
    cases hr'
    have hold := h.accepted q.id q hq
    refine ⟨hr.id.trans hi, ?_, ?_, fun hd => hr.memory (hold.memory (hr.modifiers ▸ hd))⟩
    · rw [hr.pattern, hr.analysis]
      exact hold.analysed
    · rw [hr.pattern]
      exact hold.arity
  · exact h.accepted i r' hr'

/-- The patterns of the registered queries are the same as before. -/
theorem pattern_update (hq : x.registry.get? q.id = some q) (hr : Succeeds r q) (i : QueryId) :
    ((x.registry.update r).get? i).map Registered.pattern =
      (x.registry.get? i).map Registered.pattern := by
  rw [get?_update_succeeds hr]
  split
  · next hi => rw [← hi, hq, Option.map_some, Option.map_some, hr.pattern]
  · rfl

end Update

theorem filed_of_pattern (h : ∀ i, (y.registry.get? i).map Registered.pattern =
    (x.registry.get? i).map Registered.pattern) (i : QueryId) : y.filed i = x.filed i := by
  have hmap : ∀ z : QueryIndex, z.filed i =
      (((z.registry.get? i).map Registered.pattern).map (filings i)).getD [] := fun z => by
    rw [filed, Option.map_map]
    rfl
  rw [hmap, hmap, h]

theorem held_of_pattern (h : ∀ i, (y.registry.get? i).map Registered.pattern =
    (x.registry.get? i).map Registered.pattern)
    (hp : ∃ q, x.registry.get? p.query = some q ∧ q.pattern.Fits p.part p.binding) :
    ∃ q, y.registry.get? p.query = some q ∧ q.pattern.Fits p.part p.binding := by
  obtain ⟨q, hq, hfits⟩ := hp
  have hsame := h p.query
  rw [hq, Option.map_some] at hsame
  obtain ⟨r, hr, hpattern⟩ := Option.map_eq_some_iff.1 hsame
  exact ⟨r, hr, hpattern ▸ hfits⟩

theorem consistent_renew (h : x.Consistent []) (id : QueryId) (ttl now : Nat) :
    (x.renew id ttl now).2.Consistent [] := by
  rcases renew_cases x id ttl now with hsame | ⟨q, hq, -, hrenewed⟩
  · rw [hsame]
    exact h
  · rw [hrenewed]
    obtain rfl : q.id = id := (h.accepted id q hq).id
    have hr : Succeeds { q with expiration := .ofTtl now ttl } q := ⟨rfl, rfl, rfl, rfl, fun h => h⟩
    constructor
    · exact fun i r hr' => (accepted_update h hq hr hr').of_arity rfl
    · exact h.joins
    · exact fun n p hp => held_of_pattern (pattern_update hq hr) (h.held n p hp)
    · exact Expirations.sound_track h.expirations _ _
    · intro e
      have htracked := h.tracked e
      rw [if_neg List.not_mem_nil] at htracked ⊢
      dsimp only
      rw [Expirations.find?_track, htracked]
      cases e with
      | solution n => rfl
      | query i =>
        rw [lifetime_query, lifetime_query]
        dsimp only
        rw [get?_update_succeeds hr]
        by_cases hi : q.id = i
        · rw [if_pos (congrArg _ hi), if_pos hi]
          rfl
        · rw [if_neg fun he => hi (Mortal.query.inj he), if_neg hi]
    · obtain ⟨l, hl, hfiled⟩ := h.patterns
      exact ⟨l, hl, fun i => (hfiled i).trans (filed_of_pattern (pattern_update hq hr) i).symm⟩

/-! ### Unregistering -/

/-- What taking out a registered query comes to. -/
theorem unregister_eq (hq : x.registry.get? id = some q) : (x.unregister id).2 = { x with
    registry := { x.registry with queries := x.registry.queries.erase id }
    joins := (x.joins.removeQuery id).2
    active := x.active.erase id
    patterns := x.patterns.removeQuery id q.pattern
    expirations := ((x.joins.removeQuery id).1.foldl (fun e s => e.untrack (.solution s))
      x.expirations).untrack (.query id) } := by
  unfold unregister Registry.unregister
  rw [hq]

theorem unregister_none (hq : x.registry.get? id = none) : x.unregister id = (false, x) := by
  unfold unregister Registry.unregister
  rw [hq]

theorem unregister_found (x : QueryIndex) (id : QueryId) :
    (x.unregister id).1 = (x.registry.get? id).isSome := by
  unfold unregister Registry.unregister
  cases x.registry.get? id <;> rfl

theorem get?_unregister (x : QueryIndex) (id i : QueryId) :
    (x.unregister id).2.registry.get? i = if id = i then none else x.registry.get? i := by
  cases hq : x.registry.get? id with
  | none =>
    rw [unregister_none hq]
    split
    · next hi => rw [← hi, hq]
    · rfl
  | some q =>
    rw [unregister_eq hq]
    exact Registry.get?_erase

/-- What was stored for the query has gone, and nothing else. -/
theorem held_unregister (h : x.Consistent struck) (id : QueryId) :
    (x.unregister id).2.joins.held n = some p ↔ x.joins.held n = some p ∧ p.query ≠ id := by
  cases hq : x.registry.get? id with
  | none =>
    rw [unregister_none hq, iff_self_and]
    intro hp hid
    obtain ⟨q, hq', -⟩ := h.held n p hp
    rw [hid, hq] at hq'
    cases hq'
  | some q =>
    rw [unregister_eq hq]
    exact held_removeQuery h.joins

theorem mem_active_unregister (hi : i ≠ id) : i ∈ (x.unregister id).2.active ↔ i ∈ x.active := by
  cases hq : x.registry.get? id with
  | none => rw [unregister_none hq]
  | some q =>
    rw [unregister_eq hq]
    dsimp only
    rw [ExtTreeSet.mem_erase, ne_eq, Std.compare_eq_iff_eq]
    exact and_iff_right fun e => hi e.symm

theorem settings_unregister (x : QueryIndex) (id : QueryId) :
    (x.unregister id).2.settings = x.settings := by
  cases hq : x.registry.get? id with
  | none => rw [unregister_none hq]
  | some q =>
    rw [unregister_eq hq]
    exact congrArg (Settings.mk x.arity x.registry.maxQueries) strategy_removeQuery

theorem held_unregister_eq (h : x.Consistent struck) (id : QueryId) (n : SolutionId) :
    (x.unregister id).2.joins.held n = (x.joins.held n).filter fun p => p.query ≠ id := by
  refine Option.ext fun p => (held_unregister h id).trans ?_
  rw [Option.filter_eq_some_iff, decide_eq_true_eq]

/-- What has gone with the query does not end any more. -/
theorem lifetime_unregister (h : x.Consistent struck) (id : QueryId) (e : Mortal) :
    (x.unregister id).2.lifetime e =
      if e = .query id ∨ e ∈ (x.joins.removeQuery id).1.map Mortal.solution then none
      else x.lifetime e := by
  cases e with
  | query i =>
    rw [lifetime_query, lifetime_query, get?_unregister]
    by_cases hi : id = i
    · rw [if_pos hi, if_pos (.inl (congrArg _ hi.symm)), Option.bind_none]
    · rw [if_neg hi, if_neg (by simp [Ne.symm hi])]
  | solution n =>
    have hmem : Mortal.solution n ∈ (x.joins.removeQuery id).1.map Mortal.solution ↔
        ∃ p, x.joins.held n = some p ∧ p.query = id := by
      rw [List.mem_map_of_injective fun a b => Mortal.solution.inj, mem_removeQuery h.joins]
    rw [lifetime_solution, lifetime_solution, held_unregister_eq h]
    cases hp : x.joins.held n with
    | none => rw [Option.filter_none, Option.bind_none, ite_self]
    | some p =>
      by_cases hid : p.query = id
      · rw [if_pos (.inr (hmem.2 ⟨p, hp, hid⟩)), Option.filter_some, if_neg (by simp [hid]),
          Option.bind_none]
      · have hout : ¬ (Mortal.solution n = .query id ∨
            Mortal.solution n ∈ (x.joins.removeQuery id).1.map Mortal.solution) := by
          rw [hmem, hp]
          intro hmine
          rcases hmine with he | ⟨p', hp', hid'⟩
          · cases he
          · cases hp'
            exact hid hid'
        rw [if_neg hout, Option.filter_some, if_pos (by simp [hid])]

/-- What the query has filed is taken out of the pattern index. -/
theorem patterns_unregister (h : x.Consistent struck) (hq : x.registry.get? id = some q) :
    ∃ l, (x.unregister id).2.patterns.Lists l ∧
      ∀ i, l.filter (·.ref.query = i) = (x.unregister id).2.filed i := by
  obtain ⟨l, hl, hfiled⟩ := h.patterns
  have hget := get?_unregister x id
  generalize hy : (x.unregister id).2 = y at hget
  have hpatterns : y.patterns = x.patterns.removeQuery id q.pattern := by
    rw [← hy, unregister_eq hq]
  rw [hpatterns]
  refine ⟨_, PatternIndex.lists_removeQuery hl id q.pattern, fun i => ?_⟩
  rw [List.filter_filter]
  by_cases hi : id = i
  · subst hi
    rw [filed_of_none ((hget id).trans (if_pos rfl)), List.filter_eq_nil_iff]
    intro f hf hkept
    simp only [Bool.and_eq_true, decide_eq_true_eq] at hkept
    have hmine : f ∈ x.filed id := hfiled id ▸ List.mem_filter.2 ⟨hf, decide_eq_true hkept.1⟩
    rw [filed_of_get? hq, mem_filings] at hmine
    obtain ⟨-, p, hp, hs⟩ := hmine
    exact hkept.2 ⟨hkept.1, hs ▸ List.mem_map_of_mem (List.mem_of_getElem? hp)⟩
  · rw [filed, hget, if_neg hi]
    refine (List.filter_congr fun f _ => ?_).trans (hfiled i)
    by_cases hf : f.ref.query = i
    · simp [hf, Ne.symm hi]
    · simp [hf]

theorem consistent_unregister (h : x.Consistent struck) (id : QueryId) :
    (x.unregister id).2.Consistent struck := by
  cases hq : x.registry.get? id with
  | none =>
    rw [unregister_none hq]
    exact h
  | some q =>
    have hexpirations : (x.unregister id).2.expirations =
        (((x.joins.removeQuery id).1.map Mortal.solution).foldl (fun e s => e.untrack s)
          x.expirations).untrack (.query id) := by rw [unregister_eq hq, List.foldl_map]
    constructor
    · intro i r hr
      have harity : (x.unregister id).2.arity = x.arity :=
        congrArg Settings.arity (settings_unregister x id)
      rw [get?_unregister] at hr
      split at hr
      · cases hr
      · exact (h.accepted i r hr).of_arity harity
    · rw [unregister_eq hq]
      exact sound_removeQuery h.joins id
    · intro n p hp
      obtain ⟨hp, hne⟩ := (held_unregister h id).1 hp
      obtain ⟨r, hr, hfits⟩ := h.held n p hp
      exact ⟨r, by rw [get?_unregister, if_neg (Ne.symm hne), hr], hfits⟩
    · rw [hexpirations]
      exact Expirations.sound_untrack (Expirations.sound_foldl_untrack h.expirations _) _
    · intro e
      rw [hexpirations, Expirations.find?_untrack, Expirations.find?_foldl_untrack, h.tracked,
        lifetime_unregister h]
      by_cases hid : e = .query id
      · simp [hid]
      · simp only [hid, Ne.symm hid, false_or, if_false]
        split
        · rw [ite_self]
        · rfl
    · exact patterns_unregister h hq

/-! ### Evicting -/

theorem evict_query (s : EvictionReport × QueryIndex) (id : QueryId) :
    (evict s (.query id)).2 = (s.2.unregister id).2 := rfl

theorem evict_solution (s : EvictionReport × QueryIndex) (n : SolutionId) :
    (evict s (.solution n)).2 = { s.2 with joins := (s.2.joins.remove n).2 } := rfl

theorem report_evict_query (s : EvictionReport × QueryIndex) (id : QueryId) :
    (evict s (.query id)).1 = if (s.2.registry.get? id).isSome
      then { s.1 with queries := s.1.queries + 1 } else s.1 := by
  rw [← unregister_found]
  rfl

theorem report_evict_solution (s : EvictionReport × QueryIndex) (n : SolutionId) :
    (evict s (.solution n)).1 = if (s.2.joins.held n).isSome
      then { s.1 with solutions := s.1.solutions + 1 } else s.1 := by
  rw [← remove_found]
  rfl

/-- Removing one thing that has been struck out. -/
theorem consistent_evict {s : EvictionReport × QueryIndex} (h : s.2.Consistent (e :: struck)) :
    (evict s e).2.Consistent struck := by
  cases e with
  | query id =>
    rw [evict_query]
    refine (consistent_unregister h id).drop ?_
    rw [lifetime_query, get?_unregister, if_pos rfl]
    rfl
  | solution n =>
    rw [evict_solution]
    refine Consistent.drop (e := .solution n) ?_ ?_
    · constructor
      · intro id q hq
        exact (h.accepted id q hq).of_arity rfl
      · exact sound_remove h.joins n
      · intro m p hp
        dsimp only at hp
        rw [held_remove] at hp
        split at hp
        · cases hp
        · exact h.held m p hp
      · exact h.expirations
      · intro f
        refine (h.tracked f).trans ?_
        cases f with
        | query id => rfl
        | solution m =>
          rw [lifetime_solution, lifetime_solution]
          dsimp only
          rw [held_remove]
          by_cases hm : n = m
          · subst hm
            rw [if_pos List.mem_cons_self, if_pos List.mem_cons_self]
          · rw [if_neg hm]
      · exact h.patterns
    · rw [lifetime_solution]
      dsimp only
      rw [held_remove, if_pos rfl]
      rfl

theorem consistent_foldl_evict (due : List Mortal) {s : EvictionReport × QueryIndex}
    (h : s.2.Consistent due) : (due.foldl evict s).2.Consistent [] := by
  induction due generalizing s with
  | nil => exact h
  | cons e due ih => exact ih (consistent_evict h)

theorem consistent_clear (x : QueryIndex) : x.clear.Consistent [] where
  accepted id q hq := by simp [clear, Registry.get?, Registry.clear] at hq
  joins := sound_clear
  held n p hp := by
    rw [clear, held_clear] at hp
    cases hp
  expirations := Expirations.sound_empty
  tracked e := by
    have hempty : x.clear.expirations.find? e = none := by simp [clear, Expirations.find?]
    rw [hempty]
    cases e with
    | query id => simp [lifetime, clear, Registry.get?, Registry.clear]
    | solution n => simp [lifetime, clear, held_clear]
  patterns := ⟨[], PatternIndex.lists_empty, fun id => by
    simp [filed, clear, Registry.get?, Registry.clear]⟩

/-! ### Adding -/

section Adding

variable {σ : Type} {receive : Subscriber σ} {t : Tuple} {expiration : Expiration}
variable {w : Addition σ} {ref : PatternRef} {b : Binding}

/-- A visit does something only when it finds a match for an active query. -/
theorem visit_cases (receive : Subscriber σ) (t : Tuple) (expiration : Expiration) (now : Nat)
    (w : Addition σ) (ref : PatternRef) :
    visit receive t expiration now w ref = w ∨
      ∃ q b, w.failed = false ∧ w.index.registry.get? ref.query = some q ∧
        ref.query ∈ w.index.active ∧ q.pattern[ref.pattern]?.bind (·.match? t) = some b := by
  unfold visit
  split
  · exact .inl rfl
  · next hfailed =>
    split
    · exact .inl rfl
    · next q hq =>
      split
      · exact .inl rfl
      · next hactive =>
        split
        · exact .inl rfl
        · next b hb =>
          refine .inr ⟨q, b, by simpa using hfailed, hq, ?_, hb⟩
          rw [ExtTreeSet.mem_iff_contains]
          simpa using hactive

/-- A visit of a query that is not registered or not active does nothing. -/
theorem visit_idle (h : w.index.registry.get? ref.query = none ∨ ref.query ∉ w.index.active) :
    visit receive t expiration now w ref = w := by
  rcases visit_cases receive t expiration now w ref with hsame | ⟨q, b, -, hq, hactive, -⟩
  · exact hsame
  · rcases h with h | h
    · rw [hq] at h
      cases h
    · exact absurd hactive h

theorem visit_no_match (hq : w.index.registry.get? ref.query = some q)
    (hb : q.pattern[ref.pattern]?.bind (·.match? t) = none) :
    visit receive t expiration now w ref = w := by
  unfold visit
  split
  · rfl
  · simp only [hq, hb]
    split <;> rfl

/-- What the visit of a match comes to. -/
theorem visit_match (hfailed : w.failed = false) (hq : w.index.registry.get? ref.query = some q)
    (hactive : ref.query ∈ w.index.active)
    (hb : q.pattern[ref.pattern]?.bind (·.match? t) = some b) :
    visit receive t expiration now w ref =
      let a := w.index.joins.advance w.index.expirations q ref.pattern ⟨b, expiration⟩ now
      let d := q.deliver receive now w.index.active w.state a.candidates
      { index := { w.index with
          registry := w.index.registry.update d.query
          active := d.active
          joins := a.joins
          expirations := a.expirations }
        state := d.state
        changed := w.changed || a.changed
        satisfied := if d.satisfied then w.satisfied ++ [d.query.id] else w.satisfied
        failed := d.failed } := by
  have hcontains : w.index.active.contains ref.query = true := ExtTreeSet.mem_iff_contains.1 hactive
  unfold visit
  simp only [hfailed, hq, hcontains, hb, Bool.false_eq_true, if_false, Bool.not_true]

theorem patterns_visit (receive : Subscriber σ) (t : Tuple) (expiration : Expiration) (now : Nat)
    (w : Addition σ) (ref : PatternRef) :
    (visit receive t expiration now w ref).index.patterns = w.index.patterns := by
  rcases visit_cases receive t expiration now w ref with hsame | ⟨q, b, hfailed, hq, hactive, hb⟩
  · rw [hsame]
  · rw [visit_match hfailed hq hactive hb]

/-- A match of a registered query, as the join state takes it in. -/
theorem Consistent.takes (h : x.Consistent []) (hq : x.registry.get? id = some q) {i : Nat}
    (hb : q.pattern[i]?.bind (·.match? t) = some b) (expiration : Expiration)
    [expiration.Timely] : Takes x.joins x.expirations q i ⟨b, expiration⟩ := by
  obtain ⟨p, hp, hm⟩ := Option.bind_eq_some_iff.1 hb
  have hid := (h.accepted id q hq).id
  exact {
    sound := h.joins
    fitting := hid ▸ h.fitting hq
    tracked := h.trackedBy
    expirations := h.expirations
    analysed := (h.accepted id q hq).analysed
    fits := GraphPattern.fits_of_match? hp hm
    timely := ‹_› }

theorem consistent_taken (h : x.Consistent []) (hq : x.registry.get? q.id = some q)
    {a : Advance} (ha : Taken x.joins x.expirations q a) :
    Consistent { x with joins := a.joins, expirations := a.expirations } [] where
  accepted id r hr := (h.accepted id r hr).of_arity rfl
  joins := ha.sound
  held n p hp := by
    by_cases hid : p.query = q.id
    · exact ⟨q, hid ▸ hq, ha.fitting n p hp hid⟩
    · obtain ⟨m, hm⟩ : ∃ m, x.joins.held m = some p := by
        rw [exists_held_iff h.joins, ← ha.others p.key hid]
        exact (exists_held_iff ha.sound).1 ⟨n, hp⟩
      exact h.held m p hm
  expirations := ha.expirations
  tracked e := by
    rw [if_neg List.not_mem_nil]
    cases e with
    | query id => exact (ha.queries id).trans (h.tracked_query id)
    | solution n => exact ha.tracked n
  patterns := h.patterns

/-- Counters and memories may change. -/
theorem consistent_update (h : x.Consistent []) (hq : x.registry.get? q.id = some q)
    {r : Registered} (hr : r.settled = q.settled) (hmemory : q.memory = .none → r.memory = .none)
    (active : Active) :
    Consistent { x with registry := x.registry.update r, active } [] := by
  have hsame : Succeeds r q := ⟨Registered.id_of_settled hr, Registered.pattern_of_settled hr,
    Registered.modifiers_of_settled hr, Registered.analysis_of_settled hr, hmemory⟩
  constructor
  · exact fun i r' hr' => (accepted_update h hq hsame hr').of_arity rfl
  · exact h.joins
  · exact fun n p hp => held_of_pattern (pattern_update hq hsame) (h.held n p hp)
  · exact h.expirations
  · intro e
    refine (h.tracked e).trans ?_
    cases e with
    | solution n => rfl
    | query i =>
      rw [lifetime_query, lifetime_query]
      dsimp only
      rw [get?_update_succeeds hsame]
      by_cases hi : q.id = i
      · rw [if_pos hi, ← hi, hq, Option.bind_some, Option.bind_some,
          Registered.expiration_of_settled hr]
      · rw [if_neg hi]
  · obtain ⟨l, hl, hfiled⟩ := h.patterns
    exact ⟨l, hl, fun i => (hfiled i).trans (filed_of_pattern (pattern_update hq hsame) i).symm⟩

theorem consistent_visit (h : w.index.Consistent []) (receive : Subscriber σ) (t : Tuple)
    (expiration : Expiration) [expiration.Timely] (now : Nat) (ref : PatternRef) :
    (visit receive t expiration now w ref).index.Consistent [] := by
  rcases visit_cases receive t expiration now w ref with hsame | ⟨q, b, hfailed, hq, hactive, hb⟩
  · rw [hsame]
    exact h
  · have hid := (h.accepted _ q hq).id
    have htaken := taken_advance (h.takes hq hb expiration) now
    rw [visit_match hfailed hq hactive hb]
    exact consistent_update (consistent_taken h (hid ▸ hq) htaken) (hid ▸ hq)
      (Registered.settled_deliver q _ _ _) (Registered.memory_deliver q _ _ _) _

/-- What taking out a query keeps, taking out several does. -/
theorem foldl_unregister_induct {P : QueryIndex → Prop} (h : ∀ y i, P y → P (y.unregister i).2)
    (ids : List QueryId) (hx : P x) : P (ids.foldl (fun y i => (y.unregister i).2) x) := by
  induction ids generalizing x with
  | nil => exact hx
  | cons i ids ih => exact ih (h x i hx)

/-- What holds of a consistent index, and is kept by visits and by taking out queries, is kept by
additions. -/
theorem add_induct {P : QueryIndex → Prop} {receive : Subscriber σ} {ttl : Nat}
    (hvisit : ∀ (w : Addition σ) ref, w.index.Consistent [] → P w.index →
      P (visit receive t (.ofTtl now ttl) now w ref).index)
    (hunregister : ∀ y i, P y → P (y.unregister i).2) (hc : x.Consistent []) (hx : P x) (state : σ) :
    P (x.add receive t ttl now state).index := by
  have hvisited : ∀ (refs : List PatternRef) (w : Addition σ), w.index.Consistent [] → P w.index →
      P (refs.foldl (visit receive t (.ofTtl now ttl) now) w).index := by
    intro refs
    induction refs with
    | nil => exact fun _ _ h => h
    | cons ref refs ih =>
      exact fun w hw h => ih _ (consistent_visit hw receive _ _ _ ref) (hvisit w ref hw h)
  unfold add
  split
  · exact hx
  · dsimp only
    split
    · exact hvisited _ _ hc hx
    · exact foldl_unregister_induct hunregister _ (hvisited _ _ hc hx)

theorem consistent_add (h : x.Consistent []) (receive : Subscriber σ) (t : Tuple) (ttl now : Nat)
    (state : σ) : (x.add receive t ttl now state).index.Consistent [] :=
  add_induct (P := fun y => y.Consistent []) (fun _ ref hw _ => consistent_visit hw receive t _ now ref)
    (fun _ i hy => consistent_unregister hy i) h h state

end Adding

end QueryIndex

end StandingQuery
