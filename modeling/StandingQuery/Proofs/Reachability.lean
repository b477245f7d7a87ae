import StandingQuery.Proofs.History

/-! The states an index can come to.

An index is `Reachable` when operations lead to it from the empty one, in any order and
at any instants, whatever the subscribers do, fail included, and whoever else changes
which queries are active in between. In all of these states the parts agree: the book of
expirations, the registry, what is stored and the filed patterns (`parts_agree`). -/
namespace StandingQuery
open Std

namespace PatternIndex

variable {x : PatternIndex} {l : List Filing} {s : Signature} {ref : PatternRef}

theorem mem_find (h : x.Lists l) : ref ∈ x.find s ↔ ∃ f ∈ l, f.ref = ref ∧ f.signature = s := by
  rw [h.entries, List.mem_map]
  simp only [List.mem_filter, decide_eq_true_eq]
  exact exists_congr fun f => ⟨fun ⟨⟨hf, hs⟩, hr⟩ => ⟨hf, hr, hs⟩, fun ⟨hf, hr, hs⟩ => ⟨⟨hf, hs⟩, hr⟩⟩

/-- What is filed under a signature is not filed twice, provided that each query has filed its
patterns once. -/
theorem nodup_find (h : x.Lists l)
    (hmine : ∀ query, ((l.filter (·.ref.query = query)).map Filing.ref).Nodup) (s : Signature) :
    (x.find s).Nodup := by
  refine List.nodup_iff_count_le_one.2 fun ref => ?_
  have hsub : ((x.find s).filter (·.query = ref.query)).Sublist
      ((l.filter (·.ref.query = ref.query)).map Filing.ref) := by
    rw [h.entries, List.filter_map, List.filter_filter]
    refine List.Sublist.map _ ?_
    rw [← List.filter_filter]
    exact List.filter_sublist.filter _
  rw [← List.count_filter (p := fun r => r.query = ref.query) (by simp)]
  exact List.nodup_iff_count_le_one.1 ((hmine ref.query).sublist hsub) ref

end PatternIndex

namespace QueryIndex
open JoinState Watched

/-- The index after an attempt to register a query: a refused one leaves it as it is. -/
def attempt (x : QueryIndex) (r : Registration) (now : Nat) : QueryIndex :=
  match x.register r now with
  | .ok y => y
  | .error _ => x

/-- The states that operations lead to. The queries that are registered are valid; everything
else is open. -/
inductive Reachable (c : Config) : QueryIndex → Prop where
  | new : Reachable c (.new c)
  | register {x : QueryIndex} {query : Query} {analysis : Analysis} : Reachable c x →
      query.validate x.arity = .ok analysis → (id : QueryId) → (ttl now : Nat) →
      Reachable c (x.attempt ⟨id, query, analysis, ttl⟩ now)
  | unregister {x : QueryIndex} : Reachable c x → (id : QueryId) → Reachable c (x.unregister id).2
  | renew {x : QueryIndex} : Reachable c x → (id : QueryId) → (ttl now : Nat) →
      Reachable c (x.renew id ttl now).2
  | add {x : QueryIndex} {σ : Type} : Reachable c x → (receive : Subscriber σ) → (t : Tuple) →
      (ttl now : Nat) → (state : σ) → Reachable c (x.add receive t ttl now state).index
  | removeExpired {x : QueryIndex} : Reachable c x → (now : Nat) →
      Reachable c (x.removeExpired now).2
  | clear {x : QueryIndex} : Reachable c x → Reachable c x.clear
  /-- Which queries are active may be changed from outside. -/
  | react {x : QueryIndex} : Reachable c x → (active : Active) → Reachable c { x with active }

variable {c : Config} {x : QueryIndex}

theorem Reachable.consistent (h : Reachable c x) : x.Consistent [] := by
  induction h with
  | new => exact consistent_new c
  | @register x query analysis _ hv id ttl now ih =>
    unfold attempt
    split
    · next y hr =>
      obtain ⟨hanalysed, harity⟩ := Query.validate_eq_ok hv
      exact consistent_register ih hr hanalysed harity
    · exact ih
  | unregister _ id ih => exact consistent_unregister ih id
  | renew _ id ttl now ih => exact consistent_renew ih id ttl now
  | add _ receive t ttl now state ih => exact consistent_add ih receive t ttl now state
  | removeExpired _ now ih => exact consistent_removeExpired ih now
  | clear _ _ => exact consistent_clear _
  | react _ active ih => exact ih.reactive active

/-- In every state the book of expirations says of each query and of everything stored when it
ends, and mentions nothing else; everything stored belongs to a registered query; and the
patterns of the registered queries are filed once each, under their signatures. -/
theorem parts_agree (h : Reachable c x) :
    (∀ id t, x.expirations.find? (.query id) = some t ↔
        ∃ q, x.registry.get? id = some q ∧ q.expiration = .instant t) ∧
      (∀ n t, x.expirations.find? (.solution n) = some t ↔
        ∃ p, x.joins.held n = some p ∧ p.expiration = .instant t) ∧
      (∀ t e, e ∈ x.expirations.byTime.find t ↔ x.expirations.find? e = some t) ∧
      (∀ n p, x.joins.held n = some p → ∃ q, x.registry.get? p.query = some q) ∧
      ∀ s, (x.patterns.find s).Nodup ∧ x.patterns.entries[s]? ≠ some [] ∧
        ∀ id i, ⟨id, i⟩ ∈ x.patterns.find s ↔ ∃ q p, x.registry.get? id = some q ∧
          q.pattern[i]? = some p ∧ Signature.ofPattern p = s := by
  have hc := h.consistent
  have hends : ∀ (e : Expiration) (t : Nat), e.millis? = some t ↔ e = .instant t := by
    intro e t
    cases e <;> simp [Expiration.millis?]
  refine ⟨fun id t => ?_, fun n t => ?_, hc.expirations.agree, fun n p hp => ?_, fun s => ?_⟩
  · rw [hc.tracked_query, Option.bind_eq_some_iff]
    simp only [hends]
  · rw [hc.trackedBy, Option.bind_eq_some_iff]
    simp only [hends]
  · obtain ⟨q, hq, -⟩ := hc.held n p hp
    exact ⟨q, hq⟩
  · obtain ⟨l, hl, hfiled⟩ := hc.patterns
    refine ⟨PatternIndex.nodup_find hl (fun query => ?_) s, fun hnil => hl.tidyEntries s _ hnil rfl,
      fun id i => ?_⟩
    · rw [hfiled]
      cases hq : x.registry.get? query with
      | none =>
        rw [filed_of_none hq]
        exact .nil
      | some q =>
        rw [filed_of_get? hq]
        exact nodup_filings query q.pattern
    · have hmine : (∃ f ∈ l, f.ref = ⟨id, i⟩ ∧ f.signature = s) ↔
          ∃ f ∈ x.filed id, f.ref = ⟨id, i⟩ ∧ f.signature = s := by
        rw [← hfiled]
        constructor
        · rintro ⟨f, hf, hr, hs⟩
          exact ⟨f, List.mem_filter.2 ⟨hf, decide_eq_true (congrArg PatternRef.query hr)⟩, hr, hs⟩
        · rintro ⟨f, hf, hr, hs⟩
          exact ⟨f, (List.mem_filter.1 hf).1, hr, hs⟩
      rw [PatternIndex.mem_find hl, hmine]
      cases hq : x.registry.get? id with
      | none =>
        rw [filed_of_none hq]
        simp
      | some q =>
        rw [filed_of_get? hq]
        constructor
        · rintro ⟨f, hf, hr, hs⟩
          obtain ⟨-, p, hp, hsig⟩ := mem_filings.1 hf
          rw [hr] at hp
          exact ⟨q, p, rfl, hp, hsig ▸ hs⟩
        · rintro ⟨q', p, hq', hp, hs⟩
          cases hq'
          exact ⟨⟨⟨id, i⟩, .ofPattern p⟩, mem_filings.2 ⟨rfl, p, hp, rfl⟩, rfl, hs⟩

/-! ### Histories -/

namespace Watched

variable {w : Watched}

theorem reachable_next (h : Reachable c w.index) (now : Nat) (op : Operation) :
    Reachable c (w.next now op).index := by
  cases op with
  | register id query ttl quota =>
    unfold next
    rcases perform_register w now id query ttl quota with ⟨e, hp⟩ | ⟨analysis, index, hv, hr, hp⟩
    · rw [hp]
      exact h
    · have hattempt : w.index.attempt ⟨id, query, analysis, ttl⟩ now = index := by
        unfold attempt
        rw [hr]
      have hregistered := h.register hv id ttl now
      rw [hattempt] at hregistered
      rw [hp]
      exact hregistered.react _
  | deactivate id =>
    unfold next
    rcases perform_deactivate w now id with hp | hp
    · rw [hp]
      exact h.react _
    · rw [hp]
      exact h
  | unregister id => exact h.unregister id
  | renew id ttl => exact h.renew id ttl now
  | add t ttl => exact h.add receive t ttl now _
  | removeExpired => exact h.removeExpired now
  | clear => exact h.clear

theorem reachable_run (c : Config) (ops : List (Nat × Operation)) :
    Reachable c ((Watched.new c).run ops).2.index := by
  induction ops using List.reverseRecOn with
  | nil => exact .new
  | append_singleton ops o ih =>
    rw [run_concat]
    exact reachable_next ih o.1 o.2

end Watched

/-- A subscriber has lost interest with its first solution. Its query is still in the index, and
so is what the tuple has left there. -/
theorem parts_agree_loop :
    let x := ((Watched.new {}).run
      [(0, .register 1 ⟨twoEdges, {}⟩ 5 (some 1)), (0, .add loop 1)]).2.index
    1 ∉ x.active ∧ x.expirations.find? (.query 1) = some 5000 ∧
      x.expirations.find? (.solution 2) = some 1000 ∧
      ⟨1, 1⟩ ∈ x.patterns.find ⟨3, 2, [⟨"p"⟩]⟩ := by
  intro x
  have hactive : 1 ∉ x.active := by decide +kernel
  have hquery : (x.registry.get? 1).map (fun q => (q.pattern, q.expiration)) =
      some (twoEdges, .instant 5000) := by decide +kernel
  have hheld : x.joins.held 2 = some ⟨1, .full 2, allAtX, .instant 1000⟩ := by decide +kernel
  obtain ⟨q, hq, hboth⟩ := Option.map_eq_some_iff.1 hquery
  obtain ⟨hpattern, hexpiration⟩ := Prod.mk.inj hboth
  have hsecond : q.pattern[1]? = some ⟨[.var ⟨"b"⟩, .const ⟨"p"⟩, .var ⟨"c"⟩]⟩ := by
    rw [hpattern]
    rfl
  obtain ⟨hqueries, hsolutions, -, -, hfiled⟩ := parts_agree (reachable_run {} _ : Reachable {} x)
  refine ⟨hactive, (hqueries 1 5000).2 ⟨q, hq, hexpiration⟩, (hsolutions 2 1000).2 ⟨_, hheld, rfl⟩, ?_⟩
  exact ((hfiled _).2.2 1 1).2 ⟨q, _, hq, hsecond, by decide⟩

end QueryIndex

end StandingQuery
