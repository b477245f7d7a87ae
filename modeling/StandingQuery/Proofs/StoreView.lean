import Mathlib.Data.List.Sort
import StandingQuery.Proofs.PartialStore

/-! What a store holds of one query.

The partial solutions of a query, in the order of their numbers, are its contents
(`contentsOf`). The numbers themselves do not show in them, and nothing of other queries does;
yet the contents decide what is stored next (`contentsOf_insert`), what a probe finds
(`probe_eq`) and how long a list of the query's numbers is (`length_eq_of_listed`). -/
set_option linter.unusedSectionVars false

namespace StandingQuery
open Std

/-- Lists in the order of their numbers are the same if they have the same members. -/
theorem eq_of_ordered {α : Type} {l l' : List (Nat × α)} (h : l.Pairwise fun a b => a.1 < b.1)
    (h' : l'.Pairwise fun a b => a.1 < b.1) (hmem : ∀ n a, (n, a) ∈ l ↔ (n, a) ∈ l') : l = l' := by
  have hirrefl : Std.Irrefl fun a b : Nat × α => a.1 < b.1 := ⟨fun a => Nat.lt_irrefl a.1⟩
  have hantisymm : Std.Antisymm fun a b : Nat × α => a.1 < b.1 :=
    ⟨fun a b hab hba => absurd hab (Nat.lt_asymm hba)⟩
  exact h.eq_of_mem_iff h' fun e => hmem e.1 e.2

namespace PartialStore
open PartialSolution

section Contents

variable {Part : Type} [Ord Part] [TransOrd Part] [LawfulEqOrd Part]
variable {s s' : PartialStore Part} {p q : PartialSolution Part} {n : SolutionId} {query : QueryId}

/-- The partial solutions of a query with their numbers. -/
def entriesOf (s : PartialStore Part) (query : QueryId) : List (SolutionId × PartialSolution Part) :=
  s.solutions.toList.filter fun e => e.2.query = query

/-- The partial solutions of a query in the order of their numbers. -/
def contentsOf (s : PartialStore Part) (query : QueryId) : List (PartialSolution Part) :=
  (s.entriesOf query).map Prod.snd

theorem mem_entriesOf : (n, p) ∈ s.entriesOf query ↔ s.get? n = some p ∧ p.query = query := by
  unfold entriesOf get?
  rw [List.mem_filter, ExtTreeMap.mem_toList_iff_getElem?_eq_some, decide_eq_true_eq]

theorem ordered_entriesOf (s : PartialStore Part) (query : QueryId) :
    (s.entriesOf query).Pairwise fun a b => a.1 < b.1 :=
  (ExtTreeMap.ordered_keys_toList.imp fun h => Nat.compare_eq_lt.1 h).filter _

theorem mem_contentsOf : p ∈ s.contentsOf query ↔ (∃ n, s.get? n = some p) ∧ p.query = query := by
  unfold contentsOf
  rw [List.mem_map]
  constructor
  · intro ⟨e, he, hp⟩
    obtain ⟨hget, hquery⟩ := mem_entriesOf.1 (hp ▸ he : (e.1, p) ∈ s.entriesOf query)
    exact ⟨⟨e.1, hget⟩, hquery⟩
  · intro ⟨⟨n, hn⟩, hquery⟩
    exact ⟨(n, p), mem_entriesOf.2 ⟨hn, hquery⟩, rfl⟩

theorem nodup_contentsOf (h : s.Sound) : (s.contentsOf query).Nodup := by
  unfold contentsOf
  rw [List.Nodup, List.pairwise_map]
  refine (List.Pairwise.and_mem.1 (ordered_entriesOf s query)).imp ?_
  rintro ⟨n, p⟩ ⟨m, q⟩ ⟨hp, hq, hlt⟩ rfl
  exact hlt.ne (h.eq_of_key (mem_entriesOf.1 hp).1 (mem_entriesOf.1 hq).1 rfl)

/-! ### Storing -/

/-- Storing for another query makes no difference. -/
theorem contentsOf_insert_of_ne (h : s.Sound) (hp : p.query ≠ query) :
    (s.insert p).2.contentsOf query = s.contentsOf query := by
  refine congrArg (List.map Prod.snd) (eq_of_ordered (ordered_entriesOf _ _) (ordered_entriesOf _ _)
    fun m r => ?_)
  rw [mem_entriesOf, mem_entriesOf]
  cases hn : (s.insert p).1.id? with
  | none => rw [(insert_none h hn).1]
  | some n =>
    obtain ⟨hget, hold, -⟩ := insert_some h hn
    rw [hget]
    by_cases hm : n = m
    · subst hm
      rw [if_pos rfl]
      refine iff_of_false (fun hr => ?_) fun hr => ?_
      · cases hr.1
        exact hp hr.2
      · exact hp ((congrArg Key.query (hold r hr.1)).symm.trans hr.2)
    · rw [if_neg hm]

/-- A list of the numbers that a query has is as long as its contents. -/
theorem length_eq_of_listed {ids : List SolutionId} (hnodup : ids.Nodup)
    (hids : ∀ n, n ∈ ids ↔ ∃ p, s.get? n = some p ∧ p.query = query) :
    ids.length = (s.contentsOf query).length := by
  have hperm : ids.Perm ((s.entriesOf query).map Prod.fst) := by
    refine (List.perm_ext_iff_of_nodup hnodup ?_).2 fun n => ?_
    · exact List.pairwise_map.2 ((ordered_entriesOf s query).imp fun hlt => Nat.ne_of_lt hlt)
    · rw [hids, List.mem_map]
      constructor
      · intro ⟨p, hp⟩
        exact ⟨(n, p), mem_entriesOf.2 hp, rfl⟩
      · intro ⟨e, he, hn⟩
        exact ⟨e.2, mem_entriesOf.1 (hn ▸ he)⟩
  rw [hperm.length_eq, contentsOf, List.length_map, List.length_map]

variable [DecidableEq Part]

/-- A probe finds the contents that it is one of the probes of. -/
theorem probe_eq (h : s.Sound) (r : Probe Part) :
    s.probe r = (s.contentsOf r.query).filter fun p => r ∈ p.probes := by
  have hentries : (s.probes.find r).toList.filterMap (fun n => (s.get? n).map fun p => (n, p)) =
      (s.entriesOf r.query).filter fun e => r ∈ e.2.probes := by
    refine eq_of_ordered ?_ ((ordered_entriesOf s r.query).filter _) fun n p => ?_
    · refine ExtTreeSet.ordered_toList.filterMap _ fun n m hlt e he f hf => ?_
      obtain ⟨p, -, rfl⟩ := Option.map_eq_some_iff.1 he
      obtain ⟨q, -, rfl⟩ := Option.map_eq_some_iff.1 hf
      exact Nat.compare_eq_lt.1 hlt
    · rw [List.mem_filterMap, List.mem_filter, mem_entriesOf, decide_eq_true_eq]
      constructor
      · intro ⟨m, hm, he⟩
        obtain ⟨q, hq, he⟩ := Option.map_eq_some_iff.1 he
        cases he
        obtain ⟨q, hq', hr⟩ := (h.probes r n).1 (ExtTreeSet.mem_toList.1 hm)
        rw [hq] at hq'
        cases hq'
        exact ⟨⟨hq, (mem_probes.1 hr).1⟩, hr⟩
      · intro ⟨⟨hp, _⟩, hr⟩
        exact ⟨n, ExtTreeSet.mem_toList.2 ((h.probes r n).2 ⟨p, hp, hr⟩), by rw [hp]; rfl⟩
  have hprobe : s.probe r = ((s.probes.find r).toList.filterMap
      fun n => (s.get? n).map fun p => (n, p)).map Prod.snd := by
    rw [List.map_filterMap]
    unfold probe
    refine List.filterMap_congr fun n _ => ?_
    rw [Option.map_map]
    exact Option.map_id'.symm
  rw [hprobe, hentries, contentsOf, List.filter_map]
  rfl

/-! ### Storing for the query -/

/-- Whether a partial solution is new to a list, or lives longer than the one that is there. -/
def news (l : List (PartialSolution Part)) (p : PartialSolution Part) : Bool :=
  l.all fun q => q.key = p.key → q.expiration < p.expiration

/-- What storing a partial solution makes of a list. -/
def put (l : List (PartialSolution Part)) (p : PartialSolution Part) : List (PartialSolution Part) :=
  if l.any (·.key = p.key) then
    l.map fun q => if q.key = p.key ∧ q.expiration < p.expiration then p else q
  else l ++ [p]

theorem contentsOf_extend (h : s.Sound) (hq : s.get? n = some q) (hk : q.key = p.key)
    (hp : p.query = query) : (s.extend n p).contentsOf query =
      (s.contentsOf query).map fun r => if r.key = p.key then p else r := by
  have hentries : (s.extend n p).entriesOf query =
      (s.entriesOf query).map fun e => (e.1, if e.2.key = p.key then p else e.2) := by
    refine eq_of_ordered (ordered_entriesOf _ _) (List.pairwise_map.2 (ordered_entriesOf _ _))
      fun m r => ?_
    rw [mem_entriesOf, get?_extend, List.mem_map]
    constructor
    · intro ⟨hr, hquery⟩
      by_cases hm : n = m
      · subst hm
        rw [if_pos rfl] at hr
        cases hr
        exact ⟨(n, q), mem_entriesOf.2 ⟨hq, (congrArg Key.query hk).trans hp⟩, by rw [if_pos hk]⟩
      · rw [if_neg hm] at hr
        refine ⟨(m, r), mem_entriesOf.2 ⟨hr, hquery⟩, ?_⟩
        rw [if_neg fun hrk => hm (h.eq_of_key hq hr (hk.trans hrk.symm))]
    · intro ⟨e, hmem, he⟩
      obtain ⟨hget, hquery⟩ := mem_entriesOf.1 hmem
      cases he
      by_cases hm : n = e.1
      · subst hm
        rw [hq] at hget
        cases hget
        rw [if_pos rfl, if_pos hk]
        exact ⟨rfl, hp⟩
      · rw [if_neg hm, if_neg fun hek => hm (h.eq_of_key hq hget (hk.trans hek.symm))]
        exact ⟨hget, hquery⟩
  show ((s.extend n p).entriesOf query).map Prod.snd = _
  rw [hentries, contentsOf, List.map_map, List.map_map]
  rfl

theorem contentsOf_push (h : s.Sound) (hp : p.query = query) :
    (s.push p).contentsOf query = s.contentsOf query ++ [p] := by
  have hentries : (s.push p).entriesOf query = s.entriesOf query ++ [(s.nextId, p)] := by
    refine eq_of_ordered (ordered_entriesOf _ _) ?_ fun m r => ?_
    · refine List.pairwise_append.2 ⟨ordered_entriesOf _ _, List.pairwise_singleton _ _,
        fun e hmem f hf => ?_⟩
      rw [List.mem_singleton.1 hf]
      exact h.fresh e.1 e.2 (mem_entriesOf.1 hmem).1
    · rw [mem_entriesOf, get?_push, List.mem_append, mem_entriesOf, List.mem_singleton, Prod.mk.injEq]
      by_cases hm : s.nextId = m
      · subst hm
        have hnone : s.get? s.nextId ≠ some r := fun hr => Nat.lt_irrefl _ (h.fresh _ r hr)
        rw [if_pos rfl, Option.some.injEq]
        constructor
        · intro ⟨hr, _⟩
          exact .inr ⟨rfl, hr.symm⟩
        · intro hr
          rcases hr with hr | hr
          · exact absurd hr.1 hnone
          · exact ⟨hr.2.symm, hr.2 ▸ hp⟩
      · rw [if_neg hm]
        exact (or_iff_left fun hr => hm hr.1.symm).symm
  show ((s.push p).entriesOf query).map Prod.snd = _
  rw [hentries, List.map_append]
  rfl

/-- What storing comes to depends on the contents. -/
theorem contentsOf_insert (h : s.Sound) (hp : p.query = query) :
    (s.insert p).1.id?.isSome = news (s.contentsOf query) p ∧
      (s.insert p).2.contentsOf query = put (s.contentsOf query) p := by
  have hmine : ∀ {n q}, s.get? n = some q → q.key = p.key → q ∈ s.contentsOf query := by
    intro n q hq hk
    exact mem_contentsOf.2 ⟨⟨n, hq⟩, (congrArg Key.query hk).trans hp⟩
  have hany : ∀ {n q}, s.get? n = some q → q.key = p.key →
      (s.contentsOf query).any (·.key = p.key) = true := fun hq hk =>
    List.any_eq_true.2 ⟨_, hmine hq hk, decide_eq_true hk⟩
  -- There is at most one with the key.
  have honly : ∀ {n q r}, s.get? n = some q → q.key = p.key → r ∈ s.contentsOf query →
      r.key = p.key → r = q := by
    intro n q r hq hk hr hrk
    obtain ⟨⟨m, hm⟩, -⟩ := mem_contentsOf.1 hr
    have hmn := h.eq_of_key hm hq (hrk.trans hk.symm)
    rw [hmn, hq] at hm
    exact (Option.some.inj hm).symm
  unfold news put
  rcases insert_cases h p with ⟨n, q, hq, hk, hlt, he⟩ | ⟨n, q, hq, hk, hlt, he⟩ | ⟨hnew, he⟩
  · rw [he, if_pos (hany hq hk)]
    constructor
    · refine (Bool.eq_false_iff.2 fun hall => hlt ?_).symm
      exact of_decide_eq_true (List.all_eq_true.1 hall q (hmine hq hk)) hk
    · refine ((List.map_congr_left fun r hr => if_neg fun hboth => hlt ?_).trans (List.map_id' _)).symm
      exact honly hq hk hr hboth.1 ▸ hboth.2
  · rw [he, if_pos (hany hq hk)]
    constructor
    · refine (List.all_eq_true.2 fun r hr => decide_eq_true fun hrk => ?_).symm
      rw [honly hq hk hr hrk]
      exact hlt
    · refine (contentsOf_extend h hq hk hp).trans (List.map_congr_left fun r hr => ?_)
      by_cases hrk : r.key = p.key
      · rw [if_pos hrk, if_pos ⟨hrk, honly hq hk hr hrk ▸ hlt⟩]
      · rw [if_neg hrk, if_neg fun hboth => hrk hboth.1]
  · have hnone : ∀ r ∈ s.contentsOf query, r.key ≠ p.key := by
      intro r hr
      obtain ⟨⟨m, hm⟩, -⟩ := mem_contentsOf.1 hr
      exact hnew m r hm
    rw [he, if_neg fun hany => ?_]
    · constructor
      · exact (List.all_eq_true.2 fun r hr => decide_eq_true fun hrk => absurd hrk (hnone r hr)).symm
      · exact contentsOf_push h hp
    · obtain ⟨r, hr, hrk⟩ := List.any_eq_true.1 hany
      exact hnone r hr (of_decide_eq_true hrk)

end Contents

end PartialStore

end StandingQuery
