import StandingQuery.Join.Caching
import StandingQuery.Join.Symmetric
import StandingQuery.Proofs.StoreView

/-! Listings by query.

The stores of the two joins hold partial solutions in the same way and list them by query in ways
of their own: part by part for the symmetric join, which looks partners up by part, and by number for
the caching join. Either store is `Sound` if what it holds is and its listing has exactly the
numbers of what is held for each query, with no bucket empty. Every operation keeps that
(`sound_insert`, `sound_remove`, `sound_removeQuery`), so that a query takes along and counts
what is held for it (`get?_removeQuery`, `sizeOf_eq`). -/
namespace StandingQuery
open Std

/-! ### Part by part -/

namespace SolutionStore
open PartialSolution PartialStore

variable {s s' : SolutionStore} {p : PartialSolution PatternSet} {n m : SolutionId}
variable {query : QueryId} {part : PatternSet}

/-- What is held is in order, and the listing has exactly what is held. -/
structure Sound (s : SolutionStore) : Prop extends s.toPartialStore.Sound where
  byQuery : ∀ (query : QueryId) (part : PatternSet) (n : SolutionId),
    n ∈ (s.partsOf query).find part ↔ ∃ p, s.get? n = some p ∧ p.query = query ∧ p.part = part
  tidyParts : ∀ query, (s.partsOf query).Tidy
  tidyQueries : ∀ (query : QueryId) (b : Buckets PatternSet SolutionId),
    s.byQuery[query]? = some b → b.isEmpty = false

theorem sound_empty (nextId : SolutionId) :
    Sound ({ toPartialStore := { nextId } } : SolutionStore) where
  toSound := PartialStore.sound_empty nextId
  byQuery := by simp [get?, partsOf, Buckets.find_empty]
  tidyParts _ := by
    simp only [partsOf, ExtTreeMap.getElem?_empty, Option.getD_none]
    exact Buckets.tidy_empty
  tidyQueries := by simp

theorem insert_fst : (s.insert p).1 = (s.toPartialStore.insert p).1 := rfl

theorem toPartialStore_insert :
    (s.insert p).2.toPartialStore = (s.toPartialStore.insert p).2 := rfl

theorem toPartialStore_remove :
    (s.remove n).2.toPartialStore = (s.toPartialStore.remove n).2 := rfl

/-- A new partial solution is listed, and nothing else is. -/
theorem byQuery_insert (s : SolutionStore) (p : PartialSolution PatternSet) :
    (∃ n, (s.insert p).1 = .inserted n ∧ (s.insert p).2.byQuery =
      s.byQuery.insert p.query ((s.partsOf p.query).add p.part n)) ∨
    ((∀ n, (s.insert p).1 ≠ .inserted n) ∧ (s.insert p).2.byQuery = s.byQuery) := by
  unfold insert
  dsimp only
  split
  · next n hn => exact .inl ⟨n, hn, rfl⟩
  · next hn => exact .inr ⟨hn, rfl⟩

theorem partsOf_insert_eq {t : SolutionStore} {b : Buckets PatternSet SolutionId}
    (ht : t.byQuery = s.byQuery.insert p.query b) :
    t.partsOf query = if p.query = query then b else s.partsOf query := by
  unfold partsOf
  rw [ht, ExtTreeMap.getElem?_insert]
  simp only [Std.compare_eq_iff_eq]
  split <;> rfl

theorem sound_insert (h : s.Sound) (p : PartialSolution PatternSet) : (s.insert p).2.Sound := by
  have hheld : ∀ (query : QueryId) (part : PatternSet) (m : SolutionId),
      (∃ r, (s.insert p).2.get? m = some r ∧ r.query = query ∧ r.part = part) ↔
        ((p.query = query ∧ p.part = part) ∧ (s.insert p).1 = .inserted m) ∨
          m ∈ (s.partsOf query).find part := by
    intro query part m
    rw [h.byQuery]
    refine exists_get?_insert h.toSound (fun p q hk => ?_) m
    rw [show p.query = q.query from congrArg Key.query hk,
      show p.part = q.part from congrArg Key.part hk]
  rcases byQuery_insert s p with ⟨n, hn, hlisted⟩ | ⟨hn, hlisted⟩
  · refine ⟨PartialStore.sound_insert h.toSound p, fun query part m => ?_, fun query => ?_,
      fun query b hb => ?_⟩
    · rw [hheld, hn, StoreOutcome.inserted.injEq, partsOf_insert_eq hlisted]
      by_cases hq : p.query = query
      · subst hq
        rw [if_pos rfl, Buckets.mem_find_add]
        simp [eq_comm]
      · rw [if_neg hq]
        simp [hq]
    · rw [partsOf_insert_eq hlisted]
      split
      · exact Buckets.tidy_add (h.tidyParts _)
      · exact h.tidyParts query
    · rw [hlisted, ExtTreeMap.getElem?_insert] at hb
      split at hb
      · cases hb
        simp [Buckets.add]
      · exact h.tidyQueries query b hb
  · have hparts : (s.insert p).2.partsOf = s.partsOf := by
      funext query
      rw [partsOf, hlisted, partsOf]
    refine ⟨PartialStore.sound_insert h.toSound p, fun query part m => ?_, fun query => ?_,
      fun query b hb => ?_⟩
    · rw [hheld, hparts]
      exact (or_iff_right fun hnew => hn m hnew.2).symm
    · rw [hparts]
      exact h.tidyParts query
    · rw [hlisted] at hb
      exact h.tidyQueries query b hb

theorem insert_none (h : s.Sound) (hn : (s.insert p).1.id? = none) : (s.insert p).2 = s := by
  obtain ⟨he, -⟩ := PartialStore.insert_none h.toSound hn
  simp only [insert, he]

/-- Storing is a change exactly when the life gets longer. -/
theorem insert_changes_iff (h : s.Sound) (p : PartialSolution PatternSet) :
    (s.insert p).1.id?.isSome = true ↔ s.life p.key < p.expiration :=
  PartialStore.insert_changes_iff h.toSound p

/-- What storing comes to depends on the contents. -/
theorem contentsOf_insert (h : s.Sound) (hp : p.query = query) :
    (s.insert p).1.id?.isSome = news (s.contentsOf query) p ∧
      (s.insert p).2.contentsOf query = put (s.contentsOf query) p :=
  PartialStore.contentsOf_insert h.toSound hp

theorem remove_of_none (hn : s.get? n = none) : (s.remove n).2 = s := by
  unfold remove
  dsimp only
  rw [PartialStore.remove_of_none hn, remove_eq_get?, hn]

theorem byQuery_remove (hn : s.get? n = some p) : (s.remove n).2.byQuery =
    if ((s.partsOf p.query).discard p.part n).isEmpty then s.byQuery.erase p.query
      else s.byQuery.insert p.query ((s.partsOf p.query).discard p.part n) := by
  unfold remove
  dsimp only
  rw [remove_eq_get?, hn]

theorem partsOf_remove (hn : s.get? n = some p) (query : QueryId) : (s.remove n).2.partsOf query =
    if p.query = query then (s.partsOf p.query).discard p.part n else s.partsOf query := by
  unfold partsOf
  rw [byQuery_remove hn]
  by_cases hq : p.query = query
  · subst hq
    rw [erase_or_insert_self, if_pos rfl]
    split
    · next hempty => exact (ExtTreeMap.isEmpty_iff.1 hempty).symm
    · rfl
  · rw [erase_or_insert_of_ne hq, if_neg hq]

theorem sound_remove (h : s.Sound) (n : SolutionId) : (s.remove n).2.Sound := by
  cases hn : s.get? n with
  | none =>
    rw [remove_of_none hn]
    exact h
  | some p =>
    refine ⟨PartialStore.sound_remove h.toSound n, fun query part m => ?_, fun query => ?_,
      fun query b hb => ?_⟩
    · rw [toPartialStore_remove, exists_get?_remove hn, ← h.byQuery, partsOf_remove hn]
      by_cases hq : p.query = query
      · subst hq
        rw [if_pos rfl, Buckets.mem_find_discard]
        simp [eq_comm]
      · rw [if_neg hq]
        simp [hq]
    · rw [partsOf_remove hn]
      split
      · exact Buckets.tidy_discard (h.tidyParts _)
      · exact h.tidyParts query
    · rw [byQuery_remove hn] at hb
      exact forall_erase_or_insert (P := fun b => b.isEmpty = false) h.tidyQueries
        (fun hempty => by simpa using hempty) hb

theorem toPartialStore_foldl_remove (s : SolutionStore) (ids : List SolutionId) :
    (ids.foldl (fun s n => (s.remove n).2) s).toPartialStore =
      ids.foldl (fun s n => (s.remove n).2) s.toPartialStore :=
  (List.foldl_hom toPartialStore fun _ _ => rfl).symm

theorem sound_removeQuery (h : s.Sound) (query : QueryId) : (s.removeQuery query).2.Sound :=
  List.foldlRecOn _ _ h fun _ ht n _ => sound_remove ht n

theorem mem_partsOf (h : s.Sound) {ids}
    (hids : (part, ids) ∈ (s.partsOf query).toList) (hn : n ∈ ids.toList) :
    ∃ p, s.get? n = some p ∧ p.query = query ∧ p.part = part := by
  refine (h.byQuery query part n).1 ?_
  unfold Buckets.find
  rw [ExtTreeMap.mem_toList_iff_getElem?_eq_some.1 hids, Option.getD_some]
  exact ExtTreeSet.mem_toList.1 hn

theorem mem_idsOf (h : s.Sound) : n ∈ s.idsOf query ↔ ∃ p, s.get? n = some p ∧ p.query = query := by
  unfold idsOf
  rw [List.mem_flatMap]
  constructor
  · intro ⟨⟨part, b⟩, hmem, hn⟩
    obtain ⟨p, hp, hq, -⟩ := mem_partsOf h hmem hn
    exact ⟨p, hp, hq⟩
  · intro ⟨p, hp, hq⟩
    have hfind := (h.byQuery query p.part n).2 ⟨p, hp, hq, rfl⟩
    unfold Buckets.find at hfind
    cases hb : (s.partsOf query)[p.part]? with
    | none => simp [hb] at hfind
    | some b =>
      rw [hb, Option.getD_some] at hfind
      exact ⟨(p.part, b), ExtTreeMap.mem_toList_iff_getElem?_eq_some.2 hb,
        ExtTreeSet.mem_toList.2 hfind⟩

theorem nodup_idsOf (h : s.Sound) (query : QueryId) : (s.idsOf query).Nodup := by
  unfold idsOf
  rw [List.nodup_flatMap]
  constructor
  · intro e _
    refine (ExtTreeSet.distinct_toList (t := e.2)).imp fun {m n} hne he => hne ?_
    rw [he]
    exact ReflOrd.compare_self
  · refine ExtTreeMap.distinct_keys_toList.imp_of_mem fun {e f} he hf hne n hn hn' => hne ?_
    obtain ⟨p, hp, -, hpart⟩ := mem_partsOf h he hn
    obtain ⟨q, hq, -, hpart'⟩ := mem_partsOf h hf hn'
    rw [hp] at hq
    cases hq
    rw [← hpart, ← hpart']
    exact ReflOrd.compare_self

theorem get?_removeQuery (h : s.Sound) : (s.removeQuery query).2.get? n = some p ↔
    s.get? n = some p ∧ p.query ≠ query := by
  show (List.foldl _ s (s.idsOf query)).toPartialStore.get? n = some p ↔ _
  rw [toPartialStore_foldl_remove]
  exact get?_foldl_remove_of_query fun _ => mem_idsOf h

/-- What is counted for a query are its contents. -/
theorem sizeOf_eq (h : s.Sound) (query : QueryId) :
    s.sizeOf query = (s.contentsOf query).length := by
  have hcount : ∀ (l : List (PatternSet × ExtTreeSet SolutionId)) (k : Nat),
      l.foldl (fun n e => n + e.2.size) k = k + (l.flatMap fun e => e.2.toList).length := by
    intro l
    induction l with
    | nil => exact fun _ => rfl
    | cons e l ih =>
      intro k
      rw [List.foldl_cons, ih, List.flatMap_cons, List.length_append, ExtTreeSet.length_toList]
      omega
  show (s.partsOf query).toList.foldl (fun n e => n + e.2.size) 0 = _
  rw [hcount, Nat.zero_add]
  exact length_eq_of_listed (nodup_idsOf h query) fun _ => mem_idsOf h

theorem mem_keys_partsOf (h : s.Sound) : part ∈ (s.partsOf query).keys ↔
    ∃ n p, s.get? n = some p ∧ p.query = query ∧ p.part = part := by
  rw [ExtTreeMap.mem_keys, Buckets.mem_iff_of_tidy (h.tidyParts query)]
  exact exists_congr fun n => h.byQuery query part n

/-- The parts of a query depend on its contents. -/
theorem keys_partsOf_congr (h : s.Sound) (h' : s'.Sound)
    (hsame : s'.contentsOf query = s.contentsOf query) :
    (s'.partsOf query).keys = (s.partsOf query).keys := by
  have hirrefl : Std.Irrefl fun a b : PatternSet => compare a b = .lt := ⟨fun a hlt => by
    rw [ReflOrd.compare_self] at hlt
    cases hlt⟩
  have hantisymm : Std.Antisymm fun a b : PatternSet => compare a b = .lt := ⟨fun a b hab hba => by
    rw [OrientedOrd.eq_swap, hba] at hab
    cases hab⟩
  have hkeys : ∀ {s : SolutionStore}, s.Sound → ∀ part, part ∈ (s.partsOf query).keys ↔
      ∃ p ∈ s.contentsOf query, p.part = part := by
    intro s h part
    rw [mem_keys_partsOf h]
    constructor
    · intro ⟨n, p, hp, hquery, hpart⟩
      exact ⟨p, mem_contentsOf.2 ⟨⟨n, hp⟩, hquery⟩, hpart⟩
    · intro ⟨p, hp, hpart⟩
      obtain ⟨⟨n, hn⟩, hquery⟩ := mem_contentsOf.1 hp
      exact ⟨n, p, hn, hquery, hpart⟩
  have hordered : ∀ s : SolutionStore,
      (s.partsOf query).keys.Pairwise fun a b => compare a b = .lt := fun s =>
    ExtTreeMap.ordered_keys (t := s.partsOf query)
  refine (hordered s').eq_of_mem_iff (hordered s) fun part => ?_
  rw [hkeys h', hkeys h, hsame]

end SolutionStore

/-! ### By number -/

namespace MatchCache
open PartialSolution PartialStore

variable {c : MatchCache} {x : PartialSolution Nat} {n m : SolutionId} {query : QueryId}

/-- What is cached is in order, and the listing has exactly what is cached. -/
structure Sound (c : MatchCache) : Prop extends c.toPartialStore.Sound where
  byQuery : ∀ (query : QueryId) (n : SolutionId),
    n ∈ c.byQuery.find query ↔ ∃ x, c.get? n = some x ∧ x.query = query
  tidyQueries : c.byQuery.Tidy

theorem sound_empty (nextId : SolutionId) :
    Sound ({ toPartialStore := { nextId } } : MatchCache) where
  toSound := PartialStore.sound_empty nextId
  byQuery := by simp [get?, Buckets.find_empty]
  tidyQueries := Buckets.tidy_empty

theorem insert_fst : (c.insert x).1 = (c.toPartialStore.insert x).1 := rfl

theorem toPartialStore_insert :
    (c.insert x).2.toPartialStore = (c.toPartialStore.insert x).2 := rfl

theorem toPartialStore_remove :
    (c.remove n).2.toPartialStore = (c.toPartialStore.remove n).2 := rfl

/-- A new match is listed, and nothing else is. -/
theorem byQuery_insert (c : MatchCache) (x : PartialSolution Nat) :
    (∃ n, (c.insert x).1 = .inserted n ∧ (c.insert x).2.byQuery = c.byQuery.add x.query n) ∨
    ((∀ n, (c.insert x).1 ≠ .inserted n) ∧ (c.insert x).2.byQuery = c.byQuery) := by
  unfold insert
  dsimp only
  split
  · next n hn => exact .inl ⟨n, hn, rfl⟩
  · next hn => exact .inr ⟨hn, rfl⟩

theorem sound_insert (h : c.Sound) (x : PartialSolution Nat) : (c.insert x).2.Sound := by
  have hheld : ∀ (query : QueryId) (m : SolutionId),
      (∃ y, (c.insert x).2.get? m = some y ∧ y.query = query) ↔
        (x.query = query ∧ (c.insert x).1 = .inserted m) ∨ m ∈ c.byQuery.find query := by
    intro query m
    rw [h.byQuery]
    refine exists_get?_insert h.toSound (fun y z hk => ?_) m
    rw [show y.query = z.query from congrArg Key.query hk]
  rcases byQuery_insert c x with ⟨n, hn, hlisted⟩ | ⟨hn, hlisted⟩
  · refine ⟨PartialStore.sound_insert h.toSound x, fun query m => ?_, ?_⟩
    · rw [hheld, hn, StoreOutcome.inserted.injEq, hlisted, Buckets.mem_find_add,
        eq_comm (a := query), eq_comm (a := m)]
    · rw [hlisted]
      exact Buckets.tidy_add h.tidyQueries
  · refine ⟨PartialStore.sound_insert h.toSound x, fun query m => ?_, ?_⟩
    · rw [hheld, hlisted]
      exact (or_iff_right fun hnew => hn m hnew.2).symm
    · rw [hlisted]
      exact h.tidyQueries

theorem insert_none (h : c.Sound) (hn : (c.insert x).1.id? = none) : (c.insert x).2 = c := by
  obtain ⟨he, -⟩ := PartialStore.insert_none h.toSound hn
  simp only [insert, he]

/-- Caching is a change exactly when the life gets longer. -/
theorem insert_changes_iff (h : c.Sound) (x : PartialSolution Nat) :
    (c.insert x).1.id?.isSome = true ↔ c.life x.key < x.expiration :=
  PartialStore.insert_changes_iff h.toSound x

/-- What caching comes to depends on the contents. -/
theorem contentsOf_insert (h : c.Sound) (hx : x.query = query) :
    (c.insert x).1.id?.isSome = news (c.contentsOf query) x ∧
      (c.insert x).2.contentsOf query = put (c.contentsOf query) x :=
  PartialStore.contentsOf_insert h.toSound hx

theorem remove_of_none (hn : c.get? n = none) : (c.remove n).2 = c := by
  unfold remove
  dsimp only
  rw [PartialStore.remove_of_none hn, remove_eq_get?, hn]

theorem byQuery_remove (hn : c.get? n = some x) :
    (c.remove n).2.byQuery = c.byQuery.discard x.query n := by
  unfold remove
  dsimp only
  rw [remove_eq_get?, hn]

theorem sound_remove (h : c.Sound) (n : SolutionId) : (c.remove n).2.Sound := by
  cases hn : c.get? n with
  | none =>
    rw [remove_of_none hn]
    exact h
  | some x =>
    refine ⟨PartialStore.sound_remove h.toSound n, fun query m => ?_, ?_⟩
    · rw [toPartialStore_remove, exists_get?_remove hn, ← h.byQuery, byQuery_remove hn,
        Buckets.mem_find_discard, eq_comm (a := query)]
    · rw [byQuery_remove hn]
      exact Buckets.tidy_discard h.tidyQueries

theorem toPartialStore_foldl_remove (c : MatchCache) (ids : List SolutionId) :
    (ids.foldl (fun c n => (c.remove n).2) c).toPartialStore =
      ids.foldl (fun s n => (s.remove n).2) c.toPartialStore :=
  (List.foldl_hom toPartialStore fun _ _ => rfl).symm

theorem sound_removeQuery (h : c.Sound) (query : QueryId) : (c.removeQuery query).2.Sound :=
  List.foldlRecOn _ _ h fun _ ht n _ => sound_remove ht n

theorem mem_idsOf (h : c.Sound) : n ∈ c.idsOf query ↔ ∃ x, c.get? n = some x ∧ x.query = query := by
  rw [idsOf, ExtTreeSet.mem_toList, h.byQuery]

/-- The numbers of a query are listed in order, each once. -/
theorem ordered_idsOf (c : MatchCache) (query : QueryId) : (c.idsOf query).Pairwise (· < ·) :=
  ExtTreeSet.ordered_toList.imp fun hlt => Nat.compare_eq_lt.1 hlt

theorem nodup_idsOf (c : MatchCache) (query : QueryId) : (c.idsOf query).Nodup :=
  (ordered_idsOf c query).imp Nat.ne_of_lt

theorem get?_removeQuery (h : c.Sound) : (c.removeQuery query).2.get? n = some x ↔
    c.get? n = some x ∧ x.query ≠ query := by
  show (List.foldl _ c (c.idsOf query)).toPartialStore.get? n = some x ↔ _
  rw [toPartialStore_foldl_remove]
  exact get?_foldl_remove_of_query fun _ => mem_idsOf h

/-- What is counted for a query are its contents. -/
theorem sizeOf_eq (h : c.Sound) (query : QueryId) :
    c.sizeOf query = (c.contentsOf query).length := by
  rw [sizeOf, ← ExtTreeSet.length_toList]
  exact length_eq_of_listed (nodup_idsOf c query) fun _ => mem_idsOf h

end MatchCache

end StandingQuery
