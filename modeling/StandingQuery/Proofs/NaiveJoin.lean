import Mathlib.Data.List.Pairwise
import Mathlib.Data.List.Sections
import StandingQuery.Proofs.Caching
import StandingQuery.Proofs.StoreView

/-! The caching join and the naive join.

The naive join of a match takes one cached match for every other pattern, in all ways
there are, and keeps those ways in which any two matches agree (`naiveJoin`). The
caching join does not try them all. It goes along an order, looks the next match up by one
term, and checks it against what is bound so far and not against each match. Every pattern
on the way shares a variable with those before it, so there is always a term to look up
(`deadEnds_eq_nil`), and both come to the same solutions (`addMatch_naive`). -/
namespace StandingQuery
open Std

/-! ### Choosing from lists -/

section Lists

variable {α β : Type}

theorem nodup_sections {L : List (List α)} (h : ∀ l ∈ L, l.Nodup) : L.sections.Nodup := by
  induction L with
  | nil => exact List.nodup_singleton _
  | cons l L ih =>
    obtain ⟨hl, hL⟩ := List.forall_mem_cons.1 h
    rw [List.sections, List.nodup_flatMap]
    refine ⟨fun f _ => hl.map fun a a' haa => (List.cons.inj haa).1, (ih hL).imp ?_⟩
    intro f f' hne k hk hk'
    obtain ⟨a, -, rfl⟩ := List.mem_map.1 hk
    obtain ⟨a', -, haa⟩ := List.mem_map.1 hk'
    exact hne (List.cons.inj haa).2.symm

/-- What tells the members of a list apart determines them. -/
theorem exists_map_eq [DecidableEq β] (f : α → β) (a : α) {l : List α} (h : (l.map f).Nodup) :
    ∃ pick : β → α, l = (l.map f).map pick := by
  induction l with
  | nil => exact ⟨fun _ => a, rfl⟩
  | cons x l ih =>
    obtain ⟨hx, hl⟩ := List.nodup_cons.1 h
    obtain ⟨pick, hpick⟩ := ih hl
    refine ⟨fun k => if k = f x then x else pick k, ?_⟩
    have hrest : (l.map f).map (fun k => if k = f x then x else pick k) = (l.map f).map pick :=
      List.map_congr_left fun k hk => if_neg (ne_of_mem_of_not_mem hk hx)
    rw [List.map_cons, List.map_cons, hrest, ← hpick, if_pos rfl]

theorem coe_foldr_min (f : Nat → Expiration) (is : List Nat) :
    (((is.map f).foldr min .never : Expiration) : Life) = is.toFinset.inf fun j => (f j : Life) := by
  induction is with
  | nil => rfl
  | cons i is ih =>
    rw [List.map_cons, List.foldr_cons, WithBot.coe_min, ih, List.toFinset_cons, Finset.inf_insert]

end Lists

namespace MatchCache
open PartialSolution PartialStore GraphPattern

variable {c : MatchCache} {g : GraphPattern} {query : QueryId} {now i j : Nat}
variable {b : Binding} {e : Expiration} {m x : PartialSolution Nat} {L : List (PartialSolution Nat)}

/-- The caches that operations lead to. -/
inductive Arises : MatchCache → Prop where
  | empty : Arises .empty
  | insert {c : MatchCache} : Arises c → (m : PartialSolution Nat) → Arises (c.insert m).2
  | addMatch {c : MatchCache} : Arises c → (expirations : Expirations) → (m : PartialSolution Nat) →
      (a : Analysis) → (now : Nat) → Arises (addMatch c expirations m a now).2.1
  | remove {c : MatchCache} : Arises c → (n : SolutionId) → Arises (c.remove n).2
  | removeQuery {c : MatchCache} : Arises c → (query : QueryId) → Arises (removeQuery c query).2
  | clear {c : MatchCache} : Arises c → Arises c.clear

theorem Arises.sound (h : Arises c) : c.Sound := by
  induction h with
  | empty => exact sound_empty 0
  | insert _ m ih => exact sound_insert ih m
  | addMatch _ expirations m a now ih =>
    rw [addMatch_cache ih]
    exact sound_insert ih m
  | remove _ n ih => exact sound_remove ih n
  | removeQuery _ query ih => exact sound_removeQuery ih query
  | clear _ _ => exact sound_empty _

/-! ### The naive join -/

/-- The cached matches of a pattern that have not expired. -/
def valid (c : MatchCache) (query : QueryId) (now j : Nat) : List (PartialSolution Nat) :=
  (c.contentsOf query).filter fun x => x.part = j ∧ x.expiration.expiredAt now = false

/-- The bindings of all matches, for as long as none of them expires. -/
def joined (ms : List (PartialSolution Nat)) : Candidate :=
  ⟨.mergeAll (ms.map binding), (ms.map expiration).foldr min .never⟩

/-- The patterns of a query of some size other than one of them. -/
def others (size i : Nat) : List Nat := (List.range size).erase i

/-- A match with one valid match for each of the other patterns, in all ways in which any two of
the matches are compatible. -/
def choices (c : MatchCache) (size : Nat) (m : PartialSolution Nat) (now : Nat) :
    List (List (PartialSolution Nat)) :=
  ((((others size m.part).map (valid c m.query now)).sections.map (m :: ·)).filter fun ms =>
    ms.Pairwise fun x y => x.binding.compatible y.binding = true)

def naiveJoin (c : MatchCache) (size : Nat) (m : PartialSolution Nat) (now : Nat) : List Candidate :=
  (choices c size m now).map joined

theorem mem_valid : x ∈ valid c query now j ↔
    (∃ n, c.get? n = some x) ∧ x.query = query ∧ x.part = j ∧ .instant now < x.expiration := by
  unfold valid
  rw [List.mem_filter, mem_contentsOf, decide_eq_true_eq, Expiration.not_expiredAt_iff, and_assoc]

theorem joined_map (is : List Nat) (pick : Nat → PartialSolution Nat) : joined (is.map pick) =
    ⟨.mergeAll (is.map fun j => (pick j).binding),
      (is.map fun j => (pick j).expiration).foldr min .never⟩ := by
  unfold joined
  rw [List.map_map, List.map_map]
  rfl

theorem nodup_valid (h : c.Sound) : (valid c query now j).Nodup :=
  (nodup_contentsOf h.toSound).filter _

theorem mem_others {size : Nat} : j ∈ others size i ↔ j < size ∧ j ≠ i := by
  unfold others
  rw [List.nodup_range.mem_erase_iff, List.mem_range, and_comm]

theorem nodup_cons_others (size i : Nat) : (i :: others size i).Nodup :=
  List.nodup_cons.2 ⟨fun h => (mem_others.1 h).2 rfl, List.nodup_range.erase i⟩

/-- A match for every pattern: the new one for its own, valid ones for the others, and any two of
them compatible. -/
structure Picks (c : MatchCache) (size : Nat) (m : PartialSolution Nat) (now : Nat)
    (pick : Nat → PartialSolution Nat) : Prop where
  own : pick m.part = m
  valid : ∀ j ∈ others size m.part, pick j ∈ valid c m.query now j
  compatible : ∀ j ∈ m.part :: others size m.part, ∀ k ∈ m.part :: others size m.part,
    (pick j).binding.compatible (pick k).binding = true

/-- Compatible as bindings, matches are so in either order and each with itself. -/
theorem pairwise_compatible_iff {is : List Nat} {pick : Nat → PartialSolution Nat} :
    is.Pairwise (fun j k => (pick j).binding.compatible (pick k).binding = true) ↔
      ∀ j ∈ is, ∀ k ∈ is, (pick j).binding.compatible (pick k).binding = true := by
  have hsymm : Std.Symm fun j k => (pick j).binding.compatible (pick k).binding = true :=
    ⟨fun _ _ hc => Binding.compatible_symm hc⟩
  have hrefl : Std.Refl fun j k => (pick j).binding.compatible (pick k).binding = true :=
    ⟨fun _ => Binding.compatible_self⟩
  constructor
  · exact fun h j hj k hk => h.forall_of_forall (fun _ _ => Binding.compatible_self) hj hk
  · exact fun h => List.pairwise_of_reflexive_of_forall_ne fun j hj k hk _ => h j hj k hk

theorem mem_choices {size : Nat} : L ∈ choices c size m now ↔
    ∃ pick, Picks c size m now pick ∧ L = (m.part :: others size m.part).map pick := by
  unfold choices
  rw [List.mem_filter, List.mem_map, decide_eq_true_eq]
  simp only [List.mem_sections, List.forall₂_map_right_iff]
  constructor
  · rintro ⟨⟨ms, hms, rfl⟩, hcompatible⟩
    have hparts : ms.map part = others size m.part := by
      rw [← List.forall₂_eq_eq_eq, List.forall₂_map_left_iff]
      exact hms.imp fun x j hx => (mem_valid.1 hx).2.2.1
    have hall : (m :: ms).map part = m.part :: others size m.part := by rw [List.map_cons, hparts]
    obtain ⟨pick, hpick⟩ := exists_map_eq part m (hall ▸ nodup_cons_others size m.part)
    rw [hall] at hpick
    obtain ⟨hown, hrest⟩ := List.cons.inj hpick
    refine ⟨pick, ⟨hown.symm, ?_, ?_⟩, hpick⟩
    · rw [hrest, List.forall₂_map_left_iff, List.forall₂_same] at hms
      exact hms
    · rw [hpick, List.pairwise_map] at hcompatible
      exact pairwise_compatible_iff.1 hcompatible
  · rintro ⟨pick, hpick, rfl⟩
    refine ⟨⟨(others size m.part).map pick, ?_, ?_⟩, ?_⟩
    · rw [List.forall₂_map_left_iff, List.forall₂_same]
      exact hpick.valid
    · rw [List.map_cons, hpick.own]
    · rw [List.pairwise_map]
      exact pairwise_compatible_iff.2 hpick.compatible

namespace Picks

variable {pick : Nat → PartialSolution Nat}

theorem fits (h : Picks c g.length m now pick) (hfit : c.Fitting m.query g)
    (hm : g.Fits (.single m.part) m.binding) {j : Nat} (hj : j ∈ m.part :: others g.length m.part) :
    g.Fits (.single j) (pick j).binding := by
  rcases List.mem_cons.1 hj with rfl | hj
  · rw [h.own]
    exact hm
  · obtain ⟨⟨n, hn⟩, hquery, hpart, -⟩ := mem_valid.1 (h.valid j hj)
    have hstored := hfit n _ hn hquery
    rwa [hpart] at hstored

theorem merges (h : Picks c g.length m now pick) :
    Merges (m.part :: others g.length m.part) (fun j => (pick j).binding)
      (joined ((m.part :: others g.length m.part).map pick)).binding where
  compatible := h.compatible
  merged := congrArg Candidate.binding (joined_map _ pick)

theorem portion (h : Picks c g.length m now pick) (hfit : c.Fitting m.query g)
    (hm : g.Fits (.single m.part) m.binding) {j : Nat} (hj : j ∈ m.part :: others g.length m.part) :
    g.portion (joined ((m.part :: others g.length m.part).map pick)).binding j =
      (pick j).binding :=
  h.merges.portion (fun _ hk => (fits_single_iff.1 (h.fits hfit hm hk)).2) hj

theorem life (h : Picks c g.length m now pick) (hc : c.Sound) {j : Nat}
    (hj : j ∈ others g.length m.part) :
    c.life ⟨m.query, j, (pick j).binding⟩ = (pick j).expiration := by
  obtain ⟨⟨n, hn⟩, hquery, hpart, -⟩ := mem_valid.1 (h.valid j hj)
  have hlife := life_eq_of_get? hc.toSound hn
  rwa [key, hquery, hpart] at hlife

/-- A choice lives as long as the new match and the cached ones do. -/
theorem expiration_eq (h : Picks c g.length m now pick) (hc : c.Sound) :
    ((joined ((m.part :: others g.length m.part).map pick)).expiration : Life) =
      (m.expiration : Life) ⊓ (others g.length m.part).toFinset.inf fun j =>
        c.life ⟨m.query, j, (pick j).binding⟩ := by
  rw [joined_map, coe_foldr_min, List.toFinset_cons, Finset.inf_insert, h.own]
  refine congrArg _ (Finset.inf_congr rfl fun j hj => ?_)
  exact (h.life hc (List.mem_toFinset.1 hj)).symm

/-- What has been chosen can be told from the merged binding. -/
theorem eq_of_binding {pick' : Nat → PartialSolution Nat} (h : Picks c g.length m now pick)
    (h' : Picks c g.length m now pick') (hc : c.Sound) (hfit : c.Fitting m.query g)
    (hm : g.Fits (.single m.part) m.binding)
    (hsame : (joined ((m.part :: others g.length m.part).map pick)).binding =
      (joined ((m.part :: others g.length m.part).map pick')).binding) :
    (m.part :: others g.length m.part).map pick =
      (m.part :: others g.length m.part).map pick' := by
  refine List.map_congr_left fun j hj => ?_
  have hbinding : (pick j).binding = (pick' j).binding := by
    rw [← h.portion hfit hm hj, hsame, h'.portion hfit hm hj]
  rcases List.mem_cons.1 hj with rfl | hj
  · rw [h.own, h'.own]
  · obtain ⟨⟨n, hn⟩, hquery, hpart, -⟩ := mem_valid.1 (h.valid j hj)
    obtain ⟨⟨n', hn'⟩, hquery', hpart', -⟩ := mem_valid.1 (h'.valid j hj)
    have hkey : (pick j).key = (pick' j).key := by
      rw [key, key, hquery, hquery', hpart, hpart', hbinding]
    rw [hc.eq_of_key hn hn' hkey, hn'] at hn
    exact (Option.some.inj hn).symm

end Picks

theorem nodup_choices (h : c.Sound) (size : Nat) (m : PartialSolution Nat) (now : Nat) :
    (choices c size m now).Nodup := by
  refine List.Nodup.filter _ ((nodup_sections fun l hl => ?_).map fun _ _ he => (List.cons.inj he).2)
  obtain ⟨j, -, rfl⟩ := List.mem_map.1 hl
  exact nodup_valid h

theorem nodup_naiveJoin (h : c.Sound) (hfit : c.Fitting m.query g)
    (hm : g.Fits (.single m.part) m.binding) : (naiveJoin c g.length m now).Nodup := by
  refine (nodup_choices h _ m now).map_on fun L hL L' hL' hsame => ?_
  obtain ⟨pick, hpick, rfl⟩ := mem_choices.1 hL
  obtain ⟨pick', hpick', rfl⟩ := mem_choices.1 hL'
  exact hpick.eq_of_binding hpick' h hfit hm (congrArg Candidate.binding hsame)

theorem mem_cons_others (hcap : g.length ≤ PatternSet.capacity) (hi : i < g.length) (j : Nat) :
    j ∈ i :: others g.length i ↔ j ∈ PatternSet.full g.length := by
  rw [PatternSet.mem_full, Nat.min_eq_left hcap, List.mem_cons, mem_others]
  exact ⟨fun hj => hj.elim (fun hj => hj ▸ hi) And.left,
    fun hj => (eq_or_ne j i).imp_right fun hne => ⟨hj, hne⟩⟩

theorem members_erase (hcap : g.length ≤ PatternSet.capacity) :
    (PatternSet.full g.length).members.erase i = (others g.length i).toFinset := by
  ext j
  rw [Finset.mem_erase, PatternSet.mem_members, PatternSet.mem_full, Nat.min_eq_left hcap,
    List.mem_toFinset, mem_others, and_comm]

/-- A binding that contains the new match and whose other matches are cached and valid comes from
the choice of these matches. -/
theorem exists_picks (h : c.Sound) (hcap : g.length ≤ PatternSet.capacity)
    (hi : m.part < g.length) (hb : g.Fits (.full g.length) b)
    (hown : g.portion b m.part = m.binding)
    (hlives : ∀ j ∈ others g.length m.part, .upTo now < portionLife c g m.query b j) :
    ∃ pick, Picks c g.length m now pick ∧
      ∀ j ∈ m.part :: others g.length m.part, (pick j).binding = g.portion b j := by
  have hcached : ∀ j ∈ others g.length m.part,
      ∃ x ∈ valid c m.query now j, x.binding = g.portion b j := by
    intro j hj
    have hlong := hlives j hj
    obtain ⟨f, hf⟩ := WithBot.ne_bot_iff_exists.1 (bot_lt_of_lt hlong).ne'
    obtain ⟨n, x, hn, hkey, hxf⟩ := (life_eq_coe_iff h.toSound).1 hf.symm
    rw [← hf, ← hxf] at hlong
    exact ⟨x, mem_valid.2 ⟨⟨n, hn⟩, congrArg Key.query hkey, congrArg Key.part hkey,
      WithBot.coe_lt_coe.1 hlong⟩, congrArg Key.binding hkey⟩
  have : Nonempty (PartialSolution Nat) := ⟨m⟩
  choose! stored hstored hbinding using hcached
  obtain ⟨pick, hself, hother⟩ : ∃ pick : Nat → PartialSolution Nat,
      pick m.part = m ∧ ∀ j ∈ others g.length m.part, pick j = stored j :=
    ⟨fun j => if j = m.part then m else stored j, if_pos rfl,
      fun j hj => if_neg (mem_others.1 hj).2⟩
  have hportion : ∀ j ∈ m.part :: others g.length m.part, (pick j).binding = g.portion b j := by
    intro j hj
    rcases List.mem_cons.1 hj with rfl | hj
    · rw [hself, hown]
    · rw [hother j hj, hbinding j hj]
  refine ⟨pick, ⟨hself, fun j hj => ?_, fun j hj k hk => ?_⟩, hportion⟩
  · rw [hother j hj]
    exact hstored j hj
  · rw [hportion j hj, hportion k hk]
    exact (hb.merges (mem_cons_others hcap hi)).compatible j hj k hk

/-- The naive join of a match: every binding of the whole query that contains it and whose other
matches are cached and valid. -/
theorem mem_naiveJoin (h : c.Sound) (hfit : c.Fitting m.query g) (hpiece : g.OnePiece)
    (hcap : g.length ≤ PatternSet.capacity) (hm : g.Fits (.single m.part) m.binding) :
    ⟨b, e⟩ ∈ naiveJoin c g.length m now ↔
      g.Fits (.full g.length) b ∧ g.portion b m.part = m.binding ∧
        (∀ j ∈ others g.length m.part, .upTo now < portionLife c g m.query b j) ∧
        (e : Life) = (m.expiration : Life) ⊓
          (others g.length m.part).toFinset.inf (portionLife c g m.query b) := by
  have hi : m.part < g.length := (fits_single_iff.1 hm).1
  -- Which matches a binding is made of tells how long it lives.
  have hlife : ∀ {pick : Nat → PartialSolution Nat},
      (∀ j ∈ m.part :: others g.length m.part, (pick j).binding = g.portion b j) →
        ∀ j ∈ others g.length m.part,
          portionLife c g m.query b j = c.life ⟨m.query, j, (pick j).binding⟩ := by
    intro pick hportion j hj
    rw [portionLife, hportion j (List.mem_cons_of_mem _ hj)]
  unfold naiveJoin
  rw [List.mem_map]
  constructor
  · rintro ⟨L, hL, hjoined⟩
    obtain ⟨pick, hpick, rfl⟩ := mem_choices.1 hL
    have hexpiration := hpick.expiration_eq h
    have hmerges := hpick.merges
    have hportion : ∀ j ∈ m.part :: others g.length m.part, (pick j).binding = g.portion b j := by
      intro j hj
      rw [← hpick.portion hfit hm hj, hjoined]
    rw [hjoined] at hmerges hexpiration
    refine ⟨hmerges.fits (fun j hj => (fits_single_iff.1 (hpick.fits hfit hm hj)).2)
      (connected_full hpiece (by omega) hcap) (mem_cons_others hcap hi), ?_, fun j hj => ?_, ?_⟩
    · rw [← hportion m.part List.mem_cons_self, hpick.own]
    · rw [hlife hportion j hj, hpick.life h hj]
      exact WithBot.coe_lt_coe.2 (mem_valid.1 (hpick.valid j hj)).2.2.2
    · rw [hexpiration]
      exact congrArg _ (Finset.inf_congr rfl fun j hj =>
        (hlife hportion j (List.mem_toFinset.1 hj)).symm)
  · rintro ⟨hb, hown, hlives, he⟩
    obtain ⟨pick, hpick, hportion⟩ := exists_picks h hcap hi hb hown hlives
    refine ⟨_, mem_choices.2 ⟨pick, hpick, rfl⟩, ?_⟩
    have hbinding : (joined ((m.part :: others g.length m.part).map pick)).binding = b := by
      rw [joined_map, List.map_congr_left hportion]
      exact (hb.merges (mem_cons_others hcap hi)).merged.symm
    have hexpiration : (joined ((m.part :: others g.length m.part).map pick)).expiration = e := by
      refine WithBot.coe_inj.1 ?_
      rw [hpick.expiration_eq h, he]
      exact congrArg _ (Finset.inf_congr rfl fun j hj =>
        (hlife hportion j (List.mem_toFinset.1 hj)).symm)
    rw [← hbinding, ← hexpiration]

/-! ### Dead ends -/

/-- The patterns without a bound variable, with what is bound, at which extending a binding gives
up. -/
def deadEnds (c : MatchCache) (a : Analysis) (query : QueryId) (now : Nat) :
    List Nat → Binding → List (Nat × Binding)
  | [], _ => []
  | i :: rest, b =>
    match probeTerm? a i b with
    | none => [(i, b)]
    | some _ => (candidates c a query now i b).flatMap fun m =>
        deadEnds c a query now rest (Binding.merge b m.binding)

theorem deadEnds_eq_nil (h : c.Sound) (hfit : c.Fitting query g) {V : PatternSet}
    {order : List Nat} (horder : Chained (Analysis.linksOf g) V order) (hb : Binds g V b) :
    deadEnds c (.ofPattern g) query now order b = [] := by
  induction horder generalizing b with
  | nil => rfl
  | @cons V j rest hj hlinked _ ih =>
    obtain ⟨i, hi, hij⟩ := hlinked
    obtain ⟨-, v, hvi, hvj⟩ := Analysis.mem_linksOf.1 hij
    have hvb : v ∈ b := (hb v).2 ⟨i, hi, hvi⟩
    obtain ⟨w, t, hprobe, -, -⟩ := probeTerm?_of_mem hvj hvb
    rw [deadEnds, hprobe]
    refine List.flatMap_eq_nil_iff.2 fun m hm => ?_
    obtain ⟨⟨n, hn⟩, hquery, hpart, -, -⟩ := (mem_candidates h hfit hvj hvb).1 hm
    exact ih (hb.merge (hpart ▸ (hfit n m hn hquery).domain))

/-! ### Taking in a match -/

/-- Storing a match leaves the cached matches of the other patterns as they are. -/
theorem portionLife_insert_of_ne (h : c.Sound) (hj : j ≠ m.part) :
    portionLife (c.insert m).2 g query b j = portionLife c g query b j :=
  life_insert_of_ne h.toSound fun hkey => hj (congrArg Key.part hkey)

/-- A cache holds matches of a query that bind the variables of their patterns, and a new match of
one pattern is stored or gets a longer life. What is returned is what the naive join of the match
gives: a solution for every choice of one valid cached match for each other pattern, if any two of
the matches are compatible, with the merged binding, until the first of them expires. Each
solution is returned once, and extending the match never comes to a pattern without a bound
variable. -/
theorem addMatch_naive {a : Analysis} (h : Arises c) (ha : g.analyse = .ok a)
    (hfit : c.Fitting m.query g) (hm : g.Fits (.single m.part) m.binding)
    (hnew : (c.insert m).1 ≠ .unchanged) (expirations : Expirations) (now : Nat) :
    (∃ found, (addMatch c expirations m a now).1 = some found ∧
      found.Perm (naiveJoin c g.length m now) ∧ (found.map Candidate.binding).Nodup) ∧
      deadEnds (c.insert m).2 a m.query now (a.joinOrder m.part) m.binding = [] := by
  obtain ⟨-, hcap, rfl, hpiece⟩ := analyse_eq_ok_iff.1 ha
  obtain ⟨n, hn⟩ : ∃ n, (c.insert m).1.id? = some n := by
    cases hout : (c.insert m).1 with
    | inserted n => exact ⟨n, rfl⟩
    | refreshed n => exact ⟨n, rfl⟩
    | unchanged => exact absurd hout hnew
  have hold : c.Sound := h.sound
  have hstored : (c.insert m).2.Sound := sound_insert hold m
  have hfit' := fitting_insert hold hfit hm
  have horder := Analysis.chained_joinOrder (fits_single_iff.1 hm).1
  obtain ⟨found, hfound⟩ : ∃ found, found = extend (c.insert m).2 (.ofPattern g) m.query now
    ((Analysis.ofPattern g).joinOrder m.part) m.binding m.expiration := ⟨_, rfl⟩
  have hmem : ∀ s, s ∈ found ↔ s ∈ naiveJoin c g.length m now := by
    rintro ⟨b, e⟩
    rw [hfound, mem_extend_joinOrder hstored hfit' hpiece hcap hm,
      mem_naiveJoin hold hfit hpiece hcap hm, members_erase hcap]
    have hlife : ∀ j ∈ others g.length m.part,
        portionLife (c.insert m).2 g m.query b j = portionLife c g m.query b j :=
      fun j hj => portionLife_insert_of_ne hold (mem_others.1 hj).2
    rw [Finset.inf_congr rfl fun j hj => hlife j (List.mem_toFinset.1 hj)]
    simp only [List.mem_toFinset]
    refine and_congr_right fun _ => and_congr_right fun _ => and_congr_left fun _ => ?_
    exact forall₂_congr fun j hj => by rw [hlife j hj]
  have hnodup : (found.map Candidate.binding).Nodup := by
    rw [hfound, List.Nodup, List.pairwise_map]
    exact nodup_extend hstored hfit' horder hm.domain
  refine ⟨⟨found, ?_, ?_, hnodup⟩, deadEnds_eq_nil hstored hfit' horder hm.domain⟩
  · rw [addMatch_some hn, hfound]
  · exact (List.perm_ext_iff_of_nodup hnodup.of_map (nodup_naiveJoin hold hfit hm)).2 hmem

/-- Three edges in a circle. -/
def triangle : GraphPattern := [⟨[.var ⟨"a"⟩, .const ⟨"p"⟩, .var ⟨"b"⟩]⟩,
  ⟨[.var ⟨"b"⟩, .const ⟨"p"⟩, .var ⟨"c"⟩]⟩, ⟨[.var ⟨"c"⟩, .const ⟨"p"⟩, .var ⟨"a"⟩]⟩]

/-- A match of one edge of the circle. -/
def edge (i : Nat) (source target : String) (e : Expiration) : PartialSolution Nat :=
  ⟨1, i, (triangle[i]?.bind (·.match? ⟨[⟨source⟩, ⟨"p"⟩, ⟨target⟩]⟩)).getD ∅, e⟩

/-- Each of the first two edges is cached twice. One of the first edges has expired, and one of
the second edges does not lead to where the new edge starts. -/
theorem addMatch_naive_triangle :
    let c : MatchCache := [edge 0 "x" "y" .never, edge 0 "v" "y" (.instant 500),
      edge 1 "y" "z" (.instant 5000), edge 1 "y" "w" .never].foldl (fun c m => (c.insert m).2) .empty
    let last := edge 2 "z" "x" (.instant 3000)
    ∃ a, triangle.analyse = .ok a ∧ (c.insert last).1 = .inserted 4 ∧
      (addMatch c {} last a 1000).1 = some [⟨((({} : Binding).insert ⟨"a"⟩ ⟨"x"⟩).insert
        ⟨"b"⟩ ⟨"y"⟩).insert ⟨"c"⟩ ⟨"z"⟩, .instant 3000⟩] := by
  intro c last
  have harises : Arises c := (((Arises.empty.insert _).insert _).insert _).insert _
  have ha : triangle.analyse = .ok (.ofPattern triangle) := by decide +kernel
  have hinserted : (c.insert last).1 = .inserted 4 := by decide +kernel
  have hfits : ∀ m : PartialSolution Nat, m.part < triangle.length ∧
      m.binding.keys = triangle.varsAt m.part → triangle.Fits (.single m.part) m.binding := by
    rintro m ⟨hi, hkeys⟩
    exact fits_single_iff.2 ⟨hi, fun v => by rw [← ExtTreeMap.mem_keys, hkeys]⟩
  have hcached : ∀ m ∈ c.contentsOf 1, m.part < triangle.length ∧
      m.binding.keys = triangle.varsAt m.part := by
    decide +kernel
  have hfit : c.Fitting last.query triangle :=
    fun n m hn hquery => hfits m (hcached m (mem_contentsOf.2 ⟨⟨n, hn⟩, hquery⟩))
  have hlast : triangle.Fits (.single last.part) last.binding := hfits last (by decide +kernel)
  obtain ⟨⟨found, hfound, hperm, -⟩, -⟩ := addMatch_naive harises ha hfit hlast
    (by simp [hinserted]) {} 1000
  refine ⟨_, ha, hinserted, hfound.trans (congrArg some (List.perm_singleton.1 ?_))⟩
  exact hperm.trans (.of_eq (by decide +kernel))

end MatchCache

end StandingQuery
