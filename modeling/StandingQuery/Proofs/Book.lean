import Mathlib.Data.Finset.Lattice.Fold
import StandingQuery.Proofs.Connectivity
import StandingQuery.Proofs.Lifetime

/-! How long joins live.

A *book* says for every pattern of a query and every binding of it how long a match
of the pattern with that binding lives. A binding that `Fits` a connected part of the
query is made of one match for each pattern of the part, and lives as long as all of
them do (`joinLife`). Joining two parts takes the minimum of their lives
(`joinLife_merge`), and a new match for one pattern changes the lives of the
bindings that contain it, and of no others (`joinLife_hit`). -/
namespace StandingQuery
open Std

namespace Binding

variable {b m : Binding} {bs : List Binding} {v : Variable} {t : Term}

/-- The merge of a list of bindings. -/
def mergeAll (bs : List Binding) : Binding := bs.foldr merge ∅

theorem mem_mergeAll : v ∈ mergeAll bs ↔ ∃ b ∈ bs, v ∈ b := by
  induction bs with
  | nil => simp [mergeAll]
  | cons b bs ih =>
    show v ∈ b.merge (mergeAll bs) ↔ _
    rw [mem_merge, ih]
    simp

/-- A merge of compatible bindings binds as each of them does. -/
theorem lookup_mergeAll (hc : ∀ a ∈ bs, ∀ b ∈ bs, a.compatible b = true) (hb : b ∈ bs)
    (ht : b[v]? = some t) : (mergeAll bs)[v]? = some t := by
  induction bs with
  | nil => cases hb
  | cons a bs ih =>
    show (a.merge (mergeAll bs))[v]? = some t
    rw [lookup_merge]
    cases hs : a[v]? with
    | some s =>
      rw [Option.some_or, compatible_iff.1 (hc a List.mem_cons_self b hb) v s t hs ht]
    | none =>
      rw [Option.none_or]
      refine ih (fun a ha b hb => hc a (List.mem_cons_of_mem _ ha) b (List.mem_cons_of_mem _ hb)) ?_
      rcases List.mem_cons.1 hb with hba | hb
      · rw [hba, hs] at ht
        cases ht
      · exact hb

end Binding

/-- For each pattern and binding, how long a match of the pattern with the binding lives. -/
abbrev Book := Nat → Binding → Life

namespace Book

/-- Pattern `i` has been matched with `m` by something that expires at `e`. -/
def hit (L : Book) (i : Nat) (m : Binding) (e : Expiration) : Book :=
  fun j n => if j = i ∧ n = m then L j n ⊔ e else L j n

variable {L : Book} {i j : Nat} {m n : Binding} {e : Expiration}

theorem hit_self : L.hit i m e i m = L i m ⊔ e := if_pos ⟨rfl, rfl⟩

theorem hit_of_ne (h : ¬ (j = i ∧ n = m)) : L.hit i m e j n = L j n := if_neg h

theorem le_hit : L j n ≤ L.hit i m e j n := by
  unfold hit
  split
  · exact le_sup_left
  · exact le_rfl

end Book

namespace GraphPattern

/-- The binding binds the variables of the patterns in `P`, and no others. -/
def Binds (g : GraphPattern) (P : PatternSet) (b : Binding) : Prop :=
  ∀ v, v ∈ b ↔ ∃ i ∈ P, v ∈ g.varsAt i

/-- A binding of the connected part `P` of a query: it binds the variables of `P` and no others. -/
structure Fits (g : GraphPattern) (P : PatternSet) (b : Binding) : Prop where
  connected : g.Connected P
  domain : ∀ v, v ∈ b ↔ ∃ i ∈ P, v ∈ g.varsAt i

/-- The match of pattern `i` in a binding. -/
def portion (g : GraphPattern) (b : Binding) (i : Nat) : Binding := b.project (g.varsAt i)

/-- The variables of a part of the query. -/
def varsIn (g : GraphPattern) (P : PatternSet) : List Variable := P.indices.flatMap g.varsAt

/-- How long a binding of a part lives: as long as its matches. -/
def joinLife (g : GraphPattern) (L : Book) (P : PatternSet) (b : Binding) : Life :=
  P.members.inf fun i => L i (g.portion b i)

/-- How long a binding lives if the match of pattern `i` is left out. -/
def restLife (g : GraphPattern) (L : Book) (P : PatternSet) (i : Nat) (b : Binding) : Life :=
  (P.members.erase i).inf fun j => L j (g.portion b j)

/-- How long a binding lives by a new match of pattern `i` that expires at `e`. -/
def freshLife (g : GraphPattern) (L : Book) (P : PatternSet) (i : Nat) (e : Expiration)
    (b : Binding) : Life :=
  e ⊓ g.restLife L P i b

variable {g : GraphPattern} {P Q : PatternSet} {b c m : Binding} {i j : Nat} {L L' : Book}
variable {e : Expiration} {v : Variable}

/-! ### Bindings that fit -/

theorem Binds.merge (hb : g.Binds P b) (hc : g.Binds Q c) : g.Binds (P ∪ Q) (b.merge c) := by
  intro v
  rw [Binding.mem_merge, hb v, hc v]
  simp only [PatternSet.mem_union, or_and_right, exists_or]

theorem mem_varsIn : v ∈ g.varsIn P ↔ ∃ i ∈ P, v ∈ g.varsAt i := by
  simp [varsIn]

theorem fits_single_iff : g.Fits (.single i) m ↔ i < g.length ∧ ∀ v, v ∈ m ↔ v ∈ g.varsAt i := by
  constructor
  · intro h
    exact ⟨h.connected.inRange i (by simp), fun v => by rw [h.domain]; simp⟩
  · intro ⟨hi, hm⟩
    exact ⟨connected_single hi, fun v => by rw [hm]; simp⟩

theorem fits_of_match? {p : TuplePattern} {t : Tuple} (hp : g[i]? = some p)
    (hm : p.match? t = some m) : g.Fits (.single i) m := by
  refine fits_single_iff.2 ⟨(List.getElem?_eq_some_iff.1 hp).1, fun v => ?_⟩
  rw [varsAt_of_getElem? hp, TuplePattern.mem_of_match? hm]

theorem Fits.varsAt_subset (h : g.Fits P b) (hi : i ∈ P) : ∀ v ∈ g.varsAt i, v ∈ b :=
  fun v hv => (h.domain v).2 ⟨i, hi, hv⟩

theorem Fits.portion_single (h : g.Fits (.single i) m) : g.portion m i = m :=
  Binding.project_eq_self fun v hv => by simpa using (h.domain v).1 hv

theorem Fits.portion (h : g.Fits P b) (hi : i ∈ P) : g.Fits (.single i) (g.portion b i) := by
  refine fits_single_iff.2 ⟨h.connected.inRange i hi, fun v => ?_⟩
  rw [GraphPattern.portion, Binding.mem_project, and_iff_left_iff_imp]
  exact h.varsAt_subset hi v

theorem Fits.portion_merge_left (h : g.Fits P b) (hi : i ∈ P) :
    g.portion (b.merge c) i = g.portion b i :=
  Binding.project_merge_left (h.varsAt_subset hi)

theorem Fits.portion_merge_right (h : g.Fits Q c) (hc : b.compatible c = true) (hi : i ∈ Q) :
    g.portion (b.merge c) i = g.portion c i :=
  Binding.project_merge_right hc (h.varsAt_subset hi)

/-- Linked parts with compatible bindings make a larger part with the merged binding. -/
theorem Fits.merge (hb : g.Fits P b) (hc : g.Fits Q c) (hi : i ∈ P) (hj : j ∈ Q)
    (hij : g.Linked i j) : g.Fits (P ∪ Q) (b.merge c) where
  connected := hb.connected.union hc.connected hi hj hij
  domain := Binds.merge hb.domain hc.domain

/-- What a binding of a larger part binds of a connected smaller one. -/
theorem Fits.project (h : g.Fits (P ∪ Q) b) (hP : g.Connected P) :
    g.Fits P (b.project (g.varsIn P)) where
  connected := hP
  domain v := by
    rw [Binding.mem_project, mem_varsIn, h.domain, and_iff_left_iff_imp]
    intro ⟨i, hi, hv⟩
    exact ⟨i, PatternSet.mem_union.2 (.inl hi), hv⟩

theorem portion_project (hi : i ∈ P) : g.portion (b.project (g.varsIn P)) i = g.portion b i :=
  Binding.project_project_of_subset fun _ hv => mem_varsIn.2 ⟨i, hi, hv⟩

/-- A binding of a part and one more pattern is the merge of what it binds of the two. -/
theorem Fits.merge_portion (h : g.Fits (P ∪ .single j) b) :
    (b.project (g.varsIn P)).merge (g.portion b j) = b := by
  rw [GraphPattern.portion, Binding.merge_project]
  refine Binding.project_eq_self fun v hv => ?_
  obtain ⟨i, hi, hv⟩ := (h.domain v).1 hv
  rcases PatternSet.mem_union.1 hi with hi | hi
  · exact List.mem_append_left _ (mem_varsIn.2 ⟨i, hi, hv⟩)
  · rw [PatternSet.mem_single.1 hi] at hv
    exact List.mem_append_right _ hv

/-- A binding is determined by its matches. -/
theorem Fits.eq_of_portion (hb : g.Fits P b) (hc : g.Fits P c)
    (h : ∀ i ∈ P, g.portion b i = g.portion c i) : b = c := by
  refine Binding.ext_lookup fun v => ?_
  by_cases hv : v ∈ b
  · obtain ⟨i, hi, hvi⟩ := (hb.domain v).1 hv
    have hvi' := congrArg (fun m : Binding => m[v]?) (h i hi)
    simpa [GraphPattern.portion, hvi] using hvi'
  · rw [Binding.lookup_eq_none.2 hv, eq_comm, Binding.lookup_eq_none, hc.domain, ← hb.domain]
    exact hv

/-! ### Lives of joins -/

theorem joinLife_single : g.joinLife L (.single i) b = L i (g.portion b i) := by
  rw [joinLife, PatternSet.members_single, Finset.inf_singleton]

theorem Fits.joinLife_single (h : g.Fits (.single i) m) : g.joinLife L (.single i) m = L i m := by
  rw [GraphPattern.joinLife_single, h.portion_single]

theorem joinLife_union : g.joinLife L (P ∪ Q) b = g.joinLife L P b ⊓ g.joinLife L Q b := by
  rw [joinLife, PatternSet.members_union, Finset.inf_union]
  rfl

theorem joinLife_congr (h : ∀ i ∈ P, L i (g.portion b i) = L' i (g.portion c i)) :
    g.joinLife L P b = g.joinLife L' P c :=
  Finset.inf_congr rfl fun i hi => h i (PatternSet.mem_members.1 hi)

theorem joinLife_le (hi : i ∈ P) : g.joinLife L P b ≤ L i (g.portion b i) :=
  Finset.inf_le (PatternSet.mem_members.2 hi)

theorem joinLife_mono (h : ∀ i m, L i m ≤ L' i m) : g.joinLife L P b ≤ g.joinLife L' P b :=
  Finset.inf_mono_fun fun i _ => h i _

/-- The minimum is attained. -/
theorem exists_joinLife_eq (hi : i ∈ P) : ∃ j ∈ P, g.joinLife L P b = L j (g.portion b j) := by
  obtain ⟨j, hj, h⟩ := Finset.exists_mem_eq_inf P.members ⟨i, PatternSet.mem_members.2 hi⟩
    fun i => L i (g.portion b i)
  exact ⟨j, PatternSet.mem_members.1 hj, h⟩

theorem joinLife_merge (hb : g.Fits P b) (hc : g.Fits Q c) (h : b.compatible c = true) :
    g.joinLife L (P ∪ Q) (b.merge c) = g.joinLife L P b ⊓ g.joinLife L Q c := by
  rw [joinLife_union]
  congr 1
  · exact joinLife_congr fun i hi => by rw [hb.portion_merge_left hi]
  · exact joinLife_congr fun i hi => by rw [hc.portion_merge_right h hi]

theorem joinLife_eq_inf_restLife (hi : i ∈ P) :
    g.joinLife L P b = L i (g.portion b i) ⊓ g.restLife L P i b := by
  have hinsert := Finset.inf_insert (s := P.members.erase i) (b := i)
    (f := fun j => L j (g.portion b j))
  rw [Finset.insert_erase (PatternSet.mem_members.2 hi)] at hinsert
  exact hinsert

/-! ### Lives after a match -/

theorem restLife_hit : g.restLife (L.hit i m e) P i b = g.restLife L P i b :=
  Finset.inf_congr rfl fun _ hj => Book.hit_of_ne fun hit => Finset.ne_of_mem_erase hj hit.1

/-- The bindings that contain a new match live as long as before or by the new match. -/
theorem joinLife_hit (hi : i ∈ P) (hm : g.portion b i = m) :
    g.joinLife (L.hit i m e) P b = g.joinLife L P b ⊔ g.freshLife L P i e b := by
  rw [joinLife_eq_inf_restLife hi, restLife_hit, hm, Book.hit_self, joinLife_eq_inf_restLife hi, hm,
    freshLife, inf_sup_right]

/-- A match changes nothing about the bindings that do not contain it. -/
theorem joinLife_hit_of_not (h : ¬ (i ∈ P ∧ g.portion b i = m)) :
    g.joinLife (L.hit i m e) P b = g.joinLife L P b :=
  joinLife_congr fun _ hj => Book.hit_of_ne fun hit => h ⟨hit.1 ▸ hj, hit.1 ▸ hit.2⟩

theorem freshLife_single : g.freshLife L (.single i) i e b = e := by
  simp [freshLife, restLife, PatternSet.members_single]

/-- Joining a new match with something older takes the minimum of the two. -/
theorem freshLife_merge (hb : g.Fits P b) (hc : g.Fits Q c) (h : b.compatible c = true)
    (hi : i ∈ P) (hdisjoint : ∀ j ∈ Q, j ∉ P) :
    g.freshLife L (P ∪ Q) i e (b.merge c) = g.freshLife L P i e b ⊓ g.joinLife L Q c := by
  have hmembers : (P ∪ Q).members.erase i = P.members.erase i ∪ Q.members := by
    rw [PatternSet.members_union, Finset.erase_union_distrib, Finset.erase_eq_of_notMem (s := Q.members)]
    exact fun hiQ => hdisjoint i (PatternSet.mem_members.1 hiQ) hi
  have hleft : (P.members.erase i).inf (fun j => L j (g.portion (b.merge c) j)) =
      g.restLife L P i b :=
    Finset.inf_congr rfl fun j hj => by
      rw [hb.portion_merge_left (PatternSet.mem_members.1 (Finset.mem_of_mem_erase hj))]
  have hright : Q.members.inf (fun j => L j (g.portion (b.merge c) j)) = g.joinLife L Q c :=
    Finset.inf_congr rfl fun j hj => by
      rw [hc.portion_merge_right h (PatternSet.mem_members.1 hj)]
  rw [freshLife, restLife, hmembers, Finset.inf_union, hleft, hright, freshLife, inf_assoc]

theorem freshLife_le_joinLife_hit (hi : i ∈ P) (hm : g.portion b i = m) :
    g.freshLife L P i e b ≤ g.joinLife (L.hit i m e) P b := by
  rw [joinLife_hit hi hm]
  exact le_sup_right

theorem joinLife_le_hit : g.joinLife L P b ≤ g.joinLife (L.hit i m e) P b :=
  joinLife_mono fun _ _ => Book.le_hit

/-! ### Choices of matches -/

/-- `b` is the merge of the bindings chosen for the patterns `is`, any two of them compatible. -/
structure Merges (is : List Nat) (ms : Nat → Binding) (b : Binding) : Prop where
  compatible : ∀ i ∈ is, ∀ j ∈ is, (ms i).compatible (ms j) = true
  merged : b = Binding.mergeAll (is.map ms)

theorem Merges.portion {is : List Nat} {ms : Nat → Binding} (h : Merges is ms b)
    (hdom : ∀ i ∈ is, ∀ v, v ∈ ms i ↔ v ∈ g.varsAt i) (hi : i ∈ is) : g.portion b i = ms i := by
  refine Binding.ext_lookup fun v => ?_
  rw [GraphPattern.portion, Binding.lookup_project]
  by_cases hv : v ∈ g.varsAt i
  · obtain ⟨t, ht⟩ := Binding.mem_iff_lookup.1 ((hdom i hi v).2 hv)
    rw [if_pos hv, ht, h.merged]
    refine Binding.lookup_mergeAll (fun a ha b hb => ?_) (List.mem_map_of_mem hi) ht
    obtain ⟨k, hk, rfl⟩ := List.mem_map.1 ha
    obtain ⟨l, hl, rfl⟩ := List.mem_map.1 hb
    exact h.compatible k hk l hl
  · rw [if_neg hv, eq_comm, Binding.lookup_eq_none, hdom i hi]
    exact hv

/-- Choosing a match for each pattern of a connected part gives a binding that fits. -/
theorem Merges.fits {is : List Nat} {ms : Nat → Binding} (h : Merges is ms b)
    (hdom : ∀ i ∈ is, ∀ v, v ∈ ms i ↔ v ∈ g.varsAt i) (hP : g.Connected P)
    (his : ∀ i, i ∈ is ↔ i ∈ P) : g.Fits P b where
  connected := hP
  domain v := by
    rw [h.merged, Binding.mem_mergeAll]
    constructor
    · intro ⟨m, hm, hv⟩
      obtain ⟨i, hi, rfl⟩ := List.mem_map.1 hm
      exact ⟨i, (his i).1 hi, (hdom i hi v).1 hv⟩
    · intro ⟨i, hi, hv⟩
      have hi := (his i).2 hi
      exact ⟨ms i, List.mem_map_of_mem hi, (hdom i hi v).2 hv⟩

/-- A binding that fits is the merge of its matches. -/
theorem Fits.merges {is : List Nat} (h : g.Fits P b) (his : ∀ i, i ∈ is ↔ i ∈ P) :
    Merges is (g.portion b) b := by
  have hc : ∀ i ∈ is, ∀ j ∈ is, (g.portion b i).compatible (g.portion b j) = true :=
    fun i _ j _ => Binding.compatible_project b _ _
  have hdom : ∀ i ∈ is, ∀ v, v ∈ g.portion b i ↔ v ∈ g.varsAt i := fun i hi =>
    (fits_single_iff.1 (h.portion ((his i).1 hi))).2
  have hm : Merges is (g.portion b) (Binding.mergeAll (is.map (g.portion b))) := ⟨hc, rfl⟩
  have hb := (hm.fits hdom h.connected his).eq_of_portion h fun i hi => hm.portion hdom ((his i).2 hi)
  exact ⟨hc, hb.symm⟩

end GraphPattern

end StandingQuery
