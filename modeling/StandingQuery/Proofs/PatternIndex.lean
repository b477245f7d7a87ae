import Mathlib.Data.List.Sort
import StandingQuery.Proofs.Buckets
import StandingQuery.Proofs.Pattern

/-! What the pattern index files.

An index is determined by the list of what was filed in it, in order of insertion:
under each signature the patterns with that signature, and for each arity and mask
how many patterns have it (`Lists`). Filing appends to the list and taking a query
out filters it. A look-up finds what is filed under one of the tuple's signatures,
and what it finds of one query does not depend on what else is filed
(`filter_lookup`). -/
namespace StandingQuery
open Std

/-- A pattern of a query with the signature under which it is filed. -/
structure Filing where
  ref : PatternRef
  signature : Signature
deriving DecidableEq

/-- The filings of all patterns of a query. -/
def filings (query : QueryId) (g : GraphPattern) : List Filing :=
  g.zipIdx.map fun (p, i) => ⟨⟨query, i⟩, .ofPattern p⟩

theorem mem_filings {query : QueryId} {g : GraphPattern} {f : Filing} : f ∈ filings query g ↔
    f.ref.query = query ∧ ∃ p, g[f.ref.pattern]? = some p ∧ f.signature = .ofPattern p := by
  unfold filings
  rw [List.mem_map]
  constructor
  · intro ⟨⟨p, i⟩, hp, hf⟩
    subst hf
    exact ⟨rfl, p, List.mem_zipIdx_iff_getElem?.1 hp, rfl⟩
  · intro ⟨hq, p, hp, hs⟩
    refine ⟨(p, f.ref.pattern), List.mem_zipIdx_iff_getElem?.2 hp, ?_⟩
    show (⟨⟨query, f.ref.pattern⟩, .ofPattern p⟩ : Filing) = f
    rw [← hq, ← hs]

theorem nodup_filings (query : QueryId) (g : GraphPattern) :
    ((filings query g).map Filing.ref).Nodup := by
  have hrefs : (filings query g).map Filing.ref =
      (g.zipIdx.map Prod.snd).map fun i => ⟨query, i⟩ := by
    unfold filings
    rw [List.map_map, List.map_map]
    rfl
  rw [hrefs, List.zipIdx_map_snd]
  exact List.Nodup.map (fun i j h => congrArg PatternRef.pattern h) List.nodup_range'

namespace PatternIndex

variable {x y : PatternIndex} {l : List Filing} {f : Filing} {s : Signature}
variable {query : QueryId} {i arity mask n : Nat} {p : TuplePattern} {g : GraphPattern} {t : Tuple}

/-- A number that is not written down when it is zero. -/
def positive? (n : Nat) : Option Nat := if n = 0 then none else some n

/-- How many of the filings use a mask at an arity. -/
def uses (l : List Filing) (arity mask : Nat) : Nat :=
  l.countP fun f => f.signature.arity = arity ∧ f.signature.mask = mask

/-- The index holds the filings of `l`, in the order of `l`, and nothing else. -/
structure Lists (x : PatternIndex) (l : List Filing) : Prop where
  entries : ∀ s, x.find s = (l.filter (·.signature = s)).map Filing.ref
  tidyEntries : ∀ (s : Signature) (refs : List PatternRef), x.entries[s]? = some refs → refs ≠ []
  masks : ∀ arity mask, (x.masksOf arity)[mask]? = positive? (uses l arity mask)
  tidyMasks : ∀ (arity : Nat) (m : ExtTreeMap Nat Nat),
    x.masks[arity]? = some m → m.isEmpty = false

theorem lists_empty : Lists {} [] where
  entries s := by simp [find]
  tidyEntries s refs h := by simp at h
  masks arity mask := by simp [masksOf, uses, positive?]
  tidyMasks arity m h := by simp at h

theorem getD_of_positive {m : ExtTreeMap Nat Nat} (h : m[mask]? = positive? n) :
    m.getD mask 0 = n := by
  rw [ExtTreeMap.getD_eq_getD_getElem?, h, positive?]
  split
  · next h => exact h.symm
  · rfl

/-! ### Filing -/

theorem lists_insert (h : x.Lists l) (query : QueryId) (i : Nat) (p : TuplePattern) :
    (x.insert query i p).Lists (l ++ [⟨⟨query, i⟩, .ofPattern p⟩]) where
  entries s := by
    show ((x.entries.insert (.ofPattern p) (x.find (.ofPattern p) ++ [⟨query, i⟩]))[s]?).getD [] = _
    rw [ExtTreeMap.getElem?_insert, List.filter_append, List.map_append, ← h.entries]
    by_cases hs : Signature.ofPattern p = s
    · simp [hs]
    · simp [hs, find]
  tidyEntries s refs hs := by
    replace hs : (x.entries.insert (.ofPattern p)
      (x.find (.ofPattern p) ++ [⟨query, i⟩]))[s]? = some refs := hs
    rw [ExtTreeMap.getElem?_insert] at hs
    split at hs
    · cases hs
      simp
    · exact h.tidyEntries s refs hs
  masks arity mask := by
    have hold := getD_of_positive (h.masks p.arity p.constantMask)
    show (((x.masks.insert p.arity ((x.masksOf p.arity).insert p.constantMask
      ((x.masksOf p.arity).getD p.constantMask 0 + 1)))[arity]?).getD ∅)[mask]? = _
    rw [ExtTreeMap.getElem?_insert, hold]
    by_cases ha : p.arity = arity
    · subst ha
      simp only [ReflOrd.compare_self, if_true, Option.getD_some, ExtTreeMap.getElem?_insert]
      by_cases hm : p.constantMask = mask
      · subst hm
        simp [uses, positive?, Signature.ofPattern]
      · have hm' : ¬ compare p.constantMask mask = .eq := by simpa using hm
        rw [if_neg hm', h.masks]
        simp [uses, Signature.ofPattern, hm]
    · have ha' : ¬ compare p.arity arity = .eq := by simpa using ha
      rw [if_neg ha']
      show (x.masksOf arity)[mask]? = _
      rw [h.masks]
      simp [uses, Signature.ofPattern, ha]
  tidyMasks arity m hm := by
    replace hm : (x.masks.insert p.arity ((x.masksOf p.arity).insert p.constantMask
      ((x.masksOf p.arity).getD p.constantMask 0 + 1)))[arity]? = some m := hm
    rw [ExtTreeMap.getElem?_insert] at hm
    split at hm
    · cases hm
      simp
    · exact h.tidyMasks arity m hm

theorem lists_insertQuery (h : x.Lists l) (query : QueryId) (g : GraphPattern) :
    (x.insertQuery query g).Lists (l ++ filings query g) := by
  unfold insertQuery filings
  generalize g.zipIdx = places
  induction places generalizing x l with
  | nil =>
    rw [List.map_nil, List.append_nil]
    exact h
  | cons place places ih =>
    rw [List.foldl_cons, List.map_cons, List.append_cons]
    exact ih (lists_insert h query place.2 place.1)

/-! ### Taking out -/

/-- The filings without those of a query under a signature. -/
def without (l : List Filing) (query : QueryId) (s : Signature) : List Filing :=
  l.filter fun f => ¬ (f.ref.query = query ∧ f.signature = s)

theorem filter_without (s' : Signature) : (without l query s).filter (·.signature = s') =
    if s' = s then (l.filter (·.signature = s)).filter (·.ref.query ≠ query)
    else l.filter (·.signature = s') := by
  unfold without
  rw [List.filter_filter]
  by_cases hs : s' = s
  · subst hs
    rw [if_pos rfl, List.filter_filter]
    refine List.filter_congr fun f _ => ?_
    by_cases h : f.signature = s' <;> simp [h]
  · rw [if_neg hs]
    refine List.filter_congr fun f _ => ?_
    by_cases h : f.signature = s' <;> simp [h, hs]

/-- As many filings are taken out as the list of the signature gets shorter. -/
theorem length_sub_length (l : List Filing) (query : QueryId) (s : Signature) :
    (l.filter (·.signature = s)).length -
        ((l.filter (·.signature = s)).filter (·.ref.query ≠ query)).length =
      l.countP fun f => f.ref.query = query ∧ f.signature = s := by
  have hlen := List.length_eq_countP_add_countP (fun f : Filing => f.ref.query ≠ query)
    (l := l.filter (·.signature = s))
  have hmine : (l.filter (·.signature = s)).countP (fun f => ¬ decide (f.ref.query ≠ query) = true) =
      l.countP fun f => f.ref.query = query ∧ f.signature = s := by
    rw [List.countP_filter]
    refine List.countP_congr fun f _ => ?_
    simp
  rw [← List.countP_eq_length_filter (p := fun f : Filing => f.ref.query ≠ query)]
  omega

theorem uses_without (l : List Filing) (query : QueryId) (s : Signature) (arity mask : Nat) :
    uses (without l query s) arity mask = uses l arity mask -
      if s.arity = arity ∧ s.mask = mask then
        l.countP fun f => f.ref.query = query ∧ f.signature = s
      else 0 := by
  have hsplit := List.countP_eq_countP_filter_add l
    (fun f => f.signature.arity = arity ∧ f.signature.mask = mask)
    (fun f => ¬ (f.ref.query = query ∧ f.signature = s))
  have hgone : (l.filter fun f => !decide (¬ (f.ref.query = query ∧ f.signature = s))).countP
      (fun f => f.signature.arity = arity ∧ f.signature.mask = mask) =
      if s.arity = arity ∧ s.mask = mask then
        l.countP fun f => f.ref.query = query ∧ f.signature = s
      else 0 := by
    rw [List.countP_filter]
    split
    · next hs =>
      refine List.countP_congr fun f _ => ?_
      by_cases hf : f.signature = s <;> simp [hf, hs]
    · next hs =>
      refine List.countP_eq_zero.2 fun f _ => ?_
      by_cases hf : f.signature = s
      · simp only [hf, decide_not]
        simp
        exact fun ha hm => absurd ⟨ha, hm⟩ hs
      · simp [hf]
  unfold uses without
  omega

theorem masksOf_releaseMask (h : x.Lists l) (s : Signature) (count arity mask : Nat) :
    ((releaseMask x.masks s.arity s.mask count)[arity]?.getD ∅)[mask]? =
      positive? (uses l arity mask - if s.arity = arity ∧ s.mask = mask then count else 0) := by
  have hold := h.masks arity mask
  unfold releaseMask
  cases hs : x.masks[s.arity]? with
  | none =>
    have hnone := h.masks s.arity s.mask
    rw [masksOf, hs, Option.getD_none, ExtTreeMap.getElem?_empty] at hnone
    show (x.masksOf arity)[mask]? = _
    rw [hold]
    by_cases ham : s.arity = arity ∧ s.mask = mask
    · obtain ⟨rfl, rfl⟩ := ham
      have hzero : uses l s.arity s.mask = 0 := by
        unfold positive? at hnone
        split at hnone
        · assumption
        · cases hnone
      simp [hzero]
    · rw [if_neg ham, Nat.sub_zero]
  | some m =>
    have hm : x.masksOf s.arity = m := by rw [masksOf, hs, Option.getD_some]
    have hcount := getD_of_positive (h.masks s.arity s.mask)
    rw [hm] at hcount
    dsimp only
    rw [hcount]
    have hnew : ∀ k, (if uses l s.arity s.mask - count = 0 then m.erase s.mask
        else m.insert s.mask (uses l s.arity s.mask - count))[k]? =
        positive? (uses l s.arity k - if s.mask = k then count else 0) := by
      intro k
      have hk := h.masks s.arity k
      rw [hm] at hk
      by_cases hkm : s.mask = k
      · subst hkm
        rw [erase_or_insert_self, if_pos rfl]
        rfl
      · rw [erase_or_insert_of_ne hkm, if_neg hkm, Nat.sub_zero, hk]
    generalize hrest : (if uses l s.arity s.mask - count = 0 then m.erase s.mask
        else m.insert s.mask (uses l s.arity s.mask - count)) = rest at hnew ⊢
    by_cases ha : s.arity = arity
    · subst ha
      simp only [true_and]
      rw [← hnew, erase_or_insert_self]
      by_cases hempty : rest.isEmpty = true
      · rw [if_pos hempty, ExtTreeMap.isEmpty_iff.1 hempty]
        simp
      · rw [if_neg hempty]
        rfl
    · rw [erase_or_insert_of_ne ha]
      simp only [ha, false_and, if_false, Nat.sub_zero]
      exact hold

theorem tidy_releaseMask (h : x.Lists l) (s : Signature) (count : Nat) (arity : Nat)
    (m : ExtTreeMap Nat Nat) (hm : (releaseMask x.masks s.arity s.mask count)[arity]? = some m) :
    m.isEmpty = false := by
  unfold releaseMask at hm
  split at hm
  · exact h.tidyMasks arity m hm
  · next uses _ =>
    dsimp only at hm
    generalize (if uses.getD s.mask 0 - count = 0 then uses.erase s.mask
      else uses.insert s.mask (uses.getD s.mask 0 - count)) = rest at hm
    exact forall_erase_or_insert (P := fun m => m.isEmpty = false) h.tidyMasks
      (fun hempty => by simpa using hempty) hm

theorem lists_removePattern (h : x.Lists l) (query : QueryId) (p : TuplePattern) :
    (x.removePattern query p).Lists (without l query (.ofPattern p)) := by
  have hfind := h.entries (.ofPattern p)
  have hcount := length_sub_length l query (.ofPattern p)
  cases hs : x.entries[Signature.ofPattern p]? with
  | none =>
    rw [find, hs, Option.getD_none, eq_comm, List.map_eq_nil_iff, List.filter_eq_nil_iff] at hfind
    have hsame : without l query (.ofPattern p) = l := by
      refine List.filter_eq_self.2 fun f hf => decide_eq_true fun ⟨_, hsig⟩ => ?_
      exact hfind f hf (decide_eq_true hsig)
    have hx : x.removePattern query p = x := by simp only [removePattern, hs]
    rw [hsame, hx]
    exact h
  | some refs =>
    rw [find, hs, Option.getD_some] at hfind
    have hkept : refs.filter (·.query ≠ query) =
        ((l.filter (·.signature = .ofPattern p)).filter (·.ref.query ≠ query)).map Filing.ref := by
      rw [hfind, List.filter_map]
      rfl
    have hentries : ∀ s' : Signature, ((if (refs.filter (·.query ≠ query)).isEmpty
        then x.entries.erase (.ofPattern p)
        else x.entries.insert (.ofPattern p) (refs.filter (·.query ≠ query)))[s']?).getD [] =
        ((without l query (.ofPattern p)).filter (·.signature = s')).map Filing.ref := by
      intro s'
      rw [filter_without]
      by_cases hs' : s' = .ofPattern p
      · subst hs'
        rw [erase_or_insert_self, if_pos rfl, ← hkept]
        split
        · next hempty => exact (List.isEmpty_iff.1 hempty).symm
        · rfl
      · rw [erase_or_insert_of_ne (Ne.symm hs'), if_neg hs', ← h.entries]
        rfl
    have htidy : ∀ (s' : Signature) (refs' : List PatternRef),
        (if (refs.filter (·.query ≠ query)).isEmpty then x.entries.erase (.ofPattern p)
        else x.entries.insert (.ofPattern p) (refs.filter (·.query ≠ query)))[s']? = some refs' →
          refs' ≠ [] := fun s' refs' hs' =>
      forall_erase_or_insert (P := fun refs => refs ≠ []) h.tidyEntries
        (fun hne => by simpa [List.isEmpty_iff] using hne) hs'
    have hgone : refs.length - (refs.filter (·.query ≠ query)).length =
        l.countP fun f => f.ref.query = query ∧ f.signature = .ofPattern p := by
      rw [hkept, List.length_map, hfind, List.length_map, hcount]
    simp only [removePattern, hs]
    split
    · next hlen =>
      refine ⟨hentries, htidy, fun arity mask => ?_, h.tidyMasks⟩
      rw [uses_without, ← hgone, hlen, Nat.sub_self, ite_self, Nat.sub_zero]
      exact h.masks arity mask
    · refine ⟨hentries, htidy, fun arity mask => ?_, fun arity m => tidy_releaseMask h _ _ arity m⟩
      rw [uses_without, ← hgone]
      exact masksOf_releaseMask h (.ofPattern p) _ arity mask

theorem lists_removeQuery (h : x.Lists l) (query : QueryId) (g : GraphPattern) :
    (x.removeQuery query g).Lists
      (l.filter fun f => ¬ (f.ref.query = query ∧ f.signature ∈ g.map Signature.ofPattern)) := by
  unfold removeQuery
  induction g generalizing x l with
  | nil =>
    have : (l.filter fun f => ¬ (f.ref.query = query ∧ f.signature ∈ [].map Signature.ofPattern)) = l :=
      List.filter_eq_self.2 fun f _ => by simp
    rw [this]
    exact h
  | cons p g ih =>
    have := ih (lists_removePattern h query p)
    unfold without at this
    rw [List.filter_filter] at this
    rw [List.foldl_cons]
    convert this using 2
    funext f
    by_cases hq : f.ref.query = query <;> simp [hq, Bool.and_comm]

/-! ### Looking up -/

theorem mem_masks (h : x.Lists l) :
    mask ∈ (x.masksOf arity).keys ↔ ∃ f ∈ l, f.signature.arity = arity ∧ f.signature.mask = mask := by
  rw [ExtTreeMap.mem_keys, ExtTreeMap.mem_iff_isSome_getElem?, h.masks]
  unfold positive?
  have hzero : uses l arity mask = 0 ↔ ∀ f ∈ l, ¬ (f.signature.arity = arity ∧ f.signature.mask = mask) := by
    unfold uses
    rw [List.countP_eq_zero]
    simp
  by_cases huses : uses l arity mask = 0
  · rw [if_pos huses]
    rw [hzero] at huses
    exact iff_of_false (by simp) fun ⟨f, hf, hm⟩ => huses f hf hm
  · rw [if_neg huses]
    rw [hzero] at huses
    push Not at huses
    exact iff_of_true rfl huses

/-- A look-up finds what is filed under the tuple's signature for the mask it was filed with. -/
theorem mem_lookup (h : x.Lists l) {ref : PatternRef} :
    ref ∈ x.lookup t ↔ ∃ f ∈ l, f.ref = ref ∧ f.signature = .ofTuple t f.signature.mask := by
  unfold lookup
  rw [List.mem_flatMap]
  constructor
  · intro ⟨mask, _, hf⟩
    rw [h.entries, List.mem_map] at hf
    obtain ⟨f, hf, href⟩ := hf
    obtain ⟨hf, hs⟩ := List.mem_filter.1 hf
    have hs := of_decide_eq_true hs
    refine ⟨f, hf, href, ?_⟩
    rw [hs]
    rfl
  · intro ⟨f, hf, href, hs⟩
    have harity : f.signature.arity = t.arity := by
      rw [hs]
      rfl
    refine ⟨f.signature.mask, (mem_masks h).2 ⟨f, hf, harity, rfl⟩, ?_⟩
    rw [h.entries, List.mem_map]
    exact ⟨f, List.mem_filter.2 ⟨hf, decide_eq_true hs⟩, href⟩

theorem sorted_masks (x : PatternIndex) (arity : Nat) : (x.masksOf arity).keys.SortedLT := by
  refine List.Pairwise.sortedLT (ExtTreeMap.ordered_keys.imp fun h => ?_)
  exact Nat.compare_eq_lt.1 h

/-- What is found of one query is what would be found if it were filed alone. -/
theorem filter_lookup (hx : x.Lists l) (hy : y.Lists (l.filter (·.ref.query = query))) :
    (x.lookup t).filter (·.query = query) = y.lookup t := by
  have hfind : ∀ s, (x.find s).filter (·.query = query) = y.find s := by
    intro s
    rw [hx.entries, hy.entries, List.filter_map, List.filter_filter, List.filter_filter]
    congr 1
    refine List.filter_congr fun f _ => ?_
    exact Bool.and_comm _ _
  -- The masks of other queries contribute nothing.
  have hmasks : (y.masksOf t.arity).keys =
      (x.masksOf t.arity).keys.filter (· ∈ (y.masksOf t.arity).keys) := by
    refine List.SortedLT.eq_of_mem_iff (sorted_masks _ _)
      ((sorted_masks _ _).pairwise.filter _).sortedLT fun mask => ?_
    rw [List.mem_filter, decide_eq_true_eq, iff_and_self]
    intro hmask
    obtain ⟨f, hf, hm⟩ := (mem_masks hy).1 hmask
    exact (mem_masks hx).2 ⟨f, (List.mem_filter.1 hf).1, hm⟩
  have hnone : ∀ mask, mask ∉ (y.masksOf t.arity).keys → y.find (.ofTuple t mask) = [] := by
    intro mask hmask
    rw [hy.entries, List.map_eq_nil_iff, List.filter_eq_nil_iff]
    intro f hf hs
    have hs := of_decide_eq_true hs
    exact hmask ((mem_masks hy).2 ⟨f, hf, by rw [hs]; rfl, by rw [hs]; rfl⟩)
  unfold lookup
  rw [List.filter_flatMap, hmasks]
  generalize (x.masksOf t.arity).keys = masks
  induction masks with
  | nil => rfl
  | cons mask masks ih =>
    rw [List.flatMap_cons, hfind, ih, List.filter_cons]
    split
    · rfl
    · next hmask =>
      rw [hnone mask (by simpa using hmask)]
      rfl

end PatternIndex

end StandingQuery
