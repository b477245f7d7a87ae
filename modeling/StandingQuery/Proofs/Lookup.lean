import Mathlib.Algebra.Group.Nat.Defs
import StandingQuery.Proofs.PatternIndex

/-! What a look-up finds.

An index is filled with the patterns of whole queries and emptied query by query or all
at once. What is indexed is then a list that grows at its end and is filtered, and the
index files exactly this list (`lists_perform`), provided that a query is taken out with
all the patterns it has there. A pattern admits a tuple if the tuple has the pattern's
signature under the mask of the pattern (`ofTuple_eq_ofPattern_iff`). A look-up tries every
mask in use and so comes to each of these patterns under one mask, its own
(`lookup_perm`). It finds what is indexed and admits the tuple, each once, and when nothing
is indexed both tables are empty (`finds_exactly`). -/
namespace StandingQuery
open Std

/-! ### Admission -/

/-- A constant admits itself, a variable every term. -/
def Slot.Admits : Slot → Term → Prop
  | .const c, t => c = t
  | .var _, _ => True

instance : ∀ (s : Slot) (t : Term), Decidable (s.Admits t)
  | .const c, t => inferInstanceAs (Decidable (c = t))
  | .var _, _ => inferInstanceAs (Decidable True)

namespace TuplePattern

variable {p : TuplePattern} {t : Tuple} {m : Binding}

/-- The tuple is as long as the pattern and has the constants of the pattern in their places. -/
def Admits (p : TuplePattern) (t : Tuple) : Prop :=
  p.arity = t.arity ∧ ∀ place ∈ p.slots.zip t.terms, place.1.Admits place.2

instance : Decidable (p.Admits t) := inferInstanceAs (Decidable (_ ∧ _))

theorem maskOf_lt (bits : List Bool) : maskOf bits < 2 ^ bits.length := by
  induction bits with
  | nil => exact Nat.one_pos
  | cons b bits ih =>
    have hbit := b.toNat_le
    rw [maskOf, List.length_cons, Nat.pow_succ]
    omega

theorem constantMask_lt (p : TuplePattern) : p.constantMask < 2 ^ p.arity := by
  have h := maskOf_lt (p.slots.map Slot.isConst)
  rwa [List.length_map] at h

end TuplePattern

namespace Signature
open TuplePattern

variable {p : TuplePattern} {t : Tuple} {m : Binding}

theorem select_eq_constants_iff {slots : List Slot} {terms : List Term}
    (h : slots.length = terms.length) :
    select (maskOf (slots.map Slot.isConst)) terms = slots.filterMap Slot.asTerm? ↔
      ∀ place ∈ slots.zip terms, place.1.Admits place.2 := by
  induction slots generalizing terms with
  | nil =>
    cases terms with
    | nil => simp [select]
    | cons t terms => cases h
  | cons s slots ih =>
    cases terms with
    | nil => cases h
    | cons t terms =>
      rw [List.map_cons, select_maskOf_cons, List.zip_cons_cons, List.forall_mem_cons,
        ← ih (Nat.succ.inj h)]
      cases s with
      | const c => simp [Slot.isConst, Slot.asTerm?, Slot.Admits, eq_comm]
      | var v => simp [Slot.isConst, Slot.asTerm?, Slot.Admits, List.filterMap_cons]

/-- The tuples with the signature of a pattern under its mask are those that it admits. -/
theorem ofTuple_eq_ofPattern_iff : ofTuple t p.constantMask = ofPattern p ↔ p.Admits t := by
  unfold ofTuple ofPattern Admits
  rw [mk.injEq, eq_self, true_and, eq_comm (a := t.arity)]
  exact and_congr_right select_eq_constants_iff

theorem admits_of_match? (h : p.match? t = some m) : p.Admits t :=
  ofTuple_eq_ofPattern_iff.1 (ofTuple_eq_ofPattern h)

end Signature

namespace PatternIndex

variable {x : PatternIndex} {t : Tuple} {query : QueryId} {g : GraphPattern}

/-! ### Looking up -/

/-- What is filed under one of several signatures of a tuple is filed under only one of them. -/
theorem flatMap_filter_perm (l : List Filing) (t : Tuple) {masks : List Nat} (h : masks.Nodup) :
    (masks.flatMap fun mask => l.filter (·.signature = .ofTuple t mask)).Perm
      (l.filter fun f => f.signature.mask ∈ masks ∧ f.signature = .ofTuple t f.signature.mask) := by
  induction masks with
  | nil => simp
  | cons mask masks ih =>
    obtain ⟨hmask, hmasks⟩ := List.nodup_cons.1 h
    rw [List.flatMap_cons]
    refine (List.Perm.append_left _ (ih hmasks)).trans ?_
    refine .trans (.of_eq ?_) (List.filter_append_perm (fun f => f.signature.mask = mask) _)
    rw [List.filter_filter, List.filter_filter]
    congr 1
    · refine List.filter_congr fun f _ => ?_
      rw [← Bool.decide_and, decide_eq_decide]
      constructor
      · intro hf
        rw [hf]
        exact ⟨rfl, List.mem_cons_self, rfl⟩
      · rintro ⟨rfl, -, hf⟩
        exact hf
    · refine List.filter_congr fun f _ => ?_
      rw [← decide_not, ← Bool.decide_and, decide_eq_decide, List.mem_cons]
      grind

/-- A look-up finds the filings under the tuple's signatures, each once. -/
theorem lookup_perm {l : List Filing} (h : x.Lists l) (t : Tuple) : (x.lookup t).Perm
    ((l.filter fun f => f.signature = .ofTuple t f.signature.mask).map Filing.ref) := by
  have hused : l.filter (fun f => f.signature.mask ∈ (x.masksOf t.arity).keys ∧
        f.signature = .ofTuple t f.signature.mask) =
      l.filter fun f => f.signature = .ofTuple t f.signature.mask := by
    refine List.filter_congr fun f hf => ?_
    rw [decide_eq_decide, and_iff_right_iff_imp]
    intro hs
    have harity : f.signature.arity = t.arity := by
      rw [hs]
      rfl
    exact (mem_masks h).2 ⟨f, hf, harity, rfl⟩
  unfold lookup
  simp only [h.entries]
  rw [← List.map_flatMap, ← hused]
  exact (flatMap_filter_perm l t (sorted_masks x t.arity).nodup).map _

/-! ### Filling and emptying -/

/-- What is done to a pattern index. -/
inductive Operation where
  | insert (query : QueryId) (g : GraphPattern)
  | remove (query : QueryId) (g : GraphPattern)
  | clear
deriving DecidableEq

/-- A pattern that is indexed. -/
structure Indexed where
  ref : PatternRef
  pattern : TuplePattern
deriving DecidableEq

namespace Indexed

def filing (e : Indexed) : Filing := ⟨e.ref, .ofPattern e.pattern⟩

/-- All patterns of a query, each under its place. -/
def ofQuery (query : QueryId) (g : GraphPattern) : List Indexed :=
  g.zipIdx.map fun (p, i) => ⟨⟨query, i⟩, p⟩

theorem map_filing_ofQuery (query : QueryId) (g : GraphPattern) :
    (ofQuery query g).map filing = filings query g := by
  unfold ofQuery filings
  rw [List.map_map]
  rfl

theorem map_ref_ofQuery (query : QueryId) (g : GraphPattern) :
    (ofQuery query g).map ref = (filings query g).map Filing.ref := by
  rw [← map_filing_ofQuery, List.map_map]
  rfl

end Indexed

namespace Operation

/-- What an operation makes of an index. -/
def perform (x : PatternIndex) : Operation → PatternIndex
  | .insert query g => x.insertQuery query g
  | .remove query g => x.removeQuery query g
  | .clear => .empty

/-- What is indexed after an operation. -/
def leaves (l : List Indexed) : Operation → List Indexed
  | .insert query g => l ++ Indexed.ofQuery query g
  | .remove query _ => l.filter (·.ref.query ≠ query)
  | .clear => []

/-- A query is taken out with all the patterns it has in the index. -/
def Whole (l : List Indexed) : Operation → Prop
  | .remove query g => ∀ e ∈ l, e.ref.query = query → e.pattern ∈ g
  | _ => True

/-- A query that is inserted is not in the index. -/
def Fresh (l : List Indexed) : Operation → Prop
  | .insert query _ => ∀ e ∈ l, e.ref.query ≠ query
  | _ => True

instance (l : List Indexed) : ∀ op : Operation, Decidable (op.Whole l)
  | .remove query g => inferInstanceAs (Decidable (∀ e ∈ l, e.ref.query = query → e.pattern ∈ g))
  | .insert _ _ | .clear => inferInstanceAs (Decidable True)

instance (l : List Indexed) : ∀ op : Operation, Decidable (op.Fresh l)
  | .insert query _ => inferInstanceAs (Decidable (∀ e ∈ l, e.ref.query ≠ query))
  | .remove _ _ | .clear => inferInstanceAs (Decidable True)

end Operation

/-- The index after operations on an empty one. -/
def run (ops : List Operation) : PatternIndex := ops.foldl Operation.perform .empty

/-- What is indexed after operations on an empty index, in the order of insertion. -/
def indexed (ops : List Operation) : List Indexed := ops.foldl Operation.leaves []

/-- Every operation meets `P` with what is indexed before it. -/
def Throughout (P : List Indexed → Operation → Prop) (l : List Indexed) : List Operation → Prop
  | [] => True
  | op :: ops => P l op ∧ Throughout P (op.leaves l) ops

instance (P : List Indexed → Operation → Prop) [∀ l op, Decidable (P l op)] :
    ∀ (l : List Indexed) (ops : List Operation), Decidable (Throughout P l ops)
  | _, [] => inferInstanceAs (Decidable True)
  | l, op :: ops =>
    have := instDecidableThroughout P (op.leaves l) ops
    inferInstanceAs (Decidable (_ ∧ _))

theorem lists_perform {l : List Indexed} {op : Operation} (h : x.Lists (l.map Indexed.filing))
    (hop : op.Whole l) : (op.perform x).Lists ((op.leaves l).map Indexed.filing) := by
  cases op with
  | insert query g =>
    rw [Operation.leaves, List.map_append, Indexed.map_filing_ofQuery]
    exact lists_insertQuery h query g
  | remove query g =>
    have hgone : (l.map Indexed.filing).filter (fun f => ¬ (f.ref.query = query ∧
          f.signature ∈ g.map Signature.ofPattern)) =
        (l.filter (·.ref.query ≠ query)).map Indexed.filing := by
      rw [List.filter_map]
      refine congrArg _ (List.filter_congr fun e he => ?_)
      -- The query has filed nothing but patterns of `g`.
      have hmem := hop e he
      rw [Function.comp_apply, decide_eq_decide, not_iff_not]
      exact ⟨And.left, fun hq => ⟨hq, List.mem_map_of_mem (hmem hq)⟩⟩
    rw [Operation.leaves, ← hgone]
    exact lists_removeQuery h query g
  | clear => exact lists_empty

theorem lists_run {ops : List Operation} (h : Throughout Operation.Whole [] ops) :
    (run ops).Lists ((indexed ops).map Indexed.filing) := by
  suffices ∀ (x : PatternIndex) (l : List Indexed), x.Lists (l.map Indexed.filing) →
      Throughout Operation.Whole l ops →
        (ops.foldl Operation.perform x).Lists ((ops.foldl Operation.leaves l).map Indexed.filing) from
    this .empty [] lists_empty h
  clear h
  induction ops with
  | nil => exact fun x l hl _ => hl
  | cons op ops ih =>
    rintro x l hl ⟨hop, hops⟩
    exact ih _ _ (lists_perform hl hop) hops

theorem nodup_leaves {l : List Indexed} {op : Operation} (h : (l.map Indexed.ref).Nodup)
    (hop : op.Fresh l) : ((op.leaves l).map Indexed.ref).Nodup := by
  cases op with
  | insert query g =>
    rw [Operation.leaves, List.map_append, Indexed.map_ref_ofQuery]
    refine h.append (nodup_filings query g) ?_
    rintro ref hold hnew
    obtain ⟨e, he, rfl⟩ := List.mem_map.1 hold
    obtain ⟨f, hf, hfe⟩ := List.mem_map.1 hnew
    exact hop e he (hfe ▸ (mem_filings.1 hf).1)
  | remove query g => exact h.sublist (List.filter_sublist.map _)
  | clear => exact .nil

theorem nodup_indexed {ops : List Operation} (h : Throughout Operation.Fresh [] ops) :
    ((indexed ops).map Indexed.ref).Nodup := by
  suffices ∀ l : List Indexed, (l.map Indexed.ref).Nodup → Throughout Operation.Fresh l ops →
      ((ops.foldl Operation.leaves l).map Indexed.ref).Nodup from this [] .nil h
  clear h
  induction ops with
  | nil => exact fun l hl _ => hl
  | cons op ops ih =>
    rintro l hl ⟨hop, hops⟩
    exact ih _ (nodup_leaves hl hop) hops

theorem eq_empty_of_lists (h : x.Lists []) : x = .empty := by
  have hentries : x.entries = ∅ := by
    refine ExtTreeMap.ext_getElem? fun s => ?_
    rw [ExtTreeMap.getElem?_empty]
    cases hs : x.entries[s]? with
    | none => rfl
    | some refs =>
      have hfind := h.entries s
      rw [find, hs] at hfind
      exact absurd hfind (h.tidyEntries s refs hs)
  have hmasks : x.masks = ∅ := by
    refine ExtTreeMap.ext_getElem? fun arity => ?_
    rw [ExtTreeMap.getElem?_empty]
    cases hm : x.masks[arity]? with
    | none => rfl
    | some m =>
      have hnone : m = ∅ := by
        refine ExtTreeMap.ext_getElem? fun mask => ?_
        have huses := h.masks arity mask
        rw [masksOf, hm] at huses
        rw [ExtTreeMap.getElem?_empty]
        exact huses
      have hsome := h.tidyMasks arity m hm
      rw [hnone] at hsome
      simp at hsome
  cases x
  cases hentries
  cases hmasks
  rfl

/-- Whatever queries have been inserted, in whatever order they have been taken out, each with its
patterns, and however often all has been cleared: a look-up finds the patterns that are indexed
and admit the tuple. It finds each of them once, if no query was inserted while it was in the
index. Matching what it finds is matching everything that is indexed. When nothing is indexed
any more, neither table holds anything. A mask has one bit for each place of its arity. -/
theorem finds_exactly (ops : List Operation) (h : Throughout Operation.Whole [] ops) :
    (∀ t, ((run ops).lookup t).Perm
      (((indexed ops).filter (·.pattern.Admits t)).map Indexed.ref)) ∧
      (Throughout Operation.Fresh [] ops → ∀ t, ((run ops).lookup t).Nodup) ∧
      (∀ t (patternOf : PatternRef → Option TuplePattern),
        (∀ e ∈ indexed ops, patternOf e.ref = some e.pattern) →
          (((run ops).lookup t).filterMap fun ref =>
            ((patternOf ref).bind (·.match? t)).map (ref, ·)).Perm
          ((indexed ops).filterMap fun e => (e.pattern.match? t).map (e.ref, ·))) ∧
      (indexed ops = [] → (run ops).entries = ∅ ∧ (run ops).masks = ∅) ∧
      ∀ arity mask, mask ∈ ((run ops).masksOf arity).keys → mask < 2 ^ arity := by
  have hlists := lists_run h
  have hfound : ∀ t, ((run ops).lookup t).Perm
      (((indexed ops).filter (·.pattern.Admits t)).map Indexed.ref) := by
    intro t
    refine (lookup_perm hlists t).trans (.of_eq ?_)
    rw [List.filter_map, List.map_map]
    refine congrArg _ (List.filter_congr fun e _ => ?_)
    rw [Function.comp_apply, decide_eq_decide, eq_comm]
    exact Signature.ofTuple_eq_ofPattern_iff
  refine ⟨hfound, fun hfresh t => ?_, fun t patternOf hpatterns => ?_, fun hnone => ?_,
    fun arity mask hmask => ?_⟩
  · exact (hfound t).nodup_iff.2 ((nodup_indexed hfresh).sublist (List.filter_sublist.map _))
  · refine ((hfound t).filterMap _).trans (.of_eq ?_)
    rw [List.filterMap_map, List.filterMap_filter]
    refine List.filterMap_congr fun e he => ?_
    -- What does not admit the tuple does not match it either.
    rw [Function.comp_apply, hpatterns e he, Option.bind_some]
    cases hm : e.pattern.match? t with
    | none => simp
    | some m => simp [Signature.admits_of_match? hm]
  · rw [hnone] at hlists
    rw [eq_empty_of_lists hlists]
    exact ⟨rfl, rfl⟩
  · obtain ⟨f, hf, rfl, rfl⟩ := (mem_masks hlists).1 hmask
    obtain ⟨e, -, rfl⟩ := List.mem_map.1 hf
    exact e.pattern.constantMask_lt

/-- Two queries share a mask and a signature, and the first one has two patterns there. With the
first one gone, the second one is still found. It has a variable twice, so matching refuses the
tuple that the look-up admits. -/
theorem finds_exactly_sharedMask :
    let g : GraphPattern := [⟨[.var ⟨"a"⟩, .const ⟨"p"⟩, .var ⟨"b"⟩]⟩,
      ⟨[.var ⟨"b"⟩, .const ⟨"p"⟩, .var ⟨"c"⟩]⟩, ⟨[.var ⟨"c"⟩, .const ⟨"q"⟩, .var ⟨"d"⟩]⟩]
    let loops : GraphPattern := [⟨[.var ⟨"a"⟩, .const ⟨"p"⟩, .var ⟨"a"⟩]⟩]
    let ops : List Operation := [.insert 1 g, .insert 2 loops, .remove 1 g]
    let t : Tuple := ⟨[⟨"x"⟩, ⟨"p"⟩, ⟨"y"⟩]⟩
    let patternOf (ref : PatternRef) := if ref = ⟨2, 0⟩ then loops[0]? else none
    (run ops).lookup t = [⟨2, 0⟩] ∧ ((run ops).lookup t).Nodup ∧
      (((run ops).lookup t).filterMap fun ref =>
        ((patternOf ref).bind (·.match? t)).map (ref, ·)) = [] ∧
      (run (ops ++ [.remove 2 loops])).entries = ∅ ∧ (run (ops ++ [.remove 2 loops])).masks = ∅ := by
  intro g loops ops t patternOf
  obtain ⟨hfound, hnodup, hmatched, -, -⟩ := finds_exactly ops (by decide)
  obtain ⟨-, -, -, hempty, -⟩ := finds_exactly (ops ++ [.remove 2 loops]) (by decide)
  refine ⟨?_, hnodup (by decide) t, ?_, hempty (by decide)⟩
  · exact List.perm_singleton.1 ((hfound t).trans (.of_eq (by decide)))
  · exact List.perm_nil.1 ((hmatched t patternOf (by decide)).trans (.of_eq (by decide +kernel)))

end PatternIndex

end StandingQuery
