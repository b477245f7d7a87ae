import StandingQuery.Index.PatternIndex
import StandingQuery.Proofs.Binding

/-! Matching is the inverse of instantiating.

A pattern matches a tuple with a binding exactly when the binding binds the
variables of the pattern and no others and turns the pattern into the tuple
(`match?_eq_some_iff`). So a match is determined by any binding that contains it
(`instantiate_eq_some_iff`), the tuple can be told from its match (`match?_inverse`), and
a tuple that a pattern matches has the signature under which the pattern is filed
(`ofTuple_eq_ofPattern`). -/
namespace StandingQuery
open Std

namespace TuplePattern

variable {p : TuplePattern} {t : Tuple} {b m : Binding} {v : Variable}

theorem mem_vars : v ∈ p.vars ↔ .var v ∈ p.slots := by
  unfold vars
  rw [ExtTreeSet.mem_toList, ExtTreeSet.mem_ofList, List.contains_iff_mem, List.mem_filterMap]
  constructor
  · rintro ⟨s, hs, h⟩
    cases s with
    | var w =>
      cases h
      exact hs
    | const c => cases h
  · exact fun h => ⟨.var v, h, rfl⟩

/-! ### Matching place by place -/

theorem resolve_cons_iff {s : Slot} {slots : List Slot} {t : Term} {terms : List Term} :
    (s :: slots).mapM (Slot.resolve m) = some (t :: terms) ↔
      s.resolve m = some t ∧ slots.mapM (Slot.resolve m) = some terms := by
  rw [List.mapM_cons]
  cases s.resolve m <;> cases slots.mapM (Slot.resolve m) <;> simp

theorem resolve_cons_ne_nil {s : Slot} {slots : List Slot} :
    (s :: slots).mapM (Slot.resolve m) ≠ some [] := by
  rw [List.mapM_cons]
  cases s.resolve m <;> cases slots.mapM (Slot.resolve m) <;> simp

/-- `m` binds what `b` binds and the variables of `slots`, and makes `terms` of the slots. -/
def Extends (b m : Binding) (slots : List Slot) (terms : List Term) : Prop :=
  (∀ (v : Variable) (t : Term), b[v]? = some t → m[v]? = some t) ∧
    (∀ v, v ∈ m ↔ v ∈ b ∨ .var v ∈ slots) ∧ slots.mapM (Slot.resolve m) = some terms

theorem extends_nil_iff {terms : List Term} : Extends b m [] terms ↔ b = m ∧ terms = [] := by
  constructor
  · rintro ⟨hsub, hdom, hres⟩
    refine ⟨Binding.ext_lookup fun v => ?_, (Option.some.inj hres).symm⟩
    cases hb : b[v]? with
    | some t => rw [hsub v t hb]
    | none =>
      rw [eq_comm, Binding.lookup_eq_none, hdom, not_or]
      exact ⟨Binding.lookup_eq_none.1 hb, List.not_mem_nil⟩
  · rintro ⟨rfl, rfl⟩
    exact ⟨fun _ _ h => h, by simp, rfl⟩

theorem extends_const_iff {c t : Term} {slots : List Slot} {terms : List Term} :
    Extends b m (.const c :: slots) (t :: terms) ↔ c = t ∧ Extends b m slots terms := by
  unfold Extends
  rw [resolve_cons_iff]
  simp only [Slot.resolve, Option.some.injEq, List.mem_cons, reduceCtorEq, false_or]
  exact ⟨fun ⟨h1, h2, h, h3⟩ => ⟨h, h1, h2, h3⟩, fun ⟨h, h1, h2, h3⟩ => ⟨h1, h2, h, h3⟩⟩

/-- A variable that is bound already has to be bound to the term in its place. -/
theorem extends_bound_iff {s t : Term} {slots : List Slot} {terms : List Term}
    (hs : b[v]? = some s) :
    Extends b m (.var v :: slots) (t :: terms) ↔ s = t ∧ Extends b m slots terms := by
  have hv : v ∈ b := Binding.mem_iff_lookup.2 ⟨s, hs⟩
  unfold Extends
  rw [resolve_cons_iff]
  constructor
  · rintro ⟨h1, h2, h, h3⟩
    refine ⟨Option.some.inj ((h1 v s hs).symm.trans h), h1, fun w => ?_, h3⟩
    rw [h2, List.mem_cons, Slot.var.injEq]
    exact ⟨fun h => h.elim .inl (·.elim (fun e => .inl (e ▸ hv)) .inr), (·.imp_right .inr)⟩
  · rintro ⟨rfl, h1, h2, h3⟩
    refine ⟨h1, fun w => ?_, h1 v s hs, h3⟩
    rw [h2, List.mem_cons, Slot.var.injEq]
    exact ⟨(·.imp_right .inr), fun h => h.elim .inl (·.elim (fun e => .inl (e ▸ hv)) .inr)⟩

/-- A variable that is not bound yet is bound to the term in its place. -/
theorem extends_fresh_iff {t : Term} {slots : List Slot} {terms : List Term} (hv : b[v]? = none) :
    Extends b m (.var v :: slots) (t :: terms) ↔ Extends (b.insert v t) m slots terms := by
  unfold Extends
  rw [resolve_cons_iff]
  have hdom : ∀ w, (w ∈ b.insert v t ∨ .var w ∈ slots) ↔ w ∈ b ∨ .var w ∈ Slot.var v :: slots := by
    intro w
    rw [Binding.mem_insert, List.mem_cons, Slot.var.injEq, or_assoc, or_left_comm]
  simp only [hdom]
  constructor
  · rintro ⟨h1, h2, h, h3⟩
    refine ⟨fun w s hs => ?_, h2, h3⟩
    rw [Binding.lookup_insert] at hs
    split at hs
    · next e =>
      rw [← e, ← hs]
      exact h
    · exact h1 w s hs
  · rintro ⟨h1, h2, h3⟩
    refine ⟨fun w s hs => h1 w s ?_, h2, h1 v t (by rw [Binding.lookup_insert, if_pos rfl]), h3⟩
    rw [Binding.lookup_insert, if_neg, hs]
    rintro rfl
    rw [hv] at hs
    cases hs

theorem matchFrom_eq_some_iff {slots : List Slot} {terms : List Term} :
    matchFrom b slots terms = some m ↔ Extends b m slots terms := by
  induction slots generalizing b terms with
  | nil =>
    rw [extends_nil_iff]
    cases terms <;> simp [matchFrom]
  | cons s slots ih =>
    cases terms with
    | nil =>
      have : ¬ Extends b m (s :: slots) [] := fun h => resolve_cons_ne_nil h.2.2
      cases s <;> simp only [matchFrom, reduceCtorEq, this]
    | cons t terms =>
      cases s with
      | const c =>
        rw [extends_const_iff, matchFrom]
        by_cases hc : c = t
        · rw [if_pos hc, ih, and_iff_right hc]
        · rw [if_neg hc]
          simp [hc]
      | var v =>
        rw [matchFrom]
        cases hv : b[v]? with
        | none => rw [extends_fresh_iff hv, ih]
        | some s =>
          rw [extends_bound_iff hv]
          by_cases hs : s = t
          · simp only [hs, if_true, ih, true_and]
          · simp [hs]

/-! ### Matching a tuple -/

/-- A pattern matches with a binding of its own variables that instantiates it to the tuple. -/
theorem match?_eq_some_iff :
    p.match? t = some m ↔ (∀ v, v ∈ m ↔ v ∈ p.vars) ∧ p.instantiate m = some t := by
  unfold match? instantiate
  rw [matchFrom_eq_some_iff]
  unfold Extends
  have hinst : (p.slots.mapM (Slot.resolve m)).map Tuple.mk = some t ↔
      p.slots.mapM (Slot.resolve m) = some t.terms := by
    cases t
    simp [Option.map_eq_some_iff]
  rw [hinst]
  constructor
  · rintro ⟨-, h2, h3⟩
    exact ⟨fun v => by rw [h2, mem_vars]; simp, h3⟩
  · rintro ⟨h2, h3⟩
    exact ⟨by simp, fun v => by rw [h2, mem_vars]; simp, h3⟩

theorem mem_of_match? (h : p.match? t = some m) : v ∈ m ↔ v ∈ p.vars :=
  (match?_eq_some_iff.1 h).1 v

/-! ### Making a tuple -/

/-- Slots stand for the same terms under bindings that agree on their variables. -/
theorem resolve_congr {slots : List Slot} (h : ∀ v : Variable, .var v ∈ slots → b[v]? = m[v]?) :
    slots.mapM (Slot.resolve b) = slots.mapM (Slot.resolve m) := by
  induction slots with
  | nil => rfl
  | cons s slots ih =>
    have hs : s.resolve b = s.resolve m := by
      cases s with
      | const c => rfl
      | var v => exact h v List.mem_cons_self
    rw [List.mapM_cons, List.mapM_cons, hs, ih fun v hv => h v (List.mem_cons_of_mem s hv)]

theorem mem_of_resolve {slots : List Slot} {terms : List Term}
    (h : slots.mapM (Slot.resolve b) = some terms) (hv : .var v ∈ slots) : v ∈ b := by
  induction slots generalizing terms with
  | nil => cases hv
  | cons s slots ih =>
    cases terms with
    | nil => exact absurd h resolve_cons_ne_nil
    | cons t terms =>
      obtain ⟨hs, hrest⟩ := resolve_cons_iff.1 h
      rcases List.mem_cons.1 hv with rfl | hv
      · exact Binding.mem_iff_lookup.2 ⟨t, hs⟩
      · exact ih hrest hv

/-- Of a binding only what it binds the variables of the pattern to goes into the tuple. -/
theorem instantiate_project : p.instantiate (b.project p.vars) = p.instantiate b := by
  refine congrArg (Option.map Tuple.mk) (resolve_congr fun v hv => ?_)
  rw [Binding.lookup_project, if_pos (mem_vars.2 hv)]

/-- A tuple is only made under a binding of all variables. -/
theorem mem_of_instantiate (h : p.instantiate b = some t) (hv : v ∈ p.vars) : v ∈ b := by
  obtain ⟨terms, hterms, -⟩ := Option.map_eq_some_iff.1 h
  exact mem_of_resolve hterms (mem_vars.1 hv)

/-- The tuple that a binding makes of a pattern is the one that the pattern matches with the part
of the binding over its own variables. -/
theorem instantiate_eq_some_iff :
    p.instantiate b = some t ↔ p.match? t = some (b.project p.vars) := by
  rw [match?_eq_some_iff, instantiate_project]
  refine ⟨fun h => ⟨fun v => ?_, h⟩, And.right⟩
  rw [Binding.mem_project]
  exact ⟨And.left, fun hv => ⟨hv, mem_of_instantiate h hv⟩⟩

/-- Matching and instantiating are inverse to each other. A pattern matches a tuple with the binding
of exactly its variables that makes the tuple of it. No other tuple is matched with the same
binding, and a binding of more variables makes the tuple that is matched with its part over the
variables of the pattern. -/
theorem match?_inverse (p : TuplePattern) :
    (∀ t b, p.match? t = some b ↔ (∀ v, v ∈ b ↔ v ∈ p.vars) ∧ p.instantiate b = some t) ∧
      (∀ t t' b, p.match? t = some b → p.match? t' = some b → t = t') ∧
      ∀ t b, p.instantiate b = some t ↔ p.match? t = some (b.project p.vars) := by
  refine ⟨fun t b => match?_eq_some_iff, fun t t' b ht ht' => ?_,
    fun t b => instantiate_eq_some_iff⟩
  have hmade := (match?_eq_some_iff.1 ht).2
  rw [(match?_eq_some_iff.1 ht').2] at hmade
  exact (Option.some.inj hmade).symm

/-- A variable stands in two places, and the binding binds another one, too. -/
theorem match?_inverse_loop :
    let p : TuplePattern := ⟨[.var ⟨"x"⟩, .const ⟨"p"⟩, .var ⟨"x"⟩]⟩
    let b : Binding := ((∅ : Binding).insert ⟨"x"⟩ ⟨"a"⟩).insert ⟨"y"⟩ ⟨"b"⟩
    p.match? ⟨[⟨"a"⟩, ⟨"p"⟩, ⟨"a"⟩]⟩ = some (b.project p.vars) ∧
      p.match? ⟨[⟨"b"⟩, ⟨"p"⟩, ⟨"b"⟩]⟩ ≠ some (b.project p.vars) := by
  intro p b
  obtain ⟨-, hinjective, hmade⟩ := match?_inverse p
  have hloop : p.match? ⟨[⟨"a"⟩, ⟨"p"⟩, ⟨"a"⟩]⟩ = some (b.project p.vars) :=
    (hmade _ b).1 (by decide +kernel)
  refine ⟨hloop, fun hother => ?_⟩
  exact absurd (hinjective _ _ _ hloop hother) (by decide)

end TuplePattern

/-! ### Signatures -/

namespace Signature
open TuplePattern

/-- The first place of a mask says whether the first term is selected. -/
theorem select_maskOf_cons (b : Bool) (bits : List Bool) (x : α) (xs : List α) :
    select (maskOf (b :: bits)) (x :: xs) =
      if b then x :: select (maskOf bits) xs else select (maskOf bits) xs := by
  have hmask : maskOf (b :: bits) = b.toNat + 2 * maskOf bits := rfl
  have hbit := b.toNat_le
  have hodd : maskOf (b :: bits) % 2 = b.toNat := by omega
  have hhalf : maskOf (b :: bits) / 2 = maskOf bits := by omega
  rw [select, hodd, hhalf]
  cases b <;> rfl

theorem select_eq_constants {slots : List Slot} {terms : List Term} {m : Binding}
    (h : slots.mapM (Slot.resolve m) = some terms) :
    select (maskOf (slots.map Slot.isConst)) terms = slots.filterMap Slot.asTerm? := by
  induction slots generalizing terms with
  | nil =>
    cases h
    rfl
  | cons s slots ih =>
    cases terms with
    | nil => exact absurd h resolve_cons_ne_nil
    | cons t terms =>
      obtain ⟨hs, hrest⟩ := resolve_cons_iff.1 h
      rw [List.map_cons, select_maskOf_cons, ih hrest]
      cases s with
      | const c =>
        cases hs
        rfl
      | var v => rfl

theorem length_of_mapM {slots : List Slot} {terms : List Term} {m : Binding}
    (h : slots.mapM (Slot.resolve m) = some terms) : slots.length = terms.length := by
  induction slots generalizing terms with
  | nil =>
    cases h
    rfl
  | cons s slots ih =>
    cases terms with
    | nil => exact absurd h resolve_cons_ne_nil
    | cons t terms =>
      rw [List.length_cons, List.length_cons, ih (resolve_cons_iff.1 h).2]

/-- A matching tuple has the signature of the pattern under the mask of the pattern. -/
theorem ofTuple_eq_ofPattern {p : TuplePattern} {t : Tuple} {m : Binding}
    (h : p.match? t = some m) : ofTuple t p.constantMask = ofPattern p := by
  have hres : p.slots.mapM (Slot.resolve m) = some t.terms := by
    have := (match?_eq_some_iff.1 h).2
    unfold instantiate at this
    cases t
    simpa [Option.map_eq_some_iff] using this
  unfold ofTuple ofPattern
  congr 1
  · exact (length_of_mapM hres).symm
  · exact select_eq_constants hres

end Signature

end StandingQuery
