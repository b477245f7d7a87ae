import StandingQuery.Binding

/-! The algebra of bindings.

A binding is what it binds each variable to, so every operation is stated by its
effect on look-up. Compatibility is symmetric, and compatible bindings merge into one
that each of them is part of: with the empty binding, bindings form a partial
commutative monoid, in which a merge is compatible with a third binding exactly when
both its parts are (`merge_partialCommMonoid`). Projecting to a list of variables undoes a
merge, and it may as well come before it. -/
namespace StandingQuery
open Std

/-- An operation that matters only where its two sides are compatible, and there it makes no
difference in which order things come together. -/
structure PartialCommMonoid {α : Type} (compatible : α → α → Bool) (op : α → α → α) (unit : α) :
    Prop where
  symm : ∀ a b, compatible a b = compatible b a
  compatible_unit : ∀ a, compatible a unit = true
  op_unit : ∀ a, op a unit = a
  unit_op : ∀ a, op unit a = a
  comm : ∀ a b, compatible a b = true → op a b = op b a
  /-- A composite is compatible with what both its parts are compatible with. -/
  compatible_op : ∀ a b c, compatible a b = true →
    (compatible (op a b) c = true ↔ compatible a c = true ∧ compatible b c = true)
  assoc : ∀ a b c, compatible a b = true → compatible a c = true → compatible b c = true →
    op (op a b) c = op a (op b c)

namespace Binding

variable {a b c : Binding} {v w : Variable} {s t : Term} {vs ws : List Variable}

theorem ext_lookup (h : ∀ v : Variable, a[v]? = b[v]?) : a = b := ExtTreeMap.ext_getElem? h

theorem mem_iff_lookup : v ∈ b ↔ ∃ t, b[v]? = some t := by
  rw [ExtTreeMap.mem_iff_isSome_getElem?, Option.isSome_iff_exists]

theorem lookup_eq_none : b[v]? = none ↔ v ∉ b := by
  rw [mem_iff_lookup]
  cases b[v]? <;> simp

@[simp] theorem lookup_merge : (a.merge b)[v]? = a[v]?.or b[v]? := ExtTreeMap.getElem?_union

@[simp] theorem mem_merge : v ∈ a.merge b ↔ v ∈ a ∨ v ∈ b := by
  show v ∈ b ∪ a ↔ _
  rw [ExtTreeMap.mem_union_iff, or_comm]

@[simp] theorem lookup_project : (b.project vs)[v]? = if v ∈ vs then b[v]? else none := by
  show (b.filter fun v _ => vs.contains v)[v]? = _
  rw [ExtTreeMap.getElem?_filter']
  by_cases h : v ∈ vs <;> cases b[v]? <;> simp [h]

@[simp] theorem mem_project : v ∈ b.project vs ↔ v ∈ vs ∧ v ∈ b := by
  by_cases h : v ∈ vs <;> simp [mem_iff_lookup, h]

theorem lookup_insert : (b.insert v t)[w]? = if v = w then some t else b[w]? := by
  rw [ExtTreeMap.getElem?_insert]
  simp

theorem mem_insert : w ∈ b.insert v t ↔ w = v ∨ w ∈ b := by
  by_cases h : v = w
  · simp [h]
  · simp [mem_iff_lookup, h, Ne.symm h]

/-! ### Compatibility -/

theorem agreesOn_iff : a.agreesOn b = true ↔
    ∀ (v : Variable) (s t : Term), a[v]? = some s → b[v]? = some t → s = t := by
  unfold agreesOn
  rw [List.all_eq_true]
  constructor
  · intro h v s t hs ht
    have hst : b[v]?.all (· == s) = true :=
      h (v, s) (ExtTreeMap.mem_toList_iff_getElem?_eq_some.2 hs)
    rw [ht, Option.all_some, beq_iff_eq] at hst
    exact hst.symm
  · rintro h ⟨v, s⟩ hs
    have hs := ExtTreeMap.mem_toList_iff_getElem?_eq_some.1 hs
    show b[v]?.all (· == s) = true
    cases ht : b[v]? with
    | none => rfl
    | some t =>
      rw [Option.all_some, beq_iff_eq]
      exact (h v s t hs ht).symm

/-- Which of the two is gone through does not matter. -/
theorem compatible_iff : a.compatible b = true ↔
    ∀ (v : Variable) (s t : Term), a[v]? = some s → b[v]? = some t → s = t := by
  unfold compatible
  split
  · exact agreesOn_iff
  · rw [agreesOn_iff]
    exact ⟨fun h v s t hs ht => (h v t s ht hs).symm, fun h v s t hs ht => (h v t s ht hs).symm⟩

theorem compatible_symm (h : a.compatible b = true) : b.compatible a = true :=
  compatible_iff.2 fun v s t hs ht => (compatible_iff.1 h v t s ht hs).symm

theorem compatible_comm : a.compatible b = b.compatible a :=
  Bool.eq_iff_iff.2 ⟨compatible_symm, compatible_symm⟩

theorem compatible_self : a.compatible a = true :=
  compatible_iff.2 fun _ _ _ hs ht => Option.some.inj (hs.symm.trans ht)

theorem compatible_empty : a.compatible ∅ = true :=
  compatible_iff.2 fun v s t _ ht => by simp at ht

/-! ### Merging compatible bindings -/

theorem merge_comm (h : a.compatible b = true) : a.merge b = b.merge a := by
  refine ext_lookup fun v => ?_
  rw [lookup_merge, lookup_merge]
  cases hs : a[v]? with
  | none => simp
  | some s =>
    cases ht : b[v]? with
    | none => simp
    | some t => simp [compatible_iff.1 h v s t hs ht]

theorem merge_assoc : (a.merge b).merge c = a.merge (b.merge c) :=
  ext_lookup fun v => by simp only [lookup_merge, Option.or_assoc]

theorem merge_self : a.merge a = a :=
  ext_lookup fun v => by rw [lookup_merge, Option.or_self]

theorem merge_empty : a.merge ∅ = a :=
  ext_lookup fun v => by rw [lookup_merge, ExtTreeMap.getElem?_empty, Option.or_none]

theorem empty_merge : merge ∅ a = a :=
  ext_lookup fun v => by rw [lookup_merge, ExtTreeMap.getElem?_empty, Option.none_or]

/-- The second part of a merge is in it, as far as it is compatible with the first. -/
theorem lookup_merge_right (h : a.compatible b = true) (ht : b[v]? = some t) :
    (a.merge b)[v]? = some t := by
  rw [merge_comm h, lookup_merge, ht, Option.some_or]

/-- A merge of compatible bindings binds what one of them binds, and nothing else. -/
theorem lookup_merge_eq_some_iff (h : a.compatible b = true) :
    (a.merge b)[v]? = some t ↔ a[v]? = some t ∨ b[v]? = some t := by
  constructor
  · intro ht
    rw [lookup_merge, Option.or_eq_some_iff] at ht
    exact ht.imp_right And.right
  · rintro (ht | ht)
    · rw [lookup_merge, ht, Option.some_or]
    · exact lookup_merge_right h ht

/-- A merge is compatible with what both its parts are compatible with. -/
theorem compatible_merge_iff (h : a.compatible b = true) :
    (a.merge b).compatible c = true ↔ a.compatible c = true ∧ b.compatible c = true := by
  constructor
  · intro hc
    rw [compatible_iff] at hc
    constructor
    · exact compatible_iff.2 fun v s t hs ht => hc v s t (by simp [hs]) ht
    · exact compatible_iff.2 fun v s t hs ht => hc v s t (lookup_merge_right h hs) ht
  · rintro ⟨ha, hb⟩
    refine compatible_iff.2 fun v s t hs ht => ?_
    rw [lookup_merge, Option.or_eq_some_iff] at hs
    rcases hs with hs | ⟨-, hs⟩
    · exact compatible_iff.1 ha v s t hs ht
    · exact compatible_iff.1 hb v s t hs ht

/-! ### Projecting -/

theorem project_eq_self (h : ∀ v ∈ b, v ∈ vs) : b.project vs = b := by
  refine ext_lookup fun v => ?_
  rw [lookup_project]
  by_cases hv : v ∈ vs
  · rw [if_pos hv]
  · rw [if_neg hv, eq_comm, lookup_eq_none]
    exact fun hb => hv (h v hb)

theorem project_project_of_subset (h : ∀ v ∈ vs, v ∈ ws) :
    (b.project ws).project vs = b.project vs := by
  refine ext_lookup fun v => ?_
  by_cases hv : v ∈ vs
  · simp [hv, h v hv]
  · simp [hv]

/-- The part of a merge over variables that the first side binds is that side's. -/
theorem project_merge_left (h : ∀ v ∈ vs, v ∈ a) : (a.merge b).project vs = a.project vs := by
  refine ext_lookup fun v => ?_
  rw [lookup_project, lookup_project]
  by_cases hv : v ∈ vs
  · obtain ⟨t, ht⟩ := mem_iff_lookup.1 (h v hv)
    simp [hv, ht]
  · simp [hv]

theorem project_merge_right (hc : a.compatible b = true) (h : ∀ v ∈ vs, v ∈ b) :
    (a.merge b).project vs = b.project vs := by
  rw [merge_comm hc, project_merge_left h]

/-- It makes no difference which comes first, projecting or merging. -/
theorem project_merge : (a.merge b).project vs = (a.project vs).merge (b.project vs) := by
  refine ext_lookup fun v => ?_
  by_cases hv : v ∈ vs <;> simp [hv]

theorem Compatible.project (h : a.compatible b = true) :
    (a.project vs).compatible (b.project ws) = true := by
  refine compatible_iff.2 fun v s t hs ht => ?_
  rw [lookup_project, Option.ite_none_right_eq_some] at hs ht
  exact compatible_iff.1 h v s t hs.2 ht.2

theorem compatible_project (b : Binding) (vs ws : List Variable) :
    (b.project vs).compatible (b.project ws) = true :=
  Compatible.project compatible_self

/-- Two projections of one binding merge into the projection to both lists. -/
theorem merge_project (b : Binding) (vs ws : List Variable) :
    (b.project vs).merge (b.project ws) = b.project (vs ++ ws) := by
  refine ext_lookup fun v => ?_
  by_cases hv : v ∈ vs <;> by_cases hw : v ∈ ws <;> simp [hv, hw]

/-! ### The monoid -/

/-- With the empty binding, merging compatible bindings is a partial commutative monoid, in which
everything is idempotent. Two bindings are compatible if they agree on every variable that both
bind. Their merge has the variables of both, each with the term that one of them has for it, and
projecting the two before they are merged comes to the same as projecting the merge. -/
theorem merge_partialCommMonoid : PartialCommMonoid compatible merge ∅ ∧
    (∀ a : Binding, a.compatible a = true ∧ a.merge a = a) ∧
    (∀ a b : Binding, a.compatible b = true ↔
      ∀ (v : Variable) (s t : Term), a[v]? = some s → b[v]? = some t → s = t) ∧
    ∀ a b : Binding, a.compatible b = true →
      (∀ v, v ∈ a.merge b ↔ v ∈ a ∨ v ∈ b) ∧
      (∀ (v : Variable) (t : Term), (a.merge b)[v]? = some t ↔ a[v]? = some t ∨ b[v]? = some t) ∧
      ∀ vs, (a.project vs).compatible (b.project vs) = true ∧
        (a.merge b).project vs = (a.project vs).merge (b.project vs) where
  left := {
    symm := fun _ _ => compatible_comm
    compatible_unit := fun _ => compatible_empty
    op_unit := fun _ => merge_empty
    unit_op := fun _ => empty_merge
    comm := fun _ _ => merge_comm
    compatible_op := fun _ _ _ => compatible_merge_iff
    assoc := fun _ _ _ _ _ _ => merge_assoc }
  right := ⟨fun _ => ⟨compatible_self, merge_self⟩, fun _ _ => compatible_iff, fun _ _ h =>
    ⟨fun _ => mem_merge, fun _ _ => lookup_merge_eq_some_iff h,
      fun _ => ⟨Compatible.project h, project_merge⟩⟩⟩

/-- Three bindings that share a variable from one to the next come together in either order. -/
theorem merge_partialCommMonoid_chain :
    let x : Binding := (∅ : Binding).insert ⟨"a"⟩ ⟨"1"⟩
    let y : Binding := x.insert ⟨"b"⟩ ⟨"2"⟩
    let z : Binding := ((∅ : Binding).insert ⟨"b"⟩ ⟨"2"⟩).insert ⟨"c"⟩ ⟨"3"⟩
    (x.merge y).compatible z = true ∧ (x.merge y).merge z = (z.merge y).merge x ∧
      (y.merge z).project [⟨"a"⟩, ⟨"c"⟩] = x.merge (z.project [⟨"a"⟩, ⟨"c"⟩]) := by
  intro x y z
  obtain ⟨hmonoid, -, -, hmerge⟩ := merge_partialCommMonoid
  have hxy : x.compatible y = true := by decide +kernel
  have hxz : x.compatible z = true := by decide +kernel
  have hyz : y.compatible z = true := by decide +kernel
  have hzy : z.compatible y = true := (hmonoid.symm z y).trans hyz
  have hleft : (x.merge y).compatible z = true := (hmonoid.compatible_op x y z hxy).2 ⟨hxz, hyz⟩
  have hright : x.compatible (z.merge y) = true := by
    rw [hmonoid.symm, hmonoid.compatible_op z y x hzy, hmonoid.symm z x, hmonoid.symm y x]
    exact ⟨hxz, hxy⟩
  refine ⟨hleft, ?_, ?_⟩
  · rw [hmonoid.assoc x y z hxy hxz hyz, hmonoid.comm y z hyz, hmonoid.comm x _ hright]
  · have hfirst : y.project [⟨"a"⟩, ⟨"c"⟩] = x := by decide +kernel
    rw [((hmerge y z hyz).2.2 _).2, hfirst]

end Binding

end StandingQuery
