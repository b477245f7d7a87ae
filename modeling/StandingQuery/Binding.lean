import StandingQuery.Term

/-! Bindings: finite maps from variables to terms.

A binding is one answer, or part of one. Two bindings are *compatible* when they
agree on every variable that both bind, and compatible bindings are merged into
one that binds what either binds. Bindings are sorted maps with extensional
equality, so the order in which variables were bound leaves no trace: equal
contents are equal bindings, and bindings can be keys. -/
namespace StandingQuery
open Std

abbrev Binding := ExtTreeMap Variable Term

namespace Binding

/-- Every variable of `a` that `b` binds has the same term in both. -/
def agreesOn (a b : Binding) : Bool :=
  a.toList.all fun (v, t) => b[v]?.all (· == t)

/-- The two agree on every variable that both bind. It is enough to go through the smaller. -/
def compatible (a b : Binding) : Bool :=
  if a.size ≤ b.size then a.agreesOn b else b.agreesOn a

/-- Binds what either binds; where both do, `a` is kept. -/
def merge (a b : Binding) : Binding := b ∪ a

/-- The part of `b` that binds one of `vars`. -/
def project (b : Binding) (vars : List Variable) : Binding :=
  b.filter fun v _ => vars.contains v

/-- The variables that `b` binds. -/
def domain (b : Binding) : List Variable := b.keys

instance : ToString Binding :=
  ⟨fun b => "\x7b" ++ ", ".intercalate (b.toList.map fun (v, t) => toString v ++ ": " ++ t.text) ++ "\x7d"⟩

/-- The names and terms of a binding in turn. They determine it, and bindings are compared by them. -/
def spine (b : Binding) : List String := b.toList.flatMap fun (v, t) => [v.name, t.text]

theorem spine_injective {a b : Binding} (h : a.spine = b.spine) : a = b := by
  have inj : ∀ xs ys : List (Variable × Term),
      (xs.flatMap fun (v, t) => [v.name, t.text]) = (ys.flatMap fun (v, t) => [v.name, t.text]) →
        xs = ys := by
    intro xs
    induction xs with
    | nil => intro ys h; cases ys with
      | nil => rfl
      | cons y ys => simp at h
    | cons x xs ih => intro ys h; cases ys with
      | nil => simp at h
      | cons y ys =>
        obtain ⟨⟨_⟩, ⟨_⟩⟩ := x
        obtain ⟨⟨_⟩, ⟨_⟩⟩ := y
        simp only [List.flatMap_cons, List.cons_append, List.nil_append, List.cons.injEq] at h
        obtain ⟨rfl, rfl, h⟩ := h
        rw [ih ys h]
  exact ExtTreeMap.toList_inj.1 (inj _ _ h)

instance : Ord Binding := ⟨compareOn spine⟩
instance : TransOrd Binding := inferInstanceAs (TransCmp (compareOn spine))
instance : LawfulEqOrd Binding := lawfulEqCmp_compareOn spine_injective

end Binding

end StandingQuery
