import Comptime.Expr.Basic
import Comptime.Proofs.Tree
import Mathlib.Data.List.Perm.Subperm

/-! Declarations whose initializers are being looked at, from the outside in. Where each initializer
has one tree below it, and a finite one, no declaration is entered again inside itself, so that
there are never more of them pending than there are declarations. -/
namespace Comptime

/-- What holds of the pending declarations where a part of a tree is looked at: they are distinct,
and the trees of their initializers are at least as high as that part. -/
structure Pending (ds : Declarations) {α : Type} (expr : α → Expr) (P : Tree α → Prop) (t : Tree α)
    (pending : List Nat) : Prop where
  distinct : pending.Nodup
  declared : ∀ j ∈ pending, j < ds.size
  encloses : ∀ j ∈ pending, ∀ (d : Declaration) (s : Tree α),
    ds[j]? = some d → expr s.root = d.init → P s → t.height ≤ s.height

namespace Pending

variable {ds : Declarations} {α : Type} {expr : α → Expr} {P : Tree α → Prop} {a : α}
  {ts : List (Tree α)} {t : Tree α} {pending : List Nat}

theorem nil : Pending ds expr P t [] := ⟨List.nodup_nil, by simp, by simp⟩

theorem part (h : Pending ds expr P (.node a ts) pending) (ht : t ∈ ts) :
    Pending ds expr P t pending :=
  ⟨h.distinct, h.declared, fun j hj d s hd root hs =>
    Nat.le_trans (Nat.le_of_lt (Tree.height_part ht)) (h.encloses j hj d s hd root hs)⟩

theorem fresh (h : Pending ds expr P (.node a ts) pending) (ht : t ∈ ts) (hP : P t) {i : Nat}
    {d : Declaration} (hd : ds[i]? = some d) (root : expr t.root = d.init) : i ∉ pending := by
  intro hi
  have small := Tree.height_part (a := a) ht
  have large := h.encloses i hi d t hd root hP
  omega

theorem enter (unique : ∀ t s, P t → P s → expr t.root = expr s.root → t = s)
    (h : Pending ds expr P (.node a ts) pending) (ht : t ∈ ts) (hP : P t)
    {i : Nat} {d : Declaration} (hd : ds[i]? = some d) (root : expr t.root = d.init) :
    Pending ds expr P t (i :: pending) := by
  refine ⟨List.nodup_cons.mpr ⟨h.fresh ht hP hd root, h.distinct⟩, ?_, ?_⟩
  · intro j hj
    cases hj with
    | head => exact (Array.getElem?_eq_some_iff.mp hd).1
    | tail _ hj => exact h.declared j hj
  · intro j hj d' s hd' root' hs
    cases hj with
    | head =>
      obtain rfl : d = d' := Option.some.inj (hd.symm.trans hd')
      exact Nat.le_of_eq (congrArg Tree.height (unique t s hP hs (root.trans root'.symm)))
    | tail _ hj => exact (h.part ht).encloses j hj d' s hd' root' hs

theorem length_le (h : Pending ds expr P t pending) : pending.length ≤ ds.size := by
  have sub : pending ⊆ List.range ds.size := fun j hj => List.mem_range.mpr (h.declared j hj)
  simpa using (h.distinct.subperm sub).length_le

theorem budget (h : Pending ds expr P t (i :: pending)) {budget : Nat}
    (enough : ds.size ≤ budget + pending.length) :
    ∃ rest, budget = rest + 1 ∧ ds.size ≤ rest + (i :: pending).length := by
  have := h.length_le
  simp only [List.length_cons] at this ⊢
  exact ⟨budget - 1, by omega, by omega⟩

end Pending
end Comptime
