/-! Finite trees with labelled nodes, and the trees that they contain at each depth. -/
namespace Comptime

/-- A label with the trees below it. -/
inductive Tree (α : Type) where
  | node (label : α) (parts : List (Tree α))

namespace Tree

variable {α : Type}

def root : Tree α → α
  | .node a _ => a

def parts : Tree α → List (Tree α)
  | .node _ ts => ts

/-- A tree stands in another one at a depth below its root. -/
inductive Contains : Tree α → Nat → Tree α → Prop where
  | itself (t : Tree α) : Contains t 0 t
  | part {a : α} {ts : List (Tree α)} {t s : Tree α} {k : Nat} :
      t ∈ ts → Contains t k s → Contains (.node a ts) (k + 1) s

/-- What holds of a tree and, one deeper, of all that its parts contain, holds of all that it
contains. -/
theorem contains_node {P : Nat → Tree α → Prop} {a : α} {ts : List (Tree α)}
    (itself : P 0 (.node a ts))
    (parts : ∀ t ∈ ts, ∀ k s, t.Contains k s → P (k + 1) s) {k : Nat} {s : Tree α}
    (h : (node a ts).Contains k s) : P k s := by
  cases h with
  | itself => exact itself
  | part ht h => exact parts _ ht _ _ h

/-- All that a tree contains in the order in which it is completed: the parts from left to right,
and a tree after its parts. -/
def postorder : Tree α → List (Tree α)
  | .node a ts => ts.flatMap postorder ++ [.node a ts]

theorem postorder_node (a : α) (ts : List (Tree α)) :
    (node a ts).postorder = ts.flatMap postorder ++ [node a ts] := by
  rw [postorder]

def height : Tree α → Nat
  | .node _ ts => (ts.map height).foldr max 0 + 1

theorem le_foldr_max {l : List Nat} {n : Nat} (h : n ∈ l) : n ≤ l.foldr max 0 := by
  induction h with
  | head l => exact Nat.le_max_left _ _
  | tail m _ ih => exact Nat.le_trans ih (Nat.le_max_right _ _)

theorem foldr_max_le {l : List Nat} {n : Nat} (h : ∀ m ∈ l, m ≤ n) : l.foldr max 0 ≤ n := by
  induction l with
  | nil => exact Nat.zero_le n
  | cons m l ih =>
    exact Nat.max_le.mpr ⟨h m (.head l), ih fun k hk => h k (.tail m hk)⟩

theorem height_part {a : α} {ts : List (Tree α)} {t : Tree α} (h : t ∈ ts) :
    t.height < (node a ts).height := by
  have := le_foldr_max (List.mem_map_of_mem (f := height) h)
  simp only [height]
  omega

theorem height_node_le {a : α} {ts : List (Tree α)} {n : Nat} (h : ∀ t ∈ ts, t.height ≤ n) :
    (node a ts).height ≤ n + 1 := by
  have : (ts.map height).foldr max 0 ≤ n := foldr_max_le fun m hm => by
    obtain ⟨t, ht, rfl⟩ := List.mem_map.mp hm
    exact h t ht
  simp only [height]
  omega

theorem height_le {t : Tree α} {n : Nat} (h : ∀ k s, t.Contains k s → k < n) : t.height ≤ n := by
  induction n generalizing t with
  | zero => exact absurd (h 0 t (.itself t)) (Nat.not_lt_zero 0)
  | succ n ih =>
    cases t with
    | node a ts =>
      refine height_node_le fun t ht => ih fun k s hs => ?_
      exact Nat.lt_of_succ_lt_succ (h (k + 1) s (.part ht hs))

theorem Contains.lt_height {t s : Tree α} {k : Nat} (h : t.Contains k s) : k < t.height := by
  induction h with
  | itself t =>
    cases t
    simp only [height]
    omega
  | part ht _ ih => exact Nat.lt_of_le_of_lt ih (height_part ht)

end Tree
end Comptime
