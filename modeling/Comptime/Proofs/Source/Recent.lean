import Comptime.Proofs.Source.Cache

/-! The paths that were used last. A cache has room for five of them, and keeps those that come
first when all uses are listed from the latest to the earliest and repetitions are left out. -/
namespace Comptime

section
variable {α : Type} [DecidableEq α]

theorem filter_eraseDups (q : α → Bool) :
    ∀ l : List α, l.eraseDups.filter q = (l.filter q).eraseDups
  | [] => rfl
  | a :: l => by
    have ih := filter_eraseDups q (l.filter fun b => !b == a)
    rw [List.eraseDups_cons]
    by_cases kept : q a = true
    · rw [List.filter_cons_of_pos kept, List.filter_cons_of_pos kept, List.eraseDups_cons,
        ih, List.filter_filter,
        List.filter_filter]
      simp only [Bool.and_comm]
    · have other : (l.filter fun b => !b == a).filter q = l.filter q := by
        rw [List.filter_filter]
        refine List.filter_congr fun b _ => ?_
        by_cases same : b = a <;> simp_all
      rw [List.filter_cons_of_neg kept, List.filter_cons_of_neg kept, ih, other]
termination_by l => l.length
decreasing_by exact Nat.lt_succ_of_le (List.length_filter_le ..)

theorem nodup_eraseDups : ∀ l : List α, l.eraseDups.Nodup
  | [] => List.nodup_nil
  | a :: l => by
    have ih := nodup_eraseDups (l.filter fun b => !b == a)
    rw [List.eraseDups_cons, List.nodup_cons, List.mem_eraseDups]
    exact ⟨by simp, ih⟩
termination_by l => l.length
decreasing_by exact Nat.lt_succ_of_le (List.length_filter_le ..)

theorem eraseDups_cons_eq_erase (a : α) (l : List α) :
    (a :: l).eraseDups = a :: l.eraseDups.erase a := by
  rw [List.eraseDups_cons, ← filter_eraseDups, (nodup_eraseDups l).erase_eq_filter]
  rfl

theorem eraseDups_of_nodup {l : List α} (h : l.Nodup) : l.eraseDups = l := by
  induction l with
  | nil => rfl
  | cons a l ih =>
    obtain ⟨first, rest⟩ := List.nodup_cons.mp h
    rw [eraseDups_cons_eq_erase, ih rest, List.erase_of_not_mem first]

theorem take_erase_take (l : List α) (a : α) (n : Nat) :
    ((l.take (n + 1)).erase a).take n = (l.erase a).take n := by
  induction l generalizing n with
  | nil => rfl
  | cons b l ih =>
    rw [List.take_succ_cons]
    by_cases same : b = a
    · rw [same, List.erase_cons_head, List.erase_cons_head, List.take_take, Nat.min_self]
    · have other : ¬(b == a) = true := by simpa using same
      rw [List.erase_cons_tail other, List.erase_cons_tail other]
      cases n with
      | zero => rfl
      | succ n => rw [List.take_succ_cons, List.take_succ_cons, ih]

end

namespace ReadCache
variable {c : ReadCache}

def HasLast (c : ReadCache) (used : List Path) : Prop := c.paths = used.eraseDups.take capacity

theorem IsOrderly.hasLast (h : c.IsOrderly) : c.HasLast c.paths := by
  rw [HasLast, eraseDups_of_nodup h.nodup, List.take_of_length_le h.fits]

theorem HasLast.use {used : List Path} (h : c.HasLast used) (p : Path) (text : String) :
    (c.use p text).HasLast (p :: used) := by
  have nodup : c.paths.Nodup := h ▸ (nodup_eraseDups used).sublist (List.take_sublist ..)
  have moved : c.paths.filter (· ≠ p) = c.paths.erase p := by
    rw [nodup.erase_eq_filter]
    exact List.filter_congr fun q _ => Bool.eq_iff_iff.mpr (by simp)
  rw [HasLast, paths_use, moved, h, eraseDups_cons_eq_erase, capacity,
    List.take_succ_cons, List.take_succ_cons,
    take_erase_take]

end ReadCache
end Comptime
