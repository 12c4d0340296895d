import Comptime.Source.Reader

/-! What is left of the texts read before. A use moves a text to the front and drops at most the
last one, so what is found later is either the text that was used or one that could be found
already. -/
namespace Comptime

theorem lookup_filter_ne {a b : Path} (h : a ≠ b) (l : List (Path × String)) :
    (l.filter (·.1 ≠ b)).lookup a = l.lookup a := by
  induction l with
  | nil => rfl
  | cons entry l ih =>
    obtain ⟨key, text⟩ := entry
    by_cases dropped : key = b
    · simp [dropped, List.lookup_cons, beq_false_of_ne h, ← ih]
    · simp [dropped, List.lookup_cons, ← ih]

namespace ReadCache

def paths (c : ReadCache) : List Path := c.entries.map (·.1)

variable {c : ReadCache} {p q : Path} {text found : String}

theorem find?_eq_none_iff : c.find? p = none ↔ p ∉ c.paths := by
  simp only [find?, List.lookup_eq_none_iff, bne_iff_ne, paths, List.mem_map, not_exists, not_and]
  exact forall₂_congr fun entry _ => ne_comm

theorem paths_use (c : ReadCache) (p : Path) (text : String) :
    (c.use p text).paths = (p :: c.paths.filter (· ≠ p)).take capacity := by
  simp [paths, use, List.map_take, List.filter_map, Function.comp_def]

theorem of_find?_use (h : (c.use q text).find? p = some found) :
    p = q ∧ found = text ∨ p ≠ q ∧ c.find? p = some found := by
  have whole : ((q, text) :: c.entries.filter (·.1 ≠ q)).lookup p = some found :=
    (List.take_prefix ..).lookup_eq_some h
  by_cases same : p = q
  · subst same
    exact .inl ⟨rfl, by simpa using whole.symm⟩
  · rw [List.lookup_cons, beq_false_of_ne same, lookup_filter_ne same] at whole
    exact .inr ⟨same, whole⟩

/-- Caches as they come about: no path is remembered twice, and no more paths than there is room
for. -/
structure IsOrderly (c : ReadCache) : Prop where
  nodup : c.paths.Nodup
  fits : c.paths.length ≤ capacity

theorem IsOrderly.empty : IsOrderly {} := ⟨List.nodup_nil, Nat.zero_le _⟩

theorem IsOrderly.use (h : c.IsOrderly) (p : Path) (text : String) : (c.use p text).IsOrderly := by
  constructor
  · rw [paths_use]
    exact (List.nodup_cons.mpr ⟨by simp, h.nodup.filter _⟩).sublist (List.take_sublist ..)
  · rw [paths_use]
    exact List.length_take_le ..

end ReadCache
end Comptime
