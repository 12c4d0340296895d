import Comptime.Literal.Number
import Comptime.Proofs.Decimal.Digits

/-! The parts of number literals: digits, signs and the blanks around them. What is read from the
front of a text is such a part, and the longest one. -/
namespace Comptime

namespace Text

variable {p : Char → Bool}

theorem dropWhile_append_of_stop {front rest : List Char} (dropped : ∀ c ∈ front, p c = true)
    (stop : ∀ c ∈ rest.head?, p c = false) : (front ++ rest).dropWhile p = rest := by
  rw [List.dropWhile_append_of_pos dropped]
  cases rest with
  | nil => rfl
  | cons c rest => exact List.dropWhile_cons_of_neg (by simp [stop c rfl])

theorem trimWhile_append {left core right : List Char} (before : ∀ c ∈ left, p c = true)
    (behind : ∀ c ∈ right, p c = true) (kept : ∀ c ∈ core, p c = false) (nonempty : core ≠ []) :
    trimWhile p (left ++ core ++ right) = core := by
  have first : ∀ c ∈ (core ++ right).head?, p c = false := by
    obtain ⟨c, core, rfl⟩ := List.exists_cons_of_ne_nil nonempty
    simpa using kept c (.head _)
  have last : ∀ c ∈ core.reverse.head?, p c = false := fun c hc =>
    kept c (List.mem_reverse.mp (List.mem_of_mem_head? hc))
  rw [trimWhile, dropRightWhile, List.append_assoc,
    dropWhile_append_of_stop before first, List.reverse_append,
    dropWhile_append_of_stop (by simpa using behind) last, List.reverse_reverse]

theorem exists_trimWhile (p : Char → Bool) (cs : List Char) :
    ∃ left right, cs = left ++ trimWhile p cs ++ right ∧ (∀ c ∈ left, p c = true) ∧
      ∀ c ∈ right, p c = true := by
  refine ⟨cs.takeWhile p, ((cs.dropWhile p).reverse.takeWhile p).reverse, ?_,
    fun c => List.mem_takeWhile_imp,
    fun c hc => List.mem_takeWhile_imp (List.mem_reverse.mp hc)⟩
  rw [trimWhile, dropRightWhile, List.append_assoc, ← List.reverse_append,
    List.takeWhile_append_dropWhile,
    List.reverse_reverse, List.takeWhile_append_dropWhile]

/-- A text has blanks at its ends, perhaps none, and between them what is described. -/
def Padded (blank : Char → Bool) (Core : List Char → Prop) (cs : List Char) : Prop :=
  ∃ left core right, cs = left ++ core ++ right ∧ (∀ c ∈ left, blank c = true) ∧
    (∀ c ∈ right, blank c = true) ∧ Core core

theorem padded_iff {blank : Char → Bool} {Core : List Char → Prop} {cs : List Char}
    (solid : ∀ core, Core core → core ≠ [] ∧ ∀ c ∈ core, blank c = false) :
    Padded blank Core cs ↔ Core (trimWhile blank cs) := by
  constructor
  · rintro ⟨left, core, right, rfl, before, behind, h⟩
    obtain ⟨nonempty, kept⟩ := solid core h
    rwa [trimWhile_append before behind kept nonempty]
  · intro h
    obtain ⟨left, right, text, before, behind⟩ := exists_trimWhile blank cs
    exact ⟨left, _, right, text, before, behind, h⟩

theorem isBlank_of_decimalDigit? {c : Char} {d : Nat} (h : decimalDigit? c = some d) :
    isBlank c = false := by
  have apart : ∀ z ∈ digitZeros, ∀ run ∈ blankRuns, z + 10 ≤ run.1 ∨ run.2 < z := by decide
  obtain ⟨z, found, -⟩ := Option.map_eq_some_iff.mp h
  have range := List.find?_some found
  simp only [Bool.and_eq_true, decide_eq_true_eq] at range
  refine List.any_eq_false.mpr fun run hrun => ?_
  have := apart z (List.mem_of_find?_eq_some found) run hrun
  simp only [Bool.and_eq_true, decide_eq_true_eq]
  omega

end Text

namespace Literal

variable {digit? : Char → Option Nat} {cs front rest : List Char} {ds : List Nat}

/-- Characters are digits with the given values. -/
def Digits (digit? : Char → Option Nat) (cs : List Char) (ds : List Nat) : Prop :=
  List.Forall₂ (fun c d => digit? c = some d) cs ds

theorem Digits.exists_of_mem (h : Digits digit? cs ds) {c : Char} (hc : c ∈ cs) :
    ∃ d, digit? c = some d := by
  induction h with
  | nil => cases hc
  | @cons a d _ _ first _ ih =>
    rcases List.mem_cons.mp hc with rfl | hc
    · exact ⟨d, first⟩
    · exact ih hc

theorem Digits.nonempty (h : Digits digit? cs ds) (some : ds ≠ []) : cs ≠ [] := by
  cases h with
  | nil => exact absurd rfl some
  | cons => exact List.cons_ne_nil _ _

theorem ne_of_digit {c m : Char} {d : Nat} (h : digit? c = some d) (other : digit? m = none) :
    c ≠ m := by
  rintro rfl
  cases other.symm.trans h

theorem takeDigits_append (digits : Digits digit? front ds)
    (stop : ∀ c ∈ rest.head?, digit? c = none) :
    takeDigits digit? (front ++ rest) = (ds, rest) := by
  induction digits with
  | nil =>
    cases rest with
    | nil => rfl
    | cons c rest => simp [takeDigits, stop c rfl]
  | cons first _ ih => simp [takeDigits, first, ih]

theorem Digits.takeDigits (digits : Digits digit? cs ds) : takeDigits digit? cs = (ds, []) := by
  have none : ∀ c ∈ ([] : List Char).head?, digit? c = none := by simp
  simpa using takeDigits_append digits none

theorem exists_of_takeDigits (h : takeDigits digit? cs = (ds, rest)) :
    ∃ front, cs = front ++ rest ∧ Digits digit? front ds := by
  induction cs generalizing ds with
  | nil =>
    cases h
    exact ⟨[], rfl, .nil⟩
  | cons c cs ih =>
    cases hc : digit? c with
    | none =>
      simp only [takeDigits, hc] at h
      cases h
      exact ⟨[], rfl, .nil⟩
    | some d =>
      simp only [takeDigits, hc] at h
      cases h
      obtain ⟨front, text, digits⟩ := ih rfl
      exact ⟨c :: front, congrArg (c :: ·) text, .cons hc digits⟩

theorem onlyDigits?_eq_some_iff {base n : Nat} :
    onlyDigits? digit? base cs = some n ↔
      ∃ ds, Digits digit? cs ds ∧ ds ≠ [] ∧ positional base ds = n := by
  unfold onlyDigits?
  constructor
  · intro h
    split at h
    · cases h
    · rename_i ds some taken
      obtain ⟨front, text, digits⟩ := exists_of_takeDigits taken
      rw [List.append_nil] at text
      exact ⟨ds, text ▸ digits, some, Option.some.inj h⟩
    · cases h
  · rintro ⟨ds, digits, nonempty, rfl⟩
    obtain ⟨d, ds, rfl⟩ := List.exists_cons_of_ne_nil nonempty
    simp [digits.takeDigits]

def signed (neg : Bool) (n : Nat) : ℤ := if neg then -n else n

/-- The ways to write a sign, which is plus where there is none. -/
inductive Sign : List Char → Bool → Prop where
  | none : Sign [] false
  | plus : Sign ['+'] false
  | minus : Sign ['-'] true

theorem Sign.mem {s : List Char} {neg : Bool} (h : Sign s neg) : ∀ c ∈ s, c = '+' ∨ c = '-' := by
  cases h <;> simp

theorem takeSign_append {s : List Char} {neg : Bool} (sign : Sign s neg)
    (stop : ∀ c ∈ rest.head?, c ≠ '+' ∧ c ≠ '-') : takeSign (s ++ rest) = (neg, rest) := by
  cases sign with
  | plus | minus => rfl
  | none =>
    cases rest with
    | nil => rfl
    | cons c rest => simp [takeSign, stop c rfl]

theorem exists_of_takeSign {neg : Bool} (h : takeSign cs = (neg, rest)) :
    ∃ s, cs = s ++ rest ∧ Sign s neg := by
  unfold takeSign at h
  split at h <;> cases h
  · exact ⟨['+'], rfl, .plus⟩
  · exact ⟨['-'], rfl, .minus⟩
  · exact ⟨[], rfl, .none⟩

end Literal
end Comptime
