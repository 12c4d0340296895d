import Comptime.Proofs.Constant
import Comptime.Proofs.Exact

/-! Evaluation and exact evaluation go through the same expressions in the same order. Where a
precision manages all that the exact run meets, the two agree. -/
namespace Comptime

namespace Plan

variable {V W F G : Type} {R : V → W → Prop} {Q : List W → Except G W → Prop}

/-- Two plans ask for the same, and end with outcomes that agree where a condition holds of the
second outcome and the values that it follows from. -/
def Simulates (R : V → W → Prop) : (List W → Except G W → Prop) → Plan V F → Plan W G → Prop
  | Q, .finish o, .finish o' => Q [] o' → Agrees R o o'
  | Q, .ask e next, .ask e' next' =>
    e = e' ∧ ∀ v w, R v w → Simulates R (fun ws => Q (w :: ws)) (next v) (next' w)
  | _, _, _ => False

theorem simulates_pass (e : Expr) : (pass e : Plan V F).Simulates R Q (pass e : Plan W G) :=
  ⟨rfl, fun _ _ h _ => .value h⟩

end Plan

/-- What a frame may meet for a precision to manage it: numbers that fit, whole exponents, and
shifts to the left that are not refused. -/
structure Manages (p : Precision) (e : Expr) (ws : List Ideal) (o : Except Unit Ideal) : Prop where
  fits : ∀ q, o = .ok (.number q) → p.Fits q
  exponent : ∀ id lhs op rhs x y, e = .binary id lhs op rhs → op.text = "**" →
    ws = [.number x, .number y] →
    ∃ n : ℤ, y = n
  shift : ∀ id lhs op rhs x y, e = .binary id lhs op rhs → op.text = "<<" →
    ws = [.number x, .number y] →
    y ≤ maxShift

theorem Manages.of_fits {p : Precision} {e : Expr} {ws : List Ideal} {o : Except Unit Ideal}
    (fits : ∀ q, o = .ok (.number q) → p.Fits q)
    (other : ∀ id lhs op rhs, e = .binary id lhs op rhs → op.text ≠ "**" ∧ op.text ≠ "<<") :
    Manages p e ws o where
  fits := fits
  exponent id lhs op rhs _ _ he hop := absurd hop (other id lhs op rhs he).1
  shift id lhs op rhs _ _ he hop := absurd hop (other id lhs op rhs he).2

theorem orFail_eq_ok {V : Type} {x : Option V} {v : V} : Ideal.orFail x = .ok v ↔ x = some v := by
  cases x <;> simp [Ideal.orFail]

theorem simulates_ofExpr (lim : Limits) {p : Precision}
    (wide : p.digits + 1999999 ≤ Precision.greatest) (ds : Declarations) (e : Expr) :
    (Plan.ofExpr (evaluation lim ds p) ds e).Simulates Represents
      (fun ws o => Manages p e ws o ∧ ∀ q, .number q ∈ ws →
        p.Fits q) (Plan.ofExpr Ideal.meaning ds e) := by
  cases e with
  | missing | foreign => exact fun _ => .failure _ ()
  | literal id l =>
    intro ⟨manages, _⟩
    exact (l.value_agrees fun q hq => manages.fits q (orFail_eq_ok.mpr hq)).mapError_left _
  | unary id op arg =>
    refine ⟨rfl, fun v w h _ => ?_⟩
    exact (evalUnary_agrees op.text h).mapError_left _
  | binary id lhs op rhs =>
    refine ⟨rfl, fun v w h => ⟨rfl, fun v' w' h' ⟨manages, operands⟩ => ?_⟩⟩
    refine (evalBinary_agrees h h' ?_ ?_ ?_
      fun q hq => manages.fits q (orFail_eq_ok.mpr hq)).mapError_left _
    · intro hop x y hx hy
      exact manages.exponent id lhs op rhs x y rfl hop (by rw [hx, hy])
    · intro hop x y hx hy
      exact Precision.forRemainder_le wide (operands x (by simp [hx])) (operands y (by simp [hy]))
    · intro hop x y hx hy
      exact manages.shift id lhs op rhs x y rfl hop (by rw [hx, hy])
  | tuple id b items =>
    cases items with
    | nil => exact fun _ => .failure _ ()
    | cons item rest => exact Plan.simulates_pass item
  | conditional id test yes no =>
    refine ⟨rfl, fun v w h => ?_⟩
    cases h with
    | bool b => exact Plan.simulates_pass _
    | _ => exact fun _ => .failure _ ()
  | lookup id name target =>
    simp only [Plan.ofExpr]
    cases target.initializer? ds with
    | none => exact fun _ => .failure _ ()
    | some init => exact Plan.simulates_pass init
  | call id kind fn args =>
    cases kind with
    | typeConversion =>
      cases args with
      | nil => exact fun _ => .failure _ ()
      | cons arg rest => exact Plan.simulates_pass arg
    | _ => exact fun _ => .failure _ ()

namespace Run

/-- A precision manages all that an exact run meets. -/
def Managed (p : Precision) (s : Run Ideal Unit) : Prop :=
  ∀ k t, s.Contains k t → ∀ ws, t.parts.map outcome = ws.map .ok →
    Manages p t.root.expr ws t.root.outcome

theorem managed_node {p : Precision} {e : Expr} {o : Except Unit Ideal} {ss : List (Run Ideal Unit)}
    (frame : ∀ ws, ss.map outcome = ws.map .ok → Manages p e ws o) (parts : ∀ s ∈ ss, s.Managed p) :
    Managed p (.node ⟨e, o⟩ ss) := by
  intro k t h
  cases h with
  | itself => exact frame
  | part hs ht => exact parts _ hs _ _ ht

section
variable {V F : Type} {m : Meaning V F} {ds : Declarations}

theorem isRun_literal {l : Literal} {v : V} (id : Nat) (h : m.literal l = .ok v) :
    IsRun m ds (.node ⟨.literal id l, .ok v⟩ []) := by
  have served : Serves [] (Plan.ofExpr m ds (.literal id l)) (.ok v) := h ▸ .finished _
  exact .frame served (by simp)

theorem isRun_binary {r s : Run V F} {op : Token} {a b v : V} (id : Nat) (hr : r.IsRun m ds)
    (hs : s.IsRun m ds) (left : r.outcome = .ok a) (right : s.outcome = .ok b)
    (h : m.binary op.text a b = .ok v) :
    IsRun m ds (.node ⟨.binary id r.expr op s.expr, .ok v⟩ [r, s]) := by
  have served : Serves [r, s] (Plan.ofExpr m ds (.binary id r.expr op s.expr)) (.ok v) :=
    .passed left (.passed right (h ▸ .finished _))
  exact .frame served (by simp [hr, hs])

end

variable {V W F G : Type} {R : V → W → Prop} {Q : List W → Except G W → Prop}

theorem Serves.agrees {rs : List (Run V F)} {ss : List (Run W G)} {plan : Plan V F}
    {plan' : Plan W G}
    {o : Except F V} {o' : Except G W} (h : Serves rs plan o) (h' : Serves ss plan' o')
    (simulates : plan.Simulates R Q plan')
    (runs : ∀ r ∈ rs, ∀ s ∈ ss, r.expr = s.expr → Agrees R r.outcome s.outcome)
    (condition : ∀ ws, ss.map outcome = ws.map .ok → Q ws o') : Agrees R o o' := by
  induction h generalizing ss plan' Q with
  | finished o =>
    cases h' with
    | finished o' => exact simulates (condition [] rfl)
    | passed | failed => exact simulates.elim
  | @passed r v rs next o value rest ih =>
    cases h' with
    | finished => exact simulates.elim
    | @passed s w ss next' o' value' rest' =>
      obtain ⟨same, simulates⟩ := simulates
      have agrees := runs _ (.head _) _ (.head _) same
      rw [value, value'] at agrees
      cases agrees with
      | value hR =>
        refine ih rest' (simulates v w hR) ?_ ?_
        · exact fun r hr s hs => runs r (.tail _ hr) s (.tail _ hs)
        · exact fun ws hws => condition (w :: ws) (by simp [value', hws])
    | failed failure =>
      have agrees := runs _ (.head _) _ (.head _) simulates.1
      rw [value, failure] at agrees
      cases agrees
  | failed failure =>
    cases h' with
    | finished => exact simulates.elim
    | passed value' rest' =>
      have agrees := runs _ (.head _) _ (.head _) simulates.1
      rw [failure, value'] at agrees
      cases agrees
    | failed failure' => exact .failure _ _

theorem IsRun.exists_values {m : Meaning V F} {ds : Declarations} {r : Run V F} {v : V}
    (hr : r.IsRun m ds) (h : r.outcome = .ok v) :
    ∃ vs : List V, r.parts.map outcome = vs.map .ok := by
  obtain @⟨e, rs, o, serves, -⟩ := hr
  obtain rfl : o = .ok v := mapError_eq_ok.mp h
  rcases serves.ends with ⟨f, -, -, failed, -⟩ | ⟨vs, values, -⟩
  · cases failed
  · exact ⟨vs, values⟩

theorem Managed.fits {ds : Declarations} {p : Precision} {s : Run Ideal Unit}
    (managed : s.Managed p)
    (hs : s.IsRun Ideal.meaning ds) {q : ℚ} (h : s.outcome = .ok (.number q)) : p.Fits q := by
  obtain ⟨ws, values⟩ := hs.exists_values h
  exact (managed 0 s (.itself s) ws values).fits q h

theorem IsRun.agrees {lim : Limits} {ds : Declarations} {p : Precision} {r : Run Value Failure}
    {s : Run Ideal Unit}
    (wide : p.digits + 1999999 ≤ Precision.greatest) (hr : r.IsRun (evaluation lim ds p) ds)
    (hs : s.IsRun Ideal.meaning ds) (same : r.expr = s.expr)
    (managed : s.Managed p) : Agrees Represents r.outcome s.outcome := by
  induction hs generalizing r with
  | @frame e ss o' serves' runs' ih =>
    obtain @⟨e', rs, o, serves, runs⟩ := hr
    obtain rfl : e' = e := same
    have agrees : Agrees Represents o o' := by
      have parts (s : Run Ideal Unit) (hs : s ∈ ss) : s.Managed p := fun k t ht =>
        managed _ t (.part hs ht)
      refine serves.agrees serves' (simulates_ofExpr lim wide ds _) ?_ fun ws hws =>
        ⟨?_, fun q hq => ?_⟩
      · exact fun r hr s hs same => ih s hs (runs r hr) same (parts s hs)
      · have manages := managed 0 _ (.itself _) ws hws
        have kept : o'.mapError (Ideal.meaning.blaming e') = o' := by cases o' <;> rfl
        simpa [Tree.root, kept] using manages
      · have value : Except.ok (.number q) ∈ ss.map outcome := hws ▸ List.mem_map_of_mem hq
        obtain ⟨s, hs, hq⟩ := List.mem_map.mp value
        exact (parts s hs).fits (runs' s hs) hq
    exact (agrees.mapError_left _).mapError_right _

end Run

end Comptime
