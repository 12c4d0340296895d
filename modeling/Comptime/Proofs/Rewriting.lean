import Comptime.Proofs.Run

/-! Rewriting of expressions at any places of their unfolding. Where each replacement of an
expression keeps it constant and keeps its outcome, so does rewriting by it, but for what an error
blames. -/
namespace Comptime

def Failure.unblamed : Failure → Failure
  | .error e => .error { e with blame := .missing }
  | f => f

/-- The outcome of an evaluation: its value, the kind and message of its error, or how else it
ended. -/
def unblamed {α : Type} (outcome : Except Failure α) : Except Failure α :=
  outcome.mapError .unblamed

section
variable {α β : Type} (node : Expr) (o : Except Failure α) (f : α → Except Failure β)

@[simp] theorem unblamed_blamed : unblamed (blamed node o) = unblamed o := by
  cases o with
  | ok v => rfl
  | error f =>
    cases f with
    | error e =>
      simp only [unblamed, blamed, Except.mapError, Failure.blaming,
        EvalError.blaming, Failure.unblamed]
      split_ifs <;> rfl
    | _ => rfl

@[simp] theorem unblamed_bind : unblamed (o >>= f) = unblamed o >>= fun v => unblamed (f v) := by
  cases o <;> rfl

end

namespace Expr

/-- An expression at the given depth is constant. -/
inductive Constant (ds : Declarations) (limit : Int) : Int → Expr → Prop where
  | literal {depth : Int} {id : Nat} {l : Literal} (deep : depth ≤ limit) :
      Constant ds limit depth (.literal id l)
  | unary {depth : Int} {id : Nat} {op : Token} {arg : Expr} (deep : depth ≤ limit)
      (part : Constant ds limit (depth + 1) arg) : Constant ds limit depth (.unary id op arg)
  | binary {depth : Int} {id : Nat} {lhs rhs : Expr} {op : Token} (deep : depth ≤ limit)
      (left : Constant ds limit (depth + 1) lhs) (right : Constant ds limit (depth + 1) rhs) :
      Constant ds limit depth (.binary id lhs op rhs)
  | tuple {depth : Int} {id : Nat} {b : Brackets} {item : Expr} (deep : depth ≤ limit)
      (plain : b.isArray = false) (part : Constant ds limit (depth + 1) item) :
      Constant ds limit depth (.tuple id b [item])
  | conditional {depth : Int} {id : Nat} {test yes no : Expr} (deep : depth ≤ limit)
      (first : Constant ds limit (depth + 1) test) (second : Constant ds limit (depth + 1) yes)
      (third : Constant ds limit (depth + 1) no) : Constant ds limit depth
        (.conditional id test yes no)
  | lookup {depth : Int} {id i : Nat} {name : Token} {d : Declaration} (deep : depth ≤ limit)
      (declared : ds[i]? = some d) (constant : d.isConstant = true)
      (init : Constant ds limit (depth + 1) d.init) : Constant ds limit depth
        (.lookup id name (.variable i))
  | call {depth : Int} {id : Nat} {fn arg : Expr} {rest : List Expr} (deep : depth ≤ limit)
      (part : Constant ds limit (depth + 1) arg) :
      Constant ds limit depth (.call id .typeConversion fn (arg :: rest))

variable {lim : Limits} {ds ds' : Declarations} {p : Precision} {limit depth : Int} {e : Expr}

theorem constant_iff : e.Constant ds limit depth ↔ e.constantByDepth ds limit depth = true := by
  constructor
  · intro h
    induction h <;>
      · unfold constantByDepth
        simp_all
  · intro h
    fun_induction constantByDepth ds limit depth e with
    | case1 depth deep => exact .literal deep
    | case2 depth deep id op arg ih => exact .unary deep (ih h)
    | case3 depth deep id lhs op rhs left right =>
      obtain ⟨hl, hr⟩ := Bool.and_eq_true_iff.mp h
      exact .binary deep (left hl) (right hr)
    | case4 depth deep id b item ih =>
      obtain ⟨hb, hi⟩ := Bool.and_eq_true_iff.mp h
      exact .tuple deep (by simpa using hb) (ih hi)
    | case5 depth deep id test yes no first second third =>
      obtain ⟨hty, hn⟩ := Bool.and_eq_true_iff.mp h
      obtain ⟨ht, hy⟩ := Bool.and_eq_true_iff.mp hty
      exact .conditional deep (first ht) (second hy) (third hn)
    | case6 depth deep id name i d hd ih =>
      obtain ⟨hc, hi⟩ := Bool.and_eq_true_iff.mp h
      exact .lookup deep hd hc (ih hi)
    | case8 depth deep id fn arg rest ih => exact .call deep (ih h)
    | case7 | case9 | case10 => cases h

theorem isConstant_iff : isConstant ds limit e = true ↔ e.Constant ds limit 0 :=
  ((constant_tfae ds limit e 0).out 0 1).trans constant_iff.symm

theorem Constant.mono {depth' : Int} (h : e.Constant ds limit depth) (le : depth' ≤ depth) :
    e.Constant ds limit depth' := by
  induction h generalizing depth' with
  | literal deep => exact .literal (le.trans deep)
  | unary deep _ ih => exact .unary (le.trans deep) (ih (by omega))
  | binary deep _ _ left right => exact .binary (le.trans deep) (left (by omega)) (right (by omega))
  | tuple deep plain _ ih => exact .tuple (le.trans deep) plain (ih (by omega))
  | conditional deep _ _ _ first second third =>
    exact .conditional (le.trans deep) (first (by omega)) (second (by omega)) (third (by omega))
  | lookup deep declared constant _ ih =>
    exact .lookup (le.trans deep) declared constant (ih (by omega))
  | call deep _ ih => exact .call (le.trans deep) (ih (by omega))

theorem Constant.evaluate_eq (h : e.Constant ds limit depth) :
    evaluate lim ds p e =
      blamed e ((Plan.ofExpr (evaluation lim ds p) ds e).outcome (evaluate lim ds p)) := by
  obtain ⟨t, rfl, ht⟩ := unfolds_of_constantByDepth (constant_iff.mp h)
  obtain ⟨r, hr, root, -⟩ := Run.exists_run (m := evaluation lim ds p) ht.unfolding
  rw [← root, hr.evaluate_eq]
  obtain ⟨serves, runs⟩ := hr
  exact congrArg (blamed _) (serves.outcome_eq fun r hr => (runs r hr).evaluate_eq).symm

theorem Constant.unblamed_lookup {id i : Nat} {name : Token} {d : Declaration}
    (h : (Expr.lookup id name (.variable i)).Constant ds limit depth) (hd : ds[i]? = some d) :
    unblamed (evaluate lim ds p (.lookup id name (.variable i))) =
      unblamed (evaluate lim ds p d.init) := by
  have present : d.init.isMissing = false := by
    cases h with
    | lookup _ declared _ init =>
      obtain rfl := Option.some.inj (hd.symm.trans declared)
      exact (unfolds_of_constantByDepth (constant_iff.mp init)).present
  rw [h.evaluate_eq, Plan.ofExpr, Target.initializer?_variable hd present,
    Plan.outcome_pass, unblamed_blamed]

section
variable (id : Nat) (op : Token)

@[simp] theorem unblamed_literal (l : Literal) :
    unblamed (evaluate lim ds p (.literal id l)) = unblamed ((l.value p).mapError (.ofStop lim)) :=
  unblamed_blamed _ _

@[simp] theorem unblamed_unary (arg : Expr) :
    unblamed (evaluate lim ds p (.unary id op arg)) =
      unblamed (evaluate lim ds p arg) >>= fun v =>
        unblamed ((evalUnary op.text v).mapError (.ofFault lim)) :=
  (unblamed_blamed _ _).trans (unblamed_bind _ _)

@[simp] theorem unblamed_binary (lhs rhs : Expr) :
    unblamed (evaluate lim ds p (.binary id lhs op rhs)) =
      unblamed (evaluate lim ds p lhs) >>= fun a => unblamed (evaluate lim ds p rhs) >>= fun b =>
        unblamed ((evalBinary p op.text a b).mapError (.ofStop lim)) := by
  refine (unblamed_blamed _ _).trans ((unblamed_bind _ _).trans ?_)
  exact congrArg _ (funext fun a => unblamed_bind _ _)

@[simp] theorem unblamed_tuple (b : Brackets) (item : Expr) :
    unblamed (evaluate lim ds p (.tuple id b [item])) = unblamed (evaluate lim ds p item) :=
  unblamed_blamed _ _

@[simp] theorem unblamed_conditional (test yes no : Expr) :
    unblamed (evaluate lim ds p (.conditional id test yes no)) =
      unblamed (evaluate lim ds p test) >>= fun v => unblamed (conditionOf lim v) >>= fun b =>
        if b then unblamed (evaluate lim ds p yes) else unblamed (evaluate lim ds p no) := by
  refine (unblamed_blamed _ _).trans ((unblamed_bind _ _).trans ?_)
  refine congrArg _ (funext fun v => (unblamed_bind _ _).trans ?_)
  exact congrArg _ (funext fun b => apply_ite unblamed _ _ _)

@[simp] theorem unblamed_call (fn arg : Expr) (rest : List Expr) :
    unblamed (evaluate lim ds p (.call id .typeConversion fn (arg :: rest))) =
      unblamed (evaluate lim ds p arg) :=
  unblamed_blamed _ _

end

/-- One expression becomes another by any number of replacements at any places of its unfolding,
also in the initializers, which another table has. What is not looked at, as the name of a type, may
be anything. -/
inductive Rewrites (R : Expr → Expr → Prop) (ds ds' : Declarations) : Expr → Expr → Prop where
  | here {e n e' : Expr} (root : R e n) (rest : Rewrites R ds ds' n e') : Rewrites R ds ds' e e'
  | literal {id id' : Nat} {l : Literal} : Rewrites R ds ds' (.literal id l) (.literal id' l)
  | unary {id id' : Nat} {op : Token} {arg arg' : Expr} (part : Rewrites R ds ds' arg arg') :
      Rewrites R ds ds' (.unary id op arg) (.unary id' op arg')
  | binary {id id' : Nat} {op : Token} {lhs lhs' rhs rhs' : Expr}
      (left : Rewrites R ds ds' lhs lhs') (right : Rewrites R ds ds' rhs rhs') :
      Rewrites R ds ds' (.binary id lhs op rhs) (.binary id' lhs' op rhs')
  | tuple {id id' : Nat} {b : Brackets} {item item' : Expr} (part : Rewrites R ds ds' item item') :
      Rewrites R ds ds' (.tuple id b [item]) (.tuple id' b [item'])
  | conditional {id id' : Nat} {test test' yes yes' no no' : Expr}
      (first : Rewrites R ds ds' test test') (second : Rewrites R ds ds' yes yes')
      (third : Rewrites R ds ds' no no') :
      Rewrites R ds ds' (.conditional id test yes no) (.conditional id' test' yes' no')
  | lookup {id id' i i' : Nat} {name name' : Token} {d d' : Declaration}
      (declared : ds[i]? = some d) (declared' : ds'[i']? = some d')
      (constant : d'.isConstant = d.isConstant) (init : Rewrites R ds ds' d.init d'.init) :
      Rewrites R ds ds' (.lookup id name (.variable i)) (.lookup id' name' (.variable i'))
  | call {id id' : Nat} {fn fn' arg arg' : Expr} {rest rest' : List Expr}
      (part : Rewrites R ds ds' arg arg') :
      Rewrites R ds ds' (.call id .typeConversion fn (arg :: rest))
        (.call id' .typeConversion fn' (arg' :: rest'))

/-- What may take the place of an expression: a literal, or something that is constant even one node
deeper, if the expression is constant, and with the same outcome. -/
structure Preserves (lim : Limits) (p : Precision) (ds : Declarations) (R : Expr → Expr → Prop) :
    Prop where
  lower : ∀ {limit depth e n}, R e n → e.Constant ds limit depth →
    (∃ id l, n = .literal id l) ∨ n.Constant ds limit (depth + 1)
  outcome : ∀ {limit depth e n}, R e n → e.Constant ds limit depth →
    unblamed (evaluate lim ds p n) = unblamed (evaluate lim ds p e)

variable {R : Expr → Expr → Prop} {e' n : Expr}

theorem Constant.deep (h : e.Constant ds limit depth) : depth ≤ limit := by
  cases h <;> assumption

theorem Preserves.constant (keeps : Preserves lim p ds R) (root : R e n)
    (h : e.Constant ds limit depth) :
    n.Constant ds limit depth := by
  rcases keeps.lower root h with ⟨id, l, rfl⟩ | lower
  · exact .literal h.deep
  · exact lower.mono (by omega)

/-- Rewriting by what preserves constant expressions and their outcomes does so as well. -/
theorem Rewrites.preserves (keeps : Preserves lim p ds R) (h : e.Rewrites R ds ds' e')
    (constant : e.Constant ds limit depth) :
    e'.Constant ds' limit depth ∧
    unblamed (evaluate lim ds' p e') = unblamed (evaluate lim ds p e) := by
  induction h generalizing depth with
  | here root _ ih =>
    obtain ⟨last, same⟩ := ih (keeps.constant root constant)
    exact ⟨last, same.trans (keeps.outcome root constant)⟩
  | literal =>
    cases constant with
    | literal deep => exact ⟨.literal deep, by simp⟩
  | unary _ ih =>
    cases constant with
    | unary deep part =>
      obtain ⟨part', same⟩ := ih part
      exact ⟨.unary deep part', by simp [same]⟩
  | binary _ _ left right =>
    cases constant with
    | binary deep lhs rhs =>
      obtain ⟨lhs', first⟩ := left lhs
      obtain ⟨rhs', second⟩ := right rhs
      exact ⟨.binary deep lhs' rhs', by simp [first, second]⟩
  | tuple _ ih =>
    cases constant with
    | tuple deep plain part =>
      obtain ⟨part', same⟩ := ih part
      exact ⟨.tuple deep plain part', by simp [same]⟩
  | conditional _ _ _ first second third =>
    cases constant with
    | conditional deep test yes no =>
      obtain ⟨test', condition⟩ := first test
      obtain ⟨yes', branch⟩ := second yes
      obtain ⟨no', other⟩ := third no
      exact ⟨.conditional deep test' yes' no', by simp [condition, branch, other]⟩
  | lookup declared declared' kept _ ih =>
    cases constant with
    | lookup deep found isConstant init =>
      obtain rfl := Option.some.inj (declared.symm.trans found)
      obtain ⟨init', same⟩ := ih init
      have named := kept.trans isConstant
      refine ⟨.lookup deep declared' named init', ?_⟩
      rw [(Constant.lookup deep declared isConstant init).unblamed_lookup declared, ← same]
      exact (Constant.lookup deep declared' named init').unblamed_lookup declared'
  | call _ ih =>
    cases constant with
    | call deep part =>
      obtain ⟨part', same⟩ := ih part
      exact ⟨.call deep part', by simp [same]⟩

/-- One occurrence in an expression is replaced, wherever it stands. -/
inductive Replaces (R : Expr → Expr → Prop) : Expr → Expr → Prop where
  | here {e n : Expr} (root : R e n) : Replaces R e n
  | operand {id id' : Nat} {op : Token} {arg arg' : Expr} (place : Replaces R arg arg') :
      Replaces R (.unary id op arg) (.unary id' op arg')
  | left {id id' : Nat} {op : Token} {lhs lhs' rhs : Expr} (place : Replaces R lhs lhs') :
      Replaces R (.binary id lhs op rhs) (.binary id' lhs' op rhs)
  | right {id id' : Nat} {op : Token} {lhs rhs rhs' : Expr} (place : Replaces R rhs rhs') :
      Replaces R (.binary id lhs op rhs) (.binary id' lhs op rhs')
  | item {id id' : Nat} {b : Brackets} {front back : List Expr} {item item' : Expr}
      (place : Replaces R item item') :
      Replaces R (.tuple id b (front ++ item :: back)) (.tuple id' b (front ++ item' :: back))
  | test {id id' : Nat} {test test' yes no : Expr} (place : Replaces R test test') :
      Replaces R (.conditional id test yes no) (.conditional id' test' yes no)
  | yes {id id' : Nat} {test yes yes' no : Expr} (place : Replaces R yes yes') :
      Replaces R (.conditional id test yes no) (.conditional id' test yes' no)
  | no {id id' : Nat} {test yes no no' : Expr} (place : Replaces R no no') :
      Replaces R (.conditional id test yes no) (.conditional id' test yes no')
  | function {id id' : Nat} {kind : CallKind} {fn fn' : Expr} {args : List Expr}
      (place : Replaces R fn fn') : Replaces R (.call id kind fn args) (.call id' kind fn' args)
  | argument {id id' : Nat} {kind : CallKind} {fn : Expr} {front back : List Expr} {arg arg' : Expr}
      (place : Replaces R arg arg') :
      Replaces R (.call id kind fn (front ++ arg :: back))
        (.call id' kind fn (front ++ arg' :: back))

section
variable (parts : ∀ n : Expr, n.Constant ds limit (depth + 1) → n.Rewrites R ds ds' n)
include parts

theorem Constant.rewrites_self (h : e.Constant ds limit depth)
    (inits : ∀ (i : Nat) (d : Declaration), ds[i]? = some d → d.init.Constant ds limit (depth + 1) →
      ∃ d' : Declaration, ds'[i]? = some d' ∧ d'.isConstant = d.isConstant ∧
        d.init.Rewrites R ds ds' d'.init) : e.Rewrites R ds ds' e := by
  cases h with
  | literal => exact .literal
  | unary _ arg => exact .unary (parts _ arg)
  | binary _ lhs rhs => exact .binary (parts _ lhs) (parts _ rhs)
  | tuple _ _ item => exact .tuple (parts _ item)
  | conditional _ test yes no => exact .conditional (parts _ test) (parts _ yes) (parts _ no)
  | lookup _ declared _ init =>
    obtain ⟨d', declared', kept, rewrites⟩ := inits _ _ declared init
    exact .lookup declared declared' kept rewrites
  | call _ arg => exact .call (parts _ arg)

theorem Replaces.rewrites (keeps : Preserves lim p ds R) (h : e.Constant ds limit depth)
    (place : e.Replaces R e')
    (inner : ∀ n n' : Expr, n.Constant ds limit (depth + 1) → n.Replaces R n' →
      n.Rewrites R ds ds' n') :
    e.Rewrites R ds ds' e' := by
  cases place with
  | here root =>
    rcases keeps.lower root h with ⟨id, l, rfl⟩ | lower
    · exact .here root .literal
    · exact .here root (parts _ lower)
  | operand place => cases h with | unary _ arg => exact .unary (inner _ _ arg place)
  | left place =>
    cases h with | binary _ lhs rhs => exact .binary (inner _ _ lhs place) (parts _ rhs)
  | right place =>
    cases h with | binary _ lhs rhs => exact .binary (parts _ lhs) (inner _ _ rhs place)
  | test place =>
    cases h with
    | conditional _ test yes no =>
      exact .conditional (inner _ _ test place) (parts _ yes) (parts _ no)
  | yes place =>
    cases h with
    | conditional _ test yes no =>
      exact .conditional (parts _ test) (inner _ _ yes place) (parts _ no)
  | no place =>
    cases h with
    | conditional _ test yes no =>
      exact .conditional (parts _ test) (parts _ yes) (inner _ _ no place)
  | function place => cases h with | call _ arg => exact .call (parts _ arg)
  | @item _ _ _ front _ _ _ place =>
    cases front with
    | nil => cases h with | tuple _ _ item => exact .tuple (inner _ _ item place)
    | cons first front => cases front <;> cases h
  | @argument _ _ _ _ front _ _ _ place =>
    cases front with
    | nil => cases h with | call _ arg => exact .call (inner _ _ arg place)
    | cons first front => cases h with | call _ arg => exact .call (parts _ arg)

end

theorem rewrites_of_replaces (keeps : Preserves lim p ds R)
    (tables : ∀ (i : Nat) (d : Declaration), ds[i]? = some d →
      ∃ d' : Declaration, ds'[i]? = some d' ∧
      d'.isConstant = d.isConstant ∧ (d'.init = d.init ∨ d.init.Replaces R d'.init))
    (h : e.Constant ds limit depth) :
    e.Rewrites R ds ds' e ∧ ∀ e', e.Replaces R e' → e.Rewrites R ds ds' e' := by
  -- What takes the place of an expression is no part of it, but it is less deep than its place
  -- allows.
  induction hk : (limit + 1 - depth).toNat generalizing e depth with
  | zero =>
    have := h.deep
    omega
  | succ k ih =>
    have parts (n : Expr) (hn : n.Constant ds limit (depth + 1)) : n.Rewrites R ds ds' n :=
      (ih hn (by omega)).1
    have inner (n n' : Expr) (hn : n.Constant ds limit (depth + 1)) (place : n.Replaces R n') :
        n.Rewrites R ds ds' n' := (ih hn (by omega)).2 n' place
    refine ⟨h.rewrites_self parts fun i d declared init => ?_, fun e' place =>
      Replaces.rewrites parts keeps h place inner⟩
    obtain ⟨d', declared', kept, same | place⟩ := tables i d declared
    · exact ⟨d', declared', kept, by rw [same]; exact parts _ init⟩
    · exact ⟨d', declared', kept, inner _ _ init place⟩

end Expr

/-- An expression and the declarations that its names refer to change by a replacement: of one
occurrence in the expression, of one in an initializer, or of any number in the unfolding of the
expression. -/
inductive Replacement (R : Expr → Expr → Prop) :
    Declarations × Expr → Declarations × Expr → Prop where
  | expression {ds : Declarations} {e e' : Expr} (place : e.Replaces R e') :
      Replacement R (ds, e) (ds, e')
  | initializer {ds : Declarations} {e init : Expr} {i : Nat} {d : Declaration}
      (declared : ds[i]? = some d) (place : d.init.Replaces R init) :
      Replacement R (ds, e) (ds.setIfInBounds i { d with init }, e)
  | unfolding {ds ds' : Declarations} {e e' : Expr} (places : e.Rewrites R ds ds' e') :
      Replacement R (ds, e) (ds', e')

section
variable {lim : Limits} {p : Precision} {limit depth : Int} {s t : Declarations × Expr}

theorem Replacement.preserves {R : Expr → Expr → Prop} (keeps : Expr.Preserves lim p s.1 R)
    (h : Replacement R s t) (constant : s.2.Constant s.1 limit depth) :
    t.2.Constant t.1 limit depth ∧
    unblamed (evaluate lim t.1 p t.2) = unblamed (evaluate lim s.1 p s.2) := by
  cases h with
  | expression place =>
    have rewrites := Expr.rewrites_of_replaces keeps (fun i d hd => ⟨d, hd, rfl, .inl rfl⟩) constant
    exact (rewrites.2 _ place).preserves keeps constant
  | @initializer ds e init i d declared place =>
    refine (Expr.rewrites_of_replaces keeps (fun j d' hd' => ?_)
      constant).1.preserves keeps constant
    rw [Array.getElem?_setIfInBounds]
    by_cases same : i = j
    · subst same
      obtain rfl := Option.some.inj (declared.symm.trans hd')
      have bound := (Array.getElem?_eq_some_iff.mp hd').1
      exact ⟨{ d with init }, by simp [bound], rfl, .inr place⟩
    · exact ⟨d', by simpa [same] using hd', rfl, .inl rfl⟩
  | unfolding places => exact places.preserves keeps constant

theorem replacements_preserve {R : Declarations → Expr → Expr → Prop}
    (keeps : ∀ ds, Expr.Preserves lim p ds (R ds))
    (h : Relation.ReflTransGen (fun s t => Replacement (R s.1) s t) s t)
    (constant : s.2.Constant s.1 limit depth) :
    t.2.Constant t.1 limit depth ∧
    unblamed (evaluate lim t.1 p t.2) = unblamed (evaluate lim s.1 p s.2) := by
  induction h with
  | refl => exact ⟨constant, rfl⟩
  | tail _ last ih =>
    obtain ⟨before, same⟩ := ih
    obtain ⟨after, alike⟩ := last.preserves (keeps _) before
    exact ⟨after, alike.trans same⟩

end
end Comptime
