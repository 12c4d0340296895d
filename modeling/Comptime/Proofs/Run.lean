import Comptime.Evaluation
import Comptime.Proofs.Unfolding

/-! Runs of the evaluation as trees of frames, one for each expression that is evaluated. How frames
follow one another is the same whatever literals, operators and conditions mean. A run is finite and
the only one of its expression, and each expression with a finite unfolding has one. -/
namespace Comptime

/-- What literals, operators and conditions mean, and how failures are told. -/
structure Meaning (V F : Type) where
  literal : Literal → Except F V
  unary : String → V → Except F V
  binary : String → V → V → Except F V
  condition : V → Except F Bool
  unevaluable : Expr → F
  noSuchPart : F
  blaming : Expr → F → F

/-- What a frame goes through: it asks for the value of another expression and goes on with that, or
ends. -/
inductive Plan (V F : Type) where
  | finish (outcome : Except F V)
  | ask (e : Expr) (next : V → Plan V F)

def Target.initializer? (ds : Declarations) : Target → Option Expr
  | .variable i => (ds[i]?.map (·.init)).filter fun e => !e.isMissing
  | _ => none

theorem Target.initializer?_variable {ds : Declarations} {i : Nat} {d : Declaration}
    (hd : ds[i]? = some d) (present : d.init.isMissing = false) :
    (Target.variable i).initializer? ds = some d.init := by
  simp [initializer?, hd, present]

namespace Plan

variable {V F : Type}

def pass (e : Expr) : Plan V F := .ask e fun v => .finish (.ok v)

/-- The plan for an expression. -/
def ofExpr (m : Meaning V F) (ds : Declarations) : Expr → Plan V F
  | .literal _ l => .finish (m.literal l)
  | .unary _ op arg => .ask arg fun v => .finish (m.unary op.text v)
  | .binary _ lhs op rhs => .ask lhs fun a => .ask rhs fun b => .finish (m.binary op.text a b)
  | .tuple _ _ (item :: _) => .pass item
  | .tuple _ _ [] => .finish (.error m.noSuchPart)
  | .conditional _ test yes no => .ask test fun v =>
    match m.condition v with
    | .ok b => .pass (if b then yes else no)
    | .error f => .finish (.error f)
  | e@(.lookup _ _ target) =>
    match target.initializer? ds with
    | some init => .pass init
    | none => .finish (.error (m.unevaluable e))
  | .call _ .typeConversion _ (arg :: _) => .pass arg
  | .call _ .typeConversion _ [] => .finish (.error m.noSuchPart)
  | e => .finish (.error (m.unevaluable e))

def outcome (value : Expr → Except F V) : Plan V F → Except F V
  | .finish o => o
  | .ask e next => value e >>= fun v => outcome value (next v)

def Asks (P : Expr → Prop) : Plan V F → Prop
  | .finish _ => True
  | .ask e next => P e ∧ ∀ v, Asks P (next v)

@[simp] theorem outcome_pass (value : Expr → Except F V) (e : Expr) :
    (pass e).outcome value = value e := by
  cases h : value e <;> simp [pass, outcome, h, bind, Except.bind]

theorem asks_pass {P : Expr → Prop} {e : Expr} (h : P e) : (pass e : Plan V F).Asks P :=
  ⟨h, fun _ => trivial⟩

theorem initializer_mem_parts {ds : Declarations} {id : Nat} {name : Token} {target : Target}
    {init : Expr} (h : target.initializer? ds = some init) :
    init ∈ (Expr.lookup id name target).parts ds := by
  cases target <;> simp_all [Target.initializer?, Expr.parts, Option.filter_eq_some_iff]

theorem asks_parts (m : Meaning V F) (ds : Declarations) (e : Expr) :
    (ofExpr m ds e).Asks (· ∈ e.parts ds) := by
  fun_cases ofExpr m ds e with
  | case1 | case5 | case8 | case10 | case11 => trivial
  | case2 => simp [Asks, Expr.parts]
  | case3 => simp [Asks, Expr.parts]
  | case4 => exact asks_pass (by simp [Expr.parts])
  | case6 id test yes no =>
    refine ⟨by simp [Expr.parts], fun v => ?_⟩
    beta_reduce
    cases m.condition v with
    | ok b => cases b <;> exact asks_pass (by simp [Expr.parts])
    | error f => trivial
  | case7 id name target init h => exact asks_pass (initializer_mem_parts h)
  | case9 => exact asks_pass (by simp [Expr.parts])

end Plan

/-- An expression that is evaluated, and what comes of it. -/
structure Frame (V F : Type) where
  expr : Expr
  outcome : Except F V

abbrev Run (V F : Type) := Tree (Frame V F)

namespace Run

variable {V F : Type}

abbrev expr (r : Run V F) : Expr := r.root.expr

abbrev outcome (r : Run V F) : Except F V := r.root.outcome

/-- The runs that a plan goes through, up to its outcome. The first one that fails is the last. -/
inductive Serves : List (Run V F) → Plan V F → Except F V → Prop where
  | finished (o : Except F V) : Serves [] (.finish o) o
  | passed {r : Run V F} {v : V} {rs : List (Run V F)} {next : V → Plan V F} {o : Except F V}
      (value : r.outcome = .ok v)
      (rest : Serves rs (next v) o) : Serves (r :: rs) (.ask r.expr next) o
  | failed {r : Run V F} {f : F} {next : V → Plan V F} (failure : r.outcome = .error f) :
      Serves [r] (.ask r.expr next) (.error f)

/-- A tree of frames is the run of its first expression. -/
inductive IsRun (m : Meaning V F) (ds : Declarations) : Run V F → Prop where
  | frame {e : Expr} {rs : List (Run V F)} {o : Except F V} (serves : Serves rs (.ofExpr m ds e) o)
      (runs : ∀ r ∈ rs, IsRun m ds r) : IsRun m ds (.node ⟨e, o.mapError (m.blaming e)⟩ rs)

variable {m : Meaning V F} {ds : Declarations} {e : Expr} {plan : Plan V F}

theorem Serves.unique {rs rs' : List (Run V F)} {o o' : Except F V} (h : Serves rs plan o)
    (h' : Serves rs' plan o') (same : ∀ r ∈ rs, ∀ r' ∈ rs', r.expr = r'.expr → r = r') :
    rs = rs' ∧ o = o' := by
  induction h generalizing rs' with
  | finished o => cases h'; exact ⟨rfl, rfl⟩
  | passed value rest ih =>
    generalize hn : expr _ = n at h'
    cases h' with
    | passed value' rest' =>
      obtain rfl := same _ (.head _) _ (.head _) hn
      obtain rfl := Except.ok.inj (value.symm.trans value')
      obtain ⟨rfl, rfl⟩ := ih rest' fun r hr r' hr' => same r (.tail _ hr) r' (.tail _ hr')
      exact ⟨rfl, rfl⟩
    | failed failure =>
      obtain rfl := same _ (.head _) _ (.head _) hn
      cases value.symm.trans failure
  | failed failure =>
    generalize hn : expr _ = n at h'
    cases h' with
    | passed value' rest' =>
      obtain rfl := same _ (.head _) _ (.head _) hn
      cases failure.symm.trans value'
    | failed failure' =>
      obtain rfl := same _ (.head _) _ (.head _) hn
      obtain rfl := Except.error.inj (failure.symm.trans failure')
      exact ⟨rfl, rfl⟩

theorem IsRun.unique {r s : Run V F} (hr : r.IsRun m ds) (hs : s.IsRun m ds) (h : r.expr = s.expr) :
    r = s := by
  induction hr generalizing s with
  | @frame e rs o serves runs ih =>
    obtain @⟨e', ss, o', serves', runs'⟩ := hs
    obtain rfl : e = e' := h
    obtain ⟨rfl, rfl⟩ := serves.unique serves' fun r hr s hs => ih r hr (runs' s hs)
    rfl

/-- A plan is served by runs of some kind if all expressions that it asks for have one. -/
theorem exists_serves {P : Run V F → Prop}
    (h : plan.Asks fun e => ∃ r : Run V F, r.expr = e ∧ P r) :
    ∃ rs o, Serves rs plan o ∧ ∀ r ∈ rs, P r := by
  induction plan with
  | finish o => exact ⟨[], o, .finished o, by simp⟩
  | ask e next ih =>
    obtain ⟨⟨r, rfl, hr⟩, later⟩ := h
    cases outcome : r.outcome with
    | error f => exact ⟨[r], .error f, .failed outcome, by simpa using hr⟩
    | ok v =>
      obtain ⟨rs, o, serves, all⟩ := ih v (later v)
      exact ⟨r :: rs, o, .passed outcome serves, by simpa [hr] using all⟩

theorem asks_mono {P Q : Expr → Prop} (h : ∀ e, P e → Q e) (hp : plan.Asks P) : plan.Asks Q := by
  induction plan with
  | finish o => trivial
  | ask e next ih => exact ⟨h e hp.1, fun v => ih v (hp.2 v)⟩

/-- An expression with a finite unfolding has a run, which stays within the unfolding. -/
theorem exists_run {t : Tree Expr} (ht : t.IsUnfolding ds) :
    ∃ r : Run V F, r.IsRun m ds ∧ r.expr = t.root ∧
      ∀ k s, r.Contains k s → ∃ u, t.Contains k u ∧ u.root = s.root.expr := by
  induction ht with
  | @node e ts roots unfold ih =>
    have parts (n : Expr) (hn : n ∈ e.parts ds) : ∃ r : Run V F, r.expr = n ∧ r.IsRun m ds ∧
        ∃ t ∈ ts, ∀ k s, r.Contains k s → ∃ u, t.Contains k u ∧ u.root = s.root.expr := by
      rw [← roots] at hn
      obtain ⟨t, ht, rfl⟩ := List.mem_map.mp hn
      obtain ⟨r, hr, root, within⟩ := ih t ht
      exact ⟨r, root, hr, t, ht, within⟩
    obtain ⟨rs, o, serves, all⟩ := exists_serves (asks_mono parts (Plan.asks_parts m ds e))
    refine ⟨_, .frame serves fun r hr => (all r hr).1, rfl, fun k s hs => ?_⟩
    refine Tree.contains_node (P := fun k s => ∃ u,
      (Tree.node e ts).Contains k u ∧ u.root = s.root.expr)
      ⟨_, .itself _, rfl⟩ (fun r hr k s hs => ?_) hs
    obtain ⟨-, t, ht, within⟩ := all r hr
    obtain ⟨u, hu, root⟩ := within k s hs
    exact ⟨u, .part ht hu, root⟩

theorem IsRun.contains {r s : Run V F} {k : Nat} (hr : r.IsRun m ds) (h : r.Contains k s) :
    s.IsRun m ds := by
  induction h with
  | itself => exact hr
  | part ht _ ih =>
    obtain ⟨serves, runs⟩ := hr
    exact ih (runs _ ht)

theorem Serves.failure {rs : List (Run V F)} {o : Except F V} (h : Serves rs plan o) {r : Run V F}
    (hr : r ∈ rs) {f : F} (hf : r.outcome = .error f) : o = .error f := by
  induction h with
  | finished => cases hr
  | passed value rest ih =>
    rcases List.mem_cons.mp hr with rfl | hr
    · cases value.symm.trans hf
    · exact ih hr
  | failed failure =>
    obtain rfl := List.mem_singleton.mp hr
    exact failure.symm.trans hf

theorem Serves.asked {P : Expr → Prop} {rs : List (Run V F)} {o : Except F V} (h : Serves rs plan o)
    (asks : plan.Asks P) : ∀ r ∈ rs, P r.expr := by
  induction h with
  | finished o => simp
  | passed value rest ih =>
    intro r hr
    cases hr with
    | head => exact asks.1
    | tail _ hr => exact ih (asks.2 _) r hr
  | failed failure =>
    intro r hr
    cases hr with
    | head => exact asks.1
    | tail _ hr => cases hr

theorem Serves.outcome_eq {rs : List (Run V F)} {o : Except F V} (h : Serves rs plan o)
    {value : Expr → Except F V} (agree : ∀ r ∈ rs, value r.expr = r.outcome) :
    plan.outcome value = o := by
  induction h with
  | finished o => rfl
  | passed hv rest ih =>
    rw [Plan.outcome, agree _ (.head _), hv]
    exact ih fun r hr => agree r (.tail _ hr)
  | failed hf => rw [Plan.outcome, agree _ (.head _), hf]; rfl

end Run

/-- The meaning that the evaluation gives. -/
def evaluation (lim : Limits) (ds : Declarations) (p : Precision) : Meaning Value Failure where
  literal l := (l.value p).mapError (.ofStop lim)
  unary op v := (evalUnary op v).mapError (.ofFault lim)
  binary op a b := (evalBinary p op a b).mapError (.ofStop lim)
  condition := conditionOf lim
  unevaluable := .unevaluable lim ds
  noSuchPart := .noSuchPart
  blaming := .blaming

theorem isInitialized_eq (ds : Declarations) (i : Nat) :
    isInitialized ds i = ((Target.variable i).initializer? ds).isSome := by
  cases hd : ds[i]? with
  | none => simp [isInitialized, Target.initializer?, hd]
  | some d => cases h : d.init.isMissing <;> simp [isInitialized, Target.initializer?, hd, h]

theorem Failure.blaming_ofMessage (kind : ErrorKind) (e : Expr) (text? : Option String) :
    (ofMessage kind e text?).blaming e = ofMessage kind e text? := by
  cases text? with
  | none => rfl
  | some text => cases e <;> rfl

theorem Failure.blaming_unevaluable (lim : Limits) (ds : Declarations) (e : Expr) :
    (unevaluable lim ds e).blaming e = unevaluable lim ds e :=
  blaming_ofMessage _ e _

namespace Expr

variable {lim : Limits} {ds : Declarations} {p : Precision}

/-- What the evaluation of an expression finds for one of its parts. -/
def partValue (lim : Limits) (ds : Declarations) (p : Precision)
    (follow : Nat → Except Failure Value) :
    Expr → Expr → Except Failure Value
  | .lookup _ _ (.variable i), _ => follow i
  | _, n => n.evaluateUsing lim ds p follow

theorem evaluateUsing_eq (follow : Nat → Except Failure Value) (e : Expr) :
    e.evaluateUsing lim ds p follow =
      blamed e ((Plan.ofExpr (evaluation lim ds p) ds e).outcome
        (e.partValue lim ds p follow)) := by
  cases e with
  | literal id l => rfl
  | unary id op arg => rfl
  | binary id lhs op rhs => rfl
  | tuple id b items =>
    cases items with
    | nil => rfl
    | cons item rest => simp [evaluateUsing, Plan.ofExpr, partValue]
  | conditional id test yes no =>
    simp only [evaluateUsing, Plan.ofExpr, Plan.outcome, evaluation, partValue]
    refine congrArg (blamed _) (congrArg _ (funext fun v => ?_))
    cases conditionOf lim v with
    | ok b => cases b <;> simp [bind, Except.bind, partValue]
    | error f => rfl
  | lookup id name target =>
    rcases target with i | symbol | _
    · cases h : (Target.variable i).initializer? ds <;>
        simp [evaluateUsing, Plan.ofExpr, h, isInitialized_eq, partValue, Plan.outcome, evaluation,
          blamed, Except.mapError, Failure.blaming_unevaluable]
    all_goals simp [evaluateUsing, Plan.ofExpr, Target.initializer?,
      Plan.outcome, evaluation, blamed,
      Except.mapError, Failure.blaming_unevaluable]
  | call id kind fn args =>
    cases kind with
    | typeConversion =>
      cases args with
      | nil => rfl
      | cons arg rest => simp [evaluateUsing, Plan.ofExpr, partValue]
    | _ => simp [evaluateUsing, Plan.ofExpr, Plan.outcome, evaluation, blamed, Except.mapError,
        Failure.blaming_unevaluable]
  | missing | foreign => simp [evaluateUsing, Plan.ofExpr, Plan.outcome, evaluation, blamed,
      Except.mapError, Failure.blaming_unevaluable]

end Expr

namespace Run

variable {lim : Limits} {ds : Declarations} {p : Precision}

theorem evaluateUsing_eq_outcome {r : Run Value Failure} (hr : r.IsRun (evaluation lim ds p) ds)
    {budget : Nat} {pending : List Nat}
    (around : Pending ds Frame.expr (IsRun (evaluation lim ds p) ds) r pending)
    (enough : ds.size ≤ budget + pending.length) :
    r.expr.evaluateUsing lim ds p (initializerValue lim ds p budget) = r.outcome := by
  induction hr generalizing budget pending with
  | @frame e rs o serves runs ih =>
    have asked := serves.asked (Plan.asks_parts _ ds e)
    suffices ∀ r ∈ rs, e.partValue lim ds p (initializerValue lim ds p budget) r.expr =
      r.outcome from
      (Expr.evaluateUsing_eq _ e).trans (congrArg (blamed e) (serves.outcome_eq this))
    intro r hr
    unfold Expr.partValue
    split
    · rename_i id name i
      obtain ⟨d, hd, init⟩ : ∃ d, ds[i]? = some d ∧ d.init = r.expr := by
        simpa [Expr.parts] using asked r hr
      have entered := around.enter (fun _ _ hr hs h => hr.unique hs h) hr (runs r hr) hd init.symm
      obtain ⟨rest, rfl, covers⟩ := entered.budget enough
      simp only [initializerValue, hd]
      rw [init]
      exact ih r hr entered covers
    · exact ih r hr (around.part hr) enough

/-- The evaluation of an expression has the outcome of its run. -/
theorem IsRun.evaluate_eq {r : Run Value Failure} (hr : r.IsRun (evaluation lim ds p) ds) :
    evaluate lim ds p r.expr = r.outcome :=
  evaluateUsing_eq_outcome hr .nil (by simp)

end Run
end Comptime
