import Comptime.Proofs.Expr.Spots
import Comptime.Proofs.Expr.Text
import Comptime.Proofs.Source.Segment
import Comptime.Report.Mark
import Mathlib

/-! What a mark covers. Where the tokens of a node are in the order of the source, its mark covers
each of them, and the marks of all nodes below it. -/
namespace Comptime

namespace Expr

variable {e n : Expr}

theorem IsWhole.child (h : e.IsWhole) (hn : n ∈ e.children) : n.IsWhole := by
  cases h with
  | literal | lookup => simp [children] at hn
  | unary _ _ operand =>
    obtain rfl := List.mem_singleton.mp hn
    exact operand
  | binary _ _ left right =>
    rcases List.mem_pair.mp hn with rfl | rfl
    · exact left
    · exact right
  | tuple _ _ parts =>
    obtain ⟨mem, present⟩ := List.mem_filter.mp hn
    exact parts n mem (by simpa using present)
  | conditional _ condition first second =>
    simp only [children, List.mem_cons, List.not_mem_nil, or_false] at hn
    rcases hn with rfl | rfl | rfl
    · exact condition
    · exact first
    · exact second
  | call _ _ callee parts =>
    rcases List.mem_cons.mp hn with rfl | hn
    · exact callee
    · exact parts n hn

theorem infix_flatMap {α β : Type} {f : α → List β} {x : α} {xs : List α} (h : x ∈ xs) :
    f x <:+: xs.flatMap f := by
  rw [List.flatMap_def]
  exact List.infix_of_mem_flatten (List.mem_map_of_mem h)

/-- The tokens of a node stand together among those of the node above. -/
theorem infix_spots (hn : n ∈ e.children) : n.spots <:+: e.spots := by
  cases e with
  | missing | literal | lookup | foreign => simp [children] at hn
  | unary id op arg =>
    obtain rfl := List.mem_singleton.mp hn
    exact ⟨[op.spot], [], by simp [spots]⟩
  | binary id lhs op rhs =>
    rcases List.mem_pair.mp hn with rfl | rfl
    · exact ⟨[], op.spot :: rhs.spots, by simp [spots]⟩
    · exact ⟨lhs.spots ++ [op.spot], [], by simp [spots]⟩
  | tuple id b items =>
    obtain ⟨mem, -⟩ := List.mem_filter.mp hn
    refine (infix_flatMap (f := spots) mem).trans ⟨[b.openSpot], [b.closeSpot], by simp [spots]⟩
  | conditional id test yes no =>
    simp only [children, List.mem_cons, List.not_mem_nil, or_false] at hn
    rcases hn with rfl | rfl | rfl
    · exact ⟨[], yes.spots ++ no.spots, by simp [spots]⟩
    · exact ⟨test.spots, no.spots, by simp [spots]⟩
    · exact ⟨test.spots ++ yes.spots, [], by simp [spots]⟩
  | call id kind fn args =>
    rcases List.mem_cons.mp hn with rfl | hn
    · exact ⟨[], args.flatMap spots, by simp [spots]⟩
    · exact (infix_flatMap (f := spots) hn).trans ⟨fn.spots, [], by simp [spots]⟩

end Expr

/-- What has a place in the source: an expression, or a declaration with its initializer if it has
one. -/
inductive Phrase where
  | expr (e : Expr)
  | declaration (d : Declaration)

namespace Phrase

def span (ds : Declarations) : Phrase → Except SpanFault (Int × Int)
  | .expr e => e.span ds
  | .declaration d => d.span ds

/-- Where the tokens of a phrase stand. The name of a declaration comes before the initializer. -/
def spots : Phrase → List Int
  | .expr e => e.spots
  | .declaration d => d.name.spot :: d.init.spots

def children : Phrase → List Phrase
  | .expr e => e.children.map .expr
  | .declaration d => if d.init.isMissing then [] else [.expr d.init]

def IsWhole : Phrase → Prop
  | .expr e => e.IsWhole
  | .declaration d => d.init.isMissing = false → d.init.IsWhole

/-- A node stands in a tree, at its root or below. -/
inductive Contains : Phrase → Phrase → Prop where
  | itself (t : Phrase) : Contains t t
  | inside {t n m : Phrase} : n ∈ t.children → Contains n m → Contains t m

variable {t n m : Phrase} {ds : Declarations}

theorem IsWhole.child (h : t.IsWhole) (hn : n ∈ t.children) : n.IsWhole := by
  cases t with
  | expr e =>
    obtain ⟨c, hc, rfl⟩ := List.mem_map.mp hn
    exact Expr.IsWhole.child h hc
  | declaration d =>
    cases missing : d.init.isMissing with
    | true => simp [children, missing] at hn
    | false =>
      obtain rfl : n = .expr d.init := by simpa [children, missing] using hn
      exact h missing

theorem infix_spots (hn : n ∈ t.children) : n.spots <:+: t.spots := by
  cases t with
  | expr e =>
    obtain ⟨c, hc, rfl⟩ := List.mem_map.mp hn
    exact Expr.infix_spots hc
  | declaration d =>
    cases missing : d.init.isMissing with
    | true => simp [children, missing] at hn
    | false =>
      obtain rfl : n = .expr d.init := by simpa [children, missing] using hn
      exact ⟨[d.name.spot], [], by simp [spots]⟩

theorem Contains.whole (h : t.Contains n) (whole : t.IsWhole) :
    n.IsWhole ∧ n.spots <:+: t.spots := by
  induction h with
  | itself t => exact ⟨whole, List.infix_rfl⟩
  | inside child _ ih =>
    obtain ⟨whole, within⟩ := ih (whole.child child)
    exact ⟨whole, within.trans (infix_spots child)⟩

theorem IsWhole.span_eq (h : t.IsWhole) (ds : Declarations) :
    ∃ first last, t.span ds = .ok (first, last) ∧ t.spots.head? = some first ∧
      t.spots.getLast? = some last := by
  cases t with
  | expr e => exact Expr.IsWhole.span_eq h ds
  | declaration d =>
    cases missing : d.init.isMissing with
    | true =>
      obtain none : d.init = .missing := by
        cases hd : d.init <;> simp [hd, Expr.isMissing] at missing ⊢
      exact ⟨d.name.spot, d.name.spot,
        by simp [span, Declaration.span, none, Expr.isGiven], by simp [spots],
        by simp [spots, none, Expr.spots]⟩
    | false =>
      obtain ⟨last, right, tail⟩ := (h missing).right_eq (declarationRight ds ds.size)
      refine ⟨d.name.spot, last, ?_, by simp [spots], by simp [spots, List.getLast?_cons, tail]⟩
      simp [span, Declaration.span, (h missing).isGiven, Expr.right, right, bind,
        Except.bind, pure, Except.pure]

end Phrase

theorem bounds_of_sorted {l : List Int} {first last i : Int} (sorted : l.Pairwise (· ≤ ·))
    (head : l.head? = some first) (tail : l.getLast? = some last) (h : i ∈ l) :
    first ≤ i ∧ i ≤ last := by
  have nonempty := List.ne_nil_of_mem h
  rw [List.head?_eq_some_head nonempty] at head
  rw [List.getLast?_eq_some_getLast nonempty] at tail
  cases head
  cases tail
  exact ⟨sorted.rel_head h, sorted.rel_getLast h⟩

theorem Expr.IsWhole.parenthesized {e : Expr} (h : e.IsWhole) (sorted : e.spots.Pairwise (· ≤ ·))
    (ds : Declarations) (id : Nat) : ∃ t, e.parenthesized ds id = .ok t ∧ t.IsWhole ∧
      t.spots.Pairwise (· ≤ ·) ∧ ∀ i ∈ t.spots, i ∈ e.spots := by
  obtain ⟨first, last, span, head, tail⟩ := h.span_eq ds
  have hfirst : first ∈ e.spots := List.mem_of_mem_head? head
  have hlast : last ∈ e.spots := List.mem_of_mem_getLast? tail
  have bounds (i : Int) (hi : i ∈ e.spots) := bounds_of_sorted sorted head tail hi
  refine ⟨.tuple id { openSpot := first, closeSpot := last } [e], ?_, ?_, ?_, ?_⟩
  · rw [Expr.parenthesized, span]
    rfl
  · exact .tuple id _ fun n hn _ => List.mem_singleton.mp hn ▸ h
  · rw [spots, List.flatMap_singleton, List.cons_append, List.pairwise_cons, List.pairwise_append]
    refine ⟨fun i hi => ?_, sorted, List.pairwise_singleton .., fun i hi j hj => ?_⟩
    · rcases List.mem_append.mp hi with hi | hi
      · exact (bounds i hi).1
      · exact List.mem_singleton.mp hi ▸ (bounds last hlast).1
    · exact List.mem_singleton.mp hj ▸ (bounds i hi).2
  · intro i hi
    simp only [spots, List.flatMap_singleton, List.cons_append, List.mem_cons, List.mem_append,
      List.not_mem_nil, or_false] at hi
    rcases hi with rfl | hi | rfl
    · exact hfirst
    · exact hi
    · exact hlast

def Slice.Within (a b : Slice) : Prop := b.start ≤ a.start ∧ a.stop ≤ b.stop

section
variable {earlier later : List IndexCall} {t : Phrase}

theorem exists_mark (noReset : .reset ∉ later) (order : InOrder (segmentSlices earlier))
    (whole : t.IsWhole) (sorted : t.spots.Pairwise (· ≤ ·))
    (known : ∀ i ∈ t.spots, segmentStart earlier ≤ i ∧ i < nextNumber earlier) (ds : Declarations)
    (caption : String) :
    ∃ i j a b, i ∈ t.spots ∧ j ∈ t.spots ∧ Places earlier i a ∧ Places earlier j b ∧
      Mark.ofTokens (.ofHistory (later ++ earlier)) (t.span ds) caption =
        .ok ⟨⟨currentPath earlier, ⟨a.start, b.stop⟩⟩, caption⟩ ∧
      ∀ k c, k ∈ t.spots → Places earlier k c → c.Within ⟨a.start, b.stop⟩ := by
  obtain ⟨first, last, span, head, tail⟩ := whole.span_eq ds
  have hfirst := List.mem_of_mem_head? head
  have hlast := List.mem_of_mem_getLast? tail
  obtain ⟨a, ha⟩ := exists_places (known first hfirst).1 (known first hfirst).2
  obtain ⟨b, hb⟩ := exists_places (known last hlast).1 (known last hlast).2
  refine ⟨first, last, a, b, hfirst, hlast, ha, hb, ?_, fun k c hk hc => ?_⟩
  · simp [Mark.ofTokens, span, SourceIndex.lookupSpan, ha.lookupToken noReset,
      hb.lookupToken noReset, bind,
      Except.bind]
  · obtain ⟨low, high⟩ := bounds_of_sorted sorted head tail hk
    exact ⟨(ha.mono order hc low).1, (hc.mono order hb high).2⟩

/-- Where the tokens of a segment are in order, and a tree stands on tokens of that segment in order
too, every node of the tree has a mark in the source of the segment. The mark covers each token of
the node and of the nodes below, and the marks of all of these. -/
theorem mark_covers (ds : Declarations) (noReset : .reset ∉ later)
    (order : InOrder (segmentSlices earlier)) (whole : t.IsWhole)
    (sorted : t.spots.Pairwise (· ≤ ·))
    (known : ∀ i ∈ t.spots, segmentStart earlier ≤ i ∧ i < nextNumber earlier) {n : Phrase}
    (h : t.Contains n) (caption : String) :
    ∃ slice, Mark.ofTokens (.ofHistory (later ++ earlier)) (n.span ds) caption =
        .ok ⟨⟨currentPath earlier, slice⟩, caption⟩ ∧
      ∀ m, n.Contains m →
        (∀ i ∈ m.spots, ∃ token,
          (SourceIndex.ofHistory (later ++ earlier)).lookupToken i =
            .ok ⟨currentPath earlier, token⟩ ∧
          token.Within slice) ∧
        ∀ caption', ∃ inner, Mark.ofTokens (.ofHistory (later ++ earlier)) (m.span ds) caption' =
            .ok ⟨⟨currentPath earlier, inner⟩, caption'⟩ ∧ inner.Within slice := by
  obtain ⟨whole, inside⟩ := h.whole whole
  replace sorted := sorted.sublist inside.sublist
  replace known (i : Int) (hi : i ∈ n.spots) := known i (inside.subset hi)
  obtain ⟨i, j, a, b, -, -, -, -, marked, covers⟩ :=
    exists_mark noReset order whole sorted known ds caption
  refine ⟨⟨a.start, b.stop⟩, marked, fun m hm => ⟨fun k hk => ?_, fun caption' => ?_⟩⟩
  · have hk := (hm.whole whole).2.subset hk
    obtain ⟨token, ht⟩ := exists_places (known k hk).1 (known k hk).2
    exact ⟨token, ht.lookupToken noReset, covers k token hk ht⟩
  · obtain ⟨whole', inside'⟩ := hm.whole whole
    obtain ⟨k, l, c, d, hk, hl, hc, hd, marked', -⟩ := exists_mark noReset order whole'
      (sorted.sublist inside'.sublist) (fun i hi => known i (inside'.subset hi)) ds caption'
    refine ⟨⟨c.start, d.stop⟩, marked', ?_, ?_⟩
    · exact (covers k c (inside'.subset hk) hc).1
    · exact (covers l d (inside'.subset hl) hd).2

end

/-- A declaration with a conversion, over the text `X = uint(-1)`. -/
theorem mark_covers_conversion :
    let earlier : List IndexCall := [.token ⟨10, 11⟩, .token ⟨9, 10⟩, .token ⟨4, 8⟩, .token ⟨0, 1⟩,
      .segment (some ⟨"a.sol"⟩) none]
    let negative : Expr := .unary 1 ⟨"-", 3⟩ (.number 0 "1" 4 none)
    let d : Declaration := { name := ⟨"X", 1⟩, init := .conversion 2 ⟨"uint", 2⟩ negative }
    InOrder (segmentSlices earlier) ∧ (Phrase.declaration d).spots = [1, 2, 3, 4] ∧
      Mark.ofTokens (.ofHistory earlier) (d.span #[]) "" = .ok ⟨⟨some ⟨"a.sol"⟩, ⟨0, 11⟩⟩, ""⟩ ∧
      ∃ inner, Mark.ofExpr #[] (.ofHistory earlier) negative "" =
        .ok ⟨⟨some ⟨"a.sol"⟩, inner⟩, ""⟩ ∧
        inner.Within ⟨0, 11⟩ := by
  intro earlier negative d
  have order : InOrder (segmentSlices earlier) := by
    constructor <;> simp [earlier, segmentSlices]
  have spots : (Phrase.declaration d).spots = [1, 2, 3, 4] := by
    simp [Phrase.spots, d, negative, Expr.conversion, Expr.number, Expr.spots]
  have whole : (Phrase.declaration d).IsWhole := fun _ =>
    .call 2 .typeConversion (.lookup 2 _ _) (by simpa using .unary 1 _ (.literal 0 _))
  have known : ∀ i ∈ (Phrase.declaration d).spots, segmentStart earlier ≤ i ∧
    i < nextNumber earlier := by
    rw [spots]
    decide
  have sorted : (Phrase.declaration d).spots.Pairwise (· ≤ ·) := by
    rw [spots]
    decide
  have noReset : IndexCall.reset ∉ ([] : List IndexCall) := by simp
  obtain ⟨slice, marked, covers⟩ := mark_covers #[] noReset order whole sorted known
    (.itself (.declaration d)) ""
  have outer : Mark.ofTokens (.ofHistory earlier) (d.span #[]) "" =
      .ok ⟨⟨some ⟨"a.sol"⟩, ⟨0, 11⟩⟩, ""⟩ := by decide
  cases marked.symm.trans outer
  have below : (Phrase.declaration d).Contains (.expr negative) :=
    .inside (n := .expr d.init) (.head _)
      (.inside (n := .expr negative) (.tail _ (.head _)) (.itself _))
  exact ⟨order, spots, outer, (covers (.expr negative) below).2 ""⟩

end Comptime
