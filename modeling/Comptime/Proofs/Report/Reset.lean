import Comptime.Proofs.Report.Reading
import Comptime.Proofs.Source.Refusal
import Mathlib.Data.Set.Finite.Basic

/-! What a reset leaves behind. Segments, tokens and given texts are forgotten, so the index answers
alike after any two histories. What was read is still remembered: two histories that leave the same
files are told apart by some mark if and only if they do not leave the same paths in the same order,
with texts that the renderer draws alike. -/
namespace Comptime

/-- Every part of two texts is drawn alike. -/
def Illustration.Alike (draw : Renderer) (text other : String) : Prop :=
  ∀ slice caption, ofSlice draw text slice caption = ofSlice draw other slice caption

variable {draw : Renderer}

namespace ReadCache

/-- Two caches remember the same paths in the same order, with texts that are drawn alike. -/
structure Alike (draw : Renderer) (c d : ReadCache) : Prop where
  paths : c.paths = d.paths
  texts : ∀ p text other, c.find? p = some text → d.find? p = some other →
    Illustration.Alike draw text other

variable {c d : ReadCache} {p : Path} {text other : String}

theorem Alike.find? (h : c.Alike draw d) (p : Path) :
    Option.Rel (Illustration.Alike draw) (c.find? p) (d.find? p) := by
  have missing : c.find? p = none ↔ d.find? p = none := by
    rw [find?_eq_none_iff, find?_eq_none_iff, h.paths]
  cases left : c.find? p with
  | none => simp [missing.mp left]
  | some text =>
    cases right : d.find? p with
    | none => simp [missing.mpr right] at left
    | some other => exact .some (h.texts p text other left right)

theorem Alike.use (h : c.Alike draw d) (same : Illustration.Alike draw text other) (p : Path) :
    (c.use p text).Alike draw (d.use p other) where
  paths := by rw [paths_use, paths_use, h.paths]
  texts q found found' left right := by
    rcases of_find?_use left with ⟨rfl, rfl⟩ | ⟨ne, left⟩
    · rcases of_find?_use right with ⟨-, rfl⟩ | ⟨ne, -⟩
      · exact same
      · exact absurd rfl ne
    · rcases of_find?_use right with ⟨rfl, -⟩ | ⟨-, right⟩
      · exact absurd rfl ne
      · exact h.texts q found found' left right

end ReadCache

namespace Sources

/-- Sources that no calls can tell apart. -/
structure Alike (draw : Renderer) (s t : Sources) : Prop where
  index : s.index = t.index
  files : ∀ p, s.files.read? p = t.files.read? p
  cache : s.cache.Alike draw t.cache

variable {s t : Sources}

theorem Alike.fetch (h : s.Alike draw t) (p : Path) :
    Option.Rel (Illustration.Alike draw) (s.fetch p).1 (t.fetch p).1 := by
  have refl (text : String) : Illustration.Alike draw text text := fun _ _ => rfl
  rw [fetch_eq, fetch_eq, h.index, h.files]
  cases t.index.knownText? p with
  | some text => exact .some (refl text)
  | none =>
    have remembered := h.cache.find? p
    generalize s.cache.find? p = left, t.cache.find? p = right at remembered ⊢
    cases remembered with
    | some same => exact .some same
    | none =>
      cases t.files.read? p with
      | none => exact .none
      | some content => exact .some (refl _)

theorem Alike.fetch_snd (h : s.Alike draw t) (p : Path) :
    (s.fetch p).2.Alike draw (t.fetch p).2 := by
  have texts := h.fetch p
  rw [Sources.fetch_snd, Sources.fetch_snd, h.index]
  generalize (s.fetch p).1 = left, (t.fetch p).1 = right at texts ⊢
  cases t.index.knownText? p with
  | some text => exact h
  | none =>
    cases texts with
    | none => exact h
    | some same => exact ⟨rfl, h.files, h.cache.use same p⟩

theorem Alike.illustrate (h : s.Alike draw t) (a : Mark) :
    (a.illustrate draw s).1 = (a.illustrate draw t).1 := by
  rw [Mark.illustrate_eq, Mark.illustrate_eq]
  cases a.span.path with
  | none => rfl
  | some p =>
    have texts := h.fetch p
    dsimp only
    generalize (s.fetch p).1 = left, (t.fetch p).1 = right at texts ⊢
    cases texts with
    | none => rfl
    | some same => simp only [same a.span.slice a.caption]

theorem Alike.perform (h : s.Alike draw t) (call : SourceCall) :
    (call.perform s).Alike draw (call.perform t) := by
  cases call with
  | index call => exact ⟨congrArg call.perform h.index, h.files, h.cache⟩
  | write p content =>
    exact ⟨h.index, fun q => by simp [SourceCall.perform, Files.read?_write, h.files], h.cache⟩
  | illustrate _ a =>
    rw [SourceCall.perform, SourceCall.perform, Mark.illustrate_snd, Mark.illustrate_snd]
    cases a.span.path with
    | none => exact h
    | some p => exact h.fetch_snd p

theorem Alike.after (h : s.Alike draw t) (later : List SourceCall) :
    (s.after later).Alike draw (t.after later) := by
  induction later with
  | nil => exact h
  | cons call later ih => exact ih.perform call

end Sources

/-! What calls can find out about the texts that are remembered. -/

theorem eq_of_mem_take_iff {α : Type} {xs ys : List α} (hx : xs.Nodup) (hy : ys.Nodup)
    (h : ∀ k a, a ∈ xs.take k ↔ a ∈ ys.take k) : xs = ys := by
  induction xs generalizing ys with
  | nil =>
    cases ys with
    | nil => rfl
    | cons y ys => simpa using h 1 y
  | cons x xs ih =>
    cases ys with
    | nil => simpa using h 1 x
    | cons y ys =>
      obtain rfl : x = y := by simpa using h 1 x
      obtain ⟨first, hx⟩ := List.nodup_cons.mp hx
      obtain ⟨first', hy⟩ := List.nodup_cons.mp hy
      refine congrArg _ (ih hx hy fun k a => ?_)
      -- The members behind the first are those other than the first.
      by_cases same : a = x
      · subst same
        exact iff_of_false (mt List.mem_of_mem_take first) (mt List.mem_of_mem_take first')
      · simpa [same] using h (k + 1) a

theorem take_append_of_length {α : Type} {fresh xs : List α} {k n : Nat}
    (length : fresh.length = n - min k n) (fits : xs.length ≤ n) :
    (fresh ++ xs).take n = fresh ++ xs.take k := by
  have room : n - fresh.length = min k n := by omega
  rw [List.take_append, List.take_of_length_le (by omega), room, ← List.take_take,
    List.take_of_length_le fits]

instance : Infinite Path := .of_injective Path.mk fun _ _ => Path.mk.inj

theorem exists_fresh_paths (used : List Path) (n : Nat) :
    ∃ fresh : List Path, fresh.length = n ∧ fresh.Nodup ∧ ∀ p ∈ fresh, p ∉ used := by
  obtain ⟨fresh, outside, card⟩ := used.finite_toSet.infinite_compl.exists_subset_card_eq n
  exact ⟨fresh.toList, by simp [card], fresh.nodup_toList, fun p hp => outside (by simpa using hp)⟩

theorem Illustration.exists_unlike (tells : ∃ content other,
    ¬Alike draw (readText content) (readText other))
    (text : String) : ∃ content, ¬Alike draw text (readText content) := by
  obtain ⟨content, other, unlike⟩ := tells
  by_contra alike
  rw [not_exists] at alike
  have first := not_not.mp (alike content)
  have second := not_not.mp (alike other)
  exact unlike fun slice caption => (first slice caption).symm.trans (second slice caption)

namespace Sources

/-- No calls make a difference to what is shown. -/
def ShowsAlike (draw : Renderer) (s t : Sources) : Prop :=
  ∀ later (a : Mark), (a.illustrate draw (s.after later)).1 = (a.illustrate draw (t.after later)).1

def GivesNone (s : Sources) : Prop := ∀ p, s.index.knownText? p = none

variable {s t : Sources}

theorem ShowsAlike.symm (h : s.ShowsAlike draw t) :
    t.ShowsAlike draw s := fun later a => (h later a).symm

theorem ShowsAlike.after (h : s.ShowsAlike draw t) (earlier : List SourceCall) :
    (s.after earlier).ShowsAlike draw (t.after earlier) := by
  intro later a
  rw [← after_append, ← after_append]
  exact h (later ++ earlier) a

theorem fetch_write {p : Path} (given : s.index.knownText? p = none) (content : String) :
    ((s.after [.write p content]).fetch p).1 =
      some ((s.cache.find? p).getD (readText content)) := by
  rw [fetch_eq]
  simp only [after, SourceCall.perform, given, Files.read?_write]
  cases s.cache.find? p <;> rfl

theorem illustrate_write (draw : Renderer) {p : Path} (given : s.index.knownText? p = none)
    (content : String) (slice : Slice) (caption : String) :
    ((⟨⟨some p, slice⟩, caption⟩ : Mark).illustrate draw (s.after [.write p content])).1 =
      .ok (Illustration.ofSlice draw
        ((s.cache.find? p).getD (readText content)) slice caption) := by
  simp only [Mark.illustrate_eq, fetch_write given]

theorem cache_write (draw : Renderer) {p : Path} (given : s.index.knownText? p = none)
    (content : String) (slice : Slice) (caption : String) :
    ((⟨⟨some p, slice⟩, caption⟩ : Mark).illustrate draw (s.after [.write p content])).2.cache =
      s.cache.use p ((s.cache.find? p).getD (readText content)) := by
  have given' : (s.after [.write p content]).index.knownText? p = none := given
  simp only [Mark.illustrate_snd, fetch_snd, given', fetch_write given]
  rfl

def readAll (draw : Renderer) (paths : List Path) : List SourceCall :=
  paths.flatMap fun p => [.illustrate draw ⟨⟨some p, ⟨0, 0⟩⟩, ""⟩, .write p ""]

theorem after_readAll_index (s : Sources) (fresh : List Path) :
    (s.after (readAll draw fresh)).index = s.index := by
  induction fresh with
  | nil => rfl
  | cons p rest ih => simpa [readAll, after, SourceCall.perform] using ih

/-- Files that have not been read push out those that were read first. -/
theorem paths_after_readAll (draw : Renderer) (given : s.GivesNone) (orderly : s.cache.IsOrderly)
    {fresh : List Path} (nodup : fresh.Nodup) (unread : ∀ p ∈ fresh, p ∉ s.cache.paths) :
    (s.after (readAll draw fresh)).cache.paths =
      (fresh ++ s.cache.paths).take ReadCache.capacity := by
  induction fresh with
  | nil => exact (List.take_of_length_le orderly.fits).symm
  | cons p rest ih =>
    obtain ⟨new, nodup⟩ := List.nodup_cons.mp nodup
    have before := ih nodup fun q hq => unread q (.tail _ hq)
    have missing : p ∉ (s.after (readAll draw rest)).cache.paths := by
      rw [before]
      exact fun h => (List.mem_append.mp (List.mem_of_mem_take h)).elim new (unread p (.head _))
    have own : (s.after (readAll draw rest)).index.knownText? p = none := by
      rw [after_readAll_index]; exact given p
    have kept : (s.after (readAll draw rest)).cache.paths.filter (· ≠ p) =
      (s.after (readAll draw rest)).cache.paths :=
      List.filter_eq_self.mpr fun q hq => by simpa using fun same : q = p => missing (same ▸ hq)
    rw [readAll, List.flatMap_cons, ← readAll]
    change (Mark.illustrate draw _
      ((s.after (readAll draw rest)).after [.write p ""])).2.cache.paths = _
    rw [cache_write draw own, ReadCache.paths_use, kept, before]
    simp [ReadCache.capacity, List.take_take]

section
variable (tells : ∃ content other, ¬Illustration.Alike draw (readText content) (readText other))
include tells

theorem ShowsAlike.find? (h : s.ShowsAlike draw t) (given : s.GivesNone) (given' : t.GivesNone)
    {p : Path} {text : String} (found : s.cache.find? p = some text) :
    ∃ other, t.cache.find? p = some other ∧ Illustration.Alike draw text other := by
  obtain ⟨content, unlike⟩ := Illustration.exists_unlike tells text
  have shown (slice : Slice) (caption : String) := h [.write p content] ⟨⟨some p, slice⟩, caption⟩
  simp only [illustrate_write draw (given p), illustrate_write draw (given' p),
    found, Option.getD_some,
    Except.ok.injEq] at shown
  cases remembered : t.cache.find? p with
  | none =>
    exact absurd (fun slice caption => by simpa [remembered] using shown slice caption) unlike
  | some other =>
    exact ⟨other, rfl, fun slice caption => by simpa [remembered] using shown slice caption⟩

theorem ShowsAlike.mem_paths (h : s.ShowsAlike draw t) (given : s.GivesNone) (given' : t.GivesNone)
    {p : Path} (remembered : p ∈ s.cache.paths) : p ∈ t.cache.paths := by
  by_contra missing
  cases found : s.cache.find? p with
  | none => exact ReadCache.find?_eq_none_iff.mp found remembered
  | some text =>
    obtain ⟨other, found', -⟩ := h.find? tells given given' found
    simp [ReadCache.find?_eq_none_iff.mpr missing] at found'

theorem ShowsAlike.mem_take (h : s.ShowsAlike draw t) (given : s.GivesNone) (given' : t.GivesNone)
    (orderly : s.cache.IsOrderly) (orderly' : t.cache.IsOrderly) {k : Nat} {p : Path}
    (remembered : p ∈ s.cache.paths.take k) : p ∈ t.cache.paths.take k := by
  obtain ⟨fresh, length, nodup, unused⟩ :=
    exists_fresh_paths (s.cache.paths ++
      t.cache.paths) (ReadCache.capacity - min k ReadCache.capacity)
  simp only [List.mem_append, not_or] at unused
  have left := paths_after_readAll draw given orderly nodup fun q hq => (unused q hq).1
  have right := paths_after_readAll draw given' orderly' nodup fun q hq => (unused q hq).2
  rw [take_append_of_length length orderly.fits] at left
  rw [take_append_of_length length orderly'.fits] at right
  have kept : p ∈ (t.after (readAll draw fresh)).cache.paths := by
    refine (h.after (readAll draw fresh)).mem_paths tells ?_ ?_
      (left ▸ List.mem_append_right _ remembered)
    · exact fun q => by rw [after_readAll_index]; exact given q
    · exact fun q => by rw [after_readAll_index]; exact given' q
  rw [right, List.mem_append] at kept
  exact kept.resolve_left fun new => (unused p new).1 (List.mem_of_mem_take remembered)

theorem ShowsAlike.cache (h : s.ShowsAlike draw t) (given : s.GivesNone) (given' : t.GivesNone)
    (orderly : s.cache.IsOrderly) (orderly' : t.cache.IsOrderly) : s.cache.Alike draw t.cache where
  paths := eq_of_mem_take_iff orderly.nodup orderly'.nodup fun _ _ =>
    ⟨h.mem_take tells given given' orderly orderly',
      h.symm.mem_take tells given' given orderly' orderly⟩
  texts p text other left right := by
    obtain ⟨found, right', same⟩ := h.find? tells given given' left
    obtain rfl : found = other := by simpa [right] using right'.symm
    exact same

end

theorem isOrderly_ofHistory (history : List SourceCall) : (ofHistory history).cache.IsOrderly := by
  induction history with
  | nil => exact .empty
  | cons call earlier ih =>
    cases call with
    | index call => exact ih
    | write p content => exact ih
    | illustrate _ a =>
      rw [ofHistory_cons, SourceCall.perform, Mark.illustrate_snd]
      cases a.span.path with
      | none => exact ih
      | some p =>
        dsimp only
        rw [fetch_snd]
        split
        · exact ih.use p _
        · exact ih

theorem index_after_reset (s t : Sources) (later : List SourceCall) :
    (s.reset.after later).index = (t.reset.after later).index := by
  induction later with
  | nil => rfl
  | cons call later ih =>
    cases call with
    | index call => exact congrArg call.perform ih
    | write p content => exact ih
    | illustrate _ a => simpa [after, SourceCall.perform] using ih

end Sources

/-- After a reset, what is asked of the index and how nodes are marked does not depend on the
history before it. How marks are shown does: for two histories that leave the same files, whatever
is called later shows all marks alike if the same paths are remembered in the same order, with texts
that are drawn alike, and only then if the renderer tells some two files apart. -/
theorem reset_forgets_all_but_texts (draw : Renderer) (first second : List SourceCall)
    (files : ∀ p, (Sources.ofHistory first).files.read? p =
      (Sources.ofHistory second).files.read? p) :
    let s := (Sources.ofHistory first).reset
    let t := (Sources.ofHistory second).reset
    (∀ later q, (s.after later).index.answer q = (t.after later).index.answer q) ∧
    (∀ later ds e caption, Mark.ofExpr ds (s.after later).index e caption =
      Mark.ofExpr ds (t.after later).index e caption) ∧
    (s.cache.Alike draw t.cache → ∀ later (a : Mark),
      (a.illustrate draw (s.after later)).1 = (a.illustrate draw (t.after later)).1) ∧
    ((∃ content other, ¬Illustration.Alike draw (readText content) (readText other)) →
      (∀ later (a : Mark), (a.illustrate draw (s.after later)).1 =
        (a.illustrate draw (t.after later)).1) →
      s.cache.Alike draw t.cache) := by
  intro s t
  have index := Sources.index_after_reset (Sources.ofHistory first) (Sources.ofHistory second)
  refine ⟨fun later q => by rw [index], fun later ds e caption => by rw [index], fun cache => ?_,
    fun tells shown => ?_⟩
  · have alike : s.Alike draw t := ⟨rfl, files, cache⟩
    exact fun later a => (alike.after later).illustrate a
  · have orderly : s.cache.IsOrderly := Sources.isOrderly_ofHistory first
    have orderly' : t.cache.IsOrderly := Sources.isOrderly_ofHistory second
    exact Sources.ShowsAlike.cache tells shown (fun _ => rfl) (fun _ => rfl) orderly orderly'

/-- A file that was read before the reset is told from one that was not. -/
theorem reset_forgets_all_but_texts_read :
    let a : Mark := ⟨⟨some ⟨"a.sol"⟩, ⟨0, 1⟩⟩, ""⟩
    let first : List SourceCall := [.illustrate .plain a, .write ⟨"a.sol"⟩ "1"]
    let second : List SourceCall := [.write ⟨"a.sol"⟩ "1"]
    let s := (Sources.ofHistory first).reset
    let t := (Sources.ofHistory second).reset
    (∀ p, (Sources.ofHistory first).files.read? p = (Sources.ofHistory second).files.read? p) ∧
      (∃ content other, ¬Illustration.Alike .plain (readText content) (readText other)) ∧
      (∀ later q, (s.after later).index.answer q = (t.after later).index.answer q) ∧
      ¬∀ later (a : Mark), (a.illustrate .plain (s.after later)).1 =
        (a.illustrate .plain (t.after later)).1 := by
  intro a first second s t
  have files : ∀ p, (Sources.ofHistory first).files.read? p =
    (Sources.ofHistory second).files.read? p :=
    fun _ => rfl
  have tells : ∃ content other, ¬Illustration.Alike .plain (readText content) (readText other) :=
    ⟨"1", "2", fun alike => absurd (alike ⟨0, 1⟩ "") (by decide +kernel)⟩
  obtain ⟨answers, -, -, apart⟩ := reset_forgets_all_but_texts .plain first second files
  exact ⟨files, tells, answers, fun shown => absurd (apart tells shown).paths (by decide +kernel)⟩

/-- A file is rewritten after it was read. A mark in it still shows what it had before, also after a
reset. -/
theorem illustrate_after_reset_stale :
    let a : Mark := ⟨⟨some ⟨"a.sol"⟩, ⟨0, 1⟩⟩, ""⟩
    let first : List SourceCall :=
      [.write ⟨"a.sol"⟩ "2", .illustrate .plain a, .write ⟨"a.sol"⟩ "1"]
    let second : List SourceCall := [.write ⟨"a.sol"⟩ "2"]
    let later : List SourceCall := [.index (.token ⟨0, 1⟩), .index (.segment (some ⟨"a.sol"⟩) none)]
    (∀ p, (Sources.ofHistory first).files.read? p = (Sources.ofHistory second).files.read? p) ∧
      (a.illustrate .plain ((Sources.ofHistory first).reset.after later)).1 =
        .ok "     1 |1\n        ^ " ∧
      (a.illustrate .plain ((Sources.ofHistory second).reset.after later)).1 =
        .ok "     1 |2\n        ^ " := by
  intro a first second later
  refine ⟨fun p => ?_, by decide +kernel, by decide +kernel⟩
  rw [Sources.read?_ofHistory, Sources.read?_ofHistory]
  by_cases own : p = ⟨"a.sol"⟩ <;> simp [first, second, writtenText, own]

end Comptime
