import Comptime.EvalError
import Comptime.Operator.Binary
import Comptime.Operator.Unary
import Comptime.Proofs.Decimal.Digits

/-! How operators end, for operands of every type, infinities and what is no number among them.
There is a value, or an error that blames no expression, with four exceptions: what is no number is
compared, or equated though it signals, a remainder takes more digits than a context can be set to,
or the error would name an integer that is too long for the host. -/
namespace Comptime

/-- An outcome is a value, or an error of evaluation that blames no expression. -/
def EndsUnblamed (outcome : Except Failure Value) : Prop :=
  (∃ v, outcome = .ok v) ∨
    ∃ e : EvalError, outcome = .error (.error e) ∧ e.kind = .evaluation ∧ e.isBlaming = false

/-- The operands of a unary operator. -/
def UnaryOp.Takes : UnaryOp → Value → Prop
  | .not, v => ∃ b, v = .bool b
  | .complement, v => ∃ n, v = .int n
  | .plus, v | .minus, v => v.isNumber = true

def TakenBy (glyph : String) (v : Value) : Prop :=
  ∃ op, UnaryOp.ofGlyph? glyph = some op ∧ op.Takes v

/-- An integer of more digits than the host writes. -/
def Value.IsUnwritable (limit : Option Nat) (v : Value) : Prop :=
  ∃ n digits, v = .int n ∧ limit = some digits ∧ digits < digitCount n.natAbs

def ComparesNaN (glyph : String) (a b : Value) : Prop :=
  glyph ∈ ["<", "<=", ">", ">="] ∧
    ∃ x y, a.promote? = some x ∧ b.promote? = some y ∧ (x.isNaN = true ∨ y.isNaN = true)

def EquatesSignaling (glyph : String) (a b : Value) : Prop :=
  glyph ∈ ["==", "!="] ∧ ∃ x y, a = .decimal x ∧ b = .decimal y ∧
    (x.signals = true ∨ y.signals = true)

/-- A remainder by anything but zero takes more digits than a context can be set to. -/
def LacksRoom (p : Precision) (glyph : String) (a b : Value) : Prop :=
  glyph = "%" ∧ ∃ x y, a.promote? = some x ∧ b.promote? = some y ∧ y.isZero = false ∧
    Precision.greatest < (Decimal.remainderPrecision p x.adjusted y.adjusted).digits

/-- The operands are not of the types that the operator asks for, and it names both of them. -/
def RefusesBoth (a b : Value) : Option BinaryOp → Prop
  | none => True
  | some (.logical _) => ¬(a.typeName = "boolean" ∧ b.typeName = "boolean")
  | some (.equality _) => a.typeName = "string" ∨ b.typeName = "string"
  | some (.bitwise _) => ¬(a.typeName = "integer" ∧ b.typeName = "integer")
  | some (.comparison _) | some (.arithmetic _) => False

def RefusesCount (a b : Value) (op : Option BinaryOp) : Prop :=
  a.isInteger = true ∧ ∃ n, b = .int n ∧
    (n < 0 ∧ (op = some (.bitwise .shiftLeft) ∨ op = some (.bitwise .shiftRight)) ∨
      maxShift < n ∧ op = some (.bitwise .shiftLeft))

/-- A refusal would name an operand that the host does not write. -/
def Untold (limit : Option Nat) (glyph : String) (a b : Value) : Prop :=
  RefusesBoth a b (BinaryOp.ofGlyph? glyph) ∧ (a.IsUnwritable limit ∨ b.IsUnwritable limit) ∨
    RefusesCount a b (BinaryOp.ofGlyph? glyph) ∧ b.IsUnwritable limit

section
variable {p : Precision} {lim : Limits} {limit : Option Nat} {glyph : String} {a b v : Value}
    {x y : Extended}
  {s : Signal} {f : Fault}

theorem integerText?_eq_none_iff {n : Int} :
    integerText? limit n = none ↔ (Value.int n).IsUnwritable limit := by
  cases limit <;> simp [integerText?, Value.IsUnwritable]

theorem Value.render?_eq_none_iff : v.render? limit = none ↔ v.IsUnwritable limit := by
  cases v with
  | int n => exact integerText?_eq_none_iff
  | decimal x => simp [render?, IsUnwritable]
  | bool x => simp [render?, IsUnwritable]
  | string text => simp [render?, IsUnwritable]

theorem Fault.both_eq_none_iff {message : String → String → String} :
    Fault.message?.both limit a b message = none ↔ a.IsUnwritable limit ∨ b.IsUnwritable limit := by
  rw [← Value.render?_eq_none_iff, ← Value.render?_eq_none_iff, message?.both]
  cases a.render? limit <;> cases b.render? limit <;> simp

theorem endsUnblamed_fault : EndsUnblamed (.error (.ofFault lim f)) ↔
    f.message? lim.digits ≠ none := by
  unfold Failure.ofFault EndsUnblamed
  cases f.message? lim.digits with
  | none => simp [Failure.ofMessage]
  | some message => simp [Failure.ofMessage, EvalError.isBlaming, Expr.isMissing]

theorem endsUnblamed_mapError_ofFault {outcome : Except Fault Value} :
    EndsUnblamed (outcome.mapError (.ofFault lim)) ↔
      ∀ f, outcome = .error f → f.message? lim.digits ≠ none := by
  cases outcome with
  | ok v => exact iff_of_true (.inl ⟨v, rfl⟩) nofun
  | error f => exact endsUnblamed_fault.trans (by simp)

theorem endsUnblamed_mapError_ofStop {outcome : Except Stop Value} :
    EndsUnblamed (outcome.mapError (.ofStop lim)) ↔
      (∀ e, outcome ≠ .error (.escape e)) ∧ ∀ f, outcome = .error (.fault f) →
        f.message? lim.digits ≠ none := by
  rcases outcome with (f | e) | v
  · exact endsUnblamed_fault.trans (by simp)
  · simp [EndsUnblamed, Except.mapError, Failure.ofStop]
  · exact iff_of_true (.inl ⟨v, rfl⟩) ⟨nofun, nofun⟩

theorem UnaryOp.exists_result?_iff {op : UnaryOp} : (∃ r, op.result? v = some r) ↔ op.Takes v := by
  cases op <;> cases v <;> simp [result?, Takes, Value.isNumber]

theorem evalUnary_eq_ok_iff : (∃ r, evalUnary glyph v = .ok r) ↔ TakenBy glyph v := by
  unfold evalUnary TakenBy
  cases UnaryOp.ofGlyph? glyph with
  | none => simp
  | some op =>
    simp only [Option.some.injEq, exists_eq_left', ← UnaryOp.exists_result?_iff]
    cases op.result? v <;> simp

theorem message?_of_evalUnary (h : evalUnary glyph v = .error f) :
    f.message? limit = none ↔ v.IsUnwritable limit := by
  rw [← Value.render?_eq_none_iff]
  unfold evalUnary at h
  split at h
  · cases h; simp [Fault.message?]
  · split at h
    · cases h
    · cases h; simp [Fault.message?]

theorem evalUnary_untold_iff :
    (∃ f, evalUnary glyph v = .error f ∧ f.message? limit = none) ↔
      ¬TakenBy glyph v ∧ v.IsUnwritable limit := by
  rw [← evalUnary_eq_ok_iff]
  cases outcome : evalUnary glyph v with
  | ok r => simp
  | error f => simp [message?_of_evalUnary outcome]

theorem promoteBoth_told (h : promoteBoth a b = .error f) : f.message? limit ≠ none := by
  have told {v : Value} (h : v.promote? = none) : (Fault.notANumber v).message? limit ≠ none := by
    cases v <;> simp_all [Value.promote?, Fault.message?, Value.render?]
  unfold promoteBoth at h
  split at h <;> cases h
  · exact told ‹_›
  · exact told ‹_›

theorem promoteBoth_eq_ok_iff : promoteBoth a b = .ok (x, y) ↔
    a.promote? = some x ∧ b.promote? = some y := by
  unfold promoteBoth
  cases a.promote? <;> cases b.promote? <;> simp

theorem Extended.compare?_eq_none_iff : x.compare? y = none ↔ x.isNaN = true ∨ y.isNaN = true := by
  cases x <;> cases y <;> simp [compare?, isNaN]

/-- How an operator ends: with a signal, with a precision that no context can be set to, or with a
fault that cannot be told, each of them just when something is the case, and in no other way that
nothing describes. -/
structure EndsBy (limit : Option Nat) (outcome : Except Stop Value)
    (signal precision untold : Prop) : Prop where
  signal_iff : ∀ s, outcome = .error (.escape (.signal s)) ↔ signal ∧ s = .invalidOperation
  precision_iff : outcome = .error (.escape .precision) ↔ precision
  not_text : outcome ≠ .error (.escape .text)
  untold_iff : (∃ f, outcome = .error (.fault f) ∧ f.message? limit = none) ↔ untold

theorem EndsBy.ok : EndsBy limit (.ok v) False False False := by
  constructor <;> simp

theorem EndsBy.fault (limit : Option Nat) (f : Fault) :
    EndsBy limit (.error (.fault f)) False False (f.message? limit = none) := by
  constructor <;> simp

theorem EndsBy.told (h : f.message? limit ≠ none) :
    EndsBy limit (.error (.fault f)) False False False := by
  simpa [h] using EndsBy.fault limit f

theorem EndsBy.signal : EndsBy limit (.error (.escape (.signal .invalidOperation)))
    True False False := by
  constructor <;> simp [eq_comm]

theorem EndsBy.precision : EndsBy limit (.error (.escape .precision)) False True False := by
  constructor <;> simp

theorem Failure.ofFault_eq_escape_iff {t : Escape} :
    ofFault lim f = .escape t ↔ t = .text ∧ f.message? lim.digits = none := by
  unfold ofFault
  cases f.message? lim.digits <;> simp [ofMessage, eq_comm]

theorem EndsBy.escape_iff {outcome : Except Stop Value} {signal precision untold : Prop}
    (h : EndsBy lim.digits outcome signal precision untold) (t : Escape) :
    outcome.mapError (Failure.ofStop lim) = .error (.escape t) ↔
      (t = .signal .invalidOperation ∧ signal) ∨ (t = .precision ∧ precision) ∨
      (t = .text ∧ untold) := by
  have signals := h.signal_iff
  rw [← h.precision_iff, ← h.untold_iff]
  rcases outcome with (f | e) | v
  · have none : ¬signal := by simpa using signals .invalidOperation
    simp [Except.mapError, Failure.ofStop, Failure.ofFault_eq_escape_iff, none]
  · have text := h.not_text
    cases e <;> cases t <;> simp_all [Except.mapError, Failure.ofStop, and_comm]
  · have none : ¬signal := by simpa using signals .invalidOperation
    simp [Except.mapError, none]

theorem endsBy_evalComparison (op : ComparisonOp) (a b : Value) :
    EndsBy limit (evalComparison op a b)
      (∃ x y, a.promote? = some x ∧ b.promote? = some y ∧
        (x.isNaN = true ∨ y.isNaN = true)) False False := by
  unfold evalComparison
  cases operands : promoteBoth a b with
  | error f =>
    have none : ¬∃ x y, a.promote? = some x ∧ b.promote? = some y ∧
      (x.isNaN = true ∨ y.isNaN = true) := by
      rintro ⟨x, y, ha, hb, -⟩
      cases operands.symm.trans (promoteBoth_eq_ok_iff.mpr ⟨ha, hb⟩)
    rw [eq_false none]
    exact .told (promoteBoth_told operands)
  | ok xy =>
    obtain ⟨x, y⟩ := xy
    obtain ⟨ha, hb⟩ := promoteBoth_eq_ok_iff.mp operands
    simp only [ha, hb, Option.some.injEq, exists_and_left, exists_eq_left',
      ← Extended.compare?_eq_none_iff]
    cases order : x.compare? y with
    | none => simpa [order] using EndsBy.signal
    | some o => simpa [order] using EndsBy.ok

theorem endsBy_evalArithmetic (p : Precision) (op : ArithmeticOp) (glyph : String)
    (x y : Extended) :
    EndsBy limit (evalArithmetic p op glyph x y) False
      (op = .rem ∧ y.isZero = false ∧
        Precision.greatest < (Decimal.remainderPrecision p x.adjusted y.adjusted).digits)
      False := by
  unfold evalArithmetic
  split_ifs with zero unit
  · have divides : y.isZero = true := by simp_all
    have told : (Fault.divisionByZero glyph x y).message? limit ≠ none := by simp [Fault.message?]
    simpa [divides] using EndsBy.told told
  · have power : op = .pow := by simp_all
    simpa [power] using EndsBy.ok
  · cases working : op.workingPrecision? p x y with
    | none =>
      obtain ⟨rfl, lacking⟩ : op = .rem ∧
        Precision.greatest < (Decimal.remainderPrecision p x.adjusted y.adjusted).digits := by
        cases op <;> simp_all [ArithmeticOp.workingPrecision?]
      have nonzero : y.isZero = false := by simpa [ArithmeticOp.divides] using zero
      simpa [lacking, nonzero] using EndsBy.precision
    | some w =>
      have room : ¬(op = .rem ∧ y.isZero = false ∧
          Precision.greatest < (Decimal.remainderPrecision p x.adjusted y.adjusted).digits) := by
        rintro ⟨rfl, -, lacking⟩
        cases working.symm.trans (if_neg (Nat.not_le.mpr lacking))
      simp only [room]
      split
      · exact .told (by simp [Fault.message?])
      · exact .ok
      · exact .told (by simp [Fault.message?])

theorem endsBy_arithmetic (p : Precision) {op : ArithmeticOp}
    (hop : BinaryOp.ofGlyph? glyph = some (.arithmetic op)) (a b : Value) :
    EndsBy limit (evalBinary p glyph a b) False
      (op = .rem ∧ ∃ x y, a.promote? = some x ∧ b.promote? = some y ∧ y.isZero = false ∧
        Precision.greatest <
          (Decimal.remainderPrecision p x.adjusted y.adjusted).digits) False := by
  rw [evalBinary, hop]
  dsimp only
  cases operands : promoteBoth a b with
  | error f =>
    have none : ¬(op = .rem ∧ ∃ x y, a.promote? = some x ∧ b.promote? = some y ∧ y.isZero = false ∧
        Precision.greatest < (Decimal.remainderPrecision p x.adjusted y.adjusted).digits) := by
      rintro ⟨-, x, y, ha, hb, -⟩
      cases operands.symm.trans (promoteBoth_eq_ok_iff.mpr ⟨ha, hb⟩)
    rw [eq_false none]
    exact .told (promoteBoth_told operands)
  | ok xy =>
    obtain ⟨x, y⟩ := xy
    obtain ⟨ha, hb⟩ := promoteBoth_eq_ok_iff.mp operands
    simpa [ha, hb] using endsBy_evalArithmetic p op glyph x y

theorem endsBy_equality (p : Precision) {op : EqualityOp}
    (hop : BinaryOp.ofGlyph? glyph = some (.equality op)) (a b : Value) :
    EndsBy limit (evalBinary p glyph a b)
      (∃ x y, a = .decimal x ∧ b = .decimal y ∧ (x.signals = true ∨ y.signals = true)) False
      ((a.typeName = "string" ∨ b.typeName = "string") ∧
        (a.IsUnwritable limit ∨ b.IsUnwritable limit)) := by
  have untold : (Fault.comparedStrings glyph a b).message? limit = none ↔ _ :=
    Fault.both_eq_none_iff
  rw [← untold, evalBinary, hop]
  have refused := EndsBy.fault limit (.comparedStrings glyph a b)
  have compared (same : Bool) : EndsBy limit (.ok (.bool same)) False False False := .ok
  cases a with
  | string s => simpa [Value.typeName] using refused
  | int m => cases b with
    | string s => simpa [Value.typeName] using refused
    | int | decimal | bool => simpa [Value.typeName, Value.same?] using compared _
  | bool c => cases b with
    | string s => simpa [Value.typeName] using refused
    | int | decimal | bool => simpa [Value.typeName, Value.same?] using compared _
  | decimal x => cases b with
    | string s => simpa [Value.typeName] using refused
    | int | bool => simpa [Value.typeName, Value.same?] using compared _
    | decimal y =>
      by_cases signals : x.signals = true ∨ y.signals = true
      · simpa [Value.typeName, Value.same?, signals] using EndsBy.signal
      · simpa [Value.typeName, Value.same?, signals] using compared _

theorem endsBy_logical (p : Precision) {op : LogicalOp}
    (hop : BinaryOp.ofGlyph? glyph = some (.logical op)) (a b : Value) :
    EndsBy limit (evalBinary p glyph a b) False False
      (¬(a.typeName = "boolean" ∧ b.typeName = "boolean") ∧
        (a.IsUnwritable limit ∨ b.IsUnwritable limit)) := by
  have untold : (Fault.notBooleans glyph a b).message? limit = none ↔ _ := Fault.both_eq_none_iff
  rw [← untold, evalBinary, hop]
  have refused := EndsBy.fault limit (.notBooleans glyph a b)
  dsimp only
  split
  · simpa [Value.typeName] using EndsBy.ok
  · have other : ¬(a.typeName = "boolean" ∧ b.typeName = "boolean") := by
      cases a <;> cases b <;> simp_all [Value.typeName]
    simpa [other] using refused

theorem endsBy_evalBitwise (op : BitwiseOp) (m n : Int) :
    EndsBy limit ((evalBitwise op m n).mapError .fault) False False
      (RefusesCount (.int m) (.int n) (some (.bitwise op)) ∧ (Value.int n).IsUnwritable limit) := by
  rw [← integerText?_eq_none_iff]
  have negative := EndsBy.fault limit (.negativeShift n)
  have excessive := EndsBy.fault limit (.excessiveShift n)
  simp only [Fault.message?, Option.map_eq_none_iff] at negative excessive
  cases op with
  | or | and | xor => simpa [evalBitwise, RefusesCount, Except.mapError] using EndsBy.ok
  | shiftLeft =>
    by_cases low : n < 0
    · simpa [evalBitwise, RefusesCount, Except.mapError, Value.isInteger, low] using negative
    by_cases high : maxShift < n
    · simpa [evalBitwise, RefusesCount, Except.mapError, Value.isInteger, low, high] using excessive
    · simpa [evalBitwise, RefusesCount, Except.mapError, low, high] using EndsBy.ok
  | shiftRight =>
    by_cases low : n < 0
    · simpa [evalBitwise, RefusesCount, Except.mapError, Value.isInteger, low] using negative
    · simpa [evalBitwise, RefusesCount, Except.mapError, low] using EndsBy.ok

theorem endsBy_bitwise (p : Precision) {op : BitwiseOp}
    (hop : BinaryOp.ofGlyph? glyph = some (.bitwise op)) (a b : Value) :
    EndsBy limit (evalBinary p glyph a b) False False
      (¬(a.typeName = "integer" ∧ b.typeName = "integer") ∧
        (a.IsUnwritable limit ∨ b.IsUnwritable limit) ∨
        RefusesCount a b (some (.bitwise op)) ∧ b.IsUnwritable limit) := by
  have untold : (Fault.notIntegers glyph a b).message? limit = none ↔ _ := Fault.both_eq_none_iff
  rw [← untold, evalBinary, hop]
  have refused := EndsBy.fault limit (.notIntegers glyph a b)
  dsimp only
  split
  · simpa [Value.typeName] using endsBy_evalBitwise op _ _
  · have other : ¬(a.typeName = "integer" ∧ b.typeName = "integer") := by
      cases a <;> cases b <;> simp_all [Value.typeName]
    have whole : ¬RefusesCount a b (some (.bitwise op)) := by
      cases a <;> cases b <;> simp_all [RefusesCount, Value.isInteger]
    simpa [other, whole] using refused

theorem exists_comparison_iff :
    (∃ op, BinaryOp.ofGlyph? glyph = some (.comparison op)) ↔ glyph ∈ ["<", "<=", ">", ">="] := by
  unfold BinaryOp.ofGlyph?
  split <;> simp_all

theorem exists_equality_iff :
    (∃ op, BinaryOp.ofGlyph? glyph = some (.equality op)) ↔ glyph ∈ ["==", "!="] := by
  unfold BinaryOp.ofGlyph?
  split <;> simp_all

theorem remainder_iff : BinaryOp.ofGlyph? glyph = some (.arithmetic .rem) ↔ glyph = "%" := by
  unfold BinaryOp.ofGlyph?
  split <;> simp_all

/-- How a binary operator ends, its group settling which of the exceptions can arise. -/
theorem evalBinary_endsBy (limit : Option Nat) (p : Precision) (glyph : String) (a b : Value) :
    EndsBy limit (evalBinary p glyph a b) (ComparesNaN glyph a b ∨
      EquatesSignaling glyph a b) (LacksRoom p glyph a b)
      (Untold limit glyph a b) := by
  rw [ComparesNaN, EquatesSignaling, LacksRoom, Untold, ← exists_comparison_iff,
    ← exists_equality_iff, ← remainder_iff]
  cases hop : BinaryOp.ofGlyph? glyph with
  | none =>
    have untold : (Fault.unknownBinary glyph a b).message? limit = none ↔ _ :=
      Fault.both_eq_none_iff
    simpa [evalBinary, hop, RefusesBoth, RefusesCount, untold] using
      EndsBy.fault limit (.unknownBinary glyph a b)
  | some op => cases op with
    | logical op => simpa [RefusesBoth, RefusesCount] using endsBy_logical p hop a b
    | equality op => simpa [RefusesBoth, RefusesCount] using endsBy_equality p hop a b
    | comparison op =>
      simpa [evalBinary, hop, RefusesBoth, RefusesCount] using endsBy_evalComparison op a b
    | arithmetic op => simpa [RefusesBoth, RefusesCount] using endsBy_arithmetic p hop a b
    | bitwise op => simpa [RefusesBoth] using endsBy_bitwise p hop a b

end

/-- Whatever the operands, a unary operator has a value or fails with an error that blames no
expression, unless it refuses an integer that the host does not write, and it has a value just for
the operands that it takes. A binary operator does so unless what is no number is compared, or what
signals is equated, when the bare signal of an invalid operation is the outcome, unless the digits
for a remainder are more than any context can have, or unless it refuses operands or a count that
the host does not write. -/
theorem operators_end_unblamed (p : Precision) (lim : Limits) (glyph : String) (a b : Value) :
    (EndsUnblamed ((evalUnary glyph a).mapError (.ofFault lim)) ↔
      TakenBy glyph a ∨ ¬a.IsUnwritable lim.digits) ∧
    ((∃ v, evalUnary glyph a = .ok v) ↔ TakenBy glyph a) ∧
    (EndsUnblamed ((evalBinary p glyph a b).mapError (.ofStop lim)) ↔
      ¬(ComparesNaN glyph a b ∨ EquatesSignaling glyph a b ∨ LacksRoom p glyph a b ∨
        Untold lim.digits glyph a b)) ∧
    (evalBinary p glyph a b = .error (.escape (.signal .invalidOperation)) ↔
      ComparesNaN glyph a b ∨ EquatesSignaling glyph a b) ∧
    (evalBinary p glyph a b = .error (.escape .precision) ↔ LacksRoom p glyph a b) := by
  have ends := evalBinary_endsBy lim.digits p glyph a b
  refine ⟨?_, evalUnary_eq_ok_iff, ?_,
    by simpa using ends.signal_iff .invalidOperation, ends.precision_iff⟩
  · rw [endsUnblamed_mapError_ofFault, ← not_iff_not]
    simpa using evalUnary_untold_iff
  · rw [endsUnblamed_mapError_ofStop, ← ends.untold_iff, ← ends.precision_iff, ← or_assoc]
    constructor
    · rintro ⟨described, told⟩ (signal | precision | ⟨f, failed, none⟩)
      · exact described _ ((ends.signal_iff .invalidOperation).mpr ⟨signal, rfl⟩)
      · exact described _ precision
      · exact told f failed none
    · intro none
      refine ⟨fun e => ?_, fun f failed untold => none (.inr (.inr ⟨f, failed, untold⟩))⟩
      cases e with
      | signal s => exact fun signal => none (.inl ((ends.signal_iff s).mp signal).1)
      | precision => exact fun precision => none (.inr (.inl precision))
      | text => exact ends.not_text

def Value.powerOfTen (exponent : Nat) : Value := .int (Nat.pow 10 exponent : Nat)

theorem not_powerOfTen_escapes (digits : Nat) (prints : Expr → Bool) :
    ¬EndsUnblamed ((evalUnary "!" (.powerOfTen digits)).mapError
      (.ofFault ⟨some digits, prints⟩)) := by
  have untaken : ¬TakenBy "!" (.powerOfTen digits) := by
    rintro ⟨op, glyph, takes⟩
    obtain rfl : UnaryOp.not = op := Option.some.inj glyph
    obtain ⟨b, isBool⟩ := takes
    cases isBool
  have long : digits < digitCount (Nat.pow 10 digits) :=
    (lt_digitCount_iff (Nat.pow_pos (by decide)).ne').mpr le_rfl
  obtain ⟨f, failed, untold⟩ := evalUnary_untold_iff.mpr ⟨untaken, _, digits, rfl, rfl, long⟩
  intro ends
  exact endsUnblamed_mapError_ofFault.mp ends f failed untold

/-- The sum of one and what is no number is refused with an error, but their order with a signal.
What signals is not even equated, one divided by far too small a number has no remainder, and the
refusal to negate an integer of 4301 digits is not told by a host that writes one digit less. -/
theorem signal_of_comparison_escapes :
    let one : Value := .int 1
    let nan : Value := .decimal (.nan false false 0)
    let signaling : Value := .decimal (.nan false true 0)
    let tiny : Value := .decimal (.finite ⟨false, 1, -1000000000000000000⟩)
    let host : Limits := ⟨some 4300, fun _ => true⟩
    ¬EndsUnblamed ((evalBinary .standard "<" nan one).mapError (.ofStop host)) ∧
      ¬EndsUnblamed ((evalBinary .standard "==" signaling nan).mapError (.ofStop host)) ∧
      ¬EndsUnblamed ((evalBinary .standard "%" one tiny).mapError (.ofStop host)) ∧
      ¬EndsUnblamed ((evalUnary "!" (.powerOfTen 4300)).mapError (.ofFault host)) ∧
      EndsUnblamed ((evalBinary .standard "+" nan one).mapError (.ofStop host)) := by
  intro one nan signaling tiny host
  have escapes {outcome : Except Stop Value} {e : Escape} (h : outcome = .error (.escape e)) :
      ¬EndsUnblamed (outcome.mapError (.ofStop host)) := by
    intro ends
    exact (endsUnblamed_mapError_ofStop.mp ends).1 e h
  refine ⟨escapes (e := .signal .invalidOperation) rfl,
    escapes (e := .signal .invalidOperation) rfl,
    escapes (e := .precision) rfl, ?_, ?_⟩
  · exact not_powerOfTen_escapes 4300 _
  · exact .inr ⟨_, rfl, rfl, rfl⟩

end Comptime
