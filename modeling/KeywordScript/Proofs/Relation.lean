import KeywordScript.Proofs.Blame
import KeywordScript.Proofs.Equality
import KeywordScript.Proofs.TextOrder

/-! The relational keywords `==`, `<>`, `<`, `>`, `<=` and `>=`. Two values are compared in one way,
and what the six answer follows from that: the answers fit together, and those to exchanged
arguments are the opposite ones. -/

namespace KeywordScript

namespace Value

variable {H : Type} {a b : Value H}

/-- Values that can be ordered: both are numbers, or both are texts. -/
def Comparable (a b : Value H) : Prop :=
  a.kind = .number ∧ b.kind = .number ∨ a.kind = .string ∧ b.kind = .string

def isNaN : Value H → Bool
  | num x => x.isNaN
  | _ => false

/-- How two values compare. Equality, which does not ask for their order, agrees with it, and they
have no order only if one of them is NaN. -/
structure Compared (a b : Value H) (order : Option Ordering) : Prop where
  compare : a.compare? b = some order
  beq : (a == b) = (order == some .eq)
  unordered : order = none ↔ (a.isNaN || b.isNaN) = true

theorem compared_num (x y : Float) :
    Compared (num x : Value H) (num y) (x.toModel.compare y.toModel) where
  compare := rfl
  beq := Number.beq_eq_compare x y
  unordered := Number.compare_eq_none_iff

theorem compared_str (s t : String) :
    Compared (str s : Value H) (str t) (some (Ord.compare s t)) where
  compare := rfl
  beq := by
    change (s == t) = _
    rw [Bool.eq_iff_iff]
    simp
  unordered := by simp [isNaN]

/-- Values that can be ordered are compared, in either direction. -/
theorem Comparable.exists_compared (h : a.Comparable b) :
    ∃ order, Compared a b order ∧ Compared b a (order.map Ordering.swap) := by
  rcases h with ⟨ha, hb⟩ | ⟨ha, hb⟩
  · obtain ⟨x, rfl⟩ := kind_eq_number_iff.mp ha
    obtain ⟨y, rfl⟩ := kind_eq_number_iff.mp hb
    refine ⟨_, compared_num x y, ?_⟩
    rw [← Number.compare_swap]
    exact compared_num y x
  · obtain ⟨s, rfl⟩ := kind_eq_string_iff.mp ha
    obtain ⟨t, rfl⟩ := kind_eq_string_iff.mp hb
    have hswap : Ord.compare t s = (Ord.compare s t).swap := Std.OrientedOrd.eq_swap
    refine ⟨_, compared_str s t, ?_⟩
    rw [Option.map_some, ← hswap]
    exact compared_str t s

end Value

namespace Operator

variable {H : Type} [Host H] {op : Operator} {a b : Value H}

/-- The keyword of an operator answers yes or no on two values, and changes nothing. -/
def Answers (op : Operator) (a b : Value H) (answer : Bool) : Prop :=
  ∀ fuel (m : Machine H), call (fuel + 1) (.builtin (.operator op)) [a, b] m =
    some (.value (.bool answer), m)

/-- The keyword of an operator fails on two values with a mismatch of their kinds, and changes
nothing. -/
def Refuses (op : Operator) (a b : Value H) : Prop :=
  ∀ fuel (m : Machine H),
    call (fuel + 1) (.builtin (.operator op)) [a, b] m =
      some (.failed (.mismatch op a.kind b.kind), m)

theorem answers_iff {answer : Bool} :
    op.Answers a b answer ↔ op.combine a b = .ok (.bool answer) := by
  constructor
  · intro h
    have hcall := h 0 {}
    rw [Operation.call_operator, apply] at hcall
    cases hr : op.combine a b with
    | ok v =>
      rw [hr] at hcall
      cases hcall
      rfl
    | error f =>
      rw [hr] at hcall
      cases hcall
  · intro h fuel m
    rw [Operation.call_operator, apply, h]
    rfl

theorem Answers.unique {answer other : Bool} (h : op.Answers a b answer)
    (h' : op.Answers a b other) :
    answer = other := by
  rw [answers_iff] at h h'
  rw [h] at h'
  simpa using h'

private theorem refuses_of_clashes (h : op.Clashes a.kind b.kind) : op.Refuses a b := by
  intro fuel m
  rw [Operation.call_operator, apply, combine_eq_error_iff.mpr ⟨rfl, h⟩]
  rfl

theorem refuses_of_not_comparable (hop : op ∈ [lt, gt, le, ge]) (h : ¬a.Comparable b) :
    op.Refuses a b := by
  obtain ⟨hnumbers, hstrings⟩ := not_or.mp h
  simp only [List.mem_cons, List.not_mem_nil, or_false] at hop
  apply refuses_of_clashes
  rcases hop with rfl | rfl | rfl |
    rfl <;> exact ⟨by decide, hnumbers, by simp [name], fun _ => hstrings⟩

theorem answers_of_ordered {accept : Ordering → Bool} {order : Option Ordering}
    (h : a.Compared b order) (hop : op.combine a b = op.ordered accept a b) :
    op.Answers a b (order.any accept) := by
  rw [answers_iff, hop, ordered, h.compare]

/-- What the six relational keywords answer on two values, of which the first is below the second,
the same or above it. -/
structure Relates (a b : Value H) (below same above : Bool) : Prop where
  lt : Operator.lt.Answers a b below
  gt : Operator.gt.Answers a b above
  le : Operator.le.Answers a b (below || same)
  ge : Operator.ge.Answers a b (above || same)
  eq : Operator.eq.Answers a b same
  ne : Operator.ne.Answers a b (!same)

theorem relates_of_compared {order : Option Ordering} (h : a.Compared b order) :
    Relates a b (order == some .lt) (order == some .eq) (order == some .gt) where
  lt := by
    have hlt : Operator.lt.Answers a b (order.any Ordering.isLT) := answers_of_ordered h rfl
    rcases order with _ | _ | _ | _ <;> exact hlt
  gt := by
    have hgt : Operator.gt.Answers a b (order.any Ordering.isGT) := answers_of_ordered h rfl
    rcases order with _ | _ | _ | _ <;> exact hgt
  le := by
    have hle : Operator.le.Answers a b (order.any Ordering.isLE) := answers_of_ordered h rfl
    rcases order with _ | _ | _ | _ <;> exact hle
  ge := by
    have hge : Operator.ge.Answers a b (order.any Ordering.isGE) := answers_of_ordered h rfl
    rcases order with _ | _ | _ | _ <;> exact hge
  eq := by
    rw [answers_iff, combine, h.beq]
  ne := by
    rw [answers_iff, combine, bne, h.beq]

theorem answers_lt_str (s t : String) :
    Operator.lt.Answers (.str s : Value H) (.str t) (compare s t == .lt) :=
  (relates_of_compared (Value.compared_str s t)).lt

theorem answers_lt_str_iff {s t : String} :
    Operator.lt.Answers (.str s : Value H) (.str t) true ↔
      List.Lex Text.Precedes s.toList t.toList := by
  rw [← Text.compare_eq_lt_iff, ← beq_iff_eq]
  constructor
  · intro h
    exact (answers_lt_str s t).unique h
  · intro h
    rw [← h]
    exact answers_lt_str s t

end Operator

/-- Of two values that can be ordered, the keywords answer that the first is below the second, the
same or above it, and exactly one of the three, or none if one of them is NaN; the other keywords
answer accordingly, and on exchanged arguments below and above are exchanged. On values that cannot
be ordered `<`, `>`, `<=` and `>=` fail, and `==` and `<>` answer. Texts are ordered by their
Unicode scalar values, which is the order of their bytes, and this order is transitive. -/
theorem relations_coherent {H : Type} [Host H] :
    (∀ a b : Value H,
      (a.Comparable b ∧ ∃ below same above, Operator.Relates a b below same above ∧
        Operator.Relates b a above same below ∧
        if a.isNaN || b.isNaN then below = false ∧ same = false ∧ above = false
        else [below, same, above].count true = 1) ∨
      (¬a.Comparable b ∧ (∀ op ∈ [Operator.lt, .gt, .le, .ge], op.Refuses a b) ∧
        ∃ same, Operator.eq.Answers a b same ∧ Operator.ne.Answers a b (!same))) ∧
    (∀ s t : String, ∃ below, Operator.lt.Answers (.str s : Value H) (.str t) below ∧
      (below = true ↔ List.Lex (· < ·) (Text.scalars s) (Text.scalars t)) ∧
      (below = true ↔ List.Lex (· < ·) (Text.bytes s) (Text.bytes t))) ∧
    ∀ s t u : String, Operator.lt.Answers (.str s : Value H) (.str t) true →
      Operator.lt.Answers (.str t : Value H) (.str u) true →
        Operator.lt.Answers (.str s : Value H) (.str u) true := by
  refine ⟨fun a b => ?_, fun s t => ?_, fun s t u hst htu => ?_⟩
  · by_cases h : a.Comparable b
    · obtain ⟨order, hab, hba⟩ := h.exists_compared
      have hrelates := Operator.relates_of_compared hab
      have hback := Operator.relates_of_compared hba
      refine .inl ⟨h, _, _, _, hrelates, ?_, ?_⟩
      · rcases order with _ | _ | _ | _ <;> exact hback
      · rw [if_congr hab.unordered.symm rfl rfl]
        rcases order with _ | _ | _ | _ <;> simp
    · exact .inr ⟨h, fun op hop => Operator.refuses_of_not_comparable hop h, _,
        Operator.answers_iff.mpr rfl, Operator.answers_iff.mpr rfl⟩
  · refine ⟨_, Operator.answers_lt_str s t, ?_, ?_⟩
    · rw [beq_iff_eq, Text.compare_eq_lt_iff, Text.lex_scalars_iff]
    · rw [beq_iff_eq, Text.compare_eq_lt_iff, Text.lex_bytes_iff]
  · rw [Operator.answers_lt_str_iff] at hst htu ⊢
    exact List.lex_trans Nat.lt_trans hst htu

/-- A character of three bytes comes before one of four, which it would not in the order of UTF-16.
A NaN is neither below nor above a number nor the same, and a number is not ordered with a text. -/
theorem relations_coherent_of_wide_characters :
    let three : Value Empty := .str "a\uffff"
    let four : Value Empty := .str "a😀"
    let nan : Value Empty := .num (0.0 / 0.0)
    Operator.lt.Answers three four true ∧ Operator.lt.Answers four (.str "b") true ∧
    Operator.lt.Answers three (.str "b") true ∧ nan.Comparable (.num 1) ∧
    Operator.Relates nan (.num 1) false false false ∧ Operator.le.Refuses (.num 1) four := by
  intro three four nan
  obtain ⟨hcases, -, htrans⟩ := relations_coherent (H := Empty)
  have hthree : Operator.lt.Answers three four true :=
    Operator.answers_lt_str_iff.mpr (Text.compare_eq_lt_iff.mp (by decide))
  have hfour : Operator.lt.Answers four (.str "b") true :=
    Operator.answers_lt_str_iff.mpr (Text.compare_eq_lt_iff.mp (by decide))
  have hcomparable : nan.Comparable (.num 1) := .inl ⟨rfl, rfl⟩
  have hmixed : ¬(Value.num 1).Comparable four := by
    rintro (⟨-, h⟩ | ⟨h, -⟩) <;> cases h
  refine ⟨hthree, hfour, htrans _ _ _ hthree hfour, hcomparable, ?_, ?_⟩
  · obtain ⟨-, below, same, above, hrelates, -, hnan⟩ | ⟨h, -⟩ := hcases nan (.num 1)
    · rw [if_pos (by decide)] at hnan
      obtain ⟨rfl, rfl, rfl⟩ := hnan
      exact hrelates
    · exact absurd hcomparable h
  · obtain ⟨h, -⟩ | ⟨-, hrefuses, -⟩ := hcases (.num 1) four
    · exact absurd h hmixed
    · exact hrefuses .le (by decide)

end KeywordScript
