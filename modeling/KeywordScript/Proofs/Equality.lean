import Mathlib.Data.List.Forall2
import KeywordScript.Proofs.NumberOrder
import KeywordScript.Proofs.Operation

/-! Equality of values: two values are equal if they have the same identity and no NaN occurs in
them. So equality is symmetric and transitive, and a value equals itself unless a NaN occurs in
it. -/

namespace KeywordScript

/-- What values are told apart by: numbers by their ranks, lists by their items, keywords by which
they are, and code, natives and functions by where they were made. -/
inductive Identity where
  | null
  | bool (b : Bool)
  | num (rank : Option (ℤ ×ₗ ℤ ×ₗ ℤ))
  | str (s : String)
  | list (items : List Identity)
  | code (site : Site)
  | builtin (k : Keyword)
  | native (id : Nat)
  | func (id : Nat)

namespace Value

variable {H : Type}

mutual

def identity : Value H → Identity
  | null => .null
  | bool b => .bool b
  | num x => .num (Number.rank x)
  | str s => .str s
  | list vs => .list (identities vs)
  | code c => .code c.site
  | builtin k => .builtin k
  | native n => .native n.id
  | func f => .func f.id

def identities : List (Value H) → List Identity
  | [] => []
  | v :: rest => v.identity :: identities rest

end

mutual

/-- Whether no NaN occurs in a value, at any depth of lists. -/
def nanFree : Value H → Bool
  | num x => !x.isNaN
  | list vs => nanFreeItems vs
  | null | bool _ | str _ | code _ | builtin _ | native _ | func _ => true

def nanFreeItems : List (Value H) → Bool
  | [] => true
  | v :: rest => v.nanFree && nanFreeItems rest

end

-- Lists hold values and values hold lists, so one induction goes through both.
mutual

theorem equal_iff : (v w : Value H) →
    v.equal w = true ↔ (v.nanFree = true ∧ w.nanFree = true) ∧ v.identity = w.identity
  | list vs, w => by
    cases w with
    | list ws => simp [equal, nanFree, identity, equalItems_iff vs ws]
    | _ => simp [equal, identity]
  | num x, w => by
    cases w with
    | num y => simp [equal, nanFree, identity, Number.beq_iff]
    | _ => simp [equal, identity]
  | null, w | bool _, w | str _, w | code _, w | builtin _, w | native _, w | func _, w => by
    cases w <;> simp [equal, nanFree, identity]

theorem equalItems_iff : (vs ws : List (Value H)) →
    equalItems vs ws = true ↔
      (nanFreeItems vs = true ∧ nanFreeItems ws = true) ∧ identities vs = identities ws
  | [], ws => by
    cases ws <;> simp [equalItems, nanFreeItems, identities]
  | v :: rest, ws => by
    cases ws with
    | nil => simp [equalItems, identities]
    | cons w ws =>
      simp only [equalItems, nanFreeItems, identities, Bool.and_eq_true, List.cons.injEq,
        equal_iff v w, equalItems_iff rest ws]
      tauto

end

private theorem equalItems_iff_forall₂ {vs ws : List (Value H)} :
    equalItems vs ws = true ↔ List.Forall₂ (fun v w => (v == w) = true) vs ws := by
  induction vs generalizing ws with
  | nil => cases ws <;> simp [equalItems]
  | cons v rest ih =>
    cases ws with
    | nil => simp [equalItems]
    | cons w ws =>
      rw [equalItems, Bool.and_eq_true, ih, List.forall₂_cons]
      rfl

theorem beq_list_iff {vs ws : List (Value H)} :
    (list vs == list ws) = true ↔
      vs.length = ws.length ∧
        ∀ i (hv : i < vs.length) (hw : i < ws.length), (vs[i] == ws[i]) = true := by
  change equalItems vs ws = true ↔ _
  rw [equalItems_iff_forall₂, List.forall₂_iff_get]
  rfl

section Equal

variable {u v w : Value H}

theorem beq_iff :
    (v == w) = true ↔ (v.nanFree = true ∧ w.nanFree = true) ∧ v.identity = w.identity :=
  equal_iff v w

theorem beq_self_iff : (v == v) = true ↔ v.nanFree = true := by
  simp [beq_iff]

theorem beq_symm (h : (v == w) = true) : (w == v) = true := by
  rw [beq_iff] at h ⊢
  exact ⟨h.1.symm, h.2.symm⟩

theorem beq_trans (huv : (u == v) = true) (hvw : (v == w) = true) : (u == w) = true := by
  rw [beq_iff] at huv hvw ⊢
  exact ⟨⟨huv.1.1, hvw.1.2⟩, huv.2.trans hvw.2⟩

end Equal

end Value

namespace Identity

def kind : Identity → Kind
  | null => .null
  | bool _ => .bool
  | num _ => .number
  | str _ => .string
  | list _ => .list
  | code _ => .script
  | builtin _ | native _ | func _ => .function

def isTruthy : Identity → Bool
  | null => false
  | bool b => b
  | num rank => rank != Number.rank 0
  | str s => !s.isEmpty
  | _ => true

variable {H : Type}

theorem kind_identity (v : Value H) : v.identity.kind = v.kind := by
  cases v <;> rfl

theorem isTruthy_identity {v : Value H} (h : v.nanFree = true) :
    v.identity.isTruthy = v.isTruthy := by
  cases v with
  | num x =>
    have hx : x.isNaN = false := by
      rwa [Value.nanFree, Bool.not_eq_true'] at h
    have hzero : (0 : Float).isNaN = false := by decide
    have hrank : (x == 0) = (Number.rank x == Number.rank 0) := by
      rw [Bool.eq_iff_iff, Number.beq_iff, beq_iff_eq, hx, hzero]
      simp
    change (!(Number.rank x == Number.rank 0)) = (!(x == 0) && !x.isNaN)
    rw [hrank, hx, Bool.not_false, Bool.and_true]
  | _ => rfl

end Identity

/-- Equality of values is symmetric and transitive, and a value equals itself exactly when no NaN
occurs in it. Equal values have the same kind and are alike as conditions. Lists are equal if they
have as many items and these are equal in turn. `==` answers whether its arguments are equal, and
`<>` the opposite. -/
theorem equality_partial_equivalence {H : Type} [Host H] :
    (∀ v w : Value H, (v == w) = true → (w == v) = true) ∧
    (∀ u v w : Value H, (u == v) = true → (v == w) = true → (u == w) = true) ∧
    (∀ v : Value H, (v == v) = true ↔ v.nanFree = true) ∧
    (∀ v w : Value H, (v == w) = true → v.kind.name = w.kind.name ∧ v.isTruthy = w.isTruthy) ∧
    (∀ vs ws : List (Value H), (Value.list vs == .list ws) = true ↔
      vs.length = ws.length ∧
        ∀ i (hv : i < vs.length) (hw : i < ws.length), (vs[i] == ws[i]) = true) ∧
    ∀ (v w : Value H) (m : Machine H) fuel,
      call (fuel + 1) (.builtin (.operator .eq)) [v, w] m = some (.value (.bool (v == w)), m) ∧
      call (fuel + 1) (.builtin (.operator .ne)) [v, w] m =
        some (.value (.bool (!(v == w))), m) := by
  refine ⟨fun _ _ => Value.beq_symm, fun _ _ _ => Value.beq_trans, fun _ => Value.beq_self_iff,
    fun v w h => ?_, fun _ _ => Value.beq_list_iff, fun v w m fuel => ⟨?_, ?_⟩⟩
  · obtain ⟨⟨hv, hw⟩, hidentity⟩ := Value.beq_iff.mp h
    constructor
    · rw [← Identity.kind_identity v, ← Identity.kind_identity w, hidentity]
    · rw [← Identity.isTruthy_identity hv, ← Identity.isTruthy_identity hw, hidentity]
  · exact Operation.call_operator fuel .eq [v, w]
  · exact Operation.call_operator fuel .ne [v, w]

/-- Both zeros, inside a list, are equal and both are false as conditions; a NaN deep inside a list
makes it differ from itself. -/
theorem equality_partial_equivalence_of_zeros :
    let zero : Value Empty := .num 0
    let negative : Value Empty := .num (-0.0)
    let broken : Value Empty := .list [zero, .list [.num (0.0 / 0.0)]]
    (Value.list [zero, .str "a"] == .list [negative, .str "a"]) = true ∧
    (Value.list [negative, .str "a"] == .list [zero, .str "a"]) = true ∧
    zero.isTruthy = negative.isTruthy ∧ broken.nanFree = false ∧ (broken == broken) = false := by
  intro zero negative broken
  obtain ⟨hsymm, -, hself, hlike, hlist, -⟩ := equality_partial_equivalence (H := Empty)
  have hzero : (zero == negative) = true := by decide
  have hnan : broken.nanFree = false := by decide
  have hlists : (Value.list [zero, .str "a"] == .list [negative, .str "a"]) = true := by decide
  refine ⟨hlists, hsymm _ _ hlists, (hlike _ _ hzero).2, hnan, ?_⟩
  rw [← Bool.not_eq_true, hself, hnan]
  decide

end KeywordScript
