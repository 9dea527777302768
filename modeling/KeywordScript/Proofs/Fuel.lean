import KeywordScript.Proofs.Postcondition
import Mathlib.Order.Monotone.Basic

/-! Fuel: an evaluation that ends does so the same way with any larger fuel. -/

namespace KeywordScript

variable {H α β : Type}

namespace EvalM

/-- Here `x ≤ y` says that `y` ends wherever `x` does, and in the same way. -/
instance : Preorder (EvalM H α) where
  le x y := ∀ m r, x m = some r → y m = some r
  le_refl _ _ _ h := h
  le_trans _ _ _ h h' m r hx := h' m r (h m r hx)

theorem exhausted_le (x : EvalM H α) : exhausted ≤ x := by
  intro m r h
  cases h

theorem bind_mono {x y : EvalM H α} {f g : α → EvalM H β} (hx : x ≤ y) (hf : ∀ a, f a ≤ g a) :
    (x >>= f) ≤ (y >>= g) := by
  rintro m ⟨o, m'⟩ h
  rcases bind_eq_some h with ⟨a, m₁, hxa, hfa⟩ | ⟨v, hxv, rfl⟩ | ⟨e, hxe, rfl⟩
  · rw [bind_of_value (hx m _ hxa)]
    exact hf a m₁ _ hfa
  · exact bind_of_returned (hx m _ hxv) g
  · exact bind_of_failed (hx m _ hxe) g

theorem inScope_mono {x y : EvalM H α} (h : x ≤ y) : x.inScope ≤ y.inScope := by
  intro m r hr
  obtain ⟨p, hp, rfl⟩ := Option.map_eq_some_iff.mp hr
  rw [inScope, h m p hp]
  rfl

theorem asCall_mono {x y : EvalM H α} (h : x ≤ y) : x.asCall ≤ y.asCall := by
  intro m r hr
  by_cases hm : m.maxDepth ≤ m.depth
  · rw [asCall_of_le x hm] at hr
    rw [asCall_of_le y hm, hr]
  · rw [asCall_of_lt x (Nat.lt_of_not_le hm)] at hr
    obtain ⟨p, hp, rfl⟩ := Option.map_eq_some_iff.mp hr
    rw [asCall_of_lt y (Nat.lt_of_not_le hm), inScope_mono h _ _ hp]
    rfl

theorem whileTruthy_mono {c c' b b' : EvalM H (Value H)} (hc : c ≤ c') (hb : b ≤ b') {n n' : Nat}
    (hn : n ≤ n') : whileTruthy c b n ≤ whileTruthy c' b' n' := by
  induction n generalizing n' with
  | zero => exact exhausted_le _
  | succ n ih =>
    obtain ⟨k, rfl⟩ := Nat.exists_eq_add_of_le' (Nat.lt_of_lt_of_le (Nat.succ_pos n) hn)
    refine bind_mono hc fun v => ?_
    split
    · exact bind_mono hb fun _ => ih (Nat.le_of_succ_le_succ hn)
    · exact le_rfl

end EvalM

open EvalM

theorem Count.passes_mono (c : Count) (slot : Nat) {b b' : EvalM H (Value H)} (hb : b ≤ b')
    {n n' : Nat} (hn : n ≤ n') : c.passes slot b n ≤ c.passes slot b' n' := by
  induction n generalizing n' with
  | zero => exact exhausted_le _
  | succ n ih =>
    obtain ⟨k, rfl⟩ := Nat.exists_eq_add_of_le' (Nat.lt_of_lt_of_le (Nat.succ_pos n) hn)
    refine bind_mono le_rfl fun x => ?_
    split
    · exact bind_mono hb fun _ => bind_mono le_rfl fun _ => ih (Nat.le_of_succ_le_succ hn)
    · exact le_rfl

theorem evaluateItems_mono {ev ev' : Expr → Option Nat → EvalM H (Value H)}
    (h : ∀ e line, ev e line ≤ ev' e line) (n : Nat) (es : List Expr) :
    evaluateItems ev n es ≤ evaluateItems ev' n es := by
  induction es generalizing n with
  | nil => exact le_rfl
  | cons e rest ih => exact bind_mono (h e _) fun v => bind_mono (ih (n + 1)) fun _ => le_rfl

theorem Function.evaluateBody_mono {ev ev' : Expr → Option Nat → EvalM H (Value H)}
    (h : ∀ e line, ev e line ≤ ev' e line) (f : Function) (args : List (Value H)) :
    f.evaluateBody ev args ≤ f.evaluateBody ev' args :=
  bind_mono le_rfl fun _ => evaluateItems_mono h 1 f.body.items

theorem Keyword.invoke_mono {ev ev' : Expr → Option Nat → EvalM H (Value H)}
    (h : ∀ e line, ev e line ≤ ev' e line) {n n' : Nat} (hn : n ≤ n') (k : Keyword)
    (args : List (Value H)) : k.invoke n ev args ≤ k.invoke n' ev' args := by
  unfold Keyword.invoke
  cases k with
  | choose =>
    refine bind_mono le_rfl fun branch => ?_
    cases branch with
    | none => exact le_rfl
    | some e => exact bind_mono (h e none) fun _ => le_rfl
  | count =>
    refine bind_mono le_rfl fun c => bind_mono ?_ fun _ => le_rfl
    exact bind_mono le_rfl fun slot => bind_mono le_rfl fun _ =>
      c.passes_mono slot (h c.body none) hn
  | loop =>
    refine bind_mono le_rfl fun r => bind_mono ?_ fun _ => le_rfl
    exact whileTruthy_mono (h r.condition none) (h r.body none) hn
  | _ => exact le_rfl

/-- One more unit of fuel changes nothing in what has ended. -/
theorem evaluate_call_le_succ (n : Nat) :
    (∀ e line, (evaluate n e line : EvalM Empty (Value Empty)) ≤ evaluate (n + 1) e line) ∧
      ∀ callee args, (call n callee args : EvalM Empty (Value Empty)) ≤
        call (n + 1) callee args := by
  induction n with
  | zero =>
    constructor
    · intro e line
      rw [evaluate]
      exact exhausted_le _
    · intro callee args
      rw [call]
      exact exhausted_le _
  | succ n ih =>
    obtain ⟨hev, hcall⟩ := ih
    constructor
    · intro e line
      cases e with
      | lit l => simp only [evaluate, le_refl]
      | script es =>
        rw [evaluate, evaluate]
        exact bind_mono (inScope_mono (evaluateItems_mono hev 1 es)) fun _ => le_rfl
      | node k arg code ownLine =>
        rw [evaluate, evaluate]
        refine bind_mono (hev arg _) fun v => bind_mono le_rfl fun found => ?_
        cases found with
        | none => exact le_rfl
        | some callee => exact hcall callee _
    · intro callee args
      cases callee with
      | builtin k =>
        rw [call, call]
        exact k.invoke_mono hev (Nat.le_succ n) args
      | native f =>
        rw [call, call]
        cases f.action with
        | math op => exact le_rfl
        | host h => exact h.elim
      | func f =>
        rw [call, call, Function.invoke_eq_asCall, Function.invoke_eq_asCall]
        exact asCall_mono (f.evaluateBody_mono hev args)
      | _ => simp only [call, le_refl]

theorem evaluate_mono (e : Expr) (line : Option Nat) :
    Monotone fun n => (evaluate n e line : EvalM Empty (Value Empty)) :=
  monotone_nat_of_le_succ fun n => (evaluate_call_le_succ n).1 e line

theorem call_mono (callee : Value Empty) (args : List (Value Empty)) :
    Monotone fun n => (call n callee args : EvalM Empty (Value Empty)) :=
  monotone_nat_of_le_succ fun n => (evaluate_call_le_succ n).2 callee args

end KeywordScript
