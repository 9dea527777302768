import KeywordScript.Proofs.Coupling
import KeywordScript.Proofs.Stack

/-! Stacks that agree frame by frame: the same names in the same places, and related values. -/

namespace KeywordScript.Stack

variable {H : Type} {R : Value H → Value H → Prop}

def FramesAgree (R : Value H → Value H → Prop) (f g : Frame H) : Prop :=
  f.name = g.name ∧ R f.value g.value

def Pointwise (R : Value H → Value H → Prop) (s t : Stack H) : Prop :=
  List.Forall₂ (FramesAgree R) s.frames t.frames

section Lists

variable {fs gs : List (Frame H)} (h : List.Forall₂ (FramesAgree R) fs gs)

include h

theorem find?_agree (name : String) :
    Option.Rel (FramesAgree R)
      (fs.find? fun f => f.name == name) (gs.find? fun g => g.name == name) := by
  induction h with
  | nil => exact .none
  | cons hfg _ ih =>
    rw [List.find?_cons, List.find?_cons, hfg.1]
    split
    · exact .some hfg
    · exact ih

private theorem reassign_agree (name : String) {v w : Value H} (hvw : R v w) :
    Option.Rel (List.Forall₂ (FramesAgree R)) (reassign name v fs) (reassign name w gs) := by
  induction h with
  | nil => exact .none
  | @cons f g fs gs hfg hrest ih =>
    rw [reassign, reassign, hfg.1]
    split
    · exact .some (.cons ⟨rfl, hvw⟩ hrest)
    · generalize reassign name v fs = fs' at ih ⊢
      generalize reassign name w gs = gs' at ih ⊢
      cases ih with
      | none => exact .none
      | some hrest' => exact .some (.cons hfg hrest')

private theorem modify_agree {v w : Value H} (hvw : R v w) (i : Nat) :
    List.Forall₂ (FramesAgree R) (fs.modify i fun f => { f with value := v })
      (gs.modify i fun g => { g with value := w }) := by
  induction h generalizing i with
  | nil => simp
  | cons hfg hrest ih =>
    cases i with
    | zero => exact .cons ⟨hfg.1, hvw⟩ hrest
    | succ i => exact .cons hfg (ih i)

end Lists

namespace Pointwise

variable {s t : Stack H} (h : Pointwise R s t)

include h

theorem size_eq : s.size = t.size :=
  List.Forall₂.length_eq h

theorem push (name : String) {v w : Value H} (hvw : R v w) :
    Pointwise R (s.push name v) (t.push name w) :=
  .cons ⟨rfl, hvw⟩ h

theorem lookup? (name : String) : Option.Rel R (s.lookup? name) (t.lookup? name) := by
  have hfind := find?_agree h name
  unfold Stack.lookup? Stack.find?
  generalize s.frames.find? _ = f at hfind ⊢
  generalize t.frames.find? _ = g at hfind ⊢
  cases hfind with
  | none => exact .none
  | some hfg => exact .some hfg.2

theorem assign? (name : String) {v w : Value H} (hvw : R v w) :
    Option.Rel (Pointwise R) (s.assign? name v) (t.assign? name w) := by
  have hframes := reassign_agree h name hvw
  rw [assign?_eq_reassign, assign?_eq_reassign]
  generalize reassign name v s.frames = fs at hframes ⊢
  generalize reassign name w t.frames = gs at hframes ⊢
  cases hframes with
  | none => exact .none
  | some hfg => exact .some hfg

theorem get? (i : Nat) : Option.Rel (fun f g => R f.value g.value) (s.get? i) (t.get? i) := by
  unfold Stack.get?
  rw [h.size_eq]
  split
  · have hi := forall₂_getElem? h (t.size - 1 - i)
    generalize s.frames[t.size - 1 - i]? = f at hi ⊢
    generalize t.frames[t.size - 1 - i]? = g at hi ⊢
    cases hi with
    | none => exact .none
    | some hfg => exact .some hfg.2
  · exact .none

theorem set (i : Nat) {v w : Value H} (hvw : R v w) : Pointwise R (s.set i v) (t.set i w) := by
  unfold Stack.set
  rw [h.size_eq]
  split
  · exact modify_agree h hvw _
  · exact h

theorem truncate (n : Nat) : Pointwise R (s.truncate n) (t.truncate n) := by
  unfold Stack.truncate
  rw [h.size_eq]
  exact List.forall₂_drop _ h

end Pointwise

end KeywordScript.Stack
