import KeywordScript.Proofs.Coupling

/-! What coupled evaluations read off their arguments: related argument lists give related operands,
bodies and branches, or the same error. -/

namespace KeywordScript

theorem Operator.sum_str_left {H : Type} (s : String) (b : Value H) :
    Operator.sum (.str s) b = .ok (.str (s ++ b.text)) := rfl

theorem Operator.sum_str_right {H : Type} (a : Value H) (t : String) :
    Operator.sum a (.str t) = .ok (.str (a.text ++ t)) := by
  cases a <;> simp [Operator.sum, Value.text]

namespace Coupling

variable {C : Coupling}

theorem items_alike {e e' : Expr} (h : C.source e e') : List.Forall₂ C.source e.items e'.items := by
  have hexpr := C.expr h
  cases hexpr with
  | script hes => exact hes
  | lit l => exact .cons h .nil
  | node _ _ _ => exact .cons h .nil

section Operators

variable {v w v' w' : Value Empty} (op : Operator) (h : C.data v w) (h' : C.data v' w')

include h h'

private theorem numeric_alike (f : Float → Float → Float) :
    ReadAlike C.data (op.numeric f v v') (op.numeric f w w') := by
  cases C.alike (C.held h) with
  | num x =>
    cases C.alike (C.held h') with
    | num y => exact .ok (C.literal (.num (f x y)))
    | _ => exact .error _
  | _ => cases C.alike (C.held h') <;> exact .error _

private theorem ordered_alike (accept : Ordering → Bool) :
    ReadAlike C.data (op.ordered accept v v') (op.ordered accept w w') := by
  have hv := C.alike (C.held h)
  have hv' := C.alike (C.held h')
  unfold Operator.ordered
  rw [hv.compare? hv']
  split
  · exact .ok (C.literal (.bool _))
  · change ReadAlike _ (.error (.mismatch op v.kind v'.kind)) (.error (.mismatch op w.kind w'.kind))
    rw [hv.kind, hv'.kind]
    exact .error _

omit op in
private theorem sum_alike : ReadAlike C.data (Operator.sum v v') (Operator.sum w w') := by
  have ht := C.text h
  have ht' := C.text h'
  cases C.alike (C.held h) with
  | str s =>
    rw [Operator.sum_str_left, Operator.sum_str_left, ht']
    exact .ok (C.literal (.str _))
  | num x =>
    cases C.alike (C.held h') with
    | num y => exact .ok (C.literal (.num (x + y)))
    | str t => exact .ok (C.literal (.str _))
    | _ => exact .error _
  | _ =>
    cases C.alike (C.held h') with
    | str t =>
      simp only [Operator.sum_str_right, ht]
      exact .ok (C.literal (.str _))
    | _ => exact .error _

theorem combine_alike : ReadAlike C.data (op.combine v v') (op.combine w w') := by
  have htruthy := (C.alike (C.held h)).isTruthy
  have hequal : (v == v') = (w == w') := C.equal h h'
  unfold Operator.combine
  cases op with
  | add => exact sum_alike h h'
  | sub | mul | div | mod => exact numeric_alike _ h h' _
  | gt | lt | ge | le => exact ordered_alike _ h h' _
  | eq =>
    rw [hequal]
    exact .ok (C.literal (.bool _))
  | ne =>
    have hne : (v != v') = (w != w') := congrArg not hequal
    rw [hne]
    exact .ok (C.literal (.bool _))
  | and =>
    refine .ok ?_
    rw [htruthy]
    split
    · exact h'
    · exact h
  | or =>
    refine .ok ?_
    rw [htruthy]
    split
    · exact h
    · exact h'

end Operators

section Reading

variable {args args' : List (Value Empty)} (ha : List.Forall₂ C.data args args')

include ha

theorem argument_cases (i : Nat) :
    args[i]? = none ∧ args'[i]? = none ∨
      ∃ v w, args[i]? = some v ∧ args'[i]? = some w ∧ C.data v w := by
  have hi := forall₂_getElem? ha i
  generalize args[i]? = v at hi ⊢
  generalize args'[i]? = w at hi ⊢
  cases hi with
  | none => exact .inl ⟨rfl, rfl⟩
  | some hvw => exact .inr ⟨_, _, rfl, rfl, hvw⟩

/-- Where `take?` takes the same from like values, so does the reader that it makes. -/
theorem read_eq {α : Type} {take? : Value Empty → Option α}
    (htake : ∀ {v w}, v.Alike C.source C.data w → take? v = take? w) (shape : Shape) (role : Role)
    (caller : String) (i : Nat) :
    Argument.read take? shape role caller args i =
      Argument.read take? shape role caller args' i := by
  unfold Argument.read
  rcases argument_cases ha i with ⟨h, h'⟩ | ⟨v, w, h, h', hvw⟩
  · rw [h, h', ha.length_eq]
  · have halike := C.alike (C.held hvw)
    rw [h, h']
    dsimp only
    rw [htake halike, halike.kind]

theorem name_eq (caller : String) (i : Nat) :
    Argument.name caller args i = Argument.name caller args' i :=
  read_eq ha Value.Alike.str? _ _ caller i

theorem number_eq (caller : String) (i : Nat) :
    Argument.number caller args i = Argument.number caller args' i :=
  read_eq ha Value.Alike.num? _ _ caller i

theorem splitCode_alike (caller : String) :
    ReadAlike (fun p p' => C.source p.1 p'.1 ∧ List.Forall₂ C.data p.2 p'.2)
      (Argument.splitCode caller args) (Argument.splitCode caller args') := by
  have hlast := forall₂_getLast? ha
  have hrest := forall₂_dropLast ha
  unfold Argument.splitCode
  rw [ha.length_eq]
  generalize args.getLast? = v at hlast ⊢
  generalize args'.getLast? = w at hlast ⊢
  cases hlast with
  | none => exact .error _
  | some hvw =>
    have halike := C.alike (C.held hvw)
    cases halike with
    | code hc => exact .ok ⟨hc, hrest⟩
    | _ => exact .error _

theorem getD_data (i : Nat) : C.data (args[i]?.getD .null) (args'[i]?.getD .null) := by
  rcases argument_cases ha i with ⟨h, h'⟩ | ⟨v, w, h, h', hvw⟩
  · rw [h, h']
    exact C.literal .null
  · rw [h, h']
    exact hvw

theorem binding_alike (caller : String) :
    ReadAlike (fun b b' => b.name = b'.name ∧ C.data b.value b'.value)
      (Binding.read caller args) (Binding.read caller args') :=
  .bind_eq (name_eq ha caller 0) fun _ => .ok ⟨rfl, getD_data ha 1⟩

theorem params_eq (caller : String) (i : Nat) :
    Definition.params? caller i args = Definition.params? caller i args' := by
  induction ha generalizing i with
  | nil => rfl
  | cons hvw _ ih =>
    have halike := C.alike (C.held hvw)
    cases halike with
    | str s =>
      unfold Definition.params?
      rw [ih (i + 1)]
    | _ => rfl

theorem definition_alike :
    ReadAlike (fun d d' => d' = { d with body := d'.body } ∧ C.source d.body d'.body)
      (Definition.read args) (Definition.read args') := by
  refine .bind (splitCode_alike ha _) ?_
  rintro ⟨body, rest⟩ ⟨body', rest'⟩ ⟨hbody, hrest⟩
  rw [ha.length_eq]
  cases hrest with
  | nil => exact .error _
  | cons hvw hrest =>
    refine .bind_eq (name_eq (.cons hvw hrest) _ 0) fun name => ?_
    exact .bind_eq (params_eq hrest _ 1) fun params => .ok ⟨rfl, hbody⟩

theorem chosenBranch_alike :
    ReadAlike (Option.Rel C.source) (chosenBranch args) (chosenBranch args') := by
  refine .bind (splitCode_alike ha _) ?_
  rintro ⟨branches, rest⟩ ⟨branches', rest'⟩ ⟨hbranches, hrest⟩
  rw [ha.length_eq]
  cases hrest with
  | nil => exact .error _
  | cons hvw _ =>
    have hitems := items_alike hbranches
    refine .ok ?_
    rw [(C.alike (C.held hvw)).isTruthy]
    split
    · exact forall₂_getElem? hitems 0
    · exact forall₂_getElem? hitems 1

omit ha in
theorem readStep_eq {v w : Option (Value Empty)} (h : Option.Rel C.data v w) :
    Count.readStep v = Count.readStep w := by
  cases h with
  | none => rfl
  | some hvw => cases C.alike (C.held hvw) <;> rfl

theorem count_alike :
    ReadAlike (fun c c' => c' = { c with body := c'.body } ∧ C.source c.body c'.body)
      (Count.read args) (Count.read args') := by
  refine .bind (splitCode_alike ha _) ?_
  rintro ⟨body, rest⟩ ⟨body', rest'⟩ ⟨hbody, hrest⟩
  dsimp only
  rw [ha.length_eq, hrest.length_eq]
  split
  · exact .error _
  · refine .bind_eq (name_eq hrest _ 0) fun name => ?_
    refine .bind_eq (number_eq hrest _ 1) fun start => ?_
    refine .bind_eq (number_eq hrest _ 2) fun stop => ?_
    exact .bind_eq (readStep_eq (forall₂_getElem? hrest 3)) fun step => .ok ⟨rfl, hbody⟩

theorem repetition_alike :
    ReadAlike (fun r r' => C.source r.condition r'.condition ∧ C.source r.body r'.body)
      (Repetition.read args) (Repetition.read args') := by
  refine .bind (splitCode_alike ha _) ?_
  rintro ⟨code, rest⟩ ⟨code', rest'⟩ ⟨hcode, -⟩
  have hitems := items_alike hcode
  dsimp only
  generalize code.items = es at hitems ⊢
  generalize code'.items = es' at hitems ⊢
  cases hitems with
  | nil => exact .error _
  | cons hhead hrest =>
    cases hrest with
    | nil => exact .error _
    | cons hbody _ =>
      have hparts := items_alike hhead
      dsimp only
      generalize Expr.items _ = parts at hparts ⊢
      generalize Expr.items _ = parts' at hparts ⊢
      cases hparts with
      | nil => exact .error _
      | cons hcondition _ => exact .ok ⟨hcondition, hbody⟩

theorem line_eq : Value.line args = Value.line args' := by
  unfold Value.line
  congr 1
  induction ha with
  | nil => rfl
  | cons hvw _ ih =>
    rw [List.map_cons, List.map_cons, ih]
    have htext := C.text hvw
    cases C.alike (C.held hvw) with
    | null => rfl
    | _ => simp only [htext]

theorem apply_alike (op : Operator) : ReadAlike C.data (op.apply args) (op.apply args') := by
  cases ha with
  | nil => exact .error _
  | cons h₁ hrest =>
    cases hrest with
    | nil => exact .error _
    | cons h₂ hrest =>
      cases hrest with
      | nil => exact combine_alike op h₁ h₂
      | cons h₃ hrest =>
        unfold Operator.apply
        dsimp only
        rw [List.length_cons, List.length_cons, List.length_cons, hrest.length_eq]
        exact .error _

theorem math_alike (op : MathOp) : ReadAlike C.data (op.invoke args) (op.invoke args') := by
  unfold MathOp.invoke
  rw [ha.length_eq]
  dsimp only
  split
  · exact .error _
  · exact .bind_eq (number_eq ha _ 0) fun x => .ok (C.literal (.num _))

end Reading

end Coupling

end KeywordScript
