import KeywordScript.Proofs.Shadowing

/-! Parameters: of the frames that a function call binds, a body sees only the newest of each name,
so a call depends on the arguments at the last places of its parameters and on no others. -/

namespace KeywordScript

variable {H : Type}

namespace Frame

/-- The frames for parameters, oldest first. A missing argument counts as null. -/
def ofParams : List String → List (Value H) → List (Frame H)
  | [], _ => []
  | p :: ps, args => { name := p, value := args.headD .null } :: ofParams ps args.tail

@[simp] theorem map_name_ofParams (ps : List String) (args : List (Value H)) :
    (ofParams ps args).map Frame.name = ps := by
  induction ps generalizing args with
  | nil => rfl
  | cons p ps ih => rw [ofParams, List.map_cons, ih]

/-- The frames, oldest first, without those that a newer one of their name hides. -/
def newest : List (Frame H) → List (Frame H)
  | [] => []
  | f :: rest => if f.name ∈ rest.map Frame.name then newest rest else f :: newest rest

/-- Only the arguments at the last places of parameters are left. -/
theorem newest_ofParams {ps : List String} {as bs : List (Value H)}
    (h : ∀ i p, ps[i]? = some p → p ∉ ps.drop (i + 1) → as[i]?.getD .null = bs[i]?.getD .null) :
    newest (ofParams ps as) = newest (ofParams ps bs) := by
  induction ps generalizing as bs with
  | nil => rfl
  | cons p ps ih =>
    have hrest : newest (ofParams ps as.tail) = newest (ofParams ps bs.tail) := by
      apply ih
      intro i q hq hlast
      have hi := h (i + 1) q hq hlast
      rwa [← List.getElem?_tail, ← List.getElem?_tail] at hi
    simp only [ofParams, newest, map_name_ofParams]
    split
    · exact hrest
    · rename_i hlast
      have hhead : as.headD .null = bs.headD .null := by
        have h0 := h 0 p rfl hlast
        rwa [← List.head?_eq_getElem?, ← List.head?_eq_getElem?, ← List.headD_eq_head?_getD,
          ← List.headD_eq_head?_getD] at h0
      rw [hhead, hrest]

end Frame

def Machine.withFrames (m : Machine H) (fs : List (Frame H)) : Machine H :=
  { m with stack := ⟨fs.reverse ++ m.stack.frames⟩ }

theorem Machine.bindAll_eq_withFrames (m : Machine H) (ps : List String) (args : List (Value H)) :
    m.bindAll ps args = m.withFrames (Frame.ofParams ps args) := by
  induction ps generalizing m args with
  | nil => rfl
  | cons p ps ih =>
    rw [Machine.bindAll, ih]
    simp [Machine.withFrames, Machine.bind, Stack.push, Frame.ofParams]

theorem Machine.toList_withFrames (m : Machine H) (fs : List (Frame H)) :
    (m.withFrames fs).stack.toList = m.stack.toList ++ fs := by
  simp [Machine.withFrames, Stack.toList]

private theorem Stack.Hides.truncate_eq {hidden : Frame H} {p q : Nat} {s t : Stack H}
    (h : Hides hidden p q s t) {n : Nat} (hn : n ≤ p) : s.truncate n = t.truncate n := by
  obtain ⟨older, newer, hs, ht, hp⟩ := h.toList
  have htake : (s.truncate n).toList = (t.truncate n).toList := by
    rw [toList_truncate, toList_truncate, hs, ht, List.append_assoc,
      List.take_append_of_le_length (by omega), List.take_append_of_le_length (by omega)]
  exact toList_injective htake

/-- Coupled results are the same once a scope that began below the hidden frame has ended. -/
theorem Coupling.Results.truncate_eq_of_shadowed {α : Type} {hidden : Frame Empty} {p q n : Nat}
    (hn : n ≤ p) {r r' : Option (Outcome Empty α × Machine Empty)}
    (h : (Coupling.shadowed hidden p q).Results Eq r r') :
    (r.map fun (o, m) => (o, m.truncate n)) = r'.map fun (o, m) => (o, m.truncate n) := by
  cases r with
  | none =>
    cases h
    rfl
  | some first =>
    cases r' with
    | none => cases h
    | some second =>
      obtain ⟨ho, hmachine, hhides⟩ := h.eq_of_shadowed
      have hcut : first.2.truncate n = second.2.truncate n := by
        rw [hmachine, Machine.truncate, Machine.truncate, hhides.truncate_eq hn]
      simp only [Option.map_some, ho, hcut]

/-- Items that are evaluated in a scope with frames of its own. -/
def evaluateOver (fuel : Nat) (items : List Expr) (m : Machine Empty) (fs : List (Frame Empty)) :
    Option (Outcome Empty (List (Value Empty)) × Machine Empty) :=
  (evaluateItems (evaluate fuel) 1 items (m.withFrames fs)).map fun (o, m') =>
    (o, m'.truncate m.stack.size)

section Scopes

variable (fuel : Nat) (items : List Expr) (m : Machine Empty)

/-- A hidden frame of the scope makes no difference. -/
private theorem evaluateOver_hidden (older newer : List (Frame Empty)) {hidden : Frame Empty}
    (h : hidden.name ∈ newer.map Frame.name) :
    evaluateOver fuel items m (older ++ hidden :: newer) =
      evaluateOver fuel items m (older ++ newer) := by
  let C := Coupling.shadowed hidden (m.stack.toList ++ older).length newer.length
  have hwith : (m.withFrames (older ++ hidden :: newer)).stack.toList =
      (m.stack.toList ++ older) ++ [hidden] ++ newer := by simp [Machine.toList_withFrames]
  have hwithout :
      (m.withFrames (older ++ newer)).stack.toList = (m.stack.toList ++ older) ++ newer := by
    simp [Machine.toList_withFrames]
  have hm : C.Coupled (m.withFrames (older ++ hidden :: newer)) (m.withFrames (older ++ newer)) :=
    Coupling.shadowed_coupled h hwith hwithout
  have hsame : List.Forall₂ C.source items items := List.forall₂_same.mpr fun _ _ => rfl
  have hresults := Coupling.inStep_items (C.inStep fuel).1 hsame 1 hm
  have hdata : List.Forall₂ C.data = Eq := List.forall₂_eq_eq_eq
  rw [hdata] at hresults
  unfold evaluateOver
  exact hresults.truncate_eq_of_shadowed (by simp)

private theorem evaluateOver_newest (fs : List (Frame Empty)) :
    evaluateOver fuel items m fs = evaluateOver fuel items m (Frame.newest fs) := by
  have hall : ∀ older, evaluateOver fuel items m (older ++ fs) =
      evaluateOver fuel items m (older ++ Frame.newest fs) := by
    induction fs with
    | nil => exact fun _ => rfl
    | cons f rest ih =>
      intro older
      rw [Frame.newest]
      split
      · rename_i hhidden
        rw [evaluateOver_hidden fuel items m older rest hhidden, ih older]
      · -- A frame that is not hidden stays below the rest.
        have hkept := ih (older ++ [f])
        rwa [List.append_assoc, List.append_assoc] at hkept
  exact hall []

end Scopes

theorem call_function_eq {f : Function} {as bs : List (Value Empty)}
    (h : ∀ i p, f.params[i]? = some p → p ∉ f.params.drop (i + 1) →
      as[i]?.getD .null = bs[i]?.getD .null)
    (fuel : Nat) (m : Machine Empty) : call fuel (.func f) as m = call fuel (.func f) bs m := by
  cases fuel with
  | zero => rw [call, call]
  | succ fuel =>
    have hbody : ∀ args n, (f.evaluateBody (evaluate fuel) args).inScope n =
        evaluateOver fuel f.body.items n (Frame.newest (Frame.ofParams f.params args)) := by
      intro args n
      rw [← evaluateOver_newest, evaluateOver, ← Machine.bindAll_eq_withFrames]
      rfl
    rw [call, call, Function.invoke_eq_asCall, Function.invoke_eq_asCall]
    by_cases hfull : m.maxDepth ≤ m.depth
    · rw [EvalM.asCall_of_le _ hfull, EvalM.asCall_of_le _ hfull]
    · have hlt : m.depth < m.maxDepth := Nat.lt_of_not_le hfull
      rw [EvalM.asCall_of_lt _ hlt, EvalM.asCall_of_lt _ hlt, hbody, hbody, Frame.newest_ofParams h]

/-- A call of a function is the same for arguments that are the same at the last place of each
parameter, where one that is missing counts as null: it ends with the same fuel, in the same way and
on the same machine. So what stands beyond the parameters, nulls at the end and what an earlier
parameter of the same name is given are never seen. -/
theorem call_determined_by_last_arguments (f : Function) (fuel : Nat) (m : Machine Empty) :
    (∀ as bs : List (Value Empty), (∀ i p, f.params[i]? = some p → p ∉ f.params.drop (i + 1) →
      as[i]?.getD .null = bs[i]?.getD .null) →
        call fuel (.func f) as m = call fuel (.func f) bs m) ∧
    (∀ as more, f.params.length ≤ as.length →
      call fuel (.func f) (as ++ more) m = call fuel (.func f) as m) ∧
    (∀ as n, call fuel (.func f) (as ++ List.replicate n .null) m = call fuel (.func f) as m) ∧
    ∀ as i p v, f.params[i]? = some p → p ∈ f.params.drop (i + 1) →
      call fuel (.func f) (as.set i v) m = call fuel (.func f) as m := by
  refine ⟨fun as bs h => call_function_eq h fuel m, ?_, ?_, ?_⟩
  · intro as more hlength
    apply call_function_eq
    intro i p hp _
    obtain ⟨hi, -⟩ := List.getElem?_eq_some_iff.mp hp
    rw [List.getElem?_append_left (Nat.lt_of_lt_of_le hi hlength)]
  · intro as n
    apply call_function_eq
    intro i p _ _
    by_cases hi : i < as.length
    · rw [List.getElem?_append_left hi]
    · have hle : as.length ≤ i := Nat.le_of_not_lt hi
      rw [List.getElem?_append_right hle, List.getElem?_eq_none hle, List.getElem?_replicate]
      split <;> rfl
  · intro as i p v hp hlater
    apply call_function_eq
    intro j q hq hlast
    have hne : i ≠ j := by
      rintro rfl
      rw [hp] at hq
      cases hq
      exact hlast hlater
    rw [List.getElem?_set_ne hne]

/-- A parameter that comes twice, above a frame of the same name, and a body that copies it. -/
theorem call_determined_by_last_arguments_when_repeated :
    let look (name : String) : Expr := .node name (.lit .null) none none
    let copy : Expr := .node "SET" (.script [.lit (.str "y"), look "x"]) none none
    let body : Expr := .script [copy, .node "RETURN" (look "y") none none]
    let f : Function := { id := 1, name := "f", params := ["x", "y", "x"], body }
    let m : Machine Empty := { stack := ⟨[⟨"x", .null⟩]⟩ }
    (∀ i p, f.params[i]? = some p → p ∉ f.params.drop (i + 1) →
      ([.str "a", .null, .str "c"] : List (Value Empty))[i]?.getD .null =
        ([.null, .null, .str "c", .str "d"] : List (Value Empty))[i]?.getD .null) ∧
    ∃ m', call 9 (.func f) [.str "a", .null, .str "c"] m = some (.value (.str "c"), m') ∧
      call 9 (.func f) [.null, .null, .str "c", .str "d"] m = some (.value (.str "c"), m') := by
  intro look copy body f m
  have hlast : ∀ i p, f.params[i]? = some p → p ∉ f.params.drop (i + 1) →
      ([.str "a", .null, .str "c"] : List (Value Empty))[i]?.getD .null =
        ([.null, .null, .str "c", .str "d"] : List (Value Empty))[i]?.getD .null := by
    intro i p hp hnot
    rcases i with _ | _ | _ | i
    · cases hp
      exact absurd (by decide) hnot
    · rfl
    · rfl
    · cases hp
  have hfirst : ∃ m', call 9 (.func f) [.str "a", .null, .str "c"] m =
      some (.value (.str "c"), m') := ⟨_, rfl⟩
  have hsame := (call_determined_by_last_arguments f 9 m).1 _ _ hlast
  obtain ⟨m', hm'⟩ := hfirst
  exact ⟨hlast, m', hm', hsame ▸ hm'⟩

end KeywordScript
