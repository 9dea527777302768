import Mathlib.Logic.Relation
import Mathlib.Order.Bounds.Basic
import KeywordScript.Proofs.Postcondition
import KeywordScript.Proofs.Stack

/-! Assignment: all searches for a name end at its newest frame, so that what `SET` or `INC` puts
under a name is what a look-up of it finds, and no other name is affected. A scope that only adds
frames and writes to frames of its own leaves nothing behind. -/

namespace KeywordScript

namespace Stack

variable {H : Type} {s t : Stack H} {x y : String} {i n : Nat} {v w : Value H}

theorem toList_set (h : s.get? i = some ⟨x, v⟩) (w : Value H) :
    (s.set i w).toList = s.toList.set i ⟨x, w⟩ := by
  apply List.ext_getElem?
  intro j
  rw [getElem?_toList, List.getElem?_set]
  by_cases hj : i = j
  · subst hj
    have hlt : i < s.toList.length := by simpa using lt_size_of_get? h
    rw [get?_set_self, h, if_pos rfl, if_pos hlt]
    rfl
  · rw [get?_set_of_ne s hj, if_neg hj, getElem?_toList]

theorem position?_eq_none_iff : s.position? x = none ↔ x ∉ s.names := by
  simp [position?, names, toList]

theorem find?_eq_bind_position? (s : Stack H) (x : String) :
    s.find? x = (s.position? x).bind s.get? := by
  rw [find?, position?, List.find?_eq_bind_findIdx?_getElem?]
  cases hfind : s.frames.findIdx? fun f => f.name == x with
  | none => rfl
  | some j =>
    obtain ⟨hlt, -⟩ := List.findIdx?_eq_some_iff_getElem.mp hfind
    have hsize : s.size = s.frames.length := rfl
    have hbound : s.size - 1 - j < s.size := by omega
    have hindex : s.size - 1 - (s.size - 1 - j) = j := by omega
    simp only [Option.bind_some, Option.map_some, get?, if_pos hbound, hindex]

/-- No frame that is newer than the one found has the name. -/
theorem le_of_position? (h : s.position? x = some i) {j : Nat} (hj : s.names[j]? = some x) :
    j ≤ i := by
  obtain ⟨k, hk, rfl⟩ := Option.map_eq_some_iff.mp h
  obtain ⟨hlt, -, hnewer⟩ := List.findIdx?_eq_some_iff_getElem.mp hk
  rw [← map_name_get?] at hj
  obtain ⟨f, hf, hname⟩ := Option.map_eq_some_iff.mp hj
  have hjlt : j < s.size := lt_size_of_get? hf
  rw [get?, if_pos hjlt] at hf
  obtain ⟨hbound, hget⟩ := List.getElem?_eq_some_iff.mp hf
  by_contra hlater
  have hsize : s.size = s.frames.length := rfl
  have hcloser : s.size - 1 - j < k := by omega
  have hdiffers := hnewer _ hcloser
  rw [hget, hname] at hdiffers
  simp at hdiffers

/-- All searches for the name `x` end at the frame at position `i`, which holds `v`: it is the
newest of that name, and what is found, looked up or assigned to is this frame. -/
structure FoundAt (s : Stack H) (x : String) (i : Nat) (v : Value H) : Prop where
  newest : IsGreatest {j | s.names[j]? = some x} i
  position : s.position? x = some i
  frame : s.get? i = some ⟨x, v⟩
  find : s.find? x = some ⟨x, v⟩
  lookup : s.lookup? x = some v
  assign : ∀ w, ∃ t, s.assign? x w = some t ∧ t.toList = s.toList.set i ⟨x, w⟩

theorem foundAt_of_position? (h : s.position? x = some i) : ∃ v, s.FoundAt x i v := by
  obtain ⟨v, hv⟩ := get?_of_position? h
  have hfind : s.find? x = some ⟨x, v⟩ := by rw [find?_eq_bind_position?, h, Option.bind_some, hv]
  refine ⟨v, ⟨?_, fun j hj => le_of_position? h hj⟩, h, hv, hfind, ?_,
    fun w => ⟨s.set i w, ?_, toList_set hv w⟩⟩
  · show s.names[i]? = some x
    rw [← map_name_get?, hv, Option.map_some]
  · rw [lookup?, hfind, Option.map_some]
  · rw [assign?_eq_set, h, Option.map_some]

theorem exists_foundAt (h : x ∈ s.names) : ∃ i v, s.FoundAt x i v := by
  cases hposition : s.position? x with
  | none => exact absurd h (position?_eq_none_iff.mp hposition)
  | some i => exact ⟨i, foundAt_of_position? hposition⟩

theorem FoundAt.mem_names (h : s.FoundAt x i v) : x ∈ s.names :=
  List.mem_of_getElem? h.newest.1

theorem assign?_eq_none_iff : s.assign? x w = none ↔ x ∉ s.names := by
  rw [assign?_eq_set, Option.map_eq_none_iff, position?_eq_none_iff]

theorem position?_congr (h : s.names = t.names) (x : String) : s.position? x = t.position? x := by
  by_cases hx : x ∈ s.names
  · obtain ⟨i, v, hs⟩ := exists_foundAt hx
    obtain ⟨j, w, ht⟩ := exists_foundAt (h ▸ hx)
    have hnewest := ht.newest
    rw [← h] at hnewest
    rw [hs.position, ht.position, hs.newest.unique hnewest]
  · rw [position?_eq_none_iff.mpr hx, position?_eq_none_iff.mpr (h ▸ hx)]

theorem lookup?_set_of_ne (h : s.FoundAt x i v) (hy : y ≠ x) (w : Value H) :
    (s.set i w).lookup? y = s.lookup? y := by
  have hposition : (s.set i w).position? y = s.position? y := position?_congr (names_set s i w) y
  rw [lookup?, lookup?, find?_eq_bind_position?, find?_eq_bind_position?, hposition]
  cases hj : s.position? y with
  | none => rfl
  | some j =>
    obtain ⟨u, hu⟩ := get?_of_position? hj
    have hij : i ≠ j := by
      rintro rfl
      rw [h.frame] at hu
      cases hu
      exact hy rfl
    rw [Option.bind_some, Option.bind_some, get?_set_of_ne s hij]

theorem lookup?_set_self (h : s.FoundAt x i v) (w : Value H) : (s.set i w).lookup? x = some w := by
  have hposition : (s.set i w).position? x = s.position? x := position?_congr (names_set s i w) x
  rw [lookup?, find?_eq_bind_position?, hposition, h.position, Option.bind_some, get?_set_self,
    h.frame]
  rfl

theorem lookup?_push_of_ne (hy : y ≠ x) (w : Value H) : (s.push x w).lookup? y = s.lookup? y := by
  simp [lookup?, find?, push, hy.symm]

/-- One operation on a stack that leaves the frames below position `n` alone: a frame is added, the
newest frame of a name or the frame at a position gets another value, or a scope ends. -/
inductive StepAbove (n : Nat) : Stack H → Stack H → Prop where
  | push (s : Stack H) (x : String) (v : Value H) : StepAbove n s (s.push x v)
  | assign {s t : Stack H} {x : String} {v : Value H} {i : Nat} :
    s.position? x = some i → n ≤ i → s.assign? x v = some t → StepAbove n s t
  | set (s : Stack H) {i : Nat} (v : Value H) : n ≤ i → StepAbove n s (s.set i v)
  | truncate (s : Stack H) {k : Nat} : n ≤ k → StepAbove n s (s.truncate k)

theorem StepAbove.keeps_frames {base : Stack H} (h : StepAbove base.size s t)
    (hs : base.toList <+: s.toList) :
    base.toList <+: t.toList := by
  cases h with
  | push x v =>
    rw [toList_push]
    exact hs.trans (List.prefix_append _ _)
  | assign hposition hle hassign =>
    rw [assign?_eq_set, hposition] at hassign
    cases hassign
    exact prefix_set hs hle _
  | set v hle => exact prefix_set hs hle v
  | truncate hle =>
    rw [toList_truncate]
    exact List.prefix_take_iff.mpr ⟨hs, by simpa using hle⟩

/-- A scope that leaves the frames from before alone leaves nothing behind. -/
theorem truncate_of_steps (h : Relation.ReflTransGen (StepAbove s.size) s t) :
    t.truncate s.size = s := by
  have hprefix : s.toList <+: t.toList := by
    induction h with
    | refl => exact List.prefix_refl _
    | tail _ hstep ih => exact hstep.keeps_frames ih
  exact toList_injective (toList_truncate_size hprefix)

end Stack

section Keywords

variable {H : Type} {m : Machine H} {x : String} {i : Nat} {v : Value H}

theorem Binding.assign_of_foundAt (h : m.stack.FoundAt x i v) (w : Value H) :
    Binding.assign ⟨x, w⟩ m = { m with stack := m.stack.set i w } := by
  rw [Binding.assign, Stack.assign?_eq_set, h.position]
  rfl

theorem Binding.assign_of_notMem (h : x ∉ m.stack.names) (w : Value H) :
    Binding.assign ⟨x, w⟩ m = m.bind x w := by
  rw [Binding.assign, Stack.assign?_eq_none_iff.mpr h]

theorem increment_of_foundAt {z : Float} (h : m.stack.FoundAt x i (.num z)) :
    increment x m = some (.value (), { m with stack := m.stack.set i (.num (z + 1)) }) := by
  rw [increment, EvalM.bind_of_value (a := m.stack.lookup? x) rfl, h.lookup,
    ← Binding.assign_of_foundAt h]
  rfl

/-- An `INC` fails where there is no frame of the name, or no number in it. -/
theorem increment_of_not_foundAt (h : ¬∃ i z, m.stack.FoundAt x i (.num z)) :
    ∃ f, increment x m = some (.failed f, m) := by
  by_cases hx : x ∈ m.stack.names
  · obtain ⟨i, v, hv⟩ := Stack.exists_foundAt hx
    rw [increment, EvalM.bind_of_value (a := m.stack.lookup? x) rfl, hv.lookup]
    cases v with
    | num z => exact absurd ⟨i, z, hv⟩ h
    | _ => exact ⟨_, rfl⟩
  · rw [increment, EvalM.bind_of_value (a := m.stack.lookup? x) rfl,
      Stack.lookup?_eq_none_iff.mpr hx]
    exact ⟨_, rfl⟩

variable [Host H]

theorem call_assign (fuel : Nat) (x : String) (args : List (Value H)) (m : Machine H) :
    call (fuel + 1) (.builtin .assign) (.str x :: args) m =
      some (.value .null, Binding.assign ⟨x, args.headD .null⟩ m) := by
  rw [call]
  cases args <;> rfl

theorem call_increment (fuel : Nat) (x : String) (args : List (Value H)) (m : Machine H) :
    call (fuel + 1) (.builtin .increment) (.str x :: args) m =
      (do increment x; return .null : EvalM H (Value H)) m := by
  rw [call]
  rfl

theorem call_increment_of_foundAt {z : Float} (h : m.stack.FoundAt x i (.num z)) (fuel : Nat)
    (args : List (Value H)) :
    call (fuel + 1) (.builtin .increment) (.str x :: args) m =
      some (.value .null, { m with stack := m.stack.set i (.num (z + 1)) }) := by
  rw [call_increment, EvalM.bind_of_value (increment_of_foundAt h)]
  rfl

theorem call_increment_of_not_foundAt (h : ¬∃ i z, m.stack.FoundAt x i (.num z)) (fuel : Nat)
    (args : List (Value H)) :
    ∃ f, call (fuel + 1) (.builtin .increment) (.str x :: args) m = some (.failed f, m) := by
  obtain ⟨f, hf⟩ := increment_of_not_foundAt h
  exact ⟨f, by rw [call_increment, EvalM.bind_of_failed hf]⟩

end Keywords

/-- Take any machine and any name. If some frame has the name, all searches end at the newest of
them: finding the frame, looking up its value, finding its position and assigning to it. If no frame
has it, all of them find nothing. `SET` therefore changes the value of that one frame, or adds a
frame if there is none; a look-up of the name then gives what was assigned, and look-ups of other
names give what they gave before. `INC` succeeds exactly when that frame holds a number, and then
changes only this number; otherwise it fails and changes nothing. After any sequence of operations
that leave the frames of the machine alone, cutting the stack back to its former size gives every
name the value that it had. -/
theorem assignments_write_what_lookups_read {H : Type} [Host H] (m : Machine H) (x : String) :
    (x ∈ m.stack.names → ∃ i v, m.stack.FoundAt x i v) ∧
    (x ∉ m.stack.names → m.stack.position? x = none ∧ m.stack.find? x = none ∧
      m.stack.lookup? x = none ∧ ∀ v, m.stack.assign? x v = none) ∧
    (∀ args fuel, ∃ s, call (fuel + 1) (.builtin .assign) (.str x :: args) m =
        some (.value .null, { m with stack := s }) ∧
      (∀ i v, m.stack.FoundAt x i v → s.toList = m.stack.toList.set i ⟨x, args.headD .null⟩) ∧
      (x ∉ m.stack.names → s.toList = m.stack.toList ++ [⟨x, args.headD .null⟩]) ∧
      s.lookup? x = some (args.headD .null) ∧ ∀ y, y ≠ x → s.lookup? y = m.stack.lookup? y) ∧
    (∀ args fuel,
      (∀ r m', call (fuel + 1) (.builtin .increment) (.str x :: args) m = some (.value r, m') ↔
        ∃ i z s, m.stack.FoundAt x i (.num z) ∧ r = .null ∧ m' = { m with stack := s } ∧
          s.toList = m.stack.toList.set i ⟨x, .num (z + 1)⟩) ∧
      ((¬∃ i z, m.stack.FoundAt x i (.num z)) →
        ∃ f, call (fuel + 1) (.builtin .increment) (.str x :: args) m = some (.failed f, m))) ∧
    ∀ t, Relation.ReflTransGen (Stack.StepAbove m.stack.size) m.stack t →
      ∀ y, (t.truncate m.stack.size).lookup? y = m.stack.lookup? y := by
  refine ⟨Stack.exists_foundAt, fun hx => ?_, fun args fuel => ?_,
    fun args fuel => ⟨fun r m' => ⟨?_, ?_⟩, ?_⟩, ?_⟩
  · have hlookup := Stack.lookup?_eq_none_iff.mpr hx
    exact ⟨Stack.position?_eq_none_iff.mpr hx, Option.map_eq_none_iff.mp hlookup, hlookup,
      fun v => Stack.assign?_eq_none_iff.mpr hx⟩
  · by_cases hx : x ∈ m.stack.names
    · obtain ⟨i, v, hv⟩ := Stack.exists_foundAt hx
      refine ⟨m.stack.set i (args.headD .null), ?_, fun j w hw => ?_, absurd hx,
        Stack.lookup?_set_self hv _, fun y hy => ?_⟩
      · rw [call_assign, Binding.assign_of_foundAt hv]
      · rw [hw.newest.unique hv.newest]
        exact Stack.toList_set hv.frame _
      · exact Stack.lookup?_set_of_ne hv hy _
    · refine ⟨m.stack.push x (args.headD .null), ?_, fun i v hv => absurd hv.mem_names hx,
        fun _ => ?_, ?_, fun y hy => ?_⟩
      · rw [call_assign, Binding.assign_of_notMem hx]
        rfl
      · exact Stack.toList_push _ _ _
      · exact Stack.lookup?_push_self _ _ _
      · exact Stack.lookup?_push_of_ne hy _
  · intro h
    by_cases hnumber : ∃ i z, m.stack.FoundAt x i (.num z)
    · obtain ⟨i, z, hz⟩ := hnumber
      rw [call_increment_of_foundAt hz] at h
      cases h
      exact ⟨i, z, _, hz, rfl, rfl, Stack.toList_set hz.frame _⟩
    · obtain ⟨f, hf⟩ := call_increment_of_not_foundAt hnumber fuel args
      cases hf.symm.trans h
  · rintro ⟨i, z, s, hz, rfl, rfl, hs⟩
    have hset : s = m.stack.set i (.num (z + 1)) :=
      Stack.toList_injective (hs.trans (Stack.toList_set hz.frame _).symm)
    rw [call_increment_of_foundAt hz, hset]
  · exact fun h => call_increment_of_not_foundAt h fuel args
  · intro t ht y
    rw [Stack.truncate_of_steps ht]

/-- Two frames of the name `x`, the newer of them a number, and a frame of the name `y` above both;
no frame of the name `z`. A scope binds `x` once more and assigns to it, by name and by position. -/
theorem assignments_write_what_lookups_read_when_shadowed :
    let m : Machine Empty := { stack := ⟨[⟨"y", .null⟩, ⟨"x", .num 1⟩, ⟨"x", .str "old"⟩]⟩ }
    let inner : Stack Empty := ((m.stack.push "x" .null).push "z" .null).set 3 (.str "inner")
    m.stack.FoundAt "x" 1 (.num 1) ∧
    (∃ s, call 1 (.builtin .assign) [.str "x", .str "new"] m =
      some (.value .null, { m with stack := s }) ∧
      s.toList = [⟨"x", .str "old"⟩, ⟨"x", .str "new"⟩, ⟨"y", .null⟩] ∧
        s.lookup? "y" = some .null) ∧
    (∃ s, call 1 (.builtin .assign) [.str "z"] m = some (.value .null, { m with stack := s }) ∧
      s.toList = m.stack.toList ++ [⟨"z", .null⟩]) ∧
    (∃ i z s, call 1 (.builtin .increment) [.str "x"] m =
      some (.value .null, { m with stack := s }) ∧
      m.stack.FoundAt "x" i (.num z) ∧ s.toList = m.stack.toList.set i ⟨"x", .num (z + 1)⟩) ∧
    (∃ f, call 1 (.builtin .increment) [.str "y"] m = some (.failed f, m)) ∧
    ∃ t, inner.assign? "x" (.num 5) = some t ∧ t.lookup? "x" = some (.num 5) ∧
      (t.truncate 3).lookup? "x" = m.stack.lookup? "x" := by
  intro m inner
  obtain ⟨hfound, -, hassign, hincrement, hscope⟩ := assignments_write_what_lookups_read m "x"
  obtain ⟨-, -, -, hother, -⟩ := assignments_write_what_lookups_read m "y"
  obtain ⟨-, -, hadd, -⟩ := assignments_write_what_lookups_read m "z"
  have hx : m.stack.FoundAt "x" 1 (.num 1) := by
    obtain ⟨i, v, h⟩ := hfound (by decide)
    have hposition : m.stack.position? "x" = some 1 := rfl
    have hlookup : m.stack.lookup? "x" = some (.num 1) := rfl
    cases h.position.symm.trans hposition
    cases h.lookup.symm.trans hlookup
    exact h
  have hy : ¬∃ i z, m.stack.FoundAt "y" i (.num z) := by
    rintro ⟨i, z, h⟩
    cases h.lookup
  refine ⟨hx, ?_, ?_, ?_, (hother [] 0).2 hy, ?_⟩
  · obtain ⟨s, hcall, hset, -, -, hkept⟩ := hassign [.str "new"] 0
    exact ⟨s, hcall, hset 1 _ hx, hkept "y" (by decide)⟩
  · obtain ⟨s, hcall, -, hnew, -⟩ := hadd [] 0
    exact ⟨s, hcall, hnew (by decide)⟩
  · have hcall : ∃ m', call 1 (.builtin .increment) [.str "x"] m = some (.value .null, m') :=
      ⟨_, rfl⟩
    obtain ⟨m', hm'⟩ := hcall
    obtain ⟨i, z, s, hz, -, rfl, hs⟩ := ((hincrement [] 0).1 _ m').mp hm'
    exact ⟨i, z, s, hm', hz, hs⟩
  · have hsteps : Relation.ReflTransGen (Stack.StepAbove m.stack.size) m.stack inner :=
      ((Relation.ReflTransGen.single (.push _ _ _)).tail (.push _ _ _)).tail (.set _ _ (by decide))
    have hassigned : ∃ t, inner.assign? "x" (.num 5) = some t ∧ t.lookup? "x" = some (.num 5) :=
      ⟨_, rfl, rfl⟩
    obtain ⟨t, ht, hlookup⟩ := hassigned
    exact ⟨t, ht, hlookup, hscope t (hsteps.tail (.assign (i := 3) rfl (by decide) ht)) "x"⟩

end KeywordScript
