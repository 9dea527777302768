import KeywordScript.Proofs.Lockstep
import KeywordScript.Proofs.Stack

/-! Shadowing: a frame below a newer one of its name is neither read nor written. Evaluations with
and without it go side by side, at positions that differ by one. -/

namespace KeywordScript

namespace Stack

section Lists

variable {H : Type} {name : String} {v : Value H}

private theorem reassign_append (fs gs : List (Frame H)) :
    reassign name v (fs ++ gs) =
      ((reassign name v fs).map (· ++ gs)).or ((reassign name v gs).map (fs ++ ·)) := by
  induction fs with
  | nil => simp [reassign]
  | cons f rest ih =>
    rw [List.cons_append, reassign, reassign, ih]
    split
    · rfl
    · cases reassign name v rest <;> cases reassign name v gs <;> rfl

/-- Frames keep their names and their number. -/
theorem names_of_reassign {fs gs : List (Frame H)} (h : reassign name v fs = some gs) :
    gs.map Frame.name = fs.map Frame.name := by
  induction fs generalizing gs with
  | nil => cases h
  | cons f rest ih =>
    rw [reassign] at h
    split at h
    · cases h
      rfl
    · obtain ⟨gs', hgs', rfl⟩ := Option.map_eq_some_iff.mp h
      rw [List.map_cons, List.map_cons, ih hgs']

theorem length_of_reassign {fs gs : List (Frame H)} (h : reassign name v fs = some gs) :
    gs.length = fs.length := by
  simpa using congrArg List.length (names_of_reassign h)

private theorem isSome_reassign {fs : List (Frame H)} (h : name ∈ fs.map Frame.name) :
    ∃ gs, reassign name v fs = some gs := by
  induction fs with
  | nil => cases h
  | cons f rest ih =>
    rw [reassign]
    split
    · exact ⟨_, rfl⟩
    · rename_i hne
      have hrest : name ∈ rest.map Frame.name := by
        rcases List.mem_cons.mp h with rfl | h
        · exact absurd BEq.rfl hne
        · exact h
      obtain ⟨gs, hgs⟩ := ih hrest
      exact ⟨f :: gs, by rw [hgs]; rfl⟩

theorem modify_append {α : Type} {as bs : List α} {i : Nat} (hi : i < as.length) (f : α → α) :
    (as ++ bs).modify i f = as.modify i f ++ bs := by
  induction as generalizing i with
  | nil => cases hi
  | cons a rest ih =>
    cases i with
    | zero => rfl
    | succ i =>
      rw [List.cons_append, List.modify_succ_cons, List.modify_succ_cons,
        ih (Nat.lt_of_succ_lt_succ hi)]
      rfl

end Lists

/-- The second stack lacks one frame of the first: the `hidden` one above `p` older frames. Among
the `q` frames next above it one has its name. -/
inductive Hides {H : Type} (hidden : Frame H) (p q : Nat) : Stack H → Stack H → Prop where
  | intro (top : List (Frame H)) {next older : List (Frame H)} :
    older.length = p → next.length = q → hidden.name ∈ next.map Frame.name →
    Hides hidden p q ⟨top ++ (next ++ hidden :: older)⟩ ⟨top ++ (next ++ older)⟩

namespace Hides

variable {H : Type} {hidden : Frame H} {p q : Nat} {s t : Stack H} (h : Hides hidden p q s t)

include h

theorem size_eq : s.size = t.size + 1 ∧ p + q ≤ t.size := by
  cases h with
  | intro top hp hq hname =>
    simp only [size, List.length_append, List.length_cons]
    omega

theorem push (name : String) (v : Value H) : Hides hidden p q (s.push name v) (t.push name v) := by
  cases h with
  | intro top hp hq hname => exact .intro ({ name, value := v } :: top) hp hq hname

theorem lookup? (name : String) : s.lookup? name = t.lookup? name := by
  cases h with
  | @intro top next older hp hq hname =>
    simp only [Stack.lookup?, Stack.find?, List.find?_append, List.find?_cons]
    split
    -- The hidden frame has the name; one next above it is found before.
    · rename_i heq
      obtain ⟨f, hf, hfname⟩ := List.mem_map.mp hname
      have hnext : (next.find? fun f => f.name == name).isSome := by
        rw [List.find?_isSome]
        exact ⟨f, hf, by rwa [hfname]⟩
      obtain ⟨g, hg⟩ := Option.isSome_iff_exists.mp hnext
      rw [hg]
      rfl
    · rfl

theorem assign? (name : String) (v : Value H) :
    Option.Rel (Hides hidden p q) (s.assign? name v) (t.assign? name v) := by
  cases h with
  | @intro top next older hp hq hname =>
    rw [assign?_eq_reassign, assign?_eq_reassign]
    simp only [reassign_append, reassign]
    -- The first frame of the name is above all, next above the hidden one, or below it.
    cases htop : reassign name v top with
    | some top' => exact .some (.intro top' hp hq hname)
    | none =>
      cases hnext : reassign name v next with
      | some next' =>
        refine .some (.intro top hp ?_ ?_)
        · rw [length_of_reassign hnext, hq]
        · rwa [names_of_reassign hnext]
      | none =>
        have hne : ¬(hidden.name == name) = true := by
          intro heq
          rw [beq_iff_eq] at heq
          subst heq
          obtain ⟨gs, hgs⟩ := isSome_reassign (v := v) hname
          rw [hnext] at hgs
          cases hgs
        rw [if_neg hne]
        cases holder : reassign name v older with
        | none => exact .none
        | some older' => exact .some (.intro top (by rw [length_of_reassign holder, hp]) hq hname)

variable {j : Nat} (hj : p + q ≤ j)

include hj

theorem get? : s.get? (j + 1) = t.get? j := by
  cases h with
  | @intro top next older hp hq hname =>
    simp only [Stack.get?, size, List.length_append, List.length_cons]
    by_cases hlt : j < top.length + (next.length + older.length)
    · rw [if_pos (by omega), if_pos hlt]
      have hindex : top.length + (next.length + (older.length + 1)) - 1 - (j + 1) =
          top.length + (next.length + older.length) - 1 - j := by omega
      rw [hindex, List.getElem?_append_left (by omega), List.getElem?_append_left (by omega)]
    · rw [if_neg (by omega), if_neg hlt]

theorem set (v : Value H) : Hides hidden p q (s.set (j + 1) v) (t.set j v) := by
  cases h with
  | @intro top next older hp hq hname =>
    simp only [Stack.set, size, List.length_append, List.length_cons]
    by_cases hlt : j < top.length + (next.length + older.length)
    · rw [if_pos (by omega), if_pos hlt]
      have hindex : top.length + (next.length + (older.length + 1)) - 1 - (j + 1) =
          top.length + (next.length + older.length) - 1 - j := by omega
      rw [hindex, modify_append (by omega), modify_append (by omega)]
      exact .intro _ hp hq hname
    · rw [if_neg (by omega), if_neg hlt]
      exact .intro top hp hq hname

theorem truncate : Hides hidden p q (s.truncate (j + 1)) (t.truncate j) := by
  cases h with
  | @intro top next older hp hq hname =>
    simp only [Stack.truncate, size, List.length_append, List.length_cons]
    have hcount : top.length + (next.length + (older.length + 1)) - (j + 1) =
        top.length + (next.length + older.length) - j := by omega
    rw [hcount, List.drop_append_of_le_length (by omega), List.drop_append_of_le_length (by omega)]
    exact .intro _ hp hq hname

end Hides

end Stack

/-- Evaluations with and without a hidden frame. All values are the same. -/
def Coupling.shadowed (hidden : Frame Empty) (p q : Nat) : Coupling where
  source := Eq
  context := Eq
  data := Eq
  frame := Eq
  stack := Stack.Hides hidden p q
  position i j := i = j + 1 ∧ p + q ≤ j
  transcript := Eq
  fresh := Eq
  expr h := by
    subst h
    exact Expr.alike_self (fun _ => rfl) _
  numbering := ⟨fun _ => rfl, rfl, congrArg (· + 1)⟩
  alike h := by
    subst h
    exact Value.alike_self fun _ _ _ _ => rfl
  held h := h
  plain h _ := h
  keyword _ := rfl
  literal _ := rfl
  list h := congrArg Value.list (List.forall₂_eq_eq_eq ▸ h)
  text h := by rw [h]
  equal h h' := by rw [h, h']
  push name h hv := hv ▸ h.push name _
  lookup name h := h.lookup? name ▸ optionRel_self (fun _ => rfl) _
  assign name h hv := hv ▸ h.assign? name _
  mark h := h.size_eq
  get h hp := by
    rw [hp.1, h.get? hp.2]
    refine optionRel_self ?_ _
    exact fun _ => rfl
  set x h hp := hp.1 ▸ h.set hp.2 _
  truncate h hp := hp.1 ▸ h.truncate hp.2
  print line h := by rw [h]
  report k h hl := by rw [h, hl]
  defined name params h hbody := by rw [h, hbody]

theorem Coupling.shadowed_coupled {m : Machine Empty} {older newer : List (Frame Empty)}
    {hidden : Frame Empty} (hname : hidden.name ∈ newer.map Frame.name) {s t : Stack Empty}
    (hs : s.toList = older ++ [hidden] ++ newer) (ht : t.toList = older ++ newer) :
    (Coupling.shadowed hidden older.length newer.length).Coupled { m with stack := s }
    { m with stack := t } := by
  have hs' : s = ⟨[] ++ (newer.reverse ++ hidden :: older.reverse)⟩ :=
    Stack.toList_injective (hs.trans (by simp [Stack.toList]))
  have ht' : t = ⟨[] ++ (newer.reverse ++ older.reverse)⟩ :=
    Stack.toList_injective (ht.trans (by simp [Stack.toList]))
  refine ⟨?_, rfl, rfl, rfl, rfl⟩
  rw [hs', ht']
  exact .intro [] List.length_reverse List.length_reverse (by simpa using hname)

/-- The frames of two stacks that differ by a hidden frame, oldest first. -/
theorem Stack.Hides.toList {H : Type} {hidden : Frame H} {p q : Nat} {s t : Stack H}
    (h : Hides hidden p q s t) :
    ∃ older newer, s.toList = older ++ [hidden] ++ newer ∧ t.toList = older ++ newer ∧
      older.length = p := by
  cases h with
  | @intro top next older hp hq hname =>
    refine ⟨older.reverse, next.reverse ++ top.reverse, ?_, ?_, ?_⟩
    · simp [Stack.toList]
    · simp [Stack.toList]
    · rw [List.length_reverse, hp]

/-- Coupled results have the same outcome, and the machines differ in their stacks only. -/
theorem Coupling.Results.eq_of_shadowed {α : Type} {hidden : Frame Empty} {p q : Nat}
    {o o' : Outcome Empty α} {m n : Machine Empty}
    (h : (Coupling.shadowed hidden p q).Results Eq (some (o, m)) (some (o', n))) :
    o = o' ∧ m = { n with stack := m.stack } ∧ Stack.Hides hidden p q m.stack n.stack := by
  have hsame : (Coupling.shadowed hidden p q).Coupled m n →
      m = { n with stack := m.stack } ∧ Stack.Hides hidden p q m.stack n.stack := by
    rintro ⟨hstack, hdepth, hmax, htranscript, hfresh⟩
    refine ⟨?_, hstack⟩
    cases m
    cases n
    simp_all [Coupling.shadowed]
  cases h with
  | value hv hm => exact ⟨congrArg _ hv, hsame hm⟩
  | returned hv hm => exact ⟨congrArg _ hv, hsame hm⟩
  | failed f hm => exact ⟨rfl, hsame hm⟩

open EvalM

/-- Let `x` be bound above a frame of the same name. An expression evaluates with that frame as it
does without it: either both evaluations end or none, and they end in the same way, on machines that
are the same but for the frame, which stands where it stood and holds what it held. -/
theorem shadowed_binding_inert {older newer : List (Frame Empty)} {x : String} (v : Value Empty)
    (hx : x ∈ newer.map Frame.name) {s t : Stack Empty} (hs : s.toList = older ++ [⟨x, v⟩] ++ newer)
    (ht : t.toList = older ++ newer) (m : Machine Empty) (e : Expr) (line : Option Nat) :
    (Terminates (fun n => evaluate n e line) { m with stack := s } ↔
      Terminates (fun n => evaluate n e line) { m with stack := t }) ∧
    ∀ o m' o' n', Ends (fun n => evaluate n e line) { m with stack := s } o m' →
      Ends (fun n => evaluate n e line) { m with stack := t } o' n' →
      o = o' ∧ m' = { n' with stack := m'.stack } ∧
        ∃ older' newer', m'.stack.toList = older' ++ [⟨x, v⟩] ++ newer' ∧
          n'.stack.toList = older' ++ newer' ∧ older'.length = older.length := by
  let C := Coupling.shadowed ⟨x, v⟩ older.length newer.length
  have hm : C.Coupled { m with stack := s } { m with stack := t } :=
    Coupling.shadowed_coupled hx hs ht
  have hstep : ∀ fuel, C.InStep C.data (evaluate fuel e line) (evaluate fuel e line) :=
    fun fuel => (C.inStep fuel).1 rfl rfl
  obtain ⟨hends, halike⟩ :=
    Coupling.ends_alike (evaluate_mono e line) (evaluate_mono e line) hstep hm
  refine ⟨hends, fun o m' o' n' h h' => ?_⟩
  obtain ⟨ho, hsame, hstack⟩ := (halike o m' o' n' h h').eq_of_shadowed
  exact ⟨ho, hsame, hstack.toList⟩

/-- A branch of `IF` that has no scope of its own assigns to the name by `SET`: it reaches the newer
frame. -/
theorem shadowed_binding_inert_when_assigned :
    let s : Stack Empty := ⟨[⟨"x", .null⟩, ⟨"x", .bool true⟩, ⟨"y", .null⟩]⟩
    let t : Stack Empty := ⟨[⟨"x", .null⟩, ⟨"y", .null⟩]⟩
    let assign : Expr := .node "SET" (.script [.lit (.str "x"), .lit (.str "new")]) none none
    let e : Expr := .node "IF" (.lit (.bool true)) (some ⟨{ document := 0 }, .script [assign]⟩) none
    ∃ m' n', Ends (fun n => evaluate n e none) { stack := s } (.value .null) m' ∧
      Ends (fun n => evaluate n e none) { stack := t } (.value .null) n' ∧
      m' = { n' with stack := m'.stack } ∧ ∃ older' newer',
        m'.stack.toList = older' ++ [⟨"x", .bool true⟩] ++ newer' ∧
          n'.stack.toList = older' ++ newer' ∧ older'.length = 1 := by
  intro s t assign e
  let older : List (Frame Empty) := [⟨"y", .null⟩]
  let newer : List (Frame Empty) := [⟨"x", .null⟩]
  have hx : "x" ∈ newer.map Frame.name := List.mem_cons_self
  have hwith : s.toList = older ++ [⟨"x", .bool true⟩] ++ newer := rfl
  have hwithout : t.toList = older ++ newer := rfl
  have hs : ∃ m', Ends (fun n => evaluate n e none) { stack := s } (.value .null) m' := ⟨_, 8, rfl⟩
  have ht : ∃ n', Ends (fun n => evaluate n e none) { stack := t } (.value .null) n' := ⟨_, 8, rfl⟩
  obtain ⟨m', hm'⟩ := hs
  obtain ⟨n', hn'⟩ := ht
  obtain ⟨-, halike⟩ := shadowed_binding_inert (.bool true) hx hwith hwithout {} e none
  obtain ⟨-, hsame, hstack⟩ := halike _ m' _ n' hm' hn'
  exact ⟨m', n', hm', hn', hsame, hstack⟩

end KeywordScript
