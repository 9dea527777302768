import KeywordScript.Machine
import Mathlib.Data.List.TakeDrop

/-! Names of the frames of a stack, what each operation does to them, and which names a machine
resolves. -/

namespace KeywordScript.Stack

variable {H : Type}

/-- The names of the frames, oldest first. -/
def names (s : Stack H) : List String :=
  s.toList.map Frame.name

@[simp] theorem length_toList (s : Stack H) : s.toList.length = s.size := by
  simp [toList, size]

@[simp] theorem length_names (s : Stack H) : s.names.length = s.size := by
  simp [names, toList, size]

@[simp] theorem toList_push (s : Stack H) (name : String) (v : Value H) :
    (s.push name v).toList = s.toList ++ [{ name, value := v }] := by
  simp [push, toList]

@[simp] theorem names_push (s : Stack H) (name : String) (v : Value H) :
    (s.push name v).names = s.names ++ [name] := by
  simp [names]

theorem toList_injective {s t : Stack H} (h : s.toList = t.toList) : s = t := by
  cases s
  cases t
  simpa [toList] using h

theorem toList_truncate (s : Stack H) (n : Nat) : (s.truncate n).toList = s.toList.take n := by
  have hlen : s.frames.length - (s.size - n) = min n s.frames.reverse.length := by
    rw [List.length_reverse, size]
    omega
  unfold truncate toList
  rw [List.reverse_drop, hlen, ← List.take_take, List.take_length]

@[simp] theorem truncate_size (s : Stack H) : s.truncate s.size = s := by
  simp [truncate]

@[simp] theorem truncate_truncate (s : Stack H) (n k : Nat) :
    (s.truncate n).truncate k = s.truncate (min n k) := by
  have hdrop : s.size - n + ((s.truncate n).size - k) = s.size - min n k := by
    simp only [truncate, size, List.length_drop]
    omega
  change (⟨(s.frames.drop (s.size - n)).drop ((s.truncate n).size - k)⟩ : Stack H) = _
  rw [List.drop_drop, hdrop, truncate]

theorem names_truncate (s : Stack H) (n : Nat) : (s.truncate n).names = s.names.take n := by
  rw [names, toList_truncate, List.map_take, ← names]

@[simp] theorem names_set (s : Stack H) (i : Nat) (v : Value H) : (s.set i v).names = s.names := by
  unfold set
  split
  · simp only [names, toList, List.map_reverse]
    congr 1
    apply List.ext_getElem?
    intro j
    simp only [List.getElem?_map, List.getElem?_modify]
    cases s.frames[j]? <;> split <;> rfl
  · rfl

theorem getElem?_toList (s : Stack H) (i : Nat) : s.toList[i]? = s.get? i := by
  unfold get? toList size
  split
  · rename_i hi
    rw [List.getElem?_reverse hi]
  · rename_i hi
    exact List.getElem?_eq_none (by simpa using hi)

@[simp] theorem size_set (s : Stack H) (i : Nat) (v : Value H) : (s.set i v).size = s.size := by
  rw [← length_names, names_set, length_names]

theorem get?_set_of_ne (s : Stack H) {i j : Nat} (h : i ≠ j) (v : Value H) :
    (s.set i v).get? j = s.get? j := by
  rw [get?, get?, size_set]
  by_cases hj : j < s.size
  · rw [if_pos hj, if_pos hj, set]
    split
    · have hne : s.size - 1 - i ≠ s.size - 1 - j := by omega
      simp [hne]
    · rfl
  · rw [if_neg hj, if_neg hj]

theorem get?_set_self (s : Stack H) (i : Nat) (v : Value H) :
    (s.set i v).get? i = (s.get? i).map fun f => { f with value := v } := by
  rw [get?, get?, size_set]
  by_cases hi : i < s.size
  · rw [if_pos hi, if_pos hi, set, if_pos hi]
    simp
  · rw [if_neg hi, if_neg hi]
    rfl

theorem get?_push_of_lt {s : Stack H} {i : Nat} (hi : i < s.size) (name : String) (v : Value H) :
    (s.push name v).get? i = s.get? i := by
  rw [← getElem?_toList, ← getElem?_toList, toList_push,
    List.getElem?_append_left (by simpa using hi)]

theorem get?_truncate_of_lt (s : Stack H) {i n : Nat} (hi : i < n) :
    (s.truncate n).get? i = s.get? i := by
  rw [← getElem?_toList, ← getElem?_toList, toList_truncate, List.getElem?_take_of_lt hi]

@[simp] theorem size_push (s : Stack H) (name : String) (v : Value H) :
    (s.push name v).size = s.size + 1 := by
  simp [size, push]

theorem get?_push_size (s : Stack H) (name : String) (v : Value H) :
    (s.push name v).get? s.size = some { name, value := v } := by
  rw [← getElem?_toList, toList_push, ← length_toList, List.getElem?_concat_length]

@[simp] theorem set_push_size (s : Stack H) (name : String) (v w : Value H) :
    (s.push name v).set s.size w = s.push name w := by
  simp [set, push, size]

theorem eq_push_of_names {s : Stack H} {ns : List String} {name : String}
    (h : s.names = ns ++ [name]) :
    ∃ (t : Stack H) (v : Value H), s = t.push name v ∧ t.names = ns := by
  obtain ⟨frames⟩ := s
  cases frames with
  | nil => simp [names, toList] at h
  | cons f rest =>
    have hnames : (⟨rest⟩ : Stack H).names ++ [f.name] = ns ++ [name] := by
      simpa [names, toList] using h
    obtain ⟨hrest, hname⟩ := List.append_inj' hnames rfl
    cases hname
    exact ⟨⟨rest⟩, f.value, rfl, hrest⟩

/-- Frames below a position do not change when another value is put there. -/
theorem prefix_set {s t : Stack H} (h : s.toList <+: t.toList) {i : Nat} (hi : s.size ≤ i)
    (v : Value H) :
    s.toList <+: (t.set i v).toList := by
  rw [List.prefix_iff_getElem?] at h ⊢
  intro j hj
  have hne : i ≠ j := by
    rw [length_toList] at hj
    omega
  rw [getElem?_toList, get?_set_of_ne t hne v, ← getElem?_toList]
  exact h j hj

/-- Frames that were there when a scope began are those that are left when it ends. -/
theorem toList_truncate_size {s t : Stack H} (h : s.toList <+: t.toList) :
    (t.truncate s.size).toList = s.toList := by
  rw [toList_truncate, ← length_toList]
  exact (List.prefix_iff_eq_take.mp h).symm

theorem map_name_get? (s : Stack H) (i : Nat) : (s.get? i).map Frame.name = s.names[i]? := by
  rw [names, List.getElem?_map, getElem?_toList]

theorem lt_size_of_get? {s : Stack H} {i : Nat} {f : Frame H} (h : s.get? i = some f) :
    i < s.size := by
  rw [← getElem?_toList] at h
  simpa using (List.getElem?_eq_some_iff.mp h).1

/-- A frame is found in its place, under its name, as long as names are only added. -/
theorem get?_of_prefix {s t : Stack H} (h : s.names <+: t.names) {i : Nat} {f : Frame H}
    (hf : s.get? i = some f) :
    ∃ v, t.get? i = some { name := f.name, value := v } := by
  have hs : s.names[i]? = some f.name := by rw [← map_name_get?, hf, Option.map_some]
  obtain ⟨hi, hname⟩ := List.getElem?_eq_some_iff.mp hs
  have ht : (t.get? i).map Frame.name = some f.name := by
    rw [map_name_get?, List.prefix_iff_getElem?.mp h i hi, hname]
  obtain ⟨g, hg, hgname⟩ := Option.map_eq_some_iff.mp ht
  exact ⟨g.value, by rw [hg, ← hgname]⟩

theorem get?_of_position? {s : Stack H} {name : String} {i : Nat} (h : s.position? name = some i) :
    ∃ v, s.get? i = some { name, value := v } := by
  obtain ⟨j, hj, rfl⟩ := Option.map_eq_some_iff.mp h
  obtain ⟨hlt, hname, -⟩ := List.findIdx?_eq_some_iff_getElem.mp hj
  have hindex : s.size - 1 - (s.size - 1 - j) = j := by
    change j < s.size at hlt
    omega
  have hbound : s.size - 1 - j < s.size := by
    change j < s.size at hlt
    omega
  rw [get?, if_pos hbound, hindex, List.getElem?_eq_getElem hlt]
  exact ⟨s.frames[j].value, by rw [← beq_iff_eq.mp hname]⟩

@[simp] theorem lookup?_push_self (s : Stack H) (name : String) (v : Value H) :
    (s.push name v).lookup? name = some v := by
  simp [lookup?, find?, push]

theorem lookup?_eq_none_iff {s : Stack H} {name : String} :
    s.lookup? name = none ↔ name ∉ s.names := by
  simp [lookup?, find?, names, toList]

/-- Gives the first frame of a name another value, if there is one. -/
def reassign (name : String) (v : Value H) : List (Frame H) → Option (List (Frame H))
  | [] => none
  | f :: rest =>
    if f.name == name then some ({ f with value := v } :: rest)
      else (reassign name v rest).map (f :: ·)

private theorem reassign_eq_modify (name : String) (v : Value H) (fs : List (Frame H)) :
    reassign name v fs =
      (fs.findIdx? fun f => f.name == name).map fun i => fs.modify i fun f =>
      { f with value := v } := by
  induction fs with
  | nil => rfl
  | cons f rest ih =>
    rw [reassign, List.findIdx?_cons, ih]
    split
    · rfl
    · cases rest.findIdx? fun f => f.name == name <;> rfl

/-- The frame that gets the value is the first one after those of other names. -/
theorem reassign_eq_span (name : String) (v : Value H) (fs : List (Frame H)) :
    reassign name v fs =
      match fs.span fun f => f.name != name with
      | (newer, f :: older) => some (newer ++ { f with value := v } :: older)
      | (_, []) => none := by
  induction fs with
  | nil => rfl
  | cons f rest ih =>
    rw [List.span_eq_takeWhile_dropWhile] at ih ⊢
    rw [reassign, ih]
    by_cases hname : f.name = name
    · simp [hname]
    · simp only [bne_iff_ne, ne_eq, hname, not_false_eq_true, List.takeWhile_cons_of_pos,
        List.dropWhile_cons_of_pos, beq_iff_eq, if_false]
      cases rest.dropWhile fun f => f.name != name <;> rfl

theorem assign?_eq_reassign (s : Stack H) (name : String) (v : Value H) :
    s.assign? name v = (reassign name v s.frames).map Stack.mk := by
  rw [assign?, reassign_eq_span]
  cases s.frames.span fun f => f.name != name with
  | mk newer older => cases older <;> rfl

/-- Assigning by name and putting a value into the position of the name is the same. -/
theorem assign?_eq_set (s : Stack H) (name : String) (v : Value H) :
    s.assign? name v = (s.position? name).map fun i => s.set i v := by
  rw [assign?_eq_reassign, position?, reassign_eq_modify, Option.map_map, Option.map_map]
  refine Option.map_congr fun i hi => ?_
  obtain ⟨hlt, -⟩ := List.findIdx?_eq_some_iff_getElem.mp hi
  have hsize : s.size - 1 - (s.size - 1 - i) = i := by
    change i < s.size at hlt
    omega
  have hbound : s.size - 1 - i < s.size := by
    change i < s.size at hlt
    omega
  simp only [Function.comp_apply, set, if_pos hbound, hsize]

@[simp] theorem assign?_push_self (s : Stack H) (name : String) (v w : Value H) :
    (s.push name v).assign? name w = some (s.push name w) := by
  simp [assign?_eq_reassign, push, reassign]

end KeywordScript.Stack

namespace KeywordScript

theorem Keyword.name_of_ofName? {s : String} {k : Keyword} (h : Keyword.ofName? s = some k) :
    k.name = s := by
  unfold Keyword.ofName? at h
  simpa using List.find?_some h

theorem Keyword.ofName?_eq_none_iff {s : String} :
    Keyword.ofName? s = none ↔ s ∉ Keyword.names := by
  simp [Keyword.ofName?, Keyword.names]

theorem Keyword.ofName?_name (k : Keyword) : Keyword.ofName? k.name = some k := by
  cases k with
  | operator op => cases op <;> decide
  | _ => decide

/-- A keyword is found under its name where no frame has that name. -/
theorem Machine.find?_keyword {H : Type} {m : Machine H} {k : Keyword}
    (h : k.name ∉ m.stack.names) :
    m.find? k.name = some (.builtin k) := by
  have hnone : m.stack.lookup? k.name = none := Stack.lookup?_eq_none_iff.mpr h
  rw [Machine.find?, hnone, Keyword.ofName?_name]
  rfl

/-- Nothing is found under a name exactly when it is neither a keyword's nor a frame's. -/
theorem Machine.find?_eq_none_iff {H : Type} {m : Machine H} {name : String} :
    m.find? name = none ↔ name ∉ Keyword.names ∧ name ∉ m.stack.names := by
  rw [Machine.find?, Option.orElse_eq_orElse, Option.orElse_eq_or, Option.or_eq_none_iff,
    Option.map_eq_none_iff, Keyword.ofName?_eq_none_iff, Stack.lookup?_eq_none_iff, and_comm]

end KeywordScript
