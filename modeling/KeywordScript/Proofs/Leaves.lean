import Mathlib.Logic.Relation
import KeywordScript.Proofs.Postcondition

/-! The text of lists. However its items are grouped, a list is printed as its leaves from left to
right with commas in between. -/

namespace KeywordScript

namespace Value

variable {H : Type}

mutual

/-- The texts of the leaves of an item. Null and the empty list are empty leaves. -/
def leaves : Value H → List String
  | null | list [] => [""]
  | list (v :: rest) => v.leaves ++ itemLeaves rest
  | v => [v.text]

def itemLeaves : List (Value H) → List String
  | [] => []
  | v :: rest => v.leaves ++ itemLeaves rest

end

def itemText : Value H → String
  | null => ""
  | v => v.text

theorem itemTexts_eq_map (items : List (Value H)) : itemTexts items = items.map itemText := by
  induction items with
  | nil => rfl
  | cons v rest ih => cases v <;> simp [itemTexts, itemText, ih]

theorem itemLeaves_eq_flatMap (items : List (Value H)) :
    itemLeaves items = items.flatMap leaves := by
  induction items with
  | nil => rfl
  | cons v rest ih => rw [itemLeaves, ih, List.flatMap_cons]

theorem leaves_list {items : List (Value H)} (h : items ≠ []) :
    (list items).leaves = items.flatMap leaves := by
  cases items with
  | nil => exact absurd rfl h
  | cons v rest => rw [leaves, itemLeaves_eq_flatMap, List.flatMap_cons]

theorem leaves_ne_nil (v : Value H) : v.leaves ≠ [] := by
  cases v with
  | list items =>
    cases items with
    | nil => simp [leaves]
    | cons v rest => simp [leaves, leaves_ne_nil v]
  | _ => simp [leaves]

private theorem flatMap_leaves_ne_nil {items : List (Value H)} (h : items ≠ []) :
    items.flatMap leaves ≠ [] := by
  cases items with
  | nil => exact absurd rfl h
  | cons v rest => simp [leaves_ne_nil v]

-- An inner list is joined before the list that holds it, so one induction goes through values and
-- their items.
mutual

theorem intercalate_leaves : (v : Value H) → String.intercalate "," v.leaves = v.itemText
  | list [] => by simp [leaves, itemText, text, itemTexts]
  | list (v :: rest) => by
    have hitems := intercalate_itemLeaves (v :: rest)
    rw [itemLeaves] at hitems
    rw [leaves, hitems]
    rfl
  | null | bool _ | num _ | str _ | code _ | builtin _ | native _ | func _ =>
    by simp [leaves, itemText]

theorem intercalate_itemLeaves : (items : List (Value H)) →
    String.intercalate "," (itemLeaves items) = String.intercalate "," (itemTexts items)
  | [] => rfl
  | [v] => by
    rw [itemLeaves, itemLeaves, List.append_nil, intercalate_leaves v, itemTexts_eq_map,
      List.map_singleton, String.intercalate_singleton]
  | v :: w :: rest => by
    have hrest := intercalate_itemLeaves (w :: rest)
    have hleaves : itemLeaves (w :: rest) ≠ [] := by
      rw [itemLeaves_eq_flatMap]
      exact flatMap_leaves_ne_nil (List.cons_ne_nil w rest)
    rw [itemLeaves, String.intercalate_append_of_ne_nil (leaves_ne_nil v) hleaves,
      intercalate_leaves v, hrest, itemTexts_eq_map, itemTexts_eq_map, List.map_cons, List.map_cons,
      List.map_cons, String.intercalate_cons_cons]

end

theorem text_list (items : List (Value H)) :
    (list items).text = String.intercalate "," (items.flatMap leaves) := by
  rw [text, ← intercalate_itemLeaves, itemLeaves_eq_flatMap]

/-- Items that stand next to each other are put into a list of their own, at any depth. -/
inductive Regroups : List (Value H) → List (Value H) → Prop
  | group (before items after : List (Value H)) (h : items ≠ []) :
      Regroups (before ++ items ++ after) (before ++ list items :: after)
  | inside {items items' : List (Value H)} (before after : List (Value H))
    (h : Regroups items items') :
      Regroups (before ++ list items :: after) (before ++ list items' :: after)

section Regroups

variable {items items' : List (Value H)}

theorem Regroups.ne_nil (h : Regroups items items') : items ≠ [] ∧ items' ≠ [] := by
  cases h with
  | group before items after h => simp [h]
  | inside before after h => simp

theorem Regroups.leaves_eq (h : Regroups items items') :
    items.flatMap leaves = items'.flatMap leaves := by
  induction h with
  | group before items after h => simp [leaves_list h]
  | inside before after h ih =>
    obtain ⟨hitems, hitems'⟩ := h.ne_nil
    simp [leaves_list hitems, leaves_list hitems', ih]

private theorem leaves_eq_of_eqvGen (h : Relation.EqvGen Regroups items items') :
    items.flatMap leaves = items'.flatMap leaves := by
  induction h with
  | rel xs ys h => exact h.leaves_eq
  | refl xs => rfl
  | symm xs ys _ ih => exact ih.symm
  | trans xs ys zs _ _ ihx ihy => exact ihx.trans ihy

end Regroups

theorem line_eq_join (args : List (Value H)) : line args = String.join (args.map itemText) := rfl

theorem line_append (xs ys : List (Value H)) : line (xs ++ ys) = line xs ++ line ys := by
  rw [line_eq_join, line_eq_join, line_eq_join, List.map_append, String.join_append]

theorem line_eq_join_filter (args : List (Value H)) :
    line args = String.join ((args.filter (· != null)).map text) := by
  rw [line_eq_join]
  induction args with
  | nil => rfl
  | cons v rest ih =>
    cases v with
    | null =>
      have hnull : ((null : Value H) != null) = false := rfl
      rw [List.filter_cons_of_neg (by simp [hnull]), ← ih, List.map_cons, String.join_cons]
      exact String.empty_append
    | bool _ | num _ | str _ | list _ | code _ | builtin _ | native _ | func _ =>
      rw [List.filter_cons_of_pos (by rfl), List.map_cons, List.map_cons, String.join_cons,
        String.join_cons, ih]
      rfl

end Value

section Print

variable {H : Type} [Host H]

/-- On these arguments `PRINT` writes a line and does nothing else. -/
def Prints (args : List (Value H)) (line : String) : Prop :=
  ∀ fuel (m : Machine H), call (fuel + 1) (.builtin .print) args m =
    some (.value .null, m.print line)

theorem prints_iff {args : List (Value H)} {line : String} :
    Prints args line ↔ line = Value.line args := by
  have hcall (fuel : Nat) (m : Machine H) :
      call (fuel + 1) (.builtin .print) args m =
        some (.value .null, m.print (Value.line args)) := by
    rw [call]
    rfl
  constructor
  · intro h
    have hmachine := (h 0 {}).symm.trans (hcall 0 {})
    simpa [Machine.print, Transcript.print] using hmachine
  · rintro rfl
    exact hcall

end Print

/-- A list is printed as its leaves with commas in between, so that grouping its items, or the items
of its inner lists, does not show. The line that `PRINT` writes is made of the texts of the
arguments that are not null, and the line of two lists of arguments together is made of the lines of
both. -/
theorem texts_of_leaves {H : Type} [Host H] :
    (∀ items : List (Value H),
      (Value.list items).text = String.intercalate "," (items.flatMap Value.leaves)) ∧
    (∀ items items' : List (Value H), Relation.EqvGen Value.Regroups items items' →
      (Value.list items).text = (Value.list items').text) ∧
    (∀ args : List (Value H),
      Prints args (String.join ((args.filter (· != .null)).map Value.text))) ∧
    ∀ (xs ys : List (Value H)) (line line' : String), Prints xs line → Prints ys line' →
      Prints (xs ++ ys) (line ++ line') := by
  refine ⟨Value.text_list, fun items items' h => ?_, fun args => ?_,
    fun xs ys line line' hxs hys => ?_⟩
  · rw [Value.text_list, Value.text_list, Value.leaves_eq_of_eqvGen h]
  · rw [prints_iff, Value.line_eq_join_filter]
  · rw [prints_iff] at hxs hys ⊢
    rw [hxs, hys, Value.line_append]

/-- Null and an empty list between other items, first flat and then two lists deep. -/
theorem texts_of_leaves_when_nested :
    let flat : List (Value Empty) := [.bool true, .null, .list [], .str "a"]
    let nested : List (Value Empty) := [.list [.bool true, .list [.null, .list []]], .str "a"]
    (Value.list flat).text = "true,,,a" ∧ (Value.list flat).text = (Value.list nested).text ∧
    Prints [.list flat, .null] "true,,,a" ∧ Prints [.null, .str "b", .list nested] "btrue,,,a" ∧
    Prints ([.list flat, .null] ++ [.null, .str "b", .list nested]) "true,,,abtrue,,,a" := by
  intro flat nested
  obtain ⟨hleaves, hregroup, hprints, happend⟩ := texts_of_leaves (H := Empty)
  have htext : (Value.list flat).text = "true,,,a" := hleaves flat
  have hinner : Value.Regroups flat [.bool true, .list [.null, .list []], .str "a"] :=
    .group [.bool true] [.null, .list []] [.str "a"] (List.cons_ne_nil _ _)
  have houter : Value.Regroups [.bool true, .list [.null, .list []], .str "a"] nested :=
    .group [] [.bool true, .list [.null, .list []]] [.str "a"] (List.cons_ne_nil _ _)
  have hsame := hregroup flat nested (.trans _ _ _ (.rel _ _ hinner) (.rel _ _ houter))
  have hflat : Prints [.list flat, .null] "true,,,a" := hprints _
  have hnested : Prints [.null, .str "b", .list nested] "btrue,,,a" := hprints _
  exact ⟨htext, hsame, hflat, hnested, happend _ _ _ _ hflat hnested⟩

end KeywordScript
