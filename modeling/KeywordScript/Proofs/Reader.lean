import KeywordScript.Eval.Statement

/-! What the readers of arguments give: every piece of a statement stands among the arguments it was
read from, and code is always read off the last of them. -/

namespace KeywordScript

variable {H : Type} {args : List (Value H)}

theorem bind_eq_ok {ε α β : Type} {x : Except ε α} {f : α → Except ε β} {b : β}
    (h : (x >>= f) = .ok b) : ∃ a, x = .ok a ∧ f a = .ok b := by
  cases x with
  | error e => cases h
  | ok a => exact ⟨a, rfl, h⟩

theorem Argument.splitCode_eq_ok {caller : String} {p : Expr × List (Value H)}
    (h : splitCode caller args = .ok p) : ∃ c, args.getLast? = some (.code c) ∧ p.1 = c.body := by
  unfold splitCode at h
  split at h
  · rename_i c hc
    cases h
    exact ⟨c, hc, rfl⟩
  · cases h
  · cases h

theorem Binding.value_of_read {caller : String} {b : Binding H}
    (h : Binding.read caller args = .ok b) :
    b.value = args[1]?.getD .null := by
  obtain ⟨name, -, hb⟩ := bind_eq_ok h
  cases hb
  rfl

theorem Definition.body_of_read {d : Definition} (h : Definition.read args = .ok d) :
    ∃ c, args.getLast? = some (.code c) ∧ d.body = c.body := by
  obtain ⟨p, hp, h⟩ := bind_eq_ok h
  obtain ⟨c, hc, hb⟩ := Argument.splitCode_eq_ok hp
  dsimp only at h
  split at h
  · cases h
  · obtain ⟨name, -, h⟩ := bind_eq_ok h
    obtain ⟨params, -, h⟩ := bind_eq_ok h
    cases h
    exact ⟨c, hc, hb⟩

theorem branch_of_chosenBranch {e : Expr} (h : chosenBranch args = .ok (some e)) :
    ∃ c, args.getLast? = some (.code c) ∧ e ∈ c.body.items := by
  obtain ⟨p, hp, h⟩ := bind_eq_ok h
  obtain ⟨c, hc, hb⟩ := Argument.splitCode_eq_ok hp
  refine ⟨c, hc, ?_⟩
  rw [← hb]
  dsimp only at h
  split at h
  · cases h
  · have he := Except.ok.inj h
    split at he
    · exact List.mem_of_getElem? he
    · exact List.mem_of_getElem? he

theorem Count.body_of_read {c : Count} (h : Count.read args = .ok c) :
    ∃ code, args.getLast? = some (.code code) ∧ c.body = code.body := by
  obtain ⟨p, hp, h⟩ := bind_eq_ok h
  obtain ⟨code, hc, hb⟩ := Argument.splitCode_eq_ok hp
  dsimp only at h
  split at h
  · cases h
  · obtain ⟨name, -, h⟩ := bind_eq_ok h
    obtain ⟨start, -, h⟩ := bind_eq_ok h
    obtain ⟨stop, -, h⟩ := bind_eq_ok h
    obtain ⟨step, -, h⟩ := bind_eq_ok h
    cases h
    exact ⟨code, hc, hb⟩

theorem Repetition.parts_of_read {r : Repetition} (h : Repetition.read args = .ok r) :
    ∃ c, args.getLast? = some (.code c) ∧ r.body ∈ c.body.items ∧
      ∃ head ∈ c.body.items, r.condition ∈ head.items := by
  obtain ⟨p, hp, h⟩ := bind_eq_ok h
  obtain ⟨c, hc, hb⟩ := Argument.splitCode_eq_ok hp
  refine ⟨c, hc, ?_⟩
  rw [← hb]
  dsimp only at h
  split at h
  · rename_i head body rest hi
    split at h
    · rename_i condition more hh
      cases h
      refine ⟨by simp [hi], head, by simp [hi], by simp [hh]⟩
    · cases h
  · cases h

end KeywordScript
