import KeywordScript.Json.Basic

/-! Members of objects, by their keys: members whose keys are in order are known from what is found
under each key, and a member is put into its place without a change to the others. -/

namespace KeywordScript

section Members

variable {α β : Type} {members members' : List (String × α)} {key : String}

theorem lookup_cons_eq (member : String × α) (rest : List (String × α)) (key : String) :
    (member :: rest).lookup key = if key = member.1 then some member.2 else rest.lookup key := by
  rw [List.lookup_cons]
  by_cases h : key = member.1
  · simp [h]
  · rw [if_neg h, beq_eq_false_iff_ne.mpr h]

theorem mem_of_lookup {a : α} (h : members.lookup key = some a) : (key, a) ∈ members := by
  obtain ⟨before, after, rfl, -⟩ := List.lookup_eq_some_iff.mp h
  simp

theorem lookup_map_values (f : String → α → β) (members : List (String × α)) (key : String) :
    (members.map fun member => (member.1, f member.1 member.2)).lookup key =
      (members.lookup key).map (f key) := by
  induction members with
  | nil => rfl
  | cons member rest ih =>
    rw [List.map_cons, lookup_cons_eq, lookup_cons_eq, ih]
    by_cases h : key = member.1
    · simp [h]
    · simp [h]

theorem lookup_filter_keys (p : String → Bool) (members : List (String × α)) (key : String) :
    (members.filter fun member => p member.1).lookup key =
      if p key then members.lookup key else none := by
  induction members with
  | nil => simp
  | cons member rest ih =>
    rw [List.filter_cons, lookup_cons_eq]
    by_cases hp : p member.1 = true
    · rw [if_pos hp, lookup_cons_eq, ih]
      by_cases h : key = member.1
      · simp [h, hp]
      · simp [h]
    · rw [if_neg hp, ih]
      by_cases h : key = member.1
      · simp [h, hp]
      · simp [h]

theorem lookup_eq_none_of_lt (h : ∀ member ∈ members, key < member.1) :
    members.lookup key = none := by
  rw [List.lookup_eq_none_iff]
  intro member hmember
  have hne : key ≠ member.1 := fun heq => String.lt_irrefl _ (heq ▸ h member hmember)
  simpa using hne

/-- A key before the first is not there. -/
theorem lookup_cons_of_lt {member : String × α}
    (hkeys : (member :: members).Pairwise fun a b => a.1 < b.1) (h : key < member.1) :
    (member :: members).lookup key = none := by
  refine lookup_eq_none_of_lt fun other hother => ?_
  rcases List.mem_cons.mp hother with rfl | hother
  · exact h
  · exact String.lt_trans h ((List.pairwise_cons.mp hkeys).1 other hother)

/-- Members whose keys are in order are known from what is found under each key. -/
theorem eq_of_lookup_eq (hkeys : members.Pairwise fun a b => a.1 < b.1)
    (hkeys' : members'.Pairwise fun a b => a.1 < b.1)
    (h : ∀ key, members.lookup key = members'.lookup key) : members = members' := by
  induction members generalizing members' with
  | nil =>
    cases members' with
    | nil => rfl
    | cons member' rest' => simpa [lookup_cons_eq] using h member'.1
  | cons member rest ih =>
    cases members' with
    | nil => simpa [lookup_cons_eq] using h member.1
    | cons member' rest' =>
      obtain ⟨hlt, hrest⟩ := List.pairwise_cons.mp hkeys
      obtain ⟨hlt', hrest'⟩ := List.pairwise_cons.mp hkeys'
      -- The first keys agree, since neither list has a key before its first.
      have hkey : member.1 = member'.1 := by
        have hle : ¬member.1 < member'.1 := by
          intro hbefore
          have hfound := (h member.1).trans (lookup_cons_of_lt hkeys' hbefore)
          simp [lookup_cons_eq] at hfound
        have hge : ¬member'.1 < member.1 := by
          intro hbefore
          have hfound := (h member'.1).symm.trans (lookup_cons_of_lt hkeys hbefore)
          simp [lookup_cons_eq] at hfound
        exact String.le_antisymm (String.not_lt.mp hge) (String.not_lt.mp hle)
      have hvalue : member.2 = member'.2 := by simpa [lookup_cons_eq, hkey] using h member.1
      have htail : rest = rest' := by
        refine ih hrest hrest' fun key => ?_
        by_cases hk : key = member.1
        · rw [hk, lookup_eq_none_of_lt hlt, hkey, lookup_eq_none_of_lt hlt']
        · simpa [lookup_cons_eq, hk, hkey ▸ hk] using h key
      rw [Prod.ext hkey hvalue, htail]

theorem eq_iff_lookup_eq (hkeys : members.Pairwise fun a b => a.1 < b.1)
    (hkeys' : members'.Pairwise fun a b => a.1 < b.1) :
    members = members' ↔ ∀ key, members.lookup key = members'.lookup key :=
  ⟨fun h _ => h ▸ rfl, eq_of_lookup_eq hkeys hkeys'⟩

end Members

namespace Json

variable {members : List (String × Json)}

theorem lookup_insertMember (k : String) (v : Json) (members : List (String × Json))
    (key : String) :
    (insertMember k v members).lookup key = if key = k then some v else members.lookup key := by
  induction members with
  | nil => simp [insertMember, lookup_cons_eq]
  | cons member rest ih =>
    obtain ⟨k', v'⟩ := member
    unfold insertMember
    split
    · rw [lookup_cons_eq]
    · split
      · rename_i hk
        rw [lookup_cons_eq, lookup_cons_eq, hk]
        by_cases h : key = k'
        · simp [h]
        · simp [h]
      · rename_i hk
        rw [lookup_cons_eq, lookup_cons_eq, ih]
        by_cases h : key = k'
        · rw [if_pos h, if_neg fun heq => hk (heq.symm.trans h), if_pos h]
        · simp [h]

theorem mem_insertMember {k : String} {v : Json} {member : String × Json}
    (h : member ∈ insertMember k v members) :
    member = (k, v) ∨ member ∈ members := by
  induction members with
  | nil => simpa [insertMember] using h
  | cons first rest ih =>
    obtain ⟨k', v'⟩ := first
    unfold insertMember at h
    split at h
    · simpa using h
    · split at h
      · rcases List.mem_cons.mp h with h | h
        · exact .inl h
        · exact .inr (List.mem_cons_of_mem _ h)
      · rcases List.mem_cons.mp h with h | h
        · exact .inr (h ▸ List.mem_cons_self)
        · exact (ih h).imp_right (List.mem_cons_of_mem _)

theorem pairwise_insertMember (hkeys : members.Pairwise fun a b => a.1 < b.1) (k : String)
    (v : Json) :
    (insertMember k v members).Pairwise fun a b => a.1 < b.1 := by
  induction members with
  | nil => simp [insertMember]
  | cons first rest ih =>
    obtain ⟨k', v'⟩ := first
    obtain ⟨hlt, hrest⟩ := List.pairwise_cons.mp hkeys
    unfold insertMember
    split
    · rename_i hk
      refine List.pairwise_cons.mpr ⟨fun member hmember => ?_, hkeys⟩
      rcases List.mem_cons.mp hmember with rfl | hmember
      · exact hk
      · exact String.lt_trans hk (hlt member hmember)
    · rename_i hk
      split
      · rename_i heq
        exact List.pairwise_cons.mpr ⟨fun member hmember => heq ▸ hlt member hmember, hrest⟩
      · rename_i hne
        refine List.pairwise_cons.mpr ⟨fun member hmember => ?_, ih hrest⟩
        rcases mem_insertMember hmember with rfl | hmember
        · have hle : k' ≤ k := String.not_lt.mp hk
          exact Decidable.byContradiction fun h => hne (String.le_antisymm (String.not_lt.mp h) hle)
        · exact hlt member hmember

end Json

end KeywordScript
