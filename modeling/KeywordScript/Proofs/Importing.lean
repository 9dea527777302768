import Mathlib.Data.List.Forall2
import KeywordScript.Plugin.Basic

/-! Importing plugins: all names are known, and then the entries of the plugins are bound in their
order, or the first name that is not known is the answer. -/

namespace KeywordScript

variable {H : Type}

def Entry.isNative : Entry H → Bool
  | value _ => false
  | native _ => true

/-- The frames that entries become, in order. Natives have numbers from `next` on. -/
def Entry.frames (next : Nat) : List (String × Entry H) → List (Frame H)
  | [] => []
  | (name, value v) :: rest => { name, value := v } :: frames next rest
  | (name, native action) :: rest =>
    { name, value := .native { id := next, name, action } } :: frames (next + 1) rest

def Machine.withEntries (m : Machine H) (entries : List (String × Entry H)) : Machine H :=
  { m with
    stack := ⟨(Entry.frames m.fresh entries).reverse ++ m.stack.frames⟩
    fresh := m.fresh + entries.countP fun entry => entry.2.isNative }

private theorem Machine.withEntries_value (m : Machine H) (name : String) (v : Value H)
    (entries : List (String × Entry H)) :
    m.withEntries ((name, .value v) :: entries) = (m.bind name v).withEntries entries := by
  simp [withEntries, Entry.frames, Entry.isNative, Machine.bind, Stack.push]

private theorem Machine.withEntries_native (m : Machine H) (name : String) (action : Action H)
    (entries : List (String × Entry H)) :
    m.withEntries ((name, .native action) :: entries) =
      (m.issue.2.bind name (.native { id := m.fresh, name, action })).withEntries entries := by
  simp [withEntries, Entry.frames, Entry.isNative, Machine.bind, Stack.push, Machine.issue]
  omega

/-- Importing plugins binds their entries, those of the first plugin first. -/
theorem Machine.foldl_importPlugin (m : Machine H) (ps : List (Plugin H)) :
    ps.foldl importPlugin m = m.withEntries (ps.flatMap Plugin.entries) := by
  unfold importPlugin
  rw [← List.foldl_flatMap]
  induction ps.flatMap Plugin.entries generalizing m with
  | nil => simp [withEntries, Entry.frames]
  | cons entry rest ih =>
    obtain ⟨name, e⟩ := entry
    rw [List.foldl_cons, ih]
    cases e with
    | value v =>
      rw [withEntries_value]
      rfl
    | native action =>
      rw [withEntries_native]
      rfl

namespace Plugin

/-- The plugins that come under the names, in the same order. -/
def Named (known? : String → Option (Plugin H)) : List String → List (Plugin H) → Prop :=
  List.Forall₂ fun name p => known? name = some p

/-- The `name` is not known and all names before it are. -/
def FirstUnknown (known? : String → Option (Plugin H)) (names : List String) (name : String) :
    Prop :=
  ∃ before after, names = before ++ name :: after ∧ (∀ other ∈ before, known? other ≠ none) ∧
    known? name = none

variable {known? : String → Option (Plugin H)} {names : List String} {ps qs : List (Plugin H)}

private theorem firstUnknown_cons {first name : String} :
    FirstUnknown known? (first :: names) name ↔
      (known? first = none ∧ name = first) ∨
        (known? first ≠ none ∧ FirstUnknown known? names name) := by
  constructor
  · rintro ⟨before, after, hnames, hbefore, hname⟩
    cases before with
    | nil =>
      obtain ⟨rfl, -⟩ := List.cons.inj hnames
      exact .inl ⟨hname, rfl⟩
    | cons other before =>
      obtain ⟨rfl, hrest⟩ := List.cons.inj hnames
      obtain ⟨hother, hbefore⟩ := List.forall_mem_cons.mp hbefore
      exact .inr ⟨hother, before, after, hrest, hbefore, hname⟩
  · rintro (⟨hfirst, rfl⟩ | ⟨hfirst, before, after, rfl, hbefore, hname⟩)
    · exact ⟨[], names, rfl, List.forall_mem_nil _, hfirst⟩
    · exact ⟨first :: before, after, rfl, List.forall_mem_cons.mpr ⟨hfirst, hbefore⟩, hname⟩

theorem Named.ne_none_of_mem (h : Named known? names ps) {name : String} (hmem : name ∈ names) :
    known? name ≠ none := by
  induction h with
  | nil => cases hmem
  | cons hp _ ih =>
    rcases List.mem_cons.mp hmem with rfl | hrest
    · simp [hp]
    · exact ih hrest

theorem Named.not_firstUnknown (h : Named known? names ps) (name : String) :
    ¬FirstUnknown known? names name := by
  rintro ⟨before, after, rfl, -, hname⟩
  exact h.ne_none_of_mem List.mem_append_cons_self hname

theorem Named.unique (h : Named known? names ps) (h' : Named known? names qs) : ps = qs :=
  List.right_unique_forall₂' (fun _ _ _ hp hq => Option.some.inj (hp.symm.trans hq)) h h'

end Plugin

section Import

variable {known? : String → Option (Plugin H)} {m m' : Machine H} {names : List String}

theorem Machine.importNamed_eq_ok_iff :
    m.importNamed known? names = .ok m' ↔
      ∃ ps, Plugin.Named known? names ps ∧ m' = m.withEntries (ps.flatMap Plugin.entries) := by
  simp only [← foldl_importPlugin, Plugin.Named]
  induction names generalizing m with
  | nil => simp [importNamed, eq_comm]
  | cons name rest ih =>
    unfold importNamed
    cases hname : known? name with
    | none => simp [List.forall₂_cons_left_iff, hname]
    | some p =>
      rw [ih]
      constructor
      · rintro ⟨ps, hps, rfl⟩
        exact ⟨p :: ps, .cons hname hps, rfl⟩
      · rintro ⟨ps, hps, rfl⟩
        cases hps with
        | cons hp hps =>
          cases hname.symm.trans hp
          exact ⟨_, hps, rfl⟩

theorem Machine.importNamed_eq_error_iff {name : String} :
    m.importNamed known? names = .error name ↔ Plugin.FirstUnknown known? names name := by
  induction names generalizing m with
  | nil => simp [importNamed, Plugin.FirstUnknown]
  | cons first rest ih =>
    rw [Plugin.firstUnknown_cons]
    unfold importNamed
    cases hfirst : known? first with
    | none => simp [eq_comm]
    | some p => simp [ih]

theorem Plugin.FirstUnknown.unique {name other : String} (h : FirstUnknown known? names name)
    (h' : FirstUnknown known? names other) : name = other := by
  have herror := (Machine.importNamed_eq_error_iff (m := {})).mpr h
  cases herror.symm.trans (Machine.importNamed_eq_error_iff.mpr h')
  rfl

theorem Plugin.named_or_firstUnknown (known? : String → Option (Plugin H)) (names : List String) :
    (∃ ps, Named known? names ps) ∨ ∃ name, FirstUnknown known? names name := by
  cases h : Machine.importNamed known? {} names with
  | error name => exact .inr ⟨name, Machine.importNamed_eq_error_iff.mp h⟩
  | ok m =>
    obtain ⟨ps, hps, -⟩ := Machine.importNamed_eq_ok_iff.mp h
    exact .inl ⟨ps, hps⟩

end Import

end KeywordScript
